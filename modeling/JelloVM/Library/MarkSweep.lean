import Mathlib

namespace MarkSweep

open Function Relation

section Reach

variable {α : Type} {succ : α → List α} {roots : List α} {p q : α}

/-- `q` is reached from one of the roots. -/
def Reaches (succ : α → List α) (roots : List α) (q : α) : Prop :=
  ∃ p ∈ roots, ReflTransGen (fun a b ↦ b ∈ succ a) p q

theorem Reaches.root (h : p ∈ roots) : Reaches succ roots p := ⟨p, h, .refl⟩

theorem Reaches.tail (h : Reaches succ roots p) (hq : q ∈ succ p) : Reaches succ roots q := by
  obtain ⟨r, hr, hp⟩ := h
  exact ⟨r, hr, hp.tail hq⟩

/-- What holds of the roots and is kept by a step holds of all that is reached. -/
theorem Reaches.induct {P : α → Prop} (h : Reaches succ roots q) (hroot : ∀ p ∈ roots, P p)
    (hstep : ∀ p q, P p → q ∈ succ p → P q) : P q := by
  obtain ⟨r, hr, hq⟩ := h
  induction hq with
  | refl => exact hroot r hr
  | tail _ hstep' ih => exact hstep _ _ ih hstep'

end Reach

variable {α : Type} [DecidableEq α]

/-- What has been marked, and what of it is still to be traced. -/
structure Marking (α : Type) where
  marked : α → Bool
  items : List α

def mark (p : α) (s : Marking α) : Marking α :=
  if s.marked p then s else ⟨update s.marked p true, p :: s.items⟩

def markAll (ps : List α) (s : Marking α) : Marking α := ps.foldl (fun s p ↦ mark p s) s

/-- Traces what is on the stack until it is empty. No result means that this takes more than
`fuel` rounds. -/
def drain (succ : α → List α) : ℕ → Marking α → Option (α → Bool)
  | 0, _ => none
  | fuel + 1, s =>
    match s.items with
    | [] => some s.marked
    | p :: ps => drain succ fuel (markAll (succ p) ⟨s.marked, ps⟩)

variable {succ : α → List α} {roots ps : List α} {p q : α} {s : Marking α} {before : α → Bool}

theorem mark_marked : (mark p s).marked q = true ↔ s.marked q = true ∨ q = p := by
  unfold mark
  split_ifs with hp
  · refine ⟨.inl, ?_⟩
    rintro (h | rfl)
    · exact h
    · exact hp
  · by_cases hq : q = p
    · simp [hq]
    · simp [hq]

theorem markAll_cons : markAll (p :: ps) s = markAll ps (mark p s) := rfl

theorem markAll_marked :
    (markAll ps s).marked q = true ↔ s.marked q = true ∨ q ∈ ps := by
  induction ps generalizing s with
  | nil => simp [markAll]
  | cons p ps ih =>
    rw [markAll_cons, ih, mark_marked, List.mem_cons, or_assoc]

theorem mem_mark (h : q ∈ (mark p s).items) : q ∈ s.items ∨ q = p := by
  unfold mark at h
  split_ifs at h
  · exact .inl h
  · rcases List.mem_cons.mp h with rfl | hq
    · exact .inr rfl
    · exact .inl hq

theorem mark_items_subset (h : q ∈ s.items) : q ∈ (mark p s).items := by
  unfold mark
  split_ifs
  · exact h
  · exact List.mem_cons_of_mem p h

theorem mark_new (hno : s.marked q = false) (h : (mark p s).marked q = true) :
    q ∈ (mark p s).items := by
  rcases mark_marked.mp h with h | rfl
  · rw [hno] at h
    exact absurd h Bool.false_ne_true
  · unfold mark
    rw [if_neg (by simp [hno])]
    exact List.mem_cons_self

theorem markAll_items_subset (h : q ∈ s.items) : q ∈ (markAll ps s).items := by
  induction ps generalizing s with
  | nil => exact h
  | cons p ps ih => exact ih (mark_items_subset h)

theorem mem_markAll (h : q ∈ (markAll ps s).items) : q ∈ s.items ∨ q ∈ ps := by
  induction ps generalizing s with
  | nil => exact .inl h
  | cons p ps ih =>
    rcases ih h with h | h
    · rcases mem_mark h with h | rfl
      · exact .inl h
      · exact .inr List.mem_cons_self
    · exact .inr (List.mem_cons_of_mem p h)

theorem markAll_new (hno : s.marked q = false) (h : (markAll ps s).marked q = true) :
    q ∈ (markAll ps s).items := by
  induction ps generalizing s with
  | nil =>
    rw [markAll, List.foldl_nil, hno] at h
    exact absurd h Bool.false_ne_true
  | cons p ps ih =>
    cases hp : (mark p s).marked q with
    | false => exact ih hp h
    | true =>
      rw [markAll_cons]
      exact markAll_items_subset (mark_new hno hp)

/-- Marking goes on: what is marked is reached or was marked before, what is on the stack is
marked, and what is marked but no longer on the stack has been traced. -/
structure Tracing (succ : α → List α) (roots : List α) (before : α → Bool) (s : Marking α) :
    Prop where
  sound (q : α) : s.marked q = true → Reaches succ roots q ∨ before q = true
  kept (q : α) : before q = true → s.marked q = true
  reached (q : α) : q ∈ s.items → Reaches succ roots q
  roots (q : α) : q ∈ roots → s.marked q = true
  traced (p q : α) : s.marked p = true → p ∉ s.items → before p = false → q ∈ succ p →
    s.marked q = true

theorem tracing_start (succ : α → List α) (roots : List α) (before : α → Bool) :
    Tracing succ roots before (markAll roots ⟨before, []⟩) := by
  refine ⟨fun q hq ↦ ?_, fun q hq ↦ markAll_marked.mpr (.inl hq), fun q hq ↦ ?_,
    fun q hq ↦ markAll_marked.mpr (.inr hq), fun p q hp hno hbefore _ ↦ ?_⟩
  · rcases markAll_marked.mp hq with h | h
    · exact .inr h
    · exact .inl (.root h)
  · rcases mem_markAll hq with h | h
    · exact absurd h List.not_mem_nil
    · exact .root h
  · exact absurd (markAll_new hbefore hp) hno

theorem Tracing.step (h : Tracing succ roots before s) (hs : s.items = p :: ps) :
    Tracing succ roots before (markAll (succ p) ⟨s.marked, ps⟩) := by
  have hp : Reaches succ roots p := h.reached p (by rw [hs]; exact List.mem_cons_self)
  refine ⟨fun q hq ↦ ?_, fun q hq ↦ markAll_marked.mpr (.inl (h.kept q hq)), fun q hq ↦ ?_,
    fun q hq ↦ markAll_marked.mpr (.inl (h.roots q hq)), fun r q hr hno hbefore hq ↦ ?_⟩
  · rcases markAll_marked.mp hq with hq | hq
    · exact h.sound q hq
    · exact .inl (hp.tail hq)
  · rcases mem_markAll hq with hq | hq
    · exact h.reached q (by rw [hs]; exact List.mem_cons_of_mem p hq)
    · exact hp.tail hq
  · refine markAll_marked.mpr ?_
    by_cases hrp : r = p
    · exact .inr (hrp ▸ hq)
    · cases hmarked : s.marked r with
      | false =>
        have hnew := markAll_new (s := ⟨s.marked, ps⟩) hmarked hr
        exact absurd hnew hno
      | true =>
        refine .inl (h.traced r q hmarked (fun hr' ↦ ?_) hbefore hq)
        rw [hs] at hr'
        rcases List.mem_cons.mp hr' with hr' | hr'
        · exact hrp hr'
        · exact hno (markAll_items_subset hr')

omit [DecidableEq α] in
/-- When the stack is empty, exactly what is reached has been marked, if nothing of it was
before. -/
theorem Tracing.marked_iff (h : Tracing succ roots before s) (hs : s.items = [])
    (hbefore : ∀ q, Reaches succ roots q → before q = false) (q : α) :
    s.marked q = true ↔ Reaches succ roots q ∨ before q = true := by
  constructor
  · exact h.sound q
  · rintro (hq | hq)
    · have hboth : Reaches succ roots q ∧ s.marked q = true := by
        refine hq.induct (P := fun q ↦ Reaches succ roots q ∧ s.marked q = true)
          (fun p hp ↦ ⟨.root hp, h.roots p hp⟩) fun p q hp hq ↦ ⟨hp.1.tail hq, ?_⟩
        exact h.traced p q hp.2 (by simp [hs]) (hbefore p hp.1) hq
      exact hboth.2
    · exact h.kept q hq

theorem drain_marked {fuel : ℕ} {marked : α → Bool} (h : Tracing succ roots before s)
    (hbefore : ∀ q, Reaches succ roots q → before q = false)
    (hr : drain succ fuel s = some marked) (q : α) :
    marked q = true ↔ Reaches succ roots q ∨ before q = true := by
  induction fuel generalizing s with
  | zero => exact absurd hr (Option.some_ne_none _).symm
  | succ fuel ih =>
    unfold drain at hr
    split at hr
    · next hs =>
      obtain rfl := Option.some.inj hr
      exact h.marked_iff hs hbefore q
    · next p ps hs => exact ih (h.step hs) hr

/-- The rounds that are left, if all that is reached lies in `U`. -/
def toTrace (U : Finset α) (s : Marking α) : ℕ :=
  (U.filter fun q ↦ s.marked q = false).card + s.items.length

theorem toTrace_mark_le {U : Finset α} (hp : p ∈ U) : toTrace U (mark p s) ≤ toTrace U s := by
  unfold mark
  split_ifs with hmarked
  · exact le_rfl
  · have hfilter : (U.filter fun q ↦ update s.marked p true q = false) =
        (U.filter fun q ↦ s.marked q = false).erase p := by
      ext q
      by_cases hq : q = p
      · simp [hq]
      · simp [hq]
    have hmem : p ∈ U.filter fun q ↦ s.marked q = false :=
      Finset.mem_filter.mpr ⟨hp, by simpa using hmarked⟩
    have hcard := Finset.card_erase_add_one hmem
    simp only [toTrace, hfilter, List.length_cons]
    omega

theorem toTrace_markAll_le {U : Finset α} (hps : ∀ p ∈ ps, p ∈ U) :
    toTrace U (markAll ps s) ≤ toTrace U s := by
  induction ps generalizing s with
  | nil => exact le_rfl
  | cons p ps ih =>
    calc toTrace U (markAll ps (mark p s))
        ≤ toTrace U (mark p s) := ih fun q hq ↦ hps q (List.mem_cons_of_mem p hq)
      _ ≤ toTrace U s := toTrace_mark_le (hps p List.mem_cons_self)

theorem drain_of_tracing {U : Finset α} {fuel : ℕ} (h : Tracing succ roots before s)
    (hU : ∀ q, Reaches succ roots q → q ∈ U) (hfuel : toTrace U s < fuel) :
    ∃ marked, drain succ fuel s = some marked := by
  induction fuel generalizing s with
  | zero => omega
  | succ fuel ih =>
    unfold drain
    split
    · exact ⟨s.marked, rfl⟩
    · next p ps hs =>
      have hp : Reaches succ roots p := h.reached p (by rw [hs]; exact List.mem_cons_self)
      refine ih (h.step hs) ?_
      have hle : toTrace U (markAll (succ p) ⟨s.marked, ps⟩) ≤ toTrace U ⟨s.marked, ps⟩ :=
        toTrace_markAll_le fun q hq ↦ hU q (hp.tail hq)
      have hpop : toTrace U ⟨s.marked, ps⟩ + 1 = toTrace U s := by
        simp only [toTrace, hs, List.length_cons]
        omega
      omega

/-- Marking from the roots ends within as many rounds as there is to reach, and marks exactly
what is reached. -/
theorem drain_spec {U : Finset α} {fuel : ℕ} (hU : ∀ q, Reaches succ roots q → q ∈ U)
    (hfuel : U.card < fuel) (hbefore : ∀ q, Reaches succ roots q → before q = false) :
    ∃ marked, drain succ fuel (markAll roots ⟨before, []⟩) = some marked ∧
      ∀ q, marked q = true ↔ Reaches succ roots q ∨ before q = true := by
  have hstart := tracing_start succ roots before
  have hle : toTrace U (markAll roots ⟨before, []⟩) ≤ toTrace U ⟨before, []⟩ :=
    toTrace_markAll_le fun q hq ↦ hU q (.root hq)
  have hcard : toTrace U ⟨before, []⟩ ≤ U.card := by
    simp only [toTrace, List.length_nil, add_zero]
    exact Finset.card_filter_le U _
  obtain ⟨marked, hmarked⟩ := drain_of_tracing hstart hU (by omega : _ < fuel)
  exact ⟨marked, hmarked, drain_marked hstart hbefore hmarked⟩

end MarkSweep
