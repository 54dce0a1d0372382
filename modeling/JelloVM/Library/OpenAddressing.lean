import Mathlib

namespace OpenAddressing

open Function

inductive SlotState
  | empty
  | occupied
  | tomb
  deriving DecidableEq, Repr, Inhabited

/-- A table of `cap` slots. What lies past `cap` is not part of the table. -/
structure Table (K V : Type) where
  cap : ℕ
  state : ℕ → SlotState
  key : ℕ → K
  val : ℕ → V

variable {K V : Type} (home : K → ℕ)

def Holds (t : Table K V) (i : ℕ) (k : K) : Prop :=
  i < t.cap ∧ t.state i = .occupied ∧ t.key i = k

/-- The `j`-th position on the probe path of `k`. -/
def pos (t : Table K V) (k : K) (j : ℕ) : ℕ := (home k + j) % t.cap

/-- The first `d` positions on the probe path of `k` are not empty. -/
def Blocked (t : Table K V) (k : K) (d : ℕ) : Prop :=
  ∀ j < d, t.state (pos home t k j) ≠ .empty

structure WellFormed (t : Table K V) : Prop where
  cap_pos : 0 < t.cap
  unique : ∀ {i j k}, Holds t i k → Holds t j k → i = j
  chain : ∀ {i k}, Holds t i k → ∃ d, pos home t k d = i ∧ Blocked home t k d

/-- One key is looked for along the probe path; the first tombstone met is
remembered for an insertion. Running out of `fuel` models a loop still going. -/
def scan [DecidableEq K] (t : Table K V) (k : K) : ℕ → ℕ → Option ℕ → Option (ℕ × Bool)
  | 0, _, _ => none
  | fuel + 1, i, first =>
    match t.state i with
    | .empty => some (first.getD i, false)
    | .occupied =>
      if t.key i = k then some (i, true) else scan t k fuel ((i + 1) % t.cap) first
    | .tomb => scan t k fuel ((i + 1) % t.cap) (first.or (some i))

theorem scan_empty [DecidableEq K] {t : Table K V} {i : ℕ} (h : t.state i = .empty) (k : K)
    (fuel : ℕ) (first : Option ℕ) : scan t k (fuel + 1) i first = some (first.getD i, false) := by
  rw [scan, h]

theorem scan_occupied [DecidableEq K] {t : Table K V} {i : ℕ} (h : t.state i = .occupied) (k : K)
    (fuel : ℕ) (first : Option ℕ) : scan t k (fuel + 1) i first =
      if t.key i = k then some (i, true) else scan t k fuel ((i + 1) % t.cap) first := by
  rw [scan, h]

theorem scan_tomb [DecidableEq K] {t : Table K V} {i : ℕ} (h : t.state i = .tomb) (k : K)
    (fuel : ℕ) (first : Option ℕ) : scan t k (fuel + 1) i first =
      scan t k fuel ((i + 1) % t.cap) (first.or (some i)) := by
  rw [scan, h]

def Table.put (t : Table K V) (i : ℕ) (k : K) (v : V) : Table K V :=
  { t with state := update t.state i .occupied, key := update t.key i k, val := update t.val i v }

def Table.bury (t : Table K V) (i : ℕ) : Table K V :=
  { t with state := update t.state i .tomb }

def Table.assign (t : Table K V) (i : ℕ) (v : V) : Table K V :=
  { t with val := update t.val i v }

theorem pos_lt {t : Table K V} (h : 0 < t.cap) (k : K) (j : ℕ) : pos home t k j < t.cap :=
  Nat.mod_lt _ h

theorem pos_succ (t : Table K V) (k : K) (j : ℕ) :
    (pos home t k j + 1) % t.cap = pos home t k (j + 1) := by
  simp only [pos, Nat.mod_add_mod, Nat.add_assoc]

theorem exists_pos {t : Table K V} (k : K) {i : ℕ} (hi : i < t.cap) :
    ∃ j < t.cap, pos home t k j = i := by
  have hc : 0 < t.cap := by omega
  have hh := Nat.mod_lt (home k) hc
  by_cases hle : home k % t.cap ≤ i
  · refine ⟨i - home k % t.cap, by omega, ?_⟩
    rw [pos, Nat.add_mod, Nat.mod_eq_of_lt (show i - home k % t.cap < t.cap by omega)]
    rw [Nat.add_sub_cancel' hle, Nat.mod_eq_of_lt hi]
  · refine ⟨i + t.cap - home k % t.cap, by omega, ?_⟩
    rw [pos, Nat.add_mod, Nat.mod_eq_of_lt (show i + t.cap - home k % t.cap < t.cap by omega)]
    rw [show home k % t.cap + (i + t.cap - home k % t.cap) = i + t.cap by omega,
      Nat.add_mod_right, Nat.mod_eq_of_lt hi]

/-- A slot an insertion of `k` may take: not in use, and no empty slot before it. An
empty slot is taken only when the path to it has no tombstone. -/
structure Free (t : Table K V) (k : K) (q : ℕ) : Prop where
  lt_cap : q < t.cap
  vacant : t.state q ≠ .occupied
  reach : ∃ e, pos home t k e = q ∧ Blocked home t k e
  reuse : t.state q = .empty → ∀ e, Blocked home t k e → t.state (pos home t k e) ≠ .tomb

def Absent (t : Table K V) (k : K) : Prop := ∀ i, ¬ Holds t i k

def HasEmpty (t : Table K V) : Prop := ∃ i < t.cap, t.state i = .empty

section Scan

variable {t : Table K V} {k : K}

/-- What is known of the remembered tombstone after `j` positions. -/
structure Remembers (t : Table K V) (k : K) (j : ℕ) (first : Option ℕ) : Prop where
  blocked : Blocked home t k j
  missed : ∀ m < j, ¬ Holds t (pos home t k m) k
  tomb : ∀ q, first = some q → t.state q = .tomb ∧ ∃ e < j, pos home t k e = q
  none_tomb : first = none → ∀ m < j, t.state (pos home t k m) ≠ .tomb

theorem Remembers.init : Remembers home t k 0 none where
  blocked := fun _ h ↦ absurd h (by omega)
  missed := fun _ h ↦ absurd h (by omega)
  tomb := fun _ h ↦ by simp at h
  none_tomb := fun _ _ h ↦ absurd h (by omega)

theorem Remembers.pass_occupied {j : ℕ} {first : Option ℕ} (h : Remembers home t k j first)
    (hs : t.state (pos home t k j) = .occupied) (hk : ¬ Holds t (pos home t k j) k) :
    Remembers home t k (j + 1) first := by
  refine ⟨fun m hm ↦ ?_, fun m hm ↦ ?_, fun q hq ↦ ?_, fun hn m hm ↦ ?_⟩
  · obtain hlt | rfl := Nat.lt_succ_iff_lt_or_eq.mp hm
    · exact h.blocked m hlt
    · simp [hs]
  · obtain hlt | rfl := Nat.lt_succ_iff_lt_or_eq.mp hm
    · exact h.missed m hlt
    · exact hk
  · obtain ⟨ht, e, he, hp⟩ := h.tomb q hq
    exact ⟨ht, e, by omega, hp⟩
  · obtain hlt | rfl := Nat.lt_succ_iff_lt_or_eq.mp hm
    · exact h.none_tomb hn m hlt
    · simp [hs]

theorem Remembers.pass_tomb {j : ℕ} {first : Option ℕ} (h : Remembers home t k j first)
    (hs : t.state (pos home t k j) = .tomb) :
    Remembers home t k (j + 1) (first.or (some (pos home t k j))) := by
  refine ⟨fun m hm ↦ ?_, fun m hm ↦ ?_, fun q hq ↦ ?_, fun hn ↦ ?_⟩
  · obtain hlt | rfl := Nat.lt_succ_iff_lt_or_eq.mp hm
    · exact h.blocked m hlt
    · simp [hs]
  · obtain hlt | rfl := Nat.lt_succ_iff_lt_or_eq.mp hm
    · exact h.missed m hlt
    · simp [Holds, hs]
  · cases first with
    | some q' =>
      obtain ⟨ht, e, he, hp⟩ := h.tomb q hq
      exact ⟨ht, e, by omega, hp⟩
    | none =>
      simp only [Option.none_or, Option.some.injEq] at hq
      exact ⟨hq ▸ hs, j, by omega, hq⟩
  · cases first <;> simp at hn

theorem Remembers.absent {j : ℕ} {first : Option ℕ} (wf : WellFormed home t)
    (h : Remembers home t k j first) (hs : t.state (pos home t k j) = .empty) : Absent t k := by
  intro i hi
  obtain ⟨d, hd, hb⟩ := wf.chain hi
  have hle : d ≤ j := by
    by_contra hlt
    exact hb j (by omega) hs
  obtain hlt | rfl := Nat.lt_or_eq_of_le hle
  · exact h.missed d hlt (hd ▸ hi)
  · rw [hd, hi.2.1] at hs
    simp at hs

theorem Remembers.free {j : ℕ} {first : Option ℕ} (hc : 0 < t.cap)
    (h : Remembers home t k j first) (hs : t.state (pos home t k j) = .empty) :
    Free home t k (first.getD (pos home t k j)) := by
  cases first with
  | none =>
    refine ⟨pos_lt home hc k j, by simp [hs], ⟨j, rfl, h.blocked⟩, fun _ e he ↦ ?_⟩
    obtain hlt | rfl | hgt := Nat.lt_trichotomy e j
    · exact h.none_tomb rfl e hlt
    · simp [hs]
    · exact absurd hs (he j hgt)
  | some q =>
    obtain ⟨ht, e, he, rfl⟩ := h.tomb q rfl
    refine ⟨pos_lt home hc k e, by simp [ht], ⟨e, rfl, fun m hm ↦ h.blocked m (by omega)⟩, ?_⟩
    intro h0
    simp [ht] at h0

variable [DecidableEq K]

theorem scan_sound_from (wf : WellFormed home t) (fuel j : ℕ) (first : Option ℕ) {q : ℕ} {b : Bool}
    (hr : Remembers home t k j first)
    (hs : scan t k fuel (pos home t k j) first = some (q, b)) :
    (b = true ∧ Holds t q k) ∨ (b = false ∧ Absent t k ∧ Free home t k q) := by
  induction fuel generalizing j first with
  | zero => simp [scan] at hs
  | succ fuel ih =>
    rw [scan, pos_succ] at hs
    cases he : t.state (pos home t k j) with
    | empty =>
      simp only [he, Option.some.injEq, Prod.mk.injEq] at hs
      obtain ⟨rfl, rfl⟩ := hs
      exact .inr ⟨rfl, hr.absent home wf he, hr.free home wf.cap_pos he⟩
    | occupied =>
      simp only [he] at hs
      by_cases hk : t.key (pos home t k j) = k
      · simp only [hk, if_true, Option.some.injEq, Prod.mk.injEq] at hs
        obtain ⟨rfl, rfl⟩ := hs
        exact .inl ⟨rfl, pos_lt home wf.cap_pos k j, he, hk⟩
      · rw [if_neg hk] at hs
        exact ih (j + 1) first (hr.pass_occupied home he fun h ↦ hk h.2.2) hs
    | tomb =>
      simp only [he] at hs
      exact ih (j + 1) _ (hr.pass_tomb home he) hs

theorem scan_sound (wf : WellFormed home t) {fuel q : ℕ} {b : Bool}
    (hs : scan t k fuel (pos home t k 0) none = some (q, b)) :
    (b = true ∧ Holds t q k) ∨ (b = false ∧ Absent t k ∧ Free home t k q) :=
  scan_sound_from home wf fuel 0 none (.init home) hs

theorem scan_returns_from {d : ℕ}
    (hd : t.state (pos home t k d) = .empty ∨ Holds t (pos home t k d) k)
    (n j fuel : ℕ) (first : Option ℕ) (hn : j + n = d) (hf : n < fuel) :
    (scan t k fuel (pos home t k j) first).isSome := by
  induction n generalizing j fuel first with
  | zero =>
    obtain ⟨fuel, rfl⟩ : ∃ m, fuel = m + 1 := ⟨fuel - 1, by omega⟩
    obtain rfl : j = d := by omega
    rw [scan]
    obtain he | hk := hd
    · simp [he]
    · simp [hk.2.1, hk.2.2]
  | succ n ih =>
    obtain ⟨fuel, rfl⟩ : ∃ m, fuel = m + 1 := ⟨fuel - 1, by omega⟩
    rw [scan, pos_succ]
    have hnext := fun first ↦ ih (j + 1) fuel first (by omega) (by omega)
    cases he : t.state (pos home t k j) with
    | empty => simp
    | occupied =>
      by_cases hk : t.key (pos home t k j) = k
      · simp [hk]
      · simpa [hk] using hnext first
    | tomb => simpa using hnext _

theorem scan_returns (hd : HasEmpty t ∨ ¬ Absent t k) {fuel : ℕ} (hf : t.cap ≤ fuel) :
    (scan t k fuel (pos home t k 0) none).isSome := by
  have hi : ∃ i < t.cap, t.state i = .empty ∨ Holds t i k := by
    obtain ⟨i, hi, he⟩ | h := hd
    · exact ⟨i, hi, .inl he⟩
    · simp only [Absent, not_forall, not_not] at h
      obtain ⟨i, hi⟩ := h
      exact ⟨i, hi.1, .inr hi⟩
  obtain ⟨i, hi, h⟩ := hi
  obtain ⟨d, hd, rfl⟩ := exists_pos home k hi
  exact scan_returns_from home h d 0 fuel none (by omega) (by omega)

theorem scan_full_from (hc : 0 < t.cap) (he : ¬ HasEmpty t) (hk : Absent t k) (fuel j : ℕ)
    (first : Option ℕ) : scan t k fuel (pos home t k j) first = none := by
  induction fuel generalizing j first with
  | zero => rfl
  | succ fuel ih =>
    have hlt := pos_lt home hc k j
    rw [scan, pos_succ]
    cases hs : t.state (pos home t k j) with
    | empty => exact absurd ⟨_, hlt, hs⟩ he
    | occupied =>
      have hne : t.key (pos home t k j) ≠ k := fun h ↦ hk _ ⟨hlt, hs, h⟩
      simp only [hne, if_false]
      exact ih (j + 1) first
    | tomb => exact ih (j + 1) _

theorem scan_full (hc : 0 < t.cap) (he : ¬ HasEmpty t) (hk : Absent t k) (fuel : ℕ) :
    scan t k fuel (pos home t k 0) none = none :=
  scan_full_from home hc he hk fuel 0 none

end Scan

section Update

variable {t : Table K V} {k : K} {i : ℕ}

theorem holds_put (t : Table K V) (q : ℕ) (k : K) (v : V) (i : ℕ) (k' : K) :
    Holds (t.put q k v) i k' ↔ (i = q ∧ q < t.cap ∧ k = k') ∨ (i ≠ q ∧ Holds t i k') := by
  by_cases h : i = q
  · subst h
    simp [Holds, Table.put]
  · simp [Holds, Table.put, h]

theorem holds_bury (t : Table K V) (q i : ℕ) (k' : K) :
    Holds (t.bury q) i k' ↔ i ≠ q ∧ Holds t i k' := by
  by_cases h : i = q
  · subst h
    simp [Holds, Table.bury]
  · simp [Holds, Table.bury, h]

theorem holds_assign (t : Table K V) (q i : ℕ) (v : V) (k' : K) :
    Holds (t.assign q v) i k' ↔ Holds t i k' := Iff.rfl

theorem blocked_put {q d : ℕ} {v : V} {k' : K} (h : Blocked home t k' d) :
    Blocked home (t.put q k v) k' d := by
  intro j hj
  have hne := h j hj
  change update t.state q .occupied (pos home t k' j) ≠ .empty
  by_cases hq : pos home t k' j = q
  · simp [hq]
  · rwa [update_of_ne hq]

theorem blocked_bury {q d : ℕ} {k' : K} (h : Blocked home t k' d) :
    Blocked home (t.bury q) k' d := by
  intro j hj
  have hne := h j hj
  change update t.state q .tomb (pos home t k' j) ≠ .empty
  by_cases hq : pos home t k' j = q
  · simp [hq]
  · rwa [update_of_ne hq]

theorem WellFormed.put (wf : WellFormed home t) {q : ℕ} (v : V) (hk : Absent t k)
    (hq : Free home t k q) : WellFormed home (t.put q k v) := by
  refine ⟨wf.cap_pos, fun {i j k'} hi hj ↦ ?_, fun {i k'} hi ↦ ?_⟩
  · rw [holds_put] at hi hj
    obtain ⟨rfl, -, rfl⟩ | ⟨-, hi⟩ := hi
    · obtain ⟨rfl, -⟩ | ⟨-, hj⟩ := hj
      · rfl
      · exact absurd hj (hk j)
    · obtain ⟨rfl, -, rfl⟩ | ⟨-, hj⟩ := hj
      · exact absurd hi (hk i)
      · exact wf.unique hi hj
  · rw [holds_put] at hi
    obtain ⟨rfl, -, rfl⟩ | ⟨-, hi⟩ := hi
    · obtain ⟨e, he, hb⟩ := hq.reach
      exact ⟨e, he, blocked_put home hb⟩
    · obtain ⟨d, hd, hb⟩ := wf.chain hi
      exact ⟨d, hd, blocked_put home hb⟩

theorem WellFormed.bury (wf : WellFormed home t) (q : ℕ) : WellFormed home (t.bury q) := by
  refine ⟨wf.cap_pos, fun {i j k'} hi hj ↦ ?_, fun {i k'} hi ↦ ?_⟩
  · rw [holds_bury] at hi hj
    exact wf.unique hi.2 hj.2
  · rw [holds_bury] at hi
    obtain ⟨d, hd, hb⟩ := wf.chain hi.2
    exact ⟨d, hd, blocked_bury home hb⟩

theorem WellFormed.assign (wf : WellFormed home t) (q : ℕ) (v : V) :
    WellFormed home (t.assign q v) :=
  ⟨wf.cap_pos, wf.unique, wf.chain⟩

theorem WellFormed.of_empty (hc : 0 < t.cap) (h : ∀ i < t.cap, t.state i = .empty) :
    WellFormed home t := by
  have hn : ∀ i k, ¬ Holds t i k := fun i k hi ↦ by
    have := hi.2.1
    simp [h i hi.1] at this
  exact ⟨hc, fun hi ↦ absurd hi (hn _ _), fun hi ↦ absurd hi (hn _ _)⟩

end Update

section Represents

variable {t : Table K V} {k : K} {i : ℕ} {m : K → Option V}

/-- The table stores exactly the bindings of `m`. -/
def Represents (t : Table K V) (m : K → Option V) : Prop :=
  ∀ k v, m k = some v ↔ ∃ i, Holds t i k ∧ t.val i = v

theorem Represents.of_holds (h : Represents t m) (hi : Holds t i k) : m k = some (t.val i) :=
  (h k _).mpr ⟨i, hi, rfl⟩

theorem Represents.of_absent (h : Represents t m) (hk : Absent t k) : m k = none := by
  cases hm : m k with
  | none => rfl
  | some v =>
    obtain ⟨i, hi, -⟩ := (h k v).mp hm
    exact absurd hi (hk i)

theorem Represents.isSome_iff (h : Represents t m) : (m k).isSome ↔ ¬ Absent t k := by
  constructor
  · intro hm hk
    simp [h.of_absent hk] at hm
  · intro hk
    simp only [Absent, not_forall, not_not] at hk
    obtain ⟨i, hi⟩ := hk
    simp [h.of_holds hi]

theorem Represents.of_empty (h : ∀ i < t.cap, t.state i = .empty) :
    Represents t (fun _ ↦ none) := by
  intro k v
  constructor
  · intro hn
    simp at hn
  · rintro ⟨i, hi, -⟩
    have := hi.2.1
    simp [h i hi.1] at this

variable [DecidableEq K]

theorem Represents.put (h : Represents t m) {q : ℕ} (v : V) (hk : Absent t k)
    (hq : q < t.cap) (hv : t.state q ≠ .occupied) :
    Represents (t.put q k v) (update m k (some v)) := by
  intro k' v'
  by_cases hkk : k' = k
  · subst hkk
    simp only [update_self, Option.some.injEq, holds_put]
    constructor
    · rintro rfl
      exact ⟨q, .inl ⟨rfl, hq, trivial⟩, by simp [Table.put]⟩
    · rintro ⟨i, ⟨rfl, -⟩ | ⟨-, hi⟩, hval⟩
      · simpa [Table.put] using hval
      · exact absurd hi (hk i)
  · rw [update_of_ne hkk, h k' v']
    constructor
    · rintro ⟨i, hi, rfl⟩
      have hne : i ≠ q := fun e ↦ hv (e ▸ hi.2.1)
      exact ⟨i, (holds_put t q k v i k').mpr (.inr ⟨hne, hi⟩), by simp [Table.put, hne]⟩
    · rintro ⟨i, hi, rfl⟩
      obtain ⟨-, -, rfl⟩ | ⟨hne, hi⟩ := (holds_put t q k v i k').mp hi
      · exact absurd rfl hkk
      · exact ⟨i, hi, by simp [Table.put, hne]⟩

theorem Represents.bury (h : Represents t m) (wf : WellFormed home t) (hi : Holds t i k) :
    Represents (t.bury i) (update m k none) := by
  intro k' v'
  by_cases hkk : k' = k
  · subst hkk
    simp only [update_self, holds_bury]
    constructor
    · intro hn
      simp at hn
    · rintro ⟨j, ⟨hne, hj⟩, -⟩
      exact absurd (wf.unique hj hi) hne
  · rw [update_of_ne hkk, h k' v']
    constructor
    · rintro ⟨j, hj, rfl⟩
      have hne : j ≠ i := fun e ↦ hkk (hj.2.2.symm.trans (e ▸ hi.2.2))
      exact ⟨j, (holds_bury t i j k').mpr ⟨hne, hj⟩, rfl⟩
    · rintro ⟨j, hj, rfl⟩
      exact ⟨j, ((holds_bury t i j k').mp hj).2, rfl⟩

theorem Represents.assign (h : Represents t m) (wf : WellFormed home t) (hi : Holds t i k)
    (v : V) : Represents (t.assign i v) (update m k (some v)) := by
  intro k' v'
  by_cases hkk : k' = k
  · subst hkk
    simp only [update_self, Option.some.injEq]
    constructor
    · rintro rfl
      exact ⟨i, hi, by simp [Table.assign]⟩
    · rintro ⟨j, hj, hval⟩
      rw [wf.unique ((holds_assign t i j v k').mp hj) hi] at hval
      simpa [Table.assign] using hval
  · rw [update_of_ne hkk, h k' v']
    have hne : ∀ j, Holds t j k' → j ≠ i := fun j hj e ↦ hkk (hj.2.2.symm.trans (e ▸ hi.2.2))
    constructor
    · rintro ⟨j, hj, rfl⟩
      exact ⟨j, hj, by simp [Table.assign, hne j hj]⟩
    · rintro ⟨j, hj, rfl⟩
      exact ⟨j, hj, by simp [Table.assign, hne j hj]⟩

end Represents

section Load

variable {t : Table K V} {m m₁ m₂ : K → Option V} (R : V → V → Prop)

/-- Writing the entries of the `n` slots from `i` on over `m₁`, each value changed
within `R`, gives `m₂`. -/
def Loaded (t : Table K V) (n i : ℕ) (m₁ m₂ : K → Option V) : Prop :=
  ∀ k, (∃ j, i ≤ j ∧ j < i + n ∧ t.state j = .occupied ∧ t.key j = k ∧
      ∃ v, R (t.val j) v ∧ m₂ k = some v) ∨
    ((∀ j, i ≤ j → j < i + n → t.state j = .occupied → t.key j ≠ k) ∧ m₂ k = m₁ k)

theorem Loaded.nil (i : ℕ) (m : K → Option V) : Loaded R t 0 i m m :=
  fun _ ↦ .inr ⟨fun j h1 h2 ↦ absurd h2 (by omega), rfl⟩

variable {R}

theorem Loaded.mono {R' : V → V → Prop} {n i : ℕ} (h : Loaded R t n i m₁ m₂)
    (hR : ∀ v v', R v v' → R' v v') : Loaded R' t n i m₁ m₂ := fun k ↦
  (h k).imp_left fun ⟨j, h1, h2, ho, hk, v, hv, hval⟩ ↦ ⟨j, h1, h2, ho, hk, v, hR _ _ hv, hval⟩

theorem Loaded.skip {n i : ℕ} (hs : t.state i ≠ .occupied) (h : Loaded R t n (i + 1) m₁ m₂) :
    Loaded R t (n + 1) i m₁ m₂ := by
  intro k
  obtain ⟨j, h1, h2, hj⟩ | ⟨hn, heq⟩ := h k
  · exact .inl ⟨j, by omega, by omega, hj⟩
  · refine .inr ⟨fun j h1 h2 ho ↦ ?_, heq⟩
    obtain rfl | hlt := Nat.eq_or_lt_of_le h1
    · exact absurd ho hs
    · exact hn j hlt (by omega) ho

theorem Loaded.cons [DecidableEq K] {n i : ℕ} {v : V} (hs : t.state i = .occupied)
    (hv : R (t.val i) v) (h : Loaded R t n (i + 1) (update m₁ (t.key i) (some v)) m₂) :
    Loaded R t (n + 1) i m₁ m₂ := by
  intro k
  obtain ⟨j, h1, h2, hj⟩ | ⟨hn, heq⟩ := h k
  · exact .inl ⟨j, by omega, by omega, hj⟩
  · by_cases hk : t.key i = k
    · subst hk
      exact .inl ⟨i, le_rfl, by omega, hs, rfl, v, hv, by rw [heq, update_self]⟩
    · rw [update_of_ne (Ne.symm hk)] at heq
      refine .inr ⟨fun j h1 h2 ho ↦ ?_, heq⟩
      obtain rfl | hlt := Nat.eq_or_lt_of_le h1
      · exact hk
      · exact hn j hlt (by omega) ho

/-- Loading a whole table into the empty map gives the map it represents, up to `R`. -/
theorem Loaded.rel (hm : Represents t m) (h : Loaded R t t.cap 0 (fun _ ↦ none) m₂) (k : K) :
    Option.Rel R (m k) (m₂ k) := by
  obtain ⟨j, -, h2, ho, hk, v, hv, hval⟩ | ⟨hn, heq⟩ := h k
  · rw [hval, hm.of_holds ⟨by omega, ho, hk⟩]
    exact .some hv
  · have habs : Absent t k := fun j hj ↦ hn j (by omega) (by have := hj.1; omega) hj.2.1 hj.2.2
    rw [heq, hm.of_absent habs]
    exact .none

end Load

section Count

variable {t : Table K V} {k : K} {i : ℕ} {m : K → Option V}

/-- How many slots are in state `s`. -/
def Table.count (t : Table K V) (s : SlotState) : ℕ :=
  ((Finset.range t.cap).filter fun i ↦ t.state i = s).card

theorem count_le_cap (t : Table K V) (s : SlotState) : t.count s ≤ t.cap := by
  refine (Finset.card_filter_le _ _).trans ?_
  rw [Finset.card_range]

theorem count_pos_iff (t : Table K V) (s : SlotState) :
    0 < t.count s ↔ ∃ i < t.cap, t.state i = s := by
  rw [Table.count, Finset.card_pos]
  constructor
  · rintro ⟨i, hi⟩
    simp only [Finset.mem_filter, Finset.mem_range] at hi
    exact ⟨i, hi⟩
  · rintro ⟨i, hi⟩
    exact ⟨i, by simpa only [Finset.mem_filter, Finset.mem_range] using hi⟩

theorem count_of_empty (h : ∀ i < t.cap, t.state i = .empty) {s : SlotState} (hs : s ≠ .empty) :
    t.count s = 0 := by
  by_contra hne
  obtain ⟨i, hi, ho⟩ := (count_pos_iff t s).mp (Nat.pos_of_ne_zero hne)
  exact hs (ho.symm.trans (h i hi))

theorem hasEmpty_iff : HasEmpty t ↔ 0 < t.count .empty := (count_pos_iff t .empty).symm

/-- Writing state `s` over a slot moves that slot from one count to another. -/
theorem count_update {t' : Table K V} {q : ℕ} {s s' : SlotState} (hcap : t'.cap = t.cap)
    (hst : t'.state = update t.state q s) (hq : q < t.cap) :
    t'.count s' + (if t.state q = s' then 1 else 0) =
      t.count s' + (if s = s' then 1 else 0) := by
  have hsplit : ∀ u : Table K V, u.cap = t.cap → u.count s' =
      (((Finset.range t.cap).erase q).filter fun i ↦ u.state i = s').card +
        (if u.state q = s' then 1 else 0) := by
    intro u hu
    have hmem : q ∈ Finset.range t.cap := Finset.mem_range.mpr hq
    rw [Table.count, hu, ← Finset.insert_erase hmem, Finset.filter_insert]
    split_ifs
    · rw [Finset.card_insert_of_notMem (by simp), Finset.erase_insert (by simp)]
    · rw [Finset.erase_insert (by simp), Nat.add_zero]
  have hsame : (((Finset.range t.cap).erase q).filter fun i ↦ t'.state i = s') =
      (((Finset.range t.cap).erase q).filter fun i ↦ t.state i = s') := by
    refine Finset.filter_congr fun i hi ↦ ?_
    rw [hst, update_of_ne (Finset.ne_of_mem_erase hi)]
  rw [hsplit t' hcap, hsplit t rfl, hsame, hst, update_self]
  omega

theorem count_put {q : ℕ} {v : V} (hq : q < t.cap) (s' : SlotState) :
    (t.put q k v).count s' + (if t.state q = s' then 1 else 0) =
      t.count s' + (if .occupied = s' then 1 else 0) :=
  count_update rfl rfl hq

theorem count_bury {q : ℕ} (hq : q < t.cap) (s' : SlotState) :
    (t.bury q).count s' + (if t.state q = s' then 1 else 0) =
      t.count s' + (if .tomb = s' then 1 else 0) :=
  count_update rfl rfl hq

theorem count_occupied_eq (wf : WellFormed home t) (h : Represents t m) :
    t.count .occupied = {k | m k ≠ none}.ncard := by
  have himg : {k | m k ≠ none} =
      t.key '' ((Finset.range t.cap).filter fun i ↦ t.state i = .occupied : Finset ℕ) := by
    ext k
    simp only [Set.mem_ofPred_eq, Set.mem_image, Finset.coe_filter, Finset.mem_range]
    constructor
    · intro hk
      obtain ⟨v, hv⟩ := Option.ne_none_iff_exists'.mp hk
      obtain ⟨i, ⟨hi, hs, hkey⟩, -⟩ := (h k v).mp hv
      exact ⟨i, ⟨hi, hs⟩, hkey⟩
    · rintro ⟨i, ⟨hi, hs⟩, rfl⟩
      simp [h.of_holds ⟨hi, hs, rfl⟩]
  have hinj : Set.InjOn t.key
      ((Finset.range t.cap).filter fun i ↦ t.state i = .occupied : Finset ℕ) := by
    intro i hi j hj hij
    simp only [Finset.coe_filter, Finset.mem_range, Set.mem_ofPred_eq] at hi hj
    exact wf.unique ⟨hi.1, hi.2, rfl⟩ ⟨hj.1, hj.2, hij.symm⟩
  rw [himg, hinj.ncard_image, Set.ncard_coe_finset, Table.count]

end Count

end OpenAddressing
