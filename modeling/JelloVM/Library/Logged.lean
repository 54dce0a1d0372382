import Mathlib

/-- A program over a state `S` that may stop with a fault in `E`, and that leaves a
trace of the accesses in `A` it made, also when it stops. -/
def Logged (E A S α : Type) : Type := S → Except E (α × S) × List A

namespace Logged

variable {E A S T α β : Type}

def ret (a : α) : Logged E A S α := fun s ↦ (.ok (a, s), [])

def seq (x : Logged E A S α) (f : α → Logged E A S β) : Logged E A S β := fun s ↦
  match x s with
  | (.error e, l) => (.error e, l)
  | (.ok (a, s), l) => ((f a s).1, l ++ (f a s).2)

instance : Monad (Logged E A S) where
  pure := ret
  bind := seq

def fail (e : E) : Logged E A S α := fun _ ↦ (.error e, [])

def note (a : A) : Logged E A S Unit := fun s ↦ (.ok ((), s), [a])

def read (f : S → α) : Logged E A S α := fun s ↦ (.ok (f s, s), [])

def change (f : S → S) : Logged E A S Unit := fun s ↦ (.ok ((), f s), [])

/-- The rounds `i`, `i + 1`, ..., `i + n - 1` of a counting loop. -/
def loop (body : ℕ → Logged E A S Unit) : ℕ → ℕ → Logged E A S Unit
  | _, 0 => ret ()
  | i, n + 1 => seq (body i) fun _ ↦ loop body (i + 1) n

/-- A program on a part of the state. -/
def onPart (get : S → T) (put : S → T → S) (x : Logged E A T α) : Logged E A S α := fun s ↦
  match x (get s) with
  | (.error e, l) => (.error e, l)
  | (.ok (a, t), l) => (.ok (a, put s t), l)

theorem bind_def (x : Logged E A S α) (f : α → Logged E A S β) : (x >>= f) = seq x f := rfl

instance : LawfulMonad (Logged E A S) := LawfulMonad.mk' _
  (fun x ↦ by
    funext s
    change seq x (fun a ↦ ret a) s = x s
    unfold seq ret
    split
    · next h => exact h.symm
    · next h => rw [h, List.append_nil])
  (fun _ _ ↦ rfl)
  (fun x f g ↦ by
    funext s
    change seq (seq x f) g s = seq x (fun a ↦ seq (f a) g) s
    unfold seq
    cases hx : x s with
    | mk r l =>
      cases r with
      | error e => rfl
      | ok p =>
        simp only
        cases hf : f p.1 p.2 with
        | mk r' l' =>
          cases r' with
          | error e => rfl
          | ok q => simp only [List.append_assoc])

@[simp] theorem ret_run (a : α) (s : S) : (ret a : Logged E A S α) s = (.ok (a, s), []) := rfl

@[simp] theorem fail_run (e : E) (s : S) : (fail e : Logged E A S α) s = (.error e, []) := rfl

@[simp] theorem note_run (a : A) (s : S) : (note a : Logged E A S Unit) s = (.ok ((), s), [a]) :=
  rfl

@[simp] theorem read_run (f : S → α) (s : S) :
    (read f : Logged E A S α) s = (.ok (f s, s), []) := rfl

@[simp] theorem change_run (f : S → S) (s : S) :
    (change f : Logged E A S Unit) s = (.ok ((), f s), []) := rfl

/-- What a program returns, without its trace. -/
def result (x : Logged E A S α) (s : S) : Except E (α × S) := (x s).1

@[simp] theorem result_ret (a : α) (s : S) : result (ret a : Logged E A S α) s = .ok (a, s) := rfl

@[simp] theorem result_fail (e : E) (s : S) :
    result (fail e : Logged E A S α) s = .error e := rfl

@[simp] theorem result_note (a : A) (s : S) :
    result (note a : Logged E A S Unit) s = .ok ((), s) := rfl

@[simp] theorem result_read (f : S → α) (s : S) :
    result (read f : Logged E A S α) s = .ok (f s, s) := rfl

@[simp] theorem result_change (f : S → S) (s : S) :
    result (change f : Logged E A S Unit) s = .ok ((), f s) := rfl

@[simp] theorem result_pure (a : α) (s : S) :
    result (pure a : Logged E A S α) s = .ok (a, s) := rfl

@[simp] theorem result_bind (x : Logged E A S α) (f : α → Logged E A S β) (s : S) :
    result (x >>= f) s = (result x s).bind fun r ↦ result (f r.1) r.2 := by
  unfold result
  rw [bind_def, seq]
  cases h : x s with
  | mk r l =>
    cases r with
    | error e => rfl
    | ok p => rfl

theorem result_bind_congr {x : Logged E A S α} {f g : α → Logged E A S β} {s : S}
    (h : ∀ a s', result x s = .ok (a, s') → result (f a) s' = result (g a) s') :
    result (x >>= f) s = result (x >>= g) s := by
  rw [result_bind, result_bind]
  cases hx : result x s with
  | error e => rfl
  | ok r => exact h r.1 r.2 hx

theorem bind_ok {x : Logged E A S α} {f : α → Logged E A S β} {s : S} {r : β × S}
    (h : result (x >>= f) s = .ok r) :
    ∃ a s', result x s = .ok (a, s') ∧ result (f a) s' = .ok r := by
  rw [result_bind] at h
  cases hx : result x s with
  | error e =>
    rw [hx] at h
    exact Except.noConfusion rfl rfl (heq_of_eq h)
  | ok p =>
    rw [hx] at h
    exact ⟨p.1, p.2, rfl, h⟩

theorem result_then {x : Logged E A S α} {f : α → Logged E A S β} {a : α} {s s' : S}
    (h : result x s = .ok (a, s')) : result (x >>= f) s = result (f a) s' := by
  rw [result_bind, h]
  rfl

theorem result_of_view {x : Logged E A S α} {s : S} {f : α × S → β} {b : β}
    (h : (result x s).toOption.map f = some b) : ∃ r, result x s = .ok r ∧ f r = b := by
  cases hr : result x s with
  | error e => simp [hr, Except.toOption] at h
  | ok r => exact ⟨r, rfl, by simpa [hr, Except.toOption] using h⟩

theorem result_of_views {γ δ : Type} {x : Logged E A S α} {y : Logged E A S β} {s : S}
    {f : S → γ} {g : (α × β) × S → δ} {a : α} {c : γ} {d : δ}
    (hx : (result x s).toOption.map (fun r ↦ (r.1, f r.2)) = some (a, c))
    (hy : (result (do
        let a ← x
        let b ← y
        pure (a, b)) s).toOption.map g = some d) :
    ∃ s₁ b s₂, result x s = .ok (a, s₁) ∧ f s₁ = c ∧ result y s₁ = .ok (b, s₂) ∧
      g ((a, b), s₂) = d ∧ result (do
        let a ← x
        let b ← y
        pure (a, b)) s = .ok ((a, b), s₂) := by
  obtain ⟨⟨a', s₁⟩, hrx, hvx⟩ := result_of_view hx
  obtain ⟨rfl, hf⟩ : a' = a ∧ f s₁ = c := Prod.mk.inj hvx
  obtain ⟨⟨p, s₂⟩, hry, hvy⟩ := result_of_view hy
  obtain ⟨a'', s', hra, hrest⟩ := bind_ok hry
  obtain ⟨rfl, rfl⟩ : a' = a'' ∧ s₁ = s' := by simpa [hrx] using hra
  obtain ⟨b, s'', hrb, hpure⟩ := bind_ok hrest
  obtain ⟨rfl, rfl⟩ : (a', b) = p ∧ s'' = s₂ := by simpa using hpure
  exact ⟨s₁, b, s'', hrx, hf, hrb, hvy, hry⟩

theorem result_onPart (get : S → T) (put : S → T → S) (x : Logged E A T α) (s : S) :
    result (onPart get put x) s = (result x (get s)).map fun r ↦ (r.1, put s r.2) := by
  unfold result onPart
  cases h : x (get s) with
  | mk r l =>
    cases r with
    | error e => rfl
    | ok p => rfl

theorem result_ite {c : Prop} [Decidable c] (x y : Logged E A S α) (s : S) :
    result (if c then x else y) s = if c then result x s else result y s := by
  split_ifs <;> rfl

section Spec

variable {P : A → Prop} {Q : α → S → Prop} {s : S}

/-- From `s`, every access of `x` satisfies `P`, and if `x` does not stop it ends in `Q`. -/
def Spec (P : A → Prop) (x : Logged E A S α) (Q : α → S → Prop) (s : S) : Prop :=
  (∀ a ∈ (x s).2, P a) ∧ ∀ a s', result x s = .ok (a, s') → Q a s'

@[simp] theorem spec_ret (a : α) : Spec P (ret a : Logged E A S α) Q s ↔ Q a s := by
  simp [Spec]

@[simp] theorem spec_pure (a : α) : Spec P (pure a : Logged E A S α) Q s ↔ Q a s := spec_ret a

@[simp] theorem spec_fail (e : E) : Spec P (fail e : Logged E A S α) Q s := by
  simp [Spec]

@[simp] theorem spec_note {a : A} {Q : Unit → S → Prop} :
    Spec P (note a : Logged E A S Unit) Q s ↔ P a ∧ Q () s := by
  simp [Spec, Unique.forall_iff]

@[simp] theorem spec_read (f : S → α) :
    Spec P (read f : Logged E A S α) Q s ↔ Q (f s) s := by
  simp [Spec]

@[simp] theorem spec_change (f : S → S) {Q : Unit → S → Prop} :
    Spec P (change f : Logged E A S Unit) Q s ↔ Q () (f s) := by
  simp [Spec, Unique.forall_iff]

@[simp] theorem spec_bind {x : Logged E A S α} {f : α → Logged E A S β} {R : β → S → Prop} :
    Spec P (x >>= f) R s ↔ Spec P x (fun a s' ↦ Spec P (f a) R s') s := by
  unfold Spec result
  rw [bind_def, seq]
  cases h : x s with
  | mk r l =>
    cases r with
    | error e => simp
    | ok p =>
      simp only [List.mem_append, Except.ok.injEq]
      constructor
      · intro hs
        refine ⟨fun a ha ↦ hs.1 a (.inl ha), ?_⟩
        rintro a s' rfl
        exact ⟨fun b hb ↦ hs.1 b (.inr hb), hs.2⟩
      · intro hs
        have hp := hs.2 p.1 p.2 rfl
        refine ⟨fun a ha ↦ ?_, hp.2⟩
        obtain hl | hr := ha
        · exact hs.1 a hl
        · exact hp.1 a hr

@[simp] theorem spec_map {x : Logged E A S α} {f : α → β} {R : β → S → Prop} :
    Spec P (f <$> x) R s ↔ Spec P x (fun a ↦ R (f a)) s := by
  rw [← bind_pure_comp, spec_bind]
  simp only [spec_pure]

theorem spec_ite {c : Prop} [Decidable c] {x y : Logged E A S α} :
    Spec P (if c then x else y) Q s ↔ (c → Spec P x Q s) ∧ (¬ c → Spec P y Q s) := by
  split_ifs with h
  · simp [h]
  · simp [h]

theorem Spec.mono {x : Logged E A S α} {Q' : α → S → Prop} (h : Spec P x Q s)
    (hQ : ∀ a s', Q a s' → Q' a s') : Spec P x Q' s :=
  ⟨h.1, fun a s' hr ↦ hQ a s' (h.2 a s' hr)⟩

theorem Spec.and {x : Logged E A S α} {Q' : α → S → Prop} (h : Spec P x Q s)
    (h' : Spec P x Q' s) : Spec P x (fun a s' ↦ Q a s' ∧ Q' a s') s :=
  ⟨h.1, fun a s' hr ↦ ⟨h.2 a s' hr, h'.2 a s' hr⟩⟩

/-- The rounds of a loop keep `I`. -/
theorem spec_loop {body : ℕ → Logged E A S Unit} {I : S → Prop} (n i : ℕ)
    (h : ∀ j, i ≤ j → j < i + n → ∀ s, I s → Spec P (body j) (fun _ ↦ I) s) (hs : I s) :
    Spec P (loop body i n) (fun _ ↦ I) s := by
  induction n generalizing i s with
  | zero => exact (spec_ret ()).mpr hs
  | succ n ih =>
    refine spec_bind.mpr ((h i le_rfl (by omega) s hs).mono fun _ s' hs' ↦ ?_)
    exact ih (i + 1) (fun j hj hjn ↦ h j (by omega) (by omega)) hs'

theorem spec_onPart {get : S → T} {put : S → T → S} {x : Logged E A T α}
    (h : Spec P x (fun a t ↦ Q a (put s t)) (get s)) : Spec P (onPart get put x) Q s := by
  refine ⟨?_, ?_⟩
  · have hx := h.1
    unfold onPart
    split
    · next heq => rw [heq] at hx; exact hx
    · next heq => rw [heq] at hx; exact hx
  · intro a s' hr
    rw [result_onPart] at hr
    cases hx : result x (get s) with
    | error e => simp [hx, Except.map] at hr
    | ok r =>
      simp only [hx, Except.map, Except.ok.injEq, Prod.mk.injEq] at hr
      obtain ⟨rfl, rfl⟩ := hr
      exact h.2 r.1 r.2 hx

end Spec

section Ends

variable {Q : α → S → Prop} {s : S}

/-- If `x` does not stop, it ends in `Q`; its accesses do not matter. -/
abbrev Ends (x : Logged E A S α) (Q : α → S → Prop) (s : S) : Prop := Spec (fun _ ↦ True) x Q s

theorem ends_iff {x : Logged E A S α} :
    Ends x Q s ↔ ∀ a s', result x s = .ok (a, s') → Q a s' := by
  simp [Spec]

theorem Ends.of_result {x : Logged E A S α} (h : Ends x Q s) {a : α} {s' : S}
    (hr : result x s = .ok (a, s')) : Q a s' := h.2 a s' hr

theorem ends_onPart {get : S → T} {put : S → T → S} {x : Logged E A T α}
    (h : ∀ a t, Q a (put s t)) : Ends (onPart get put x) Q s :=
  spec_onPart ⟨fun _ _ ↦ trivial, fun a t _ ↦ h a t⟩

end Ends

section Keeps

variable {P : A → Prop} {R : S → S → Prop}

/-- Every access of every run of `x` satisfies `P`, and a run that does not stop leads to a
state that `R` relates to the first one. -/
def Keeps (P : A → Prop) (R : S → S → Prop) (x : Logged E A S α) : Prop :=
  ∀ s, Spec P x (fun _ s' ↦ R s s') s

theorem Keeps.then {x : Logged E A S α} {Q : α → S → Prop} {s : S} (h : Keeps P R x)
    (hQ : ∀ a s', R s s' → Q a s') : Spec P x Q s := (h s).mono hQ

theorem keeps_fail (e : E) : Keeps P R (fail e : Logged E A S α) := fun _ ↦ spec_fail e

theorem keeps_change {f : S → S} (h : ∀ s, R s (f s)) : Keeps P R (change f : Logged E A S Unit) :=
  fun s ↦ (spec_change f).mpr (h s)

theorem keeps_ite {c : Prop} [Decidable c] {x y : Logged E A S α} (hx : c → Keeps P R x)
    (hy : ¬ c → Keeps P R y) : Keeps P R (if c then x else y) := by
  split_ifs with h
  · exact hx h
  · exact hy h

theorem keeps_onPart {get : S → T} {put : S → T → S} {R' : T → T → Prop} {x : Logged E A T α}
    (h : Keeps P R' x) (hR : ∀ s t, R' (get s) t → R s (put s t)) :
    Keeps P R (onPart get put x) :=
  fun s ↦ spec_onPart ((h (get s)).mono fun _ t ht ↦ hR s t ht)

variable [IsPreorder S R]

theorem keeps_pure (a : α) : Keeps P R (pure a : Logged E A S α) :=
  fun s ↦ (spec_pure a).mpr (refl_of R s)

theorem keeps_note {a : A} (h : P a) : Keeps P R (note a : Logged E A S Unit) :=
  fun s ↦ spec_note.mpr ⟨h, refl_of R s⟩

theorem keeps_read (f : S → α) : Keeps P R (read f : Logged E A S α) :=
  fun s ↦ (spec_read f).mpr (refl_of R s)

theorem keeps_bind {x : Logged E A S α} {f : α → Logged E A S β} (hx : Keeps P R x)
    (hf : ∀ a, Keeps P R (f a)) : Keeps P R (x >>= f) :=
  fun _ ↦ spec_bind.mpr (hx.then fun a s' hs ↦
    (hf a s').mono fun _ _ hs' ↦ trans_of R hs hs')

theorem keeps_loop {body : ℕ → Logged E A S Unit} (n i : ℕ)
    (h : ∀ j, i ≤ j → j < i + n → Keeps P R (body j)) : Keeps P R (loop body i n) :=
  fun s ↦ spec_loop n i (fun j hj hjn s' hs ↦
    (h j hj hjn s').mono fun _ _ hs' ↦ trans_of R hs hs') (refl_of R s)

end Keeps

end Logged
