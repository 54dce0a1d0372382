import JelloVM.Library.Logged

namespace Logged

variable {E A B S T α α' β β' : Type}

/-- Two outcomes with the same fault, or with related values and states. -/
inductive Agree (R : S → T → Prop) (V : α → β → Prop) :
    Except E (α × S) → Except E (β × T) → Prop
  | error (e : E) : Agree R V (.error e) (.error e)
  | ok {a : α} {b : β} {s : S} {t : T} (hv : V a b) (hr : R s t) : Agree R V (.ok (a, s)) (.ok (b, t))

/-- From related states the two programs have the same fault, or they give related values and
end in related states. -/
def Coupled (R : S → T → Prop) (V : α → β → Prop) (x : Logged E A S α) (y : Logged E B T β) :
    Prop :=
  ∀ s t, R s t → Agree R V (result x s) (result y t)

variable {R : S → T → Prop} {V : α → β → Prop} {V' : α' → β' → Prop}

theorem Agree.bind {x : Logged E A S α} {y : Logged E B T β} {f : α → Logged E A S α'}
    {g : β → Logged E B T β'} {s : S} {t : T} (hx : Agree R V (result x s) (result y t))
    (hf : ∀ a b, V a b → Coupled R V' (f a) (g b)) :
    Agree R V' (result (x >>= f) s) (result (y >>= g) t) := by
  rw [result_bind, result_bind]
  revert hx
  generalize result x s = r
  generalize result y t = q
  intro hx
  cases hx with
  | error e => exact .error e
  | ok hv hr => exact hf _ _ hv _ _ hr

theorem coupled_bind {x : Logged E A S α} {y : Logged E B T β} {f : α → Logged E A S α'}
    {g : β → Logged E B T β'} (hx : Coupled R V x y)
    (hf : ∀ a b, V a b → Coupled R V' (f a) (g b)) : Coupled R V' (x >>= f) (y >>= g) :=
  fun s t hr ↦ (hx s t hr).bind hf

theorem coupled_pure {a : α} {b : β} (hv : V a b) :
    Coupled R V (pure a : Logged E A S α) (pure b : Logged E B T β) :=
  fun _ _ hr ↦ .ok hv hr

theorem coupled_fail (e : E) :
    Coupled R V (fail e : Logged E A S α) (fail e : Logged E B T β) := fun _ _ _ ↦ .error e

theorem coupled_note (a : A) (b : B) :
    Coupled R Eq (note a : Logged E A S Unit) (note b : Logged E B T Unit) :=
  fun _ _ hr ↦ .ok rfl hr

theorem coupled_read {f : S → α} {g : T → β} (h : ∀ s t, R s t → V (f s) (g t)) :
    Coupled R V (read f : Logged E A S α) (read g : Logged E B T β) :=
  fun s t hr ↦ .ok (h s t hr) hr

theorem coupled_change {f : S → S} {g : T → T} (h : ∀ s t, R s t → R (f s) (g t)) :
    Coupled R Eq (change f : Logged E A S Unit) (change g : Logged E B T Unit) :=
  fun s t hr ↦ .ok rfl (h s t hr)

theorem coupled_ite {c : Prop} [Decidable c] {x x' : Logged E A S α} {y y' : Logged E B T β}
    (h : Coupled R V x y) (h' : Coupled R V x' y') :
    Coupled R V (if c then x else x') (if c then y else y') := by
  split_ifs
  · exact h
  · exact h'

end Logged
