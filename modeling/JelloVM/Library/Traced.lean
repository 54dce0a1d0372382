import Mathlib

/-- A value, and the trace of what was read for it. -/
structure Traced (A α : Type) where
  value : α
  trace : List A

namespace Traced

variable {A α β : Type}

instance : Monad (Traced A) where
  pure a := ⟨a, []⟩
  bind x f := ⟨(f x.value).value, x.trace ++ (f x.value).trace⟩

/-- The value is the one at the place. -/
def readAt (mem : A → α) (a : A) : Traced A α := ⟨mem a, [a]⟩

@[simp] theorem value_pure (a : α) : (pure a : Traced A α).value = a := rfl

@[simp] theorem trace_pure (a : α) : (pure a : Traced A α).trace = [] := rfl

@[simp] theorem value_bind (x : Traced A α) (f : α → Traced A β) :
    (x >>= f).value = (f x.value).value := rfl

@[simp] theorem trace_bind (x : Traced A α) (f : α → Traced A β) :
    (x >>= f).trace = x.trace ++ (f x.value).trace := rfl

@[simp] theorem value_readAt (mem : A → α) (a : A) : (readAt mem a).value = mem a := rfl

@[simp] theorem trace_readAt (mem : A → α) (a : A) : (readAt mem a).trace = [a] := rfl

theorem value_ite {c : Prop} [Decidable c] (x y : Traced A α) :
    (if c then x else y).value = if c then x.value else y.value := by
  split_ifs <;> rfl

theorem trace_ite {c : Prop} [Decidable c] (x y : Traced A α) :
    (if c then x else y).trace = if c then x.trace else y.trace := by
  split_ifs <;> rfl

/-- The values from a place on, read one after another -/
def readRange (mem : ℕ → α) (start n : ℕ) : Traced ℕ (List α) :=
  ⟨(List.range' start n).map mem, List.range' start n⟩

section Within

variable {P : A → Prop}

/-- A reader that may give up reads only places with the property. -/
def Within (P : A → Prop) (x : OptionT (Traced A) α) : Prop := ∀ a ∈ x.run.trace, P a

theorem within_pure (a : α) : Within P (pure a : OptionT (Traced A) α) :=
  fun _ h ↦ absurd h List.not_mem_nil

theorem within_failure : Within P (failure : OptionT (Traced A) α) :=
  fun _ h ↦ absurd h List.not_mem_nil

theorem within_lift {x : Traced A α} (h : ∀ a ∈ x.trace, P a) :
    Within P (OptionT.lift x : OptionT (Traced A) α) := by
  intro a ha
  refine h a ?_
  rcases List.mem_append.mp ha with ha | ha
  · exact ha
  · exact absurd ha List.not_mem_nil

theorem value_run_pure (a : α) : (pure a : OptionT (Traced A) α).run.value = some a := rfl

theorem value_run_failure : (failure : OptionT (Traced A) α).run.value = none := rfl

theorem trace_run_bind (x : OptionT (Traced A) α) (f : α → OptionT (Traced A) β) :
    (x >>= f).run.trace = x.run.trace ++ x.run.value.elim [] fun v ↦ (f v).run.trace := by
  rcases x with ⟨v, t⟩
  cases v <;> rfl

theorem value_run_bind (x : OptionT (Traced A) α) (f : α → OptionT (Traced A) β) :
    (x >>= f).run.value = x.run.value.bind fun v ↦ (f v).run.value := by
  rcases x with ⟨v, t⟩
  cases v <;> rfl

theorem within_bind {x : OptionT (Traced A) α} {f : α → OptionT (Traced A) β} (hx : Within P x)
    (hf : ∀ v, x.run.value = some v → Within P (f v)) : Within P (x >>= f) := by
  intro a ha
  rw [trace_run_bind] at ha
  rcases List.mem_append.mp ha with ha | ha
  · exact hx a ha
  · cases hv : x.run.value with
    | none =>
      rw [hv] at ha
      exact absurd ha List.not_mem_nil
    | some v =>
      rw [hv] at ha
      exact hf v hv a ha

theorem value_bind_some {x : OptionT (Traced A) α} {f : α → OptionT (Traced A) β} {b : β}
    (h : (x >>= f).run.value = some b) :
    ∃ v, x.run.value = some v ∧ (f v).run.value = some b := by
  rw [value_run_bind] at h
  exact Option.bind_eq_some_iff.mp h

end Within

end Traced
