import Mathlib

/-! Problems that are settled by settling the problems they are made of. -/

namespace Subgoals

variable {P : Type} {sub : P → Option (List P)} {L M : P → Prop} {p q r : P} {qs : List P}

/-- `p` comes down to `r`, which is not made of other problems. -/
inductive Leaf (sub : P → Option (List P)) : P → P → Prop
  | here {p : P} (h : sub p = none) : Leaf sub p p
  | step {p q r : P} {qs : List P} (h : sub p = some qs) (hq : q ∈ qs) (hr : Leaf sub q r) :
      Leaf sub p r

/-- All that `p` comes down to satisfies `L`. -/
def All (sub : P → Option (List P)) (L : P → Prop) (p : P) : Prop := ∀ q, Leaf sub p q → L q

/-- `q` is one of the problems that `p` is made of. -/
def Below (sub : P → Option (List P)) (q p : P) : Prop := ∃ qs, sub p = some qs ∧ q ∈ qs

theorem all_none (h : sub p = none) : All sub L p ↔ L p := by
  constructor
  · intro hall
    exact hall p (.here h)
  · intro hp q hq
    cases hq with
    | here _ => exact hp
    | step hsome _ _ => exact absurd (h.symm.trans hsome) (Option.some_ne_none _).symm

theorem all_some (h : sub p = some qs) : All sub L p ↔ ∀ q ∈ qs, All sub L q := by
  constructor
  · intro hall q hq r hr
    exact hall r (.step h hq hr)
  · intro hall r hr
    cases hr with
    | here hnone => exact absurd (hnone.symm.trans h) (Option.some_ne_none _).symm
    | step hsome hq hr =>
      obtain rfl := Option.some.inj (h.symm.trans hsome)
      exact hall _ hq r hr

/-- What holds of a problem when one more round of a procedure is allowed than for its parts, holds
with rounds enough. -/
theorem settles {E : ℕ → P → Prop} (hleaf : ∀ n p, sub p = none → E (n + 1) p)
    (hstep : ∀ n p qs, sub p = some qs → (∀ q ∈ qs, E n q) → E (n + 1) p)
    (h : Acc (Below sub) p) : ∃ N, ∀ n, N ≤ n → E n p := by
  induction h with
  | intro p _ ih =>
    cases hsub : sub p with
    | none =>
      refine ⟨1, fun n hn ↦ ?_⟩
      obtain ⟨k, rfl⟩ := Nat.exists_eq_add_of_le' hn
      exact hleaf k p hsub
    | some qs =>
      have hbelow : ∀ q ∈ qs, ∃ N, ∀ n, N ≤ n → E n q := fun q hq ↦ ih q ⟨qs, hsub, hq⟩
      have hall : ∃ N, ∀ q ∈ qs, ∀ n, N ≤ n → E n q := by
        clear hsub ih
        induction qs with
        | nil => exact ⟨0, by simp⟩
        | cons q qs ihqs =>
          obtain ⟨N, hN⟩ := hbelow q (List.mem_cons_self ..)
          obtain ⟨N', hN'⟩ := ihqs fun q' hq' ↦ hbelow q' (List.mem_cons_of_mem _ hq')
          refine ⟨max N N', fun q' hq' n hn ↦ ?_⟩
          rcases List.mem_cons.mp hq' with rfl | hmem
          · exact hN n (le_of_max_le_left hn)
          · exact hN' q' hmem n (le_of_max_le_right hn)
      obtain ⟨N, hN⟩ := hall
      refine ⟨N + 1, fun n hn ↦ ?_⟩
      obtain ⟨k, rfl⟩ := Nat.exists_eq_add_of_le' hn
      rw [← Nat.add_assoc]
      exact hstep (k + N) p qs hsub fun q hq ↦ hN q hq _ (Nat.le_add_left N k)

/-- Two ways to settle a problem agree: they differ on no part, or both reject some part, or each
of them rejects a part that the other accepts. -/
theorem all_iff_all {missed extra : P → Prop}
    (hL : ∀ q, Leaf sub p q → (L q ↔ (M q ∧ ¬missed q) ∨ extra q))
    (hmissed : ∀ q, missed q → M q) (hextra : ∀ q, Leaf sub p q → extra q → ¬M q) :
    (All sub L p ↔ All sub M p) ↔
      (∃ q, Leaf sub p q ∧ ¬M q ∧ ¬extra q) ∨
        (∀ q, Leaf sub p q → ¬extra q ∧ ¬missed q) ∨
          ((∃ q, Leaf sub p q ∧ extra q) ∧ ∃ q, Leaf sub p q ∧ missed q) := by
  by_cases hplain : ∃ q, Leaf sub p q ∧ ¬M q ∧ ¬extra q
  · obtain ⟨q, hq, hM, hno⟩ := hplain
    have hL' : ¬L q := fun h ↦ by
      rcases (hL q hq).mp h with h' | h'
      · exact hM h'.1
      · exact hno h'
    have hleft : ¬All sub L p := fun h ↦ hL' (h q hq)
    have hright : ¬All sub M p := fun h ↦ hM (h q hq)
    exact ⟨fun _ ↦ .inl ⟨q, hq, hM, hno⟩, fun _ ↦ ⟨fun h ↦ absurd h hleft, fun h ↦ absurd h hright⟩⟩
  · have hor (q : P) (hq : Leaf sub p q) : M q ∨ extra q := by
      by_contra h
      rw [not_or] at h
      exact hplain ⟨q, hq, h⟩
    have hM : All sub M p ↔ ∀ q, Leaf sub p q → ¬extra q := by
      refine forall_congr' fun q ↦ forall_congr' fun hq ↦ ?_
      exact ⟨fun h hx ↦ hextra q hq hx h, fun h ↦ (hor q hq).resolve_right h⟩
    have hLall : All sub L p ↔ ∀ q, Leaf sub p q → ¬missed q := by
      refine forall_congr' fun q ↦ forall_congr' fun hq ↦ ?_
      rw [hL q hq]
      constructor
      · rintro (h | h) hmiss
        · exact h.2 hmiss
        · exact hextra q hq h (hmissed q hmiss)
      · intro h
        exact (hor q hq).imp (fun hq' ↦ ⟨hq', h⟩) id
    rw [hM, hLall]
    constructor
    · intro hiff
      by_cases hnone : ∀ q, Leaf sub p q → ¬extra q
      · exact .inr (.inl fun q hq ↦ ⟨hnone q hq, hiff.mpr hnone q hq⟩)
      · have hmiss : ¬∀ q, Leaf sub p q → ¬missed q := fun h ↦ hnone (hiff.mp h)
        push Not at hnone hmiss
        exact .inr (.inr ⟨hnone, hmiss⟩)
    · rintro (h | h | ⟨⟨q, hq, hx⟩, q', hq', hmiss⟩)
      · exact absurd h hplain
      · exact ⟨fun _ q hq ↦ (h q hq).1, fun _ q hq ↦ (h q hq).2⟩
      · exact ⟨fun h ↦ absurd hmiss (h q' hq'), fun h ↦ absurd hx (h q hq)⟩

end Subgoals
