import Mathlib

namespace Fitting

variable {α : Type*} (size : α → ℕ)

def total (as : List α) : ℕ := (as.map size).sum

/-- The elements that fit in the room one after the other, up to the first that does not. -/
def fitting : ℕ → List α → List α
  | _, [] => []
  | room, a :: as => if size a ≤ room then a :: fitting (room - size a) as else []

@[simp] theorem total_nil : total size [] = 0 := rfl

@[simp] theorem total_cons (a : α) (as : List α) :
    total size (a :: as) = size a + total size as := by
  simp only [total, List.map_cons, List.sum_cons]

theorem total_fitting_le (room : ℕ) (as : List α) : total size (fitting size room as) ≤ room := by
  induction as generalizing room with
  | nil => exact Nat.zero_le room
  | cons a as ih =>
    rw [fitting]
    split_ifs with h
    · have hrest := ih (room - size a)
      rw [total_cons]
      omega
    · exact Nat.zero_le room

theorem fitting_eq_take (room : ℕ) (as : List α) : ∃ k ≤ as.length,
    fitting size room as = as.take k ∧
      ∀ j ≤ as.length, total size (as.take j) ≤ room → j ≤ k := by
  induction as generalizing room with
  | nil => exact ⟨0, le_rfl, rfl, fun j hj _ ↦ hj⟩
  | cons a as ih =>
    rw [fitting]
    split_ifs with h
    · obtain ⟨k, hk, htake, hmost⟩ := ih (room - size a)
      refine ⟨k + 1, Nat.succ_le_succ hk, ?_, ?_⟩
      · rw [htake, List.take_succ_cons]
      · intro j hj hfit
        cases j with
        | zero => exact Nat.zero_le _
        | succ j =>
          rw [List.take_succ_cons, total_cons] at hfit
          exact Nat.succ_le_succ (hmost j (Nat.le_of_succ_le_succ hj) (by omega))
    · refine ⟨0, Nat.zero_le _, rfl, ?_⟩
      intro j _ hfit
      cases j with
      | zero => exact le_rfl
      | succ j =>
        rw [List.take_succ_cons, total_cons] at hfit
        omega

theorem total_eq_length {β : Type*} (f : α → List β) (as : List α) :
    total (fun a ↦ (f a).length) as = (as.flatMap f).length := by
  rw [total, List.length_flatMap]

end Fitting
