import JelloVM.Library.ByteMemory

namespace ByteMemory

/-- `memmove` of `w r` bytes from `src r` to `dst r`, for `n` blocks from block `i` on. -/
def copies (dst src w : ℕ → ℕ) : ℕ → ℕ → Mem → Mem
  | _, 0, mem => mem
  | i, n + 1, mem => copies dst src w (i + 1) n (copy mem (dst i) (src i) (w i))

/-- The blocks `i`, ..., `i + n - 1` lie one after the other. -/
def Ordered (dst w : ℕ → ℕ) (i n : ℕ) : Prop :=
  ∀ r r', i ≤ r → r < r' → r' < i + n → dst r + w r ≤ dst r'

section Copies

variable {dst src w : ℕ → ℕ} {i n : ℕ} {mem : Mem}

theorem copy_zero (mem : Mem) (dst src : ℕ) : copy mem dst src 0 = mem := by
  funext x
  rw [copy, if_neg (by omega)]

theorem copy_eq_self {d s k : ℕ} (h : ∀ x, x < k → mem (d + x) = mem (s + x)) :
    copy mem d s k = mem := by
  funext x
  unfold copy
  split_ifs with hx
  · have hsame := h (x - d) (by omega)
    rw [Nat.add_sub_cancel' hx.1] at hsame
    exact hsame.symm
  · rfl

theorem Ordered.tail (h : Ordered dst w i (n + 1)) : Ordered dst w (i + 1) n :=
  fun r r' hr hlt hr' ↦ h r r' (by omega) hlt (by omega)

theorem copies_outside {x : ℕ} (h : ∀ r, i ≤ r → r < i + n → x < dst r ∨ dst r + w r ≤ x) :
    copies dst src w i n mem x = mem x := by
  induction n generalizing i mem with
  | zero => rfl
  | succ n ih =>
    rw [copies, ih fun r hr hrn ↦ h r (by omega) (by omega), copy, if_neg]
    have := h i le_rfl (by omega)
    omega

theorem copies_first (h : Ordered dst w i (n + 1)) {x : ℕ} (hx : x < w i) :
    copies dst src w i (n + 1) mem (dst i + x) = mem (src i + x) := by
  rw [copies, copies_outside, copy, if_pos (by omega), Nat.add_sub_cancel_left]
  intro r hr hrn
  have := h i r le_rfl (by omega) (by omega)
  omega

theorem copies_eq_self (h : ∀ r, i ≤ r → r < i + n → ∀ x, x < w r →
    mem (dst r + x) = mem (src r + x)) : copies dst src w i n mem = mem := by
  induction n generalizing i with
  | zero => rfl
  | succ n ih =>
    rw [copies, copy_eq_self (h i le_rfl (by omega))]
    exact ih fun r hr hrn ↦ h r (by omega) (by omega)

/-- Copies to blocks that lie one after the other leave the blocks as they are exactly when they
copy what is there already. -/
theorem copies_same_iff (h : Ordered dst w i n) :
    (∀ r, i ≤ r → r < i + n → ∀ x, x < w r →
      copies dst src w i n mem (dst r + x) = mem (dst r + x)) ↔
    ∀ r, i ≤ r → r < i + n → ∀ x, x < w r → mem (dst r + x) = mem (src r + x) := by
  refine ⟨fun hsame ↦ ?_, fun hsame r _ _ x _ ↦ by rw [copies_eq_self hsame]⟩
  induction n generalizing i with
  | zero =>
    intro r hr hrn
    omega
  | succ n ih =>
    have hfirst : ∀ x, x < w i → mem (dst i + x) = mem (src i + x) := by
      intro x hx
      rw [← hsame i le_rfl (by omega) x hx]
      exact copies_first h hx
    have hrest : ∀ r, i + 1 ≤ r → r < i + 1 + n → ∀ x, x < w r →
        mem (dst r + x) = mem (src r + x) := by
      refine ih h.tail fun r hr hrn x hx ↦ ?_
      have hs := hsame r (by omega) (by omega) x hx
      rwa [copies, copy_eq_self hfirst] at hs
    intro r hr hrn
    obtain rfl | hlt := eq_or_lt_of_le hr
    · exact hfirst
    · exact hrest r hlt (by omega)

end Copies

end ByteMemory
