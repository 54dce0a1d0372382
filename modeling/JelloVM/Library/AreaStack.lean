import Mathlib

/-- A block of `size` addresses from `start` on. -/
structure Area where
  start : ℕ
  size : ℕ
  deriving DecidableEq, Repr

namespace Area

variable {a b : Area} {as : List Area} {base top : ℕ}

def Has (a : Area) (x : ℕ) : Prop := a.start ≤ x ∧ x < a.start + a.size

def Apart (a b : Area) : Prop := ∀ x, ¬ (a.Has x ∧ b.Has x)

/-- The block lies between `base` and `base + top`. -/
def Inside (base top : ℕ) (a : Area) : Prop := ∀ x, a.Has x → base ≤ x ∧ x < base + top

/-- Blocks one above the other from `base` on, the last one first; together they have `top`
addresses. Where an empty block is does not matter. -/
def Stacked (base : ℕ) : List Area → ℕ → Prop
  | [], top => top = 0
  | a :: as, top =>
    a.size ≤ top ∧ (a.size ≠ 0 → a.start = base + (top - a.size)) ∧
      Stacked base as (top - a.size)

theorem Stacked.push (h : Stacked base as top) {start size : ℕ}
    (hs : size ≠ 0 → start = base + top) : Stacked base (⟨start, size⟩ :: as) (top + size) := by
  refine ⟨Nat.le_add_left size top, ?_, ?_⟩
  · intro h0
    rw [Nat.add_sub_cancel]
    exact hs h0
  · rw [Nat.add_sub_cancel]
    exact h

theorem Stacked.pop (h : Stacked base (a :: as) top) : Stacked base as (top - a.size) := h.2.2

theorem Stacked.size_le (h : Stacked base (a :: as) top) : a.size ≤ top := h.1

theorem Stacked.start_eq (h : Stacked base (a :: as) top) (ha : a.size ≠ 0) :
    a.start = base + (top - a.size) := h.2.1 ha

/-- The last block of the stack is replaced by one that starts at the same place. -/
theorem Stacked.resize (h : Stacked base (a :: as) top) {start size : ℕ}
    (hs : size ≠ 0 → start = base + (top - a.size)) :
    Stacked base (⟨start, size⟩ :: as) (top - a.size + size) := h.pop.push hs

theorem Stacked.top_le (h : Stacked base as top) {bound : ℕ} (hb : ∀ a ∈ as, a.size ≤ bound) :
    top ≤ bound * as.length := by
  induction as generalizing top with
  | nil =>
    have h0 : top = 0 := h
    omega
  | cons a as ih =>
    have hrest := ih h.pop fun b hb' ↦ hb b (List.mem_cons_of_mem a hb')
    have ha := hb a List.mem_cons_self
    have hle := h.size_le
    rw [List.length_cons, Nat.mul_succ]
    omega

theorem Stacked.inside (h : Stacked base as top) : ∀ a ∈ as, a.Inside base top := by
  induction as generalizing top with
  | nil => simp
  | cons b as ih =>
    intro a ha x hx
    have hle := h.size_le
    obtain rfl | ha := List.mem_cons.mp ha
    · have hne : a.size ≠ 0 := by
        intro h0
        have := hx.1
        have := hx.2
        omega
      have hstart := h.start_eq hne
      have := hx.1
      have := hx.2
      omega
    · have := ih h.pop a ha x hx
      omega

theorem Stacked.apart (h : Stacked base as top) : as.Pairwise Apart := by
  induction as generalizing top with
  | nil => exact List.Pairwise.nil
  | cons b as ih =>
    refine List.Pairwise.cons ?_ (ih h.pop)
    intro a ha x hx
    have hlow := h.pop.inside a ha x hx.2
    have hne : b.size ≠ 0 := by
      intro h0
      have := hx.1.1
      have := hx.1.2
      omega
    have hstart := h.start_eq hne
    have := hx.1.1
    omega

theorem Stacked.fresh (h : Stacked base as top) (size : ℕ) :
    ∀ a ∈ as, a.Apart ⟨base + top, size⟩ := by
  intro a ha x hx
  have hin := h.inside a ha x hx.1
  have := hx.2.1
  simp only at this
  omega

theorem Stacked.rebase_zero (h : Stacked base as 0) (new : ℕ) : Stacked new as 0 := by
  induction as with
  | nil => exact h
  | cons a as ih =>
    have hle := h.size_le
    have hrest := h.pop
    refine ⟨hle, fun hne ↦ absurd (Nat.le_zero.mp hle) hne, ?_⟩
    rw [Nat.zero_sub] at hrest ⊢
    exact ih hrest

/-- The whole stack moves to another place. -/
def move (old new : ℕ) (a : Area) : Area :=
  if a.start = 0 then a else { a with start := new + a.start - old }

@[simp] theorem move_size (old new : ℕ) (a : Area) : (move old new a).size = a.size := by
  unfold move
  split_ifs <;> rfl

theorem Stacked.map_move (h : Stacked base as top) (hbase : base ≠ 0) (new : ℕ) :
    Stacked new (as.map (move base new)) top := by
  induction as generalizing top with
  | nil => exact h
  | cons a as ih =>
    refine ⟨?_, ?_, ?_⟩
    · rw [move_size]
      exact h.size_le
    · intro hne
      rw [move_size] at hne ⊢
      have hstart := h.start_eq hne
      unfold move
      rw [if_neg (by omega)]
      simp only
      omega
    · rw [move_size]
      exact ih h.pop

end Area
