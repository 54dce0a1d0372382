import Mathlib

namespace Blocks

variable {α σ : Type}

/-- The list written over the function from a place on -/
def place (f : ℕ → α) (start : ℕ) (l : List α) : ℕ → α := fun j ↦
  (if start ≤ j then l[j - start]? else none).getD (f j)

theorem map_range_place (f : ℕ → α) (start : ℕ) (l : List α) :
    (List.range (start + l.length)).map (place f start l) = (List.range start).map f ++ l := by
  rw [List.range_add, List.map_append, List.map_map]
  congr 1
  · apply List.map_congr_left
    intro j hj
    have hlt := List.mem_range.mp hj
    rw [place, if_neg (by omega), Option.getD_none]
  · apply List.ext_getElem
    · rw [List.length_map, List.length_range]
    · intro j hj hj'
      rw [List.getElem_map, List.getElem_range, Function.comp_apply, place,
        if_pos (Nat.le_add_right _ _), Nat.add_sub_cancel_left, List.getElem?_eq_getElem hj',
        Option.getD_some]

variable (n : ℕ)

/-- The whole blocks of `n` elements -/
def blocks (l : List α) : List (List α) :=
  (List.range (l.length / n)).map fun i ↦ (l.drop (i * n)).take n

variable {n}

theorem blocks_of_lt {l : List α} (h : l.length < n) : blocks n l = [] := by
  rw [blocks, Nat.div_eq_of_lt h]
  rfl

theorem blocks_append {b l : List α} (hn : 0 < n) (hb : b.length = n) :
    blocks n (b ++ l) = b :: blocks n l := by
  have hcount : (b ++ l).length / n = l.length / n + 1 := by
    rw [List.length_append, hb, Nat.add_div_left _ hn]
  rw [blocks, hcount, List.range_succ_eq_map, List.map_cons, List.map_map, Nat.zero_mul,
    List.drop_zero, List.take_left' hb]
  congr 1
  apply List.map_congr_left
  intro i _
  rw [Function.comp_apply, Nat.succ_mul, Nat.add_comm, ← List.drop_drop, List.drop_left' hb]

theorem blocks_flatten {bs : List (List α)} (hn : 0 < n) (h : ∀ b ∈ bs, b.length = n) :
    blocks n bs.flatten = bs := by
  induction bs with
  | nil => exact blocks_of_lt hn
  | cons b bs ih =>
    rw [List.forall_mem_cons] at h
    rw [List.flatten_cons, blocks_append hn h.1, ih h.2]

/-- The message has been taken in up to a tail that does not fill a block. -/
structure Absorbed (n : ℕ) (process : σ → List α → σ) (start : σ) (message : List α) (state : σ)
    (tail : List α) : Prop where
  whole : ∃ done : List (List α), (∀ b ∈ done, b.length = n) ∧ message = done.flatten ++ tail ∧
    state = done.foldl process start
  partial_lt : tail.length < n

variable {process : σ → List α → σ} {start state : σ} {message tail : List α}

theorem Absorbed.empty (hn : 0 < n) : Absorbed n process start [] start [] :=
  ⟨⟨[], by simp, rfl, rfl⟩, hn⟩

theorem Absorbed.keep (h : Absorbed n process start message state tail) (input : List α)
    (hlt : (tail ++ input).length < n) :
    Absorbed n process start (message ++ input) state (tail ++ input) := by
  obtain ⟨done, hdone, hmessage, hstate⟩ := h.whole
  exact ⟨⟨done, hdone, by rw [hmessage, List.append_assoc], hstate⟩, hlt⟩

theorem Absorbed.block (h : Absorbed n process start message state tail) (input : List α)
    (hn : 0 < n) (heq : (tail ++ input).length = n) :
    Absorbed n process start (message ++ input) (process state (tail ++ input)) [] := by
  obtain ⟨done, hdone, hmessage, hstate⟩ := h.whole
  refine ⟨⟨done ++ [tail ++ input], ?_, ?_, ?_⟩, hn⟩
  · intro b hb
    rcases List.mem_append.mp hb with hb | hb
    · exact hdone b hb
    · rw [List.mem_singleton.mp hb, heq]
  · rw [hmessage, List.flatten_append, List.flatten_singleton, List.append_nil, List.append_assoc]
  · rw [hstate, List.foldl_append, List.foldl_cons, List.foldl_nil]

theorem Absorbed.length_tail (h : Absorbed n process start message state tail) :
    tail.length = message.length % n := by
  obtain ⟨done, hdone, hmessage, -⟩ := h.whole
  have hflat : done.flatten.length = n * done.length := by
    rw [List.length_flatten, List.map_congr_left (g := fun _ ↦ n) hdone, List.map_const',
      List.sum_replicate, smul_eq_mul, Nat.mul_comm]
  rw [hmessage, List.length_append, hflat, Nat.mul_add_mod, Nat.mod_eq_of_lt h.partial_lt]

theorem Absorbed.finish (h : Absorbed n process start message state []) :
    state = (blocks n message).foldl process start := by
  obtain ⟨done, hdone, hmessage, hstate⟩ := h.whole
  rw [hstate, hmessage, List.append_nil, blocks_flatten h.partial_lt hdone]

end Blocks
