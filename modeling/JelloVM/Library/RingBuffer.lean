import Mathlib

namespace RingBuffer

open Function

variable {α : Type} {M c : ℕ} {cells : ℕ → α} {head : ℕ} {xs : List α}

/-- The slot of the `i`-th element: counters run freely modulo `M` and index `c` cells. -/
def slot (M c i : ℕ) : ℕ := i % M % c

/-- `xs` lies in the buffer, from the counter `head` on, each element in a slot of its own. -/
structure Holds (M c : ℕ) (cells : ℕ → α) (head : ℕ) (xs : List α) : Prop where
  fits : xs.length ≤ c
  get : ∀ (k : ℕ) (h : k < xs.length), cells (slot M c (head + k)) = xs[k]
  apart : ∀ k l, k < l → l < xs.length → slot M c (head + k) ≠ slot M c (head + l)

/-- The slot of the counter `tail` is not that of one of the `count` elements before it: where
the counters have just wrapped, at most `M % c` slots are skipped. -/
def Clear (M c tail count : ℕ) : Prop := tail % M < M % c → count < M % c

theorem slot_mod (M c i j : ℕ) : slot M c (i % M + j) = slot M c (i + j) := by
  rw [slot, slot, Nat.mod_add_mod]

/-- Two counters that are `d < c` apart, the later one of which is `tail`. -/
theorem slot_eq_iff {tail d : ℕ} (hcM : c ≤ M) (hd : 0 < d) (hdc : d < c) (hdt : d ≤ tail) :
    slot M c (tail - d) = slot M c tail ↔ tail % M < d ∧ d = M % c := by
  have hM : 0 < M := by omega
  obtain ⟨q, r, hr, rfl⟩ : ∃ q r, r < M ∧ tail = M * q + r :=
    ⟨tail / M, tail % M, Nat.mod_lt _ hM, (Nat.div_add_mod tail M).symm⟩
  have htail : (M * q + r) % M = r := by rw [Nat.mul_add_mod, Nat.mod_eq_of_lt hr]
  rw [slot, slot, htail]
  by_cases hrd : r < d
  · -- the earlier counter is the `d - r`-th before a multiple of `M`
    obtain ⟨q, rfl⟩ : ∃ p, q = p + 1 := by
      cases q with
      | zero => omega
      | succ p => exact ⟨p, rfl⟩
    have hearly : (M * (q + 1) + r - d) % M = M + r - d := by
      have he : M * (q + 1) + r - d = M * q + (M + r - d) := by
        rw [Nat.mul_succ]
        omega
      rw [he, Nat.mul_add_mod, Nat.mod_eq_of_lt (by omega)]
    rw [hearly]
    have hmod : (M + r - d) % c = r % c ↔ (M : ℤ) ≡ d [ZMOD c] := by
      rw [← Nat.ModEq, ← Int.natCast_modEq_iff, Nat.cast_sub (by omega), Nat.cast_add]
      constructor
      · intro h
        have h' := (h.add_right (d : ℤ)).sub_right (r : ℤ)
        ring_nf at h'
        exact h'
      · intro h
        have h' := (h.add_right (r : ℤ)).sub_right (d : ℤ)
        ring_nf at h' ⊢
        exact h'
    rw [hmod, Int.natCast_modEq_iff, Nat.ModEq, Nat.mod_eq_of_lt hdc]
    exact ⟨fun h ↦ ⟨hrd, h.symm⟩, fun h ↦ h.2.symm⟩
  · have hearly : (M * q + r - d) % M = r - d := by
      have he : M * q + r - d = M * q + (r - d) := by omega
      rw [he, Nat.mul_add_mod, Nat.mod_eq_of_lt (by omega)]
    rw [hearly]
    refine ⟨fun h ↦ ?_, fun h ↦ absurd h.1 hrd⟩
    have hdvd : c ∣ r - (r - d) := Nat.dvd_of_mod_eq_zero (Nat.sub_mod_eq_zero_of_mod_eq h.symm)
    have hle := Nat.le_of_dvd (by omega) hdvd
    omega

theorem slot_ne_of_clear {tail count d : ℕ} (hcM : c ≤ M) (hclear : Clear M c tail count)
    (hd : 0 < d) (hdn : d ≤ count) (hcount : count < c) (hdt : d ≤ tail) :
    slot M c (tail - d) ≠ slot M c tail := by
  intro h
  obtain ⟨hlt, heq⟩ := (slot_eq_iff hcM hd (by omega) hdt).mp h
  have hn := hclear (by omega)
  omega

theorem exists_slot_eq {tail count : ℕ} (hcM : c ≤ M) (hroom : count < c) (hct : count ≤ tail)
    (hclear : ¬ Clear M c tail count) :
    ∃ d, 0 < d ∧ d ≤ count ∧ slot M c (tail - d) = slot M c tail := by
  simp only [Clear, Classical.not_imp, Nat.not_lt] at hclear
  obtain ⟨hlt, hle⟩ := hclear
  refine ⟨M % c, by omega, hle, ?_⟩
  exact (slot_eq_iff hcM (by omega) (Nat.mod_lt _ (by omega)) (by omega)).mpr ⟨hlt, rfl⟩

theorem holds_nil (M c : ℕ) (cells : ℕ → α) (head : ℕ) : Holds M c cells head [] :=
  ⟨Nat.zero_le _, fun k h ↦ absurd h (Nat.not_lt_zero k), fun _ l _ h ↦ absurd h (Nat.not_lt_zero l)⟩

theorem Holds.congr {head' : ℕ} (h : Holds M c cells head xs)
    (hmod : head' % M = head % M) : Holds M c cells head' xs := by
  have hslot (k : ℕ) : slot M c (head' + k) = slot M c (head + k) := by
    rw [← slot_mod, hmod, slot_mod]
  refine ⟨h.fits, fun k hk ↦ ?_, fun k l hkl hl ↦ ?_⟩
  · rw [hslot]
    exact h.get k hk
  · rw [hslot, hslot]
    exact h.apart k l hkl hl

theorem Holds.push (h : Holds M c cells head xs) (hcM : c ≤ M) (hroom : xs.length < c)
    (hclear : Clear M c (head + xs.length) xs.length) (x : α) :
    Holds M c (update cells (slot M c (head + xs.length)) x) head (xs ++ [x]) := by
  have hne (k : ℕ) (hk : k < xs.length) :
      slot M c (head + k) ≠ slot M c (head + xs.length) := by
    have hslot := slot_ne_of_clear (d := xs.length - k) hcM hclear (by omega) (by omega) hroom
      (by omega)
    rwa [show head + xs.length - (xs.length - k) = head + k by omega] at hslot
  refine ⟨by simp; omega, fun k hk ↦ ?_, fun k l hkl hl ↦ ?_⟩
  · rw [List.length_append, List.length_singleton] at hk
    by_cases hlt : k < xs.length
    · rw [update_of_ne (hne k hlt), h.get k hlt, List.getElem_append_left hlt]
    · obtain rfl : k = xs.length := by omega
      simp
  · rw [List.length_append, List.length_singleton] at hl
    by_cases hlt : l < xs.length
    · exact h.apart k l hkl hlt
    · obtain rfl : l = xs.length := by omega
      exact hne k hkl

theorem Holds.pop {x : α} (h : Holds M c cells head (x :: xs)) (y : α) :
    cells (slot M c head) = x ∧ Holds M c (update cells (slot M c head) y) (head + 1) xs := by
  have hshift (k : ℕ) : head + 1 + k = head + (k + 1) := by omega
  refine ⟨h.get 0 (by simp), ?_, fun k hk ↦ ?_, fun k l hkl hl ↦ ?_⟩
  · have hfits := h.fits
    rw [List.length_cons] at hfits
    omega
  · have hapart : slot M c head ≠ slot M c (head + (k + 1)) :=
      h.apart 0 (k + 1) (by omega) (by simp; omega)
    rw [hshift, update_of_ne (Ne.symm hapart), h.get (k + 1) (by simp; omega)]
    rfl
  · rw [hshift, hshift]
    exact h.apart (k + 1) (l + 1) (by omega) (by simp; omega)

end RingBuffer
