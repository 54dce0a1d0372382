import JelloVM.Library.Utf8

namespace Utf16

open Utf8 (Scalar)

def encode (c : ℕ) : List UInt16 :=
  if c < 0x10000 then [UInt16.ofNat c]
  else [UInt16.ofNat (0xD800 + (c - 0x10000) / 1024), UInt16.ofNat (0xDC00 + (c - 0x10000) % 1024)]

def Surrogate (u : UInt16) : Prop := 0xD800 ≤ u ∧ u ≤ 0xDFFF

def High (u : UInt16) : Prop := 0xD800 ≤ u ∧ u ≤ 0xDBFF

def Low (u : UInt16) : Prop := 0xDC00 ≤ u ∧ u ≤ 0xDFFF

instance (u : UInt16) : Decidable (Surrogate u) := inferInstanceAs (Decidable (_ ∧ _))

/-- Every surrogate belongs to a pair, the high one first. -/
inductive WellFormed : List UInt16 → Prop
  | nil : WellFormed []
  | one {u : UInt16} {us : List UInt16} (hu : ¬Surrogate u) (h : WellFormed us) :
    WellFormed (u :: us)
  | pair {u v : UInt16} {us : List UInt16} (hu : High u) (hv : Low v) (h : WellFormed us) :
    WellFormed (u :: v :: us)

section Units

variable {u v : UInt16}

theorem surrogate_iff : Surrogate u ↔ 0xD800 ≤ u.toNat ∧ u.toNat ≤ 0xDFFF := by
  simp only [Surrogate, UInt16.le_iff_toNat_le, UInt16.reduceToNat]

theorem high_iff : High u ↔ 0xD800 ≤ u.toNat ∧ u.toNat ≤ 0xDBFF := by
  simp only [High, UInt16.le_iff_toNat_le, UInt16.reduceToNat]

theorem low_iff : Low u ↔ 0xDC00 ≤ u.toNat ∧ u.toNat ≤ 0xDFFF := by
  simp only [Low, UInt16.le_iff_toNat_le, UInt16.reduceToNat]

theorem toNat_ofNat_of_lt {n : ℕ} (h : n < 65536) : (UInt16.ofNat n).toNat = n := by
  rw [UInt16.toNat_ofNat']
  exact Nat.mod_eq_of_lt h

theorem encode_unit (hu : ¬Surrogate u) : Scalar u.toNat ∧ encode u.toNat = [u] := by
  rw [surrogate_iff] at hu
  have hlt := u.toNat_lt
  constructor
  · unfold Scalar
    omega
  · rw [encode, if_pos hlt, UInt16.ofNat_toNat]

/-- The code point of a surrogate pair -/
def combined (u v : UInt16) : ℕ := (u.toNat - 0xD800) * 1024 + (v.toNat - 0xDC00) + 0x10000

theorem encode_combined (hu : High u) (hv : Low v) :
    Scalar (combined u v) ∧ encode (combined u v) = [u, v] := by
  rw [high_iff] at hu
  rw [low_iff] at hv
  unfold combined
  constructor
  · exact .inr (by omega)
  · have hhigh : 0xD800 + ((u.toNat - 0xD800) * 1024 + (v.toNat - 0xDC00)) / 1024 = u.toNat := by
      omega
    have hlow : 0xDC00 + ((u.toNat - 0xD800) * 1024 + (v.toNat - 0xDC00)) % 1024 = v.toNat := by
      omega
    rw [encode, if_neg (by omega), Nat.add_sub_cancel, hhigh, hlow, UInt16.ofNat_toNat,
      UInt16.ofNat_toNat]

end Units

theorem encode_cases {c : ℕ} (hc : Scalar c) :
    (∃ u : UInt16, ¬Surrogate u ∧ c = u.toNat ∧ encode c = [u]) ∨
      ∃ u v : UInt16, High u ∧ Low v ∧ c = combined u v ∧ encode c = [u, v] := by
  unfold Scalar at hc
  unfold encode
  split_ifs with hlt
  · refine .inl ⟨UInt16.ofNat c, ?_, (toNat_ofNat_of_lt hlt).symm, rfl⟩
    rw [surrogate_iff, toNat_ofNat_of_lt hlt]
    omega
  · have hu := toNat_ofNat_of_lt (show 0xD800 + (c - 0x10000) / 1024 < 65536 by omega)
    have hv := toNat_ofNat_of_lt (show 0xDC00 + (c - 0x10000) % 1024 < 65536 by omega)
    refine .inr ⟨_, _, ?_, ?_, ?_, rfl⟩
    · rw [high_iff, hu]
      omega
    · rw [low_iff, hv]
      omega
    · rw [combined, hu, hv]
      omega

theorem wellFormed_encode_append {c : ℕ} {us : List UInt16} (hc : Scalar c)
    (h : WellFormed us) : WellFormed (encode c ++ us) := by
  rcases encode_cases hc with ⟨u, hu, -, henc⟩ | ⟨u, v, hu, hv, -, henc⟩
  · rw [henc]
    exact .one hu h
  · rw [henc]
    exact .pair hu hv h

theorem wellFormed_iff {us : List UInt16} :
    WellFormed us ↔ ∃ cs : List ℕ, (∀ c ∈ cs, Scalar c) ∧ us = cs.flatMap encode := by
  constructor
  · intro h
    induction h with
    | nil => exact ⟨[], by simp, rfl⟩
    | @one u us hu h ih =>
      obtain ⟨cs, hcs, rfl⟩ := ih
      obtain ⟨hscalar, henc⟩ := encode_unit hu
      refine ⟨u.toNat :: cs, List.forall_mem_cons.mpr ⟨hscalar, hcs⟩, ?_⟩
      rw [List.flatMap_cons, henc]
      rfl
    | @pair u v us hu hv h ih =>
      obtain ⟨cs, hcs, rfl⟩ := ih
      obtain ⟨hscalar, henc⟩ := encode_combined hu hv
      refine ⟨combined u v :: cs, List.forall_mem_cons.mpr ⟨hscalar, hcs⟩, ?_⟩
      rw [List.flatMap_cons, henc]
      rfl
  · rintro ⟨cs, hcs, rfl⟩
    induction cs with
    | nil => exact .nil
    | cons c cs ih =>
      rw [List.forall_mem_cons] at hcs
      exact wellFormed_encode_append hcs.1 (ih hcs.2)

theorem zero_mem_encode {c : ℕ} (hc : Scalar c) : 0 ∈ encode c ↔ c = 0 := by
  unfold Scalar at hc
  unfold encode
  split_ifs with hlt
  · rw [List.mem_singleton, ← UInt16.toNat_inj, toNat_ofNat_of_lt hlt]
    exact eq_comm
  · simp only [List.mem_cons, List.not_mem_nil, or_false, ← UInt16.toNat_inj, UInt16.toNat_zero,
      toNat_ofNat_of_lt (show 0xD800 + (c - 0x10000) / 1024 < 65536 by omega),
      toNat_ofNat_of_lt (show 0xDC00 + (c - 0x10000) % 1024 < 65536 by omega)]
    omega

end Utf16
