import Mathlib

namespace JelloVM

/-- `const uint8_t* s, uint32_t len`. What lies behind the bytes is some other memory. -/
structure CBytes where
  data : ℕ → UInt8
  len : UInt32

def CBytes.bytes (s : CBytes) : List UInt8 := (List.range s.len.toNat).map s.data

def CBytes.ofList (bs : List UInt8) : CBytes where
  data := fun i ↦ bs.getD i 0
  len := UInt32.ofNat bs.length

@[simp] theorem CBytes.length_bytes (s : CBytes) : s.bytes.length = s.len.toNat := by
  rw [CBytes.bytes, List.length_map, List.length_range]

/-- The bytes `i`, ..., `i + n - 1` -/
def CBytes.window (s : CBytes) (i n : ℕ) : List UInt8 := (List.range' i n).map s.data

theorem CBytes.drop_bytes (s : CBytes) {i : ℕ} (hi : i < s.len.toNat) :
    s.bytes.drop i = s.data i :: s.bytes.drop (i + 1) := by
  rw [List.drop_eq_getElem_cons (by rwa [length_bytes])]
  simp only [bytes, List.getElem_map, List.getElem_range]

theorem CBytes.take_drop_bytes (s : CBytes) {i n : ℕ} (h : i + n ≤ s.len.toNat) :
    (s.bytes.drop i).take n = s.window i n := by
  induction n generalizing i with
  | zero => rfl
  | succ n ih =>
    rw [s.drop_bytes (by omega), List.take_succ_cons, ih (by omega), window, window,
      List.range'_succ, List.map_cons]

theorem CBytes.prefix_iff (s : CBytes) {i : ℕ} {b : UInt8} {t : List UInt8} :
    (b :: t) <+: s.bytes.drop i ↔
      i + (t.length + 1) ≤ s.len.toNat ∧ b = s.data i ∧ t = s.window (i + 1) t.length := by
  rw [List.prefix_iff_eq_take, List.length_cons]
  constructor
  · intro h
    have hlen : t.length + 1 ≤ s.len.toNat - i := by
      have hl := congrArg List.length h
      rw [List.length_cons, List.length_take, List.length_drop, length_bytes] at hl
      omega
    rw [s.drop_bytes (by omega), List.take_succ_cons, s.take_drop_bytes (by omega),
      List.cons.injEq] at h
    exact ⟨by omega, h⟩
  · rintro ⟨hlen, hb, ht⟩
    rw [s.drop_bytes (by omega), List.take_succ_cons, s.take_drop_bytes (by omega), ← hb, ← ht]

theorem CBytes.bytes_ofList {bs : List UInt8} (h : bs.length < 2 ^ 32) :
    (CBytes.ofList bs).bytes = bs := by
  have hlen : (CBytes.ofList bs).len.toNat = bs.length := by
    rw [CBytes.ofList, UInt32.toNat_ofNat']
    exact Nat.mod_eq_of_lt h
  apply List.ext_getElem
  · rw [CBytes.length_bytes, hlen]
  · intro i hi hi'
    simp only [CBytes.bytes, CBytes.ofList, List.getElem_map, List.getElem_range,
      List.getD_eq_getElem _ _ hi']

/-- `input += k`, `length -= k` -/
def CBytes.skip (s : CBytes) (k : UInt32) : CBytes where
  data := fun j ↦ s.data (k.toNat + j)
  len := s.len - k

theorem CBytes.bytes_eq_window (s : CBytes) : s.bytes = s.window 0 s.len.toNat := by
  rw [bytes, window, List.range_eq_range']

theorem CBytes.split_bytes (s : CBytes) {k : UInt32} (hk : k ≤ s.len) :
    s.bytes = s.window 0 k.toNat ++ (s.skip k).bytes := by
  have hle := UInt32.le_iff_toNat_le.mp hk
  have hlen : s.len.toNat = k.toNat + (s.len - k).toNat := by
    rw [UInt32.toNat_sub_of_le _ _ hk]
    omega
  rw [bytes, hlen, List.range_add, List.map_append, List.map_map, window, List.range_eq_range']
  rfl

theorem CBytes.length_window (s : CBytes) (i n : ℕ) : (s.window i n).length = n := by
  rw [window, List.length_map, List.length_range']

end JelloVM
