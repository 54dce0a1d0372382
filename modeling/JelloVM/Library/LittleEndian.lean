import Mathlib

namespace LittleEndian

/-- Numbers as lists of bytes, the low one first. -/
def bytesLE : ℕ → ℕ → List UInt8
  | 0, _ => []
  | w + 1, n => UInt8.ofNat n :: bytesLE w (n / 256)

def natLE : List UInt8 → ℕ
  | [] => 0
  | b :: bs => b.toNat + 256 * natLE bs

@[simp] theorem length_bytesLE (w n : ℕ) : (bytesLE w n).length = w := by
  induction w generalizing n with
  | zero => rfl
  | succ w ih => rw [bytesLE, List.length_cons, ih]

theorem bytesLE_eq_map (w n : ℕ) :
    bytesLE w n = (List.range w).map fun i ↦ UInt8.ofNat (n / 256 ^ i) := by
  induction w generalizing n with
  | zero => rfl
  | succ w ih =>
    rw [bytesLE, ih, List.range_succ_eq_map, List.map_cons, List.map_map, pow_zero, Nat.div_one]
    congr 1
    apply List.map_congr_left
    intro i _
    rw [Function.comp_apply, Nat.div_div_eq_div_mul, ← Nat.pow_succ']

theorem natLE_bytesLE (w n : ℕ) : natLE (bytesLE w n) = n % 256 ^ w := by
  induction w generalizing n with
  | zero => rw [bytesLE, natLE, pow_zero, Nat.mod_one]
  | succ w ih =>
    rw [bytesLE, natLE, ih, UInt8.toNat_ofNat', pow_succ' 256 w, Nat.mod_mul]

theorem bytesLE_add (w v n : ℕ) : bytesLE (w + v) n = bytesLE w n ++ bytesLE v (n / 256 ^ w) := by
  induction w generalizing n with
  | zero => rw [Nat.zero_add, pow_zero, Nat.div_one, bytesLE, List.nil_append]
  | succ w ih =>
    rw [Nat.add_right_comm, bytesLE, ih, bytesLE, List.cons_append, Nat.div_div_eq_div_mul,
      ← pow_succ']

theorem bytesLE_mod (w n : ℕ) : bytesLE w (n % 256 ^ w) = bytesLE w n := by
  induction w generalizing n with
  | zero => rfl
  | succ w ih =>
    have hlow : UInt8.ofNat (n % 256 ^ (w + 1)) = UInt8.ofNat n := by
      rw [← UInt8.toNat_inj, UInt8.toNat_ofNat', UInt8.toNat_ofNat']
      exact Nat.mod_mod_of_dvd n (Dvd.intro_left (256 ^ w) rfl)
    rw [bytesLE, bytesLE, hlow, pow_succ', Nat.mod_mul_right_div_self, ih]

theorem natLE_lt (bs : List UInt8) : natLE bs < 256 ^ bs.length := by
  induction bs with
  | nil => exact Nat.one_pos
  | cons b bs ih =>
    have hb := b.toNat_lt
    rw [natLE, List.length_cons, Nat.pow_succ']
    omega

theorem bytesLE_natLE (bs : List UInt8) : bytesLE bs.length (natLE bs) = bs := by
  induction bs with
  | nil => rfl
  | cons b bs ih =>
    have hb : UInt8.ofNat (b.toNat + 256 * natLE bs) = b := by
      rw [← UInt8.toNat_inj, UInt8.toNat_ofNat', Nat.add_mul_mod_self_left]
      exact Nat.mod_eq_of_lt b.toNat_lt
    have hrest : (b.toNat + 256 * natLE bs) / 256 = natLE bs := by
      have hlt := b.toNat_lt
      omega
    rw [natLE, List.length_cons, bytesLE, hb, hrest, ih]

theorem natLE_take_succ (bs : List UInt8) {n : ℕ} (hn : n < bs.length) :
    natLE (bs.take (n + 1)) = natLE (bs.take n) + bs[n].toNat * 256 ^ n := by
  induction bs generalizing n with
  | nil => exact absurd hn (Nat.not_lt_zero n)
  | cons b bs ih =>
    cases n with
    | zero => simp [natLE]
    | succ n =>
      have hn' : n < bs.length := by simpa using hn
      rw [List.take_succ_cons, natLE, ih hn', List.take_succ_cons, natLE, List.getElem_cons_succ,
        Nat.pow_succ']
      ring

section Words

theorem two_pow_bits (i : ℕ) : 2 ^ (8 * i) = 256 ^ i := by
  rw [pow_mul]
  norm_num

theorem or_byte {n i : ℕ} (hn : n < 256 ^ i) (b : UInt8) :
    n ||| b.toNat <<< (8 * i) = n + b.toNat * 256 ^ i := by
  rw [← two_pow_bits] at hn
  rw [Nat.or_comm, ← Nat.shiftLeft_add_eq_or_of_lt hn, Nat.shiftLeft_eq, two_pow_bits,
    Nat.add_comm]

theorem byte_shift_lt {w i : ℕ} (hi : i < w) (b : UInt8) :
    b.toNat <<< (8 * i) < 256 ^ w := by
  have hb := b.toNat_lt
  rw [Nat.shiftLeft_eq, two_pow_bits]
  calc b.toNat * 256 ^ i < 256 * 256 ^ i := Nat.mul_lt_mul_of_pos_right hb (by positivity)
    _ = 256 ^ (i + 1) := by rw [Nat.pow_succ']
    _ ≤ 256 ^ w := Nat.pow_le_pow_right (by decide) hi

/-- The reading of a word of 64 bits, byte after byte -/
def orBytes64 (bs : List UInt8) (n : ℕ) : UInt64 :=
  (List.range n).foldl (fun v i ↦ v ||| (bs.getD i 0).toUInt64 <<< UInt64.ofNat (8 * i)) 0

theorem toNat_orBytes64 {bs : List UInt8} {n : ℕ} (hn : n ≤ bs.length) (hn' : n ≤ 8) :
    (orBytes64 bs n).toNat = natLE (bs.take n) := by
  induction n with
  | zero => rfl
  | succ n ih =>
    have hprev := ih (by omega) (by omega)
    have hlt : natLE (bs.take n) < 256 ^ n := by
      have h := natLE_lt (bs.take n)
      rwa [List.length_take, Nat.min_eq_left (by omega)] at h
    have hword : (256 : ℕ) ^ 8 = 2 ^ 64 := by norm_num
    have hshift := byte_shift_lt (show n < 8 by omega) (bs.getD n 0)
    rw [hword] at hshift
    have hstep : orBytes64 bs (n + 1) =
        orBytes64 bs n ||| (bs.getD n 0).toUInt64 <<< UInt64.ofNat (8 * n) := by
      simp only [orBytes64, List.range_succ, List.foldl_append, List.foldl_cons, List.foldl_nil]
    have hamount : (UInt64.ofNat (8 * n)).toNat % 64 = 8 * n := by
      rw [UInt64.toNat_ofNat', Nat.mod_mod_of_dvd _ (by norm_num)]
      exact Nat.mod_eq_of_lt (by omega)
    rw [hstep, UInt64.toNat_or, hprev, UInt64.toNat_shiftLeft, UInt8.toNat_toUInt64, hamount,
      Nat.mod_eq_of_lt hshift, or_byte hlt, natLE_take_succ bs (by omega),
      List.getD_eq_getElem _ _ (by omega)]

/-- The writing of a word of 64 bits, byte after byte -/
def splitBytes64 (v : UInt64) : List UInt8 :=
  (List.range 8).map fun i ↦ (v >>> UInt64.ofNat (8 * i) &&& 0xff).toUInt8

theorem splitBytes64_eq (v : UInt64) : splitBytes64 v = bytesLE 8 v.toNat := by
  rw [bytesLE_eq_map]
  apply List.map_congr_left
  intro i hi
  have hi : i < 8 := List.mem_range.mp hi
  have hamount : (UInt64.ofNat (8 * i)).toNat % 64 = 8 * i := by
    rw [UInt64.toNat_ofNat', Nat.mod_mod_of_dvd _ (by norm_num)]
    exact Nat.mod_eq_of_lt (by omega)
  have hand (n : ℕ) : n &&& 255 = n % 256 := Nat.and_two_pow_sub_one_eq_mod n 8
  rw [← UInt8.toNat_inj, UInt64.toNat_toUInt8, UInt64.toNat_and, UInt64.toNat_shiftRight, hamount,
    Nat.shiftRight_eq_div_pow, two_pow_bits, UInt8.toNat_ofNat']
  change (v.toNat / 256 ^ i &&& 255) % 2 ^ 8 = _
  rw [hand]
  exact Nat.mod_mod _ _

theorem orBytes64_split (v : UInt64) (rest : List UInt8) :
    orBytes64 (splitBytes64 v ++ rest) 8 = v := by
  have hv := v.toNat_lt
  have hword : (256 : ℕ) ^ 8 = 2 ^ 64 := by norm_num
  rw [← UInt64.toNat_inj, splitBytes64_eq, toNat_orBytes64 (by simp) le_rfl,
    List.take_left' (length_bytesLE 8 _), natLE_bytesLE, hword, Nat.mod_eq_of_lt hv]

end Words

end LittleEndian
