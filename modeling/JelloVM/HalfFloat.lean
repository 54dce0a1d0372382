import JelloVM.Numeric

/-! The conversions between half and single precision, on exact numbers. -/

namespace JelloVM

open Ieee

section Widened

variable {bits : UInt16}

theorem exponent_ne_of_finite (h : (val16 bits).isFinite = true) :
    f16.exponent bits.toNat ≠ 31 := by
  intro h31
  have hmax : f16.exponent bits.toNat = 2 ^ f16.expo - 1 := h31
  rw [val16, Format.decode, if_pos hmax] at h
  split_ifs at h <;> exact Bool.noConfusion h

theorem vmF16BitsToF32_unit (fpu fpu' : Fpu) (h31 : f16.exponent bits.toNat ≠ 31) :
    vmF16BitsToF32 fpu bits = vmF16BitsToF32 fpu' bits := by
  have hexp : (bits.toUInt32 >>> 10) &&& 0x1f ≠ 31 := by
    intro heq
    rw [← exp_of, heq] at h31
    exact h31 rfl
  simp only [vmF16BitsToF32, if_neg hexp]

theorem val32_widened (fpu : Fpu) (h : (val16 bits).isFinite = true) :
    val32 (vmF16BitsToF32 fpu bits) = (Num.f16 bits).asRead := by
  rw [vmF16BitsToF32_unit fpu exactFpu (exponent_ne_of_finite h)]
  refine val32_asRead ieee_exactFpu bits fun hnan ↦ ?_
  rw [hnan] at h
  exact Bool.noConfusion h

theorem twice_ne {q : ℚ} (hq : q ≠ 0) : twice (.finite q) ≠ .finite q := by
  intro h
  have hval : 2 * q = q := Datum.finite.inj h
  exact hq (by linarith)

theorem widened_exact_iff (fpu : Fpu) (h : (val16 bits).isFinite = true) :
    val32 (vmF16BitsToF32 fpu bits) = val16 bits ↔ ¬(Num.f16 bits).Doubled := by
  rw [val32_widened fpu h, Num.asRead]
  split_ifs with hd
  · obtain ⟨he, hm, -⟩ := id hd
    have hval : val16 bits = .finite (Format.signed (f16.negative bits.toNat)
        (f16.magnitude 0 (f16.mantissa bits.toNat))) := by
      rw [val16, Format.decode, he, if_neg (by decide)]
    have hpos : f16.magnitude 0 (f16.mantissa bits.toNat) ≠ 0 := by
      rw [Format.magnitude, if_pos rfl]
      exact mul_ne_zero (Nat.cast_ne_zero.mpr hm) (two_zpow_pos _).ne'
    have hne : Format.signed (f16.negative bits.toNat)
        (f16.magnitude 0 (f16.mantissa bits.toNat)) ≠ 0 := by
      rw [← abs_ne_zero, abs_signed _ (magnitude_nonneg f16 _ _)]
      exact hpos
    simp only [Num.datum, hval, twice_ne hne, hd, not_true_eq_false]
  · simp only [Num.datum, hd, not_false_eq_true]

/-- The loop of `vm_f16_bits_to_f32` ends by its own condition. -/
theorem normalise_ends (hm : f16.mantissa bits.toNat ≠ 0) :
    (normalise 24 ((bits.toUInt32 &&& 0x3ff) <<< 13) 0).1 &&& 0x800000 ≠ 0 := by
  have hlt : f16.mantissa bits.toNat < 2 ^ 10 := mantissa_lt f16 bits.toNat
  obtain ⟨hlead, hsmall, -⟩ := normalise_subnormal 0 hm hlt (mant_of bits)
  rw [Ne, bit23_iff (by omega)]
  omega

end Widened

section Narrowed

variable {x : UInt32} {q : ℚ}

theorem low32 (x : UInt32) : f32.low x.toNat = x.toNat % 2 ^ 31 := rfl

theorem exp16_eq : ∀ e : Fin 256, i32 (UInt32.ofNat e.val - 127 + 15) = (e.val : ℤ) - 112 := by
  decide +kernel

/-- The pattern without its sign: numbers below the normal ones become 0, those above the largest
one infinity, and the others lose the end of the mantissa. -/
def narrowLow (n : ℕ) : ℕ :=
  if n < 113 * 2 ^ 23 then 0
  else if n < 143 * 2 ^ 23 then n / 2 ^ 13 - 112 * 2 ^ 10
  else f16.top

theorem toNat_vmF32ToF16Bits (hx : f32.low x.toNat < f32.top) :
    (vmF32ToF16Bits x).toNat = x.toNat / 2 ^ 31 * 2 ^ 15 + narrowLow (f32.low x.toNat) := by
  have hlt := x.toNat_lt
  have hsign : ((x >>> 16) &&& 0x8000).toNat = x.toNat / 2 ^ 31 * 2 ^ 15 := by
    rw [UInt32.toNat_and, UInt32.toNat_shiftRight, Nat.shiftRight_eq_div_pow]
    change x.toNat / 2 ^ 16 &&& 2 ^ 15 = _
    rw [Nat.and_two_pow, Nat.toNat_testBit]
    omega
  have hexp : ((x >>> 23) &&& 0xff).toNat = x.toNat / 2 ^ 23 % 2 ^ 8 := by
    rw [UInt32.toNat_and, UInt32.toNat_shiftRight, Nat.shiftRight_eq_div_pow]
    exact Nat.and_two_pow_sub_one_eq_mod _ 8
  have hmant : (x &&& 0x7fffff).toNat = x.toNat % 2 ^ 23 := by
    rw [UInt32.toNat_and]
    exact Nat.and_two_pow_sub_one_eq_mod _ 23
  have htop : x.toNat % 2 ^ 31 < 255 * 2 ^ 23 := hx
  rw [low32]
  unfold vmF32ToF16Bits
  dsimp only
  generalize (x >>> 16) &&& 0x8000 = sign at *
  generalize (x >>> 23) &&& 0xff = exp at *
  generalize x &&& 0x7fffff = mant at *
  have hmax : ¬exp = 0xff := by
    rw [← UInt32.toNat_inj, hexp]
    change ¬_ = 255
    omega
  have hval : i32 (exp - 127 + 15) = (exp.toNat : ℤ) - 112 := by
    have h := exp16_eq ⟨exp.toNat, by omega⟩
    rwa [UInt32.ofNat_toNat] at h
  obtain ⟨s, hs, hbit⟩ : ∃ s, x.toNat / 2 ^ 31 = s ∧ s < 2 := ⟨_, rfl, by omega⟩
  rw [hs] at hsign ⊢
  have hor (k : ℕ) (hk : k < 2 ^ 15) : s * 2 ^ 15 ||| k = s * 2 ^ 15 + k := by
    rw [← Nat.shiftLeft_eq, Nat.shiftLeft_add_eq_or_of_lt hk]
  have hplain : sign.toUInt16.toNat = s * 2 ^ 15 := by
    rw [UInt32.toNat_toUInt16, hsign]
    omega
  rw [if_neg hmax, hval, narrowLow]
  by_cases hzero : exp = 0 ∧ mant = 0
  · have he : exp.toNat = 0 := congrArg UInt32.toNat hzero.1
    rw [if_pos hzero, hplain, if_pos (by omega), Nat.add_zero]
  rw [if_neg hzero]
  by_cases hlarge : (31 : ℤ) ≤ (exp.toNat : ℤ) - 112
  · rw [if_pos hlarge, if_neg (by omega), if_neg (by omega), UInt32.toNat_toUInt16,
      UInt32.toNat_or, hsign]
    change (s * 2 ^ 15 ||| 31744) % 2 ^ 16 = s * 2 ^ 15 + 31744
    rw [hor _ (by omega)]
    omega
  rw [if_neg hlarge]
  by_cases hsmall : (exp.toNat : ℤ) - 112 ≤ 0
  · rw [if_pos hsmall, hplain, if_pos (by omega), Nat.add_zero]
  rw [if_neg hsmall, if_neg (by omega), if_pos (by omega), UInt32.toNat_toUInt16,
    UInt32.toNat_or, UInt32.toNat_or, hsign]
  have hfield : (exp - 127 + 15).toNat = exp.toNat - 112 := by
    have h127 : (127 : UInt32).toNat = 127 := rfl
    have h15 : (15 : UInt32).toNat = 15 := rfl
    rw [UInt32.toNat_add, UInt32.toNat_sub]
    omega
  have hshift : ((exp - 127 + 15) <<< 10).toNat = (exp.toNat - 112) * 2 ^ 10 := by
    have h10 : (10 : UInt32).toNat % 32 = 10 := rfl
    rw [UInt32.toNat_shiftLeft, Nat.shiftLeft_eq, h10, hfield]
    omega
  have hlow : (mant >>> 13).toNat = mant.toNat / 2 ^ 13 := by
    rw [UInt32.toNat_shiftRight, Nat.shiftRight_eq_div_pow]
    rfl
  have hjoin : (exp.toNat - 112) * 2 ^ 10 ||| mant.toNat / 2 ^ 13 =
      (exp.toNat - 112) * 2 ^ 10 + mant.toNat / 2 ^ 13 := by
    rw [← Nat.shiftLeft_eq, Nat.shiftLeft_add_eq_or_of_lt (by omega)]
  rw [hshift, hlow, Nat.lor_assoc, hjoin, hor _ (by omega)]
  omega
theorem val16_narrowed (hx : f32.low x.toNat < f32.top) :
    val16 (vmF32ToF16Bits x) =
      f16.datumAt (f32.negative x.toNat) (narrowLow (f32.low x.toNat)) := by
  have hlt := x.toNat_lt
  have hbits := toNat_vmF32ToF16Bits hx
  have hlow : f32.low x.toNat < 255 * 2 ^ 23 := hx
  have hk : narrowLow (f32.low x.toNat) ≤ 31 * 2 ^ 10 := by
    rw [narrowLow]
    split_ifs
    · omega
    · omega
    · exact le_rfl
  generalize narrowLow (f32.low x.toNat) = k at *
  have hlow16 : f16.low (vmF32ToF16Bits x).toNat = k := by
    rw [hbits]
    change (x.toNat / 2 ^ 31 * 2 ^ 15 + k) % 2 ^ 15 = k
    omega
  have hneg : f16.negative (vmF32ToF16Bits x).toNat = f32.negative x.toNat := by
    rw [hbits]
    change decide ((x.toNat / 2 ^ 31 * 2 ^ 15 + k) / 2 ^ 10 / 2 ^ 5 % 2 = 1) =
      decide (x.toNat / 2 ^ 23 / 2 ^ 8 % 2 = 1)
    rw [Nat.div_div_eq_div_mul, Nat.div_div_eq_div_mul, decide_eq_decide]
    omega
  have htop : f16.low (vmF32ToF16Bits x).toNat ≤ f16.top := by
    rw [hlow16]
    exact hk
  rw [val16, decode_eq_datumAt f16 htop, hneg, hlow16]

/-- What a half precision datum for `q` should be. -/
structure Narrowed (q : ℚ) (d : Datum) : Prop where
  adjacent : f16.Adjacent d q
  exact : f16.Represents q → d = .finite q
  infinite : ∀ s, d = .inf s → 65504 < |q|

theorem valueAt_one : f16.valueAt 1 = 1 / 2 ^ 24 := by decide +kernel

theorem valueAt_normal : f16.valueAt (2 ^ 10) = 1 / 2 ^ 14 := by decide +kernel

theorem valueAt_top : f16.valueAt f16.top = 65536 := by decide +kernel

theorem valueAt_f32 {k : ℕ} (hk : 2 ^ 10 ≤ k) :
    f32.valueAt (k * 2 ^ 13 + 112 * 2 ^ 23) = f16.valueAt k := valueAt_widen wider_f16 hk

variable {n : ℕ}

theorem valueAt_lt_normal (hn : n < 113 * 2 ^ 23) : f32.valueAt n < 1 / 2 ^ 14 := by
  rw [← valueAt_normal, ← valueAt_f32 le_rfl]
  exact (valueAt_strictMono f32) (by omega)

theorem normal_le_valueAt (hn : 113 * 2 ^ 23 ≤ n) : 1 / 2 ^ 14 ≤ f32.valueAt n := by
  rw [← valueAt_normal, ← valueAt_f32 le_rfl]
  exact (valueAt_strictMono f32).monotone (by omega)

theorem narrow_between (hlo : 113 * 2 ^ 23 ≤ n) (hhi : n < 143 * 2 ^ 23) :
    f16.valueAt (narrowLow n) ≤ f32.valueAt n ∧
      f32.valueAt n < f16.valueAt (narrowLow n + 1) := by
  obtain ⟨k, hk⟩ : ∃ k, n / 2 ^ 13 - 112 * 2 ^ 10 = k := ⟨_, rfl⟩
  have hnormal : 2 ^ 10 ≤ k := by omega
  have hle : k * 2 ^ 13 + 112 * 2 ^ 23 ≤ n := by omega
  have hlt : n < (k + 1) * 2 ^ 13 + 112 * 2 ^ 23 := by
    rw [Nat.succ_mul]
    omega
  rw [narrowLow, if_neg (by omega), if_pos hhi, hk, ← valueAt_f32 hnormal,
    ← valueAt_f32 (Nat.le_succ_of_le hnormal)]
  exact ⟨(valueAt_strictMono f32).monotone hle, valueAt_strictMono f32 hlt⟩

theorem narrowed_normal (hlo : 113 * 2 ^ 23 ≤ n) (hhi : n < 143 * 2 ^ 23) (s : Bool) :
    Narrowed (Format.signed s (f32.valueAt n)) (f16.datumAt s (narrowLow n)) := by
  obtain ⟨hle, hlt⟩ := narrow_between hlo hhi
  have hne : narrowLow n ≠ f16.top := by
    rw [narrowLow, if_neg (by omega), if_pos hhi]
    change _ ≠ 31 * 2 ^ 10
    omega
  rw [Format.datumAt, if_neg hne]
  refine ⟨adjacent_of_between hle hlt s, fun hq ↦ ?_, fun s' h ↦ Datum.noConfusion h⟩
  rw [eq_of_represents hle hlt s hq]

theorem narrowed_large (hn : 143 * 2 ^ 23 ≤ n) (s : Bool) :
    Narrowed (Format.signed s (f32.valueAt n)) (f16.datumAt s (narrowLow n)) := by
  have htop : f16.valueAt f16.top ≤ f32.valueAt n := by
    rw [← valueAt_f32 (by decide)]
    exact (valueAt_strictMono f32).monotone hn
  rw [narrowLow, if_neg (by omega), if_neg (by omega), Format.datumAt, if_pos rfl]
  refine ⟨adjacent_inf htop s, fun hq ↦ absurd hq (not_represents_of_top htop s), fun _ _ ↦ ?_⟩
  rw [abs_signed s (valueAt_nonneg f32 n)]
  rw [valueAt_top] at htop
  linarith

theorem narrowed_small_iff (hn : n < 113 * 2 ^ 23) (s : Bool) :
    Narrowed (Format.signed s (f32.valueAt n)) (f16.datumAt s (narrowLow n)) ↔
      f32.valueAt n < 1 / 2 ^ 24 := by
  have hnonneg := valueAt_nonneg f32 n
  have hzero : f16.datumAt s (narrowLow n) = .finite (Format.signed s (f16.valueAt 0)) := by
    rw [narrowLow, if_pos hn, Format.datumAt, if_neg (by decide)]
  rw [hzero, ← valueAt_one]
  constructor
  · intro h
    by_contra hge
    rw [not_lt] at hge
    have hone : 0 < f16.valueAt 1 := by
      rw [valueAt_one]
      norm_num
    obtain heq | hlt := hge.eq_or_lt
    · have hrep : f16.Represents (Format.signed s (f32.valueAt n)) := by
        rw [← heq]
        cases s
        · exact ⟨1, by decide +kernel⟩
        · exact ⟨2 ^ 15 + 1, by decide +kernel⟩
      have habs := congrArg abs (Datum.finite.inj (h.exact hrep))
      rw [abs_signed s hnonneg, abs_signed s (valueAt_nonneg f16 0), valueAt_zero] at habs
      linarith
    · cases s
      · refine (h.adjacent.2 1 (f16.valueAt 1) (by decide +kernel)).1 ⟨?_, hlt⟩
        rw [valueAt_zero]
        exact decide_eq_true hone
      · refine (h.adjacent.2 (2 ^ 15 + 1) (-f16.valueAt 1) (by decide +kernel)).2 ⟨?_, ?_⟩
        · exact neg_lt_neg hlt
        · rw [valueAt_zero]
          exact decide_eq_true (neg_lt_neg hone)
  · intro hlt
    have hle : f16.valueAt 0 ≤ f32.valueAt n := by
      rw [valueAt_zero]
      exact hnonneg
    refine ⟨adjacent_of_between hle hlt s, fun hq ↦ ?_, fun s' h ↦ Datum.noConfusion h⟩
    rw [eq_of_represents hle hlt s hq]

theorem narrowed_iff (hx : val32 x = .finite q) : Narrowed q (val16 (vmF32ToF16Bits x)) ↔
    |q| < 1 / 2 ^ 24 ∨ 1 / 2 ^ 14 ≤ |q| := by
  obtain ⟨hlow, rfl⟩ := (decode_eq_finite_iff f32).mp hx
  rw [val16_narrowed hlow, abs_signed _ (valueAt_nonneg f32 _)]
  by_cases hsmall : f32.low x.toNat < 113 * 2 ^ 23
  · rw [narrowed_small_iff hsmall]
    exact (or_iff_left (not_le.mpr (valueAt_lt_normal hsmall))).symm
  · rw [not_lt] at hsmall
    refine iff_of_true ?_ (.inr (normal_le_valueAt hsmall))
    obtain hlt | hge := Nat.lt_or_ge (f32.low x.toNat) (143 * 2 ^ 23)
    · exact narrowed_normal hsmall hlt _
    · exact narrowed_large hge _

theorem narrowLow_mono {m n : ℕ} (h : m ≤ n) (hn : n < 255 * 2 ^ 23) :
    narrowLow m ≤ narrowLow n ∧ narrowLow n ≤ f16.top := by
  change _ ∧ _ ≤ 31 * 2 ^ 10
  have htop : f16.top = 31 * 2 ^ 10 := rfl
  rw [narrowLow, narrowLow, htop]
  split_ifs <;> omega

theorem narrowed_mono {y : UInt32} {p : ℚ} (hx : val32 x = .finite p) (hy : val32 y = .finite q)
    (hpq : p ≤ q) : (val16 (vmF32ToF16Bits x)).Le (val16 (vmF32ToF16Bits y)) := by
  obtain ⟨hlx, rfl⟩ := (decode_eq_finite_iff f32).mp hx
  obtain ⟨hly, rfl⟩ := (decode_eq_finite_iff f32).mp hy
  rw [val16_narrowed hlx, val16_narrowed hly]
  have hmono (m n : ℕ) : f32.valueAt m ≤ f32.valueAt n ↔ m ≤ n :=
    (valueAt_strictMono f32).le_iff_le
  have hmx : f32.low x.toNat < 255 * 2 ^ 23 := hlx
  have hmy : f32.low y.toNat < 255 * 2 ^ 23 := hly
  generalize f32.low x.toNat = m at *
  generalize f32.low y.toNat = n at *
  generalize f32.negative x.toNat = s at *
  generalize f32.negative y.toNat = s' at *
  cases s <;> cases s'
  · obtain ⟨hle, htop⟩ := narrowLow_mono ((hmono m n).mp hpq) hmy
    exact (datumAt_le f16 hle htop).1
  · have hm0 : f32.valueAt m ≤ -f32.valueAt n := hpq
    have hm := valueAt_nonneg f32 m
    have hn := valueAt_nonneg f32 n
    obtain rfl : m = 0 := by
      refine Nat.le_zero.mp ((hmono m 0).mp ?_)
      rw [valueAt_zero]
      linarith
    obtain rfl : n = 0 := by
      refine Nat.le_zero.mp ((hmono n 0).mp ?_)
      rw [valueAt_zero]
      linarith
    have hzero : f16.datumAt true 0 = f16.datumAt false 0 := by decide +kernel
    change (f16.datumAt false 0).Le (f16.datumAt true 0)
    rw [hzero]
    exact (datumAt_le f16 le_rfl (Nat.zero_le _)).1
  · exact datumAt_le_of_signs f16 _ _
  · obtain ⟨hle, htop⟩ := narrowLow_mono ((hmono n m).mp (neg_le_neg_iff.mp hpq)) hmx
    exact (datumAt_le f16 hle htop).2

end Narrowed

/-- Widening is exact but for the subnormal numbers whose leading bit is at an odd place, which are
doubled; narrowing is monotone, and as it should be but for the range of the subnormal numbers,
which becomes 0. -/
theorem halfPrecision_iff (fpu : Fpu) :
    (∀ bits, (val16 bits).isFinite = true →
      (f16.exponent bits.toNat = 0 → f16.mantissa bits.toNat ≠ 0 →
        (normalise 24 ((bits.toUInt32 &&& 0x3ff) <<< 13) 0).1 &&& 0x800000 ≠ 0) ∧
      (val32 (vmF16BitsToF32 fpu bits) = val16 bits ↔
        ¬(f16.exponent bits.toNat = 0 ∧ f16.mantissa bits.toNat ≠ 0 ∧
          Nat.log2 (f16.mantissa bits.toNat) % 2 = 1))) ∧
    (∀ x q, val32 x = .finite q →
      (Narrowed q (val16 (vmF32ToF16Bits x)) ↔ |q| < 1 / 2 ^ 24 ∨ 1 / 2 ^ 14 ≤ |q|)) ∧
    ∀ x y p q, val32 x = .finite p → val32 y = .finite q → p ≤ q →
      (val16 (vmF32ToF16Bits x)).Le (val16 (vmF32ToF16Bits y)) := by
  refine ⟨fun bits hbits ↦ ⟨fun _ ↦ normalise_ends, ?_⟩, fun x q ↦ narrowed_iff, ?_⟩
  · exact widened_exact_iff fpu hbits
  · intro x y p q
    exact narrowed_mono

/-- The least subnormal half, and 1.0 -/
theorem halfPrecision_iff_least :
    (normalise 24 (((1 : UInt16).toUInt32 &&& 0x3ff) <<< 13) 0).1 &&& 0x800000 ≠ 0 ∧
      val32 (vmF16BitsToF32 default 1) = val16 1 ∧
        Narrowed 1 (val16 (vmF32ToF16Bits 0x3f800000)) ∧
          (val16 (vmF32ToF16Bits 0x3f800000)).Le (val16 (vmF32ToF16Bits 0x3f800000)) := by
  obtain ⟨hwide, hnarrow, hmono⟩ := halfPrecision_iff default
  have hone : val32 0x3f800000 = .finite 1 := by decide +kernel
  obtain ⟨hends, hexact⟩ := hwide 1 (by decide +kernel)
  refine ⟨hends (by decide) (by decide), hexact.mpr (by decide +kernel), ?_, ?_⟩
  · exact (hnarrow _ 1 hone).mpr (.inr (by norm_num))
  · exact hmono _ _ 1 1 hone hone le_rfl

/-- The subnormal 2/2^24 is read as 4/2^24, and becomes 0 when it is written. -/
theorem halfPrecision_subnormal :
    (val16 2 = .finite (1 / 2 ^ 23) ∧ val32 (vmF16BitsToF32 default 2) = .finite (1 / 2 ^ 22)) ∧
      val32 0x34000000 = .finite (1 / 2 ^ 23) ∧
        val16 (vmF32ToF16Bits 0x34000000) = .finite 0 ∧
          ¬Narrowed (1 / 2 ^ 23) (val16 (vmF32ToF16Bits 0x34000000)) := by
  have htwo : val16 2 = .finite (1 / 2 ^ 23) := by decide +kernel
  have hzero : val16 (vmF32ToF16Bits 0x34000000) = .finite 0 := by decide +kernel
  refine ⟨⟨htwo, by decide +kernel⟩, by decide +kernel, hzero, fun h ↦ ?_⟩
  have hexact := Datum.finite.inj (hzero.symm.trans (h.exact ⟨2, htwo⟩))
  norm_num at hexact

end JelloVM
