import JelloVM.Conversions

/-! Numbers of five representations, and what the comparison of numbers reads them as. -/

namespace JelloVM

open ByteMemory Logged Ieee

def twice : Datum → Datum
  | .finite q => .finite (2 * q)
  | d => d

theorem twice_injective : Function.Injective twice := by
  intro a b h
  cases a <;> cases b <;> simp_all [twice]

namespace Num

/-- The number that the bits stand for. -/
def datum : Num → Datum
  | .word x => .finite x.toBitVec.toInt
  | .i64 x => .finite x.toBitVec.toInt
  | .f64 x => val64 x
  | .f32 x => val32 x
  | .f16 x => val16 x

def whole : Num → Option ℤ
  | .word x => some x.toBitVec.toInt
  | .i64 x => some x.toBitVec.toInt
  | _ => none

/-- A subnormal half whose leading bit is at an odd place of the mantissa. -/
def Doubled : Num → Prop
  | .f16 x => Ieee.f16.exponent x.toNat = 0 ∧ Ieee.f16.mantissa x.toNat ≠ 0 ∧
      Nat.log2 (Ieee.f16.mantissa x.toNat) % 2 = 1
  | _ => False

instance : DecidablePred Doubled := fun n ↦ by
  cases n <;> unfold Doubled <;> infer_instance

/-- What the number is read as: twice what it is, where it is such a half. -/
def asRead (n : Num) : Datum := if n.Doubled then twice n.datum else n.datum

end Num

section HalfPrecision

variable {fpu : Fpu}

theorem bit23_iff {x : UInt32} (hx : x.toNat < 2 ^ 24) : x &&& 0x800000 = 0 ↔ x.toNat < 2 ^ 23 := by
  have hand : (x &&& 0x800000).toNat = (x.toNat / 2 ^ 23 % 2) * 2 ^ 23 := by
    rw [UInt32.toNat_and]
    change x.toNat &&& 2 ^ 23 = _
    rw [Nat.and_two_pow, Nat.toNat_testBit]
  rw [← UInt32.toNat_inj, hand]
  change _ = 0 ↔ _
  omega

theorem normalise_eq (n k : ℕ) (mant exp : UInt32) (hk : k ≤ n)
    (hlo : 2 ^ 23 ≤ mant.toNat * 2 ^ k) (hhi : mant.toNat * 2 ^ k < 2 ^ 24) :
    (normalise n mant exp).1.toNat = mant.toNat * 2 ^ k ∧
      (normalise n mant exp).2 = exp - UInt32.ofNat k := by
  induction k generalizing n mant exp with
  | zero =>
    rw [pow_zero, mul_one] at hlo hhi ⊢
    have hbit : ¬mant &&& 0x800000 = 0 := by
      rw [bit23_iff hhi]
      omega
    cases n with
    | zero => exact ⟨rfl, by simp [normalise]⟩
    | succ n =>
      rw [normalise, if_neg hbit]
      exact ⟨rfl, by simp⟩
  | succ k ih =>
    obtain ⟨n, rfl⟩ := Nat.exists_eq_add_of_le' (Nat.one_le_of_lt hk)
    have hpow : mant.toNat * 2 ^ (k + 1) = 2 * mant.toNat * 2 ^ k := by ring
    rw [hpow] at hlo hhi ⊢
    have hsmall : mant.toNat < 2 ^ 23 := by
      have hone := Nat.one_le_two_pow (n := k)
      have hmul := Nat.mul_le_mul_left (2 * mant.toNat) hone
      omega
    have hshift : (mant <<< 1).toNat = 2 * mant.toNat := by
      have h1 : (1 : UInt32).toNat % 32 = 1 := rfl
      rw [UInt32.toNat_shiftLeft, Nat.shiftLeft_eq, h1]
      omega
    obtain ⟨hfin, hexp⟩ := ih n (mant <<< 1) (exp - 1) (by omega) (by rwa [hshift])
      (by rwa [hshift])
    rw [normalise, if_pos ((bit23_iff (by omega)).mpr hsmall), hfin, hexp, hshift]
    refine ⟨rfl, ?_⟩
    rw [UInt32.ofNat_add, sub_sub, add_comm]
    rfl

theorem or_one_of : ∀ l : Fin 10, (103 + l.val) ||| 1 =
    if l.val % 2 = 1 then 103 + l.val + 1 else 103 + l.val := by decide

/-- The leading bit, which the format leaves out, is not taken away but added to the exponent. -/
theorem val32_leading {sign exp mant : UInt32} {neg : Bool} {l r : ℕ} (hl : l < 10)
    (hr : r < 2 ^ 23) (hsign : sign.toNat = (if neg then 1 else 0) * 2 ^ 31)
    (hexp : exp.toNat = 103 + l) (hmant : mant.toNat = 2 ^ 23 + r) :
    val32 (sign ||| (exp <<< 23) ||| mant) =
      .finite (Format.signed neg (f32.magnitude ((103 + l) ||| 1) r)) := by
  have hfield := or_one_of ⟨l, hl⟩
  dsimp only at hfield
  have hlt : ((103 + l) ||| 1) < 127 := by
    rw [hfield]
    split_ifs <;> omega
  have hshift : (exp <<< 23).toNat = (103 + l) <<< 23 := by
    have h23 : (23 : UInt32).toNat % 32 = 23 := rfl
    rw [UInt32.toNat_shiftLeft, h23, hexp, Nat.mod_eq_of_lt]
    rw [Nat.shiftLeft_eq]
    omega
  have hlead : mant.toNat = 1 <<< 23 ||| r := by
    rw [hmant, ← Nat.shiftLeft_add_eq_or_of_lt hr]
    rfl
  have hlow : (exp <<< 23 ||| mant).toNat = ((103 + l) ||| 1) * 2 ^ 23 + r := by
    rw [UInt32.toNat_or, hshift, hlead, ← Nat.lor_assoc, ← Nat.shiftLeft_or_distrib,
      ← Nat.shiftLeft_add_eq_or_of_lt hr, Nat.shiftLeft_eq]
  have hpack : (sign ||| (exp <<< 23) ||| mant).toNat = f32.pack neg ((103 + l) ||| 1) r := by
    have hpre : (sign ||| (exp <<< 23) ||| mant).toNat =
        (if neg then 1 else 0) <<< 31 ||| (((103 + l) ||| 1) * 2 ^ 23 + r) := by
      rw [← hlow, UInt32.or_assoc, UInt32.toNat_or sign, hsign, Nat.shiftLeft_eq]
    rw [hpre, ← Nat.shiftLeft_add_eq_or_of_lt (by omega), Format.pack, Nat.shiftLeft_eq]
    change _ = ((if neg = true then 256 else 0) + _) * 2 ^ 23 + r
    cases neg
    · simp
    · simp only [if_true]
      omega
  rw [val32, hpack, decode_pack f32 hr (by change _ < 2 ^ 8 - 1; omega)]

theorem sign_bit (bits : UInt16) : bits.toNat / 2 ^ 15 % 2 =
    if f16.negative bits.toNat then 1 else 0 := by
  have hneg : f16.negative bits.toNat = decide (bits.toNat / 2 ^ 10 / 2 ^ 5 % 2 = 1) := rfl
  rw [hneg, Nat.div_div_eq_div_mul, ← pow_add]
  rcases Nat.mod_two_eq_zero_or_one (bits.toNat / 2 ^ 15) with h | h <;> rw [h] <;> rfl

theorem exponent_after (k : ℕ) (hk : k ≤ 10) :
    ((0 : UInt32) - UInt32.ofNat k + 1 + 112).toNat = 113 - k := by
  interval_cases k <;> rfl

/-- A mantissa that is not 0 has its leading bit moved up to the place behind the format. -/
theorem normalise_subnormal {m : ℕ} {mant : UInt32} (exp : UInt32) (hm0 : m ≠ 0)
    (hlt : m < 2 ^ 10) (hmant : mant.toNat = m * 2 ^ 13) :
    (normalise 24 mant exp).1.toNat =
        2 ^ 23 + (m - 2 ^ Nat.log2 m) * 2 ^ (23 - Nat.log2 m) ∧
      (m - 2 ^ Nat.log2 m) * 2 ^ (23 - Nat.log2 m) < 2 ^ 23 ∧
        (normalise 24 mant exp).2 = exp - UInt32.ofNat (10 - Nat.log2 m) := by
  have hk : Nat.log2 m < 10 := (Nat.log2_lt hm0).mpr hlt
  have hself : 2 ^ Nat.log2 m ≤ m := Nat.log2_self_le hm0
  have hup : m < 2 ^ (Nat.log2 m + 1) := Nat.lt_log2_self
  generalize Nat.log2 m = l at *
  have hmove : m * 2 ^ 13 * 2 ^ (10 - l) = m * 2 ^ (23 - l) := by
    rw [mul_assoc, ← pow_add]
    congr 2
    omega
  have hleading : 2 ^ l * 2 ^ (23 - l) = 2 ^ 23 := by
    rw [← pow_add]
    congr 1
    omega
  have hrest : (m - 2 ^ l) * 2 ^ (23 - l) = m * 2 ^ (23 - l) - 2 ^ 23 := by
    rw [Nat.sub_mul, hleading]
  have hge : 2 ^ 23 ≤ m * 2 ^ (23 - l) := by
    rw [← hleading]
    exact Nat.mul_le_mul_right _ hself
  have hle : m * 2 ^ (23 - l) < 2 ^ 24 := by
    calc m * 2 ^ (23 - l) < 2 ^ (l + 1) * 2 ^ (23 - l) :=
          Nat.mul_lt_mul_of_pos_right hup (Nat.two_pow_pos _)
      _ = 2 ^ 24 := by
          rw [← pow_add]
          congr 1
          omega
  obtain ⟨hfin, hnorm⟩ := normalise_eq 24 (10 - l) mant exp (by omega)
    (by rw [hmant, hmove]; exact hge) (by rw [hmant, hmove]; exact hle)
  refine ⟨?_, by omega, hnorm⟩
  rw [hfin, hmant, hmove, hrest]
  omega

theorem subnormal_asRead {bits : UInt16} {sign exp mant : UInt32}
    (hsign : sign.toNat = (bits.toNat / 2 ^ 15 % 2) * 2 ^ 31) (hexp : exp = 0)
    (hmant : mant.toNat = f16.mantissa bits.toNat * 2 ^ 13) (h0 : f16.exponent bits.toNat = 0)
    (hm0 : f16.mantissa bits.toNat ≠ 0) :
    val32 (sign ||| (((normalise 24 mant exp).2 + 1 + 112) <<< 23) ||| (normalise 24 mant exp).1) =
      (Num.f16 bits).asRead := by
  have hlt : f16.mantissa bits.toNat < 2 ^ 10 := mantissa_lt f16 bits.toNat
  have hread : (Num.f16 bits).asRead = .finite (Format.signed (f16.negative bits.toNat)
      ((if Nat.log2 (f16.mantissa bits.toNat) % 2 = 1 then 2 else 1) *
        f16.magnitude 0 (f16.mantissa bits.toNat))) := by
    have hdatum : (Num.f16 bits).datum = .finite (Format.signed (f16.negative bits.toNat)
        (f16.magnitude 0 (f16.mantissa bits.toNat))) := by
      rw [Num.datum, val16, Format.decode, h0, if_neg (by decide)]
    have hiff : (Num.f16 bits).Doubled ↔ Nat.log2 (f16.mantissa bits.toNat) % 2 = 1 := by
      simp only [Num.Doubled, h0, hm0, ne_eq, not_false_eq_true, true_and]
    rw [Num.asRead, hdatum]
    simp only [hiff]
    split_ifs
    · cases f16.negative bits.toNat <;> simp [twice, Format.signed]
    · rw [one_mul]
  rw [hread]
  have hk : Nat.log2 (f16.mantissa bits.toNat) < 10 := (Nat.log2_lt hm0).mpr hlt
  have hvalue := magnitude_subnormal wider_f16 hm0 hlt
  obtain ⟨hmantissa, hsmall, hnorm⟩ := normalise_subnormal exp hm0 hlt hmant
  generalize f16.mantissa bits.toNat = m at *
  have hplace : f32.bias + 1 + Nat.log2 m - f16.bias - f16.mant = 103 + Nat.log2 m := by
    change 127 + 1 + Nat.log2 m - 15 - 10 = _
    omega
  have hwidth : f32.mant = 23 := rfl
  rw [hplace, hwidth] at hvalue
  generalize Nat.log2 m = l at *
  have hfield : ((normalise 24 mant exp).2 + 1 + 112).toNat = 103 + l := by
    rw [hnorm, hexp, exponent_after (10 - l) (by omega)]
    omega
  rw [sign_bit] at hsign
  rw [val32_leading hk hsmall hsign hfield hmantissa, or_one_of ⟨l, hk⟩]
  dsimp only
  split_ifs
  · rw [magnitude_succ f32 (by omega), hvalue]
  · rw [hvalue, one_mul]

theorem val32_asRead (h : fpu.Ieee) (bits : UInt16) (hnan : val16 bits ≠ .nan) :
    val32 (vmF16BitsToF32 fpu bits) = (Num.f16 bits).asRead := by
  have hexp := exp_of bits
  have hmant := mant_of bits
  have hsign := sign_of bits
  have hm : f16.mantissa bits.toNat < 2 ^ 10 := mantissa_lt f16 bits.toNat
  have he : f16.exponent bits.toNat < 2 ^ 5 := exponent_lt f16 bits.toNat
  have hand : (bits &&& 0x7fff).toNat = bits.toNat % 2 ^ 15 := by
    rw [UInt16.toNat_and]
    exact Nat.and_two_pow_sub_one_eq_mod bits.toNat 15
  have hfields : bits.toNat % 2 ^ 15 = f16.exponent bits.toNat * 2 ^ 10 + f16.mantissa bits.toNat := by
    change _ = bits.toNat / 2 ^ 10 % 2 ^ 5 * 2 ^ 10 + bits.toNat % 2 ^ 10
    omega
  have hplain (hno : ¬(Num.f16 bits).Doubled) : (Num.f16 bits).asRead = val16 bits := by
    rw [Num.asRead, if_neg hno]
    rfl
  rw [vmF16BitsToF32]
  by_cases hzero : bits &&& 0x7fff = 0
  · rw [if_pos hzero, val32_signedZero]
    rw [← UInt16.toNat_inj, hand, hfields] at hzero
    have hzero' : f16.exponent bits.toNat * 2 ^ 10 + f16.mantissa bits.toNat = 0 := hzero
    have h0 : f16.exponent bits.toNat = 0 := by omega
    have hm0 : f16.mantissa bits.toNat = 0 := by omega
    rw [hplain fun hd ↦ hd.2.1 hm0, val16, Format.decode, h0, if_neg (by decide), hm0]
    cases f16.negative bits.toNat <;> simp [Format.magnitude, Format.signed]
  rw [if_neg hzero]
  have hzero' : ¬f16.exponent bits.toNat * 2 ^ 10 + f16.mantissa bits.toNat = 0 := by
    rw [← hfields, ← hand]
    exact fun heq ↦ hzero (UInt16.toNat_inj.mp heq)
  dsimp only
  generalize (bits.toUInt32 &&& 0x8000) <<< 16 = sign at *
  generalize (bits.toUInt32 >>> 10) &&& 0x1f = exp at *
  generalize (bits.toUInt32 &&& 0x3ff) <<< 13 = mant at *
  by_cases h0 : exp = 0
  · have he0 : f16.exponent bits.toNat = 0 := by
      rw [← hexp, h0]
      rfl
    rw [if_pos h0]
    exact subnormal_asRead hsign h0 hmant he0 (by omega)
  rw [if_neg h0]
  have hne0 : f16.exponent bits.toNat ≠ 0 := by
    rw [← hexp]
    exact fun h' ↦ h0 (UInt32.toNat_inj.mp h')
  rw [hplain fun hd ↦ hne0 hd.1]
  by_cases h31 : exp = 31
  · have he31 : f16.exponent bits.toNat = 31 := by
      rw [← hexp, h31]
      rfl
    have hval : val16 bits = if f16.mantissa bits.toNat = 0 then
        .inf (f16.negative bits.toNat) else .nan := by
      rw [val16, Format.decode, if_pos (by rw [he31]; decide)]
    have hm0 : f16.mantissa bits.toNat = 0 := by
      by_contra hne
      rw [hval, if_neg hne] at hnan
      exact hnan rfl
    have hmant0 : ¬mant ≠ 0 := by
      rw [not_not, ← UInt32.toNat_inj, hmant, hm0]
      rfl
    rw [if_pos h31, if_neg hmant0, hval, if_pos hm0]
    rw [sign_bit] at hsign
    cases hneg : f16.negative bits.toNat with
    | true =>
      have hs : sign ≠ 0 := by
        rintro rfl
        rw [hneg] at hsign
        exact absurd hsign (by decide)
      rw [if_pos hs, h.mul32_negOne, h.div32_one]
      rfl
    | false =>
      have hs : ¬sign ≠ 0 := by
        rw [not_not, ← UInt32.toNat_inj, hsign, hneg]
        rfl
      rw [if_neg hs, h.mul32_one, h.div32_one]
  rw [if_neg h31]
  have hne31 : f16.exponent bits.toNat ≠ 31 := by
    rw [← hexp]
    exact fun h' ↦ h31 (UInt32.toNat_inj.mp h')
  have hfield : (exp + 112).toNat = f16.exponent bits.toNat + 112 := by
    rw [UInt32.toNat_add, hexp]
    have h112 : (112 : UInt32).toNat = 112 := rfl
    omega
  exact val32_normal hsign hfield hmant hne0 hne31

end HalfPrecision

/-- An integer is converted to an integer of the same range; which one it is, where the integer
has too many digits, is left to the rounding mode. -/
def Fpu.RoundsI64 (fpu : Fpu) : Prop :=
  ∀ x, ∃ n : ℤ, val64 (fpu.f64FromI64 x) = .finite n ∧ -2 ^ 63 ≤ n ∧ n ≤ 2 ^ 63

/-- What the machine makes of the cast of `2 ^ 63`, which is not defined. -/
def Fpu.castTop (fpu : Fpu) : ℤ := (fpu.i64FromF64 0x43e0000000000000).toBitVec.toInt

section Integers

variable {fpu : Fpu} {f i : UInt64}

def intEqualsF64 (fpu : Fpu) (i f : UInt64) : Bool :=
  match f64IsExactI64 fpu f with
  | some j => i == j
  | none => fpu.eq64 (fpu.f64FromI64 i) f

theorem bits_of_twoPow63 (hf : val64 f = .finite (2 ^ 63)) : f = 0x43e0000000000000 := by
  obtain ⟨hneg, hexp, hmant⟩ := fields_of_two_pow f64 (by decide) hf
  have hlt := f.toNat_lt
  have hneg' : ¬f.toNat / 2 ^ 52 / 2 ^ 11 % 2 = 1 := of_decide_eq_false hneg
  have hexp' : f.toNat / 2 ^ 52 % 2 ^ 11 = 1086 := hexp
  have hmant' : f.toNat % 2 ^ 52 = 0 := hmant
  have hval : (0x43e0000000000000 : UInt64).toNat = 1086 * 2 ^ 52 := rfl
  rw [← UInt64.toNat_inj, hval]
  omega

theorem cTrunc_twoPow63 : cTrunc 0x43e0000000000000 = 0x43e0000000000000 := by decide +kernel

/-- An integer in range, and `2 ^ 63`, is found to be one. -/
theorem f64IsExactI64_ne_none (h : fpu.Ieee) {n : ℤ} (hf : val64 f = .finite n)
    (hlo : -2 ^ 63 ≤ n) (hhi : n ≤ 2 ^ 63) : f64IsExactI64 fpu f ≠ none := by
  have ht := val64_cTrunc hf
  rw [trunc_intCast] at ht
  have hfin : fpu.isfinite f = true := by rw [h.isfinite, hf]; rfl
  have heq : fpu.eq64 f (cTrunc f) = true := by
    rw [h.eq64, hf, ht]
    exact decide_eq_true rfl
  obtain ⟨-, hup, hdown⟩ := (passes_iff h val64_twoPow63 val64_minI64 (cTrunc f)).mpr
    ⟨n, ht, by exact_mod_cast hlo, by exact_mod_cast hhi⟩
  simp [f64IsExactI64, hfin, heq, hup, hdown]

theorem toInt_bounds (i : UInt64) : -2 ^ 63 ≤ i.toBitVec.toInt ∧ i.toBitVec.toInt < 2 ^ 63 :=
  ⟨BitVec.le_toInt i.toBitVec, BitVec.toInt_lt⟩

theorem toInt_inj {i j : UInt64} : i.toBitVec.toInt = j.toBitVec.toInt ↔ i = j := by
  rw [BitVec.toInt_inj, UInt64.toBitVec_inj]

/-- An integer equals the double that is the same number, and `2 ^ 63` is taken for what its cast
gives. -/
theorem intEqualsF64_iff (h : fpu.Ieee) (hround : fpu.RoundsI64) :
    intEqualsF64 fpu i f = true ↔ val64 f = .finite i.toBitVec.toInt ∨
      (val64 f = .finite (2 ^ 63) ∧ i.toBitVec.toInt = fpu.castTop) := by
  obtain ⟨hlo, hhi⟩ := toInt_bounds i
  rw [intEqualsF64]
  obtain ⟨hsome, hp, ht⟩ | ⟨hnone, h63⟩ := f64IsExactI64_cases h f
  · rw [hsome]
    dsimp only
    rw [beq_iff_eq, ← toInt_inj]
    by_cases h63 : val64 f = .finite (2 ^ 63)
    · obtain rfl := bits_of_twoPow63 h63
      have hne : (2 : ℚ) ^ 63 ≠ (i.toBitVec.toInt : ℚ) := by
        intro heq
        have : (2 : ℤ) ^ 63 = i.toBitVec.toInt := by exact_mod_cast heq
        omega
      rw [cTrunc_twoPow63, h63, Datum.finite.injEq]
      simp [hne, Fpu.castTop]
    · obtain ⟨r, hr, -, -⟩ := (passes_iff h val64_twoPow63 val64_minI64 (cTrunc f)).mp hp
      have hfr : val64 f = .finite r := ht.symm.trans hr
      have hint : r = trunc r := by
        have h' := hr.symm.trans (val64_cTrunc hfr)
        exact Datum.finite.inj h'
      have hfit : FitsInt 64 (val64 (cTrunc f)) :=
        (fits_iff_of_passesI64 h hp).mpr (by rw [ht]; exact h63)
      have hcast := h.i64FromF64 hr hfit
      rw [hcast, hfr, Datum.finite.injEq]
      constructor
      · intro heq
        left
        rw [hint, heq]
      · rintro (heq | ⟨heq, -⟩)
        · rw [heq, trunc_intCast]
        · exact absurd (by rw [hfr, heq]) h63
  · rw [hnone]
    dsimp only
    obtain ⟨n, hn, hnlo, hnhi⟩ := hround i
    rw [h.eq64, hn]
    constructor
    · intro heq
      cases hf : val64 f with
      | nan => simp [hf, Datum.eq] at heq
      | inf neg => simp [hf, Datum.eq] at heq
      | finite q =>
        have hq : (n : ℚ) = q := by simpa [hf, Datum.eq] using heq
        exact absurd hnone (f64IsExactI64_ne_none h (by rw [hf, hq]) hnlo hnhi)
    · rintro (hf | ⟨hf, -⟩)
      · exact absurd hnone (f64IsExactI64_ne_none h hf hlo hhi.le)
      · exact absurd hf h63

end Integers

namespace Num

/-- One of the two is read as something else, the other is not, and they are the same number. -/
def Missed (x y : Num) : Prop := x.datum = y.datum ∧ (x.Doubled ↔ ¬y.Doubled)

/-- One of the two is read as the other: as twice what it is, or `2 ^ 63` as an integer. -/
def Confused (top : ℤ) (x y : Num) : Prop :=
  (x.Doubled ∧ ¬y.Doubled ∧ y.datum = twice x.datum) ∨
    (y.Doubled ∧ ¬x.Doubled ∧ x.datum = twice y.datum) ∨
      (x.whole = some top ∧ y.whole = none ∧ y.datum = .finite (2 ^ 63)) ∨
        (y.whole = some top ∧ x.whole = none ∧ x.datum = .finite (2 ^ 63))

/-- What the comparison of two numbers makes of them. -/
def ReadEqual (top : ℤ) (x y : Num) : Prop :=
  match x.whole, y.whole with
  | some i, some j => i = j
  | some i, none => y.asRead = .finite i ∨ (y.asRead = .finite (2 ^ 63) ∧ i = top)
  | none, some j => x.asRead = .finite j ∨ (x.asRead = .finite (2 ^ 63) ∧ j = top)
  | none, none => x.asRead = y.asRead

section Readings

variable {top i : ℤ} {x y : Num}

theorem datum_of_whole (h : x.whole = some i) : x.datum = .finite i := by
  cases x with
  | word w => exact congrArg (fun n : ℤ ↦ Datum.finite n) (Option.some.inj h)
  | i64 w => exact congrArg (fun n : ℤ ↦ Datum.finite n) (Option.some.inj h)
  | _ => exact absurd h (Option.some_ne_none i).symm

theorem whole_lt (h : x.whole = some i) : i < 2 ^ 63 := by
  cases x with
  | word w =>
    obtain rfl := Option.some.inj h
    have hlt : w.toBitVec.toInt < 2 ^ 31 := BitVec.toInt_lt
    omega
  | i64 w =>
    obtain rfl := Option.some.inj h
    exact BitVec.toInt_lt
  | _ => exact absurd h (Option.some_ne_none i).symm

theorem not_doubled_of_whole (h : x.whole = some i) : ¬x.Doubled := by
  cases x with
  | f16 w => exact absurd h (Option.some_ne_none i).symm
  | _ => exact id

theorem asRead_of_doubled (h : x.Doubled) : x.asRead = twice x.datum := if_pos h

theorem asRead_of_not_doubled (h : ¬x.Doubled) : x.asRead = x.datum := if_neg h

theorem datum_of_doubled (h : x.Doubled) : ∃ q, x.datum = .finite q ∧ q ≠ 0 ∧ -1 < q ∧ q < 1 := by
  cases x with
  | f16 w =>
    obtain ⟨h0, hm0, -⟩ := h
    have hlt := magnitude_lt_one Ieee.f16 (mantissa_lt Ieee.f16 w.toNat)
      (e := 0) (by decide)
    have hpos : 0 < Ieee.f16.magnitude 0 (Ieee.f16.mantissa w.toNat) := by
      rw [Format.magnitude, if_pos rfl]
      exact mul_pos (by exact_mod_cast Nat.pos_of_ne_zero hm0) (two_zpow_pos _)
    refine ⟨Format.signed (Ieee.f16.negative w.toNat)
      (Ieee.f16.magnitude 0 (Ieee.f16.mantissa w.toNat)), ?_, ?_⟩
    · rw [datum, val16, Format.decode, h0, if_neg (by decide)]
    · rw [Format.signed]
      split_ifs
      · exact ⟨by linarith, by linarith, by linarith⟩
      · exact ⟨by linarith, by linarith, hlt⟩
  | _ => exact absurd h id

theorem datum_ne_of_doubled (h : x.Doubled) : twice x.datum ≠ x.datum ∧
    x.datum ≠ .finite (2 ^ 63) ∧ twice x.datum ≠ .finite (2 ^ 63) := by
  obtain ⟨q, hq, h0, -, hlt⟩ := datum_of_doubled h
  rw [hq]
  refine ⟨fun heq ↦ h0 ?_, fun heq ↦ ?_, fun heq ↦ ?_⟩
  · have h' : 2 * q = q := Datum.finite.inj heq
    linarith
  · have h' : q = 2 ^ 63 := Datum.finite.inj heq
    linarith
  · have h' : 2 * q = 2 ^ 63 := Datum.finite.inj heq
    linarith

theorem Missed.symm (h : Missed x y) : Missed y x :=
  ⟨h.1.symm, by rw [h.2, not_not]⟩

theorem Confused.symm (h : Confused top x y) : Confused top y x := by
  rcases h with h | h | h | h
  · exact .inr (.inl h)
  · exact .inl h
  · exact .inr (.inr (.inr h))
  · exact .inr (.inr (.inl h))

theorem ReadEqual.symm (h : ReadEqual top x y) : ReadEqual top y x := by
  unfold ReadEqual at h ⊢
  cases hx : x.whole <;> cases hy : y.whole <;> simp only [hx, hy] at h ⊢ <;>
    first | exact h | exact h.symm

theorem Missed.datum_eq (h : Missed x y) : x.datum = y.datum := h.1

theorem Confused.datum_ne (h : Confused top x y) : x.datum ≠ y.datum := by
  rcases h with ⟨hx, -, hval⟩ | ⟨hy, -, hval⟩ | ⟨hx, -, hval⟩ | ⟨hy, -, hval⟩
  · rw [hval]
    exact (datum_ne_of_doubled hx).1.symm
  · rw [hval]
    exact (datum_ne_of_doubled hy).1
  · have hlt := whole_lt hx
    rw [datum_of_whole hx, hval]
    intro heq
    have h' : (top : ℚ) = 2 ^ 63 := Datum.finite.inj heq
    have : top = 2 ^ 63 := by exact_mod_cast h'
    omega
  · have hlt := whole_lt hy
    rw [datum_of_whole hy, hval]
    intro heq
    have h' : 2 ^ 63 = (top : ℚ) := Datum.finite.inj heq
    have : 2 ^ 63 = top := by exact_mod_cast h'
    omega

theorem readEqual_whole (hx : x.whole = some i) (hy : y.whole = none) :
    ReadEqual top x y ↔ (x.datum = y.datum ∧ ¬Missed x y) ∨ Confused top x y := by
  have hxd := not_doubled_of_whole hx
  have hread : ReadEqual top x y ↔
      y.asRead = .finite i ∨ (y.asRead = .finite (2 ^ 63) ∧ i = top) := by
    rw [ReadEqual, hx, hy]
  rw [hread, Missed, Confused, datum_of_whole hx, hx, hy]
  by_cases hd : y.Doubled
  · obtain ⟨-, hne, hne'⟩ := datum_ne_of_doubled hd
    simp [asRead_of_doubled hd, hxd, hd, hne, hne', eq_comm]
  · simp only [asRead_of_not_doubled hd, hxd, hd, false_and, and_false, not_false_eq_true,
      iff_true, or_false, false_or, Option.some.injEq, true_and, and_comm, eq_comm, reduceCtorEq]

/-- The comparison takes the same numbers for equal, but for those that it misses, and some that it
confuses. -/
theorem readEqual_iff :
    ReadEqual top x y ↔ (x.datum = y.datum ∧ ¬Missed x y) ∨ Confused top x y := by
  cases hx : x.whole with
  | some i =>
    cases hy : y.whole with
    | some j =>
      have hxd := not_doubled_of_whole hx
      have hyd := not_doubled_of_whole hy
      rw [ReadEqual, hx, hy, Missed, Confused, datum_of_whole hx, datum_of_whole hy, hx, hy]
      simp [hxd, hyd]
    | none => exact readEqual_whole hx hy
  | none =>
    cases hy : y.whole with
    | some j =>
      have h : ReadEqual top y x ↔ _ := readEqual_whole hy hx
      have hmissed : Missed y x ↔ Missed x y := ⟨Missed.symm, Missed.symm⟩
      have hconfused : Confused top y x ↔ Confused top x y := ⟨Confused.symm, Confused.symm⟩
      rw [hmissed, hconfused, eq_comm] at h
      exact ⟨fun hr ↦ h.mp hr.symm, fun hr ↦ (h.mpr hr).symm⟩
    | none =>
      rw [ReadEqual, hx, hy, Missed, Confused, hx, hy]
      by_cases hxd : x.Doubled <;> by_cases hyd : y.Doubled
      · simp [asRead_of_doubled hxd, asRead_of_doubled hyd, hxd, hyd, twice_injective.eq_iff]
      · simp [asRead_of_doubled hxd, asRead_of_not_doubled hyd, hxd, hyd, eq_comm]
      · simp [asRead_of_not_doubled hxd, asRead_of_doubled hyd, hxd, hyd]
      · simp [asRead_of_not_doubled hxd, asRead_of_not_doubled hyd, hxd, hyd]

end Readings

end Num

end JelloVM
