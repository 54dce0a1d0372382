import JelloVM.Library.Ieee
import JelloVM.SlotStore

/-! The casts from floating point numbers to integers, and where they are evaluated. -/

namespace JelloVM

open ByteMemory Logged Ieee

section Numbers

def val64 (x : UInt64) : Datum := f64.decode x.toNat

def val32 (x : UInt32) : Datum := f32.decode x.toNat

def val16 (x : UInt16) : Datum := f16.decode x.toNat

/-- The number can be cast to a signed integer of `w` bits. -/
def FitsInt (w : ℕ) (d : Datum) : Prop :=
  ∃ q, d = .finite q ∧ -2 ^ (w - 1) ≤ trunc q ∧ trunc q < 2 ^ (w - 1)

/-- The unit does what IEEE 754 and the language say; of a cast they say nothing outside of the
range of the integer type. -/
structure Fpu.Ieee (fpu : Fpu) : Prop where
  isfinite (x : UInt64) : fpu.isfinite x = (val64 x).isFinite
  lt64 (a b : UInt64) : fpu.lt64 a b = (val64 a).lt (val64 b)
  eq64 (a b : UInt64) : fpu.eq64 a b = (val64 a).eq (val64 b)
  f64FromF32 (x : UInt32) : val64 (fpu.f64FromF32 x) = val32 x
  mul32_one (x : UInt32) : val32 (fpu.mul32 0x3f800000 x) = val32 x
  mul32_negOne (x : UInt32) : val32 (fpu.mul32 0xbf800000 x) = (val32 x).neg
  div32_one : val32 (fpu.div32 0x3f800000 0) = .inf false
  div32_zero : val32 (fpu.div32 0 0) = .nan
  i32FromF64 {x : UInt64} {q : ℚ} (hx : val64 x = .finite q) (hfit : FitsInt 32 (val64 x)) :
    (fpu.i32FromF64 x).toBitVec.toInt = trunc q
  i64FromF64 {x : UInt64} {q : ℚ} (hx : val64 x = .finite q) (hfit : FitsInt 64 (val64 x)) :
    (fpu.i64FromF64 x).toBitVec.toInt = trunc q

def Fpu.withCasts (fpu : Fpu) (f : UInt64 → UInt32) (g : UInt64 → UInt64) : Fpu :=
  { fpu with i32FromF64 := f, i64FromF64 := g }

/-- Two units that differ only in what they make of the casts that are not defined. -/
structure AgreeInRange (fpu fpu' : Fpu) : Prop where
  same : fpu' = fpu.withCasts fpu'.i32FromF64 fpu'.i64FromF64
  i32 {x : UInt64} (hfit : FitsInt 32 (val64 x)) : fpu'.i32FromF64 x = fpu.i32FromF64 x
  i64 {x : UInt64} (hfit : FitsInt 64 (val64 x)) : fpu'.i64FromF64 x = fpu.i64FromF64 x

/-- No cast out of range is evaluated: what such a cast would give makes no difference. -/
def CastsInRange {α : Type} (site : Fpu → α) (fpu : Fpu) : Prop :=
  ∀ fpu', AgreeInRange fpu fpu' → site fpu' = site fpu

/-- `trunc` of the C library -/
def cTrunc (x : UInt64) : UInt64 := UInt64.ofNat (f64.truncBits x.toNat)

def f64IsExactI64 (fpu : Fpu) (f : UInt64) : Option UInt64 :=
  if !fpu.isfinite f then none
  else
    let t := cTrunc f
    if !fpu.eq64 f t then none
    else if fpu.lt64 0x43e0000000000000 t || fpu.lt64 t 0xc3e0000000000000 then none
    else some (fpu.i64FromF64 t)

end Numbers

section Bounds

theorem val64_maxI32 : val64 0x41dfffffffc00000 = .finite 2147483647 := by decide +kernel

theorem val64_minI32 : val64 0xc1e0000000000000 = .finite (-2147483648) := by decide +kernel

theorem val64_twoPow63 : val64 0x43e0000000000000 = .finite (2 ^ 63) := by decide +kernel

theorem val64_minI64 : val64 0xc3e0000000000000 = .finite (-2 ^ 63) := by decide +kernel

variable {fpu : Fpu}

def Passes (fpu : Fpu) (hi lo x : UInt64) : Prop :=
  fpu.isfinite x = true ∧ fpu.lt64 hi x = false ∧ fpu.lt64 x lo = false

instance (fpu : Fpu) (hi lo x : UInt64) : Decidable (Passes fpu hi lo x) :=
  inferInstanceAs (Decidable (_ ∧ _))

theorem passes_iff (h : fpu.Ieee) {hi lo : UInt64} {p q : ℚ} (hhi : val64 hi = .finite p)
    (hlo : val64 lo = .finite q) (x : UInt64) :
    Passes fpu hi lo x ↔ ∃ r, val64 x = .finite r ∧ q ≤ r ∧ r ≤ p := by
  rw [Passes, h.isfinite, h.lt64, h.lt64, hhi, hlo]
  cases hx : val64 x with
  | nan => simp [Datum.isFinite]
  | inf neg => simp [Datum.isFinite]
  | finite r =>
    simp only [Datum.isFinite, Datum.lt, decide_eq_false_iff_not, not_lt, true_and,
      Datum.finite.injEq, exists_eq_left']
    exact and_comm

/-- What passes the check of `I32` fits, and the check is exact but for fractions. -/
theorem fits_of_passesI32 (h : fpu.Ieee) {x : UInt64}
    (hp : Passes fpu 0x41dfffffffc00000 0xc1e0000000000000 x) : FitsInt 32 (val64 x) := by
  obtain ⟨r, hr, hlo, hhi⟩ := (passes_iff h val64_maxI32 val64_minI32 x).mp hp
  have hup : trunc r ≤ 2147483647 := trunc_le (by exact_mod_cast hhi)
  have hdown : -2147483648 ≤ trunc r := le_trunc (by exact_mod_cast hlo)
  exact ⟨r, hr, by omega, by omega⟩

/-- The check of `I64` lets one number through that does not fit. -/
theorem fits_iff_of_passesI64 (h : fpu.Ieee) {x : UInt64}
    (hp : Passes fpu 0x43e0000000000000 0xc3e0000000000000 x) :
    FitsInt 64 (val64 x) ↔ val64 x ≠ .finite (2 ^ 63) := by
  obtain ⟨r, hr, hlo, hhi⟩ := (passes_iff h val64_twoPow63 val64_minI64 x).mp hp
  have hdown : -2 ^ 63 ≤ trunc r := le_trunc (by push_cast; exact hlo)
  constructor
  · rintro ⟨q, hq, -, hlt⟩ h63
    rw [h63, Datum.finite.injEq] at hq
    subst hq
    have hval : (2 ^ 63 : ℤ) ≤ trunc (2 ^ 63) := le_trunc (by push_cast; exact le_rfl)
    omega
  · intro hne
    have hlt : r < 2 ^ 63 := lt_of_le_of_ne hhi fun heq ↦ hne (by rw [hr, heq])
    have hup : trunc r < 2 ^ 63 := trunc_lt (by norm_num) (by push_cast; exact hlt)
    exact ⟨r, hr, hdown, hup⟩

theorem passesI64_of_eq (h : fpu.Ieee) {x : UInt64} (hx : val64 x = .finite (2 ^ 63)) :
    Passes fpu 0x43e0000000000000 0xc3e0000000000000 x :=
  (passes_iff h val64_twoPow63 val64_minI64 x).mpr ⟨2 ^ 63, hx, by norm_num, le_rfl⟩

end Bounds

section Sites

/-- The instructions that check before they cast. -/
inductive Conversion
  | i32FromF64
  | i32FromF32
  | i32FromF16
  | i64FromF64
  | i64FromF32

namespace Conversion

def op : Conversion → Ctx → JelloInsn → StoreM Unit
  | .i32FromF64 => opI32FromF64
  | .i32FromF32 => opI32FromF32
  | .i32FromF16 => opI32FromF16
  | .i64FromF64 => opI64FromF64
  | .i64FromF32 => opI64FromF32

/-- The target is an `I64` register. -/
def wide : Conversion → Bool
  | .i64FromF64 | .i64FromF32 => true
  | _ => false

def source (c : Conversion) (ctx : Ctx) (ins : JelloInsn) (s : Store) : Datum :=
  match c with
  | .i32FromF64 | .i64FromF64 => val64 (load64 s.mem (ctx.rf.addr ins.rb))
  | .i32FromF32 | .i64FromF32 => val32 (load32 s.mem (ctx.rf.addr ins.rb))
  | .i32FromF16 => val16 (load32 s.mem (ctx.rf.addr ins.rb)).toUInt16

def target (c : Conversion) (ctx : Ctx) (ins : JelloInsn) (s : Store) : ℤ :=
  if c.wide then (load64 s.mem (ctx.rf.addr ins.ra)).toBitVec.toInt
  else (load32 s.mem (ctx.rf.addr ins.ra)).toBitVec.toInt

def input (c : Conversion) (ctx : Ctx) (ins : JelloInsn) (s : Store) : UInt64 :=
  match c with
  | .i32FromF64 | .i64FromF64 => load64 s.mem (ctx.rf.addr ins.rb)
  | .i32FromF32 | .i64FromF32 => ctx.fpu.f64FromF32 (load32 s.mem (ctx.rf.addr ins.rb))
  | .i32FromF16 =>
    ctx.fpu.f64FromF32 (vmF16BitsToF32 ctx.fpu (load32 s.mem (ctx.rf.addr ins.rb)).toUInt16)

/-- Of two casts one is evaluated. -/
def stored (c : Conversion) (fpu : Fpu) (x : UInt64) (mem : Mem) (a : ℕ) : Mem :=
  if c.wide then store64 mem a (fpu.i64FromF64 x) else store32 mem a (fpu.i32FromF64 x)

def Checks (c : Conversion) (fpu : Fpu) (x : UInt64) : Prop :=
  if c.wide then Passes fpu 0x43e0000000000000 0xc3e0000000000000 x
  else Passes fpu 0x41dfffffffc00000 0xc1e0000000000000 x

instance (c : Conversion) (fpu : Fpu) (x : UInt64) : Decidable (c.Checks fpu x) := by
  unfold Checks
  infer_instance

def message (c : Conversion) : String :=
  if c.wide then "f64->i64 conversion overflow" else "f64->i32 conversion overflow"

/-- The instruction casts in range, and where it does not trap, the target holds the truncated
number. -/
def Sound (c : Conversion) (ctx : Ctx) (ins : JelloInsn) (s : Store) : Prop :=
  CastsInRange (fun fpu ↦ result (c.op { ctx with fpu := fpu } ins) s) ctx.fpu ∧
    ∀ s', result (c.op ctx ins) s = .ok ((), s') → s'.excPending = false →
      ∃ q, c.source ctx ins s = .finite q ∧ c.target ctx ins s' = trunc q

end Conversion

/-- The places where a floating point number is cast to an integer: the conversions, unboxing into
a register, and the test for an integer in the comparison of numbers. -/
inductive CastSite
  | insn (c : Conversion) (ins : JelloInsn)
  | unbox (dst : ℕ) (v : JelloValue)
  | exact (x : UInt64)

/-- The width of the integers that a register of the kind takes from a boxed double. -/
def Kind.castWidth : Kind → Option ℕ
  | .i8 | .i16 | .i32 => some 32
  | .i64 => some 64
  | _ => none

def CastSite.Sound (ctx : Ctx) (s : Store) : CastSite → Prop
  | .insn c ins => c.Sound ctx ins s
  | .unbox dst v =>
    CastsInRange (fun fpu ↦ result (vmStoreFromBoxed ctx.m fpu ctx.f ctx.rf dst v) s) ctx.fpu
  | .exact x => CastsInRange (fun fpu ↦ f64IsExactI64 fpu x) ctx.fpu

/-- What the checks leave to the caller. -/
def CastSite.Fits (ctx : Ctx) (s : Store) : CastSite → Prop
  | .insn c ins => c.wide = true → c.source ctx ins s ≠ .finite (2 ^ 63)
  | .unbox dst v => ∀ x w, s.heap.numAt v = some (.f64 x) →
    (regKind ctx.m ctx.f dst).castWidth = some w → FitsInt w (val64 x)
  | .exact x => val64 x ≠ .finite (2 ^ 63)

end Sites

section Checked

variable {ctx : Ctx} {ins : JelloInsn} {s : Store}

def castTrap (msg : String) (s : Store) : Store :=
  { s with
    trapCode := .typeMismatch
    trapMsg := some (text msg)
    excPending := true
    excPayload := jelloMakeI32 TrapCode.typeMismatch.code }

theorem result_vmCheckedF64 {α : Type} (fpu : Fpu) (msg : String) (hi lo : UInt64)
    (cast : UInt64 → α) (x : UInt64) (s : Store) :
    result (vmCheckedF64 fpu msg hi lo cast x) s =
      if Passes fpu hi lo x then .ok (some (cast x), s) else .ok (none, castTrap msg s) := by
  by_cases hp : Passes fpu hi lo x
  · obtain ⟨h1, h2, h3⟩ := id hp
    rw [if_pos hp]
    simp [vmCheckedF64, h1, h2, h3]
  · have hover : (fpu.isfinite x = false) ∨ (fpu.lt64 hi x || fpu.lt64 x lo) = true := by
      rw [Passes] at hp
      cases h1 : fpu.isfinite x <;> cases h2 : fpu.lt64 hi x <;> cases h3 : fpu.lt64 x lo <;>
        simp_all
    rw [if_neg hp, vmCheckedF64]
    rcases hover with h | h
    · rw [h]
      rfl
    · rw [h]
      cases fpu.isfinite x <;> rfl

theorem result_conversion (c : Conversion) (ctx : Ctx) (ins : JelloInsn) (s : Store) :
    result (c.op ctx ins) s =
      if c.Checks ctx.fpu (c.input ctx ins s) then .ok ((), { s with
        mem := c.stored ctx.fpu (c.input ctx ins s) s.mem (ctx.rf.addr ins.ra) })
      else .ok ((), castTrap c.message s) := by
  have hload64 : result (vmLoadF64 ctx.rf ins.rb) s =
      .ok (load64 s.mem (ctx.rf.addr ins.rb), s) := result_vmLoad64
  have hload32 : result (vmLoadU32 ctx.rf ins.rb) s =
      .ok (load32 s.mem (ctx.rf.addr ins.rb), s) := result_vmLoadU32
  have hloadF32 : result (vmLoadF32 ctx.rf ins.rb) s =
      .ok (load32 s.mem (ctx.rf.addr ins.rb), s) := result_vmLoadU32
  by_cases h : c.Checks ctx.fpu (c.input ctx ins s)
  · rw [if_pos h]
    cases c <;> simp only [Conversion.Checks, Conversion.wide, Conversion.input,
      Bool.false_eq_true, if_true, if_false] at h <;>
      simp only [Conversion.op, opI32FromF64, opI64FromF64, opI32FromF32, opI32FromF16,
        opI64FromF32, checkedI32From32, vmCheckedF64ToI32, vmCheckedF64ToI64, result_bind,
        hload64, hload32, hloadF32, result_vmCheckedF64, Except.bind, if_pos h] <;>
      rfl
  · rw [if_neg h]
    cases c <;> simp only [Conversion.Checks, Conversion.wide, Conversion.input,
      Bool.false_eq_true, if_true, if_false] at h <;>
      simp only [Conversion.op, opI32FromF64, opI64FromF64, opI32FromF32, opI32FromF16,
        opI64FromF32, checkedI32From32, vmCheckedF64ToI32, vmCheckedF64ToI64, result_bind,
        hload64, hload32, hloadF32, result_vmCheckedF64, Except.bind, if_neg h] <;>
      rfl

end Checked

section HalfPrecision

variable {fpu : Fpu}

theorem normalise_spec (n : ℕ) (mant exp : UInt32) (hm : mant.toNat < 2 ^ 24) :
    (normalise n mant exp).1.toNat < 2 ^ 24 ∧
      ∃ k ≤ n, (normalise n mant exp).2 = exp - UInt32.ofNat k := by
  induction n generalizing mant exp with
  | zero => exact ⟨hm, 0, le_rfl, by simp [normalise]⟩
  | succ n ih =>
    rw [normalise]
    split_ifs with hbit
    · have hlow : mant.toNat < 2 ^ 23 := by
        have hand : mant.toNat &&& 2 ^ 23 = 0 := by
          rw [← UInt32.toNat_inj, UInt32.toNat_and] at hbit
          exact hbit
        have htest : (mant.toNat.testBit 23).toNat * 2 ^ 23 = 0 := by rw [← Nat.and_two_pow, hand]
        by_contra hge
        have hone : mant.toNat.testBit 23 = true := by
          rw [Nat.testBit_eq_decide_div_mod_eq, decide_eq_true_eq]
          omega
        rw [hone] at htest
        exact absurd htest (by decide)
      have hshift : (mant <<< 1).toNat < 2 ^ 24 := by
        rw [UInt32.toNat_shiftLeft, Nat.shiftLeft_eq]
        have h1 : (1 : UInt32).toNat % 32 = 1 := rfl
        rw [h1]
        omega
      obtain ⟨hfin, k, hk, hexp⟩ := ih (mant <<< 1) (exp - 1) hshift
      refine ⟨hfin, k + 1, by omega, ?_⟩
      rw [hexp, UInt32.ofNat_add, sub_sub, add_comm]
      rfl
    · exact ⟨hm, 0, by omega, by simp⟩

theorem or_field : ∀ (a : Fin 2) (e : Fin 114) (c : Fin 2),
    ((a.val * 256 ||| e.val) ||| c.val) % 256 < 127 := by decide +kernel

theorem val32_subnormal {sign exp mant : UInt32} {neg : ℕ} (hneg : neg < 2)
    (hsign : sign.toNat = neg * 2 ^ 31) (hexp : exp.toNat ≤ 113) (hmant : mant.toNat < 2 ^ 24) :
    ∃ q, val32 (sign ||| (exp <<< 23) ||| mant) = .finite q ∧ trunc q = 0 := by
  refine decode_small f32 ?_ (by decide)
  have hshift : (exp <<< 23).toNat = exp.toNat * 2 ^ 23 := by
    rw [UInt32.toNat_shiftLeft, Nat.shiftLeft_eq]
    have h23 : (23 : UInt32).toNat % 32 = 23 := rfl
    rw [h23]
    omega
  have hneg' : neg * 2 ^ 31 / 2 ^ 23 = neg * 256 := by omega
  have hexp' : exp.toNat * 2 ^ 23 / 2 ^ 23 = exp.toNat :=
    Nat.mul_div_cancel _ (Nat.two_pow_pos 23)
  have hfield : (sign ||| (exp <<< 23) ||| mant).toNat / 2 ^ 23 =
      (neg * 256 ||| exp.toNat) ||| mant.toNat / 2 ^ 23 := by
    rw [UInt32.toNat_or, UInt32.toNat_or, hsign, hshift, ← Nat.shiftRight_eq_div_pow,
      Nat.shiftRight_or_distrib, Nat.shiftRight_or_distrib, Nat.shiftRight_eq_div_pow,
      Nat.shiftRight_eq_div_pow, Nat.shiftRight_eq_div_pow, hneg', hexp']
  have hgoal : f32.exponent (sign ||| (exp <<< 23) ||| mant).toNat =
      ((neg * 256 ||| exp.toNat) ||| mant.toNat / 2 ^ 23) % 256 := by rw [← hfield]; rfl
  rw [hgoal]
  exact or_field ⟨neg, hneg⟩ ⟨exp.toNat, by omega⟩ ⟨mant.toNat / 2 ^ 23, by omega⟩

theorem sign_of (bits : UInt16) : ((bits.toUInt32 &&& 0x8000) <<< 16).toNat =
    (bits.toNat / 2 ^ 15 % 2) * 2 ^ 31 := by
  have hlt := bits.toNat_lt
  have hand : (bits.toUInt32 &&& 0x8000).toNat = (bits.toNat / 2 ^ 15 % 2) * 2 ^ 15 := by
    rw [UInt32.toNat_and]
    change bits.toNat &&& 2 ^ 15 = _
    rw [Nat.and_two_pow, Nat.toNat_testBit]
  rw [UInt32.toNat_shiftLeft, Nat.shiftLeft_eq, hand]
  have h16 : (16 : UInt32).toNat % 32 = 16 := rfl
  rw [h16]
  omega

theorem exp_of (bits : UInt16) : ((bits.toUInt32 >>> 10) &&& 0x1f).toNat =
    f16.exponent bits.toNat := by
  rw [UInt32.toNat_and, UInt32.toNat_shiftRight, Nat.shiftRight_eq_div_pow]
  exact Nat.and_two_pow_sub_one_eq_mod _ 5

theorem mant_of (bits : UInt16) : ((bits.toUInt32 &&& 0x3ff) <<< 13).toNat =
    f16.mantissa bits.toNat * 2 ^ 13 := by
  have hlt := mantissa_lt f16 bits.toNat
  have hand : (bits.toUInt32 &&& 0x3ff).toNat = f16.mantissa bits.toNat := by
    rw [UInt32.toNat_and]
    exact Nat.and_two_pow_sub_one_eq_mod _ 10
  rw [UInt32.toNat_shiftLeft, Nat.shiftLeft_eq, hand]
  have h13 : (13 : UInt32).toNat % 32 = 13 := rfl
  have h10 : f16.mantissa bits.toNat < 2 ^ 10 := hlt
  rw [h13]
  omega

theorem wider_f16 : Wider f16 f32 := ⟨by decide, by decide, by decide, by decide⟩

theorem wider_f32 : Wider f32 f64 := ⟨by decide, by decide, by decide, by decide⟩

theorem val32_normal {sign exp mant : UInt32} {bits : UInt16}
    (hsign : sign.toNat = (bits.toNat / 2 ^ 15 % 2) * 2 ^ 31)
    (hexp : exp.toNat = f16.exponent bits.toNat + 112)
    (hmant : mant.toNat = f16.mantissa bits.toNat * 2 ^ 13) (h0 : f16.exponent bits.toNat ≠ 0)
    (h31 : f16.exponent bits.toNat ≠ 31) :
    val32 (sign ||| (exp <<< 23) ||| mant) = val16 bits := by
  have hm : f16.mantissa bits.toNat < 2 ^ 10 := mantissa_lt f16 bits.toNat
  have he : f16.exponent bits.toNat < 2 ^ 5 := exponent_lt f16 bits.toNat
  have hshift : (exp <<< 23).toNat = exp.toNat * 2 ^ 23 := by
    rw [UInt32.toNat_shiftLeft, Nat.shiftLeft_eq]
    have h23 : (23 : UInt32).toNat % 32 = 23 := rfl
    rw [h23]
    omega
  have hpack : (sign ||| (exp <<< 23) ||| mant).toNat = f32.pack (f16.negative bits.toNat)
      (f16.exponent bits.toNat + 112) (f16.mantissa bits.toNat * 2 ^ 13) := by
    have hfirst : (bits.toNat / 2 ^ 15 % 2) * 2 ^ 31 ||| exp.toNat * 2 ^ 23 =
        (bits.toNat / 2 ^ 15 % 2) * 2 ^ 31 + exp.toNat * 2 ^ 23 := by
      rw [← Nat.shiftLeft_eq, Nat.shiftLeft_add_eq_or_of_lt (by omega)]
    have hsecond : ((bits.toNat / 2 ^ 15 % 2) * 256 + exp.toNat) * 2 ^ 23 ||| mant.toNat =
        ((bits.toNat / 2 ^ 15 % 2) * 256 + exp.toNat) * 2 ^ 23 + mant.toNat := by
      rw [← Nat.shiftLeft_eq, Nat.shiftLeft_add_eq_or_of_lt (by omega)]
    have hneg : bits.toNat / 2 ^ 10 / 2 ^ 5 = bits.toNat / 2 ^ 15 := Nat.div_div_eq_div_mul _ _ _
    rw [UInt32.toNat_or, UInt32.toNat_or, hsign, hshift, hfirst,
      show (bits.toNat / 2 ^ 15 % 2) * 2 ^ 31 + exp.toNat * 2 ^ 23 =
        ((bits.toNat / 2 ^ 15 % 2) * 256 + exp.toNat) * 2 ^ 23 by omega, hsecond, hexp, hmant]
    simp only [Format.pack, Format.negative, f16, f32, hneg, decide_eq_true_eq]
    rcases Nat.mod_two_eq_zero_or_one (bits.toNat / 2 ^ 15) with h | h <;> rw [h] <;> simp
  have hvalue : f32.magnitude (f16.exponent bits.toNat + 112) (f16.mantissa bits.toNat * 2 ^ 13) =
      f16.magnitude (f16.exponent bits.toNat) (f16.mantissa bits.toNat) := by
    have hexp' : f32.bias + f16.exponent bits.toNat - f16.bias =
        f16.exponent bits.toNat + 112 := by
      change 127 + f16.exponent bits.toNat - 15 = _
      omega
    rw [← magnitude_normal wider_f16 h0, hexp']
    rfl
  have hfit : f16.mantissa bits.toNat * 2 ^ 13 < 2 ^ f32.mant := by
    change _ < 2 ^ 23
    omega
  have hmax : f16.exponent bits.toNat ≠ 2 ^ f16.expo - 1 := h31
  rw [val32, hpack, decode_pack f32 hfit (by change _ < 2 ^ 8 - 1; omega), hvalue, val16,
    Format.decode, if_neg hmax]

theorem val32_signedZero (bits : UInt16) :
    val32 (if bits &&& 0x8000 ≠ 0 then 0x80000000 else 0) = .finite 0 := by
  split_ifs <;> decide +kernel

theorem val32_special (h : fpu.Ieee) (sign mant : UInt32) (r : ℚ) :
    val32 (fpu.mul32 (if sign ≠ 0 then 0xbf800000 else 0x3f800000)
      (if mant ≠ 0 then fpu.div32 0 0 else fpu.div32 0x3f800000 0)) ≠ .finite r := by
  have hone := h.div32_one
  have hzero := h.div32_zero
  by_cases hs : sign ≠ 0 <;> by_cases hm : mant ≠ 0
  · simp [hs, hm, h.mul32_negOne, hzero, Datum.neg]
  · simp [hs, hm, h.mul32_negOne, hone, Datum.neg]
  · simp [hs, hm, h.mul32_one, hzero]
  · simp [hs, hm, h.mul32_one, hone]

theorem val32_vmF16BitsToF32 (h : fpu.Ieee) (bits : UInt16) {r : ℚ}
    (hr : val32 (vmF16BitsToF32 fpu bits) = .finite r) :
    ∃ q, val16 bits = .finite q ∧ trunc q = trunc r := by
  have hexp := exp_of bits
  have hmant := mant_of bits
  have hsign := sign_of bits
  have hm : f16.mantissa bits.toNat < 2 ^ 10 := mantissa_lt f16 bits.toNat
  have he : f16.exponent bits.toNat < 2 ^ 5 := exponent_lt f16 bits.toNat
  have hsmall (h0 : f16.exponent bits.toNat = 0) : ∃ q, val16 bits = .finite q ∧ trunc q = 0 :=
    decode_small f16 (by rw [h0]; decide) (by decide)
  rw [vmF16BitsToF32] at hr
  by_cases hzero : bits &&& 0x7fff = 0
  · rw [if_pos hzero, val32_signedZero, Datum.finite.injEq] at hr
    subst hr
    have hlow : bits.toNat % 2 ^ 15 = 0 := by
      rw [← UInt16.toNat_inj, UInt16.toNat_and] at hzero
      exact (Nat.and_two_pow_sub_one_eq_mod bits.toNat 15).symm.trans hzero
    exact hsmall (by change bits.toNat / 2 ^ 10 % 2 ^ 5 = 0; omega)
  rw [if_neg hzero] at hr
  dsimp only at hr
  generalize (bits.toUInt32 &&& 0x8000) <<< 16 = sign at hr hsign
  generalize (bits.toUInt32 >>> 10) &&& 0x1f = exp at hr hexp
  generalize (bits.toUInt32 &&& 0x3ff) <<< 13 = mant at hr hmant
  by_cases h0 : exp = 0
  · rw [if_pos h0] at hr
    obtain ⟨hfin, k, hk, hnorm⟩ := normalise_spec 24 mant exp (by omega)
    have hfield : ((normalise 24 mant exp).2 + 1 + 112).toNat ≤ 113 := by
      rw [hnorm, h0]
      interval_cases k <;> decide
    obtain ⟨q, hq, htrunc⟩ := val32_subnormal (by omega) hsign hfield hfin
    have hqr : q = r := Datum.finite.inj (hq.symm.trans hr)
    obtain ⟨p, hp, htp⟩ := hsmall (by rw [← hexp, h0]; rfl)
    exact ⟨p, hp, by rw [htp, ← hqr, htrunc]⟩
  rw [if_neg h0] at hr
  by_cases h31 : exp = 31
  · rw [if_pos h31] at hr
    exact absurd hr (val32_special h sign mant r)
  rw [if_neg h31] at hr
  have hne0 : f16.exponent bits.toNat ≠ 0 := by
    rw [← hexp]
    exact fun h' ↦ h0 (UInt32.toNat_inj.mp h')
  have hne31 : f16.exponent bits.toNat ≠ 31 := by
    rw [← hexp]
    exact fun h' ↦ h31 (UInt32.toNat_inj.mp h')
  have hfield : (exp + 112).toNat = f16.exponent bits.toNat + 112 := by
    rw [UInt32.toNat_add, hexp]
    have h112 : (112 : UInt32).toNat = 112 := rfl
    omega
  rw [val32_normal hsign hfield hmant hne0 hne31] at hr
  exact ⟨r, hr, rfl⟩

end HalfPrecision

section Agreement

variable {fpu fpu' : Fpu}

theorem AgreeInRange.exists_casts (h : AgreeInRange fpu fpu') : ∃ f g,
    fpu' = fpu.withCasts f g ∧
      (∀ x, FitsInt 32 (val64 x) → f x = fpu.i32FromF64 x) ∧
      ∀ x, FitsInt 64 (val64 x) → g x = fpu.i64FromF64 x :=
  ⟨fpu'.i32FromF64, fpu'.i64FromF64, h.same, fun _ ↦ h.i32, fun _ ↦ h.i64⟩

theorem agreeInRange_casts {f : UInt64 → UInt32} {g : UInt64 → UInt64}
    (hf : ∀ x, FitsInt 32 (val64 x) → f x = fpu.i32FromF64 x)
    (hg : ∀ x, FitsInt 64 (val64 x) → g x = fpu.i64FromF64 x) :
    AgreeInRange fpu (fpu.withCasts f g) :=
  ⟨rfl, fun h ↦ hf _ h, fun h ↦ hg _ h⟩

theorem agreeInRange_i64 {x : UInt64} (hx : ¬ FitsInt 64 (val64 x)) :
    AgreeInRange fpu (fpu.withCasts fpu.i32FromF64
      (Function.update fpu.i64FromF64 x (fpu.i64FromF64 x + 1))) := by
  refine agreeInRange_casts (fun _ _ ↦ rfl) fun y hy ↦ Function.update_of_ne ?_ _ _
  rintro rfl
  exact hx hy

theorem agreeInRange_i32 {x : UInt64} (hx : ¬ FitsInt 32 (val64 x)) :
    AgreeInRange fpu (fpu.withCasts
      (Function.update fpu.i32FromF64 x (fpu.i32FromF64 x + 1)) fpu.i64FromF64) := by
  refine agreeInRange_casts (fun y hy ↦ Function.update_of_ne ?_ _ _) fun _ _ ↦ rfl
  rintro rfl
  exact hx hy

theorem not_fits_twoPow63 : ¬ FitsInt 64 (.finite (2 ^ 63)) := by
  rintro ⟨q, hq, -, hlt⟩
  rw [Datum.finite.injEq] at hq
  subst hq
  have hval : (2 ^ 63 : ℤ) ≤ trunc (2 ^ 63) := le_trunc (by push_cast; exact le_rfl)
  omega

theorem ne_add_one32 (x : UInt32) : x + 1 ≠ x := by
  intro h
  have h' := congrArg UInt32.toNat h
  rw [UInt32.toNat_add] at h'
  have h1 : (1 : UInt32).toNat = 1 := rfl
  have hx := x.toNat_lt
  omega

theorem ne_add_one64 (x : UInt64) : x + 1 ≠ x := by
  intro h
  have h' := congrArg UInt64.toNat h
  rw [UInt64.toNat_add] at h'
  have h1 : (1 : UInt64).toNat = 1 := rfl
  have hx := x.toNat_lt
  omega

end Agreement

section Instructions

variable {ctx : Ctx} {ins : JelloInsn} {s : Store} (c : Conversion)

/-- The checked double has the integer part of the source, and is the source where the target is
wide. -/
theorem source_of_input (h : ctx.fpu.Ieee) {r : ℚ}
    (hr : val64 (c.input ctx ins s) = .finite r) :
    ∃ q, c.source ctx ins s = .finite q ∧ trunc q = trunc r := by
  cases c with
  | i32FromF64 => exact ⟨r, hr, rfl⟩
  | i64FromF64 => exact ⟨r, hr, rfl⟩
  | i32FromF32 => exact ⟨r, (h.f64FromF32 _).symm.trans hr, rfl⟩
  | i64FromF32 => exact ⟨r, (h.f64FromF32 _).symm.trans hr, rfl⟩
  | i32FromF16 => exact val32_vmF16BitsToF32 h _ ((h.f64FromF32 _).symm.trans hr)

theorem source_wide (h : ctx.fpu.Ieee) (hw : c.wide = true) :
    c.source ctx ins s = val64 (c.input ctx ins s) := by
  cases c with
  | i64FromF64 => rfl
  | i64FromF32 => exact (h.f64FromF32 _).symm
  | _ => exact absurd hw (by decide)

theorem input_casts (f : UInt64 → UInt32) (g : UInt64 → UInt64) :
    c.input { ctx with fpu := ctx.fpu.withCasts f g } ins s = c.input ctx ins s := by
  cases c <;> rfl

theorem checks_casts (f : UInt64 → UInt32) (g : UInt64 → UInt64) (x : UInt64) :
    c.Checks (ctx.fpu.withCasts f g) x ↔ c.Checks ctx.fpu x := Iff.rfl

theorem fits_of_checks (h : ctx.fpu.Ieee)
    (hfit : c.wide = true → c.source ctx ins s ≠ .finite (2 ^ 63))
    (hc : c.Checks ctx.fpu (c.input ctx ins s)) :
    FitsInt (if c.wide then 64 else 32) (val64 (c.input ctx ins s)) := by
  rw [Conversion.Checks] at hc
  split_ifs at hc ⊢ with hw
  · have hne := hfit hw
    rw [source_wide c h hw] at hne
    exact (fits_iff_of_passesI64 h hc).mpr hne
  · exact fits_of_passesI32 h hc

theorem stored_casts {fpu : Fpu} {f : UInt64 → UInt32} {g : UInt64 → UInt64} {x : UInt64}
    (hf : ∀ x, FitsInt 32 (val64 x) → f x = fpu.i32FromF64 x)
    (hg : ∀ x, FitsInt 64 (val64 x) → g x = fpu.i64FromF64 x)
    (hfit : FitsInt (if c.wide then 64 else 32) (val64 x)) (mem : Mem) (a : ℕ) :
    c.stored (fpu.withCasts f g) x mem a = c.stored fpu x mem a := by
  rw [Conversion.stored, Conversion.stored]
  split_ifs at hfit ⊢ with hw
  · exact congrArg (store64 mem a) (hg x hfit)
  · exact congrArg (store32 mem a) (hf x hfit)

theorem castsInRange_of_fits (h : ctx.fpu.Ieee)
    (hfit : c.wide = true → c.source ctx ins s ≠ .finite (2 ^ 63)) :
    CastsInRange (fun fpu ↦ result (c.op { ctx with fpu := fpu } ins) s) ctx.fpu := by
  intro fpu' hagree
  obtain ⟨f, g, rfl, hf, hg⟩ := hagree.exists_casts
  change result (c.op _ ins) s = result (c.op ctx ins) s
  rw [result_conversion, result_conversion, input_casts]
  by_cases hc : c.Checks ctx.fpu (c.input ctx ins s)
  · have hc' := (checks_casts c f g _).mpr hc
    rw [if_pos hc, if_pos hc', stored_casts c hf hg (fits_of_checks c h hfit hc)]
  · have hc' := mt (checks_casts c f g _).mp hc
    rw [if_neg hc, if_neg hc']

theorem target_of_fits (h : ctx.fpu.Ieee)
    (hfit : c.wide = true → c.source ctx ins s ≠ .finite (2 ^ 63)) {s' : Store}
    (hres : result (c.op ctx ins) s = .ok ((), s')) (hs' : s'.excPending = false) :
    ∃ q, c.source ctx ins s = .finite q ∧ c.target ctx ins s' = trunc q := by
  rw [result_conversion] at hres
  by_cases hc : c.Checks ctx.fpu (c.input ctx ins s)
  · rw [if_pos hc] at hres
    cases hres
    have hfits := fits_of_checks c h hfit hc
    obtain ⟨r, hr, -⟩ := id hfits
    obtain ⟨q, hq, htrunc⟩ := source_of_input c h hr
    refine ⟨q, hq, ?_⟩
    rw [htrunc, Conversion.target, Conversion.stored]
    split_ifs at hfits ⊢ with hw
    · rw [load64_store64]
      exact h.i64FromF64 hr hfits
    · rw [load32_store32]
      exact h.i32FromF64 hr hfits
  · rw [if_neg hc] at hres
    cases hres
    exact absurd hs' (by simp [castTrap])

/-- The one number that the check of `I64` lets through is cast. -/
theorem not_castsInRange_twoPow63 (h : ctx.fpu.Ieee) (hw : c.wide = true)
    (hsrc : c.source ctx ins s = .finite (2 ^ 63)) :
    ¬ CastsInRange (fun fpu ↦ result (c.op { ctx with fpu := fpu } ins) s) ctx.fpu := by
  intro hcasts
  rw [source_wide c h hw] at hsrc
  have hx : ¬ FitsInt 64 (val64 (c.input ctx ins s)) := by rw [hsrc]; exact not_fits_twoPow63
  have hc : c.Checks ctx.fpu (c.input ctx ins s) := by
    rw [Conversion.Checks, if_pos hw]
    exact passesI64_of_eq h hsrc
  have hsame : result (c.op _ ins) s = result (c.op ctx ins) s := hcasts _ (agreeInRange_i64 hx)
  rw [result_conversion, result_conversion, input_casts, if_pos hc,
    if_pos ((checks_casts c _ _ _).mpr hc), Except.ok.injEq, Prod.mk.injEq] at hsame
  have hmem := congrArg Store.mem hsame.2
  simp only [Conversion.stored, if_pos hw, Fpu.withCasts] at hmem
  have hload := congrArg (fun mem ↦ load64 mem (ctx.rf.addr ins.ra)) hmem
  simp only [load64_store64, Function.update_self] at hload
  exact ne_add_one64 _ hload

theorem conversion_sound_iff (h : ctx.fpu.Ieee) :
    c.Sound ctx ins s ↔ (c.wide = true → c.source ctx ins s ≠ .finite (2 ^ 63)) := by
  constructor
  · rintro ⟨hcasts, -⟩ hw hsrc
    exact not_castsInRange_twoPow63 c h hw hsrc hcasts
  · intro hfit
    exact ⟨castsInRange_of_fits c h hfit, fun s' hres hs' ↦ target_of_fits c h hfit hres hs'⟩

end Instructions

section Unboxing

variable {ctx : Ctx} {s : Store} {m : JelloBcModule} {fpu : Fpu} {f r : ℕ} {rf : RegFrame}
  {v : JelloValue} {x : UInt64}

theorem result_boxF64At_cases (v : JelloValue) (s : Store) :
    (∃ x, s.heap.numAt v = some (.f64 x) ∧ result (boxF64At v) s = .ok (some x, s)) ∨
      result (boxF64At v) s = .ok (none, s) ∨ result (boxF64At v) s = .error .wild := by
  cases hp : jelloIsPtr v with
  | false => exact Or.inr (Or.inl (by simp [boxF64At, hp]))
  | true =>
    cases hc : s.heap.cells v with
    | none => exact Or.inr (Or.inr (result_boxF64At_none hp hc))
    | some c =>
      have hres := result_boxF64At hp hc
      cases c
      case boxF64 h x => exact Or.inl ⟨x, numAt_eq_some.mpr ⟨hp, _, hc, rfl⟩, hres⟩
      all_goals exact Or.inr (Or.inl hres)

theorem castWidth_32 {k : Kind} (h : k.castWidth = some 32) : k = .i8 ∨ k = .i16 ∨ k = .i32 := by
  cases k <;> simp_all [Kind.castWidth]

theorem castWidth_64 {k : Kind} (h : k.castWidth = some 64) : k = .i64 := by
  cases k <;> simp_all [Kind.castWidth]

theorem castWidth_cases {k : Kind} {w : ℕ} (h : k.castWidth = some w) : w = 32 ∨ w = 64 := by
  cases k <;> simp_all [Kind.castWidth]

theorem result_unbox32 (hw : (regKind m f r).castWidth = some 32)
    (hv : s.heap.numAt v = some (.f64 x)) : result (vmStoreFromBoxed m fpu f rf r v) s =
      .ok ((), { s with mem := store32 s.mem (rf.addr r) (fpu.i32FromF64 x) }) := by
  obtain ⟨hi, hnull⟩ := isPtr_others (numAt_eq_some.mp hv).1
  obtain hk | hk | hk := castWidth_32 hw <;>
    simp only [vmStoreFromBoxed, result_bind, result_vmRegKind, hk, Except.bind, hi, hnull,
      Bool.false_eq_true, if_false, result_boxF64At_num hv, Num.asF64] <;>
    rfl

theorem result_unbox64 (hw : (regKind m f r).castWidth = some 64)
    (hv : s.heap.numAt v = some (.f64 x)) : result (vmStoreFromBoxed m fpu f rf r v) s =
      .ok ((), { s with mem := store64 s.mem (rf.addr r) (fpu.i64FromF64 x) }) := by
  obtain ⟨hi, hnull⟩ := isPtr_others (numAt_eq_some.mp hv).1
  simp only [vmStoreFromBoxed, result_bind, result_vmRegKind, castWidth_64 hw, Except.bind, hi,
    hnull, Bool.false_eq_true, if_false, result_boxF64At_num hv, Num.asF64]
  rfl

theorem result_unbox_casts (F : UInt64 → UInt32) (G : UInt64 → UInt64)
    (hno : ∀ x w, s.heap.numAt v = some (.f64 x) → (regKind m f r).castWidth ≠ some w) :
    result (vmStoreFromBoxed m (fpu.withCasts F G) f rf r v) s =
      result (vmStoreFromBoxed m fpu f rf r v) s := by
  cases hk : regKind m f r <;>
    simp only [vmStoreFromBoxed, result_bind, result_vmRegKind, hk, Except.bind] <;>
    try rfl
  all_goals
    obtain ⟨x, hx, -⟩ | hres | hres := result_boxF64At_cases v s
    · exact absurd (by rw [hk]; rfl) (hno x _ hx)
    · split_ifs <;> simp only [result_bind, hres, Except.bind]
    · split_ifs <;> simp only [result_bind, hres, Except.bind]

theorem unbox_sound_iff (dst : ℕ) :
    CastsInRange (fun fpu ↦ result (vmStoreFromBoxed ctx.m fpu ctx.f ctx.rf dst v) s) ctx.fpu ↔
      ∀ x w, s.heap.numAt v = some (.f64 x) →
        (regKind ctx.m ctx.f dst).castWidth = some w → FitsInt w (val64 x) := by
  constructor
  · intro hcasts x w hv hw
    by_contra hx
    obtain rfl | rfl := castWidth_cases hw
    · have hsame := hcasts _ (agreeInRange_i32 hx)
      simp only [result_unbox32 hw hv, Fpu.withCasts, Function.update_self, Except.ok.injEq,
        Prod.mk.injEq, true_and] at hsame
      have hload := congrArg (fun t : Store ↦ load32 t.mem (ctx.rf.addr dst)) hsame
      simp only [load32_store32] at hload
      exact ne_add_one32 _ hload
    · have hsame := hcasts _ (agreeInRange_i64 hx)
      simp only [result_unbox64 hw hv, Fpu.withCasts, Function.update_self, Except.ok.injEq,
        Prod.mk.injEq, true_and] at hsame
      have hload := congrArg (fun t : Store ↦ load64 t.mem (ctx.rf.addr dst)) hsame
      simp only [load64_store64] at hload
      exact ne_add_one64 _ hload
  · intro hfit fpu' hagree
    obtain ⟨F, G, rfl, hF, hG⟩ := hagree.exists_casts
    by_cases hcast : ∃ x w, s.heap.numAt v = some (.f64 x) ∧
        (regKind ctx.m ctx.f dst).castWidth = some w
    · obtain ⟨x, w, hv, hw⟩ := hcast
      have hx := hfit x w hv hw
      obtain rfl | rfl := castWidth_cases hw
      · simp only [result_unbox32 hw hv, Fpu.withCasts, hF x hx]
      · simp only [result_unbox64 hw hv, Fpu.withCasts, hG x hx]
    · exact result_unbox_casts F G fun x w hv hw ↦ hcast ⟨x, w, hv, hw⟩

end Unboxing

section Exact

variable {fpu : Fpu} {x : UInt64}

theorem pack_lt (F : Format) {neg : Bool} {e m : ℕ} (hm : m < 2 ^ F.mant) (he : e < 2 ^ F.expo) :
    F.pack neg e m < 2 * 2 ^ F.expo * 2 ^ F.mant := by
  have hsum : ((if neg then 2 ^ F.expo else 0) + e) + 1 ≤ 2 * 2 ^ F.expo := by
    split_ifs <;> omega
  calc F.pack neg e m < ((if neg then 2 ^ F.expo else 0) + e) * 2 ^ F.mant + 2 ^ F.mant := by
        rw [Format.pack]
        omega
    _ = (((if neg then 2 ^ F.expo else 0) + e) + 1) * 2 ^ F.mant := by ring
    _ ≤ 2 * 2 ^ F.expo * 2 ^ F.mant := Nat.mul_le_mul_right _ hsum

theorem val64_cTrunc {q : ℚ} (hx : val64 x = .finite q) : val64 (cTrunc x) = .finite (trunc q) := by
  have hlt : f64.truncBits x.toNat < 2 ^ 64 := by
    have he := exponent_lt f64 x.toNat
    have hm := mantissa_lt f64 x.toNat
    rw [Format.truncBits]
    dsimp only
    split_ifs
    · exact x.toNat_lt
    · exact pack_lt f64 (Nat.two_pow_pos _) (Nat.two_pow_pos _)
    · exact pack_lt f64 ((Nat.div_mul_le_self _ _).trans_lt hm) he
  rw [val64, cTrunc, UInt64.toNat_ofNat', Nat.mod_eq_of_lt hlt]
  exact decode_truncBits f64 (by decide) (by decide) hx

theorem trunc_twoPow63 : ((trunc (2 ^ 63) : ℤ) : ℚ) = 2 ^ 63 := by
  have h : (2 ^ 63 : ℚ) = ((2 ^ 63 : ℤ) : ℚ) := by push_cast; rfl
  rw [h, trunc_intCast]

/-- The cast is reached by integers that pass the check, and by `2 ^ 63`. -/
theorem f64IsExactI64_cases (h : fpu.Ieee) (x : UInt64) :
    (f64IsExactI64 fpu x = some (fpu.i64FromF64 (cTrunc x)) ∧
      Passes fpu 0x43e0000000000000 0xc3e0000000000000 (cTrunc x) ∧
        val64 (cTrunc x) = val64 x) ∨
      (f64IsExactI64 fpu x = none ∧ val64 x ≠ .finite (2 ^ 63)) := by
  have hfin := h.isfinite x
  have heq := h.eq64 x (cTrunc x)
  cases hx : val64 x with
  | nan =>
    rw [hx] at hfin
    exact Or.inr ⟨by simp [f64IsExactI64, hfin, Datum.isFinite], by simp⟩
  | inf neg =>
    rw [hx] at hfin
    exact Or.inr ⟨by simp [f64IsExactI64, hfin, Datum.isFinite], by simp⟩
  | finite q =>
    have ht := val64_cTrunc hx
    rw [hx] at hfin
    rw [hx, ht] at heq
    simp only [Datum.isFinite, Datum.eq] at hfin heq
    by_cases hq : q = trunc q
    · rw [decide_eq_true hq] at heq
      by_cases hp : Passes fpu 0x43e0000000000000 0xc3e0000000000000 (cTrunc x)
      · obtain ⟨-, h2, h3⟩ := id hp
        refine Or.inl ⟨?_, hp, by rw [ht, ← hq]⟩
        simp [f64IsExactI64, hfin, heq, h2, h3]
      · refine Or.inr ⟨?_, ?_⟩
        · have hfin' : fpu.isfinite (cTrunc x) = true := by rw [h.isfinite, ht]; rfl
          have hover : (fpu.lt64 0x43e0000000000000 (cTrunc x) ||
              fpu.lt64 (cTrunc x) 0xc3e0000000000000) = true := by
            by_contra hno
            rw [Bool.not_eq_true, Bool.or_eq_false_iff] at hno
            exact hp ⟨hfin', hno⟩
          simp [f64IsExactI64, hfin, heq, hover]
        · rintro h63
          rw [Datum.finite.injEq] at h63
          refine hp (passesI64_of_eq h ?_)
          rw [ht, ← hq, h63]
    · rw [decide_eq_false hq] at heq
      refine Or.inr ⟨by simp [f64IsExactI64, hfin, heq], ?_⟩
      rintro h63
      rw [Datum.finite.injEq] at h63
      rw [h63] at hq
      exact hq trunc_twoPow63.symm

theorem f64IsExactI64_casts (F : UInt64 → UInt32) (G : UInt64 → UInt64) (x : UInt64) :
    f64IsExactI64 (fpu.withCasts F G) x =
      (f64IsExactI64 fpu x).map fun _ ↦ G (cTrunc x) := by
  by_cases h1 : fpu.isfinite x = true <;> by_cases h2 : fpu.eq64 x (cTrunc x) = true <;>
    by_cases h3 : (fpu.lt64 0x43e0000000000000 (cTrunc x) ||
      fpu.lt64 (cTrunc x) 0xc3e0000000000000) = true <;>
    simp [f64IsExactI64, Fpu.withCasts, h1, h2, h3]

theorem exact_sound_iff (h : fpu.Ieee) (x : UInt64) :
    CastsInRange (fun fpu ↦ f64IsExactI64 fpu x) fpu ↔ val64 x ≠ .finite (2 ^ 63) := by
  constructor
  · intro hcasts h63
    obtain ⟨hres, hp, ht⟩ | ⟨-, hne⟩ := f64IsExactI64_cases h x
    · have hx : ¬ FitsInt 64 (val64 (cTrunc x)) := by rw [ht, h63]; exact not_fits_twoPow63
      have hsame := hcasts _ (agreeInRange_i64 hx)
      simp only [f64IsExactI64_casts, hres, Option.map_some, Option.some.injEq,
        Function.update_self] at hsame
      exact ne_add_one64 _ hsame
    · exact hne h63
  · intro hne fpu' hagree
    obtain ⟨F, G, rfl, -, hG⟩ := hagree.exists_casts
    obtain ⟨hres, hp, ht⟩ | ⟨hres, -⟩ := f64IsExactI64_cases h x
    · have hfit : FitsInt 64 (val64 (cTrunc x)) :=
        (fits_iff_of_passesI64 h hp).mpr (by rw [ht]; exact hne)
      simp only [f64IsExactI64_casts, hres, Option.map_some, hG _ hfit]
    · simp only [f64IsExactI64_casts, hres, Option.map_none]

end Exact

section Unit

theorem neg_decode_add_sign (x : UInt32) : val32 (x + 0x80000000) = (val32 x).neg := by
  have hx := x.toNat_lt
  have hsum : (x + 0x80000000).toNat = (x.toNat + 2 ^ 31) % 2 ^ 32 := UInt32.toNat_add _ _
  have hexp : f32.exponent (x + 0x80000000).toNat = f32.exponent x.toNat := by
    change (x + 0x80000000).toNat / 2 ^ 23 % 2 ^ 8 = x.toNat / 2 ^ 23 % 2 ^ 8
    omega
  have hmant : f32.mantissa (x + 0x80000000).toNat = f32.mantissa x.toNat := by
    change (x + 0x80000000).toNat % 2 ^ 23 = x.toNat % 2 ^ 23
    omega
  have hneg : f32.negative (x + 0x80000000).toNat = !f32.negative x.toNat := by
    have hflip : (x + 0x80000000).toNat / 2 ^ 23 / 2 ^ 8 % 2 = 1 ↔
        ¬ x.toNat / 2 ^ 23 / 2 ^ 8 % 2 = 1 := by omega
    rw [Format.negative, Format.negative, ← decide_not]
    exact decide_eq_decide.mpr hflip
  rw [val32, val32, Format.decode, Format.decode, hexp, hmant, hneg]
  split_ifs
  · rfl
  · rfl
  · cases f32.negative x.toNat <;> simp [Datum.neg, Format.signed]

def castTo (w : ℕ) (d : Datum) : BitVec w :=
  match d with
  | .finite q => BitVec.ofInt w (trunc q)
  | _ => 0

theorem toInt_castTo {w : ℕ} (hw : 0 < w) {q : ℚ} (hfit : FitsInt w (.finite q)) :
    (castTo w (.finite q)).toInt = trunc q := by
  obtain ⟨r, hr, hlo, hhi⟩ := hfit
  rw [Datum.finite.injEq] at hr
  subst hr
  obtain ⟨n, rfl⟩ := Nat.exists_eq_succ_of_ne_zero hw.ne'
  rw [Nat.succ_eq_add_one, Nat.add_sub_cancel] at hlo hhi
  rw [castTo, BitVec.toInt_ofInt]
  have hpow : (2 : ℤ) ^ n.succ = 2 * 2 ^ n := by rw [Nat.succ_eq_add_one, pow_succ, mul_comm]
  refine Int.bmod_eq_of_le_mul_two ?_ ?_ <;> push_cast <;> rw [hpow] <;> linarith

/-- A unit whose comparisons and conversions are those of the formats; of the arithmetic there is
what the widening of half precision asks for. -/
def exactFpu : Fpu :=
  { (default : Fpu) with
    isfinite := fun x ↦ (val64 x).isFinite
    lt64 := fun a b ↦ (val64 a).lt (val64 b)
    eq64 := fun a b ↦ (val64 a).eq (val64 b)
    f64FromF32 := fun x ↦ UInt64.ofNat (f32.widen f64 x.toNat)
    mul32 := fun a b ↦ if a = 0x3f800000 then b else b + 0x80000000
    div32 := fun a _ ↦ if a = 0 then 0x7fc00000 else 0x7f800000
    i32FromF64 := fun x ↦ ⟨castTo 32 (val64 x)⟩
    i64FromF64 := fun x ↦ ⟨castTo 64 (val64 x)⟩ }

theorem widen_lt (x : UInt32) : f32.widen f64 x.toNat < 2 ^ 64 := by
  have he := exponent_lt f32 x.toNat
  have hm := mantissa_lt f32 x.toNat
  have he' : f32.exponent x.toNat < 256 := he
  have hm' : f32.mantissa x.toNat < 2 ^ 23 := hm
  have hpack {neg : Bool} {e m : ℕ} (he : e < 2 ^ 11) (hm : m < 2 ^ 52) :
      f64.pack neg e m < 2 ^ 64 := pack_lt f64 hm he
  have hbias : f64.bias = 1023 := by decide
  have hbias' : f32.bias = 127 := by decide
  rw [Format.widen]
  dsimp only
  split_ifs with hmax hzero hm0
  · exact hpack (by decide) (by change _ * 2 ^ 29 < _; omega)
  · exact hpack (by norm_num) (by norm_num)
  · have hk : Nat.log2 (f32.mantissa x.toNat) < 23 := (Nat.log2_lt hm0).mpr hm'
    refine hpack ?_ ?_
    · rw [hbias, hbias']
      change 1023 + 1 + _ - 127 - 23 < _
      omega
    · have hup : f32.mantissa x.toNat < 2 ^ (Nat.log2 (f32.mantissa x.toNat) + 1) :=
        Nat.lt_log2_self
      calc (f32.mantissa x.toNat - 2 ^ Nat.log2 (f32.mantissa x.toNat)) *
            2 ^ (52 - Nat.log2 (f32.mantissa x.toNat))
          < 2 ^ Nat.log2 (f32.mantissa x.toNat) * 2 ^ (52 - Nat.log2 (f32.mantissa x.toNat)) := by
            refine Nat.mul_lt_mul_of_pos_right ?_ (Nat.two_pow_pos _)
            rw [pow_succ] at hup
            omega
        _ = 2 ^ 52 := by rw [← pow_add, Nat.add_sub_cancel' (by omega)]
  · refine hpack ?_ (by change _ * 2 ^ 29 < _; omega)
    rw [hbias, hbias']
    omega

theorem ieee_exactFpu : exactFpu.Ieee where
  isfinite _ := rfl
  lt64 _ _ := rfl
  eq64 _ _ := rfl
  f64FromF32 x := by
    change f64.decode (UInt64.ofNat (f32.widen f64 x.toNat)).toNat = _
    rw [UInt64.toNat_ofNat', Nat.mod_eq_of_lt (widen_lt x), decode_widen wider_f32]
    rfl
  mul32_one _ := rfl
  mul32_negOne x := neg_decode_add_sign x
  div32_one := by decide +kernel
  div32_zero := by decide +kernel
  i32FromF64 {x q} hx hfit := by
    rw [hx] at hfit
    change (castTo 32 (val64 x)).toInt = trunc q
    rw [hx]
    exact toInt_castTo (by norm_num) hfit
  i64FromF64 {x q} hx hfit := by
    rw [hx] at hfit
    change (castTo 64 (val64 x)).toInt = trunc q
    rw [hx]
    exact toInt_castTo (by norm_num) hfit

end Unit

/-- A cast is evaluated in range, and a conversion that does not trap gives the truncated number,
unless the number is `2 ^ 63` or is unboxed. -/
theorem casts_in_range_iff {ctx : Ctx} (h : ctx.fpu.Ieee) (site : CastSite) (s : Store) :
    site.Sound ctx s ↔ site.Fits ctx s := by
  cases site with
  | insn c ins => exact conversion_sound_iff c h
  | unbox dst v => exact unbox_sound_iff dst
  | exact x => exact exact_sound_iff h x

/-- `I64_FROM_F64` from register 1 to register 0. -/
def castInsn : JelloInsn := { op := .i64FromF64, a := 0, b := 1, c := 0, imm := 0 }

def castCtx : Ctx :=
  { m := default
    fpu := exactFpu
    f := 0
    rf := { mem := 4096, off := [0, 8], nregs := 2, total := 16 }
    pc := 0 }

/-- The source holds `2.5`, or `2 ^ 63`. -/
def castStore (x : UInt64) : Store :=
  { jelloVmCreate.store with mem := store64 jelloVmCreate.store.mem 4104 x }

theorem castStore_sound :
    (CastSite.insn .i64FromF64 castInsn).Sound castCtx (castStore 0x4004000000000000) ↔
      (CastSite.insn .i64FromF64 castInsn).Fits castCtx (castStore 0x4004000000000000) :=
  casts_in_range_iff ieee_exactFpu _ _

theorem twoPow63_cast : val64 0x43e0000000000000 = .finite (2 ^ 63) ∧
    ¬ (CastSite.insn .i64FromF64 castInsn).Sound castCtx (castStore 0x43e0000000000000) := by
  refine ⟨val64_twoPow63, fun hsound ↦ ?_⟩
  have hsrc : Conversion.source .i64FromF64 castCtx castInsn (castStore 0x43e0000000000000) =
      .finite (2 ^ 63) := by
    change val64 (load64 (store64 _ 4104 _) 4104) = _
    rw [load64_store64, val64_twoPow63]
  exact not_castsInRange_twoPow63 .i64FromF64 ieee_exactFpu rfl hsrc hsound.1

end JelloVM
