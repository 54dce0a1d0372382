import JelloVM.Conversions
import JelloVM.Library.Printf

/-! The formatter of UTF-16 strings. -/

namespace JelloVM

open Ieee

def uchar (c : Char) : UInt16 := UInt16.ofNat c.toNat

section Digits

def digitChar (upper : Bool) (d : ℕ) : UInt8 :=
  UInt8.ofNat (if d < 10 then 48 + d else if upper then 55 + d else 87 + d)

/-- The loop that fills `tmp` with the digits, the last one first; `none` when `tmp` is full. -/
def digitsLoop (base : ℕ) (upper : Bool) : ℕ → ℕ → Option (List UInt8)
  | 0, _ => none
  | room + 1, v =>
    if v / base = 0 then some [digitChar upper (v % base)]
    else (digitsLoop base upper room (v / base)).map (digitChar upper (v % base) :: ·)

def u32ToDec (v : UInt32) : Option (List UInt8) :=
  (digitsLoop 10 false 10 v.toNat).map List.reverse

def u64ToDec (v : UInt64) : Option (List UInt8) :=
  (digitsLoop 10 false 20 v.toNat).map List.reverse

def u32ToHex (v : UInt32) (upper : Bool) : Option (List UInt8) :=
  (digitsLoop 16 upper 8 v.toNat).map List.reverse

def uptrToHex (v : UInt64) (upper : Bool) : Option (List UInt8) :=
  (digitsLoop 16 upper 16 v.toNat).map List.reverse

end Digits

section Arguments

/-- The arguments of a call; a string is the memory from its first unit on, `none` is NULL. -/
inductive VaArg
  | int (v : UInt32)
  | int64 (v : UInt64)
  | pointer (v : UInt64)
  | double (bits : UInt64)
  | string (s : Option (List UInt16))

def VaArg.asInt : VaArg → Option UInt32
  | .int v => some v
  | _ => none

/-- `int64` and `void*` take the same eight bytes. -/
def VaArg.asWord : VaArg → Option UInt64
  | .int64 v => some v
  | .pointer v => some v
  | _ => none

def VaArg.asDouble : VaArg → Option UInt64
  | .double bits => some bits
  | _ => none

def VaArg.asString : VaArg → Option (Option (List UInt16))
  | .string s => some s
  | _ => none

end Arguments

section Conversions

/-- A case of the switch with the argument that it takes -/
inductive SpecCase
  | dec32 (v : UInt32)
  | dec64 (v : UInt64)
  | fixed (bits : UInt64)
  | general (bits : UInt64)
  | hex32 (v : UInt32) (upper : Bool)
  | hexPtr (v : UInt64) (upper : Bool)

def doubleText (finite : Bool → ℚ → List UInt8) (bits : UInt64) : List UInt8 :=
  Printf.text finite (f64.negative bits.toNat) (val64 bits)

def tmpSize : ℕ := 64

/-- `snprintf` writes what fits with a terminator, and returns the length of the whole text. -/
def snprintf (text : List UInt8) : List UInt8 × ℤ := (text.take (tmpSize - 1) ++ [0], text.length)

/-- `tmp` written from its beginning by the digits alone -/
def digitsOnly (digits : Option (List UInt8)) : Option (List UInt8 × ℤ) :=
  digits.map fun ds ↦ (ds, ds.length)

/-- `tmp[0] = '-'`, and the digits behind it -/
def minusDigits (digits : Option (List UInt8)) : Option (List UInt8 × ℤ) :=
  digits.map fun ds ↦ (45 :: ds, 1 + ds.length)

/-- The bytes of `tmp` that the conversion writes, and `size`; `none` is a write beyond the buffer
of the digits. -/
def SpecCase.run : SpecCase → Option (List UInt8 × ℤ)
  | .dec32 v => if v.toInt32 < 0 then minusDigits (u32ToDec (0 - v)) else digitsOnly (u32ToDec v)
  | .dec64 v => if v.toInt64 < 0 then minusDigits (u64ToDec (0 - v)) else digitsOnly (u64ToDec v)
  | .fixed bits => some (snprintf (doubleText Printf.fixed bits))
  | .general bits => some (snprintf (doubleText Printf.general bits))
  | .hex32 v upper => digitsOnly (u32ToHex v upper)
  | .hexPtr v upper => digitsOnly (uptrToHex v upper)

/-- What one round of the loop finds in the format -/
inductive Directive
  | done
  | char (c : UInt16)
  | string (s : List UInt16)
  | convert (c : SpecCase)
  | fatal
  | undefined

/-- `va_arg`, which is undefined for an argument of another type -/
def vaArg {α : Type} (kind : VaArg → Option α) (directive : α → Directive) :
    List VaArg → Directive × List VaArg
  | [] => (.undefined, [])
  | a :: args => ((kind a).elim .undefined directive, args)

def nullText : List UInt16 := ("(null)".toList.map uchar) ++ [0]

/-- The conversion after the flags; the switch is over the low byte of `spec`. -/
def fetchSpec (isLong : Bool) (spec : UInt16) (args : List VaArg) : Directive × List VaArg :=
  if spec = uchar 's' then vaArg VaArg.asString (fun s ↦ .string (s.getD nullText)) args
  else if spec.toUInt8 = (uchar 'd').toUInt8 then
    if isLong then vaArg VaArg.asWord (fun v ↦ .convert (.dec64 v)) args
    else vaArg VaArg.asInt (fun v ↦ .convert (.dec32 v)) args
  else if spec.toUInt8 = (uchar 'f').toUInt8 then
    vaArg VaArg.asDouble (fun bits ↦ .convert (.fixed bits)) args
  else if spec.toUInt8 = (uchar 'g').toUInt8 then
    vaArg VaArg.asDouble (fun bits ↦ .convert (.general bits)) args
  else if spec.toUInt8 = (uchar 'x').toUInt8 ∨ spec.toUInt8 = (uchar 'X').toUInt8 then
    if isLong then vaArg VaArg.asWord (fun v ↦ .convert (.hexPtr v (spec = uchar 'X'))) args
    else vaArg VaArg.asInt (fun v ↦ .convert (.hex32 v (spec = uchar 'X'))) args
  else (.fatal, args)

/-- The body of the loop up to the copying: the directive, and the format and arguments left. A
format that ends without a terminator is read beyond its memory. -/
def fetchDirective : List UInt16 → List VaArg → Directive × List UInt16 × List VaArg
  | [], args => (.undefined, [], args)
  | c :: fmt, args =>
    if c = 0 then (.done, fmt, args)
    else if c ≠ uchar '%' then (.char c, fmt, args)
    else match fmt with
      | [] => (.undefined, [], args)
      | spec :: fmt =>
        if spec = 0 then (.done, fmt, args)
        else if spec = uchar '%' then (.char (uchar '%'), fmt, args)
        else if spec = uchar '.' ∨ (uchar '0' ≤ spec ∧ spec ≤ uchar '9') then (.fatal, fmt, args)
        else if spec = uchar 'l' then
          match fmt with
          | [] => (.undefined, [], args)
          | spec :: fmt =>
            if spec = 0 then (.done, fmt, args)
            else
              let (directive, args) := fetchSpec true spec args
              (directive, fmt, args)
        else
          let (directive, args) := fetchSpec false spec args
          (directive, fmt, args)

end Conversions

section Output

/-- Why the loop is left before its end: `jello_fatal`, a read of `tmp` beyond what was written to
it, a write beyond a buffer, or undefined behaviour of the caller's -/
inductive Stop
  | fatal
  | overread
  | overrun
  | undefined
  deriving DecidableEq

/-- `append_ascii` with `room` units between `out` and `end` -/
def appendAscii : ℕ → List UInt8 → ℕ → List UInt16 × Option Stop
  | _, _, 0 => ([], none)
  | 0, _, _ + 1 => ([], none)
  | _ + 1, [], _ + 1 => ([], some .overread)
  | room + 1, b :: s, n + 1 =>
    let (units, stop) := appendAscii room s n
    (b.toUInt16 :: units, stop)

/-- The loop of `%s`; `*s` is read before `out < end` is tested. -/
def copyString : ℕ → List UInt16 → List UInt16 × Option Stop
  | _, [] => ([], some .undefined)
  | room, c :: s =>
    if c = 0 then ([], none)
    else match room with
      | 0 => ([], none)
      | room + 1 =>
        let (units, stop) := copyString room s
        (c :: units, stop)

/-- The units that a directive writes, and whether the loop goes on: `none`, or why not -/
def emit (room : ℕ) : Directive → List UInt16 × Option (Option Stop)
  | .done => ([], some none)
  | .char c => ([c], none)
  | .string s =>
    let (units, stop) := copyString room s
    (units, stop.map some)
  | .convert c =>
    match c.run with
    | none => ([], some (some .overrun))
    | some (tmp, size) =>
      let (units, stop) := appendAscii room tmp size.toNat
      (units, stop.map some)
  | .fatal => ([], some (some .fatal))
  | .undefined => ([], some (some .undefined))

/-- The loop of `uvszprintf`; the last component is `none` when it ends as it should. -/
def uvszprintfLoop : ℕ → ℕ → List UInt16 → List VaArg → Option (List UInt16 × Option Stop)
  | 0, _, _, _ => none
  | fuel + 1, room, fmt, args =>
    if room = 0 then some ([], none)
    else
      let (directive, fmt, args) := fetchDirective fmt args
      match emit room directive with
      | (units, some stop) => some (units, stop)
      | (units, none) => (uvszprintfLoop fuel (room - units.length) fmt args).map fun next ↦
        (units ++ next.1, next.2)

/-- The units written to `out`, and the return value or why there is none -/
structure Printed where
  written : List UInt16
  result : Int32 ⊕ Stop

/-- Each round reads a unit of the format at least, which bounds their number. -/
def uvszprintf (outSize : Int32) (fmt : List UInt16) (args : List VaArg) : Option Printed :=
  if outSize ≤ 0 then some ⟨[], .inl 0⟩
  else (uvszprintfLoop (fmt.length + 1) (outSize.toNatClampNeg - 1) fmt args).map fun
    | (units, none) => ⟨units ++ [0], .inl (Int32.ofNat units.length)⟩
    | (units, some stop) => ⟨units, .inr stop⟩

end Output

section Lengths

theorem digitsLoop_fits {base : ℕ} (hbase : 1 < base) (upper : Bool) {room v : ℕ}
    (hroom : 0 < room) (hv : v < base ^ room) :
    ∃ ds, digitsLoop base upper room v = some ds ∧ ds.length ≤ room := by
  induction room generalizing v with
  | zero => exact absurd hroom (Nat.lt_irrefl 0)
  | succ room ih =>
    rw [digitsLoop]
    split_ifs with h0
    · exact ⟨_, rfl, Nat.succ_pos room⟩
    · have hdiv : v / base < base ^ room := by
        rw [Nat.div_lt_iff_lt_mul (by omega), ← pow_succ]
        exact hv
      have hroom' : 0 < room := by
        rcases Nat.eq_zero_or_pos room with rfl | hpos
        · exact absurd (Nat.lt_one_iff.mp hdiv) h0
        · exact hpos
      obtain ⟨ds, hds, hlen⟩ := ih hroom' hdiv
      exact ⟨_, congrArg _ hds, Nat.succ_le_succ hlen⟩

/-- The texts of integers: at most twenty digits, none of them beyond its buffer -/
theorem digits_run {digits : Option (List UInt8)} (h : ∃ ds, digits = some ds ∧ ds.length ≤ 20) :
    (∃ tmp : List UInt8, digitsOnly digits = some (tmp, (tmp.length : ℤ)) ∧ tmp.length ≤ 21) ∧
      ∃ tmp : List UInt8, minusDigits digits = some (tmp, (tmp.length : ℤ)) ∧
        tmp.length ≤ 21 := by
  obtain ⟨ds, rfl, hlen⟩ := h
  refine ⟨⟨ds, rfl, by omega⟩, 45 :: ds, ?_, Nat.succ_le_succ hlen⟩
  rw [minusDigits, Option.map_some, List.length_cons, Nat.cast_succ, add_comm]

theorem reversed_fits {base : ℕ} (hbase : 1 < base) (upper : Bool) {room v : ℕ}
    (hroom : 0 < room ∧ room ≤ 20) (hv : v < base ^ room) :
    ∃ ds, (digitsLoop base upper room v).map List.reverse = some ds ∧ ds.length ≤ 20 := by
  obtain ⟨ds, hds, hlen⟩ := digitsLoop_fits hbase upper hroom.1 hv
  rw [hds]
  exact ⟨ds.reverse, rfl, by rw [List.length_reverse]; omega⟩

theorem u32ToDec_fits (v : UInt32) : ∃ ds, u32ToDec v = some ds ∧ ds.length ≤ 20 :=
  reversed_fits (by decide) false (by decide) (v.toNat_lt.trans (by decide))

theorem u64ToDec_fits (v : UInt64) : ∃ ds, u64ToDec v = some ds ∧ ds.length ≤ 20 :=
  reversed_fits (by decide) false (by decide) (v.toNat_lt.trans (by decide))

theorem u32ToHex_fits (v : UInt32) (upper : Bool) :
    ∃ ds, u32ToHex v upper = some ds ∧ ds.length ≤ 20 :=
  reversed_fits (by decide) upper (by decide) (v.toNat_lt.trans_le (by decide))

theorem uptrToHex_fits (v : UInt64) (upper : Bool) :
    ∃ ds, uptrToHex v upper = some ds ∧ ds.length ≤ 20 :=
  reversed_fits (by decide) upper (by decide) (v.toNat_lt.trans_le (by decide))

/-- The numbers whose `%f` is longer than `tmp` -/
def LongFixed (x : Datum) : Prop := ∃ q, x = .finite q ∧ (10 ^ 57 ≤ q ∨ q ≤ -10 ^ 56)

theorem f64_valueAt_one : f64.valueAt 1 = (2 ^ 1074)⁻¹ := by
  norm_num [Format.valueAt, Format.magnitude, Format.bias, f64, zpow_neg]

theorem f64_valueAt_top : f64.valueAt f64.top = 2 ^ 52 * 2 ^ 972 := by
  norm_num [Format.valueAt, Format.magnitude, Format.bias, Format.top, f64]

theorem two_pow_le_ten_pow {k : ℕ} (hk : k ≤ 1200) : (2 : ℚ) ^ k ≤ 10 ^ 400 :=
  calc (2 : ℚ) ^ k ≤ 2 ^ (3 * 400) := pow_le_pow_right₀ (by norm_num) hk
    _ = (2 ^ 3) ^ 400 := pow_mul 2 3 400
    _ ≤ 10 ^ 400 := pow_le_pow_left₀ (by norm_num) (by norm_num) 400

theorem magnitude_1075 : f64.magnitude 1075 0 = 2 ^ 52 := by
  norm_num [Format.magnitude, Format.bias, f64]

theorem valueAt_small_or_whole (n : ℕ) : f64.valueAt n < 2 ^ 52 ∨ ∃ m : ℕ, f64.valueAt n = m := by
  by_cases h : n < 1075 * 2 ^ f64.mant
  · refine .inl ((valueAt_strictMono f64 h).trans_eq ?_)
    rw [Format.valueAt, Nat.mul_div_cancel _ (Nat.two_pow_pos _), Nat.mul_mod_left]
    exact magnitude_1075
  · have he : f64.bias + f64.mant ≤ n / 2 ^ f64.mant := by
      rw [Nat.le_div_iff_mul_le (Nat.two_pow_pos _)]
      exact not_lt.mp h
    have hint := trunc_magnitude_large f64 (m := n % 2 ^ f64.mant) (by decide) he
    have hnonneg : 0 ≤ trunc (f64.valueAt n) := le_trunc (valueAt_nonneg f64 n)
    refine .inr ⟨(trunc (f64.valueAt n)).toNat, ?_⟩
    rw [← Int.cast_natCast, Int.toNat_of_nonneg hnonneg]
    exact hint.symm

theorem length_fixed_whole (neg : Bool) (m : ℕ) :
    (Printf.fixed neg m).length = neg.toNat + (Printf.decimal m).length + 7 := by
  have hround : Printf.roundEven ((m : ℚ) * 10 ^ 6) = ((m * 10 ^ 6 : ℕ) : ℤ) := by
    rw [← Printf.roundEven_intCast ((m * 10 ^ 6 : ℕ) : ℤ)]
    push_cast
    rfl
  rw [Printf.length_fixed, hround, Int.toNat_natCast, Nat.mul_div_cancel _ (by decide)]

theorem length_fixed_small (neg : Bool) {v : ℚ} (hv : v < 2 ^ 52) :
    (Printf.fixed neg v).length ≤ 64 := by
  have hround : Printf.roundEven (v * 10 ^ 6) ≤ 2 ^ 52 * 10 ^ 6 := by
    apply Printf.roundEven_le
    push_cast
    linarith
  have hdiv : (Printf.roundEven (v * 10 ^ 6)).toNat / 10 ^ 6 < 10 ^ 16 := by
    rw [Nat.div_lt_iff_lt_mul (by decide)]
    omega
  have hlen := (Printf.length_decimal_le_iff (by decide) _).mpr hdiv
  have hneg := neg.toNat_le
  rw [Printf.length_fixed]
  omega

/-- The text is longer than the buffer from 58 digits on, or from 57 with a minus. -/
theorem length_fixed_iff (neg : Bool) (n : ℕ) :
    64 < (Printf.fixed neg (f64.valueAt n)).length ↔ 10 ^ (57 - neg.toNat) ≤ f64.valueAt n := by
  rcases valueAt_small_or_whole n with hsmall | ⟨m, hm⟩
  · have hpow : (2 : ℚ) ^ 52 ≤ 10 ^ (57 - neg.toNat) := by
      cases neg <;> norm_num
    exact iff_of_false (not_lt.mpr (length_fixed_small neg hsmall))
      (not_le.mpr (hsmall.trans_le hpow))
  · have hneg := neg.toNat_le
    have hlen := Printf.length_decimal_le_iff (show 0 < 57 - neg.toNat by omega) m
    have hcast : (10 : ℚ) ^ (57 - neg.toNat) ≤ (m : ℚ) ↔ 10 ^ (57 - neg.toNat) ≤ m := by
      exact_mod_cast Iff.rfl
    rw [hm, length_fixed_whole, hcast, ← not_lt, ← hlen]
    omega

theorem length_doubleText_iff (bits : UInt64) :
    64 < (doubleText Printf.fixed bits).length ↔ LongFixed (val64 bits) := by
  have hneg := (f64.negative bits.toNat).toNat_le
  unfold doubleText
  cases hval : val64 bits with
  | nan =>
    refine iff_of_false ?_ (by simp [LongFixed])
    rw [Printf.text, List.length_append, Printf.length_sign]
    simp only [List.length_cons, List.length_nil]
    omega
  | inf neg =>
    refine iff_of_false ?_ (by simp [LongFixed])
    rw [Printf.text, List.length_append, Printf.length_sign]
    simp only [List.length_cons, List.length_nil]
    omega
  | finite q =>
    obtain ⟨-, hq⟩ := (decode_eq_finite_iff f64).mp hval
    have hnonneg := valueAt_nonneg f64 (f64.low bits.toNat)
    have habs : |q| = f64.valueAt (f64.low bits.toNat) := by
      rw [hq, abs_signed _ hnonneg]
    have hlong : LongFixed (.finite q) ↔ 10 ^ 57 ≤ q ∨ q ≤ -10 ^ 56 := by
      simp [LongFixed]
    rw [Printf.text, habs, length_fixed_iff, hlong, hq]
    cases f64.negative bits.toNat with
    | false =>
      simp only [Format.signed, Bool.false_eq_true, if_false, Bool.toNat_false, Nat.sub_zero]
      refine ⟨.inl, fun h ↦ h.resolve_right ?_⟩
      linarith
    | true =>
      simp only [Format.signed, if_true, Bool.toNat_true, Nat.reduceSub, neg_le_neg_iff]
      refine ⟨.inr, fun h ↦ h.resolve_left ?_⟩
      linarith

theorem significant_bound {n : ℕ} (h0 : f64.valueAt n ≠ 0) (htop : n < f64.top) :
    (Printf.significant (f64.valueAt n)).1.natAbs < 1000 := by
  have hpos : 0 < f64.valueAt n := lt_of_le_of_ne (valueAt_nonneg f64 n) (Ne.symm h0)
  have hn : 1 ≤ n := by
    apply Nat.one_le_iff_ne_zero.mpr
    intro hzero
    rw [hzero, valueAt_zero] at h0
    exact h0 rfl
  have hlo : (10 : ℚ) ^ (-400 : ℤ) ≤ f64.valueAt n := by
    apply le_trans _ ((valueAt_strictMono f64).monotone hn)
    rw [f64_valueAt_one, zpow_neg, inv_le_inv₀ (by positivity) (by positivity)]
    exact two_pow_le_ten_pow (by decide)
  have hhi : f64.valueAt n < (10 : ℚ) ^ (400 : ℤ) := by
    apply (valueAt_strictMono f64 htop).trans_le
    rw [f64_valueAt_top, ← pow_add]
    exact two_pow_le_ten_pow (by decide)
  have hloglo : -400 ≤ Int.log 10 (f64.valueAt n) :=
    (Int.zpow_le_iff_le_log (by decide) hpos).mp (by exact_mod_cast hlo)
  have hloghi : Int.log 10 (f64.valueAt n) < 400 :=
    (Int.lt_zpow_iff_log_lt (by decide) hpos).mp (by exact_mod_cast hhi)
  unfold Printf.significant
  simp only
  split_ifs <;> simp only <;> omega

theorem length_general_double_le (bits : UInt64) :
    (doubleText Printf.general bits).length ≤ 13 := by
  have hneg := (f64.negative bits.toNat).toNat_le
  unfold doubleText
  cases hval : val64 bits with
  | nan =>
    rw [Printf.text, List.length_append, Printf.length_sign]
    simp only [List.length_cons, List.length_nil]
    omega
  | inf neg =>
    rw [Printf.text, List.length_append, Printf.length_sign]
    simp only [List.length_cons, List.length_nil]
    omega
  | finite q =>
    obtain ⟨htop, hq⟩ := (decode_eq_finite_iff f64).mp hval
    rw [Printf.text, hq, abs_signed _ (valueAt_nonneg f64 _)]
    by_cases h0 : f64.valueAt (f64.low bits.toNat) = 0
    · rw [Printf.general, if_pos h0, List.length_append, Printf.length_sign]
      simp only [List.length_cons, List.length_nil]
      omega
    · exact Printf.length_general_le _ (significant_bound h0 htop)

end Lengths

section Rounds

/-- The conversions whose text does not fit in `tmp` -/
def SpecCase.Long : SpecCase → Prop
  | .fixed bits => LongFixed (val64 bits)
  | _ => False

def SpecCase.width (c : SpecCase) : ℕ := c.run.elim 0 fun out ↦ out.2.toNat

/-- What a conversion leaves in `tmp`, whose text has `n` bytes -/
structure SpecCase.Leaves (c : SpecCase) (tmp : List UInt8) (n : ℕ) : Prop where
  run : c.run = some (tmp, (n : ℤ))
  inside : tmp.length ≤ tmpSize
  written : n ≤ tmp.length ∨ tmp.length = tmpSize
  long : tmpSize < n ↔ c.Long

theorem leaves_digits {c : SpecCase} {tmp : List UInt8}
    (hrun : c.run = some (tmp, (tmp.length : ℤ))) (hlen : tmp.length ≤ 21) (hc : ¬c.Long) : c.Leaves tmp tmp.length := by
  have hsize : tmp.length < tmpSize := hlen.trans_lt (by decide)
  exact ⟨hrun, hsize.le, .inl le_rfl, iff_of_false hsize.le.not_gt hc⟩

theorem leaves_snprintf {c : SpecCase} {text : List UInt8} (hrun : c.run = some (snprintf text))
    (hc : tmpSize < text.length ↔ c.Long) :
    c.Leaves (text.take (tmpSize - 1) ++ [0]) text.length := by
  have hlen : (text.take (tmpSize - 1) ++ [0]).length = min (tmpSize - 1) text.length + 1 := by
    rw [List.length_append, List.length_take, List.length_singleton]
  refine ⟨hrun, ?_, ?_, hc⟩ <;>
  · rw [hlen]
    unfold tmpSize
    omega

/-- No conversion writes beyond its buffer, and only a long `%f` says that it wrote more. -/
theorem SpecCase.leaves (c : SpecCase) : ∃ tmp n, c.Leaves tmp n := by
  cases c with
  | dec32 v =>
    by_cases hneg : v.toInt32 < 0
    · obtain ⟨-, tmp, hrun, hlen⟩ := digits_run (u32ToDec_fits (0 - v))
      exact ⟨tmp, _, leaves_digits ((if_pos hneg).trans hrun) hlen id⟩
    · obtain ⟨⟨tmp, hrun, hlen⟩, -⟩ := digits_run (u32ToDec_fits v)
      exact ⟨tmp, _, leaves_digits ((if_neg hneg).trans hrun) hlen id⟩
  | dec64 v =>
    by_cases hneg : v.toInt64 < 0
    · obtain ⟨-, tmp, hrun, hlen⟩ := digits_run (u64ToDec_fits (0 - v))
      exact ⟨tmp, _, leaves_digits ((if_pos hneg).trans hrun) hlen id⟩
    · obtain ⟨⟨tmp, hrun, hlen⟩, -⟩ := digits_run (u64ToDec_fits v)
      exact ⟨tmp, _, leaves_digits ((if_neg hneg).trans hrun) hlen id⟩
  | fixed bits => exact ⟨_, _, leaves_snprintf rfl (length_doubleText_iff bits)⟩
  | general bits =>
    have hshort : ¬tmpSize < (doubleText Printf.general bits).length :=
      not_lt.mpr ((length_general_double_le bits).trans (by decide))
    exact ⟨_, _, leaves_snprintf rfl (iff_of_false hshort id)⟩
  | hex32 v upper =>
    obtain ⟨⟨tmp, hrun, hlen⟩, -⟩ := digits_run (u32ToHex_fits v upper)
    exact ⟨tmp, _, leaves_digits hrun hlen id⟩
  | hexPtr v upper =>
    obtain ⟨⟨tmp, hrun, hlen⟩, -⟩ := digits_run (uptrToHex_fits v upper)
    exact ⟨tmp, _, leaves_digits hrun hlen id⟩

theorem SpecCase.Leaves.width {c : SpecCase} {tmp : List UInt8} {n : ℕ} (h : c.Leaves tmp n) :
    c.width = n := by
  rw [SpecCase.width, h.run]
  rfl

/-- The bytes are copied as far as they go; the copy goes wrong when more of them are asked for. -/
theorem appendAscii_spec (room : ℕ) (tmp : List UInt8) (n : ℕ) :
    (appendAscii room tmp n).1.length = min (min n room) tmp.length ∧
      (appendAscii room tmp n).2 =
        if min n room ≤ tmp.length then none else some .overread := by
  induction n generalizing room tmp with
  | zero =>
    rw [appendAscii, Nat.zero_min, Nat.zero_min, if_pos (Nat.zero_le _)]
    exact ⟨rfl, rfl⟩
  | succ n ih =>
    cases room with
    | zero =>
      rw [appendAscii, Nat.min_zero, Nat.zero_min, if_pos (Nat.zero_le _)]
      exact ⟨rfl, rfl⟩
    | succ room =>
      cases tmp with
      | nil =>
        rw [appendAscii, if_neg (by rw [List.length_nil]; omega)]
        exact ⟨(Nat.min_zero _).symm, rfl⟩
      | cons b tmp =>
        obtain ⟨hlen, hstop⟩ := ih room tmp
        rw [appendAscii]
        simp only [List.length_cons, hlen, hstop, Nat.add_min_add_right, Nat.add_le_add_iff_right,
          and_self]

/-- A string with a terminator is copied up to it or to the end of the room; one without is copied
to the end of the room, or read beyond its memory. -/
theorem copyString_spec (room : ℕ) (s : List UInt16) :
    (0 ∈ s ∧ (copyString room s).1.length = min room (s.takeWhile (· ≠ 0)).length ∧
      (copyString room s).2 = none) ∨
    (0 ∉ s ∧ (copyString room s).1.length ≤ room ∧
      ((copyString room s).2 = some .undefined ∨
        (copyString room s).2 = none ∧ (copyString room s).1.length = room)) := by
  induction s generalizing room with
  | nil =>
    rw [copyString.eq_def]
    exact .inr ⟨List.not_mem_nil, Nat.zero_le room, .inl rfl⟩
  | cons c s ih =>
    rw [copyString.eq_def]
    simp only
    by_cases h0 : c = 0
    · rw [if_pos h0, h0]
      exact .inl ⟨List.mem_cons_self, by simp, rfl⟩
    · have hmem : 0 ∈ c :: s ↔ 0 ∈ s := by
        rw [List.mem_cons]
        exact or_iff_right (Ne.symm h0)
      rw [if_neg h0, hmem]
      cases room with
      | zero =>
        by_cases hs : 0 ∈ s
        · exact .inl ⟨hs, by rw [Nat.zero_min]; rfl, rfl⟩
        · exact .inr ⟨hs, le_rfl, .inr ⟨rfl, rfl⟩⟩
      | succ room =>
        have htake : (c :: s).takeWhile (· ≠ 0) = c :: s.takeWhile (· ≠ 0) := by
          simp [h0]
        rcases ih room with ⟨hs, hlen, hstop⟩ | ⟨hs, hlen, hstop⟩
        · refine .inl ⟨hs, ?_, hstop⟩
          rw [htake, List.length_cons, List.length_cons, hlen, Nat.add_min_add_right]
        · refine .inr ⟨hs, Nat.succ_le_succ hlen, ?_⟩
          rcases hstop with hstop | ⟨hstop, hfull⟩
          · exact .inl hstop
          · exact .inr ⟨hstop, congrArg (· + 1) hfull⟩

def Directive.goesOn : Directive → Bool
  | .char _ => true
  | .string s => s.contains 0
  | .convert _ => true
  | _ => false

/-- The units of a directive when the room is large enough -/
def Directive.width : Directive → ℕ
  | .char _ => 1
  | .string s => (s.takeWhile (· ≠ 0)).length
  | .convert c => c.width
  | _ => 0

def Directive.Long : Directive → Prop
  | .convert c => c.Long
  | _ => False

/-- What a round does: it is a bad one just for a long conversion with more room than `tmp` has
bytes; one that goes on writes its whole text as far as the room reaches. -/
structure Emitted (room : ℕ) (d : Directive) (units : List UInt16)
    (stop : Option (Option Stop)) : Prop where
  inside : units.length ≤ room
  fits : stop ≠ some (some .overrun)
  overread : stop = some (some .overread) ↔ d.Long ∧ tmpSize < room
  filled : stop = none → d.goesOn = true → units.length = min d.width room
  full : stop = none → d.goesOn = false → units.length = room
  ended : stop ≠ none → stop ≠ some (some .overread) → d.goesOn = false

theorem emitted_stop {room : ℕ} {d : Directive} {stop : Option Stop} (hd : d.goesOn = false)
    (hlong : ¬d.Long) (hstop : stop = none ∨ stop = some .fatal ∨ stop = some .undefined) :
    Emitted room d [] (some stop) := by
  refine ⟨Nat.zero_le room, ?_, ?_, nofun, nofun, fun _ _ ↦ hd⟩
  · rcases hstop with rfl | rfl | rfl <;> exact nofun
  · refine iff_of_false ?_ fun h ↦ hlong h.1
    rcases hstop with rfl | rfl | rfl <;> exact nofun

theorem emitted_convert (room : ℕ) (c : SpecCase) :
    Emitted room (.convert c) (emit room (.convert c)).1 (emit room (.convert c)).2 := by
  obtain ⟨tmp, n, h⟩ := c.leaves
  have hinside := h.inside
  have hemit : emit room (.convert c) =
      ((appendAscii room tmp n).1, (appendAscii room tmp n).2.map some) := by
    simp only [emit, h.run, Int.toNat_natCast]
  have hspec := appendAscii_spec room tmp n
  rw [hemit]
  generalize appendAscii room tmp n = copied at hspec ⊢
  obtain ⟨units, stop⟩ := copied
  obtain ⟨hlen, hstop⟩ := hspec
  simp only at hlen hstop ⊢
  by_cases hmin : min n room ≤ tmp.length
  · rw [if_pos hmin] at hstop
    rw [hstop]
    refine ⟨by omega, nofun, iff_of_false nofun ?_, fun _ _ ↦ ?_, nofun, fun h ↦ absurd rfl h⟩
    · rintro ⟨hlong, hroom⟩
      have hn := h.long.mpr hlong
      omega
    · rw [Directive.width, h.width]
      omega
  · rw [if_neg hmin] at hstop
    rw [hstop]
    have hsize : tmp.length = tmpSize := h.written.resolve_left (by omega)
    refine ⟨by omega, nofun, iff_of_true rfl ⟨h.long.mp (by omega), by omega⟩, nofun, nofun, ?_⟩
    exact fun _ h ↦ absurd rfl h

theorem emitted_string (room : ℕ) (s : List UInt16) :
    Emitted room (.string s) (emit room (.string s)).1 (emit room (.string s)).2 := by
  have hemit : emit room (.string s) =
      ((copyString room s).1, (copyString room s).2.map some) := rfl
  have hspec := copyString_spec room s
  rw [hemit]
  generalize copyString room s = copied at hspec ⊢
  obtain ⟨units, stop⟩ := copied
  simp only at hspec ⊢
  rcases hspec with ⟨hs, hlen, hstop⟩ | ⟨hs, hlen, hstop⟩
  · have hgoes : (Directive.string s).goesOn = true := List.contains_iff_mem.mpr hs
    rw [hstop]
    refine ⟨by omega, nofun, iff_of_false nofun And.left, fun _ _ ↦ ?_, ?_, fun h ↦ absurd rfl h⟩
    · rw [hlen, Nat.min_comm]
      rfl
    · intro _ h
      exact absurd (hgoes.symm.trans h) nofun
  · have hends : (Directive.string s).goesOn = false := by
      rw [Directive.goesOn, ← Bool.not_eq_true, List.contains_iff_mem]
      exact hs
    rcases hstop with hstop | ⟨hstop, hfull⟩
    · rw [hstop]
      exact ⟨hlen, nofun, iff_of_false nofun And.left, nofun, nofun, fun _ _ ↦ hends⟩
    · rw [hstop]
      refine ⟨hlen, nofun, iff_of_false nofun And.left, ?_, fun _ _ ↦ hfull, fun _ _ ↦ hends⟩
      intro _ h
      exact absurd (hends.symm.trans h) nofun

theorem emit_spec {room : ℕ} (hroom : 0 < room) (d : Directive) :
    Emitted room d (emit room d).1 (emit room d).2 := by
  cases d with
  | done => exact emitted_stop rfl id (.inl rfl)
  | char c =>
    refine ⟨hroom, nofun, iff_of_false nofun And.left, fun _ _ ↦ ?_, nofun, fun h ↦ absurd rfl h⟩
    exact (Nat.min_eq_left hroom).symm
  | string s => exact emitted_string room s
  | convert c => exact emitted_convert room c
  | fatal => exact emitted_stop rfl id (.inr (.inl rfl))
  | undefined => exact emitted_stop rfl id (.inr (.inr rfl))

end Rounds

section Runs

/-- The directives of a format, up to the one behind which the output ends -/
def directives : ℕ → List UInt16 → List VaArg → List Directive
  | 0, _, _ => []
  | fuel + 1, fmt, args =>
    let (directive, fmt, args) := fetchDirective fmt args
    if directive.goesOn then directive :: directives fuel fmt args else []

/-- A long conversion comes when there is more room left than `tmp` has bytes. -/
def LongReached (ds : List Directive) (room : ℕ) : Prop :=
  ∃ before d behind, ds = before ++ d :: behind ∧ d.Long ∧
    (before.map Directive.width).sum + tmpSize < room

theorem not_longReached_nil (room : ℕ) : ¬LongReached [] room := by
  rintro ⟨before, d, behind, h, -⟩
  exact List.append_ne_nil_of_right_ne_nil before (List.cons_ne_nil d behind) h.symm

theorem longReached_cons (d : Directive) (ds : List Directive) (room : ℕ) :
    LongReached (d :: ds) room ↔ d.Long ∧ tmpSize < room ∨ LongReached ds (room - d.width) := by
  constructor
  · rintro ⟨before, d', behind, h, hlong, hroom⟩
    cases before with
    | nil =>
      rw [(List.cons.inj h).1]
      rw [List.map_nil, List.sum_nil, Nat.zero_add] at hroom
      exact .inl ⟨hlong, hroom⟩
    | cons c before =>
      rw [List.map_cons, List.sum_cons, ← (List.cons.inj h).1] at hroom
      exact .inr ⟨before, d', behind, (List.cons.inj h).2, hlong, by omega⟩
  · rintro (⟨hlong, hroom⟩ | ⟨before, d', behind, rfl, hlong, hroom⟩)
    · refine ⟨[], d, ds, rfl, hlong, ?_⟩
      rwa [List.map_nil, List.sum_nil, Nat.zero_add]
    · refine ⟨d :: before, d', behind, rfl, hlong, ?_⟩
      rw [List.map_cons, List.sum_cons]
      omega

theorem fetchDirective_shorter (c : UInt16) (fmt : List UInt16) (args : List VaArg) :
    (fetchDirective (c :: fmt) args).2.1.length < (c :: fmt).length := by
  rw [fetchDirective.eq_def]
  simp only
  split_ifs
  · exact Nat.lt_succ_self _
  · exact Nat.lt_succ_self _
  · rcases fmt with _ | ⟨spec, _ | ⟨spec', fmt⟩⟩
    · exact Nat.one_pos
    all_goals
      simp only
      split_ifs <;> simp only [List.length_cons, List.length_nil] <;> omega

/-- The loop ends, stays in its room, and reads too much just where a long conversion is reached. -/
theorem uvszprintfLoop_spec {fuel : ℕ} {fmt : List UInt16} (hfuel : fmt.length < fuel) (room : ℕ)
    (args : List VaArg) : ∃ units stop, uvszprintfLoop fuel room fmt args = some (units, stop) ∧
      units.length ≤ room ∧ stop ≠ some .overrun ∧
        (stop = some .overread ↔ LongReached (directives fuel fmt args) room) := by
  induction fuel generalizing fmt room args with
  | zero => exact absurd hfuel (Nat.not_lt_zero _)
  | succ fuel ih =>
    rw [uvszprintfLoop]
    by_cases hroom : room = 0
    · refine ⟨[], none, if_pos hroom, Nat.zero_le room, nofun, iff_of_false nofun ?_⟩
      rintro ⟨before, d, behind, -, -, hlt⟩
      omega
    · rw [if_neg hroom, directives]
      rcases hfetch : fetchDirective fmt args with ⟨d, fmt', args'⟩
      have hstep := emit_spec (Nat.pos_of_ne_zero hroom) d
      rcases hemit : emit room d with ⟨units, stop⟩
      rw [hemit] at hstep
      simp only at hstep ⊢
      cases stop with
      | some stop =>
        refine ⟨units, stop, by rw [hemit], hstep.inside, fun h ↦ hstep.fits (congrArg some h), ?_⟩
        rw [← Option.some_inj, hstep.overread]
        by_cases hbad : some stop = some (some Stop.overread)
        · have hlong := hstep.overread.mp hbad
          have hgoes : d.goesOn = true := by
            cases d <;> first | rfl | exact hlong.1.elim
          rw [if_pos hgoes, longReached_cons]
          exact iff_of_true hlong (.inl hlong)
        · rw [if_neg (by rw [hstep.ended nofun hbad]; exact nofun)]
          exact iff_of_false (fun h ↦ hbad (hstep.overread.mpr h)) (not_longReached_nil room)
      | none =>
        have hlen : fmt'.length < fuel := by
          cases fmt with
          | nil =>
            obtain ⟨rfl, -⟩ := Prod.mk.inj hfetch
            cases hemit
          | cons c fmt =>
            have hshort := fetchDirective_shorter c fmt args
            rw [hfetch] at hshort
            exact hshort.trans_le (Nat.lt_succ_iff.mp hfuel)
        obtain ⟨next, stop, hrun, hinside, hfits, hover⟩ := ih hlen (room - units.length) args'
        have hhere : ¬(d.Long ∧ tmpSize < room) := by
          rw [← hstep.overread]
          exact nofun
        have hunits := hstep.inside
        refine ⟨units ++ next, stop, by simp only [hemit, hrun, Option.map_some], ?_, hfits,
          hover.trans ?_⟩
        · rw [List.length_append]
          omega
        · cases hgoes : d.goesOn with
          | true =>
            have hfilled := hstep.filled rfl hgoes
            have hleft : room - units.length = room - d.width := by omega
            rw [if_pos rfl, longReached_cons, or_iff_right hhere, hleft]
          | false =>
            have hfull := hstep.full rfl hgoes
            rw [if_neg Bool.false_ne_true, hfull, Nat.sub_self]
            refine iff_of_false ?_ (not_longReached_nil room)
            rintro ⟨before, d, behind, -, -, hlt⟩
            exact Nat.not_lt_zero _ hlt

theorem longReached_iff (ds : List Directive) (room : ℕ) :
    ¬LongReached ds room ↔ ∀ before bits q behind,
      ds = before ++ .convert (.fixed bits) :: behind → val64 bits = .finite q →
        10 ^ 57 ≤ q ∨ q ≤ -10 ^ 56 → room ≤ (before.map Directive.width).sum + 64 := by
  constructor
  · intro h before bits q behind hds hq hlong
    by_contra hroom
    exact h ⟨before, _, behind, hds, ⟨q, hq, hlong⟩, not_le.mp hroom⟩
  · rintro h ⟨before, d, behind, hds, hlong, hroom⟩
    cases d with
    | convert c =>
      cases c with
      | fixed bits =>
        obtain ⟨q, hq, hlarge⟩ := hlong
        exact hroom.not_ge (h before bits q behind hds hq hlarge)
      | _ => exact hlong.elim
    | _ => exact hlong.elim

/-- The output stays within the buffer and the conversions within theirs in every call, and `tmp`
is read no further than it was written unless a long `%f` has the room for it. -/
theorem uvszprintf_iff (outSize : Int32) (fmt : List UInt16) (args : List VaArg) :
    (∀ (c : SpecCase) tmp size, c.run = some (tmp, size) → tmp.length ≤ 64) ∧
    ∃ printed, uvszprintf outSize fmt args = some printed ∧
      printed.written.length ≤ outSize.toNatClampNeg ∧ printed.result ≠ .inr .overrun ∧
        (printed.result ≠ .inr .overread ↔ ∀ before bits q behind,
          directives (fmt.length + 1) fmt args = before ++ .convert (.fixed bits) :: behind →
            val64 bits = .finite q → 10 ^ 57 ≤ q ∨ q ≤ -10 ^ 56 →
              outSize.toNatClampNeg - 1 ≤ (before.map Directive.width).sum + 64) := by
  constructor
  · intro c tmp size hrun
    obtain ⟨tmp', n, h⟩ := c.leaves
    obtain ⟨rfl, -⟩ := Prod.mk.inj (Option.some.inj (h.run.symm.trans hrun))
    exact h.inside
  · by_cases hout : outSize ≤ 0
    · have hzero : outSize.toNatClampNeg = 0 :=
        Int.toNat_of_nonpos (Int32.le_iff_toInt_le.mp hout)
      refine ⟨⟨[], .inl 0⟩, if_pos hout, Nat.zero_le _, nofun, iff_of_true nofun ?_⟩
      intro before bits q behind _ _ _
      rw [hzero]
      exact Nat.zero_le _
    · obtain ⟨units, stop, hrun, hinside, hfits, hover⟩ :=
        uvszprintfLoop_spec (Nat.lt_succ_self fmt.length) (outSize.toNatClampNeg - 1) args
      have hpos : 0 < outSize.toNatClampNeg := by
        rw [Int32.le_iff_toInt_le, not_le] at hout
        exact Int.lt_toNat.mpr hout
      rw [← longReached_iff, ← hover, uvszprintf, if_neg hout, hrun]
      cases stop with
      | none =>
        refine ⟨_, rfl, ?_, nofun, iff_of_true nofun nofun⟩
        rw [List.length_append, List.length_singleton]
        omega
      | some stop =>
        refine ⟨_, rfl, hinside.trans (Nat.sub_le _ _), ?_, ?_⟩
        · intro h
          exact hfits (congrArg some (Sum.inr.inj h))
        · rw [ne_eq, Sum.inr.injEq, Option.some_inj]

/-- The text of 1e300 has 308 bytes, of which `tmp` holds 64. -/
theorem uvszprintf_overread :
    (uvszprintf 1000 [0x25, 0x66, 0] [.double 0x7e37e43c8800759c]).map Printed.result =
      some (.inr .overread) := by
  decide +kernel

end Runs

end JelloVM
