import Mathlib

/-! Binary floating point formats, their numbers read as rationals. -/

namespace Ieee

inductive Datum
  | nan
  | inf (neg : Bool)
  | finite (q : ℚ)
  deriving DecidableEq

namespace Datum

def isFinite : Datum → Bool
  | .finite _ => true
  | _ => false

def lt : Datum → Datum → Bool
  | .finite a, .finite b => a < b
  | .finite _, .inf neg => !neg
  | .inf neg, .finite _ => neg
  | .inf a, .inf b => a && !b
  | _, _ => false

def Le (a b : Datum) : Prop := a ≠ .nan ∧ b ≠ .nan ∧ b.lt a = false

def eq : Datum → Datum → Bool
  | .finite a, .finite b => a = b
  | .inf a, .inf b => a == b
  | _, _ => false

def neg : Datum → Datum
  | .nan => .nan
  | .inf b => .inf (!b)
  | .finite q => .finite (-q)

end Datum

section Trunc

/-- The integer next to a number on the side of 0. -/
def trunc (q : ℚ) : ℤ := if 0 ≤ q then ⌊q⌋ else ⌈q⌉

theorem trunc_neg (q : ℚ) : trunc (-q) = -trunc q := by
  rcases lt_trichotomy q 0 with h | rfl | h
  · rw [trunc, if_pos (by linarith), trunc, if_neg (by linarith), Int.floor_neg]
  · rfl
  · rw [trunc, if_neg (by linarith), trunc, if_pos h.le, Int.ceil_neg]

@[simp] theorem trunc_intCast (n : ℤ) : trunc n = n := by
  rw [trunc, Int.floor_intCast, Int.ceil_intCast, ite_self]

theorem trunc_le {q : ℚ} {n : ℤ} (h : q ≤ n) : trunc q ≤ n := by
  rw [trunc]
  split_ifs with hq
  · exact_mod_cast (Int.floor_le q).trans h
  · exact Int.ceil_le.mpr h

theorem le_trunc {q : ℚ} {n : ℤ} (h : (n : ℚ) ≤ q) : n ≤ trunc q := by
  rw [trunc]
  split_ifs with hq
  · exact Int.le_floor.mpr h
  · exact_mod_cast h.trans (Int.le_ceil q)

theorem trunc_lt {q : ℚ} {n : ℤ} (hn : 0 < n) (h : q < n) : trunc q < n := by
  rw [trunc]
  split_ifs with hq
  · exact Int.floor_lt.mpr h
  · have hneg : ⌈q⌉ ≤ 0 := Int.ceil_le.mpr (by exact_mod_cast (not_le.mp hq).le)
    omega

theorem trunc_eq_zero {q : ℚ} (hlo : -1 < q) (hhi : q < 1) : trunc q = 0 := by
  have hup := trunc_lt (q := q) (n := 1) one_pos (by exact_mod_cast hhi)
  have hdown := trunc_lt (q := -q) (n := 1) one_pos (by push_cast; linarith)
  rw [trunc_neg] at hdown
  omega

end Trunc

/-- The widths of the two fields below the sign. -/
structure Format where
  mant : ℕ
  expo : ℕ

def f16 : Format := ⟨10, 5⟩

def f32 : Format := ⟨23, 8⟩

def f64 : Format := ⟨52, 11⟩

namespace Format

variable (F : Format)

def bias : ℕ := 2 ^ (F.expo - 1) - 1

def mantissa (bits : ℕ) : ℕ := bits % 2 ^ F.mant

def exponent (bits : ℕ) : ℕ := bits / 2 ^ F.mant % 2 ^ F.expo

def negative (bits : ℕ) : Bool := bits / 2 ^ F.mant / 2 ^ F.expo % 2 = 1

/-- The number without its sign; the exponent 0 is that of the subnormal numbers. -/
def magnitude (e m : ℕ) : ℚ :=
  if e = 0 then m * 2 ^ (1 - F.bias - F.mant : ℤ)
  else (2 ^ F.mant + m) * 2 ^ (e - F.bias - F.mant : ℤ)

def signed (neg : Bool) (q : ℚ) : ℚ := if neg then -q else q

def decode (bits : ℕ) : Datum :=
  if F.exponent bits = 2 ^ F.expo - 1 then
    if F.mantissa bits = 0 then .inf (F.negative bits) else .nan
  else .finite (signed (F.negative bits) (F.magnitude (F.exponent bits) (F.mantissa bits)))

def pack (neg : Bool) (e m : ℕ) : ℕ := ((if neg then 2 ^ F.expo else 0) + e) * 2 ^ F.mant + m

/-- The number without the part behind the point. -/
def truncBits (bits : ℕ) : ℕ :=
  let e := F.exponent bits
  if F.bias + F.mant ≤ e then bits
  else if e < F.bias then F.pack (F.negative bits) 0 0
  else
    let unit := 2 ^ (F.bias + F.mant - e)
    F.pack (F.negative bits) e (F.mantissa bits / unit * unit)

/-- The same number in a format with more bits, where every number is a normal one. -/
def widen (G : Format) (bits : ℕ) : ℕ :=
  let e := F.exponent bits
  let m := F.mantissa bits
  if e = 2 ^ F.expo - 1 then
    G.pack (F.negative bits) (2 ^ G.expo - 1) (m * 2 ^ (G.mant - F.mant))
  else if e = 0 then
    if m = 0 then G.pack (F.negative bits) 0 0
    else
      let k := Nat.log2 m
      G.pack (F.negative bits) (G.bias + 1 + k - F.bias - F.mant) ((m - 2 ^ k) * 2 ^ (G.mant - k))
  else G.pack (F.negative bits) (G.bias + e - F.bias) (m * 2 ^ (G.mant - F.mant))

end Format

section Fields

variable (F : Format) {neg : Bool} {e m : ℕ}

theorem mantissa_pack (hm : m < 2 ^ F.mant) : F.mantissa (F.pack neg e m) = m := by
  rw [Format.mantissa, Format.pack, Nat.add_comm, Nat.add_mul_mod_self_right, Nat.mod_eq_of_lt hm]

theorem pack_div (hm : m < 2 ^ F.mant) :
    F.pack neg e m / 2 ^ F.mant = (if neg then 2 ^ F.expo else 0) + e := by
  rw [Format.pack, Nat.add_comm, Nat.add_mul_div_right _ _ (Nat.two_pow_pos _),
    Nat.div_eq_of_lt hm, Nat.zero_add]

theorem exponent_pack (hm : m < 2 ^ F.mant) (he : e < 2 ^ F.expo) :
    F.exponent (F.pack neg e m) = e := by
  rw [Format.exponent, pack_div F hm]
  cases neg
  · rw [if_neg (by decide), Nat.zero_add, Nat.mod_eq_of_lt he]
  · rw [if_pos rfl, Nat.add_mod_left, Nat.mod_eq_of_lt he]

theorem negative_pack (hm : m < 2 ^ F.mant) (he : e < 2 ^ F.expo) :
    F.negative (F.pack neg e m) = neg := by
  rw [Format.negative, pack_div F hm]
  cases neg
  · rw [if_neg (by decide), Nat.zero_add, Nat.div_eq_of_lt he]
    rfl
  · rw [if_pos rfl, Nat.add_div_left _ (Nat.two_pow_pos _), Nat.div_eq_of_lt he]
    rfl

theorem decode_pack (hm : m < 2 ^ F.mant) (he : e < 2 ^ F.expo - 1) :
    F.decode (F.pack neg e m) = .finite (Format.signed neg (F.magnitude e m)) := by
  have he' : e < 2 ^ F.expo := by omega
  rw [Format.decode, exponent_pack F hm he', if_neg (by omega), negative_pack F hm he',
    mantissa_pack F hm]

theorem mantissa_lt (bits : ℕ) : F.mantissa bits < 2 ^ F.mant := Nat.mod_lt _ (Nat.two_pow_pos _)

theorem exponent_lt (bits : ℕ) : F.exponent bits < 2 ^ F.expo := Nat.mod_lt _ (Nat.two_pow_pos _)

end Fields

section Truncation

variable (F : Format) {e m : ℕ}

theorem signed_trunc (neg : Bool) (q : ℚ) :
    ((trunc (Format.signed neg q) : ℤ) : ℚ) = Format.signed neg (trunc q : ℤ) := by
  cases neg
  · rfl
  · rw [Format.signed, if_pos rfl, trunc_neg, Format.signed, if_pos rfl, Int.cast_neg]

theorem two_zpow_pos (k : ℤ) : (0 : ℚ) < 2 ^ k := zpow_pos two_pos k

theorem trunc_magnitude_large (hb : 0 < F.bias) (he : F.bias + F.mant ≤ e) :
    ((trunc (F.magnitude e m) : ℤ) : ℚ) = F.magnitude e m := by
  obtain ⟨d, rfl⟩ := Nat.exists_eq_add_of_le he
  have hint : F.magnitude (F.bias + F.mant + d) m = (((2 ^ F.mant + m) * 2 ^ d : ℕ) : ℤ) := by
    have hexp : ((F.bias + F.mant + d : ℕ) : ℤ) - F.bias - F.mant = (d : ℤ) := by
      push_cast
      ring
    rw [Format.magnitude, if_neg (by omega), hexp, zpow_natCast]
    push_cast
    ring
  rw [hint, trunc_intCast]

theorem magnitude_nonneg (e m : ℕ) : 0 ≤ F.magnitude e m := by
  rw [Format.magnitude]
  split_ifs
  · exact mul_nonneg (Nat.cast_nonneg m) (two_zpow_pos _).le
  · exact mul_nonneg (by positivity) (two_zpow_pos _).le

theorem magnitude_lt_one (hm : m < 2 ^ F.mant) (he : e < F.bias) : F.magnitude e m < 1 := by
  have hmq : (m : ℚ) < 2 ^ (F.mant : ℤ) := by
    rw [zpow_natCast]
    exact_mod_cast hm
  rw [Format.magnitude]
  split_ifs with h0
  · calc (m : ℚ) * 2 ^ (1 - F.bias - F.mant : ℤ)
        < 2 ^ (F.mant : ℤ) * 2 ^ (1 - F.bias - F.mant : ℤ) :=
          mul_lt_mul_of_pos_right hmq (two_zpow_pos _)
      _ = 2 ^ (1 - F.bias : ℤ) := by
          rw [← zpow_add₀ two_ne_zero]
          congr 1
          ring
      _ ≤ 1 := zpow_le_one_of_nonpos₀ one_le_two (by omega)
  · calc ((2 : ℚ) ^ F.mant + m) * 2 ^ (e - F.bias - F.mant : ℤ)
        < (2 ^ (F.mant : ℤ) + 2 ^ (F.mant : ℤ)) * 2 ^ (e - F.bias - F.mant : ℤ) := by
          rw [← zpow_natCast]
          exact mul_lt_mul_of_pos_right (by linarith) (two_zpow_pos _)
      _ = 2 ^ (1 + e - F.bias : ℤ) := by
          rw [← two_mul, ← zpow_one_add₀ two_ne_zero, ← zpow_add₀ two_ne_zero]
          congr 1
          ring
      _ ≤ 1 := zpow_le_one_of_nonpos₀ one_le_two (by omega)

theorem decode_small {bits : ℕ} (he : F.exponent bits < F.bias) (hmax : F.bias < 2 ^ F.expo) :
    ∃ q, F.decode bits = .finite q ∧ trunc q = 0 := by
  have hlt := magnitude_lt_one F (mantissa_lt F bits) he
  have hge := magnitude_nonneg F (F.exponent bits) (F.mantissa bits)
  refine ⟨_, if_neg (by omega), ?_⟩
  rw [Format.signed]
  split_ifs
  · exact trunc_eq_zero (by linarith) (by linarith)
  · exact trunc_eq_zero (by linarith) hlt

theorem trunc_magnitude_middle (hb : 0 < F.bias) (hlo : F.bias ≤ e) (hhi : e < F.bias + F.mant) :
    ((trunc (F.magnitude e m) : ℤ) : ℚ) =
      F.magnitude e (m / 2 ^ (F.bias + F.mant - e) * 2 ^ (F.bias + F.mant - e)) := by
  obtain ⟨k, hk⟩ : ∃ k, F.bias + F.mant - e = k := ⟨_, rfl⟩
  obtain ⟨j, hj⟩ : ∃ j, F.mant = j + k := ⟨F.mant - k, by omega⟩
  have hexp : (e : ℤ) - F.bias - F.mant = -(k : ℤ) := by omega
  have hdiv := Nat.div_add_mod m (2 ^ k)
  have hrest := Nat.mod_lt m (Nat.two_pow_pos k)
  have hpos : (0 : ℚ) < 2 ^ k := by positivity
  rw [hk, Format.magnitude, if_neg (by omega), Format.magnitude, if_neg (by omega), hexp,
    zpow_neg, zpow_natCast, hj, pow_add]
  generalize m / 2 ^ k = a at *
  generalize m % 2 ^ k = r at *
  have hmq : (m : ℚ) = 2 ^ k * a + r := by exact_mod_cast hdiv.symm
  have hrq : (r : ℚ) < 2 ^ k := by exact_mod_cast hrest
  have hfloor : trunc ((2 ^ j * 2 ^ k + (m : ℚ)) * (2 ^ k)⁻¹) = ((2 ^ j + a : ℕ) : ℤ) := by
    have hval : (2 ^ j * 2 ^ k + (m : ℚ)) * (2 ^ k)⁻¹ = 2 ^ j + a + r / 2 ^ k := by
      rw [hmq]
      field_simp
      ring
    have hfrac : (r : ℚ) / 2 ^ k < 1 := (div_lt_one hpos).mpr hrq
    have hfrac' : (0 : ℚ) ≤ r / 2 ^ k := by positivity
    rw [hval, trunc, if_pos (by positivity), Int.floor_eq_iff]
    push_cast
    constructor <;> linarith
  rw [hfloor]
  push_cast
  field_simp

/-- `truncBits` takes a number to its integer part. -/
theorem decode_truncBits (hb : 0 < F.bias) (hmax : F.bias + F.mant < 2 ^ F.expo - 1) {bits : ℕ}
    {q : ℚ} (hq : F.decode bits = .finite q) : F.decode (F.truncBits bits) = .finite (trunc q) := by
  have hm := mantissa_lt F bits
  have he := exponent_lt F bits
  have hfin : F.exponent bits ≠ 2 ^ F.expo - 1 := by
    intro h
    rw [Format.decode, if_pos h] at hq
    split_ifs at hq
  have hq' := hq
  rw [Format.decode, if_neg hfin, Datum.finite.injEq] at hq'
  subst hq'
  rw [Format.truncBits]
  split_ifs with hlarge hsmall
  · rw [hq, signed_trunc, trunc_magnitude_large F hb hlarge]
  · have hlt := magnitude_lt_one F hm hsmall
    have hzero : trunc (F.magnitude (F.exponent bits) (F.mantissa bits)) = 0 :=
      trunc_eq_zero (by linarith [magnitude_nonneg F (F.exponent bits) (F.mantissa bits)]) hlt
    rw [decode_pack F (Nat.two_pow_pos _) (by omega), signed_trunc, hzero]
    simp [Format.magnitude]
  · have hle : F.mantissa bits / 2 ^ (F.bias + F.mant - F.exponent bits) *
        2 ^ (F.bias + F.mant - F.exponent bits) ≤ F.mantissa bits := Nat.div_mul_le_self _ _
    rw [decode_pack F (by omega) (by omega), signed_trunc,
      trunc_magnitude_middle F hb (by omega) (by omega)]

end Truncation

section Powers

variable (F : Format) {e m : ℕ}

theorem magnitude_succ (he : e ≠ 0) : F.magnitude (e + 1) m = 2 * F.magnitude e m := by
  have hexp : ((e + 1 : ℕ) : ℤ) - F.bias - F.mant = (e - F.bias - F.mant) + 1 := by
    push_cast
    ring
  rw [Format.magnitude, if_neg (Nat.succ_ne_zero e), Format.magnitude, if_neg he, hexp,
    zpow_add₀ two_ne_zero, zpow_one]
  ring

theorem fields_of_two_pow (hb : 0 < F.bias) {bits k : ℕ} (h : F.decode bits = .finite (2 ^ k)) :
    F.negative bits = false ∧ F.exponent bits = F.bias + k ∧ F.mantissa bits = 0 := by
  have hm := mantissa_lt F bits
  have hpow : (1 : ℚ) ≤ 2 ^ k := one_le_pow₀ one_le_two
  have hnonneg := magnitude_nonneg F (F.exponent bits) (F.mantissa bits)
  rw [Format.decode] at h
  by_cases hmax : F.exponent bits = 2 ^ F.expo - 1
  · rw [if_pos hmax] at h
    split_ifs at h
  rw [if_neg hmax, Datum.finite.injEq, Format.signed] at h
  cases hneg : F.negative bits with
  | true =>
    rw [hneg, if_pos rfl] at h
    linarith
  | false =>
    rw [hneg, if_neg Bool.false_ne_true] at h
    have hlarge : F.bias ≤ F.exponent bits := by
      by_contra hlt
      have hone := magnitude_lt_one F hm (not_le.mp hlt)
      linarith
    obtain ⟨d, hd⟩ := Nat.exists_eq_add_of_le hlarge
    have hexp : ((F.bias + d : ℕ) : ℤ) - F.bias - F.mant = d + -(F.mant : ℤ) := by
      push_cast
      ring
    rw [hd, Format.magnitude, if_neg (by omega), hexp, zpow_add₀ two_ne_zero, zpow_neg,
      zpow_natCast, zpow_natCast] at h
    generalize F.mantissa bits = m at *
    have hnat : (2 ^ F.mant + m) * 2 ^ d = 2 ^ (F.mant + k) := by
      have hpos : (2 : ℚ) ^ F.mant ≠ 0 := by positivity
      have hq : ((2 : ℚ) ^ F.mant + m) * 2 ^ d = 2 ^ (F.mant + k) := by
        rw [pow_add, ← h]
        field_simp
      exact_mod_cast hq
    have hlo : 2 ^ (F.mant + d) ≤ 2 ^ (F.mant + k) := by
      rw [← hnat, pow_add]
      exact Nat.mul_le_mul_right _ (Nat.le_add_right _ _)
    have hhi : 2 ^ (F.mant + k) < 2 ^ (F.mant + d + 1) := by
      calc 2 ^ (F.mant + k) = (2 ^ F.mant + m) * 2 ^ d := hnat.symm
        _ < (2 ^ F.mant + 2 ^ F.mant) * 2 ^ d :=
          Nat.mul_lt_mul_of_pos_right (by omega) (Nat.two_pow_pos d)
        _ = 2 ^ (F.mant + d + 1) := by ring
    have hle := (Nat.pow_le_pow_iff_right (by norm_num)).mp hlo
    have hlt := (Nat.pow_lt_pow_iff_right (by norm_num)).mp hhi
    obtain rfl : d = k := by omega
    refine ⟨rfl, hd, ?_⟩
    rw [pow_add] at hnat
    have hsame := Nat.eq_of_mul_eq_mul_right (Nat.two_pow_pos d) hnat
    omega

end Powers

section Order

variable (F : Format)

/-- The number of a pattern without its sign, read on past the last one of the format. -/
def Format.valueAt (n : ℕ) : ℚ := F.magnitude (n / 2 ^ F.mant) (n % 2 ^ F.mant)

def Format.low (bits : ℕ) : ℕ := bits % (2 ^ F.mant * 2 ^ F.expo)

def Format.top : ℕ := 2 ^ F.mant * (2 ^ F.expo - 1)

theorem magnitude_lt_succ (e m : ℕ) : F.magnitude e m < F.magnitude e (m + 1) := by
  rw [Format.magnitude, Format.magnitude]
  split_ifs
  · exact mul_lt_mul_of_pos_right (by push_cast; linarith) (two_zpow_pos _)
  · exact mul_lt_mul_of_pos_right (by push_cast; linarith) (two_zpow_pos _)

theorem magnitude_carry (e : ℕ) : F.magnitude e (2 ^ F.mant) = F.magnitude (e + 1) 0 := by
  rw [Format.magnitude, Format.magnitude, if_neg (Nat.succ_ne_zero e)]
  split_ifs with h0
  · rw [h0]
    push_cast
    ring_nf
  · have hexp : ((e + 1 : ℕ) : ℤ) - F.bias - F.mant = (e - F.bias - F.mant) + 1 := by
      push_cast
      ring
    rw [hexp, zpow_add₀ two_ne_zero, zpow_one]
    push_cast
    ring

theorem valueAt_lt_succ (n : ℕ) : F.valueAt n < F.valueAt (n + 1) := by
  have hpos := Nat.two_pow_pos F.mant
  have hsplit := Nat.div_add_mod n (2 ^ F.mant)
  have hmod := Nat.mod_lt n hpos
  have hstep := magnitude_lt_succ F (n / 2 ^ F.mant) (n % 2 ^ F.mant)
  rw [Format.valueAt, Format.valueAt]
  generalize n / 2 ^ F.mant = e at *
  generalize n % 2 ^ F.mant = m at *
  rw [← hsplit]
  obtain hlt | heq := Nat.lt_or_eq_of_le (Nat.succ_le_of_lt hmod)
  · rw [Nat.add_assoc, Nat.mul_add_div hpos, Nat.div_eq_of_lt hlt, Nat.mul_add_mod,
      Nat.mod_eq_of_lt hlt]
    exact hstep
  · rw [Nat.add_assoc, show m + 1 = 2 ^ F.mant from heq, ← Nat.mul_succ,
      Nat.mul_div_cancel_left _ hpos, Nat.mul_mod_right, ← magnitude_carry, ← heq]
    exact hstep

theorem valueAt_strictMono : StrictMono F.valueAt := strictMono_nat_of_lt_succ (valueAt_lt_succ F)

theorem valueAt_nonneg (n : ℕ) : 0 ≤ F.valueAt n := magnitude_nonneg F _ _

@[simp] theorem valueAt_zero : F.valueAt 0 = 0 := by simp [Format.valueAt, Format.magnitude]

theorem decode_eq_finite_iff {bits : ℕ} {q : ℚ} : F.decode bits = .finite q ↔
    F.low bits < F.top ∧ q = Format.signed (F.negative bits) (F.valueAt (F.low bits)) := by
  have hpos := Nat.two_pow_pos F.mant
  have he := exponent_lt F bits
  have hdiv : F.low bits / 2 ^ F.mant = F.exponent bits := Nat.mod_mul_right_div_self _ _ _
  have hmod : F.low bits % 2 ^ F.mant = F.mantissa bits := Nat.mod_mul_right_mod _ _ _
  have hbelow : F.low bits < F.top ↔ F.exponent bits ≠ 2 ^ F.expo - 1 := by
    rw [Format.top, Nat.mul_comm, ← Nat.div_lt_iff_lt_mul hpos, hdiv]
    omega
  rw [hbelow, Format.valueAt, hdiv, hmod, Format.decode]
  split_ifs with hmax hm
  · simp [hmax]
  · simp [hmax]
  · simp [hmax, eq_comm]

theorem decode_of_low_eq_top {bits : ℕ} (h : F.low bits = F.top) :
    F.decode bits = .inf (F.negative bits) := by
  have hpos := Nat.two_pow_pos F.mant
  have hdiv : F.low bits / 2 ^ F.mant = F.exponent bits := Nat.mod_mul_right_div_self _ _ _
  have hmod : F.low bits % 2 ^ F.mant = F.mantissa bits := Nat.mod_mul_right_mod _ _ _
  rw [h, Format.top, Nat.mul_div_cancel_left _ hpos] at hdiv
  rw [h, Format.top, Nat.mul_mod_right] at hmod
  rw [Format.decode, if_pos hdiv.symm, if_pos hmod.symm]

/-- The number or the infinity of a pattern without its sign -/
def Format.datumAt (s : Bool) (n : ℕ) : Datum :=
  if n = F.top then .inf s else .finite (Format.signed s (F.valueAt n))

theorem decode_eq_datumAt {bits : ℕ} (h : F.low bits ≤ F.top) :
    F.decode bits = F.datumAt (F.negative bits) (F.low bits) := by
  rw [Format.datumAt]
  split_ifs with htop
  · exact decode_of_low_eq_top F htop
  · exact (decode_eq_finite_iff F).mpr ⟨lt_of_le_of_ne h htop, rfl⟩

theorem datumAt_le {m n : ℕ} (hmn : m ≤ n) (hn : n ≤ F.top) :
    (F.datumAt false m).Le (F.datumAt false n) ∧ (F.datumAt true n).Le (F.datumAt true m) := by
  have hval := (valueAt_strictMono F).monotone hmn
  simp only [Format.datumAt, Datum.Le]
  split_ifs <;> simp [Datum.lt, Format.signed] <;> first | linarith | omega

theorem datumAt_le_of_signs (m n : ℕ) : (F.datumAt true m).Le (F.datumAt false n) := by
  have hm := valueAt_nonneg F m
  have hn := valueAt_nonneg F n
  simp only [Format.datumAt, Datum.Le]
  split_ifs <;> simp [Datum.lt, Format.signed]
  linarith

end Order

section Widening

/-- Every number of `F` is a normal number of `G`. -/
structure Wider (F G : Format) : Prop where
  mant : F.mant ≤ G.mant
  bias : F.bias + F.mant ≤ G.bias
  expo : G.bias + 2 ^ F.expo ≤ 2 ^ G.expo
  some : 0 < F.bias

variable {F G : Format} {e m : ℕ}

theorem magnitude_normal (h : Wider F G) (he : e ≠ 0) :
    G.magnitude (G.bias + e - F.bias) (m * 2 ^ (G.mant - F.mant)) = F.magnitude e m := by
  obtain ⟨d, hd⟩ := Nat.exists_eq_add_of_le h.mant
  have hbias := h.bias
  have hexp : ((G.bias + e - F.bias : ℕ) : ℤ) - G.bias - G.mant =
      (e - F.bias - F.mant) + -(d : ℤ) := by
    omega
  rw [Format.magnitude, if_neg (by omega), Format.magnitude, if_neg he, hexp,
    zpow_add₀ two_ne_zero, zpow_neg, zpow_natCast, hd, Nat.add_sub_cancel_left, pow_add]
  have hpos : (2 : ℚ) ^ d ≠ 0 := by positivity
  push_cast
  field_simp

theorem magnitude_subnormal (h : Wider F G) (hm : m ≠ 0) (hlt : m < 2 ^ F.mant) :
    G.magnitude (G.bias + 1 + Nat.log2 m - F.bias - F.mant)
      ((m - 2 ^ Nat.log2 m) * 2 ^ (G.mant - Nat.log2 m)) = F.magnitude 0 m := by
  have hmant := h.mant
  have hbias := h.bias
  have hk : Nat.log2 m < F.mant := (Nat.log2_lt hm).mpr hlt
  have hself : 2 ^ Nat.log2 m ≤ m := Nat.log2_self_le hm
  obtain ⟨r, hr⟩ := Nat.exists_eq_add_of_le hself
  obtain ⟨d, hd⟩ : ∃ d, G.mant = Nat.log2 m + d := ⟨G.mant - Nat.log2 m, by omega⟩
  generalize Nat.log2 m = k at *
  have hexp : ((G.bias + 1 + k - F.bias - F.mant : ℕ) : ℤ) - G.bias - G.mant =
      (1 - F.bias - F.mant) + -(d : ℤ) := by
    omega
  rw [Format.magnitude, if_neg (by omega), Format.magnitude, if_pos rfl, hexp,
    zpow_add₀ two_ne_zero, zpow_neg, zpow_natCast, hd, Nat.add_sub_cancel_left, pow_add, hr,
    Nat.add_sub_cancel_left]
  have hpos : (2 : ℚ) ^ d ≠ 0 := by positivity
  push_cast
  field_simp

theorem decode_widen (h : Wider F G) (bits : ℕ) : G.decode (F.widen G bits) = F.decode bits := by
  have hm := mantissa_lt F bits
  have he := exponent_lt F bits
  have hmant := h.mant
  have hbias := h.bias
  have hexpo := h.expo
  have hsome := h.some
  have hwide : F.mantissa bits * 2 ^ (G.mant - F.mant) < 2 ^ G.mant := by
    calc F.mantissa bits * 2 ^ (G.mant - F.mant)
        < 2 ^ F.mant * 2 ^ (G.mant - F.mant) := Nat.mul_lt_mul_of_pos_right hm (Nat.two_pow_pos _)
      _ = 2 ^ G.mant := by rw [← pow_add, Nat.add_sub_cancel' hmant]
  rw [Format.widen]
  split_ifs with hmax hzero hm0
  · have hGe : 2 ^ G.expo - 1 < 2 ^ G.expo := by omega
    rw [Format.decode, exponent_pack G hwide hGe, if_pos rfl, mantissa_pack G hwide,
      negative_pack G hwide hGe, Format.decode, if_pos hmax]
    by_cases hinf : F.mantissa bits = 0
    · rw [hinf, Nat.zero_mul]
    · rw [if_neg hinf, if_neg (Nat.mul_ne_zero hinf (Nat.two_pow_pos _).ne')]
  · rw [decode_pack G (Nat.two_pow_pos _) (by omega), Format.decode, if_neg (by omega), hzero, hm0]
    simp [Format.magnitude]
  · have hk : Nat.log2 (F.mantissa bits) < F.mant := (Nat.log2_lt hm0).mpr hm
    have hbits : (F.mantissa bits - 2 ^ Nat.log2 (F.mantissa bits)) *
        2 ^ (G.mant - Nat.log2 (F.mantissa bits)) < 2 ^ G.mant := by
      have hup : F.mantissa bits < 2 ^ (Nat.log2 (F.mantissa bits) + 1) := Nat.lt_log2_self
      calc (F.mantissa bits - 2 ^ Nat.log2 (F.mantissa bits)) *
            2 ^ (G.mant - Nat.log2 (F.mantissa bits))
          < 2 ^ Nat.log2 (F.mantissa bits) * 2 ^ (G.mant - Nat.log2 (F.mantissa bits)) := by
            refine Nat.mul_lt_mul_of_pos_right ?_ (Nat.two_pow_pos _)
            rw [pow_succ] at hup
            omega
        _ = 2 ^ G.mant := by rw [← pow_add, Nat.add_sub_cancel' (by omega)]
    rw [decode_pack G hbits (by omega), magnitude_subnormal h hm0 hm, Format.decode,
      if_neg hmax, hzero]
  · rw [decode_pack G hwide (by omega), magnitude_normal h hzero, Format.decode, if_neg hmax]

end Widening

section Narrowing

variable {F G : Format}

theorem valueAt_widen (h : Wider F G) {n : ℕ} (hn : 2 ^ F.mant ≤ n) :
    G.valueAt (n * 2 ^ (G.mant - F.mant) + (G.bias - F.bias) * 2 ^ G.mant) = F.valueAt n := by
  have hbias := h.bias
  have hwidth : 2 ^ G.mant = 2 ^ F.mant * 2 ^ (G.mant - F.mant) := by
    rw [← pow_add, Nat.add_sub_cancel' h.mant]
  have he : n / 2 ^ F.mant ≠ 0 := (Nat.div_pos hn (Nat.two_pow_pos _)).ne'
  rw [Format.valueAt, Format.valueAt, Nat.add_mul_div_right _ _ (Nat.two_pow_pos _),
    Nat.add_mul_mod_self_right, hwidth, Nat.mul_div_mul_right _ _ (Nat.two_pow_pos _),
    Nat.mul_mod_mul_right, ← magnitude_normal h he]
  generalize n / 2 ^ F.mant = e
  congr 1
  omega

/-- The datum is a number of the format or an infinity, with no number of the format between it
and `q`. -/
def Format.Adjacent (F : Format) (d : Datum) (q : ℚ) : Prop :=
  d ≠ .nan ∧ ∀ bits r, F.decode bits = .finite r →
    ¬ (d.lt (.finite r) = true ∧ r < q) ∧ ¬ (q < r ∧ Datum.lt (.finite r) d = true)

def Format.Represents (F : Format) (q : ℚ) : Prop := ∃ bits, F.decode bits = .finite q

variable {n : ℕ} {q : ℚ}

theorem abs_signed (s : Bool) {v : ℚ} (hv : 0 ≤ v) : |Format.signed s v| = v := by
  cases s
  · exact abs_of_nonneg hv
  · exact (abs_neg v).trans (abs_of_nonneg hv)

/-- No number of the format has its distance from 0 strictly between two patterns that follow one
another. -/
theorem le_or_le_of_decode {bits : ℕ} {r : ℚ} (hr : F.decode bits = .finite r) (n : ℕ) :
    |r| ≤ F.valueAt n ∨ F.valueAt (n + 1) ≤ |r| := by
  obtain ⟨-, rfl⟩ := (decode_eq_finite_iff F).mp hr
  rw [abs_signed _ (valueAt_nonneg F _), (valueAt_strictMono F).le_iff_le,
    (valueAt_strictMono F).le_iff_le]
  omega

theorem adjacent_of_between (hlo : F.valueAt n ≤ q) (hhi : q < F.valueAt (n + 1)) (s : Bool) :
    F.Adjacent (.finite (Format.signed s (F.valueAt n))) (Format.signed s q) := by
  have hnonneg := valueAt_nonneg F n
  refine ⟨by simp, fun bits r hr ↦ ?_⟩
  have hgap := le_or_le_of_decode hr n
  simp only [Datum.lt, decide_eq_true_eq]
  cases s
  · constructor
    · rintro ⟨hlt, hle⟩
      change F.valueAt n < r at hlt
      change r < q at hle
      rw [abs_of_pos (hnonneg.trans_lt hlt)] at hgap
      rcases hgap with h | h <;> linarith
    · rintro ⟨hle, hlt⟩
      change q < r at hle
      change r < F.valueAt n at hlt
      linarith
  · constructor
    · rintro ⟨hlt, hle⟩
      change -F.valueAt n < r at hlt
      change r < -q at hle
      linarith
    · rintro ⟨hle, hlt⟩
      change -q < r at hle
      change r < -F.valueAt n at hlt
      rw [abs_of_neg (by linarith)] at hgap
      rcases hgap with h | h <;> linarith

theorem eq_of_represents (hlo : F.valueAt n ≤ q) (hhi : q < F.valueAt (n + 1)) (s : Bool)
    (hq : F.Represents (Format.signed s q)) : F.valueAt n = q := by
  obtain ⟨bits, hbits⟩ := hq
  have hgap := le_or_le_of_decode hbits n
  rw [abs_signed s ((valueAt_nonneg F n).trans hlo)] at hgap
  rcases hgap with h | h
  · exact le_antisymm hlo h
  · linarith

theorem adjacent_inf (hq : F.valueAt F.top ≤ q) (s : Bool) :
    F.Adjacent (.inf s) (Format.signed s q) := by
  have hbelow : ∀ bits r, F.decode bits = .finite r → |r| < q := by
    intro bits r hr
    obtain ⟨hlow, rfl⟩ := (decode_eq_finite_iff F).mp hr
    rw [abs_signed _ (valueAt_nonneg F _)]
    exact ((valueAt_strictMono F) hlow).trans_le hq
  refine ⟨by simp, fun bits r hr ↦ ?_⟩
  have habs := abs_lt.mp (hbelow bits r hr)
  cases s
  · simp only [Datum.lt, Format.signed, Bool.false_eq_true, if_false, false_and, not_false_eq_true,
      true_and, Bool.not_false, and_true]
    linarith
  · simp only [Datum.lt, Format.signed, if_true, Bool.not_true, Bool.false_eq_true, and_false,
      not_false_eq_true, and_true, true_and]
    linarith

theorem not_represents_of_top (hq : F.valueAt F.top ≤ q) (s : Bool) :
    ¬F.Represents (Format.signed s q) := by
  rintro ⟨bits, hbits⟩
  obtain ⟨hlow, heq⟩ := (decode_eq_finite_iff F).mp hbits
  have habs := congrArg abs heq
  rw [abs_signed s ((valueAt_nonneg F _).trans hq), abs_signed _ (valueAt_nonneg F _)] at habs
  have hlt := (valueAt_strictMono F) hlow
  linarith

end Narrowing

end Ieee
