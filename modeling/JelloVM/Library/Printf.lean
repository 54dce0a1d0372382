import JelloVM.Library.Ieee

/-! The texts of `%f` and `%g` without flags: six digits, halves to even. -/

namespace Printf

open Ieee

section Digits

def digitByte (d : ℕ) : UInt8 := UInt8.ofNat (48 + d)

/-- A natural number in decimal, the most significant digit first -/
def decimal (n : ℕ) : List UInt8 :=
  if n = 0 then [48] else (Nat.digits 10 n).reverse.map digitByte

/-- The last `k` digits -/
def padded : ℕ → ℕ → List UInt8
  | 0, _ => []
  | k + 1, n => padded k (n / 10) ++ [digitByte (n % 10)]

@[simp] theorem length_padded (k n : ℕ) : (padded k n).length = k := by
  induction k generalizing n with
  | zero => rfl
  | succ k ih => rw [padded, List.length_append, ih, List.length_singleton]

theorem length_decimal_le_iff {k : ℕ} (hk : 0 < k) (n : ℕ) :
    (decimal n).length ≤ k ↔ n < 10 ^ k := by
  unfold decimal
  split_ifs with h
  · subst h
    exact iff_of_true hk (Nat.pow_pos (by decide))
  · rw [List.length_map, List.length_reverse]
    exact Nat.digits_length_le_iff (by decide) n

end Digits

section Rounding

/-- The nearest integer; of two, the even one. -/
def roundEven (q : ℚ) : ℤ :=
  if q - ⌊q⌋ < 1 / 2 ∨ (q - ⌊q⌋ = 1 / 2 ∧ ⌊q⌋ % 2 = 0) then ⌊q⌋ else ⌊q⌋ + 1

@[simp] theorem roundEven_intCast (n : ℤ) : roundEven n = n := by
  rw [roundEven, Int.floor_intCast, sub_self, if_pos (.inl (by norm_num))]

theorem roundEven_le {q : ℚ} {n : ℤ} (h : q ≤ n) : roundEven q ≤ n := by
  rcases h.lt_or_eq with hlt | rfl
  · have hfloor : ⌊q⌋ < n := Int.floor_lt.mpr hlt
    unfold roundEven
    split_ifs <;> omega
  · rw [roundEven_intCast]

end Rounding

section Texts

def sign (neg : Bool) : List UInt8 := if neg then [45] else []

/-- `%f` of a magnitude with its sign -/
def fixed (neg : Bool) (q : ℚ) : List UInt8 :=
  let n := (roundEven (q * 10 ^ 6)).toNat
  sign neg ++ decimal (n / 10 ^ 6) ++ [46] ++ padded 6 n

/-- The decimal exponent and the six significant digits of a positive number -/
def significant (q : ℚ) : ℤ × ℕ :=
  let x := Int.log 10 q
  let n := (roundEven (q * 10 ^ (5 - x))).toNat
  if n = 10 ^ 6 then (x + 1, 10 ^ 5) else (x, n)

/-- Trailing zeros of the fraction go, and the point with the last of them. -/
def pointed (whole fraction : List UInt8) : List UInt8 :=
  let fraction := fraction.rdropWhile (· = 48)
  whole ++ if fraction = [] then [] else 46 :: fraction

def exponentText (x : ℤ) : List UInt8 :=
  101 :: (if x < 0 then 45 else 43) ::
    if x.natAbs < 100 then padded 2 x.natAbs else decimal x.natAbs

/-- `%g` of a magnitude with its sign: with an exponent below -4 and from 6 on -/
def general (neg : Bool) (q : ℚ) : List UInt8 :=
  if q = 0 then sign neg ++ [48]
  else
    let x := (significant q).1
    let digits := padded 6 (significant q).2
    sign neg ++
      if x < -4 ∨ 6 ≤ x then pointed (digits.take 1) (digits.drop 1) ++ exponentText x
      else if 0 ≤ x then pointed (digits.take (x.toNat + 1)) (digits.drop (x.toNat + 1))
      else pointed [48] (List.replicate (-x - 1).toNat 48 ++ digits)

/-- The text of a floating point datum whose sign bit is `neg` -/
def text (finite : Bool → ℚ → List UInt8) (neg : Bool) : Datum → List UInt8
  | .nan => sign neg ++ [110, 97, 110]
  | .inf _ => sign neg ++ [105, 110, 102]
  | .finite q => finite neg |q|

theorem length_sign (neg : Bool) : (sign neg).length = neg.toNat := by
  cases neg <;> rfl

theorem length_fixed (neg : Bool) (q : ℚ) : (fixed neg q).length =
    neg.toNat + (decimal ((roundEven (q * 10 ^ 6)).toNat / 10 ^ 6)).length + 7 := by
  simp only [fixed, List.length_append, length_sign, List.length_singleton, length_padded]

theorem length_pointed_le (whole fraction : List UInt8) :
    (pointed whole fraction).length ≤ whole.length + 1 + fraction.length := by
  have hdrop : (fraction.rdropWhile (· = 48)).length ≤ fraction.length :=
    (List.rdropWhile_prefix _ fraction).length_le
  unfold pointed
  rw [List.length_append]
  split_ifs
  · rw [List.length_nil]
    omega
  · rw [List.length_cons]
    omega

theorem length_exponentText_le {x : ℤ} (h : x.natAbs < 1000) : (exponentText x).length ≤ 5 := by
  have hdec := (length_decimal_le_iff (k := 3) (by decide) x.natAbs).mpr h
  unfold exponentText
  rw [List.length_cons, List.length_cons]
  split_ifs
  · rw [length_padded]
    decide
  · omega

/-- The texts of `%g` are short, as long as the exponent has three digits at most. -/
theorem length_general_le (neg : Bool) {q : ℚ} (h : (significant q).1.natAbs < 1000) :
    (general neg q).length ≤ 13 := by
  have hsign : (sign neg).length ≤ 1 := by
    rw [length_sign]
    exact neg.toNat_le
  have hexp := length_exponentText_le h
  unfold general
  split_ifs with h0
  · rw [List.length_append, List.length_singleton]
    omega
  · simp only
    rw [List.length_append]
    split_ifs
    · have hpoint := length_pointed_le ((padded 6 (significant q).2).take 1)
        ((padded 6 (significant q).2).drop 1)
      simp only [List.length_take, List.length_drop, length_padded] at hpoint
      rw [List.length_append]
      omega
    · have hpoint := length_pointed_le
        ((padded 6 (significant q).2).take ((significant q).1.toNat + 1))
        ((padded 6 (significant q).2).drop ((significant q).1.toNat + 1))
      simp only [List.length_take, List.length_drop, length_padded] at hpoint
      omega
    · have hpoint := length_pointed_le [48]
        (List.replicate (-(significant q).1 - 1).toNat 48 ++ padded 6 (significant q).2)
      simp only [List.length_singleton, List.length_append, List.length_replicate,
        length_padded] at hpoint
      omega

end Texts

end Printf
