import JelloVM.Libs.CBytes
import JelloVM.Library.Traced
import JelloVM.Library.Utf8

namespace JelloVM

open Traced Utf8

/-- Reads are noted by their index. -/
abbrev ByteM (α : Type) := Traced UInt32 α

def byteAt (s : CBytes) (i : UInt32) : ByteM UInt8 := readAt (fun j ↦ s.data j.toNat) i

def utf8LenTbl : List ℕ := [1, 1, 1, 1, 1, 1, 1, 1, 0, 0, 0, 0, 2, 2, 3, 4]

def utf8CharLen (b : UInt8) : ℕ := utf8LenTbl.getD (b >>> 4).toNat 0

def utf8ValidCp (cp : UInt32) : Bool := decide (cp ≤ 0x10FFFF) && (cp < 0xD800 || 0xDFFF < cp)

def isTail (b : UInt8) : Bool := b &&& 0xC0 == 0x80

section Sequences

variable (b0 b1 b2 b3 : UInt8)

/-- The branches of `utf8_decode_at` on the length of the sequence -/
def utf8Two : Option UInt32 :=
  if !isTail b1 then none
  else
    let c := (b0 &&& 0x1F).toUInt32 <<< 6 ||| (b1 &&& 0x3F).toUInt32
    if c < 0x80 then none else some c

def utf8Three : Option UInt32 :=
  if !isTail b1 || !isTail b2 then none
  else
    let c := (b0 &&& 0x0F).toUInt32 <<< 12 ||| (b1 &&& 0x3F).toUInt32 <<< 6 |||
      (b2 &&& 0x3F).toUInt32
    if c < 0x800 then none else some c

def utf8Four : Option UInt32 :=
  if !isTail b1 || !isTail b2 || !isTail b3 then none
  else
    let c := (b0 &&& 0x07).toUInt32 <<< 18 ||| (b1 &&& 0x3F).toUInt32 <<< 12 |||
      (b2 &&& 0x3F).toUInt32 <<< 6 ||| (b3 &&& 0x3F).toUInt32
    if c < 0x10000 then none else some c

end Sequences

def utf8Sequence (s : CBytes) (off : UInt32) (b0 : UInt8) (n : ℕ) : ByteM (Option UInt32) :=
  if n = 1 then pure (some b0.toUInt32)
  else if n = 2 then do
    let b1 ← byteAt s (off + 1)
    pure (utf8Two b0 b1)
  else if n = 3 then do
    let b1 ← byteAt s (off + 1)
    let b2 ← byteAt s (off + 2)
    pure (utf8Three b0 b1 b2)
  else do
    let b1 ← byteAt s (off + 1)
    let b2 ← byteAt s (off + 2)
    let b3 ← byteAt s (off + 3)
    pure (utf8Four b0 b1 b2 b3)

/-- The code point and the number of bytes, `none` for the return value 0. -/
def utf8DecodeAt (s : CBytes) (off : UInt32) : ByteM (Option (UInt32 × UInt32)) :=
  if s.len ≤ off then pure none
  else do
    let b0 ← byteAt s off
    let n := utf8CharLen b0
    if n = 0 ∨ s.len < off + UInt32.ofNat n then pure none
    else do
      let c ← utf8Sequence s off b0 n
      pure ((c.filter utf8ValidCp).map fun c ↦ (c, UInt32.ofNat n))

/-- The loop from `i` on; `none` when it takes more rounds than the fuel allows. -/
def utf8ValidateFrom (s : CBytes) : ℕ → UInt32 → ByteM (Option Bool)
  | 0, _ => pure none
  | fuel + 1, i =>
    if i < s.len then do
      match ← utf8DecodeAt s i with
      | none => pure (some false)
      | some (_, adv) => utf8ValidateFrom s fuel (i + adv)
    else pure (some true)

def utf8ValidateBytes (s : CBytes) (fuel : ℕ) : ByteM (Option Bool) := utf8ValidateFrom s fuel 0

/-- `(uint8_t)(mark | v)` -/
def leadOf (mark v : UInt32) : UInt8 := (mark ||| v).toUInt8

def tailOf (v : UInt32) : UInt8 := leadOf 0x80 (v &&& 0x3F)

def utf8Encode (cp cap : UInt32) : Option (List UInt8) :=
  if !utf8ValidCp cp then none
  else if cp < 0x80 then (if cap < 1 then none else some [cp.toUInt8])
  else if cp < 0x800 then
    if cap < 2 then none else some [leadOf 0xC0 (cp >>> 6), tailOf cp]
  else if cp < 0x10000 then
    if cap < 3 then none else some [leadOf 0xE0 (cp >>> 12), tailOf (cp >>> 6), tailOf cp]
  else if cap < 4 then none
  else some [leadOf 0xF0 (cp >>> 18), tailOf (cp >>> 12), tailOf (cp >>> 6), tailOf cp]

section Bits

theorem or_eq_add (a k : ℕ) {b : ℕ} (hb : b < 2 ^ k) : a <<< k ||| b = a * 2 ^ k + b := by
  rw [← Nat.shiftLeft_add_eq_or_of_lt hb, Nat.shiftLeft_eq]

theorem shifted_or (a k : ℕ) {b : ℕ} (hb : b < 64) :
    a <<< (6 + k) ||| b <<< k = (a * 64 + b) <<< k := by
  rw [Nat.shiftLeft_add, ← Nat.shiftLeft_or_distrib, or_eq_add a 6 hb]
  rfl

theorem utf8ValidCp_iff {c : UInt32} : utf8ValidCp c = true ↔ Scalar c.toNat := by
  simp only [utf8ValidCp, Scalar, Bool.and_eq_true, Bool.or_eq_true, decide_eq_true_eq,
    UInt32.le_iff_toNat_le, UInt32.lt_iff_toNat_lt, UInt32.reduceToNat]
  omega

theorem isTail_iff {b : UInt8} : isTail b = true ↔ Tail b := by
  have hall : ∀ i : Fin 256, (isTail (UInt8.ofNat i) = true ↔ Tail (UInt8.ofNat i)) := by
    unfold isTail Tail
    decide +kernel
  have h := hall ⟨b.toNat, b.toNat_lt⟩
  rwa [UInt8.ofNat_toNat] at h

theorem utf8CharLen_eq (b : UInt8) : utf8CharLen b =
    if b.toNat < 128 then 1 else if b.toNat < 192 then 0 else if b.toNat < 224 then 2
    else if b.toNat < 240 then 3 else 4 := by
  have hall : ∀ i : Fin 256, utf8CharLen (UInt8.ofNat i) =
      if (i : ℕ) < 128 then 1 else if (i : ℕ) < 192 then 0 else if (i : ℕ) < 224 then 2
      else if (i : ℕ) < 240 then 3 else 4 := by decide +kernel
  have h := hall ⟨b.toNat, b.toNat_lt⟩
  rwa [UInt8.ofNat_toNat] at h

theorem utf8CharLen_le (b : UInt8) : utf8CharLen b ≤ 4 := by
  rw [utf8CharLen_eq]
  split_ifs <;> omega

theorem toNat_masked (b m : UInt8) {k : ℕ} (hm : m.toNat = 2 ^ k - 1) :
    ((b &&& m).toUInt32).toNat = b.toNat % 2 ^ k := by
  rw [UInt8.toNat_toUInt32, UInt8.toNat_and, hm, Nat.and_two_pow_sub_one_eq_mod]

theorem toNat_masked_shift (b m : UInt8) {k : ℕ} (hm : m.toNat = 2 ^ k - 1) (j : UInt32)
    (hj : j.toNat < 32) (hk : k + j.toNat ≤ 32) :
    ((b &&& m).toUInt32 <<< j).toNat = (b.toNat % 2 ^ k) <<< j.toNat := by
  have hlt : b.toNat % 2 ^ k < 2 ^ k := Nat.mod_lt _ (Nat.two_pow_pos k)
  have hpow : 2 ^ k * 2 ^ j.toNat ≤ 2 ^ 32 := by
    rw [← pow_add]
    exact Nat.pow_le_pow_right (by decide) hk
  rw [UInt32.toNat_shiftLeft, toNat_masked b m hm, Nat.mod_eq_of_lt hj]
  apply Nat.mod_eq_of_lt
  rw [Nat.shiftLeft_eq]
  exact (Nat.mul_lt_mul_of_pos_right hlt (Nat.two_pow_pos _)).trans_le hpow

theorem guarded_eq_some {α : Type} {t : Bool} {p : Prop} [Decidable p] {v c : α} :
    (if !t then none else if p then none else some v) = some c ↔ t = true ∧ v = c ∧ ¬p := by
  cases t <;> by_cases h : p <;> simp [h]

variable {b0 b1 b2 b3 : UInt8} {c : UInt32}

theorem utf8Two_iff : utf8Two b0 b1 = some c ↔
    Tail b1 ∧ c.toNat = b0.toNat % 32 * 64 + b1.toNat % 64 ∧ 128 ≤ c.toNat := by
  have hval : ((b0 &&& 0x1F).toUInt32 <<< 6 ||| (b1 &&& 0x3F).toUInt32).toNat =
      b0.toNat % 32 * 64 + b1.toNat % 64 := by
    rw [UInt32.toNat_or, toNat_masked b1 0x3F (k := 6) rfl,
      toNat_masked_shift b0 0x1F (k := 5) rfl 6 (by decide) (by decide)]
    exact or_eq_add _ 6 (Nat.mod_lt _ (by decide))
  have hbound : (0x80 : UInt32).toNat = 128 := rfl
  rw [utf8Two, guarded_eq_some, isTail_iff, UInt32.lt_iff_toNat_lt, ← UInt32.toNat_inj, hval,
    hbound]
  refine and_congr_right fun _ ↦ ?_
  omega

theorem utf8Three_iff : utf8Three b0 b1 b2 = some c ↔ (Tail b1 ∧ Tail b2) ∧
    c.toNat = (b0.toNat % 16 * 64 + b1.toNat % 64) * 64 + b2.toNat % 64 ∧ 2048 ≤ c.toNat := by
  have hval : ((b0 &&& 0x0F).toUInt32 <<< 12 ||| (b1 &&& 0x3F).toUInt32 <<< 6 |||
      (b2 &&& 0x3F).toUInt32).toNat =
      (b0.toNat % 16 * 64 + b1.toNat % 64) * 64 + b2.toNat % 64 := by
    rw [UInt32.toNat_or, UInt32.toNat_or, toNat_masked b2 0x3F (k := 6) rfl,
      toNat_masked_shift b0 0x0F (k := 4) rfl 12 (by decide) (by decide),
      toNat_masked_shift b1 0x3F (k := 6) rfl 6 (by decide) (by decide)]
    refine Eq.trans ?_ (or_eq_add _ 6 (Nat.mod_lt _ (by decide)))
    rw [← shifted_or _ 6 (Nat.mod_lt _ (by decide))]
    rfl
  have hbound : (0x800 : UInt32).toNat = 2048 := rfl
  rw [utf8Three, ← Bool.not_and, guarded_eq_some, Bool.and_eq_true, isTail_iff, isTail_iff,
    UInt32.lt_iff_toNat_lt, ← UInt32.toNat_inj, hval, hbound]
  refine and_congr_right fun _ ↦ ?_
  omega

theorem utf8Four_iff : utf8Four b0 b1 b2 b3 = some c ↔ ((Tail b1 ∧ Tail b2) ∧ Tail b3) ∧
    c.toNat = ((b0.toNat % 8 * 64 + b1.toNat % 64) * 64 + b2.toNat % 64) * 64 + b3.toNat % 64 ∧
      65536 ≤ c.toNat := by
  have hval : ((b0 &&& 0x07).toUInt32 <<< 18 ||| (b1 &&& 0x3F).toUInt32 <<< 12 |||
      (b2 &&& 0x3F).toUInt32 <<< 6 ||| (b3 &&& 0x3F).toUInt32).toNat =
      ((b0.toNat % 8 * 64 + b1.toNat % 64) * 64 + b2.toNat % 64) * 64 + b3.toNat % 64 := by
    rw [UInt32.toNat_or, UInt32.toNat_or, UInt32.toNat_or, toNat_masked b3 0x3F (k := 6) rfl,
      toNat_masked_shift b0 0x07 (k := 3) rfl 18 (by decide) (by decide),
      toNat_masked_shift b1 0x3F (k := 6) rfl 12 (by decide) (by decide),
      toNat_masked_shift b2 0x3F (k := 6) rfl 6 (by decide) (by decide)]
    refine Eq.trans ?_ (or_eq_add _ 6 (Nat.mod_lt _ (by decide)))
    rw [← shifted_or _ 6 (Nat.mod_lt _ (by decide)), ← shifted_or _ 12 (Nat.mod_lt _ (by decide))]
    rfl
  have hbound : (0x10000 : UInt32).toNat = 65536 := rfl
  rw [utf8Four, ← Bool.not_and, ← Bool.not_and, guarded_eq_some, Bool.and_eq_true,
    Bool.and_eq_true, isTail_iff, isTail_iff, isTail_iff, UInt32.lt_iff_toNat_lt,
    ← UInt32.toNat_inj, hval, hbound]
  refine and_congr_right fun _ ↦ ?_
  omega

theorem toNat_leadOf {mark v : UInt32} {m k : ℕ} (hmark : mark.toNat = m <<< k)
    (hv : v.toNat < 2 ^ k) (hfit : m * 2 ^ k + v.toNat < 256) :
    leadOf mark v = UInt8.ofNat (m * 2 ^ k + v.toNat) := by
  rw [← UInt8.toNat_inj, leadOf, UInt32.toNat_toUInt8, UInt32.toNat_or, hmark, or_eq_add _ _ hv,
    toNat_ofNat_of_lt hfit]
  exact Nat.mod_eq_of_lt hfit

theorem tailOf_eq (v : UInt32) : tailOf v = UInt8.ofNat (0x80 + v.toNat % 64) := by
  have hand : (v &&& 0x3F).toNat = v.toNat % 64 := by
    rw [UInt32.toNat_and]
    exact Nat.and_two_pow_sub_one_eq_mod v.toNat 6
  rw [tailOf, toNat_leadOf (m := 1) (k := 7) rfl (by omega) (by omega), hand]
  rfl

theorem toNat_shiftRight {v k : UInt32} (hk : k.toNat < 32) :
    (v >>> k).toNat = v.toNat / 2 ^ k.toNat := by
  rw [UInt32.toNat_shiftRight, Nat.mod_eq_of_lt hk, Nat.shiftRight_eq_div_pow]

/-- `utf8_encode` encodes the valid code points. -/
theorem utf8Encode_eq (hc : Scalar c.toNat) : utf8Encode c 4 = some (encode c.toNat) := by
  have h6 : (c >>> 6).toNat = c.toNat / 64 := toNat_shiftRight (by decide)
  have h12 : (c >>> 12).toNat = c.toNat / 4096 := toNat_shiftRight (by decide)
  have h18 : (c >>> 18).toNat = c.toNat / 262144 := toNat_shiftRight (by decide)
  have hcap : ¬ (4 : UInt32) < 1 ∧ ¬ (4 : UInt32) < 2 ∧ ¬ (4 : UInt32) < 3 ∧
      ¬ (4 : UInt32) < 4 := by decide
  have hlow : c < 0x80 ↔ c.toNat < 0x80 := UInt32.lt_iff_toNat_lt
  have hmid : c < 0x800 ↔ c.toNat < 0x800 := UInt32.lt_iff_toNat_lt
  have hhigh : c < 0x10000 ↔ c.toNat < 0x10000 := UInt32.lt_iff_toNat_lt
  unfold Scalar at hc
  simp only [utf8Encode, utf8ValidCp_iff.mpr hc, Bool.not_true, Bool.false_eq_true, if_false,
    hcap, hlow, hmid, hhigh, encode, tailOf_eq, h6, h12]
  split_ifs with h₁ h₂ h₃
  · have hbyte : c.toUInt8 = UInt8.ofNat c.toNat := by
      rw [← UInt8.toNat_inj, UInt32.toNat_toUInt8, toNat_ofNat_of_lt (by omega)]
      exact Nat.mod_eq_of_lt (by omega)
    rw [hbyte]
  · rw [toNat_leadOf (m := 6) (k := 5) rfl (by omega) (by omega), h6]
    rfl
  · rw [toNat_leadOf (m := 14) (k := 4) rfl (by omega) (by omega), h12]
    rfl
  · rw [toNat_leadOf (m := 30) (k := 3) rfl (by omega) (by omega), h18]
    rfl

/-- The table takes a lead byte from F8 on for the one 8 below it. -/
def lowered (b : UInt8) : UInt8 := if 0xF8 ≤ b then b - 8 else b

theorem toNat_lowered (b : UInt8) :
    (lowered b).toNat = if 248 ≤ b.toNat then b.toNat - 8 else b.toNat := by
  have hle : (0xF8 : UInt8) ≤ b ↔ 248 ≤ b.toNat := UInt8.le_iff_toNat_le
  unfold lowered
  simp only [hle]
  split_ifs with h
  · have h8 : (8 : UInt8) ≤ b := by
      rw [UInt8.le_iff_toNat_le]
      exact (show 8 ≤ 248 by decide).trans h
    rw [UInt8.toNat_sub_of_le _ _ h8]
    rfl
  · rfl

theorem utf8One_iff (h : b0.toNat < 128) : (b0.toUInt32 = c ∧ utf8ValidCp c = true) ↔
    Scalar c.toNat ∧ encode c.toNat = [lowered b0] := by
  rw [utf8ValidCp_iff, encode_eq_one, toNat_lowered, if_neg (by omega), ← UInt32.toNat_inj,
    UInt8.toNat_toUInt32]
  unfold Scalar
  omega

theorem utf8Two_encode (h : 192 ≤ b0.toNat ∧ b0.toNat < 224) :
    (utf8Two b0 b1 = some c ∧ utf8ValidCp c = true) ↔
      Scalar c.toNat ∧ encode c.toNat = [lowered b0, b1] := by
  rw [utf8Two_iff, utf8ValidCp_iff, encode_eq_two, toNat_lowered, if_neg (by omega), tail_iff]
  unfold Scalar
  omega

theorem utf8Three_encode (h : 224 ≤ b0.toNat ∧ b0.toNat < 240) :
    (utf8Three b0 b1 b2 = some c ∧ utf8ValidCp c = true) ↔
      Scalar c.toNat ∧ encode c.toNat = [lowered b0, b1, b2] := by
  rw [utf8Three_iff, utf8ValidCp_iff, encode_eq_three, toNat_lowered, if_neg (by omega), tail_iff,
    tail_iff]
  unfold Scalar
  omega

theorem utf8Four_encode (h : 240 ≤ b0.toNat) :
    (utf8Four b0 b1 b2 b3 = some c ∧ utf8ValidCp c = true) ↔
      Scalar c.toNat ∧ encode c.toNat = [lowered b0, b1, b2, b3] := by
  have hb := b0.toNat_lt
  rw [utf8Four_iff, utf8ValidCp_iff, and_comm]
  refine and_congr_right fun hc ↦ ?_
  unfold Scalar at hc
  rw [encode_eq_four (by omega), toNat_lowered, tail_iff, tail_iff, tail_iff]
  split_ifs with h8 <;> omega

/-- A sequence that is an encoding once its lead byte is lowered has the length of the table. -/
theorem utf8CharLen_of_encode {n : ℕ} {t : List UInt8} (hn : Scalar n)
    (h : encode n = lowered b0 :: t) : utf8CharLen b0 = t.length + 1 := by
  have hle : t.length + 1 ≤ 4 := by
    rw [← List.length_cons (a := lowered b0), ← h]
    exact length_encode_le n
  have hb := b0.toNat_lt
  have hlow := toNat_lowered b0
  unfold Scalar at hn
  rw [utf8CharLen_eq]
  rcases t with _ | ⟨x, _ | ⟨y, _ | ⟨z, _ | ⟨w, t⟩⟩⟩⟩
  · rw [encode_eq_one] at h
    rw [List.length_nil]
    split_ifs at hlow ⊢ <;> omega
  · rw [encode_eq_two] at h
    rw [List.length_singleton]
    split_ifs at hlow ⊢ <;> omega
  · rw [encode_eq_three] at h
    simp only [List.length_cons, List.length_nil]
    split_ifs at hlow ⊢ <;> omega
  · rw [encode_eq_four (by omega)] at h
    simp only [List.length_cons, List.length_nil]
    split_ifs at hlow ⊢ <;> omega
  · simp only [List.length_cons] at hle
    omega

end Bits

section Decode

variable {s : CBytes} {off c n : UInt32}

theorem toNat_add_of_lt {k : ℕ} (h : off.toNat + k < 2 ^ 32) :
    (off + UInt32.ofNat k).toNat = off.toNat + k := by
  rw [UInt32.toNat_add, UInt32.toNat_ofNat', Nat.add_mod_mod]
  exact Nat.mod_eq_of_lt h

theorem utf8Sequence_iff {b0 : UInt8} (hpos : utf8CharLen b0 ≠ 0)
    (hfit : off.toNat + utf8CharLen b0 < 2 ^ 32) :
    ((utf8Sequence s off b0 (utf8CharLen b0)).value = some c ∧ utf8ValidCp c = true) ↔
      Scalar c.toNat ∧
        encode c.toNat = lowered b0 :: s.window (off.toNat + 1) (utf8CharLen b0 - 1) := by
  have hlen := utf8CharLen_eq b0
  have h1 : 1 < utf8CharLen b0 → (off + 1).toNat = off.toNat + 1 := fun h ↦
    @toNat_add_of_lt off 1 (by omega)
  have h2 : 2 < utf8CharLen b0 → (off + 2).toNat = off.toNat + 2 := fun h ↦
    @toNat_add_of_lt off 2 (by omega)
  have h3 : 3 < utf8CharLen b0 → (off + 3).toNat = off.toNat + 3 := fun h ↦
    @toNat_add_of_lt off 3 (by omega)
  split_ifs at hlen with hb₁ hb₂ hb₃ hb₄
  · rw [hlen]
    refine Iff.trans ?_ (utf8One_iff hb₁)
    exact and_congr_left' (Option.some.injEq _ _).to_iff
  · exact absurd hlen hpos
  · have hwin : s.window (off.toNat + 1) (utf8CharLen b0 - 1) = [s.data (off + 1).toNat] := by
      rw [hlen, h1 (by omega)]
      rfl
    rw [hwin, ← utf8Two_encode ⟨by omega, hb₃⟩, hlen]
    rfl
  · have hwin : s.window (off.toNat + 1) (utf8CharLen b0 - 1) =
        [s.data (off + 1).toNat, s.data (off + 2).toNat] := by
      rw [hlen, h1 (by omega), h2 (by omega)]
      rfl
    rw [hwin, ← utf8Three_encode ⟨by omega, hb₄⟩, hlen]
    rfl
  · have hwin : s.window (off.toNat + 1) (utf8CharLen b0 - 1) =
        [s.data (off + 1).toNat, s.data (off + 2).toNat, s.data (off + 3).toNat] := by
      rw [hlen, h1 (by omega), h2 (by omega), h3 (by omega)]
      rfl
    rw [hwin, ← utf8Four_encode (by omega), hlen]
    rfl

/-- The table never leads past the end of the numbers. -/
def CBytes.NoWrap (s : CBytes) : Prop :=
  ∀ i < s.len.toNat, i + utf8CharLen (s.data i) < 2 ^ 32

theorem utf8DecodeAt_value (hoff : off.toNat < s.len.toNat) :
    (utf8DecodeAt s off).value =
      if utf8CharLen (s.data off.toNat) = 0 ∨
          s.len < off + UInt32.ofNat (utf8CharLen (s.data off.toNat)) then none
      else
        ((utf8Sequence s off (s.data off.toNat)
          (utf8CharLen (s.data off.toNat))).value.filter utf8ValidCp).map
            fun c ↦ (c, UInt32.ofNat (utf8CharLen (s.data off.toNat))) := by
  rw [utf8DecodeAt, if_neg (by rwa [UInt32.not_le, UInt32.lt_iff_toNat_lt])]
  exact value_ite _ _

/-- What `utf8_decode_at` accepts: encodings, and encodings with a lead byte raised by 8. -/
theorem utf8DecodeAt_iff
    (hfit : off.toNat < s.len.toNat → off.toNat + utf8CharLen (s.data off.toNat) < 2 ^ 32) :
    (utf8DecodeAt s off).value = some (c, n) ↔
    ∃ b t, (b :: t) <+: s.bytes.drop off.toNat ∧ Scalar c.toNat ∧
      encode c.toNat = lowered b :: t ∧ n = UInt32.ofNat (t.length + 1) := by
  have hlen := s.len.toNat_lt
  by_cases hoff : s.len ≤ off
  · rw [utf8DecodeAt, if_pos hoff]
    rw [UInt32.le_iff_toNat_le] at hoff
    refine iff_of_false (by simp) ?_
    rintro ⟨b, t, hpre, -⟩
    have := (s.prefix_iff.mp hpre).1
    omega
  rw [UInt32.not_le, UInt32.lt_iff_toNat_lt] at hoff
  have hwrap := hfit hoff
  have hadd := toNat_add_of_lt hwrap
  rw [utf8DecodeAt_value hoff]
  by_cases hout : utf8CharLen (s.data off.toNat) = 0 ∨
      s.len < off + UInt32.ofNat (utf8CharLen (s.data off.toNat))
  · rw [if_pos hout]
    rw [UInt32.lt_iff_toNat_lt, hadd] at hout
    refine iff_of_false (by simp) ?_
    rintro ⟨b, t, hpre, hc, henc, -⟩
    obtain ⟨hfits, rfl, -⟩ := s.prefix_iff.mp hpre
    have := utf8CharLen_of_encode hc henc
    omega
  · rw [if_neg hout]
    rw [not_or, UInt32.not_lt, UInt32.le_iff_toNat_le, hadd] at hout
    simp only [Option.map_eq_some_iff, Option.filter_eq_some_iff, Prod.mk.injEq]
    constructor
    · rintro ⟨c', hseq, rfl, rfl⟩
      obtain ⟨hc, henc⟩ := (utf8Sequence_iff hout.1 hwrap).mp hseq
      have htail : (s.window (off.toNat + 1)
          (utf8CharLen (s.data off.toNat) - 1)).length + 1 = utf8CharLen (s.data off.toNat) :=
        (utf8CharLen_of_encode hc henc).symm
      refine ⟨_, _, s.prefix_iff.mpr ⟨?_, rfl, ?_⟩, hc, henc, ?_⟩
      · omega
      · rw [CBytes.window, List.length_map, List.length_range']
        rfl
      · rw [htail]
    · rintro ⟨b, t, hpre, hc, henc, rfl⟩
      obtain ⟨hfits, rfl, ht⟩ := s.prefix_iff.mp hpre
      have htable := utf8CharLen_of_encode hc henc
      refine ⟨c, (utf8Sequence_iff hout.1 hwrap).mpr ⟨hc, ?_⟩, rfl, by rw [htable]⟩
      rw [htable, Nat.add_sub_cancel, ← ht, henc]

theorem lowered_of_lt {b : UInt8} (h : b < 0xF8) : lowered b = b :=
  if_neg (UInt8.not_le.mpr h)

theorem lead_lt {k : ℕ} {b : UInt8} {t : List UInt8} (hk : Scalar k) (henc : encode k = b :: t) :
    b < 0xF8 := by
  have hchar := isChar_encode hk
  rw [henc] at hchar
  clear henc
  rw [UInt8.lt_iff_toNat_lt]
  have h248 : (0xF8 : UInt8).toNat = 248 := rfl
  cases hchar with
  | one hlead =>
    have hle : b.toNat ≤ 127 := UInt8.le_iff_toNat_le.mp hlead
    omega
  | two hlead _ =>
    have hle : b.toNat ≤ 223 := UInt8.le_iff_toNat_le.mp hlead.2
    omega
  | three hlead _ =>
    have hle := (lead₃_iff.mp hlead).2.1
    omega
  | four hlead _ _ =>
    have hle := (lead₄_iff.mp hlead).2.1
    omega

theorem utf8DecodeAt_of_begins (hc : Scalar c.toNat)
    (h : encode c.toNat <+: s.bytes.drop off.toNat) :
    (utf8DecodeAt s off).value = some (c, UInt32.ofNat (encode c.toNat).length) := by
  cases henc : encode c.toNat with
  | nil => exact absurd henc (encode_ne_nil _)
  | cons b t =>
    have hlow := lowered_of_lt (lead_lt hc henc)
    rw [henc] at h
    have hlen := s.len.toNat_lt
    obtain ⟨hfits, hb, -⟩ := s.prefix_iff.mp h
    have htable : utf8CharLen b = t.length + 1 :=
      utf8CharLen_of_encode hc (by rw [hlow, henc])
    rw [List.length_cons]
    refine (utf8DecodeAt_iff fun _ ↦ ?_).mpr ⟨b, t, h, hc, by rw [hlow, henc], rfl⟩
    rw [← hb]
    omega

/-- The lead byte of an encoding of four bytes stands in the string raised by 8. -/
def CBytes.StrayLead (s : CBytes) : Prop :=
  ∃ (i : ℕ) (b : UInt8) (t : List UInt8) (k : ℕ), (b :: t) <+: s.bytes.drop i ∧ 0xF8 ≤ b ∧
    Scalar k ∧ encode k = (b - 8) :: t

theorem prefix_of_utf8DecodeAt (hfit : s.NoWrap) (hstray : ¬ s.StrayLead)
    (h : (utf8DecodeAt s off).value = some (c, n)) :
    Scalar c.toNat ∧ encode c.toNat <+: s.bytes.drop off.toNat ∧
      n = UInt32.ofNat (encode c.toNat).length := by
  obtain ⟨b, t, hpre, hc, henc, hn⟩ := (utf8DecodeAt_iff (hfit off.toNat)).mp h
  have hb : b < 0xF8 := by
    by_contra hb
    rw [UInt8.not_lt] at hb
    refine hstray ⟨off.toNat, b, t, c.toNat, hpre, hb, hc, ?_⟩
    rw [henc, lowered, if_pos hb]
  rw [lowered_of_lt hb] at henc
  rw [henc]
  exact ⟨hc, hpre, hn⟩

end Decode

section Reads

variable {s : CBytes} {off : UInt32}

theorem utf8Sequence_trace {b0 : UInt8} {n : ℕ} (hn : n ≠ 0) (hle : n ≤ 4) :
    (utf8Sequence s off b0 n).trace =
      (List.range (n - 1)).map fun k ↦ off + UInt32.ofNat (k + 1) := by
  obtain rfl | rfl | rfl | rfl : n = 1 ∨ n = 2 ∨ n = 3 ∨ n = 4 := by omega
  all_goals rfl

theorem utf8DecodeAt_trace (hoff : off.toNat < s.len.toNat) :
    (utf8DecodeAt s off).trace = off ::
      if utf8CharLen (s.data off.toNat) = 0 ∨
          s.len < off + UInt32.ofNat (utf8CharLen (s.data off.toNat)) then []
      else (List.range (utf8CharLen (s.data off.toNat) - 1)).map
        fun k ↦ off + UInt32.ofNat (k + 1) := by
  have hvalue : (byteAt s off).value = s.data off.toNat := rfl
  rw [utf8DecodeAt, if_neg (by rwa [UInt32.not_le, UInt32.lt_iff_toNat_lt]), trace_bind,
    trace_ite, hvalue]
  refine congrArg (off :: ·) ?_
  split_ifs with h
  · rfl
  · rw [trace_bind, utf8Sequence_trace (not_or.mp h).1 (utf8CharLen_le _)]
    exact List.append_nil _

theorem reads_inside (hfit : s.NoWrap) : ∀ i ∈ (utf8DecodeAt s off).trace, i < s.len := by
  intro i hi
  by_cases hoff : off.toNat < s.len.toNat
  swap
  · rw [utf8DecodeAt, if_pos (by rw [UInt32.le_iff_toNat_le]; omega)] at hi
    exact absurd hi (List.not_mem_nil)
  have hwrap := hfit off.toNat hoff
  have hadd := toNat_add_of_lt hwrap
  rw [utf8DecodeAt_trace hoff] at hi
  rcases List.mem_cons.mp hi with rfl | hi
  · exact UInt32.lt_iff_toNat_lt.mpr hoff
  · split_ifs at hi with hout
    · exact absurd hi (List.not_mem_nil)
    · rw [not_or, UInt32.not_lt, UInt32.le_iff_toNat_le, hadd] at hout
      obtain ⟨k, hk, rfl⟩ := List.mem_map.mp hi
      have hk := List.mem_range.mp hk
      rw [UInt32.lt_iff_toNat_lt, toNat_add_of_lt (by omega)]
      omega

/-- A sequence that would end past all numbers is read up to the first byte behind the string. -/
theorem reads_outside (hfit : ¬ s.NoWrap) :
    ∃ off, ∃ i ∈ (utf8DecodeAt s off).trace, ¬ i < s.len := by
  unfold CBytes.NoWrap at hfit
  push Not at hfit
  obtain ⟨i, hi, hwrap⟩ := hfit
  have hlen := s.len.toNat_lt
  have hle := utf8CharLen_le (s.data i)
  have hof : (UInt32.ofNat i).toNat = i := by
    rw [UInt32.toNat_ofNat']
    exact Nat.mod_eq_of_lt (by omega)
  have hlast : (UInt32.ofNat i + UInt32.ofNat (s.len.toNat - i - 1 + 1)).toNat = s.len.toNat := by
    rw [toNat_add_of_lt (by omega), hof]
    omega
  have hend : ¬ (utf8CharLen (s.data i) = 0 ∨
      s.len < UInt32.ofNat i + UInt32.ofNat (utf8CharLen (s.data i))) := by
    rw [not_or, UInt32.not_lt, UInt32.le_iff_toNat_le, UInt32.toNat_add, hof,
      UInt32.toNat_ofNat']
    omega
  refine ⟨UInt32.ofNat i, UInt32.ofNat i + UInt32.ofNat (s.len.toNat - i - 1 + 1), ?_, ?_⟩
  · rw [utf8DecodeAt_trace (by rwa [hof]), hof, if_neg hend]
    apply List.mem_cons_of_mem
    exact List.mem_map.mpr ⟨s.len.toNat - i - 1, List.mem_range.mpr (by omega), rfl⟩
  · rw [UInt32.lt_iff_toNat_lt, hlast]
    exact lt_irrefl _

end Reads

section Exact

variable {s : CBytes}

theorem toNat_ofNat_scalar {k : ℕ} (hk : Scalar k) : (UInt32.ofNat k).toNat = k := by
  unfold Scalar at hk
  rw [UInt32.toNat_ofNat']
  exact Nat.mod_eq_of_lt (by omega)

theorem not_wellFormed_of_none {i : UInt32} (hi : i.toNat < s.len.toNat)
    (h : (utf8DecodeAt s i).value = none) : ¬ WellFormed (s.bytes.drop i.toNat) := by
  intro hwell
  generalize hbs : s.bytes.drop i.toNat = bs at hwell
  cases hwell with
  | nil =>
    have hlen := congrArg List.length hbs
    rw [List.length_drop, CBytes.length_bytes, List.length_nil] at hlen
    omega
  | cons hchar hrest =>
    obtain ⟨k, hk, rfl⟩ := hchar.encoded
    have hcode := toNat_ofNat_scalar hk
    have hpre : encode (UInt32.ofNat k).toNat <+: s.bytes.drop i.toNat := by
      rw [hcode, hbs]
      exact List.prefix_append _ _
    rw [utf8DecodeAt_of_begins (by rwa [hcode]) hpre] at h
    exact absurd h (by simp)

theorem drop_add_of_begins {bs pre : List UInt8} {i : ℕ} (h : pre <+: bs.drop i) :
    bs.drop i = pre ++ bs.drop (i + pre.length) := by
  obtain ⟨rest, hrest⟩ := h
  rw [← List.drop_drop, ← hrest, List.drop_left]

theorem utf8ValidateFrom_spec (hfit : s.NoWrap) (hstray : ¬ s.StrayLead) {fuel : ℕ} {i : UInt32}
    (hi : i.toNat ≤ s.len.toNat) (hfuel : s.len.toNat - i.toNat < fuel) :
    ∃ b, (utf8ValidateFrom s fuel i).value = some b ∧
      (b = true ↔ WellFormed (s.bytes.drop i.toNat)) := by
  induction fuel generalizing i with
  | zero => exact absurd hfuel (Nat.not_lt_zero _)
  | succ fuel ih =>
    rw [utf8ValidateFrom]
    by_cases hlt : i.toNat < s.len.toNat
    · rw [if_pos (UInt32.lt_iff_toNat_lt.mpr hlt), value_bind]
      cases hdec : (utf8DecodeAt s i).value with
      | none =>
        exact ⟨false, rfl, iff_of_false Bool.false_ne_true (not_wellFormed_of_none hlt hdec)⟩
      | some p =>
        obtain ⟨hc, hpre, hn⟩ := prefix_of_utf8DecodeAt hfit hstray hdec
        have hend := hpre.length_le
        have hpos := length_encode_pos p.1.toNat
        have hlen := s.len.toNat_lt
        rw [List.length_drop, CBytes.length_bytes] at hend
        have hadd : (i + p.2).toNat = i.toNat + (encode p.1.toNat).length := by
          rw [hn, toNat_add_of_lt (by omega)]
        obtain ⟨b, hb, hiff⟩ := ih (i := i + p.2) (by omega) (by omega)
        refine ⟨b, hb, hiff.trans ?_⟩
        rw [drop_add_of_begins hpre, wellFormed_append_iff hc, hadd]
    · rw [if_neg (mt UInt32.lt_iff_toNat_lt.mp hlt)]
      refine ⟨true, rfl, iff_of_true rfl ?_⟩
      rw [List.drop_of_length_le (by rw [CBytes.length_bytes]; omega)]
      exact .nil

/-- Validation, the bounds of the reads, and the two ways round between code points and bytes -/
structure Utf8Exact (s : CBytes) : Prop where
  validates : ∀ fuel > s.len.toNat, ∃ b, (utf8ValidateBytes s fuel).value = some b ∧
    (b = true ↔ WellFormed s.bytes)
  reads : ∀ off, ∀ i ∈ (utf8DecodeAt s off).trace, i < s.len
  decodes : ∀ c, Scalar c.toNat → ∃ bs, utf8Encode c 4 = some bs ∧
    (utf8DecodeAt (CBytes.ofList bs) 0).value = some (c, UInt32.ofNat bs.length)
  encodes : ∀ off c n, (utf8DecodeAt s off).value = some (c, n) →
    utf8Encode c 4 = some ((s.bytes.drop off.toNat).take n.toNat)
  concatenated : ∀ fuel, (utf8ValidateBytes s fuel).value = some true →
    ∃ cs : List UInt32, (∀ c ∈ cs, Scalar c.toNat) ∧
      s.bytes = cs.flatMap fun c ↦ (utf8Encode c 4).getD []

theorem decode_utf8Encode {c : UInt32} (hc : Scalar c.toNat) : ∃ bs, utf8Encode c 4 = some bs ∧
    (utf8DecodeAt (CBytes.ofList bs) 0).value = some (c, UInt32.ofNat bs.length) := by
  have hle := length_encode_le c.toNat
  refine ⟨_, utf8Encode_eq hc, utf8DecodeAt_of_begins hc ?_⟩
  rw [CBytes.bytes_ofList (by omega)]
  exact List.prefix_refl _

theorem encodes_of_not_strayLead (hfit : s.NoWrap) (hstray : ¬ s.StrayLead) {off c n : UInt32}
    (h : (utf8DecodeAt s off).value = some (c, n)) :
    utf8Encode c 4 = some ((s.bytes.drop off.toNat).take n.toNat) := by
  obtain ⟨hc, hpre, rfl⟩ := prefix_of_utf8DecodeAt hfit hstray h
  have hle := length_encode_le c.toNat
  rw [utf8Encode_eq hc, UInt32.toNat_ofNat', Nat.mod_eq_of_lt (by omega),
    ← List.prefix_iff_eq_take.mp hpre]

theorem concatenated_of_wellFormed {bs : List UInt8} (h : WellFormed bs) :
    ∃ cs : List UInt32, (∀ c ∈ cs, Scalar c.toNat) ∧
      bs = cs.flatMap fun c ↦ (utf8Encode c 4).getD [] := by
  induction h with
  | nil => exact ⟨[], by simp, rfl⟩
  | cons hchar _ ih =>
    obtain ⟨k, hk, rfl⟩ := hchar.encoded
    obtain ⟨cs, hcs, rfl⟩ := ih
    have hcode := toNat_ofNat_scalar hk
    refine ⟨UInt32.ofNat k :: cs, ?_, ?_⟩
    · intro c hc
      rcases List.mem_cons.mp hc with rfl | hc
      · rwa [hcode]
      · exact hcs c hc
    · rw [List.flatMap_cons, utf8Encode_eq (by rwa [hcode]), hcode]
      rfl

theorem utf8ValidateFrom_value {fuel : ℕ} {i : UInt32} {b : Bool}
    (h : (utf8ValidateFrom s fuel i).value = some b) {more : ℕ} (hmore : fuel ≤ more) :
    (utf8ValidateFrom s more i).value = some b := by
  induction fuel generalizing i more with
  | zero => exact absurd h (by simp [utf8ValidateFrom])
  | succ fuel ih =>
    obtain ⟨more, rfl⟩ := Nat.exists_eq_add_of_le' hmore
    rw [utf8ValidateFrom] at h
    rw [← Nat.add_assoc, utf8ValidateFrom]
    split_ifs at h ⊢ with hlt
    · rw [value_bind] at h ⊢
      cases hdec : (utf8DecodeAt s i).value with
      | none =>
        rw [hdec] at h
        exact h
      | some p =>
        rw [hdec] at h
        exact ih h (by omega)
    · exact h

theorem utf8Exact_of_not_strayLead (hfit : s.NoWrap) (hstray : ¬ s.StrayLead) : Utf8Exact s where
  validates := fun fuel hfuel ↦
    utf8ValidateFrom_spec hfit hstray (i := 0) (Nat.zero_le _) hfuel
  reads := fun _ ↦ reads_inside hfit
  decodes := fun _ ↦ decode_utf8Encode
  encodes := fun _ _ _ ↦ encodes_of_not_strayLead hfit hstray
  concatenated := by
    intro fuel h
    obtain ⟨b, hb, hiff⟩ := @utf8ValidateFrom_spec s hfit hstray (fuel + s.len.toNat + 1) 0
      (Nat.zero_le _) (show s.len.toNat - 0 < fuel + s.len.toNat + 1 by omega)
    have hmore : (utf8ValidateFrom s (fuel + s.len.toNat + 1) 0).value = some true :=
      utf8ValidateFrom_value h (by omega)
    rw [hb, Option.some.injEq] at hmore
    exact concatenated_of_wellFormed (hiff.mp hmore)

theorem not_strayLead_of_encodes (hfit : s.NoWrap)
    (h : ∀ off c n, (utf8DecodeAt s off).value = some (c, n) →
      utf8Encode c 4 = some ((s.bytes.drop off.toNat).take n.toNat)) : ¬ s.StrayLead := by
  rintro ⟨i, b, t, k, hpre, hb, hk, henc⟩
  have hcode := toNat_ofNat_scalar hk
  have hlen := s.len.toNat_lt
  have hend := (s.prefix_iff.mp hpre).1
  have hof : (UInt32.ofNat i).toNat = i := by
    rw [UInt32.toNat_ofNat']
    exact Nat.mod_eq_of_lt (by omega)
  have hlow : encode (UInt32.ofNat k).toNat = lowered b :: t := by
    rw [hcode, lowered, if_pos hb, henc]
  have hdec := (@utf8DecodeAt_iff s (UInt32.ofNat i) _ _ (hfit _)).mpr
    ⟨b, t, by rwa [hof], by rwa [hcode], hlow, rfl⟩
  have hback := h _ _ _ hdec
  have hcount : (UInt32.ofNat (t.length + 1)).toNat = t.length + 1 := by
    rw [UInt32.toNat_ofNat']
    exact Nat.mod_eq_of_lt (by omega)
  rw [utf8Encode_eq (by rwa [hcode]), hof, hcount, hlow, Option.some.injEq,
    ← List.length_cons (a := b), ← List.prefix_iff_eq_take.mp hpre, List.cons.injEq] at hback
  have heq := congrArg UInt8.toNat hback.1
  have h248 : 248 ≤ b.toNat := UInt8.le_iff_toNat_le.mp hb
  rw [toNat_lowered, if_pos h248] at heq
  omega

theorem noWrap_of_reads (h : ∀ off, ∀ i ∈ (utf8DecodeAt s off).trace, i < s.len) : s.NoWrap := by
  by_contra hfit
  obtain ⟨off, i, hi, hout⟩ := reads_outside hfit
  exact hout (h off i hi)

/-- Exactly a lead byte from F8 on before the rest of an encoding is let through, and only a
sequence at the very end of the numbers is read past the string. -/
theorem utf8Exact_iff (s : CBytes) : Utf8Exact s ↔ ¬ s.StrayLead ∧ s.NoWrap := by
  constructor
  · intro h
    have hfit := noWrap_of_reads h.reads
    exact ⟨not_strayLead_of_encodes hfit h.encodes, hfit⟩
  · rintro ⟨hstray, hfit⟩
    exact utf8Exact_of_not_strayLead hfit hstray

/-- `F8 90 80 80` is accepted. -/
theorem raisedLead_accepted : ¬ Utf8Exact (CBytes.ofList [0xF8, 0x90, 0x80, 0x80]) := by
  intro h
  have hdec : (utf8DecodeAt (CBytes.ofList [0xF8, 0x90, 0x80, 0x80]) 0).value =
      some (0x10000, 4) := by decide +kernel
  have henc := h.encodes 0 _ _ hdec
  revert henc
  decide +kernel

end Exact

end JelloVM
