import Mathlib

namespace Utf8

/-- The code points of characters: no surrogates, and none above the last plane. -/
def Scalar (c : ℕ) : Prop := c < 0xD800 ∨ (0xDFFF < c ∧ c ≤ 0x10FFFF)

instance (c : ℕ) : Decidable (Scalar c) := by
  unfold Scalar
  infer_instance

def encode (c : ℕ) : List UInt8 :=
  if c < 0x80 then [UInt8.ofNat c]
  else if c < 0x800 then [UInt8.ofNat (0xC0 + c / 64), UInt8.ofNat (0x80 + c % 64)]
  else if c < 0x10000 then
    [UInt8.ofNat (0xE0 + c / 4096), UInt8.ofNat (0x80 + c / 64 % 64), UInt8.ofNat (0x80 + c % 64)]
  else
    [UInt8.ofNat (0xF0 + c / 262144), UInt8.ofNat (0x80 + c / 4096 % 64),
      UInt8.ofNat (0x80 + c / 64 % 64), UInt8.ofNat (0x80 + c % 64)]

def Tail (b : UInt8) : Prop := 0x80 ≤ b ∧ b ≤ 0xBF

/-- The first two bytes of a sequence of three: E0 excludes longer forms of smaller code points,
and ED the surrogates. -/
def Lead₃ (b b₁ : UInt8) : Prop :=
  (b = 0xE0 ∧ 0xA0 ≤ b₁ ∧ b₁ ≤ 0xBF) ∨ (0xE1 ≤ b ∧ b ≤ 0xEC ∧ Tail b₁) ∨
    (b = 0xED ∧ 0x80 ≤ b₁ ∧ b₁ ≤ 0x9F) ∨ (0xEE ≤ b ∧ b ≤ 0xEF ∧ Tail b₁)

/-- The first two bytes of a sequence of four, up to the last plane -/
def Lead₄ (b b₁ : UInt8) : Prop :=
  (b = 0xF0 ∧ 0x90 ≤ b₁ ∧ b₁ ≤ 0xBF) ∨ (0xF1 ≤ b ∧ b ≤ 0xF3 ∧ Tail b₁) ∨
    (b = 0xF4 ∧ 0x80 ≤ b₁ ∧ b₁ ≤ 0x8F)

/-- The byte sequences of RFC 3629 for one character -/
inductive IsChar : List UInt8 → Prop
  | one {b : UInt8} (h : b ≤ 0x7F) : IsChar [b]
  | two {b b₁ : UInt8} (h : 0xC2 ≤ b ∧ b ≤ 0xDF) (h₁ : Tail b₁) : IsChar [b, b₁]
  | three {b b₁ b₂ : UInt8} (h : Lead₃ b b₁) (h₂ : Tail b₂) : IsChar [b, b₁, b₂]
  | four {b b₁ b₂ b₃ : UInt8} (h : Lead₄ b b₁) (h₂ : Tail b₂) (h₃ : Tail b₃) :
    IsChar [b, b₁, b₂, b₃]

inductive WellFormed : List UInt8 → Prop
  | nil : WellFormed []
  | cons {c bs : List UInt8} (hc : IsChar c) (h : WellFormed bs) : WellFormed (c ++ bs)

theorem ofNat_eq {n : ℕ} {b : UInt8} (h : n = b.toNat) : UInt8.ofNat n = b := by
  rw [h, UInt8.ofNat_toNat]

theorem tail_iff {b : UInt8} : Tail b ↔ 128 ≤ b.toNat ∧ b.toNat ≤ 191 := by
  simp only [Tail, UInt8.le_iff_toNat_le]
  rfl

theorem lead₃_iff {b b₁ : UInt8} : Lead₃ b b₁ ↔
    224 ≤ b.toNat ∧ b.toNat ≤ 239 ∧ 128 ≤ b₁.toNat ∧ b₁.toNat ≤ 191 ∧
      (b.toNat = 224 → 160 ≤ b₁.toNat) ∧ (b.toNat = 237 → b₁.toNat ≤ 159) := by
  simp only [Lead₃, Tail, UInt8.le_iff_toNat_le, ← UInt8.toNat_inj, UInt8.reduceToNat]
  omega

theorem lead₄_iff {b b₁ : UInt8} : Lead₄ b b₁ ↔
    240 ≤ b.toNat ∧ b.toNat ≤ 244 ∧ 128 ≤ b₁.toNat ∧ b₁.toNat ≤ 191 ∧
      (b.toNat = 240 → 144 ≤ b₁.toNat) ∧ (b.toNat = 244 → b₁.toNat ≤ 143) := by
  simp only [Lead₄, Tail, UInt8.le_iff_toNat_le, ← UInt8.toNat_inj, UInt8.reduceToNat]
  omega

theorem IsChar.encoded {bs : List UInt8} (h : IsChar bs) : ∃ c, Scalar c ∧ bs = encode c := by
  cases h with
  | @one b h =>
    rw [UInt8.le_iff_toNat_le] at h
    have h : b.toNat ≤ 127 := h
    refine ⟨b.toNat, .inl (by omega), ?_⟩
    rw [encode, if_pos (by omega), UInt8.ofNat_toNat]
  | @two b b₁ h h₁ =>
    rw [tail_iff] at h₁
    simp only [UInt8.le_iff_toNat_le, UInt8.reduceToNat] at h
    refine ⟨(b.toNat - 192) * 64 + (b₁.toNat - 128), .inl (by omega), ?_⟩
    rw [encode, if_neg (by omega), if_pos (by omega), ofNat_eq (b := b) (by omega),
      ofNat_eq (b := b₁) (by omega)]
  | @three b b₁ b₂ h h₂ =>
    rw [tail_iff] at h₂
    rw [lead₃_iff] at h
    refine ⟨(b.toNat - 224) * 4096 + (b₁.toNat - 128) * 64 + (b₂.toNat - 128), ?_, ?_⟩
    · unfold Scalar
      omega
    · rw [encode, if_neg (by omega), if_neg (by omega), if_pos (by omega),
        ofNat_eq (b := b) (by omega), ofNat_eq (b := b₁) (by omega), ofNat_eq (b := b₂) (by omega)]
  | @four b b₁ b₂ b₃ h h₂ h₃ =>
    rw [tail_iff] at h₂ h₃
    rw [lead₄_iff] at h
    refine ⟨(b.toNat - 240) * 262144 + (b₁.toNat - 128) * 4096 + (b₂.toNat - 128) * 64 +
      (b₃.toNat - 128), .inr (by omega), ?_⟩
    rw [encode, if_neg (by omega), if_neg (by omega), if_neg (by omega),
      ofNat_eq (b := b) (by omega), ofNat_eq (b := b₁) (by omega), ofNat_eq (b := b₂) (by omega),
      ofNat_eq (b := b₃) (by omega)]

theorem toNat_ofNat_of_lt {n : ℕ} (h : n < 256) : (UInt8.ofNat n).toNat = n := by
  rw [UInt8.toNat_ofNat']
  exact Nat.mod_eq_of_lt h

theorem isChar_encode {c : ℕ} (hc : Scalar c) : IsChar (encode c) := by
  unfold Scalar at hc
  unfold encode
  split_ifs with h₁ h₂ h₃
  · apply IsChar.one
    rw [UInt8.le_iff_toNat_le, toNat_ofNat_of_lt (by omega)]
    exact Nat.le_of_lt_succ h₁
  · apply IsChar.two
    · simp only [UInt8.le_iff_toNat_le, UInt8.reduceToNat,
        toNat_ofNat_of_lt (show 0xC0 + c / 64 < 256 by omega)]
      omega
    · rw [tail_iff, toNat_ofNat_of_lt (by omega)]
      omega
  · apply IsChar.three
    · rw [lead₃_iff, toNat_ofNat_of_lt (by omega), toNat_ofNat_of_lt (by omega)]
      omega
    · rw [tail_iff, toNat_ofNat_of_lt (by omega)]
      omega
  · apply IsChar.four
    · rw [lead₄_iff, toNat_ofNat_of_lt (by omega), toNat_ofNat_of_lt (by omega)]
      omega
    · rw [tail_iff, toNat_ofNat_of_lt (by omega)]
      omega
    · rw [tail_iff, toNat_ofNat_of_lt (by omega)]
      omega

section Forms

variable {c : ℕ} {x y z w : UInt8}

theorem ofNat_eq_iff {n : ℕ} {b : UInt8} (h : n < 256) : UInt8.ofNat n = b ↔ n = b.toNat := by
  rw [← UInt8.toNat_inj, toNat_ofNat_of_lt h]

theorem encode_eq_one : encode c = [x] ↔ c < 0x80 ∧ c = x.toNat := by
  unfold encode
  split_ifs with h₁ h₂ h₃
  · rw [List.cons.injEq, ofNat_eq_iff (by omega)]
    simp only [eq_self, and_true]
    omega
  all_goals
    simp only [List.cons.injEq, reduceCtorEq, and_false, false_iff]
    omega

theorem encode_eq_two : encode c = [x, y] ↔
    (0x80 ≤ c ∧ c < 0x800) ∧ 0xC0 + c / 64 = x.toNat ∧ 0x80 + c % 64 = y.toNat := by
  unfold encode
  split_ifs with h₁ h₂ h₃
  · simp only [List.cons.injEq, reduceCtorEq, and_false, false_iff]
    omega
  · rw [List.cons.injEq, List.cons.injEq, ofNat_eq_iff (by omega), ofNat_eq_iff (by omega)]
    simp only [eq_self, and_true]
    omega
  all_goals
    simp only [List.cons.injEq, reduceCtorEq, and_false, false_iff]
    omega

theorem encode_eq_three : encode c = [x, y, z] ↔ (0x800 ≤ c ∧ c < 0x10000) ∧
    0xE0 + c / 4096 = x.toNat ∧ 0x80 + c / 64 % 64 = y.toNat ∧ 0x80 + c % 64 = z.toNat := by
  unfold encode
  split_ifs with h₁ h₂ h₃
  rotate_left 2
  · rw [List.cons.injEq, List.cons.injEq, List.cons.injEq, ofNat_eq_iff (by omega),
      ofNat_eq_iff (by omega), ofNat_eq_iff (by omega)]
    simp only [eq_self, and_true]
    omega
  all_goals
    simp only [List.cons.injEq, reduceCtorEq, and_false, false_iff]
    omega

theorem encode_eq_four (hc : c < 0x110000) : encode c = [x, y, z, w] ↔ 0x10000 ≤ c ∧
    0xF0 + c / 262144 = x.toNat ∧ 0x80 + c / 4096 % 64 = y.toNat ∧
      0x80 + c / 64 % 64 = z.toNat ∧ 0x80 + c % 64 = w.toNat := by
  unfold encode
  split_ifs with h₁ h₂ h₃
  rotate_left 3
  · rw [List.cons.injEq, List.cons.injEq, List.cons.injEq, List.cons.injEq,
      ofNat_eq_iff (by omega), ofNat_eq_iff (by omega), ofNat_eq_iff (by omega),
      ofNat_eq_iff (by omega)]
    simp only [eq_self, and_true]
    omega
  all_goals
    simp only [List.cons.injEq, reduceCtorEq, and_false, false_iff]
    omega

end Forms

theorem encode_ne_nil (c : ℕ) : encode c ≠ [] := by
  unfold encode
  split_ifs <;> exact List.cons_ne_nil _ _

theorem length_encode_pos (c : ℕ) : 0 < (encode c).length :=
  List.length_pos_iff.mpr (encode_ne_nil c)

theorem length_encode_le (c : ℕ) : (encode c).length ≤ 4 := by
  unfold encode
  split_ifs <;> simp only [List.length_cons, List.length_nil] <;> omega

theorem ofNat_inj {n m : ℕ} (hn : n < 256) (hm : m < 256) :
    UInt8.ofNat n = UInt8.ofNat m ↔ n = m := by
  rw [ofNat_eq_iff hn, toNat_ofNat_of_lt hm]

theorem encode_append_inj {c d : ℕ} {r r' : List UInt8} (hc : Scalar c) (hd : Scalar d)
    (h : encode c ++ r = encode d ++ r') : c = d ∧ r = r' := by
  unfold Scalar at hc hd
  have hcd : c = d := by
    unfold encode at h
    split_ifs at h <;>
    · simp (disch := omega) only [List.cons_append, List.nil_append, List.cons.injEq,
        ofNat_inj] at h
      omega
  subst hcd
  exact ⟨rfl, List.append_cancel_left h⟩

theorem wellFormed_append_iff {c : ℕ} {r : List UInt8} (hc : Scalar c) :
    WellFormed (encode c ++ r) ↔ WellFormed r := by
  constructor
  · intro h
    generalize hbs : encode c ++ r = bs at h
    cases h with
    | nil => exact absurd (List.append_eq_nil_iff.mp hbs).1 (encode_ne_nil c)
    | cons hchar h =>
      obtain ⟨d, hd, rfl⟩ := hchar.encoded
      rwa [(encode_append_inj hc hd hbs).2]
  · exact .cons (isChar_encode hc)

end Utf8
