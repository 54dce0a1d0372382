import Mathlib

namespace ByteMemory

/-- One byte at each address. -/
abbrev Mem := ℕ → UInt8

/-- The `w` bytes at `a`, little end first. -/
def getLE (mem : Mem) (a : ℕ) : ℕ → ℕ
  | 0 => 0
  | w + 1 => (mem a).toNat + 256 * getLE mem (a + 1) w

def putLE (mem : Mem) (a w n : ℕ) : Mem := fun x ↦
  if a ≤ x ∧ x < a + w then UInt8.ofNat (n / 256 ^ (x - a)) else mem x

/-- `memmove`: the source is read before anything is written. -/
def copy (mem : Mem) (dst src w : ℕ) : Mem := fun x ↦
  if dst ≤ x ∧ x < dst + w then mem (src + (x - dst)) else mem x

def fill (mem : Mem) (a w : ℕ) (v : UInt8) : Mem := fun x ↦
  if a ≤ x ∧ x < a + w then v else mem x

/-- Bytes from elsewhere, `src 0` first. -/
def paste (mem : Mem) (a w : ℕ) (src : ℕ → UInt8) : Mem := fun x ↦
  if a ≤ x ∧ x < a + w then src (x - a) else mem x

def load32 (mem : Mem) (a : ℕ) : UInt32 := UInt32.ofNat (getLE mem a 4)

def load64 (mem : Mem) (a : ℕ) : UInt64 := UInt64.ofNat (getLE mem a 8)

def store32 (mem : Mem) (a : ℕ) (v : UInt32) : Mem := putLE mem a 4 v.toNat

def store64 (mem : Mem) (a : ℕ) (v : UInt64) : Mem := putLE mem a 8 v.toNat

/-- Two memories agree on the `w` bytes at `a`. -/
def SameBytes (mem mem' : Mem) (a w : ℕ) : Prop := ∀ x, a ≤ x → x < a + w → mem' x = mem x

theorem getLE_congr {mem mem' : Mem} (w a : ℕ) (h : SameBytes mem mem' a w) :
    getLE mem' a w = getLE mem a w := by
  induction w generalizing a with
  | zero => rfl
  | succ w ih =>
    rw [getLE, getLE, h a le_rfl (by omega), ih (a + 1) fun x h1 h2 ↦ h x (by omega) (by omega)]

theorem getLE_lt (mem : Mem) (w a : ℕ) : getLE mem a w < 256 ^ w := by
  induction w generalizing a with
  | zero => simp [getLE]
  | succ w ih =>
    have hb := (mem a).toNat_lt
    have hr := ih (a + 1)
    rw [getLE, Nat.pow_succ]
    omega

theorem getLE_putLE_from (mem : Mem) (b w n i : ℕ) (a : ℕ) (ha : a = b + i) :
    ∀ k, i + k ≤ w → getLE (putLE mem b w n) a k = n / 256 ^ i % 256 ^ k := by
  intro k
  induction k generalizing i a with
  | zero =>
    intro _
    rw [getLE, Nat.pow_zero, Nat.mod_one]
  | succ k ih =>
    intro hk
    have hbyte : (putLE mem b w n a).toNat = n / 256 ^ i % 256 := by
      rw [putLE, if_pos (by omega), show a - b = i by omega]
      exact UInt8.toNat_ofNat'
    rw [getLE, hbyte, ih (i + 1) (a + 1) (by omega) (by omega), Nat.pow_succ 256 i,
      ← Nat.div_div_eq_div_mul, Nat.pow_succ', Nat.mod_mul]

theorem getLE_putLE (mem : Mem) (a w n : ℕ) : getLE (putLE mem a w n) a w = n % 256 ^ w := by
  rw [getLE_putLE_from mem a w n 0 a (by omega) w (by omega), Nat.pow_zero, Nat.div_one]

@[simp] theorem load32_store32 (mem : Mem) (a : ℕ) (v : UInt32) :
    load32 (store32 mem a v) a = v := by
  have hv := v.toNat_lt
  rw [load32, store32, getLE_putLE, Nat.mod_eq_of_lt (by simpa using hv), UInt32.ofNat_toNat]

@[simp] theorem load64_store64 (mem : Mem) (a : ℕ) (v : UInt64) :
    load64 (store64 mem a v) a = v := by
  have hv := v.toNat_lt
  rw [load64, store64, getLE_putLE, Nat.mod_eq_of_lt (by simpa using hv), UInt64.ofNat_toNat]

theorem byte_getLE (mem : Mem) (w i a : ℕ) (hi : i < w) :
    UInt8.ofNat (getLE mem a w / 256 ^ i) = mem (a + i) := by
  induction i generalizing w a with
  | zero =>
    obtain ⟨w, rfl⟩ := Nat.exists_eq_succ_of_ne_zero (by omega : w ≠ 0)
    have hb := (mem a).toNat_lt
    simp only [← UInt8.toNat_inj, UInt8.toNat_ofNat', getLE, Nat.pow_zero,
      Nat.div_one, Nat.add_zero]
    omega
  | succ i ih =>
    obtain ⟨w, rfl⟩ := Nat.exists_eq_succ_of_ne_zero (by omega : w ≠ 0)
    have hb := (mem a).toNat_lt
    have hdiv : getLE mem a (w + 1) / 256 ^ (i + 1) = getLE mem (a + 1) w / 256 ^ i := by
      rw [getLE, Nat.pow_succ', ← Nat.div_div_eq_div_mul]
      congr 1
      omega
    rw [Nat.succ_eq_add_one, hdiv, ih w (a + 1) (by omega)]
    congr 1
    omega

theorem putLE_getLE (mem : Mem) (dst src w : ℕ) :
    putLE mem dst w (getLE mem src w) = copy mem dst src w := by
  funext x
  unfold putLE copy
  split_ifs with h
  · exact byte_getLE mem w (x - dst) src (by omega)
  · rfl

theorem store32_load32 (mem : Mem) (dst src : ℕ) :
    store32 mem dst (load32 mem src) = copy mem dst src 4 := by
  have h := getLE_lt mem 4 src
  rw [store32, load32, UInt32.toNat_ofNat', Nat.mod_eq_of_lt (by simpa using h), putLE_getLE]

theorem store64_load64 (mem : Mem) (dst src : ℕ) :
    store64 mem dst (load64 mem src) = copy mem dst src 8 := by
  have h := getLE_lt mem 8 src
  rw [store64, load64, UInt64.toNat_ofNat', Nat.mod_eq_of_lt (by simpa using h), putLE_getLE]

theorem store32_inj (mem : Mem) (a : ℕ) {v w : UInt32} :
    store32 mem a v = store32 mem a w ↔ v = w := by
  refine ⟨fun h ↦ ?_, fun h ↦ h ▸ rfl⟩
  rw [← load32_store32 mem a v, h, load32_store32]

theorem sameBytes_putLE (mem : Mem) {a w n b k : ℕ} (h : a + w ≤ b ∨ b + k ≤ a) :
    SameBytes mem (putLE mem a w n) b k := by
  intro x h1 h2
  rw [putLE, if_neg (by omega)]

/-- Two memories agree outside the `w` bytes at `a`. -/
def OnlyIn (mem mem' : Mem) (a w : ℕ) : Prop := ∀ x, ¬ (a ≤ x ∧ x < a + w) → mem' x = mem x

theorem OnlyIn.refl (mem : Mem) (a w : ℕ) : OnlyIn mem mem a w := fun _ _ ↦ rfl

theorem onlyIn_putLE (mem : Mem) (a w n : ℕ) : OnlyIn mem (putLE mem a w n) a w :=
  fun _ hx ↦ if_neg hx

theorem onlyIn_copy (mem : Mem) (dst src w : ℕ) : OnlyIn mem (copy mem dst src w) dst w :=
  fun _ hx ↦ if_neg hx

end ByteMemory
