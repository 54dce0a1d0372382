import JelloVM.Library.ByteMemory

/-! A part of the x86-64 instruction set. -/

namespace X64

open Function ByteMemory

inductive Gpr
  | rax
  | rcx
  | rdx
  | rbx
  | rsp
  | rbp
  | rsi
  | rdi
  | r8
  | r9
  | r10
  | r11
  | r12
  | r13
  | r14
  | r15
  deriving DecidableEq, Repr

structure Flags where
  zf : Bool
  cf : Bool
  sf : Bool
  ovf : Bool
  deriving DecidableEq, Repr

/-- `flags` is `none` after an instruction whose flags are left open here; of a vector register
there is the low half. -/
structure Machine where
  gpr : Gpr → UInt64
  xmm : ℕ → UInt64
  flags : Option Flags
  mem : Mem

/-- What a comparison of two floating point numbers can say. -/
inductive FloatOrder
  | unordered
  | less
  | equal
  | greater
  deriving DecidableEq, Repr, Inhabited

/-- The floating point unit, on bit patterns. -/
structure Sse where
  add32 : UInt32 → UInt32 → UInt32
  sub32 : UInt32 → UInt32 → UInt32
  mul32 : UInt32 → UInt32 → UInt32
  div32 : UInt32 → UInt32 → UInt32
  add64 : UInt64 → UInt64 → UInt64
  sub64 : UInt64 → UInt64 → UInt64
  mul64 : UInt64 → UInt64 → UInt64
  div64 : UInt64 → UInt64 → UInt64
  sqrt64 : UInt64 → UInt64
  cmp32 : UInt32 → UInt32 → FloatOrder
  cmp64 : UInt64 → UInt64 → FloatOrder
  deriving Inhabited

inductive Alu
  | add
  | sub
  | xor
  | cmp
  | test
  deriving DecidableEq, Repr

inductive Shift
  | shl
  | sar
  deriving DecidableEq, Repr

inductive Cond
  | e
  | l
  | b
  deriving DecidableEq, Repr

inductive FloatOp
  | add
  | sub
  | mul
  | div
  deriving DecidableEq, Repr

/-- Operands as in the manuals, the destination first; memory operands are a base and a
displacement of 32 bits. -/
inductive Insn
  | mov32 (dst src : Gpr)
  | mov64 (dst src : Gpr)
  | movImm32 (dst : Gpr) (imm : UInt32)
  | movImm64 (dst : Gpr) (imm : UInt64)
  | load32 (dst base : Gpr) (disp : UInt32)
  | load64 (dst base : Gpr) (disp : UInt32)
  | store32 (src base : Gpr) (disp : UInt32)
  | store64 (src base : Gpr) (disp : UInt32)
  | alu32 (op : Alu) (dst src : Gpr)
  | alu64 (op : Alu) (dst src : Gpr)
  | aluImm32 (op : Alu) (dst : Gpr) (imm : UInt32)
  | imul32 (dst src : Gpr)
  | imul64 (dst src : Gpr)
  | neg32 (dst : Gpr)
  | neg64 (dst : Gpr)
  | cdq
  | cqo
  | idiv32 (divisor : Gpr)
  | idiv64 (divisor : Gpr)
  | shiftCl32 (op : Shift) (dst : Gpr)
  | shiftCl64 (op : Shift) (dst : Gpr)
  | setcc (cc : Cond) (dst : Gpr)
  | movzx8 (dst src : Gpr)
  | movssLoad (dst : ℕ) (base : Gpr) (disp : UInt32)
  | movsdLoad (dst : ℕ) (base : Gpr) (disp : UInt32)
  | movssStore (src : ℕ) (base : Gpr) (disp : UInt32)
  | movsdStore (src : ℕ) (base : Gpr) (disp : UInt32)
  | float32 (op : FloatOp) (dst src : ℕ)
  | float64 (op : FloatOp) (dst src : ℕ)
  | sqrtsd (dst src : ℕ)
  | comiss (a b : ℕ)
  | comisd (a b : ℕ)
  deriving DecidableEq, Repr

section Words

/-- The signed reading of a word -/
def int32 (x : UInt32) : ℤ := x.toBitVec.toInt

def int64 (x : UInt64) : ℤ := x.toBitVec.toInt

def sar32 (x : UInt32) (n : ℕ) : UInt32 := ⟨x.toBitVec.sshiftRight n⟩

def sar64 (x : UInt64) (n : ℕ) : UInt64 := ⟨x.toBitVec.sshiftRight n⟩

/-- A displacement is sign extended. -/
def extend32 (x : UInt32) : UInt64 :=
  if x.toNat < 2 ^ 31 then x.toUInt64 else x.toUInt64 + 0xffffffff00000000

def subFlags {w : ℕ} (a b : BitVec w) : Flags :=
  { zf := a - b == 0
    cf := a.ult b
    sf := (a - b).msb
    ovf := a.msb != b.msb && a.msb != (a - b).msb }

def logicFlags {w : ℕ} (r : BitVec w) : Flags :=
  { zf := r == 0, cf := false, sf := r.msb, ovf := false }

def Flags.holds (fl : Flags) : Cond → Bool
  | .e => fl.zf
  | .l => fl.sf != fl.ovf
  | .b => fl.cf

/-- What `COMISS` and `COMISD` put into the flags. -/
def FloatOrder.flags : FloatOrder → Flags
  | .unordered => { zf := true, cf := true, sf := false, ovf := false }
  | .less => { zf := false, cf := true, sf := false, ovf := false }
  | .equal => { zf := true, cf := false, sf := false, ovf := false }
  | .greater => { zf := false, cf := false, sf := false, ovf := false }

end Words

namespace Machine

variable (μ : Machine)

def set (r : Gpr) (v : UInt64) : Machine := { μ with gpr := update μ.gpr r v }

/-- A write of 32 bits clears the upper half. -/
def set32 (r : Gpr) (v : UInt32) : Machine := μ.set r v.toUInt64

def get32 (r : Gpr) : UInt32 := (μ.gpr r).toUInt32

def setXmm (i : ℕ) (v : UInt64) : Machine := { μ with xmm := update μ.xmm i v }

def setXmm32 (i : ℕ) (v : UInt32) : Machine :=
  μ.setXmm i (((μ.xmm i >>> 32) <<< 32) ||| v.toUInt64)

def setFlags (fl : Flags) : Machine := { μ with flags := some fl }

def openFlags : Machine := { μ with flags := none }

def setMem (mem : Mem) : Machine := { μ with mem := mem }

def ea (base : Gpr) (disp : UInt32) : ℕ := (μ.gpr base + extend32 disp).toNat

end Machine

section Exec

variable (sse : Sse)

def FloatOp.eval32 : FloatOp → UInt32 → UInt32 → UInt32
  | .add => sse.add32
  | .sub => sse.sub32
  | .mul => sse.mul32
  | .div => sse.div32

def FloatOp.eval64 : FloatOp → UInt64 → UInt64 → UInt64
  | .add => sse.add64
  | .sub => sse.sub64
  | .mul => sse.mul64
  | .div => sse.div64

/-- `CMP` and `TEST` change the flags only. -/
def execAlu32 (op : Alu) (dst : Gpr) (b : UInt32) (μ : Machine) : Machine :=
  let a := μ.get32 dst
  match op with
  | .add => (μ.set32 dst (a + b)).openFlags
  | .sub => (μ.set32 dst (a - b)).setFlags (subFlags a.toBitVec b.toBitVec)
  | .xor => (μ.set32 dst (a ^^^ b)).setFlags (logicFlags (a ^^^ b).toBitVec)
  | .cmp => μ.setFlags (subFlags a.toBitVec b.toBitVec)
  | .test => μ.setFlags (logicFlags (a &&& b).toBitVec)

def execAlu64 (op : Alu) (dst : Gpr) (b : UInt64) (μ : Machine) : Machine :=
  let a := μ.gpr dst
  match op with
  | .add => (μ.set dst (a + b)).openFlags
  | .sub => (μ.set dst (a - b)).setFlags (subFlags a.toBitVec b.toBitVec)
  | .xor => (μ.set dst (a ^^^ b)).setFlags (logicFlags (a ^^^ b).toBitVec)
  | .cmp => μ.setFlags (subFlags a.toBitVec b.toBitVec)
  | .test => μ.setFlags (logicFlags (a &&& b).toBitVec)

/-- The quotient and the remainder of a signed division, `none` where the machine traps; `w` is
the width of the quotient. -/
def signedDiv (w : ℕ) (n d : ℤ) : Option (ℤ × ℤ) :=
  if d = 0 then none
  else if n.tdiv d < -2 ^ (w - 1) ∨ 2 ^ (w - 1) ≤ n.tdiv d then none
  else some (n.tdiv d, n.tmod d)

/-- One instruction; `none` is the divide error, and a condition on flags that are open. -/
def exec (μ : Machine) : Insn → Option Machine
  | .mov32 dst src => some (μ.set32 dst (μ.get32 src))
  | .mov64 dst src => some (μ.set dst (μ.gpr src))
  | .movImm32 dst imm => some (μ.set32 dst imm)
  | .movImm64 dst imm => some (μ.set dst imm)
  | .load32 dst base disp => some (μ.set32 dst (load32 μ.mem (μ.ea base disp)))
  | .load64 dst base disp => some (μ.set dst (load64 μ.mem (μ.ea base disp)))
  | .store32 src base disp => some (μ.setMem (store32 μ.mem (μ.ea base disp) (μ.get32 src)))
  | .store64 src base disp => some (μ.setMem (store64 μ.mem (μ.ea base disp) (μ.gpr src)))
  | .alu32 op dst src => some (execAlu32 op dst (μ.get32 src) μ)
  | .alu64 op dst src => some (execAlu64 op dst (μ.gpr src) μ)
  | .aluImm32 op dst imm => some (execAlu32 op dst imm μ)
  | .imul32 dst src => some (μ.set32 dst (μ.get32 dst * μ.get32 src)).openFlags
  | .imul64 dst src => some (μ.set dst (μ.gpr dst * μ.gpr src)).openFlags
  | .neg32 dst => some (μ.set32 dst (0 - μ.get32 dst)).openFlags
  | .neg64 dst => some (μ.set dst (0 - μ.gpr dst)).openFlags
  | .cdq => some (μ.set32 .rdx (sar32 (μ.get32 .rax) 31))
  | .cqo => some (μ.set .rdx (sar64 (μ.gpr .rax) 63))
  | .idiv32 divisor =>
    (signedDiv 32 (int32 (μ.get32 .rdx) * 2 ^ 32 + (μ.get32 .rax).toNat)
      (int32 (μ.get32 divisor))).map fun r ↦
        ((μ.set32 .rax ⟨BitVec.ofInt 32 r.1⟩).set32 .rdx ⟨BitVec.ofInt 32 r.2⟩).openFlags
  | .idiv64 divisor =>
    (signedDiv 64 (int64 (μ.gpr .rdx) * 2 ^ 64 + (μ.gpr .rax).toNat)
      (int64 (μ.gpr divisor))).map fun r ↦
        ((μ.set .rax ⟨BitVec.ofInt 64 r.1⟩).set .rdx ⟨BitVec.ofInt 64 r.2⟩).openFlags
  | .shiftCl32 op dst =>
    let n := μ.get32 .rcx &&& 31
    match op with
    | .shl => some (μ.set32 dst (μ.get32 dst <<< n)).openFlags
    | .sar => some (μ.set32 dst (sar32 (μ.get32 dst) n.toNat)).openFlags
  | .shiftCl64 op dst =>
    let n := μ.gpr .rcx &&& 63
    match op with
    | .shl => some (μ.set dst (μ.gpr dst <<< n)).openFlags
    | .sar => some (μ.set dst (sar64 (μ.gpr dst) n.toNat)).openFlags
  | .setcc cc dst =>
    μ.flags.map fun fl ↦
      μ.set dst (UInt64.ofNat ((μ.gpr dst).toNat / 256 * 256 + if fl.holds cc then 1 else 0))
  | .movzx8 dst src => some (μ.set32 dst (UInt32.ofNat ((μ.gpr src).toNat % 256)))
  | .movssLoad dst base disp =>
    some (μ.setXmm dst (load32 μ.mem (μ.ea base disp)).toUInt64)
  | .movsdLoad dst base disp => some (μ.setXmm dst (load64 μ.mem (μ.ea base disp)))
  | .movssStore src base disp =>
    some (μ.setMem (store32 μ.mem (μ.ea base disp) (μ.xmm src).toUInt32))
  | .movsdStore src base disp =>
    some (μ.setMem (store64 μ.mem (μ.ea base disp) (μ.xmm src)))
  | .float32 op dst src =>
    some (μ.setXmm32 dst (op.eval32 sse (μ.xmm dst).toUInt32 (μ.xmm src).toUInt32))
  | .float64 op dst src => some (μ.setXmm dst (op.eval64 sse (μ.xmm dst) (μ.xmm src)))
  | .sqrtsd dst src => some (μ.setXmm dst (sse.sqrt64 (μ.xmm src)))
  | .comiss a b =>
    some (μ.setFlags (sse.cmp32 (μ.xmm a).toUInt32 (μ.xmm b).toUInt32).flags)
  | .comisd a b => some (μ.setFlags (sse.cmp64 (μ.xmm a) (μ.xmm b)).flags)

def execAll (μ : Machine) (code : List Insn) : Option Machine := code.foldlM (exec sse) μ

end Exec

section Flags

variable {w : ℕ} (a b : BitVec w)

@[simp] theorem holds_e : (subFlags a b).holds .e = decide (a = b) := by
  have h : a - b = 0#w ↔ a = b := sub_eq_zero
  by_cases hab : a = b
  · simp [Flags.holds, subFlags, hab]
  · simp [Flags.holds, subFlags, hab, h]

@[simp] theorem holds_l : (subFlags a b).holds .l = decide (a.toInt < b.toInt) := by
  cases w with
  | zero => simp [Flags.holds, subFlags, BitVec.of_length_zero]
  | succ w =>
    have ha := a.isLt
    have hb := b.isLt
    rw [Bool.eq_iff_iff, decide_eq_true_iff]
    simp only [Flags.holds, subFlags, BitVec.msb_eq_decide, BitVec.toInt_eq_toNat_cond,
      BitVec.toNat_sub, Nat.add_sub_cancel]
    have hpow : 2 ^ (w + 1) = 2 * 2 ^ w := Nat.pow_succ'
    rw [hpow] at ha hb ⊢
    generalize 2 ^ w = p at ha hb ⊢
    generalize a.toNat = x at ha ⊢
    generalize b.toNat = y at hb ⊢
    have hdiff : (2 * p - y + x) % (2 * p) = if x < y then 2 * p - y + x else x - y := by
      split_ifs with hxy
      · exact Nat.mod_eq_of_lt (by omega)
      · rw [show 2 * p - y + x = x - y + 2 * p by omega, Nat.add_mod_right,
          Nat.mod_eq_of_lt (by omega)]
    rw [hdiff]
    by_cases hx : p ≤ x <;> by_cases hy : p ≤ y <;> by_cases hxy : x < y <;>
      simp [hx, hy, hxy] <;> omega

end Flags

section Division

theorem tdiv_out_of_range {n d p : ℤ} (hlo : -p ≤ n) (hhi : n < p) (hd : d ≠ 0) :
    (n.tdiv d < -p ∨ p ≤ n.tdiv d) ↔ n = -p ∧ d = -1 := by
  by_cases hone : d = 1
  · simp only [hone, Int.tdiv_one]
    omega
  · by_cases hneg : d = -1
    · simp only [hneg, Int.tdiv_neg, Int.tdiv_one, and_true]
      omega
    · have habs := Int.natAbs_tdiv n d
      have hle : n.natAbs.div d.natAbs ≤ n.natAbs / 2 :=
        Nat.div_le_div_left (by omega) (by omega)
      omega

/-- The division of words faults for a divisor of 0, and where the quotient has no word. -/
theorem signedDiv_toInt {w : ℕ} (a b : BitVec w) : signedDiv w a.toInt b.toInt =
    if b = 0#w ∨ a.toInt = -2 ^ (w - 1) ∧ b.toInt = -1 then none
    else some (a.toInt.tdiv b.toInt, a.toInt.tmod b.toInt) := by
  have hzero : b.toInt = 0 ↔ b = 0#w := by rw [← BitVec.toInt_zero, BitVec.toInt_inj]
  unfold signedDiv
  by_cases hb : b = 0#w
  · simp [hb]
  · have hd : b.toInt ≠ 0 := fun h ↦ hb (hzero.mp h)
    rw [if_neg hd]
    simp only [hb, false_or]
    exact if_congr (tdiv_out_of_range a.le_toInt BitVec.toInt_lt hd) rfl rfl

theorem dividend_toInt {w : ℕ} (a : BitVec w) :
    (a.sshiftRight (w - 1)).toInt * 2 ^ w + a.toNat = a.toInt := by
  cases w with
  | zero => simp [BitVec.of_length_zero]
  | succ w =>
    have hpow : 2 ^ (w + 1) = 2 * 2 ^ w := Nat.pow_succ'
    have hlt := a.isLt
    have hsign : a.toInt / ((2 ^ w : ℕ) : ℤ) = if a.toNat < 2 ^ w then 0 else -1 := by
      rw [BitVec.toInt_eq_toNat_cond, hpow]
      rw [hpow] at hlt
      have hpos : 0 < 2 ^ w := Nat.two_pow_pos w
      generalize 2 ^ w = p at hlt hpos ⊢
      split_ifs with h h' h'
      · exact Int.ediv_eq_zero_of_lt (by omega) (by omega)
      · omega
      · omega
      · rw [Int.ediv_eq_iff_of_pos (by omega)]
        push_cast
        constructor <;> linarith
    rw [BitVec.toInt_sshiftRight, Nat.add_sub_cancel, Int.shiftRight_eq_div_pow, hsign,
      BitVec.toInt_eq_toNat_cond, hpow, pow_succ]
    split_ifs with h h' h'
    · omega
    · omega
    · omega
    · push_cast
      ring

theorem ofInt_tdiv {w : ℕ} (a b : BitVec w) :
    BitVec.ofInt w (a.toInt.tdiv b.toInt) = a.sdiv b := by
  rw [← BitVec.toInt_inj, BitVec.toInt_ofInt, BitVec.toInt_sdiv]

theorem ofInt_tmod {w : ℕ} (a b : BitVec w) :
    BitVec.ofInt w (a.toInt.tmod b.toInt) = a.srem b := by
  rw [← BitVec.toInt_srem, BitVec.ofInt_toInt]

end Division

namespace Machine

variable (μ : Machine) (r r' : Gpr)

@[simp] theorem gpr_set (v : UInt64) :
    (μ.set r v).gpr r' = if r' = r then v else μ.gpr r' := by
  simp [set, update_apply]

@[simp] theorem gpr_set32 (v : UInt32) :
    (μ.set32 r v).gpr r' = if r' = r then v.toUInt64 else μ.gpr r' := by
  simp [set32]

@[simp] theorem get32_set (v : UInt64) :
    (μ.set r v).get32 r' = if r' = r then v.toUInt32 else μ.get32 r' := by
  unfold get32
  rw [gpr_set]
  split_ifs <;> rfl

@[simp] theorem get32_set32 (v : UInt32) :
    (μ.set32 r v).get32 r' = if r' = r then v else μ.get32 r' := by
  rw [set32, get32_set, UInt32.toUInt32_toUInt64]

@[simp] theorem gpr_openFlags : μ.openFlags.gpr = μ.gpr := rfl

@[simp] theorem gpr_setFlags (fl : Flags) : (μ.setFlags fl).gpr = μ.gpr := rfl

@[simp] theorem get32_openFlags : μ.openFlags.get32 r = μ.get32 r := rfl

@[simp] theorem get32_setFlags (fl : Flags) : (μ.setFlags fl).get32 r = μ.get32 r := rfl

@[simp] theorem mem_set (v : UInt64) : (μ.set r v).mem = μ.mem := rfl

@[simp] theorem mem_set32 (v : UInt32) : (μ.set32 r v).mem = μ.mem := rfl

@[simp] theorem mem_openFlags : μ.openFlags.mem = μ.mem := rfl

@[simp] theorem mem_setFlags (fl : Flags) : (μ.setFlags fl).mem = μ.mem := rfl

@[simp] theorem xmm_setXmm (i j : ℕ) (v : UInt64) :
    (μ.setXmm i v).xmm j = if j = i then v else μ.xmm j := by
  simp [setXmm, update_apply]

@[simp] theorem flags_setFlags (fl : Flags) : (μ.setFlags fl).flags = some fl := rfl

end Machine

section Runs

variable {sse : Sse} {μ μ' μ'' : Machine} {code code' : List Insn} {Q R : Machine → Prop}

/-- The code runs to its end, and leaves `Q`. -/
def Runs (sse : Sse) (code : List Insn) (μ : Machine) (Q : Machine → Prop) : Prop :=
  ∃ μ', execAll sse μ code = some μ' ∧ Q μ'

theorem execAll_cons {i : Insn} : execAll sse μ (i :: code) =
    (exec sse μ i).bind fun μ' ↦ execAll sse μ' code := rfl

theorem execAll_single {i : Insn} : execAll sse μ [i] = exec sse μ i := by
  rw [execAll_cons]
  cases exec sse μ i <;> rfl

theorem execAll_append : execAll sse μ (code ++ code') =
    (execAll sse μ code).bind fun μ' ↦ execAll sse μ' code' :=
  List.foldlM_append

theorem runs_append : Runs sse (code ++ code') μ Q ↔
    Runs sse code μ fun μ' ↦ Runs sse code' μ' Q := by
  unfold Runs
  rw [execAll_append]
  cases execAll sse μ code with
  | none => simp
  | some μ₁ => simp

theorem Runs.mono (h : Runs sse code μ Q) (hQR : ∀ μ', Q μ' → R μ') : Runs sse code μ R := by
  obtain ⟨μ', hrun, hQ⟩ := h
  exact ⟨μ', hrun, hQR μ' hQ⟩

theorem Runs.of_execAll (h : Runs sse code μ Q) (hrun : execAll sse μ code = some μ') : Q μ' := by
  obtain ⟨μ₁, hrun₁, hQ⟩ := h
  rw [hrun₁] at hrun
  exact Option.some.inj hrun ▸ hQ

theorem faults_append (h : Runs sse code μ fun μ' ↦ execAll sse μ' code' = none) :
    execAll sse μ (code ++ code') = none := by
  obtain ⟨μ', hrun, hfault⟩ := h
  rw [execAll_append, hrun]
  exact hfault

theorem runs_of_exec {i : Insn} (h : exec sse μ i = some μ') (hQ : Q μ') :
    Runs sse [i] μ Q :=
  ⟨μ', execAll_single.trans h, hQ⟩

/-- The memory is as before, and so are the registers that are not in the list. -/
structure Kept (rs : List Gpr) (μ μ' : Machine) : Prop where
  mem : μ'.mem = μ.mem
  gpr : ∀ r ∉ rs, μ'.gpr r = μ.gpr r

theorem Kept.refl (rs : List Gpr) (μ : Machine) : Kept rs μ μ := ⟨rfl, fun _ _ ↦ rfl⟩

theorem Kept.trans {rs rs' : List Gpr} (h : Kept rs μ μ') (h' : Kept rs' μ' μ'') :
    Kept (rs ++ rs') μ μ'' := by
  refine ⟨h'.mem.trans h.mem, fun r hr ↦ ?_⟩
  rw [List.mem_append, not_or] at hr
  rw [h'.gpr r hr.2, h.gpr r hr.1]

theorem Kept.get32 {rs : List Gpr} (h : Kept rs μ μ') {r : Gpr} (hr : r ∉ rs) :
    μ'.get32 r = μ.get32 r := by
  rw [Machine.get32, Machine.get32, h.gpr r hr]

theorem Kept.setFlags {rs : List Gpr} (h : Kept rs μ μ') (fl : Flags) :
    Kept rs μ (μ'.setFlags fl) := ⟨h.mem, h.gpr⟩

theorem Kept.openFlags {rs : List Gpr} (h : Kept rs μ μ') : Kept rs μ μ'.openFlags :=
  ⟨h.mem, h.gpr⟩

theorem runs_setcc {fl : Flags} {cc : Cond} {r : Gpr} (hfl : μ.flags = some fl) :
    Runs sse [.setcc cc r, .movzx8 r r] μ fun μ' ↦
      μ'.gpr r = (if fl.holds cc then 1 else 0) ∧ Kept [r] μ μ' := by
  have hx := (μ.gpr r).toNat_lt
  obtain ⟨b, hb⟩ : ∃ b : ℕ, b = if fl.holds cc then 1 else 0 := ⟨_, rfl⟩
  have hlt : b ≤ 1 := by
    rw [hb]
    split_ifs <;> omega
  have hset : exec sse μ (.setcc cc r) =
      some (μ.set r (UInt64.ofNat ((μ.gpr r).toNat / 256 * 256 + b))) := by
    rw [exec, hfl, hb]
    rfl
  have hbyte : (UInt64.ofNat ((μ.gpr r).toNat / 256 * 256 + b)).toNat % 256 = b := by
    rw [UInt64.toNat_ofNat']
    omega
  have hzx : exec sse (μ.set r (UInt64.ofNat ((μ.gpr r).toNat / 256 * 256 + b))) (.movzx8 r r) =
      some ((μ.set r (UInt64.ofNat ((μ.gpr r).toNat / 256 * 256 + b))).set32 r (UInt32.ofNat b)) := by
    rw [exec, Machine.gpr_set, if_pos rfl, hbyte]
  refine ⟨(μ.set r (UInt64.ofNat ((μ.gpr r).toNat / 256 * 256 + b))).set32 r (UInt32.ofNat b),
    ?_, ?_, rfl, fun r' hr' ↦ ?_⟩
  · rw [execAll_cons, hset, Option.bind_some, execAll_single, hzx]
  · rw [Machine.gpr_set32, if_pos rfl, hb]
    split_ifs <;> rfl
  · rw [List.mem_singleton] at hr'
    rw [Machine.gpr_set32, if_neg hr', Machine.gpr_set, if_neg hr']

end Runs

section Writes

/-- The registers that an instruction may write -/
def Insn.writes : Insn → List Gpr
  | .mov32 dst _ | .mov64 dst _ | .movImm32 dst _ | .movImm64 dst _ | .load32 dst _ _
  | .load64 dst _ _ | .imul32 dst _ | .imul64 dst _ | .neg32 dst | .neg64 dst | .shiftCl32 _ dst
  | .shiftCl64 _ dst | .setcc _ dst | .movzx8 dst _ => [dst]
  | .alu32 op dst _ | .alu64 op dst _ | .aluImm32 op dst _ =>
    match op with
    | .add | .sub | .xor => [dst]
    | .cmp | .test => []
  | .cdq | .cqo => [.rdx]
  | .idiv32 _ | .idiv64 _ => [.rax, .rdx]
  | .store32 _ _ _ | .store64 _ _ _ | .movssLoad _ _ _ | .movsdLoad _ _ _ | .movssStore _ _ _
  | .movsdStore _ _ _ | .float32 _ _ _ | .float64 _ _ _ | .sqrtsd _ _ | .comiss _ _
  | .comisd _ _ => []

/-- The code writes no registers but some. -/
def WritesIn (rs : List Gpr) (code : List Insn) : Prop := ∀ i ∈ code, i.writes ⊆ rs

variable {sse : Sse} {μ μ' : Machine} {code code' : List Insn} {r : Gpr} {rs rs' : List Gpr}

theorem exec_gpr {i : Insn} (h : exec sse μ i = some μ') (hr : r ∉ i.writes) :
    μ'.gpr r = μ.gpr r := by
  cases i with
  | alu32 op dst src =>
    cases h
    cases op <;> simp_all [Insn.writes, execAlu32]
  | alu64 op dst src =>
    cases h
    cases op <;> simp_all [Insn.writes, execAlu64]
  | aluImm32 op dst imm =>
    cases h
    cases op <;> simp_all [Insn.writes, execAlu32]
  | idiv32 divisor =>
    obtain ⟨p, -, rfl⟩ := Option.map_eq_some_iff.mp h
    simp_all [Insn.writes]
  | idiv64 divisor =>
    obtain ⟨p, -, rfl⟩ := Option.map_eq_some_iff.mp h
    simp_all [Insn.writes]
  | shiftCl32 op dst =>
    cases op <;>
    · cases h
      simp_all [Insn.writes]
  | shiftCl64 op dst =>
    cases op <;>
    · cases h
      simp_all [Insn.writes]
  | setcc cc dst =>
    obtain ⟨fl, -, rfl⟩ := Option.map_eq_some_iff.mp h
    simp_all [Insn.writes]
  | store32 | store64 | movssLoad | movsdLoad | movssStore | movsdStore | float32 | float64 |
    sqrtsd | comiss | comisd =>
    cases h
    rfl
  | mov32 | mov64 | movImm32 | movImm64 | load32 | load64 | imul32 | imul64 | neg32 | neg64 | cdq |
    cqo | movzx8 =>
    cases h
    simp_all [Insn.writes]

@[simp] theorem writesIn_nil : WritesIn rs [] := fun _ h ↦ absurd h List.not_mem_nil

@[simp] theorem writesIn_cons {i : Insn} :
    WritesIn rs (i :: code) ↔ i.writes ⊆ rs ∧ WritesIn rs code := List.forall_mem_cons

@[simp] theorem writesIn_append :
    WritesIn rs (code ++ code') ↔ WritesIn rs code ∧ WritesIn rs code' := List.forall_mem_append

theorem WritesIn.take (h : WritesIn rs code) (n : ℕ) : WritesIn rs (code.take n) :=
  fun i hi ↦ h i (List.mem_of_mem_take hi)

theorem WritesIn.mono (h : WritesIn rs code) (hrs : rs ⊆ rs') : WritesIn rs' code :=
  fun i hi ↦ List.Subset.trans (h i hi) hrs

theorem WritesIn.gpr (h : WritesIn rs code) (hrun : execAll sse μ code = some μ') (hr : r ∉ rs) :
    μ'.gpr r = μ.gpr r := by
  induction code generalizing μ with
  | nil =>
    cases hrun
    rfl
  | cons i code ih =>
    rw [writesIn_cons] at h
    obtain ⟨μ₁, hi, hrest⟩ := Option.bind_eq_some_iff.mp hrun
    rw [ih h.2 hrest, exec_gpr hi fun hmem ↦ hr (h.1 hmem)]

end Writes

end X64
