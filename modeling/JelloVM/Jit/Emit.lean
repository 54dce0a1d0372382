import JelloVM.Library.X64
import JelloVM.Jit.Sites

/-! The code that the x64 backend emits for the sites that call no helper. -/

namespace JelloVM

open X64

def jitRegBase : Gpr := .r13

def jitRegT0 : Gpr := .r14

def jitRegT1 : Gpr := .r15

def jitRegT2 : Gpr := .r10

/-- It holds the last I32 slot stored, where the emitter knows of one. -/
def jitRegI32c : Gpr := .rbx

section Slots

/-- An access to the slot at `off`; where a displacement cannot hold the offset, the address is
made in a register. -/
def emitSlot (align : ℕ) (access : Gpr → UInt32 → Insn) (off : ℕ) : List Insn :=
  if off ≤ 0x7fffffff ∧ off % align = 0 then [access jitRegBase (UInt32.ofNat off)]
  else [.movImm64 jitRegT2 (UInt64.ofNat off), .alu64 .add jitRegT2 jitRegBase, access jitRegT2 0]

def emitLdrWSlot (rt : Gpr) (off : ℕ) : List Insn := emitSlot 4 (.load32 rt) off

def emitStrWSlot (rt : Gpr) (off : ℕ) : List Insn := emitSlot 4 (.store32 rt) off

def emitLdrXSlot (rt : Gpr) (off : ℕ) : List Insn := emitSlot 8 (.load64 rt) off

def emitStrXSlot (rt : Gpr) (off : ℕ) : List Insn := emitSlot 8 (.store64 rt) off

def emitLdrDSlot (dt off : ℕ) : List Insn := emitSlot 8 (.movsdLoad dt) off

def emitStrDSlot (dt off : ℕ) : List Insn := emitSlot 8 (.movsdStore dt) off

def emitLdrSSlot (st off : ℕ) : List Insn := emitSlot 4 (.movssLoad st) off

def emitStrSSlot (st off : ℕ) : List Insn := emitSlot 4 (.movssStore st) off

end Slots

def emitBinI32 : JirBin → List Insn
  | .sub => [.alu32 .sub jitRegT0 jitRegT1]
  | .mul => [.imul32 jitRegT0 jitRegT1]
  | .sdiv => [.mov32 .rax jitRegT0, .cdq, .idiv32 jitRegT1, .mov32 jitRegT0 .rax]
  | .mod => [.mov32 .rax jitRegT0, .cdq, .idiv32 jitRegT1, .mov32 jitRegT0 .rdx]
  | .shl => [.mov32 .rcx jitRegT1, .shiftCl32 .shl jitRegT0]
  | .shr => [.mov32 .rcx jitRegT1, .shiftCl32 .sar jitRegT0]
  | .xor => [.alu32 .xor jitRegT0 jitRegT1]
  | .add => [.alu32 .add jitRegT0 jitRegT1]

def emitBinI64 : JirBin → List Insn
  | .sub => [.alu64 .sub jitRegT0 jitRegT1]
  | .mul => [.imul64 jitRegT0 jitRegT1]
  | .sdiv => [.mov64 .rax jitRegT0, .cqo, .idiv64 jitRegT1, .mov64 jitRegT0 .rax]
  | .mod => [.mov64 .rax jitRegT0, .cqo, .idiv64 jitRegT1, .mov64 jitRegT0 .rdx]
  | .shl => [.mov32 .rcx jitRegT1, .shiftCl64 .shl jitRegT0]
  | .shr => [.mov32 .rcx jitRegT1, .shiftCl64 .sar jitRegT0]
  | .xor => [.alu64 .xor jitRegT0 jitRegT1]
  | .add => [.alu64 .add jitRegT0 jitRegT1]

def floatOp : JirBin → FloatOp
  | .sub => .sub
  | .mul => .mul
  | .sdiv => .div
  | _ => .add

def emitBinF64 (bin : JirBin) : List Insn := [.float64 (floatOp bin) 0 1]

def emitBinF32 (bin : JirBin) : List Insn := [.float32 (floatOp bin) 0 1]

def emitCmpSetI32 (cmp : JirCmp) : List Insn :=
  [.setcc (if cmp = .lt then .l else .e) jitRegT0, .movzx8 jitRegT0 jitRegT0]

/-- The flags of a floating point comparison are those of an unsigned one. -/
def emitCmpSetFloat (cmp : JirCmp) : List Insn :=
  [.setcc (if cmp = .lt then .b else .e) jitRegT0, .movzx8 jitRegT0 jitRegT0]

section Cached

/-- `i32c` is the register whose content `RBX` holds. -/
def emitLdrI32 (rt : Gpr) (off : ℕ → ℕ) (i32c : Option ℕ) (r : ℕ) : List Insn :=
  if i32c = some r then [.mov32 rt jitRegI32c] else emitLdrWSlot rt (off r)

/-- After it, `RBX` holds what the slot holds. -/
def emitStrI32T0 (off : ℕ → ℕ) (r : ℕ) : List Insn :=
  emitStrWSlot jitRegT0 (off r) ++ [.mov32 jitRegI32c jitRegT0]

end Cached

/-- What is emitted for a site: code, code that ends in a branch, or the call of a helper. -/
inductive SiteCode
  | code (code : List Insn)
  | branch (code : List Insn)
  | helper

section Emit

variable (m : JelloBcModule) (f : ℕ) (off : ℕ → ℕ) (i32c : Option ℕ)

def regSlotSz (r : ℕ) : ℕ := jelloSlotSize (regKind m f r)

def emitMovReg (x : JirInsn) : List Insn :=
  if regSlotSz m f x.a = 8 then
    emitLdrXSlot jitRegT0 (off x.b) ++ emitStrXSlot jitRegT0 (off x.a)
  else emitLdrI32 jitRegT0 off i32c x.b ++ emitStrI32T0 off x.a

def emitBinI32Site (bin : JirBin) (x : JirInsn) : List Insn :=
  let bcOp := ((m.func f).insn x.bcPc).op
  let imm8 := sext8 (UInt32.ofNat x.c)
  let rhs :=
    if bcOp = .addI32Imm ∨ bcOp = .subI32Imm ∨ bcOp = .mulI32Imm then
      if bin = .sub then [.aluImm32 .sub jitRegT0 imm8]
      else if bin = .add then [.aluImm32 .add jitRegT0 imm8]
      else .movImm32 jitRegT1 imm8 :: emitBinI32 bin
    else emitLdrI32 jitRegT1 off i32c x.c ++ emitBinI32 bin
  emitLdrI32 jitRegT0 off i32c x.b ++ rhs ++ emitStrI32T0 off x.a

/-- A comparison with register 255 stands for one with 0, except for small immediates. -/
def emitCmpI32Site (cmp : JirCmp) (x : JirInsn) : List Insn :=
  let bcOp := ((m.func f).insn x.bcPc).op
  let rhs :=
    if bcOp = .eqI32Imm ∨ bcOp = .ltI32Imm then
      [.aluImm32 .cmp jitRegT0 (sext8 (UInt32.ofNat x.c))]
    else if x.c = 255 then [.aluImm32 .cmp jitRegT0 0]
    else emitLdrI32 jitRegT1 off i32c x.c ++ [.alu32 .cmp jitRegT0 jitRegT1]
  emitLdrI32 jitRegT0 off i32c x.b ++ rhs ++ emitCmpSetI32 cmp ++ emitStrI32T0 off x.a

def emitLoadX (dst : ℕ) (v : UInt64) : List Insn :=
  .movImm64 jitRegT0 v :: emitStrXSlot jitRegT0 (off dst)

/-- The two operands of eight bytes and the result. -/
def emitBinX (op : List Insn) (x : JirInsn) : List Insn :=
  emitLdrXSlot jitRegT0 (off x.b) ++ emitLdrXSlot jitRegT1 (off x.c) ++ op ++
    emitStrXSlot jitRegT0 (off x.a)

def emitSwitch (x : JirInsn) (cases : List JirInsn) : List Insn :=
  emitLdrI32 jitRegT0 off i32c x.a ++
    cases.flatMap fun cs ↦
      [.movImm32 jitRegT1 (UInt32.ofNat cs.a), .alu64 .cmp jitRegT0 jitRegT1]

/-- The cases of `emit_ir`, without the jumps; `cases` are the sites of the cases of a switch. -/
def emitIr (cases : List JirInsn) (x : JirInsn) : SiteCode :=
  match x.op with
  | .nop => .code []
  | .loadI32 => .code (.movImm32 jitRegT0 x.imm :: emitStrI32T0 off x.a)
  | .loadI64 => .code (emitLoadX off x.a (m.constI64.getD x.imm.toNat 0))
  | .loadF64 => .code (emitLoadX off x.a (m.constF64.getD x.imm.toNat 0))
  | .loadF32 => .code (.movImm32 jitRegT0 x.imm :: emitStrWSlot jitRegT0 (off x.a))
  | .movReg => .code (emitMovReg m f off i32c x)
  | .binI32 bin => .code (emitBinI32Site m f off i32c bin x)
  | .binI64 bin => .code (emitBinX off (emitBinI64 bin) x)
  | .binF64 bin =>
    .code (emitLdrDSlot 0 (off x.b) ++ emitLdrDSlot 1 (off x.c) ++ emitBinF64 bin ++
      emitStrDSlot 0 (off x.a))
  | .sqrtF64 => .code (emitLdrDSlot 0 (off x.b) ++ [.sqrtsd 0 0] ++ emitStrDSlot 0 (off x.a))
  | .binF32 bin =>
    .code (emitLdrSSlot 0 (off x.b) ++ emitLdrSSlot 1 (off x.c) ++ emitBinF32 bin ++
      emitStrSSlot 0 (off x.a))
  | .negI32 =>
    .code (emitLdrI32 jitRegT0 off i32c x.b ++ [.neg32 jitRegT0] ++ emitStrI32T0 off x.a)
  | .negI64 =>
    .code (emitLdrXSlot jitRegT0 (off x.b) ++ [.neg64 jitRegT0] ++ emitStrXSlot jitRegT0 (off x.a))
  | .negF64 =>
    .code (emitLdrXSlot jitRegT0 (off x.b) ++
      [.movImm64 jitRegT1 0x8000000000000000, .alu64 .xor jitRegT0 jitRegT1] ++
      emitStrXSlot jitRegT0 (off x.a))
  | .negF32 =>
    .code (emitLdrWSlot jitRegT0 (off x.b) ++
      [.movImm32 jitRegT1 0x80000000, .alu32 .xor jitRegT0 jitRegT1] ++
      emitStrWSlot jitRegT0 (off x.a))
  | .loadNull => .code (emitLoadX off x.a jelloMakeNull)
  | .cmpI32 cmp => .code (emitCmpI32Site m f off i32c cmp x)
  | .cmpI64 cmp =>
    .code (emitLdrXSlot jitRegT0 (off x.b) ++ emitLdrXSlot jitRegT1 (off x.c) ++
      [.alu64 .cmp jitRegT0 jitRegT1] ++ emitCmpSetI32 cmp ++ emitStrWSlot jitRegT0 (off x.a))
  | .cmpF64 cmp =>
    .code (emitLdrDSlot 0 (off x.b) ++ emitLdrDSlot 1 (off x.c) ++ [.comisd 0 1] ++
      emitCmpSetFloat cmp ++ emitStrWSlot jitRegT0 (off x.a))
  | .cmpF32 cmp =>
    .code (emitLdrSSlot 0 (off x.b) ++ emitLdrSSlot 1 (off x.c) ++ [.comiss 0 1] ++
      emitCmpSetFloat cmp ++ emitStrWSlot jitRegT0 (off x.a))
  | .jmp => .branch []
  | .jmpIf => .branch (emitLdrI32 jitRegT0 off i32c x.a ++ [.alu32 .test jitRegT0 jitRegT0])
  | .switch => .branch (emitSwitch off i32c x cases)
  | _ => .helper

/-- The register whose content `RBX` holds after a site -/
def i32cAfter (x : JirInsn) : Option ℕ :=
  match x.op with
  | .loadI32 | .binI32 _ | .negI32 | .cmpI32 _ => some x.a
  | .movReg => if regSlotSz m f x.a = 8 then none else some x.a
  | .nop | .binF64 _ | .sqrtF64 | .binF32 _ | .jmp | .jmpIf | .switch | .switchCase => i32c
  | _ => none

end Emit

section Targets

variable (m : JelloBcModule) (f : ℕ) (ir : List JirInsn)

/-- `mark_bc_target`: the site that a branch to the instruction makes a target. -/
def markBcTarget (bcTgt : ℕ) : Option ℕ :=
  ir.findIdx? fun x ↦ x.bcPc = bcTgt ∧ x.op ≠ .fuelCheck ∧ x.op ≠ .switchCase

def isTarget (i : ℕ) : Bool :=
  (List.range ir.length).any fun j ↦ (branchTargets ir j).any fun t ↦ markBcTarget ir t == some i

/-- `i32c_reg` after the first `i` sites. -/
def i32cFrom : ℕ → Option ℕ
  | 0 => none
  | i + 1 =>
    match ir[i]? with
    | none => none
    | some x => i32cAfter m f (if isTarget ir i then none else i32cFrom i) x

/-- `i32c_reg` at the code of a site. -/
def i32cAt (i : ℕ) : Option ℕ := if isTarget ir i then none else i32cFrom m f ir i

end Targets

end JelloVM
