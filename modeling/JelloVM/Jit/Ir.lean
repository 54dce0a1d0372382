import JelloVM.Check
import JelloVM.Frame

namespace JelloVM

/-- `jello_jit_ir_bin` -/
inductive JirBin
  | add
  | sub
  | mul
  | sdiv
  | mod
  | shl
  | shr
  | xor
  deriving DecidableEq, Repr

/-- `jello_jit_ir_cmp` -/
inductive JirCmp
  | eq
  | lt
  deriving DecidableEq, Repr

/-- `jello_jit_conv` -/
inductive JirConv
  | sextI64
  | sextI16
  | truncI8
  | truncI16
  | i32FromI64
  | f64FromI32
  | i32FromF64
  | f64FromI64
  | i64FromF64
  | f32FromI32
  | i32FromF32
  | f64FromF32
  | f32FromF64
  | f32FromI64
  | i64FromF32
  deriving DecidableEq, Repr

/-- `jello_jit_bytes_read_kind` and `jello_jit_bytes_write_kind` -/
inductive JirBytesKind
  | u16Le
  | u16Be
  | u32Le
  | u32Be
  | i32Le
  | i32Be
  | f32Le
  | f32Be
  deriving DecidableEq, Repr

/-- `jello_jit_ir_op`; what the source keeps in `imm` as the code of an enumeration is an
argument here. -/
inductive JirOp
  | nop
  | movReg
  | loadI32
  | loadI64
  | loadF64
  | loadF32
  | binI32 (bin : JirBin)
  | binI64 (bin : JirBin)
  | binF32 (bin : JirBin)
  | binF64 (bin : JirBin)
  | cmpI32 (cmp : JirCmp)
  | cmpI64 (cmp : JirCmp)
  | cmpF32 (cmp : JirCmp)
  | cmpF64 (cmp : JirCmp)
  | negI32
  | negI64
  | negF64
  | negF32
  | jmp
  | jmpIf
  | ret
  | slow
  | callSelf
  | callDirect
  | fuelCheck
  | bytesNew
  | bytesLen
  | bytesEq
  | bytesGetU8
  | bytesSetU8
  | bytesRead (kind : JirBytesKind)
  | bytesWrite (kind : JirBytesKind)
  | arrayLen
  | arrayGet
  | arraySet
  | arrayNew
  | objGetAtom
  | objSetAtom
  | objNew
  | sqrtF64
  | loadNull
  | assert
  | constBytes
  | constFun
  | closure
  | conv (conv : JirConv)
  | switch
  | switchCase
  deriving DecidableEq, Repr

/-- `jello_jit_ir_insn` -/
structure JirInsn where
  op : JirOp
  a : ℕ
  b : ℕ
  c : ℕ
  imm : UInt32
  bcPc : ℕ
  deriving DecidableEq, Repr

section Operands

variable (op : JirOp) (ins : JelloInsn) (pc : ℕ)

def jir (imm : UInt32) : JirInsn := { op := op, a := 0, b := 0, c := 0, imm := imm, bcPc := pc }

def jirA (imm : UInt32) : JirInsn := { jir op pc imm with a := ins.ra }

def jirAB (imm : UInt32) : JirInsn := { jirA op ins pc imm with b := ins.rb }

def jirABC (imm : UInt32) : JirInsn := { jirAB op ins pc imm with c := ins.rc }

end Operands

section Callee

variable (m : JelloBcModule)

def insnIsSelfConstFun (f : ℕ) (ins : JelloInsn) : Bool :=
  ins.op = .constFun ∧ !jelloIsNativeBuiltin ins.imm ∧ bytecodeIdx ins.imm < m.funcs.length ∧
    bytecodeIdx ins.imm = f

/-- The last instruction before `limit` whose first operand is `r`. -/
def lastWithA (fn : JelloBcFunction) (r : ℕ) : ℕ → Option ℕ
  | 0 => none
  | j + 1 => if (fn.insn j).ra = r then some j else lastWithA fn r j

/-- The function of the module that a `CONST_FUN` or `CLOSURE` names. -/
def namedFunction (ins : JelloInsn) : Option ℕ :=
  if jelloIsNativeBuiltin ins.imm ∨ jelloIsJdllPrim ins.imm then none
  else if m.funcs.length ≤ bytecodeIdx ins.imm then none
  else some (bytecodeIdx ins.imm)

def proveRegFrom (fn : JelloBcFunction) : ℕ → ℕ → ℕ → Option ℕ
  | 0, _, _ => none
  | depth + 1, cur, limit =>
    match lastWithA fn cur limit with
    | none => none
    | some j =>
      let w := fn.insn j
      if w.op = .constFun ∨ w.op = .closure then namedFunction m w
      else if w.op = .mov then proveRegFrom fn depth w.rb j
      else none

/-- Resolves the register to a function of the module, by a scan backwards through the
instructions. -/
def proveRegBytecodeFun (fn : JelloBcFunction) (r beforePc : ℕ) : Option ℕ :=
  proveRegFrom m fn 8 r beforePc

def isClosureOf (f : ℕ) (ins : JelloInsn) : Bool :=
  ins.op = .closure ∧ ins.imm = UInt32.ofNat (f + jelloNativeBuiltinCount)

def funcNeedsCaptures (f : ℕ) : Bool :=
  m.funcs.any fun g ↦ g.insns.any fun w ↦ isClosureOf f w ∧ 0 < w.c

/-- What each `CLOSURE` of `f` puts into the capture of offset `off`. -/
def captureSites (f off : ℕ) : List (Option ℕ) :=
  m.funcs.flatMap fun g ↦ (List.range g.ninsns).filterMap fun i ↦
    let w := g.insn i
    if isClosureOf f w then
      some (if w.rc ≤ off then none else proveRegBytecodeFun m g (w.rb + off) i)
    else none

def proveCaptureCalleeBidx (f r : ℕ) : Option ℕ :=
  let fn := m.func f
  if r < fn.capStart then none
  else
    match captureSites m f (r - fn.capStart) with
    | some bi :: rest => if rest.all (· == some bi) then some bi else none
    | _ => none

/-- The argument window of an instruction that has one. -/
def callWindow (w : JelloInsn) : Option (ℕ × ℕ) :=
  match w.op with
  | .call | .tailcall => some (w.rb, w.rc)
  | .callr | .tailcallr => some (w.imm.toNat, w.rc)
  | _ => none

def inWindow (w : JelloInsn) (r : ℕ) : Bool :=
  match callWindow w with
  | some (first, na) => na ≠ 0 ∧ first ≤ r ∧ r < u32 (first + na)
  | none => false

/-- One round of `const_fun_self_elidable`, for the instruction at `i`. -/
def elidableUse (f dst i : ℕ) : Bool :=
  let fn := m.func f
  let w := fn.insn i
  let selfFi := UInt32.ofNat (f + jelloNativeBuiltinCount)
  if w.op = .callr ∧ w.rb = dst then
    match lastWithA fn dst i with
    | some j => insnIsSelfConstFun m f (fn.insn j) ∧ !inWindow w dst
    | none => false
  else if inWindow w dst then false
  else if (w.op = .call ∨ w.op = .tailcall) ∧ w.imm = selfFi then true
  else if w.op = .tailcallr ∧ w.rb = dst then true
  else if w.ra = dst then
    if w.op = .ret ∨ w.op = .jmpIf then false else insnIsSelfConstFun m f w
  else if dst = 0 then false
  else !(w.rb = dst ∨ w.rc = dst)

def constFunSelfElidable (f pc : ℕ) : Bool :=
  let fn := m.func f
  insnIsSelfConstFun m f (fn.insn pc) ∧
    (List.range fn.ninsns).all fun i ↦ i = pc ∨ elidableUse m f (fn.insn pc).ra i

end Callee

def binFromOp : JelloOp → JirBin
  | .addI32 | .addI32Imm | .addI64 | .addF32 | .addF64 => .add
  | .subI32 | .subI32Imm | .subI64 | .subF32 | .subF64 => .sub
  | .mulI32 | .mulI32Imm | .mulI64 | .mulF32 | .mulF64 => .mul
  | .divI32 | .divI64 | .divF32 | .divF64 => .sdiv
  | .modI32 | .modI64 => .mod
  | .shlI32 | .shlI64 => .shl
  | .shrI32 | .shrI64 => .shr
  | .bitxorI32 | .bitxorI64 => .xor
  | _ => .add

/-- Where a jump of the instruction at `pc` goes; the sum wraps. -/
def jirTarget (pc : ℕ) (imm : UInt32) : UInt32 := UInt32.ofNat (pc + 1) + imm

def noFunobj : UInt32 := 0xffff

/-- The immediate of `JIR_CALL_DIRECT`. -/
def packCallee (calleeReg : UInt32) (bidx : ℕ) : UInt32 := calleeReg <<< 16 ||| UInt32.ofNat bidx

section Lower

variable (m : JelloBcModule) (f pc : ℕ) (ins : JelloInsn)

def lowerSlow : JirInsn := jir .slow pc (UInt32.ofNat pc)

def lowerJmp : List JirInsn :=
  let target := jirTarget pc ins.imm
  let jmp := jir .jmp pc target
  if i32 target ≤ i32 (UInt32.ofNat pc) then [jir .fuelCheck pc 0, jmp] else [jmp]

/-- The `n` entries of the table from `i` on; each of them is a `CASE_KIND`. -/
def lowerCases : ℕ → ℕ → Option (List JirInsn)
  | _, 0 => some []
  | i, n + 1 => do
    let ci := (m.func f).insn i
    if ci.op ≠ .caseKind then none
    else
      let rest ← lowerCases (i + 1) n
      some (jirA .switchCase ci pc ci.imm :: rest)

def lowerSwitch : Option (List JirInsn) :=
  if (m.func f).ninsns < pc + 1 + ins.rb then none
  else do
    let cases ← lowerCases m f pc (pc + 1) ins.rb
    some (jirAB .switch ins pc ins.imm :: cases)

def lowerConstFun : JirInsn :=
  if constFunSelfElidable m f pc then jir .nop pc 0 else jirA .constFun ins pc ins.imm

/-- `Math.sqrt` is the first of the native functions. -/
def lowerCall : JirInsn :=
  let bidx := bytecodeIdx ins.imm
  if ins.imm = 0 ∧ ins.c = 1 then jirAB .sqrtF64 ins pc 0
  else if jelloIsNativeBuiltin ins.imm ∨ jelloIsJdllPrim ins.imm then lowerSlow pc
  else if bidx < m.funcs.length ∧ ins.rc ≤ 16 ∧ !funcNeedsCaptures m bidx then
    if bidx = f then jirABC .callSelf ins pc 0
    else jirABC .callDirect ins pc (packCallee noFunobj bidx)
  else lowerSlow pc

/-- The function that the callee register of a `CALLR` is taken to hold. -/
def provenCallee : Option ℕ :=
  (proveRegBytecodeFun m (m.func f) ins.rb pc).or (proveCaptureCalleeBidx m f ins.rb)

def lowerCallr : JirInsn :=
  match provenCallee m f pc ins with
  | none => lowerSlow pc
  | some bidx =>
    if ins.rc ≤ 16 ∧ ins.imm.toNat ≤ 0xffff then
      let call (op : JirOp) (imm : UInt32) : JirInsn :=
        { op := op, a := ins.ra, b := ins.imm.toNat, c := ins.rc, imm := imm, bcPc := pc }
      if bidx = f ∧ !funcNeedsCaptures m bidx then call .callSelf 0
      else call .callDirect (packCallee (UInt32.ofNat ins.rb) bidx)
    else lowerSlow pc

end Lower

/-- `lower_one`: the instructions that it appends. -/
def lowerOne (m : JelloBcModule) (f pc : ℕ) : Option (List JirInsn) :=
  let ins := (m.func f).insn pc
  let a (op : JirOp) (imm : UInt32) : Option (List JirInsn) := some [jirA op ins pc imm]
  let ab (op : JirOp) : Option (List JirInsn) := some [jirAB op ins pc 0]
  let abc (op : JirOp) : Option (List JirInsn) := some [jirABC op ins pc 0]
  match ins.op with
  | .nop => some [jir .nop pc 0]
  | .ret => a .ret 0
  | .mov => ab .movReg
  | .jmp => some (lowerJmp pc ins)
  | .jmpIf => a .jmpIf (jirTarget pc ins.imm)
  | .caseKind => some []
  | .switchKind => lowerSwitch m f pc ins
  | .constI32 => a .loadI32 ins.imm
  | .constI64 => a .loadI64 ins.imm
  | .constF64 => a .loadF64 ins.imm
  | .constF32 => a .loadF32 ins.imm
  | .constI8Imm => a .loadI32 (sext8 ins.c.toUInt32)
  | .constBool => a .loadI32 (ins.c &&& 1).toUInt32
  | .notBool => some [{ jirAB (.cmpI32 .eq) ins pc 0 with c := 255 }]
  | .addI32 | .subI32 | .mulI32 | .divI32 | .modI32 | .shlI32 | .shrI32 | .bitxorI32 | .addI32Imm
  | .subI32Imm | .mulI32Imm => abc (.binI32 (binFromOp ins.op))
  | .addI64 | .subI64 | .mulI64 | .divI64 | .modI64 | .shlI64 | .shrI64 | .bitxorI64 =>
    abc (.binI64 (binFromOp ins.op))
  | .addF64 | .subF64 | .mulF64 | .divF64 => abc (.binF64 (binFromOp ins.op))
  | .addF32 | .subF32 | .mulF32 | .divF32 => abc (.binF32 (binFromOp ins.op))
  | .eqI32 | .eqI32Imm => abc (.cmpI32 .eq)
  | .ltI32 | .ltI32Imm => abc (.cmpI32 .lt)
  | .eqI64 => abc (.cmpI64 .eq)
  | .ltI64 => abc (.cmpI64 .lt)
  | .eqF64 => abc (.cmpF64 .eq)
  | .ltF64 => abc (.cmpF64 .lt)
  | .eqF32 => abc (.cmpF32 .eq)
  | .ltF32 => abc (.cmpF32 .lt)
  | .negI32 => ab .negI32
  | .negI64 => ab .negI64
  | .negF64 => ab .negF64
  | .negF32 => ab .negF32
  | .constNull => a .loadNull 0
  | .assert => abc .assert
  | .constBytes => a .constBytes ins.imm
  | .sextI64 => ab (.conv .sextI64)
  | .sextI16 => ab (.conv .sextI16)
  | .truncI8 => ab (.conv .truncI8)
  | .truncI16 => ab (.conv .truncI16)
  | .i32FromI64 => ab (.conv .i32FromI64)
  | .f64FromI32 => ab (.conv .f64FromI32)
  | .i32FromF64 => ab (.conv .i32FromF64)
  | .f64FromI64 => ab (.conv .f64FromI64)
  | .i64FromF64 => ab (.conv .i64FromF64)
  | .f32FromI32 => ab (.conv .f32FromI32)
  | .i32FromF32 => ab (.conv .i32FromF32)
  | .f64FromF32 => ab (.conv .f64FromF32)
  | .f32FromF64 => ab (.conv .f32FromF64)
  | .f32FromI64 => ab (.conv .f32FromI64)
  | .i64FromF32 => ab (.conv .i64FromF32)
  | .constFun => some [lowerConstFun m f pc ins]
  | .closure => some [jirABC .closure ins pc ins.imm]
  | .bytesNew => ab .bytesNew
  | .bytesLen => ab .bytesLen
  | .bytesGetU8 => abc .bytesGetU8
  | .bytesSetU8 => abc .bytesSetU8
  | .bytesReadU16Le => abc (.bytesRead .u16Le)
  | .bytesReadU16Be => abc (.bytesRead .u16Be)
  | .bytesReadU32Le => abc (.bytesRead .u32Le)
  | .bytesReadU32Be => abc (.bytesRead .u32Be)
  | .bytesReadI32Le => abc (.bytesRead .i32Le)
  | .bytesReadI32Be => abc (.bytesRead .i32Be)
  | .bytesReadF32Le => abc (.bytesRead .f32Le)
  | .bytesReadF32Be => abc (.bytesRead .f32Be)
  | .bytesWriteU16Le => abc (.bytesWrite .u16Le)
  | .bytesWriteU16Be => abc (.bytesWrite .u16Be)
  | .bytesWriteU32Le => abc (.bytesWrite .u32Le)
  | .bytesWriteU32Be => abc (.bytesWrite .u32Be)
  | .bytesWriteI32Le => abc (.bytesWrite .i32Le)
  | .bytesWriteI32Be => abc (.bytesWrite .i32Be)
  | .bytesWriteF32Le => abc (.bytesWrite .f32Le)
  | .bytesWriteF32Be => abc (.bytesWrite .f32Be)
  | .bytesEq => abc .bytesEq
  | .arrayLen => ab .arrayLen
  | .arrayGet => abc .arrayGet
  | .arraySet => abc .arraySet
  | .arrayNew => ab .arrayNew
  | .objGetAtom => some [jirAB .objGetAtom ins pc ins.imm]
  | .objSetAtom => some [jirAB .objSetAtom ins pc ins.imm]
  | .objNew => a .objNew 0
  | .call => some [lowerCall m f pc ins]
  | .callr => some [lowerCallr m f pc ins]
  | _ => some [lowerSlow pc]

def lowerFrom (m : JelloBcModule) (f : ℕ) : ℕ → ℕ → Option (List JirInsn)
  | _, 0 => some []
  | pc, n + 1 => do
    let here ← lowerOne m f pc
    let rest ← lowerFrom m f (pc + 1) n
    some (here ++ rest)

/-- Kinds that a function with a call of itself may not have. -/
def Kind.isHeap : Kind → Bool
  | .dynamic | .bytes | .list | .array | .object | .abstract | .enum => true
  | _ => false

/-- `jello_jit_ir_build`; a table that is not one is reported as a lack of memory. -/
def jelloJitIrBuild (m : JelloBcModule) (f : ℕ) : Except String (List JirInsn) :=
  let fn := m.func f
  match fn.insns.find? fun w ↦ w.op = .try_ ∨ w.op = .spillPush ∨ w.op = .spillPop with
  | some w =>
    if w.op = .try_ then .error "try not supported in jit v1"
    else .error "spill ops not supported in jit"
  | none =>
    match lowerFrom m f 0 fn.ninsns with
    | none => .error "oom building ir"
    | some ir =>
      if (ir.any fun i ↦ i.op = .callSelf) ∧ (regKinds m f).any Kind.isHeap then
        .error "self-call with heap regs"
      else .ok ir

end JelloVM
