import JelloVM.Jit.Access

/-! The bytes of native code, as the x64 backend emits and patches them. -/

namespace JelloVM

open Function X64

def JirBytesKind.code : JirBytesKind → UInt32
  | .u16Le => 0
  | .u16Be => 1
  | .u32Le => 2
  | .u32Be => 3
  | .i32Le => 4
  | .i32Be => 5
  | .f32Le => 6
  | .f32Be => 7

def JirConv.code : JirConv → UInt32
  | .sextI64 => 0
  | .sextI16 => 1
  | .truncI8 => 2
  | .truncI16 => 3
  | .i32FromI64 => 4
  | .f64FromI32 => 5
  | .i32FromF64 => 6
  | .f64FromI64 => 7
  | .i64FromF64 => 8
  | .f32FromI32 => 9
  | .i32FromF32 => 10
  | .f64FromF32 => 11
  | .f32FromF64 => 12
  | .f32FromI64 => 13
  | .i64FromF32 => 14

section Pieces

variable (B : Backend)

/-- An offset that the emitter takes for a displacement -/
def fieldOk (off : ℕ) : Bool := off ≤ 0x7fffffff ∧ off % 8 = 0

def emitLoadFrameBase : Emitter := fun realloc buf ↦
  if fieldOk B.lay.execCtxFr ∧ fieldOk B.lay.callFrameRfMem then
    emitCode [.loadR64Disp jitRegT2 jitRegCtx (UInt32.ofNat B.lay.execCtxFr),
      .loadR64Disp jitRegBase jitRegT2 (UInt32.ofNat B.lay.callFrameRfMem)] realloc buf
  else none

def entryCode : List Encoder :=
  [.endbr64, .pushR64 .rbp, .pushR64 .rbx, .pushR64 .r12, .pushR64 .r13, .pushR64 .r14,
    .pushR64 .r15, .subRspImm8 8, .movRr jitRegCtx .rdi]

/-- Native code is entered in the middle where the context says so. -/
def resumeTest : List Encoder :=
  [.loadR64Disp .rax jitRegCtx (UInt32.ofNat B.lay.execCtxJitResumeEntry), .testRr .rax .rax]

def emitPrologue : Emitter := fun realloc buf ↦ do
  let buf ← emitCode entryCode realloc buf
  let buf ← emitLoadFrameBase B realloc buf
  if fieldOk B.lay.execCtxJitResumeEntry then
    let buf ← emitCode (resumeTest B) realloc buf
    let jccAt := buf.data.length
    let buf ← emitCode [.jccRel32 x64CcJz, .jmpR64 .rax] realloc buf
    pure (patchJccRel32 jccAt buf.data.length buf)
  else none

def emitEpilogue (returnCode : UInt32) : Emitter :=
  emitCode (.movR32Imm .rax returnCode :: restoreAndRet)

/-- The helper returns 0 to go on; else native code is left with what it returned. -/
def emitRtCallContinueKeepBase (h : JitHelper) : Emitter := fun realloc buf ↦ do
  let buf ← emitCode (callFn B h ++ [.testRr .rax .rax]) realloc buf
  let jccAt := buf.data.length
  let buf ← emitCode (.jccRel32 x64CcJz :: restoreAndRet) realloc buf
  pure (patchJccRel32 jccAt buf.data.length buf)

def emitRtCallContinue (h : JitHelper) : Emitter := fun realloc buf ↦ do
  let buf ← emitRtCallContinueKeepBase B h realloc buf
  emitLoadFrameBase B realloc buf

def fieldAccess (access : Gpr → UInt32 → Encoder) (base : Gpr) (off : ℕ) : List Encoder :=
  if fieldOk off then [access base (UInt32.ofNat off)]
  else [.movR64Imm jitRegT2 (UInt64.ofNat off), .addRr jitRegT2 base, access jitRegT2 0]

def ldrXField (rt base : Gpr) (off : ℕ) : List Encoder := fieldAccess (.loadR64Disp rt) base off

def strXField (rt base : Gpr) (off : ℕ) : List Encoder := fieldAccess (.storeR64Disp rt) base off

def fuelLoad : List Encoder :=
  .loadR64Disp jitRegT0 jitRegCtx 0 :: ldrXField jitRegT1 jitRegT0 B.lay.vmFuelLimit ++
    [.testRr jitRegT1 jitRegT1]

def fuelTest : List Encoder :=
  ldrXField jitRegT1 jitRegT0 B.lay.vmFuelRemaining ++ [.testRr jitRegT1 jitRegT1]

def fuelSpend : List Encoder :=
  .subR64Imm8 jitRegT1 1 :: strXField jitRegT1 jitRegT0 B.lay.vmFuelRemaining

def fuelTrap : List Encoder := .movRr .rdi jitRegCtx :: callFn B .fuelTrap ++ restoreAndRet

def emitInlineFuelCheck : Emitter := fun realloc buf ↦ do
  let buf ← emitCode (fuelLoad B) realloc buf
  let skipJcc := buf.data.length
  let buf ← emitCode (.jccRel32 x64CcJz :: fuelTest B) realloc buf
  let trapJcc := buf.data.length
  let buf ← emitCode (.jccRel32 x64CcJz :: fuelSpend B) realloc buf
  let jmpDoneAt := buf.data.length
  let buf ← emitCode [.jmpRel32] realloc buf
  let trapAt := buf.data.length
  let buf ← emitCode (fuelTrap B) realloc buf
  let doneAt := buf.data.length
  pure (patchJmpRel32 jmpDoneAt doneAt (patchJccRel32 trapJcc trapAt
    (patchJccRel32 skipJcc doneAt buf)))

/-- The helper that a site calls, and its arguments after the context. -/
def helperOf (x : JirInsn) : Option (JitHelper × List UInt32) :=
  let a := UInt32.ofNat x.a
  let b := UInt32.ofNat x.b
  let c := UInt32.ofNat x.c
  match x.op with
  | .bytesNew => some (.bytesNew, [a, b])
  | .bytesLen => some (.bytesLen, [a, b])
  | .bytesEq => some (.bytesEq, [a, b, c])
  | .bytesGetU8 => some (.bytesGetU8, [a, b, c])
  | .bytesSetU8 => some (.bytesSetU8, [a, b, c])
  | .bytesRead kind => some (.bytesRead, [a, b, c, kind.code])
  | .bytesWrite kind => some (.bytesWrite, [a, b, c, kind.code])
  | .arrayLen => some (.arrayLen, [a, b])
  | .arrayNew => some (.arrayNew, [a, b])
  | .assert => some (.assert, [a, b, c])
  | .constBytes => some (.constBytes, [a, x.imm])
  | .constFun => some (.constFun, [a, x.imm])
  | .conv kind => some (.conv, [a, b, kind.code])
  | _ => none

def emitHelper (h : JitHelper) (args : List UInt32) : Emitter := fun realloc buf ↦ do
  let buf ← emitCode (helperArgs args) realloc buf
  emitRtCallContinueKeepBase B h realloc buf

/-- After a helper that can move the registers. -/
def emitHelperRebase (h : JitHelper) (args : List UInt32) : Emitter := fun realloc buf ↦ do
  let buf ← emitCode (helperArgs args) realloc buf
  emitRtCallContinue B h realloc buf

def jitCallArgs (x : JirInsn) : List UInt32 :=
  [UInt32.ofNat x.b, UInt32.ofNat x.c, UInt32.ofNat x.a, UInt32.ofNat (x.bcPc + 1)]

def emitCallSelf (bodyEntry : ℕ) (x : JirInsn) : Emitter := fun realloc buf ↦ do
  let buf ← emitCode (helperArgs (jitCallArgs x)) realloc buf
  let leaAt := buf.data.length
  let buf ← emitCode [.leaRipRel32 .r9] realloc buf
  let buf ← emitRtCallContinue B .callSelf realloc buf
  let jmpAt := buf.data.length
  let buf ← emitCode [.jmpRel32] realloc buf
  let buf ← x64PatchLeaRipRel32 leaAt buf.data.length buf
  pure (patchJmpRel32 jmpAt bodyEntry buf)

def directCall (x : JirInsn) : List Encoder :=
  let calleeReg := x.imm >>> 16
  [.subRspImm8 16, .movR32Imm .rax (x.imm &&& 0xffff), .storeR64Disp .rax .rsp 0,
    .movR32Imm .rax (if calleeReg = 0xffff then 0xffffffff else calleeReg),
    .storeR64Disp .rax .rsp 8] ++ callFn B .callDirect ++ [.addRspImm8 16, .testRr .rax .rax]

/-- The address in a field of the context, which is cleared. -/
def takeField (off : ℕ) : List Encoder :=
  [.loadR64Disp .rax jitRegCtx (UInt32.ofNat off), .movR64Imm jitRegT0 0,
    .storeR64Disp jitRegT0 jitRegCtx (UInt32.ofNat off)]

def emitJmpField (off : ℕ) : Emitter := fun realloc buf ↦
  if fieldOk off then do
    let buf ← emitCode (takeField off) realloc buf
    let buf ← emitLoadFrameBase B realloc buf
    emitCode [.jmpR64 .rax] realloc buf
  else none

def emitCallDirect (x : JirInsn) : Emitter := fun realloc buf ↦ do
  let buf ← emitCode (helperArgs (jitCallArgs x)) realloc buf
  let leaAt := buf.data.length
  let buf ← emitCode (.leaRipRel32 .r9 :: directCall B x) realloc buf
  let jccAt := buf.data.length
  let buf ← emitCode (.jccRel32 x64CcJz :: restoreAndRet) realloc buf
  let buf := patchJccRel32 jccAt buf.data.length buf
  let buf ← emitJmpField B B.lay.execCtxJitCallEntry realloc buf
  x64PatchLeaRipRel32 leaAt buf.data.length buf

def emitRet (x : JirInsn) : Emitter := fun realloc buf ↦ do
  let buf ← emitCode (helperArgs [UInt32.ofNat x.a] ++ callFn B .retSelf ++ [.testRr .rax .rax])
    realloc buf
  let jccAt := buf.data.length
  let buf ← emitCode (.jccRel32 x64CcJz :: restoreAndRet) realloc buf
  let buf := patchJccRel32 jccAt buf.data.length buf
  emitJmpField B B.lay.execCtxJitSelfResume realloc buf

/-- `emit_obj_new`, with the offsets of `exec_ctx.vm`, `exec_ctx.f` and
`jello_bc_function.reg_types`. -/
def objNew (off : ℕ → ℕ) (x : JirInsn) : Option (List Encoder) :=
  (encodersOf (emitStrXSlot .rax (off x.a))).map fun store ↦
    [.loadR64Disp .rdi jitRegCtx 0, .loadR64Disp .rax jitRegCtx 16, .loadR64Disp .rax .rax 8,
      .loadR32Disp .rsi .rax (UInt32.ofNat (x.a * 4))] ++ callFn B .objectNew ++ store

end Pieces

/-- What `emit_ir` changes. -/
structure EmitState where
  buf : JelloJitEmitBuf
  irOff : ℕ → ℕ
  patchSites : List JelloJitPatchSite
  sawRet : Bool

section Sites

variable (B : Backend) (m : JelloBcModule) (f : ℕ) (off : ℕ → ℕ) (ir : List JirInsn)
  (realloc : ℕ → Bool) (bodyEntry : ℕ)

def emitInto (e : Emitter) (st : EmitState) : Option EmitState :=
  (e realloc st.buf).map fun buf ↦ { st with buf := buf }

/-- A branch whose target is not known yet. -/
def emitPatched (e : Encoder) (kind : UInt8) (bcTgt : ℕ) (st : EmitState) : Option EmitState :=
  if ir.length ≤ st.patchSites.length then none
  else (e.emit realloc st.buf).map fun buf ↦
    { st with buf := buf, patchSites := st.patchSites ++ [⟨st.buf.data.length, bcTgt, kind⟩] }

def emitJmpSite (x : JirInsn) (st : EmitState) : Option EmitState :=
  if x.imm.toNat < (m.func f).ninsns then emitPatched ir realloc .jmpRel32 0 x.imm.toNat st
  else none

def emitJmpIfSite (i32c : Option ℕ) (x : JirInsn) (st : EmitState) : Option EmitState :=
  if x.imm.toNat < (m.func f).ninsns then do
    let load ← encodersOf (emitLdrI32 jitRegT0 off i32c x.a ++ [.alu32 .test jitRegT0 jitRegT0])
    let st ← emitInto realloc (emitCode load) st
    emitPatched ir realloc (.jccRel32 x64CcJnz) 1 x.imm.toNat st
  else none

/-- A case of a switch; `x64_emit_cmp_r32_rr` compares 64 bits. -/
def emitCase (x cs : JirInsn) (st : EmitState) : Option EmitState :=
  if cs.op = .switchCase then do
    let st ← emitInto realloc (emitCode [.movR32Imm jitRegT1 (UInt32.ofNat cs.a),
      .x64CmpR32Rr jitRegT0 jitRegT1]) st
    emitPatched ir realloc (.jccRel32 x64CcJz) 1 (switchKindTarget x.bcPc x.b cs.imm) st
  else none

def emitSwitchSite (i : ℕ) (i32c : Option ℕ) (x : JirInsn) (st : EmitState) : Option EmitState :=
  if i + x.b < ir.length then do
    let load ← encodersOf (emitLdrI32 jitRegT0 off i32c x.a)
    let st ← emitInto realloc (emitCode load) st
    let st ← (switchCases ir i x.b).foldlM (fun st cs ↦ emitCase ir realloc x cs st) st
    emitPatched ir realloc .jmpRel32 0 (switchKindTarget x.bcPc x.b x.imm) st
  else none

/-- The code of the sites that only move data. -/
def scalarCode (i : ℕ) (x : JirInsn) : Option (List Encoder) :=
  if emitsSite ir m f i x then
    match emitIr m f off (i32cAt m f ir i) (switchCases ir i x.b) x with
    | .code code => encodersOf code
    | _ => none
  else none

/-- The sites that are the call of a helper, or only move data. -/
def emitPlainSite (i : ℕ) (x : JirInsn) : Emitter := fun realloc buf ↦
  match helperOf x with
  | some (h, args) => emitHelper B h args realloc buf
  | none => (scalarCode m f off ir i x).bind fun es ↦ emitCode es realloc buf

/-- The code of a site after its `ENDBR64`. -/
def emitSiteCode (i : ℕ) (x : JirInsn) (st : EmitState) : Option EmitState :=
  match x.op with
  | .jmp => emitJmpSite m f ir realloc x st
  | .jmpIf => emitJmpIfSite m f off ir realloc (i32cAt m f ir i) x st
  | .switch => emitSwitchSite off ir realloc i (i32cAt m f ir i) x st
  | .ret => (emitInto realloc (emitRet B x) st).map fun st ↦ { st with sawRet := true }
  | .callSelf => emitInto realloc (emitCallSelf B bodyEntry x) st
  | .callDirect => emitInto realloc (emitCallDirect B x) st
  | .slow => emitInto realloc (emitHelperRebase B .slowOp [x.imm]) st
  | .closure => emitInto realloc (emitHelperRebase B .closure
      [UInt32.ofNat x.a, UInt32.ofNat x.b, UInt32.ofNat x.c, x.imm]) st
  | .fuelCheck => emitInto realloc (emitInlineFuelCheck B) st
  | .objNew => (objNew B off x).bind fun es ↦ emitInto realloc (emitCode es) st
  | .arrayGet => emitInto realloc (assemble (emitArrayGetF64 B m f off x.a x.b x.c)) st
  | .arraySet => emitInto realloc (assemble (emitArraySetF64 B m f off x.a x.b x.c)) st
  | .objGetAtom => emitInto realloc (assemble (emitObjGetAtom B m f off x.a x.b x.imm)) st
  | .objSetAtom => emitInto realloc (assemble (emitObjSetAtom B m f off x.a x.b x.imm)) st
  | _ => emitInto realloc (emitPlainSite B m f off ir i x) st

/-- One round of the loop of `emit_ir`. A switch leaves out the cases that follow it, which would
be passed over by themselves. -/
def emitSite (st : EmitState) (i : ℕ) : Option EmitState :=
  match ir[i]? with
  | none => none
  | some x =>
    if x.op = .switchCase then some st
    else do
      let st := { st with irOff := update st.irOff i st.buf.data.length }
      let st ← emitInto realloc (emitCode [.endbr64]) st
      emitSiteCode B m f off ir realloc bodyEntry i x st

def emitSites (st : EmitState) : Option EmitState :=
  (List.range ir.length).foldlM (emitSite B m f off ir realloc bodyEntry) st

end Sites

/-- `ir_off_for_bc` -/
def irOffset (ir : List JirInsn) (irOff : ℕ → ℕ) (bcPc : ℕ) : ℕ :=
  (irOffForBc ir bcPc).elim 0 irOff

/-- One round of the loop of `build_bc_pc_map` -/
def mapSite (ir : List JirInsn) (irOff : ℕ → ℕ) (ninsns : ℕ) (map : ℕ → UInt32) (i : ℕ) :
    ℕ → UInt32 :=
  match ir[i]? with
  | none => map
  | some x =>
    if x.bcPc < ninsns ∧ map x.bcPc = 0 then update map x.bcPc (UInt32.ofNat (irOff i)) else map

/-- `build_bc_pc_map` -/
def buildBcPcMap (ir : List JirInsn) (irOff : ℕ → ℕ) (ninsns : ℕ) : ℕ → UInt32 :=
  (List.range ir.length).foldl (mapSite ir irOff ninsns) fun _ ↦ 0

structure NativeCode where
  data : List UInt8
  entryOff : ℕ
  bodyOff : ℕ
  bcPcMap : ℕ → UInt32

section Func

variable (B : Backend) (m : JelloBcModule) (f : ℕ) (off : ℕ → ℕ) (ir : List JirInsn)
  (realloc : ℕ → Bool)

/-- `x64_emit_func` up to the epilogue: where the body begins, and what has been emitted. -/
def x64EmitBody : Option (ℕ × EmitState) := do
  let buf ← emitPrologue B realloc ⟨[], 0⟩
  let prologueEnd := buf.data.length
  let st ← emitSites B m f off ir realloc prologueEnd ⟨buf, fun _ ↦ 0, [], false⟩
  let buf ← patchBranchSites (irOffset ir st.irOff) prologueEnd st.patchSites st.buf
  pure (prologueEnd, { st with buf := buf })

def jelloJitExitYield : UInt32 := 1

def x64EmitFunc : Option NativeCode := do
  let (prologueEnd, st) ← x64EmitBody B m f off ir realloc
  let buf ← if st.sawRet then some st.buf else emitEpilogue jelloJitExitYield realloc st.buf
  pure
    { data := buf.data
      entryOff := 0
      bodyOff := prologueEnd
      bcPcMap := buildBcPcMap ir st.irOff (m.func f).ninsns }

end Func

end JelloVM
