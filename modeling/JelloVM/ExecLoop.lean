import JelloVM.Control

namespace JelloVM

open ByteMemory Logged

def opNop (_ : Ctx) (_ : JelloInsn) : StoreM Unit := pure ()

/-- The handlers of the instructions that neither jump nor call; these leave the frames and the
handlers of exceptions alone and always continue. -/
def dataOp : JelloOp → Ctx → JelloInsn → StoreM Unit
  | .nop => opNop
  | .mov => opMov
  | .constFun => opConstFun
  | .closure => opClosure
  | .bindThis => opBindThis
  | .constI32 => opConstI32
  | .constI8Imm => opConstI8Imm
  | .constBool => opConstBool
  | .constNull => opConstNull
  | .constAtom => opConstAtom
  | .constF16 => opConstF16
  | .constF32 => opConstF32
  | .constI64 => opConstI64
  | .constF64 => opConstF64
  | .constBytes => opConstBytes
  | .bytesConcat2 => opBytesConcat2
  | .bytesConcatMany => opBytesConcatMany
  | .addI32 => opAddI32
  | .subI32 => opSubI32
  | .mulI32 => opMulI32
  | .divI32 => opDivI32
  | .modI32 => opModI32
  | .shlI32 => opShlI32
  | .shrI32 => opShrI32
  | .addI32Imm => opAddI32Imm
  | .subI32Imm => opSubI32Imm
  | .mulI32Imm => opMulI32Imm
  | .addI64 => opAddI64
  | .subI64 => opSubI64
  | .mulI64 => opMulI64
  | .divI64 => opDivI64
  | .modI64 => opModI64
  | .shlI64 => opShlI64
  | .shrI64 => opShrI64
  | .addF16 => opAddF16
  | .subF16 => opSubF16
  | .mulF16 => opMulF16
  | .addF32 => opAddF32
  | .subF32 => opSubF32
  | .mulF32 => opMulF32
  | .divF32 => opDivF32
  | .addF64 => opAddF64
  | .subF64 => opSubF64
  | .mulF64 => opMulF64
  | .divF64 => opDivF64
  | .negI32 => opNegI32
  | .negI64 => opNegI64
  | .negF32 => opNegF32
  | .negF64 => opNegF64
  | .notBool => opNotBool
  | .eqI32 => opEqI32
  | .ltI32 => opLtI32
  | .eqI32Imm => opEqI32Imm
  | .ltI32Imm => opLtI32Imm
  | .eqI64 => opEqI64
  | .ltI64 => opLtI64
  | .eqF32 => opEqF32
  | .ltF32 => opLtF32
  | .eqF64 => opEqF64
  | .ltF64 => opLtF64
  | .sextI64 => opSextI64
  | .sextI16 => opSextI16
  | .truncI8 => opTruncI8
  | .truncI16 => opTruncI16
  | .i32FromI64 => opI32FromI64
  | .f64FromI32 => opF64FromI32
  | .i32FromF64 => opI32FromF64
  | .f64FromI64 => opF64FromI64
  | .i64FromF64 => opI64FromF64
  | .f32FromI32 => opF32FromI32
  | .i32FromF32 => opI32FromF32
  | .f64FromF32 => opF64FromF32
  | .f32FromF64 => opF32FromF64
  | .f32FromI64 => opF32FromI64
  | .i64FromF32 => opI64FromF32
  | .f16FromF32 => opF16FromF32
  | .f32FromF16 => opF32FromF16
  | .f16FromI32 => opF16FromI32
  | .i32FromF16 => opI32FromF16
  | .toDyn => opToDyn
  | .fromDynI8 => opFromDynI8
  | .fromDynI16 => opFromDynI16
  | .fromDynI32 => opFromDynI32
  | .fromDynI64 => opFromDynI64
  | .fromDynF16 => opFromDynF16
  | .fromDynF32 => opFromDynF32
  | .fromDynF64 => opFromDynF64
  | .fromDynBool => opFromDynBool
  | .fromDynAtom => opFromDynAtom
  | .fromDynPtr => opFromDynPtr
  | .spillPush => opSpillPush
  | .spillPop => opSpillPop
  | .physeq => opPhyseq
  | .kindof => opKindof
  | .listNil => opListNil
  | .listCons => opListCons
  | .listHead => opListHead
  | .listTail => opListTail
  | .listIsNil => opListIsNil
  | .arrayNew => opArrayNew
  | .arrayLen => opArrayLen
  | .arrayGet => opArrayGet
  | .arraySet => opArraySet
  | .bytesNew => opBytesNew
  | .bytesLen => opBytesLen
  | .bytesGetU8 => opBytesGetU8
  | .bytesSetU8 => opBytesSetU8
  | .objNew => opObjNew
  | .objHasAtom => opObjHasAtom
  | .objGetAtom => opObjGetAtom
  | .objSetAtom => opObjSetAtom
  | .objGet => opObjGet
  | .objSet => opObjSet
  | .arrayConcat2 => opArrayConcat2
  | .arrayResize => opArrayResize
  | .objHas => opObjHas
  | .objRemove => opObjRemove
  | .objClear => opObjClear
  | .objCopy => opObjCopy
  | .objKeys => opObjKeys
  | .enumNew => opEnumNew
  | .enumTag => opEnumTag
  | .enumGet => opEnumGet
  | .bitandI32 => opBitandI32
  | .bitandI64 => opBitandI64
  | .bytesBitand2 => opBytesBitand2
  | .bitorI32 => opBitorI32
  | .bitorI64 => opBitorI64
  | .bitxorI32 => opBitxorI32
  | .bitxorI64 => opBitxorI64
  | .bytesBitor2 => opBytesBitor2
  | .bytesBitxor2 => opBytesBitxor2
  | .bytesReadU16Le => opBytesReadU16Le
  | .bytesReadU16Be => opBytesReadU16Be
  | .bytesReadU32Le => opBytesReadU32Le
  | .bytesReadU32Be => opBytesReadU32Be
  | .bytesReadI32Le => opBytesReadI32Le
  | .bytesReadI32Be => opBytesReadI32Be
  | .bytesReadF32Le => opBytesReadF32Le
  | .bytesReadF32Be => opBytesReadF32Be
  | .bytesWriteU16Le => opBytesWriteU16Le
  | .bytesWriteU16Be => opBytesWriteU16Be
  | .bytesWriteU32Le => opBytesWriteU32Le
  | .bytesWriteU32Be => opBytesWriteU32Be
  | .bytesWriteI32Le => opBytesWriteI32Le
  | .bytesWriteI32Be => opBytesWriteI32Be
  | .bytesWriteF32Le => opBytesWriteF32Le
  | .bytesWriteF32Be => opBytesWriteF32Be
  | .bytesEq => opBytesEq
  | .caseKind => fun _ _ ↦ panic
  | _ => fun _ _ ↦ panic

/-- A masked sum or difference, as the labels of the computed goto table have it. -/
def labelBinI32 (e : UInt32 → UInt32 → UInt32) (ctx : Ctx) (ins : JelloInsn) : StoreM Unit := do
  let k ← vmRegKind ctx.m ctx.f ins.ra
  let a ← vmLoadU32 ctx.rf ins.rb
  let b ← vmLoadU32 ctx.rf ins.rc
  vmStoreU32Masked ctx.rf ins.ra (e a b) k

def labelCmpI32 (e : ℤ → ℤ → Bool) (ctx : Ctx) (ins : JelloInsn) : StoreM Unit := do
  let a ← vmLoadU32 ctx.rf ins.rb
  let b ← vmLoadU32 ctx.rf ins.rc
  vmStoreU32 ctx.rf ins.ra (flag (e (i32 a) (i32 b)))

def labelMov (ctx : Ctx) (ins : JelloInsn) : StoreM Unit := do
  let tid ← regTypeOf ctx.m ctx.f ins.ra
  let t ← typeOf ctx.m tid
  copySlot ctx.rf ins.ra ctx.rf ins.rb (jelloSlotSize t.kind)

def labelConstFun (ctx : Ctx) (ins : JelloInsn) : StoreM Unit := do
  let cache ← read Store.constFunCache
  if cache.length ≤ ins.imm.toNat then panic
  else do
    note (.entry .constFunCache ins.imm.toNat cache.length)
    let fn := cache.getD ins.imm.toNat 0
    if fn ≠ 0 then vmStorePtr ctx.rf ins.ra fn
    else do
      let typeId ← regTypeOf ctx.m ctx.f ins.ra
      let fn ← jelloFunctionNew typeId ins.imm
      change fun s ↦ { s with constFunCache := s.constFunCache.set ins.imm.toNat fn }
      vmStorePtr ctx.rf ins.ra fn

/-- The labels of the computed goto table: some have a body of their own, the others call the
handler. -/
def labelOp : JelloOp → Ctx → JelloInsn → StoreM Unit
  | .mov => labelMov
  | .constFun => labelConstFun
  | .constI32 => fun ctx ins ↦ vmStoreU32 ctx.rf ins.ra ins.imm
  | .constBool => fun ctx ins ↦ vmStoreU32 ctx.rf ins.ra (ins.c &&& 1).toUInt32
  | .addI32 => labelBinI32 fun a b ↦ a + b
  | .subI32 => labelBinI32 fun a b ↦ a - b
  | .eqI32 => labelCmpI32 fun a b ↦ a == b
  | .ltI32 => labelCmpI32 fun a b ↦ a < b
  | op => dataOp op

/-- How `op_dispatch` was compiled. -/
inductive Build
  | switch
  | computedGoto
  deriving DecidableEq, Repr

def onCtx {α : Type} (ex : Exec) (x : Ctx → JelloInsn → StoreM α) (ins : JelloInsn) :
    VMM α := do
  let fr ← topFrame
  onStore (x (ex.ctx fr) ins)

/-- The instructions that jump, call, return, or are about exceptions. -/
def controlOp (ex : Exec) (build : Build) (ins : JelloInsn) : Option (VMM OpResult) :=
  match ins.op with
  | .ret => some (if build = .switch then opRet ex ins else labelRet ex ins)
  | .jmp => some (if build = .switch then opJmp ex ins else labelJmp ex ins)
  | .jmpIf => some (opJmpIf ex ins)
  | .try_ => some (opTry ex ins)
  | .endtry => some opEndtry
  | .throw => some (onCtx ex opThrow ins)
  | .assert => some (onCtx ex opAssert ins)
  | .call => some (opCall ex ins)
  | .callr => some (opCallr ex ins)
  | .tailcall => some (opTailcall ex ins)
  | .tailcallr => some (opTailcallr ex ins)
  | .switchKind => some (opSwitchKind ex ins)
  | _ => none

def opDispatch (ex : Exec) (build : Build) (ins : JelloInsn) : VMM OpResult :=
  match controlOp ex build ins with
  | some x => x
  | none => do
    onCtx ex (if build = .switch then dataOp ins.op else labelOp ins.op) ins
    pure .continue_

/-- The arithmetic of the loop stores to an I32 register without masking. -/
def inlineStore (ctx : Ctx) (r : ℕ) (v : UInt32) (k : Kind) : StoreM Unit :=
  if k = .i32 then vmStoreU32 ctx.rf r v else vmStoreU32Masked ctx.rf r v k

def inlineBinI32 (e : UInt32 → UInt32 → UInt32) (ctx : Ctx) (ins : JelloInsn) : StoreM Unit := do
  let k ← vmRegKind ctx.m ctx.f ins.ra
  let a ← vmLoadU32 ctx.rf ins.rb
  let b ← vmLoadU32 ctx.rf ins.rc
  inlineStore ctx ins.ra (e a b) k

def inlineAddI32 (ctx : Ctx) (ins : JelloInsn) : StoreM Unit :=
  inlineBinI32 (fun a b ↦ a + b) ctx ins

def inlineSubI32 (ctx : Ctx) (ins : JelloInsn) : StoreM Unit :=
  inlineBinI32 (fun a b ↦ a - b) ctx ins

def inlineMulI32 (ctx : Ctx) (ins : JelloInsn) : StoreM Unit :=
  inlineBinI32 (fun a b ↦ a * b) ctx ins

def inlineBinI32Imm (e : UInt32 → UInt32 → UInt32) (ctx : Ctx) (ins : JelloInsn) :
    StoreM Unit := do
  let k ← vmRegKind ctx.m ctx.f ins.ra
  let a ← vmLoadU32 ctx.rf ins.rb
  inlineStore ctx ins.ra (e a ins.immC) k

/-- The sum is a signed one here. -/
def inlineAddI32Imm (ctx : Ctx) (ins : JelloInsn) : StoreM Unit :=
  inlineBinI32Imm (fun a i ↦ (a.toInt32 + i.toInt32).toUInt32) ctx ins

def inlineSubI32Imm (ctx : Ctx) (ins : JelloInsn) : StoreM Unit :=
  inlineBinI32Imm (fun a i ↦ (a.toInt32 - i.toInt32).toUInt32) ctx ins

def inlineMulI32Imm (ctx : Ctx) (ins : JelloInsn) : StoreM Unit :=
  inlineBinI32Imm (fun a i ↦ a * i) ctx ins

def inlineMov (ctx : Ctx) (ins : JelloInsn) : StoreM Unit := do
  let tid ← regTypeOf ctx.m ctx.f ins.ra
  let t ← typeOf ctx.m tid
  copySlot ctx.rf ins.ra ctx.rf ins.rb (jelloSlotSize t.kind)

def inlineConstFun (ctx : Ctx) (ins : JelloInsn) : StoreM Unit := do
  let cache ← read Store.constFunCache
  if cache.length ≤ ins.imm.toNat then panic
  else do
    note (.entry .constFunCache ins.imm.toNat cache.length)
    let fn := cache.getD ins.imm.toNat 0
    if fn ≠ 0 then vmStorePtr ctx.rf ins.ra fn
    else do
      let typeId ← regTypeOf ctx.m ctx.f ins.ra
      let fn ← jelloFunctionNew typeId ins.imm
      change fun s ↦ { s with constFunCache := s.constFunCache.set ins.imm.toNat fn }
      vmStorePtr ctx.rf ins.ra fn

def inlineConstI32 (ctx : Ctx) (ins : JelloInsn) : StoreM Unit :=
  vmStoreU32 ctx.rf ins.ra ins.imm

def inlineConstI8Imm (ctx : Ctx) (ins : JelloInsn) : StoreM Unit :=
  vmStoreU32 ctx.rf ins.ra (sext8 ins.c.toUInt32)

def inlineConstBool (ctx : Ctx) (ins : JelloInsn) : StoreM Unit :=
  vmStoreU32 ctx.rf ins.ra (ins.c &&& 1).toUInt32

def inlineConstNull (ctx : Ctx) (ins : JelloInsn) : StoreM Unit :=
  vmStoreVal ctx.rf ins.ra jelloMakeNull

def inlineConstF64 (ctx : Ctx) (ins : JelloInsn) : StoreM Unit := do
  note (.entry .constF64 ins.imm.toNat ctx.m.constF64.length)
  vmStoreF64 ctx.rf ins.ra (ctx.m.constF64.getD ins.imm.toNat 0)

def inlineBinF64 (e : UInt64 → UInt64 → UInt64) (ctx : Ctx) (ins : JelloInsn) : StoreM Unit := do
  let a ← vmLoadF64 ctx.rf ins.rb
  let b ← vmLoadF64 ctx.rf ins.rc
  vmStoreF64 ctx.rf ins.ra (e a b)

def inlineNotBool (ctx : Ctx) (ins : JelloInsn) : StoreM Unit := do
  let x ← vmLoadU32 ctx.rf ins.rb
  vmStoreU32 ctx.rf ins.ra (if x = 0 then 1 else 0)

def inlineCmpI32 (e : ℤ → ℤ → Bool) (ctx : Ctx) (ins : JelloInsn) : StoreM Unit := do
  let a ← vmLoadU32 ctx.rf ins.rb
  let b ← vmLoadU32 ctx.rf ins.rc
  vmStoreU32 ctx.rf ins.ra (if e (i32 a) (i32 b) then 1 else 0)

def inlineCmpI32Imm (e : ℤ → ℤ → Bool) (ctx : Ctx) (ins : JelloInsn) : StoreM Unit := do
  let a ← vmLoadU32 ctx.rf ins.rb
  vmStoreU32 ctx.rf ins.ra (if e (i32 a) (i32 ins.immC) then 1 else 0)

def inlineCmpF64 (e : UInt64 → UInt64 → Bool) (ctx : Ctx) (ins : JelloInsn) : StoreM Unit := do
  let a ← vmLoadF64 ctx.rf ins.rb
  let b ← vmLoadF64 ctx.rf ins.rc
  vmStoreU32 ctx.rf ins.ra (if e a b then 1 else 0)

def inlineArrayLen (ctx : Ctx) (ins : JelloInsn) : StoreM Unit := do
  let p ← vmLoadPtr ctx.rf ins.rb
  if p = 0 then jelloVmTrap ctx .nullDeref "array_len on null"
  else do
    let a ← arrayAt p
    vmStoreU32 ctx.rf ins.ra a.length

def inlineObjNew (ctx : Ctx) (ins : JelloInsn) : StoreM Unit := do
  let typeId ← regTypeOf ctx.m ctx.f ins.ra
  let o ← objectNew (UInt32.ofNat typeId)
  vmStorePtr ctx.rf ins.ra o

/-- What the helper returns only says where the loop goes on, which is the same place. -/
def inlineObjGetAtom (ctx : Ctx) (ins : JelloInsn) : StoreM Unit := do
  if ← vmObjGetAtomTyped ctx ins.ra ins.rb ins.imm ins.c.toUInt32 then pure () else pure ()

def inlineObjSetAtom (ctx : Ctx) (ins : JelloInsn) : StoreM Unit := do
  if ← vmObjSetAtomTyped ctx ins.ra ins.rb ins.imm ins.c.toUInt32 then pure () else pure ()

/-- The test for arrays of F64, with the type of the array read first. -/
def inlineF64Fast (ctx : Ctx) (r arr : ℕ) : StoreM Bool := do
  let arrTid ← regTypeOf ctx.m ctx.f arr
  let k ← vmRegKind ctx.m ctx.f r
  if k ≠ .f64 ∨ ctx.m.types.length ≤ arrTid then pure false
  else do
    let t ← typeOf ctx.m arrTid
    if t.kind ≠ .array then pure false
    else if ctx.m.types.length ≤ t.param then pure false
    else do
      let e ← typeOf ctx.m t.param
      pure (e.kind = .f64)

def inlineArrayGet (ctx : Ctx) (ins : JelloInsn) : StoreM Unit := do
  let p ← vmLoadPtr ctx.rf ins.rb
  if p = 0 then jelloVmTrap ctx .nullDeref "array_get on null"
  else do
    let a ← arrayAt p
    let idx ← vmLoadU32 ctx.rf ins.rc
    if a.length ≤ idx then jelloVmTrap ctx .bounds "array_get index out of bounds"
    else do
      let v := a.data idx.toNat
      if ← inlineF64Fast ctx ins.ra ins.rb then do
        match ← boxF64At v with
        | some x => vmStoreF64 ctx.rf ins.ra x
        | none => vmStoreFromBoxed ctx.m ctx.fpu ctx.f ctx.rf ins.ra v
      else vmStoreFromBoxed ctx.m ctx.fpu ctx.f ctx.rf ins.ra v

def inlineArraySet (ctx : Ctx) (ins : JelloInsn) : StoreM Unit := do
  let p ← vmLoadPtr ctx.rf ins.rb
  if p = 0 then jelloVmTrap ctx .nullDeref "array_set on null"
  else do
    let a ← arrayAt p
    let idx ← vmLoadU32 ctx.rf ins.rc
    if a.length ≤ idx then jelloVmTrap ctx .bounds "array_set index out of bounds"
    else do
      if ← inlineF64Fast ctx ins.ra ins.rb then do
        match ← boxF64At (a.data idx.toNat) with
        | some _ => do
          let x ← vmLoadF64 ctx.rf ins.ra
          setBoxF64 (a.data idx.toNat) x
        | none => storeElem ctx ins.ra p a idx
      else storeElem ctx ins.ra p a idx

/-- The cases of the loop that neither jump nor call; those of the last group only call the
handler. -/
def inlineOp : JelloOp → Option (Ctx → JelloInsn → StoreM Unit)
  | .mov => some inlineMov
  | .constFun => some inlineConstFun
  | .constI32 => some inlineConstI32
  | .constI8Imm => some inlineConstI8Imm
  | .constBool => some inlineConstBool
  | .constNull => some inlineConstNull
  | .constF64 => some inlineConstF64
  | .addI32 => some inlineAddI32
  | .subI32 => some inlineSubI32
  | .mulI32 => some inlineMulI32
  | .addI32Imm => some inlineAddI32Imm
  | .subI32Imm => some inlineSubI32Imm
  | .mulI32Imm => some inlineMulI32Imm
  | .addF64 => some fun ctx ↦ inlineBinF64 ctx.fpu.add64 ctx
  | .subF64 => some fun ctx ↦ inlineBinF64 ctx.fpu.sub64 ctx
  | .mulF64 => some fun ctx ↦ inlineBinF64 ctx.fpu.mul64 ctx
  | .divF64 => some fun ctx ↦ inlineBinF64 ctx.fpu.div64 ctx
  | .notBool => some inlineNotBool
  | .eqI32 => some (inlineCmpI32 fun a b ↦ a == b)
  | .ltI32 => some (inlineCmpI32 fun a b ↦ a < b)
  | .eqI32Imm => some (inlineCmpI32Imm fun a b ↦ a == b)
  | .ltI32Imm => some (inlineCmpI32Imm fun a b ↦ a < b)
  | .eqF64 => some fun ctx ↦ inlineCmpF64 ctx.fpu.eq64 ctx
  | .ltF64 => some fun ctx ↦ inlineCmpF64 ctx.fpu.lt64 ctx
  | .arrayLen => some inlineArrayLen
  | .arrayGet => some inlineArrayGet
  | .arraySet => some inlineArraySet
  | .objNew => some inlineObjNew
  | .objGetAtom => some inlineObjGetAtom
  | .objSetAtom => some inlineObjSetAtom
  | .constBytes => some opConstBytes
  | .bytesConcat2 => some opBytesConcat2
  | .bytesConcatMany => some opBytesConcatMany
  | .bytesBitand2 => some opBytesBitand2
  | .bytesBitor2 => some opBytesBitor2
  | .bytesBitxor2 => some opBytesBitxor2
  | .arrayNew => some opArrayNew
  | .bytesNew => some opBytesNew
  | .bytesLen => some opBytesLen
  | .bytesGetU8 => some opBytesGetU8
  | .bytesSetU8 => some opBytesSetU8
  | .bytesEq => some opBytesEq
  | _ => none

/-- A numeric call of a function by itself takes a path of its own. -/
def inlineCall (ex : Exec) (ins : JelloInsn) : VMM OpResult := do
  let fr ← topFrame
  if ← onStore (jelloVmFuelCharge (ex.ctx fr)) then do
    if jelloIsNativeBuiltin ins.imm then do
      onStore (ex.native ins.imm (ex.ctx fr) ins ins.rb)
      pure .continue_
    else do
      let cf ← callArgs ex fr ins.imm ins.rb ins.rc
      let room ← read VM.canPush
      if cf = fr.f ∧ !fr.hasPointerOrDynamic ∧ ins.rc ≤ 16 ∧ room then do
        vmPushSelfNumeric ex ins.rb ins.rc ins.ra
        pure .continue_
      else do
        let i ← topIndex
        let _ ← vmPushFrame ex cf fr.f i ins.ra ins.rb ins.rc none true
        pure .continue_
  else pure .trap

/-- The messages of the loop are shorter than those of the handler. -/
def inlineCallr (ex : Exec) (ins : JelloInsn) : VMM OpResult := do
  let fr ← topFrame
  let ctx := ex.ctx fr
  if ← onStore (jelloVmFuelCharge ctx) then do
    match ← onStore (calleeOf fr.rf ins.rb) with
    | .notPointer _ | .null | .notFunction => do
      onStore (jelloVmTrap ctx .typeMismatch "callr callee not a function")
      pure .trap
    | .prim fn => do
      let _ ← onStore (jelloJdllInvokePrim ex fn ctx ins ins.imm.toNat)
      pure .continue_
    | .builtin fn => do
      onStore (ex.native fn.funcIndex ctx ins ins.imm.toNat)
      pure .continue_
    | .bytecode fn => do
      let cf ← callArgs ex fr fn.funcIndex ins.imm.toNat ins.rc
      let i ← topIndex
      let _ ← vmPushFrame ex cf fr.f i ins.ra ins.imm.toNat ins.rc (some fn) true
      pure .continue_
  else pure .trap

def inlineTailcallr (ex : Exec) (ins : JelloInsn) : VMM OpResult := do
  let fr ← topFrame
  let ctx := ex.ctx fr
  match ← onStore (calleeOf fr.rf ins.rb) with
  | .notPointer _ | .null | .notFunction => do
    onStore (jelloVmTrap ctx .typeMismatch "tailcallr callee not a function")
    pure .trap
  | .prim fn => do
    if ← onStore (jelloJdllInvokePrim ex fn ctx ins ins.imm.toNat) then endNativeTail ex fr ins.ra
    else pure .trap
  | .builtin fn => do
    onStore (ex.native fn.funcIndex ctx ins ins.imm.toNat)
    endNativeTail ex fr ins.ra
  | .bytecode fn => do
    let cf ← callArgs ex fr fn.funcIndex ins.imm.toNat ins.rc
    vmReplaceFrame ex cf fr.f ins.imm.toNat ins.rc (some fn)
    pure .continue_

/-- The cases of the loop that jump, call or return. -/
def inlineControl (ex : Exec) (ins : JelloInsn) : Option (VMM OpResult) :=
  match ins.op with
  | .ret => some (inlineRet ex ins)
  | .jmp => some (opJmp ex ins)
  | .jmpIf => some (opJmpIf ex ins)
  | .assert => some (onCtx ex opAssert ins)
  | .call => some (inlineCall ex ins)
  | .callr => some (inlineCallr ex ins)
  | .tailcall => some (opTailcall ex ins)
  | .tailcallr => some (inlineTailcallr ex ins)
  | _ => none

def inlineInsn (ex : Exec) (build : Build) (ins : JelloInsn) : VMM OpResult :=
  match inlineControl ex ins with
  | some x => x
  | none =>
    match inlineOp ins.op with
    | some x => do
      onCtx ex x ins
      pure .continue_
    | none => opDispatch ex build ins

inductive ExecStatus
  | ok
  | trap
  deriving DecidableEq, Repr

/-- The head of the loop: `some` when it returns. -/
def checkExc (ex : Exec) : VMM (Option ExecStatus) := do
  let vm ← read id
  if ex.minCallFrames ≠ 0 ∧ vm.callFrames.length ≤ ex.minCallFrames then pure (some .ok)
  else do
    if ← vmExcDispatch ex then pure (some .trap)
    else do
      let vm ← read id
      if vm.callFrames = [] then do
        setOut ex jelloMakeNull
        pure (some .ok)
      else pure none

/-- The instruction at the program counter, which moves on. Past the end of the function there
is none. -/
def fetch (ex : Exec) : VMM JelloInsn := do
  let fr ← topFrame
  note (.insn fr.f fr.pc)
  match (ex.func fr.f).insns[fr.pc]? with
  | none => fail .wild
  | some ins => do
    setTopFrame { fr with pc := fr.pc + 1 }
    pure ins

/-- The body of the loop after its head; the reference interpreter leaves everything to
`op_dispatch`. -/
def execInsn (ex : Exec) (reference : Bool) (build : Build) : VMM (Option ExecStatus) := do
  let ins ← fetch ex
  let r ← if reference then opDispatch ex build ins else inlineInsn ex build ins
  pure (if r = .return_ then some .ok else none)

/-- One round of `vm_exec_loop`. -/
def execRound (ex : Exec) (reference : Bool) (build : Build) : VMM (Option ExecStatus) := do
  match ← checkExc ex with
  | some st => pure (some st)
  | none => execInsn ex reference build

/-- What an earlier run has left is dropped, and the caches of the module are made. -/
def resetRun (ex : Exec) : VMM Unit :=
  change fun vm ↦
    { vm with
      callFrames := []
      excHandlers := []
      store :=
        { vm.store with
          constFunCache := List.replicate (jelloNativeBuiltinCount + ex.m.funcs.length) 0
          constBytesCache := List.replicate ex.m.constBytes.length 0
          enumNullaryNtypes := ex.m.types.length
          enumNullary := fun _ _ ↦ 0
          excPending := false
          excPayload := jelloMakeNull
          trapCode := .none
          trapMsg := none
          fuelRemaining := vm.store.fuelLimit } }

/-- `exec_entry` up to its loop: the entry function of the module gets the first frame. -/
def execEntry (ex : Exec) : VMM Bool := do
  resetRun ex
  vmPushFrame ex ex.m.entry ex.m.entry 0 0 0 0 none false

/-- `jello_vm_exec_status_chunk` up to its loop. -/
def execChunk (ex : Exec) (f : ℕ) (args : List JelloValue) : VMM Bool :=
  if ex.m.funcs.length ≤ f then vmPanic
  else do
    resetRun ex
    vmPushFrameEntry ex f none args

/-- `jello_vm_exec_status_closure` up to its loop. -/
def execClosure (ex : Exec) (fn : JelloFunction) (args : List JelloValue) : VMM Bool := do
  resetRun ex
  if jelloIsNativeBuiltin fn.funcIndex ∨ jelloIsJdllPrim fn.funcIndex then pure false
  else if ex.m.funcs.length ≤ bytecodeIdx fn.funcIndex then pure false
  else vmPushFrameEntry ex (bytecodeIdx fn.funcIndex) (some fn) args

/-- The first `n` rounds of `vm_exec_loop`; `none` while it goes on. -/
def vmExecLoop (ex : Exec) (reference : Bool) (build : Build) : ℕ → VMM (Option ExecStatus)
  | 0 => pure none
  | n + 1 => do
    match ← execRound ex reference build with
    | some st => pure (some st)
    | none => vmExecLoop ex reference build n

/-- The frames that an exception has left are released; the text of the stack trace is left
out. -/
def vmCaptureTrapStack (st : ExecStatus) : VMM Unit :=
  if st = .ok then pure () else vmUnwindAllFrames

/-- The end of a run; the collection that follows a normal end is left out. -/
def vmFinishExec (st : ExecStatus) : VMM Unit :=
  if st ≠ .ok then pure ()
  else do
    vmUnwindAllFrames
    change fun vm ↦ { vm with store := { vm.store with spill := [] } }

end JelloVM
