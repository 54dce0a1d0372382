import JelloVM.Check
import JelloVM.Exc

namespace JelloVM

open ByteMemory Logged

inductive OpResult
  | continue_
  | return_
  | trap
  deriving DecidableEq, Repr

def Exec.ctx (ex : Exec) (fr : CallFrame) : Ctx :=
  { m := ex.m, fpu := ex.fpu, f := fr.f, rf := fr.rf, pc := fr.pc }

def Exec.func (ex : Exec) (f : ℕ) : JelloBcFunction := ex.m.func f

/-- The handlers that the frame has installed are dropped. -/
def dropHandlers (fr : CallFrame) : VMM Unit := do
  let len ← read fun vm ↦ vm.excHandlers.length
  if len < fr.excBase then vmPanic
  else change fun vm ↦ { vm with excHandlers := vm.excHandlers.drop (len - fr.excBase) }

def callerFrame : VMM CallFrame := do
  match ← read VM.callFrames with
  | _ :: caller :: _ => pure caller
  | _ => vmPanic

def setOut (ex : Exec) (v : JelloValue) : VMM Unit :=
  if ex.out then change fun vm ↦ { vm with out := some v } else pure ()

/-- The end of a run: no frames, no handlers, no caches. -/
def finishRun (ex : Exec) (fr : CallFrame) (ret : JelloValue) : VMM Unit := do
  vmRfRelease fr.rf
  change fun vm ↦
    { vm with
      callFrames := []
      excHandlers := []
      store :=
        { vm.store with
          constFunCache := []
          constBytesCache := []
          enumNullaryNtypes := 0
          enumNullary := fun _ _ ↦ 0 } }
  setOut ex ret

/-- The value of a frame that a native caller waits for. -/
def captureRet (ex : Exec) (fr : CallFrame) (a : ℕ) : VMM Unit := do
  let ret ← onStore (vmBoxFromTyped ex.m fr.f fr.rf a)
  change fun vm ↦ { vm with jdllOut := some ret, jdllCallOut := false }
  vmRfRelease fr.rf
  popCallFrame

def returnRaw (ex : Exec) (fr caller : CallFrame) (a tid : ℕ) : VMM Unit := do
  let t ← onStore (typeOf ex.m tid)
  onStore (copySlot caller.rf fr.callerDst fr.rf a (jelloSlotSize t.kind))
  vmRfRelease fr.rf
  popCallFrame

def returnBoxed (ex : Exec) (fr caller : CallFrame) (a : ℕ) : VMM Unit := do
  let ret ← onStore (vmBoxFromTyped ex.m fr.f fr.rf a)
  vmRfRelease fr.rf
  popCallFrame
  onStore (vmStoreFromBoxed ex.m ex.fpu caller.f caller.rf fr.callerDst ret)

def opRet (ex : Exec) (ins : JelloInsn) : VMM OpResult := do
  let fr ← topFrame
  dropHandlers fr
  if !fr.hasCaller then do
    let ret ← onStore (vmBoxFromTyped ex.m fr.f fr.rf ins.ra)
    if ex.outExports ∧ ex.entryModuleIdx ≠ 0xffffffff ∧
        ex.entryModuleIdx < (ex.func fr.f).nregs then do
      let exports ← onStore (vmBoxFromTyped ex.m fr.f fr.rf ex.entryModuleIdx)
      change fun vm ↦ { vm with outExports := some exports }
    else pure ()
    finishRun ex fr ret
    pure .return_
  else do
    let caller ← callerFrame
    let callOut ← read VM.jdllCallOut
    if fr.jdllRetCapture ∧ callOut then do
      captureRet ex fr ins.ra
      pure .continue_
    else do
      let tid ← onStore (regTypeOf ex.m fr.f ins.ra)
      let dstTid ← onStore (regTypeOf ex.m caller.f fr.callerDst)
      if dstTid = tid then do
        returnRaw ex fr caller ins.ra tid
        pure .continue_
      else do
        returnBoxed ex fr caller ins.ra
        pure .continue_

/-- The `RET` of the computed goto table: exports are not captured. -/
def labelRet (ex : Exec) (ins : JelloInsn) : VMM OpResult := do
  let fr ← topFrame
  dropHandlers fr
  if !fr.hasCaller then do
    let ret ← onStore (vmBoxFromTyped ex.m fr.f fr.rf ins.ra)
    finishRun ex fr ret
    pure .return_
  else do
    let caller ← callerFrame
    let callOut ← read VM.jdllCallOut
    if fr.jdllRetCapture ∧ callOut then do
      captureRet ex fr ins.ra
      pure .continue_
    else do
      let tid ← onStore (regTypeOf ex.m fr.f ins.ra)
      let dstTid ← onStore (regTypeOf ex.m caller.f fr.callerDst)
      if dstTid = tid then do
        returnRaw ex fr caller ins.ra tid
        pure .continue_
      else do
        returnBoxed ex fr caller ins.ra
        pure .continue_

/-- The `RET` of the loop: a return to the same function counts as one between equal types. -/
def inlineRet (ex : Exec) (ins : JelloInsn) : VMM OpResult := do
  let fr ← topFrame
  dropHandlers fr
  if !fr.hasCaller then do
    let ret ← onStore (vmBoxFromTyped ex.m fr.f fr.rf ins.ra)
    finishRun ex fr ret
    pure .return_
  else do
    let caller ← callerFrame
    let callOut ← read VM.jdllCallOut
    if fr.jdllRetCapture ∧ callOut then do
      captureRet ex fr ins.ra
      pure .continue_
    else do
      let tid ← onStore (regTypeOf ex.m fr.f ins.ra)
      if caller.f = fr.f then do
        returnRaw ex fr caller ins.ra tid
        pure .continue_
      else do
        let dstTid ← onStore (regTypeOf ex.m caller.f fr.callerDst)
        if dstTid = tid then do
          returnRaw ex fr caller ins.ra tid
          pure .continue_
        else do
          returnBoxed ex fr caller ins.ra
          pure .continue_

/-- `jello_jit_runtime_ret_self`: as the loop, but native callers are not looked at. -/
def jelloJitRuntimeRetSelf (ex : Exec) (ins : JelloInsn) : VMM OpResult := do
  let fr ← topFrame
  dropHandlers fr
  if !fr.hasCaller then do
    let ret ← onStore (vmBoxFromTyped ex.m fr.f fr.rf ins.ra)
    finishRun ex fr ret
    pure .return_
  else do
    let caller ← callerFrame
    let tid ← onStore (regTypeOf ex.m fr.f ins.ra)
    if caller.f = fr.f then do
      returnRaw ex fr caller ins.ra tid
      pure .continue_
    else do
      let dstTid ← onStore (regTypeOf ex.m caller.f fr.callerDst)
      if dstTid = tid then do
        returnRaw ex fr caller ins.ra tid
        pure .continue_
      else do
        let ret ← onStore (vmBoxFromTyped ex.m fr.f fr.rf ins.ra)
        onStore (vmStoreFromBoxed ex.m ex.fpu caller.f caller.rf fr.callerDst ret)
        vmRfRelease fr.rf
        popCallFrame
        pure .continue_

def jumpFrom (ex : Exec) (fr : CallFrame) (base : ℕ) (d : UInt32) : VMM Unit :=
  match jumpTarget base d (ex.func fr.f).ninsns with
  | none => vmPanic
  | some npc => setTopFrame { fr with pc := npc }

def opJmp (ex : Exec) (ins : JelloInsn) : VMM OpResult := do
  let fr ← topFrame
  match jumpTarget fr.pc ins.imm (ex.func fr.f).ninsns with
  | none => vmPanic
  | some npc =>
    if i32 ins.imm < 0 then do
      if ← onStore (jelloVmFuelCharge (ex.ctx fr)) then do
        setTopFrame { fr with pc := npc }
        pure .continue_
      else pure .trap
    else do
      setTopFrame { fr with pc := npc }
      pure .continue_

/-- The `JMP` of the computed goto table takes no fuel. -/
def labelJmp (ex : Exec) (ins : JelloInsn) : VMM OpResult := do
  let fr ← topFrame
  jumpFrom ex fr fr.pc ins.imm
  pure .continue_

def opJmpIf (ex : Exec) (ins : JelloInsn) : VMM OpResult := do
  let fr ← topFrame
  let cond ← onStore (vmLoadU32 fr.rf ins.ra)
  if cond ≠ 0 then do
    jumpFrom ex fr fr.pc ins.imm
    pure .continue_
  else pure .continue_

/-- The first entry of the table for `kind`, from `pc` on. -/
def findCase (m : JelloBcModule) (f : ℕ) (kind : UInt32) : ℕ → ℕ → StoreM (Option UInt32)
  | _, 0 => pure none
  | pc, n + 1 => do
    note (.insn f pc)
    let ci := (m.func f).insn pc
    if ci.a.toUInt32 = kind then pure (some ci.imm) else findCase m f kind (pc + 1) n

def opSwitchKind (ex : Exec) (ins : JelloInsn) : VMM OpResult := do
  let fr ← topFrame
  let kind ← onStore (vmLoadU32 fr.rf ins.ra)
  let tableEnd := fr.pc + ins.rb
  if (ex.func fr.f).ninsns < tableEnd then vmPanic
  else do
    let d ← onStore (findCase ex.m fr.f kind fr.pc ins.rb)
    jumpFrom ex fr tableEnd (d.getD ins.imm)
    pure .continue_

def opTry (ex : Exec) (ins : JelloInsn) : VMM OpResult := do
  let fr ← topFrame
  match jumpTarget fr.pc ins.imm (ex.func fr.f).ninsns with
  | none => vmPanic
  | some catchPc => do
    let len ← read fun vm ↦ vm.callFrames.length
    vmExcPush
      { frameIndex := len - 1, catchPc := catchPc, dstReg := ins.ra, trapOnly := ins.b != 0 }
    pure .continue_

def opEndtry : VMM OpResult := do
  let len ← read fun vm ↦ vm.callFrames.length
  match ← vmExcPop with
  | none => vmPanic
  | some h => if h.frameIndex ≠ len - 1 then vmPanic else pure .continue_

def opThrow (ctx : Ctx) (ins : JelloInsn) : StoreM OpResult := do
  let payload ← vmLoadVal ctx.rf ins.ra
  setTrap .thrown (some (text "unhandled throw")) payload
  pure .trap

/-- At most 160 bytes of the message come before the text. -/
def opAssert (ctx : Ctx) (ins : JelloInsn) : StoreM OpResult := do
  let cond ← vmLoadU32 ctx.rf ins.ra
  let payload := jelloMakeI32 TrapCode.thrown.code
  if cond ≠ 0 then pure .continue_
  else if ins.c = 1 then do
    let v ← vmBoxFromTyped ctx.m ctx.f ctx.rf ins.rb
    if !jelloIsPtr v then do
      setTrap .thrown (some (text "assertion failed")) payload
      pure .trap
    else do
      match ← cellAt v with
      | .bytes b => do
        let n := min b.length.toNat 160
        let msg := cstring ((List.range n).map b.data)
        setTrap .thrown (some (clip (msg ++ text "assertion failed"))) payload
        pure .trap
      | _ => do
        setTrap .thrown (some (text "assertion failed")) payload
        pure .trap
  else do
    setTrap .thrown (some (text "assertion failed")) payload
    pure .trap

/-- A native function has left its result in a register of the frame, which ends. -/
def endNativeTail (ex : Exec) (fr : CallFrame) (a : ℕ) : VMM OpResult := do
  dropHandlers fr
  if !fr.hasCaller then do
    let ret ← onStore (vmBoxFromTyped ex.m fr.f fr.rf a)
    vmRfRelease fr.rf
    popCallFrame
    setOut ex ret
    pure .return_
  else do
    let caller ← callerFrame
    returnBoxed ex fr caller a
    pure .continue_

/-- The bytecode function and the arguments of a call, after the checks. -/
def callArgs (ex : Exec) (fr : CallFrame) (fi : UInt32) (first na : ℕ) : VMM ℕ :=
  if ex.m.funcs.length ≤ bytecodeIdx fi then vmPanic
  else if fr.rf.nregs < u32 (first + na) then vmPanic
  else pure (bytecodeIdx fi)

def topIndex : VMM ℕ := read fun vm ↦ vm.callFrames.length - 1

def opCall (ex : Exec) (ins : JelloInsn) : VMM OpResult := do
  let fr ← topFrame
  if ← onStore (jelloVmFuelCharge (ex.ctx fr)) then do
    if jelloIsNativeBuiltin ins.imm then do
      onStore (ex.native ins.imm (ex.ctx fr) ins ins.rb)
      pure .continue_
    else do
      let cf ← callArgs ex fr ins.imm ins.rb ins.rc
      let i ← topIndex
      let _ ← vmPushFrame ex cf fr.f i ins.ra ins.rb ins.rc none true
      pure .continue_
  else pure .trap

def hex (n : ℕ) : List UInt8 := text (String.ofList (Nat.toDigits 16 n))

/-- The message of a call through a register that holds no pointer. -/
def notAFunction (name : String) (fr : CallFrame) (ins : JelloInsn) (v : Option JelloValue) :
    List UInt8 :=
  text (name ++ " callee not a function (func=") ++ decimal fr.f ++ text " pc=" ++
    decimal (fr.pc - 1) ++ text " reg=" ++ decimal ins.rb ++
    (match v with
      | some v => text " val=0x" ++ hex v.toNat ++ text ")"
      | none => text ")")

def trapWith (ctx : Ctx) (msg : List UInt8) : StoreM Unit :=
  setTrap .typeMismatch (some (maybePrefixTrapLocation ctx (msg.take 127)))
    (jelloMakeI32 TrapCode.typeMismatch.code)

def jelloJdllInvokePrim (ex : Exec) (fn : JelloFunction) (ctx : Ctx) (ins : JelloInsn)
    (firstArg : ℕ) : StoreM Bool := do
  match ← ex.prim fn ctx ins firstArg with
  | none => pure true
  | some msg => do
    setTrap .typeMismatch (some (maybePrefixTrapLocation ctx (clip msg)))
      (jelloMakeI32 TrapCode.typeMismatch.code)
    pure false

/-- What the callee register of an indirect call holds. -/
inductive Callee
  | prim (fn : JelloFunction)
  | builtin (fn : JelloFunction)
  | bytecode (fn : JelloFunction)
  | notPointer (v : JelloValue)
  | null
  | notFunction

def calleeOf (rf : RegFrame) (r : ℕ) : StoreM Callee := do
  let v ← vmLoadVal rf r
  if !jelloIsPtr v || jelloIsNull v then pure (.notPointer v)
  else if v = 0 then pure .null
  else do
    match ← cellAt v with
    | .function fn =>
      if jelloIsJdllPrim fn.funcIndex then pure (.prim fn)
      else if jelloIsNativeBuiltin fn.funcIndex then pure (.builtin fn)
      else pure (.bytecode fn)
    | _ => pure .notFunction

def opCallr (ex : Exec) (ins : JelloInsn) : VMM OpResult := do
  let fr ← topFrame
  let ctx := ex.ctx fr
  if ← onStore (jelloVmFuelCharge ctx) then do
    match ← onStore (calleeOf fr.rf ins.rb) with
    | .notPointer v => do
      onStore (trapWith ctx (notAFunction "callr" fr ins (some v)))
      pure .continue_
    | .null => do
      onStore (jelloVmTrap ctx .typeMismatch "callr callee is null")
      pure .continue_
    | .notFunction => do
      onStore (jelloVmTrap ctx .typeMismatch "callr callee not a function")
      pure .continue_
    | .prim fn => do
      let _ ← onStore (jelloJdllInvokePrim ex fn ctx ins ins.imm.toNat)
      pure .continue_
    | .builtin fn => do
      onStore (ex.native fn.funcIndex ctx ins ins.imm.toNat)
      pure .continue_
    | .bytecode fn => do
      let cf ← callArgs ex fr fn.funcIndex ins.imm.toNat ins.rc
      let i ← topIndex
      let _ ← vmPushFrame ex cf fr.f i ins.ra ins.imm.toNat ins.rc (some fn) true
      pure .continue_
  else pure .trap

def opTailcall (ex : Exec) (ins : JelloInsn) : VMM OpResult := do
  let fr ← topFrame
  if jelloIsNativeBuiltin ins.imm then do
    onStore (ex.native ins.imm (ex.ctx fr) ins ins.rb)
    endNativeTail ex fr ins.ra
  else do
    let cf ← callArgs ex fr ins.imm ins.rb ins.rc
    vmReplaceFrame ex cf fr.f ins.rb ins.rc none
    pure .continue_

/-- A null callee is read like any other pointer here. -/
def opTailcallr (ex : Exec) (ins : JelloInsn) : VMM OpResult := do
  let fr ← topFrame
  let ctx := ex.ctx fr
  match ← onStore (calleeOf fr.rf ins.rb) with
  | .notPointer _ => do
    onStore (trapWith ctx (notAFunction "tailcallr" fr ins none))
    pure .continue_
  | .null => fail .wild
  | .notFunction => do
    onStore (jelloVmTrap ctx .typeMismatch "tailcallr callee not a function")
    pure .continue_
  | .prim fn => do
    if ← onStore (jelloJdllInvokePrim ex fn ctx ins ins.imm.toNat) then endNativeTail ex fr ins.ra
    else pure .continue_
  | .builtin fn => do
    onStore (ex.native fn.funcIndex ctx ins ins.imm.toNat)
    endNativeTail ex fr ins.ra
  | .bytecode fn => do
    let cf ← callArgs ex fr fn.funcIndex ins.imm.toNat ins.rc
    vmReplaceFrame ex cf fr.f ins.imm.toNat ins.rc (some fn)
    pure .continue_

end JelloVM
