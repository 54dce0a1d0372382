import JelloVM.Ops.Bytes

namespace JelloVM

open ByteMemory Logged

/-- Alignments are powers of two. -/
def alignUp (x a : ℕ) : ℕ := (x + (a - 1)) / a * a

/-- The offsets of registers of the given kinds from `total` on, and where the last one ends. -/
def layoutFrom : List Kind → ℕ → List ℕ × ℕ
  | [], total => ([], total)
  | k :: ks, total =>
    let o := alignUp total (jelloSlotSize k)
    let (os, t) := layoutFrom ks (o + jelloSlotSize k)
    (o :: os, t)

structure FrameLayout where
  nregs : ℕ
  total : ℕ
  off : List ℕ
  hasPointerOrDynamic : Bool
  deriving DecidableEq, Repr, Inhabited

def regKinds (m : JelloBcModule) (f : ℕ) : List Kind :=
  (m.func f).regTypes.map fun tid ↦ (m.type tid).kind

def vmGetFrameLayout (m : JelloBcModule) (f : ℕ) : FrameLayout :=
  let l := layoutFrom (regKinds m f) 0
  { nregs := (m.func f).nregs
    total := l.2
    off := l.1
    hasPointerOrDynamic := (regKinds m f).any fun k ↦ !vmTypeIsNonptr k }

/-- `jello_function`s and frames know the function by its index in the module. -/
structure CallFrame where
  f : ℕ
  rf : RegFrame
  pc : ℕ
  callerDst : ℕ
  excBase : ℕ
  hasCaller : Bool
  jdllRetCapture : Bool
  hasPointerOrDynamic : Bool
  deriving DecidableEq, Repr, Inhabited

structure ExcHandler where
  frameIndex : ℕ
  catchPc : ℕ
  dstReg : ℕ
  trapOnly : Bool
  deriving DecidableEq, Repr, Inhabited

/-- The two stacks have their top first: the frame of index `i` is the one with `i` frames
after it. `jdllCallOut` says that the pointer is set, `jdllOut` what was written through it. -/
structure VM where
  store : Store
  callFrames : List CallFrame
  callFramesMax : ℕ
  frameStack : ℕ
  frameStackTop : ℕ
  frameStackCap : ℕ
  excHandlers : List ExcHandler
  jdllCallOut : Bool
  jdllOut : Option JelloValue
  out : Option JelloValue
  outExports : Option JelloValue

/-- `jello_vm_create` -/
def jelloVmCreate : VM :=
  { store :=
      { mem := fun _ ↦ 0
        heap := { cells := fun _ ↦ none, next := 16 }
        spill := []
        constFunCache := []
        constBytesCache := []
        enumNullaryNtypes := 0
        enumNullary := fun _ _ ↦ 0
        excPending := false
        excPayload := 0
        trapCode := .none
        trapMsg := none
        maxBytesLen := 0
        maxArrayLen := 0
        fuelLimit := 0
        fuelRemaining := 0 }
    callFrames := []
    callFramesMax := 100000
    frameStack := 0
    frameStackTop := 0
    frameStackCap := 0
    excHandlers := []
    jdllCallOut := false
    jdllOut := none
    out := none
    outExports := none }

abbrev VMM (α : Type) := Logged Fault Access VM α

/-- The surroundings of a run: the module, the floating point unit, the allocator (0 when it
fails, else the place of the frame stack of the given size), the native functions (those of a
library give a message when they fail), and what the caller of the loop wants to know. -/
structure Exec where
  m : JelloBcModule
  fpu : Fpu
  realloc : ℕ → ℕ
  native : UInt32 → Ctx → JelloInsn → ℕ → StoreM Unit
  prim : JelloFunction → Ctx → JelloInsn → ℕ → StoreM (Option (List UInt8))
  out : Bool
  outExports : Bool
  entryModuleIdx : ℕ
  minCallFrames : ℕ

/-- A run of a module alone: no native functions, and a frame stack at one place. -/
def Exec.alone (m : JelloBcModule) : Exec :=
  { m := m
    fpu := default
    realloc := fun _ ↦ 4096
    native := fun _ _ _ _ ↦ panic
    prim := fun _ _ _ _ ↦ panic
    out := true
    outExports := false
    entryModuleIdx := 0xffffffff
    minCallFrames := 0 }

def VM.setStore (vm : VM) (s : Store) : VM := { vm with store := s }

def onStore {α : Type} (x : StoreM α) : VMM α := onPart VM.store VM.setStore x

def vmPanic {α : Type} : VMM α := fail .panic

def VM.frameAt (vm : VM) (i : ℕ) : Option CallFrame := vm.callFrames.reverse[i]?

def frameAtIndex (i : ℕ) : VMM CallFrame := do
  match ← read fun vm ↦ vm.frameAt i with
  | some fr => pure fr
  | none => fail .wild

def topFrame : VMM CallFrame := do
  match ← read VM.callFrames with
  | fr :: _ => pure fr
  | [] => vmPanic

def pushCallFrame (fr : CallFrame) : VMM Unit :=
  change fun vm ↦ { vm with callFrames := fr :: vm.callFrames }

def setTopFrame (fr : CallFrame) : VMM Unit :=
  change fun vm ↦ { vm with callFrames := fr :: vm.callFrames.tail }

def popCallFrame : VMM Unit := change fun vm ↦ { vm with callFrames := vm.callFrames.tail }

def u32 (n : ℕ) : ℕ := n % 2 ^ 32

/-- `uint32_t` subtraction -/
def sub32 (a b : ℕ) : ℕ := u32 (a + 2 ^ 32 - b)

def frameStackInitial : ℕ := 64 * 1024

/-- After 17 rounds the capacity is 0, and stays so. -/
def growCap : ℕ → ℕ → ℕ → Option ℕ
  | 0, _, _ => none
  | n + 1, cap, need => if cap < need then growCap n (u32 (cap * 4)) need else some cap

def RegFrame.rebase (rf : RegFrame) (old new : ℕ) : RegFrame :=
  if rf.mem = 0 then rf else { rf with mem := new + rf.mem - old }

def vmFrameStackGrow (ex : Exec) (need : ℕ) : VMM Unit := do
  let vm ← read id
  let old := vm.frameStack
  let oldCap := vm.frameStackCap
  let want := u32 (vm.frameStackTop + need)
  if want ≤ oldCap then pure ()
  else
    match growCap 17 (if oldCap = 0 then frameStackInitial else u32 (oldCap * 4)) want with
    | none => fail .diverge
    | some cap =>
      let p := ex.realloc cap
      if p = 0 then vmPanic
      else if p = old ∨ old = 0 then
        change fun vm ↦ { vm with frameStack := p, frameStackCap := cap }
      else
        change fun vm ↦
          { vm with
            store := { vm.store with mem := copy vm.store.mem p old oldCap }
            frameStack := p
            frameStackCap := cap
            callFrames := vm.callFrames.map fun fr ↦ { fr with rf := fr.rf.rebase old p } }

def vmFrameStackBump (ex : Exec) (size : ℕ) : VMM ℕ :=
  if size = 0 then pure 0
  else do
    let vm ← read id
    if vm.frameStackCap < u32 (vm.frameStackTop + size) then vmFrameStackGrow ex size
    else pure ()
    let vm ← read id
    change fun vm ↦ { vm with frameStackTop := u32 (vm.frameStackTop + size) }
    pure (vm.frameStack + vm.frameStackTop)

/-- No block comes from the pools of the source, so one outside the frame stack is none. -/
def vmRfRelease (rf : RegFrame) : VMM Unit := do
  let vm ← read id
  if rf.mem = 0 then pure ()
  else if vm.frameStack ≠ 0 ∧ vm.frameStack ≤ rf.mem ∧ rf.mem < vm.frameStack + vm.frameStackCap
  then change fun vm ↦ { vm with frameStackTop := sub32 vm.frameStackTop rf.total }
  else fail .wild

def stackOverflow : VMM Unit :=
  onStore (setTrap .stackOverflow (some (text "stack overflow"))
    (jelloMakeI32 TrapCode.stackOverflow.code))

def VM.canPush (vm : VM) : Bool :=
  vm.callFramesMax == 0 || vm.callFrames.length < vm.callFramesMax

/-- Frames with pointers or Dynamic registers start at zero, Dynamic ones with tagged null. -/
def initRegs (m : JelloBcModule) (f : ℕ) (rf : RegFrame) (hasPointerOrDynamic : Bool) :
    StoreM Unit :=
  if rf.mem ≠ 0 ∧ rf.total ≠ 0 ∧ hasPointerOrDynamic then do
    change fun s ↦ { s with mem := fill s.mem rf.mem rf.total 0 }
    loop (fun r ↦ do
      let k ← vmRegKind m f r
      if k = .dynamic then vmStoreVal rf r jelloMakeNull else pure ()) 0 rf.nregs
  else pure ()

def vmArgTypesCompatible (m : JelloBcModule) (src dst : ℕ) : StoreM Bool :=
  if src = dst then pure true
  else if m.types.length ≤ src ∨ m.types.length ≤ dst then pure false
  else do
    let s ← typeOf m src
    let d ← typeOf m dst
    pure (s.kind = d.kind)

/-- The loop of `vm_can_use_fast_arg_copy`. -/
def argTypesMatch (m : JelloBcModule) (callerF calleeF : ℕ) : ℕ → ℕ → ℕ → StoreM Bool
  | _, _, 0 => pure true
  | src, dst, n + 1 => do
    let srcTid ← regTypeOf m callerF src
    let dstTid ← regTypeOf m calleeF dst
    if ← vmArgTypesCompatible m srcTid dstTid then
      argTypesMatch m callerF calleeF (src + 1) (dst + 1) n
    else pure false

def JelloFunction.hasBoundThis (fn : JelloFunction) : Bool := jelloBoundThisIsSet fn.boundThis

/-- Every caller passes 0 for `require_nonptr`. -/
def vmCanUseFastArgCopy (m : JelloBcModule) (callerF calleeF firstArg nargs dstBase : ℕ)
    (funobj : Option JelloFunction) : StoreM Bool :=
  if nargs = 0 then pure false
  else if funobj.any fun fn ↦ fn.ncaps != 0 || fn.hasBoundThis then pure false
  else argTypesMatch m callerF calleeF firstArg dstBase nargs

/-- Arguments by the slot sizes of the callee. -/
def copyArgs (m : JelloBcModule) (calleeF : ℕ) (calleeRf callerRf : RegFrame)
    (firstArg nargs : ℕ) : StoreM Unit :=
  loop (fun i ↦ do
    let k ← vmRegKind m calleeF i
    copySlot calleeRf i callerRf (firstArg + i) (jelloSlotSize k)) 0 nargs

def vmCopyArgStrict (m : JelloBcModule) (fpu : Fpu) (callerF : ℕ) (callerRf : RegFrame) (src : ℕ)
    (calleeF : ℕ) (calleeRf : RegFrame) (dst : ℕ) : StoreM Unit := do
  let srcTid ← regTypeOf m callerF src
  let dstTid ← regTypeOf m calleeF dst
  if m.types.length ≤ srcTid ∨ m.types.length ≤ dstTid then panic
  else do
    let s ← typeOf m srcTid
    let d ← typeOf m dstTid
    if srcTid = dstTid ∨ s.kind = d.kind then
      copySlot calleeRf dst callerRf src (jelloSlotSize d.kind)
    else if s.kind = .dynamic then do
      let v ← vmLoadVal callerRf src
      vmStoreFromBoxed m fpu calleeF calleeRf dst v
    else if d.kind = .dynamic then do
      let v ← vmBoxFromTyped m callerF callerRf src
      vmStoreVal calleeRf dst v
    else panic

def capStart (m : JelloBcModule) (calleeF nregs ncaps : ℕ) : ℕ :=
  if m.features.capStart ∧ (m.func calleeF).capStart < nregs then (m.func calleeF).capStart
  else sub32 nregs ncaps

/-- The captures of a raw closure, from byte `off` of its buffer on. -/
def storeRawCaps (m : JelloBcModule) (calleeF : ℕ) (rf : RegFrame) (raw : Mem) :
    ℕ → ℕ → ℕ → StoreM Unit
  | _, 0, _ => pure ()
  | r, n + 1, off => do
    let k ← vmRegKind m calleeF r
    note (.slot rf r (jelloSlotSize k))
    change fun s ↦
      { s with mem := paste s.mem (rf.addr r) (jelloSlotSize k) fun i ↦ raw (off + i) }
    storeRawCaps m calleeF rf raw (r + 1) n (off + jelloSlotSize k)

def storeCaps (m : JelloBcModule) (fpu : Fpu) (calleeF : ℕ) (rf : RegFrame) (fn : JelloFunction)
    (start : ℕ) : StoreM Unit :=
  if fn.capsAreRaw then storeRawCaps m calleeF rf fn.rawCaps start fn.ncaps.toNat 0
  else
    loop (fun i ↦ vmStoreFromBoxed m fpu calleeF rf (start + i) (fn.caps i)) 0 fn.ncaps.toNat

/-- The checks of the captures against the registers that the callee has. -/
def initCaps (m : JelloBcModule) (fpu : Fpu) (calleeF : ℕ) (rf : RegFrame)
    (funobj : Option JelloFunction) (used : ℕ) : StoreM Unit :=
  match funobj with
  | none => pure ()
  | some fn =>
    if fn.ncaps = 0 then pure ()
    else if rf.nregs < fn.ncaps.toNat then panic
    else if capStart m calleeF rf.nregs fn.ncaps.toNat < used then panic
    else storeCaps m fpu calleeF rf fn (capStart m calleeF rf.nregs fn.ncaps.toNat)

/-- Stores the bound `this`, and gives the register of the first argument. -/
def initThis (m : JelloBcModule) (fpu : Fpu) (calleeF : ℕ) (rf : RegFrame)
    (funobj : Option JelloFunction) : StoreM ℕ :=
  match funobj with
  | none => pure 0
  | some fn =>
    if !fn.hasBoundThis then pure 0
    else if rf.nregs < 1 then panic
    else do
      vmStoreFromBoxed m fpu calleeF rf 0 fn.boundThis
      pure 1

def vmInitArgsAndCaps (m : JelloBcModule) (fpu : Fpu) (calleeF : ℕ) (calleeRf : RegFrame)
    (callerF : ℕ) (callerRf : RegFrame) (firstArg nargs : ℕ) (funobj : Option JelloFunction) :
    StoreM Unit := do
  let base ← initThis m fpu calleeF calleeRf funobj
  if calleeRf.nregs < base + nargs then panic
  else do
    loop (fun i ↦
      vmCopyArgStrict m fpu callerF callerRf (firstArg + i) calleeF calleeRf (base + i)) 0 nargs
    initCaps m fpu calleeF calleeRf funobj (base + nargs)

def vmInitClosureArgsFromValues (m : JelloBcModule) (fpu : Fpu) (calleeF : ℕ)
    (calleeRf : RegFrame) (funobj : Option JelloFunction) (args : List JelloValue) :
    StoreM Unit := do
  let base ← initThis m fpu calleeF calleeRf funobj
  if calleeRf.nregs < base + args.length then panic
  else do
    loop (fun i ↦ vmStoreFromBoxed m fpu calleeF calleeRf (base + i) (args.getD i 0)) 0
      args.length
    initCaps m fpu calleeF calleeRf funobj (base + args.length)

/-- A direct call of a function by itself has no function object, so the captures of the
caller are copied. -/
def vmInheritSelfCaptureSlots (m : JelloBcModule) (f : ℕ) (dst src : RegFrame) (nargs : ℕ) :
    StoreM Unit :=
  let fn := m.func f
  if !m.features.capStart then pure ()
  else if fn.capStart = 0 ∨ fn.nregs ≤ fn.capStart then pure ()
  else
    loop (fun r ↦
      if r < nargs then pure ()
      else do
        let k ← vmRegKind m f r
        copySlot dst r src r (jelloSlotSize k)) fn.capStart (fn.nregs - fn.capStart)

def FrameLayout.frame (fl : FrameLayout) (mem : ℕ) : RegFrame :=
  { mem := mem, off := fl.off, nregs := fl.nregs, total := fl.total }

/-- The caller guarantees the same function, no pointers, at most 16 arguments and room. -/
def vmPushSelfNumeric (ex : Exec) (firstArg nargs callerDst : ℕ) : VMM Unit := do
  let fr ← topFrame
  let mem ← vmFrameStackBump ex fr.rf.total
  let fr ← topFrame
  let excBase ← read fun vm ↦ vm.excHandlers.length
  let rf := { fr.rf with mem := mem }
  pushCallFrame
    { f := fr.f
      rf := rf
      pc := 0
      callerDst := callerDst
      excBase := excBase
      hasCaller := true
      jdllRetCapture := false
      hasPointerOrDynamic := false }
  onStore (copyArgs ex.m fr.f rf fr.rf firstArg nargs)

def vmFastArgNargsMaxPush : ℕ := 16

def vmFastArgNargsMaxTail : ℕ := 32

/-- The first frame of a run starts at the bottom. -/
def resetFrameStack : VMM Unit :=
  change fun vm ↦ if vm.callFrames = [] then { vm with frameStackTop := 0 } else vm

/-- A new frame on top, its registers initialised. -/
def pushFreshFrame (ex : Exec) (calleeF callerDst : ℕ) (hasCaller jdllRetCapture : Bool) :
    VMM RegFrame := do
  let fl := vmGetFrameLayout ex.m calleeF
  let mem ← vmFrameStackBump ex fl.total
  let excBase ← read fun vm ↦ vm.excHandlers.length
  let rf := fl.frame mem
  pushCallFrame
    { f := calleeF
      rf := rf
      pc := 0
      callerDst := callerDst
      excBase := excBase
      hasCaller := hasCaller
      jdllRetCapture := jdllRetCapture
      hasPointerOrDynamic := fl.hasPointerOrDynamic }
  onStore (initRegs ex.m calleeF rf fl.hasPointerOrDynamic)
  pure rf

/-- The arguments and captures of a call, and those of the caller for a direct self call. -/
def passArgs (ex : Exec) (calleeF : ℕ) (calleeRf : RegFrame) (callerF : ℕ) (callerRf : RegFrame)
    (firstArg nargs : ℕ) (funobj : Option JelloFunction) : StoreM Unit := do
  let fast ← if nargs ≤ vmFastArgNargsMaxPush then
      vmCanUseFastArgCopy ex.m callerF calleeF firstArg nargs 0 funobj
    else pure false
  if fast then copyArgs ex.m calleeF calleeRf callerRf firstArg nargs
  else vmInitArgsAndCaps ex.m ex.fpu calleeF calleeRf callerF callerRf firstArg nargs funobj
  if callerF = calleeF ∧ funobj.isNone then
    vmInheritSelfCaptureSlots ex.m calleeF calleeRf callerRf nargs
  else pure ()

def pushGeneral (ex : Exec) (calleeF callerF callerFrameIndex callerDst firstArg nargs : ℕ)
    (funobj : Option JelloFunction) (hasCaller : Bool) : VMM Bool := do
  let rf ← pushFreshFrame ex calleeF callerDst hasCaller false
  if hasCaller then do
    let len ← read fun vm ↦ vm.callFrames.length
    if len - 1 ≤ callerFrameIndex then vmPanic
    else do
      let caller ← frameAtIndex callerFrameIndex
      onStore (passArgs ex calleeF rf callerF caller.rf firstArg nargs funobj)
      pure true
  else pure true

def vmPushFrame (ex : Exec) (calleeF callerF callerFrameIndex callerDst firstArg nargs : ℕ)
    (funobj : Option JelloFunction) (hasCaller : Bool) : VMM Bool := do
  let vm ← read id
  if !vm.canPush then do
    stackOverflow
    pure false
  else do
    resetFrameStack
    if hasCaller ∧ callerF = calleeF ∧ funobj.isNone ∧ nargs ≤ vmFastArgNargsMaxPush then do
      if vm.callFrames.length ≤ callerFrameIndex then vmPanic
      else do
        let caller ← frameAtIndex callerFrameIndex
        if !caller.hasPointerOrDynamic then do
          let mem ← vmFrameStackBump ex caller.rf.total
          let caller ← frameAtIndex callerFrameIndex
          let excBase ← read fun vm ↦ vm.excHandlers.length
          let rf := { caller.rf with mem := mem }
          pushCallFrame
            { f := calleeF
              rf := rf
              pc := 0
              callerDst := callerDst
              excBase := excBase
              hasCaller := true
              jdllRetCapture := false
              hasPointerOrDynamic := false }
          onStore (copyArgs ex.m calleeF rf caller.rf firstArg nargs)
          pure true
        else pushGeneral ex calleeF callerF callerFrameIndex callerDst firstArg nargs funobj true
    else pushGeneral ex calleeF callerF callerFrameIndex callerDst firstArg nargs funobj hasCaller

def vmPushFrameEntry (ex : Exec) (calleeF : ℕ) (funobj : Option JelloFunction)
    (args : List JelloValue) : VMM Bool := do
  let vm ← read id
  if !vm.canPush then do
    stackOverflow
    pure false
  else if (ex.m.func calleeF).nregs < args.length then vmPanic
  else do
    resetFrameStack
    let rf ← pushFreshFrame ex calleeF 0 false false
    if funobj.isSome then
      onStore (vmInitClosureArgsFromValues ex.m ex.fpu calleeF rf funobj args)
    else
      onStore (loop (fun i ↦ vmStoreFromBoxed ex.m ex.fpu calleeF rf i (args.getD i 0)) 0
        args.length)
    pure true

def jelloFuncIndexJdllPrim : UInt32 := 0xfffffffe

def jelloIsJdllPrim (funcIndex : UInt32) : Bool := funcIndex == jelloFuncIndexJdllPrim

def jelloIsNativeBuiltin (funcIndex : UInt32) : Bool :=
  funcIndex.toNat < jelloNativeBuiltinCount

/-- The bytecode function of a logical index, which is not that of a builtin. -/
def bytecodeIdx (funcIndex : UInt32) : ℕ := funcIndex.toNat - jelloNativeBuiltinCount

/-- The function object that native code calls, with the given `this` when there is one. -/
def withThis (fn : JelloFunction) (boundThis : JelloValue) : VMM JelloFunction :=
  if jelloBoundThisIsSet boundThis then do
    let _ ← onStore (jelloFunctionBindThis fn.typeId.toNat fn boundThis)
    pure { fn with boundThis := boundThis }
  else pure fn

/-- The bottom of the frame stack is not reset here, also when there is no frame. -/
def pushCalled (ex : Exec) (calleeF : ℕ) (callFn : JelloFunction) (args : List JelloValue)
    (jdllRetCapture : Bool) : VMM Bool := do
  let vm ← read id
  if !vm.canPush then do
    stackOverflow
    pure false
  else do
    let rf ← pushFreshFrame ex calleeF 0 true jdllRetCapture
    onStore (vmInitClosureArgsFromValues ex.m ex.fpu calleeF rf (some callFn) args)
    pure true

def vmPushFrameJelloCall (ex : Exec) (p : JelloValue) (boundThis : JelloValue)
    (args : List JelloValue) (jdllRetCapture : Bool) : VMM Bool :=
  if p = 0 then pure false
  else do
    match ← onStore (cellAt p) with
    | .function fn =>
      if jelloIsNativeBuiltin fn.funcIndex ∨ jelloIsJdllPrim fn.funcIndex then pure false
      else if ex.m.funcs.length ≤ bytecodeIdx fn.funcIndex then pure false
      else do
        let callFn ← withThis fn boundThis
        pushCalled ex (bytecodeIdx fn.funcIndex) callFn args jdllRetCapture
    | _ => pure false

/-- The frame of the callee in the place of the current one: `caller_dst`, `exc_base`,
`has_caller` and `jdll_ret_capture` stay. -/
def CallFrame.become (fr : CallFrame) (calleeF : ℕ) (fl : FrameLayout) (mem : ℕ) : CallFrame :=
  { fr with
    f := calleeF
    rf := fl.frame mem
    pc := 0
    hasPointerOrDynamic := fl.hasPointerOrDynamic }

/-- The arguments by the slot sizes of the callee, eight bytes apart, into a buffer. -/
def saveArgs (m : JelloBcModule) (calleeF : ℕ) (rf : RegFrame) (firstArg dstBase : ℕ) :
    ℕ → ℕ → Mem → StoreM Mem
  | _, 0, buf => pure buf
  | i, n + 1, buf => do
    let k ← vmRegKind m calleeF (dstBase + i)
    note (.slot rf (firstArg + i) (jelloSlotSize k))
    let mem ← read Store.mem
    saveArgs m calleeF rf firstArg dstBase (i + 1) n
      (paste buf (8 * i) (jelloSlotSize k) fun j ↦ mem (rf.addr (firstArg + i) + j))

def restoreArgs (m : JelloBcModule) (calleeF : ℕ) (rf : RegFrame) (dstBase nargs : ℕ)
    (buf : Mem) : StoreM Unit :=
  loop (fun i ↦ do
    let k ← vmRegKind m calleeF (dstBase + i)
    note (.slot rf (dstBase + i) (jelloSlotSize k))
    change fun s ↦
      { s with
        mem := paste s.mem (rf.addr (dstBase + i)) (jelloSlotSize k) fun j ↦ buf (8 * i + j) })
    0 nargs

/-- The registers of a frame that a raw tail call has put in place. -/
def refillRaw (ex : Exec) (calleeF : ℕ) (rf : RegFrame) (hasPointerOrDynamic : Bool)
    (boundThis : Option JelloValue) (dstBase nargs : ℕ) (buf : Mem) : StoreM Unit := do
  initRegs ex.m calleeF rf hasPointerOrDynamic
  match boundThis with
  | some v => vmStoreFromBoxed ex.m ex.fpu calleeF rf 0 v
  | none => pure ()
  restoreArgs ex.m calleeF rf dstBase nargs buf

/-- Which of its paths a tail call takes: the arguments as raw bytes to register 0 on, the bound
`this` in register 0 and the arguments as raw bytes after it, or everything boxed. -/
inductive TailPath
  | typed
  | boundThis (v : JelloValue)
  | boxed
  deriving DecidableEq, Repr

def TailPath.dstBase : TailPath → ℕ
  | .boundThis _ => 1
  | _ => 0

def TailPath.this : TailPath → Option JelloValue
  | .boundThis v => some v
  | _ => none

def tailPath (m : JelloBcModule) (calleeF callerF firstArg nargs : ℕ)
    (funobj : Option JelloFunction) : StoreM TailPath := do
  let typed ← if nargs ≤ vmFastArgNargsMaxTail then
      if funobj.isNone ∧ callerF = calleeF then pure true
      else vmCanUseFastArgCopy m callerF calleeF firstArg nargs 0 funobj
    else pure false
  if typed then pure .typed
  else
    match funobj with
    | none => pure .boxed
    | some fn =>
      if nargs ≤ vmFastArgNargsMaxTail ∧ fn.hasBoundThis ∧ fn.ncaps = 0 ∧
          1 + nargs ≤ (m.func calleeF).nregs then do
        if ← vmCanUseFastArgCopy m callerF calleeF firstArg nargs 1 none then
          pure (.boundThis fn.boundThis)
        else pure .boxed
      else pure .boxed

/-- The area of the frame is released, and the callee gets one of its own. -/
def reallocFrame (ex : Exec) (fr : CallFrame) (calleeF : ℕ) : VMM ℕ := do
  let fl := vmGetFrameLayout ex.m calleeF
  vmRfRelease fr.rf
  setTopFrame { fr with rf := default }
  let mem ← vmFrameStackBump ex fl.total
  setTopFrame (fr.become calleeF fl mem)
  pure mem

/-- A smaller frame moves up inside the old one, and the top of the stack moves down. -/
def replaceRaw (ex : Exec) (calleeF firstArg nargs : ℕ) (path : TailPath) : VMM Unit := do
  let fr ← topFrame
  let fl := vmGetFrameLayout ex.m calleeF
  let buf ← onStore (saveArgs ex.m calleeF fr.rf firstArg path.dstBase 0 nargs fun _ ↦ 0)
  if fl.total ≤ fr.rf.total then do
    let delta := fr.rf.total - fl.total
    change fun vm ↦ { vm with frameStackTop := sub32 vm.frameStackTop delta }
    let mem := fr.rf.mem + delta
    setTopFrame (fr.become calleeF fl mem)
    onStore (refillRaw ex calleeF (fl.frame mem) fl.hasPointerOrDynamic path.this path.dstBase
      nargs buf)
  else do
    let mem ← reallocFrame ex fr calleeF
    onStore (refillRaw ex calleeF (fl.frame mem) fl.hasPointerOrDynamic path.this path.dstBase
      nargs buf)

/-- The boxed values into the registers of the callee; nothing here looks at how many it has. -/
def refillBoxed (ex : Exec) (calleeF : ℕ) (rf : RegFrame) (hasPointerOrDynamic : Bool)
    (funobj : Option JelloFunction) (args : List JelloValue) : StoreM Unit := do
  initRegs ex.m calleeF rf hasPointerOrDynamic
  let base ← match funobj with
    | none => pure 0
    | some fn =>
      if !fn.hasBoundThis then pure 0
      else do
        vmStoreFromBoxed ex.m ex.fpu calleeF rf 0 fn.boundThis
        pure 1
  loop (fun i ↦ vmStoreFromBoxed ex.m ex.fpu calleeF rf (base + i) (args.getD i 0)) 0 args.length
  match funobj with
  | none => pure ()
  | some fn =>
    if fn.ncaps = 0 then pure ()
    else storeCaps ex.m ex.fpu calleeF rf fn (capStart ex.m calleeF rf.nregs fn.ncaps.toNat)

def replaceBoxed (ex : Exec) (calleeF callerF firstArg nargs : ℕ)
    (funobj : Option JelloFunction) : VMM Unit := do
  let fr ← topFrame
  let fl := vmGetFrameLayout ex.m calleeF
  if 32 < nargs then vmPanic
  else do
    let args ← onStore (boxRegs ex.m callerF fr.rf firstArg nargs)
    let mem ← reallocFrame ex fr calleeF
    onStore (refillBoxed ex calleeF (fl.frame mem) fl.hasPointerOrDynamic funobj args)

def vmReplaceFrame (ex : Exec) (calleeF callerF firstArg nargs : ℕ)
    (funobj : Option JelloFunction) : VMM Unit := do
  let path ← onStore (tailPath ex.m calleeF callerF firstArg nargs funobj)
  if path = .boxed then replaceBoxed ex calleeF callerF firstArg nargs funobj
  else replaceRaw ex calleeF firstArg nargs path

end JelloVM
