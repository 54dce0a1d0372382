import JelloVM.Frame

namespace JelloVM

open ByteMemory Logged

def vmExcPush (h : ExcHandler) : VMM Unit :=
  change fun vm ↦ { vm with excHandlers := h :: vm.excHandlers }

def vmExcPop : VMM (Option ExcHandler) := do
  match ← read VM.excHandlers with
  | [] => pure none
  | h :: hs => do
    change fun vm ↦ { vm with excHandlers := hs }
    pure (some h)

/-- The handlers on top that belong to the frame. -/
def vmExcPopForFrame (frameIndex : ℕ) : VMM Unit :=
  change fun vm ↦
    { vm with excHandlers := vm.excHandlers.dropWhile fun h ↦ h.frameIndex == frameIndex }

def releaseFrames : List CallFrame → VMM Unit
  | [] => pure ()
  | fr :: frs => do
    vmRfRelease fr.rf
    releaseFrames frs

def vmUnwindAllFrames : VMM Unit := do
  let frs ← read VM.callFrames
  releaseFrames frs
  change fun vm ↦ { vm with callFrames := [] }

def trapKindName : TrapCode → String
  | .typeMismatch => "TypeMismatch"
  | .bounds => "Bounds"
  | .nullDeref => "NullDeref"
  | .thrown => "Thrown"
  | .stackOverflow => "StackOverflow"
  | .fuel => "Fuel"
  | .limit => "Limit"
  | .none => "Trap"

/-- A payload that is not the code of a failed assertion. -/
def catchPayloadIsUserThrow (s : Store) : Bool :=
  s.trapCode == .thrown &&
    (!jelloIsI32 s.excPayload || jelloAsI32 s.excPayload != TrapCode.thrown.code)

/-- The first type of the kind, or 0. -/
def moduleTypeId (m : JelloBcModule) (k : Kind) : ℕ :=
  (m.types.findIdx? fun t ↦ t.kind == k).getD 0

def vmModuleAtomIdOrDefault (m : JelloBcModule) (name : String) (default : ℕ) : UInt32 :=
  UInt32.ofNat ((m.atoms.findIdx? fun a ↦ cstring a == text name).getD default)

def bytesOf (typeId : ℕ) (b : List UInt8) : StoreM JelloValue :=
  jelloBytesNew typeId (UInt32.ofNat b.length) fun i ↦ b.getD i 0

def setField (p : JelloValue) (atomId : UInt32) (v : JelloValue) : StoreM Unit := do
  let o ← objectAt p
  let o ← orDiverge (jelloObjectSet o atomId v)
  writeCell p (.object o)

/-- What a handler receives: the value that was thrown, or an object that describes the trap. -/
def vmWrapCatchPayload (m : JelloBcModule) : StoreM JelloValue := do
  let s ← read id
  if catchPayloadIsUserThrow s then pure s.excPayload
  else do
    let o ← objectNew (UInt32.ofNat (moduleTypeId m .object))
    let kind := if s.trapCode == .thrown then "Assert" else trapKindName s.trapCode
    let bytesTid := moduleTypeId m .bytes
    let kb ← bytesOf bytesTid (text kind)
    setField o (vmModuleAtomIdOrDefault m "kind" 2) kb
    match s.trapMsg with
    | some msg => do
      let mb ← bytesOf bytesTid (cstring msg)
      setField o (vmModuleAtomIdOrDefault m "message" 3) mb
    | none => pure ()
    setField o (vmModuleAtomIdOrDefault m "code" 4) (jelloMakeI32 s.trapCode.code)
    pure o

/-- The innermost handler that is willing to catch, and those below it. -/
def willing (code : TrapCode) : List ExcHandler → Option (ExcHandler × List ExcHandler)
  | [] => none
  | h :: hs => if code == .thrown && h.trapOnly then willing code hs else some (h, hs)

/-- Frames above the one of index `target` are released, with their handlers. -/
def unwindTo (target : ℕ) : List CallFrame → VMM Unit
  | [] => pure ()
  | fr :: frs =>
    if target < frs.length then do
      vmExcPopForFrame frs.length
      vmRfRelease fr.rf
      popCallFrame
      unwindTo target frs
    else pure ()

def clearTrap : StoreM Unit :=
  change fun s ↦
    { s with
      excPending := false
      excPayload := jelloMakeNull
      trapCode := .none
      trapMsg := none }

/-- `true` when nobody catches. -/
def vmExcDispatch (ex : Exec) : VMM Bool := do
  let vm ← read id
  if !vm.store.excPending then pure false
  else
    match willing vm.store.trapCode vm.excHandlers with
    | none => do
      vmUnwindAllFrames
      change fun vm ↦ { vm with excHandlers := [] }
      pure true
    | some (h, hs) => do
      change fun vm ↦ { vm with excHandlers := hs }
      unwindTo h.frameIndex vm.callFrames
      -- a frame index that is not below the length reads past the live frames
      let target ← frameAtIndex h.frameIndex
      setTopFrame { target with pc := h.catchPc }
      let payload ← onStore (vmWrapCatchPayload ex.m)
      onStore (vmStoreVal target.rf h.dstReg payload)
      onStore clearTrap
      pure false

end JelloVM
