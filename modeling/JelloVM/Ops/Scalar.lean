import JelloVM.Ops.Arith

namespace JelloVM

open ByteMemory Logged

def opMov (ctx : Ctx) (ins : JelloInsn) : StoreM Unit := do
  let k ← vmRegKind ctx.m ctx.f ins.ra
  copySlot ctx.rf ins.ra ctx.rf ins.rb (jelloSlotSize k)

def opConstI8Imm (ctx : Ctx) (ins : JelloInsn) : StoreM Unit :=
  vmStoreU32 ctx.rf ins.ra ins.immC

def opConstI32 (ctx : Ctx) (ins : JelloInsn) : StoreM Unit := vmStoreU32 ctx.rf ins.ra ins.imm

def opConstI64 (ctx : Ctx) (ins : JelloInsn) : StoreM Unit := do
  note (.entry .constI64 ins.imm.toNat ctx.m.constI64.length)
  vmStoreI64 ctx.rf ins.ra (ctx.m.constI64.getD ins.imm.toNat 0)

def opConstF16 (ctx : Ctx) (ins : JelloInsn) : StoreM Unit :=
  vmStoreF16Bits ctx.rf ins.ra ins.imm.toUInt16

def opConstBool (ctx : Ctx) (ins : JelloInsn) : StoreM Unit :=
  vmStoreU32 ctx.rf ins.ra (ins.c &&& 1).toUInt32

def opConstAtom (ctx : Ctx) (ins : JelloInsn) : StoreM Unit := do
  note (.entry .atoms ins.imm.toNat ctx.m.atoms.length)
  vmStoreU32 ctx.rf ins.ra ins.imm

def opConstNull (ctx : Ctx) (ins : JelloInsn) : StoreM Unit :=
  vmStoreVal ctx.rf ins.ra jelloMakeNull

def opConstF32 (ctx : Ctx) (ins : JelloInsn) : StoreM Unit := vmStoreF32 ctx.rf ins.ra ins.imm

def opConstF64 (ctx : Ctx) (ins : JelloInsn) : StoreM Unit := do
  note (.entry .constF64 ins.imm.toNat ctx.m.constF64.length)
  vmStoreF64 ctx.rf ins.ra (ctx.m.constF64.getD ins.imm.toNat 0)

def jelloBytesNew (typeId : ℕ) (length : UInt32) (data : ℕ → UInt8) : StoreM JelloValue :=
  gcAlloc (.bytes { typeId := UInt32.ofNat typeId, length := length, data := data })

def opConstBytes (ctx : Ctx) (ins : JelloInsn) : StoreM Unit := do
  let idx := ins.imm.toNat
  let cache ← read Store.constBytesCache
  if cache.length ≤ idx then
    if ctx.m.constBytes.length ≤ idx then jelloVmTrap ctx .bounds "const_bytes out of range"
    else panic
  else do
    note (.entry .constBytesCache idx cache.length)
    if cache.getD idx 0 ≠ 0 then vmStorePtr ctx.rf ins.ra (cache.getD idx 0)
    else do
      note (.entry .constBytes idx ctx.m.constBytes.length)
      let payload := ctx.m.constBytes.getD idx []
      let typeId ← regTypeOf ctx.m ctx.f ins.ra
      let b ← jelloBytesNew typeId (UInt32.ofNat payload.length) fun i ↦ payload.getD i 0
      change fun s ↦ { s with constBytesCache := s.constBytesCache.set idx b }
      vmStorePtr ctx.rf ins.ra b

def jelloFunctionNew (typeId : ℕ) (funcIndex : UInt32) : StoreM JelloValue :=
  gcAlloc (.function
    { typeId := UInt32.ofNat typeId
      funcIndex := funcIndex
      ncaps := 0
      boundThis := jelloMakeNull
      capsAreRaw := false
      rawCapSize := 0
      caps := fun _ ↦ 0
      rawCaps := fun _ ↦ 0 })

def opConstFun (ctx : Ctx) (ins : JelloInsn) : StoreM Unit := do
  let idx := ins.imm.toNat
  let cache ← read Store.constFunCache
  if cache.length ≤ idx then panic
  else do
    note (.entry .constFunCache idx cache.length)
    if cache.getD idx 0 ≠ 0 then vmStorePtr ctx.rf ins.ra (cache.getD idx 0)
    else do
      let typeId ← regTypeOf ctx.m ctx.f ins.ra
      let fn ← jelloFunctionNew typeId ins.imm
      change fun s ↦ { s with constFunCache := s.constFunCache.set idx fn }
      vmStorePtr ctx.rf ins.ra fn

def opToDyn (ctx : Ctx) (ins : JelloInsn) : StoreM Unit := do
  let v ← vmBoxFromTyped ctx.m ctx.f ctx.rf ins.rb
  vmStoreVal ctx.rf ins.ra v

def fromDynIntValue (v : JelloValue) : StoreM (Option UInt32) :=
  if jelloIsI32 v then pure (some (jelloAsI32 v))
  else do
    match ← boxI64At v with
    | some x => pure (some x.toUInt32)
    | none => pure none

/-- The three conversions to the narrow integers; the name is that of the instruction. -/
def fromDynInt (k : Kind) (name : String) (ctx : Ctx) (ins : JelloInsn) : StoreM Unit := do
  let v ← vmLoadVal ctx.rf ins.rb
  match ← fromDynIntValue v with
  | some x => vmStoreU32Masked ctx.rf ins.ra x k
  | none => jelloVmTrap ctx .typeMismatch (name ++ " type mismatch")

def opFromDynI8 (ctx : Ctx) (ins : JelloInsn) : StoreM Unit := fromDynInt .i8 "from_dyn_i8" ctx ins

def opFromDynI16 (ctx : Ctx) (ins : JelloInsn) : StoreM Unit :=
  fromDynInt .i16 "from_dyn_i16" ctx ins

def opFromDynI32 (ctx : Ctx) (ins : JelloInsn) : StoreM Unit :=
  fromDynInt .i32 "from_dyn_i32" ctx ins

def opFromDynI64 (ctx : Ctx) (ins : JelloInsn) : StoreM Unit := do
  let v ← vmLoadVal ctx.rf ins.rb
  if jelloIsI32 v then vmStoreI64 ctx.rf ins.ra (sextI64 (jelloAsI32 v))
  else do
    match ← boxI64At v with
    | some x => vmStoreI64 ctx.rf ins.ra x
    | none => jelloVmTrap ctx .typeMismatch "from_dyn_i64 type mismatch"

def opFromDynF16 (ctx : Ctx) (ins : JelloInsn) : StoreM Unit := do
  let v ← vmLoadVal ctx.rf ins.rb
  match ← boxF16At v with
  | some x => vmStoreF16Bits ctx.rf ins.ra x
  | none => jelloVmTrap ctx .typeMismatch "from_dyn_f16 type mismatch"

def opFromDynF32 (ctx : Ctx) (ins : JelloInsn) : StoreM Unit := do
  let v ← vmLoadVal ctx.rf ins.rb
  if jelloIsI32 v then vmStoreF32 ctx.rf ins.ra (ctx.fpu.f32FromI32 (jelloAsI32 v))
  else do
    match ← boxF32At v with
    | some x => vmStoreF32 ctx.rf ins.ra x
    | none => jelloVmTrap ctx .typeMismatch "from_dyn_f32 type mismatch"

def opFromDynF64 (ctx : Ctx) (ins : JelloInsn) : StoreM Unit := do
  let v ← vmLoadVal ctx.rf ins.rb
  if jelloIsI32 v then vmStoreF64 ctx.rf ins.ra (ctx.fpu.f64FromI32 (jelloAsI32 v))
  else if jelloIsNull v then vmStoreF64 ctx.rf ins.ra 0
  else do
    match ← boxF64At v with
    | some x => vmStoreF64 ctx.rf ins.ra x
    | none => jelloVmTrap ctx .typeMismatch "from_dyn_f64 type mismatch"

def opFromDynBool (ctx : Ctx) (ins : JelloInsn) : StoreM Unit := do
  let v ← vmLoadVal ctx.rf ins.rb
  if !jelloIsBool v then jelloVmTrap ctx .typeMismatch "from_dyn_bool type mismatch"
  else vmStoreU32 ctx.rf ins.ra (flag (jelloAsBool v))

def opFromDynAtom (ctx : Ctx) (ins : JelloInsn) : StoreM Unit := do
  let v ← vmLoadVal ctx.rf ins.rb
  if !jelloIsAtom v then jelloVmTrap ctx .typeMismatch "from_dyn_atom type mismatch"
  else vmStoreU32 ctx.rf ins.ra (jelloAsAtom v)

def opFromDynPtr (ctx : Ctx) (ins : JelloInsn) : StoreM Unit := do
  let v ← vmLoadVal ctx.rf ins.rb
  let dk ← vmRegKind ctx.m ctx.f ins.ra
  let want := vmExpectedObjKindForTypedPtr dk
  if want = 0 then jelloVmTrap ctx .typeMismatch "from_dyn_ptr dst not pointer-kind"
  else if jelloIsNull v then vmStorePtr ctx.rf ins.ra 0
  else if !jelloIsPtr v then jelloVmTrap ctx .typeMismatch "from_dyn_ptr type mismatch"
  else do
    let kind ← jelloObjKindOf v
    if kind ≠ want then jelloVmTrap ctx .typeMismatch "from_dyn_ptr kind mismatch"
    else vmStorePtr ctx.rf ins.ra v

def vmSpillPush (v : JelloValue) : StoreM Unit := change fun s ↦ { s with spill := v :: s.spill }

def vmSpillPop : StoreM JelloValue := do
  match ← read Store.spill with
  | [] => panic
  | v :: rest =>
    change fun s ↦ { s with spill := rest }
    pure v

def opSpillPush (ctx : Ctx) (ins : JelloInsn) : StoreM Unit := do
  let v ← vmBoxFromTyped ctx.m ctx.f ctx.rf ins.ra
  vmSpillPush v

def opSpillPop (ctx : Ctx) (ins : JelloInsn) : StoreM Unit := do
  let v ← vmSpillPop
  vmStoreFromBoxed ctx.m ctx.fpu ctx.f ctx.rf ins.ra v

def opPhyseq (ctx : Ctx) (ins : JelloInsn) : StoreM Unit := do
  let vb ← vmBoxFromTyped ctx.m ctx.f ctx.rf ins.rb
  let vc ← vmBoxFromTyped ctx.m ctx.f ctx.rf ins.rc
  vmStoreU32 ctx.rf ins.ra (flag (vb == vc))

def opKindof (ctx : Ctx) (ins : JelloInsn) : StoreM Unit := do
  let v ← vmLoadVal ctx.rf ins.rb
  let k ← vmKindofDynamic v
  vmStoreU32 ctx.rf ins.ra k

def vmTypeIsNonptr : Kind → Bool
  | .i8 | .i16 | .i32 | .i64 | .f16 | .f32 | .f64 | .bool | .atom => true
  | _ => false

/-- The size of `n` captures from register `r` on, unless one of them is a pointer. -/
def rawCapSize (ctx : Ctx) : ℕ → ℕ → ℕ → StoreM (Option ℕ)
  | _, 0, size => pure (some size)
  | r, n + 1, size => do
    let k ← vmRegKind ctx.m ctx.f r
    if !vmTypeIsNonptr k then pure none
    else rawCapSize ctx (r + 1) n (size + jelloSlotSize k)

/-- The bytes of the registers, one after the other, into a buffer. -/
def rawCaps (ctx : Ctx) : ℕ → ℕ → ℕ → Mem → StoreM Mem
  | _, 0, _, buf => pure buf
  | r, n + 1, off, buf => do
    let k ← vmRegKind ctx.m ctx.f r
    note (.slot ctx.rf r (jelloSlotSize k))
    let mem ← read Store.mem
    rawCaps ctx (r + 1) n (off + jelloSlotSize k)
      (paste buf off (jelloSlotSize k) fun i ↦ mem (ctx.rf.addr r + i))

def jelloClosureNewRaw (typeId : ℕ) (funcIndex : UInt32) (ncaps size : ℕ) (raw : Mem) :
    StoreM JelloValue :=
  gcAlloc (.function
    { typeId := UInt32.ofNat typeId
      funcIndex := funcIndex
      ncaps := UInt32.ofNat ncaps
      boundThis := jelloMakeNull
      capsAreRaw := true
      rawCapSize := UInt32.ofNat size
      caps := fun _ ↦ 0
      rawCaps := raw })

def jelloClosureNew (typeId : ℕ) (funcIndex : UInt32) (caps : List JelloValue) :
    StoreM JelloValue :=
  gcAlloc (.function
    { typeId := UInt32.ofNat typeId
      funcIndex := funcIndex
      ncaps := UInt32.ofNat caps.length
      boundThis := jelloMakeNull
      capsAreRaw := false
      rawCapSize := 0
      caps := fun i ↦ caps.getD i 0
      rawCaps := fun _ ↦ 0 })

/-- Captures are kept as raw bytes when none of them is a pointer and they fit in 256 bytes. -/
def opClosure (ctx : Ctx) (ins : JelloInsn) : StoreM Unit := do
  let typeId ← regTypeOf ctx.m ctx.f ins.ra
  note (.entry .funcs ins.imm.toNat (jelloNativeBuiltinCount + ctx.m.funcs.length))
  let ncaps := ins.rc
  let size ← rawCapSize ctx ins.rb ncaps 0
  let raw := if ncaps = 0 then none else size.filter (· ≤ 256)
  match raw with
  | some size => do
    let buf ← rawCaps ctx ins.rb ncaps 0 fun _ ↦ 0
    let clo ← jelloClosureNewRaw typeId ins.imm ncaps size buf
    vmStorePtr ctx.rf ins.ra clo
  | none => do
    let caps ← boxRegs ctx.m ctx.f ctx.rf ins.rb ncaps
    let clo ← jelloClosureNew typeId ins.imm caps
    vmStorePtr ctx.rf ins.ra clo

def jelloFunctionBindThis (typeId : ℕ) (base : JelloFunction) (boundThis : JelloValue) :
    StoreM JelloValue :=
  gcAlloc (.function { base with typeId := UInt32.ofNat typeId, boundThis := boundThis })

def opBindThis (ctx : Ctx) (ins : JelloInsn) : StoreM Unit := do
  let p ← vmLoadPtr ctx.rf ins.rb
  if p = 0 then panic
  else do
    match ← cellAt p with
    | .function base => do
      let thisv ← vmBoxFromTyped ctx.m ctx.f ctx.rf ins.rc
      let typeId ← regTypeOf ctx.m ctx.f ins.ra
      let bound ← jelloFunctionBindThis typeId base thisv
      vmStorePtr ctx.rf ins.ra bound
    | _ => panic

end JelloVM
