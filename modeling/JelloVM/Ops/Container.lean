import JelloVM.Ops.Scalar

namespace JelloVM

open ByteMemory Logged

def opListNil (ctx : Ctx) (ins : JelloInsn) : StoreM Unit := vmStorePtr ctx.rf ins.ra 0

def jelloListCons (typeId : ℕ) (head tail : JelloValue) : StoreM JelloValue :=
  gcAlloc (.list { typeId := UInt32.ofNat typeId, head := head, tail := tail })

/-- The value of a register as containers keep it: number boxes of Dynamic registers are
copied. -/
def boxForSlot (ctx : Ctx) (r : ℕ) : StoreM JelloValue := do
  let v ← vmBoxFromTyped ctx.m ctx.f ctx.rf r
  let k ← vmRegKind ctx.m ctx.f r
  if k = .dynamic then cloneNumbox v else pure v

def opListCons (ctx : Ctx) (ins : JelloInsn) : StoreM Unit := do
  let head ← boxForSlot ctx ins.rb
  let tail ← vmLoadPtr ctx.rf ins.rc
  let typeId ← regTypeOf ctx.m ctx.f ins.ra
  let node ← jelloListCons typeId head tail
  vmStorePtr ctx.rf ins.ra node

def opListHead (ctx : Ctx) (ins : JelloInsn) : StoreM Unit := do
  let p ← vmLoadPtr ctx.rf ins.rb
  if p = 0 then jelloVmTrap ctx .nullDeref "list_head on nil"
  else do
    let node ← listAt p
    vmStoreFromBoxed ctx.m ctx.fpu ctx.f ctx.rf ins.ra node.head

def opListTail (ctx : Ctx) (ins : JelloInsn) : StoreM Unit := do
  let p ← vmLoadPtr ctx.rf ins.rb
  if p = 0 then jelloVmTrap ctx .nullDeref "list_tail on nil"
  else do
    let node ← listAt p
    vmStorePtr ctx.rf ins.ra node.tail

def opListIsNil (ctx : Ctx) (ins : JelloInsn) : StoreM Unit := do
  let p ← vmLoadPtr ctx.rf ins.rb
  vmStoreU32 ctx.rf ins.ra (flag (p == 0))

/-- The element type of an array type, where both lie in the table. -/
def elemKindOf (m : JelloBcModule) (tid : ℕ) : StoreM (Option Kind) :=
  if m.types.length ≤ tid then pure none
  else do
    let t ← typeOf m tid
    if t.kind ≠ .array then pure none
    else if m.types.length ≤ t.param then pure none
    else do
      let e ← typeOf m t.param
      pure (some e.kind)

def arrayElemKind (ctx : Ctx) (r : ℕ) : StoreM (Option Kind) := do
  let k ← vmRegKind ctx.m ctx.f r
  if k ≠ .array then pure none
  else do
    let tid ← regTypeOf ctx.m ctx.f r
    elemKindOf ctx.m tid

/-- A new array holds null, or 0 when its elements are narrow integers. -/
def opArrayNew (ctx : Ctx) (ins : JelloInsn) : StoreM Unit := do
  let len ← vmLoadU32 ctx.rf ins.rb
  let limit ← read Store.maxArrayLen
  if limit ≠ 0 ∧ limit < len then jelloVmTrap ctx .limit "array_new length exceeds limit"
  else do
    let typeId ← regTypeOf ctx.m ctx.f ins.ra
    let elem ← elemKindOf ctx.m typeId
    let z := if elem = some .i8 ∨ elem = some .i16 ∨ elem = some .i32 then jelloMakeI32 0
      else jelloMakeNull
    let a ← gcAlloc (.array
      { typeId := UInt32.ofNat typeId, length := len, data := fun _ ↦ z })
    vmStorePtr ctx.rf ins.ra a

def opArrayLen (ctx : Ctx) (ins : JelloInsn) : StoreM Unit := do
  let p ← vmLoadPtr ctx.rf ins.rb
  if p = 0 then jelloVmTrap ctx .nullDeref "array_len on null"
  else do
    let a ← arrayAt p
    vmStoreU32 ctx.rf ins.ra a.length

/-- Both the register and the elements of the array are F64. -/
def bothF64 (ctx : Ctx) (r arr : ℕ) : StoreM Bool := do
  let k ← vmRegKind ctx.m ctx.f r
  if k ≠ .f64 then pure false
  else do
    let e ← arrayElemKind ctx arr
    pure (e = some .f64)

def opArrayGet (ctx : Ctx) (ins : JelloInsn) : StoreM Unit := do
  let p ← vmLoadPtr ctx.rf ins.rb
  if p = 0 then jelloVmTrap ctx .nullDeref "array_get on null"
  else do
    let a ← arrayAt p
    let idx ← vmLoadU32 ctx.rf ins.rc
    if a.length ≤ idx then jelloVmTrap ctx .bounds "array_get index out of bounds"
    else do
      let v := a.data idx.toNat
      if ← bothF64 ctx ins.ra ins.rb then do
        match ← boxF64At v with
        | some x => vmStoreF64 ctx.rf ins.ra x
        | none => vmStoreFromBoxed ctx.m ctx.fpu ctx.f ctx.rf ins.ra v
      else vmStoreFromBoxed ctx.m ctx.fpu ctx.f ctx.rf ins.ra v

def JelloArray.write (a : JelloArray) (i : UInt32) (v : JelloValue) : JelloArray :=
  { a with data := Function.update a.data i.toNat v }

/-- A typed store into an element: in place where its number box allows it. -/
def storeElem (ctx : Ctx) (r : ℕ) (p : JelloValue) (a : JelloArray) (idx : UInt32) :
    StoreM Unit := do
  match ← vmStoreNumInplace ctx.m ctx.f ctx.rf r (a.data idx.toNat) with
  | some v => writeCell p (.array (a.write idx v))
  | none => do
    let v ← boxForSlot ctx r
    writeCell p (.array (a.write idx v))

/-- The number in a box of the heap is replaced. -/
def setBoxF64 (v : JelloValue) (x : UInt64) : StoreM Unit := do
  let c ← cellAt v
  writeCell v (.boxF64 c.typeId x)

def opArraySet (ctx : Ctx) (ins : JelloInsn) : StoreM Unit := do
  let p ← vmLoadPtr ctx.rf ins.rb
  if p = 0 then jelloVmTrap ctx .nullDeref "array_set on null"
  else do
    let a ← arrayAt p
    let idx ← vmLoadU32 ctx.rf ins.rc
    if a.length ≤ idx then jelloVmTrap ctx .bounds "array_set index out of bounds"
    else do
      if ← bothF64 ctx ins.ra ins.rb then do
        match ← boxF64At (a.data idx.toNat) with
        | some _ => do
          let x ← vmLoadF64 ctx.rf ins.ra
          setBoxF64 (a.data idx.toNat) x
        | none => storeElem ctx ins.ra p a idx
      else storeElem ctx ins.ra p a idx

/-- Elements from `i` on, their number boxes copied. -/
def cloneElems (data : ℕ → JelloValue) : ℕ → ℕ → StoreM (List JelloValue)
  | _, 0 => pure []
  | i, n + 1 => do
    let v ← cloneNumbox (data i)
    let vs ← cloneElems data (i + 1) n
    pure (v :: vs)

/-- The new array is allocated before the elements are copied. -/
def opArrayConcat2 (ctx : Ctx) (ins : JelloInsn) : StoreM Unit := do
  let px ← vmLoadPtr ctx.rf ins.rb
  if px = 0 then jelloVmTrap ctx .nullDeref "array_concat2 on null lhs"
  else do
    let py ← vmLoadPtr ctx.rf ins.rc
    if py = 0 then jelloVmTrap ctx .nullDeref "array_concat2 on null rhs"
    else do
      let x ← arrayAt px
      let y ← arrayAt py
      let total := x.length.toNat + y.length.toNat
      let limit ← read Store.maxArrayLen
      if 0xffffffff < total then jelloVmTrap ctx .bounds "array_concat2 length overflow"
      else if limit ≠ 0 ∧ limit.toNat < total then
        jelloVmTrap ctx .limit "array_concat2 length exceeds limit"
      else do
        let typeId ← regTypeOf ctx.m ctx.f ins.ra
        if x.typeId.toNat ≠ typeId ∨ y.typeId.toNat ≠ typeId then
          jelloVmTrap ctx .typeMismatch "array_concat2 type mismatch"
        else do
          let empty : JelloArray :=
            { typeId := UInt32.ofNat typeId
              length := UInt32.ofNat total
              data := fun _ ↦ jelloMakeNull }
          let out ← gcAlloc (.array empty)
          let xs ← cloneElems x.data 0 x.length.toNat
          let ys ← cloneElems y.data 0 y.length.toNat
          writeCell out (.array { empty with data := fun i ↦ (xs ++ ys).getD i jelloMakeNull })
          vmStorePtr ctx.rf ins.ra out

def jelloArrayDefaultElem (m : JelloBcModule) (typeId : ℕ) : StoreM JelloValue := do
  match ← elemKindOf m typeId with
  | some .i8 | some .i16 | some .i32 | some .i64 => pure (jelloMakeI32 0)
  | some .bool => pure (jelloMakeBool false)
  | _ => pure jelloMakeNull

def opArrayResize (ctx : Ctx) (ins : JelloInsn) : StoreM Unit := do
  let p ← vmLoadPtr ctx.rf ins.rb
  if p = 0 then jelloVmTrap ctx .nullDeref "array_resize on null"
  else do
    let len ← vmLoadU32 ctx.rf ins.rc
    let a ← arrayAt p
    let limit ← read Store.maxArrayLen
    if limit ≠ 0 ∧ limit < len then jelloVmTrap ctx .limit "array_resize failed"
    else if len = a.length then pure ()
    else if len ≤ a.length then writeCell p (.array { a with length := len })
    else do
      let dv ← jelloArrayDefaultElem ctx.m a.typeId.toNat
      writeCell p (.array
        { a with
          length := len
          data := fun i ↦ if i < a.length.toNat then a.data i else dv })

def jelloEnumNew (typeId : ℕ) (tag : UInt32) (fields : List JelloValue) : StoreM JelloValue :=
  gcAlloc (.enum
    { typeId := UInt32.ofNat typeId
      tag := tag
      nfields := UInt32.ofNat fields.length
      fields := fun i ↦ fields.getD i 0 })

/-- Values without fields are shared, for tags below 256. -/
def jelloEnumNullaryIntern (typeId : ℕ) (tag : UInt32) : StoreM JelloValue := do
  let ntypes ← read Store.enumNullaryNtypes
  if 256 ≤ tag ∨ ntypes ≤ typeId then jelloEnumNew typeId tag []
  else do
    let e ← read fun s ↦ s.enumNullary typeId tag
    if e ≠ 0 then pure e
    else do
      let e ← jelloEnumNew typeId tag []
      change fun s ↦
        { s with
          enumNullary :=
            Function.update s.enumNullary typeId (Function.update (s.enumNullary typeId) tag e) }
      pure e

def enumFields (ctx : Ctx) : ℕ → ℕ → StoreM (List JelloValue)
  | _, 0 => pure []
  | r, n + 1 =>
    if ctx.fn.nregs ≤ r then panic
    else do
      let v ← vmBoxFromTyped ctx.m ctx.f ctx.rf r
      let vs ← enumFields ctx (r + 1) n
      pure (v :: vs)

def opEnumNew (ctx : Ctx) (ins : JelloInsn) : StoreM Unit := do
  let typeId ← regTypeOf ctx.m ctx.f ins.ra
  if ins.rc = 0 then do
    let e ← jelloEnumNullaryIntern typeId ins.imm
    vmStorePtr ctx.rf ins.ra e
  else do
    let fields ← enumFields ctx ins.rb ins.rc
    let e ← jelloEnumNew typeId ins.imm fields
    vmStorePtr ctx.rf ins.ra e

def opEnumTag (ctx : Ctx) (ins : JelloInsn) : StoreM Unit := do
  let p ← vmLoadPtr ctx.rf ins.rb
  if p = 0 then jelloVmTrap ctx .nullDeref "enum_tag on null"
  else do
    match ← cellAt p with
    | .enum e => vmStoreU32 ctx.rf ins.ra e.tag
    | _ => jelloVmTrap ctx .typeMismatch "enum_tag on non-enum"

def opEnumGet (ctx : Ctx) (ins : JelloInsn) : StoreM Unit := do
  let p ← vmLoadPtr ctx.rf ins.rb
  if p = 0 then jelloVmTrap ctx .nullDeref "enum_get on null"
  else do
    match ← cellAt p with
    | .enum e => do
      let idx ← vmLoadU32 ctx.rf ins.rc
      if e.nfields ≤ idx then jelloVmTrap ctx .bounds "enum_get index out of bounds"
      else vmStoreFromBoxed ctx.m ctx.fpu ctx.f ctx.rf ins.ra (e.fields idx.toNat)
    | _ => jelloVmTrap ctx .typeMismatch "enum_get on non-enum"

/-- The operations on objects give nothing when their probe loop never ends. -/
def orDiverge {α : Type} : Option α → StoreM α
  | some a => pure a
  | none => fail .diverge

def jelloAtomProto : UInt32 := 0

def objectNew (typeId : UInt32) : StoreM JelloValue :=
  gcAlloc (.object (jelloObjectNew false default typeId))

def opObjNew (ctx : Ctx) (ins : JelloInsn) : StoreM Unit := do
  let typeId ← regTypeOf ctx.m ctx.f ins.ra
  let o ← objectNew (UInt32.ofNat typeId)
  vmStorePtr ctx.rf ins.ra o

def opObjHasAtom (ctx : Ctx) (ins : JelloInsn) : StoreM Unit := do
  let p ← vmLoadPtr ctx.rf ins.rb
  if p = 0 then jelloVmTrap ctx .nullDeref "obj_has_atom on null"
  else do
    note (.entry .atoms ins.imm.toNat ctx.m.atoms.length)
    let o ← objectAt p
    let (has, o) ← orDiverge (jelloObjectHas o ins.imm)
    writeCell p (.object o)
    vmStoreU32 ctx.rf ins.ra (flag has)

def objUpdateProtoCache (m : JelloBcModule) (p v : JelloValue) : StoreM Unit :=
  if !m.protoEnabled then pure ()
  else do
    let o ← objectAt p
    if jelloIsPtr v ∧ v ≠ 0 then do
      match ← cellAt v with
      | .object _ => writeCell p (.object { o with proto := v })
      | _ => writeCell p (.object { o with proto := 0 })
    else writeCell p (.object { o with proto := 0 })

/-- The walk along the prototypes; at most 1026 objects are looked at. -/
def protoWalk (ctx : Ctx) (atomId : UInt32) : ℕ → JelloValue → StoreM (Option JelloValue)
  | 0, _ => do
    jelloVmTrap ctx .bounds "prototype chain too deep"
    pure none
  | n + 1, cur => do
    let o ← objectAt cur
    let (slot, o) ← orDiverge (jelloObjectSlot o atomId)
    writeCell cur (.object o)
    match slot with
    | some i => pure (some (o.vals i.toNat))
    | none => if o.proto = 0 then pure (some jelloMakeNull) else protoWalk ctx atomId n o.proto

def vmObjGetAtomTyped (ctx : Ctx) (dst obj : ℕ) (atomId slotHint : UInt32) : StoreM Bool := do
  let p ← vmLoadPtr ctx.rf obj
  if p = 0 then do
    jelloVmTrap ctx .nullDeref "obj_get_atom on null"
    pure false
  else do
    note (.entry .atoms atomId.toNat ctx.m.atoms.length)
    let o ← objectAt p
    if !ctx.m.protoEnabled ∨ atomId = jelloAtomProto ∨ o.proto = 0 then do
      let (v, o) ← orDiverge (jelloObjectGetSlot o slotHint atomId)
      writeCell p (.object o)
      let k ← vmRegKind ctx.m ctx.f dst
      match k with
      | .i8 | .i16 | .i32 =>
        if jelloIsI32 v then vmStoreU32 ctx.rf dst (jelloAsI32 v)
        else vmStoreFromBoxed ctx.m ctx.fpu ctx.f ctx.rf dst v
      | .f64 => do
        match ← boxF64At v with
        | some x => vmStoreF64 ctx.rf dst x
        | none => vmStoreFromBoxed ctx.m ctx.fpu ctx.f ctx.rf dst v
      | .f32 => do
        match ← boxF32At v with
        | some x => vmStoreF32 ctx.rf dst x
        | none => vmStoreFromBoxed ctx.m ctx.fpu ctx.f ctx.rf dst v
      | .i64 => do
        match ← boxI64At v with
        | some x => vmStoreI64 ctx.rf dst x
        | none => vmStoreFromBoxed ctx.m ctx.fpu ctx.f ctx.rf dst v
      | _ => vmStoreFromBoxed ctx.m ctx.fpu ctx.f ctx.rf dst v
      pure true
    else do
      match ← protoWalk ctx atomId 1026 p with
      | none => pure false
      | some v => do
        vmStoreFromBoxed ctx.m ctx.fpu ctx.f ctx.rf dst v
        pure true

/-- The write through the slot that `upsert` gave, and the prototype cache with it. -/
def objStoreSlot (ctx : Ctx) (r : ℕ) (p : JelloValue) (atomId i : UInt32) : StoreM Unit := do
  let v ← boxForSlot ctx r
  let o ← objectAt p
  writeCell p (.object (writeSlot o i v))
  if atomId = jelloAtomProto then objUpdateProtoCache ctx.m p v else pure ()

/-- A typed store into an entry: in place where the entry existed and its number box allows it. -/
def objStoreTyped (ctx : Ctx) (r : ℕ) (p : JelloValue) (atomId i : UInt32) (existed : Bool) :
    StoreM Unit := do
  if existed ∧ atomId ≠ jelloAtomProto then do
    let o ← objectAt p
    match ← vmStoreNumInplace ctx.m ctx.f ctx.rf r (o.vals i.toNat) with
    | some v => do
      let o ← objectAt p
      writeCell p (.object (writeSlot o i v))
    | none => objStoreSlot ctx r p atomId i
  else objStoreSlot ctx r p atomId i

def vmObjSetAtomTyped (ctx : Ctx) (src obj : ℕ) (atomId slotHint : UInt32) : StoreM Bool := do
  let p ← vmLoadPtr ctx.rf obj
  if p = 0 then do
    jelloVmTrap ctx .nullDeref "obj_set_atom on null"
    pure false
  else do
    note (.entry .atoms atomId.toNat ctx.m.atoms.length)
    let o ← objectAt p
    let (i, existed, o) ← orDiverge (jelloObjectSetSlot o slotHint atomId)
    writeCell p (.object o)
    objStoreTyped ctx src p atomId i existed
    pure true

def opObjGetAtom (ctx : Ctx) (ins : JelloInsn) : StoreM Unit := do
  let _ ← vmObjGetAtomTyped ctx ins.ra ins.rb ins.imm ins.c.toUInt32
  pure ()

def opObjSetAtom (ctx : Ctx) (ins : JelloInsn) : StoreM Unit := do
  let _ ← vmObjSetAtomTyped ctx ins.ra ins.rb ins.imm ins.c.toUInt32
  pure ()

def opObjGet (ctx : Ctx) (ins : JelloInsn) : StoreM Unit := do
  let p ← vmLoadPtr ctx.rf ins.rb
  if p = 0 then panic
  else do
    let atomId ← vmLoadU32 ctx.rf ins.rc
    if ctx.m.atoms.length ≤ atomId.toNat then
      jelloVmTrap ctx .bounds "obj_get atom id out of range"
    else if !ctx.m.protoEnabled ∨ atomId = jelloAtomProto then do
      let o ← objectAt p
      let (v, o) ← orDiverge (jelloObjectGet o atomId)
      writeCell p (.object o)
      vmStoreFromBoxed ctx.m ctx.fpu ctx.f ctx.rf ins.ra v
    else do
      match ← protoWalk ctx atomId 1026 p with
      | none => pure ()
      | some v => vmStoreFromBoxed ctx.m ctx.fpu ctx.f ctx.rf ins.ra v

def opObjSet (ctx : Ctx) (ins : JelloInsn) : StoreM Unit := do
  let p ← vmLoadPtr ctx.rf ins.rb
  if p = 0 then panic
  else do
    let atomId ← vmLoadU32 ctx.rf ins.rc
    if ctx.m.atoms.length ≤ atomId.toNat then
      jelloVmTrap ctx .bounds "obj_set atom id out of range"
    else do
      let o ← objectAt p
      let (i, existed, o) ← orDiverge (jelloObjectUpsert o atomId)
      writeCell p (.object o)
      objStoreTyped ctx ins.ra p atomId i existed

def opObjHas (ctx : Ctx) (ins : JelloInsn) : StoreM Unit := do
  let p ← vmLoadPtr ctx.rf ins.rb
  if p = 0 then jelloVmTrap ctx .nullDeref "obj_has on null"
  else do
    let atomId ← vmLoadU32 ctx.rf ins.rc
    if ctx.m.atoms.length ≤ atomId.toNat then
      jelloVmTrap ctx .bounds "obj_has atom id out of range"
    else do
      let o ← objectAt p
      let (has, o) ← orDiverge (jelloObjectHas o atomId)
      writeCell p (.object o)
      vmStoreU32 ctx.rf ins.ra (flag has)

def opObjRemove (ctx : Ctx) (ins : JelloInsn) : StoreM Unit := do
  let p ← vmLoadPtr ctx.rf ins.rb
  if p = 0 then jelloVmTrap ctx .nullDeref "obj_remove on null"
  else do
    let atomId ← vmLoadU32 ctx.rf ins.rc
    if ctx.m.atoms.length ≤ atomId.toNat then
      jelloVmTrap ctx .bounds "obj_remove atom id out of range"
    else do
      let o ← objectAt p
      let (removed, o) ← orDiverge (jelloObjectRemove o atomId)
      writeCell p (.object o)
      vmStoreU32 ctx.rf ins.ra (flag removed)

def opObjClear (ctx : Ctx) (ins : JelloInsn) : StoreM Unit := do
  let p ← vmLoadPtr ctx.rf ins.rb
  if p = 0 then jelloVmTrap ctx .nullDeref "obj_clear on null"
  else do
    let o ← objectAt p
    writeCell p (.object (jelloObjectClear o))

def opObjCopy (ctx : Ctx) (ins : JelloInsn) : StoreM Unit := do
  let p ← vmLoadPtr ctx.rf ins.rb
  if p = 0 then jelloVmTrap ctx .nullDeref "obj_copy on null"
  else do
    let src ← objectAt p
    let q ← objectNew src.typeId
    let dst ← objectAt q
    let copied ← read fun s ↦ jelloObjectCopy vmCloneNumbox dst src s.heap
    let (dst, heap) ← orDiverge copied
    change fun s ↦ { s with heap := heap }
    writeCell q (.object dst)
    vmStorePtr ctx.rf ins.ra q

/-- The list of the keys is built back to front. -/
def consKeys (typeId : ℕ) (o : JelloObject) : ℕ → ℕ → JelloValue → StoreM JelloValue
  | _, 0, tail => pure tail
  | i, n + 1, tail =>
    if o.states i = .occupied then do
      let tail ← jelloListCons typeId (jelloMakeAtom (o.keys i)) tail
      consKeys typeId o (i + 1) n tail
    else consKeys typeId o (i + 1) n tail

def opObjKeys (ctx : Ctx) (ins : JelloInsn) : StoreM Unit := do
  let p ← vmLoadPtr ctx.rf ins.rb
  if p = 0 then jelloVmTrap ctx .nullDeref "obj_keys on null"
  else do
    let o ← objectAt p
    let typeId ← regTypeOf ctx.m ctx.f ins.ra
    let keys ← consKeys typeId o 0 o.cap.toNat 0
    vmStorePtr ctx.rf ins.ra keys

end JelloVM
