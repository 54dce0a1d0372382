import JelloVM.Store

namespace JelloVM

open ByteMemory Logged

/-- `vm_checked_f64_to_i32` and its like: `none` when the number does not fit. -/
def vmCheckedF64 {α : Type} (fpu : Fpu) (msg : String) (hi lo : UInt64) (cast : UInt64 → α)
    (x : UInt64) : StoreM (Option α) :=
  let overflow : StoreM (Option α) := do
    setTrap .typeMismatch (some (text msg)) (jelloMakeI32 TrapCode.typeMismatch.code)
    pure none
  if !fpu.isfinite x then overflow
  else if fpu.lt64 hi x || fpu.lt64 x lo then overflow
  else pure (some (cast x))

/-- The bounds are `2147483647.0` and `-2147483648.0`. -/
def vmCheckedF64ToI32 (fpu : Fpu) (x : UInt64) : StoreM (Option UInt32) :=
  vmCheckedF64 fpu "f64->i32 conversion overflow" 0x41dfffffffc00000 0xc1e0000000000000
    fpu.i32FromF64 x

/-- The bounds are `9223372036854775807.0` and `-9223372036854775808.0`. -/
def vmCheckedF64ToI64 (fpu : Fpu) (x : UInt64) : StoreM (Option UInt64) :=
  vmCheckedF64 fpu "f64->i64 conversion overflow" 0x43e0000000000000 0xc3e0000000000000
    fpu.i64FromF64 x

/-- The kind word of the objects that a typed pointer register may hold; 0 for other registers. -/
def vmExpectedObjKindForTypedPtr : Kind → UInt32
  | .bytes => 1
  | .function => 2
  | .list => 3
  | .array => 4
  | .object => 5
  | .enum => 11
  | .abstract => 6
  | _ => 0

/-- The codes of heap objects are their kind words moved by 3. -/
def vmKindofDynamic (v : JelloValue) : StoreM UInt32 :=
  if jelloIsNull v then pure 0
  else if jelloIsBool v then pure 1
  else if jelloIsI32 v then pure 2
  else if jelloIsAtom v then pure 3
  else if !jelloIsPtr v then pure 0x7fffffff
  else do
    let k ← jelloObjKindOf v
    pure (3 + k)

def vmBoxFromTyped (m : JelloBcModule) (f : ℕ) (rf : RegFrame) (r : ℕ) : StoreM JelloValue := do
  match ← vmRegKind m f r with
  | .i8 | .i16 | .i32 => do
    let v ← vmLoadU32 rf r
    pure (jelloMakeI32 v)
  | .f32 => do
    let typeId ← regTypeOf m f r
    let v ← vmLoadF32 rf r
    jelloBoxF32New typeId v
  | .f16 => do
    let typeId ← regTypeOf m f r
    let v ← vmLoadF16Bits rf r
    jelloBoxF16New typeId v
  | .i64 => do
    let typeId ← regTypeOf m f r
    let v ← vmLoadI64 rf r
    jelloBoxI64New typeId v
  | .bool => do
    let v ← vmLoadU32 rf r
    pure (jelloMakeBool (v != 0))
  | .atom => do
    let v ← vmLoadU32 rf r
    pure (jelloMakeAtom v)
  | .f64 => do
    let typeId ← regTypeOf m f r
    let v ← vmLoadF64 rf r
    jelloBoxF64New typeId v
  | .dynamic => vmLoadVal rf r
  | .bytes | .function | .list | .array | .object | .abstract | .enum => do
    let p ← vmLoadPtr rf r
    pure (if p = 0 then jelloMakeNull else p)

/-- The values of the registers `r`, `r + 1`, ..., boxed. -/
def boxRegs (m : JelloBcModule) (f : ℕ) (rf : RegFrame) : ℕ → ℕ → StoreM (List JelloValue)
  | _, 0 => pure []
  | r, n + 1 => do
    let v ← vmBoxFromTyped m f rf r
    let vs ← boxRegs m f rf (r + 1) n
    pure (v :: vs)

/-- `none` when the slot has to be written by other means; else the new value of the slot. -/
def vmStoreNumInplace (m : JelloBcModule) (f : ℕ) (rf : RegFrame) (src : ℕ) (cur : JelloValue) :
    StoreM (Option JelloValue) := do
  match ← vmRegKind m f src with
  | .f64 => do
    match ← boxF64At cur with
    | some _ => do
      let c ← cellAt cur
      let x ← vmLoadF64 rf src
      writeCell cur (.boxF64 c.typeId x)
      pure (some cur)
    | none => pure none
  | .f32 => do
    match ← boxF32At cur with
    | some _ => do
      let c ← cellAt cur
      let x ← vmLoadF32 rf src
      writeCell cur (.boxF32 c.typeId x)
      pure (some cur)
    | none => pure none
  | .f16 => do
    match ← boxF16At cur with
    | some _ => do
      let c ← cellAt cur
      let x ← vmLoadF16Bits rf src
      writeCell cur (.boxF16 c.typeId x)
      pure (some cur)
    | none => pure none
  | .i64 => do
    match ← boxI64At cur with
    | some _ => do
      let c ← cellAt cur
      let x ← vmLoadI64 rf src
      writeCell cur (.boxI64 c.typeId x)
      pure (some cur)
    | none => pure none
  | .i8 | .i16 | .i32 =>
    if jelloIsI32 cur then do
      let x ← vmLoadU32 rf src
      pure (some (jelloMakeI32 x))
    else do
      -- the register is not read here: the slot gets the number that was in its box
      match ← boxI64At cur with
      | some x => pure (some (jelloMakeI32 x.toUInt32))
      | none => pure none
  | _ => pure none

def vmStoreFromBoxed (m : JelloBcModule) (fpu : Fpu) (f : ℕ) (rf : RegFrame) (dst : ℕ)
    (v : JelloValue) : StoreM Unit := do
  match ← vmRegKind m f dst with
  | .i8 | .i16 | .i32 =>
    if jelloIsNull v then vmStoreU32 rf dst 0
    else if jelloIsI32 v then vmStoreU32 rf dst (jelloAsI32 v)
    else do
      match ← boxF64At v with
      | some x => vmStoreU32 rf dst (fpu.i32FromF64 x)
      | none => do
        match ← boxI64At v with
        | some x => vmStoreU32 rf dst x.toUInt32
        | none => panic
  | .f32 =>
    if jelloIsI32 v then vmStoreF32 rf dst (fpu.f32FromI32 (jelloAsI32 v))
    else if jelloIsNull v then vmStoreF32 rf dst 0
    else do
      match ← boxF64At v with
      | some x => vmStoreF32 rf dst (fpu.f32FromF64 x)
      | none => do
        match ← boxF32At v with
        | some x => vmStoreF32 rf dst x
        | none => panic
  | .f16 =>
    if jelloIsI32 v then
      vmStoreF16Bits rf dst (vmF32ToF16Bits (fpu.f32FromI32 (jelloAsI32 v)))
    else if jelloIsNull v then vmStoreF16Bits rf dst 0
    else do
      match ← boxF64At v with
      | some x => vmStoreF16Bits rf dst (vmF32ToF16Bits (fpu.f32FromF64 x))
      | none => do
        match ← boxF16At v with
        | some x => vmStoreF16Bits rf dst x
        | none => panic
  | .i64 =>
    if jelloIsI32 v then vmStoreI64 rf dst (jelloAsI32 v).toInt32.toInt64.toUInt64
    else if jelloIsNull v then vmStoreI64 rf dst 0
    else do
      match ← boxF64At v with
      | some x => vmStoreI64 rf dst (fpu.i64FromF64 x)
      | none => do
        match ← boxI64At v with
        | some x => vmStoreI64 rf dst x
        | none => panic
  | .bool => if !jelloIsBool v then panic else vmStoreU32 rf dst (if jelloAsBool v then 1 else 0)
  | .atom => if !jelloIsAtom v then panic else vmStoreU32 rf dst (jelloAsAtom v)
  | .f64 =>
    if jelloIsI32 v then vmStoreF64 rf dst (fpu.f64FromI32 (jelloAsI32 v))
    else if jelloIsNull v then vmStoreF64 rf dst 0
    else do
      match ← boxF32At v with
      | some x => vmStoreF64 rf dst (fpu.f64FromF32 x)
      | none => do
        match ← boxF64At v with
        | some x => vmStoreF64 rf dst x
        | none => panic
  | .dynamic => do
    -- number boxes in containers are mutated in place, so what escapes is a copy
    let w ← cloneNumbox v
    vmStoreVal rf dst w
  | .bytes | .function | .list | .array | .object | .abstract | .enum =>
    if jelloIsNull v then vmStorePtr rf dst 0
    else if !jelloIsPtr v then panic
    else vmStorePtr rf dst v

end JelloVM
