import JelloVM.Ops.Container

namespace JelloVM

open ByteMemory Logged

def JelloBytes.write (b : JelloBytes) (i w : ℕ) (src : ℕ → UInt8) : JelloBytes :=
  { b with data := paste b.data i w src }

def opBytesNew (ctx : Ctx) (ins : JelloInsn) : StoreM Unit := do
  let len ← vmLoadU32 ctx.rf ins.rb
  let limit ← read Store.maxBytesLen
  if limit ≠ 0 ∧ limit < len then jelloVmTrap ctx .limit "bytes_new length exceeds limit"
  else do
    let typeId ← regTypeOf ctx.m ctx.f ins.ra
    let b ← jelloBytesNew typeId len fun _ ↦ 0
    vmStorePtr ctx.rf ins.ra b

def opBytesLen (ctx : Ctx) (ins : JelloInsn) : StoreM Unit := do
  let p ← vmLoadPtr ctx.rf ins.rb
  if p = 0 then jelloVmTrap ctx .nullDeref "bytes_len on null"
  else do
    let b ← bytesAt p
    vmStoreU32 ctx.rf ins.ra b.length

/-- `memcmp` of the first `n` bytes -/
def sameData (x y : ℕ → UInt8) (n : ℕ) : Bool := (List.range n).all fun i ↦ x i == y i

def opBytesEq (ctx : Ctx) (ins : JelloInsn) : StoreM Unit := do
  let pa ← vmLoadPtr ctx.rf ins.rb
  let pb ← vmLoadPtr ctx.rf ins.rc
  if pa = pb then vmStoreU32 ctx.rf ins.ra 1
  else if pa = 0 ∨ pb = 0 then vmStoreU32 ctx.rf ins.ra 0
  else do
    let a ← bytesAt pa
    let b ← bytesAt pb
    vmStoreU32 ctx.rf ins.ra
      (flag (a.length == b.length && sameData a.data b.data a.length.toNat))

def opBytesGetU8 (ctx : Ctx) (ins : JelloInsn) : StoreM Unit := do
  let p ← vmLoadPtr ctx.rf ins.rb
  if p = 0 then jelloVmTrap ctx .nullDeref "bytes_get_u8 on null"
  else do
    let b ← bytesAt p
    let idx ← vmLoadU32 ctx.rf ins.rc
    if b.length ≤ idx then jelloVmTrap ctx .bounds "bytes_get_u8 index out of bounds"
    else vmStoreU32 ctx.rf ins.ra (b.data idx.toNat).toUInt32

def opBytesSetU8 (ctx : Ctx) (ins : JelloInsn) : StoreM Unit := do
  let p ← vmLoadPtr ctx.rf ins.rb
  if p = 0 then jelloVmTrap ctx .nullDeref "bytes_set_u8 on null"
  else do
    let b ← bytesAt p
    let idx ← vmLoadU32 ctx.rf ins.rc
    if b.length ≤ idx then jelloVmTrap ctx .bounds "bytes_set_u8 index out of bounds"
    else do
      let v ← vmLoadU32 ctx.rf ins.ra
      if 255 < v then jelloVmTrap ctx .bounds "bytes_set_u8 value out of range"
      else writeCell p (.bytes (b.write idx.toNat 1 fun _ ↦ v.toUInt8))

def opBytesConcat2 (ctx : Ctx) (ins : JelloInsn) : StoreM Unit := do
  let px ← vmLoadPtr ctx.rf ins.rb
  if px = 0 then jelloVmTrap ctx .nullDeref "bytes_concat2 on null lhs"
  else do
    let py ← vmLoadPtr ctx.rf ins.rc
    if py = 0 then jelloVmTrap ctx .nullDeref "bytes_concat2 on null rhs"
    else do
      let x ← bytesAt px
      let y ← bytesAt py
      let total := x.length.toNat + y.length.toNat
      let limit ← read Store.maxBytesLen
      if 0xffffffff < total then jelloVmTrap ctx .bounds "bytes_concat2 length overflow"
      else if limit ≠ 0 ∧ limit.toNat < total then
        jelloVmTrap ctx .limit "bytes_concat2 length exceeds limit"
      else do
        let typeId ← regTypeOf ctx.m ctx.f ins.ra
        let n := x.length.toNat
        let b ← jelloBytesNew typeId (UInt32.ofNat total) fun i ↦
          if i < n then x.data i else y.data (i - n)
        vmStorePtr ctx.rf ins.ra b

/-- The first pass of `op_bytes_concat_many`: the parts, unless the instruction traps. -/
def concatParts (ctx : Ctx) (data : ℕ → JelloValue) :
    ℕ → ℕ → ℕ → StoreM (Option (List JelloBytes × ℕ))
  | _, 0, total => pure (some ([], total))
  | i, n + 1, total =>
    if jelloIsNull (data i) then do
      jelloVmTrap ctx .nullDeref "bytes_concat_many element is null"
      pure none
    else if !jelloIsPtr (data i) then do
      jelloVmTrap ctx .typeMismatch "bytes_concat_many element not bytes"
      pure none
    else do
      match ← cellAt (data i) with
      | .bytes b =>
        if 0xffffffff < total + b.length.toNat then do
          jelloVmTrap ctx .bounds "bytes_concat_many length overflow"
          pure none
        else do
          match ← concatParts ctx data (i + 1) n (total + b.length.toNat) with
          | some (bs, total) => pure (some (b :: bs, total))
          | none => pure none
      | _ => do
        jelloVmTrap ctx .typeMismatch "bytes_concat_many element not bytes"
        pure none

def joinParts : List JelloBytes → List UInt8
  | [] => []
  | b :: bs => (List.range b.length.toNat).map b.data ++ joinParts bs

def opBytesConcatMany (ctx : Ctx) (ins : JelloInsn) : StoreM Unit := do
  let p ← vmLoadPtr ctx.rf ins.rb
  if p = 0 then jelloVmTrap ctx .nullDeref "bytes_concat_many on null"
  else do
    let parts ← arrayAt p
    match ← concatParts ctx parts.data 0 parts.length.toNat 0 with
    | none => pure ()
    | some (bs, total) => do
      let limit ← read Store.maxBytesLen
      if limit ≠ 0 ∧ limit.toNat < total then
        jelloVmTrap ctx .limit "bytes_concat_many length exceeds limit"
      else do
        let typeId ← regTypeOf ctx.m ctx.f ins.ra
        let b ← jelloBytesNew typeId (UInt32.ofNat total) fun i ↦ (joinParts bs).getD i 0
        vmStorePtr ctx.rf ins.ra b

/-- The messages are those of the instruction named. -/
def bytesBitwise2 (name : String) (binop : UInt8 → UInt8 → UInt8) (ctx : Ctx)
    (ins : JelloInsn) : StoreM Unit := do
  let px ← vmLoadPtr ctx.rf ins.rb
  if px = 0 then jelloVmTrap ctx .nullDeref (name ++ " on null lhs")
  else do
    let py ← vmLoadPtr ctx.rf ins.rc
    if py = 0 then jelloVmTrap ctx .nullDeref (name ++ " on null rhs")
    else do
      let x ← bytesAt px
      let y ← bytesAt py
      let limit ← read Store.maxBytesLen
      if x.length ≠ y.length then
        jelloVmTrap ctx .bounds "bytes bitwise operands must have equal length"
      else if limit ≠ 0 ∧ limit < x.length then
        jelloVmTrap ctx .limit (name ++ " length exceeds limit")
      else do
        let typeId ← regTypeOf ctx.m ctx.f ins.ra
        let b ← jelloBytesNew typeId x.length fun i ↦
          if i < x.length.toNat then binop (x.data i) (y.data i) else 0
        vmStorePtr ctx.rf ins.ra b

def opBytesBitand2 (ctx : Ctx) (ins : JelloInsn) : StoreM Unit :=
  bytesBitwise2 "bytes_bitand2" (fun a b ↦ a &&& b) ctx ins

def opBytesBitor2 (ctx : Ctx) (ins : JelloInsn) : StoreM Unit :=
  bytesBitwise2 "bytes_bitor2" (fun a b ↦ a ||| b) ctx ins

def opBytesBitxor2 (ctx : Ctx) (ins : JelloInsn) : StoreM Unit :=
  bytesBitwise2 "bytes_bitxor2" (fun a b ↦ a ^^^ b) ctx ins

/-- `bytes_load`, `bytes_off` and `bytes_rw_ok`: the pointer, its bytes and the offset, unless
one of them traps. -/
def bytesRw (name : String) (width : UInt32) (ctx : Ctx) (ins : JelloInsn) :
    StoreM (Option (JelloValue × JelloBytes × UInt32)) := do
  let p ← vmLoadPtr ctx.rf ins.rb
  if p = 0 then do
    jelloVmTrap ctx .nullDeref (name ++ " on null")
    pure none
  else do
    let off ← vmLoadU32 ctx.rf ins.rc
    if i32 off < 0 ∨ off % width ≠ 0 then do
      jelloVmTrap ctx .bounds
        (name ++ (if width = 2 then " requires 2-byte aligned offset"
          else " requires 4-byte aligned offset"))
      pure none
    else do
      let b ← bytesAt p
      if b.length < off + width then do
        jelloVmTrap ctx .bounds "bytes read/write offset out of bounds"
        pure none
      else pure (some (p, b, off))

/-- The order of the bytes of a number: little end first or last. -/
inductive Endian
  | le
  | be
  deriving DecidableEq, Repr

def getU (e : Endian) (w : ℕ) (data : ℕ → UInt8) (off : ℕ) : UInt32 :=
  match e with
  | .le => UInt32.ofNat (getLE data off w)
  | .be => UInt32.ofNat (getLE (fun i ↦ data (off + (w - 1 - i))) 0 w)

/-- The `i`-th byte of `v` as it is written. -/
def putU (e : Endian) (w : ℕ) (v : UInt32) (i : ℕ) : UInt8 :=
  match e with
  | .le => UInt8.ofNat (v.toNat / 256 ^ i)
  | .be => UInt8.ofNat (v.toNat / 256 ^ (w - 1 - i))

def bytesRead (name : String) (width : UInt32) (e : Endian) (ctx : Ctx) (ins : JelloInsn) :
    StoreM Unit := do
  match ← bytesRw name width ctx ins with
  | none => pure ()
  | some (_, b, off) => vmStoreU32 ctx.rf ins.ra (getU e width.toNat b.data off.toNat)

def bytesWrite (name : String) (width : UInt32) (e : Endian) (ctx : Ctx) (ins : JelloInsn) :
    StoreM Unit := do
  match ← bytesRw name width ctx ins with
  | none => pure ()
  | some (p, b, off) => do
    let v ← vmLoadU32 ctx.rf ins.ra
    writeCell p (.bytes (b.write off.toNat width.toNat (putU e width.toNat v)))

def opBytesReadU16Le (ctx : Ctx) (ins : JelloInsn) : StoreM Unit :=
  bytesRead "bytes_read_u16_le" 2 .le ctx ins

def opBytesReadU16Be (ctx : Ctx) (ins : JelloInsn) : StoreM Unit :=
  bytesRead "bytes_read_u16_be" 2 .be ctx ins

def opBytesReadU32Le (ctx : Ctx) (ins : JelloInsn) : StoreM Unit :=
  bytesRead "bytes_read_u32_le" 4 .le ctx ins

def opBytesReadU32Be (ctx : Ctx) (ins : JelloInsn) : StoreM Unit :=
  bytesRead "bytes_read_u32_be" 4 .be ctx ins

def opBytesReadI32Le (ctx : Ctx) (ins : JelloInsn) : StoreM Unit :=
  bytesRead "bytes_read_i32_le" 4 .le ctx ins

def opBytesReadI32Be (ctx : Ctx) (ins : JelloInsn) : StoreM Unit :=
  bytesRead "bytes_read_i32_be" 4 .be ctx ins

def opBytesReadF32Le (ctx : Ctx) (ins : JelloInsn) : StoreM Unit :=
  bytesRead "bytes_read_f32_le" 4 .le ctx ins

def opBytesReadF32Be (ctx : Ctx) (ins : JelloInsn) : StoreM Unit :=
  bytesRead "bytes_read_f32_be" 4 .be ctx ins

def opBytesWriteU16Le (ctx : Ctx) (ins : JelloInsn) : StoreM Unit :=
  bytesWrite "bytes_write_u16_le" 2 .le ctx ins

def opBytesWriteU16Be (ctx : Ctx) (ins : JelloInsn) : StoreM Unit :=
  bytesWrite "bytes_write_u16_be" 2 .be ctx ins

def opBytesWriteU32Le (ctx : Ctx) (ins : JelloInsn) : StoreM Unit :=
  bytesWrite "bytes_write_u32_le" 4 .le ctx ins

def opBytesWriteU32Be (ctx : Ctx) (ins : JelloInsn) : StoreM Unit :=
  bytesWrite "bytes_write_u32_be" 4 .be ctx ins

def opBytesWriteI32Le (ctx : Ctx) (ins : JelloInsn) : StoreM Unit :=
  bytesWrite "bytes_write_i32_le" 4 .le ctx ins

def opBytesWriteI32Be (ctx : Ctx) (ins : JelloInsn) : StoreM Unit :=
  bytesWrite "bytes_write_i32_be" 4 .be ctx ins

def opBytesWriteF32Le (ctx : Ctx) (ins : JelloInsn) : StoreM Unit :=
  bytesWrite "bytes_write_f32_le" 4 .le ctx ins

def opBytesWriteF32Be (ctx : Ctx) (ins : JelloInsn) : StoreM Unit :=
  bytesWrite "bytes_write_f32_be" 4 .be ctx ins

end JelloVM
