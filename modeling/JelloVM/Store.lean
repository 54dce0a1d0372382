import JelloVM.Library.Logged
import JelloVM.Library.ByteMemory
import JelloVM.Types
import JelloVM.Heap

namespace JelloVM

open Function ByteMemory Logged

/-- The ways a run can end that are not statuses of the interpreter: `abort`, an access to
memory that holds no such thing, a loop that never ends, a division that the machine traps. -/
inductive Fault
  | panic
  | wild
  | diverge
  | sigfpe
  deriving DecidableEq, Repr

/-- The floating point unit, on bit patterns. -/
structure Fpu where
  add32 : UInt32 → UInt32 → UInt32
  sub32 : UInt32 → UInt32 → UInt32
  mul32 : UInt32 → UInt32 → UInt32
  div32 : UInt32 → UInt32 → UInt32
  neg32 : UInt32 → UInt32
  eq32 : UInt32 → UInt32 → Bool
  lt32 : UInt32 → UInt32 → Bool
  add64 : UInt64 → UInt64 → UInt64
  sub64 : UInt64 → UInt64 → UInt64
  mul64 : UInt64 → UInt64 → UInt64
  div64 : UInt64 → UInt64 → UInt64
  neg64 : UInt64 → UInt64
  eq64 : UInt64 → UInt64 → Bool
  lt64 : UInt64 → UInt64 → Bool
  isfinite : UInt64 → Bool
  f32FromI32 : UInt32 → UInt32
  f32FromI64 : UInt64 → UInt32
  f32FromF64 : UInt64 → UInt32
  f64FromI32 : UInt32 → UInt64
  f64FromI64 : UInt64 → UInt64
  f64FromF32 : UInt32 → UInt64
  i32FromF64 : UInt64 → UInt32
  i64FromF64 : UInt64 → UInt64
  deriving Inhabited

/-- The loop of `vm_f16_bits_to_f32` for subnormals; the mantissa is not 0. -/
def normalise : ℕ → UInt32 → UInt32 → UInt32 × UInt32
  | 0, mant, exp => (mant, exp)
  | n + 1, mant, exp =>
    if mant &&& 0x800000 = 0 then normalise n (mant <<< 1) (exp - 1) else (mant, exp)

def vmF16BitsToF32 (fpu : Fpu) (bits : UInt16) : UInt32 :=
  if bits &&& 0x7fff = 0 then (if bits &&& 0x8000 ≠ 0 then 0x80000000 else 0)
  else
    let sign := (bits.toUInt32 &&& 0x8000) <<< 16
    let exp := (bits.toUInt32 >>> 10) &&& 0x1f
    let mant := (bits.toUInt32 &&& 0x3ff) <<< 13
    if exp = 0 then
      let (mant, exp) := normalise 24 mant exp
      sign ||| ((exp + 1 + 112) <<< 23) ||| mant
    else if exp = 31 then
      let one : UInt32 := 0x3f800000
      fpu.mul32 (if sign ≠ 0 then 0xbf800000 else one)
        (if mant ≠ 0 then fpu.div32 0 0 else fpu.div32 one 0)
    else sign ||| ((exp + 112) <<< 23) ||| mant

def vmF32ToF16Bits (x : UInt32) : UInt16 :=
  let sign := (x >>> 16) &&& 0x8000
  let exp := (x >>> 23) &&& 0xff
  let mant := x &&& 0x7fffff
  if exp = 0xff then (sign ||| 0x7c00 ||| (if mant ≠ 0 then 0x200 else 0)).toUInt16
  else if exp = 0 ∧ mant = 0 then sign.toUInt16
  else
    let exp16 := exp - 127 + 15
    if 31 ≤ i32 exp16 then (sign ||| 0x7c00).toUInt16
    else if i32 exp16 ≤ 0 then sign.toUInt16
    else (sign ||| (exp16 <<< 10) ||| (mant >>> 13)).toUInt16

/-- `off` has one offset for each register; `mem` is 0 for NULL. -/
structure RegFrame where
  mem : ℕ
  off : List ℕ
  nregs : ℕ
  total : ℕ
  deriving DecidableEq, Repr, Inhabited

def RegFrame.addr (rf : RegFrame) (r : ℕ) : ℕ := rf.mem + rf.off.getD r 0

/-- The arrays of the module and of the machine that instructions index. -/
inductive Pool
  | types
  | atoms
  | constI64
  | constF64
  | constBytes
  | funcs
  | constFunCache
  | constBytesCache
  deriving DecidableEq, Repr

/-- A register, a register type, an entry of an array of `len` entries, an instruction. -/
inductive Access
  | slot (rf : RegFrame) (r width : ℕ)
  | regType (f r : ℕ)
  | entry (pool : Pool) (i len : ℕ)
  | insn (f pc : ℕ)

/-- What the instructions that are not about control work on: the register areas, the heap,
the spill stack, the caches, and the pending exception. -/
structure Store where
  mem : Mem
  heap : Heap
  spill : List JelloValue
  constFunCache : List JelloValue
  constBytesCache : List JelloValue
  enumNullaryNtypes : ℕ
  enumNullary : ℕ → UInt32 → JelloValue
  excPending : Bool
  excPayload : JelloValue
  trapCode : TrapCode
  trapMsg : Option (List UInt8)
  maxBytesLen : UInt32
  maxArrayLen : UInt32
  fuelLimit : UInt64
  fuelRemaining : UInt64

abbrev StoreM (α : Type) := Logged Fault Access Store α

def panic {α : Type} : StoreM α := fail .panic

def wild {α : Type} : StoreM α := fail .wild

/-- `pc` is that of the frame, past the instruction being executed. -/
structure Ctx where
  m : JelloBcModule
  fpu : Fpu
  f : ℕ
  rf : RegFrame
  pc : ℕ

def Ctx.fn (ctx : Ctx) : JelloBcFunction := ctx.m.func ctx.f

def regTypeOf (m : JelloBcModule) (f r : ℕ) : StoreM ℕ := do
  note (.regType f r)
  pure ((m.func f).regType r)

def typeOf (m : JelloBcModule) (tid : ℕ) : StoreM TypeEntry := do
  note (.entry .types tid m.types.length)
  pure (m.type tid)

def vmRegKind (m : JelloBcModule) (f r : ℕ) : StoreM Kind := do
  let tid ← regTypeOf m f r
  let t ← typeOf m tid
  pure t.kind

def vmLoadU32 (rf : RegFrame) (r : ℕ) : StoreM UInt32 := do
  note (.slot rf r 4)
  read fun s ↦ load32 s.mem (rf.addr r)

def vmStoreU32 (rf : RegFrame) (r : ℕ) (v : UInt32) : StoreM Unit := do
  note (.slot rf r 4)
  change fun s ↦ { s with mem := store32 s.mem (rf.addr r) v }

def vmLoad64 (rf : RegFrame) (r : ℕ) : StoreM UInt64 := do
  note (.slot rf r 8)
  read fun s ↦ load64 s.mem (rf.addr r)

def vmStore64 (rf : RegFrame) (r : ℕ) (v : UInt64) : StoreM Unit := do
  note (.slot rf r 8)
  change fun s ↦ { s with mem := store64 s.mem (rf.addr r) v }

def sext8 (v : UInt32) : UInt32 := v.toUInt8.toInt8.toInt32.toUInt32

def sext16 (v : UInt32) : UInt32 := v.toUInt16.toInt16.toInt32.toUInt32

def mask (k : Kind) (v : UInt32) : UInt32 :=
  match k with
  | .i8 => sext8 v
  | .i16 => sext16 v
  | _ => v

def vmStoreU32Masked (rf : RegFrame) (r : ℕ) (v : UInt32) (k : Kind) : StoreM Unit :=
  vmStoreU32 rf r (mask k v)

def vmLoadF32 (rf : RegFrame) (r : ℕ) : StoreM UInt32 := vmLoadU32 rf r

def vmStoreF32 (rf : RegFrame) (r : ℕ) (v : UInt32) : StoreM Unit := vmStoreU32 rf r v

def vmLoadI64 (rf : RegFrame) (r : ℕ) : StoreM UInt64 := vmLoad64 rf r

def vmStoreI64 (rf : RegFrame) (r : ℕ) (v : UInt64) : StoreM Unit := vmStore64 rf r v

def vmLoadF64 (rf : RegFrame) (r : ℕ) : StoreM UInt64 := vmLoad64 rf r

def vmStoreF64 (rf : RegFrame) (r : ℕ) (v : UInt64) : StoreM Unit := vmStore64 rf r v

def vmLoadF16Bits (rf : RegFrame) (r : ℕ) : StoreM UInt16 := do
  let v ← vmLoadU32 rf r
  pure v.toUInt16

def vmStoreF16Bits (rf : RegFrame) (r : ℕ) (bits : UInt16) : StoreM Unit :=
  vmStoreU32 rf r bits.toUInt32

def vmLoadVal (rf : RegFrame) (r : ℕ) : StoreM JelloValue := vmLoad64 rf r

def vmStoreVal (rf : RegFrame) (r : ℕ) (v : JelloValue) : StoreM Unit := vmStore64 rf r v

def vmLoadPtr (rf : RegFrame) (r : ℕ) : StoreM JelloValue := vmLoad64 rf r

def vmStorePtr (rf : RegFrame) (r : ℕ) (p : JelloValue) : StoreM Unit := vmStore64 rf r p

/-- The typed copy of a slot of `sz` bytes. -/
def copySlot (dst : RegFrame) (d : ℕ) (src : RegFrame) (r sz : ℕ) : StoreM Unit := do
  note (.slot src r sz)
  note (.slot dst d sz)
  change fun s ↦ { s with mem := copy s.mem (dst.addr d) (src.addr r) sz }

/-- Reading the header of what is not there is a wild access. -/
def cellAt (p : JelloValue) : StoreM Cell := do
  match ← read fun s ↦ s.heap.cells p with
  | some c => pure c
  | none => wild

def writeCell (p : JelloValue) (c : Cell) : StoreM Unit :=
  change fun s ↦ { s with heap := s.heap.write p c }

def gcAlloc (c : Cell) : StoreM JelloValue := do
  let p ← read fun s ↦ s.heap.next
  change fun s ↦ { s with heap := (s.heap.alloc c).2 }
  pure p

def jelloObjKindOf (v : JelloValue) : StoreM UInt32 := do
  let c ← cellAt v
  pure c.kind

def bytesAt (p : JelloValue) : StoreM JelloBytes := do
  match ← cellAt p with
  | .bytes b => pure b
  | _ => wild

def listAt (p : JelloValue) : StoreM JelloList := do
  match ← cellAt p with
  | .list l => pure l
  | _ => wild

def arrayAt (p : JelloValue) : StoreM JelloArray := do
  match ← cellAt p with
  | .array a => pure a
  | _ => wild

def objectAt (p : JelloValue) : StoreM JelloObject := do
  match ← cellAt p with
  | .object o => pure o
  | _ => wild

def enumAt (p : JelloValue) : StoreM JelloEnum := do
  match ← cellAt p with
  | .enum e => pure e
  | _ => wild

/-- `jello_is_box_i64` and `jello_as_box_i64` in one. -/
def boxI64At (v : JelloValue) : StoreM (Option UInt64) :=
  if !jelloIsPtr v then pure none
  else do
    match ← cellAt v with
    | .boxI64 _ x => pure (some x)
    | _ => pure none

def boxF64At (v : JelloValue) : StoreM (Option UInt64) :=
  if !jelloIsPtr v then pure none
  else do
    match ← cellAt v with
    | .boxF64 _ x => pure (some x)
    | _ => pure none

def boxF32At (v : JelloValue) : StoreM (Option UInt32) :=
  if !jelloIsPtr v then pure none
  else do
    match ← cellAt v with
    | .boxF32 _ x => pure (some x)
    | _ => pure none

def boxF16At (v : JelloValue) : StoreM (Option UInt16) :=
  if !jelloIsPtr v then pure none
  else do
    match ← cellAt v with
    | .boxF16 _ x => pure (some x)
    | _ => pure none

def jelloBoxI64New (typeId : ℕ) (v : UInt64) : StoreM JelloValue :=
  gcAlloc (.boxI64 (UInt32.ofNat typeId) v)

def jelloBoxF64New (typeId : ℕ) (v : UInt64) : StoreM JelloValue :=
  gcAlloc (.boxF64 (UInt32.ofNat typeId) v)

def jelloBoxF32New (typeId : ℕ) (v : UInt32) : StoreM JelloValue :=
  gcAlloc (.boxF32 (UInt32.ofNat typeId) v)

def jelloBoxF16New (typeId : ℕ) (v : UInt16) : StoreM JelloValue :=
  gcAlloc (.boxF16 (UInt32.ofNat typeId) v)

def cloneNumbox (v : JelloValue) : StoreM JelloValue := do
  match ← read fun s ↦ vmCloneNumbox v s.heap with
  | none => wild
  | some (w, h) =>
    change fun s ↦ { s with heap := h }
    pure w

/-- The part of a path after its last `/`, or else after its last backslash. -/
def trapSourceBasename (path : List UInt8) : List UInt8 :=
  let slash : UInt8 := 47
  let backslash : UInt8 := 92
  let sep := if slash ∈ path then slash else backslash
  (path.reverse.takeWhile (· != sep)).reverse

def decimal (n : ℕ) : List UInt8 := text (toString n)

def formatTrapLoc (file : List UInt8) (loc : UInt32) : List UInt8 :=
  let line := (loc &&& 0xffff).toNat
  let col := (loc >>> 16).toNat
  if 0 < col then file ++ text ":" ++ decimal line ++ text ":" ++ decimal col ++ text ": "
  else file ++ text ":" ++ decimal line ++ text ": "

/-- `snprintf` into a buffer of 512 bytes. -/
def clip (b : List UInt8) : List UInt8 := b.take 511

/-- The message of a trap, with the place of the instruction before it where the module has a
line table and the message does not already name a place. -/
def maybePrefixTrapLocation (ctx : Ctx) (msg : List UInt8) : List UInt8 :=
  let fn := ctx.fn
  if text ".jello:" <:+: msg then clip msg
  else if !ctx.m.features.lineTable || ctx.m.sourceFiles.isEmpty then clip msg
  else if fn.lines.isEmpty || fn.lines.length != fn.ninsns || ctx.pc == 0 then clip msg
  else
    match fn.lines[ctx.pc - 1]?, ctx.m.sourceFiles[fn.sourceFile]? with
    | some loc, some path =>
      if loc &&& 0xffff = 0 then clip msg
      else clip (clip (formatTrapLoc (trapSourceBasename (cstring path)) loc) ++ msg)
    | _, _ => clip msg

def setTrap (code : TrapCode) (msg : Option (List UInt8)) (payload : JelloValue) : StoreM Unit :=
  change fun s ↦
    { s with trapCode := code, trapMsg := msg, excPending := true, excPayload := payload }

def jelloVmTrap (ctx : Ctx) (code : TrapCode) (msg : String) : StoreM Unit :=
  setTrap code (some (maybePrefixTrapLocation ctx (text msg))) (jelloMakeI32 code.code)

/-- `true` when there was fuel left. -/
def jelloVmFuelCharge (ctx : Ctx) : StoreM Bool := do
  let limit ← read Store.fuelLimit
  if limit = 0 then pure true
  else do
    let remaining ← read Store.fuelRemaining
    if remaining = 0 then do
      jelloVmTrap ctx .fuel "instruction limit exceeded"
      pure false
    else do
      change fun s ↦ { s with fuelRemaining := s.fuelRemaining - 1 }
      pure true

end JelloVM
