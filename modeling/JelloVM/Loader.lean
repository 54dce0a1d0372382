import JelloVM.Check

namespace JelloVM

/-- `jello_bc_error`, without `JELLO_BC_OK` -/
inductive BcError
  | eof
  | badMagic
  | unsupportedVersion
  | badFormat
  | outOfMemory
  deriving DecidableEq, Repr

/-- `jello_bc_result` of a failed load -/
structure BcResult where
  err : BcError
  msg : String
  offset : ℕ
  deriving DecidableEq, Repr

/-- The bytes of a file, and the memory: whether the allocator has the block whose absence is
reported with a message at an offset, what its blocks hold, and whether so many bytes at a distance
from the start of the block of constants, not all of them in the block, are there to be written.
Offsets do not wrap, as no object in memory comes near the size of the address space. -/
structure BcInput where
  data : ℕ → UInt8
  size : ℕ
  mallocs : String → ℕ → Bool
  fresh : ℕ → UInt8
  beyond : ℕ → ℕ → Bool

/-- A reader at an offset. -/
abbrev ReadM (α : Type) := StateT ℕ (Except BcResult) α

section Readers

variable (inp : BcInput)

def rdNeed (k : ℕ) : ReadM Bool := do
  let off ← get
  pure (off + k ≤ inp.size)

def unexpectedEof {α : Type} : ReadM α := do
  let off ← get
  throw ⟨.eof, "unexpected EOF", off⟩

def rdByte (i : ℕ) : ReadM UInt8 := do
  let off ← get
  pure (inp.data (off + i))

def rdSkip (k : ℕ) : ReadM Unit := modify (· + k)

def rdU8 : ReadM UInt8 := do
  if !(← rdNeed inp 1) then unexpectedEof
  else do
    let v ← rdByte inp 0
    rdSkip 1
    pure v

def rdU16 : ReadM UInt16 := do
  if !(← rdNeed inp 2) then unexpectedEof
  else do
    let lo ← rdByte inp 0
    let hi ← rdByte inp 1
    rdSkip 2
    pure (lo.toUInt16 ||| hi.toUInt16 <<< 8)

def rdU32 : ReadM UInt32 := do
  if !(← rdNeed inp 4) then unexpectedEof
  else do
    let b0 ← rdByte inp 0
    let b1 ← rdByte inp 1
    let b2 ← rdByte inp 2
    let b3 ← rdByte inp 3
    rdSkip 4
    pure (b0.toUInt32 ||| b1.toUInt32 <<< 8 ||| b2.toUInt32 <<< 16 ||| b3.toUInt32 <<< 24)

theorem rdU8_eq (off : ℕ) : rdU8 inp off =
    if off + 1 ≤ inp.size then .ok (inp.data off, off + 1)
    else .error ⟨.eof, "unexpected EOF", off⟩ := by
  change (if (!decide (off + 1 ≤ inp.size)) = true then unexpectedEof else _) off = _
  by_cases h : off + 1 ≤ inp.size
  · rw [if_pos h, if_neg (by simpa using h)]
    rfl
  · rw [if_neg h, if_pos (by simpa using h)]
    rfl

theorem rdU16_eq (off : ℕ) : rdU16 inp off =
    if off + 2 ≤ inp.size then
      .ok ((inp.data off).toUInt16 ||| (inp.data (off + 1)).toUInt16 <<< 8, off + 2)
    else .error ⟨.eof, "unexpected EOF", off⟩ := by
  change (if (!decide (off + 2 ≤ inp.size)) = true then unexpectedEof else _) off = _
  by_cases h : off + 2 ≤ inp.size
  · rw [if_pos h, if_neg (by simpa using h)]
    rfl
  · rw [if_neg h, if_pos (by simpa using h)]
    rfl

theorem rdU32_eq (off : ℕ) : rdU32 inp off =
    if off + 4 ≤ inp.size then
      .ok ((inp.data off).toUInt32 ||| (inp.data (off + 1)).toUInt32 <<< 8 |||
        (inp.data (off + 2)).toUInt32 <<< 16 ||| (inp.data (off + 3)).toUInt32 <<< 24, off + 4)
    else .error ⟨.eof, "unexpected EOF", off⟩ := by
  change (if (!decide (off + 4 ≤ inp.size)) = true then unexpectedEof else _) off = _
  by_cases h : off + 4 ≤ inp.size
  · rw [if_pos h, if_neg (by simpa using h)]
    rfl
  · rw [if_neg h, if_pos (by simpa using h)]
    rfl

end Readers

/-- A constant pool of bytes: the lengths and the offsets of its entries, and the block with their
bytes. -/
structure ConstBytes where
  len : List UInt32
  off : List UInt32
  data : ℕ → UInt8
  size : UInt32

def ConstBytes.empty : ConstBytes := { len := [], off := [], data := fun _ ↦ 0, size := 0 }

/-- What `CONST_BYTES` copies. -/
def ConstBytes.payload (p : ConstBytes) (i : ℕ) : List UInt8 :=
  (List.range (p.len.getD i 0).toNat).map fun k ↦ p.data ((p.off.getD i 0).toNat + k)

def ConstBytes.payloads (p : ConstBytes) : List (List UInt8) :=
  (List.range p.len.length).map p.payload

/-- A module, and the pool behind its constants. -/
structure LoadedModule where
  bc : JelloBcModule
  pool : ConstBytes

/-- The module as `calloc` gives it. -/
def zeroModule : LoadedModule := { bc := default, pool := .empty }

/-- How a load ends early: it returns a result, with what `*out` then is, or it writes where there
is no memory. -/
inductive BcExit
  | returns (result : BcResult) (out : Option LoadedModule)
  | faults

abbrev LoadM (α : Type) := StateT ℕ (Except BcExit) α

theorem load_bind {α β : Type} (x : LoadM α) (f : α → LoadM β) (off : ℕ) :
    (x >>= f) off = (x off).bind fun r ↦ f r.1 r.2 := rfl

/-- `if(rr.err) return rr;` -/
def orReturn {α : Type} (x : ReadM α) : LoadM α := fun off ↦
  match x off with
  | .ok r => .ok r
  | .error e => .error (.returns e (some zeroModule))

/-- `if(rr.err) { jello_bc_free(m); *out = NULL; return rr; }` -/
def orFree {α : Type} (x : ReadM α) : LoadM α := fun off ↦
  match x off with
  | .ok r => .ok r
  | .error e => .error (.returns e none)

/-- `{ jello_bc_free(m); *out = NULL; return err(e, msg, r.off - back); }` -/
def bail {α : Type} (e : BcError) (msg : String) (back : ℕ) : LoadM α := fun off ↦
  .error (.returns ⟨e, msg, off - back⟩ none)

def fault {α : Type} : LoadM α := throw .faults

def bailIf (c : Prop) [Decidable c] (e : BcError) (msg : String) (back : ℕ) : LoadM Unit :=
  if c then bail e msg back else pure ()

def check (v : Verdict) : LoadM Unit :=
  match v with
  | .ok () => pure ()
  | .error msg => bail .badFormat msg 0

/-- The rounds `i`, ..., `i + n - 1` of a loop, with what each of them reads. -/
def each {α : Type} (body : ℕ → LoadM α) : ℕ → ℕ → LoadM (List α)
  | _, 0 => pure []
  | i, n + 1 => do
    let a ← body i
    let as ← each body (i + 1) n
    pure (a :: as)

/-- A part of the file that is there with a feature only. -/
def optional {α : Type} (present : Bool) (x : LoadM α) (absent : α) : LoadM α :=
  if present then x else pure absent

def Features.ofBits (bits : UInt32) : Features where
  const64 := bits &&& 1 ≠ 0
  constBytes := bits &&& 2 ≠ 0
  capStart := bits &&& 4 ≠ 0
  lineTable := bits &&& 8 ≠ 0
  lineCol := bits &&& 16 ≠ 0

/-- The codes of the kinds start at 1. -/
def Kind.ofCode (code : UInt8) : Option Kind :=
  if code = 0 ∨ 17 < code then none else some (.ofNat (code.toNat - 1))

def JelloOp.ofCode (code : UInt8) : Option JelloOp :=
  if 161 < code then none else some (.ofNat code.toNat)

structure BcHeader where
  features : Features
  ntypes : ℕ
  nsigs : ℕ
  natoms : ℕ
  nfuncs : ℕ
  entry : ℕ
  nconstI64 : ℕ
  nconstF64 : ℕ
  nconstBytes : ℕ

def bcMagic : UInt32 := 0x4A4C5942

section Sections

variable (inp : BcInput)

def allocAt (msg : String) (off : ℕ) : LoadM Unit := do
  if inp.mallocs msg off then pure ()
  else throw (.returns ⟨.outOfMemory, msg, off⟩ none)

def alloc (msg : String) : LoadM Unit := do
  let off ← get
  allocAt inp msg off

def readWord : LoadM ℕ := do
  let v ← orFree (rdU32 inp)
  pure v.toNat

def BcInput.slice (off n : ℕ) : List UInt8 := (List.range n).map fun i ↦ inp.data (off + i)

/-- The `n` bytes at the offset. -/
def takeBytes (n : ℕ) : LoadM (List UInt8) := do
  let off ← get
  set (off + n)
  pure (inp.slice off n)

/-- A length that the rest of the file has to have. -/
def needBytes (n : ℕ) (msg : String) : LoadM Unit := do
  let fits ← orFree (rdNeed inp n)
  bailIf (fits = false) .eof msg 0

def readMagic : LoadM Unit := do
  let magic ← orReturn (rdU32 inp)
  bailIf (magic ≠ bcMagic) .badMagic "bad magic" 4

def readHeader : LoadM BcHeader := do
  let version ← orFree (rdU32 inp)
  bailIf (version ≠ 1) .unsupportedVersion "unsupported version" 4
  let bits ← orFree (rdU32 inp)
  let features := Features.ofBits bits
  let ntypes ← readWord inp
  let nsigs ← readWord inp
  let natoms ← readWord inp
  let nfuncs ← readWord inp
  let entry ← readWord inp
  bailIf (nfuncs ≤ entry) .badFormat "entry out of range" 4
  let nconstI64 ← optional features.const64 (readWord inp) 0
  let nconstF64 ← optional features.const64 (readWord inp) 0
  let nconstBytes ← optional features.constBytes (readWord inp) 0
  pure
    { features := features
      ntypes := ntypes
      nsigs := nsigs
      natoms := natoms
      nfuncs := nfuncs
      entry := entry
      nconstI64 := nconstI64
      nconstF64 := nconstF64
      nconstBytes := nconstBytes }

/-- The module after its header has been read: the tables have their sizes only. -/
def BcHeader.module (h : BcHeader) : JelloBcModule :=
  { features := h.features
    types := List.replicate h.ntypes default
    sigs := List.replicate h.nsigs default
    atoms := []
    constI64 := []
    constF64 := []
    constBytes := []
    funcs := List.replicate h.nfuncs default
    entry := h.entry
    sourceFiles := [] }

def readType (h : BcHeader) : LoadM TypeEntry := do
  let code ← orFree (rdU8 inp)
  let _ ← orFree (rdU8 inp)
  let _ ← orFree (rdU16 inp)
  let p0 ← readWord inp
  let _ ← readWord inp
  match Kind.ofCode code with
  | none => bail .badFormat "unknown type kind" 0
  | some kind => do
    let t : TypeEntry :=
      { kind := kind
        param :=
          match kind with
          | .list | .array | .function | .abstract => p0
          | _ => 0 }
    check (validateTypeEntry h.module t)
    pure t

/-- A table of `n` entries in a block of its own, if it has any. -/
def readTable {α : Type} (msg : String) (n : ℕ) (body : ℕ → LoadM α) : LoadM (List α) :=
  if n = 0 then pure []
  else do
    alloc inp msg
    each body 0 n

def readTypes (h : BcHeader) : LoadM (List TypeEntry) :=
  readTable inp "oom types" h.ntypes fun _ ↦ readType inp h

def readTypeId (h : BcHeader) (msg : String) : LoadM ℕ := do
  let tid ← readWord inp
  bailIf (h.ntypes ≤ tid) .badFormat msg 4
  pure tid

def readSig (h : BcHeader) : LoadM FunSig := do
  let ret ← readWord inp
  let nargs ← orFree (rdU16 inp)
  let _ ← orFree (rdU16 inp)
  bailIf (h.ntypes ≤ ret) .badFormat "sig ret type out of range" 0
  let args ← readTable inp "oom sig args" nargs.toNat fun _ ↦
    readTypeId inp h "sig arg type out of range"
  pure { ret := ret, args := args }

def readSigs (h : BcHeader) : LoadM (List FunSig) :=
  readTable inp "oom sigs" h.nsigs fun _ ↦ readSig inp h

/-- The first pass: a length, and the bytes are skipped. -/
def atomLen : LoadM ℕ := do
  let len ← readWord inp
  if len = 0 then pure 0
  else do
    needBytes inp len "unexpected EOF in atom bytes"
    orFree (rdSkip len)
    pure len

/-- The second pass. -/
def atomBytes (expected : ℕ) : LoadM (List UInt8) := do
  let len ← readWord inp
  bailIf (len ≠ expected) .badFormat "atom length mismatch" 4
  if len = 0 then pure []
  else do
    needBytes inp len "unexpected EOF in atom bytes"
    takeBytes inp len

def readAtoms (h : BcHeader) : LoadM (List (List UInt8)) := do
  if h.natoms = 0 then pure []
  else do
    let start ← get
    alloc inp "oom atom lens"
    let lens ← each (fun _ ↦ atomLen inp) 0 h.natoms
    allocAt inp "oom atoms" start
    allocAt inp "oom atoms_data" start
    set start
    each (fun i ↦ atomBytes inp (lens.getD i 0)) 0 h.natoms

def readWord64 : LoadM UInt64 := do
  let lo ← orFree (rdU32 inp)
  let hi ← orFree (rdU32 inp)
  pure (lo.toUInt64 ||| hi.toUInt64 <<< 32)

def readConst64 (msg : String) (n : ℕ) : LoadM (List UInt64) :=
  readTable inp msg n fun _ ↦ readWord64 inp

def skipPayload (len : UInt32) : LoadM Unit :=
  if len = 0 then pure ()
  else do
    needBytes inp len.toNat "unexpected EOF in const_bytes payload"
    orFree (rdSkip len.toNat)

/-- The first pass over the constants: lengths, offsets and the total, in 32 bits. -/
def constBytesIndex : ℕ → UInt32 → LoadM (List UInt32 × List UInt32 × UInt32)
  | 0, total => pure ([], [], total)
  | n + 1, total => do
    let len ← orFree (rdU32 inp)
    skipPayload inp len
    let (lens, offs, total') ← constBytesIndex n (total + len)
    pure (len :: lens, total :: offs, total')

/-- `memcpy` of the `n` bytes at an offset of the file to `blob + at`. -/
def BcInput.memcpy (blob : ℕ → UInt8) (dst off n : ℕ) : ℕ → UInt8 := fun k ↦
  if dst ≤ k ∧ k < dst + n then inp.data (off + (k - dst)) else blob k

/-- Whether the copy goes through. The block is null where the total is zero, and what lies behind a
block may or may not be memory. -/
def BcInput.copies (total dst n : ℕ) : Bool :=
  total ≠ 0 && (dst + n ≤ total || inp.beyond dst n)

def copyPayload (total : UInt32) (blob : ℕ → UInt8) (dst len : UInt32) : LoadM (ℕ → UInt8) :=
  if len = 0 then pure blob
  else do
    needBytes inp len.toNat "unexpected EOF in const_bytes payload"
    let off ← get
    if inp.copies total.toNat dst.toNat len.toNat then do
      orFree (rdSkip len.toNat)
      pure (inp.memcpy blob dst.toNat off len.toNat)
    else fault

def constBytesCopy (total : UInt32) :
    List UInt32 → List UInt32 → (ℕ → UInt8) → LoadM (ℕ → UInt8)
  | expected :: lens, dst :: offs, blob => do
    let len ← orFree (rdU32 inp)
    bailIf (len ≠ expected) .badFormat "const_bytes length mismatch" 4
    let blob ← copyPayload inp total blob dst len
    constBytesCopy total lens offs blob
  | _, _, blob => pure blob

def allocPool (total : UInt32) : LoadM Unit :=
  if total = 0 then pure () else alloc inp "oom const_bytes data"

def readConstBytes (n : ℕ) : LoadM ConstBytes := do
  if n = 0 then pure .empty
  else do
    alloc inp "oom const_bytes index"
    let start ← get
    let (lens, offs, total) ← constBytesIndex inp n 0
    allocPool inp total
    set start
    let blob ← constBytesCopy inp total lens offs inp.fresh
    pure { len := lens, off := offs, data := blob, size := total }

def readSourceFile : LoadM (List UInt8) := do
  let len ← readWord inp
  needBytes inp len "unexpected EOF in source_files"
  alloc inp "oom source_file"
  takeBytes inp len

def readSourceFiles : LoadM (List (List UInt8)) := do
  let n ← readWord inp
  readTable inp "oom source_files" n fun _ ↦ readSourceFile inp

def readLine (features : Features) : LoadM UInt32 := do
  if features.lineCol then orFree (rdU32 inp)
  else do
    let line ← orFree (rdU16 inp)
    pure line.toUInt32

/-- `jello_bc_validate_insn` knows the function by its registers and its number of instructions. -/
def announced (regTypes : List ℕ) (ninsns : ℕ) : JelloBcFunction :=
  { regTypes := regTypes
    capStart := 0
    insns := List.replicate ninsns default
    sourceFile := 0
    lines := [] }

def readInsn (m : JelloBcModule) (regTypes : List ℕ) (ninsns pc : ℕ) : LoadM JelloInsn := do
  let code ← orFree (rdU8 inp)
  let a ← orFree (rdU8 inp)
  let b ← orFree (rdU8 inp)
  let c ← orFree (rdU8 inp)
  let imm ← orFree (rdU32 inp)
  match JelloOp.ofCode code with
  | none => bail .badFormat "unknown opcode" 0
  | some op => do
    let ins : JelloInsn := { op := op, a := a, b := b, c := c, imm := imm }
    check (jelloBcValidateInsn m (announced regTypes ninsns) ins pc)
    pure ins

def readFileId : LoadM ℕ := do
  let f ← orFree (rdU16 inp)
  pure f.toNat

def checkSemantics (fn : JelloBcFunction) : LoadM Unit :=
  if fn.ninsns = 0 then pure () else check (jelloBcValidateFunctionSemantics fn)

def readFunction (h : BcHeader) (m : JelloBcModule) : LoadM JelloBcFunction := do
  let nregs ← readWord inp
  let capStart ← optional h.features.capStart (readWord inp) 0
  let ninsns ← readWord inp
  bailIf (256 < nregs) .badFormat "nregs > 256" 8
  let regTypes ← readTable inp "oom reg_types" nregs fun _ ↦
    readTypeId inp h "reg type out of range"
  let sourceFile ← optional h.features.lineTable (readFileId inp) 0
  let lines ← optional h.features.lineTable
    (readTable inp "oom lines" ninsns fun _ ↦ readLine inp h.features) []
  let insns ← readTable inp "oom insns" ninsns fun pc ↦ readInsn inp m regTypes ninsns pc
  let fn : JelloBcFunction :=
    { regTypes := regTypes
      capStart := capStart
      insns := insns
      sourceFile := sourceFile
      lines := lines }
  checkSemantics fn
  pure fn

def readFunctions (h : BcHeader) (m : JelloBcModule) : LoadM (List JelloBcFunction) :=
  readTable inp "oom funcs" h.nfuncs fun _ ↦ readFunction inp h m

/-- All of `jello_bc_read` after the header. -/
def readBody (h : BcHeader) : LoadM LoadedModule := do
  let types ← readTypes inp h
  let sigs ← readSigs inp h
  let atoms ← readAtoms inp h
  let constI64 ← optional h.features.const64 (readConst64 inp "oom const_i64" h.nconstI64) []
  let constF64 ← optional h.features.const64 (readConst64 inp "oom const_f64" h.nconstF64) []
  let pool ← optional h.features.constBytes (readConstBytes inp h.nconstBytes) .empty
  let sourceFiles ← optional h.features.lineTable (readSourceFiles inp) []
  let m : JelloBcModule :=
    { features := h.features
      types := types
      sigs := sigs
      atoms := atoms
      constI64 := constI64
      constF64 := constF64
      constBytes := pool.payloads
      funcs := List.replicate h.nfuncs default
      entry := h.entry
      sourceFiles := sourceFiles }
  let funcs ← readFunctions inp h m
  pure { bc := { m with funcs := funcs }, pool := pool }

def readAll : LoadM LoadedModule := do
  readMagic inp
  let h ← readHeader inp
  readBody inp h

/-- What `jello_bc_read` returns: an error, if there is one, and `*out`. -/
structure BcRead where
  err : Option BcResult
  out : Option LoadedModule

/-- Nothing is returned where the load faults. -/
def jelloBcRead : Option BcRead :=
  if inp.mallocs "oom module" 0 then
    match readAll inp 0 with
    | .ok (l, _) => some { err := none, out := some l }
    | .error (.returns result out) => some { err := some result, out := out }
    | .error .faults => none
  else some { err := some ⟨.outOfMemory, "oom module", 0⟩, out := none }

end Sections

end JelloVM
