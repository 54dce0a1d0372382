import JelloVM.Jit.Assembler
import JelloVM.Object
import JelloVM.Ops.Container

/-! The accesses to arrays and objects that the x64 backend inlines, with the helper for what is
left. -/

namespace JelloVM

open X64

/-- `jello_jit_layout` -/
structure JelloJitLayout where
  execCtxFr : ℕ
  callFrameRfMem : ℕ
  execCtxJitResumeEntry : ℕ
  execCtxJitSelfResume : ℕ
  execCtxJitCallEntry : ℕ
  vmFuelLimit : ℕ
  vmFuelRemaining : ℕ

/-- The functions of the runtime that native code calls. -/
inductive JitHelper
  | bytesNew
  | bytesLen
  | bytesEq
  | bytesGetU8
  | bytesSetU8
  | bytesRead
  | bytesWrite
  | arrayLen
  | arrayGet
  | arraySet
  | arrayNew
  | objGetAtom
  | objSetAtom
  | objInsertAtom
  | objectNew
  | assert
  | constBytes
  | constFun
  | closure
  | conv
  | slowOp
  | callSelf
  | callDirect
  | retSelf
  | fuelTrap
  deriving DecidableEq, Repr

/-- What the backend finds in the process: the offsets of the fields, and the addresses of the
functions. -/
structure Backend where
  lay : JelloJitLayout
  fn : JitHelper → UInt64

def jitRegCtx : Gpr := .r12

section Calls

variable (B : Backend)

/-- `emit_call_fn` -/
def callFn (h : JitHelper) : List Encoder := [.movR64Imm .rax (B.fn h), .callRax]

def restoreCalleeSaved : List Encoder :=
  [.addRspImm8 8, .popR64 .r15, .popR64 .r14, .popR64 .r13, .popR64 .r12, .popR64 .rbx,
    .popR64 .rbp]

def restoreAndRet : List Encoder := restoreCalleeSaved ++ [.ret]

/-- The arguments of a helper, in the registers of the calling convention. -/
def helperArgs (args : List UInt32) : List Encoder :=
  .movRr .rdi jitRegCtx :: List.zipWith Encoder.movR32Imm [.rsi, .rdx, .rcx, .r8] args

/-- The places in the code of an access; `cont` is where a helper has returned. -/
inductive Place
  | cont
  | slow
  | miss
  | done
  | loop
  | next
  | hit
  | icMiss
  | insert
  | tomb
  | skipTomb
  | useI
  | i32
  deriving DecidableEq, Repr

/-- The call of a helper that does not move the registers. -/
def helperCall (h : JitHelper) (args : List Encoder) : List (Piece Place) :=
  [.code (args ++ callFn B h ++ [.testRr .rax .rax]), .jcc x64CcJz .cont, .code restoreAndRet,
    .land .cont]

end Calls

section Offsets

def jitFpT0 : ℕ := 0

def jitArrayOffLen : UInt32 := 8

def jitArrayOffData : UInt32 := 16

def jitObjOffProto : UInt32 := 8

def jitObjOffCap : UInt32 := 16

def jitObjOffLen : UInt32 := 20

def jitObjOffKeys : UInt32 := 24

def jitObjOffVals : UInt32 := 32

def jitObjOffStates : UInt32 := 40

def jitObjOffIcAtom : UInt32 := 48

def jitObjOffIcSlot : UInt32 := 52

def jitObjOffIcCap : UInt32 := 56

/-- The kinds of the boxes, and the states of a slot, as the code compares them. -/
def jelloObjBoxI64 : UInt32 := 7

def jelloObjBoxF64 : UInt32 := 8

def jelloObjSlotEmpty : UInt32 := 0

def jelloObjSlotOccupied : UInt32 := 1

def jelloTagI32 : UInt32 := 1

def jelloTagNull : UInt32 := 4

end Offsets

section Access

variable (B : Backend) (m : JelloBcModule) (f : ℕ) (off : ℕ → ℕ)

/-- `none` is the kind 0. -/
def vmArrayElemKind (arr : ℕ) : Option Kind :=
  let t := m.type ((m.func f).regType arr)
  if regKind m f arr ≠ .array then none
  else if m.types.length ≤ (m.func f).regType arr then none
  else if t.kind ≠ .array then none
  else if m.types.length ≤ t.param then none
  else some (m.type t.param).kind

def emitArrayGetF64Helper (dst arr idx : ℕ) : List (Piece Place) :=
  helperCall B .arrayGet (helperArgs [UInt32.ofNat dst, UInt32.ofNat arr, UInt32.ofNat idx])

def emitArraySetF64Helper (val arr idx : ℕ) : List (Piece Place) :=
  helperCall B .arraySet (helperArgs [UInt32.ofNat val, UInt32.ofNat arr, UInt32.ofNat idx])

/-- The array in `T1` and the index in `R9`, which is within it. -/
def arrayIndex (arr idx : ℕ) : List (Piece Place) :=
  [.insns (emitLdrXSlot jitRegT1 (off arr)), .code [.testR64 jitRegT1 jitRegT1],
    .jcc x64CcJz .slow, .insns (emitLdrWSlot .r9 (off idx)),
    .code [.loadR32Disp .r8 jitRegT1 jitArrayOffLen, .cmpR32Rr .r9 .r8], .jcc x64CcJae .slow,
    .code [.loadR64Disp .rax jitRegT1 jitArrayOffData, .movRr .r8 .r9, .shlR32Imm8 .r8 3,
      .addRr .rax .r8]]

/-- Only a boxed F64 is read here; the helper is called after that too. -/
def emitArrayGetF64 (dst arr idx : ℕ) : List (Piece Place) :=
  if regKind m f dst ≠ .f64 ∨ vmArrayElemKind m f arr ≠ some .f64 then
    emitArrayGetF64Helper B dst arr idx
  else
    arrayIndex off arr idx ++
    [.code [.loadR64Disp .rax .rax 0, .movRr .rcx .rax, .andR32Imm .rcx 7,
        .cmpR32Imm .rcx jelloTagNull], .jcc x64CcJz .slow,
      .code [.testRr .rcx .rcx], .jcc x64CcJnz .slow,
      .code [.testR64 .rax .rax], .jcc x64CcJz .slow,
      .code [.cmpM32Imm .rax 0 jelloObjBoxF64], .jcc x64CcJnz .slow,
      .code [.loadXmm64Disp (xmmOperand jitFpT0) .rax 8],
      .insns (emitStrDSlot jitFpT0 (off dst)), .land .slow] ++
    emitArrayGetF64Helper B dst arr idx

/-- The value of a slot or an element, in `RCX`, is a box of a kind. -/
def boxInRcx (kind : UInt32) : List (Piece Place) :=
  [.code [.movRr .r8 .rcx, .andR32Imm .r8 7, .testRr .r8 .r8], .jcc x64CcJnz .slow,
    .code [.testR64 .rcx .rcx], .jcc x64CcJz .slow,
    .code [.cmpM32Imm .rcx 0 kind], .jcc x64CcJnz .slow]

def emitArraySetF64 (val arr idx : ℕ) : List (Piece Place) :=
  if regKind m f val ≠ .f64 ∨ vmArrayElemKind m f arr ≠ some .f64 then
    emitArraySetF64Helper B val arr idx
  else
    arrayIndex off arr idx ++ .code [.loadR64Disp .rcx .rax 0] :: boxInRcx jelloObjBoxF64 ++
    [.insns (emitLdrDSlot jitFpT0 (off val)),
      .code [.storeXmm64Disp (xmmOperand jitFpT0) .rcx 8], .land .slow] ++
    emitArraySetF64Helper B val arr idx

/-- The end of the code of an object, with the helper for what is left. -/
def slowPath (helper : List (Piece Place)) : List (Piece Place) :=
  .land .slow :: helper ++ [.land .done]

/-- The object in `T1`, which is not null. -/
def objectIn (obj : ℕ) : List (Piece Place) :=
  [.insns (emitLdrXSlot jitRegT1 (off obj)), .code [.testR64 jitRegT1 jitRegT1],
    .jcc x64CcJz .slow]

/-- The keys in `R10`, the values in `RDX`, the states in `RCX` and the mask in `R8`. -/
def objectTable : List (Piece Place) :=
  [.code [.loadR64Disp .r10 jitRegT1 jitObjOffKeys, .loadR64Disp .rdx jitRegT1 jitObjOffVals,
    .loadR64Disp .rcx jitRegT1 jitObjOffStates, .loadR32Disp .r8 jitRegT1 jitObjOffCap,
    .subR32Imm .r8 1]]

/-- The state of the slot in `R9`. -/
def slotState : List Encoder := [.movRr .rax .r9, .addRr .rax .rcx, .movzxR32M8Disp .rax .rax 0]

/-- The key of the slot in `R9` against an atom. -/
def slotKey (atomId : UInt32) : List Encoder :=
  [.movRr .rax .r9, .shlR32Imm8 .rax 2, .addRr .rax .r10, .loadR32Disp .rax .rax 0,
    .cmpR32Imm .rax atomId]

/-- After it the slot is in `R9`, where the cache knows it. -/
def emitObjIcProbe (atomId : UInt32) : List (Piece Place) :=
  [.code [.cmpM32Imm jitRegT1 jitObjOffIcAtom atomId], .jcc x64CcJnz .icMiss,
    .code [.loadR32Disp .rax jitRegT1 jitObjOffIcCap, .loadR32Disp .r11 jitRegT1 jitObjOffCap,
      .cmpR32Rr .rax .r11], .jcc x64CcJnz .icMiss,
    .code (.loadR32Disp .r9 jitRegT1 jitObjOffIcSlot :: slotState ++
      [.cmpR32Imm .rax jelloObjSlotOccupied]), .jcc x64CcJnz .icMiss,
    .code (slotKey atomId), .jcc x64CcJnz .icMiss, .jmp .hit, .land .icMiss]

/-- `jit_obj_hash_u32`, the same mix as that of the objects -/
abbrev jitObjHashU32 := hashU32

def emitObjGetAtomHelper (dst obj : ℕ) (atomId : UInt32) : List (Piece Place) :=
  helperCall B .objGetAtom (helperArgs [UInt32.ofNat dst, UInt32.ofNat obj, atomId])

/-- The boxed value in `RAX` with its tag in `RCX`, stored as what the register holds. -/
def objGetUnbox (k : Kind) (dst : ℕ) : List (Piece Place) :=
  match k with
  | .f64 =>
    [.code [.cmpR32Imm .rcx jelloTagNull], .jcc x64CcJz .miss,
      .code [.testRr .rcx .rcx], .jcc x64CcJnz .slow,
      .code [.testR64 .rax .rax], .jcc x64CcJz .slow,
      .code [.cmpM32Imm .rax 0 jelloObjBoxF64], .jcc x64CcJnz .slow,
      .code [.loadXmm64Disp (xmmOperand jitFpT0) .rax 8],
      .insns (emitStrDSlot jitFpT0 (off dst)), .jmp .done]
  | .i8 | .i16 | .i32 =>
    [.code [.cmpR32Imm .rcx jelloTagNull], .jcc x64CcJz .miss,
      .code [.cmpR32Imm .rcx jelloTagI32], .jcc x64CcJnz .slow,
      .code [.shrR64Imm8 .rax 3], .insns (emitStrWSlot .rax (off dst)), .jmp .done]
  | .i64 =>
    [.code [.cmpR32Imm .rcx jelloTagNull], .jcc x64CcJz .miss,
      .code [.cmpR32Imm .rcx jelloTagI32], .jcc x64CcJz .i32,
      .code [.testRr .rcx .rcx], .jcc x64CcJnz .slow,
      .code [.testR64 .rax .rax], .jcc x64CcJz .slow,
      .code [.cmpM32Imm .rax 0 jelloObjBoxI64], .jcc x64CcJnz .slow,
      .code [.loadR64Disp .rax .rax 8], .insns (emitStrXSlot .rax (off dst)), .jmp .done,
      .land .i32, .code [.shrR64Imm8 .rax 3, .movsxdR64R32 .rax .rax],
      .insns (emitStrXSlot .rax (off dst)), .jmp .done]
  | _ =>
    [.code [.cmpR32Imm .rcx jelloTagNull], .jcc x64CcJz .miss,
      .code [.testRr .rcx .rcx], .jcc x64CcJnz .slow,
      .insns (emitStrXSlot .rax (off dst)), .jmp .done]

/-- The destinations for which a lookup is inlined. -/
def Kind.inlineGet : Kind → Bool
  | .f64 | .i8 | .i16 | .i32 | .i64 | .bytes | .function | .list | .array | .object | .abstract
  | .enum => true
  | _ => false

/-- The search of the table, from the hash of the atom on. -/
def objGetSearch (atomId : UInt32) : List (Piece Place) :=
  [.code [.loadR32Disp .rax jitRegT1 jitObjOffLen, .testRr .rax .rax], .jcc x64CcJz .miss,
    .code [.movR32Imm .r9 (jitObjHashU32 atomId), .andR32Rr .r9 .r8, .movR32Rr .r11 .r9],
    .mark .loop, .code slotState,
    .code [.cmpR32Imm .rax jelloObjSlotEmpty], .jcc x64CcJz .miss,
    .code [.cmpR32Imm .rax jelloObjSlotOccupied], .jcc x64CcJnz .next,
    .code (slotKey atomId), .jcc x64CcJz .hit, .land .next,
    .code [.addR32Imm .r9 1, .andR32Rr .r9 .r8, .cmpR32Rr .r9 .r11], .jcc x64CcJz .miss,
    .back .loop, .land .hit,
    .code [.movRr .rax .r9, .shlR32Imm8 .rax 3, .addRr .rax .rdx, .loadR64Disp .rax .rax 0,
      .movRr .rcx .rax, .andR32Imm .rcx 7]]

/-- What is missing reads as null, or as 0. -/
def objGetMiss (k : Kind) (dst : ℕ) : List (Piece Place) :=
  [.land .miss, .code [.xorR64 .rax .rax],
    .insns (if k = .i8 ∨ k = .i16 ∨ k = .i32 then emitStrWSlot .rax (off dst)
      else emitStrXSlot .rax (off dst)),
    .jmp .done]

/-- The prototypes are left to the helper. -/
def objGetNoProto (atomId : UInt32) : List (Piece Place) :=
  if m.protoEnabled = true ∧ atomId ≠ jelloAtomProto then
    [.code [.loadR64Disp .rax jitRegT1 jitObjOffProto, .testR64 .rax .rax], .jcc x64CcJnz .slow]
  else []

def emitObjGetAtom (dst obj : ℕ) (atomId : UInt32) : List (Piece Place) :=
  let k := regKind m f dst
  let helper := emitObjGetAtomHelper B dst obj atomId
  if k.inlineGet = false ∨ 0x7fffffff < atomId then helper
  else
    objectIn off obj ++ objGetNoProto m atomId ++ objectTable ++ emitObjIcProbe atomId ++
      objGetSearch atomId ++ objGetUnbox off k dst ++ objGetMiss off k dst ++ slowPath helper

def emitObjSetAtomHelper (val obj : ℕ) (atomId : UInt32) : List (Piece Place) :=
  helperCall B .objSetAtom (helperArgs [UInt32.ofNat val, UInt32.ofNat obj, atomId])

/-- The I32 in a register as a tagged value, in `R8`. -/
def taggedI32 (val : ℕ) : List (Piece Place) :=
  [.insns (emitLdrWSlot .r8 (off val)), .code [.shlR64Imm8 .r8 3, .orR64Imm .r8 jelloTagI32]]

/-- A value over that of the slot whose address is in `RAX`. -/
def objSetOccupied (k : Kind) (val : ℕ) : List (Piece Place) :=
  match k with
  | .f64 =>
    .code [.loadR64Disp .rcx .rax 0] :: boxInRcx jelloObjBoxF64 ++
    [.insns (emitLdrDSlot jitFpT0 (off val)),
      .code [.storeXmm64Disp (xmmOperand jitFpT0) .rcx 8]]
  | .i64 =>
    .code [.loadR64Disp .rcx .rax 0] :: boxInRcx jelloObjBoxI64 ++
    [.insns (emitLdrXSlot .r8 (off val)), .code [.storeR64Disp .r8 .rcx 8]]
  | _ => taggedI32 off val ++ [.code [.storeR64Disp .r8 .rax 0]]

/-- A new entry in the slot in `R9`; for a box there is a helper. -/
def objSetInsert (k : Kind) (val obj : ℕ) (atomId : UInt32) : List (Piece Place) :=
  if k = .i8 ∨ k = .i16 ∨ k = .i32 then
    .code [.movRr .rax .r9, .shlR32Imm8 .rax 2, .addRr .rax .r10, .movR32Imm .r8 atomId,
      .storeR32Disp .r8 .rax 0, .movRr .rax .r9, .addRr .rax .rcx,
      .storeImm8Disp .rax 0 jelloObjSlotOccupied.toUInt8] :: taggedI32 off val ++
    [.code [.movRr .rax .r9, .shlR32Imm8 .rax 3, .addRr .rax .rdx, .storeR64Disp .r8 .rax 0,
      .loadR32Disp .rax jitRegT1 jitObjOffLen, .addR32Imm .rax 1,
      .storeR32Disp .rax jitRegT1 jitObjOffLen]]
  else
    helperCall B .objInsertAtom
      (helperArgs [UInt32.ofNat val, UInt32.ofNat obj, atomId] ++ [.movRr .r8 .r9])

/-- The values for which an update is inlined. -/
def Kind.inlineSet : Kind → Bool
  | .f64 | .i64 | .i32 | .i8 | .i16 => true
  | _ => false

/-- The search of the table, with the first tomb in `R11`. -/
def objSetSearch (atomId : UInt32) : List (Piece Place) :=
  [.code [.movR32Imm .r9 (jitObjHashU32 atomId), .andR32Rr .r9 .r8, .movR32Rr jitRegT0 .r9,
      .movR32Imm .r11 0xffffffff, .loadR32Disp .rax jitRegT1 jitObjOffLen, .testRr .rax .rax],
    .jcc x64CcJz .insert, .mark .loop, .code slotState,
    .code [.cmpR32Imm .rax jelloObjSlotEmpty], .jcc x64CcJz .insert,
    .code [.cmpR32Imm .rax jelloObjSlotOccupied], .jcc x64CcJnz .tomb,
    .code (slotKey atomId), .jcc x64CcJz .hit, .jmp .next,
    .land .tomb, .code [.cmpR32Imm .r11 0xffffffff], .jcc x64CcJnz .skipTomb,
    .code [.movRr .r11 .r9], .land .skipTomb,
    .land .next, .code [.addR32Imm .r9 1, .andR32Rr .r9 .r8, .cmpR32Rr .r9 jitRegT0],
    .jcc x64CcJz .slow, .back .loop,
    .land .hit, .code [.movRr .rax .r9, .shlR32Imm8 .rax 3, .addRr .rax .rdx]]

/-- The slot of a new entry in `R9`, unless the table would grow. -/
def objSetRoom : List (Piece Place) :=
  [.land .insert, .code [.cmpR32Imm .r11 0xffffffff], .jcc x64CcJz .useI,
    .code [.movRr .r9 .r11], .land .useI,
    .code [.loadR32Disp .rax jitRegT1 jitObjOffLen, .addR32Imm .rax 1,
      .movR32Imm .r8 objectLoadNum, .imulR32 .rax .r8, .loadR32Disp .r8 jitRegT1 jitObjOffCap,
      .movR32Imm .r11 objectLoadDen, .imulR32 .r8 .r11, .x64CmpR32Rr .rax .r8],
    .jcc x64CcJae .slow]

def emitObjSetAtom (val obj : ℕ) (atomId : UInt32) : List (Piece Place) :=
  let k := regKind m f val
  let helper := emitObjSetAtomHelper B val obj atomId
  if k.inlineSet = false ∨ atomId = jelloAtomProto ∨ 0xfff < atomId then helper
  else
    objectIn off obj ++ objectTable ++ emitObjIcProbe atomId ++ objSetSearch atomId ++
      objSetOccupied off k val ++ .jmp .done :: objSetRoom ++ objSetInsert B off k val obj atomId ++
      .jmp .done :: slowPath helper

end Access

section Complete

variable {B : Backend} {m : JelloBcModule} {f : ℕ} {off : ℕ → ℕ} {k : Kind} {dst val obj : ℕ}
  {atomId : UInt32} {S : List Place}

theorem leaves_helperCall (h : JitHelper) {args : List Encoder}
    (hargs : args.all Encoder.direct = true) :
    Leaves S S (helperCall B h args) := by
  refine ⟨?_, ?_⟩
  · simp only [helperCall, List.all_cons, Piece.direct, List.all_append, hargs]
    rfl
  · intro l hl
    simp only [helperCall, List.foldl_cons, List.foldl_nil, Piece.opens, List.mem_filter,
      List.mem_cons, decide_eq_true_eq] at hl
    exact hl.1.resolve_left hl.2

theorem leaves_arrayIndex (arr idx : ℕ) : Leaves [] [.slow] (arrayIndex off arr idx) :=
  ⟨rfl, by simp [arrayIndex, Piece.opens]⟩

theorem leaves_boxInRcx (kind : UInt32) (hS : .slow ∈ S) : Leaves S S (boxInRcx kind) :=
  ⟨rfl, by simp [boxInRcx, Piece.opens, hS]⟩

theorem leaves_objectIn (off : ℕ → ℕ) (obj : ℕ) : Leaves [] [.slow] (objectIn off obj) :=
  ⟨rfl, by simp [objectIn, Piece.opens]⟩

theorem leaves_objGetNoProto (atomId : UInt32) :
    Leaves [.slow] [.slow] (objGetNoProto m atomId) := by
  unfold objGetNoProto
  split_ifs
  · exact ⟨rfl, by simp [Piece.opens]⟩
  · exact ⟨rfl, List.Subset.refl _⟩

theorem leaves_objectTable : Leaves S S objectTable := ⟨rfl, List.Subset.refl _⟩

theorem leaves_objIcProbe (atomId : UInt32) :
    Leaves [.slow] [.hit, .slow] (emitObjIcProbe atomId) :=
  ⟨rfl, by simp [emitObjIcProbe, Piece.opens]⟩

theorem leaves_objGetSearch (atomId : UInt32) :
    Leaves [.hit, .slow] [.miss, .slow] (objGetSearch atomId) :=
  ⟨rfl, by simp [objGetSearch, Piece.opens]⟩

theorem leaves_objGetUnbox (off : ℕ → ℕ) (k : Kind) (dst : ℕ) :
    Leaves [.miss, .slow] [.done, .miss, .slow] (objGetUnbox off k dst) := by
  cases k
  all_goals exact ⟨rfl, by simp [objGetUnbox, Piece.opens]⟩

theorem leaves_objGetMiss (off : ℕ → ℕ) (k : Kind) (dst : ℕ) :
    Leaves [.done, .miss, .slow] [.done, .slow] (objGetMiss off k dst) :=
  ⟨rfl, by simp [objGetMiss, Piece.opens]⟩

theorem leaves_objSetSearch (atomId : UInt32) :
    Leaves [.hit, .slow] [.insert, .slow] (objSetSearch atomId) :=
  ⟨rfl, by simp [objSetSearch, Piece.opens]⟩

theorem leaves_code {es : List Encoder} (h : es.all Encoder.direct = true) :
    Leaves S S [.code es] := ⟨by simp [Piece.direct, h], List.Subset.refl _⟩

theorem leaves_objSetOccupied (k : Kind) (val : ℕ) :
    Leaves [.insert, .slow] [.insert, .slow] (objSetOccupied off k val) := by
  cases k
  all_goals exact ⟨rfl, by simp [objSetOccupied, boxInRcx, taggedI32, Piece.opens]⟩

theorem leaves_objSetRoom : Leaves [.done, .insert, .slow] [.done, .slow] objSetRoom :=
  ⟨rfl, by simp [objSetRoom, Piece.opens]⟩

theorem leaves_objSetInsert (k : Kind) (val obj : ℕ) (atomId : UInt32) :
    Leaves [.done, .slow] [.done, .slow] (objSetInsert B off k val obj atomId) := by
  unfold objSetInsert
  split_ifs
  · exact ⟨rfl, by simp [taggedI32, Piece.opens]⟩
  · exact leaves_helperCall _ rfl

theorem complete_arrayGet (dst arr idx : ℕ) : Complete (emitArrayGetF64 B m f off dst arr idx) := by
  unfold emitArrayGetF64
  split_ifs
  · exact leaves_helperCall _ rfl
  · refine ((leaves_arrayIndex arr idx).append ?_).append (leaves_helperCall _ rfl)
    exact ⟨rfl, by simp [Piece.opens]⟩

theorem complete_arraySet (val arr idx : ℕ) : Complete (emitArraySetF64 B m f off val arr idx) := by
  unfold emitArraySetF64
  split_ifs
  · exact leaves_helperCall _ rfl
  · have hbox : Leaves [.slow] [.slow] (.code [.loadR64Disp .rcx .rax 0] ::
        boxInRcx jelloObjBoxF64) := (leaves_code rfl).append (leaves_boxInRcx _ (by simp))
    refine (((leaves_arrayIndex arr idx).append hbox).append ?_).append (leaves_helperCall _ rfl)
    exact ⟨rfl, by simp [Piece.opens]⟩

theorem leaves_slowPath (h : JitHelper) {args : List Encoder}
    (hargs : args.all Encoder.direct = true) :
    Leaves [.done, .slow] [] (slowPath (helperCall B h args)) := by
  have hslow : Leaves [Place.done, .slow] [.done] [.land .slow] := ⟨rfl, by simp [Piece.opens]⟩
  exact (hslow.append (leaves_helperCall h hargs)).append ⟨rfl, by simp [Piece.opens]⟩

theorem complete_objGetAtom (dst obj : ℕ) (atomId : UInt32) :
    Complete (emitObjGetAtom B m f off dst obj atomId) := by
  unfold emitObjGetAtom
  dsimp only
  split_ifs
  · exact leaves_helperCall _ rfl
  · have hsearch := ((((leaves_objectIn off obj).append
      (leaves_objGetNoProto (m := m) atomId)).append leaves_objectTable).append
      (leaves_objIcProbe atomId)).append (leaves_objGetSearch atomId)
    have hvalue := (hsearch.append (leaves_objGetUnbox off (regKind m f dst) dst)).append
      (leaves_objGetMiss off (regKind m f dst) dst)
    exact hvalue.append (leaves_slowPath _ rfl)

theorem complete_objSetAtom (val obj : ℕ) (atomId : UInt32) :
    Complete (emitObjSetAtom B m f off val obj atomId) := by
  unfold emitObjSetAtom
  dsimp only
  split_ifs
  · exact leaves_helperCall _ rfl
  · have hsearch := (((leaves_objectIn off obj).append leaves_objectTable).append
      (leaves_objIcProbe atomId)).append (leaves_objSetSearch atomId)
    have hdone : Leaves [Place.insert, .slow] [.done, .insert, .slow] [.jmp .done] :=
      ⟨rfl, List.Subset.refl _⟩
    have hlast : Leaves [Place.done, .slow] [.done, .slow] [.jmp .done] :=
      ⟨rfl, by simp [Piece.opens]⟩
    exact (((hsearch.append (leaves_objSetOccupied (regKind m f val) val)).append
      (hdone.append leaves_objSetRoom)).append (leaves_objSetInsert (regKind m f val) val obj
        atomId)).append (hlast.append (leaves_slowPath _ rfl))

end Complete

end JelloVM
