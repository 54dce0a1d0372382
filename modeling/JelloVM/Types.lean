import JelloVM.Value

namespace JelloVM

/-- `jello_type_kind` -/
inductive Kind
  | bool
  | atom
  | i8
  | i16
  | i32
  | i64
  | f16
  | f32
  | f64
  | bytes
  | list
  | array
  | object
  | function
  | abstract
  | dynamic
  | enum
  deriving DecidableEq, Repr, Inhabited

/-- The payload is the element type of a list or an array, the signature of a function,
the id of an abstract type, and 0 otherwise. -/
structure TypeEntry where
  kind : Kind
  param : ℕ
  deriving DecidableEq, Repr, Inhabited

/-- `jello_op`, in the order of its codes. The loader rejects every other byte. -/
inductive JelloOp
  | nop
  | ret
  | jmp
  | jmpIf
  | mov
  | try_
  | endtry
  | throw
  | assert
  | call
  | callr
  | tailcall
  | tailcallr
  | constFun
  | closure
  | bindThis
  | constI32
  | constI8Imm
  | constBool
  | constNull
  | constAtom
  | constF16
  | constF32
  | constI64
  | constF64
  | constBytes
  | bytesConcat2
  | bytesConcatMany
  | addI32
  | subI32
  | mulI32
  | divI32
  | modI32
  | shlI32
  | shrI32
  | addI32Imm
  | subI32Imm
  | mulI32Imm
  | addI64
  | subI64
  | mulI64
  | divI64
  | modI64
  | shlI64
  | shrI64
  | addF16
  | subF16
  | mulF16
  | addF32
  | subF32
  | mulF32
  | divF32
  | addF64
  | subF64
  | mulF64
  | divF64
  | negI32
  | negI64
  | negF32
  | negF64
  | notBool
  | eqI32
  | ltI32
  | eqI32Imm
  | ltI32Imm
  | eqI64
  | ltI64
  | eqF32
  | ltF32
  | eqF64
  | ltF64
  | sextI64
  | sextI16
  | truncI8
  | truncI16
  | i32FromI64
  | f64FromI32
  | i32FromF64
  | f64FromI64
  | i64FromF64
  | f32FromI32
  | i32FromF32
  | f64FromF32
  | f32FromF64
  | f32FromI64
  | i64FromF32
  | f16FromF32
  | f32FromF16
  | f16FromI32
  | i32FromF16
  | toDyn
  | fromDynI8
  | fromDynI16
  | fromDynI32
  | fromDynI64
  | fromDynF16
  | fromDynF32
  | fromDynF64
  | fromDynBool
  | fromDynAtom
  | fromDynPtr
  | spillPush
  | spillPop
  | physeq
  | kindof
  | switchKind
  | caseKind
  | listNil
  | listCons
  | listHead
  | listTail
  | listIsNil
  | arrayNew
  | arrayLen
  | arrayGet
  | arraySet
  | bytesNew
  | bytesLen
  | bytesGetU8
  | bytesSetU8
  | objNew
  | objHasAtom
  | objGetAtom
  | objSetAtom
  | objGet
  | objSet
  | arrayConcat2
  | arrayResize
  | objHas
  | objRemove
  | objClear
  | objCopy
  | objKeys
  | enumNew
  | enumTag
  | enumGet
  | bitandI32
  | bitandI64
  | bytesBitand2
  | bitorI32
  | bitorI64
  | bitxorI32
  | bitxorI64
  | bytesBitor2
  | bytesBitxor2
  | bytesReadU16Le
  | bytesReadU16Be
  | bytesReadU32Le
  | bytesReadU32Be
  | bytesReadI32Le
  | bytesReadI32Be
  | bytesReadF32Le
  | bytesReadF32Be
  | bytesWriteU16Le
  | bytesWriteU16Be
  | bytesWriteU32Le
  | bytesWriteU32Be
  | bytesWriteI32Le
  | bytesWriteI32Be
  | bytesWriteF32Le
  | bytesWriteF32Be
  | bytesEq
  deriving DecidableEq, Repr, Inhabited

structure JelloInsn where
  op : JelloOp
  a : UInt8
  b : UInt8
  c : UInt8
  imm : UInt32
  deriving DecidableEq, Repr, Inhabited

/-- The three register operands. -/
def JelloInsn.ra (ins : JelloInsn) : ℕ := ins.a.toNat

def JelloInsn.rb (ins : JelloInsn) : ℕ := ins.b.toNat

def JelloInsn.rc (ins : JelloInsn) : ℕ := ins.c.toNat

structure JelloBcFunction where
  regTypes : List ℕ
  capStart : ℕ
  insns : List JelloInsn
  sourceFile : ℕ
  lines : List UInt32
  deriving DecidableEq, Repr, Inhabited

def JelloBcFunction.nregs (f : JelloBcFunction) : ℕ := f.regTypes.length

def JelloBcFunction.ninsns (f : JelloBcFunction) : ℕ := f.insns.length

structure FunSig where
  ret : ℕ
  args : List ℕ
  deriving DecidableEq, Repr, Inhabited

structure Features where
  const64 : Bool
  constBytes : Bool
  capStart : Bool
  lineTable : Bool
  lineCol : Bool
  deriving DecidableEq, Repr, Inhabited

structure JelloBcModule where
  features : Features
  types : List TypeEntry
  sigs : List FunSig
  atoms : List (List UInt8)
  constI64 : List UInt64
  constF64 : List UInt64
  constBytes : List (List UInt8)
  funcs : List JelloBcFunction
  entry : ℕ
  sourceFiles : List (List UInt8)
  deriving DecidableEq, Repr, Inhabited

/-- The characters of a string of the source; all of them are ASCII. -/
def text (s : String) : List UInt8 := s.toList.map fun c ↦ UInt8.ofNat c.toNat

/-- What C reads of a buffer: everything up to the first NUL. -/
def cstring (b : List UInt8) : List UInt8 := b.takeWhile (· != 0)

/-- `__proto__` is the first atom. -/
def JelloBcModule.protoEnabled (m : JelloBcModule) : Bool :=
  m.atoms[0]?.map cstring == some (text "__proto__")

/-- What lies past the end of a table is not known; here it reads as a default. -/
def JelloBcModule.type (m : JelloBcModule) (tid : ℕ) : TypeEntry := m.types.getD tid default

/-- Functions are known by their index, as pointers into the table. -/
def JelloBcModule.func (m : JelloBcModule) (f : ℕ) : JelloBcFunction := m.funcs.getD f default

def JelloBcFunction.regType (f : JelloBcFunction) (r : ℕ) : ℕ := f.regTypes.getD r 0

def JelloBcFunction.insn (f : JelloBcFunction) (pc : ℕ) : JelloInsn := f.insns.getD pc default

def regKind (m : JelloBcModule) (f r : ℕ) : Kind := (m.type ((m.func f).regType r)).kind

/-- Pointers and `jello_value` have eight bytes. -/
def jelloSlotSize : Kind → ℕ
  | .i8 | .i16 | .i32 | .f32 | .f16 | .bool | .atom => 4
  | .i64 | .f64 => 8
  | .dynamic => 8
  | .bytes | .function | .list | .array | .object | .enum | .abstract => 8

def i32 (x : UInt32) : ℤ := x.toBitVec.toInt

def i64 (x : UInt64) : ℤ := x.toBitVec.toInt

def jelloNativeBuiltinCount : ℕ := 47

inductive TrapCode
  | none
  | typeMismatch
  | bounds
  | nullDeref
  | thrown
  | stackOverflow
  | fuel
  | limit
  deriving DecidableEq, Repr, Inhabited

def TrapCode.code : TrapCode → UInt32
  | .none => 0
  | .typeMismatch => 1
  | .bounds => 2
  | .nullDeref => 3
  | .thrown => 4
  | .stackOverflow => 5
  | .fuel => 6
  | .limit => 7

end JelloVM
