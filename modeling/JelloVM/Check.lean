import JelloVM.Types

namespace JelloVM

/-- What the loader says: every rejection is a `JELLO_BC_BAD_FORMAT`, so only the message is
kept. -/
abbrev Verdict := Except String Unit

def require (c : Prop) [Decidable c] (msg : String) : Verdict :=
  if c then .ok () else .error msg

/-- A target that is not one past the end at most is refused; the sum wraps. -/
def jumpTarget (base : ℕ) (d : UInt32) (ninsns : ℕ) : Option ℕ :=
  let npc := UInt32.ofNat base + d
  if i32 npc < 0 ∨ i32 (UInt32.ofNat ninsns) < i32 npc then none else some npc.toNat

def Kind.isInt32 : Kind → Bool
  | .i8 | .i16 | .i32 => true
  | _ => false

def Kind.isPointer : Kind → Bool
  | .bytes | .function | .list | .array | .object | .abstract | .enum => true
  | _ => false

section Insn

variable (m : JelloBcModule) (fn : JelloBcFunction) (ins : JelloInsn)

def rk (r : ℕ) : Kind := (m.type (fn.regType r)).kind

def isEnumReg (r : ℕ) : Bool :=
  rk m fn r = .enum ∨ (rk m fn r = .abstract ∧ (m.type (fn.regType r)).param = 1)

def elemOf (r : ℕ) : ℕ := (m.type (fn.regType r)).param

/-- The register operands are checked together, with one message. -/
def regA (msg : String) : Verdict := require (ins.ra < fn.nregs) msg

def regAB (msg : String) : Verdict := require (ins.ra < fn.nregs ∧ ins.rb < fn.nregs) msg

def regABC (msg : String) : Verdict :=
  require (ins.ra < fn.nregs ∧ ins.rb < fn.nregs ∧ ins.rc < fn.nregs) msg

def constOf (k : Kind) (msg : String) : Verdict := do
  regA fn ins "const reg out of range"
  require (rk m fn ins.ra = k) msg

/-- Conversions and unary operators: the kinds of the two registers. -/
def unOf (regs : String) (a b : Kind) (msg : String) : Verdict := do
  regAB fn ins regs
  require (rk m fn ins.ra = a ∧ rk m fn ins.rb = b) msg

def convOf (a b : Kind) (msg : String) : Verdict := unOf m fn ins "conv reg out of range" a b msg

/-- From Dynamic; the source is looked at first. -/
def fromDynOf (a : Kind) (msg : String) : Verdict := do
  regAB fn ins "dyn conv reg out of range"
  require (rk m fn ins.rb = .dynamic ∧ rk m fn ins.ra = a) msg

def binOf (regs : String) (a b c : Kind) (msg : String) : Verdict := do
  regABC fn ins regs
  require (rk m fn ins.ra = a ∧ rk m fn ins.rb = b ∧ rk m fn ins.rc = c) msg

def arithOf (k : Kind) (msg : String) : Verdict :=
  binOf m fn ins "arith reg out of range" k k k msg

def cmpI32Of (regs dst operands : String) : Verdict := do
  regABC fn ins regs
  require (rk m fn ins.ra = .bool) dst
  require ((rk m fn ins.rb).isInt32 ∧ (rk m fn ins.rc).isInt32) operands

/-- An object in `b` and an atom in `c`. -/
def keyedOf (obj key : String) : Verdict := do
  require (rk m fn ins.rb = .object) obj
  require (rk m fn ins.rc = .atom) key

def atomOf (msg : String) : Verdict := require (ins.imm.toNat < m.atoms.length) msg

/-- Logical function indices: the builtins, then the functions of the module. -/
def funcOf (msg : String) : Verdict :=
  require (ins.imm.toNat < (jelloNativeBuiltinCount + m.funcs.length) % 2 ^ 32) msg

def targetOf (pc : ℕ) (msg : String) : Verdict :=
  require (jumpTarget (pc + 1) ins.imm fn.ninsns).isSome msg

def arrayElemOf (types elem : String) : Verdict := do
  require (rk m fn ins.rb = .array ∧ rk m fn ins.rc = .i32) types
  require (elemOf m fn ins.rb = fn.regType ins.ra) elem

/-- Small integers are kept in slots of 32 bits, so a constant has to be in range. -/
def constI32Range : Verdict :=
  match rk m fn ins.ra with
  | .i8 => require (-128 ≤ i32 ins.imm ∧ i32 ins.imm ≤ 127) "const_i32 out of range for i8"
  | .i16 =>
    require (-32768 ≤ i32 ins.imm ∧ i32 ins.imm ≤ 32767) "const_i32 out of range for i16"
  | _ => pure ()

def assertMsgOf : Verdict :=
  if ins.c = 1 then do
    require (ins.rb < fn.nregs) "assert msg reg out of range"
    require (rk m fn ins.rb = .bytes) "assert msg must be Bytes"
  else require (ins.b = 0) "assert b must be 0 when c is 0"

/-- The arguments of an indirect call start at the register of the immediate. -/
def indirectOf (regs callee base args : String) : Verdict := do
  regAB fn ins regs
  require (rk m fn ins.rb = .function) callee
  require (ins.imm.toNat < fn.nregs) base
  require (ins.imm.toNat + ins.rc ≤ fn.nregs) args

def directOf (regs func args : String) : Verdict := do
  regAB fn ins regs
  funcOf m ins func
  require (ins.rb + ins.rc ≤ fn.nregs) args

/-- `jello_bc_validate_insn` for the instruction at `pc` -/
def jelloBcValidateInsn (pc : ℕ) : Verdict :=
  match ins.op with
  | .nop => pure ()
  | .ret => regA fn ins "ret reg out of range"
  | .mov => do
    regAB fn ins "mov reg out of range"
    require (fn.regType ins.ra = fn.regType ins.rb ∨ rk m fn ins.ra = rk m fn ins.rb ∨
      (jelloSlotSize (rk m fn ins.ra) = jelloSlotSize (rk m fn ins.rb) ∧
        0 < jelloSlotSize (rk m fn ins.ra))) "mov type mismatch"
  | .jmp => targetOf fn ins pc "jmp target out of range"
  | .jmpIf => do
    regA fn ins "jmp_if cond reg out of range"
    require (rk m fn ins.ra = .bool) "jmp_if cond must be bool"
    targetOf fn ins pc "jmp_if target out of range"
  | .assert => do
    regA fn ins "assert cond reg out of range"
    require (rk m fn ins.ra = .bool) "assert cond must be bool"
    require (ins.c ≤ 1) "assert c must be 0/1 (location msg flag)"
    assertMsgOf m fn ins
  | .try_ => do
    regA fn ins "try reg out of range"
    require (rk m fn ins.ra = .dynamic) "try dst must be Dynamic"
    require (ins.b ≤ 1) "try b must be 0/1 (trap_only flag)"
    targetOf fn ins pc "try catch target out of range"
  | .endtry => pure ()
  | .throw => do
    regA fn ins "throw reg out of range"
    require (rk m fn ins.ra = .dynamic) "throw payload must be Dynamic"
  | .closure => do
    regAB fn ins "closure reg out of range"
    require (rk m fn ins.ra = .function) "closure dst must be function"
    funcOf m ins "closure func index out of range"
    require (ins.rb + ins.rc ≤ fn.nregs) "closure capture range out of range"
  | .bindThis => do
    regABC fn ins "bind_this reg out of range"
    require (rk m fn ins.ra = .function ∧ rk m fn ins.rb = .function)
      "bind_this requires function regs"
  | .call => directOf m fn ins "call reg out of range" "call func index out of range"
      "call arg range out of range"
  | .callr => indirectOf m fn ins "callr reg out of range" "callr callee must be function"
      "callr arg base out of range" "callr arg range out of range"
  | .tailcall => directOf m fn ins "tailcall reg out of range" "tailcall func index out of range"
      "tailcall arg range out of range"
  | .tailcallr => indirectOf m fn ins "tailcallr reg out of range"
      "tailcallr callee must be function" "tailcallr arg base out of range"
      "tailcallr arg range out of range"
  | .constI32 => do
    regA fn ins "const reg out of range"
    require ((rk m fn ins.ra).isInt32) "const_i32 dst must be i8/i16/i32"
    constI32Range m fn ins
  | .constI8Imm => constOf m fn ins .i8 "const_i8_imm dst must be i8"
  | .constF16 => constOf m fn ins .f16 "const_f16 dst must be f16"
  | .constBool => do
    constOf m fn ins .bool "const_bool dst must be bool"
    require (ins.c ≤ 1) "const_bool imm must be 0/1"
  | .constNull => constOf m fn ins .dynamic "const_null dst must be Dynamic"
  | .constAtom => do
    constOf m fn ins .atom "const_atom dst must be atom"
    atomOf m ins "const_atom atom id out of range"
  | .constF32 => constOf m fn ins .f32 "const_f32 dst must be f32"
  | .constI64 => do
    constOf m fn ins .i64 "const_i64 dst must be i64"
    require (ins.imm.toNat < m.constI64.length) "const_i64 pool index out of range"
  | .constF64 => do
    constOf m fn ins .f64 "const_f64 dst must be f64"
    require (ins.imm.toNat < m.constF64.length) "const_f64 pool index out of range"
  | .constBytes => do
    constOf m fn ins .bytes "const_bytes dst must be bytes"
    require (ins.imm.toNat < m.constBytes.length) "const_bytes pool index out of range"
  | .constFun => do
    constOf m fn ins .function "const_fun dst must be function"
    funcOf m ins "const_fun func index out of range"
  | .addI32 | .subI32 | .mulI32 | .divI32 | .modI32 | .shlI32 | .shrI32 | .bitandI32 | .bitorI32
  | .bitxorI32 => do
    regABC fn ins "arith reg out of range"
    require ((rk m fn ins.ra).isInt32 ∧ (rk m fn ins.rb).isInt32 ∧ (rk m fn ins.rc).isInt32)
      "arith i8/i16/i32 types required"
  | .addI32Imm | .subI32Imm | .mulI32Imm => do
    regAB fn ins "arith_imm reg out of range"
    require ((rk m fn ins.ra).isInt32 ∧ (rk m fn ins.rb).isInt32)
      "arith_imm i8/i16/i32 types required"
  | .addI64 | .subI64 | .mulI64 | .divI64 | .modI64 | .shlI64 | .shrI64 | .bitandI64 | .bitorI64
  | .bitxorI64 => arithOf m fn ins .i64 "arith i64 types required"
  | .addF32 | .subF32 | .mulF32 | .divF32 => arithOf m fn ins .f32 "arith f32 types required"
  | .addF16 | .subF16 | .mulF16 => arithOf m fn ins .f16 "arith f16 types required"
  | .addF64 | .subF64 | .mulF64 | .divF64 => arithOf m fn ins .f64 "arith f64 types required"
  | .sextI64 => do
    regAB fn ins "conv reg out of range"
    require (rk m fn ins.ra = .i64) "sext_i64 dst must be i64"
    require ((rk m fn ins.rb).isInt32) "sext_i64 src must be i8/i16/i32"
  | .sextI16 => convOf m fn ins .i16 .i8 "sext_i16 dst must be i16, src i8"
  | .truncI8 => do
    regAB fn ins "conv reg out of range"
    require (rk m fn ins.ra = .i8) "trunc_i8 dst must be i8"
    require (rk m fn ins.rb = .i16 ∨ rk m fn ins.rb = .i32) "trunc_i8 src must be i16 or i32"
  | .truncI16 => convOf m fn ins .i16 .i32 "trunc_i16 dst must be i16, src i32"
  | .i32FromI64 => convOf m fn ins .i32 .i64 "i32_from_i64 types required"
  | .f64FromI32 => convOf m fn ins .f64 .i32 "f64_from_i32 types required"
  | .i32FromF64 => convOf m fn ins .i32 .f64 "i32_from_f64 types required"
  | .f64FromI64 => convOf m fn ins .f64 .i64 "f64_from_i64 types required"
  | .i64FromF64 => convOf m fn ins .i64 .f64 "i64_from_f64 types required"
  | .f32FromI32 => convOf m fn ins .f32 .i32 "f32_from_i32 types required"
  | .i32FromF32 => convOf m fn ins .i32 .f32 "i32_from_f32 types required"
  | .f64FromF32 => convOf m fn ins .f64 .f32 "f64_from_f32 types required"
  | .f32FromF64 => convOf m fn ins .f32 .f64 "f32_from_f64 types required"
  | .f16FromF32 => convOf m fn ins .f16 .f32 "f16_from_f32 types required"
  | .f32FromF16 => convOf m fn ins .f32 .f16 "f32_from_f16 types required"
  | .f16FromI32 => convOf m fn ins .f16 .i32 "f16_from_i32 types required"
  | .i32FromF16 => convOf m fn ins .i32 .f16 "i32_from_f16 types required"
  | .f32FromI64 => convOf m fn ins .f32 .i64 "f32_from_i64 types required"
  | .i64FromF32 => convOf m fn ins .i64 .f32 "i64_from_f32 types required"
  | .eqI32 => cmpI32Of m fn ins "eq reg out of range" "eq_i32 dst must be bool"
      "eq_i32 operands must be i8/i16/i32"
  | .eqI32Imm | .ltI32Imm => do
    regAB fn ins "eq/lt_imm reg out of range"
    require (rk m fn ins.ra = .bool) "eq/lt_imm dst must be bool"
    require ((rk m fn ins.rb).isInt32) "eq/lt_imm src must be i8/i16/i32"
  | .eqI64 => binOf m fn ins "eq reg out of range" .bool .i64 .i64 "eq_i64 types required"
  | .ltI64 => binOf m fn ins "lt reg out of range" .bool .i64 .i64 "lt_i64 types required"
  | .eqF32 => binOf m fn ins "eq reg out of range" .bool .f32 .f32 "eq_f32 types required"
  | .ltF32 => binOf m fn ins "lt reg out of range" .bool .f32 .f32 "lt_f32 types required"
  | .eqF64 => binOf m fn ins "eq reg out of range" .bool .f64 .f64 "eq_f64 types required"
  | .ltF64 => binOf m fn ins "lt reg out of range" .bool .f64 .f64 "lt_f64 types required"
  | .toDyn => do
    regAB fn ins "dyn conv reg out of range"
    require (rk m fn ins.ra = .dynamic) "to_dyn dst must be Dynamic"
  | .fromDynI8 => fromDynOf m fn ins .i8 "from_dyn_i8 types required"
  | .fromDynI16 => fromDynOf m fn ins .i16 "from_dyn_i16 types required"
  | .fromDynI32 => fromDynOf m fn ins .i32 "from_dyn_i32 types required"
  | .fromDynI64 => fromDynOf m fn ins .i64 "from_dyn_i64 types required"
  | .fromDynF16 => fromDynOf m fn ins .f16 "from_dyn_f16 types required"
  | .fromDynF32 => fromDynOf m fn ins .f32 "from_dyn_f32 types required"
  | .fromDynF64 => fromDynOf m fn ins .f64 "from_dyn_f64 types required"
  | .fromDynBool => fromDynOf m fn ins .bool "from_dyn_bool types required"
  | .fromDynAtom => fromDynOf m fn ins .atom "from_dyn_atom types required"
  | .fromDynPtr => do
    regAB fn ins "dyn conv reg out of range"
    require (rk m fn ins.rb = .dynamic) "from_dyn_ptr src must be Dynamic"
    require ((rk m fn ins.ra).isPointer) "from_dyn_ptr dst must be pointer-kind"
  | .spillPush => regA fn ins "spill push reg out of range"
  | .spillPop => regA fn ins "spill pop reg out of range"
  | .negI32 => do
    regAB fn ins "neg reg out of range"
    require ((rk m fn ins.ra).isInt32 ∧ (rk m fn ins.rb).isInt32)
      "neg_i32 types must be i8/i16/i32"
  | .negI64 => unOf m fn ins "neg reg out of range" .i64 .i64 "neg_i64 types required"
  | .negF32 => unOf m fn ins "neg reg out of range" .f32 .f32 "neg_f32 types required"
  | .negF64 => unOf m fn ins "neg reg out of range" .f64 .f64 "neg_f64 types required"
  | .notBool => unOf m fn ins "not reg out of range" .bool .bool "not_bool types required"
  | .physeq => do
    regABC fn ins "physeq reg out of range"
    require (rk m fn ins.ra = .bool) "physeq dst must be bool"
  | .ltI32 => cmpI32Of m fn ins "lt_i32 reg out of range" "lt_i32 dst must be bool"
      "lt_i32 operands must be i8/i16/i32"
  | .kindof => unOf m fn ins "kindof reg out of range" .i32 .dynamic "kindof types required"
  | .switchKind => do
    regA fn ins "switch_kind reg out of range"
    require (rk m fn ins.ra = .i32) "switch_kind src must be i32"
    require (pc + 1 + ins.rb ≤ fn.ninsns) "switch_kind case table out of range"
  | .caseKind => pure ()
  | .listNil => do
    regA fn ins "list nil reg out of range"
    require (rk m fn ins.ra = .list) "list_nil dst must be list"
  | .listCons => do
    regABC fn ins "list cons reg out of range"
    require (rk m fn ins.ra = .list) "list_cons dst must be list"
    require (rk m fn ins.rc = .list) "list_cons tail must be list"
    require (fn.regType ins.ra = fn.regType ins.rc) "list_cons list type mismatch"
    require (elemOf m fn ins.ra = fn.regType ins.rb) "list_cons head type mismatch"
  | .listHead => do
    regAB fn ins "list head reg out of range"
    require (rk m fn ins.rb = .list) "list_head src must be list"
    require (elemOf m fn ins.rb = fn.regType ins.ra) "list_head dst type mismatch"
  | .listTail => do
    unOf m fn ins "list tail reg out of range" .list .list "list_tail types required"
    require (fn.regType ins.ra = fn.regType ins.rb) "list_tail list type mismatch"
  | .listIsNil => unOf m fn ins "list is_nil reg out of range" .bool .list
      "list_is_nil types required"
  | .arrayNew => unOf m fn ins "array new reg out of range" .array .i32 "array_new types required"
  | .arrayLen => unOf m fn ins "array len reg out of range" .i32 .array "array_len types required"
  | .arrayGet => do
    regABC fn ins "array get reg out of range"
    arrayElemOf m fn ins "array_get types required" "array_get dst type mismatch"
  | .arraySet => do
    regABC fn ins "array set reg out of range"
    arrayElemOf m fn ins "array_set types required" "array_set src type mismatch"
  | .bytesNew => unOf m fn ins "bytes new reg out of range" .bytes .i32 "bytes_new types required"
  | .bytesLen => unOf m fn ins "bytes len reg out of range" .i32 .bytes "bytes_len types required"
  | .bytesGetU8 => binOf m fn ins "bytes get_u8 reg out of range" .i32 .bytes .i32
      "bytes_get_u8 types required"
  | .bytesSetU8 => binOf m fn ins "bytes set_u8 reg out of range" .i32 .bytes .i32
      "bytes_set_u8 types required"
  | .bytesConcat2 => binOf m fn ins "bytes concat2 reg out of range" .bytes .bytes .bytes
      "bytes_concat2 types required"
  | .bytesConcatMany => do
    regAB fn ins "bytes concat_many reg out of range"
    require (rk m fn ins.ra = .bytes) "bytes_concat_many dst must be bytes"
    require (rk m fn ins.rb = .array) "bytes_concat_many src must be array"
    require ((m.type (elemOf m fn ins.rb)).kind = .bytes) "bytes_concat_many requires Array<bytes>"
  | .bytesBitand2 | .bytesBitor2 | .bytesBitxor2 =>
    binOf m fn ins "bytes bitwise2 reg out of range" .bytes .bytes .bytes
      "bytes_bitwise2 types required"
  | .bytesReadU16Le | .bytesReadU16Be | .bytesReadU32Le | .bytesReadU32Be | .bytesReadI32Le
  | .bytesReadI32Be =>
    binOf m fn ins "bytes read reg out of range" .i32 .bytes .i32 "bytes_read types required"
  | .bytesReadF32Le | .bytesReadF32Be =>
    binOf m fn ins "bytes read reg out of range" .f32 .bytes .i32 "bytes_read_f32 types required"
  | .bytesWriteU16Le | .bytesWriteU16Be | .bytesWriteU32Le | .bytesWriteU32Be | .bytesWriteI32Le
  | .bytesWriteI32Be =>
    binOf m fn ins "bytes write reg out of range" .i32 .bytes .i32 "bytes_write types required"
  | .bytesWriteF32Le | .bytesWriteF32Be =>
    binOf m fn ins "bytes write reg out of range" .f32 .bytes .i32 "bytes_write_f32 types required"
  | .bytesEq => binOf m fn ins "bytes eq reg out of range" .bool .bytes .bytes
      "bytes_eq types required"
  | .objNew => do
    regA fn ins "obj new reg out of range"
    require (rk m fn ins.ra = .object) "obj_new dst must be object"
  | .objHasAtom => do
    unOf m fn ins "obj has reg out of range" .bool .object "obj_has types required"
    atomOf m ins "obj_has atom id out of range"
  | .objGetAtom => do
    regAB fn ins "obj get reg out of range"
    require (rk m fn ins.rb = .object) "obj_get src must be object"
    atomOf m ins "obj_get atom id out of range"
  | .objSetAtom => do
    regAB fn ins "obj set reg out of range"
    require (rk m fn ins.rb = .object) "obj_set dst must be object"
    atomOf m ins "obj_set atom id out of range"
  | .objGet => do
    regABC fn ins "obj get reg out of range"
    keyedOf m fn ins "obj_get src must be object" "obj_get key must be atom"
  | .objSet => do
    regABC fn ins "obj set reg out of range"
    keyedOf m fn ins "obj_set dst must be object" "obj_set key must be atom"
  | .objHas => do
    regABC fn ins "obj has reg out of range"
    require (rk m fn ins.ra = .bool) "obj_has dst must be bool"
    keyedOf m fn ins "obj_has src must be object" "obj_has key must be atom"
  | .objRemove => do
    regABC fn ins "obj remove reg out of range"
    require (rk m fn ins.ra = .bool) "obj_remove dst must be bool"
    keyedOf m fn ins "obj_remove src must be object" "obj_remove key must be atom"
  | .objClear => do
    require (ins.rb < fn.nregs) "obj clear reg out of range"
    require (rk m fn ins.rb = .object) "obj_clear src must be object"
  | .objCopy => do
    regAB fn ins "obj copy reg out of range"
    require (rk m fn ins.ra = .object) "obj_copy dst must be object"
    require (rk m fn ins.rb = .object) "obj_copy src must be object"
  | .objKeys => do
    regAB fn ins "obj keys reg out of range"
    require (rk m fn ins.rb = .object) "obj_keys src must be object"
    require (rk m fn ins.ra = .list) "obj_keys dst must be list"
    require (elemOf m fn ins.ra < m.types.length ∧ (m.type (elemOf m fn ins.ra)).kind = .atom)
      "obj_keys list elem must be atom"
  | .arrayConcat2 => do
    binOf m fn ins "array concat2 reg out of range" .array .array .array
      "array_concat2 types required"
    require (fn.regType ins.ra = fn.regType ins.rb ∧ fn.regType ins.ra = fn.regType ins.rc)
      "array_concat2 type mismatch"
  | .arrayResize => do
    require (ins.rb < fn.nregs ∧ ins.rc < fn.nregs) "array resize reg out of range"
    require (rk m fn ins.rb = .array) "array_resize array type required"
    require (rk m fn ins.rc = .i32) "array_resize len must be i32"
  | .enumNew => do
    regA fn ins "enum_new reg out of range"
    require (rk m fn ins.ra = .enum) "enum_new dst must be enum"
    require (ins.rc = 0 ∨ ins.rb + ins.rc - 1 < fn.nregs) "enum_new field reg out of range"
  | .enumTag => do
    regAB fn ins "enum_tag reg out of range"
    require (rk m fn ins.ra = .i32 ∧ isEnumReg m fn ins.rb) "enum_tag types required"
  | .enumGet => do
    regABC fn ins "enum_get reg out of range"
    require (isEnumReg m fn ins.rb ∧ rk m fn ins.rc = .i32) "enum_get types required"

end Insn

/-- Of a table, `left` cases that jump from `tableEnd` are still to come. -/
def switchKindTables (ninsns : ℕ) : ℕ → ℕ → ℕ → List JelloInsn → Verdict
  | _, _, _, [] => pure ()
  | left + 1, tableEnd, pc, ci :: rest => do
    require (ci.op = .caseKind) "switch_kind expects case_kind entries"
    require (jumpTarget tableEnd ci.imm ninsns).isSome "case_kind target out of range"
    switchKindTables ninsns left tableEnd (pc + 1) rest
  | 0, _, pc, ins :: rest =>
    if ins.op = .switchKind then do
      let tableEnd := pc + 1 + ins.rb
      require (tableEnd ≤ ninsns) "switch_kind case table out of range"
      require (jumpTarget tableEnd ins.imm ninsns).isSome "switch_kind default target out of range"
      switchKindTables ninsns ins.rb tableEnd (pc + 1) rest
    else if ins.op = .caseKind then .error "case_kind without switch_kind"
    else switchKindTables ninsns 0 0 (pc + 1) rest

def validateSwitchKindTables (fn : JelloBcFunction) : Verdict :=
  switchKindTables fn.ninsns 0 0 0 fn.insns

def tryStackLinear : ℕ → List JelloInsn → Verdict
  | depth, [] => require (depth = 0) "unterminated try (linear)"
  | depth, ins :: rest =>
    if ins.op = .try_ then tryStackLinear (depth + 1) rest
    else if ins.op = .endtry then do
      require (depth ≠ 0) "endtry without try (linear)"
      tryStackLinear (depth - 1) rest
    else tryStackLinear depth rest

def validateTryStackLinear (fn : JelloBcFunction) : Verdict := tryStackLinear 0 fn.insns

def jelloBcValidateFunctionSemantics (fn : JelloBcFunction) : Verdict := do
  validateSwitchKindTables fn
  validateTryStackLinear fn

def validateInsns (m : JelloBcModule) (fn : JelloBcFunction) : ℕ → List JelloInsn → Verdict
  | _, [] => pure ()
  | pc, ins :: rest => do
    jelloBcValidateInsn m fn ins pc
    validateInsns m fn (pc + 1) rest

def checkAll {α : Type} (check : α → Verdict) : List α → Verdict
  | [] => pure ()
  | x :: xs => do
    check x
    checkAll check xs

/-- The function section of `jello_bc_read`. -/
def validateFunction (m : JelloBcModule) (fn : JelloBcFunction) : Verdict := do
  require (fn.nregs ≤ 256) "nregs > 256"
  checkAll (fun tid ↦ require (tid < m.types.length) "reg type out of range") fn.regTypes
  validateInsns m fn 0 fn.insns
  jelloBcValidateFunctionSemantics fn

def jelloFunVarargsTag : UInt32 := 0x40000000

def validateTypeEntry (m : JelloBcModule) (t : TypeEntry) : Verdict :=
  match t.kind with
  | .list | .array => require (t.param < m.types.length) "bad elem type id"
  | .function =>
    require ((UInt32.ofNat t.param &&& ~~~jelloFunVarargsTag).toNat < m.sigs.length)
      "bad signature id"
  | _ => pure ()

def validateSig (m : JelloBcModule) (sig : FunSig) : Verdict := do
  require (sig.ret < m.types.length) "sig ret type out of range"
  checkAll (fun a ↦ require (a < m.types.length) "sig arg type out of range") sig.args

/-- The checks of `jello_bc_read` on what it has read, in their order. -/
def jelloBcValidate (m : JelloBcModule) : Verdict := do
  require (m.entry < m.funcs.length) "entry out of range"
  checkAll (validateTypeEntry m) m.types
  checkAll (validateSig m) m.sigs
  checkAll (validateFunction m) m.funcs

/-- The module comes from `jello_bc_read`. -/
def Accepted (m : JelloBcModule) : Prop := jelloBcValidate m = .ok ()

instance (m : JelloBcModule) : Decidable (Accepted m) := by
  unfold Accepted
  infer_instance

@[simp] theorem require_ok {c : Prop} [Decidable c] {msg : String} :
    require c msg = .ok () ↔ c := by
  unfold require
  split_ifs with h
  · simp [h]
  · simp [h]

@[simp] theorem verdict_bind_ok {x : Verdict} {f : Unit → Verdict} :
    x >>= f = .ok () ↔ x = .ok () ∧ f () = .ok () := by
  cases x with
  | error e => simp [bind, Except.bind]
  | ok u => simp [bind, Except.bind]

@[simp] theorem verdict_pure_ok : (pure () : Verdict) = .ok () ↔ True := by
  simp [pure, Except.pure]

@[simp] theorem checkAll_ok {α : Type} {check : α → Verdict} {xs : List α} :
    checkAll check xs = .ok () ↔ ∀ x ∈ xs, check x = .ok () := by
  induction xs with
  | nil => simp [checkAll]
  | cons x xs ih => simp [checkAll, ih]

section Accepted

variable {m : JelloBcModule} {fn : JelloBcFunction}

theorem Accepted.function (h : Accepted m) (hfn : fn ∈ m.funcs) :
    validateFunction m fn = .ok () := by
  simp only [Accepted, jelloBcValidate, verdict_bind_ok, checkAll_ok] at h
  exact h.2.2.2 fn hfn

theorem Accepted.nregs_le (h : Accepted m) (hfn : fn ∈ m.funcs) : fn.nregs ≤ 256 := by
  have hf := h.function hfn
  simp only [validateFunction, verdict_bind_ok, require_ok] at hf
  exact hf.1

end Accepted

end JelloVM
