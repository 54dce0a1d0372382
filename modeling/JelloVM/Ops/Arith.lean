import JelloVM.Box

namespace JelloVM

open ByteMemory Logged

def JelloInsn.immC (ins : JelloInsn) : UInt32 := sext8 ins.c.toUInt32

def flag (b : Bool) : UInt32 := if b then 1 else 0

/-- `OP_UN_I32_MASKED` -/
def unI32Masked (e : UInt32 → UInt32) (ctx : Ctx) (ins : JelloInsn) : StoreM Unit := do
  let k ← vmRegKind ctx.m ctx.f ins.ra
  let x ← vmLoadU32 ctx.rf ins.rb
  vmStoreU32Masked ctx.rf ins.ra (e x) k

/-- `OP_BIN_I32_MASKED`; the operator gives `none` where the machine traps. -/
def binI32Masked (e : UInt32 → UInt32 → Option UInt32) (ctx : Ctx) (ins : JelloInsn) :
    StoreM Unit := do
  let k ← vmRegKind ctx.m ctx.f ins.ra
  let a ← vmLoadU32 ctx.rf ins.rb
  let b ← vmLoadU32 ctx.rf ins.rc
  match e a b with
  | some v => vmStoreU32Masked ctx.rf ins.ra v k
  | none => fail .sigfpe

/-- `OP_BIN_I32_IMM_MASKED` -/
def binI32ImmMasked (e : UInt32 → UInt32 → UInt32) (ctx : Ctx) (ins : JelloInsn) :
    StoreM Unit := do
  let k ← vmRegKind ctx.m ctx.f ins.ra
  let a ← vmLoadU32 ctx.rf ins.rb
  vmStoreU32Masked ctx.rf ins.ra (e a ins.immC) k

/-- `OP_UN_I64` and `OP_UN_F64` -/
def un64 (e : UInt64 → UInt64) (ctx : Ctx) (ins : JelloInsn) : StoreM Unit := do
  let x ← vmLoad64 ctx.rf ins.rb
  vmStore64 ctx.rf ins.ra (e x)

/-- `OP_BIN_I64` and `OP_BIN_F64` -/
def bin64 (e : UInt64 → UInt64 → Option UInt64) (ctx : Ctx) (ins : JelloInsn) :
    StoreM Unit := do
  let a ← vmLoad64 ctx.rf ins.rb
  let b ← vmLoad64 ctx.rf ins.rc
  match e a b with
  | some v => vmStore64 ctx.rf ins.ra v
  | none => fail .sigfpe

/-- `OP_UN_F32`, and the conversions between two slots of four bytes -/
def un32 (e : UInt32 → UInt32) (ctx : Ctx) (ins : JelloInsn) : StoreM Unit := do
  let x ← vmLoadU32 ctx.rf ins.rb
  vmStoreU32 ctx.rf ins.ra (e x)

/-- `OP_BIN_F32` -/
def bin32 (e : UInt32 → UInt32 → UInt32) (ctx : Ctx) (ins : JelloInsn) : StoreM Unit := do
  let a ← vmLoadU32 ctx.rf ins.rb
  let b ← vmLoadU32 ctx.rf ins.rc
  vmStoreU32 ctx.rf ins.ra (e a b)

/-- `OP_BIN_F16` -/
def binF16 (e : UInt32 → UInt32 → UInt32) (ctx : Ctx) (ins : JelloInsn) : StoreM Unit := do
  let a ← vmLoadF16Bits ctx.rf ins.rb
  let b ← vmLoadF16Bits ctx.rf ins.rc
  vmStoreF16Bits ctx.rf ins.ra
    (vmF32ToF16Bits (e (vmF16BitsToF32 ctx.fpu a) (vmF16BitsToF32 ctx.fpu b)))

/-- `OP_CMP_I32_IMM` -/
def cmpI32Imm (e : UInt32 → UInt32 → Bool) (ctx : Ctx) (ins : JelloInsn) : StoreM Unit := do
  let a ← vmLoadU32 ctx.rf ins.rb
  vmStoreU32 ctx.rf ins.ra (flag (e a ins.immC))

/-- `OP_CMP_I64` and `OP_CMP_F64` -/
def cmp64 (e : UInt64 → UInt64 → Bool) (ctx : Ctx) (ins : JelloInsn) : StoreM Unit := do
  let a ← vmLoad64 ctx.rf ins.rb
  let b ← vmLoad64 ctx.rf ins.rc
  vmStoreU32 ctx.rf ins.ra (flag (e a b))

/-- A conversion from four bytes to eight. -/
def widen (e : UInt32 → UInt64) (ctx : Ctx) (ins : JelloInsn) : StoreM Unit := do
  let x ← vmLoadU32 ctx.rf ins.rb
  vmStore64 ctx.rf ins.ra (e x)

/-- A conversion from eight bytes to four. -/
def narrow (e : UInt64 → UInt32) (ctx : Ctx) (ins : JelloInsn) : StoreM Unit := do
  let x ← vmLoad64 ctx.rf ins.rb
  vmStoreU32 ctx.rf ins.ra (e x)

/-- `INT_MIN / -1` has no quotient either. -/
def divI32 (a b : UInt32) : Option UInt32 :=
  if b = 0 ∨ (a = 0x80000000 ∧ b = 0xffffffff) then none
  else some (a.toInt32 / b.toInt32).toUInt32

def modI32 (a b : UInt32) : Option UInt32 :=
  if b = 0 ∨ (a = 0x80000000 ∧ b = 0xffffffff) then none
  else some (a.toInt32 % b.toInt32).toUInt32

def divI64 (a b : UInt64) : Option UInt64 :=
  if b = 0 ∨ (a = 0x8000000000000000 ∧ b = 0xffffffffffffffff) then none
  else some (a.toInt64 / b.toInt64).toUInt64

def modI64 (a b : UInt64) : Option UInt64 :=
  if b = 0 ∨ (a = 0x8000000000000000 ∧ b = 0xffffffffffffffff) then none
  else some (a.toInt64 % b.toInt64).toUInt64

def sextI64 (x : UInt32) : UInt64 := x.toInt32.toInt64.toUInt64

def shrI32 (a b : UInt32) : UInt32 := (a.toInt32 >>> (b &&& 31).toInt32).toUInt32

def shrI64 (a b : UInt64) : UInt64 := (a.toInt64 >>> (b &&& 63).toInt64).toUInt64

def opAddI32 (ctx : Ctx) (ins : JelloInsn) : StoreM Unit :=
  binI32Masked (fun a b ↦ some (a + b)) ctx ins

def opSubI32 (ctx : Ctx) (ins : JelloInsn) : StoreM Unit :=
  binI32Masked (fun a b ↦ some (a - b)) ctx ins

def opMulI32 (ctx : Ctx) (ins : JelloInsn) : StoreM Unit :=
  binI32Masked (fun a b ↦ some (a * b)) ctx ins

def opDivI32 (ctx : Ctx) (ins : JelloInsn) : StoreM Unit := binI32Masked divI32 ctx ins

def opModI32 (ctx : Ctx) (ins : JelloInsn) : StoreM Unit := binI32Masked modI32 ctx ins

def opShlI32 (ctx : Ctx) (ins : JelloInsn) : StoreM Unit :=
  binI32Masked (fun a b ↦ some (a <<< (b &&& 31))) ctx ins

def opShrI32 (ctx : Ctx) (ins : JelloInsn) : StoreM Unit :=
  binI32Masked (fun a b ↦ some (shrI32 a b)) ctx ins

def opAddI32Imm (ctx : Ctx) (ins : JelloInsn) : StoreM Unit :=
  binI32ImmMasked (fun a i ↦ a + i) ctx ins

def opSubI32Imm (ctx : Ctx) (ins : JelloInsn) : StoreM Unit :=
  binI32ImmMasked (fun a i ↦ a - i) ctx ins

def opMulI32Imm (ctx : Ctx) (ins : JelloInsn) : StoreM Unit :=
  binI32ImmMasked (fun a i ↦ a * i) ctx ins

def opAddI64 (ctx : Ctx) (ins : JelloInsn) : StoreM Unit := bin64 (fun a b ↦ some (a + b)) ctx ins

def opSubI64 (ctx : Ctx) (ins : JelloInsn) : StoreM Unit := bin64 (fun a b ↦ some (a - b)) ctx ins

def opMulI64 (ctx : Ctx) (ins : JelloInsn) : StoreM Unit := bin64 (fun a b ↦ some (a * b)) ctx ins

def opDivI64 (ctx : Ctx) (ins : JelloInsn) : StoreM Unit := bin64 divI64 ctx ins

def opModI64 (ctx : Ctx) (ins : JelloInsn) : StoreM Unit := bin64 modI64 ctx ins

def opShlI64 (ctx : Ctx) (ins : JelloInsn) : StoreM Unit :=
  bin64 (fun a b ↦ some (a <<< (b &&& 63))) ctx ins

def opShrI64 (ctx : Ctx) (ins : JelloInsn) : StoreM Unit :=
  bin64 (fun a b ↦ some (shrI64 a b)) ctx ins

def opAddF16 (ctx : Ctx) (ins : JelloInsn) : StoreM Unit := binF16 ctx.fpu.add32 ctx ins

def opSubF16 (ctx : Ctx) (ins : JelloInsn) : StoreM Unit := binF16 ctx.fpu.sub32 ctx ins

def opMulF16 (ctx : Ctx) (ins : JelloInsn) : StoreM Unit := binF16 ctx.fpu.mul32 ctx ins

def opAddF32 (ctx : Ctx) (ins : JelloInsn) : StoreM Unit := bin32 ctx.fpu.add32 ctx ins

def opSubF32 (ctx : Ctx) (ins : JelloInsn) : StoreM Unit := bin32 ctx.fpu.sub32 ctx ins

def opMulF32 (ctx : Ctx) (ins : JelloInsn) : StoreM Unit := bin32 ctx.fpu.mul32 ctx ins

def opDivF32 (ctx : Ctx) (ins : JelloInsn) : StoreM Unit := bin32 ctx.fpu.div32 ctx ins

def opAddF64 (ctx : Ctx) (ins : JelloInsn) : StoreM Unit :=
  bin64 (fun a b ↦ some (ctx.fpu.add64 a b)) ctx ins

def opSubF64 (ctx : Ctx) (ins : JelloInsn) : StoreM Unit :=
  bin64 (fun a b ↦ some (ctx.fpu.sub64 a b)) ctx ins

def opMulF64 (ctx : Ctx) (ins : JelloInsn) : StoreM Unit :=
  bin64 (fun a b ↦ some (ctx.fpu.mul64 a b)) ctx ins

def opDivF64 (ctx : Ctx) (ins : JelloInsn) : StoreM Unit :=
  bin64 (fun a b ↦ some (ctx.fpu.div64 a b)) ctx ins

def opNegI32 (ctx : Ctx) (ins : JelloInsn) : StoreM Unit := unI32Masked (fun x ↦ 0 - x) ctx ins

def opNegI64 (ctx : Ctx) (ins : JelloInsn) : StoreM Unit := un64 (fun x ↦ 0 - x) ctx ins

def opNegF32 (ctx : Ctx) (ins : JelloInsn) : StoreM Unit := un32 ctx.fpu.neg32 ctx ins

def opNegF64 (ctx : Ctx) (ins : JelloInsn) : StoreM Unit := un64 ctx.fpu.neg64 ctx ins

def opNotBool (ctx : Ctx) (ins : JelloInsn) : StoreM Unit := un32 (fun x ↦ flag (x == 0)) ctx ins

def opEqI32 (ctx : Ctx) (ins : JelloInsn) : StoreM Unit :=
  bin32 (fun a b ↦ flag (i32 a == i32 b)) ctx ins

def opLtI32 (ctx : Ctx) (ins : JelloInsn) : StoreM Unit :=
  bin32 (fun a b ↦ flag (i32 a < i32 b)) ctx ins

def opEqI32Imm (ctx : Ctx) (ins : JelloInsn) : StoreM Unit :=
  cmpI32Imm (fun a i ↦ i32 a == i32 i) ctx ins

def opLtI32Imm (ctx : Ctx) (ins : JelloInsn) : StoreM Unit :=
  cmpI32Imm (fun a i ↦ i32 a < i32 i) ctx ins

def opEqI64 (ctx : Ctx) (ins : JelloInsn) : StoreM Unit := cmp64 (fun a b ↦ i64 a == i64 b) ctx ins

def opLtI64 (ctx : Ctx) (ins : JelloInsn) : StoreM Unit := cmp64 (fun a b ↦ i64 a < i64 b) ctx ins

def opEqF32 (ctx : Ctx) (ins : JelloInsn) : StoreM Unit :=
  bin32 (fun a b ↦ flag (ctx.fpu.eq32 a b)) ctx ins

def opLtF32 (ctx : Ctx) (ins : JelloInsn) : StoreM Unit :=
  bin32 (fun a b ↦ flag (ctx.fpu.lt32 a b)) ctx ins

def opEqF64 (ctx : Ctx) (ins : JelloInsn) : StoreM Unit := cmp64 ctx.fpu.eq64 ctx ins

def opLtF64 (ctx : Ctx) (ins : JelloInsn) : StoreM Unit := cmp64 ctx.fpu.lt64 ctx ins

def opSextI64 (ctx : Ctx) (ins : JelloInsn) : StoreM Unit := widen sextI64 ctx ins

def opSextI16 (ctx : Ctx) (ins : JelloInsn) : StoreM Unit := un32 sext8 ctx ins

def opTruncI8 (ctx : Ctx) (ins : JelloInsn) : StoreM Unit := un32 (mask .i8) ctx ins

def opTruncI16 (ctx : Ctx) (ins : JelloInsn) : StoreM Unit := un32 (mask .i16) ctx ins

def opI32FromI64 (ctx : Ctx) (ins : JelloInsn) : StoreM Unit := narrow UInt64.toUInt32 ctx ins

def opF64FromI32 (ctx : Ctx) (ins : JelloInsn) : StoreM Unit := widen ctx.fpu.f64FromI32 ctx ins

def opF64FromI64 (ctx : Ctx) (ins : JelloInsn) : StoreM Unit := un64 ctx.fpu.f64FromI64 ctx ins

def opF32FromI32 (ctx : Ctx) (ins : JelloInsn) : StoreM Unit := un32 ctx.fpu.f32FromI32 ctx ins

def opF64FromF32 (ctx : Ctx) (ins : JelloInsn) : StoreM Unit := widen ctx.fpu.f64FromF32 ctx ins

def opF32FromF64 (ctx : Ctx) (ins : JelloInsn) : StoreM Unit := narrow ctx.fpu.f32FromF64 ctx ins

def opF32FromI64 (ctx : Ctx) (ins : JelloInsn) : StoreM Unit := narrow ctx.fpu.f32FromI64 ctx ins

def opF16FromF32 (ctx : Ctx) (ins : JelloInsn) : StoreM Unit :=
  un32 (fun x ↦ (vmF32ToF16Bits x).toUInt32) ctx ins

def opF32FromF16 (ctx : Ctx) (ins : JelloInsn) : StoreM Unit :=
  un32 (fun x ↦ vmF16BitsToF32 ctx.fpu x.toUInt16) ctx ins

def opF16FromI32 (ctx : Ctx) (ins : JelloInsn) : StoreM Unit :=
  un32 (fun x ↦ (vmF32ToF16Bits (ctx.fpu.f32FromI32 x)).toUInt32) ctx ins

/-- The conversions that trap on numbers out of range, from a slot of four bytes. -/
def checkedI32From32 (e : UInt32 → UInt64) (ctx : Ctx) (ins : JelloInsn) : StoreM Unit := do
  let x ← vmLoadU32 ctx.rf ins.rb
  match ← vmCheckedF64ToI32 ctx.fpu (e x) with
  | some v => vmStoreU32 ctx.rf ins.ra v
  | none => pure ()

def opI32FromF64 (ctx : Ctx) (ins : JelloInsn) : StoreM Unit := do
  let x ← vmLoadF64 ctx.rf ins.rb
  match ← vmCheckedF64ToI32 ctx.fpu x with
  | some v => vmStoreU32 ctx.rf ins.ra v
  | none => pure ()

def opI64FromF64 (ctx : Ctx) (ins : JelloInsn) : StoreM Unit := do
  let x ← vmLoadF64 ctx.rf ins.rb
  match ← vmCheckedF64ToI64 ctx.fpu x with
  | some v => vmStoreI64 ctx.rf ins.ra v
  | none => pure ()

def opI32FromF32 (ctx : Ctx) (ins : JelloInsn) : StoreM Unit :=
  checkedI32From32 ctx.fpu.f64FromF32 ctx ins

def opI32FromF16 (ctx : Ctx) (ins : JelloInsn) : StoreM Unit :=
  checkedI32From32 (fun x ↦ ctx.fpu.f64FromF32 (vmF16BitsToF32 ctx.fpu x.toUInt16)) ctx ins

def opI64FromF32 (ctx : Ctx) (ins : JelloInsn) : StoreM Unit := do
  let x ← vmLoadF32 ctx.rf ins.rb
  match ← vmCheckedF64ToI64 ctx.fpu (ctx.fpu.f64FromF32 x) with
  | some v => vmStoreI64 ctx.rf ins.ra v
  | none => pure ()

def opBitandI32 (ctx : Ctx) (ins : JelloInsn) : StoreM Unit :=
  binI32Masked (fun a b ↦ some (a &&& b)) ctx ins

def opBitandI64 (ctx : Ctx) (ins : JelloInsn) : StoreM Unit :=
  bin64 (fun a b ↦ some (a &&& b)) ctx ins

def opBitorI32 (ctx : Ctx) (ins : JelloInsn) : StoreM Unit :=
  binI32Masked (fun a b ↦ some (a ||| b)) ctx ins

def opBitorI64 (ctx : Ctx) (ins : JelloInsn) : StoreM Unit :=
  bin64 (fun a b ↦ some (a ||| b)) ctx ins

def opBitxorI32 (ctx : Ctx) (ins : JelloInsn) : StoreM Unit :=
  binI32Masked (fun a b ↦ some (a ^^^ b)) ctx ins

def opBitxorI64 (ctx : Ctx) (ins : JelloInsn) : StoreM Unit :=
  bin64 (fun a b ↦ some (a ^^^ b)) ctx ins

end JelloVM
