import JelloVM.Handlers
import JelloVM.Validated

namespace JelloVM

open ByteMemory Logged

inductive Division
  | divI32
  | modI32
  | divI64
  | modI64
  deriving DecidableEq, Repr

namespace Division

def op : Division → JelloOp
  | divI32 => .divI32
  | modI32 => .modI32
  | divI64 => .divI64
  | modI64 => .modI64

def bits : Division → ℕ
  | divI32 | modI32 => 32
  | divI64 | modI64 => 64

def operand (d : Division) (rf : RegFrame) (r : ℕ) (s : Store) : ℤ :=
  match d with
  | divI32 | modI32 => i32 (load32 s.mem (rf.addr r))
  | divI64 | modI64 => i64 (load64 s.mem (rf.addr r))

/-- The quotient is truncated, and the remainder has the sign of the dividend. -/
def answer (d : Division) (a b : ℤ) : ℤ :=
  match d with
  | divI32 | divI64 => a.tdiv b
  | modI32 | modI64 => a.tmod b

/-- The operands that the machine refuses. -/
def Refused (d : Division) (a b : ℤ) : Prop := b = 0 ∨ (a = -2 ^ (d.bits - 1) ∧ b = -1)

instance (d : Division) (a b : ℤ) : Decidable (d.Refused a b) := inferInstanceAs (Decidable (_ ∨ _))

end Division

def Kind.intBits : Kind → ℕ
  | .i8 => 8
  | .i16 => 16
  | .i64 => 64
  | _ => 32

/-- The instruction ends with a new exception, or with the answer in the width of the destination. -/
def Division.Delivers (d : Division) (ctx : Ctx) (ins : JelloInsn) (s : Store) : Prop :=
  ∃ s', result (dataOp d.op ctx ins) s = .ok ((), s') ∧
    ((s.excPending = false ∧ s'.excPending = true) ∨
      d.operand ctx.rf ins.ra s' =
        (d.answer (d.operand ctx.rf ins.rb s) (d.operand ctx.rf ins.rc s)).bmod
          (2 ^ (regKind ctx.m ctx.f ins.ra).intBits))

section Arithmetic

theorem i32_injective : Function.Injective i32 := fun _ _ h ↦
  UInt32.toBitVec_inj.mp (BitVec.toInt_inj.mp h)

theorem i64_injective : Function.Injective i64 := fun _ _ h ↦
  UInt64.toBitVec_inj.mp (BitVec.toInt_inj.mp h)

theorem i32_mask (k : Kind) (hk : k.isInt32 = true) (x : UInt32) :
    i32 (mask k x) = (i32 x).bmod (2 ^ k.intBits) := by
  have hsize : i32 x = (i32 x).bmod (2 ^ 32) := (BitVec.toInt_bmod_cancel x.toBitVec).symm
  cases k with
  | i8 =>
    have hlow : i32 (sext8 x) = x.toUInt8.toInt8.toInt := Int8.toInt_toInt32 _
    have htoInt : x.toUInt8.toInt8.toInt = (x.toNat : ℤ).bmod (2 ^ 8) := by
      change (x.toBitVec.setWidth 8).toInt = _
      rw [BitVec.toInt_setWidth]
      rfl
    have hx : (i32 x).bmod (2 ^ 8) = (x.toNat : ℤ).bmod (2 ^ 8) := by
      have hnat : i32 x = (x.toNat : ℤ).bmod (2 ^ 32) := BitVec.toInt_eq_toNat_bmod _
      rw [hnat]
      exact Int.bmod_bmod_of_dvd (by decide)
    exact (hlow.trans htoInt).trans hx.symm
  | i16 =>
    have hlow : i32 (sext16 x) = x.toUInt16.toInt16.toInt := Int16.toInt_toInt32 _
    have htoInt : x.toUInt16.toInt16.toInt = (x.toNat : ℤ).bmod (2 ^ 16) := by
      change (x.toBitVec.setWidth 16).toInt = _
      rw [BitVec.toInt_setWidth]
      rfl
    have hx : (i32 x).bmod (2 ^ 16) = (x.toNat : ℤ).bmod (2 ^ 16) := by
      have hnat : i32 x = (x.toNat : ℤ).bmod (2 ^ 32) := BitVec.toInt_eq_toNat_bmod _
      rw [hnat]
      exact Int.bmod_bmod_of_dvd (by decide)
    exact (hlow.trans htoInt).trans hx.symm
  | i32 => exact hsize
  | _ => simp [Kind.isInt32] at hk

theorem i32_eq_zero {x : UInt32} : i32 x = 0 ↔ x = 0 :=
  ⟨fun h ↦ i32_injective (h.trans (by decide)), fun h ↦ by rw [h]; decide⟩

theorem i64_eq_zero {x : UInt64} : i64 x = 0 ↔ x = 0 :=
  ⟨fun h ↦ i64_injective (h.trans (by decide)), fun h ↦ by rw [h]; decide⟩

theorem refused32 {d : Division} (hd : d.bits = 32) {a b : UInt32} :
    d.Refused (i32 a) (i32 b) ↔ b = 0 ∨ (a = 0x80000000 ∧ b = 0xffffffff) := by
  have hmin : i32 a = -2 ^ (32 - 1) ↔ a = 0x80000000 :=
    ⟨fun h ↦ i32_injective (h.trans (by decide)), fun h ↦ by rw [h]; decide⟩
  have hone : i32 b = -1 ↔ b = 0xffffffff :=
    ⟨fun h ↦ i32_injective (h.trans (by decide)), fun h ↦ by rw [h]; decide⟩
  rw [Division.Refused, hd, i32_eq_zero, hmin, hone]

theorem refused64 {d : Division} (hd : d.bits = 64) {a b : UInt64} :
    d.Refused (i64 a) (i64 b) ↔ b = 0 ∨ (a = 0x8000000000000000 ∧ b = 0xffffffffffffffff) := by
  have hmin : i64 a = -2 ^ (64 - 1) ↔ a = 0x8000000000000000 :=
    ⟨fun h ↦ i64_injective (h.trans (by decide)), fun h ↦ by rw [h]; decide⟩
  have hone : i64 b = -1 ↔ b = 0xffffffffffffffff :=
    ⟨fun h ↦ i64_injective (h.trans (by decide)), fun h ↦ by rw [h]; decide⟩
  rw [Division.Refused, hd, i64_eq_zero, hmin, hone]

end Arithmetic

section Handlers

variable {ctx : Ctx} {ins : JelloInsn} {s : Store}

theorem result_binI32Masked (e : UInt32 → UInt32 → Option UInt32) :
    result (binI32Masked e ctx ins) s =
      (e (load32 s.mem (ctx.rf.addr ins.rb)) (load32 s.mem (ctx.rf.addr ins.rc))).elim
        (.error .sigfpe) fun v ↦ .ok ((), { s with
          mem := store32 s.mem (ctx.rf.addr ins.ra) (mask (regKind ctx.m ctx.f ins.ra) v) }) := by
  simp only [binI32Masked, vmRegKind, regTypeOf, typeOf, vmLoadU32, vmStoreU32Masked, vmStoreU32,
    result_bind, result_note, result_read, result_pure, Except.bind]
  cases e (load32 s.mem (ctx.rf.addr ins.rb)) (load32 s.mem (ctx.rf.addr ins.rc)) with
  | none => rfl
  | some v => rfl

theorem result_bin64 (e : UInt64 → UInt64 → Option UInt64) :
    result (bin64 e ctx ins) s =
      (e (load64 s.mem (ctx.rf.addr ins.rb)) (load64 s.mem (ctx.rf.addr ins.rc))).elim
        (.error .sigfpe) fun v ↦ .ok ((), { s with
          mem := store64 s.mem (ctx.rf.addr ins.ra) v }) := by
  simp only [bin64, vmLoad64, vmStore64, result_bind, result_note, result_read, Except.bind]
  cases e (load64 s.mem (ctx.rf.addr ins.rb)) (load64 s.mem (ctx.rf.addr ins.rc)) with
  | none => rfl
  | some v => rfl

structure Divides32 (d : Division) (e : UInt32 → UInt32 → Option UInt32) : Prop where
  bits : d.bits = 32
  handler : dataOp d.op = binI32Masked e
  operand : ∀ rf r s, d.operand rf r s = i32 (load32 s.mem (rf.addr r))
  refuses : ∀ a b, e a b = none ↔ b = 0 ∨ (a = 0x80000000 ∧ b = 0xffffffff)
  answers : ∀ a b v, e a b = some v → i32 v = (d.answer (i32 a) (i32 b)).bmod (2 ^ 32)

theorem divides_divI32 : Divides32 .divI32 divI32 where
  bits := rfl
  handler := rfl
  operand _ _ _ := rfl
  refuses a b := by simp [divI32, or_iff_not_imp_left]
  answers a b v h := by
    simp only [divI32, Option.ite_none_left_eq_some, Option.some.injEq] at h
    rw [← h.2]
    exact Int32.toInt_div _ _

theorem divides_modI32 : Divides32 .modI32 modI32 where
  bits := rfl
  handler := rfl
  operand _ _ _ := rfl
  refuses a b := by simp [modI32, or_iff_not_imp_left]
  answers a b v h := by
    simp only [modI32, Option.ite_none_left_eq_some, Option.some.injEq] at h
    rw [← h.2]
    have hmod := Int32.toInt_mod a.toInt32 b.toInt32
    have hsize := BitVec.toInt_bmod_cancel (a.toInt32 % b.toInt32).toBitVec
    exact hsize.symm.trans (congrArg (fun z : ℤ ↦ z.bmod (2 ^ 32)) hmod)

theorem delivers32_iff {d : Division} {e : UInt32 → UInt32 → Option UInt32} (h : Divides32 d e)
    (hk : (regKind ctx.m ctx.f ins.ra).isInt32 = true) :
    d.Delivers ctx ins s ↔
      ¬ d.Refused (d.operand ctx.rf ins.rb s) (d.operand ctx.rf ins.rc s) := by
  simp only [Division.Delivers, h.handler, h.operand, result_binI32Masked, refused32 h.bits,
    ← h.refuses]
  cases he : e (load32 s.mem (ctx.rf.addr ins.rb)) (load32 s.mem (ctx.rf.addr ins.rc)) with
  | none => simp
  | some v =>
    refine iff_of_true ⟨_, rfl, .inr ?_⟩ (by simp)
    have hdvd : (2 : ℕ) ^ (regKind ctx.m ctx.f ins.ra).intBits ∣ 2 ^ 32 := by
      cases hkind : regKind ctx.m ctx.f ins.ra <;> simp [hkind, Kind.isInt32] at hk <;> decide
    rw [load32_store32, i32_mask _ hk, h.answers _ _ _ he]
    exact Int.bmod_bmod_of_dvd hdvd

structure Divides64 (d : Division) (e : UInt64 → UInt64 → Option UInt64) : Prop where
  bits : d.bits = 64
  handler : dataOp d.op = bin64 e
  operand : ∀ rf r s, d.operand rf r s = i64 (load64 s.mem (rf.addr r))
  refuses : ∀ a b, e a b = none ↔ b = 0 ∨ (a = 0x8000000000000000 ∧ b = 0xffffffffffffffff)
  answers : ∀ a b v, e a b = some v → i64 v = (d.answer (i64 a) (i64 b)).bmod (2 ^ 64)

theorem divides_divI64 : Divides64 .divI64 divI64 where
  bits := rfl
  handler := rfl
  operand _ _ _ := rfl
  refuses a b := by simp [divI64, or_iff_not_imp_left]
  answers a b v h := by
    simp only [divI64, Option.ite_none_left_eq_some, Option.some.injEq] at h
    rw [← h.2]
    exact Int64.toInt_div _ _

theorem divides_modI64 : Divides64 .modI64 modI64 where
  bits := rfl
  handler := rfl
  operand _ _ _ := rfl
  refuses a b := by simp [modI64, or_iff_not_imp_left]
  answers a b v h := by
    simp only [modI64, Option.ite_none_left_eq_some, Option.some.injEq] at h
    rw [← h.2]
    have hmod := Int64.toInt_mod a.toInt64 b.toInt64
    have hsize := BitVec.toInt_bmod_cancel (a.toInt64 % b.toInt64).toBitVec
    exact hsize.symm.trans (congrArg (fun z : ℤ ↦ z.bmod (2 ^ 64)) hmod)

theorem delivers64_iff {d : Division} {e : UInt64 → UInt64 → Option UInt64} (h : Divides64 d e)
    (hk : regKind ctx.m ctx.f ins.ra = .i64) :
    d.Delivers ctx ins s ↔
      ¬ d.Refused (d.operand ctx.rf ins.rb s) (d.operand ctx.rf ins.rc s) := by
  simp only [Division.Delivers, h.handler, h.operand, result_bin64, refused64 h.bits, ← h.refuses]
  cases he : e (load64 s.mem (ctx.rf.addr ins.rb)) (load64 s.mem (ctx.rf.addr ins.rc)) with
  | none => simp
  | some v =>
    refine iff_of_true ⟨_, rfl, .inr ?_⟩ (by simp)
    rw [load64_store64, h.answers _ _ _ he, hk]
    rfl

/-- A division that the loader accepts fails exactly on the operands that the machine refuses. -/
theorem division_delivers_iff (d : Division) {pc : ℕ} (hop : ins.op = d.op)
    (hval : jelloBcValidateInsn ctx.m ctx.fn ins pc = .ok ()) :
    d.Delivers ctx ins s ↔
      ¬ d.Refused (d.operand ctx.rf ins.rb s) (d.operand ctx.rf ins.rc s) := by
  cases d with
  | divI32 =>
    simp only [jelloBcValidateInsn, hop, Division.op, verdict_bind_ok, require_ok] at hval
    exact delivers32_iff divides_divI32 hval.2.1
  | modI32 =>
    simp only [jelloBcValidateInsn, hop, Division.op, verdict_bind_ok, require_ok] at hval
    exact delivers32_iff divides_modI32 hval.2.1
  | divI64 =>
    simp only [jelloBcValidateInsn, hop, Division.op, arithOf, binOf, verdict_bind_ok,
      require_ok] at hval
    exact delivers64_iff divides_divI64 hval.2.1
  | modI64 =>
    simp only [jelloBcValidateInsn, hop, Division.op, arithOf, binOf, verdict_bind_ok,
      require_ok] at hval
    exact delivers64_iff divides_modI64 hval.2.1

end Handlers

/-- A number of 32 bits, the divisor `y` of 32 bits, and the quotient in 8 bits. -/
def divModule (x y : UInt32) : JelloBcModule :=
  { tailTryModule with
    types := [⟨.i8, 0⟩, ⟨.i32, 0⟩]
    funcs :=
      [{ regTypes := [0, 1, 1]
         capStart := 0
         insns := [{ op := .constI32, a := 1, b := 0, c := 0, imm := x },
           { op := .constI32, a := 2, b := 0, c := 0, imm := y },
           { op := .divI32, a := 0, b := 1, c := 2, imm := 0 },
           { op := .ret, a := 0, b := 0, c := 0, imm := 0 }]
         sourceFile := 0
         lines := [] }] }

def divInsn : JelloInsn := { op := .divI32, a := 0, b := 1, c := 2, imm := 0 }

def divCtx (x y : UInt32) : Ctx :=
  { m := divModule x y
    fpu := default
    f := 0
    rf := (vmGetFrameLayout (divModule x y) 0).frame 4096
    pc := 3 }

def divStore (x y : UInt32) : Store :=
  { jelloVmCreate.store with
    mem := store32 (store32 jelloVmCreate.store.mem ((divCtx x y).rf.addr 1) x)
      ((divCtx x y).rf.addr 2) y }

/-- The quotient of -1000 by 3 in eight bits. -/
theorem division_delivers_quotient :
    Division.divI32.Delivers (divCtx (-1000) 3) divInsn (divStore (-1000) 3) := by
  have hval : jelloBcValidateInsn (divCtx (-1000) 3).m (divCtx (-1000) 3).fn divInsn 2 = .ok () := by
    decide
  exact (division_delivers_iff .divI32 rfl hval).mpr (by decide +kernel)

/-- Two accepted modules whose runs end in the division. -/
theorem division_faults :
    (Accepted (divModule 1 0) ∧ ¬ Division.divI32.Delivers (divCtx 1 0) divInsn (divStore 1 0) ∧
      faultOf (runTo (.alone (divModule 1 0)) false .switch 3) jelloVmCreate = some .sigfpe) ∧
    (Accepted (divModule 0x80000000 0xffffffff) ∧
      faultOf (runTo (.alone (divModule 0x80000000 0xffffffff)) false .switch 3) jelloVmCreate =
        some .sigfpe) := by
  refine ⟨⟨by decide, fun h ↦ ?_, by decide +kernel⟩, by decide, by decide +kernel⟩
  have hrefused : Division.divI32.Refused
      (Division.divI32.operand (divCtx 1 0).rf divInsn.rb (divStore 1 0))
      (Division.divI32.operand (divCtx 1 0).rf divInsn.rc (divStore 1 0)) := by decide +kernel
  exact (delivers32_iff divides_divI32 (by decide)).mp h hrefused

end JelloVM
