import JelloVM.RegSpec
import JelloVM.ExecLoop

namespace JelloVM

open ByteMemory Logged

/-- A trap of the machine is pending: its payload is its code. -/
structure Trapped (s : Store) : Prop where
  pending : s.excPending = true
  notNone : s.trapCode ≠ .none
  notThrown : s.trapCode ≠ .thrown
  payload : s.excPayload = jelloMakeI32 s.trapCode.code

/-- The exception that is pending has stayed as it was. -/
structure SameTrap (s s' : Store) : Prop where
  pending : s'.excPending = s.excPending
  code : s'.trapCode = s.trapCode
  msg : s'.trapMsg = s.trapMsg
  payload : s'.excPayload = s.excPayload

/-- No fuel was taken, and if an exception was raised it is a trap. -/
structure Calm (s s' : Store) : Prop where
  fuelLimit : s'.fuelLimit = s.fuelLimit
  fuelRemaining : s'.fuelRemaining = s.fuelRemaining
  trap : SameTrap s s' ∨ Trapped s'

/-- Only registers, the heap and the caches have changed. -/
structure Still (s s' : Store) : Prop where
  fuelLimit : s'.fuelLimit = s.fuelLimit
  fuelRemaining : s'.fuelRemaining = s.fuelRemaining
  trap : SameTrap s s'
  spill : s'.spill = s.spill

/-- The spill stack has stayed as it was too. -/
structure Quiet (s s' : Store) : Prop extends Calm s s' where
  spill : s'.spill = s.spill

theorem SameTrap.trans {s s' s'' : Store} (h : SameTrap s s') (h' : SameTrap s' s'') :
    SameTrap s s'' :=
  ⟨h'.pending.trans h.pending, h'.code.trans h.code, h'.msg.trans h.msg,
    h'.payload.trans h.payload⟩

theorem SameTrap.trapped {s s' : Store} (h : SameTrap s s') (ht : Trapped s) : Trapped s' :=
  ⟨h.pending.trans ht.pending, h.code ▸ ht.notNone, h.code ▸ ht.notThrown,
    by rw [h.payload, h.code, ht.payload]⟩

theorem Calm.trans {s s' s'' : Store} (h : Calm s s') (h' : Calm s' s'') : Calm s s'' := by
  refine ⟨h'.fuelLimit.trans h.fuelLimit, h'.fuelRemaining.trans h.fuelRemaining, ?_⟩
  obtain hsame' | htrap' := h'.trap
  · obtain hsame | htrap := h.trap
    · exact .inl (hsame.trans hsame')
    · exact .inr (hsame'.trapped htrap)
  · exact .inr htrap'

instance : IsPreorder Store Calm where
  refl _ := ⟨rfl, rfl, .inl ⟨rfl, rfl, rfl, rfl⟩⟩
  trans _ _ _ := Calm.trans

instance : IsPreorder Store Quiet where
  refl s := ⟨refl_of Calm s, rfl⟩
  trans _ _ _ h h' := ⟨h.toCalm.trans h'.toCalm, h'.spill.trans h.spill⟩

/-- What programs on registers, the heap and the caches keep. -/
class Lenient (R : Store → Store → Prop) : Prop extends IsPreorder Store R where
  still {s s' : Store} (h : Still s s') : R s s'

instance : Lenient Still where
  refl _ := ⟨rfl, rfl, ⟨rfl, rfl, rfl, rfl⟩, rfl⟩
  trans _ _ _ h h' := ⟨h'.fuelLimit.trans h.fuelLimit, h'.fuelRemaining.trans h.fuelRemaining,
    h.trap.trans h'.trap, h'.spill.trans h.spill⟩
  still h := h

instance : Lenient Quiet where
  still h := ⟨⟨h.fuelLimit, h.fuelRemaining, .inl h.trap⟩, h.spill⟩

theorem Still.quiet {s s' : Store} (h : Still s s') : Quiet s s' := Lenient.still h

theorem lenient_data {R : Store → Store → Prop} [Lenient R] {s s' : Store}
    (hl : s'.fuelLimit = s.fuelLimit) (hr : s'.fuelRemaining = s.fuelRemaining)
    (ht : SameTrap s s') (hs : s'.spill = s.spill) : R s s' :=
  Lenient.still ⟨hl, hr, ht, hs⟩

section Primitives

variable {P : Access → Prop} {R : Store → Store → Prop} [Lenient R] {m : JelloBcModule} {f r : ℕ}
  {rf : RegFrame} {ctx : Ctx}

theorem keeps_vmLoadU32 (h : P (.slot rf r 4)) : Keeps P R (vmLoadU32 rf r) :=
  fun s ↦ spec_vmLoadU32.mpr ⟨h, refl_of R s⟩

theorem keeps_vmLoad64 (h : P (.slot rf r 8)) : Keeps P R (vmLoad64 rf r) :=
  fun s ↦ spec_vmLoad64.mpr ⟨h, refl_of R s⟩

theorem keeps_vmLoadF16Bits (h : P (.slot rf r 4)) : Keeps P R (vmLoadF16Bits rf r) :=
  fun s ↦ spec_vmLoadF16Bits.mpr ⟨h, refl_of R s⟩

theorem keeps_vmStoreU32 (h : P (.slot rf r 4)) (v : UInt32) : Keeps P R (vmStoreU32 rf r v) :=
  fun _ ↦ spec_vmStoreU32.mpr ⟨h, lenient_data rfl rfl ⟨rfl, rfl, rfl, rfl⟩ rfl⟩

theorem keeps_vmStore64 (h : P (.slot rf r 8)) (v : UInt64) : Keeps P R (vmStore64 rf r v) :=
  fun _ ↦ spec_vmStore64.mpr ⟨h, lenient_data rfl rfl ⟨rfl, rfl, rfl, rfl⟩ rfl⟩

theorem keeps_copySlot {dst src : RegFrame} {d sz : ℕ} (hsrc : P (.slot src r sz))
    (hdst : P (.slot dst d sz)) : Keeps P R (copySlot dst d src r sz) :=
  fun _ ↦ spec_copySlot.mpr ⟨hsrc, hdst, lenient_data rfl rfl ⟨rfl, rfl, rfl, rfl⟩ rfl⟩

theorem keeps_regTypeOf (h : P (.regType f r)) : Keeps P R (regTypeOf m f r) :=
  fun s ↦ spec_regTypeOf.mpr ⟨h, refl_of R s⟩

theorem keeps_typeOf {tid : ℕ} (h : P (.entry .types tid m.types.length)) :
    Keeps P R (typeOf m tid) := fun s ↦ spec_typeOf.mpr ⟨h, refl_of R s⟩

theorem keeps_vmRegKind (h : RegOk P m f rf r) : Keeps P R (vmRegKind m f r) :=
  fun s ↦ spec_vmRegKind.mpr ⟨h.regType, h.entry, refl_of R s⟩

theorem keeps_gcAlloc (c : Cell) : Keeps P R (gcAlloc c) :=
  fun _ ↦ spec_gcAlloc.mpr (lenient_data rfl rfl ⟨rfl, rfl, rfl, rfl⟩ rfl)

theorem keeps_writeCell (p : JelloValue) (c : Cell) : Keeps P R (writeCell p c) :=
  fun _ ↦ spec_writeCell.mpr (lenient_data rfl rfl ⟨rfl, rfl, rfl, rfl⟩ rfl)

theorem keeps_cellAt (p : JelloValue) : Keeps P R (cellAt p) :=
  fun s ↦ spec_cellAt fun _ _ ↦ refl_of R s

theorem keeps_setTrap {code : TrapCode} {msg : Option (List UInt8)} (hnone : code ≠ .none)
    (hthrown : code ≠ .thrown) :
    Keeps P Quiet (setTrap code msg (jelloMakeI32 code.code)) :=
  fun _ ↦ spec_setTrap.mpr ⟨⟨rfl, rfl, .inr ⟨rfl, hnone, hthrown, rfl⟩⟩, rfl⟩

theorem keeps_jelloVmTrap {code : TrapCode} (msg : String) (hnone : code ≠ .none)
    (hthrown : code ≠ .thrown) : Keeps P Quiet (jelloVmTrap ctx code msg) :=
  keeps_setTrap hnone hthrown

theorem keeps_vmBoxFromTyped (h : RegOk P m f rf r) : Keeps P R (vmBoxFromTyped m f rf r) :=
  fun _ ↦ spec_vmBoxFromTyped h fun _ _ ↦ lenient_data rfl rfl ⟨rfl, rfl, rfl, rfl⟩ rfl

theorem keeps_vmStoreFromBoxed (h : RegOk P m f rf r) (fpu : Fpu) (v : JelloValue) :
    Keeps P R (vmStoreFromBoxed m fpu f rf r v) :=
  fun _ ↦ spec_vmStoreFromBoxed h fpu v fun _ _ _ ↦
    lenient_data rfl rfl ⟨rfl, rfl, rfl, rfl⟩ rfl

theorem keeps_cloneNumbox (v : JelloValue) : Keeps P R (cloneNumbox v) :=
  fun _ ↦ spec_cloneNumbox fun _ _ ↦ lenient_data rfl rfl ⟨rfl, rfl, rfl, rfl⟩ rfl

theorem keeps_boxI64At (v : JelloValue) : Keeps P R (boxI64At v) :=
  fun s ↦ spec_boxI64At fun _ ↦ refl_of R s

theorem keeps_boxF64At (v : JelloValue) : Keeps P R (boxF64At v) :=
  fun s ↦ spec_boxF64At fun _ ↦ refl_of R s

theorem keeps_boxF32At (v : JelloValue) : Keeps P R (boxF32At v) :=
  fun s ↦ spec_boxF32At fun _ ↦ refl_of R s

theorem keeps_boxF16At (v : JelloValue) : Keeps P R (boxF16At v) :=
  fun s ↦ spec_boxF16At fun _ ↦ refl_of R s

end Primitives

/-- How an instruction uses a register operand: not at all, by its type, or as a slot of four or
of eight bytes. -/
inductive Operand
  | unused
  | any
  | w4
  | w8

def Operand.Ok (P : Access → Prop) (ctx : Ctx) (r : ℕ) : Operand → Prop
  | .unused => True
  | .any => RegOk P ctx.m ctx.f ctx.rf r
  | .w4 => RegOk P ctx.m ctx.f ctx.rf r ∧ P (.slot ctx.rf r 4)
  | .w8 => RegOk P ctx.m ctx.f ctx.rf r ∧ P (.slot ctx.rf r 8)

/-- The operands `a`, `b` and `c` of the instructions that work on registers. -/
def operands : JelloOp → Operand × Operand × Operand
  | .mov => (.any, .any, .unused)
  | .constFun | .closure | .constNull | .constI64 | .constF64 | .constBytes | .listNil | .objNew
  | .enumNew | .throw => (.w8, .unused, .unused)
  | .constI32 | .constI8Imm | .constBool | .constAtom | .constF16 | .constF32 | .jmpIf | .assert
  | .switchKind => (.w4, .unused, .unused)
  | .spillPush | .spillPop => (.any, .unused, .unused)
  | .bindThis => (.w8, .w8, .any)
  | .addI32 | .subI32 | .mulI32 | .divI32 | .modI32 | .shlI32 | .shrI32 | .bitandI32 | .bitorI32
  | .bitxorI32 | .addF16 | .subF16 | .mulF16 | .addF32 | .subF32 | .mulF32 | .divF32 | .eqI32
  | .ltI32 | .eqF32 | .ltF32 => (.w4, .w4, .w4)
  | .addI64 | .subI64 | .mulI64 | .divI64 | .modI64 | .shlI64 | .shrI64 | .bitandI64 | .bitorI64
  | .bitxorI64 | .addF64 | .subF64 | .mulF64 | .divF64 | .bytesConcat2 | .bytesBitand2
  | .bytesBitor2 | .bytesBitxor2 | .arrayConcat2 => (.w8, .w8, .w8)
  | .addI32Imm | .subI32Imm | .mulI32Imm | .eqI32Imm | .ltI32Imm | .negI32 | .negF32 | .notBool
  | .sextI16 | .truncI8 | .truncI16 | .f32FromI32 | .i32FromF32 | .f16FromF32 | .f32FromF16
  | .f16FromI32 | .i32FromF16 => (.w4, .w4, .unused)
  | .negI64 | .negF64 | .f64FromI64 | .i64FromF64 | .fromDynI64 | .fromDynF64 | .fromDynPtr
  | .bytesConcatMany | .listTail | .objCopy | .objKeys => (.w8, .w8, .unused)
  | .sextI64 | .f64FromI32 | .f64FromF32 | .i64FromF32 | .arrayNew | .bytesNew =>
    (.w8, .w4, .unused)
  | .i32FromI64 | .i32FromF64 | .f32FromF64 | .f32FromI64 | .fromDynI8 | .fromDynI16 | .fromDynI32
  | .fromDynF16 | .fromDynF32 | .fromDynBool | .fromDynAtom | .kindof | .listIsNil | .arrayLen
  | .bytesLen | .objHasAtom | .enumTag => (.w4, .w8, .unused)
  | .eqI64 | .ltI64 | .eqF64 | .ltF64 | .bytesEq => (.w4, .w8, .w8)
  | .toDyn => (.w8, .any, .unused)
  | .physeq => (.w4, .any, .any)
  | .listCons => (.w8, .any, .w8)
  | .listHead | .objGetAtom | .objSetAtom => (.any, .w8, .unused)
  | .arrayGet | .arraySet | .objGet | .objSet | .enumGet => (.any, .w8, .w4)
  | .bytesGetU8 | .bytesSetU8 | .objHas | .objRemove | .bytesReadU16Le | .bytesReadU16Be
  | .bytesReadU32Le | .bytesReadU32Be | .bytesReadI32Le | .bytesReadI32Be | .bytesReadF32Le
  | .bytesReadF32Be | .bytesWriteU16Le | .bytesWriteU16Be | .bytesWriteU32Le | .bytesWriteU32Be
  | .bytesWriteI32Le | .bytesWriteI32Be | .bytesWriteF32Le | .bytesWriteF32Be => (.w4, .w8, .w4)
  | .arrayResize => (.unused, .w8, .w4)
  | .objClear => (.unused, .w8, .unused)
  | .nop | .ret | .jmp | .try_ | .endtry | .call | .callr | .tailcall | .tailcallr | .caseKind =>
    (.unused, .unused, .unused)

/-- The table that the immediate is an index of, with its length. -/
def immPool (m : JelloBcModule) : JelloOp → Option (Pool × ℕ)
  | .constAtom | .objHasAtom | .objGetAtom | .objSetAtom => some (.atoms, m.atoms.length)
  | .constI64 => some (.constI64, m.constI64.length)
  | .constF64 => some (.constF64, m.constF64.length)
  | .constBytes => some (.constBytes, m.constBytes.length)
  | .closure => some (.funcs, jelloNativeBuiltinCount + m.funcs.length)
  | _ => none

/-- The accesses that the operands of an instruction ask for are allowed. -/
structure OpOk (P : Access → Prop) (ctx : Ctx) (ins : JelloInsn) : Prop where
  a : (operands ins.op).1.Ok P ctx ins.ra
  b : (operands ins.op).2.1.Ok P ctx ins.rb
  c : (operands ins.op).2.2.Ok P ctx ins.rc
  imm : ∀ pool len, immPool ctx.m ins.op = some (pool, len) → P (.entry pool ins.imm.toNat len)
  range : ins.op = .closure ∨ ins.op = .enumNew → ∀ r, ins.rb ≤ r → r < ins.rb + ins.rc →
    RegOk P ctx.m ctx.f ctx.rf r
  mov : ins.op = .mov → P (.slot ctx.rf ins.rb (jelloSlotSize (regKind ctx.m ctx.f ins.ra)))
  msg : ins.op = .assert → ins.c = 1 → RegOk P ctx.m ctx.f ctx.rf ins.rb
  entry : ∀ pool i len, i < len → P (.entry pool i len)

theorem opOk_true (ctx : Ctx) (ins : JelloInsn) : OpOk (fun _ ↦ True) ctx ins := by
  have hok (o : Operand) (r : ℕ) : o.Ok (fun _ ↦ True) ctx r := by
    cases o <;> simp [Operand.Ok, RegOk.mk]
  have hreg (r : ℕ) : RegOk (fun _ ↦ True) ctx.m ctx.f ctx.rf r := ⟨trivial, trivial, trivial⟩
  exact ⟨hok _ _, hok _ _, hok _ _, fun _ _ _ ↦ trivial, fun _ r _ _ ↦ hreg r, fun _ ↦ trivial,
    fun _ _ ↦ hreg _, fun _ _ _ _ ↦ trivial⟩

section Families

variable {P : Access → Prop} {ctx : Ctx} {ins : JelloInsn}

theorem keeps_unI32Masked (e : UInt32 → UInt32) (ha : Operand.w4.Ok P ctx ins.ra)
    (hb : Operand.w4.Ok P ctx ins.rb) : Keeps P Quiet (unI32Masked e ctx ins) :=
  keeps_bind (keeps_vmRegKind ha.1) fun _ ↦ keeps_bind (keeps_vmLoadU32 hb.2) fun _ ↦
    keeps_vmStoreU32 ha.2 _

theorem keeps_binI32Masked (e : UInt32 → UInt32 → Option UInt32) (ha : Operand.w4.Ok P ctx ins.ra)
    (hb : Operand.w4.Ok P ctx ins.rb) (hc : Operand.w4.Ok P ctx ins.rc) :
    Keeps P Quiet (binI32Masked e ctx ins) := by
  refine keeps_bind (keeps_vmRegKind ha.1) fun k ↦ keeps_bind (keeps_vmLoadU32 hb.2) fun x ↦
    keeps_bind (keeps_vmLoadU32 hc.2) fun y ↦ ?_
  cases e x y with
  | some v => exact keeps_vmStoreU32 ha.2 _
  | none => exact keeps_fail _

theorem keeps_binI32ImmMasked (e : UInt32 → UInt32 → UInt32) (ha : Operand.w4.Ok P ctx ins.ra)
    (hb : Operand.w4.Ok P ctx ins.rb) : Keeps P Quiet (binI32ImmMasked e ctx ins) :=
  keeps_bind (keeps_vmRegKind ha.1) fun _ ↦ keeps_bind (keeps_vmLoadU32 hb.2) fun _ ↦
    keeps_vmStoreU32 ha.2 _

theorem keeps_un64 (e : UInt64 → UInt64) (ha : Operand.w8.Ok P ctx ins.ra)
    (hb : Operand.w8.Ok P ctx ins.rb) : Keeps P Quiet (un64 e ctx ins) :=
  keeps_bind (keeps_vmLoad64 hb.2) fun _ ↦ keeps_vmStore64 ha.2 _

theorem keeps_bin64 (e : UInt64 → UInt64 → Option UInt64) (ha : Operand.w8.Ok P ctx ins.ra)
    (hb : Operand.w8.Ok P ctx ins.rb) (hc : Operand.w8.Ok P ctx ins.rc) :
    Keeps P Quiet (bin64 e ctx ins) := by
  refine keeps_bind (keeps_vmLoad64 hb.2) fun x ↦ keeps_bind (keeps_vmLoad64 hc.2) fun y ↦ ?_
  cases e x y with
  | some v => exact keeps_vmStore64 ha.2 _
  | none => exact keeps_fail _

theorem keeps_un32 (e : UInt32 → UInt32) (ha : Operand.w4.Ok P ctx ins.ra)
    (hb : Operand.w4.Ok P ctx ins.rb) : Keeps P Quiet (un32 e ctx ins) :=
  keeps_bind (keeps_vmLoadU32 hb.2) fun _ ↦ keeps_vmStoreU32 ha.2 _

theorem keeps_bin32 (e : UInt32 → UInt32 → UInt32) (ha : Operand.w4.Ok P ctx ins.ra)
    (hb : Operand.w4.Ok P ctx ins.rb) (hc : Operand.w4.Ok P ctx ins.rc) :
    Keeps P Quiet (bin32 e ctx ins) :=
  keeps_bind (keeps_vmLoadU32 hb.2) fun _ ↦ keeps_bind (keeps_vmLoadU32 hc.2) fun _ ↦
    keeps_vmStoreU32 ha.2 _

theorem keeps_binF16 (e : UInt32 → UInt32 → UInt32) (ha : Operand.w4.Ok P ctx ins.ra)
    (hb : Operand.w4.Ok P ctx ins.rb) (hc : Operand.w4.Ok P ctx ins.rc) :
    Keeps P Quiet (binF16 e ctx ins) :=
  keeps_bind (keeps_vmLoadF16Bits hb.2) fun _ ↦ keeps_bind (keeps_vmLoadF16Bits hc.2) fun _ ↦
    keeps_vmStoreU32 ha.2 _

theorem keeps_cmpI32Imm (e : UInt32 → UInt32 → Bool) (ha : Operand.w4.Ok P ctx ins.ra)
    (hb : Operand.w4.Ok P ctx ins.rb) : Keeps P Quiet (cmpI32Imm e ctx ins) :=
  keeps_bind (keeps_vmLoadU32 hb.2) fun _ ↦ keeps_vmStoreU32 ha.2 _

theorem keeps_cmp64 (e : UInt64 → UInt64 → Bool) (ha : Operand.w4.Ok P ctx ins.ra)
    (hb : Operand.w8.Ok P ctx ins.rb) (hc : Operand.w8.Ok P ctx ins.rc) :
    Keeps P Quiet (cmp64 e ctx ins) :=
  keeps_bind (keeps_vmLoad64 hb.2) fun _ ↦ keeps_bind (keeps_vmLoad64 hc.2) fun _ ↦
    keeps_vmStoreU32 ha.2 _

theorem keeps_widen (e : UInt32 → UInt64) (ha : Operand.w8.Ok P ctx ins.ra)
    (hb : Operand.w4.Ok P ctx ins.rb) : Keeps P Quiet (widen e ctx ins) :=
  keeps_bind (keeps_vmLoadU32 hb.2) fun _ ↦ keeps_vmStore64 ha.2 _

theorem keeps_narrow (e : UInt64 → UInt32) (ha : Operand.w4.Ok P ctx ins.ra)
    (hb : Operand.w8.Ok P ctx ins.rb) : Keeps P Quiet (narrow e ctx ins) :=
  keeps_bind (keeps_vmLoad64 hb.2) fun _ ↦ keeps_vmStoreU32 ha.2 _

theorem keeps_vmCheckedF64 {α : Type} (fpu : Fpu) (msg : String) (hi lo : UInt64)
    (cast : UInt64 → α) (x : UInt64) : Keeps P Quiet (vmCheckedF64 fpu msg hi lo cast x) := by
  have hover : Keeps P Quiet (do
      setTrap .typeMismatch (some (text msg)) (jelloMakeI32 TrapCode.typeMismatch.code)
      pure none : StoreM (Option α)) :=
    keeps_bind (keeps_setTrap (by decide) (by decide)) fun _ ↦ keeps_pure _
  exact keeps_ite (fun _ ↦ hover) fun _ ↦ keeps_ite (fun _ ↦ hover) fun _ ↦ keeps_pure _

theorem keeps_checkedI32From32 (e : UInt32 → UInt64) (ha : Operand.w4.Ok P ctx ins.ra)
    (hb : Operand.w4.Ok P ctx ins.rb) : Keeps P Quiet (checkedI32From32 e ctx ins) := by
  refine keeps_bind (keeps_vmLoadU32 hb.2) fun x ↦
    keeps_bind (keeps_vmCheckedF64 _ _ _ _ _ _) fun v ↦ ?_
  cases v with
  | some v => exact keeps_vmStoreU32 ha.2 _
  | none => exact keeps_pure _

theorem keeps_opI32FromF64 (ha : Operand.w4.Ok P ctx ins.ra) (hb : Operand.w8.Ok P ctx ins.rb) :
    Keeps P Quiet (opI32FromF64 ctx ins) := by
  refine keeps_bind (keeps_vmLoad64 hb.2) fun x ↦
    keeps_bind (keeps_vmCheckedF64 _ _ _ _ _ _) fun v ↦ ?_
  cases v with
  | some v => exact keeps_vmStoreU32 ha.2 _
  | none => exact keeps_pure _

theorem keeps_opI64FromF64 (ha : Operand.w8.Ok P ctx ins.ra) (hb : Operand.w8.Ok P ctx ins.rb) :
    Keeps P Quiet (opI64FromF64 ctx ins) := by
  refine keeps_bind (keeps_vmLoad64 hb.2) fun x ↦
    keeps_bind (keeps_vmCheckedF64 _ _ _ _ _ _) fun v ↦ ?_
  cases v with
  | some v => exact keeps_vmStore64 ha.2 _
  | none => exact keeps_pure _

theorem keeps_opI64FromF32 (ha : Operand.w8.Ok P ctx ins.ra) (hb : Operand.w4.Ok P ctx ins.rb) :
    Keeps P Quiet (opI64FromF32 ctx ins) := by
  refine keeps_bind (keeps_vmLoadU32 hb.2) fun x ↦
    keeps_bind (keeps_vmCheckedF64 _ _ _ _ _ _) fun v ↦ ?_
  cases v with
  | some v => exact keeps_vmStore64 ha.2 _
  | none => exact keeps_pure _

end Families

section Scalar

variable {P : Access → Prop} {ctx : Ctx} {ins : JelloInsn}

theorem keeps_trapThen {α : Type} {code : TrapCode} (msg : String) (a : α) (hnone : code ≠ .none)
    (hthrown : code ≠ .thrown) :
    Keeps P Quiet (do jelloVmTrap ctx code msg; pure a : StoreM α) :=
  keeps_bind (keeps_jelloVmTrap msg hnone hthrown) fun _ ↦ keeps_pure _

theorem keeps_opMov (ha : Operand.any.Ok P ctx ins.ra)
    (hmov : P (.slot ctx.rf ins.rb (jelloSlotSize (regKind ctx.m ctx.f ins.ra)))) :
    Keeps P Quiet (opMov ctx ins) := by
  intro s
  simp only [opMov, spec_bind, spec_vmRegKind]
  exact ⟨ha.regType, ha.entry, keeps_copySlot hmov ha.slot s⟩

theorem keeps_constPool {pool : Pool} {len : ℕ} {v : UInt64} (ha : Operand.w8.Ok P ctx ins.ra)
    (himm : P (.entry pool ins.imm.toNat len)) :
    Keeps P Quiet (do note (.entry pool ins.imm.toNat len); vmStore64 ctx.rf ins.ra v) :=
  keeps_bind (keeps_note himm) fun _ ↦ keeps_vmStore64 ha.2 _

theorem keeps_opConstAtom (ha : Operand.w4.Ok P ctx ins.ra)
    (himm : P (.entry .atoms ins.imm.toNat ctx.m.atoms.length)) :
    Keeps P Quiet (opConstAtom ctx ins) :=
  keeps_bind (keeps_note himm) fun _ ↦ keeps_vmStoreU32 ha.2 _

theorem keeps_setConstFunCache (i : ℕ) (v : JelloValue) :
    Keeps P Quiet
      (change fun s ↦ { s with constFunCache := s.constFunCache.set i v } : StoreM Unit) :=
  keeps_change fun _ ↦ lenient_data rfl rfl ⟨rfl, rfl, rfl, rfl⟩ rfl

theorem keeps_setConstBytesCache (i : ℕ) (v : JelloValue) :
    Keeps P Quiet
      (change fun s ↦ { s with constBytesCache := s.constBytesCache.set i v } : StoreM Unit) :=
  keeps_change fun _ ↦ lenient_data rfl rfl ⟨rfl, rfl, rfl, rfl⟩ rfl

theorem keeps_opConstBytes (ha : Operand.w8.Ok P ctx ins.ra)
    (himm : P (.entry .constBytes ins.imm.toNat ctx.m.constBytes.length))
    (hentry : ∀ pool i len, i < len → P (.entry pool i len)) :
    Keeps P Quiet (opConstBytes ctx ins) := by
  refine keeps_bind (keeps_read _) fun cache ↦ keeps_ite (fun _ ↦ ?_) fun hlen ↦ ?_
  · exact keeps_ite (fun _ ↦ keeps_jelloVmTrap _ (by decide) (by decide)) fun _ ↦ keeps_fail _
  · refine keeps_bind (keeps_note (hentry _ _ _ (Nat.not_le.mp hlen))) fun _ ↦
      keeps_ite (fun _ ↦ keeps_vmStore64 ha.2 _) fun _ ↦ keeps_bind (keeps_note himm) fun _ ↦ ?_
    exact keeps_bind (keeps_regTypeOf ha.1.regType) fun typeId ↦ keeps_bind (keeps_gcAlloc _)
      fun b ↦ keeps_bind (keeps_setConstBytesCache _ b) fun _ ↦ keeps_vmStore64 ha.2 _

theorem keeps_opConstFun (ha : Operand.w8.Ok P ctx ins.ra)
    (hentry : ∀ pool i len, i < len → P (.entry pool i len)) :
    Keeps P Quiet (opConstFun ctx ins) := by
  refine keeps_bind (keeps_read _) fun cache ↦ keeps_ite (fun _ ↦ keeps_fail _) fun hlen ↦ ?_
  refine keeps_bind (keeps_note (hentry _ _ _ (Nat.not_le.mp hlen))) fun _ ↦
    keeps_ite (fun _ ↦ keeps_vmStore64 ha.2 _) fun _ ↦ ?_
  exact keeps_bind (keeps_regTypeOf ha.1.regType) fun typeId ↦ keeps_bind (keeps_gcAlloc _)
    fun fn ↦ keeps_bind (keeps_setConstFunCache _ fn) fun _ ↦ keeps_vmStore64 ha.2 _

theorem keeps_opToDyn (ha : Operand.w8.Ok P ctx ins.ra) (hb : Operand.any.Ok P ctx ins.rb) :
    Keeps P Quiet (opToDyn ctx ins) :=
  keeps_bind (keeps_vmBoxFromTyped hb) fun _ ↦ keeps_vmStore64 ha.2 _

theorem keeps_fromDynIntValue (v : JelloValue) : Keeps P Quiet (fromDynIntValue v) := by
  refine keeps_ite (fun _ ↦ keeps_pure _) fun _ ↦ keeps_bind (keeps_boxI64At v) fun x ↦ ?_
  cases x <;> exact keeps_pure _

theorem keeps_fromDynInt (k : Kind) (name : String) (ha : Operand.w4.Ok P ctx ins.ra)
    (hb : Operand.w8.Ok P ctx ins.rb) : Keeps P Quiet (fromDynInt k name ctx ins) := by
  refine keeps_bind (keeps_vmLoad64 hb.2) fun v ↦ keeps_bind (keeps_fromDynIntValue v) fun x ↦ ?_
  cases x with
  | some x => exact keeps_vmStoreU32 ha.2 _
  | none => exact keeps_jelloVmTrap _ (by decide) (by decide)

theorem keeps_opFromDynI64 (ha : Operand.w8.Ok P ctx ins.ra) (hb : Operand.w8.Ok P ctx ins.rb) :
    Keeps P Quiet (opFromDynI64 ctx ins) := by
  refine keeps_bind (keeps_vmLoad64 hb.2) fun v ↦ keeps_ite (fun _ ↦ keeps_vmStore64 ha.2 _)
    fun _ ↦ keeps_bind (keeps_boxI64At v) fun x ↦ ?_
  cases x with
  | some x => exact keeps_vmStore64 ha.2 _
  | none => exact keeps_jelloVmTrap _ (by decide) (by decide)

theorem keeps_opFromDynF16 (ha : Operand.w4.Ok P ctx ins.ra) (hb : Operand.w8.Ok P ctx ins.rb) :
    Keeps P Quiet (opFromDynF16 ctx ins) := by
  refine keeps_bind (keeps_vmLoad64 hb.2) fun v ↦ keeps_bind (keeps_boxF16At v) fun x ↦ ?_
  cases x with
  | some x => exact keeps_vmStoreU32 ha.2 _
  | none => exact keeps_jelloVmTrap _ (by decide) (by decide)

theorem keeps_opFromDynF32 (ha : Operand.w4.Ok P ctx ins.ra) (hb : Operand.w8.Ok P ctx ins.rb) :
    Keeps P Quiet (opFromDynF32 ctx ins) := by
  refine keeps_bind (keeps_vmLoad64 hb.2) fun v ↦ keeps_ite (fun _ ↦ keeps_vmStoreU32 ha.2 _)
    fun _ ↦ keeps_bind (keeps_boxF32At v) fun x ↦ ?_
  cases x with
  | some x => exact keeps_vmStoreU32 ha.2 _
  | none => exact keeps_jelloVmTrap _ (by decide) (by decide)

theorem keeps_opFromDynF64 (ha : Operand.w8.Ok P ctx ins.ra) (hb : Operand.w8.Ok P ctx ins.rb) :
    Keeps P Quiet (opFromDynF64 ctx ins) := by
  refine keeps_bind (keeps_vmLoad64 hb.2) fun v ↦ keeps_ite (fun _ ↦ keeps_vmStore64 ha.2 _)
    fun _ ↦ keeps_ite (fun _ ↦ keeps_vmStore64 ha.2 _) fun _ ↦ keeps_bind (keeps_boxF64At v) fun x ↦ ?_
  cases x with
  | some x => exact keeps_vmStore64 ha.2 _
  | none => exact keeps_jelloVmTrap _ (by decide) (by decide)

theorem keeps_opFromDynBool (ha : Operand.w4.Ok P ctx ins.ra) (hb : Operand.w8.Ok P ctx ins.rb) :
    Keeps P Quiet (opFromDynBool ctx ins) :=
  keeps_bind (keeps_vmLoad64 hb.2) fun _ ↦
    keeps_ite (fun _ ↦ keeps_jelloVmTrap _ (by decide) (by decide)) fun _ ↦
      keeps_vmStoreU32 ha.2 _

theorem keeps_opFromDynAtom (ha : Operand.w4.Ok P ctx ins.ra) (hb : Operand.w8.Ok P ctx ins.rb) :
    Keeps P Quiet (opFromDynAtom ctx ins) :=
  keeps_bind (keeps_vmLoad64 hb.2) fun _ ↦
    keeps_ite (fun _ ↦ keeps_jelloVmTrap _ (by decide) (by decide)) fun _ ↦
      keeps_vmStoreU32 ha.2 _

theorem keeps_jelloObjKindOf (v : JelloValue) : Keeps P Quiet (jelloObjKindOf v) :=
  keeps_bind (keeps_cellAt v) fun _ ↦ keeps_pure _

theorem keeps_opFromDynPtr (ha : Operand.w8.Ok P ctx ins.ra) (hb : Operand.w8.Ok P ctx ins.rb) :
    Keeps P Quiet (opFromDynPtr ctx ins) := by
  refine keeps_bind (keeps_vmLoad64 hb.2) fun v ↦ keeps_bind (keeps_vmRegKind ha.1) fun dk ↦
    keeps_ite (fun _ ↦ keeps_jelloVmTrap _ (by decide) (by decide)) fun _ ↦
    keeps_ite (fun _ ↦ keeps_vmStore64 ha.2 _) fun _ ↦
    keeps_ite (fun _ ↦ keeps_jelloVmTrap _ (by decide) (by decide)) fun _ ↦ ?_
  exact keeps_bind (keeps_jelloObjKindOf v) fun kind ↦
    keeps_ite (fun _ ↦ keeps_jelloVmTrap _ (by decide) (by decide)) fun _ ↦ keeps_vmStore64 ha.2 _

theorem keeps_opPhyseq (ha : Operand.w4.Ok P ctx ins.ra) (hb : Operand.any.Ok P ctx ins.rb)
    (hc : Operand.any.Ok P ctx ins.rc) : Keeps P Quiet (opPhyseq ctx ins) :=
  keeps_bind (keeps_vmBoxFromTyped hb) fun _ ↦ keeps_bind (keeps_vmBoxFromTyped hc) fun _ ↦
    keeps_vmStoreU32 ha.2 _

theorem keeps_vmKindofDynamic (v : JelloValue) : Keeps P Quiet (vmKindofDynamic v) :=
  keeps_ite (fun _ ↦ keeps_pure _) fun _ ↦ keeps_ite (fun _ ↦ keeps_pure _) fun _ ↦
    keeps_ite (fun _ ↦ keeps_pure _) fun _ ↦ keeps_ite (fun _ ↦ keeps_pure _) fun _ ↦
    keeps_ite (fun _ ↦ keeps_pure _) fun _ ↦
    keeps_bind (keeps_jelloObjKindOf v) fun _ ↦ keeps_pure _

theorem keeps_opKindof (ha : Operand.w4.Ok P ctx ins.ra) (hb : Operand.w8.Ok P ctx ins.rb) :
    Keeps P Quiet (opKindof ctx ins) :=
  keeps_bind (keeps_vmLoad64 hb.2) fun v ↦ keeps_bind (keeps_vmKindofDynamic v) fun _ ↦
    keeps_vmStoreU32 ha.2 _

theorem keeps_boxRegs (n r : ℕ)
    (h : ∀ i, r ≤ i → i < r + n → RegOk P ctx.m ctx.f ctx.rf i) :
    Keeps P Quiet (boxRegs ctx.m ctx.f ctx.rf r n) := by
  induction n generalizing r with
  | zero => exact keeps_pure _
  | succ n ih =>
    refine keeps_bind (keeps_vmBoxFromTyped (h r le_rfl (by omega))) fun v ↦ ?_
    have hrest := ih (r + 1) fun i hi hin ↦ h i (by omega) (by omega)
    exact keeps_bind hrest fun vs ↦ keeps_pure _

theorem keeps_rawCapSize (n r size : ℕ)
    (h : ∀ i, r ≤ i → i < r + n → RegOk P ctx.m ctx.f ctx.rf i) :
    Keeps P Quiet (rawCapSize ctx r n size) := by
  induction n generalizing r size with
  | zero => exact keeps_pure _
  | succ n ih =>
    refine keeps_bind (keeps_vmRegKind (h r le_rfl (by omega))) fun k ↦
      keeps_ite (fun _ ↦ keeps_pure _) fun _ ↦ ?_
    exact ih (r + 1) _ fun i hi hin ↦ h i (by omega) (by omega)

theorem keeps_rawCaps (n r off : ℕ) (buf : Mem)
    (h : ∀ i, r ≤ i → i < r + n → RegOk P ctx.m ctx.f ctx.rf i) :
    Keeps P Quiet (rawCaps ctx r n off buf) := by
  induction n generalizing r off buf with
  | zero => exact keeps_pure _
  | succ n ih =>
    intro s
    have hr := h r le_rfl (by omega)
    simp only [rawCaps, spec_bind, spec_vmRegKind, spec_note, spec_read]
    refine ⟨hr.regType, hr.entry, hr.slot, ?_⟩
    exact ih (r + 1) _ _ (fun i hi hin ↦ h i (by omega) (by omega)) s

theorem keeps_opClosure (ha : Operand.w8.Ok P ctx ins.ra)
    (himm : P (.entry .funcs ins.imm.toNat (jelloNativeBuiltinCount + ctx.m.funcs.length)))
    (hcaps : ∀ r, ins.rb ≤ r → r < ins.rb + ins.rc → RegOk P ctx.m ctx.f ctx.rf r) :
    Keeps P Quiet (opClosure ctx ins) := by
  refine keeps_bind (keeps_regTypeOf ha.1.regType) fun typeId ↦ keeps_bind (keeps_note himm)
    fun _ ↦ keeps_bind (keeps_rawCapSize _ _ _ hcaps) fun size ↦ ?_
  cases (if ins.rc = 0 then none else size.filter (· ≤ 256) : Option ℕ) with
  | some size =>
    exact keeps_bind (keeps_rawCaps _ _ _ _ hcaps) fun buf ↦ keeps_bind (keeps_gcAlloc _)
      fun clo ↦ keeps_vmStore64 ha.2 _
  | none =>
    exact keeps_bind (keeps_boxRegs _ _ hcaps) fun caps ↦ keeps_bind (keeps_gcAlloc _)
      fun clo ↦ keeps_vmStore64 ha.2 _

theorem keeps_opBindThis (ha : Operand.w8.Ok P ctx ins.ra) (hb : Operand.w8.Ok P ctx ins.rb)
    (hc : Operand.any.Ok P ctx ins.rc) : Keeps P Quiet (opBindThis ctx ins) := by
  refine keeps_bind (keeps_vmLoad64 hb.2) fun p ↦ keeps_ite (fun _ ↦ keeps_fail _) fun _ ↦
    keeps_bind (keeps_cellAt p) fun c ↦ ?_
  cases c
  case function base =>
    exact keeps_bind (keeps_vmBoxFromTyped hc) fun thisv ↦
      keeps_bind (keeps_regTypeOf ha.1.regType) fun typeId ↦ keeps_bind (keeps_gcAlloc _)
      fun bound ↦ keeps_vmStore64 ha.2 _
  all_goals exact keeps_fail _

/-- What an instruction does to the spill stack. -/
def Spilled (op : JelloOp) (s s' : Store) : Prop :=
  match op with
  | .spillPush => ∃ v, s'.spill = v :: s.spill
  | .spillPop => ∃ v, s.spill = v :: s'.spill
  | _ => s'.spill = s.spill

/-- What an instruction that neither jumps nor calls does to the rest of the machine. -/
structure Settled (op : JelloOp) (s s' : Store) : Prop extends Calm s s' where
  spilled : Spilled op s s'

theorem Quiet.settled {op : JelloOp} {s s' : Store} (h : Quiet s s') (hpush : op ≠ .spillPush)
    (hpop : op ≠ .spillPop) : Settled op s s' := by
  refine ⟨h.toCalm, ?_⟩
  unfold Spilled
  split
  · exact absurd rfl hpush
  · exact absurd rfl hpop
  · exact h.spill

theorem calm_spill (s : Store) (spill : List JelloValue) : Calm s { s with spill := spill } :=
  ⟨rfl, rfl, .inl ⟨rfl, rfl, rfl, rfl⟩⟩

theorem keeps_opSpillPush (ha : Operand.any.Ok P ctx ins.ra) :
    Keeps P (Settled .spillPush) (opSpillPush ctx ins) := by
  refine fun s ↦ spec_bind.mpr (Keeps.then (R := Quiet) (keeps_vmBoxFromTyped ha) fun v s' h ↦ ?_)
  exact (spec_change _).mpr ⟨trans_of Calm h.toCalm (calm_spill s' _), v,
    congrArg (v :: ·) h.spill⟩

theorem keeps_opSpillPop (ha : Operand.any.Ok P ctx ins.ra) :
    Keeps P (Settled .spillPop) (opSpillPop ctx ins) := by
  intro s
  simp only [opSpillPop, vmSpillPop, spec_bind, spec_read]
  split
  · exact spec_fail _
  · next v rest hs =>
    simp only [spec_bind, spec_change, spec_pure]
    refine Keeps.then (R := Quiet) (keeps_vmStoreFromBoxed ha ctx.fpu v) fun _ s' h ↦ ⟨?_, v, ?_⟩
    · exact trans_of Calm (calm_spill s rest) h.toCalm
    · rw [hs, h.spill]

end Scalar

end JelloVM
