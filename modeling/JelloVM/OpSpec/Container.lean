import JelloVM.OpSpec.Scalar

namespace JelloVM

open ByteMemory Logged

section Container

variable {P : Access → Prop} {R : Store → Store → Prop} [Lenient R] {ctx : Ctx} {ins : JelloInsn}

theorem keeps_bytesAt (p : JelloValue) : Keeps P R (bytesAt p) := by
  refine keeps_bind (keeps_cellAt p) fun c ↦ ?_
  cases c
  case bytes => exact keeps_pure _
  all_goals exact keeps_fail _

theorem keeps_listAt (p : JelloValue) : Keeps P R (listAt p) := by
  refine keeps_bind (keeps_cellAt p) fun c ↦ ?_
  cases c
  case list => exact keeps_pure _
  all_goals exact keeps_fail _

theorem keeps_arrayAt (p : JelloValue) : Keeps P R (arrayAt p) := by
  refine keeps_bind (keeps_cellAt p) fun c ↦ ?_
  cases c
  case array => exact keeps_pure _
  all_goals exact keeps_fail _

theorem keeps_objectAt (p : JelloValue) : Keeps P R (objectAt p) := by
  refine keeps_bind (keeps_cellAt p) fun c ↦ ?_
  cases c
  case object => exact keeps_pure _
  all_goals exact keeps_fail _

theorem keeps_orDiverge {α : Type} (x : Option α) : Keeps P R (orDiverge x) := by
  cases x with
  | some a => exact keeps_pure a
  | none => exact keeps_fail _

theorem keeps_boxForSlot {r : ℕ} (h : RegOk P ctx.m ctx.f ctx.rf r) :
    Keeps P R (boxForSlot ctx r) :=
  keeps_bind (keeps_vmBoxFromTyped h) fun v ↦ keeps_bind (keeps_vmRegKind h) fun _ ↦
    keeps_ite (fun _ ↦ keeps_cloneNumbox v) fun _ ↦ keeps_pure _

theorem keeps_opListCons (ha : Operand.w8.Ok P ctx ins.ra) (hb : Operand.any.Ok P ctx ins.rb)
    (hc : Operand.w8.Ok P ctx ins.rc) : Keeps P Quiet (opListCons ctx ins) :=
  keeps_bind (keeps_boxForSlot hb) fun _ ↦ keeps_bind (keeps_vmLoad64 hc.2) fun _ ↦
    keeps_bind (keeps_regTypeOf ha.1.regType) fun _ ↦ keeps_bind (keeps_gcAlloc _) fun _ ↦
    keeps_vmStore64 ha.2 _

theorem keeps_opListHead (ha : Operand.any.Ok P ctx ins.ra) (hb : Operand.w8.Ok P ctx ins.rb) :
    Keeps P Quiet (opListHead ctx ins) :=
  keeps_bind (keeps_vmLoad64 hb.2) fun p ↦
    keeps_ite (fun _ ↦ keeps_jelloVmTrap _ (by decide) (by decide)) fun _ ↦
    keeps_bind (keeps_listAt p) fun _ ↦ keeps_vmStoreFromBoxed ha _ _

theorem keeps_opListTail (ha : Operand.w8.Ok P ctx ins.ra) (hb : Operand.w8.Ok P ctx ins.rb) :
    Keeps P Quiet (opListTail ctx ins) :=
  keeps_bind (keeps_vmLoad64 hb.2) fun p ↦
    keeps_ite (fun _ ↦ keeps_jelloVmTrap _ (by decide) (by decide)) fun _ ↦
    keeps_bind (keeps_listAt p) fun _ ↦ keeps_vmStore64 ha.2 _

theorem keeps_opListIsNil (ha : Operand.w4.Ok P ctx ins.ra) (hb : Operand.w8.Ok P ctx ins.rb) :
    Keeps P Quiet (opListIsNil ctx ins) :=
  keeps_bind (keeps_vmLoad64 hb.2) fun _ ↦ keeps_vmStoreU32 ha.2 _

theorem keeps_elemKindOf (hentry : ∀ pool i len, i < len → P (.entry pool i len))
    (m : JelloBcModule) (tid : ℕ) : Keeps P R (elemKindOf m tid) := by
  refine keeps_ite (fun _ ↦ keeps_pure _) fun htid ↦
    keeps_bind (keeps_typeOf (hentry _ _ _ (Nat.not_le.mp htid))) fun t ↦
    keeps_ite (fun _ ↦ keeps_pure _) fun _ ↦ keeps_ite (fun _ ↦ keeps_pure _) fun hparam ↦ ?_
  exact keeps_bind (keeps_typeOf (hentry _ _ _ (Nat.not_le.mp hparam))) fun e ↦ keeps_pure _

theorem keeps_arrayElemKind (hentry : ∀ pool i len, i < len → P (.entry pool i len)) {r : ℕ}
    (h : RegOk P ctx.m ctx.f ctx.rf r) : Keeps P R (arrayElemKind ctx r) :=
  keeps_bind (keeps_vmRegKind h) fun _ ↦ keeps_ite (fun _ ↦ keeps_pure _) fun _ ↦
    keeps_bind (keeps_regTypeOf h.regType) fun tid ↦ keeps_elemKindOf hentry ctx.m tid

theorem keeps_opArrayNew (hentry : ∀ pool i len, i < len → P (.entry pool i len))
    (ha : Operand.w8.Ok P ctx ins.ra) (hb : Operand.w4.Ok P ctx ins.rb) :
    Keeps P Quiet (opArrayNew ctx ins) := by
  refine keeps_bind (keeps_vmLoadU32 hb.2) fun len ↦ keeps_bind (keeps_read _) fun limit ↦
    keeps_ite (fun _ ↦ keeps_jelloVmTrap _ (by decide) (by decide)) fun _ ↦ ?_
  exact keeps_bind (keeps_regTypeOf ha.1.regType) fun typeId ↦
    keeps_bind (keeps_elemKindOf hentry _ _) fun elem ↦ keeps_bind (keeps_gcAlloc _) fun a ↦
    keeps_vmStore64 ha.2 _

theorem keeps_opArrayLen (ha : Operand.w4.Ok P ctx ins.ra) (hb : Operand.w8.Ok P ctx ins.rb) :
    Keeps P Quiet (opArrayLen ctx ins) :=
  keeps_bind (keeps_vmLoad64 hb.2) fun p ↦
    keeps_ite (fun _ ↦ keeps_jelloVmTrap _ (by decide) (by decide)) fun _ ↦
    keeps_bind (keeps_arrayAt p) fun _ ↦ keeps_vmStoreU32 ha.2 _

theorem spec_bothF64 (hentry : ∀ pool i len, i < len → P (.entry pool i len)) {r arr : ℕ}
    (h : RegOk P ctx.m ctx.f ctx.rf r) (harr : RegOk P ctx.m ctx.f ctx.rf arr) (s : Store) :
    Spec P (bothF64 ctx r arr)
      (fun b s' ↦ Quiet s s' ∧ (b = true → P (.slot ctx.rf r 8))) s := by
  simp only [bothF64, spec_bind, spec_vmRegKind, spec_ite, spec_pure]
  refine ⟨h.regType, h.entry, fun _ ↦ ⟨refl_of Quiet s, fun hf ↦ absurd hf (by decide)⟩, fun hk ↦ ?_⟩
  have hslot := h.slot_of (not_not.mp hk)
  exact (keeps_arrayElemKind hentry harr).then fun e s' hs ↦ ⟨hs, fun _ ↦ hslot⟩

theorem keeps_ifF64 {x : StoreM Bool} {Q : Prop} {yes no : StoreM Unit}
    (hx : ∀ s, Spec P x (fun b s' ↦ Quiet s s' ∧ (b = true → Q)) s)
    (hyes : Q → Keeps P Quiet yes) (hno : Keeps P Quiet no) :
    Keeps P Quiet (do if ← x then yes else no) := by
  intro s
  refine spec_bind.mpr ((hx s).mono fun b s' hb ↦ ?_)
  cases b with
  | true => exact (hyes (hb.2 rfl) s').mono fun _ _ hs ↦ trans_of Quiet hb.1 hs
  | false => exact (hno s').mono fun _ _ hs ↦ trans_of Quiet hb.1 hs

theorem keeps_getF64 {v : JelloValue} (ha : Operand.any.Ok P ctx ins.ra)
    (hslot : P (.slot ctx.rf ins.ra 8)) :
    Keeps P Quiet (do
      match ← boxF64At v with
      | some x => vmStoreF64 ctx.rf ins.ra x
      | none => vmStoreFromBoxed ctx.m ctx.fpu ctx.f ctx.rf ins.ra v) := by
  refine keeps_bind (keeps_boxF64At v) fun x ↦ ?_
  cases x with
  | some x => exact keeps_vmStore64 hslot _
  | none => exact keeps_vmStoreFromBoxed ha _ _

theorem keeps_opArrayGet (hentry : ∀ pool i len, i < len → P (.entry pool i len))
    (ha : Operand.any.Ok P ctx ins.ra) (hb : Operand.w8.Ok P ctx ins.rb)
    (hc : Operand.w4.Ok P ctx ins.rc) : Keeps P Quiet (opArrayGet ctx ins) := by
  refine keeps_bind (keeps_vmLoad64 hb.2) fun p ↦
    keeps_ite (fun _ ↦ keeps_jelloVmTrap _ (by decide) (by decide)) fun _ ↦
    keeps_bind (keeps_arrayAt p) fun a ↦ keeps_bind (keeps_vmLoadU32 hc.2) fun idx ↦
    keeps_ite (fun _ ↦ keeps_jelloVmTrap _ (by decide) (by decide)) fun _ ↦ ?_
  exact keeps_ifF64 (spec_bothF64 hentry ha hb.1) (fun hslot ↦ keeps_getF64 ha hslot)
    (keeps_vmStoreFromBoxed ha _ _)

theorem keeps_vmStoreNumInplace {r : ℕ} (h : RegOk P ctx.m ctx.f ctx.rf r) (cur : JelloValue) :
    Keeps P R (vmStoreNumInplace ctx.m ctx.f ctx.rf r cur) := by
  intro s
  simp only [vmStoreNumInplace, spec_bind, spec_vmRegKind]
  refine ⟨h.regType, h.entry, ?_⟩
  have hslot := h.slot
  cases hk : regKind ctx.m ctx.f r <;> rw [hk] at hslot
  case f64 =>
    refine keeps_bind (keeps_boxF64At cur) (fun x ↦ ?_) s
    cases x with
    | some x =>
      exact keeps_bind (keeps_cellAt cur) fun c ↦ keeps_bind (keeps_vmLoad64 hslot) fun x ↦
        keeps_bind (keeps_writeCell _ _) fun _ ↦ keeps_pure _
    | none => exact keeps_pure _
  case i64 =>
    refine keeps_bind (keeps_boxI64At cur) (fun x ↦ ?_) s
    cases x with
    | some x =>
      exact keeps_bind (keeps_cellAt cur) fun c ↦ keeps_bind (keeps_vmLoad64 hslot) fun x ↦
        keeps_bind (keeps_writeCell _ _) fun _ ↦ keeps_pure _
    | none => exact keeps_pure _
  case f32 =>
    refine keeps_bind (keeps_boxF32At cur) (fun x ↦ ?_) s
    cases x with
    | some x =>
      exact keeps_bind (keeps_cellAt cur) fun c ↦ keeps_bind (keeps_vmLoadU32 hslot) fun x ↦
        keeps_bind (keeps_writeCell _ _) fun _ ↦ keeps_pure _
    | none => exact keeps_pure _
  case f16 =>
    refine keeps_bind (keeps_boxF16At cur) (fun x ↦ ?_) s
    cases x with
    | some x =>
      exact keeps_bind (keeps_cellAt cur) fun c ↦ keeps_bind (keeps_vmLoadF16Bits hslot) fun x ↦
        keeps_bind (keeps_writeCell _ _) fun _ ↦ keeps_pure _
    | none => exact keeps_pure _
  case i8 | i16 | i32 =>
    refine keeps_ite (fun _ ↦ ?_) (fun _ ↦ keeps_bind (keeps_boxI64At cur) fun x ↦ ?_) s
    · exact keeps_bind (keeps_vmLoadU32 hslot) fun x ↦ keeps_pure _
    · cases x <;> exact keeps_pure _
  all_goals exact keeps_pure _ s

theorem keeps_storeElem {r : ℕ} (h : RegOk P ctx.m ctx.f ctx.rf r) (p : JelloValue)
    (a : JelloArray) (idx : UInt32) : Keeps P R (storeElem ctx r p a idx) := by
  refine keeps_bind (keeps_vmStoreNumInplace h _) fun v ↦ ?_
  cases v with
  | some v => exact keeps_writeCell _ _
  | none => exact keeps_bind (keeps_boxForSlot h) fun v ↦ keeps_writeCell _ _

theorem keeps_setF64 {p v : JelloValue} {a : JelloArray} {idx : UInt32}
    (ha : Operand.any.Ok P ctx ins.ra) (hslot : P (.slot ctx.rf ins.ra 8)) :
    Keeps P Quiet (do
      match ← boxF64At v with
      | some _ => do
        let x ← vmLoadF64 ctx.rf ins.ra
        setBoxF64 v x
      | none => storeElem ctx ins.ra p a idx) := by
  refine keeps_bind (keeps_boxF64At v) fun x ↦ ?_
  cases x with
  | some x =>
    exact keeps_bind (keeps_vmLoad64 hslot) fun x ↦ keeps_bind (keeps_cellAt v) fun c ↦
      keeps_writeCell _ _
  | none => exact keeps_storeElem ha _ _ _

theorem keeps_opArraySet (hentry : ∀ pool i len, i < len → P (.entry pool i len))
    (ha : Operand.any.Ok P ctx ins.ra) (hb : Operand.w8.Ok P ctx ins.rb)
    (hc : Operand.w4.Ok P ctx ins.rc) : Keeps P Quiet (opArraySet ctx ins) := by
  refine keeps_bind (keeps_vmLoad64 hb.2) fun p ↦
    keeps_ite (fun _ ↦ keeps_jelloVmTrap _ (by decide) (by decide)) fun _ ↦
    keeps_bind (keeps_arrayAt p) fun a ↦ keeps_bind (keeps_vmLoadU32 hc.2) fun idx ↦
    keeps_ite (fun _ ↦ keeps_jelloVmTrap _ (by decide) (by decide)) fun _ ↦ ?_
  exact keeps_ifF64 (spec_bothF64 hentry ha hb.1) (fun hslot ↦ keeps_setF64 ha hslot)
    (keeps_storeElem ha _ _ _)

theorem keeps_cloneElems (data : ℕ → JelloValue) (n i : ℕ) :
    Keeps P Quiet (cloneElems data i n) := by
  induction n generalizing i with
  | zero => exact keeps_pure _
  | succ n ih =>
    exact keeps_bind (keeps_cloneNumbox _) fun v ↦ keeps_bind (ih (i + 1)) fun vs ↦ keeps_pure _

theorem keeps_opArrayConcat2 (ha : Operand.w8.Ok P ctx ins.ra) (hb : Operand.w8.Ok P ctx ins.rb)
    (hc : Operand.w8.Ok P ctx ins.rc) : Keeps P Quiet (opArrayConcat2 ctx ins) := by
  refine keeps_bind (keeps_vmLoad64 hb.2) fun px ↦
    keeps_ite (fun _ ↦ keeps_jelloVmTrap _ (by decide) (by decide)) fun _ ↦
    keeps_bind (keeps_vmLoad64 hc.2) fun py ↦
    keeps_ite (fun _ ↦ keeps_jelloVmTrap _ (by decide) (by decide)) fun _ ↦
    keeps_bind (keeps_arrayAt px) fun x ↦ keeps_bind (keeps_arrayAt py) fun y ↦
    keeps_bind (keeps_read _) fun limit ↦
    keeps_ite (fun _ ↦ keeps_jelloVmTrap _ (by decide) (by decide)) fun _ ↦
    keeps_ite (fun _ ↦ keeps_jelloVmTrap _ (by decide) (by decide)) fun _ ↦
    keeps_bind (keeps_regTypeOf ha.1.regType) fun typeId ↦
    keeps_ite (fun _ ↦ keeps_jelloVmTrap _ (by decide) (by decide)) fun _ ↦ ?_
  exact keeps_bind (keeps_gcAlloc _) fun out ↦ keeps_bind (keeps_cloneElems _ _ _) fun xs ↦
    keeps_bind (keeps_cloneElems _ _ _) fun ys ↦ keeps_bind (keeps_writeCell _ _) fun _ ↦
    keeps_vmStore64 ha.2 _

theorem keeps_jelloArrayDefaultElem (hentry : ∀ pool i len, i < len → P (.entry pool i len))
    (m : JelloBcModule) (typeId : ℕ) : Keeps P Quiet (jelloArrayDefaultElem m typeId) := by
  refine keeps_bind (keeps_elemKindOf hentry m typeId) fun k ↦ ?_
  split <;> exact keeps_pure _

theorem keeps_opArrayResize (hentry : ∀ pool i len, i < len → P (.entry pool i len))
    (hb : Operand.w8.Ok P ctx ins.rb) (hc : Operand.w4.Ok P ctx ins.rc) :
    Keeps P Quiet (opArrayResize ctx ins) := by
  refine keeps_bind (keeps_vmLoad64 hb.2) fun p ↦
    keeps_ite (fun _ ↦ keeps_jelloVmTrap _ (by decide) (by decide)) fun _ ↦
    keeps_bind (keeps_vmLoadU32 hc.2) fun len ↦ keeps_bind (keeps_arrayAt p) fun a ↦
    keeps_bind (keeps_read _) fun limit ↦
    keeps_ite (fun _ ↦ keeps_jelloVmTrap _ (by decide) (by decide)) fun _ ↦
    keeps_ite (fun _ ↦ keeps_pure _) fun _ ↦ keeps_ite (fun _ ↦ keeps_writeCell _ _) fun _ ↦ ?_
  exact keeps_bind (keeps_jelloArrayDefaultElem hentry _ _) fun dv ↦ keeps_writeCell _ _

theorem keeps_jelloEnumNullaryIntern (typeId : ℕ) (tag : UInt32) :
    Keeps P Quiet (jelloEnumNullaryIntern typeId tag) := by
  refine keeps_bind (keeps_read _) fun ntypes ↦ keeps_ite (fun _ ↦ keeps_gcAlloc _) fun _ ↦
    keeps_bind (keeps_read _) fun e ↦ keeps_ite (fun _ ↦ keeps_pure _) fun _ ↦
    keeps_bind (keeps_gcAlloc _) fun e ↦ keeps_bind (keeps_change fun _ ↦ ?_) fun _ ↦ keeps_pure _
  exact lenient_data rfl rfl ⟨rfl, rfl, rfl, rfl⟩ rfl

theorem keeps_enumFields (n r : ℕ)
    (h : ∀ i, r ≤ i → i < r + n → RegOk P ctx.m ctx.f ctx.rf i) :
    Keeps P Quiet (enumFields ctx r n) := by
  induction n generalizing r with
  | zero => exact keeps_pure _
  | succ n ih =>
    refine keeps_ite (fun _ ↦ keeps_fail _) fun _ ↦
      keeps_bind (keeps_vmBoxFromTyped (h r le_rfl (by omega))) fun v ↦ ?_
    have hrest := ih (r + 1) fun i hi hin ↦ h i (by omega) (by omega)
    exact keeps_bind hrest fun vs ↦ keeps_pure _

theorem keeps_opEnumNew (ha : Operand.w8.Ok P ctx ins.ra)
    (hfields : ∀ r, ins.rb ≤ r → r < ins.rb + ins.rc → RegOk P ctx.m ctx.f ctx.rf r) :
    Keeps P Quiet (opEnumNew ctx ins) := by
  refine keeps_bind (keeps_regTypeOf ha.1.regType) fun typeId ↦ keeps_ite (fun _ ↦ ?_) fun _ ↦ ?_
  · exact keeps_bind (keeps_jelloEnumNullaryIntern _ _) fun e ↦ keeps_vmStore64 ha.2 _
  · exact keeps_bind (keeps_enumFields _ _ hfields) fun fields ↦ keeps_bind (keeps_gcAlloc _)
      fun e ↦ keeps_vmStore64 ha.2 _

theorem keeps_opEnumTag (ha : Operand.w4.Ok P ctx ins.ra) (hb : Operand.w8.Ok P ctx ins.rb) :
    Keeps P Quiet (opEnumTag ctx ins) := by
  refine keeps_bind (keeps_vmLoad64 hb.2) fun p ↦
    keeps_ite (fun _ ↦ keeps_jelloVmTrap _ (by decide) (by decide)) fun _ ↦
    keeps_bind (keeps_cellAt p) fun c ↦ ?_
  cases c
  case enum e => exact keeps_vmStoreU32 ha.2 _
  all_goals exact keeps_jelloVmTrap _ (by decide) (by decide)

theorem keeps_opEnumGet (ha : Operand.any.Ok P ctx ins.ra) (hb : Operand.w8.Ok P ctx ins.rb)
    (hc : Operand.w4.Ok P ctx ins.rc) : Keeps P Quiet (opEnumGet ctx ins) := by
  refine keeps_bind (keeps_vmLoad64 hb.2) fun p ↦
    keeps_ite (fun _ ↦ keeps_jelloVmTrap _ (by decide) (by decide)) fun _ ↦
    keeps_bind (keeps_cellAt p) fun c ↦ ?_
  cases c
  case enum e =>
    exact keeps_bind (keeps_vmLoadU32 hc.2) fun idx ↦
      keeps_ite (fun _ ↦ keeps_jelloVmTrap _ (by decide) (by decide)) fun _ ↦
      keeps_vmStoreFromBoxed ha _ _
  all_goals exact keeps_jelloVmTrap _ (by decide) (by decide)

end Container

section Objects

variable {P : Access → Prop} {R : Store → Store → Prop} [Lenient R] {ctx : Ctx} {ins : JelloInsn}

theorem keeps_opObjNew (ha : Operand.w8.Ok P ctx ins.ra) : Keeps P Quiet (opObjNew ctx ins) :=
  keeps_bind (keeps_regTypeOf ha.1.regType) fun _ ↦ keeps_bind (keeps_gcAlloc _) fun _ ↦
    keeps_vmStore64 ha.2 _

theorem keeps_opObjHasAtom (ha : Operand.w4.Ok P ctx ins.ra) (hb : Operand.w8.Ok P ctx ins.rb)
    (himm : P (.entry .atoms ins.imm.toNat ctx.m.atoms.length)) :
    Keeps P Quiet (opObjHasAtom ctx ins) := by
  refine keeps_bind (keeps_vmLoad64 hb.2) fun p ↦
    keeps_ite (fun _ ↦ keeps_jelloVmTrap _ (by decide) (by decide)) fun _ ↦
    keeps_bind (keeps_note himm) fun _ ↦ keeps_bind (keeps_objectAt p) fun o ↦ ?_
  exact keeps_bind (keeps_orDiverge _) fun r ↦ keeps_bind (keeps_writeCell _ _) fun _ ↦
    keeps_vmStoreU32 ha.2 _

theorem keeps_objUpdateProtoCache (m : JelloBcModule) (p v : JelloValue) :
    Keeps P R (objUpdateProtoCache m p v) := by
  refine keeps_ite (fun _ ↦ keeps_pure _) fun _ ↦ keeps_bind (keeps_objectAt p) fun o ↦
    keeps_ite (fun _ ↦ keeps_bind (keeps_cellAt v) fun c ↦ ?_) fun _ ↦ keeps_writeCell _ _
  cases c <;> exact keeps_writeCell _ _

theorem keeps_protoWalk (atomId : UInt32) (n : ℕ) (cur : JelloValue) :
    Keeps P Quiet (protoWalk ctx atomId n cur) := by
  induction n generalizing cur with
  | zero => exact keeps_trapThen _ _ (by decide) (by decide)
  | succ n ih =>
    refine keeps_bind (keeps_objectAt cur) fun o ↦ keeps_bind (keeps_orDiverge _) fun r ↦
      keeps_bind (keeps_writeCell _ _) fun _ ↦ ?_
    cases r.1 with
    | some i => exact keeps_pure _
    | none => exact keeps_ite (fun _ ↦ keeps_pure _) fun _ ↦ ih _

theorem keeps_vmObjGetAtomTyped {dst obj : ℕ} {atomId : UInt32} (slotHint : UInt32)
    (h : RegOk P ctx.m ctx.f ctx.rf dst) (hobj : P (.slot ctx.rf obj 8))
    (himm : P (.entry .atoms atomId.toNat ctx.m.atoms.length)) :
    Keeps P Quiet (vmObjGetAtomTyped ctx dst obj atomId slotHint) := by
  have hboxed (v : JelloValue) := keeps_vmStoreFromBoxed (R := Quiet) h ctx.fpu v
  refine keeps_bind (keeps_vmLoad64 hobj) fun p ↦
    keeps_ite (fun _ ↦ keeps_trapThen _ _ (by decide) (by decide)) fun _ ↦
    keeps_bind (keeps_note himm) fun _ ↦ keeps_bind (keeps_objectAt p) fun o ↦
    keeps_ite (fun _ ↦ ?_) fun _ ↦ keeps_bind (keeps_protoWalk _ _ _) fun v ↦ ?_
  · refine keeps_bind (keeps_orDiverge _) fun r ↦ keeps_bind (keeps_writeCell _ _) fun _ ↦ ?_
    intro s
    simp only [spec_bind, spec_vmRegKind]
    refine ⟨h.regType, h.entry, ?_⟩
    have hslot := h.slot
    cases hk : regKind ctx.m ctx.f dst <;> rw [hk] at hslot
    case i8 | i16 | i32 =>
      exact keeps_ite (fun _ ↦ keeps_bind (keeps_vmStoreU32 hslot _) fun _ ↦ keeps_pure _)
        (fun _ ↦ keeps_bind (hboxed _) fun _ ↦ keeps_pure _) s
    case f64 =>
      refine keeps_bind (keeps_boxF64At _) (fun x ↦ ?_) s
      cases x with
      | some x => exact keeps_bind (keeps_vmStore64 hslot _) fun _ ↦ keeps_pure _
      | none => exact keeps_bind (hboxed _) fun _ ↦ keeps_pure _
    case f32 =>
      refine keeps_bind (keeps_boxF32At _) (fun x ↦ ?_) s
      cases x with
      | some x => exact keeps_bind (keeps_vmStoreU32 hslot _) fun _ ↦ keeps_pure _
      | none => exact keeps_bind (hboxed _) fun _ ↦ keeps_pure _
    case i64 =>
      refine keeps_bind (keeps_boxI64At _) (fun x ↦ ?_) s
      cases x with
      | some x => exact keeps_bind (keeps_vmStore64 hslot _) fun _ ↦ keeps_pure _
      | none => exact keeps_bind (hboxed _) fun _ ↦ keeps_pure _
    all_goals exact keeps_bind (hboxed _) (fun _ ↦ keeps_pure _) s
  · cases v with
    | none => exact keeps_pure _
    | some v => exact keeps_bind (hboxed v) fun _ ↦ keeps_pure _

theorem keeps_objStoreSlot {r : ℕ} (h : RegOk P ctx.m ctx.f ctx.rf r) (p : JelloValue)
    (atomId i : UInt32) : Keeps P R (objStoreSlot ctx r p atomId i) :=
  keeps_bind (keeps_boxForSlot h) fun v ↦ keeps_bind (keeps_objectAt p) fun _ ↦
    keeps_bind (keeps_writeCell _ _) fun _ ↦
    keeps_ite (fun _ ↦ keeps_objUpdateProtoCache ctx.m p v) fun _ ↦ keeps_pure _

theorem keeps_objStoreTyped {r : ℕ} (h : RegOk P ctx.m ctx.f ctx.rf r) (p : JelloValue)
    (atomId i : UInt32) (existed : Bool) : Keeps P R (objStoreTyped ctx r p atomId i existed) := by
  refine keeps_ite (fun _ ↦ ?_) fun _ ↦ keeps_objStoreSlot h p atomId i
  refine keeps_bind (keeps_objectAt p) fun o ↦ keeps_bind (keeps_vmStoreNumInplace h _) fun v ↦ ?_
  cases v with
  | some v => exact keeps_bind (keeps_objectAt p) fun o ↦ keeps_writeCell _ _
  | none => exact keeps_objStoreSlot h p atomId i

theorem keeps_vmObjSetAtomTyped {src obj : ℕ} {atomId : UInt32} (slotHint : UInt32)
    (h : RegOk P ctx.m ctx.f ctx.rf src) (hobj : P (.slot ctx.rf obj 8))
    (himm : P (.entry .atoms atomId.toNat ctx.m.atoms.length)) :
    Keeps P Quiet (vmObjSetAtomTyped ctx src obj atomId slotHint) := by
  refine keeps_bind (keeps_vmLoad64 hobj) fun p ↦
    keeps_ite (fun _ ↦ keeps_trapThen _ _ (by decide) (by decide)) fun _ ↦
    keeps_bind (keeps_note himm) fun _ ↦ keeps_bind (keeps_objectAt p) fun o ↦ ?_
  exact keeps_bind (keeps_orDiverge _) fun r ↦ keeps_bind (keeps_writeCell _ _) fun _ ↦
    keeps_bind (keeps_objStoreTyped h _ _ _ _) fun _ ↦ keeps_pure _

theorem keeps_opObjGetAtom (ha : Operand.any.Ok P ctx ins.ra) (hb : Operand.w8.Ok P ctx ins.rb)
    (himm : P (.entry .atoms ins.imm.toNat ctx.m.atoms.length)) :
    Keeps P Quiet (opObjGetAtom ctx ins) :=
  keeps_bind (keeps_vmObjGetAtomTyped _ ha hb.2 himm) fun _ ↦ keeps_pure _

theorem keeps_opObjSetAtom (ha : Operand.any.Ok P ctx ins.ra) (hb : Operand.w8.Ok P ctx ins.rb)
    (himm : P (.entry .atoms ins.imm.toNat ctx.m.atoms.length)) :
    Keeps P Quiet (opObjSetAtom ctx ins) :=
  keeps_bind (keeps_vmObjSetAtomTyped _ ha hb.2 himm) fun _ ↦ keeps_pure _

theorem keeps_opObjGet (ha : Operand.any.Ok P ctx ins.ra) (hb : Operand.w8.Ok P ctx ins.rb)
    (hc : Operand.w4.Ok P ctx ins.rc) : Keeps P Quiet (opObjGet ctx ins) := by
  have hboxed (v : JelloValue) := keeps_vmStoreFromBoxed (R := Quiet) ha ctx.fpu v
  refine keeps_bind (keeps_vmLoad64 hb.2) fun p ↦ keeps_ite (fun _ ↦ keeps_fail _) fun _ ↦
    keeps_bind (keeps_vmLoadU32 hc.2) fun atomId ↦
    keeps_ite (fun _ ↦ keeps_jelloVmTrap _ (by decide) (by decide)) fun _ ↦
    keeps_ite (fun _ ↦ ?_) fun _ ↦ keeps_bind (keeps_protoWalk _ _ _) fun v ↦ ?_
  · exact keeps_bind (keeps_objectAt p) fun o ↦ keeps_bind (keeps_orDiverge _) fun r ↦
      keeps_bind (keeps_writeCell _ _) fun _ ↦ hboxed _
  · cases v with
    | none => exact keeps_pure _
    | some v => exact hboxed v

theorem keeps_opObjSet (ha : Operand.any.Ok P ctx ins.ra) (hb : Operand.w8.Ok P ctx ins.rb)
    (hc : Operand.w4.Ok P ctx ins.rc) : Keeps P Quiet (opObjSet ctx ins) := by
  refine keeps_bind (keeps_vmLoad64 hb.2) fun p ↦ keeps_ite (fun _ ↦ keeps_fail _) fun _ ↦
    keeps_bind (keeps_vmLoadU32 hc.2) fun atomId ↦
    keeps_ite (fun _ ↦ keeps_jelloVmTrap _ (by decide) (by decide)) fun _ ↦ ?_
  exact keeps_bind (keeps_objectAt p) fun o ↦ keeps_bind (keeps_orDiverge _) fun r ↦
    keeps_bind (keeps_writeCell _ _) fun _ ↦ keeps_objStoreTyped ha _ _ _ _

theorem keeps_opObjHas (ha : Operand.w4.Ok P ctx ins.ra) (hb : Operand.w8.Ok P ctx ins.rb)
    (hc : Operand.w4.Ok P ctx ins.rc) : Keeps P Quiet (opObjHas ctx ins) := by
  refine keeps_bind (keeps_vmLoad64 hb.2) fun p ↦
    keeps_ite (fun _ ↦ keeps_jelloVmTrap _ (by decide) (by decide)) fun _ ↦
    keeps_bind (keeps_vmLoadU32 hc.2) fun atomId ↦
    keeps_ite (fun _ ↦ keeps_jelloVmTrap _ (by decide) (by decide)) fun _ ↦ ?_
  exact keeps_bind (keeps_objectAt p) fun o ↦ keeps_bind (keeps_orDiverge _) fun r ↦
    keeps_bind (keeps_writeCell _ _) fun _ ↦ keeps_vmStoreU32 ha.2 _

theorem keeps_opObjRemove (ha : Operand.w4.Ok P ctx ins.ra) (hb : Operand.w8.Ok P ctx ins.rb)
    (hc : Operand.w4.Ok P ctx ins.rc) : Keeps P Quiet (opObjRemove ctx ins) := by
  refine keeps_bind (keeps_vmLoad64 hb.2) fun p ↦
    keeps_ite (fun _ ↦ keeps_jelloVmTrap _ (by decide) (by decide)) fun _ ↦
    keeps_bind (keeps_vmLoadU32 hc.2) fun atomId ↦
    keeps_ite (fun _ ↦ keeps_jelloVmTrap _ (by decide) (by decide)) fun _ ↦ ?_
  exact keeps_bind (keeps_objectAt p) fun o ↦ keeps_bind (keeps_orDiverge _) fun r ↦
    keeps_bind (keeps_writeCell _ _) fun _ ↦ keeps_vmStoreU32 ha.2 _

theorem keeps_opObjClear (hb : Operand.w8.Ok P ctx ins.rb) : Keeps P Quiet (opObjClear ctx ins) :=
  keeps_bind (keeps_vmLoad64 hb.2) fun p ↦
    keeps_ite (fun _ ↦ keeps_jelloVmTrap _ (by decide) (by decide)) fun _ ↦
    keeps_bind (keeps_objectAt p) fun _ ↦ keeps_writeCell _ _

theorem keeps_opObjCopy (ha : Operand.w8.Ok P ctx ins.ra) (hb : Operand.w8.Ok P ctx ins.rb) :
    Keeps P Quiet (opObjCopy ctx ins) := by
  have hheap (heap : Heap) : Keeps P Quiet (change fun s ↦ { s with heap := heap } : StoreM Unit) :=
    keeps_change fun _ ↦ lenient_data rfl rfl ⟨rfl, rfl, rfl, rfl⟩ rfl
  refine keeps_bind (keeps_vmLoad64 hb.2) fun p ↦
    keeps_ite (fun _ ↦ keeps_jelloVmTrap _ (by decide) (by decide)) fun _ ↦
    keeps_bind (keeps_objectAt p) fun src ↦ keeps_bind (keeps_gcAlloc _) fun q ↦
    keeps_bind (keeps_objectAt q) fun dst ↦ keeps_bind (keeps_read _) fun copied ↦ ?_
  exact keeps_bind (keeps_orDiverge _) fun r ↦ keeps_bind (hheap _) fun _ ↦
    keeps_bind (keeps_writeCell _ _) fun _ ↦ keeps_vmStore64 ha.2 _

theorem keeps_consKeys (typeId : ℕ) (o : JelloObject) (n i : ℕ) (tail : JelloValue) :
    Keeps P Quiet (consKeys typeId o i n tail) := by
  induction n generalizing i tail with
  | zero => exact keeps_pure _
  | succ n ih =>
    exact keeps_ite (fun _ ↦ keeps_bind (keeps_gcAlloc _) fun tail ↦ ih _ _) fun _ ↦ ih _ _

theorem keeps_opObjKeys (ha : Operand.w8.Ok P ctx ins.ra) (hb : Operand.w8.Ok P ctx ins.rb) :
    Keeps P Quiet (opObjKeys ctx ins) := by
  refine keeps_bind (keeps_vmLoad64 hb.2) fun p ↦
    keeps_ite (fun _ ↦ keeps_jelloVmTrap _ (by decide) (by decide)) fun _ ↦
    keeps_bind (keeps_objectAt p) fun o ↦ keeps_bind (keeps_regTypeOf ha.1.regType) fun typeId ↦ ?_
  exact keeps_bind (keeps_consKeys _ _ _ _ _) fun keys ↦ keeps_vmStore64 ha.2 _

end Objects

section Bytes

variable {P : Access → Prop} {R : Store → Store → Prop} [Lenient R] {ctx : Ctx} {ins : JelloInsn}

theorem keeps_opBytesNew (ha : Operand.w8.Ok P ctx ins.ra) (hb : Operand.w4.Ok P ctx ins.rb) :
    Keeps P Quiet (opBytesNew ctx ins) :=
  keeps_bind (keeps_vmLoadU32 hb.2) fun _ ↦ keeps_bind (keeps_read _) fun _ ↦
    keeps_ite (fun _ ↦ keeps_jelloVmTrap _ (by decide) (by decide)) fun _ ↦
    keeps_bind (keeps_regTypeOf ha.1.regType) fun _ ↦ keeps_bind (keeps_gcAlloc _) fun _ ↦
    keeps_vmStore64 ha.2 _

theorem keeps_opBytesLen (ha : Operand.w4.Ok P ctx ins.ra) (hb : Operand.w8.Ok P ctx ins.rb) :
    Keeps P Quiet (opBytesLen ctx ins) :=
  keeps_bind (keeps_vmLoad64 hb.2) fun p ↦
    keeps_ite (fun _ ↦ keeps_jelloVmTrap _ (by decide) (by decide)) fun _ ↦
    keeps_bind (keeps_bytesAt p) fun _ ↦ keeps_vmStoreU32 ha.2 _

theorem keeps_opBytesEq (ha : Operand.w4.Ok P ctx ins.ra) (hb : Operand.w8.Ok P ctx ins.rb)
    (hc : Operand.w8.Ok P ctx ins.rc) : Keeps P Quiet (opBytesEq ctx ins) :=
  keeps_bind (keeps_vmLoad64 hb.2) fun pa ↦ keeps_bind (keeps_vmLoad64 hc.2) fun pb ↦
    keeps_ite (fun _ ↦ keeps_vmStoreU32 ha.2 _) fun _ ↦
    keeps_ite (fun _ ↦ keeps_vmStoreU32 ha.2 _) fun _ ↦
    keeps_bind (keeps_bytesAt pa) fun _ ↦ keeps_bind (keeps_bytesAt pb) fun _ ↦
    keeps_vmStoreU32 ha.2 _

theorem keeps_opBytesGetU8 (ha : Operand.w4.Ok P ctx ins.ra) (hb : Operand.w8.Ok P ctx ins.rb)
    (hc : Operand.w4.Ok P ctx ins.rc) : Keeps P Quiet (opBytesGetU8 ctx ins) :=
  keeps_bind (keeps_vmLoad64 hb.2) fun p ↦
    keeps_ite (fun _ ↦ keeps_jelloVmTrap _ (by decide) (by decide)) fun _ ↦
    keeps_bind (keeps_bytesAt p) fun _ ↦ keeps_bind (keeps_vmLoadU32 hc.2) fun _ ↦
    keeps_ite (fun _ ↦ keeps_jelloVmTrap _ (by decide) (by decide)) fun _ ↦
    keeps_vmStoreU32 ha.2 _

theorem keeps_opBytesSetU8 (ha : Operand.w4.Ok P ctx ins.ra) (hb : Operand.w8.Ok P ctx ins.rb)
    (hc : Operand.w4.Ok P ctx ins.rc) : Keeps P Quiet (opBytesSetU8 ctx ins) :=
  keeps_bind (keeps_vmLoad64 hb.2) fun p ↦
    keeps_ite (fun _ ↦ keeps_jelloVmTrap _ (by decide) (by decide)) fun _ ↦
    keeps_bind (keeps_bytesAt p) fun _ ↦ keeps_bind (keeps_vmLoadU32 hc.2) fun _ ↦
    keeps_ite (fun _ ↦ keeps_jelloVmTrap _ (by decide) (by decide)) fun _ ↦
    keeps_bind (keeps_vmLoadU32 ha.2) fun _ ↦
    keeps_ite (fun _ ↦ keeps_jelloVmTrap _ (by decide) (by decide)) fun _ ↦ keeps_writeCell _ _

theorem keeps_opBytesConcat2 (ha : Operand.w8.Ok P ctx ins.ra) (hb : Operand.w8.Ok P ctx ins.rb)
    (hc : Operand.w8.Ok P ctx ins.rc) : Keeps P Quiet (opBytesConcat2 ctx ins) := by
  refine keeps_bind (keeps_vmLoad64 hb.2) fun px ↦
    keeps_ite (fun _ ↦ keeps_jelloVmTrap _ (by decide) (by decide)) fun _ ↦
    keeps_bind (keeps_vmLoad64 hc.2) fun py ↦
    keeps_ite (fun _ ↦ keeps_jelloVmTrap _ (by decide) (by decide)) fun _ ↦
    keeps_bind (keeps_bytesAt px) fun x ↦ keeps_bind (keeps_bytesAt py) fun y ↦
    keeps_bind (keeps_read _) fun limit ↦
    keeps_ite (fun _ ↦ keeps_jelloVmTrap _ (by decide) (by decide)) fun _ ↦
    keeps_ite (fun _ ↦ keeps_jelloVmTrap _ (by decide) (by decide)) fun _ ↦ ?_
  exact keeps_bind (keeps_regTypeOf ha.1.regType) fun typeId ↦ keeps_bind (keeps_gcAlloc _)
    fun b ↦ keeps_vmStore64 ha.2 _

theorem keeps_concatParts (data : ℕ → JelloValue) (n i total : ℕ) :
    Keeps P Quiet (concatParts ctx data i n total) := by
  induction n generalizing i total with
  | zero => exact keeps_pure _
  | succ n ih =>
    refine keeps_ite (fun _ ↦ keeps_trapThen _ _ (by decide) (by decide)) fun _ ↦
      keeps_ite (fun _ ↦ keeps_trapThen _ _ (by decide) (by decide)) fun _ ↦
      keeps_bind (keeps_cellAt _) fun c ↦ ?_
    cases c
    case bytes b =>
      refine keeps_ite (fun _ ↦ keeps_trapThen _ _ (by decide) (by decide)) fun _ ↦
        keeps_bind (ih _ _) fun r ↦ ?_
      cases r <;> exact keeps_pure _
    all_goals exact keeps_trapThen _ _ (by decide) (by decide)

theorem keeps_opBytesConcatMany (ha : Operand.w8.Ok P ctx ins.ra)
    (hb : Operand.w8.Ok P ctx ins.rb) : Keeps P Quiet (opBytesConcatMany ctx ins) := by
  refine keeps_bind (keeps_vmLoad64 hb.2) fun p ↦
    keeps_ite (fun _ ↦ keeps_jelloVmTrap _ (by decide) (by decide)) fun _ ↦
    keeps_bind (keeps_arrayAt p) fun parts ↦ keeps_bind (keeps_concatParts _ _ _ _) fun r ↦ ?_
  cases r with
  | none => exact keeps_pure _
  | some r =>
    exact keeps_bind (keeps_read _) fun limit ↦
      keeps_ite (fun _ ↦ keeps_jelloVmTrap _ (by decide) (by decide)) fun _ ↦
      keeps_bind (keeps_regTypeOf ha.1.regType) fun typeId ↦ keeps_bind (keeps_gcAlloc _)
      fun b ↦ keeps_vmStore64 ha.2 _

theorem keeps_bytesBitwise2 (name : String) (binop : UInt8 → UInt8 → UInt8)
    (ha : Operand.w8.Ok P ctx ins.ra) (hb : Operand.w8.Ok P ctx ins.rb)
    (hc : Operand.w8.Ok P ctx ins.rc) : Keeps P Quiet (bytesBitwise2 name binop ctx ins) := by
  refine keeps_bind (keeps_vmLoad64 hb.2) fun px ↦
    keeps_ite (fun _ ↦ keeps_jelloVmTrap _ (by decide) (by decide)) fun _ ↦
    keeps_bind (keeps_vmLoad64 hc.2) fun py ↦
    keeps_ite (fun _ ↦ keeps_jelloVmTrap _ (by decide) (by decide)) fun _ ↦
    keeps_bind (keeps_bytesAt px) fun x ↦ keeps_bind (keeps_bytesAt py) fun y ↦
    keeps_bind (keeps_read _) fun limit ↦
    keeps_ite (fun _ ↦ keeps_jelloVmTrap _ (by decide) (by decide)) fun _ ↦
    keeps_ite (fun _ ↦ keeps_jelloVmTrap _ (by decide) (by decide)) fun _ ↦ ?_
  exact keeps_bind (keeps_regTypeOf ha.1.regType) fun typeId ↦ keeps_bind (keeps_gcAlloc _)
    fun b ↦ keeps_vmStore64 ha.2 _

theorem keeps_bytesRw (name : String) (width : UInt32) (hb : Operand.w8.Ok P ctx ins.rb)
    (hc : Operand.w4.Ok P ctx ins.rc) : Keeps P Quiet (bytesRw name width ctx ins) :=
  keeps_bind (keeps_vmLoad64 hb.2) fun p ↦
    keeps_ite (fun _ ↦ keeps_trapThen _ _ (by decide) (by decide)) fun _ ↦
    keeps_bind (keeps_vmLoadU32 hc.2) fun _ ↦
    keeps_ite (fun _ ↦ keeps_trapThen _ _ (by decide) (by decide)) fun _ ↦
    keeps_bind (keeps_bytesAt p) fun _ ↦
    keeps_ite (fun _ ↦ keeps_trapThen _ _ (by decide) (by decide)) fun _ ↦ keeps_pure _

theorem keeps_bytesRead (name : String) (width : UInt32) (e : Endian)
    (ha : Operand.w4.Ok P ctx ins.ra) (hb : Operand.w8.Ok P ctx ins.rb)
    (hc : Operand.w4.Ok P ctx ins.rc) : Keeps P Quiet (bytesRead name width e ctx ins) := by
  refine keeps_bind (keeps_bytesRw name width hb hc) fun r ↦ ?_
  cases r with
  | none => exact keeps_pure _
  | some r => exact keeps_vmStoreU32 ha.2 _

theorem keeps_bytesWrite (name : String) (width : UInt32) (e : Endian)
    (ha : Operand.w4.Ok P ctx ins.ra) (hb : Operand.w8.Ok P ctx ins.rb)
    (hc : Operand.w4.Ok P ctx ins.rc) : Keeps P Quiet (bytesWrite name width e ctx ins) := by
  refine keeps_bind (keeps_bytesRw name width hb hc) fun r ↦ ?_
  cases r with
  | none => exact keeps_pure _
  | some r => exact keeps_bind (keeps_vmLoadU32 ha.2) fun v ↦ keeps_writeCell _ _

end Bytes

section Table

variable {P : Access → Prop} {R : Store → Store → Prop} [Lenient R] {ctx : Ctx} {ins : JelloInsn}

theorem keeps_dataOp (h : OpOk P ctx ins) (hpush : ins.op ≠ .spillPush)
    (hpop : ins.op ≠ .spillPop) : Keeps P Quiet (dataOp ins.op ctx ins) := by
  have ha := h.a
  have hb := h.b
  have hc := h.c
  have himm := h.imm
  have hrange := h.range
  have hmov := h.mov
  have hentry := h.entry
  clear h
  generalize ins.op = op at *
  cases op
  case nop => exact keeps_pure _
  case mov => exact keeps_opMov ha (hmov rfl)
  case constFun => exact keeps_opConstFun ha hentry
  case closure => exact keeps_opClosure ha (himm _ _ rfl) (hrange (.inl rfl))
  case bindThis => exact keeps_opBindThis ha hb hc
  case constI32 | constI8Imm | constBool | constF16 | constF32 => exact keeps_vmStoreU32 ha.2 _
  case constNull => exact keeps_vmStore64 ha.2 _
  case constAtom => exact keeps_opConstAtom ha (himm _ _ rfl)
  case constI64 | constF64 => exact keeps_constPool ha (himm _ _ rfl)
  case constBytes => exact keeps_opConstBytes ha (himm _ _ rfl) hentry
  case bytesConcat2 => exact keeps_opBytesConcat2 ha hb hc
  case bytesConcatMany => exact keeps_opBytesConcatMany ha hb
  case addI32 | subI32 | mulI32 | divI32 | modI32 | shlI32 | shrI32 | bitandI32 | bitorI32
      | bitxorI32 => exact keeps_binI32Masked _ ha hb hc
  case addI32Imm | subI32Imm | mulI32Imm => exact keeps_binI32ImmMasked _ ha hb
  case addI64 | subI64 | mulI64 | divI64 | modI64 | shlI64 | shrI64 | bitandI64 | bitorI64
      | bitxorI64 | addF64 | subF64 | mulF64 | divF64 => exact keeps_bin64 _ ha hb hc
  case addF16 | subF16 | mulF16 => exact keeps_binF16 _ ha hb hc
  case addF32 | subF32 | mulF32 | divF32 | eqI32 | ltI32 | eqF32 | ltF32 =>
    exact keeps_bin32 _ ha hb hc
  case negI32 => exact keeps_unI32Masked _ ha hb
  case negI64 | negF64 | f64FromI64 => exact keeps_un64 _ ha hb
  case negF32 | notBool | sextI16 | truncI8 | truncI16 | f32FromI32 | f16FromF32 | f32FromF16
      | f16FromI32 => exact keeps_un32 _ ha hb
  case eqI32Imm => exact keeps_cmpI32Imm (fun a i ↦ i32 a == i32 i) ha hb
  case ltI32Imm => exact keeps_cmpI32Imm (fun a i ↦ i32 a < i32 i) ha hb
  case eqI64 | ltI64 | eqF64 | ltF64 => exact keeps_cmp64 _ ha hb hc
  case sextI64 | f64FromI32 | f64FromF32 => exact keeps_widen _ ha hb
  case i32FromI64 | f32FromF64 | f32FromI64 => exact keeps_narrow _ ha hb
  case i32FromF64 => exact keeps_opI32FromF64 ha hb
  case i64FromF64 => exact keeps_opI64FromF64 ha hb
  case i32FromF32 | i32FromF16 => exact keeps_checkedI32From32 _ ha hb
  case i64FromF32 => exact keeps_opI64FromF32 ha hb
  case toDyn => exact keeps_opToDyn ha hb
  case fromDynI8 | fromDynI16 | fromDynI32 => exact keeps_fromDynInt _ _ ha hb
  case fromDynI64 => exact keeps_opFromDynI64 ha hb
  case fromDynF16 => exact keeps_opFromDynF16 ha hb
  case fromDynF32 => exact keeps_opFromDynF32 ha hb
  case fromDynF64 => exact keeps_opFromDynF64 ha hb
  case fromDynBool => exact keeps_opFromDynBool ha hb
  case fromDynAtom => exact keeps_opFromDynAtom ha hb
  case fromDynPtr => exact keeps_opFromDynPtr ha hb
  case spillPush => exact absurd rfl hpush
  case spillPop => exact absurd rfl hpop
  case physeq => exact keeps_opPhyseq ha hb hc
  case kindof => exact keeps_opKindof ha hb
  case listNil => exact keeps_vmStore64 ha.2 _
  case listCons => exact keeps_opListCons ha hb hc
  case listHead => exact keeps_opListHead ha hb
  case listTail => exact keeps_opListTail ha hb
  case listIsNil => exact keeps_opListIsNil ha hb
  case arrayNew => exact keeps_opArrayNew hentry ha hb
  case arrayLen => exact keeps_opArrayLen ha hb
  case arrayGet => exact keeps_opArrayGet hentry ha hb hc
  case arraySet => exact keeps_opArraySet hentry ha hb hc
  case bytesNew => exact keeps_opBytesNew ha hb
  case bytesLen => exact keeps_opBytesLen ha hb
  case bytesGetU8 => exact keeps_opBytesGetU8 ha hb hc
  case bytesSetU8 => exact keeps_opBytesSetU8 ha hb hc
  case objNew => exact keeps_opObjNew ha
  case objHasAtom => exact keeps_opObjHasAtom ha hb (himm _ _ rfl)
  case objGetAtom => exact keeps_opObjGetAtom ha hb (himm _ _ rfl)
  case objSetAtom => exact keeps_opObjSetAtom ha hb (himm _ _ rfl)
  case objGet => exact keeps_opObjGet ha hb hc
  case objSet => exact keeps_opObjSet ha hb hc
  case arrayConcat2 => exact keeps_opArrayConcat2 ha hb hc
  case arrayResize => exact keeps_opArrayResize hentry hb hc
  case objHas => exact keeps_opObjHas ha hb hc
  case objRemove => exact keeps_opObjRemove ha hb hc
  case objClear => exact keeps_opObjClear hb
  case objCopy => exact keeps_opObjCopy ha hb
  case objKeys => exact keeps_opObjKeys ha hb
  case enumNew => exact keeps_opEnumNew ha (hrange (.inr rfl))
  case enumTag => exact keeps_opEnumTag ha hb
  case enumGet => exact keeps_opEnumGet ha hb hc
  case bytesBitand2 | bytesBitor2 | bytesBitxor2 => exact keeps_bytesBitwise2 _ _ ha hb hc
  case bytesReadU16Le | bytesReadU16Be | bytesReadU32Le | bytesReadU32Be | bytesReadI32Le
      | bytesReadI32Be | bytesReadF32Le | bytesReadF32Be => exact keeps_bytesRead _ _ _ ha hb hc
  case bytesWriteU16Le | bytesWriteU16Be | bytesWriteU32Le | bytesWriteU32Be | bytesWriteI32Le
      | bytesWriteI32Be | bytesWriteF32Le | bytesWriteF32Be => exact keeps_bytesWrite _ _ _ ha hb hc
  case bytesEq => exact keeps_opBytesEq ha hb hc
  all_goals exact keeps_fail _

theorem keeps_dataOp_settled (h : OpOk P ctx ins) :
    Keeps P (Settled ins.op) (dataOp ins.op ctx ins) := by
  by_cases hpush : ins.op = .spillPush
  · have ha := h.a
    rw [hpush] at ha ⊢
    exact keeps_opSpillPush ha
  · by_cases hpop : ins.op = .spillPop
    · have ha := h.a
      rw [hpop] at ha ⊢
      exact keeps_opSpillPop ha
    · exact fun s ↦ (keeps_dataOp h hpush hpop).then fun _ s' hs ↦ hs.settled hpush hpop

theorem keeps_labelConstFun (ha : Operand.w8.Ok P ctx ins.ra)
    (hentry : ∀ pool i len, i < len → P (.entry pool i len)) :
    Keeps P Quiet (labelConstFun ctx ins) := by
  refine keeps_bind (keeps_read _) fun cache ↦ keeps_ite (fun _ ↦ keeps_fail _) fun hlen ↦ ?_
  refine keeps_bind (keeps_note (hentry _ _ _ (Nat.not_le.mp hlen))) fun _ ↦
    keeps_ite (fun _ ↦ keeps_vmStore64 ha.2 _) fun _ ↦ ?_
  exact keeps_bind (keeps_regTypeOf ha.1.regType) fun typeId ↦ keeps_bind (keeps_gcAlloc _)
    fun fn ↦ keeps_bind (keeps_setConstFunCache _ fn) fun _ ↦ keeps_vmStore64 ha.2 _

theorem keeps_labelMov (ha : Operand.any.Ok P ctx ins.ra)
    (hmov : P (.slot ctx.rf ins.rb (jelloSlotSize (regKind ctx.m ctx.f ins.ra)))) :
    Keeps P Quiet (labelMov ctx ins) := by
  intro s
  simp only [labelMov, spec_bind, spec_regTypeOf, spec_typeOf]
  exact ⟨ha.regType, ha.entry, keeps_copySlot hmov ha.slot s⟩

theorem keeps_labelBinI32 (e : UInt32 → UInt32 → UInt32) (ha : Operand.w4.Ok P ctx ins.ra)
    (hb : Operand.w4.Ok P ctx ins.rb) (hc : Operand.w4.Ok P ctx ins.rc) :
    Keeps P Quiet (labelBinI32 e ctx ins) :=
  keeps_bind (keeps_vmRegKind ha.1) fun _ ↦ keeps_bind (keeps_vmLoadU32 hb.2) fun _ ↦
    keeps_bind (keeps_vmLoadU32 hc.2) fun _ ↦ keeps_vmStoreU32 ha.2 _

theorem keeps_labelCmpI32 (e : ℤ → ℤ → Bool) (ha : Operand.w4.Ok P ctx ins.ra)
    (hb : Operand.w4.Ok P ctx ins.rb) (hc : Operand.w4.Ok P ctx ins.rc) :
    Keeps P Quiet (labelCmpI32 e ctx ins) :=
  keeps_bind (keeps_vmLoadU32 hb.2) fun _ ↦ keeps_bind (keeps_vmLoadU32 hc.2) fun _ ↦
    keeps_vmStoreU32 ha.2 _

theorem keeps_labelOp_settled (h : OpOk P ctx ins) :
    Keeps P (Settled ins.op) (labelOp ins.op ctx ins) := by
  have hdata := keeps_dataOp_settled h
  have ha := h.a
  have hb := h.b
  have hc := h.c
  have hmov := h.mov
  have hentry := h.entry
  clear h
  have hquiet {op : JelloOp} {x : StoreM Unit} (hx : Keeps P Quiet x) (hpush : op ≠ .spillPush)
      (hpop : op ≠ .spillPop) : Keeps P (Settled op) x :=
    fun s ↦ hx.then fun _ s' hs ↦ hs.settled hpush hpop
  generalize ins.op = op at *
  cases op
  case mov => exact hquiet (keeps_labelMov ha (hmov rfl)) (by decide) (by decide)
  case constFun => exact hquiet (keeps_labelConstFun ha hentry) (by decide) (by decide)
  case constI32 | constBool => exact hquiet (keeps_vmStoreU32 ha.2 _) (by decide) (by decide)
  case addI32 | subI32 => exact hquiet (keeps_labelBinI32 _ ha hb hc) (by decide) (by decide)
  case eqI32 =>
    exact hquiet (keeps_labelCmpI32 (fun a b ↦ a == b) ha hb hc) (by decide) (by decide)
  case ltI32 =>
    exact hquiet (keeps_labelCmpI32 (fun a b ↦ a < b) ha hb hc) (by decide) (by decide)
  all_goals exact hdata

theorem keeps_inlineStore {r : ℕ} (h : P (.slot ctx.rf r 4)) (v : UInt32) (k : Kind) :
    Keeps P Quiet (inlineStore ctx r v k) :=
  keeps_ite (fun _ ↦ keeps_vmStoreU32 h _) fun _ ↦ keeps_vmStoreU32 h _

theorem keeps_inlineBinI32 (e : UInt32 → UInt32 → UInt32) (ha : Operand.w4.Ok P ctx ins.ra)
    (hb : Operand.w4.Ok P ctx ins.rb) (hc : Operand.w4.Ok P ctx ins.rc) :
    Keeps P Quiet (inlineBinI32 e ctx ins) :=
  keeps_bind (keeps_vmRegKind ha.1) fun _ ↦ keeps_bind (keeps_vmLoadU32 hb.2) fun _ ↦
    keeps_bind (keeps_vmLoadU32 hc.2) fun _ ↦ keeps_inlineStore ha.2 _ _

theorem keeps_inlineBinI32Imm (e : UInt32 → UInt32 → UInt32) (ha : Operand.w4.Ok P ctx ins.ra)
    (hb : Operand.w4.Ok P ctx ins.rb) : Keeps P Quiet (inlineBinI32Imm e ctx ins) :=
  keeps_bind (keeps_vmRegKind ha.1) fun _ ↦ keeps_bind (keeps_vmLoadU32 hb.2) fun _ ↦
    keeps_inlineStore ha.2 _ _

theorem keeps_inlineBinF64 (e : UInt64 → UInt64 → UInt64) (ha : Operand.w8.Ok P ctx ins.ra)
    (hb : Operand.w8.Ok P ctx ins.rb) (hc : Operand.w8.Ok P ctx ins.rc) :
    Keeps P Quiet (inlineBinF64 e ctx ins) :=
  keeps_bind (keeps_vmLoad64 hb.2) fun _ ↦ keeps_bind (keeps_vmLoad64 hc.2) fun _ ↦
    keeps_vmStore64 ha.2 _

theorem keeps_inlineCmpI32 (e : ℤ → ℤ → Bool) (ha : Operand.w4.Ok P ctx ins.ra)
    (hb : Operand.w4.Ok P ctx ins.rb) (hc : Operand.w4.Ok P ctx ins.rc) :
    Keeps P Quiet (inlineCmpI32 e ctx ins) :=
  keeps_bind (keeps_vmLoadU32 hb.2) fun _ ↦ keeps_bind (keeps_vmLoadU32 hc.2) fun _ ↦
    keeps_vmStoreU32 ha.2 _

theorem keeps_inlineCmpI32Imm (e : ℤ → ℤ → Bool) (ha : Operand.w4.Ok P ctx ins.ra)
    (hb : Operand.w4.Ok P ctx ins.rb) : Keeps P Quiet (inlineCmpI32Imm e ctx ins) :=
  keeps_bind (keeps_vmLoadU32 hb.2) fun _ ↦ keeps_vmStoreU32 ha.2 _

theorem keeps_inlineCmpF64 (e : UInt64 → UInt64 → Bool) (ha : Operand.w4.Ok P ctx ins.ra)
    (hb : Operand.w8.Ok P ctx ins.rb) (hc : Operand.w8.Ok P ctx ins.rc) :
    Keeps P Quiet (inlineCmpF64 e ctx ins) :=
  keeps_bind (keeps_vmLoad64 hb.2) fun _ ↦ keeps_bind (keeps_vmLoad64 hc.2) fun _ ↦
    keeps_vmStoreU32 ha.2 _

theorem keeps_inlineNotBool (ha : Operand.w4.Ok P ctx ins.ra) (hb : Operand.w4.Ok P ctx ins.rb) :
    Keeps P Quiet (inlineNotBool ctx ins) :=
  keeps_bind (keeps_vmLoadU32 hb.2) fun _ ↦ keeps_vmStoreU32 ha.2 _

theorem spec_inlineF64Fast (hentry : ∀ pool i len, i < len → P (.entry pool i len)) {r arr : ℕ}
    (h : RegOk P ctx.m ctx.f ctx.rf r) (harr : RegOk P ctx.m ctx.f ctx.rf arr) (s : Store) :
    Spec P (inlineF64Fast ctx r arr)
      (fun b s' ↦ Quiet s s' ∧ (b = true → P (.slot ctx.rf r 8))) s := by
  have hno : Quiet s s ∧ (false = true → P (.slot ctx.rf r 8)) :=
    ⟨refl_of Quiet s, fun hf ↦ absurd hf (by decide)⟩
  simp only [inlineF64Fast, spec_bind, spec_regTypeOf, spec_vmRegKind, spec_ite, spec_pure,
    spec_typeOf]
  refine ⟨harr.regType, h.regType, h.entry, fun _ ↦ hno, fun hk ↦ ?_⟩
  push Not at hk
  refine ⟨hentry _ _ _ hk.2, fun _ ↦ hno, fun _ ↦ ⟨fun _ ↦ hno, fun hparam ↦ ?_⟩⟩
  exact ⟨hentry _ _ _ (Nat.not_le.mp hparam), refl_of Quiet s, fun _ ↦ h.slot_of hk.1⟩

theorem keeps_inlineArrayGet (hentry : ∀ pool i len, i < len → P (.entry pool i len))
    (ha : Operand.any.Ok P ctx ins.ra) (hb : Operand.w8.Ok P ctx ins.rb)
    (hc : Operand.w4.Ok P ctx ins.rc) : Keeps P Quiet (inlineArrayGet ctx ins) := by
  refine keeps_bind (keeps_vmLoad64 hb.2) fun p ↦
    keeps_ite (fun _ ↦ keeps_jelloVmTrap _ (by decide) (by decide)) fun _ ↦
    keeps_bind (keeps_arrayAt p) fun a ↦ keeps_bind (keeps_vmLoadU32 hc.2) fun idx ↦
    keeps_ite (fun _ ↦ keeps_jelloVmTrap _ (by decide) (by decide)) fun _ ↦ ?_
  exact keeps_ifF64 (spec_inlineF64Fast hentry ha hb.1) (fun hslot ↦ keeps_getF64 ha hslot)
    (keeps_vmStoreFromBoxed ha _ _)

theorem keeps_inlineArraySet (hentry : ∀ pool i len, i < len → P (.entry pool i len))
    (ha : Operand.any.Ok P ctx ins.ra) (hb : Operand.w8.Ok P ctx ins.rb)
    (hc : Operand.w4.Ok P ctx ins.rc) : Keeps P Quiet (inlineArraySet ctx ins) := by
  refine keeps_bind (keeps_vmLoad64 hb.2) fun p ↦
    keeps_ite (fun _ ↦ keeps_jelloVmTrap _ (by decide) (by decide)) fun _ ↦
    keeps_bind (keeps_arrayAt p) fun a ↦ keeps_bind (keeps_vmLoadU32 hc.2) fun idx ↦
    keeps_ite (fun _ ↦ keeps_jelloVmTrap _ (by decide) (by decide)) fun _ ↦ ?_
  exact keeps_ifF64 (spec_inlineF64Fast hentry ha hb.1) (fun hslot ↦ keeps_setF64 ha hslot)
    (keeps_storeElem ha _ _ _)

theorem keeps_ignored {x : StoreM Bool} (h : Keeps P Quiet x) :
    Keeps P Quiet (do if ← x then pure () else pure ()) :=
  keeps_bind h fun _ ↦ keeps_ite (fun _ ↦ keeps_pure _) fun _ ↦ keeps_pure _

theorem keeps_inlineOp (h : OpOk P ctx ins) {x : Ctx → JelloInsn → StoreM Unit}
    (hx : inlineOp ins.op = some x) : Keeps P Quiet (x ctx ins) := by
  have ha := h.a
  have hb := h.b
  have hc := h.c
  have himm := h.imm
  have hmov := h.mov
  have hentry := h.entry
  clear h
  generalize ins.op = op at *
  cases op <;> simp only [inlineOp, Option.some.injEq, reduceCtorEq] at hx <;> subst hx
  case mov => exact keeps_labelMov ha (hmov rfl)
  case constFun => exact keeps_labelConstFun ha hentry
  case constI32 | constI8Imm | constBool => exact keeps_vmStoreU32 ha.2 _
  case constNull => exact keeps_vmStore64 ha.2 _
  case constF64 => exact keeps_constPool ha (himm _ _ rfl)
  case addI32 | subI32 | mulI32 => exact keeps_inlineBinI32 _ ha hb hc
  case addI32Imm | subI32Imm | mulI32Imm => exact keeps_inlineBinI32Imm _ ha hb
  case addF64 | subF64 | mulF64 | divF64 => exact keeps_inlineBinF64 _ ha hb hc
  case notBool => exact keeps_inlineNotBool ha hb
  case eqI32 | ltI32 => exact keeps_inlineCmpI32 _ ha hb hc
  case eqI32Imm | ltI32Imm => exact keeps_inlineCmpI32Imm _ ha hb
  case eqF64 | ltF64 => exact keeps_inlineCmpF64 _ ha hb hc
  case arrayLen => exact keeps_opArrayLen ha hb
  case arrayGet => exact keeps_inlineArrayGet hentry ha hb hc
  case arraySet => exact keeps_inlineArraySet hentry ha hb hc
  case objNew => exact keeps_opObjNew ha
  case objGetAtom => exact keeps_ignored (keeps_vmObjGetAtomTyped _ ha hb.2 (himm _ _ rfl))
  case objSetAtom => exact keeps_ignored (keeps_vmObjSetAtomTyped _ ha hb.2 (himm _ _ rfl))
  case constBytes => exact keeps_opConstBytes ha (himm _ _ rfl) hentry
  case bytesConcat2 => exact keeps_opBytesConcat2 ha hb hc
  case bytesConcatMany => exact keeps_opBytesConcatMany ha hb
  case bytesBitand2 | bytesBitor2 | bytesBitxor2 => exact keeps_bytesBitwise2 _ _ ha hb hc
  case arrayNew => exact keeps_opArrayNew hentry ha hb
  case bytesNew => exact keeps_opBytesNew ha hb
  case bytesLen => exact keeps_opBytesLen ha hb
  case bytesGetU8 => exact keeps_opBytesGetU8 ha hb hc
  case bytesSetU8 => exact keeps_opBytesSetU8 ha hb hc
  case bytesEq => exact keeps_opBytesEq ha hb hc

end Table

end JelloVM
