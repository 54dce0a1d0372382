import JelloVM.Box

namespace JelloVM

open ByteMemory Logged

section Primitives

variable {P : Access → Prop} {s : Store} {m : JelloBcModule} {f r : ℕ} {rf : RegFrame}

@[simp] theorem spec_regTypeOf {Q : ℕ → Store → Prop} :
    Spec P (regTypeOf m f r) Q s ↔ P (.regType f r) ∧ Q ((m.func f).regType r) s := by
  simp [regTypeOf]

@[simp] theorem spec_typeOf {tid : ℕ} {Q : TypeEntry → Store → Prop} :
    Spec P (typeOf m tid) Q s ↔ P (.entry .types tid m.types.length) ∧ Q (m.type tid) s := by
  simp [typeOf]

@[simp] theorem spec_vmRegKind {Q : Kind → Store → Prop} :
    Spec P (vmRegKind m f r) Q s ↔
      P (.regType f r) ∧ P (.entry .types ((m.func f).regType r) m.types.length) ∧
        Q (regKind m f r) s := by
  simp [vmRegKind, regKind]

@[simp] theorem spec_vmLoadU32 {Q : UInt32 → Store → Prop} :
    Spec P (vmLoadU32 rf r) Q s ↔ P (.slot rf r 4) ∧ Q (load32 s.mem (rf.addr r)) s := by
  simp [vmLoadU32]

@[simp] theorem spec_vmLoad64 {Q : UInt64 → Store → Prop} :
    Spec P (vmLoad64 rf r) Q s ↔ P (.slot rf r 8) ∧ Q (load64 s.mem (rf.addr r)) s := by
  simp [vmLoad64]

@[simp] theorem spec_vmStoreU32 {v : UInt32} {Q : Unit → Store → Prop} :
    Spec P (vmStoreU32 rf r v) Q s ↔
      P (.slot rf r 4) ∧ Q () { s with mem := store32 s.mem (rf.addr r) v } := by
  simp [vmStoreU32]

@[simp] theorem spec_vmStore64 {v : UInt64} {Q : Unit → Store → Prop} :
    Spec P (vmStore64 rf r v) Q s ↔
      P (.slot rf r 8) ∧ Q () { s with mem := store64 s.mem (rf.addr r) v } := by
  simp [vmStore64]

@[simp] theorem spec_vmLoadF32 {Q : UInt32 → Store → Prop} :
    Spec P (vmLoadF32 rf r) Q s ↔ P (.slot rf r 4) ∧ Q (load32 s.mem (rf.addr r)) s :=
  spec_vmLoadU32

@[simp] theorem spec_vmLoadI64 {Q : UInt64 → Store → Prop} :
    Spec P (vmLoadI64 rf r) Q s ↔ P (.slot rf r 8) ∧ Q (load64 s.mem (rf.addr r)) s :=
  spec_vmLoad64

@[simp] theorem spec_vmLoadF64 {Q : UInt64 → Store → Prop} :
    Spec P (vmLoadF64 rf r) Q s ↔ P (.slot rf r 8) ∧ Q (load64 s.mem (rf.addr r)) s :=
  spec_vmLoad64

@[simp] theorem spec_vmLoadVal {Q : JelloValue → Store → Prop} :
    Spec P (vmLoadVal rf r) Q s ↔ P (.slot rf r 8) ∧ Q (load64 s.mem (rf.addr r)) s :=
  spec_vmLoad64

@[simp] theorem spec_vmLoadPtr {Q : JelloValue → Store → Prop} :
    Spec P (vmLoadPtr rf r) Q s ↔ P (.slot rf r 8) ∧ Q (load64 s.mem (rf.addr r)) s :=
  spec_vmLoad64

@[simp] theorem spec_vmLoadF16Bits {Q : UInt16 → Store → Prop} :
    Spec P (vmLoadF16Bits rf r) Q s ↔
      P (.slot rf r 4) ∧ Q (load32 s.mem (rf.addr r)).toUInt16 s := by
  simp [vmLoadF16Bits]

@[simp] theorem spec_vmStoreI64 {v : UInt64} {Q : Unit → Store → Prop} :
    Spec P (vmStoreI64 rf r v) Q s ↔
      P (.slot rf r 8) ∧ Q () { s with mem := store64 s.mem (rf.addr r) v } := spec_vmStore64

@[simp] theorem spec_vmStoreVal {v : JelloValue} {Q : Unit → Store → Prop} :
    Spec P (vmStoreVal rf r v) Q s ↔
      P (.slot rf r 8) ∧ Q () { s with mem := store64 s.mem (rf.addr r) v } := spec_vmStore64

@[simp] theorem spec_vmStorePtr {v : JelloValue} {Q : Unit → Store → Prop} :
    Spec P (vmStorePtr rf r v) Q s ↔
      P (.slot rf r 8) ∧ Q () { s with mem := store64 s.mem (rf.addr r) v } := spec_vmStore64

@[simp] theorem spec_copySlot {dst src : RegFrame} {d sz : ℕ} {Q : Unit → Store → Prop} :
    Spec P (copySlot dst d src r sz) Q s ↔
      P (.slot src r sz) ∧ P (.slot dst d sz) ∧
        Q () { s with mem := copy s.mem (dst.addr d) (src.addr r) sz } := by
  simp [copySlot]

@[simp] theorem spec_gcAlloc {c : Cell} {Q : JelloValue → Store → Prop} :
    Spec P (gcAlloc c) Q s ↔ Q s.heap.next { s with heap := (s.heap.alloc c).2 } := by
  simp [gcAlloc]

@[simp] theorem spec_writeCell {p : JelloValue} {c : Cell} {Q : Unit → Store → Prop} :
    Spec P (writeCell p c) Q s ↔ Q () { s with heap := s.heap.write p c } := by
  simp [writeCell]

@[simp] theorem spec_setTrap {code : TrapCode} {msg : Option (List UInt8)} {v : JelloValue}
    {Q : Unit → Store → Prop} :
    Spec P (setTrap code msg v) Q s ↔
      Q () { s with trapCode := code, trapMsg := msg, excPending := true, excPayload := v } := by
  simp [setTrap]

@[simp] theorem spec_jelloVmTrap {ctx : Ctx} {code : TrapCode} {msg : String}
    {Q : Unit → Store → Prop} :
    Spec P (jelloVmTrap ctx code msg) Q s ↔
      Q () { s with
        trapCode := code
        trapMsg := some (maybePrefixTrapLocation ctx (text msg))
        excPending := true
        excPayload := jelloMakeI32 code.code } := by
  simp [jelloVmTrap]

theorem spec_cellAt {p : JelloValue} {Q : Cell → Store → Prop}
    (h : ∀ c, s.heap.cells p = some c → Q c s) : Spec P (cellAt p) Q s := by
  simp only [cellAt, spec_bind, spec_read]
  split
  · next c hc => exact (spec_pure c).mpr (h c hc)
  · exact spec_fail _

theorem spec_boxI64At {v : JelloValue} {Q : Option UInt64 → Store → Prop} (h : ∀ x, Q x s) :
    Spec P (boxI64At v) Q s := by
  simp only [boxI64At, spec_ite, spec_pure, spec_bind]
  refine ⟨fun _ ↦ h _, fun _ ↦ spec_cellAt fun c _ ↦ ?_⟩
  split <;> exact (spec_pure _).mpr (h _)

theorem spec_boxF64At {v : JelloValue} {Q : Option UInt64 → Store → Prop} (h : ∀ x, Q x s) :
    Spec P (boxF64At v) Q s := by
  simp only [boxF64At, spec_ite, spec_pure, spec_bind]
  refine ⟨fun _ ↦ h _, fun _ ↦ spec_cellAt fun c _ ↦ ?_⟩
  split <;> exact (spec_pure _).mpr (h _)

theorem spec_boxF32At {v : JelloValue} {Q : Option UInt32 → Store → Prop} (h : ∀ x, Q x s) :
    Spec P (boxF32At v) Q s := by
  simp only [boxF32At, spec_ite, spec_pure, spec_bind]
  refine ⟨fun _ ↦ h _, fun _ ↦ spec_cellAt fun c _ ↦ ?_⟩
  split <;> exact (spec_pure _).mpr (h _)

theorem spec_boxF16At {v : JelloValue} {Q : Option UInt16 → Store → Prop} (h : ∀ x, Q x s) :
    Spec P (boxF16At v) Q s := by
  simp only [boxF16At, spec_ite, spec_pure, spec_bind]
  refine ⟨fun _ ↦ h _, fun _ ↦ spec_cellAt fun c _ ↦ ?_⟩
  split <;> exact (spec_pure _).mpr (h _)

theorem spec_cloneNumbox {v : JelloValue} {Q : JelloValue → Store → Prop}
    (h : ∀ w heap, Q w { s with heap := heap }) : Spec P (cloneNumbox v) Q s := by
  simp only [cloneNumbox, spec_bind, spec_read]
  split
  · exact spec_fail _
  · simpa using h _ _

end Primitives

/-- A typed access to a register is one of these. -/
structure RegOk (P : Access → Prop) (m : JelloBcModule) (f : ℕ) (rf : RegFrame) (r : ℕ) :
    Prop where
  regType : P (.regType f r)
  entry : P (.entry .types ((m.func f).regType r) m.types.length)
  slot : P (.slot rf r (jelloSlotSize (regKind m f r)))

theorem regOk_true (m : JelloBcModule) (f : ℕ) (rf : RegFrame) (r : ℕ) :
    RegOk (fun _ ↦ True) m f rf r := ⟨trivial, trivial, trivial⟩

section Typed

variable {P : Access → Prop} {s : Store} {m : JelloBcModule} {f r : ℕ} {rf : RegFrame}

theorem RegOk.slot_of {k : Kind} (h : RegOk P m f rf r) (hk : regKind m f r = k) :
    P (.slot rf r (jelloSlotSize k)) := hk ▸ h.slot

theorem spec_vmBoxFromTyped (h : RegOk P m f rf r) {Q : JelloValue → Store → Prop}
    (hQ : ∀ v heap, Q v { s with heap := heap }) : Spec P (vmBoxFromTyped m f rf r) Q s := by
  have hsame (v : JelloValue) : Q v s := hQ v s.heap
  simp only [vmBoxFromTyped, spec_bind, spec_vmRegKind]
  refine ⟨h.regType, h.entry, ?_⟩
  have hslot := h.slot
  cases hk : regKind m f r <;> rw [hk] at hslot <;>
    simp [jelloSlotSize, jelloBoxF32New, jelloBoxF16New, jelloBoxI64New, jelloBoxF64New,
      h.regType, hsame, hQ] at hslot ⊢ <;> exact hslot

/-- A boxed value is stored into the memory of its register; where it stays boxed, a copy is. -/
theorem spec_vmStoreFromBoxed_of_clone (h : RegOk P m f rf r) (fpu : Fpu) (v : JelloValue)
    {Q : Unit → Store → Prop}
    (hQ : ∀ mem, OnlyIn s.mem mem (rf.addr r) (jelloSlotSize (regKind m f r)) →
      Q () { s with mem := mem })
    (hclone : regKind m f r = .dynamic → Spec P (cloneNumbox v)
      (fun w s' ↦ Q () { s' with mem := store64 s'.mem (rf.addr r) w }) s) :
    Spec P (vmStoreFromBoxed m fpu f rf r v) Q s := by
  simp only [vmStoreFromBoxed, spec_bind, spec_vmRegKind]
  refine ⟨h.regType, h.entry, ?_⟩
  have hslot := h.slot
  have h4 (hk : jelloSlotSize (regKind m f r) = 4) (w : UInt32) :
      Spec P (vmStoreU32 rf r w) Q s := by
    rw [spec_vmStoreU32]
    rw [hk] at hslot hQ
    exact ⟨hslot, hQ _ (onlyIn_putLE _ _ _ _)⟩
  have h8 (hk : jelloSlotSize (regKind m f r) = 8) (w : UInt64) :
      Spec P (vmStore64 rf r w) Q s := by
    rw [spec_vmStore64]
    rw [hk] at hslot hQ
    exact ⟨hslot, hQ _ (onlyIn_putLE _ _ _ _)⟩
  cases hk : regKind m f r <;> simp only [spec_ite, spec_bind] <;> rw [hk] at h4 h8
  case i8 | i16 | i32 =>
    refine ⟨fun _ ↦ h4 rfl _, fun _ ↦ ⟨fun _ ↦ h4 rfl _, fun _ ↦ spec_boxF64At fun x ↦ ?_⟩⟩
    cases x with
    | some x => exact h4 rfl _
    | none =>
      refine spec_bind.mpr (spec_boxI64At fun x ↦ ?_)
      cases x with
      | some x => exact h4 rfl _
      | none => exact spec_fail _
  case f32 =>
    refine ⟨fun _ ↦ h4 rfl _, fun _ ↦ ⟨fun _ ↦ h4 rfl _, fun _ ↦ spec_boxF64At fun x ↦ ?_⟩⟩
    cases x with
    | some x => exact h4 rfl _
    | none =>
      refine spec_bind.mpr (spec_boxF32At fun x ↦ ?_)
      cases x with
      | some x => exact h4 rfl _
      | none => exact spec_fail _
  case f16 =>
    refine ⟨fun _ ↦ h4 rfl _, fun _ ↦ ⟨fun _ ↦ h4 rfl _, fun _ ↦ spec_boxF64At fun x ↦ ?_⟩⟩
    cases x with
    | some x => exact h4 rfl _
    | none =>
      refine spec_bind.mpr (spec_boxF16At fun x ↦ ?_)
      cases x with
      | some x => exact h4 rfl _
      | none => exact spec_fail _
  case i64 =>
    refine ⟨fun _ ↦ h8 rfl _, fun _ ↦ ⟨fun _ ↦ h8 rfl _, fun _ ↦ spec_boxF64At fun x ↦ ?_⟩⟩
    cases x with
    | some x => exact h8 rfl _
    | none =>
      refine spec_bind.mpr (spec_boxI64At fun x ↦ ?_)
      cases x with
      | some x => exact h8 rfl _
      | none => exact spec_fail _
  case f64 =>
    refine ⟨fun _ ↦ h8 rfl _, fun _ ↦ ⟨fun _ ↦ h8 rfl _, fun _ ↦ spec_boxF32At fun x ↦ ?_⟩⟩
    cases x with
    | some x => exact h8 rfl _
    | none =>
      refine spec_bind.mpr (spec_boxF64At fun x ↦ ?_)
      cases x with
      | some x => exact h8 rfl _
      | none => exact spec_fail _
  case bool | atom => exact ⟨fun _ ↦ spec_fail _, fun _ ↦ h4 rfl _⟩
  case dynamic =>
    rw [hk] at hslot
    exact (hclone hk).mono fun w s' hw ↦ spec_vmStore64.mpr ⟨hslot, hw⟩
  case bytes | function | list | array | object | abstract | enum =>
    exact ⟨fun _ ↦ h8 rfl _, fun _ ↦ ⟨fun _ ↦ spec_fail _, fun _ ↦ h8 rfl _⟩⟩

theorem spec_vmStoreFromBoxed (h : RegOk P m f rf r) (fpu : Fpu) (v : JelloValue)
    {Q : Unit → Store → Prop}
    (hQ : ∀ mem heap, OnlyIn s.mem mem (rf.addr r) (jelloSlotSize (regKind m f r)) →
      Q () { s with mem := mem, heap := heap }) :
    Spec P (vmStoreFromBoxed m fpu f rf r v) Q s := by
  refine spec_vmStoreFromBoxed_of_clone h fpu v (fun mem hmem ↦ hQ mem s.heap hmem) fun hk ↦ ?_
  refine spec_cloneNumbox fun w heap ↦ hQ _ heap ?_
  rw [hk]
  exact onlyIn_putLE _ _ _ _

end Typed

end JelloVM
