import JelloVM.FrameStack
import JelloVM.OpSpec.Container

namespace JelloVM

open ByteMemory Logged

section Layout

theorem layoutFrom_slot (ks : List Kind) (t i : ℕ) (hi : i < ks.length) :
    t ≤ (layoutFrom ks t).1.getD i 0 ∧
      (layoutFrom ks t).1.getD i 0 + jelloSlotSize (ks.getD i default) ≤ (layoutFrom ks t).2 := by
  induction ks generalizing t i with
  | nil => exact absurd hi (Nat.not_lt_zero i)
  | cons k ks ih =>
    have halign : t ≤ alignUp t (jelloSlotSize k) := by
      unfold alignUp
      obtain hk | hk := jelloSlotSize_cases k <;> rw [hk] <;> omega
    have hle : alignUp t (jelloSlotSize k) + jelloSlotSize k ≤
        (layoutFrom ks (alignUp t (jelloSlotSize k) + jelloSlotSize k)).2 := by
      cases ks with
      | nil => exact le_rfl
      | cons k' ks' =>
        have h0 := ih (alignUp t (jelloSlotSize k) + jelloSlotSize k) 0 (by simp)
        omega
    cases i with
    | zero => exact ⟨halign, hle⟩
    | succ i =>
      have hrest := ih (alignUp t (jelloSlotSize k) + jelloSlotSize k) i (by simpa using hi)
      simp only [layoutFrom, List.getD_cons_succ]
      omega

theorem layoutFrom_ordered (ks : List Kind) (t i j : ℕ) (hij : i < j) (hj : j < ks.length) :
    (layoutFrom ks t).1.getD i 0 + jelloSlotSize (ks.getD i default) ≤
      (layoutFrom ks t).1.getD j 0 := by
  induction ks generalizing t i j with
  | nil => exact absurd hj (Nat.not_lt_zero j)
  | cons k ks ih =>
    cases j with
    | zero => omega
    | succ j =>
      have hj' : j < ks.length := by simpa using hj
      cases i with
      | zero => exact (layoutFrom_slot ks _ j hj').1
      | succ i => exact ih _ i j (by omega) hj'

theorem regKinds_getD (m : JelloBcModule) (f : ℕ) {r : ℕ} (hr : r < (m.func f).nregs) :
    (regKinds m f).getD r default = regKind m f r := by
  have hr' : r < (m.func f).regTypes.length := hr
  simp [regKinds, regKind, JelloBcFunction.regType, hr']

theorem slot_le_total (m : JelloBcModule) (f r : ℕ) (hr : r < (m.func f).nregs) :
    (vmGetFrameLayout m f).off.getD r 0 + jelloSlotSize (regKind m f r) ≤
      (vmGetFrameLayout m f).total := by
  have hlen : r < (regKinds m f).length := by simpa [regKinds, JelloBcFunction.nregs] using hr
  have hslot := (layoutFrom_slot (regKinds m f) 0 r hlen).2
  rw [regKinds_getD m f hr] at hslot
  exact hslot

end Layout

/-- An access of the instruction `ins` at `pc` of the function `f` that stays where it should:
a register of the function as the bytes of its slot, inside the frame; the type of such a
register; an entry of a table; a case of its own table. -/
inductive InBounds (m : JelloBcModule) (f pc : ℕ) (ins : JelloInsn) (rf : RegFrame) : Access → Prop
  | slot (r : ℕ) (hr : r < (m.func f).nregs)
      (hin : rf.off.getD r 0 + jelloSlotSize (regKind m f r) ≤ rf.total) :
      InBounds m f pc ins rf (.slot rf r (jelloSlotSize (regKind m f r)))
  | regType (r : ℕ) (hr : r < (m.func f).nregs) : InBounds m f pc ins rf (.regType f r)
  | entry (pool : Pool) (i len : ℕ) (hi : i < len) : InBounds m f pc ins rf (.entry pool i len)
  | insn (p : ℕ) (hop : ins.op = .switchKind) (hlo : pc < p) (hhi : p ≤ pc + ins.rb) :
      InBounds m f pc ins rf (.insn f p)

/-- What the loader knows of an operand. -/
def Operand.Checked (m : JelloBcModule) (fn : JelloBcFunction) (r : ℕ) : Operand → Prop
  | .unused => True
  | .any => r < fn.nregs
  | .w4 => r < fn.nregs ∧ jelloSlotSize (rk m fn r) = 4
  | .w8 => r < fn.nregs ∧ jelloSlotSize (rk m fn r) = 8

section Checked

variable {m : JelloBcModule} {fn : JelloBcFunction} {ins : JelloInsn} {pc r : ℕ}

theorem slotSize_isInt32 {k : Kind} (h : k.isInt32 = true) : jelloSlotSize k = 4 := by
  cases k <;> simp [Kind.isInt32, jelloSlotSize] at h ⊢

theorem slotSize_isPointer {k : Kind} (h : k.isPointer = true) : jelloSlotSize k = 8 := by
  cases k <;> simp [Kind.isPointer, jelloSlotSize] at h ⊢

theorem slotSize_isEnumReg (h : isEnumReg m fn r = true) : jelloSlotSize (rk m fn r) = 8 := by
  simp only [isEnumReg, decide_eq_true_eq] at h
  obtain hk | ⟨hk, -⟩ := h
  · rw [hk]
    rfl
  · rw [hk]
    rfl

/-- The loader has looked at every operand that is used. -/
structure OperandsChecked (m : JelloBcModule) (fn : JelloBcFunction) (ins : JelloInsn) : Prop where
  a : (operands ins.op).1.Checked m fn ins.ra
  b : (operands ins.op).2.1.Checked m fn ins.rb
  c : (operands ins.op).2.2.Checked m fn ins.rc

theorem operandsChecked (h : jelloBcValidateInsn m fn ins pc = .ok ()) :
    OperandsChecked m fn ins := by
  suffices hall : (operands ins.op).1.Checked m fn ins.ra ∧
      (operands ins.op).2.1.Checked m fn ins.rb ∧ (operands ins.op).2.2.Checked m fn ins.rc from
    ⟨hall.1, hall.2.1, hall.2.2⟩
  unfold jelloBcValidateInsn at h
  generalize ins.op = op at *
  cases op
  all_goals
    simp only [regA, regAB, regABC, constOf, unOf, convOf, fromDynOf, binOf, arithOf, cmpI32Of,
      keyedOf, atomOf, funcOf, targetOf, arrayElemOf, verdict_bind_ok, require_ok,
      verdict_pure_ok] at h
    simp only [operands, Operand.Checked]
  case truncI8 =>
    obtain ⟨hr, ha, hb | hb⟩ := h
    · simp only [hr, ha, hb]
      decide
    · simp only [hr, ha, hb]
      decide
  all_goals
    first
    | trivial
    | simp only [h, slotSize_isInt32, slotSize_isPointer, slotSize_isEnumReg, and_self]
    all_goals decide

theorem imm_lt (h : jelloBcValidateInsn m fn ins pc = .ok ()) {pool : Pool} {len : ℕ}
    (hp : immPool m ins.op = some (pool, len)) : ins.imm.toNat < len := by
  unfold jelloBcValidateInsn at h
  generalize ins.op = op at *
  cases op <;> simp only [immPool, Option.some.injEq, Prod.mk.injEq, reduceCtorEq] at hp
  all_goals
    obtain ⟨-, rfl⟩ := hp
    simp only [regA, regAB, constOf, unOf, atomOf, funcOf, verdict_bind_ok, require_ok] at h
  case closure => exact h.2.2.1.trans_le (Nat.mod_le _ _)
  case constAtom | constI64 | constF64 | constBytes | objHasAtom => exact h.2
  all_goals exact h.2.2

theorem closure_range (h : jelloBcValidateInsn m fn ins pc = .ok ()) (hop : ins.op = .closure) :
    ins.rb + ins.rc ≤ fn.nregs := by
  simp only [jelloBcValidateInsn, hop, verdict_bind_ok, require_ok] at h
  exact h.2.2.2

theorem enumNew_range (h : jelloBcValidateInsn m fn ins pc = .ok ()) (hop : ins.op = .enumNew) :
    ins.rc = 0 ∨ ins.rb + ins.rc - 1 < fn.nregs := by
  simp only [jelloBcValidateInsn, hop, verdict_bind_ok, require_ok] at h
  exact h.2.2

theorem mov_size (h : jelloBcValidateInsn m fn ins pc = .ok ()) (hop : ins.op = .mov) :
    ins.rb < fn.nregs ∧ jelloSlotSize (rk m fn ins.ra) = jelloSlotSize (rk m fn ins.rb) := by
  simp only [jelloBcValidateInsn, hop, regAB, verdict_bind_ok, require_ok] at h
  refine ⟨h.1.2, ?_⟩
  obtain htype | hkind | ⟨hsize, -⟩ := h.2
  · unfold rk
    rw [htype]
  · rw [hkind]
  · exact hsize

theorem assert_msg (h : jelloBcValidateInsn m fn ins pc = .ok ()) (hop : ins.op = .assert)
    (hc : ins.c = 1) : ins.rb < fn.nregs := by
  simp only [jelloBcValidateInsn, hop, assertMsgOf, hc, if_true, verdict_bind_ok,
    require_ok] at h
  exact h.2.2.2.1

end Checked

section Sound

variable {m : JelloBcModule} {f pc r : ℕ} {ins : JelloInsn} {fn : JelloBcFunction}

theorem Accepted.regType_lt (h : Accepted m) (hfn : fn ∈ m.funcs) (hr : r < fn.nregs) :
    fn.regType r < m.types.length := by
  have hf := h.function hfn
  simp only [validateFunction, verdict_bind_ok, checkAll_ok, require_ok] at hf
  have hr' : r < fn.regTypes.length := hr
  have hmem : fn.regType r ∈ fn.regTypes := by
    simp [JelloBcFunction.regType, hr']
  exact hf.2.1 _ hmem

theorem validateInsns_get {insns : List JelloInsn} {start i : ℕ}
    (h : validateInsns m fn start insns = .ok ()) (hi : insns[i]? = some ins) :
    jelloBcValidateInsn m fn ins (start + i) = .ok () := by
  induction insns generalizing start i with
  | nil => simp at hi
  | cons x xs ih =>
    simp only [validateInsns, verdict_bind_ok] at h
    cases i with
    | zero =>
      obtain rfl : x = ins := by simpa using hi
      exact h.1
    | succ i =>
      have hrest := ih h.2 (by simpa using hi)
      rwa [show start + 1 + i = start + (i + 1) by omega] at hrest

theorem Accepted.insn (h : Accepted m) (hfn : fn ∈ m.funcs) (hi : fn.insns[pc]? = some ins) :
    jelloBcValidateInsn m fn ins pc = .ok () := by
  have hf := h.function hfn
  simp only [validateFunction, verdict_bind_ok] at hf
  have hget := validateInsns_get hf.2.2.1 hi
  rwa [Nat.zero_add] at hget

theorem func_mem (hf : f < m.funcs.length) : m.func f ∈ m.funcs := by
  simp [JelloBcModule.func, hf]

/-- The current frame belongs to a function of an accepted module, has the layout of that
function, and stands after the instruction at `pc`. -/
structure Executes (ex : Exec) (fr : CallFrame) (pc : ℕ) (ins : JelloInsn) : Prop where
  accepted : Accepted ex.m
  func : fr.f < ex.m.funcs.length
  insn : (ex.func fr.f).insns[pc]? = some ins
  layout : ∃ mem, fr.rf = (vmGetFrameLayout ex.m fr.f).frame mem
  pc : fr.pc = pc + 1

variable {ex : Exec} {fr : CallFrame}

theorem Executes.checked (h : Executes ex fr pc ins) :
    jelloBcValidateInsn ex.m (ex.func fr.f) ins pc = .ok () :=
  h.accepted.insn (func_mem h.func) h.insn

theorem Executes.regOk (h : Executes ex fr pc ins) (hr : r < (ex.func fr.f).nregs) :
    RegOk (InBounds ex.m fr.f pc ins fr.rf) ex.m fr.f fr.rf r := by
  obtain ⟨mem, hrf⟩ := h.layout
  refine ⟨.regType r hr, .entry _ _ _ (h.accepted.regType_lt (func_mem h.func) hr), .slot r hr ?_⟩
  rw [hrf]
  exact slot_le_total ex.m fr.f r hr

theorem Executes.operand (h : Executes ex fr pc ins) {o : Operand}
    (ho : o.Checked ex.m (ex.func fr.f) r) :
    o.Ok (InBounds ex.m fr.f pc ins fr.rf) (ex.ctx fr) r := by
  cases o with
  | unused => trivial
  | any => exact h.regOk ho
  | w4 =>
    have hreg := h.regOk ho.1
    have hsize : jelloSlotSize (regKind ex.m fr.f r) = 4 := ho.2
    exact ⟨hreg, hsize ▸ hreg.slot⟩
  | w8 =>
    have hreg := h.regOk ho.1
    have hsize : jelloSlotSize (regKind ex.m fr.f r) = 8 := ho.2
    exact ⟨hreg, hsize ▸ hreg.slot⟩

theorem Executes.opOk (h : Executes ex fr pc ins) :
    OpOk (InBounds ex.m fr.f pc ins fr.rf) (ex.ctx fr) ins := by
  have hval := h.checked
  have hops := operandsChecked hval
  refine ⟨h.operand hops.a, h.operand hops.b, h.operand hops.c,
    fun pool len hp ↦ .entry _ _ _ (imm_lt hval hp), fun hop r hlo hhi ↦ h.regOk ?_, fun hop ↦ ?_,
    fun hop hc ↦ h.regOk (assert_msg hval hop hc), fun pool i len hi ↦ .entry _ _ _ hi⟩
  · obtain hop | hop := hop
    · have hrange := closure_range hval hop
      omega
    · obtain hzero | hrange := enumNew_range hval hop
      · omega
      · omega
  · obtain ⟨hb, hsize⟩ := mov_size hval hop
    have hsize' : jelloSlotSize (regKind ex.m fr.f ins.ra) =
        jelloSlotSize (regKind ex.m fr.f ins.rb) := hsize
    change InBounds ex.m fr.f pc ins fr.rf (.slot fr.rf ins.rb (jelloSlotSize (regKind ex.m fr.f ins.ra)))
    rw [hsize']
    exact (h.regOk hb).slot

end Sound

section Handlers

variable {ex : Exec} {fr : CallFrame} {frs : List CallFrame} {pc : ℕ} {ins : JelloInsn} {vm : VM}
  {P : Access → Prop}

theorem spec_topFrame {Q : CallFrame → VM → Prop} (hfr : vm.callFrames = fr :: frs) (hQ : Q fr vm) :
    Spec P topFrame Q vm := by
  simp only [topFrame, spec_bind, spec_read, hfr, spec_pure]
  exact hQ

theorem spec_onCtx {α : Type} {x : Ctx → JelloInsn → StoreM α} {R : Store → Store → Prop}
    (hfr : vm.callFrames = fr :: frs) (hx : Keeps P R (x (ex.ctx fr) ins)) :
    Spec P (onCtx ex x ins) (fun _ _ ↦ True) vm := by
  refine spec_bind.mpr (spec_topFrame hfr (spec_onPart ?_))
  exact (hx vm.store).mono fun _ _ _ ↦ trivial

theorem spec_jumpFrom {base : ℕ} {d : UInt32} {Q : Unit → VM → Prop} (hQ : ∀ vm', Q () vm') :
    Spec P (jumpFrom ex fr base d) Q vm := by
  unfold jumpFrom
  split
  · exact spec_fail _
  · exact (spec_change _).mpr (hQ _)

theorem spec_fuelCharge {ctx : Ctx} {s : Store} {Q : Bool → Store → Prop} (hQ : ∀ b s', Q b s') :
    Spec P (jelloVmFuelCharge ctx) Q s := by
  simp only [jelloVmFuelCharge, spec_bind, spec_read, spec_ite, spec_pure, spec_jelloVmTrap,
    spec_change]
  exact ⟨fun _ ↦ hQ _ _, fun _ ↦ ⟨fun _ ↦ hQ _ _, fun _ ↦ hQ _ _⟩⟩

theorem spec_opJmp (hfr : vm.callFrames = fr :: frs) :
    Spec P (opJmp ex ins) (fun _ _ ↦ True) vm := by
  refine spec_bind.mpr (spec_topFrame hfr ?_)
  cases jumpTarget fr.pc ins.imm (ex.func fr.f).ninsns with
  | none => exact spec_fail _
  | some npc =>
    refine spec_ite.mpr ⟨fun _ ↦ ?_, fun _ ↦ ?_⟩
    · refine spec_bind.mpr (spec_onPart (spec_fuelCharge fun b s' ↦ ?_))
      cases b <;> simp [setTopFrame]
    · simp [setTopFrame]

theorem spec_labelJmp (hfr : vm.callFrames = fr :: frs) :
    Spec P (labelJmp ex ins) (fun _ _ ↦ True) vm :=
  spec_bind.mpr (spec_topFrame hfr (spec_bind.mpr (spec_jumpFrom fun _ ↦ (spec_pure _).mpr trivial)))

theorem spec_opJmpIf (hfr : vm.callFrames = fr :: frs) (ha : P (.slot fr.rf ins.ra 4)) :
    Spec P (opJmpIf ex ins) (fun _ _ ↦ True) vm := by
  refine spec_bind.mpr (spec_topFrame hfr (spec_bind.mpr (spec_onPart (spec_vmLoadU32.mpr ⟨ha, ?_⟩))))
  refine spec_ite.mpr ⟨fun _ ↦ spec_bind.mpr (spec_jumpFrom fun _ ↦ ?_), fun _ ↦ ?_⟩
  · exact (spec_pure _).mpr trivial
  · exact (spec_pure _).mpr trivial

theorem spec_opTry (hfr : vm.callFrames = fr :: frs) :
    Spec P (opTry ex ins) (fun _ _ ↦ True) vm := by
  refine spec_bind.mpr (spec_topFrame hfr ?_)
  cases jumpTarget fr.pc ins.imm (ex.func fr.f).ninsns with
  | none => exact spec_fail _
  | some catchPc => simp [vmExcPush]

theorem spec_opEndtry : Spec P opEndtry (fun _ _ ↦ True) vm := by
  simp only [opEndtry, vmExcPop, spec_bind, spec_read]
  cases vm.excHandlers with
  | nil =>
    simp only [spec_pure]
    exact spec_fail _
  | cons h hs =>
    simp only [spec_bind, spec_change, spec_pure, spec_ite]
    exact ⟨fun _ ↦ spec_fail _, fun _ ↦ trivial⟩

theorem spec_opThrow {ctx : Ctx} {s : Store} (ha : P (.slot ctx.rf ins.ra 8)) :
    Spec P (opThrow ctx ins) (fun _ _ ↦ True) s := by
  simp only [opThrow, spec_bind, spec_vmLoadVal, spec_setTrap, spec_pure, and_true]
  exact ha

theorem spec_opAssert {ctx : Ctx} {s : Store} (ha : P (.slot ctx.rf ins.ra 4))
    (hmsg : ins.c = 1 → RegOk P ctx.m ctx.f ctx.rf ins.rb) :
    Spec P (opAssert ctx ins) (fun _ _ ↦ True) s := by
  simp only [opAssert, spec_bind, spec_vmLoadU32, spec_ite, spec_pure, spec_setTrap, implies_true,
    and_true, true_and]
  refine ⟨ha, fun _ hc ↦ spec_vmBoxFromTyped (hmsg hc) fun v heap _ ↦ ?_⟩
  refine spec_cellAt fun c _ ↦ ?_
  cases c <;> simp

theorem spec_findCase (m : JelloBcModule) (f : ℕ) (kind : UInt32) (n p : ℕ) (s : Store)
    (h : ∀ q, p ≤ q → q < p + n → P (.insn f q)) {Q : Option UInt32 → Store → Prop}
    (hQ : ∀ d, Q d s) : Spec P (findCase m f kind p n) Q s := by
  induction n generalizing p with
  | zero => exact (spec_pure _).mpr (hQ _)
  | succ n ih =>
    simp only [findCase, spec_bind, spec_note]
    refine ⟨h p le_rfl (by omega), spec_ite.mpr ⟨fun _ ↦ (spec_pure _).mpr (hQ _), fun _ ↦ ?_⟩⟩
    exact ih (p + 1) fun q hq hqn ↦ h q (by omega) (by omega)

theorem spec_opSwitchKind (hfr : vm.callFrames = fr :: frs) (ha : P (.slot fr.rf ins.ra 4))
    (hcase : ∀ q, fr.pc ≤ q → q < fr.pc + ins.rb → P (.insn fr.f q)) :
    Spec P (opSwitchKind ex ins) (fun _ _ ↦ True) vm := by
  refine spec_bind.mpr (spec_topFrame hfr (spec_bind.mpr (spec_onPart (spec_vmLoadU32.mpr ⟨ha, ?_⟩))))
  refine spec_ite.mpr ⟨fun _ ↦ spec_fail _, fun _ ↦ spec_bind.mpr (spec_onPart ?_)⟩
  refine spec_findCase _ _ _ _ _ _ hcase fun d ↦ spec_bind.mpr (spec_jumpFrom fun _ ↦ ?_)
  exact (spec_pure _).mpr trivial

/-- The calls and the return, which are about two frames. -/
def JelloOp.isCall : JelloOp → Bool
  | .call | .callr | .tailcall | .tailcallr | .ret => true
  | _ => false

theorem spec_controlOp (h : Executes ex fr pc ins) (hfr : vm.callFrames = fr :: frs)
    (hcall : ins.op.isCall = false) {build : Build} {x : VMM OpResult}
    (hx : controlOp ex build ins = some x) :
    Spec (InBounds ex.m fr.f pc ins fr.rf) x (fun _ _ ↦ True) vm := by
  have hok := h.opOk
  have ha := hok.a
  have hpc := h.pc
  unfold controlOp at hx
  cases hop : ins.op <;>
    simp only [hop, JelloOp.isCall, Option.some.injEq, reduceCtorEq, Bool.true_eq_false]
      at hx hcall <;> subst hx <;> rw [hop] at ha
  case jmp =>
    split_ifs
    · exact spec_opJmp hfr
    · exact spec_labelJmp hfr
  case jmpIf => exact spec_opJmpIf hfr ha.2
  case try_ => exact spec_opTry hfr
  case endtry => exact spec_opEndtry
  case throw => exact spec_bind.mpr (spec_topFrame hfr (spec_onPart (spec_opThrow ha.2)))
  case assert =>
    exact spec_bind.mpr (spec_topFrame hfr (spec_onPart (spec_opAssert ha.2 (hok.msg hop))))
  case switchKind =>
    refine spec_opSwitchKind hfr ha.2 fun q hlo hhi ↦ .insn q hop (by omega) (by omega)

theorem spec_opDispatch (h : Executes ex fr pc ins) (hfr : vm.callFrames = fr :: frs)
    (hcall : ins.op.isCall = false) (build : Build) :
    Spec (InBounds ex.m fr.f pc ins fr.rf) (opDispatch ex build ins) (fun _ _ ↦ True) vm := by
  unfold opDispatch
  split
  · next x hx => exact spec_controlOp h hfr hcall hx
  · refine spec_bind.mpr (Spec.mono (Q := fun _ _ ↦ True) ?_ fun _ _ _ ↦ (spec_pure _).mpr trivial)
    split_ifs
    · exact spec_onCtx hfr (keeps_dataOp_settled h.opOk)
    · exact spec_onCtx hfr (keeps_labelOp_settled h.opOk)

theorem spec_inlineInsn (h : Executes ex fr pc ins) (hfr : vm.callFrames = fr :: frs)
    (hcall : ins.op.isCall = false) (build : Build) :
    Spec (InBounds ex.m fr.f pc ins fr.rf) (inlineInsn ex build ins) (fun _ _ ↦ True) vm := by
  unfold inlineInsn
  split
  · next x hx =>
    -- the loop has no instruction of its own that is not also one of `op_dispatch`
    have hok := h.opOk
    have ha := hok.a
    unfold inlineControl at hx
    cases hop : ins.op <;>
      simp only [hop, JelloOp.isCall, Option.some.injEq, reduceCtorEq, Bool.true_eq_false]
        at hx hcall <;> subst hx <;> rw [hop] at ha
    case jmp => exact spec_opJmp hfr
    case jmpIf => exact spec_opJmpIf hfr ha.2
    case assert =>
      exact spec_bind.mpr (spec_topFrame hfr (spec_onPart (spec_opAssert ha.2 (hok.msg hop))))
  · split
    · next x hx =>
      refine spec_bind.mpr (Spec.mono (Q := fun _ _ ↦ True) ?_ fun _ _ _ ↦ (spec_pure _).mpr trivial)
      exact spec_onCtx hfr (keeps_inlineOp h.opOk hx)
    · exact spec_opDispatch h hfr hcall build

/-- In a frame with the layout of its function, both interpreters touch nothing that the loader
has not checked. -/
theorem accesses_inBounds (h : Executes ex fr pc ins) (hfr : vm.callFrames = fr :: frs)
    (hcall : ins.op.isCall = false) (build : Build) :
    (∀ a ∈ (inlineInsn ex build ins vm).2, InBounds ex.m fr.f pc ins fr.rf a) ∧
      ∀ a ∈ (opDispatch ex build ins vm).2, InBounds ex.m fr.f pc ins fr.rf a :=
  ⟨(spec_inlineInsn h hfr hcall build).1, (spec_opDispatch h hfr hcall build).1⟩

end Handlers

def switchInsn : JelloInsn := { op := .switchKind, a := 0, b := 1, c := 0, imm := 0 }

/-- A function that switches on an I32 register, with one case. -/
def switchModule : JelloBcModule :=
  { features := default
    types := [⟨.i32, 0⟩]
    sigs := []
    atoms := []
    constI64 := []
    constF64 := []
    constBytes := []
    funcs :=
      [{ regTypes := [0]
         capStart := 0
         insns := [switchInsn,
           { op := .caseKind, a := 2, b := 0, c := 0, imm := 0 },
           { op := .ret, a := 0, b := 0, c := 0, imm := 0 }]
         sourceFile := 0
         lines := [] }]
    entry := 0
    sourceFiles := [] }

def switchFrame : CallFrame :=
  { (default : CallFrame) with rf := (vmGetFrameLayout switchModule 0).frame 4096, pc := 1 }

theorem switch_inBounds :
    Executes (.alone switchModule) switchFrame 0 switchInsn ∧
      (∀ a ∈ (inlineInsn (.alone switchModule) .switch switchInsn
          { jelloVmCreate with callFrames := [switchFrame] }).2,
        InBounds switchModule 0 0 switchInsn switchFrame.rf a) := by
  have h : Executes (.alone switchModule) switchFrame 0 switchInsn :=
    ⟨by decide +kernel, by decide, rfl, ⟨4096, rfl⟩, rfl⟩
  exact ⟨h, (accesses_inBounds h rfl rfl .switch).1⟩

end JelloVM
