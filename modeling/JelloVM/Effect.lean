import JelloVM.Skeleton

namespace JelloVM

open ByteMemory Logged

inductive Charged (s : Store) : Store → Prop
  | unlimited (h : s.fuelLimit = 0) : Charged s s
  | one (h : s.fuelLimit ≠ 0) (hrem : s.fuelRemaining ≠ 0) :
      Charged s { s with fuelRemaining := s.fuelRemaining - 1 }

inductive NativeRun (ex : Exec) (s s' : Store) : Prop
  | builtin (fi : UInt32) (ctx : Ctx) (ins : JelloInsn) (first : ℕ)
      (h : result (ex.native fi ctx ins first) s = .ok ((), s'))
  | prim (fn : JelloFunction) (ctx : Ctx) (ins : JelloInsn) (first : ℕ) (b : Bool)
      (h : result (jelloJdllInvokePrim ex fn ctx ins first) s = .ok (b, s'))

theorem not_nativeRun_alone (m : JelloBcModule) {s s' : Store} :
    ¬ NativeRun (Exec.alone m) s s' := by
  intro hrun
  cases hrun with
  | builtin fi ctx ins first h => exact absurd h (by simp [Exec.alone, panic])
  | prim fn ctx ins first b h =>
    exact absurd h (by simp [Exec.alone, panic, jelloJdllInvokePrim, Except.bind])

/-- The first entry of a table of `n` cases for `kind`, from `pc` on. -/
def JelloBcFunction.caseOf (fn : JelloBcFunction) (kind : UInt32) : ℕ → ℕ → Option UInt32
  | _, 0 => none
  | pc, n + 1 =>
    if (fn.insn pc).a.toUInt32 = kind then some (fn.insn pc).imm else fn.caseOf kind (pc + 1) n

/-- Where the instruction at `pc` jumps to when its first operand is `v`. -/
def JelloBcFunction.jumpsTo (fn : JelloBcFunction) (pc : ℕ) (ins : JelloInsn) (v : UInt32) :
    Option ℕ :=
  match ins.op with
  | .jmp => jumpTarget (pc + 1) ins.imm fn.ninsns
  | .jmpIf => if v ≠ 0 then jumpTarget (pc + 1) ins.imm fn.ninsns else none
  | .switchKind =>
    jumpTarget (pc + 1 + ins.rb) ((fn.caseOf v (pc + 1) ins.rb).getD ins.imm) fn.ninsns
  | _ => none

/-- The first operand of an instruction of the top frame. -/
def VM.operandA (vm : VM) (ins : JelloInsn) : UInt32 :=
  match vm.callFrames with
  | [] => 0
  | fr :: _ => load32 vm.store.mem (fr.rf.addr ins.ra)

/-- The value that the instruction throws when it is a `THROW`. -/
def VM.thrown (vm : VM) (ins : JelloInsn) : JelloValue :=
  match vm.callFrames with
  | [] => 0
  | fr :: _ => load64 vm.store.mem (fr.rf.addr ins.ra)

/-- The instructions that go on with the next one, unless they trap; the branch and the assertion
are among them. -/
def JelloOp.isPlain : JelloOp → Bool
  | .ret | .jmp | .try_ | .endtry | .throw | .call | .callr | .tailcall | .tailcallr | .switchKind =>
    false
  | _ => true

/-- The bytecode function that a tail call leads to. -/
def VM.tailTarget (vm : VM) (ins : JelloInsn) : Option ℕ :=
  match vm.callFrames, ins.op with
  | _ :: _, .tailcall =>
    if jelloIsNativeBuiltin ins.imm then none else some (bytecodeIdx ins.imm)
  | fr :: _, .tailcallr =>
    match result (calleeOf fr.rf ins.rb) vm.store with
    | .ok (.bytecode fn, _) => some (bytecodeIdx fn.funcIndex)
    | _ => none
  | _, _ => none

/-- The native function that a tail call leads to; `false` when it has failed. -/
def VM.tailNative (ex : Exec) (vm : VM) (ins : JelloInsn) : Option (StoreM Bool) :=
  match vm.callFrames, ins.op with
  | fr :: _, .tailcall =>
    if jelloIsNativeBuiltin ins.imm then
      some (do ex.native ins.imm (ex.ctx fr) ins ins.rb; pure true)
    else none
  | fr :: _, .tailcallr =>
    match result (calleeOf fr.rf ins.rb) vm.store with
    | .ok (.builtin fn, _) =>
      some (do ex.native fn.funcIndex (ex.ctx fr) ins ins.imm.toNat; pure true)
    | .ok (.prim fn, _) => some (jelloJdllInvokePrim ex fn (ex.ctx fr) ins ins.imm.toNat)
    | _ => none
  | _, _ => none

/-- The native function of a tail call has run and has not failed. -/
def NativeTail (ex : Exec) (vm : VM) (ins : JelloInsn) (s' : Store) : Prop :=
  ∃ x, vm.tailNative ex ins = some x ∧ result x vm.store = .ok (true, s')

def Ctl.push (c : Ctl) (f dst : ℕ) (capture : Bool) (s' : Store) : Ctl :=
  { acts := ⟨f, 0, dst, c.handlers.length, true, capture⟩ :: c.acts
    handlers := c.handlers
    store := s' }

/-- What the instruction `ins` at `pc` can do to `vm`, which is at `c`, once it has been fetched;
`lbl` says that it was left to the computed goto table. -/
inductive Effect (ex : Exec) (lbl : Bool) (vm : VM) (pc : ℕ) (ins : JelloInsn) :
    OpResult → Ctl → Ctl → Prop
  | stay {c : Ctl} {s' : Store} (hop : ins.op.isPlain = true)
      (hno : ins.op = .jmpIf → vm.operandA ins = 0) (hcalm : Calm c.store s')
      (hspill : Spilled ins.op c.store s') :
      Effect ex lbl vm pc ins .continue_ c { c with store := s' }
  | noFuel {c : Ctl} {s' : Store} (hop : ins.op = .jmp) (hquiet : Quiet c.store s')
      (htrap : Trapped s') : Effect ex lbl vm pc ins .trap c { c with store := s' }
  | raise {c : Ctl} {s' : Store} (hop : ins.op = .throw ∨ ins.op = .assert)
      (hspill : s'.spill = c.store.spill) (hlimit : s'.fuelLimit = c.store.fuelLimit)
      (hfuel : s'.fuelRemaining = c.store.fuelRemaining) (hpending : s'.excPending = true)
      (hcode : s'.trapCode = .thrown)
      (hpayload : s'.excPayload =
        if ins.op = .throw then vm.thrown ins else jelloMakeI32 TrapCode.thrown.code) :
      Effect ex lbl vm pc ins .trap c { c with store := s' }
  | jump {act : Act} {acts : List Act} {hs : List ExcHandler} {s s' : Store} (npc : ℕ)
      (hto : (ex.func act.f).jumpsTo pc ins (vm.operandA ins) = some npc)
      (hfuel : if ins.op = .jmp ∧ i32 ins.imm < 0 ∧ lbl = false then Charged s s' else s' = s) :
      Effect ex lbl vm pc ins .continue_ ⟨act :: acts, hs, s⟩
        ⟨{ act with pc := npc } :: acts, hs, s'⟩
  | try_ {act : Act} {acts : List Act} {hs : List ExcHandler} {s : Store} (catchPc : ℕ)
      (hop : ins.op = .try_)
      (hto : jumpTarget (pc + 1) ins.imm (ex.func act.f).ninsns = some catchPc) :
      Effect ex lbl vm pc ins .continue_ ⟨act :: acts, hs, s⟩
        ⟨act :: acts, ⟨acts.length, catchPc, ins.ra, ins.b != 0⟩ :: hs, s⟩
  | endtry {act : Act} {acts : List Act} {h : ExcHandler} {hs : List ExcHandler} {s : Store}
      (hop : ins.op = .endtry) (hidx : h.frameIndex = acts.length) :
      Effect ex lbl vm pc ins .continue_ ⟨act :: acts, h :: hs, s⟩ ⟨act :: acts, hs, s⟩
  | native {c : Ctl} {s₁ s' : Store} (hop : ins.op = .call ∨ ins.op = .callr)
      (hcharge : Charged c.store s₁) (hrun : NativeRun ex s₁ s') :
      Effect ex lbl vm pc ins .continue_ c { c with store := s' }
  | refused {r : OpResult} {c : Ctl} {s₁ s' : Store} (hr : r ≠ .return_)
      (hop : ins.op = .call ∨ ins.op = .callr) (hcharge : s₁ = c.store ∨ Charged c.store s₁)
      (hquiet : Quiet s₁ s') (htrap : Trapped s') :
      Effect ex lbl vm pc ins r c { c with store := s' }
  | push {c : Ctl} {s₁ s' : Store} (f dst : ℕ) (hop : ins.op = .call ∨ ins.op = .callr)
      (hf : f < ex.m.funcs.length) (hcharge : Charged c.store s₁) (hstill : Still s₁ s') :
      Effect ex lbl vm pc ins .continue_ c (c.push f dst false s')
  | tail {act : Act} {acts : List Act} {hs : List ExcHandler} {s s' : Store} (f : ℕ)
      (hop : ins.op = .tailcall ∨ ins.op = .tailcallr) (hto : vm.tailTarget ins = some f)
      (hf : f < ex.m.funcs.length) (hstill : Still s s') :
      Effect ex lbl vm pc ins .continue_ ⟨act :: acts, hs, s⟩
        ⟨{ act with f := f, pc := 0 } :: acts, hs, s'⟩
  | noTail {r : OpResult} {c : Ctl} {s' : Store} (hr : r ≠ .return_)
      (hop : ins.op = .tailcall ∨ ins.op = .tailcallr)
      (hrun : Quiet c.store s' ∨ NativeRun ex c.store s') (hpending : s'.excPending = true) :
      Effect ex lbl vm pc ins r c { c with store := s' }
  | nativeTail {act : Act} {acts : List Act} {hs : List ExcHandler} {s s₁ s' : Store}
      {r : OpResult} (hop : ins.op = .tailcall ∨ ins.op = .tailcallr) (hrun : NativeRun ex s s₁)
      (htail : NativeTail ex vm ins s₁) (hbase : act.excBase ≤ hs.length) (hstill : Still s₁ s')
      (hr : r = if act.hasCaller then .continue_ else .return_)
      (hcaller : act.hasCaller = true → acts ≠ []) :
      Effect ex lbl vm pc ins r ⟨act :: acts, hs, s⟩ ⟨acts, hs.drop (hs.length - act.excBase), s'⟩
  | ret {act : Act} {acts : List Act} {hs : List ExcHandler} {s s' : Store}
      (hop : ins.op = .ret) (hbase : act.excBase ≤ hs.length) (hstill : Still s s')
      (hcaller : act.hasCaller = true) (hacts : acts ≠ []) :
      Effect ex lbl vm pc ins .continue_ ⟨act :: acts, hs, s⟩
        ⟨acts, hs.drop (hs.length - act.excBase), s'⟩
  | finish {act : Act} {acts : List Act} {hs : List ExcHandler} {s s' : Store}
      (hop : ins.op = .ret) (hbase : act.excBase ≤ hs.length) (hstill : Still s s')
      (hcaller : act.hasCaller = false) :
      Effect ex lbl vm pc ins .return_ ⟨act :: acts, hs, s⟩ ⟨[], [], s'⟩

section Jumps

variable {ex : Exec} {lbl : Bool} {vm : VM} {fr : CallFrame} {frs : List CallFrame} {pc : ℕ}
  {ins : JelloInsn}

theorem ctl_of_frames (hfr : vm.callFrames = fr :: frs) :
    vm.ctl = ⟨fr.act :: frs.map CallFrame.act, vm.excHandlers, vm.store⟩ := by
  rw [VM.ctl, hfr]
  rfl

theorem frames_of_acts {a : Act} {acts : List Act} (hacts : vm.ctl.acts = a :: acts) :
    ∃ fr frs, vm.callFrames = fr :: frs ∧ fr.act = a ∧ frs.map CallFrame.act = acts := by
  cases hfr : vm.callFrames with
  | nil =>
    rw [VM.ctl, hfr] at hacts
    simp at hacts
  | cons fr frs =>
    rw [ctl_of_frames hfr, List.cons.injEq] at hacts
    exact ⟨fr, frs, rfl, hacts.1, hacts.2⟩

theorem ctl_of_same {c : Ctl} (hacts : vm.ctl.acts = c.acts) (hhs : vm.excHandlers = c.handlers) :
    vm.ctl = ⟨c.acts, c.handlers, vm.store⟩ := by
  rw [← hacts, ← hhs]
  rfl

theorem Now.ctl_eq {c : Ctl} (h : Now c vm) : vm.ctl = ⟨c.acts, c.handlers, vm.store⟩ :=
  ctl_of_same h.acts h.handlers

theorem ends_fuelCharge {ctx : Ctx} {Q : Bool → VM → Prop}
    (hsome : ∀ s', Charged vm.store s' → Q true (vm.setStore s'))
    (hnone : ∀ s', Quiet vm.store s' → Trapped s' → Q false (vm.setStore s')) :
    Ends (onStore (jelloVmFuelCharge ctx)) Q vm := by
  refine spec_onPart ?_
  simp only [jelloVmFuelCharge, spec_bind, spec_read, spec_ite, spec_pure, spec_change]
  refine ⟨fun h0 ↦ hsome _ (.unlimited h0), fun h0 ↦ ⟨fun _ ↦ ?_, fun hrem ↦
    hsome _ (.one h0 hrem)⟩⟩
  refine spec_setTrap.mpr ?_
  have htrap (s : Store) (msg : Option (List UInt8)) : Trapped
      { s with
        trapCode := .fuel
        trapMsg := msg
        excPending := true
        excPayload := jelloMakeI32 TrapCode.fuel.code } :=
    ⟨rfl, TrapCode.noConfusion, TrapCode.noConfusion, rfl⟩
  exact hnone _ ⟨⟨rfl, rfl, .inr (htrap _ _)⟩, rfl⟩ (htrap _ _)

theorem effect_jump (hfr : vm.callFrames = fr :: frs) {npc : ℕ} {s' : Store}
    (hto : (ex.func fr.f).jumpsTo pc ins (vm.operandA ins) = some npc)
    (hfuel : if ins.op = .jmp ∧ i32 ins.imm < 0 ∧ lbl = false then Charged vm.store s'
      else s' = vm.store) :
    Ends (setTopFrame { fr with pc := npc })
      (fun _ vm' ↦ Effect ex lbl vm pc ins .continue_ vm.ctl vm'.ctl) (vm.setStore s') := by
  refine (spec_change _).mpr ?_
  have hctl : ({ (vm.setStore s') with callFrames := { fr with pc := npc } ::
      (vm.setStore s').callFrames.tail } : VM).ctl =
      ⟨{ fr.act with pc := npc } :: frs.map CallFrame.act, vm.excHandlers, s'⟩ := by
    simp only [VM.ctl, VM.setStore, hfr, List.tail_cons, List.map_cons]
    rfl
  rw [hctl, ctl_of_frames hfr]
  exact .jump npc hto hfuel

theorem ends_opJmp (hfr : vm.callFrames = fr :: frs) (hpc : fr.pc = pc + 1)
    (hop : ins.op = .jmp) :
    Ends (opJmp ex ins) (fun r vm' ↦ Effect ex false vm pc ins r vm.ctl vm'.ctl) vm := by
  simp only [opJmp, spec_bind]
  refine ends_top hfr ?_
  split
  · exact spec_fail _
  · next npc hnpc =>
    have hto : (ex.func fr.f).jumpsTo pc ins (vm.operandA ins) = some npc := by
      simp only [JelloBcFunction.jumpsTo, hop, ← hpc]
      exact hnpc
    refine spec_ite.mpr ⟨fun hneg ↦ spec_bind.mpr ?_, fun hpos ↦ spec_bind.mpr ?_⟩
    · refine ends_fuelCharge (fun s' hs' ↦ ?_) fun s' hquiet htrap ↦ ?_
      · refine spec_bind.mpr ((effect_jump hfr hto ?_).mono fun _ vm' h ↦ (spec_pure _).mpr h)
        rw [if_pos ⟨hop, hneg, rfl⟩]
        exact hs'
      · exact (spec_pure _).mpr (.noFuel hop hquiet htrap)
    · refine (effect_jump hfr hto ?_).mono fun _ vm' h ↦ (spec_pure _).mpr h
      rw [if_neg fun h ↦ hpos h.2.1]

theorem ends_jumpFrom (hfr : vm.callFrames = fr :: frs) {base : ℕ} {d : UInt32}
    (hto : ∀ npc, jumpTarget base d (ex.func fr.f).ninsns = some npc →
      (ex.func fr.f).jumpsTo pc ins (vm.operandA ins) = some npc)
    (hfree : ¬ (ins.op = .jmp ∧ i32 ins.imm < 0 ∧ lbl = false)) :
    Ends (do jumpFrom ex fr base d; pure .continue_ : VMM OpResult)
      (fun r vm' ↦ Effect ex lbl vm pc ins r vm.ctl vm'.ctl) vm := by
  refine spec_bind.mpr ?_
  unfold jumpFrom
  split
  · exact spec_fail _
  · next npc hnpc =>
    have hfuel : if ins.op = .jmp ∧ i32 ins.imm < 0 ∧ lbl = false then Charged vm.store vm.store
        else vm.store = vm.store := by rw [if_neg hfree]
    exact (effect_jump hfr (hto npc hnpc) hfuel).mono fun _ vm' h ↦ (spec_pure _).mpr h

theorem ends_labelJmp (hfr : vm.callFrames = fr :: frs) (hpc : fr.pc = pc + 1)
    (hop : ins.op = .jmp) :
    Ends (labelJmp ex ins) (fun r vm' ↦ Effect ex true vm pc ins r vm.ctl vm'.ctl) vm := by
  refine spec_bind.mpr (ends_top hfr ?_)
  refine ends_jumpFrom hfr (fun npc h ↦ ?_) fun h ↦ Bool.noConfusion h.2.2
  simp only [JelloBcFunction.jumpsTo, hop, ← hpc]
  exact h

theorem effect_stay {vm' : VM} (h : SameCtl vm vm') (hop : ins.op.isPlain = true)
    (hno : ins.op = .jmpIf → vm.operandA ins = 0)
    (hspill : ins.op ≠ .spillPush ∧ ins.op ≠ .spillPop) :
    Effect ex lbl vm pc ins .continue_ vm.ctl vm'.ctl := by
  rw [ctl_of_same (c := vm.ctl) h.acts h.handlers]
  refine .stay hop hno h.store.quiet.toCalm ?_
  unfold Spilled
  split
  · next heq => exact absurd heq hspill.1
  · next heq => exact absurd heq hspill.2
  · exact h.store.spill

theorem ends_opJmpIf (hfr : vm.callFrames = fr :: frs) (hpc : fr.pc = pc + 1)
    (hop : ins.op = .jmpIf) :
    Ends (opJmpIf ex ins) (fun r vm' ↦ Effect ex lbl vm pc ins r vm.ctl vm'.ctl) vm := by
  simp only [opJmpIf, spec_bind]
  refine ends_top hfr (spec_onPart (spec_vmLoadU32.mpr ⟨trivial, ?_⟩))
  have hcond : vm.operandA ins = load32 vm.store.mem (fr.rf.addr ins.ra) := by
    simp only [VM.operandA, hfr]
  refine spec_ite.mpr ⟨fun hyes ↦ ?_, fun hno ↦ (spec_pure _).mpr ?_⟩
  · refine ends_jumpFrom hfr (fun npc h ↦ ?_) fun h ↦ ?_
    · simp only [JelloBcFunction.jumpsTo, hop, ← hpc, hcond, if_pos hyes]
      exact h
    · rw [hop] at h
      exact JelloOp.noConfusion h.1
  · refine effect_stay (refl_of SameCtl vm) (by rw [hop]; rfl) (fun _ ↦ ?_) (by simp [hop])
    exact hcond.trans (not_not.mp hno)

theorem ends_findCase {m : JelloBcModule} {f : ℕ} {kind : UInt32} {s : Store} (n lo : ℕ)
    {Q : Option UInt32 → Store → Prop} (hQ : Q ((m.func f).caseOf kind lo n) s) :
    Ends (findCase m f kind lo n) Q s := by
  induction n generalizing lo with
  | zero => exact (spec_pure _).mpr hQ
  | succ n ih =>
    simp only [findCase, spec_bind, spec_note, true_and, spec_ite, spec_pure]
    refine ⟨fun hkind ↦ ?_, fun hkind ↦ ih (lo + 1) ?_⟩
    · rwa [JelloBcFunction.caseOf, if_pos hkind] at hQ
    · rwa [JelloBcFunction.caseOf, if_neg hkind] at hQ

theorem ends_opSwitchKind (hfr : vm.callFrames = fr :: frs) (hpc : fr.pc = pc + 1)
    (hop : ins.op = .switchKind) :
    Ends (opSwitchKind ex ins) (fun r vm' ↦ Effect ex lbl vm pc ins r vm.ctl vm'.ctl) vm := by
  simp only [opSwitchKind, spec_bind]
  refine ends_top hfr (spec_onPart (spec_vmLoadU32.mpr ⟨trivial, ?_⟩))
  have hkind : vm.operandA ins = load32 vm.store.mem (fr.rf.addr ins.ra) := by
    simp only [VM.operandA, hfr]
  refine spec_ite.mpr ⟨fun _ ↦ spec_fail _, fun _ ↦ spec_bind.mpr (spec_onPart ?_)⟩
  refine ends_findCase ins.rb fr.pc ?_
  have hsame : (vm.setStore vm.store).callFrames = fr :: frs := hfr
  refine ends_jumpFrom hsame (fun npc hnpc ↦ ?_) fun h ↦ ?_
  · have hvm : (vm.setStore vm.store).operandA ins = vm.operandA ins := rfl
    simp only [JelloBcFunction.jumpsTo, hop, ← hpc, hvm, hkind]
    exact hnpc
  · rw [hop] at h
    exact JelloOp.noConfusion h.1

theorem ends_opTry (hfr : vm.callFrames = fr :: frs) (hpc : fr.pc = pc + 1)
    (hop : ins.op = .try_) :
    Ends (opTry ex ins) (fun r vm' ↦ Effect ex lbl vm pc ins r vm.ctl vm'.ctl) vm := by
  simp only [opTry, spec_bind]
  refine ends_top hfr ?_
  split
  · exact spec_fail _
  · next catchPc hto =>
    simp only [spec_bind, spec_read, vmExcPush, spec_change, spec_pure]
    have hctl : ({ vm with excHandlers := ⟨vm.callFrames.length - 1, catchPc, ins.ra,
        ins.b != 0⟩ :: vm.excHandlers } : VM).ctl = ⟨fr.act :: frs.map CallFrame.act,
        ⟨(frs.map CallFrame.act).length, catchPc, ins.ra, ins.b != 0⟩ :: vm.excHandlers,
        vm.store⟩ := by
      simp only [VM.ctl, hfr, List.map_cons, List.length_cons, List.length_map,
        Nat.add_sub_cancel]
    rw [hctl, ctl_of_frames hfr]
    exact .try_ catchPc hop (hpc ▸ hto)

theorem ends_opEndtry (hfr : vm.callFrames = fr :: frs) (hop : ins.op = .endtry) :
    Ends opEndtry (fun r vm' ↦ Effect ex lbl vm pc ins r vm.ctl vm'.ctl) vm := by
  simp only [opEndtry, vmExcPop, spec_bind, spec_read]
  split
  · exact (spec_pure _).mpr (spec_fail _)
  · next h hs hhs =>
    simp only [spec_bind, spec_change, spec_pure, spec_ite]
    refine ⟨fun _ ↦ spec_fail _, fun hidx ↦ ?_⟩
    have hidx' : h.frameIndex = (frs.map CallFrame.act).length := by
      have := not_not.mp hidx
      rw [this, hfr, List.length_cons, List.length_map, Nat.add_sub_cancel]
    have hctl : ({ vm with excHandlers := hs } : VM).ctl =
        ⟨fr.act :: frs.map CallFrame.act, hs, vm.store⟩ := by
      simp only [VM.ctl, hfr, List.map_cons]
    rw [hctl, ctl_of_frames hfr, hhs]
    exact .endtry hop hidx'

theorem effect_raise {code : TrapCode} (hop : ins.op = .throw ∨ ins.op = .assert)
    (hcode : code = .thrown) (msg : Option (List UInt8)) {payload : JelloValue} (mem : Mem)
    (heap : Heap) (hpayload : payload =
      if ins.op = .throw then vm.thrown ins else jelloMakeI32 TrapCode.thrown.code) :
    Effect ex lbl vm pc ins .trap vm.ctl (vm.setStore
      { vm.store with
        mem := mem
        heap := heap
        trapCode := code
        trapMsg := msg
        excPending := true
        excPayload := payload }).ctl :=
  .raise hop rfl rfl rfl rfl hcode hpayload

theorem ends_opThrow (hfr : vm.callFrames = fr :: frs) (hop : ins.op = .throw) :
    Ends (onCtx ex opThrow ins) (fun r vm' ↦ Effect ex lbl vm pc ins r vm.ctl vm'.ctl) vm := by
  refine spec_bind.mpr (ends_top hfr (spec_onPart ?_))
  simp only [opThrow, spec_bind, spec_vmLoadVal, spec_setTrap, spec_pure, true_and]
  refine effect_raise (.inl hop) rfl _ _ _ ?_
  rw [if_pos hop]
  simp only [VM.thrown, hfr]
  rfl

theorem ends_opAssert (hfr : vm.callFrames = fr :: frs) (hop : ins.op = .assert) :
    Ends (onCtx ex opAssert ins) (fun r vm' ↦ Effect ex lbl vm pc ins r vm.ctl vm'.ctl) vm := by
  refine spec_bind.mpr (ends_top hfr (spec_onPart ?_))
  simp only [opAssert, spec_bind, spec_vmLoadU32, spec_ite, spec_setTrap, spec_pure, true_and]
  have hpayload : jelloMakeI32 TrapCode.thrown.code =
      if ins.op = .throw then vm.thrown ins else jelloMakeI32 TrapCode.thrown.code := by
    rw [if_neg (by rw [hop]; exact JelloOp.noConfusion)]
  refine ⟨fun _ ↦ ?_, fun _ ↦ ⟨fun _ ↦ ?_, fun _ ↦ effect_raise (.inr hop) rfl _ _ _ hpayload⟩⟩
  · exact effect_stay (refl_of SameCtl vm) (by rw [hop]; rfl) (by simp [hop]) (by simp [hop])
  · refine spec_vmBoxFromTyped (regOk_true _ _ _ _) fun v heap ↦ ?_
    refine ⟨fun _ ↦ effect_raise (.inr hop) rfl _ _ _ hpayload, fun _ ↦ spec_cellAt fun c _ ↦ ?_⟩
    cases c <;> simp only [spec_bind, spec_setTrap, spec_pure] <;>
      exact effect_raise (.inr hop) rfl _ _ _ hpayload

end Jumps

section Calls

variable {ex : Exec} {lbl : Bool} {vm : VM} {fr : CallFrame} {frs : List CallFrame} {pc : ℕ}
  {ins : JelloInsn} {s₁ : Store}

theorem ends_callArgs {fi : UInt32} {first na : ℕ} {Q : ℕ → VM → Prop}
    (hQ : bytecodeIdx fi < ex.m.funcs.length → Q (bytecodeIdx fi) vm) :
    Ends (callArgs ex fr fi first na) Q vm := by
  simp only [callArgs, spec_ite, spec_pure]
  exact ⟨fun _ ↦ spec_fail _, fun h ↦ ⟨fun _ ↦ spec_fail _, fun _ ↦ hQ (by omega)⟩⟩

theorem effect_push {vm' : VM} {f dst : ℕ} (hop : ins.op = .call ∨ ins.op = .callr)
    (hf : f < ex.m.funcs.length) (hcharge : Charged vm.store s₁)
    (h : NowActs (⟨f, 0, dst, vm.excHandlers.length, true, false⟩ :: vm.ctl.acts) (vm.setStore s₁)
      vm') : Effect ex lbl vm pc ins .continue_ vm.ctl vm'.ctl := by
  rw [h.ctl_eq]
  exact .push f dst hop hf hcharge h.store

theorem effect_refused {vm' : VM} {r : OpResult} (hr : r ≠ .return_)
    (hop : ins.op = .call ∨ ins.op = .callr) (hcharge : s₁ = vm.store ∨ Charged vm.store s₁)
    (h : Refused (vm.setStore s₁) vm') : Effect ex lbl vm pc ins r vm.ctl vm'.ctl := by
  rw [ctl_of_same (c := vm.ctl) h.acts h.handlers]
  exact .refused hr hop hcharge h.store h.trapped

theorem ends_pushCall (hop : ins.op = .call ∨ ins.op = .callr) (hcharge : Charged vm.store s₁)
    {fi : UInt32} {first na g dst : ℕ} {funobj : Option JelloFunction} :
    Ends (do
        let cf ← callArgs ex fr fi first na
        let i ← topIndex
        let _ ← vmPushFrame ex cf g i dst first na funobj true
        pure .continue_ : VMM OpResult)
      (fun r vm' ↦ Effect ex lbl vm pc ins r vm.ctl vm'.ctl) (vm.setStore s₁) := by
  refine spec_bind.mpr (ends_callArgs fun hf ↦ spec_bind.mpr ((spec_read _).mpr ?_))
  refine spec_bind.mpr ((ends_vmPushFrame_ctl _ _ _ _ _ _ _ _).mono fun b vm' hb ↦ ?_)
  refine (spec_pure _).mpr ?_
  cases b with
  | true => exact effect_push hop hf hcharge hb
  | false => exact effect_refused OpResult.noConfusion hop (.inr hcharge) hb

theorem effect_native {s' : Store} (hop : ins.op = .call ∨ ins.op = .callr)
    (hcharge : Charged vm.store s₁) (hrun : NativeRun ex s₁ s') :
    Effect ex lbl vm pc ins .continue_ vm.ctl (vm.setStore s').ctl :=
  .native hop hcharge hrun

theorem ends_nativeCall (hop : ins.op = .call ∨ ins.op = .callr) (hcharge : Charged vm.store s₁)
    {fi : UInt32} {ctx : Ctx} {first : ℕ} :
    Ends (do onStore (ex.native fi ctx ins first); pure .continue_ : VMM OpResult)
      (fun r vm' ↦ Effect ex lbl vm pc ins r vm.ctl vm'.ctl) (vm.setStore s₁) := by
  refine spec_bind.mpr (spec_onPart (ends_iff.mpr fun _ s' hr ↦ (spec_pure _).mpr ?_))
  exact effect_native hop hcharge (.builtin fi ctx ins first hr)

theorem ends_primCall (hop : ins.op = .call ∨ ins.op = .callr) (hcharge : Charged vm.store s₁)
    {fn : JelloFunction} {ctx : Ctx} {first : ℕ} :
    Ends (do let _ ← onStore (jelloJdllInvokePrim ex fn ctx ins first); pure .continue_ :
        VMM OpResult)
      (fun r vm' ↦ Effect ex lbl vm pc ins r vm.ctl vm'.ctl) (vm.setStore s₁) := by
  refine spec_bind.mpr (spec_onPart (ends_iff.mpr fun b s' hr ↦ (spec_pure _).mpr ?_))
  exact effect_native hop hcharge (.prim fn ctx ins first b hr)

theorem ends_charged (hop : ins.op = .call ∨ ins.op = .callr) {ctx : Ctx} {x : VMM OpResult}
    (hx : ∀ s₁, Charged vm.store s₁ →
      Ends x (fun r vm' ↦ Effect ex lbl vm pc ins r vm.ctl vm'.ctl) (vm.setStore s₁)) :
    Ends (do if ← onStore (jelloVmFuelCharge ctx) then x else pure .trap : VMM OpResult)
      (fun r vm' ↦ Effect ex lbl vm pc ins r vm.ctl vm'.ctl) vm := by
  refine spec_bind.mpr (ends_fuelCharge (fun s₁ hs₁ ↦ hx s₁ hs₁) fun s₁ hquiet htrap ↦ ?_)
  refine (spec_pure _).mpr ?_
  have hrefused : Refused (vm.setStore vm.store) (vm.setStore s₁) := ⟨rfl, rfl, hquiet, htrap⟩
  exact effect_refused OpResult.noConfusion hop (.inl rfl) hrefused

theorem ends_opCall (hfr : vm.callFrames = fr :: frs) (hop : ins.op = .call) :
    Ends (opCall ex ins) (fun r vm' ↦ Effect ex lbl vm pc ins r vm.ctl vm'.ctl) vm := by
  refine spec_bind.mpr (ends_top hfr (ends_charged (.inl hop) fun s₁ hs₁ ↦ ?_))
  refine spec_ite.mpr ⟨fun _ ↦ ends_nativeCall (.inl hop) hs₁, fun _ ↦ ?_⟩
  exact ends_pushCall (.inl hop) hs₁

theorem ends_inlineCall (hfr : vm.callFrames = fr :: frs) (hop : ins.op = .call) :
    Ends (inlineCall ex ins) (fun r vm' ↦ Effect ex lbl vm pc ins r vm.ctl vm'.ctl) vm := by
  refine spec_bind.mpr (ends_top hfr (ends_charged (.inl hop) fun s₁ hs₁ ↦ ?_))
  refine spec_ite.mpr ⟨fun _ ↦ ends_nativeCall (.inl hop) hs₁, fun _ ↦ ?_⟩
  refine spec_bind.mpr (ends_callArgs fun hf ↦ spec_bind.mpr ((spec_read _).mpr ?_))
  refine spec_ite.mpr ⟨fun hself ↦ spec_bind.mpr ?_, fun _ ↦ spec_bind.mpr ((spec_read _).mpr ?_)⟩
  · have hfr₁ : (vm.setStore s₁).callFrames = fr :: frs := hfr
    refine (ends_vmPushSelfNumeric_ctl hfr₁ _ _ _).mono fun _ vm' h ↦ ?_
    rw [← hself.1] at h
    exact (spec_pure _).mpr (effect_push (.inl hop) hf hs₁ h)
  · refine spec_bind.mpr ((ends_vmPushFrame_ctl _ _ _ _ _ _ _ _).mono fun b vm' hb ↦ ?_)
    refine (spec_pure _).mpr ?_
    cases b with
    | true => exact effect_push (.inl hop) hf hs₁ hb
    | false => exact effect_refused OpResult.noConfusion (.inl hop) (.inr hs₁) hb

theorem ends_calleeOf {rf : RegFrame} {r : ℕ} {Q : Callee → VM → Prop}
    (hQ : ∀ c, result (calleeOf rf r) vm.store = .ok (c, vm.store) → Q c vm) :
    Ends (onStore (calleeOf rf r)) Q vm := by
  have hsame : Ends (calleeOf rf r) (fun _ s' ↦ s' = vm.store) vm.store := by
    simp only [calleeOf, spec_bind, spec_vmLoadVal, true_and, spec_ite, spec_pure, implies_true]
    refine fun _ _ ↦ spec_cellAt fun c _ ↦ ?_
    cases c <;> simp only [spec_ite, spec_pure, implies_true, and_self]
  refine spec_onPart (ends_iff.mpr fun c s' hr ↦ ?_)
  obtain rfl : s' = vm.store := hsame.of_result hr
  exact hQ c hr

theorem ends_trapCall (hop : ins.op = .call ∨ ins.op = .callr) (hcharge : Charged vm.store s₁)
    {code : TrapCode} {msg : Option (List UInt8)} {r : OpResult} (hr : r ≠ .return_)
    (hnone : code ≠ .none) (hthrown : code ≠ .thrown) :
    Ends (do onStore (setTrap code msg (jelloMakeI32 code.code)); pure r : VMM OpResult)
      (fun r vm' ↦ Effect ex lbl vm pc ins r vm.ctl vm'.ctl) (vm.setStore s₁) := by
  refine spec_bind.mpr (spec_onPart (spec_setTrap.mpr ((spec_pure _).mpr ?_)))
  have htrap : Trapped { s₁ with
      trapCode := code
      trapMsg := msg
      excPending := true
      excPayload := jelloMakeI32 code.code } := ⟨rfl, hnone, hthrown, rfl⟩
  exact effect_refused hr hop (.inr hcharge) ⟨rfl, rfl, ⟨⟨rfl, rfl, .inr htrap⟩, rfl⟩, htrap⟩

theorem ends_opCallr (hfr : vm.callFrames = fr :: frs) (hop : ins.op = .callr) :
    Ends (opCallr ex ins) (fun r vm' ↦ Effect ex lbl vm pc ins r vm.ctl vm'.ctl) vm := by
  refine spec_bind.mpr (ends_top hfr (ends_charged (.inr hop) fun s₁ hs₁ ↦ spec_bind.mpr ?_))
  refine ends_calleeOf fun c _ ↦ ?_
  cases c with
  | prim fn => exact ends_primCall (.inr hop) hs₁
  | builtin fn => exact ends_nativeCall (.inr hop) hs₁
  | bytecode fn => exact ends_pushCall (.inr hop) hs₁
  | notPointer v | null | notFunction =>
    exact ends_trapCall (.inr hop) hs₁ OpResult.noConfusion TrapCode.noConfusion
      TrapCode.noConfusion

theorem ends_inlineCallr (hfr : vm.callFrames = fr :: frs) (hop : ins.op = .callr) :
    Ends (inlineCallr ex ins) (fun r vm' ↦ Effect ex lbl vm pc ins r vm.ctl vm'.ctl) vm := by
  refine spec_bind.mpr (ends_top hfr (ends_charged (.inr hop) fun s₁ hs₁ ↦ spec_bind.mpr ?_))
  refine ends_calleeOf fun c _ ↦ ?_
  cases c with
  | prim fn => exact ends_primCall (.inr hop) hs₁
  | builtin fn => exact ends_nativeCall (.inr hop) hs₁
  | bytecode fn => exact ends_pushCall (.inr hop) hs₁
  | notPointer v | null | notFunction =>
    exact ends_trapCall (.inr hop) hs₁ OpResult.noConfusion TrapCode.noConfusion
      TrapCode.noConfusion

theorem ends_replaceCall (hfr : vm.callFrames = fr :: frs)
    (hop : ins.op = .tailcall ∨ ins.op = .tailcallr) {fi : UInt32}
    (hto : vm.tailTarget ins = some (bytecodeIdx fi)) {first na g : ℕ}
    {funobj : Option JelloFunction} :
    Ends (do
        let cf ← callArgs ex fr fi first na
        vmReplaceFrame ex cf g first na funobj
        pure .continue_ : VMM OpResult)
      (fun r vm' ↦ Effect ex lbl vm pc ins r vm.ctl vm'.ctl) vm := by
  refine spec_bind.mpr (ends_callArgs fun hf ↦ spec_bind.mpr ?_)
  refine (ends_vmReplaceFrame_ctl hfr _ _ _ _ _).mono fun _ vm' h ↦ (spec_pure _).mpr ?_
  rw [h.ctl_eq, ctl_of_frames hfr]
  exact .tail _ hop hto hf h.store

theorem ends_nativeTailCall {s₁ : Store} (hfr : vm.callFrames = fr :: frs)
    (hop : ins.op = .tailcall ∨ ins.op = .tailcallr) (hrun : NativeRun ex vm.store s₁)
    (htail : NativeTail ex vm ins s₁) (r : ℕ) :
    Ends (endNativeTail ex fr r) (fun r vm' ↦ Effect ex lbl vm pc ins r vm.ctl vm'.ctl)
      (vm.setStore s₁) := by
  have hfr₁ : (vm.setStore s₁).callFrames = fr :: frs := hfr
  refine (ends_endNativeTail_ctl hfr₁ r).mono fun res vm' h ↦ ?_
  obtain ⟨hres, hbase, hcaller, hnow⟩ := h
  rw [hnow.ctl_eq, ctl_of_frames hfr]
  exact .nativeTail hop hrun htail hbase hnow.store hres fun hc hnil ↦
    hcaller hc (List.map_eq_nil_iff.mp hnil)

theorem nativeTail_builtin {fi : UInt32} {ctx : Ctx} {first : ℕ} {s' : Store}
    (h : vm.tailNative ex ins = some (do ex.native fi ctx ins first; pure true))
    (hr : result (ex.native fi ctx ins first) vm.store = .ok ((), s')) :
    NativeTail ex vm ins s' := by
  refine ⟨_, h, ?_⟩
  rw [result_bind, hr]
  rfl

theorem ends_trapTail (hop : ins.op = .tailcall ∨ ins.op = .tailcallr) {code : TrapCode}
    {msg : Option (List UInt8)} {r : OpResult} (hr : r ≠ .return_) (hnone : code ≠ .none)
    (hthrown : code ≠ .thrown) :
    Ends (do onStore (setTrap code msg (jelloMakeI32 code.code)); pure r : VMM OpResult)
      (fun r vm' ↦ Effect ex lbl vm pc ins r vm.ctl vm'.ctl) vm := by
  refine spec_bind.mpr (spec_onPart (spec_setTrap.mpr ((spec_pure _).mpr ?_)))
  exact .noTail hr hop (.inl ⟨⟨rfl, rfl, .inr ⟨rfl, hnone, hthrown, rfl⟩⟩, rfl⟩) rfl

theorem ends_opTailcall (hfr : vm.callFrames = fr :: frs) (hop : ins.op = .tailcall) :
    Ends (opTailcall ex ins) (fun r vm' ↦ Effect ex lbl vm pc ins r vm.ctl vm'.ctl) vm := by
  refine spec_bind.mpr (ends_top hfr (spec_ite.mpr ⟨fun hn ↦ spec_bind.mpr ?_, fun hn ↦ ?_⟩))
  · refine spec_onPart (ends_iff.mpr fun _ s' hr ↦ ?_)
    refine ends_nativeTailCall hfr (.inl hop) (.builtin _ _ _ _ hr) (nativeTail_builtin ?_ hr) _
    simp only [VM.tailNative, hfr, hop, if_pos hn]
  · refine ends_replaceCall hfr (.inl hop) ?_
    simp only [VM.tailTarget, hfr, hop, if_neg hn]

theorem prim_failed {fn : JelloFunction} {ctx : Ctx} {first : ℕ} {s s' : Store}
    (h : result (jelloJdllInvokePrim ex fn ctx ins first) s = .ok (false, s')) :
    s'.excPending = true := by
  have hends : Ends (jelloJdllInvokePrim ex fn ctx ins first)
      (fun b s' ↦ b = false → s'.excPending = true) s := by
    refine spec_bind.mpr (ends_iff.mpr fun msg s₁ _ ↦ ?_)
    cases msg with
    | none => exact (spec_pure _).mpr fun h ↦ Bool.noConfusion h
    | some msg => exact spec_bind.mpr (spec_setTrap.mpr ((spec_pure _).mpr fun _ ↦ rfl))
  exact hends.of_result h rfl

/-- What both versions of `TAILCALLR` do with a callee that is a function. -/
theorem ends_tailCallee {c : Callee} {r : OpResult} {bad : VMM OpResult} (hr : r ≠ .return_)
    (hfr : vm.callFrames = fr :: frs) (hop : ins.op = .tailcallr)
    (hc : result (calleeOf fr.rf ins.rb) vm.store = .ok (c, vm.store))
    (hbad : Ends bad (fun r vm' ↦ Effect ex lbl vm pc ins r vm.ctl vm'.ctl) vm) :
    Ends (match c with
      | .prim fn => do
        if ← onStore (jelloJdllInvokePrim ex fn (ex.ctx fr) ins ins.imm.toNat) then
          endNativeTail ex fr ins.ra
        else pure r
      | .builtin fn => do
        onStore (ex.native fn.funcIndex (ex.ctx fr) ins ins.imm.toNat)
        endNativeTail ex fr ins.ra
      | .bytecode fn => do
        let cf ← callArgs ex fr fn.funcIndex ins.imm.toNat ins.rc
        vmReplaceFrame ex cf fr.f ins.imm.toNat ins.rc (some fn)
        pure .continue_
      | _ => bad : VMM OpResult)
      (fun r vm' ↦ Effect ex lbl vm pc ins r vm.ctl vm'.ctl) vm := by
  cases c with
  | prim fn =>
    refine spec_bind.mpr (spec_onPart (ends_iff.mpr fun b s' hrun ↦ ?_))
    cases b with
    | true =>
      refine ends_nativeTailCall hfr (.inr hop) (.prim _ _ _ _ _ hrun) ⟨_, ?_, hrun⟩ _
      simp only [VM.tailNative, hfr, hop, hc]
    | false => exact (spec_pure _).mpr (.noTail hr (.inr hop) (.inr (.prim _ _ _ _ _ hrun))
        (prim_failed hrun))
  | builtin fn =>
    refine spec_bind.mpr (spec_onPart (ends_iff.mpr fun _ s' hrun ↦ ?_))
    refine ends_nativeTailCall hfr (.inr hop) (.builtin _ _ _ _ hrun)
      (nativeTail_builtin ?_ hrun) _
    simp only [VM.tailNative, hfr, hop, hc]
  | bytecode fn =>
    refine ends_replaceCall hfr (.inr hop) ?_
    simp only [VM.tailTarget, hfr, hop, hc]
  | notPointer v => exact hbad
  | null => exact hbad
  | notFunction => exact hbad

theorem ends_opTailcallr (hfr : vm.callFrames = fr :: frs) (hop : ins.op = .tailcallr) :
    Ends (opTailcallr ex ins) (fun r vm' ↦ Effect ex lbl vm pc ins r vm.ctl vm'.ctl) vm := by
  refine spec_bind.mpr (ends_top hfr (spec_bind.mpr (ends_calleeOf fun c hc ↦ ?_)))
  cases c with
  | prim fn | builtin fn | bytecode fn =>
    exact ends_tailCallee (r := .continue_) OpResult.noConfusion hfr hop hc (spec_fail Fault.wild)
  | null => exact spec_fail _
  | notPointer v | notFunction =>
    exact ends_trapTail (.inr hop) OpResult.noConfusion TrapCode.noConfusion TrapCode.noConfusion

theorem ends_inlineTailcallr (hfr : vm.callFrames = fr :: frs) (hop : ins.op = .tailcallr) :
    Ends (inlineTailcallr ex ins)
      (fun r vm' ↦ Effect ex lbl vm pc ins r vm.ctl vm'.ctl) vm := by
  refine spec_bind.mpr (ends_top hfr (spec_bind.mpr (ends_calleeOf fun c hc ↦ ?_)))
  cases c with
  | prim fn | builtin fn | bytecode fn =>
    exact ends_tailCallee (r := .trap) OpResult.noConfusion hfr hop hc (spec_fail Fault.wild)
  | notPointer v | null | notFunction =>
    exact ends_trapTail (.inr hop) OpResult.noConfusion TrapCode.noConfusion TrapCode.noConfusion

theorem effect_returned {r : OpResult} {vm' : VM} (hfr : vm.callFrames = fr :: frs)
    (hop : ins.op = .ret)
    (h : Returned fr.act (frs.map CallFrame.act) vm.excHandlers vm.store r vm') :
    Effect ex lbl vm pc ins r vm.ctl vm'.ctl := by
  rw [ctl_of_frames hfr]
  cases h with
  | caller hbase hcaller hacts hnow =>
    rw [hnow.ctl_eq]
    exact .ret hop hbase hnow.store hcaller hacts
  | run hbase hcaller hnow =>
    rw [hnow.ctl_eq]
    exact .finish hop hbase hnow.store hcaller

end Calls

section Instructions

variable {ex : Exec} {lbl : Bool} {vm : VM} {fr : CallFrame} {frs : List CallFrame} {pc : ℕ}
  {ins : JelloInsn}

theorem ends_data (hfr : vm.callFrames = fr :: frs) (hop : ins.op.isPlain = true)
    (hno : ins.op ≠ .jmpIf) {x : Ctx → JelloInsn → StoreM Unit}
    (hx : Keeps (fun _ ↦ True) (Settled ins.op) (x (ex.ctx fr) ins)) :
    Ends (do onCtx ex x ins; pure .continue_ : VMM OpResult)
      (fun r vm' ↦ Effect ex lbl vm pc ins r vm.ctl vm'.ctl) vm := by
  simp only [onCtx, spec_bind]
  refine ends_top hfr (spec_onPart (hx.then fun _ s' h ↦ (spec_pure _).mpr ?_))
  exact .stay hop (fun h ↦ absurd h hno) h.toCalm h.spilled

/-- Only jumps look at which version of `JMP` was taken. -/
theorem Effect.relabel {lbl' : Bool} {r : OpResult} {c c' : Ctl} (hop : ins.op ≠ .jmp)
    (h : Effect ex lbl vm pc ins r c c') : Effect ex lbl' vm pc ins r c c' := by
  cases h with
  | stay h₁ h₂ h₃ h₄ => exact .stay h₁ h₂ h₃ h₄
  | noFuel h₁ h₂ h₃ => exact .noFuel h₁ h₂ h₃
  | raise h₁ h₂ h₃ h₄ h₅ h₆ h₇ => exact .raise h₁ h₂ h₃ h₄ h₅ h₆ h₇
  | jump npc hto hfuel =>
    rw [if_neg fun h ↦ hop h.1] at hfuel
    exact .jump npc hto (by rw [if_neg fun h ↦ hop h.1]; exact hfuel)
  | try_ catchPc h₁ h₂ => exact .try_ catchPc h₁ h₂
  | endtry h₁ h₂ => exact .endtry h₁ h₂
  | native h₁ h₂ h₃ => exact .native h₁ h₂ h₃
  | refused h₁ h₂ h₃ h₄ h₅ => exact .refused h₁ h₂ h₃ h₄ h₅
  | push f dst h₁ h₂ h₃ h₄ => exact .push f dst h₁ h₂ h₃ h₄
  | tail f h₁ h₂ h₃ h₄ => exact .tail f h₁ h₂ h₃ h₄
  | noTail h₁ h₂ h₃ h₄ => exact .noTail h₁ h₂ h₃ h₄
  | nativeTail h₁ h₂ h₃ h₄ h₅ h₆ h₇ => exact .nativeTail h₁ h₂ h₃ h₄ h₅ h₆ h₇
  | ret h₁ h₂ h₃ h₄ h₅ => exact .ret h₁ h₂ h₃ h₄ h₅
  | finish h₁ h₂ h₃ h₄ => exact .finish h₁ h₂ h₃ h₄

theorem isPlain_of_controlOp {build : Build} (h : controlOp ex build ins = none) :
    ins.op.isPlain = true ∧ ins.op ≠ .jmpIf := by
  unfold controlOp at h
  split at h <;> simp_all [JelloOp.isPlain]

theorem ends_opDispatch (build : Build) (hfr : vm.callFrames = fr :: frs)
    (hpc : fr.pc = pc + 1) :
    Ends (opDispatch ex build ins)
      (fun r vm' ↦ Effect ex (build == .computedGoto) vm pc ins r vm.ctl vm'.ctl) vm := by
  cases hctl : controlOp ex build ins with
  | none =>
    have hx : Keeps (fun _ ↦ True) (Settled ins.op)
        ((if build = .switch then dataOp ins.op else labelOp ins.op) (ex.ctx fr) ins) := by
      split_ifs
      · exact keeps_dataOp_settled (opOk_true _ _)
      · exact keeps_labelOp_settled (opOk_true _ _)
    simp only [opDispatch, hctl]
    exact ends_data hfr (isPlain_of_controlOp hctl).1 (isPlain_of_controlOp hctl).2 hx
  | some x =>
    simp only [opDispatch, hctl]
    unfold controlOp at hctl
    split at hctl <;> simp only [Option.some.injEq, reduceCtorEq] at hctl <;> subst hctl
    · next hop =>
      split_ifs
      · exact (ends_opRet_ctl hfr).mono fun r vm' h ↦ effect_returned hfr hop h
      · exact (ends_labelRet_ctl hfr).mono fun r vm' h ↦ effect_returned hfr hop h
    · next hop =>
      cases build with
      | switch => exact ends_opJmp hfr hpc hop
      | computedGoto => exact ends_labelJmp hfr hpc hop
    · next hop => exact ends_opJmpIf hfr hpc hop
    · next hop => exact ends_opTry hfr hpc hop
    · next hop => exact ends_opEndtry hfr hop
    · next hop => exact ends_opThrow hfr hop
    · next hop => exact ends_opAssert hfr hop
    · next hop => exact ends_opCall hfr hop
    · next hop => exact ends_opCallr hfr hop
    · next hop => exact ends_opTailcall hfr hop
    · next hop => exact ends_opTailcallr hfr hop
    · next hop => exact ends_opSwitchKind hfr hpc hop

theorem not_spill_of_inlineOp {x : Ctx → JelloInsn → StoreM Unit} (h : inlineOp ins.op = some x) :
    ins.op ≠ .spillPush ∧ ins.op ≠ .spillPop ∧ ins.op.isPlain = true := by
  generalize ins.op = op at h
  refine ⟨?_, ?_, ?_⟩
  · rintro rfl
    simp only [inlineOp, reduceCtorEq] at h
  · rintro rfl
    simp only [inlineOp, reduceCtorEq] at h
  · cases op <;> first | rfl | simp only [inlineOp, reduceCtorEq] at h

theorem ends_inlineInsn (build : Build) (hfr : vm.callFrames = fr :: frs)
    (hpc : fr.pc = pc + 1) :
    Ends (inlineInsn ex build ins)
      (fun r vm' ↦ Effect ex false vm pc ins r vm.ctl vm'.ctl) vm := by
  cases hctl : inlineControl ex ins with
  | some x =>
    simp only [inlineInsn, hctl]
    unfold inlineControl at hctl
    split at hctl <;> simp only [Option.some.injEq, reduceCtorEq] at hctl <;> subst hctl
    · next hop => exact (ends_inlineRet_ctl hfr).mono fun r vm' h ↦ effect_returned hfr hop h
    · next hop => exact ends_opJmp hfr hpc hop
    · next hop => exact ends_opJmpIf hfr hpc hop
    · next hop => exact ends_opAssert hfr hop
    · next hop => exact ends_inlineCall hfr hop
    · next hop => exact ends_inlineCallr hfr hop
    · next hop => exact ends_opTailcall hfr hop
    · next hop => exact ends_inlineTailcallr hfr hop
  | none =>
    simp only [inlineInsn, hctl]
    cases hinl : inlineOp ins.op with
    | some x =>
      obtain ⟨hpush, hpop, hplain⟩ := not_spill_of_inlineOp hinl
      have hno : ins.op ≠ .jmpIf := by
        intro hop
        simp only [inlineControl, hop, reduceCtorEq] at hctl
      refine ends_data hfr hplain hno fun s ↦ ?_
      exact (keeps_inlineOp (opOk_true _ _) hinl).then fun _ s' hs ↦ hs.settled hpush hpop
    | none =>
      have hjmp : ins.op ≠ .jmp := by
        intro hop
        simp only [inlineControl, hop, reduceCtorEq] at hctl
      exact (ends_opDispatch build hfr hpc).mono fun r vm' h ↦ h.relabel hjmp

end Instructions

end JelloVM
