import JelloVM.Payload

namespace JelloVM

open ByteMemory Logged

section Dispatch

variable {ex : Exec} {vm vm' : VM}

/-- Nothing but frames, handlers and the top of the frame stack has changed. -/
def SameStore (vm vm' : VM) : Prop := vm'.store = vm.store

instance : IsPreorder VM SameStore where
  refl _ := rfl
  trans _ _ _ h h' := h'.trans h

theorem sameStore_vmRfRelease (rf : RegFrame) :
    Keeps (fun _ ↦ True) SameStore (vmRfRelease rf) := by
  intro vm
  simp only [vmRfRelease, spec_bind, spec_read, id, spec_ite, spec_pure, spec_change]
  exact ⟨fun _ ↦ rfl, fun _ ↦ ⟨fun _ ↦ rfl, fun _ ↦ spec_fail _⟩⟩

theorem sameStore_unwindTo (target : ℕ) (frs : List CallFrame) :
    Keeps (fun _ ↦ True) SameStore (unwindTo target frs) := by
  induction frs with
  | nil => exact keeps_pure _
  | cons fr frs ih =>
    refine keeps_ite (fun _ ↦ ?_) fun _ ↦ keeps_pure _
    refine keeps_bind (keeps_change fun _ ↦ rfl) fun _ ↦ ?_
    refine keeps_bind (sameStore_vmRfRelease _) fun _ ↦ ?_
    exact keeps_bind (keeps_change fun _ ↦ rfl) fun _ ↦ ih

/-- The handler `h` has control, and `v` is in its register. -/
structure Delivered (vm' : VM) (h : ExcHandler) (v : JelloValue) : Prop where
  frame : ∃ fr frs, vm'.callFrames = fr :: frs ∧ frs.length = h.frameIndex ∧
    fr.pc = h.catchPc ∧ load64 vm'.store.mem (fr.rf.addr h.dstReg) = v

theorem ends_vmExcDispatch_delivers (hpending : vm.store.excPending = true) :
    Ends (vmExcDispatch ex) (fun b vm' ↦ b = false → ∃ h hs v s₁,
      willing vm.store.trapCode vm.excHandlers = some (h, hs) ∧
      result (vmWrapCatchPayload ex.m) vm.store = .ok (v, s₁) ∧ Delivered vm' h v ∧
      vm'.store.heap = s₁.heap) vm := by
  have hyes : (!vm.store.excPending) = false := by rw [hpending]; rfl
  simp only [vmExcDispatch, spec_bind, spec_read, id, hyes, Bool.false_eq_true, if_false]
  split
  · simp only [spec_bind, spec_pure]
    exact (ends_iff.mpr fun _ _ _ ↦ (spec_change _).mpr fun h ↦ Bool.noConfusion h)
  · next h hs hwilling =>
    refine spec_bind.mpr ((spec_change _).mpr (spec_bind.mpr ?_))
    have hnow : Now ⟨vm.callFrames.map CallFrame.act, hs, vm.store⟩
        { vm with excHandlers := hs } := ⟨rfl, rfl, refl_of Still vm.store⟩
    have hboth := (ends_unwindTo_ctl h.frameIndex vm.callFrames hnow).and
      (sameStore_unwindTo h.frameIndex vm.callFrames _)
    refine hboth.mono fun _ vm₁ hvm₁ ↦ spec_bind.mpr (ends_frameAtIndex fun fr hfr ↦ ?_)
    obtain ⟨h₁, hstore⟩ := hvm₁
    have hlen : vm₁.callFrames.length ≤ h.frameIndex + 1 := by
      have hle := unwound_length h.frameIndex (vm.callFrames.map CallFrame.act) hs
      have hacts : vm₁.callFrames.map CallFrame.act =
        (unwound h.frameIndex (vm.callFrames.map CallFrame.act) hs).1 := h₁.acts
      rwa [← hacts, List.length_map] at hle
    obtain ⟨frs, hfrs, hidx⟩ := VM.frameAt_topmost hfr hlen
    simp only [spec_bind, setTopFrame, spec_change]
    refine spec_onPart (ends_iff.mpr fun v s₁ hwrap ↦ spec_onPart ?_)
    refine spec_vmStoreVal.mpr ⟨trivial, spec_onPart ((spec_change _).mpr ((spec_pure _).mpr ?_))⟩
    have hwrap' : result (vmWrapCatchPayload ex.m) vm.store = .ok (v, s₁) := by
      rw [← hwrap]
      exact congrArg _ hstore.symm
    refine fun _ ↦ ⟨h, hs, v, s₁, hwilling, hwrap', ?_, rfl⟩
    refine ⟨{ fr with pc := h.catchPc }, frs, ?_, hidx, rfl, load64_store64 _ _ _⟩
    exact congrArg (List.cons _) (by rw [hfrs]; rfl)

theorem ends_checkExc_delivers (hpending : vm.store.excPending = true) :
    Ends (checkExc ex) (fun st vm' ↦ st = none → ∃ h hs v s₁,
      willing vm.store.trapCode vm.excHandlers = some (h, hs) ∧
      result (vmWrapCatchPayload ex.m) vm.store = .ok (v, s₁) ∧ Delivered vm' h v ∧
      vm'.store.heap = s₁.heap) vm := by
  simp only [checkExc, spec_bind, spec_read, id, spec_ite, spec_pure]
  refine ⟨fun _ h ↦ Option.noConfusion rfl (heq_of_eq h), fun _ ↦ ?_⟩
  refine (ends_vmExcDispatch_delivers hpending).mono fun b vm₁ h₁ ↦
    ⟨fun _ h ↦ ?_, fun hb ↦ ⟨fun _ ↦ ?_, fun _ _ ↦ h₁ (by simpa using hb)⟩⟩
  · exact Option.noConfusion rfl (heq_of_eq h)
  · exact ends_setOut fun _ ↦ fun h ↦ Option.noConfusion rfl (heq_of_eq h)

end Dispatch

section Raise

variable {ex : Exec} {lbl : Bool} {vm : VM} {pc : ℕ} {ins : JelloInsn} {r : OpResult} {c c' : Ctl}

/-- Native code raises exceptions as `jello_vm_trap` does: the payload is the code. -/
def NativesTrap (ex : Exec) : Prop :=
  ∀ s s', NativeRun ex s s' → s.excPending = false → s'.excPending = true →
    s'.excPayload = jelloMakeI32 s'.trapCode.code

/-- The payload of an exception: the value that was thrown, or else the code. -/
structure Raised (vm : VM) (ins : JelloInsn) (s : Store) : Prop where
  payload : s.excPayload =
    if ins.op = .throw then vm.thrown ins else jelloMakeI32 s.trapCode.code
  code : ins.op = .throw → s.trapCode = .thrown

theorem Charged.pending {s s' : Store} (h : Charged s s') : s'.excPending = s.excPending := by
  cases h with
  | unlimited _ => rfl
  | one _ _ => rfl

theorem raised_of_code {s : Store} (hop : ins.op ≠ .throw)
    (h : s.excPayload = jelloMakeI32 s.trapCode.code) : Raised vm ins s :=
  ⟨by rw [if_neg hop, h], fun h ↦ absurd h hop⟩

theorem Calm.raised {s s' : Store} (h : Calm s s') (hop : ins.op ≠ .throw)
    (hno : s.excPending = false) (hpending : s'.excPending = true) : Raised vm ins s' := by
  obtain hsame | htrap := h.trap
  · rw [hsame.pending, hno] at hpending
    exact Bool.noConfusion hpending
  · exact raised_of_code hop htrap.payload

theorem Effect.raised (he : Effect ex lbl vm pc ins r c c') (hnative : NativesTrap ex)
    (hno : c.store.excPending = false) (hpending : c'.store.excPending = true) :
    Raised vm ins c'.store := by
  have hcall (hop : ins.op = .call ∨ ins.op = .callr) : ins.op ≠ .throw := by
    intro h
    simp [h] at hop
  have htailcall (hop : ins.op = .tailcall ∨ ins.op = .tailcallr) : ins.op ≠ .throw := by
    intro h
    simp [h] at hop
  have habsurd {s : Store} (hs : s.excPending = c.store.excPending) (hp : s.excPending = true) :
      Raised vm ins s := by
    rw [hs, hno] at hp
    exact Bool.noConfusion hp
  cases he with
  | stay hop _ hcalm _ =>
    exact hcalm.raised (fun h ↦ by simp [h, JelloOp.isPlain] at hop) hno hpending
  | noFuel hop _ htrap => exact raised_of_code (by simp [hop]) htrap.payload
  | raise _ _ _ _ _ hcode hpayload => exact ⟨by rw [hpayload, hcode], fun _ ↦ hcode⟩
  | jump npc _ hfuel =>
    refine habsurd ?_ hpending
    split_ifs at hfuel
    · exact hfuel.pending
    · rw [hfuel]
  | try_ _ _ _ => exact habsurd rfl hpending
  | endtry _ _ => exact habsurd rfl hpending
  | native hop hcharge hrun =>
    exact raised_of_code (hcall hop) (hnative _ _ hrun (hcharge.pending.trans hno) hpending)
  | refused _ hop _ _ htrap => exact raised_of_code (hcall hop) htrap.payload
  | push _ _ _ _ hcharge hstill =>
    exact habsurd (hstill.trap.pending.trans hcharge.pending) hpending
  | tail _ _ _ _ hstill => exact habsurd hstill.trap.pending hpending
  | noTail _ hop hrun hp =>
    obtain hquiet | hnat := hrun
    · exact hquiet.toCalm.raised (htailcall hop) hno hp
    · exact raised_of_code (htailcall hop) (hnative _ _ hnat hno hp)
  | nativeTail hop hrun _ _ hstill _ _ =>
    refine raised_of_code (htailcall hop) ?_
    have hp : _ = true := hstill.trap.pending.symm.trans hpending
    rw [hstill.trap.payload, hstill.trap.code]
    exact hnative _ _ hrun hno hp
  | ret _ _ hstill _ _ => exact habsurd hstill.trap.pending hpending
  | finish _ _ hstill _ => exact habsurd hstill.trap.pending hpending

theorem thrown_fetched (vm : VM) (ins : JelloInsn) : vm.fetched.thrown ins = vm.thrown ins := by
  unfold VM.fetched
  split
  · rfl
  · next fr frs hfr => simp only [VM.thrown, hfr]

end Raise

section Catch

variable {ex : Exec} {reference : Bool} {build : Build} {vm₁ vm₂ vm₃ : VM} {ins : JelloInsn}

/-- The value is the number that a failed assertion throws. -/
def IsAssertCode (v : JelloValue) : Prop :=
  jelloIsI32 v = true ∧ jelloAsI32 v = TrapCode.thrown.code

instance (v : JelloValue) : Decidable (IsAssertCode v) := by
  unfold IsAssertCode
  infer_instance

theorem not_jelloIsPtr_of_isI32 {v : JelloValue} (h : jelloIsI32 v = true) :
    jelloIsPtr v = false := by
  rw [jelloIsI32, hasTag, beq_iff_eq] at h
  rw [jelloIsPtr, hasTag, h]
  rfl

theorem isUserThrow_iff {s : Store} (h : s.trapCode = .thrown) :
    catchPayloadIsUserThrow s = true ↔ ¬ IsAssertCode s.excPayload := by
  simp only [catchPayloadIsUserThrow, h, beq_self_eq_true, Bool.true_and, Bool.or_eq_true,
    Bool.not_eq_true', bne_iff_ne, ne_eq, IsAssertCode, not_and, ← Bool.not_eq_true]
  tauto

theorem isUserThrow_of_code {s : Store} (h : s.excPayload = jelloMakeI32 s.trapCode.code) :
    catchPayloadIsUserThrow s = false := by
  rw [catchPayloadIsUserThrow, h]
  cases s.trapCode <;> rfl

theorem raised_of_execInsn {st : Option ExecStatus} (hnative : NativesTrap ex)
    (hno : vm₁.store.excPending = false) (hins : vm₁.nextInsn ex = some ins)
    (hbody : result (execInsn ex reference build) vm₁ = .ok (st, vm₂))
    (hpending : vm₂.store.excPending = true) : Raised vm₁ ins vm₂.store := by
  obtain ⟨r, -, hround⟩ := ends_execInsn.of_result hbody
  cases hround with
  | @step a acts ins' hacts hins' heffect =>
    obtain rfl : ins' = ins := Option.some.inj (hins'.symm.trans hins)
    have hraised := heffect.raised hnative hno hpending
    refine ⟨?_, hraised.code⟩
    rw [← thrown_fetched]
    exact hraised.payload

theorem Dispatched.calm_after {c c' : Ctl} (h : Dispatched c c') :
    c'.store.excPending = false := by
  cases h with
  | calm h => exact h
  | caught _ _ _ _ hcaught => exact hcaught.pending

theorem Fetches.calm (h : Fetches ex reference build (fun _ ↦ True) vm₁) :
    vm₁.store.excPending = false := by
  obtain ⟨vm, -, hhead⟩ := h
  exact (ends_checkExc_ctl.of_result hhead rfl).1.calm_after

end Catch

section Throws

variable {ex : Exec} {reference : Bool} {build : Build} {vm₀ vm₁ vm₂ vm₃ : VM}

theorem nativesTrap_alone (m : JelloBcModule) : NativesTrap (Exec.alone m) :=
  fun _ _ hrun ↦ absurd hrun (not_nativeRun_alone m)

/-- The first `n` rounds, the head of the next one and its instruction. -/
def executeAt (ex : Exec) (reference : Bool) (build : Build) (n : ℕ) :
    VMM (((Bool × Option ExecStatus) × Option ExecStatus) × Option ExecStatus) := do
  let r ← fetchAt ex reference build n
  let st ← execInsn ex reference build
  pure (r, st)

/-- A number that is thrown and caught in one frame. -/
def throwModule (x : UInt32) : JelloBcModule :=
  { tailTryModule with
    types := [⟨.dynamic, 0⟩, ⟨.i32, 0⟩]
    funcs :=
      [{ regTypes := [0, 1]
         capStart := 0
         insns := [{ op := .constI32, a := 1, b := 0, c := 0, imm := x },
           { op := .toDyn, a := 0, b := 1, c := 0, imm := 0 },
           { op := .try_, a := 0, b := 0, c := 0, imm := 2 },
           { op := .throw, a := 0, b := 0, c := 0, imm := 0 },
           { op := .endtry, a := 0, b := 0, c := 0, imm := 0 },
           { op := .ret, a := 0, b := 0, c := 0, imm := 0 }]
         sourceFile := 0
         lines := [] }] }

def throwInsn : JelloInsn := { op := .throw, a := 0, b := 0, c := 0, imm := 0 }

/-- What is fetched next, its operand, and whether something is pending. -/
def VM.throwView (ex : Exec) (vm : VM) : Option JelloInsn × JelloValue × Bool × JelloValue :=
  (vm.nextInsn ex, vm.thrown throwInsn, vm.store.excPending, vm.store.heap.next)

/-- The program counters of the frames, and their first registers. -/
def VM.firstRegs (vm : VM) : List (ℕ × JelloValue) :=
  vm.callFrames.map fun fr ↦ (fr.pc, load64 vm.store.mem (fr.rf.addr 0))

/-- The steps of a program up to an instruction, from what evaluation shows of them. -/
theorem executed_states (ex : Exec) (reference : Bool) (build : Build) (vm₀ : VM) (n : ℕ)
    {β γ : Type} (f : VM → β) (g : VM → γ) (st : Option ExecStatus) (b : β) (c : γ)
    (h₁ : (result (fetchAt ex reference build n) vm₀).toOption.map (fun r ↦ (r.1, f r.2)) =
      some (((true, none), none), b))
    (h₂ : (result (executeAt ex reference build n) vm₀).toOption.map (fun r ↦ (r.1, g r.2)) =
      some ((((true, none), none), st), c)) :
    ∃ vm₁ vm₂, Fetches ex reference build (fun _ ↦ True) vm₁ ∧ f vm₁ = b ∧
      result (execInsn ex reference build) vm₁ = .ok (st, vm₂) ∧ g vm₂ = c ∧
      result (executeAt ex reference build n) vm₀ = .ok ((((true, none), none), st), vm₂) := by
  obtain ⟨vm₁, st', vm₂, hr₁, hv₁, hexec, hv₂, hr₂⟩ := result_of_views h₁ h₂
  obtain ⟨⟨-, rfl⟩, hg⟩ : (_ ∧ st' = st) ∧ g vm₂ = c := by simpa only [Prod.mk.injEq] using hv₂
  exact ⟨vm₁, vm₂, fetches_of_fetchAt hr₁, hv₁, hexec, hg, hr₂⟩

theorem caught_states (ex : Exec) (reference : Bool) (build : Build) (vm₀ : VM) (n : ℕ)
    (view₁ view₂ : Option JelloInsn × JelloValue × Bool × JelloValue)
    (regs : List (ℕ × JelloValue))
    (h₁ : (result (fetchAt ex reference build n) vm₀).toOption.map
      (fun r ↦ (r.1, r.2.throwView ex)) = some (((true, none), none), view₁))
    (h₂ : (result (executeAt ex reference build n) vm₀).toOption.map
      (fun r ↦ (r.1, r.2.throwView ex)) = some ((((true, none), none), none), view₂))
    (h₃ : (result (do
        let r ← executeAt ex reference build n
        let st ← checkExc ex
        pure (r, st)) vm₀).toOption.map (fun r ↦ (r.1, r.2.firstRegs)) =
      some (((((true, none), none), none), none), regs)) :
    ∃ vm₁ vm₂ vm₃, Fetches ex reference build (fun _ ↦ True) vm₁ ∧ vm₁.throwView ex = view₁ ∧
      result (execInsn ex reference build) vm₁ = .ok (none, vm₂) ∧ vm₂.throwView ex = view₂ ∧
      result (checkExc ex) vm₂ = .ok (none, vm₃) ∧ vm₃.firstRegs = regs := by
  obtain ⟨vm₁, vm₂, hfetch, hv₁, hexec, hv₂, hr₂⟩ := executed_states ex reference build vm₀ n
    (VM.throwView ex) (VM.throwView ex) none view₁ view₂ h₁ h₂
  obtain ⟨vm₂', st, vm₃, hr, -, hcheck, hv₃, -⟩ := result_of_views h₂ h₃
  obtain rfl : vm₂ = vm₂' := (Prod.mk.inj (Except.ok.inj (hr₂.symm.trans hr))).2
  obtain ⟨⟨-, rfl⟩, hregs⟩ : (_ ∧ st = none) ∧ vm₃.firstRegs = regs := by
    simpa only [Prod.mk.injEq] using hv₃
  exact ⟨vm₁, vm₂, vm₃, hfetch, hv₁, hexec, hv₂, hcheck, hregs⟩

end Throws

end JelloVM
