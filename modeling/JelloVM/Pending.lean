import JelloVM.Delivery
import JelloVM.Equality

namespace JelloVM

open ByteMemory Logged

/-- The handler is willing to catch exceptions of the kind. -/
def Catches (code : TrapCode) (h : ExcHandler) : Prop := ¬ (code = .thrown ∧ h.trapOnly = true)

instance (code : TrapCode) (h : ExcHandler) : Decidable (Catches code h) := by
  unfold Catches
  infer_instance

section Willing

variable {code : TrapCode} {hs rest : List ExcHandler} {h : ExcHandler}

theorem willing_of_not {g : ExcHandler} (hg : ¬ Catches code g) :
    willing code (g :: hs) = willing code hs := by
  rw [Catches, not_not] at hg
  rw [willing, if_pos (by simp [hg])]

theorem willing_of_catches (hh : Catches code h) : willing code (h :: hs) = some (h, hs) := by
  rw [willing, if_neg]
  intro hc
  exact hh (by simpa using hc)

theorem willing_own {own : List ExcHandler} (older : List ExcHandler) (hh : h ∈ own) (hc : Catches code h) :
    ∃ pre g post, own = pre ++ g :: post ∧ (∀ x ∈ pre, ¬ Catches code x) ∧ Catches code g ∧
      willing code (own ++ older) = some (g, post ++ older) := by
  induction own with
  | nil => exact absurd hh List.not_mem_nil
  | cons x own ih =>
    by_cases hx : Catches code x
    · exact ⟨[], x, own, rfl, by simp, hx, willing_of_catches hx⟩
    · obtain rfl | hmem := List.mem_cons.mp hh
      · exact absurd hc hx
      · obtain ⟨pre, g, post, rfl, hpre, hg, hw⟩ := ih hmem
        refine ⟨x :: pre, g, post, rfl, ?_, hg, (willing_of_not hx).trans hw⟩
        intro y hy
        obtain rfl | hy := List.mem_cons.mp hy
        · exact hx
        · exact hpre y hy

end Willing

section Transfer

variable {ex : Exec} {vm : VM} {fr : CallFrame} {frs : List CallFrame} {h : ExcHandler}
  {hs : List ExcHandler}

theorem wrap_returns (m : JelloBcModule) (s : Store) :
    ∃ v s₁, result (vmWrapCatchPayload m) s = .ok (v, s₁) := by
  cases huser : catchPayloadIsUserThrow s with
  | true => exact ⟨_, _, result_vmWrapCatchPayload_user huser⟩
  | false =>
    obtain ⟨heap, hres, -⟩ := result_vmWrapCatchPayload (m := m) huser
    exact ⟨_, _, hres⟩

theorem dispatch_own (ex : Exec) (hpending : vm.store.excPending = true) (hfr : vm.callFrames = fr :: frs)
    (hw : willing vm.store.trapCode vm.excHandlers = some (h, hs))
    (hidx : h.frameIndex = frs.length) : ∃ vm', result (vmExcDispatch ex) vm = .ok (false, vm') ∧
      vm'.callFrames = { fr with pc := h.catchPc } :: frs := by
  obtain ⟨v, s₁, hwrap⟩ := wrap_returns ex.m vm.store
  have hunwind (vm' : VM) : result (unwindTo h.frameIndex vm.callFrames) vm' = .ok ((), vm') := by
    rw [hfr, unwindTo, if_neg (by omega)]
    rfl
  have hat : result (frameAtIndex h.frameIndex) { vm with excHandlers := hs } =
      .ok (fr, { vm with excHandlers := hs }) := by
    have hsome : ({ vm with excHandlers := hs } : VM).frameAt h.frameIndex = some fr := by
      rw [hidx]
      exact VM.frameAt_top hfr
    simp [frameAtIndex, hsome, Except.bind]
  have hyes : (!vm.store.excPending) = false := by rw [hpending]; rfl
  simp only [vmExcDispatch, result_bind, result_read, Except.bind, id, hyes, Bool.false_eq_true,
    if_false]
  rw [hw]
  simp only [result_bind, result_change, Except.bind, hunwind, hat, setTopFrame, onStore,
    result_onPart, Except.map, hwrap]
  exact ⟨_, rfl, congrArg (List.cons _) (by simp [hfr])⟩

theorem checkExc_own {ex : Exec} (hmin : ex.minCallFrames = 0) (hpending : vm.store.excPending = true)
    (hfr : vm.callFrames = fr :: frs)
    (hw : willing vm.store.trapCode vm.excHandlers = some (h, hs))
    (hidx : h.frameIndex = frs.length) : ∃ vm', result (checkExc ex) vm = .ok (none, vm') ∧
      vm'.callFrames = { fr with pc := h.catchPc } :: frs := by
  obtain ⟨vm', hres, hfrs⟩ := dispatch_own ex hpending hfr hw hidx
  refine ⟨vm', ?_, hfrs⟩
  simp [checkExc, hmin, hres, hfrs, Except.bind]

end Transfer

section Kept

variable {ex : Exec} {reference lbl : Bool} {build : Build} {P : VM → Prop} {vm vm' vm₁ vm₂ : VM}
  {ins : JelloInsn} {r : OpResult} {a : Act} {acts : List Act} {hs : List ExcHandler} {s : Store}
  {c' : Ctl}

/-- A native function that a tail call leads to raises an exception only when the frame has a
caller and no handler of its own that is willing to catch it. -/
def TailTrapsSeen (ex : Exec) (vm : VM) : Prop :=
  ∀ ins s', vm.nextInsn ex = some ins → NativeTail ex vm.fetched ins s' →
    s'.excPending = true → (∃ fr frs, vm.callFrames = fr :: frs ∧ fr.hasCaller = true) ∧
      ∀ h ∈ vm.excHandlers, h.frameIndex + 1 = vm.callFrames.length → ¬ Catches s'.trapCode h

/-- Whatever the handlers and the instructions are, the handlers lie in layers. -/
theorem anyFlows (ex : Exec) (P : VM → Prop) :
    Flows (fun _ _ _ ↦ True) (fun _ _ _ ↦ True) ex P where
  entry _ _ := trivial
  catch_ _ _ _ _ := trivial
  flow _ _ _ _ _ := by
    refine ⟨fun _ _ ↦ trivial, fun _ _ ↦ trivial, fun _ _ _ ↦ ⟨fun _ ↦ trivial, trivial⟩,
      fun _ _ _ ↦ trivial, fun _ _ _ _ ho ↦ ⟨Owned.of_forall fun h hh ↦ ?_, trivial⟩⟩
    exact ⟨ho.frameIndex hh, fun _ ↦ trivial⟩

/-- An instruction that leaves an exception leaves the frame and its handlers, unless a native
function that a tail call leads to has raised it. -/
theorem Effect.pending_frame (he : Effect ex lbl vm a.pc ins r
      ⟨{ a with pc := a.pc + 1 } :: acts, hs, s⟩ c') (hno : s.excPending = false)
    (hpending : c'.store.excPending = true) :
    (c'.acts = { a with pc := a.pc + 1 } :: acts ∧ c'.handlers = hs ∧ r ≠ .return_) ∨
      (∃ s', NativeTail ex vm ins s' ∧ Still s' c'.store ∧
        r = if a.hasCaller then .continue_ else .return_) := by
  have habsurd {s' : Store} (hs : s'.excPending = s.excPending) (hp : s'.excPending = true) :
      False := by
    rw [hs, hno] at hp
    exact Bool.noConfusion hp
  cases he with
  | stay _ _ _ _ => exact .inl ⟨rfl, rfl, OpResult.noConfusion⟩
  | noFuel _ _ _ => exact .inl ⟨rfl, rfl, OpResult.noConfusion⟩
  | raise _ _ _ _ _ _ _ => exact .inl ⟨rfl, rfl, OpResult.noConfusion⟩
  | jump npc _ hfuel =>
    refine (habsurd ?_ hpending).elim
    split_ifs at hfuel
    · exact hfuel.pending
    · rw [hfuel]
  | try_ _ _ _ => exact (habsurd rfl hpending).elim
  | endtry _ _ => exact (habsurd rfl hpending).elim
  | native _ _ _ => exact .inl ⟨rfl, rfl, OpResult.noConfusion⟩
  | refused hr _ _ _ _ => exact .inl ⟨rfl, rfl, hr⟩
  | push _ _ _ _ hcharge hstill =>
    exact (habsurd (hstill.trap.pending.trans hcharge.pending) hpending).elim
  | tail _ _ _ _ hstill => exact (habsurd hstill.trap.pending hpending).elim
  | noTail hr _ _ _ => exact .inl ⟨rfl, rfl, hr⟩
  | nativeTail _ _ htail _ hstill hr _ => exact .inr ⟨_, htail, hstill, hr⟩
  | ret _ _ hstill _ _ => exact (habsurd hstill.trap.pending hpending).elim
  | finish _ _ hstill _ => exact (habsurd hstill.trap.pending hpending).elim

/-- The head of a loop that is not nested ends a run only when nothing is pending. -/
theorem ends_checkExc_ok (hmin : ex.minCallFrames = 0) :
    Ends (checkExc ex) (fun st vm' ↦ st = some .ok → vm'.store.excPending = false) vm := by
  simp only [checkExc, spec_bind, spec_read, id, spec_ite, spec_pure]
  refine ⟨fun h ↦ absurd hmin h.1, fun _ ↦ ends_vmExcDispatch_ctl.mono fun b vm₁ h₁ ↦
    ⟨fun _ h ↦ ?_, fun hb ↦ ⟨fun _ ↦ ?_, fun _ h ↦ ?_⟩⟩⟩
  · exact ExecStatus.noConfusion (Option.some.inj h)
  · have hcalm : vm₁.store.excPending = false := (h₁ (by simpa using hb)).calm_after
    unfold setOut
    refine spec_ite.mpr ⟨fun _ ↦ (spec_change _).mpr ?_, fun _ ↦ (spec_pure _).mpr ?_⟩
    · exact fun _ ↦ hcalm
    · exact fun _ ↦ hcalm
  · exact Option.noConfusion rfl (heq_of_eq h)

/-- The exception that `vm₂` has from the instruction executed at `vm₁` takes control to the
innermost handler of the frame that is willing to catch it. -/
def Transferred (ex : Exec) (vm₁ vm₂ : VM) : Prop :=
  ∃ pre h post vm₃, vm₁.excHandlers = pre ++ h :: post ∧
    (∀ g ∈ pre, ¬ Catches vm₂.store.trapCode g) ∧ Catches vm₂.store.trapCode h ∧
    h.frameIndex + 1 = vm₁.callFrames.length ∧ result (checkExc ex) vm₂ = .ok (none, vm₃) ∧
    ∃ a acts, vm₁.ctl.acts = a :: acts ∧ vm₃.ctl.acts = { a with pc := h.catchPc } :: acts

theorem transferred (hmin : ex.minCallFrames = 0) (hl : vm₁.ctl.Layered (fun _ _ _ ↦ True)
      (fun _ _ _ ↦ True)) (hacts₁ : vm₁.ctl.acts = a :: acts)
    (hacts₂ : vm₂.ctl.acts = { a with pc := a.pc + 1 } :: acts)
    (hhs : vm₂.excHandlers = vm₁.excHandlers) (hpending : vm₂.store.excPending = true)
    {h₀ : ExcHandler} (hmem : h₀ ∈ vm₁.excHandlers)
    (hidx : h₀.frameIndex + 1 = vm₁.callFrames.length)
    (hcatch : Catches vm₂.store.trapCode h₀) : Transferred ex vm₁ vm₂ := by
  have hlen := acts_length hacts₁
  rw [Ctl.Layered, hacts₁] at hl
  obtain ⟨own, older, heq, -, hown, -, hrest⟩ := hl
  have heq : vm₁.excHandlers = own ++ older := heq
  have howned : h₀ ∈ own := by
    rw [heq, List.mem_append] at hmem
    refine hmem.resolve_right fun holder ↦ ?_
    have := hrest.frameIndex_lt holder
    omega
  obtain ⟨pre, h, post, rfl, hpre, hh, hw⟩ := willing_own older howned hcatch
  have hindex : h.frameIndex = acts.length := hown.frameIndex (by simp)
  obtain ⟨fr, frs, hfr, hact, hmap⟩ := frames_of_acts hacts₂
  have hfrs : frs.length = acts.length := by rw [← hmap, List.length_map]
  obtain ⟨vm₃, hres, hframes⟩ := checkExc_own hmin hpending hfr
    (by rw [hhs, heq]; exact hw) (by omega)
  refine ⟨pre, h, post ++ older, vm₃, by rw [heq]; simp, hpre, hh, by omega, hres, a, acts,
    hacts₁, ?_⟩
  rw [ctl_of_frames hframes, hmap]
  have hfields : ({ fr with pc := h.catchPc } : CallFrame).act = { fr.act with pc := h.catchPc } :=
    rfl
  rw [hfields, hact]

end Kept

/-- `native_system_assert_eq`, where the values are no deeper than `depth`. The text of the failure,
with the message that a third argument gives, is printed to the buffer that the trap then copies to
itself: `left` is what that leaves in it. -/
def nativeSystemAssertEq (fpu : Fpu) (depth : ℕ) (left : List UInt8) (ctx : Ctx) (ins : JelloInsn)
    (firstArgReg : ℕ) : StoreM Unit := do
  let actual ← vmBoxFromTyped ctx.m ctx.f ctx.rf firstArgReg
  let expected ← vmBoxFromTyped ctx.m ctx.f ctx.rf (firstArgReg + 1)
  if ← valuesEqual fpu depth actual expected then vmStoreU32 ctx.rf ins.ra 1
  else do
    if 3 ≤ ins.c then
      let _ ← vmBoxFromTyped ctx.m ctx.f ctx.rf (firstArgReg + 2)
    setTrap .thrown (some left) (jelloMakeI32 TrapCode.thrown.code)

/-- A run of a module with one native function. -/
def Exec.asserting (m : JelloBcModule) : Exec :=
  { Exec.alone m with
    native := fun fi ctx ins firstArgReg ↦
      if fi = 9 then nativeSystemAssertEq default 1 [] ctx ins firstArgReg else panic }

/-- A protected region that leaves the comparison of two numbers to a native function, by a call
or by a tail call. -/
def assertModule (op : JelloOp) : JelloBcModule :=
  { tailTryModule with
    types := [⟨.dynamic, 0⟩, ⟨.i32, 0⟩, ⟨.bool, 0⟩]
    funcs :=
      [{ regTypes := [0, 1, 1, 2]
         capStart := 0
         insns := [{ op := .constI32, a := 1, b := 0, c := 0, imm := 1 },
           { op := .constI32, a := 2, b := 0, c := 0, imm := 2 },
           { op := .try_, a := 0, b := 0, c := 0, imm := 2 },
           { op := op, a := 3, b := 1, c := 2, imm := 9 },
           { op := .endtry, a := 0, b := 0, c := 0, imm := 0 },
           { op := .ret, a := 0, b := 0, c := 0, imm := 0 }]
         sourceFile := 0
         lines := [] }] }

/-- The handlers and the number of frames. -/
def VM.handlerCount (vm : VM) : List ExcHandler × ℕ × Bool × TrapCode :=
  (vm.excHandlers, vm.callFrames.length, vm.store.excPending, vm.store.trapCode)

theorem JelloBcModule.NoTail.trapsSeen {ex : Exec} (hm : ex.m.NoTail) (vm : VM) :
    TailTrapsSeen ex vm := by
  intro ins s' hins htail
  obtain ⟨fn, hfn, hmem⟩ := nextInsn_mem hins
  obtain ⟨htailcall, htailcallr⟩ := hm fn hfn ins hmem
  obtain ⟨x, hx, -⟩ := htail
  unfold VM.tailNative at hx
  split at hx
  · next heq => exact absurd heq htailcall
  · next heq => exact absurd heq htailcallr
  · exact Option.noConfusion rfl (heq_of_eq hx)

end JelloVM
