import JelloVM.FrameRuns
import JelloVM.Run

/-! The loop of the interpreter does to the frames only what the runs of the frame stack are made
of. -/

namespace JelloVM

open Logged

/-- A machine on which anything that gives or takes frames may have run. -/
def Running (ex : Exec) (vm : VM) : Prop := OpRun ex (fun _ _ ↦ True) vm

section Operations

variable {ex : Exec} {vm vm' : VM} {fr : CallFrame} {frs : List CallFrame}

theorem Running.same (h : Running ex vm) (hs : SameStack vm vm') : Running ex vm' :=
  OpRun.other h hs

theorem Running.setStore (h : Running ex vm) (s : Store) : Running ex (vm.setStore s) :=
  h.same ⟨rfl, rfl, rfl, rfl, rfl⟩

theorem Running.setPc (h : Running ex vm) (htop : vm.callFrames = fr :: frs) (pc : ℕ) :
    Running ex { vm with callFrames := { fr with pc := pc } :: vm.callFrames.tail } := by
  refine h.same ⟨rfl, rfl, rfl, rfl, ?_⟩
  rw [htop]
  rfl

theorem running_onStore {α : Type} {x : StoreM α} (h : Running ex vm) :
    Ends (onStore x) (fun _ ↦ Running ex) vm := ends_onStore fun _ s ↦ h.setStore s

theorem result_topFrame (htop : vm.callFrames = fr :: frs) :
    result topFrame vm = .ok (fr, vm) := by
  simp only [topFrame, result_bind, result_read, Except.bind, htop]
  rfl

theorem result_topIndex (htop : vm.callFrames = fr :: frs) :
    result topIndex vm = .ok (frs.length, vm) := by
  simp [topIndex, htop]

theorem Running.op {α : Type} {x : VMM α} {a : α} (h : Running ex vm) (op : StackOp)
    (hop : result (op.run ex) vm = result (do let _ ← x) vm)
    (hr : result x vm = .ok (a, vm')) : Running ex vm' := by
  refine h.step op trivial ?_
  rw [hop, result_then hr]
  rfl

theorem running_execEntry (h : Running ex vm) : Ends (execEntry ex) (fun _ ↦ Running ex) vm :=
  ends_iff.mpr fun _ _ hr ↦ h.op .entry rfl hr

theorem running_execChunk (h : Running ex vm) (f : ℕ) (args : List JelloValue) :
    Ends (execChunk ex f args) (fun _ ↦ Running ex) vm :=
  ends_iff.mpr fun _ _ hr ↦ h.op (.chunk f args) rfl hr

theorem running_execClosure (h : Running ex vm) (fn : JelloFunction) (args : List JelloValue) :
    Ends (execClosure ex fn args) (fun _ ↦ Running ex) vm :=
  ends_iff.mpr fun _ _ hr ↦ h.op (.closure fn args) rfl hr

theorem running_vmExcDispatch (h : Running ex vm) :
    Ends (vmExcDispatch ex) (fun _ ↦ Running ex) vm :=
  ends_iff.mpr fun _ _ hr ↦ h.op .dispatch rfl hr

theorem running_call (h : Running ex vm) (htop : vm.callFrames = fr :: frs)
    (f callerDst firstArg nargs : ℕ) (funobj : Option JelloFunction) :
    Ends (vmPushFrame ex f fr.f frs.length callerDst firstArg nargs funobj true)
      (fun _ ↦ Running ex) vm := by
  refine ends_iff.mpr fun _ _ hr ↦ h.op (.call f callerDst firstArg nargs funobj) ?_ hr
  rw [StackOp.run, result_then (result_topFrame htop), result_then (result_topIndex htop)]

theorem running_tailcall (h : Running ex vm) (htop : vm.callFrames = fr :: frs)
    (f firstArg nargs : ℕ) (funobj : Option JelloFunction) :
    Ends (vmReplaceFrame ex f fr.f firstArg nargs funobj) (fun _ ↦ Running ex) vm := by
  refine ends_iff.mpr fun _ _ hr ↦ h.step (.tailcall f firstArg nargs funobj) trivial ?_
  rw [StackOp.run, result_then (result_topFrame htop)]
  exact hr

theorem running_callSelf (h : Running ex vm) (htop : vm.callFrames = fr :: frs)
    (hnum : fr.hasPointerOrDynamic = false) (hroom : vm.canPush = true) {firstArg nargs : ℕ}
    (hargs : nargs ≤ 16) (callerDst : ℕ) :
    Ends (vmPushSelfNumeric ex firstArg nargs callerDst) (fun _ ↦ Running ex) vm := by
  refine ends_iff.mpr fun _ _ hr ↦ h.step (.callSelf callerDst firstArg nargs) trivial ?_
  have hcond : (!fr.hasPointerOrDynamic) = true ∧ nargs ≤ 16 ∧ vm.canPush = true :=
    ⟨by rw [hnum]; rfl, hargs, hroom⟩
  rw [StackOp.run, result_then (result_topFrame htop), result_then (result_read _ _),
    if_pos hcond]
  exact hr

theorem running_ret (h : Running ex vm) (htop : vm.callFrames = fr :: frs) :
    Ends (vmRfRelease fr.rf)
      (fun _ vm' ↦ Running ex { vm' with callFrames := vm'.callFrames.tail }) vm := by
  refine ends_iff.mpr fun _ g hrel ↦ h.step .ret trivial ?_
  rw [StackOp.run, result_then (result_topFrame htop), result_then hrel]
  rfl

theorem running_retLast (h : Running ex vm) (htop : vm.callFrames = fr :: frs) :
    Ends (vmRfRelease fr.rf) (fun _ vm' ↦ Running ex { vm' with callFrames := [] }) vm := by
  refine ends_iff.mpr fun _ g hrel ↦ h.step .retLast trivial ?_
  rw [StackOp.run, result_then (result_topFrame htop), result_then hrel]
  rfl

end Operations

section Returns

variable {ex : Exec} {vm : VM} {fr caller : CallFrame} {frs : List CallFrame} {ins : JelloInsn}

theorem running_setOut (h : Running ex vm) (v : JelloValue) :
    Ends (setOut ex v) (fun _ ↦ Running ex) vm :=
  ends_setOut fun _ ↦ h.same ⟨rfl, rfl, rfl, rfl, rfl⟩

theorem running_finishRun (h : Running ex vm) (htop : vm.callFrames = fr :: frs)
    (v : JelloValue) : Ends (finishRun ex fr v) (fun _ ↦ Running ex) vm := by
  simp only [finishRun, spec_bind, spec_change]
  refine (running_retLast h htop).mono fun _ g hg ↦ running_setOut ?_ v
  exact hg.same ⟨rfl, rfl, rfl, rfl, rfl⟩

theorem running_captureRet (h : Running ex vm) (htop : vm.callFrames = fr :: frs) (a : ℕ) :
    Ends (captureRet ex fr a) (fun _ ↦ Running ex) vm := by
  simp only [captureRet, popCallFrame, spec_bind, spec_change]
  refine ends_onStore fun v s ↦ ?_
  have hs : Running ex { vm.setStore s with jdllOut := some v, jdllCallOut := false } :=
    (h.setStore s).same ⟨rfl, rfl, rfl, rfl, rfl⟩
  exact running_ret hs htop

theorem running_returnRaw (h : Running ex vm) (htop : vm.callFrames = fr :: frs) (a tid : ℕ) :
    Ends (returnRaw ex fr caller a tid) (fun _ ↦ Running ex) vm := by
  simp only [returnRaw, popCallFrame, spec_bind, spec_change]
  refine ends_onStore fun t s ↦ ends_onStore fun _ s' ↦ ?_
  exact running_ret ((h.setStore s).setStore s') htop

theorem running_returnBoxed (h : Running ex vm) (htop : vm.callFrames = fr :: frs) (a : ℕ) :
    Ends (returnBoxed ex fr caller a) (fun _ ↦ Running ex) vm := by
  simp only [returnBoxed, popCallFrame, spec_bind, spec_change]
  refine ends_onStore fun v s ↦ ?_
  exact (running_ret (h.setStore s) htop).mono fun _ g hg ↦ running_onStore hg

theorem running_dropHandlers (h : Running ex vm) (htop : vm.callFrames = fr :: frs)
    {x : VMM OpResult} (hx : ∀ vm', Running ex vm' → vm'.callFrames = fr :: frs →
      Ends x (fun _ ↦ Running ex) vm') :
    Ends (do dropHandlers fr; x : VMM OpResult) (fun _ ↦ Running ex) vm := by
  refine spec_bind.mpr (ends_dropHandlers fun hs ↦ hx _ ?_ htop)
  exact h.same ⟨rfl, rfl, rfl, rfl, rfl⟩

theorem running_opRet (h : Running ex vm) : Ends (opRet ex ins) (fun _ ↦ Running ex) vm := by
  refine spec_bind.mpr (ends_topFrame fun fr frs htop ↦
    running_dropHandlers h htop fun vm' hvm' htop' ↦ ?_)
  simp only [spec_ite, spec_bind, spec_change, spec_read, spec_pure]
  refine ⟨fun _ ↦ ends_onStore fun v s ↦ ⟨fun _ ↦ ends_onStore fun e s' ↦ ?_, fun _ ↦ ?_⟩,
    fun _ ↦ ends_callerFrame fun _ _ _ _ ↦ ⟨fun _ ↦ running_captureRet hvm' htop' _,
      fun _ ↦ ends_onStore fun tid s ↦ ends_onStore fun dstTid s' ↦ ?_⟩⟩
  · have hs : Running ex { (vm'.setStore s).setStore s' with outExports := some e } :=
      ((hvm'.setStore s).setStore s').same ⟨rfl, rfl, rfl, rfl, rfl⟩
    exact running_finishRun hs htop' v
  · exact running_finishRun (hvm'.setStore s) htop' v
  · have hs := (hvm'.setStore s).setStore s'
    exact ⟨fun _ ↦ running_returnRaw hs htop' _ _, fun _ ↦ running_returnBoxed hs htop' _⟩

theorem running_labelRet (h : Running ex vm) : Ends (labelRet ex ins) (fun _ ↦ Running ex) vm := by
  refine spec_bind.mpr (ends_topFrame fun fr frs htop ↦
    running_dropHandlers h htop fun vm' hvm' htop' ↦ ?_)
  simp only [spec_ite, spec_bind, spec_read, spec_pure]
  refine ⟨fun _ ↦ ends_onStore fun v s ↦ running_finishRun (hvm'.setStore s) htop' v,
    fun _ ↦ ends_callerFrame fun _ _ _ _ ↦ ⟨fun _ ↦ running_captureRet hvm' htop' _,
      fun _ ↦ ends_onStore fun tid s ↦ ends_onStore fun dstTid s' ↦ ?_⟩⟩
  have hs := (hvm'.setStore s).setStore s'
  exact ⟨fun _ ↦ running_returnRaw hs htop' _ _, fun _ ↦ running_returnBoxed hs htop' _⟩

theorem running_inlineRet (h : Running ex vm) :
    Ends (inlineRet ex ins) (fun _ ↦ Running ex) vm := by
  refine spec_bind.mpr (ends_topFrame fun fr frs htop ↦
    running_dropHandlers h htop fun vm' hvm' htop' ↦ ?_)
  simp only [spec_ite, spec_bind, spec_read, spec_pure]
  refine ⟨fun _ ↦ ends_onStore fun v s ↦ running_finishRun (hvm'.setStore s) htop' v,
    fun _ ↦ ends_callerFrame fun _ _ _ _ ↦ ⟨fun _ ↦ running_captureRet hvm' htop' _,
      fun _ ↦ ends_onStore fun tid s ↦ ⟨fun _ ↦ running_returnRaw (hvm'.setStore s) htop' _ _,
        fun _ ↦ ends_onStore fun dstTid s' ↦ ?_⟩⟩⟩
  have hs := (hvm'.setStore s).setStore s'
  exact ⟨fun _ ↦ running_returnRaw hs htop' _ _, fun _ ↦ running_returnBoxed hs htop' _⟩

theorem running_endNativeTail (h : Running ex vm) (htop : vm.callFrames = fr :: frs) (a : ℕ) :
    Ends (endNativeTail ex fr a) (fun _ ↦ Running ex) vm := by
  refine running_dropHandlers h htop fun vm' hvm' htop' ↦ ?_
  simp only [popCallFrame, spec_ite, spec_bind, spec_change, spec_pure]
  refine ⟨fun _ ↦ ends_onStore fun v s ↦ ?_, fun _ ↦ ends_callerFrame fun _ _ _ _ ↦ ?_⟩
  · exact (running_ret (hvm'.setStore s) htop').mono fun _ g hg ↦ running_setOut hg v
  · exact running_returnBoxed hvm' htop' a

end Returns

section Jumps

variable {ex : Exec} {vm : VM} {fr : CallFrame} {frs : List CallFrame} {ins : JelloInsn}

theorem running_setPc (h : Running ex vm) (htop : vm.callFrames = fr :: frs) (pc : ℕ) :
    Ends (setTopFrame { fr with pc := pc }) (fun _ ↦ Running ex) vm :=
  (spec_change _).mpr (h.setPc htop pc)

theorem running_jumpFrom (h : Running ex vm) (htop : vm.callFrames = fr :: frs) (base : ℕ)
    (d : UInt32) : Ends (jumpFrom ex fr base d) (fun _ ↦ Running ex) vm := by
  unfold jumpFrom
  split
  · exact spec_fail _
  · exact running_setPc h htop _

theorem running_opJmp (h : Running ex vm) : Ends (opJmp ex ins) (fun _ ↦ Running ex) vm := by
  simp only [opJmp, spec_bind]
  refine ends_topFrame fun fr frs htop ↦ ?_
  split
  · exact spec_fail _
  · simp only [spec_ite, spec_bind, spec_pure]
    refine ⟨fun _ ↦ ends_onStore fun b s ↦ ⟨fun _ ↦ ?_, fun _ ↦ h.setStore s⟩,
      fun _ ↦ running_setPc h htop _⟩
    exact running_setPc (h.setStore s) htop _

theorem running_labelJmp (h : Running ex vm) :
    Ends (labelJmp ex ins) (fun _ ↦ Running ex) vm := by
  simp only [labelJmp, spec_bind, spec_pure]
  exact ends_topFrame fun fr frs htop ↦ running_jumpFrom h htop _ _

theorem running_opJmpIf (h : Running ex vm) : Ends (opJmpIf ex ins) (fun _ ↦ Running ex) vm := by
  simp only [opJmpIf, spec_bind, spec_ite, spec_pure]
  refine ends_topFrame fun fr frs htop ↦ ends_onStore fun cond s ↦ ⟨fun _ ↦ ?_, fun _ ↦ ?_⟩
  · exact running_jumpFrom (h.setStore s) htop _ _
  · exact h.setStore s

theorem running_opSwitchKind (h : Running ex vm) :
    Ends (opSwitchKind ex ins) (fun _ ↦ Running ex) vm := by
  simp only [opSwitchKind, spec_bind, spec_ite, spec_pure]
  refine ends_topFrame fun fr frs htop ↦ ends_onStore fun kind s ↦
    ⟨fun _ ↦ spec_fail _, fun _ ↦ ends_onStore fun d s' ↦ ?_⟩
  exact running_jumpFrom ((h.setStore s).setStore s') htop _ _

theorem running_opTry (h : Running ex vm) : Ends (opTry ex ins) (fun _ ↦ Running ex) vm := by
  simp only [opTry, spec_bind]
  refine ends_topFrame fun fr frs htop ↦ ?_
  split
  · exact spec_fail _
  · simp only [spec_bind, spec_read, vmExcPush, spec_change, spec_pure]
    exact h.same ⟨rfl, rfl, rfl, rfl, rfl⟩

theorem running_opEndtry (h : Running ex vm) : Ends opEndtry (fun _ ↦ Running ex) vm := by
  simp only [opEndtry, vmExcPop, spec_bind, spec_read]
  split
  · exact (spec_pure _).mpr (spec_fail _)
  · simp only [spec_bind, spec_change, spec_pure, spec_ite]
    exact ⟨fun _ ↦ spec_fail _, fun _ ↦ h.same ⟨rfl, rfl, rfl, rfl, rfl⟩⟩

theorem running_onCtx {α : Type} (h : Running ex vm) (x : Ctx → JelloInsn → StoreM α) :
    Ends (onCtx ex x ins) (fun _ ↦ Running ex) vm := by
  simp only [onCtx, spec_bind]
  exact ends_topFrame fun fr frs htop ↦ running_onStore h

end Jumps

section Calls

variable {ex : Exec} {vm : VM} {fr : CallFrame} {frs : List CallFrame} {ins : JelloInsn}
  {fi : UInt32} {first na dst : ℕ} {funobj : Option JelloFunction}

theorem running_thenPure {α : Type} {x : StoreM α} {r : OpResult} (h : Running ex vm) :
    Ends (do let _ ← onStore x; pure r : VMM OpResult) (fun _ ↦ Running ex) vm :=
  spec_bind.mpr ((running_onStore h).mono fun _ _ hg ↦ (spec_pure _).mpr hg)

theorem running_pushCall (h : Running ex vm) (htop : vm.callFrames = fr :: frs) :
    Ends (do
        let cf ← callArgs ex fr fi first na
        let i ← topIndex
        let _ ← vmPushFrame ex cf fr.f i dst first na funobj true
        pure .continue_ : VMM OpResult) (fun _ ↦ Running ex) vm := by
  refine spec_bind.mpr (ends_callArgs fun _ ↦ spec_bind.mpr ((spec_read _).mpr ?_))
  rw [htop, List.length_cons, Nat.add_sub_cancel]
  simp only [spec_bind, spec_pure]
  exact running_call h htop ..

theorem running_replaceCall (h : Running ex vm) (htop : vm.callFrames = fr :: frs) :
    Ends (do
        let cf ← callArgs ex fr fi first na
        vmReplaceFrame ex cf fr.f first na funobj
        pure .continue_ : VMM OpResult) (fun _ ↦ Running ex) vm := by
  refine spec_bind.mpr (ends_callArgs fun _ ↦ ?_)
  simp only [spec_bind, spec_pure]
  exact running_tailcall h htop ..

theorem running_charged {ctx : Ctx} {x : VMM OpResult} (h : Running ex vm)
    (htop : vm.callFrames = fr :: frs) (hx : ∀ vm', Running ex vm' → vm'.callFrames = fr :: frs →
      Ends x (fun _ ↦ Running ex) vm') :
    Ends (do if ← onStore (jelloVmFuelCharge ctx) then x else pure .trap : VMM OpResult)
      (fun _ ↦ Running ex) vm := by
  simp only [spec_bind, spec_ite, spec_pure]
  exact ends_onStore fun _ s ↦ ⟨fun _ ↦ hx _ (h.setStore s) htop, fun _ ↦ h.setStore s⟩

theorem running_opCall (h : Running ex vm) : Ends (opCall ex ins) (fun _ ↦ Running ex) vm := by
  refine spec_bind.mpr (ends_topFrame fun fr frs htop ↦
    running_charged h htop fun vm' h' htop' ↦ spec_ite.mpr ⟨fun _ ↦ ?_, fun _ ↦ ?_⟩)
  · exact running_thenPure h'
  · exact running_pushCall h' htop'

theorem running_inlineCall (h : Running ex vm) :
    Ends (inlineCall ex ins) (fun _ ↦ Running ex) vm := by
  refine spec_bind.mpr (ends_topFrame fun fr frs htop ↦
    running_charged h htop fun vm' h' htop' ↦ spec_ite.mpr ⟨fun _ ↦ ?_, fun _ ↦ ?_⟩)
  · exact running_thenPure h'
  · refine spec_bind.mpr (ends_callArgs fun _ ↦ ?_)
    simp only [topIndex, spec_bind, spec_read, spec_ite, spec_pure]
    refine ⟨fun hself ↦ ?_, fun _ ↦ ?_⟩
    · have hnum : fr.hasPointerOrDynamic = false := by simpa using hself.2.1
      exact running_callSelf h' htop' hnum hself.2.2.2 hself.2.2.1 _
    · rw [htop', List.length_cons, Nat.add_sub_cancel]
      exact running_call h' htop' ..

theorem running_opCallr (h : Running ex vm) : Ends (opCallr ex ins) (fun _ ↦ Running ex) vm := by
  refine spec_bind.mpr (ends_topFrame fun fr frs htop ↦
    running_charged h htop fun vm' h' htop' ↦ spec_bind.mpr (ends_onStore fun c s ↦ ?_))
  cases c with
  | bytecode fn => exact running_pushCall (h'.setStore s) htop'
  | prim _ | builtin _ | notPointer _ | null | notFunction =>
    exact running_thenPure (h'.setStore s)

theorem running_inlineCallr (h : Running ex vm) :
    Ends (inlineCallr ex ins) (fun _ ↦ Running ex) vm := by
  refine spec_bind.mpr (ends_topFrame fun fr frs htop ↦
    running_charged h htop fun vm' h' htop' ↦ spec_bind.mpr (ends_onStore fun c s ↦ ?_))
  cases c with
  | bytecode fn => exact running_pushCall (h'.setStore s) htop'
  | prim _ | builtin _ | notPointer _ | null | notFunction =>
    exact running_thenPure (h'.setStore s)

theorem running_nativeTail {x : StoreM Unit} {a : ℕ} (h : Running ex vm)
    (htop : vm.callFrames = fr :: frs) :
    Ends (do onStore x; endNativeTail ex fr a : VMM OpResult) (fun _ ↦ Running ex) vm :=
  spec_bind.mpr (ends_onStore fun _ s ↦ running_endNativeTail (h.setStore s) htop a)

/-- A library function in the place of a tail call ends the frame when it has not failed. -/
theorem running_primTail {x : StoreM Bool} {a : ℕ} {r : OpResult} (h : Running ex vm)
    (htop : vm.callFrames = fr :: frs) :
    Ends (do if ← onStore x then endNativeTail ex fr a else pure r : VMM OpResult)
      (fun _ ↦ Running ex) vm := by
  simp only [spec_bind, spec_ite, spec_pure]
  exact ends_onStore fun _ s ↦
    ⟨fun _ ↦ running_endNativeTail (h.setStore s) htop a, fun _ ↦ h.setStore s⟩

theorem running_opTailcall (h : Running ex vm) :
    Ends (opTailcall ex ins) (fun _ ↦ Running ex) vm := by
  refine spec_bind.mpr (ends_topFrame fun fr frs htop ↦ spec_ite.mpr ⟨fun _ ↦ ?_, fun _ ↦ ?_⟩)
  · exact running_nativeTail h htop
  · exact running_replaceCall h htop

theorem running_opTailcallr (h : Running ex vm) :
    Ends (opTailcallr ex ins) (fun _ ↦ Running ex) vm := by
  refine spec_bind.mpr (ends_topFrame fun fr frs htop ↦
    spec_bind.mpr (ends_onStore fun c s ↦ ?_))
  cases c with
  | prim _ => exact running_primTail (h.setStore s) htop
  | builtin _ => exact running_nativeTail (h.setStore s) htop
  | bytecode _ => exact running_replaceCall (h.setStore s) htop
  | null => exact spec_fail _
  | notPointer _ | notFunction => exact running_thenPure (h.setStore s)

theorem running_inlineTailcallr (h : Running ex vm) :
    Ends (inlineTailcallr ex ins) (fun _ ↦ Running ex) vm := by
  refine spec_bind.mpr (ends_topFrame fun fr frs htop ↦
    spec_bind.mpr (ends_onStore fun c s ↦ ?_))
  cases c with
  | prim _ => exact running_primTail (h.setStore s) htop
  | builtin _ => exact running_nativeTail (h.setStore s) htop
  | bytecode _ => exact running_replaceCall (h.setStore s) htop
  | notPointer _ | null | notFunction => exact running_thenPure (h.setStore s)

end Calls

section Loop

variable {ex : Exec} {vm : VM} {ins : JelloInsn}

theorem running_opDispatch (build : Build) (h : Running ex vm) :
    Ends (opDispatch ex build ins) (fun _ ↦ Running ex) vm := by
  cases hctl : controlOp ex build ins with
  | none =>
    simp only [opDispatch, hctl, spec_bind, spec_pure]
    exact running_onCtx h _
  | some x =>
    simp only [opDispatch, hctl]
    unfold controlOp at hctl
    split at hctl <;> simp only [Option.some.injEq, reduceCtorEq] at hctl <;> subst hctl
    · exact spec_ite.mpr ⟨fun _ ↦ running_opRet h, fun _ ↦ running_labelRet h⟩
    · exact spec_ite.mpr ⟨fun _ ↦ running_opJmp h, fun _ ↦ running_labelJmp h⟩
    · exact running_opJmpIf h
    · exact running_opTry h
    · exact running_opEndtry h
    · exact running_onCtx h _
    · exact running_onCtx h _
    · exact running_opCall h
    · exact running_opCallr h
    · exact running_opTailcall h
    · exact running_opTailcallr h
    · exact running_opSwitchKind h

theorem running_inlineInsn (build : Build) (h : Running ex vm) :
    Ends (inlineInsn ex build ins) (fun _ ↦ Running ex) vm := by
  cases hctl : inlineControl ex ins with
  | some x =>
    simp only [inlineInsn, hctl]
    unfold inlineControl at hctl
    split at hctl <;> simp only [Option.some.injEq, reduceCtorEq] at hctl <;> subst hctl
    · exact running_inlineRet h
    · exact running_opJmp h
    · exact running_opJmpIf h
    · exact running_onCtx h _
    · exact running_inlineCall h
    · exact running_inlineCallr h
    · exact running_opTailcall h
    · exact running_inlineTailcallr h
  | none =>
    simp only [inlineInsn, hctl]
    cases inlineOp ins.op with
    | some x =>
      simp only [spec_bind, spec_pure]
      exact running_onCtx h x
    | none => exact running_opDispatch build h

theorem running_checkExc (h : Running ex vm) :
    Ends (checkExc ex) (fun _ ↦ Running ex) vm := by
  simp only [checkExc, spec_bind, spec_read, id, spec_ite, spec_pure]
  refine ⟨fun _ ↦ h, fun _ ↦ (running_vmExcDispatch h).mono fun b g hg ↦
    ⟨fun _ ↦ hg, fun _ ↦ ⟨fun _ ↦ running_setOut hg _, fun _ ↦ hg⟩⟩⟩

theorem running_fetch (h : Running ex vm) : Ends (fetch ex) (fun _ ↦ Running ex) vm := by
  simp only [fetch, spec_bind, spec_note, true_and]
  refine ends_topFrame fun fr frs htop ↦ ?_
  split
  · exact spec_fail _
  · simp only [spec_bind, spec_pure]
    exact running_setPc h htop _

theorem running_execInsn (reference : Bool) (build : Build) (h : Running ex vm) :
    Ends (execInsn ex reference build) (fun _ ↦ Running ex) vm := by
  simp only [execInsn, spec_bind]
  refine (running_fetch h).mono fun ins g hg ↦ ?_
  cases reference with
  | true =>
    refine spec_bind.mpr ((running_opDispatch build hg).mono fun r g' hg' ↦ ?_)
    exact (spec_pure _).mpr hg'
  | false =>
    refine spec_bind.mpr ((running_inlineInsn build hg).mono fun r g' hg' ↦ ?_)
    exact (spec_pure _).mpr hg'

theorem running_execRound (reference : Bool) (build : Build) (h : Running ex vm) :
    Ends (execRound ex reference build) (fun _ ↦ Running ex) vm := by
  refine spec_bind.mpr ((running_checkExc h).mono fun st g hg ↦ ?_)
  cases st with
  | some st => exact (spec_pure _).mpr hg
  | none => exact running_execInsn reference build hg

theorem running_vmExecLoop (reference : Bool) (build : Build) (n : ℕ) (h : Running ex vm) :
    Ends (vmExecLoop ex reference build n) (fun _ ↦ Running ex) vm := by
  induction n generalizing vm with
  | zero => exact (spec_pure _).mpr h
  | succ n ih =>
    refine spec_bind.mpr ((running_execRound reference build h).mono fun st g hg ↦ ?_)
    cases st with
    | some st => exact (spec_pure _).mpr hg
    | none => exact ih hg

theorem running_vmUnwindAllFrames (h : Running ex vm) :
    Ends vmUnwindAllFrames (fun _ ↦ Running ex) vm :=
  ends_iff.mpr fun _ _ hr ↦ h.step .unwindAll trivial hr

theorem running_vmFinishExec (h : Running ex vm) (st : ExecStatus) :
    Ends (vmFinishExec st) (fun _ ↦ Running ex) vm := by
  simp only [vmFinishExec, spec_ite, spec_bind, spec_change, spec_pure]
  refine ⟨fun _ ↦ h, fun _ ↦ (running_vmUnwindAllFrames h).mono fun _ g hg ↦ ?_⟩
  exact hg.same ⟨rfl, rfl, rfl, rfl, rfl⟩

theorem running_loop {x : VMM Bool} (hx : Ends x (fun _ ↦ Running ex) vm) (reference : Bool)
    (build : Build) (n : ℕ) :
    Ends (do let b ← x; let st ← vmExecLoop ex reference build n; pure (b, st))
      (fun _ ↦ Running ex) vm := by
  simp only [spec_bind, spec_pure]
  exact hx.mono fun _ g hg ↦ running_vmExecLoop reference build n hg

theorem Running.safe (hm : FewRegs ex.m) (h : Running ex vm) : StackSafe ex vm := by
  have hrun := h.stackRun hm fun vm op _ ↦ op.places_of_all fun _ _ ↦ trivial
  exact (hrun.inv hm).safe

end Loop

/-- Every operation of every run is made of steps of the frame stack, and whatever steps were made,
nothing wraps at the next one, and the growth of the stack ends. So it is when the loop has run
the module, a function or a closure, and when the run is finished, whatever ran on the machine
before. -/
theorem frameStack_safe {ex : Exec} (hm : FewRegs ex.m) :
    (∀ vm, OpRun ex (fun _ _ ↦ True) vm → StackRun ex (fun _ _ ↦ True) vm ∧
      ∀ op vm', result (StackOp.run ex op) vm = .ok ((), vm') →
        StackSteps ex (fun _ _ ↦ True) vm vm') ∧
    (∀ vm, StackRun ex (fun _ _ ↦ True) vm → StackSafe ex vm) ∧
    ∀ vm, Running ex vm →
      (∀ x, x = execEntry ex ∨ (∃ f args, x = execChunk ex f args) ∨
        (∃ fn args, x = execClosure ex fn args) → ∀ reference build n,
          Ends (do let b ← x; let st ← vmExecLoop ex reference build n; pure (b, st))
            (fun _ vm' ↦ Running ex vm' ∧ StackSafe ex vm') vm) ∧
      ∀ st, Ends (vmFinishExec st) (fun _ vm' ↦ Running ex vm' ∧ StackSafe ex vm') vm := by
  have hplaces (vm : VM) (op : StackOp) : op.Places ex (fun _ _ ↦ True) vm :=
    op.places_of_all fun _ _ ↦ trivial
  refine ⟨fun vm h ↦ ?_, fun vm h ↦ (h.inv hm).safe, fun vm h ↦
    ⟨fun x hx reference build n ↦ ?_, fun st ↦ ?_⟩⟩
  · have hrun := h.stackRun hm fun vm op _ ↦ hplaces vm op
    exact ⟨hrun, fun op vm' hr ↦ op.steps hm (hrun.inv hm) (hplaces vm op) hr⟩
  · have hends : Ends x (fun _ ↦ Running ex) vm := by
      obtain rfl | ⟨f, args, rfl⟩ | ⟨fn, args, rfl⟩ := hx
      · exact running_execEntry h
      · exact running_execChunk h f args
      · exact running_execClosure h fn args
    exact (running_loop hends reference build n).mono fun _ _ hg ↦ ⟨hg, hg.safe hm⟩
  · exact (running_vmFinishExec h st).mono fun _ _ hg ↦ ⟨hg, hg.safe hm⟩

def shrinkStackOps : List StackOp := [.entry, .tailcall 1 0 1 none, .call 1 0 0 1 none]

/-- Nothing wraps where two frames share their bytes. -/
theorem frameStack_safe_shrunk :
    FewRegs shrinkModule ∧ ∃ vm, OpRun (.alone shrinkModule) (fun _ _ ↦ True) vm ∧
      vm.callFrames.map CallFrame.area = [⟨4104, 8⟩, ⟨4104, 8⟩] ∧
        StackSafe (.alone shrinkModule) vm := by
  have hm : FewRegs (Exec.alone shrinkModule).m := by decide +kernel
  have hareas : (result (StackOp.runAll (.alone shrinkModule) shrinkStackOps)
      jelloVmCreate).toOption.map (fun r ↦ r.2.callFrames.map CallFrame.area) =
        some [⟨4104, 8⟩, ⟨4104, 8⟩] := by
    decide +kernel
  obtain ⟨r, hr, hview⟩ := result_of_view hareas
  have hrun := OpRun.create.all (.alone shrinkModule) shrinkStackOps
    (P := fun _ _ ↦ True) (fun _ _ _ ↦ trivial) hr
  have hsafe := frameStack_safe hm
  exact ⟨hm, r.2, hrun, hview, hsafe.2.1 r.2 (hsafe.1 r.2 hrun).1⟩

end JelloVM
