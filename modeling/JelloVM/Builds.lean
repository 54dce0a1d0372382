import JelloVM.InlineAgree
import JelloVM.Ret
import JelloVM.SelfCall
import JelloVM.Run

namespace JelloVM

open ByteMemory Logged

/-- What an indirect call can go on with. -/
def Callee.isFunction : Callee → Bool
  | .prim _ | .builtin _ | .bytecode _ => true
  | .notPointer _ | .null | .notFunction => false

/-- The callee register of the top frame holds a function. -/
def CallsFunction (ins : JelloInsn) (vm : VM) : Prop :=
  ∀ fr frs c s, vm.callFrames = fr :: frs →
    result (calleeOf fr.rf ins.rb) vm.store = .ok (c, s) → c.isFunction = true

/-- The cases in which the versions of an instruction are meant to do the same: a plain return, a
jump that takes no fuel, and an indirect call of a function. -/
def InsnPlain (ex : Exec) (ins : JelloInsn) (vm : VM) : Prop :=
  match ins.op with
  | .ret => RetPlain ex ins vm
  | .jmp => i32 ins.imm < 0 → vm.store.fuelLimit = 0
  | .callr | .tailcallr => CallsFunction ins vm
  | _ => True

/-- The instruction that is fetched next is plain. -/
def StepPlain (ex : Exec) (vm : VM) : Prop :=
  ∀ ins, vm.nextInsn ex = some ins → InsnPlain ex ins vm.fetched

section Ok

variable {α β : Type} {x y : VMM α} {vm : VM}

theorem SameOk.refl (x : VMM α) (vm : VM) : SameOk x x vm := .of_eq rfl

theorem SameOk.after {k : α → VMM β} (h : SameOk x y vm) : SameOk (x >>= k) (y >>= k) vm := by
  intro r
  rw [result_bind, result_bind]
  constructor
  · intro hr
    cases hx : result x vm with
    | error e => simp [hx, Except.bind] at hr
    | ok p => rwa [(h p).mp hx, ← hx]
  · intro hr
    cases hy : result y vm with
    | error e => simp [hy, Except.bind] at hr
    | ok p => rwa [(h p).mpr hy, ← hy]

theorem SameOk.of_errors (e e' : Fault) (hx : result x vm = .error e)
    (hy : result y vm = .error e') : SameOk x y vm := by
  intro r
  rw [hx, hy]
  exact iff_of_false (fun h ↦ nomatch h) fun h ↦ nomatch h

end Ok

section Versions

variable {ex : Exec} {ins : JelloInsn} {vm vm' : VM} {fr : CallFrame} {frs : List CallFrame}

theorem onStore_frames {α : Type} {x : StoreM α} {a : α}
    (h : result (onStore x) vm = .ok (a, vm')) : vm'.callFrames = vm.callFrames := by
  rw [onStore, result_onPart] at h
  cases hx : result x vm.store with
  | error e => simp [hx, Except.map] at h
  | ok r =>
    simp only [hx, Except.map, Except.ok.injEq, Prod.mk.injEq] at h
    rw [← h.2]
    rfl

theorem charged_ok {ctx : Ctx} (h : result (onStore (jelloVmFuelCharge ctx)) vm = .ok (true, vm')) :
    ∃ fuel, vm' = vm.setStore { vm.store with fuelRemaining := fuel } := by
  rw [onStore, result_onPart] at h
  simp only [jelloVmFuelCharge, result_bind, result_read, Except.bind, result_ite, result_pure,
    result_change] at h
  split_ifs at h with hlimit hremaining
  · simp only [Except.map, Except.ok.injEq, Prod.mk.injEq, true_and] at h
    exact ⟨vm.store.fuelRemaining, h.symm⟩
  · cases hx : result (jelloVmTrap ctx .fuel "instruction limit exceeded") vm.store with
    | error e => simp [hx, Except.map] at h
    | ok r => simp [hx, Except.map] at h
  · simp only [Except.map, Except.ok.injEq, Prod.mk.injEq, true_and] at h
    exact ⟨_, h.symm⟩

theorem result_calleeOf (rf : RegFrame) (r : ℕ) (s : Store) (fuel : UInt64) :
    (result (calleeOf rf r) { s with fuelRemaining := fuel }).map Prod.fst =
      (result (calleeOf rf r) s).map Prod.fst := by
  simp only [calleeOf, vmLoadVal, vmLoad64, cellAt, result_bind, result_note, result_read,
    Except.bind, result_ite, result_pure]
  split_ifs
  · rfl
  · rfl
  · cases hcell : s.heap.cells (load64 s.mem (rf.addr r)) with
    | none => rfl
    | some c =>
      cases c with
      | function fn =>
        simp only [result_pure, result_ite]
        split_ifs <;> rfl
      | _ => rfl

theorem callArgs_ok {fi : UInt32} {first na cf : ℕ}
    (h : result (callArgs ex fr fi first na) vm = .ok (cf, vm')) : vm' = vm := by
  unfold callArgs vmPanic at h
  split_ifs at h
  · simp at h
  · simp at h
  · exact (Prod.mk.inj (Except.ok.inj h)).2.symm

/-- The push of the loop for a function without pointers that calls itself is that of
`vm_push_frame`. -/
theorem pushSelf_same (hfr : vm.callFrames = fr :: frs) (hroom : vm.canPush = true) {nargs : ℕ}
    (hn : nargs ≤ vmFastArgNargsMaxPush) (hflag : fr.hasPointerOrDynamic = false) (first dst : ℕ) :
    SameOk (do let _ ← vmPushFrame ex fr.f fr.f frs.length dst first nargs none true
               pure OpResult.continue_ : VMM OpResult)
      (do vmPushSelfNumeric ex first nargs dst
          pure OpResult.continue_ : VMM OpResult) vm := by
  cases hbump : result (vmFrameStackBump ex fr.rf.total) vm with
  | error e =>
    have htop : result topFrame vm = .ok (fr, vm) := by simp [topFrame, hfr, Except.bind]
    have hreset : result resetFrameStack vm = .ok ((), vm) := by simp [resetFrameStack, hfr]
    have hat : result (frameAtIndex frs.length) vm = .ok (fr, vm) := by
      simp [frameAtIndex, VM.frameAt_top hfr, Except.bind]
    have hlt : ¬ vm.callFrames.length ≤ frs.length := by simp [hfr]
    refine .of_errors e e ?_ ?_
    · simp only [vmPushFrame, result_bind, result_read, Except.bind, id, hroom, Bool.not_true,
        Bool.false_eq_true, if_false, hreset, Option.isNone_none, hn, and_self, if_true, hlt, hat,
        hflag, Bool.not_false, hbump]
    · simp only [vmPushSelfNumeric, result_bind, htop, hbump, Except.bind]
  | ok r =>
    obtain ⟨mem, vm₁⟩ := r
    obtain ⟨a, frs₁, hfr₁, hlen, -⟩ := frames_of_bump hfr hbump
    refine .of_eq ?_
    rw [result_bind, result_bind, result_vmPushSelfNumeric hfr hbump hfr₁,
      result_vmPushFrame_self hfr hroom hn hflag hbump hfr₁ hlen rfl]
    rfl

theorem opCall_same_inlineCall (vm : VM) : SameOk (opCall ex ins) (inlineCall ex ins) vm := by
  refine SameOk.bind fun fr vm₁ htop ↦ SameOk.bind fun b vm₂ hcharge ↦ ?_
  obtain ⟨rfl, frs, hfr⟩ := topFrame_ok htop
  cases b with
  | false => exact .refl _ _
  | true =>
    rw [if_pos rfl, if_pos rfl]
    split_ifs with hnative
    · exact .refl _ _
    · refine SameOk.bind fun cf vm₃ hargs ↦ ?_
      obtain rfl := callArgs_ok hargs
      have hfr₂ := (onStore_frames hcharge).trans hfr
      refine SameOk.symm (SameOk.read_left VM.canPush ?_)
      split_ifs with hself
      · obtain ⟨rfl, hflag, hn, hroom⟩ := hself
        have hidx : vm₃.callFrames.length - 1 = frs.length := by simp [hfr₂]
        refine SameOk.symm (SameOk.read_left (fun vm ↦ vm.callFrames.length - 1) ?_)
        rw [hidx]
        exact pushSelf_same hfr₂ hroom hn (by simpa using hflag) _ _
      · exact .refl _ _

theorem CallsFunction.found (h : CallsFunction ins vm) (hfr : vm.callFrames = fr :: frs) {c :
    Callee}
    {fuel : UInt64} (hcallee : result (onStore (calleeOf fr.rf ins.rb))
      (vm.setStore { vm.store with fuelRemaining := fuel }) = .ok (c, vm')) :
    c.isFunction = true := by
  rw [onStore, result_onPart] at hcallee
  have hsame := result_calleeOf fr.rf ins.rb vm.store fuel
  cases hbefore : result (calleeOf fr.rf ins.rb) vm.store with
  | error e =>
    cases hafter : result (calleeOf fr.rf ins.rb) { vm.store with fuelRemaining := fuel } with
    | error e' => simp [VM.setStore, hafter, Except.map] at hcallee
    | ok r => simp [hbefore, hafter, Except.map] at hsame
  | ok r =>
    cases hafter : result (calleeOf fr.rf ins.rb) { vm.store with fuelRemaining := fuel } with
    | error e' => simp [VM.setStore, hafter, Except.map] at hcallee
    | ok r' =>
      have hfst : r'.1 = r.1 := by simpa [hbefore, hafter, Except.map] using hsame
      have hc : r'.1 = c := by
        simp only [VM.setStore, hafter, Except.map, Except.ok.injEq, Prod.mk.injEq] at hcallee
        exact hcallee.1
      rw [← hc, hfst]
      exact h fr frs r.1 r.2 hfr hbefore

theorem opCallr_same_inlineCallr (h : CallsFunction ins vm) :
    SameOk (opCallr ex ins) (inlineCallr ex ins) vm := by
  refine SameOk.bind fun fr vm₁ htop ↦ SameOk.bind fun b vm₂ hcharge ↦ ?_
  obtain ⟨rfl, frs, hfr⟩ := topFrame_ok htop
  cases b with
  | false =>
    rw [if_neg Bool.false_ne_true, if_neg Bool.false_ne_true]
    exact .refl _ _
  | true =>
    obtain ⟨fuel, rfl⟩ := charged_ok hcharge
    rw [if_pos rfl, if_pos rfl]
    refine SameOk.bind fun c vm₃ hcallee ↦ ?_
    have hfound := h.found hfr hcallee
    cases c with
    | prim fn | builtin fn | bytecode fn => exact .refl _ _
    | notPointer v | null | notFunction => cases hfound

/-- What the loop makes of the result of an instruction. -/
def ended (r : OpResult) : VMM (Option ExecStatus) := pure (if r = .return_ then some .ok else none)

theorem opTailcallr_same_inlineTailcallr (h : CallsFunction ins vm) :
    SameOk (opTailcallr ex ins >>= ended) (inlineTailcallr ex ins >>= ended) vm := by
  unfold opTailcallr inlineTailcallr
  simp only [bind_assoc]
  refine SameOk.bind fun fr vm₁ htop ↦ SameOk.bind fun c vm₂ hcallee ↦ ?_
  obtain ⟨rfl, frs, hfr⟩ := topFrame_ok htop
  have hfound := h.found hfr (show result (onStore (calleeOf fr.rf ins.rb))
    (vm₁.setStore { vm₁.store with fuelRemaining := vm₁.store.fuelRemaining }) = _ from hcallee)
  cases c with
  | prim fn =>
    simp only [bind_assoc]
    refine SameOk.bind fun b vm₃ _ ↦ ?_
    cases b with
    | true => exact .refl _ _
    | false => exact .of_eq rfl
  | builtin fn | bytecode fn => exact .refl _ _
  | notPointer v | null | notFunction => cases hfound

theorem opJmp_same_labelJmp (h : i32 ins.imm < 0 → vm.store.fuelLimit = 0) :
    SameOk (opJmp ex ins) (labelJmp ex ins) vm := by
  refine SameOk.bind fun fr vm₁ htop ↦ ?_
  obtain ⟨rfl, -⟩ := topFrame_ok htop
  unfold jumpFrom
  cases jumpTarget fr.pc ins.imm (ex.func fr.f).ninsns with
  | none =>
    have hpanic {α : Type} : result (vmPanic : VMM α) vm₁ = .error .panic := rfl
    exact .of_errors _ _ hpanic (by rw [result_bind, hpanic]; rfl)
  | some npc =>
    dsimp only
    split_ifs with hback
    · have hfree : result (onStore (jelloVmFuelCharge (ex.ctx fr))) vm₁ = .ok (true, vm₁) := by
        rw [onStore, result_onPart]
        simp [jelloVmFuelCharge, h hback, Except.bind, Except.map, VM.setStore]
      refine .of_eq ?_
      rw [result_bind, hfree]
      rfl
    · exact .refl _ _

theorem opRet_same (h : RetPlain ex ins vm) :
    SameOk (opRet ex ins) (labelRet ex ins) vm ∧ SameOk (opRet ex ins) (inlineRet ex ins) vm := by
  constructor
  · exact rets_same h (by simp [rets])
  · exact rets_same h (by simp [rets])

/-- Both builds of `op_dispatch`. -/
theorem opDispatch_same (h : InsnPlain ex ins vm) (build : Build) :
    SameOk (opDispatch ex .switch ins) (opDispatch ex build ins) vm := by
  cases build with
  | switch => exact .refl _ _
  | computedGoto =>
    by_cases hret : ins.op = .ret
    · simp only [InsnPlain, hret] at h
      simp only [opDispatch, controlOp, hret]
      exact (opRet_same h).1
    by_cases hjmp : ins.op = .jmp
    · simp only [InsnPlain, hjmp] at h
      simp only [opDispatch, controlOp, hjmp]
      exact opJmp_same_labelJmp h
    have hcontrol : controlOp ex .computedGoto ins = controlOp ex .switch ins := by
      unfold controlOp
      split <;> first | rfl | contradiction
    unfold opDispatch
    rw [hcontrol]
    cases controlOp ex .switch ins with
    | some x => exact .refl _ _
    | none =>
      refine .of_eq (result_andContinue ex ins (fun ctx s ↦ ?_) vm)
      rw [dispatched_same .switch ins ins.op ctx s, dispatched_same .computedGoto ins ins.op ctx s]

theorem inlineInsn_same (h : InsnPlain ex ins vm) (build : Build) :
    SameOk (opDispatch ex .switch ins >>= ended) (inlineInsn ex build ins >>= ended) vm := by
  cases htransfer : ins.op.isTransfer with
  | false =>
    exact ((opDispatch_same h build).trans
      (.of_eq (inlineInsn_agrees ex build htransfer vm).symm)).after
  | true =>
    obtain ⟨op, a, b, c, imm⟩ := ins
    cases op <;> simp only [JelloOp.isTransfer, reduceCtorEq] at htransfer
    case ret => exact (opRet_same h).2.after
    case jmp => exact .refl _ _
    case call => exact (opCall_same_inlineCall vm).after
    case callr => exact (opCallr_same_inlineCallr h).after
    case tailcall => exact .refl _ _
    case tailcallr => exact opTailcallr_same_inlineTailcallr h

theorem fetch_ok (h : result (fetch ex) vm = .ok (ins, vm')) :
    vm.nextInsn ex = some ins ∧ vm' = vm.fetched := by
  obtain ⟨fr, vm₁, htop, h₁⟩ := bind_ok h
  obtain ⟨rfl, frs, hfr⟩ := topFrame_ok htop
  obtain ⟨u, vm₂, hnote, h₂⟩ := bind_ok h₁
  obtain rfl : vm₁ = vm₂ := (Prod.mk.inj (Except.ok.inj hnote)).2
  cases hins : (ex.func fr.f).insns[fr.pc]? with
  | none => simp [hins] at h₂
  | some ins' =>
    rw [hins] at h₂
    obtain ⟨v, vm₃, hset, h₃⟩ := bind_ok h₂
    obtain ⟨rfl, rfl⟩ := Prod.mk.inj (Except.ok.inj h₃)
    have hset' := (Prod.mk.inj (Except.ok.inj hset)).2
    refine ⟨by simp only [VM.nextInsn, hfr, hins], ?_⟩
    rw [← hset']
    simp only [VM.fetched, hfr, List.tail_cons]

theorem execInsn_same (h : StepPlain ex vm) (reference reference' : Bool) (build build' : Build) :
    SameOk (execInsn ex reference build) (execInsn ex reference' build') vm := by
  refine SameOk.bind fun ins vm' hfetch ↦ ?_
  obtain ⟨hnext, rfl⟩ := fetch_ok hfetch
  have hplain := h ins hnext
  have hcanon (reference : Bool) (build : Build) : SameOk (opDispatch ex .switch ins >>= ended)
      (if reference then opDispatch ex build ins >>= ended else inlineInsn ex build ins >>= ended)
      vm.fetched := by
    cases reference with
    | false =>
      rw [if_neg Bool.false_ne_true]
      exact inlineInsn_same hplain build
    | true =>
      rw [if_pos rfl]
      exact (opDispatch_same hplain build).after
  exact (hcanon reference build).symm.trans (hcanon reference' build')

end Versions

section Loops

variable {ex : Exec} {reference reference' : Bool} {build build' : Build} {vm : VM}

/-- `k` rounds of the loop, and the head of the next one. -/
def loopHead (ex : Exec) (reference : Bool) (build : Build) (k : ℕ) :
    VMM (Option ExecStatus × Option ExecStatus) := do
  let st ← vmExecLoop ex reference build k
  let st' ← checkExc ex
  pure (st, st')

/-- What is fetched in the first `n` rounds is plain. -/
def LoopPlain (ex : Exec) (reference : Bool) (build : Build) (n : ℕ) (vm : VM) : Prop :=
  ∀ k < n, ∀ vm', result (loopHead ex reference build k) vm = .ok ((none, none), vm') →
    StepPlain ex vm'

theorem execRound_same (h : LoopPlain ex reference build 1 vm) :
    SameOk (execRound ex reference build) (execRound ex reference' build') vm := by
  refine SameOk.bind fun st vm₁ hhead ↦ ?_
  cases st with
  | some st => exact .refl _ _
  | none =>
    refine execInsn_same (h 0 Nat.one_pos vm₁ ?_) reference reference' build build'
    simp only [loopHead, vmExecLoop, result_bind, result_pure, Except.bind, hhead]

/-- The first `k` rounds after a round. -/
theorem loopHead_succ {k : ℕ} {vm₁ : VM} (h : result (execRound ex reference build) vm =
    .ok (none, vm₁)) : result (loopHead ex reference build (k + 1)) vm =
      result (loopHead ex reference build k) vm₁ := by
  simp only [loopHead, vmExecLoop, result_bind, Except.bind, h]

/-- As long as all that is fetched is plain, the loops of all builds do the same: the loop with its
own cases, and the reference loop over either version of `op_dispatch`. -/
theorem builds_agree {n : ℕ} (h : LoopPlain ex reference build n vm) :
    SameOk (vmExecLoop ex reference build n) (vmExecLoop ex reference' build' n) vm := by
  induction n generalizing vm with
  | zero => exact .refl _ _
  | succ n ih =>
    have hround : SameOk (execRound ex reference build) (execRound ex reference' build') vm :=
      execRound_same fun k hk ↦ h k (by omega)
    refine SameOk.trans (SameOk.bind fun st vm₁ hrun ↦ ?_) hround.after
    cases st with
    | some st => exact .refl _ _
    | none =>
      refine ih fun k hk vm₂ hhead ↦ h (k + 1) (by omega) vm₂ ?_
      rw [loopHead_succ hrun, hhead]

end Loops

/-- The run of a function that adds two registers and returns. -/
theorem addModule_agrees : ∃ vm,
    result (execEntry (.alone addModule)) jelloVmCreate = .ok (true, vm) ∧
    SameOk (vmExecLoop (.alone addModule) false .switch 2)
      (vmExecLoop (.alone addModule) true .computedGoto 2) vm := by
  have hstart : (result (execEntry (.alone addModule)) jelloVmCreate).toOption.map
      (fun r ↦ r.1) = some true := by decide +kernel
  obtain ⟨⟨b, vm⟩, hrun, rfl⟩ := result_of_view hstart
  have hheads (k : ℕ) (hk : k < 2) : (result (do
      let b ← execEntry (.alone addModule)
      let r ← loopHead (.alone addModule) false .switch k
      pure (b, r) : VMM _) jelloVmCreate).toOption.map
        (fun r ↦ (r.2.callFrames.map fun fr ↦ (fr.f, fr.pc, fr.hasCaller))) =
          some [(0, k, false)] := by
    interval_cases k <;> decide +kernel
  refine ⟨vm, hrun, builds_agree fun k hk vm₁ hhead ins hnext ↦ ?_⟩
  obtain ⟨r, hr, hview⟩ := result_of_view (hheads k hk)
  obtain ⟨b, vm', hb, hrest⟩ := bind_ok hr
  obtain ⟨rfl, rfl⟩ : true = b ∧ vm = vm' := by simpa [hrun] using hb
  obtain ⟨st, vm', hst, hpure⟩ := bind_ok hrest
  obtain ⟨rfl, rfl⟩ : (none, none) = st ∧ vm₁ = vm' := by simpa [hhead] using hst
  obtain rfl : ((true, none, none), vm₁) = r := by simpa using hpure
  obtain ⟨fr, hfr, hfields⟩ : ∃ fr, vm₁.callFrames = [fr] ∧ (fr.f, fr.pc, fr.hasCaller) =
      (0, k, false) := List.map_eq_singleton_iff.mp hview
  obtain ⟨hf, hpc, hcaller⟩ : fr.f = 0 ∧ fr.pc = k ∧ fr.hasCaller = false := by
    simpa using hfields
  have hfetched : vm₁.fetched.callFrames = [{ fr with pc := fr.pc + 1 }] := by
    simp only [VM.fetched, hfr]
  simp only [VM.nextInsn, hfr, hf, hpc] at hnext
  interval_cases k
  · obtain rfl : addInsn = ins := Option.some.inj hnext
    exact trivial
  · obtain rfl : { op := .ret, a := 0, b := 0, c := 0, imm := 0 } = ins := Option.some.inj hnext
    refine ⟨fun _ _ _ _ hwanted ↦ absurd hwanted.1 (by decide), fun fr' frs hfr' hyes ↦ ?_,
      fun fr' caller frs hfr' hyes ↦ ?_⟩
    · rw [hfetched, List.cons.injEq] at hfr'
      rw [← hfr'.1] at hyes
      exact absurd hyes (by simp [hcaller])
    · rw [hfetched] at hfr'
      simp at hfr'

end JelloVM
