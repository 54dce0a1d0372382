import JelloVM.Effect

namespace JelloVM

open ByteMemory Logged

/-- The frames above the one of index `target` have gone, with the handlers on top that are
theirs. -/
def unwound (target : ℕ) : List Act → List ExcHandler → List Act × List ExcHandler
  | [], hs => ([], hs)
  | a :: acts, hs =>
    if target < acts.length then
      unwound target acts (hs.dropWhile fun h ↦ h.frameIndex == acts.length)
    else (a :: acts, hs)

structure Caught (s s' : Store) : Prop where
  fuelLimit : s'.fuelLimit = s.fuelLimit
  fuelRemaining : s'.fuelRemaining = s.fuelRemaining
  spill : s'.spill = s.spill
  pending : s'.excPending = false

/-- What the head of the loop does before an instruction is fetched. -/
inductive Dispatched : Ctl → Ctl → Prop
  | calm {c : Ctl} (h : c.store.excPending = false) : Dispatched c c
  | caught {c : Ctl} {h : ExcHandler} {hs hs' : List ExcHandler} {a : Act} {acts : List Act}
      {s' : Store} (hpending : c.store.excPending = true)
      (hwilling : willing c.store.trapCode c.handlers = some (h, hs))
      (hunwound : unwound h.frameIndex c.acts hs = (a :: acts, hs'))
      (hidx : acts.length = h.frameIndex) (hcaught : Caught c.store s') :
      Dispatched c ⟨{ a with pc := h.catchPc } :: acts, hs', s'⟩

section Dispatch

variable {ex : Exec} {vm : VM} {acts : List Act} {hs : List ExcHandler} {s : Store}

theorem ends_unwindTo_ctl (target : ℕ) (frs : List CallFrame)
    (h : Now ⟨frs.map CallFrame.act, hs, s⟩ vm) :
    Ends (unwindTo target frs) (fun _ ↦ Now ⟨(unwound target (frs.map CallFrame.act) hs).1,
      (unwound target (frs.map CallFrame.act) hs).2, s⟩) vm := by
  induction frs generalizing vm hs with
  | nil => exact (spec_pure _).mpr h
  | cons fr frs ih =>
    simp only [unwindTo, List.map_cons, unwound, List.length_map]
    refine spec_ite.mpr ⟨fun hlt ↦ ?_, fun hge ↦ ?_⟩
    · rw [if_pos hlt]
      simp only [spec_bind, vmExcPopForFrame, spec_change]
      refine ends_sameCtl (keeps_vmRfRelease _) fun _ vm₁ h₁ ↦ ?_
      have hdrop : Now ⟨fr.act :: frs.map CallFrame.act,
          hs.dropWhile fun h ↦ h.frameIndex == frs.length, s⟩ vm₁ :=
        ⟨h₁.acts.trans h.acts, h₁.handlers.trans (congrArg (List.dropWhile _) h.handlers),
          trans_of Still h.store h₁.store⟩
      exact (ends_popCallFrame_ctl hdrop).mono fun _ vm₂ h₂ ↦ ih h₂
    · rw [if_neg hge]
      exact (spec_pure _).mpr h

theorem unwound_length (target : ℕ) (acts : List Act) (hs : List ExcHandler) :
    (unwound target acts hs).1.length ≤ target + 1 := by
  induction acts generalizing hs with
  | nil => simp [unwound]
  | cons a acts ih =>
    unfold unwound
    split_ifs with hlt
    · exact ih _
    · simp only [List.length_cons]
      omega

theorem VM.frameAt_topmost {fr : CallFrame} {i : ℕ} (h : vm.frameAt i = some fr)
    (hlen : vm.callFrames.length ≤ i + 1) :
    ∃ frs, vm.callFrames = fr :: frs ∧ frs.length = i := by
  obtain ⟨frs, hfrs⟩ := VM.frameAt_last h hlen
  have hlt := (List.getElem?_eq_some_iff.mp h).1
  simp only [hfrs, List.length_reverse, List.length_cons] at hlt hlen
  exact ⟨frs, hfrs, by omega⟩

theorem keeps_setField (p : JelloValue) (atom : UInt32) (v : JelloValue) :
    Keeps (fun _ ↦ True) Quiet (setField p atom v) :=
  keeps_bind (keeps_objectAt p) fun _ ↦ keeps_bind (keeps_orDiverge _) fun _ ↦
    keeps_writeCell _ _

theorem keeps_vmWrapCatchPayload (m : JelloBcModule) :
    Keeps (fun _ ↦ True) Quiet (vmWrapCatchPayload m) := by
  refine keeps_bind (keeps_read id) fun s ↦ keeps_ite (fun _ ↦ keeps_pure _) fun _ ↦ ?_
  refine keeps_bind (keeps_gcAlloc _) fun o ↦ keeps_bind (keeps_gcAlloc _) fun kb ↦
    keeps_bind (keeps_setField _ _ _) fun _ ↦ ?_
  cases s.trapMsg with
  | none => exact keeps_bind (keeps_setField _ _ _) fun _ ↦ keeps_pure _
  | some msg =>
    exact keeps_bind (keeps_gcAlloc _) fun mb ↦ keeps_bind (keeps_setField _ _ _) fun _ ↦
      keeps_bind (keeps_setField _ _ _) fun _ ↦ keeps_pure _

theorem ends_deliverPayload (h : Now ⟨acts, hs, s⟩ vm) (rf : RegFrame) (r : ℕ) :
    Ends (do
        let payload ← onStore (vmWrapCatchPayload ex.m)
        onStore (vmStoreVal rf r payload)
        onStore clearTrap
        pure false : VMM Bool)
      (fun b vm' ↦ b = false ∧ ∃ s', Caught s s' ∧ vm'.ctl = ⟨acts, hs, s'⟩) vm := by
  simp only [spec_bind]
  refine spec_onPart ((keeps_vmWrapCatchPayload ex.m).then fun v s₁ h₁ ↦ ?_)
  refine spec_onPart (Keeps.then (R := Quiet) (keeps_vmStore64 trivial v) fun _ s₂ h₂ ↦
    spec_onPart ?_)
  have hquiet := trans_of Quiet (trans_of Quiet h.store.quiet h₁) h₂
  have hctl (s' : Store) : (((vm.setStore s₁).setStore s₂).setStore s').ctl = ⟨acts, hs, s'⟩ :=
    ctl_of_same (c := ⟨acts, hs, s⟩) h.acts h.handlers
  refine (spec_change _).mpr ((spec_pure _).mpr ⟨rfl, _, ?_, hctl _⟩)
  exact ⟨hquiet.fuelLimit, hquiet.fuelRemaining, hquiet.spill, rfl⟩

theorem ends_vmExcDispatch_ctl :
    Ends (vmExcDispatch ex) (fun b vm' ↦ b = false → Dispatched vm.ctl vm'.ctl) vm := by
  simp only [vmExcDispatch, spec_bind, spec_read, id, spec_ite, spec_pure]
  refine ⟨fun hno _ ↦ .calm (show vm.store.excPending = false by simpa using hno), fun hyes ↦ ?_⟩
  have hpending : vm.store.excPending = true := by simpa using hyes
  split
  · simp only [spec_bind, spec_pure]
    exact (ends_iff.mpr fun _ _ _ ↦ (spec_change _).mpr fun h ↦ Bool.noConfusion h)
  · next h hs hwilling =>
    refine spec_bind.mpr ((spec_change _).mpr (spec_bind.mpr ?_))
    have hnow : Now ⟨vm.callFrames.map CallFrame.act, hs, vm.store⟩
        { vm with excHandlers := hs } := ⟨rfl, rfl, refl_of Still vm.store⟩
    refine (ends_unwindTo_ctl h.frameIndex vm.callFrames hnow).mono fun _ vm₁ h₁ ↦ ?_
    have hacts₁ : vm₁.callFrames.map CallFrame.act =
        (unwound h.frameIndex (vm.callFrames.map CallFrame.act) hs).1 := h₁.acts
    refine spec_bind.mpr (ends_frameAtIndex fun target htarget ↦ ?_)
    have hlen : vm₁.callFrames.length ≤ h.frameIndex + 1 := by
      have hle := unwound_length h.frameIndex (vm.callFrames.map CallFrame.act) hs
      rwa [← hacts₁, List.length_map] at hle
    obtain ⟨frs, hfrs, hidx⟩ := VM.frameAt_topmost htarget hlen
    have hacts : target.act :: frs.map CallFrame.act =
        (unwound h.frameIndex (vm.callFrames.map CallFrame.act) hs).1 := by
      rw [← hacts₁, hfrs]
      rfl
    have h₁' : NowActs (target.act :: frs.map CallFrame.act) vm₁ vm₁ := nowActs_self hfrs
    refine spec_bind.mpr (ends_setTopFrame_ctl h₁' fun vm₂ h₂ ↦ ?_)
    have h₂' : Now ⟨{ target.act with pc := h.catchPc } :: frs.map CallFrame.act,
        (unwound h.frameIndex (vm.callFrames.map CallFrame.act) hs).2, vm.store⟩ vm₂ :=
      ⟨h₂.acts, h₂.handlers.trans h₁.handlers, trans_of Still h₁.store h₂.store⟩
    have hunwound : unwound h.frameIndex vm.ctl.acts hs = (target.act :: frs.map CallFrame.act,
        (unwound h.frameIndex (vm.callFrames.map CallFrame.act) hs).2) := by
      rw [hacts]
      rfl
    have hidx' : (frs.map CallFrame.act).length = h.frameIndex := by rw [List.length_map, hidx]
    refine ((ends_deliverPayload h₂' target.rf h.dstReg).mono fun b vm₃ h₃ _ ↦ ?_)
    obtain ⟨-, s', hcaught, hctl⟩ := h₃
    rw [hctl]
    exact .caught hpending hwilling hunwound hidx' hcaught

theorem ends_checkExc_ctl : Ends (checkExc ex) (fun st vm' ↦ st = none →
    Dispatched vm.ctl vm'.ctl ∧ vm'.callFrames ≠ []) vm := by
  simp only [checkExc, spec_bind, spec_read, id, spec_ite, spec_pure]
  refine ⟨fun _ h ↦ Option.noConfusion rfl (heq_of_eq h), fun _ ↦ ?_⟩
  refine ends_vmExcDispatch_ctl.mono fun b vm₁ h₁ ↦ ⟨fun _ h ↦ ?_, fun hb ↦ ⟨fun _ ↦ ?_, fun hne ↦ ?_⟩⟩
  · exact Option.noConfusion rfl (heq_of_eq h)
  · exact ends_setOut fun _ ↦ fun h ↦ Option.noConfusion rfl (heq_of_eq h)
  · exact fun _ ↦ ⟨h₁ (by simpa using hb), hne⟩

end Dispatch

/-- The ways a run of the module is started, on a machine in any state. -/
inductive Starts (ex : Exec) (vm : VM) : Prop
  | entry (vm₀ : VM) (h : result (execEntry ex) vm₀ = .ok (true, vm))
  | chunk (vm₀ : VM) (f : ℕ) (args : List JelloValue)
      (h : result (execChunk ex f args) vm₀ = .ok (true, vm))
  | closure (vm₀ : VM) (fn : JelloFunction) (args : List JelloValue)
      (h : result (execClosure ex fn args) vm₀ = .ok (true, vm))

/-- A run that has come to `vm`, at the head of the loop; each instruction was executed in a state
that satisfies `P`. -/
inductive Run (ex : Exec) (reference : Bool) (build : Build) (P : VM → Prop) : VM → Prop
  | start {vm : VM} (h : Starts ex vm) : Run ex reference build P vm
  | round {vm vm₁ vm₂ : VM} (h : Run ex reference build P vm)
      (hhead : result (checkExc ex) vm = .ok (none, vm₁)) (hP : P vm₁)
      (hbody : result (execInsn ex reference build) vm₁ = .ok (none, vm₂)) :
      Run ex reference build P vm₂

/-- A run in which an instruction is about to be fetched. -/
def Fetches (ex : Exec) (reference : Bool) (build : Build) (P : VM → Prop) (vm₁ : VM) : Prop :=
  ∃ vm, Run ex reference build P vm ∧ result (checkExc ex) vm = .ok (none, vm₁)

def VM.nextInsn (ex : Exec) (vm : VM) : Option JelloInsn :=
  match vm.callFrames with
  | [] => none
  | fr :: _ => (ex.func fr.f).insns[fr.pc]?

/-- The fault that stops a program. -/
def faultOf {α : Type} (x : VMM α) (vm : VM) : Option Fault :=
  match result x vm with
  | .error e => some e
  | .ok _ => none

section Rounds

variable {ex : Exec} {reference : Bool} {build : Build} {P : VM → Prop} {vm vm' : VM}

theorem Run.mono {Q : VM → Prop} (hPQ : ∀ vm, P vm → Q vm) (h : Run ex reference build P vm) :
    Run ex reference build Q vm := by
  induction h with
  | start h => exact .start h
  | round _ hhead hP hbody ih => exact .round ih hhead (hPQ _ hP) hbody

theorem Run.loop {n : ℕ} (h : Run ex reference build (fun _ ↦ True) vm)
    (hloop : result (vmExecLoop ex reference build n) vm = .ok (none, vm')) :
    Run ex reference build (fun _ ↦ True) vm' := by
  induction n generalizing vm with
  | zero =>
    obtain rfl : vm = vm' := by
      simpa [vmExecLoop] using hloop
    exact h
  | succ n ih =>
    simp only [vmExecLoop, execRound, result_bind] at hloop
    cases hhead : result (checkExc ex) vm with
    | error e => simp [hhead, Except.bind] at hloop
    | ok r =>
      obtain ⟨st, vm₁⟩ := r
      cases st with
      | some st => simp [hhead, Except.bind] at hloop
      | none =>
        cases hbody : result (execInsn ex reference build) vm₁ with
        | error e => simp [hhead, hbody, Except.bind] at hloop
        | ok r =>
          obtain ⟨st, vm₂⟩ := r
          cases st with
          | some st => simp [hhead, hbody, Except.bind] at hloop
          | none =>
            refine ih (.round h hhead trivial hbody) ?_
            simpa [hhead, hbody, Except.bind] using hloop

/-- The entry of the module and the first `n` rounds of the loop. -/
def runTo (ex : Exec) (reference : Bool) (build : Build) (n : ℕ) :
    VMM (Bool × Option ExecStatus) := do
  let b ← execEntry ex
  let st ← vmExecLoop ex reference build n
  pure (b, st)

theorem run_of_runTo {n : ℕ} {vm₀ : VM}
    (h : result (runTo ex reference build n) vm₀ = .ok ((true, none), vm)) :
    Run ex reference build (fun _ ↦ True) vm := by
  simp only [runTo, result_bind] at h
  cases hentry : result (execEntry ex) vm₀ with
  | error e => simp [hentry, Except.bind] at h
  | ok p =>
    obtain ⟨b, vm₁⟩ := p
    cases hloop : result (vmExecLoop ex reference build n) vm₁ with
    | error e => simp [hentry, hloop, Except.bind] at h
    | ok q =>
      obtain ⟨st, vm₂⟩ := q
      obtain ⟨⟨rfl, rfl⟩, rfl⟩ : (b = true ∧ st = none) ∧ vm₂ = vm := by
        simpa [hentry, hloop, Except.bind] using h
      exact Run.loop (.start (.entry vm₀ hentry)) hloop

/-- The entry of the module, the first `n` rounds of the loop, and the head of the next one. -/
def fetchAt (ex : Exec) (reference : Bool) (build : Build) (n : ℕ) :
    VMM ((Bool × Option ExecStatus) × Option ExecStatus) := do
  let r ← runTo ex reference build n
  let st ← checkExc ex
  pure (r, st)

-- given here, as the search for the instance of a longer tuple would otherwise not end in time
instance decEqFetched : DecidableEq ((Bool × Option ExecStatus) × Option ExecStatus) :=
  inferInstance

theorem fetches_of_fetchAt {n : ℕ} {vm₀ : VM}
    (h : result (fetchAt ex reference build n) vm₀ = .ok (((true, none), none), vm)) :
    Fetches ex reference build (fun _ ↦ True) vm := by
  simp only [fetchAt, result_bind] at h
  cases hrun : result (runTo ex reference build n) vm₀ with
  | error e => simp [hrun, Except.bind] at h
  | ok p =>
    obtain ⟨r, vm₁⟩ := p
    cases hhead : result (checkExc ex) vm₁ with
    | error e => simp [hrun, hhead, Except.bind] at h
    | ok q =>
      obtain ⟨st, vm₂⟩ := q
      obtain ⟨⟨rfl, rfl⟩, rfl⟩ : (r = (true, none) ∧ st = none) ∧ vm₂ = vm := by
        simpa [hrun, hhead, Except.bind] using h
      exact ⟨vm₁, run_of_runTo hrun, hhead⟩

theorem Fetches.mono {Q : VM → Prop} (hPQ : ∀ vm, P vm → Q vm)
    (h : Fetches ex reference build P vm) : Fetches ex reference build Q vm := by
  obtain ⟨vm', hrun, hhead⟩ := h
  exact ⟨vm', hrun.mono hPQ, hhead⟩

/-- The machine after the fetch: the program counter of the top frame has moved on. -/
def VM.fetched (vm : VM) : VM :=
  match vm.callFrames with
  | [] => vm
  | fr :: frs => { vm with callFrames := { fr with pc := fr.pc + 1 } :: frs }

/-- What a round does to control: the frame at `pc` executes `ins`. -/
inductive Round (ex : Exec) (lbl : Bool) (vm : VM) (r : OpResult) (vm' : VM) : Prop
  | step {a : Act} {acts : List Act} {ins : JelloInsn} (hacts : vm.ctl.acts = a :: acts)
      (hins : vm.nextInsn ex = some ins)
      (heffect : Effect ex lbl vm.fetched a.pc ins r
        ⟨{ a with pc := a.pc + 1 } :: acts, vm.excHandlers, vm.store⟩ vm'.ctl)

/-- Which version of `JMP` is executed. -/
def jmpIsLabel (reference : Bool) (build : Build) : Bool :=
  reference && (build == .computedGoto)

theorem ends_execInsn : Ends (execInsn ex reference build) (fun st vm' ↦
    ∃ r, (st = if r = .return_ then some .ok else none) ∧
      Round ex (jmpIsLabel reference build) vm r vm') vm := by
  simp only [execInsn, fetch, spec_bind]
  refine ends_topFrame fun fr frs hfr ↦ spec_note.mpr ⟨trivial, ?_⟩
  split
  · exact spec_fail _
  · next ins hins =>
    simp only [spec_bind, setTopFrame, spec_change, spec_pure]
    have hnext : vm.nextInsn ex = some ins := by
      simp only [VM.nextInsn, hfr, hins]
    have hfetched : vm.fetched.callFrames = { fr with pc := fr.pc + 1 } :: frs := by
      simp only [VM.fetched, hfr]
    have hvm : { vm with callFrames := { fr with pc := fr.pc + 1 } :: vm.callFrames.tail } =
        vm.fetched := by
      simp only [VM.fetched, hfr, List.tail_cons]
    have hctl : vm.fetched.ctl = ⟨{ fr.act with pc := fr.act.pc + 1 } :: frs.map CallFrame.act,
        vm.excHandlers, vm.store⟩ := by
      simp only [VM.fetched, VM.ctl, hfr, List.map_cons]
      rfl
    have hround {r : OpResult} {vm' : VM} (h : Effect ex (jmpIsLabel reference build)
        vm.fetched fr.pc ins r vm.fetched.ctl vm'.ctl) :
        Round ex (jmpIsLabel reference build) vm r vm' := by
      rw [hctl] at h
      exact .step (by rw [ctl_of_frames hfr]) hnext h
    rw [hvm]
    cases reference with
    | true =>
      refine spec_bind.mpr ((ends_opDispatch build hfetched rfl).mono fun r vm' h ↦ ?_)
      exact (spec_pure _).mpr ⟨r, rfl, hround h⟩
    | false =>
      refine spec_bind.mpr ((ends_inlineInsn build hfetched rfl).mono fun r vm' h ↦ ?_)
      exact (spec_pure _).mpr ⟨r, rfl, hround h⟩

end Rounds

end JelloVM
