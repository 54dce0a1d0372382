import JelloVM.Pending

namespace JelloVM

open ByteMemory Logged

/-- What the spill stack held when a `TRY` was executed, and how low it has been since. -/
structure Mark where
  saved : List JelloValue
  low : ℕ
  deriving DecidableEq

/-- The spill stack has been as low as `n`. -/
def Mark.lower (n : ℕ) (k : Mark) : Mark := { k with low := min k.low n }

/-- The marks of the oldest `n` handlers. -/
def oldest (n : ℕ) (marks : List Mark) : List Mark := marks.drop (marks.length - n)

/-- The marks after a round: those of the handlers that have gone are dropped, at its head and by
its instruction, and a `TRY` adds one. -/
def marksAfter (ex : Exec) (vm₁ vm₂ : VM) (marks : List Mark) : List Mark :=
  let kept := oldest vm₁.excHandlers.length marks
  let now := if (vm₁.nextInsn ex).map JelloInsn.op = some .try_ then
      ⟨vm₁.store.spill, vm₁.store.spill.length⟩ :: kept
    else oldest vm₂.excHandlers.length kept
  now.map (Mark.lower vm₂.store.spill.length)

/-- A run that has come to `vm`, with the marks of the handlers, the innermost first. -/
inductive MarkedRun (ex : Exec) (reference : Bool) (build : Build) : List Mark → VM → Prop
  | start {vm : VM} (h : Starts ex vm) : MarkedRun ex reference build [] vm
  | round {marks : List Mark} {vm vm₁ vm₂ : VM} (h : MarkedRun ex reference build marks vm)
      (hhead : result (checkExc ex) vm = .ok (none, vm₁))
      (hbody : result (execInsn ex reference build) vm₁ = .ok (none, vm₂)) :
      MarkedRun ex reference build (marksAfter ex vm₁ vm₂ marks) vm₂

def NativesLeaveSpill (ex : Exec) : Prop := ∀ s s', NativeRun ex s s' → s'.spill = s.spill

/-- What was spilled at the `TRY` is still there, unless the stack has been lower. -/
def Mark.Below (spill : List JelloValue) (k : Mark) : Prop :=
  k.saved.length ≤ k.low → k.saved <:+ spill

section Marks

variable {k : Mark} {spill spill' : List JelloValue} {v : JelloValue} {marks : List Mark}

/-- One value was pushed or popped, or the stack is as it was. -/
def OneMove (spill spill' : List JelloValue) : Prop :=
  spill' = spill ∨ ∃ v, spill' = v :: spill ∨ spill = v :: spill'

theorem Mark.Below.move (h : k.Below spill) (hmove : OneMove spill spill') :
    (k.lower spill'.length).Below spill' := by
  intro hlow
  have hle : k.saved.length ≤ min k.low spill'.length := hlow
  have hsuffix := h (by omega)
  change k.saved <:+ spill'
  obtain rfl | ⟨v, rfl | rfl⟩ := hmove
  · exact hsuffix
  · exact hsuffix.trans (List.suffix_cons v spill)
  · obtain heq | hsuffix' := List.suffix_cons_iff.mp hsuffix
    · rw [heq, List.length_cons] at hle
      omega
    · exact hsuffix'

theorem below_new (spill : List JelloValue) : (⟨spill, spill.length⟩ : Mark).Below spill :=
  fun _ ↦ List.suffix_refl spill

theorem mem_oldest {n : ℕ} (h : k ∈ oldest n marks) : k ∈ marks := List.mem_of_mem_drop h

theorem length_oldest {n : ℕ} (h : n ≤ marks.length) : (oldest n marks).length = n := by
  rw [oldest, List.length_drop]
  omega

end Marks

section Moves

variable {ex : Exec} {lbl : Bool} {vm : VM} {pc : ℕ} {ins : JelloInsn} {r : OpResult}
  {c c' : Ctl}

theorem Charged.spill_eq {s s' : Store} (h : Charged s s') : s'.spill = s.spill := by
  cases h with
  | unlimited _ => rfl
  | one _ _ => rfl

theorem Spilled.move {op : JelloOp} {s s' : Store} (h : Spilled op s s') :
    OneMove s.spill s'.spill := by
  unfold Spilled at h
  split at h
  · obtain ⟨v, hv⟩ := h
    exact .inr ⟨v, .inl hv⟩
  · obtain ⟨v, hv⟩ := h
    exact .inr ⟨v, .inr hv⟩
  · exact .inl h

theorem Effect.spill_move (hnative : NativesLeaveSpill ex) (he : Effect ex lbl vm pc ins r c c') :
    OneMove c.store.spill c'.store.spill := by
  cases he with
  | stay _ _ _ hspill => exact hspill.move
  | noFuel _ hquiet _ => exact .inl hquiet.spill
  | raise _ hspill _ _ _ _ _ => exact .inl hspill
  | jump npc _ hfuel =>
    refine .inl ?_
    split_ifs at hfuel
    · exact hfuel.spill_eq
    · rw [hfuel]
  | try_ _ _ _ => exact .inl rfl
  | endtry _ _ => exact .inl rfl
  | native _ hcharge hrun => exact .inl ((hnative _ _ hrun).trans hcharge.spill_eq)
  | refused _ _ hcharge hquiet _ =>
    refine .inl (hquiet.spill.trans ?_)
    obtain rfl | hcharge := hcharge
    · rfl
    · exact hcharge.spill_eq
  | push _ _ _ _ hcharge hstill => exact .inl (hstill.spill.trans hcharge.spill_eq)
  | tail _ _ _ _ hstill => exact .inl hstill.spill
  | noTail _ _ hrun _ =>
    refine .inl ?_
    obtain hquiet | hrun := hrun
    · exact hquiet.spill
    · exact hnative _ _ hrun
  | nativeTail _ hrun _ _ hstill _ _ => exact .inl (hstill.spill.trans (hnative _ _ hrun))
  | ret _ _ hstill _ _ => exact .inl hstill.spill
  | finish _ _ hstill _ => exact .inl hstill.spill

/-- Only a `TRY` adds a handler. -/
theorem Effect.handlers_length (he : Effect ex lbl vm pc ins r c c') :
    if ins.op = .try_ then c'.handlers.length = c.handlers.length + 1 ∧
        c'.store.spill = c.store.spill
      else c'.handlers.length ≤ c.handlers.length := by
  cases he with
  | stay hop _ _ _ =>
    rw [if_neg]
    intro h
    rw [h] at hop
    exact Bool.noConfusion hop
  | noFuel hop _ _ => simp [hop]
  | raise hop _ _ _ _ _ _ =>
    obtain hop | hop := hop
    · simp [hop]
    · simp [hop]
  | jump npc hto _ =>
    rw [if_neg]
    intro h
    simp only [JelloBcFunction.jumpsTo, h, reduceCtorEq] at hto
  | try_ _ hop _ => simp [hop]
  | endtry hop _ => simp [hop]
  | native hop _ _ =>
    obtain hop | hop := hop
    · simp [hop]
    · simp [hop]
  | refused _ hop _ _ _ =>
    obtain hop | hop := hop
    · simp [hop]
    · simp [hop]
  | push _ _ hop _ _ _ =>
    obtain hop | hop := hop
    · simp [hop, Ctl.push]
    · simp [hop, Ctl.push]
  | tail _ hop _ _ _ =>
    obtain hop | hop := hop
    · simp [hop]
    · simp [hop]
  | noTail _ hop _ _ =>
    obtain hop | hop := hop
    · simp [hop]
    · simp [hop]
  | nativeTail hop _ _ _ _ _ _ =>
    obtain hop | hop := hop
    · simp [hop]
    · simp [hop]
  | ret hop _ _ _ _ => simp [hop]
  | finish hop _ _ _ => simp [hop]

theorem unwound_handlers (target : ℕ) (acts : List Act) (hs : List ExcHandler) :
    (unwound target acts hs).2 <:+ hs := by
  induction acts generalizing hs with
  | nil => exact List.suffix_refl hs
  | cons a acts ih =>
    unfold unwound
    split_ifs
    · exact (ih _).trans (List.dropWhile_suffix _)
    · exact List.suffix_refl hs

theorem Dispatched.handlers_length (h : Dispatched c c') :
    c'.handlers.length ≤ c.handlers.length ∧ c'.store.spill = c.store.spill := by
  cases h with
  | calm _ => exact ⟨le_rfl, rfl⟩
  | @caught h hs hs' a acts s' _ hwilling hunwound _ hcaught =>
    refine ⟨?_, hcaught.spill⟩
    obtain ⟨pre, hpre⟩ := willing_suffix hwilling
    have hle : hs'.length ≤ hs.length := by
      have := (unwound_handlers h.frameIndex c.acts hs).length_le
      rwa [hunwound] at this
    rw [hpre, List.length_append, List.length_cons]
    change hs'.length ≤ _
    omega

end Moves

section Marked

variable {ex : Exec} {reference : Bool} {build : Build} {marks : List Mark} {vm vm₁ vm₂ : VM}

/-- There is one mark for each handler, and it is right. -/
structure Marked (marks : List Mark) (vm : VM) : Prop where
  length : marks.length = vm.excHandlers.length
  below : ∀ k ∈ marks, k.Below vm.store.spill

theorem Marked.after_head (h : Marked marks vm) (hhead : result (checkExc ex) vm = .ok (none, vm₁)) :
    Marked (oldest vm₁.excHandlers.length marks) vm₁ := by
  obtain ⟨hle, hspill⟩ := (ends_checkExc_ctl.of_result hhead rfl).1.handlers_length
  have hle : vm₁.excHandlers.length ≤ vm.excHandlers.length := hle
  have hspill : vm₁.store.spill = vm.store.spill := hspill
  refine ⟨length_oldest (by rw [h.length]; exact hle), fun k hk ↦ ?_⟩
  rw [hspill]
  exact h.below k (mem_oldest hk)

theorem Marked.after_round (hnative : NativesLeaveSpill ex) (h : Marked marks vm)
    (hhead : result (checkExc ex) vm = .ok (none, vm₁))
    (hbody : result (execInsn ex reference build) vm₁ = .ok (none, vm₂)) :
    Marked (marksAfter ex vm₁ vm₂ marks) vm₂ := by
  have h₁ := h.after_head hhead
  obtain ⟨r, -, hround⟩ := ends_execInsn.of_result hbody
  cases hround with
  | @step a acts ins hacts hins heffect =>
    have hmove : OneMove vm₁.store.spill vm₂.store.spill := heffect.spill_move hnative
    have hhandlers := heffect.handlers_length
    rw [marksAfter, hins]
    by_cases htry : ins.op = .try_
    · rw [if_pos htry] at hhandlers
      have hlen : vm₂.excHandlers.length = vm₁.excHandlers.length + 1 := hhandlers.1
      simp only [Option.map_some, htry, if_true]
      refine ⟨by simp only [List.length_map, List.length_cons, h₁.length, hlen], fun k hk ↦ ?_⟩
      obtain ⟨k₁, hk₁, rfl⟩ := List.mem_map.mp hk
      obtain rfl | hk₁ := List.mem_cons.mp hk₁
      · exact (below_new _).move hmove
      · exact (h₁.below k₁ hk₁).move hmove
    · rw [if_neg htry] at hhandlers
      have hlen : vm₂.excHandlers.length ≤ vm₁.excHandlers.length := hhandlers
      simp only [Option.map_some, Option.some.injEq, htry, if_false]
      refine ⟨?_, fun k hk ↦ ?_⟩
      · rw [List.length_map]
        exact length_oldest (by rw [h₁.length]; exact hlen)
      · obtain ⟨k₁, hk₁, rfl⟩ := List.mem_map.mp hk
        exact (h₁.below k₁ (mem_oldest hk₁)).move hmove

theorem MarkedRun.marked (hm : Accepted ex.m) (hnative : NativesLeaveSpill ex)
    (h : MarkedRun ex reference build marks vm) : Marked marks vm := by
  induction h with
  | start h =>
    have hhs := (h.started hm.entry_lt).handlers
    exact ⟨by rw [hhs]; rfl, fun k hk ↦ absurd hk List.not_mem_nil⟩
  | round _ hhead hbody ih => exact ih.after_round hnative hhead hbody

theorem Run.marked (h : Run ex reference build (fun _ ↦ True) vm) :
    ∃ marks, MarkedRun ex reference build marks vm := by
  induction h with
  | start h => exact ⟨[], .start h⟩
  | round _ hhead _ hbody ih =>
    obtain ⟨marks, hmarks⟩ := ih
    exact ⟨_, .round hmarks hhead hbody⟩

theorem keeps_releaseFrames (frs : List CallFrame) :
    Keeps (fun _ ↦ True) SameCtl (releaseFrames frs) := by
  induction frs with
  | nil => exact keeps_pure _
  | cons fr frs ih => exact keeps_bind (keeps_vmRfRelease _) fun _ ↦ ih

theorem ends_vmUnwindAllFrames_spill :
    Ends vmUnwindAllFrames (fun _ vm' ↦ vm'.store.spill = vm.store.spill) vm := by
  refine spec_bind.mpr ((spec_read _).mpr (spec_bind.mpr ?_))
  exact ends_sameCtl (keeps_releaseFrames _) fun _ vm₁ h₁ ↦ (spec_change _).mpr h₁.store.spill

theorem ends_checkExc_trap : Ends (checkExc ex) (fun st vm' ↦ st = some .trap →
    vm'.store.spill = vm.store.spill) vm := by
  have hdispatch : Ends (vmExcDispatch ex) (fun b vm' ↦ b = true →
      vm'.store.spill = vm.store.spill) vm := by
    simp only [vmExcDispatch, spec_bind, spec_read, id, spec_ite, spec_pure]
    refine ⟨fun _ h ↦ Bool.noConfusion h, fun _ ↦ ?_⟩
    split
    · simp only [spec_bind, spec_change, spec_pure]
      exact ends_vmUnwindAllFrames_spill.mono fun _ vm₁ h₁ _ ↦ h₁
    · simp only [spec_bind, spec_change, spec_pure]
      refine ends_iff.mpr fun _ _ _ ↦ ends_iff.mpr fun _ _ _ ↦ ends_iff.mpr fun _ _ _ ↦
        ends_iff.mpr fun _ _ _ ↦ ends_iff.mpr fun _ _ _ ↦ ends_iff.mpr fun _ _ _ h ↦
          Bool.noConfusion h
  simp only [checkExc, spec_bind, spec_read, id, spec_ite, spec_pure]
  refine ⟨fun _ h ↦ ExecStatus.noConfusion (Option.some.inj h), fun _ ↦
    hdispatch.mono fun b vm₁ h₁ ↦ ⟨fun hb _ ↦ h₁ hb, fun _ ↦ ⟨fun _ ↦ ?_, fun _ h ↦ ?_⟩⟩⟩
  · exact ends_setOut fun _ h ↦ ExecStatus.noConfusion (Option.some.inj h)
  · exact Option.noConfusion rfl (heq_of_eq h)

end Marked

/-- The ways in which a host starts a run. -/
inductive Entry
  | entry
  | chunk (f : ℕ) (args : List JelloValue)
  | closure (fn : JelloFunction) (args : List JelloValue)

def Entry.exec (ex : Exec) : Entry → VMM Bool
  | .entry => execEntry ex
  | .chunk f args => execChunk ex f args
  | .closure fn args => execClosure ex fn args

section Ends

variable {ex : Exec} {vm : VM}

theorem Entry.ends_exec (e : Entry) : Ends (e.exec ex) (fun b vm' ↦ b = true →
    vm'.store.spill = vm.store.spill) vm := by
  cases e with
  | entry =>
    refine spec_bind.mpr ((spec_change _).mpr ?_)
    refine (ends_vmPushFrame_ctl _ _ _ _ _ _ _ _).mono fun b vm₂ h₂ hb ↦ ?_
    subst hb
    have hnow : NowActs _ _ vm₂ := h₂
    exact hnow.store.spill
  | chunk f args =>
    refine spec_ite.mpr ⟨fun _ ↦ spec_fail _, fun _ ↦ spec_bind.mpr ((spec_change _).mpr ?_)⟩
    exact (ends_vmPushFrameEntry_ctl _ _ _).mono fun b vm₂ h₂ hb ↦ (h₂ hb).store.spill
  | closure fn args =>
    refine spec_bind.mpr ((spec_change _).mpr ?_)
    refine spec_ite.mpr ⟨fun _ ↦ (spec_pure _).mpr fun h ↦ Bool.noConfusion h, fun _ ↦
      spec_ite.mpr ⟨fun _ ↦ (spec_pure _).mpr fun h ↦ Bool.noConfusion h, fun _ ↦ ?_⟩⟩
    exact (ends_vmPushFrameEntry_ctl _ _ _).mono fun b vm₂ h₂ hb ↦ (h₂ hb).store.spill

/-- What follows an exception that nobody has caught: the run is over, and the host starts the next
one, of any module. -/
def nextRun (ex' : Exec) (e : Entry) : VMM Bool := do
  vmCaptureTrapStack .trap
  vmFinishExec .trap
  e.exec ex'

theorem ends_nextRun (ex' : Exec) (e : Entry) : Ends (nextRun ex' e) (fun b vm' ↦ b = true →
    vm'.store.spill = vm.store.spill) vm := by
  refine spec_bind.mpr (ends_vmUnwindAllFrames_spill.mono fun _ vm₁ h₁ ↦ ?_)
  refine spec_bind.mpr ((spec_pure _).mpr (e.ends_exec.mono fun b vm₂ h₂ hb ↦ ?_))
  exact (h₂ hb).trans h₁

end Ends

section Restored

variable {ex : Exec} {reference : Bool} {build : Build}

/-- At a catch target the spill stack is what it was at the `TRY` exactly when as much was pushed as
was popped since; after an exception that nobody catches the next run starts with what was
spilled. -/
theorem spill_restored (hm : Accepted ex.m) (hnative : NativesLeaveSpill ex) :
    (∀ marks vm vm₁ h hs, MarkedRun ex reference build marks vm → vm.store.excPending = true →
      willing vm.store.trapCode vm.excHandlers = some (h, hs) →
      result (checkExc ex) vm = .ok (none, vm₁) →
      ∃ pre k post, marks = pre ++ k :: post ∧ post.length = hs.length ∧
        (k.saved.length ≤ k.low →
          (vm₁.store.spill = k.saved ↔ vm.store.spill.length = k.saved.length))) ∧
    ∀ vm vm₁ vm₂ ex' e, Run ex reference build (fun _ ↦ True) vm →
      result (checkExc ex) vm = .ok (some .trap, vm₁) →
      result (nextRun ex' e) vm₁ = .ok (true, vm₂) →
      (vm₂.store.spill = [] ↔ vm.store.spill = []) := by
  refine ⟨fun marks vm vm₁ h hs hrun hpending hwilling hhead ↦ ?_,
    fun vm vm₁ vm₂ ex' e _ hhead hnext ↦ ?_⟩
  · have hmarked := hrun.marked hm hnative
    have hspill : vm₁.store.spill = vm.store.spill :=
      (ends_checkExc_ctl.of_result hhead rfl).1.handlers_length.2
    obtain ⟨pre, hpre⟩ := willing_suffix hwilling
    have hlen : pre.length < marks.length := by
      rw [hmarked.length, hpre, List.length_append, List.length_cons]
      omega
    refine ⟨marks.take pre.length, marks[pre.length], marks.drop (pre.length + 1), ?_, ?_,
      fun hlow ↦ ?_⟩
    · rw [List.getElem_cons_drop, List.take_append_drop]
    · rw [List.length_drop, hmarked.length, hpre, List.length_append, List.length_cons]
      omega
    · have hsuffix := hmarked.below _ (List.getElem_mem hlen) hlow
      rw [hspill]
      exact ⟨fun heq ↦ by rw [heq], fun heq ↦ (hsuffix.eq_of_length heq.symm).symm⟩
  · have hspill := ends_checkExc_trap.of_result hhead rfl
    rw [(ends_nextRun ex' e).of_result hnext rfl, hspill]

end Restored

/-- The entry of the module and `n` rounds, with the marks of the handlers. -/
def markTo (ex : Exec) (reference : Bool) (build : Build) : ℕ → VMM (List Mark)
  | 0 => do
    if ← execEntry ex then pure [] else vmPanic
  | n + 1 => do
    let marks ← markTo ex reference build n
    match ← checkExc ex with
    | some _ => vmPanic
    | none => do
      let vm₁ ← read id
      match ← execInsn ex reference build with
      | some _ => vmPanic
      | none => do
        let vm₂ ← read id
        pure (marksAfter ex vm₁ vm₂ marks)

theorem markedRun_of_markTo {ex : Exec} {reference : Bool} {build : Build} {n : ℕ} {vm₀ vm : VM}
    {marks : List Mark} (h : result (markTo ex reference build n) vm₀ = .ok (marks, vm)) :
    MarkedRun ex reference build marks vm := by
  induction n generalizing marks vm with
  | zero =>
    obtain ⟨b, vm', hentry, hrest⟩ := bind_ok h
    cases b with
    | false => simp [vmPanic] at hrest
    | true =>
      obtain ⟨rfl, rfl⟩ : [] = marks ∧ vm' = vm := by simpa using hrest
      exact .start (.entry vm₀ hentry)
  | succ n ih =>
    obtain ⟨marks', vm', hmarks, hrest⟩ := bind_ok h
    obtain ⟨st, vm₁, hhead, hrest⟩ := bind_ok hrest
    cases st with
    | some st => simp [vmPanic] at hrest
    | none =>
      obtain ⟨vm₁', vm₁'', hread, hrest⟩ := bind_ok hrest
      obtain ⟨rfl, rfl⟩ : vm₁ = vm₁' ∧ vm₁ = vm₁'' := by simpa using hread
      obtain ⟨st, vm₂, hbody, hrest⟩ := bind_ok hrest
      cases st with
      | some st => simp [vmPanic] at hrest
      | none =>
        obtain ⟨vm₂', vm₂'', hread, hrest⟩ := bind_ok hrest
        obtain ⟨rfl, rfl⟩ : vm₂ = vm₂' ∧ vm₂ = vm₂'' := by simpa using hread
        obtain ⟨rfl, rfl⟩ : marksAfter ex vm₁ vm₂ marks' = marks ∧ vm₂ = vm := by
          simpa using hrest
        exact .round (ih hmarks) hhead hbody

/-- A value that is spilled, or not, in a protected region, or in none, and then thrown. -/
def spillModule (guarded spilled : Bool) : JelloBcModule :=
  { tailTryModule with
    types := [⟨.dynamic, 0⟩, ⟨.i32, 0⟩]
    funcs :=
      [{ regTypes := [0, 1]
         capStart := 0
         insns := [{ op := .constI32, a := 1, b := 0, c := 0, imm := 7 },
           { op := .toDyn, a := 0, b := 1, c := 0, imm := 0 },
           if guarded then { op := .try_, a := 0, b := 0, c := 0, imm := 3 }
           else { op := .toDyn, a := 0, b := 1, c := 0, imm := 0 },
           if spilled then { op := .spillPush, a := 0, b := 0, c := 0, imm := 0 }
           else { op := .toDyn, a := 0, b := 1, c := 0, imm := 0 },
           { op := .throw, a := 0, b := 0, c := 0, imm := 0 },
           if guarded then { op := .endtry, a := 0, b := 0, c := 0, imm := 0 }
           else { op := .toDyn, a := 0, b := 1, c := 0, imm := 0 },
           { op := .ret, a := 0, b := 0, c := 0, imm := 0 }]
         sourceFile := 0
         lines := [] }] }

/-- The exception, its handler and what is spilled. -/
def VM.spillView (vm : VM) : Bool × Option (ExcHandler × List ExcHandler) × List JelloValue :=
  (vm.store.excPending, willing vm.store.trapCode vm.excHandlers, vm.store.spill)

instance decEqSpillView :
    DecidableEq (Bool × Option (ExcHandler × List ExcHandler) × List JelloValue) := inferInstance

/-- The first `n` rounds and the head of the next one, with the marks of the handlers. -/
def headAt (ex : Exec) (reference : Bool) (build : Build) (n : ℕ) :
    VMM (List Mark × Option ExecStatus) := do
  let marks ← markTo ex reference build n
  let st ← checkExc ex
  pure (marks, st)

/-- The steps of a program up to the head of the loop, from what evaluation shows of them. -/
theorem marked_states (ex : Exec) (reference : Bool) (build : Build) (n : ℕ) (marks : List Mark)
    (view : Bool × Option (ExcHandler × List ExcHandler) × List JelloValue)
    (st : Option ExecStatus) (spill : List JelloValue)
    (h₁ : (result (markTo ex reference build n) jelloVmCreate).toOption.map
      (fun r ↦ (r.1, r.2.spillView)) = some (marks, view))
    (h₂ : (result (headAt ex reference build n) jelloVmCreate).toOption.map
      (fun r ↦ (r.1, r.2.store.spill)) = some ((marks, st), spill)) :
    ∃ vm vm₁, MarkedRun ex reference build marks vm ∧ vm.spillView = view ∧
      result (checkExc ex) vm = .ok (st, vm₁) ∧ vm₁.store.spill = spill ∧
      result (headAt ex reference build n) jelloVmCreate = .ok ((marks, st), vm₁) := by
  obtain ⟨vm, st', vm₁, hr₁, hv₁, hhead, hv₂, hr₂⟩ := result_of_views h₁ h₂
  obtain ⟨⟨-, rfl⟩, hspill⟩ : (_ ∧ st' = st) ∧ vm₁.store.spill = spill := by
    simpa only [Prod.mk.injEq] using hv₂
  exact ⟨vm, vm₁, markedRun_of_markTo hr₁, hv₁, hhead, hspill, hr₂⟩

theorem MarkedRun.run {ex : Exec} {reference : Bool} {build : Build} {marks : List Mark} {vm : VM}
    (h : MarkedRun ex reference build marks vm) : Run ex reference build (fun _ ↦ True) vm := by
  induction h with
  | start h => exact .start h
  | round _ hhead hbody ih => exact .round ih hhead trivial hbody

/-- A value that was spilled after the `TRY` is there at its catch target; one that was spilled
before an exception that nobody catches is there when the module is run again. -/
theorem spillThrow_kept : Accepted (spillModule true true) ∧ Accepted (spillModule false true) ∧
    (∃ vm vm₁ h, MarkedRun (Exec.alone (spillModule true true)) false .switch [⟨[], 0⟩] vm ∧
      vm.store.excPending = true ∧ willing vm.store.trapCode vm.excHandlers = some (h, []) ∧
      result (checkExc (Exec.alone (spillModule true true))) vm = .ok (none, vm₁) ∧
      vm₁.store.spill ≠ []) ∧
    ∃ vm vm₁ vm₂, Run (Exec.alone (spillModule false true)) false .switch (fun _ ↦ True) vm ∧
      result (checkExc (Exec.alone (spillModule false true))) vm = .ok (some .trap, vm₁) ∧
      result (nextRun (Exec.alone (spillModule false true)) .entry) vm₁ = .ok (true, vm₂) ∧
      vm₂.store.spill ≠ [] := by
  refine ⟨by decide, by decide, ?_, ?_⟩
  · obtain ⟨vm, vm₁, hrun, hview, hhead, hspill, -⟩ := marked_states
      (Exec.alone (spillModule true true)) false .switch 5 [⟨[], 0⟩]
      (true, some (⟨0, 6, 0, false⟩, []), [57]) none [57] (by decide +kernel) (by decide +kernel)
    simp only [VM.spillView, Prod.mk.injEq] at hview
    exact ⟨vm, vm₁, _, hrun, hview.1, hview.2.1, hhead, by simp [hspill]⟩
  · obtain ⟨vm, vm₁, hrun, -, hhead, -, hres⟩ := marked_states
      (Exec.alone (spillModule false true)) false .switch 5 [] (true, none, [57]) (some .trap) [57]
      (by decide +kernel) (by decide +kernel)
    have hview : (result (do
        let r ← headAt (Exec.alone (spillModule false true)) false .switch 5
        let b ← nextRun (Exec.alone (spillModule false true)) .entry
        pure (r, b)) jelloVmCreate).toOption.map (fun r ↦ (r.1, r.2.store.spill)) =
        some ((([], some .trap), true), [57]) := by decide +kernel
    obtain ⟨⟨r, vm₂⟩, hr, hv⟩ := result_of_view hview
    simp only [Prod.mk.injEq] at hv
    obtain ⟨rfl, hspill⟩ := hv
    obtain ⟨r', vm', hr', hrest⟩ := bind_ok hr
    obtain ⟨rfl, rfl⟩ : ([], some .trap) = r' ∧ vm₁ = vm' := by simpa [hres] using hr'
    obtain ⟨b, vm₂', hnext, hpure⟩ := bind_ok hrest
    obtain ⟨rfl, rfl⟩ : b = true ∧ vm₂' = vm₂ := by simpa using hpure
    exact ⟨vm, vm₁, vm₂', hrun.run, hhead, hnext, by simp [hspill]⟩

/-- A value that is spilled before a protected region and another one in it, which is popped again
before the exception; or, without a region, two that are popped again. -/
def balancedModule (guarded : Bool) : JelloBcModule :=
  { tailTryModule with
    types := [⟨.dynamic, 0⟩, ⟨.i32, 0⟩]
    funcs :=
      [{ regTypes := [0, 1]
         capStart := 0
         insns := [{ op := .constI32, a := 1, b := 0, c := 0, imm := 7 },
           { op := .toDyn, a := 0, b := 1, c := 0, imm := 0 },
           { op := .spillPush, a := 0, b := 0, c := 0, imm := 0 },
           if guarded then { op := .try_, a := 0, b := 0, c := 0, imm := 4 }
           else { op := .spillPop, a := 0, b := 0, c := 0, imm := 0 },
           { op := .spillPush, a := 0, b := 0, c := 0, imm := 0 },
           { op := .spillPop, a := 0, b := 0, c := 0, imm := 0 },
           { op := .throw, a := 0, b := 0, c := 0, imm := 0 },
           if guarded then { op := .endtry, a := 0, b := 0, c := 0, imm := 0 }
           else { op := .toDyn, a := 0, b := 1, c := 0, imm := 0 },
           { op := .ret, a := 0, b := 0, c := 0, imm := 0 }]
         sourceFile := 0
         lines := [] }] }

/-- The value that was spilled before the `TRY` is what its catch target finds, and nothing is left
for the run after an exception that nobody catches. -/
theorem balancedThrow_restored :
    (∃ (vm vm₁ : VM) (pre : List Mark) (k : Mark) (post : List Mark),
      MarkedRun (Exec.alone (balancedModule true)) false .switch [⟨[57], 1⟩] vm ∧
        vm.store.excPending = true ∧
        result (checkExc (Exec.alone (balancedModule true))) vm = .ok (none, vm₁) ∧
        [⟨[57], 1⟩] = pre ++ k :: post ∧ vm₁.store.spill = k.saved ∧ k.saved = [57]) ∧
    ∃ vm vm₁ vm₂, Run (Exec.alone (balancedModule false)) false .switch (fun _ ↦ True) vm ∧
      result (checkExc (Exec.alone (balancedModule false))) vm = .ok (some .trap, vm₁) ∧
      result (nextRun (Exec.alone (balancedModule false)) .entry) vm₁ = .ok (true, vm₂) ∧
      vm₂.store.spill = [] := by
  have hm (guarded : Bool) : Accepted (Exec.alone (balancedModule guarded)).m := by
    cases guarded <;> decide
  have hnative (guarded : Bool) : NativesLeaveSpill (Exec.alone (balancedModule guarded)) :=
    fun _ _ hrun ↦ absurd hrun (not_nativeRun_alone _)
  constructor
  · obtain ⟨vm, vm₁, hrun, hview, hhead, -, -⟩ := marked_states
      (Exec.alone (balancedModule true)) false .switch 7 [⟨[57], 1⟩]
      (true, some (⟨0, 8, 0, false⟩, []), [57]) none [57] (by decide +kernel) (by decide +kernel)
    simp only [VM.spillView, Prod.mk.injEq] at hview
    obtain ⟨pre, k, post, heq, hlen, hiff⟩ := (spill_restored (hm true) (hnative true)).1
      _ vm vm₁ _ _ hrun hview.1 hview.2.1 hhead
    obtain ⟨rfl, rfl⟩ : pre = [] ∧ k = ⟨[57], 1⟩ := by
      cases pre with
      | nil => exact ⟨rfl, (List.cons.inj heq).1.symm⟩
      | cons a pre => simp at heq
    refine ⟨vm, vm₁, [], _, post, hrun, hview.1, hhead, heq, (hiff le_rfl).mpr ?_, rfl⟩
    rw [hview.2.2]
  · obtain ⟨vm, vm₁, hrun, hview, hhead, -, hres⟩ := marked_states
      (Exec.alone (balancedModule false)) false .switch 7 [] (true, none, []) (some .trap) []
      (by decide +kernel) (by decide +kernel)
    have hnext : (result (do
        let r ← headAt (Exec.alone (balancedModule false)) false .switch 7
        let b ← nextRun (Exec.alone (balancedModule false)) .entry
        pure (r, b)) jelloVmCreate).toOption.map (fun r ↦ r.1.2) = some true := by decide +kernel
    obtain ⟨⟨r, vm₂⟩, hr, hv⟩ := result_of_view hnext
    obtain ⟨r', vm', hr', hrest⟩ := bind_ok hr
    obtain ⟨rfl, rfl⟩ : ([], some .trap) = r' ∧ vm₁ = vm' := by simpa [hres] using hr'
    obtain ⟨b, vm₂', hnext, hpure⟩ := bind_ok hrest
    obtain ⟨rfl, rfl⟩ : r = (([], some .trap), b) ∧ vm₂' = vm₂ := by simpa [eq_comm] using hpure
    simp only at hv
    subst hv
    simp only [VM.spillView, Prod.mk.injEq] at hview
    exact ⟨vm, vm₁, vm₂', hrun.run, hhead, hnext, ((spill_restored (hm false) (hnative false)).2
      vm vm₁ vm₂' _ _ hrun.run hhead hnext).mpr hview.2.2⟩

end JelloVM
