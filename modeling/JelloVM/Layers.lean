import JelloVM.Run

namespace JelloVM

open ByteMemory Logged

section Layers

variable (okH : ℕ → ℕ → ExcHandler → Prop) (okA : ℕ → ℕ → ℕ → Prop)

/-- The handlers of the frame of index `i`, which executes `f`: the one with `k` others of the
frame below it satisfies `okH f k`. -/
def Owned (i f : ℕ) : List ExcHandler → Prop
  | [] => True
  | h :: hs => h.frameIndex = i ∧ okH f hs.length h ∧ Owned i f hs

/-- The handlers lie in layers, one for each frame. A frame at `pc` of `f` with `n` handlers of
its own satisfies `okA f pc n`; for the top frame `top` is asked instead. -/
def Layered (top : Act → ℕ → Prop) : List Act → List ExcHandler → Prop
  | [], hs => hs = []
  | a :: acts, hs => ∃ own older, hs = own ++ older ∧ older.length = a.excBase ∧
      Owned okH acts.length a.f own ∧ top a own.length ∧
      Layered (fun a n ↦ okA a.f a.pc n) acts older

/-- The layers of a machine; while an exception is pending the top frame does not go on. -/
def Ctl.Layered (c : Ctl) : Prop :=
  JelloVM.Layered okH okA (fun a n ↦ c.store.excPending = false → okA a.f a.pc n) c.acts c.handlers

/-- What is asked of an instruction at `pc` of `f`, in a frame with the handlers `own`; its first
operand is `v`, and a tail call leads to `target`. -/
structure Flow (ex : Exec) (v : UInt32) (target : Option ℕ) (f pc : ℕ) (own : List ExcHandler)
    (ins : JelloInsn) : Prop where
  next : ins.op.isPlain = true ∨ ins.op = .call ∨ ins.op = .callr → (ins.op = .jmpIf → v = 0) →
    okA f (pc + 1) own.length
  jump : ∀ npc, (ex.func f).jumpsTo pc ins v = some npc → okA f npc own.length
  try_ : ins.op = .try_ → ∀ catchPc,
    jumpTarget (pc + 1) ins.imm (ex.func f).ninsns = some catchPc →
      (∀ i, okH f own.length ⟨i, catchPc, ins.ra, ins.b != 0⟩) ∧ okA f (pc + 1) (own.length + 1)
  endtry : ins.op = .endtry → ∀ k, own.length = k + 1 → okA f (pc + 1) k
  tail : ∀ g, target = some g → g < ex.m.funcs.length →
    ∀ i, Owned okH i f own → Owned okH i g own ∧ okA g 0 own.length

end Layers

section Dispatch

variable {okH : ℕ → ℕ → ExcHandler → Prop} {okA : ℕ → ℕ → ℕ → Prop} {top : Act → ℕ → Prop}
  {a : Act} {acts : List Act} {h : ExcHandler} {hs : List ExcHandler} {i f : ℕ}

theorem Owned.frameIndex (ho : Owned okH i f hs) (hh : h ∈ hs) : h.frameIndex = i := by
  induction hs with
  | nil => exact absurd hh List.not_mem_nil
  | cons g hs ih =>
    obtain rfl | hmem := List.mem_cons.mp hh
    · exact ho.1
    · exact ih ho.2.2 hmem

theorem Owned.below {pre rest : List ExcHandler} (ho : Owned okH i f (pre ++ h :: rest)) :
    okH f rest.length h ∧ Owned okH i f rest := by
  induction pre with
  | nil => exact ho.2
  | cons g pre ih => exact ih ho.2.2

theorem Layered.frameIndex_lt (hl : Layered okH okA top acts hs) (hh : h ∈ hs) :
    h.frameIndex < acts.length := by
  induction acts generalizing hs top with
  | nil =>
    obtain rfl : hs = [] := hl
    exact absurd hh List.not_mem_nil
  | cons a acts ih =>
    obtain ⟨own, older, rfl, -, hown, -, hrest⟩ := hl
    rw [List.length_cons]
    obtain hmem | hmem := List.mem_append.mp hh
    · rw [hown.frameIndex hmem]
      omega
    · have := ih hrest hmem
      omega

theorem willing_suffix {code : TrapCode} {rest : List ExcHandler}
    (hw : willing code hs = some (h, rest)) : ∃ pre, hs = pre ++ h :: rest := by
  induction hs with
  | nil => simp [willing] at hw
  | cons g hs ih =>
    simp only [willing] at hw
    split_ifs at hw with hc
    · obtain ⟨pre, rfl⟩ := ih hw
      exact ⟨g :: pre, rfl⟩
    · obtain ⟨rfl, rfl⟩ : g = h ∧ hs = rest := by simpa using hw
      exact ⟨[], rfl⟩

theorem append_cons_cases {pre own older : List ExcHandler} (heq : pre ++ h :: hs = own ++ older) :
    (∃ rest, own = pre ++ h :: rest ∧ hs = rest ++ older) ∨
      ∃ mid, older = mid ++ h :: hs := by
  obtain ⟨mid, hown, hmid⟩ | ⟨mid, -, holder⟩ := List.append_eq_append_iff.mp heq
  · cases mid with
    | nil => exact .inr ⟨[], hmid.symm⟩
    | cons g mid =>
      obtain ⟨rfl, rfl⟩ : h = g ∧ hs = mid ++ older := by simpa using hmid
      exact .inl ⟨mid, hown, rfl⟩
  · exact .inr ⟨mid, holder⟩

/-- Unwinding to a handler leaves the layers below it, with the frame of the handler on top. -/
theorem Layered.unwound {pre hs' : List ExcHandler} {acts' : List Act}
    (hl : Layered okH okA top acts (pre ++ h :: hs))
    (hun : unwound h.frameIndex acts hs = (a :: acts', hs')) :
    Layered okH okA (fun a n ↦ okH a.f n h) (a :: acts') hs' := by
  induction acts generalizing pre top with
  | nil =>
    have hnil : pre ++ h :: hs = [] := hl
    simp at hnil
  | cons b acts ih =>
    obtain ⟨own, older, heq, hbase, hown, -, hrest⟩ := hl
    obtain ⟨rest, rfl, rfl⟩ | ⟨mid, rfl⟩ := append_cons_cases heq
    · have hidx : h.frameIndex = acts.length := hown.frameIndex (by simp)
      obtain ⟨hok, hbelow⟩ := hown.below
      rw [JelloVM.unwound, if_neg (by omega)] at hun
      obtain ⟨⟨rfl, rfl⟩, rfl⟩ : (b = a ∧ acts = acts') ∧ rest ++ older = hs' := by simpa using hun
      exact ⟨rest, older, rfl, hbase, hbelow, hok, hrest⟩
    · have hlt : h.frameIndex < acts.length := hrest.frameIndex_lt (by simp)
      have hkeep : hs.dropWhile (fun g ↦ g.frameIndex == acts.length) = hs := by
        cases hs with
        | nil => rfl
        | cons g hs =>
          have hg : g.frameIndex < acts.length := hrest.frameIndex_lt (by simp)
          rw [List.dropWhile_cons_of_neg]
          simp only [beq_iff_eq]
          omega
      rw [JelloVM.unwound, if_pos hlt, hkeep] at hun
      exact ih hrest hun

theorem Layered.mono_top {top' : Act → ℕ → Prop} (hl : Layered okH okA top acts hs)
    (htop : ∀ a n, top a n → top' a n) : Layered okH okA top' acts hs := by
  cases acts with
  | nil => exact hl
  | cons a acts =>
    obtain ⟨own, older, heq, hbase, hown, ha, hrest⟩ := hl
    exact ⟨own, older, heq, hbase, hown, htop a _ ha, hrest⟩

/-- The head of the loop keeps the layers: a handler that catches was put there for its place. -/
theorem Dispatched.layered {c c' : Ctl} (hd : Dispatched c c')
    (hcatch : ∀ f k h, okH f k h → okA f h.catchPc k) (hl : c.Layered okH okA) :
    c'.Layered okH okA ∧ c'.store.excPending = false := by
  cases hd with
  | calm hno => exact ⟨hl, hno⟩
  | caught hpending hwilling hunwound hidx hcaught =>
    obtain ⟨pre, hpre⟩ := willing_suffix hwilling
    have hlay := hl
    rw [Ctl.Layered, hpre] at hlay
    obtain ⟨own, older, heq, hbase, hown, hok, hrest⟩ := hlay.unwound hunwound
    exact ⟨⟨own, older, heq, hbase, hown, fun _ ↦ hcatch _ _ _ hok, hrest⟩, hcaught.pending⟩

end Dispatch

section Step

variable {okH : ℕ → ℕ → ExcHandler → Prop} {okA : ℕ → ℕ → ℕ → Prop} {ex : Exec} {lbl : Bool}
  {vm : VM} {a : Act} {acts : List Act} {hs : List ExcHandler} {s : Store} {ins : JelloInsn}
  {r : OpResult} {c' : Ctl}

def ownHandlers (a : Act) (hs : List ExcHandler) : List ExcHandler :=
  hs.take (hs.length - a.excBase)

theorem ownHandlers_append {own older : List ExcHandler} (hbase : older.length = a.excBase) :
    ownHandlers a (own ++ older) = own := by
  rw [ownHandlers, List.length_append, hbase, Nat.add_sub_cancel, List.take_left]

theorem Layered.returned {top : Act → ℕ → Prop} (hl : Layered okH okA top (a :: acts) hs) :
    Layered okH okA (fun a n ↦ okA a.f a.pc n) acts (hs.drop (hs.length - a.excBase)) := by
  obtain ⟨own, older, rfl, hbase, -, -, hrest⟩ := hl
  rw [List.length_append, ← hbase, Nat.add_sub_cancel, List.drop_left]
  exact hrest

theorem Effect.layered (he : Effect ex lbl vm a.pc ins r
      ⟨{ a with pc := a.pc + 1 } :: acts, hs, s⟩ c')
    (hl : Layered okH okA (fun a n ↦ okA a.f a.pc n) (a :: acts) hs)
    (hflow : Flow okH okA ex (vm.operandA ins) (vm.tailTarget ins) a.f a.pc (ownHandlers a hs)
      ins)
    (hentry : ∀ f, f < ex.m.funcs.length → okA f 0 0) : c'.Layered okH okA := by
  have hl' := hl
  obtain ⟨own, older, heq, hbase, hown, hok, hrest⟩ := hl'
  rw [heq, ownHandlers_append hbase] at hflow
  have hcall (hop : ins.op = .call ∨ ins.op = .callr) : okA a.f (a.pc + 1) own.length := by
    refine hflow.next (.inr hop) fun hif ↦ ?_
    rw [hif] at hop
    exact absurd hop (by decide)
  have hkeep {pc : ℕ} {s' : Store} (hpc : s'.excPending = false → okA a.f pc own.length) :
      Ctl.Layered okH okA ⟨{ a with pc := pc } :: acts, hs, s'⟩ :=
    ⟨own, older, heq, hbase, hown, hpc, hrest⟩
  have hraised {pc : ℕ} {s' : Store} (h : s'.excPending = true) :
      Ctl.Layered okH okA ⟨{ a with pc := pc } :: acts, hs, s'⟩ :=
    hkeep fun hno ↦ absurd (h.symm.trans hno) Bool.noConfusion
  cases he with
  | stay hop hno _ _ => exact hkeep fun _ ↦ hflow.next (.inl hop) hno
  | noFuel _ _ htrap => exact hraised htrap.pending
  | raise _ _ _ _ hpending _ _ => exact hraised hpending
  | jump npc hto _ => exact hkeep fun _ ↦ hflow.jump npc hto
  | try_ catchPc hop hto =>
    obtain ⟨hh, hpc⟩ := hflow.try_ hop catchPc hto
    exact ⟨_ :: own, older, by rw [heq]; rfl, hbase, ⟨rfl, hh _, hown⟩, fun _ ↦ hpc, hrest⟩
  | @endtry _ _ h hs' _ hop hidx =>
    cases own with
    | nil =>
      -- the handlers below belong to frames below
      have hmem : h ∈ older := by
        rw [← List.nil_append older, ← heq]
        exact List.mem_cons_self
      have hlt := hrest.frameIndex_lt hmem
      omega
    | cons g own =>
      obtain ⟨rfl, rfl⟩ : h = g ∧ hs' = own ++ older := by simpa using heq
      exact ⟨own, older, rfl, hbase, hown.2.2, fun _ ↦ hflow.endtry hop _ rfl, hrest⟩
  | native hop _ _ => exact hkeep fun _ ↦ hcall hop
  | refused _ _ _ _ htrap => exact hraised htrap.pending
  | push f dst hop hf _ _ =>
    exact ⟨[], hs, rfl, rfl, trivial, fun _ ↦ hentry f hf, own, older, heq, hbase, hown,
      hcall hop, hrest⟩
  | tail f hop hto hf _ =>
    obtain ⟨hown', hpc⟩ := hflow.tail f hto hf _ hown
    exact ⟨own, older, heq, hbase, hown', fun _ ↦ hpc, hrest⟩
  | noTail _ _ _ hpending => exact hraised hpending
  | nativeTail _ _ _ _ _ _ _ => exact hl.returned.mono_top fun _ _ h _ ↦ h
  | ret _ _ _ _ _ => exact hl.returned.mono_top fun _ _ h _ ↦ h
  | finish _ _ _ _ => rfl

end Step

section Start

variable {ex : Exec} {vm : VM}

/-- The state of a machine whose run has just started. -/
structure Started (ex : Exec) (vm : VM) : Prop where
  acts : ∃ f, f < ex.m.funcs.length ∧ vm.ctl.acts = [⟨f, 0, 0, 0, false, false⟩]
  handlers : vm.excHandlers = []
  pending : vm.store.excPending = false
  fuel : vm.store.fuelRemaining = vm.store.fuelLimit

theorem ends_resetRun {Q : Unit → VM → Prop}
    (hQ : ∀ vm', vm'.callFrames = [] → vm'.excHandlers = [] → vm'.store.excPending = false →
      vm'.store.fuelRemaining = vm'.store.fuelLimit → Q () vm') : Ends (resetRun ex) Q vm :=
  (spec_change _).mpr (hQ _ rfl rfl rfl rfl)

theorem started_of_push {f : ℕ} {vm' : VM} (hf : f < ex.m.funcs.length)
    (hfrs : vm.callFrames = []) (hhs : vm.excHandlers = []) (hno : vm.store.excPending = false)
    (hfuel : vm.store.fuelRemaining = vm.store.fuelLimit)
    (h : NowActs (⟨f, 0, 0, vm.excHandlers.length, false, false⟩ :: vm.ctl.acts) vm vm') :
    Started ex vm' := by
  have hacts : vm'.ctl.acts = [⟨f, 0, 0, 0, false, false⟩] := by
    rw [h.acts, hhs]
    simp only [VM.ctl, hfrs]
    rfl
  refine ⟨⟨f, hf, hacts⟩, h.handlers.trans hhs, h.store.trap.pending.trans hno, ?_⟩
  rw [h.store.fuelRemaining, h.store.fuelLimit]
  exact hfuel

theorem ends_vmPushFrameEntry_ctl (f : ℕ) (funobj : Option JelloFunction)
    (args : List JelloValue) : Ends (vmPushFrameEntry ex f funobj args) (fun b vm' ↦ b = true →
      NowActs (⟨f, 0, 0, vm.excHandlers.length, false, false⟩ :: vm.ctl.acts) vm vm') vm := by
  simp only [vmPushFrameEntry, spec_bind, spec_read, id, spec_ite, spec_pure]
  refine ⟨fun _ ↦ ends_iff.mpr fun _ _ _ h ↦ Bool.noConfusion h, fun _ ↦ ⟨fun _ ↦ spec_fail _,
    fun _ ↦ ends_sameCtl keeps_resetFrameStack fun _ vm₁ h₁ ↦ ?_⟩⟩
  refine (ends_pushFreshFrame_ctl f 0 false false).mono fun rf vm₂ h₂ ↦ ?_
  have hargs : Keeps (fun _ ↦ True) Still (loop (fun i ↦
      vmStoreFromBoxed ex.m ex.fpu f rf i (args.getD i 0)) 0 args.length) :=
    keeps_loop _ _ fun _ _ _ ↦ still_unbox _ _ _ _ _ _
  have hpush := h₁.nowActs h₂
  rw [h₁.handlers, h₁.acts] at hpush
  refine ⟨fun _ ↦ ?_, fun _ ↦ ?_⟩
  · exact ends_sameCtl (keeps_onStore (keeps_vmInitClosureArgsFromValues _ _)) fun _ vm₃ h₃ _ ↦
      hpush.then h₃
  · exact ends_sameCtl (keeps_onStore hargs) fun _ vm₃ h₃ _ ↦ hpush.then h₃

/-- Every run starts in one frame, at its first instruction and without handlers. -/
theorem Starts.started (hentry : ex.m.entry < ex.m.funcs.length) (h : Starts ex vm) :
    Started ex vm := by
  cases h with
  | entry vm₀ h =>
    have hends : Ends (execEntry ex) (fun b vm' ↦ b = true → Started ex vm') vm₀ := by
      refine spec_bind.mpr (ends_resetRun fun vm₁ hfrs hhs hno hfuel ↦ ?_)
      refine (ends_vmPushFrame_ctl _ _ _ _ _ _ _ _).mono fun b vm₂ h₂ hb ↦ ?_
      subst hb
      exact started_of_push hentry hfrs hhs hno hfuel h₂
    exact hends.of_result h rfl
  | chunk vm₀ f args h =>
    have hends : Ends (execChunk ex f args) (fun b vm' ↦ b = true → Started ex vm') vm₀ := by
      refine spec_ite.mpr ⟨fun _ ↦ spec_fail _, fun hf ↦ spec_bind.mpr ?_⟩
      refine ends_resetRun fun vm₁ hfrs hhs hno hfuel ↦ ?_
      refine (ends_vmPushFrameEntry_ctl _ _ _).mono fun b vm₂ h₂ hb ↦ ?_
      exact started_of_push (by omega) hfrs hhs hno hfuel (h₂ hb)
    exact hends.of_result h rfl
  | closure vm₀ fn args h =>
    have hends : Ends (execClosure ex fn args) (fun b vm' ↦ b = true → Started ex vm') vm₀ := by
      refine spec_bind.mpr (ends_resetRun fun vm₁ hfrs hhs hno hfuel ↦ ?_)
      refine spec_ite.mpr ⟨fun _ ↦ (spec_pure _).mpr fun h ↦ Bool.noConfusion h, fun _ ↦
        spec_ite.mpr ⟨fun _ ↦ (spec_pure _).mpr fun h ↦ Bool.noConfusion h, fun hf ↦ ?_⟩⟩
      refine (ends_vmPushFrameEntry_ctl _ _ _).mono fun b vm₂ h₂ hb ↦ ?_
      exact started_of_push (by omega) hfrs hhs hno hfuel (h₂ hb)
    exact hends.of_result h rfl

end Start

section Runs

variable {okH : ℕ → ℕ → ExcHandler → Prop} {okA : ℕ → ℕ → ℕ → Prop} {ex : Exec}
  {reference : Bool} {build : Build} {P : VM → Prop} {vm vm₁ vm₂ : VM}

theorem Started.layered (h : Started ex vm) (hentry : ∀ f, f < ex.m.funcs.length → okA f 0 0) :
    vm.ctl.Layered okH okA := by
  obtain ⟨f, hf, hacts⟩ := h.acts
  have hhs : vm.ctl.handlers = [] := h.handlers
  rw [Ctl.Layered, hacts, hhs]
  exact ⟨[], [], rfl, rfl, trivial, fun _ ↦ hentry f hf, rfl⟩

theorem tailTarget_fetched (vm : VM) (ins : JelloInsn) :
    vm.fetched.tailTarget ins = vm.tailTarget ins := by
  unfold VM.fetched
  split
  · rfl
  · next fr frs hfr =>
    unfold VM.tailTarget
    rw [hfr]
    cases ins.op <;> rfl

theorem operandA_fetched (vm : VM) (ins : JelloInsn) :
    vm.fetched.operandA ins = vm.operandA ins := by
  unfold VM.fetched
  split
  · rfl
  · next fr frs hfr => simp only [VM.operandA, hfr]

/-- The instructions that a run may execute keep the layers. -/
structure Flows (okH : ℕ → ℕ → ExcHandler → Prop) (okA : ℕ → ℕ → ℕ → Prop) (ex : Exec)
    (P : VM → Prop) : Prop where
  entry : ∀ f, f < ex.m.funcs.length → okA f 0 0
  catch_ : ∀ f k h, okH f k h → okA f h.catchPc k
  flow : ∀ {vm : VM} {a : Act} {acts : List Act} {ins : JelloInsn}, P vm →
    vm.ctl.acts = a :: acts → vm.nextInsn ex = some ins →
    okA a.f a.pc (ownHandlers a vm.excHandlers).length →
    Owned okH acts.length a.f (ownHandlers a vm.excHandlers) →
    Flow okH okA ex (vm.operandA ins) (vm.tailTarget ins) a.f a.pc
      (ownHandlers a vm.excHandlers) ins

theorem Layered.top_ok {top : Act → ℕ → Prop} {a : Act} {acts : List Act} {hs : List ExcHandler}
    (hl : Layered okH okA top (a :: acts) hs) :
    top a (ownHandlers a hs).length ∧ Owned okH acts.length a.f (ownHandlers a hs) := by
  obtain ⟨own, older, rfl, hbase, hown, hok, -⟩ := hl
  rw [ownHandlers_append hbase]
  exact ⟨hok, hown⟩

theorem layered_head (hflows : Flows okH okA ex P) (hl : vm.ctl.Layered okH okA)
    (hhead : result (checkExc ex) vm = .ok (none, vm₁)) :
    vm₁.ctl.Layered okH okA ∧ vm₁.store.excPending = false :=
  ((ends_checkExc_ctl.of_result hhead) rfl).1.layered hflows.catch_ hl

theorem layered_body (hflows : Flows okH okA ex P) (hl : vm₁.ctl.Layered okH okA)
    (hno : vm₁.store.excPending = false) (hP : P vm₁) {st : Option ExecStatus}
    (hbody : result (execInsn ex reference build) vm₁ = .ok (st, vm₂)) :
    vm₂.ctl.Layered okH okA := by
  obtain ⟨r, -, hround⟩ := ends_execInsn.of_result hbody
  cases hround with
  | @step a acts ins hacts hins heffect =>
    have htop : Layered okH okA (fun a n ↦ okA a.f a.pc n) (a :: acts) vm₁.excHandlers := by
      rw [← hacts]
      exact Layered.mono_top hl fun _ _ h ↦ h hno
    have hflow := hflows.flow hP hacts hins htop.top_ok.1 htop.top_ok.2
    rw [← tailTarget_fetched, ← operandA_fetched] at hflow
    exact heffect.layered htop hflow hflows.entry

/-- In every run that keeps to `P` the handlers lie in layers. -/
theorem Run.layered (hflows : Flows okH okA ex P) (hentry : ex.m.entry < ex.m.funcs.length)
    (h : Run ex reference build P vm) : vm.ctl.Layered okH okA := by
  induction h with
  | start h => exact (h.started hentry).layered hflows.entry
  | round _ hhead hP hbody ih =>
    obtain ⟨hl, hno⟩ := layered_head hflows ih hhead
    exact layered_body hflows hl hno hP hbody

theorem Fetches.layered (hflows : Flows okH okA ex P) (hentry : ex.m.entry < ex.m.funcs.length)
    (h : Fetches ex reference build P vm₁) :
    vm₁.ctl.Layered okH okA ∧ vm₁.store.excPending = false := by
  obtain ⟨vm, hrun, hhead⟩ := h
  exact layered_head hflows (hrun.layered hflows hentry) hhead

end Runs

end JelloVM
