import JelloVM.Layers
import JelloVM.Validated

namespace JelloVM

open ByteMemory Logged

section Shape

variable {okH : ℕ → ℕ → ExcHandler → Prop} {okA : ℕ → ℕ → ℕ → Prop} {top : Act → ℕ → Prop}
  {a : Act} {acts : List Act} {h : ExcHandler} {hs : List ExcHandler} {i j : ℕ}

theorem Layered.excBase_le (hl : Layered okH okA top acts hs) (ha : a ∈ acts) :
    a.excBase ≤ hs.length := by
  induction acts generalizing hs top with
  | nil => exact absurd ha List.not_mem_nil
  | cons b acts ih =>
    obtain ⟨own, older, rfl, hbase, -, -, hrest⟩ := hl
    rw [List.length_append]
    obtain rfl | hmem := List.mem_cons.mp ha
    · omega
    · have := ih hrest hmem
      omega

theorem Owned.ok {f : ℕ} (ho : Owned okH i f hs) (hh : h ∈ hs) : ∃ k, okH f k h := by
  obtain ⟨pre, rest, rfl⟩ := List.append_of_mem hh
  exact ⟨_, ho.below.1⟩

theorem Layered.handler (hl : Layered okH okA top acts hs) (hh : h ∈ hs) :
    ∃ a k, acts.reverse[h.frameIndex]? = some a ∧ okH a.f k h := by
  induction acts generalizing hs top with
  | nil =>
    obtain rfl : hs = [] := hl
    exact absurd hh List.not_mem_nil
  | cons b acts ih =>
    obtain ⟨own, older, rfl, -, hown, -, hrest⟩ := hl
    rw [List.reverse_cons]
    obtain hmem | hmem := List.mem_append.mp hh
    · obtain ⟨k, hk⟩ := hown.ok hmem
      refine ⟨b, k, ?_, hk⟩
      rw [hown.frameIndex hmem, List.getElem?_append_right (by simp)]
      simp
    · obtain ⟨a, k, ha, hk⟩ := ih hrest hmem
      refine ⟨a, k, ?_, hk⟩
      rw [List.getElem?_append_left (by simpa using hrest.frameIndex_lt hmem)]
      exact ha

theorem Layered.ordered (hl : Layered okH okA top acts hs) :
    hs.Pairwise fun g h ↦ h.frameIndex ≤ g.frameIndex := by
  induction acts generalizing hs top with
  | nil =>
    obtain rfl : hs = [] := hl
    exact List.Pairwise.nil
  | cons b acts ih =>
    obtain ⟨own, older, rfl, -, hown, -, hrest⟩ := hl
    refine List.pairwise_append.mpr ⟨?_, ih hrest, fun g hg h hh ↦ ?_⟩
    · refine List.Pairwise.imp_of_mem (fun hg hh _ ↦ ?_) (List.pairwise_of_forall fun _ _ ↦ trivial)
      rw [hown.frameIndex hg, hown.frameIndex hh]
    · rw [hown.frameIndex hg]
      exact (hrest.frameIndex_lt hh).le

/-- Where the handlers of frame `i` start; those of the top frame go up to the end. -/
def baseAt (acts : List Act) (hs : List ExcHandler) (i : ℕ) : ℕ :=
  match acts.reverse[i]? with
  | some a => a.excBase
  | none => hs.length

/-- The handlers of a frame are those from its base up to the base of the next frame. -/
theorem Layered.ranges (hl : Layered okH okA top acts hs) (ha : acts.reverse[i]? = some a)
    (hh : hs.reverse[j]? = some h) :
    h.frameIndex = i ↔ a.excBase ≤ j ∧ j < baseAt acts hs (i + 1) := by
  induction acts generalizing hs top with
  | nil => simp at ha
  | cons b acts ih =>
    obtain ⟨own, older, rfl, hbase, hown, -, hrest⟩ := hl
    have hj : j < (own ++ older).length := by
      have := (List.getElem?_eq_some_iff.mp hh).1
      rwa [List.length_reverse] at this
    have hi : i < acts.length + 1 := by
      have := (List.getElem?_eq_some_iff.mp ha).1
      rwa [List.length_reverse] at this
    rw [List.reverse_append] at hh
    rw [List.reverse_cons] at ha
    -- the place of the handler in its list, and the place of the frame in its own
    have hside : (j < older.length ∧ older.reverse[j]? = some h) ∨
        (older.length ≤ j ∧ h.frameIndex = acts.length) := by
      by_cases hlt : j < older.length
      · rw [List.getElem?_append_left (by simpa using hlt)] at hh
        exact .inl ⟨hlt, hh⟩
      · rw [List.getElem?_append_right (by simpa using hlt)] at hh
        exact .inr ⟨by omega, hown.frameIndex (List.mem_reverse.mp (List.mem_of_getElem? hh))⟩
    by_cases hlast : i = acts.length
    · subst hlast
      have hab : b = a := by
        rw [List.getElem?_append_right (by simp)] at ha
        simpa using ha
      subst hab
      have hend : baseAt (b :: acts) (own ++ older) (acts.length + 1) = (own ++ older).length := by
        simp [baseAt]
      rw [hend]
      obtain ⟨hlt, hold⟩ | ⟨hge, hidx⟩ := hside
      · have := hrest.frameIndex_lt (List.mem_reverse.mp (List.mem_of_getElem? hold))
        omega
      · omega
    · have ha' : acts.reverse[i]? = some a := by
        rwa [List.getElem?_append_left (by rw [List.length_reverse]; omega)] at ha
      have hbaseAt : baseAt (b :: acts) (own ++ older) (i + 1) = baseAt acts older (i + 1) := by
        unfold baseAt
        rw [List.reverse_cons]
        by_cases hnext : i + 1 < acts.length
        · rw [List.getElem?_append_left (by rw [List.length_reverse]; omega)]
          have hsome : ∃ c, acts.reverse[i + 1]? = some c :=
            ⟨_, List.getElem?_eq_getElem (by rw [List.length_reverse]; omega)⟩
          obtain ⟨c, hc⟩ := hsome
          rw [hc]
        · have heq : i + 1 = acts.length := by omega
          rw [heq, List.getElem?_append_right (by simp)]
          simp [hbase]
      rw [hbaseAt]
      obtain ⟨-, hold⟩ | ⟨hge, hidx⟩ := hside
      · exact ih hrest ha' hold
      · have hle : baseAt acts older (i + 1) ≤ older.length := by
          unfold baseAt
          split
          · next c hc =>
            exact hrest.excBase_le (List.mem_reverse.mp (List.mem_of_getElem? hc))
          · exact le_rfl
        omega

end Shape

/-- `pc` is where a `TRY` of the function leads when it catches. -/
def JelloBcFunction.IsTryTarget (fn : JelloBcFunction) (pc : ℕ) : Prop :=
  ∃ q ins, fn.insns[q]? = some ins ∧ ins.op = .try_ ∧
    jumpTarget (q + 1) ins.imm fn.ninsns = some pc

/-- The handler fits the function: its target is one of a `TRY`, its register is Dynamic. -/
structure HandlerOf (ex : Exec) (f : ℕ) (h : ExcHandler) : Prop where
  target : (ex.func f).IsTryTarget h.catchPc
  lt : h.dstReg < (ex.func f).nregs
  dynamic : regKind ex.m f h.dstReg = .dynamic

/-- The handlers of a machine, which has its stacks with the top first, are valid. -/
structure HandlersValid (ex : Exec) (vm : VM) : Prop where
  live : ∀ h ∈ vm.excHandlers, h.frameIndex < vm.callFrames.length
  fits : ∀ h ∈ vm.excHandlers, ∀ fr, vm.frameAt h.frameIndex = some fr → HandlerOf ex fr.f h
  ordered : vm.excHandlers.Pairwise fun g h ↦ h.frameIndex ≤ g.frameIndex
  ranges : ∀ i fr, vm.frameAt i = some fr → ∀ j h, vm.excHandlers.reverse[j]? = some h →
    (h.frameIndex = i ↔ fr.excBase ≤ j ∧
      j < ((vm.frameAt (i + 1)).map CallFrame.excBase).getD vm.excHandlers.length)

/-- A tail call leads to a function that the handlers of the frame fit. -/
def TailKeepsHandlers (ex : Exec) (vm : VM) : Prop :=
  ∀ ins g, vm.nextInsn ex = some ins → vm.tailTarget ins = some g →
    ∀ h ∈ vm.excHandlers, h.frameIndex + 1 = vm.callFrames.length → HandlerOf ex g h

section Valid

variable {ex : Exec} {reference : Bool} {build : Build} {vm : VM}

theorem reverse_acts (vm : VM) (i : ℕ) :
    vm.ctl.acts.reverse[i]? = (vm.frameAt i).map CallFrame.act := by
  rw [VM.ctl, VM.frameAt, ← List.map_reverse, List.getElem?_map]

theorem Ctl.Layered.handlersValid {okA : ℕ → ℕ → ℕ → Prop}
    (hl : vm.ctl.Layered (fun f _ ↦ HandlerOf ex f) okA) : HandlersValid ex vm := by
  have hlen : vm.ctl.acts.length = vm.callFrames.length := List.length_map _
  refine ⟨fun h hh ↦ ?_, fun h hh fr hfr ↦ ?_, Layered.ordered hl, fun i fr hfr j h hh ↦ ?_⟩
  · rw [← hlen]
    exact Layered.frameIndex_lt hl hh
  · obtain ⟨a, -, ha, hok⟩ := Layered.handler hl hh
    rw [reverse_acts, hfr, Option.map_some, Option.some.injEq] at ha
    rw [← ha] at hok
    exact hok
  · have ha : vm.ctl.acts.reverse[i]? = some fr.act := by rw [reverse_acts, hfr]; rfl
    have hbase : baseAt vm.ctl.acts vm.ctl.handlers (i + 1) =
        ((vm.frameAt (i + 1)).map CallFrame.excBase).getD vm.excHandlers.length := by
      unfold baseAt
      rw [reverse_acts]
      cases vm.frameAt (i + 1) with
      | none => rfl
      | some g => rfl
    rw [← hbase]
    exact Layered.ranges hl ha hh

theorem func_lt_of_insn {m : JelloBcModule} {f pc : ℕ} {ins : JelloInsn}
    (h : (m.func f).insns[pc]? = some ins) : f < m.funcs.length := by
  by_contra hge
  have hnone : m.func f = default := by
    simp [JelloBcModule.func, List.getElem?_eq_none (Nat.not_lt.mp hge)]
  have hnil : (default : JelloBcFunction).insns = [] := rfl
  rw [hnone, hnil] at h
  simp at h

/-- The loader lets a `TRY` catch only into a Dynamic register. -/
theorem handlerOf_try (hm : Accepted ex.m) {f pc i catchPc : ℕ} {b : Bool} {ins : JelloInsn}
    (hins : (ex.func f).insns[pc]? = some ins) (hop : ins.op = .try_)
    (hto : jumpTarget (pc + 1) ins.imm (ex.func f).ninsns = some catchPc) :
    HandlerOf ex f ⟨i, catchPc, ins.ra, b⟩ := by
  have hcheck := hm.insn (func_mem (func_lt_of_insn hins)) hins
  simp only [jelloBcValidateInsn, hop, verdict_bind_ok, require_ok, regA] at hcheck
  exact ⟨⟨pc, ins, hins, hop, hto⟩, hcheck.1, hcheck.2.1⟩

theorem nextInsn_act {a : Act} {acts : List Act} (hacts : vm.ctl.acts = a :: acts) :
    vm.nextInsn ex = (ex.func a.f).insns[a.pc]? := by
  obtain ⟨fr, frs, hfr, rfl, -⟩ := frames_of_acts hacts
  simp only [VM.nextInsn, hfr]
  rfl

theorem Owned.of_forall {okH : ℕ → ℕ → ExcHandler → Prop} {i f : ℕ} {hs : List ExcHandler}
    (h : ∀ g ∈ hs, g.frameIndex = i ∧ ∀ k, okH f k g) : Owned okH i f hs := by
  induction hs with
  | nil => exact trivial
  | cons g hs ih =>
    have hg := h g List.mem_cons_self
    exact ⟨hg.1, hg.2 _, ih fun x hx ↦ h x (List.mem_cons_of_mem g hx)⟩

theorem acts_length {a : Act} {acts : List Act} (hacts : vm.ctl.acts = a :: acts) :
    acts.length + 1 = vm.callFrames.length := by
  rw [← List.length_cons, ← hacts]
  exact List.length_map _

theorem handlerFlows (hm : Accepted ex.m) :
    Flows (fun f _ ↦ HandlerOf ex f) (fun _ _ _ ↦ True) ex (TailKeepsHandlers ex) where
  entry _ _ := trivial
  catch_ _ _ _ _ := trivial
  flow {vm a acts ins} hP hacts hins _ hown := by
    refine ⟨fun _ _ ↦ trivial, fun _ _ ↦ trivial, fun hop catchPc hto ↦ ⟨fun i ↦ ?_, trivial⟩,
      fun _ _ _ ↦ trivial, fun g hg _ i ho ↦ ⟨Owned.of_forall fun h hh ↦ ⟨ho.frameIndex hh, ?_⟩,
        trivial⟩⟩
    · exact handlerOf_try hm ((nextInsn_act hacts).symm.trans hins) hop hto
    · intro _
      refine hP ins g hins hg h (List.mem_of_mem_take hh) ?_
      rw [hown.frameIndex hh, acts_length hacts]

theorem Accepted.entry_lt {m : JelloBcModule} (hm : Accepted m) : m.entry < m.funcs.length := by
  simp only [Accepted, jelloBcValidate, verdict_bind_ok, require_ok] at hm
  exact hm.1

/-- In a run whose tail calls fit the handlers that are installed, the handlers are valid at the
head of the loop and when an instruction is fetched. -/
theorem handlers_valid (hm : Accepted ex.m)
    (hrun : Run ex reference build (TailKeepsHandlers ex) vm ∨
      Fetches ex reference build (TailKeepsHandlers ex) vm) : HandlersValid ex vm := by
  obtain hrun | hfetch := hrun
  · exact (hrun.layered (handlerFlows hm) hm.entry_lt).handlersValid
  · exact (hfetch.layered (handlerFlows hm) hm.entry_lt).1.handlersValid

end Valid

/-- A protected region that ends with a tail call. -/
def tailTryModule : JelloBcModule :=
  { features := default
    types := [⟨.dynamic, 0⟩]
    sigs := []
    atoms := []
    constI64 := []
    constF64 := []
    constBytes := []
    funcs :=
      [{ regTypes := [0]
         capStart := 0
         insns := [{ op := .try_, a := 0, b := 0, c := 0, imm := 2 },
           { op := .tailcall, a := 0, b := 0, c := 0, imm := 48 },
           { op := .endtry, a := 0, b := 0, c := 0, imm := 0 },
           { op := .ret, a := 0, b := 0, c := 0, imm := 0 }]
         sourceFile := 0
         lines := [] },
       { regTypes := [0]
         capStart := 0
         insns := [{ op := .constNull, a := 0, b := 0, c := 0, imm := 0 },
           { op := .ret, a := 0, b := 0, c := 0, imm := 0 }]
         sourceFile := 0
         lines := [] }]
    entry := 0
    sourceFiles := [] }

/-- The handlers, and the functions of the frames. -/
def VM.handlerView (vm : VM) : List ExcHandler × List ℕ :=
  (vm.excHandlers, vm.callFrames.map CallFrame.f)

theorem tailTry_handler_stale : Accepted tailTryModule ∧
    ∃ vm, Run (Exec.alone tailTryModule) false .switch (fun _ ↦ True) vm ∧
      ¬ HandlersValid (Exec.alone tailTryModule) vm := by
  have hview : (result (runTo (Exec.alone tailTryModule) false .switch 2) jelloVmCreate).toOption.map
      (fun r ↦ (r.1, r.2.handlerView)) =
        some ((true, none), [⟨0, 3, 0, false⟩], [1]) := by decide +kernel
  refine ⟨by decide, ?_⟩
  cases hr : result (runTo (Exec.alone tailTryModule) false .switch 2) jelloVmCreate with
  | error e => simp [hr, Except.toOption] at hview
  | ok r =>
    obtain ⟨st, vm⟩ := r
    simp only [hr, Except.toOption, Option.map_some, Option.some.injEq, Prod.mk.injEq,
      VM.handlerView] at hview
    obtain ⟨rfl, hhs, hfs⟩ := hview
    refine ⟨vm, run_of_runTo hr, fun hvalid ↦ ?_⟩
    obtain ⟨fr, hfr⟩ : ∃ fr, vm.callFrames = [fr] := by
      rw [List.map_eq_singleton_iff] at hfs
      exact ⟨_, hfs.choose_spec.1⟩
    have hf : fr.f = 1 := by simpa [hfr] using hfs
    have hmem : (⟨0, 3, 0, false⟩ : ExcHandler) ∈ vm.excHandlers := by simp [hhs]
    obtain ⟨q, ins, hins, hop, -⟩ := (hvalid.fits _ hmem fr (by simp [VM.frameAt, hfr])).target
    rw [hf] at hins
    have hno : ∀ ins ∈ ((Exec.alone tailTryModule).func 1).insns, ins.op ≠ .try_ := by decide
    exact hno ins (List.mem_of_getElem? hins) hop

/-- Two protected regions, one in a function that the other calls. -/
def nestedTryModule : JelloBcModule :=
  { tailTryModule with
    funcs :=
      [{ regTypes := [0]
         capStart := 0
         insns := [{ op := .try_, a := 0, b := 0, c := 0, imm := 2 },
           { op := .call, a := 0, b := 0, c := 0, imm := 48 },
           { op := .endtry, a := 0, b := 0, c := 0, imm := 0 },
           { op := .ret, a := 0, b := 0, c := 0, imm := 0 }]
         sourceFile := 0
         lines := [] },
       { regTypes := [0]
         capStart := 0
         insns := [{ op := .try_, a := 0, b := 0, c := 0, imm := 2 },
           { op := .constNull, a := 0, b := 0, c := 0, imm := 0 },
           { op := .endtry, a := 0, b := 0, c := 0, imm := 0 },
           { op := .ret, a := 0, b := 0, c := 0, imm := 0 }]
         sourceFile := 0
         lines := [] }] }

def JelloBcModule.NoTail (m : JelloBcModule) : Prop :=
  ∀ fn ∈ m.funcs, ∀ ins ∈ fn.insns, ins.op ≠ .tailcall ∧ ins.op ≠ .tailcallr

instance (m : JelloBcModule) : Decidable m.NoTail := by
  unfold JelloBcModule.NoTail
  infer_instance

theorem nextInsn_mem {ex : Exec} {vm : VM} {ins : JelloInsn} (h : vm.nextInsn ex = some ins) :
    ∃ fn ∈ ex.m.funcs, ins ∈ fn.insns := by
  unfold VM.nextInsn at h
  split at h
  · simp at h
  · next fr frs _ =>
    exact ⟨_, func_mem (func_lt_of_insn h), List.mem_of_getElem? h⟩

theorem nextInsn_mem_zipIdx {ex : Exec} {vm : VM} {fr : CallFrame} {frs : List CallFrame}
    {ins : JelloInsn} (hfr : vm.callFrames = fr :: frs) (h : vm.nextInsn ex = some ins) :
    ex.func fr.f ∈ ex.m.funcs ∧ (ins, fr.pc) ∈ (ex.func fr.f).insns.zipIdx := by
  simp only [VM.nextInsn, hfr] at h
  exact ⟨func_mem (func_lt_of_insn h), List.mk_mem_zipIdx_iff_getElem?.mpr h⟩

theorem jumpsTo_eq_none {fn : JelloBcFunction} {pc : ℕ} {ins : JelloInsn} {v : UInt32}
    (h : ins.op ≠ .jmp ∧ ins.op ≠ .jmpIf ∧ ins.op ≠ .switchKind) :
    fn.jumpsTo pc ins v = none := by
  obtain ⟨hjmp, hif, hswitch⟩ := h
  unfold JelloBcFunction.jumpsTo
  split
  · next heq => exact absurd heq hjmp
  · next heq => exact absurd heq hif
  · next heq => exact absurd heq hswitch
  · rfl

theorem JelloBcModule.NoTail.tailTarget {ex : Exec} {vm : VM} {ins : JelloInsn}
    (hm : ex.m.NoTail) (h : vm.nextInsn ex = some ins) : vm.tailTarget ins = none := by
  obtain ⟨fn, hfn, hins⟩ := nextInsn_mem h
  obtain ⟨htail, htailr⟩ := hm fn hfn ins hins
  unfold VM.tailTarget
  split
  · next heq => exact absurd heq htail
  · next heq => exact absurd heq htailr
  · rfl

theorem JelloBcModule.NoTail.keepsHandlers {ex : Exec} (hm : ex.m.NoTail) (vm : VM) :
    TailKeepsHandlers ex vm := by
  intro ins g hins hg
  rw [hm.tailTarget hins] at hg
  exact Option.noConfusion rfl (heq_of_eq hg)

theorem nestedTry_handlers_valid :
    ∃ vm, Run (Exec.alone nestedTryModule) false .switch
        (TailKeepsHandlers (Exec.alone nestedTryModule)) vm ∧
      vm.excHandlers.length = 2 ∧ HandlersValid (Exec.alone nestedTryModule) vm := by
  have hview : (result (runTo (Exec.alone nestedTryModule) false .switch 3)
      jelloVmCreate).toOption.map (fun r ↦ (r.1, r.2.handlerView)) =
        some ((true, none), [⟨1, 3, 0, false⟩, ⟨0, 3, 0, false⟩], [1, 0]) := by decide +kernel
  cases hr : result (runTo (Exec.alone nestedTryModule) false .switch 3) jelloVmCreate with
  | error e => simp [hr, Except.toOption] at hview
  | ok r =>
    obtain ⟨st, vm⟩ := r
    simp only [hr, Except.toOption, Option.map_some, Option.some.injEq, Prod.mk.injEq,
      VM.handlerView] at hview
    obtain ⟨rfl, hhs, -⟩ := hview
    have hno : (Exec.alone nestedTryModule).m.NoTail := by decide
    have hrun := (run_of_runTo hr).mono fun vm _ ↦ hno.keepsHandlers vm
    exact ⟨vm, hrun, by rw [hhs]; rfl, handlers_valid (by decide) (.inl hrun)⟩

end JelloVM
