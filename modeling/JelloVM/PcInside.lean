import JelloVM.TryDepth

namespace JelloVM

open ByteMemory Logged

/-- `pc` is the place of an instruction that may be executed. -/
def JelloBcFunction.Inside (fn : JelloBcFunction) (pc : ℕ) : Prop :=
  pc < fn.ninsns ∧ (fn.insn pc).op ≠ .caseKind

instance (fn : JelloBcFunction) (pc : ℕ) : Decidable (fn.Inside pc) := by
  unfold JelloBcFunction.Inside
  infer_instance

/-- The instructions that go on with the next one when they do not trap. -/
def JelloOp.fallsThrough (op : JelloOp) : Bool :=
  op.isPlain || op == .call || op == .callr || op == .try_ || op == .endtry

/-- The next instruction does not lead out of its function: it is not the last one if it goes on
with the next, a jump that is taken and the catch target of a `TRY` stay inside and off the case
tables, and so do the targets of the handlers that a tail call carries to another function. -/
structure StaysInside (ex : Exec) (vm : VM) : Prop where
  next : ∀ fr frs ins, vm.callFrames = fr :: frs → vm.nextInsn ex = some ins →
    ins.op.fallsThrough = true → (ins.op = .jmpIf → vm.operandA ins = 0) →
    fr.pc + 1 < (ex.func fr.f).ninsns
  jump : ∀ fr frs ins npc, vm.callFrames = fr :: frs → vm.nextInsn ex = some ins →
    (ex.func fr.f).jumpsTo fr.pc ins (vm.operandA ins) = some npc → (ex.func fr.f).Inside npc
  try_ : ∀ fr frs ins catchPc, vm.callFrames = fr :: frs → vm.nextInsn ex = some ins →
    ins.op = .try_ → jumpTarget (fr.pc + 1) ins.imm (ex.func fr.f).ninsns = some catchPc →
    (ex.func fr.f).Inside catchPc
  tail : ∀ ins g, vm.nextInsn ex = some ins → vm.tailTarget ins = some g →
    ∀ h ∈ vm.own, (ex.func g).Inside h.catchPc

def JelloBcModule.NoEmpty (m : JelloBcModule) : Prop := ∀ fn ∈ m.funcs, fn.insns ≠ []

instance (m : JelloBcModule) : Decidable m.NoEmpty := by
  unfold JelloBcModule.NoEmpty
  infer_instance

section Tables

variable {ninsns left tableEnd pc i : ℕ} {insns : List JelloInsn} {x y : JelloInsn}

theorem head_not_case (h : switchKindTables ninsns 0 tableEnd pc (x :: insns) = .ok ()) :
    x.op ≠ .caseKind := by
  intro hop
  unfold switchKindTables at h
  rw [if_neg (by rw [hop]; decide), if_pos hop] at h
  exact Except.noConfusion rfl rfl (heq_of_eq h)

theorem next_not_case (h : switchKindTables ninsns left tableEnd pc insns = .ok ())
    (hi : insns[i]? = some x) (hswitch : x.op ≠ .switchKind) (hcase : x.op ≠ .caseKind)
    (hnext : insns[i + 1]? = some y) : y.op ≠ .caseKind := by
  induction insns generalizing left tableEnd pc i with
  | nil => simp at hi
  | cons z rest ih =>
    cases left with
    | succ left =>
      simp only [switchKindTables, verdict_bind_ok, require_ok] at h
      cases i with
      | zero =>
        obtain rfl : z = x := by simpa using hi
        exact absurd h.1 hcase
      | succ i => exact ih h.2.2 (by simpa using hi) (by simpa using hnext)
    | zero =>
      have hhead := head_not_case h
      unfold switchKindTables at h
      cases i with
      | zero =>
        obtain rfl : z = x := by simpa using hi
        rw [if_neg hswitch, if_neg hcase] at h
        cases rest with
        | nil => simp at hnext
        | cons w rest =>
          obtain rfl : w = y := by simpa using hnext
          exact head_not_case h
      | succ i =>
        split_ifs at h with hop
        · simp only [verdict_bind_ok, require_ok] at h
          exact ih h.2.2 (by simpa using hi) (by simpa using hnext)
        · exact ih h (by simpa using hi) (by simpa using hnext)

theorem Accepted.tables {m : JelloBcModule} {fn : JelloBcFunction} (hm : Accepted m)
    (hfn : fn ∈ m.funcs) : switchKindTables fn.ninsns 0 0 0 fn.insns = .ok () := by
  have hf := hm.function hfn
  simp only [validateFunction, jelloBcValidateFunctionSemantics, validateSwitchKindTables,
    verdict_bind_ok] at hf
  exact hf.2.2.2.1

end Tables

section Inside

variable {ex : Exec} {reference : Bool} {build : Build} {vm : VM} {fn : JelloBcFunction} {pc : ℕ}
  {ins : JelloInsn}

theorem insn_eq (h : fn.insns[pc]? = some ins) : fn.insn pc = ins := by
  simp [JelloBcFunction.insn, h]

theorem Accepted.inside_entry {m : JelloBcModule} (hm : Accepted m) (hne : m.NoEmpty)
    (hfn : fn ∈ m.funcs) : fn.Inside 0 := by
  have htables := hm.tables hfn
  cases hinsns : fn.insns with
  | nil => exact absurd hinsns (hne fn hfn)
  | cons x rest =>
    rw [hinsns] at htables
    have hx : fn.insns[0]? = some x := by
      rw [hinsns]
      rfl
    refine ⟨by simp [JelloBcFunction.ninsns, hinsns], ?_⟩
    rw [insn_eq hx]
    exact head_not_case htables

theorem Accepted.inside_next {m : JelloBcModule} (hm : Accepted m) (hfn : fn ∈ m.funcs)
    (hins : fn.insns[pc]? = some ins) (hswitch : ins.op ≠ .switchKind)
    (hcase : ins.op ≠ .caseKind) (hlt : pc + 1 < fn.ninsns) : fn.Inside (pc + 1) := by
  obtain ⟨y, hy⟩ : ∃ y, fn.insns[pc + 1]? = some y := ⟨_, List.getElem?_eq_getElem hlt⟩
  refine ⟨hlt, ?_⟩
  rw [insn_eq hy]
  exact next_not_case (hm.tables hfn) hins hswitch hcase hy

theorem insideFlows (hm : Accepted ex.m) (hne : ex.m.NoEmpty) :
    Flows (fun f _ h ↦ (ex.func f).Inside h.catchPc) (fun f pc _ ↦ (ex.func f).Inside pc) ex
      (StaysInside ex) where
  entry _ hf := hm.inside_entry hne (func_mem hf)
  catch_ _ _ _ h := h
  flow {vm a acts ins} hP hacts hins hinside hown := by
    have hins' := (nextInsn_act hacts).symm.trans hins
    obtain ⟨fr, frs, hfr, rfl, heq⟩ := ownHandlers_eq hacts
    have hcase : ins.op ≠ .caseKind := by
      rw [← insn_eq hins']
      exact hinside.2
    have hnext (hfall : ins.op.fallsThrough = true)
        (hno : ins.op = .jmpIf → vm.operandA ins = 0) : (ex.func fr.f).Inside (fr.pc + 1) := by
      refine hm.inside_next (func_mem (func_lt_of_insn hins')) hins' ?_ hcase
        (hP.next fr frs ins hfr hins hfall hno)
      intro hswitch
      rw [hswitch] at hfall
      exact Bool.noConfusion hfall
    refine ⟨fun hop hno ↦ hnext ?_ hno, fun npc hto ↦ hP.jump fr frs ins npc hfr hins hto,
      fun hop catchPc hto ↦ ⟨fun _ ↦ hP.try_ fr frs ins catchPc hfr hins hop hto,
        hnext (by rw [hop]; rfl) (by rw [hop]; exact fun h ↦ JelloOp.noConfusion h)⟩,
      fun hop _ _ ↦ hnext (by rw [hop]; rfl) (by rw [hop]; exact fun h ↦ JelloOp.noConfusion h),
      fun g hg hlt i ho ↦ ⟨Owned.of_forall fun h hh ↦ ⟨ho.frameIndex hh, fun _ ↦ ?_⟩, ?_⟩⟩
    · obtain hplain | hcall | hcallr := hop
      · simp [JelloOp.fallsThrough, hplain]
      · rw [hcall]; rfl
      · rw [hcallr]; rfl
    · rw [heq] at hh
      exact hP.tail ins g hins hg h hh
    · exact hm.inside_entry hne (func_mem hlt)

/-- In a run that never leads out of a function, every instruction is fetched inside its function
and none is an entry of a case table. -/
theorem pc_inside (hm : Accepted ex.m) (hne : ex.m.NoEmpty)
    (h : Fetches ex reference build (StaysInside ex) vm) {fr : CallFrame} {frs : List CallFrame}
    (hfr : vm.callFrames = fr :: frs) : (ex.func fr.f).Inside fr.pc := by
  obtain ⟨hl, hno⟩ := h.layered (insideFlows hm hne) hm.entry_lt
  rw [Ctl.Layered, ctl_of_frames hfr] at hl
  exact (Layered.top_ok hl).1 hno

end Inside

def offEndModule : JelloBcModule :=
  { tailTryModule with
    funcs :=
      [{ regTypes := [0]
         capStart := 0
         insns := [{ op := .constNull, a := 0, b := 0, c := 0, imm := 0 }]
         sourceFile := 0
         lines := [] }] }

theorem offEnd_fetch_outside : Accepted offEndModule ∧
    ∃ vm fr, Fetches (Exec.alone offEndModule) false .switch (fun _ ↦ True) vm ∧
      vm.callFrames = [fr] ∧ ¬ ((Exec.alone offEndModule).func fr.f).Inside fr.pc := by
  have hview : (result (fetchAt (Exec.alone offEndModule) false .switch 1)
      jelloVmCreate).toOption.map (fun r ↦ (r.1, r.2.callFrames.map fun fr ↦ (fr.f, fr.pc))) =
      some (((true, none), none), [(0, 1)]) := by decide +kernel
  refine ⟨by decide, ?_⟩
  cases hr : result (fetchAt (Exec.alone offEndModule) false .switch 1) jelloVmCreate with
  | error e => simp [hr, Except.toOption] at hview
  | ok r =>
    obtain ⟨st, vm⟩ := r
    simp only [hr, Except.toOption, Option.map_some, Option.some.injEq, Prod.mk.injEq] at hview
    obtain ⟨rfl, hframes⟩ := hview
    obtain ⟨fr, hfr, hpc⟩ := List.map_eq_singleton_iff.mp hframes
    rw [Prod.mk.injEq] at hpc
    refine ⟨vm, fr, fetches_of_fetchAt hr, hfr, ?_⟩
    rw [hpc.1, hpc.2]
    decide

theorem nestedTry_staysInside (vm : VM) : StaysInside (Exec.alone nestedTryModule) vm := by
  have hcheck : ∀ fn ∈ nestedTryModule.funcs, ∀ p ∈ fn.insns.zipIdx,
      (p.1.op ≠ .jmp ∧ p.1.op ≠ .jmpIf ∧ p.1.op ≠ .switchKind) ∧
      (p.1.op.fallsThrough = true → p.2 + 1 < fn.ninsns) ∧
      (p.1.op = .try_ → (jumpTarget (p.2 + 1) p.1.imm fn.ninsns).all
        (fun q ↦ decide (fn.Inside q)) = true) := by decide
  have hno : (Exec.alone nestedTryModule).m.NoTail := by decide
  refine ⟨fun fr frs ins hfr hins hfall _ ↦ ?_, fun fr frs ins npc hfr hins hto ↦ ?_,
    fun fr frs ins catchPc hfr hins hop hto ↦ ?_, fun ins g hins hg ↦ ?_⟩
  · obtain ⟨hfn, hmem⟩ := nextInsn_mem_zipIdx hfr hins
    exact (hcheck _ hfn _ hmem).2.1 hfall
  · obtain ⟨hfn, hmem⟩ := nextInsn_mem_zipIdx hfr hins
    rw [jumpsTo_eq_none (hcheck _ hfn _ hmem).1] at hto
    exact Option.noConfusion rfl (heq_of_eq hto)
  · obtain ⟨hfn, hmem⟩ := nextInsn_mem_zipIdx hfr hins
    have hall := (hcheck _ hfn _ hmem).2.2 hop
    rw [hto, Option.all_some, decide_eq_true_eq] at hall
    exact hall
  · rw [hno.tailTarget hins] at hg
    exact Option.noConfusion rfl (heq_of_eq hg)

theorem nestedTry_pc_inside :
    ∃ vm fr, Fetches (Exec.alone nestedTryModule) false .switch
        (StaysInside (Exec.alone nestedTryModule)) vm ∧
      vm.callFrames.head? = some fr ∧ fr.f = 1 ∧ fr.pc = 3 ∧
      ((Exec.alone nestedTryModule).func fr.f).Inside fr.pc := by
  have hview : (result (fetchAt (Exec.alone nestedTryModule) false .switch 5)
      jelloVmCreate).toOption.map (fun r ↦ (r.1, r.2.callFrames.map fun fr ↦ (fr.f, fr.pc))) =
      some (((true, none), none), [(1, 3), (0, 2)]) := by decide +kernel
  cases hr : result (fetchAt (Exec.alone nestedTryModule) false .switch 5) jelloVmCreate with
  | error e => simp [hr, Except.toOption] at hview
  | ok r =>
    obtain ⟨st, vm⟩ := r
    simp only [hr, Except.toOption, Option.map_some, Option.some.injEq, Prod.mk.injEq] at hview
    obtain ⟨rfl, hframes⟩ := hview
    obtain ⟨fr, frs, hfr, hpc, -⟩ := List.map_eq_cons_iff.mp hframes
    rw [Prod.mk.injEq] at hpc
    have hfetch := (fetches_of_fetchAt hr).mono fun vm _ ↦ nestedTry_staysInside vm
    refine ⟨vm, fr, hfetch, by rw [hfr]; rfl, hpc.1, hpc.2, ?_⟩
    exact pc_inside (by decide) (by decide) hfetch hfr

end JelloVM
