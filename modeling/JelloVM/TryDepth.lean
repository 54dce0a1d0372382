import JelloVM.Handlers

namespace JelloVM

open ByteMemory Logged

/-- What an instruction does to the depth of protected regions in the text. -/
def depthStep (depth : ℕ) (ins : JelloInsn) : ℕ :=
  if ins.op = .try_ then depth + 1 else if ins.op = .endtry then depth - 1 else depth

/-- How many `TRY` are open before `pc`, in textual order. -/
def JelloBcFunction.tryDepth (fn : JelloBcFunction) (pc : ℕ) : ℕ :=
  (fn.insns.take pc).foldl depthStep 0

/-- The handlers that the top frame has installed. -/
def VM.own (vm : VM) : List ExcHandler :=
  match vm.callFrames with
  | [] => []
  | fr :: _ => vm.excHandlers.take (vm.excHandlers.length - fr.excBase)

/-- The next instruction does not lead into a protected region from outside: a jump that is taken
and the catch target of a `TRY` are no deeper than the frame has handlers, and no handler is
carried by a tail call to a function in which its target is deeper. -/
structure DepthKept (ex : Exec) (vm : VM) : Prop where
  jump : ∀ fr frs ins npc, vm.callFrames = fr :: frs → vm.nextInsn ex = some ins →
    (ex.func fr.f).jumpsTo fr.pc ins (vm.operandA ins) = some npc →
    (ex.func fr.f).tryDepth npc ≤ vm.own.length
  try_ : ∀ fr frs ins catchPc, vm.callFrames = fr :: frs → vm.nextInsn ex = some ins →
    ins.op = .try_ → jumpTarget (fr.pc + 1) ins.imm (ex.func fr.f).ninsns = some catchPc →
    (ex.func fr.f).tryDepth catchPc ≤ vm.own.length
  tail : ∀ ins g, vm.nextInsn ex = some ins → vm.tailTarget ins = some g →
    ∀ pre h rest, vm.own = pre ++ h :: rest → (ex.func g).tryDepth h.catchPc ≤ rest.length

/-- An `ENDTRY` that is executed next finds a handler of its own frame, and takes that one. -/
def EndtryOk (ex : Exec) (vm : VM) : Prop :=
  ∀ ins, vm.nextInsn ex = some ins → ins.op = .endtry →
    ∃ h hs, vm.excHandlers = h :: hs ∧ h.frameIndex + 1 = vm.callFrames.length ∧
      result opEndtry vm.fetched = .ok (.continue_, { vm.fetched with excHandlers := hs })

section Depth

variable {ex : Exec} {reference : Bool} {build : Build} {vm : VM} {fn : JelloBcFunction} {pc : ℕ}
  {ins : JelloInsn}

theorem tryDepth_succ (h : fn.insns[pc]? = some ins) :
    fn.tryDepth (pc + 1) = depthStep (fn.tryDepth pc) ins := by
  rw [JelloBcFunction.tryDepth, List.take_add_one, h, List.foldl_append]
  rfl

theorem depthStep_other {depth : ℕ} (htry : ins.op ≠ .try_) (hend : ins.op ≠ .endtry) :
    depthStep depth ins = depth := by
  rw [depthStep, if_neg htry, if_neg hend]

/-- In textual order no `ENDTRY` comes without its `TRY`. -/
theorem depth_pos_of_linear {insns : List JelloInsn} {depth : ℕ}
    (h : tryStackLinear depth insns = .ok ()) (hi : insns[pc]? = some ins)
    (hop : ins.op = .endtry) : 0 < (insns.take pc).foldl depthStep depth := by
  induction insns generalizing depth pc with
  | nil => simp at hi
  | cons x rest ih =>
    unfold tryStackLinear at h
    cases pc with
    | zero =>
      obtain rfl : x = ins := by simpa using hi
      rw [if_neg (by rw [hop]; decide), if_pos hop, verdict_bind_ok, require_ok] at h
      exact Nat.pos_of_ne_zero h.1
    | succ pc =>
      have hi' : rest[pc]? = some ins := by simpa using hi
      rw [List.take_succ_cons, List.foldl_cons, depthStep]
      split_ifs at h ⊢ with htry hend
      · exact ih h hi'
      · rw [verdict_bind_ok] at h
        exact ih h.2 hi'
      · exact ih h hi'

theorem Accepted.tryDepth_pos {m : JelloBcModule} (hm : Accepted m) (hfn : fn ∈ m.funcs)
    (hi : fn.insns[pc]? = some ins) (hop : ins.op = .endtry) : 0 < fn.tryDepth pc := by
  have hf := hm.function hfn
  simp only [validateFunction, jelloBcValidateFunctionSemantics, validateTryStackLinear,
    verdict_bind_ok] at hf
  exact depth_pos_of_linear hf.2.2.2.2 hi hop

theorem Owned.of_split {okH : ℕ → ℕ → ExcHandler → Prop} {i f : ℕ} {hs : List ExcHandler}
    (hidx : ∀ g ∈ hs, g.frameIndex = i)
    (hok : ∀ pre g rest, hs = pre ++ g :: rest → okH f rest.length g) : Owned okH i f hs := by
  induction hs with
  | nil => exact trivial
  | cons g hs ih =>
    refine ⟨hidx g List.mem_cons_self, hok [] g hs rfl, ih ?_ ?_⟩
    · exact fun x hx ↦ hidx x (List.mem_cons_of_mem g hx)
    · exact fun pre x rest hx ↦ hok (g :: pre) x rest (by rw [hx]; rfl)

theorem ownHandlers_eq {a : Act} {acts : List Act} (hacts : vm.ctl.acts = a :: acts) :
    ∃ fr frs, vm.callFrames = fr :: frs ∧ fr.act = a ∧ ownHandlers a vm.excHandlers = vm.own := by
  cases hfr : vm.callFrames with
  | nil =>
    rw [VM.ctl, hfr] at hacts
    simp at hacts
  | cons fr frs =>
    rw [ctl_of_frames hfr, List.cons.injEq] at hacts
    refine ⟨fr, frs, rfl, hacts.1, ?_⟩
    rw [← hacts.1, VM.own, hfr]
    rfl

theorem depthFlows : Flows (fun f k h ↦ (ex.func f).tryDepth h.catchPc ≤ k)
    (fun f pc n ↦ (ex.func f).tryDepth pc ≤ n) ex (DepthKept ex) where
  entry _ _ := Nat.le_refl 0
  catch_ _ _ _ h := h
  flow {vm a acts ins} hP hacts hins hdepth hown := by
    have hins' := (nextInsn_act hacts).symm.trans hins
    obtain ⟨fr, frs, hfr, rfl, heq⟩ := ownHandlers_eq hacts
    rw [heq] at hdepth ⊢
    refine ⟨fun hop _ ↦ ?_, fun npc hto ↦ hP.jump fr frs ins npc hfr hins hto,
      fun hop catchPc hto ↦ ⟨fun _ ↦ hP.try_ fr frs ins catchPc hfr hins hop hto, ?_⟩,
      fun hop k hk ↦ ?_, fun g hg _ i ho ↦ ⟨?_, Nat.zero_le _⟩⟩
    · rw [tryDepth_succ hins', depthStep_other]
      · exact hdepth
      · intro htry
        simp [htry, JelloOp.isPlain] at hop
      · intro hend
        simp [hend, JelloOp.isPlain] at hop
    · rw [tryDepth_succ hins', depthStep, if_pos hop]
      omega
    · rw [tryDepth_succ hins', depthStep, if_neg (by rw [hop]; decide), if_pos hop]
      omega
    · exact Owned.of_split (fun h hh ↦ ho.frameIndex hh) (hP.tail ins g hins hg)

theorem result_opEndtry {h : ExcHandler} {hs : List ExcHandler} (hhs : vm.excHandlers = h :: hs)
    (hidx : h.frameIndex + 1 = vm.callFrames.length) :
    result opEndtry vm = .ok (.continue_, { vm with excHandlers := hs }) := by
  have hlast : h.frameIndex = vm.callFrames.length - 1 := by omega
  simp only [opEndtry, vmExcPop, result_bind, result_read, Except.bind, hhs, result_change,
    result_pure, hlast, ne_eq, not_true_eq_false, if_false]

/-- In a run that never enters a protected region from outside, every `ENDTRY` finds a handler
that its own frame has installed. -/
theorem endtry_ok (hm : Accepted ex.m) (h : Fetches ex reference build (DepthKept ex) vm) :
    EndtryOk ex vm := by
  intro ins hins hop
  obtain ⟨hl, hno⟩ := h.layered depthFlows hm.entry_lt
  cases hacts : vm.ctl.acts with
  | nil =>
    have hnil : vm.callFrames = [] := List.map_eq_nil_iff.mp hacts
    simp [VM.nextInsn, hnil] at hins
  | cons a acts =>
    have hins' := (nextInsn_act hacts).symm.trans hins
    have hpos := hm.tryDepth_pos (func_mem (func_lt_of_insn hins')) hins' hop
    rw [Ctl.Layered, hacts] at hl
    obtain ⟨own, older, heq, -, hown, hdepth, -⟩ := hl
    have hdepth' : (ex.func a.f).tryDepth a.pc ≤ own.length := hdepth hno
    cases own with
    | nil =>
      rw [List.length_nil] at hdepth'
      exact absurd hdepth' (Nat.not_le.mpr hpos)
    | cons h own =>
      have hhs : vm.excHandlers = h :: (own ++ older) := heq
      have hidx : h.frameIndex + 1 = vm.callFrames.length := by
        rw [hown.1, acts_length hacts]
      refine ⟨h, own ++ older, hhs, hidx, ?_⟩
      have hlen : vm.fetched.callFrames.length = vm.callFrames.length := by
        unfold VM.fetched
        split
        · rfl
        · next fr frs hfr => rw [hfr]; rfl
      refine result_opEndtry ?_ (by rw [hlen, hidx])
      unfold VM.fetched
      split
      · exact hhs
      · exact hhs

end Depth

/-- A jump into a protected region. -/
def intoTryModule : JelloBcModule :=
  { tailTryModule with
    funcs :=
      [{ regTypes := [0]
         capStart := 0
         insns := [{ op := .jmp, a := 0, b := 0, c := 0, imm := 1 },
           { op := .try_, a := 0, b := 0, c := 0, imm := 1 },
           { op := .endtry, a := 0, b := 0, c := 0, imm := 0 },
           { op := .ret, a := 0, b := 0, c := 0, imm := 0 }]
         sourceFile := 0
         lines := [] }] }

theorem intoTry_endtry_panics : Accepted intoTryModule ∧
    ∃ vm, Fetches (Exec.alone intoTryModule) false .switch (fun _ ↦ True) vm ∧
      ¬ EndtryOk (Exec.alone intoTryModule) vm ∧
      faultOf (execInsn (Exec.alone intoTryModule) false .switch) vm = some .panic := by
  have hview : (result (fetchAt (Exec.alone intoTryModule) false .switch 1)
      jelloVmCreate).toOption.map (fun r ↦ (r.1, r.2.excHandlers,
        r.2.nextInsn (Exec.alone intoTryModule),
        faultOf (execInsn (Exec.alone intoTryModule) false .switch) r.2)) =
      some (((true, none), none), [], some { op := .endtry, a := 0, b := 0, c := 0, imm := 0 },
        some .panic) := by decide +kernel
  refine ⟨by decide, ?_⟩
  cases hr : result (fetchAt (Exec.alone intoTryModule) false .switch 1) jelloVmCreate with
  | error e => simp [hr, Except.toOption] at hview
  | ok r =>
    obtain ⟨st, vm⟩ := r
    simp only [hr, Except.toOption, Option.map_some, Option.some.injEq, Prod.mk.injEq] at hview
    obtain ⟨rfl, hhs, hins, hpanic⟩ := hview
    refine ⟨vm, fetches_of_fetchAt hr, fun hok ↦ ?_, hpanic⟩
    obtain ⟨h, hs, hcons, -⟩ := hok _ hins rfl
    rw [hhs] at hcons
    exact List.noConfusion rfl (heq_of_eq hcons)

/-- Without jumps and tail calls, and with catch targets outside all regions, no region is entered
from outside. -/
theorem nestedTry_depthKept (vm : VM) : DepthKept (Exec.alone nestedTryModule) vm := by
  have hcheck : ∀ fn ∈ nestedTryModule.funcs, ∀ p ∈ fn.insns.zipIdx,
      (p.1.op ≠ .jmp ∧ p.1.op ≠ .jmpIf ∧ p.1.op ≠ .switchKind) ∧
      (p.1.op = .try_ → (jumpTarget (p.2 + 1) p.1.imm fn.ninsns).all
        (fun q ↦ fn.tryDepth q == 0) = true) := by decide
  have hno : (Exec.alone nestedTryModule).m.NoTail := by decide
  refine ⟨fun fr frs ins npc hfr hins hto ↦ ?_, fun fr frs ins catchPc hfr hins hop hto ↦ ?_,
    fun ins g hins hg ↦ ?_⟩
  · obtain ⟨hfn, hmem⟩ := nextInsn_mem_zipIdx hfr hins
    rw [jumpsTo_eq_none (hcheck _ hfn _ hmem).1] at hto
    exact Option.noConfusion rfl (heq_of_eq hto)
  · obtain ⟨hfn, hmem⟩ := nextInsn_mem_zipIdx hfr hins
    have hzero := (hcheck _ hfn _ hmem).2 hop
    rw [hto, Option.all_some, beq_iff_eq] at hzero
    omega
  · rw [hno.tailTarget hins] at hg
    exact Option.noConfusion rfl (heq_of_eq hg)

theorem nestedTry_endtry_ok :
    ∃ vm, Fetches (Exec.alone nestedTryModule) false .switch
        (DepthKept (Exec.alone nestedTryModule)) vm ∧
      vm.nextInsn (Exec.alone nestedTryModule) =
        some { op := .endtry, a := 0, b := 0, c := 0, imm := 0 } ∧
      EndtryOk (Exec.alone nestedTryModule) vm := by
  have hview : (result (fetchAt (Exec.alone nestedTryModule) false .switch 4)
      jelloVmCreate).toOption.map (fun r ↦ (r.1, r.2.nextInsn (Exec.alone nestedTryModule))) =
      some (((true, none), none), some { op := .endtry, a := 0, b := 0, c := 0, imm := 0 }) := by
    decide +kernel
  cases hr : result (fetchAt (Exec.alone nestedTryModule) false .switch 4) jelloVmCreate with
  | error e => simp [hr, Except.toOption] at hview
  | ok r =>
    obtain ⟨st, vm⟩ := r
    simp only [hr, Except.toOption, Option.map_some, Option.some.injEq, Prod.mk.injEq] at hview
    obtain ⟨rfl, hins⟩ := hview
    have hfetch := (fetches_of_fetchAt hr).mono fun vm _ ↦ nestedTry_depthKept vm
    exact ⟨vm, hfetch, hins, endtry_ok (by decide) hfetch⟩

end JelloVM
