import JelloVM.FrameStack
import JelloVM.RegSpec
import JelloVM.ExecLoop

namespace JelloVM

open ByteMemory Logged

/-- What a return leaves behind: the registers of the caller, the lengths of the two stacks, and
the results that were asked for. -/
structure RetView where
  registers : ℕ → Option UInt8
  callFramesLen : ℕ
  excHandlersLen : ℕ
  jdllCallOut : Bool
  jdllOut : Option JelloValue
  out : Option JelloValue
  outExports : Option JelloValue

def bytesOfArea (a : Area) (mem : Mem) (x : ℕ) : Option UInt8 :=
  if a.start ≤ x ∧ x < a.start + a.size then some (mem x) else none

def VM.callerArea (vm : VM) : Area :=
  match vm.callFrames with
  | _ :: caller :: _ => caller.area
  | _ => ⟨0, 0⟩

def retView (area : Area) (vm : VM) : RetView :=
  { registers := bytesOfArea area vm.store.mem
    callFramesLen := vm.callFrames.length
    excHandlersLen := vm.excHandlers.length
    jdllCallOut := vm.jdllCallOut
    jdllOut := vm.jdllOut
    out := vm.out
    outExports := vm.outExports }

/-- The register that waits for the value, as the bytes that its type has. -/
def VM.dstSlot (m : JelloBcModule) (vm : VM) : Area :=
  match vm.callFrames with
  | fr :: caller :: _ =>
    ⟨caller.rf.addr fr.callerDst, jelloSlotSize (regKind m caller.f fr.callerDst)⟩
  | _ => ⟨0, 0⟩

/-- The four versions of `RET`. -/
def rets (ex : Exec) (ins : JelloInsn) : List (VMM OpResult) :=
  [opRet ex ins, labelRet ex ins, inlineRet ex ins, jelloJitRuntimeRetSelf ex ins]

/-- They leave the same behind, and nothing outside the register that waits is written. -/
structure RetsAgree (ex : Exec) (ins : JelloInsn) (vm : VM) : Prop where
  same : ∀ x ∈ rets ex ins, ∀ y ∈ rets ex ins, ∀ r vm', result x vm = .ok (r, vm') →
    ∃ vm'', result y vm = .ok (r, vm'') ∧
      retView vm.callerArea vm'' = retView vm.callerArea vm'
  inSlot : ∀ x ∈ rets ex ins, ∀ r vm', result x vm = .ok (r, vm') →
    ∀ a, ¬ (vm.dstSlot ex.m).Has a → vm'.store.mem a = vm.store.mem a

/-- The exports of the entry function are asked for, and the function has them. -/
def ExportsWanted (ex : Exec) (f : ℕ) : Prop :=
  ex.outExports = true ∧ ex.entryModuleIdx ≠ 0xffffffff ∧ ex.entryModuleIdx < (ex.func f).nregs

/-- No exports are asked for where the run ends; the value does not go to native code; and a
function that returns to itself returns a register of the type that waits. -/
structure RetPlain (ex : Exec) (ins : JelloInsn) (vm : VM) : Prop where
  exports : ∀ fr frs, vm.callFrames = fr :: frs → fr.hasCaller = false → ¬ ExportsWanted ex fr.f
  capture : ∀ fr frs, vm.callFrames = fr :: frs → fr.hasCaller = true →
    ¬ (fr.jdllRetCapture = true ∧ vm.jdllCallOut = true)
  self : ∀ fr caller frs, vm.callFrames = fr :: caller :: frs → fr.hasCaller = true →
    caller.f = fr.f → (ex.func fr.f).regType fr.callerDst = (ex.func fr.f).regType ins.ra

section Agree

variable {ex : Exec} {ins : JelloInsn} {vm : VM} {fr : CallFrame}

theorem topFrame_ok {g : VM} (h : result topFrame vm = .ok (fr, g)) :
    g = vm ∧ ∃ frs, vm.callFrames = fr :: frs := by
  have hends : Ends topFrame (fun fr g ↦ g = vm ∧ ∃ frs, vm.callFrames = fr :: frs) vm :=
    ends_topFrame fun fr frs hfr ↦ ⟨rfl, frs, hfr⟩
  exact hends.of_result h

theorem ends_dropHandlers {Q : Unit → VM → Prop}
    (h : ∀ hs, Q () { vm with excHandlers := hs }) : Ends (dropHandlers fr) Q vm := by
  simp only [dropHandlers, spec_bind, spec_read, spec_ite, spec_change]
  exact ⟨fun _ ↦ spec_fail _, fun _ ↦ h _⟩

theorem dropHandlers_ok {u : Unit} {g : VM} (h : result (dropHandlers fr) vm = .ok (u, g)) :
    g.callFrames = vm.callFrames ∧ g.jdllCallOut = vm.jdllCallOut := by
  have hends : Ends (dropHandlers fr)
      (fun _ g ↦ g.callFrames = vm.callFrames ∧ g.jdllCallOut = vm.jdllCallOut) vm :=
    ends_dropHandlers fun _ ↦ ⟨rfl, rfl⟩
  exact hends.of_result h

theorem ends_callerFrame {Q : CallFrame → VM → Prop}
    (h : ∀ fr caller frs, vm.callFrames = fr :: caller :: frs → Q caller vm) :
    Ends callerFrame Q vm := by
  simp only [callerFrame, spec_bind, spec_read]
  split
  · next fr caller frs hfr => exact (spec_pure caller).mpr (h fr caller frs hfr)
  · exact spec_fail _

theorem callerFrame_ok {caller : CallFrame} {g : VM}
    (h : result callerFrame vm = .ok (caller, g)) :
    g = vm ∧ ∃ fr frs, vm.callFrames = fr :: caller :: frs := by
  have hends : Ends callerFrame
      (fun caller g ↦ g = vm ∧ ∃ fr frs, vm.callFrames = fr :: caller :: frs) vm :=
    ends_callerFrame fun fr caller frs hfr ↦ ⟨rfl, fr, frs, hfr⟩
  exact hends.of_result h

/-- All versions of `RET` start in the same way, and differ in what they do then. -/
theorem result_ret_congr {f g : CallFrame → VMM OpResult}
    (h : ∀ fr frs g', vm.callFrames = fr :: frs → g'.callFrames = fr :: frs →
      g'.jdllCallOut = vm.jdllCallOut → result (f fr) g' = result (g fr) g') :
    result (do let fr ← topFrame; dropHandlers fr; f fr : VMM OpResult) vm =
      result (do let fr ← topFrame; dropHandlers fr; g fr : VMM OpResult) vm := by
  refine result_bind_congr fun fr v hfr ↦ result_bind_congr fun u g' hdrop ↦ ?_
  obtain ⟨rfl, frs, hfrs⟩ := topFrame_ok hfr
  obtain ⟨hframes, hout⟩ := dropHandlers_ok hdrop
  exact h fr frs g' hfrs (hframes.trans hfrs) hout

theorem opRet_eq_labelRet (h : RetPlain ex ins vm) :
    result (opRet ex ins) vm = result (labelRet ex ins) vm := by
  refine result_ret_congr fun fr frs g hfrs hg _ ↦ ?_
  split_ifs with hcaller hwanted
  · exact absurd hwanted (h.exports fr frs hfrs (by simpa using hcaller))
  · rfl
  · rfl

theorem result_regTypeOf (m : JelloBcModule) (f r : ℕ) :
    result (onStore (regTypeOf m f r)) vm = .ok ((m.func f).regType r, vm) := rfl

theorem result_sameTid {caller : CallFrame} {a tid : ℕ} (x y : ℕ → VMM OpResult)
    (hself : (ex.func caller.f).regType fr.callerDst = tid) (htid : (ex.func fr.f).regType a = tid) :
    result (do
      let tid ← onStore (regTypeOf ex.m fr.f a)
      let dstTid ← onStore (regTypeOf ex.m caller.f fr.callerDst)
      if dstTid = tid then x tid else y tid) vm =
    result (do
      let tid ← onStore (regTypeOf ex.m fr.f a)
      x tid) vm := by
  unfold Exec.func at hself htid
  simp only [result_bind, result_regTypeOf, Except.bind, hself, htid, if_true]

theorem labelRet_eq_inlineRet (h : RetPlain ex ins vm) :
    result (labelRet ex ins) vm = result (inlineRet ex ins) vm := by
  refine result_ret_congr fun fr frs g hfrs hg _ ↦ ?_
  split_ifs with hcaller
  · rfl
  · refine result_bind_congr fun caller g' hc ↦ result_bind_congr fun callOut g'' _ ↦ ?_
    split_ifs with hcapture hf
    · rfl
    · obtain ⟨rfl, fr', frs', hfrs'⟩ := callerFrame_ok hc
      obtain ⟨rfl, rfl⟩ : fr = fr' ∧ frs = caller :: frs' := by simpa [hg] using hfrs'
      have hself := h.self fr caller frs' hfrs (by simpa using hcaller) hf
      exact result_sameTid _ _ (hf ▸ hself) rfl
    · rfl

/-- Two programs that succeed in the same way, whatever happens when they fail. -/
def SameOk {α : Type} (x y : VMM α) (vm : VM) : Prop :=
  ∀ r, result x vm = .ok r ↔ result y vm = .ok r

theorem SameOk.of_eq {α : Type} {x y : VMM α} (h : result x vm = result y vm) : SameOk x y vm :=
  fun r ↦ by rw [h]

theorem SameOk.symm {α : Type} {x y : VMM α} (h : SameOk x y vm) : SameOk y x vm :=
  fun r ↦ (h r).symm

theorem SameOk.trans {α : Type} {x y z : VMM α} (h : SameOk x y vm) (h' : SameOk y z vm) :
    SameOk x z vm := fun r ↦ (h r).trans (h' r)

theorem SameOk.bind {α β : Type} {x : VMM α} {f g : α → VMM β}
    (h : ∀ a s', result x vm = .ok (a, s') → SameOk (f a) (g a) s') :
    SameOk (x >>= f) (x >>= g) vm := by
  intro r
  rw [result_bind, result_bind]
  cases hx : result x vm with
  | error e => rfl
  | ok p => exact h p.1 p.2 hx r

theorem SameOk.read_left {α β : Type} (f : VM → α) {k : α → VMM β} {y : VMM β}
    (h : SameOk (k (f vm)) y vm) : SameOk (Logged.read f >>= k) y vm := h

/-- The new top of the frame stack, when the area can be released. -/
def releasedTop (vm : VM) (rf : RegFrame) : Option ℕ :=
  if rf.mem = 0 then some vm.frameStackTop
  else if vm.frameStack ≠ 0 ∧ vm.frameStack ≤ rf.mem ∧
      rf.mem < vm.frameStack + vm.frameStackCap then
    some (sub32 vm.frameStackTop rf.total)
  else none

theorem result_release (rf : RegFrame) :
    result (vmRfRelease rf) vm =
      match releasedTop vm rf with
      | some top => .ok ((), { vm with frameStackTop := top })
      | none => .error .wild := by
  simp only [vmRfRelease, result_bind, result_read, Except.bind, result_ite, id, result_pure,
    result_change, result_fail, releasedTop]
  split_ifs <;> rfl

theorem release_store_comm (rf : RegFrame) (x : StoreM Unit) :
    SameOk (do vmRfRelease rf; popCallFrame; onStore x; pure OpResult.continue_ : VMM OpResult)
      (do onStore x; vmRfRelease rf; popCallFrame; pure OpResult.continue_ : VMM OpResult) vm := by
  have hsame (s : Store) : releasedTop (vm.setStore s) rf = releasedTop vm rf := rfl
  intro r
  simp only [result_bind, result_release, popCallFrame, result_change, onStore, result_onPart,
    result_pure]
  cases hx : result x vm.store with
  | error e =>
    cases htop : releasedTop vm rf with
    | none => simp [Except.bind, Except.map]
    | some top => simp [Except.bind, Except.map, hx]
  | ok p =>
    cases htop : releasedTop vm rf with
    | none => simp [Except.bind, Except.map, hsame, htop]
    | some top =>
      simp only [Except.bind, Except.map, hx, hsame, htop]
      rfl

theorem inlineRet_same_retSelf (h : RetPlain ex ins vm) :
    SameOk (inlineRet ex ins) (jelloJitRuntimeRetSelf ex ins) vm := by
  refine SameOk.bind fun fr v hfr ↦ SameOk.bind fun u g hdrop ↦ ?_
  obtain ⟨rfl, frs, hfrs⟩ := topFrame_ok hfr
  obtain ⟨hframes, hout⟩ := dropHandlers_ok hdrop
  split_ifs with hcaller
  · exact .of_eq rfl
  · have hno := h.capture fr frs hfrs (by simpa using hcaller)
    refine SameOk.bind fun caller g' hc ↦ ?_
    obtain ⟨rfl, -⟩ := callerFrame_ok hc
    rw [← hout] at hno
    refine SameOk.read_left VM.jdllCallOut ?_
    rw [if_neg hno]
    refine SameOk.bind fun tid g1 _ ↦ ?_
    split_ifs with hself
    · exact .of_eq rfl
    · refine SameOk.bind fun dstTid g2 _ ↦ ?_
      split_ifs with htid
      · exact .of_eq rfl
      · refine SameOk.trans (.of_eq ?_) (SameOk.bind fun ret g3 _ ↦ release_store_comm fr.rf
          (vmStoreFromBoxed ex.m ex.fpu caller.f caller.rf fr.callerDst ret))
        simp only [returnBoxed, bind_assoc]

theorem ends_boxReg {f r : ℕ} {rf : RegFrame} {Q : JelloValue → VM → Prop}
    (hQ : ∀ v heap, Q v (vm.setStore { vm.store with heap := heap })) :
    Ends (onStore (vmBoxFromTyped ex.m f rf r)) Q vm :=
  spec_onPart (spec_vmBoxFromTyped (regOk_true ex.m f rf r) hQ)

theorem ends_rfRelease {rf : RegFrame} {Q : Unit → VM → Prop}
    (hQ : ∀ top, Q () { vm with frameStackTop := top }) : Ends (vmRfRelease rf) Q vm := by
  simp only [vmRfRelease, spec_bind, spec_read, id, spec_ite, spec_pure, spec_change]
  exact ⟨fun _ ↦ hQ vm.frameStackTop, fun _ ↦ ⟨fun _ ↦ hQ _, fun _ ↦ spec_fail _⟩⟩

theorem ends_setOut {v : JelloValue} {Q : Unit → VM → Prop}
    (hQ : ∀ out, Q () { vm with out := out }) : Ends (setOut ex v) Q vm := by
  simp only [setOut, spec_ite, spec_change, spec_pure]
  exact ⟨fun _ ↦ hQ _, fun _ ↦ hQ vm.out⟩

theorem ends_finishRun {v : JelloValue} : Ends (finishRun ex fr v)
    (fun _ vm' ↦ vm'.store.mem = vm.store.mem) vm := by
  simp only [finishRun, spec_bind]
  refine ends_rfRelease fun top ↦ ?_
  simp only [spec_change]
  exact ends_setOut fun out ↦ rfl

theorem ends_opRet_mem : Ends (opRet ex ins)
    (fun _ vm' ↦ OnlyIn vm.store.mem vm'.store.mem (vm.dstSlot ex.m).start
      (vm.dstSlot ex.m).size) vm := by
  simp only [opRet, spec_bind]
  refine ends_topFrame fun fr frs hfr ↦ ends_dropHandlers fun hs ↦ ?_
  simp only [spec_ite, spec_bind]
  refine ⟨fun _ ↦ ends_boxReg fun v heap ↦ ?_, fun _ ↦ ends_callerFrame fun fr' caller frs' hfr' ↦ ?_⟩
  · refine ⟨fun _ ↦ ends_boxReg fun v heap ↦ ?_, fun _ ↦ ?_⟩
    · simp only [spec_change]
      refine ends_finishRun.mono fun _ vm' hmem ↦ (spec_pure _).mpr fun x _ ↦ ?_
      rw [hmem]
      rfl
    · simp only [spec_pure]
      refine ends_finishRun.mono fun _ vm' hmem x _ ↦ ?_
      rw [hmem]
      rfl
  · obtain ⟨rfl, rfl⟩ : fr = fr' ∧ frs = caller :: frs' := by
      simpa using hfr.symm.trans hfr'
    have hslot : vm.dstSlot ex.m = ⟨caller.rf.addr fr.callerDst,
        jelloSlotSize (regKind ex.m caller.f fr.callerDst)⟩ := by
      simp only [VM.dstSlot, hfr]
    rw [hslot]
    simp only [spec_read]
    refine ⟨fun _ ↦ ?_, fun _ ↦ ?_⟩
    · simp only [captureRet, spec_bind]
      refine ends_boxReg fun v heap ↦ ?_
      simp only [spec_change]
      refine ends_rfRelease fun top ↦ ?_
      simp only [popCallFrame, spec_change, spec_pure]
      exact .refl _ _ _
    · refine spec_onPart ?_
      simp only [spec_regTypeOf, true_and]
      refine spec_onPart ?_
      simp only [spec_regTypeOf, true_and, spec_bind, spec_pure, returnRaw, returnBoxed]
      refine ⟨fun htid ↦ spec_onPart ?_, fun _ ↦ ends_boxReg fun v heap ↦ ?_⟩
      · simp only [spec_typeOf, true_and]
        refine spec_onPart ?_
        simp only [spec_copySlot, true_and]
        refine ends_rfRelease fun top ↦ ?_
        simp only [popCallFrame, spec_change]
        rw [← htid]
        exact onlyIn_copy _ _ _ _
      · refine ends_rfRelease fun top ↦ ?_
        simp only [popCallFrame, spec_change]
        exact spec_onPart (spec_vmStoreFromBoxed (regOk_true _ _ _ _) _ _ fun mem heap h ↦ h)

theorem rets_same (h : RetPlain ex ins vm) {x : VMM OpResult} (hx : x ∈ rets ex ins) :
    SameOk (opRet ex ins) x vm := by
  have h1 : SameOk (opRet ex ins) (labelRet ex ins) vm := .of_eq (opRet_eq_labelRet h)
  have h2 : SameOk (opRet ex ins) (inlineRet ex ins) vm :=
    h1.trans (.of_eq (labelRet_eq_inlineRet h))
  simp only [rets, List.mem_cons, List.not_mem_nil, or_false] at hx
  obtain rfl | rfl | rfl | rfl := hx
  · exact .of_eq rfl
  · exact h1
  · exact h2
  · exact h2.trans (inlineRet_same_retSelf h)

theorem rets_agree (h : RetPlain ex ins vm) : RetsAgree ex ins vm := by
  refine ⟨fun x hx y hy r vm' hr ↦ ?_, fun x hx r vm' hr a ha ↦ ?_⟩
  · have hop := (rets_same h hx (r, vm')).mpr hr
    exact ⟨vm', (rets_same h hy (r, vm')).mp hop, rfl⟩
  · have hop := (rets_same h hx (r, vm')).mpr hr
    exact ends_opRet_mem.of_result hop a ha

end Agree

/-- A function that calls itself once: it waits for the value in an I64 register and returns an
I32 register. -/
def retModule : JelloBcModule :=
  { features := { (default : Features) with const64 := true }
    types := [⟨.bool, 0⟩, ⟨.i64, 0⟩, ⟨.i32, 0⟩]
    sigs := []
    atoms := []
    constI64 := [0x0101010101010101]
    constF64 := []
    constBytes := []
    funcs :=
      [{ regTypes := [0, 1, 2]
         capStart := 0
         insns := [{ op := .jmpIf, a := 0, b := 0, c := 0, imm := 3 },
           { op := .constBool, a := 0, b := 0, c := 1, imm := 0 },
           { op := .constI64, a := 1, b := 0, c := 0, imm := 0 },
           { op := .call, a := 1, b := 0, c := 1, imm := 47 },
           { op := .constI32, a := 2, b := 0, c := 0, imm := 5 },
           { op := .ret, a := 2, b := 0, c := 0, imm := 0 }]
         sourceFile := 0
         lines := [] }]
    entry := 0
    sourceFiles := [] }

def retInsn : JelloInsn := { op := .ret, a := 2, b := 0, c := 0, imm := 0 }

/-- The entry of the module and the first `n` rounds of the loop. -/
def runFor (ex : Exec) (n : ℕ) : VMM Unit := do
  let _ ← execEntry ex
  let _ ← vmExecLoop ex false .switch n

/-- The byte at `a` after a program. -/
def byteAfter (x : VMM OpResult) (vm : VM) (a : ℕ) : Option UInt8 :=
  (result x vm).toOption.map fun r ↦ r.2.store.mem a

theorem byteAfter_eq {x : VMM OpResult} {vm vm' : VM} {r : OpResult} {a : ℕ} {b : UInt8}
    (h : byteAfter x vm a = some b) (hr : result x vm = .ok (r, vm')) : vm'.store.mem a = b := by
  simpa [byteAfter, hr, Except.toOption] using h

theorem RetsAgree.byte {ex : Exec} {ins : JelloInsn} {vm : VM} (h : RetsAgree ex ins vm) {a : ℕ}
    (ha : vm.callerArea.Has a) {b c : UInt8} (hb : byteAfter (opRet ex ins) vm a = some b)
    (hc : byteAfter (inlineRet ex ins) vm a = some c) : b = c := by
  cases hr : result (opRet ex ins) vm with
  | error e => simp [byteAfter, hr, Except.toOption] at hb
  | ok p =>
    obtain ⟨vm'', hr', hview⟩ := h.same (opRet ex ins) (by simp [rets]) (inlineRet ex ins)
      (by simp [rets]) p.1 p.2 hr
    have hbyte := congrFun (congrArg RetView.registers hview) a
    have ha' : vm.callerArea.start ≤ a ∧ a < vm.callerArea.start + vm.callerArea.size := ha
    simp only [retView, bytesOfArea, if_pos ha', Option.some.injEq] at hbyte
    rw [← byteAfter_eq hb hr, ← byteAfter_eq hc hr', hbyte]

/-- The inner call returns: `op_ret` converts the value to the I64 register that waits, and the
`RET` of the loop leaves four of its bytes as they were. -/
theorem recursive_rets_differ :
    Accepted retModule ∧ ∃ vm, result (runFor (.alone retModule) 6) jelloVmCreate = .ok ((), vm) ∧
      ((retModule.func 0).insn 5 = retInsn ∧ vm.callFrames.map (fun fr ↦ (fr.f, fr.pc)) =
        [(0, 5), (0, 4)]) ∧ ¬ RetsAgree (.alone retModule) retInsn vm := by
  have hrun : (result (runFor (.alone retModule) 6) jelloVmCreate).toOption.map
      (fun r ↦ (r.2.callFrames.map (fun fr ↦ (fr.f, fr.pc)), r.2.callerArea,
        byteAfter (opRet (.alone retModule) retInsn) r.2 4111,
        byteAfter (inlineRet (.alone retModule) retInsn) r.2 4111)) =
      some ([(0, 5), (0, 4)], ⟨4096, 20⟩, some 0, some 1) := by
    decide +kernel
  cases hr : result (runFor (.alone retModule) 6) jelloVmCreate with
  | error e => simp [hr, Except.toOption] at hrun
  | ok r =>
    simp only [hr, Except.toOption, Option.map_some, Option.some.injEq, Prod.mk.injEq] at hrun
    obtain ⟨hframes, harea, hop, hinline⟩ := hrun
    refine ⟨by decide +kernel, r.2, rfl, ⟨by decide +kernel, hframes⟩, fun hagree ↦ ?_⟩
    have hin : r.2.callerArea.Has 4111 := by
      rw [harea]
      exact ⟨by decide, by decide⟩
    exact absurd (hagree.byte hin hop hinline) (by decide)

/-- The same call, with the value in the register that waits for it. -/
def plainInsn : JelloInsn := { op := .ret, a := 1, b := 0, c := 0, imm := 0 }

theorem recursive_rets_agree :
    ∃ vm, result (runFor (.alone retModule) 6) jelloVmCreate = .ok ((), vm) ∧
      RetPlain (.alone retModule) plainInsn vm ∧ RetsAgree (.alone retModule) plainInsn vm := by
  have hrun : (result (runFor (.alone retModule) 6) jelloVmCreate).toOption.map
      (fun r ↦ (r.2.callFrames.map (fun fr ↦ (fr.f, fr.callerDst)), r.2.jdllCallOut)) =
      some ([(0, 1), (0, 0)], false) := by
    decide +kernel
  cases hr : result (runFor (.alone retModule) 6) jelloVmCreate with
  | error e => simp [hr, Except.toOption] at hrun
  | ok r =>
    simp only [hr, Except.toOption, Option.map_some, Option.some.injEq, Prod.mk.injEq] at hrun
    obtain ⟨hframes, hout⟩ := hrun
    have hplain : RetPlain (.alone retModule) plainInsn r.2 := by
      refine ⟨fun fr frs hfr _ ↦ ?_, fun fr frs hfr _ ↦ ?_, fun fr caller frs hfr _ _ ↦ ?_⟩
      · exact fun hwanted ↦ absurd hwanted.1 (by decide)
      · simp [hout]
      · simp only [hfr, List.map_cons, List.cons.injEq, Prod.mk.injEq] at hframes
        rw [hframes.1.1, hframes.1.2]
        rfl
    exact ⟨r.2, rfl, hplain, rets_agree hplain⟩

end JelloVM
