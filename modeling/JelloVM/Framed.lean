import JelloVM.SelfCall

namespace JelloVM

open ByteMemory Logged

/-- The frame belongs to a function of the module, and has its layout. -/
structure FrameLike (ex : Exec) (fr : CallFrame) : Prop where
  func : fr.f < ex.m.funcs.length
  layout : ∃ mem, fr.rf = (vmGetFrameLayout ex.m fr.f).frame mem
  flag : fr.hasPointerOrDynamic = (vmGetFrameLayout ex.m fr.f).hasPointerOrDynamic

def Framed (ex : Exec) (vm : VM) : Prop := ∀ fr ∈ vm.callFrames, FrameLike ex fr

/-- If the frames were well formed they still are. -/
def KeepsFrames (ex : Exec) (vm vm' : VM) : Prop := Framed ex vm → Framed ex vm'

instance (ex : Exec) : IsPreorder VM (KeepsFrames ex) where
  refl _ := id
  trans _ _ _ h h' := h' ∘ h

section Steps

variable {ex : Exec} {α : Type} {P : Access → Prop} {fr : CallFrame} {frs : List CallFrame}

theorem FrameLike.setPc (h : FrameLike ex fr) (pc : ℕ) : FrameLike ex { fr with pc := pc } :=
  ⟨h.func, h.layout, h.flag⟩

theorem FrameLike.move (h : FrameLike ex fr) (mem : ℕ) :
    FrameLike ex { fr with rf := { fr.rf with mem := mem } } := by
  obtain ⟨a, ha⟩ := h.layout
  exact ⟨h.func, ⟨mem, by simp only [ha]; rfl⟩, h.flag⟩

theorem FrameLike.become {f : ℕ} (hf : f < ex.m.funcs.length) (fr : CallFrame) (mem : ℕ) :
    FrameLike ex (fr.become f (vmGetFrameLayout ex.m f) mem) := ⟨hf, ⟨mem, rfl⟩, rfl⟩

theorem framed_of_frames {vm vm' : VM} (h : Framed ex vm) (hfr : vm'.callFrames = vm.callFrames) :
    Framed ex vm' := by
  intro fr hmem
  rw [hfr] at hmem
  exact h fr hmem

theorem Framed.shift {vm vm' : VM} (h : Framed ex vm) (hshift : Shifted vm vm') :
    Framed ex vm' := by
  obtain ⟨⟨g, hg⟩, -⟩ := hshift
  intro fr hmem
  rw [hg] at hmem
  obtain ⟨fr', hmem', rfl⟩ := List.mem_map.mp hmem
  exact (h fr' hmem').move _

theorem framed_onStore (x : StoreM α) : Keeps (fun _ ↦ True) (KeepsFrames ex) (onStore x) :=
  fun _ ↦ ends_onPart fun _ _ h ↦ framed_of_frames h rfl

theorem framed_change {g : VM → VM} (hg : ∀ vm, (g vm).callFrames = vm.callFrames) :
    Keeps P (KeepsFrames ex) (change g : VMM Unit) := keeps_change fun vm h ↦ framed_of_frames h (hg vm)

theorem framed_topFrame {f : CallFrame → VMM α}
    (h : ∀ fr, FrameLike ex fr → Keeps (fun _ ↦ True) (KeepsFrames ex) (f fr)) :
    Keeps (fun _ ↦ True) (KeepsFrames ex) (topFrame >>= f) := by
  intro vm
  refine spec_bind.mpr (ends_topFrame fun fr frs hfr ↦ ends_iff.mpr fun a vm' hr hframed ↦ ?_)
  have hlike : FrameLike ex fr := hframed fr (by simp [hfr])
  have hends : Ends (f fr) (fun _ vm' ↦ KeepsFrames ex vm vm') vm := h fr hlike vm
  exact hends.of_result hr hframed

theorem framed_frameAtIndex {f : CallFrame → VMM α} (i : ℕ)
    (h : ∀ fr, FrameLike ex fr → Keeps (fun _ ↦ True) (KeepsFrames ex) (f fr)) :
    Keeps (fun _ ↦ True) (KeepsFrames ex) (frameAtIndex i >>= f) := by
  intro vm
  refine spec_bind.mpr (ends_frameAtIndex fun fr hfr ↦ ends_iff.mpr fun a vm' hr hframed ↦ ?_)
  have hlike : FrameLike ex fr := hframed fr (List.mem_reverse.mp (List.mem_of_getElem? hfr))
  have hends : Ends (f fr) (fun _ vm' ↦ KeepsFrames ex vm vm') vm := h fr hlike vm
  exact hends.of_result hr hframed

theorem framed_pushCallFrame (h : FrameLike ex fr) :
    Keeps P (KeepsFrames ex) (pushCallFrame fr) := by
  refine keeps_change fun vm hframed fr' hmem ↦ ?_
  obtain rfl | hmem := List.mem_cons.mp hmem
  · exact h
  · exact hframed fr' hmem

theorem framed_setTopFrame (h : FrameLike ex fr) : Keeps P (KeepsFrames ex) (setTopFrame fr) := by
  refine keeps_change fun vm hframed fr' hmem ↦ ?_
  obtain rfl | hmem := List.mem_cons.mp hmem
  · exact h
  · exact hframed fr' (List.mem_of_mem_tail hmem)

theorem framed_popCallFrame : Keeps P (KeepsFrames ex) popCallFrame :=
  keeps_change fun _ hframed fr' hmem ↦ hframed fr' (List.mem_of_mem_tail hmem)

theorem framed_bump (size : ℕ) :
    Keeps (fun _ ↦ True) (KeepsFrames ex) (vmFrameStackBump ex size) :=
  fun _ ↦ (shifts_bump size).then fun _ _ hshift hframed ↦ hframed.shift hshift

theorem framed_release (rf : RegFrame) : Keeps P (KeepsFrames ex) (vmRfRelease rf) :=
  keeps_bind (keeps_read _) fun _ ↦ keeps_ite (fun _ ↦ keeps_pure _) fun _ ↦
    keeps_ite (fun _ ↦ framed_change fun _ ↦ rfl) fun _ ↦ keeps_fail _

theorem framed_resetFrameStack : Keeps P (KeepsFrames ex) resetFrameStack := by
  refine framed_change fun vm ↦ ?_
  split_ifs <;> rfl

theorem framed_setOut (v : JelloValue) : Keeps P (KeepsFrames ex) (setOut ex v) :=
  keeps_ite (fun _ ↦ framed_change fun _ ↦ rfl) fun _ ↦ keeps_pure _

end Steps

section Calls

variable {ex : Exec} {vm : VM} {fr : CallFrame} {frs : List CallFrame} {f g : ℕ}

theorem Framed.keeps {α : Type} (h : Framed ex vm) {x : VMM α}
    (hx : Keeps (fun _ ↦ True) (KeepsFrames ex) x) : Ends x (fun _ vm' ↦ Framed ex vm') vm :=
  hx.then fun _ _ hk ↦ hk h

theorem FrameLike.selfCall (h : FrameLike ex fr) (hflag : fr.hasPointerOrDynamic = false)
    (mem dst excBase : ℕ) : FrameLike ex (fr.selfCall mem dst excBase) := by
  obtain ⟨a, ha⟩ := h.layout
  refine ⟨h.func, ⟨mem, ?_⟩, hflag.symm.trans h.flag⟩
  simp only [CallFrame.selfCall, ha]
  rfl

theorem framed_vmPushSelfNumeric (h : Framed ex vm) (hfr : vm.callFrames = fr :: frs)
    (hflag : fr.hasPointerOrDynamic = false) (first nargs dst : ℕ) :
    Ends (vmPushSelfNumeric ex first nargs dst) (fun _ vm' ↦ Framed ex vm') vm := by
  refine ends_iff.mpr fun _ vm' hr ↦ ?_
  obtain ⟨fr', vm', htop, hrest⟩ := bind_ok hr
  obtain ⟨rfl, rfl⟩ : fr = fr' ∧ vm = vm' := by simpa [topFrame, hfr, Except.bind] using htop
  obtain ⟨mem, vm₁, hbump, -⟩ := bind_ok hrest
  have hshift : Shifted vm vm₁ := Ends.of_result (shifts_bump fr.rf.total vm) hbump
  obtain ⟨a, frs₁, hfr₁, -, -⟩ := frames_of_bump hfr hbump
  have hframed₁ := h.shift hshift
  rw [result_vmPushSelfNumeric hfr hbump hfr₁] at hr
  simp only [Except.ok.injEq, Prod.mk.injEq, true_and] at hr
  rw [← hr]
  intro fr' hmem
  obtain rfl | hmem := List.mem_cons.mp hmem
  · exact ((h fr (by simp [hfr])).move a).selfCall hflag _ _ _
  · exact hframed₁ fr' hmem

theorem framed_pushFreshFrame (hf : f < ex.m.funcs.length) (dst : ℕ) (hasCaller capture : Bool) :
    Keeps (fun _ ↦ True) (KeepsFrames ex) (pushFreshFrame ex f dst hasCaller capture) :=
  keeps_bind (framed_bump _) fun mem ↦ keeps_bind (keeps_read _) fun _ ↦
    keeps_bind (framed_pushCallFrame ⟨hf, ⟨mem, rfl⟩, rfl⟩) fun _ ↦
      keeps_bind (framed_onStore _) fun _ ↦ keeps_pure _

theorem framed_pushGeneral (hf : f < ex.m.funcs.length) (idx dst first nargs : ℕ)
    (funobj : Option JelloFunction) (hasCaller : Bool) :
    Keeps (fun _ ↦ True) (KeepsFrames ex)
      (pushGeneral ex f g idx dst first nargs funobj hasCaller) := by
  refine keeps_bind (framed_pushFreshFrame hf _ _ _) fun rf ↦ keeps_ite (fun _ ↦ ?_) fun _ ↦
    keeps_pure _
  refine keeps_bind (keeps_read _) fun _ ↦ keeps_ite (fun _ ↦ keeps_fail _) fun _ ↦ ?_
  exact framed_frameAtIndex idx fun _ _ ↦ keeps_bind (framed_onStore _) fun _ ↦ keeps_pure _

theorem framed_vmPushFrame (h : Framed ex vm) (hf : f < ex.m.funcs.length) {idx : ℕ}
    (hidx : ∀ fr, vm.frameAt idx = some fr → fr.f = g) (dst first nargs : ℕ)
    (funobj : Option JelloFunction) (hasCaller : Bool) :
    Ends (vmPushFrame ex f g idx dst first nargs funobj hasCaller)
      (fun _ vm' ↦ Framed ex vm') vm := by
  refine spec_bind.mpr ((spec_read _).mpr (spec_ite.mpr ⟨fun _ ↦ ?_, fun _ ↦ spec_bind.mpr ?_⟩))
  · exact h.keeps (keeps_bind (framed_onStore _) fun _ ↦ keeps_pure _)
  refine (spec_change _).mpr ?_
  have hframes : (if vm.callFrames = [] then { vm with frameStackTop := 0 } else vm).callFrames =
      vm.callFrames := by split_ifs <;> rfl
  have h₁ := framed_of_frames h hframes
  generalize (if vm.callFrames = [] then { vm with frameStackTop := 0 } else vm) = vm₁ at *
  refine spec_ite.mpr ⟨fun hself ↦ ?_, fun _ ↦ h₁.keeps (framed_pushGeneral hf _ _ _ _ _ _)⟩
  refine spec_ite.mpr ⟨fun _ ↦ spec_fail _, fun _ ↦ spec_bind.mpr ?_⟩
  refine ends_frameAtIndex fun caller hcaller ↦ spec_ite.mpr ⟨fun hflag ↦ ?_, fun _ ↦
    h₁.keeps (framed_pushGeneral hf _ _ _ _ _ _)⟩
  have hat : vm.frameAt idx = some caller := by rwa [VM.frameAt, hframes] at hcaller
  have hcf : caller.f = f := (hidx caller hat).trans hself.2.1
  refine spec_bind.mpr ((shifts_bump _).then fun mem vm₂ hshift ↦ spec_bind.mpr ?_)
  have h₂ := h₁.shift hshift
  refine ends_frameAtIndex fun caller' hcaller' ↦ ?_
  obtain ⟨⟨s, hs⟩, -⟩ := hshift
  have hlike : FrameLike ex caller' := h₂ caller' (List.mem_reverse.mp (List.mem_of_getElem? hcaller'))
  have hsame : caller'.f = f ∧ caller'.hasPointerOrDynamic = false := by
    rw [VM.frameAt, hs, ← List.map_reverse, List.getElem?_map] at hcaller'
    rw [VM.frameAt] at hcaller
    rw [hcaller] at hcaller'
    simp only [Option.map_some, Option.some.injEq] at hcaller'
    rw [← hcaller']
    exact ⟨hcf, by simpa using hflag⟩
  refine spec_bind.mpr ((spec_read _).mpr (h₂.keeps (keeps_bind (framed_pushCallFrame ?_) fun _ ↦
    keeps_bind (framed_onStore _) fun _ ↦ keeps_pure _)))
  have hnew := hlike.selfCall hsame.2 mem dst vm₂.excHandlers.length
  rw [CallFrame.selfCall, hsame.1] at hnew
  exact hnew

theorem framed_vmPushFrameEntry (hf : f < ex.m.funcs.length) (funobj : Option JelloFunction)
    (args : List JelloValue) :
    Keeps (fun _ ↦ True) (KeepsFrames ex) (vmPushFrameEntry ex f funobj args) := by
  refine keeps_bind (keeps_read _) fun _ ↦ keeps_ite (fun _ ↦ ?_) fun _ ↦
    keeps_ite (fun _ ↦ keeps_fail _) fun _ ↦ ?_
  · exact keeps_bind (framed_onStore _) fun _ ↦ keeps_pure _
  · refine keeps_bind framed_resetFrameStack fun _ ↦ keeps_bind (framed_pushFreshFrame hf _ _ _)
      fun rf ↦ keeps_ite (fun _ ↦ ?_) fun _ ↦ ?_
    · exact keeps_bind (framed_onStore _) fun _ ↦ keeps_pure _
    · exact keeps_bind (framed_onStore _) fun _ ↦ keeps_pure _

theorem framed_reallocFrame (hf : f < ex.m.funcs.length) (fr : CallFrame) :
    Keeps (fun _ ↦ True) (KeepsFrames ex) (reallocFrame ex fr f) := by
  intro vm
  refine ends_iff.mpr fun a vm' hr hframed ↦ ?_
  have hends : Ends (reallocFrame ex fr f) (fun _ vm' ↦ Framed ex vm') vm := by
    refine spec_bind.mpr ((hframed.keeps (framed_release _)).mono fun _ vm₁ h₁ ↦ ?_)
    refine spec_bind.mpr ((spec_change _).mpr (spec_bind.mpr ?_))
    refine (shifts_bump _).then fun mem vm₂ hshift ↦ ?_
    obtain ⟨⟨g, hg⟩, -⟩ := hshift
    refine spec_bind.mpr ((spec_change _).mpr ((spec_pure _).mpr fun fr' hmem ↦ ?_))
    obtain rfl | hmem := List.mem_cons.mp hmem
    · exact FrameLike.become hf fr mem
    · rw [hg, List.map_cons, List.tail_cons] at hmem
      obtain ⟨fr'', hmem'', rfl⟩ := List.mem_map.mp hmem
      exact (h₁ fr'' (List.mem_of_mem_tail hmem'')).move _
  exact hends.of_result hr

theorem framed_replaceRaw (hf : f < ex.m.funcs.length) (first nargs : ℕ) (path : TailPath) :
    Keeps (fun _ ↦ True) (KeepsFrames ex) (replaceRaw ex f first nargs path) := by
  refine framed_topFrame fun fr _ ↦ keeps_bind (framed_onStore _) fun buf ↦
    keeps_ite (fun _ ↦ ?_) fun _ ↦ ?_
  · exact keeps_bind (framed_change fun _ ↦ rfl) fun _ ↦
      keeps_bind (framed_setTopFrame (FrameLike.become hf fr _)) fun _ ↦ framed_onStore _
  · exact keeps_bind (framed_reallocFrame hf fr) fun _ ↦ framed_onStore _

theorem framed_vmReplaceFrame (hf : f < ex.m.funcs.length) (first nargs : ℕ)
    (funobj : Option JelloFunction) :
    Keeps (fun _ ↦ True) (KeepsFrames ex) (vmReplaceFrame ex f g first nargs funobj) := by
  refine keeps_bind (framed_onStore _) fun path ↦ keeps_ite (fun _ ↦ ?_) fun _ ↦
    framed_replaceRaw hf _ _ _
  refine framed_topFrame fun fr _ ↦ keeps_ite (fun _ ↦ keeps_fail _) fun _ ↦ ?_
  exact keeps_bind (framed_onStore _) fun _ ↦ keeps_bind (framed_reallocFrame hf fr) fun _ ↦
    framed_onStore _

end Calls

section Control

variable {ex : Exec} {vm : VM} {fr : CallFrame} {frs : List CallFrame} {ins : JelloInsn}

theorem framed_onCtx {α : Type} (x : Ctx → JelloInsn → StoreM α) :
    Keeps (fun _ ↦ True) (KeepsFrames ex) (onCtx ex x ins) :=
  framed_topFrame fun _ _ ↦ framed_onStore _

theorem framed_dropHandlers (fr : CallFrame) :
    Keeps (fun _ ↦ True) (KeepsFrames ex) (dropHandlers fr) :=
  keeps_bind (keeps_read _) fun _ ↦ keeps_ite (fun _ ↦ keeps_fail _) fun _ ↦
    framed_change fun _ ↦ rfl

theorem framed_callerFrame : Keeps (fun _ ↦ True) (KeepsFrames ex) callerFrame := by
  refine keeps_bind (keeps_read _) fun frs ↦ ?_
  split
  · exact keeps_pure _
  · exact keeps_fail _

theorem framed_finishRun (fr : CallFrame) (v : JelloValue) :
    Keeps (fun _ ↦ True) (KeepsFrames ex) (finishRun ex fr v) := by
  refine keeps_bind (framed_release _) fun _ ↦ keeps_bind (keeps_change fun vm _ fr' hmem ↦ ?_)
    fun _ ↦ framed_setOut v
  exact absurd hmem List.not_mem_nil

theorem framed_captureRet (fr : CallFrame) (a : ℕ) :
    Keeps (fun _ ↦ True) (KeepsFrames ex) (captureRet ex fr a) :=
  keeps_bind (framed_onStore _) fun _ ↦ keeps_bind (framed_change fun _ ↦ rfl) fun _ ↦
    keeps_bind (framed_release _) fun _ ↦ framed_popCallFrame

theorem framed_returnRaw (fr caller : CallFrame) (a tid : ℕ) :
    Keeps (fun _ ↦ True) (KeepsFrames ex) (returnRaw ex fr caller a tid) :=
  keeps_bind (framed_onStore _) fun _ ↦ keeps_bind (framed_onStore _) fun _ ↦
    keeps_bind (framed_release _) fun _ ↦ framed_popCallFrame

theorem framed_returnBoxed (fr caller : CallFrame) (a : ℕ) :
    Keeps (fun _ ↦ True) (KeepsFrames ex) (returnBoxed ex fr caller a) :=
  keeps_bind (framed_onStore _) fun _ ↦ keeps_bind (framed_release _) fun _ ↦
    keeps_bind framed_popCallFrame fun _ ↦ framed_onStore _

theorem framed_handBack (fr caller : CallFrame) (a tid dstTid : ℕ) :
    Keeps (fun _ ↦ True) (KeepsFrames ex) (if dstTid = tid then do
        returnRaw ex fr caller a tid
        pure .continue_
      else do
        returnBoxed ex fr caller a
        pure .continue_ : VMM OpResult) :=
  keeps_ite (fun _ ↦ keeps_bind (framed_returnRaw _ _ _ _) fun _ ↦ keeps_pure _) fun _ ↦
    keeps_bind (framed_returnBoxed _ _ _) fun _ ↦ keeps_pure _

theorem framed_opRet : Keeps (fun _ ↦ True) (KeepsFrames ex) (opRet ex ins) := by
  refine framed_topFrame fun fr _ ↦ keeps_bind (framed_dropHandlers _) fun _ ↦
    keeps_ite (fun _ ↦ keeps_bind (framed_onStore _) fun v ↦ ?_) fun _ ↦ ?_
  · refine keeps_ite (fun _ ↦ keeps_bind (framed_onStore _) fun _ ↦
      keeps_bind (framed_change fun _ ↦ rfl) fun _ ↦ ?_) fun _ ↦ ?_
    · exact keeps_bind (framed_finishRun _ _) fun _ ↦ keeps_pure _
    · exact keeps_bind (framed_finishRun _ _) fun _ ↦ keeps_pure _
  · refine keeps_bind framed_callerFrame fun caller ↦ keeps_bind (keeps_read _) fun _ ↦
      keeps_ite (fun _ ↦ ?_) fun _ ↦ ?_
    · exact keeps_bind (framed_captureRet _ _) fun _ ↦ keeps_pure _
    · exact keeps_bind (framed_onStore _) fun _ ↦ keeps_bind (framed_onStore _) fun _ ↦
        framed_handBack _ _ _ _ _

theorem framed_labelRet : Keeps (fun _ ↦ True) (KeepsFrames ex) (labelRet ex ins) := by
  refine framed_topFrame fun fr _ ↦ keeps_bind (framed_dropHandlers _) fun _ ↦
    keeps_ite (fun _ ↦ keeps_bind (framed_onStore _) fun v ↦ ?_) fun _ ↦ ?_
  · exact keeps_bind (framed_finishRun _ _) fun _ ↦ keeps_pure _
  · refine keeps_bind framed_callerFrame fun caller ↦ keeps_bind (keeps_read _) fun _ ↦
      keeps_ite (fun _ ↦ ?_) fun _ ↦ ?_
    · exact keeps_bind (framed_captureRet _ _) fun _ ↦ keeps_pure _
    · exact keeps_bind (framed_onStore _) fun _ ↦ keeps_bind (framed_onStore _) fun _ ↦
        framed_handBack _ _ _ _ _

theorem framed_inlineRet : Keeps (fun _ ↦ True) (KeepsFrames ex) (inlineRet ex ins) := by
  refine framed_topFrame fun fr _ ↦ keeps_bind (framed_dropHandlers _) fun _ ↦
    keeps_ite (fun _ ↦ keeps_bind (framed_onStore _) fun v ↦ ?_) fun _ ↦ ?_
  · exact keeps_bind (framed_finishRun _ _) fun _ ↦ keeps_pure _
  · refine keeps_bind framed_callerFrame fun caller ↦ keeps_bind (keeps_read _) fun _ ↦
      keeps_ite (fun _ ↦ ?_) fun _ ↦ keeps_bind (framed_onStore _) fun _ ↦
        keeps_ite (fun _ ↦ ?_) fun _ ↦ ?_
    · exact keeps_bind (framed_captureRet _ _) fun _ ↦ keeps_pure _
    · exact keeps_bind (framed_returnRaw _ _ _ _) fun _ ↦ keeps_pure _
    · exact keeps_bind (framed_onStore _) fun _ ↦ framed_handBack _ _ _ _ _

theorem framed_jumpFrom (h : FrameLike ex fr) (base : ℕ) (d : UInt32) :
    Keeps (fun _ ↦ True) (KeepsFrames ex) (jumpFrom ex fr base d) := by
  unfold jumpFrom
  split
  · exact keeps_fail _
  · exact framed_setTopFrame (h.setPc _)

theorem framed_opJmp : Keeps (fun _ ↦ True) (KeepsFrames ex) (opJmp ex ins) := by
  refine framed_topFrame fun fr hlike ↦ ?_
  split
  · exact keeps_fail _
  · refine keeps_ite (fun _ ↦ keeps_bind (framed_onStore _) fun b ↦ keeps_ite (fun _ ↦ ?_) fun _ ↦
      keeps_pure _) fun _ ↦ ?_
    · exact keeps_bind (framed_setTopFrame (hlike.setPc _)) fun _ ↦ keeps_pure _
    · exact keeps_bind (framed_setTopFrame (hlike.setPc _)) fun _ ↦ keeps_pure _

theorem framed_labelJmp : Keeps (fun _ ↦ True) (KeepsFrames ex) (labelJmp ex ins) :=
  framed_topFrame fun _ hlike ↦ keeps_bind (framed_jumpFrom hlike _ _) fun _ ↦ keeps_pure _

theorem framed_opJmpIf : Keeps (fun _ ↦ True) (KeepsFrames ex) (opJmpIf ex ins) :=
  framed_topFrame fun _ hlike ↦ keeps_bind (framed_onStore _) fun _ ↦
    keeps_ite (fun _ ↦ keeps_bind (framed_jumpFrom hlike _ _) fun _ ↦ keeps_pure _) fun _ ↦
      keeps_pure _

theorem framed_opSwitchKind : Keeps (fun _ ↦ True) (KeepsFrames ex) (opSwitchKind ex ins) :=
  framed_topFrame fun _ hlike ↦ keeps_bind (framed_onStore _) fun _ ↦
    keeps_ite (fun _ ↦ keeps_fail _) fun _ ↦ keeps_bind (framed_onStore _) fun _ ↦
      keeps_bind (framed_jumpFrom hlike _ _) fun _ ↦ keeps_pure _

theorem framed_opTry : Keeps (fun _ ↦ True) (KeepsFrames ex) (opTry ex ins) := by
  refine framed_topFrame fun fr _ ↦ ?_
  split
  · exact keeps_fail _
  · exact keeps_bind (keeps_read _) fun _ ↦ keeps_bind (framed_change fun _ ↦ rfl) fun _ ↦
      keeps_pure _

theorem framed_opEndtry : Keeps (fun _ ↦ True) (KeepsFrames ex) opEndtry := by
  refine keeps_bind (keeps_read _) fun _ ↦ keeps_bind ?_ fun h ↦ ?_
  · refine keeps_bind (keeps_read _) fun hs ↦ ?_
    split
    · exact keeps_pure _
    · exact keeps_bind (framed_change fun _ ↦ rfl) fun _ ↦ keeps_pure _
  · split
    · exact keeps_fail _
    · exact keeps_ite (fun _ ↦ keeps_fail _) fun _ ↦ keeps_pure _

theorem framed_endNativeTail (fr : CallFrame) (a : ℕ) :
    Keeps (fun _ ↦ True) (KeepsFrames ex) (endNativeTail ex fr a) := by
  refine keeps_bind (framed_dropHandlers _) fun _ ↦ keeps_ite (fun _ ↦ ?_) fun _ ↦ ?_
  · exact keeps_bind (framed_onStore _) fun _ ↦ keeps_bind (framed_release _) fun _ ↦
      keeps_bind framed_popCallFrame fun _ ↦ keeps_bind (framed_setOut _) fun _ ↦ keeps_pure _
  · exact keeps_bind framed_callerFrame fun _ ↦ keeps_bind (framed_returnBoxed _ _ _) fun _ ↦
      keeps_pure _

end Control

section Transfers

variable {ex : Exec} {vm : VM} {fr : CallFrame} {frs : List CallFrame} {ins : JelloInsn}

theorem frameAt_topIndex (hfr : vm.callFrames = fr :: frs) :
    vm.frameAt (vm.callFrames.length - 1) = some fr := by
  have h := VM.frameAt_top hfr
  rwa [hfr, List.length_cons, Nat.add_sub_cancel]

theorem framed_pushCall (h : Framed ex vm) (hfr : vm.callFrames = fr :: frs) (fi : UInt32)
    (first na dst : ℕ) (funobj : Option JelloFunction) :
    Ends (do
        let cf ← callArgs ex fr fi first na
        let i ← topIndex
        let _ ← vmPushFrame ex cf fr.f i dst first na funobj true
        pure .continue_ : VMM OpResult) (fun _ vm' ↦ Framed ex vm') vm := by
  refine spec_bind.mpr (ends_callArgs fun hlt ↦ spec_bind.mpr ((spec_read _).mpr ?_))
  refine spec_bind.mpr ((framed_vmPushFrame h hlt (fun fr' hat ↦ ?_) dst first na funobj true).mono
    fun _ vm' h' ↦ (spec_pure _).mpr h')
  rw [frameAt_topIndex hfr, Option.some.injEq] at hat
  rw [hat]

theorem framed_replaceCall (f : ℕ) (fi : UInt32) (first na : ℕ) (funobj : Option JelloFunction) :
    Keeps (fun _ ↦ True) (KeepsFrames ex) (do
        let cf ← callArgs ex fr fi first na
        vmReplaceFrame ex cf f first na funobj
        pure .continue_ : VMM OpResult) := by
  intro vm
  refine spec_bind.mpr (ends_callArgs fun hlt ↦ spec_bind.mpr ?_)
  exact (framed_vmReplaceFrame hlt first na funobj).then fun _ _ hk ↦ (spec_pure _).mpr hk

theorem framed_opCall (h : Framed ex vm) :
    Ends (opCall ex ins) (fun _ vm' ↦ Framed ex vm') vm := by
  refine spec_bind.mpr (ends_topFrame fun fr frs hfr ↦ spec_bind.mpr (ends_onStore fun b s ↦ ?_))
  have h₁ : Framed ex (vm.setStore s) := framed_of_frames h rfl
  refine spec_ite.mpr ⟨fun _ ↦ spec_ite.mpr ⟨fun _ ↦ ?_, fun _ ↦ ?_⟩, fun _ ↦ (spec_pure _).mpr h₁⟩
  · exact h₁.keeps (keeps_bind (framed_onStore _) fun _ ↦ keeps_pure _)
  · exact framed_pushCall h₁ hfr _ _ _ _ _

theorem framed_inlineCall (h : Framed ex vm) :
    Ends (inlineCall ex ins) (fun _ vm' ↦ Framed ex vm') vm := by
  refine spec_bind.mpr (ends_topFrame fun fr frs hfr ↦ spec_bind.mpr (ends_onStore fun b s ↦ ?_))
  have h₁ : Framed ex (vm.setStore s) := framed_of_frames h rfl
  have hfr₁ : (vm.setStore s).callFrames = fr :: frs := hfr
  refine spec_ite.mpr ⟨fun _ ↦ spec_ite.mpr ⟨fun _ ↦ ?_, fun _ ↦ ?_⟩, fun _ ↦ (spec_pure _).mpr h₁⟩
  · exact h₁.keeps (keeps_bind (framed_onStore _) fun _ ↦ keeps_pure _)
  refine spec_bind.mpr (ends_callArgs fun hlt ↦ spec_bind.mpr ((spec_read _).mpr ?_))
  refine spec_ite.mpr ⟨fun hself ↦ spec_bind.mpr ?_, fun _ ↦ spec_bind.mpr ((spec_read _).mpr ?_)⟩
  · exact (framed_vmPushSelfNumeric h₁ hfr₁ (by simpa using hself.2.1) _ _ _).mono
      fun _ _ h' ↦ (spec_pure _).mpr h'
  · refine spec_bind.mpr ((framed_vmPushFrame h₁ hlt (fun fr' hat ↦ ?_) _ _ _ _ _).mono
      fun _ vm' h' ↦ (spec_pure _).mpr h')
    rw [frameAt_topIndex hfr₁, Option.some.injEq] at hat
    rw [hat]

theorem framed_opCallr (h : Framed ex vm) :
    Ends (opCallr ex ins) (fun _ vm' ↦ Framed ex vm') vm := by
  refine spec_bind.mpr (ends_topFrame fun fr frs hfr ↦ spec_bind.mpr (ends_onStore fun b s ↦ ?_))
  have h₁ : Framed ex (vm.setStore s) := framed_of_frames h rfl
  refine spec_ite.mpr ⟨fun _ ↦ spec_bind.mpr (ends_onStore fun c s' ↦ ?_), fun _ ↦
    (spec_pure _).mpr h₁⟩
  have h₂ : Framed ex ((vm.setStore s).setStore s') := framed_of_frames h₁ rfl
  have hstore (x : StoreM Unit) : Ends (do onStore x; pure .continue_ : VMM OpResult)
      (fun _ vm' ↦ Framed ex vm') ((vm.setStore s).setStore s') :=
    h₂.keeps (keeps_bind (framed_onStore _) fun _ ↦ keeps_pure _)
  cases c with
  | notPointer v => exact hstore _
  | null => exact hstore _
  | notFunction => exact hstore _
  | prim fn => exact h₂.keeps (keeps_bind (framed_onStore _) fun _ ↦ keeps_pure _)
  | builtin fn => exact hstore _
  | bytecode fn => exact framed_pushCall h₂ hfr _ _ _ _ _

theorem framed_inlineCallr (h : Framed ex vm) :
    Ends (inlineCallr ex ins) (fun _ vm' ↦ Framed ex vm') vm := by
  refine spec_bind.mpr (ends_topFrame fun fr frs hfr ↦ spec_bind.mpr (ends_onStore fun b s ↦ ?_))
  have h₁ : Framed ex (vm.setStore s) := framed_of_frames h rfl
  refine spec_ite.mpr ⟨fun _ ↦ spec_bind.mpr (ends_onStore fun c s' ↦ ?_), fun _ ↦
    (spec_pure _).mpr h₁⟩
  have h₂ : Framed ex ((vm.setStore s).setStore s') := framed_of_frames h₁ rfl
  have hstore (x : StoreM Unit) (r : OpResult) : Ends (do onStore x; pure r : VMM OpResult)
      (fun _ vm' ↦ Framed ex vm') ((vm.setStore s).setStore s') :=
    h₂.keeps (keeps_bind (framed_onStore _) fun _ ↦ keeps_pure _)
  cases c with
  | notPointer v => exact hstore _ _
  | null => exact hstore _ _
  | notFunction => exact hstore _ _
  | prim fn => exact h₂.keeps (keeps_bind (framed_onStore _) fun _ ↦ keeps_pure _)
  | builtin fn => exact hstore _ _
  | bytecode fn => exact framed_pushCall h₂ hfr _ _ _ _ _

theorem framed_opTailcall : Keeps (fun _ ↦ True) (KeepsFrames ex) (opTailcall ex ins) := by
  refine framed_topFrame fun fr _ ↦ keeps_ite (fun _ ↦ ?_) fun _ ↦ framed_replaceCall _ _ _ _ _
  exact keeps_bind (framed_onStore _) fun _ ↦ framed_endNativeTail _ _

theorem framed_opTailcallr : Keeps (fun _ ↦ True) (KeepsFrames ex) (opTailcallr ex ins) := by
  refine framed_topFrame fun fr _ ↦ keeps_bind (framed_onStore _) fun c ↦ ?_
  cases c with
  | notPointer v => exact keeps_bind (framed_onStore _) fun _ ↦ keeps_pure _
  | null => exact keeps_fail _
  | notFunction => exact keeps_bind (framed_onStore _) fun _ ↦ keeps_pure _
  | prim fn => exact keeps_bind (framed_onStore _) fun b ↦
      keeps_ite (fun _ ↦ framed_endNativeTail _ _) fun _ ↦ keeps_pure _
  | builtin fn => exact keeps_bind (framed_onStore _) fun _ ↦ framed_endNativeTail _ _
  | bytecode fn => exact framed_replaceCall _ _ _ _ _

theorem framed_inlineTailcallr :
    Keeps (fun _ ↦ True) (KeepsFrames ex) (inlineTailcallr ex ins) := by
  refine framed_topFrame fun fr _ ↦ keeps_bind (framed_onStore _) fun c ↦ ?_
  cases c with
  | notPointer v => exact keeps_bind (framed_onStore _) fun _ ↦ keeps_pure _
  | null => exact keeps_bind (framed_onStore _) fun _ ↦ keeps_pure _
  | notFunction => exact keeps_bind (framed_onStore _) fun _ ↦ keeps_pure _
  | prim fn => exact keeps_bind (framed_onStore _) fun b ↦
      keeps_ite (fun _ ↦ framed_endNativeTail _ _) fun _ ↦ keeps_pure _
  | builtin fn => exact keeps_bind (framed_onStore _) fun _ ↦ framed_endNativeTail _ _
  | bytecode fn => exact framed_replaceCall _ _ _ _ _

theorem framed_opDispatch (build : Build) (h : Framed ex vm) :
    Ends (opDispatch ex build ins) (fun _ vm' ↦ Framed ex vm') vm := by
  cases hctl : controlOp ex build ins with
  | none =>
    simp only [opDispatch, hctl]
    exact h.keeps (keeps_bind (framed_onCtx _) fun _ ↦ keeps_pure _)
  | some x =>
    simp only [opDispatch, hctl]
    unfold controlOp at hctl
    split at hctl <;> simp only [Option.some.injEq, reduceCtorEq] at hctl <;> subst hctl
    · exact h.keeps (keeps_ite (fun _ ↦ framed_opRet) fun _ ↦ framed_labelRet)
    · exact h.keeps (keeps_ite (fun _ ↦ framed_opJmp) fun _ ↦ framed_labelJmp)
    · exact h.keeps framed_opJmpIf
    · exact h.keeps framed_opTry
    · exact h.keeps framed_opEndtry
    · exact h.keeps (framed_onCtx _)
    · exact h.keeps (framed_onCtx _)
    · exact framed_opCall h
    · exact framed_opCallr h
    · exact h.keeps framed_opTailcall
    · exact h.keeps framed_opTailcallr
    · exact h.keeps framed_opSwitchKind

theorem framed_inlineInsn (build : Build) (h : Framed ex vm) :
    Ends (inlineInsn ex build ins) (fun _ vm' ↦ Framed ex vm') vm := by
  cases hctl : inlineControl ex ins with
  | some x =>
    simp only [inlineInsn, hctl]
    unfold inlineControl at hctl
    split at hctl <;> simp only [Option.some.injEq, reduceCtorEq] at hctl <;> subst hctl
    · exact h.keeps framed_inlineRet
    · exact h.keeps framed_opJmp
    · exact h.keeps framed_opJmpIf
    · exact h.keeps (framed_onCtx _)
    · exact framed_inlineCall h
    · exact framed_inlineCallr h
    · exact h.keeps framed_opTailcall
    · exact h.keeps framed_inlineTailcallr
  | none =>
    simp only [inlineInsn, hctl]
    cases hinl : inlineOp ins.op with
    | some x => exact h.keeps (keeps_bind (framed_onCtx _) fun _ ↦ keeps_pure _)
    | none => exact framed_opDispatch build h

end Transfers

section Runs

variable {ex : Exec} {reference : Bool} {build : Build} {P : VM → Prop} {vm vm' : VM}

theorem framed_unwindTo (target : ℕ) (frs : List CallFrame) :
    Keeps (fun _ ↦ True) (KeepsFrames ex) (unwindTo target frs) := by
  induction frs with
  | nil => exact keeps_pure _
  | cons fr frs ih =>
    exact keeps_ite (fun _ ↦ keeps_bind (framed_change fun _ ↦ rfl) fun _ ↦
      keeps_bind (framed_release _) fun _ ↦ keeps_bind framed_popCallFrame fun _ ↦ ih) fun _ ↦
        keeps_pure _

theorem framed_vmUnwindAllFrames : Keeps (fun _ ↦ True) (KeepsFrames ex) vmUnwindAllFrames :=
  keeps_bind (keeps_read _) fun _ _ ↦ spec_bind.mpr (ends_iff.mpr fun _ _ _ ↦
    (spec_change _).mpr fun _ _ hmem ↦ absurd hmem List.not_mem_nil)

theorem framed_vmExcDispatch : Keeps (fun _ ↦ True) (KeepsFrames ex) (vmExcDispatch ex) := by
  refine keeps_bind (keeps_read _) fun vm ↦ keeps_ite (fun _ ↦ keeps_pure _) fun _ ↦ ?_
  split
  · exact keeps_bind framed_vmUnwindAllFrames fun _ ↦ keeps_bind (framed_change fun _ ↦ rfl)
      fun _ ↦ keeps_pure _
  · refine keeps_bind (framed_change fun _ ↦ rfl) fun _ ↦ keeps_bind (framed_unwindTo _ _) fun _ ↦
      framed_frameAtIndex _ fun target hlike ↦ ?_
    exact keeps_bind (framed_setTopFrame (hlike.setPc _)) fun _ ↦ keeps_bind (framed_onStore _)
      fun _ ↦ keeps_bind (framed_onStore _) fun _ ↦ keeps_bind (framed_onStore _) fun _ ↦
        keeps_pure _

theorem framed_checkExc : Keeps (fun _ ↦ True) (KeepsFrames ex) (checkExc ex) := by
  refine keeps_bind (keeps_read _) fun _ ↦ keeps_ite (fun _ ↦ keeps_pure _) fun _ ↦
    keeps_bind framed_vmExcDispatch fun b ↦ keeps_ite (fun _ ↦ keeps_pure _) fun _ ↦
      keeps_bind (keeps_read _) fun _ ↦ keeps_ite (fun _ ↦ ?_) fun _ ↦ keeps_pure _
  exact keeps_bind (framed_setOut _) fun _ ↦ keeps_pure _

theorem framed_fetch : Keeps (fun _ ↦ True) (KeepsFrames ex) (fetch ex) := by
  refine framed_topFrame fun fr hlike ↦ keeps_bind (keeps_note trivial) fun _ ↦ ?_
  split
  · exact keeps_fail _
  · exact keeps_bind (framed_setTopFrame (hlike.setPc _)) fun _ ↦ keeps_pure _

theorem framed_execInsn (h : Framed ex vm) :
    Ends (execInsn ex reference build) (fun _ vm' ↦ Framed ex vm') vm := by
  refine spec_bind.mpr ((h.keeps framed_fetch).mono fun ins vm₁ h₁ ↦ ?_)
  cases reference with
  | true => exact spec_bind.mpr ((framed_opDispatch build h₁).mono fun _ _ h₂ ↦ (spec_pure _).mpr h₂)
  | false => exact spec_bind.mpr ((framed_inlineInsn build h₁).mono fun _ _ h₂ ↦ (spec_pure _).mpr h₂)

theorem framed_resetRun {Q : Unit → VM → Prop}
    (hQ : ∀ vm', Framed ex vm' → (∀ fr i, vm'.frameAt i ≠ some fr) → Q () vm') :
    Ends (resetRun ex) Q vm := by
  refine (spec_change _).mpr (hQ _ (fun fr hmem ↦ absurd hmem List.not_mem_nil) fun fr i hat ↦ ?_)
  simp [VM.frameAt] at hat

theorem Starts.framed (hentry : ex.m.entry < ex.m.funcs.length) (h : Starts ex vm) :
    Framed ex vm := by
  cases h with
  | entry vm₀ h =>
    have hends : Ends (execEntry ex) (fun _ vm' ↦ Framed ex vm') vm₀ :=
      spec_bind.mpr (framed_resetRun fun vm₁ h₁ hno ↦
        framed_vmPushFrame h₁ hentry (fun fr hat ↦ absurd hat (hno fr 0)) _ _ _ _ _)
    exact hends.of_result h
  | chunk vm₀ f args h =>
    have hends : Ends (execChunk ex f args) (fun _ vm' ↦ Framed ex vm') vm₀ :=
      spec_ite.mpr ⟨fun _ ↦ spec_fail _, fun hf ↦ spec_bind.mpr (framed_resetRun fun vm₁ h₁ _ ↦
        h₁.keeps (framed_vmPushFrameEntry (by omega) _ _))⟩
    exact hends.of_result h
  | closure vm₀ fn args h =>
    have hends : Ends (execClosure ex fn args) (fun _ vm' ↦ Framed ex vm') vm₀ := by
      refine spec_bind.mpr (framed_resetRun fun vm₁ h₁ _ ↦ spec_ite.mpr ⟨fun _ ↦
        (spec_pure _).mpr h₁, fun _ ↦ spec_ite.mpr ⟨fun _ ↦ (spec_pure _).mpr h₁, fun hf ↦ ?_⟩⟩)
      exact h₁.keeps (framed_vmPushFrameEntry (by omega) _ _)
    exact hends.of_result h

theorem Run.framed (hentry : ex.m.entry < ex.m.funcs.length)
    (h : Run ex reference build P vm) : Framed ex vm := by
  induction h with
  | start h => exact h.framed hentry
  | round _ hhead _ hbody ih =>
    exact (framed_execInsn ((ih.keeps framed_checkExc).of_result hhead)).of_result hbody

theorem Fetches.framed (hentry : ex.m.entry < ex.m.funcs.length)
    (h : Fetches ex reference build P vm) : Framed ex vm := by
  obtain ⟨vm', hrun, hhead⟩ := h
  exact ((hrun.framed hentry).keeps framed_checkExc).of_result hhead

end Runs

end JelloVM
