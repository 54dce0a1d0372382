import JelloVM.OpSpec.Container
import JelloVM.Ret

namespace JelloVM

open ByteMemory Logged

/-- A frame without its registers. -/
structure Act where
  f : ℕ
  pc : ℕ
  callerDst : ℕ
  excBase : ℕ
  hasCaller : Bool
  jdllRetCapture : Bool
  deriving DecidableEq, Repr

def CallFrame.act (fr : CallFrame) : Act :=
  { f := fr.f
    pc := fr.pc
    callerDst := fr.callerDst
    excBase := fr.excBase
    hasCaller := fr.hasCaller
    jdllRetCapture := fr.jdllRetCapture }

/-- The machine without its register areas: what control depends on. -/
structure Ctl where
  acts : List Act
  handlers : List ExcHandler
  store : Store

def VM.ctl (vm : VM) : Ctl :=
  { acts := vm.callFrames.map CallFrame.act
    handlers := vm.excHandlers
    store := vm.store }

/-- Frames and handlers have stayed, whatever happened to the register areas. -/
structure SameCtl (vm vm' : VM) : Prop where
  acts : vm'.ctl.acts = vm.ctl.acts
  handlers : vm'.excHandlers = vm.excHandlers
  store : Still vm.store vm'.store

instance : IsPreorder VM SameCtl where
  refl vm := ⟨rfl, rfl, refl_of Still vm.store⟩
  trans _ _ _ h h' := ⟨h'.acts.trans h.acts, h'.handlers.trans h.handlers,
    trans_of Still h.store h'.store⟩

section Frames

variable {ex : Exec} {vm : VM} {P : Access → Prop}

theorem keeps_onStore {α : Type} {x : StoreM α} (h : Keeps P Still x) :
    Keeps P SameCtl (onStore x) :=
  keeps_onPart h fun _ _ hs ↦ ⟨rfl, rfl, hs⟩

theorem act_rebase (frs : List CallFrame) (old new : ℕ) :
    (frs.map fun fr ↦ { fr with rf := fr.rf.rebase old new }).map CallFrame.act =
      frs.map CallFrame.act := by
  rw [List.map_map]
  rfl

theorem keeps_vmFrameStackGrow (need : ℕ) : Keeps P SameCtl (vmFrameStackGrow ex need) := by
  intro vm
  simp only [vmFrameStackGrow, spec_bind, spec_read, id, spec_ite, spec_pure]
  refine ⟨fun _ ↦ refl_of SameCtl vm, fun _ ↦ ?_⟩
  split
  · exact spec_fail _
  · simp only [spec_ite, spec_change]
    refine ⟨fun _ ↦ spec_fail _, fun _ ↦ ⟨fun _ ↦ ⟨rfl, rfl, refl_of Still vm.store⟩, fun _ ↦ ?_⟩⟩
    exact ⟨act_rebase _ _ _, rfl, ⟨rfl, rfl, ⟨rfl, rfl, rfl, rfl⟩, rfl⟩⟩

theorem SameCtl.top {vm vm' : VM} (h : SameCtl vm vm') (top : ℕ) :
    SameCtl vm { vm' with frameStackTop := top } := ⟨h.acts, h.handlers, h.store⟩

theorem keeps_vmFrameStackBump (size : ℕ) : Keeps P SameCtl (vmFrameStackBump ex size) := by
  intro vm
  unfold vmFrameStackBump
  split_ifs with h0
  · exact keeps_pure _ vm
  · simp only [spec_bind, spec_read, id, spec_ite, spec_change, spec_pure]
    exact ⟨fun _ ↦ (keeps_vmFrameStackGrow size).then fun _ _ h ↦ h.top _,
      fun _ ↦ (refl_of SameCtl vm).top _⟩

theorem keeps_vmRfRelease (rf : RegFrame) : Keeps P SameCtl (vmRfRelease rf) := by
  intro vm
  simp only [vmRfRelease, spec_bind, spec_read, id, spec_ite, spec_pure, spec_change]
  exact ⟨fun _ ↦ refl_of SameCtl vm, fun _ ↦ ⟨fun _ ↦ (refl_of SameCtl vm).top _,
    fun _ ↦ spec_fail _⟩⟩

theorem keeps_resetFrameStack : Keeps P SameCtl resetFrameStack := by
  refine keeps_change fun vm ↦ ?_
  split_ifs
  · exact (refl_of SameCtl vm).top 0
  · exact refl_of SameCtl vm

end Frames

section Registers

variable {m : JelloBcModule} {fpu : Fpu} {f g : ℕ} {rf rf' : RegFrame}

theorem still_fill (a w : ℕ) (v : UInt8) : Keeps (fun _ ↦ True) Still
    (change fun s ↦ { s with mem := fill s.mem a w v } : StoreM Unit) :=
  keeps_change fun _ ↦ ⟨rfl, rfl, ⟨rfl, rfl, rfl, rfl⟩, rfl⟩

theorem still_paste (a w : ℕ) (src : Mem) : Keeps (fun _ ↦ True) Still
    (change fun s ↦ { s with mem := paste s.mem a w src } : StoreM Unit) :=
  keeps_change fun _ ↦ ⟨rfl, rfl, ⟨rfl, rfl, rfl, rfl⟩, rfl⟩

theorem still_kind (m : JelloBcModule) (f r : ℕ) :
    Keeps (fun _ ↦ True) Still (vmRegKind m f r) :=
  keeps_vmRegKind (regOk_true m f default r)

theorem still_regTypeOf (m : JelloBcModule) (f r : ℕ) :
    Keeps (fun _ ↦ True) Still (regTypeOf m f r) :=
  keeps_regTypeOf trivial

theorem still_typeOf (m : JelloBcModule) (tid : ℕ) :
    Keeps (fun _ ↦ True) Still (typeOf m tid) :=
  keeps_typeOf trivial

theorem still_vmLoad64 (rf : RegFrame) (r : ℕ) : Keeps (fun _ ↦ True) Still (vmLoad64 rf r) :=
  keeps_vmLoad64 trivial

theorem still_vmStore64 (rf : RegFrame) (r : ℕ) (v : UInt64) :
    Keeps (fun _ ↦ True) Still (vmStore64 rf r v) :=
  keeps_vmStore64 trivial v

theorem still_copySlot (dst : RegFrame) (d : ℕ) (src : RegFrame) (r sz : ℕ) :
    Keeps (fun _ ↦ True) Still (copySlot dst d src r sz) :=
  keeps_copySlot trivial trivial

theorem still_box (m : JelloBcModule) (f : ℕ) (rf : RegFrame) (r : ℕ) :
    Keeps (fun _ ↦ True) Still (vmBoxFromTyped m f rf r) :=
  keeps_vmBoxFromTyped (regOk_true m f rf r)

theorem still_unbox (m : JelloBcModule) (fpu : Fpu) (f : ℕ) (rf : RegFrame) (r : ℕ)
    (v : JelloValue) : Keeps (fun _ ↦ True) Still (vmStoreFromBoxed m fpu f rf r v) :=
  keeps_vmStoreFromBoxed (regOk_true m f rf r) fpu v

theorem still_boxRegs (m : JelloBcModule) (f : ℕ) (rf : RegFrame) (r n : ℕ) :
    Keeps (fun _ ↦ True) Still (boxRegs m f rf r n) := by
  induction n generalizing r with
  | zero => exact keeps_pure _
  | succ n ih =>
    exact keeps_bind (still_box m f rf r) fun _ ↦ keeps_bind (ih _) fun _ ↦ keeps_pure _

theorem keeps_initRegs (hpd : Bool) :
    Keeps (fun _ ↦ True) Still (initRegs m f rf hpd) := by
  refine keeps_ite (fun _ ↦ keeps_bind (still_fill _ _ _) fun _ ↦ keeps_loop _ _ fun r _ _ ↦ ?_)
    fun _ ↦ keeps_pure _
  exact keeps_bind (still_kind m f r) fun k ↦
    keeps_ite (fun _ ↦ still_vmStore64 _ _ _) fun _ ↦ keeps_pure _

theorem keeps_vmArgTypesCompatible (src dst : ℕ) :
    Keeps (fun _ ↦ True) Still (vmArgTypesCompatible m src dst) :=
  keeps_ite (fun _ ↦ keeps_pure _) fun _ ↦ keeps_ite (fun _ ↦ keeps_pure _) fun _ ↦
    keeps_bind (still_typeOf _ _) fun _ ↦ keeps_bind (still_typeOf _ _) fun _ ↦
    keeps_pure _

theorem keeps_argTypesMatch (n src dst : ℕ) :
    Keeps (fun _ ↦ True) Still (argTypesMatch m f g src dst n) := by
  induction n generalizing src dst with
  | zero => exact keeps_pure _
  | succ n ih =>
    exact keeps_bind (still_regTypeOf _ _ _) fun srcTid ↦
      keeps_bind (still_regTypeOf _ _ _) fun dstTid ↦
      keeps_bind (keeps_vmArgTypesCompatible _ _) fun b ↦
      keeps_ite (fun _ ↦ ih _ _) fun _ ↦ keeps_pure _

theorem keeps_vmCanUseFastArgCopy (first nargs base : ℕ) (funobj : Option JelloFunction) :
    Keeps (fun _ ↦ True) Still (vmCanUseFastArgCopy m f g first nargs base funobj) :=
  keeps_ite (fun _ ↦ keeps_pure _) fun _ ↦ keeps_ite (fun _ ↦ keeps_pure _) fun _ ↦
    keeps_argTypesMatch _ _ _

theorem keeps_copyArgs (first nargs : ℕ) :
    Keeps (fun _ ↦ True) Still (copyArgs m f rf rf' first nargs) :=
  keeps_loop _ _ fun i _ _ ↦ keeps_bind (still_kind m f i) fun _ ↦ still_copySlot _ _ _ _ _

theorem keeps_vmCopyArgStrict (src dst : ℕ) :
    Keeps (fun _ ↦ True) Still (vmCopyArgStrict m fpu f rf src g rf' dst) := by
  refine keeps_bind (still_regTypeOf _ _ _) fun srcTid ↦
    keeps_bind (still_regTypeOf _ _ _) fun dstTid ↦ keeps_ite (fun _ ↦ keeps_fail _) fun _ ↦
    keeps_bind (still_typeOf _ _) fun s ↦ keeps_bind (still_typeOf _ _) fun d ↦
    keeps_ite (fun _ ↦ still_copySlot _ _ _ _ _) fun _ ↦ keeps_ite (fun _ ↦ ?_) fun _ ↦
    keeps_ite (fun _ ↦ ?_) fun _ ↦ keeps_fail _
  · exact keeps_bind (still_vmLoad64 _ _) fun v ↦
      still_unbox _ _ _ _ _ _
  · exact keeps_bind (still_box _ _ _ _) fun v ↦
      still_vmStore64 _ _ _

theorem keeps_storeRawCaps (raw : Mem) (n r off : ℕ) :
    Keeps (fun _ ↦ True) Still (storeRawCaps m f rf raw r n off) := by
  induction n generalizing r off with
  | zero => exact keeps_pure _
  | succ n ih =>
    exact keeps_bind (still_kind m f r) fun k ↦ keeps_bind (keeps_note trivial) fun _ ↦
      keeps_bind (still_paste _ _ _) fun _ ↦ ih _ _

theorem keeps_storeCaps (fn : JelloFunction) (start : ℕ) :
    Keeps (fun _ ↦ True) Still (storeCaps m fpu f rf fn start) :=
  keeps_ite (fun _ ↦ keeps_storeRawCaps _ _ _ _) fun _ ↦
    keeps_loop _ _ fun _ _ _ ↦ still_unbox _ _ _ _ _ _

theorem keeps_initCaps (funobj : Option JelloFunction) (used : ℕ) :
    Keeps (fun _ ↦ True) Still (initCaps m fpu f rf funobj used) := by
  cases funobj with
  | none => exact keeps_pure _
  | some fn =>
    exact keeps_ite (fun _ ↦ keeps_pure _) fun _ ↦ keeps_ite (fun _ ↦ keeps_fail _) fun _ ↦
      keeps_ite (fun _ ↦ keeps_fail _) fun _ ↦ keeps_storeCaps _ _

theorem keeps_initThis (funobj : Option JelloFunction) :
    Keeps (fun _ ↦ True) Still (initThis m fpu f rf funobj) := by
  cases funobj with
  | none => exact keeps_pure _
  | some fn =>
    exact keeps_ite (fun _ ↦ keeps_pure _) fun _ ↦ keeps_ite (fun _ ↦ keeps_fail _) fun _ ↦
      keeps_bind (still_unbox _ _ _ _ _ _) fun _ ↦ keeps_pure _

theorem keeps_vmInitArgsAndCaps (first nargs : ℕ) (funobj : Option JelloFunction) :
    Keeps (fun _ ↦ True) Still (vmInitArgsAndCaps m fpu f rf g rf' first nargs funobj) :=
  keeps_bind (keeps_initThis _) fun _ ↦ keeps_ite (fun _ ↦ keeps_fail _) fun _ ↦
    keeps_bind (keeps_loop _ _ fun _ _ _ ↦ keeps_vmCopyArgStrict _ _) fun _ ↦ keeps_initCaps _ _

theorem keeps_vmInitClosureArgsFromValues (funobj : Option JelloFunction)
    (args : List JelloValue) :
    Keeps (fun _ ↦ True) Still (vmInitClosureArgsFromValues m fpu f rf funobj args) :=
  keeps_bind (keeps_initThis _) fun _ ↦ keeps_ite (fun _ ↦ keeps_fail _) fun _ ↦
    keeps_bind (keeps_loop _ _ fun _ _ _ ↦ still_unbox _ _ _ _ _ _) fun _ ↦ keeps_initCaps _ _

theorem keeps_vmInheritSelfCaptureSlots (nargs : ℕ) :
    Keeps (fun _ ↦ True) Still (vmInheritSelfCaptureSlots m f rf rf' nargs) :=
  keeps_ite (fun _ ↦ keeps_pure _) fun _ ↦ keeps_ite (fun _ ↦ keeps_pure _) fun _ ↦
    keeps_loop _ _ fun r _ _ ↦ keeps_ite (fun _ ↦ keeps_pure _) fun _ ↦
    keeps_bind (still_kind m f r) fun _ ↦ still_copySlot _ _ _ _ _

theorem keeps_passArgs (ex : Exec) (first nargs : ℕ) (funobj : Option JelloFunction) :
    Keeps (fun _ ↦ True) Still (passArgs ex f rf g rf' first nargs funobj) := by
  have hinherit : Keeps (fun _ ↦ True) Still
      (if g = f ∧ funobj.isNone then vmInheritSelfCaptureSlots ex.m f rf rf' nargs else pure ()) :=
    keeps_ite (fun _ ↦ keeps_vmInheritSelfCaptureSlots _) fun _ ↦ keeps_pure _
  have hpass (fast : Bool) : Keeps (fun _ ↦ True) Still (do
      if fast then copyArgs ex.m f rf rf' first nargs
      else vmInitArgsAndCaps ex.m ex.fpu f rf g rf' first nargs funobj
      if g = f ∧ funobj.isNone then vmInheritSelfCaptureSlots ex.m f rf rf' nargs else pure ()) :=
    keeps_ite (fun _ ↦ keeps_bind (keeps_copyArgs _ _) fun _ ↦ hinherit) fun _ ↦
      keeps_bind (keeps_vmInitArgsAndCaps _ _ _) fun _ ↦ hinherit
  refine keeps_ite (fun _ ↦ keeps_bind (keeps_vmCanUseFastArgCopy _ _ _ _) fun fast ↦ ?_) fun _ ↦ ?_
  · exact hpass fast
  · exact keeps_bind (keeps_pure _) fun fast ↦ hpass fast

theorem keeps_saveArgs (first base : ℕ) (n i : ℕ) (buf : Mem) :
    Keeps (fun _ ↦ True) Still (saveArgs m f rf first base i n buf) := by
  induction n generalizing i buf with
  | zero => exact keeps_pure _
  | succ n ih =>
    exact keeps_bind (still_kind m f _) fun k ↦ keeps_bind (keeps_note trivial) fun _ ↦
      keeps_bind (keeps_read _) fun mem ↦ ih _ _

theorem keeps_restoreArgs (base nargs : ℕ) (buf : Mem) :
    Keeps (fun _ ↦ True) Still (restoreArgs m f rf base nargs buf) :=
  keeps_loop _ _ fun _ _ _ ↦ keeps_bind (still_kind m f _) fun _ ↦
    keeps_bind (keeps_note trivial) fun _ ↦ still_paste _ _ _

theorem keeps_refillRaw (ex : Exec) (hpd : Bool) (this : Option JelloValue) (base nargs : ℕ)
    (buf : Mem) : Keeps (fun _ ↦ True) Still (refillRaw ex f rf hpd this base nargs buf) := by
  refine keeps_bind (keeps_initRegs _) fun _ ↦ ?_
  cases this with
  | none => exact keeps_bind (keeps_pure _) fun _ ↦ keeps_restoreArgs _ _ _
  | some v => exact keeps_bind (still_unbox _ _ _ _ _ _) fun _ ↦ keeps_restoreArgs _ _ _

theorem keeps_typedOr (first nargs : ℕ) (funobj : Option JelloFunction) {rest : StoreM TailPath}
    (hrest : Keeps (fun _ ↦ True) Still rest) :
    Keeps (fun _ ↦ True) Still (do
      let typed ← if nargs ≤ vmFastArgNargsMaxTail then
          if funobj.isNone ∧ g = f then pure true
          else vmCanUseFastArgCopy m g f first nargs 0 funobj
        else pure false
      if typed then pure .typed else rest : StoreM TailPath) := by
  have hthen (typed : Bool) := keeps_ite (c := typed = true) (fun _ ↦ keeps_pure (P := fun _ ↦ True)
    (R := Still) TailPath.typed) fun _ ↦ hrest
  refine keeps_ite (fun _ ↦ keeps_ite (fun _ ↦ ?_) fun _ ↦ ?_) fun _ ↦ ?_
  · exact keeps_bind (keeps_pure _) fun typed ↦ hthen typed
  · exact keeps_bind (keeps_vmCanUseFastArgCopy _ _ _ _) fun typed ↦ hthen typed
  · exact keeps_bind (keeps_pure _) fun typed ↦ hthen typed

theorem keeps_tailPath (first nargs : ℕ) (funobj : Option JelloFunction) :
    Keeps (fun _ ↦ True) Still (tailPath m f g first nargs funobj) := by
  cases funobj with
  | none => exact keeps_typedOr first nargs none (keeps_pure TailPath.boxed)
  | some fn =>
    refine keeps_typedOr first nargs (some fn) ?_
    exact keeps_ite (fun _ ↦ keeps_bind (keeps_vmCanUseFastArgCopy _ _ _ _) fun _ ↦
      keeps_ite (fun _ ↦ keeps_pure _) fun _ ↦ keeps_pure _) fun _ ↦ keeps_pure _

theorem keeps_refillBoxed (ex : Exec) (hpd : Bool) (funobj : Option JelloFunction)
    (args : List JelloValue) :
    Keeps (fun _ ↦ True) Still (refillBoxed ex f rf hpd funobj args) := by
  have hargs (base : ℕ) : Keeps (fun _ ↦ True) Still
      (loop (fun i ↦ vmStoreFromBoxed ex.m ex.fpu f rf (base + i) (args.getD i 0)) 0 args.length) :=
    keeps_loop _ _ fun _ _ _ ↦ still_unbox _ _ _ _ _ _
  refine keeps_bind (keeps_initRegs _) fun _ ↦ ?_
  cases funobj with
  | none => exact keeps_bind (keeps_pure _) fun base ↦ keeps_bind (hargs base) fun _ ↦ keeps_pure _
  | some fn =>
    have hcaps : Keeps (fun _ ↦ True) Still (if fn.ncaps = 0 then pure ()
        else storeCaps ex.m ex.fpu f rf fn (capStart ex.m f rf.nregs fn.ncaps.toNat)) :=
      keeps_ite (fun _ ↦ keeps_pure _) fun _ ↦ keeps_storeCaps _ _
    refine keeps_ite (fun _ ↦ ?_) fun _ ↦ ?_
    · exact keeps_bind (keeps_pure _) fun base ↦ keeps_bind (hargs base) fun _ ↦ hcaps
    · exact keeps_bind (still_unbox _ _ _ _ _ _) fun _ ↦ keeps_bind (keeps_pure _) fun base ↦
        keeps_bind (hargs base) fun _ ↦ hcaps

end Registers

/-- The machine is at `c`, but for registers, the heap and the caches. -/
structure Now (c : Ctl) (vm : VM) : Prop where
  acts : vm.ctl.acts = c.acts
  handlers : vm.excHandlers = c.handlers
  store : Still c.store vm.store

/-- The activations have become `acts`. -/
abbrev NowActs (acts : List Act) (vm vm' : VM) : Prop := Now { vm.ctl with acts := acts } vm'

section Calls

variable {ex : Exec} {vm : VM} {fr : CallFrame} {frs : List CallFrame} {acts : List Act}

theorem Now.then {c : Ctl} {vm' : VM} (h : Now c vm) (h' : SameCtl vm vm') : Now c vm' :=
  ⟨h'.acts.trans h.acts, h'.handlers.trans h.handlers, trans_of Still h.store h'.store⟩

theorem SameCtl.nowActs {vm' vm'' : VM} (h : SameCtl vm vm') (h' : NowActs acts vm' vm'') :
    NowActs acts vm vm'' :=
  ⟨h'.acts, h'.handlers.trans h.handlers, trans_of Still h.store h'.store⟩

theorem ends_sameCtl {α : Type} {x : VMM α} {Q : α → VM → Prop}
    (hx : Keeps (fun _ ↦ True) SameCtl x) (hQ : ∀ a vm', SameCtl vm vm' → Q a vm') :
    Ends x Q vm := hx.then hQ

theorem ends_pushCallFrame_ctl {vm₁ : VM} (h : SameCtl vm vm₁) {Q : Unit → VM → Prop}
    (hQ : ∀ vm', NowActs (fr.act :: vm.ctl.acts) vm vm' → Q () vm') :
    Ends (pushCallFrame fr) Q vm₁ := by
  refine (spec_change _).mpr (hQ _ ⟨?_, h.handlers, h.store⟩)
  exact congrArg (fr.act :: ·) h.acts

theorem ends_pushFreshFrame_ctl (f dst : ℕ) (hasCaller capture : Bool) :
    Ends (pushFreshFrame ex f dst hasCaller capture)
      (fun _ ↦ NowActs (⟨f, 0, dst, vm.excHandlers.length, hasCaller, capture⟩ :: vm.ctl.acts) vm)
      vm := by
  simp only [pushFreshFrame, spec_bind]
  refine ends_sameCtl (keeps_vmFrameStackBump _) fun mem vm₁ h₁ ↦ ?_
  rw [spec_read, h₁.handlers]
  refine ends_pushCallFrame_ctl h₁ fun vm₂ h₂ ↦ ?_
  exact ends_sameCtl (keeps_onStore (keeps_initRegs _)) fun _ vm₃ h₃ ↦
    (spec_pure _).mpr (h₂.then h₃)

theorem keeps_frameAtIndex (i : ℕ) : Keeps (fun _ ↦ True) SameCtl (frameAtIndex i) := by
  refine keeps_bind (keeps_read _) fun fr ↦ ?_
  cases fr with
  | some fr => exact keeps_pure _
  | none => exact keeps_fail _

/-- Nothing has changed but that a trap is pending. -/
structure Refused (vm vm' : VM) : Prop where
  acts : vm'.ctl.acts = vm.ctl.acts
  handlers : vm'.excHandlers = vm.excHandlers
  store : Quiet vm.store vm'.store
  trapped : Trapped vm'.store

theorem SameCtl.refused {vm' vm'' : VM} (h : SameCtl vm vm') (h' : Refused vm' vm'') :
    Refused vm vm'' :=
  ⟨h'.acts.trans h.acts, h'.handlers.trans h.handlers, trans_of Quiet h.store.quiet h'.store,
    h'.trapped⟩

/-- A frame was pushed, or there was no room. -/
def PushedOr (a : Act) (vm : VM) (b : Bool) (vm' : VM) : Prop :=
  if b then NowActs (a :: vm.ctl.acts) vm vm' else Refused vm vm'

theorem ends_stackOverflow_ctl (a : Act) :
    Ends (do stackOverflow; pure false : VMM Bool) (PushedOr a vm) vm := by
  have htrap (s : Store) (msg : Option (List UInt8)) : Trapped
      { s with
        trapCode := .stackOverflow
        trapMsg := msg
        excPending := true
        excPayload := jelloMakeI32 TrapCode.stackOverflow.code } :=
    ⟨rfl, TrapCode.noConfusion, TrapCode.noConfusion, rfl⟩
  refine spec_bind.mpr (spec_onPart (spec_setTrap.mpr ((spec_pure _).mpr ?_)))
  exact ⟨rfl, rfl, ⟨⟨rfl, rfl, .inr (htrap _ _)⟩, rfl⟩, htrap _ _⟩

theorem ends_pushGeneral_ctl (f g idx dst first nargs : ℕ) (funobj : Option JelloFunction)
    (hasCaller : Bool) :
    Ends (pushGeneral ex f g idx dst first nargs funobj hasCaller)
      (PushedOr ⟨f, 0, dst, vm.excHandlers.length, hasCaller, false⟩ vm) vm := by
  simp only [pushGeneral, spec_bind]
  refine (ends_pushFreshFrame_ctl f dst hasCaller false).mono fun rf vm₁ h₁ ↦ ?_
  refine spec_ite.mpr ⟨fun _ ↦ ?_, fun _ ↦ (spec_pure _).mpr h₁⟩
  simp only [spec_bind, spec_read]
  refine spec_ite.mpr ⟨fun _ ↦ spec_fail _, fun _ ↦ ?_⟩
  simp only [spec_bind]
  refine ends_sameCtl (keeps_frameAtIndex _) fun caller vm₂ h₂ ↦ ?_
  refine ends_sameCtl (keeps_onStore (keeps_passArgs ex _ _ _)) fun _ vm₃ h₃ ↦ ?_
  exact (spec_pure _).mpr ((h₁.then h₂).then h₃)

theorem ends_vmPushFrame_ctl (f g idx dst first nargs : ℕ) (funobj : Option JelloFunction)
    (hasCaller : Bool) :
    Ends (vmPushFrame ex f g idx dst first nargs funobj hasCaller)
      (PushedOr ⟨f, 0, dst, vm.excHandlers.length, hasCaller, false⟩ vm) vm := by
  have hgeneral {vm' : VM} (h : SameCtl vm vm') (hc : Bool) (hhc : hc = hasCaller) :
      Ends (pushGeneral ex f g idx dst first nargs funobj hc)
        (PushedOr ⟨f, 0, dst, vm.excHandlers.length, hasCaller, false⟩ vm) vm' := by
    refine (ends_pushGeneral_ctl f g idx dst first nargs funobj hc).mono fun b vm'' hb ↦ ?_
    cases b with
    | true =>
      have hpush := h.nowActs (show NowActs _ _ _ from hb)
      rw [h.handlers, h.acts, hhc] at hpush
      exact hpush
    | false => exact h.refused (show Refused vm' vm'' from hb)
  simp only [vmPushFrame, spec_bind, spec_read, id, spec_ite]
  refine ⟨fun _ ↦ ?_, fun _ ↦ ends_sameCtl keeps_resetFrameStack fun _ vm₁ h₁ ↦
    ⟨fun hself ↦ ⟨fun _ ↦ spec_fail _, fun _ ↦ ?_⟩, fun _ ↦ hgeneral h₁ _ rfl⟩⟩
  · exact spec_bind.mp (ends_stackOverflow_ctl _)
  · refine ends_sameCtl (keeps_frameAtIndex idx) fun caller vm₂ h₂ ↦ ?_
    have h₁₂ := trans_of SameCtl h₁ h₂
    refine ⟨fun _ ↦ ?_, fun _ ↦ hgeneral h₁₂ true hself.1.symm⟩
    refine ends_sameCtl (keeps_vmFrameStackBump _) fun mem vm₃ h₃ ↦ ?_
    refine ends_sameCtl (keeps_frameAtIndex idx) fun caller' vm₄ h₄ ↦ ?_
    have h := trans_of SameCtl (trans_of SameCtl h₁₂ h₃) h₄
    rw [h.handlers]
    refine ends_pushCallFrame_ctl h fun vm₅ h₅ ↦ ?_
    refine ends_sameCtl (keeps_onStore (keeps_copyArgs _ _)) fun _ vm₆ h₆ ↦ (spec_pure _).mpr ?_
    rw [hself.1]
    exact h₅.then h₆

theorem ends_vmPushSelfNumeric_ctl (hfr : vm.callFrames = fr :: frs) (first nargs dst : ℕ) :
    Ends (vmPushSelfNumeric ex first nargs dst)
      (fun _ ↦ NowActs (⟨fr.f, 0, dst, vm.excHandlers.length, true, false⟩ :: vm.ctl.acts) vm)
      vm := by
  simp only [vmPushSelfNumeric, spec_bind]
  refine ends_topFrame fun fr' frs' hfr' ↦ ?_
  obtain ⟨rfl, rfl⟩ : fr = fr' ∧ frs = frs' := by simpa using hfr.symm.trans hfr'
  refine ends_sameCtl (keeps_vmFrameStackBump _) fun mem vm₁ h₁ ↦ ?_
  refine ends_topFrame fun fr₁ frs₁ hfr₁ ↦ ?_
  have hf : fr₁.f = fr.f := by
    have hacts := h₁.acts
    simp only [VM.ctl, hfr₁, hfr, List.map_cons, List.cons.injEq] at hacts
    exact congrArg Act.f hacts.1
  rw [spec_read, h₁.handlers, ← hf]
  refine ends_pushCallFrame_ctl h₁ fun vm₂ h₂ ↦ ?_
  exact ends_sameCtl (keeps_onStore (keeps_copyArgs _ _)) fun _ vm₃ h₃ ↦ h₂.then h₃

theorem ends_setTopFrame_ctl {vm₁ : VM} {a : Act} (h : NowActs (a :: acts) vm vm₁)
    {Q : Unit → VM → Prop} (hQ : ∀ vm', NowActs (fr.act :: acts) vm vm' → Q () vm') :
    Ends (setTopFrame fr) Q vm₁ := by
  refine (spec_change _).mpr (hQ _ ⟨?_, h.handlers, h.store⟩)
  have htail : vm₁.callFrames.tail.map CallFrame.act = acts := by
    rw [List.map_tail]
    exact congrArg List.tail h.acts
  exact congrArg (fr.act :: ·) htail

theorem ends_reallocFrame_ctl {vm₁ : VM} (h : NowActs (fr.act :: acts) vm vm₁) (f : ℕ) :
    Ends (reallocFrame ex fr f)
      (fun _ ↦ NowActs ({ fr.act with f := f, pc := 0 } :: acts) vm) vm₁ := by
  simp only [reallocFrame, spec_bind]
  refine ends_sameCtl (keeps_vmRfRelease _) fun _ vm₂ h₂ ↦ ?_
  refine ends_setTopFrame_ctl (h.then h₂) fun vm₃ h₃ ↦ ?_
  refine ends_sameCtl (keeps_vmFrameStackBump _) fun mem vm₄ h₄ ↦ ?_
  exact ends_setTopFrame_ctl (h₃.then h₄) fun vm₅ h₅ ↦ (spec_pure _).mpr h₅

theorem nowActs_self (hfr : vm.callFrames = fr :: frs) :
    NowActs (fr.act :: frs.map CallFrame.act) vm vm := by
  refine ⟨?_, rfl, refl_of Still vm.store⟩
  rw [VM.ctl, hfr]
  rfl

theorem ends_replaceRaw_ctl (hfr : vm.callFrames = fr :: frs) (f first nargs : ℕ)
    (path : TailPath) :
    Ends (replaceRaw ex f first nargs path)
      (fun _ ↦ NowActs ({ fr.act with f := f, pc := 0 } :: frs.map CallFrame.act) vm) vm := by
  simp only [replaceRaw, spec_bind]
  refine ends_topFrame fun fr' frs' hfr' ↦ ?_
  obtain ⟨rfl, rfl⟩ : fr = fr' ∧ frs = frs' := by simpa using hfr.symm.trans hfr'
  refine ends_sameCtl (keeps_onStore (keeps_saveArgs _ _ _ _ _)) fun buf vm₁ h₁ ↦ ?_
  have h := (nowActs_self hfr).then h₁
  simp only [spec_ite, spec_bind, spec_change]
  refine ⟨fun _ ↦ ?_, fun _ ↦ ?_⟩
  · refine ends_setTopFrame_ctl (h.then ((refl_of SameCtl vm₁).top _)) fun vm₂ h₂ ↦ ?_
    exact ends_sameCtl (keeps_onStore (keeps_refillRaw ex _ _ _ _ _)) fun _ vm₃ h₃ ↦ h₂.then h₃
  · refine (ends_reallocFrame_ctl h f).mono fun mem vm₂ h₂ ↦ ?_
    exact ends_sameCtl (keeps_onStore (keeps_refillRaw ex _ _ _ _ _)) fun _ vm₃ h₃ ↦ h₂.then h₃

theorem ends_replaceBoxed_ctl (hfr : vm.callFrames = fr :: frs) (f g first nargs : ℕ)
    (funobj : Option JelloFunction) :
    Ends (replaceBoxed ex f g first nargs funobj)
      (fun _ ↦ NowActs ({ fr.act with f := f, pc := 0 } :: frs.map CallFrame.act) vm) vm := by
  simp only [replaceBoxed, spec_bind]
  refine ends_topFrame fun fr' frs' hfr' ↦ ?_
  obtain ⟨rfl, rfl⟩ : fr = fr' ∧ frs = frs' := by simpa using hfr.symm.trans hfr'
  simp only [spec_ite, spec_bind]
  refine ⟨fun _ ↦ spec_fail _, fun _ ↦ ?_⟩
  refine ends_sameCtl (keeps_onStore (still_boxRegs _ _ _ _ _)) fun args vm₁ h₁ ↦ ?_
  refine (ends_reallocFrame_ctl ((nowActs_self hfr).then h₁) f).mono fun mem vm₂ h₂ ↦ ?_
  exact ends_sameCtl (keeps_onStore (keeps_refillBoxed ex _ _ _)) fun _ vm₃ h₃ ↦ h₂.then h₃

/-- A tail call puts the callee in the place of the frame, at its first instruction. -/
theorem ends_vmReplaceFrame_ctl (hfr : vm.callFrames = fr :: frs) (f g first nargs : ℕ)
    (funobj : Option JelloFunction) :
    Ends (vmReplaceFrame ex f g first nargs funobj)
      (fun _ ↦ NowActs ({ fr.act with f := f, pc := 0 } :: frs.map CallFrame.act) vm) vm := by
  simp only [vmReplaceFrame, spec_bind]
  refine spec_onPart ((keeps_tailPath first nargs funobj).then fun path s' hs ↦ ?_)
  have hset : SameCtl vm (vm.setStore s') := ⟨rfl, rfl, hs⟩
  have hfr' : (vm.setStore s').callFrames = fr :: frs := hfr
  refine spec_ite.mpr ⟨fun _ ↦ ?_, fun _ ↦ ?_⟩
  · refine (ends_replaceBoxed_ctl hfr' f g first nargs funobj).mono ?_
    exact fun _ vm' h' ↦ hset.nowActs h'
  · refine (ends_replaceRaw_ctl hfr' f first nargs path).mono ?_
    exact fun _ vm' h' ↦ hset.nowActs h'

end Calls

section Returns

variable {ex : Exec} {vm : VM} {fr : CallFrame} {ins : JelloInsn} {a : Act} {acts : List Act}
  {hs : List ExcHandler} {s : Store}

theorem ends_popCallFrame_ctl (h : Now ⟨a :: acts, hs, s⟩ vm) :
    Ends popCallFrame (fun _ ↦ Now ⟨acts, hs, s⟩) vm := by
  refine (spec_change _).mpr ⟨?_, h.handlers, h.store⟩
  have htail : vm.callFrames.tail.map CallFrame.act = acts := by
    rw [List.map_tail]
    exact congrArg List.tail h.acts
  exact htail

theorem ends_dropHandlers_ctl (h : Now ⟨acts, hs, s⟩ vm) {Q : Unit → VM → Prop}
    (hQ : fr.excBase ≤ hs.length → ∀ vm',
      Now ⟨acts, hs.drop (hs.length - fr.excBase), s⟩ vm' → Q () vm') :
    Ends (dropHandlers fr) Q vm := by
  have hhs : vm.excHandlers = hs := h.handlers
  simp only [dropHandlers, spec_bind, spec_read, spec_ite, spec_change, hhs]
  refine ⟨fun _ ↦ spec_fail _, fun hle ↦ hQ (by omega) _ ⟨h.acts, rfl, h.store⟩⟩

/-- How a `RET` ends: with the caller on top, or with the run. -/
inductive Returned (a : Act) (acts : List Act) (hs : List ExcHandler) (s : Store) :
    OpResult → VM → Prop
  | caller {vm : VM} (hbase : a.excBase ≤ hs.length) (hcaller : a.hasCaller = true)
      (hacts : acts ≠ []) (h : Now ⟨acts, hs.drop (hs.length - a.excBase), s⟩ vm) :
      Returned a acts hs s .continue_ vm
  | run {vm : VM} (hbase : a.excBase ≤ hs.length) (hcaller : a.hasCaller = false)
      (h : Now ⟨[], [], s⟩ vm) : Returned a acts hs s .return_ vm

theorem keeps_setOut (v : JelloValue) : Keeps (fun _ ↦ True) SameCtl (setOut ex v) :=
  fun vm ↦ ends_setOut fun _ ↦ ⟨rfl, rfl, refl_of Still vm.store⟩

theorem ends_finishRun_ctl (h : Now ⟨acts, hs, s⟩ vm) (v : JelloValue) :
    Ends (finishRun ex fr v) (fun _ ↦ Now ⟨[], [], s⟩) vm := by
  simp only [finishRun, spec_bind, spec_change]
  refine ends_sameCtl (keeps_vmRfRelease _) fun _ vm₁ h₁ ↦ ?_
  have hstore := (h.then h₁).store
  exact ends_setOut fun _ ↦ ⟨rfl, rfl, ⟨hstore.fuelLimit, hstore.fuelRemaining,
    ⟨hstore.trap.pending, hstore.trap.code, hstore.trap.msg, hstore.trap.payload⟩, hstore.spill⟩⟩

theorem ends_captureRet_ctl (h : Now ⟨a :: acts, hs, s⟩ vm) (r : ℕ) :
    Ends (captureRet ex fr r) (fun _ ↦ Now ⟨acts, hs, s⟩) vm := by
  have hout (v : JelloValue) : Keeps (fun _ ↦ True) SameCtl
      (change fun vm ↦ { vm with jdllOut := some v, jdllCallOut := false } : VMM Unit) :=
    keeps_change fun vm ↦ ⟨rfl, rfl, refl_of Still vm.store⟩
  simp only [captureRet, spec_bind]
  refine ends_sameCtl (keeps_onStore (still_box _ _ _ _)) fun v vm₁ h₁ ↦ ?_
  refine ends_sameCtl (hout v) fun _ vm₂ h₂ ↦ ?_
  refine ends_sameCtl (keeps_vmRfRelease _) fun _ vm₃ h₃ ↦ ?_
  exact ends_popCallFrame_ctl (((h.then h₁).then h₂).then h₃)

theorem ends_returnRaw_ctl (h : Now ⟨a :: acts, hs, s⟩ vm) (caller : CallFrame) (r tid : ℕ) :
    Ends (returnRaw ex fr caller r tid) (fun _ ↦ Now ⟨acts, hs, s⟩) vm := by
  simp only [returnRaw, spec_bind]
  refine ends_sameCtl (keeps_onStore (still_typeOf _ _)) fun t vm₁ h₁ ↦ ?_
  refine ends_sameCtl (keeps_onStore (still_copySlot _ _ _ _ _)) fun _ vm₂ h₂ ↦ ?_
  refine ends_sameCtl (keeps_vmRfRelease _) fun _ vm₃ h₃ ↦ ?_
  exact ends_popCallFrame_ctl (((h.then h₁).then h₂).then h₃)

theorem ends_returnBoxed_ctl (h : Now ⟨a :: acts, hs, s⟩ vm) (caller : CallFrame) (r : ℕ) :
    Ends (returnBoxed ex fr caller r) (fun _ ↦ Now ⟨acts, hs, s⟩) vm := by
  simp only [returnBoxed, spec_bind]
  refine ends_sameCtl (keeps_onStore (still_box _ _ _ _)) fun v vm₁ h₁ ↦ ?_
  refine ends_sameCtl (keeps_vmRfRelease _) fun _ vm₂ h₂ ↦ ?_
  refine (ends_popCallFrame_ctl ((h.then h₁).then h₂)).mono fun _ vm₃ h₃ ↦ ?_
  exact ends_sameCtl (keeps_onStore (still_unbox _ _ _ _ _ _)) fun _ vm₄ h₄ ↦ h₃.then h₄

/-- What every `RET` does before and after the part that delivers the value to the caller. -/
theorem ends_ret_ctl {frs : List CallFrame} (hfr : vm.callFrames = fr :: frs)
    {last : CallFrame → VMM OpResult} {deliver : CallFrame → CallFrame → VMM OpResult}
    (hlast : ∀ {acts hs s vm}, Now ⟨acts, hs, s⟩ vm →
      Ends (last fr) (fun r vm' ↦ r = .return_ ∧ Now ⟨[], [], s⟩ vm') vm)
    (hdeliver : ∀ {acts hs s vm caller}, Now ⟨fr.act :: acts, hs, s⟩ vm →
      Ends (deliver fr caller) (fun r vm' ↦ r = .continue_ ∧ Now ⟨acts, hs, s⟩ vm') vm) :
    Ends (do
        let fr ← topFrame
        dropHandlers fr
        if !fr.hasCaller then last fr
        else do
          let caller ← callerFrame
          deliver fr caller)
      (Returned fr.act (frs.map CallFrame.act) vm.excHandlers vm.store) vm := by
  simp only [spec_bind]
  refine ends_topFrame fun fr' frs' hfr' ↦ ?_
  obtain ⟨rfl, rfl⟩ : fr = fr' ∧ frs = frs' := by simpa using hfr.symm.trans hfr'
  have hnow : Now ⟨fr.act :: frs.map CallFrame.act, vm.excHandlers, vm.store⟩ vm :=
    nowActs_self hfr
  refine ends_dropHandlers_ctl hnow fun hbase vm₁ h₁ ↦ ?_
  refine spec_ite.mpr ⟨fun hc ↦ ?_, fun hc ↦ ?_⟩
  · refine (hlast h₁).mono fun r vm₂ h₂ ↦ ?_
    obtain ⟨rfl, hnow⟩ := h₂
    exact .run hbase (by simpa [CallFrame.act] using hc) hnow
  · refine spec_bind.mpr (ends_callerFrame fun fr₂ caller frs₂ hfr₂ ↦ ?_)
    refine (hdeliver h₁).mono fun r vm₃ h₃ ↦ ?_
    obtain ⟨rfl, hnow⟩ := h₃
    refine .caller hbase (by simpa [CallFrame.act] using hc) ?_ hnow
    have hacts : vm₁.callFrames.map CallFrame.act = fr.act :: frs.map CallFrame.act := h₁.acts
    rw [hfr₂] at hacts
    intro hnil
    simp [hnil] at hacts

theorem ends_then {c : Ctl} {x : VMM Unit} {r : OpResult} (h : Ends x (fun _ ↦ Now c) vm) :
    Ends (do x; pure r) (fun r' vm' ↦ r' = r ∧ Now c vm') vm :=
  spec_bind.mpr (h.mono fun _ _ h' ↦ (spec_pure _).mpr ⟨rfl, h'⟩)

theorem ends_lastRet_ctl (h : Now ⟨acts, hs, s⟩ vm) : Ends (do
      let ret ← onStore (vmBoxFromTyped ex.m fr.f fr.rf ins.ra)
      finishRun ex fr ret
      pure .return_ : VMM OpResult) (fun r vm' ↦ r = .return_ ∧ Now ⟨[], [], s⟩ vm') vm :=
  spec_bind.mpr (ends_sameCtl (keeps_onStore (still_box _ _ _ _)) fun v _ h₁ ↦
    ends_then (ends_finishRun_ctl (h.then h₁) v))

theorem ends_deliver_ctl {x : VMM OpResult}
    (h : Now ⟨a :: acts, hs, s⟩ vm)
    (hx : ∀ {vm}, Now ⟨a :: acts, hs, s⟩ vm →
      Ends x (fun r vm' ↦ r = .continue_ ∧ Now ⟨acts, hs, s⟩ vm') vm) : Ends (do
      let callOut ← read VM.jdllCallOut
      if fr.jdllRetCapture ∧ callOut then do
        captureRet ex fr ins.ra
        pure .continue_
      else x : VMM OpResult) (fun r vm' ↦ r = .continue_ ∧ Now ⟨acts, hs, s⟩ vm') vm :=
  spec_bind.mpr ((spec_read _).mpr (spec_ite.mpr
    ⟨fun _ ↦ ends_then (ends_captureRet_ctl h _), fun _ ↦ hx h⟩))

theorem ends_byType_ctl {caller : CallFrame} (tid : ℕ) (h : Now ⟨a :: acts, hs, s⟩ vm) : Ends (do
      let dstTid ← onStore (regTypeOf ex.m caller.f fr.callerDst)
      if dstTid = tid then do
        returnRaw ex fr caller ins.ra tid
        pure .continue_
      else do
        returnBoxed ex fr caller ins.ra
        pure .continue_ : VMM OpResult)
      (fun r vm' ↦ r = .continue_ ∧ Now ⟨acts, hs, s⟩ vm') vm :=
  spec_bind.mpr (ends_sameCtl (keeps_onStore (still_regTypeOf _ _ _)) fun _ _ h₁ ↦ spec_ite.mpr
    ⟨fun _ ↦ ends_then (ends_returnRaw_ctl (h.then h₁) _ _ _),
      fun _ ↦ ends_then (ends_returnBoxed_ctl (h.then h₁) _ _)⟩)

variable {frs : List CallFrame}

theorem ends_opRet_ctl (hfr : vm.callFrames = fr :: frs) :
    Ends (opRet ex ins) (Returned fr.act (frs.map CallFrame.act) vm.excHandlers vm.store) vm := by
  refine ends_ret_ctl hfr (fun {acts hs s vm} h ↦ ?_) fun {acts hs s vm caller} h ↦ ?_
  · have hexports (v : JelloValue) : Keeps (fun _ ↦ True) SameCtl
        (change fun vm ↦ { vm with outExports := some v } : VMM Unit) :=
      keeps_change fun vm ↦ ⟨rfl, rfl, refl_of Still vm.store⟩
    refine spec_bind.mpr (ends_sameCtl (keeps_onStore (still_box _ _ _ _)) fun v vm₁ h₁ ↦ ?_)
    refine spec_ite.mpr ⟨fun _ ↦ spec_bind.mpr ?_, fun _ ↦
      ends_then (ends_finishRun_ctl (h.then h₁) v)⟩
    refine ends_sameCtl (keeps_onStore (still_box _ _ _ _)) fun e vm₂ h₂ ↦ ?_
    refine spec_bind.mpr (ends_sameCtl (hexports e) fun _ vm₃ h₃ ↦ ?_)
    exact ends_then (ends_finishRun_ctl (((h.then h₁).then h₂).then h₃) v)
  · refine ends_deliver_ctl h fun h' ↦ spec_bind.mpr ?_
    exact ends_sameCtl (keeps_onStore (still_regTypeOf _ _ _)) fun _ _ h₁ ↦
      ends_byType_ctl _ (h'.then h₁)

theorem ends_labelRet_ctl (hfr : vm.callFrames = fr :: frs) :
    Ends (labelRet ex ins)
      (Returned fr.act (frs.map CallFrame.act) vm.excHandlers vm.store) vm := by
  refine ends_ret_ctl hfr (fun h ↦ ends_lastRet_ctl h) fun {acts hs s vm caller} h ↦ ?_
  refine ends_deliver_ctl h fun h' ↦ spec_bind.mpr ?_
  exact ends_sameCtl (keeps_onStore (still_regTypeOf _ _ _)) fun _ _ h₁ ↦
    ends_byType_ctl _ (h'.then h₁)

theorem ends_inlineRet_ctl (hfr : vm.callFrames = fr :: frs) :
    Ends (inlineRet ex ins)
      (Returned fr.act (frs.map CallFrame.act) vm.excHandlers vm.store) vm := by
  refine ends_ret_ctl hfr (fun h ↦ ends_lastRet_ctl h) fun {acts hs s vm caller} h ↦ ?_
  refine ends_deliver_ctl h fun h' ↦ spec_bind.mpr ?_
  refine ends_sameCtl (keeps_onStore (still_regTypeOf _ _ _)) fun _ _ h₁ ↦ spec_ite.mpr
    ⟨fun _ ↦ ends_then (ends_returnRaw_ctl (h'.then h₁) _ _ _), fun _ ↦ ?_⟩
  exact ends_byType_ctl _ (h'.then h₁)

/-- A native function ends the frame as `RET` does, but the stacks are not emptied. -/
theorem ends_endNativeTail_ctl (hfr : vm.callFrames = fr :: frs) (r : ℕ) :
    Ends (endNativeTail ex fr r) (fun res vm' ↦
      (res = if fr.hasCaller then .continue_ else .return_) ∧ fr.excBase ≤ vm.excHandlers.length ∧
      (fr.hasCaller = true → frs ≠ []) ∧
      Now ⟨frs.map CallFrame.act, vm.excHandlers.drop (vm.excHandlers.length - fr.excBase),
        vm.store⟩ vm') vm := by
  have hnow : Now ⟨fr.act :: frs.map CallFrame.act, vm.excHandlers, vm.store⟩ vm :=
    nowActs_self hfr
  simp only [endNativeTail, spec_bind]
  refine ends_dropHandlers_ctl hnow fun hbase vm₁ h₁ ↦ ?_
  refine spec_ite.mpr ⟨fun hc ↦ ?_, fun hc ↦ ?_⟩
  · have hno : fr.hasCaller = false := by simpa using hc
    simp only [spec_bind, hno]
    refine ends_sameCtl (keeps_onStore (still_box _ _ _ _)) fun v vm₂ h₂ ↦ ?_
    refine ends_sameCtl (keeps_vmRfRelease _) fun _ vm₃ h₃ ↦ ?_
    refine (ends_popCallFrame_ctl ((h₁.then h₂).then h₃)).mono fun _ vm₄ h₄ ↦ ?_
    refine ends_sameCtl (keeps_setOut v) fun _ vm₅ h₅ ↦ (spec_pure _).mpr ?_
    exact ⟨rfl, hbase, fun h ↦ Bool.noConfusion h, h₄.then h₅⟩
  · have hyes : fr.hasCaller = true := by simpa using hc
    refine spec_bind.mpr (ends_callerFrame fun fr₂ caller frs₂ hfr₂ ↦ ?_)
    refine (ends_then (ends_returnBoxed_ctl h₁ caller r)).mono fun res vm₃ h₃ ↦ ?_
    refine ⟨by rw [h₃.1, hyes]; rfl, hbase, fun _ hnil ↦ ?_, h₃.2⟩
    have hacts : vm₁.callFrames.map CallFrame.act = fr.act :: frs.map CallFrame.act := h₁.acts
    rw [hfr₂] at hacts
    simp [hnil] at hacts

end Returns

end JelloVM
