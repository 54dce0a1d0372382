import JelloVM.Library.BlockCopy
import JelloVM.Handlers

namespace JelloVM

open ByteMemory Logged

def Store.setMem (s : Store) (mem : Mem) : Store := { s with mem := mem }

def slotWidth (m : JelloBcModule) (f r : ℕ) : ℕ := jelloSlotSize (regKind m f r)

section Slots

variable {m : JelloBcModule} {f : ℕ}

theorem slots_ordered (m : JelloBcModule) (f mem i n : ℕ) (hn : i + n ≤ (m.func f).nregs) :
    Ordered ((vmGetFrameLayout m f).frame mem).addr (slotWidth m f) i n := by
  intro r r' hr hlt hr'
  have hlen : r' < (regKinds m f).length := by
    rw [regKinds, List.length_map]
    exact lt_of_lt_of_le hr' hn
  have hord := layoutFrom_ordered (regKinds m f) 0 r r' hlt hlen
  rw [regKinds_getD m f (show r < (m.func f).nregs by omega)] at hord
  simp only [RegFrame.addr, FrameLayout.frame, slotWidth]
  have hoff : (vmGetFrameLayout m f).off = (layoutFrom (regKinds m f) 0).1 := rfl
  rw [hoff]
  omega

theorem Ordered.narrow {dst w w' : ℕ → ℕ} {i n : ℕ} (h : Ordered dst w i n)
    (hw : ∀ r, w' r ≤ w r) : Ordered dst w' i n := by
  intro r r' hr hlt hr'
  have := h r r' hr hlt hr'
  have := hw r
  omega

theorem result_loop_copies {body : ℕ → StoreM Unit} {dst src w : ℕ → ℕ} {s : Store} (n i : ℕ)
    (h : ∀ j s, result (body j) s =
      .ok ((), s.setMem (copy s.mem (dst j) (src j) (w j)))) :
    result (loop body i n) s = .ok ((), s.setMem (copies dst src w i n s.mem)) := by
  induction n generalizing i s with
  | zero => rfl
  | succ n ih =>
    have hseq : loop body i (n + 1) = body i >>= fun _ ↦ loop body (i + 1) n := rfl
    rw [hseq, result_bind, h]
    exact ih (i + 1)

theorem result_copyArgs (m : JelloBcModule) (f : ℕ) (rf callerRf : RegFrame) (first nargs : ℕ)
    (s : Store) : result (copyArgs m f rf callerRf first nargs) s = .ok ((), s.setMem
      (copies rf.addr (fun i ↦ callerRf.addr (first + i)) (slotWidth m f) 0 nargs s.mem)) := by
  refine result_loop_copies nargs 0 fun j s ↦ ?_
  simp [vmRegKind, regTypeOf, typeOf, copySlot, Except.bind, slotWidth, regKind, Store.setMem]

/-- The captures that a self call leaves to the arguments have no bytes. -/
def keptWidth (m : JelloBcModule) (f nargs r : ℕ) : ℕ := if r < nargs then 0 else slotWidth m f r

theorem keptWidth_le (m : JelloBcModule) (f nargs r : ℕ) : keptWidth m f nargs r ≤ slotWidth m f r := by
  unfold keptWidth
  split_ifs
  · exact Nat.zero_le _
  · exact le_rfl

/-- The function has capture registers of its own. -/
def JelloBcModule.HasCaps (m : JelloBcModule) (f : ℕ) : Prop :=
  m.features.capStart = true ∧ (m.func f).capStart ≠ 0 ∧ (m.func f).capStart < (m.func f).nregs

instance (m : JelloBcModule) (f : ℕ) : Decidable (m.HasCaps f) := by
  unfold JelloBcModule.HasCaps
  infer_instance

theorem result_inherit_none (h : ¬ m.HasCaps f) (dst src : RegFrame) (nargs : ℕ) (s : Store) :
    result (vmInheritSelfCaptureSlots m f dst src nargs) s = .ok ((), s) := by
  simp only [vmInheritSelfCaptureSlots]
  split_ifs with hfeat hstart
  · rfl
  · rfl
  · refine absurd ⟨by simpa using hfeat, ?_, ?_⟩ h
    · exact fun h0 ↦ hstart (.inl h0)
    · by_contra hge
      exact hstart (.inr (by omega))

theorem result_inherit (h : m.HasCaps f) (dst src : RegFrame) (nargs : ℕ) (s : Store) :
    result (vmInheritSelfCaptureSlots m f dst src nargs) s = .ok ((), s.setMem
      (copies dst.addr src.addr (keptWidth m f nargs) (m.func f).capStart
        ((m.func f).nregs - (m.func f).capStart) s.mem)) := by
  obtain ⟨hfeat, hstart, hlt⟩ := h
  unfold vmInheritSelfCaptureSlots
  rw [if_neg (by simp [hfeat]), if_neg (by omega)]
  refine result_loop_copies _ _ fun j s ↦ ?_
  by_cases hj : j < nargs
  · simp [hj, keptWidth, copy_zero, Store.setMem]
  · simp [hj, keptWidth, vmRegKind, regTypeOf, typeOf, copySlot, Except.bind, slotWidth, regKind,
      Store.setMem]

end Slots

/-- The areas of the frames may lie elsewhere; what belongs to the frames is the same. -/
structure Shifted (vm vm' : VM) : Prop where
  frames : ∃ g : ℕ → ℕ, vm'.callFrames =
    vm.callFrames.map fun fr ↦ { fr with rf := { fr.rf with mem := g fr.rf.mem } }
  handlers : vm'.excHandlers = vm.excHandlers

instance : IsPreorder VM Shifted where
  refl vm := ⟨⟨id, by simp⟩, rfl⟩
  trans vm vm' vm'' h h' := by
    obtain ⟨⟨g, hg⟩, hh⟩ := h
    obtain ⟨⟨g', hg'⟩, hh'⟩ := h'
    exact ⟨⟨g' ∘ g, by rw [hg', hg, List.map_map]; rfl⟩, hh'.trans hh⟩

section Push

variable {ex : Exec} {vm vm₁ : VM} {fr : CallFrame} {frs : List CallFrame}

theorem shifted_of_frames {vm' : VM} (hfr : vm'.callFrames = vm.callFrames)
    (hhs : vm'.excHandlers = vm.excHandlers) : Shifted vm vm' := ⟨⟨id, by simp [hfr]⟩, hhs⟩

theorem shifts_grow {P : Access → Prop} (need : ℕ) :
    Keeps P Shifted (vmFrameStackGrow ex need) := by
  intro vm
  refine spec_bind.mpr ((spec_read id).mpr ?_)
  refine spec_ite.mpr ⟨fun _ ↦ (spec_pure _).mpr (refl_of Shifted vm), fun _ ↦ ?_⟩
  split
  · exact spec_fail _
  · next cap _ =>
    refine spec_ite.mpr ⟨fun _ ↦ spec_fail _, fun _ ↦ spec_ite.mpr ⟨fun _ ↦ ?_, fun _ ↦ ?_⟩⟩
    · exact (spec_change _).mpr (shifted_of_frames rfl rfl)
    · refine (spec_change _).mpr
        ⟨⟨fun a ↦ if a = 0 then a else ex.realloc cap + a - vm.frameStack, ?_⟩, rfl⟩
      refine List.map_congr_left fun fr _ ↦ ?_
      simp only [id, RegFrame.rebase]
      split_ifs with h0
      · simp
      · simp

theorem Shifted.top {vm' : VM} (h : Shifted vm vm') (top : ℕ) :
    Shifted vm { vm' with frameStackTop := top } := ⟨h.frames, h.handlers⟩

theorem shifts_bump {P : Access → Prop} (size : ℕ) :
    Keeps P Shifted (vmFrameStackBump ex size) := by
  intro vm
  unfold vmFrameStackBump
  split_ifs with h0
  · exact keeps_pure _ vm
  · simp only [spec_bind, spec_read, id, spec_ite, spec_change, spec_pure]
    exact ⟨fun _ ↦ (shifts_grow size).then fun _ _ h ↦ h.top _,
      fun _ ↦ (refl_of Shifted vm).top _⟩

theorem frames_of_bump {size mem : ℕ} (hfr : vm.callFrames = fr :: frs)
    (h : result (vmFrameStackBump ex size) vm = .ok (mem, vm₁)) :
    ∃ a frs₁, vm₁.callFrames = { fr with rf := { fr.rf with mem := a } } :: frs₁ ∧
      frs₁.length = frs.length ∧ vm₁.excHandlers = vm.excHandlers := by
  have hends : Ends (vmFrameStackBump ex size) (fun _ vm' ↦ Shifted vm vm') vm := shifts_bump size vm
  obtain ⟨⟨g, hg⟩, hhs⟩ := hends.of_result h
  rw [hfr, List.map_cons] at hg
  exact ⟨_, _, hg, List.length_map _, hhs⟩

def CallFrame.selfCall (fr : CallFrame) (mem dst excBase : ℕ) : CallFrame :=
  { f := fr.f
    rf := { fr.rf with mem := mem }
    pc := 0
    callerDst := dst
    excBase := excBase
    hasCaller := true
    jdllRetCapture := false
    hasPointerOrDynamic := false }

/-- The machine after a self call whose registers have come to be `mem'`. -/
def VM.selfCalled (vm : VM) (fr : CallFrame) (mem dst : ℕ) (mem' : Mem) : VM :=
  { vm with
    callFrames := fr.selfCall mem dst vm.excHandlers.length :: vm.callFrames
    store := vm.store.setMem mem' }

/-- The memory after the captures of the caller were inherited. -/
def inheritMem (m : JelloBcModule) (f : ℕ) (rf callerRf : RegFrame) (nargs : ℕ) (mem : Mem) : Mem :=
  if m.HasCaps f then
    copies rf.addr callerRf.addr (keptWidth m f nargs) (m.func f).capStart
      ((m.func f).nregs - (m.func f).capStart) mem
  else mem

/-- The memory after the arguments of a self call were copied. -/
def argMem (m : JelloBcModule) (f : ℕ) (rf callerRf : RegFrame) (first nargs : ℕ) (mem : Mem) : Mem :=
  copies rf.addr (fun i ↦ callerRf.addr (first + i)) (slotWidth m f) 0 nargs mem

theorem result_vmPushSelfNumeric {first nargs dst mem : ℕ} {fr₁ : CallFrame}
    {frs₁ : List CallFrame} (hfr : vm.callFrames = fr :: frs)
    (hbump : result (vmFrameStackBump ex fr.rf.total) vm = .ok (mem, vm₁))
    (hfr₁ : vm₁.callFrames = fr₁ :: frs₁) :
    result (vmPushSelfNumeric ex first nargs dst) vm = .ok ((), vm₁.selfCalled fr₁ mem dst
      (argMem ex.m fr₁.f { fr₁.rf with mem := mem } fr₁.rf first nargs vm₁.store.mem)) := by
  have htop : result topFrame vm = .ok (fr, vm) := by simp [topFrame, hfr, Except.bind]
  have htop₁ : result topFrame vm₁ = .ok (fr₁, vm₁) := by simp [topFrame, hfr₁, Except.bind]
  simp only [vmPushSelfNumeric, result_bind, htop, hbump, htop₁, Except.bind, result_read,
    pushCallFrame, result_change, onStore, result_onPart, result_copyArgs, Except.map]
  rfl

theorem result_vmPushFrame_self {first nargs dst mem : ℕ} {fr₁ : CallFrame}
    {frs₁ : List CallFrame} (hfr : vm.callFrames = fr :: frs) (hroom : vm.canPush = true)
    (hn : nargs ≤ vmFastArgNargsMaxPush) (hflag : fr.hasPointerOrDynamic = false)
    (hbump : result (vmFrameStackBump ex fr.rf.total) vm = .ok (mem, vm₁))
    (hfr₁ : vm₁.callFrames = fr₁ :: frs₁) (hlen : frs₁.length = frs.length) (hf : fr₁.f = fr.f) :
    result (vmPushFrame ex fr.f fr.f frs.length dst first nargs none true) vm =
      .ok (true, vm₁.selfCalled fr₁ mem dst
        (argMem ex.m fr₁.f { fr₁.rf with mem := mem } fr₁.rf first nargs vm₁.store.mem)) := by
  have hreset : result resetFrameStack vm = .ok ((), vm) := by simp [resetFrameStack, hfr]
  have hat : result (frameAtIndex frs.length) vm = .ok (fr, vm) := by
    simp [frameAtIndex, VM.frameAt_top hfr, Except.bind]
  have hat₁ : result (frameAtIndex frs.length) vm₁ = .ok (fr₁, vm₁) := by
    rw [← hlen]
    simp [frameAtIndex, VM.frameAt_top hfr₁, Except.bind]
  have hlt : ¬ vm.callFrames.length ≤ frs.length := by simp [hfr]
  simp only [vmPushFrame, result_bind, result_read, Except.bind, id, hroom, Bool.not_true,
    Bool.false_eq_true, if_false, hreset, Option.isNone_none, hn, and_self, if_true, hlt,
    hat, hflag, Bool.not_false, hbump, hat₁, pushCallFrame, result_change, onStore, result_onPart,
    result_copyArgs, Except.map, result_pure]
  rw [← hf]
  rfl

end Push

section General

variable {ex : Exec} {m : JelloBcModule} {f g first nargs : ℕ} {s s' : Store}
  {rf callerRf : RegFrame}

theorem ends_argTypesMatch (n i j : ℕ) :
    Ends (argTypesMatch m f g i j n) (fun _ s' ↦ s' = s) s := by
  induction n generalizing i j with
  | zero => exact (spec_pure _).mpr rfl
  | succ n ih =>
    simp only [argTypesMatch, vmArgTypesCompatible, spec_bind, spec_regTypeOf, true_and]
    refine spec_ite.mpr ⟨fun _ ↦ (spec_pure _).mpr (by simpa using ih _ _), fun _ ↦ spec_ite.mpr
      ⟨fun _ ↦ (spec_pure _).mpr (by simp), fun _ ↦ ?_⟩⟩
    simp only [spec_bind, spec_typeOf, true_and, spec_pure]
    exact spec_ite.mpr ⟨fun _ ↦ ih _ _, fun _ ↦ (spec_pure _).mpr rfl⟩

theorem ends_vmCanUseFastArgCopy (funobj : Option JelloFunction) (base : ℕ) :
    Ends (vmCanUseFastArgCopy m f g first nargs base funobj) (fun _ s' ↦ s' = s) s := by
  refine spec_ite.mpr ⟨fun _ ↦ (spec_pure _).mpr rfl, fun _ ↦ spec_ite.mpr
    ⟨fun _ ↦ (spec_pure _).mpr rfl, fun _ ↦ ends_argTypesMatch _ _ _⟩⟩

/-- Between registers that are not Dynamic an argument is copied, or the machine stops. -/
theorem ends_vmCopyArgStrict {fpu : Fpu} {i j : ℕ} (hi : regKind m f i ≠ .dynamic)
    (hj : regKind m g j ≠ .dynamic) : Ends (vmCopyArgStrict m fpu f callerRf i g rf j)
      (fun _ s' ↦ s' = s.setMem (copy s.mem (rf.addr j) (callerRf.addr i) (slotWidth m g j))) s := by
  simp only [vmCopyArgStrict, spec_bind, spec_regTypeOf, true_and]
  refine spec_ite.mpr ⟨fun _ ↦ spec_fail _, fun _ ↦ ?_⟩
  simp only [spec_bind, spec_typeOf, true_and]
  refine spec_ite.mpr ⟨fun _ ↦ spec_copySlot.mpr ⟨trivial, trivial, rfl⟩, fun _ ↦
    spec_ite.mpr ⟨fun h ↦ absurd h hi, fun _ ↦ spec_ite.mpr ⟨fun h ↦ absurd h hj, fun _ ↦
      spec_fail _⟩⟩⟩

theorem ends_copyStrict {fpu : Fpu} (n i : ℕ)
    (hsrc : ∀ j, j < i + n → regKind m f (first + j) ≠ .dynamic)
    (hdst : ∀ j, j < i + n → regKind m g j ≠ .dynamic) :
    Ends (loop (fun j ↦ vmCopyArgStrict m fpu f callerRf (first + j) g rf (0 + j)) i n)
      (fun _ s' ↦ s' = s.setMem (copies rf.addr (fun j ↦ callerRf.addr (first + j))
        (slotWidth m g) i n s.mem)) s := by
  induction n generalizing i s with
  | zero => exact (spec_pure _).mpr rfl
  | succ n ih =>
    refine spec_bind.mpr ((ends_vmCopyArgStrict (hsrc i (by omega)) ?_).mono fun _ s₁ h₁ ↦ ?_)
    · rw [Nat.zero_add]
      exact hdst i (by omega)
    · subst h₁
      rw [Nat.zero_add]
      exact ih (i + 1) (fun j hj ↦ hsrc j (by omega)) fun j hj ↦ hdst j (by omega)

theorem result_vmInheritSelfCaptureSlots (nargs : ℕ) :
    result (vmInheritSelfCaptureSlots m f rf callerRf nargs) s =
      .ok ((), s.setMem (inheritMem m f rf callerRf nargs s.mem)) := by
  unfold inheritMem
  split_ifs with hcaps
  · exact result_inherit hcaps rf callerRf nargs s
  · exact result_inherit_none hcaps rf callerRf nargs s

theorem ends_passArgs_self (hkind : ∀ r, r < (ex.m.func f).nregs → regKind ex.m f r ≠ .dynamic)
    (hwindow : first + nargs ≤ (ex.m.func f).nregs) :
    Ends (passArgs ex f rf f callerRf first nargs none) (fun _ s' ↦ s' = s.setMem
      (inheritMem ex.m f rf callerRf nargs (argMem ex.m f rf callerRf first nargs s.mem))) s := by
  have hinherit {s₁ : Store}
      (h₁ : s₁ = s.setMem (argMem ex.m f rf callerRf first nargs s.mem)) :
      Ends (vmInheritSelfCaptureSlots ex.m f rf callerRf nargs) (fun _ s' ↦ s' = s.setMem
        (inheritMem ex.m f rf callerRf nargs (argMem ex.m f rf callerRf first nargs s.mem)))
        s₁ := by
    refine ends_iff.mpr fun _ s' hr ↦ ?_
    rw [result_vmInheritSelfCaptureSlots, h₁] at hr
    simp only [Except.ok.injEq, Prod.mk.injEq, true_and] at hr
    rw [← hr]
    rfl
  have hrest (fast : Bool) : Ends (do
      if fast then copyArgs ex.m f rf callerRf first nargs
      else vmInitArgsAndCaps ex.m ex.fpu f rf f callerRf first nargs none
      if f = f ∧ (none : Option JelloFunction).isNone then
        vmInheritSelfCaptureSlots ex.m f rf callerRf nargs
      else pure () : StoreM Unit) (fun _ s' ↦ s' = s.setMem
        (inheritMem ex.m f rf callerRf nargs (argMem ex.m f rf callerRf first nargs s.mem))) s := by
    simp only [Option.isNone_none, and_self, if_true]
    refine spec_ite.mpr ⟨fun _ ↦ spec_bind.mpr (ends_iff.mpr fun _ s₁ h₁ ↦ ?_), fun _ ↦
      spec_bind.mpr ?_⟩
    · rw [result_copyArgs] at h₁
      simp only [Except.ok.injEq, Prod.mk.injEq, true_and] at h₁
      exact hinherit h₁.symm
    · refine spec_bind.mpr ((spec_pure _).mpr (spec_ite.mpr ⟨fun _ ↦ spec_fail _, fun _ ↦ ?_⟩))
      refine spec_bind.mpr ((ends_copyStrict nargs 0 (fun j hj ↦ hkind _ (by omega)) fun j hj ↦
        hkind _ (by omega)).mono fun _ s₁ h₁ ↦ (spec_pure _).mpr (hinherit h₁))
  refine spec_ite.mpr ⟨fun _ ↦ spec_bind.mpr ?_, fun _ ↦ hrest false⟩
  refine (ends_vmCanUseFastArgCopy none 0).mono fun fast s₁ h₁ ↦ ?_
  subst h₁
  exact hrest fast

end General

/-- The top frame belongs to a function whose registers are all of non-pointer kinds. -/
structure NumericTop (ex : Exec) (vm : VM) (fr : CallFrame) (frs : List CallFrame) : Prop where
  frames : vm.callFrames = fr :: frs
  numeric : ∀ k ∈ regKinds ex.m fr.f, vmTypeIsNonptr k = true
  layout : ∃ mem, fr.rf = (vmGetFrameLayout ex.m fr.f).frame mem
  flag : fr.hasPointerOrDynamic = (vmGetFrameLayout ex.m fr.f).hasPointerOrDynamic

/-- A byte of a register of the top frame. -/
def VM.topByte (vm : VM) (r x : ℕ) : UInt8 :=
  match vm.callFrames with
  | [] => 0
  | fr :: _ => vm.store.mem (fr.rf.addr r + x)

/-- The top frames, both of the function `f`, have the same arguments and captures. -/
def SameArgsAndCaps (m : JelloBcModule) (f nargs : ℕ) (vm vm' : VM) : Prop :=
  ∀ r, r < (m.func f).nregs → r < nargs ∨ (m.func f).capStart ≤ r →
    ∀ x, x < slotWidth m f r → vm.topByte r x = vm'.topByte r x

/-- The new area holds already what the caller has in its capture registers. -/
def CapturesThere (m : JelloBcModule) (f nargs : ℕ) (rf callerRf : RegFrame) (mem : Mem) : Prop :=
  m.HasCaps f → ∀ r, (m.func f).capStart ≤ r → nargs ≤ r → r < (m.func f).nregs →
    ∀ x, x < slotWidth m f r → mem (rf.addr r + x) = mem (callerRf.addr r + x)

section Agree

variable {ex : Exec} {vm vm₁ vm' : VM} {fr fr₁ : CallFrame} {frs frs₁ : List CallFrame}
  {first nargs dst mem : ℕ}

theorem NumericTop.kind (h : NumericTop ex vm fr frs) {r : ℕ}
    (hr : r < (ex.m.func fr.f).nregs) : regKind ex.m fr.f r ≠ .dynamic := by
  intro hk
  have hlen : r < (regKinds ex.m fr.f).length := by
    rw [regKinds, List.length_map]
    exact hr
  have hmem : (regKinds ex.m fr.f).getD r default ∈ regKinds ex.m fr.f := by
    rw [List.getD_eq_getElem _ _ hlen]
    exact List.getElem_mem hlen
  rw [regKinds_getD ex.m fr.f hr, hk] at hmem
  exact Bool.noConfusion (h.numeric _ hmem)

theorem NumericTop.noPointer (h : NumericTop ex vm fr frs) :
    (vmGetFrameLayout ex.m fr.f).hasPointerOrDynamic = false := by
  simp only [vmGetFrameLayout, List.any_eq_false]
  intro k hk
  rw [h.numeric k hk]
  simp

theorem NumericTop.frame_eq (h : NumericTop ex vm fr frs) :
    (vmGetFrameLayout ex.m fr.f).total = fr.rf.total ∧
      ∀ mem, (vmGetFrameLayout ex.m fr.f).frame mem = { fr.rf with mem := mem } := by
  obtain ⟨a, ha⟩ := h.layout
  exact ⟨by rw [ha]; rfl, fun mem ↦ by rw [ha]; rfl⟩

theorem NumericTop.pushGeneral (h : NumericTop ex vm fr frs)
    (hwindow : first + nargs ≤ (ex.m.func fr.f).nregs)
    (hgen : result (pushGeneral ex fr.f fr.f frs.length dst first nargs none true) vm =
      .ok (true, vm')) :
    ∃ mem vm₁ a frs₁, result (vmFrameStackBump ex fr.rf.total) vm = .ok (mem, vm₁) ∧
      vm₁.callFrames = { fr with rf := { fr.rf with mem := a } } :: frs₁ ∧
      frs₁.length = frs.length ∧
      vm' = vm₁.selfCalled { fr with rf := { fr.rf with mem := a } } mem dst
        (inheritMem ex.m fr.f { fr.rf with mem := mem } { fr.rf with mem := a } nargs
          (argMem ex.m fr.f { fr.rf with mem := mem } { fr.rf with mem := a } first nargs
            vm₁.store.mem)) := by
  obtain ⟨htotal, hframe⟩ := h.frame_eq
  obtain ⟨rf, vm₂, hfresh, hrest⟩ := bind_ok hgen
  obtain ⟨mem, vm₁, hbump, hfresh⟩ := bind_ok hfresh
  rw [htotal] at hbump
  obtain ⟨a, frs₁, hfr₁, hlen, -⟩ := frames_of_bump h.frames hbump
  refine ⟨mem, vm₁, a, frs₁, hbump, hfr₁, hlen, ?_⟩
  have hinit (s : Store) : result (initRegs ex.m fr.f ((vmGetFrameLayout ex.m fr.f).frame mem)
      (vmGetFrameLayout ex.m fr.f).hasPointerOrDynamic) s = .ok ((), s) := by
    rw [initRegs, if_neg (by simp [h.noPointer])]
    rfl
  simp only [result_bind, result_read, pushCallFrame, result_change, Except.bind, onStore,
    result_onPart, hinit, Except.map, result_pure, Except.ok.injEq, Prod.mk.injEq] at hfresh
  obtain ⟨rfl, hvm₂⟩ := hfresh
  have hfr₂ : vm₂.callFrames = fr.selfCall mem dst vm₁.excHandlers.length ::
      { fr with rf := { fr.rf with mem := a } } :: frs₁ := by
    rw [← hvm₂, ← hfr₁]
    simp only [VM.setStore, hframe, h.noPointer]
    rfl
  have hat : vm₂.frameAt frs.length = some { fr with rf := { fr.rf with mem := a } } := by
    rw [← hlen]
    simp [VM.frameAt, hfr₂]
  have hstore : vm₂.store = vm₁.store := by
    rw [← hvm₂]
    rfl
  obtain ⟨b, s', hpass, hvm'⟩ : ∃ b s', result (passArgs ex fr.f
      ((vmGetFrameLayout ex.m fr.f).frame mem) fr.f { fr.rf with mem := a } first nargs none)
      vm₂.store = .ok (b, s') ∧ vm' = vm₂.setStore s' := by
    have hlt : ¬ vm₂.callFrames.length - 1 ≤ frs.length := by
      rw [hfr₂, List.length_cons, List.length_cons, hlen]
      omega
    obtain ⟨len, vm₃, hlenr, hrest⟩ := bind_ok hrest
    obtain ⟨rfl, rfl⟩ : vm₂.callFrames.length = len ∧ vm₂ = vm₃ := by simpa using hlenr
    rw [if_neg hlt] at hrest
    obtain ⟨caller, vm₃, hcaller, hrest⟩ := bind_ok hrest
    obtain ⟨rfl, rfl⟩ : { fr with rf := { fr.rf with mem := a } } = caller ∧ vm₂ = vm₃ := by
      simpa [frameAtIndex, hat, Except.bind] using hcaller
    obtain ⟨u, vm₃, hpass, hpure⟩ := bind_ok hrest
    obtain rfl : vm₃ = vm' := by simpa using hpure
    rw [onStore, result_onPart] at hpass
    cases hres : result (passArgs ex fr.f ((vmGetFrameLayout ex.m fr.f).frame mem) fr.f
        { fr.rf with mem := a } first nargs none) vm₂.store with
    | error e => simp [hres, Except.map] at hpass
    | ok r =>
      simp only [hres, Except.map, Except.ok.injEq, Prod.mk.injEq] at hpass
      exact ⟨r.1, r.2, rfl, hpass.2.symm⟩
  have hs' := (ends_passArgs_self (fun r hr ↦ h.kind hr) hwindow).of_result hpass
  rw [hvm', hs', hstore, hframe, ← hvm₂]
  simp only [VM.setStore, hframe, h.noPointer]
  rfl

section Captures

variable {m : JelloBcModule} {f a base : ℕ} {mem : Mem}

theorem inheritMem_arg (hcaps : m.HasCaps f) {r x : ℕ} (hx : x < slotWidth m f r)
    (harg : r < nargs) (callerRf : RegFrame) :
    inheritMem m f ((vmGetFrameLayout m f).frame a) callerRf nargs mem
      (((vmGetFrameLayout m f).frame a).addr r + x) =
      mem (((vmGetFrameLayout m f).frame a).addr r + x) := by
  rw [inheritMem, if_pos hcaps]
  refine copies_outside fun r' hr' hlt ↦ ?_
  unfold keptWidth
  split_ifs with h
  · omega
  · have hord := slots_ordered m f a 0 (m.func f).nregs (by omega) r r' (Nat.zero_le r) (by omega)
      (by omega)
    omega

theorem sameArgsAndCaps_iff {vm' vm'' : VM} {callerRf : RegFrame}
    (hbyte : ∀ r x, vm'.topByte r x = mem (((vmGetFrameLayout m f).frame a).addr r + x))
    (hbyte' : ∀ r x, vm''.topByte r x = inheritMem m f ((vmGetFrameLayout m f).frame a) callerRf
      nargs mem (((vmGetFrameLayout m f).frame a).addr r + x)) :
    SameArgsAndCaps m f nargs vm' vm'' ↔
      CapturesThere m f nargs ((vmGetFrameLayout m f).frame a) callerRf mem := by
  by_cases hcaps : m.HasCaps f
  · have hlt := hcaps.2.2
    have hord := Ordered.narrow (slots_ordered m f a (m.func f).capStart
      ((m.func f).nregs - (m.func f).capStart) (by omega)) (keptWidth_le m f nargs)
    have hiff := @copies_same_iff _ callerRf.addr _ _ _ mem hord
    have hinherit : inheritMem m f ((vmGetFrameLayout m f).frame a) callerRf nargs mem =
        copies ((vmGetFrameLayout m f).frame a).addr callerRf.addr (keptWidth m f nargs)
          (m.func f).capStart ((m.func f).nregs - (m.func f).capStart) mem := if_pos hcaps
    rw [← hinherit] at hiff
    refine ⟨fun hsame _ r hstart hr hn x hx ↦ ?_, fun hthere r hr hreg x hx ↦ ?_⟩
    · refine hiff.mp (fun r' hr' hlt' x' hx' ↦ ?_) r hstart (by omega) x ?_
      · have hle := keptWidth_le m f nargs r'
        have hs := hsame r' (by omega) (.inr hr') x' (by omega)
        rw [hbyte, hbyte'] at hs
        exact hs.symm
      · rw [keptWidth, if_neg (by omega)]
        exact hx
    · rw [hbyte, hbyte']
      by_cases harg : r < nargs
      · exact (inheritMem_arg hcaps hx harg callerRf).symm
      · have hstart : (m.func f).capStart ≤ r := hreg.resolve_left harg
        refine (hiff.mpr (fun r' hr' hlt' x' hx' ↦ ?_) r hstart (by omega) x ?_).symm
        · unfold keptWidth at hx'
          split_ifs at hx' with hn
          · omega
          · exact hthere hcaps r' hr' (by omega) (by omega) x' hx'
        · rw [keptWidth, if_neg harg]
          exact hx
  · refine ⟨fun _ h ↦ absurd h hcaps, fun _ r _ _ x _ ↦ ?_⟩
    rw [hbyte, hbyte', inheritMem, if_neg hcaps]

/-- When the caller lies below the new area, the arguments do not matter for the captures. -/
theorem capturesThere_argMem (first nargs : ℕ) (mem : Mem)
    (hapart : base + (vmGetFrameLayout m f).total ≤ a) :
    CapturesThere m f nargs ((vmGetFrameLayout m f).frame a) ((vmGetFrameLayout m f).frame base)
        (argMem m f ((vmGetFrameLayout m f).frame a) ((vmGetFrameLayout m f).frame base) first
          nargs mem) ↔
      CapturesThere m f nargs ((vmGetFrameLayout m f).frame a)
        ((vmGetFrameLayout m f).frame base) mem := by
  have hnew {r x : ℕ} (hnr : nargs ≤ r) (hr : r < (m.func f).nregs) :
      argMem m f ((vmGetFrameLayout m f).frame a) ((vmGetFrameLayout m f).frame base) first nargs
        mem (((vmGetFrameLayout m f).frame a).addr r + x) =
      mem (((vmGetFrameLayout m f).frame a).addr r + x) := by
    refine copies_outside fun r' hr' hlt ↦ ?_
    have hord := slots_ordered m f a 0 (m.func f).nregs (by omega) r' r hr' (by omega) (by omega)
    omega
  have hold {r x : ℕ} (hr : r < (m.func f).nregs) (hx : x < slotWidth m f r) :
      argMem m f ((vmGetFrameLayout m f).frame a) ((vmGetFrameLayout m f).frame base) first nargs
        mem (((vmGetFrameLayout m f).frame base).addr r + x) =
      mem (((vmGetFrameLayout m f).frame base).addr r + x) := by
    refine copies_outside fun r' hr' hlt ↦ ?_
    have hin := slot_le_total m f r hr
    simp only [RegFrame.addr, FrameLayout.frame, slotWidth] at hx ⊢
    omega
  refine ⟨fun h hcaps r hstart hnr hr x hx ↦ ?_, fun h hcaps r hstart hnr hr x hx ↦ ?_⟩
  · have hs := h hcaps r hstart hnr hr x hx
    rwa [hnew hnr hr, hold hr hx] at hs
  · rw [hnew hnr hr, hold hr hx]
    exact h hcaps r hstart hnr hr x hx

end Captures

/-- A direct self call of a function without pointers, on the two fast paths and on the general
one: the fast paths leave the captures to what lies in the new area. -/
theorem self_call_agrees (htop : NumericTop ex vm fr frs) (hroom : vm.canPush = true)
    (hwindow : first + nargs ≤ (ex.m.func fr.f).nregs) (hn : nargs ≤ vmFastArgNargsMaxPush)
    (hgen : result (pushGeneral ex fr.f fr.f frs.length dst first nargs none true) vm =
      .ok (true, vm')) :
    ∃ (mem : ℕ) (vm₁ vm₂ : VM) (fr₁ : CallFrame) (frs₁ : List CallFrame),
      result (vmFrameStackBump ex fr.rf.total) vm = .ok (mem, vm₁) ∧
      vm₁.callFrames = fr₁ :: frs₁ ∧
      result (vmPushSelfNumeric ex first nargs dst) vm = .ok ((), vm₂) ∧
      result (vmPushFrame ex fr.f fr.f frs.length dst first nargs none true) vm =
        .ok (true, vm₂) ∧
      (SameArgsAndCaps ex.m fr.f nargs vm₂ vm' ↔
        CapturesThere ex.m fr.f nargs { fr₁.rf with mem := mem } fr₁.rf vm₂.store.mem) ∧
      (fr₁.rf.mem + fr₁.rf.total ≤ mem →
        (SameArgsAndCaps ex.m fr.f nargs vm₂ vm' ↔
          CapturesThere ex.m fr.f nargs { fr₁.rf with mem := mem } fr₁.rf vm₁.store.mem)) := by
  obtain ⟨mem, vm₁, a, frs₁, hbump, hfr₁, hlen, rfl⟩ := htop.pushGeneral hwindow hgen
  obtain ⟨htotal, hframe⟩ := htop.frame_eq
  have hflag : fr.hasPointerOrDynamic = false := htop.flag.trans htop.noPointer
  have hiff : SameArgsAndCaps ex.m fr.f nargs
      (vm₁.selfCalled { fr with rf := { fr.rf with mem := a } } mem dst
        (argMem ex.m fr.f { fr.rf with mem := mem } { fr.rf with mem := a } first nargs
          vm₁.store.mem))
      (vm₁.selfCalled { fr with rf := { fr.rf with mem := a } } mem dst
        (inheritMem ex.m fr.f { fr.rf with mem := mem } { fr.rf with mem := a } nargs
          (argMem ex.m fr.f { fr.rf with mem := mem } { fr.rf with mem := a } first nargs
            vm₁.store.mem))) ↔
      CapturesThere ex.m fr.f nargs { fr.rf with mem := mem } { fr.rf with mem := a }
        (argMem ex.m fr.f { fr.rf with mem := mem } { fr.rf with mem := a } first nargs
          vm₁.store.mem) := by
    rw [← hframe mem]
    refine sameArgsAndCaps_iff (fun r x ↦ ?_) fun r x ↦ ?_
    · rw [hframe]
      rfl
    · rw [hframe]
      rfl
  refine ⟨mem, vm₁, _, _, frs₁, hbump, hfr₁, result_vmPushSelfNumeric htop.frames hbump hfr₁,
    result_vmPushFrame_self htop.frames hroom hn hflag hbump hfr₁ hlen rfl, hiff, fun hapart ↦
      hiff.trans ?_⟩
  have happly := capturesThere_argMem first nargs vm₁.store.mem
    (show a + (vmGetFrameLayout ex.m fr.f).total ≤ mem by rw [htotal]; exact hapart)
  rw [hframe, hframe] at happly
  exact happly

end Agree

/-- A closure over a number that calls itself. -/
def closureModule : JelloBcModule :=
  { tailTryModule with
    features := { (default : Features) with capStart := true }
    types := [⟨.function, 0⟩, ⟨.i32, 0⟩]
    sigs := [default]
    funcs :=
      [{ regTypes := [1, 0, 1]
         capStart := 0
         insns := [{ op := .constI32, a := 0, b := 0, c := 0, imm := 7 },
           { op := .closure, a := 1, b := 0, c := 1, imm := 48 },
           { op := .callr, a := 2, b := 1, c := 1, imm := 0 },
           { op := .ret, a := 2, b := 0, c := 0, imm := 0 }]
         sourceFile := 0
         lines := [] },
       { regTypes := [1, 1]
         capStart := 1
         insns := [{ op := .call, a := 0, b := 0, c := 1, imm := 48 },
           { op := .ret, a := 0, b := 0, c := 0, imm := 0 }]
         sourceFile := 0
         lines := [] }] }

/-- A function without captures that calls itself. -/
def recursiveModule : JelloBcModule :=
  { closureModule with
    funcs :=
      [{ regTypes := [1]
         capStart := 0
         insns := [{ op := .call, a := 0, b := 0, c := 1, imm := 47 },
           { op := .ret, a := 0, b := 0, c := 0, imm := 0 }]
         sourceFile := 0
         lines := [] }] }

/-- The frame of the closure, and that of its caller. -/
def closureFrame : CallFrame :=
  { f := 1
    rf := { mem := 4116, off := [0, 4], nregs := 2, total := 8 }
    pc := 0
    callerDst := 2
    excBase := 0
    hasCaller := true
    jdllRetCapture := false
    hasPointerOrDynamic := false }

def closureCaller : CallFrame :=
  { f := 0
    rf := { mem := 4096, off := [0, 8, 16], nregs := 3, total := 20 }
    pc := 3
    callerDst := 0
    excBase := 0
    hasCaller := false
    jdllRetCapture := false
    hasPointerOrDynamic := true }

def recursiveFrame : CallFrame :=
  { f := 0
    rf := { mem := 4096, off := [0], nregs := 1, total := 4 }
    pc := 0
    callerDst := 0
    excBase := 0
    hasCaller := false
    jdllRetCapture := false
    hasPointerOrDynamic := false }

/-- A step of a program from a state that a run has come to, from what evaluation shows of it. -/
theorem stepped_states (ex : Exec) (n : ℕ) {α β : Type} (x : VMM α) (frs : List CallFrame)
    (view : α × VM → β) (b : β)
    (h₁ : (result (fetchAt ex false .switch n) jelloVmCreate).toOption.map
      (fun r ↦ (r.1, r.2.callFrames, r.2.canPush)) = some (((true, none), none), frs, true))
    (h₂ : (result (do
        let r ← fetchAt ex false .switch n
        let a ← x
        pure (r, a)) jelloVmCreate).toOption.map (fun r ↦ view (r.1.2, r.2)) = some b) :
    ∃ vm r, result (fetchAt ex false .switch n) jelloVmCreate = .ok (((true, none), none), vm) ∧
      Fetches ex false .switch (fun _ ↦ True) vm ∧ vm.callFrames = frs ∧ vm.canPush = true ∧
      result x vm = .ok r ∧ view r = b := by
  obtain ⟨vm, a, vm₂, hr₁, hv₁, hx, hv₂, -⟩ :=
    result_of_views (f := fun vm ↦ (vm.callFrames, vm.canPush)) h₁ h₂
  obtain ⟨hfrs, hroom⟩ := Prod.mk.inj hv₁
  exact ⟨vm, (a, vm₂), hr₁, fetches_of_fetchAt hr₁, hfrs, hroom, hx, hv₂⟩

/-- A closure over a number calls itself: the fast path loses the number, the general path keeps
it. -/
theorem closure_self_call_differs : Accepted closureModule ∧
    ∃ vm vm₂ vm', Fetches (Exec.alone closureModule) false .switch (fun _ ↦ True) vm ∧
      NumericTop (Exec.alone closureModule) vm closureFrame [closureCaller] ∧
      result (vmPushSelfNumeric (Exec.alone closureModule) 0 1 0) vm = .ok ((), vm₂) ∧
      result (pushGeneral (Exec.alone closureModule) 1 1 1 0 0 1 none true) vm =
        .ok (true, vm') ∧
      ¬ SameArgsAndCaps closureModule 1 1 vm₂ vm' := by
  obtain ⟨vm, r, hrun, hfetch, hfrs, -, hfast, hbyte⟩ := stepped_states
    (Exec.alone closureModule) 3 (vmPushSelfNumeric (Exec.alone closureModule) 0 1 0)
    [closureFrame, closureCaller] (fun r ↦ r.2.topByte 1 0) 0 (by decide +kernel)
    (by decide +kernel)
  obtain ⟨vm₁, r', hrun', -, -, -, hgen, hview⟩ := stepped_states
    (Exec.alone closureModule) 3
    (pushGeneral (Exec.alone closureModule) 1 1 1 0 0 1 none true)
    [closureFrame, closureCaller] (fun r ↦ (r.1, r.2.topByte 1 0)) (true, 7) (by decide +kernel)
    (by decide +kernel)
  obtain rfl : vm = vm₁ := by simpa [hrun] using hrun'
  obtain ⟨b, vm'⟩ := r'
  simp only [Prod.mk.injEq] at hview
  obtain ⟨rfl, hbyte'⟩ := hview
  refine ⟨by decide, vm, r.2, vm', hfetch, ⟨hfrs, by decide, ⟨4116, by decide⟩, by decide⟩, hfast,
    hgen, fun hsame ↦ ?_⟩
  have h := hsame 1 (by decide) (.inr (by decide)) 0 (by decide)
  rw [hbyte, hbyte'] at h
  exact absurd h (by decide)

theorem recursive_call_agrees : ∃ vm vm₂ vm',
    result (vmPushSelfNumeric (Exec.alone recursiveModule) 0 1 0) vm = .ok ((), vm₂) ∧
      result (pushGeneral (Exec.alone recursiveModule) 0 0 0 0 0 1 none true) vm =
        .ok (true, vm') ∧
      SameArgsAndCaps recursiveModule 0 1 vm₂ vm' := by
  obtain ⟨vm, r, -, -, hfrs, hroom, hgen, hview⟩ := stepped_states
    (Exec.alone recursiveModule) 0
    (pushGeneral (Exec.alone recursiveModule) 0 0 0 0 0 1 none true)
    [recursiveFrame] (fun r ↦ r.1) true (by decide +kernel) (by decide +kernel)
  obtain ⟨b, vm'⟩ := r
  obtain rfl : b = true := hview
  have htop : NumericTop (Exec.alone recursiveModule) vm recursiveFrame [] :=
    ⟨hfrs, by decide, ⟨4096, by decide⟩, by decide⟩
  obtain ⟨mem, vm₁, vm₂, fr₁, frs₁, -, -, hfast, -, hiff, -⟩ :=
    self_call_agrees htop hroom (by decide) (by decide) hgen
  refine ⟨vm, vm₂, vm', hfast, hgen, hiff.mpr fun hcaps ↦ absurd hcaps ?_⟩
  decide

end JelloVM
