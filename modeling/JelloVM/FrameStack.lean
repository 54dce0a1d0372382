import JelloVM.Library.AreaStack
import JelloVM.Check
import JelloVM.Exc

namespace JelloVM

open ByteMemory Logged

section Layout

theorem jelloSlotSize_cases (k : Kind) : jelloSlotSize k = 4 ∨ jelloSlotSize k = 8 := by
  cases k <;> simp [jelloSlotSize]

theorem layoutFrom_le (ks : List Kind) (t n : ℕ) (h : t ≤ 8 * n) :
    (layoutFrom ks t).2 ≤ 8 * (n + ks.length) := by
  induction ks generalizing t n with
  | nil => simpa [layoutFrom] using h
  | cons k ks ih =>
    have hslot : alignUp t (jelloSlotSize k) + jelloSlotSize k ≤ 8 * (n + 1) := by
      unfold alignUp
      obtain hk | hk := jelloSlotSize_cases k
      · rw [hk]
        omega
      · rw [hk]
        omega
    have hrest := ih _ (n + 1) hslot
    simp only [layoutFrom, List.length_cons]
    omega

def frameTotalMax : ℕ := 2048

/-- No function has more registers than a byte can name. -/
def FewRegs (m : JelloBcModule) : Prop := ∀ fn ∈ m.funcs, fn.nregs ≤ 256

instance (m : JelloBcModule) : Decidable (FewRegs m) := by
  unfold FewRegs
  infer_instance

theorem FewRegs.total_le {m : JelloBcModule} (hm : FewRegs m) (f : ℕ) :
    (vmGetFrameLayout m f).total ≤ frameTotalMax := by
  have hlen : (regKinds m f).length ≤ 256 := by
    rw [regKinds, List.length_map]
    unfold JelloBcModule.func
    rw [List.getD_eq_getElem?_getD]
    cases hf : m.funcs[f]? with
    | none => simp [default, instInhabitedJelloBcFunction.default]
    | some fn => exact hm fn (List.mem_of_getElem? hf)
  have hle := layoutFrom_le (regKinds m f) 0 0 le_rfl
  unfold frameTotalMax
  simp only [vmGetFrameLayout]
  omega

end Layout

def RegFrame.area (rf : RegFrame) : Area := { start := rf.mem, size := rf.total }

def CallFrame.area (fr : CallFrame) : Area := fr.rf.area

def VM.totals (vm : VM) : List ℕ := vm.callFrames.map fun fr ↦ fr.rf.total

/-- What the operations on frames keep: the areas of the frames lie one above the other. -/
structure StackOk (vm : VM) : Prop where
  stacked : Area.Stacked vm.frameStack (vm.callFrames.map CallFrame.area) vm.frameStackTop
  top_le : vm.frameStackTop ≤ vm.frameStackCap
  base : vm.frameStackCap ≠ 0 → vm.frameStack ≠ 0
  max : vm.callFramesMax = 100000
  len : vm.callFrames.length ≤ 100000
  small : ∀ fr ∈ vm.callFrames, fr.rf.total ≤ frameTotalMax

section Steps

variable {vm : VM} {fr : CallFrame} {frs : List CallFrame}

theorem StackOk.setStore (h : StackOk vm) (s : Store) : StackOk (vm.setStore s) :=
  ⟨h.stacked, h.top_le, h.base, h.max, h.len, h.small⟩

theorem StackOk.handlers (h : StackOk vm) (hs : List ExcHandler) :
    StackOk { vm with excHandlers := hs } :=
  ⟨h.stacked, h.top_le, h.base, h.max, h.len, h.small⟩

theorem ends_onStore {α : Type} {x : StoreM α} {Q : α → VM → Prop}
    (h : ∀ a s, Q a (vm.setStore s)) : Ends (onStore x) Q vm := ends_onPart h

theorem StackOk.top_small (h : StackOk vm) : vm.frameStackTop ≤ 2048 * 100000 := by
  have hsmall : ∀ a ∈ vm.callFrames.map CallFrame.area, a.size ≤ 2048 := by
    intro a ha
    obtain ⟨fr, hfr, rfl⟩ := List.mem_map.mp ha
    exact h.small fr hfr
  have hle := h.stacked.top_le hsmall
  have hlen := h.len
  rw [List.length_map] at hle
  omega

theorem StackOk.room (h : StackOk vm) (hroom : vm.canPush = true) :
    vm.callFrames.length < 100000 := by
  unfold VM.canPush at hroom
  rw [h.max] at hroom
  simpa using hroom

theorem growCap_ge {n cap need c : ℕ} (h : growCap n cap need = some c) : need ≤ c := by
  induction n generalizing cap with
  | zero => simp [growCap] at h
  | succ n ih =>
    rw [growCap] at h
    split_ifs at h with hlt
    · exact ih h
    · simp only [Option.some.injEq] at h
      omega

theorem area_rebase (rf : RegFrame) (old new : ℕ) :
    (rf.rebase old new).area = Area.move old new rf.area := by
  unfold RegFrame.rebase Area.move RegFrame.area
  simp only
  split_ifs <;> rfl

theorem total_rebase (rf : RegFrame) (old new : ℕ) : (rf.rebase old new).total = rf.total := by
  unfold RegFrame.rebase
  split_ifs <;> rfl

theorem map_area_rebase (frs : List CallFrame) (old new : ℕ) :
    (frs.map fun fr ↦ { fr with rf := fr.rf.rebase old new }).map CallFrame.area =
      (frs.map CallFrame.area).map (Area.move old new) := by
  simp only [List.map_map]
  apply List.map_congr_left
  intro fr _
  exact area_rebase fr.rf old new

/-- The stack of `old` with room for `need` more bytes. -/
structure Grown (old : VM) (need : ℕ) (vm : VM) : Prop where
  ok : StackOk vm
  top : vm.frameStackTop = old.frameStackTop
  cap : old.frameStackTop + need ≤ vm.frameStackCap
  totals : vm.totals = old.totals

theorem u32_top (h : StackOk vm) {need : ℕ} (hneed : need ≤ frameTotalMax) :
    u32 (vm.frameStackTop + need) = vm.frameStackTop + need := by
  have htop := h.top_small
  unfold frameTotalMax at hneed
  exact Nat.mod_eq_of_lt (by omega)

theorem ends_grow (ex : Exec) (h : StackOk vm) {need : ℕ} (hneed : need ≤ frameTotalMax) :
    Ends (vmFrameStackGrow ex need) (fun _ ↦ Grown vm need) vm := by
  simp only [vmFrameStackGrow, spec_bind, spec_read, id, u32_top h hneed, spec_ite, spec_pure]
  refine ⟨fun hle ↦ ⟨h, rfl, hle, rfl⟩, fun hlt ↦ ?_⟩
  split
  · exact spec_fail _
  · next cap hcap =>
    have hge := growCap_ge hcap
    simp only [spec_ite, spec_change]
    refine ⟨fun _ ↦ spec_fail _, fun hp ↦ ⟨fun hsame ↦ ?_, fun hmoved ↦ ?_⟩⟩
    · refine ⟨⟨?_, by simp only; omega, fun _ ↦ hp, h.max, h.len, h.small⟩, rfl, hge, rfl⟩
      obtain hsame | hold := hsame
      · simp only [hsame]
        exact h.stacked
      · have hzero : vm.frameStackTop = 0 := by
          have hb := h.base
          have hle := h.top_le
          omega
        have hstacked := h.stacked
        simp only [hzero] at hstacked ⊢
        exact hstacked.rebase_zero _
    · push Not at hmoved
      refine ⟨⟨?_, by simp only; omega, fun _ ↦ hp, h.max, ?_, ?_⟩, rfl, hge, ?_⟩
      · simp only [map_area_rebase]
        exact h.stacked.map_move hmoved.2 _
      · simp only [List.length_map]
        exact h.len
      · intro fr hfr
        obtain ⟨g, hg, rfl⟩ := List.mem_map.mp hfr
        simp only [total_rebase]
        exact h.small g hg
      · simp [VM.totals, Function.comp_def, total_rebase]

/-- `size` bytes at `mem` have been handed out above the frames of `vm`, which have kept their
sizes. -/
structure Bumped (totals : List ℕ) (size mem : ℕ) (vm : VM) : Prop where
  totals : vm.totals = totals
  le_top : size ≤ vm.frameStackTop
  stacked :
    Area.Stacked vm.frameStack (vm.callFrames.map CallFrame.area) (vm.frameStackTop - size)
  mem_eq : size ≠ 0 → mem = vm.frameStack + (vm.frameStackTop - size)
  top_le : vm.frameStackTop ≤ vm.frameStackCap
  base : vm.frameStackCap ≠ 0 → vm.frameStack ≠ 0
  max : vm.callFramesMax = 100000
  small : ∀ fr ∈ vm.callFrames, fr.rf.total ≤ frameTotalMax

theorem Grown.bumped {old : VM} {size : ℕ} (h : Grown old size vm) (hsize : size ≤ frameTotalMax) :
    Bumped old.totals size (vm.frameStack + vm.frameStackTop)
      { vm with frameStackTop := u32 (vm.frameStackTop + size) } := by
  have htop := h.top
  have hcap := h.cap
  rw [u32_top h.ok hsize]
  refine ⟨h.totals, Nat.le_add_left _ _, ?_, ?_, by simp only; omega, h.ok.base, h.ok.max,
    h.ok.small⟩
  · simp only [Nat.add_sub_cancel]
    exact h.ok.stacked
  · intro _
    simp only [Nat.add_sub_cancel]

theorem ends_bump (ex : Exec) (h : StackOk vm) {size : ℕ} (hsize : size ≤ frameTotalMax) :
    Ends (vmFrameStackBump ex size) (fun mem ↦ Bumped vm.totals size mem) vm := by
  unfold vmFrameStackBump
  split_ifs with h0
  · subst h0
    exact (spec_pure _).mpr ⟨rfl, Nat.zero_le _, h.stacked, fun h0 ↦ absurd rfl h0, h.top_le,
      h.base, h.max, h.small⟩
  · simp only [spec_bind, spec_read, id, spec_ite, spec_change, spec_pure]
    refine ⟨fun _ ↦ (ends_grow ex h hsize).mono fun _ g hg ↦ hg.bumped hsize, fun hfits ↦ ?_⟩
    rw [u32_top h hsize] at hfits
    have hg : Grown vm size vm := ⟨h, rfl, Nat.not_lt.mp hfits, rfl⟩
    exact hg.bumped hsize

theorem Bumped.push {ts : List ℕ} {size mem : ℕ} (h : Bumped ts size mem vm)
    (hts : ts.length < 100000)
    (hsize : size ≤ frameTotalMax) (hfr : fr.area = ⟨mem, size⟩) :
    StackOk { vm with callFrames := fr :: vm.callFrames } := by
  have hle := h.le_top
  have hlen := congrArg List.length h.totals
  rw [VM.totals, List.length_map] at hlen
  refine ⟨?_, h.top_le, h.base, h.max, by simp only [List.length_cons]; omega, ?_⟩
  · have hpush := h.stacked.push h.mem_eq
    rw [Nat.sub_add_cancel hle] at hpush
    simp only [List.map_cons, hfr]
    exact hpush
  · intro g hg
    obtain rfl | hg := List.mem_cons.mp hg
    · have hs : g.rf.total = size := congrArg Area.size hfr
      rw [hs]
      exact hsize
    · exact h.small g hg

theorem sub32_of_le {a b : ℕ} (h : b ≤ a) (ha : a < 2 ^ 32) : sub32 a b = a - b := by
  unfold sub32 u32
  rw [show a + 2 ^ 32 - b = a - b + 2 ^ 32 by omega, Nat.add_mod_right]
  exact Nat.mod_eq_of_lt (by omega)

theorem StackOk.frames (h : StackOk vm) (hf : vm.callFrames = frs) :
    StackOk { vm with callFrames := frs } := by
  rw [← hf]
  exact h

/-- Releasing a frame takes its bytes off the stack, if no other frame is above it. -/
theorem ends_release (h : StackOk { vm with callFrames := fr :: frs }) {Q : Unit → VM → Prop}
    (hQ : Q () { vm with frameStackTop := vm.frameStackTop - fr.rf.total }) :
    Ends (vmRfRelease fr.rf) Q vm := by
  have hst := h.stacked
  rw [List.map_cons] at hst
  have hle : fr.rf.total ≤ vm.frameStackTop := hst.size_le
  have htop : vm.frameStackTop ≤ 2048 * 100000 := h.top_small
  simp only [vmRfRelease, spec_bind, spec_read, id, spec_ite, spec_pure, spec_change]
  refine ⟨fun hmem ↦ ?_, fun _ ↦ ⟨fun _ ↦ ?_, fun _ ↦ spec_fail _⟩⟩
  · have hzero : fr.rf.total = 0 := by
      by_contra hne
      have hstart : fr.rf.mem = vm.frameStack + (vm.frameStackTop - fr.rf.total) :=
        hst.start_eq hne
      have hb : vm.frameStackCap ≠ 0 → vm.frameStack ≠ 0 := h.base
      have hcap : vm.frameStackTop ≤ vm.frameStackCap := h.top_le
      omega
    rw [hzero, Nat.sub_zero] at hQ
    exact hQ
  · rw [sub32_of_le hle (by omega)]
    exact hQ

theorem StackOk.popped (h : StackOk { vm with callFrames := fr :: frs }) :
    StackOk { vm with frameStackTop := vm.frameStackTop - fr.rf.total, callFrames := frs } := by
  have hst := h.stacked
  rw [List.map_cons] at hst
  have hlen := h.len
  rw [List.length_cons] at hlen
  have hcap : vm.frameStackTop ≤ vm.frameStackCap := h.top_le
  refine ⟨hst.pop, by simp only; omega, h.base, h.max, by simp only; omega, ?_⟩
  intro g hg
  exact h.small g (List.mem_cons_of_mem fr hg)

/-- Another frame in the place of the last one, at the place where that one started. -/
theorem StackOk.replaced (h : StackOk vm) (hf : vm.callFrames = fr :: frs) (new : CallFrame)
    (hsize : new.rf.total ≤ fr.rf.total)
    (hstart : new.rf.total ≠ 0 → new.rf.mem = vm.frameStack + (vm.frameStackTop - fr.rf.total)) :
    StackOk
      { vm with
        frameStackTop := vm.frameStackTop - fr.rf.total + new.rf.total
        callFrames := new :: frs } := by
  have hst := h.stacked
  rw [hf, List.map_cons] at hst
  have hle : fr.rf.total ≤ vm.frameStackTop := hst.size_le
  have hold := h.small fr (hf ▸ List.mem_cons_self)
  refine ⟨hst.resize hstart, ?_, h.base, h.max, ?_, ?_⟩
  · have := h.top_le
    simp only
    omega
  · have := h.len
    rw [hf] at this
    exact this
  · intro g hg
    obtain rfl | hg := List.mem_cons.mp hg
    · omega
    · exact h.small g (hf ▸ List.mem_cons_of_mem fr hg)

theorem Bumped.setTop {ts : List ℕ} {size mem : ℕ} (h : Bumped (0 :: ts) size mem vm)
    (hts : ts.length < 100000) (hsize : size ≤ frameTotalMax) (hfr : fr.area = ⟨mem, size⟩) :
    StackOk { vm with callFrames := fr :: vm.callFrames.tail } := by
  have htotals := h.totals
  cases hf : vm.callFrames with
  | nil => simp [VM.totals, hf] at htotals
  | cons old rest =>
    simp only [VM.totals, hf, List.map_cons, List.cons.injEq] at htotals
    have hst := h.stacked
    rw [hf, List.map_cons] at hst
    have hrest : Bumped ts size mem { vm with callFrames := rest } := by
      refine ⟨htotals.2, h.le_top, ?_, h.mem_eq, h.top_le, h.base, h.max, ?_⟩
      · have hpop := hst.pop
        rw [CallFrame.area, RegFrame.area, htotals.1, Nat.sub_zero] at hpop
        exact hpop
      · intro g hg
        exact h.small g (hf ▸ List.mem_cons_of_mem old hg)
    exact hrest.push hts hsize hfr

theorem StackOk.reset (h : StackOk vm) :
    StackOk (if vm.callFrames = [] then { vm with frameStackTop := 0 } else vm) := by
  split_ifs with hnil
  · have hst := h.stacked
    rw [hnil] at hst
    have hzero : vm.frameStackTop = 0 := hst
    rw [← hzero]
    exact h
  · exact h

theorem VM.totals_length (vm : VM) : vm.totals.length = vm.callFrames.length := List.length_map _

theorem VM.frameAt_total {i : ℕ} (h : vm.frameAt i = some fr) :
    vm.totals.reverse[i]? = some fr.rf.total := by
  unfold VM.frameAt at h
  rw [VM.totals, ← List.map_reverse, List.getElem?_map, h]
  rfl

theorem StackOk.frameAt_small (h : StackOk vm) {i : ℕ} (hi : vm.frameAt i = some fr) :
    fr.rf.total ≤ frameTotalMax :=
  h.small fr (List.mem_reverse.mp (List.mem_of_getElem? hi))

theorem ends_frameAtIndex {i : ℕ} {Q : CallFrame → VM → Prop}
    (h : ∀ fr, vm.frameAt i = some fr → Q fr vm) : Ends (frameAtIndex i) Q vm := by
  simp only [frameAtIndex, spec_bind, spec_read]
  split
  · next fr hfr => exact (spec_pure fr).mpr (h fr hfr)
  · exact spec_fail _

theorem ends_topFrame {Q : CallFrame → VM → Prop}
    (h : ∀ fr frs, vm.callFrames = fr :: frs → Q fr vm) : Ends topFrame Q vm := by
  simp only [topFrame, spec_bind, spec_read]
  split
  · next fr frs hfr => exact (spec_pure fr).mpr (h fr frs hfr)
  · exact spec_fail _

theorem ends_top (hfr : vm.callFrames = fr :: frs) {Q : CallFrame → VM → Prop} (h : Q fr vm) :
    Ends topFrame Q vm := by
  refine ends_topFrame fun fr' frs' hfr' ↦ ?_
  obtain ⟨rfl, rfl⟩ : fr = fr' ∧ frs = frs' := by simpa using hfr.symm.trans hfr'
  exact h

end Steps

section Operations

variable {vm : VM} {ex : Exec}

theorem ends_stackOverflow (h : StackOk vm) : Ends stackOverflow (fun _ ↦ StackOk) vm :=
  ends_onStore fun _ s ↦ h.setStore s

theorem ends_pushFreshFrame (hm : FewRegs ex.m) (h : StackOk vm)
    (hroom : vm.callFrames.length < 100000) (calleeF callerDst : ℕ) (hasCaller capture : Bool) :
    Ends (pushFreshFrame ex calleeF callerDst hasCaller capture) (fun _ ↦ StackOk) vm := by
  simp only [pushFreshFrame, pushCallFrame, spec_bind, spec_read, spec_change, spec_pure]
  refine (ends_bump ex h (hm.total_le calleeF)).mono fun mem g hg ↦ ?_
  refine ends_onStore fun _ s ↦ StackOk.setStore ?_ s
  refine hg.push ?_ (hm.total_le calleeF) rfl
  rw [VM.totals_length]
  exact hroom

theorem ends_pushGeneral (hm : FewRegs ex.m) (h : StackOk vm)
    (hroom : vm.callFrames.length < 100000) (calleeF callerF i callerDst firstArg nargs : ℕ)
    (funobj : Option JelloFunction) (hasCaller : Bool) :
    Ends (pushGeneral ex calleeF callerF i callerDst firstArg nargs funobj hasCaller)
      (fun _ ↦ StackOk) vm := by
  simp only [pushGeneral, spec_bind]
  refine (ends_pushFreshFrame hm h hroom calleeF callerDst hasCaller false).mono fun rf g hg ↦ ?_
  simp only [spec_ite, spec_bind, spec_read, spec_pure]
  refine ⟨fun _ ↦ ⟨fun _ ↦ spec_fail _, fun _ ↦ ?_⟩, fun _ ↦ hg⟩
  refine ends_frameAtIndex fun caller _ ↦ ?_
  exact ends_onStore fun _ s ↦ hg.setStore s

theorem ends_pushSelf (h : StackOk vm) (hroom : vm.callFrames.length < 100000) {i : ℕ}
    {caller : CallFrame} (hcaller : vm.frameAt i = some caller) {Q : ℕ → VM → Prop}
    (hQ : ∀ mem g, Bumped vm.totals caller.rf.total mem g →
      (∀ fr ∈ g.frameAt i, ∀ s, ∀ new : CallFrame, new.area = ⟨mem, fr.rf.total⟩ →
        StackOk (VM.setStore { g with callFrames := new :: g.callFrames } s)) → Q mem g) :
    Ends (vmFrameStackBump ex caller.rf.total) Q vm := by
  have hsmall := h.frameAt_small hcaller
  refine (ends_bump ex h hsmall).mono fun mem g hg ↦ hQ mem g hg ?_
  intro fr hfr s new hnew
  have htotal : fr.rf.total = caller.rf.total := by
    have hnow := VM.frameAt_total hfr
    rw [hg.totals, VM.frameAt_total hcaller, Option.some.injEq] at hnow
    exact hnow.symm
  refine StackOk.setStore (hg.push ?_ hsmall ?_) s
  · rw [VM.totals_length]
    exact hroom
  · rw [hnew, htotal]

theorem ends_vmPushFrame (hm : FewRegs ex.m) (h : StackOk vm)
    (calleeF callerF i callerDst firstArg nargs : ℕ) (funobj : Option JelloFunction)
    (hasCaller : Bool) :
    Ends (vmPushFrame ex calleeF callerF i callerDst firstArg nargs funobj hasCaller)
      (fun _ ↦ StackOk) vm := by
  simp only [vmPushFrame, resetFrameStack, pushCallFrame, spec_bind, spec_read, id, spec_ite, spec_change,
    spec_pure]
  refine ⟨fun _ ↦ ends_stackOverflow h, fun hcan ↦ ?_⟩
  have hroom := h.room (by simpa using hcan)
  have hreset := h.reset
  have hlen : (if vm.callFrames = [] then { vm with frameStackTop := 0 } else vm).callFrames.length
      < 100000 := by
    split_ifs <;> exact hroom
  refine ⟨fun _ ↦ ⟨fun _ ↦ spec_fail _, fun _ ↦ ?_⟩, fun _ ↦ ?_⟩
  · refine ends_frameAtIndex fun caller hcaller ↦ ?_
    refine ⟨fun _ ↦ ?_, fun _ ↦ ends_pushGeneral hm hreset hlen ..⟩
    refine ends_pushSelf hreset hlen hcaller fun mem g _ hnew ↦ ?_
    refine ends_frameAtIndex fun fr hfr ↦ ?_
    refine ends_onStore fun _ s ↦ ?_
    exact hnew fr hfr s _ rfl
  · exact ends_pushGeneral hm hreset hlen ..

theorem VM.frameAt_top {fr : CallFrame} {frs : List CallFrame} (h : vm.callFrames = fr :: frs) :
    vm.frameAt frs.length = some fr := by
  simp [VM.frameAt, h]

theorem ends_vmPushSelfNumeric (h : StackOk vm) (hroom : vm.callFrames.length < 100000)
    (firstArg nargs callerDst : ℕ) :
    Ends (vmPushSelfNumeric ex firstArg nargs callerDst) (fun _ ↦ StackOk) vm := by
  simp only [vmPushSelfNumeric, pushCallFrame, spec_bind, spec_read, spec_change]
  refine ends_topFrame fun fr frs hfr ↦ ?_
  refine ends_pushSelf h hroom (VM.frameAt_top hfr) fun mem g hg hnew ↦ ?_
  refine ends_topFrame fun fr' frs' hfr' ↦ ?_
  refine ends_onStore fun _ s ↦ ?_
  have hlen : frs'.length = frs.length := by
    have := congrArg List.length hg.totals
    rw [VM.totals_length, VM.totals_length, hfr', hfr] at this
    simpa using this
  exact hnew fr' (hlen ▸ VM.frameAt_top hfr') s _ rfl

theorem ends_vmPushFrameEntry (hm : FewRegs ex.m) (h : StackOk vm) (calleeF : ℕ)
    (funobj : Option JelloFunction) (args : List JelloValue) :
    Ends (vmPushFrameEntry ex calleeF funobj args) (fun _ ↦ StackOk) vm := by
  simp only [vmPushFrameEntry, resetFrameStack, spec_bind, spec_read, id, spec_ite, spec_change,
    spec_pure]
  refine ⟨fun _ ↦ ends_stackOverflow h, fun hcan ↦ ⟨fun _ ↦ spec_fail _, fun _ ↦ ?_⟩⟩
  have hroom := h.room (by simpa using hcan)
  have hlen : (if vm.callFrames = [] then { vm with frameStackTop := 0 } else vm).callFrames.length
      < 100000 := by
    split_ifs <;> exact hroom
  refine (ends_pushFreshFrame hm h.reset hlen calleeF 0 false false).mono fun rf g hg ↦ ?_
  exact ⟨fun _ ↦ ends_onStore fun _ s ↦ hg.setStore s, fun _ ↦ ends_onStore fun _ s ↦ hg.setStore s⟩

theorem ends_pushCalled (hm : FewRegs ex.m) (h : StackOk vm) (calleeF : ℕ) (fn : JelloFunction)
    (args : List JelloValue) (capture : Bool) :
    Ends (pushCalled ex calleeF fn args capture) (fun _ ↦ StackOk) vm := by
  simp only [pushCalled, spec_bind, spec_read, id, spec_ite, spec_pure]
  refine ⟨fun _ ↦ ends_stackOverflow h, fun hcan ↦ ?_⟩
  have hroom := h.room (by simpa using hcan)
  refine (ends_pushFreshFrame hm h hroom calleeF 0 true capture).mono fun rf g hg ↦ ?_
  exact ends_onStore fun _ s ↦ hg.setStore s

theorem ends_withThis (h : StackOk vm) (fn : JelloFunction) (boundThis : JelloValue) :
    Ends (withThis fn boundThis) (fun _ ↦ StackOk) vm := by
  simp only [withThis, spec_ite, spec_bind, spec_pure]
  exact ⟨fun _ ↦ ends_onStore fun _ s ↦ h.setStore s, fun _ ↦ h⟩

theorem ends_vmPushFrameJelloCall (hm : FewRegs ex.m) (h : StackOk vm) (p boundThis : JelloValue)
    (args : List JelloValue) (capture : Bool) :
    Ends (vmPushFrameJelloCall ex p boundThis args capture) (fun _ ↦ StackOk) vm := by
  simp only [vmPushFrameJelloCall, spec_ite, spec_bind, spec_pure]
  refine ⟨fun _ ↦ h, fun _ ↦ ends_onStore fun c s ↦ ?_⟩
  have hs := h.setStore s
  split
  · next fn =>
    simp only [spec_ite, spec_bind, spec_pure]
    refine ⟨fun _ ↦ hs, fun _ ↦ ⟨fun _ ↦ hs, fun _ ↦ ?_⟩⟩
    refine (ends_withThis hs fn boundThis).mono fun callFn g hg ↦ ?_
    exact ends_pushCalled hm hg (bytecodeIdx fn.funcIndex) callFn args capture
  · exact (spec_pure _).mpr hs

theorem ends_reallocFrame (hm : FewRegs ex.m) (h : StackOk vm) {fr : CallFrame}
    {frs : List CallFrame} (hfr : vm.callFrames = fr :: frs) (calleeF : ℕ) :
    Ends (reallocFrame ex fr calleeF) (fun _ ↦ StackOk) vm := by
  simp only [reallocFrame, setTopFrame, spec_bind, spec_change, spec_pure]
  refine ends_release (h.frames hfr) ?_
  have hempty := h.replaced hfr { fr with rf := default } (Nat.zero_le _) fun h0 ↦ absurd rfl h0
  rw [show (default : RegFrame).total = 0 from rfl, Nat.add_zero] at hempty
  simp only [hfr, List.tail_cons]
  refine (ends_bump ex hempty (hm.total_le calleeF)).mono fun mem g hg ↦ ?_
  have hlen := hempty.len
  have hts : (frs.map fun fr ↦ fr.rf.total).length < 100000 := by
    rw [List.length_map]
    simpa using hlen
  exact Bumped.setTop hg hts (hm.total_le calleeF) rfl

/-- The raw path of a tail call, unless it leaves a smaller frame that is not empty. -/
theorem ends_replaceRaw (hm : FewRegs ex.m) (h : StackOk vm) (calleeF firstArg nargs : ℕ)
    (path : TailPath)
    (hshrink : ∀ fr frs, vm.callFrames = fr :: frs →
      (vmGetFrameLayout ex.m calleeF).total < fr.rf.total →
        (vmGetFrameLayout ex.m calleeF).total = 0) :
    Ends (replaceRaw ex calleeF firstArg nargs path) (fun _ ↦ StackOk) vm := by
  simp only [replaceRaw, setTopFrame, spec_bind]
  refine ends_topFrame fun fr frs hfr ↦ ends_onStore fun buf s ↦ ?_
  have hs := h.setStore s
  simp only [spec_ite, spec_bind, spec_change]
  refine ⟨fun hfit ↦ ends_onStore fun _ s' ↦ StackOk.setStore ?_ s', fun _ ↦ ?_⟩
  · have hst := h.stacked
    rw [hfr, List.map_cons] at hst
    have hle : fr.rf.total ≤ vm.frameStackTop := hst.size_le
    have htop := h.top_small
    have hzero := hshrink fr frs hfr
    set n := (vmGetFrameLayout ex.m calleeF).total with hn
    have hnew := hs.replaced hfr (fr.become calleeF (vmGetFrameLayout ex.m calleeF)
      (fr.rf.mem + (fr.rf.total - n))) hfit ?_
    · have hdown : sub32 (vm.setStore s).frameStackTop (fr.rf.total - n) =
          vm.frameStackTop - fr.rf.total + n := by
        rw [sub32_of_le (by simp only [VM.setStore]; omega) (by simp only [VM.setStore]; omega)]
        simp only [VM.setStore]
        omega
      rw [hdown, show (vm.setStore s).callFrames = fr :: frs from hfr, List.tail_cons]
      exact hnew
    · intro hne
      have hne' : n ≠ 0 := hne
      have hstart : fr.rf.mem = vm.frameStack + (vm.frameStackTop - fr.rf.total) :=
        hst.start_eq (by simp only [CallFrame.area, RegFrame.area]; omega)
      change fr.rf.mem + (fr.rf.total - n) = vm.frameStack + (vm.frameStackTop - fr.rf.total)
      omega
  · refine (ends_reallocFrame hm hs hfr calleeF).mono fun mem g hg ↦ ?_
    exact ends_onStore fun _ s' ↦ hg.setStore s'

theorem ends_replaceBoxed (hm : FewRegs ex.m) (h : StackOk vm)
    (calleeF callerF firstArg nargs : ℕ) (funobj : Option JelloFunction) :
    Ends (replaceBoxed ex calleeF callerF firstArg nargs funobj) (fun _ ↦ StackOk) vm := by
  simp only [replaceBoxed, spec_bind]
  refine ends_topFrame fun fr frs hfr ↦ ?_
  simp only [spec_ite, spec_bind]
  refine ⟨fun _ ↦ spec_fail _, fun _ ↦ ends_onStore fun args s ↦ ?_⟩
  refine (ends_reallocFrame hm (h.setStore s) hfr calleeF).mono fun mem g hg ↦ ?_
  exact ends_onStore fun _ s' ↦ hg.setStore s'

theorem ends_releaseFrames (frs : List CallFrame) (h : StackOk { vm with callFrames := frs }) :
    Ends (releaseFrames frs) (fun _ vm' ↦ StackOk { vm' with callFrames := [] }) vm := by
  induction frs generalizing vm with
  | nil => exact (spec_pure _).mpr h
  | cons fr frs ih =>
    simp only [releaseFrames, spec_bind]
    exact ends_release h (ih h.popped)

theorem ends_unwindTo (target : ℕ) (frs : List CallFrame) (h : StackOk vm)
    (hfrs : vm.callFrames = frs) :
    Ends (unwindTo target frs) (fun _ g ↦ StackOk g ∧ g.callFrames.length ≤ target + 1) vm := by
  induction frs generalizing vm with
  | nil =>
    refine (spec_pure _).mpr ⟨h, ?_⟩
    simp [hfrs]
  | cons fr frs ih =>
    simp only [unwindTo, spec_ite, spec_bind, spec_pure, vmExcPopForFrame, spec_change,
      popCallFrame]
    refine ⟨fun _ ↦ ?_, fun hle ↦ ⟨h, ?_⟩⟩
    · have hh := h.handlers (vm.excHandlers.dropWhile fun x ↦ x.frameIndex == frs.length)
      refine ends_release (hh.frames hfrs) (ih ?_ (by simp [hfrs]))
      simpa only [hfrs, List.tail_cons] using (hh.frames hfrs).popped
    · rw [hfrs, List.length_cons]
      omega

theorem ends_vmUnwindAllFrames (h : StackOk vm) :
    Ends vmUnwindAllFrames (fun _ ↦ StackOk) vm := by
  simp only [vmUnwindAllFrames, spec_bind, spec_read, spec_change]
  exact ends_releaseFrames vm.callFrames h

theorem VM.frameAt_last {fr : CallFrame} {i : ℕ} (h : vm.frameAt i = some fr)
    (hlen : vm.callFrames.length ≤ i + 1) : ∃ frs, vm.callFrames = fr :: frs := by
  unfold VM.frameAt at h
  cases hf : vm.callFrames with
  | nil => simp [hf] at h
  | cons g frs =>
    have hi := (List.getElem?_eq_some_iff.mp h).1
    simp only [hf, List.length_reverse, List.length_cons] at hi hlen
    have hi' : i = frs.length := by omega
    have htop := VM.frameAt_top hf
    unfold VM.frameAt at htop
    rw [hi', htop, Option.some.injEq] at h
    exact ⟨frs, by rw [h]⟩

theorem StackOk.setPc (h : StackOk vm) {fr : CallFrame} {frs : List CallFrame}
    (hfr : vm.callFrames = fr :: frs) (pc : ℕ) :
    StackOk { vm with callFrames := { fr with pc := pc } :: vm.callFrames.tail } := by
  have hst := h.stacked
  have hlen := h.len
  rw [hfr] at hst hlen
  refine ⟨?_, h.top_le, h.base, h.max, ?_, ?_⟩
  · simp only [hfr, List.tail_cons]
    exact hst
  · simp only [hfr, List.tail_cons]
    exact hlen
  · intro g hg
    rw [hfr, List.tail_cons] at hg
    obtain rfl | hg := List.mem_cons.mp hg
    · exact h.small fr (hfr ▸ List.mem_cons_self)
    · exact h.small g (hfr ▸ List.mem_cons_of_mem fr hg)

theorem ends_vmExcDispatch (h : StackOk vm) : Ends (vmExcDispatch ex) (fun _ ↦ StackOk) vm := by
  simp only [vmExcDispatch, setTopFrame, spec_bind, spec_read, id, spec_ite, spec_pure]
  refine ⟨fun _ ↦ h, fun _ ↦ ?_⟩
  split
  · simp only [spec_bind, spec_change, spec_pure]
    exact (ends_vmUnwindAllFrames h).mono fun _ g hg ↦ hg.handlers []
  · next handler hs _ =>
    simp only [spec_bind, spec_change, spec_pure]
    refine (ends_unwindTo handler.frameIndex vm.callFrames (h.handlers hs) rfl).mono ?_
    intro _ g hg
    refine ends_frameAtIndex fun target htarget ↦ ?_
    obtain ⟨frs, hfrs⟩ := VM.frameAt_last htarget hg.2
    have hpc := hg.1.setPc hfrs handler.catchPc
    refine ends_onStore fun _ s1 ↦ ends_onStore fun _ s2 ↦ ends_onStore fun _ s3 ↦ ?_
    exact ((hpc.setStore s1).setStore s2).setStore s3

theorem ends_vmReplaceFrame (hm : FewRegs ex.m) (h : StackOk vm)
    (calleeF callerF firstArg nargs : ℕ) (funobj : Option JelloFunction)
    (hshrink : ∀ path s, result (tailPath ex.m calleeF callerF firstArg nargs funobj) vm.store =
        .ok (path, s) → path ≠ .boxed → ∀ fr frs, vm.callFrames = fr :: frs →
      (vmGetFrameLayout ex.m calleeF).total < fr.rf.total →
        (vmGetFrameLayout ex.m calleeF).total = 0) :
    Ends (vmReplaceFrame ex calleeF callerF firstArg nargs funobj) (fun _ ↦ StackOk) vm := by
  simp only [vmReplaceFrame, spec_bind]
  refine spec_onPart ⟨fun _ _ ↦ trivial, fun path s hpath ↦ ?_⟩
  have hs := h.setStore s
  simp only [spec_ite]
  refine ⟨fun _ ↦ ends_replaceBoxed hm hs .., fun hraw ↦ ?_⟩
  exact ends_replaceRaw hm hs calleeF firstArg nargs path (hshrink path s hpath hraw)

end Operations

/-- The operations that give and take frames, and everything that happens between them. -/
inductive FrameOp
  | push (calleeF callerF callerFrameIndex callerDst firstArg nargs : ℕ)
      (funobj : Option JelloFunction) (hasCaller : Bool)
  | pushSelfNumeric (firstArg nargs callerDst : ℕ)
  | pushEntry (calleeF : ℕ) (funobj : Option JelloFunction) (args : List JelloValue)
  | pushJelloCall (p boundThis : JelloValue) (args : List JelloValue) (jdllRetCapture : Bool)
  | replace (calleeF callerF firstArg nargs : ℕ) (funobj : Option JelloFunction)
  | ret
  | dispatch
  | unwindAll
  | store (s : Store)
  | handlers (hs : List ExcHandler)

section Runs

variable (ex : Exec) {vm : VM}

/-- The loop takes the numeric path only when there is room for a frame. -/
def FrameOp.run : FrameOp → VMM Unit
  | .push calleeF callerF i callerDst firstArg nargs funobj hasCaller => do
    let _ ← vmPushFrame ex calleeF callerF i callerDst firstArg nargs funobj hasCaller
  | .pushSelfNumeric firstArg nargs callerDst => do
    let room ← read VM.canPush
    if room then vmPushSelfNumeric ex firstArg nargs callerDst else pure ()
  | .pushEntry calleeF funobj args => do
    let _ ← vmPushFrameEntry ex calleeF funobj args
  | .pushJelloCall p boundThis args capture => do
    let _ ← vmPushFrameJelloCall ex p boundThis args capture
  | .replace calleeF callerF firstArg nargs funobj =>
    vmReplaceFrame ex calleeF callerF firstArg nargs funobj
  | .ret => do
    let fr ← topFrame
    vmRfRelease fr.rf
    popCallFrame
  | .dispatch => do
    let _ ← vmExcDispatch ex
  | .unwindAll => vmUnwindAllFrames
  | .store s => change fun vm ↦ vm.setStore s
  | .handlers hs => change fun vm ↦ { vm with excHandlers := hs }

/-- A tail call on a raw path does not go to a frame that is smaller than the current one,
unless that frame is empty. -/
def FrameOp.NoShrink (vm : VM) : FrameOp → Prop
  | .replace calleeF callerF firstArg nargs funobj =>
    ∀ path s, result (tailPath ex.m calleeF callerF firstArg nargs funobj) vm.store =
        .ok (path, s) → path ≠ .boxed → ∀ fr frs, vm.callFrames = fr :: frs →
      (vmGetFrameLayout ex.m calleeF).total < fr.rf.total →
        (vmGetFrameLayout ex.m calleeF).total = 0
  | _ => True

/-- The states of all runs, with every step under the condition `P`. -/
inductive FrameRun (P : VM → FrameOp → Prop) : VM → Prop
  | create : FrameRun P jelloVmCreate
  | step {vm vm' : VM} (op : FrameOp) (h : FrameRun P vm) (hop : P vm op)
      (hr : result (op.run ex) vm = .ok ((), vm')) : FrameRun P vm'

/-- The areas of the live frames are apart, inside the used part of the frame stack, and apart
from what is handed out next. -/
structure FramesApart (vm : VM) : Prop where
  apart : (vm.callFrames.map CallFrame.area).Pairwise Area.Apart
  inside : ∀ fr ∈ vm.callFrames, fr.area.Inside vm.frameStack vm.frameStackTop
  fresh : ∀ size mem vm', size ≤ frameTotalMax →
    result (vmFrameStackBump ex size) vm = .ok (mem, vm') →
      ∀ fr ∈ vm'.callFrames, fr.area.Apart ⟨mem, size⟩

theorem FrameOp.keeps (hm : FewRegs ex.m) (op : FrameOp) (h : StackOk vm)
    (hop : op.NoShrink ex vm) : Ends (op.run ex) (fun _ ↦ StackOk) vm := by
  cases op with
  | push => simpa only [FrameOp.run, spec_bind, spec_pure] using ends_vmPushFrame hm h ..
  | pushSelfNumeric firstArg nargs callerDst =>
    simp only [FrameOp.run, spec_bind, spec_read, spec_ite, spec_pure]
    exact ⟨fun hcan ↦ ends_vmPushSelfNumeric h (h.room hcan) .., fun _ ↦ h⟩
  | pushEntry => simpa only [FrameOp.run, spec_bind, spec_pure] using ends_vmPushFrameEntry hm h ..
  | pushJelloCall =>
    simpa only [FrameOp.run, spec_bind, spec_pure] using ends_vmPushFrameJelloCall hm h ..
  | replace => exact ends_vmReplaceFrame hm h _ _ _ _ _ hop
  | ret =>
    simp only [FrameOp.run, popCallFrame, spec_bind, spec_change]
    refine ends_topFrame fun fr frs hfr ↦ ends_release (h.frames hfr) ?_
    simpa only [hfr, List.tail_cons] using (h.frames hfr).popped
  | dispatch => simpa only [FrameOp.run, spec_bind, spec_pure] using ends_vmExcDispatch h
  | unwindAll => exact ends_vmUnwindAllFrames h
  | store s => exact (spec_change _).mpr (h.setStore s)
  | handlers hs => exact (spec_change _).mpr (h.handlers hs)

theorem stackOk_create : StackOk jelloVmCreate :=
  ⟨rfl, le_rfl, fun h ↦ absurd rfl h, rfl, Nat.zero_le _, by simp [jelloVmCreate]⟩

theorem StackOk.framesApart (h : StackOk vm) : FramesApart ex vm := by
  refine ⟨h.stacked.apart, ?_, ?_⟩
  · intro fr hfr
    exact h.stacked.inside fr.area (List.mem_map_of_mem hfr)
  · intro size mem vm' hsize hr fr hfr
    have hb := (ends_bump ex h hsize).of_result hr
    have hfresh := hb.stacked.fresh size fr.area (List.mem_map_of_mem hfr)
    intro x hx
    have hne : size ≠ 0 := by
      have h1 := hx.2.1
      have h2 := hx.2.2
      simp only at h1 h2
      omega
    rw [hb.mem_eq hne] at hx
    exact hfresh x hx

/-- In every run without a tail call that shrinks its frame in place, the areas of the live
frames stay apart. -/
theorem frames_apart (hm : FewRegs ex.m) (hrun : FrameRun ex (FrameOp.NoShrink ex) vm) :
    FramesApart ex vm := by
  have hok : StackOk vm := by
    induction hrun with
    | create => exact stackOk_create
    | step op _ hop hr ih => exact (op.keeps ex hm ih hop).of_result hr
  exact hok.framesApart ex

def FrameOp.runAll : List FrameOp → VMM Unit
  | [] => pure ()
  | op :: ops => do
    op.run ex
    FrameOp.runAll ops

theorem FrameRun.all {P : VM → FrameOp → Prop} (ops : List FrameOp)
    (hP : ∀ op ∈ ops, ∀ vm, P vm op) {vm' : VM} (h : FrameRun ex P vm)
    (hr : result (FrameOp.runAll ex ops) vm = .ok ((), vm')) : FrameRun ex P vm' := by
  induction ops generalizing vm with
  | nil =>
    simp only [FrameOp.runAll, result_pure, Except.ok.injEq, Prod.mk.injEq, true_and] at hr
    exact hr ▸ h
  | cons op ops ih =>
    rw [FrameOp.runAll, result_bind] at hr
    cases hop : result (op.run ex) vm with
    | error e => simp [hop, Except.bind] at hr
    | ok r =>
      rw [hop] at hr
      have hstep := h.step op (hP op List.mem_cons_self vm) hop
      exact ih (fun o ho ↦ hP o (List.mem_cons_of_mem op ho)) hstep hr

end Runs

/-- Two functions of one parameter, with 16 and with 8 bytes of registers: the first one
tail calls the second, which calls itself. -/
def shrinkModule : JelloBcModule :=
  { features := default
    types := [⟨.i64, 0⟩]
    sigs := []
    atoms := []
    constI64 := []
    constF64 := []
    constBytes := []
    funcs :=
      [{ regTypes := [0, 0]
         capStart := 0
         insns := [{ op := .tailcall, a := 0, b := 0, c := 1, imm := 48 }]
         sourceFile := 0
         lines := [] },
       { regTypes := [0]
         capStart := 0
         insns := [{ op := .call, a := 0, b := 0, c := 1, imm := 48 },
           { op := .ret, a := 0, b := 0, c := 0, imm := 0 }]
         sourceFile := 0
         lines := [] }]
    entry := 0
    sourceFiles := [] }

def shrinkOps : List FrameOp :=
  [.push 0 0 0 0 0 0 none false, .replace 1 0 0 1 none, .push 1 1 0 0 0 1 none true]

/-- The frame of the second function and the frame that it calls have the same bytes. -/
theorem shrink_overlaps :
    Accepted shrinkModule ∧ ∃ vm, FrameRun (.alone shrinkModule) (fun _ _ ↦ True) vm ∧
      ¬ FramesApart (.alone shrinkModule) vm := by
  have hareas : (result (FrameOp.runAll (.alone shrinkModule) shrinkOps) jelloVmCreate).toOption.map
      (fun r ↦ r.2.callFrames.map CallFrame.area) = some [⟨4104, 8⟩, ⟨4104, 8⟩] := by
    decide +kernel
  cases hr : result (FrameOp.runAll (.alone shrinkModule) shrinkOps) jelloVmCreate with
  | error e => simp [hr, Except.toOption] at hareas
  | ok r =>
    simp only [hr, Except.toOption, Option.map_some, Option.some.injEq] at hareas
    refine ⟨by decide +kernel, r.2,
      FrameRun.create.all (.alone shrinkModule) shrinkOps (fun _ _ _ ↦ trivial) hr, ?_⟩
    intro hapart
    have hpair := hapart.apart
    rw [hareas, List.pairwise_pair] at hpair
    exact hpair 4104 ⟨⟨le_rfl, by decide⟩, ⟨le_rfl, by decide⟩⟩

def nestedOps : List FrameOp :=
  [.push 0 0 0 0 0 0 none false, .push 1 0 0 0 0 1 none true, .push 1 1 1 0 0 1 none true]

/-- Three calls one inside the other. -/
theorem nested_frames_apart :
    FewRegs shrinkModule ∧ ∃ vm, FrameRun (.alone shrinkModule)
      (FrameOp.NoShrink (.alone shrinkModule)) vm ∧
        vm.callFrames.map CallFrame.area = [⟨4120, 8⟩, ⟨4112, 8⟩, ⟨4096, 16⟩] ∧
          FramesApart (.alone shrinkModule) vm := by
  have hm : FewRegs shrinkModule := by decide +kernel
  have hareas : (result (FrameOp.runAll (.alone shrinkModule) nestedOps) jelloVmCreate).toOption.map
      (fun r ↦ r.2.callFrames.map CallFrame.area) =
        some [⟨4120, 8⟩, ⟨4112, 8⟩, ⟨4096, 16⟩] := by
    decide +kernel
  cases hr : result (FrameOp.runAll (.alone shrinkModule) nestedOps) jelloVmCreate with
  | error e => simp [hr, Except.toOption] at hareas
  | ok r =>
    simp only [hr, Except.toOption, Option.map_some, Option.some.injEq] at hareas
    have hrun : FrameRun (.alone shrinkModule) (FrameOp.NoShrink (.alone shrinkModule)) r.2 := by
      refine FrameRun.create.all (.alone shrinkModule) nestedOps ?_ hr
      simp [nestedOps, FrameOp.NoShrink]
    exact ⟨hm, r.2, hrun, hareas, frames_apart (.alone shrinkModule) hm hrun⟩

end JelloVM
