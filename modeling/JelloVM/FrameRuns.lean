import JelloVM.FrameSteps

/-! The runs of the machine as far as frames go: entries, calls from the loop, from native code and
from compiled code, tail calls, returns, and what an exception unwinds. -/

namespace JelloVM

open ByteMemory Logged

section Compiled

def zeroRegs (rf : RegFrame) : StoreM Unit :=
  if rf.mem ≠ 0 ∧ rf.total ≠ 0 then change fun s ↦ { s with mem := fill s.mem rf.mem rf.total 0 }
  else pure ()

/-- A call of a function by itself from compiled code; `false` when it traps. -/
def jelloJitRuntimeCallSelf (ex : Exec) (firstArg nargs callerDst resumePc : ℕ) : VMM Bool := do
  let fr ← topFrame
  if 16 < nargs ∨ fr.rf.nregs < u32 (firstArg + nargs) then pure false
  else do
    let vm ← read id
    if !vm.canPush then do
      stackOverflow
      pure false
    else if ← onStore (jelloVmFuelCharge (ex.ctx fr)) then do
      setTopFrame { fr with pc := resumePc }
      if fr.hasPointerOrDynamic then do
        let mem ← vmFrameStackBump ex fr.rf.total
        let fr ← topFrame
        let excBase ← read fun vm ↦ vm.excHandlers.length
        let rf := { fr.rf with mem := mem }
        pushCallFrame
          { f := fr.f
            rf := rf
            pc := 0
            callerDst := callerDst
            excBase := excBase
            hasCaller := true
            jdllRetCapture := false
            hasPointerOrDynamic := true }
        onStore (zeroRegs rf)
        onStore (copyArgs ex.m fr.f rf fr.rf firstArg nargs)
        pure true
      else do
        vmPushSelfNumeric ex firstArg nargs callerDst
        pure true
    else pure false

/-- The function object in the register, if there is a register; `none` when the call traps. -/
def directFunobj (rf : RegFrame) (bytecodeFi calleeReg : ℕ) :
    StoreM (Option (Option JelloFunction)) :=
  if calleeReg = 0xffffffff then pure (some none)
  else if rf.nregs ≤ calleeReg then pure none
  else do
    match ← calleeOf rf calleeReg with
    | .bytecode fn =>
      if bytecodeIdx fn.funcIndex ≠ bytecodeFi then pure none
      else if fn.hasBoundThis then pure none
      else pure (some (some fn))
    | _ => pure none

/-- The captures of the callee; the frame stays when they do not fit. -/
def directCaps (ex : Exec) (f : ℕ) (rf : RegFrame) (nargs : ℕ) (funobj : Option JelloFunction) :
    StoreM Bool :=
  match funobj with
  | none => pure true
  | some fn =>
    if fn.ncaps = 0 then pure true
    else
      let start := capStart ex.m f rf.nregs fn.ncaps.toNat
      if rf.nregs < u32 (start + fn.ncaps.toNat) ∨ start < nargs then pure false
      else do
        storeCaps ex.m ex.fpu f rf fn start
        pure true

/-- A call of a known function from compiled code; `false` when it traps. -/
def jelloJitRuntimeCallDirect (ex : Exec)
    (firstArg nargs callerDst resumePc bytecodeFi calleeReg : ℕ) : VMM Bool :=
  if ex.m.funcs.length ≤ bytecodeFi then pure false
  else do
    let fr ← topFrame
    if 16 < nargs ∨ fr.rf.nregs < u32 (firstArg + nargs) then pure false
    else do
      match ← onStore (directFunobj fr.rf bytecodeFi calleeReg) with
      | none => pure false
      | some funobj => do
        let vm ← read id
        if !vm.canPush then do
          stackOverflow
          pure false
        else if ← onStore (jelloVmFuelCharge (ex.ctx fr)) then do
          setTopFrame { fr with pc := resumePc }
          let fl := vmGetFrameLayout ex.m bytecodeFi
          let mem ← vmFrameStackBump ex fl.total
          let fr ← topFrame
          let excBase ← read fun vm ↦ vm.excHandlers.length
          let rf := fl.frame mem
          pushCallFrame
            { f := bytecodeFi
              rf := rf
              pc := 0
              callerDst := callerDst
              excBase := excBase
              hasCaller := true
              jdllRetCapture := false
              hasPointerOrDynamic := fl.hasPointerOrDynamic }
          if fl.hasPointerOrDynamic then onStore (zeroRegs rf) else pure ()
          onStore (copyArgs ex.m bytecodeFi rf fr.rf firstArg nargs)
          onStore (directCaps ex bytecodeFi rf nargs funobj)
        else pure false

end Compiled

/-- What gives and takes frames. A call and a tail call come from the last frame. -/
inductive StackOp
  | entry
  | chunk (f : ℕ) (args : List JelloValue)
  | closure (fn : JelloFunction) (args : List JelloValue)
  | call (calleeF callerDst firstArg nargs : ℕ) (funobj : Option JelloFunction)
  | callSelf (callerDst firstArg nargs : ℕ)
  | callNative (p boundThis : JelloValue) (args : List JelloValue)
  | jitCallSelf (callerDst firstArg nargs resumePc : ℕ)
  | jitCallDirect (callerDst firstArg nargs resumePc bytecodeFi calleeReg : ℕ)
  | tailcall (calleeF firstArg nargs : ℕ) (funobj : Option JelloFunction)
  | ret
  | retLast
  | dispatch
  | unwindAll

section Runs

variable (ex : Exec) (ok : ℕ → ℕ → Prop)

/-- The loop takes the numeric path only for a numeric function and when there is room; native code
that calls back was called by a frame. -/
def StackOp.run : StackOp → VMM Unit
  | .entry => do
    let _ ← execEntry ex
  | .chunk f args => do
    let _ ← execChunk ex f args
  | .closure fn args => do
    let _ ← execClosure ex fn args
  | .call calleeF callerDst firstArg nargs funobj => do
    let fr ← topFrame
    let i ← topIndex
    let _ ← vmPushFrame ex calleeF fr.f i callerDst firstArg nargs funobj true
  | .callSelf callerDst firstArg nargs => do
    let fr ← topFrame
    let room ← read VM.canPush
    if !fr.hasPointerOrDynamic ∧ nargs ≤ 16 ∧ room then
      vmPushSelfNumeric ex firstArg nargs callerDst
    else pure ()
  | .callNative p boundThis args => do
    let _ ← topFrame
    let _ ← vmPushFrameJelloCall ex p boundThis args true
  | .jitCallSelf callerDst firstArg nargs resumePc => do
    let _ ← jelloJitRuntimeCallSelf ex firstArg nargs callerDst resumePc
  | .jitCallDirect callerDst firstArg nargs resumePc bytecodeFi calleeReg => do
    let _ ← jelloJitRuntimeCallDirect ex firstArg nargs callerDst resumePc bytecodeFi calleeReg
  | .tailcall calleeF firstArg nargs funobj => do
    let fr ← topFrame
    vmReplaceFrame ex calleeF fr.f firstArg nargs funobj
  | .ret => do
    let fr ← topFrame
    vmRfRelease fr.rf
    popCallFrame
  | .retLast => do
    let fr ← topFrame
    vmRfRelease fr.rf
    change fun vm ↦ { vm with callFrames := [] }
  | .dispatch => do
    let _ ← vmExcDispatch ex
  | .unwindAll => vmUnwindAllFrames

/-- Where a tail call to `f` leaves the frame: on a raw path a frame that is not larger ends where
the old one ended, and every other frame starts where the old one started. -/
structure TailPlaces (f : ℕ) (raw : Prop) (vm : VM) : Prop where
  inPlace : raw → ∀ fr frs, vm.callFrames = fr :: frs →
    (vmGetFrameLayout ex.m f).total ≤ fr.rf.total →
      OkAt ex ok f (fr.rf.mem + (fr.rf.total - (vmGetFrameLayout ex.m f).total) - vm.frameStack)
  anew : ∀ fr frs, vm.callFrames = fr :: frs →
    ¬ (raw ∧ (vmGetFrameLayout ex.m f).total ≤ fr.rf.total) →
      OkAt ex ok f (vm.frameStackTop - fr.rf.total)

/-- Compiled code gets as far as a new frame. -/
structure JitRoom (fr : CallFrame) (firstArg nargs : ℕ) (vm : VM) : Prop where
  few : nargs ≤ 16
  args : u32 (firstArg + nargs) ≤ fr.rf.nregs
  room : vm.canPush = true
  fuel : vm.store.fuelLimit = 0 ∨ vm.store.fuelRemaining ≠ 0

/-- The place that the operation gives to a frame, if it comes to that, is one for its function. -/
def StackOp.Places (vm : VM) : StackOp → Prop
  | .entry => OkAt ex ok ex.m.entry 0
  | .chunk f _ => OkAt ex ok f 0
  | .closure fn _ => OkAt ex ok (bytecodeIdx fn.funcIndex) 0
  | .call calleeF _ _ _ _ => vm.canPush = true → OkAt ex ok calleeF vm.frameStackTop
  | .callSelf _ _ nargs => ∀ fr frs, vm.callFrames = fr :: frs →
    fr.hasPointerOrDynamic = false → nargs ≤ 16 → vm.canPush = true →
      OkAt ex ok fr.f vm.frameStackTop
  | .callNative p _ _ => ∀ fn, p ≠ 0 → vm.store.heap.cells p = some (.function fn) →
    ¬ (jelloIsNativeBuiltin fn.funcIndex ∨ jelloIsJdllPrim fn.funcIndex) →
      bytecodeIdx fn.funcIndex < ex.m.funcs.length → vm.canPush = true →
        OkAt ex ok (bytecodeIdx fn.funcIndex) vm.frameStackTop
  | .jitCallSelf _ firstArg nargs _ => ∀ fr frs, vm.callFrames = fr :: frs →
    JitRoom fr firstArg nargs vm → OkAt ex ok fr.f vm.frameStackTop
  | .jitCallDirect _ firstArg nargs _ bytecodeFi calleeReg => ∀ fr frs, vm.callFrames = fr :: frs →
    JitRoom fr firstArg nargs vm → bytecodeFi < ex.m.funcs.length →
      (∃ funobj, result (directFunobj fr.rf bytecodeFi calleeReg) vm.store =
        .ok (some funobj, vm.store)) → OkAt ex ok bytecodeFi vm.frameStackTop
  | .tailcall calleeF firstArg nargs funobj => ∀ fr frs, vm.callFrames = fr :: frs →
    ∀ path s, result (tailPath ex.m calleeF fr.f firstArg nargs funobj) vm.store = .ok (path, s) →
      TailPlaces ex ok calleeF (path ≠ .boxed) vm
  | .ret | .retLast | .dispatch | .unwindAll => True

/-- The states of all runs, with every operation under the condition `P`; between two of them
anything may happen that leaves the frame stack alone. -/
inductive OpRun (P : VM → StackOp → Prop) : VM → Prop
  | create : OpRun P jelloVmCreate
  | step {vm vm' : VM} (op : StackOp) (h : OpRun P vm) (hop : P vm op)
      (hr : result (op.run ex) vm = .ok ((), vm')) : OpRun P vm'
  | other {vm vm' : VM} (h : OpRun P vm) (hs : SameStack vm vm') : OpRun P vm'

end Runs

section Reached

variable {ex : Exec} {ok : ℕ → ℕ → Prop} {vm₀ vm vm' : VM} {f mem : ℕ} {fr new : CallFrame}
  {frs : List CallFrame}

structure Reached (ex : Exec) (ok : ℕ → ℕ → Prop) (vm₀ vm : VM) : Prop where
  steps : StackSteps ex ok vm₀ vm
  inv : StackInv ex ok vm

theorem Reached.step (hm : FewRegs ex.m) (h : Reached ex ok vm₀ vm)
    (hs : StackStep ex ok vm vm') : Reached ex ok vm₀ vm' :=
  ⟨.tail h.steps hs, hs.inv hm h.inv⟩

theorem Reached.same (h : Reached ex ok vm₀ vm) (hs : SameStack vm vm') : Reached ex ok vm₀ vm' :=
  ⟨.tail h.steps (.other hs), h.inv.same hs⟩

theorem Reached.setStore (h : Reached ex ok vm₀ vm) (s : Store) :
    Reached ex ok vm₀ (vm.setStore s) := h.same ⟨rfl, rfl, rfl, rfl, rfl⟩

theorem Reached.handlers (h : Reached ex ok vm₀ vm) (hs : List ExcHandler) :
    Reached ex ok vm₀ { vm with excHandlers := hs } := h.same ⟨rfl, rfl, rfl, rfl, rfl⟩

theorem Reached.setPc (h : Reached ex ok vm₀ vm) (htop : vm.callFrames = fr :: frs) (pc : ℕ) :
    Reached ex ok vm₀ { vm with callFrames := { fr with pc := pc } :: vm.callFrames.tail } := by
  refine h.same ⟨rfl, rfl, rfl, rfl, ?_⟩
  rw [htop]
  rfl

theorem reached_onStore {α : Type} {x : StoreM α} (h : Reached ex ok vm₀ vm) :
    Ends (onStore x) (fun _ ↦ Reached ex ok vm₀) vm := ends_onStore fun _ s ↦ h.setStore s

theorem Reached.reset (hm : FewRegs ex.m) (h : Reached ex ok vm₀ vm) :
    Reached ex ok vm₀ (if vm.callFrames = [] then { vm with frameStackTop := 0 } else vm) := by
  split_ifs with hnil
  · exact h.step hm (.reset hnil)
  · exact h

/-- Without its last frame the stack grows in the same way. -/
def VM.dropTop (vm : VM) : VM := { vm with callFrames := vm.callFrames.tail }

theorem result_grow_dropTop (ex : Exec) (need : ℕ) (vm : VM) :
    result (vmFrameStackGrow ex need) vm.dropTop =
      (result (vmFrameStackGrow ex need) vm).map fun r ↦ (r.1, r.2.dropTop) := by
  simp only [vmFrameStackGrow, result_bind, result_read, Except.bind, id, result_ite, result_pure,
    VM.dropTop]
  split_ifs with hle
  · rfl
  all_goals
    split
    · rfl
    · simp only [result_ite, vmPanic, result_fail, result_change]
      split_ifs
      · rfl
      · rfl
      · simp only [Except.map, List.map_tail]

theorem result_bump_dropTop (ex : Exec) (size : ℕ) (vm : VM) :
    result (vmFrameStackBump ex size) vm.dropTop =
      (result (vmFrameStackBump ex size) vm).map fun r ↦ (r.1, r.2.dropTop) := by
  unfold vmFrameStackBump
  split_ifs with hzero
  · rfl
  · simp only [result_bind, result_read, Except.bind, id, result_ite, result_pure, result_change]
    rw [show vm.dropTop.frameStackTop = vm.frameStackTop from rfl,
      show vm.dropTop.frameStackCap = vm.frameStackCap from rfl]
    split_ifs with hroom
    · rw [result_grow_dropTop]
      cases result (vmFrameStackGrow ex size) vm with
      | error e => rfl
      | ok r => rfl
    · rfl

/-- A new frame of the function `f` for the bytes that were handed out. -/
theorem Reached.pushed (hm : FewRegs ex.m) (h : Reached ex ok vm₀ vm) (hroom : vm.canPush = true)
    (hfirst : vm.callFrames = [] → vm.frameStackTop = 0) (hok : OkAt ex ok f vm.frameStackTop)
    (hbump : result (vmFrameStackBump ex (vmGetFrameLayout ex.m f).total) vm = .ok (mem, vm'))
    (hnew : new.place = (f, (vmGetFrameLayout ex.m f).frame mem)) :
    Reached ex ok vm₀ { vm' with callFrames := new :: vm'.callFrames } :=
  h.step hm (.push hroom hfirst hok hbump hnew)

theorem reached_pushFreshFrame (hm : FewRegs ex.m) (h : Reached ex ok vm₀ vm)
    (hroom : vm.canPush = true) (hfirst : vm.callFrames = [] → vm.frameStackTop = 0)
    (hok : OkAt ex ok f vm.frameStackTop) (callerDst : ℕ) (hasCaller capture : Bool) :
    Ends (pushFreshFrame ex f callerDst hasCaller capture) (fun _ ↦ Reached ex ok vm₀) vm := by
  simp only [pushFreshFrame, pushCallFrame, spec_bind, spec_read, spec_change, spec_pure]
  refine ends_iff.mpr fun mem g hbump ↦ ?_
  exact reached_onStore (h.pushed hm hroom hfirst hok hbump rfl)

theorem reached_pushGeneral (hm : FewRegs ex.m) (h : Reached ex ok vm₀ vm)
    (hroom : vm.canPush = true) (hfirst : vm.callFrames = [] → vm.frameStackTop = 0)
    (hok : OkAt ex ok f vm.frameStackTop) (callerF i callerDst firstArg nargs : ℕ)
    (funobj : Option JelloFunction) (hasCaller : Bool) :
    Ends (pushGeneral ex f callerF i callerDst firstArg nargs funobj hasCaller)
      (fun _ ↦ Reached ex ok vm₀) vm := by
  simp only [pushGeneral, spec_bind]
  have hfresh := reached_pushFreshFrame hm h hroom hfirst hok callerDst hasCaller false
  refine hfresh.mono fun rf g hg ↦ ?_
  simp only [spec_ite, spec_bind, spec_read, spec_pure]
  refine ⟨fun _ ↦ ⟨fun _ ↦ spec_fail _, fun _ ↦ ?_⟩, fun _ ↦ hg⟩
  exact ends_frameAtIndex fun caller _ ↦ reached_onStore hg

/-- The bytes of a call of a function by itself: the last frame moves with the stack, and a frame
with its offsets is one of the same function. -/
theorem reached_bumpSelf (hm : FewRegs ex.m) (h : Reached ex ok vm₀ vm)
    (hroom : vm.canPush = true) (htop : vm.callFrames = fr :: frs)
    (hok : OkAt ex ok fr.f vm.frameStackTop) {Q : ℕ → VM → Prop}
    (hQ : ∀ mem g fr' frs', g.callFrames = fr' :: frs' → frs'.length = frs.length → fr'.f = fr.f →
      (∀ new : CallFrame, new.place = (fr'.f, { fr'.rf with mem := mem }) →
        Reached ex ok vm₀ { g with callFrames := new :: g.callFrames }) → Q mem g) :
    Ends (vmFrameStackBump ex fr.rf.total) Q vm := by
  have hplaced := (h.inv.frames fr (htop ▸ List.mem_cons_self)).placed
  have htotal : fr.rf.total = (vmGetFrameLayout ex.m fr.f).total := congrArg RegFrame.total hplaced
  refine ends_iff.mpr fun mem g hbump ↦ ?_
  rw [htotal] at hbump
  obtain ⟨g', hg, rfl, -⟩ := (ends_bumped h.inv (hm.total_le fr.f)).of_result hbump
  have hframes := hg.frames
  rw [htop, List.map_cons] at hframes
  refine hQ mem _ _ _ hframes (List.length_map _) rfl fun new hnew ↦ ?_
  refine h.pushed hm hroom (fun hnil ↦ absurd (htop ▸ hnil) (List.cons_ne_nil fr frs)) hok hbump ?_
  rw [hnew]
  simp only [RegFrame.rebase]
  split_ifs
  · rw [hplaced]
    rfl
  · rw [hplaced]
    rfl

theorem reached_vmPushSelfNumeric (hm : FewRegs ex.m) (h : Reached ex ok vm₀ vm)
    (hroom : vm.canPush = true) (htop : vm.callFrames = fr :: frs)
    (hok : OkAt ex ok fr.f vm.frameStackTop) (firstArg nargs callerDst : ℕ) :
    Ends (vmPushSelfNumeric ex firstArg nargs callerDst) (fun _ ↦ Reached ex ok vm₀) vm := by
  simp only [vmPushSelfNumeric, pushCallFrame, spec_bind, spec_read, spec_change]
  refine ends_top htop ?_
  refine reached_bumpSelf hm h hroom htop hok fun mem g fr' frs' hg _ _ hpush ↦ ?_
  exact ends_top hg (reached_onStore (hpush _ rfl))

theorem reached_call (hm : FewRegs ex.m) (h : Reached ex ok vm₀ vm)
    (htop : vm.callFrames = fr :: frs) (hplace : vm.canPush = true → OkAt ex ok f vm.frameStackTop)
    (callerDst firstArg nargs : ℕ) (funobj : Option JelloFunction) :
    Ends (vmPushFrame ex f fr.f frs.length callerDst firstArg nargs funobj true)
      (fun _ ↦ Reached ex ok vm₀) vm := by
  have hsome : vm.callFrames ≠ [] := fun hnil ↦ absurd (htop ▸ hnil) (List.cons_ne_nil fr frs)
  have hfirst : vm.callFrames = [] → vm.frameStackTop = 0 := fun hnil ↦ absurd hnil hsome
  simp only [vmPushFrame, resetFrameStack, pushCallFrame, stackOverflow, spec_bind, spec_read, id,
    spec_ite, spec_change, spec_pure, if_neg hsome]
  refine ⟨fun _ ↦ reached_onStore h, fun hcan ↦ ?_⟩
  have hroom : vm.canPush = true := by simpa using hcan
  have hok := hplace hroom
  refine ⟨fun hself ↦ ⟨fun _ ↦ spec_fail _, fun _ ↦ ?_⟩, fun _ ↦ ?_⟩
  · refine ends_frameAtIndex fun caller hcaller ↦ ?_
    obtain rfl : fr = caller := by simpa [VM.frameAt_top htop] using hcaller
    refine ⟨fun _ ↦ ?_, fun _ ↦ reached_pushGeneral hm h hroom hfirst hok ..⟩
    have hok' : OkAt ex ok fr.f vm.frameStackTop := hself.2.1 ▸ hok
    refine reached_bumpSelf hm h hroom htop hok' fun mem g fr' frs' hg hlen hf hpush ↦ ?_
    refine ends_frameAtIndex fun caller hcaller ↦ ?_
    obtain rfl : fr' = caller := by simpa [← hlen, VM.frameAt_top hg] using hcaller
    refine reached_onStore (hpush _ ?_)
    rw [CallFrame.place, hf, hself.2.1]
  · exact reached_pushGeneral hm h hroom hfirst hok ..

/-- The first frame of a run starts at the bottom, whatever an earlier run has left. -/
theorem Reached.begin (hm : FewRegs ex.m) (h : Reached ex ok vm₀ vm) :
    Ends (resetRun ex) (fun _ vm' ↦ Reached ex ok vm₀ vm' ∧ vm'.callFrames = []) vm := by
  refine (spec_change _).mpr ⟨?_, rfl⟩
  exact (h.step hm .clear).same ⟨rfl, rfl, rfl, rfl, rfl⟩

theorem StackInv.canPush (h : StackInv ex ok vm) (hlen : vm.callFrames.length < 100000) :
    vm.canPush = true := by
  unfold VM.canPush
  rw [h.max]
  simpa using hlen

theorem reached_execEntry (hm : FewRegs ex.m) (h : Reached ex ok vm₀ vm)
    (hok : OkAt ex ok ex.m.entry 0) : Ends (execEntry ex) (fun _ ↦ Reached ex ok vm₀) vm := by
  simp only [execEntry, spec_bind]
  refine (h.begin hm).mono fun _ g hbegun ↦ ?_
  obtain ⟨hg, hnil⟩ := hbegun
  have hreset := hg.step hm (.reset hnil)
  simp only [vmPushFrame, resetFrameStack, stackOverflow, spec_bind, spec_read, id, spec_ite,
    spec_change, spec_pure, if_pos hnil]
  refine ⟨fun _ ↦ reached_onStore hg, fun _ ↦ ⟨fun hcaller ↦ absurd hcaller.1 (by decide),
    fun _ ↦ ?_⟩⟩
  exact reached_pushGeneral hm hreset (hreset.inv.canPush (by simp [hnil])) (fun _ ↦ rfl) hok ..

theorem reached_pushEntry (hm : FewRegs ex.m) (h : Reached ex ok vm₀ vm)
    (hnil : vm.callFrames = []) (hok : OkAt ex ok f 0) (funobj : Option JelloFunction)
    (args : List JelloValue) :
    Ends (vmPushFrameEntry ex f funobj args) (fun _ ↦ Reached ex ok vm₀) vm := by
  have hreset := h.step hm (.reset hnil)
  simp only [vmPushFrameEntry, resetFrameStack, stackOverflow, spec_bind, spec_read, id, spec_ite,
    spec_change, spec_pure, if_pos hnil]
  refine ⟨fun _ ↦ reached_onStore h, fun _ ↦ ⟨fun _ ↦ spec_fail _, fun _ ↦ ?_⟩⟩
  refine (reached_pushFreshFrame hm hreset (hreset.inv.canPush (by simp [hnil])) (fun _ ↦ rfl)
    hok 0 false false).mono fun rf g hg ↦ ?_
  exact ⟨fun _ ↦ reached_onStore hg, fun _ ↦ reached_onStore hg⟩

theorem reached_execChunk (hm : FewRegs ex.m) (h : Reached ex ok vm₀ vm)
    (hok : OkAt ex ok f 0) (args : List JelloValue) :
    Ends (execChunk ex f args) (fun _ ↦ Reached ex ok vm₀) vm := by
  simp only [execChunk, spec_ite, spec_bind]
  refine ⟨fun _ ↦ spec_fail _, fun _ ↦ (h.begin hm).mono fun _ g hg ↦ ?_⟩
  exact reached_pushEntry hm hg.1 hg.2 hok none args

theorem reached_execClosure (hm : FewRegs ex.m) (h : Reached ex ok vm₀ vm) (fn : JelloFunction)
    (hok : OkAt ex ok (bytecodeIdx fn.funcIndex) 0) (args : List JelloValue) :
    Ends (execClosure ex fn args) (fun _ ↦ Reached ex ok vm₀) vm := by
  simp only [execClosure, spec_bind, spec_ite, spec_pure]
  refine (h.begin hm).mono fun _ g hg ↦ ⟨fun _ ↦ hg.1, fun _ ↦ ⟨fun _ ↦ hg.1, fun _ ↦ ?_⟩⟩
  exact reached_pushEntry hm hg.1 hg.2 hok (some fn) args

theorem reached_pushCalled (hm : FewRegs ex.m) (h : Reached ex ok vm₀ vm)
    (hsome : vm.callFrames ≠ []) (hok : vm.canPush = true → OkAt ex ok f vm.frameStackTop)
    (fn : JelloFunction) (args : List JelloValue) (capture : Bool) :
    Ends (pushCalled ex f fn args capture) (fun _ ↦ Reached ex ok vm₀) vm := by
  simp only [pushCalled, stackOverflow, spec_bind, spec_read, id, spec_ite, spec_pure]
  refine ⟨fun _ ↦ reached_onStore h, fun hcan ↦ ?_⟩
  have hroom : vm.canPush = true := by simpa using hcan
  refine (reached_pushFreshFrame hm h hroom (fun hnil ↦ absurd hnil hsome) (hok hroom) 0 true
    capture).mono fun rf g hg ↦ ?_
  exact reached_onStore hg

theorem reached_vmPushFrameJelloCall (hm : FewRegs ex.m) (h : Reached ex ok vm₀ vm)
    (hsome : vm.callFrames ≠ []) (p boundThis : JelloValue)
    (hok : ∀ fn, p ≠ 0 → vm.store.heap.cells p = some (.function fn) →
      ¬ (jelloIsNativeBuiltin fn.funcIndex ∨ jelloIsJdllPrim fn.funcIndex) →
        bytecodeIdx fn.funcIndex < ex.m.funcs.length → vm.canPush = true →
          OkAt ex ok (bytecodeIdx fn.funcIndex) vm.frameStackTop) (args : List JelloValue)
    (capture : Bool) :
    Ends (vmPushFrameJelloCall ex p boundThis args capture) (fun _ ↦ Reached ex ok vm₀) vm := by
  simp only [vmPushFrameJelloCall, spec_ite, spec_bind, spec_pure]
  refine ⟨fun _ ↦ h, fun hp ↦ spec_onPart (spec_cellAt fun c hc ↦ ?_)⟩
  have hs := h.setStore vm.store
  split
  · next fn =>
    simp only [withThis, spec_ite, spec_bind, spec_pure]
    refine ⟨fun _ ↦ hs, fun hbytecode ↦ ⟨fun _ ↦ hs, fun hin ↦ ?_⟩⟩
    have hplace := hok fn hp hc hbytecode (not_le.mp hin)
    refine ⟨fun _ ↦ ends_onStore fun _ s ↦ ?_, fun _ ↦ ?_⟩
    · exact reached_pushCalled hm (hs.setStore s) hsome hplace ..
    · exact reached_pushCalled hm hs hsome hplace ..
  · exact (spec_pure _).mpr hs

theorem ends_jitCharge {ctx : Ctx} {Q : Bool → VM → Prop}
    (hfuel : vm.store.fuelLimit = 0 ∨ vm.store.fuelRemaining ≠ 0 → ∀ s, Q true (vm.setStore s))
    (hnone : ∀ s, Q false (vm.setStore s)) : Ends (onStore (jelloVmFuelCharge ctx)) Q vm := by
  refine spec_onPart ?_
  simp only [jelloVmFuelCharge, jelloVmTrap, setTrap, spec_bind, spec_read, spec_ite, spec_pure,
    spec_change]
  exact ⟨fun hlimit ↦ hfuel (.inl hlimit) _, fun _ ↦ ⟨fun _ ↦ hnone _,
    fun hleft ↦ hfuel (.inr hleft) _⟩⟩

theorem reached_jitCallSelf (hm : FewRegs ex.m) (h : Reached ex ok vm₀ vm)
    (firstArg nargs callerDst resumePc : ℕ)
    (hok : ∀ fr frs, vm.callFrames = fr :: frs → JitRoom fr firstArg nargs vm →
      OkAt ex ok fr.f vm.frameStackTop) :
    Ends (jelloJitRuntimeCallSelf ex firstArg nargs callerDst resumePc)
      (fun _ ↦ Reached ex ok vm₀) vm := by
  simp only [jelloJitRuntimeCallSelf, setTopFrame, stackOverflow, pushCallFrame, spec_bind,
    spec_read, id, spec_ite, spec_change, spec_pure]
  refine ends_topFrame fun fr frs htop ↦ ⟨fun _ ↦ h, fun hargs ↦ ⟨fun _ ↦ reached_onStore h,
    fun hcan ↦ ends_jitCharge (fun hfuel s ↦ ⟨fun _ ↦ ?_, fun hno ↦ absurd rfl hno⟩)
      fun s ↦ ⟨fun hno ↦ absurd hno Bool.false_ne_true, fun _ ↦ h.setStore s⟩⟩⟩
  have hroom : vm.canPush = true := by simpa using hcan
  push Not at hargs
  have hplace := hok fr frs htop ⟨hargs.1, hargs.2, hroom, hfuel⟩
  have htop' : (vm.setStore s).callFrames = fr :: frs := htop
  have hpc := (h.setStore s).setPc htop' resumePc
  simp only [htop', List.tail_cons] at hpc ⊢
  refine ⟨fun _ ↦ ?_, fun _ ↦ ?_⟩
  · refine reached_bumpSelf hm hpc ?_ rfl hplace fun mem g fr' frs' hg _ _ hpush ↦ ?_
    · simpa [VM.canPush, VM.setStore, htop] using hroom
    refine ends_top hg (ends_onStore fun _ s1 ↦ ends_onStore fun _ s2 ↦ ?_)
    exact ((hpush _ rfl).setStore s1).setStore s2
  · refine reached_vmPushSelfNumeric hm hpc ?_ rfl hplace ..
    simpa [VM.canPush, VM.setStore, htop] using hroom

theorem ends_directFunobj {rf : RegFrame} {calleeReg : ℕ}
    {Q : Option (Option JelloFunction) → VM → Prop}
    (hQ : ∀ o, result (directFunobj rf f calleeReg) vm.store = .ok (o, vm.store) → Q o vm) :
    Ends (onStore (directFunobj rf f calleeReg)) Q vm := by
  have hsame : Ends (directFunobj rf f calleeReg) (fun _ s' ↦ s' = vm.store) vm.store := by
    simp only [directFunobj, calleeOf, bind_assoc, spec_ite, spec_bind, spec_pure, spec_vmLoadVal,
      true_and, implies_true]
    refine fun _ _ _ _ ↦ spec_cellAt fun c _ ↦ ?_
    cases c <;> simp only [spec_ite, spec_pure, implies_true, and_self]
  refine spec_onPart (ends_iff.mpr fun o s' hr ↦ ?_)
  obtain rfl : s' = vm.store := hsame.of_result hr
  exact hQ o hr

theorem reached_jitCallDirect (hm : FewRegs ex.m) (h : Reached ex ok vm₀ vm)
    (firstArg nargs callerDst resumePc calleeReg : ℕ)
    (hok : ∀ fr frs, vm.callFrames = fr :: frs → JitRoom fr firstArg nargs vm →
      f < ex.m.funcs.length → (∃ funobj, result (directFunobj fr.rf f calleeReg) vm.store =
        .ok (some funobj, vm.store)) → OkAt ex ok f vm.frameStackTop) :
    Ends (jelloJitRuntimeCallDirect ex firstArg nargs callerDst resumePc f calleeReg)
      (fun _ ↦ Reached ex ok vm₀) vm := by
  simp only [jelloJitRuntimeCallDirect, setTopFrame, stackOverflow, pushCallFrame, spec_bind,
    spec_ite, spec_pure]
  refine ⟨fun _ ↦ h, fun hin ↦ ends_topFrame fun fr frs htop ↦ ⟨fun _ ↦ h, fun hargs ↦
    ends_directFunobj fun o hfunobj ↦ ?_⟩⟩
  cases o with
  | none => exact (spec_pure _).mpr h
  | some funobj =>
    simp only [spec_bind, spec_read, id, spec_ite, spec_change, spec_pure]
    refine ⟨fun _ ↦ reached_onStore h, fun hcan ↦
      ends_jitCharge (fun hfuel s ↦ ⟨fun _ ↦ ?_, fun hno ↦ absurd rfl hno⟩)
        fun s ↦ ⟨fun hno ↦ absurd hno Bool.false_ne_true, fun _ ↦ h.setStore s⟩⟩
    have hroom : vm.canPush = true := by simpa using hcan
    push Not at hargs
    have hplace := hok fr frs htop ⟨hargs.1, hargs.2, hroom, hfuel⟩ (not_le.mp hin)
      ⟨funobj, hfunobj⟩
    have htop' : (vm.setStore s).callFrames = fr :: frs := htop
    have hpc := (h.setStore s).setPc htop' resumePc
    refine ends_iff.mpr fun mem g hbump ↦ ends_topFrame fun fr' frs' hfr' ↦ ?_
    have hpushed (new : CallFrame) (hnew : new.place = (f, (vmGetFrameLayout ex.m f).frame mem)) :
        Reached ex ok vm₀ { g with callFrames := new :: g.callFrames } := by
      refine hpc.pushed hm ?_ (fun hnil ↦ absurd hnil (List.cons_ne_nil _ _)) hplace hbump hnew
      simpa [VM.canPush, VM.setStore, htop] using hroom
    refine ⟨fun _ ↦ ends_onStore fun _ s2 ↦ ends_onStore fun _ s3 ↦ ?_,
      fun _ ↦ ends_onStore fun _ s2 ↦ ?_⟩
    · exact reached_onStore (((hpushed _ rfl).setStore s2).setStore s3)
    · exact reached_onStore ((hpushed _ rfl).setStore s2)

theorem result_release_frames (rf : RegFrame) (vm : VM) (frs : List CallFrame) :
    result (vmRfRelease rf) { vm with callFrames := frs } =
      (result (vmRfRelease rf) vm).map fun r ↦ (r.1, { r.2 with callFrames := frs }) := by
  rw [result_release, result_release]
  have hsame : releasedTop { vm with callFrames := frs } rf = releasedTop vm rf := rfl
  rw [hsame]
  cases releasedTop vm rf with
  | none => rfl
  | some top => rfl

/-- A frame whose area was released is gone, also where the source takes it off later. -/
theorem Reached.popped (hm : FewRegs ex.m)
    (h : Reached ex ok vm₀ { vm with callFrames := fr :: frs })
    (hrel : result (vmRfRelease fr.rf) vm = .ok ((), vm')) :
    Reached ex ok vm₀ { vm' with callFrames := frs } := by
  have hrel' : result (vmRfRelease fr.rf) { vm with callFrames := fr :: frs } =
      .ok ((), { vm' with callFrames := fr :: frs }) := by
    rw [result_release_frames, hrel]
    rfl
  have hpop : StackStep ex ok _ _ := .pop rfl (.stack hrel')
  exact h.step hm hpop

theorem Reached.popTop (hm : FewRegs ex.m) (h : Reached ex ok vm₀ vm)
    (htop : vm.callFrames = fr :: frs) (hrel : result (vmRfRelease fr.rf) vm = .ok ((), vm')) :
    Reached ex ok vm₀ { vm' with callFrames := frs } ∧ vm'.callFrames.tail = frs ∧
      vm'.frameStackTop = vm.frameStackTop - fr.rf.total := by
  have h' : Reached ex ok vm₀ { vm with callFrames := fr :: frs } := by
    rw [← htop]
    exact h
  have hvm' := h.inv.released (htop ▸ List.mem_cons_self) (.stack hrel)
  refine ⟨h'.popped hm hrel, ?_, ?_⟩
  · rw [hvm', htop]
    rfl
  · rw [hvm']

theorem reached_releaseFrames (hm : FewRegs ex.m) (frs : List CallFrame)
    (h : Reached ex ok vm₀ { vm with callFrames := frs }) :
    Ends (releaseFrames frs) (fun _ g ↦ Reached ex ok vm₀ { g with callFrames := [] }) vm := by
  induction frs generalizing vm with
  | nil => exact (spec_pure _).mpr h
  | cons fr frs ih =>
    simp only [releaseFrames, spec_bind]
    exact ends_iff.mpr fun _ g hrel ↦ ih (h.popped hm hrel)

theorem reached_unwindAll (hm : FewRegs ex.m) (h : Reached ex ok vm₀ vm) :
    Ends vmUnwindAllFrames (fun _ ↦ Reached ex ok vm₀) vm := by
  simp only [vmUnwindAllFrames, spec_bind, spec_read, spec_change]
  exact reached_releaseFrames hm vm.callFrames h

theorem reached_unwindTo (hm : FewRegs ex.m) (target : ℕ) (frs : List CallFrame)
    (h : Reached ex ok vm₀ vm) (hfrs : vm.callFrames = frs) :
    Ends (unwindTo target frs)
      (fun _ g ↦ Reached ex ok vm₀ g ∧ g.callFrames.length ≤ target + 1) vm := by
  induction frs generalizing vm with
  | nil =>
    refine (spec_pure _).mpr ⟨h, ?_⟩
    simp [hfrs]
  | cons fr frs ih =>
    simp only [unwindTo, spec_ite, spec_bind, spec_pure, vmExcPopForFrame, spec_change,
      popCallFrame]
    refine ⟨fun _ ↦ ?_, fun hle ↦ ⟨h, ?_⟩⟩
    · have hh := h.handlers (vm.excHandlers.dropWhile fun x ↦ x.frameIndex == frs.length)
      refine ends_iff.mpr fun _ g hrel ↦ ?_
      obtain ⟨hpop, htail, -⟩ := hh.popTop hm hfrs hrel
      rw [← htail] at hpop
      exact ih hpop htail
    · rw [hfrs, List.length_cons]
      omega

theorem reached_vmExcDispatch (hm : FewRegs ex.m) (h : Reached ex ok vm₀ vm) :
    Ends (vmExcDispatch ex) (fun _ ↦ Reached ex ok vm₀) vm := by
  simp only [vmExcDispatch, setTopFrame, spec_bind, spec_read, id, spec_ite, spec_pure]
  refine ⟨fun _ ↦ h, fun _ ↦ ?_⟩
  split
  · simp only [spec_bind, spec_change, spec_pure]
    exact (reached_unwindAll hm h).mono fun _ g hg ↦ hg.handlers []
  · next handler hs _ =>
    simp only [spec_bind, spec_change, spec_pure]
    refine (reached_unwindTo hm handler.frameIndex vm.callFrames (h.handlers hs) rfl).mono ?_
    intro _ g hg
    refine ends_frameAtIndex fun target htarget ↦ ?_
    obtain ⟨frs, hfrs⟩ := VM.frameAt_last htarget hg.2
    have hpc := hg.1.setPc hfrs handler.catchPc
    refine ends_onStore fun _ s1 ↦ ends_onStore fun _ s2 ↦ ?_
    exact reached_onStore ((hpc.setStore s1).setStore s2)

/-- The area of the last frame is released, and the callee gets one at the place where it was. -/
theorem reached_reallocFrame (hm : FewRegs ex.m) (h : Reached ex ok vm₀ vm)
    (htop : vm.callFrames = fr :: frs)
    (hok : OkAt ex ok f (vm.frameStackTop - fr.rf.total)) :
    Ends (reallocFrame ex fr f) (fun _ ↦ Reached ex ok vm₀) vm := by
  simp only [reallocFrame, setTopFrame, spec_bind, spec_change, spec_pure]
  refine ends_iff.mpr fun _ g hrel ↦ ?_
  obtain ⟨hpop, htail, hdown⟩ := h.popTop hm htop hrel
  refine ends_iff.mpr fun mem g' hbump ↦ ?_
  have hdrop := result_bump_dropTop ex (vmGetFrameLayout ex.m f).total
    { g with callFrames := { fr with rf := default } :: g.callFrames.tail }
  rw [hbump] at hdrop
  have hlen := h.inv.len
  rw [htop, List.length_cons] at hlen
  have hbump' : result (vmFrameStackBump ex (vmGetFrameLayout ex.m f).total)
      { g with callFrames := frs } = .ok (mem, g'.dropTop) := by
    rw [← htail]
    exact hdrop
  refine hpop.pushed hm (hpop.inv.canPush ?_) (fun hnil ↦ ?_) ?_ hbump' rfl
  · simp only
    omega
  · have hcons := h.inv.top_cons htop
    rw [show frs = [] from hnil] at hcons
    simp only [hdown, hcons, List.map_nil, List.sum_nil, Nat.add_zero, Nat.sub_self]
  · rw [hdown]
    exact hok

theorem reached_replaceRaw (hm : FewRegs ex.m) (h : Reached ex ok vm₀ vm)
    {path : TailPath} (hpath : path ≠ .boxed) (hok : TailPlaces ex ok f (path ≠ .boxed) vm)
    (firstArg nargs : ℕ) :
    Ends (replaceRaw ex f firstArg nargs path) (fun _ ↦ Reached ex ok vm₀) vm := by
  simp only [replaceRaw, setTopFrame, spec_bind]
  refine ends_topFrame fun fr frs htop ↦ ends_onStore fun buf s ↦ ?_
  have hs := h.setStore s
  simp only [spec_ite, spec_bind, spec_change]
  refine ⟨fun hle ↦ reached_onStore ?_, fun hgt ↦ ?_⟩
  · have htail : (vm.setStore s).callFrames.tail = frs := by
      rw [show (vm.setStore s).callFrames = fr :: frs from htop]
      rfl
    rw [htail]
    exact hs.step hm (.shrink htop hle (hok.inPlace hpath fr frs htop hle) rfl)
  · refine (reached_reallocFrame hm hs htop ?_).mono fun mem g hg ↦ reached_onStore hg
    exact hok.anew fr frs htop fun hraw ↦ hgt hraw.2

theorem reached_replaceBoxed (hm : FewRegs ex.m) (h : Reached ex ok vm₀ vm)
    (hok : TailPlaces ex ok f False vm) (callerF firstArg nargs : ℕ)
    (funobj : Option JelloFunction) :
    Ends (replaceBoxed ex f callerF firstArg nargs funobj) (fun _ ↦ Reached ex ok vm₀) vm := by
  simp only [replaceBoxed, spec_bind]
  refine ends_topFrame fun fr frs htop ↦ ?_
  simp only [spec_ite, spec_bind]
  refine ⟨fun _ ↦ spec_fail _, fun _ ↦ ends_onStore fun args s ↦ ?_⟩
  refine (reached_reallocFrame hm (h.setStore s) htop ?_).mono fun mem g hg ↦ reached_onStore hg
  exact hok.anew fr frs htop fun hraw ↦ hraw.1

theorem reached_vmReplaceFrame (hm : FewRegs ex.m) (h : Reached ex ok vm₀ vm)
    (callerF firstArg nargs : ℕ) (funobj : Option JelloFunction)
    (hok : ∀ path s, result (tailPath ex.m f callerF firstArg nargs funobj) vm.store =
      .ok (path, s) → TailPlaces ex ok f (path ≠ .boxed) vm) :
    Ends (vmReplaceFrame ex f callerF firstArg nargs funobj) (fun _ ↦ Reached ex ok vm₀) vm := by
  simp only [vmReplaceFrame, spec_bind]
  refine spec_onPart ⟨fun _ _ ↦ trivial, fun path s hpath ↦ ?_⟩
  have hs := h.setStore s
  have hplaces := hok path s hpath
  simp only [spec_ite]
  refine ⟨fun hboxed ↦ reached_replaceBoxed hm hs ⟨fun hno ↦ hno.elim, fun fr frs htop _ ↦ ?_⟩ ..,
    fun hraw ↦ reached_replaceRaw hm hs hraw ⟨hplaces.inPlace, hplaces.anew⟩ ..⟩
  exact hplaces.anew fr frs htop fun hraw ↦ hraw.1 hboxed

end Reached

section Refinement

variable {ex : Exec} {ok : ℕ → ℕ → Prop} {P : VM → StackOp → Prop} {vm₀ vm vm' : VM}

theorem StackOp.reached (hm : FewRegs ex.m) (op : StackOp) (h : Reached ex ok vm₀ vm)
    (hop : op.Places ex ok vm) : Ends (op.run ex) (fun _ ↦ Reached ex ok vm₀) vm := by
  cases op with
  | entry => simpa only [StackOp.run, spec_bind, spec_pure] using reached_execEntry hm h hop
  | chunk f args =>
    simpa only [StackOp.run, spec_bind, spec_pure] using reached_execChunk hm h hop args
  | closure fn args =>
    simpa only [StackOp.run, spec_bind, spec_pure] using reached_execClosure hm h fn hop args
  | call =>
    simp only [StackOp.run, topIndex, spec_bind, spec_read, spec_pure]
    refine ends_topFrame fun fr frs htop ↦ ?_
    rw [htop, List.length_cons, Nat.add_sub_cancel]
    exact reached_call hm h htop hop ..
  | callSelf =>
    simp only [StackOp.run, spec_bind, spec_read, spec_ite, spec_pure]
    refine ends_topFrame fun fr frs htop ↦ ⟨fun hcan ↦ ?_, fun _ ↦ h⟩
    have hnum : fr.hasPointerOrDynamic = false := by simpa using hcan.1
    have hplace := hop fr frs htop hnum hcan.2.1 hcan.2.2
    exact reached_vmPushSelfNumeric hm h hcan.2.2 htop hplace ..
  | callNative p boundThis args =>
    simp only [StackOp.run, spec_bind, spec_pure]
    refine ends_topFrame fun fr frs htop ↦ ?_
    refine reached_vmPushFrameJelloCall hm h ?_ p boundThis hop args true
    exact fun hnil ↦ absurd (htop ▸ hnil) (List.cons_ne_nil fr frs)
  | jitCallSelf =>
    simpa only [StackOp.run, spec_bind, spec_pure] using reached_jitCallSelf hm h _ _ _ _ hop
  | jitCallDirect =>
    simpa only [StackOp.run, spec_bind, spec_pure] using reached_jitCallDirect hm h _ _ _ _ _ hop
  | tailcall =>
    simp only [StackOp.run, spec_bind]
    refine ends_topFrame fun fr frs htop ↦ ?_
    exact reached_vmReplaceFrame hm h _ _ _ _ (hop fr frs htop)
  | ret =>
    simp only [StackOp.run, popCallFrame, spec_bind, spec_change]
    refine ends_topFrame fun fr frs htop ↦ ends_iff.mpr fun _ g hrel ↦ ?_
    obtain ⟨hpop, htail, -⟩ := h.popTop hm htop hrel
    rw [htail]
    exact hpop
  | retLast =>
    simp only [StackOp.run, spec_bind, spec_change]
    refine ends_topFrame fun fr frs htop ↦ ends_iff.mpr fun _ g hrel ↦ ?_
    exact (h.popTop hm htop hrel).1.step hm .clear
  | dispatch => simpa only [StackOp.run, spec_bind, spec_pure] using reached_vmExcDispatch hm h
  | unwindAll => exact reached_unwindAll hm h

theorem StackOp.steps (hm : FewRegs ex.m) (op : StackOp) (h : StackInv ex ok vm)
    (hop : op.Places ex ok vm) (hr : result (op.run ex) vm = .ok ((), vm')) :
    StackSteps ex ok vm vm' :=
  ((op.reached hm ⟨.refl, h⟩ hop).of_result hr).steps

theorem OpRun.stackRun (hm : FewRegs ex.m) (hP : ∀ vm op, P vm op → op.Places ex ok vm)
    (h : OpRun ex P vm) : StackRun ex ok vm := by
  induction h with
  | create => exact .refl
  | step op _ hop hr ih => exact ih.trans (op.steps hm (ih.inv hm) (hP _ op hop) hr)
  | other _ hs ih => exact .tail ih (.other hs)

theorem StackOp.places_of_all (hall : ∀ f o, ok f o) (op : StackOp) : op.Places ex ok vm := by
  have hok (f o : ℕ) : OkAt ex ok f o := fun _ ↦ hall f o
  cases op <;> simp only [StackOp.Places, hok, implies_true]
  exact fun _ _ _ _ _ _ ↦ ⟨fun _ _ _ _ _ ↦ hok _ _, fun _ _ _ _ ↦ hok _ _⟩

end Refinement

section Listed

variable (ex : Exec)

def StackOp.runAll : List StackOp → VMM Unit
  | [] => pure ()
  | op :: ops => do
    op.run ex
    StackOp.runAll ops

theorem OpRun.all {P : VM → StackOp → Prop} (ops : List StackOp) (hP : ∀ op ∈ ops, ∀ vm, P vm op)
    {vm vm' : VM} (h : OpRun ex P vm) (hr : result (StackOp.runAll ex ops) vm = .ok ((), vm')) :
    OpRun ex P vm' := by
  induction ops generalizing vm with
  | nil =>
    simp only [StackOp.runAll, result_pure, Except.ok.injEq, Prod.mk.injEq, true_and] at hr
    exact hr ▸ h
  | cons op ops ih =>
    rw [StackOp.runAll] at hr
    obtain ⟨_, vm₁, hop, hrest⟩ := bind_ok hr
    have hstep := h.step op (hP op List.mem_cons_self vm) hop
    exact ih (fun o ho ↦ hP o (List.mem_cons_of_mem op ho)) hstep hrest

end Listed

end JelloVM
