import JelloVM.Framed

/-! Which registers the arguments, the captures and the bound `this` of a call reach. -/

namespace JelloVM

open ByteMemory Logged

/-- An access to a register that its frame has, to the type of a register that its function has, to
an entry of a table, or to an instruction of a function. -/
inductive InRegs (m : JelloBcModule) : Access → Prop
  | slot (rf : RegFrame) (r width : ℕ) (hr : r < rf.nregs) : InRegs m (.slot rf r width)
  | regType (f r : ℕ) (hr : r < (m.func f).nregs) : InRegs m (.regType f r)
  | entry (pool : Pool) (i len : ℕ) (hi : i < len) : InRegs m (.entry pool i len)
  | insn (f pc : ℕ) (hpc : pc < (m.func f).ninsns) : InRegs m (.insn f pc)

def Anywhere {S : Type} (_ _ : S) : Prop := True

instance {S : Type} : IsPreorder S Anywhere where
  refl _ := trivial
  trans _ _ _ _ _ := trivial

section Conditions

variable (m : JelloBcModule) (callerF calleeF firstArg nargs : ℕ)

def plainCallee (funobj : Option JelloFunction) : Bool :=
  !funobj.any fun fn ↦ fn.ncaps != 0 || fn.hasBoundThis

def argBase (funobj : Option JelloFunction) : ℕ :=
  if funobj.any JelloFunction.hasBoundThis then 1 else 0

/-- The types of arguments and parameters are compared up to the first two of different kinds; the
callee has the registers for that. -/
def ComparisonInside : Prop :=
  nargs ≤ (m.func calleeF).nregs ∨ ∃ i < (m.func calleeF).nregs,
    regKind m callerF (firstArg + i) ≠ regKind m calleeF i

/-- From `cap_start` on there are registers for the captures. -/
def CapsInside (fn : JelloFunction) : Prop :=
  capStart m calleeF (m.func calleeF).nregs fn.ncaps.toNat + fn.ncaps.toNat ≤
    (m.func calleeF).nregs

/-- A call reaches only registers that the callee has. -/
structure PushFits (funobj : Option JelloFunction) : Prop where
  types : nargs ≤ vmFastArgNargsMaxPush → plainCallee funobj = true →
    ComparisonInside m callerF calleeF firstArg nargs
  caps : ∀ fn, funobj = some fn → fn.ncaps ≠ 0 → fn.ncaps.toNat ≤ (m.func calleeF).nregs →
    argBase funobj + nargs ≤ capStart m calleeF (m.func calleeF).nregs fn.ncaps.toNat →
      CapsInside m calleeF fn

/-- A tail call reaches only registers that the callee has; on the boxed path nothing is
refused. -/
structure TailFits (funobj : Option JelloFunction) : Prop where
  types : nargs ≤ vmFastArgNargsMaxTail → plainCallee funobj = true →
    ComparisonInside m callerF calleeF firstArg nargs
  boxed : nargs ≤ vmFastArgNargsMaxTail → ∀ s s', result
    (tailPath m calleeF callerF firstArg nargs funobj) s = .ok (.boxed, s') →
      argBase funobj + nargs ≤ (m.func calleeF).nregs ∧
        ∀ fn, funobj = some fn → fn.ncaps ≠ 0 → CapsInside m calleeF fn

end Conditions

section Stores

variable {m : JelloBcModule} {fpu : Fpu} {f g first nargs : ℕ} {rf rf' : RegFrame}
  {funobj : Option JelloFunction}

/-- The registers of a function of the module, in a frame with as many. -/
structure HasRegs (m : JelloBcModule) (f : ℕ) (rf : RegFrame) : Prop where
  accepted : Accepted m
  func : f < m.funcs.length
  nregs : rf.nregs = (m.func f).nregs

theorem HasRegs.slot (h : HasRegs m f rf) {r : ℕ} (hr : r < (m.func f).nregs) (width : ℕ) :
    InRegs m (.slot rf r width) := .slot rf r width (h.nregs.symm ▸ hr)

theorem HasRegs.regOk (h : HasRegs m f rf) {r : ℕ} (hr : r < (m.func f).nregs) :
    RegOk (InRegs m) m f rf r :=
  ⟨.regType f r hr, .entry _ _ _ (h.accepted.regType_lt (func_mem h.func) hr), h.slot hr _⟩

theorem HasRegs.kind (h : HasRegs m f rf) {r : ℕ} (hr : r < (m.func f).nregs) :
    Keeps (InRegs m) Anywhere (vmRegKind m f r) := fun _ ↦
  spec_vmRegKind.mpr ⟨(h.regOk hr).regType, (h.regOk hr).entry, trivial⟩

theorem HasRegs.unbox (h : HasRegs m f rf) {r : ℕ} (hr : r < (m.func f).nregs) (v : JelloValue) :
    Keeps (InRegs m) Anywhere (vmStoreFromBoxed m fpu f rf r v) := fun _ ↦
  spec_vmStoreFromBoxed (h.regOk hr) fpu v fun _ _ _ ↦ trivial

theorem HasRegs.box (h : HasRegs m f rf) {r : ℕ} (hr : r < (m.func f).nregs) :
    Keeps (InRegs m) Anywhere (vmBoxFromTyped m f rf r) := fun _ ↦
  spec_vmBoxFromTyped (h.regOk hr) fun _ _ ↦ trivial

theorem inside_initRegs (h : HasRegs m f rf) (hpd : Bool) :
    Keeps (InRegs m) Anywhere (initRegs m f rf hpd) := by
  refine keeps_ite (fun _ ↦ keeps_bind (keeps_change fun _ ↦ trivial) fun _ ↦
    keeps_loop _ _ fun r _ hr ↦ ?_) fun _ ↦ keeps_pure _
  have hr' : r < (m.func f).nregs := by rw [← h.nregs]; omega
  refine keeps_bind (h.kind hr') fun k ↦ keeps_ite (fun _ s ↦ ?_) fun _ ↦ keeps_pure _
  exact spec_vmStoreVal.mpr ⟨h.slot hr' 8, trivial⟩

theorem inside_vmArgTypesCompatible (src dst : ℕ) (s : Store) :
    Spec (InRegs m) (vmArgTypesCompatible m src dst)
      (fun b _ ↦ b = true → (m.type src).kind = (m.type dst).kind) s := by
  simp only [vmArgTypesCompatible, spec_ite, spec_bind, spec_typeOf, spec_pure]
  refine ⟨fun heq _ ↦ by rw [heq], fun _ ↦ ⟨fun _ hno ↦ Bool.noConfusion hno, fun hlt ↦ ?_⟩⟩
  push Not at hlt
  exact ⟨.entry _ _ _ hlt.1, .entry _ _ _ hlt.2, fun hk ↦ by simpa using hk⟩

theorem inside_argTypesMatch (n src dst : ℕ) (hsrc : src + n ≤ (m.func f).nregs)
    (hdst : ∀ i < n, (∀ j < i, regKind m f (src + j) = regKind m g (dst + j)) →
      dst + i < (m.func g).nregs) (s : Store) :
    Spec (InRegs m) (argTypesMatch m f g src dst n)
      (fun b _ ↦ b = true → ∀ i < n, dst + i < (m.func g).nregs) s := by
  induction n generalizing src dst s with
  | zero => exact (spec_pure _).mpr fun _ i hi ↦ absurd hi (Nat.not_lt_zero i)
  | succ n ih =>
    have hfirst : dst < (m.func g).nregs := by
      simpa using hdst 0 (Nat.succ_pos n) fun j hj ↦ absurd hj (Nat.not_lt_zero j)
    simp only [argTypesMatch, spec_bind, spec_regTypeOf]
    refine ⟨.regType f src (by omega), .regType g dst hfirst, ?_⟩
    refine (inside_vmArgTypesCompatible _ _ s).mono fun b s' hb ↦ spec_ite.mpr ⟨fun hyes ↦ ?_,
      fun _ ↦ (spec_pure _).mpr fun h ↦ Bool.noConfusion h⟩
    have hkind : regKind m f src = regKind m g dst := hb hyes
    refine (ih (src + 1) (dst + 1) (by omega) (fun i hi heq ↦ ?_) s').mono fun b' _ hb' hyes' i hi ↦ ?_
    · have hnext := hdst (i + 1) (by omega) fun j hj ↦ ?_
      · omega
      cases j with
      | zero => exact hkind
      | succ j =>
        have hj' := heq j (by omega)
        rwa [Nat.add_right_comm src, Nat.add_right_comm dst] at hj'
    · cases i with
      | zero => exact hfirst
      | succ i =>
        have hi' := hb' hyes' i (by omega)
        omega

theorem inside_vmCanUseFastArgCopy (hsrc : first + nargs ≤ (m.func f).nregs) (base : ℕ)
    (hdst : plainCallee funobj = true → ∀ i < nargs,
      (∀ j < i, regKind m f (first + j) = regKind m g (base + j)) → base + i < (m.func g).nregs)
    (s : Store) :
    Spec (InRegs m) (vmCanUseFastArgCopy m f g first nargs base funobj)
      (fun b _ ↦ b = true → ∀ i < nargs, base + i < (m.func g).nregs) s := by
  simp only [vmCanUseFastArgCopy, spec_ite, spec_pure]
  refine ⟨fun _ hno ↦ Bool.noConfusion hno, fun _ ↦ ⟨fun _ hno ↦ Bool.noConfusion hno,
    fun hplain ↦ ?_⟩⟩
  exact inside_argTypesMatch nargs first base hsrc (hdst (by simpa [plainCallee] using hplain)) s

theorem ComparisonInside.reach (h : ComparisonInside m f g first nargs) {i : ℕ} (hi : i < nargs)
    (heq : ∀ j < i, regKind m f (first + j) = regKind m g (0 + j)) :
    0 + i < (m.func g).nregs := by
  obtain hle | ⟨j, hj, hne⟩ := h
  · omega
  · by_contra hge
    exact hne (by simpa using heq j (by omega))

theorem inside_copyArgs (hcallee : HasRegs m g rf) (hcaller : rf'.nregs = (m.func f).nregs)
    (hsrc : first + nargs ≤ (m.func f).nregs) (hdst : ∀ i < nargs, i < (m.func g).nregs) :
    Keeps (InRegs m) Anywhere (copyArgs m g rf rf' first nargs) := by
  refine keeps_loop _ _ fun i _ hi ↦ ?_
  have hi' := hdst i (by omega)
  refine keeps_bind (hcallee.kind hi') fun k s ↦ spec_copySlot.mpr ⟨.slot _ _ _ ?_,
    hcallee.slot hi' _, trivial⟩
  omega

theorem inside_vmCopyArgStrict (hcallee : HasRegs m g rf) (hcaller : HasRegs m f rf') {src dst : ℕ}
    (hsrc : src < (m.func f).nregs) (hdst : dst < (m.func g).nregs) :
    Keeps (InRegs m) Anywhere (vmCopyArgStrict m fpu f rf' src g rf dst) := by
  intro s
  simp only [vmCopyArgStrict, spec_bind, spec_regTypeOf, spec_typeOf, spec_ite]
  refine ⟨.regType f src hsrc, .regType g dst hdst, fun _ ↦ spec_fail _, fun _ ↦
    ⟨(hcaller.regOk hsrc).entry, (hcallee.regOk hdst).entry, ?_⟩⟩
  simp only [spec_copySlot, spec_vmLoadVal, spec_vmStoreVal]
  refine ⟨fun _ ↦ ⟨hcaller.slot hsrc _, hcallee.slot hdst _, trivial⟩, fun _ ↦ ⟨fun _ ↦
    ⟨hcaller.slot hsrc _, hcallee.unbox hdst _ _⟩, fun _ ↦ ⟨fun _ ↦ ?_, fun _ ↦ spec_fail _⟩⟩⟩
  exact (hcaller.box hsrc).then fun v s' _ ↦ ⟨hcallee.slot hdst _, trivial⟩

theorem inside_storeCaps (hcallee : HasRegs m g rf) (fn : JelloFunction) {start : ℕ}
    (hfit : start + fn.ncaps.toNat ≤ (m.func g).nregs) :
    Keeps (InRegs m) Anywhere (storeCaps m fpu g rf fn start) := by
  have hraw (n r off : ℕ) (hr : r + n ≤ (m.func g).nregs) :
      Keeps (InRegs m) Anywhere (storeRawCaps m g rf fn.rawCaps r n off) := by
    induction n generalizing r off with
    | zero => exact keeps_pure _
    | succ n ih =>
      refine keeps_bind (hcallee.kind (by omega)) fun k ↦
        keeps_bind (keeps_note (hcallee.slot (by omega) _)) fun _ ↦
          keeps_bind (keeps_change fun _ ↦ trivial) fun _ ↦ ih _ _ (by omega)
  refine keeps_ite (fun _ ↦ hraw _ _ _ hfit) fun _ ↦ keeps_loop _ _ fun i _ hi ↦ ?_
  exact hcallee.unbox (by omega) _

theorem inside_initCaps (hcallee : HasRegs m g rf) {used : ℕ}
    (hfit : ∀ fn, funobj = some fn → fn.ncaps ≠ 0 → fn.ncaps.toNat ≤ (m.func g).nregs →
      used ≤ capStart m g (m.func g).nregs fn.ncaps.toNat → CapsInside m g fn) :
    Keeps (InRegs m) Anywhere (initCaps m fpu g rf funobj used) := by
  cases funobj with
  | none => exact keeps_pure _
  | some fn =>
    refine keeps_ite (fun _ ↦ keeps_pure _) fun hcaps ↦ keeps_ite (fun _ ↦ keeps_fail _) fun hle ↦
      keeps_ite (fun _ ↦ keeps_fail _) fun hused ↦ inside_storeCaps hcallee fn ?_
    rw [hcallee.nregs] at hle hused ⊢
    exact hfit fn rfl hcaps (not_lt.mp hle) (not_lt.mp hused)

/-- The bound `this` goes to register 0, and the arguments follow it. -/
theorem inside_initThis (hcallee : HasRegs m g rf) (s : Store) :
    Spec (InRegs m) (initThis m fpu g rf funobj) (fun base _ ↦ base = argBase funobj) s := by
  cases funobj with
  | none => exact (spec_pure _).mpr rfl
  | some fn =>
    refine spec_ite.mpr ⟨fun hno ↦ (spec_pure _).mpr ?_, fun hthis ↦ spec_ite.mpr
      ⟨fun _ ↦ spec_fail _, fun hone ↦ ?_⟩⟩
    · simp only [argBase, Option.any_some]
      rw [if_neg (by simpa using hno)]
    · rw [hcallee.nregs] at hone
      refine spec_bind.mpr ((hcallee.unbox (by omega) fn.boundThis).then fun _ s' _ ↦ ?_)
      refine (spec_pure _).mpr ?_
      simp only [argBase, Option.any_some]
      rw [if_pos (by simpa using hthis)]

theorem inside_vmInitArgsAndCaps (hcallee : HasRegs m g rf) (hcaller : HasRegs m f rf')
    (hsrc : first + nargs ≤ (m.func f).nregs)
    (hfit : ∀ fn, funobj = some fn → fn.ncaps ≠ 0 → fn.ncaps.toNat ≤ (m.func g).nregs →
      argBase funobj + nargs ≤ capStart m g (m.func g).nregs fn.ncaps.toNat → CapsInside m g fn) :
    Keeps (InRegs m) Anywhere
      (vmInitArgsAndCaps m fpu g rf f rf' first nargs funobj) := by
  intro s
  refine spec_bind.mpr ((inside_initThis hcallee s).mono ?_)
  rintro _ s' rfl
  refine spec_ite.mpr ⟨fun _ ↦ spec_fail _, fun hle ↦ ?_⟩
  rw [hcallee.nregs] at hle
  have hloop : Keeps (InRegs m) Anywhere (loop (fun i ↦
      vmCopyArgStrict m fpu f rf' (first + i) g rf (argBase funobj + i)) 0 nargs) :=
    keeps_loop _ _ fun i _ hi ↦ inside_vmCopyArgStrict hcallee hcaller (by omega) (by omega)
  exact keeps_bind hloop (fun _ ↦ inside_initCaps hcallee hfit) s'

theorem inside_vmInheritSelfCaptureSlots (hdst : HasRegs m f rf) (hsrc : HasRegs m f rf')
    (n : ℕ) : Keeps (InRegs m) Anywhere (vmInheritSelfCaptureSlots m f rf rf' n) := by
  refine keeps_ite (fun _ ↦ keeps_pure _) fun _ ↦ keeps_ite (fun _ ↦ keeps_pure _) fun _ ↦
    keeps_loop _ _ fun r _ hr ↦ keeps_ite (fun _ ↦ keeps_pure _) fun _ ↦ ?_
  have hr' : r < (m.func f).nregs := by omega
  exact keeps_bind (hdst.kind hr') fun k s ↦
    spec_copySlot.mpr ⟨hsrc.slot hr' _, hdst.slot hr' _, trivial⟩

/-- The arguments of a call, on every path but that of a numeric call of a function by itself. -/
theorem inside_passArgs {ex : Exec} (hcallee : HasRegs ex.m g rf) (hcaller : HasRegs ex.m f rf')
    (hsrc : first + nargs ≤ (ex.m.func f).nregs) (hfit : PushFits ex.m f g first nargs funobj) :
    Keeps (InRegs ex.m) Anywhere (passArgs ex g rf f rf' first nargs funobj) := by
  intro s
  have hinherit : Keeps (InRegs ex.m) Anywhere (if f = g ∧ funobj.isNone then
      vmInheritSelfCaptureSlots ex.m g rf rf' nargs else pure ()) :=
    keeps_ite (fun hself ↦ inside_vmInheritSelfCaptureSlots hcallee (hself.1 ▸ hcaller) nargs)
      fun _ ↦ keeps_pure _
  have hslow : Keeps (InRegs ex.m) Anywhere
      (vmInitArgsAndCaps ex.m ex.fpu g rf f rf' first nargs funobj) :=
    inside_vmInitArgsAndCaps hcallee hcaller hsrc hfit.caps
  refine spec_ite.mpr ⟨fun hle ↦ spec_bind.mpr ?_, fun _ ↦ spec_bind.mpr ((spec_pure _).mpr ?_)⟩
  · refine (inside_vmCanUseFastArgCopy hsrc 0 (fun hplain i hi heq ↦ ?_) s).mono
      fun fast s' hfast ↦ spec_ite.mpr ⟨fun hyes ↦ ?_, fun _ ↦
        keeps_bind hslow (fun _ ↦ hinherit) s'⟩
    · exact (hfit.types hle hplain).reach hi heq
    · have hdst (i : ℕ) (hi : i < nargs) : i < (ex.m.func g).nregs := by
        simpa using hfast hyes i hi
      exact keeps_bind (inside_copyArgs hcallee hcaller.nregs hsrc hdst) (fun _ ↦ hinherit) s'
  · exact keeps_bind hslow (fun _ ↦ hinherit) s

theorem inside_saveArgs (hg : g < m.funcs.length) (hm : Accepted m) (hcaller : HasRegs m f rf')
    (base n i : ℕ) (buf : Mem) (hsrc : first + (i + n) ≤ (m.func f).nregs)
    (hdst : ∀ j < i + n, base + j < (m.func g).nregs) :
    Keeps (InRegs m) Anywhere (saveArgs m g rf' first base i n buf) := by
  induction n generalizing i buf with
  | zero => exact keeps_pure _
  | succ n ih =>
    have hlt := hdst i (by omega)
    have hregs : HasRegs m g ((vmGetFrameLayout m g).frame 0) := ⟨hm, hg, rfl⟩
    exact keeps_bind (hregs.kind hlt) fun k ↦ keeps_bind (keeps_note (hcaller.slot (by omega) _))
      fun _ ↦ keeps_bind (keeps_read _) fun _ ↦
        ih _ _ (by omega) fun j hj ↦ hdst j (by omega)

theorem inside_restoreArgs (hcallee : HasRegs m g rf) (base : ℕ) (buf : Mem)
    (hdst : ∀ i < nargs, base + i < (m.func g).nregs) :
    Keeps (InRegs m) Anywhere (restoreArgs m g rf base nargs buf) := by
  refine keeps_loop _ _ fun i _ hi ↦ ?_
  have hlt := hdst i (by omega)
  exact keeps_bind (hcallee.kind hlt) fun k ↦ keeps_bind (keeps_note (hcallee.slot hlt _)) fun _ ↦
    keeps_change fun _ ↦ trivial

theorem inside_refillRaw {ex : Exec} (hcallee : HasRegs ex.m g rf) (hpd : Bool)
    (this : Option JelloValue) (base : ℕ) (buf : Mem)
    (hthis : this.isSome = true → 0 < (ex.m.func g).nregs)
    (hdst : ∀ i < nargs, base + i < (ex.m.func g).nregs) :
    Keeps (InRegs ex.m) Anywhere (refillRaw ex g rf hpd this base nargs buf) := by
  refine keeps_bind (inside_initRegs hcallee hpd) fun _ ↦ ?_
  have hrest := inside_restoreArgs hcallee base buf hdst
  cases this with
  | none => exact keeps_bind (keeps_pure ()) fun _ ↦ hrest
  | some v => exact keeps_bind (hcallee.unbox (hthis rfl) v) fun _ ↦ hrest

theorem inside_boxRegs (hcaller : HasRegs m f rf') (n r : ℕ) (hsrc : r + n ≤ (m.func f).nregs)
    (s : Store) : Spec (InRegs m) (boxRegs m f rf' r n) (fun args _ ↦ args.length = n) s := by
  induction n generalizing r s with
  | zero => exact (spec_pure _).mpr rfl
  | succ n ih =>
    refine spec_bind.mpr ((hcaller.box (by omega)).then fun v s₁ _ ↦ spec_bind.mpr ?_)
    refine (ih (r + 1) (by omega) s₁).mono fun args s₂ hargs ↦ (spec_pure _).mpr ?_
    rw [List.length_cons, hargs]

theorem inside_refillBoxed {ex : Exec} (hcallee : HasRegs ex.m g rf) (hpd : Bool)
    {args : List JelloValue} (hargs : argBase funobj + args.length ≤ (ex.m.func g).nregs)
    (hfit : ∀ fn, funobj = some fn → fn.ncaps ≠ 0 → CapsInside ex.m g fn) :
    Keeps (InRegs ex.m) Anywhere (refillBoxed ex g rf hpd funobj args) := by
  intro s
  have hloop (base : ℕ) (hbase : base = argBase funobj) : Keeps (InRegs ex.m) Anywhere
      (loop (fun i ↦ vmStoreFromBoxed ex.m ex.fpu g rf (base + i) (args.getD i 0)) 0 args.length) :=
    keeps_loop _ _ fun i _ hi ↦ hcallee.unbox (by omega) _
  refine spec_bind.mpr ((inside_initRegs hcallee hpd).then fun _ s₁ _ ↦ ?_)
  cases funobj with
  | none => exact spec_bind.mpr <| (spec_pure _).mpr (keeps_bind (hloop 0 rfl) (fun _ ↦ keeps_pure ()) s₁)
  | some fn =>
    have hcaps : Keeps (InRegs ex.m) Anywhere (if fn.ncaps = 0 then pure () else
        storeCaps ex.m ex.fpu g rf fn (capStart ex.m g rf.nregs fn.ncaps.toNat)) := by
      refine keeps_ite (fun _ ↦ keeps_pure ()) fun hcaps ↦ inside_storeCaps hcallee fn ?_
      rw [hcallee.nregs]
      exact hfit fn rfl hcaps
    have hrest (base : ℕ) (hbase : base = argBase (some fn)) (s₂ : Store) :=
      keeps_bind (hloop base hbase) (fun _ ↦ hcaps) s₂
    refine spec_ite.mpr ⟨fun hno ↦ spec_bind.mpr ((spec_pure _).mpr (hrest 0 ?_ s₁)),
      fun hthis ↦ ?_⟩
    · simp only [argBase, Option.any_some]
      rw [if_neg (by simpa using hno)]
    · have hbase : 1 = argBase (some fn) := by
        simp only [argBase, Option.any_some]
        rw [if_pos (by simpa using hthis)]
      refine spec_bind.mpr ((hcallee.unbox (by omega) fn.boundThis).then fun _ s₂ _ ↦ ?_)
      exact spec_bind.mpr ((spec_pure _).mpr (hrest 1 hbase s₂))

end Stores

section Machines

variable {ex : Exec} {vm vm' : VM} {fr fr' : CallFrame} {frs : List CallFrame} {P : Access → Prop}
  {f g first nargs : ℕ} {funobj : Option JelloFunction}

theorem inside_onStore {α : Type} {x : StoreM α} (h : Keeps (InRegs ex.m) Anywhere x) :
    Keeps (InRegs ex.m) Anywhere (onStore x) := keeps_onPart h fun _ _ _ ↦ trivial

theorem spec_frameAtIndex {i : ℕ} {Q : CallFrame → VM → Prop}
    (h : ∀ fr, vm.frameAt i = some fr → Q fr vm) : Spec P (frameAtIndex i) Q vm := by
  simp only [frameAtIndex, spec_bind, spec_read]
  split
  · next fr hfr => exact (spec_pure fr).mpr (h fr hfr)
  · exact spec_fail _

theorem FrameLike.hasRegs (hm : Accepted ex.m) (h : FrameLike ex fr) : HasRegs ex.m fr.f fr.rf := by
  obtain ⟨mem, hmem⟩ := h.layout
  exact ⟨hm, h.func, by rw [hmem]; rfl⟩

theorem Shifted.frameAt (h : Shifted vm vm') {i : ℕ} (hi : vm'.frameAt i = some fr') :
    ∃ fr, vm.frameAt i = some fr ∧ fr'.rf.nregs = fr.rf.nregs := by
  obtain ⟨⟨a, ha⟩, -⟩ := h
  rw [VM.frameAt, ha, ← List.map_reverse, List.getElem?_map, Option.map_eq_some_iff] at hi
  obtain ⟨fr, hfr, rfl⟩ := hi
  exact ⟨fr, hfr, rfl⟩

theorem VM.frameAt_cons {i : ℕ} {new : CallFrame} (h : vm'.callFrames = new :: vm.callFrames)
    (hi : i < vm.callFrames.length) : vm'.frameAt i = vm.frameAt i := by
  rw [VM.frameAt, h, List.reverse_cons, List.getElem?_append_left (by simpa using hi)]
  rfl

/-- The frame at the index has the registers of the function. -/
def CallerAt (ex : Exec) (f idx : ℕ) (vm : VM) : Prop :=
  ∀ fr, vm.frameAt idx = some fr → HasRegs ex.m f fr.rf

theorem CallerAt.shift {idx : ℕ} (h : CallerAt ex f idx vm) (hs : Shifted vm vm') :
    CallerAt ex f idx vm' := by
  intro fr' hfr'
  obtain ⟨fr, hfr, hnregs⟩ := hs.frameAt hfr'
  have hregs := h fr hfr
  exact ⟨hregs.accepted, hregs.func, hnregs.trans hregs.nregs⟩

theorem inside_stackOverflow : Keeps (InRegs ex.m) Anywhere stackOverflow :=
  inside_onStore fun _ ↦ spec_setTrap.mpr trivial

theorem inside_pushFreshFrame (hm : Accepted ex.m) (hg : g < ex.m.funcs.length) (dst : ℕ)
    (hasCaller capture : Bool) {idx : ℕ} (h : CallerAt ex f idx vm) :
    Spec (InRegs ex.m) (pushFreshFrame ex g dst hasCaller capture) (fun rf vm' ↦
      HasRegs ex.m g rf ∧ (idx < vm'.callFrames.length - 1 → CallerAt ex f idx vm')) vm := by
  refine spec_bind.mpr ((shifts_bump _).then fun mem vm₁ hshift ↦ ?_)
  have hregs : HasRegs ex.m g ((vmGetFrameLayout ex.m g).frame mem) := ⟨hm, hg, rfl⟩
  simp only [pushCallFrame, spec_bind, spec_read, spec_change, spec_pure]
  refine spec_onPart ((inside_initRegs hregs _).then fun _ s _ ↦ ⟨hregs, fun hlt fr hfr ↦ ?_⟩)
  have hlt' : idx < vm₁.callFrames.length := hlt
  rw [VM.frameAt_cons rfl hlt'] at hfr
  exact h.shift hshift fr hfr

theorem inside_pushGeneral (hm : Accepted ex.m) (hg : g < ex.m.funcs.length) (dst : ℕ) {idx : ℕ}
    (h : CallerAt ex f idx vm) (hsrc : first + nargs ≤ (ex.m.func f).nregs)
    (hfit : PushFits ex.m f g first nargs funobj) (hasCaller : Bool) :
    Spec (InRegs ex.m) (pushGeneral ex g f idx dst first nargs funobj hasCaller)
      (fun _ _ ↦ True) vm := by
  refine spec_bind.mpr ((inside_pushFreshFrame hm hg dst hasCaller false h).mono fun rf vm₁ h₁ ↦ ?_)
  simp only [spec_ite, spec_bind, spec_read, spec_pure]
  refine ⟨fun _ ↦ ⟨fun _ ↦ spec_fail _, fun hlt ↦ ?_⟩, fun _ ↦ trivial⟩
  refine spec_frameAtIndex fun caller hcaller ↦ ?_
  have hregs := h₁.2 (not_le.mp hlt) caller hcaller
  exact (inside_onStore (inside_passArgs h₁.1 hregs hsrc hfit)).then fun _ _ _ ↦ trivial

theorem inside_vmPushFrame (hm : Accepted ex.m) (hg : g < ex.m.funcs.length) (dst : ℕ) {idx : ℕ}
    (h : CallerAt ex f idx vm) (hsrc : first + nargs ≤ (ex.m.func f).nregs)
    (hfit : PushFits ex.m f g first nargs funobj) (hasCaller : Bool) :
    Spec (InRegs ex.m) (vmPushFrame ex g f idx dst first nargs funobj hasCaller)
      (fun _ _ ↦ True) vm := by
  refine spec_bind.mpr ((spec_read _).mpr (spec_ite.mpr ⟨fun _ ↦ ?_, fun _ ↦ spec_bind.mpr
    ((spec_change _).mpr ?_)⟩))
  · exact (keeps_bind inside_stackOverflow fun _ ↦ keeps_pure false).then fun _ _ _ ↦ trivial
  have h₁ : CallerAt ex f idx (if vm.callFrames = [] then { vm with frameStackTop := 0 } else vm) := by
    split_ifs <;> exact h
  generalize (if vm.callFrames = [] then { vm with frameStackTop := 0 } else vm) = vm₁ at h₁
  refine spec_ite.mpr ⟨fun hself ↦ spec_ite.mpr ⟨fun _ ↦ spec_fail _, fun _ ↦ spec_bind.mpr
    (spec_frameAtIndex fun caller _ ↦ spec_ite.mpr ⟨fun _ ↦ ?_, fun _ ↦
      inside_pushGeneral hm hg dst h₁ hsrc hfit _⟩)⟩, fun _ ↦
        inside_pushGeneral hm hg dst h₁ hsrc hfit _⟩
  obtain rfl : f = g := hself.2.1
  refine spec_bind.mpr ((shifts_bump _).then fun mem vm₂ hshift ↦ spec_bind.mpr
    (spec_frameAtIndex fun caller' hcaller' ↦ ?_))
  have hregs := h₁.shift hshift caller' hcaller'
  have hnew : HasRegs ex.m f { caller'.rf with mem := mem } := ⟨hm, hg, hregs.nregs⟩
  simp only [pushCallFrame, spec_bind, spec_read, spec_change, spec_pure]
  have hcopy := inside_copyArgs hnew hregs.nregs hsrc fun i hi ↦ by omega
  exact (inside_onStore hcopy).then fun _ _ _ ↦ trivial

theorem inside_vmPushSelfNumeric (hm : Accepted ex.m) (hframed : Framed ex vm)
    (hfr : vm.callFrames = fr :: frs) (hsrc : first + nargs ≤ (ex.m.func fr.f).nregs) (dst : ℕ) :
    Spec (InRegs ex.m) (vmPushSelfNumeric ex first nargs dst) (fun _ _ ↦ True) vm := by
  refine spec_bind.mpr (spec_topFrame hfr (spec_bind.mpr ((shifts_bump _).then
    fun mem vm₁ hshift ↦ ?_)))
  obtain ⟨⟨a, ha⟩, -⟩ := hshift
  rw [hfr, List.map_cons] at ha
  have hregs := (hframed fr (by simp [hfr])).hasRegs hm
  have hnew (b : ℕ) : HasRegs ex.m fr.f { fr.rf with mem := b } := ⟨hm, hregs.func, hregs.nregs⟩
  refine spec_bind.mpr (spec_topFrame ha ?_)
  simp only [pushCallFrame, spec_bind, spec_read, spec_change]
  have hcopy := inside_copyArgs (hnew mem) (hnew (a fr.rf.mem)).nregs hsrc fun i hi ↦ by omega
  exact (inside_onStore hcopy).then fun _ _ _ ↦ trivial

/-- What a tail call has compared when it does not box the arguments. -/
structure TailPath.Reaches (m : JelloBcModule) (g nargs : ℕ) (path : TailPath) : Prop where
  args : ∀ i < nargs, path.dstBase + i < (m.func g).nregs
  this : path.this.isSome = true → 0 < (m.func g).nregs

theorem inside_typedOr {m : JelloBcModule} {slow : StoreM TailPath}
    (hsrc : first + nargs ≤ (m.func f).nregs)
    (hfit : TailFits m f g first nargs funobj) (hslow : ∀ s, Spec (InRegs m) slow
      (fun path _ ↦ path ≠ .boxed → path.Reaches m g nargs) s) (s : Store) :
    Spec (InRegs m) (do
        let typed ← if nargs ≤ vmFastArgNargsMaxTail then
            if funobj.isNone ∧ f = g then pure true
            else vmCanUseFastArgCopy m f g first nargs 0 funobj
          else pure false
        if typed then pure .typed else slow)
      (fun path _ ↦ path ≠ .boxed → path.Reaches m g nargs) s := by
  have htyped (hargs : ∀ i < nargs, 0 + i < (m.func g).nregs) : TailPath.typed.Reaches m g nargs :=
    ⟨hargs, fun hno ↦ absurd hno Bool.false_ne_true⟩
  refine spec_ite.mpr ⟨fun hle ↦ spec_ite.mpr ⟨fun hself ↦ ?_, fun _ ↦ ?_⟩, fun _ ↦ ?_⟩
  · have hsame : f = g := hself.2
    refine spec_bind.mpr ((spec_pure _).mpr (spec_ite.mpr ⟨fun _ ↦ (spec_pure _).mpr fun _ ↦
      htyped fun i hi ↦ ?_, fun _ ↦ hslow s⟩))
    rw [← hsame]
    omega
  · refine spec_bind.mpr ((inside_vmCanUseFastArgCopy hsrc 0 (fun hplain i hi heq ↦ ?_) s).mono
      fun b s' hb ↦ spec_ite.mpr ⟨fun hyes ↦ (spec_pure _).mpr fun _ ↦ htyped (hb hyes),
        fun _ ↦ hslow s'⟩)
    exact (hfit.types hle hplain).reach hi heq
  · refine spec_bind.mpr ((spec_pure _).mpr (spec_ite.mpr ⟨fun hno ↦ ?_, fun _ ↦ hslow s⟩))
    exact absurd hno Bool.false_ne_true

theorem inside_tailPath {m : JelloBcModule} (hsrc : first + nargs ≤ (m.func f).nregs)
    (hfit : TailFits m f g first nargs funobj) (s : Store) :
    Spec (InRegs m) (tailPath m g f first nargs funobj)
      (fun path _ ↦ path ≠ .boxed → path.Reaches m g nargs) s := by
  cases funobj with
  | none => exact inside_typedOr hsrc hfit (fun _ ↦ (spec_pure _).mpr fun hno ↦ absurd rfl hno) s
  | some fn =>
    refine inside_typedOr hsrc hfit (fun s' ↦ spec_ite.mpr ⟨fun hthis ↦ spec_bind.mpr ?_, fun _ ↦
      (spec_pure _).mpr fun hno ↦ absurd rfl hno⟩) s
    refine (inside_vmCanUseFastArgCopy hsrc 1 (fun _ i hi _ ↦ by omega) s').mono fun b s' _ ↦
      spec_ite.mpr ⟨fun _ ↦ (spec_pure _).mpr fun _ ↦ ⟨fun i hi ↦ ?_, fun _ ↦ by omega⟩,
        fun _ ↦ (spec_pure _).mpr fun hno ↦ absurd rfl hno⟩
    simp only [TailPath.dstBase]
    omega

theorem inside_vmRfRelease (rf : RegFrame) :
    Keeps (InRegs ex.m) Anywhere (vmRfRelease rf) :=
  keeps_bind (keeps_read _) fun _ ↦ keeps_ite (fun _ ↦ keeps_pure _) fun _ ↦
    keeps_ite (fun _ ↦ keeps_change fun _ ↦ trivial) fun _ ↦ keeps_fail _

theorem inside_reallocFrame (fr : CallFrame) (g : ℕ) :
    Keeps (InRegs ex.m) Anywhere (reallocFrame ex fr g) := by
  refine keeps_bind (inside_vmRfRelease _) fun _ ↦ keeps_bind (keeps_change fun _ ↦ trivial) fun _ ↦
    keeps_bind (fun vm ↦ (shifts_bump _).then fun _ _ _ ↦ trivial) fun mem ↦
      keeps_bind (keeps_change fun _ ↦ trivial) fun _ ↦ keeps_pure _

theorem inside_replaceRaw (hm : Accepted ex.m) (hg : g < ex.m.funcs.length)
    (hframed : Framed ex vm) (hfr : vm.callFrames = fr :: frs)
    (hsrc : first + nargs ≤ (ex.m.func fr.f).nregs) {path : TailPath}
    (hpath : path.Reaches ex.m g nargs) :
    Spec (InRegs ex.m) (replaceRaw ex g first nargs path) (fun _ _ ↦ True) vm := by
  have hregs := (hframed fr (by simp [hfr])).hasRegs hm
  refine spec_bind.mpr (spec_topFrame hfr (spec_bind.mpr ?_))
  refine (inside_onStore (inside_saveArgs hg hm hregs _ _ _ _ (by omega) fun j hj ↦
    hpath.args j (by omega))).then fun buf vm₁ _ ↦ ?_
  have hrefill (mem : ℕ) : Keeps (InRegs ex.m) Anywhere (onStore (refillRaw ex g
      ((vmGetFrameLayout ex.m g).frame mem) (vmGetFrameLayout ex.m g).hasPointerOrDynamic path.this
      path.dstBase nargs buf)) :=
    inside_onStore (inside_refillRaw ⟨hm, hg, rfl⟩ _ _ _ _ hpath.this hpath.args)
  simp only [spec_ite, spec_bind, spec_change, setTopFrame]
  refine ⟨fun _ ↦ (hrefill _).then fun _ _ _ ↦ trivial, fun _ ↦ ?_⟩
  exact (inside_reallocFrame fr g).then fun mem vm₂ _ ↦ (hrefill mem).then fun _ _ _ ↦ trivial

theorem inside_replaceBoxed (hm : Accepted ex.m) (hg : g < ex.m.funcs.length)
    (hframed : Framed ex vm) (hfr : vm.callFrames = fr :: frs)
    (hsrc : first + nargs ≤ (ex.m.func fr.f).nregs)
    (hfit : nargs ≤ vmFastArgNargsMaxTail → argBase funobj + nargs ≤ (ex.m.func g).nregs ∧
      ∀ fn, funobj = some fn → fn.ncaps ≠ 0 → CapsInside ex.m g fn) :
    Spec (InRegs ex.m) (replaceBoxed ex g fr.f first nargs funobj) (fun _ _ ↦ True) vm := by
  have hregs := (hframed fr (by simp [hfr])).hasRegs hm
  refine spec_bind.mpr (spec_topFrame hfr (spec_ite.mpr ⟨fun _ ↦ spec_fail _, fun hle ↦
    spec_bind.mpr (spec_onPart ((inside_boxRegs hregs nargs first hsrc vm.store).mono
      fun args s hargs ↦ spec_bind.mpr ?_))⟩))
  have hfit' := hfit (not_lt.mp hle)
  refine (inside_reallocFrame fr g).then fun mem vm₂ _ ↦ ?_
  have hcallee : HasRegs ex.m g ((vmGetFrameLayout ex.m g).frame mem) := ⟨hm, hg, rfl⟩
  have hrefill := inside_refillBoxed hcallee (vmGetFrameLayout ex.m g).hasPointerOrDynamic
    (hargs ▸ hfit'.1) hfit'.2
  exact (inside_onStore hrefill).then fun _ _ _ ↦ trivial

theorem inside_vmReplaceFrame (hm : Accepted ex.m) (hg : g < ex.m.funcs.length)
    (hframed : Framed ex vm) (hfr : vm.callFrames = fr :: frs)
    (hsrc : first + nargs ≤ (ex.m.func fr.f).nregs)
    (hfit : TailFits ex.m fr.f g first nargs funobj) :
    Spec (InRegs ex.m) (vmReplaceFrame ex g fr.f first nargs funobj) (fun _ _ ↦ True) vm := by
  have hpath := inside_tailPath hsrc hfit vm.store
  refine spec_bind.mpr (spec_onPart ⟨hpath.1, fun path s hr ↦ ?_⟩)
  have hframed' : Framed ex (vm.setStore s) := framed_of_frames hframed rfl
  have hfr' : (vm.setStore s).callFrames = fr :: frs := hfr
  refine spec_ite.mpr ⟨fun hboxed ↦ ?_, fun hraw ↦ ?_⟩
  · subst hboxed
    exact inside_replaceBoxed hm hg hframed' hfr' hsrc fun hle ↦ hfit.boxed hle _ _ hr
  · exact inside_replaceRaw hm hg hframed' hfr' hsrc (hpath.2 path s hr hraw)

end Machines

/-- The bytecode function that a call leads to, the register of its first argument, and its
function object. -/
def VM.bytecodeCall (vm : VM) (ins : JelloInsn) : Option (ℕ × ℕ × Option JelloFunction) :=
  match vm.callFrames with
  | [] => none
  | fr :: _ =>
    match ins.op with
    | .call | .tailcall =>
      if jelloIsNativeBuiltin ins.imm then none else some (bytecodeIdx ins.imm, ins.rb, none)
    | .callr | .tailcallr =>
      match result (calleeOf fr.rf ins.rb) vm.store with
      | .ok (.bytecode fn, _) => some (bytecodeIdx fn.funcIndex, ins.imm.toNat, some fn)
      | _ => none
    | _ => none

def InsnFits (ex : Exec) (f : ℕ) (ins : JelloInsn) (g first : ℕ) (funobj : Option JelloFunction) :
    Prop :=
  if ins.op = .tailcall ∨ ins.op = .tailcallr then TailFits ex.m f g first ins.rc funobj
  else PushFits ex.m f g first ins.rc funobj

/-- The next instruction, if it calls a bytecode function, reaches only registers that the
function has. -/
def CallFits (ex : Exec) (vm : VM) : Prop :=
  ∀ fr frs ins g first funobj, vm.callFrames = fr :: frs → vm.nextInsn ex = some ins →
    vm.bytecodeCall ins = some (g, first, funobj) →
      InsnFits ex fr.f ins g first funobj

section Checks

variable {m : JelloBcModule} {fn : JelloBcFunction} {ins : JelloInsn} {pc : ℕ}

theorem direct_range (h : jelloBcValidateInsn m fn ins pc = .ok ())
    (hop : ins.op = .call ∨ ins.op = .tailcall) : ins.rb + ins.rc ≤ fn.nregs := by
  obtain hop | hop := hop <;>
    simp only [jelloBcValidateInsn, hop, directOf, verdict_bind_ok, require_ok] at h <;>
    exact h.2.2

theorem indirect_range (h : jelloBcValidateInsn m fn ins pc = .ok ())
    (hop : ins.op = .callr ∨ ins.op = .tailcallr) :
    ins.rb < fn.nregs ∧ ins.imm.toNat + ins.rc ≤ fn.nregs := by
  obtain hop | hop := hop <;>
    simp only [jelloBcValidateInsn, hop, indirectOf, regAB, verdict_bind_ok, require_ok] at h <;>
    exact ⟨h.1.2, h.2.2.2⟩

end Checks

section Calls

variable {ex : Exec} {vm : VM} {fr : CallFrame} {frs : List CallFrame} {ins : JelloInsn}
  {f g first : ℕ} {funobj : Option JelloFunction} {m : JelloBcModule}

theorem inside_fuelCharge {ctx : Ctx} {s : Store} :
    Spec (InRegs m) (jelloVmFuelCharge ctx) (fun _ s' ↦ s'.mem = s.mem ∧ s'.heap = s.heap) s := by
  simp [jelloVmFuelCharge, spec_ite]

theorem result_vmLoadVal_at (rf : RegFrame) (r : ℕ) (s : Store) :
    result (vmLoadVal rf r) s = .ok (load64 s.mem (rf.addr r), s) := rfl

theorem result_calleeOf_congr {rf : RegFrame} {r : ℕ} {s s' : Store} (hmem : s'.mem = s.mem)
    (hheap : s'.heap = s.heap) {c : Callee} (h : result (calleeOf rf r) s' = .ok (c, s')) :
    result (calleeOf rf r) s = .ok (c, s) := by
  simp only [calleeOf, result_bind, result_vmLoadVal_at, Except.bind, result_ite, result_pure,
    cellAt, result_read, hmem, hheap] at h ⊢
  split_ifs at h ⊢
  · simpa using h
  · simpa using h
  · cases hcell : s.heap.cells (load64 s.mem (rf.addr r)) with
    | none => simp [hcell, wild] at h
    | some cell =>
      simp only [hcell, result_pure] at h ⊢
      cases cell <;> simp only [result_pure, result_ite] at h ⊢
      all_goals
        try split_ifs at h ⊢
        all_goals simpa using h

theorem inside_calleeOf {rf : RegFrame} {r : ℕ} (hr : r < rf.nregs) {s : Store} :
    Spec (InRegs m) (calleeOf rf r) (fun _ s' ↦ s' = s) s := by
  simp only [calleeOf, spec_bind, spec_vmLoadVal, spec_ite, spec_pure, implies_true, true_and]
  refine ⟨.slot _ _ _ hr, fun _ _ ↦ spec_cellAt fun cell _ ↦ ?_⟩
  cases cell <;> simp only [spec_ite, spec_pure, implies_true, and_self]

/-- What a call needs to know of the frame that makes it. -/
structure Calling (ex : Exec) (vm : VM) (fr : CallFrame) (frs : List CallFrame) : Prop where
  accepted : Accepted ex.m
  framed : Framed ex vm
  top : vm.callFrames = fr :: frs

theorem Calling.hasRegs (h : Calling ex vm fr frs) : HasRegs ex.m fr.f fr.rf :=
  (h.framed fr (by simp [h.top])).hasRegs h.accepted

theorem Calling.setStore (h : Calling ex vm fr frs) (s : Store) :
    Calling ex (vm.setStore s) fr frs := ⟨h.accepted, framed_of_frames h.framed rfl, h.top⟩

theorem inside_callArgs {fi : UInt32} {na : ℕ} {Q : ℕ → VM → Prop}
    (hQ : bytecodeIdx fi < ex.m.funcs.length → Q (bytecodeIdx fi) vm) :
    Spec (InRegs ex.m) (callArgs ex fr fi first na) Q vm := by
  simp only [callArgs, spec_ite, spec_pure]
  exact ⟨fun _ ↦ spec_fail _, fun h ↦ ⟨fun _ ↦ spec_fail _, fun _ ↦ hQ (not_le.mp h)⟩⟩

theorem Calling.callerAt (h : Calling ex vm fr frs) :
    CallerAt ex fr.f (vm.callFrames.length - 1) vm := by
  intro fr' hfr'
  rw [frameAt_topIndex h.top, Option.some.injEq] at hfr'
  exact hfr' ▸ h.hasRegs

theorem inside_pushCall (h : Calling ex vm fr frs) {fi : UInt32} {na dst : ℕ}
    (hsrc : first + na ≤ (ex.m.func fr.f).nregs)
    (hfit : PushFits ex.m fr.f (bytecodeIdx fi) first na funobj) :
    Spec (InRegs ex.m) (do
        let cf ← callArgs ex fr fi first na
        let i ← topIndex
        let _ ← vmPushFrame ex cf fr.f i dst first na funobj true
        pure .continue_ : VMM OpResult) (fun _ _ ↦ True) vm := by
  refine spec_bind.mpr (inside_callArgs fun hlt ↦ spec_bind.mpr ((spec_read _).mpr ?_))
  refine spec_bind.mpr ((inside_vmPushFrame h.accepted hlt dst h.callerAt hsrc hfit true).mono
    fun _ _ _ ↦ (spec_pure _).mpr trivial)

theorem inside_replaceCall (h : Calling ex vm fr frs) {fi : UInt32} {na : ℕ}
    (hsrc : first + na ≤ (ex.m.func fr.f).nregs)
    (hfit : TailFits ex.m fr.f (bytecodeIdx fi) first na funobj) :
    Spec (InRegs ex.m) (do
        let cf ← callArgs ex fr fi first na
        vmReplaceFrame ex cf fr.f first na funobj
        pure .continue_ : VMM OpResult) (fun _ _ ↦ True) vm := by
  refine spec_bind.mpr (inside_callArgs fun hlt ↦ spec_bind.mpr ?_)
  exact (inside_vmReplaceFrame h.accepted hlt h.framed h.top hsrc hfit).mono
    fun _ _ _ ↦ (spec_pure _).mpr trivial

theorem inside_charged {x : VMM OpResult}
    (hx : ∀ s, s.mem = vm.store.mem → s.heap = vm.store.heap →
      Spec (InRegs ex.m) x (fun _ _ ↦ True) (vm.setStore s)) :
    Spec (InRegs ex.m) (do if ← onStore (jelloVmFuelCharge (ex.ctx fr)) then x else pure .trap)
      (fun _ _ ↦ True) vm := by
  refine spec_bind.mpr (spec_onPart (inside_fuelCharge.mono fun b s hs ↦ ?_))
  exact spec_ite.mpr ⟨fun _ ↦ hx s hs.1 hs.2, fun _ ↦ (spec_pure _).mpr trivial⟩

/-- The callee that was seen before the charge is the one that is read after it. -/
theorem inside_readCallee (h : Calling ex vm fr frs) {fn : JelloFunction}
    (hr : ins.rb < (ex.m.func fr.f).nregs) {s : Store} (hmem : s.mem = vm.store.mem)
    (hheap : s.heap = vm.store.heap)
    (hc : result (calleeOf fr.rf ins.rb) vm.store = .ok (.bytecode fn, vm.store))
    {Q : Callee → VM → Prop} (hQ : Q (.bytecode fn) (vm.setStore s)) :
    Spec (InRegs ex.m) (onStore (calleeOf fr.rf ins.rb)) Q (vm.setStore s) := by
  have hcallee : Spec (InRegs ex.m) (calleeOf fr.rf ins.rb) (fun _ s' ↦ s' = s) s :=
    inside_calleeOf (h.hasRegs.nregs.symm ▸ hr)
  refine spec_onPart ⟨hcallee.1, fun c s' hres ↦ ?_⟩
  obtain rfl : s' = s := hcallee.2 c s' hres
  have hsame := (result_calleeOf_congr hmem hheap hres).symm.trans hc
  simp only [Except.ok.injEq, Prod.mk.injEq, and_true] at hsame
  rw [hsame]
  exact hQ

theorem inside_opCall (h : Calling ex vm fr frs) (hn : jelloIsNativeBuiltin ins.imm = false)
    (hsrc : ins.rb + ins.rc ≤ (ex.m.func fr.f).nregs)
    (hfit : PushFits ex.m fr.f (bytecodeIdx ins.imm) ins.rb ins.rc none) :
    Spec (InRegs ex.m) (opCall ex ins) (fun _ _ ↦ True) vm := by
  refine spec_bind.mpr (spec_topFrame h.top (inside_charged fun s _ _ ↦ ?_))
  refine spec_ite.mpr ⟨fun hyes ↦ ?_, fun _ ↦ inside_pushCall (h.setStore s) hsrc hfit⟩
  rw [hn] at hyes
  exact absurd hyes Bool.false_ne_true

theorem inside_inlineCall (h : Calling ex vm fr frs) (hn : jelloIsNativeBuiltin ins.imm = false)
    (hsrc : ins.rb + ins.rc ≤ (ex.m.func fr.f).nregs)
    (hfit : PushFits ex.m fr.f (bytecodeIdx ins.imm) ins.rb ins.rc none) :
    Spec (InRegs ex.m) (inlineCall ex ins) (fun _ _ ↦ True) vm := by
  refine spec_bind.mpr (spec_topFrame h.top (inside_charged fun s _ _ ↦ ?_))
  have hs := h.setStore s
  refine spec_ite.mpr ⟨fun hyes ↦ ?_, fun _ ↦ ?_⟩
  · rw [hn] at hyes
    exact absurd hyes Bool.false_ne_true
  refine spec_bind.mpr (inside_callArgs fun hlt ↦ spec_bind.mpr ((spec_read _).mpr ?_))
  refine spec_ite.mpr ⟨fun _ ↦ spec_bind.mpr ?_, fun _ ↦ spec_bind.mpr ((spec_read _).mpr
    (spec_bind.mpr ?_))⟩
  · exact (inside_vmPushSelfNumeric h.accepted hs.framed hs.top hsrc _).mono
      fun _ _ _ ↦ (spec_pure _).mpr trivial
  · exact (inside_vmPushFrame h.accepted hlt _ hs.callerAt hsrc hfit true).mono
      fun _ _ _ ↦ (spec_pure _).mpr trivial

theorem inside_opCallr (h : Calling ex vm fr frs) {fn : JelloFunction}
    (hc : result (calleeOf fr.rf ins.rb) vm.store = .ok (.bytecode fn, vm.store))
    (hsrc : ins.rb < (ex.m.func fr.f).nregs ∧ ins.imm.toNat + ins.rc ≤ (ex.m.func fr.f).nregs)
    (hfit : PushFits ex.m fr.f (bytecodeIdx fn.funcIndex) ins.imm.toNat ins.rc (some fn)) :
    Spec (InRegs ex.m) (opCallr ex ins) (fun _ _ ↦ True) vm := by
  refine spec_bind.mpr (spec_topFrame h.top (inside_charged fun s hmem hheap ↦ spec_bind.mpr ?_))
  exact inside_readCallee h hsrc.1 hmem hheap hc (inside_pushCall (h.setStore s) hsrc.2 hfit)

theorem inside_inlineCallr (h : Calling ex vm fr frs) {fn : JelloFunction}
    (hc : result (calleeOf fr.rf ins.rb) vm.store = .ok (.bytecode fn, vm.store))
    (hsrc : ins.rb < (ex.m.func fr.f).nregs ∧ ins.imm.toNat + ins.rc ≤ (ex.m.func fr.f).nregs)
    (hfit : PushFits ex.m fr.f (bytecodeIdx fn.funcIndex) ins.imm.toNat ins.rc (some fn)) :
    Spec (InRegs ex.m) (inlineCallr ex ins) (fun _ _ ↦ True) vm := by
  refine spec_bind.mpr (spec_topFrame h.top (inside_charged fun s hmem hheap ↦ spec_bind.mpr ?_))
  exact inside_readCallee h hsrc.1 hmem hheap hc (inside_pushCall (h.setStore s) hsrc.2 hfit)

theorem inside_opTailcall (h : Calling ex vm fr frs) (hn : jelloIsNativeBuiltin ins.imm = false)
    (hsrc : ins.rb + ins.rc ≤ (ex.m.func fr.f).nregs)
    (hfit : TailFits ex.m fr.f (bytecodeIdx ins.imm) ins.rb ins.rc none) :
    Spec (InRegs ex.m) (opTailcall ex ins) (fun _ _ ↦ True) vm := by
  refine spec_bind.mpr (spec_topFrame h.top (spec_ite.mpr ⟨fun hyes ↦ ?_, fun _ ↦
    inside_replaceCall h hsrc hfit⟩))
  rw [hn] at hyes
  exact absurd hyes Bool.false_ne_true

theorem inside_opTailcallr (h : Calling ex vm fr frs) {fn : JelloFunction}
    (hc : result (calleeOf fr.rf ins.rb) vm.store = .ok (.bytecode fn, vm.store))
    (hsrc : ins.rb < (ex.m.func fr.f).nregs ∧ ins.imm.toNat + ins.rc ≤ (ex.m.func fr.f).nregs)
    (hfit : TailFits ex.m fr.f (bytecodeIdx fn.funcIndex) ins.imm.toNat ins.rc (some fn)) :
    Spec (InRegs ex.m) (opTailcallr ex ins) (fun _ _ ↦ True) vm := by
  refine spec_bind.mpr (spec_topFrame h.top (spec_bind.mpr ?_))
  exact inside_readCallee h hsrc.1 rfl rfl hc (inside_replaceCall h hsrc.2 hfit)

theorem inside_inlineTailcallr (h : Calling ex vm fr frs) {fn : JelloFunction}
    (hc : result (calleeOf fr.rf ins.rb) vm.store = .ok (.bytecode fn, vm.store))
    (hsrc : ins.rb < (ex.m.func fr.f).nregs ∧ ins.imm.toNat + ins.rc ≤ (ex.m.func fr.f).nregs)
    (hfit : TailFits ex.m fr.f (bytecodeIdx fn.funcIndex) ins.imm.toNat ins.rc (some fn)) :
    Spec (InRegs ex.m) (inlineTailcallr ex ins) (fun _ _ ↦ True) vm := by
  refine spec_bind.mpr (spec_topFrame h.top (spec_bind.mpr ?_))
  exact inside_readCallee h hsrc.1 rfl rfl hc (inside_replaceCall h hsrc.2 hfit)

theorem bytecodeCall_cases (hfr : vm.callFrames = fr :: frs)
    (h : vm.bytecodeCall ins = some (g, first, funobj)) :
    ((ins.op = .call ∨ ins.op = .tailcall) ∧ jelloIsNativeBuiltin ins.imm = false ∧
      g = bytecodeIdx ins.imm ∧ first = ins.rb ∧ funobj = none) ∨
    ((ins.op = .callr ∨ ins.op = .tailcallr) ∧ ∃ fn s,
      result (calleeOf fr.rf ins.rb) vm.store = .ok (.bytecode fn, s) ∧
        g = bytecodeIdx fn.funcIndex ∧ first = ins.imm.toNat ∧ funobj = some fn) := by
  have hdirect (h : (if jelloIsNativeBuiltin ins.imm then none else
      some (bytecodeIdx ins.imm, ins.rb, none)) = some (g, first, funobj)) :
      jelloIsNativeBuiltin ins.imm = false ∧ g = bytecodeIdx ins.imm ∧ first = ins.rb ∧
        funobj = none := by
    split_ifs at h with hn
    simp only [Option.some.injEq, Prod.mk.injEq] at h
    exact ⟨by simpa using hn, h.1.symm, h.2.1.symm, h.2.2.symm⟩
  simp only [VM.bytecodeCall, hfr] at h
  split at h
  · next hop => exact .inl ⟨.inl hop, hdirect h⟩
  · next hop => exact .inl ⟨.inr hop, hdirect h⟩
  · next hop =>
    split at h
    · next fn s hc =>
      simp only [Option.some.injEq, Prod.mk.injEq] at h
      exact .inr ⟨.inl hop, fn, s, hc, h.1.symm, h.2.1.symm, h.2.2.symm⟩
    · exact Option.noConfusion rfl (heq_of_eq h)
  · next hop =>
    split at h
    · next fn s hc =>
      simp only [Option.some.injEq, Prod.mk.injEq] at h
      exact .inr ⟨.inr hop, fn, s, hc, h.1.symm, h.2.1.symm, h.2.2.symm⟩
    · exact Option.noConfusion rfl (heq_of_eq h)
  · exact Option.noConfusion rfl (heq_of_eq h)

theorem InsnFits.push (h : InsnFits ex f ins g first funobj)
    (hop : ins.op = .call ∨ ins.op = .callr) : PushFits ex.m f g first ins.rc funobj := by
  have hno : ¬ (ins.op = .tailcall ∨ ins.op = .tailcallr) := by
    obtain hop | hop := hop <;> simp [hop]
  rwa [InsnFits, if_neg hno] at h

theorem InsnFits.tail (h : InsnFits ex f ins g first funobj)
    (hop : ins.op = .tailcall ∨ ins.op = .tailcallr) : TailFits ex.m f g first ins.rc funobj := by
  rwa [InsnFits, if_pos hop] at h

theorem inside_callInsn {pc : ℕ} (h : Calling ex vm fr frs)
    (hval : jelloBcValidateInsn ex.m (ex.func fr.f) ins pc = .ok ())
    (hcall : vm.bytecodeCall ins = some (g, first, funobj))
    (hfit : InsnFits ex fr.f ins g first funobj) (build : Build) :
    Spec (InRegs ex.m) (opDispatch ex build ins) (fun _ _ ↦ True) vm ∧
      Spec (InRegs ex.m) (inlineInsn ex build ins) (fun _ _ ↦ True) vm := by
  obtain ⟨hop, hn, rfl, rfl, rfl⟩ | ⟨hop, fn, s, hc, rfl, rfl, rfl⟩ :=
    bytecodeCall_cases h.top hcall
  · have hsrc := direct_range hval hop
    obtain hop | hop := hop
    · have hpush := hfit.push (.inl hop)
      simp only [opDispatch, controlOp, inlineInsn, inlineControl, hop]
      exact ⟨inside_opCall h hn hsrc hpush, inside_inlineCall h hn hsrc hpush⟩
    · have htail := hfit.tail (.inl hop)
      simp only [opDispatch, controlOp, inlineInsn, inlineControl, hop]
      exact ⟨inside_opTailcall h hn hsrc htail, inside_opTailcall h hn hsrc htail⟩
  · have hsrc := indirect_range hval hop
    have hread : Spec (InRegs ex.m) (calleeOf fr.rf ins.rb) (fun _ s' ↦ s' = vm.store) vm.store :=
      inside_calleeOf (h.hasRegs.nregs.symm ▸ hsrc.1)
    obtain rfl : s = vm.store := hread.2 _ _ hc
    obtain hop | hop := hop
    · have hpush := hfit.push (.inr hop)
      simp only [opDispatch, controlOp, inlineInsn, inlineControl, hop]
      exact ⟨inside_opCallr h hc hsrc hpush, inside_inlineCallr h hc hsrc hpush⟩
    · have htail := hfit.tail (.inr hop)
      simp only [opDispatch, controlOp, inlineInsn, inlineControl, hop]
      exact ⟨inside_opTailcallr h hc hsrc htail, inside_inlineTailcallr h hc hsrc htail⟩

end Calls

section Runs

variable {ex : Exec} {reference : Bool} {build : Build} {P : VM → Prop} {vm : VM}
  {ins : JelloInsn}

/-- In every run, a call that fits its callee passes nothing to a register that the frame of the
callee does not have, and reads the type of no such register. -/
theorem args_inside (hm : Accepted ex.m) (hrun : Fetches ex reference build P vm)
    (hfit : CallFits ex vm) (hins : vm.nextInsn ex = some ins)
    (hcall : (vm.bytecodeCall ins).isSome = true) :
    ∀ a ∈ (execInsn ex reference build vm).2, InRegs ex.m a := by
  obtain ⟨⟨g, first, funobj⟩, hcall⟩ := Option.isSome_iff_exists.mp hcall
  have hframed := hrun.framed hm.entry_lt
  suffices hspec : Spec (InRegs ex.m) (execInsn ex reference build) (fun _ _ ↦ True) vm from hspec.1
  cases hfr : vm.callFrames with
  | nil => simp [VM.nextInsn, hfr] at hins
  | cons fr frs =>
    have hget : (ex.func fr.f).insns[fr.pc]? = some ins := by simpa [VM.nextInsn, hfr] using hins
    have hpc : fr.pc < (ex.func fr.f).ninsns := (List.getElem?_eq_some_iff.mp hget).1
    have hlike := hframed fr (by simp [hfr])
    have hval := hm.insn (func_mem hlike.func) hget
    refine spec_bind.mpr (spec_bind.mpr (spec_topFrame hfr (spec_bind.mpr
      (spec_note.mpr ⟨.insn _ _ hpc, ?_⟩))))
    simp only [hget, setTopFrame, spec_bind, spec_change, spec_pure]
    have hnext : Calling ex { vm with callFrames := { fr with pc := fr.pc + 1 } ::
        vm.callFrames.tail } { fr with pc := fr.pc + 1 } frs := by
      refine ⟨hm, fun fr' hmem ↦ ?_, by simp [hfr]⟩
      obtain rfl | hmem := List.mem_cons.mp hmem
      · exact hlike.setPc _
      · exact hframed fr' (List.mem_of_mem_tail hmem)
    have hcall' : VM.bytecodeCall { vm with callFrames := { fr with pc := fr.pc + 1 } ::
        vm.callFrames.tail } ins = some (g, first, funobj) := by
      simpa only [VM.bytecodeCall, hfr] using hcall
    have hboth := inside_callInsn hnext hval hcall' (hfit fr frs ins g first funobj hfr hins hcall) build
    cases reference with
    | true => exact spec_bind.mpr (hboth.1.mono fun _ _ _ ↦ (spec_pure _).mpr trivial)
    | false => exact spec_bind.mpr (hboth.2.mono fun _ _ _ ↦ (spec_pure _).mpr trivial)

end Runs

def Access.outside (m : JelloBcModule) : Access → Bool
  | .slot rf r _ => rf.nregs ≤ r
  | .regType f r => (m.func f).nregs ≤ r
  | _ => false

theorem not_inside_of_outside {m : JelloBcModule} {a : Access} (h : a.outside m = true) :
    ¬ InRegs m a := by
  intro hin
  cases hin with
  | slot rf r width hr => exact absurd hr (not_lt.mpr (by simpa [Access.outside] using h))
  | regType f r hr => exact absurd hr (not_lt.mpr (by simpa [Access.outside] using h))
  | entry pool i len hi => exact Bool.noConfusion h
  | insn f pc hpc => exact Bool.noConfusion h

/-- A function of two registers that passes `n` of them to one with a single register. -/
def passModule (n : UInt8) : JelloBcModule :=
  { tailTryModule with
    types := [⟨.i32, 0⟩]
    funcs :=
      [{ regTypes := [0, 0]
         capStart := 0
         insns := [{ op := .constI32, a := 0, b := 0, c := 0, imm := 1 },
           { op := .constI32, a := 1, b := 0, c := 0, imm := 2 },
           { op := .call, a := 0, b := 0, c := n, imm := 48 },
           { op := .ret, a := 0, b := 0, c := 0, imm := 0 }]
         sourceFile := 0
         lines := [] },
       { regTypes := [0]
         capStart := 0
         insns := [{ op := .ret, a := 0, b := 0, c := 0, imm := 0 }]
         sourceFile := 0
         lines := [] }] }

theorem args_overrun : Accepted (passModule 2) ∧
    ∃ vm ins, Fetches (.alone (passModule 2)) false .switch (fun _ ↦ True) vm ∧
      vm.nextInsn (.alone (passModule 2)) = some ins ∧ (vm.bytecodeCall ins).isSome = true ∧
        ∃ a ∈ (execInsn (.alone (passModule 2)) false .switch vm).2, ¬ InRegs (passModule 2) a := by
  refine ⟨by decide, ?_⟩
  have hview : (result (fetchAt (.alone (passModule 2)) false .switch 2)
      jelloVmCreate).toOption.map (fun r ↦ (r.1,
        (r.2.nextInsn (.alone (passModule 2))).map fun ins ↦
          (r.2.bytecodeCall ins).isSome,
        (execInsn (.alone (passModule 2)) false .switch r.2).2.any
          (Access.outside (passModule 2)))) =
      some (((true, none), none), some true, true) := by decide +kernel
  obtain ⟨r, hr, hr'⟩ := result_of_view hview
  obtain ⟨st, vm⟩ := r
  simp only [Prod.mk.injEq] at hr'
  obtain ⟨rfl, hnext, hout⟩ := hr'
  obtain ⟨ins, hins, hcall⟩ := Option.map_eq_some_iff.mp hnext
  obtain ⟨a, ha, hbad⟩ := List.any_eq_true.mp hout
  exact ⟨vm, ins, fetches_of_fetchAt hr, hins, hcall, a, ha, not_inside_of_outside hbad⟩

theorem pass_fits (vm : VM) : CallFits (.alone (passModule 1)) vm := by
  intro fr frs ins g first funobj hfr hins hcall
  have hget : (passModule 1).func fr.f ∈ (passModule 1).funcs ∧
      ins ∈ ((passModule 1).func fr.f).insns := by
    simp only [VM.nextInsn, hfr] at hins
    exact ⟨func_mem (func_lt_of_insn hins), List.mem_of_getElem? hins⟩
  have hcheck : ∀ fn ∈ (passModule 1).funcs, ∀ i ∈ fn.insns, i.op ≠ .tailcall ∧ i.op ≠ .callr ∧
      i.op ≠ .tailcallr ∧ (i.op = .call → bytecodeIdx i.imm = 1 ∧ i.rc = 1) := by decide
  obtain ⟨htail, hcallr, htailr, hone⟩ := hcheck _ hget.1 _ hget.2
  obtain ⟨hop, -, rfl, -, rfl⟩ | ⟨hop, -⟩ := bytecodeCall_cases hfr hcall
  · have hop' : ins.op = .call := hop.resolve_right htail
    rw [InsnFits, if_neg (by simp [hop']), (hone hop').1, (hone hop').2]
    exact ⟨fun _ _ ↦ .inl (by decide), fun fn hfn ↦ Option.noConfusion rfl (heq_of_eq hfn)⟩
  · exact (hop.elim hcallr htailr).elim

theorem args_inside_one : ∃ vm,
    Fetches (.alone (passModule 1)) false .switch (fun _ ↦ True) vm ∧
      ∀ a ∈ (execInsn (.alone (passModule 1)) false .switch vm).2, InRegs (passModule 1) a := by
  have hview : (result (fetchAt (.alone (passModule 1)) false .switch 2)
      jelloVmCreate).toOption.map (fun r ↦ (r.1,
        (r.2.nextInsn (.alone (passModule 1))).map fun ins ↦
          (r.2.bytecodeCall ins).isSome)) =
      some (((true, none), none), some true) := by decide +kernel
  obtain ⟨r, hr, hr'⟩ := result_of_view hview
  obtain ⟨st, vm⟩ := r
  simp only [Prod.mk.injEq] at hr'
  obtain ⟨rfl, hnext⟩ := hr'
  obtain ⟨ins, hins, hcall⟩ := Option.map_eq_some_iff.mp hnext
  have hrun := fetches_of_fetchAt hr
  have hm : Accepted (passModule 1) := by decide
  exact ⟨vm, hrun, args_inside hm hrun (pass_fits vm) hins hcall⟩

end JelloVM
