import JelloVM.Jit.Sites
import JelloVM.Handlers

namespace JelloVM

open Function Logged

/-- A layout, with what the machine notes in it for the compiler. -/
structure CachedLayout where
  layout : FrameLayout
  jitIneligible : Bool
  jitSelfRec : Bool
  deriving DecidableEq, Repr

/-- What the scan of the instructions has seen. -/
structure Saw where
  self : Bool
  try_ : Bool
  nonSelfCall : Bool
  jmpIf : Bool
  backJmp : Bool
  deriving DecidableEq, Repr

section Scan

variable (m : JelloBcModule) (f : ℕ)

/-- The function that the register was given last, if a `CONST_FUN` gave it, is `f`. -/
def calleeIsSelf (calleeReg : ℕ) : ℕ → Bool
  | 0 => false
  | i + 1 =>
    let w := (m.func f).insn i
    if w.ra ≠ calleeReg then calleeIsSelf calleeReg i
    else w.op = .constFun ∧ !jelloIsNativeBuiltin w.imm ∧ bytecodeIdx w.imm < m.funcs.length ∧
      bytecodeIdx w.imm = f

/-- The scan of the instructions from `i` on; it stops at a `TRY`. -/
def scanFrom (heapRegs : Bool) : ℕ → List JelloInsn → Saw → Saw
  | _, [], s => s
  | i, ins :: rest, s =>
    match ins.op with
    | .try_ => { s with try_ := true }
    | .jmpIf => scanFrom heapRegs (i + 1) rest { s with jmpIf := true }
    | .jmp =>
      scanFrom heapRegs (i + 1) rest (if i32 ins.imm < 0 then { s with backJmp := true } else s)
    | .tailcall | .tailcallr =>
      scanFrom heapRegs (i + 1) rest { s with nonSelfCall := true }
    | .call =>
      let isSelf : Bool := !jelloIsNativeBuiltin ins.imm ∧ bytecodeIdx ins.imm < m.funcs.length ∧
        bytecodeIdx ins.imm = f ∧ ins.rc ≤ 16 ∧ !heapRegs
      scanFrom heapRegs (i + 1) rest
        (if isSelf then { s with self := true } else { s with nonSelfCall := true })
    | .callr =>
      let isSelf : Bool := calleeIsSelf m f ins.rb i ∧ ins.rc ≤ 16 ∧ !heapRegs
      scanFrom heapRegs (i + 1) rest
        (if isSelf then { s with self := true } else { s with nonSelfCall := true })
    | _ => scanFrom heapRegs (i + 1) rest s

/-- The layout that `vm_get_frame_layout` fills in. -/
def cachedLayout : CachedLayout :=
  let heapRegs := (regKinds m f).any Kind.isHeap
  let saw := scanFrom m f heapRegs 0 (m.func f).insns ⟨false, false, false, false, false⟩
  { layout := vmGetFrameLayout m f
    jitIneligible := saw.try_
    jitSelfRec := !saw.try_ ∧ ((saw.self ∧ !saw.nonSelfCall) ∨
      (saw.jmpIf ∧ saw.backJmp ∧ !saw.nonSelfCall ∧ !heapRegs)) }

end Scan

structure JelloJitCacheEntry (Code : Type) where
  mod : ℕ
  funcIdx : ℕ
  code : Code
  deriving DecidableEq, Repr

structure JelloJitHotTable where
  mod : ℕ
  counts : List UInt32
  deriving DecidableEq, Repr

/-- What a machine keeps of the modules that it has run. Modules are known by their addresses. -/
structure VmCaches (Code : Type) where
  frameLayouts : List (Option CachedLayout)
  frameLayoutsMod : ℕ
  cache : List (JelloJitCacheEntry Code)
  hot : List JelloJitHotTable
  deriving DecidableEq, Repr

/-- How a step can go wrong: `jello_vm_panic`, an access past the end of a table, or a step that
the host may not take. -/
inductive CacheFault
  | panic
  | outOfBounds
  | misuse
  deriving DecidableEq, Repr

abbrev CacheM (Code α : Type) := Logged CacheFault Empty (VmCaches Code) α

def jelloJitHotRejected : UInt32 := 0xfffffffe

section Ops

variable {Code : Type}

def vmFreeFrameLayouts : CacheM Code Unit :=
  change fun c ↦ { c with frameLayouts := [], frameLayoutsMod := 0 }

def vmPrepareFrameLayouts (p : ℕ) (m : JelloBcModule) : CacheM Code Unit := do
  let c ← read id
  if c.frameLayoutsMod = p then pure ()
  else do
    vmFreeFrameLayouts
    change fun c ↦
      { c with frameLayouts := List.replicate m.funcs.length none, frameLayoutsMod := p }

/-- `vm_get_frame_layout`, through the layouts that are kept -/
def keptFrameLayout (p : ℕ) (m : JelloBcModule) (f : ℕ) : CacheM Code CachedLayout := do
  vmPrepareFrameLayouts p m
  let c ← read id
  if c.frameLayouts.length ≠ m.funcs.length then fail .panic
  else
    match c.frameLayouts[f]? with
    | none => fail .panic
    | some (some fl) => pure fl
    | some none => do
      change fun c ↦ { c with frameLayouts := c.frameLayouts.set f (some (cachedLayout m f)) }
      pure (cachedLayout m f)

def jelloJitCacheLookup (p f : ℕ) : CacheM Code (Option Code) :=
  read fun c ↦ (c.cache.find? fun e ↦ e.mod = p ∧ e.funcIdx = f).map JelloJitCacheEntry.code

def jelloJitCacheInsert (p f : ℕ) (code : Code) : CacheM Code Unit :=
  change fun c ↦ { c with cache := ⟨p, f, code⟩ :: c.cache }

def jelloJitCacheDropModule (p : ℕ) : CacheM Code Unit :=
  change fun c ↦
    { c with
      cache := c.cache.filter fun e ↦ e.mod ≠ p
      hot := c.hot.map fun t ↦ if t.mod = p then ⟨0, []⟩ else t }

/-- The index of the table of the module, which is made if there is none. -/
def hotTableFor (p : ℕ) (m : JelloBcModule) : CacheM Code ℕ := do
  let c ← read id
  match c.hot.findIdx? fun t ↦ t.mod = p with
  | some i => pure i
  | none => do
    change fun c ↦ { c with hot := c.hot ++ [⟨p, List.replicate m.funcs.length 0⟩] }
    pure c.hot.length

/-- The place of the counter and what it holds. -/
def jelloJitHotCounter (p : ℕ) (m : JelloBcModule) (f : ℕ) :
    CacheM Code (Option (ℕ × UInt32)) := do
  if m.funcs.length ≤ f then pure none
  else do
    let i ← hotTableFor p m
    let c ← read id
    match (c.hot[i]?).bind fun t ↦ t.counts[f]? with
    | none => fail .outOfBounds
    | some x => pure (some (i, x))

def setHotCounter (i f : ℕ) (x : UInt32) : CacheM Code Unit :=
  change fun c ↦ { c with hot := c.hot.modify i fun t ↦ { t with counts := t.counts.set f x } }

def jelloJitHotIsRejected (p : ℕ) (m : JelloBcModule) (f : ℕ) : CacheM Code Bool := do
  let hot ← jelloJitHotCounter p m f
  pure (hot.any fun r ↦ r.2 = jelloJitHotRejected)

def jelloJitHotMarkRejected (p : ℕ) (m : JelloBcModule) (f : ℕ) : CacheM Code Unit := do
  match ← jelloJitHotCounter p m f with
  | none => pure ()
  | some r => setHotCounter r.1 f jelloJitHotRejected

/-- The code generator: what it makes of the intermediate code, the layout and the module, if it
succeeds. -/
abbrev EmitFunc (Code : Type) := List JirInsn → CachedLayout → JelloBcModule → ℕ → Option Code

variable (emitFunc : EmitFunc Code)

/-- `jello_jit_compile_function`; `mapped` says whether there is room for the code. -/
def compileFunction (p : ℕ) (m : JelloBcModule) (f : ℕ) (mapped : Bool) :
    CacheM Code (Option Code) := do
  if ← jelloJitHotIsRejected p m f then pure none
  else
    match jelloJitIrBuild m f with
    | .error _ => do
      jelloJitHotMarkRejected p m f
      pure none
    | .ok ir =>
      if 0 < ir.length ∧ ir.length < nslow ir * 3 then do
        jelloJitHotMarkRejected p m f
        pure none
      else do
        let fl ← keptFrameLayout p m f
        match (emitFunc ir fl m f).filter fun _ ↦ mapped with
        | none => do
          jelloJitHotMarkRejected p m f
          pure none
        | some code => do
          jelloJitCacheInsert p f code
          pure (some code)

/-- Counts one more entry, and compiles when there were enough of them. -/
def countAndCompile (threshold : UInt32) (p : ℕ) (m : JelloBcModule) (f : ℕ) (mapped : Bool) :
    CacheM Code (Option Code) := do
  match ← jelloJitHotCounter p m f with
  | none => pure none
  | some r =>
    if r.2 = jelloJitHotRejected then pure none
    else do
      let x := if r.2 < jelloJitHotRejected then r.2 + 1 else r.2
      setHotCounter r.1 f x
      if x < threshold then pure none
      else compileFunction emitFunc p m f mapped

def jelloJitOnEnter (threshold : UInt32) (p : ℕ) (m : JelloBcModule) (f : ℕ) (mapped : Bool) :
    CacheM Code (Option CachedLayout × Option Code) := do
  let fl ← keptFrameLayout p m f
  if fl.jitIneligible then pure (some fl, none)
  else if ← jelloJitHotIsRejected p m f then pure (some fl, none)
  else
    match ← jelloJitCacheLookup p f with
    | some code => pure (some fl, some code)
    | none =>
      if fl.jitSelfRec then do
        let code ← compileFunction emitFunc p m f mapped
        pure (some fl, code)
      else do
        let code ← countAndCompile emitFunc threshold p m f mapped
        pure (some fl, code)

def jelloJitOnBackedge (threshold : UInt32) (p : ℕ) (m : JelloBcModule) (f : ℕ)
    (mapped : Bool) : CacheM Code (Option Code) := do
  if ← jelloJitHotIsRejected p m f then pure none
  else
    match ← jelloJitCacheLookup p f with
    | some code => pure (some code)
    | none => countAndCompile emitFunc threshold p m f mapped

def jelloVmInvalidateFrameCache : CacheM Code Unit := do
  let c ← read id
  if c.frameLayoutsMod ≠ 0 then jelloJitCacheDropModule c.frameLayoutsMod else pure ()
  vmFreeFrameLayouts

end Ops

/-- The modules in memory, the caches, and the modules that were asked about since the last
`jello_vm_invalidate_frame_cache`. -/
structure Host (Code : Type) where
  mods : ℕ → Option JelloBcModule
  used : ℕ → Bool
  caches : VmCaches Code

def Host.start (Code : Type) : Host Code := ⟨fun _ ↦ none, fun _ ↦ false, ⟨[], 0, [], []⟩⟩

/-- What the host and the runs of its modules do. -/
inductive HostEvent
  | load (p : ℕ) (m : JelloBcModule)
  | layout (p f : ℕ)
  | enter (p f : ℕ) (mapped : Bool)
  | backedge (p f : ℕ) (mapped : Bool)
  | lookup (p f : ℕ)
  | invalidate
  | free (p : ℕ)

section Events

variable {Code : Type} (emitFunc : EmitFunc Code) (threshold : UInt32)

abbrev HostM (Code α : Type) := Logged CacheFault Empty (Host Code) α

def onCaches {α : Type} (x : CacheM Code α) : HostM Code α :=
  onPart Host.caches (fun h c ↦ { h with caches := c }) x

/-- A part of a run of the module at `p`. -/
def asked {α : Type} (p : ℕ) (x : JelloBcModule → CacheM Code α) : HostM Code α := do
  let h ← read id
  match h.mods p with
  | none => fail .misuse
  | some m => do
    change fun h ↦ { h with used := update h.used p true }
    onCaches (x m)

/-- A step, with the layout and the code that it returned. A module is freed after the caches
were invalidated, with no run of it in between; what is loaded may lie where another module lay. -/
def hostStep : HostEvent → HostM Code (Option CachedLayout × Option Code)
  | .load p m => do
    let h ← read id
    if p = 0 ∨ (h.mods p).isSome then fail .misuse
    else do
      change fun h ↦ { h with mods := update h.mods p (some m) }
      pure (none, none)
  | .layout p f => do
    let fl ← asked p fun m ↦ keptFrameLayout p m f
    pure (some fl, none)
  | .enter p f mapped => asked p fun m ↦ jelloJitOnEnter emitFunc threshold p m f mapped
  | .backedge p f mapped => do
    let code ← asked p fun m ↦ jelloJitOnBackedge emitFunc threshold p m f mapped
    pure (none, code)
  | .lookup p f => do
    let code ← asked p fun _ ↦ jelloJitCacheLookup p f
    pure (none, code)
  | .invalidate => do
    onCaches jelloVmInvalidateFrameCache
    change fun h ↦ { h with used := fun _ ↦ false }
    pure (none, none)
  | .free p => do
    let h ← read id
    if (h.mods p).isNone ∨ h.used p then fail .misuse
    else do
      change fun h ↦ { h with mods := update h.mods p none }
      pure (none, none)

/-- The hosts that are reached by steps that meet the condition. -/
inductive HostRun (C : Host Code → HostEvent → Prop) : Host Code → Prop
  | start : HostRun C (Host.start Code)
  | step {h h' : Host Code} {ev : HostEvent} {ans : Option CachedLayout × Option Code}
      (hrun : HostRun C h) (hC : C h ev)
      (hstep : result (hostStep emitFunc threshold ev) h = .ok (ans, h')) : HostRun C h'

end Events

/-- The code that `jello_jit_compile_function` makes of a function. -/
def builtCode {Code : Type} (emitFunc : EmitFunc Code) (m : JelloBcModule) (f : ℕ) : Option Code :=
  match jelloJitIrBuild m f with
  | .error _ => none
  | .ok ir =>
    if 0 < ir.length ∧ ir.length < nslow ir * 3 then none
    else emitFunc ir (cachedLayout m f) m f

section Caches

variable {Code : Type} {emitFunc : EmitFunc Code} {threshold : UInt32}
  {mods : ℕ → Option JelloBcModule} {p f : ℕ} {m : JelloBcModule} {c c' : VmCaches Code}

/-- The layouts that are kept are those of the module. -/
def LayoutsOk (mods : ℕ → Option JelloBcModule) (c : VmCaches Code) : Prop :=
  c.frameLayoutsMod ≠ 0 → ∃ m, mods c.frameLayoutsMod = some m ∧
    ∀ f fl, c.frameLayouts[f]? = some (some fl) → fl = cachedLayout m f

/-- The code that is kept is that of the modules. -/
def CodeOk (emitFunc : EmitFunc Code) (mods : ℕ → Option JelloBcModule) (c : VmCaches Code) :
    Prop :=
  ∀ e ∈ c.cache, ∃ m, mods e.mod = some m ∧ builtCode emitFunc m e.funcIdx = some e.code

/-- What a part of a run of the module `m` at `p` does to the caches. -/
structure Serves (emitFunc : EmitFunc Code) (mods : ℕ → Option JelloBcModule) (p : ℕ)
    (m : JelloBcModule) (c c' : VmCaches Code) : Prop where
  layouts : LayoutsOk mods c'
  mod : c'.frameLayoutsMod = c.frameLayoutsMod ∨ c'.frameLayoutsMod = p
  code : ∀ e ∈ c'.cache, e ∈ c.cache ∨
    e.mod = p ∧ builtCode emitFunc m e.funcIdx = some e.code

theorem Serves.refl (h : LayoutsOk mods c) : Serves emitFunc mods p m c c :=
  ⟨h, .inl rfl, fun _ he ↦ .inl he⟩

theorem Serves.trans {c'' : VmCaches Code} (h : Serves emitFunc mods p m c c')
    (h' : Serves emitFunc mods p m c' c'') : Serves emitFunc mods p m c c'' := by
  refine ⟨h'.layouts, ?_, fun e he ↦ ?_⟩
  · rcases h'.mod with hmod | hmod
    · rw [hmod]
      exact h.mod
    · exact .inr hmod
  · rcases h'.code e he with hold | hnew
    · exact h.code e hold
    · exact .inr hnew

/-- Only the counters change. -/
def SameCaches (c c' : VmCaches Code) : Prop :=
  c'.frameLayouts = c.frameLayouts ∧ c'.frameLayoutsMod = c.frameLayoutsMod ∧ c'.cache = c.cache

theorem SameCaches.trans {c'' : VmCaches Code} (h : SameCaches c c') (h' : SameCaches c' c'') :
    SameCaches c c'' := ⟨h'.1.trans h.1, h'.2.1.trans h.2.1, h'.2.2.trans h.2.2⟩

instance : IsPreorder (VmCaches Code) SameCaches where
  refl _ := ⟨rfl, rfl, rfl⟩
  trans _ _ _ := SameCaches.trans

theorem SameCaches.layoutsOk (h : SameCaches c c') (hl : LayoutsOk mods c) :
    LayoutsOk mods c' := by
  unfold LayoutsOk
  rwa [h.1, h.2.1]

theorem SameCaches.serves (h : SameCaches c c') (hl : LayoutsOk mods c) :
    Serves emitFunc mods p m c c' :=
  ⟨h.layoutsOk hl, .inl h.2.1, fun _ he ↦ .inl (h.2.2 ▸ he)⟩

theorem same_hotTableFor : Keeps (fun _ ↦ True) SameCaches (hotTableFor p m : CacheM Code ℕ) := by
  refine keeps_bind (keeps_read _) fun c ↦ ?_
  cases c.hot.findIdx? fun t ↦ t.mod = p with
  | some i => exact keeps_pure i
  | none => exact keeps_bind (keeps_change fun _ ↦ ⟨rfl, rfl, rfl⟩) fun _ ↦ keeps_pure _

theorem same_jelloJitHotCounter :
    Keeps (fun _ ↦ True) SameCaches (jelloJitHotCounter p m f : CacheM Code _) := by
  refine keeps_ite (fun _ ↦ keeps_pure _) fun _ ↦ keeps_bind same_hotTableFor fun i ↦ ?_
  refine keeps_bind (keeps_read _) fun c ↦ ?_
  cases (c.hot[i]?).bind fun t ↦ t.counts[f]? with
  | none => exact keeps_fail _
  | some x => exact keeps_pure _

theorem same_setHotCounter (i : ℕ) (x : UInt32) :
    Keeps (fun _ ↦ True) SameCaches (setHotCounter i f x : CacheM Code Unit) :=
  keeps_change fun _ ↦ ⟨rfl, rfl, rfl⟩

theorem same_jelloJitHotIsRejected :
    Keeps (fun _ ↦ True) SameCaches (jelloJitHotIsRejected p m f : CacheM Code Bool) :=
  keeps_bind same_jelloJitHotCounter fun _ ↦ keeps_pure _

theorem same_jelloJitHotMarkRejected :
    Keeps (fun _ ↦ True) SameCaches (jelloJitHotMarkRejected p m f : CacheM Code Unit) := by
  refine keeps_bind same_jelloJitHotCounter fun r ↦ ?_
  cases r with
  | none => exact keeps_pure _
  | some r => exact same_setHotCounter _ _

theorem ends_vmPrepareFrameLayouts (emitFunc : EmitFunc Code) (hm : mods p = some m)
    (hl : LayoutsOk mods c) :
    Ends (vmPrepareFrameLayouts p m) (fun _ c' ↦
      Serves emitFunc mods p m c c' ∧ c'.frameLayoutsMod = p) c := by
  refine spec_bind.mpr ((spec_read _).mpr (spec_ite.mpr ⟨fun hp ↦ ?_, fun _ ↦ ?_⟩))
  · exact (spec_pure _).mpr ⟨.refl hl, hp⟩
  · refine spec_bind.mpr ((spec_change _).mpr ((spec_change _).mpr ?_))
    refine ⟨⟨fun _ ↦ ⟨m, hm, fun f fl hfl ↦ ?_⟩, .inr rfl, fun _ he ↦ .inl he⟩, rfl⟩
    have hnone : (List.replicate m.funcs.length (none : Option CachedLayout))[f]? =
        some (some fl) := hfl
    rw [List.getElem?_replicate] at hnone
    split_ifs at hnone
    exact Option.noConfusion rfl (heq_of_eq (Option.some.inj hnone))

theorem ends_keptFrameLayout (emitFunc : EmitFunc Code) (hp : p ≠ 0) (hm : mods p = some m)
    (hl : LayoutsOk mods c) :
    Ends (keptFrameLayout p m f) (fun fl c' ↦
      fl = cachedLayout m f ∧ Serves emitFunc mods p m c c') c := by
  refine spec_bind.mpr ((ends_vmPrepareFrameLayouts emitFunc hm hl).mono fun _ c₁ h₁ ↦ ?_)
  obtain ⟨hserves, hmod⟩ := h₁
  obtain ⟨m', hm', hkept⟩ := hserves.layouts (hmod ▸ hp)
  obtain rfl : m = m' := by
    rw [hmod, hm] at hm'
    exact Option.some.inj hm'
  refine spec_bind.mpr ((spec_read _).mpr (spec_ite.mpr ⟨fun _ ↦ spec_fail _, fun _ ↦ ?_⟩))
  cases hfl : (id c₁).frameLayouts[f]? with
  | none => exact spec_fail _
  | some o =>
    cases o with
    | some fl => exact (spec_pure _).mpr ⟨hkept f fl hfl, hserves⟩
    | none =>
      refine spec_bind.mpr ((spec_change _).mpr ((spec_pure _).mpr ⟨rfl, hserves.trans ?_⟩))
      refine ⟨fun _ ↦ ⟨m, hmod ▸ hm, fun g fl hg ↦ ?_⟩, .inl rfl, fun _ he ↦ .inl he⟩
      have hg' : (c₁.frameLayouts.set f (some (cachedLayout m f)))[g]? = some (some fl) := hg
      rw [List.getElem?_set] at hg'
      split_ifs at hg' with hfg
      · subst hfg
        exact (Option.some.inj (Option.some.inj hg')).symm
      · exact hkept g fl hg'

/-- What a part of a run returns as the code of the function was in the cache or is new. -/
def Gives (emitFunc : EmitFunc Code) (m : JelloBcModule) (p f : ℕ) (c : VmCaches Code)
    (r : Option Code) : Prop :=
  ∀ code, r = some code → builtCode emitFunc m f = some code ∨ ⟨p, f, code⟩ ∈ c.cache

theorem gives_none : Gives emitFunc m p f c none :=
  fun _ h ↦ Option.noConfusion rfl (heq_of_eq h)

theorem Gives.congr {r : Option Code} (h : Gives emitFunc m p f c' r) (hs : SameCaches c c') :
    Gives emitFunc m p f c r := fun code hr ↦ (h code hr).imp_right (hs.2.2 ▸ ·)

theorem ends_jelloJitCacheLookup (emitFunc : EmitFunc Code) (m : JelloBcModule)
    (hl : LayoutsOk mods c) :
    Ends (jelloJitCacheLookup p f) (fun r c' ↦
      Serves emitFunc mods p m c c' ∧ Gives emitFunc m p f c r ∧ c' = c) c := by
  refine (spec_read _).mpr ⟨.refl hl, fun code hcode ↦ .inr ?_, rfl⟩
  obtain ⟨e, he, rfl⟩ := Option.map_eq_some_iff.mp hcode
  obtain ⟨rfl, rfl⟩ : e.mod = p ∧ e.funcIdx = f := by simpa using List.find?_some he
  exact List.mem_of_find?_eq_some he

/-- Whatever `x` does to the counters alone, the rest is as `x` was given it. -/
theorem ends_after {α β : Type} {x : CacheM Code α} {g : α → CacheM Code β}
    {Q : β → VmCaches Code → Prop} (hx : Keeps (fun _ ↦ True) SameCaches x)
    (h : ∀ a c', SameCaches c c' → Ends (g a) Q c') : Ends (x >>= g) Q c :=
  spec_bind.mpr (hx.then fun a c' hs ↦ h a c' hs)

/-- What a part of a run does, and what it returns. -/
def ServesWith (emitFunc : EmitFunc Code) (mods : ℕ → Option JelloBcModule) (p : ℕ)
    (m : JelloBcModule) (f : ℕ) (c : VmCaches Code) (r : Option Code) (c' : VmCaches Code) :
    Prop :=
  Serves emitFunc mods p m c c' ∧ Gives emitFunc m p f c r

theorem ServesWith.after {r : Option Code} {c'' : VmCaches Code} (hl : LayoutsOk mods c)
    (hs : SameCaches c c') (h : ServesWith emitFunc mods p m f c' r c'') :
    ServesWith emitFunc mods p m f c r c'' :=
  ⟨(hs.serves hl).trans h.1, h.2.congr hs⟩


theorem ends_rejects (emitFunc : EmitFunc Code) (hl : LayoutsOk mods c) :
    Ends (do
      jelloJitHotMarkRejected p m f
      pure (none : Option Code)) (fun r c' ↦ Serves emitFunc mods p m c c' ∧ r = none) c :=
  ends_after same_jelloJitHotMarkRejected fun _ _ hs ↦ (spec_pure _).mpr ⟨hs.serves hl, rfl⟩

theorem servesWith_none (h : Serves emitFunc mods p m c c') :
    ServesWith emitFunc mods p m f c none c' := ⟨h, gives_none⟩

theorem ends_compileFunction (hp : p ≠ 0) (hm : mods p = some m) (hl : LayoutsOk mods c)
    (mapped : Bool) :
    Ends (compileFunction emitFunc p m f mapped) (ServesWith emitFunc mods p m f c) c := by
  refine ends_after same_jelloJitHotIsRejected fun b c₁ hs ↦ ?_
  have hl₁ := hs.layoutsOk hl
  have hrejects : Ends (do
      jelloJitHotMarkRejected p m f
      pure (none : Option Code)) (ServesWith emitFunc mods p m f c) c₁ := by
    refine (ends_rejects emitFunc hl₁).mono ?_
    rintro r c' ⟨h, rfl⟩
    exact servesWith_none ((hs.serves hl).trans h)
  refine spec_ite.mpr ⟨fun _ ↦ (spec_pure _).mpr (servesWith_none (hs.serves hl)), fun _ ↦ ?_⟩
  cases hir : jelloJitIrBuild m f with
  | error e => exact hrejects
  | ok ir =>
    refine spec_ite.mpr ⟨fun _ ↦ hrejects, fun hdense ↦ ?_⟩
    refine spec_bind.mpr ((ends_keptFrameLayout emitFunc hp hm hl₁).mono ?_)
    rintro fl c₂ ⟨rfl, hserves⟩
    have hserves' := (hs.serves hl).trans hserves
    cases hcode : (emitFunc ir (cachedLayout m f) m f).filter fun _ ↦ mapped with
    | none =>
      refine (ends_rejects emitFunc hserves.layouts).mono ?_
      rintro r c' ⟨h, rfl⟩
      exact servesWith_none (hserves'.trans h)
    | some code =>
      have hemit := (Option.filter_eq_some_iff.mp hcode).1
      have hbuilt : builtCode emitFunc m f = some code := by
        rw [builtCode, hir]
        simp only [if_neg hdense, hemit]
      refine spec_bind.mpr ((spec_change _).mpr ((spec_pure _).mpr ⟨hserves'.trans ?_, ?_⟩))
      · refine ⟨hserves.layouts, .inl rfl, fun e he ↦ ?_⟩
        rcases List.mem_cons.mp he with rfl | he
        · exact .inr ⟨rfl, hbuilt⟩
        · exact .inl he
      · rintro code' ⟨⟩
        exact .inl hbuilt

theorem ends_countAndCompile (hp : p ≠ 0) (hm : mods p = some m) (hl : LayoutsOk mods c)
    (mapped : Bool) :
    Ends (countAndCompile emitFunc threshold p m f mapped) (ServesWith emitFunc mods p m f c)
      c := by
  refine ends_after same_jelloJitHotCounter fun r c₁ hs ↦ ?_
  cases r with
  | none => exact (spec_pure _).mpr (servesWith_none (hs.serves hl))
  | some r =>
    refine spec_ite.mpr ⟨fun _ ↦ (spec_pure _).mpr (servesWith_none (hs.serves hl)), fun _ ↦ ?_⟩
    refine ends_after (same_setHotCounter _ _) fun _ c₂ hs₂ ↦ ?_
    have hs' : SameCaches c c₂ := hs.trans hs₂
    refine spec_ite.mpr ⟨fun _ ↦ (spec_pure _).mpr (servesWith_none (hs'.serves hl)), fun _ ↦ ?_⟩
    exact (ends_compileFunction hp hm (hs'.layoutsOk hl) mapped).mono fun _ _ h ↦ h.after hl hs'

theorem ends_lookupOr {α : Type} {y : Option Code → α} {x : CacheM Code α}
    {Q : α → VmCaches Code → Prop} (hl : LayoutsOk mods c)
    (hfound : ∀ code, ServesWith emitFunc mods p m f c (some code) c → Q (y (some code)) c)
    (hx : Ends x Q c) :
    Ends (do
      match ← jelloJitCacheLookup p f with
      | some code => pure (y (some code))
      | none => x) Q c := by
  refine spec_bind.mpr ((ends_jelloJitCacheLookup emitFunc m hl).mono ?_)
  rintro r c' ⟨hserves, hgives, rfl⟩
  cases r with
  | some code => exact (spec_pure _).mpr (hfound code ⟨hserves, hgives⟩)
  | none => exact hx

theorem ends_jelloJitOnBackedge (hp : p ≠ 0) (hm : mods p = some m) (hl : LayoutsOk mods c)
    (mapped : Bool) :
    Ends (jelloJitOnBackedge emitFunc threshold p m f mapped)
      (ServesWith emitFunc mods p m f c) c := by
  refine ends_after same_jelloJitHotIsRejected fun b c₁ hs ↦ ?_
  have hl₁ := hs.layoutsOk hl
  refine spec_ite.mpr ⟨fun _ ↦ (spec_pure _).mpr (servesWith_none (hs.serves hl)), fun _ ↦ ?_⟩
  refine ends_lookupOr (y := id) hl₁ (fun code h ↦ h.after hl hs) ?_
  exact (ends_countAndCompile hp hm hl₁ mapped).mono fun _ _ h ↦ h.after hl hs

theorem ends_jelloJitOnEnter (hp : p ≠ 0) (hm : mods p = some m) (hl : LayoutsOk mods c)
    (mapped : Bool) :
    Ends (jelloJitOnEnter emitFunc threshold p m f mapped) (fun r c' ↦
      r.1 = some (cachedLayout m f) ∧ ServesWith emitFunc mods p m f c r.2 c') c := by
  refine spec_bind.mpr ((ends_keptFrameLayout emitFunc hp hm hl).mono ?_)
  rintro fl c₁ ⟨rfl, hserves⟩
  have hl₁ := hserves.layouts
  refine spec_ite.mpr ⟨fun _ ↦ (spec_pure _).mpr ⟨rfl, servesWith_none hserves⟩, fun _ ↦ ?_⟩
  refine ends_after same_jelloJitHotIsRejected fun b c₂ hs ↦ ?_
  have hl₂ := hs.layoutsOk hl₁
  have hserves₂ := hserves.trans (hs.serves hl₁)
  have hthen {r : Option Code} {c' : VmCaches Code}
      (h : ServesWith emitFunc mods p m f c₂ r c') : ServesWith emitFunc mods p m f c r c' := by
    refine ⟨hserves₂.trans h.1, fun code hcode ↦ ?_⟩
    rcases h.2 code hcode with hbuilt | hmem
    · exact .inl hbuilt
    · rcases hserves₂.code _ hmem with hold | hnew
      · exact .inr hold
      · exact .inl hnew.2
  refine spec_ite.mpr ⟨fun _ ↦ (spec_pure _).mpr ⟨rfl, servesWith_none hserves₂⟩, fun _ ↦ ?_⟩
  refine ends_lookupOr (y := fun code ↦ (some (cachedLayout m f), code)) hl₂
    (fun code h ↦ ⟨rfl, hthen h⟩) (spec_ite.mpr ⟨fun _ ↦ ?_, fun _ ↦ ?_⟩)
  · refine spec_bind.mpr ((ends_compileFunction hp hm hl₂ mapped).mono fun r c' h ↦ ?_)
    exact (spec_pure _).mpr ⟨rfl, hthen h⟩
  · refine spec_bind.mpr ((ends_countAndCompile hp hm hl₂ mapped).mono fun r c' h ↦ ?_)
    exact (spec_pure _).mpr ⟨rfl, hthen h⟩

theorem ends_jelloVmInvalidateFrameCache :
    Ends jelloVmInvalidateFrameCache (fun (_ : Unit) (c' : VmCaches Code) ↦ c'.frameLayoutsMod = 0 ∧
      ∀ e, e ∈ c'.cache ↔ e ∈ c.cache ∧ (c.frameLayoutsMod = 0 ∨ e.mod ≠ c.frameLayoutsMod))
      c := by
  refine spec_bind.mpr ((spec_read _).mpr (spec_ite.mpr ⟨fun hmod ↦ ?_, fun hmod ↦ ?_⟩))
  · refine spec_bind.mpr ((spec_change _).mpr ((spec_change _).mpr ⟨rfl, fun e ↦ ?_⟩))
    have hmod' : c.frameLayoutsMod ≠ 0 := hmod
    simp [hmod']
  · refine (spec_change _).mpr ⟨rfl, fun e ↦ ?_⟩
    have hmod' : c.frameLayoutsMod = 0 := by simpa using hmod
    simp [hmod']

end Caches

section Hosts

variable {Code : Type} {emitFunc : EmitFunc Code} {threshold : UInt32} {h h' : Host Code}
  {ev : HostEvent} {ans : Option CachedLayout × Option Code}

def HostEvent.asks : HostEvent → Option (ℕ × ℕ)
  | .layout p f | .enter p f _ | .backedge p f _ | .lookup p f => some (p, f)
  | _ => none

/-- What holds of the layouts in every run. -/
structure LayoutInv (h : Host Code) : Prop where
  null : h.mods 0 = none
  used : h.caches.frameLayoutsMod ≠ 0 → h.used h.caches.frameLayoutsMod = true
  layouts : LayoutsOk h.mods h.caches

/-- What a part of a run of a module does. -/
structure AsksDone (emitFunc : EmitFunc Code) (p f : ℕ) (h : Host Code)
    (ans : Option CachedLayout × Option Code) (h' : Host Code) : Prop where
  mods : h'.mods = h.mods
  used : h'.used = update h.used p true
  module : ∃ m, h.mods p = some m ∧ (∀ fl, ans.1 = some fl → fl = cachedLayout m f) ∧
    ServesWith emitFunc h.mods p m f h.caches ans.2 h'.caches

theorem AsksDone.layoutInv {p f : ℕ} (hd : AsksDone emitFunc p f h ans h') (hi : LayoutInv h) :
    LayoutInv h' := by
  obtain ⟨m, -, -, hserves, -⟩ := hd.module
  refine ⟨by rw [hd.mods, hi.null], fun hne ↦ ?_, by rw [hd.mods]; exact hserves.layouts⟩
  rw [hd.used]
  rcases hserves.mod with hmod | hmod
  · rw [hmod] at hne ⊢
    rw [update_apply]
    split_ifs
    · rfl
    · exact hi.used hne
  · rw [hmod, update_self]

theorem ends_asked {α : Type} {p f : ℕ} {x : JelloBcModule → CacheM Code α}
    {y : α → Option CachedLayout × Option Code} (hi : LayoutInv h)
    (hx : ∀ m, p ≠ 0 → h.mods p = some m → Ends (x m) (fun a c' ↦
      (∀ fl, (y a).1 = some fl → fl = cachedLayout m f) ∧
        ServesWith emitFunc h.mods p m f h.caches (y a).2 c') h.caches) :
    Ends (asked p x) (fun a h' ↦ AsksDone emitFunc p f h (y a) h') h := by
  refine spec_bind.mpr ((spec_read _).mpr ?_)
  cases hm : (id h).mods p with
  | none => exact spec_fail _
  | some m =>
    have hp : p ≠ 0 := by
      rintro rfl
      simp [hi.null] at hm
    refine spec_bind.mpr ((spec_change _).mpr (spec_onPart ((hx m hp hm).mono fun a c' h ↦ ?_)))
    exact ⟨rfl, rfl, m, hm, h⟩

theorem ends_hostStep_asks {p f : ℕ} (hi : LayoutInv h) (hev : ev.asks = some (p, f)) :
    Ends (hostStep emitFunc threshold ev) (AsksDone emitFunc p f h) h := by
  cases ev <;> simp only [HostEvent.asks, Option.some.injEq, Prod.mk.injEq, reduceCtorEq] at hev
  case layout p f =>
    obtain ⟨rfl, rfl⟩ := hev
    refine spec_bind.mpr ((ends_asked (y := fun fl ↦ (some fl, none)) hi
      fun m hp hm ↦ ?_).mono fun _ _ h ↦ (spec_pure _).mpr h)
    refine (ends_keptFrameLayout emitFunc hp hm hi.layouts).mono ?_
    rintro _ c' ⟨rfl, hserves⟩
    exact ⟨fun _ h ↦ (Option.some.inj h).symm, servesWith_none hserves⟩
  case enter p f mapped =>
    obtain ⟨rfl, rfl⟩ := hev
    refine ends_asked (y := id) hi fun m hp hm ↦ ?_
    refine (ends_jelloJitOnEnter hp hm hi.layouts mapped).mono fun r c' hr ↦ ⟨fun fl hfl ↦ ?_, hr.2⟩
    exact Option.some.inj (hfl.symm.trans hr.1)
  case backedge p f mapped =>
    obtain ⟨rfl, rfl⟩ := hev
    refine spec_bind.mpr ((ends_asked (y := fun code ↦ (none, code)) hi
      fun m hp hm ↦ ?_).mono fun _ _ h ↦ (spec_pure _).mpr h)
    exact (ends_jelloJitOnBackedge hp hm hi.layouts mapped).mono fun r c' hr ↦
      ⟨fun _ h ↦ Option.noConfusion rfl (heq_of_eq h), hr⟩
  case lookup p f =>
    obtain ⟨rfl, rfl⟩ := hev
    refine spec_bind.mpr ((ends_asked (y := fun code ↦ (none, code)) hi
      fun m hp hm ↦ ?_).mono fun _ _ h ↦ (spec_pure _).mpr h)
    exact (ends_jelloJitCacheLookup emitFunc m hi.layouts).mono fun r c' hr ↦
      ⟨fun _ h ↦ Option.noConfusion rfl (heq_of_eq h), hr.1, hr.2.1⟩

/-- When a module is freed, there is no code of it in the cache. -/
def FreesForgotten (h : Host Code) (ev : HostEvent) : Prop :=
  ∀ p, ev = .free p → ∀ e ∈ h.caches.cache, e.mod ≠ p

theorem layoutsOk_update {mods : ℕ → Option JelloBcModule} {c : VmCaches Code} {p : ℕ}
    (hl : LayoutsOk mods c) (hp : c.frameLayoutsMod ≠ 0 → c.frameLayoutsMod ≠ p)
    (o : Option JelloBcModule) : LayoutsOk (update mods p o) c := by
  intro hne
  rw [update_of_ne (hp hne)]
  exact hl hne

theorem codeOk_update {mods : ℕ → Option JelloBcModule} {c : VmCaches Code} {p : ℕ}
    (hc : CodeOk emitFunc mods c) (hp : ∀ e ∈ c.cache, e.mod ≠ p) (o : Option JelloBcModule) :
    CodeOk emitFunc (update mods p o) c := by
  intro e he
  rw [update_of_ne (hp e he)]
  exact hc e he

theorem ends_load {p : ℕ} {m : JelloBcModule} :
    Ends (hostStep emitFunc threshold (.load p m)) (fun ans h' ↦ ans = (none, none) ∧ p ≠ 0 ∧
      h.mods p = none ∧ h' = { h with mods := update h.mods p (some m) }) h := by
  refine spec_bind.mpr ((spec_read _).mpr (spec_ite.mpr ⟨fun _ ↦ spec_fail _, fun hno ↦ ?_⟩))
  have hnone : h.mods p = none := Option.not_isSome_iff_eq_none.mp fun hs ↦ hno (.inr hs)
  exact spec_bind.mpr ((spec_change _).mpr ((spec_pure _).mpr
    ⟨rfl, fun hp ↦ hno (.inl hp), hnone, rfl⟩))

theorem ends_free {p : ℕ} :
    Ends (hostStep emitFunc threshold (.free p)) (fun ans h' ↦ ans = (none, none) ∧
      h.used p = false ∧ h' = { h with mods := update h.mods p none }) h := by
  refine spec_bind.mpr ((spec_read _).mpr (spec_ite.mpr ⟨fun _ ↦ spec_fail _, fun hno ↦ ?_⟩))
  have hunused : h.used p = false := Bool.eq_false_iff.mpr fun hu ↦ hno (.inr hu)
  exact spec_bind.mpr ((spec_change _).mpr ((spec_pure _).mpr ⟨rfl, hunused, rfl⟩))

theorem ends_invalidate :
    Ends (hostStep emitFunc threshold .invalidate) (fun ans h' ↦ ans = (none, none) ∧
      h'.mods = h.mods ∧ h'.caches.frameLayoutsMod = 0 ∧
      ∀ e, e ∈ h'.caches.cache ↔ e ∈ h.caches.cache ∧
        (h.caches.frameLayoutsMod = 0 ∨ e.mod ≠ h.caches.frameLayoutsMod)) h := by
  refine spec_bind.mpr (spec_onPart (ends_jelloVmInvalidateFrameCache.mono fun _ c' hc' ↦ ?_))
  exact spec_bind.mpr ((spec_change _).mpr ((spec_pure _).mpr ⟨rfl, rfl, hc'⟩))

theorem silent_step (hev : ev.asks = none)
    (hstep : result (hostStep emitFunc threshold ev) h = .ok (ans, h')) : ans = (none, none) := by
  cases ev <;> simp only [HostEvent.asks, reduceCtorEq] at hev
  case load p m => exact (ends_load.of_result hstep).1
  case invalidate => exact (ends_invalidate.of_result hstep).1
  case free p => exact (ends_free.of_result hstep).1

theorem layoutInv_step (hi : LayoutInv h)
    (hstep : result (hostStep emitFunc threshold ev) h = .ok (ans, h')) : LayoutInv h' := by
  cases hev : ev.asks with
  | some a => exact ((ends_hostStep_asks hi hev).of_result hstep).layoutInv hi
  | none =>
    cases ev <;> simp only [HostEvent.asks, reduceCtorEq] at hev
    case load p m =>
      obtain ⟨-, hp, hnone, rfl⟩ := ends_load.of_result hstep
      have hnull : update h.mods p (some m) 0 = none := by
        rw [update_of_ne hp.symm]
        exact hi.null
      refine ⟨hnull, hi.used, layoutsOk_update hi.layouts (fun hne hp' ↦ ?_) _⟩
      obtain ⟨m', hm', -⟩ := hi.layouts hne
      rw [hp', hnone] at hm'
      exact Option.noConfusion rfl (heq_of_eq hm')
    case invalidate =>
      obtain ⟨-, hmods, hmod, -⟩ := ends_invalidate.of_result hstep
      exact ⟨by rw [hmods, hi.null], fun hne ↦ absurd hmod hne, fun hne ↦ absurd hmod hne⟩
    case free p =>
      obtain ⟨-, hunused, rfl⟩ := ends_free.of_result hstep
      have hnull : update h.mods p none 0 = none := by
        rw [update_apply]
        split_ifs
        · rfl
        · exact hi.null
      refine ⟨hnull, hi.used, layoutsOk_update hi.layouts (fun hne hp ↦ ?_) _⟩
      have hused := hi.used hne
      rw [hp, hunused] at hused
      exact Bool.false_ne_true hused

theorem codeOk_step (hi : LayoutInv h) (hc : CodeOk emitFunc h.mods h.caches)
    (hfree : FreesForgotten h ev)
    (hstep : result (hostStep emitFunc threshold ev) h = .ok (ans, h')) :
    CodeOk emitFunc h'.mods h'.caches := by
  cases hev : ev.asks with
  | some a =>
    have hd := (ends_hostStep_asks hi hev).of_result hstep
    obtain ⟨m, hm, -, hserves, -⟩ := hd.module
    intro e he
    rw [hd.mods]
    rcases hserves.code e he with hold | ⟨hmod, hbuilt⟩
    · exact hc e hold
    · exact ⟨m, hmod ▸ hm, hbuilt⟩
  | none =>
    cases ev <;> simp only [HostEvent.asks, reduceCtorEq] at hev
    case load p m =>
      obtain ⟨-, -, hnone, rfl⟩ := ends_load.of_result hstep
      refine codeOk_update hc (fun e he hp ↦ ?_) _
      obtain ⟨m', hm', -⟩ := hc e he
      rw [hp, hnone] at hm'
      exact Option.noConfusion rfl (heq_of_eq hm')
    case invalidate =>
      obtain ⟨-, hmods, -, hcache⟩ := ends_invalidate.of_result hstep
      intro e he
      rw [hmods]
      exact hc e ((hcache e).mp he).1
    case free p =>
      obtain ⟨-, -, rfl⟩ := ends_free.of_result hstep
      exact codeOk_update hc (hfree p rfl) _

theorem layout_answer (hi : LayoutInv h)
    (hstep : result (hostStep emitFunc threshold ev) h = .ok (ans, h')) {fl : CachedLayout}
    (hfl : ans.1 = some fl) :
    ∃ p f m, ev.asks = some (p, f) ∧ h.mods p = some m ∧ fl = cachedLayout m f := by
  cases hev : ev.asks with
  | some a =>
    obtain ⟨m, hm, hlayout, -⟩ := ((ends_hostStep_asks hi hev).of_result hstep).module
    exact ⟨a.1, a.2, m, rfl, hm, hlayout fl hfl⟩
  | none =>
    rw [silent_step hev hstep] at hfl
    exact Option.noConfusion rfl (heq_of_eq hfl)

theorem code_answer (hi : LayoutInv h) (hc : CodeOk emitFunc h.mods h.caches)
    (hstep : result (hostStep emitFunc threshold ev) h = .ok (ans, h')) {code : Code}
    (hcode : ans.2 = some code) :
    ∃ p f m, ev.asks = some (p, f) ∧ h.mods p = some m ∧ builtCode emitFunc m f = some code := by
  cases hev : ev.asks with
  | some a =>
    obtain ⟨m, hm, -, -, hgives⟩ := ((ends_hostStep_asks hi hev).of_result hstep).module
    refine ⟨a.1, a.2, m, rfl, hm, ?_⟩
    rcases hgives code hcode with hbuilt | hmem
    · exact hbuilt
    · obtain ⟨m', hm', hbuilt⟩ := hc _ hmem
      obtain rfl : m = m' := Option.some.inj (hm.symm.trans hm')
      exact hbuilt
  | none =>
    rw [silent_step hev hstep] at hcode
    exact Option.noConfusion rfl (heq_of_eq hcode)

theorem HostRun.mono {C C' : Host Code → HostEvent → Prop}
    (hC : ∀ h ev, C h ev → C' h ev) (hrun : HostRun emitFunc threshold C h) :
    HostRun emitFunc threshold C' h := by
  induction hrun with
  | start => exact .start
  | step _ hc hstep ih => exact .step ih (hC _ _ hc) hstep

theorem layoutInv_of_run (hrun : HostRun emitFunc threshold (fun _ _ ↦ True) h) :
    LayoutInv h := by
  induction hrun with
  | start => exact ⟨rfl, fun hne ↦ absurd rfl hne, fun hne ↦ absurd rfl hne⟩
  | step _ _ hstep ih => exact layoutInv_step ih hstep

theorem codeOk_of_run (hrun : HostRun emitFunc threshold FreesForgotten h) :
    CodeOk emitFunc h.mods h.caches := by
  induction hrun with
  | start => exact fun e he ↦ absurd he List.not_mem_nil
  | step hrun hC hstep ih =>
    exact codeOk_step (layoutInv_of_run (hrun.mono fun _ _ _ ↦ trivial)) ih hC hstep

/-- A module that is freed while there is code of it leaves the code to the next module that is
loaded there. -/
theorem code_left {p : ℕ} (hp : p ≠ 0) (hmod : (h.mods p).isSome = true) (hused : h.used p = false)
    (hleft : ∃ e ∈ h.caches.cache, e.mod = p) :
    ∃ f code, ∀ m, ∃ h₁ h₂ h₃,
      result (hostStep emitFunc threshold (.free p)) h = .ok ((none, none), h₁) ∧
      result (hostStep emitFunc threshold (.load p m)) h₁ = .ok ((none, none), h₂) ∧
      h₂.mods p = some m ∧
      result (hostStep emitFunc threshold (.lookup p f)) h₂ = .ok ((none, some code), h₃) := by
  obtain ⟨e, he, rfl⟩ := hleft
  obtain ⟨e', he'⟩ : ∃ e', h.caches.cache.find? (fun x ↦ x.mod = e.mod ∧ x.funcIdx = e.funcIdx) =
      some e' := Option.isSome_iff_exists.mp (List.find?_isSome.mpr ⟨e, he, by simp⟩)
  refine ⟨e.funcIdx, e'.code, fun m ↦ ?_⟩
  let h₁ : Host Code := { h with mods := update h.mods e.mod none }
  let h₂ : Host Code := { h₁ with mods := update h₁.mods e.mod (some m) }
  have hmods₁ : h₁.mods e.mod = none := update_self _ _ _
  have hmods₂ : h₂.mods e.mod = some m := update_self _ _ _
  refine ⟨h₁, h₂, { h₂ with used := update h₂.used e.mod true }, ?_, ?_, hmods₂, ?_⟩
  · refine (result_then rfl).trans ?_
    rw [if_neg (by simpa [hused] using Option.isSome_iff_ne_none.mp hmod)]
    rfl
  · refine (result_then rfl).trans ?_
    rw [if_neg (by simpa [hp] using hmods₁)]
    rfl
  · have hasked : result (asked e.mod fun _ ↦ jelloJitCacheLookup e.mod e.funcIdx) h₂ =
        .ok (some e'.code, { h₂ with used := update h₂.used e.mod true }) := by
      refine (result_then rfl).trans ?_
      rw [show (id h₂).mods e.mod = some m from hmods₂]
      refine (result_then rfl).trans ?_
      rw [onCaches, result_onPart]
      have hfind : (h₂.caches.cache.find? fun x ↦ x.mod = e.mod ∧ x.funcIdx = e.funcIdx) =
          some e' := he'
      simp only [jelloJitCacheLookup, result_read, hfind]
      rfl
    exact result_then hasked

/-- In every run, a layout that is returned is that of the module as it is now. If no module is
freed while there is code of it in the cache, so is the code. If one is, its code is returned for
whatever is loaded at its address. -/
theorem caches_current (emitFunc : EmitFunc Code) (threshold : UInt32) :
    (∀ h, HostRun emitFunc threshold (fun _ _ ↦ True) h → ∀ ev ans h',
        result (hostStep emitFunc threshold ev) h = .ok (ans, h') → ∀ fl, ans.1 = some fl →
          ∃ p f m, ev.asks = some (p, f) ∧ h.mods p = some m ∧ fl = cachedLayout m f) ∧
      (∀ h, HostRun emitFunc threshold FreesForgotten h → ∀ ev ans h',
        result (hostStep emitFunc threshold ev) h = .ok (ans, h') → ∀ code, ans.2 = some code →
          ∃ p f m, ev.asks = some (p, f) ∧ h.mods p = some m ∧
            builtCode emitFunc m f = some code) ∧
      ∀ h p, HostRun emitFunc threshold (fun _ _ ↦ True) h → (h.mods p).isSome = true →
        h.used p = false → (∃ e ∈ h.caches.cache, e.mod = p) → ∃ f code, ∀ m, ∃ h₁ h₂ h₃,
          result (hostStep emitFunc threshold (.free p)) h = .ok ((none, none), h₁) ∧
          result (hostStep emitFunc threshold (.load p m)) h₁ = .ok ((none, none), h₂) ∧
          h₂.mods p = some m ∧
          result (hostStep emitFunc threshold (.lookup p f)) h₂ = .ok ((none, some code), h₃) := by
  refine ⟨fun h hrun ev ans h' hstep fl hfl ↦ layout_answer (layoutInv_of_run hrun) hstep hfl,
    fun h hrun ev ans h' hstep code hcode ↦ ?_, fun h p hrun hmod hused hleft ↦ ?_⟩
  · exact code_answer (layoutInv_of_run (hrun.mono fun _ _ _ ↦ trivial)) (codeOk_of_run hrun) hstep
      hcode
  · refine code_left (fun hp ↦ ?_) hmod hused hleft
    rw [hp, (layoutInv_of_run hrun).null] at hmod
    exact Bool.false_ne_true hmod

end Hosts

section Examples

variable {Code : Type} {emitFunc : EmitFunc Code} {threshold : UInt32} {h h' : Host Code}

def hostSteps (emitFunc : EmitFunc Code) (threshold : UInt32) : List HostEvent → HostM Code Unit
  | [] => pure ()
  | ev :: evs => do
    let _ ← hostStep emitFunc threshold ev
    hostSteps emitFunc threshold evs

theorem hostRun_of_steps {C : Host Code → HostEvent → Prop} {evs : List HostEvent}
    (hrun : HostRun emitFunc threshold C h)
    (hC : ∀ pre ev post h₁, evs = pre ++ ev :: post →
      result (hostSteps emitFunc threshold pre) h = .ok ((), h₁) → C h₁ ev)
    (hsteps : result (hostSteps emitFunc threshold evs) h = .ok ((), h')) :
    HostRun emitFunc threshold C h' := by
  induction evs generalizing h with
  | nil =>
    obtain rfl : h = h' := by simpa [hostSteps] using hsteps
    exact hrun
  | cons ev evs ih =>
    obtain ⟨ans, h₁, hstep, hrest⟩ := bind_ok hsteps
    refine ih (.step hrun (hC [] ev evs h rfl rfl) hstep) (fun pre ev' post h₂ hevs hpre ↦ ?_) hrest
    refine hC (ev :: pre) ev' post h₂ (by rw [hevs, List.cons_append]) ?_
    rw [hostSteps, result_bind, hstep]
    exact hpre

/-- The steps `evs` and one more, from what evaluation shows of them. -/
theorem steps_states (emitFunc : EmitFunc Code) (threshold : UInt32) {β : Type}
    (evs : List HostEvent) (ev : HostEvent) (f : Host Code → β) (b : β)
    (ans : Option CachedLayout × Option Code)
    (hview : (result (do
        hostSteps emitFunc threshold evs
        let h ← read id
        let ans ← hostStep emitFunc threshold ev
        pure (f h, ans)) (Host.start Code)).toOption.map Prod.fst = some (b, ans)) :
    ∃ h h', result (hostSteps emitFunc threshold evs) (Host.start Code) = .ok ((), h) ∧ f h = b ∧
      result (hostStep emitFunc threshold ev) h = .ok (ans, h') := by
  obtain ⟨⟨r, h'⟩, hr, hv⟩ := result_of_view hview
  obtain ⟨⟨⟩, h, hsteps, hrest⟩ := bind_ok hr
  obtain ⟨h₀, h₁, hread, hrest⟩ := bind_ok hrest
  obtain ⟨rfl, rfl⟩ : h = h₀ ∧ h = h₁ := by simpa using hread
  obtain ⟨ans', h'', hlast, hpure⟩ := bind_ok hrest
  obtain ⟨rfl, rfl⟩ : (f h, ans') = r ∧ h'' = h' := by simpa using hpure
  obtain ⟨hf, rfl⟩ := Prod.mk.inj hv
  exact ⟨h, h'', hsteps, hf, hlast⟩

end Examples

/-- A function with a loop, which is compiled when it is entered first. -/
def hotLoopModule (x : UInt32) : JelloBcModule :=
  { tailTryModule with
    types := [⟨.i32, 0⟩, ⟨.bool, 0⟩]
    funcs :=
      [{ regTypes := [0, 1]
         capStart := 0
         insns := [{ op := .constI32, a := 0, b := 0, c := 0, imm := x },
           { op := .jmpIf, a := 1, b := 0, c := 0, imm := 1 },
           { op := .jmp, a := 0, b := 0, c := 0, imm := 0xfffffffd },
           { op := .ret, a := 0, b := 0, c := 0, imm := 0 }]
         sourceFile := 0
         lines := [] }] }

/-- The intermediate code stands for the machine code. -/
def emitIrOnly : EmitFunc (List JirInsn) := fun ir _ _ _ ↦ some ir

/-- Two modules are run, the caches are invalidated, and the first module is freed. -/
def freeFirst : List HostEvent :=
  [.load 16 (hotLoopModule 1), .enter 16 0 true, .load 32 (hotLoopModule 2), .layout 32 0,
    .invalidate, .free 16, .load 16 (hotLoopModule 3)]

/-- The code of a module that was freed is returned for the module that now lies there. -/
theorem freed_code_returned : Accepted (hotLoopModule 1) ∧ Accepted (hotLoopModule 2) ∧
    Accepted (hotLoopModule 3) ∧
    ∃ h h' code, HostRun emitIrOnly 32 (fun _ _ ↦ True) h ∧ h.mods 16 = some (hotLoopModule 3) ∧
      result (hostStep emitIrOnly 32 (.lookup 16 0)) h = .ok ((none, some code), h') ∧
      builtCode emitIrOnly (hotLoopModule 3) 0 ≠ some code ∧
      builtCode emitIrOnly (hotLoopModule 1) 0 = some code := by
  refine ⟨by decide, by decide, by decide, ?_⟩
  obtain ⟨h, h', hsteps, hmods, hlookup⟩ := steps_states emitIrOnly 32 freeFirst (.lookup 16 0)
    (fun h ↦ h.mods 16) (some (hotLoopModule 3)) (none, builtCode emitIrOnly (hotLoopModule 1) 0)
    (by decide +kernel)
  cases hcode : builtCode emitIrOnly (hotLoopModule 1) 0 with
  | none => exact absurd hcode (by decide)
  | some code =>
    rw [hcode] at hlookup
    refine ⟨h, h', code, hostRun_of_steps .start (fun _ _ _ _ _ _ ↦ trivial) hsteps, hmods, hlookup, ?_,
      rfl⟩
    rw [← hcode]
    decide

/-- A module is compiled, the caches are invalidated, it is freed, and another one is compiled at its
address. -/
def freeForgotten : List HostEvent :=
  [.load 16 (hotLoopModule 1), .enter 16 0 true, .invalidate, .free 16,
    .load 16 (hotLoopModule 3), .enter 16 0 true]

theorem freeForgotten_run {h : Host (List JirInsn)}
    (hsteps : result (hostSteps emitIrOnly 32 freeForgotten) (Host.start _) = .ok ((), h)) :
    HostRun emitIrOnly 32 FreesForgotten h := by
  refine hostRun_of_steps .start (fun pre ev post h₁ hevs hpre p hp e he ↦ ?_) hsteps
  subst hp
  have htake : pre = freeForgotten.take pre.length := by rw [hevs, List.take_left]
  have hget : freeForgotten[pre.length]? = some (.free p) := by
    rw [hevs, List.getElem?_append_right le_rfl, Nat.sub_self]
    rfl
  have hthree : pre.length = 3 := by
    have hlt : pre.length < 6 := (List.getElem?_eq_some_iff.mp hget).1
    generalize pre.length = k at hget hlt
    interval_cases k <;> first | rfl | exact absurd hget (by simp [freeForgotten])
  rw [htake, hthree] at hpre
  have hempty : (result (hostSteps emitIrOnly 32 (freeForgotten.take 3))
      (Host.start _)).toOption.map (fun r ↦ r.2.caches.cache.map (·.mod)) = some [] := by
    decide +kernel
  rw [hpre] at hempty
  have hnil := List.map_eq_nil_iff.mp (Option.some.inj hempty)
  rw [hnil] at he
  exact absurd he List.not_mem_nil

/-- The code that is returned is that of the module which lies there now. -/
theorem kept_code_current : ∃ (h h' : Host (List JirInsn)) (code : List JirInsn),
    h.mods 16 = some (hotLoopModule 3) ∧
      result (hostStep emitIrOnly 32 (.lookup 16 0)) h = .ok ((none, some code), h') ∧
      builtCode emitIrOnly (hotLoopModule 3) 0 = some code ∧
      builtCode emitIrOnly (hotLoopModule 1) 0 ≠ some code := by
  obtain ⟨h, h', hsteps, hmods, hlookup⟩ := steps_states emitIrOnly 32 freeForgotten (.lookup 16 0)
    (fun h ↦ h.mods 16) (some (hotLoopModule 3)) (none, builtCode emitIrOnly (hotLoopModule 3) 0)
    (by decide +kernel)
  cases hcode : builtCode emitIrOnly (hotLoopModule 3) 0 with
  | none => exact absurd hcode (by decide)
  | some code =>
    rw [hcode] at hlookup
    obtain ⟨p, f, m, hasks, hm, hbuilt⟩ := (caches_current emitIrOnly 32).2.1 h
      (freeForgotten_run hsteps) (.lookup 16 0) _ h' hlookup code rfl
    obtain ⟨rfl, rfl⟩ := Prod.mk.inj (Option.some.inj hasks)
    obtain rfl := Option.some.inj (hmods.symm.trans hm)
    rw [hcode] at hbuilt
    refine ⟨h, h', code, hmods, hlookup, hbuilt, ?_⟩
    rw [← hcode]
    decide

end JelloVM
