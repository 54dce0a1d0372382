import JelloVM.Channel
import JelloVM.FreeList
import JelloVM.Equality

namespace JelloVM

open Function ByteMemory Logged

/-- `jello_channel_user`: what the handles of a channel share. -/
structure JelloChannelUser where
  refs : UInt32
  channel : UInt64

abbrev JelloChannelUsers := UInt64 → Option JelloChannelUser

section Check

variable (users : JelloChannelUsers)

/-- The result is the address of the user. -/
def channelUserFromAbstract (v : JelloValue) : StoreM (Option UInt64) :=
  if !jelloIsPtr v then pure none
  else do
    match ← cellAt v with
    | .abstract a =>
      pure (if a.payload = 0 then none
        else (users a.payload).bind fun u ↦ if u.channel = 0 then none else some a.payload)
    | _ => pure none

def jelloValueIsThreadShareable (v : JelloValue) : StoreM Bool := do
  if ← jelloValueIsCopySafe v then pure true
  else do
    let u ← channelUserFromAbstract users v
    pure u.isSome

def functionOf (v : JelloValue) : StoreM (Option JelloFunction) :=
  if !jelloIsPtr v then pure none
  else do
    match ← cellAt v with
    | .function fn => pure (some fn)
    | _ => pure none

def jelloValueIsThreadCapSafe (v : JelloValue) : StoreM Bool := do
  if ← jelloValueIsThreadShareable users v then pure true
  else do
    let fn ← functionOf v
    pure (fn.elim false fun fn ↦ fn.ncaps == 0 && !jelloBoundThisIsSet fn.boundThis)

/-- `fn->caps[i]`, also when the bytes there are raw captures. -/
def JelloFunction.cap (fn : JelloFunction) (i : ℕ) : StoreM JelloValue :=
  if !fn.capsAreRaw then pure (fn.caps i)
  else if 8 * i + 8 ≤ fn.rawCapSize.toNat then pure (load64 fn.rawCaps (8 * i))
  else wild

def spawnCapsOkFrom (fn : JelloFunction) : ℕ → ℕ → StoreM Bool
  | _, 0 => pure true
  | i, n + 1 => do
    let v ← fn.cap i
    if !(← jelloValueIsThreadCapSafe users v) then pure false
    else spawnCapsOkFrom fn (i + 1) n

def jelloFunctionSpawnCapsOk (fn : JelloFunction) : StoreM Bool :=
  spawnCapsOkFrom users fn 0 fn.ncaps.toNat

end Check

/-- The machine that is shared with, and which of its allocations to come collect. -/
structure Sharing where
  vm : GcVm
  users : JelloChannelUsers
  collects : ℕ → Bool

abbrev ShareM (α : Type) := Logged Fault Access Sharing α

def onSource {α : Type} (src : Store) (x : StoreM α) : ShareM α :=
  onPart (fun _ ↦ src) (fun s _ ↦ s) x

def onDestination {α : Type} (x : GcM α) : ShareM α :=
  onPart Sharing.vm (fun s vm ↦ { s with vm := vm }) x

section Share

/-- The last handle frees the channel. -/
def channelUserRelease (payload : UInt64) (users : JelloChannelUsers) : JelloChannelUsers :=
  match users payload with
  | none => users
  | some u =>
    if u.refs = 0 then users
    else if u.refs - 1 = 0 then update users payload none
    else update users payload (some { u with refs := u.refs - 1 })

/-- The finalizers of the abstracts among the objects that have been freed. -/
def finalizeFreed (s t : GcVm) (users : JelloChannelUsers) : JelloChannelUsers :=
  (s.gc.gcObjects.filter fun p ↦ p ∉ t.gc.gcObjects).foldl
    (fun users p ↦
      match s.heap.cells p with
      | some (.abstract a) => channelUserRelease a.payload users
      | _ => users)
    users

variable (m : JelloBcModule)

def collectShared : ShareM Unit := do
  let before ← read Sharing.vm
  onDestination (Collecting.gcCollect m)
  change fun s ↦ { s with users := finalizeFreed before s.vm s.users }

def collectSharedWhen (collects : Bool) : ShareM Unit :=
  if collects then collectShared m else pure ()

/-- `jello_gc_alloc`, which collects when it has been chosen to. -/
def allocate (size : ℕ) (c : Cell) : ShareM JelloValue := do
  let collects ← read fun s ↦ s.collects 0
  change fun s ↦ { s with collects := fun i ↦ s.collects (i + 1) }
  collectSharedWhen m collects
  onDestination (Collecting.take size fun _ ↦ c)

def sizeofJelloFunction : ℕ := 32

def shareFunctionNew (typeId funcIndex : UInt32) : ShareM JelloValue :=
  allocate m sizeofJelloFunction (.function
    { typeId := typeId
      funcIndex := funcIndex
      ncaps := 0
      boundThis := jelloMakeNull
      capsAreRaw := false
      rawCapSize := 0
      caps := fun _ ↦ 0
      rawCaps := fun _ ↦ 0 })

def shareClosureNew (typeId funcIndex ncaps : UInt32) (caps : ℕ → JelloValue) :
    ShareM JelloValue :=
  allocate m (sizeofJelloFunction + 8 * ncaps.toNat) (.function
    { typeId := typeId
      funcIndex := funcIndex
      ncaps := ncaps
      boundThis := jelloMakeNull
      capsAreRaw := false
      rawCapSize := 0
      caps := caps
      rawCaps := fun _ ↦ 0 })

def shareClosureNewRaw (typeId funcIndex ncaps rawCapSize : UInt32) (rawCaps : ℕ → UInt8) :
    ShareM JelloValue :=
  allocate m (sizeofJelloFunction + rawCapSize.toNat) (.function
    { typeId := typeId
      funcIndex := funcIndex
      ncaps := ncaps
      boundThis := jelloMakeNull
      capsAreRaw := true
      rawCapSize := rawCapSize
      caps := fun _ ↦ 0
      rawCaps := rawCaps })

variable (src : Store)

def jelloValueCopyToVm (v : JelloValue) : ShareM (Option JelloValue) := do
  if !(← onSource src (jelloValueIsCopySafe v)) then pure none
  else if jelloIsNull v || jelloIsBool v || jelloIsI32 v || jelloIsAtom v then pure (some v)
  else do
    match ← onSource src (cellAt v) with
    | .boxI64 t x => some <$> allocate m 16 (.boxI64 t x)
    | .boxF32 t x => some <$> allocate m 12 (.boxF32 t x)
    | .boxF64 t x => some <$> allocate m 16 (.boxF64 t x)
    | .boxF16 t x => some <$> allocate m 12 (.boxF16 t x)
    | .bytes b => some <$> allocate m (12 + b.length.toNat) (.bytes b)
    | _ => pure none

def jelloChannelAbstractShare (v : JelloValue) : ShareM (Option JelloValue) := do
  let users ← read Sharing.users
  match ← onSource src (channelUserFromAbstract users v) with
  | none => pure none
  | some payload => do
    change fun s ↦
      { s with
        users := update s.users payload
          ((s.users payload).map fun u ↦ { u with refs := u.refs + 1 }) }
    some <$> allocate m 24 (.abstract ⟨0, payload⟩)

def jelloValueShareToVm (shareFunction : JelloFunction → ShareM (Option JelloValue))
    (v : JelloValue) : ShareM (Option JelloValue) := do
  let users ← read Sharing.users
  if (← onSource src (channelUserFromAbstract users v)).isSome then
    jelloChannelAbstractShare m src v
  else do
    match ← onSource src (functionOf v) with
    | some fn => shareFunction fn
    | none => jelloValueCopyToVm m src v

def shareCap (shareFunction : JelloFunction → ShareM (Option JelloValue)) (v : JelloValue) :
    ShareM (Option JelloValue) := do
  match ← onSource src (functionOf v) with
  | some fn => shareFunction fn
  | none => jelloValueShareToVm m src shareFunction v

/-- The captures that have been shared are in C memory while the later ones are. -/
def shareCaps (shareFunction : JelloFunction → ShareM (Option JelloValue)) (fn : JelloFunction) :
    ℕ → ℕ → ShareM (Option (List JelloValue))
  | _, 0 => pure (some [])
  | i, n + 1 => do
    match ← shareCap m src shareFunction (fn.caps i) with
    | none => pure none
    | some v => do
      let vs ← shareCaps shareFunction fn (i + 1) n
      pure (vs.map (v :: ·))

/-- `jello_closure_share_to_vm`, for functions that hold others to no more than some depth. -/
def jelloFunctionShareToVm : ℕ → JelloFunction → ShareM (Option JelloValue)
  | 0, _ => fail .diverge
  | n + 1, fn =>
    if jelloBoundThisIsSet fn.boundThis then pure none
    else if fn.capsAreRaw then
      some <$> shareClosureNewRaw m fn.typeId fn.funcIndex fn.ncaps fn.rawCapSize fn.rawCaps
    else if fn.ncaps = 0 then some <$> shareFunctionNew m fn.typeId fn.funcIndex
    else do
      match ← shareCaps m src (jelloFunctionShareToVm n) fn 0 fn.ncaps.toNat with
      | none => pure none
      | some caps =>
        some <$> shareClosureNew m fn.typeId fn.funcIndex fn.ncaps fun i ↦ caps.getD i 0

end Share

section Meaning

/-- A copy-safe value, a handle of a channel, or a function that has no captures and is not
bound. -/
inductive Heap.ThreadSafe (h : Heap) (users : JelloChannelUsers) (v : JelloValue) : Prop
  | immediate (hv : (jelloIsNull v || jelloIsBool v || jelloIsI32 v || jelloIsAtom v) = true)
  | copySafe {c : Cell} (hp : jelloIsPtr v = true) (hc : h.cells v = some c)
      (hsafe : c.isCopySafe = true)
  | channel {a : JelloAbstract} {u : JelloChannelUser} (hp : jelloIsPtr v = true)
      (hc : h.cells v = some (.abstract a)) (h0 : a.payload ≠ 0) (hu : users a.payload = some u)
      (hchannel : u.channel ≠ 0)
  | function {fn : JelloFunction} (hp : jelloIsPtr v = true)
      (hc : h.cells v = some (.function fn)) (hncaps : fn.ncaps = 0)
      (hbound : jelloBoundThisIsSet fn.boundThis = false)

/-- The second cell is a copy of the first one, in another heap. -/
inductive Cell.CopiedTo : Cell → Cell → Prop
  | copySafe {c : Cell} (h : c.isCopySafe = true) : CopiedTo c c
  | channel {a b : JelloAbstract} (h : b.payload = a.payload) :
      CopiedTo (.abstract a) (.abstract b)
  | function {f g : JelloFunction} (hindex : g.funcIndex = f.funcIndex) (hf : f.ncaps = 0)
      (hg : g.ncaps = 0) : CopiedTo (.function f) (.function g)

/-- `w` stands for the value `v` of the heap `h`: if it points to something, then to an object of
the machine that is a copy. -/
structure GcVm.Stands (t : GcVm) (h : Heap) (v w : JelloValue) : Prop where
  word : jelloIsPtr v = false → w = v
  copied : jelloIsPtr v = true → jelloIsPtr w = true ∧ w ∈ t.gc.gcObjects ∧ h.cells w = none ∧
    ∃ c d, h.cells v = some c ∧ t.heap.cells w = some d ∧ c.CopiedTo d

/-- `p` is a closure of the machine with the code and the captures of `fn`. -/
def GcVm.Shares (t : GcVm) (h : Heap) (fn : JelloFunction) (p : JelloValue) : Prop :=
  p ∈ t.gc.gcObjects ∧ ∃ g, t.heap.cells p = some (.function g) ∧ g.funcIndex = fn.funcIndex ∧
    g.ncaps = fn.ncaps ∧ g.capsAreRaw = fn.capsAreRaw ∧
    (fn.capsAreRaw = true → g.rawCapSize = fn.rawCapSize ∧
      ∀ i < fn.rawCapSize.toNat, g.rawCaps i = fn.rawCaps i) ∧
    (fn.capsAreRaw = false → ∀ i < fn.ncaps.toNat, t.Stands h (fn.caps i) (g.caps i))

/-- What the check is to say. -/
def JelloFunction.MayBeShared (fn : JelloFunction) (h : Heap) (users : JelloChannelUsers) : Prop :=
  fn.capsAreRaw = true ∨ ∀ i < fn.ncaps.toNat, h.ThreadSafe users (fn.caps i)

end Meaning

section Checks

variable {users : JelloChannelUsers} {s : Store} {v : JelloValue} {c : Cell}
  {fn : JelloFunction}

theorem result_copySafe_word (hp : jelloIsPtr v = false) :
    result (jelloValueIsCopySafe v) s =
      .ok (jelloIsNull v || jelloIsBool v || jelloIsI32 v || jelloIsAtom v, s) := by
  rw [jelloValueIsCopySafe]
  split_ifs with h h'
  · rw [h]
    rfl
  · rw [Bool.eq_false_iff.mpr h]
    rfl
  · rw [hp] at h'
    exact absurd rfl h'

theorem isPtr_words (hp : jelloIsPtr v = true) :
    (jelloIsNull v || jelloIsBool v || jelloIsI32 v || jelloIsAtom v) = false := by
  have hnull : jelloIsNull v = false := hasTag_unique hp (by decide)
  have hbool : jelloIsBool v = false := hasTag_unique hp (by decide)
  have hi : jelloIsI32 v = false := hasTag_unique hp (by decide)
  have hatom : jelloIsAtom v = false := hasTag_unique hp (by decide)
  simp only [hnull, hbool, hi, hatom, Bool.or_self]

theorem result_copySafe_cell (hp : jelloIsPtr v = true) (hc : s.heap.cells v = some c) :
    result (jelloValueIsCopySafe v) s = .ok (c.isCopySafe, s) := by
  rw [jelloValueIsCopySafe, isPtr_words hp, if_neg Bool.false_ne_true, hp,
    Bool.not_true, if_neg Bool.false_ne_true, result_then (result_cellAt hc), result_pure]

theorem result_copySafe_wild (hp : jelloIsPtr v = true) (hc : s.heap.cells v = none) :
    result (jelloValueIsCopySafe v) s = .error .wild := by
  rw [jelloValueIsCopySafe, isPtr_words hp, if_neg Bool.false_ne_true, hp,
    Bool.not_true, if_neg Bool.false_ne_true, result_bind, result_cellAt_none hc]
  rfl

theorem result_channelUser_word (hp : jelloIsPtr v = false) :
    result (channelUserFromAbstract users v) s = .ok (none, s) := by
  rw [channelUserFromAbstract, hp, Bool.not_false, if_pos rfl, result_pure]

/-- The user that a cell is a handle of. -/
def Cell.channelUser (users : JelloChannelUsers) : Cell → Option UInt64
  | .abstract a =>
    if a.payload = 0 then none
    else (users a.payload).bind fun u ↦ if u.channel = 0 then none else some a.payload
  | _ => none

theorem result_channelUser_cell (hp : jelloIsPtr v = true) (hc : s.heap.cells v = some c) :
    result (channelUserFromAbstract users v) s = .ok (c.channelUser users, s) := by
  rw [channelUserFromAbstract, hp, Bool.not_true, if_neg Bool.false_ne_true, result_then (result_cellAt hc)]
  cases c <;> rfl

theorem channelUser_isSome {a : JelloAbstract} :
    ((Cell.abstract a).channelUser users).isSome = true ↔
      a.payload ≠ 0 ∧ ∃ u, users a.payload = some u ∧ u.channel ≠ 0 := by
  rw [Cell.channelUser]
  split_ifs with h0
  · simp [h0]
  · cases hu : users a.payload with
    | none => simp
    | some u =>
      simp only [Option.bind_some, ne_eq, h0, not_false_eq_true, true_and, Option.some.injEq,
        exists_eq_left']
      split_ifs with hchannel
      · simp [hchannel]
      · simp [hchannel]

theorem result_functionOf_word (hp : jelloIsPtr v = false) :
    result (functionOf v) s = .ok (none, s) := by
  rw [functionOf, hp, Bool.not_false, if_pos rfl, result_pure]

def Cell.asFunction : Cell → Option JelloFunction
  | .function fn => some fn
  | _ => none

theorem result_functionOf_cell (hp : jelloIsPtr v = true) (hc : s.heap.cells v = some c) :
    result (functionOf v) s = .ok (c.asFunction, s) := by
  rw [functionOf, hp, Bool.not_true, if_neg Bool.false_ne_true, result_then (result_cellAt hc)]
  cases c <;> rfl

theorem threadSafe_word_iff (hp : jelloIsPtr v = false) :
    s.heap.ThreadSafe users v ↔
      (jelloIsNull v || jelloIsBool v || jelloIsI32 v || jelloIsAtom v) = true := by
  refine ⟨fun h ↦ ?_, .immediate⟩
  cases h with
  | immediate hv => exact hv
  | copySafe hp' _ _ | channel hp' _ _ _ _ | function hp' _ _ _ =>
    rw [hp] at hp'
    exact absurd hp' Bool.false_ne_true

/-- What the check of a value of the heap looks at. -/
def Cell.threadSafe (users : JelloChannelUsers) (c : Cell) : Bool :=
  c.isCopySafe || (c.channelUser users).isSome ||
    c.asFunction.elim false fun fn ↦ fn.ncaps == 0 && !jelloBoundThisIsSet fn.boundThis

theorem threadSafe_cell_iff (hp : jelloIsPtr v = true) (hc : s.heap.cells v = some c) :
    s.heap.ThreadSafe users v ↔ c.threadSafe users = true := by
  constructor
  · intro h
    rw [Cell.threadSafe, Bool.or_eq_true, Bool.or_eq_true]
    cases h with
    | immediate hv =>
      rw [isPtr_words hp] at hv
      exact absurd hv Bool.false_ne_true
    | copySafe _ hc' hsafe =>
      obtain rfl := Option.some.inj (hc.symm.trans hc')
      exact .inl (.inl hsafe)
    | channel _ hc' h0 hu hchannel =>
      obtain rfl := Option.some.inj (hc.symm.trans hc')
      exact .inl (.inr (channelUser_isSome.mpr ⟨h0, _, hu, hchannel⟩))
    | function _ hc' hncaps hbound =>
      obtain rfl := Option.some.inj (hc.symm.trans hc')
      refine .inr ?_
      simp [Cell.asFunction, hncaps, hbound]
  · intro h
    rw [Cell.threadSafe, Bool.or_eq_true, Bool.or_eq_true] at h
    rcases h with (hsafe | huser) | hfn
    · exact .copySafe hp hc hsafe
    · cases c with
      | abstract a =>
        obtain ⟨h0, u, hu, hchannel⟩ := channelUser_isSome.mp huser
        exact .channel hp hc h0 hu hchannel
      | _ => exact absurd huser Bool.false_ne_true
    · cases c with
      | function fn =>
        obtain ⟨hncaps, hbound⟩ : fn.ncaps = 0 ∧ jelloBoundThisIsSet fn.boundThis = false := by
          simpa [Cell.asFunction] using hfn
        exact .function hp hc hncaps hbound
      | _ => exact absurd hfn Bool.false_ne_true

theorem result_threadCapSafe_word (hp : jelloIsPtr v = false) :
    result (jelloValueIsThreadCapSafe users v) s =
      .ok (jelloIsNull v || jelloIsBool v || jelloIsI32 v || jelloIsAtom v, s) := by
  have hshareable : result (jelloValueIsThreadShareable users v) s =
      .ok (jelloIsNull v || jelloIsBool v || jelloIsI32 v || jelloIsAtom v, s) := by
    rw [jelloValueIsThreadShareable, result_then (result_copySafe_word hp)]
    cases jelloIsNull v || jelloIsBool v || jelloIsI32 v || jelloIsAtom v with
    | true => rfl
    | false =>
      rw [if_neg Bool.false_ne_true, result_then (result_channelUser_word hp)]
      rfl
  rw [jelloValueIsThreadCapSafe, result_then hshareable]
  cases jelloIsNull v || jelloIsBool v || jelloIsI32 v || jelloIsAtom v with
  | true => rfl
  | false =>
    rw [if_neg Bool.false_ne_true, result_then (result_functionOf_word hp)]
    rfl

theorem result_threadCapSafe_cell (hp : jelloIsPtr v = true) (hc : s.heap.cells v = some c) :
    result (jelloValueIsThreadCapSafe users v) s = .ok (c.threadSafe users, s) := by
  have hshareable : result (jelloValueIsThreadShareable users v) s =
      .ok (c.isCopySafe || (c.channelUser users).isSome, s) := by
    rw [jelloValueIsThreadShareable, result_then (result_copySafe_cell hp hc)]
    cases c.isCopySafe with
    | true => rfl
    | false =>
      rw [if_neg Bool.false_ne_true, result_then (result_channelUser_cell hp hc)]
      rfl
  rw [jelloValueIsThreadCapSafe, result_then hshareable, Cell.threadSafe]
  cases c.isCopySafe || (c.channelUser users).isSome with
  | true => rfl
  | false =>
    rw [if_neg Bool.false_ne_true, result_then (result_functionOf_cell hp hc)]
    rfl

theorem result_threadCapSafe_wild (hp : jelloIsPtr v = true) (hc : s.heap.cells v = none) :
    result (jelloValueIsThreadCapSafe users v) s = .error .wild := by
  rw [jelloValueIsThreadCapSafe, result_bind, jelloValueIsThreadShareable, result_bind,
    result_copySafe_wild hp hc]
  rfl

theorem result_threadCapSafe (hv : jelloIsPtr v = true → (s.heap.cells v).isSome) :
    ∃ b, result (jelloValueIsThreadCapSafe users v) s = .ok (b, s) ∧
      (b = true ↔ s.heap.ThreadSafe users v) := by
  cases hp : jelloIsPtr v with
  | false => exact ⟨_, result_threadCapSafe_word hp, (threadSafe_word_iff hp).symm⟩
  | true =>
    obtain ⟨c, hc⟩ := Option.isSome_iff_exists.mp (hv hp)
    exact ⟨_, result_threadCapSafe_cell hp hc, (threadSafe_cell_iff hp hc).symm⟩

theorem isSome_of_threadSafe (h : s.heap.ThreadSafe users v) (hp : jelloIsPtr v = true) :
    (s.heap.cells v).isSome := by
  cases h with
  | immediate hv =>
    rw [isPtr_words hp] at hv
    exact absurd hv Bool.false_ne_true
  | copySafe _ hc _ | channel _ hc _ _ _ | function _ hc _ _ =>
    rw [hc]
    rfl

theorem threadCapSafe_ok {b : Bool} {s' : Store}
    (h : result (jelloValueIsThreadCapSafe users v) s = .ok (b, s')) :
    s' = s ∧ (b = true ↔ s.heap.ThreadSafe users v) := by
  have hv : jelloIsPtr v = true → (s.heap.cells v).isSome := by
    intro hp
    cases hc : s.heap.cells v with
    | none =>
      rw [result_threadCapSafe_wild hp hc] at h
      exact absurd h (by simp)
    | some c => rfl
  obtain ⟨b', hb, hiff⟩ := @result_threadCapSafe users s v hv
  rw [hb] at h
  obtain ⟨rfl, rfl⟩ := Prod.mk.inj (Except.ok.inj h)
  exact ⟨rfl, hiff⟩

theorem threadCapSafe_of_safe (h : s.heap.ThreadSafe users v) :
    result (jelloValueIsThreadCapSafe users v) s = .ok (true, s) := by
  obtain ⟨b, hb, hiff⟩ := @result_threadCapSafe users s v (isSome_of_threadSafe h)
  rw [hb, hiff.mpr h]

theorem spawnCapsOkFrom_true_iff (n i : ℕ) :
    result (spawnCapsOkFrom users fn i n) s = .ok (true, s) ↔
      ∀ j, i ≤ j → j < i + n → ∃ v, result (fn.cap j) s = .ok (v, s) ∧
        s.heap.ThreadSafe users v := by
  induction n generalizing i with
  | zero =>
    refine ⟨fun _ j hj hjn ↦ absurd hjn (by omega), fun _ ↦ rfl⟩
  | succ n ih =>
    have hread : ∀ v s', result (fn.cap i) s = .ok (v, s') → s' = s := by
      intro v s' hr
      unfold JelloFunction.cap at hr
      split_ifs at hr
      · exact (Prod.mk.inj (Except.ok.inj hr)).2.symm
      · exact (Prod.mk.inj (Except.ok.inj hr)).2.symm
      · exact absurd hr (by simp [wild])
    have hstep : ∀ v, result (fn.cap i) s = .ok (v, s) → s.heap.ThreadSafe users v →
        result (spawnCapsOkFrom users fn i (n + 1)) s =
          result (spawnCapsOkFrom users fn (i + 1) n) s := by
      intro v hv hsafe
      rw [spawnCapsOkFrom, result_then hv, result_then (threadCapSafe_of_safe hsafe)]
      rfl
    constructor
    · intro h
      obtain ⟨v, s', hv, hrest⟩ := bind_ok h
      obtain rfl := hread v s' hv
      obtain ⟨b, s'', hb, hrest⟩ := bind_ok hrest
      obtain ⟨rfl, hiff⟩ := threadCapSafe_ok hb
      cases b with
      | false => exact absurd hrest (by simp)
      | true =>
        have hlater := (ih (i + 1)).mp hrest
        intro j hj hjn
        rcases Nat.lt_or_ge i j with hij | hij
        · exact hlater j hij (by omega)
        · obtain rfl : i = j := by omega
          exact ⟨v, hv, hiff.mp rfl⟩
    · intro h
      obtain ⟨v, hv, hsafe⟩ := h i le_rfl (by omega)
      rw [hstep v hv hsafe]
      exact (ih (i + 1)).mpr fun j hj hjn ↦ h j (by omega) (by omega)

theorem spawnCapsOkFrom_ends (hraw : fn.capsAreRaw = false) (n i : ℕ)
    (hv : ∀ j, i ≤ j → j < i + n → s.heap.IsValue (fn.caps j)) :
    ∃ b, result (spawnCapsOkFrom users fn i n) s = .ok (b, s) := by
  induction n generalizing i with
  | zero => exact ⟨true, rfl⟩
  | succ n ih =>
    have hcap : result (fn.cap i) s = .ok (fn.caps i, s) := by
      rw [JelloFunction.cap, hraw]
      rfl
    obtain ⟨b, hb, -⟩ := @result_threadCapSafe users s (fn.caps i) fun hp ↦
      (hv i le_rfl (by omega) hp).2
    rw [spawnCapsOkFrom, result_then hcap, result_then hb]
    cases b with
    | true => exact ih (i + 1) fun j hj hjn ↦ hv j (by omega) (by omega)
    | false => exact ⟨false, rfl⟩

end Checks

section Allocate

variable {m : JelloBcModule} {s t : GcVm} {x y : Sharing} {size : ℕ} {c : Cell}
  {p q : JelloValue}

/-- The next block of the allocator is free. -/
def GcVm.Room (s : GcVm) : Prop :=
  s.heap.cells s.heap.next = none ∧ jelloIsPtr s.heap.next = true ∧ s.heap.next ≠ 0

/-- The lists of the collector are in order, and what can be reached is on the list of objects. -/
structure GcVm.Healthy (m : JelloBcModule) (s : GcVm) : Prop where
  ok : s.Ok
  closed : s.Closed m

theorem Taken.healthy (h : Taken m s p t) (hs : s.Healthy m) : t.Healthy m := by
  refine ⟨h.ok, fun q hq ↦ ?_⟩
  rw [h.objects]
  exact List.mem_cons_of_mem p (hs.closed q ((h.live q).mp hq))

theorem room_iff : s.Room ↔ ¬((s.heap.cells s.heap.next).isSome ∨
    jelloIsPtr s.heap.next = false ∨ s.heap.next = 0) := by
  rw [GcVm.Room, not_or, not_or, Option.not_isSome_iff_eq_none, Bool.not_eq_false]

theorem take_ends (hroom : s.Room) :
    ∃ p t, result (Collecting.take size fun _ ↦ c) s = .ok (p, t) := by
  simp only [result, Collecting.take, if_neg (room_iff.mp hroom)]
  exact ⟨_, _, rfl⟩

theorem cells_gcTake {block : JelloValue} :
    (gcTake size block (fun _ ↦ c) s).2.heap.cells (gcTake size block (fun _ ↦ c) s).1 =
      some c := by
  unfold gcTake
  cases gcBoxFreePop s.gc.hdr (gcHdrSize + size) s.gc.gcBoxFree with
  | none => exact update_self ..
  | some r => exact update_self ..

theorem Taken.setNext (h : Taken m s p t) (next : JelloValue) :
    Taken m s p (t.setHeap { t.heap with next := next }) :=
  { dead := h.dead
    objects := h.objects
    live := fun q ↦ by
      refine Iff.trans ?_ (h.live q)
      exact GcVm.live_congr rfl rfl fun _ _ ↦ rfl
    ok := ⟨h.ok.nodup, h.ok.ptr, h.ok.clear, h.ok.cells, h.ok.len, h.ok.bound⟩ }

theorem taken_of_take (hs : s.Healthy m)
    (h : result (Collecting.take size fun _ ↦ c) s = .ok (p, t)) :
    Taken m s p t ∧ t.heap.cells p = some c := by
  simp only [result, Collecting.take] at h
  split_ifs at h with hnext
  obtain ⟨hcell, hptr⟩ := room_iff.mpr hnext
  obtain ⟨rfl, rfl⟩ := Prod.mk.inj (Except.ok.inj h)
  exact ⟨(taken hs.ok hs.closed size hcell hptr _).setNext _, cells_gcTake⟩

/-- A copy has been made: one allocation, of a block that was not live, and nothing is collected. -/
structure CopyMade (m : JelloBcModule) (x : Sharing) (w : JelloValue) (y : Sharing) : Prop where
  healthy : y.vm.Healthy m
  live (q : JelloValue) : y.vm.Live m q ↔ x.vm.Live m q
  dead : ¬x.vm.Live m w
  collects (i : ℕ) : y.collects i = x.collects (i + 1)

theorem ends_allocate_quiet (hx : x.vm.Healthy m) (h0 : x.collects 0 = false) :
    Ends (allocate m size c) (CopyMade m x) x := by
  refine spec_bind.mpr ((spec_read _).mpr (spec_bind.mpr ((spec_change _).mpr ?_)))
  refine spec_bind.mpr ?_
  rw [h0, collectSharedWhen, if_neg Bool.false_ne_true]
  refine (spec_pure ()).mpr (spec_onPart (ends_iff.mpr fun p t hr ↦ ?_))
  obtain ⟨htaken, -⟩ := taken_of_take hx hr
  exact ⟨htaken.healthy hx, htaken.live, htaken.dead, fun _ ↦ rfl⟩

/-- After a collection there is what was live, and the block that has been allocated. -/
theorem ends_allocate_collecting (hx : x.vm.Healthy m) (h0 : x.collects 0 = true) :
    Ends (allocate m size c)
      (fun p y ↦ y.vm.heap.cells p = some c ∧
        ∀ q ∈ y.vm.gc.gcObjects, q = p ∨ x.vm.Live m q) x := by
  refine spec_bind.mpr ((spec_read _).mpr (spec_bind.mpr ((spec_change _).mpr ?_)))
  refine spec_bind.mpr ?_
  rw [h0, collectSharedWhen, if_pos rfl]
  refine spec_bind.mpr ((spec_read _).mpr (spec_bind.mpr (spec_onPart ?_)))
  refine ends_iff.mpr fun _ t ht ↦ (spec_change _).mpr (spec_onPart (ends_iff.mpr fun p u hu ↦ ?_))
  obtain ⟨t', ht', hc⟩ := collected hx.ok hx.closed
  have hcollect : result (Collecting.gcCollect m) x.vm = .ok ((), t') := by
    simp only [result, Collecting.gcCollect, ht']
  obtain ⟨-, rfl⟩ := Prod.mk.inj (Except.ok.inj (hcollect.symm.trans ht))
  obtain ⟨htaken, hcell⟩ := taken_of_take ⟨hc.ok, hc.closed⟩ hu
  refine ⟨hcell, fun q hq ↦ ?_⟩
  change q ∈ u.gc.gcObjects at hq
  rw [htaken.objects] at hq
  exact (List.mem_cons.mp hq).imp_right (hc.survivors q).mp

theorem allocated (hx : x.vm.Healthy m) (hroom : x.vm.Room) (size : ℕ) (c : Cell) :
    ∃ p y, result (allocate m size c) x = .ok (p, y) ∧ p ∈ y.vm.gc.gcObjects ∧
      y.vm.heap.cells p = some c := by
  have htake : ∀ s : GcVm, s.Healthy m → s.Room → ∀ (users : JelloChannelUsers)
      (collects : ℕ → Bool),
      ∃ p y, result (onDestination (Collecting.take size fun _ ↦ c)) ⟨s, users, collects⟩ =
        .ok (p, y) ∧ p ∈ y.vm.gc.gcObjects ∧ y.vm.heap.cells p = some c := by
    intro s hs hroom users collects
    obtain ⟨p, t, hr⟩ := @take_ends s size c hroom
    obtain ⟨htaken, hcell⟩ := taken_of_take hs hr
    refine ⟨p, ⟨t, users, collects⟩, ?_, ?_, hcell⟩
    · rw [onDestination, result_onPart, hr]
      rfl
    · change p ∈ t.gc.gcObjects
      rw [htaken.objects]
      exact List.mem_cons_self
  cases h0 : x.collects 0 with
  | false =>
    obtain ⟨p, y, hr, hy⟩ := htake x.vm hx hroom x.users fun i ↦ x.collects (i + 1)
    refine ⟨p, y, ?_, hy⟩
    have hquiet : result (collectSharedWhen m (x.collects 0))
        ⟨x.vm, x.users, fun i ↦ x.collects (i + 1)⟩ =
          .ok ((), ⟨x.vm, x.users, fun i ↦ x.collects (i + 1)⟩) := by
      rw [h0]
      rfl
    rw [allocate, result_then rfl, result_then rfl, result_then hquiet]
    exact hr
  | true =>
    obtain ⟨t, ht, hc⟩ := collected hx.ok hx.closed
    have hroom' : t.Room := by
      have hnext := not_mem_of_unallocated hx.ok hroom.1
      rw [List.mem_append, not_or] at hnext
      rw [GcVm.Room, hc.next, hc.elsewhere _ hnext.1]
      exact hroom
    have hcollect : result (collectSharedWhen m (x.collects 0))
        ⟨x.vm, x.users, fun i ↦ x.collects (i + 1)⟩ =
          .ok ((), ⟨t, finalizeFreed x.vm t x.users, fun i ↦ x.collects (i + 1)⟩) := by
      have hgc : result (onDestination (Collecting.gcCollect m))
          ⟨x.vm, x.users, fun i ↦ x.collects (i + 1)⟩ =
            .ok ((), ⟨t, x.users, fun i ↦ x.collects (i + 1)⟩) := by
        rw [onDestination, result_onPart]
        simp only [result, Collecting.gcCollect, ht]
        rfl
      rw [h0, collectSharedWhen, if_pos rfl, collectShared, result_then rfl, result_then hgc]
      rfl
    obtain ⟨p, y, hr, hy⟩ := htake t ⟨hc.ok, hc.closed⟩ hroom' (finalizeFreed x.vm t x.users)
      fun i ↦ x.collects (i + 1)
    refine ⟨p, y, ?_, hy⟩
    rw [allocate, result_then rfl, result_then rfl, result_then hcollect]
    exact hr

end Allocate

section Copies

variable {m : JelloBcModule} {src : Store} {x y : Sharing} {v : JelloValue} {fn : JelloFunction}
  {shareFunction : JelloFunction → ShareM (Option JelloValue)}

/-- If there is a result, then it is the one copy that has been made. -/
abbrev AtMostOneCopy (m : JelloBcModule) (x : Sharing) (o : Option JelloValue) (y : Sharing) :
    Prop :=
  ∀ w, o = some w → CopyMade m x w y

theorem atMostOneCopy_none : AtMostOneCopy m x none y := fun w hw ↦ absurd hw (by simp)

theorem ends_some_allocate (hx : x.vm.Healthy m) (h0 : x.collects 0 = false) (size : ℕ) (c : Cell) :
    Ends (some <$> allocate m size c) (AtMostOneCopy m x) x := by
  refine spec_map.mpr ((ends_allocate_quiet hx h0).mono fun p y hy w hw ↦ ?_)
  rw [← Option.some.inj hw]
  exact hy

theorem spec_onSource {α : Type} {z : StoreM α} {Q : α → Sharing → Prop}
    (h : ∀ a t, result z src = .ok (a, t) → Q a x) : Ends (onSource src z) Q x :=
  spec_onPart (ends_iff.mpr h)

theorem ends_jelloValueCopyToVm (hp : jelloIsPtr v = true) (hx : x.vm.Healthy m)
    (h0 : x.collects 0 = false) :
    Ends (jelloValueCopyToVm m src v) (AtMostOneCopy m x) x := by
  refine spec_bind.mpr (spec_onSource fun safe _ _ ↦ ?_)
  refine spec_ite.mpr ⟨fun _ ↦ (spec_pure _).mpr atMostOneCopy_none, fun _ ↦ ?_⟩
  rw [isPtr_words hp, if_neg Bool.false_ne_true]
  refine spec_bind.mpr (spec_onSource fun c _ _ ↦ ?_)
  cases c with
  | boxI64 | boxF32 | boxF64 | boxF16 | bytes => exact ends_some_allocate hx h0 _ _
  | function | list | array | object | abstract | enum => exact (spec_pure _).mpr atMostOneCopy_none

theorem ends_jelloChannelAbstractShare (hx : x.vm.Healthy m) (h0 : x.collects 0 = false) :
    Ends (jelloChannelAbstractShare m src v) (AtMostOneCopy m x) x := by
  refine spec_bind.mpr ((spec_read _).mpr (spec_bind.mpr (spec_onSource fun o _ _ ↦ ?_)))
  cases o with
  | none => exact (spec_pure _).mpr atMostOneCopy_none
  | some payload =>
    refine spec_bind.mpr ((spec_change _).mpr ?_)
    refine (ends_some_allocate ?_ ?_ _ _).mono fun o y hy w hw ↦ ?_
    · exact hx
    · exact h0
    · obtain ⟨hhealthy, hlive, hdead, hcollects⟩ := hy w hw
      exact ⟨hhealthy, hlive, hdead, hcollects⟩

theorem ends_jelloFunctionShareToVm (hncaps : fn.ncaps = 0) (hx : x.vm.Healthy m)
    (h0 : x.collects 0 = false) (n : ℕ) :
    Ends (jelloFunctionShareToVm m src n fn) (AtMostOneCopy m x) x := by
  cases n with
  | zero => exact spec_fail _
  | succ n =>
    refine spec_ite.mpr ⟨fun _ ↦ (spec_pure _).mpr atMostOneCopy_none, fun _ ↦ ?_⟩
    refine spec_ite.mpr ⟨fun _ ↦ ends_some_allocate hx h0 _ _, fun _ ↦ ?_⟩
    rw [if_pos hncaps]
    exact ends_some_allocate hx h0 _ _

theorem ncaps_of_threadSafe {users : JelloChannelUsers} (hp : jelloIsPtr v = true)
    (h : src.heap.ThreadSafe users v) (hc : src.heap.cells v = some (.function fn)) :
    fn.ncaps = 0 := by
  cases h with
  | immediate hv =>
    rw [isPtr_words hp] at hv
    exact absurd hv Bool.false_ne_true
  | copySafe _ hc' hsafe =>
    obtain rfl := Option.some.inj (hc.symm.trans hc')
    exact absurd hsafe Bool.false_ne_true
  | channel _ hc' _ _ _ =>
    rw [hc] at hc'
    exact absurd hc' (by simp)
  | function _ hc' hncaps _ =>
    rw [hc] at hc'
    obtain rfl := Cell.function.inj (Option.some.inj hc')
    exact hncaps

theorem cell_of_functionOf {t : Store} (h : result (functionOf v) src = .ok (some fn, t)) :
    src.heap.cells v = some (.function fn) := by
  cases hp : jelloIsPtr v with
  | false =>
    rw [result_functionOf_word hp] at h
    exact absurd h (by simp)
  | true =>
    cases hc : src.heap.cells v with
    | none =>
      rw [functionOf, hp, Bool.not_true, if_neg Bool.false_ne_true, result_bind,
        result_cellAt_none hc] at h
      exact absurd h (by simp [Except.bind])
    | some c =>
      rw [result_functionOf_cell hp hc] at h
      have hfn := (Prod.mk.inj (Except.ok.inj h)).1
      cases c with
      | function g =>
        obtain rfl := Option.some.inj hfn
        rfl
      | _ => exact absurd hfn (by simp [Cell.asFunction])

theorem ends_shareCap (hp : jelloIsPtr v = true)
    (hfn : ∀ fn, src.heap.cells v = some (.function fn) → fn.ncaps = 0)
    (hx : x.vm.Healthy m) (h0 : x.collects 0 = false) (n : ℕ) :
    Ends (shareCap m src (jelloFunctionShareToVm m src n) v) (AtMostOneCopy m x) x := by
  have hshared : ∀ fn t, result (functionOf v) src = .ok (some fn, t) →
      Ends (jelloFunctionShareToVm m src n fn) (AtMostOneCopy m x) x := fun fn _ ht ↦
    ends_jelloFunctionShareToVm (hfn fn (cell_of_functionOf ht)) hx h0 n
  refine spec_bind.mpr (spec_onSource fun o t ht ↦ ?_)
  cases o with
  | some fn => exact hshared fn t ht
  | none =>
    refine spec_bind.mpr ((spec_read _).mpr (spec_bind.mpr (spec_onSource fun u _ _ ↦ ?_)))
    refine spec_ite.mpr ⟨fun _ ↦ ends_jelloChannelAbstractShare hx h0, fun _ ↦ ?_⟩
    refine spec_bind.mpr (spec_onSource fun o t ht ↦ ?_)
    cases o with
    | some fn => exact hshared fn t ht
    | none => exact ends_jelloValueCopyToVm hp hx h0

theorem result_onSource {α : Type} {z : StoreM α} {a : α} {t : Store}
    (h : result z src = .ok (a, t)) : result (onSource src z) x = .ok (a, x) := by
  rw [onSource, result_onPart, h]
  rfl

theorem result_shareCap_word (hp : jelloIsPtr v = false)
    (hv : (jelloIsNull v || jelloIsBool v || jelloIsI32 v || jelloIsAtom v) = true) :
    result (shareCap m src shareFunction v) x = .ok (some v, x) := by
  have hcopy : result (jelloValueCopyToVm m src v) x = .ok (some v, x) := by
    rw [jelloValueCopyToVm, result_then (result_onSource (result_copySafe_word hp)), hv]
    rfl
  rw [shareCap, result_then (result_onSource (result_functionOf_word hp))]
  change result (jelloValueShareToVm m src shareFunction v) x = _
  rw [jelloValueShareToVm, result_then rfl, result_then (result_onSource (result_channelUser_word hp))]
  rw [Option.isSome_none, if_neg Bool.false_ne_true]
  rw [result_then (result_onSource (result_functionOf_word hp))]
  exact hcopy

theorem result_shareCaps_words (n i : ℕ)
    (hcaps : ∀ j, i ≤ j → j < i + n → jelloIsPtr (fn.caps j) = false ∧
      (jelloIsNull (fn.caps j) || jelloIsBool (fn.caps j) || jelloIsI32 (fn.caps j) ||
        jelloIsAtom (fn.caps j)) = true) :
    result (shareCaps m src shareFunction fn i n) x =
      .ok (some ((List.range' i n).map fn.caps), x) := by
  induction n generalizing i with
  | zero => rfl
  | succ n ih =>
    obtain ⟨hp, hv⟩ := hcaps i le_rfl (by omega)
    rw [shareCaps, result_then (result_shareCap_word hp hv)]
    change result (shareCaps m src shareFunction fn (i + 1) n >>= fun vs ↦
      pure (vs.map (fn.caps i :: ·))) x = _
    rw [result_then (ih (i + 1) fun j hj hjn ↦ hcaps j (by omega) (by omega))]
    rfl

/-- How many of the captures are copied. -/
def JelloFunction.pointers (fn : JelloFunction) (i n : ℕ) : ℕ :=
  (List.range' i n).countP fun j ↦ jelloIsPtr (fn.caps j)

theorem pointers_succ (fn : JelloFunction) (i n : ℕ) :
    fn.pointers i (n + 1) =
      fn.pointers (i + 1) n + if jelloIsPtr (fn.caps i) = true then 1 else 0 := by
  rw [JelloFunction.pointers, List.range'_succ, List.countP_cons]
  rfl

/-- While nothing is collected a capture is copied if it is a pointer, and its copy is not live. -/
theorem ends_shareCap_quiet {users : JelloChannelUsers} (k : ℕ)
    (hsafe : src.heap.ThreadSafe users v) (hx : x.vm.Healthy m)
    (hquiet : jelloIsPtr v = true → x.collects 0 = false) :
    Ends (shareCap m src (jelloFunctionShareToVm m src k) v)
      (fun o y ↦ ∀ w, o = some w → y.vm.Healthy m ∧ (∀ q, y.vm.Live m q ↔ x.vm.Live m q) ∧
        (∀ j, y.collects j = x.collects (j + if jelloIsPtr v = true then 1 else 0)) ∧
        (jelloIsPtr v = true → ¬x.vm.Live m w)) x := by
  cases hp : jelloIsPtr v with
  | false =>
    refine ends_iff.mpr fun o y hy w hw ↦ ?_
    rw [result_shareCap_word hp ((threadSafe_word_iff hp).mp hsafe)] at hy
    obtain ⟨rfl, rfl⟩ := Prod.mk.inj (Except.ok.inj hy)
    exact ⟨hx, fun q ↦ Iff.rfl, fun j ↦ rfl, fun h ↦ absurd h Bool.false_ne_true⟩
  | true =>
    have hcopy := ends_shareCap hp (fun fn ↦ ncaps_of_threadSafe hp hsafe) hx (hquiet hp) k
    refine hcopy.mono fun o y hy w hw ↦ ?_
    obtain ⟨hhealthy, hlive, hdead, hcollects⟩ := hy w hw
    exact ⟨hhealthy, hlive, hcollects, fun _ ↦ hdead⟩

theorem ends_shareCaps {users : JelloChannelUsers} (n k i : ℕ)
    (hcaps : ∀ j, i ≤ j → j < i + n → src.heap.ThreadSafe users (fn.caps j))
    (hx : x.vm.Healthy m) (hquiet : ∀ j < fn.pointers i n, x.collects j = false) :
    Ends (shareCaps m src (jelloFunctionShareToVm m src k) fn i n)
      (fun o y ↦ ∀ ws, o = some ws → y.vm.Healthy m ∧ (∀ q, y.vm.Live m q ↔ x.vm.Live m q) ∧
        (∀ j, y.collects j = x.collects (j + fn.pointers i n)) ∧
        ∀ j < n, jelloIsPtr (fn.caps (i + j)) = true → ¬x.vm.Live m (ws.getD j 0)) x := by
  induction n generalizing i x with
  | zero =>
    refine (spec_pure _).mpr fun ws _ ↦ ⟨hx, fun q ↦ Iff.rfl, fun j ↦ rfl, fun j hj ↦ ?_⟩
    exact absurd hj (Nat.not_lt_zero j)
  | succ n ih =>
    rw [pointers_succ] at hquiet ⊢
    have hfirst := ends_shareCap_quiet k (hcaps i le_rfl (by omega)) hx fun hp ↦
      hquiet 0 (by rw [if_pos hp]; omega)
    refine spec_bind.mpr (hfirst.mono fun o y hy ↦ ?_)
    cases o with
    | none => exact (spec_pure _).mpr fun ws hws ↦ absurd hws (by simp)
    | some w =>
      obtain ⟨hhealthy, hlive, hcollects, hdead⟩ := hy w rfl
      have hrest := ih (i + 1) (fun j hj hjn ↦ hcaps j (by omega) (by omega)) hhealthy
        fun j hj ↦ (hcollects j).trans (hquiet _ (by omega))
      refine spec_bind.mpr (hrest.mono fun o z hz ↦ (spec_pure _).mpr fun ws hws ↦ ?_)
      obtain ⟨vs, rfl, rfl⟩ := Option.map_eq_some_iff.mp hws
      obtain ⟨hhealthy', hlive', hcollects', hdead'⟩ := hz vs rfl
      refine ⟨hhealthy', fun q ↦ (hlive' q).trans (hlive q), fun j ↦ ?_, fun j hj hp ↦ ?_⟩
      · rw [hcollects', hcollects, Nat.add_assoc]
      · cases j with
        | zero => exact hdead hp
        | succ j =>
          rw [← hlive, List.getD_cons_succ]
          refine hdead' j (by omega) ?_
          rwa [Nat.add_right_comm]

end Copies

section Spawn

variable {m : JelloBcModule} {src : Store} {dst : GcVm} {users : JelloChannelUsers}
  {fn : JelloFunction}

theorem result_cap_raw (hraw : fn.capsAreRaw = true) (i : ℕ) {v : JelloValue} :
    result (fn.cap i) src = .ok (v, src) ↔
      8 * i + 8 ≤ fn.rawCapSize.toNat ∧ v = load64 fn.rawCaps (8 * i) := by
  rw [JelloFunction.cap, hraw, Bool.not_true, if_neg Bool.false_ne_true]
  split_ifs with hsize
  · simp [hsize, eq_comm]
  · simp [hsize, wild]

theorem result_cap (hraw : fn.capsAreRaw = false) (i : ℕ) :
    result (fn.cap i) src = .ok (fn.caps i, src) := by
  rw [JelloFunction.cap, hraw]
  rfl

theorem spawnCapsOk_raw_iff (hraw : fn.capsAreRaw = true) :
    result (jelloFunctionSpawnCapsOk users fn) src = .ok (true, src) ↔
      ∀ i < fn.ncaps.toNat, 8 * i + 8 ≤ fn.rawCapSize.toNat ∧
        src.heap.ThreadSafe users (load64 fn.rawCaps (8 * i)) := by
  rw [jelloFunctionSpawnCapsOk, spawnCapsOkFrom_true_iff]
  simp only [result_cap_raw hraw, Nat.zero_le, true_implies, Nat.zero_add]
  refine forall₂_congr fun i _ ↦ ?_
  simp

theorem spawnCapsOk_iff (hraw : fn.capsAreRaw = false) :
    result (jelloFunctionSpawnCapsOk users fn) src = .ok (true, src) ↔
      ∀ i < fn.ncaps.toNat, src.heap.ThreadSafe users (fn.caps i) := by
  rw [jelloFunctionSpawnCapsOk, spawnCapsOkFrom_true_iff]
  simp [result_cap hraw]

theorem shares_allocated (hdst : dst.Healthy m) (hroom : dst.Room) (collects : ℕ → Bool) {n size : ℕ}
    {g : JelloFunction}
    (hr : result (jelloFunctionShareToVm m src n fn) ⟨dst, users, collects⟩ =
      result (some <$> allocate m size (.function g)) ⟨dst, users, collects⟩)
    (hg : g.funcIndex = fn.funcIndex ∧ g.ncaps = fn.ncaps ∧ g.capsAreRaw = fn.capsAreRaw ∧
      (fn.capsAreRaw = true → g.rawCapSize = fn.rawCapSize ∧
        ∀ i < fn.rawCapSize.toNat, g.rawCaps i = fn.rawCaps i) ∧
      (fn.capsAreRaw = false → ∀ t : GcVm, ∀ i < fn.ncaps.toNat,
        t.Stands src.heap (fn.caps i) (g.caps i))) :
    ∃ n p t, result (jelloFunctionShareToVm m src n fn) ⟨dst, users, collects⟩ = .ok (some p, t) ∧
      t.vm.Shares src.heap fn p := by
  obtain ⟨p, t, halloc, hmem, hcell⟩ := allocated (x := ⟨dst, users, collects⟩) hdst hroom size
    (.function g)
  obtain ⟨hindex, hncaps, hraw, hrawCaps, hwords⟩ := hg
  refine ⟨n, p, t, ?_, hmem, g, hcell, hindex, hncaps, hraw, hrawCaps, fun h ↦ hwords h t.vm⟩
  rw [hr, ← bind_pure_comp, result_then halloc]
  rfl

theorem shares_raw (hraw : fn.capsAreRaw = true)
    (hbound : jelloBoundThisIsSet fn.boundThis = false) (hdst : dst.Healthy m) (hroom : dst.Room)
    (collects : ℕ → Bool) :
    ∃ n p t, result (jelloFunctionShareToVm m src n fn) ⟨dst, users, collects⟩ = .ok (some p, t) ∧
      t.vm.Shares src.heap fn p := by
  have hr : result (jelloFunctionShareToVm m src 1 fn) ⟨dst, users, collects⟩ =
      result (some <$> shareClosureNewRaw m fn.typeId fn.funcIndex fn.ncaps fn.rawCapSize fn.rawCaps)
        ⟨dst, users, collects⟩ := by
    rw [jelloFunctionShareToVm, hbound, if_neg Bool.false_ne_true, if_pos hraw]
  refine shares_allocated hdst hroom collects hr ?_
  refine ⟨rfl, rfl, hraw.symm, fun _ ↦ ⟨rfl, fun _ _ ↦ rfl⟩, fun h ↦ ?_⟩
  rw [hraw] at h
  exact absurd h.symm Bool.false_ne_true

theorem stands_word {t : GcVm} {h : Heap} {v : JelloValue} (hp : jelloIsPtr v = false) :
    t.Stands h v v := by
  refine ⟨fun _ ↦ rfl, fun h ↦ ?_⟩
  rw [hp] at h
  exact absurd h Bool.false_ne_true

theorem shares_words (hraw : fn.capsAreRaw = false)
    (hbound : jelloBoundThisIsSet fn.boundThis = false) (hdst : dst.Healthy m) (hroom : dst.Room)
    (hsafe : ∀ i < fn.ncaps.toNat, src.heap.ThreadSafe users (fn.caps i))
    (hwords : ∀ i < fn.ncaps.toNat, jelloIsPtr (fn.caps i) = false) (collects : ℕ → Bool) :
    ∃ n p t, result (jelloFunctionShareToVm m src n fn) ⟨dst, users, collects⟩ = .ok (some p, t) ∧
      t.vm.Shares src.heap fn p := by
  have hnotRaw : ¬fn.capsAreRaw = true := by simp [hraw]
  by_cases hncaps : fn.ncaps = 0
  · have hr : result (jelloFunctionShareToVm m src 1 fn) ⟨dst, users, collects⟩ =
        result (some <$> shareFunctionNew m fn.typeId fn.funcIndex) ⟨dst, users, collects⟩ := by
      rw [jelloFunctionShareToVm, hbound, if_neg Bool.false_ne_true, if_neg hnotRaw,
        if_pos hncaps]
    refine shares_allocated hdst hroom collects hr ?_
    refine ⟨rfl, hncaps.symm, hraw.symm, fun h ↦ absurd h hnotRaw, fun _ t i hi ↦ ?_⟩
    rw [hncaps] at hi
    exact absurd hi (Nat.not_lt_zero i)
  · have hr : result (jelloFunctionShareToVm m src 1 fn) ⟨dst, users, collects⟩ =
        result (some <$> shareClosureNew m fn.typeId fn.funcIndex fn.ncaps fun i ↦
          ((List.range' 0 fn.ncaps.toNat).map fn.caps).getD i 0) ⟨dst, users, collects⟩ := by
      rw [jelloFunctionShareToVm, hbound, if_neg Bool.false_ne_true, if_neg hnotRaw,
        if_neg hncaps, result_then (result_shareCaps_words _ _ fun j _ hj ↦ ?_)]
      rw [Nat.zero_add] at hj
      exact ⟨hwords j hj, (threadSafe_word_iff (hwords j hj)).mp (hsafe j hj)⟩
    refine shares_allocated hdst hroom collects hr ?_
    refine ⟨rfl, rfl, hraw.symm, fun h ↦ absurd h hnotRaw, fun _ t i hi ↦ ?_⟩
    have hcap : ((List.range' 0 fn.ncaps.toNat).map fn.caps).getD i 0 = fn.caps i := by
      simp [hi]
    dsimp only
    rw [hcap]
    exact stands_word (hwords i hi)

theorem not_shares (hraw : fn.capsAreRaw = false) (hdst : dst.Healthy m)
    (hsafe : ∀ i < fn.ncaps.toNat, src.heap.ThreadSafe users (fn.caps i)) {i : ℕ}
    (hi : i < fn.ncaps.toNat) (hp : jelloIsPtr (fn.caps i) = true) (n : ℕ) :
    Ends (jelloFunctionShareToVm m src n fn)
      (fun o t ↦ ∀ p, o = some p → ¬t.vm.Shares src.heap fn p)
      ⟨dst, users, fun j ↦ j == fn.pointers 0 fn.ncaps.toNat⟩ := by
  have hnone : ∀ t : Sharing, ∀ p, (none : Option JelloValue) = some p →
      ¬t.vm.Shares src.heap fn p := fun t p hp ↦ absurd hp (by simp)
  have hncaps : fn.ncaps ≠ 0 := by
    intro h
    rw [h] at hi
    exact absurd hi (Nat.not_lt_zero i)
  cases n with
  | zero => exact spec_fail _
  | succ n =>
    refine spec_ite.mpr ⟨fun _ ↦ (spec_pure _).mpr (hnone _), fun _ ↦ ?_⟩
    rw [hraw, if_neg Bool.false_ne_true, if_neg hncaps]
    refine spec_bind.mpr ((ends_shareCaps _ n 0 (fun j _ hj ↦ hsafe j (by omega)) hdst ?_).mono
      fun o y hy ↦ ?_)
    · intro j hj
      exact beq_false_of_ne (Nat.ne_of_lt hj)
    cases o with
    | none => exact (spec_pure _).mpr (hnone _)
    | some ws =>
      obtain ⟨hhealthy, hlive, hcollects, hdead⟩ := hy ws rfl
      have hcollect : y.collects 0 = true := by
        rw [hcollects, Nat.zero_add]
        exact beq_self_eq_true _
      refine spec_map.mpr ((ends_allocate_collecting hhealthy hcollect).mono fun p t ht q hq ↦ ?_)
      obtain rfl := Option.some.inj hq
      obtain ⟨hcell, hobjects⟩ := ht
      rintro ⟨-, g, hg, -, -, -, -, hstands⟩
      rw [hcell] at hg
      obtain rfl := Cell.function.inj (Option.some.inj hg)
      obtain ⟨-, hmem, -, c, d, hc, hd, hcopied⟩ := (hstands hraw i hi).copied hp
      rcases hobjects _ hmem with hself | hlive'
      · have hcell' : t.vm.heap.cells (ws.getD i 0) = _ := (congrArg _ hself).trans hcell
        obtain rfl := Option.some.inj (hd.symm.trans hcell')
        cases hcopied with
        | copySafe h => exact absurd h Bool.false_ne_true
        | function _ _ hg => exact hncaps hg
      · refine hdead i hi ?_ ((hlive _).mp hlive')
        rwa [Nat.zero_add]

/-- The check says what it is to say and what passes it can be shared, exactly for closures with raw
captures that look like values that can be shared, and for other closures that are bound, that have
a capture that cannot be shared, or that have no captures that would be copied. -/
theorem spawn_share_iff (hok : dst.Ok) (hclosed : dst.Closed m) (hroom : dst.Room)
    (hcaps : fn.capsAreRaw = false → ∀ i < fn.ncaps.toNat, src.heap.IsValue (fn.caps i)) :
    ((∃ b, result (jelloFunctionSpawnCapsOk users fn) src = .ok (b, src) ∧
        (b = true ↔ fn.MayBeShared src.heap users)) ∧
      (result (jelloFunctionSpawnCapsOk users fn) src = .ok (true, src) →
        jelloBoundThisIsSet fn.boundThis = false → ∀ collects : ℕ → Bool, ∃ n p t,
          result (jelloFunctionShareToVm m src n fn) ⟨dst, users, collects⟩ = .ok (some p, t) ∧
            t.vm.Shares src.heap fn p)) ↔
      (fn.capsAreRaw = true → ∀ i < fn.ncaps.toNat, 8 * i + 8 ≤ fn.rawCapSize.toNat ∧
        src.heap.ThreadSafe users (load64 fn.rawCaps (8 * i))) ∧
      (fn.capsAreRaw = false → jelloBoundThisIsSet fn.boundThis = true ∨
        (∃ i < fn.ncaps.toNat, ¬src.heap.ThreadSafe users (fn.caps i)) ∨
        ∀ i < fn.ncaps.toNat, jelloIsPtr (fn.caps i) = false) := by
  have hdst : dst.Healthy m := ⟨hok, hclosed⟩
  cases hraw : fn.capsAreRaw with
  | true =>
    have hmay : fn.MayBeShared src.heap users := .inl hraw
    rw [← spawnCapsOk_raw_iff hraw]
    constructor
    · rintro ⟨⟨b, hb, hiff⟩, -⟩
      refine ⟨fun _ ↦ ?_, fun h ↦ absurd h.symm Bool.false_ne_true⟩
      rw [hb, hiff.mpr hmay]
    · rintro ⟨h, -⟩
      refine ⟨⟨true, h rfl, fun _ ↦ hmay, fun _ ↦ rfl⟩, fun _ hbound collects ↦ ?_⟩
      exact shares_raw hraw hbound hdst hroom collects
  | false =>
    have hiff := @spawnCapsOk_iff src users fn hraw
    have hmay : fn.MayBeShared src.heap users ↔
        ∀ i < fn.ncaps.toNat, src.heap.ThreadSafe users (fn.caps i) := by
      rw [JelloFunction.MayBeShared, hraw]
      simp
    have hcheck : ∃ b, result (jelloFunctionSpawnCapsOk users fn) src = .ok (b, src) ∧
        (b = true ↔ fn.MayBeShared src.heap users) := by
      obtain ⟨b, hb⟩ := @spawnCapsOkFrom_ends users src fn hraw fn.ncaps.toNat 0 fun j _ hj ↦
        hcaps hraw j (by omega)
      refine ⟨b, hb, ?_⟩
      rw [hmay, ← hiff, jelloFunctionSpawnCapsOk, hb]
      simp
    refine (and_iff_right hcheck).trans ⟨fun h ↦ ⟨fun h ↦ absurd h Bool.false_ne_true, fun _ ↦ ?_⟩,
      fun h hpass hbound collects ↦ ?_⟩
    · by_contra hcon
      push Not at hcon
      obtain ⟨hbound, hsafe, i, hi, hp⟩ := hcon
      obtain ⟨n, p, t, hr, hshares⟩ := h (hiff.mpr hsafe) (by simpa using hbound) _
      exact (not_shares hraw hdst hsafe hi (by simpa using hp) n).of_result hr p rfl hshares
    · have hsafe := hiff.mp hpass
      rcases h.2 rfl with hset | ⟨i, hi, hunsafe⟩ | hwords
      · rw [hbound] at hset
        exact absurd hset Bool.false_ne_true
      · exact absurd (hsafe i hi) hunsafe
      · exact shares_words hraw hbound hdst hroom hsafe hwords collects

end Spawn

/-- A closure that has captured the integer 5, as it is or as a tagged word. -/
def closureOfFive (capsAreRaw : Bool) (cap : JelloValue) : JelloFunction :=
  { typeId := 0
    funcIndex := 47
    ncaps := 1
    boundThis := jelloMakeNull
    capsAreRaw := capsAreRaw
    rawCapSize := if capsAreRaw then 8 else 0
    caps := fun _ ↦ if capsAreRaw then 0 else cap
    rawCaps := fun i ↦ if capsAreRaw ∧ i = 0 then 5 else 0 }

theorem caps_closureOfFive (cap : JelloValue) (i : ℕ) :
    (closureOfFive false cap).caps i = cap := rfl

theorem cyclicVm_room : cyclicVm.Room := by
  refine ⟨?_, by decide, by decide⟩
  simp [cyclicVm, GcVm.heap, cyclicHeap]

theorem spawn_share_iff_five :
    (∃ b, result (jelloFunctionSpawnCapsOk (fun _ ↦ none) (closureOfFive false (jelloMakeI32 5)))
        cyclicVm.vm.store = .ok (b, cyclicVm.vm.store) ∧
      (b = true ↔ (closureOfFive false (jelloMakeI32 5)).MayBeShared cyclicVm.vm.store.heap
        fun _ ↦ none)) ∧
    (result (jelloFunctionSpawnCapsOk (fun _ ↦ none) (closureOfFive false (jelloMakeI32 5)))
        cyclicVm.vm.store = .ok (true, cyclicVm.vm.store) →
      jelloBoundThisIsSet (closureOfFive false (jelloMakeI32 5)).boundThis = false →
      ∀ collects : ℕ → Bool, ∃ n p t,
        result (jelloFunctionShareToVm default cyclicVm.vm.store n
          (closureOfFive false (jelloMakeI32 5))) ⟨cyclicVm, fun _ ↦ none, collects⟩ =
            .ok (some p, t) ∧
        t.vm.Shares cyclicVm.vm.store.heap (closureOfFive false (jelloMakeI32 5)) p) := by
  refine (spawn_share_iff cyclicVm_ok cyclicVm_closed cyclicVm_room fun _ i _ hp ↦ ?_).mpr
    ⟨fun h ↦ ?_, fun _ ↦ .inr (.inr fun i _ ↦ ?_)⟩
  · rw [caps_closureOfFive] at hp
    exact absurd hp (by decide)
  · exact absurd h (by decide)
  · rw [caps_closureOfFive]
    decide

/-- The raw capture 5 is read as a value with a tag that no value has. The box that holds 7 is
copied, and its copy is collected when the closure is allocated. -/
theorem spawn_share_fails :
    (result (jelloFunctionSpawnCapsOk (fun _ ↦ none) (closureOfFive true 0)) cyclicVm.vm.store =
        .ok (false, cyclicVm.vm.store) ∧
      (closureOfFive true 0).MayBeShared cyclicVm.vm.store.heap fun _ ↦ none) ∧
    result (jelloFunctionSpawnCapsOk (fun _ ↦ none) (closureOfFive false 48)) cyclicVm.vm.store =
        .ok (true, cyclicVm.vm.store) ∧
      jelloBoundThisIsSet (closureOfFive false 48).boundThis = false ∧
      (∃ p t, result (jelloFunctionShareToVm default cyclicVm.vm.store 1 (closureOfFive false 48))
        ⟨cyclicVm, fun _ ↦ none, fun i ↦ i == 1⟩ = .ok (some p, t)) ∧
      ∀ n p t, result (jelloFunctionShareToVm default cyclicVm.vm.store n (closureOfFive false 48))
        ⟨cyclicVm, fun _ ↦ none, fun i ↦ i == 1⟩ = .ok (some p, t) →
          ¬t.vm.Shares cyclicVm.vm.store.heap (closureOfFive false 48) p := by
  have hsafe : ∀ i < (closureOfFive false 48).ncaps.toNat,
      cyclicVm.vm.store.heap.ThreadSafe (fun _ ↦ none) ((closureOfFive false 48).caps i) := by
    intro i _
    rw [caps_closureOfFive]
    have hcell : cyclicVm.vm.store.heap.cells 48 = some (.boxI64 0 7) := by
      simp [cyclicVm, cyclicHeap]
    exact .copySafe (by decide) hcell rfl
  refine ⟨⟨?_, .inl rfl⟩, (spawnCapsOk_iff rfl).mpr hsafe, by decide, ?_, fun n p t hr ↦ ?_⟩
  · have hcap : result ((closureOfFive true 0).cap 0) cyclicVm.vm.store =
        .ok (5, cyclicVm.vm.store) := (result_cap_raw rfl 0).mpr (by decide)
    have hword : result (jelloValueIsThreadCapSafe (fun _ ↦ none) 5) cyclicVm.vm.store =
        .ok (false, cyclicVm.vm.store) := result_threadCapSafe_word (by decide)
    change result (spawnCapsOkFrom _ _ 0 1) _ = _
    rw [spawnCapsOkFrom, result_then hcap, result_then hword]
    rfl
  · have hview : (result (jelloFunctionShareToVm default cyclicVm.vm.store 1
        (closureOfFive false 48)) ⟨cyclicVm, fun _ ↦ none, fun i ↦ i == 1⟩).toOption.map
          (fun r ↦ r.1.isSome) = some true := by
      decide +kernel
    obtain ⟨⟨o, t⟩, hr, hsome⟩ := result_of_view hview
    obtain ⟨p, rfl⟩ := Option.isSome_iff_exists.mp hsome
    exact ⟨p, t, hr⟩
  · exact (not_shares rfl ⟨cyclicVm_ok, cyclicVm_closed⟩ hsafe (i := 0) (by decide) (by decide)
      n).of_result hr p rfl

end JelloVM
