import JelloVM.ObjectProbe
import JelloVM.Handlers

namespace JelloVM

open Function ByteMemory Logged OpenAddressing

section Small

variable {o o' : JelloObject} {m : AtomMap} {k i : UInt32} {v : JelloValue} {b : Bool} {n : ℕ}

/-- A table of the first size with at most `n` entries, from which nothing was removed. -/
structure Small (n : ℕ) (o : JelloObject) : Prop where
  cap : o.cap = objectInitCap
  noTomb : NoTomb o
  len : o.len.toNat ≤ n

theorem Small.hasEmpty (h : Small n o) (ho : ObjectInv o) (hn : n < 8) : HasEmpty o.table := by
  have hcap : o.cap.toNat = 8 := by
    rw [h.cap]
    rfl
  have hlen := h.len
  exact hasEmpty_of_noTomb h.noTomb (by rw [← ho.len_eq]; omega)

theorem Small.fits (h : Small n o) (hn : n ≤ 4) : ensureCap o = some o := by
  have hlen := h.len
  have hlt : (o.len + 1) * objectLoadNum < o.cap * objectLoadDen := by
    rw [h.cap, UInt32.lt_iff_toNat_lt, UInt32.toNat_mul, UInt32.toNat_add]
    have hnum : objectLoadNum.toNat = 10 := rfl
    have hden : (objectInitCap * objectLoadDen).toNat = 56 := rfl
    have hone : (1 : UInt32).toNat = 1 := rfl
    rw [hnum, hden, hone, Nat.mod_eq_of_lt (a := o.len.toNat + 1) (by omega),
      Nat.mod_eq_of_lt (by omega)]
    omega
  exact if_pos hlt

theorem Small.same (h : Small n o) (hs : SameEntries o o') : Small n o' := by
  have hstates : o'.states = o.states := congrArg Table.state hs.1
  have hcap : o'.cap.toNat = o.cap.toNat := congrArg Table.cap hs.1
  refine ⟨UInt32.toNat_inj.mp (hcap.trans (congrArg UInt32.toNat h.cap)), fun q hq ↦ ?_, ?_⟩
  · rw [hstates]
    exact h.noTomb q (by omega)
  · rw [hs.2]
    exact h.len

theorem Small.writeEntry (h : Small n o) (hn : n ≤ 4) (hw : writeEntry o i k v = some o') :
    Small (n + 1) o' := by
  have hlen := h.len
  unfold JelloVM.writeEntry at hw
  split_ifs at hw
  obtain rfl := Option.some.inj hw
  refine ⟨h.cap, fun q hq ↦ ?_, ?_⟩
  · change update o.states i.toNat .occupied q ≠ .tomb
    by_cases hqi : q = i.toNat
    · simp [hqi]
    · rw [update_of_ne hqi]
      exact h.noTomb q hq
  · rw [toNat_succ (by omega)]
    omega

theorem set_small (ho : Models o m) (h : Small n o) (hn : n ≤ 4) (k : UInt32) (v : JelloValue) :
    ∃ o', jelloObjectSet o k v = some o' ∧ Models o' (update m k (some v)) ∧ Small (n + 1) o' := by
  obtain ⟨⟨i, b, o₁⟩, hf⟩ := Option.isSome_iff_exists.mp
    (probe_returns ho.inv (k := k) (.inl (h.hasEmpty ho.inv (by omega))) (le_refl (probeFuel o)))
  obtain ⟨hsame, hres⟩ := findSlot_spec ho.inv hf
  have h₁ := h.same hsame
  obtain ⟨rfl, hk⟩ | ⟨rfl, hk, hfree⟩ := hres
  · have hset : jelloObjectSet o k v = some (writeSlot (objectIcStore o₁ k i) i v) := by
      simp [jelloObjectSet, jelloObjectUpsert, h.fits hn, hf]
    have hkept := h₁.same (sameEntries_icStore o₁ k i)
    exact ⟨_, hset, set_spec ho hset, hkept.cap, hkept.noTomb, Nat.le_succ_of_le hkept.len⟩
  · rw [← hsame.1] at hk hfree
    obtain ⟨o₂, hw, -, -⟩ := (ho.congr hsame).writeEntry hk hfree jelloMakeNull
    have hset : jelloObjectSet o k v = some (writeSlot o₂ i v) := by
      simp [jelloObjectSet, jelloObjectUpsert, h.fits hn, hf, hw]
    have hkept := h₁.writeEntry hn hw
    exact ⟨_, hset, set_spec ho hset, hkept.cap, hkept.noTomb, hkept.len⟩

theorem small_new (typeId : UInt32) : Small 0 (jelloObjectNew false default typeId) :=
  ⟨rfl, fun _ _ ↦ SlotState.noConfusion, le_rfl⟩

theorem get_small (ho : Models o m) (h : Small n o) (hn : n < 8) (k : UInt32) :
    ∃ o', jelloObjectGet o k = some ((m k).getD jelloMakeNull, o') := by
  obtain ⟨⟨i, b, o₁⟩, hf⟩ := Option.isSome_iff_exists.mp
    (findOccupiedSlot_returns ho.inv (.inl (h.hasEmpty ho.inv hn)) (le_refl (probeFuel o))
      (k := k))
  have hget : jelloObjectGet o k =
      some (if !b then jelloMakeNull else o₁.vals i.toNat, o₁) := by
    simp [jelloObjectGet, hf]
  exact ⟨o₁, by rw [hget, (get_spec ho hget).1]⟩

end Small

section Wrap

/-- What a program reads in a field of an object. -/
def Field (o : JelloObject) (k : UInt32) (v : JelloValue) : Prop :=
  ∃ o', jelloObjectGet o k = some (v, o')

def JelloBytes.Reads (c : JelloBytes) (b : List UInt8) : Prop :=
  c.length = UInt32.ofNat b.length ∧ ∀ i < b.length, c.data i = b.getD i 0

/-- The value is a pointer to bytes that read `b`. -/
def HoldsText (h : Heap) (v : JelloValue) (b : List UInt8) : Prop :=
  jelloIsPtr v = true ∧ ∃ c, h.cells v = some (.bytes c) ∧ c.Reads b

def kindText (code : TrapCode) : List UInt8 :=
  text (if code == .thrown then "Assert" else trapKindName code)

def kindAtom (m : JelloBcModule) : UInt32 := vmModuleAtomIdOrDefault m "kind" 2

def messageAtom (m : JelloBcModule) : UInt32 := vmModuleAtomIdOrDefault m "message" 3

def codeAtom (m : JelloBcModule) : UInt32 := vmModuleAtomIdOrDefault m "code" 4

/-- At `p` there is an object with the kind, the code and, if there is one, the message of the
exception that was pending in `s`. -/
def Describes (m : JelloBcModule) (s : Store) (h : Heap) (p : JelloValue) : Prop :=
  ∃ o, h.cells p = some (.object o) ∧
    (∃ v, Field o (kindAtom m) v ∧ HoldsText h v (kindText s.trapCode)) ∧
    Field o (codeAtom m) (jelloMakeI32 s.trapCode.code) ∧
    ∀ msg, s.trapMsg = some msg → ∃ v, Field o (messageAtom m) v ∧ HoldsText h v (cstring msg)

def textBytes (m : JelloBcModule) (b : List UInt8) : JelloBytes :=
  { typeId := UInt32.ofNat (moduleTypeId m .bytes)
    length := UInt32.ofNat b.length
    data := fun i ↦ b.getD i 0 }

/-- The three fields get different atoms, or the later ones do not destroy the earlier ones. -/
def AtomsApart (m : JelloBcModule) (s : Store) : Prop :=
  kindAtom m ≠ codeAtom m ∧
    ∀ msg, s.trapMsg = some msg → messageAtom m ≠ codeAtom m ∧
      (messageAtom m = kindAtom m → (textBytes m (cstring msg)).Reads (kindText s.trapCode))

variable {m : JelloBcModule} {s s' : Store} {p v : JelloValue} {o o' : JelloObject} {k : UInt32}

theorem reads_textBytes (m : JelloBcModule) (b : List UInt8) : (textBytes m b).Reads b :=
  ⟨rfl, fun _ _ ↦ rfl⟩

theorem result_bytesOf (b : List UInt8) : result (bytesOf (moduleTypeId m .bytes) b) s =
    .ok (s.heap.next, { s with heap := (s.heap.alloc (.bytes (textBytes m b))).2 }) := rfl

theorem result_setField (hp : s.heap.cells p = some (.object o))
    (hset : jelloObjectSet o k v = some o') : result (setField p k v) s =
      .ok ((), { s with heap := s.heap.write p (.object o') }) := by
  simp [setField, objectAt, cellAt, hp, hset, orDiverge, writeCell, Except.bind]

/-- What the payload maps the atoms to, when its texts are at `kb` and `mb`. -/
def payloadMap (m : JelloBcModule) (code : TrapCode) (msg : Option (List UInt8))
    (kb mb : JelloValue) : AtomMap :=
  let kind : AtomMap := update (fun _ ↦ none) (kindAtom m) (some kb)
  update (if msg.isSome then update kind (messageAtom m) (some mb) else kind) (codeAtom m)
    (some (jelloMakeI32 code.code))

/-- The object that describes a trap lies at `p`, its texts after it. -/
structure Wrapped (m : JelloBcModule) (s : Store) (h : Heap) (p : JelloValue) : Prop where
  object : ∃ o, h.cells p = some (.object o) ∧ Small 3 o ∧
    Models o (payloadMap m s.trapCode s.trapMsg (p + 16) (p + 32))
  kind : h.cells (p + 16) = some (.bytes (textBytes m (kindText s.trapCode)))
  message : ∀ msg, s.trapMsg = some msg →
    h.cells (p + 32) = some (.bytes (textBytes m (cstring msg)))

theorem result_vmWrapCatchPayload_user (h : catchPayloadIsUserThrow s = true) :
    result (vmWrapCatchPayload m) s = .ok (s.excPayload, s) := by
  simp [vmWrapCatchPayload, h, Except.bind]

def wrapRest (m : JelloBcModule) (p : JelloValue) (code : TrapCode) :
    Option (List UInt8) → StoreM JelloValue
  | some msg => do
    let mb ← bytesOf (moduleTypeId m .bytes) (cstring msg)
    setField p (messageAtom m) mb
    setField p (codeAtom m) (jelloMakeI32 code.code)
    pure p
  | none => do
    setField p (codeAtom m) (jelloMakeI32 code.code)
    pure p

theorem vmWrapCatchPayload_eq (m : JelloBcModule) : vmWrapCatchPayload m = (do
    let s ← read id
    if catchPayloadIsUserThrow s then pure s.excPayload
    else do
      let o ← objectNew (UInt32.ofNat (moduleTypeId m .object))
      let kb ← bytesOf (moduleTypeId m .bytes) (kindText s.trapCode)
      setField o (kindAtom m) kb
      wrapRest m o s.trapCode s.trapMsg) := by
  unfold vmWrapCatchPayload
  refine bind_congr fun s ↦ if_congr Iff.rfl rfl ?_
  cases s.trapMsg <;> rfl

theorem result_wrapRest {mp : AtomMap} (code : TrapCode) (msg : Option (List UInt8))
    (hp : s.heap.cells p = some (.object o)) (hne : s.heap.next ≠ p) (hm : Models o mp)
    (hsmall : Small 1 o) :
    ∃ heap o', result (wrapRest m p code msg) s = .ok (p, { s with heap := heap }) ∧
      heap.cells p = some (.object o') ∧ Small 3 o' ∧
      Models o' (update (if msg.isSome then update mp (messageAtom m) (some s.heap.next) else mp)
        (codeAtom m) (some (jelloMakeI32 code.code))) ∧
      (∀ q, q ≠ p → q ≠ s.heap.next → heap.cells q = s.heap.cells q) ∧
      ∀ b, msg = some b → heap.cells s.heap.next = some (.bytes (textBytes m (cstring b))) := by
  cases msg with
  | none =>
    obtain ⟨o', hset, hm', hs'⟩ := set_small hm hsmall (by omega) (codeAtom m)
      (jelloMakeI32 code.code)
    refine ⟨s.heap.write p (.object o'), o', ?_, by simp [Heap.write],
      ⟨hs'.cap, hs'.noTomb, hs'.len.trans (by omega)⟩, hm', fun q hq _ ↦ ?_, fun b hb ↦ ?_⟩
    · rw [wrapRest, result_bind, result_setField hp hset]
      rfl
    · simp [Heap.write, update_of_ne hq]
    · exact Option.noConfusion rfl (heq_of_eq hb)
  | some b =>
    let heap₁ := (s.heap.alloc (.bytes (textBytes m (cstring b)))).2
    obtain ⟨o₁, hset₁, hm₁, hs₁⟩ := set_small hm hsmall (by omega) (messageAtom m) s.heap.next
    obtain ⟨o₂, hset₂, hm₂, hs₂⟩ := set_small hm₁ hs₁ (by omega) (codeAtom m)
      (jelloMakeI32 code.code)
    have hp₁ : heap₁.cells p = some (.object o) := by
      simp [heap₁, Heap.alloc, update_of_ne hne.symm, hp]
    have hp₂ : (heap₁.write p (.object o₁)).cells p = some (.object o₁) := by simp [Heap.write]
    have hfield₁ := result_setField (s := { s with heap := heap₁ }) hp₁ hset₁
    have hfield₂ := result_setField (s := { s with heap := heap₁.write p (.object o₁) }) hp₂ hset₂
    refine ⟨(heap₁.write p (.object o₁)).write p (.object o₂), o₂, ?_, by simp [Heap.write], hs₂,
      hm₂, fun q hq hqn ↦ ?_, fun b' hb ↦ ?_⟩
    · rw [wrapRest, result_bind, result_bytesOf]
      change result (do
        setField p (messageAtom m) s.heap.next
        setField p (codeAtom m) (jelloMakeI32 code.code)
        pure p) { s with heap := heap₁ } = _
      rw [result_bind, hfield₁]
      change result (do
        setField p (codeAtom m) (jelloMakeI32 code.code)
        pure p) { s with heap := heap₁.write p (.object o₁) } = _
      rw [result_bind, hfield₂]
      rfl
    · simp [Heap.write, heap₁, Heap.alloc, update_of_ne hq, update_of_ne hqn]
    · obtain rfl := Option.some.inj hb
      simp [Heap.write, heap₁, Heap.alloc, update_of_ne hne]

theorem result_vmWrapCatchPayload (h : catchPayloadIsUserThrow s = false) :
    ∃ heap, result (vmWrapCatchPayload m) s = .ok (s.heap.next, { s with heap := heap }) ∧
      Wrapped m s heap s.heap.next := by
  let p := s.heap.next
  let o₀ := jelloObjectNew false default (UInt32.ofNat (moduleTypeId m .object))
  let heap₁ := ((s.heap.alloc (.object o₀)).2.alloc (.bytes (textBytes m (kindText s.trapCode)))).2
  have h16 : p + 16 ≠ p := by simp
  have h32 : p + 32 ≠ p := by simp
  have h1632 : p + 16 ≠ p + 32 := by simp
  have hplus : p + 16 + 16 = p + 32 := by
    rw [add_assoc]
    rfl
  obtain ⟨o₁, hset₁, hm₁, hs₁⟩ := set_small (models_new false default (UInt32.ofNat
    (moduleTypeId m .object))) (small_new _) (by omega) (kindAtom m) (p + 16)
  have hp₁ : heap₁.cells p = some (.object o₀) := by
    simp [heap₁, Heap.alloc, p]
  have hfield := result_setField (s := { s with heap := heap₁ }) hp₁ hset₁
  let heap₂ := heap₁.write p (.object o₁)
  have hnext : heap₂.next = p + 32 := hplus
  obtain ⟨heap, o', hres, hcell, hsmall, hm', hother, hmsg⟩ := result_wrapRest (m := m)
    (s := { s with heap := heap₂ }) (p := p) s.trapCode s.trapMsg (by simp [heap₂, Heap.write])
    (by simp only [hnext]; exact h32) hm₁ hs₁
  simp only [hnext] at hm' hother hmsg
  have hstart : result (vmWrapCatchPayload m) s =
      result (wrapRest m p s.trapCode s.trapMsg) { s with heap := heap₂ } := by
    have hrest : result (do
        setField p (kindAtom m) (p + 16)
        wrapRest m p s.trapCode s.trapMsg) { s with heap := heap₁ } =
        result (wrapRest m p s.trapCode s.trapMsg) { s with heap := heap₂ } := by
      rw [result_bind, hfield]
      rfl
    rw [← hrest, vmWrapCatchPayload_eq]
    simp only [result_bind, result_read, id, Except.bind, h, Bool.false_eq_true, if_false]
    rfl
  refine ⟨heap, hstart.trans hres, ⟨o', hcell, hsmall, hm'⟩, ?_, hmsg⟩
  rw [hother _ h16 h1632]
  simp [heap₂, heap₁, Heap.write, Heap.alloc, p]

theorem jelloIsPtr_iff (v : JelloValue) : jelloIsPtr v = true ↔ v.toNat % 8 = 0 := by
  have hand : (v &&& 7).toNat = v.toNat % 8 := by
    rw [UInt64.toNat_and]
    exact Nat.and_two_pow_sub_one_eq_mod v.toNat 3
  rw [jelloIsPtr, hasTag, beq_iff_eq, ← UInt64.toNat_inj, hand]
  rfl

def tagged (t : JelloTag) (x : UInt32) : JelloValue := (x.toUInt64 <<< 3) ||| t.code

theorem tagged_toNat (t : JelloTag) (x : UInt32) :
    (tagged t x).toNat = x.toNat * 8 + t.code.toNat := by
  have hcode : t.code.toNat < 2 ^ 3 := by cases t <;> decide
  have hx := x.toNat_lt
  have hshift : (x.toUInt64 <<< 3).toNat = x.toNat <<< 3 := by
    rw [UInt64.toNat_shiftLeft, UInt32.toNat_toUInt64]
    simp only [Nat.shiftLeft_eq]
    exact Nat.mod_eq_of_lt (by simp; omega)
  rw [tagged, UInt64.toNat_or, hshift, ← Nat.shiftLeft_add_eq_or_of_lt hcode, Nat.shiftLeft_eq]

theorem hasTag_tagged (t : JelloTag) (x : UInt32) : hasTag t (tagged t x) = true := by
  have hcode : t.code.toNat < 8 := by cases t <;> decide
  have hand : (tagged t x &&& 7).toNat = (tagged t x).toNat % 8 := by
    rw [UInt64.toNat_and]
    exact Nat.and_two_pow_sub_one_eq_mod (tagged t x).toNat 3
  rw [hasTag, beq_iff_eq, ← UInt64.toNat_inj, hand, tagged_toNat]
  omega

theorem payload_tagged (t : JelloTag) (x : UInt32) : (tagged t x >>> 3).toUInt32 = x := by
  have hcode : t.code.toNat < 8 := by cases t <;> decide
  have hx := x.toNat_lt
  have hshift : (tagged t x >>> 3).toNat = (tagged t x).toNat / 8 := by
    rw [UInt64.toNat_shiftRight, Nat.shiftRight_eq_div_pow]
    rfl
  rw [← UInt32.toNat_inj, UInt64.toNat_toUInt32, hshift, tagged_toNat]
  omega

theorem not_jelloIsPtr_i32 (x : UInt32) : jelloIsPtr (jelloMakeI32 x) = false := by
  have hbit : (jelloMakeI32 x).toNat.testBit 0 = true := by
    rw [jelloMakeI32, UInt64.toNat_or, Nat.testBit_or]
    exact Bool.or_eq_true_iff.mpr (.inr rfl)
  rw [← Bool.not_eq_true, jelloIsPtr_iff]
  rw [Nat.testBit_zero, decide_eq_true_iff] at hbit
  omega

theorem jelloIsPtr_add {p d : JelloValue} (hp : jelloIsPtr p = true) (hd : d.toNat % 8 = 0) :
    jelloIsPtr (p + d) = true := by
  rw [jelloIsPtr_iff] at hp ⊢
  rw [UInt64.toNat_add]
  omega

theorem Small.field {mp : AtomMap} {n : ℕ} (ho : Models o mp) (h : Small n o) (hn : n < 8) :
    Field o k v ↔ v = (mp k).getD jelloMakeNull := by
  constructor
  · rintro ⟨o', hget⟩
    exact (get_spec ho hget).1
  · rintro rfl
    exact get_small ho h hn k

theorem holdsText_iff {h : Heap} {c : JelloBytes} {b : List UInt8} (hv : jelloIsPtr v = true)
    (hc : h.cells v = some (.bytes c)) : HoldsText h v b ↔ c.Reads b := by
  constructor
  · rintro ⟨-, c', hc', hr⟩
    obtain rfl : c = c' := by simpa [hc] using hc'
    exact hr
  · exact fun hr ↦ ⟨hv, c, hc, hr⟩

theorem not_holdsText_i32 {h : Heap} {x : UInt32} {b : List UInt8} :
    ¬ HoldsText h (jelloMakeI32 x) b := by
  rintro ⟨hp, -⟩
  rw [not_jelloIsPtr_i32] at hp
  exact Bool.noConfusion hp

theorem payloadMap_kind {code : TrapCode} {msg : Option (List UInt8)} {kb mb : JelloValue}
    (hne : kindAtom m ≠ codeAtom m) : payloadMap m code msg kb mb (kindAtom m) =
      some (if msg.isSome = true ∧ messageAtom m = kindAtom m then mb else kb) := by
  rw [payloadMap, update_of_ne hne]
  by_cases hsome : msg.isSome = true
  · by_cases heq : messageAtom m = kindAtom m
    · simp [hsome, heq]
    · simp [hsome, heq, update_of_ne (Ne.symm heq)]
  · simp [hsome]

theorem payloadMap_message {code : TrapCode} {b : List UInt8} {kb mb : JelloValue}
    (hne : messageAtom m ≠ codeAtom m) :
    payloadMap m code (some b) kb mb (messageAtom m) = some mb := by
  rw [payloadMap, update_of_ne hne]
  simp

/-- The object is complete exactly when its atoms do not get in each other's way. -/
theorem Wrapped.describes_iff {h : Heap} (hw : Wrapped m s h p) (hp : jelloIsPtr p = true) :
    Describes m s h p ↔ AtomsApart m s := by
  obtain ⟨o, hcell, hsmall, hmodels⟩ := hw.object
  have hp16 : jelloIsPtr (p + 16) = true := jelloIsPtr_add hp rfl
  have hp32 : jelloIsPtr (p + 32) = true := jelloIsPtr_add hp rfl
  have hfield {k : UInt32} {v : JelloValue} := hsmall.field hmodels (by omega) (k := k) (v := v)
  have hcode : payloadMap m s.trapCode s.trapMsg (p + 16) (p + 32) (codeAtom m) =
      some (jelloMakeI32 s.trapCode.code) := by simp [payloadMap]
  have hclash {k : UInt32} (hk : k = codeAtom m) {b : List UInt8} :
      ¬ ∃ v, Field o k v ∧ HoldsText h v b := by
    rintro ⟨v, hv, ht⟩
    rw [hfield, hk, hcode] at hv
    subst hv
    exact not_holdsText_i32 ht
  constructor
  · rintro ⟨o', hcell', hkind, -, hmsg⟩
    obtain rfl : o = o' := by simpa [hcell] using hcell'
    have hne : kindAtom m ≠ codeAtom m := fun heq ↦ hclash heq hkind
    refine ⟨hne, fun b hb ↦ ⟨fun heq ↦ hclash heq (hmsg b hb), fun heq ↦ ?_⟩⟩
    obtain ⟨v, hv, ht⟩ := hkind
    rw [hfield, payloadMap_kind hne, if_pos ⟨by rw [hb]; rfl, heq⟩] at hv
    subst hv
    exact (holdsText_iff hp32 (hw.message b hb)).mp ht
  · rintro ⟨hne, hmsg⟩
    refine ⟨o, hcell, ⟨_, hfield.mpr rfl, ?_⟩, hfield.mpr (by rw [hcode]; rfl), fun b hb ↦ ?_⟩
    · rw [payloadMap_kind hne, Option.getD_some]
      split_ifs with hsame
      · obtain ⟨b, hb⟩ := Option.isSome_iff_exists.mp hsame.1
        exact (holdsText_iff hp32 (hw.message b hb)).mpr ((hmsg b hb).2 hsame.2)
      · exact (holdsText_iff hp16 hw.kind).mpr (reads_textBytes m _)
    · refine ⟨_, hfield.mpr rfl, ?_⟩
      rw [hb, payloadMap_message (hmsg b hb).1, Option.getD_some]
      exact (holdsText_iff hp32 (hw.message b hb)).mpr (reads_textBytes m _)

end Wrap

end JelloVM
