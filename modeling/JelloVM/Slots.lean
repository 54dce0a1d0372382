import JelloVM.ObjectProbe
import JelloVM.Payload

namespace JelloVM

open Function ByteMemory Logged OpenAddressing

theorem Heap.write_self (h : Heap) (p : JelloValue) (c : Cell) :
    (h.write p c).cells p = some c := by
  simp only [Heap.write, update_self]

theorem Heap.write_of_ne {h : Heap} {p q : JelloValue} {c : Cell} (hne : q ≠ p) :
    (h.write p c).cells q = h.cells q := by
  simp only [Heap.write, update_of_ne hne]

theorem JelloArray.write_self (a : JelloArray) (i : UInt32) (v : JelloValue) :
    (a.write i v).data i.toNat = v := by
  simp only [JelloArray.write, update_self]

theorem Heap.write_write (h : Heap) (p : JelloValue) (c c' : Cell) :
    (h.write p c).write p c' = h.write p c' := by
  simp only [Heap.write, update_idem]

theorem Heap.write_same {h : Heap} {p : JelloValue} {c : Cell} (hp : h.cells p = some c) :
    h.write p c = h := by
  simp only [Heap.write, ← hp, update_eq_self]

/-- A number as a register of a numeric kind holds it. -/
inductive Num
  | word (x : UInt32)
  | i64 (x : UInt64)
  | f64 (x : UInt64)
  | f32 (x : UInt32)
  | f16 (x : UInt16)
  deriving DecidableEq, Repr

def Cell.num : Cell → Option Num
  | .boxI64 _ x => some (.i64 x)
  | .boxF64 _ x => some (.f64 x)
  | .boxF32 _ x => some (.f32 x)
  | .boxF16 _ x => some (.f16 x)
  | _ => none

def Num.asI64 : Num → Option UInt64
  | .i64 x => some x
  | _ => none

def Num.asF64 : Num → Option UInt64
  | .f64 x => some x
  | _ => none

def Num.asF32 : Num → Option UInt32
  | .f32 x => some x
  | _ => none

def Num.asF16 : Num → Option UInt16
  | .f16 x => some x
  | _ => none

def Kind.isWord : Kind → Bool
  | .i8 | .i16 | .i32 => true
  | _ => false

def Kind.isNumeric : Kind → Bool
  | .i8 | .i16 | .i32 | .i64 | .f16 | .f32 | .f64 => true
  | _ => false

/-- The number in the register at `a`. -/
def regNum (k : Kind) (mem : Mem) (a : ℕ) : Num :=
  match k with
  | .i64 => .i64 (load64 mem a)
  | .f64 => .f64 (load64 mem a)
  | .f32 => .f32 (load32 mem a)
  | .f16 => .f16 (load32 mem a).toUInt16
  | _ => .word (load32 mem a)

def writeReg (n : Num) (mem : Mem) (a : ℕ) : Mem :=
  match n with
  | .word x => store32 mem a x
  | .i64 x => store64 mem a x
  | .f64 x => store64 mem a x
  | .f32 x => store32 mem a x
  | .f16 x => store32 mem a x.toUInt32

def Num.fits : Num → Kind → Bool
  | .word _, k => k.isWord
  | .i64 _, k => k == .i64
  | .f64 _, k => k == .f64
  | .f32 _, k => k == .f32
  | .f16 _, k => k == .f16

/-- What a store from a register of kind `k` takes a box with the number for: a box to write to,
or, where the register holds a word, the word itself. -/
def Kind.sees (k : Kind) : Num → Option Num
  | .word _ => none
  | .i64 x =>
    if k.isWord then some (.word x.toUInt32) else if k = .i64 then some (.i64 x) else none
  | n => if n.fits k then some n else none

theorem fits_regNum {k : Kind} (h : k.isNumeric = true) (mem : Mem) (a : ℕ) :
    (regNum k mem a).fits k = true := by
  cases k <;> simp only [Kind.isNumeric, Bool.false_eq_true] at h <;> rfl

theorem regNum_writeReg {k : Kind} {n : Num} (h : n.fits k = true) (mem : Mem) (a : ℕ) :
    regNum k (writeReg n mem a) a = n := by
  cases n with
  | word x => cases k <;> simp [Num.fits, Kind.isWord] at h <;> simp [regNum, writeReg]
  | i64 x =>
    obtain rfl : k = .i64 := by simpa [Num.fits] using h
    simp [regNum, writeReg]
  | f64 x =>
    obtain rfl : k = .f64 := by simpa [Num.fits] using h
    simp [regNum, writeReg]
  | f32 x =>
    obtain rfl : k = .f32 := by simpa [Num.fits] using h
    simp [regNum, writeReg]
  | f16 x =>
    obtain rfl : k = .f16 := by simpa [Num.fits] using h
    simp [regNum, writeReg]

/-- An element of an array, or an entry of an object. -/
inductive Slot
  | elem (p : JelloValue) (i : ℕ)
  | entry (p : JelloValue) (atomId : UInt32)
  deriving DecidableEq

def JelloObject.HasEntry (o : JelloObject) (k : UInt32) (v : JelloValue) : Prop :=
  ∃ i, Holds o.table i k ∧ o.table.val i = v

def Heap.SlotHas (h : Heap) : Slot → JelloValue → Prop
  | .elem p i, v => ∃ a, h.cells p = some (.array a) ∧ i < a.length.toNat ∧ a.data i = v
  | .entry p k, v => ∃ o, h.cells p = some (.object o) ∧ o.HasEntry k v

/-- The number in the box that a value refers to, if it does. -/
def Heap.numAt (h : Heap) (v : JelloValue) : Option Num :=
  if jelloIsPtr v then (h.cells v).bind Cell.num else none

/-- What a value says: the number of its box, or else itself. -/
def Heap.content (h : Heap) (v : JelloValue) : Num ⊕ JelloValue :=
  (h.numAt v).elim (.inr v) .inl

def Heap.Reads (h : Heap) (t : Slot) (c : Num ⊕ JelloValue) : Prop :=
  ∃ v, h.SlotHas t v ∧ h.content v = c

/-- The value stands for the number. -/
def Heap.Carries (h : Heap) (v : JelloValue) : Num → Prop
  | .word x => v = jelloMakeI32 x
  | n => h.numAt v = some n

/-- All slots but `slot` read the same. -/
def OthersSame (slot : Slot) (h h' : Heap) : Prop := ∀ t, t ≠ slot → ∀ c, h.Reads t c ↔ h'.Reads t c

section Heaps

variable {h h' h'' : Heap} {slot t : Slot} {p q v : JelloValue} {c : Cell} {n : Num}

theorem OthersSame.refl (slot : Slot) (h : Heap) : OthersSame slot h h := fun _ _ _ ↦ Iff.rfl

theorem OthersSame.symm (hs : OthersSame slot h h') : OthersSame slot h' h :=
  fun t ht c ↦ (hs t ht c).symm

theorem OthersSame.trans (h₁ : OthersSame slot h h') (h₂ : OthersSame slot h' h'') :
    OthersSame slot h h'' := fun t ht c ↦ (h₁ t ht c).trans (h₂ t ht c)

theorem numAt_null (h : Heap) : h.numAt jelloMakeNull = none := by
  have hp : jelloIsPtr jelloMakeNull = false := by decide
  simp [Heap.numAt, hp]

theorem numAt_eq_some : h.numAt v = some n ↔
    jelloIsPtr v = true ∧ ∃ c, h.cells v = some c ∧ c.num = some n := by
  unfold Heap.numAt
  split_ifs with hp
  · simp [hp, Option.bind_eq_some_iff]
  · simp [hp]

/-- The slots that hold the same values read the same, where the numbers are the same. -/
theorem othersSame_of (hslots : ∀ t, t ≠ slot → ∀ v, h.SlotHas t v ↔ h'.SlotHas t v)
    (hnums : ∀ t, t ≠ slot → ∀ v, h.SlotHas t v → h'.numAt v = h.numAt v) :
    OthersSame slot h h' := by
  intro t ht c
  constructor
  · rintro ⟨v, hv, hc⟩
    refine ⟨v, (hslots t ht v).mp hv, ?_⟩
    rw [← hc, Heap.content, Heap.content, hnums t ht v hv]
  · rintro ⟨v, hv, hc⟩
    have hv' := (hslots t ht v).mpr hv
    refine ⟨v, hv', ?_⟩
    rw [← hc, Heap.content, Heap.content, hnums t ht v hv']

theorem slotHas_update {cells : JelloValue → Option Cell} {next next' : JelloValue}
    (hold : ∀ c, cells q = some c → c.num.isSome) (hc : c.num.isSome) (t : Slot)
    (v : JelloValue) :
    Heap.SlotHas ⟨cells, next⟩ t v ↔ Heap.SlotHas ⟨update cells q (some c), next'⟩ t v := by
  have hother (c' : Cell) (hc' : c'.num = none) (p : JelloValue) :
      cells p = some c' ↔ update cells q (some c) p = some c' := by
    by_cases hp : p = q
    · subst hp
      simp only [update_self, Option.some.injEq]
      constructor
      · intro hcell
        have := hold c' hcell
        simp [hc'] at this
      · rintro rfl
        simp [hc'] at hc
    · rw [update_of_ne hp]
  cases t with
  | elem p i =>
    simp only [Heap.SlotHas]
    exact exists_congr fun a ↦ and_congr_left fun _ ↦ hother _ rfl p
  | entry p k =>
    simp only [Heap.SlotHas]
    exact exists_congr fun o ↦ and_congr_left fun _ ↦ hother _ rfl p

theorem numAt_update_of_ne {cells : JelloValue → Option Cell} {next next' : JelloValue}
    (hne : v ≠ q) :
    Heap.numAt ⟨update cells q (some c), next'⟩ v = Heap.numAt ⟨cells, next⟩ v := by
  simp only [Heap.numAt, update_of_ne hne]

theorem numAt_container {c' : Cell} (hold : h.cells p = some c') (hc' : c'.num = none)
    (hc : c.num = none) (v : JelloValue) : (h.write p c).numAt v = h.numAt v := by
  by_cases hv : v = p
  · subst hv
    simp [Heap.numAt, Heap.write, hold, hc, hc']
  · exact numAt_update_of_ne hv

/-- The container of the slot is written: the other slots hold what they held, and the boxes
are the same. -/
structure Rewritten (slot : Slot) (h h' : Heap) : Prop where
  next : h'.next = h.next
  free : h.cells h.next = none → h'.cells h.next = none
  slots (t : Slot) (ht : t ≠ slot) (v : JelloValue) : h.SlotHas t v ↔ h'.SlotHas t v
  nums (v : JelloValue) : h'.numAt v = h.numAt v

theorem Rewritten.refl (slot : Slot) (h : Heap) : Rewritten slot h h :=
  ⟨rfl, id, fun _ _ _ ↦ Iff.rfl, fun _ ↦ rfl⟩

theorem Rewritten.othersSame (hw : Rewritten slot h h') : OthersSame slot h h' :=
  othersSame_of hw.slots fun _ _ v _ ↦ hw.nums v

theorem free_write {c' : Cell} (hold : h.cells p = some c') (hfree : h.cells h.next = none) :
    (h.write p c).cells h.next = none := by
  have hne : h.next ≠ p := by
    rintro rfl
    simp [hold] at hfree
  simp only [Heap.write, update_of_ne hne, hfree]

theorem rewritten_array {a : JelloArray} (ha : h.cells p = some (.array a)) (i : UInt32)
    (v : JelloValue) : Rewritten (.elem p i.toNat) h (h.write p (.array (a.write i v))) := by
  refine ⟨rfl, free_write ha, fun t ht w ↦ ?_, fun w ↦ numAt_container ha rfl rfl w⟩
  cases t with
  | elem q j =>
    simp only [Heap.SlotHas, Heap.write]
    by_cases hq : q = p
    · subst hq
      have hj : j ≠ i.toNat := fun hj ↦ ht (by rw [hj])
      simp [ha, JelloArray.write, update_of_ne hj]
    · simp only [update_of_ne hq]
  | entry q k =>
    simp only [Heap.SlotHas, Heap.write]
    by_cases hq : q = p
    · subst hq
      simp [ha]
    · simp only [update_of_ne hq]

theorem rewritten_object {o o' : JelloObject} {k : UInt32} (ho : h.cells p = some (.object o))
    (hentries : ∀ k', k' ≠ k → ∀ v, o.HasEntry k' v ↔ o'.HasEntry k' v) :
    Rewritten (.entry p k) h (h.write p (.object o')) := by
  refine ⟨rfl, free_write ho, fun t ht w ↦ ?_, fun w ↦ numAt_container ho rfl rfl w⟩
  cases t with
  | elem q j =>
    simp only [Heap.SlotHas, Heap.write]
    by_cases hq : q = p
    · subst hq
      simp [ho]
    · simp only [update_of_ne hq]
  | entry q k' =>
    simp only [Heap.SlotHas, Heap.write]
    by_cases hq : q = p
    · subst hq
      have hk : k' ≠ k := fun hk ↦ ht (by rw [hk])
      simp only [ho, update_self, Option.some.injEq, Cell.object.injEq, exists_eq_left']
      exact hentries k' hk w
    · simp only [update_of_ne hq]

theorem Models.hasEntry_iff {o : JelloObject} {m : AtomMap} (h : Models o m) {k : UInt32} :
    o.HasEntry k v ↔ m k = some v := (h.rep k v).symm

/-- The objects of the heap are tables that the operations on objects keep. -/
def ObjectsOk (h : Heap) : Prop := ∀ p o, h.cells p = some (.object o) → ∃ m, Models o m

theorem objectsOk_write {h : Heap} {p : JelloValue} {o : JelloObject} {m : AtomMap}
    (hok : ObjectsOk h) (ho : Models o m) : ObjectsOk (h.write p (.object o)) := by
  intro q o' hq
  by_cases hqp : q = p
  · subst hqp
    obtain rfl : o = o' := by simpa [Heap.write_self] using hq
    exact ⟨m, ho⟩
  · rw [Heap.write_of_ne hqp] at hq
    exact hok q o' hq

theorem slotHas_unique (hok : ObjectsOk h) {w : JelloValue} (hv : h.SlotHas t v)
    (hw : h.SlotHas t w) : v = w := by
  cases t with
  | elem p i =>
    obtain ⟨a, ha, -, rfl⟩ := hv
    obtain ⟨a', ha', -, rfl⟩ := hw
    obtain rfl : a = a' := by simpa [ha] using ha'
    rfl
  | entry p k =>
    obtain ⟨o, ho, hv⟩ := hv
    obtain ⟨o', ho', hw⟩ := hw
    obtain rfl : o = o' := by simpa [ho] using ho'
    obtain ⟨m, hm⟩ := hok p o ho
    exact Option.some.inj ((hm.hasEntry_iff.mp hv).symm.trans (hm.hasEntry_iff.mp hw))

/-- The address that is handed out next is a pointer to nothing, and no slot holds it. -/
structure FreshNext (h : Heap) : Prop where
  ptr : jelloIsPtr h.next = true
  free : h.cells h.next = none
  unheld : ∀ t, ¬h.SlotHas t h.next

/-- The table of the object is made to hold the key, with its old value or a null. -/
theorem freshNext_upserted {h : Heap} {p : JelloValue} {o o₁ : JelloObject} {k : UInt32}
    {m : AtomMap} (hfresh : FreshNext h) (hp : h.cells p = some (.object o)) (ho : Models o m)
    (ho₁ : Models o₁ (update m k (some ((m k).getD jelloMakeNull))))
    (hw : Rewritten (.entry p k) h (h.write p (.object o₁))) :
    FreshNext (h.write p (.object o₁)) := by
  refine ⟨hfresh.ptr, free_write hp hfresh.free, fun t ht ↦ ?_⟩
  by_cases hslot : t = .entry p k
  · subst hslot
    obtain ⟨o', ho', hentry⟩ := ht
    obtain rfl : o₁ = o' := by simpa [Heap.write] using ho'
    have hv := ho₁.hasEntry_iff.mp hentry
    rw [update_self, Option.some.injEq] at hv
    cases hm : m k with
    | none =>
      rw [hm, Option.getD_none] at hv
      have hnull : jelloIsPtr jelloMakeNull = true := hv ▸ hfresh.ptr
      exact absurd hnull (by decide)
    | some w =>
      rw [hm, Option.getD_some] at hv
      subst hv
      exact hfresh.unheld (.entry p k) ⟨o, hp, ho.hasEntry_iff.mpr hm⟩
  · exact hfresh.unheld t ((hw.slots t hslot _).mpr ht)

/-- A number as it is boxed for a slot. -/
inductive Boxed (n : Num) (h : Heap) : JelloValue → Heap → Prop
  | tagged {x : UInt32} (hn : n = .word x) : Boxed n h (jelloMakeI32 x) h
  | boxed {c : Cell} (hc : c.num = some n) : Boxed n h h.next (h.alloc c).2

/-- What a typed store puts into a slot that holds `old`. -/
inductive Stored (k : Kind) (n : Num) (h : Heap) (old : JelloValue) : JelloValue → Heap → Prop
  | boxed {v : JelloValue} {h' : Heap} (hunseen : ∀ y, h.numAt old = some y → k.sees y = none)
      (hv : Boxed n h v h') : Stored k n h old v h'
  | stale {x : UInt64} (hk : k.isWord = true) (hold : h.numAt old = some (.i64 x)) :
      Stored k n h old (jelloMakeI32 x.toUInt32) h
  | inplace {y : Num} {c : Cell} (hk : k.isWord = false) (hold : h.numAt old = some y)
      (hsees : k.sees y = some y) (hc : c.num = some n) : Stored k n h old old (h.write old c)

theorem othersSame_boxed (hfresh : FreshNext h) (hv : Boxed n h v h') : OthersSame slot h h' := by
  cases hv with
  | tagged hn => exact .refl slot h
  | @boxed c hc =>
    have hc' : c.num.isSome = true := by rw [hc]; rfl
    refine othersSame_of (fun t _ w ↦ ?_) fun t _ w hw ↦ ?_
    · exact slotHas_update (fun c' hcell ↦ by simp [hfresh.free] at hcell) hc' t w
    · refine numAt_update_of_ne ?_
      rintro rfl
      exact hfresh.unheld t hw

theorem othersSame_inplace {y : Num} (hold : h.numAt v = some y) (hc : c.num = some n)
    (hkeep : y = n ∨ ∀ t, t ≠ slot → ¬h.SlotHas t v) : OthersSame slot h (h.write v c) := by
  obtain ⟨hp, c₀, hcell, hy⟩ := numAt_eq_some.mp hold
  refine othersSame_of (fun t _ w ↦ ?_) fun t ht w hw ↦ ?_
  · refine slotHas_update (fun c' hc' ↦ ?_) (hc ▸ rfl) t w
    rw [hcell] at hc'
    rw [← Option.some.inj hc', hy]
    rfl
  · by_cases hwv : w = v
    · subst hwv
      rcases hkeep with rfl | hkeep
      · rw [hold]
        exact numAt_eq_some.mpr ⟨hp, c, by simp [Heap.write], hc⟩
      · exact absurd hw (hkeep t ht)
    · exact numAt_update_of_ne hwv

theorem not_othersSame_inplace {y : Num} (hok : ObjectsOk h) (hold : h.numAt v = some y)
    (hc : c.num = some n) (hne : y ≠ n) (ht : t ≠ slot) (hv : h.SlotHas t v) :
    ¬OthersSame slot h (h.write v c) := by
  intro hsame
  obtain ⟨hp, c₀, hcell, hy⟩ := numAt_eq_some.mp hold
  have hread : h.Reads t (.inl y) := ⟨v, hv, by rw [Heap.content, hold]; rfl⟩
  obtain ⟨w, hw, hcontent⟩ := (hsame t ht _).mp hread
  have hw' : h.SlotHas t w := by
    refine (slotHas_update (fun c' hc' ↦ ?_) (hc ▸ rfl) t w).mpr hw
    rw [hcell] at hc'
    rw [← Option.some.inj hc', hy]
    rfl
  obtain rfl := slotHas_unique hok hv hw'
  have hnum : (h.write v c).numAt v = some n :=
    numAt_eq_some.mpr ⟨hp, c, by simp [Heap.write], hc⟩
  rw [Heap.content, hnum] at hcontent
  exact hne (Sum.inl.inj hcontent).symm

/-- The store may look into the box that the slot refers to: it holds the number already, or it
is written to and no other slot refers to it. -/
def InplaceOk (k : Kind) (n : Num) (h : Heap) (slot : Slot) (old : JelloValue) : Prop :=
  ∀ y y', h.numAt old = some y → k.sees y = some y' →
    y' = n ∨ (k.isWord = false ∧ ∀ t, t ≠ slot → ¬h.SlotHas t old)

theorem Rewritten.inplaceOk_iff {slot : Slot} {h h' : Heap} {k : Kind} {n : Num}
    {old : JelloValue} (hw : Rewritten slot h h') :
    InplaceOk k n h slot old ↔ InplaceOk k n h' slot old := by
  have hunshared : (∀ t, t ≠ slot → ¬h.SlotHas t old) ↔ ∀ t, t ≠ slot → ¬h'.SlotHas t old :=
    forall_congr' fun t ↦ forall_congr' fun ht ↦ not_congr (hw.slots t ht old)
  simp only [InplaceOk, hw.nums, hunshared]

theorem inplaceOk_null (slot : Slot) (h : Heap) (k : Kind) (n : Num) :
    InplaceOk k n h slot jelloMakeNull := by
  intro y y' hy
  rw [numAt_null] at hy
  exact absurd hy (Option.some_ne_none _).symm

theorem carries_of_numAt (hc : c.num = some n) (hv : h.numAt v = some n) : h.Carries v n := by
  cases n with
  | word x => cases c <;> simp [Cell.num] at hc
  | i64 x => exact hv
  | f64 x => exact hv
  | f32 x => exact hv
  | f16 x => exact hv

theorem jelloMakeI32_inj {x y : UInt32} (hxy : jelloMakeI32 x = jelloMakeI32 y) : x = y := by
  calc x = (tagged .i32 x >>> 3).toUInt32 := (payload_tagged .i32 x).symm
    _ = (tagged .i32 y >>> 3).toUInt32 := congrArg (fun v : JelloValue ↦ (v >>> 3).toUInt32) hxy
    _ = y := payload_tagged .i32 y

theorem word_of_fits {k : Kind} (hk : k.isWord = true) (hn : n.fits k = true) :
    ∃ x, n = .word x := by
  cases n with
  | word x => exact ⟨x, rfl⟩
  | i64 x =>
    obtain rfl : k = .i64 := by simpa [Num.fits] using hn
    exact absurd hk Bool.false_ne_true
  | f64 x =>
    obtain rfl : k = .f64 := by simpa [Num.fits] using hn
    exact absurd hk Bool.false_ne_true
  | f32 x =>
    obtain rfl : k = .f32 := by simpa [Num.fits] using hn
    exact absurd hk Bool.false_ne_true
  | f16 x =>
    obtain rfl : k = .f16 := by simpa [Num.fits] using hn
    exact absurd hk Bool.false_ne_true

theorem Heap.Carries.numAt {k : Kind} (hk : k.isWord = false) (hn : n.fits k = true)
    (hv : h.Carries v n) : h.numAt v = some n := by
  cases n with
  | word x => exact absurd (hk.symm.trans hn) Bool.false_ne_true
  | i64 x => exact hv
  | f64 x => exact hv
  | f32 x => exact hv
  | f16 x => exact hv

theorem Heap.Carries.unique {k : Kind} {n' : Num} (hv : h.Carries v n) (hv' : h.Carries v n')
    (hn : n.fits k = true) (hn' : n'.fits k = true) : n = n' := by
  cases hk : k.isWord with
  | true =>
    obtain ⟨x, rfl⟩ := word_of_fits hk hn
    obtain ⟨y, rfl⟩ := word_of_fits hk hn'
    rw [jelloMakeI32_inj (hv.symm.trans hv')]
  | false => exact Option.some.inj ((hv.numAt hk hn).symm.trans (hv'.numAt hk hn'))

theorem carries_congr (hnum : h'.numAt v = h.numAt v) (hv : h.Carries v n) : h'.Carries v n := by
  cases n with
  | word x => exact hv
  | i64 x => exact hnum.trans hv
  | f64 x => exact hnum.trans hv
  | f32 x => exact hnum.trans hv
  | f16 x => exact hnum.trans hv

theorem Boxed.carries (hfresh : FreshNext h) (hv : Boxed n h v h') : h'.Carries v n := by
  cases hv with
  | tagged hn =>
    subst hn
    rfl
  | @boxed c hc =>
    refine carries_of_numAt hc (numAt_eq_some.mpr ⟨hfresh.ptr, c, ?_, hc⟩)
    simp [Heap.alloc]

theorem Stored.cells_container {h h' : Heap} {old p : JelloValue} {c : Cell}
    {k : Kind} (hst : Stored k n h old v h') (hfree : h.cells h.next = none)
    (hp : h.cells p = some c) (hc : c.num = none) : h'.cells p = some c := by
  cases hst with
  | boxed _ hv =>
    cases hv with
    | tagged _ => exact hp
    | boxed _ =>
      have hne : p ≠ h.next := by
        rintro rfl
        simp [hp] at hfree
      simp only [Heap.alloc, update_of_ne hne, hp]
  | stale _ _ => exact hp
  | inplace _ hold _ _ =>
    obtain ⟨-, c', hc', hy⟩ := numAt_eq_some.mp hold
    have hne : p ≠ v := by
      rintro rfl
      obtain rfl : c = c' := Option.some.inj (hp.symm.trans hc')
      simp [hc] at hy
    simp only [Heap.write, update_of_ne hne, hp]

/-- Whatever a typed store puts into a slot stands for some number of its kind. -/
theorem Stored.carries {k : Kind} {h h' : Heap} {old : JelloValue} (hfresh : FreshNext h)
    (hn : n.fits k = true) (hst : Stored k n h old v h') :
    ∃ n', n'.fits k = true ∧ h'.Carries v n' := by
  cases hst with
  | boxed _ hv => exact ⟨n, hn, hv.carries hfresh⟩
  | @stale x hk _ => exact ⟨.word x.toUInt32, hk, rfl⟩
  | @inplace y c _ hold _ hc =>
    obtain ⟨hp, -⟩ := numAt_eq_some.mp hold
    exact ⟨n, hn, carries_of_numAt hc (numAt_eq_some.mpr ⟨hp, c, Heap.write_self _ _ _ ▸ rfl, hc⟩)⟩

/-- A typed store leaves the number in its slot and the other slots as they were exactly if it
may look into the box. -/
theorem Stored.faithful_iff {k : Kind} {old : JelloValue} (hok : ObjectsOk h)
    (hfresh : FreshNext h) (hn : n.fits k = true) (hst : Stored k n h old v h') :
    (h'.Carries v n ∧ OthersSame slot h h') ↔ InplaceOk k n h slot old := by
  cases hst with
  | boxed hunseen hv =>
    refine ⟨fun _ y y' hy hsees ↦ ?_, fun _ ↦ ⟨hv.carries hfresh, othersSame_boxed hfresh hv⟩⟩
    rw [hunseen y hy] at hsees
    exact absurd hsees (Option.some_ne_none _).symm
  | @stale x hk hold =>
    have hsees : k.sees (.i64 x) = some (.word x.toUInt32) := by simp [Kind.sees, hk]
    constructor
    · rintro ⟨hv, -⟩ y y' hy hy'
      obtain rfl : Num.i64 x = y := Option.some.inj (hold.symm.trans hy)
      obtain rfl : Num.word x.toUInt32 = y' := Option.some.inj (hsees.symm.trans hy')
      exact .inl (Heap.Carries.unique (k := k) rfl hv hk hn)
    · intro hok'
      rcases hok' _ _ hold hsees with rfl | ⟨hword, -⟩
      · exact ⟨rfl, .refl slot _⟩
      · exact absurd (hword.symm.trans hk) Bool.false_ne_true
  | @inplace y c hk hold hsees hc =>
    obtain ⟨hp, -⟩ := numAt_eq_some.mp hold
    have hcarries : (h.write v c).Carries v n :=
      carries_of_numAt hc (numAt_eq_some.mpr ⟨hp, c, by simp [Heap.write], hc⟩)
    constructor
    · rintro ⟨-, hsame⟩ y₁ y' hy hy'
      obtain rfl : y = y₁ := Option.some.inj (hold.symm.trans hy)
      obtain rfl : y = y' := Option.some.inj (hsees.symm.trans hy')
      by_cases hyn : y = n
      · exact .inl hyn
      · exact .inr ⟨hk, fun t ht hv ↦ not_othersSame_inplace hok hold hc hyn ht hv hsame⟩
    · intro hok'
      refine ⟨hcarries, othersSame_inplace hold hc ?_⟩
      rcases hok' _ _ hold hsees with hyn | ⟨-, hunshared⟩
      · exact .inl hyn
      · exact .inr hunshared

end Heaps

end JelloVM
