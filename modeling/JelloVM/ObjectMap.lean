import JelloVM.Heap
import JelloVM.ObjectTable

namespace JelloVM

open Function OpenAddressing

/-- One call on an object. The calls that return a pointer into the table carry
what the caller then writes through it, if anything. -/
inductive ObjectOp
  | set (k : UInt32) (v : JelloValue)
  | upsert (k : UInt32) (w : Option JelloValue)
  | setSlot (slot k : UInt32) (w : Option JelloValue)
  | remove (k : UInt32)
  | clear
  | get (k : UInt32)
  | getSlot (slot k : UInt32)
  | has (k : UInt32)
  | slot (k : UInt32) (w : Option JelloValue)

/-- For a pointer: what it points to, and whether the key was there before. -/
inductive ObjectResult
  | done
  | flag (b : Bool)
  | value (v : JelloValue)
  | entry (existed : Bool) (v : Option JelloValue)
  | object (handle : ℕ)
  deriving DecidableEq

/-- A call on one of several objects, or a copy of it into a block `mem`. -/
inductive PoolOp
  | call (op : ObjectOp)
  | copy (recycled : Bool) (mem : JelloObject)

def writeThrough (o : JelloObject) (i : UInt32) : Option JelloValue → JelloObject
  | none => o
  | some w => writeSlot o i w

def objectStep (o : JelloObject) : ObjectOp → Option (ObjectResult × JelloObject)
  | .set k v => do
    let o ← jelloObjectSet o k v
    return (.done, o)
  | .upsert k w => do
    let (i, existed, o) ← jelloObjectUpsert o k
    return (.entry existed (some (o.vals i.toNat)), writeThrough o i w)
  | .setSlot slot k w => do
    let (i, existed, o) ← jelloObjectSetSlot o slot k
    return (.entry existed (some (o.vals i.toNat)), writeThrough o i w)
  | .remove k => do
    let (found, o) ← jelloObjectRemove o k
    return (.flag found, o)
  | .clear => some (.done, jelloObjectClear o)
  | .get k => do
    let (v, o) ← jelloObjectGet o k
    return (.value v, o)
  | .getSlot slot k => do
    let (v, o) ← jelloObjectGetSlot o slot k
    return (.value v, o)
  | .has k => do
    let (found, o) ← jelloObjectHas o k
    return (.flag found, o)
  | .slot k w => do
    let (p, o) ← jelloObjectSlot o k
    match p with
    | none => return (.entry false none, o)
    | some i => return (.entry true (some (o.vals i.toNat)), writeThrough o i w)

/-- A call on the object with handle `target`; a copy gets the next handle. -/
def poolStep (h : Heap) (pool : List JelloObject) (target : ℕ) (op : PoolOp) :
    Option (ObjectResult × Heap × List JelloObject) := do
  let o ← pool[target]?
  match op with
  | .copy recycled mem => do
    let fresh := jelloObjectNew recycled mem o.typeId
    let (dst, h) ← jelloObjectCopy vmCloneNumbox fresh o h
    return (.object pool.length, h, pool ++ [dst])
  | .call op => do
    let (r, o) ← objectStep o op
    return (r, h, pool.set target o)

def poolRun (h : Heap) (pool : List JelloObject) :
    List (ℕ × PoolOp) → Option (List ObjectResult × Heap × List JelloObject)
  | [] => some ([], h, pool)
  | (target, op) :: ops => do
    let (r, h, pool) ← poolStep h pool target op
    let (rs, h, pool) ← poolRun h pool ops
    return (r :: rs, h, pool)

abbrev AtomMap := UInt32 → Option JelloValue

def mapStep (m : AtomMap) : ObjectOp → ObjectResult × AtomMap
  | .set k v => (.done, update m k (some v))
  | .upsert k w | .setSlot _ k w =>
    let v := (m k).getD jelloMakeNull
    (.entry (m k).isSome (some v), update m k (some (w.getD v)))
  | .remove k => (.flag (m k).isSome, update m k none)
  | .clear => (.done, fun _ ↦ none)
  | .get k | .getSlot _ k => (.value ((m k).getD jelloMakeNull), m)
  | .has k => (.flag (m k).isSome, m)
  | .slot k w => (.entry (m k).isSome (m k), update m k ((m k).map w.getD))

/-- A copied value is the value itself, or a new box with the same number. -/
def Cloned (v v' : JelloValue) : Prop :=
  v' = v ∨ ∃ h h' c, Cell.isNumbox c = true ∧ h.cells v = some c ∧ h'.cells v' = some c ∧
    vmCloneNumbox v h = some (v', h')

inductive MapStep (ms : List AtomMap) (target : ℕ) : PoolOp → ObjectResult → List AtomMap → Prop
  | copy {m m' : AtomMap} {recycled : Bool} {mem : JelloObject} (hm : ms[target]? = some m)
      (hc : ∀ k, Option.Rel Cloned (m k) (m' k)) :
      MapStep ms target (.copy recycled mem) (.object ms.length) (ms ++ [m'])
  | call {m : AtomMap} {op : ObjectOp} (hm : ms[target]? = some m) :
      MapStep ms target (.call op) (mapStep m op).1 (ms.set target (mapStep m op).2)

inductive MapRun : List AtomMap → List (ℕ × PoolOp) → List ObjectResult → List AtomMap → Prop
  | nil (ms : List AtomMap) : MapRun ms [] [] ms
  | cons {ms ms₁ ms₂ : List AtomMap} {target : ℕ} {op : PoolOp} {ops : List (ℕ × PoolOp)}
      {r : ObjectResult} {rs : List ObjectResult} (hs : MapStep ms target op r ms₁)
      (hr : MapRun ms₁ ops rs ms₂) : MapRun ms ((target, op) :: ops) (r :: rs) ms₂

section Specs

variable {o o' : JelloObject} {m : AtomMap} {k i : UInt32} {v : JelloValue} {b : Bool}

theorem models_new (recycled : Bool) (mem : JelloObject) (typeId : UInt32) :
    Models (jelloObjectNew recycled mem typeId) (fun _ ↦ none) := by
  have hcap : (jelloObjectNew recycled mem typeId).cap = objectInitCap := by
    unfold jelloObjectNew
    split_ifs with h
    · have h8 : mem.cap = objectInitCap := by
        simp only [jelloObjectIsFreelistRecyclable, Bool.and_eq_true, beq_iff_eq] at h
        exact h.2.2
      exact h8
    · rfl
  have hempty : ∀ i < (jelloObjectNew recycled mem typeId).table.cap,
      (jelloObjectNew recycled mem typeId).table.state i = .empty := by
    unfold jelloObjectNew
    split_ifs
    · intro i hi
      exact if_pos hi
    · intro i _
      rfl
  have hlen : (jelloObjectNew recycled mem typeId).len = 0 := by
    unfold jelloObjectNew
    split_ifs <;> rfl
  have h8 : (jelloObjectNew recycled mem typeId).cap.toNat = 8 := by
    rw [hcap]
    rfl
  have hpos : 0 < (jelloObjectNew recycled mem typeId).table.cap := by
    change 0 < (jelloObjectNew recycled mem typeId).cap.toNat
    omega
  refine ⟨⟨⟨3, le_rfl, by omega, h8⟩, .of_empty home hpos hempty, ?_⟩, .of_empty hempty⟩
  rw [hlen, count_of_empty hempty (by simp)]
  rfl

/-- A growing table is never empty, whatever its arithmetic wraps to. -/
theorem len_ne_zero_of_grows (h : PowCap o)
    (hg : ¬ (o.len + 1) * objectLoadNum < o.cap * objectLoadDen) : o.len ≠ 0 := by
  intro hl
  apply hg
  obtain ⟨e, h3, h31, he⟩ := h
  have hcap : o.cap = UInt32.ofNat (2 ^ e) := by
    rw [← he, UInt32.ofNat_toNat]
  rw [hl, hcap]
  interval_cases e <;> decide

theorem ensureCap_spec (h : Models o m) (hr : ensureCap o = some o') : Models o' m := by
  unfold ensureCap at hr
  split_ifs at hr with hg
  · obtain rfl : o = o' := by simpa using hr
    exact h
  · by_cases hc : o.cap.toNat = 2 ^ 31
    · rw [rehash_wraps h hc (len_ne_zero_of_grows h.inv.pow hg)] at hr
      simp at hr
    · obtain ⟨o₁, hr₁, hm, -⟩ := rehash_spec h hc
      obtain rfl : o₁ = o' := by simpa [hr₁] using hr
      exact hm

theorem upsert_spec (h : Models o m) (hr : jelloObjectUpsert o k = some (i, b, o')) :
    Models o' (update m k (some ((m k).getD jelloMakeNull))) ∧ b = (m k).isSome ∧
      Holds o'.table i.toNat k := by
  unfold jelloObjectUpsert at hr
  obtain ⟨o₁, he, hr⟩ := Option.bind_eq_some_iff.mp hr
  have h₁ := ensureCap_spec h he
  obtain ⟨⟨j, found, o₂⟩, hf, hr⟩ := Option.bind_eq_some_iff.mp hr
  obtain ⟨hsame, hres⟩ := findSlot_spec h₁.inv hf
  have h₂ := h₁.congr hsame
  obtain ⟨rfl, hk⟩ | ⟨rfl, hk, hfree⟩ := hres
  · obtain ⟨rfl, rfl, rfl⟩ : j = i ∧ true = b ∧ objectIcStore o₂ k j = o' := by simpa using hr
    have hs := sameEntries_icStore o₂ k j
    have hv := h₁.rep.of_holds hk
    rw [hv, Option.getD_some, ← hv, update_eq_self]
    refine ⟨h₂.congr hs, by rw [hv]; rfl, ?_⟩
    rw [hs.1, hsame.1]
    exact hk
  · rw [← hsame.1] at hk hfree
    obtain ⟨o₃, hw, htab, hm⟩ := h₂.writeEntry hk hfree jelloMakeNull
    obtain ⟨rfl, rfl, rfl⟩ : j = i ∧ false = b ∧ o₃ = o' := by simpa [hw] using hr
    rw [h₂.rep.of_absent hk]
    refine ⟨hm, rfl, ?_⟩
    rw [htab, holds_put]
    exact .inl ⟨rfl, hfree.lt_cap, rfl⟩

theorem setSlot_spec {slot : UInt32} (h : Models o m)
    (hr : jelloObjectSetSlot o slot k = some (i, b, o')) :
    Models o' (update m k (some ((m k).getD jelloMakeNull))) ∧ b = (m k).isSome ∧
      Holds o'.table i.toNat k := by
  unfold jelloObjectSetSlot at hr
  split_ifs at hr with hs
  · obtain ⟨rfl, rfl, rfl⟩ : slot = i ∧ true = b ∧ o = o' := by simpa using hr
    have hk := slotHolds_iff.mp hs
    have hv := h.rep.of_holds hk
    rw [hv, Option.getD_some, ← hv, update_eq_self]
    exact ⟨h, by rw [hv]; rfl, hk⟩
  · exact upsert_spec h hr

theorem writeThrough_spec (h : Models o m) (hk : Holds o.table i.toNat k) (hv : m k = some v)
    (w : Option JelloValue) :
    o.vals i.toNat = v ∧ Models (writeThrough o i w) (update m k (some (w.getD v))) := by
  have heq : some (o.vals i.toNat) = some v := (h.rep.of_holds hk).symm.trans hv
  refine ⟨Option.some.inj heq, ?_⟩
  cases w with
  | none =>
    rw [Option.getD_none, ← hv, update_eq_self]
    exact h
  | some w => exact h.writeSlot hk w

theorem set_spec (h : Models o m) (hr : jelloObjectSet o k v = some o') :
    Models o' (update m k (some v)) := by
  obtain ⟨⟨i, b, o₁⟩, hu, hr⟩ := Option.bind_eq_some_iff.mp hr
  obtain ⟨h₁, -, hk⟩ := upsert_spec h hu
  obtain rfl : writeSlot o₁ i v = o' := by simpa using hr
  simpa only [update_idem] using h₁.writeSlot hk v

theorem remove_spec (h : Models o m) (hr : jelloObjectRemove o k = some (b, o')) :
    b = (m k).isSome ∧ Models o' (update m k none) := by
  obtain ⟨⟨i, found, o₁⟩, hf, hr⟩ := Option.bind_eq_some_iff.mp hr
  obtain ⟨hsame, hres⟩ := findSlot_spec h.inv hf
  have h₁ := h.congr hsame
  obtain ⟨rfl, hk⟩ | ⟨rfl, hk, -⟩ := hres
  · rw [← hsame.1] at hk
    have hv := h₁.rep.of_holds hk
    have hburied : Models { o₁ with states := update o₁.states i.toNat .tomb, len := o₁.len - 1 }
        (update m k none) := by
      refine ⟨⟨h₁.inv.pow, h₁.inv.wf.bury home i.toNat, ?_⟩, h₁.rep.bury home h₁.inv.wf hk⟩
      have hcount := count_bury hk.1 .occupied
      have hlen := h₁.inv.len_eq
      have hst : o₁.table.state i.toNat = .occupied := hk.2.1
      simp only [hst, if_true, reduceCtorEq, if_false, Nat.add_zero] at hcount
      change (o₁.len - 1).toNat = (o₁.table.bury i.toNat).count .occupied
      have h1 : (1 : UInt32).toNat = 1 := rfl
      rw [UInt32.toNat_sub_of_le _ _ (UInt32.le_iff_toNat_le.mpr (by omega)), h1]
      omega
    simp only [Bool.not_true, Bool.false_eq_true, if_false] at hr
    split_ifs at hr
    · obtain ⟨rfl, rfl⟩ : true = b ∧ _ = o' := by simpa using hr
      exact ⟨by rw [hv]; rfl, hburied.congr (sameEntries_invalidateIc _)⟩
    · obtain ⟨rfl, rfl⟩ : true = b ∧ _ = o' := by simpa using hr
      exact ⟨by rw [hv]; rfl, hburied⟩
  · obtain ⟨rfl, rfl⟩ : false = b ∧ o₁ = o' := by simpa using hr
    rw [← hsame.1] at hk
    have hv := h₁.rep.of_absent hk
    refine ⟨by rw [hv]; rfl, ?_⟩
    rw [← hv, update_eq_self]
    exact h₁

theorem clear_spec (h : Models o m) : Models (jelloObjectClear o) (fun _ ↦ none) := by
  have hempty : ∀ i < (jelloObjectClear o).table.cap,
      (jelloObjectClear o).table.state i = .empty := fun i hi ↦ if_pos hi
  refine ⟨⟨h.inv.pow, .of_empty home h.inv.wf.cap_pos hempty, ?_⟩, .of_empty hempty⟩
  rw [count_of_empty hempty (by simp)]
  rfl

theorem lookup_spec (h : Models o m)
    (hr : findOccupiedSlot (probeFuel o) o k = some (i, b, o')) :
    Models o' m ∧ b = (m k).isSome ∧ (b = true → Holds o'.table i.toNat k) := by
  obtain ⟨hsame, hres⟩ := findOccupiedSlot_spec h.inv hr
  have h' := h.congr hsame
  rw [← hsame.1] at hres
  obtain ⟨rfl, hk⟩ | ⟨rfl, hk⟩ := hres
  · exact ⟨h', by rw [h'.rep.of_holds hk]; rfl, fun _ ↦ hk⟩
  · exact ⟨h', by rw [h'.rep.of_absent hk]; rfl, fun hb ↦ by simp at hb⟩

theorem get_spec (h : Models o m) (hr : jelloObjectGet o k = some (v, o')) :
    v = (m k).getD jelloMakeNull ∧ Models o' m := by
  obtain ⟨⟨i, found, o₁⟩, hf, hr⟩ := Option.bind_eq_some_iff.mp hr
  obtain ⟨h', hb, hk⟩ := lookup_spec h hf
  obtain ⟨rfl, rfl⟩ : (if !found then jelloMakeNull else o₁.vals i.toNat) = v ∧ o₁ = o' := by
    simpa using hr
  refine ⟨?_, h'⟩
  cases found with
  | false =>
    have hn : m k = none := Option.isNone_iff_eq_none.mp (by simpa using hb.symm)
    rw [hn]
    rfl
  | true =>
    rw [h'.rep.of_holds (hk rfl)]
    rfl

theorem getSlot_spec {slot : UInt32} (h : Models o m)
    (hr : jelloObjectGetSlot o slot k = some (v, o')) :
    v = (m k).getD jelloMakeNull ∧ Models o' m := by
  unfold jelloObjectGetSlot at hr
  split_ifs at hr with hs
  · obtain ⟨rfl, rfl⟩ : o.vals slot.toNat = v ∧ o = o' := by simpa using hr
    rw [h.rep.of_holds (slotHolds_iff.mp hs)]
    exact ⟨rfl, h⟩
  · exact get_spec h hr

/-- Every call that returns gives the result of the map, and leaves the map's state. -/
theorem objectStep_spec (h : Models o m) {op : ObjectOp} {r : ObjectResult}
    (hr : objectStep o op = some (r, o')) : r = (mapStep m op).1 ∧ Models o' (mapStep m op).2 := by
  cases op with
  | set k v =>
    obtain ⟨o₁, hs, hr⟩ := Option.bind_eq_some_iff.mp hr
    obtain ⟨rfl, rfl⟩ : ObjectResult.done = r ∧ o₁ = o' := by simpa using hr
    exact ⟨rfl, set_spec h hs⟩
  | upsert k w =>
    obtain ⟨⟨i, b, o₁⟩, hs, hr⟩ := Option.bind_eq_some_iff.mp hr
    obtain ⟨rfl, rfl⟩ : .entry b (some (o₁.vals i.toNat)) = r ∧ writeThrough o₁ i w = o' := by
      simpa using hr
    obtain ⟨h₁, hb, hk⟩ := upsert_spec h hs
    obtain ⟨hv, hw⟩ := writeThrough_spec h₁ hk (update_self ..) w
    rw [hv, hb]
    rw [update_idem] at hw
    exact ⟨rfl, hw⟩
  | setSlot slot k w =>
    obtain ⟨⟨i, b, o₁⟩, hs, hr⟩ := Option.bind_eq_some_iff.mp hr
    obtain ⟨rfl, rfl⟩ : .entry b (some (o₁.vals i.toNat)) = r ∧ writeThrough o₁ i w = o' := by
      simpa using hr
    obtain ⟨h₁, hb, hk⟩ := setSlot_spec h hs
    obtain ⟨hv, hw⟩ := writeThrough_spec h₁ hk (update_self ..) w
    rw [hv, hb]
    rw [update_idem] at hw
    exact ⟨rfl, hw⟩
  | remove k =>
    obtain ⟨⟨b, o₁⟩, hs, hr⟩ := Option.bind_eq_some_iff.mp hr
    obtain ⟨rfl, rfl⟩ : .flag b = r ∧ o₁ = o' := by simpa using hr
    obtain ⟨hb, h₁⟩ := remove_spec h hs
    exact ⟨by rw [hb]; rfl, h₁⟩
  | clear =>
    obtain ⟨rfl, rfl⟩ : ObjectResult.done = r ∧ jelloObjectClear o = o' := by
      simpa [objectStep] using hr
    exact ⟨rfl, clear_spec h⟩
  | get k =>
    obtain ⟨⟨v, o₁⟩, hs, hr⟩ := Option.bind_eq_some_iff.mp hr
    obtain ⟨rfl, rfl⟩ : .value v = r ∧ o₁ = o' := by simpa using hr
    obtain ⟨hv, h₁⟩ := get_spec h hs
    exact ⟨by rw [hv]; rfl, h₁⟩
  | getSlot slot k =>
    obtain ⟨⟨v, o₁⟩, hs, hr⟩ := Option.bind_eq_some_iff.mp hr
    obtain ⟨rfl, rfl⟩ : .value v = r ∧ o₁ = o' := by simpa using hr
    obtain ⟨hv, h₁⟩ := getSlot_spec h hs
    exact ⟨by rw [hv]; rfl, h₁⟩
  | has k =>
    obtain ⟨⟨b, o₁⟩, hs, hr⟩ := Option.bind_eq_some_iff.mp hr
    obtain ⟨rfl, rfl⟩ : .flag b = r ∧ o₁ = o' := by simpa using hr
    obtain ⟨⟨i, found, o₂⟩, hf, hs⟩ := Option.bind_eq_some_iff.mp hs
    obtain ⟨rfl, rfl⟩ : found = b ∧ o₂ = o₁ := by simpa using hs
    obtain ⟨h₁, hb, -⟩ := lookup_spec h hf
    exact ⟨by rw [hb]; rfl, h₁⟩
  | slot k w =>
    obtain ⟨⟨p, o₁⟩, hs, hr⟩ := Option.bind_eq_some_iff.mp hr
    obtain ⟨⟨i, found, o₂⟩, hf, hs⟩ := Option.bind_eq_some_iff.mp hs
    obtain ⟨rfl, rfl⟩ : (if !found then none else some i) = p ∧ o₂ = o₁ := by simpa using hs
    obtain ⟨h₁, hb, hk⟩ := lookup_spec h hf
    cases found with
    | false =>
      obtain ⟨rfl, rfl⟩ : .entry false none = r ∧ o₂ = o' := by simpa using hr
      have hn : m k = none := Option.isNone_iff_eq_none.mp (by simpa using hb.symm)
      simp only [mapStep, hn, Option.map_none, Option.isSome_none, true_and]
      rw [← hn, update_eq_self]
      exact h₁
    | true =>
      obtain ⟨rfl, rfl⟩ : .entry true (some (o₂.vals i.toNat)) = r ∧ writeThrough o₂ i w = o' := by
        simpa using hr
      have hv := h₁.rep.of_holds (hk rfl)
      obtain ⟨-, hw⟩ := writeThrough_spec h₁ (hk rfl) hv w
      simp only [mapStep, hv, Option.map_some, Option.isSome_some]
      exact ⟨rfl, hw⟩

theorem cloned_of_clone {h h' : Heap} {v v' : JelloValue}
    (hc : vmCloneNumbox v h = some (v', h')) : Cloned v v' := by
  have hc' := hc
  unfold vmCloneNumbox at hc'
  split_ifs at hc' with hp
  · exact .inl (by simpa using congrArg Prod.fst (Option.some.inj hc').symm)
  · cases hcell : h.cells v with
    | none => simp [hcell] at hc'
    | some c =>
      simp only [hcell] at hc'
      split_ifs at hc' with hn
      · have hcell' := h.alloc_cells_self c
        rw [Option.some.inj hc'] at hcell'
        exact .inr ⟨h, h', c, hn, hcell, hcell', hc⟩
      · exact .inl (by simpa using congrArg Prod.fst (Option.some.inj hc').symm)

theorem copyLoop_spec {src : JelloObject} (n j : ℕ) {dst dst' : JelloObject} {m₁ : AtomMap}
    {h h' : Heap} (hd : Models dst m₁)
    (hr : copyLoop vmCloneNumbox src n j dst h = some (dst', h')) :
    ∃ m₂, Models dst' m₂ ∧ Loaded Cloned src.table n j m₁ m₂ := by
  induction n generalizing j dst m₁ h with
  | zero =>
    obtain ⟨rfl, rfl⟩ : dst = dst' ∧ h = h' := by simpa [copyLoop] using hr
    exact ⟨m₁, hd, .nil Cloned j m₁⟩
  | succ n ih =>
    rw [copyLoop] at hr
    split_ifs at hr with hs
    · obtain ⟨⟨v, h₁⟩, hv, hr⟩ := Option.bind_eq_some_iff.mp hr
      obtain ⟨dst₁, hset, hr⟩ := Option.bind_eq_some_iff.mp hr
      obtain ⟨m₂, hm, hload⟩ := ih (j + 1) (set_spec hd hset) hr
      exact ⟨m₂, hm, .cons hs (cloned_of_clone hv) hload⟩
    · obtain ⟨m₂, hm, hload⟩ := ih (j + 1) hd hr
      exact ⟨m₂, hm, .skip hs hload⟩

theorem copy_spec {src dst dst' : JelloObject} {h h' : Heap} (hsrc : Models src m)
    (hd : Models dst (fun _ ↦ none))
    (hr : jelloObjectCopy vmCloneNumbox dst src h = some (dst', h')) :
    ∃ m', Models dst' m' ∧ ∀ k, Option.Rel Cloned (m k) (m' k) := by
  obtain ⟨⟨d, h₁⟩, hl, hr⟩ := Option.bind_eq_some_iff.mp hr
  obtain ⟨m', hm, hload⟩ := copyLoop_spec _ _ hd hl
  obtain ⟨rfl, rfl⟩ : { d with proto := src.proto } = dst' ∧ h₁ = h' := by simpa using hr
  exact ⟨m', hm.congr ⟨rfl, rfl⟩, hload.rel hsrc.rep⟩

end Specs

section Run

theorem forall₂_set {α β : Type} {R : α → β → Prop} {as : List α} {bs : List β}
    (h : List.Forall₂ R as bs) {a : α} {b : β} (hab : R a b) (n : ℕ) :
    List.Forall₂ R (as.set n a) (bs.set n b) := by
  induction h generalizing n with
  | nil => exact .nil
  | cons hd tl ih =>
    cases n with
    | zero => exact .cons hab tl
    | succ n => exact .cons hd (ih n)

theorem poolStep_spec {h h' : Heap} {pool pool' : List JelloObject} {ms : List AtomMap}
    {target : ℕ} {op : PoolOp} {r : ObjectResult} (hp : List.Forall₂ Models pool ms)
    (hr : poolStep h pool target op = some (r, h', pool')) :
    ∃ ms', MapStep ms target op r ms' ∧ List.Forall₂ Models pool' ms' := by
  obtain ⟨o, ho, hr⟩ := Option.bind_eq_some_iff.mp hr
  obtain ⟨hlt, rfl⟩ := List.getElem?_eq_some_iff.mp ho
  have hlen := hp.length_eq
  have hm : Models pool[target] ms[target] := hp.get hlt (by omega)
  have hms : ms[target]? = some ms[target] := List.getElem?_eq_getElem (by omega)
  cases op with
  | copy recycled mem =>
    obtain ⟨⟨dst, h₁⟩, hc, hr⟩ := Option.bind_eq_some_iff.mp hr
    obtain ⟨rfl, rfl, rfl⟩ : .object pool.length = r ∧ h₁ = h' ∧ pool ++ [dst] = pool' := by
      simpa using hr
    obtain ⟨m', hm', hrel⟩ := copy_spec hm (models_new recycled mem _) hc
    rw [hlen]
    exact ⟨_, .copy hms hrel, List.rel_append hp (.cons hm' .nil)⟩
  | call op =>
    obtain ⟨⟨r₁, o₁⟩, hs, hr⟩ := Option.bind_eq_some_iff.mp hr
    obtain ⟨rfl, rfl, rfl⟩ : r₁ = r ∧ h = h' ∧ pool.set target o₁ = pool' := by simpa using hr
    obtain ⟨hres, h₁⟩ := objectStep_spec hm hs
    rw [hres]
    exact ⟨_, .call hms, forall₂_set hp h₁ target⟩

theorem poolRun_spec (ops : List (ℕ × PoolOp)) {h h' : Heap} {pool pool' : List JelloObject}
    {ms : List AtomMap} {rs : List ObjectResult} (hp : List.Forall₂ Models pool ms)
    (hr : poolRun h pool ops = some (rs, h', pool')) :
    ∃ ms', MapRun ms ops rs ms' ∧ List.Forall₂ Models pool' ms' := by
  induction ops generalizing h pool ms rs with
  | nil =>
    obtain ⟨rfl, rfl, rfl⟩ : [] = rs ∧ h = h' ∧ pool = pool' := by simpa [poolRun] using hr
    exact ⟨ms, .nil ms, hp⟩
  | cons head ops ih =>
    obtain ⟨target, op⟩ := head
    obtain ⟨⟨r, h₁, pool₁⟩, hs, hr⟩ := Option.bind_eq_some_iff.mp hr
    obtain ⟨⟨rs₁, h₂, pool₂⟩, hrun, hr⟩ := Option.bind_eq_some_iff.mp hr
    obtain ⟨rfl, rfl, rfl⟩ : r :: rs₁ = rs ∧ h₂ = h' ∧ pool₂ = pool' := by simpa using hr
    obtain ⟨ms₁, hstep, hp₁⟩ := poolStep_spec hp hs
    obtain ⟨ms₂, hmap, hp₂⟩ := ih hp₁ hrun
    exact ⟨ms₂, .cons hstep hmap, hp₂⟩

/-- Two atoms that share a slot, an update through a stale hint, a removal and a copy. -/
def sampleOps : List (ℕ × PoolOp) :=
  [(0, .call (.set 0 (jelloMakeI32 5))), (0, .call (.set 1 (jelloMakeI32 6))),
    (0, .call (.setSlot 0 1 (some jelloMakeNull))), (0, .call (.remove 0)),
    (0, .copy false (jelloObjectNew false default 0)), (1, .call (.get 1))]

end Run

end JelloVM
