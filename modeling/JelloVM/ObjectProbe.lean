import JelloVM.ObjectMap

namespace JelloVM

open Function OpenAddressing

/-- The table has an empty slot, and both probe loops return for every key. -/
structure ProbesReturn (o : JelloObject) : Prop where
  empty : HasEmpty o.table
  findSlot : ∀ k, ∃ fuel, (findSlot fuel o k).isSome
  findOccupiedSlot : ∀ k, ∃ fuel, (findOccupiedSlot fuel o k).isSome

/-- Every call of the sequence returns, and the probe loops return after each. -/
def AlwaysProbes (o : JelloObject) : List ObjectOp → Prop
  | [] => ProbesReturn o
  | op :: ops => ProbesReturn o ∧ ∃ r o', objectStep o op = some (r, o') ∧ AlwaysProbes o' ops

/-- The key that a call inserts when it is missing. -/
def insertedKey (o : JelloObject) : ObjectOp → Option UInt32
  | .set k _ => some k
  | .upsert k _ => some k
  | .setSlot slot k _ => if slotHolds o slot k then none else some k
  | _ => none

/-- The probe path of `k` meets a tombstone before any empty slot. An empty object
looks at the first slot of the path only. -/
def MeetsTomb (o : JelloObject) (k : UInt32) : Prop :=
  if o.len = 0 then o.states (pos home o.table k 0) = .tomb
  else ∃ e, o.states (pos home o.table k e) = .tomb ∧ Blocked home o.table k e

/-- Inserting `k` leaves an empty slot: the table doubles, or the key is there, or a
tombstone is reused, or a second empty slot is left. -/
def LeavesEmpty (o : JelloObject) (k : UInt32) : Prop :=
  if (o.len + 1) * objectLoadNum < o.cap * objectLoadDen then
    ¬ Absent o.table k ∨ MeetsTomb o k ∨ 2 ≤ o.table.count .empty
  else o.cap.toNat ≠ 2 ^ 31

def AlwaysLeavesEmpty (o : JelloObject) : List ObjectOp → Prop
  | [] => True
  | op :: ops => (∀ k, insertedKey o op = some k → LeavesEmpty o k) ∧
      ∀ r o', objectStep o op = some (r, o') → AlwaysLeavesEmpty o' ops

section Step

variable {o o' : JelloObject} {m : AtomMap} {k i : UInt32} {b : Bool}

theorem findOccupiedSlot_returns (h : ObjectInv o) (hk : HasEmpty o.table ∨ ¬ Absent o.table k)
    {fuel : ℕ} (hf : o.cap.toNat ≤ fuel) : (findOccupiedSlot fuel o k).isSome := by
  unfold findOccupiedSlot
  have htry := (objectIcTry_spec o k).1
  revert htry
  generalize objectIcTry o k = r
  obtain ⟨r₁, o₁⟩ := r
  intro hsame
  have h₁ : ObjectInv o₁ := h.congr hsame
  have hcap : o₁.cap.toNat = o.cap.toNat := congrArg Table.cap hsame.1
  cases r₁ with
  | some j => rfl
  | none =>
    simp only
    split_ifs
    · rfl
    · rfl
    · have hc : 0 < o₁.table.cap := h₁.wf.cap_pos
      have hhome := h₁.pow.home k
      have hlt : (hashU32 k &&& (o₁.cap - 1)).toNat < o₁.cap.toNat := by
        rw [hhome]
        exact pos_lt home hc k 0
      rw [findOccupiedLoop_eq_scan h₁.pow _ _ _ none hlt, hhome, Option.isSome_map]
      exact scan_returns home (hsame.1 ▸ hk) (by change o₁.cap.toNat ≤ fuel; omega)

theorem probesReturn_iff (h : ObjectInv o) : ProbesReturn o ↔ HasEmpty o.table := by
  constructor
  · intro hp
    exact hp.empty
  · intro he
    exact ⟨he, fun k ↦ ⟨_, probe_returns h (.inl he) le_rfl⟩,
      fun k ↦ ⟨_, findOccupiedSlot_returns h (.inl he) le_rfl⟩⟩

/-- The free slot that an insertion takes is a tombstone exactly when the path meets one. -/
theorem meetsTomb_iff (h : ObjectInv o) {fuel : ℕ} (hf : findSlot fuel o k = some (i, false, o'))
    (hfree : Free home o.table k i.toNat) : MeetsTomb o k ↔ o.states i.toNat = .tomb := by
  unfold MeetsTomb
  split_ifs with hl
  · rw [findSlot, if_pos hl] at hf
    have hi : hashU32 k &&& (o.cap - 1) = i := congrArg Prod.fst (Option.some.inj hf)
    rw [← hi, h.pow.home k]
  · constructor
    · intro hm
      obtain ⟨e, he, hb⟩ := hm
      cases hs : o.states i.toNat with
      | empty => exact absurd he (hfree.reuse hs e hb)
      | occupied => exact absurd hs hfree.vacant
      | tomb => rfl
    · intro hs
      obtain ⟨e, he, hb⟩ := hfree.reach
      exact ⟨e, he ▸ hs, hb⟩

theorem count_empty_put {q : ℕ} (hfree : Free home o.table k q) (v : JelloValue) :
    (o.table.put q k v).count .empty + (if o.states q = .empty then 1 else 0) =
      o.table.count .empty := by
  have hcount := count_put (k := k) (v := v) hfree.lt_cap .empty
  simp only [reduceCtorEq, if_false, Nat.add_zero] at hcount
  exact hcount

theorem upsert_of_fits (h : Models o m) (he : HasEmpty o.table)
    (hfit : (o.len + 1) * objectLoadNum < o.cap * objectLoadDen) :
    ∃ i b o', jelloObjectUpsert o k = some (i, b, o') ∧
      (HasEmpty o'.table ↔ ¬ Absent o.table k ∨ MeetsTomb o k ∨ 2 ≤ o.table.count .empty) := by
  obtain ⟨⟨i, b, o₁⟩, hf⟩ := Option.isSome_iff_exists.mp
    (probe_returns h.inv (k := k) (.inl he) (le_refl (probeFuel o)))
  have hens : ensureCap o = some o := if_pos hfit
  obtain ⟨hsame, hres⟩ := findSlot_spec h.inv hf
  obtain ⟨rfl, hk⟩ | ⟨rfl, hk, hfree⟩ := hres
  · refine ⟨i, true, objectIcStore o₁ k i, by simp [jelloObjectUpsert, hens, hf], ?_⟩
    rw [(sameEntries_icStore o₁ k i).1, hsame.1]
    exact iff_of_true he (.inl fun ha ↦ ha _ hk)
  · have hm := meetsTomb_iff h.inv hf hfree
    have hcount := count_empty_put hfree jelloMakeNull
    rw [← hsame.1] at hk hfree
    obtain ⟨o₂, hw, htab, -⟩ := (h.congr hsame).writeEntry hk hfree jelloMakeNull
    refine ⟨i, false, o₂, by simp [jelloObjectUpsert, hens, hf, hw], ?_⟩
    rw [hsame.1] at htab hk hfree
    rw [hasEmpty_iff] at he
    rw [htab, hasEmpty_iff, hm]
    cases hs : o.states i.toNat with
    | empty =>
      simp only [hs, if_true] at hcount
      simp only [hk, not_true_eq_false, reduceCtorEq, false_or]
      omega
    | occupied => exact absurd hs hfree.vacant
    | tomb =>
      simp only [hs, reduceCtorEq, if_false] at hcount
      simp only [true_or, or_true, iff_true]
      omega

theorem upsert_of_grows (h : Models o m)
    (hg : ¬ (o.len + 1) * objectLoadNum < o.cap * objectLoadDen) (hc : o.cap.toNat ≠ 2 ^ 31) :
    ∃ i b o', jelloObjectUpsert o k = some (i, b, o') ∧ HasEmpty o'.table := by
  obtain ⟨o₁, hr, h₁, ht, hcap, hlen⟩ := rehash_spec h hc
  have hb := h.inv.pow.bounds
  have hle := h.inv.len_le
  have hcount := h₁.inv.len_eq
  have he : HasEmpty o₁.table := hasEmpty_of_noTomb ht (by rw [← hcount, hlen]; omega)
  have hens : ensureCap o = some o₁ := by
    rw [ensureCap, if_neg hg, hr]
  obtain ⟨⟨i, b, o₂⟩, hf⟩ := Option.isSome_iff_exists.mp
    (probe_returns h₁.inv (k := k) (.inl he) (le_refl (probeFuel o₁)))
  obtain ⟨hsame, hres⟩ := findSlot_spec h₁.inv hf
  obtain ⟨rfl, hk⟩ | ⟨rfl, hk, hfree⟩ := hres
  · refine ⟨i, true, objectIcStore o₂ k i, by simp [jelloObjectUpsert, hens, hf], ?_⟩
    rw [(sameEntries_icStore o₂ k i).1, hsame.1]
    exact he
  · have hput := count_put (k := k) (v := jelloMakeNull) hfree.lt_cap .occupied
    have hv := hfree.vacant
    rw [← hsame.1] at hk hfree
    obtain ⟨o₃, hw, htab, -⟩ := (h₁.congr hsame).writeEntry hk hfree jelloMakeNull
    refine ⟨i, false, o₃, by simp [jelloObjectUpsert, hens, hf, hw], ?_⟩
    rw [hsame.1] at htab
    have hcap₃ : o₃.cap.toNat = o₁.cap.toNat := congrArg Table.cap htab
    have ht₃ : NoTomb o₃ := by
      intro q hq
      have hst : o₃.states = update o₁.states i.toNat .occupied := congrArg Table.state htab
      rw [hst]
      by_cases hqi : q = i.toNat
      · simp [hqi]
      · rw [update_of_ne hqi]
        exact ht q (by omega)
    refine hasEmpty_of_noTomb ht₃ ?_
    simp only [hv, if_false, if_true, Nat.add_zero] at hput
    rw [htab, hput, ← hcount, hlen]
    omega

theorem upsert_of_wraps (h : Models o m)
    (hg : ¬ (o.len + 1) * objectLoadNum < o.cap * objectLoadDen) (hc : o.cap.toNat = 2 ^ 31) :
    jelloObjectUpsert o k = none := by
  have hens : ensureCap o = none := by
    rw [ensureCap, if_neg hg, rehash_wraps h hc (len_ne_zero_of_grows h.inv.pow hg)]
  simp only [jelloObjectUpsert, hens, Option.bind_eq_bind, Option.bind_none]

theorem upsert_leavesEmpty (h : Models o m) (he : HasEmpty o.table) (hl : LeavesEmpty o k) :
    ∃ i b o', jelloObjectUpsert o k = some (i, b, o') ∧ HasEmpty o'.table := by
  unfold LeavesEmpty at hl
  split_ifs at hl with hfit
  · obtain ⟨i, b, o', hu, hiff⟩ := upsert_of_fits h he hfit
    exact ⟨i, b, o', hu, hiff.mpr hl⟩
  · exact upsert_of_grows h hfit hl

theorem leavesEmpty_of_upsert (h : Models o m) (he : HasEmpty o.table)
    (hu : jelloObjectUpsert o k = some (i, b, o')) (he' : HasEmpty o'.table) : LeavesEmpty o k := by
  unfold LeavesEmpty
  split_ifs with hfit
  · obtain ⟨i₁, b₁, o₁, hu₁, hiff⟩ := upsert_of_fits (k := k) h he hfit
    obtain ⟨rfl, rfl, rfl⟩ : i₁ = i ∧ b₁ = b ∧ o₁ = o' := by simpa [hu₁] using hu
    exact hiff.mp he'
  · intro hc
    rw [upsert_of_wraps h hfit hc] at hu
    simp at hu

theorem hasEmpty_writeThrough (i : UInt32) (w : Option JelloValue) (he : HasEmpty o.table) :
    HasEmpty (writeThrough o i w).table := by
  cases w <;> exact he

theorem hasEmpty_of_writeThrough {i : UInt32} {w : Option JelloValue}
    (he : HasEmpty (writeThrough o i w).table) : HasEmpty o.table := by
  cases w <;> exact he

theorem hasEmpty_bury {t : Table UInt32 JelloValue} {q : ℕ} (he : HasEmpty t)
    (hq : t.state q = .occupied) : HasEmpty (t.bury q) := by
  obtain ⟨j, hj, hs⟩ := he
  have hne : j ≠ q := by
    intro hjq
    rw [hjq, hq] at hs
    simp at hs
  exact ⟨j, hj, by simp [Table.bury, update_of_ne hne, hs]⟩

theorem remove_returns (h : Models o m) (he : HasEmpty o.table) (k : UInt32) :
    ∃ b o', jelloObjectRemove o k = some (b, o') ∧ HasEmpty o'.table := by
  obtain ⟨⟨i, found, o₁⟩, hf⟩ := Option.isSome_iff_exists.mp
    (probe_returns h.inv (k := k) (.inl he) (le_refl (probeFuel o)))
  obtain ⟨hsame, hres⟩ := findSlot_spec h.inv hf
  have he₁ : HasEmpty o₁.table := hsame.1 ▸ he
  unfold jelloObjectRemove
  rw [hf]
  obtain ⟨rfl, hk⟩ | ⟨rfl, -⟩ := hres
  · have hst : o₁.table.state i.toNat = .occupied := by
      rw [hsame.1]
      exact hk.2.1
    have hb := hasEmpty_bury he₁ hst
    simp only [Option.bind_eq_bind, Option.bind_some, Bool.not_true, Bool.false_eq_true, if_false]
    split_ifs
    · exact ⟨true, _, rfl, hb⟩
    · exact ⟨true, _, rfl, hb⟩
  · exact ⟨false, o₁, rfl, he₁⟩

theorem lookup_returns (h : Models o m) (he : HasEmpty o.table) (k : UInt32) :
    ∃ i b o', findOccupiedSlot (probeFuel o) o k = some (i, b, o') ∧ HasEmpty o'.table := by
  obtain ⟨⟨i, b, o₁⟩, hf⟩ := Option.isSome_iff_exists.mp
    (findOccupiedSlot_returns h.inv (.inl he) (le_refl (probeFuel o)))
  obtain ⟨hsame, -⟩ := findOccupiedSlot_spec h.inv hf
  exact ⟨i, b, o₁, hf, hsame.1 ▸ he⟩

/-- One call, in a state whose probe loops return: it returns and leaves an empty slot,
unless it inserts where none is left. -/
theorem objectStep_keeps (h : Models o m) (he : HasEmpty o.table) (op : ObjectOp)
    (hl : ∀ k, insertedKey o op = some k → LeavesEmpty o k) :
    ∃ r o', objectStep o op = some (r, o') ∧ HasEmpty o'.table := by
  cases op with
  | set k v =>
    obtain ⟨i, b, o₁, hu, he₁⟩ := upsert_leavesEmpty h he (hl k rfl)
    exact ⟨.done, writeSlot o₁ i v, by simp [objectStep, jelloObjectSet, hu], he₁⟩
  | upsert k w =>
    obtain ⟨i, b, o₁, hu, he₁⟩ := upsert_leavesEmpty h he (hl k rfl)
    exact ⟨_, _, by simp only [objectStep, hu, Option.bind_eq_bind, Option.bind_some]; rfl,
      hasEmpty_writeThrough i w he₁⟩
  | setSlot slot k w =>
    by_cases hs : slotHolds o slot k = true
    · exact ⟨_, _, by
        simp only [objectStep, jelloObjectSetSlot, hs, if_true, Option.bind_eq_bind,
          Option.bind_some]
        rfl, hasEmpty_writeThrough slot w he⟩
    · obtain ⟨i, b, o₁, hu, he₁⟩ := upsert_leavesEmpty h he (hl k (if_neg hs))
      exact ⟨_, _, by
        simp only [objectStep, jelloObjectSetSlot, hs, hu, Option.bind_eq_bind]
        rfl, hasEmpty_writeThrough i w he₁⟩
  | remove k =>
    obtain ⟨b, o₁, hr, he₁⟩ := remove_returns h he k
    exact ⟨.flag b, o₁, by simp [objectStep, hr], he₁⟩
  | clear =>
    refine ⟨.done, jelloObjectClear o, rfl, 0, h.inv.wf.cap_pos, ?_⟩
    exact if_pos h.inv.wf.cap_pos
  | get k =>
    obtain ⟨i, b, o₁, hf, he₁⟩ := lookup_returns h he k
    exact ⟨_, o₁, by simp [objectStep, jelloObjectGet, hf]; rfl, he₁⟩
  | getSlot slot k =>
    by_cases hs : slotHolds o slot k = true
    · exact ⟨_, o, by simp [objectStep, jelloObjectGetSlot, hs]; rfl, he⟩
    · obtain ⟨i, b, o₁, hf, he₁⟩ := lookup_returns h he k
      exact ⟨_, o₁, by simp [objectStep, jelloObjectGetSlot, jelloObjectGet, hs, hf]; rfl, he₁⟩
  | has k =>
    obtain ⟨i, b, o₁, hf, he₁⟩ := lookup_returns h he k
    exact ⟨.flag b, o₁, by simp [objectStep, jelloObjectHas, hf], he₁⟩
  | slot k w =>
    obtain ⟨i, b, o₁, hf, he₁⟩ := lookup_returns h he k
    cases b with
    | false => exact ⟨_, o₁, by simp [objectStep, jelloObjectSlot, hf]; rfl, he₁⟩
    | true =>
      exact ⟨_, _, by simp [objectStep, jelloObjectSlot, hf]; rfl, hasEmpty_writeThrough i w he₁⟩

theorem leavesEmpty_of_objectStep (h : Models o m) (he : HasEmpty o.table) {op : ObjectOp}
    {r : ObjectResult} (hr : objectStep o op = some (r, o')) (he' : HasEmpty o'.table) (k : UInt32)
    (hk : insertedKey o op = some k) : LeavesEmpty o k := by
  cases op with
  | set k₁ v =>
    obtain rfl : k₁ = k := Option.some.inj hk
    obtain ⟨o₁, hs, hr⟩ := Option.bind_eq_some_iff.mp hr
    obtain ⟨⟨i, b, o₂⟩, hu, hs⟩ := Option.bind_eq_some_iff.mp hs
    obtain ⟨rfl, rfl⟩ : ObjectResult.done = r ∧ o₁ = o' := by simpa using hr
    obtain rfl : writeSlot o₂ i v = o₁ := by simpa using hs
    exact leavesEmpty_of_upsert h he hu he'
  | upsert k₁ w =>
    obtain rfl : k₁ = k := Option.some.inj hk
    obtain ⟨⟨i, b, o₁⟩, hu, hr⟩ := Option.bind_eq_some_iff.mp hr
    obtain ⟨-, rfl⟩ : _ = r ∧ writeThrough o₁ i w = o' := by simpa using hr
    exact leavesEmpty_of_upsert h he hu (hasEmpty_of_writeThrough he')
  | setSlot slot k₁ w =>
    simp only [insertedKey] at hk
    split_ifs at hk with hs
    obtain rfl : k₁ = k := Option.some.inj hk
    obtain ⟨⟨i, b, o₁⟩, hu, hr⟩ := Option.bind_eq_some_iff.mp hr
    obtain ⟨-, rfl⟩ : _ = r ∧ writeThrough o₁ i w = o' := by simpa using hr
    rw [jelloObjectSetSlot, if_neg hs] at hu
    exact leavesEmpty_of_upsert h he hu (hasEmpty_of_writeThrough he')
  | remove k₁ => simp [insertedKey] at hk
  | clear => simp [insertedKey] at hk
  | get k₁ => simp [insertedKey] at hk
  | getSlot slot k₁ => simp [insertedKey] at hk
  | has k₁ => simp [insertedKey] at hk
  | slot k₁ w => simp [insertedKey] at hk

end Step

theorem alwaysProbes_iff_of_models (ops : List ObjectOp) {o : JelloObject} {m : AtomMap}
    (h : Models o m) (he : HasEmpty o.table) : AlwaysProbes o ops ↔ AlwaysLeavesEmpty o ops := by
  induction ops generalizing o m with
  | nil => exact iff_of_true ((probesReturn_iff h.inv).mpr he) trivial
  | cons op ops ih =>
    simp only [AlwaysProbes, AlwaysLeavesEmpty]
    constructor
    · intro hp
      obtain ⟨-, r, o', hs, hrest⟩ := hp
      obtain ⟨-, h'⟩ := objectStep_spec h hs
      have he' : HasEmpty o'.table := by
        cases ops with
        | nil => exact hrest.empty
        | cons _ _ => exact hrest.1.empty
      refine ⟨leavesEmpty_of_objectStep h he hs he', fun r₁ o₁ hs₁ ↦ ?_⟩
      obtain ⟨rfl, rfl⟩ : r = r₁ ∧ o' = o₁ := by simpa [hs] using hs₁
      exact (ih h' he').mp hrest
    · intro hl
      obtain ⟨hop, hrest⟩ := hl
      obtain ⟨r, o', hs, he'⟩ := objectStep_keeps h he op hop
      obtain ⟨-, h'⟩ := objectStep_spec h hs
      exact ⟨(probesReturn_iff h.inv).mpr he, r, o', hs, (ih h' he').mpr (hrest r o' hs)⟩

/-- Probing terminates along a whole history exactly when no insertion of it takes the
last empty slot or doubles the largest table. -/
theorem alwaysProbes_iff (recycled : Bool) (mem : JelloObject) (typeId : UInt32)
    (ops : List ObjectOp) :
    AlwaysProbes (jelloObjectNew recycled mem typeId) ops ↔
      AlwaysLeavesEmpty (jelloObjectNew recycled mem typeId) ops := by
  have h := models_new recycled mem typeId
  refine alwaysProbes_iff_of_models ops h ?_
  refine hasEmpty_of_noTomb (fun q hq ↦ ?_) ?_
  · have hb := (h.inv.pow.bounds).1
    have hs : (jelloObjectNew recycled mem typeId).states q = .empty := by
      revert hq
      unfold jelloObjectNew
      split_ifs
      · intro hq
        exact if_pos hq
      · intro _
        rfl
    simp [hs]
  · have hb := (h.inv.pow.bounds).1
    have hlen : (jelloObjectNew recycled mem typeId).len = 0 := by
      unfold jelloObjectNew
      split_ifs <;> rfl
    rw [← h.inv.len_eq, hlen]
    simp only [UInt32.toNat_zero]
    omega

/-- Eight atoms, one for each slot of a new table, come and go; one comes back. -/
def churn : List ObjectOp :=
  [0, 2, 8, 6, 12, 3, 5, 15].flatMap (fun k ↦ [.set k jelloMakeNull, .remove k]) ++
    [.set 0 jelloMakeNull]

def objectRun (o : JelloObject) : List ObjectOp → Option JelloObject
  | [] => some o
  | op :: ops => do
    let (_, o) ← objectStep o op
    objectRun o ops

theorem objectRun_models (ops : List ObjectOp) {o o' : JelloObject} {m : AtomMap}
    (h : Models o m) (hr : objectRun o ops = some o') : ∃ m', Models o' m' := by
  induction ops generalizing o m with
  | nil =>
    obtain rfl : o = o' := by simpa [objectRun] using hr
    exact ⟨m, h⟩
  | cons op ops ih =>
    obtain ⟨⟨r, o₁⟩, hs, hr⟩ := Option.bind_eq_some_iff.mp hr
    exact ih (objectStep_spec h hs).2 hr

theorem alwaysProbes_run (ops : List ObjectOp) {o o' : JelloObject} (h : AlwaysProbes o ops)
    (hr : objectRun o ops = some o') : ProbesReturn o' := by
  induction ops generalizing o with
  | nil =>
    obtain rfl : o = o' := by simpa [objectRun] using hr
    exact h
  | cons op ops ih =>
    obtain ⟨-, r, o₁, hs, hrest⟩ := h
    simp only [objectRun, hs, Option.bind_eq_bind, Option.bind_some] at hr
    exact ih hrest hr

theorem findSlot_forever {o : JelloObject} (h : ObjectInv o) (he : ¬ HasEmpty o.table)
    {k : UInt32} (hk : Absent o.table k) (hl : o.len ≠ 0) (fuel : ℕ) :
    findSlot fuel o k = none := by
  have hhome := h.pow.home k
  have hlt : (hashU32 k &&& (o.cap - 1)).toNat < o.cap.toNat := by
    rw [hhome]
    exact pos_lt home h.wf.cap_pos k 0
  rw [findSlot, if_neg hl, findSlotLoop_eq_scan h.pow _ _ _ _ hlt, hhome]
  rw [show remembered uint32Max = none from if_pos rfl, scan_full home h.wf.cap_pos he hk]
  rfl

/-- No slot is empty, and atom 1 is not stored. -/
def churnedOut (o : JelloObject) : Bool :=
  o.cap == 8 && o.len == 1 &&
    (List.range 8).all fun i ↦ o.states i != .empty && !(o.states i == .occupied && o.keys i == 1)

/-- After the churn no slot is empty, and the search for atom 1 goes round for ever. -/
theorem churn_probes_forever :
    ∃ o, objectRun (jelloObjectNew false default 0) churn = some o ∧ ¬ HasEmpty o.table ∧
      (∀ fuel, findSlot fuel o 1 = none) ∧
      ¬ AlwaysProbes (jelloObjectNew false default 0) churn := by
  have hrun : (objectRun (jelloObjectNew false default 0) churn).map churnedOut = some true := by
    decide +kernel
  obtain ⟨o, hr, ho⟩ := Option.map_eq_some_iff.mp hrun
  simp only [churnedOut, Bool.and_eq_true, beq_iff_eq, List.all_eq_true, List.mem_range,
    bne_iff_ne, Bool.not_eq_true', Bool.and_eq_false_iff, beq_eq_false_iff_ne] at ho
  obtain ⟨⟨hcap, hlen⟩, hslots⟩ := ho
  have hcap' : o.table.cap = 8 := by
    change o.cap.toNat = 8
    rw [hcap]
    rfl
  have hno : ¬ HasEmpty o.table := by
    intro he
    obtain ⟨i, hi, hs⟩ := he
    exact (hslots i (by omega)).1 hs
  have habs : Absent o.table 1 := by
    intro i hi
    have hlt := hi.1
    obtain hs | hk := (hslots i (by omega)).2
    · exact hs hi.2.1
    · exact hk hi.2.2
  obtain ⟨m, hm⟩ := objectRun_models churn (models_new false default 0) hr
  refine ⟨o, hr, hno, findSlot_forever hm.inv hno habs (by rw [hlen]; decide), fun hp ↦ ?_⟩
  exact hno (alwaysProbes_run churn hp hr).empty

end JelloVM
