import JelloVM.Object

namespace JelloVM

open Function OpenAddressing

def home (k : UInt32) : ℕ := (hashU32 k).toNat

def JelloObject.table (o : JelloObject) : Table UInt32 JelloValue where
  cap := o.cap.toNat
  state := o.states
  key := o.keys
  val := o.vals

/-- The capacity is a power of two, so that the mask is a remainder. -/
def PowCap (o : JelloObject) : Prop := ∃ e, 3 ≤ e ∧ e ≤ 31 ∧ o.cap.toNat = 2 ^ e

theorem PowCap.bounds {o : JelloObject} (h : PowCap o) : 8 ≤ o.cap.toNat ∧ o.cap.toNat ≤ 2 ^ 31 := by
  obtain ⟨e, h3, h31, he⟩ := h
  have hlo : 2 ^ 3 ≤ 2 ^ e := Nat.pow_le_pow_right (by omega) h3
  have hhi : 2 ^ e ≤ 2 ^ 31 := Nat.pow_le_pow_right (by omega) h31
  omega

theorem PowCap.mask {o : JelloObject} (h : PowCap o) (x : UInt32) :
    (x &&& (o.cap - 1)).toNat = x.toNat % o.cap.toNat := by
  have hb := h.bounds
  obtain ⟨e, h3, h31, he⟩ := h
  have h1 : (1 : UInt32) ≤ o.cap := by
    rw [UInt32.le_iff_toNat_le]
    simpa using (by omega : 1 ≤ o.cap.toNat)
  rw [UInt32.toNat_and, UInt32.toNat_sub_of_le _ _ h1, he]
  exact Nat.and_two_pow_sub_one_eq_mod _ _

theorem PowCap.next {o : JelloObject} (h : PowCap o) {i : UInt32} (hi : i.toNat < o.cap.toNat) :
    ((i + 1) &&& (o.cap - 1)).toNat = (i.toNat + 1) % o.cap.toNat := by
  have hb := h.bounds
  have h1 : (1 : UInt32).toNat = 1 := rfl
  rw [h.mask, UInt32.toNat_add, h1, Nat.mod_eq_of_lt (show i.toNat + 1 < 2 ^ 32 by omega)]

theorem PowCap.home {o : JelloObject} (h : PowCap o) (k : UInt32) :
    (hashU32 k &&& (o.cap - 1)).toNat = pos home o.table k 0 := by
  rw [h.mask, pos, Nat.add_zero]
  rfl

theorem slotHolds_iff {o : JelloObject} {i k : UInt32} :
    slotHolds o i k = true ↔ Holds o.table i.toNat k := by
  simp [slotHolds, Holds, JelloObject.table, UInt32.lt_iff_toNat_lt, and_assoc]

def remembered (firstTomb : UInt32) : Option ℕ :=
  if firstTomb = uint32Max then none else some firstTomb.toNat

theorem remembered_or {o : JelloObject} (h : PowCap o) {i : UInt32} (hi : i.toNat < o.cap.toNat)
    (firstTomb : UInt32) :
    remembered (if firstTomb = uint32Max then i else firstTomb) =
      (remembered firstTomb).or (some i.toNat) := by
  have hne : i ≠ uint32Max := by
    rintro rfl
    have hb := h.bounds
    have : uint32Max.toNat = 4294967295 := rfl
    omega
  by_cases hf : firstTomb = uint32Max
  · simp [remembered, hf, hne]
  · simp [remembered, hf]

def slotResult (o : JelloObject) (k : UInt32) (r : ℕ × Bool) : UInt32 × Bool × JelloObject :=
  (UInt32.ofNat r.1, r.2, if r.2 then objectIcStore o k (UInt32.ofNat r.1) else o)

theorem findSlotLoop_eq_scan {o : JelloObject} (h : PowCap o) (k : UInt32) (fuel : ℕ)
    (i firstTomb : UInt32) (hi : i.toNat < o.cap.toNat) :
    findSlotLoop o k fuel i firstTomb =
      (scan o.table k fuel i.toNat (remembered firstTomb)).map (slotResult o k) := by
  induction fuel generalizing i firstTomb with
  | zero => rfl
  | succ fuel ih =>
    have hlt : i < o.cap := UInt32.lt_iff_toNat_lt.mpr hi
    have hnext := h.next hi
    have hnlt : ((i + 1) &&& (o.cap - 1)).toNat < o.cap.toNat := by
      rw [hnext]
      exact Nat.mod_lt _ (by omega)
    have hnext' : ((i + 1) &&& (o.cap - 1)).toNat = (i.toNat + 1) % o.table.cap := hnext
    rw [findSlotLoop, if_pos hlt]
    cases hs : o.states i.toNat with
    | empty =>
      rw [scan_empty (t := o.table) hs]
      by_cases hf : firstTomb = uint32Max
      · simp [remembered, hf, slotResult]
      · simp [remembered, hf, slotResult]
    | occupied =>
      rw [scan_occupied (t := o.table) hs, ← hnext']
      by_cases hk : o.keys i.toNat = k
      · simp [hk, slotResult, JelloObject.table]
      · simpa [hk, JelloObject.table] using ih _ firstTomb hnlt
    | tomb =>
      rw [scan_tomb (t := o.table) hs, ← hnext', ← remembered_or h hi]
      simpa using ih _ _ hnlt

/-- The caches differ at most. -/
def SameEntries (o o' : JelloObject) : Prop := o'.table = o.table ∧ o'.len = o.len

theorem SameEntries.refl (o : JelloObject) : SameEntries o o := ⟨rfl, rfl⟩

theorem sameEntries_invalidateIc (o : JelloObject) : SameEntries o (jelloObjectInvalidateIc o) :=
  ⟨rfl, rfl⟩

theorem sameEntries_icStore (o : JelloObject) (k i : UInt32) :
    SameEntries o (objectIcStore o k i) := by
  unfold objectIcStore
  split_ifs <;> exact ⟨rfl, rfl⟩

theorem objectIcTryPoly_spec (o : JelloObject) (k : UInt32) (ps : List (Fin 3)) :
    SameEntries o (objectIcTryPoly o k ps).2 ∧
      ∀ i, (objectIcTryPoly o k ps).1 = some i → Holds o.table i.toNat k := by
  induction ps generalizing o with
  | nil => exact ⟨.refl o, fun i h ↦ by simp [objectIcTryPoly] at h⟩
  | cons p ps ih =>
    simp only [objectIcTryPoly]
    split_ifs with hp hs
    · exact ih o
    · exact ih { o with icPolyAtom := update o.icPolyAtom p objIcNone }
    · refine ⟨⟨rfl, rfl⟩, fun i hi ↦ ?_⟩
      obtain rfl : o.icPolySlot p = i := by simpa using hi
      exact slotHolds_iff.mp (by simpa using hs)

theorem objectIcTry_spec (o : JelloObject) (k : UInt32) :
    SameEntries o (objectIcTry o k).2 ∧
      ∀ i, (objectIcTry o k).1 = some i → Holds o.table i.toNat k := by
  unfold objectIcTry
  split_ifs with hc ha hs
  · exact ⟨.refl o, fun i h ↦ by simp at h⟩
  · refine ⟨.refl o, fun i hi ↦ ?_⟩
    obtain rfl : o.icSlot = i := by simpa using hi
    exact slotHolds_iff.mp hs
  · exact ⟨sameEntries_invalidateIc o, fun i h ↦ by simp at h⟩
  · exact objectIcTryPoly_spec o k _

/-- What every operation keeps: keys are stored once, no probe path to a key is
broken by an empty slot, and `len` counts the occupied slots. -/
structure ObjectInv (o : JelloObject) : Prop where
  pow : PowCap o
  wf : WellFormed home o.table
  len_eq : o.len.toNat = o.table.count .occupied

theorem ObjectInv.congr {o o' : JelloObject} (h : ObjectInv o) (hs : SameEntries o o') :
    ObjectInv o' := by
  obtain ⟨ht, hl⟩ := hs
  have hcap : o'.cap.toNat = o.cap.toNat := congrArg Table.cap ht
  refine ⟨?_, ht ▸ h.wf, by rw [hl, ht, h.len_eq]⟩
  rw [PowCap, hcap]
  exact h.pow

theorem ObjectInv.absent_of_len {o : JelloObject} (h : ObjectInv o) (hl : o.len = 0) (k : UInt32) :
    Absent o.table k := by
  intro i hi
  have hpos : 0 < o.table.count .occupied := (count_pos_iff _ _).mpr ⟨i, hi.1, hi.2.1⟩
  rw [← h.len_eq, hl] at hpos
  exact absurd hpos (by simp)

/-- The three things `find_slot` can return. -/
theorem findSlot_spec {o o' : JelloObject} (h : ObjectInv o) {fuel : ℕ} {k i : UInt32} {b : Bool}
    (hf : findSlot fuel o k = some (i, b, o')) :
    SameEntries o o' ∧
      ((b = true ∧ Holds o.table i.toNat k) ∨
        (b = false ∧ Absent o.table k ∧ Free home o.table k i.toNat)) := by
  have hc : 0 < o.table.cap := h.wf.cap_pos
  have hhome := h.pow.home k
  unfold findSlot at hf
  split_ifs at hf with hl
  · simp only [Option.some.injEq, Prod.mk.injEq] at hf
    obtain ⟨rfl, rfl, rfl⟩ := hf
    have ha := h.absent_of_len hl k
    refine ⟨.refl o, .inr ⟨rfl, ha, ?_⟩⟩
    rw [hhome]
    refine ⟨pos_lt home hc k 0, fun ho ↦ ?_, ⟨0, rfl, fun j hj ↦ absurd hj (by omega)⟩, ?_⟩
    · exact h.absent_of_len hl _ _ ⟨pos_lt home hc k 0, ho, rfl⟩
    · intro he e hb
      cases e with
      | zero => simp [he]
      | succ e => exact absurd he (hb 0 (by omega))
  · rw [findSlotLoop_eq_scan h.pow _ _ _ _ (hhome ▸ pos_lt home hc k 0), hhome] at hf
    obtain ⟨⟨q, b'⟩, hscan, hr⟩ := Option.map_eq_some_iff.mp hf
    have hsound := scan_sound home h.wf hscan
    have hq : q < o.cap.toNat := by
      obtain ⟨-, hq⟩ | ⟨-, -, hq⟩ := hsound
      · exact hq.1
      · exact hq.lt_cap
    have hqn : (UInt32.ofNat q).toNat = q := by
      have hb := h.pow.bounds
      exact UInt32.toNat_ofNat_of_lt' (by simpa using (by omega : q < 4294967296))
    simp only [slotResult, Prod.mk.injEq] at hr
    obtain ⟨rfl, rfl, rfl⟩ := hr
    rw [hqn]
    refine ⟨?_, hsound⟩
    cases b'
    · exact .refl o
    · exact sameEntries_icStore o k _

theorem findLinear_spec (o : JelloObject) (k : UInt32) (n : ℕ) (i : UInt32)
    (hn : i.toNat + n = o.cap.toNat) {q : UInt32} {b : Bool} {o' : JelloObject}
    (hf : findLinear o k n i = (q, b, o')) :
    SameEntries o o' ∧ ((b = true ∧ Holds o.table q.toNat k) ∨
      (b = false ∧ ∀ j, i.toNat ≤ j → ¬ Holds o.table j k)) := by
  induction n generalizing i with
  | zero =>
    simp only [findLinear, Prod.mk.injEq] at hf
    obtain ⟨rfl, rfl, rfl⟩ := hf
    refine ⟨.refl o, .inr ⟨rfl, fun j hj hh ↦ ?_⟩⟩
    have hlt : j < o.cap.toNat := hh.1
    omega
  | succ n ih =>
    rw [findLinear] at hf
    split_ifs at hf with hs
    · simp only [Prod.mk.injEq] at hf
      obtain ⟨rfl, rfl, rfl⟩ := hf
      exact ⟨sameEntries_icStore o k i, .inl ⟨rfl, slotHolds_iff.mp hs⟩⟩
    · have hlt := o.cap.toNat_lt
      have h1 : (1 : UInt32).toNat = 1 := rfl
      have hi1 : (i + 1).toNat = i.toNat + 1 := by
        rw [UInt32.toNat_add, h1, Nat.mod_eq_of_lt (by omega)]
      obtain ⟨hsame, hres⟩ := ih (i + 1) (by omega) hf
      refine ⟨hsame, ?_⟩
      obtain hfound | ⟨hb, habs⟩ := hres
      · exact .inl hfound
      · refine .inr ⟨hb, fun j hj hh ↦ ?_⟩
        obtain rfl | hgt := Nat.eq_or_lt_of_le hj
        · exact hs (slotHolds_iff.mpr hh)
        · exact habs j (by omega) hh

def lookupResult (o : JelloObject) (k : UInt32) (r : ℕ × Bool) : UInt32 × Bool × JelloObject :=
  if r.2 then slotResult o k r else (0, false, o)

theorem findOccupiedLoop_eq_scan {o : JelloObject} (h : PowCap o) (k : UInt32) (fuel : ℕ)
    (i : UInt32) (first : Option ℕ) (hi : i.toNat < o.cap.toNat) :
    findOccupiedLoop o k fuel i = (scan o.table k fuel i.toNat first).map (lookupResult o k) := by
  induction fuel generalizing i first with
  | zero => rfl
  | succ fuel ih =>
    have hlt : i < o.cap := UInt32.lt_iff_toNat_lt.mpr hi
    have hnext : ((i + 1) &&& (o.cap - 1)).toNat = (i.toNat + 1) % o.table.cap := h.next hi
    have hnlt : ((i + 1) &&& (o.cap - 1)).toNat < o.cap.toNat := by
      rw [hnext]
      exact Nat.mod_lt _ (by change 0 < o.cap.toNat; omega)
    rw [findOccupiedLoop, if_pos hlt]
    cases hs : o.states i.toNat with
    | empty =>
      rw [scan_empty (t := o.table) hs]
      simp [lookupResult]
    | occupied =>
      rw [scan_occupied (t := o.table) hs, ← hnext]
      by_cases hk : o.keys i.toNat = k
      · simp [hk, lookupResult, slotResult, JelloObject.table]
      · simpa [hk, JelloObject.table] using ih _ first hnlt
    | tomb =>
      rw [scan_tomb (t := o.table) hs, ← hnext]
      simpa using ih _ _ hnlt

theorem findOccupiedSlot_spec {o o' : JelloObject} (h : ObjectInv o) {fuel : ℕ} {k i : UInt32}
    {b : Bool} (hf : findOccupiedSlot fuel o k = some (i, b, o')) :
    SameEntries o o' ∧
      ((b = true ∧ Holds o.table i.toNat k) ∨ (b = false ∧ Absent o.table k)) := by
  unfold findOccupiedSlot at hf
  have htry := objectIcTry_spec o k
  revert hf htry
  generalize objectIcTry o k = r
  obtain ⟨r1, o1⟩ := r
  rintro hf ⟨hsame, hhit⟩
  have h1 : ObjectInv o1 := h.congr hsame
  have ht : o1.table = o.table := hsame.1
  have htrans : SameEntries o1 o' → SameEntries o o' := fun hs ↦
    ⟨hs.1.trans hsame.1, hs.2.trans hsame.2⟩
  cases r1 with
  | some j =>
    simp only [Option.some.injEq, Prod.mk.injEq] at hf
    obtain ⟨rfl, rfl, rfl⟩ := hf
    exact ⟨hsame, .inl ⟨rfl, hhit j rfl⟩⟩
  | none =>
    simp only at hf
    rw [← ht]
    split_ifs at hf with hl hsmall
    · simp only [Option.some.injEq, Prod.mk.injEq] at hf
      obtain ⟨rfl, rfl, rfl⟩ := hf
      exact ⟨hsame, .inr ⟨rfl, h1.absent_of_len hl k⟩⟩
    · simp only [Option.some.injEq] at hf
      obtain ⟨hs, hres⟩ := findLinear_spec o1 k _ 0 (by simp) hf
      refine ⟨htrans hs, ?_⟩
      obtain hfound | ⟨hb, habs⟩ := hres
      · exact .inl hfound
      · exact .inr ⟨hb, fun j ↦ habs j (by simp)⟩
    · have hc : 0 < o1.table.cap := h1.wf.cap_pos
      have hhome := h1.pow.home k
      rw [findOccupiedLoop_eq_scan h1.pow _ _ _ none (hhome ▸ pos_lt home hc k 0), hhome] at hf
      obtain ⟨⟨q, b'⟩, hscan, hr⟩ := Option.map_eq_some_iff.mp hf
      have hsound := scan_sound home h1.wf hscan
      cases b' with
      | false =>
        obtain ⟨rfl, rfl, rfl⟩ : 0 = i ∧ false = b ∧ o1 = o' := by simpa [lookupResult] using hr
        refine ⟨htrans (.refl o1), .inr ⟨rfl, ?_⟩⟩
        simpa using hsound.resolve_left (by simp) |>.2.1
      | true =>
        have hq : Holds o1.table q k := by
          obtain ⟨-, hq⟩ | ⟨hb, -⟩ := hsound
          · exact hq
          · simp at hb
        have hqn : (UInt32.ofNat q).toNat = q := by
          have hb := h1.pow.bounds
          have hlt : q < o1.cap.toNat := hq.1
          exact UInt32.toNat_ofNat_of_lt' (by simpa using (by omega : q < 4294967296))
        obtain ⟨rfl, rfl, rfl⟩ : UInt32.ofNat q = i ∧ true = b ∧
            objectIcStore o1 k (UInt32.ofNat q) = o' := by
          simpa [lookupResult, slotResult] using hr
        exact ⟨htrans (sameEntries_icStore o1 k _), .inl ⟨rfl, by rwa [hqn]⟩⟩

theorem probe_returns {o : JelloObject} (h : ObjectInv o) {k : UInt32}
    (hk : HasEmpty o.table ∨ ¬ Absent o.table k) {fuel : ℕ} (hf : o.cap.toNat ≤ fuel) :
    (findSlot fuel o k).isSome := by
  have hc : 0 < o.table.cap := h.wf.cap_pos
  have hhome := h.pow.home k
  unfold findSlot
  split_ifs
  · rfl
  · rw [findSlotLoop_eq_scan h.pow _ _ _ _ (hhome ▸ pos_lt home hc k 0), hhome, Option.isSome_map]
    exact scan_returns home hk hf

theorem toNat_succ {x : UInt32} (h : x.toNat < 2 ^ 32 - 1) : (x + 1).toNat = x.toNat + 1 := by
  have h1 : (1 : UInt32).toNat = 1 := rfl
  rw [UInt32.toNat_add, h1, Nat.mod_eq_of_lt (by omega)]

theorem ObjectInv.len_le {o : JelloObject} (h : ObjectInv o) : o.len.toNat ≤ o.cap.toNat :=
  h.len_eq ▸ count_le_cap _ _

/-- The object stores the finite map `m`. -/
structure Models (o : JelloObject) (m : UInt32 → Option JelloValue) : Prop where
  inv : ObjectInv o
  rep : Represents o.table m

variable {o o' : JelloObject} {m : UInt32 → Option JelloValue} {k i : UInt32} {v : JelloValue}

theorem Models.congr (h : Models o m) (hs : SameEntries o o') : Models o' m :=
  ⟨h.inv.congr hs, hs.1 ▸ h.rep⟩

theorem Models.len_eq (h : Models o m) : o.len.toNat = {k | m k ≠ none}.ncard :=
  h.inv.len_eq.trans (count_occupied_eq home h.inv.wf h.rep)

theorem Models.writeEntry (h : Models o m) (hk : Absent o.table k)
    (hi : Free home o.table k i.toNat) (v : JelloValue) :
    ∃ o', JelloVM.writeEntry o i k v = some o' ∧ o'.table = o.table.put i.toNat k v ∧
      Models o' (update m k (some v)) := by
  have hlt : i < o.cap := UInt32.lt_iff_toNat_lt.mpr hi.lt_cap
  refine ⟨_, if_pos hlt, rfl, ⟨h.inv.pow, h.inv.wf.put home v hk hi, ?_⟩, ?_⟩
  · have hb := h.inv.pow.bounds
    have hle := h.inv.len_le
    have hcount := count_put (k := k) (v := v) hi.lt_cap .occupied
    simp only [hi.vacant, if_false, if_true] at hcount
    change (o.len + 1).toNat = (o.table.put i.toNat k v).count .occupied
    rw [toNat_succ (by omega), h.inv.len_eq]
    omega
  · exact h.rep.put v hk hi.lt_cap hi.vacant

theorem Models.writeSlot (h : Models o m) (hi : Holds o.table i.toNat k) (v : JelloValue) :
    Models (JelloVM.writeSlot o i v) (update m k (some v)) :=
  ⟨⟨h.inv.pow, h.inv.wf.assign home i.toNat v, h.inv.len_eq⟩, h.rep.assign home h.inv.wf hi v⟩


section Rehash

def NoTomb (o : JelloObject) : Prop := ∀ q < o.cap.toNat, o.states q ≠ .tomb

theorem hasEmpty_of_noTomb (h : NoTomb o) (hc : o.table.count .occupied < o.cap.toNat) :
    HasEmpty o.table := by
  by_contra hno
  have hall : ∀ q < o.cap.toNat, o.states q = .occupied := by
    intro q hq
    cases hs : o.states q with
    | empty => exact absurd ⟨q, hq, hs⟩ hno
    | occupied => rfl
    | tomb => exact absurd hs (h q hq)
  have hcount : o.table.count .occupied = o.cap.toNat := by
    rw [Table.count, Finset.filter_true_of_mem, Finset.card_range]
    · rfl
    · intro q hq
      exact hall q (Finset.mem_range.mp hq)
  omega

theorem rehashLoop_spec {old : JelloObject} (hold : WellFormed home old.table) (n i : ℕ)
    (o : JelloObject) (m₁ : UInt32 → Option JelloValue) (hn : i + n = old.cap.toNat)
    (ho : Models o m₁) (ht : NoTomb o) (hl : o.len.toNat ≤ i) (hc : old.cap.toNat < o.cap.toNat)
    (hnew : ∀ j, i ≤ j → j < old.cap.toNat → old.states j = .occupied → m₁ (old.keys j) = none) :
    ∃ o' m₂, rehashLoop old n i o = some o' ∧ Models o' m₂ ∧ NoTomb o' ∧ o'.cap = o.cap ∧
      Loaded Eq old.table n i m₁ m₂ := by
  induction n generalizing i o m₁ with
  | zero => exact ⟨o, m₁, rfl, ho, ht, rfl, .nil Eq i m₁⟩
  | succ n ih =>
    rw [rehashLoop]
    split_ifs with hs
    · obtain ⟨o', m₂, hr, hm, ht', hcap, hload⟩ :=
        ih (i + 1) o m₁ (by omega) ho ht (by omega) hc fun j hj ↦ hnew j (by omega)
      exact ⟨o', m₂, hr, hm, ht', hcap, hload.skip hs⟩
    · have hocc : old.states i = .occupied := by simpa using hs
      have hlen := ho.inv.len_eq
      have hempty : HasEmpty o.table := hasEmpty_of_noTomb ht (by omega)
      have hnone := hnew i le_rfl (by omega) hocc
      have habs : Absent o.table (old.keys i) := by
        intro q hq
        rw [ho.rep.of_holds hq] at hnone
        simp at hnone
      obtain ⟨⟨slot, b, o₁⟩, hfind⟩ := Option.isSome_iff_exists.mp
        (probe_returns ho.inv (k := old.keys i) (.inl hempty) (le_refl (probeFuel o)))
      obtain ⟨hsame, hres⟩ := findSlot_spec ho.inv hfind
      have hfree : Free home o₁.table (old.keys i) slot.toNat := by
        obtain ⟨-, hh⟩ | ⟨-, -, hfree⟩ := hres
        · exact absurd hh (habs _)
        · exact hsame.1 ▸ hfree
      obtain ⟨o₂, hw, htab, hm₂⟩ :=
        (ho.congr hsame).writeEntry (hsame.1 ▸ habs) hfree (old.vals i)
      have hcap₂ : o₂.cap.toNat = o.cap.toNat :=
        (congrArg Table.cap htab).trans (congrArg Table.cap hsame.1)
      have hlen₂ : o₂.len.toNat = o.len.toNat + 1 := by
        have hcount := count_put (t := o.table) (k := old.keys i) (v := old.vals i)
          (hsame.1 ▸ hfree.lt_cap) .occupied
        rw [hm₂.inv.len_eq, htab, hsame.1, hlen]
        have hv := hfree.vacant
        rw [hsame.1] at hv
        simpa [hv] using hcount
      have ht₂ : NoTomb o₂ := by
        intro q hq
        have hst : o₂.states = update o.states slot.toNat .occupied := by
          have := congrArg Table.state htab
          rw [hsame.1] at this
          exact this
        rw [hst]
        by_cases hqs : q = slot.toNat
        · simp [hqs]
        · rw [update_of_ne hqs]
          exact ht q (by omega)
      obtain ⟨o', m₂, hr, hm, ht', hcap, hload⟩ :=
        ih (i + 1) o₂ _ (by omega) hm₂ ht₂ (by omega) (by omega) (by
          intro j hj hjc hjo
          have hne : old.keys j ≠ old.keys i := by
            intro he
            have hij := hold.unique (i := j) (j := i) ⟨hjc, hjo, he⟩
              ⟨show i < old.cap.toNat by omega, hocc, rfl⟩
            omega
          rw [update_of_ne hne]
          exact hnew j (by omega) hjc hjo)
      refine ⟨o', m₂, ?_, hm, ht', hcap.trans (UInt32.toNat_inj.mp hcap₂), .cons hocc rfl hload⟩
      simp only [hfind, hw, Option.bind_eq_bind, Option.bind_some]
      exact hr

theorem rehash_spec (h : Models o m) (hc : o.cap.toNat ≠ 2 ^ 31) :
    ∃ o', rehash o (o.cap * 2) = some o' ∧ Models o' m ∧ NoTomb o' ∧
      o'.cap.toNat = 2 * o.cap.toNat ∧ o'.len = o.len := by
  have hb := h.inv.pow.bounds
  obtain ⟨e, h3, h31, he⟩ := h.inv.pow
  have he31 : e < 31 := by
    by_contra hge
    obtain rfl : e = 31 := by omega
    exact hc he
  have hcap2 : (o.cap * 2).toNat = 2 * o.cap.toNat := by
    have h2 : (2 : UInt32).toNat = 2 := rfl
    have hlt : 2 ^ e ≤ 2 ^ 30 := Nat.pow_le_pow_right (by omega) (by omega)
    rw [UInt32.toNat_mul, h2, Nat.mod_eq_of_lt (by omega), Nat.mul_comm]
  let fresh : JelloObject :=
    { o with cap := o.cap * 2, keys := fun _ ↦ 0, vals := fun _ ↦ 0, states := fun _ ↦ .empty,
             inlineTable := false, len := 0 }
  have hempty : ∀ i < fresh.table.cap, fresh.table.state i = .empty := fun _ _ ↦ rfl
  have hfresh : Models fresh (fun _ ↦ none) := by
    have hpos : 0 < fresh.table.cap := by
      change 0 < (o.cap * 2).toNat
      omega
    refine ⟨⟨⟨e + 1, by omega, by omega, ?_⟩, .of_empty home hpos hempty, ?_⟩, .of_empty hempty⟩
    · change (o.cap * 2).toNat = _
      rw [hcap2, he, Nat.pow_succ, Nat.mul_comm]
    · rw [count_of_empty hempty (by simp)]
      rfl
  obtain ⟨o', m₂, hr, hm, ht, hcap, hload⟩ :=
    rehashLoop_spec h.inv.wf o.cap.toNat 0 fresh _ (by omega) hfresh (fun _ _ ↦ by simp [fresh])
      (by simp [fresh]) (by change _ < (o.cap * 2).toNat; omega) fun _ _ _ _ ↦ rfl
  obtain rfl : m = m₂ := by
    funext k
    have hrel := hload.rel h.rep k
    cases hk : m k <;> cases hk₂ : m₂ k <;> simp_all
  have hlen : o'.len = o.len := UInt32.toNat_inj.mp (hm.len_eq.trans h.len_eq.symm)
  refine ⟨jelloObjectInvalidateIc { o' with len := o.len }, ?_, ?_, ht, ?_, rfl⟩
  · change (rehashLoop o o.cap.toNat 0 fresh >>= _) = _
    rw [hr]
    rfl
  · exact hm.congr ⟨rfl, hlen.symm⟩
  · change o'.cap.toNat = _
    rw [hcap]
    exact hcap2

theorem findSlot_of_len_zero (fuel : ℕ) (hl : o.len = 0) (k : UInt32) :
    ∃ i, findSlot fuel o k = some (i, false, o) := by
  refine ⟨hashU32 k &&& (o.cap - 1), ?_⟩
  rw [findSlot, if_pos hl]

theorem writeEntry_of_cap_zero (hc : o.cap = 0) (slot k : UInt32) (v : JelloValue) :
    writeEntry o slot k v = none := by
  rw [writeEntry, if_neg]
  rw [hc]
  exact UInt32.not_lt_zero

theorem rehashLoop_zero {old o : JelloObject} (hc : o.cap = 0) (hl : o.len = 0) (n i : ℕ)
    (hocc : ∃ j, i ≤ j ∧ j < i + n ∧ old.states j = .occupied) :
    rehashLoop old n i o = none := by
  induction n generalizing i with
  | zero =>
    obtain ⟨j, h1, h2, -⟩ := hocc
    omega
  | succ n ih =>
    rw [rehashLoop]
    by_cases hs : old.states i = .occupied
    · obtain ⟨slot, hf⟩ := findSlot_of_len_zero (probeFuel o) hl (old.keys i)
      rw [if_neg (by simpa using hs), hf]
      change (writeEntry o slot (old.keys i) (old.vals i)).bind _ = none
      rw [writeEntry_of_cap_zero hc]
      rfl
    · rw [if_pos hs]
      obtain ⟨j, h1, h2, hj⟩ := hocc
      have hne : j ≠ i := fun e ↦ hs (e ▸ hj)
      exact ih (i + 1) ⟨j, by omega, by omega, hj⟩

/-- Doubling a table of `2 ^ 31` slots wraps to no slots at all. -/
theorem rehash_wraps (h : Models o m) (hc : o.cap.toNat = 2 ^ 31) (hl : o.len ≠ 0) :
    rehash o (o.cap * 2) = none := by
  have hcap : o.cap * 2 = 0 := by
    have h2 : (2 : UInt32).toNat = 2 := rfl
    have hmul : (o.cap * 2).toNat = 0 := by
      rw [UInt32.toNat_mul, hc, h2]
      norm_num
    exact UInt32.toNat_inj.mp hmul
  have hpos : 0 < o.table.count .occupied := by
    rw [← h.inv.len_eq, Nat.pos_iff_ne_zero]
    intro h0
    exact hl (UInt32.toNat_inj.mp h0)
  obtain ⟨j, hj, ho⟩ := (count_pos_iff _ _).mp hpos
  rw [rehash, hcap]
  simp only [Option.bind_eq_bind]
  rw [rehashLoop_zero rfl rfl _ _ ⟨j, by omega, by change j < 0 + o.table.cap; omega, ho⟩]
  rfl

end Rehash

end JelloVM
