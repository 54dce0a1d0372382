import JelloVM.ObjectMap

namespace JelloVM

open Function OpenAddressing

/-- The same object with other contents of its arrays. -/
def JelloObject.withTable (o : JelloObject) (keys : ℕ → UInt32) (vals : ℕ → JelloValue)
    (states : ℕ → SlotState) : JelloObject :=
  { o with keys := keys, vals := vals, states := states }

/-- Two objects that differ only in what is never read: past the end of the table, and in keys and
values of slots that are not occupied. -/
inductive Alike (o : JelloObject) : JelloObject → Prop
  | mk {keys : ℕ → UInt32} {vals : ℕ → JelloValue} {states : ℕ → SlotState}
      (hs : ∀ i < o.cap.toNat, states i = o.states i)
      (hk : ∀ i < o.cap.toNat, o.states i = .occupied → keys i = o.keys i)
      (hv : ∀ i < o.cap.toNat, o.states i = .occupied → vals i = o.vals i) :
      Alike o (o.withTable keys vals states)

namespace Alike

variable {o o' : JelloObject} {i k s : UInt32} {v : JelloValue}

theorem refl (o : JelloObject) : Alike o o := by
  have h : Alike o (o.withTable o.keys o.vals o.states) :=
    .mk (fun _ _ ↦ rfl) (fun _ _ _ ↦ rfl) fun _ _ _ ↦ rfl
  exact h

theorem cap (h : Alike o o') : o'.cap = o.cap := by
  cases h
  rfl

theorem len (h : Alike o o') : o'.len = o.len := by
  cases h
  rfl

theorem state (h : Alike o o') {j : ℕ} (hj : j < o.cap.toNat) : o'.states j = o.states j := by
  cases h with
  | mk hs _ _ => exact hs j hj

theorem key (h : Alike o o') {j : ℕ} (hj : j < o.cap.toNat) (hocc : o.states j = .occupied) :
    o'.keys j = o.keys j := by
  cases h with
  | mk _ hk _ => exact hk j hj hocc

theorem val (h : Alike o o') {j : ℕ} (hj : j < o.cap.toNat) (hocc : o.states j = .occupied) :
    o'.vals j = o.vals j := by
  cases h with
  | mk _ _ hv => exact hv j hj hocc

/-- A change of the other fields that does not look at the arrays keeps them alike. -/
theorem map (h : Alike o o') (f : JelloObject → JelloObject)
    (hf : ∀ keys vals states, f (o.withTable keys vals states) =
      (f o).withTable keys vals states)
    (hcap : (f o).cap = o.cap) (hstates : (f o).states = o.states) (hkeys : (f o).keys = o.keys)
    (hvals : (f o).vals = o.vals) : Alike (f o) (f o') := by
  cases h with
  | mk hs hk hv =>
    rw [hf]
    refine .mk ?_ ?_ ?_
    · rwa [hcap, hstates]
    · rwa [hcap, hstates, hkeys]
    · rwa [hcap, hstates, hvals]

theorem invalidateIc (h : Alike o o') :
    Alike (jelloObjectInvalidateIc o) (jelloObjectInvalidateIc o') :=
  h.map jelloObjectInvalidateIc (fun _ _ _ ↦ rfl) rfl rfl rfl rfl

theorem icStore (h : Alike o o') (k s : UInt32) :
    Alike (objectIcStore o k s) (objectIcStore o' k s) := by
  refine h.map (objectIcStore · k s) (fun keys vals states ↦ ?_) ?_ ?_ ?_ ?_
  · unfold objectIcStore JelloObject.withTable
    split_ifs <;> rfl
  all_goals
    unfold objectIcStore
    split_ifs <;> rfl

theorem slotHolds_eq (h : Alike o o') : slotHolds o' i k = slotHolds o i k := by
  unfold slotHolds
  rw [h.cap]
  by_cases hi : i < o.cap
  · have hj : i.toNat < o.cap.toNat := hi
    rw [h.state hj]
    by_cases hocc : o.states i.toNat = .occupied
    · rw [h.key hj hocc]
    · have hno : (o.states i.toNat == SlotState.occupied) = false := beq_false_of_ne hocc
      rw [hno, Bool.and_false, Bool.false_and, Bool.false_and]
  · simp [hi]

theorem occupied_of_slotHolds (h : slotHolds o i k = true) :
    i.toNat < o.cap.toNat ∧ o.states i.toNat = .occupied := by
  simp only [slotHolds, Bool.and_eq_true, decide_eq_true_eq, beq_iff_eq] at h
  exact ⟨h.1.1, h.1.2⟩

end Alike

/-- What two searches give: the same answer, and an occupied slot if there is one. -/
structure AlikeFound (a b : UInt32 × Bool × JelloObject) : Prop where
  index : b.1 = a.1
  found : b.2.1 = a.2.1
  alike : Alike a.2.2 b.2.2
  occupied : a.2.1 = true → a.1.toNat < a.2.2.cap.toNat ∧ a.2.2.states a.1.toNat = .occupied

section Search

variable {o o' : JelloObject} {i k : UInt32}

theorem states_objectIcStore {s : UInt32} :
    (objectIcStore o k s).states = o.states ∧ (objectIcStore o k s).cap = o.cap ∧
      (objectIcStore o k s).keys = o.keys ∧ (objectIcStore o k s).vals = o.vals := by
  unfold objectIcStore
  split_ifs
  · exact ⟨rfl, rfl, rfl, rfl⟩
  · exact ⟨rfl, rfl, rfl, rfl⟩
  · exact ⟨rfl, rfl, rfl, rfl⟩

theorem alikeFound_icStore (h : Alike o o') (hi : i.toNat < o.cap.toNat)
    (hocc : o.states i.toNat = .occupied) :
    AlikeFound (i, true, objectIcStore o k i) (i, true, objectIcStore o' k i) := by
  refine ⟨rfl, rfl, h.icStore k i, fun _ ↦ ?_⟩
  obtain ⟨hstates, hcap, -, -⟩ := states_objectIcStore (o := o) (k := k) (s := i)
  rw [hstates, hcap]
  exact ⟨hi, hocc⟩

theorem alikeFound_none (h : Alike o o') (i : UInt32) : AlikeFound (i, false, o) (i, false, o') :=
  ⟨rfl, rfl, h, fun hf ↦ absurd hf Bool.false_ne_true⟩

theorem alike_icTryPoly (ps : List (Fin 3)) (h : Alike o o') :
    (objectIcTryPoly o' k ps).1 = (objectIcTryPoly o k ps).1 ∧
      Alike (objectIcTryPoly o k ps).2 (objectIcTryPoly o' k ps).2 ∧
      ∀ i, (objectIcTryPoly o k ps).1 = some i →
        i.toNat < (objectIcTryPoly o k ps).2.cap.toNat ∧
          (objectIcTryPoly o k ps).2.states i.toNat = .occupied := by
  induction ps generalizing o o' with
  | nil => exact ⟨rfl, h, fun i hi ↦ absurd hi (Option.some_ne_none i).symm⟩
  | cons p ps ih =>
    have hatom : o'.icPolyAtom p = o.icPolyAtom p := by
      cases h
      rfl
    have hslot : o'.icPolySlot p = o.icPolySlot p := by
      cases h
      rfl
    unfold objectIcTryPoly
    rw [hatom, hslot]
    dsimp only
    rw [h.slotHolds_eq]
    split_ifs with hne hholds
    · exact ih h
    · refine ih (h.map (fun o ↦ { o with icPolyAtom := update o.icPolyAtom p objIcNone })
        (fun _ _ _ ↦ rfl) rfl rfl rfl rfl)
    · have halike := h.map (fun o ↦
        { o with
          icAtom := k
          icSlot := o.icPolySlot p
          icPolyAtom := update o.icPolyAtom p o.icAtom
          icPolySlot := update o.icPolySlot p o.icSlot })
        (fun _ _ _ ↦ rfl) rfl rfl rfl rfl
      rw [hslot] at halike
      refine ⟨rfl, halike, fun j hj ↦ ?_⟩
      obtain rfl := Option.some.inj hj
      have hocc : slotHolds o (o.icPolySlot p) k = true := by simpa using hholds
      exact Alike.occupied_of_slotHolds (o := o) hocc

theorem alike_icTry (h : Alike o o') :
    (objectIcTry o' k).1 = (objectIcTry o k).1 ∧
      Alike (objectIcTry o k).2 (objectIcTry o' k).2 ∧
      ∀ i, (objectIcTry o k).1 = some i →
        i.toNat < (objectIcTry o k).2.cap.toNat ∧
          (objectIcTry o k).2.states i.toNat = .occupied := by
  have hfields : o'.icCap = o.icCap ∧ o'.icAtom = o.icAtom ∧ o'.icSlot = o.icSlot := by
    cases h
    exact ⟨rfl, rfl, rfl⟩
  unfold objectIcTry
  rw [hfields.1, hfields.2.1, hfields.2.2, h.cap, h.slotHolds_eq]
  split_ifs with hcap hatom hholds
  · exact ⟨rfl, h, fun i hi ↦ hi.elim⟩
  · refine ⟨rfl, h, fun i hi ↦ ?_⟩
    obtain rfl := Option.some.inj hi
    exact Alike.occupied_of_slotHolds hholds
  · exact ⟨rfl, h.invalidateIc, fun i hi ↦ hi.elim⟩
  · exact alike_icTryPoly [0, 1, 2] h

theorem alike_findSlotLoop (fuel : ℕ) (h : Alike o o') (i firstTomb : UInt32) :
    Option.Rel AlikeFound (findSlotLoop o k fuel i firstTomb)
      (findSlotLoop o' k fuel i firstTomb) := by
  induction fuel generalizing i firstTomb with
  | zero => exact .none
  | succ fuel ih =>
    unfold findSlotLoop
    rw [h.cap]
    by_cases hi : i < o.cap
    · have hj : i.toNat < o.cap.toNat := hi
      rw [if_pos hi, if_pos hi, h.state hj]
      cases hstate : o.states i.toNat with
      | empty => exact .some (alikeFound_none h _)
      | occupied =>
        dsimp only
        rw [h.key hj hstate]
        split_ifs
        · exact .some (alikeFound_icStore h hj hstate)
        · exact ih _ _
      | tomb => exact ih _ _
    · rw [if_neg hi, if_neg hi]
      exact .none

theorem alike_findSlot (h : Alike o o') (fuel : ℕ) :
    Option.Rel AlikeFound (findSlot fuel o k) (findSlot fuel o' k) := by
  unfold findSlot
  rw [h.len, h.cap]
  split_ifs
  · exact .some (alikeFound_none h _)
  · exact alike_findSlotLoop fuel h _ _

theorem alike_findLinear (n : ℕ) (h : Alike o o') (i : UInt32) :
    AlikeFound (findLinear o k n i) (findLinear o' k n i) := by
  induction n generalizing i with
  | zero => exact alikeFound_none h 0
  | succ n ih =>
    unfold findLinear
    rw [h.slotHolds_eq]
    split_ifs with hholds
    · obtain ⟨hi, hocc⟩ := Alike.occupied_of_slotHolds hholds
      exact alikeFound_icStore h hi hocc
    · exact ih (i + 1)

theorem alike_findOccupiedLoop (fuel : ℕ) (h : Alike o o') (i : UInt32) :
    Option.Rel AlikeFound (findOccupiedLoop o k fuel i) (findOccupiedLoop o' k fuel i) := by
  induction fuel generalizing i with
  | zero => exact .none
  | succ fuel ih =>
    unfold findOccupiedLoop
    rw [h.cap]
    by_cases hi : i < o.cap
    · have hj : i.toNat < o.cap.toNat := hi
      rw [if_pos hi, if_pos hi, h.state hj]
      cases hstate : o.states i.toNat with
      | empty => exact .some (alikeFound_none h 0)
      | occupied =>
        dsimp only
        rw [h.key hj hstate]
        split_ifs
        · exact .some (alikeFound_icStore h hj hstate)
        · exact ih _
      | tomb => exact ih _
    · rw [if_neg hi, if_neg hi]
      exact .none

theorem alike_findOccupiedSlot (h : Alike o o') (fuel : ℕ) :
    Option.Rel AlikeFound (findOccupiedSlot fuel o k) (findOccupiedSlot fuel o' k) := by
  obtain ⟨hindex, halike, hocc⟩ := alike_icTry (k := k) h
  unfold findOccupiedSlot
  cases hr : objectIcTry o k with
  | mk r o₁ =>
    cases hr' : objectIcTry o' k with
    | mk r' o₁' =>
      rw [hr, hr'] at hindex halike
      rw [hr] at hocc
      dsimp only at hindex halike hocc
      rw [hindex]
      cases r with
      | some i => exact .some ⟨rfl, rfl, halike, fun _ ↦ hocc i rfl⟩
      | none =>
        dsimp only
        rw [halike.len, halike.cap]
        split_ifs
        · exact .some (alikeFound_none halike 0)
        · exact .some (alike_findLinear _ halike 0)
        · exact alike_findOccupiedLoop fuel halike _

end Search

section Calls

variable {o o' : JelloObject} {i k : UInt32} {v : JelloValue}

theorem rel_bind {α β γ δ : Type} {R : α → β → Prop} {S : γ → δ → Prop} {x : Option α}
    {y : Option β} {f : α → Option γ} {g : β → Option δ} (h : Option.Rel R x y)
    (hfg : ∀ a b, R a b → Option.Rel S (f a) (g b)) : Option.Rel S (x >>= f) (y >>= g) := by
  cases h with
  | some h => exact hfg _ _ h
  | none => exact .none

theorem alike_writeEntry (h : Alike o o') :
    Option.Rel (fun a b ↦ Alike a b ∧ i.toNat < a.cap.toNat ∧ a.states i.toNat = .occupied)
      (writeEntry o i k v) (writeEntry o' i k v) := by
  unfold writeEntry
  rw [h.cap]
  split_ifs with hi
  · refine .some ⟨?_, hi, update_self ..⟩
    cases h with
    | @mk K V S hs hk hv =>
      refine .mk (fun n hn ↦ ?_) (fun n hn hocc ↦ ?_) fun n hn hocc ↦ ?_
      · change update S i.toNat .occupied n = update o.states i.toNat .occupied n
        by_cases hni : n = i.toNat
        · rw [hni, update_self, update_self]
        · rw [update_of_ne hni, update_of_ne hni]
          exact hs n hn
      · change update K i.toNat k n = update o.keys i.toNat k n
        by_cases hni : n = i.toNat
        · rw [hni, update_self, update_self]
        · rw [update_of_ne hni, update_of_ne hni]
          exact hk n hn ((update_of_ne hni _ _).symm.trans hocc)
      · change update V i.toNat v n = update o.vals i.toNat v n
        by_cases hni : n = i.toNat
        · rw [hni, update_self, update_self]
        · rw [update_of_ne hni, update_of_ne hni]
          exact hv n hn ((update_of_ne hni _ _).symm.trans hocc)
  · exact .none

theorem alike_rehashLoop {old old' : JelloObject} (hold : Alike old old') (n j : ℕ)
    (hn : j + n ≤ old.cap.toNat) (h : Alike o o') :
    Option.Rel Alike (rehashLoop old n j o) (rehashLoop old' n j o') := by
  induction n generalizing j o o' with
  | zero => exact .some h
  | succ n ih =>
    have hj : j < old.cap.toNat := by omega
    unfold rehashLoop
    rw [hold.state hj]
    split_ifs with hocc
    · exact ih (j + 1) (by omega) h
    · have hocc' : old.states j = .occupied := by simpa using hocc
      rw [hold.key hj hocc', hold.val hj hocc']
      have hfuel : probeFuel o' = probeFuel o := congrArg UInt32.toNat h.cap
      rw [hfuel]
      refine rel_bind (alike_findSlot h _) fun a b hab ↦ ?_
      obtain ⟨hindex, -, halike, -⟩ := hab
      dsimp only
      rw [hindex]
      refine rel_bind (alike_writeEntry halike) fun c d hcd ↦ ?_
      exact ih (j + 1) (by omega) hcd.1

theorem alike_rehash (h : Alike o o') (newCap : UInt32) :
    Option.Rel Alike (rehash o newCap) (rehash o' newCap) := by
  have hfresh : Alike
      { o with cap := newCap, keys := fun _ ↦ 0, vals := fun _ ↦ 0, states := fun _ ↦ .empty,
               inlineTable := false, len := 0 }
      { o' with cap := newCap, keys := fun _ ↦ 0, vals := fun _ ↦ 0, states := fun _ ↦ .empty,
                inlineTable := false, len := 0 } := by
    cases h
    exact .refl _
  unfold rehash
  rw [h.cap]
  refine rel_bind (alike_rehashLoop h _ 0 (by omega) hfresh) fun a b hab ↦ ?_
  refine .some (Alike.invalidateIc ?_)
  rw [h.len]
  exact hab.map (fun p ↦ { p with len := o.len }) (fun _ _ _ ↦ rfl) rfl rfl rfl rfl

theorem alike_ensureCap (h : Alike o o') :
    Option.Rel Alike (ensureCap o) (ensureCap o') := by
  unfold ensureCap
  rw [h.len, h.cap]
  split_ifs
  · exact .some h
  · exact alike_rehash h _

theorem alike_upsert (h : Alike o o') :
    Option.Rel (fun a b ↦ AlikeFound a b ∧
        a.1.toNat < a.2.2.cap.toNat ∧ a.2.2.states a.1.toNat = .occupied)
      (jelloObjectUpsert o k) (jelloObjectUpsert o' k) := by
  unfold jelloObjectUpsert
  refine rel_bind (alike_ensureCap h) fun a b hab ↦ ?_
  have hfuel : probeFuel b = probeFuel a := congrArg UInt32.toNat hab.cap
  rw [hfuel]
  refine rel_bind (alike_findSlot hab _) fun c d hcd ↦ ?_
  obtain ⟨hindex, hfound, halike, hocc⟩ := hcd
  obtain ⟨i, found, c⟩ := c
  obtain ⟨i', found', d⟩ := d
  dsimp only at hindex hfound halike hocc ⊢
  subst hindex hfound
  cases found' with
  | false =>
    refine rel_bind (alike_writeEntry halike) fun e f hef ↦ ?_
    exact .some ⟨⟨rfl, rfl, hef.1, fun hf ↦ absurd hf Bool.false_ne_true⟩, hef.2⟩
  | true =>
    obtain ⟨hi, hocc⟩ := hocc rfl
    have hstore := alikeFound_icStore (k := k) halike hi hocc
    exact .some ⟨hstore, hstore.occupied rfl⟩

theorem alike_writeSlot (h : Alike o o') (i : UInt32) (v : JelloValue) :
    Alike (writeSlot o i v) (writeSlot o' i v) := by
  cases h with
  | mk hs hk hv =>
    refine .mk (o := writeSlot o i v) hs hk fun n hn hocc ↦ ?_
    simp only [writeSlot, JelloObject.withTable]
    by_cases hni : n = i.toNat
    · rw [hni, update_self, update_self]
    · rw [update_of_ne hni, update_of_ne hni]
      exact hv n hn hocc

theorem alike_writeThrough (h : Alike o o') (i : UInt32) (w : Option JelloValue) :
    Alike (writeThrough o i w) (writeThrough o' i w) := by
  cases w with
  | none => exact h
  | some v => exact alike_writeSlot h i v

/-- The same answer, and objects that are alike. -/
def AlikeResult {α : Type} (a b : α × JelloObject) : Prop := b.1 = a.1 ∧ Alike a.2 b.2

theorem alike_set (h : Alike o o') :
    Option.Rel Alike (jelloObjectSet o k v) (jelloObjectSet o' k v) := by
  unfold jelloObjectSet
  refine rel_bind (alike_upsert h) fun a b hab ↦ ?_
  obtain ⟨hindex, -, halike, -⟩ := hab.1
  dsimp only
  rw [hindex]
  exact .some (alike_writeSlot halike _ v)

theorem alike_entry (h : Alike o o') {w : Option JelloValue} {existed : Bool}
    (hi : i.toNat < o.cap.toNat) (hocc : o.states i.toNat = .occupied) :
    AlikeResult (ObjectResult.entry existed (some (o.vals i.toNat)), writeThrough o i w)
      (ObjectResult.entry existed (some (o'.vals i.toNat)), writeThrough o' i w) := by
  refine ⟨?_, alike_writeThrough h i w⟩
  dsimp only
  rw [h.val hi hocc]

theorem alike_setSlot {slot : UInt32} (h : Alike o o') :
    Option.Rel (fun a b ↦ AlikeFound a b ∧
        a.1.toNat < a.2.2.cap.toNat ∧ a.2.2.states a.1.toNat = .occupied)
      (jelloObjectSetSlot o slot k) (jelloObjectSetSlot o' slot k) := by
  unfold jelloObjectSetSlot
  rw [h.slotHolds_eq]
  split_ifs with hholds
  · have hocc := Alike.occupied_of_slotHolds hholds
    exact .some ⟨⟨rfl, rfl, h, fun _ ↦ hocc⟩, hocc⟩
  · exact alike_upsert h

theorem alike_remove (h : Alike o o') :
    Option.Rel AlikeResult (jelloObjectRemove o k) (jelloObjectRemove o' k) := by
  have hfuel : probeFuel o' = probeFuel o := congrArg UInt32.toNat h.cap
  unfold jelloObjectRemove
  rw [hfuel]
  refine rel_bind (alike_findSlot h _) fun a b hab ↦ ?_
  obtain ⟨hindex, hfound, halike, -⟩ := hab
  obtain ⟨i, found, a⟩ := a
  obtain ⟨i', found', b⟩ := b
  dsimp only at hindex hfound halike ⊢
  subst hindex hfound
  cases found' with
  | false => exact .some ⟨rfl, halike⟩
  | true =>
    have htomb : Alike { a with states := update a.states i'.toNat .tomb, len := a.len - 1 }
        { b with states := update b.states i'.toNat .tomb, len := b.len - 1 } := by
      cases halike with
      | @mk K V S hs hk hv =>
        refine .mk (fun n hn ↦ ?_) (fun n hn hocc ↦ hk n hn ?_) fun n hn hocc ↦ hv n hn ?_
        · change update S i'.toNat .tomb n = update a.states i'.toNat .tomb n
          by_cases hni : n = i'.toNat
          · rw [hni, update_self, update_self]
          · rw [update_of_ne hni, update_of_ne hni]
            exact hs n hn
        all_goals
          change update a.states i'.toNat .tomb n = .occupied at hocc
          by_cases hni : n = i'.toNat
          · rw [hni, update_self] at hocc
            exact SlotState.noConfusion hocc
          · rwa [update_of_ne hni] at hocc
    have hfields : (b.icAtom = k ∧ b.icCap = b.cap ∧ b.icSlot = i') ↔
        a.icAtom = k ∧ a.icCap = a.cap ∧ a.icSlot = i' := by
      cases halike
      exact Iff.rfl
    split_ifs with hno hic hic' hic'
    · exact absurd hno (by simp)
    · exact .some ⟨rfl, htomb.invalidateIc⟩
    · exact absurd (hfields.mpr hic) hic'
    · exact absurd (hfields.mp hic') hic
    · exact .some ⟨rfl, htomb⟩

theorem alike_clear (h : Alike o o') : Alike (jelloObjectClear o) (jelloObjectClear o') := by
  cases h with
  | @mk K V S hs hk hv =>
    have hcleared : Alike
        { o with states := fun i ↦ if i < o.cap.toNat then .empty else o.states i, len := 0 }
        { o.withTable K V S with
          states := fun i ↦ if i < o.cap.toNat then .empty else S i, len := 0 } := by
      refine .mk (fun n hn ↦ ?_) (fun n hn hocc ↦ hk n hn ?_) fun n hn hocc ↦ hv n hn ?_
      · change (if n < o.cap.toNat then SlotState.empty else S n) =
          if n < o.cap.toNat then SlotState.empty else o.states n
        rw [if_pos hn, if_pos hn]
      all_goals
        change (if n < o.cap.toNat then SlotState.empty else o.states n) = .occupied at hocc
        rw [if_pos hn] at hocc
        exact SlotState.noConfusion hocc
    exact hcleared.invalidateIc

theorem alike_get (h : Alike o o') :
    Option.Rel AlikeResult (jelloObjectGet o k) (jelloObjectGet o' k) := by
  have hfuel : probeFuel o' = probeFuel o := congrArg UInt32.toNat h.cap
  unfold jelloObjectGet
  rw [hfuel]
  refine rel_bind (alike_findOccupiedSlot h _) fun a b hab ↦ ?_
  obtain ⟨hindex, hfound, halike, hocc⟩ := hab
  obtain ⟨i, found, a⟩ := a
  obtain ⟨i', found', b⟩ := b
  dsimp only at hindex hfound halike hocc ⊢
  subst hindex hfound
  cases found' with
  | false => exact .some ⟨rfl, halike⟩
  | true =>
    obtain ⟨hi, hocc⟩ := hocc rfl
    exact .some ⟨halike.val hi hocc, halike⟩

theorem alike_getSlot {slot : UInt32} (h : Alike o o') :
    Option.Rel AlikeResult (jelloObjectGetSlot o slot k) (jelloObjectGetSlot o' slot k) := by
  unfold jelloObjectGetSlot
  rw [h.slotHolds_eq]
  split_ifs with hholds
  · obtain ⟨hi, hocc⟩ := Alike.occupied_of_slotHolds hholds
    exact .some ⟨h.val hi hocc, h⟩
  · exact alike_get h

theorem alike_has (h : Alike o o') :
    Option.Rel AlikeResult (jelloObjectHas o k) (jelloObjectHas o' k) := by
  have hfuel : probeFuel o' = probeFuel o := congrArg UInt32.toNat h.cap
  unfold jelloObjectHas
  rw [hfuel]
  exact rel_bind (alike_findOccupiedSlot h _) fun a b hab ↦ .some ⟨hab.found, hab.alike⟩

theorem alike_slot {w : Option JelloValue} (h : Alike o o') :
    Option.Rel AlikeResult (objectStep o (.slot k w)) (objectStep o' (.slot k w)) := by
  have hfuel : probeFuel o' = probeFuel o := congrArg UInt32.toNat h.cap
  simp only [objectStep, jelloObjectSlot, hfuel, bind_assoc]
  refine rel_bind (alike_findOccupiedSlot h _) fun a b hab ↦ ?_
  obtain ⟨hindex, hfound, halike, hocc⟩ := hab
  obtain ⟨i, found, a⟩ := a
  obtain ⟨i', found', b⟩ := b
  dsimp only at hindex hfound halike hocc ⊢
  subst hindex hfound
  cases found' with
  | false => exact .some ⟨rfl, halike⟩
  | true =>
    obtain ⟨hi, hocc⟩ := hocc rfl
    exact .some (alike_entry halike hi hocc)

theorem alike_objectStep (op : ObjectOp) (h : Alike o o') :
    Option.Rel AlikeResult (objectStep o op) (objectStep o' op) := by
  cases op with
  | set k v => exact rel_bind (alike_set h) fun a b hab ↦ .some ⟨rfl, hab⟩
  | upsert k w =>
    refine rel_bind (alike_upsert h) fun a b hab ↦ ?_
    obtain ⟨⟨hindex, hfound, halike, -⟩, hi, hocc⟩ := hab
    dsimp only
    rw [hindex, hfound]
    exact .some (alike_entry halike hi hocc)
  | setSlot slot k w =>
    refine rel_bind (alike_setSlot h) fun a b hab ↦ ?_
    obtain ⟨⟨hindex, hfound, halike, -⟩, hi, hocc⟩ := hab
    dsimp only
    rw [hindex, hfound]
    exact .some (alike_entry halike hi hocc)
  | remove k =>
    refine rel_bind (alike_remove h) fun a b hab ↦ .some ⟨?_, hab.2⟩
    exact congrArg ObjectResult.flag hab.1
  | clear => exact .some ⟨rfl, alike_clear h⟩
  | get k =>
    refine rel_bind (alike_get h) fun a b hab ↦ .some ⟨?_, hab.2⟩
    exact congrArg ObjectResult.value hab.1
  | getSlot slot k =>
    refine rel_bind (alike_getSlot h) fun a b hab ↦ .some ⟨?_, hab.2⟩
    exact congrArg ObjectResult.value hab.1
  | has k =>
    refine rel_bind (alike_has h) fun a b hab ↦ .some ⟨?_, hab.2⟩
    exact congrArg ObjectResult.flag hab.1
  | slot k w => exact alike_slot h

end Calls

section Copies

variable {o o' : JelloObject}

theorem alike_copyLoop {src src' : JelloObject} (hsrc : Alike src src') (n j : ℕ)
    (hn : j + n ≤ src.cap.toNat) (h : Alike o o') (heap : Heap) :
    Option.Rel (fun a b ↦ Alike a.1 b.1 ∧ b.2 = a.2) (copyLoop vmCloneNumbox src n j o heap)
      (copyLoop vmCloneNumbox src' n j o' heap) := by
  induction n generalizing j o o' heap with
  | zero => exact .some ⟨h, rfl⟩
  | succ n ih =>
    have hj : j < src.cap.toNat := by omega
    unfold copyLoop
    rw [hsrc.state hj]
    split_ifs with hocc
    · rw [hsrc.key hj hocc, hsrc.val hj hocc]
      cases vmCloneNumbox (src.vals j) heap with
      | none => exact .none
      | some r =>
        obtain ⟨v, heap'⟩ := r
        have hrest : Option.Rel (fun a b ↦ Alike a.1 b.1 ∧ b.2 = a.2)
            (jelloObjectSet o (src.keys j) v >>= fun dst ↦
              copyLoop vmCloneNumbox src n (j + 1) dst heap')
            (jelloObjectSet o' (src.keys j) v >>= fun dst ↦
              copyLoop vmCloneNumbox src' n (j + 1) dst heap') :=
          rel_bind (alike_set h) fun a b hab ↦ ih (j + 1) (by omega) hab heap'
        exact hrest
    · exact ih (j + 1) (by omega) h heap

theorem alike_copy {src src' : JelloObject} (hsrc : Alike src src') (h : Alike o o')
    (heap : Heap) :
    Option.Rel (fun a b ↦ Alike a.1 b.1 ∧ b.2 = a.2) (jelloObjectCopy vmCloneNumbox o src heap)
      (jelloObjectCopy vmCloneNumbox o' src' heap) := by
  have hproto : src'.proto = src.proto := by
    cases hsrc
    rfl
  unfold jelloObjectCopy
  rw [hsrc.cap, hproto]
  refine rel_bind (alike_copyLoop hsrc _ 0 (by omega) h heap) fun a b hab ↦ ?_
  refine .some ⟨?_, hab.2⟩
  exact hab.1.map (fun p ↦ { p with proto := src.proto }) (fun _ _ _ ↦ rfl) rfl rfl rfl rfl

theorem alike_poolStep {pool pool' : List JelloObject} (hp : List.Forall₂ Alike pool pool')
    (heap : Heap) (target : ℕ) (op : PoolOp) :
    Option.Rel (fun a b ↦ b.1 = a.1 ∧ b.2.1 = a.2.1 ∧ List.Forall₂ Alike a.2.2 b.2.2)
      (poolStep heap pool target op) (poolStep heap pool' target op) := by
  have htarget : Option.Rel Alike pool[target]? pool'[target]? := by
    by_cases hlt : target < pool.length
    · have hlt' : target < pool'.length := hp.length_eq ▸ hlt
      rw [List.getElem?_eq_getElem hlt, List.getElem?_eq_getElem hlt']
      exact .some (hp.get hlt hlt')
    · rw [List.getElem?_eq_none (by omega), List.getElem?_eq_none (by rw [← hp.length_eq]; omega)]
      exact .none
  unfold poolStep
  refine rel_bind htarget fun o o' h ↦ ?_
  cases op with
  | copy recycled mem =>
    have htype : o'.typeId = o.typeId := by
      cases h
      rfl
    dsimp only
    rw [htype]
    refine rel_bind (alike_copy h (.refl _) heap) fun a b hab ↦ .some ⟨?_, hab.2, ?_⟩
    · exact congrArg ObjectResult.object hp.length_eq.symm
    · exact List.rel_append hp (.cons hab.1 .nil)
  | call op =>
    refine rel_bind (alike_objectStep op h) fun a b hab ↦ .some ⟨hab.1, rfl, ?_⟩
    exact forall₂_set hp hab.2 target

theorem alike_poolRun (ops : List (ℕ × PoolOp)) {pool pool' : List JelloObject}
    (hp : List.Forall₂ Alike pool pool') (heap : Heap) :
    Option.Rel (fun a b ↦ b.1 = a.1 ∧ b.2.1 = a.2.1 ∧ List.Forall₂ Alike a.2.2 b.2.2)
      (poolRun heap pool ops) (poolRun heap pool' ops) := by
  induction ops generalizing pool pool' heap with
  | nil => exact .some ⟨rfl, rfl, hp⟩
  | cons head ops ih =>
    unfold poolRun
    refine rel_bind (alike_poolStep hp heap head.1 head.2) fun a b hab ↦ ?_
    obtain ⟨hres, hheap, hpool⟩ := hab
    dsimp only
    rw [hheap, hres]
    refine rel_bind (ih hpool a.2.1) fun c d hcd ↦ .some ⟨?_, hcd.2⟩
    exact congrArg (a.1 :: ·) hcd.1

end Copies

theorem alike_new (recycled recycled' : Bool) (mem mem' : JelloObject) (typeId : UInt32) :
    Alike (jelloObjectNew recycled mem typeId) (jelloObjectNew recycled' mem' typeId) := by
  have hinit : ∀ recycled mem, ∃ states, (∀ i < objectInitCap.toNat, states i = SlotState.empty) ∧
      jelloObjectNew recycled mem typeId =
        (jelloObjectInitEmpty default typeId).withTable mem.keys mem.vals states := by
    intro recycled mem
    unfold jelloObjectNew
    split_ifs with h
    · simp only [jelloObjectIsFreelistRecyclable, Bool.and_eq_true, beq_iff_eq] at h
      refine ⟨fun i ↦ if i < mem.cap.toNat then .empty else mem.states i, fun i hi ↦ ?_, ?_⟩
      · rw [h.2.2]
        exact if_pos hi
      · simp only [jelloObjectReinitFromFreelist, jelloObjectInvalidateIc, jelloObjectInitEmpty,
          JelloObject.withTable, h.2.1, h.2.2]
    · exact ⟨fun _ ↦ .empty, fun _ _ ↦ rfl, rfl⟩
  obtain ⟨S, hS, h⟩ := hinit recycled mem
  obtain ⟨S', hS', h'⟩ := hinit recycled' mem'
  rw [h, h']
  refine .mk (o := (jelloObjectInitEmpty default typeId).withTable mem.keys mem.vals S) ?_ ?_ ?_
  · exact fun i hi ↦ (hS' i hi).trans (hS i hi).symm
  all_goals
    intro i hi hocc
    rw [show ((jelloObjectInitEmpty default typeId).withTable mem.keys mem.vals S).states i =
      SlotState.empty from hS i hi] at hocc
    exact SlotState.noConfusion hocc

/-- A new object has an empty map, no prototype, and its inline cache has no hit. -/
theorem new_empty (recycled : Bool) (mem : JelloObject) (typeId : UInt32) :
    Models (jelloObjectNew recycled mem typeId) (fun _ ↦ none) ∧
      (jelloObjectNew recycled mem typeId).proto = 0 ∧
      ∀ k, objectIcTry (jelloObjectNew recycled mem typeId) k =
        (none, jelloObjectNew recycled mem typeId) := by
  have hmodels := models_new recycled mem typeId
  have hfields : (jelloObjectNew recycled mem typeId).proto = 0 ∧
      (jelloObjectNew recycled mem typeId).icCap = 0 ∧
      (jelloObjectNew recycled mem typeId).cap = objectInitCap := by
    have halike := alike_new recycled false mem default typeId
    have hcap : (jelloObjectNew recycled mem typeId).cap = objectInitCap := halike.cap.symm
    unfold jelloObjectNew at hcap ⊢
    split_ifs at hcap ⊢
    · exact ⟨rfl, rfl, hcap⟩
    · exact ⟨rfl, rfl, hcap⟩
  refine ⟨hmodels, hfields.1, fun k ↦ ?_⟩
  unfold objectIcTry
  rw [hfields.2.1, hfields.2.2, if_pos (by decide)]

end JelloVM
