import JelloVM.ObjectMap

namespace JelloVM

open Function

/-- The type of an object and its prototype. -/
def JelloObject.header (o : JelloObject) : UInt32 × JelloValue := (o.typeId, o.proto)

section Lookup

variable {o o' : JelloObject} {k i : UInt32} {b : Bool}

@[simp] theorem header_icStore (o : JelloObject) (k i : UInt32) :
    (objectIcStore o k i).header = o.header := by
  unfold objectIcStore
  split_ifs <;> rfl

@[simp] theorem header_clear (o : JelloObject) : (jelloObjectClear o).header = o.header := rfl

theorem invalidateIc_icStore (o : JelloObject) (k i : UInt32) :
    jelloObjectInvalidateIc (objectIcStore o k i) = jelloObjectInvalidateIc o := by
  unfold objectIcStore
  split_ifs <;> rfl

theorem invalidateIc_icTryPoly (o : JelloObject) (k : UInt32) (ps : List (Fin 3)) :
    jelloObjectInvalidateIc (objectIcTryPoly o k ps).2 = jelloObjectInvalidateIc o := by
  induction ps generalizing o with
  | nil => rfl
  | cons p ps ih =>
    simp only [objectIcTryPoly]
    split_ifs
    · exact ih o
    · exact ih { o with icPolyAtom := update o.icPolyAtom p objIcNone }
    · rfl

theorem invalidateIc_icTry (o : JelloObject) (k : UInt32) :
    jelloObjectInvalidateIc (objectIcTry o k).2 = jelloObjectInvalidateIc o := by
  unfold objectIcTry
  split_ifs
  · rfl
  · rfl
  · rfl
  · exact invalidateIc_icTryPoly o k _

theorem invalidateIc_findSlotLoop (fuel : ℕ) (j first : UInt32)
    (h : findSlotLoop o k fuel j first = some (i, b, o')) :
    jelloObjectInvalidateIc o' = jelloObjectInvalidateIc o := by
  induction fuel generalizing j first with
  | zero => simp [findSlotLoop] at h
  | succ fuel ih =>
    rw [findSlotLoop] at h
    by_cases hj : j < o.cap
    case neg => simp [hj] at h
    rw [if_pos hj] at h
    cases hs : o.states j.toNat with
    | empty =>
      simp only [hs, Option.some.injEq, Prod.mk.injEq] at h
      rw [h.2.2]
    | occupied =>
      simp only [hs] at h
      split_ifs at h
      · simp only [Option.some.injEq, Prod.mk.injEq] at h
        rw [← h.2.2, invalidateIc_icStore]
      · exact ih _ _ h
    | tomb =>
      simp only [hs] at h
      exact ih _ _ h

theorem invalidateIc_findSlot {fuel : ℕ} (h : findSlot fuel o k = some (i, b, o')) :
    jelloObjectInvalidateIc o' = jelloObjectInvalidateIc o := by
  unfold findSlot at h
  split_ifs at h
  · simp only [Option.some.injEq, Prod.mk.injEq] at h
    rw [h.2.2]
  · exact invalidateIc_findSlotLoop _ _ _ h

theorem invalidateIc_findLinear (n : ℕ) (j : UInt32) :
    jelloObjectInvalidateIc (findLinear o k n j).2.2 = jelloObjectInvalidateIc o := by
  induction n generalizing j with
  | zero => rfl
  | succ n ih =>
    rw [findLinear]
    split_ifs
    · exact invalidateIc_icStore o k j
    · exact ih _

theorem invalidateIc_findOccupiedLoop (fuel : ℕ) (j : UInt32)
    (h : findOccupiedLoop o k fuel j = some (i, b, o')) :
    jelloObjectInvalidateIc o' = jelloObjectInvalidateIc o := by
  induction fuel generalizing j with
  | zero => simp [findOccupiedLoop] at h
  | succ fuel ih =>
    rw [findOccupiedLoop] at h
    by_cases hj : j < o.cap
    case neg => simp [hj] at h
    rw [if_pos hj] at h
    cases hs : o.states j.toNat with
    | empty =>
      simp only [hs, Option.some.injEq, Prod.mk.injEq] at h
      rw [h.2.2]
    | occupied =>
      simp only [hs] at h
      split_ifs at h
      · simp only [Option.some.injEq, Prod.mk.injEq] at h
        rw [← h.2.2, invalidateIc_icStore]
      · exact ih _ h
    | tomb =>
      simp only [hs] at h
      exact ih _ h

theorem invalidateIc_findOccupiedSlot {fuel : ℕ} (h : findOccupiedSlot fuel o k = some (i, b, o')) :
    jelloObjectInvalidateIc o' = jelloObjectInvalidateIc o := by
  unfold findOccupiedSlot at h
  have htry := invalidateIc_icTry o k
  revert h htry
  generalize objectIcTry o k = r
  obtain ⟨hit, o₁⟩ := r
  intro h htry
  cases hit with
  | some j =>
    simp only [Option.some.injEq, Prod.mk.injEq] at h
    rw [← h.2.2]
    exact htry
  | none =>
    simp only at h
    split_ifs at h
    · simp only [Option.some.injEq, Prod.mk.injEq] at h
      rw [← h.2.2]
      exact htry
    · have hlinear := invalidateIc_findLinear (o := o₁) (k := k) o₁.cap.toNat 0
      rw [Option.some.inj h] at hlinear
      exact hlinear.trans htry
    · exact (invalidateIc_findOccupiedLoop _ _ h).trans htry

theorem header_of_invalidateIc (h : jelloObjectInvalidateIc o' = jelloObjectInvalidateIc o) :
    o'.header = o.header :=
  congrArg (fun o ↦ o.header) h

theorem header_findSlot {fuel : ℕ} (h : findSlot fuel o k = some (i, b, o')) :
    o'.header = o.header :=
  header_of_invalidateIc (invalidateIc_findSlot h)

end Lookup

section Operations

variable {o o' : JelloObject} {k i slot : UInt32} {b : Bool} {v : JelloValue}

theorem header_writeEntry (h : writeEntry o i k v = some o') : o'.header = o.header := by
  unfold writeEntry at h
  split_ifs at h
  rw [← Option.some.inj h]
  rfl

theorem header_rehashLoop {old : JelloObject} (n j : ℕ) (h : rehashLoop old n j o = some o') :
    o'.header = o.header := by
  induction n generalizing j o with
  | zero => rw [Option.some.inj h]
  | succ n ih =>
    rw [rehashLoop] at h
    split_ifs at h
    · exact ih _ h
    · obtain ⟨⟨i, b, o₁⟩, hfind, h⟩ := Option.bind_eq_some_iff.mp h
      obtain ⟨o₂, hwrite, h⟩ := Option.bind_eq_some_iff.mp h
      exact (ih _ h).trans ((header_writeEntry hwrite).trans (header_findSlot hfind))

theorem header_ensureCap (h : ensureCap o = some o') : o'.header = o.header := by
  unfold ensureCap at h
  split_ifs at h
  · rw [Option.some.inj h]
  · obtain ⟨o₁, hloop, h⟩ := Option.bind_eq_some_iff.mp h
    have hhead := header_rehashLoop _ _ hloop
    rw [← Option.some.inj h]
    exact hhead

theorem header_upsert (h : jelloObjectUpsert o k = some (i, b, o')) : o'.header = o.header := by
  obtain ⟨o₁, hcap, h⟩ := Option.bind_eq_some_iff.mp h
  obtain ⟨⟨j, found, o₂⟩, hfind, h⟩ := Option.bind_eq_some_iff.mp h
  have hhead := (header_findSlot hfind).trans (header_ensureCap hcap)
  cases found with
  | false =>
    obtain ⟨o₃, hwrite, h⟩ := Option.bind_eq_some_iff.mp h
    obtain ⟨-, -, rfl⟩ : j = i ∧ false = b ∧ o₃ = o' := by simpa using h
    exact (header_writeEntry hwrite).trans hhead
  | true =>
    obtain ⟨-, -, rfl⟩ : j = i ∧ true = b ∧ objectIcStore o₂ k j = o' := by simpa using h
    exact (header_icStore _ _ _).trans hhead

theorem header_setSlot (h : jelloObjectSetSlot o slot k = some (i, b, o')) :
    o'.header = o.header := by
  unfold jelloObjectSetSlot at h
  split_ifs at h
  · simp only [Option.some.injEq, Prod.mk.injEq] at h
    rw [h.2.2]
  · exact header_upsert h

theorem header_remove (h : jelloObjectRemove o k = some (b, o')) : o'.header = o.header := by
  obtain ⟨⟨j, found, o₁⟩, hfind, h⟩ := Option.bind_eq_some_iff.mp h
  have hhead := header_findSlot hfind
  cases found with
  | false =>
    obtain ⟨-, rfl⟩ : false = b ∧ o₁ = o' := by simpa using h
    exact hhead
  | true =>
    simp only [Bool.not_true, Bool.false_eq_true, if_false] at h
    split_ifs at h
    · obtain ⟨-, rfl⟩ := Prod.mk.inj (Option.some.inj h)
      exact hhead
    · obtain ⟨-, rfl⟩ := Prod.mk.inj (Option.some.inj h)
      exact hhead

theorem invalidateIc_get (h : jelloObjectGet o k = some (v, o')) :
    jelloObjectInvalidateIc o' = jelloObjectInvalidateIc o := by
  obtain ⟨⟨i, found, o₁⟩, hfind, h⟩ := Option.bind_eq_some_iff.mp h
  obtain ⟨-, rfl⟩ := Prod.mk.inj (Option.some.inj h)
  exact invalidateIc_findOccupiedSlot hfind

theorem invalidateIc_slot {r : Option UInt32} (h : jelloObjectSlot o k = some (r, o')) :
    jelloObjectInvalidateIc o' = jelloObjectInvalidateIc o := by
  obtain ⟨⟨i, found, o₁⟩, hfind, h⟩ := Option.bind_eq_some_iff.mp h
  obtain ⟨-, rfl⟩ := Prod.mk.inj (Option.some.inj h)
  exact invalidateIc_findOccupiedSlot hfind

theorem header_slot {r : Option UInt32} (h : jelloObjectSlot o k = some (r, o')) :
    o'.header = o.header :=
  header_of_invalidateIc (invalidateIc_slot h)

end Operations

end JelloVM
