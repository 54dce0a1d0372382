import JelloVM.Blind
import JelloVM.ProtoCache

namespace JelloVM

open Function ByteMemory Logged OpenAddressing

/-- What an instruction does, its inline caches aside: the fault it stops with, or the state it
leaves. -/
def effect (x : StoreM Unit) (s : Store) : Except Fault Store :=
  (result x s).map fun r ↦ r.2.withoutIc

def SameEffect (x y : StoreM Unit) (s : Store) : Prop := effect x s = effect y s

/-- The table is enlarged before the next key is written. -/
def JelloObject.Full (o : JelloObject) : Prop :=
  ¬ (o.len + 1) * objectLoadNum < o.cap * objectLoadDen

/-- The slot holds the key, and the table is full. -/
def Heap.FullUnderHint (h : Heap) (p : JelloValue) (slot k : UInt32) : Prop :=
  ∃ o, h.cells p = some (.object o) ∧ slotHolds o slot k = true ∧ o.Full

/-- The value that the chain of prototypes from an object has for a key, `n` objects on. -/
inductive Inherited (h : Heap) (k : UInt32) : ℕ → JelloValue → JelloValue → Prop
  | own {p v : JelloValue} {o : JelloObject} (ho : h.cells p = some (.object o))
      (hv : o.HasEntry k v) : Inherited h k 0 p v
  | missing {p : JelloValue} {o : JelloObject} (ho : h.cells p = some (.object o))
      (hk : Absent o.table k) (he : HasEmpty o.table) (hend : o.proto = 0) :
      Inherited h k 0 p jelloMakeNull
  | next {p v : JelloValue} {o : JelloObject} {n : ℕ} (ho : h.cells p = some (.object o))
      (hk : Absent o.table k) (he : HasEmpty o.table) (hmore : o.proto ≠ 0)
      (hrest : Inherited h k n o.proto v) : Inherited h k (n + 1) p v

/-- The first `n` objects of the chain do not have the key, and it goes on. -/
inductive Deeper (h : Heap) (k : UInt32) : ℕ → JelloValue → Prop
  | zero (p : JelloValue) : Deeper h k 0 p
  | next {p : JelloValue} {o : JelloObject} {n : ℕ} (ho : h.cells p = some (.object o))
      (hk : Absent o.table k) (he : HasEmpty o.table) (hmore : o.proto ≠ 0)
      (hrest : Deeper h k n o.proto) : Deeper h k (n + 1) p

/-- The two instructions are on the same registers, and the key register of the second holds the
key in the first. -/
structure SameOperands (ctx : Ctx) (ins dyn : JelloInsn) (s : Store) : Prop where
  a : dyn.ra = ins.ra
  b : dyn.rb = ins.rb
  key : load32 s.mem (ctx.rf.addr dyn.rc) = ins.imm
  known : ins.imm.toNat < ctx.m.atoms.length

section Tables

variable {o o' : JelloObject} {m : AtomMap} {k i slot : UInt32} {v : JelloValue} {b : Bool}

theorem present_of_slotHolds (h : slotHolds o slot k = true) : ¬ Absent o.table k :=
  fun ha ↦ ha _ (slotHolds_iff.mp h)

theorem slot_entry (h : Models o m) (hv : o.HasEntry k v) :
    ∃ i o', jelloObjectSlot o k = some (some i, o') ∧ o'.vals i.toNat = v ∧
      jelloObjectInvalidateIc o' = jelloObjectInvalidateIc o := by
  obtain ⟨j, hj, rfl⟩ := hv
  obtain ⟨i, o', hs, -, hval⟩ := slot_present h (h.rep.of_holds hj)
  exact ⟨i, o', hs, hval, invalidateIc_slot hs⟩

theorem slot_absent (h : Models o m) (hk : Absent o.table k) (he : HasEmpty o.table) :
    ∃ o', jelloObjectSlot o k = some (none, o') ∧
      jelloObjectInvalidateIc o' = jelloObjectInvalidateIc o := by
  obtain ⟨⟨j, b, o'⟩, hf⟩ := Option.isSome_iff_exists.mp
    (findOccupiedSlot_returns h.inv (.inl he) (le_refl (probeFuel o)))
  obtain ⟨-, ⟨rfl, hj⟩ | ⟨rfl, -⟩⟩ := findOccupiedSlot_spec h.inv hf
  · exact absurd hj (hk _)
  · exact ⟨o', by simp [jelloObjectSlot, hf], invalidateIc_findOccupiedSlot hf⟩

theorem get_of_hint (h : Models o m) (hs : slotHolds o slot k = true) :
    ∃ o', jelloObjectGet o k = some (o.vals slot.toNat, o') ∧
      jelloObjectInvalidateIc o' = jelloObjectInvalidateIc o := by
  obtain ⟨o', hg, -⟩ := get_present h (h.rep.of_holds (slotHolds_iff.mp hs))
  exact ⟨o', hg, invalidateIc_get hg⟩

theorem upsert_of_hint (h : Models o m) (hs : slotHolds o slot k = true) (hfull : ¬ o.Full) :
    ∃ o', jelloObjectUpsert o k = some (slot, true, o') ∧
      jelloObjectInvalidateIc o' = jelloObjectInvalidateIc o := by
  have hcap : ensureCap o = some o := if_pos (not_not.mp hfull)
  obtain ⟨⟨j, b, o'⟩, hf⟩ := Option.isSome_iff_exists.mp
    (probe_returns h.inv (.inr (present_of_slotHolds hs)) (le_refl (probeFuel o)))
  obtain ⟨-, ⟨rfl, hj⟩ | ⟨-, habs, -⟩⟩ := findSlot_spec h.inv hf
  · obtain rfl : j = slot := UInt32.toNat_inj.mp (h.inv.wf.unique hj (slotHolds_iff.mp hs))
    refine ⟨objectIcStore o' k j, by simp [jelloObjectUpsert, hcap, hf], ?_⟩
    rw [invalidateIc_icStore, invalidateIc_findSlot hf]
  · exact absurd (slotHolds_iff.mp hs) (habs _)

theorem upsert_of_full (h : Models o m) (hs : slotHolds o slot k = true) (hfull : o.Full)
    (hu : jelloObjectUpsert o k = some (i, b, o')) : o'.cap ≠ o.cap := by
  obtain ⟨o₁, hcap, hu⟩ := Option.bind_eq_some_iff.mp hu
  rw [ensureCap, if_neg hfull] at hcap
  have hc : o.cap.toNat ≠ 2 ^ 31 := by
    intro hc
    have hl : o.len ≠ 0 := fun hl ↦ h.inv.absent_of_len hl k _ (slotHolds_iff.mp hs)
    rw [rehash_wraps h hc hl] at hcap
    cases hcap
  obtain ⟨o₂, hr, hm, -, hgrown, -⟩ := rehash_spec h hc
  obtain rfl : o₂ = o₁ := Option.some.inj (hr.symm.trans hcap)
  have hk : ¬ Absent o₂.table k := by
    rw [← hm.rep.isSome_iff, h.rep.isSome_iff]
    exact present_of_slotHolds hs
  obtain ⟨⟨j, found, o₃⟩, hf, hu⟩ := Option.bind_eq_some_iff.mp hu
  obtain ⟨hsame, ⟨rfl, -⟩ | ⟨-, habs, -⟩⟩ := findSlot_spec hm.inv hf
  · obtain ⟨-, -, rfl⟩ : j = i ∧ true = b ∧ objectIcStore o₃ k j = o' := by simpa using hu
    have hcap₃ : (objectIcStore o₃ k j).cap.toNat = o₂.cap.toNat :=
      (congrArg Table.cap (sameEntries_icStore o₃ k j).1).trans (congrArg Table.cap hsame.1)
    have hpos := h.inv.pow.bounds
    intro heq
    rw [heq] at hcap₃
    omega
  · exact absurd habs hk

end Tables

section Gets

variable {ctx : Ctx} {s t : Store} {p v : JelloValue} {o : JelloObject} {k : UInt32}

theorem sameEffect_iff {x y : StoreM Unit} :
    SameEffect x y s ↔ Agree SameButIc Eq (result x s) (result y s) := by
  unfold SameEffect effect
  constructor
  · intro h
    cases hx : result x s with
    | error e =>
      cases hy : result y s with
      | error e' =>
        rw [hx, hy] at h
        rw [Except.error.inj h]
        exact .error _
      | ok r =>
        rw [hx, hy] at h
        cases h
    | ok r =>
      cases hy : result y s with
      | error e' =>
        rw [hx, hy] at h
        cases h
      | ok r' =>
        rw [hx, hy] at h
        exact .ok rfl (Except.ok.inj h)
  · generalize result x s = r
    generalize result y s = q
    intro h
    cases h with
    | error e => rfl
    | ok _ hr => exact congrArg Except.ok hr

theorem sameButIc_write (ho : s.heap.cells p = some (.object o)) {o' : JelloObject}
    (hic : jelloObjectInvalidateIc o' = jelloObjectInvalidateIc o) :
    SameButIc s { s with heap := s.heap.write p (.object o') } := by
  have hheap : s.heap.withoutIc = (s.heap.write p (.object o')).withoutIc := by
    rw [Heap.withoutIc_write]
    have hcell : s.heap.withoutIc.cells p = some (Cell.withoutIc (.object o')) := by
      change (s.heap.cells p).map Cell.withoutIc = _
      rw [ho]
      exact congrArg (some ∘ Cell.object) hic.symm
    simp only [Heap.write, ← hcell, update_eq_self]
  exact congrArg (fun h ↦ { s with heap := h }) hheap

/-- What follows a lookup in the object itself. -/
def getOwn (ctx : Ctx) (r : ℕ) (p : JelloValue) (q : Option (JelloValue × JelloObject)) :
    StoreM Unit := do
  let (v, o) ← orDiverge q
  writeCell p (.object o)
  vmStoreFromBoxed ctx.m ctx.fpu ctx.f ctx.rf r v

/-- A box of the kind of the register is read without the conversions. -/
def shortcut {α : Type} (ctx : Ctx) (r : ℕ) (v : JelloValue) (x : StoreM (Option α))
    (store : α → StoreM Unit) : StoreM Unit := do
  match ← x with
  | some a => store a
  | none => vmStoreFromBoxed ctx.m ctx.fpu ctx.f ctx.rf r v

theorem shortcut_f32 {r : ℕ} (hk : regKind ctx.m ctx.f r = .f32) :
    result (shortcut ctx r v (boxF32At v) (vmStoreF32 ctx.rf r)) s =
      result (vmStoreFromBoxed ctx.m ctx.fpu ctx.f ctx.rf r v) s := by
  rw [shortcut, result_bind]
  cases hp : jelloIsPtr v with
  | false => simp [boxF32At, hp, Except.bind]
  | true =>
    obtain ⟨hi, hn⟩ := isPtr_others hp
    cases hc : s.heap.cells v with
    | none =>
      simp [boxF32At, boxF64At, vmStoreFromBoxed, result_vmRegKind, hk, hi, hn, hp,
        result_cellAt_none hc, Except.bind]
    | some c =>
      cases c <;> simp [boxF32At, boxF64At, vmStoreFromBoxed, result_vmRegKind, hk, hi, hn, hp,
        result_cellAt hc, Except.bind]

theorem shortcut_f64 {r : ℕ} (hk : regKind ctx.m ctx.f r = .f64) :
    result (shortcut ctx r v (boxF64At v) (vmStoreF64 ctx.rf r)) s =
      result (vmStoreFromBoxed ctx.m ctx.fpu ctx.f ctx.rf r v) s := by
  rw [shortcut, result_bind]
  cases hp : jelloIsPtr v with
  | false => simp [boxF64At, hp, Except.bind]
  | true =>
    obtain ⟨hi, hn⟩ := isPtr_others hp
    cases hc : s.heap.cells v with
    | none =>
      simp [boxF32At, boxF64At, vmStoreFromBoxed, result_vmRegKind, hk, hi, hn, hp,
        result_cellAt_none hc, Except.bind]
    | some c =>
      cases c <;> simp [boxF32At, boxF64At, vmStoreFromBoxed, result_vmRegKind, hk, hi, hn, hp,
        result_cellAt hc, Except.bind]

theorem shortcut_i64 {r : ℕ} (hk : regKind ctx.m ctx.f r = .i64) :
    result (shortcut ctx r v (boxI64At v) (vmStoreI64 ctx.rf r)) s =
      result (vmStoreFromBoxed ctx.m ctx.fpu ctx.f ctx.rf r v) s := by
  rw [shortcut, result_bind]
  cases hp : jelloIsPtr v with
  | false => simp [boxI64At, hp, Except.bind]
  | true =>
    obtain ⟨hi, hn⟩ := isPtr_others hp
    cases hc : s.heap.cells v with
    | none =>
      simp [boxI64At, boxF64At, vmStoreFromBoxed, result_vmRegKind, hk, hi, hn, hp,
        result_cellAt_none hc, Except.bind]
    | some c =>
      cases c <;> simp [boxI64At, boxF64At, vmStoreFromBoxed, result_vmRegKind, hk, hi, hn, hp,
        result_cellAt hc, Except.bind]

theorem shortcut_i32 {r : ℕ} (hk : regKind ctx.m ctx.f r = .i8 ∨ regKind ctx.m ctx.f r = .i16 ∨
    regKind ctx.m ctx.f r = .i32) (hi : jelloIsI32 v = true) :
    result (vmStoreU32 ctx.rf r (jelloAsI32 v)) s =
      result (vmStoreFromBoxed ctx.m ctx.fpu ctx.f ctx.rf r v) s := by
  have hn : jelloIsNull v = false := by
    have htag : v &&& 7 = JelloTag.i32.code := by simpa [jelloIsI32, hasTag] using hi
    simp [jelloIsNull, hasTag, htag, JelloTag.code]
  obtain hk | hk | hk := hk <;>
    simp [vmStoreFromBoxed, result_vmRegKind, hk, hi, hn, Except.bind]

/-- The status that the typed access returns is not looked at. -/
def dropStatus (r : Except Fault (Bool × Store)) : Except Fault (Unit × Store) :=
  r.map fun q ↦ ((), q.2)

theorem dropStatus_done (x : StoreM Unit) : dropStatus (result (x >>= fun _ ↦ pure true) s) =
    result x s := by
  rw [result_bind]
  cases result x s <;> rfl

/-- Without a walk, the access with the key in the instruction is a lookup and a store. -/
theorem result_getAtom_own {ins : JelloInsn} (hp : load64 s.mem (ctx.rf.addr ins.rb) = p)
    (hne : p ≠ 0) (ho : s.heap.cells p = some (.object o))
    (hown : ctx.m.protoEnabled = false ∨ ins.imm = jelloAtomProto ∨ o.proto = 0) :
    result (opObjGetAtom ctx ins) s =
      result (getOwn ctx ins.ra p (jelloObjectGetSlot o ins.c.toUInt32 ins.imm)) s := by
  have hc : (!ctx.m.protoEnabled) = true ∨ ins.imm = jelloAtomProto ∨ o.proto = 0 := by
    simpa using hown
  rw [opObjGetAtom, vmObjGetAtomTyped]
  simp only [result_bind, result_vmLoad64, vmLoadPtr, hp, Except.bind, if_neg hne, result_note,
    result_objectAt_of ho, if_pos hc, getOwn]
  cases hq : jelloObjectGetSlot o ins.c.toUInt32 ins.imm with
  | none => rfl
  | some q =>
    obtain ⟨v, o'⟩ := q
    simp only [orDiverge, result_pure, writeCell, result_change, result_vmRegKind]
    generalize { s with heap := s.heap.write p (.object o') } = t
    have hplain := dropStatus_done (s := t) (vmStoreFromBoxed ctx.m ctx.fpu ctx.f ctx.rf ins.ra v)
    cases hk : regKind ctx.m ctx.f ins.ra
    case i8 | i16 | i32 =>
      change dropStatus (result (if jelloIsI32 v = true then _ else _) t) = _
      by_cases hi : jelloIsI32 v = true
      · rw [if_pos hi, dropStatus_done]
        exact shortcut_i32 (by simp [hk]) hi
      · rw [if_neg hi]
        exact hplain
    case f64 =>
      rw [← shortcut_f64 hk, shortcut, result_bind, result_bind]
      cases result (boxF64At v) t with
      | error e => rfl
      | ok r =>
        obtain ⟨_ | x, u⟩ := r
        · exact dropStatus_done (s := u) (vmStoreFromBoxed ctx.m ctx.fpu ctx.f ctx.rf ins.ra v)
        · exact dropStatus_done (s := u) (vmStoreF64 ctx.rf ins.ra x)
    case f32 =>
      rw [← shortcut_f32 hk, shortcut, result_bind, result_bind]
      cases result (boxF32At v) t with
      | error e => rfl
      | ok r =>
        obtain ⟨_ | x, u⟩ := r
        · exact dropStatus_done (s := u) (vmStoreFromBoxed ctx.m ctx.fpu ctx.f ctx.rf ins.ra v)
        · exact dropStatus_done (s := u) (vmStoreF32 ctx.rf ins.ra x)
    case i64 =>
      rw [← shortcut_i64 hk, shortcut, result_bind, result_bind]
      cases result (boxI64At v) t with
      | error e => rfl
      | ok r =>
        obtain ⟨_ | x, u⟩ := r
        · exact dropStatus_done (s := u) (vmStoreFromBoxed ctx.m ctx.fpu ctx.f ctx.rf ins.ra v)
        · exact dropStatus_done (s := u) (vmStoreI64 ctx.rf ins.ra x)
    case bool | atom | f16 | dynamic | bytes | function | list | array | object | abstract | enum =>
      exact hplain

theorem result_objectAt_no (hno : ∀ o, s.heap.cells p ≠ some (.object o)) :
    result (objectAt p) s = .error .wild := by
  cases hc : s.heap.cells p with
  | none => simp [objectAt, result_cellAt_none hc, Except.bind]
  | some c =>
    cases c with
    | object o => exact absurd hc (hno o)
    | _ => simp [objectAt, result_cellAt hc, Except.bind, wild]

section Walk

variable {n : ℕ} {o' : JelloObject}

theorem walk_wild (n : ℕ) (hno : ∀ o, s.heap.cells p ≠ some (.object o)) :
    result (protoWalk ctx k (n + 1) p) s = .error .wild := by
  rw [protoWalk, result_bind, result_objectAt_no hno]
  rfl

theorem walk_diverges (n : ℕ) (ho : s.heap.cells p = some (.object o))
    (hs : jelloObjectSlot o k = none) :
    result (protoWalk ctx k (n + 1) p) s = .error .diverge := by
  simp only [protoWalk, result_bind, result_objectAt_of ho, Except.bind, hs]
  rfl

theorem walk_found {i : UInt32} (n : ℕ) (ho : s.heap.cells p = some (.object o))
    (hs : jelloObjectSlot o k = some (some i, o')) :
    result (protoWalk ctx k (n + 1) p) s =
      .ok (some (o'.vals i.toNat), { s with heap := s.heap.write p (.object o') }) := by
  simp only [protoWalk, result_bind, result_objectAt_of ho, Except.bind, hs]
  rfl

theorem walk_ends (n : ℕ) (ho : s.heap.cells p = some (.object o))
    (hs : jelloObjectSlot o k = some (none, o')) (hend : o'.proto = 0) :
    result (protoWalk ctx k (n + 1) p) s =
      .ok (some jelloMakeNull, { s with heap := s.heap.write p (.object o') }) := by
  simp only [protoWalk, result_bind, result_objectAt_of ho, Except.bind, hs, orDiverge,
    result_pure, writeCell, result_change, if_pos hend]

theorem walk_next (n : ℕ) (ho : s.heap.cells p = some (.object o))
    (hs : jelloObjectSlot o k = some (none, o')) (hmore : o'.proto ≠ 0) :
    result (protoWalk ctx k (n + 1) p) s =
      result (protoWalk ctx k n o'.proto) { s with heap := s.heap.write p (.object o') } := by
  simp only [protoWalk, result_bind, result_objectAt_of ho, Except.bind, hs, orDiverge,
    result_pure, writeCell, result_change, if_neg hmore]

end Walk

def getWalked (ctx : Ctx) (r : ℕ) (k : UInt32) (p : JelloValue) : StoreM Unit := do
  match ← protoWalk ctx k 1026 p with
  | none => pure ()
  | some v => vmStoreFromBoxed ctx.m ctx.fpu ctx.f ctx.rf r v

theorem result_get_walked {ins dyn : JelloInsn} (hops : SameOperands ctx ins dyn s)
    (hp : load64 s.mem (ctx.rf.addr ins.rb) = p) (hne : p ≠ 0)
    (hwalk : ctx.m.protoEnabled = true ∧ ins.imm ≠ jelloAtomProto) :
    result (opObjGet ctx dyn) s = result (getWalked ctx ins.ra ins.imm p) s := by
  have hknown : ¬ ctx.m.atoms.length ≤ ins.imm.toNat := Nat.not_le.mpr hops.known
  have hc : ¬ ((!ctx.m.protoEnabled) = true ∨ ins.imm = jelloAtomProto) := by
    simp [hwalk.1, hwalk.2]
  rw [opObjGet]
  rw [getWalked, result_bind (protoWalk ctx ins.imm 1026 p)]
  cases hw : result (protoWalk ctx ins.imm 1026 p) s with
  | error e =>
    simp only [result_bind, result_vmLoad64, vmLoadPtr, hops.b, hp, Except.bind, if_neg hne,
      result_vmLoadU32, hops.key, if_neg hknown, if_neg hc, hw]
  | ok r =>
    obtain ⟨_ | v, t⟩ := r <;>
    simp only [result_bind, result_vmLoad64, vmLoadPtr, hops.b, hp, Except.bind, if_neg hne,
      result_vmLoadU32, hops.key, if_neg hknown, hops.a, if_neg hc, hw]

theorem result_getAtom_walked {ins : JelloInsn} (hp : load64 s.mem (ctx.rf.addr ins.rb) = p)
    (hne : p ≠ 0) (ho : s.heap.cells p = some (.object o))
    (hwalk : ctx.m.protoEnabled = true ∧ ins.imm ≠ jelloAtomProto) (hmore : o.proto ≠ 0) :
    result (opObjGetAtom ctx ins) s = result (getWalked ctx ins.ra ins.imm p) s := by
  have hc : ¬ ((!ctx.m.protoEnabled) = true ∨ ins.imm = jelloAtomProto ∨ o.proto = 0) := by
    simp [hwalk.1, hwalk.2, hmore]
  rw [opObjGetAtom, vmObjGetAtomTyped]
  simp only [result_bind, result_vmLoad64, vmLoadPtr, hp, Except.bind, if_neg hne, result_note,
    result_objectAt_of ho, if_neg hc, getWalked]
  cases result (protoWalk ctx ins.imm 1026 p) s with
  | error e => rfl
  | ok r =>
    obtain ⟨_ | v, t⟩ := r
    · rfl
    · exact dropStatus_done (s := t) (vmStoreFromBoxed ctx.m ctx.fpu ctx.f ctx.rf ins.ra v)

theorem result_walked_own (ho : s.heap.cells p = some (.object o)) (hend : o.proto = 0) (r : ℕ) :
    result (getWalked ctx r k p) s = result (getOwn ctx r p (jelloObjectGet o k)) s := by
  have hget : jelloObjectGet o k = (jelloObjectSlot o k).map fun q ↦
      ((q.1.map fun i ↦ q.2.vals i.toNat).getD jelloMakeNull, q.2) := by
    unfold jelloObjectSlot jelloObjectGet
    cases findOccupiedSlot (probeFuel o) o k with
    | none => rfl
    | some q => cases hfound : q.2.1 <;> simp [hfound]
  rw [getWalked, getOwn, hget]
  cases hs : jelloObjectSlot o k with
  | none =>
    rw [result_bind, show result (protoWalk ctx k 1026 p) s = _ from walk_diverges 1025 ho hs]
    rfl
  | some q =>
    obtain ⟨_ | i, o'⟩ := q
    · have hproto : o'.proto = 0 := (congrArg Prod.snd (header_slot hs)).trans hend
      rw [result_then (show result (protoWalk ctx k 1026 p) s = _ from walk_ends 1025 ho hs hproto)]
      rfl
    · rw [result_then (show result (protoWalk ctx k 1026 p) s = _ from walk_found 1025 ho hs)]
      rfl

theorem proto_or_off (h : ¬ (ctx.m.protoEnabled = true ∧ k ≠ jelloAtomProto)) :
    (!ctx.m.protoEnabled) = true ∨ k = jelloAtomProto := by
  by_cases hk : k = jelloAtomProto
  · exact .inr hk
  · exact .inl (by simpa using fun hon ↦ h ⟨hon, hk⟩)

theorem result_get_own {ins dyn : JelloInsn} (hops : SameOperands ctx ins dyn s)
    (hp : load64 s.mem (ctx.rf.addr ins.rb) = p) (hne : p ≠ 0)
    (ho : s.heap.cells p = some (.object o))
    (hown : ctx.m.protoEnabled = false ∨ ins.imm = jelloAtomProto ∨ o.proto = 0) :
    result (opObjGet ctx dyn) s = result (getOwn ctx ins.ra p (jelloObjectGet o ins.imm)) s := by
  by_cases hwalk : ctx.m.protoEnabled = true ∧ ins.imm ≠ jelloAtomProto
  · have hend : o.proto = 0 := by
      obtain hoff | hk | hend := hown
      · rw [hoff] at hwalk
        exact absurd hwalk.1 Bool.false_ne_true
      · exact absurd hk hwalk.2
      · exact hend
    rw [result_get_walked hops hp hne hwalk, result_walked_own ho hend]
  · have hknown : ¬ ctx.m.atoms.length ≤ ins.imm.toNat := Nat.not_le.mpr hops.known
    have hc := proto_or_off hwalk
    rw [opObjGet]
    simp only [result_bind, result_vmLoad64, vmLoadPtr, hops.b, hp, Except.bind, if_neg hne,
      result_vmLoadU32, hops.key, if_neg hknown, hops.a, if_pos hc, result_objectAt_of ho, getOwn]

theorem sameEffect_of_result {x y : StoreM Unit} (h : result x s = result y s) :
    SameEffect x y s := by
  rw [SameEffect, effect, effect, h]

theorem sameEffect_hint (hok : ObjectsOk s.heap) (ho : s.heap.cells p = some (.object o))
    (r : ℕ) (slot : UInt32) :
    SameEffect (getOwn ctx r p (jelloObjectGetSlot o slot k)) (getOwn ctx r p (jelloObjectGet o k))
      s := by
  unfold jelloObjectGetSlot
  split_ifs with hs
  · obtain ⟨m, hm⟩ := hok p o ho
    obtain ⟨o', hget, hic⟩ := get_of_hint hm hs
    rw [hget]
    refine sameEffect_iff.mpr ?_
    have hsame : SameButIc { s with heap := s.heap.write p (.object o) }
        { s with heap := s.heap.write p (.object o') } :=
      Eq.trans (sameButIc_write ho rfl).symm (sameButIc_write ho hic)
    exact blind_vmStoreFromBoxed _ _ _ _ _ _ _ _ hsame
  · rfl

theorem sameEffect_get {ins dyn : JelloInsn} (hops : SameOperands ctx ins dyn s)
    (hok : ObjectsOk s.heap) (hp : load64 s.mem (ctx.rf.addr ins.rb) = p) (hne : p ≠ 0) :
    SameEffect (opObjGetAtom ctx ins) (opObjGet ctx dyn) s := by
  by_cases hobj : ∃ o, s.heap.cells p = some (.object o)
  · obtain ⟨o, ho⟩ := hobj
    by_cases hown : ctx.m.protoEnabled = false ∨ ins.imm = jelloAtomProto ∨ o.proto = 0
    · rw [SameEffect, effect, effect, result_getAtom_own hp hne ho hown,
        result_get_own hops hp hne ho hown]
      exact sameEffect_hint hok ho ins.ra ins.c.toUInt32
    · simp only [not_or, Bool.not_eq_false] at hown
      have hwalk : ctx.m.protoEnabled = true ∧ ins.imm ≠ jelloAtomProto := ⟨hown.1, hown.2.1⟩
      refine sameEffect_of_result ?_
      rw [result_getAtom_walked hp hne ho hwalk hown.2.2, result_get_walked hops hp hne hwalk]
  · have hno : ∀ o, s.heap.cells p ≠ some (.object o) := fun o ho ↦ hobj ⟨o, ho⟩
    have hstatic : result (opObjGetAtom ctx ins) s = .error .wild := by
      rw [opObjGetAtom, vmObjGetAtomTyped]
      simp only [result_bind, result_vmLoad64, vmLoadPtr, hp, Except.bind, if_neg hne, result_note,
        result_objectAt_no hno]
    refine sameEffect_of_result (hstatic.trans ?_)
    by_cases hwalk : ctx.m.protoEnabled = true ∧ ins.imm ≠ jelloAtomProto
    · rw [result_get_walked hops hp hne hwalk, getWalked, result_bind,
        show result (protoWalk ctx ins.imm 1026 p) s = _ from walk_wild 1025 hno]
      rfl
    · have hknown : ¬ ctx.m.atoms.length ≤ ins.imm.toNat := Nat.not_le.mpr hops.known
      have hc := proto_or_off hwalk
      rw [opObjGet]
      simp only [result_bind, result_vmLoad64, vmLoadPtr, hops.b, hp, Except.bind, if_neg hne,
        result_vmLoadU32, hops.key, if_neg hknown, if_pos hc, result_objectAt_no hno]

end Gets

section Sets

variable {ctx : Ctx} {ins dyn : JelloInsn} {s t : Store} {p v : JelloValue} {o : JelloObject}
  {k : UInt32}

/-- What follows the search for the slot of an entry. -/
def setThrough (ctx : Ctx) (r : ℕ) (p : JelloValue) (k : UInt32)
    (q : Option (UInt32 × Bool × JelloObject)) : StoreM Unit := do
  let (i, existed, o) ← orDiverge q
  writeCell p (.object o)
  objStoreTyped ctx r p k i existed

theorem result_setAtom (hp : load64 s.mem (ctx.rf.addr ins.rb) = p) (hne : p ≠ 0)
    (ho : s.heap.cells p = some (.object o)) :
    result (opObjSetAtom ctx ins) s =
      result (setThrough ctx ins.ra p ins.imm (jelloObjectSetSlot o ins.c.toUInt32 ins.imm)) s := by
  rw [opObjSetAtom, vmObjSetAtomTyped]
  simp only [result_bind, result_vmLoad64, vmLoadPtr, hp, Except.bind, if_neg hne, result_note,
    result_objectAt_of ho, setThrough]
  cases jelloObjectSetSlot o ins.c.toUInt32 ins.imm with
  | none => rfl
  | some q =>
    simp only [orDiverge, result_pure, writeCell, result_change]
    generalize { s with heap := s.heap.write p (.object q.2.2) } = t
    cases result (objStoreTyped ctx ins.ra p ins.imm q.1 q.2.1) t <;> rfl

theorem result_set (hops : SameOperands ctx ins dyn s)
    (hp : load64 s.mem (ctx.rf.addr ins.rb) = p) (hne : p ≠ 0)
    (ho : s.heap.cells p = some (.object o)) :
    result (opObjSet ctx dyn) s =
      result (setThrough ctx ins.ra p ins.imm (jelloObjectUpsert o ins.imm)) s := by
  have hknown : ¬ ctx.m.atoms.length ≤ ins.imm.toNat := Nat.not_le.mpr hops.known
  rw [opObjSet]
  simp only [result_bind, result_vmLoad64, vmLoadPtr, hops.b, hp, Except.bind, if_neg hne,
    result_vmLoadU32, hops.key, if_neg hknown, hops.a, result_objectAt_of ho, setThrough]

theorem result_set_wild (hops : SameOperands ctx ins dyn s)
    (hp : load64 s.mem (ctx.rf.addr ins.rb) = p) (hne : p ≠ 0)
    (hno : ∀ o, s.heap.cells p ≠ some (.object o)) :
    result (opObjSetAtom ctx ins) s = result (opObjSet ctx dyn) s := by
  have hknown : ¬ ctx.m.atoms.length ≤ ins.imm.toNat := Nat.not_le.mpr hops.known
  rw [opObjSetAtom, vmObjSetAtomTyped, opObjSet]
  simp only [result_bind, result_vmLoad64, vmLoadPtr, hops.b, hp, Except.bind, if_neg hne,
    result_vmLoadU32, hops.key, if_neg hknown, result_note, result_objectAt_no hno]

theorem sameEffect_set (hops : SameOperands ctx ins dyn s) (hok : ObjectsOk s.heap)
    (hp : load64 s.mem (ctx.rf.addr ins.rb) = p) (hne : p ≠ 0)
    (hfit : ¬ s.heap.FullUnderHint p ins.c.toUInt32 ins.imm) :
    SameEffect (opObjSetAtom ctx ins) (opObjSet ctx dyn) s := by
  by_cases hobj : ∃ o, s.heap.cells p = some (.object o)
  · obtain ⟨o, ho⟩ := hobj
    rw [SameEffect, effect, effect, result_setAtom hp hne ho, result_set hops hp hne ho]
    unfold jelloObjectSetSlot
    split_ifs with hs
    · obtain ⟨m, hm⟩ := hok p o ho
      obtain ⟨o', hup, hic⟩ := upsert_of_hint hm hs fun hfull ↦ hfit ⟨o, ho, hs, hfull⟩
      rw [hup]
      refine sameEffect_iff.mpr ?_
      have hsame : SameButIc { s with heap := s.heap.write p (.object o) }
          { s with heap := s.heap.write p (.object o') } :=
        Eq.trans (sameButIc_write ho rfl).symm (sameButIc_write ho hic)
      exact blind_objStoreTyped _ _ _ _ _ _ _ _ hsame
    · rfl
  · exact sameEffect_of_result (result_set_wild hops hp hne fun o ho ↦ hobj ⟨o, ho⟩)

theorem ends_setThrough {r : ℕ} {i : UInt32} {b : Bool} (hfree : s.heap.FreeAbove)
    (hroom : s.heap.Room 1) (hp : (s.heap.cells p).isSome) :
    Ends (setThrough ctx r p k (some (i, b, o))) (fun _ t ↦
      ∃ o', t.heap.cells p = some (.object o') ∧ o'.cap = o.cap) s := by
  refine spec_bind.mpr ((spec_pure _).mpr (spec_bind.mpr (spec_writeCell.mpr ?_)))
  have hroom' : (s.heap.write p (.object o)).Room 1 := hroom
  refine (ends_objStoreTyped_stores (s := { s with heap := s.heap.write p (.object o) })
    (hfree.write hp _) hroom' (Heap.write_self _ _ _)).mono ?_
  rintro _ t ⟨v, h₁, o', -, hheap, hsame, -⟩
  refine ⟨o', by rw [hheap, Heap.write_self], ?_⟩
  exact UInt32.toNat_inj.mp (congrArg Table.cap hsame.1)

theorem not_sameEffect_set (hops : SameOperands ctx ins dyn s) (hok : ObjectsOk s.heap)
    (hfree : s.heap.FreeAbove) (hroom : s.heap.Room 1)
    (hp : load64 s.mem (ctx.rf.addr ins.rb) = p) (hne : p ≠ 0)
    (hfull : s.heap.FullUnderHint p ins.c.toUInt32 ins.imm)
    (hdone : result (opObjSetAtom ctx ins) s = .ok ((), t)) :
    ¬ SameEffect (opObjSetAtom ctx ins) (opObjSet ctx dyn) s := by
  obtain ⟨o, ho, hs, hfull⟩ := hfull
  obtain ⟨m, hm⟩ := hok p o ho
  have hsome : (s.heap.cells p).isSome := by rw [ho]; rfl
  intro hsame
  have hagree := sameEffect_iff.mp hsame
  rw [hdone] at hagree
  rw [result_setAtom hp hne ho, jelloObjectSetSlot, if_pos hs] at hdone
  rw [result_set hops hp hne ho] at hagree
  cases hu : jelloObjectUpsert o ins.imm with
  | none =>
    rw [hu] at hagree
    cases hagree
  | some q =>
    obtain ⟨i, b, o'⟩ := q
    rw [hu] at hagree
    cases hr : result (setThrough ctx ins.ra p ins.imm (some (i, b, o'))) s with
    | error e =>
      rw [hr] at hagree
      cases hagree
    | ok r =>
      rw [hr] at hagree
      obtain ⟨⟨⟩, t'⟩ := r
      cases hagree with
      | ok _ hic =>
        obtain ⟨o₁, ho₁, hcap₁⟩ := (ends_setThrough hfree hroom hsome).of_result hdone
        obtain ⟨o₂, ho₂, hcap₂⟩ := (ends_setThrough hfree hroom hsome).of_result hr
        have hcell := hic.cells p
        rw [ho₁, ho₂] at hcell
        have hcap : o₁.cap = o₂.cap :=
          congrArg (fun o ↦ o.cap) (Cell.object.inj (Option.some.inj hcell))
        exact upsert_of_full hm hs hfull hu (hcap₂.symm.trans (hcap.symm.trans hcap₁))

theorem result_has (hops : SameOperands ctx ins dyn s)
    (hp : load64 s.mem (ctx.rf.addr ins.rb) = p) (hne : p ≠ 0) :
    result (opObjHasAtom ctx ins) s = result (opObjHas ctx dyn) s := by
  have hknown : ¬ ctx.m.atoms.length ≤ ins.imm.toNat := Nat.not_le.mpr hops.known
  rw [opObjHasAtom, opObjHas]
  simp only [result_bind, result_vmLoad64, vmLoadPtr, hops.a, hops.b, hp, Except.bind, if_neg hne,
    result_vmLoadU32, hops.key, if_neg hknown, result_note]

end Sets

section Chain

variable {ctx : Ctx} {h : Heap} {s : Store} {p v : JelloValue} {k : UInt32} {n fuel : ℕ}

theorem object_of_withoutIc {o : JelloObject} (hsame : s.heap.withoutIc = h.withoutIc)
    (ho : h.cells p = some (.object o)) : ∃ o', s.heap.cells p = some (.object o') ∧
      jelloObjectInvalidateIc o' = jelloObjectInvalidateIc o := by
  have hcell : (s.heap.cells p).map Cell.withoutIc = (h.cells p).map Cell.withoutIc :=
    congrFun (congrArg Heap.cells hsame) p
  rw [ho] at hcell
  obtain ⟨c, hc, heq⟩ := Option.map_eq_some_iff.mp hcell
  obtain rfl | ⟨o', o₁, rfl, ho₁, hic⟩ := eq_or_objects heq
  · exact ⟨o, hc, rfl⟩
  · rw [← Cell.object.inj ho₁] at hic
    exact ⟨o', hc, hic⟩

theorem sameEntries_of_invalidateIc {o o' : JelloObject}
    (h : jelloObjectInvalidateIc o' = jelloObjectInvalidateIc o) : SameEntries o o' :=
  ⟨congrArg (fun o ↦ o.table) h, congrArg (fun o ↦ o.len) h⟩

theorem walk_step {o : JelloObject} (hok : ObjectsOk h) (hsame : s.heap.withoutIc = h.withoutIc)
    (ho : h.cells p = some (.object o)) (hk : Absent o.table k) (he : HasEmpty o.table) :
    ∃ t o', SameButIc s t ∧ s.heap.cells p = some (.object o') ∧ o'.proto = o.proto ∧
      ∃ q, jelloObjectSlot o' k = some (none, q) ∧ q.proto = o.proto ∧
        t = { s with heap := s.heap.write p (.object q) } := by
  obtain ⟨m, hm⟩ := hok p o ho
  obtain ⟨o', ho', hic⟩ := object_of_withoutIc hsame ho
  have hentries := sameEntries_of_invalidateIc hic
  obtain ⟨q, hs, hq⟩ := slot_absent (k := k) (hm.congr hentries) (hentries.1 ▸ hk) (hentries.1 ▸ he)
  have hproto : o'.proto = o.proto := congrArg (fun o ↦ o.proto) hic
  have hproto' : q.proto = o'.proto := congrArg (fun o ↦ o.proto) hq
  exact ⟨_, o', sameButIc_write ho' hq, ho', hproto, q, hs, hproto'.trans hproto, rfl⟩

theorem walk_inherited (hok : ObjectsOk h) (hin : Inherited h k n p v)
    (hsame : s.heap.withoutIc = h.withoutIc) (hn : n < fuel) :
    ∃ t, result (protoWalk ctx k fuel p) s = .ok (some v, t) ∧ SameButIc s t := by
  induction hin generalizing s fuel with
  | @own p v o ho hv =>
    obtain ⟨m, hm⟩ := hok p o ho
    obtain ⟨o', ho', hic⟩ := object_of_withoutIc hsame ho
    have hentries := sameEntries_of_invalidateIc hic
    obtain ⟨i, q, hs, rfl, hq⟩ := slot_entry (hm.congr hentries) ((hentries.hasEntry k).mpr hv)
    obtain ⟨fuel, rfl⟩ := Nat.exists_eq_add_of_lt hn
    exact ⟨_, walk_found _ ho' hs, sameButIc_write ho' hq⟩
  | @missing p o ho hk he hend =>
    obtain ⟨t, o', ht, ho', -, q, hs, hq, rfl⟩ := walk_step hok hsame ho hk he
    obtain ⟨fuel, rfl⟩ := Nat.exists_eq_add_of_lt hn
    exact ⟨_, walk_ends _ ho' hs (hq.trans hend), ht⟩
  | @next p v o n ho hk he hmore hrest ih =>
    obtain ⟨t, o', ht, ho', -, q, hs, hq, rfl⟩ := walk_step hok hsame ho hk he
    obtain ⟨fuel, rfl⟩ := Nat.exists_eq_add_of_lt hn
    have hwalk := @walk_next ctx s p o' k q (n + 1 + fuel) ho' hs (hq ▸ hmore)
    have hheap := ht.heap
    obtain ⟨u, hu, hic⟩ := ih (s := { s with heap := s.heap.write p (.object q) })
      (hheap.symm.trans hsame) (show n < n + 1 + fuel by omega)
    rw [hq] at hwalk
    exact ⟨u, hwalk.trans hu, Eq.trans ht hic⟩

theorem walk_deeper (hok : ObjectsOk h) (hdeep : Deeper h k n p)
    (hsame : s.heap.withoutIc = h.withoutIc) :
    ∃ t, result (protoWalk ctx k n p) s = result (protoWalk ctx k 0 p) t ∧ SameButIc s t := by
  induction hdeep generalizing s with
  | zero p => exact ⟨s, rfl, rfl⟩
  | @next p o n ho hk he hmore hrest ih =>
    obtain ⟨t, o', ht, ho', -, q, hs, hq, rfl⟩ := walk_step hok hsame ho hk he
    have hwalk := @walk_next ctx s p o' k q n ho' hs (hq ▸ hmore)
    obtain ⟨u, hu, hic⟩ := ih (s := { s with heap := s.heap.write p (.object q) })
      (ht.heap.symm.trans hsame)
    rw [hq] at hwalk
    exact ⟨u, hwalk.trans hu, Eq.trans ht hic⟩

theorem sameEffect_walk_inherited (hok : ObjectsOk s.heap) (hin : Inherited s.heap k n p v)
    (hn : n < 1026) (r : ℕ) :
    SameEffect (getWalked ctx r k p) (vmStoreFromBoxed ctx.m ctx.fpu ctx.f ctx.rf r v) s := by
  obtain ⟨t, hwalk, hic⟩ := walk_inherited hok hin rfl hn
  refine sameEffect_iff.mpr ?_
  rw [getWalked, result_then hwalk]
  exact blind_vmStoreFromBoxed _ _ _ _ _ _ _ _ (Eq.symm hic)

theorem sameEffect_walk_deeper (hok : ObjectsOk s.heap) (hdeep : Deeper s.heap k 1026 p)
    (r : ℕ) :
    SameEffect (getWalked ctx r k p) (jelloVmTrap ctx .bounds "prototype chain too deep") s := by
  obtain ⟨t, hwalk, hic⟩ := walk_deeper hok hdeep rfl
  refine sameEffect_iff.mpr ?_
  rw [getWalked, result_bind, hwalk]
  exact blind_jelloVmTrap _ _ _ _ _ (Eq.symm hic)

end Chain

section Null

variable {ctx : Ctx} {ins dyn : JelloInsn} {s : Store}

/-- The trap of an access to a null object; its text names the instruction. -/
def NullTrap (x : StoreM Unit) (s : Store) : Prop :=
  ∃ msg, result x s =
    .ok ((),
      { s with
        trapCode := .nullDeref
        trapMsg := msg
        excPending := true
        excPayload := jelloMakeI32 TrapCode.nullDeref.code })

theorem nullTrap_getAtom (hp : load64 s.mem (ctx.rf.addr ins.rb) = 0) :
    NullTrap (opObjGetAtom ctx ins) s := by
  rw [NullTrap, opObjGetAtom, vmObjGetAtomTyped]
  simp only [result_bind, result_vmLoad64, vmLoadPtr, hp, Except.bind, if_true]
  exact ⟨_, rfl⟩

theorem nullTrap_setAtom (hp : load64 s.mem (ctx.rf.addr ins.rb) = 0) :
    NullTrap (opObjSetAtom ctx ins) s := by
  rw [NullTrap, opObjSetAtom, vmObjSetAtomTyped]
  simp only [result_bind, result_vmLoad64, vmLoadPtr, hp, Except.bind, if_true]
  exact ⟨_, rfl⟩

theorem nullTrap_hasAtom (hp : load64 s.mem (ctx.rf.addr ins.rb) = 0) :
    NullTrap (opObjHasAtom ctx ins) s := by
  rw [NullTrap, opObjHasAtom]
  simp only [result_bind, result_vmLoad64, vmLoadPtr, hp, Except.bind, if_true]
  exact ⟨_, rfl⟩

theorem nullTrap_has (hp : load64 s.mem (ctx.rf.addr dyn.rb) = 0) :
    NullTrap (opObjHas ctx dyn) s := by
  rw [NullTrap, opObjHas]
  simp only [result_bind, result_vmLoad64, vmLoadPtr, hp, Except.bind, if_true]
  exact ⟨_, rfl⟩

theorem get_null (hp : load64 s.mem (ctx.rf.addr dyn.rb) = 0) :
    result (opObjGet ctx dyn) s = .error .panic := by
  rw [opObjGet]
  simp only [result_bind, result_vmLoad64, vmLoadPtr, hp, Except.bind, if_true]
  rfl

theorem set_null (hp : load64 s.mem (ctx.rf.addr dyn.rb) = 0) :
    result (opObjSet ctx dyn) s = .error .panic := by
  rw [opObjSet]
  simp only [result_bind, result_vmLoad64, vmLoadPtr, hp, Except.bind, if_true]
  rfl

theorem NullTrap.not_sameEffect {x y : StoreM Unit} (hx : NullTrap x s)
    (hy : result y s = .error .panic) : ¬ SameEffect x y s := by
  obtain ⟨msg, hx⟩ := hx
  rw [SameEffect, effect, effect, hx, hy]
  intro h
  cases h

end Null

/-- How far the accesses with a key in the instruction, `ins`, and those with the key in a
register, `dyn`, agree. -/
structure AccessesAgree (ctx : Ctx) (ins dyn : JelloInsn) (s : Store) (p : JelloValue) : Prop where
  get : SameEffect (opObjGetAtom ctx ins) (opObjGet ctx dyn) s ↔ p ≠ 0
  set : p ≠ 0 → ¬ s.heap.FullUnderHint p ins.c.toUInt32 ins.imm →
    SameEffect (opObjSetAtom ctx ins) (opObjSet ctx dyn) s
  set_only : (∃ t, result (opObjSetAtom ctx ins) s = .ok ((), t)) →
    SameEffect (opObjSetAtom ctx ins) (opObjSet ctx dyn) s →
      p ≠ 0 ∧ ¬ s.heap.FullUnderHint p ins.c.toUInt32 ins.imm
  has : p ≠ 0 → SameEffect (opObjHasAtom ctx ins) (opObjHas ctx dyn) s
  has_null : p = 0 → NullTrap (opObjHasAtom ctx ins) s ∧ NullTrap (opObjHas ctx dyn) s
  /-- Both get the value of the first object of the chain that has the key. -/
  inherited : ctx.m.protoEnabled = true → ins.imm ≠ jelloAtomProto → p ≠ 0 →
    ∀ n v, n < 1026 → Inherited s.heap ins.imm n p v →
      SameEffect (opObjGetAtom ctx ins) (vmStoreFromBoxed ctx.m ctx.fpu ctx.f ctx.rf ins.ra v) s ∧
      SameEffect (opObjGet ctx dyn) (vmStoreFromBoxed ctx.m ctx.fpu ctx.f ctx.rf ins.ra v) s
  deeper : ctx.m.protoEnabled = true → ins.imm ≠ jelloAtomProto → p ≠ 0 →
    Deeper s.heap ins.imm 1026 p →
      SameEffect (opObjGetAtom ctx ins) (jelloVmTrap ctx .bounds "prototype chain too deep") s ∧
      SameEffect (opObjGet ctx dyn) (jelloVmTrap ctx .bounds "prototype chain too deep") s

/-- The accesses agree unless the object is null, or a write through a hint meets a full table. -/
theorem accesses_agree {ctx : Ctx} {ins dyn : JelloInsn} {s : Store}
    (hops : SameOperands ctx ins dyn s) (hok : ObjectsOk s.heap) (hfree : s.heap.FreeAbove)
    (hroom : s.heap.Room 1) :
    AccessesAgree ctx ins dyn s (load64 s.mem (ctx.rf.addr ins.rb)) := by
  have hnull (hp : load64 s.mem (ctx.rf.addr ins.rb) = 0) :
      load64 s.mem (ctx.rf.addr dyn.rb) = 0 := by
    rw [hops.b]
    exact hp
  refine ⟨⟨fun h hp ↦ ?_, sameEffect_get hops hok rfl⟩, sameEffect_set hops hok rfl, ?_, ?_, ?_,
    ?_, ?_⟩
  · exact (nullTrap_getAtom hp).not_sameEffect (get_null (hnull hp)) h
  · rintro ⟨t, ht⟩ hsame
    have hne : load64 s.mem (ctx.rf.addr ins.rb) ≠ 0 := fun hp ↦
      (nullTrap_setAtom hp).not_sameEffect (set_null (hnull hp)) hsame
    exact ⟨hne, fun hfull ↦ not_sameEffect_set hops hok hfree hroom rfl hne hfull ht hsame⟩
  · exact fun hne ↦ sameEffect_of_result (result_has hops rfl hne)
  · exact fun hp ↦ ⟨nullTrap_hasAtom hp, nullTrap_has (hnull hp)⟩
  · intro hon hk hne n v hn hin
    have hdyn := sameEffect_of_result (result_get_walked hops rfl hne ⟨hon, hk⟩)
    have hstore := hdyn.trans (sameEffect_walk_inherited hok hin hn ins.ra)
    exact ⟨(sameEffect_get hops hok rfl hne).trans hstore, hstore⟩
  · intro hon hk hne hdeep
    have hdyn := sameEffect_of_result (result_get_walked hops rfl hne ⟨hon, hk⟩)
    have htrap := hdyn.trans (sameEffect_walk_deeper hok hdeep ins.ra)
    exact ⟨(sameEffect_get hops hok rfl hne).trans htrap, htrap⟩

/-- A key in the instruction, and the same key in register 2. -/
def xGetAtom : JelloInsn := { op := .objGetAtom, a := 3, b := 0, c := 0, imm := 1 }

def xGet : JelloInsn := { op := .objGet, a := 3, b := 0, c := 2, imm := 0 }

def keyModule : JelloBcModule :=
  { protoModule with
    types := [⟨.object, 0⟩, ⟨.atom, 0⟩, ⟨.i32, 0⟩]
    atoms := [text "__proto__", text "x"]
    funcs :=
      [{ regTypes := [0, 0, 1, 2]
         capStart := 0
         insns := [xGetAtom, xGet, { op := .ret, a := 0, b := 0, c := 0, imm := 0 }]
         sourceFile := 0
         lines := [] }] }

def keyCtx : Ctx :=
  { m := keyModule
    fpu := default
    f := 0
    rf := (vmGetFrameLayout keyModule 0).frame 4096
    pc := 1 }

def keyStore : Store :=
  { linkedStore with mem := store32 linkedStore.mem (keyCtx.rf.addr 2) 1 }

theorem keyStore_get : SameEffect (opObjGetAtom keyCtx xGetAtom) (opObjGet keyCtx xGet) keyStore := by
  have hrun : ProtoRun protoModule KeepsProtoEntry linkedStore :=
    @protoRun_of_steps _ _ protoCtx protoInsns _ _ (protoRun_create _ _) rfl
  have hinv := protoInv_of_run (by decide) hrun
  have hops : SameOperands keyCtx xGetAtom xGet keyStore :=
    ⟨rfl, rfl, by decide +kernel, by decide⟩
  exact (accesses_agree hops (fun p o ho ↦ (hinv.objects p o ho).models) hinv.free
    (by decide +kernel)).get.mpr (by decide +kernel)

/-- A null object traps when the key is in the instruction, and aborts the machine when it is in
a register. -/
theorem null_get_panics : Accepted keyModule ∧
    NullTrap (opObjGetAtom keyCtx { xGetAtom with imm := 0 }) jelloVmCreate.store ∧
    result (opObjGet keyCtx xGet) jelloVmCreate.store = .error .panic ∧
    SameOperands keyCtx { xGetAtom with imm := 0 } xGet jelloVmCreate.store ∧
    ¬ SameEffect (opObjGetAtom keyCtx { xGetAtom with imm := 0 }) (opObjGet keyCtx xGet)
      jelloVmCreate.store := by
  have htrap : NullTrap (opObjGetAtom keyCtx { xGetAtom with imm := 0 }) jelloVmCreate.store :=
    nullTrap_getAtom rfl
  have hpanic : result (opObjGet keyCtx xGet) jelloVmCreate.store = .error .panic := get_null rfl
  exact ⟨by decide, htrap, hpanic, ⟨rfl, rfl, rfl, by decide⟩, htrap.not_sameEffect hpanic⟩

end JelloVM
