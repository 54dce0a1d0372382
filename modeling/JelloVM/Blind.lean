import JelloVM.Library.Coupled
import JelloVM.ObjectHeader
import JelloVM.ExecLoop

namespace JelloVM

open Function ByteMemory Logged

/-- The cell without the inline caches of an object. -/
def Cell.withoutIc : Cell → Cell
  | .object o => .object (jelloObjectInvalidateIc o)
  | c => c

def Heap.withoutIc (h : Heap) : Heap := { h with cells := fun p ↦ (h.cells p).map Cell.withoutIc }

def Store.withoutIc (s : Store) : Store := { s with heap := s.heap.withoutIc }

/-- The two states differ in inline caches at most. -/
def SameButIc (s t : Store) : Prop := s.withoutIc = t.withoutIc

section Blind

variable {α β : Type} {s t : Store}

theorem Heap.withoutIc_write (h : Heap) (p : JelloValue) (c : Cell) :
    (h.write p c).withoutIc = h.withoutIc.write p c.withoutIc := by
  simp only [Heap.withoutIc, Heap.write, Heap.mk.injEq, and_true]
  funext q
  by_cases hq : q = p
  · subst hq
    simp
  · simp [update_of_ne hq]

theorem Heap.withoutIc_alloc (h : Heap) (c : Cell) :
    (h.alloc c).2.withoutIc = (h.withoutIc.alloc c.withoutIc).2 := by
  have hwrite := congrArg Heap.cells (h.withoutIc_write h.next c)
  simp only [Heap.alloc]
  exact Heap.mk.injEq .. |>.mpr ⟨hwrite, rfl⟩

theorem SameButIc.heap (h : SameButIc s t) : s.heap.withoutIc = t.heap.withoutIc :=
  congrArg Store.heap h

theorem SameButIc.cells (h : SameButIc s t) (p : JelloValue) :
    (s.heap.cells p).map Cell.withoutIc = (t.heap.cells p).map Cell.withoutIc :=
  congrFun (congrArg Heap.cells h.heap) p

theorem SameButIc.next (h : SameButIc s t) : s.heap.next = t.heap.next :=
  congrArg (fun u ↦ u.heap.next) h

theorem SameButIc.mem (h : SameButIc s t) : s.mem = t.mem := congrArg (fun u ↦ u.mem) h

theorem SameButIc.write {c c' : Cell} (h : SameButIc s t) (p : JelloValue)
    (hc : c.withoutIc = c'.withoutIc) :
    SameButIc { s with heap := s.heap.write p c } { t with heap := t.heap.write p c' } := by
  have hheap : (s.heap.write p c).withoutIc = (t.heap.write p c').withoutIc := by
    rw [Heap.withoutIc_write, Heap.withoutIc_write, h.heap, hc]
  have hfields := congrArg (fun u : Store ↦ { u with heap := (s.heap.write p c).withoutIc }) h
  refine hfields.trans ?_
  change { t.withoutIc with heap := (s.heap.write p c).withoutIc } = _
  rw [hheap]
  rfl

/-- The program does not see the inline caches. -/
def Blind (x : StoreM α) : Prop := Coupled SameButIc Eq x x

theorem blind_bind {x : StoreM α} {f : α → StoreM β} (hx : Blind x) (hf : ∀ a, Blind (f a)) :
    Blind (x >>= f) :=
  coupled_bind hx fun a _ hab ↦ hab ▸ hf a

theorem blind_pure (a : α) : Blind (pure a) := coupled_pure rfl

theorem blind_fail (e : Fault) : Blind (fail e : StoreM α) := coupled_fail e

theorem blind_note (a : Access) : Blind (note a) := coupled_note a a

theorem blind_ite {b : Prop} [Decidable b] {x y : StoreM α} (hx : Blind x) (hy : Blind y) :
    Blind (if b then x else y) := coupled_ite hx hy

theorem blind_readMem (f : Mem → α) : Blind (read fun s ↦ f s.mem) :=
  coupled_read fun _ _ h ↦ congrArg f h.mem

theorem blind_changeMem (f : Mem → Mem) :
    Blind (change fun s ↦ { s with mem := f s.mem }) :=
  coupled_change fun s t h ↦ by
    have hmem := congrArg (fun u : Store ↦ { u with mem := f u.mem }) h
    exact hmem

theorem blind_loadU32 (rf : RegFrame) (r : ℕ) : Blind (vmLoadU32 rf r) :=
  blind_bind (blind_note _) fun _ ↦ blind_readMem fun m ↦ load32 m (rf.addr r)

theorem blind_load64 (rf : RegFrame) (r : ℕ) : Blind (vmLoad64 rf r) :=
  blind_bind (blind_note _) fun _ ↦ blind_readMem fun m ↦ load64 m (rf.addr r)

theorem blind_loadF16Bits (rf : RegFrame) (r : ℕ) : Blind (vmLoadF16Bits rf r) :=
  blind_bind (blind_loadU32 rf r) fun _ ↦ blind_pure _

theorem blind_storeU32 (rf : RegFrame) (r : ℕ) (v : UInt32) : Blind (vmStoreU32 rf r v) :=
  blind_bind (blind_note _) fun _ ↦ blind_changeMem fun m ↦ store32 m (rf.addr r) v

theorem blind_store64 (rf : RegFrame) (r : ℕ) (v : UInt64) : Blind (vmStore64 rf r v) :=
  blind_bind (blind_note _) fun _ ↦ blind_changeMem fun m ↦ store64 m (rf.addr r) v

theorem blind_regTypeOf (m : JelloBcModule) (f r : ℕ) : Blind (regTypeOf m f r) :=
  blind_bind (blind_note _) fun _ ↦ blind_pure _

theorem blind_regKind (m : JelloBcModule) (f r : ℕ) : Blind (vmRegKind m f r) :=
  blind_bind (blind_regTypeOf m f r) fun _ ↦
    blind_bind (blind_bind (blind_note _) fun _ ↦ blind_pure _) fun _ ↦ blind_pure _

theorem coupled_cellAt (p : JelloValue) :
    Coupled SameButIc (fun c c' ↦ c.withoutIc = c'.withoutIc) (cellAt p) (cellAt p) := by
  have hread : Coupled SameButIc (fun c c' ↦ c.map Cell.withoutIc = c'.map Cell.withoutIc)
      (read fun s ↦ s.heap.cells p : StoreM (Option Cell))
      (read fun s ↦ s.heap.cells p : StoreM (Option Cell)) :=
    coupled_read fun s t h ↦ h.cells p
  refine coupled_bind hread fun c c' hc ↦ ?_
  cases c with
  | none =>
    cases c' with
    | none => exact coupled_fail _
    | some c' => cases hc
  | some c =>
    cases c' with
    | none => cases hc
    | some c' => exact coupled_pure (Option.some.inj hc)

theorem blind_writeCell {c c' : Cell} (p : JelloValue) (hc : c.withoutIc = c'.withoutIc) :
    Coupled SameButIc Eq (writeCell p c) (writeCell p c') :=
  coupled_change fun _ _ h ↦ h.write p hc

theorem blind_gcAlloc (c : Cell) : Blind (gcAlloc c) := by
  refine blind_bind (coupled_read fun s t h ↦ h.next) fun p ↦ ?_
  refine blind_bind (coupled_change fun s t h ↦ ?_) fun _ ↦ blind_pure p
  have hheap : (s.heap.alloc c).2.withoutIc = (t.heap.alloc c).2.withoutIc := by
    rw [Heap.withoutIc_alloc, Heap.withoutIc_alloc, h.heap]
  have hfields := congrArg (fun u : Store ↦ { u with heap := (s.heap.alloc c).2.withoutIc }) h
  refine hfields.trans ?_
  change { t.withoutIc with heap := (s.heap.alloc c).2.withoutIc } = _
  rw [hheap]
  rfl

theorem eq_or_objects {c c' : Cell} (h : c.withoutIc = c'.withoutIc) :
    c = c' ∨ ∃ o o', c = .object o ∧ c' = .object o' ∧
      jelloObjectInvalidateIc o = jelloObjectInvalidateIc o' := by
  cases c with
  | object o =>
    cases c' with
    | object o' => exact .inr ⟨o, o', rfl, rfl, Cell.object.inj h⟩
    | _ => cases h
  | _ => cases c' <;> first | exact .inl h | cases h

theorem coupled_object {f : JelloObject → StoreM α} {g : JelloObject → StoreM β}
    {V : α → β → Prop} (p : JelloValue)
    (h : ∀ o o', jelloObjectInvalidateIc o = jelloObjectInvalidateIc o' →
      Coupled SameButIc V (f o) (g o')) :
    Coupled SameButIc V (objectAt p >>= f) (objectAt p >>= g) := by
  have hobject : Coupled SameButIc
      (fun o o' ↦ jelloObjectInvalidateIc o = jelloObjectInvalidateIc o')
      (objectAt p) (objectAt p) := by
    refine coupled_bind (coupled_cellAt p) fun c c' hc ↦ ?_
    obtain rfl | ⟨o, o', rfl, rfl, ho⟩ := eq_or_objects hc
    · cases c with
      | object o => exact coupled_pure rfl
      | _ => exact coupled_fail _
    · exact coupled_pure ho
  exact coupled_bind hobject h

theorem blind_boxI64At (v : JelloValue) : Blind (boxI64At v) := by
  refine blind_ite (blind_pure _) (coupled_bind (coupled_cellAt v) fun c c' hc ↦ ?_)
  obtain rfl | ⟨o, o', rfl, rfl, -⟩ := eq_or_objects hc
  · cases c <;> exact blind_pure _
  · exact blind_pure _

theorem blind_boxF64At (v : JelloValue) : Blind (boxF64At v) := by
  refine blind_ite (blind_pure _) (coupled_bind (coupled_cellAt v) fun c c' hc ↦ ?_)
  obtain rfl | ⟨o, o', rfl, rfl, -⟩ := eq_or_objects hc
  · cases c <;> exact blind_pure _
  · exact blind_pure _

theorem blind_boxF32At (v : JelloValue) : Blind (boxF32At v) := by
  refine blind_ite (blind_pure _) (coupled_bind (coupled_cellAt v) fun c c' hc ↦ ?_)
  obtain rfl | ⟨o, o', rfl, rfl, -⟩ := eq_or_objects hc
  · cases c <;> exact blind_pure _
  · exact blind_pure _

theorem blind_boxF16At (v : JelloValue) : Blind (boxF16At v) := by
  refine blind_ite (blind_pure _) (coupled_bind (coupled_cellAt v) fun c c' hc ↦ ?_)
  obtain rfl | ⟨o, o', rfl, rfl, -⟩ := eq_or_objects hc
  · cases c <;> exact blind_pure _
  · exact blind_pure _

theorem blind_cloneNumbox (v : JelloValue) : Blind (cloneNumbox v) := by
  intro s t h
  have hnone {u : Store} (hv : vmCloneNumbox v u.heap = none) :
      result (cloneNumbox v) u = .error .wild := by
    rw [cloneNumbox, result_bind, result_read, hv]
    rfl
  have hsome {u : Store} {w : JelloValue} {g : Heap} (hv : vmCloneNumbox v u.heap = some (w, g)) :
      result (cloneNumbox v) u = .ok (w, { u with heap := g }) := by
    rw [cloneNumbox, result_bind, result_read, hv]
    rfl
  have hout (u : Store) : result (cloneNumbox v) u =
      result (if jelloIsPtr v then do
          let c ← cellAt v
          if c.isNumbox then gcAlloc c else pure v
        else pure v) u := by
    cases hp : jelloIsPtr v with
    | false => exact hsome (by simp [vmCloneNumbox, hp])
    | true =>
      cases hc : u.heap.cells v with
      | none =>
        rw [hnone (by simp [vmCloneNumbox, hp, hc]), if_pos rfl, cellAt, result_bind, result_bind,
          result_read, hc]
        rfl
      | some c =>
        rw [if_pos rfl, cellAt, result_bind, result_bind, result_read, hc]
        cases hn : c.isNumbox with
        | false =>
          rw [hsome (by simp only [vmCloneNumbox, hp, hc, hn]; rfl)]
          simp [Except.bind, hn]
        | true =>
          rw [hsome (by simp only [vmCloneNumbox, hp, hc, hn]; rfl)]
          simp only [Except.bind, result_pure, hn, if_true]
          rfl
  rw [hout, hout]
  refine coupled_ite (coupled_bind (coupled_cellAt v) fun c c' hc ↦ ?_) (coupled_pure rfl) s t h
  obtain rfl | ⟨o, o', rfl, rfl, -⟩ := eq_or_objects hc
  · exact blind_ite (blind_gcAlloc c) (blind_pure v)
  · exact blind_pure v

theorem blind_vmBoxFromTyped (m : JelloBcModule) (f : ℕ) (rf : RegFrame) (r : ℕ) :
    Blind (vmBoxFromTyped m f rf r) := by
  refine blind_bind (blind_regKind m f r) fun k ↦ ?_
  have htype := blind_regTypeOf m f r
  cases k with
  | i8 | i16 | i32 | bool | atom => exact blind_bind (blind_loadU32 rf r) fun _ ↦ blind_pure _
  | f32 => exact blind_bind htype fun _ ↦ blind_bind (blind_loadU32 rf r) fun _ ↦ blind_gcAlloc _
  | f16 =>
    exact blind_bind htype fun _ ↦ blind_bind (blind_loadF16Bits rf r) fun _ ↦ blind_gcAlloc _
  | i64 | f64 =>
    exact blind_bind htype fun _ ↦ blind_bind (blind_load64 rf r) fun _ ↦ blind_gcAlloc _
  | dynamic => exact blind_load64 rf r
  | bytes | function | list | array | object | abstract | enum =>
    exact blind_bind (blind_load64 rf r) fun _ ↦ blind_pure _

theorem blind_boxForSlot (ctx : Ctx) (r : ℕ) : Blind (boxForSlot ctx r) := by
  refine blind_bind (blind_vmBoxFromTyped ctx.m ctx.f ctx.rf r) fun v ↦ ?_
  refine blind_bind (blind_regKind ctx.m ctx.f r) fun k ↦ ?_
  exact blind_ite (blind_cloneNumbox v) (blind_pure v)

theorem blind_overwrite {x : StoreM α} (v w : JelloValue) (f : UInt32 → α → Cell)
    (hx : Blind x) :
    Blind (do
      let c ← cellAt v
      let a ← x
      writeCell v (f c.typeId a)
      pure (some w)) := by
  refine coupled_bind (coupled_cellAt v) fun c c' hc ↦ ?_
  have htype : c.typeId = c'.typeId := by
    obtain rfl | ⟨o, o', rfl, rfl, ho⟩ := eq_or_objects hc
    · rfl
    · exact congrArg (fun o ↦ o.typeId) ho
  rw [htype]
  exact blind_bind hx fun a ↦ blind_bind (blind_writeCell v rfl) fun _ ↦ blind_pure _

theorem blind_vmStoreNumInplace (m : JelloBcModule) (f : ℕ) (rf : RegFrame) (r : ℕ)
    (v : JelloValue) : Blind (vmStoreNumInplace m f rf r v) := by
  refine blind_bind (blind_regKind m f r) fun k ↦ ?_
  cases k with
  | f64 =>
    refine blind_bind (blind_boxF64At v) fun x ↦ ?_
    cases x with
    | none => exact blind_pure _
    | some x => exact blind_overwrite v v Cell.boxF64 (blind_load64 rf r)
  | f32 =>
    refine blind_bind (blind_boxF32At v) fun x ↦ ?_
    cases x with
    | none => exact blind_pure _
    | some x => exact blind_overwrite v v Cell.boxF32 (blind_loadU32 rf r)
  | f16 =>
    refine blind_bind (blind_boxF16At v) fun x ↦ ?_
    cases x with
    | none => exact blind_pure _
    | some x => exact blind_overwrite v v Cell.boxF16 (blind_loadF16Bits rf r)
  | i64 =>
    refine blind_bind (blind_boxI64At v) fun x ↦ ?_
    cases x with
    | none => exact blind_pure _
    | some x => exact blind_overwrite v v Cell.boxI64 (blind_load64 rf r)
  | i8 | i16 | i32 =>
    refine blind_ite (blind_bind (blind_loadU32 rf r) fun _ ↦ blind_pure _) ?_
    refine blind_bind (blind_boxI64At v) fun x ↦ ?_
    cases x <;> exact blind_pure _
  | bool | atom | dynamic | bytes | function | list | array | object | abstract | enum =>
    exact blind_pure _

theorem blind_vmStoreFromBoxed (m : JelloBcModule) (fpu : Fpu) (f : ℕ) (rf : RegFrame) (r : ℕ)
    (v : JelloValue) : Blind (vmStoreFromBoxed m fpu f rf r v) := by
  refine blind_bind (blind_regKind m f r) fun k ↦ ?_
  cases k with
  | i8 | i16 | i32 =>
    refine blind_ite (blind_storeU32 rf r _) (blind_ite (blind_storeU32 rf r _) ?_)
    refine blind_bind (blind_boxF64At v) fun x ↦ ?_
    cases x with
    | some x => exact blind_storeU32 rf r _
    | none =>
      refine blind_bind (blind_boxI64At v) fun y ↦ ?_
      cases y with
      | some y => exact blind_storeU32 rf r _
      | none => exact blind_fail _
  | f32 =>
    refine blind_ite (blind_storeU32 rf r _) (blind_ite (blind_storeU32 rf r _) ?_)
    refine blind_bind (blind_boxF64At v) fun x ↦ ?_
    cases x with
    | some x => exact blind_storeU32 rf r _
    | none =>
      refine blind_bind (blind_boxF32At v) fun y ↦ ?_
      cases y with
      | some y => exact blind_storeU32 rf r _
      | none => exact blind_fail _
  | f16 =>
    refine blind_ite (blind_storeU32 rf r _) (blind_ite (blind_storeU32 rf r _) ?_)
    refine blind_bind (blind_boxF64At v) fun x ↦ ?_
    cases x with
    | some x => exact blind_storeU32 rf r _
    | none =>
      refine blind_bind (blind_boxF16At v) fun y ↦ ?_
      cases y with
      | some y => exact blind_storeU32 rf r _
      | none => exact blind_fail _
  | i64 =>
    refine blind_ite (blind_store64 rf r _) (blind_ite (blind_store64 rf r _) ?_)
    refine blind_bind (blind_boxF64At v) fun x ↦ ?_
    cases x with
    | some x => exact blind_store64 rf r _
    | none =>
      refine blind_bind (blind_boxI64At v) fun y ↦ ?_
      cases y with
      | some y => exact blind_store64 rf r _
      | none => exact blind_fail _
  | f64 =>
    refine blind_ite (blind_store64 rf r _) (blind_ite (blind_store64 rf r _) ?_)
    refine blind_bind (blind_boxF32At v) fun x ↦ ?_
    cases x with
    | some x => exact blind_store64 rf r _
    | none =>
      refine blind_bind (blind_boxF64At v) fun y ↦ ?_
      cases y with
      | some y => exact blind_store64 rf r _
      | none => exact blind_fail _
  | bool => exact blind_ite (blind_fail _) (blind_storeU32 rf r _)
  | atom => exact blind_ite (blind_fail _) (blind_storeU32 rf r _)
  | dynamic => exact blind_bind (blind_cloneNumbox v) fun w ↦ blind_store64 rf r w
  | bytes | function | list | array | object | abstract | enum =>
    exact blind_ite (blind_store64 rf r _) (blind_ite (blind_fail _) (blind_store64 rf r _))

theorem blind_jelloVmTrap (ctx : Ctx) (code : TrapCode) (msg : String) :
    Blind (jelloVmTrap ctx code msg) :=
  coupled_change fun s t h ↦ by
    have htrap := congrArg (fun u : Store ↦
      { u with
        trapCode := code
        trapMsg := some (maybePrefixTrapLocation ctx (text msg))
        excPending := true
        excPayload := jelloMakeI32 code.code }) h
    exact htrap

theorem invalidateIc_writeSlot {o o' : JelloObject} (i : UInt32) (v : JelloValue)
    (h : jelloObjectInvalidateIc o = jelloObjectInvalidateIc o') :
    jelloObjectInvalidateIc (writeSlot o i v) = jelloObjectInvalidateIc (writeSlot o' i v) :=
  congrArg (fun o ↦ writeSlot o i v) h

theorem blind_objUpdateProtoCache (m : JelloBcModule) (p v : JelloValue) :
    Blind (objUpdateProtoCache m p v) := by
  have hset {o o' : JelloObject} (h : jelloObjectInvalidateIc o = jelloObjectInvalidateIc o')
      (q : JelloValue) : Coupled SameButIc Eq (writeCell p (.object { o with proto := q }))
        (writeCell p (.object { o' with proto := q })) := by
    have hproto := congrArg (fun o : JelloObject ↦ { o with proto := q }) h
    exact blind_writeCell p (congrArg Cell.object hproto)
  refine blind_ite (blind_pure _) (coupled_object p fun o o' ho ↦ ?_)
  refine coupled_ite (coupled_bind (coupled_cellAt v) fun c c' hc ↦ ?_) (hset ho 0)
  obtain rfl | ⟨q, q', rfl, rfl, -⟩ := eq_or_objects hc
  · cases c with
    | object q => exact hset ho v
    | _ => exact hset ho 0
  · exact hset ho v

theorem blind_objStoreSlot (ctx : Ctx) (r : ℕ) (p : JelloValue) (k i : UInt32) :
    Blind (objStoreSlot ctx r p k i) := by
  refine blind_bind (blind_boxForSlot ctx r) fun v ↦ coupled_object p fun o o' ho ↦ ?_
  have hcell := congrArg Cell.object (invalidateIc_writeSlot i v ho)
  refine coupled_bind (blind_writeCell p hcell) fun _ _ _ ↦ ?_
  exact blind_ite (blind_objUpdateProtoCache ctx.m p v) (blind_pure _)

theorem blind_objStoreTyped (ctx : Ctx) (r : ℕ) (p : JelloValue) (k i : UInt32) (existed : Bool) :
    Blind (objStoreTyped ctx r p k i existed) := by
  refine blind_ite (coupled_object p fun o o' ho ↦ ?_) (blind_objStoreSlot ctx r p k i)
  have hval : o.vals i.toNat = o'.vals i.toNat := congrArg (fun o ↦ o.vals i.toNat) ho
  rw [hval]
  refine blind_bind (blind_vmStoreNumInplace _ _ _ _ _) fun w ↦ ?_
  cases w with
  | none => exact blind_objStoreSlot ctx r p k i
  | some w =>
    refine coupled_object p fun q q' hq ↦ blind_writeCell p ?_
    exact congrArg Cell.object (invalidateIc_writeSlot i w hq)

end Blind

end JelloVM
