import JelloVM.ObjectHeader
import JelloVM.SlotStore

namespace JelloVM

open Function ByteMemory Logged OpenAddressing

def Heap.IsObject (h : Heap) (q : JelloValue) : Prop := ∃ o, h.cells q = some (.object o)

/-- The prototype of an object is the object under the key of the prototype, and null when the
key holds none. -/
def Heap.Mirrored (h : Heap) : Prop :=
  ∀ p o, h.cells p = some (.object o) → ∀ q, q ≠ 0 →
    (o.proto = q ↔ o.HasEntry jelloAtomProto q ∧ jelloIsPtr q = true ∧ h.IsObject q)

/-- Nothing lies at or after the address that is handed out next. -/
def Heap.FreeAbove (h : Heap) : Prop := ∀ q, h.next.toNat ≤ q.toNat → h.cells q = none

/-- The heap after changes that leave the objects alone. -/
structure ObjectsKept (h h' : Heap) : Prop where
  objects : ∀ p o, h'.cells p = some (.object o) ↔ h.cells p = some (.object o)
  keeps : ∀ p, (h.cells p).isSome → (h'.cells p).isSome
  next : h.next.toNat ≤ h'.next.toNat
  free : h'.FreeAbove

/-- Objects keep their entries and their prototypes. -/
structure SameObjects (h h' : Heap) : Prop where
  cells : ∀ p o', h'.cells p = some (.object o') →
    ∃ o, h.cells p = some (.object o) ∧ SameEntries o o' ∧ o'.proto = o.proto
  objects : ∀ p, h.IsObject p → h'.IsObject p
  keeps : ∀ p, (h.cells p).isSome → (h'.cells p).isSome
  free : h'.FreeAbove

/-- The object agrees with its entry for the prototype, in the heap. -/
structure ProtoOk (h : Heap) (o : JelloObject) : Prop where
  models : ∃ m, Models o m
  proto : ∀ q, q ≠ 0 →
    (o.proto = q ↔ o.HasEntry jelloAtomProto q ∧ jelloIsPtr q = true ∧ h.IsObject q)
  stored : ∀ q, q ≠ 0 → o.HasEntry jelloAtomProto q → jelloIsPtr q = true → (h.cells q).isSome

/-- What a run keeps. -/
structure ProtoInv (h : Heap) : Prop where
  objects : ∀ p o, h.cells p = some (.object o) → ProtoOk h o
  free : h.FreeAbove

section Heaps

variable {h h' h'' : Heap} {p q v : JelloValue} {o o' : JelloObject} {c : Cell}

theorem ProtoInv.mirrored (hi : ProtoInv h) : h.Mirrored := fun p o hp ↦ (hi.objects p o hp).proto

theorem Heap.FreeAbove.lt (hf : h.FreeAbove) (hp : (h.cells p).isSome) :
    p.toNat < h.next.toNat := by
  refine Nat.lt_of_not_le fun hle ↦ ?_
  rw [hf p hle] at hp
  exact Bool.false_ne_true hp

theorem Heap.FreeAbove.write (hf : h.FreeAbove) (hp : (h.cells p).isSome) (c : Cell) :
    (h.write p c).FreeAbove := by
  intro q hq
  have hqp : q ≠ p := by
    rintro rfl
    exact absurd (hf.lt hp) (Nat.not_lt.mpr hq)
  rw [Heap.write_of_ne hqp]
  exact hf q hq

theorem ObjectsKept.refl (hf : h.FreeAbove) : ObjectsKept h h := ⟨fun _ _ ↦ Iff.rfl, fun _ ↦ id, le_rfl, hf⟩

theorem ObjectsKept.trans (h₁ : ObjectsKept h h') (h₂ : ObjectsKept h' h'') : ObjectsKept h h'' :=
  ⟨fun p o ↦ (h₂.objects p o).trans (h₁.objects p o), fun p hp ↦ h₂.keeps p (h₁.keeps p hp),
    h₁.next.trans h₂.next, h₂.free⟩

theorem ObjectsKept.isObject_iff (hg : ObjectsKept h h') : h'.IsObject q ↔ h.IsObject q :=
  exists_congr fun o ↦ hg.objects q o

theorem ObjectsKept.sameObjects (hg : ObjectsKept h h') : SameObjects h h' where
  cells p o' ho' := ⟨o', (hg.objects p o').mp ho', .refl o', rfl⟩
  objects _ := hg.isObject_iff.mpr
  keeps := hg.keeps
  free := hg.free

theorem objectsKept_write {y n : Num} (hf : h.FreeAbove) (hv : h.numAt v = some y)
    (hc : c.num = some n) : ObjectsKept h (h.write v c) := by
  obtain ⟨-, c', hc', hy⟩ := numAt_eq_some.mp hv
  refine ⟨fun p o ↦ ?_, fun p hp ↦ ?_, le_rfl, hf.write (by rw [hc']; rfl) c⟩
  · by_cases hpv : p = v
    · subst hpv
      rw [Heap.write_self, hc']
      constructor
      · rintro ⟨⟩
        cases hc
      · rintro ⟨⟩
        cases hy
    · rw [Heap.write_of_ne hpv]
  · by_cases hpv : p = v
    · subst hpv
      rw [Heap.write_self]
      rfl
    · rwa [Heap.write_of_ne hpv]

/-- The address space is not used up. -/
def Heap.Room (h : Heap) (n : ℕ) : Prop := h.next.toNat + 16 * n < 2 ^ 64

theorem Heap.alloc_of_ne (hne : q ≠ h.next) (c : Cell) : (h.alloc c).2.cells q = h.cells q :=
  update_of_ne hne _ _

theorem alloc_next_toNat {n : ℕ} (hr : h.Room n) (hn : 0 < n) (c : Cell) :
    (h.alloc c).2.next.toNat = h.next.toNat + 16 := by
  unfold Heap.Room at hr
  change (h.next + 16).toNat = _
  rw [UInt64.toNat_add]
  exact Nat.mod_eq_of_lt (by change _ + 16 < _; omega)

theorem Heap.FreeAbove.alloc {n : ℕ} (hf : h.FreeAbove) (hr : h.Room n) (hn : 0 < n) (c : Cell) :
    (h.alloc c).2.FreeAbove := by
  intro q hq
  rw [alloc_next_toNat hr hn] at hq
  have hne : q ≠ h.next := by
    rintro rfl
    omega
  exact (update_of_ne hne _ _).trans (hf q (by omega))

theorem objectsKept_alloc {n : ℕ} (hf : h.FreeAbove) (hr : h.Room n) (hn : 0 < n)
    (hc : ∀ o, c ≠ .object o) : ObjectsKept h (h.alloc c).2 := by
  have hnone : h.cells h.next = none := hf _ le_rfl
  refine ⟨fun p o ↦ ?_, fun p hp ↦ ?_, ?_, hf.alloc hr hn c⟩
  · by_cases hpn : p = h.next
    · subst hpn
      rw [hnone]
      simp [Heap.alloc, hc o]
    · change update h.cells h.next (some c) p = _ ↔ _
      rw [update_of_ne hpn]
  · change (update h.cells h.next (some c) p).isSome
    by_cases hpn : p = h.next
    · subst hpn
      rw [update_self]
      rfl
    · rwa [update_of_ne hpn]
  · rw [alloc_next_toNat hr hn]
    exact Nat.le_add_right _ _

theorem SameEntries.hasEntry (hs : SameEntries o o') (k : UInt32) :
    o'.HasEntry k v ↔ o.HasEntry k v := by
  unfold JelloObject.HasEntry
  rw [hs.1]

theorem ProtoInv.same (hi : ProtoInv h) (hs : SameObjects h h') : ProtoInv h' := by
  refine ⟨fun p o' hp ↦ ?_, hs.free⟩
  obtain ⟨o, ho, hsame, hproto⟩ := hs.cells p o' hp
  obtain ⟨⟨m, hm⟩, hok, hstored⟩ := hi.objects p o ho
  have hback : ∀ q, q ≠ 0 → o.HasEntry jelloAtomProto q → jelloIsPtr q = true →
      h'.IsObject q → h.IsObject q := fun q _ _ _ ⟨o₁, ho₁⟩ ↦
    ⟨_, (hs.cells q o₁ ho₁).choose_spec.1⟩
  refine ⟨⟨m, hm.congr hsame⟩, fun q hq ↦ ?_, fun q hq hentry hptr ↦ ?_⟩
  · rw [hproto, hok q hq, hsame.hasEntry]
    constructor
    · rintro ⟨hentry, hptr, hobj⟩
      exact ⟨hentry, hptr, hs.objects q hobj⟩
    · rintro ⟨hentry, hptr, hobj⟩
      exact ⟨hentry, hptr, hback q hq hentry hptr hobj⟩
  · rw [hsame.hasEntry] at hentry
    exact hs.keeps q (hstored q hq hentry hptr)

theorem ProtoInv.write (hi : ProtoInv h) (hp : h.IsObject p) (ho : ProtoOk h o) :
    ProtoInv (h.write p (.object o)) := by
  obtain ⟨o₀, hcell⟩ := hp
  have hobj (q : JelloValue) : (h.write p (.object o)).IsObject q ↔ h.IsObject q := by
    by_cases hqp : q = p
    · subst hqp
      exact iff_of_true ⟨o, Heap.write_self _ _ _⟩ ⟨o₀, hcell⟩
    · simp only [Heap.IsObject, Heap.write_of_ne hqp]
  have hsome (q : JelloValue) (hq : (h.cells q).isSome) :
      ((h.write p (.object o)).cells q).isSome := by
    by_cases hqp : q = p
    · subst hqp
      rw [Heap.write_self]
      rfl
    · rwa [Heap.write_of_ne hqp]
  have hok (o₁ : JelloObject) (h₁ : ProtoOk h o₁) : ProtoOk (h.write p (.object o)) o₁ :=
    ⟨h₁.models, fun q hq ↦ by rw [h₁.proto q hq, hobj],
      fun q hq hentry hptr ↦ hsome q (h₁.stored q hq hentry hptr)⟩
  refine ⟨fun q o₁ hq ↦ ?_, hi.free.write (by rw [hcell]; rfl) _⟩
  by_cases hqp : q = p
  · subst hqp
    obtain rfl : o = o₁ := by simpa [Heap.write_self] using hq
    exact hok o ho
  · rw [Heap.write_of_ne hqp] at hq
    exact hok o₁ (hi.objects q o₁ hq)

theorem ProtoInv.alloc {n : ℕ} (hi : ProtoInv h) (hr : h.Room n) (hn : 0 < n)
    (hm : Models o fun _ ↦ none) (hproto : o.proto = 0) :
    ProtoInv (h.alloc (.object o)).2 := by
  have hnone : h.cells h.next = none := hi.free _ le_rfl
  refine ⟨fun p o₁ hp ↦ ?_, hi.free.alloc hr hn _⟩
  by_cases hpn : p = h.next
  · subst hpn
    obtain rfl : o = o₁ := by simpa [Heap.alloc] using hp
    have hempty (q : JelloValue) : ¬ o.HasEntry jelloAtomProto q := fun hentry ↦
      absurd (hm.hasEntry_iff.mp hentry) (Option.some_ne_none q).symm
    refine ⟨⟨_, hm⟩, fun q hq ↦ ?_, fun q _ hentry ↦ absurd hentry (hempty q)⟩
    exact iff_of_false (fun hqp ↦ hq (hqp ▸ hproto)) fun hq' ↦ hempty q hq'.1
  · rw [Heap.alloc_of_ne hpn] at hp
    have hok := hi.objects p o₁ hp
    have hne {q : JelloValue} (hq : q ≠ 0) (hentry : o₁.HasEntry jelloAtomProto q)
        (hptr : jelloIsPtr q = true) : q ≠ h.next := by
      rintro rfl
      have hstored := hok.stored _ hq hentry hptr
      rw [hnone] at hstored
      exact Bool.false_ne_true hstored
    refine ⟨hok.models, fun q hq ↦ ?_, fun q hq hentry hptr ↦ ?_⟩
    · rw [hok.proto q hq]
      refine and_congr_right fun hentry ↦ and_congr_right fun hptr ↦ ?_
      simp only [Heap.IsObject, Heap.alloc_of_ne (hne hq hentry hptr)]
    · rw [Heap.alloc_of_ne (hne hq hentry hptr)]
      exact hok.stored q hq hentry hptr

end Heaps

section Programs

variable {ctx : Ctx} {ins : JelloInsn} {s : Store} {m : JelloBcModule} {f r : ℕ} {rf : RegFrame}
  {v p : JelloValue} {o : JelloObject} {k i : UInt32}

theorem ends_gcAlloc_box {c : Cell} (hf : s.heap.FreeAbove) (hr : s.heap.Room 1)
    (hc : ∀ o, c ≠ .object o) : Ends (gcAlloc c) (fun _ s' ↦ ObjectsKept s.heap s'.heap) s :=
  spec_gcAlloc.mpr (objectsKept_alloc hf hr Nat.one_pos hc)

theorem ends_vmBoxFromTyped_kept (hf : s.heap.FreeAbove) (hr : s.heap.Room 1) :
    Ends (vmBoxFromTyped m f rf r) (fun _ s' ↦ ObjectsKept s.heap s'.heap ∧
      (regKind m f r = .dynamic → s' = s)) s := by
  have hsame := ObjectsKept.refl hf
  refine spec_bind.mpr (spec_vmRegKind.mpr ⟨trivial, trivial, ?_⟩)
  cases hk : regKind m f r
  case f32 | f16 | i64 | f64 =>
    simp only [spec_bind, spec_regTypeOf, spec_vmLoadF32, spec_vmLoadF16Bits, spec_vmLoadI64,
      spec_vmLoadF64, true_and, jelloBoxF32New, jelloBoxF16New, jelloBoxI64New, jelloBoxF64New,
      reduceCtorEq, false_implies, and_true]
    exact ends_gcAlloc_box hf hr (by simp)
  all_goals
    simp only [spec_bind, spec_vmLoadU32, spec_vmLoadVal, spec_vmLoadPtr, spec_pure, true_and]
    exact ⟨hsame, fun _ ↦ trivial⟩

theorem ends_cloneNumbox_kept (hf : s.heap.FreeAbove) (hr : s.heap.Room 1) :
    Ends (cloneNumbox v) (fun _ s' ↦ ObjectsKept s.heap s'.heap) s := by
  refine spec_bind.mpr ((spec_read _).mpr ?_)
  cases hc : vmCloneNumbox v s.heap with
  | none => exact spec_fail _
  | some w =>
    refine spec_bind.mpr ((spec_change _).mpr ((spec_pure _).mpr ?_))
    unfold vmCloneNumbox at hc
    split_ifs at hc with hp
    · rw [← Option.some.inj hc]
      exact .refl hf
    · cases hcell : s.heap.cells v with
      | none => simp [hcell] at hc
      | some c =>
        simp only [hcell] at hc
        split_ifs at hc with hbox
        · rw [← Option.some.inj hc]
          refine objectsKept_alloc hf hr Nat.one_pos fun o ho ↦ ?_
          rw [ho] at hbox
          exact Bool.false_ne_true hbox
        · rw [← Option.some.inj hc]
          exact .refl hf

theorem ends_boxForSlot_kept (hf : s.heap.FreeAbove) (hr : s.heap.Room 1) :
    Ends (boxForSlot ctx r) (fun _ s' ↦ ObjectsKept s.heap s'.heap) s := by
  refine spec_bind.mpr ((ends_vmBoxFromTyped_kept hf hr).mono fun v s' hs ↦ ?_)
  refine spec_bind.mpr (spec_vmRegKind.mpr ⟨trivial, trivial, spec_ite.mpr ⟨fun hk ↦ ?_, fun _ ↦ ?_⟩⟩)
  · obtain rfl := hs.2 hk
    exact ends_cloneNumbox_kept hf hr
  · exact (spec_pure _).mpr hs.1

theorem ends_writeBox_kept {α : Type} {x : StoreM α} {box : UInt32 → α → Cell} {y : Num}
    (hf : s.heap.FreeAbove) (hx : Ends x (fun _ s' ↦ s' = s) s) (hv : s.heap.numAt v = some y)
    (hbox : ∀ t a, ∃ n, (box t a).num = some n) :
    Ends (do
      let c ← cellAt v
      let a ← x
      writeCell v (box c.typeId a)
      pure (some v)) (fun _ s' ↦ ObjectsKept s.heap s'.heap ∧ s'.heap.next = s.heap.next) s := by
  refine spec_bind.mpr (spec_cellAt fun c _ ↦ spec_bind.mpr (hx.mono ?_))
  rintro a s' rfl
  obtain ⟨n, hn⟩ := hbox c.typeId a
  refine spec_bind.mpr (spec_writeCell.mpr ((spec_pure _).mpr ?_))
  exact ⟨objectsKept_write hf hv hn, rfl⟩

theorem ends_vmStoreNumInplace_kept (hf : s.heap.FreeAbove) :
    Ends (vmStoreNumInplace m f rf r v)
      (fun _ s' ↦ ObjectsKept s.heap s'.heap ∧ s'.heap.next = s.heap.next) s := by
  have hsame : ObjectsKept s.heap s.heap ∧ s.heap.next = s.heap.next := ⟨.refl hf, rfl⟩
  refine spec_bind.mpr (spec_vmRegKind.mpr ⟨trivial, trivial, ?_⟩)
  cases regKind m f r
  case f64 =>
    refine spec_bind.mpr (ends_boxF64At ?_)
    rcases hw : (s.heap.numAt v).bind Num.asF64 with _ | a
    · exact (spec_pure _).mpr hsame
    · obtain ⟨y, hy, -⟩ := Option.bind_eq_some_iff.mp hw
      exact ends_writeBox_kept hf (spec_vmLoadF64.mpr ⟨trivial, rfl⟩) hy fun _ a ↦ ⟨.f64 a, rfl⟩
  case f32 =>
    refine spec_bind.mpr (ends_boxF32At ?_)
    rcases hw : (s.heap.numAt v).bind Num.asF32 with _ | a
    · exact (spec_pure _).mpr hsame
    · obtain ⟨y, hy, -⟩ := Option.bind_eq_some_iff.mp hw
      exact ends_writeBox_kept hf (spec_vmLoadF32.mpr ⟨trivial, rfl⟩) hy fun _ a ↦ ⟨.f32 a, rfl⟩
  case f16 =>
    refine spec_bind.mpr (ends_boxF16At ?_)
    rcases hw : (s.heap.numAt v).bind Num.asF16 with _ | a
    · exact (spec_pure _).mpr hsame
    · obtain ⟨y, hy, -⟩ := Option.bind_eq_some_iff.mp hw
      exact ends_writeBox_kept hf (spec_vmLoadF16Bits.mpr ⟨trivial, rfl⟩) hy fun _ a ↦ ⟨.f16 a, rfl⟩
  case i64 =>
    refine spec_bind.mpr (ends_boxI64At ?_)
    rcases hw : (s.heap.numAt v).bind Num.asI64 with _ | a
    · exact (spec_pure _).mpr hsame
    · obtain ⟨y, hy, -⟩ := Option.bind_eq_some_iff.mp hw
      exact ends_writeBox_kept hf (spec_vmLoadI64.mpr ⟨trivial, rfl⟩) hy fun _ a ↦ ⟨.i64 a, rfl⟩
  case i8 | i16 | i32 =>
    simp only [spec_ite, spec_bind, spec_vmLoadU32, spec_pure, true_and]
    refine ⟨fun _ ↦ ⟨hsame.1, trivial⟩, fun _ ↦ spec_boxI64At fun x ↦ ?_⟩
    cases x <;> exact (spec_pure _).mpr hsame
  all_goals exact (spec_pure _).mpr hsame

/-- What the store of an entry leaves: the entry has a new value, and if it is the entry for the
prototype, the prototype is that value if it is an object, and otherwise null. -/
def Stores (protoEnabled : Bool) (k i : UInt32) (p : JelloValue) (o : JelloObject)
    (h h' : Heap) : Prop :=
  ∃ v h₁ o', ObjectsKept h h₁ ∧ h' = h₁.write p (.object o') ∧
    SameEntries (writeSlot o i v) o' ∧ (k ≠ jelloAtomProto → o'.proto = o.proto) ∧
    (k = jelloAtomProto → protoEnabled = true →
      (jelloIsPtr v = true → v ≠ 0 → (h₁.cells v).isSome) ∧
        ∀ q, q ≠ 0 → (o'.proto = q ↔ q = v ∧ jelloIsPtr q = true ∧ h₁.IsObject q))

theorem ends_objUpdateProtoCache_proto (hm : m.protoEnabled = true)
    (ho : s.heap.cells p = some (.object o)) :
    Ends (objUpdateProtoCache m p v) (fun _ s' ↦ ∃ o', SameEntries o o' ∧
      s'.heap = s.heap.write p (.object o') ∧
      (jelloIsPtr v = true → v ≠ 0 → (s.heap.cells v).isSome) ∧
      ∀ q, q ≠ 0 → (o'.proto = q ↔ q = v ∧ jelloIsPtr q = true ∧ s.heap.IsObject q)) s := by
  simp only [objUpdateProtoCache, hm, Bool.not_true, Bool.false_eq_true, if_false, spec_bind]
  refine ends_objectAt_of ho (spec_ite.mpr ⟨fun hv ↦ ?_, fun hv ↦ spec_writeCell.mpr ?_⟩)
  · refine spec_bind.mpr (spec_cellAt fun c hc ↦ ?_)
    have hsome : (s.heap.cells v).isSome := by
      rw [hc]
      rfl
    cases c
    case object o₁ =>
      refine spec_writeCell.mpr
        ⟨{ o with proto := v }, ⟨rfl, rfl⟩, rfl, fun _ _ ↦ hsome, fun q _ ↦ ?_⟩
      constructor
      · rintro rfl
        exact ⟨rfl, hv.1, o₁, hc⟩
      · rintro ⟨rfl, -⟩
        rfl
    all_goals
      refine spec_writeCell.mpr
        ⟨{ o with proto := 0 }, ⟨rfl, rfl⟩, rfl, fun _ _ ↦ hsome, fun q hq ↦ ?_⟩
      refine iff_of_false (fun h0 ↦ hq h0.symm) ?_
      rintro ⟨rfl, -, o₁, ho₁⟩
      rw [hc] at ho₁
      cases ho₁
  · refine ⟨{ o with proto := 0 }, ⟨rfl, rfl⟩, rfl, fun hptr hne ↦ absurd ⟨hptr, hne⟩ hv, fun q hq ↦ ?_⟩
    refine iff_of_false (fun h0 ↦ hq h0.symm) ?_
    rintro ⟨rfl, hptr, -⟩
    exact hv ⟨hptr, hq⟩

theorem ends_objStoreSlot_stores (hf : s.heap.FreeAbove) (hr : s.heap.Room 1)
    (ho : s.heap.cells p = some (.object o)) :
    Ends (objStoreSlot ctx r p k i) (fun _ s' ↦
      Stores ctx.m.protoEnabled k i p o s.heap s'.heap) s := by
  refine spec_bind.mpr ((ends_boxForSlot_kept hf hr).mono fun v s₁ hg ↦ ?_)
  have ho₁ : s₁.heap.cells p = some (.object o) := (hg.objects p o).mpr ho
  refine spec_bind.mpr (ends_objectAt_of ho₁ (spec_bind.mpr (spec_writeCell.mpr ?_)))
  refine spec_ite.mpr ⟨fun hk ↦ ?_, fun hk ↦ (spec_pure _).mpr
    ⟨v, s₁.heap, _, hg, rfl, .refl _, fun _ ↦ rfl, fun hk' ↦ absurd hk' hk⟩⟩
  have hcell : (s₁.heap.write p (.object (writeSlot o i v))).cells p =
      some (.object (writeSlot o i v)) := Heap.write_self _ _ _
  have hobj (q : JelloValue) : (s₁.heap.write p (.object (writeSlot o i v))).IsObject q ↔
      s₁.heap.IsObject q := by
    by_cases hqp : q = p
    · subst hqp
      exact iff_of_true ⟨_, hcell⟩ ⟨o, ho₁⟩
    · simp only [Heap.IsObject, Heap.write_of_ne hqp]
  cases hm : ctx.m.protoEnabled with
  | false =>
    refine spec_ite.mpr ⟨fun _ ↦ (spec_pure _).mpr ?_, fun hno ↦ absurd hno (by simp [hm])⟩
    exact ⟨v, s₁.heap, _, hg, rfl, .refl _, fun hk' ↦ absurd hk hk', fun _ h ↦
      absurd h Bool.false_ne_true⟩
  | true =>
    refine (ends_objUpdateProtoCache_proto hm hcell).mono ?_
    rintro _ s' ⟨o', hsame, hheap, hsome, hproto⟩
    refine ⟨v, s₁.heap, o', hg, by rw [hheap, Heap.write_write], hsame, fun hk' ↦ absurd hk hk',
      fun _ _ ↦ ⟨fun hptr hne ↦ ?_, fun q hq ↦ by rw [hproto q hq, hobj]⟩⟩
    have hv := hsome hptr hne
    by_cases hvp : v = p
    · subst hvp
      rw [ho₁]
      rfl
    · rwa [show (s₁.heap.write p (.object (writeSlot o i v))).cells v = s₁.heap.cells v from
        Heap.write_of_ne hvp] at hv

theorem ends_objStoreTyped_stores {existed : Bool} (hf : s.heap.FreeAbove) (hr : s.heap.Room 1)
    (ho : s.heap.cells p = some (.object o)) :
    Ends (objStoreTyped ctx r p k i existed) (fun _ s' ↦
      Stores ctx.m.protoEnabled k i p o s.heap s'.heap) s := by
  refine spec_ite.mpr ⟨fun hin ↦ ?_, fun _ ↦ ends_objStoreSlot_stores hf hr ho⟩
  refine spec_bind.mpr (ends_objectAt_of ho (spec_bind.mpr ?_))
  refine (ends_vmStoreNumInplace_kept hf).mono fun w s₁ hs₁ ↦ ?_
  obtain ⟨hg, hnext⟩ := hs₁
  have ho₁ : s₁.heap.cells p = some (.object o) := (hg.objects p o).mpr ho
  cases w with
  | none =>
    have hr₁ : s₁.heap.Room 1 := by rwa [Heap.Room, hnext]
    refine (ends_objStoreSlot_stores hg.free hr₁ ho₁).mono ?_
    rintro _ s' ⟨v, h₁, o', hg₁, hrest⟩
    exact ⟨v, h₁, o', hg.trans hg₁, hrest⟩
  | some v =>
    refine spec_bind.mpr (ends_objectAt_of ho₁ (spec_writeCell.mpr ?_))
    exact ⟨v, s₁.heap, _, hg, rfl, .refl _, fun _ ↦ rfl, fun hk ↦ absurd hk hin.2⟩

theorem ProtoOk.of_entries {h : Heap} {o₁ : JelloObject} (hok : ProtoOk h o)
    (hm : ∃ m, Models o₁ m) (hproto : o₁.proto = o.proto)
    (he : ∀ q, jelloIsPtr q = true →
      (o₁.HasEntry jelloAtomProto q ↔ o.HasEntry jelloAtomProto q)) : ProtoOk h o₁ := by
  refine ⟨hm, fun q hq ↦ ?_, fun q hq hentry hptr ↦ hok.stored q hq ((he q hptr).mp hentry) hptr⟩
  rw [hproto, hok.proto q hq]
  constructor
  · rintro ⟨hentry, hptr, hobj⟩
    exact ⟨(he q hptr).mpr hentry, hptr, hobj⟩
  · rintro ⟨hentry, hptr, hobj⟩
    exact ⟨(he q hptr).mp hentry, hptr, hobj⟩

theorem protoInv_setEntry {o₁ : JelloObject} {m₀ : AtomMap} {existed : Bool}
    (hproto : ctx.m.protoEnabled = true) (hi : ProtoInv s.heap) (hr : s.heap.Room 1)
    (ho : s.heap.cells p = some (.object o)) (hm : Models o m₀)
    (h₁ : Models o₁ (update m₀ k (some ((m₀ k).getD jelloMakeNull)))) (hhead : o₁.header = o.header)
    (hk : Holds o₁.table i.toNat k) :
    Ends (objStoreTyped ctx r p k i existed) (fun _ s' ↦ ProtoInv s'.heap)
      { s with heap := s.heap.write p (.object o₁) } := by
  have hhead' : o₁.proto = o.proto := congrArg Prod.snd hhead
  have hok₁ : ProtoOk s.heap o₁ := by
    refine (hi.objects p o ho).of_entries ⟨_, h₁⟩ hhead' fun q hptr ↦ ?_
    rw [h₁.hasEntry_iff, hm.hasEntry_iff]
    by_cases hk0 : jelloAtomProto = k
    · subst hk0
      rw [update_self]
      cases hm0 : m₀ jelloAtomProto with
      | none =>
        refine iff_of_false (fun hq ↦ ?_) (Option.some_ne_none q).symm
        rw [← Option.some.inj hq] at hptr
        exact absurd hptr (by decide)
      | some w => rfl
    · rw [update_of_ne hk0]
  have hi₁ : ProtoInv (s.heap.write p (.object o₁)) := hi.write ⟨o, ho⟩ hok₁
  refine (ends_objStoreTyped_stores (s := { s with heap := s.heap.write p (.object o₁) }) hi₁.free
    hr (Heap.write_self _ _ _)).mono ?_
  rintro _ s' ⟨v, h₂, o', hg, hheap, hsame, hother, hself⟩
  have hi₂ : ProtoInv h₂ := hi₁.same hg.sameObjects
  have ho₂ : h₂.cells p = some (.object o₁) := (hg.objects p o₁).mpr (Heap.write_self _ _ _)
  have hmodels : Models o' (update m₀ k (some v)) := by
    have hslot := h₁.writeSlot hk v
    rw [update_idem] at hslot
    exact hslot.congr hsame
  rw [hheap]
  refine hi₂.write ⟨o₁, ho₂⟩ ?_
  by_cases hk0 : k = jelloAtomProto
  · subst hk0
    obtain ⟨hsome, hcache⟩ := hself rfl hproto
    have hentry (q : JelloValue) : o'.HasEntry jelloAtomProto q ↔ q = v := by
      rw [hmodels.hasEntry_iff, update_self, Option.some.injEq, eq_comm]
    refine ⟨⟨_, hmodels⟩, fun q hq ↦ by rw [hcache q hq, hentry], fun q hq hq' hptr ↦ ?_⟩
    obtain rfl := (hentry q).mp hq'
    exact hsome hptr hq
  · refine (hi₂.objects p o₁ ho₂).of_entries ⟨_, hmodels⟩ (hother hk0) fun q _ ↦ ?_
    rw [hmodels.hasEntry_iff, h₁.hasEntry_iff, update_of_ne (Ne.symm hk0),
      update_of_ne (Ne.symm hk0)]

theorem ends_objectAt_cell {Q : JelloObject → Store → Prop}
    (h : ∀ o, s.heap.cells p = some (.object o) → Q o s) : Ends (objectAt p) Q s := by
  refine (ends_objectAt p s).mono ?_
  rintro o _ ⟨rfl, ho⟩
  exact h o ho

theorem ends_orDiverge {α : Type} {x : Option α} {Q : α → Store → Prop}
    (h : ∀ a, x = some a → Q a s) : Ends (orDiverge x) Q s := by
  cases x with
  | none => exact spec_fail _
  | some a => exact (spec_pure a).mpr (h a rfl)

theorem protoInv_trap {code : TrapCode} {msg : String} (hi : ProtoInv s.heap) :
    Ends (jelloVmTrap ctx code msg) (fun _ s' ↦ ProtoInv s'.heap) s := spec_jelloVmTrap.mpr hi

theorem protoInv_opObjNew (hi : ProtoInv s.heap) (hr : s.heap.Room 1) :
    Ends (opObjNew ctx ins) (fun _ s' ↦ ProtoInv s'.heap) s := by
  simp only [opObjNew, objectNew, spec_bind, spec_regTypeOf, spec_gcAlloc, spec_vmStorePtr,
    true_and]
  exact hi.alloc hr Nat.one_pos (models_new _ _ _) rfl

theorem protoInv_vmObjSetAtomTyped {src obj : ℕ} {slotHint : UInt32}
    (hproto : ctx.m.protoEnabled = true) (hi : ProtoInv s.heap) (hr : s.heap.Room 1) :
    Ends (vmObjSetAtomTyped ctx src obj k slotHint) (fun _ s' ↦ ProtoInv s'.heap) s := by
  refine spec_bind.mpr (spec_vmLoadPtr.mpr ⟨trivial, spec_ite.mpr ⟨fun _ ↦ ?_, fun _ ↦ ?_⟩⟩)
  · exact spec_bind.mpr (spec_jelloVmTrap.mpr ((spec_pure _).mpr hi))
  · refine spec_bind.mpr (spec_note.mpr ⟨trivial, spec_bind.mpr (ends_objectAt_cell fun o ho ↦ ?_)⟩)
    obtain ⟨m₀, hm⟩ := (hi.objects _ o ho).models
    refine spec_bind.mpr (ends_orDiverge fun r hr' ↦ ?_)
    obtain ⟨i, existed, o₁⟩ := r
    obtain ⟨h₁, -, hk⟩ := setSlot_spec hm hr'
    refine spec_bind.mpr (spec_writeCell.mpr (spec_bind.mpr ?_))
    refine (protoInv_setEntry hproto hi hr ho hm h₁ (header_setSlot hr') hk).mono ?_
    exact fun _ s' hs' ↦ (spec_pure _).mpr hs'

theorem protoInv_opObjSet (hproto : ctx.m.protoEnabled = true) (hi : ProtoInv s.heap)
    (hr : s.heap.Room 1) : Ends (opObjSet ctx ins) (fun _ s' ↦ ProtoInv s'.heap) s := by
  refine spec_bind.mpr (spec_vmLoadPtr.mpr ⟨trivial, spec_ite.mpr ⟨fun _ ↦ spec_fail _, fun _ ↦ ?_⟩⟩)
  refine spec_bind.mpr (spec_vmLoadU32.mpr ⟨trivial, spec_ite.mpr
    ⟨fun _ ↦ protoInv_trap hi, fun _ ↦ spec_bind.mpr (ends_objectAt_cell fun o ho ↦ ?_)⟩⟩)
  obtain ⟨m₀, hm⟩ := (hi.objects _ o ho).models
  refine spec_bind.mpr (ends_orDiverge fun r hr' ↦ ?_)
  obtain ⟨i, existed, o₁⟩ := r
  obtain ⟨h₁, -, hk⟩ := upsert_spec hm hr'
  refine spec_bind.mpr (spec_writeCell.mpr ?_)
  exact protoInv_setEntry hproto hi hr ho hm h₁ (header_upsert hr') hk

theorem ProtoInv.lose {o' : JelloObject} (hi : ProtoInv s.heap)
    (ho : s.heap.cells p = some (.object o)) (hm : ∃ m, Models o' m) (hhead : o'.header = o.header)
    (hentry : ∀ q, o'.HasEntry jelloAtomProto q → o.HasEntry jelloAtomProto q)
    (hkeep : o.proto ≠ 0 → ∀ q, o.HasEntry jelloAtomProto q → o'.HasEntry jelloAtomProto q) :
    ProtoInv (s.heap.write p (.object o')) := by
  have hproto : o'.proto = o.proto := congrArg Prod.snd hhead
  have hok := hi.objects p o ho
  refine hi.write ⟨o, ho⟩ ⟨hm, fun q hq ↦ ?_, fun q hq hq' ↦ hok.stored q hq (hentry q hq')⟩
  rw [hproto]
  constructor
  · intro hq'
    obtain ⟨hentry', hrest⟩ := (hok.proto q hq).mp hq'
    exact ⟨hkeep (hq' ▸ hq) q hentry', hrest⟩
  · rintro ⟨hentry', hrest⟩
    exact (hok.proto q hq).mpr ⟨hentry q hentry', hrest⟩

theorem protoInv_opObjRemove (hi : ProtoInv s.heap)
    (hkeep : ∀ o, s.heap.cells (load64 s.mem (ctx.rf.addr ins.rb)) = some (.object o) →
      o.proto ≠ 0 → load32 s.mem (ctx.rf.addr ins.rc) ≠ jelloAtomProto) :
    Ends (opObjRemove ctx ins) (fun _ s' ↦ ProtoInv s'.heap) s := by
  refine spec_bind.mpr (spec_vmLoadPtr.mpr ⟨trivial, spec_ite.mpr
    ⟨fun _ ↦ protoInv_trap hi, fun _ ↦ ?_⟩⟩)
  refine spec_bind.mpr (spec_vmLoadU32.mpr ⟨trivial, spec_ite.mpr
    ⟨fun _ ↦ protoInv_trap hi, fun _ ↦ spec_bind.mpr (ends_objectAt_cell fun o ho ↦ ?_)⟩⟩)
  obtain ⟨m₀, hm⟩ := (hi.objects _ o ho).models
  refine spec_bind.mpr (ends_orDiverge fun r hr ↦ ?_)
  obtain ⟨removed, o'⟩ := r
  obtain ⟨-, hm'⟩ := remove_spec hm hr
  refine spec_bind.mpr (spec_writeCell.mpr (spec_vmStoreU32.mpr ⟨trivial, ?_⟩))
  refine hi.lose ho ⟨_, hm'⟩ (header_remove hr) (fun q hq ↦ ?_) fun hne q hq ↦ ?_
  · rw [hm'.hasEntry_iff] at hq
    rw [hm.hasEntry_iff]
    by_cases hk : jelloAtomProto = load32 s.mem (ctx.rf.addr ins.rc)
    · rw [← hk, update_self] at hq
      exact absurd hq (Option.some_ne_none q).symm
    · rwa [update_of_ne hk] at hq
  · rw [hm.hasEntry_iff] at hq
    rw [hm'.hasEntry_iff, update_of_ne (hkeep o ho hne).symm]
    exact hq

theorem protoInv_opObjClear (hi : ProtoInv s.heap)
    (hkeep : ∀ o, s.heap.cells (load64 s.mem (ctx.rf.addr ins.rb)) = some (.object o) →
      o.proto = 0) : Ends (opObjClear ctx ins) (fun _ s' ↦ ProtoInv s'.heap) s := by
  refine spec_bind.mpr (spec_vmLoadPtr.mpr ⟨trivial, spec_ite.mpr
    ⟨fun _ ↦ protoInv_trap hi, fun _ ↦ spec_bind.mpr (ends_objectAt_cell fun o ho ↦ ?_)⟩⟩)
  obtain ⟨m₀, hm⟩ := (hi.objects _ o ho).models
  have hm' := clear_spec hm
  refine spec_writeCell.mpr (hi.lose ho ⟨_, hm'⟩ (header_clear o) (fun q hq ↦ ?_)
    fun hne ↦ absurd (hkeep o ho) hne)
  exact absurd (hm'.hasEntry_iff.mp hq) (Option.some_ne_none q).symm

/-- A copied value: the value itself, or a box in place of a value that is no object. -/
def CloneOf (h h' : Heap) (v v' : JelloValue) : Prop :=
  v' = v ∨ (¬ h.IsObject v ∧ ¬ h'.IsObject v' ∧ (h'.cells v').isSome)

theorem clone_kept {h h' : Heap} {v' : JelloValue} {n : ℕ} (hf : h.FreeAbove) (hr : h.Room n)
    (hn : 0 < n) (hc : vmCloneNumbox v h = some (v', h')) :
    ObjectsKept h h' ∧ h'.next.toNat ≤ h.next.toNat + 16 ∧ CloneOf h h' v v' := by
  have hsame (heq : (v, h) = (v', h')) :
      ObjectsKept h h' ∧ h'.next.toNat ≤ h.next.toNat + 16 ∧ CloneOf h h' v v' := by
    obtain ⟨rfl, rfl⟩ := Prod.mk.inj heq
    exact ⟨.refl hf, Nat.le_add_right _ _, .inl rfl⟩
  unfold vmCloneNumbox at hc
  split_ifs at hc with hp
  · exact hsame (Option.some.inj hc)
  · cases hcell : h.cells v with
    | none => simp [hcell] at hc
    | some c =>
      simp only [hcell] at hc
      split_ifs at hc with hbox
      · have hno : ∀ o, c ≠ .object o := by
          rintro o rfl
          exact Bool.false_ne_true hbox
        have hkept := objectsKept_alloc hf hr hn hno
        have hnew : (h.alloc c).2.cells (h.alloc c).1 = some c := h.alloc_cells_self c
        have hnext := alloc_next_toNat hr hn c
        rw [Option.some.inj hc] at hkept hnew hnext
        refine ⟨hkept, hnext.le, .inr ⟨?_, ?_, by rw [hnew]; rfl⟩⟩
        · rintro ⟨o, ho⟩
          exact hno o (Option.some.inj (hcell.symm.trans ho))
        · rintro ⟨o, ho⟩
          exact hno o (Option.some.inj (hnew.symm.trans ho))
      · exact hsame (Option.some.inj hc)

theorem copyLoop_kept {src dst dst' : JelloObject} {m₁ : AtomMap} {h h' : Heap} (n j : ℕ)
    (hd : Models dst m₁) (hf : h.FreeAbove) (hr : h.Room n)
    (hrun : copyLoop vmCloneNumbox src n j dst h = some (dst', h')) :
    ObjectsKept h h' ∧ ∃ m₂, Models dst' m₂ ∧ Loaded (CloneOf h h') src.table n j m₁ m₂ := by
  induction n generalizing j dst m₁ h with
  | zero =>
    obtain ⟨rfl, rfl⟩ : dst = dst' ∧ h = h' := by simpa [copyLoop] using hrun
    exact ⟨.refl hf, m₁, hd, .nil _ j m₁⟩
  | succ n ih =>
    rw [copyLoop] at hrun
    split_ifs at hrun with hs
    · obtain ⟨⟨v, h₁⟩, hv, hrun⟩ := Option.bind_eq_some_iff.mp hrun
      obtain ⟨dst₁, hset, hrun⟩ := Option.bind_eq_some_iff.mp hrun
      obtain ⟨hkept₁, hnext, hclone⟩ := clone_kept hf hr (Nat.succ_pos n) hv
      have hr₁ : h₁.Room n := by
        unfold Heap.Room at hr ⊢
        omega
      obtain ⟨hkept, m₂, hm, hload⟩ := ih (j + 1) (set_spec hd hset) hkept₁.free hr₁ hrun
      refine ⟨hkept₁.trans hkept, m₂, hm, .cons hs ?_ (hload.mono fun w w' hw ↦ ?_)⟩
      · refine hclone.imp_right fun hc ↦ ⟨hc.1, ?_, hkept.keeps _ hc.2.2⟩
        rw [hkept.isObject_iff]
        exact hc.2.1
      · refine hw.imp_right fun hc ↦ ⟨?_, hc.2⟩
        rw [← hkept₁.isObject_iff]
        exact hc.1
    · have hr' : h.Room n := by
        unfold Heap.Room at hr ⊢
        omega
      obtain ⟨hkept, m₂, hm, hload⟩ := ih (j + 1) hd hf hr' hrun
      exact ⟨hkept, m₂, hm, .skip hs hload⟩

theorem ProtoInv.copied {h₁ h₂ : Heap} {src d : JelloObject} {q : JelloValue} {m₀ m₂ : AtomMap}
    (hi : ProtoInv h₂) (hkept : ObjectsKept h₁ h₂) (hsrc : h₂.cells p = some (.object src))
    (hm : Models src m₀) (hm' : Models d m₂) (hproto : d.proto = src.proto) (hq : h₂.IsObject q)
    (hrel : Option.Rel (CloneOf h₁ h₂) (m₀ jelloAtomProto) (m₂ jelloAtomProto)) :
    ProtoInv (h₂.write q (.object d)) := by
  have hok := hi.objects _ src hsrc
  refine hi.write hq ⟨⟨_, hm'⟩, fun x hx ↦ ?_, fun x hx hentry hptr ↦ ?_⟩
  · rw [hproto]
    refine (hok.proto x hx).trans (and_congr_left fun ⟨_, hobj⟩ ↦ ?_)
    rw [hm'.hasEntry_iff, hm.hasEntry_iff]
    generalize m₀ jelloAtomProto = w at hrel
    generalize m₂ jelloAtomProto = w' at hrel
    cases hrel with
    | none => rfl
    | some hclone =>
      obtain rfl | ⟨hold, hnew, -⟩ := hclone
      · rfl
      · refine iff_of_false (fun hx' ↦ hold ?_) fun hx' ↦ hnew ?_
        · rw [Option.some.inj hx']
          exact hkept.isObject_iff.mp hobj
        · rwa [Option.some.inj hx']
  · rw [hm'.hasEntry_iff] at hentry
    rw [hentry] at hrel
    generalize hv : m₀ jelloAtomProto = w at hrel
    cases hrel with
    | some hclone =>
      obtain rfl | ⟨-, -, hsome⟩ := hclone
      · exact hok.stored x hx (hm.hasEntry_iff.mpr hv) hptr
      · exact hsome

theorem protoInv_opObjCopy (hi : ProtoInv s.heap) (hr : s.heap.Room (2 ^ 32)) :
    Ends (opObjCopy ctx ins) (fun _ s' ↦ ProtoInv s'.heap) s := by
  refine spec_bind.mpr (spec_vmLoadPtr.mpr ⟨trivial, spec_ite.mpr
    ⟨fun _ ↦ protoInv_trap hi, fun _ ↦ spec_bind.mpr (ends_objectAt_cell fun src hsrc ↦ ?_)⟩⟩)
  obtain ⟨m₀, hm⟩ := (hi.objects _ src hsrc).models
  refine spec_bind.mpr (spec_gcAlloc.mpr ?_)
  have hr₁ : s.heap.Room 1 := by
    unfold Heap.Room at hr ⊢
    omega
  have hnew : Models (jelloObjectNew false default src.typeId) fun _ ↦ none := models_new _ _ _
  have hi₁ := hi.alloc hr₁ Nat.one_pos hnew rfl
  refine spec_bind.mpr (ends_objectAt_cell fun dst hdst ↦ ?_)
  obtain rfl : jelloObjectNew false default src.typeId = dst := by
    simpa [Heap.alloc] using hdst
  refine spec_bind.mpr ((spec_read _).mpr (spec_bind.mpr (ends_orDiverge fun r hcopy ↦ ?_)))
  obtain ⟨dst', h'⟩ := r
  simp only [spec_bind, spec_change, spec_writeCell, spec_vmStorePtr, true_and]
  obtain ⟨⟨d, h₂⟩, hloop, hcopy⟩ := Option.bind_eq_some_iff.mp hcopy
  obtain ⟨rfl, rfl⟩ : { d with proto := src.proto } = dst' ∧ h₂ = h' := by simpa using hcopy
  have hcap : src.cap.toNat < 2 ^ 32 := src.cap.toNat_lt
  have hr₂ : (s.heap.alloc (.object (jelloObjectNew false default src.typeId))).2.Room
      src.cap.toNat := by
    unfold Heap.Room at hr ⊢
    rw [alloc_next_toNat hr₁ Nat.one_pos]
    omega
  obtain ⟨hkept, m₂, hm₂, hload⟩ := copyLoop_kept _ _ hnew hi₁.free hr₂ hloop
  have hq : h₂.IsObject s.heap.next := hkept.isObject_iff.mpr ⟨_, hdst⟩
  have hne : load64 s.mem (ctx.rf.addr ins.rb) ≠ s.heap.next := by
    intro heq
    rw [heq, hi.free _ le_rfl] at hsrc
    exact Option.some_ne_none _ hsrc.symm
  have hsrc₂ : h₂.cells (load64 s.mem (ctx.rf.addr ins.rb)) = some (.object src) :=
    (hkept.objects _ src).mpr ((Heap.alloc_of_ne hne _).trans hsrc)
  have hm' : Models { d with proto := src.proto } m₂ := hm₂.congr ⟨rfl, rfl⟩
  exact (hi₁.same hkept.sameObjects).copied hkept hsrc₂ hm hm' rfl hq
    (hload.rel hm.rep jelloAtomProto)

end Programs

/-- The instructions that create, write and empty objects. -/
def objectOps : List JelloOp := [.objNew, .objSetAtom, .objSet, .objRemove, .objClear, .objCopy]

def Heap.protoAt (h : Heap) (p : JelloValue) : JelloValue :=
  match h.cells p with
  | some (.object o) => o.proto
  | _ => 0

/-- An object that has a prototype is not cleared, and keeps the entry for the prototype. -/
def KeepsProtoEntry (ctx : Ctx) (ins : JelloInsn) (s : Store) : Prop :=
  s.heap.protoAt (load64 s.mem (ctx.rf.addr ins.rb)) ≠ 0 → ins.op ≠ .objClear ∧
    (ins.op = .objRemove → load32 s.mem (ctx.rf.addr ins.rc) ≠ jelloAtomProto)

instance (ctx : Ctx) (ins : JelloInsn) (s : Store) : Decidable (KeepsProtoEntry ctx ins s) :=
  inferInstanceAs (Decidable (_ → _))

/-- Runs from a heap without objects, of the instructions on objects, each one within `P`, and of
steps that leave the objects alone. -/
inductive ProtoRun (m : JelloBcModule) (P : Ctx → JelloInsn → Store → Prop) : Store → Prop
  | start {s : Store} (hno : ∀ p, ¬ s.heap.IsObject p) (hfree : s.heap.FreeAbove) : ProtoRun m P s
  | op {ctx : Ctx} {ins : JelloInsn} {s s' : Store} (hrun : ProtoRun m P s) (hm : ctx.m = m)
      (hop : ins.op ∈ objectOps) (hroom : s.heap.Room (2 ^ 32)) (hP : P ctx ins s)
      (hstep : result (dataOp ins.op ctx ins) s = .ok ((), s')) : ProtoRun m P s'
  | other {s s' : Store} (hrun : ProtoRun m P s) (hsame : SameObjects s.heap s'.heap) :
      ProtoRun m P s'

theorem protoInv_step {ctx : Ctx} {ins : JelloInsn} {s : Store}
    (hproto : ctx.m.protoEnabled = true) (hop : ins.op ∈ objectOps) (hi : ProtoInv s.heap)
    (hr : s.heap.Room (2 ^ 32)) (hkeep : KeepsProtoEntry ctx ins s) :
    Ends (dataOp ins.op ctx ins) (fun _ s' ↦ ProtoInv s'.heap) s := by
  have hr₁ : s.heap.Room 1 := by
    unfold Heap.Room at hr ⊢
    omega
  have hat {o : JelloObject}
      (ho : s.heap.cells (load64 s.mem (ctx.rf.addr ins.rb)) = some (.object o)) :
      s.heap.protoAt (load64 s.mem (ctx.rf.addr ins.rb)) = o.proto := by
    simp only [Heap.protoAt, ho]
  simp only [objectOps, List.mem_cons, List.not_mem_nil, or_false] at hop
  obtain hop | hop | hop | hop | hop | hop := hop <;> rw [hop]
  · exact protoInv_opObjNew hi hr₁
  · exact spec_bind.mpr ((protoInv_vmObjSetAtomTyped hproto hi hr₁).mono
      fun _ _ hs ↦ (spec_pure _).mpr hs)
  · exact protoInv_opObjSet hproto hi hr₁
  · exact protoInv_opObjRemove hi fun o ho hne ↦ (hkeep (hat ho ▸ hne)).2 hop
  · refine protoInv_opObjClear hi fun o ho ↦ not_not.mp fun hne ↦ ?_
    exact (hkeep (hat ho ▸ hne)).1 hop
  · exact protoInv_opObjCopy hi hr

theorem protoInv_of_run {m : JelloBcModule} {s : Store} (hproto : m.protoEnabled = true)
    (hrun : ProtoRun m KeepsProtoEntry s) : ProtoInv s.heap := by
  induction hrun with
  | start hno hfree => exact ⟨fun p o hp ↦ absurd ⟨o, hp⟩ (hno p), hfree⟩
  | op _ hm hop hroom hP hstep ih =>
    subst hm
    exact (protoInv_step hproto hop ih hroom hP).of_result hstep
  | other _ hsame ih => exact ih.same hsame

instance (h : Heap) (n : ℕ) : Decidable (h.Room n) := inferInstanceAs (Decidable (_ < _))

/-- Instructions on objects, one after the other, each of them within `P`. -/
def protoSteps (P : Ctx → JelloInsn → Store → Prop) [∀ ctx ins s, Decidable (P ctx ins s)]
    (ctx : Ctx) : List JelloInsn → StoreM Unit
  | [] => pure ()
  | ins :: rest => do
    let ok ← read fun s ↦ decide (ins.op ∈ objectOps ∧ s.heap.Room (2 ^ 32) ∧ P ctx ins s)
    if ok then do
      dataOp ins.op ctx ins
      protoSteps P ctx rest
    else panic

theorem protoRun_of_steps {P : Ctx → JelloInsn → Store → Prop}
    [∀ ctx ins s, Decidable (P ctx ins s)] {ctx : Ctx} (insns : List JelloInsn) {s s' : Store}
    (hrun : ProtoRun ctx.m P s) (h : result (protoSteps P ctx insns) s = .ok ((), s')) :
    ProtoRun ctx.m P s' := by
  induction insns generalizing s with
  | nil =>
    obtain rfl : s = s' := by simpa [protoSteps] using h
    exact hrun
  | cons ins rest ih =>
    obtain ⟨ok, s₁, hread, h⟩ := bind_ok h
    obtain ⟨rfl, rfl⟩ : decide (ins.op ∈ objectOps ∧ s.heap.Room (2 ^ 32) ∧ P ctx ins s) = ok ∧
        s = s₁ := by simpa using hread
    split_ifs at h with hok
    · obtain ⟨hop, hroom, hP⟩ := of_decide_eq_true hok
      obtain ⟨⟨⟩, s₂, hstep, hrest⟩ := bind_ok h
      exact ih (.op hrun rfl hop hroom hP hstep) hrest
    · simp [panic] at h

theorem protoRun_create (m : JelloBcModule) (P : Ctx → JelloInsn → Store → Prop) :
    ProtoRun m P jelloVmCreate.store := by
  apply ProtoRun.start
  · rintro p ⟨o, ho⟩
    simp [jelloVmCreate] at ho
  · intro p _
    rfl

/-- Two objects, and the second one for the prototype of the first. -/
def protoInsns : List JelloInsn :=
  [{ op := .objNew, a := 0, b := 0, c := 0, imm := 0 },
   { op := .objNew, a := 1, b := 0, c := 0, imm := 0 },
   { op := .objSetAtom, a := 1, b := 0, c := 0, imm := 0 }]

def protoClear : JelloInsn := { op := .objClear, a := 0, b := 0, c := 0, imm := 0 }

def protoModule : JelloBcModule :=
  { tailTryModule with
    types := [⟨.object, 0⟩]
    atoms := [text "__proto__"]
    funcs :=
      [{ regTypes := [0, 0]
         capStart := 0
         insns := protoInsns ++ [protoClear, { op := .ret, a := 0, b := 0, c := 0, imm := 0 }]
         sourceFile := 0
         lines := [] }] }

def protoCtx : Ctx :=
  { m := protoModule
    fpu := default
    f := 0
    rf := (vmGetFrameLayout protoModule 0).frame 4096
    pc := 0 }

def linkedStore : Store :=
  ((result (protoSteps KeepsProtoEntry protoCtx protoInsns) jelloVmCreate.store).toOption.map
    Prod.snd).getD jelloVmCreate.store

/-- The object at `p` has the prototype `q` and no entry. -/
def Heap.emptyWithProto (h : Heap) (p q : JelloValue) : Bool :=
  match h.cells p with
  | some (.object o) => o.proto == q && (List.range o.cap.toNat).all fun i ↦ o.states i == .empty
  | _ => false

theorem not_mirrored_of_emptyWithProto {h : Heap} {p q : JelloValue} (hq : q ≠ 0)
    (he : h.emptyWithProto p q = true) : ¬ h.Mirrored := by
  intro hmir
  unfold Heap.emptyWithProto at he
  split at he
  · rename_i o ho
    obtain ⟨hproto, hempty⟩ : o.proto = q ∧ ∀ i < o.cap.toNat, o.states i = .empty := by
      simpa using he
    obtain ⟨⟨i, ⟨hi, hocc, -⟩, -⟩, -⟩ := (hmir p o ho q hq).mp hproto
    have hstate : o.states i = .occupied := hocc
    rw [hempty i hi] at hstate
    cases hstate
  · cases he

end JelloVM
