import JelloVM.SelfCall
import JelloVM.Delivery
import JelloVM.Jit.Helpers
import JelloVM.Limits
import JelloVM.Slots

namespace JelloVM

open Function ByteMemory Logged OpenAddressing

section Programs

variable {m : JelloBcModule} {fpu : Fpu} {f r : ℕ} {rf : RegFrame} {k : Kind} {n : Num}
  {v : JelloValue} {s : Store} {ctx : Ctx}

theorem result_boxI64At {y : Num} (hv : s.heap.numAt v = some y) :
    result (boxI64At v) s = .ok (y.asI64, s) := by
  obtain ⟨hp, c, hc, hy⟩ := numAt_eq_some.mp hv
  simp only [boxI64At, hp, Bool.not_true, Bool.false_eq_true, if_false, result_bind,
    result_cellAt hc, Except.bind]
  cases c <;> simp only [Cell.num, Option.some.injEq, reduceCtorEq] at hy <;> subst hy <;> rfl

theorem result_boxF64At_num {y : Num} (hv : s.heap.numAt v = some y) :
    result (boxF64At v) s = .ok (y.asF64, s) := by
  obtain ⟨hp, c, hc, hy⟩ := numAt_eq_some.mp hv
  rw [result_boxF64At hp hc]
  cases c <;> simp only [Cell.num, Option.some.injEq, reduceCtorEq] at hy <;> subst hy <;> rfl

theorem result_boxF32At {y : Num} (hv : s.heap.numAt v = some y) :
    result (boxF32At v) s = .ok (y.asF32, s) := by
  obtain ⟨hp, c, hc, hy⟩ := numAt_eq_some.mp hv
  simp only [boxF32At, hp, Bool.not_true, Bool.false_eq_true, if_false, result_bind,
    result_cellAt hc, Except.bind]
  cases c <;> simp only [Cell.num, Option.some.injEq, reduceCtorEq] at hy <;> subst hy <;> rfl

theorem result_boxF16At {y : Num} (hv : s.heap.numAt v = some y) :
    result (boxF16At v) s = .ok (y.asF16, s) := by
  obtain ⟨hp, c, hc, hy⟩ := numAt_eq_some.mp hv
  simp only [boxF16At, hp, Bool.not_true, Bool.false_eq_true, if_false, result_bind,
    result_cellAt hc, Except.bind]
  cases c <;> simp only [Cell.num, Option.some.injEq, reduceCtorEq] at hy <;> subst hy <;> rfl

theorem jelloIsI32_make (x : UInt32) : jelloIsI32 (jelloMakeI32 x) = true := hasTag_tagged .i32 x

theorem jelloAsI32_make (x : UInt32) : jelloAsI32 (jelloMakeI32 x) = x := payload_tagged .i32 x

theorem jelloIsNull_make (x : UInt32) : jelloIsNull (jelloMakeI32 x) = false := by
  have htag := jelloIsI32_make x
  simp only [jelloIsI32, jelloIsNull, hasTag, beq_iff_eq] at htag ⊢
  rw [htag]
  rfl

/-- A register that a value standing for a number is unboxed into holds the number. -/
theorem result_vmStoreFromBoxed (hk : regKind m f r = k) (hn : n.fits k = true)
    (hv : s.heap.Carries v n) :
    result (vmStoreFromBoxed m fpu f rf r v) s =
      .ok ((), s.setMem (writeReg n s.mem (rf.addr r))) := by
  cases n with
  | word x =>
    obtain rfl : v = jelloMakeI32 x := hv
    cases k <;> simp only [Num.fits, Kind.isWord, Bool.false_eq_true] at hn <;>
      simp only [vmStoreFromBoxed, result_bind, result_vmRegKind, hk, Except.bind,
        jelloIsNull_make, jelloIsI32_make, jelloAsI32_make, Bool.false_eq_true, if_false,
        if_true] <;>
      rfl
  | i64 x =>
    obtain rfl : k = .i64 := by simpa [Num.fits] using hn
    obtain ⟨hi, hnull⟩ := isPtr_others (numAt_eq_some.mp hv).1
    simp only [vmStoreFromBoxed, result_bind, result_vmRegKind, hk, Except.bind, hi, hnull,
      Bool.false_eq_true, if_false, result_boxF64At_num hv, Num.asF64, result_boxI64At hv,
      Num.asI64]
    rfl
  | f64 x =>
    obtain rfl : k = .f64 := by simpa [Num.fits] using hn
    obtain ⟨hi, hnull⟩ := isPtr_others (numAt_eq_some.mp hv).1
    simp only [vmStoreFromBoxed, result_bind, result_vmRegKind, hk, Except.bind, hi, hnull,
      Bool.false_eq_true, if_false, result_boxF32At hv, Num.asF32, result_boxF64At_num hv,
      Num.asF64]
    rfl
  | f32 x =>
    obtain rfl : k = .f32 := by simpa [Num.fits] using hn
    obtain ⟨hi, hnull⟩ := isPtr_others (numAt_eq_some.mp hv).1
    simp only [vmStoreFromBoxed, result_bind, result_vmRegKind, hk, Except.bind, hi, hnull,
      Bool.false_eq_true, if_false, result_boxF64At_num hv, Num.asF64, result_boxF32At hv,
      Num.asF32]
    rfl
  | f16 x =>
    obtain rfl : k = .f16 := by simpa [Num.fits] using hn
    obtain ⟨hi, hnull⟩ := isPtr_others (numAt_eq_some.mp hv).1
    simp only [vmStoreFromBoxed, result_bind, result_vmRegKind, hk, Except.bind, hi, hnull,
      Bool.false_eq_true, if_false, result_boxF64At_num hv, Num.asF64, result_boxF16At hv,
      Num.asF16]
    rfl

theorem ends_boxForSlot (hk : regKind ctx.m ctx.f r = k) (hnum : k.isNumeric = true) :
    Ends (boxForSlot ctx r) (fun v s' ↦ ∃ heap, s' = { s with heap := heap } ∧
      Boxed (regNum k s.mem (ctx.rf.addr r)) s.heap v heap) s := by
  have hsame (x : UInt32) : ∃ heap, s = { s with heap := heap } ∧
      Boxed (.word x) s.heap (jelloMakeI32 x) heap := ⟨s.heap, rfl, .tagged rfl⟩
  cases k <;> simp only [Kind.isNumeric, Bool.false_eq_true] at hnum <;>
    simp only [boxForSlot, vmBoxFromTyped, spec_bind, spec_vmRegKind, hk, spec_vmLoadU32,
      spec_vmLoadF32, spec_vmLoadI64, spec_vmLoadF64, spec_vmLoadF16Bits, spec_regTypeOf,
      jelloBoxF32New, jelloBoxF16New, jelloBoxI64New, jelloBoxF64New, spec_gcAlloc, spec_pure,
      reduceCtorEq, if_false, true_and]
  case i8 => exact hsame _
  case i16 => exact hsame _
  case i32 => exact hsame _
  all_goals exact ⟨_, rfl, .boxed rfl⟩

theorem numAt_of_cell {c : Cell} (hp : jelloIsPtr v = true) (hc : s.heap.cells v = some c) :
    s.heap.numAt v = c.num := by
  simp [Heap.numAt, hp, hc]

theorem numAt_of_tagged (hp : jelloIsPtr v = false) : s.heap.numAt v = none := by
  simp [Heap.numAt, hp]

theorem ends_boxI64At {Q : Option UInt64 → Store → Prop}
    (h : Q ((s.heap.numAt v).bind Num.asI64) s) : Ends (boxI64At v) Q s := by
  simp only [boxI64At, spec_ite, spec_pure, spec_bind]
  refine ⟨fun hp ↦ ?_, fun hp ↦ spec_cellAt fun c hc ↦ ?_⟩
  · rwa [numAt_of_tagged (by simpa using hp)] at h
  · rw [numAt_of_cell (by simpa using hp) hc] at h
    cases c <;> exact (spec_pure _).mpr h

theorem ends_boxF64At {Q : Option UInt64 → Store → Prop}
    (h : Q ((s.heap.numAt v).bind Num.asF64) s) : Ends (boxF64At v) Q s := by
  simp only [boxF64At, spec_ite, spec_pure, spec_bind]
  refine ⟨fun hp ↦ ?_, fun hp ↦ spec_cellAt fun c hc ↦ ?_⟩
  · rwa [numAt_of_tagged (by simpa using hp)] at h
  · rw [numAt_of_cell (by simpa using hp) hc] at h
    cases c <;> exact (spec_pure _).mpr h

theorem ends_boxF32At {Q : Option UInt32 → Store → Prop}
    (h : Q ((s.heap.numAt v).bind Num.asF32) s) : Ends (boxF32At v) Q s := by
  simp only [boxF32At, spec_ite, spec_pure, spec_bind]
  refine ⟨fun hp ↦ ?_, fun hp ↦ spec_cellAt fun c hc ↦ ?_⟩
  · rwa [numAt_of_tagged (by simpa using hp)] at h
  · rw [numAt_of_cell (by simpa using hp) hc] at h
    cases c <;> exact (spec_pure _).mpr h

theorem ends_boxF16At {Q : Option UInt16 → Store → Prop}
    (h : Q ((s.heap.numAt v).bind Num.asF16) s) : Ends (boxF16At v) Q s := by
  simp only [boxF16At, spec_ite, spec_pure, spec_bind]
  refine ⟨fun hp ↦ ?_, fun hp ↦ spec_cellAt fun c hc ↦ ?_⟩
  · rwa [numAt_of_tagged (by simpa using hp)] at h
  · rw [numAt_of_cell (by simpa using hp) hc] at h
    cases c <;> exact (spec_pure _).mpr h

/-- The value that a typed store puts into a slot. -/
def storedValue (ctx : Ctx) (r : ℕ) (cur : JelloValue) : StoreM JelloValue := do
  match ← vmStoreNumInplace ctx.m ctx.f ctx.rf r cur with
  | some v => pure v
  | none => boxForSlot ctx r

theorem ends_writeBox {old : JelloValue} {y : Num} {α : Type} (x : StoreM α)
    (box : UInt32 → α → Cell) {Q : Option JelloValue → Store → Prop} {a : α}
    (hx : ∀ {Q : α → Store → Prop}, Q a s → Ends x Q s) (hold : s.heap.numAt old = some y)
    (hk : k.isWord = false) (hsees : k.sees y = some y) (hbox : ∀ t, (box t a).num = some n)
    (h : ∀ heap, Stored k n s.heap old old heap → Q (some old) { s with heap := heap }) :
    Ends (do
      let c ← cellAt old
      let a ← x
      writeCell old (box c.typeId a)
      pure (some old)) Q s := by
  simp only [spec_bind]
  refine spec_cellAt fun c hc ↦ hx ?_
  simp only [spec_writeCell, spec_pure]
  exact h _ (.inplace hk hold hsees (hbox _))

theorem Kind.sees_of_word (hk : k.isWord = true) (y : Num) :
    k.sees y = y.asI64.map fun x ↦ .word x.toUInt32 := by
  cases y <;> cases k <;> simp only [Kind.isWord, Bool.false_eq_true] at hk <;> rfl

/-- Either the slot has to be written by other means, or this is the new value of the slot. -/
def InplaceDone (k : Kind) (n : Num) (s : Store) (cur : JelloValue) (w : Option JelloValue)
    (s' : Store) : Prop :=
  (w = none → s' = s ∧ ∀ y, s.heap.numAt cur = some y → k.sees y = none) ∧
    ∀ v, w = some v → ∃ heap, s' = { s with heap := heap } ∧ Stored k n s.heap cur v heap

theorem inplaceDone_none {cur : JelloValue}
    (h : ∀ y, s.heap.numAt cur = some y → k.sees y = none) : InplaceDone k n s cur none s :=
  ⟨fun _ ↦ ⟨rfl, h⟩, fun _ hv ↦ absurd hv (Option.some_ne_none _).symm⟩

theorem inplaceDone_some {cur : JelloValue} {heap : Heap} (h : Stored k n s.heap cur v heap) :
    InplaceDone k n s cur (some v) { s with heap := heap } := by
  refine ⟨fun hv ↦ absurd hv (Option.some_ne_none _), ?_⟩
  rintro w ⟨⟩
  exact ⟨heap, rfl, h⟩

theorem unseen_of_bind {α : Type} {view : Num → Option α} {cur : JelloValue}
    (hview : ∀ y, view y = none → k.sees y = none)
    (hnone : (s.heap.numAt cur).bind view = none) (y : Num) (hy : s.heap.numAt cur = some y) :
    k.sees y = none := by
  rw [hy] at hnone
  exact hview y hnone

theorem ends_vmStoreNumInplace {cur : JelloValue} (hk : regKind m f r = k)
    (hnum : k.isNumeric = true) :
    Ends (vmStoreNumInplace m f rf r cur)
      (InplaceDone k (regNum k s.mem (rf.addr r)) s cur) s := by
  cases k <;> simp only [Kind.isNumeric, Bool.false_eq_true] at hnum <;>
    simp only [vmStoreNumInplace, spec_bind, spec_vmRegKind, hk, true_and]
  case i8 | i16 | i32 =>
    simp only [spec_bind, spec_ite, spec_vmLoadU32, spec_pure, true_and]
    refine ⟨fun hi ↦ inplaceDone_some (.boxed (fun y hy ↦ ?_) (.tagged rfl)), fun hi ↦
      ends_boxI64At ?_⟩
    · have hp := (numAt_eq_some.mp hy).1
      exact absurd (hi.symm.trans (isPtr_others hp).1) (by simp)
    · rcases hold : (s.heap.numAt cur).bind Num.asI64 with _ | x
      · refine (spec_pure _).mpr (inplaceDone_none (unseen_of_bind (fun y hy ↦ ?_) hold))
        rw [Kind.sees_of_word rfl, hy]
        rfl
      · obtain ⟨y, hy, hx⟩ := Option.bind_eq_some_iff.mp hold
        cases y <;> simp only [Num.asI64, Option.some.injEq, reduceCtorEq] at hx
        subst hx
        exact (spec_pure _).mpr (inplaceDone_some (.stale rfl hy))
  case i64 =>
    refine ends_boxI64At ?_
    rcases hold : (s.heap.numAt cur).bind Num.asI64 with _ | x
    · refine (spec_pure _).mpr (inplaceDone_none (unseen_of_bind (fun y hy ↦ ?_) hold))
      cases y <;> simp only [Num.asI64, reduceCtorEq] at hy <;> rfl
    · obtain ⟨y, hy, hx⟩ := Option.bind_eq_some_iff.mp hold
      cases y <;> simp only [Num.asI64, reduceCtorEq] at hx
      exact ends_writeBox (vmLoadI64 rf r) Cell.boxI64 (spec_vmLoadI64.mpr ⟨trivial, ·⟩) hy
        rfl rfl (fun _ ↦ rfl) fun _ hst ↦ inplaceDone_some hst
  case f16 =>
    refine ends_boxF16At ?_
    rcases hold : (s.heap.numAt cur).bind Num.asF16 with _ | x
    · refine (spec_pure _).mpr (inplaceDone_none (unseen_of_bind (fun y hy ↦ ?_) hold))
      cases y <;> simp only [Num.asF16, reduceCtorEq] at hy <;> rfl
    · obtain ⟨y, hy, hx⟩ := Option.bind_eq_some_iff.mp hold
      cases y <;> simp only [Num.asF16, reduceCtorEq] at hx
      exact ends_writeBox (vmLoadF16Bits rf r) Cell.boxF16 (spec_vmLoadF16Bits.mpr ⟨trivial, ·⟩) hy
        rfl rfl (fun _ ↦ rfl) fun _ hst ↦ inplaceDone_some hst
  case f32 =>
    refine ends_boxF32At ?_
    rcases hold : (s.heap.numAt cur).bind Num.asF32 with _ | x
    · refine (spec_pure _).mpr (inplaceDone_none (unseen_of_bind (fun y hy ↦ ?_) hold))
      cases y <;> simp only [Num.asF32, reduceCtorEq] at hy <;> rfl
    · obtain ⟨y, hy, hx⟩ := Option.bind_eq_some_iff.mp hold
      cases y <;> simp only [Num.asF32, reduceCtorEq] at hx
      exact ends_writeBox (vmLoadF32 rf r) Cell.boxF32 (spec_vmLoadF32.mpr ⟨trivial, ·⟩) hy
        rfl rfl (fun _ ↦ rfl) fun _ hst ↦ inplaceDone_some hst
  case f64 =>
    refine ends_boxF64At ?_
    rcases hold : (s.heap.numAt cur).bind Num.asF64 with _ | x
    · refine (spec_pure _).mpr (inplaceDone_none (unseen_of_bind (fun y hy ↦ ?_) hold))
      cases y <;> simp only [Num.asF64, reduceCtorEq] at hy <;> rfl
    · obtain ⟨y, hy, hx⟩ := Option.bind_eq_some_iff.mp hold
      cases y <;> simp only [Num.asF64, reduceCtorEq] at hx
      exact ends_writeBox (vmLoadF64 rf r) Cell.boxF64 (spec_vmLoadF64.mpr ⟨trivial, ·⟩) hy
        rfl rfl (fun _ ↦ rfl) fun _ hst ↦ inplaceDone_some hst

theorem ends_storedValue {cur : JelloValue} (hk : regKind ctx.m ctx.f r = k)
    (hnum : k.isNumeric = true) :
    Ends (storedValue ctx r cur) (fun v s' ↦ ∃ heap, s' = { s with heap := heap } ∧
      Stored k (regNum k s.mem (ctx.rf.addr r)) s.heap cur v heap) s := by
  refine spec_bind.mpr ((ends_vmStoreNumInplace hk hnum).mono fun w s' hw ↦ ?_)
  cases w with
  | some v => exact (spec_pure _).mpr (hw.2 v rfl)
  | none =>
    obtain ⟨rfl, hunseen⟩ := hw.1 rfl
    refine (ends_boxForSlot hk hnum).mono ?_
    rintro v s' ⟨heap, rfl, hv⟩
    exact ⟨heap, rfl, .boxed hunseen hv⟩

theorem ends_storeElem {p : JelloValue} {a : JelloArray} {idx : UInt32}
    (hk : regKind ctx.m ctx.f r = k) (hnum : k.isNumeric = true) :
    Ends (storeElem ctx r p a idx) (fun _ s' ↦ ∃ v heap,
      s' = { s with heap := heap.write p (.array (a.write idx v)) } ∧
        Stored k (regNum k s.mem (ctx.rf.addr r)) s.heap (a.data idx.toNat) v heap) s := by
  have heq : storeElem ctx r p a idx = (do
      let v ← storedValue ctx r (a.data idx.toNat)
      writeCell p (.array (a.write idx v))) := by
    simp only [storeElem, storedValue, bind_assoc]
    congr 1
    funext w
    cases w <;> simp only [pure_bind]
  rw [heq]
  refine spec_bind.mpr ((ends_storedValue hk hnum).mono ?_)
  rintro v s' ⟨heap, rfl, hv⟩
  exact spec_writeCell.mpr ⟨v, heap, rfl, hv⟩

theorem ends_objectAt_of {p : JelloValue} {o : JelloObject} {Q : JelloObject → Store → Prop}
    (ho : s.heap.cells p = some (.object o)) (h : Q o s) : Ends (objectAt p) Q s := by
  refine spec_bind.mpr (spec_cellAt fun c hc ↦ ?_)
  rw [ho] at hc
  obtain rfl := Option.some.inj hc
  exact (spec_pure o).mpr h

theorem ends_objUpdateProtoCache {p : JelloValue} {o : JelloObject}
    (ho : s.heap.cells p = some (.object o)) (v : JelloValue) :
    Ends (objUpdateProtoCache m p v) (fun _ s' ↦ ∃ q,
      s' = { s with heap := s.heap.write p (.object { o with proto := q }) }) s := by
  simp only [objUpdateProtoCache, spec_ite, spec_pure, spec_bind]
  refine ⟨fun _ ↦ ⟨o.proto, by rw [Heap.write_same ho]⟩, fun _ ↦ ends_objectAt_of ho ?_⟩
  refine ⟨fun _ ↦ spec_cellAt fun c _ ↦ ?_, fun _ ↦ spec_writeCell.mpr ⟨0, rfl⟩⟩
  cases c <;> exact spec_writeCell.mpr ⟨_, rfl⟩

/-- What the store of an entry takes for the old value of its slot. -/
def replaced (o : JelloObject) (i atomId : UInt32) (existed : Bool) : JelloValue :=
  if existed ∧ atomId ≠ jelloAtomProto then o.vals i.toNat else jelloMakeNull

theorem ends_objStoreSlot {p old : JelloValue} {o : JelloObject} {atomId i : UInt32}
    (hk : regKind ctx.m ctx.f r = k) (hnum : k.isNumeric = true)
    (hfree : s.heap.cells s.heap.next = none) (ho : s.heap.cells p = some (.object o))
    (hunseen : ∀ y, s.heap.numAt old = some y → k.sees y = none) :
    Ends (objStoreSlot ctx r p atomId i) (fun _ s' ↦ ∃ v heap o',
      s' = { s with heap := heap.write p (.object o') } ∧ SameEntries (writeSlot o i v) o' ∧
        Stored k (regNum k s.mem (ctx.rf.addr r)) s.heap old v heap) s := by
  refine spec_bind.mpr ((ends_boxForSlot hk hnum).mono ?_)
  rintro v s' ⟨heap, rfl, hv⟩
  have hst : Stored k (regNum k s.mem (ctx.rf.addr r)) s.heap old v heap := .boxed hunseen hv
  have ho' : heap.cells p = some (.object o) := hst.cells_container hfree ho rfl
  refine spec_bind.mpr (ends_objectAt_of ho' (spec_bind.mpr (spec_writeCell.mpr ?_)))
  refine spec_ite.mpr ⟨fun _ ↦ ?_, fun _ ↦ (spec_pure _).mpr ⟨v, heap, _, rfl, .refl _, hst⟩⟩
  have hcell : (heap.write p (.object (writeSlot o i v))).cells p =
      some (.object (writeSlot o i v)) := by simp [Heap.write]
  refine (ends_objUpdateProtoCache hcell v).mono ?_
  rintro _ s' ⟨q, rfl⟩
  exact ⟨v, heap, { writeSlot o i v with proto := q }, by rw [Heap.write_write], ⟨rfl, rfl⟩, hst⟩

theorem ends_objStoreTyped {p : JelloValue} {o : JelloObject} {atomId i : UInt32} {existed : Bool}
    (hk : regKind ctx.m ctx.f r = k) (hnum : k.isNumeric = true)
    (hfree : s.heap.cells s.heap.next = none) (ho : s.heap.cells p = some (.object o)) :
    Ends (objStoreTyped ctx r p atomId i existed) (fun _ s' ↦ ∃ v heap o',
      s' = { s with heap := heap.write p (.object o') } ∧ SameEntries (writeSlot o i v) o' ∧
        Stored k (regNum k s.mem (ctx.rf.addr r)) s.heap (replaced o i atomId existed) v heap)
      s := by
  refine spec_ite.mpr ⟨fun hin ↦ ?_, fun hout ↦ ?_⟩
  · rw [show replaced o i atomId existed = o.vals i.toNat from if_pos hin]
    refine spec_bind.mpr (ends_objectAt_of ho (spec_bind.mpr ?_))
    refine (ends_vmStoreNumInplace hk hnum).mono fun w s' hw ↦ ?_
    cases w with
    | none =>
      obtain ⟨rfl, hunseen⟩ := hw.1 rfl
      exact ends_objStoreSlot hk hnum hfree ho hunseen
    | some v =>
      obtain ⟨heap, rfl, hv⟩ := hw.2 v rfl
      have ho' : heap.cells p = some (.object o) := hv.cells_container hfree ho rfl
      refine spec_bind.mpr (ends_objectAt_of ho' ?_)
      exact spec_writeCell.mpr ⟨v, heap, _, rfl, .refl _, hv⟩
  · rw [show replaced o i atomId existed = jelloMakeNull from if_neg hout]
    refine ends_objStoreSlot hk hnum hfree ho fun y hy ↦ ?_
    rw [numAt_null] at hy
    exact absurd hy (Option.some_ne_none _).symm

end Programs

/-- A set and the get that matches it. -/
inductive SlotPair
  | atom
  | key
  | elem
  deriving DecidableEq, Repr

def SlotPair.set : SlotPair → Ctx → JelloInsn → StoreM Unit
  | .atom => opObjSetAtom
  | .key => opObjSet
  | .elem => opArraySet

def SlotPair.get : SlotPair → Ctx → JelloInsn → StoreM Unit
  | .atom => opObjGetAtom
  | .key => opObjGet
  | .elem => opArrayGet

def containerOf (ctx : Ctx) (ins : JelloInsn) (s : Store) : JelloValue :=
  load64 s.mem (ctx.rf.addr ins.rb)

def indexOf (ctx : Ctx) (ins : JelloInsn) (s : Store) : UInt32 :=
  load32 s.mem (ctx.rf.addr ins.rc)

def SlotPair.slot (pr : SlotPair) (ctx : Ctx) (ins : JelloInsn) (s : Store) : Slot :=
  match pr with
  | .atom => .entry (containerOf ctx ins s) ins.imm
  | .key => .entry (containerOf ctx ins s) (indexOf ctx ins s)
  | .elem => .elem (containerOf ctx ins s) (indexOf ctx ins s).toNat

/-- The number in the first register of the instruction. -/
def operandNum (ctx : Ctx) (ins : JelloInsn) (s : Store) : Num :=
  regNum (regKind ctx.m ctx.f ins.ra) s.mem (ctx.rf.addr ins.ra)

/-- The same slot, and a register of the same kind. -/
structure Matches (pr : SlotPair) (ctx : Ctx) (ins ins' : JelloInsn) : Prop where
  container : ins'.rb = ins.rb
  atom (h : pr = .atom) : ins'.imm = ins.imm
  index (h : pr ≠ .atom) : ins'.rc = ins.rc
  kind : regKind ctx.m ctx.f ins'.ra = regKind ctx.m ctx.f ins.ra

/-- After the set, the get returns the number that the set was given, and no other slot has
changed. -/
def ReadsBack (pr : SlotPair) (ctx : Ctx) (ins ins' : JelloInsn) (s s' : Store) : Prop :=
  ∃ s'', result (pr.get ctx ins') s' = .ok ((), s'') ∧
    operandNum ctx ins' s'' = operandNum ctx ins s ∧
    OthersSame (pr.slot ctx ins s) s.heap s''.heap

/-- A number box that the store finds in the slot holds the number already, or else it is of the
kind of the register and no other slot refers to it. Of the entry for the prototype the old
value is not looked at. -/
def BoxOk (pr : SlotPair) (ctx : Ctx) (ins : JelloInsn) (s : Store) : Prop :=
  ∀ old, s.heap.SlotHas (pr.slot ctx ins s) old →
    (∀ p, pr.slot ctx ins s ≠ .entry p jelloAtomProto) →
    InplaceOk (regKind ctx.m ctx.f ins.ra) (operandNum ctx ins s) s.heap (pr.slot ctx ins s) old

/-- The slot is there and holds `v`. -/
def SlotReady (pr : SlotPair) (ctx : Ctx) (ins : JelloInsn) (s : Store) (v : JelloValue) : Prop :=
  let p := containerOf ctx ins s
  let i := indexOf ctx ins s
  p ≠ 0 ∧
    match pr with
    | .atom => ∃ o m, s.heap.cells p = some (.object o) ∧ Models o m ∧ m ins.imm = some v
    | .key =>
      i.toNat < ctx.m.atoms.length ∧
        ∃ o m, s.heap.cells p = some (.object o) ∧ Models o m ∧ m i = some v
    | .elem => ∃ a, s.heap.cells p = some (.array a) ∧ i < a.length ∧ a.data i.toNat = v

/-- What a set does: the slot is made ready, the number stored for it, and the slot written. -/
structure SetDone (pr : SlotPair) (ctx : Ctx) (ins : JelloInsn) (s s' : Store) (h₁ h₂ : Heap)
    (old v : JelloValue) : Prop where
  objects : ObjectsOk h₁
  fresh : FreshNext h₁
  before : Rewritten (pr.slot ctx ins s) s.heap h₁
  stored : Stored (regKind ctx.m ctx.f ins.ra) (operandNum ctx ins s) h₁ old v h₂
  after : Rewritten (pr.slot ctx ins s) h₂ s'.heap
  mem : s'.mem = s.mem
  ready : SlotReady pr ctx ins s' v
  boxOk : BoxOk pr ctx ins s ↔
    InplaceOk (regKind ctx.m ctx.f ins.ra) (operandNum ctx ins s) h₁ (pr.slot ctx ins s) old

section Sets

variable {ctx : Ctx} {ins : JelloInsn} {s s' : Store}

theorem ends_congr {α : Type} {x y : StoreM α} {Q : α → Store → Prop}
    (h : result x s = result y s) (hy : Ends y Q s) : Ends x Q s :=
  ends_iff.mpr fun _ _ hr ↦ hy.of_result (h.symm.trans hr)

theorem ends_trapped {code : TrapCode} {msg : String} {Q : Store → Prop} :
    Ends (jelloVmTrap ctx code msg) (fun _ s' ↦ s'.excPending = false → Q s') s :=
  spec_jelloVmTrap.mpr fun h ↦ absurd h.symm Bool.false_ne_true

theorem ends_opArraySet (hnum : (regKind ctx.m ctx.f ins.ra).isNumeric = true)
    (hok : ObjectsOk s.heap) (hfresh : FreshNext s.heap) :
    Ends (opArraySet ctx ins) (fun _ s' ↦ s'.excPending = false →
      ∃ h₁ h₂ old v, SetDone .elem ctx ins s s' h₁ h₂ old v) s := by
  refine spec_bind.mpr (spec_vmLoadPtr.mpr ⟨trivial, spec_ite.mpr
    ⟨fun _ ↦ ends_trapped, fun hp ↦ spec_bind.mpr (ends_arrayAt fun a ha ↦ ?_)⟩⟩)
  refine spec_bind.mpr (spec_vmLoadU32.mpr ⟨trivial, spec_ite.mpr
    ⟨fun _ ↦ ends_trapped, fun hi ↦ ?_⟩⟩)
  refine ends_congr (setF64_same ctx ins.ra ins.rb _ ha).symm ((ends_storeElem rfl hnum).mono ?_)
  rintro _ s' ⟨v, heap, rfl, hst⟩ -
  have hlt : indexOf ctx ins s < a.length := UInt32.not_le.mp hi
  have ha' : heap.cells (containerOf ctx ins s) = some (.array a) :=
    hst.cells_container hfresh.free ha rfl
  have hslot : s.heap.SlotHas (SlotPair.elem.slot ctx ins s)
      (a.data (indexOf ctx ins s).toNat) := ⟨a, ha, UInt32.lt_iff_toNat_lt.mp hlt, rfl⟩
  refine ⟨s.heap, heap, _, v, hok, hfresh, .refl _ _, hst, rewritten_array ha' _ v, rfl,
    ⟨hp, a.write (indexOf ctx ins s) v, ?_, hlt, ?_⟩, ?_⟩
  · exact Heap.write_self _ _ _
  · exact a.write_self (indexOf ctx ins s) v
  · constructor
    · intro hbox
      exact hbox _ hslot fun _ h ↦ Slot.noConfusion h
    · intro hinplace old hold _
      rwa [slotHas_unique hok hold hslot]

theorem ends_setEntry {pr : SlotPair} {k i : UInt32} {b : Bool} {o o₁ : JelloObject}
    {m : AtomMap} (hnum : (regKind ctx.m ctx.f ins.ra).isNumeric = true)
    (hok : ObjectsOk s.heap) (hfresh : FreshNext s.heap)
    (hslot : pr.slot ctx ins s = .entry (containerOf ctx ins s) k)
    (hp : s.heap.cells (containerOf ctx ins s) = some (.object o)) (ho : Models o m)
    (hput : Models o₁ (update m k (some ((m k).getD jelloMakeNull))) ∧ b = (m k).isSome ∧
      Holds o₁.table i.toNat k)
    (hready : ∀ s' v o' m', s'.mem = s.mem →
      s'.heap.cells (containerOf ctx ins s) = some (.object o') → Models o' m' → m' k = some v →
      SlotReady pr ctx ins s' v) :
    Ends (do
      writeCell (containerOf ctx ins s) (.object o₁)
      objStoreTyped ctx ins.ra (containerOf ctx ins s) k i b)
      (fun _ s' ↦ ∃ h₁ h₂ old v, SetDone pr ctx ins s s' h₁ h₂ old v) s := by
  obtain ⟨ho₁, hb, hi⟩ := hput
  refine spec_bind.mpr (spec_writeCell.mpr ?_)
  have hentry (k' : UInt32) (hk' : k' ≠ k) (v : JelloValue) :
      o.HasEntry k' v ↔ o₁.HasEntry k' v := by
    rw [ho.hasEntry_iff, ho₁.hasEntry_iff, update_of_ne hk']
  have hbefore := rewritten_object hp hentry
  have hfresh₁ := freshNext_upserted hfresh hp ho ho₁ hbefore
  have hp₁ : (s.heap.write (containerOf ctx ins s) (.object o₁)).cells (containerOf ctx ins s) =
      some (.object o₁) := Heap.write_self _ _ _
  have hstore : Ends (objStoreTyped ctx ins.ra (containerOf ctx ins s) k i b) _
      { s with heap := s.heap.write (containerOf ctx ins s) (.object o₁) } :=
    ends_objStoreTyped rfl hnum hfresh₁.free hp₁
  refine hstore.mono ?_
  rintro _ s' ⟨v, heap, o', rfl, hsame, hst⟩
  have ho' : Models o' (update m k (some v)) := by
    have hwritten := (ho₁.writeSlot hi v).congr hsame
    rwa [update_idem] at hwritten
  have hp₂ : heap.cells (containerOf ctx ins s) = some (.object o₁) :=
    hst.cells_container hfresh₁.free hp₁ rfl
  have hentry' (k' : UInt32) (hk' : k' ≠ k) (w : JelloValue) :
      o₁.HasEntry k' w ↔ o'.HasEntry k' w := by
    rw [ho₁.hasEntry_iff, ho'.hasEntry_iff, update_of_ne hk', update_of_ne hk']
  refine ⟨_, heap, _, v, objectsOk_write hok ho₁, hfresh₁, hslot ▸ hbefore, hst,
    hslot ▸ rewritten_object hp₂ hentry', rfl, ?_, ?_⟩
  · exact hready _ v o' _ rfl (Heap.write_self _ _ _) ho' (update_self k (some v) m)
  · have hval {w : JelloValue} (hw : m k = some w) : o₁.vals i.toNat = w := by
      have hholds := ho₁.rep.of_holds hi
      rw [update_self, hw, Option.getD_some] at hholds
      exact (Option.some.inj hholds).symm
    simp only [BoxOk, hslot]
    rw [← hbefore.inplaceOk_iff]
    constructor
    · intro hbox
      by_cases hin : b = true ∧ k ≠ jelloAtomProto
      · obtain ⟨w, hw⟩ := Option.isSome_iff_exists.mp (hb.symm.trans hin.1)
        rw [replaced, if_pos hin, hval hw]
        refine hbox w ⟨o, hp, ho.hasEntry_iff.mpr hw⟩ fun q hq ↦ ?_
        exact hin.2 (Slot.entry.inj hq).2
      · rw [replaced, if_neg hin]
        exact inplaceOk_null _ _ _ _
    · rintro hin old ⟨o₂, ho₂, hentry₂⟩ hproto
      obtain rfl : o = o₂ := by simpa [hp] using ho₂
      have hw := ho.hasEntry_iff.mp hentry₂
      have hexisted : b = true ∧ k ≠ jelloAtomProto :=
        ⟨hb.trans (by rw [hw]; rfl), fun hk ↦ hproto _ (by rw [hk])⟩
      rwa [replaced, if_pos hexisted, hval hw] at hin

section Ready

variable {o : JelloObject} {m : AtomMap} {v : JelloValue}

theorem containerOf_congr (hmem : s'.mem = s.mem) :
    containerOf ctx ins s' = containerOf ctx ins s := by
  rw [containerOf, containerOf, hmem]

theorem indexOf_congr (hmem : s'.mem = s.mem) : indexOf ctx ins s' = indexOf ctx ins s := by
  rw [indexOf, indexOf, hmem]

theorem slotReady_atom (hp : containerOf ctx ins s ≠ 0) (hmem : s'.mem = s.mem)
    (ho : s'.heap.cells (containerOf ctx ins s) = some (.object o)) (hm : Models o m)
    (hv : m ins.imm = some v) : SlotReady .atom ctx ins s' v := by
  unfold SlotReady
  simp only [containerOf_congr hmem]
  exact ⟨hp, o, m, ho, hm, hv⟩

theorem slotReady_key (hp : containerOf ctx ins s ≠ 0) (hmem : s'.mem = s.mem)
    (hatom : (indexOf ctx ins s).toNat < ctx.m.atoms.length)
    (ho : s'.heap.cells (containerOf ctx ins s) = some (.object o)) (hm : Models o m)
    (hv : m (indexOf ctx ins s) = some v) : SlotReady .key ctx ins s' v := by
  unfold SlotReady
  simp only [containerOf_congr hmem, indexOf_congr hmem]
  exact ⟨hp, hatom, o, m, ho, hm, hv⟩

end Ready

theorem ends_opObjSetAtom (hnum : (regKind ctx.m ctx.f ins.ra).isNumeric = true)
    (hok : ObjectsOk s.heap) (hfresh : FreshNext s.heap) :
    Ends (opObjSetAtom ctx ins) (fun _ s' ↦ s'.excPending = false →
      ∃ h₁ h₂ old v, SetDone .atom ctx ins s s' h₁ h₂ old v) s := by
  have htyped : Ends (vmObjSetAtomTyped ctx ins.ra ins.rb ins.imm ins.c.toUInt32)
      (fun _ s' ↦ s'.excPending = false →
        ∃ h₁ h₂ old v, SetDone .atom ctx ins s s' h₁ h₂ old v) s := by
    refine spec_bind.mpr (spec_vmLoadPtr.mpr ⟨trivial, spec_ite.mpr ⟨fun _ ↦ ?_, fun hp ↦ ?_⟩⟩)
    · exact spec_bind.mpr (ends_trapped.mono fun _ _ h ↦ (spec_pure _).mpr h)
    refine spec_bind.mpr (spec_note.mpr ⟨trivial, spec_bind.mpr ?_⟩)
    refine (ends_objectAt _ s).mono ?_
    rintro o s' ⟨rfl, ho⟩
    obtain ⟨m, hm⟩ := hok _ o ho
    cases hput : jelloObjectSetSlot o ins.c.toUInt32 ins.imm with
    | none => exact spec_bind.mpr (spec_fail _)
    | some r =>
      obtain ⟨i, b, o₁⟩ := r
      have hentry := ends_setEntry hnum hok hfresh rfl ho hm (setSlot_spec hm hput)
        fun _ _ _ _ hmem ho' hm' hv ↦ slotReady_atom hp hmem ho' hm' hv
      refine spec_bind.mpr ((spec_pure _).mpr (spec_bind.mpr ((spec_bind.mp hentry).mono ?_)))
      intro _ s₁ h₁
      exact spec_bind.mpr (h₁.mono fun _ _ h ↦ (spec_pure _).mpr fun _ ↦ h)
  exact spec_bind.mpr (htyped.mono fun _ _ h ↦ (spec_pure _).mpr h)

theorem ends_opObjSet (hnum : (regKind ctx.m ctx.f ins.ra).isNumeric = true)
    (hok : ObjectsOk s.heap) (hfresh : FreshNext s.heap) :
    Ends (opObjSet ctx ins) (fun _ s' ↦ s'.excPending = false →
      ∃ h₁ h₂ old v, SetDone .key ctx ins s s' h₁ h₂ old v) s := by
  refine spec_bind.mpr (spec_vmLoadPtr.mpr ⟨trivial, spec_ite.mpr
    ⟨fun _ ↦ spec_fail _, fun hp ↦ spec_bind.mpr (spec_vmLoadU32.mpr ⟨trivial, spec_ite.mpr
      ⟨fun _ ↦ ends_trapped, fun hatom ↦ ?_⟩⟩)⟩⟩)
  refine spec_bind.mpr ((ends_objectAt _ s).mono ?_)
  rintro o s' ⟨rfl, ho⟩
  obtain ⟨m, hm⟩ := hok _ o ho
  cases hput : jelloObjectUpsert o (load32 s'.mem (ctx.rf.addr ins.rc)) with
  | none => exact spec_bind.mpr (spec_fail _)
  | some r =>
    obtain ⟨i, b, o₁⟩ := r
    have hentry := ends_setEntry hnum hok hfresh rfl ho hm (upsert_spec hm hput)
      fun _ _ _ _ hmem ho' hm' hv ↦
        slotReady_key hp hmem (Nat.not_le.mp hatom) ho' hm' hv
    refine spec_bind.mpr ((spec_pure _).mpr ?_)
    exact hentry.mono fun _ _ h _ ↦ h

end Sets

section Gets

variable {ctx : Ctx} {ins : JelloInsn} {s : Store} {o : JelloObject} {m : AtomMap} {k : UInt32}
  {v : JelloValue} {n : Num}

theorem findOccupied_present (h : Models o m) (hk : m k = some v) :
    ∃ i o', findOccupiedSlot (probeFuel o) o k = some (i, true, o') ∧ SameEntries o o' ∧
      o'.vals i.toNat = v := by
  have hpresent : ¬Absent o.table k := h.rep.isSome_iff.mp (by rw [hk]; rfl)
  obtain ⟨⟨i, b, o'⟩, hf⟩ := Option.isSome_iff_exists.mp
    (findOccupiedSlot_returns h.inv (.inr hpresent) (le_refl (probeFuel o)))
  obtain ⟨hsame, hres⟩ := findOccupiedSlot_spec h.inv hf
  rcases hres with ⟨rfl, hholds⟩ | ⟨-, habsent⟩
  · refine ⟨i, o', hf, hsame, ?_⟩
    have hval := (h.congr hsame).rep.of_holds (hsame.1 ▸ hholds)
    exact (Option.some.inj (hk.symm.trans hval)).symm
  · exact absurd habsent hpresent

theorem get_present (h : Models o m) (hk : m k = some v) :
    ∃ o', jelloObjectGet o k = some (v, o') ∧ SameEntries o o' := by
  obtain ⟨i, o', hf, hsame, hval⟩ := findOccupied_present h hk
  exact ⟨o', by simp [jelloObjectGet, hf, hval], hsame⟩

theorem getSlot_present (h : Models o m) (hk : m k = some v) (hint : UInt32) :
    ∃ o', jelloObjectGetSlot o hint k = some (v, o') ∧ SameEntries o o' := by
  unfold jelloObjectGetSlot
  split_ifs with hs
  · have hval := h.rep.of_holds (slotHolds_iff.mp hs)
    rw [hk] at hval
    exact ⟨o, by rw [Option.some.inj hval]; rfl, .refl o⟩
  · exact get_present h hk

theorem slot_present (h : Models o m) (hk : m k = some v) :
    ∃ i o', jelloObjectSlot o k = some (some i, o') ∧ SameEntries o o' ∧ o'.vals i.toNat = v := by
  obtain ⟨i, o', hf, hsame, hval⟩ := findOccupied_present h hk
  exact ⟨i, o', by simp [jelloObjectSlot, hf], hsame, hval⟩

theorem result_vmLoad64 {rf : RegFrame} {r : ℕ} :
    result (vmLoad64 rf r) s = .ok (load64 s.mem (rf.addr r), s) := rfl

theorem result_vmLoadU32 {rf : RegFrame} {r : ℕ} :
    result (vmLoadU32 rf r) s = .ok (load32 s.mem (rf.addr r), s) := rfl

theorem result_arrayAt_of {p : JelloValue} {a : JelloArray}
    (ha : s.heap.cells p = some (.array a)) : result (arrayAt p) s = .ok (a, s) := by
  simp only [arrayAt, result_bind, result_cellAt ha, Except.bind]
  rfl

theorem result_objectAt_of {p : JelloValue} (ho : s.heap.cells p = some (.object o)) :
    result (objectAt p) s = .ok (o, s) := by
  simp only [objectAt, result_bind, result_cellAt ho, Except.bind]
  rfl

theorem result_opArrayGet (h : SlotReady .elem ctx ins s v) (hv : s.heap.Carries v n)
    (hn : n.fits (regKind ctx.m ctx.f ins.ra) = true) :
    result (opArrayGet ctx ins) s =
      .ok ((), s.setMem (writeReg n s.mem (ctx.rf.addr ins.ra))) := by
  obtain ⟨hp, a, ha, hi, rfl⟩ := h
  have hp' : ¬load64 s.mem (ctx.rf.addr ins.rb) = 0 := hp
  have hi' : ¬a.length ≤ load32 s.mem (ctx.rf.addr ins.rc) := UInt32.not_le.mpr hi
  refine (result_then result_vmLoad64).trans ?_
  rw [if_neg hp']
  refine (result_then (result_arrayAt_of ha)).trans ((result_then result_vmLoadU32).trans ?_)
  rw [if_neg hi']
  exact (getF64_same ctx ins.ra ins.rb (a.data (indexOf ctx ins s).toNat) s).symm.trans
    (result_vmStoreFromBoxed rfl hn hv)

theorem result_protoWalk (ctx : Ctx) {p : JelloValue} (fuel : ℕ)
    (ho : s.heap.cells p = some (.object o)) (hm : Models o m) (hk : m k = some v) :
    ∃ o', SameEntries o o' ∧ result (protoWalk ctx k (fuel + 1) p) s =
        .ok (some v, { s with heap := s.heap.write p (.object o') }) := by
  obtain ⟨i, o', hslot, hsame, rfl⟩ := slot_present hm hk
  refine ⟨o', hsame, ?_⟩
  refine (result_then (result_objectAt_of ho)).trans ?_
  rw [hslot]
  exact (result_then rfl).trans (result_then rfl)

/-- The get of an entry reads its slot, and leaves the table as it is. -/
def EntryGot (ctx : Ctx) (ins : JelloInsn) (o : JelloObject) (n : Num) (s s' : Store) : Prop :=
  ∃ o', SameEntries o o' ∧
    s' = { s with
      heap := s.heap.write (containerOf ctx ins s) (.object o')
      mem := writeReg n s.mem (ctx.rf.addr ins.ra) }

theorem result_storeEntry {p : JelloValue} (ho : s.heap.cells p = some (.object o))
    (o' : JelloObject) (hv : s.heap.Carries v n)
    (hn : n.fits (regKind ctx.m ctx.f ins.ra) = true) :
    result (vmStoreFromBoxed ctx.m ctx.fpu ctx.f ctx.rf ins.ra v)
        { s with heap := s.heap.write p (.object o') } =
      .ok ((), { s with
        heap := s.heap.write p (.object o'), mem := writeReg n s.mem (ctx.rf.addr ins.ra) }) :=
  result_vmStoreFromBoxed rfl hn (carries_congr (numAt_container ho rfl rfl v) hv)

theorem result_opObjGet (hp : containerOf ctx ins s ≠ 0)
    (hatom : (indexOf ctx ins s).toNat < ctx.m.atoms.length)
    (ho : s.heap.cells (containerOf ctx ins s) = some (.object o)) (hm : Models o m)
    (hk : m (indexOf ctx ins s) = some v) (hv : s.heap.Carries v n)
    (hn : n.fits (regKind ctx.m ctx.f ins.ra) = true) :
    ∃ s', result (opObjGet ctx ins) s = .ok ((), s') ∧ EntryGot ctx ins o n s s' := by
  have hp' : ¬load64 s.mem (ctx.rf.addr ins.rb) = 0 := hp
  have hatom' : ¬ctx.m.atoms.length ≤ (load32 s.mem (ctx.rf.addr ins.rc)).toNat :=
    Nat.not_le.mpr hatom
  by_cases hproto : (!ctx.m.protoEnabled) = true ∨
      load32 s.mem (ctx.rf.addr ins.rc) = jelloAtomProto
  · obtain ⟨o', hget, hsame⟩ := get_present hm hk
    have hget' : result (orDiverge (jelloObjectGet o (load32 s.mem (ctx.rf.addr ins.rc)))) s =
        .ok ((v, o'), s) := by
      rw [show jelloObjectGet o (load32 s.mem (ctx.rf.addr ins.rc)) = some (v, o') from hget]
      rfl
    refine ⟨_, ?_, o', hsame, rfl⟩
    refine (result_then result_vmLoad64).trans ?_
    rw [if_neg hp']
    refine (result_then result_vmLoadU32).trans ?_
    rw [if_neg hatom', if_pos hproto]
    refine (result_then (result_objectAt_of ho)).trans ((result_then hget').trans ?_)
    exact (result_then rfl).trans (result_storeEntry ho o' hv hn)
  · obtain ⟨o', hsame, hwalk⟩ := result_protoWalk ctx 1025 ho hm hk
    refine ⟨_, ?_, o', hsame, rfl⟩
    refine (result_then result_vmLoad64).trans ?_
    rw [if_neg hp']
    refine (result_then result_vmLoadU32).trans ?_
    rw [if_neg hatom', if_neg hproto]
    exact (result_then hwalk).trans (result_storeEntry ho o' hv hn)

theorem result_opObjGetAtom (hp : containerOf ctx ins s ≠ 0)
    (ho : s.heap.cells (containerOf ctx ins s) = some (.object o)) (hm : Models o m)
    (hk : m ins.imm = some v) (hv : s.heap.Carries v n)
    (hn : n.fits (regKind ctx.m ctx.f ins.ra) = true) :
    ∃ s', result (opObjGetAtom ctx ins) s = .ok ((), s') ∧ EntryGot ctx ins o n s s' := by
  have hp' : ¬load64 s.mem (ctx.rf.addr ins.rb) = 0 := hp
  suffices htyped : ∃ s', result (vmObjGetAtomTyped ctx ins.ra ins.rb ins.imm ins.c.toUInt32) s =
      .ok (true, s') ∧ EntryGot ctx ins o n s s' by
    obtain ⟨s', hr, hgot⟩ := htyped
    exact ⟨s', result_then hr, hgot⟩
  by_cases hproto : (!ctx.m.protoEnabled) = true ∨ ins.imm = jelloAtomProto ∨ o.proto = 0
  · obtain ⟨o', hget, hsame⟩ := getSlot_present hm hk ins.c.toUInt32
    have hget' : result (orDiverge (jelloObjectGetSlot o ins.c.toUInt32 ins.imm)) s =
        .ok ((v, o'), s) := by
      rw [hget]
      rfl
    refine ⟨_, ?_, o', hsame, rfl⟩
    refine (result_then result_vmLoad64).trans ?_
    rw [if_neg hp']
    refine (result_then rfl).trans ((result_then (result_objectAt_of ho)).trans ?_)
    rw [if_pos hproto]
    refine (result_then hget').trans ((result_then rfl).trans ((result_then rfl).trans ?_))
    have hstore := result_storeEntry ho o' hv hn
    let s₁ : Store := { s with heap := s.heap.write (containerOf ctx ins s) (.object o') }
    have hv' : s₁.heap.Carries v n := carries_congr (numAt_container ho rfl rfl v) hv
    generalize hkind : regKind ctx.m ctx.f ins.ra = k at hn
    have hkind' : (ctx.m.type ((ctx.m.func ctx.f).regType ins.ra)).kind = k := hkind
    rw [hkind']
    cases n with
    | word x =>
      obtain rfl : v = jelloMakeI32 x := hv'
      cases k <;> simp only [Num.fits, Kind.isWord, Bool.false_eq_true] at hn <;>
        simp only [jelloIsI32_make, jelloAsI32_make, if_true] <;> rfl
    | i64 x =>
      obtain rfl : k = .i64 := by simpa [Num.fits] using hn
      exact result_then (result_boxI64At (s := s₁) hv')
    | f64 x =>
      obtain rfl : k = .f64 := by simpa [Num.fits] using hn
      exact result_then (result_boxF64At_num (s := s₁) hv')
    | f32 x =>
      obtain rfl : k = .f32 := by simpa [Num.fits] using hn
      exact result_then (result_boxF32At (s := s₁) hv')
    | f16 x =>
      obtain rfl : k = .f16 := by simpa [Num.fits] using hn
      exact result_then hstore
  · obtain ⟨o', hsame, hwalk⟩ := result_protoWalk ctx 1025 ho hm hk
    refine ⟨_, ?_, o', hsame, rfl⟩
    refine (result_then result_vmLoad64).trans ?_
    rw [if_neg hp']
    refine (result_then rfl).trans ((result_then (result_objectAt_of ho)).trans ?_)
    rw [if_neg hproto]
    exact (result_then hwalk).trans (result_then (result_storeEntry ho o' hv hn))

end Gets

section ReadBack

variable {pr : SlotPair} {ctx : Ctx} {ins ins' : JelloInsn} {s s' : Store} {v : JelloValue}
  {n : Num}

theorem rewritten_got {o : JelloObject} {m : AtomMap} {k : UInt32}
    (ho : s.heap.cells (containerOf ctx ins s) = some (.object o)) (hm : Models o m)
    (hgot : EntryGot ctx ins o n s s') :
    Rewritten (.entry (containerOf ctx ins s) k) s.heap s'.heap := by
  obtain ⟨o', hsame, rfl⟩ := hgot
  refine rewritten_object ho fun k' _ w ↦ ?_
  rw [hm.hasEntry_iff, (hm.congr hsame).hasEntry_iff]

theorem operandNum_got {o : JelloObject} (hn : n.fits (regKind ctx.m ctx.f ins.ra) = true)
    (hgot : EntryGot ctx ins o n s s') : operandNum ctx ins s' = n := by
  obtain ⟨o', -, rfl⟩ := hgot
  exact regNum_writeReg hn _ _

theorem result_get (hr : SlotReady pr ctx ins s v) (hv : s.heap.Carries v n)
    (hn : n.fits (regKind ctx.m ctx.f ins.ra) = true) :
    ∃ s', result (pr.get ctx ins) s = .ok ((), s') ∧ operandNum ctx ins s' = n ∧
      Rewritten (pr.slot ctx ins s) s.heap s'.heap := by
  cases pr with
  | atom =>
    obtain ⟨hp, o, m, ho, hm, hk⟩ := hr
    obtain ⟨s', hget, hgot⟩ := result_opObjGetAtom hp ho hm hk hv hn
    exact ⟨s', hget, operandNum_got hn hgot, rewritten_got ho hm hgot⟩
  | key =>
    obtain ⟨hp, hatom, o, m, ho, hm, hk⟩ := hr
    obtain ⟨s', hget, hgot⟩ := result_opObjGet hp hatom ho hm hk hv hn
    exact ⟨s', hget, operandNum_got hn hgot, rewritten_got ho hm hgot⟩
  | elem => exact ⟨_, result_opArrayGet hr hv hn, regNum_writeReg hn _ _, .refl _ _⟩

theorem Matches.slotReady (hm : Matches pr ctx ins ins') (hr : SlotReady pr ctx ins s v) :
    SlotReady pr ctx ins' s v := by
  have hcontainer : containerOf ctx ins' s = containerOf ctx ins s := by
    rw [containerOf, containerOf, hm.container]
  have hindex (h : pr ≠ .atom) : indexOf ctx ins' s = indexOf ctx ins s := by
    rw [indexOf, indexOf, hm.index h]
  cases pr with
  | atom =>
    unfold SlotReady at hr ⊢
    simpa only [hcontainer, hm.atom rfl] using hr
  | key =>
    unfold SlotReady at hr ⊢
    simpa only [hcontainer, hindex SlotPair.noConfusion] using hr
  | elem =>
    unfold SlotReady at hr ⊢
    simpa only [hcontainer, hindex SlotPair.noConfusion] using hr

theorem Matches.slot_eq (hm : Matches pr ctx ins ins') (hmem : s'.mem = s.mem) :
    pr.slot ctx ins' s' = pr.slot ctx ins s := by
  have hcontainer : containerOf ctx ins' s' = containerOf ctx ins s := by
    rw [containerOf, containerOf, hm.container, hmem]
  have hindex (h : pr ≠ .atom) : indexOf ctx ins' s' = indexOf ctx ins s := by
    rw [indexOf, indexOf, hm.index h, hmem]
  cases pr with
  | atom => simp only [SlotPair.slot, hcontainer, hm.atom rfl]
  | key => simp only [SlotPair.slot, hcontainer, hindex SlotPair.noConfusion]
  | elem => simp only [SlotPair.slot, hcontainer, hindex SlotPair.noConfusion]

theorem ends_set (hnum : (regKind ctx.m ctx.f ins.ra).isNumeric = true) (hok : ObjectsOk s.heap)
    (hfresh : FreshNext s.heap) :
    Ends (pr.set ctx ins) (fun _ s' ↦ s'.excPending = false →
      ∃ h₁ h₂ old v, SetDone pr ctx ins s s' h₁ h₂ old v) s := by
  cases pr with
  | atom => exact ends_opObjSetAtom hnum hok hfresh
  | key => exact ends_opObjSet hnum hok hfresh
  | elem => exact ends_opArraySet hnum hok hfresh

/-- A get after a typed store into the same slot returns the number that was stored, and the
store has changed no other slot, exactly if it may look into the box that it finds. -/
theorem typedStore_readsBack (hnum : (regKind ctx.m ctx.f ins.ra).isNumeric = true)
    (hok : ObjectsOk s.heap) (hfresh : FreshNext s.heap)
    (hset : result (pr.set ctx ins) s = .ok ((), s')) (hno : s'.excPending = false)
    (hmatch : Matches pr ctx ins ins') :
    ReadsBack pr ctx ins ins' s s' ↔ BoxOk pr ctx ins s := by
  obtain ⟨h₁, h₂, old, v, hdone⟩ := (ends_set hnum hok hfresh).of_result hset hno
  have hn : (operandNum ctx ins s).fits (regKind ctx.m ctx.f ins.ra) = true :=
    fits_regNum hnum _ _
  obtain ⟨n', hn', hcarries⟩ := hdone.stored.carries hdone.fresh hn
  obtain ⟨s'', hget, hnum', hgot⟩ := result_get (hmatch.slotReady hdone.ready)
    (carries_congr (hdone.after.nums v) hcarries) (hmatch.kind ▸ hn')
  have hslot : pr.slot ctx ins' s' = pr.slot ctx ins s := hmatch.slot_eq hdone.mem
  rw [hslot] at hgot
  have hlast : OthersSame (pr.slot ctx ins s) h₂ s''.heap :=
    hdone.after.othersSame.trans hgot.othersSame
  have hothers : OthersSame (pr.slot ctx ins s) s.heap s''.heap ↔
      OthersSame (pr.slot ctx ins s) h₁ h₂ := by
    constructor
    · intro h
      exact (hdone.before.othersSame.symm.trans h).trans hlast.symm
    · intro h
      exact (hdone.before.othersSame.trans h).trans hlast
  have hvalue : n' = operandNum ctx ins s ↔ h₂.Carries v (operandNum ctx ins s) := by
    constructor
    · rintro rfl
      exact hcarries
    · intro h
      exact hcarries.unique h hn' hn
  rw [hdone.boxOk, ← hdone.stored.faithful_iff hdone.objects hdone.fresh hn, ← hvalue, ← hothers]
  constructor
  · rintro ⟨s₃, hget', hnum₃, hsame⟩
    obtain rfl : s'' = s₃ := by simpa [hget] using hget'
    exact ⟨hnum'.symm.trans hnum₃, hsame⟩
  · rintro ⟨rfl, hsame⟩
    exact ⟨s'', hget, hnum', hsame⟩

end ReadBack

section Runs

variable {ex : Exec} {reference : Bool} {build : Build}

/-- The first `n` rounds, one more, and the head and the instruction of the next. -/
def executeTwice (ex : Exec) (reference : Bool) (build : Build) (n : ℕ) :
    VMM (((((Bool × Option ExecStatus) × Option ExecStatus) × Option ExecStatus) ×
      Option ExecStatus) × Option ExecStatus) := do
  let r ← executeAt ex reference build n
  let st₁ ← checkExc ex
  let st₂ ← execInsn ex reference build
  pure ((r, st₁), st₂)

/-- The steps of a program through two instructions, from what evaluation shows of them. -/
theorem executedTwice_states (vm₀ : VM) (n : ℕ) {β γ δ : Type} (f : VM → β) (g : VM → γ)
    (e : VM → δ) (b : β) (c : γ) (d : δ)
    (h₁ : (result (fetchAt ex reference build n) vm₀).toOption.map (fun r ↦ (r.1, f r.2)) =
      some (((true, none), none), b))
    (h₂ : (result (executeAt ex reference build n) vm₀).toOption.map (fun r ↦ (r.1, g r.2)) =
      some ((((true, none), none), none), c))
    (h₃ : (result (executeTwice ex reference build n) vm₀).toOption.map
      (fun r ↦ (r.1, e r.2)) = some ((((((true, none), none), none), none), none), d)) :
    ∃ vm₁ vm₂ vm₃ vm₄, Fetches ex reference build (fun _ ↦ True) vm₁ ∧ f vm₁ = b ∧
      result (execInsn ex reference build) vm₁ = .ok (none, vm₂) ∧ g vm₂ = c ∧
      result (checkExc ex) vm₂ = .ok (none, vm₃) ∧
      result (execInsn ex reference build) vm₃ = .ok (none, vm₄) ∧ e vm₄ = d := by
  obtain ⟨vm₁, vm₂, hfetch, hv₁, hexec, hv₂, hr₂⟩ := executed_states ex reference build vm₀ n
    f g none b c h₁ h₂
  obtain ⟨⟨r₃, vm₄⟩, hr₃, hv₃⟩ := result_of_view h₃
  simp only [Prod.mk.injEq] at hv₃
  obtain ⟨rfl, hv₃⟩ := hv₃
  obtain ⟨r, vm', hr, hrest⟩ := bind_ok hr₃
  obtain ⟨rfl, rfl⟩ : (((true, none), none), none) = r ∧ vm₂ = vm' := by simpa [hr₂] using hr
  obtain ⟨st₁, vm₃, hcheck, hrest⟩ := bind_ok hrest
  obtain ⟨st₂, vm'', hexec₂, hpure⟩ := bind_ok hrest
  obtain ⟨⟨rfl, rfl⟩, rfl⟩ : (st₁ = none ∧ st₂ = none) ∧ vm'' = vm₄ := by simpa using hpure
  exact ⟨vm₁, vm₂, vm₃, vm'', hfetch, hv₁, hexec, hv₂, hcheck, hexec₂, hv₃⟩

end Runs

/-- An entry gets an I64, then an I32, and is read into an I32. -/
def slotModule : JelloBcModule :=
  { tailTryModule with
    features := { (default : Features) with const64 := true }
    types := [⟨.object, 0⟩, ⟨.i64, 0⟩, ⟨.i32, 0⟩]
    atoms := [[95, 95, 112, 114, 111, 116, 111, 95, 95], [107]]
    constI64 := [5]
    funcs :=
      [{ regTypes := [0, 1, 2]
         capStart := 0
         insns := [{ op := .objNew, a := 0, b := 0, c := 0, imm := 0 },
           { op := .constI64, a := 1, b := 0, c := 0, imm := 0 },
           { op := .objSetAtom, a := 1, b := 0, c := 0, imm := 1 },
           { op := .constI32, a := 2, b := 0, c := 0, imm := 7 },
           { op := .objSetAtom, a := 2, b := 0, c := 0, imm := 1 },
           { op := .objGetAtom, a := 2, b := 0, c := 0, imm := 1 },
           { op := .ret, a := 2, b := 0, c := 0, imm := 0 }]
         sourceFile := 0
         lines := [] }] }

/-- The next instruction, whether something is pending, and the third register. -/
def VM.slotView (ex : Exec) (vm : VM) : Option JelloInsn × Bool × List (ℕ × UInt32) :=
  (vm.nextInsn ex, vm.store.excPending,
    vm.callFrames.map fun fr ↦ (fr.f, load32 vm.store.mem (fr.rf.addr 2)))

instance decEqSlotView : DecidableEq (Option JelloInsn × Bool × List (ℕ × UInt32)) := inferInstance

/-- The number 7 is stored over a box with 5, and 5 is read. -/
theorem objSetAtom_stale : Accepted slotModule ∧
    ∃ vm₁ vm₂ vm₃ vm₄, Fetches (Exec.alone slotModule) false .switch (fun _ ↦ True) vm₁ ∧
      vm₁.slotView (Exec.alone slotModule) =
        (some ⟨.objSetAtom, 2, 0, 0, 1⟩, false, [(0, 7)]) ∧
      result (execInsn (Exec.alone slotModule) false .switch) vm₁ = .ok (none, vm₂) ∧
      vm₂.slotView (Exec.alone slotModule) =
        (some ⟨.objGetAtom, 2, 0, 0, 1⟩, false, [(0, 7)]) ∧
      result (checkExc (Exec.alone slotModule)) vm₂ = .ok (none, vm₃) ∧
      result (execInsn (Exec.alone slotModule) false .switch) vm₃ = .ok (none, vm₄) ∧
      vm₄.slotView (Exec.alone slotModule) = (some ⟨.ret, 2, 0, 0, 0⟩, false, [(0, 5)]) := by
  refine ⟨by decide, ?_⟩
  exact executedTwice_states jelloVmCreate 4 _ _ _ _ _ _ (by decide +kernel) (by decide +kernel)
    (by decide +kernel)

/-- An array with two elements, each in a box of its own. -/
def slotArray : JelloArray := ⟨0, 2, fun i ↦ if i = 0 then 32 else 48⟩

/-- The third register holds 7, the first the array. -/
def slotStore : Store :=
  { jelloVmCreate.store with
    heap :=
      ⟨fun p ↦ if p = 16 then some (.array slotArray) else if p = 32 then some (.boxI64 0 5)
        else if p = 48 then some (.boxI64 0 9) else none, 64⟩
    mem := store64 (store64 (fun _ ↦ 0) 0 16) 16 7 }

/-- The array in the first register, the index in the second, the element in the third. -/
def slotCtx : Ctx :=
  { m := { slotModule with
      types := [⟨.array, 2⟩, ⟨.i32, 0⟩, ⟨.i64, 0⟩]
      funcs :=
        [{ regTypes := [0, 1, 2]
           capStart := 0
           insns := []
           sourceFile := 0
           lines := [] }] }
    fpu := default
    f := 0
    rf := ⟨0, [0, 8, 16], 3, 24⟩
    pc := 0 }

theorem slotStore_cell {p : JelloValue} {c : Cell} (hc : slotStore.heap.cells p = some c) :
    (p = 16 ∧ c = .array slotArray) ∨ ∃ x, c = .boxI64 0 x := by
  have hc' : (if p = 16 then some (Cell.array slotArray)
      else if p = 32 then some (.boxI64 0 5) else if p = 48 then some (.boxI64 0 9) else none) =
        some c := hc
  split_ifs at hc' with h16
  · exact .inl ⟨h16, (Option.some.inj hc').symm⟩
  · exact .inr ⟨5, (Option.some.inj hc').symm⟩
  · exact .inr ⟨9, (Option.some.inj hc').symm⟩

theorem slotStore_elem {t : Slot} {v : JelloValue} (h : slotStore.heap.SlotHas t v) :
    (t = .elem 16 0 ∧ v = 32) ∨ (t = .elem 16 1 ∧ v = 48) := by
  cases t with
  | elem p i =>
    obtain ⟨a, ha, hi, rfl⟩ := h
    obtain ⟨rfl, harray⟩ | ⟨x, hbox⟩ := slotStore_cell ha
    · obtain rfl := Cell.array.inj harray
      have hi' : i < 2 := hi
      interval_cases i
      · exact .inl ⟨rfl, rfl⟩
      · exact .inr ⟨rfl, rfl⟩
    · exact Cell.noConfusion hbox
  | entry p k =>
    obtain ⟨o, ho, -⟩ := h
    obtain ⟨-, harray⟩ | ⟨x, hbox⟩ := slotStore_cell ho
    · exact Cell.noConfusion harray
    · exact Cell.noConfusion hbox

theorem slotStore_objectsOk : ObjectsOk slotStore.heap := by
  intro p o ho
  obtain ⟨-, harray⟩ | ⟨x, hbox⟩ := slotStore_cell ho
  · exact Cell.noConfusion harray
  · exact Cell.noConfusion hbox

theorem slotStore_freshNext : FreshNext slotStore.heap := by
  refine ⟨by decide, by decide, fun t ht ↦ ?_⟩
  obtain ⟨-, hv⟩ | ⟨-, hv⟩ := slotStore_elem ht
  · exact absurd hv (by decide)
  · exact absurd hv (by decide)

/-- The number 7 is stored over the box with 5, which no other slot refers to. -/
theorem slotStore_readsBack : ∃ s',
    result (opArraySet slotCtx ⟨.arraySet, 2, 0, 1, 0⟩) slotStore = .ok ((), s') ∧
      ReadsBack .elem slotCtx ⟨.arraySet, 2, 0, 1, 0⟩ ⟨.arrayGet, 2, 0, 1, 0⟩ slotStore s' := by
  have hview : (result (opArraySet slotCtx ⟨.arraySet, 2, 0, 1, 0⟩) slotStore).toOption.map
      (fun r ↦ r.2.excPending) = some false := by decide +kernel
  obtain ⟨⟨⟨⟩, s'⟩, hr, hv⟩ := result_of_view hview
  have hset : result (SlotPair.elem.set slotCtx ⟨.arraySet, 2, 0, 1, 0⟩) slotStore =
      .ok ((), s') := hr
  have hmatch : Matches .elem slotCtx ⟨.arraySet, 2, 0, 1, 0⟩ ⟨.arrayGet, 2, 0, 1, 0⟩ :=
    ⟨rfl, fun h ↦ SlotPair.noConfusion h, fun _ ↦ rfl, rfl⟩
  have hslot : SlotPair.elem.slot slotCtx ⟨.arraySet, 2, 0, 1, 0⟩ slotStore = .elem 16 0 := by
    decide
  refine ⟨s', hset, (typedStore_readsBack (by decide) slotStore_objectsOk slotStore_freshNext hset
    hv hmatch).mpr fun old hold _ y y' _ _ ↦ .inr ⟨by decide, fun t ht hhas ↦ ?_⟩⟩
  rw [hslot] at hold ht
  obtain ⟨-, rfl⟩ | ⟨h1, -⟩ := slotStore_elem hold
  · obtain ⟨rfl, -⟩ | ⟨-, hother⟩ := slotStore_elem hhas
    · exact ht rfl
    · exact absurd hother (by decide)
  · exact absurd h1 (by decide)

end JelloVM
