import JelloVM.Handlers
import JelloVM.SlotStore

namespace JelloVM

open ByteMemory Logged

def elemKind (m : JelloBcModule) (tid : UInt32) : Kind := (m.type (m.type tid.toNat).param).kind

structure ArrayType (m : JelloBcModule) (tid : UInt32) : Prop where
  lt : tid.toNat < m.types.length
  kind : (m.type tid.toNat).kind = .array
  elem_lt : (m.type tid.toNat).param < m.types.length

/-- At `p` lies an array of the type whose element `i` is `v`. -/
def ElemAt (s : Store) (tid : UInt32) (p : JelloValue) (i : ℕ) (v : JelloValue) : Prop :=
  ∃ a, s.heap.cells p = some (.array a) ∧ a.typeId = tid ∧ i < a.length.toNat ∧ a.data i = v

/-- The instructions that give an array its elements. -/
inductive Creation
  | arrayNew
  | arrayResize
  deriving DecidableEq, Repr

/-- The element `i` of the array at `p` comes from the instruction and has not been written. -/
inductive FreshElem (m : JelloBcModule) (tid : UInt32) : Creation → JelloValue → ℕ → Store → Prop
  | created {ctx : Ctx} {ins : JelloInsn} {s s' : Store} {p : JelloValue} {a : JelloArray} {i : ℕ}
      (hm : ctx.m = m) (htype : ctx.fn.regType ins.ra = tid.toNat)
      (hrun : result (opArrayNew ctx ins) s = .ok ((), s')) (hno : s'.excPending = false)
      (hp : load64 s'.mem (ctx.rf.addr ins.ra) = p) (ha : s'.heap.cells p = some (.array a))
      (hi : i < a.length.toNat) : FreshElem m tid .arrayNew p i s'
  | grown {ctx : Ctx} {ins : JelloInsn} {s s' : Store} {p : JelloValue} {a a' : JelloArray} {i : ℕ}
      (hm : ctx.m = m) (hp : load64 s.mem (ctx.rf.addr ins.rb) = p)
      (ha : s.heap.cells p = some (.array a)) (htype : a.typeId = tid)
      (hrun : result (opArrayResize ctx ins) s = .ok ((), s'))
      (ha' : s'.heap.cells p = some (.array a')) (hlo : a.length.toNat ≤ i)
      (hhi : i < a'.length.toNat) : FreshElem m tid .arrayResize p i s'
  | kept {c : Creation} {p : JelloValue} {i : ℕ} {s s' : Store} (h : FreshElem m tid c p i s)
      (hsame : ∀ v, ElemAt s tid p i v → ElemAt s' tid p i v) : FreshElem m tid c p i s'

/-- What the instruction puts into an element. -/
def Creation.default : Creation → Kind → JelloValue
  | .arrayNew, .i8 | .arrayNew, .i16 | .arrayNew, .i32 => jelloMakeI32 0
  | .arrayNew, _ => jelloMakeNull
  | .arrayResize, .i8 | .arrayResize, .i16 | .arrayResize, .i32 | .arrayResize, .i64 =>
    jelloMakeI32 0
  | .arrayResize, .bool => jelloMakeBool false
  | .arrayResize, _ => jelloMakeNull

section Creation

variable {m : JelloBcModule} {tid : UInt32} {ctx : Ctx} {ins : JelloInsn} {s s' : Store}
  {p v : JelloValue} {i : ℕ}

theorem spec_elemKindOf_of (ht : ArrayType m tid) {Q : Option Kind → Store → Prop} :
    Ends (elemKindOf m tid.toNat) Q s ↔ Q (some (elemKind m tid)) s := by
  have hlt := ht.lt
  have helem := ht.elem_lt
  simp [elemKindOf, ht.kind, Nat.not_le.mpr hlt, Nat.not_le.mpr helem, elemKind]

theorem ends_opArrayNew_default (ht : ArrayType ctx.m tid)
    (htype : ctx.fn.regType ins.ra = tid.toNat) :
    Ends (opArrayNew ctx ins) (fun _ s' ↦ s'.excPending = false →
      ∃ a, s'.heap.cells (load64 s'.mem (ctx.rf.addr ins.ra)) = some (.array a) ∧
        a.typeId = tid ∧ ∀ i, a.data i = Creation.arrayNew.default (elemKind ctx.m tid)) s := by
  have htype' : (ctx.m.func ctx.f).regType ins.ra = tid.toNat := htype
  simp only [opArrayNew, spec_bind, spec_vmLoadU32, spec_read, spec_ite, spec_jelloVmTrap,
    spec_regTypeOf, true_and, htype']
  refine ⟨fun _ hno ↦ absurd hno (by simp), fun _ ↦ (spec_elemKindOf_of ht).mpr ?_⟩
  simp only [spec_gcAlloc, spec_vmStorePtr, true_and]
  intro _
  rw [load64_store64]
  refine ⟨_, Heap.alloc_cells_self _ _, UInt32.ofNat_toNat, fun i ↦ ?_⟩
  cases elemKind ctx.m tid <;> rfl

theorem ends_jelloArrayDefaultElem_of (ht : ArrayType m tid) {Q : JelloValue → Store → Prop} :
    Ends (jelloArrayDefaultElem m tid.toNat) Q s ↔
      Q (Creation.arrayResize.default (elemKind m tid)) s := by
  refine spec_bind.trans ((spec_elemKindOf_of ht).trans ?_)
  cases elemKind m tid <;> simp [Creation.default]

theorem ends_opArrayResize_default {a : JelloArray} (ht : ArrayType ctx.m a.typeId)
    (ha : s.heap.cells (load64 s.mem (ctx.rf.addr ins.rb)) = some (.array a)) :
    Ends (opArrayResize ctx ins) (fun _ s' ↦
      ∀ a', s'.heap.cells (load64 s.mem (ctx.rf.addr ins.rb)) = some (.array a') →
        a'.typeId = a.typeId ∧ ∀ i, a.length.toNat ≤ i → i < a'.length.toNat →
          a'.data i = Creation.arrayResize.default (elemKind ctx.m a.typeId)) s := by
  have hsame : ∀ a', s.heap.cells (load64 s.mem (ctx.rf.addr ins.rb)) = some (.array a') →
      a'.typeId = a.typeId ∧ ∀ i, a.length.toNat ≤ i → i < a'.length.toNat →
        a'.data i = Creation.arrayResize.default (elemKind ctx.m a.typeId) := by
    intro a' ha'
    obtain rfl : a = a' := by simpa [ha] using ha'
    exact ⟨rfl, fun i hlo hhi ↦ absurd hhi (Nat.not_lt.mpr hlo)⟩
  simp only [opArrayResize, spec_bind, spec_vmLoadPtr, spec_vmLoadU32, spec_ite,
    spec_jelloVmTrap, true_and]
  refine ⟨fun _ ↦ hsame, fun _ ↦ ends_arrayAt fun b hb ↦ ?_⟩
  obtain rfl : a = b := by simpa [ha] using hb
  simp only [spec_read, spec_pure, spec_writeCell]
  refine ⟨fun _ ↦ hsame, fun _ ↦ ⟨fun _ ↦ hsame, fun _ ↦ ⟨fun hle a' ha' ↦ ?_, fun _ ↦ ?_⟩⟩⟩
  · obtain rfl := Cell.array.inj (Option.some.inj ((Heap.write_self _ _ _).symm.trans ha'))
    have hle' := UInt32.le_iff_toNat_le.mp hle
    exact ⟨rfl, fun i hlo hhi ↦ absurd hhi (Nat.not_lt.mpr (hle'.trans hlo))⟩
  · refine (ends_jelloArrayDefaultElem_of ht).mpr fun a' ha' ↦ ?_
    obtain rfl := Cell.array.inj (Option.some.inj ((Heap.write_self _ _ _).symm.trans ha'))
    exact ⟨rfl, fun i hlo _ ↦ if_neg (Nat.not_lt.mpr hlo)⟩

/-- An element that nothing has written holds the default of the instruction that made it. -/
theorem freshElem_default {c : Creation} (ht : ArrayType m tid) (h : FreshElem m tid c p i s) :
    ElemAt s tid p i (c.default (elemKind m tid)) := by
  induction h with
  | created hm htype hrun hno hp ha hi =>
    subst hm hp
    obtain ⟨a', ha', htid, hdata⟩ := (ends_opArrayNew_default ht htype).of_result hrun hno
    obtain rfl := Cell.array.inj (Option.some.inj (ha.symm.trans ha'))
    exact ⟨_, ha, htid, hi, hdata _⟩
  | grown hm hp ha htype hrun ha' hlo hhi =>
    subst hm hp htype
    have hgrown := (ends_opArrayResize_default ht ha).of_result hrun _ ha'
    exact ⟨_, ha', hgrown.1, hhi, hgrown.2 _ hlo hhi⟩
  | kept _ hsame ih => exact hsame _ ih

end Creation

/-- `ARRAY_GET` reads the element `i` of the array at `p` into a register of the element type. -/
structure ReadsElem (m : JelloBcModule) (tid : UInt32) (ctx : Ctx) (ins : JelloInsn)
    (p : JelloValue) (i : ℕ) (s : Store) : Prop where
  module : ctx.m = m
  op : ins.op = .arrayGet
  checked : ∃ pc, jelloBcValidateInsn ctx.m ctx.fn ins pc = .ok ()
  type : ctx.fn.regType ins.rb = tid.toNat
  notNull : p ≠ 0
  array : load64 s.mem (ctx.rf.addr ins.rb) = p
  index : (load32 s.mem (ctx.rf.addr ins.rc)).toNat = i

section Reading

variable {m : JelloBcModule} {tid : UInt32} {ctx : Ctx} {ins : JelloInsn} {s : Store}
  {p v : JelloValue} {i : ℕ}

theorem ReadsElem.regKind_eq (h : ReadsElem m tid ctx ins p i s) :
    regKind ctx.m ctx.f ins.ra = elemKind m tid := by
  obtain ⟨pc, hval⟩ := h.checked
  simp only [jelloBcValidateInsn, h.op, arrayElemOf, verdict_bind_ok, require_ok] at hval
  have htype : elemOf ctx.m ctx.fn ins.rb = ctx.fn.regType ins.ra := hval.2.2
  change (ctx.m.type (ctx.fn.regType ins.ra)).kind = _
  rw [← htype, elemOf, h.type, h.module]
  rfl

theorem result_opArrayGet_default {c : Creation} {k : Kind} (h : ReadsElem m tid ctx ins p i s)
    (helem : ElemAt s tid p i (c.default k)) :
    result (opArrayGet ctx ins) s =
      result (vmStoreFromBoxed ctx.m ctx.fpu ctx.f ctx.rf ins.ra (c.default k)) s := by
  obtain ⟨a, ha, -, hi, hv⟩ := helem
  have hp : ¬ load64 s.mem (ctx.rf.addr ins.rb) = 0 := h.array ▸ h.notNull
  have hlen : ¬ a.length ≤ load32 s.mem (ctx.rf.addr ins.rc) := by
    rw [UInt32.not_le, UInt32.lt_iff_toNat_lt, h.index]
    exact hi
  have hcell : s.heap.cells (load64 s.mem (ctx.rf.addr ins.rb)) = some (.array a) := h.array ▸ ha
  refine (result_then result_vmLoad64).trans ?_
  rw [if_neg hp]
  refine (result_then (result_arrayAt_of hcell)).trans ((result_then result_vmLoadU32).trans ?_)
  rw [if_neg hlen, h.index]
  exact hv ▸ (getF64_same ctx ins.ra ins.rb (a.data i) s).symm

theorem result_vmStoreFromBoxed_default (c : Creation) (fpu : Fpu) {f r : ℕ} {rf : RegFrame} :
    (∃ s', result (vmStoreFromBoxed m fpu f rf r (c.default (regKind m f r))) s = .ok ((), s')) ↔
      regKind m f r ≠ .atom ∧ (c = .arrayNew → regKind m f r ≠ .bool) := by
  rw [vmStoreFromBoxed, result_then (result_vmRegKind m f r s)]
  cases regKind m f r <;> cases c
  case atom.arrayNew | atom.arrayResize | bool.arrayNew =>
    refine iff_of_false ?_ (by simp)
    rintro ⟨s', hs'⟩
    exact Except.noConfusion rfl rfl (heq_of_eq hs')
  all_goals exact iff_of_true ⟨_, rfl⟩ (by simp)

theorem readsElem_ok_iff {c : Creation} (ht : ArrayType m tid) (hf : FreshElem m tid c p i s)
    (hr : ReadsElem m tid ctx ins p i s) :
    (∃ s', result (opArrayGet ctx ins) s = .ok ((), s')) ↔
      elemKind m tid ≠ .atom ∧ (c = .arrayNew → elemKind m tid ≠ .bool) := by
  rw [result_opArrayGet_default hr (freshElem_default ht hf), ← hr.regKind_eq]
  exact result_vmStoreFromBoxed_default c ctx.fpu

theorem default_eq_iff (k : Kind) :
    Creation.arrayNew.default k = Creation.arrayResize.default k ↔ k ≠ .bool ∧ k ≠ .i64 := by
  cases k <;> decide

theorem elemAt_unique {v' : JelloValue} (h : ElemAt s tid p i v) (h' : ElemAt s tid p i v') :
    v = v' := by
  obtain ⟨a, ha, -, -, rfl⟩ := h
  obtain ⟨a', ha', -, -, rfl⟩ := h'
  obtain rfl : a = a' := by simpa [ha] using ha'
  rfl

theorem Accepted.arrayType (hm : Accepted m) (hlt : tid.toNat < m.types.length)
    (hk : (m.type tid.toNat).kind = .array) : ArrayType m tid := by
  have hmem : m.type tid.toNat ∈ m.types := by simp [JelloBcModule.type, hlt]
  simp only [Accepted, jelloBcValidate, verdict_bind_ok, checkAll_ok] at hm
  have hentry := hm.2.1 _ hmem
  simp only [validateTypeEntry, hk, require_ok] at hentry
  exact ⟨hlt, hk, hentry⟩

/-- The two ways to make an element give the same default, and it can be read, exactly for the
element kinds other than `bool`, `atom` and `i64`. -/
theorem fresh_elem_iff (hm : Accepted m) (hlt : tid.toNat < m.types.length)
    (hk : (m.type tid.toNat).kind = .array) {ctx' : Ctx} {ins' : JelloInsn} {p' : JelloValue}
    {i' : ℕ} {s' : Store} (hnew : FreshElem m tid .arrayNew p i s)
    (hread : ReadsElem m tid ctx ins p i s) (hgrown : FreshElem m tid .arrayResize p' i' s')
    (hread' : ReadsElem m tid ctx' ins' p' i' s') :
    ((∃ t, result (opArrayGet ctx ins) s = .ok ((), t)) ∧
        (∃ t, result (opArrayGet ctx' ins') s' = .ok ((), t)) ∧
        ∀ v v', ElemAt s tid p i v → ElemAt s' tid p' i' v' → v = v') ↔
      elemKind m tid ≠ .bool ∧ elemKind m tid ≠ .atom ∧ elemKind m tid ≠ .i64 := by
  have ht := hm.arrayType hlt hk
  have hdefault := freshElem_default ht hnew
  have hdefault' := freshElem_default ht hgrown
  have hsame : (∀ v v', ElemAt s tid p i v → ElemAt s' tid p' i' v' → v = v') ↔
      elemKind m tid ≠ .bool ∧ elemKind m tid ≠ .i64 := by
    rw [← default_eq_iff]
    refine ⟨fun h ↦ h _ _ hdefault hdefault', fun h v v' hv hv' ↦ ?_⟩
    rw [elemAt_unique hv hdefault, elemAt_unique hv' hdefault', h]
  rw [readsElem_ok_iff ht hnew hread, readsElem_ok_iff ht hgrown hread', hsame]
  constructor
  · rintro ⟨⟨hatom, hbool⟩, -, -, hi64⟩
    exact ⟨hbool rfl, hatom, hi64⟩
  · rintro ⟨hbool, hatom, hi64⟩
    exact ⟨⟨hatom, fun _ ↦ hbool⟩, ⟨hatom, fun _ ↦ hbool⟩, hbool, hi64⟩

end Reading

def elemNew : JelloInsn := { op := .arrayNew, a := 2, b := 1, c := 0, imm := 0 }

def elemGrow : JelloInsn := { op := .arrayResize, a := 2, b := 2, c := 1, imm := 0 }

def elemGet : JelloInsn := { op := .arrayGet, a := 0, b := 2, c := 1, imm := 0 }

/-- An array of one element of the kind, and the element in a register. -/
def elemModule (k : Kind) : JelloBcModule :=
  { tailTryModule with
    types := [⟨k, 0⟩, ⟨.i32, 0⟩, ⟨.array, 0⟩]
    funcs :=
      [{ regTypes := [0, 1, 2]
         capStart := 0
         insns := [{ op := .constI32, a := 1, b := 0, c := 0, imm := 1 },
           elemNew,
           { op := .constI32, a := 1, b := 0, c := 0, imm := 0 },
           elemGet,
           { op := .ret, a := 0, b := 0, c := 0, imm := 0 }]
         sourceFile := 0
         lines := [] }] }

/-- A plain read of a new array of bools ends the process. -/
theorem new_bool_panics : Accepted (elemModule .bool) ∧
    faultOf (runTo (.alone (elemModule .bool)) false .switch 4) jelloVmCreate = some .panic :=
  ⟨by decide, by decide +kernel⟩

def elemCtx (k : Kind) : Ctx :=
  { m := elemModule k
    fpu := default
    f := 0
    rf := (vmGetFrameLayout (elemModule k) 0).frame 4096
    pc := 0 }

/-- The register of the lengths and indices is set. -/
def withIndex (k : Kind) (x : UInt32) (s : Store) : Store :=
  { s with mem := store32 s.mem ((elemCtx k).rf.addr 1) x }

def afterOp (x : StoreM Unit) (s : Store) : Store :=
  ((result x s).toOption.map Prod.snd).getD s

def newStore (k : Kind) : Store :=
  afterOp (opArrayNew (elemCtx k) elemNew)
    (withIndex k 1 jelloVmCreate.store)

def grownStore (k : Kind) : Store :=
  afterOp (opArrayResize (elemCtx k) elemGrow)
    (withIndex k 2 (newStore k))

theorem fresh_withIndex {m : JelloBcModule} {tid : UInt32} {c : Creation} {p : JelloValue} {i : ℕ}
    {s : Store} (h : FreshElem m tid c p i s) (k : Kind) (x : UInt32) :
    FreshElem m tid c p i (withIndex k x s) := h.kept fun _ hv ↦ hv

/-- Floats: both elements are null, and null is read as 0. -/
theorem fresh_f64_read :
    (∃ t, result (opArrayGet (elemCtx .f64) elemGet)
        (withIndex .f64 0 (newStore .f64)) = .ok ((), t)) ∧
      (∃ t, result (opArrayGet (elemCtx .f64) elemGet)
        (withIndex .f64 1 (grownStore .f64)) = .ok ((), t)) ∧
      ∀ v v', ElemAt (withIndex .f64 0 (newStore .f64)) 2 16 0 v →
        ElemAt (withIndex .f64 1 (grownStore .f64)) 2 16 1 v' → v = v' := by
  have hnew : FreshElem (elemModule .f64) 2 .arrayNew 16 0 (newStore .f64) :=
    @FreshElem.created _ _ (elemCtx .f64) elemNew (withIndex .f64 1 jelloVmCreate.store) _ _ _ _
      rfl rfl rfl rfl (by decide +kernel) rfl (by decide)
  have hgrown : FreshElem (elemModule .f64) 2 .arrayResize 16 1 (grownStore .f64) :=
    @FreshElem.grown _ _ (elemCtx .f64) elemGrow (withIndex .f64 2 (newStore .f64)) _ _ _ _ _
      rfl (by decide +kernel) rfl rfl rfl rfl (by decide) (by decide)
  exact (fresh_elem_iff (by decide) (by decide) (by decide)
    (fresh_withIndex hnew .f64 0) ⟨rfl, rfl, ⟨3, by decide⟩, rfl, by decide, by decide +kernel, rfl⟩
    (fresh_withIndex hgrown .f64 1)
    ⟨rfl, rfl, ⟨3, by decide⟩, rfl, by decide, by decide +kernel, rfl⟩).mpr (by decide)

end JelloVM
