import JelloVM.Collect
import JelloVM.ExecLoop

namespace JelloVM

open Function Logged

section Alloc

def gcHdrSize : ℕ := 24

/-- The first block of the free list that has the size. -/
def gcBoxFreePop (hdr : JelloValue → GcHdr) (total : ℕ) :
    List JelloValue → Option (JelloValue × List JelloValue)
  | [] => none
  | p :: ps =>
    if (hdr p).totalSize = total then some (p, ps)
    else (gcBoxFreePop hdr total ps).map fun r ↦ (r.1, p :: r.2)

def Gc.wantsCollect (g : Gc) : Bool := g.gcNextCollect ≠ 0 ∧ g.gcNextCollect ≤ g.gcBytesLive

/-- The block `p` becomes an object with the content `c`. -/
def GcVm.link (s : GcVm) (p : JelloValue) (total : ℕ) (c : Cell) : GcVm :=
  { s.setHeap (s.heap.write p c) with
    gc :=
      { s.gc with
        hdr := update s.gc.hdr p ⟨total, false⟩
        gcObjects := p :: s.gc.gcObjects
        gcBytesLive := s.gc.gcBytesLive + total } }

def GcVm.popped (s : GcVm) (free : List JelloValue) : GcVm :=
  { s with gc := { s.gc with gcBoxFree := free, gcBoxFreeLen := s.gc.gcBoxFreeLen - 1 } }

/-- `jello_gc_alloc_recycled` after its collection, and the constructor that fills in the block:
`init` is what it makes of an old block, or of a new one. `block` is what `malloc` returns, if it
is called. -/
def gcTake (size : ℕ) (block : JelloValue) (init : Option Cell → Cell) (s : GcVm) :
    JelloValue × GcVm :=
  match gcBoxFreePop s.gc.hdr (gcHdrSize + size) s.gc.gcBoxFree with
  | some (p, free) =>
    (p, (s.popped free).link p (gcHdrSize + size) (init (s.heap.cells p)))
  | none => (block, s.link block (gcHdrSize + size) (init none))

/-- `jello_object_new`: a small object that is recycled keeps its table. -/
def objectInit (typeId : UInt32) : Option Cell → Cell
  | some (.object mem) => .object (jelloObjectNew true mem typeId)
  | _ => .object (jelloObjectNew false default typeId)

end Alloc

abbrev GcM (α : Type) := Logged Fault Access GcVm α

def GcVm.setStore (s : GcVm) (st : Store) : GcVm := { s with vm := s.vm.setStore st }

def onGcStore {α : Type} (x : StoreM α) : GcM α :=
  onPart (fun s ↦ s.vm.store) GcVm.setStore x

namespace Collecting

variable (m : JelloBcModule)

/-- What cannot be collected has pointers to nothing. -/
def gcCollect : GcM Unit := fun s ↦
  match jelloGcCollect m s with
  | none => (.error .wild, [])
  | some t => (.ok ((), t), [])

/-- `malloc` hands out addresses in order, while there are any. -/
def take (size : ℕ) (init : Option Cell → Cell) : GcM JelloValue := fun s ↦
  if (s.heap.cells s.heap.next).isSome ∨ jelloIsPtr s.heap.next = false ∨ s.heap.next = 0 then
    (.error .panic, [])
  else
    let r := gcTake size s.heap.next init s
    (.ok (r.1, r.2.setHeap { r.2.heap with next := r.2.heap.next + 16 }), [])

def collectWhen (collects : Bool) : GcM Unit := if collects then gcCollect m else pure ()

def gcAllocWith (collects : Bool) (size : ℕ) (init : Option Cell → Cell) : GcM JelloValue := do
  collectWhen m collects
  take size init

/-- `jello_gc_alloc` -/
def gcAlloc (size : ℕ) (c : Cell) : GcM JelloValue := do
  let collects ← read fun s ↦ s.gc.wantsCollect
  gcAllocWith m collects size fun _ ↦ c

def jelloBoxI64New (typeId : ℕ) (v : UInt64) : GcM JelloValue :=
  gcAlloc m 16 (.boxI64 (UInt32.ofNat typeId) v)

def jelloBoxF64New (typeId : ℕ) (v : UInt64) : GcM JelloValue :=
  gcAlloc m 16 (.boxF64 (UInt32.ofNat typeId) v)

def jelloBoxF32New (typeId : ℕ) (v : UInt32) : GcM JelloValue :=
  gcAlloc m 12 (.boxF32 (UInt32.ofNat typeId) v)

def jelloBoxF16New (typeId : ℕ) (v : UInt16) : GcM JelloValue :=
  gcAlloc m 12 (.boxF16 (UInt32.ofNat typeId) v)

def vmBoxFromTyped (f : ℕ) (rf : RegFrame) (r : ℕ) : GcM JelloValue := do
  match ← onGcStore (vmRegKind m f r) with
  | .f32 => do
    let typeId ← onGcStore (regTypeOf m f r)
    let v ← onGcStore (vmLoadF32 rf r)
    jelloBoxF32New m typeId v
  | .f16 => do
    let typeId ← onGcStore (regTypeOf m f r)
    let v ← onGcStore (vmLoadF16Bits rf r)
    jelloBoxF16New m typeId v
  | .i64 => do
    let typeId ← onGcStore (regTypeOf m f r)
    let v ← onGcStore (vmLoadI64 rf r)
    jelloBoxI64New m typeId v
  | .f64 => do
    let typeId ← onGcStore (regTypeOf m f r)
    let v ← onGcStore (vmLoadF64 rf r)
    jelloBoxF64New m typeId v
  | _ => onGcStore (JelloVM.vmBoxFromTyped m f rf r)

def jelloBytesNew (typeId : ℕ) (length : UInt32) (data : ℕ → UInt8) : GcM JelloValue :=
  gcAlloc m (12 + length.toNat)
    (.bytes { typeId := UInt32.ofNat typeId, length := length, data := data })

def jelloEnumNew (typeId : ℕ) (tag : UInt32) (fields : List JelloValue) : GcM JelloValue :=
  gcAlloc m (16 + 8 * fields.length)
    (.enum
      { typeId := UInt32.ofNat typeId
        tag := tag
        nfields := UInt32.ofNat fields.length
        fields := fun i ↦ fields.getD i 0 })

def jelloEnumNullaryIntern (typeId : ℕ) (tag : UInt32) : GcM JelloValue := do
  let ntypes ← read fun s ↦ s.vm.store.enumNullaryNtypes
  if 256 ≤ tag ∨ ntypes ≤ typeId then jelloEnumNew m typeId tag []
  else do
    let e ← read fun s ↦ s.vm.store.enumNullary typeId tag
    if e ≠ 0 then pure e
    else do
      let e ← jelloEnumNew m typeId tag []
      onGcStore (change fun s ↦
        { s with
          enumNullary :=
            update s.enumNullary typeId (update (s.enumNullary typeId) tag e) })
      pure e

variable (ctx : Ctx)

/-- The fields are in C locals while the later ones are boxed. -/
def enumFields : ℕ → ℕ → GcM (List JelloValue)
  | _, 0 => pure []
  | r, n + 1 =>
    if ctx.fn.nregs ≤ r then fail .panic
    else do
      let v ← vmBoxFromTyped ctx.m ctx.f ctx.rf r
      let vs ← enumFields (r + 1) n
      pure (v :: vs)

def opEnumNew (ins : JelloInsn) : GcM Unit := do
  let typeId ← onGcStore (regTypeOf ctx.m ctx.f ins.ra)
  if ins.rc = 0 then do
    let e ← jelloEnumNullaryIntern ctx.m typeId ins.imm
    onGcStore (vmStorePtr ctx.rf ins.ra e)
  else do
    let fields ← enumFields ctx ins.rb ins.rc
    let e ← jelloEnumNew ctx.m typeId ins.imm fields
    onGcStore (vmStorePtr ctx.rf ins.ra e)

def opBytesNew (ins : JelloInsn) : GcM Unit := do
  let len ← onGcStore (vmLoadU32 ctx.rf ins.rb)
  let limit ← read fun s ↦ s.vm.store.maxBytesLen
  if limit ≠ 0 ∧ limit < len then
    onGcStore (jelloVmTrap ctx .limit "bytes_new length exceeds limit")
  else do
    let typeId ← onGcStore (regTypeOf ctx.m ctx.f ins.ra)
    let b ← jelloBytesNew ctx.m typeId len fun _ ↦ 0
    onGcStore (vmStorePtr ctx.rf ins.ra b)

end Collecting

section Off

/-- Nothing is collected, and nothing has been. -/
def GcVm.Off (s : GcVm) : Prop := s.gc.gcNextCollect = 0 ∧ s.gc.gcBoxFree = []

/-- With the collector off, what `x` gives is what `y` gives. -/
def GivesSame {α : Type} (x : GcM α) (y : StoreM α) : Prop :=
  ∀ s : GcVm, s.Off →
    Ends x (fun a t ↦ result y s.vm.store = .ok (a, t.vm.store) ∧ t.Off) s

variable {α β : Type} {m : JelloBcModule} {ctx : Ctx} {ins : JelloInsn}

theorem givesSame_bind {x : GcM α} {y : StoreM α} {f : α → GcM β} {g : α → StoreM β}
    (hx : GivesSame x y) (hf : ∀ a, GivesSame (f a) (g a)) : GivesSame (x >>= f) (y >>= g) := by
  intro s hs
  refine spec_bind.mpr ((hx s hs).mono fun a t ht ↦ (hf a t ht.2).mono fun b u hu ↦ ⟨?_, hu.2⟩)
  rw [result_then ht.1]
  exact hu.1

theorem givesSame_pure (a : α) : GivesSame (pure a) (pure a) := fun _ hs ↦
  (spec_pure a).mpr ⟨rfl, hs⟩

theorem givesSame_read (f : Store → α) : GivesSame (read fun s ↦ f s.vm.store) (read f) := fun _ hs ↦
  (spec_read _).mpr ⟨rfl, hs⟩

theorem givesSame_onGcStore (x : StoreM α) : GivesSame (onGcStore x) x := fun _ hs ↦
  spec_onPart (ends_iff.mpr fun _ _ hr ↦ ⟨hr, hs⟩)

theorem givesSame_ite {c : Prop} [Decidable c] {x x' : GcM α} {y y' : StoreM α}
    (h : GivesSame x y) (h' : GivesSame x' y') :
    GivesSame (if c then x else x') (if c then y else y') := by
  split_ifs
  · exact h
  · exact h'

theorem givesSame_fail (e : Fault) : GivesSame (fail e) (fail e : StoreM α) := fun _ _ ↦ spec_fail e

theorem givesSame_gcAlloc (size : ℕ) (c : Cell) :
    GivesSame (Collecting.gcAlloc m size c) (gcAlloc c) := by
  intro s hs
  have hno : s.gc.wantsCollect = false := by
    simp [Gc.wantsCollect, hs.1]
  refine spec_bind.mpr ((spec_read _).mpr ?_)
  rw [hno]
  refine spec_bind.mpr ((spec_pure ()).mpr (ends_iff.mpr fun p t hr ↦ ?_))
  have hpop : gcTake size s.heap.next (fun _ ↦ c) s =
      (s.heap.next, s.link s.heap.next (gcHdrSize + size) c) := by
    simp only [gcTake, hs.2, gcBoxFreePop]
  simp only [result, Collecting.take, hpop] at hr
  split_ifs at hr
  obtain ⟨rfl, rfl⟩ := Prod.mk.inj (Except.ok.inj hr)
  exact ⟨rfl, hs⟩

theorem givesSame_vmBoxFromTyped (f : ℕ) (rf : RegFrame) (r : ℕ) :
    GivesSame (Collecting.vmBoxFromTyped m f rf r) (vmBoxFromTyped m f rf r) := by
  intro s hs
  have hkind : ∀ {k : Kind} {x : GcM JelloValue} {y : StoreM JelloValue},
      regKind m f r = k → GivesSame x y →
      result (vmBoxFromTyped m f rf r) s.vm.store = result y s.vm.store →
      Ends x (fun a t ↦ result (vmBoxFromTyped m f rf r) s.vm.store = .ok (a, t.vm.store) ∧
        t.Off) s := by
    intro k x y _ hxy heq
    rw [heq]
    exact hxy s hs
  have hread : result (vmRegKind m f r) s.vm.store = .ok (regKind m f r, s.vm.store) := rfl
  refine spec_bind.mpr (spec_onPart (ends_iff.mpr fun k st hk ↦ ?_))
  obtain ⟨rfl, rfl⟩ : regKind m f r = k ∧ s.vm.store = st := by
    rw [hread] at hk
    exact Prod.mk.inj (Except.ok.inj hk)
  have hback : s.setStore s.vm.store = s := rfl
  rw [hback]
  cases hk : regKind m f r with
  | f32 =>
    refine hkind hk (givesSame_bind (givesSame_onGcStore (regTypeOf m f r)) fun typeId ↦
      givesSame_bind (givesSame_onGcStore (vmLoadF32 rf r)) fun v ↦ givesSame_gcAlloc 12 _) ?_
    rw [vmBoxFromTyped, result_then hread, hk]
    rfl
  | f16 =>
    refine hkind hk (givesSame_bind (givesSame_onGcStore (regTypeOf m f r)) fun typeId ↦
      givesSame_bind (givesSame_onGcStore (vmLoadF16Bits rf r)) fun v ↦ givesSame_gcAlloc 12 _) ?_
    rw [vmBoxFromTyped, result_then hread, hk]
    rfl
  | i64 =>
    refine hkind hk (givesSame_bind (givesSame_onGcStore (regTypeOf m f r)) fun typeId ↦
      givesSame_bind (givesSame_onGcStore (vmLoadI64 rf r)) fun v ↦ givesSame_gcAlloc 16 _) ?_
    rw [vmBoxFromTyped, result_then hread, hk]
    rfl
  | f64 =>
    refine hkind hk (givesSame_bind (givesSame_onGcStore (regTypeOf m f r)) fun typeId ↦
      givesSame_bind (givesSame_onGcStore (vmLoadF64 rf r)) fun v ↦ givesSame_gcAlloc 16 _) ?_
    rw [vmBoxFromTyped, result_then hread, hk]
    rfl
  | i8 | i16 | i32 | bool | atom | dynamic | bytes | function | list | array | object | abstract
  | enum => exact givesSame_onGcStore (vmBoxFromTyped m f rf r) s hs

theorem givesSame_enumFields (n : ℕ) :
    ∀ r, GivesSame (Collecting.enumFields ctx r n) (enumFields ctx r n) := by
  induction n with
  | zero => exact fun _ ↦ givesSame_pure []
  | succ n ih =>
    intro r
    refine givesSame_ite (givesSame_fail _) ?_
    refine givesSame_bind (givesSame_vmBoxFromTyped ctx.f ctx.rf r) fun v ↦ ?_
    exact givesSame_bind (ih (r + 1)) fun vs ↦ givesSame_pure _

theorem givesSame_opEnumNew : GivesSame (Collecting.opEnumNew ctx ins) (opEnumNew ctx ins) := by
  refine givesSame_bind (givesSame_onGcStore _) fun typeId ↦ givesSame_ite ?_ ?_
  · refine givesSame_bind ?_ fun e ↦ givesSame_onGcStore _
    refine givesSame_bind (givesSame_read Store.enumNullaryNtypes) fun ntypes ↦ ?_
    refine givesSame_ite (givesSame_gcAlloc _ _) ?_
    refine givesSame_bind (givesSame_read fun s ↦ s.enumNullary typeId ins.imm) fun e ↦ ?_
    refine givesSame_ite (givesSame_pure e) (givesSame_bind (givesSame_gcAlloc _ _) fun e ↦ ?_)
    exact givesSame_bind (givesSame_onGcStore _) fun _ ↦ givesSame_pure e
  · refine givesSame_bind (givesSame_enumFields _ _) fun fields ↦ ?_
    exact givesSame_bind (givesSame_gcAlloc _ _) fun e ↦ givesSame_onGcStore _

theorem givesSame_opBytesNew : GivesSame (Collecting.opBytesNew ctx ins) (opBytesNew ctx ins) := by
  refine givesSame_bind (givesSame_onGcStore _) fun len ↦ givesSame_bind (givesSame_read _) fun limit ↦ ?_
  refine givesSame_ite (givesSame_onGcStore _) ?_
  refine givesSame_bind (givesSame_onGcStore _) fun typeId ↦ ?_
  exact givesSame_bind (givesSame_gcAlloc _ _) fun b ↦ givesSame_onGcStore _

end Off

end JelloVM
