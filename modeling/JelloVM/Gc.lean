import JelloVM.Frame
import JelloVM.Check
import JelloVM.Library.MarkSweep

namespace JelloVM

open Function ByteMemory Logged MarkSweep

/-- `jello_gc_hdr`; what `next` links is kept as lists. -/
structure GcHdr where
  totalSize : ℕ
  marked : Bool
  deriving DecidableEq, Repr, Inhabited

structure Gc where
  hdr : JelloValue → GcHdr
  gcObjects : List JelloValue
  gcBoxFree : List JelloValue
  gcBoxFreeLen : ℕ
  gcBytesLive : ℕ
  gcNextCollect : ℕ
  gcRoots : List JelloValue

structure GcVm where
  vm : VM
  gc : Gc

def GcVm.heap (s : GcVm) : Heap := s.vm.store.heap

def GcVm.setHeap (s : GcVm) (h : Heap) : GcVm :=
  { s with vm := s.vm.setStore { s.vm.store with heap := h } }

def gcBoxFreeMax : ℕ := 8192

section Marks

/-- What `mark_val` and `mark_ptr` go on to mark. -/
def markVal (v : JelloValue) : List JelloValue := if jelloIsPtr v ∧ v ≠ 0 then [v] else []

def markPtr (p : JelloValue) : List JelloValue := if p ≠ 0 then [p] else []

/-- `trace_object` -/
def traceObject : Cell → List JelloValue
  | .bytes _ | .boxI64 .. | .boxF64 .. | .boxF32 .. | .boxF16 .. => []
  | .list l => markVal l.head ++ markPtr l.tail
  | .array a => (List.range a.length.toNat).flatMap fun i ↦ markVal (a.data i)
  | .object o =>
    markPtr o.proto ++ (List.range o.cap.toNat).flatMap fun i ↦
      if o.states i = .occupied then markVal (o.vals i) else []
  | .function fn =>
    markVal fn.boundThis ++
      if fn.capsAreRaw then []
      else (List.range fn.ncaps.toNat).flatMap fun i ↦ markVal (fn.caps i)
  | .enum e => (List.range e.nfields.toNat).flatMap fun i ↦ markVal (e.fields i)
  | .abstract _ => []

/-- What is traced from a pointer; a pointer to nothing has nothing to trace. -/
def Heap.traced (h : Heap) (p : JelloValue) : List JelloValue := (h.cells p).elim [] traceObject

/-- `scan_typed_frames`, for the frames of the module -/
def scanTypedFrames (m : JelloBcModule) (vm : VM) : List JelloValue :=
  vm.callFrames.reverse.flatMap fun fr ↦ (List.range fr.rf.nregs).flatMap fun r ↦
    let k := regKind m fr.f r
    if k = .dynamic then markVal (load64 vm.store.mem (fr.rf.addr r))
    else if k.isPointer then markPtr (load64 vm.store.mem (fr.rf.addr r))
    else []

def GcVm.roots (m : JelloBcModule) (s : GcVm) : List JelloValue :=
  s.vm.store.spill.flatMap markVal ++ s.gc.gcRoots.flatMap markVal ++
    s.vm.store.constFunCache.flatMap markPtr ++ s.vm.store.constBytesCache.flatMap markPtr ++
    ((List.range s.vm.store.enumNullaryNtypes).flatMap fun ti ↦ (List.range 256).flatMap fun tag ↦
      markPtr (s.vm.store.enumNullary ti (UInt32.ofNat tag))) ++
    scanTypedFrames m s.vm

end Marks

section Sweep

def Gc.setMarked (g : Gc) (p : JelloValue) (b : Bool) : Gc :=
  { g with hdr := update g.hdr p { g.hdr p with marked := b } }

/-- `free` -/
def Heap.free (h : Heap) (p : JelloValue) : Heap := { h with cells := update h.cells p none }

def gcIsRecyclableObject : Cell → Bool
  | .object o => o.inlineTable
  | _ => false

def gcBoxFreePush (p : JelloValue) (s : Gc × Heap) : Gc × Heap :=
  if gcBoxFreeMax ≤ s.1.gcBoxFreeLen then (s.1, s.2.free p)
  else
    ({ s.1.setMarked p false with
        gcBoxFree := p :: s.1.gcBoxFree, gcBoxFreeLen := s.1.gcBoxFreeLen + 1 }, s.2)

/-- The slots of a small object are cleared before its block is kept. -/
def dropFields : Cell → Cell
  | .object o =>
    .object
      { o with
        proto := 0
        len := 0
        states := fun i ↦ if i < o.cap.toNat then .empty else o.states i }
  | c => c

/-- What the sweep does with an object that is not marked. -/
def sweepObject (p : JelloValue) (s : Gc × Heap) : Gc × Heap :=
  match s.2.cells p with
  | none => s
  | some c =>
    if c.isNumbox ∨ gcIsRecyclableObject c then gcBoxFreePush p (s.1, s.2.write p (dropFields c))
    else (s.1, s.2.free p)

/-- The sweep: what is left of the list of objects, and its size. -/
def sweep : List JelloValue → Gc × Heap → (List JelloValue × ℕ) × (Gc × Heap)
  | [], s => (([], 0), s)
  | p :: ps, s =>
    if !(s.1.hdr p).marked then sweep ps (sweepObject p s)
    else
      let r := sweep ps (s.1.setMarked p false, s.2)
      ((p :: r.1.1, (s.1.hdr p).totalSize + r.1.2), r.2)

def nextCollect (liveBytes : ℕ) : ℕ :=
  let grown := if liveBytes < 256 * 1024 then 512 * 1024 else liveBytes * 2
  let withPool := liveBytes + gcBoxFreeMax * 192
  if withPool < grown then grown else withPool

/-- `jello_gc_collect`; no result means that there are pointers that are to no objects. -/
def jelloGcCollect (m : JelloBcModule) (s : GcVm) : Option GcVm := do
  let marked ← drain s.heap.traced (s.gc.gcObjects.length + 1)
    (markAll (s.roots m) ⟨fun p ↦ (s.gc.hdr p).marked, []⟩)
  let g := { s.gc with hdr := fun p ↦ { s.gc.hdr p with marked := marked p } }
  let r := sweep g.gcObjects (g, s.heap)
  let g := { r.2.1 with
    gcObjects := r.1.1, gcBytesLive := r.1.2, gcNextCollect := nextCollect r.1.2 }
  some { s.setHeap r.2.2 with gc := g }

end Sweep

/-- `c.Points p`: an object with the content `c` has the pointer `p` in one of its fields. -/
inductive Cell.Points : Cell → JelloValue → Prop
  | listHead {l : JelloList} (hp : jelloIsPtr l.head) : Cell.Points (.list l) l.head
  | listTail (l : JelloList) : Cell.Points (.list l) l.tail
  | element {a : JelloArray} {i : ℕ} (hi : i < a.length.toNat) (hp : jelloIsPtr (a.data i)) :
      Cell.Points (.array a) (a.data i)
  | proto (o : JelloObject) : Cell.Points (.object o) o.proto
  | slot {o : JelloObject} {i : ℕ} (hi : i < o.cap.toNat) (hs : o.states i = .occupied)
      (hp : jelloIsPtr (o.vals i)) : Cell.Points (.object o) (o.vals i)
  | boundThis {fn : JelloFunction} (hp : jelloIsPtr fn.boundThis) :
      Cell.Points (.function fn) fn.boundThis
  | capture {fn : JelloFunction} {i : ℕ} (hraw : fn.capsAreRaw = false) (hi : i < fn.ncaps.toNat)
      (hp : jelloIsPtr (fn.caps i)) : Cell.Points (.function fn) (fn.caps i)
  | enumField {e : JelloEnum} {i : ℕ} (hi : i < e.nfields.toNat) (hp : jelloIsPtr (e.fields i)) :
      Cell.Points (.enum e) (e.fields i)

/-- `s.Rooted m p`: the pointer `p` is one of the roots. -/
inductive GcVm.Rooted (m : JelloBcModule) (s : GcVm) : JelloValue → Prop
  | spill {p : JelloValue} (h : p ∈ s.vm.store.spill) (hp : jelloIsPtr p) : Rooted m s p
  | temp {p : JelloValue} (h : p ∈ s.gc.gcRoots) (hp : jelloIsPtr p) : Rooted m s p
  | constFun {p : JelloValue} (h : p ∈ s.vm.store.constFunCache) : Rooted m s p
  | constBytes {p : JelloValue} (h : p ∈ s.vm.store.constBytesCache) : Rooted m s p
  | enumNullary {ti tag : ℕ} (hti : ti < s.vm.store.enumNullaryNtypes) (htag : tag < 256) :
      Rooted m s (s.vm.store.enumNullary ti (UInt32.ofNat tag))
  | dynamicReg {fr : CallFrame} {r : ℕ} (hfr : fr ∈ s.vm.callFrames) (hr : r < fr.rf.nregs)
      (hk : regKind m fr.f r = .dynamic)
      (hp : jelloIsPtr (load64 s.vm.store.mem (fr.rf.addr r))) :
      Rooted m s (load64 s.vm.store.mem (fr.rf.addr r))
  | pointerReg {fr : CallFrame} {r : ℕ} (hfr : fr ∈ s.vm.callFrames) (hr : r < fr.rf.nregs)
      (hk : (regKind m fr.f r).isPointer = true) :
      Rooted m s (load64 s.vm.store.mem (fr.rf.addr r))

/-- What is reached from the roots through the fields of objects. -/
inductive GcVm.Live (m : JelloBcModule) (s : GcVm) : JelloValue → Prop
  | root {p : JelloValue} (h : s.Rooted m p) (h0 : p ≠ 0) : Live m s p
  | field {p q : JelloValue} {c : Cell} (h : Live m s p) (hc : s.heap.cells p = some c)
      (hq : c.Points q) (h0 : q ≠ 0) : Live m s q

/-- The blocks that the collector knows are different and have addresses, no mark bit is set, and
the length of the free list is known and bounded. -/
structure GcVm.Ok (s : GcVm) : Prop where
  nodup : (s.gc.gcObjects ++ s.gc.gcBoxFree).Nodup
  ptr (p : JelloValue) : p ∈ s.gc.gcObjects ++ s.gc.gcBoxFree → jelloIsPtr p = true ∧ p ≠ 0
  clear (p : JelloValue) : (s.gc.hdr p).marked = false
  cells (p : JelloValue) : p ∈ s.gc.gcObjects ++ s.gc.gcBoxFree → (s.heap.cells p).isSome = true
  len : s.gc.gcBoxFreeLen = s.gc.gcBoxFree.length
  bound : s.gc.gcBoxFree.length ≤ gcBoxFreeMax

def GcVm.Closed (m : JelloBcModule) (s : GcVm) : Prop := ∀ p, s.Live m p → p ∈ s.gc.gcObjects

end JelloVM
