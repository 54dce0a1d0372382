import JelloVM.Library.OpenAddressing
import JelloVM.Value

namespace JelloVM

open Function OpenAddressing

def objectInitCap : UInt32 := 8

def objectLoadNum : UInt32 := 10

def objectLoadDen : UInt32 := 7

def objIcNone : UInt32 := 0xffffffff

/-- The arrays have `cap` entries; what a function gives past `cap` is never read. -/
structure JelloObject where
  typeId : UInt32
  proto : JelloValue
  cap : UInt32
  len : UInt32
  keys : ℕ → UInt32
  vals : ℕ → JelloValue
  states : ℕ → SlotState
  inlineTable : Bool
  icAtom : UInt32
  icSlot : UInt32
  icCap : UInt32
  icPolyAtom : Fin 3 → UInt32
  icPolySlot : Fin 3 → UInt32
  deriving Inhabited

def hashU32 (x : UInt32) : UInt32 :=
  let x := x ^^^ (x >>> 16)
  let x := x * 0x7feb352d
  let x := x ^^^ (x >>> 15)
  let x := x * 0x846ca68b
  x ^^^ (x >>> 16)

def jelloObjectInvalidateIc (o : JelloObject) : JelloObject :=
  { o with
    icAtom := objIcNone
    icSlot := 0
    icCap := 0
    icPolyAtom := fun _ ↦ objIcNone
    icPolySlot := fun _ ↦ 0 }

def objectIcStore (o : JelloObject) (atomId slot : UInt32) : JelloObject :=
  if o.icAtom = atomId ∧ o.icCap = o.cap then
    { o with icSlot := slot }
  else
    let o :=
      if o.icAtom ≠ objIcNone ∧ o.icCap = o.cap then
        { o with
          icPolyAtom := ![o.icAtom, o.icPolyAtom 0, o.icPolyAtom 1]
          icPolySlot := ![o.icSlot, o.icPolySlot 0, o.icPolySlot 1] }
      else o
    { o with icAtom := atomId, icSlot := slot, icCap := o.cap }

/-- The slot `i` lies in the table and holds `atomId`. -/
def slotHolds (o : JelloObject) (i atomId : UInt32) : Bool :=
  i < o.cap && o.states i.toNat == .occupied && o.keys i.toNat == atomId

def objectIcTryPoly (o : JelloObject) (atomId : UInt32) :
    List (Fin 3) → Option UInt32 × JelloObject
  | [] => (none, o)
  | p :: ps =>
    if o.icPolyAtom p ≠ atomId then objectIcTryPoly o atomId ps
    else
      let i := o.icPolySlot p
      if !slotHolds o i atomId then
        objectIcTryPoly { o with icPolyAtom := update o.icPolyAtom p objIcNone } atomId ps
      else
        (some i,
          { o with
            icAtom := atomId
            icSlot := i
            icPolyAtom := update o.icPolyAtom p o.icAtom
            icPolySlot := update o.icPolySlot p o.icSlot })

def objectIcTry (o : JelloObject) (atomId : UInt32) : Option UInt32 × JelloObject :=
  if o.icCap ≠ o.cap then (none, o)
  else if o.icAtom = atomId then
    if slotHolds o o.icSlot atomId then (some o.icSlot, o)
    else (none, jelloObjectInvalidateIc o)
  else objectIcTryPoly o atomId [0, 1, 2]

def uint32Max : UInt32 := 0xffffffff

/-- The probe loop of `find_slot`. No result means that the loop is still going
after `fuel` rounds, or that it left the table. -/
def findSlotLoop (o : JelloObject) (atomId : UInt32) :
    ℕ → UInt32 → UInt32 → Option (UInt32 × Bool × JelloObject)
  | 0, _, _ => none
  | fuel + 1, i, firstTomb =>
    if i < o.cap then
      match o.states i.toNat with
      | .empty => some (if firstTomb ≠ uint32Max then firstTomb else i, false, o)
      | .occupied =>
        if o.keys i.toNat = atomId then some (i, true, objectIcStore o atomId i)
        else findSlotLoop o atomId fuel ((i + 1) &&& (o.cap - 1)) firstTomb
      | .tomb =>
        findSlotLoop o atomId fuel ((i + 1) &&& (o.cap - 1))
          (if firstTomb = uint32Max then i else firstTomb)
    else none

def findSlot (fuel : ℕ) (o : JelloObject) (atomId : UInt32) :
    Option (UInt32 × Bool × JelloObject) :=
  if o.len = 0 then some (hashU32 atomId &&& (o.cap - 1), false, o)
  else findSlotLoop o atomId fuel (hashU32 atomId &&& (o.cap - 1)) uint32Max

/-- The linear scan of tiny tables, over the `n` slots from `i` on. -/
def findLinear (o : JelloObject) (atomId : UInt32) : ℕ → UInt32 → UInt32 × Bool × JelloObject
  | 0, _ => (0, false, o)
  | n + 1, i =>
    if slotHolds o i atomId then (i, true, objectIcStore o atomId i)
    else findLinear o atomId n (i + 1)

def findOccupiedLoop (o : JelloObject) (atomId : UInt32) :
    ℕ → UInt32 → Option (UInt32 × Bool × JelloObject)
  | 0, _ => none
  | fuel + 1, i =>
    if i < o.cap then
      match o.states i.toNat with
      | .empty => some (0, false, o)
      | .occupied =>
        if o.keys i.toNat = atomId then some (i, true, objectIcStore o atomId i)
        else findOccupiedLoop o atomId fuel ((i + 1) &&& (o.cap - 1))
      | .tomb => findOccupiedLoop o atomId fuel ((i + 1) &&& (o.cap - 1))
    else none

def findOccupiedSlot (fuel : ℕ) (o : JelloObject) (atomId : UInt32) :
    Option (UInt32 × Bool × JelloObject) :=
  match objectIcTry o atomId with
  | (some i, o) => some (i, true, o)
  | (none, o) =>
    if o.len = 0 then some (0, false, o)
    else if o.len ≤ 8 ∧ o.cap ≤ objectInitCap then
      some (findLinear o atomId o.cap.toNat 0)
    else findOccupiedLoop o atomId fuel (hashU32 atomId &&& (o.cap - 1))

/-- Once round the table: a probe loop that has not returned by then never does. -/
def probeFuel (o : JelloObject) : ℕ := o.cap.toNat

/-- `mem` is what the block held before. -/
def jelloObjectInitEmpty (mem : JelloObject) (typeId : UInt32) : JelloObject :=
  jelloObjectInvalidateIc
    { mem with
      typeId := typeId
      proto := 0
      len := 0
      inlineTable := true
      cap := objectInitCap
      states := fun _ ↦ .empty }

def jelloObjectIsFreelistRecyclable (o : JelloObject) : Bool :=
  o.inlineTable && o.cap == objectInitCap

def jelloObjectReinitFromFreelist (o : JelloObject) (typeId : UInt32) : JelloObject :=
  jelloObjectInvalidateIc
    { o with
      typeId := typeId
      proto := 0
      len := 0
      states := fun i ↦ if i < o.cap.toNat then .empty else o.states i }

/-- The allocator hands out a block `mem`, taken from its free list when `recycled`. -/
def jelloObjectNew (recycled : Bool) (mem : JelloObject) (typeId : UInt32) : JelloObject :=
  if recycled && jelloObjectIsFreelistRecyclable mem then jelloObjectReinitFromFreelist mem typeId
  else jelloObjectInitEmpty mem typeId

def writeEntry (o : JelloObject) (i atomId : UInt32) (v : JelloValue) : Option JelloObject :=
  if i < o.cap then
    some
      { o with
        keys := update o.keys i.toNat atomId
        states := update o.states i.toNat .occupied
        vals := update o.vals i.toNat v
        len := o.len + 1 }
  else none

/-- The loop of `rehash` over the old table, `n` slots from `i` on. -/
def rehashLoop (old : JelloObject) : ℕ → ℕ → JelloObject → Option JelloObject
  | 0, _, o => some o
  | n + 1, i, o =>
    if old.states i ≠ .occupied then rehashLoop old n (i + 1) o
    else do
      let (slot, _, o) ← findSlot (probeFuel o) o (old.keys i)
      let o ← writeEntry o slot (old.keys i) (old.vals i)
      rehashLoop old n (i + 1) o

def rehash (o : JelloObject) (newCap : UInt32) : Option JelloObject := do
  let fresh :=
    { o with
      cap := newCap
      keys := fun _ ↦ 0
      vals := fun _ ↦ 0
      states := fun _ ↦ .empty
      inlineTable := false
      len := 0 }
  let o' ← rehashLoop o o.cap.toNat 0 fresh
  return jelloObjectInvalidateIc { o' with len := o.len }

def ensureCap (o : JelloObject) : Option JelloObject :=
  if (o.len + 1) * objectLoadNum < o.cap * objectLoadDen then some o
  else rehash o (o.cap * 2)

def jelloObjectHas (o : JelloObject) (atomId : UInt32) : Option (Bool × JelloObject) := do
  let (_, found, o) ← findOccupiedSlot (probeFuel o) o atomId
  return (found, o)

def jelloObjectGet (o : JelloObject) (atomId : UInt32) : Option (JelloValue × JelloObject) := do
  let (i, found, o) ← findOccupiedSlot (probeFuel o) o atomId
  return (if !found then jelloMakeNull else o.vals i.toNat, o)

def jelloObjectGetSlot (o : JelloObject) (slot atomId : UInt32) :
    Option (JelloValue × JelloObject) :=
  if slotHolds o slot atomId then some (o.vals slot.toNat, o)
  else jelloObjectGet o atomId

/-- The pointer into `vals` that the source returns is the index of the entry. -/
def jelloObjectSlot (o : JelloObject) (atomId : UInt32) :
    Option (Option UInt32 × JelloObject) := do
  let (i, found, o) ← findOccupiedSlot (probeFuel o) o atomId
  return (if !found then none else some i, o)

def jelloObjectUpsert (o : JelloObject) (atomId : UInt32) :
    Option (UInt32 × Bool × JelloObject) := do
  let o ← ensureCap o
  let (i, found, o) ← findSlot (probeFuel o) o atomId
  if !found then
    let o ← writeEntry o i atomId jelloMakeNull
    return (i, found, o)
  else
    return (i, found, objectIcStore o atomId i)

def jelloObjectSetSlot (o : JelloObject) (slot atomId : UInt32) :
    Option (UInt32 × Bool × JelloObject) :=
  if slotHolds o slot atomId then some (slot, true, o)
  else jelloObjectUpsert o atomId

/-- A write through a pointer into `vals`. -/
def writeSlot (o : JelloObject) (i : UInt32) (v : JelloValue) : JelloObject :=
  { o with vals := update o.vals i.toNat v }

def jelloObjectSet (o : JelloObject) (atomId : UInt32) (v : JelloValue) : Option JelloObject := do
  let (i, _, o) ← jelloObjectUpsert o atomId
  return writeSlot o i v

def jelloObjectRemove (o : JelloObject) (atomId : UInt32) : Option (Bool × JelloObject) := do
  let (i, found, o) ← findSlot (probeFuel o) o atomId
  if !found then return (false, o)
  else
    let o := { o with states := update o.states i.toNat .tomb, len := o.len - 1 }
    if o.icAtom = atomId ∧ o.icCap = o.cap ∧ o.icSlot = i then
      return (true, jelloObjectInvalidateIc o)
    else return (true, o)

def jelloObjectClear (o : JelloObject) : JelloObject :=
  jelloObjectInvalidateIc
    { o with
      states := fun i ↦ if i < o.cap.toNat then .empty else o.states i
      len := 0 }

section Copy

variable {σ : Type} (vmCloneNumbox : JelloValue → σ → Option (JelloValue × σ))

def copyLoop (src : JelloObject) : ℕ → ℕ → JelloObject → σ → Option (JelloObject × σ)
  | 0, _, dst, s => some (dst, s)
  | n + 1, i, dst, s =>
    if src.states i = .occupied then do
      let (v, s) ← vmCloneNumbox (src.vals i) s
      let dst ← jelloObjectSet dst (src.keys i) v
      copyLoop src n (i + 1) dst s
    else copyLoop src n (i + 1) dst s

/-- `dst` is the fresh object that `jello_object_new` hands out. -/
def jelloObjectCopy (dst src : JelloObject) (s : σ) : Option (JelloObject × σ) := do
  let (dst, s) ← copyLoop vmCloneNumbox src src.cap.toNat 0 dst s
  return ({ dst with proto := src.proto }, s)

end Copy

end JelloVM
