import JelloVM.Object

namespace JelloVM

open Function

structure JelloBytes where
  typeId : UInt32
  length : UInt32
  data : ℕ → UInt8

structure JelloFunction where
  typeId : UInt32
  funcIndex : UInt32
  ncaps : UInt32
  boundThis : JelloValue
  capsAreRaw : Bool
  rawCapSize : UInt32
  caps : ℕ → JelloValue
  rawCaps : ℕ → UInt8

structure JelloList where
  typeId : UInt32
  head : JelloValue
  tail : JelloValue

structure JelloArray where
  typeId : UInt32
  length : UInt32
  data : ℕ → JelloValue

structure JelloAbstract where
  typeId : UInt32
  payload : UInt64

structure JelloEnum where
  typeId : UInt32
  tag : UInt32
  nfields : UInt32
  fields : ℕ → JelloValue

/-- What a heap pointer refers to. Numbers in boxes are their bit patterns. -/
inductive Cell
  | bytes (b : JelloBytes)
  | function (fn : JelloFunction)
  | list (l : JelloList)
  | array (a : JelloArray)
  | object (o : JelloObject)
  | abstract (a : JelloAbstract)
  | boxI64 (typeId : UInt32) (value : UInt64)
  | boxF64 (typeId : UInt32) (value : UInt64)
  | boxF32 (typeId : UInt32) (value : UInt32)
  | boxF16 (typeId : UInt32) (value : UInt16)
  | enum (e : JelloEnum)

/-- `JELLO_OBJ_*`: the kind word of the object header. -/
def Cell.kind : Cell → UInt32
  | .bytes _ => 1
  | .function _ => 2
  | .list _ => 3
  | .array _ => 4
  | .object _ => 5
  | .abstract _ => 6
  | .boxI64 .. => 7
  | .boxF64 .. => 8
  | .boxF32 .. => 9
  | .boxF16 .. => 10
  | .enum _ => 11

def Cell.typeId : Cell → UInt32
  | .bytes b => b.typeId
  | .function fn => fn.typeId
  | .list l => l.typeId
  | .array a => a.typeId
  | .object o => o.typeId
  | .abstract a => a.typeId
  | .boxI64 t _ => t
  | .boxF64 t _ => t
  | .boxF32 t _ => t
  | .boxF16 t _ => t
  | .enum e => e.typeId

def Cell.isNumbox : Cell → Bool
  | .boxI64 .. => true
  | .boxF64 .. => true
  | .boxF32 .. => true
  | .boxF16 .. => true
  | _ => false

/-- Addresses are handed out in order; nothing is collected. -/
structure Heap where
  cells : JelloValue → Option Cell
  next : JelloValue

def Heap.alloc (h : Heap) (c : Cell) : JelloValue × Heap :=
  (h.next, { cells := update h.cells h.next (some c), next := h.next + 16 })

def Heap.write (h : Heap) (p : JelloValue) (c : Cell) : Heap :=
  { h with cells := update h.cells p (some c) }

@[simp] theorem Heap.alloc_cells_self (h : Heap) (c : Cell) :
    (h.alloc c).2.cells (h.alloc c).1 = some c := by
  simp [Heap.alloc]

/-- A pointer that refers to nothing faults when its header is read. -/
def vmCloneNumbox (v : JelloValue) (h : Heap) : Option (JelloValue × Heap) :=
  if !jelloIsPtr v then some (v, h)
  else
    match h.cells v with
    | none => none
    | some c => if c.isNumbox then some (h.alloc c) else some (v, h)

end JelloVM
