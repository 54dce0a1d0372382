import Mathlib

namespace JelloVM

/-- A tagged machine word: the low three bits say what the rest holds. -/
abbrev JelloValue := UInt64

inductive JelloTag
  | ptr
  | i32
  | atom
  | bool
  | null
  deriving DecidableEq, Repr

def JelloTag.code : JelloTag → UInt64
  | .ptr => 0
  | .i32 => 1
  | .atom => 2
  | .bool => 3
  | .null => 4

def hasTag (t : JelloTag) (v : JelloValue) : Bool := v &&& 7 == t.code

def jelloMakeNull : JelloValue := JelloTag.null.code

def jelloIsNull (v : JelloValue) : Bool := hasTag .null v

def jelloBoundThisIsSet (v : JelloValue) : Bool := v != 0 && !jelloIsNull v

def jelloMakeBool (b : Bool) : JelloValue :=
  ((if b then 1 else 0 : UInt64) <<< 3) ||| JelloTag.bool.code

def jelloIsBool (v : JelloValue) : Bool := hasTag .bool v

def jelloAsBool (v : JelloValue) : Bool := (v >>> 3) &&& 1 == 1

def jelloMakeAtom (atomId : UInt32) : JelloValue := (atomId.toUInt64 <<< 3) ||| JelloTag.atom.code

def jelloIsAtom (v : JelloValue) : Bool := hasTag .atom v

def jelloAsAtom (v : JelloValue) : UInt32 := (v >>> 3).toUInt32

/-- The argument is the bit pattern of the `int32_t` of the source. -/
def jelloMakeI32 (x : UInt32) : JelloValue := (x.toUInt64 <<< 3) ||| JelloTag.i32.code

def jelloIsI32 (v : JelloValue) : Bool := hasTag .i32 v

def jelloAsI32 (v : JelloValue) : UInt32 := (v >>> 3).toUInt32

def jelloIsPtr (v : JelloValue) : Bool := hasTag .ptr v

end JelloVM
