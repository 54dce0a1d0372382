import JelloVM.Library.ByteMemory

namespace JelloVM

open ByteMemory

def jdllAbiVarargsArity : UInt8 := 255

def jdllAbiMixedVarargsArity : UInt8 := 254

theorem varargs_ne_zero : jdllAbiVarargsArity ≠ 0 := by decide

theorem mixed_ne_zero : jdllAbiMixedVarargsArity ≠ 0 := by decide

theorem varargs_ne_mixed : jdllAbiVarargsArity ≠ jdllAbiMixedVarargsArity := by decide

/-- `jdll_prim_caps`. The kinds of the arguments are read without a bound, like an array of C. -/
structure JdllPrimCaps where
  fn : UInt64
  retKind : UInt8
  arity : UInt8
  argKinds : ℕ → UInt8
  libraryId : UInt64
  exportName : UInt64
  exportSym : UInt64

/-- Where `arg_kinds` begins in the descriptor -/
def argKindsOffset : ℕ := 10

def primCapsAt (mem : Mem) : JdllPrimCaps where
  fn := load64 mem 0
  retKind := mem 8
  arity := mem 9
  argKinds := fun i ↦ mem (argKindsOffset + i)
  libraryId := load64 mem 24
  exportName := load64 mem 32
  exportSym := load64 mem 40

@[simp] theorem primCapsAt_arity (mem : Mem) : (primCapsAt mem).arity = mem 9 := rfl

@[simp] theorem primCapsAt_argKinds (mem : Mem) (i : ℕ) :
    (primCapsAt mem).argKinds i = mem (argKindsOffset + i) := rfl

/-- `nfixed` of a descriptor with mixed varargs -/
def JdllPrimCaps.nfixed (caps : JdllPrimCaps) : ℕ := (caps.argKinds 0).toNat

/-- The kinds that `jdl_validate_args` reads -/
def JdllPrimCaps.kinds (caps : JdllPrimCaps) : List UInt8 :=
  if caps.arity = jdllAbiVarargsArity then [caps.argKinds 0]
  else if caps.arity = jdllAbiMixedVarargsArity then
    (List.range (caps.nfixed + 1)).map fun i ↦ caps.argKinds (1 + i)
  else (List.range caps.arity.toNat).map caps.argKinds

end JelloVM
