import JelloVM.Library.X64Decode

/-! The encoders of the x64 backend. -/

namespace JelloVM

open X64

structure JelloJitEmitBuf where
  data : List UInt8
  cap : ℕ

/-- The growth of the capacity by doubling -/
def doubleCap (need : ℕ) : ℕ → ℕ → ℕ
  | 0, ncap => ncap
  | n + 1, ncap => if ncap < need then doubleCap need n (ncap * 2) else ncap

/-- A piece of the emitter: `realloc` says of a size whether there is a block, and `none` is the
return value `-1`. -/
abbrev Emitter := (realloc : ℕ → Bool) → JelloJitEmitBuf → Option JelloJitEmitBuf

def jelloJitEmitBufReserve (extra : ℕ) : Emitter := fun realloc buf ↦
  let need := buf.data.length + extra
  if need ≤ buf.cap then some buf
  else
    let ncap := doubleCap need need (if buf.cap = 0 then 256 else buf.cap * 2)
    if realloc ncap then some { buf with cap := ncap } else none

def jelloJitEmitBytes (bytes : List UInt8) : Emitter := fun realloc buf ↦
  if bytes = [] then none
  else (jelloJitEmitBufReserve bytes.length realloc buf).map fun buf ↦
    { buf with data := buf.data ++ bytes }

section Bytes

def x64Rex (w r x b : ℕ) : UInt8 :=
  UInt8.ofNat (0x40 ||| ((w &&& 1) <<< 3) ||| ((r &&& 1) <<< 2) ||| ((x &&& 1) <<< 1) ||| (b &&& 1))

def x64Modrm (mod reg rm : ℕ) : UInt8 :=
  UInt8.ofNat (((mod &&& 3) <<< 6) ||| ((reg &&& 7) <<< 3) ||| (rm &&& 7))

/-- The two results of `x64_reg_parts` -/
def regLo (r : ℕ) : ℕ := r &&& 7

def regExt (r : ℕ) : ℕ := (r >>> 3) &&& 1

def rexIf (c : Prop) [Decidable c] (w r b : ℕ) : List UInt8 := if c then [x64Rex w r 0 b] else []

def le32 (v : UInt32) : List UInt8 :=
  [(v &&& 0xff).toUInt8, ((v >>> 8) &&& 0xff).toUInt8, ((v >>> 16) &&& 0xff).toUInt8,
    ((v >>> 24) &&& 0xff).toUInt8]

def le64 (v : UInt64) : List UInt8 :=
  (List.range 8).map fun i ↦ ((v >>> UInt64.ofNat (i * 8)) &&& 0xff).toUInt8

/-- `[base + disp32]` has a SIB byte when the low bits of the base are 4. -/
def x64AppendMemDisp32 (mod reg baseLo : ℕ) (disp : UInt32) : List UInt8 :=
  x64Modrm mod reg (if baseLo = 4 then 4 else baseLo) ::
    (if baseLo = 4 then [0x24] else []) ++ le32 disp

end Bytes

section General

variable (dst src base reg : ℕ) (disp : UInt32)

def x64EmitRexRr (w dst src : ℕ) : Emitter :=
  jelloJitEmitBytes (rexIf (w ≠ 0 ∨ regExt dst ≠ 0 ∨ regExt src ≠ 0) w (regExt src) (regExt dst) ++
    [0x89, x64Modrm 3 (regLo src) (regLo dst)])

def x64EmitMovRr : Emitter := x64EmitRexRr 1 dst src

def x64EmitMovR32Imm (imm : UInt32) : Emitter :=
  jelloJitEmitBytes (rexIf (regExt dst ≠ 0) 0 0 (regExt dst) ++
    UInt8.ofNat (0xb8 + regLo dst) :: le32 imm)

def x64EmitMovR64Imm (imm : UInt64) : Emitter :=
  jelloJitEmitBytes (x64Rex 1 0 0 (regExt dst) :: UInt8.ofNat (0xb8 + regLo dst) :: le64 imm)

/-- An access of 32 bits to memory: the prefix is left out where it has no bits. -/
def emitMem32 (op : List UInt8) (reg base : ℕ) (disp : UInt32) : Emitter :=
  jelloJitEmitBytes (rexIf (regExt base ≠ 0 ∨ regExt reg ≠ 0) 0 (regExt reg) (regExt base) ++
    (op ++ x64AppendMemDisp32 2 (regLo reg) (regLo base) disp))

def emitMem64 (op : UInt8) (reg base : ℕ) (disp : UInt32) : Emitter :=
  jelloJitEmitBytes (x64Rex 1 (regExt reg) 0 (regExt base) :: op ::
    x64AppendMemDisp32 2 (regLo reg) (regLo base) disp)

def x64EmitLoadR32Disp : Emitter := emitMem32 [0x8b] dst base disp

def x64EmitStoreR32Disp : Emitter := emitMem32 [0x89] src base disp

def x64EmitLoadR64Disp : Emitter := emitMem64 0x8b dst base disp

def x64EmitStoreR64Disp : Emitter := emitMem64 0x89 src base disp

def x64EmitAluRr (op : UInt8) (dst src : ℕ) : Emitter :=
  jelloJitEmitBytes [x64Rex 1 (regExt src) 0 (regExt dst), op, x64Modrm 3 (regLo src) (regLo dst)]

def x64EmitAddRr : Emitter := x64EmitAluRr 0x01 dst src

def x64EmitSubRr : Emitter := x64EmitAluRr 0x29 dst src

def x64EmitXorR64 : Emitter := x64EmitAluRr 0x31 dst src

def emitAluR32Rr (op : UInt8) (dst src : ℕ) : Emitter :=
  jelloJitEmitBytes (rexIf (regExt dst ≠ 0 ∨ regExt src ≠ 0) 0 (regExt src) (regExt dst) ++
    [op, x64Modrm 3 (regLo src) (regLo dst)])

def x64EmitXorR32 : Emitter := emitAluR32Rr 0x31 dst src

/-- The registers in the ModRM byte are the other way round than those of `x64EmitAluRr`, the bits
of the prefix are not. -/
def x64EmitImulR32 : Emitter :=
  jelloJitEmitBytes (rexIf (regExt dst ≠ 0 ∨ regExt src ≠ 0) 0 (regExt src) (regExt dst) ++
    [0x0f, 0xaf, x64Modrm 3 (regLo dst) (regLo src)])

def emitImulR64 : Emitter :=
  jelloJitEmitBytes [x64Rex 1 (regExt src) 0 (regExt dst), 0x0f, 0xaf,
    x64Modrm 3 (regLo dst) (regLo src)]

def x64EmitCmpR32Rr : Emitter := x64EmitAluRr 0x39 dst src

def x64EmitCmpR64Rr : Emitter := x64EmitAluRr 0x39 dst src

/-- One register of 32 bits with a digit in the other field -/
def emitDigit32 (op : UInt8) (digit reg : ℕ) (tail : List UInt8) : Emitter :=
  jelloJitEmitBytes (rexIf (regExt reg ≠ 0) 0 0 (regExt reg) ++
    op :: x64Modrm 3 digit (regLo reg) :: tail)

def emitDigit64 (op : UInt8) (digit reg : ℕ) (tail : List UInt8) : Emitter :=
  jelloJitEmitBytes (x64Rex 1 0 0 (regExt reg) :: op :: x64Modrm 3 digit (regLo reg) :: tail)

def x64EmitSubR64Imm8 (imm : UInt8) : Emitter := emitDigit64 0x83 5 dst [imm]

def x64EmitNegR64 : Emitter := emitDigit64 0xf7 3 dst []

def x64EmitCmpR32Imm0 : Emitter := emitDigit32 0x83 7 reg [0]

/-- The immediate has 8 bits where it fits them. -/
def x64EmitAluR32Imm (digit dst : ℕ) (imm : UInt32) : Emitter :=
  if -128 ≤ int32 imm ∧ int32 imm ≤ 127 then emitDigit32 0x83 digit dst [imm.toUInt8]
  else emitDigit32 0x81 digit dst (le32 imm)

def x64EmitAddR32Imm (imm : UInt32) : Emitter := x64EmitAluR32Imm 0 dst imm

def x64EmitAndR32Imm (imm : UInt32) : Emitter := x64EmitAluR32Imm 4 dst imm

def x64EmitOrR32Imm (imm : UInt32) : Emitter := x64EmitAluR32Imm 1 dst imm

def x64EmitSubR32Imm (imm : UInt32) : Emitter := x64EmitAluR32Imm 5 dst imm

def x64EmitCmpR32Imm (imm : UInt32) : Emitter := x64EmitAluR32Imm 7 dst imm

def x64EmitAluR64Imm (digit dst : ℕ) (imm : UInt32) : Emitter :=
  if -128 ≤ int32 imm ∧ int32 imm ≤ 127 then emitDigit64 0x83 digit dst [imm.toUInt8]
  else emitDigit64 0x81 digit dst (le32 imm)

def x64EmitOrR64Imm (imm : UInt32) : Emitter := x64EmitAluR64Imm 1 dst imm

def x64EmitShlR32Imm8 (imm : UInt8) : Emitter := emitDigit32 0xc1 4 dst [imm]

def x64EmitShlR64Imm8 (imm : UInt8) : Emitter := emitDigit64 0xc1 4 dst [imm]

def x64EmitMovzxR32M8Disp : Emitter := emitMem32 [0x0f, 0xb6] dst base disp

def x64EmitStoreImm8Disp (imm : UInt8) : Emitter :=
  jelloJitEmitBytes (rexIf (regExt base ≠ 0) 0 0 (regExt base) ++
    0xc6 :: (x64AppendMemDisp32 2 0 (regLo base) disp ++ [imm]))

def emitCmpM32Imm0 (imm : UInt32) : Emitter :=
  jelloJitEmitBytes (rexIf (regExt base ≠ 0) 0 0 (regExt base) ++
    0x81 :: (x64AppendMemDisp32 2 7 (regLo base) disp ++ le32 imm))

/-- The bytes that `emit_obj_get_atom` writes by hand for a `shr`, and for a `movsxd` -/
def emitShrR64Imm8 (imm : UInt8) : Emitter := emitDigit64 0xc1 5 dst [imm]

def emitMovsxdR64R32 : Emitter :=
  jelloJitEmitBytes [x64Rex 1 (regExt dst) 0 (regExt src), 0x63, x64Modrm 3 (regLo dst) (regLo src)]

def x64EmitSetcc (cc : UInt8) (dst8 : ℕ) : Emitter :=
  jelloJitEmitBytes (rexIf (regExt dst8 ≠ 0) 0 0 (regExt dst8) ++
    [0x0f, cc, x64Modrm 3 0 (regLo dst8)])

def x64EmitMovzxR32R8 (dst src8 : ℕ) : Emitter :=
  jelloJitEmitBytes (rexIf (regExt dst ≠ 0 ∨ regExt src8 ≠ 0) 0 (regExt src8) (regExt dst) ++
    [0x0f, 0xb6, x64Modrm 3 (regLo dst) (regLo src8)])

def x64EmitEndbr64 : Emitter := jelloJitEmitBytes [0xf3, 0x0f, 0x1e, 0xfa]

def x64EmitSubRspImm8 (imm : UInt8) : Emitter := jelloJitEmitBytes [0x48, 0x83, 0xec, imm]

def x64EmitAddRspImm8 (imm : UInt8) : Emitter := jelloJitEmitBytes [0x48, 0x83, 0xc4, imm]

/-- The displacement is patched when the target is known. -/
def x64EmitJmpRel32 : Emitter := jelloJitEmitBytes [0xe9, 0, 0, 0, 0]

def x64EmitLeaRipRel32 : Emitter :=
  jelloJitEmitBytes [x64Rex 1 (regExt dst) 0 0, 0x8d, x64Modrm 0 (regLo dst) 5, 0, 0, 0, 0]

def x64EmitJccRel32 (cc : UInt8) : Emitter := jelloJitEmitBytes [0x0f, cc, 0, 0, 0, 0]

def x64EmitCallRax : Emitter := jelloJitEmitBytes [0xff, 0xd0]

def x64EmitRet : Emitter := jelloJitEmitBytes [0xc3]

/-- The prefix that `push`, `pop` and `jmp` write by hand has the bits W and B. -/
def rexWb (reg : ℕ) : List UInt8 :=
  if regExt reg ≠ 0 then [UInt8.ofNat (0x40 ||| (regExt reg <<< 3) ||| 1)] else []

def x64EmitPushR64 : Emitter := jelloJitEmitBytes (rexWb reg ++ [UInt8.ofNat (0x50 + regLo reg)])

def x64EmitPopR64 : Emitter := jelloJitEmitBytes (rexWb reg ++ [UInt8.ofNat (0x58 + regLo reg)])

def x64EmitTestRr : Emitter := emitAluR32Rr 0x85 dst src

def x64EmitTestR64 : Emitter := x64EmitAluRr 0x85 dst src

def x64EmitJmpR64 : Emitter := jelloJitEmitBytes (rexWb reg ++ [0xff, x64Modrm 3 4 (regLo reg)])

def emitNegR32 : Emitter := emitDigit32 0xf7 3 dst []

def emitCdq : Emitter := jelloJitEmitBytes [0x99]

def emitCqo : Emitter := jelloJitEmitBytes [0x48, 0x99]

def emitIdivR32 (divisor : ℕ) : Emitter := emitDigit32 0xf7 7 divisor []

def emitIdivR64 (divisor : ℕ) : Emitter := emitDigit64 0xf7 7 divisor []

def emitShiftR32Cl (opReg dst : ℕ) : Emitter := emitDigit32 0xd3 opReg dst []

def emitShiftR64Cl (opReg dst : ℕ) : Emitter := emitDigit64 0xd3 opReg dst []

def emitMovR32Rr : Emitter := emitAluR32Rr 0x89 dst src

def emitAddR32Rr : Emitter := emitAluR32Rr 0x01 dst src

def emitAndR32Rr : Emitter := emitAluR32Rr 0x21 dst src

def emitSubR32Rr : Emitter := emitAluR32Rr 0x29 dst src

def emitCmpR32Rr : Emitter := emitAluR32Rr 0x39 dst src

end General

section Vector

variable (xmm dst src base : ℕ) (disp : UInt32)

/-- The prefix that selects the operation precedes the REX prefix. -/
def emitXmmDisp (pre op : UInt8) (xmm base : ℕ) (disp : UInt32) : Emitter :=
  jelloJitEmitBytes (pre :: rexIf (regExt base ≠ 0) 0 0 (regExt base) ++ 0x0f :: op ::
    x64AppendMemDisp32 2 (xmm &&& 7) (regLo base) disp)

def x64EmitLoadXmm64Disp : Emitter := emitXmmDisp 0xf2 0x10 xmm base disp

def x64EmitStoreXmm64Disp : Emitter := emitXmmDisp 0xf2 0x11 xmm base disp

def x64EmitSseRr (op : UInt8) (dst src : ℕ) : Emitter :=
  jelloJitEmitBytes [0xf2, 0x0f, op, x64Modrm 3 (dst &&& 7) (src &&& 7)]

def x64EmitAddsd : Emitter := x64EmitSseRr 0x58 dst src

def x64EmitSubsd : Emitter := x64EmitSseRr 0x5c dst src

def x64EmitMulsd : Emitter := x64EmitSseRr 0x59 dst src

def x64EmitDivsd : Emitter := x64EmitSseRr 0x5e dst src

def x64EmitSqrtsd : Emitter := x64EmitSseRr 0x51 dst src

def x64EmitComisd (lhs rhs : ℕ) : Emitter :=
  jelloJitEmitBytes [0x66, 0x0f, 0x2f, x64Modrm 3 (lhs &&& 7) (rhs &&& 7)]

def x64EmitLoadXmm32Disp : Emitter := emitXmmDisp 0xf3 0x10 xmm base disp

def x64EmitStoreXmm32Disp : Emitter := emitXmmDisp 0xf3 0x11 xmm base disp

def x64EmitSse32Rr (op : UInt8) (dst src : ℕ) : Emitter :=
  jelloJitEmitBytes [0xf3, 0x0f, op, x64Modrm 3 (dst &&& 7) (src &&& 7)]

def x64EmitAddss : Emitter := x64EmitSse32Rr 0x58 dst src

def x64EmitSubss : Emitter := x64EmitSse32Rr 0x5c dst src

def x64EmitMulss : Emitter := x64EmitSse32Rr 0x59 dst src

def x64EmitDivss : Emitter := x64EmitSse32Rr 0x5e dst src

def x64EmitComiss (lhs rhs : ℕ) : Emitter :=
  jelloJitEmitBytes [0x0f, 0x2f, x64Modrm 3 (lhs &&& 7) (rhs &&& 7)]

end Vector

end JelloVM
