import JelloVM.Library.X64

/-! How the bytes of an x86-64 instruction are read, for the instructions that a simple code
generator uses. -/

namespace X64

def Gpr.num : Gpr → ℕ
  | .rax => 0
  | .rcx => 1
  | .rdx => 2
  | .rbx => 3
  | .rsp => 4
  | .rbp => 5
  | .rsi => 6
  | .rdi => 7
  | .r8 => 8
  | .r9 => 9
  | .r10 => 10
  | .r11 => 11
  | .r12 => 12
  | .r13 => 13
  | .r14 => 14
  | .r15 => 15

def Gpr.ofNum : ℕ → Gpr
  | 0 => .rax
  | 1 => .rcx
  | 2 => .rdx
  | 3 => .rbx
  | 4 => .rsp
  | 5 => .rbp
  | 6 => .rsi
  | 7 => .rdi
  | 8 => .r8
  | 9 => .r9
  | 10 => .r10
  | 11 => .r11
  | 12 => .r12
  | 13 => .r13
  | 14 => .r14
  | _ => .r15

inductive Mnemonic
  | mov
  | add
  | or
  | and
  | sub
  | xor
  | cmp
  | test
  | imul
  | neg
  | idiv
  | shl
  | shr
  | sar
  | cdq
  | cqo
  | set (cc : ℕ)
  | movzx
  | movsxd
  | jmp
  | j (cc : ℕ)
  | call
  | ret
  | push
  | pop
  | lea
  | endbr64
  | movss
  | movsd
  | addss
  | subss
  | mulss
  | divss
  | addsd
  | subsd
  | mulsd
  | divsd
  | sqrtsd
  | comiss
  | comisd
  deriving DecidableEq, Repr

/-- The address of a memory operand; displacements are sign extended. -/
inductive Addr
  | base (b : Gpr) (disp : UInt32)
  | indexed (b : Option Gpr) (index : Gpr) (scale : ℕ) (disp : UInt32)
  | absolute (disp : UInt32)
  | rip (disp : UInt32)
  deriving DecidableEq, Repr

/-- `high r` is the second byte of `r`. -/
inductive Operand
  | r8 (r : Gpr)
  | high (r : Gpr)
  | r32 (r : Gpr)
  | r64 (r : Gpr)
  | xmm (i : ℕ)
  | m8 (a : Addr)
  | m32 (a : Addr)
  | m64 (a : Addr)
  | imm (v : ℤ)
  deriving DecidableEq, Repr

/-- An instruction as a disassembler shows it, the destination first. -/
structure Decoded where
  op : Mnemonic
  operands : List Operand
  deriving DecidableEq, Repr

section Prefixes

structure Rex where
  w : Bool
  r : Bool
  x : Bool
  b : Bool
  deriving DecidableEq, Repr

/-- No prefix says what a prefix without bits says, except of byte registers. -/
def Rex.none : Rex := ⟨false, false, false, false⟩

def Rex.ofByte (b : UInt8) : Rex :=
  ⟨b.toNat.testBit 3, b.toNat.testBit 2, b.toNat.testBit 1, b.toNat.testBit 0⟩

def isRex (b : UInt8) : Bool := b.toNat / 16 = 4

/-- The prefixes that select an SSE instruction -/
def isLegacy (b : UInt8) : Bool := b = 0x66 ∨ b = 0xf2 ∨ b = 0xf3

structure Prefixes where
  legacy : Option UInt8
  rex : Option Rex

def Prefixes.bits (p : Prefixes) : Rex := p.rex.getD Rex.none

end Prefixes

section Operands

/-- A register field with its bit of the REX prefix. -/
def extend (hi : Bool) (lo : ℕ) : ℕ := (if hi then 8 else 0) + lo

def int8 (b : UInt8) : ℤ := b.toBitVec.toInt

def word32 (a b c d : UInt8) : UInt32 :=
  UInt32.ofNat (a.toNat + 256 * (b.toNat + 256 * (c.toNat + 256 * d.toNat)))

def read32 : List UInt8 → Option (UInt32 × List UInt8)
  | a :: b :: c :: d :: bs => some (word32 a b c d, bs)
  | _ => none

def read64 (bs : List UInt8) : Option (UInt64 × List UInt8) := do
  let (lo, bs) ← read32 bs
  let (hi, bs) ← read32 bs
  pure (UInt64.ofNat (lo.toNat + 2 ^ 32 * hi.toNat), bs)

def read8 : List UInt8 → Option (UInt8 × List UInt8)
  | b :: bs => some (b, bs)
  | [] => none

/-- The displacement that goes with a `mod` field -/
def readDisp (mod : ℕ) (bs : List UInt8) : Option (UInt32 × List UInt8) :=
  if mod = 0 then some (0, bs)
  else if mod = 1 then (read8 bs).map fun (b, bs) ↦ (⟨BitVec.ofInt 32 (int8 b)⟩, bs)
  else read32 bs

/-- The index field 4 without its REX bit means that there is no index. -/
def sibAddr (base : Option Gpr) (index scale : ℕ) (disp : UInt32) : Addr :=
  if index = 4 then (base.map fun b ↦ Addr.base b disp).getD (.absolute disp)
  else .indexed base (Gpr.ofNum index) scale disp

def readSib (rex : Rex) (mod : ℕ) (bs : List UInt8) : Option (Addr × List UInt8) := do
  let (sib, bs) ← read8 bs
  let index := extend rex.x (sib.toNat / 8 % 8)
  let scale := 2 ^ (sib.toNat / 64)
  if sib.toNat % 8 = 5 ∧ mod = 0 then
    let (disp, bs) ← read32 bs
    pure (sibAddr none index scale disp, bs)
  else
    let (disp, bs) ← readDisp mod bs
    pure (sibAddr (some (Gpr.ofNum (extend rex.b (sib.toNat % 8)))) index scale disp, bs)

inductive Rm
  | reg (n : ℕ)
  | mem (a : Addr)

/-- The `reg` field as it stands, and the operand of the `rm` field. -/
def readModRM (rex : Rex) (bs : List UInt8) : Option (ℕ × Rm × List UInt8) := do
  let (m, bs) ← read8 bs
  let mod := m.toNat / 64
  let reg := m.toNat / 8 % 8
  let rm := m.toNat % 8
  if mod = 3 then
    pure (reg, .reg (extend rex.b rm), bs)
  else if rm = 4 then
    let (a, bs) ← readSib rex mod bs
    pure (reg, .mem a, bs)
  else if mod = 0 ∧ rm = 5 then
    let (disp, bs) ← read32 bs
    pure (reg, .mem (.rip disp), bs)
  else
    let (disp, bs) ← readDisp mod bs
    pure (reg, .mem (.base (Gpr.ofNum (extend rex.b rm)) disp), bs)

/-- A register of the operand size. -/
def sizedReg (w : Bool) (n : ℕ) : Operand :=
  if w then .r64 (Gpr.ofNum n) else .r32 (Gpr.ofNum n)

def sizedRm (w : Bool) : Rm → Operand
  | .reg n => sizedReg w n
  | .mem a => if w then .m64 a else .m32 a

/-- Without a REX prefix the numbers from 4 to 7 are the second bytes of the first registers. -/
def byteReg (rex : Option Rex) (n : ℕ) : Operand :=
  if rex = none ∧ 4 ≤ n ∧ n < 8 then .high (Gpr.ofNum (n - 4)) else .r8 (Gpr.ofNum n)

def byteRm (rex : Option Rex) : Rm → Operand
  | .reg n => byteReg rex n
  | .mem a => .m8 a

def xmmRm (w : Bool) : Rm → Operand
  | .reg n => .xmm n
  | .mem a => if w then .m64 a else .m32 a

end Operands

section Opcodes

inductive Tail
  | bare
  | cl
  | simm8
  | simm32
  | count8

/-- The operands of an opcode: the ModRM operand `rm`, the register `reg` beside it, a register in
the opcode itself, immediates. In a `group` the field `reg` is a part of the opcode. -/
inductive Form
  | rmReg (m : Mnemonic)
  | regRm (m : Mnemonic)
  | regRm32 (m : Mnemonic)
  | group (g : ℕ → Option Mnemonic) (tail : Tail)
  | group64 (g : ℕ → Option Mnemonic)
  | groupByte (g : ℕ → Option Mnemonic) (tail : Tail)
  | regByteRm (m : Mnemonic)
  | reg64 (m : Mnemonic)
  | regImm (m : Mnemonic)
  | address (m : Mnemonic)
  | rel32 (m : Mnemonic)
  | bare (m : Mnemonic)
  | bareSized (m32 m64 : Mnemonic)
  | xmmRm (m : Mnemonic) (w : Bool)
  | rmXmm (m : Mnemonic) (w : Bool)

def group1 : ℕ → Option Mnemonic
  | 0 => some .add
  | 1 => some .or
  | 4 => some .and
  | 5 => some .sub
  | 6 => some .xor
  | 7 => some .cmp
  | _ => none

def group2 : ℕ → Option Mnemonic
  | 4 => some .shl
  | 5 => some .shr
  | 7 => some .sar
  | _ => none

def group3 : ℕ → Option Mnemonic
  | 3 => some .neg
  | 7 => some .idiv
  | _ => none

def group5 : ℕ → Option Mnemonic
  | 2 => some .call
  | 4 => some .jmp
  | _ => none

def group11 : ℕ → Option Mnemonic
  | 0 => some .mov
  | _ => none

def oneByte (op : UInt8) : Option Form :=
  if op = 0x01 then some (.rmReg .add)
  else if op = 0x09 then some (.rmReg .or)
  else if op = 0x21 then some (.rmReg .and)
  else if op = 0x29 then some (.rmReg .sub)
  else if op = 0x31 then some (.rmReg .xor)
  else if op = 0x39 then some (.rmReg .cmp)
  else if op.toNat / 8 = 0x50 / 8 then some (.reg64 .push)
  else if op.toNat / 8 = 0x58 / 8 then some (.reg64 .pop)
  else if op = 0x63 then some (.regRm32 .movsxd)
  else if op = 0x81 then some (.group group1 .simm32)
  else if op = 0x83 then some (.group group1 .simm8)
  else if op = 0x85 then some (.rmReg .test)
  else if op = 0x89 then some (.rmReg .mov)
  else if op = 0x8b then some (.regRm .mov)
  else if op = 0x8d then some (.address .lea)
  else if op = 0x99 then some (.bareSized .cdq .cqo)
  else if op.toNat / 8 = 0xb8 / 8 then some (.regImm .mov)
  else if op = 0xc1 then some (.group group2 .count8)
  else if op = 0xc3 then some (.bare .ret)
  else if op = 0xc6 then some (.groupByte group11 .simm8)
  else if op = 0xd3 then some (.group group2 .cl)
  else if op = 0xe9 then some (.rel32 .jmp)
  else if op = 0xf7 then some (.group group3 .bare)
  else if op = 0xff then some (.group64 group5)
  else none

def packed (legacy : Option UInt8) (op : UInt8) : Option Form :=
  if op = 0x2f ∧ legacy = some 0x66 then some (.xmmRm .comisd true)
  else if op = 0x2f ∧ legacy = none then some (.xmmRm .comiss false)
  else none

def scalar64 (op : UInt8) : Option Form :=
  if op = 0x10 then some (.xmmRm .movsd true)
  else if op = 0x11 then some (.rmXmm .movsd true)
  else if op = 0x51 then some (.xmmRm .sqrtsd true)
  else if op = 0x58 then some (.xmmRm .addsd true)
  else if op = 0x59 then some (.xmmRm .mulsd true)
  else if op = 0x5c then some (.xmmRm .subsd true)
  else if op = 0x5e then some (.xmmRm .divsd true)
  else none

def scalar32 (op : UInt8) : Option Form :=
  if op = 0x10 then some (.xmmRm .movss false)
  else if op = 0x11 then some (.rmXmm .movss false)
  else if op = 0x58 then some (.xmmRm .addss false)
  else if op = 0x59 then some (.xmmRm .mulss false)
  else if op = 0x5c then some (.xmmRm .subss false)
  else if op = 0x5e then some (.xmmRm .divss false)
  else none

def general (op : UInt8) : Option Form :=
  if op.toNat / 16 = 0x80 / 16 then some (.rel32 (.j (op.toNat % 16)))
  else if op.toNat / 16 = 0x90 / 16 then
    some (.groupByte (fun _ ↦ some (.set (op.toNat % 16))) .bare)
  else if op = 0xaf then some (.regRm .imul)
  else if op = 0xb6 then some (.regByteRm .movzx)
  else none

/-- The opcodes after the byte `0x0f`. -/
def twoByte (legacy : Option UInt8) (op : UInt8) : Option Form :=
  if legacy = some 0xf2 then scalar64 op
  else if legacy = some 0xf3 then scalar32 op
  else if op = 0x2f then packed legacy op
  else if legacy = none then general op
  else none

end Opcodes

section Read

def Tail.read (bs : List UInt8) : Tail → Option (List Operand × List UInt8)
  | .bare => some ([], bs)
  | .cl => some ([.r8 .rcx], bs)
  | .simm8 => (read8 bs).map fun (b, bs) ↦ ([.imm (int8 b)], bs)
  | .simm32 => (read32 bs).map fun (v, bs) ↦ ([.imm (int32 v)], bs)
  | .count8 => (read8 bs).map fun (b, bs) ↦ ([.imm b.toNat], bs)

/-- The immediate of `mov r, imm` has the size of the register. -/
def readImm (w : Bool) (bs : List UInt8) : Option (ℤ × List UInt8) :=
  if w then (read64 bs).map fun (v, bs) ↦ (v.toNat, bs)
  else (read32 bs).map fun (v, bs) ↦ (v.toNat, bs)

variable (p : Prefixes) (op : UInt8)

def Form.read (bs : List UInt8) : Form → Option (Decoded × List UInt8)
  | .rmReg m => do
    let (reg, rm, bs) ← readModRM p.bits bs
    pure (⟨m, [sizedRm p.bits.w rm, sizedReg p.bits.w (extend p.bits.r reg)]⟩, bs)
  | .regRm m => do
    let (reg, rm, bs) ← readModRM p.bits bs
    pure (⟨m, [sizedReg p.bits.w (extend p.bits.r reg), sizedRm p.bits.w rm]⟩, bs)
  | .regRm32 m => do
    let (reg, rm, bs) ← readModRM p.bits bs
    pure (⟨m, [sizedReg p.bits.w (extend p.bits.r reg), sizedRm false rm]⟩, bs)
  | .group g tail => do
    let (reg, rm, bs) ← readModRM p.bits bs
    let m ← g reg
    let (operands, bs) ← tail.read bs
    pure (⟨m, sizedRm p.bits.w rm :: operands⟩, bs)
  | .group64 g => do
    let (reg, rm, bs) ← readModRM p.bits bs
    let m ← g reg
    pure (⟨m, [sizedRm true rm]⟩, bs)
  | .groupByte g tail => do
    let (reg, rm, bs) ← readModRM p.bits bs
    let m ← g reg
    let (operands, bs) ← tail.read bs
    pure (⟨m, byteRm p.rex rm :: operands⟩, bs)
  | .regByteRm m => do
    let (reg, rm, bs) ← readModRM p.bits bs
    pure (⟨m, [sizedReg p.bits.w (extend p.bits.r reg), byteRm p.rex rm]⟩, bs)
  | .reg64 m => some (⟨m, [sizedReg true (extend p.bits.b (op.toNat % 8))]⟩, bs)
  | .regImm m => do
    let (v, bs) ← readImm p.bits.w bs
    pure (⟨m, [sizedReg p.bits.w (extend p.bits.b (op.toNat % 8)), .imm v]⟩, bs)
  | .address m => do
    let (reg, rm, bs) ← readModRM p.bits bs
    match rm with
    | .mem a => pure (⟨m, [sizedReg p.bits.w (extend p.bits.r reg), .m64 a]⟩, bs)
    | .reg _ => none
  | .rel32 m => do
    let (v, bs) ← read32 bs
    pure (⟨m, [.imm (int32 v)]⟩, bs)
  | .bare m => some (⟨m, []⟩, bs)
  | .bareSized m32 m64 => some (⟨if p.bits.w then m64 else m32, []⟩, bs)
  | .xmmRm m w => do
    let (reg, rm, bs) ← readModRM p.bits bs
    pure (⟨m, [.xmm (extend p.bits.r reg), X64.xmmRm w rm]⟩, bs)
  | .rmXmm m w => do
    let (reg, rm, bs) ← readModRM p.bits bs
    pure (⟨m, [X64.xmmRm w rm, .xmm (extend p.bits.r reg)]⟩, bs)

/-- After the prefixes; `ENDBR64` is the one instruction whose ModRM byte is a part of its opcode. -/
def decodeOpcode (p : Prefixes) : List UInt8 → Option (Decoded × List UInt8)
  | [] => none
  | op :: bs =>
    if op = 0x0f then do
      let (op, bs) ← read8 bs
      if op = 0x1e ∧ p.legacy = some 0xf3 ∧ bs.head? = some 0xfa then
        some (⟨.endbr64, []⟩, bs.tail)
      else
        let form ← twoByte p.legacy op
        form.read p op bs
    else if p.legacy = none then do
      let form ← oneByte op
      form.read p op bs
    else none

def decodeRex (legacy : Option UInt8) : List UInt8 → Option (Decoded × List UInt8)
  | [] => none
  | b :: bs =>
    if isRex b then decodeOpcode ⟨legacy, some (Rex.ofByte b)⟩ bs
    else decodeOpcode ⟨legacy, none⟩ (b :: bs)

/-- The first instruction, and the bytes after it. -/
def decode : List UInt8 → Option (Decoded × List UInt8)
  | [] => none
  | b :: bs => if isLegacy b then decodeRex (some b) bs else decodeRex none (b :: bs)

end Read

section Facts

@[simp] theorem Gpr.ofNum_num (r : Gpr) : Gpr.ofNum r.num = r := by cases r <;> rfl

/-- The bit of a register that goes to the prefix. -/
def Gpr.hi (r : Gpr) : Bool := 8 ≤ r.num

theorem ofNum_extend_iff (hi : Bool) (r : Gpr) :
    Gpr.ofNum (extend hi (r.num % 8)) = r ↔ hi = r.hi := by
  cases hi <;> cases r <;> decide

theorem not_legacy_of_rex {b : UInt8} (hb : isRex b = true) : isLegacy b = false := by
  simp only [isRex, decide_eq_true_eq] at hb
  rw [isLegacy, decide_eq_false_iff_not]
  rintro (rfl | rfl | rfl) <;> exact absurd hb (by decide)

theorem decode_of_rex {b : UInt8} (hb : isRex b = true) (bs : List UInt8) :
    decode (b :: bs) = decodeOpcode ⟨none, some (Rex.ofByte b)⟩ bs := by
  simp [decode, decodeRex, not_legacy_of_rex hb, hb]

theorem decode_of_opcode {b : UInt8} (hl : isLegacy b = false) (hr : isRex b = false)
    (bs : List UInt8) : decode (b :: bs) = decodeOpcode ⟨none, none⟩ (b :: bs) := by
  simp [decode, decodeRex, hl, hr]

theorem decode_of_legacy {l : UInt8} (hl : isLegacy l = true) (bs : List UInt8) :
    decode (l :: bs) = decodeRex (some l) bs := by
  simp [decode, hl]

variable (rex : Rex) {m : UInt8} {reg rm : ℕ} (bs : List UInt8)

theorem readModRM_reg (hm : m.toNat = 0xc0 + 8 * reg + rm) (hreg : reg < 8) (hrm : rm < 8) :
    readModRM rex (m :: bs) = some (reg, .reg (extend rex.b rm), bs) := by
  have hmod : m.toNat / 64 = 3 := by omega
  have hfield : m.toNat / 8 % 8 = reg := by omega
  have hrest : m.toNat % 8 = rm := by omega
  simp [readModRM, read8, hmod, hfield, hrest]

theorem readModRM_disp32 (a b c d : UInt8) (hm : m.toNat = 0x80 + 8 * reg + rm) (hreg : reg < 8)
    (hrm : rm < 8) (hsib : rm ≠ 4) :
    readModRM rex (m :: a :: b :: c :: d :: bs) =
      some (reg, .mem (.base (Gpr.ofNum (extend rex.b rm)) (word32 a b c d)), bs) := by
  have hmod : m.toNat / 64 = 2 := by omega
  have hfield : m.toNat / 8 % 8 = reg := by omega
  have hrest : m.toNat % 8 = rm := by omega
  have hlow : ¬ m.toNat < 64 := by omega
  simp [readModRM, read8, readDisp, read32, hmod, hfield, hrest, hsib, hlow]

theorem readModRM_sib (a b c d : UInt8) (hm : m.toNat = 0x80 + 8 * reg + 4) (hreg : reg < 8)
    (hx : rex.x = false) :
    readModRM rex (m :: 0x24 :: a :: b :: c :: d :: bs) =
      some (reg, .mem (.base (Gpr.ofNum (extend rex.b 4)) (word32 a b c d)), bs) := by
  have hmod : m.toNat / 64 = 2 := by omega
  have hfield : m.toNat / 8 % 8 = reg := by omega
  have hrest : m.toNat % 8 = 4 := by omega
  have hlow : ¬ m.toNat < 64 := by omega
  simp [readModRM, readSib, read8, readDisp, read32, sibAddr, extend, hmod, hfield, hrest, hx, hlow]

theorem readModRM_rip (a b c d : UInt8) (hm : m.toNat = 8 * reg + 5) (hreg : reg < 8) :
    readModRM rex (m :: a :: b :: c :: d :: bs) = some (reg, .mem (.rip (word32 a b c d)), bs) := by
  have hmod : m.toNat / 64 = 0 := by omega
  have hfield : m.toNat / 8 % 8 = reg := by omega
  have hrest : m.toNat % 8 = 5 := by omega
  have hlow : m.toNat < 64 := by omega
  simp [readModRM, read8, read32, hmod, hfield, hrest, hlow]

end Facts

end X64
