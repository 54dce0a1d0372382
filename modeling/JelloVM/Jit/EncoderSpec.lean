import JelloVM.Jit.Encoders

/-! What the encoders emit, read by the rules of the encoding. -/

namespace JelloVM

open X64

section Bytes

def rexBits (w r b : ℕ) : Rex := ⟨w % 2 = 1, r % 2 = 1, false, b % 2 = 1⟩

theorem x64Rex_eq (w r b : ℕ) : x64Rex w r 0 b =
    UInt8.ofNat (0x40 ||| (w % 2) <<< 3 ||| (r % 2) <<< 2 ||| b % 2) := by
  simp [x64Rex, Nat.and_one_is_mod]

theorem isRex_x64Rex (w r b : ℕ) : isRex (x64Rex w r 0 b) = true := by
  rw [x64Rex_eq]
  rcases Nat.mod_two_eq_zero_or_one w with hw | hw <;>
    rcases Nat.mod_two_eq_zero_or_one r with hr | hr <;>
    rcases Nat.mod_two_eq_zero_or_one b with hb | hb <;> rw [hw, hr, hb] <;> decide

theorem ofByte_x64Rex (w r b : ℕ) : Rex.ofByte (x64Rex w r 0 b) = rexBits w r b := by
  rw [x64Rex_eq, rexBits]
  rcases Nat.mod_two_eq_zero_or_one w with hw | hw <;>
    rcases Nat.mod_two_eq_zero_or_one r with hr | hr <;>
    rcases Nat.mod_two_eq_zero_or_one b with hb | hb <;> rw [hw, hr, hb] <;> decide

theorem regLo_eq (r : ℕ) : regLo r = r % 8 := Nat.and_two_pow_sub_one_eq_mod r 3

theorem regExt_eq (r : ℕ) : regExt r = r / 8 % 2 := by
  rw [regExt, Nat.and_one_is_mod, Nat.shiftRight_eq_div_pow]

theorem regLo_lt (r : ℕ) : regLo r < 8 := by rw [regLo_eq]; omega

theorem regExt_num (r : Gpr) : decide (regExt r.num % 2 = 1) = r.hi := by cases r <;> decide

theorem regExt_num_eq_zero (r : Gpr) : regExt r.num = 0 ↔ r.hi = false := by cases r <;> decide

theorem toNat_modrm : ∀ (mod : Fin 4) (reg rm : Fin 8),
    (x64Modrm mod reg rm).toNat = 64 * mod.val + 8 * reg.val + rm.val := by decide

theorem toNat_x64Modrm {mod reg rm : ℕ} (hmod : mod < 4) (hreg : reg < 8) (hrm : rm < 8) :
    (x64Modrm mod reg rm).toNat = 64 * mod + 8 * reg + rm :=
  toNat_modrm ⟨mod, hmod⟩ ⟨reg, hreg⟩ ⟨rm, hrm⟩

theorem toNat_byte (v : UInt32) (k : UInt32) (hk : k.toNat < 32) :
    ((v >>> k) &&& 0xff).toUInt8.toNat = v.toNat / 2 ^ k.toNat % 256 := by
  rw [UInt32.toNat_toUInt8, UInt32.toNat_and, UInt32.toNat_shiftRight, Nat.mod_eq_of_lt hk,
    Nat.shiftRight_eq_div_pow]
  have hmask : v.toNat / 2 ^ k.toNat &&& (0xff : UInt32).toNat = v.toNat / 2 ^ k.toNat % 2 ^ 8 :=
    Nat.and_two_pow_sub_one_eq_mod _ 8
  rw [hmask]
  omega

theorem toNat_lowByte (v : UInt32) : (v &&& 0xff).toUInt8.toNat = v.toNat % 256 := by
  rw [UInt32.toNat_toUInt8, UInt32.toNat_and]
  have hmask : v.toNat &&& (0xff : UInt32).toNat = v.toNat % 2 ^ 8 :=
    Nat.and_two_pow_sub_one_eq_mod _ 8
  rw [hmask]
  omega

theorem read32_le32 (v : UInt32) (bs : List UInt8) : read32 (le32 v ++ bs) = some (v, bs) := by
  have h0 := toNat_lowByte v
  have h1 := toNat_byte v 8 (by decide)
  have h2 := toNat_byte v 16 (by decide)
  have h3 := toNat_byte v 24 (by decide)
  have hv := v.toNat_lt
  simp only [UInt32.reduceToNat] at h1 h2 h3
  have hword : word32 (v &&& 0xff).toUInt8 ((v >>> 8) &&& 0xff).toUInt8
      ((v >>> 16) &&& 0xff).toUInt8 ((v >>> 24) &&& 0xff).toUInt8 = v := by
    rw [word32, h0, h1, h2, h3, ← UInt32.toNat_inj, UInt32.toNat_ofNat']
    omega
  simp only [le32, List.cons_append, List.nil_append, read32, hword]

theorem toNat_byte64 (v : UInt64) (k : UInt64) (hk : k.toNat < 64) :
    ((v >>> k) &&& 0xff).toUInt8.toNat = v.toNat / 2 ^ k.toNat % 256 := by
  rw [UInt64.toNat_toUInt8, UInt64.toNat_and, UInt64.toNat_shiftRight, Nat.mod_eq_of_lt hk,
    Nat.shiftRight_eq_div_pow]
  have hmask : v.toNat / 2 ^ k.toNat &&& (0xff : UInt64).toNat = v.toNat / 2 ^ k.toNat % 2 ^ 8 :=
    Nat.and_two_pow_sub_one_eq_mod _ 8
  rw [hmask]
  omega

theorem read64_le64 (v : UInt64) (bs : List UInt8) : read64 (le64 v ++ bs) = some (v, bs) := by
  have h0 := toNat_byte64 v 0 (by decide)
  have h1 := toNat_byte64 v 8 (by decide)
  have h2 := toNat_byte64 v 16 (by decide)
  have h3 := toNat_byte64 v 24 (by decide)
  have h4 := toNat_byte64 v 32 (by decide)
  have h5 := toNat_byte64 v 40 (by decide)
  have h6 := toNat_byte64 v 48 (by decide)
  have h7 := toNat_byte64 v 56 (by decide)
  have hv := v.toNat_lt
  simp only [UInt64.reduceToNat] at h0 h1 h2 h3 h4 h5 h6 h7
  have hbytes : le64 v = [((v >>> 0) &&& 0xff).toUInt8, ((v >>> 8) &&& 0xff).toUInt8,
      ((v >>> 16) &&& 0xff).toUInt8, ((v >>> 24) &&& 0xff).toUInt8,
      ((v >>> 32) &&& 0xff).toUInt8, ((v >>> 40) &&& 0xff).toUInt8,
      ((v >>> 48) &&& 0xff).toUInt8, ((v >>> 56) &&& 0xff).toUInt8] := rfl
  have hword : UInt64.ofNat ((word32 ((v >>> 0) &&& 0xff).toUInt8 ((v >>> 8) &&& 0xff).toUInt8
      ((v >>> 16) &&& 0xff).toUInt8 ((v >>> 24) &&& 0xff).toUInt8).toNat + 2 ^ 32 *
      (word32 ((v >>> 32) &&& 0xff).toUInt8 ((v >>> 40) &&& 0xff).toUInt8
      ((v >>> 48) &&& 0xff).toUInt8 ((v >>> 56) &&& 0xff).toUInt8).toNat) = v := by
    rw [word32, word32, h0, h1, h2, h3, h4, h5, h6, h7, ← UInt64.toNat_inj, UInt64.toNat_ofNat',
      UInt32.toNat_ofNat', UInt32.toNat_ofNat']
    omega
  rw [hbytes]
  simp only [List.cons_append, List.nil_append, read64, read32, Option.bind_eq_bind,
    Option.bind_some, hword]
  rfl

theorem int8_toUInt8 {v : UInt32} (hlo : -128 ≤ int32 v) (hhi : int32 v ≤ 127) :
    int8 v.toUInt8 = int32 v := by
  have hv := v.toNat_lt
  have hlow : v.toUInt8.toBitVec.toNat = v.toNat % 256 := UInt32.toNat_toUInt8 v
  have hword : int32 v = if 2 * v.toNat < 2 ^ 32 then (v.toNat : ℤ) else v.toNat - (2 ^ 32 : ℕ) :=
    BitVec.toInt_eq_toNat_cond v.toBitVec
  rw [hword] at hlo hhi ⊢
  rw [int8, BitVec.toInt_eq_toNat_cond, hlow]
  split_ifs at hlo hhi ⊢ <;> omega

end Bytes

section Prefixes

variable {c : Prop} [Decidable c] {w r b : ℕ}

/-- The prefixes of an instruction with the REX prefix left out unless `c`. -/
def lead (legacy : Option UInt8) (c : Prop) [Decidable c] (w r b : ℕ) : Prefixes :=
  ⟨legacy, if c then some (rexBits w r b) else none⟩

/-- The prefix is left out only where it has no bits. -/
def Needed (c : Prop) (w r b : ℕ) : Prop := ¬ c → rexBits w r b = Rex.none

theorem bits_lead (legacy : Option UInt8) (hc : Needed c w r b) :
    (lead legacy c w r b).bits = rexBits w r b := by
  by_cases h : c
  · simp [lead, Prefixes.bits, h]
  · simp [lead, Prefixes.bits, h, hc h]

/-- An opcode of one byte that is no prefix. -/
structure Opens (op : UInt8) (f : Form) : Prop where
  legacy : isLegacy op = false
  rex : isRex op = false
  escape : op ≠ 0x0f
  form : oneByte op = some f

theorem opens {op : UInt8} {f : Form}
    (hp : (isLegacy op || isRex op || decide (op = 0x0f)) = false) (hf : oneByte op = some f) :
    Opens op f := by
  simp only [Bool.or_eq_false_iff, decide_eq_false_iff_not] at hp
  exact ⟨hp.1.1, hp.1.2, hp.2, hf⟩

theorem decode_rexIf {op : UInt8} (hl : isLegacy op = false) (hr : isRex op = false)
    (bs : List UInt8) :
    decode (rexIf c w r b ++ op :: bs) = decodeOpcode (lead none c w r b) (op :: bs) := by
  by_cases h : c
  · simp only [rexIf, if_pos h, List.cons_append, List.nil_append, lead]
    rw [decode_of_rex (isRex_x64Rex w r b), ofByte_x64Rex]
  · simp only [rexIf, if_neg h, List.nil_append, lead]
    exact decode_of_opcode hl hr bs

theorem decode_oneByte {op : UInt8} {f : Form} (ho : Opens op f) (bs : List UInt8) :
    decode (rexIf c w r b ++ op :: bs) = f.read (lead none c w r b) op bs := by
  rw [decode_rexIf ho.legacy ho.rex, decodeOpcode, if_neg ho.escape]
  simp [lead, ho.form]

theorem decode_twoByte {op : UInt8} {f : Form} (hf : twoByte none op = some f)
    (bs : List UInt8) :
    decode (rexIf c w r b ++ 0x0f :: op :: bs) = f.read (lead none c w r b) op bs := by
  rw [decode_rexIf (by decide) (by decide), decodeOpcode, if_pos rfl]
  simp [lead, read8, hf]

theorem decode_scalar {l op : UInt8} {f : Form} (hl : isLegacy l = true) (hop : op ≠ 0x1e)
    (hf : twoByte (some l) op = some f) (bs : List UInt8) :
    decode (l :: rexIf c w r b ++ 0x0f :: op :: bs) = f.read (lead (some l) c w r b) op bs := by
  have hrex : decodeRex (some l) (rexIf c w r b ++ 0x0f :: op :: bs) =
      decodeOpcode (lead (some l) c w r b) (0x0f :: op :: bs) := by
    by_cases h : c
    · simp only [rexIf, if_pos h, List.cons_append, List.nil_append, lead, decodeRex,
        isRex_x64Rex, if_true, ofByte_x64Rex]
    · simp only [rexIf, if_neg h, List.nil_append, lead, decodeRex]
      rfl
  rw [List.cons_append, decode_of_legacy hl, hrex, decodeOpcode, if_pos rfl]
  simp [lead, read8, hop, hf]

end Prefixes

section Forms

variable {p : Prefixes} {op : UInt8} {bytes : List UInt8} {reg : ℕ} {rm : Rm} {m : Mnemonic}
  {rest : List UInt8}

/-- The bytes are a ModRM operand, whatever follows. -/
def IsModRM (rex : Rex) (bytes : List UInt8) (reg : ℕ) (rm : Rm) : Prop :=
  ∀ rest, readModRM rex (bytes ++ rest) = some (reg, rm, rest)

theorem isModRM_regs (rex : Rex) (reg rm : ℕ) (hreg : reg < 8) (hrm : rm < 8) :
    IsModRM rex [x64Modrm 3 reg rm] reg (.reg (extend rex.b rm)) := fun rest ↦
  readModRM_reg rex rest (by rw [toNat_x64Modrm (by omega) hreg hrm]) hreg hrm

theorem isModRM_mem {rex : Rex} (hx : rex.x = false) (reg base : ℕ) (disp : UInt32)
    (hreg : reg < 8) (hbase : base < 8) :
    IsModRM rex (x64AppendMemDisp32 2 reg base disp) reg
      (.mem (.base (Gpr.ofNum (extend rex.b base)) disp)) := by
  intro rest
  have hdisp := read32_le32 disp rest
  simp only [le32, List.cons_append, List.nil_append, read32, Option.some.injEq, Prod.mk.injEq,
    and_true] at hdisp
  by_cases h4 : base = 4
  · subst h4
    simp only [x64AppendMemDisp32, if_true, le32, List.cons_append, List.nil_append]
    rw [readModRM_sib rex rest _ _ _ _ (toNat_x64Modrm (by omega) hreg (by omega)) hreg hx, hdisp]
  · simp only [x64AppendMemDisp32, if_neg h4, le32, List.cons_append, List.nil_append]
    rw [readModRM_disp32 rex rest _ _ _ _ (toNat_x64Modrm (by omega) hreg hbase) hreg hbase h4,
      hdisp]

theorem read_rmReg (h : IsModRM p.bits bytes reg rm) : (Form.rmReg m).read p op (bytes ++ rest) =
    some (⟨m, [sizedRm p.bits.w rm, sizedReg p.bits.w (extend p.bits.r reg)]⟩, rest) := by
  simp [Form.read, h rest]

theorem read_regRm (h : IsModRM p.bits bytes reg rm) : (Form.regRm m).read p op (bytes ++ rest) =
    some (⟨m, [sizedReg p.bits.w (extend p.bits.r reg), sizedRm p.bits.w rm]⟩, rest) := by
  simp [Form.read, h rest]

theorem read_regRm32 (h : IsModRM p.bits bytes reg rm) :
    (Form.regRm32 m).read p op (bytes ++ rest) =
      some (⟨m, [sizedReg p.bits.w (extend p.bits.r reg), sizedRm false rm]⟩, rest) := by
  simp [Form.read, h rest]

theorem read_regByteRm (h : IsModRM p.bits bytes reg rm) :
    (Form.regByteRm m).read p op (bytes ++ rest) =
      some (⟨m, [sizedReg p.bits.w (extend p.bits.r reg), byteRm p.rex rm]⟩, rest) := by
  simp [Form.read, h rest]

theorem read_group {g : ℕ → Option Mnemonic} {tail : Tail} {imm : List UInt8}
    {operands : List Operand} (h : IsModRM p.bits bytes reg rm) (hg : g reg = some m)
    (ht : tail.read (imm ++ rest) = some (operands, rest)) (op : UInt8) :
    (Form.group g tail).read p op (bytes ++ (imm ++ rest)) =
      some (⟨m, sizedRm p.bits.w rm :: operands⟩, rest) := by
  simp [Form.read, h (imm ++ rest), hg, ht]

theorem read_group64 {g : ℕ → Option Mnemonic} (h : IsModRM p.bits bytes reg rm)
    (hg : g reg = some m) : (Form.group64 g).read p op (bytes ++ rest) =
      some (⟨m, [sizedRm true rm]⟩, rest) := by
  simp [Form.read, h rest, hg]

theorem read_groupByte {g : ℕ → Option Mnemonic} {tail : Tail} {imm : List UInt8}
    {operands : List Operand} (h : IsModRM p.bits bytes reg rm) (hg : g reg = some m)
    (ht : tail.read (imm ++ rest) = some (operands, rest)) (op : UInt8) :
    (Form.groupByte g tail).read p op (bytes ++ (imm ++ rest)) =
      some (⟨m, byteRm p.rex rm :: operands⟩, rest) := by
  simp [Form.read, h (imm ++ rest), hg, ht]

theorem read_xmmRm {w : Bool} (h : IsModRM p.bits bytes reg rm) :
    (Form.xmmRm m w).read p op (bytes ++ rest) =
      some (⟨m, [.xmm (extend p.bits.r reg), X64.xmmRm w rm]⟩, rest) := by
  simp [Form.read, h rest]

theorem read_rmXmm {w : Bool} (h : IsModRM p.bits bytes reg rm) :
    (Form.rmXmm m w).read p op (bytes ++ rest) =
      some (⟨m, [X64.xmmRm w rm, .xmm (extend p.bits.r reg)]⟩, rest) := by
  simp [Form.read, h rest]

end Forms

section Registers

/-- What is emitted is one instruction, whatever follows it. -/
def Decodes (e : Emitter) (d : Decoded) : Prop :=
  ∃ bytes, bytes ≠ [] ∧ e = jelloJitEmitBytes bytes ∧
    ∀ rest, decode (bytes ++ rest) = some (d, rest)

theorem needed_true (w r b : ℕ) : Needed True w r b := fun h ↦ absurd trivial h

theorem rexBits_none : rexBits 0 0 0 = Rex.none := rfl

theorem needed_one (b : ℕ) : Needed (b ≠ 0) 0 0 b := by
  intro h
  rw [not_ne_iff.mp h, rexBits_none]

theorem needed_two (r b : ℕ) : Needed (b ≠ 0 ∨ r ≠ 0) 0 r b := by
  intro h
  rw [not_or, not_ne_iff, not_ne_iff] at h
  rw [h.1, h.2, rexBits_none]

theorem rexBits_num (w : ℕ) (r b : Gpr) :
    rexBits w (regExt r.num) (regExt b.num) = ⟨w % 2 = 1, r.hi, false, b.hi⟩ := by
  rw [rexBits, regExt_num, regExt_num]

theorem rexBits_num_zero (w : ℕ) (b : Gpr) :
    rexBits w 0 (regExt b.num) = ⟨w % 2 = 1, false, false, b.hi⟩ := by
  rw [rexBits, regExt_num]
  rfl

theorem ofNum_regLo_iff (hi : Bool) (r : Gpr) :
    Gpr.ofNum (extend hi (regLo r.num)) = r ↔ hi = r.hi := by
  rw [regLo_eq]
  exact ofNum_extend_iff hi r

@[simp] theorem ofNum_regLo (r : Gpr) : Gpr.ofNum (extend r.hi (regLo r.num)) = r :=
  (ofNum_regLo_iff r.hi r).mpr rfl

theorem decodes_oneByte {c : Prop} [Decidable c] {w r b : ℕ} {op : UInt8} {f : Form}
    {tail : List UInt8} {d : Decoded} (ho : Opens op f)
    (h : ∀ rest, f.read (lead none c w r b) op (tail ++ rest) = some (d, rest)) :
    Decodes (jelloJitEmitBytes (rexIf c w r b ++ op :: tail)) d := by
  refine ⟨_, by simp, rfl, fun rest ↦ ?_⟩
  rw [List.append_assoc, List.cons_append, decode_oneByte ho, h]

theorem decodes_twoByte {c : Prop} [Decidable c] {w r b : ℕ} {op : UInt8} {f : Form}
    {tail : List UInt8} {d : Decoded} (hf : twoByte none op = some f)
    (h : ∀ rest, f.read (lead none c w r b) op (tail ++ rest) = some (d, rest)) :
    Decodes (jelloJitEmitBytes (rexIf c w r b ++ 0x0f :: op :: tail)) d := by
  refine ⟨_, by simp, rfl, fun rest ↦ ?_⟩
  rw [List.append_assoc, List.cons_append, List.cons_append, decode_twoByte hf, h]

theorem decodes_scalar {c : Prop} [Decidable c] {w r b : ℕ} {l op : UInt8} {f : Form}
    {tail : List UInt8} {d : Decoded} (hl : isLegacy l = true) (hop : op ≠ 0x1e)
    (hf : twoByte (some l) op = some f)
    (h : ∀ rest, f.read (lead (some l) c w r b) op (tail ++ rest) = some (d, rest)) :
    Decodes (jelloJitEmitBytes (l :: rexIf c w r b ++ 0x0f :: op :: tail)) d := by
  refine ⟨_, by simp, rfl, fun rest ↦ ?_⟩
  rw [List.append_assoc]
  exact (decode_scalar hl hop hf (tail ++ rest)).trans (h rest)

variable {op : UInt8} {m : Mnemonic} (dst src base : Gpr) (disp : UInt32)

/-- Two registers of 64 bits, `rm` first. -/
theorem decodes_aluRr (ho : Opens op (.rmReg m)) :
    Decodes (x64EmitAluRr op dst.num src.num) ⟨m, [.r64 dst, .r64 src]⟩ := by
  refine decodes_oneByte (c := True) (w := 1) ho fun rest ↦ ?_
  rw [read_rmReg (isModRM_regs _ _ _ (regLo_lt _) (regLo_lt _)), bits_lead _ (needed_true _ _ _),
    rexBits_num]
  simp [sizedRm, sizedReg]

theorem decodes_aluR32Rr (ho : Opens op (.rmReg m)) :
    Decodes (emitAluR32Rr op dst.num src.num) ⟨m, [.r32 dst, .r32 src]⟩ := by
  refine decodes_oneByte ho fun rest ↦ ?_
  rw [read_rmReg (isModRM_regs _ _ _ (regLo_lt _) (regLo_lt _)), bits_lead _ (needed_two _ _),
    rexBits_num]
  simp [sizedRm, sizedReg]

theorem decodes_load32 (ho : Opens op (.regRm m)) :
    Decodes (emitMem32 [op] dst.num base.num disp) ⟨m, [.r32 dst, .m32 (.base base disp)]⟩ := by
  have hbits := bits_lead none (needed_two (regExt dst.num) (regExt base.num))
  rw [rexBits_num] at hbits
  simp only [emitMem32, List.cons_append, List.nil_append]
  refine decodes_oneByte ho fun rest ↦ ?_
  rw [read_regRm (isModRM_mem (by rw [hbits]) _ _ disp (regLo_lt _) (regLo_lt _)), hbits]
  simp [sizedRm, sizedReg]

theorem decodes_store32 (ho : Opens op (.rmReg m)) :
    Decodes (emitMem32 [op] src.num base.num disp) ⟨m, [.m32 (.base base disp), .r32 src]⟩ := by
  have hbits := bits_lead none (needed_two (regExt src.num) (regExt base.num))
  rw [rexBits_num] at hbits
  simp only [emitMem32, List.cons_append, List.nil_append]
  refine decodes_oneByte ho fun rest ↦ ?_
  rw [read_rmReg (isModRM_mem (by rw [hbits]) _ _ disp (regLo_lt _) (regLo_lt _)), hbits]
  simp [sizedRm, sizedReg]

theorem decodes_loadByte (hf : twoByte none op = some (.regByteRm m)) :
    Decodes (emitMem32 [0x0f, op] dst.num base.num disp)
      ⟨m, [.r32 dst, .m8 (.base base disp)]⟩ := by
  have hbits := bits_lead none (needed_two (regExt dst.num) (regExt base.num))
  rw [rexBits_num] at hbits
  simp only [emitMem32, List.cons_append, List.nil_append]
  refine decodes_twoByte hf fun rest ↦ ?_
  rw [read_regByteRm (isModRM_mem (by rw [hbits]) _ _ disp (regLo_lt _) (regLo_lt _)), hbits]
  simp [byteRm, sizedReg]

theorem decodes_load64 (ho : Opens op (.regRm m)) :
    Decodes (emitMem64 op dst.num base.num disp) ⟨m, [.r64 dst, .m64 (.base base disp)]⟩ := by
  have hbits := bits_lead none (needed_true 1 (regExt dst.num) (regExt base.num))
  rw [rexBits_num] at hbits
  refine decodes_oneByte (c := True) (w := 1) ho fun rest ↦ ?_
  rw [read_regRm (isModRM_mem (by rw [hbits]) _ _ disp (regLo_lt _) (regLo_lt _)), hbits]
  simp [sizedRm, sizedReg]

theorem decodes_store64 (ho : Opens op (.rmReg m)) :
    Decodes (emitMem64 op src.num base.num disp) ⟨m, [.m64 (.base base disp), .r64 src]⟩ := by
  have hbits := bits_lead none (needed_true 1 (regExt src.num) (regExt base.num))
  rw [rexBits_num] at hbits
  refine decodes_oneByte (c := True) (w := 1) ho fun rest ↦ ?_
  rw [read_rmReg (isModRM_mem (by rw [hbits]) _ _ disp (regLo_lt _) (regLo_lt _)), hbits]
  simp [sizedRm, sizedReg]

theorem decodes_storeImm8 (imm : UInt8) :
    Decodes (x64EmitStoreImm8Disp base.num disp imm)
      ⟨.mov, [.m8 (.base base disp), .imm (int8 imm)]⟩ := by
  have hbits := bits_lead none (needed_one (regExt base.num))
  rw [rexBits_num_zero] at hbits
  have ho : Opens 0xc6 (.groupByte group11 .simm8) := opens rfl rfl
  refine decodes_oneByte ho fun rest ↦ ?_
  rw [List.append_assoc, read_groupByte (m := .mov)
    (isModRM_mem (by rw [hbits]) _ _ disp (by omega) (regLo_lt _)) rfl rfl, hbits]
  simp [byteRm]

variable {digit : ℕ} {g : ℕ → Option Mnemonic} {tail : Tail} {imm : List UInt8}
  {operands : List Operand}

theorem decodes_digit32 (ho : Opens op (.group g tail)) (hd : digit < 8) (hg : g digit = some m)
    (ht : ∀ rest, tail.read (imm ++ rest) = some (operands, rest)) :
    Decodes (emitDigit32 op digit dst.num imm) ⟨m, .r32 dst :: operands⟩ := by
  have hbits := bits_lead none (needed_one (regExt dst.num))
  rw [rexBits_num_zero] at hbits
  refine decodes_oneByte ho fun rest ↦ ?_
  have h := read_group (p := lead none (regExt dst.num ≠ 0) 0 0 (regExt dst.num))
    (isModRM_regs _ digit (regLo dst.num) hd (regLo_lt _)) hg (ht rest)
  rw [hbits] at h
  simpa [sizedRm, sizedReg] using h op

theorem decodes_digit64 (ho : Opens op (.group g tail)) (hd : digit < 8) (hg : g digit = some m)
    (ht : ∀ rest, tail.read (imm ++ rest) = some (operands, rest)) :
    Decodes (emitDigit64 op digit dst.num imm) ⟨m, .r64 dst :: operands⟩ := by
  have hbits := bits_lead none (needed_true 1 0 (regExt dst.num))
  rw [rexBits_num_zero] at hbits
  refine decodes_oneByte (c := True) (w := 1) ho fun rest ↦ ?_
  have h := read_group (p := lead none True 1 0 (regExt dst.num))
    (isModRM_regs _ digit (regLo dst.num) hd (regLo_lt _)) hg (ht rest)
  rw [hbits] at h
  simpa [sizedRm, sizedReg] using h op

theorem read_simm8 (imm : UInt8) (rest : List UInt8) :
    Tail.simm8.read ([imm] ++ rest) = some ([.imm (int8 imm)], rest) := rfl

theorem read_count8 (imm : UInt8) (rest : List UInt8) :
    Tail.count8.read ([imm] ++ rest) = some ([.imm imm.toNat], rest) := rfl

theorem read_simm32 (imm : UInt32) (rest : List UInt8) :
    Tail.simm32.read (le32 imm ++ rest) = some ([.imm (int32 imm)], rest) := by
  rw [Tail.read, read32_le32]
  rfl

theorem decodes_cmpM32Imm (imm : UInt32) :
    Decodes (emitCmpM32Imm0 base.num disp imm)
      ⟨.cmp, [.m32 (.base base disp), .imm (int32 imm)]⟩ := by
  have hbits := bits_lead none (needed_one (regExt base.num))
  rw [rexBits_num_zero] at hbits
  have ho : Opens 0x81 (.group group1 .simm32) := opens rfl rfl
  refine decodes_oneByte ho fun rest ↦ ?_
  rw [List.append_assoc, read_group (m := .cmp)
    (isModRM_mem (by rw [hbits]) _ _ disp (by omega) (regLo_lt _)) rfl (read_simm32 imm rest),
    hbits]
  simp [sizedRm]

theorem decodes_movsxd :
    Decodes (emitMovsxdR64R32 dst.num src.num) ⟨.movsxd, [.r64 dst, .r32 src]⟩ := by
  have ho : Opens 0x63 (.regRm32 .movsxd) := opens rfl rfl
  refine decodes_oneByte (c := True) (w := 1) ho fun rest ↦ ?_
  rw [read_regRm32 (isModRM_regs _ _ _ (regLo_lt _) (regLo_lt _)), bits_lead _ (needed_true _ _ _),
    rexBits_num]
  simp [sizedRm, sizedReg]

theorem decodes_aluR32Imm (hd : digit < 8) (hg : group1 digit = some m) (imm : UInt32) :
    Decodes (x64EmitAluR32Imm digit dst.num imm) ⟨m, [.r32 dst, .imm (int32 imm)]⟩ := by
  rw [x64EmitAluR32Imm]
  by_cases h : -128 ≤ int32 imm ∧ int32 imm ≤ 127
  · rw [if_pos h, ← int8_toUInt8 h.1 h.2]
    exact decodes_digit32 dst (opens rfl rfl) hd hg (read_simm8 _)
  · rw [if_neg h]
    exact decodes_digit32 dst (opens rfl rfl) hd hg (read_simm32 imm)

theorem decodes_aluR64Imm (hd : digit < 8) (hg : group1 digit = some m) (imm : UInt32) :
    Decodes (x64EmitAluR64Imm digit dst.num imm) ⟨m, [.r64 dst, .imm (int32 imm)]⟩ := by
  rw [x64EmitAluR64Imm]
  by_cases h : -128 ≤ int32 imm ∧ int32 imm ≤ 127
  · rw [if_pos h, ← int8_toUInt8 h.1 h.2]
    exact decodes_digit64 dst (opens rfl rfl) hd hg (read_simm8 _)
  · rw [if_neg h]
    exact decodes_digit64 dst (opens rfl rfl) hd hg (read_simm32 imm)

theorem opens_row {base lo : ℕ} {f : Form} (hlo : lo < 8)
    (h : ∀ i : Fin 8, isLegacy (UInt8.ofNat (base + i)) = false ∧
      isRex (UInt8.ofNat (base + i)) = false ∧ UInt8.ofNat (base + i) ≠ 0x0f ∧
      (UInt8.ofNat (base + i)).toNat % 8 = i)
    (hf : ∀ i : Fin 8, oneByte (UInt8.ofNat (base + i)) = some f) :
    Opens (UInt8.ofNat (base + lo)) f ∧ (UInt8.ofNat (base + lo)).toNat % 8 = lo := by
  obtain ⟨hl, hr, he, hmod⟩ := h ⟨lo, hlo⟩
  exact ⟨⟨hl, hr, he, hf ⟨lo, hlo⟩⟩, hmod⟩

theorem opens_movImm {lo : ℕ} (hlo : lo < 8) :
    Opens (UInt8.ofNat (0xb8 + lo)) (.regImm .mov) ∧ (UInt8.ofNat (0xb8 + lo)).toNat % 8 = lo :=
  opens_row hlo (by decide) fun i ↦ by fin_cases i <;> rfl

theorem opens_push {lo : ℕ} (hlo : lo < 8) :
    Opens (UInt8.ofNat (0x50 + lo)) (.reg64 .push) ∧ (UInt8.ofNat (0x50 + lo)).toNat % 8 = lo :=
  opens_row hlo (by decide) fun i ↦ by fin_cases i <;> rfl

theorem opens_pop {lo : ℕ} (hlo : lo < 8) :
    Opens (UInt8.ofNat (0x58 + lo)) (.reg64 .pop) ∧ (UInt8.ofNat (0x58 + lo)).toNat % 8 = lo :=
  opens_row hlo (by decide) fun i ↦ by fin_cases i <;> rfl

theorem decodes_movR32Imm (imm : UInt32) :
    Decodes (x64EmitMovR32Imm dst.num imm) ⟨.mov, [.r32 dst, .imm imm.toNat]⟩ := by
  have hbits := bits_lead none (needed_one (regExt dst.num))
  rw [rexBits_num_zero] at hbits
  obtain ⟨ho, hlo⟩ := opens_movImm (regLo_lt dst.num)
  rw [x64EmitMovR32Imm]
  generalize UInt8.ofNat (0xb8 + regLo dst.num) = op at ho hlo ⊢
  refine decodes_oneByte ho fun rest ↦ ?_
  simp [Form.read, readImm, hbits, hlo, read32_le32, sizedReg]

theorem decodes_movR64Imm (imm : UInt64) :
    Decodes (x64EmitMovR64Imm dst.num imm) ⟨.mov, [.r64 dst, .imm imm.toNat]⟩ := by
  have hbits := bits_lead none (needed_true 1 0 (regExt dst.num))
  rw [rexBits_num_zero] at hbits
  obtain ⟨ho, hlo⟩ := opens_movImm (regLo_lt dst.num)
  rw [x64EmitMovR64Imm]
  generalize UInt8.ofNat (0xb8 + regLo dst.num) = op at ho hlo ⊢
  refine decodes_oneByte (c := True) (w := 1) ho fun rest ↦ ?_
  simp [Form.read, readImm, hbits, hlo, read64_le64, sizedReg]

theorem rexWb_eq (reg : ℕ) : rexWb reg = rexIf (regExt reg ≠ 0) 1 0 (regExt reg) := by
  have h : regExt reg = 0 ∨ regExt reg = 1 := by
    rw [regExt_eq]
    omega
  rcases h with h | h <;> rw [rexWb, rexIf, h] <;> rfl

/-- Where there is no need for the prefix, its bit B is clear, and W does not matter. -/
theorem hi_of_rexWb : (lead none (regExt dst.num ≠ 0) 1 0 (regExt dst.num)).bits.b = dst.hi := by
  by_cases h : regExt dst.num = 0
  · simp [lead, Prefixes.bits, h, Rex.none, (regExt_num_eq_zero dst).mp h]
  · simp [lead, Prefixes.bits, h, rexBits_num_zero]

theorem decodes_reg64 {lo : UInt8} (ho : Opens lo (.reg64 m)) (hlo : lo.toNat % 8 = regLo dst.num) :
    Decodes (jelloJitEmitBytes (rexWb dst.num ++ [lo])) ⟨m, [.r64 dst]⟩ := by
  rw [rexWb_eq]
  refine decodes_oneByte ho fun rest ↦ ?_
  simp [Form.read, hlo, hi_of_rexWb, sizedReg]

theorem decodes_pushR64 : Decodes (x64EmitPushR64 dst.num) ⟨.push, [.r64 dst]⟩ := by
  obtain ⟨ho, hlo⟩ := opens_push (regLo_lt dst.num)
  exact decodes_reg64 dst ho hlo

theorem decodes_popR64 : Decodes (x64EmitPopR64 dst.num) ⟨.pop, [.r64 dst]⟩ := by
  obtain ⟨ho, hlo⟩ := opens_pop (regLo_lt dst.num)
  exact decodes_reg64 dst ho hlo

theorem decodes_movRr : Decodes (x64EmitMovRr dst.num src.num) ⟨.mov, [.r64 dst, .r64 src]⟩ := by
  have h := decodes_aluRr dst src (show Opens 0x89 (.rmReg .mov) from opens rfl rfl)
  simpa [x64EmitMovRr, x64EmitRexRr, x64EmitAluRr, rexIf] using h

theorem decodes_jmpR64 : Decodes (x64EmitJmpR64 dst.num) ⟨.jmp, [.r64 dst]⟩ := by
  rw [x64EmitJmpR64, rexWb_eq]
  have ho : Opens 0xff (.group64 group5) := opens rfl rfl
  refine decodes_oneByte ho fun rest ↦ ?_
  rw [read_group64 (m := .jmp) (isModRM_regs _ _ _ (by omega) (regLo_lt _)) rfl, hi_of_rexWb]
  simp [sizedRm, sizedReg]

theorem decodes_leaRip :
    Decodes (x64EmitLeaRipRel32 dst.num) ⟨.lea, [.r64 dst, .m64 (.rip 0)]⟩ := by
  have hbits := bits_lead none (needed_true 1 (regExt dst.num) 0)
  have ho : Opens 0x8d (.address .lea) := opens rfl rfl
  refine decodes_oneByte (c := True) (w := 1) ho fun rest ↦ ?_
  have hm : (x64Modrm 0 (regLo dst.num) 5).toNat = 8 * regLo dst.num + 5 := by
    rw [toNat_x64Modrm (by omega) (regLo_lt _) (by omega)]
    omega
  simp only [List.cons_append, List.nil_append, Form.read,
    readModRM_rip _ rest 0 0 0 0 hm (regLo_lt _), hbits, Option.bind_eq_bind, Option.bind_some]
  simp [rexBits, regExt_num, sizedReg]
  rfl

/-- The register with the low bits of one register and the prefix bit of another. -/
def crossed (a b : Gpr) : Gpr := Gpr.ofNum (extend b.hi (regLo a.num))

theorem crossed_eq_iff (a b : Gpr) : crossed a b = a ↔ b.hi = a.hi := ofNum_regLo_iff b.hi a

/-- The byte register that a number of three bits selects, with or without a prefix. -/
def byteOf (rex : Bool) (r : Gpr) : Operand :=
  if rex = false ∧ 4 ≤ r.num ∧ r.num < 8 then .high (Gpr.ofNum (r.num - 4)) else .r8 r

theorem byteOf_eq_iff (rex : Bool) (r : Gpr) :
    byteOf rex r = .r8 r ↔ ¬ (rex = false ∧ 4 ≤ r.num ∧ r.num < 8) := by
  rw [byteOf]
  split_ifs with h <;> simp [h]

theorem decodes_imulR32 : Decodes (x64EmitImulR32 dst.num src.num)
    ⟨.imul, [.r32 (crossed dst src), .r32 (crossed src dst)]⟩ := by
  have hf : twoByte none 0xaf = some (.regRm .imul) := rfl
  refine decodes_twoByte hf fun rest ↦ ?_
  rw [read_regRm (isModRM_regs _ _ _ (regLo_lt _) (regLo_lt _)), bits_lead _ (needed_two _ _),
    rexBits_num]
  rfl

theorem decodes_imulR64 : Decodes (emitImulR64 dst.num src.num)
    ⟨.imul, [.r64 (crossed dst src), .r64 (crossed src dst)]⟩ := by
  have hf : twoByte none 0xaf = some (.regRm .imul) := rfl
  refine decodes_twoByte (c := True) (w := 1) hf fun rest ↦ ?_
  rw [read_regRm (isModRM_regs _ _ _ (regLo_lt _) (regLo_lt _)), bits_lead _ (needed_true _ _ _),
    rexBits_num]
  rfl

theorem num_crossed (a b : Gpr) : (crossed a b).num = extend b.hi (regLo a.num) := by
  cases a <;> cases b <;> rfl

theorem byteReg_lead {c : Prop} [Decidable c] (l : Option UInt8) (w r b : ℕ) (x : Gpr) :
    byteReg (lead l c w r b).rex x.num = byteOf (decide c) x := by
  by_cases h : c <;> simp [byteReg, byteOf, lead, h]

theorem decodes_movzxR32R8 : Decodes (x64EmitMovzxR32R8 dst.num src.num)
    ⟨.movzx, [.r32 (crossed dst src), byteOf (dst.hi || src.hi) (crossed src dst)]⟩ := by
  have hf : twoByte none 0xb6 = some (.regByteRm .movzx) := rfl
  have hor : decide (regExt dst.num ≠ 0 ∨ regExt src.num ≠ 0) = (dst.hi || src.hi) := by
    cases dst <;> cases src <;> rfl
  refine decodes_twoByte hf fun rest ↦ ?_
  rw [read_regByteRm (isModRM_regs _ _ _ (regLo_lt _) (regLo_lt _)), bits_lead _ (needed_two _ _),
    rexBits_num, byteRm, ← num_crossed src dst, byteReg_lead, hor]
  rfl

theorem decodes_setcc (cc : Fin 16) : Decodes (x64EmitSetcc (UInt8.ofNat (0x90 + cc)) dst.num)
    ⟨.set cc, [byteOf dst.hi dst]⟩ := by
  have hf : twoByte none (UInt8.ofNat (0x90 + cc)) =
      some (.groupByte (fun _ ↦ some (.set cc)) .bare) := by
    fin_cases cc <;> rfl
  have hhi : decide (regExt dst.num ≠ 0) = dst.hi := by cases dst <;> rfl
  have hnum : extend dst.hi (regLo dst.num) = dst.num := by cases dst <;> rfl
  refine decodes_twoByte hf fun rest ↦ ?_
  have h := read_groupByte (p := lead none (regExt dst.num ≠ 0) 0 0 (regExt dst.num))
    (g := fun _ ↦ some (.set cc)) (isModRM_regs _ 0 (regLo dst.num) (by omega) (regLo_lt _)) rfl
    (show Tail.bare.read ([] ++ rest) = some ([], rest) from rfl) (UInt8.ofNat (0x90 + cc))
  rw [bits_lead _ (needed_one _), rexBits_num_zero, byteRm, hnum, byteReg_lead, hhi] at h
  exact h

end Registers

section Vector

variable {m : Mnemonic} {w : Bool} (l op : UInt8) (xmm dst src : Fin 8) (base : Gpr)
  (disp : UInt32)

theorem extend_false (n : ℕ) : extend false n = n := Nat.zero_add n

theorem and_seven (i : Fin 8) : i.val &&& 7 = i.val := by fin_cases i <;> rfl

theorem decodes_loadXmm (hl : isLegacy l = true) (hop : op ≠ 0x1e)
    (hf : twoByte (some l) op = some (.xmmRm m w)) :
    Decodes (emitXmmDisp l op xmm base.num disp)
      ⟨m, [.xmm xmm, X64.xmmRm w (.mem (.base base disp))]⟩ := by
  have hbits := bits_lead (some l) (needed_one (regExt base.num))
  rw [rexBits_num_zero] at hbits
  rw [emitXmmDisp, and_seven]
  refine decodes_scalar hl hop hf fun rest ↦ ?_
  rw [read_xmmRm (isModRM_mem (by rw [hbits]) _ _ disp xmm.isLt (regLo_lt _)), hbits]
  simp only [ofNum_regLo, extend_false]

theorem decodes_storeXmm (hl : isLegacy l = true) (hop : op ≠ 0x1e)
    (hf : twoByte (some l) op = some (.rmXmm m w)) :
    Decodes (emitXmmDisp l op xmm base.num disp)
      ⟨m, [X64.xmmRm w (.mem (.base base disp)), .xmm xmm]⟩ := by
  have hbits := bits_lead (some l) (needed_one (regExt base.num))
  rw [rexBits_num_zero] at hbits
  rw [emitXmmDisp, and_seven]
  refine decodes_scalar hl hop hf fun rest ↦ ?_
  rw [read_rmXmm (isModRM_mem (by rw [hbits]) _ _ disp xmm.isLt (regLo_lt _)), hbits]
  simp only [ofNum_regLo, extend_false]

theorem decodes_xmmRr (hl : isLegacy l = true) (hop : op ≠ 0x1e)
    (hf : twoByte (some l) op = some (.xmmRm m w)) :
    Decodes (jelloJitEmitBytes [l, 0x0f, op, x64Modrm 3 (dst &&& 7) (src &&& 7)])
      ⟨m, [.xmm dst, .xmm src]⟩ := by
  rw [and_seven, and_seven]
  refine decodes_scalar (c := False) (w := 0) (r := 0) (b := 0) hl hop hf fun rest ↦ ?_
  rw [read_xmmRm (isModRM_regs _ _ _ dst.isLt src.isLt)]
  simp [lead, Prefixes.bits, Rex.none, extend, X64.xmmRm]

theorem decodes_comiss : Decodes (x64EmitComiss dst src) ⟨.comiss, [.xmm dst, .xmm src]⟩ := by
  have hf : twoByte none 0x2f = some (.xmmRm .comiss false) := rfl
  rw [x64EmitComiss, and_seven, and_seven]
  refine decodes_twoByte (c := False) (w := 0) (r := 0) (b := 0) hf fun rest ↦ ?_
  rw [read_xmmRm (isModRM_regs _ _ _ dst.isLt src.isLt)]
  simp [lead, Prefixes.bits, Rex.none, extend, X64.xmmRm]

end Vector

section Plain

theorem decodes_bytes {bytes : List UInt8} {d : Decoded} (hne : bytes ≠ [])
    (h : ∀ rest, decode (bytes ++ rest) = some (d, rest)) : Decodes (jelloJitEmitBytes bytes) d :=
  ⟨bytes, hne, rfl, h⟩

theorem decodes_jcc (cc : Fin 16) :
    Decodes (x64EmitJccRel32 (UInt8.ofNat (0x80 + cc))) ⟨.j cc, [.imm 0]⟩ := by
  refine ⟨_, by simp, rfl, fun rest ↦ ?_⟩
  fin_cases cc <;> rfl

end Plain

end JelloVM
