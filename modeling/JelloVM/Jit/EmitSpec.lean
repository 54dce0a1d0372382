import JelloVM.Jit.Emit

namespace JelloVM

open X64 ByteMemory

section Slots

variable {sse : Sse} {μ : Machine} {off : ℕ}

theorem ea_displacement (base : Gpr) (hoff : off ≤ 0x7fffffff)
    (haddr : (μ.gpr base).toNat + off < 2 ^ 64) :
    μ.ea base (UInt32.ofNat off) = (μ.gpr base).toNat + off := by
  have hnat : (UInt32.ofNat off).toNat = off := by
    rw [UInt32.toNat_ofNat']
    omega
  have hext : (extend32 (UInt32.ofNat off)).toNat = off := by
    rw [extend32, if_pos (by omega), UInt32.toNat_toUInt64, hnat]
  rw [Machine.ea, UInt64.toNat_add, hext]
  omega

theorem emitSlot_spec (align : ℕ) (access : Gpr → UInt32 → Insn) (hoff : off < 2 ^ 32)
    (haddr : (μ.gpr jitRegBase).toNat + off < 2 ^ 64) :
    ∃ μ₁ base disp, execAll sse μ (emitSlot align access off) = exec sse μ₁ (access base disp) ∧
      Kept [jitRegT2] μ μ₁ ∧ μ₁.xmm = μ.xmm ∧
        μ₁.ea base disp = (μ.gpr jitRegBase).toNat + off := by
  unfold emitSlot
  split_ifs with hdisp
  · exact ⟨μ, jitRegBase, UInt32.ofNat off, execAll_single, .refl _ μ, rfl,
      ea_displacement _ hdisp.1 haddr⟩
  · have hadd : exec sse (μ.set jitRegT2 (UInt64.ofNat off)) (.alu64 .add jitRegT2 jitRegBase) =
        some ((μ.set jitRegT2 (UInt64.ofNat off)).set jitRegT2
          (UInt64.ofNat off + μ.gpr jitRegBase)).openFlags := by
      simp [exec, execAlu64, jitRegT2, jitRegBase]
    refine ⟨((μ.set jitRegT2 (UInt64.ofNat off)).set jitRegT2
      (UInt64.ofNat off + μ.gpr jitRegBase)).openFlags, jitRegT2, 0, ?_, ⟨rfl, fun r hr ↦ ?_⟩, rfl,
      ?_⟩
    · rw [execAll_cons, exec, Option.bind_some, execAll_cons, hadd, Option.bind_some,
        execAll_single]
    · rw [List.mem_singleton] at hr
      simp [hr]
    · have hnat : (UInt64.ofNat off).toNat = off := by
        rw [UInt64.toNat_ofNat']
        omega
      simp only [Machine.ea, Machine.gpr_openFlags, Machine.gpr_set, if_true, extend32]
      simp only [UInt64.toNat_add, hnat]
      simp
      omega

end Slots

/-- The base register is that of the frame, whose slots lie in the address space. -/
structure AtFrame (rf : RegFrame) (μ : Machine) : Prop where
  base : (μ.gpr jitRegBase).toNat = rf.mem
  off_lt : ∀ r, rf.off.getD r 0 < 2 ^ 32
  addr_lt : ∀ r, rf.addr r < 2 ^ 64

/-- All registers but some are as before; the memory may have changed. -/
def SameGprs (rs : List Gpr) (μ μ' : Machine) : Prop := ∀ r ∉ rs, μ'.gpr r = μ.gpr r

section Accesses

variable {sse : Sse} {rf : RegFrame} {μ μ' : Machine} {r i : ℕ} {rt : Gpr}

theorem AtFrame.sameGprs {rs : List Gpr} (h : AtFrame rf μ) (hs : SameGprs rs μ μ')
    (hbase : jitRegBase ∉ rs) : AtFrame rf μ' :=
  ⟨by rw [hs _ hbase, h.base], h.off_lt, h.addr_lt⟩

theorem AtFrame.kept {rs : List Gpr} (h : AtFrame rf μ) (hk : Kept rs μ μ')
    (hbase : jitRegBase ∉ rs) : AtFrame rf μ' := h.sameGprs hk.gpr hbase

/-- The instruction that accesses the slot, with the registers as they were but one. -/
theorem AtFrame.slot (h : AtFrame rf μ) (sse : Sse) (align : ℕ) (access : Gpr → UInt32 → Insn) (r : ℕ) :
    ∃ μ₁ base disp, execAll sse μ (emitSlot align access (rf.off.getD r 0)) =
        exec sse μ₁ (access base disp) ∧
      Kept [jitRegT2] μ μ₁ ∧ μ₁.xmm = μ.xmm ∧ μ₁.ea base disp = rf.addr r := by
  have haddr := h.addr_lt r
  obtain ⟨μ₁, base, disp, hrun, hk, hx, hea⟩ := @emitSlot_spec sse μ _ align access
    (h.off_lt r) (by rw [h.base]; exact haddr)
  exact ⟨μ₁, base, disp, hrun, hk, hx, by rw [hea, h.base]; rfl⟩

theorem kept_set {rs : List Gpr} {v : UInt64} (h : Kept rs μ μ') :
    Kept (rt :: rs) μ (μ'.set rt v) := by
  refine ⟨h.mem, fun q hq ↦ ?_⟩
  rw [List.mem_cons, not_or] at hq
  rw [Machine.gpr_set, if_neg hq.1, h.gpr q hq.2]

theorem runs_ldrW (h : AtFrame rf μ) (rt : Gpr) (r : ℕ) :
    Runs sse (emitLdrWSlot rt (rf.off.getD r 0)) μ fun μ' ↦
      μ'.gpr rt = (load32 μ.mem (rf.addr r)).toUInt64 ∧ Kept [rt, jitRegT2] μ μ' := by
  obtain ⟨μ₁, base, disp, hrun, hk, -, hea⟩ := h.slot sse 4 (.load32 rt) r
  refine ⟨_, hrun.trans rfl, ?_, kept_set hk⟩
  rw [Machine.gpr_set32, if_pos rfl, hea, hk.mem]

theorem runs_ldrX (h : AtFrame rf μ) (rt : Gpr) (r : ℕ) :
    Runs sse (emitLdrXSlot rt (rf.off.getD r 0)) μ fun μ' ↦
      μ'.gpr rt = load64 μ.mem (rf.addr r) ∧ Kept [rt, jitRegT2] μ μ' := by
  obtain ⟨μ₁, base, disp, hrun, hk, -, hea⟩ := h.slot sse 8 (.load64 rt) r
  refine ⟨_, hrun.trans rfl, ?_, kept_set hk⟩
  rw [Machine.gpr_set, if_pos rfl, hea, hk.mem]

theorem runs_strW (h : AtFrame rf μ) (hrt : rt ≠ jitRegT2) (r : ℕ) :
    Runs sse (emitStrWSlot rt (rf.off.getD r 0)) μ fun μ' ↦
      μ'.mem = store32 μ.mem (rf.addr r) (μ.get32 rt) ∧ SameGprs [jitRegT2] μ μ' := by
  obtain ⟨μ₁, base, disp, hrun, hk, -, hea⟩ := h.slot sse 4 (.store32 rt) r
  refine ⟨_, hrun.trans rfl, ?_, hk.gpr⟩
  have hget := hk.get32 (r := rt) (by simpa using hrt)
  change store32 μ₁.mem (μ₁.ea base disp) (μ₁.get32 rt) = _
  rw [hea, hk.mem, hget]

theorem runs_strX (h : AtFrame rf μ) (hrt : rt ≠ jitRegT2) (r : ℕ) :
    Runs sse (emitStrXSlot rt (rf.off.getD r 0)) μ fun μ' ↦
      μ'.mem = store64 μ.mem (rf.addr r) (μ.gpr rt) ∧ SameGprs [jitRegT2] μ μ' := by
  obtain ⟨μ₁, base, disp, hrun, hk, -, hea⟩ := h.slot sse 8 (.store64 rt) r
  refine ⟨_, hrun.trans rfl, ?_, hk.gpr⟩
  have hget := hk.gpr rt (by simpa using hrt)
  change store64 μ₁.mem (μ₁.ea base disp) (μ₁.gpr rt) = _
  rw [hea, hk.mem, hget]

/-- The vector registers but one are as before. -/
def SameXmm (i : ℕ) (μ μ' : Machine) : Prop := ∀ j ≠ i, μ'.xmm j = μ.xmm j

theorem sameXmm_set {v : UInt64} (hx : μ'.xmm = μ.xmm) : SameXmm i μ (μ'.setXmm i v) := by
  intro j hj
  rw [Machine.xmm_setXmm, if_neg hj, hx]

theorem runs_ldrS (h : AtFrame rf μ) (i r : ℕ) :
    Runs sse (emitLdrSSlot i (rf.off.getD r 0)) μ fun μ' ↦
      (μ'.xmm i).toUInt32 = load32 μ.mem (rf.addr r) ∧ Kept [jitRegT2] μ μ' ∧
        SameXmm i μ μ' := by
  obtain ⟨μ₁, base, disp, hrun, hk, hx, hea⟩ := h.slot sse 4 (.movssLoad i) r
  refine ⟨_, hrun.trans rfl, ?_, ⟨hk.mem, hk.gpr⟩, sameXmm_set hx⟩
  rw [Machine.xmm_setXmm, if_pos rfl, UInt32.toUInt32_toUInt64, hea, hk.mem]

theorem runs_ldrD (h : AtFrame rf μ) (i r : ℕ) :
    Runs sse (emitLdrDSlot i (rf.off.getD r 0)) μ fun μ' ↦
      μ'.xmm i = load64 μ.mem (rf.addr r) ∧ Kept [jitRegT2] μ μ' ∧ SameXmm i μ μ' := by
  obtain ⟨μ₁, base, disp, hrun, hk, hx, hea⟩ := h.slot sse 8 (.movsdLoad i) r
  refine ⟨_, hrun.trans rfl, ?_, ⟨hk.mem, hk.gpr⟩, sameXmm_set hx⟩
  rw [Machine.xmm_setXmm, if_pos rfl, hea, hk.mem]

theorem runs_strS (h : AtFrame rf μ) (i r : ℕ) :
    Runs sse (emitStrSSlot i (rf.off.getD r 0)) μ fun μ' ↦
      μ'.mem = store32 μ.mem (rf.addr r) (μ.xmm i).toUInt32 ∧ SameGprs [jitRegT2] μ μ' := by
  obtain ⟨μ₁, base, disp, hrun, hk, hx, hea⟩ := h.slot sse 4 (.movssStore i) r
  refine ⟨_, hrun.trans rfl, ?_, hk.gpr⟩
  change store32 μ₁.mem (μ₁.ea base disp) (μ₁.xmm i).toUInt32 = _
  rw [hea, hk.mem, hx]

theorem runs_strD (h : AtFrame rf μ) (i r : ℕ) :
    Runs sse (emitStrDSlot i (rf.off.getD r 0)) μ fun μ' ↦
      μ'.mem = store64 μ.mem (rf.addr r) (μ.xmm i) ∧ SameGprs [jitRegT2] μ μ' := by
  obtain ⟨μ₁, base, disp, hrun, hk, hx, hea⟩ := h.slot sse 8 (.movsdStore i) r
  refine ⟨_, hrun.trans rfl, ?_, hk.gpr⟩
  change store64 μ₁.mem (μ₁.ea base disp) (μ₁.xmm i) = _
  rw [hea, hk.mem, hx]

end Accesses

section Cached

variable {sse : Sse} {rf : RegFrame} {μ μ' : Machine} {r : ℕ} {rt : Gpr} {i32c : Option ℕ}

/-- `RBX` holds what the slot of the register holds that the emitter knows of. -/
def Current (rf : RegFrame) (i32c : Option ℕ) (μ : Machine) : Prop :=
  ∀ r, i32c = some r → μ.get32 jitRegI32c = load32 μ.mem (rf.addr r)

theorem Current.none : Current rf none μ := fun _ h ↦ Option.noConfusion rfl (heq_of_eq h)

theorem Current.kept {rs : List Gpr} (h : Current rf i32c μ) (hk : Kept rs μ μ')
    (hrbx : jitRegI32c ∉ rs) : Current rf i32c μ' := fun r hr ↦ by
  rw [hk.get32 hrbx, hk.mem]
  exact h r hr

/-- The operand comes from `RBX` or from its slot. -/
theorem runs_ldrI32 (h : AtFrame rf μ) (hcur : Current rf i32c μ) (rt : Gpr) (r : ℕ) :
    Runs sse (emitLdrI32 rt (fun r ↦ rf.off.getD r 0) i32c r) μ fun μ' ↦
      μ'.gpr rt = (load32 μ.mem (rf.addr r)).toUInt64 ∧ Kept [rt, jitRegT2] μ μ' := by
  unfold emitLdrI32
  split_ifs with hr
  · refine runs_of_exec rfl ⟨?_, rfl, fun q hq ↦ ?_⟩
    · rw [Machine.gpr_set32, if_pos rfl, hcur r hr]
    · rw [List.mem_cons, not_or] at hq
      rw [Machine.gpr_set32, if_neg hq.1]
  · exact runs_ldrW h rt r

theorem runs_strI32T0 (h : AtFrame rf μ) (r : ℕ) :
    Runs sse (emitStrI32T0 (fun r ↦ rf.off.getD r 0) r) μ fun μ' ↦
      μ'.mem = store32 μ.mem (rf.addr r) (μ.get32 jitRegT0) ∧
        μ'.get32 jitRegI32c = μ.get32 jitRegT0 ∧ SameGprs [jitRegI32c, jitRegT2] μ μ' := by
  refine runs_append.mpr ((runs_strW h (by decide) r).mono fun μ₁ h₁ ↦ ?_)
  obtain ⟨hmem, hsame⟩ := h₁
  have hT0 : μ₁.get32 jitRegT0 = μ.get32 jitRegT0 := by
    rw [Machine.get32, hsame _ (by decide), Machine.get32]
  refine runs_of_exec rfl ⟨hmem, ?_, fun q hq ↦ ?_⟩
  · rw [Machine.get32_set32, if_pos rfl, hT0]
  · rw [List.mem_cons, not_or] at hq
    rw [Machine.gpr_set32, if_neg hq.1, hsame q hq.2]

end Cached

/-- What an operator of the intermediate code computes, `none` where the machine traps. -/
def JirBin.eval32 (bin : JirBin) (a b : UInt32) : Option UInt32 :=
  match bin with
  | .add => some (a + b)
  | .sub => some (a - b)
  | .mul => some (a * b)
  | .sdiv => divI32 a b
  | .mod => modI32 a b
  | .shl => some (a <<< (b &&& 31))
  | .shr => some (shrI32 a b)
  | .xor => some (a ^^^ b)

def JirBin.eval64 (bin : JirBin) (a b : UInt64) : Option UInt64 :=
  match bin with
  | .add => some (a + b)
  | .sub => some (a - b)
  | .mul => some (a * b)
  | .sdiv => divI64 a b
  | .mod => modI64 a b
  | .shl => some (a <<< (b &&& 63))
  | .shr => some (shrI64 a b)
  | .xor => some (a ^^^ b)

section Words

theorem smod_of_lt {w : ℕ} {x y : BitVec w} (hx : x.msb = false) (hy : y.msb = false)
    (h : x.toNat < y.toNat) : x.smod y = x := by
  rw [BitVec.smod_eq, hx, hy]
  exact BitVec.eq_of_toNat_eq (Nat.mod_eq_of_lt h)

theorem sar32_eq (a b : UInt32) : sar32 a (b &&& 31).toNat = shrI32 a b := by
  have hlt : (b.toBitVec &&& 31#32).toNat < (32#32).toNat := by
    rw [BitVec.toNat_and]
    exact lt_of_le_of_lt Nat.and_le_right (by decide)
  have hmsb : (b.toBitVec &&& 31#32).msb = false := by
    rw [BitVec.msb_and, show (31#32).msb = false by decide, Bool.and_false]
  rw [← UInt32.toBitVec_inj]
  change a.toBitVec.sshiftRight (b.toBitVec &&& 31#32).toNat =
    a.toBitVec.sshiftRight' ((b.toBitVec &&& 31#32).smod 32#32)
  rw [smod_of_lt hmsb (by decide) hlt]
  rfl

theorem sar64_eq (a b : UInt64) : sar64 a (b &&& 63).toNat = shrI64 a b := by
  have hlt : (b.toBitVec &&& 63#64).toNat < (64#64).toNat := by
    rw [BitVec.toNat_and]
    exact lt_of_le_of_lt Nat.and_le_right (by decide)
  have hmsb : (b.toBitVec &&& 63#64).msb = false := by
    rw [BitVec.msb_and, show (63#64).msb = false by decide, Bool.and_false]
  rw [← UInt64.toBitVec_inj]
  change a.toBitVec.sshiftRight (b.toBitVec &&& 63#64).toNat =
    a.toBitVec.sshiftRight' ((b.toBitVec &&& 63#64).smod 64#64)
  rw [smod_of_lt hmsb (by decide) hlt]
  rfl

theorem signedDiv32 (a b : UInt32) :
    signedDiv 32 (int32 (sar32 a 31) * 2 ^ 32 + a.toNat) (int32 b) =
      if b = 0 ∨ a = 0x80000000 ∧ b = 0xffffffff then none
      else some ((int32 a).tdiv (int32 b), (int32 a).tmod (int32 b)) := by
  have hdividend : int32 (sar32 a 31) * 2 ^ 32 + a.toNat = a.toBitVec.toInt :=
    dividend_toInt a.toBitVec
  have hmin : a.toBitVec.toInt = -2 ^ (32 - 1) ↔ a = 0x80000000 := by
    rw [← UInt32.toBitVec_inj, ← BitVec.toInt_inj]
    rfl
  have hneg : b.toBitVec.toInt = -1 ↔ b = 0xffffffff := by
    rw [← UInt32.toBitVec_inj, ← BitVec.toInt_inj]
    rfl
  have hzero : b.toBitVec = 0#32 ↔ b = 0 := by
    rw [← UInt32.toBitVec_inj]
    rfl
  rw [hdividend]
  refine (signedDiv_toInt a.toBitVec b.toBitVec).trans (if_congr ?_ rfl rfl)
  rw [hmin, hneg, hzero]

theorem signedDiv64 (a b : UInt64) :
    signedDiv 64 (int64 (sar64 a 63) * 2 ^ 64 + a.toNat) (int64 b) =
      if b = 0 ∨ a = 0x8000000000000000 ∧ b = 0xffffffffffffffff then none
      else some ((int64 a).tdiv (int64 b), (int64 a).tmod (int64 b)) := by
  have hdividend : int64 (sar64 a 63) * 2 ^ 64 + a.toNat = a.toBitVec.toInt :=
    dividend_toInt a.toBitVec
  have hmin : a.toBitVec.toInt = -2 ^ (64 - 1) ↔ a = 0x8000000000000000 := by
    rw [← UInt64.toBitVec_inj, ← BitVec.toInt_inj]
    rfl
  have hneg : b.toBitVec.toInt = -1 ↔ b = 0xffffffffffffffff := by
    rw [← UInt64.toBitVec_inj, ← BitVec.toInt_inj]
    rfl
  have hzero : b.toBitVec = 0#64 ↔ b = 0 := by
    rw [← UInt64.toBitVec_inj]
    rfl
  rw [hdividend]
  refine (signedDiv_toInt a.toBitVec b.toBitVec).trans (if_congr ?_ rfl rfl)
  rw [hmin, hneg, hzero]

theorem quotient32 (a b : UInt32) :
    (⟨BitVec.ofInt 32 ((int32 a).tdiv (int32 b))⟩ : UInt32) = (a.toInt32 / b.toInt32).toUInt32 := by
  rw [← UInt32.toBitVec_inj]
  exact ofInt_tdiv a.toBitVec b.toBitVec

theorem remainder32 (a b : UInt32) :
    (⟨BitVec.ofInt 32 ((int32 a).tmod (int32 b))⟩ : UInt32) = (a.toInt32 % b.toInt32).toUInt32 := by
  rw [← UInt32.toBitVec_inj]
  exact ofInt_tmod a.toBitVec b.toBitVec

theorem quotient64 (a b : UInt64) :
    (⟨BitVec.ofInt 64 ((int64 a).tdiv (int64 b))⟩ : UInt64) = (a.toInt64 / b.toInt64).toUInt64 := by
  rw [← UInt64.toBitVec_inj]
  exact ofInt_tdiv a.toBitVec b.toBitVec

theorem remainder64 (a b : UInt64) :
    (⟨BitVec.ofInt 64 ((int64 a).tmod (int64 b))⟩ : UInt64) = (a.toInt64 % b.toInt64).toUInt64 := by
  rw [← UInt64.toBitVec_inj]
  exact ofInt_tmod a.toBitVec b.toBitVec

theorem and_low32 (b : UInt64) : b.toUInt32.toUInt64 &&& 63 = b &&& 63 := by
  rw [← UInt64.toBitVec_inj]
  change (b.toBitVec.setWidth 32).setWidth 64 &&& 63#64 = b.toBitVec &&& 63#64
  apply BitVec.eq_of_getLsbD_eq
  intro i hi
  simp only [BitVec.getLsbD_and, BitVec.getLsbD_setWidth]
  by_cases h : i < 32
  · simp [h, hi]
  · have hbit : (63#64).getLsbD i = false := by
      simp [BitVec.getLsbD, Nat.testBit_lt_two_pow (show 63 < 2 ^ i from
        lt_of_lt_of_le (by decide) (Nat.pow_le_pow_right (by decide) (show 6 ≤ i by omega)))]
    rw [hbit, Bool.and_false, Bool.and_false]

end Words

section Binary

variable {sse : Sse} {μ : Machine}

/-- The registers that the code of an operator may change. -/
def binGprs : List Gpr := [jitRegT0, .rax, .rdx, .rcx]

def divided32 (μ : Machine) (q r : UInt32) : Machine :=
  ((((μ.set32 .rax (μ.get32 jitRegT0)).set32 .rdx (sar32 (μ.get32 jitRegT0) 31)).set32 .rax
    q).set32 .rdx r).openFlags

theorem execAll_div32 (μ : Machine) (code : List Insn) :
    execAll sse μ (.mov32 .rax jitRegT0 :: .cdq :: .idiv32 jitRegT1 :: code) =
      if μ.get32 jitRegT1 = 0 ∨ μ.get32 jitRegT0 = 0x80000000 ∧ μ.get32 jitRegT1 = 0xffffffff then
        none
      else
        execAll sse (divided32 μ ((μ.get32 jitRegT0).toInt32 / (μ.get32 jitRegT1).toInt32).toUInt32
          ((μ.get32 jitRegT0).toInt32 % (μ.get32 jitRegT1).toInt32).toUInt32) code := by
  have hT1 : jitRegT1 ≠ .rax ∧ jitRegT1 ≠ .rdx := by decide
  simp only [execAll_cons, exec, Option.bind_some, Machine.get32_set32, hT1, reduceCtorEq,
    if_true, if_false]
  rw [signedDiv32]
  by_cases h : μ.get32 jitRegT1 = 0 ∨
      μ.get32 jitRegT0 = 0x80000000 ∧ μ.get32 jitRegT1 = 0xffffffff
  · rw [if_pos h, if_pos h, Option.map_none, Option.bind_none]
  · rw [if_neg h, if_neg h, Option.map_some, Option.bind_some, quotient32, remainder32]
    rfl

theorem runs_emitBinI32 {bin : JirBin} {v : UInt32}
    (h : bin.eval32 (μ.get32 jitRegT0) (μ.get32 jitRegT1) = some v) :
    Runs sse (emitBinI32 bin) μ fun μ' ↦ μ'.get32 jitRegT0 = v ∧ Kept binGprs μ μ' := by
  have hbin {q : Gpr} (hq : q ∉ binGprs) :
      q ≠ jitRegT0 ∧ q ≠ .rax ∧ q ≠ .rdx ∧ q ≠ .rcx := by
    simpa [binGprs] using hq
  have hshift (op : Shift) (w : UInt32)
      (hw : exec sse (μ.set32 .rcx (μ.get32 jitRegT1)) (.shiftCl32 op jitRegT0) =
        some ((μ.set32 .rcx (μ.get32 jitRegT1)).set32 jitRegT0 w).openFlags) :
      Runs sse [.mov32 .rcx jitRegT1, .shiftCl32 op jitRegT0] μ fun μ' ↦
        μ'.get32 jitRegT0 = w ∧ Kept binGprs μ μ' := by
    refine ⟨((μ.set32 .rcx (μ.get32 jitRegT1)).set32 jitRegT0 w).openFlags, ?_, ?_, rfl, fun q hq ↦ ?_⟩
    · rw [execAll_cons, exec, Option.bind_some, execAll_single, hw]
    · simp
    · simp [hbin hq]
  cases bin with
  | add =>
    cases h
    exact runs_of_exec rfl ⟨by simp [execAlu32], rfl, fun q hq ↦ by simp [execAlu32, hbin hq]⟩
  | sub =>
    cases h
    exact runs_of_exec rfl ⟨by simp [execAlu32], rfl, fun q hq ↦ by simp [execAlu32, hbin hq]⟩
  | mul =>
    cases h
    exact runs_of_exec rfl ⟨by simp, rfl, fun q hq ↦ by simp [hbin hq]⟩
  | xor =>
    cases h
    exact runs_of_exec rfl ⟨by simp [execAlu32], rfl, fun q hq ↦ by simp [execAlu32, hbin hq]⟩
  | shl =>
    cases h
    apply hshift
    simp [exec, jitRegT0, jitRegT1]
  | shr =>
    cases h
    apply hshift
    rw [← sar32_eq]
    simp [exec, jitRegT0, jitRegT1]
  | sdiv =>
    simp only [JirBin.eval32, divI32] at h
    split_ifs at h with hfault
    cases h
    unfold Runs emitBinI32
    rw [execAll_div32, if_neg hfault, execAll_single]
    refine ⟨_, rfl, ?_, rfl, fun q hq ↦ ?_⟩
    · simp [divided32]
    · simp [divided32, hbin hq]
  | mod =>
    simp only [JirBin.eval32, modI32] at h
    split_ifs at h with hfault
    cases h
    unfold Runs emitBinI32
    rw [execAll_div32, if_neg hfault, execAll_single]
    refine ⟨_, rfl, ?_, rfl, fun q hq ↦ ?_⟩
    · simp [divided32]
    · simp [divided32, hbin hq]

theorem faults_emitBinI32 {bin : JirBin}
    (h : bin.eval32 (μ.get32 jitRegT0) (μ.get32 jitRegT1) = none) :
    execAll sse μ (emitBinI32 bin) = none := by
  cases bin with
  | sdiv =>
    simp only [JirBin.eval32, divI32] at h
    split_ifs at h with hfault
    exact (execAll_div32 μ _).trans (if_pos hfault)
  | mod =>
    simp only [JirBin.eval32, modI32] at h
    split_ifs at h with hfault
    exact (execAll_div32 μ _).trans (if_pos hfault)
  | add | sub | mul | shl | shr | xor => exact absurd h (Option.some_ne_none _)

def divided64 (μ : Machine) (q r : UInt64) : Machine :=
  ((((μ.set .rax (μ.gpr jitRegT0)).set .rdx (sar64 (μ.gpr jitRegT0) 63)).set .rax q).set
    .rdx r).openFlags

theorem execAll_div64 (μ : Machine) (code : List Insn) :
    execAll sse μ (.mov64 .rax jitRegT0 :: .cqo :: .idiv64 jitRegT1 :: code) =
      if μ.gpr jitRegT1 = 0 ∨
          μ.gpr jitRegT0 = 0x8000000000000000 ∧ μ.gpr jitRegT1 = 0xffffffffffffffff then
        none
      else
        execAll sse (divided64 μ ((μ.gpr jitRegT0).toInt64 / (μ.gpr jitRegT1).toInt64).toUInt64
          ((μ.gpr jitRegT0).toInt64 % (μ.gpr jitRegT1).toInt64).toUInt64) code := by
  have hT1 : jitRegT1 ≠ .rax ∧ jitRegT1 ≠ .rdx := by decide
  simp only [execAll_cons, exec, Option.bind_some, Machine.gpr_set, hT1, reduceCtorEq,
    if_true, if_false]
  rw [signedDiv64]
  by_cases h : μ.gpr jitRegT1 = 0 ∨
      μ.gpr jitRegT0 = 0x8000000000000000 ∧ μ.gpr jitRegT1 = 0xffffffffffffffff
  · rw [if_pos h, if_pos h, Option.map_none, Option.bind_none]
  · rw [if_neg h, if_neg h, Option.map_some, Option.bind_some, quotient64, remainder64]
    rfl

theorem runs_emitBinI64 {bin : JirBin} {v : UInt64}
    (h : bin.eval64 (μ.gpr jitRegT0) (μ.gpr jitRegT1) = some v) :
    Runs sse (emitBinI64 bin) μ fun μ' ↦ μ'.gpr jitRegT0 = v ∧ Kept binGprs μ μ' := by
  have hbin {q : Gpr} (hq : q ∉ binGprs) :
      q ≠ jitRegT0 ∧ q ≠ .rax ∧ q ≠ .rdx ∧ q ≠ .rcx := by
    simpa [binGprs] using hq
  have hshift (op : Shift) (w : UInt64)
      (hw : exec sse (μ.set32 .rcx (μ.get32 jitRegT1)) (.shiftCl64 op jitRegT0) =
        some ((μ.set32 .rcx (μ.get32 jitRegT1)).set jitRegT0 w).openFlags) :
      Runs sse [.mov32 .rcx jitRegT1, .shiftCl64 op jitRegT0] μ fun μ' ↦
        μ'.gpr jitRegT0 = w ∧ Kept binGprs μ μ' := by
    refine ⟨((μ.set32 .rcx (μ.get32 jitRegT1)).set jitRegT0 w).openFlags, ?_, ?_, rfl, fun q hq ↦ ?_⟩
    · rw [execAll_cons, exec, Option.bind_some, execAll_single, hw]
    · simp
    · simp [hbin hq]
  cases bin with
  | add =>
    cases h
    exact runs_of_exec rfl ⟨by simp [execAlu64], rfl, fun q hq ↦ by simp [execAlu64, hbin hq]⟩
  | sub =>
    cases h
    exact runs_of_exec rfl ⟨by simp [execAlu64], rfl, fun q hq ↦ by simp [execAlu64, hbin hq]⟩
  | mul =>
    cases h
    exact runs_of_exec rfl ⟨by simp, rfl, fun q hq ↦ by simp [hbin hq]⟩
  | xor =>
    cases h
    exact runs_of_exec rfl ⟨by simp [execAlu64], rfl, fun q hq ↦ by simp [execAlu64, hbin hq]⟩
  | shl =>
    cases h
    apply hshift
    rw [← and_low32]
    simp [exec, jitRegT0, jitRegT1, Machine.get32]
  | shr =>
    cases h
    apply hshift
    rw [← sar64_eq, ← and_low32]
    simp [exec, jitRegT0, jitRegT1, Machine.get32]
  | sdiv =>
    simp only [JirBin.eval64, divI64] at h
    split_ifs at h with hfault
    cases h
    unfold Runs emitBinI64
    rw [execAll_div64, if_neg hfault, execAll_single]
    refine ⟨_, rfl, ?_, rfl, fun q hq ↦ ?_⟩
    · simp [divided64]
    · simp [divided64, hbin hq]
  | mod =>
    simp only [JirBin.eval64, modI64] at h
    split_ifs at h with hfault
    cases h
    unfold Runs emitBinI64
    rw [execAll_div64, if_neg hfault, execAll_single]
    refine ⟨_, rfl, ?_, rfl, fun q hq ↦ ?_⟩
    · simp [divided64]
    · simp [divided64, hbin hq]

theorem faults_emitBinI64 {bin : JirBin}
    (h : bin.eval64 (μ.gpr jitRegT0) (μ.gpr jitRegT1) = none) :
    execAll sse μ (emitBinI64 bin) = none := by
  cases bin with
  | sdiv =>
    simp only [JirBin.eval64, divI64] at h
    split_ifs at h with hfault
    exact (execAll_div64 μ _).trans (if_pos hfault)
  | mod =>
    simp only [JirBin.eval64, modI64] at h
    split_ifs at h with hfault
    exact (execAll_div64 μ _).trans (if_pos hfault)
  | add | sub | mul | shl | shr | xor => exact absurd h (Option.some_ne_none _)

end Binary

end JelloVM
