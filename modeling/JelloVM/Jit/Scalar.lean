import JelloVM.Jit.EmitSpec
import JelloVM.ExecLoop

namespace JelloVM

open X64 ByteMemory Logged

/-- The memory that a program of the interpreter leaves, `none` where it stops. -/
def memAfter (x : StoreM Unit) (s : Store) : Option Mem := (result x s).toOption.map (·.2.mem)

/-- The memory that code leaves, `none` where it faults. -/
def memRun (sse : Sse) (code : List Insn) (μ : Machine) : Option Mem :=
  (execAll sse μ code).map (·.mem)

section Interpreter

variable (ctx : Ctx) (ins : JelloInsn) (s : Store)

theorem memAfter_binI32Masked (e : UInt32 → UInt32 → Option UInt32) :
    memAfter (binI32Masked e ctx ins) s =
      (e (load32 s.mem (ctx.rf.addr ins.rb)) (load32 s.mem (ctx.rf.addr ins.rc))).map fun v ↦
        store32 s.mem (ctx.rf.addr ins.ra) (mask (regKind ctx.m ctx.f ins.ra) v) := by
  unfold memAfter binI32Masked vmRegKind regTypeOf typeOf vmLoadU32
  simp only [result_bind, result_note, result_pure, result_read, Except.bind]
  cases e (load32 s.mem (ctx.rf.addr ins.rb)) (load32 s.mem (ctx.rf.addr ins.rc)) with
  | none => rfl
  | some v => rfl

theorem memAfter_binI32ImmMasked (e : UInt32 → UInt32 → UInt32) :
    memAfter (binI32ImmMasked e ctx ins) s = some (store32 s.mem (ctx.rf.addr ins.ra)
      (mask (regKind ctx.m ctx.f ins.ra) (e (load32 s.mem (ctx.rf.addr ins.rb)) ins.immC))) := rfl

theorem memAfter_bin64 (e : UInt64 → UInt64 → Option UInt64) :
    memAfter (bin64 e ctx ins) s =
      (e (load64 s.mem (ctx.rf.addr ins.rb)) (load64 s.mem (ctx.rf.addr ins.rc))).map fun v ↦
        store64 s.mem (ctx.rf.addr ins.ra) v := by
  unfold memAfter bin64 vmLoad64
  simp only [result_bind, result_note, result_read, Except.bind]
  cases e (load64 s.mem (ctx.rf.addr ins.rb)) (load64 s.mem (ctx.rf.addr ins.rc)) with
  | none => rfl
  | some v => rfl

theorem memAfter_bin32 (e : UInt32 → UInt32 → UInt32) :
    memAfter (bin32 e ctx ins) s = some (store32 s.mem (ctx.rf.addr ins.ra)
      (e (load32 s.mem (ctx.rf.addr ins.rb)) (load32 s.mem (ctx.rf.addr ins.rc)))) := rfl

theorem memAfter_cmpI32Imm (e : UInt32 → UInt32 → Bool) :
    memAfter (cmpI32Imm e ctx ins) s = some (store32 s.mem (ctx.rf.addr ins.ra)
      (flag (e (load32 s.mem (ctx.rf.addr ins.rb)) ins.immC))) := rfl

theorem memAfter_cmp64 (e : UInt64 → UInt64 → Bool) :
    memAfter (cmp64 e ctx ins) s = some (store32 s.mem (ctx.rf.addr ins.ra)
      (flag (e (load64 s.mem (ctx.rf.addr ins.rb)) (load64 s.mem (ctx.rf.addr ins.rc))))) := rfl

end Interpreter

section Machine

variable {sse : Sse} {rf : RegFrame} {i32c : Option ℕ} {μ : Machine} {code pre : List Insn}

/-- The code leaves `Q` in the registers, and memory and frame as they are. -/
def Computes (sse : Sse) (rf : RegFrame) (code : List Insn) (μ : Machine) (Q : Machine → Prop) :
    Prop :=
  Runs sse code μ fun μ' ↦ Q μ' ∧ μ'.mem = μ.mem ∧ AtFrame rf μ'

theorem computes_of_kept (rs : List Gpr) {Q : Machine → Prop} (h : AtFrame rf μ)
    (hrun : Runs sse code μ fun μ' ↦ Q μ' ∧ Kept rs μ μ') (hbase : jitRegBase ∉ rs) :
    Computes sse rf code μ Q := by
  refine hrun.mono fun μ' h' ↦ ?_
  obtain ⟨hQ, hk⟩ := h'
  exact ⟨hQ, hk.mem, h.kept hk hbase⟩

theorem memRun_of_runs {M : Mem} (h : Runs sse code μ fun μ' ↦ μ'.mem = M) :
    memRun sse code μ = some M := by
  obtain ⟨μ', hrun, hM⟩ := h
  rw [memRun, hrun, Option.map_some, hM]

theorem memRun_of_faults (h : execAll sse μ pre = none) : memRun sse (pre ++ code) μ = none := by
  rw [memRun, execAll_append, h]
  rfl

theorem memRun_strI32T0 {v : UInt32} (a : ℕ)
    (h : Computes sse rf pre μ fun μ' ↦ μ'.get32 jitRegT0 = v) :
    memRun sse (pre ++ emitStrI32T0 (fun r ↦ rf.off.getD r 0) a) μ =
      some (store32 μ.mem (rf.addr a) v) := by
  refine memRun_of_runs (runs_append.mpr (h.mono fun μ₁ h₁ ↦ ?_))
  obtain ⟨hv, hmem, hframe⟩ := h₁
  refine (runs_strI32T0 hframe a).mono fun μ₂ h₂ ↦ ?_
  rw [h₂.1, hv, hmem]

theorem memRun_strW {v : UInt32} (a : ℕ)
    (h : Computes sse rf pre μ fun μ' ↦ μ'.get32 jitRegT0 = v) :
    memRun sse (pre ++ emitStrWSlot jitRegT0 (rf.off.getD a 0)) μ =
      some (store32 μ.mem (rf.addr a) v) := by
  refine memRun_of_runs (runs_append.mpr (h.mono fun μ₁ h₁ ↦ ?_))
  obtain ⟨hv, hmem, hframe⟩ := h₁
  refine (runs_strW hframe (by decide) a).mono fun μ₂ h₂ ↦ ?_
  rw [h₂.1, hv, hmem]

theorem memRun_strX {v : UInt64} (a : ℕ)
    (h : Computes sse rf pre μ fun μ' ↦ μ'.gpr jitRegT0 = v) :
    memRun sse (pre ++ emitStrXSlot jitRegT0 (rf.off.getD a 0)) μ =
      some (store64 μ.mem (rf.addr a) v) := by
  refine memRun_of_runs (runs_append.mpr (h.mono fun μ₁ h₁ ↦ ?_))
  obtain ⟨hv, hmem, hframe⟩ := h₁
  refine (runs_strX hframe (by decide) a).mono fun μ₂ h₂ ↦ ?_
  rw [h₂.1, hv, hmem]

/-- The registers that the loads of two operands change. -/
def operandGprs : List Gpr := [jitRegT0, jitRegT2] ++ [jitRegT1, jitRegT2]

theorem get32_of_gpr {r : Gpr} {v : UInt32} (h : μ.gpr r = v.toUInt64) : μ.get32 r = v := by
  rw [Machine.get32, h, UInt32.toUInt32_toUInt64]

theorem runs_operands32 (h : AtFrame rf μ) (hcur : Current rf i32c μ) (b c : ℕ) :
    Runs sse (emitLdrI32 jitRegT0 (fun r ↦ rf.off.getD r 0) i32c b ++
        emitLdrI32 jitRegT1 (fun r ↦ rf.off.getD r 0) i32c c) μ fun μ' ↦
      (μ'.get32 jitRegT0 = load32 μ.mem (rf.addr b) ∧
        μ'.get32 jitRegT1 = load32 μ.mem (rf.addr c)) ∧ Kept operandGprs μ μ' := by
  refine runs_append.mpr ((runs_ldrI32 h hcur jitRegT0 b).mono fun μ₁ h₁ ↦ ?_)
  obtain ⟨hb, hk₁⟩ := h₁
  have hframe := h.kept hk₁ (by decide)
  refine (runs_ldrI32 hframe (hcur.kept hk₁ (by decide)) jitRegT1 c).mono fun μ₂ h₂ ↦ ?_
  obtain ⟨hc, hk₂⟩ := h₂
  refine ⟨⟨?_, ?_⟩, hk₁.trans hk₂⟩
  · rw [hk₂.get32 (by decide), get32_of_gpr hb]
  · rw [get32_of_gpr hc, hk₁.mem]

theorem runs_operands64 (h : AtFrame rf μ) (b c : ℕ) :
    Runs sse (emitLdrXSlot jitRegT0 (rf.off.getD b 0) ++ emitLdrXSlot jitRegT1 (rf.off.getD c 0)) μ
      fun μ' ↦ (μ'.gpr jitRegT0 = load64 μ.mem (rf.addr b) ∧
        μ'.gpr jitRegT1 = load64 μ.mem (rf.addr c)) ∧ Kept operandGprs μ μ' := by
  refine runs_append.mpr ((runs_ldrX h jitRegT0 b).mono fun μ₁ h₁ ↦ ?_)
  obtain ⟨hb, hk₁⟩ := h₁
  refine (runs_ldrX (h.kept hk₁ (by decide)) jitRegT1 c).mono fun μ₂ h₂ ↦ ?_
  obtain ⟨hc, hk₂⟩ := h₂
  refine ⟨⟨?_, ?_⟩, hk₁.trans hk₂⟩
  · rw [hk₂.gpr _ (by decide), hb]
  · rw [hc, hk₁.mem]

theorem memRun_binI32 (h : AtFrame rf μ) (hcur : Current rf i32c μ) (bin : JirBin) (a b c : ℕ) :
    memRun sse (emitLdrI32 jitRegT0 (fun r ↦ rf.off.getD r 0) i32c b ++
        (emitLdrI32 jitRegT1 (fun r ↦ rf.off.getD r 0) i32c c ++ emitBinI32 bin) ++
          emitStrI32T0 (fun r ↦ rf.off.getD r 0) a) μ =
      (bin.eval32 (load32 μ.mem (rf.addr b)) (load32 μ.mem (rf.addr c))).map fun v ↦
        store32 μ.mem (rf.addr a) v := by
  have hops := @runs_operands32 sse rf i32c μ h hcur b c
  rw [← List.append_assoc (emitLdrI32 jitRegT0 _ i32c b)]
  cases hv : bin.eval32 (load32 μ.mem (rf.addr b)) (load32 μ.mem (rf.addr c)) with
  | none =>
    apply memRun_of_faults
    refine faults_append (hops.mono fun μ₁ h₁ ↦ faults_emitBinI32 ?_)
    rw [h₁.1.1, h₁.1.2, hv]
  | some v =>
    apply memRun_strI32T0
    refine computes_of_kept (operandGprs ++ binGprs) h ?_ (by decide)
    refine runs_append.mpr (hops.mono fun μ₁ h₁ ↦ ?_)
    rw [← h₁.1.1, ← h₁.1.2] at hv
    refine (runs_emitBinI32 hv).mono fun μ₂ h₂ ↦ ⟨h₂.1, h₁.2.trans h₂.2⟩

theorem memRun_binI64 (h : AtFrame rf μ) (bin : JirBin) (a b c : ℕ) :
    memRun sse (emitLdrXSlot jitRegT0 (rf.off.getD b 0) ++
        emitLdrXSlot jitRegT1 (rf.off.getD c 0) ++ emitBinI64 bin ++
          emitStrXSlot jitRegT0 (rf.off.getD a 0)) μ =
      (bin.eval64 (load64 μ.mem (rf.addr b)) (load64 μ.mem (rf.addr c))).map fun v ↦
        store64 μ.mem (rf.addr a) v := by
  have hops := @runs_operands64 sse rf μ h b c
  cases hv : bin.eval64 (load64 μ.mem (rf.addr b)) (load64 μ.mem (rf.addr c)) with
  | none =>
    apply memRun_of_faults
    refine faults_append (hops.mono fun μ₁ h₁ ↦ faults_emitBinI64 ?_)
    rw [h₁.1.1, h₁.1.2, hv]
  | some v =>
    apply memRun_strX
    refine computes_of_kept (operandGprs ++ binGprs) h ?_ (by decide)
    refine runs_append.mpr (hops.mono fun μ₁ h₁ ↦ ?_)
    rw [← h₁.1.1, ← h₁.1.2] at hv
    refine (runs_emitBinI64 hv).mono fun μ₂ h₂ ↦ ⟨h₂.1, h₁.2.trans h₂.2⟩

theorem runs_binImm {bin : JirBin} {imm v : UInt32}
    (h : bin.eval32 (μ.get32 jitRegT0) imm = some v) :
    Runs sse (if bin = .sub then [.aluImm32 .sub jitRegT0 imm]
        else if bin = .add then [.aluImm32 .add jitRegT0 imm]
        else .movImm32 jitRegT1 imm :: emitBinI32 bin) μ fun μ' ↦
      μ'.get32 jitRegT0 = v ∧ Kept ([jitRegT1] ++ binGprs) μ μ' := by
  have hbin {q : Gpr} (hq : q ∉ [jitRegT1] ++ binGprs) : q ≠ jitRegT0 := by
    rintro rfl
    exact hq (by decide)
  split_ifs with hsub hadd
  · subst hsub
    cases h
    exact runs_of_exec rfl ⟨by simp [execAlu32], rfl, fun q hq ↦ by simp [execAlu32, hbin hq]⟩
  · subst hadd
    cases h
    exact runs_of_exec rfl ⟨by simp [execAlu32], rfl, fun q hq ↦ by simp [execAlu32, hbin hq]⟩
  · have hk : Kept [jitRegT1] μ (μ.set32 jitRegT1 imm) := kept_set (.refl [] μ)
    have h' : bin.eval32 ((μ.set32 jitRegT1 imm).get32 jitRegT0)
        ((μ.set32 jitRegT1 imm).get32 jitRegT1) = some v := by
      rw [hk.get32 (by decide), Machine.get32_set32, if_pos rfl, h]
    obtain ⟨μ', hrun, hv, hk'⟩ := @runs_emitBinI32 sse _ _ _ h'
    refine ⟨μ', ?_, hv, hk.trans hk'⟩
    rw [execAll_cons, exec, Option.bind_some, hrun]

theorem memRun_binImm (h : AtFrame rf μ) (hcur : Current rf i32c μ) {bin : JirBin}
    {imm v : UInt32} (a b : ℕ) (hv : bin.eval32 (load32 μ.mem (rf.addr b)) imm = some v) :
    memRun sse (emitLdrI32 jitRegT0 (fun r ↦ rf.off.getD r 0) i32c b ++
        (if bin = .sub then [.aluImm32 .sub jitRegT0 imm]
          else if bin = .add then [.aluImm32 .add jitRegT0 imm]
          else .movImm32 jitRegT1 imm :: emitBinI32 bin) ++
          emitStrI32T0 (fun r ↦ rf.off.getD r 0) a) μ =
      some (store32 μ.mem (rf.addr a) v) := by
  apply memRun_strI32T0
  refine computes_of_kept ([jitRegT0, jitRegT2] ++ ([jitRegT1] ++ binGprs)) h ?_ (by decide)
  refine runs_append.mpr ((runs_ldrI32 h hcur jitRegT0 b).mono fun μ₁ h₁ ↦ ?_)
  rw [← get32_of_gpr h₁.1] at hv
  exact (runs_binImm hv).mono fun μ₂ h₂ ↦ ⟨h₂.1, h₁.2.trans h₂.2⟩

/-- What a comparison of the intermediate code says of two numbers. -/
def JirCmp.eval (cmp : JirCmp) (a b : ℤ) : Bool :=
  match cmp with
  | .eq => a == b
  | .lt => a < b

theorem holds_eval {w : ℕ} (a b : BitVec w) (cmp : JirCmp) :
    (subFlags a b).holds (if cmp = .lt then .l else .e) = cmp.eval a.toInt b.toInt := by
  cases cmp with
  | eq => simp [JirCmp.eval, BitVec.toInt_inj, Bool.beq_eq_decide_eq]
  | lt => simp [JirCmp.eval]

/-- What native code takes the order of two floating point numbers for. -/
def JirCmp.ofOrder (cmp : JirCmp) (o : FloatOrder) : Bool :=
  match cmp with
  | .eq => o = .equal ∨ o = .unordered
  | .lt => o = .less ∨ o = .unordered

theorem holds_ofOrder (o : FloatOrder) (cmp : JirCmp) :
    o.flags.holds (if cmp = .lt then .b else .e) = cmp.ofOrder o := by
  cases cmp with
  | eq => cases o <;> rfl
  | lt => cases o <;> rfl

theorem computes_setcc (rs : List Gpr) {fl : Flags} {cc : Cond} (h : AtFrame rf μ)
    (hbase : jitRegBase ∉ rs)
    (hpre : Runs sse pre μ fun μ' ↦ μ'.flags = some fl ∧ Kept rs μ μ') :
    Computes sse rf (pre ++ [.setcc cc jitRegT0, .movzx8 jitRegT0 jitRegT0]) μ fun μ' ↦
      μ'.get32 jitRegT0 = flag (fl.holds cc) := by
  refine computes_of_kept (rs ++ [jitRegT0]) h ?_ ?_
  · refine runs_append.mpr (hpre.mono fun μ₁ h₁ ↦ ?_)
    refine (runs_setcc h₁.1).mono fun μ₂ h₂ ↦ ⟨?_, h₁.2.trans h₂.2⟩
    rw [Machine.get32, h₂.1, flag]
    split_ifs <;> rfl
  · rw [List.mem_append, not_or]
    exact ⟨hbase, by decide⟩

theorem memRun_cmpReg (h : AtFrame rf μ) (hcur : Current rf i32c μ) (cmp : JirCmp)
    (a b c : ℕ) :
    memRun sse (emitLdrI32 jitRegT0 (fun r ↦ rf.off.getD r 0) i32c b ++
        (emitLdrI32 jitRegT1 (fun r ↦ rf.off.getD r 0) i32c c ++
          [.alu32 .cmp jitRegT0 jitRegT1]) ++ emitCmpSetI32 cmp ++
          emitStrI32T0 (fun r ↦ rf.off.getD r 0) a) μ =
      some (store32 μ.mem (rf.addr a) (flag (cmp.eval (i32 (load32 μ.mem (rf.addr b)))
        (i32 (load32 μ.mem (rf.addr c)))))) := by
  have hops := @runs_operands32 sse rf i32c μ h hcur b c
  apply memRun_strI32T0
  unfold i32
  rw [← holds_eval, ← List.append_assoc (emitLdrI32 jitRegT0 _ i32c b)]
  refine computes_setcc operandGprs h (by decide) (runs_append.mpr (hops.mono fun μ₁ h₁ ↦ ?_))
  refine runs_of_exec rfl ⟨?_, h₁.2.setFlags _⟩
  rw [execAlu32, Machine.flags_setFlags, h₁.1.1, h₁.1.2]

theorem memRun_cmpImm (h : AtFrame rf μ) (hcur : Current rf i32c μ) (cmp : JirCmp)
    (imm : UInt32) (a b : ℕ) :
    memRun sse (emitLdrI32 jitRegT0 (fun r ↦ rf.off.getD r 0) i32c b ++
        [.aluImm32 .cmp jitRegT0 imm] ++ emitCmpSetI32 cmp ++
          emitStrI32T0 (fun r ↦ rf.off.getD r 0) a) μ =
      some (store32 μ.mem (rf.addr a)
        (flag (cmp.eval (i32 (load32 μ.mem (rf.addr b))) (i32 imm)))) := by
  apply memRun_strI32T0
  unfold i32
  rw [← holds_eval]
  refine computes_setcc [jitRegT0, jitRegT2] h (by decide)
    (runs_append.mpr ((runs_ldrI32 h hcur jitRegT0 b).mono fun μ₁ h₁ ↦ ?_))
  refine runs_of_exec rfl ⟨?_, h₁.2.setFlags _⟩
  rw [execAlu32, Machine.flags_setFlags, get32_of_gpr h₁.1]

theorem memRun_cmpI64 (h : AtFrame rf μ) (cmp : JirCmp) (a b c : ℕ) :
    memRun sse (emitLdrXSlot jitRegT0 (rf.off.getD b 0) ++
        emitLdrXSlot jitRegT1 (rf.off.getD c 0) ++ [.alu64 .cmp jitRegT0 jitRegT1] ++
          emitCmpSetI32 cmp ++ emitStrWSlot jitRegT0 (rf.off.getD a 0)) μ =
      some (store32 μ.mem (rf.addr a) (flag (cmp.eval (i64 (load64 μ.mem (rf.addr b)))
        (i64 (load64 μ.mem (rf.addr c)))))) := by
  have hops := @runs_operands64 sse rf μ h b c
  apply memRun_strW
  unfold i64
  rw [← holds_eval]
  refine computes_setcc operandGprs h (by decide) (runs_append.mpr (hops.mono fun μ₁ h₁ ↦ ?_))
  refine runs_of_exec rfl ⟨?_, h₁.2.setFlags _⟩
  rw [execAlu64, Machine.flags_setFlags, h₁.1.1, h₁.1.2]

theorem memRun_cmpF32 (h : AtFrame rf μ) (cmp : JirCmp) (a b c : ℕ) :
    memRun sse (emitLdrSSlot 0 (rf.off.getD b 0) ++ emitLdrSSlot 1 (rf.off.getD c 0) ++
        [.comiss 0 1] ++ emitCmpSetFloat cmp ++ emitStrWSlot jitRegT0 (rf.off.getD a 0)) μ =
      some (store32 μ.mem (rf.addr a) (flag (cmp.ofOrder
        (sse.cmp32 (load32 μ.mem (rf.addr b)) (load32 μ.mem (rf.addr c)))))) := by
  apply memRun_strW
  rw [← holds_ofOrder]
  refine computes_setcc ([jitRegT2] ++ [jitRegT2]) h (by decide) (runs_append.mpr (runs_append.mpr
    ((runs_ldrS h 0 b).mono fun μ₁ h₁ ↦ ?_)))
  obtain ⟨hb, hk₁, hx₁⟩ := h₁
  refine (runs_ldrS (h.kept hk₁ (by decide)) 1 c).mono fun μ₂ h₂ ↦ ?_
  obtain ⟨hc, hk₂, hx₂⟩ := h₂
  refine runs_of_exec rfl ⟨?_, hk₁.trans (hk₂.setFlags _)⟩
  rw [Machine.flags_setFlags, hc, hx₂ 0 (by decide), hb, hk₁.mem]

theorem memRun_cmpF64 (h : AtFrame rf μ) (cmp : JirCmp) (a b c : ℕ) :
    memRun sse (emitLdrDSlot 0 (rf.off.getD b 0) ++ emitLdrDSlot 1 (rf.off.getD c 0) ++
        [.comisd 0 1] ++ emitCmpSetFloat cmp ++ emitStrWSlot jitRegT0 (rf.off.getD a 0)) μ =
      some (store32 μ.mem (rf.addr a) (flag (cmp.ofOrder
        (sse.cmp64 (load64 μ.mem (rf.addr b)) (load64 μ.mem (rf.addr c)))))) := by
  apply memRun_strW
  rw [← holds_ofOrder]
  refine computes_setcc ([jitRegT2] ++ [jitRegT2]) h (by decide) (runs_append.mpr (runs_append.mpr
    ((runs_ldrD h 0 b).mono fun μ₁ h₁ ↦ ?_)))
  obtain ⟨hb, hk₁, hx₁⟩ := h₁
  refine (runs_ldrD (h.kept hk₁ (by decide)) 1 c).mono fun μ₂ h₂ ↦ ?_
  obtain ⟨hc, hk₂, hx₂⟩ := h₂
  refine runs_of_exec rfl ⟨?_, hk₁.trans (hk₂.setFlags _)⟩
  rw [Machine.flags_setFlags, hc, hx₂ 0 (by decide), hb, hk₁.mem]

theorem memRun_negI32 (h : AtFrame rf μ) (hcur : Current rf i32c μ) (a b : ℕ) :
    memRun sse (emitLdrI32 jitRegT0 (fun r ↦ rf.off.getD r 0) i32c b ++ [.neg32 jitRegT0] ++
        emitStrI32T0 (fun r ↦ rf.off.getD r 0) a) μ =
      some (store32 μ.mem (rf.addr a) (0 - load32 μ.mem (rf.addr b))) := by
  apply memRun_strI32T0
  refine computes_of_kept ([jitRegT0, jitRegT2] ++ [jitRegT0]) h ?_ (by decide)
  refine runs_append.mpr ((runs_ldrI32 h hcur jitRegT0 b).mono fun μ₁ h₁ ↦ ?_)
  refine runs_of_exec rfl ⟨?_, h₁.2.trans (kept_set (.refl [] μ₁)).openFlags⟩
  rw [Machine.get32_openFlags, Machine.get32_set32, if_pos rfl, get32_of_gpr h₁.1]

theorem memRun_negI64 (h : AtFrame rf μ) (a b : ℕ) :
    memRun sse (emitLdrXSlot jitRegT0 (rf.off.getD b 0) ++ [.neg64 jitRegT0] ++
        emitStrXSlot jitRegT0 (rf.off.getD a 0)) μ =
      some (store64 μ.mem (rf.addr a) (0 - load64 μ.mem (rf.addr b))) := by
  apply memRun_strX
  refine computes_of_kept ([jitRegT0, jitRegT2] ++ [jitRegT0]) h ?_ (by decide)
  refine runs_append.mpr ((runs_ldrX h jitRegT0 b).mono fun μ₁ h₁ ↦ ?_)
  refine runs_of_exec rfl ⟨?_, h₁.2.trans (kept_set (.refl [] μ₁)).openFlags⟩
  rw [Machine.gpr_openFlags, Machine.gpr_set, if_pos rfl, h₁.1]

theorem memRun_loadI32 (h : AtFrame rf μ) (imm : UInt32) (a : ℕ) :
    memRun sse (.movImm32 jitRegT0 imm :: emitStrI32T0 (fun r ↦ rf.off.getD r 0) a) μ =
      some (store32 μ.mem (rf.addr a) imm) := by
  refine @memRun_strI32T0 sse rf μ [.movImm32 jitRegT0 imm] imm a ?_
  refine computes_of_kept [jitRegT0] h (runs_of_exec rfl ⟨?_, kept_set (.refl [] μ)⟩) (by decide)
  rw [Machine.get32_set32, if_pos rfl]

theorem memRun_loadX (h : AtFrame rf μ) (v : UInt64) (a : ℕ) :
    memRun sse (emitLoadX (fun r ↦ rf.off.getD r 0) a v) μ =
      some (store64 μ.mem (rf.addr a) v) := by
  refine @memRun_strX sse rf μ [.movImm64 jitRegT0 v] v a ?_
  refine computes_of_kept [jitRegT0] h (runs_of_exec rfl ⟨?_, kept_set (.refl [] μ)⟩) (by decide)
  rw [Machine.gpr_set, if_pos rfl]

theorem memRun_movReg (h : AtFrame rf μ) (hcur : Current rf i32c μ) (m : JelloBcModule) (f : ℕ)
    (x : JirInsn) :
    memRun sse (emitMovReg m f (fun r ↦ rf.off.getD r 0) i32c x) μ =
      some (copy μ.mem (rf.addr x.a) (rf.addr x.b) (regSlotSz m f x.a)) := by
  unfold emitMovReg
  split_ifs with hsz
  · rw [hsz, ← store64_load64]
    apply memRun_strX
    exact computes_of_kept [jitRegT0, jitRegT2] h (runs_ldrX h jitRegT0 x.b) (by decide)
  · have hfour : regSlotSz m f x.a = 4 := by
      unfold regSlotSz at hsz ⊢
      cases hk : regKind m f x.a <;> simp [hk, jelloSlotSize] at hsz ⊢
    rw [hfour, ← store32_load32]
    apply memRun_strI32T0
    refine computes_of_kept [jitRegT0, jitRegT2] h ?_ (by decide)
    exact (runs_ldrI32 h hcur jitRegT0 x.b).mono fun μ₁ h₁ ↦ ⟨get32_of_gpr h₁.1, h₁.2⟩

end Machine

section Fits

/-- The words that a slot of the kind keeps as they are -/
def FitsKind (k : Kind) (v : UInt32) : Prop :=
  match k with
  | .i8 => -2 ^ 7 ≤ i32 v ∧ i32 v < 2 ^ 7
  | .i16 => -2 ^ 15 ≤ i32 v ∧ i32 v < 2 ^ 15
  | _ => True

instance (k : Kind) (v : UInt32) : Decidable (FitsKind k v) := by
  unfold FitsKind
  split <;> infer_instance

theorem signExtend_eq_iff (w : ℕ) (hw : w + 1 ≤ 32) (v : BitVec 32) :
    (v.setWidth (w + 1)).signExtend 32 = v ↔ -2 ^ w ≤ v.toInt ∧ v.toInt < 2 ^ w := by
  have hpos : 0 < 2 ^ w := Nat.two_pow_pos w
  have hext : ((v.setWidth (w + 1)).signExtend 32).toInt = v.toInt.bmod (2 ^ (w + 1)) := by
    rw [BitVec.toInt_signExtend_of_le hw, BitVec.toInt_setWidth, BitVec.toInt_eq_toNat_bmod v,
      Int.bmod_bmod_of_dvd (Nat.pow_dvd_pow 2 hw)]
  rw [← BitVec.toInt_inj, hext, Int.bmod_eq_iff (by positivity), sub_self]
  push_cast
  rw [pow_succ]
  simp only [dvd_zero, and_true]
  generalize (2 : ℤ) ^ w = p
  omega

theorem mask_eq_iff (k : Kind) (v : UInt32) : mask k v = v ↔ FitsKind k v := by
  cases k
  case i8 =>
    rw [← UInt32.toBitVec_inj]
    exact signExtend_eq_iff 7 (by decide) v.toBitVec
  case i16 =>
    rw [← UInt32.toBitVec_inj]
    exact signExtend_eq_iff 15 (by decide) v.toBitVec
  all_goals simp [mask, FitsKind]

end Fits

section Sites

variable {m : JelloBcModule} {f : ℕ} {ir : List JirInsn}

theorem lowerFrom_covers {pc n : ℕ} (h : lowerFrom m f pc n = some ir) {q : ℕ} (hle : pc ≤ q)
    (hlt : q < pc + n) : ∃ b, lowerOne m f q = some b ∧ b ⊆ ir := by
  induction n generalizing pc ir with
  | zero => omega
  | succ n ih =>
    obtain ⟨here, hhere, h⟩ := Option.bind_eq_some_iff.mp h
    obtain ⟨rest, hrest, h⟩ := Option.bind_eq_some_iff.mp h
    cases h
    obtain rfl | hne := eq_or_ne q pc
    · exact ⟨here, hhere, List.subset_append_left here rest⟩
    · obtain ⟨b, hb, hsub⟩ := ih hrest (by omega) (by omega)
      exact ⟨b, hb, fun y hy ↦ List.mem_append_right here (hsub hy)⟩

def siteCode (m : JelloBcModule) (f : ℕ) (ir : List JirInsn) (i : ℕ) (x : JirInsn) : SiteCode :=
  emitIr m f (fun r ↦ (vmGetFrameLayout m f).off.getD r 0) (i32cAt m f ir i)
    (switchCases ir i x.b) x

/-- A machine that comes to a site: it is at a frame of the function, and `RBX` holds what the
emitter takes it to hold. -/
structure AtSite (m : JelloBcModule) (f : ℕ) (ir : List JirInsn) (i : ℕ) (rf : RegFrame)
    (μ : Machine) : Prop where
  layout : rf.off = (vmGetFrameLayout m f).off
  frame : AtFrame rf μ
  current : Current rf (i32cAt m f ir i) μ

end Sites

/-- The comparisons of the compiled C code are those of the machine. -/
structure SameOrder (fpu : Fpu) (sse : Sse) : Prop where
  eq32 : ∀ a b, fpu.eq32 a b = decide (sse.cmp32 a b = .equal)
  lt32 : ∀ a b, fpu.lt32 a b = decide (sse.cmp32 a b = .less)
  eq64 : ∀ a b, fpu.eq64 a b = decide (sse.cmp64 a b = .equal)
  lt64 : ∀ a b, fpu.lt64 a b = decide (sse.cmp64 a b = .less)

/-- Instructions on integers and booleans, and the comparisons of floating point numbers -/
def isScalar : JelloOp → Bool
  | .mov | .constI32 | .constI8Imm | .constBool | .constI64 | .negI32 | .negI64 | .addI32 | .subI32
  | .mulI32 | .divI32 | .modI32 | .shlI32 | .shrI32 | .bitxorI32 | .addI32Imm | .subI32Imm
  | .mulI32Imm | .addI64 | .subI64 | .mulI64 | .divI64 | .modI64 | .shlI64 | .shrI64 | .bitxorI64
  | .eqI32 | .ltI32 | .eqI32Imm | .ltI32Imm | .eqI64 | .ltI64 | .notBool | .eqF32 | .ltF32 | .eqF64
  | .ltF64 => true
  | _ => false

section Agreement

variable (fpu : Fpu) (sse : Sse) (m : JelloBcModule) (f : ℕ) (rf : RegFrame)

/-- What the interpreter makes of the instruction at `pc`. -/
def vmMemAfter (pc : ℕ) (s : Store) : Option Mem :=
  memAfter (dataOp ((m.func f).insn pc).op
    { m := m, fpu := fpu, f := f, rf := rf, pc := pc + 1 } ((m.func f).insn pc)) s

/-- Native code leaves the memory that the interpreter leaves, or both fault. -/
def Agrees (ir : List JirInsn) (i : ℕ) (x : JirInsn) (μ : Machine) (s : Store) : Prop :=
  ∃ code, siteCode m f ir i x = .code code ∧ memRun sse code μ = vmMemAfter fpu m f rf x.bcPc s

/-- The operands with which native code agrees: the result fits into the register, no register
255 is meant in a comparison unless it is as good as 0, and the numbers compared are ordered. -/
def ScalarOk (mem : Mem) (ins : JelloInsn) : Prop :=
  let k := regKind m f ins.ra
  let a := load32 mem (rf.addr ins.rb)
  let b := load32 mem (rf.addr ins.rc)
  match ins.op with
  | .addI32 | .subI32 | .mulI32 | .divI32 | .modI32 | .shlI32 | .shrI32 | .bitxorI32 =>
    ∀ v ∈ (binFromOp ins.op).eval32 a b, FitsKind k v
  | .addI32Imm | .subI32Imm | .mulI32Imm =>
    ∀ v ∈ (binFromOp ins.op).eval32 a ins.immC, FitsKind k v
  | .negI32 => FitsKind k (0 - a)
  | .eqI32 => ins.rc = 255 → (i32 a = i32 b ↔ i32 a = 0)
  | .ltI32 => ins.rc = 255 → (i32 a < i32 b ↔ i32 a < 0)
  | .eqF32 | .ltF32 => sse.cmp32 a b ≠ .unordered
  | .eqF64 | .ltF64 =>
    sse.cmp64 (load64 mem (rf.addr ins.rb)) (load64 mem (rf.addr ins.rc)) ≠ .unordered
  | _ => True

end Agreement

section Families

variable {fpu : Fpu} {sse : Sse} {m : JelloBcModule} {f i pc : ℕ} {ir : List JirInsn}
  {rf : RegFrame} {μ : Machine} {s : Store}

theorem agrees_iff {x : JirInsn} {code : List Insn} {N M : Option Mem} {P : Prop}
    (h : AtSite m f ir i rf μ)
    (hcode : emitIr m f (fun r ↦ rf.off.getD r 0) (i32cAt m f ir i) (switchCases ir i x.b) x =
      .code code)
    (hrun : memRun sse code μ = N) (hvm : vmMemAfter fpu m f rf x.bcPc s = M)
    (hP : N = M ↔ P) : Agrees fpu sse m f rf ir i x μ s ↔ P := by
  have hsite : siteCode m f ir i x = .code code := by
    unfold siteCode
    rw [← h.layout]
    exact hcode
  rw [← hP, ← hrun, ← hvm]
  refine ⟨fun hag ↦ ?_, fun heq ↦ ⟨code, hsite, heq⟩⟩
  obtain ⟨code', hcode', heq⟩ := hag
  rw [hsite] at hcode'
  cases hcode'
  exact heq

theorem agrees_of {x : JirInsn} {code : List Insn} {M : Option Mem} (h : AtSite m f ir i rf μ)
    (hcode : emitIr m f (fun r ↦ rf.off.getD r 0) (i32cAt m f ir i) (switchCases ir i x.b) x =
      .code code)
    (hvm : vmMemAfter fpu m f rf x.bcPc s = M) (hrun : memRun sse code μ = M) :
    Agrees fpu sse m f rf ir i x μ s :=
  (agrees_iff h hcode hrun hvm (iff_of_true rfl trivial)).mpr trivial

theorem flag_inj {a b : Bool} : flag a = flag b ↔ a = b := by
  cases a <;> cases b <;> decide

theorem masked_store_iff (mem : Mem) (d : ℕ) (k : Kind) (o : Option UInt32) :
    (o.map (store32 mem d) = o.map fun v ↦ store32 mem d (mask k v)) ↔ ∀ v ∈ o, FitsKind k v := by
  cases o with
  | none => simp
  | some v => simp [store32_inj, ← mask_eq_iff, eq_comm]

theorem ofNat_rc (ins : JelloInsn) : sext8 (UInt32.ofNat ins.rc) = ins.immC := by
  have hc : UInt32.ofNat ins.rc = ins.c.toUInt32 := by
    have hlt := ins.c.toNat_lt
    rw [← UInt32.toNat_inj, UInt32.toNat_ofNat', UInt8.toNat_toUInt32, JelloInsn.rc]
    omega
  rw [hc, JelloInsn.immC]

theorem agrees_binI32 {bin : JirBin} (h : AtSite m f ir i rf μ) (hmem : s.mem = μ.mem)
    (himm : ((m.func f).insn pc).op ≠ .addI32Imm ∧ ((m.func f).insn pc).op ≠ .subI32Imm ∧
      ((m.func f).insn pc).op ≠ .mulI32Imm)
    (hdata : dataOp ((m.func f).insn pc).op = binI32Masked bin.eval32) :
    Agrees fpu sse m f rf ir i (jirABC (.binI32 bin) ((m.func f).insn pc) pc 0) μ s ↔
      ∀ v ∈ bin.eval32 (load32 μ.mem (rf.addr ((m.func f).insn pc).rb))
        (load32 μ.mem (rf.addr ((m.func f).insn pc).rc)),
        FitsKind (regKind m f ((m.func f).insn pc).ra) v := by
  refine agrees_iff h rfl ?_ ?_ (masked_store_iff μ.mem (rf.addr ((m.func f).insn pc).ra) _ _)
  · simp only [emitBinI32Site, jirABC, jirAB, jirA, jir, himm, or_false, if_false]
    exact memRun_binI32 h.frame h.current bin _ _ _
  · dsimp only [vmMemAfter, jirABC, jirAB, jirA, jir]
    rw [hdata, memAfter_binI32Masked, hmem]

theorem agrees_binImm {bin : JirBin} {e : UInt32 → UInt32 → UInt32} (h : AtSite m f ir i rf μ)
    (hmem : s.mem = μ.mem)
    (himm : ((m.func f).insn pc).op = .addI32Imm ∨ ((m.func f).insn pc).op = .subI32Imm ∨
      ((m.func f).insn pc).op = .mulI32Imm)
    (hbin : bin.eval32 = fun a b ↦ some (e a b))
    (hdata : dataOp ((m.func f).insn pc).op = binI32ImmMasked e) :
    Agrees fpu sse m f rf ir i (jirABC (.binI32 bin) ((m.func f).insn pc) pc 0) μ s ↔
      ∀ v ∈ bin.eval32 (load32 μ.mem (rf.addr ((m.func f).insn pc).rb)) ((m.func f).insn pc).immC,
        FitsKind (regKind m f ((m.func f).insn pc).ra) v := by
  refine agrees_iff h rfl ?_ ?_ (masked_store_iff μ.mem (rf.addr ((m.func f).insn pc).ra) _ _)
  · simp only [emitBinI32Site, jirABC, jirAB, jirA, jir, himm, if_true, ofNat_rc]
    rw [hbin]
    exact memRun_binImm h.frame h.current _ _ (by rw [hbin])
  · dsimp only [vmMemAfter, jirABC, jirAB, jirA, jir]
    rw [hdata, memAfter_binI32ImmMasked, hmem, hbin]
    rfl

theorem agrees_negI32 (h : AtSite m f ir i rf μ) (hmem : s.mem = μ.mem)
    (hop : ((m.func f).insn pc).op = .negI32) :
    Agrees fpu sse m f rf ir i (jirAB .negI32 ((m.func f).insn pc) pc 0) μ s ↔
      FitsKind (regKind m f ((m.func f).insn pc).ra)
        (0 - load32 μ.mem (rf.addr ((m.func f).insn pc).rb)) := by
  refine agrees_iff h rfl (memRun_negI32 h.frame h.current _ _) ?_ ?_
    (M := some (store32 μ.mem (rf.addr ((m.func f).insn pc).ra)
      (mask (regKind m f ((m.func f).insn pc).ra)
        (0 - load32 μ.mem (rf.addr ((m.func f).insn pc).rb)))))
  · dsimp only [vmMemAfter, jirAB, jirA, jir]
    rw [hop, ← hmem]
    rfl
  · rw [Option.some.injEq, ← mask_eq_iff, eq_comm]
    exact store32_inj μ.mem _

theorem agrees_binI64 {bin : JirBin} (h : AtSite m f ir i rf μ) (hmem : s.mem = μ.mem)
    (hdata : dataOp ((m.func f).insn pc).op = bin64 bin.eval64) :
    Agrees fpu sse m f rf ir i (jirABC (.binI64 bin) ((m.func f).insn pc) pc 0) μ s := by
  refine agrees_of h rfl ?_ (memRun_binI64 h.frame bin _ _ _)
  dsimp only [vmMemAfter, jirABC, jirAB, jirA, jir]
  rw [hdata, memAfter_bin64, hmem]

theorem agrees_negI64 (h : AtSite m f ir i rf μ) (hmem : s.mem = μ.mem)
    (hop : ((m.func f).insn pc).op = .negI64) :
    Agrees fpu sse m f rf ir i (jirAB .negI64 ((m.func f).insn pc) pc 0) μ s := by
  refine agrees_of h rfl ?_ (memRun_negI64 h.frame _ _)
  dsimp only [vmMemAfter, jirAB, jirA, jir]
  rw [hop, ← hmem]
  rfl

theorem agrees_cmpI32 {cmp : JirCmp} (h : AtSite m f ir i rf μ) (hmem : s.mem = μ.mem)
    (himm : ((m.func f).insn pc).op ≠ .eqI32Imm ∧ ((m.func f).insn pc).op ≠ .ltI32Imm)
    (hdata : dataOp ((m.func f).insn pc).op =
      bin32 fun a b ↦ flag (cmp.eval (i32 a) (i32 b))) :
    Agrees fpu sse m f rf ir i (jirABC (.cmpI32 cmp) ((m.func f).insn pc) pc 0) μ s ↔
      (((m.func f).insn pc).rc = 255 →
        cmp.eval (i32 (load32 μ.mem (rf.addr ((m.func f).insn pc).rb)))
          (i32 (load32 μ.mem (rf.addr ((m.func f).insn pc).rc))) =
        cmp.eval (i32 (load32 μ.mem (rf.addr ((m.func f).insn pc).rb))) 0) := by
  have hvm : vmMemAfter fpu m f rf (jirABC (.cmpI32 cmp) ((m.func f).insn pc) pc 0).bcPc s =
      some (store32 μ.mem (rf.addr ((m.func f).insn pc).ra)
        (flag (cmp.eval (i32 (load32 μ.mem (rf.addr ((m.func f).insn pc).rb)))
          (i32 (load32 μ.mem (rf.addr ((m.func f).insn pc).rc)))))) := by
    dsimp only [vmMemAfter, jirABC, jirAB, jirA, jir]
    rw [hdata, memAfter_bin32, hmem]
  by_cases hc : ((m.func f).insn pc).rc = 255
  · refine agrees_iff h rfl ?_ hvm ?_ (N := some (store32 μ.mem (rf.addr ((m.func f).insn pc).ra)
      (flag (cmp.eval (i32 (load32 μ.mem (rf.addr ((m.func f).insn pc).rb))) (i32 0)))))
    · simp only [emitCmpI32Site, jirABC, jirAB, jirA, jir, himm, hc, or_false, if_false, if_true]
      exact memRun_cmpImm h.frame h.current cmp 0 _ _
    · rw [Option.some.injEq, store32_inj, flag_inj]
      exact ⟨fun heq _ ↦ heq.symm, fun heq ↦ (heq hc).symm⟩
  · refine iff_of_true (agrees_of h rfl hvm ?_) fun hc' ↦ absurd hc' hc
    simp only [emitCmpI32Site, jirABC, jirAB, jirA, jir, himm, hc, or_false, if_false]
    exact memRun_cmpReg h.frame h.current cmp _ _ _

theorem agrees_cmpI32Imm {cmp : JirCmp} (h : AtSite m f ir i rf μ) (hmem : s.mem = μ.mem)
    (himm : ((m.func f).insn pc).op = .eqI32Imm ∨ ((m.func f).insn pc).op = .ltI32Imm)
    (hdata : dataOp ((m.func f).insn pc).op = cmpI32Imm fun a b ↦ cmp.eval (i32 a) (i32 b)) :
    Agrees fpu sse m f rf ir i (jirABC (.cmpI32 cmp) ((m.func f).insn pc) pc 0) μ s := by
  have hvm : vmMemAfter fpu m f rf (jirABC (.cmpI32 cmp) ((m.func f).insn pc) pc 0).bcPc s =
      some (store32 μ.mem (rf.addr ((m.func f).insn pc).ra)
        (flag (cmp.eval (i32 (load32 μ.mem (rf.addr ((m.func f).insn pc).rb)))
          (i32 ((m.func f).insn pc).immC)))) := by
    dsimp only [vmMemAfter, jirABC, jirAB, jirA, jir]
    rw [hdata, memAfter_cmpI32Imm, hmem]
  refine agrees_of h rfl hvm ?_
  simp only [emitCmpI32Site, jirABC, jirAB, jirA, jir, himm, if_true, ofNat_rc]
  exact memRun_cmpImm h.frame h.current cmp _ _ _

theorem agrees_notBool (h : AtSite m f ir i rf μ) (hmem : s.mem = μ.mem)
    (hop : ((m.func f).insn pc).op = .notBool) :
    Agrees fpu sse m f rf ir i { jirAB (.cmpI32 .eq) ((m.func f).insn pc) pc 0 with c := 255 } μ
      s := by
  have hzero (v : UInt32) : (v == 0) = JirCmp.eq.eval (i32 v) (i32 0) := by
    have hinj : i32 v = i32 0 ↔ v = 0 := by
      rw [i32, i32, BitVec.toInt_inj, UInt32.toBitVec_inj]
    rw [Bool.eq_iff_iff, JirCmp.eval, beq_iff_eq, beq_iff_eq, hinj]
  have hvm : vmMemAfter fpu m f rf pc s = some (store32 μ.mem (rf.addr ((m.func f).insn pc).ra)
      (flag (JirCmp.eq.eval (i32 (load32 μ.mem (rf.addr ((m.func f).insn pc).rb))) (i32 0)))) := by
    unfold vmMemAfter
    rw [hop, ← hzero, ← hmem]
    rfl
  refine agrees_of h rfl hvm ?_
  simp only [emitCmpI32Site, jirAB, jirA, jir, hop, reduceCtorEq, or_false, if_false, if_true]
  exact memRun_cmpImm h.frame h.current .eq 0 _ _

theorem agrees_cmpI64 {cmp : JirCmp} (h : AtSite m f ir i rf μ) (hmem : s.mem = μ.mem)
    (hdata : dataOp ((m.func f).insn pc).op = cmp64 fun a b ↦ cmp.eval (i64 a) (i64 b)) :
    Agrees fpu sse m f rf ir i (jirABC (.cmpI64 cmp) ((m.func f).insn pc) pc 0) μ s := by
  refine agrees_of h rfl ?_ (memRun_cmpI64 h.frame cmp _ _ _)
  dsimp only [vmMemAfter, jirABC, jirAB, jirA, jir]
  rw [hdata, memAfter_cmp64, hmem]

/-- A comparison of two floating point numbers as the C code makes it -/
def JirCmp.ofOrderC (cmp : JirCmp) (o : FloatOrder) : Bool :=
  match cmp with
  | .eq => o = .equal
  | .lt => o = .less

theorem ordered_store_iff (mem : Mem) (d : ℕ) (cmp : JirCmp) (o : FloatOrder) :
    (some (store32 mem d (flag (cmp.ofOrder o))) = some (store32 mem d (flag (cmp.ofOrderC o)))) ↔
      o ≠ .unordered := by
  rw [Option.some.injEq, store32_inj, flag_inj]
  cases cmp <;> cases o <;> decide

theorem agrees_cmpF32 {cmp : JirCmp} (h : AtSite m f ir i rf μ)
    (hvm : vmMemAfter fpu m f rf pc s = some (store32 μ.mem (rf.addr ((m.func f).insn pc).ra)
      (flag (cmp.ofOrderC (sse.cmp32 (load32 μ.mem (rf.addr ((m.func f).insn pc).rb))
        (load32 μ.mem (rf.addr ((m.func f).insn pc).rc))))))) :
    Agrees fpu sse m f rf ir i (jirABC (.cmpF32 cmp) ((m.func f).insn pc) pc 0) μ s ↔
      sse.cmp32 (load32 μ.mem (rf.addr ((m.func f).insn pc).rb))
        (load32 μ.mem (rf.addr ((m.func f).insn pc).rc)) ≠ .unordered := by
  exact agrees_iff h rfl (memRun_cmpF32 h.frame cmp _ _ _) hvm (ordered_store_iff _ _ cmp _)

theorem agrees_cmpF64 {cmp : JirCmp} (h : AtSite m f ir i rf μ)
    (hvm : vmMemAfter fpu m f rf pc s = some (store32 μ.mem (rf.addr ((m.func f).insn pc).ra)
      (flag (cmp.ofOrderC (sse.cmp64 (load64 μ.mem (rf.addr ((m.func f).insn pc).rb))
        (load64 μ.mem (rf.addr ((m.func f).insn pc).rc))))))) :
    Agrees fpu sse m f rf ir i (jirABC (.cmpF64 cmp) ((m.func f).insn pc) pc 0) μ s ↔
      sse.cmp64 (load64 μ.mem (rf.addr ((m.func f).insn pc).rb))
        (load64 μ.mem (rf.addr ((m.func f).insn pc).rc)) ≠ .unordered := by
  exact agrees_iff h rfl (memRun_cmpF64 h.frame cmp _ _ _) hvm (ordered_store_iff _ _ cmp _)

theorem agrees_loadI32 {imm : UInt32} (h : AtSite m f ir i rf μ) (hmem : s.mem = μ.mem)
    (hdata : vmMemAfter fpu m f rf pc s =
      some (store32 s.mem (rf.addr ((m.func f).insn pc).ra) imm)) :
    Agrees fpu sse m f rf ir i (jirA .loadI32 ((m.func f).insn pc) pc imm) μ s := by
  refine agrees_of h rfl ?_ (memRun_loadI32 h.frame imm _)
  rw [← hmem]
  exact hdata

theorem agrees_loadI64 (h : AtSite m f ir i rf μ) (hmem : s.mem = μ.mem)
    (hop : ((m.func f).insn pc).op = .constI64) :
    Agrees fpu sse m f rf ir i (jirA .loadI64 ((m.func f).insn pc) pc ((m.func f).insn pc).imm) μ
      s := by
  refine agrees_of h rfl ?_ (memRun_loadX h.frame _ _)
  dsimp only [vmMemAfter, jirA, jir]
  rw [hop, ← hmem]
  rfl

theorem agrees_mov (h : AtSite m f ir i rf μ) (hmem : s.mem = μ.mem)
    (hop : ((m.func f).insn pc).op = .mov) :
    Agrees fpu sse m f rf ir i (jirAB .movReg ((m.func f).insn pc) pc 0) μ s := by
  refine agrees_of h rfl ?_ (memRun_movReg h.frame h.current m f _)
  dsimp only [vmMemAfter, jirAB, jirA, jir]
  rw [hop, ← hmem]
  rfl

end Families

section Scalar

variable {fpu : Fpu} {sse : Sse} {m : JelloBcModule} {f : ℕ} {ir : List JirInsn}

theorem eq_of_single {x y : JirInsn} {b : List JirInsn} {k : ℕ} (h : some [y] = some b)
    (hx : b[k]? = some x) : x = y := by
  cases h
  exact List.mem_singleton.mp (List.mem_of_getElem? hx)

theorem agrees_iff_scalarOk {pc i k : ℕ} {x : JirInsn} {b : List JirInsn} {rf : RegFrame}
    {μ : Machine} {s : Store} (hcmp : SameOrder fpu sse) (hlow : lowerOne m f pc = some b)
    (hx : b[k]? = some x) (hop : isScalar ((m.func f).insn pc).op = true)
    (h : AtSite m f ir i rf μ) (hmem : s.mem = μ.mem) :
    Agrees fpu sse m f rf ir i x μ s ↔ ScalarOk sse m f rf μ.mem ((m.func f).insn pc) := by
  cases hc : ((m.func f).insn pc).op
  case addI32 | subI32 | mulI32 | divI32 | modI32 | shlI32 | shrI32 | bitxorI32 =>
    simp only [lowerOne, hc, binFromOp] at hlow
    obtain rfl := eq_of_single hlow hx
    simp only [ScalarOk, hc, binFromOp]
    exact agrees_binI32 h hmem (by simp [hc]) (by rw [hc]; rfl)
  case addI32Imm | subI32Imm | mulI32Imm =>
    simp only [lowerOne, hc, binFromOp] at hlow
    obtain rfl := eq_of_single hlow hx
    simp only [ScalarOk, hc, binFromOp]
    exact agrees_binImm h hmem (by simp [hc]) rfl (by rw [hc]; rfl)
  case negI32 =>
    simp only [lowerOne, hc] at hlow
    obtain rfl := eq_of_single hlow hx
    simp only [ScalarOk, hc]
    exact agrees_negI32 h hmem hc
  case eqI32 =>
    simp only [lowerOne, hc] at hlow
    obtain rfl := eq_of_single hlow hx
    simp only [ScalarOk, hc]
    refine (agrees_cmpI32 h hmem (by simp [hc]) (by rw [hc]; rfl)).trans
      (imp_congr_right fun _ ↦ ?_)
    rw [Bool.eq_iff_iff, JirCmp.eval, JirCmp.eval, beq_iff_eq, beq_iff_eq]
  case ltI32 =>
    simp only [lowerOne, hc] at hlow
    obtain rfl := eq_of_single hlow hx
    simp only [ScalarOk, hc]
    refine (agrees_cmpI32 h hmem (by simp [hc]) (by rw [hc]; rfl)).trans
      (imp_congr_right fun _ ↦ ?_)
    rw [Bool.eq_iff_iff, JirCmp.eval, JirCmp.eval, decide_eq_true_iff, decide_eq_true_iff]
  case eqF32 =>
    simp only [lowerOne, hc] at hlow
    obtain rfl := eq_of_single hlow hx
    simp only [ScalarOk, hc]
    refine agrees_cmpF32 h ?_
    unfold vmMemAfter
    rw [hc, JirCmp.ofOrderC, ← hcmp.eq32, ← hmem]
    rfl
  case ltF32 =>
    simp only [lowerOne, hc] at hlow
    obtain rfl := eq_of_single hlow hx
    simp only [ScalarOk, hc]
    refine agrees_cmpF32 h ?_
    unfold vmMemAfter
    rw [hc, JirCmp.ofOrderC, ← hcmp.lt32, ← hmem]
    rfl
  case eqF64 =>
    simp only [lowerOne, hc] at hlow
    obtain rfl := eq_of_single hlow hx
    simp only [ScalarOk, hc]
    refine agrees_cmpF64 h ?_
    unfold vmMemAfter
    rw [hc, JirCmp.ofOrderC, ← hcmp.eq64, ← hmem]
    rfl
  case ltF64 =>
    simp only [lowerOne, hc] at hlow
    obtain rfl := eq_of_single hlow hx
    simp only [ScalarOk, hc]
    refine agrees_cmpF64 h ?_
    unfold vmMemAfter
    rw [hc, JirCmp.ofOrderC, ← hcmp.lt64, ← hmem]
    rfl
  case addI64 | subI64 | mulI64 | divI64 | modI64 | shlI64 | shrI64 | bitxorI64 =>
    simp only [lowerOne, hc, binFromOp] at hlow
    obtain rfl := eq_of_single hlow hx
    simp only [ScalarOk, hc, iff_true]
    exact agrees_binI64 h hmem (by rw [hc]; rfl)
  case negI64 =>
    simp only [lowerOne, hc] at hlow
    obtain rfl := eq_of_single hlow hx
    simp only [ScalarOk, hc, iff_true]
    exact agrees_negI64 h hmem hc
  case eqI32Imm | ltI32Imm =>
    simp only [lowerOne, hc] at hlow
    obtain rfl := eq_of_single hlow hx
    simp only [ScalarOk, hc, iff_true]
    exact agrees_cmpI32Imm h hmem (by simp [hc]) (by rw [hc]; rfl)
  case notBool =>
    simp only [lowerOne, hc] at hlow
    obtain rfl := eq_of_single hlow hx
    simp only [ScalarOk, hc, iff_true]
    exact agrees_notBool h hmem hc
  case eqI64 | ltI64 =>
    simp only [lowerOne, hc] at hlow
    obtain rfl := eq_of_single hlow hx
    simp only [ScalarOk, hc, iff_true]
    exact agrees_cmpI64 h hmem (by rw [hc]; rfl)
  case constI32 | constI8Imm | constBool =>
    simp only [lowerOne, hc] at hlow
    obtain rfl := eq_of_single hlow hx
    simp only [ScalarOk, hc, iff_true]
    refine agrees_loadI32 h hmem ?_
    unfold vmMemAfter
    rw [hc]
    rfl
  case constI64 =>
    simp only [lowerOne, hc] at hlow
    obtain rfl := eq_of_single hlow hx
    simp only [ScalarOk, hc, iff_true]
    exact agrees_loadI64 h hmem hc
  case mov =>
    simp only [lowerOne, hc] at hlow
    obtain rfl := eq_of_single hlow hx
    simp only [ScalarOk, hc, iff_true]
    exact agrees_mov h hmem hc
  all_goals
    rw [hc] at hop
    exact absurd hop Bool.false_ne_true

theorem lowerOne_scalar {pc : ℕ} (hop : isScalar ((m.func f).insn pc).op = true) :
    ∃ x, lowerOne m f pc = some [x] ∧ x.bcPc = pc := by
  cases hc : ((m.func f).insn pc).op
  all_goals
    rw [hc] at hop
    first
      | exact absurd hop Bool.false_ne_true
      | refine ⟨_, by simp only [lowerOne, hc]; rfl, rfl⟩

/-- Every scalar instruction has a site, and the code of the site does what the interpreter does
exactly for the operands that `ScalarOk` describes. -/
theorem scalar_agrees {pc : ℕ} (hcmp : SameOrder fpu sse)
    (hc : jelloJitCompileFunction m f = some ir) (hpc : pc < (m.func f).ninsns)
    (hop : isScalar ((m.func f).insn pc).op = true) :
    (∃ (i : ℕ) (x : JirInsn), ir[i]? = some x ∧ x.bcPc = pc) ∧
      ∀ (i : ℕ) (x : JirInsn), ir[i]? = some x → x.bcPc = pc →
        ∀ rf μ s, AtSite m f ir i rf μ → s.mem = μ.mem →
        (Agrees fpu sse m f rf ir i x μ s ↔ ScalarOk sse m f rf μ.mem ((m.func f).insn pc)) := by
  constructor
  · obtain ⟨b, hb, hsub⟩ := lowerFrom_covers (lowered_of_compile hc) (Nat.zero_le pc)
      (by omega)
    obtain ⟨x, hx, hxpc⟩ := lowerOne_scalar hop
    rw [hx] at hb
    cases hb
    obtain ⟨i, hi⟩ := List.mem_iff_getElem?.mp (hsub (List.mem_singleton.mpr rfl))
    exact ⟨i, x, hi, hxpc⟩
  · intro i x hx hxpc rf μ s h hmem
    obtain ⟨start, k, b, hb, -, hbk⟩ := exists_block hc hx
    rw [hxpc] at hb
    exact agrees_iff_scalarOk hcmp hb.lowered hbk hop h hmem

end Scalar

section Example

/-- `byte b = x; byte c = b + b;` -/
def doubleModule (x : UInt8) : JelloBcModule :=
  { (default : JelloBcModule) with
    types := [⟨.i8, 0⟩]
    funcs :=
      [{ regTypes := [0, 0]
         capStart := 0
         insns := [{ op := .constI8Imm, a := 0, b := 0, c := x, imm := 0 },
           { op := .addI32, a := 1, b := 0, c := 0, imm := 0 },
           { op := .ret, a := 1, b := 0, c := 0, imm := 0 }]
         sourceFile := 0
         lines := [] }] }

def doubleInsn : JelloInsn := { op := .addI32, a := 1, b := 0, c := 0, imm := 0 }

def doubleIr (x : UInt8) : List JirInsn :=
  [{ op := .loadI32, a := 0, b := 0, c := 0, imm := sext8 x.toUInt32, bcPc := 0 },
    jirABC (.binI32 .add) doubleInsn 1 0,
    { op := .ret, a := 1, b := 0, c := 0, imm := 0, bcPc := 2 }]

def doubleFrame : RegFrame := { mem := 4096, off := [0, 4], nregs := 2, total := 8 }

/-- After the first instruction -/
def doubleMachine (x : UInt8) : Machine :=
  { gpr := fun r ↦ if r = jitRegBase then 4096 else if r = jitRegI32c then x.toUInt64 else 0
    xmm := fun _ ↦ 0
    flags := none
    mem := fun a ↦ if a = 4096 then x else 0 }

theorem double_atSite {x : UInt8}
    (hcache : (doubleMachine x).get32 jitRegI32c = load32 (doubleMachine x).mem 4096) :
    AtSite (doubleModule x) 0 (doubleIr x) 1 doubleFrame (doubleMachine x) := by
  have hoff (r : ℕ) : doubleFrame.off.getD r 0 ≤ 4 := by
    rcases r with _ | _ | r <;> simp [doubleFrame]
  have hlayout : doubleFrame.off = (vmGetFrameLayout (doubleModule x) 0).off := by
    simp [doubleFrame, doubleModule, vmGetFrameLayout, regKinds, JelloBcModule.func,
      JelloBcModule.type, layoutFrom, alignUp, jelloSlotSize]
  refine ⟨hlayout, ⟨rfl, fun r ↦ ?_, fun r ↦ ?_⟩, fun r hr ↦ ?_⟩
  · have h := hoff r
    omega
  · have h := hoff r
    rw [RegFrame.addr, show doubleFrame.mem = 4096 from rfl]
    omega
  · obtain rfl : 0 = r := Option.some.inj hr
    exact hcache

/-- The sum of two bytes is not a byte: native code keeps all its bits. -/
theorem double_100_differs : Accepted (doubleModule 100) ∧
    jelloJitCompileFunction (doubleModule 100) 0 = some (doubleIr 100) ∧
    ∀ fpu sse (s : Store), SameOrder fpu sse → s.mem = (doubleMachine 100).mem →
      AtSite (doubleModule 100) 0 (doubleIr 100) 1 doubleFrame (doubleMachine 100) ∧
      ¬ Agrees fpu sse (doubleModule 100) 0 doubleFrame (doubleIr 100) 1
        (jirABC (.binI32 .add) doubleInsn 1 0) (doubleMachine 100) s := by
  refine ⟨by decide, by decide, fun fpu sse s hcmp hmem ↦ ?_⟩
  have hat : AtSite (doubleModule 100) 0 (doubleIr 100) 1 doubleFrame (doubleMachine 100) :=
    double_atSite (by decide)
  refine ⟨hat, fun h ↦ ?_⟩
  have hlow : lowerOne (doubleModule 100) 0 1 = some [jirABC (.binI32 .add) doubleInsn 1 0] := rfl
  have hok := (agrees_iff_scalarOk (k := 0) hcmp hlow rfl (by decide) hat hmem).mp h
  exact absurd (hok 200 (by decide)) (by decide)

/-- The order of two IEEE 754 numbers of `e` bits of exponent and `w` bits of fraction. -/
def ieeeOrder (e w a b : ℕ) : FloatOrder :=
  let magnitude (x : ℕ) : ℕ := x % 2 ^ (e + w)
  let isNan (x : ℕ) : Prop := (2 ^ e - 1) * 2 ^ w < magnitude x
  let key (x : ℕ) : ℤ := if x < 2 ^ (e + w) then magnitude x else -magnitude x
  if isNan a ∨ isNan b then .unordered
  else if key a < key b then .less
  else if key a = key b then .equal
  else .greater

def ieeeSse : Sse :=
  { (default : Sse) with
    cmp32 := fun a b ↦ ieeeOrder 8 23 a.toNat b.toNat
    cmp64 := fun a b ↦ ieeeOrder 11 52 a.toNat b.toNat }

def ieeeFpu : Fpu :=
  { (default : Fpu) with
    eq32 := fun a b ↦ ieeeSse.cmp32 a b = .equal
    lt32 := fun a b ↦ ieeeSse.cmp32 a b = .less
    eq64 := fun a b ↦ ieeeSse.cmp64 a b = .equal
    lt64 := fun a b ↦ ieeeSse.cmp64 a b = .less }

theorem double_3_agrees : ∃ s : Store, s.mem = (doubleMachine 3).mem ∧
    Agrees ieeeFpu ieeeSse (doubleModule 3) 0 doubleFrame (doubleIr 3) 1
      (jirABC (.binI32 .add) doubleInsn 1 0) (doubleMachine 3) s := by
  have hcmp : SameOrder ieeeFpu ieeeSse :=
    ⟨fun _ _ ↦ rfl, fun _ _ ↦ rfl, fun _ _ ↦ rfl, fun _ _ ↦ rfl⟩
  have hcompile : jelloJitCompileFunction (doubleModule 3) 0 = some (doubleIr 3) := by decide
  have hall := (@scalar_agrees ieeeFpu ieeeSse (doubleModule 3) 0 (doubleIr 3) 1 hcmp hcompile
    (by decide) (by decide)).2
  refine ⟨{ jelloVmCreate.store with mem := (doubleMachine 3).mem }, rfl, ?_⟩
  refine (hall 1 _ rfl rfl doubleFrame (doubleMachine 3) _ (double_atSite (by decide)) rfl).mpr ?_
  intro v hv
  obtain rfl : 6 = v := Option.some.inj hv
  decide

end Example

end JelloVM
