import JelloVM.Jit.Scalar

namespace JelloVM

open X64 ByteMemory

/-- The registers in which the emitter keeps nothing. -/
def scratchGprs : List Gpr := [jitRegT0, jitRegT1, jitRegT2, .rax, .rdx, .rcx]

section Writes

variable (off : ℕ → ℕ) (i32c : Option ℕ)

theorem writesIn_slot {access : Gpr → UInt32 → Insn} (align o : ℕ)
    (h : ∀ base disp, (access base disp).writes ⊆ scratchGprs) :
    WritesIn scratchGprs (emitSlot align access o) := by
  have haccess (base : Gpr) (disp : UInt32) : WritesIn scratchGprs [access base disp] :=
    writesIn_cons.mpr ⟨h base disp, writesIn_nil⟩
  unfold emitSlot
  split_ifs
  · exact haccess _ _
  · exact writesIn_cons.mpr ⟨by simp [Insn.writes, scratchGprs],
      writesIn_cons.mpr ⟨by simp [Insn.writes, scratchGprs], haccess _ _⟩⟩

theorem writesIn_ldrW {rt : Gpr} (o : ℕ) (hrt : rt ∈ scratchGprs) :
    WritesIn scratchGprs (emitLdrWSlot rt o) :=
  writesIn_slot 4 o fun _ _ ↦ by simpa [Insn.writes] using hrt

theorem writesIn_ldrX {rt : Gpr} (o : ℕ) (hrt : rt ∈ scratchGprs) :
    WritesIn scratchGprs (emitLdrXSlot rt o) :=
  writesIn_slot 8 o fun _ _ ↦ by simpa [Insn.writes] using hrt

theorem writesIn_ldrI32 {rt : Gpr} (r : ℕ) (hrt : rt ∈ scratchGprs) :
    WritesIn scratchGprs (emitLdrI32 rt off i32c r) := by
  unfold emitLdrI32
  split_ifs
  · simpa [Insn.writes] using hrt
  · exact writesIn_ldrW (off r) hrt

theorem writesIn_silent {access : Gpr → UInt32 → Insn} (align o : ℕ)
    (h : ∀ base disp, (access base disp).writes = []) :
    WritesIn scratchGprs (emitSlot align access o) :=
  writesIn_slot align o fun base disp ↦ by simp [h]

theorem writesIn_strW (rt : Gpr) (o : ℕ) : WritesIn scratchGprs (emitStrWSlot rt o) :=
  writesIn_silent 4 o fun _ _ ↦ rfl

theorem writesIn_strX (rt : Gpr) (o : ℕ) : WritesIn scratchGprs (emitStrXSlot rt o) :=
  writesIn_silent 8 o fun _ _ ↦ rfl

theorem writesIn_ldrD (i o : ℕ) : WritesIn scratchGprs (emitLdrDSlot i o) :=
  writesIn_silent 8 o fun _ _ ↦ rfl

theorem writesIn_strD (i o : ℕ) : WritesIn scratchGprs (emitStrDSlot i o) :=
  writesIn_silent 8 o fun _ _ ↦ rfl

theorem writesIn_ldrS (i o : ℕ) : WritesIn scratchGprs (emitLdrSSlot i o) :=
  writesIn_silent 4 o fun _ _ ↦ rfl

theorem writesIn_strS (i o : ℕ) : WritesIn scratchGprs (emitStrSSlot i o) :=
  writesIn_silent 4 o fun _ _ ↦ rfl

theorem writesIn_binI32 (bin : JirBin) : WritesIn scratchGprs (emitBinI32 bin) := by
  cases bin <;> simp [emitBinI32, Insn.writes, scratchGprs]

theorem writesIn_binI64 (bin : JirBin) : WritesIn scratchGprs (emitBinI64 bin) := by
  cases bin <;> simp [emitBinI64, Insn.writes, scratchGprs]

theorem writesIn_cmpSetI32 (cmp : JirCmp) : WritesIn scratchGprs (emitCmpSetI32 cmp) := by
  simp [emitCmpSetI32, Insn.writes, scratchGprs]

theorem writesIn_cmpSetFloat (cmp : JirCmp) : WritesIn scratchGprs (emitCmpSetFloat cmp) := by
  simp [emitCmpSetFloat, Insn.writes, scratchGprs]

theorem writesIn_strI32T0 (r : ℕ) : WritesIn (jitRegI32c :: scratchGprs) (emitStrI32T0 off r) := by
  refine writesIn_append.mpr ⟨(writesIn_strW _ _).mono (List.subset_cons_self _ _), ?_⟩
  simp [Insn.writes]

end Writes

/-- The bytes that a site stores which leaves the cache as it is -/
def floatWidth : JirOp → Option ℕ
  | .binF32 _ => some 4
  | .binF64 _ | .sqrtF64 => some 8
  | _ => none

section Sites

variable (m : JelloBcModule) (f : ℕ) (off : ℕ → ℕ) (i32c : Option ℕ) {cases : List JirInsn}
  {x : JirInsn} {code : List Insn}

/-- What the code of a site does to the cache: it stores through it, or it forgets it or keeps it
and does not write `RBX`. -/
inductive CacheUse (x : JirInsn) : List Insn → Prop
  | store {pre : List Insn} (hpre : WritesIn scratchGprs pre)
      (hafter : i32cAfter m f i32c x = some x.a) : CacheUse x (pre ++ emitStrI32T0 off x.a)
  | forget {code : List Insn} (hcode : WritesIn scratchGprs code)
      (hafter : i32cAfter m f i32c x = none) : CacheUse x code
  | nop (hafter : i32cAfter m f i32c x = i32c) : CacheUse x []
  | keep {code : List Insn} {w : ℕ} (hcode : WritesIn scratchGprs code)
      (hw : floatWidth x.op = some w) (hafter : i32cAfter m f i32c x = i32c) : CacheUse x code

theorem writesIn_scratch {i : Insn} (h : i.writes ⊆ scratchGprs) : WritesIn scratchGprs [i] :=
  writesIn_cons.mpr ⟨h, writesIn_nil⟩

theorem writesIn_operands64 (b c : ℕ) :
    WritesIn scratchGprs (emitLdrXSlot jitRegT0 b ++ emitLdrXSlot jitRegT1 c) :=
  writesIn_append.mpr ⟨writesIn_ldrX b (by decide), writesIn_ldrX c (by decide)⟩

theorem cacheUse_movReg (hop : x.op = .movReg) :
    CacheUse m f off i32c x (emitMovReg m f off i32c x) := by
  unfold emitMovReg
  split_ifs with hsz
  · refine .forget (writesIn_append.mpr ⟨writesIn_ldrX _ (by decide), writesIn_strX _ _⟩) ?_
    simp [i32cAfter, hop, hsz]
  · refine .store (writesIn_ldrI32 off i32c x.b (by decide)) ?_
    simp [i32cAfter, hop, hsz]

theorem cacheUse_binI32 {bin : JirBin} (hop : x.op = .binI32 bin) :
    CacheUse m f off i32c x (emitBinI32Site m f off i32c bin x) := by
  refine .store (writesIn_append.mpr ⟨writesIn_ldrI32 off i32c x.b (by decide), ?_⟩)
    (by simp [i32cAfter, hop])
  split_ifs
  · exact writesIn_scratch (by simp [Insn.writes, scratchGprs])
  · exact writesIn_scratch (by simp [Insn.writes, scratchGprs])
  · exact writesIn_cons.mpr ⟨by simp [Insn.writes, scratchGprs], writesIn_binI32 bin⟩
  · exact writesIn_append.mpr ⟨writesIn_ldrI32 off i32c x.c (by decide), writesIn_binI32 bin⟩

theorem cacheUse_cmpI32 {cmp : JirCmp} (hop : x.op = .cmpI32 cmp) :
    CacheUse m f off i32c x (emitCmpI32Site m f off i32c cmp x) := by
  refine .store (writesIn_append.mpr ⟨writesIn_append.mpr
    ⟨writesIn_ldrI32 off i32c x.b (by decide), ?_⟩, writesIn_cmpSetI32 cmp⟩)
    (by simp [i32cAfter, hop])
  split_ifs
  · exact writesIn_scratch (by simp [Insn.writes])
  · exact writesIn_scratch (by simp [Insn.writes])
  · exact writesIn_append.mpr
      ⟨writesIn_ldrI32 off i32c x.c (by decide), writesIn_scratch (by simp [Insn.writes])⟩

theorem cacheUse (hcode : emitIr m f off i32c cases x = .code code) :
    CacheUse m f off i32c x code := by
  cases hop : x.op <;>
    simp only [emitIr, hop, SiteCode.code.injEq, reduceCtorEq] at hcode <;> subst hcode
  case nop => exact .nop (by simp [i32cAfter, hop])
  case loadI32 =>
    exact @CacheUse.store m f off i32c x [.movImm32 jitRegT0 x.imm]
      (writesIn_scratch (by simp [Insn.writes, scratchGprs])) (by simp [i32cAfter, hop])
  case loadI64 | loadF64 | loadNull =>
    exact .forget (writesIn_cons.mpr ⟨by simp [Insn.writes, scratchGprs], writesIn_strX _ _⟩)
      (by simp [i32cAfter, hop])
  case loadF32 =>
    exact .forget (writesIn_cons.mpr ⟨by simp [Insn.writes, scratchGprs], writesIn_strW _ _⟩)
      (by simp [i32cAfter, hop])
  case movReg => exact cacheUse_movReg m f off i32c hop
  case binI32 bin => exact cacheUse_binI32 m f off i32c hop
  case binI64 bin =>
    exact .forget (writesIn_append.mpr ⟨writesIn_append.mpr
      ⟨writesIn_operands64 _ _, writesIn_binI64 bin⟩, writesIn_strX _ _⟩) (by simp [i32cAfter, hop])
  case binF64 bin =>
    exact .keep (writesIn_append.mpr ⟨writesIn_append.mpr ⟨writesIn_append.mpr
      ⟨writesIn_ldrD _ _, writesIn_ldrD _ _⟩, writesIn_scratch (by simp [Insn.writes])⟩,
      writesIn_strD _ _⟩) (by rw [hop]; rfl) (by simp [i32cAfter, hop])
  case sqrtF64 =>
    exact .keep (writesIn_append.mpr ⟨writesIn_append.mpr
      ⟨writesIn_ldrD _ _, writesIn_scratch (by simp [Insn.writes])⟩, writesIn_strD _ _⟩)
      (by rw [hop]; rfl) (by simp [i32cAfter, hop])
  case binF32 bin =>
    exact .keep (writesIn_append.mpr ⟨writesIn_append.mpr ⟨writesIn_append.mpr
      ⟨writesIn_ldrS _ _, writesIn_ldrS _ _⟩, writesIn_scratch (by simp [Insn.writes])⟩,
      writesIn_strS _ _⟩) (by rw [hop]; rfl) (by simp [i32cAfter, hop])
  case negI32 =>
    exact .store (writesIn_append.mpr ⟨writesIn_ldrI32 off i32c x.b (by decide),
      writesIn_scratch (by simp [Insn.writes, scratchGprs])⟩) (by simp [i32cAfter, hop])
  case negI64 =>
    exact .forget (writesIn_append.mpr ⟨writesIn_append.mpr ⟨writesIn_ldrX _ (by decide),
      writesIn_scratch (by simp [Insn.writes, scratchGprs])⟩, writesIn_strX _ _⟩)
      (by simp [i32cAfter, hop])
  case negF64 =>
    exact .forget (writesIn_append.mpr ⟨writesIn_append.mpr ⟨writesIn_ldrX _ (by decide),
      by simp [Insn.writes, scratchGprs]⟩, writesIn_strX _ _⟩) (by simp [i32cAfter, hop])
  case negF32 =>
    exact .forget (writesIn_append.mpr ⟨writesIn_append.mpr ⟨writesIn_ldrW _ (by decide),
      by simp [Insn.writes, scratchGprs]⟩, writesIn_strW _ _⟩) (by simp [i32cAfter, hop])
  case cmpI32 cmp => exact cacheUse_cmpI32 m f off i32c hop
  case cmpI64 cmp =>
    exact .forget (writesIn_append.mpr ⟨writesIn_append.mpr ⟨writesIn_append.mpr
      ⟨writesIn_operands64 _ _, writesIn_scratch (by simp [Insn.writes])⟩,
      writesIn_cmpSetI32 cmp⟩, writesIn_strW _ _⟩) (by simp [i32cAfter, hop])
  case cmpF64 cmp =>
    exact .forget (writesIn_append.mpr ⟨writesIn_append.mpr ⟨writesIn_append.mpr
      ⟨writesIn_append.mpr ⟨writesIn_ldrD _ _, writesIn_ldrD _ _⟩,
      writesIn_scratch (by simp [Insn.writes])⟩, writesIn_cmpSetFloat cmp⟩, writesIn_strW _ _⟩)
      (by simp [i32cAfter, hop])
  case cmpF32 cmp =>
    exact .forget (writesIn_append.mpr ⟨writesIn_append.mpr ⟨writesIn_append.mpr
      ⟨writesIn_append.mpr ⟨writesIn_ldrS _ _, writesIn_ldrS _ _⟩,
      writesIn_scratch (by simp [Insn.writes])⟩, writesIn_cmpSetFloat cmp⟩, writesIn_strW _ _⟩)
      (by simp [i32cAfter, hop])

theorem writesIn_branch (hcode : emitIr m f off i32c cases x = .branch code) :
    WritesIn scratchGprs code := by
  cases hop : x.op <;>
    simp only [emitIr, hop, SiteCode.branch.injEq, reduceCtorEq] at hcode <;> subst hcode
  case jmp => exact writesIn_nil
  case jmpIf =>
    exact writesIn_append.mpr ⟨writesIn_ldrI32 off i32c x.a (by decide),
      writesIn_scratch (by simp [Insn.writes])⟩
  case switch =>
    refine writesIn_append.mpr ⟨writesIn_ldrI32 off i32c x.a (by decide), fun i hi ↦ ?_⟩
    obtain ⟨cs, -, hi⟩ := List.mem_flatMap.mp hi
    have hpair : WritesIn scratchGprs [.movImm32 jitRegT1 (UInt32.ofNat cs.a),
        .alu64 .cmp jitRegT0 jitRegT1] := by
      simp [Insn.writes, scratchGprs]
    exact hpair i hi

end Sites

section Code

variable {sse : Sse} {m : JelloBcModule} {f : ℕ} {rf : RegFrame} {i32c : Option ℕ}
  {cases : List JirInsn} {x : JirInsn} {code : List Insn} {μ μ' : Machine}

theorem AtFrame.setXmm (h : AtFrame rf μ) (i : ℕ) (v : UInt64) : AtFrame rf (μ.setXmm i v) :=
  ⟨h.base, h.off_lt, h.addr_lt⟩

theorem runs_binF32 (h : AtFrame rf μ) (op : FloatOp) (a b c : ℕ) :
    Runs sse (emitLdrSSlot 0 (rf.off.getD b 0) ++ emitLdrSSlot 1 (rf.off.getD c 0) ++
        [.float32 op 0 1] ++ emitStrSSlot 0 (rf.off.getD a 0)) μ fun μ' ↦
      OnlyIn μ.mem μ'.mem (rf.addr a) 4 := by
  refine runs_append.mpr (runs_append.mpr (runs_append.mpr
    ((runs_ldrS h 0 b).mono fun μ₁ h₁ ↦ ?_)))
  have hframe₁ := h.kept h₁.2.1 (by decide)
  refine (runs_ldrS hframe₁ 1 c).mono fun μ₂ h₂ ↦ ?_
  have hframe₂ := hframe₁.kept h₂.2.1 (by decide)
  refine runs_of_exec rfl ((runs_strS (hframe₂.setXmm 0 _) 0 a).mono fun μ₃ h₃ ↦ ?_)
  rw [h₃.1, ← h₁.2.1.mem, ← h₂.2.1.mem]
  exact onlyIn_putLE _ _ _ _

theorem runs_binF64 (h : AtFrame rf μ) (op : FloatOp) (a b c : ℕ) :
    Runs sse (emitLdrDSlot 0 (rf.off.getD b 0) ++ emitLdrDSlot 1 (rf.off.getD c 0) ++
        [.float64 op 0 1] ++ emitStrDSlot 0 (rf.off.getD a 0)) μ fun μ' ↦
      OnlyIn μ.mem μ'.mem (rf.addr a) 8 := by
  refine runs_append.mpr (runs_append.mpr (runs_append.mpr
    ((runs_ldrD h 0 b).mono fun μ₁ h₁ ↦ ?_)))
  have hframe₁ := h.kept h₁.2.1 (by decide)
  refine (runs_ldrD hframe₁ 1 c).mono fun μ₂ h₂ ↦ ?_
  have hframe₂ := hframe₁.kept h₂.2.1 (by decide)
  refine runs_of_exec rfl ((runs_strD (hframe₂.setXmm 0 _) 0 a).mono fun μ₃ h₃ ↦ ?_)
  rw [h₃.1, ← h₁.2.1.mem, ← h₂.2.1.mem]
  exact onlyIn_putLE _ _ _ _

theorem runs_sqrtF64 (h : AtFrame rf μ) (a b : ℕ) :
    Runs sse (emitLdrDSlot 0 (rf.off.getD b 0) ++ [.sqrtsd 0 0] ++
        emitStrDSlot 0 (rf.off.getD a 0)) μ fun μ' ↦
      OnlyIn μ.mem μ'.mem (rf.addr a) 8 := by
  refine runs_append.mpr (runs_append.mpr ((runs_ldrD h 0 b).mono fun μ₁ h₁ ↦ ?_))
  have hframe₁ := h.kept h₁.2.1 (by decide)
  refine runs_of_exec rfl ((runs_strD (hframe₁.setXmm 0 _) 0 a).mono fun μ₃ h₃ ↦ ?_)
  rw [h₃.1, ← h₁.2.1.mem]
  exact onlyIn_putLE _ _ _ _

theorem float_onlyIn {w : ℕ} (h : AtFrame rf μ)
    (hcode : emitIr m f (fun r ↦ rf.off.getD r 0) i32c cases x = .code code)
    (hw : floatWidth x.op = some w) (hrun : execAll sse μ code = some μ') :
    OnlyIn μ.mem μ'.mem (rf.addr x.a) w := by
  cases hop : x.op <;> simp only [floatWidth, hop, Option.some.injEq, reduceCtorEq] at hw <;>
    subst hw <;> simp only [emitIr, hop, SiteCode.code.injEq] at hcode <;> subst hcode
  case binF32 bin => exact (runs_binF32 h (floatOp bin) x.a x.b x.c).of_execAll hrun
  case binF64 bin => exact (runs_binF64 h (floatOp bin) x.a x.b x.c).of_execAll hrun
  case sqrtF64 => exact (runs_sqrtF64 h x.a x.b).of_execAll hrun

/-- The four bytes that the cache stands for are not among those that the site stores. -/
def SparesCached (off : ℕ → ℕ) (i32c : Option ℕ) (x : JirInsn) : Prop :=
  ∀ r w, i32c = some r → floatWidth x.op = some w → off r + 4 ≤ off x.a ∨ off x.a + w ≤ off r

theorem current_after (h : AtFrame rf μ)
    (hcode : emitIr m f (fun r ↦ rf.off.getD r 0) i32c cases x = .code code)
    (hrun : execAll sse μ code = some μ') (hcur : Current rf i32c μ)
    (hspare : SparesCached (fun r ↦ rf.off.getD r 0) i32c x) :
    AtFrame rf μ' ∧ Current rf (i32cAfter m f i32c x) μ' := by
  have hstay {rs : List Gpr} {c : List Insn} {ν ν' : Machine} (hν : AtFrame rf ν)
      (hw : WritesIn rs c) (hc : execAll sse ν c = some ν') (hbase : jitRegBase ∉ rs) :
      AtFrame rf ν' := by
    have hsame : SameGprs rs ν ν' := fun q hq ↦ hw.gpr hc hq
    exact hν.sameGprs hsame hbase
  cases cacheUse m f _ i32c hcode with
  | store hpre hafter =>
    rw [execAll_append] at hrun
    obtain ⟨μ₁, hrun₁, hrun₂⟩ := Option.bind_eq_some_iff.mp hrun
    have h₁ := hstay h hpre hrun₁ (by decide)
    refine ⟨hstay h₁ (writesIn_strI32T0 _ x.a) hrun₂ (by decide), fun r hr ↦ ?_⟩
    rw [hafter] at hr
    obtain rfl := Option.some.inj hr
    have hst := (runs_strI32T0 h₁ x.a).of_execAll hrun₂
    rw [hst.1, hst.2.1, load32_store32]
  | forget hwrites hafter =>
    refine ⟨hstay h hwrites hrun (by decide), ?_⟩
    rw [hafter]
    exact .none
  | nop hafter =>
    cases hrun
    refine ⟨h, fun r hr ↦ ?_⟩
    rw [hafter] at hr
    exact hcur r hr
  | keep hwrites hw hafter =>
    refine ⟨hstay h hwrites hrun (by decide), fun r hr ↦ ?_⟩
    rw [hafter] at hr
    have hrbx : μ'.get32 jitRegI32c = μ.get32 jitRegI32c := by
      rw [Machine.get32, hwrites.gpr hrun (by decide), Machine.get32]
    have hsame : load32 μ'.mem (rf.addr r) = load32 μ.mem (rf.addr r) := by
      have hout := float_onlyIn h hcode hw hrun
      have hdisj := hspare r _ hr hw
      unfold load32
      rw [getLE_congr 4 (rf.addr r) fun a hlo hhi ↦ hout a ?_]
      rintro ⟨h1, h2⟩
      simp only [RegFrame.addr] at *
      omega
    rw [hrbx, hsame]
    exact hcur r hr

end Code

section Targets

variable {m : JelloBcModule} {f : ℕ} {ir : List JirInsn}

theorem findIdx?_some {p : JirInsn → Bool} {i : ℕ} (h : ir.findIdx? p = some i) :
    (∃ x, ir[i]? = some x ∧ p x = true) ∧ ∀ j < i, ∀ y, ir[j]? = some y → p y = false := by
  obtain ⟨hlt, hp, hbefore⟩ := List.findIdx?_eq_some_iff_getElem.mp h
  refine ⟨⟨ir[i], List.getElem?_eq_getElem hlt, hp⟩, fun j hj y hy ↦ ?_⟩
  obtain ⟨hjlt, rfl⟩ := List.getElem?_eq_some_iff.mp hy
  simpa using hbefore j hj

theorem findIdx?_of {p : JirInsn → Bool} {i : ℕ} {x : JirInsn} (hx : ir[i]? = some x)
    (hp : p x = true) (hbefore : ∀ j < i, ∀ y, ir[j]? = some y → p y = false) :
    ir.findIdx? p = some i := by
  obtain ⟨hlt, rfl⟩ := List.getElem?_eq_some_iff.mp hx
  refine List.findIdx?_eq_some_iff_getElem.mpr ⟨hlt, hp, fun j hj ↦ ?_⟩
  simpa using hbefore j hj ir[j] (List.getElem?_eq_getElem (by omega))

theorem after_fuelCheck (hc : jelloJitCompileFunction m f = some ir) {i : ℕ} {x : JirInsn}
    (hx : ir[i]? = some x) (hop : x.op = .fuelCheck) :
    ∃ y, ir[i + 1]? = some y ∧ y.bcPc = x.bcPc ∧ y.op = .jmp := by
  obtain ⟨start, k, b, hb, rfl, hbk⟩ := exists_block hc hx
  have hpcs := lowerOne_bcPc hb.lowered
  cases hshape : blockShape hb.lowered with
  | @backward y z hcheck hjmp =>
    obtain rfl | rfl | hk : k = 0 ∨ k = 1 ∨ 2 ≤ k := by omega
    · exact ⟨z, hb.inside 1 (by simp), hpcs z (by simp), hjmp⟩
    · obtain rfl : z = x := by simpa using hbk
      exact absurd (hjmp.symm.trans hop) (by simp)
    · exact absurd (List.getElem?_eq_some_iff.mp hbk).1 (Nat.not_lt.mpr hk)
  | @switch y cases hswitch hcases =>
    rcases List.mem_cons.mp (List.mem_of_getElem? hbk) with rfl | hmem
    · exact absurd (hswitch.symm.trans hop) (by simp)
    · exact absurd ((hcases x hmem).symm.trans hop) (by simp)
  | none => simp at hbk
  | @single y hcheck hcase =>
    obtain rfl := List.mem_singleton.mp (List.mem_of_getElem? hbk)
    exact absurd hop hcheck

theorem before_switchCase (hc : jelloJitCompileFunction m f = some ir) {i : ℕ} {x : JirInsn}
    (hx : ir[i]? = some x) (hop : x.op = .switchCase) :
    ∃ j < i, ∃ y, ir[j]? = some y ∧ y.bcPc = x.bcPc ∧ y.op = .switch := by
  obtain ⟨start, k, b, hb, rfl, hbk⟩ := exists_block hc hx
  have hpcs := lowerOne_bcPc hb.lowered
  cases hshape : blockShape hb.lowered with
  | @backward y z hcheck hjmp =>
    rcases List.mem_cons.mp (List.mem_of_getElem? hbk) with rfl | hmem
    · exact absurd (hcheck.symm.trans hop) (by simp)
    · obtain rfl := List.mem_singleton.mp hmem
      exact absurd (hjmp.symm.trans hop) (by simp)
  | @switch y cases hswitch hcases =>
    have hk : k ≠ 0 := by
      rintro rfl
      obtain rfl : y = x := by simpa using hbk
      exact absurd (hswitch.symm.trans hop) (by simp)
    exact ⟨start, by omega, y, hb.inside 0 (by simp), hpcs y (by simp), hswitch⟩
  | none => simp at hbk
  | @single y hcheck hcase =>
    obtain rfl := List.mem_singleton.mp (List.mem_of_getElem? hbk)
    exact absurd hop hcase

theorem marked_of_irOffForBc (hc : jelloJitCompileFunction m f = some ir) {t i : ℕ}
    (h : irOffForBc ir t = some i) : markBcTarget ir t = some i := by
  unfold irOffForBc at h
  obtain hfirst | ⟨hnone, hfirst⟩ := Option.or_eq_some_iff.mp h
  · obtain ⟨⟨x, hx, hp⟩, hbefore⟩ := findIdx?_some hfirst
    simp only [decide_eq_true_eq] at hp
    have hcase : x.op ≠ .switchCase := by
      intro hop
      obtain ⟨j, hj, y, hy, hpc, hswitch⟩ := before_switchCase hc hx hop
      have hno := hbefore j hj y hy
      simp [hpc, hp.1, hswitch] at hno
    refine findIdx?_of hx (by simp [hp, hcase]) fun j hj y hy ↦ ?_
    have hno := hbefore j hj y hy
    simp only [decide_eq_false_iff_not, not_and] at hno ⊢
    intro hpc hop
    exact absurd hop (hno hpc)
  · obtain ⟨⟨x, hx, hp⟩, -⟩ := findIdx?_some hfirst
    rw [decide_eq_true_eq] at hp
    have hnot (y : JirInsn) (hy : y ∈ ir) (hpc : y.bcPc = t) : y.op = .fuelCheck := by
      have hno := List.findIdx?_eq_none_iff.mp hnone y hy
      simpa [hpc] using hno
    obtain ⟨y, hy, hpc, hop⟩ := after_fuelCheck hc hx (hnot x (List.mem_of_getElem? hx) hp)
    have hcheck := hnot y (List.mem_of_getElem? hy) (hpc.trans hp)
    exact absurd (hop.symm.trans hcheck) (by simp)

theorem bcPc_mono (hc : jelloJitCompileFunction m f = some ir) {i j : ℕ} {x y : JirInsn}
    (hx : ir[i]? = some x) (hy : ir[j]? = some y) (hij : i < j) : x.bcPc ≤ y.bcPc := by
  obtain ⟨start, k, b, hb, rfl, hbk⟩ := exists_block hc hy
  by_cases hi : i < start
  · exact (hb.before i hi x hx).le
  · have hlt := (List.getElem?_eq_some_iff.mp hbk).1
    obtain ⟨d, rfl⟩ := Nat.exists_eq_add_of_le (Nat.le_of_not_lt hi)
    rw [hb.inside d (by omega)] at hx
    exact (lowerOne_bcPc hb.lowered x (List.mem_of_getElem? hx)).le

theorem single_of_call (hc : jelloJitCompileFunction m f = some ir) {i : ℕ} {x : JirInsn}
    (hx : ir[i]? = some x) (hop : x.op.calls = true ∨ x.op = .slow) :
    lowerOne m f x.bcPc = some [x] := by
  obtain ⟨start, k, b, hb, rfl, hbk⟩ := exists_block hc hx
  have hlow := hb.lowered
  cases blockShape hb.lowered with
  | @backward y z hcheck hjmp =>
    rcases List.mem_cons.mp (List.mem_of_getElem? hbk) with rfl | hmem
    · simp [hcheck, JirOp.calls] at hop
    · obtain rfl := List.mem_singleton.mp hmem
      simp [hjmp, JirOp.calls] at hop
  | @switch y cases hswitch hcases =>
    rcases List.mem_cons.mp (List.mem_of_getElem? hbk) with rfl | hmem
    · simp [hswitch, JirOp.calls] at hop
    · simp [hcases x hmem, JirOp.calls] at hop
  | none => simp at hbk
  | @single y hcheck hcase =>
    obtain rfl := List.mem_singleton.mp (List.mem_of_getElem? hbk)
    exact hlow

theorem resumed_next (hc : jelloJitCompileFunction m f = some ir) {i j : ℕ} {x : JirInsn}
    (hx : ir[j]? = some x) (hop : x.op.calls = true ∨ x.op = .slow)
    (hmap : bcPcMap ir (x.bcPc + 1) = some i) : i = j + 1 := by
  obtain ⟨⟨y, hy, hp⟩, hbefore⟩ := findIdx?_some hmap
  rw [decide_eq_true_eq] at hp
  have hji : j < i := by
    rcases Nat.lt_trichotomy j i with h | rfl | h
    · exact h
    · rw [hx] at hy
      cases hy
      omega
    · have hle := bcPc_mono hc hy hx h
      omega
  by_contra hne
  obtain ⟨z, hz⟩ : ∃ z, ir[j + 1]? = some z := by
    have hlt := (List.getElem?_eq_some_iff.mp hy).1
    exact ⟨ir[j + 1], List.getElem?_eq_getElem (by omega)⟩
  have hzle := bcPc_mono hc hz hy (by omega)
  have hxle := bcPc_mono hc hx hz (Nat.lt_succ_self j)
  have hzne := hbefore (j + 1) (by omega) z hz
  rw [decide_eq_false_iff_not] at hzne
  have hzpc : z.bcPc = x.bcPc := by omega
  obtain ⟨start, k, b, hb, hjk, hbk⟩ := exists_block hc hz
  have hlow := hb.lowered
  rw [hzpc, single_of_call hc hx hop] at hlow
  cases hlow
  have hk := (List.getElem?_eq_some_iff.mp hbk).1
  rw [List.length_singleton] at hk
  have hlt := hb.before j (by omega) x hx
  omega

end Targets

/-- The frame that the machine is at, with the slots of the function. -/
def frameAt (m : JelloBcModule) (f : ℕ) (μ : Machine) : RegFrame :=
  { mem := (μ.gpr jitRegBase).toNat
    off := (vmGetFrameLayout m f).off
    nregs := (vmGetFrameLayout m f).nregs
    total := (vmGetFrameLayout m f).total }

/-- One step of native code, over the sites to return to and the machine. A branch goes to its
target in the middle of its code; what helpers and callees do to the machine is left open, but
that they leave it at a frame. -/
inductive CodeStep (m : JelloBcModule) (sse : Sse) :
    List Site × Machine → List Site × Machine → Prop
  | code {s : Site} {ir : List JirInsn} {x : JirInsn} {code : List Insn} {μ μ' : Machine}
      (rest : List Site) (hc : jelloJitCompileFunction m s.f = some ir) (hx : ir[s.i]? = some x)
      (hcode : siteCode m s.f ir s.i x = .code code) (hrun : execAll sse μ code = some μ') :
      CodeStep m sse (s :: rest, μ) (s.next :: rest, μ')
  | fall {s : Site} {ir : List JirInsn} {x : JirInsn} {code : List Insn} {μ μ' : Machine}
      (rest : List Site) (hc : jelloJitCompileFunction m s.f = some ir) (hx : ir[s.i]? = some x)
      (hop : x.op = .jmpIf) (hcode : siteCode m s.f ir s.i x = .branch code)
      (hrun : execAll sse μ code = some μ') : CodeStep m sse (s :: rest, μ) (s.next :: rest, μ')
  | branch {s : Site} {ir : List JirInsn} {x : JirInsn} {code : List Insn} {μ μ' : Machine}
      {j : ℕ} (n : ℕ) (rest : List Site) (hc : jelloJitCompileFunction m s.f = some ir)
      (hx : ir[s.i]? = some x) (hcode : siteCode m s.f ir s.i x = .branch code)
      (hrun : execAll sse μ (code.take n) = some μ') (hj : j ∈ siteTargets m s) :
      CodeStep m sse (s :: rest, μ) (⟨s.f, j⟩ :: rest, μ')
  | helper {s : Site} {ir : List JirInsn} {x : JirInsn} {μ μ' : Machine} (rest : List Site)
      (hc : jelloJitCompileFunction m s.f = some ir) (hx : ir[s.i]? = some x)
      (hop : x.op.falls = true ∨ x.op.calls = true)
      (hcode : siteCode m s.f ir s.i x = .helper) (hframe : AtFrame (frameAt m s.f μ') μ') :
      CodeStep m sse (s :: rest, μ) (s.next :: rest, μ')
  | call {s : Site} {ir : List JirInsn} {x : JirInsn} {μ μ' : Machine} (g : ℕ) (rest : List Site)
      (hc : jelloJitCompileFunction m s.f = some ir) (hx : ir[s.i]? = some x)
      (hop : x.op.calls = true ∨ x.op = .slow) (hframe : AtFrame (frameAt m g μ') μ') :
      CodeStep m sse (s :: rest, μ) (⟨g, 0⟩ :: s.next :: rest, μ')
  | ret {s t : Site} {x : JirInsn} {μ μ' : Machine} (rest : List Site)
      (hx : siteInsn m s = some x) (hop : x.op = .ret) (hframe : AtFrame (frameAt m t.f μ') μ') :
      CodeStep m sse (s :: t :: rest, μ) (t :: rest, μ')

/-- Where native code is entered: at its beginning, at the target of a jump that the interpreter
has taken, behind a call. -/
inductive CacheEntry (m : JelloBcModule) : Site → Prop
  | body (f : ℕ) : CacheEntry m ⟨f, 0⟩
  | osr {f i j t : ℕ} {ir : List JirInsn} (hc : jelloJitCompileFunction m f = some ir)
      (ht : t ∈ branchTargets ir j) (hmap : bcPcMap ir t = some i) : CacheEntry m ⟨f, i⟩
  | resume {f i j : ℕ} {ir : List JirInsn} {x : JirInsn}
      (hc : jelloJitCompileFunction m f = some ir) (hx : ir[j]? = some x)
      (hop : x.op.calls = true ∨ x.op = .slow) (hmap : bcPcMap ir (x.bcPc + 1) = some i) :
      CacheEntry m ⟨f, i⟩

section Run

variable {m : JelloBcModule} {sse : Sse}

/-- The emitter knows of no register at the site. -/
def Fresh (m : JelloBcModule) (s : Site) : Prop :=
  ∀ ir, jelloJitCompileFunction m s.f = some ir → i32cAt m s.f ir s.i = none

/-- At a site that reads through the cache, `RBX` holds what the slot of the register holds. A
fuel check reads no register. -/
def CacheCurrent (m : JelloBcModule) (s : Site) (μ : Machine) : Prop :=
  ∀ (ir : List JirInsn) (x : JirInsn), jelloJitCompileFunction m s.f = some ir →
    ir[s.i]? = some x → x.op ≠ .fuelCheck →
    Current (frameAt m s.f μ) (i32cAt m s.f ir s.i) μ

/-- The site does not store over the slot whose content `RBX` stands for. -/
def SparesSlot (m : JelloBcModule) (s : Site) : Prop :=
  ∀ (ir : List JirInsn) (x : JirInsn), jelloJitCompileFunction m s.f = some ir →
    ir[s.i]? = some x →
    SparesCached (fun r ↦ (vmGetFrameLayout m s.f).off.getD r 0) (i32cAt m s.f ir s.i) x

/-- A step of native code that spares the slot -/
def SparingStep (m : JelloBcModule) (sse : Sse) (a b : List Site × Machine) : Prop :=
  (∀ u us, a.1 = u :: us → SparesSlot m u) ∧ CodeStep m sse a b

/-- What holds of the sites that native code is at, all along a run -/
structure CacheInv (m : JelloBcModule) (s : Site) (rest : List Site) (μ : Machine) : Prop where
  frame : AtFrame (frameAt m s.f μ) μ
  current : CacheCurrent m s μ
  fresh : ∀ t ∈ rest, Fresh m t

theorem frameAt_eq {f : ℕ} {μ μ' : Machine} (h : AtFrame (frameAt m f μ) μ') :
    frameAt m f μ' = frameAt m f μ := by
  have hbase : (μ'.gpr jitRegBase).toNat = (μ.gpr jitRegBase).toNat := h.base
  unfold frameAt
  rw [hbase]

theorem i32cAt_succ {f i : ℕ} {ir : List JirInsn} {x : JirInsn} (hx : ir[i]? = some x) :
    i32cAt m f ir (i + 1) = none ∨
      i32cAt m f ir (i + 1) = i32cAfter m f (i32cAt m f ir i) x := by
  unfold i32cAt
  by_cases h : isTarget ir (i + 1) = true
  · exact .inl (if_pos h)
  · refine .inr ((if_neg h).trans ?_)
    rw [i32cFrom, hx]

theorem Fresh.current {s : Site} (h : Fresh m s) (μ : Machine) : CacheCurrent m s μ := by
  intro ir x hc hx hop
  rw [h ir hc]
  exact .none

theorem fresh_zero (m : JelloBcModule) (f : ℕ) : Fresh m ⟨f, 0⟩ := by
  intro ir hc
  unfold i32cAt
  split_ifs
  · rfl
  · rfl

theorem fresh_of_isTarget {f i : ℕ} {ir : List JirInsn} (hc : jelloJitCompileFunction m f = some ir)
    (h : isTarget ir i = true) : Fresh m ⟨f, i⟩ := by
  intro ir' hc'
  obtain rfl := Option.some.inj (hc.symm.trans hc')
  exact if_pos h

theorem isTarget_of_branch {i j t : ℕ} {ir : List JirInsn} (ht : t ∈ branchTargets ir j)
    (hmark : markBcTarget ir t = some i) : isTarget ir i = true := by
  have hj : j < ir.length := by
    by_contra hle
    unfold branchTargets at ht
    rw [List.getElem?_eq_none (Nat.le_of_not_lt hle)] at ht
    exact absurd ht List.not_mem_nil
  refine List.any_eq_true.mpr ⟨j, List.mem_range.mpr hj, List.any_eq_true.mpr ⟨t, ht, ?_⟩⟩
  rw [hmark, beq_self_eq_true]

theorem fresh_of_siteTargets {s : Site} {j : ℕ} (hj : j ∈ siteTargets m s) : Fresh m ⟨s.f, j⟩ := by
  unfold siteTargets at hj
  cases hc : jelloJitCompileFunction m s.f with
  | none => simp [hc] at hj
  | some ir =>
    simp only [hc] at hj
    obtain ⟨t, ht, hoff⟩ := List.mem_filterMap.mp hj
    exact fresh_of_isTarget hc (isTarget_of_branch ht (marked_of_irOffForBc hc hoff))

theorem fresh_after {f i : ℕ} {ir : List JirInsn} {x : JirInsn}
    (hc : jelloJitCompileFunction m f = some ir) (hx : ir[i]? = some x)
    (hafter : ∀ i32c, i32cAfter m f i32c x = none) : Fresh m ⟨f, i + 1⟩ := by
  intro ir' hc'
  obtain rfl := Option.some.inj (hc.symm.trans hc')
  rcases @i32cAt_succ m f i ir x hx with h | h
  · exact h
  · exact h.trans (hafter _)

theorem i32cAfter_call {f : ℕ} {x : JirInsn} (hop : x.op.calls = true ∨ x.op = .slow)
    (i32c : Option ℕ) : i32cAfter m f i32c x = none := by
  unfold i32cAfter
  rcases hop with h | h
  · unfold JirOp.calls at h
    cases hx : x.op <;> simp [hx] at h ⊢
  · rw [h]

theorem i32cAfter_helper {f : ℕ} {ir : List JirInsn} {i : ℕ} {x : JirInsn}
    (hcode : siteCode m f ir i x = .helper) (hop : x.op.falls = true ∨ x.op.calls = true)
    (i32c : Option ℕ) : i32cAfter m f i32c x = none := by
  unfold siteCode at hcode
  cases hx : x.op <;> simp [emitIr, i32cAfter, JirOp.falls, JirOp.calls, hx] at hcode hop ⊢

theorem runs_jmpIf {f i : ℕ} {ir : List JirInsn} {x : JirInsn} {code : List Insn} {μ : Machine}
    (h : AtFrame (frameAt m f μ) μ) (hcur : Current (frameAt m f μ) (i32cAt m f ir i) μ)
    (hop : x.op = .jmpIf) (hcode : siteCode m f ir i x = .branch code) :
    Runs sse code μ fun μ' ↦ Kept [jitRegT0, jitRegT2] μ μ' := by
  simp only [siteCode, emitIr, hop, SiteCode.branch.injEq] at hcode
  subst hcode
  refine runs_append.mpr ((runs_ldrI32 h hcur jitRegT0 x.a).mono fun μ₁ h₁ ↦ ?_)
  exact runs_of_exec rfl (h₁.2.setFlags _)

theorem cache_step {s : Site} {rest st : List Site} {μ μ' : Machine}
    (h : CacheInv m s rest μ) (hspare : SparesSlot m s)
    (hstep : CodeStep m sse (s :: rest, μ) (st, μ')) :
    ∃ t ts, st = t :: ts ∧ CacheInv m t ts μ' := by
  cases hstep with
  | @code _ ir x code _ _ _ hc hx hcode hrun =>
    refine ⟨s.next, rest, rfl, ?_⟩
    have hop : x.op ≠ .fuelCheck := by
      intro hop
      unfold siteCode at hcode
      simp [emitIr, hop] at hcode
    obtain ⟨hframe, hcur⟩ := @current_after sse m s.f (frameAt m s.f μ) _ _ x code μ μ' h.frame hcode hrun
      (h.current ir x hc hx hop) (hspare ir x hc hx)
    have heq := frameAt_eq hframe
    rw [← heq] at hcur
    refine ⟨heq ▸ hframe, fun ir' y hc' hy hyop ↦ ?_, h.fresh⟩
    obtain rfl := Option.some.inj (hc.symm.trans hc')
    rcases @i32cAt_succ m s.f s.i ir x hx with hnone | hafter
    · exact hnone ▸ Current.none
    · exact hafter ▸ hcur
  | @fall _ ir x code _ _ _ hc hx hop hcode hrun =>
    refine ⟨s.next, rest, rfl, ?_⟩
    have hcur := h.current ir x hc hx (by simp [hop])
    have hk := (runs_jmpIf h.frame hcur hop hcode).of_execAll hrun
    have hframe := h.frame.kept hk (by decide)
    have heq := frameAt_eq hframe
    refine ⟨heq ▸ hframe, fun ir' y hc' hy hyop ↦ ?_, h.fresh⟩
    obtain rfl := Option.some.inj (hc.symm.trans hc')
    rcases @i32cAt_succ m s.f s.i ir x hx with hnone | hafter
    · exact hnone ▸ Current.none
    · have hsame : i32cAfter m s.f (i32cAt m s.f ir s.i) x = i32cAt m s.f ir s.i := by
        unfold i32cAfter
        rw [hop]
      have hcur' : Current (frameAt m s.f μ') (i32cAt m s.f ir s.i) μ' :=
        heq ▸ hcur.kept hk (by decide)
      exact hafter.trans hsame ▸ hcur'
  | @branch _ ir x code _ _ j n _ hc hx hcode hrun hj =>
    have hwrites := (writesIn_branch m s.f _ _ hcode).take n
    have hsame : SameGprs scratchGprs μ μ' := fun q hq ↦ hwrites.gpr hrun hq
    have hframe := h.frame.sameGprs hsame (by decide)
    have heq := frameAt_eq hframe
    exact ⟨⟨s.f, j⟩, rest, rfl, heq ▸ hframe, (fresh_of_siteTargets hj).current μ', h.fresh⟩
  | @helper _ ir x _ _ _ hc hx hop hcode hframe =>
    exact ⟨s.next, rest, rfl, hframe, (fresh_after hc hx (i32cAfter_helper hcode hop)).current μ',
      h.fresh⟩
  | @call _ ir x _ _ g _ hc hx hop hframe =>
    refine ⟨⟨g, 0⟩, s.next :: rest, rfl, hframe, ?_, ?_⟩
    · exact (fresh_zero m g).current μ'
    · intro t ht
      rcases List.mem_cons.mp ht with rfl | ht
      · exact fresh_after hc hx (i32cAfter_call hop)
      · exact h.fresh t ht
  | @ret _ t x _ _ rest hx hop hframe =>
    exact ⟨t, rest, rfl, hframe, (h.fresh t List.mem_cons_self).current μ',
      fun t' ht' ↦ h.fresh t' (List.mem_cons_of_mem t ht')⟩

theorem fresh_or_fuelCheck_of_entry {s : Site} (h : CacheEntry m s) (μ : Machine) :
    CacheCurrent m s μ := by
  cases h with
  | body f => exact (fresh_zero m f).current μ
  | @osr f i j t ir hc ht hmap =>
    intro ir' x hc' hx hop
    obtain rfl := Option.some.inj (hc.symm.trans hc')
    obtain ⟨⟨y, hy, hp⟩, hbefore⟩ := findIdx?_some hmap
    obtain rfl := Option.some.inj (hx.symm.trans hy)
    rw [decide_eq_true_eq] at hp
    have hfirst : irOffForBc ir t = some i := by
      refine Option.or_eq_some_iff.mpr (.inl (findIdx?_of hx (by simp [hp, hop]) fun k hk z hz ↦ ?_))
      have hno := hbefore k hk z hz
      rw [decide_eq_false_iff_not] at hno ⊢
      exact fun hz' ↦ hno hz'.1
    exact (fresh_of_isTarget hc (isTarget_of_branch ht (marked_of_irOffForBc hc hfirst))).current μ
      ir x hc hx hop
  | @resume f i j ir x hc hx hop hmap =>
    obtain rfl := resumed_next hc hx hop hmap
    exact (fresh_after hc hx (i32cAfter_call hop)).current μ

/-- In native code that never stores over the slot that `RBX` stands for, however it is entered,
`RBX` is current at every site that may read it. -/
theorem cache_current {s : Site} {μ μ' : Machine} {t : Site} {ts : List Site} (hentry : CacheEntry m s)
    (hframe : AtFrame (frameAt m s.f μ) μ)
    (hrun : Relation.ReflTransGen (SparingStep m sse) ([s], μ) (t :: ts, μ')) :
    CacheCurrent m t μ' := by
  have hinv : ∀ b, Relation.ReflTransGen (SparingStep m sse) ([s], μ) b →
      ∃ u us, b.1 = u :: us ∧ CacheInv m u us b.2 := by
    intro b hb
    induction hb with
    | refl =>
      exact ⟨s, [], rfl, hframe, fresh_or_fuelCheck_of_entry hentry μ,
        fun u hu ↦ absurd hu List.not_mem_nil⟩
    | @tail b c _ hstep ih =>
      obtain ⟨u, us, hu, hinv⟩ := ih
      obtain ⟨st, ν⟩ := b
      obtain rfl : st = u :: us := hu
      exact cache_step hinv (hstep.1 u us rfl) hstep.2
  obtain ⟨u, us, hu, hinv⟩ := hinv _ hrun
  cases hu
  exact hinv.current

end Run

section Example

/-- `x = 1; y = x; y = x + x; z = y;` in single precision -/
def staleModule : JelloBcModule :=
  { (default : JelloBcModule) with
    types := [⟨.f32, 0⟩]
    funcs :=
      [{ regTypes := [0, 0, 0]
         capStart := 0
         insns := [{ op := .constF32, a := 2, b := 0, c := 0, imm := 0x3f800000 },
           { op := .mov, a := 0, b := 2, c := 0, imm := 0 },
           { op := .addF32, a := 0, b := 2, c := 2, imm := 0 },
           { op := .mov, a := 1, b := 0, c := 0, imm := 0 },
           { op := .ret, a := 1, b := 0, c := 0, imm := 0 }]
         sourceFile := 0
         lines := [] }] }

def staleIr : List JirInsn :=
  [{ op := .loadF32, a := 2, b := 0, c := 0, imm := 0x3f800000, bcPc := 0 },
    { op := .movReg, a := 0, b := 2, c := 0, imm := 0, bcPc := 1 },
    { op := .binF32 .add, a := 0, b := 2, c := 2, imm := 0, bcPc := 2 },
    { op := .movReg, a := 1, b := 0, c := 0, imm := 0, bcPc := 3 },
    { op := .ret, a := 1, b := 0, c := 0, imm := 0, bcPc := 4 }]

/-- One and one are two. -/
def oneSse : Sse :=
  { (default : Sse) with
    add32 := fun a b ↦ if a = 0x3f800000 ∧ b = 0x3f800000 then 0x40000000 else 0 }

def staleStart : Machine :=
  { gpr := fun r ↦ if r = jitRegBase then 4096 else 0
    xmm := fun _ ↦ 0
    flags := none
    mem := fun _ ↦ 0 }

theorem stale_atFrame : AtFrame (frameAt staleModule 0 staleStart) staleStart := by
  have hoff (r : ℕ) : (frameAt staleModule 0 staleStart).off.getD r 0 ≤ 8 := by
    rw [show (frameAt staleModule 0 staleStart).off = [0, 4, 8] by decide]
    rcases r with _ | _ | _ | r <;> simp
  refine ⟨rfl, fun r ↦ ?_, fun r ↦ ?_⟩
  · have h := hoff r
    omega
  · have h := hoff r
    rw [RegFrame.addr, show (frameAt staleModule 0 staleStart).mem = 4096 by decide]
    omega

def staleCode (i : ℕ) : List Insn :=
  match (staleIr[i]?).map (siteCode staleModule 0 staleIr i) with
  | some (.code code) => code
  | _ => []

theorem stale_compiled : jelloJitCompileFunction staleModule 0 = some staleIr := by decide

theorem stale_step {i : ℕ} {x : JirInsn} {μ μ' : Machine} (hx : staleIr[i]? = some x)
    (hcode : siteCode staleModule 0 staleIr i x = .code (staleCode i))
    (hrun : execAll oneSse μ (staleCode i) = some μ') :
    CodeStep staleModule oneSse ([⟨0, i⟩], μ) ([⟨0, i + 1⟩], μ') :=
  .code (s := ⟨0, i⟩) [] stale_compiled hx hcode hrun

/-- The sum is stored past `RBX`, which still holds one when the next instruction reads it. -/
theorem add_leaves_stale : Accepted staleModule ∧ CacheEntry staleModule ⟨0, 0⟩ ∧
    AtFrame (frameAt staleModule 0 staleStart) staleStart ∧
    ∃ μ', Relation.ReflTransGen (CodeStep staleModule oneSse) ([⟨0, 0⟩], staleStart)
        ([⟨0, 3⟩], μ') ∧ ¬ CacheCurrent staleModule ⟨0, 3⟩ μ' := by
  refine ⟨by decide, .body 0, stale_atFrame, ?_⟩
  have hview : (execAll oneSse staleStart
      (staleCode 0 ++ (staleCode 1 ++ staleCode 2))).map
        (fun μ ↦ (μ.gpr jitRegBase, μ.get32 jitRegI32c, load32 μ.mem 4096)) =
      some (4096, 0x3f800000, 0x40000000) := by decide +kernel
  obtain ⟨μ₃, hrun, hv⟩ := Option.map_eq_some_iff.mp hview
  rw [execAll_append] at hrun
  obtain ⟨μ₁, hrun₁, hrun⟩ := Option.bind_eq_some_iff.mp hrun
  rw [execAll_append] at hrun
  obtain ⟨μ₂, hrun₂, hrun₃⟩ := Option.bind_eq_some_iff.mp hrun
  refine ⟨μ₃, .tail (.tail (.single (stale_step rfl rfl hrun₁)) (stale_step rfl rfl hrun₂))
    (stale_step rfl rfl hrun₃), fun hcur ↦ ?_⟩
  have h := hcur staleIr _ stale_compiled rfl (by decide) 0 (by decide)
  simp only [Prod.mk.injEq] at hv
  have haddr : (frameAt staleModule 0 μ₃).addr 0 = 4096 := by
    rw [RegFrame.addr, show (frameAt staleModule 0 μ₃).mem = 4096 by
      change (μ₃.gpr jitRegBase).toNat = 4096
      rw [hv.1]
      rfl]
    change 4096 + (vmGetFrameLayout staleModule 0).off.getD 0 0 = 4096
    decide
  rw [haddr, hv.2.1, hv.2.2] at h
  exact absurd h (by decide)

/-- Up to the sum. -/
theorem current_before_add : ∃ μ',
    Relation.ReflTransGen (SparingStep staleModule oneSse) ([⟨0, 0⟩], staleStart)
      ([⟨0, 2⟩], μ') ∧ CacheCurrent staleModule ⟨0, 2⟩ μ' := by
  have hsome : (execAll oneSse staleStart (staleCode 0 ++ staleCode 1)).isSome = true := by
    decide +kernel
  obtain ⟨μ₂, hrun⟩ := Option.isSome_iff_exists.mp hsome
  rw [execAll_append] at hrun
  obtain ⟨μ₁, hrun₁, hrun₂⟩ := Option.bind_eq_some_iff.mp hrun
  have hspare {i : ℕ} {x : JirInsn} (hx : staleIr[i]? = some x) (hop : floatWidth x.op = none)
      (u : Site) (us : List Site) (hu : [(⟨0, i⟩ : Site)] = u :: us) :
      SparesSlot staleModule u := by
    obtain ⟨rfl, -⟩ := List.cons.inj hu
    intro ir y hc hy r w hr hw
    obtain rfl := Option.some.inj (stale_compiled.symm.trans hc)
    obtain rfl := Option.some.inj (hx.symm.trans hy)
    exact absurd (hop.symm.trans hw) (by simp)
  have hpath : Relation.ReflTransGen (SparingStep staleModule oneSse) ([⟨0, 0⟩], staleStart)
      ([⟨0, 2⟩], μ₂) :=
    .tail (.single ⟨hspare rfl rfl, stale_step rfl rfl hrun₁⟩)
      ⟨hspare rfl rfl, stale_step rfl rfl hrun₂⟩
  exact ⟨μ₂, hpath, cache_current (.body 0) stale_atFrame hpath⟩

end Example

end JelloVM
