import JelloVM.Jit.Ir

namespace JelloVM

section Emit

variable (ir : List JirInsn)

/-- `ir_off_for_bc`, with the index of a site for its offset: branches pass over a fuel check. -/
def irOffForBc (bcPc : ℕ) : Option ℕ :=
  (ir.findIdx? fun x ↦ x.bcPc = bcPc ∧ x.op ≠ .fuelCheck).or (ir.findIdx? fun x ↦ x.bcPc = bcPc)

/-- `build_bc_pc_map`: the site at which native code is entered in the middle. -/
def bcPcMap (bcPc : ℕ) : Option ℕ := ir.findIdx? fun x ↦ x.bcPc = bcPc

def switchKindTarget (pc ncases : ℕ) (delta : UInt32) : ℕ :=
  (UInt32.ofNat (pc + 1 + ncases) + delta).toNat

def switchCases (i ncases : ℕ) : List JirInsn := (ir.drop (i + 1)).take ncases

/-- The bytecode instructions that the branches of a site go to. -/
def branchTargets (i : ℕ) : List ℕ :=
  match ir[i]? with
  | none => []
  | some x =>
    match x.op with
    | .jmp | .jmpIf => [x.imm.toNat]
    | .switch =>
      ((switchCases ir i x.b).map fun cs ↦ switchKindTarget x.bcPc x.b cs.imm) ++
        [switchKindTarget x.bcPc x.b x.imm]
    | _ => []

/-- What makes the emitter give up at a site. -/
def emitsSite (m : JelloBcModule) (f i : ℕ) (x : JirInsn) : Bool :=
  match x.op with
  | .loadI64 => x.imm.toNat < m.constI64.length
  | .loadF64 => x.imm.toNat < m.constF64.length
  | .jmp | .jmpIf => x.imm.toNat < (m.func f).ninsns
  | .switch => i + x.b < ir.length ∧ (switchCases ir i x.b).all (·.op = .switchCase)
  | _ => true

/-- `x64_emit_func` succeeds: no site is refused, and every branch can be patched. -/
def emits (m : JelloBcModule) (f : ℕ) : Bool :=
  (List.range ir.length).all fun i ↦
    (ir[i]?.all fun x ↦ emitsSite ir m f i x) ∧
      (branchTargets ir i).all fun t ↦ (irOffForBc ir t).isSome

def nslow : ℕ := ir.countP (·.op = .slow)

end Emit

/-- `jello_jit_compile_function`, up to the code itself -/
def jelloJitCompileFunction (m : JelloBcModule) (f : ℕ) : Option (List JirInsn) :=
  match jelloJitIrBuild m f with
  | .error _ => none
  | .ok ir =>
    if ir.length < nslow ir * 3 then none
    else if emits ir m f then some ir
    else none

structure Site where
  f : ℕ
  i : ℕ
  deriving DecidableEq, Repr

def Site.next (s : Site) : Site := { s with i := s.i + 1 }

def siteInsn (m : JelloBcModule) (s : Site) : Option JirInsn :=
  (jelloJitCompileFunction m s.f).bind (·[s.i]?)

def siteTargets (m : JelloBcModule) (s : Site) : List ℕ :=
  match jelloJitCompileFunction m s.f with
  | none => []
  | some ir => (branchTargets ir s.i).filterMap (irOffForBc ir)

def JirOp.calls (op : JirOp) : Bool := op == .callSelf || op == .callDirect

/-- The code of the site runs into that of the next one. -/
def JirOp.falls (op : JirOp) : Bool :=
  op != .jmp && op != .ret && op != .switch && op != .switchCase && !op.calls

/-- The function of the frame that the call of a site pushes. -/
def pushedBySite (f : ℕ) (x : JirInsn) : ℕ :=
  if x.op = .callSelf then f else (x.imm &&& 0xffff).toNat

/-- One step of native code, over the sites to return to; the flag says that it is a branch. The
callee of a slow call runs natively too when it is compiled. -/
inductive NativeStep (m : JelloBcModule) : List Site → Bool → List Site → Prop
  | next {s : Site} {x : JirInsn} (rest : List Site) (hx : siteInsn m s = some x)
      (hop : x.op.falls = true) : NativeStep m (s :: rest) false (s.next :: rest)
  | branch {s : Site} {j : ℕ} (rest : List Site) (hj : j ∈ siteTargets m s) :
      NativeStep m (s :: rest) true (⟨s.f, j⟩ :: rest)
  | call {s : Site} {x : JirInsn} (rest : List Site) (hx : siteInsn m s = some x)
      (hop : x.op.calls = true) :
      NativeStep m (s :: rest) false (⟨pushedBySite s.f x, 0⟩ :: s.next :: rest)
  | slowCall {s : Site} {x : JirInsn} (g : ℕ) (rest : List Site) (hx : siteInsn m s = some x)
      (hop : x.op = .slow) : NativeStep m (s :: rest) false (⟨g, 0⟩ :: s.next :: rest)
  | ret {s : Site} {x : JirInsn} (rest : List Site) (hx : siteInsn m s = some x)
      (hop : x.op = .ret) : NativeStep m (s :: rest) false rest

/-- A run of native code: the sites it has passed, the last one first, each with how it was
reached, and the sites it is at. -/
inductive NativePath (m : JelloBcModule) (start : Site) : List (Site × Bool) → Bool → List Site → Prop
  | start : NativePath m start [] false [start]
  | step {tr : List (Site × Bool)} {br br' : Bool} {s : Site} {rest st : List Site}
      (h : NativePath m start tr br (s :: rest)) (hstep : NativeStep m (s :: rest) br' st) :
      NativePath m start ((s, br) :: tr) br' st

/-- Where native code is entered: at its beginning, or at a site of the map. -/
def EntrySite (m : JelloBcModule) (s : Site) : Prop :=
  s.i = 0 ∨ ∃ ir pc, jelloJitCompileFunction m s.f = some ir ∧ bcPcMap ir pc = some s.i

section Lowering

variable {m : JelloBcModule} {f pc : ℕ} {b : List JirInsn}

/-- Sites that only move data, and instructions that go on with the next one for nothing. -/
def JirOp.isPlain (op : JirOp) : Bool :=
  op != .fuelCheck && op != .jmp && op != .jmpIf && op != .switch && op != .switchCase &&
    op != .sqrtF64 && !op.calls

inductive Lowers (m : JelloBcModule) (f pc : ℕ) : List JirInsn → Prop
  | jmp (hop : ((m.func f).insn pc).op = .jmp) : Lowers m f pc (lowerJmp pc ((m.func f).insn pc))
  | jmpIf (hop : ((m.func f).insn pc).op = .jmpIf) :
      Lowers m f pc
        [jirA .jmpIf ((m.func f).insn pc) pc (jirTarget pc ((m.func f).insn pc).imm)]
  | switch {b : List JirInsn} (hop : ((m.func f).insn pc).op = .switchKind)
      (h : lowerSwitch m f pc ((m.func f).insn pc) = some b) : Lowers m f pc b
  | case (hop : ((m.func f).insn pc).op = .caseKind) : Lowers m f pc []
  | call (hop : ((m.func f).insn pc).op = .call) :
      Lowers m f pc [lowerCall m f pc ((m.func f).insn pc)]
  | callr (hop : ((m.func f).insn pc).op = .callr) :
      Lowers m f pc [lowerCallr m f pc ((m.func f).insn pc)]
  | plain {x : JirInsn} (hjmp : ((m.func f).insn pc).op ≠ .jmp)
      (hcall : ((m.func f).insn pc).op ≠ .call) (hcallr : ((m.func f).insn pc).op ≠ .callr)
      (hop : x.op.isPlain = true) (hpc : x.bcPc = pc) : Lowers m f pc [x]

theorem lowers (h : lowerOne m f pc = some b) : Lowers m f pc b := by
  have hconst : (lowerConstFun m f pc ((m.func f).insn pc)).op.isPlain = true ∧
      (lowerConstFun m f pc ((m.func f).insn pc)).bcPc = pc := by
    unfold lowerConstFun
    split_ifs <;> exact ⟨rfl, rfl⟩
  have hplain {x : JirInsn} (hjmp : ((m.func f).insn pc).op ≠ .jmp)
      (hcall : ((m.func f).insn pc).op ≠ .call) (hcallr : ((m.func f).insn pc).op ≠ .callr)
      (hop : x.op.isPlain = true) (hpc : x.bcPc = pc) (hb : some [x] = some b) :
      Lowers m f pc b := by
    cases hb
    exact .plain hjmp hcall hcallr hop hpc
  cases hop : ((m.func f).insn pc).op
  case jmp =>
    simp only [lowerOne, hop, Option.some.injEq] at h
    exact h ▸ .jmp hop
  case jmpIf =>
    simp only [lowerOne, hop, Option.some.injEq] at h
    exact h ▸ .jmpIf hop
  case switchKind =>
    simp only [lowerOne, hop] at h
    exact .switch hop h
  case caseKind =>
    simp only [lowerOne, hop, Option.some.injEq] at h
    exact h ▸ .case hop
  case call =>
    simp only [lowerOne, hop, Option.some.injEq] at h
    exact h ▸ .call hop
  case callr =>
    simp only [lowerOne, hop, Option.some.injEq] at h
    exact h ▸ .callr hop
  case constFun =>
    simp only [lowerOne, hop] at h
    exact hplain (by simp [hop]) (by simp [hop]) (by simp [hop]) hconst.1 hconst.2 h
  all_goals
    simp only [lowerOne, hop] at h
    exact hplain (by simp [hop]) (by simp [hop]) (by simp [hop]) rfl rfl h

theorem lowerCases_bcPc {i n : ℕ} (h : lowerCases m f pc i n = some b) : ∀ x ∈ b, x.bcPc = pc := by
  induction n generalizing i b with
  | zero =>
    cases h
    simp
  | succ n ih =>
    simp only [lowerCases] at h
    split_ifs at h with hop
    obtain ⟨rest, hrest, hb⟩ := Option.bind_eq_some_iff.mp h
    cases hb
    intro x hx
    rcases List.mem_cons.mp hx with rfl | hx
    · rfl
    · exact ih hrest x hx

theorem lowerSwitch_bcPc {ins : JelloInsn} (h : lowerSwitch m f pc ins = some b) :
    ∀ x ∈ b, x.bcPc = pc := by
  simp only [lowerSwitch] at h
  split_ifs at h
  obtain ⟨cases', hcases, hb⟩ := Option.bind_eq_some_iff.mp h
  cases hb
  intro x hx
  rcases List.mem_cons.mp hx with rfl | hx
  · rfl
  · exact lowerCases_bcPc hcases x hx

theorem lowerCall_bcPc (ins : JelloInsn) : (lowerCall m f pc ins).bcPc = pc := by
  dsimp only [lowerCall]
  split_ifs <;> rfl

theorem lowerCallr_bcPc (ins : JelloInsn) : (lowerCallr m f pc ins).bcPc = pc := by
  unfold lowerCallr
  cases provenCallee m f pc ins with
  | none => rfl
  | some bidx =>
    dsimp only
    split_ifs <;> rfl

theorem lowerOne_bcPc (h : lowerOne m f pc = some b) : ∀ x ∈ b, x.bcPc = pc := by
  cases lowers h with
  | jmp hop =>
    dsimp only [lowerJmp]
    split_ifs <;> simp [jir]
  | jmpIf hop => simp [jirA, jir]
  | switch hop h => exact lowerSwitch_bcPc h
  | case hop => simp
  | call hop => simp [lowerCall_bcPc]
  | callr hop => simp [lowerCallr_bcPc]
  | plain hjmp hcall hcallr hop hpc => simp [hpc]

theorem lowerCall_op (ins : JelloInsn) : (lowerCall m f pc ins).op = .sqrtF64 ∨
    (lowerCall m f pc ins).op = .slow ∨ (lowerCall m f pc ins).op = .callSelf ∨
      (lowerCall m f pc ins).op = .callDirect := by
  dsimp only [lowerCall]
  split_ifs <;> simp [jirABC, jirAB, jirA, jir, lowerSlow]

theorem lowerCallr_op (ins : JelloInsn) : (lowerCallr m f pc ins).op = .slow ∨
    (lowerCallr m f pc ins).op = .callSelf ∨ (lowerCallr m f pc ins).op = .callDirect := by
  unfold lowerCallr
  cases provenCallee m f pc ins with
  | none => simp [jir, lowerSlow]
  | some bidx =>
    dsimp only
    split_ifs <;> simp [jir, lowerSlow]

theorem lowerCases_op {i n : ℕ} (h : lowerCases m f pc i n = some b) :
    ∀ x ∈ b, x.op = .switchCase := by
  induction n generalizing i b with
  | zero =>
    cases h
    simp
  | succ n ih =>
    simp only [lowerCases] at h
    split_ifs at h with hop
    obtain ⟨rest, hrest, hb⟩ := Option.bind_eq_some_iff.mp h
    cases hb
    intro x hx
    rcases List.mem_cons.mp hx with rfl | hx
    · rfl
    · exact ih hrest x hx

theorem lowerSwitch_op {ins : JelloInsn} (h : lowerSwitch m f pc ins = some b) :
    ∀ x ∈ b, x.op = .switch ∨ x.op = .switchCase := by
  simp only [lowerSwitch] at h
  split_ifs at h
  obtain ⟨rest, hrest, hb⟩ := Option.bind_eq_some_iff.mp h
  cases hb
  intro x hx
  rcases List.mem_cons.mp hx with rfl | hx
  · exact .inl rfl
  · exact .inr (lowerCases_op hrest x hx)

/-- The sites that an instruction can be lowered to -/
inductive BlockShape : List JirInsn → Prop
  | backward {x y : JirInsn} (hcheck : x.op = .fuelCheck) (hjmp : y.op = .jmp) : BlockShape [x, y]
  | switch {x : JirInsn} {cases : List JirInsn} (hswitch : x.op = .switch)
      (hcases : ∀ y ∈ cases, y.op = .switchCase) : BlockShape (x :: cases)
  | none : BlockShape []
  | single {x : JirInsn} (hcheck : x.op ≠ .fuelCheck) (hcase : x.op ≠ .switchCase) : BlockShape [x]

theorem blockShape (h : lowerOne m f pc = some b) : BlockShape b := by
  cases lowers h with
  | jmp hop =>
    unfold lowerJmp
    dsimp only
    split_ifs
    · exact .backward rfl rfl
    · exact .single (by simp [jir]) (by simp [jir])
  | jmpIf hop => exact .single (by simp [jirA, jir]) (by simp [jirA, jir])
  | switch hop h =>
    simp only [lowerSwitch] at h
    split_ifs at h
    obtain ⟨rest, hrest, hb⟩ := Option.bind_eq_some_iff.mp h
    cases hb
    exact .switch rfl (lowerCases_op hrest)
  | case hop => exact .none
  | call hop =>
    refine .single ?_ ?_ <;>
      rcases @lowerCall_op m f pc ((m.func f).insn pc) with h | h | h | h <;> simp [h]
  | callr hop =>
    refine .single ?_ ?_ <;>
      rcases @lowerCallr_op m f pc ((m.func f).insn pc) with h | h | h <;> simp [h]
  | plain hjmp hcall hcallr hop hpc =>
    refine .single ?_ ?_ <;>
    · intro h
      simp [JirOp.isPlain, h] at hop

/-- The part of the code, from `start` on, that the instruction at `pc` is lowered to. -/
structure Block (m : JelloBcModule) (f : ℕ) (ir : List JirInsn) (start pc : ℕ)
    (b : List JirInsn) : Prop where
  lowered : lowerOne m f pc = some b
  inside : ∀ k < b.length, ir[start + k]? = b[k]?
  before : ∀ k < start, ∀ y, ir[k]? = some y → y.bcPc < pc
  pc_lt : pc < (m.func f).ninsns

theorem lowerFrom_block {n i : ℕ} {ir : List JirInsn} {x : JirInsn}
    (h : lowerFrom m f pc n = some ir) (hn : pc + n ≤ (m.func f).ninsns) (hx : ir[i]? = some x) :
    ∃ start k b, Block m f ir start x.bcPc b ∧ pc ≤ x.bcPc ∧ i = start + k ∧ b[k]? = some x := by
  induction n generalizing pc i ir with
  | zero =>
    cases h
    simp at hx
  | succ n ih =>
    obtain ⟨here, hhere, h⟩ := Option.bind_eq_some_iff.mp h
    obtain ⟨rest, hrest, h⟩ := Option.bind_eq_some_iff.mp h
    cases h
    have hpc := lowerOne_bcPc hhere
    by_cases hi : i < here.length
    · rw [List.getElem?_append_left hi] at hx
      obtain rfl := hpc x (List.mem_of_getElem? hx)
      refine ⟨0, i, here, ⟨hhere, fun k hk ↦ ?_, fun k hk ↦ absurd hk (Nat.not_lt_zero k),
        by omega⟩, le_rfl, (Nat.zero_add i).symm, hx⟩
      rw [Nat.zero_add, List.getElem?_append_left hk]
    · rw [List.getElem?_append_right (Nat.le_of_not_lt hi)] at hx
      obtain ⟨start, k, b, hb, hle, hik, hbk⟩ := ih hrest (by omega) hx
      refine ⟨here.length + start, k, b, ⟨hb.lowered, fun j hj ↦ ?_, fun j hj y hy ↦ ?_, hb.pc_lt⟩,
        by omega, by omega, hbk⟩
      · rw [List.getElem?_append_right (by omega), ← hb.inside j hj]
        congr 1
        omega
      · by_cases hjh : j < here.length
        · rw [List.getElem?_append_left hjh] at hy
          have hyp := hpc y (List.mem_of_getElem? hy)
          omega
        · rw [List.getElem?_append_right (Nat.le_of_not_lt hjh)] at hy
          exact hb.before _ (by omega) y hy

theorem insn_of_lt {fn : JelloBcFunction} (hpc : pc < fn.ninsns) :
    fn.insns[pc]? = some (fn.insn pc) := by
  have hlt : pc < fn.insns.length := hpc
  simp [JelloBcFunction.insn, hlt]

theorem lowered_of_compile {ir : List JirInsn} (h : jelloJitCompileFunction m f = some ir) :
    lowerFrom m f 0 (m.func f).ninsns = some ir := by
  unfold jelloJitCompileFunction at h
  cases hbuild : jelloJitIrBuild m f with
  | error e => simp [hbuild] at h
  | ok ir' =>
    simp only [hbuild] at h
    split_ifs at h
    cases h
    unfold jelloJitIrBuild at hbuild
    cases hfind : (m.func f).insns.find? fun w ↦
        w.op = .try_ ∨ w.op = .spillPush ∨ w.op = .spillPop with
    | some w =>
      simp only [hfind] at hbuild
      split_ifs at hbuild
    | none =>
      simp only [hfind] at hbuild
      cases hlower : lowerFrom m f 0 (m.func f).ninsns with
      | none => simp [hlower] at hbuild
      | some ir'' =>
        simp only [hlower] at hbuild
        split_ifs at hbuild
        simpa using hbuild

theorem exists_block {ir : List JirInsn} {i : ℕ} {x : JirInsn}
    (h : jelloJitCompileFunction m f = some ir) (hx : ir[i]? = some x) :
    ∃ start k b, Block m f ir start x.bcPc b ∧ i = start + k ∧ b[k]? = some x := by
  obtain ⟨start, k, b, hb, -, hik, hbk⟩ := lowerFrom_block (lowered_of_compile h) (by omega) hx
  exact ⟨start, k, b, hb, hik, hbk⟩

end Lowering

end JelloVM
