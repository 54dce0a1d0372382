import JelloVM.Jit.Sites
import JelloVM.PcInside

namespace JelloVM

open Logged

def Operand.used : Operand → Bool
  | .unused => false
  | _ => true

/-- The registers whose slots an instruction works on. The result of a call is not one: it is
stored when the callee returns. -/
inductive Touches (ins : JelloInsn) (r : ℕ) : Prop
  | a (hop : (operands ins.op).1.used = true) (h : ins.ra = r)
  | b (hop : (operands ins.op).2.1.used = true) (h : ins.rb = r)
  | c (hop : (operands ins.op).2.2.used = true) (h : ins.rc = r)
  | range (hop : ins.op = .closure ∨ ins.op = .enumNew) (hlo : ins.rb ≤ r)
      (hhi : r < ins.rb + ins.rc)
  | msg (hop : ins.op = .assert) (hc : ins.c = 1) (h : ins.rb = r)
  | ret (hop : ins.op = .ret) (h : ins.ra = r)
  | callee (hop : ins.op = .callr ∨ ins.op = .tailcallr) (h : ins.rb = r)
  | arg (h : inWindow ins r = true)

section Touches

variable {ctx : Ctx} {ins : JelloInsn}

/-- Of all slots, an instruction accesses those of its frame that it touches. -/
def TouchedOnly (ctx : Ctx) (ins : JelloInsn) : Access → Prop
  | .slot rf r _ => rf = ctx.rf ∧ Touches ins r
  | _ => True

theorem regOk_touched {r : ℕ} (h : Touches ins r) :
    RegOk (TouchedOnly ctx ins) ctx.m ctx.f ctx.rf r := ⟨trivial, trivial, rfl, h⟩

theorem operand_touched {o : Operand} {r : ℕ} (h : o.used = true → Touches ins r) :
    o.Ok (TouchedOnly ctx ins) ctx r := by
  cases o with
  | unused => trivial
  | any => exact regOk_touched (h rfl)
  | w4 => exact ⟨regOk_touched (h rfl), rfl, h rfl⟩
  | w8 => exact ⟨regOk_touched (h rfl), rfl, h rfl⟩

theorem opOk_touched : OpOk (TouchedOnly ctx ins) ctx ins := by
  refine ⟨operand_touched fun hop ↦ .a hop rfl, operand_touched fun hop ↦ .b hop rfl,
    operand_touched fun hop ↦ .c hop rfl, fun _ _ _ ↦ trivial,
    fun hop r hlo hhi ↦ regOk_touched (.range hop hlo hhi), fun hop ↦ ?_,
    fun hop hc ↦ regOk_touched (.msg hop hc rfl), fun _ _ _ _ ↦ trivial⟩
  refine ⟨rfl, .b ?_ rfl⟩
  rw [hop]
  rfl

theorem keeps_dataOp_touched (ctx : Ctx) (ins : JelloInsn) :
    Keeps (TouchedOnly ctx ins) (Settled ins.op) (dataOp ins.op ctx ins) :=
  keeps_dataOp_settled opOk_touched

end Touches

/-- The register that `JIR_CALL_DIRECT` loads the function object from. -/
def directCallee (imm : UInt32) : Option ℕ :=
  if imm >>> 16 = noFunobj then none else some (imm >>> 16).toNat

section Reads

variable (m : JelloBcModule) (f : ℕ)

/-- The registers that the code of a site reads; what it writes may be among them. -/
def jirReads (x : JirInsn) (r : ℕ) : Prop :=
  match x.op with
  | .nop | .fuelCheck | .jmp | .switchCase | .constFun => False
  | .callSelf => x.b ≤ r ∧ r < x.b + x.c
  | .callDirect => (x.b ≤ r ∧ r < x.b + x.c) ∨ directCallee x.imm = some r
  | _ => Touches ((m.func f).insn x.bcPc) r

/-- Instructions whose first operand is not where a result goes. -/
def JelloOp.hasResult : JelloOp → Bool
  | .nop | .ret | .jmp | .jmpIf | .try_ | .endtry | .throw | .assert | .switchKind | .caseKind
  | .tailcall | .tailcallr | .spillPush | .arraySet | .arrayResize | .bytesSetU8
  | .bytesWriteU16Le | .bytesWriteU16Be | .bytesWriteU32Le | .bytesWriteU32Be | .bytesWriteI32Le
  | .bytesWriteI32Be | .bytesWriteF32Le | .bytesWriteF32Be | .objSet | .objSetAtom
  | .objClear => false
  | _ => true

/-- The register gets a new value at the site, at the latest when its call returns. -/
def jirDefines (x : JirInsn) (r : ℕ) : Prop :=
  x.op ≠ .nop ∧ ((m.func f).insn x.bcPc).op.hasResult = true ∧ ((m.func f).insn x.bcPc).ra = r

/-- Instructions after which the frame is gone. -/
def JelloOp.leaves (op : JelloOp) : Bool := op == .tailcall || op == .tailcallr || op == .throw

/-- Where a frame of a compiled function is: at a site of its code, or in the interpreter. -/
inductive FramePoint
  | native (i : ℕ)
  | interp (pc : ℕ)
  deriving DecidableEq, Repr

/-- The registers that are read where the frame is. In the interpreter a `CONST_FUN` writes its own
only. -/
def pointReads (r : ℕ) : FramePoint → Prop
  | .native i => ∃ x, siteInsn m ⟨f, i⟩ = some x ∧ jirReads m f x r
  | .interp pc => pc < (m.func f).ninsns ∧ ((m.func f).insn pc).op ≠ .constFun ∧
      Touches ((m.func f).insn pc) r

def pointDefines (r : ℕ) : FramePoint → Prop
  | .native i => ∃ x, siteInsn m ⟨f, i⟩ = some x ∧ jirDefines m f x r
  | .interp pc => ((m.func f).insn pc).op.hasResult = true ∧ ((m.func f).insn pc).ra = r

/-- The interpreter carries out the instruction there, also as the slow operation of a site. -/
def runsAt (ins : JelloInsn) : FramePoint → Prop
  | .native i => ∃ x, siteInsn m ⟨f, i⟩ = some x ∧ x.op = .slow ∧ ins = (m.func f).insn x.bcPc
  | .interp pc => pc < (m.func f).ninsns ∧ ins.op ≠ .constFun ∧ ins = (m.func f).insn pc

/-- One frame of a compiled function goes on, for a call when it returns. A function with a `TRY` is
not compiled, so a trap leaves the frame. -/
inductive FlowStep : FramePoint → FramePoint → Prop
  | next {i : ℕ} {x : JirInsn} (hx : siteInsn m ⟨f, i⟩ = some x)
      (hop : x.op.falls = true ∨ x.op.calls = true)
      (hstay : ((m.func f).insn x.bcPc).op.leaves = false) :
      FlowStep (.native i) (.native (i + 1))
  | branch {i j : ℕ} (hj : j ∈ siteTargets m ⟨f, i⟩) : FlowStep (.native i) (.native j)
  -- the compiled callee ended in a tail call, or was taken over itself: the return that follows
  -- finds neither a native address to return to nor a hint to enter the caller's code again
  | takenOver {i : ℕ} {x : JirInsn} (hx : siteInsn m ⟨f, i⟩ = some x) (hop : x.op.calls = true) :
      FlowStep (.native i) (.interp (x.bcPc + 1))
  | fall {pc : ℕ} (hpc : pc < (m.func f).ninsns)
      (hop : ((m.func f).insn pc).op.fallsThrough = true) : FlowStep (.interp pc) (.interp (pc + 1))
  | jump {pc npc : ℕ} {v : UInt32} (hpc : pc < (m.func f).ninsns)
      (hto : (m.func f).jumpsTo pc ((m.func f).insn pc) v = some npc) :
      FlowStep (.interp pc) (.interp npc)
  -- a backward `JMP` sets the hint
  | replaced {pc npc i : ℕ} {v : UInt32} {ir : List JirInsn} (hpc : pc < (m.func f).ninsns)
      (hop : ((m.func f).insn pc).op = .jmp) (hback : i32 ((m.func f).insn pc).imm < 0)
      (hto : (m.func f).jumpsTo pc ((m.func f).insn pc) v = some npc)
      (hir : jelloJitCompileFunction m f = some ir) (hi : bcPcMap ir npc = some i) :
      FlowStep (.interp pc) (.native i)

/-- Where the frame may still lack what the elided instruction at `pc` would have loaded into
`r`. -/
def Lacking (pc r : ℕ) (p : FramePoint) : Prop :=
  ∃ (k : ℕ) (x : JirInsn), siteInsn m ⟨f, k⟩ = some x ∧ x.bcPc = pc ∧
    Relation.ReflTransGen (fun p q ↦ FlowStep m f p q ∧ ¬ pointDefines m f r p) (.native k) p

def Unread (pc r : ℕ) : Prop := ∀ p, Lacking m f pc r p → ¬ pointReads m f r p

/-- The uses of a register by native code that `const_fun_self_elidable` takes for harmless. -/
inductive MissedUse (pc r : ℕ) : Prop
  | tailcall (hop : ((m.func f).insn pc).op = .tailcallr) (hb : ((m.func f).insn pc).rb = r)
  | slow (hop : ((m.func f).insn pc).op = .callr) (hb : ((m.func f).insn pc).rb = r)
      (hslow : provenCallee m f pc ((m.func f).insn pc) = none ∨ 16 < ((m.func f).insn pc).rc)
  | direct {g : ℕ} (hop : ((m.func f).insn pc).op = .callr) (hc : ((m.func f).insn pc).rc ≤ 16)
      (hg : provenCallee m f pc ((m.func f).insn pc) = some g)
      (hcaps : g ≠ f ∨ funcNeedsCaptures m g = true)
      (hr : directCallee (packCallee (UInt32.ofNat ((m.func f).insn pc).rb) g) = some r)
  | captured (hop : ((m.func f).insn pc).op = .closure ∨ ((m.func f).insn pc).op = .enumNew)
      (hlo : ((m.func f).insn pc).rb < r)
      (hhi : r < ((m.func f).insn pc).rb + ((m.func f).insn pc).rc)

/-- The uses by the interpreter. -/
inductive MissedRead (ins : JelloInsn) (r : ℕ) : Prop
  | callee (hop : ins.op = .callr ∨ ins.op = .tailcallr) (hb : ins.rb = r)
  | captured (hop : ins.op = .closure ∨ ins.op = .enumNew) (hlo : ins.rb < r)
      (hhi : r < ins.rb + ins.rc)

def MissedAt (r : ℕ) : FramePoint → Prop
  | .native i => ∃ x, siteInsn m ⟨f, i⟩ = some x ∧ MissedUse m f x.bcPc r
  | .interp pc => pc < (m.func f).ninsns ∧ MissedRead ((m.func f).insn pc) r

end Reads

section Elidable

variable {m : JelloBcModule} {f pc r : ℕ}

theorem callWindow_le {fn : JelloBcFunction} {w : JelloInsn} {first na : ℕ}
    (hok : jelloBcValidateInsn m fn w pc = .ok ()) (hw : callWindow w = some (first, na)) :
    first + na ≤ fn.nregs := by
  unfold jelloBcValidateInsn at hok
  unfold callWindow at hw
  cases hop : w.op
  case call | tailcall =>
    simp only [hop, directOf, verdict_bind_ok, require_ok, Option.some.injEq, Prod.mk.injEq]
      at hok hw
    rw [← hw.1, ← hw.2]
    exact hok.2.2
  case callr | tailcallr =>
    simp only [hop, indirectOf, verdict_bind_ok, require_ok, Option.some.injEq, Prod.mk.injEq]
      at hok hw
    rw [← hw.1, ← hw.2]
    exact hok.2.2.2
  all_goals simp only [hop, reduceCtorEq] at hw

theorem inWindow_iff {fn : JelloBcFunction} {w : JelloInsn} {first na : ℕ}
    (hok : jelloBcValidateInsn m fn w pc = .ok ()) (hn : fn.nregs ≤ 256)
    (hw : callWindow w = some (first, na)) :
    inWindow w r = true ↔ first ≤ r ∧ r < first + na := by
  have hle := callWindow_le hok hw
  have hu : u32 (first + na) = first + na := Nat.mod_eq_of_lt (by omega)
  simp only [inWindow, hw, hu, decide_eq_true_eq]
  omega

theorem not_inWindow_of_elidable (h : elidableUse m f r pc = true) :
    inWindow ((m.func f).insn pc) r = false := by
  unfold elidableUse at h
  dsimp only at h
  split_ifs at h with hcallr hw
  · cases hj : lastWithA (m.func f) r pc with
    | none => simp [hj] at h
    | some j => simpa [hj] using (And.right (by simpa [hj] using h))
  all_goals simpa using hw

/-- The uses that the scan takes for harmless, in terms of the instruction alone. -/
theorem touches_elidable (he : elidableUse m f r pc = true)
    (hop : ((m.func f).insn pc).op ≠ .constFun) (h : Touches ((m.func f).insn pc) r) :
    MissedRead ((m.func f).insn pc) r := by
  have hw := not_inWindow_of_elidable he
  unfold elidableUse at he
  dsimp only at he
  generalize (m.func f).insn pc = w at *
  rw [hw] at he
  by_cases hcallee : (w.op = .callr ∨ w.op = .tailcallr) ∧ w.rb = r
  · exact .callee hcallee.1 hcallee.2
  rw [if_neg fun h ↦ hcallee ⟨.inl h.1, h.2⟩, if_neg Bool.false_ne_true] at he
  by_cases hself : (w.op = .call ∨ w.op = .tailcall) ∧
      w.imm = UInt32.ofNat (f + jelloNativeBuiltinCount)
  · have hnone : operands w.op = (.unused, .unused, .unused) := by
      rcases hself.1 with hc | hc <;> rw [hc] <;> rfl
    cases h with
    | a hused h | b hused h | c hused h =>
      rw [hnone] at hused
      exact absurd hused Bool.false_ne_true
    | range hused hlo hhi | msg hused hc h | ret hused h | callee hused h =>
      rcases hself.1 with hc | hc <;> simp [hc] at hused
    | arg h => exact absurd (h.symm.trans hw) (by decide)
  · rw [if_neg hself, if_neg fun h ↦ hcallee ⟨.inr h.1, h.2⟩] at he
    have hra : w.ra ≠ r := by
      intro hra
      rw [if_pos hra] at he
      split_ifs at he
      simp only [insnIsSelfConstFun, decide_eq_true_eq] at he
      exact hop he.1
    rw [if_neg hra] at he
    have hbc : w.rb ≠ r ∧ w.rc ≠ r := by
      split_ifs at he
      simpa [not_or] using he
    cases h with
    | a hused h | ret hused h => exact absurd h hra
    | b hused h | msg hused hc h => exact absurd h hbc.1
    | c hused h => exact absurd h hbc.2
    | range hused hlo hhi => exact .captured hused (lt_of_le_of_ne hlo hbc.1) hhi
    | callee hused h => exact absurd ⟨hused, h⟩ hcallee
    | arg h => exact absurd (h.symm.trans hw) (by decide)

theorem directCallee_packCallee (g : ℕ) : directCallee (packCallee noFunobj g) = none := by
  apply if_pos
  apply UInt32.eq_of_toBitVec_eq
  simp only [packCallee, UInt32.toBitVec_shiftRight, UInt32.toBitVec_or,
    UInt32.toBitVec_shiftLeft]
  generalize (UInt32.ofNat g).toBitVec = v
  ext i hi
  interval_cases i <;> simp [noFunobj]

/-- Of the sites that are not calls, no other register is read than what is touched. -/
theorem touches_of_reads {x : JirInsn} (h : jirReads m f x r) (hcall : x.op.calls = false) :
    Touches ((m.func f).insn x.bcPc) r := by
  unfold jirReads at h
  split at h
  · exact h.elim
  · exact h.elim
  · exact h.elim
  · exact h.elim
  · exact h.elim
  · next hop => simp [hop, JirOp.calls] at hcall
  · next hop => simp [hop, JirOp.calls] at hcall
  · exact h

theorem MissedUse.op (h : MissedUse m f pc r) :
    ((m.func f).insn pc).op = .callr ∨ ((m.func f).insn pc).op = .tailcallr ∨
      ((m.func f).insn pc).op = .closure ∨ ((m.func f).insn pc).op = .enumNew := by
  cases h with
  | tailcall hop => exact .inr (.inl hop)
  | slow hop => exact .inl hop
  | direct hop => exact .inl hop
  | captured hop => exact hop.elim (.inr ∘ .inr ∘ .inl) (.inr ∘ .inr ∘ .inr)

theorem reads_lowerCall {w : JelloInsn} (hw : (m.func f).insn pc = w) (hop : w.op = .call)
    (hout : inWindow w r = false) (hiff : inWindow w r = true ↔ w.rb ≤ r ∧ r < w.rb + w.rc) :
    ¬ jirReads m f (lowerCall m f pc w) r := by
  intro h
  have hsite := @lowerCall_bcPc m f pc w
  have hrange : ¬ (w.rb ≤ r ∧ r < w.rb + w.rc) := fun h ↦ by simp [hiff.mpr h] at hout
  cases hcall : (lowerCall m f pc w).op.calls with
  | false =>
    have ht := touches_of_reads h hcall
    rw [hsite, hw] at ht
    cases ht with
    | a hused _ | b hused _ | c hused _ =>
      rw [hop] at hused
      exact absurd hused Bool.false_ne_true
    | range hused _ _ | msg hused _ _ | ret hused _ | callee hused _ => simp [hop] at hused
    | arg h => simp [hout] at h
  | true =>
    revert h hcall
    dsimp only [lowerCall]
    split_ifs
    · exact fun _ hcall ↦ absurd hcall Bool.false_ne_true
    · exact fun _ hcall ↦ absurd hcall Bool.false_ne_true
    · exact fun h _ ↦ hrange h
    · rintro (h | h) _
      · exact hrange h
      · rw [show (jirABC .callDirect w pc (packCallee noFunobj (bytecodeIdx w.imm))).imm =
          packCallee noFunobj (bytecodeIdx w.imm) from rfl, directCallee_packCallee] at h
        exact Option.some_ne_none _ h.symm
    · exact fun _ hcall ↦ absurd hcall Bool.false_ne_true

theorem reads_lowerCallr {w : JelloInsn} (hw : (m.func f).insn pc = w) (hop : w.op = .callr)
    (hout : inWindow w r = false)
    (hiff : inWindow w r = true ↔ w.imm.toNat ≤ r ∧ r < w.imm.toNat + w.rc)
    (himm : w.imm.toNat ≤ 0xffff) :
    jirReads m f (lowerCallr m f pc w) r ↔ MissedUse m f pc r := by
  have hrange : ¬ (w.imm.toNat ≤ r ∧ r < w.imm.toNat + w.rc) := fun h ↦ by
    simp [hiff.mpr h] at hout
  have htouch : Touches w r ↔ w.rb = r := by
    constructor
    · intro h
      cases h with
      | a hused _ | b hused _ | c hused _ =>
        rw [hop] at hused
        exact absurd hused Bool.false_ne_true
      | range hused _ _ | msg hused _ _ | ret hused _ => simp [hop] at hused
      | callee _ h => exact h
      | arg h => simp [hout] at h
    · exact .callee (.inl hop)
  have hmissed : MissedUse m f pc r ↔
      (w.rb = r ∧ (provenCallee m f pc w = none ∨ 16 < w.rc)) ∨
      ∃ g, w.rc ≤ 16 ∧ provenCallee m f pc w = some g ∧ (g ≠ f ∨ funcNeedsCaptures m g = true) ∧
        directCallee (packCallee (UInt32.ofNat w.rb) g) = some r := by
    constructor
    · intro h
      cases h with
      | tailcall hop' _ => simp [hw, hop] at hop'
      | slow _ hb hslow => exact .inl ⟨hw ▸ hb, hw ▸ hslow⟩
      | direct _ hc hg hcaps hr => exact .inr ⟨_, hw ▸ hc, hw ▸ hg, hcaps, hw ▸ hr⟩
      | captured hop' _ _ => simp [hw, hop] at hop'
    · rintro (⟨hb, hslow⟩ | ⟨g, hc, hg, hcaps, hr⟩)
      · exact .slow (by rw [hw, hop]) (by rw [hw, hb]) (by rw [hw]; exact hslow)
      · exact .direct (by rw [hw, hop]) (by rw [hw]; exact hc) (by rw [hw]; exact hg) hcaps
          (by rw [hw]; exact hr)
  have hslow : jirReads m f (lowerSlow pc) r ↔ w.rb = r := by
    rw [← htouch, ← hw]
    rfl
  rw [hmissed]
  unfold lowerCallr
  cases hg : provenCallee m f pc w with
  | none =>
    simp only [hslow, reduceCtorEq, false_and, and_false, exists_false, or_false, true_or, and_true]
  | some g =>
    simp only [himm, and_true, reduceCtorEq, false_or, Option.some.injEq]
    by_cases hc : w.rc ≤ 16
    · rw [if_pos hc]
      by_cases hself : g = f ∧ (!funcNeedsCaptures m g) = true
      · rw [if_pos hself]
        have hcaps : ¬ (g ≠ f ∨ funcNeedsCaptures m g = true) := by
          simpa [not_or] using hself
        refine ⟨fun h ↦ absurd h hrange, ?_⟩
        rintro (⟨-, h⟩ | ⟨g', -, rfl, h, -⟩)
        · omega
        · exact absurd h hcaps
      · rw [if_neg hself]
        have hcaps : g ≠ f ∨ funcNeedsCaptures m g = true := by
          by_contra h
          exact hself (by simpa [not_or] using h)
        constructor
        · rintro (h | h)
          · exact absurd h hrange
          · exact .inr ⟨g, hc, rfl, hcaps, h⟩
        · rintro (⟨-, h⟩ | ⟨g', -, rfl, -, h⟩)
          · omega
          · exact .inr h
    · rw [if_neg hc, hslow]
      constructor
      · exact fun h ↦ .inl ⟨h, by omega⟩
      · rintro (⟨h, -⟩ | ⟨g', h, -⟩)
        · exact h
        · exact absurd h hc

theorem lowerConstFun_unread (w : JelloInsn) : ¬ jirReads m f (lowerConstFun m f pc w) r := by
  unfold lowerConstFun
  split_ifs
  · exact id
  · exact id

theorem not_calls_of_isPlain {op : JirOp} (h : op.isPlain = true) : op.calls = false := by
  cases op <;> first | rfl | exact absurd h (by decide)

theorem reads_iff_missed {i : ℕ} {x : JirInsn} (hm : Accepted m)
    (he : constFunSelfElidable m f pc = true) (hx : siteInsn m ⟨f, i⟩ = some x) :
    jirReads m f x ((m.func f).insn pc).ra ↔ MissedUse m f x.bcPc ((m.func f).insn pc).ra := by
  simp only [constFunSelfElidable, insnIsSelfConstFun, List.all_eq_true, List.mem_range,
    Bool.decide_or, Bool.or_eq_true, decide_eq_true_eq] at he
  obtain ⟨⟨hconst, -, hf, hself⟩, hscan⟩ := he
  rw [hself] at hf
  obtain ⟨ir, hir, hxi⟩ := Option.bind_eq_some_iff.mp hx
  change jelloJitCompileFunction m f = some ir at hir
  obtain ⟨start, k, b, hb, -, hbk⟩ := exists_block hir hxi
  have hmem := List.mem_of_getElem? hbk
  have hok := hm.insn (func_mem hf) (insn_of_lt hb.pc_lt)
  have hn := hm.nregs_le (func_mem hf)
  generalize ((m.func f).insn pc).ra = r at *
  have hnone (h : ¬ jirReads m f x r) (hop : ((m.func f).insn x.bcPc).op ≠ .callr ∧
      ((m.func f).insn x.bcPc).op ≠ .tailcallr ∧ ((m.func f).insn x.bcPc).op ≠ .closure ∧
        ((m.func f).insn x.bcPc).op ≠ .enumNew) :
      jirReads m f x r ↔ MissedUse m f x.bcPc r := by
    refine ⟨fun h' ↦ absurd h' h, fun h' ↦ ?_⟩
    rcases h'.op with h' | h' | h' | h'
    · exact absurd h' hop.1
    · exact absurd h' hop.2.1
    · exact absurd h' hop.2.2.1
    · exact absurd h' hop.2.2.2
  by_cases hcf : ((m.func f).insn x.bcPc).op = .constFun
  · refine hnone ?_ (by simp [hcf])
    have hlow := hb.lowered
    simp only [lowerOne, hcf, Option.some.injEq] at hlow
    rw [← hlow, List.mem_singleton] at hmem
    rw [hmem]
    exact lowerConstFun_unread _
  have huse : elidableUse m f r x.bcPc = true := by
    refine (hscan x.bcPc hb.pc_lt).resolve_left fun h ↦ hcf ?_
    rw [h, hconst]
  have hout := not_inWindow_of_elidable huse
  have hplain (hcall : x.op.calls = false) (hcallr : ((m.func f).insn x.bcPc).op ≠ .callr)
      (h : jirReads m f x r) : MissedUse m f x.bcPc r := by
    cases touches_elidable huse hcf (touches_of_reads h hcall) with
    | callee hop hrb => exact .tailcall (hop.resolve_left hcallr) hrb
    | captured hop hlo hhi => exact .captured hop hlo hhi
  cases lowers hb.lowered with
  | jmp hop =>
    refine hnone (fun h ↦ ?_) (by simp [hop])
    dsimp only [lowerJmp] at hmem
    split_ifs at hmem
    · rcases List.mem_cons.mp hmem with hx | hx
      · rw [hx] at h
        exact h
      · rw [List.mem_singleton.mp hx] at h
        exact h
    · rw [List.mem_singleton.mp hmem] at h
      exact h
  | jmpIf hop =>
    refine hnone (fun h ↦ ?_) (by simp [hop])
    rw [List.mem_singleton] at hmem
    have hmiss := (hplain (by rw [hmem]; rfl) (by simp [hop]) h).op
    simp [hop] at hmiss
  | switch hop hs =>
    refine hnone (fun h ↦ ?_) (by simp [hop])
    have hcall : x.op.calls = false := by
      rcases lowerSwitch_op hs x hmem with h | h <;> rw [h] <;> rfl
    have hmiss := (hplain hcall (by simp [hop]) h).op
    simp [hop] at hmiss
  | case hop => simp at hmem
  | call hop =>
    refine hnone ?_ (by simp [hop])
    have h := reads_lowerCall rfl hop hout (inWindow_iff hok hn (by simp [callWindow, hop]))
    rwa [← List.mem_singleton.mp hmem] at h
  | callr hop =>
    have hw : callWindow ((m.func f).insn x.bcPc) =
        some (((m.func f).insn x.bcPc).imm.toNat, ((m.func f).insn x.bcPc).rc) := by
      simp [callWindow, hop]
    have hle := callWindow_le hok hw
    have h := reads_lowerCallr rfl hop hout (inWindow_iff hok hn hw) (by omega)
    rwa [← List.mem_singleton.mp hmem] at h
  | @plain y hjmp hcall hcallr hop hpc =>
    obtain rfl := List.mem_singleton.mp hmem
    refine ⟨hplain (not_calls_of_isPlain hop) hcallr, fun h ↦ ?_⟩
    have hread (hop : x.op = .slow ∨ x.op = .closure)
        (ht : Touches ((m.func f).insn x.bcPc) r) : jirReads m f x r := by
      rcases hop with hop | hop <;> simpa only [jirReads, hop] using ht
    have hlow := hb.lowered
    cases h with
    | tailcall htail hrb =>
      simp only [lowerOne, htail, Option.some.injEq, List.cons.injEq, and_true] at hlow
      exact hread (.inl (hlow ▸ rfl)) (.callee (.inr htail) hrb)
    | slow h | direct h => exact absurd h hcallr
    | captured hcap hlo hhi =>
      refine hread ?_ (.range hcap hlo.le hhi)
      rcases hcap with hcap | hcap
      · simp only [lowerOne, hcap, Option.some.injEq, List.cons.injEq, and_true] at hlow
        exact .inr (hlow ▸ rfl)
      · simp only [lowerOne, hcap, Option.some.injEq, List.cons.injEq, and_true] at hlow
        exact .inl (hlow ▸ rfl)

theorem elidableUse_of (he : constFunSelfElidable m f pc = true) {pc' : ℕ}
    (hpc : pc' < (m.func f).ninsns) (hop : ((m.func f).insn pc').op ≠ .constFun) :
    elidableUse m f ((m.func f).insn pc).ra pc' = true := by
  simp only [constFunSelfElidable, insnIsSelfConstFun, List.all_eq_true, List.mem_range,
    Bool.decide_or, Bool.or_eq_true, decide_eq_true_eq] at he
  refine (he.2 pc' hpc).resolve_left fun h ↦ hop ?_
  rw [h, he.1.1]

/-- In either mode, what is read of an elided register is what the scan has missed. -/
theorem pointReads_iff (hm : Accepted m) (he : constFunSelfElidable m f pc = true)
    (p : FramePoint) :
    pointReads m f ((m.func f).insn pc).ra p ↔ MissedAt m f ((m.func f).insn pc).ra p := by
  cases p with
  | native i =>
    exact exists_congr fun x ↦ and_congr_right fun hx ↦ reads_iff_missed hm he hx
  | interp pc' =>
    refine and_congr_right fun hpc ↦ ⟨fun ⟨hop, ht⟩ ↦ ?_, fun h ↦ ?_⟩
    · exact touches_elidable (elidableUse_of he hpc hop) hop ht
    · cases h with
      | callee hop hb => exact ⟨by rcases hop with h | h <;> simp [h], .callee hop hb⟩
      | captured hop hlo hhi =>
        exact ⟨by rcases hop with h | h <;> simp [h], .range hop hlo.le hhi⟩

/-- Where nothing reads the register, the operations of the interpreter do not access its slot. -/
theorem spared_of_unread (h : Unread m f pc r) {p : FramePoint} (hlack : Lacking m f pc r p)
    {ins : JelloInsn} (hruns : runsAt m f ins p) (ctx : Ctx) (s : Store) (w : ℕ) :
    .slot ctx.rf r w ∉ (dataOp ins.op ctx ins s).2 := by
  intro haccess
  have ht : Touches ins r := ((keeps_dataOp_touched ctx ins s).1 _ haccess).2
  refine h p hlack ?_
  cases p with
  | native i =>
    obtain ⟨x, hx, hop, rfl⟩ := hruns
    exact ⟨x, hx, by simpa only [jirReads, hop] using ht⟩
  | interp pc =>
    obtain ⟨hpc, hop, rfl⟩ := hruns
    exact ⟨hpc, hop, ht⟩

end Elidable

section Example

/-- A function that loads itself into its second register, and then does `rest`. -/
def selfFunc (rest : List JelloInsn) : JelloBcFunction :=
  { regTypes := [2, 0]
    capStart := 0
    insns := { op := .constFun, a := 1, b := 0, c := 0, imm := 47 } :: rest
    sourceFile := 0
    lines := [] }

def leafFunc (insns : List JelloInsn) : JelloBcFunction :=
  { regTypes := [1], capStart := 0, insns := insns, sourceFile := 0, lines := [] }

def elideModule (funcs : List JelloBcFunction) : JelloBcModule :=
  { (default : JelloBcModule) with
    types := [⟨.function, 0⟩, ⟨.i32, 0⟩, ⟨.bool, 0⟩]
    sigs := [default]
    funcs := funcs }

/-- It calls itself over and over. -/
def callingModule : JelloBcModule :=
  elideModule [selfFunc [{ op := .callr, a := 0, b := 1, c := 1, imm := 0 },
    { op := .notBool, a := 0, b := 0, c := 0, imm := 0 },
    { op := .jmpIf, a := 0, b := 0, c := 0, imm := 0xfffffffc },
    { op := .ret, a := 0, b := 0, c := 0, imm := 0 }]]

/-- It ends in a tail call of itself. -/
def tailModule : JelloBcModule :=
  elideModule [selfFunc [{ op := .nop, a := 0, b := 0, c := 0, imm := 0 },
    { op := .tailcallr, a := 0, b := 1, c := 1, imm := 0 }]]

/-- Its first function calls one that ends in a tail call, and then itself. -/
def takenModule : JelloBcModule :=
  elideModule [
    { regTypes := [1, 2, 0]
      capStart := 0
      insns :=
        [{ op := .constFun, a := 2, b := 0, c := 0, imm := 47 },
          { op := .call, a := 0, b := 0, c := 1, imm := 48 },
          { op := .jmpIf, a := 1, b := 0, c := 0, imm := 1 },
          { op := .callr, a := 0, b := 2, c := 1, imm := 0 },
          { op := .ret, a := 0, b := 0, c := 0, imm := 0 }]
      sourceFile := 0
      lines := [] },
    leafFunc [{ op := .nop, a := 0, b := 0, c := 0, imm := 0 },
      { op := .nop, a := 0, b := 0, c := 0, imm := 0 },
      { op := .tailcall, a := 0, b := 0, c := 1, imm := 49 }],
    leafFunc [{ op := .ret, a := 0, b := 0, c := 0, imm := 0 }]]

def tailIr : List JirInsn := [jir .nop 0 0, jir .nop 1 0, jir .slow 2 2]

def takenIr : List JirInsn :=
  [jir .nop 0 0, { op := .callDirect, a := 0, b := 0, c := 1, imm := 0xffff0001, bcPc := 1 },
    { op := .jmpIf, a := 1, b := 0, c := 0, imm := 4, bcPc := 2 },
    { op := .callSelf, a := 0, b := 0, c := 1, imm := 0, bcPc := 3 },
    { op := .ret, a := 0, b := 0, c := 0, imm := 0, bcPc := 4 }]

def callingIr : List JirInsn :=
  [jir .nop 0 0, { op := .callSelf, a := 0, b := 0, c := 1, imm := 0, bcPc := 1 },
    { op := .cmpI32 .eq, a := 0, b := 0, c := 255, imm := 0, bcPc := 2 },
    { op := .jmpIf, a := 0, b := 0, c := 0, imm := 0, bcPc := 3 },
    { op := .ret, a := 0, b := 0, c := 0, imm := 0, bcPc := 4 }]

theorem callingIr_eq : jelloJitCompileFunction callingModule 0 = some callingIr := by decide

theorem calling_not_lacking : ¬ Lacking callingModule 0 0 1 (.interp 1) := by
  have hsite (i : ℕ) : siteInsn callingModule ⟨0, i⟩ = callingIr[i]? := by
    simp [siteInsn, callingIr_eq]
  rintro ⟨k, x, -, -, hpath⟩
  obtain h | ⟨q, -, hstep, hkeep⟩ := hpath.cases_tail
  · cases h
  generalize hp : FramePoint.interp 1 = p at hstep
  cases hstep with
  | next | branch | replaced => cases hp
  | @takenOver i x hx hop =>
    have hpc : x.bcPc = 0 := by
      have := FramePoint.interp.inj hp
      omega
    have hall : ∀ y ∈ callingIr, y.bcPc = 0 → y.op.calls = false := by decide
    rw [hsite] at hx
    rw [hall x (List.mem_of_getElem? hx) hpc] at hop
    cases hop
  | @fall pc hpc hop =>
    obtain rfl : pc = 0 := by
      have := FramePoint.interp.inj hp
      omega
    exact hkeep ⟨rfl, rfl⟩
  | @jump pc npc v hpc hto =>
    obtain rfl := FramePoint.interp.inj hp
    have hlt : pc < 5 := hpc
    unfold JelloBcFunction.jumpsTo at hto
    interval_cases pc
    · cases hto
    · cases hto
    · cases hto
    · have htarget : (if v ≠ 0 then some 0 else none) = some 1 := hto
      split_ifs at htarget
      exact absurd (Option.some.inj htarget) Nat.zero_ne_one
    · cases hto

theorem calling_not_missed (p : FramePoint) (hlack : Lacking callingModule 0 0 1 p) :
    ¬ MissedAt callingModule 0 1 p := by
  have hins (pc : ℕ) (hpc : pc < 5) (hop : ((callingModule.func 0).insn pc).op = .callr ∨
      ((callingModule.func 0).insn pc).op = .tailcallr ∨
      ((callingModule.func 0).insn pc).op = .closure ∨
      ((callingModule.func 0).insn pc).op = .enumNew) : pc = 1 := by
    revert hop
    interval_cases pc <;> decide
  cases p with
  | native i =>
    rintro ⟨x, hx, hmiss⟩
    have hmem : x ∈ callingIr := by
      refine List.mem_of_getElem? (i := i) ?_
      simpa [siteInsn, callingIr_eq] using hx
    have hall : ∀ y ∈ callingIr, y.bcPc < 5 := by decide
    have hpc := hins x.bcPc (hall x hmem) hmiss.op
    rw [hpc] at hmiss
    cases hmiss with
    | tailcall hop => exact absurd hop (by decide)
    | slow _ _ hslow => exact absurd hslow (by decide)
    | @direct g _ _ hg hcaps =>
      obtain rfl : 0 = g := Option.some.inj hg
      exact absurd hcaps (by decide)
    | captured hop => exact absurd hop (by decide)
  | interp pc =>
    rintro ⟨hpc, hmiss⟩
    obtain rfl : pc = 1 := by
      refine hins pc hpc ?_
      cases hmiss with
      | callee hop => exact hop.elim .inl fun h ↦ .inr (.inl h)
      | captured hop => exact .inr (.inr hop)
    exact calling_not_lacking hlack

/-- The interpreter that takes the frame over after the call goes on at the next instruction. -/
theorem calling_taken_over : Lacking callingModule 0 0 1 (.interp 2) := by
  have hsite (i : ℕ) : siteInsn callingModule ⟨0, i⟩ = callingIr[i]? := by
    simp [siteInsn, callingIr_eq]
  have hkeeps (i : ℕ) (hi : i < 2) : ¬ pointDefines callingModule 0 1 (.native i) := by
    rintro ⟨x, hx, hop, -, ha⟩
    rw [hsite] at hx
    interval_cases i <;> cases hx
    · exact hop rfl
    · exact absurd ha (by decide)
  have hstart : FlowStep callingModule 0 (.native 0) (.native 1) := .next (hsite 0) (.inl rfl) rfl
  have htaken : FlowStep callingModule 0 (.native 1) (.interp 2) := .takenOver (hsite 1) rfl
  exact ⟨0, _, hsite 0, rfl, .tail (.single ⟨hstart, hkeeps 0 (by decide)⟩)
    ⟨htaken, hkeeps 1 (by decide)⟩⟩

end Example

end JelloVM
