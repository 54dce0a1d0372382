import JelloVM.Jit.Sites
import JelloVM.Fuel

namespace JelloVM

open Logged

/-- What `vm_exec_loop` charges for an instruction. -/
def vmFuel (ins : JelloInsn) : ℕ :=
  match ins.op with
  | .jmp => if i32 ins.imm < 0 then 1 else 0
  | .call | .callr => 1
  | _ => 0

section Loop

variable {ex : Exec} {vm : VM} {pc : ℕ} {ins : JelloInsn} {r : OpResult} {c c' : Ctl}

/-- `t` units of fuel have been taken and no more, where it is limited. -/
structure Took (t : ℕ) (s s' : Store) : Prop where
  limit : s'.fuelLimit = s.fuelLimit
  remaining : s.fuelLimit ≠ 0 → s'.fuelRemaining.toNat + t = s.fuelRemaining.toNat

theorem Charged.took {s s' : Store} (h : Charged s s') : Took 1 s s' := by
  cases h with
  | unlimited h0 => exact ⟨rfl, fun hlimit ↦ absurd h0 hlimit⟩
  | one h0 hrem =>
    have hspent := (Charged.one h0 hrem).spent
    refine ⟨rfl, fun hlimit ↦ le_antisymm (hspent.remaining hlimit) ?_⟩
    have hone : (1 : UInt64).toNat = 1 := rfl
    have hpos : s.fuelRemaining.toNat ≠ 0 := fun h ↦ hrem (UInt64.toNat_inj.mp h)
    have hle : (1 : UInt64) ≤ s.fuelRemaining := UInt64.le_iff_toNat_le.mpr (by omega)
    change s.fuelRemaining.toNat ≤ (s.fuelRemaining - 1).toNat + 1
    rw [UInt64.toNat_sub_of_le _ _ hle, hone]
    omega

theorem Calm.took {s s' : Store} (h : Calm s s') : Took 0 s s' :=
  ⟨h.fuelLimit, fun _ ↦ by rw [h.fuelRemaining, Nat.add_zero]⟩

theorem Took.trans {t t' : ℕ} {s s' s'' : Store} (h : Took t s s') (h' : Took t' s' s'') :
    Took (t + t') s s'' := by
  refine ⟨h'.limit.trans h.limit, fun hlimit ↦ ?_⟩
  have hrem := h.remaining hlimit
  have hrem' := h'.remaining (h.limit ▸ hlimit)
  omega

def NativesKeepFuel (ex : Exec) : Prop := ∀ s s', NativeRun ex s s' → Took 0 s s'

theorem vmFuel_of_isPlain (h : ins.op.isPlain = true) : vmFuel ins = 0 := by
  unfold vmFuel
  generalize ins.op = op at h
  cases op <;> first | rfl | exact Bool.noConfusion h

/-- Where no exception is left behind, the loop has charged for the instruction. -/
theorem Effect.took (he : Effect ex false vm pc ins r c c') (hnative : NativesKeepFuel ex)
    (hno : c'.store.excPending = false) : Took (vmFuel ins) c.store c'.store := by
  have hcall (hop : ins.op = .call ∨ ins.op = .callr) : vmFuel ins = 1 := by
    obtain hop | hop := hop <;> simp only [vmFuel, hop]
  have htail (hop : ins.op = .tailcall ∨ ins.op = .tailcallr) : vmFuel ins = 0 := by
    obtain hop | hop := hop <;> simp only [vmFuel, hop]
  cases he with
  | stay hop _ hcalm _ =>
    rw [vmFuel_of_isPlain hop]
    exact hcalm.took
  | noFuel _ _ htrap => exact absurd htrap.1 (by simp_all)
  | raise _ _ _ _ hpending _ _ => exact absurd hpending (by simp_all)
  | @jump _ _ _ s s' npc hto hfuel =>
    by_cases hback : ins.op = .jmp ∧ i32 ins.imm < 0
    · rw [if_pos ⟨hback.1, hback.2, rfl⟩] at hfuel
      have hone : vmFuel ins = 1 := by simp only [vmFuel, hback.1, hback.2, if_true]
      rw [hone]
      exact hfuel.took
    · rw [if_neg (fun h ↦ hback ⟨h.1, h.2.1⟩)] at hfuel
      have hzero : vmFuel ins = 0 := by
        unfold JelloBcFunction.jumpsTo at hto
        unfold vmFuel
        generalize ins.op = op at hback hto
        cases op <;> first | rfl | exact Option.noConfusion rfl (heq_of_eq hto) | skip
        exact if_neg fun h ↦ hback ⟨rfl, h⟩
      rw [hzero, hfuel]
      exact (refl_of Calm s).took
  | @try_ _ _ _ s _ hop _ =>
    have hzero : vmFuel ins = 0 := by simp only [vmFuel, hop]
    rw [hzero]
    exact (refl_of Calm s).took
  | @endtry _ _ _ _ s hop _ =>
    have hzero : vmFuel ins = 0 := by simp only [vmFuel, hop]
    rw [hzero]
    exact (refl_of Calm s).took
  | native hop hcharge hrun =>
    rw [hcall hop]
    exact hcharge.took.trans (hnative _ _ hrun)
  | refused _ _ _ _ htrap => exact absurd htrap.1 (by simp_all)
  | push _ _ hop _ hcharge hstill =>
    rw [hcall hop]
    exact hcharge.took.trans hstill.quiet.toCalm.took
  | tail _ hop _ _ hstill =>
    rw [htail hop]
    exact hstill.quiet.toCalm.took
  | noTail _ _ _ hpending => exact absurd hpending (by simp_all)
  | nativeTail hop hrun _ _ hstill _ _ =>
    rw [htail hop]
    exact (hnative _ _ hrun).trans hstill.quiet.toCalm.took
  | ret hop _ hstill _ _ =>
    have hzero : vmFuel ins = 0 := by simp only [vmFuel, hop]
    rw [hzero]
    exact hstill.quiet.toCalm.took
  | finish hop _ hstill _ =>
    have hzero : vmFuel ins = 0 := by simp only [vmFuel, hop]
    rw [hzero]
    exact hstill.quiet.toCalm.took

/-- A round of the loop that leaves no exception behind charges for its instruction. -/
theorem execInsn_took {reference : Bool} {build : Build} {vm₁ vm₂ : VM} {st : Option ExecStatus}
    (hnative : NativesKeepFuel ex) (hlabel : jmpIsLabel reference build = false)
    (hins : vm₁.nextInsn ex = some ins)
    (h : result (execInsn ex reference build) vm₁ = .ok (st, vm₂))
    (hno : vm₂.store.excPending = false) : Took (vmFuel ins) vm₁.store vm₂.store := by
  obtain ⟨r, -, hround⟩ := ends_execInsn.of_result h
  cases hround with
  | @step a acts ins' hacts hins' heffect =>
    obtain rfl : ins' = ins := Option.some.inj (hins'.symm.trans hins)
    rw [hlabel] at heffect
    exact heffect.took hnative hno

end Loop

/-- `jello_vm_fuel_charge` on the limit and what remains of it; `none` when it is exceeded. -/
def fuelCharge (limit remaining : UInt64) : Option UInt64 :=
  if limit = 0 then some remaining else if remaining = 0 then none else some (remaining - 1)

theorem fuelCharge_eq {ctx : Ctx} {s s' : Store} {b : Bool}
    (h : result (jelloVmFuelCharge ctx) s = .ok (b, s')) :
    fuelCharge s.fuelLimit s.fuelRemaining = if b then some s'.fuelRemaining else none := by
  simp only [jelloVmFuelCharge, result_bind, result_read, Except.bind] at h
  by_cases hlimit : s.fuelLimit = 0
  · obtain ⟨rfl, rfl⟩ : true = b ∧ s = s' := by simpa [hlimit] using h
    simp [fuelCharge, hlimit]
  · by_cases hrem : s.fuelRemaining = 0
    · simp only [hlimit, if_false, result_bind, result_read, hrem, if_true, Except.bind] at h
      cases htrap : result (jelloVmTrap ctx .fuel "instruction limit exceeded") s with
      | error e => simp [htrap] at h
      | ok r =>
        obtain ⟨rfl, -⟩ : false = b ∧ r.2 = s' := by simpa [htrap] using h
        simp [fuelCharge, hlimit, hrem]
    · obtain ⟨rfl, rfl⟩ : true = b ∧
          { s with fuelRemaining := s.fuelRemaining - 1 } = s' := by
        simpa only [hlimit, hrem, if_false, result_bind, result_read, result_change, result_pure,
          Except.bind, Except.ok.injEq, Prod.mk.injEq] using h
      simp [fuelCharge, hlimit, hrem]

/-- `emit_inline_fuel_check`: its tests look at the lower halves of the two words. -/
def inlineFuelCheck (limit remaining : UInt64) : Option UInt64 :=
  if limit.toUInt32 = 0 then some remaining
  else if remaining.toUInt32 = 0 then none
  else some (remaining - 1)

section Native

variable (m : JelloBcModule)

/-- The instruction of the bytecode that the code of a site is part of. -/
def bytecodeAt (s : Site) (x : JirInsn) : JelloInsn := (m.func s.f).insn x.bcPc

def isFuelCheck (s : Site) : Bool := (siteInsn m s).any (·.op = .fuelCheck)

def isInlineSqrt (s : Site) : Bool := (siteInsn m s).any (·.op = .sqrtF64)

/-- The jump of a `JMP` that goes backwards. -/
def isBackJmp (s : Site) : Bool :=
  (siteInsn m s).any fun x ↦
    x.op = .jmp ∧ (bytecodeAt m s x).op = .jmp ∧ i32 (bytecodeAt m s x).imm < 0

/-- The last site passed is a fuel check. -/
def afterCheck (tr : List (Site × Bool)) : Bool := tr.head?.any fun p ↦ isFuelCheck m p.1

def vmCharge (limit : UInt64) (ins : JelloInsn) (left : UInt64) : Option UInt64 :=
  if vmFuel ins = 1 then fuelCharge limit left else some left

/-- What the code of a site leaves of the fuel; `slow_op` dispatches the instruction. -/
def siteCharge (limit : UInt64) (s : Site) (left : UInt64) : Option UInt64 :=
  match siteInsn m s with
  | none => some left
  | some x =>
    match x.op with
    | .fuelCheck => inlineFuelCheck limit left
    | .callSelf | .callDirect => fuelCharge limit left
    | .slow => vmCharge limit (bytecodeAt m s x) left
    | _ => some left

/-- What native code has left of `left₀` after the sites of a trace, the last one first. -/
def nativeLeft (limit left₀ : UInt64) : List (Site × Bool) → Option UInt64
  | [] => some left₀
  | p :: tr => (nativeLeft limit left₀ tr).bind (siteCharge m limit p.1)

/-- What the loop leaves for the instruction that the code of a site begins. -/
def beginCharge (limit : UInt64) (s : Site) (left : UInt64) : Option UInt64 :=
  match siteInsn m s with
  | none => some left
  | some x => vmCharge limit (bytecodeAt m s x) left

/-- What the loop has left after the instructions of the same path; a fuel check and the site
after it are one instruction. -/
def vmLeft (limit left₀ : UInt64) : List (Site × Bool) → Option UInt64
  | [] => some left₀
  | p :: tr =>
    if afterCheck m tr then vmLeft limit left₀ tr
    else (vmLeft limit left₀ tr).bind (beginCharge m limit p.1)

/-- The site is an inlined `Math.sqrt`, or a backward jump that a branch has led to, or a fuel
check whose tests do not see the upper halves that matter. -/
def escapesFuel (limit left : UInt64) (p : Site × Bool) : Bool :=
  isInlineSqrt m p.1 || p.2 && isBackJmp m p.1 ||
    isFuelCheck m p.1 && (limit.toUInt32 = 0 || left ≠ 0 && left.toUInt32 = 0)

end Native

section Sites

variable {m : JelloBcModule} {f i start pc k : ℕ} {ir b : List JirInsn} {x : JirInsn} {s : Site}

theorem i32_eq (u : UInt32) :
    i32 u = if 2 * u.toNat < 2 ^ 32 then (u.toNat : ℤ) else (u.toNat : ℤ) - 2 ^ 32 := by
  rw [i32, BitVec.toInt_eq_toNat_cond]
  rfl

/-- An instruction count is a `uint32_t`. -/
def CountsFit (m : JelloBcModule) : Prop := ∀ fn ∈ m.funcs, fn.ninsns < 2 ^ 32

instance (m : JelloBcModule) : Decidable (CountsFit m) :=
  inferInstanceAs (Decidable (∀ fn ∈ m.funcs, fn.ninsns < 2 ^ 32))

/-- A jump that the loader accepts is guarded by a fuel check when it goes backwards. -/
theorem jirTarget_le (hm : Accepted m) (hfit : CountsFit m) (hpc : pc < (m.func f).ninsns)
    (hop : ((m.func f).insn pc).op = .jmp) :
    i32 (jirTarget pc ((m.func f).insn pc).imm) ≤ i32 (UInt32.ofNat pc) ↔
      i32 ((m.func f).insn pc).imm < 0 := by
  have hmem := func_mem (func_lt_of_insn (insn_of_lt hpc))
  have hcheck := hm.insn hmem (insn_of_lt hpc)
  have hlt := hfit _ hmem
  simp only [jelloBcValidateInsn, hop, targetOf, jumpTarget] at hcheck
  split_ifs at hcheck with hout
  · simp at hcheck
  · rw [jirTarget]
    rw [i32_eq, i32_eq] at hout
    rw [i32_eq, i32_eq, i32_eq]
    simp only [UInt32.toNat_add, UInt32.toNat_ofNat'] at hout ⊢
    have himm := ((m.func f).insn pc).imm.toNat_lt
    omega

theorem block_of_site (hx : siteInsn m s = some x) :
    ∃ ir start k b, jelloJitCompileFunction m s.f = some ir ∧ Block m s.f ir start x.bcPc b ∧
      s.i = start + k ∧ b[k]? = some x := by
  obtain ⟨ir, hir, hxi⟩ := Option.bind_eq_some_iff.mp hx
  obtain ⟨start, k, b, hb, hik, hbk⟩ := exists_block hir hxi
  exact ⟨ir, start, k, b, hir, hb, hik, hbk⟩

/-- A site with the instruction that its code is part of. -/
inductive SiteKind (ins : JelloInsn) (x : JirInsn) : Prop
  | fuelCheck (hop : x.op = .fuelCheck) (hins : ins.op = .jmp) (hback : i32 ins.imm < 0)
  | jmp (hop : x.op = .jmp) (hins : ins.op = .jmp)
  | call (hop : x.op = .slow ∨ x.op = .callSelf ∨ x.op = .callDirect)
      (hins : ins.op = .call ∨ ins.op = .callr)
  | sqrt (hop : x.op = .sqrtF64) (hins : ins.op = .call)
  | other (hcheck : x.op ≠ .fuelCheck) (hjmp : x.op ≠ .jmp) (hsqrt : x.op ≠ .sqrtF64)
      (hcall : x.op.calls = false) (hins : vmFuel ins = 0)

theorem vmFuel_of_op {ins : JelloInsn} (hjmp : ins.op ≠ .jmp) (hcall : ins.op ≠ .call)
    (hcallr : ins.op ≠ .callr) : vmFuel ins = 0 := by
  unfold vmFuel
  generalize ins.op = op at hjmp hcall hcallr
  cases op <;> first | rfl | contradiction

theorem lowerJmp_eq (hm : Accepted m) (hfit : CountsFit m) (hpc : pc < (m.func f).ninsns)
    (hop : ((m.func f).insn pc).op = .jmp) :
    lowerJmp pc ((m.func f).insn pc) =
      if i32 ((m.func f).insn pc).imm < 0 then
        [jir .fuelCheck pc 0, jir .jmp pc (jirTarget pc ((m.func f).insn pc).imm)]
      else [jir .jmp pc (jirTarget pc ((m.func f).insn pc).imm)] :=
  if_congr (jirTarget_le hm hfit hpc hop) rfl rfl

theorem siteKind_of_lowerOne (hm : Accepted m) (hfit : CountsFit m)
    (hpc : pc < (m.func f).ninsns) (h : lowerOne m f pc = some b) (hmem : x ∈ b) :
    SiteKind ((m.func f).insn pc) x := by
  cases lowers h with
  | jmp hop =>
    rw [lowerJmp_eq hm hfit hpc hop] at hmem
    split_ifs at hmem with hback
    · rcases List.mem_cons.mp hmem with rfl | hmem
      · exact .fuelCheck rfl hop hback
      · obtain rfl := List.mem_singleton.mp hmem
        exact .jmp rfl hop
    · obtain rfl := List.mem_singleton.mp hmem
      exact .jmp rfl hop
  | jmpIf hop =>
    obtain rfl := List.mem_singleton.mp hmem
    exact .other (by simp [jirA, jir]) (by simp [jirA, jir]) (by simp [jirA, jir]) rfl
      (vmFuel_of_op (by simp [hop]) (by simp [hop]) (by simp [hop]))
  | switch hop h =>
    have hzero : vmFuel ((m.func f).insn pc) = 0 :=
      vmFuel_of_op (by simp [hop]) (by simp [hop]) (by simp [hop])
    obtain hx | hx := lowerSwitch_op h x hmem
    · exact .other (by simp [hx]) (by simp [hx]) (by simp [hx]) (by rw [hx]; rfl) hzero
    · exact .other (by simp [hx]) (by simp [hx]) (by simp [hx]) (by rw [hx]; rfl) hzero
  | case hop => simp at hmem
  | call hop =>
    obtain rfl := List.mem_singleton.mp hmem
    obtain hsqrt | hcall := @lowerCall_op m f pc _
    · exact .sqrt hsqrt hop
    · exact .call hcall (.inl hop)
  | callr hop =>
    obtain rfl := List.mem_singleton.mp hmem
    exact .call (lowerCallr_op _) (.inr hop)
  | @plain y hjmp hcall hcallr hop _ =>
    obtain rfl := List.mem_singleton.mp hmem
    have hzero := vmFuel_of_op hjmp hcall hcallr
    generalize hxop : x.op = op at hop
    refine .other ?_ ?_ ?_ ?_ hzero
    all_goals
      rw [hxop]
      cases op <;> first | exact JirOp.noConfusion | rfl | exact Bool.noConfusion hop

theorem siteKind (hm : Accepted m) (hfit : CountsFit m) (hx : siteInsn m s = some x) :
    SiteKind (bytecodeAt m s x) x := by
  obtain ⟨ir, start, k, b, -, hb, -, hbk⟩ := block_of_site hx
  exact siteKind_of_lowerOne hm hfit hb.pc_lt hb.lowered (List.mem_of_getElem? hbk)

theorem backJmp_sites (hm : Accepted m) (hfit : CountsFit m) (hx : siteInsn m s = some x)
    (hins : (bytecodeAt m s x).op = .jmp) (hback : i32 (bytecodeAt m s x).imm < 0) :
    (x.op = .fuelCheck ∧ isBackJmp m s.next = true) ∨
      (x.op = .jmp ∧ ∃ j y, s.i = j + 1 ∧ siteInsn m ⟨s.f, j⟩ = some y ∧ y.op = .fuelCheck ∧
        y.bcPc = x.bcPc) := by
  obtain ⟨ir, start, k, b, hir, hb, hik, hbk⟩ := block_of_site hx
  have hb' : b = lowerJmp x.bcPc ((m.func s.f).insn x.bcPc) := by
    have h := hb.lowered
    simp only [lowerOne, show ((m.func s.f).insn x.bcPc).op = .jmp from hins] at h
    exact (Option.some.inj h).symm
  have hneg : i32 ((m.func s.f).insn x.bcPc).imm < 0 := hback
  rw [lowerJmp_eq hm hfit hb.pc_lt hins, if_pos hneg] at hb'
  have hsite (j : ℕ) (hj : j < 2) : siteInsn m ⟨s.f, start + j⟩ = b[j]? := by
    rw [← hb.inside j (by rw [hb']; exact hj)]
    simp [siteInsn, hir]
  have hk : k = 0 ∨ k = 1 := by
    have hlt := (List.getElem?_eq_some_iff.mp hbk).1
    rw [hb'] at hlt
    change k < 2 at hlt
    omega
  obtain rfl | rfl := hk
  · have hx0 : jir .fuelCheck x.bcPc 0 = x := by simpa [hb'] using hbk
    have hnext : siteInsn m s.next =
        some (jir .jmp x.bcPc (jirTarget x.bcPc ((m.func s.f).insn x.bcPc).imm)) := by
      have h1 := hsite 1 (by omega)
      rw [hb'] at h1
      rw [Site.next, hik]
      exact h1
    refine .inl ⟨by rw [← hx0]; rfl, ?_⟩
    simp only [isBackJmp, hnext, Option.any_some]
    exact decide_eq_true ⟨rfl, hins, hback⟩
  · have hx1 : jir .jmp x.bcPc (jirTarget x.bcPc ((m.func s.f).insn x.bcPc).imm) = x := by
      simpa [hb'] using hbk
    refine .inr ⟨by rw [← hx1]; rfl, start, jir .fuelCheck x.bcPc 0, hik, ?_, rfl, rfl⟩
    have h0 := hsite 0 (by omega)
    rw [hb'] at h0
    exact h0

theorem isBackJmp_iff : isBackJmp m s = true ↔ ∃ x, siteInsn m s = some x ∧ x.op = .jmp ∧
    (bytecodeAt m s x).op = .jmp ∧ i32 (bytecodeAt m s x).imm < 0 := by
  simp [isBackJmp, Option.any_eq_true]

/-- The jump of a backward `JMP` comes right after its fuel check. -/
theorem isFuelCheck_before (hm : Accepted m) (hfit : CountsFit m) (h : isBackJmp m s = true) :
    ∃ t, t.next = s ∧ isFuelCheck m t = true ∧
      (siteInsn m t).map (·.bcPc) = (siteInsn m s).map (·.bcPc) := by
  obtain ⟨x, hx, hop, hins, hback⟩ := isBackJmp_iff.mp h
  obtain hcheck | ⟨-, j, y, hj, hy, hyop, hypc⟩ := backJmp_sites hm hfit hx hins hback
  · exact absurd (hcheck.1.symm.trans hop) (by simp)
  · refine ⟨⟨s.f, j⟩, ?_, by simp [isFuelCheck, hy, hyop], by simp [hx, hy, hypc]⟩
    rw [Site.next, ← hj]

theorem isBackJmp_after (hm : Accepted m) (hfit : CountsFit m) (h : isFuelCheck m s = true) :
    isBackJmp m s.next = true := by
  obtain ⟨x, hx, hop⟩ : ∃ x, siteInsn m s = some x ∧ x.op = .fuelCheck := by
    simpa [isFuelCheck, Option.any_eq_true] using h
  have hkind := siteKind hm hfit hx
  have hjmp : (bytecodeAt m s x).op = .jmp ∧ i32 (bytecodeAt m s x).imm < 0 := by
    cases hkind with
    | fuelCheck _ hins hback => exact ⟨hins, hback⟩
    | jmp h _ => exact absurd (h.symm.trans hop) (by simp)
    | call h _ => simp [hop] at h
    | sqrt h _ => exact absurd (h.symm.trans hop) (by simp)
    | other h _ _ _ _ => exact absurd hop h
  obtain hnext | hcheck := backJmp_sites hm hfit hx hjmp.1 hjmp.2
  · exact hnext.2
  · exact absurd (hcheck.1.symm.trans hop) (by simp)

end Sites

section Path

variable {m : JelloBcModule} {start s : Site} {tr : List (Site × Bool)} {br : Bool}
  {st rest : List Site}

theorem not_backJmp_next {x : JirInsn} (hm : Accepted m) (hfit : CountsFit m)
    (hx : siteInsn m s = some x) (hop : x.op ≠ .fuelCheck) : isBackJmp m s.next = false := by
  rw [Bool.eq_false_iff]
  intro h
  obtain ⟨t, ht, hcheck, -⟩ := isFuelCheck_before hm hfit h
  obtain rfl : t = s := by
    cases t
    cases s
    simpa [Site.next] using ht
  simp [isFuelCheck, hx, hop] at hcheck

theorem not_backJmp_zero (hm : Accepted m) (hfit : CountsFit m) (f : ℕ) :
    isBackJmp m ⟨f, 0⟩ = false := by
  rw [Bool.eq_false_iff]
  intro h
  obtain ⟨t, ht, -⟩ := isFuelCheck_before hm hfit h
  exact absurd (congrArg Site.i ht) (Nat.succ_ne_zero t.i)

theorem not_backJmp_entry (hm : Accepted m) (hfit : CountsFit m) (hs : EntrySite m s) :
    isBackJmp m s = false := by
  obtain hzero | ⟨ir, pc, hir, hmap⟩ := hs
  · obtain ⟨f, i⟩ := s
    obtain rfl : i = 0 := hzero
    exact not_backJmp_zero hm hfit f
  · rw [Bool.eq_false_iff]
    intro h
    obtain ⟨t, rfl, -, hpc⟩ := isFuelCheck_before hm hfit h
    obtain ⟨hlt, hhere, hbefore⟩ := List.findIdx?_eq_some_iff_getElem.mp hmap
    have hlt' : t.i + 1 < ir.length := hlt
    have ht : t.i < ir.length := Nat.lt_of_succ_lt hlt'
    have hir' : jelloJitCompileFunction m t.f = some ir := hir
    have hsame : ir[t.i].bcPc = ir[t.i + 1].bcPc := by
      simpa [siteInsn, Site.next, hir', ht, hlt'] using hpc
    have hfirst := hbefore t.i (Nat.lt_succ_self t.i)
    have hthere : ir[t.i + 1].bcPc = pc := of_decide_eq_true hhere
    simp [hsame, hthere] at hfirst

/-- Where native code is after it has passed the sites of the trace. -/
structure OnPath (m : JelloBcModule) (tr : List (Site × Bool)) (br : Bool) (st : List Site) :
    Prop where
  returns : ∀ s ∈ st.tail, isBackJmp m s = false
  here : ∀ s rest, st = s :: rest →
    isBackJmp m s = true → afterCheck m tr = !br
  checked : afterCheck m tr = true → ∃ s rest, st = s :: rest ∧ isBackJmp m s = true

theorem afterCheck_cons : afterCheck m ((s, br) :: tr) = isFuelCheck m s := rfl

theorem not_check {x : JirInsn} (hx : siteInsn m s = some x) (hop : x.op ≠ .fuelCheck) :
    isFuelCheck m s = false := by
  simp [isFuelCheck, hx, hop]

theorem not_check_of_target {j : ℕ} (hj : j ∈ siteTargets m s) : isFuelCheck m s = false := by
  unfold siteTargets at hj
  cases hir : jelloJitCompileFunction m s.f with
  | none => simp [hir] at hj
  | some ir =>
    simp only [hir] at hj
    obtain ⟨t, ht, -⟩ := List.mem_filterMap.mp hj
    unfold branchTargets at ht
    cases hx : ir[s.i]? with
    | none => simp [hx] at ht
    | some x =>
      refine not_check (x := x) (by simp [siteInsn, hir, hx]) fun hop ↦ ?_
      simp [hx, hop] at ht

theorem onPath_call {x : JirInsn} (hm : Accepted m) (hfit : CountsFit m)
    (h : OnPath m tr br (s :: rest)) (hx : siteInsn m s = some x) (hop : x.op ≠ .fuelCheck)
    (g : ℕ) : OnPath m ((s, br) :: tr) false (⟨g, 0⟩ :: s.next :: rest) := by
  refine ⟨fun t ht ↦ ?_, fun t rest' hst hback ↦ ?_, fun hopen ↦ ?_⟩
  · rcases List.mem_cons.mp ht with rfl | ht
    · exact not_backJmp_next hm hfit hx hop
    · exact h.returns t ht
  · obtain ⟨rfl, -⟩ : ⟨g, 0⟩ = t ∧ s.next :: rest = rest' := by simpa using hst
    exact absurd hback (by simp [not_backJmp_zero hm hfit g])
  · simp [afterCheck_cons, not_check hx hop] at hopen

theorem onPath (hm : Accepted m) (hfit : CountsFit m) (hentry : EntrySite m start)
    (h : NativePath m start tr br st) : OnPath m tr br st := by
  induction h with
  | start =>
    refine ⟨by simp, fun s rest hst hback ↦ ?_, by simp [afterCheck]⟩
    obtain ⟨rfl, -⟩ : start = s ∧ [] = rest := by simpa using hst
    exact absurd hback (by simp [not_backJmp_entry hm hfit hentry])
  | @step tr br br' s rest st h hstep ih =>
    cases hstep with
    | next _ hx hop =>
      refine ⟨ih.returns, fun t rest' hst hback ↦ ?_, fun hcheck ↦ ⟨s.next, rest, rfl, ?_⟩⟩
      · obtain ⟨rfl, -⟩ : s.next = t ∧ rest = rest' := by simpa using hst
        by_contra hno
        have hno : isFuelCheck m s = false := by simpa [afterCheck_cons] using hno
        refine absurd hback (Bool.eq_false_iff.mp (not_backJmp_next hm hfit hx fun hop ↦ ?_))
        simp [isFuelCheck, hx, hop] at hno
      · exact isBackJmp_after hm hfit hcheck
    | branch _ hj =>
      have hno := not_check_of_target hj
      refine ⟨ih.returns, fun t rest' hst hback ↦ ?_, fun hcheck ↦ ?_⟩
      · rw [afterCheck_cons, hno]
        rfl
      · simp [afterCheck_cons, hno] at hcheck
    | call _ hx hop =>
      refine onPath_call hm hfit ih hx (fun h ↦ ?_) _
      rw [h] at hop
      exact Bool.noConfusion hop
    | slowCall g _ hx hop => exact onPath_call hm hfit ih hx (by simp [hop]) g
    | ret _ hx hop =>
      have hno := not_check (m := m) hx (by simp [hop])
      refine ⟨fun t ht ↦ ih.returns t (List.mem_of_mem_tail ht), fun t rest' hst hback ↦ ?_,
        fun hcheck ↦ ?_⟩
      · have ht : t ∈ (s :: rest).tail := by simp [hst]
        exact absurd hback (by simp [ih.returns t ht])
      · simp [afterCheck_cons, hno] at hcheck

theorem site_of_step (h : NativeStep m (s :: rest) br st) : ∃ x, siteInsn m s = some x := by
  cases h with
  | next _ hx _ => exact ⟨_, hx⟩
  | branch _ hj =>
    unfold siteTargets at hj
    cases hir : jelloJitCompileFunction m s.f with
    | none => simp [hir] at hj
    | some ir =>
      simp only [hir] at hj
      obtain ⟨t, ht, -⟩ := List.mem_filterMap.mp hj
      unfold branchTargets at ht
      cases hx : ir[s.i]? with
      | none => simp [hx] at ht
      | some x => exact ⟨x, by simp [siteInsn, hir, hx]⟩
  | call _ hx _ => exact ⟨_, hx⟩
  | slowCall _ _ hx _ => exact ⟨_, hx⟩
  | ret _ hx _ => exact ⟨_, hx⟩

theorem NativePath.before {tr' pre : List (Site × Bool)} (h : NativePath m start tr br st)
    (htr : tr = tr' ++ pre) : ∃ br₀ st₀, NativePath m start pre br₀ st₀ := by
  induction tr' generalizing tr br st with
  | nil =>
    rw [List.nil_append] at htr
    exact ⟨br, st, htr ▸ h⟩
  | cons p tr' ih =>
    cases h with
    | start => simp at htr
    | step h _ =>
      rw [List.cons_append, List.cons.injEq] at htr
      exact ih h htr.2

theorem fuelCharge_ne {limit left : UInt64} (hlimit : limit ≠ 0) :
    some left ≠ fuelCharge limit left := by
  by_cases hleft : left = 0
  · simp [fuelCharge, hlimit, hleft]
  · simp only [fuelCharge, hlimit, hleft, if_false, ne_eq, Option.some.injEq]
    intro h
    have hone : left - (left - 1) = 0 := by rw [← h, sub_self]
    rw [sub_sub_cancel] at hone
    exact absurd hone (by decide)

/-- The fuel check takes what the loop takes, where the upper halves do not matter. -/
theorem inlineFuelCheck_eq {limit left : UInt64} (hlimit : limit ≠ 0) :
    inlineFuelCheck limit left = fuelCharge limit left ↔
      ¬ (limit.toUInt32 = 0 ∨ left ≠ 0 ∧ left.toUInt32 = 0) := by
  unfold inlineFuelCheck
  by_cases hlow : limit.toUInt32 = 0
  · simp [hlow, fuelCharge_ne hlimit]
  · by_cases hleft : left = 0
    · simp [hlow, hleft, fuelCharge, hlimit]
    · by_cases hlow' : left.toUInt32 = 0
      · simp [hlow, hleft, hlow', fuelCharge, hlimit]
      · simp [hlow, hleft, hlow', fuelCharge, hlimit]

/-- One site charges what the loop charges for the instruction that it begins, unless it escapes. -/
theorem siteCharge_eq {x : JirInsn} {limit left : UInt64} (hm : Accepted m) (hfit : CountsFit m)
    (hlimit : limit ≠ 0) (hon : OnPath m tr br (s :: rest)) (hx : siteInsn m s = some x) :
    (siteCharge m limit s left =
        if afterCheck m tr then some left else beginCharge m limit s left) ↔
      escapesFuel m limit left (s, br) = false := by
  have hback : isBackJmp m s = decide (x.op = .jmp ∧ (bytecodeAt m s x).op = .jmp ∧
      i32 (bytecodeAt m s x).imm < 0) := by simp [isBackJmp, hx]
  have hsqrt : isInlineSqrt m s = decide (x.op = .sqrtF64) := by simp [isInlineSqrt, hx]
  have hcheck : isFuelCheck m s = decide (x.op = .fuelCheck) := by simp [isFuelCheck, hx]
  have hafter : isBackJmp m s = false → afterCheck m tr = false := by
    intro hno
    rw [Bool.eq_false_iff]
    intro h
    obtain ⟨t, rest', hst, ht⟩ := hon.checked h
    obtain ⟨rfl, -⟩ : s = t ∧ rest = rest' := by simpa using hst
    exact absurd ht (by simp [hno])
  have hbegin : beginCharge m limit s left = vmCharge limit (bytecodeAt m s x) left := by
    simp [beginCharge, hx]
  have hhere := hon.here s rest rfl
  have hkind := siteKind hm hfit hx
  rw [hbegin]
  simp only [siteCharge, hx, escapesFuel, vmCharge]
  cases hkind with
  | fuelCheck hop hins hneg =>
    have hno : isBackJmp m s = false := by simp [hback, hop]
    have hone : vmFuel (bytecodeAt m s x) = 1 := by simp only [vmFuel, hins, hneg, if_true]
    simp only [hop, hone, hafter hno, hno, hsqrt, hcheck, if_true, Bool.false_eq_true, if_false]
    rw [inlineFuelCheck_eq hlimit]
    simp
  | jmp hop hins =>
    cases hb : isBackJmp m s with
    | false =>
      have hzero : vmFuel (bytecodeAt m s x) = 0 := by
        have hpos : ¬ i32 (bytecodeAt m s x).imm < 0 := by simpa [hback, hop, hins] using hb
        simp only [vmFuel, hins, hpos, if_false]
      simp [hop, hzero, hsqrt, hcheck]
    | true =>
      have hone : vmFuel (bytecodeAt m s x) = 1 := by
        have hneg : i32 (bytecodeAt m s x).imm < 0 := by simpa [hback, hop, hins] using hb
        simp only [vmFuel, hins, hneg, if_true]
      cases br with
      | false => simp [hop, hsqrt, hcheck, hhere hb]
      | true => simp [hop, hone, hsqrt, hcheck, hhere hb, fuelCharge_ne hlimit]
  | call hop hins =>
    have hno : isBackJmp m s = false := by rcases hop with hop | hop | hop <;> simp [hback, hop]
    have hone : vmFuel (bytecodeAt m s x) = 1 := by
      obtain hins | hins := hins <;> simp only [vmFuel, hins]
    rcases hop with hop | hop | hop <;> simp [hop, hone, hafter hno, hno, hsqrt, hcheck]
  | sqrt hop hins =>
    have hno : isBackJmp m s = false := by simp [hback, hop]
    have hone : vmFuel (bytecodeAt m s x) = 1 := by simp only [vmFuel, hins]
    simp [hop, hone, hafter hno, hsqrt, fuelCharge_ne hlimit]
  | other hnotCheck hnotJmp hnotSqrt hnotCall hins =>
    have hno : isBackJmp m s = false := by simp [hback, hnotJmp]
    simp only [hins, hno, hsqrt, hcheck, hnotCheck, hnotSqrt]
    generalize x.op = op at *
    cases op <;> simp_all [JirOp.calls]

/-- The fuel that is left natively is what the loop has left after the same instructions, all
along the path; where there is none, both have exceeded the limit. -/
def SameFuel (m : JelloBcModule) (limit left₀ : UInt64) (tr : List (Site × Bool)) : Prop :=
  ∀ pre, pre <:+ tr → nativeLeft m limit left₀ pre = vmLeft m limit left₀ pre

/-- No site was left with the fuel to escape -/
def NoEscape (m : JelloBcModule) (limit left₀ : UInt64) (tr : List (Site × Bool)) : Prop :=
  ∀ p pre left, p :: pre <:+ tr → nativeLeft m limit left₀ pre = some left →
    escapesFuel m limit left p = false

theorem left_cons {limit left₀ left : UInt64} {p : Site × Bool} {tr' pre : List (Site × Bool)}
    (hm : Accepted m) (hfit : CountsFit m) (hentry : EntrySite m start)
    (h : NativePath m start tr br st) (hlimit : limit ≠ 0) (htr : tr = tr' ++ p :: pre)
    (hsame : nativeLeft m limit left₀ pre = vmLeft m limit left₀ pre)
    (hleft : nativeLeft m limit left₀ pre = some left) :
    nativeLeft m limit left₀ (p :: pre) = vmLeft m limit left₀ (p :: pre) ↔
      escapesFuel m limit left p = false := by
  obtain ⟨br₀, st₀, hpath⟩ := h.before htr
  cases hpath with
  | @step _ br₁ _ s rest _ hpre hstep =>
    obtain ⟨x, hx⟩ := site_of_step hstep
    rw [← siteCharge_eq hm hfit hlimit (onPath hm hfit hentry hpre) hx]
    simp only [nativeLeft, vmLeft, ← hsame, hleft, Option.bind_some]

/-- What the charges of the paths stand for: `jello_vm_fuel_charge`, and what the loop takes for an
instruction, with natives that leave the fuel alone. -/
structure ChargesOfLoop : Prop where
  charge : ∀ (ctx : Ctx) s s' b, result (jelloVmFuelCharge ctx) s = .ok (b, s') →
    fuelCharge s.fuelLimit s.fuelRemaining = if b then some s'.fuelRemaining else none
  insn : ∀ ex reference build (vm vm' : VM) ins st, NativesKeepFuel ex →
    jmpIsLabel reference build = false → vm.nextInsn ex = some ins →
    result (execInsn ex reference build) vm = .ok (st, vm') → vm'.store.excPending = false →
    Took (vmFuel ins) vm.store vm'.store

end Path

/-- `for(;;);`, as one instruction. -/
def spinModule : JelloBcModule :=
  { loopModule .jmp with
    funcs :=
      [{ regTypes := [0]
         capStart := 0
         insns := [{ op := .jmp, a := 0, b := 0, c := 0, imm := 0xffffffff }]
         sourceFile := 0
         lines := [] }] }

/-- The path through the loop, after `n` rounds more than the first -/
def spinTrace : ℕ → List (Site × Bool)
  | 0 => [(⟨0, 1⟩, false), (⟨0, 0⟩, false)]
  | n + 1 => (⟨0, 1⟩, true) :: spinTrace n

theorem spin_path (n : ℕ) : NativePath spinModule ⟨0, 0⟩ (spinTrace n) true [⟨0, 1⟩] := by
  have hback (br : Bool) {tr : List (Site × Bool)}
      (h : NativePath spinModule ⟨0, 0⟩ tr br [⟨0, 1⟩]) :
      NativePath spinModule ⟨0, 0⟩ ((⟨0, 1⟩, br) :: tr) true [⟨0, 1⟩] :=
    .step h (.branch [] (by decide))
  induction n with
  | zero =>
    have hcheck : NativePath spinModule ⟨0, 0⟩ [(⟨0, 0⟩, false)] false [⟨0, 1⟩] :=
      .step .start (.next (x := jir .fuelCheck 0 0) [] (by decide) rfl)
    exact hback false hcheck
  | succ n ih => exact hback true ih

end JelloVM
