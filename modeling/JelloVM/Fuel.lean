import JelloVM.Handlers

namespace JelloVM

open ByteMemory Logged

def Ctl.topPc (c : Ctl) : ℕ :=
  match c.acts with
  | [] => 0
  | a :: _ => a.pc

/-- The calls of any kind. -/
def JelloOp.calls (op : JelloOp) : Bool :=
  op == .call || op == .callr || op == .tailcall || op == .tailcallr

def JelloOp.jumps (op : JelloOp) : Bool := op == .jmp || op == .jmpIf || op == .switchKind

/-- The instruction `ins` has led from `c` to `c'` backwards, or it is a call that was carried
out. -/
def transfers (ins : JelloInsn) (c c' : Ctl) : ℕ :=
  if ins.op.jumps && decide (c'.topPc ≤ c.topPc) || ins.op.calls && !c'.store.excPending then 1
  else 0

/-- A handler has been entered at or before the last instruction of its frame. -/
def catches (c c' : Ctl) : ℕ :=
  if c.store.excPending && (c.acts.reverse[c'.acts.length - 1]?).any fun a ↦ c'.topPc < a.pc then 1
  else 0

/-- A run, with the number of its backward transfers and calls so far; the states in which an
exception is dispatched or an instruction is executed satisfy `P`. -/
inductive CountedRun (ex : Exec) (reference : Bool) (build : Build) (P : VM → Prop) :
    ℕ → VM → Prop
  | start {vm : VM} (h : Starts ex vm) : CountedRun ex reference build P 0 vm
  | round {n : ℕ} {vm vm₁ vm₂ : VM} {ins : JelloInsn} (h : CountedRun ex reference build P n vm)
      (hP : P vm) (hhead : result (checkExc ex) vm = .ok (none, vm₁)) (hP₁ : P vm₁)
      (hins : vm₁.nextInsn ex = some ins)
      (hbody : result (execInsn ex reference build) vm₁ = .ok (none, vm₂)) :
      CountedRun ex reference build P
        (n + catches vm.ctl vm₁.ctl + transfers ins vm₁.ctl vm₂.ctl) vm₂

/-- The next step takes fuel if it counts: no handler is entered backwards, the instruction is no
tail call, and if it jumps backwards it is the `JMP` that takes fuel. -/
structure TakesFuel (ex : Exec) (lbl : Bool) (vm : VM) : Prop where
  catch_ : vm.store.excPending = true → ∀ h hs fr,
    willing vm.store.trapCode vm.excHandlers = some (h, hs) →
    vm.frameAt h.frameIndex = some fr → fr.pc ≤ h.catchPc
  tail : ∀ ins, vm.nextInsn ex = some ins → ins.op ≠ .tailcall ∧ ins.op ≠ .tailcallr
  jump : ∀ ins fr frs npc, vm.nextInsn ex = some ins → vm.callFrames = fr :: frs →
    (ex.func fr.f).jumpsTo fr.pc ins (vm.operandA ins) = some npc → npc ≤ fr.pc →
    ins.op = .jmp ∧ i32 ins.imm < 0 ∧ lbl = false

def NativesAddNoFuel (ex : Exec) : Prop :=
  ∀ s s', NativeRun ex s s' → s'.fuelLimit = s.fuelLimit ∧ s'.fuelRemaining ≤ s.fuelRemaining

/-- The instructions that the frames have before them. -/
def Ctl.work (ex : Exec) (c : Ctl) : ℕ := (c.acts.map fun a ↦ (ex.func a.f).ninsns - a.pc).sum

section Step

variable {ex : Exec} {lbl : Bool} {vm : VM} {a : Act} {acts : List Act} {hs : List ExcHandler}
  {s : Store} {ins : JelloInsn} {r : OpResult} {c c' : Ctl}

/-- `t` units of fuel have been taken, where it is limited. -/
structure Spent (t : ℕ) (s s' : Store) : Prop where
  limit : s'.fuelLimit = s.fuelLimit
  remaining : s.fuelLimit ≠ 0 → s'.fuelRemaining.toNat + t ≤ s.fuelRemaining.toNat

theorem Charged.spent {s s' : Store} (h : Charged s s') : Spent 1 s s' := by
  cases h with
  | unlimited h0 => exact ⟨rfl, fun hlimit ↦ absurd h0 hlimit⟩
  | one _ hrem =>
    refine ⟨rfl, fun _ ↦ ?_⟩
    have hpos : 0 < s.fuelRemaining.toNat := by
      rw [Nat.pos_iff_ne_zero]
      intro h0
      exact hrem (UInt64.toNat_inj.mp h0)
    have hone : (1 : UInt64).toNat = 1 := rfl
    have hle : (1 : UInt64) ≤ s.fuelRemaining := UInt64.le_iff_toNat_le.mpr (by omega)
    change (s.fuelRemaining - 1).toNat + 1 ≤ s.fuelRemaining.toNat
    rw [UInt64.toNat_sub_of_le _ _ hle, hone]
    omega

theorem Calm.spent {s s' : Store} (h : Calm s s') : Spent 0 s s' :=
  ⟨h.fuelLimit, fun _ ↦ by rw [h.fuelRemaining]; omega⟩

theorem Spent.trans {t t' : ℕ} {s s' s'' : Store} (h : Spent t s s') (h' : Spent t' s' s'') :
    Spent (t + t') s s'' := by
  refine ⟨h'.limit.trans h.limit, fun hlimit ↦ ?_⟩
  have hrem := h.remaining hlimit
  have hrem' := h'.remaining (h.limit ▸ hlimit)
  omega

theorem Spent.mono {t t' : ℕ} {s s' : Store} (h : Spent t s s') (ht : t' ≤ t) : Spent t' s s' :=
  ⟨h.limit, fun hlimit ↦ by have := h.remaining hlimit; omega⟩

theorem transfers_le (ins : JelloInsn) (c c' : Ctl) : transfers ins c c' ≤ 1 := by
  unfold transfers
  split_ifs <;> omega

theorem transfers_of_plain (hjump : ins.op.jumps = false) (hcall : ins.op.calls = false) :
    transfers ins c c' = 0 := by
  simp [transfers, hjump, hcall]

theorem transfers_of_forward (h : c.topPc < c'.topPc) (hcall : ins.op.calls = false) :
    transfers ins c c' = 0 := by
  simp [transfers, hcall, Nat.not_le.mpr h]

theorem transfers_of_pending (hjump : ins.op.jumps = false) (h : c'.store.excPending = true) :
    transfers ins c c' = 0 := by
  simp [transfers, hjump, h]

/-- What an instruction that meets the condition takes covers what it counts, and it goes on. -/
structure Pays (ex : Exec) (ins : JelloInsn) (c c' : Ctl) : Prop where
  spent : Spent (transfers ins c c') c.store c'.store
  onward : c.store.fuelLimit ≠ 0 →
    c'.store.fuelRemaining.toNat < c.store.fuelRemaining.toNat ∨ c'.work ex < c.work ex

theorem work_advance (hpc : a.pc < (ex.func a.f).ninsns) {npc : ℕ} (hnpc : a.pc < npc)
    {hs' : List ExcHandler} {s' : Store} :
    Ctl.work ex ⟨{ a with pc := npc } :: acts, hs', s'⟩ < Ctl.work ex ⟨a :: acts, hs, s⟩ := by
  simp only [Ctl.work, List.map_cons, List.sum_cons]
  omega

theorem work_pop (hpc : a.pc < (ex.func a.f).ninsns) {hs' : List ExcHandler} {s' : Store} :
    Ctl.work ex ⟨acts, hs', s'⟩ < Ctl.work ex ⟨a :: acts, hs, s⟩ := by
  simp only [Ctl.work, List.map_cons, List.sum_cons]
  omega

theorem calls_of_jumpsTo {fn : JelloBcFunction} {pc npc : ℕ} {v : UInt32}
    (h : fn.jumpsTo pc ins v = some npc) : ins.op.calls = false := by
  unfold JelloBcFunction.jumpsTo at h
  split at h
  · next hop => rw [hop]; rfl
  · next hop => rw [hop]; rfl
  · next hop => rw [hop]; rfl
  · exact Option.noConfusion rfl (heq_of_eq h)

theorem calls_of_isPlain (h : ins.op.isPlain = true) : ins.op.calls = false := by
  generalize ins.op = op at h
  cases op <;> first | rfl | exact Bool.noConfusion h

theorem Effect.pays (he : Effect ex lbl vm a.pc ins r
      ⟨{ a with pc := a.pc + 1 } :: acts, hs, s⟩ c') (hnative : NativesAddNoFuel ex) (hpc : a.pc < (ex.func a.f).ninsns)
    (htail : ins.op ≠ .tailcall ∧ ins.op ≠ .tailcallr)
    (hjump : ∀ npc, (ex.func a.f).jumpsTo a.pc ins (vm.operandA ins) = some npc → npc ≤ a.pc →
      ins.op = .jmp ∧ i32 ins.imm < 0 ∧ lbl = false) :
    Pays ex ins ⟨a :: acts, hs, s⟩ c' := by
  have hnext {hs' : List ExcHandler} {s' : Store} :
      Ctl.work ex ⟨{ a with pc := a.pc + 1 } :: acts, hs', s'⟩ < Ctl.work ex ⟨a :: acts, hs, s⟩ :=
    work_advance hpc (Nat.lt_succ_self a.pc)
  have hstays {hs' : List ExcHandler} {s' : Store} (hcall : ins.op.calls = false)
      (hspent : Spent 0 s s') :
      Pays ex ins ⟨a :: acts, hs, s⟩ ⟨{ a with pc := a.pc + 1 } :: acts, hs', s'⟩ := by
    have hforward : Ctl.topPc ⟨a :: acts, hs, s⟩ <
        Ctl.topPc ⟨{ a with pc := a.pc + 1 } :: acts, hs', s'⟩ := Nat.lt_succ_self a.pc
    refine ⟨?_, fun _ ↦ .inr hnext⟩
    rw [transfers_of_forward hforward hcall]
    exact hspent
  have hcalls (hop : ins.op = .call ∨ ins.op = .callr) : ins.op.jumps = false := by
    obtain hop | hop := hop <;> rw [hop] <;> rfl
  have htails (hop : ins.op = .tailcall ∨ ins.op = .tailcallr) : False :=
    hop.elim htail.1 htail.2
  cases he with
  | stay hop _ hcalm _ => exact hstays (calls_of_isPlain hop) hcalm.spent
  | noFuel hop hquiet _ => exact hstays (by rw [hop]; rfl) hquiet.toCalm.spent
  | raise hop _ hl hf _ _ _ =>
    refine hstays (by obtain hop | hop := hop <;> rw [hop] <;> rfl) ⟨hl, fun _ ↦ ?_⟩
    rw [hf]
    exact le_rfl
  | @jump _ _ _ _ s' npc hto hfuel =>
    by_cases hback : npc ≤ a.pc
    · rw [if_pos (hjump npc hto hback)] at hfuel
      have hspent := hfuel.spent
      exact ⟨hspent.mono (transfers_le _ _ _), fun hlimit ↦ .inl (hspent.remaining hlimit)⟩
    · have hspent : Spent 0 s s' := by
        split_ifs at hfuel
        · exact (hfuel.spent).mono (by omega)
        · rw [hfuel]
          exact (refl_of Calm s).spent
      have hforward : Ctl.topPc ⟨a :: acts, hs, s⟩ <
          Ctl.topPc ⟨{ a with pc := npc } :: acts, hs, s'⟩ := Nat.lt_of_not_le hback
      refine ⟨?_, fun _ ↦ .inr (work_advance hpc (by omega))⟩
      rw [transfers_of_forward hforward (calls_of_jumpsTo hto)]
      exact hspent
  | try_ _ hop _ => exact hstays (by rw [hop]; rfl) (refl_of Calm s).spent
  | endtry hop _ => exact hstays (by rw [hop]; rfl) (refl_of Calm s).spent
  | @native _ s₁ s' hop hcharge hrun =>
    have hkeep := hnative _ _ hrun
    have hkept : Spent 0 s₁ s' := ⟨hkeep.1, fun _ ↦ UInt64.le_iff_toNat_le.mp hkeep.2⟩
    have hspent : Spent 1 s s' := (hcharge.spent).trans hkept
    exact ⟨hspent.mono (transfers_le _ _ _), fun _ ↦ .inr hnext⟩
  | refused _ hop hcharge hquiet htrap =>
    refine ⟨?_, fun _ ↦ .inr hnext⟩
    rw [transfers_of_pending (hcalls hop) htrap.pending]
    obtain rfl | hcharge := hcharge
    · exact hquiet.toCalm.spent
    · exact ((hcharge.spent).trans hquiet.toCalm.spent).mono (by omega)
  | push _ _ _ _ hcharge hstill =>
    have hspent := (hcharge.spent).trans hstill.quiet.toCalm.spent
    exact ⟨hspent.mono (transfers_le _ _ _), fun hlimit ↦ .inl (hspent.remaining hlimit)⟩
  | tail _ hop _ _ _ => exact (htails hop).elim
  | noTail _ hop _ _ => exact (htails hop).elim
  | nativeTail hop _ _ _ _ _ _ => exact (htails hop).elim
  | ret hop _ hstill _ _ =>
    refine ⟨?_, fun _ ↦ .inr (work_pop hpc)⟩
    rw [transfers_of_plain (by rw [hop]; rfl) (by rw [hop]; rfl)]
    exact hstill.quiet.toCalm.spent
  | finish hop _ hstill _ =>
    refine ⟨?_, fun _ ↦ .inr ?_⟩
    · rw [transfers_of_plain (by rw [hop]; rfl) (by rw [hop]; rfl)]
      exact hstill.quiet.toCalm.spent
    · simp only [Ctl.work, List.map_nil, List.sum_nil, List.map_cons, List.sum_cons]
      omega

end Step

section Head

variable {vm vm₁ : VM} {a : Act} {acts acts' : List Act} {hs hs' : List ExcHandler}

theorem unwound_suffix {target : ℕ} (h : unwound target acts hs = (a :: acts', hs')) :
    ∃ pre, acts = pre ++ a :: acts' := by
  induction acts generalizing hs with
  | nil => simp [unwound] at h
  | cons b acts ih =>
    unfold unwound at h
    split_ifs at h
    · obtain ⟨pre, rfl⟩ := ih h
      exact ⟨b :: pre, rfl⟩
    · obtain ⟨⟨rfl, rfl⟩, -⟩ : (b = a ∧ acts = acts') ∧ hs = hs' := by simpa using h
      exact ⟨[], rfl⟩

theorem reverse_getElem?_suffix (pre : List Act) :
    (pre ++ a :: acts).reverse[acts.length]? = some a := by
  rw [List.reverse_append, List.reverse_cons, List.append_assoc,
    List.getElem?_append_right (by simp)]
  simp

/-- Entering a handler forwards costs nothing, and adds nothing to what is left to do. -/
theorem Dispatched.free (ex : Exec) (hd : Dispatched vm.ctl vm₁.ctl)
    (hcatch : vm.store.excPending = true → ∀ h hs fr,
      willing vm.store.trapCode vm.excHandlers = some (h, hs) →
      vm.frameAt h.frameIndex = some fr → fr.pc ≤ h.catchPc) :
    catches vm.ctl vm₁.ctl = 0 ∧ Spent 0 vm.store vm₁.store ∧ vm₁.ctl.work ex ≤ vm.ctl.work ex := by
  generalize hc : vm.ctl = c at hd
  generalize hc₁ : vm₁.ctl = c₁ at hd
  have hstore : vm.store = c.store := by rw [← hc]; rfl
  have hstore₁ : vm₁.store = c₁.store := by rw [← hc₁]; rfl
  have hhs : vm.excHandlers = c.handlers := by rw [← hc]; rfl
  rw [hstore, hstore₁]
  cases hd with
  | calm hno => exact ⟨by simp [catches, hno], (refl_of Calm c.store).spent, le_rfl⟩
  | @caught h hs hs' a acts s' hpending hwilling hunwound hidx hcaught =>
    obtain ⟨pre, hpre⟩ := unwound_suffix hunwound
    have hat : c.acts.reverse[h.frameIndex]? = some a := by
      rw [hpre, ← hidx]
      exact reverse_getElem?_suffix pre
    have hle : a.pc ≤ h.catchPc := by
      rw [← hc, reverse_acts] at hat
      obtain ⟨fr, hfr, rfl⟩ := Option.map_eq_some_iff.mp hat
      rw [hstore, hhs] at hcatch
      exact hcatch hpending h hs fr hwilling hfr
    refine ⟨?_, ⟨hcaught.fuelLimit, fun _ ↦ by rw [hcaught.fuelRemaining]; exact le_rfl⟩, ?_⟩
    · rw [← hidx] at hat
      simp [catches, hat, Ctl.topPc, Nat.not_lt.mpr hle]
    · rw [Ctl.work, Ctl.work, hpre, List.map_append, List.sum_append]
      simp only [List.map_cons, List.sum_cons]
      omega

end Head

section Runs

variable {ex : Exec} {reference : Bool} {build : Build} {vm vm₁ vm₂ : VM} {ins : JelloInsn} {n : ℕ}

/-- A round that meets the condition takes as much fuel as it counts, and leaves less to do. -/
structure RoundPays (ex : Exec) (ins : JelloInsn) (vm vm₁ vm₂ : VM) : Prop where
  spent : Spent (catches vm.ctl vm₁.ctl + transfers ins vm₁.ctl vm₂.ctl) vm.store vm₂.store
  onward : vm.store.fuelLimit ≠ 0 →
    vm₂.store.fuelRemaining.toNat < vm.store.fuelRemaining.toNat ∨
      vm₂.store.fuelRemaining.toNat = vm.store.fuelRemaining.toNat ∧
        vm₂.ctl.work ex < vm.ctl.work ex

theorem round_pays (hnative : NativesAddNoFuel ex)
    (hP : TakesFuel ex (jmpIsLabel reference build) vm)
    (hhead : result (checkExc ex) vm = .ok (none, vm₁))
    (hP₁ : TakesFuel ex (jmpIsLabel reference build) vm₁) (hins : vm₁.nextInsn ex = some ins)
    {st : Option ExecStatus} (hbody : result (execInsn ex reference build) vm₁ = .ok (st, vm₂)) :
    RoundPays ex ins vm vm₁ vm₂ := by
  obtain ⟨hfree, hspent, hwork⟩ := (ends_checkExc_ctl.of_result hhead rfl).1.free ex hP.catch_
  obtain ⟨r, -, hround⟩ := ends_execInsn.of_result hbody
  cases hround with
  | @step a acts ins' hacts hins' heffect =>
    obtain rfl : ins' = ins := Option.some.inj (hins'.symm.trans hins)
    obtain ⟨fr, frs, hfr, rfl, rfl⟩ := frames_of_acts hacts
    have hpc : fr.act.pc < (ex.func fr.act.f).ninsns := by
      rw [nextInsn_act hacts] at hins
      exact (List.getElem?_eq_some_iff.mp hins).1
    have hpays := heffect.pays hnative hpc (hP₁.tail _ hins)
      fun npc hto hback ↦ hP₁.jump _ fr frs npc hins hfr (operandA_fetched vm₁ _ ▸ hto) hback
    rw [← ctl_of_frames hfr] at hpays
    have hall := hspent.trans hpays.spent
    rw [Nat.zero_add] at hall
    refine ⟨by rw [hfree, Nat.zero_add]; exact hall, fun hlimit ↦ ?_⟩
    have hrem : vm₂.store.fuelRemaining.toNat + _ ≤ vm.store.fuelRemaining.toNat :=
      hall.remaining hlimit
    have hrem₁ := hspent.remaining hlimit
    obtain hless | hless := hpays.onward (hspent.limit ▸ hlimit)
    · exact .inl (hless.trans_le hrem₁)
    · rcases Nat.lt_or_ge vm₂.store.fuelRemaining.toNat vm.store.fuelRemaining.toNat with hlt | hge
      · exact .inl hlt
      · exact .inr ⟨by omega, hless.trans_le hwork⟩

theorem CountedRun.count_le (hm : Accepted ex.m) (hnative : NativesAddNoFuel ex)
    (h : CountedRun ex reference build (TakesFuel ex (jmpIsLabel reference build)) n vm)
    (hlimit : vm.store.fuelLimit ≠ 0) :
    n + vm.store.fuelRemaining.toNat ≤ vm.store.fuelLimit.toNat := by
  induction h with
  | start h =>
    rw [(h.started hm.entry_lt).fuel]
    omega
  | round _ hP hhead hP₁ hins hbody ih =>
    have hpays := (round_pays hnative hP hhead hP₁ hins hbody).spent
    rw [hpays.limit] at hlimit ⊢
    have hcount := ih hlimit
    have hrem := hpays.remaining hlimit
    omega

/-- All states that the loop comes to from `vm` meet the condition. -/
def AlwaysTakesFuel (ex : Exec) (reference : Bool) (build : Build) (vm : VM) : Prop :=
  ∀ k vm', result (vmExecLoop ex reference build k) vm = .ok (none, vm') →
    TakesFuel ex (jmpIsLabel reference build) vm' ∧
      ∀ vm₁, result (checkExc ex) vm' = .ok (none, vm₁) →
        TakesFuel ex (jmpIsLabel reference build) vm₁

theorem execRound_none (h : result (execRound ex reference build) vm = .ok (none, vm₂)) :
    ∃ vm₁, result (checkExc ex) vm = .ok (none, vm₁) ∧
      result (execInsn ex reference build) vm₁ = .ok (none, vm₂) := by
  obtain ⟨st, vm₁, hhead, hrest⟩ := bind_ok h
  cases st with
  | some st => simp at hrest
  | none => exact ⟨vm₁, hhead, hrest⟩

theorem vmExecLoop_succ (h : result (execRound ex reference build) vm = .ok (none, vm₂)) (k : ℕ) :
    result (vmExecLoop ex reference build (k + 1)) vm =
      result (vmExecLoop ex reference build k) vm₂ := by
  simp [vmExecLoop, h, Except.bind]

theorem nextInsn_of_execInsn {st : Option ExecStatus}
    (h : result (execInsn ex reference build) vm₁ = .ok (st, vm₂)) :
    ∃ ins, vm₁.nextInsn ex = some ins := by
  obtain ⟨r, -, hround⟩ := ends_execInsn.of_result h
  cases hround with
  | step _ hins _ => exact ⟨_, hins⟩

theorem loop_ends (hnative : NativesAddNoFuel ex) (hlimit : vm.store.fuelLimit ≠ 0)
    (halways : AlwaysTakesFuel ex reference build vm) :
    ∃ k, ∀ vm', result (vmExecLoop ex reference build k) vm ≠ .ok (none, vm') := by
  -- on the fuel that is left, and for equal fuel on the instructions that are left
  induction hn : vm.store.fuelRemaining.toNat using Nat.strong_induction_on generalizing vm with
  | _ n ihn =>
    induction hw : vm.ctl.work ex using Nat.strong_induction_on generalizing vm with
    | _ w ihw =>
      cases hround : result (execRound ex reference build) vm with
      | error e => exact ⟨1, by simp [vmExecLoop, hround, Except.bind]⟩
      | ok r =>
        obtain ⟨st, vm₂⟩ := r
        cases st with
        | some st => exact ⟨1, by simp [vmExecLoop, hround, Except.bind]⟩
        | none =>
          obtain ⟨vm₁, hhead, hbody⟩ := execRound_none hround
          obtain ⟨ins, hins⟩ := nextInsn_of_execInsn hbody
          obtain ⟨hP, hP₁⟩ := halways 0 vm rfl
          have hpays := round_pays hnative hP hhead (hP₁ vm₁ hhead) hins hbody
          have hlimit₂ : vm₂.store.fuelLimit ≠ 0 := hpays.spent.limit ▸ hlimit
          have halways₂ : AlwaysTakesFuel ex reference build vm₂ := fun k vm' hk ↦
            halways (k + 1) vm' ((vmExecLoop_succ hround k).trans hk)
          have hend : ∃ k, ∀ vm', result (vmExecLoop ex reference build k) vm₂ ≠ .ok (none, vm') := by
            obtain hless | ⟨hsame, hless⟩ := hpays.onward hlimit
            · exact ihn _ (hn ▸ hless) hlimit₂ halways₂ rfl
            · exact ihw _ (hw ▸ hless) hlimit₂ halways₂ (hsame.trans hn) rfl
          obtain ⟨k, hk⟩ := hend
          exact ⟨k + 1, fun vm' ↦ by rw [vmExecLoop_succ hround]; exact hk vm'⟩

/-- The entry of the module and `k` rounds through states that satisfy `p`, with what they
count. -/
def countTo (ex : Exec) (reference : Bool) (build : Build) (p : VM → Bool) : ℕ → VMM ℕ
  | 0 => do
    if ← execEntry ex then pure 0 else vmPanic
  | k + 1 => do
    let n ← countTo ex reference build p k
    let vm ← read id
    let st ← checkExc ex
    let vm₁ ← read id
    match st, vm₁.nextInsn ex with
    | none, some ins => do
      let st ← execInsn ex reference build
      let vm₂ ← read id
      if st = none ∧ p vm = true ∧ p vm₁ = true then
        pure (n + catches vm.ctl vm₁.ctl + transfers ins vm₁.ctl vm₂.ctl)
      else vmPanic
    | _, _ => vmPanic

theorem CountedRun.mono {P Q : VM → Prop} (hPQ : ∀ vm, P vm → Q vm)
    (h : CountedRun ex reference build P n vm) : CountedRun ex reference build Q n vm := by
  induction h with
  | start h => exact .start h
  | round _ hP hhead hP₁ hins hbody ih =>
    exact .round ih (hPQ _ hP) hhead (hPQ _ hP₁) hins hbody

theorem countedRun_of_countTo {k : ℕ} {vm₀ : VM} {p : VM → Bool}
    (h : result (countTo ex reference build p k) vm₀ = .ok (n, vm)) :
    CountedRun ex reference build (fun vm ↦ p vm = true) n vm := by
  induction k generalizing n vm with
  | zero =>
    obtain ⟨b, vm', hentry, hrest⟩ := bind_ok h
    cases b with
    | false => simp [vmPanic] at hrest
    | true =>
      obtain ⟨rfl, rfl⟩ : 0 = n ∧ vm' = vm := by simpa using hrest
      exact .start (.entry vm₀ hentry)
  | succ k ih =>
    obtain ⟨n', vm', hcount, hrest⟩ := bind_ok h
    simp only [result_bind, result_read, id, Except.bind] at hrest
    cases hhead : result (checkExc ex) vm' with
    | error e => simp [hhead] at hrest
    | ok r =>
      obtain ⟨st, vm₁⟩ := r
      simp only [hhead] at hrest
      cases st with
      | some st => simp [vmPanic] at hrest
      | none =>
        cases hins : vm₁.nextInsn ex with
        | none => simp [hins, vmPanic] at hrest
        | some ins =>
          simp only [hins, result_bind, Except.bind] at hrest
          cases hbody : result (execInsn ex reference build) vm₁ with
          | error e => simp [hbody] at hrest
          | ok r =>
            obtain ⟨st, vm₂⟩ := r
            simp only [hbody, result_read, result_ite, result_pure, id] at hrest
            split_ifs at hrest with hst
            · obtain ⟨rfl, hp, hp₁⟩ := hst
              obtain ⟨rfl, rfl⟩ : n' + catches vm'.ctl vm₁.ctl + transfers ins vm₁.ctl vm₂.ctl = n ∧
                  vm₂ = vm := by simpa using hrest
              exact .round (ih hcount) hp hhead hp₁ hins hbody
            · simp [vmPanic] at hrest

end Runs

def loopModule (op : JelloOp) : JelloBcModule :=
  { tailTryModule with
    types := [⟨.bool, 0⟩]
    funcs :=
      [{ regTypes := [0]
         capStart := 0
         insns := [{ op := .constBool, a := 0, b := 0, c := 1, imm := 0 },
           { op := op, a := 0, b := 0, c := 0, imm := 0xffffffff },
           { op := .ret, a := 0, b := 0, c := 0, imm := 0 }]
         sourceFile := 0
         lines := [] }] }

/-- `jello_vm_set_fuel` on a new machine. -/
def fuelledVm (fuel : UInt64) : VM :=
  jelloVmCreate.setStore { jelloVmCreate.store with fuelLimit := fuel, fuelRemaining := fuel }

theorem nativesAddNoFuel_alone (m : JelloBcModule) : NativesAddNoFuel (Exec.alone m) :=
  fun _ _ hrun ↦ absurd hrun (not_nativeRun_alone m)

theorem jmp_takesFuel {vm : VM} (h : vm.excHandlers = []) :
    TakesFuel (Exec.alone (loopModule .jmp)) false vm := by
  refine ⟨fun _ g hs fr hw ↦ ?_, fun ins hins ↦ ?_, fun ins fr frs npc hins _ hto _ ↦ ?_⟩
  · rw [h] at hw
    exact Option.noConfusion rfl (heq_of_eq hw)
  · obtain ⟨fn, hfn, hmem⟩ := nextInsn_mem hins
    have hno : (Exec.alone (loopModule .jmp)).m.NoTail := by decide
    exact hno fn hfn ins hmem
  · obtain ⟨fn, hfn, hmem⟩ := nextInsn_mem hins
    have hall : ∀ fn ∈ (loopModule .jmp).funcs, ∀ ins ∈ fn.insns,
        (ins.op = .jmp ∧ i32 ins.imm < 0) ∨ ins.op.jumps = false := by decide
    obtain hjmp | hno := hall fn hfn ins hmem
    · exact ⟨hjmp.1, hjmp.2, rfl⟩
    · rw [jumpsTo_eq_none (by simpa [JelloOp.jumps, and_assoc] using hno)] at hto
      exact Option.noConfusion rfl (heq_of_eq hto)

end JelloVM
