import JelloVM.Jit.Sites
import JelloVM.InlineAgree
import JelloVM.OpSpec.Container

namespace JelloVM

open ByteMemory Logged

/-- `jello_jit_exit` -/
inductive JitExit
  | continue_
  | yield
  | returned
  | trap
  deriving DecidableEq, Repr

/-- The instruction that a helper makes up for a handler of the interpreter. -/
def helperInsn (op : JelloOp) (a b c : ℕ) (imm : UInt32) : JelloInsn :=
  { op := op, a := UInt8.ofNat a, b := UInt8.ofNat b, c := UInt8.ofNat c, imm := imm }

/-- A handler that reports its traps as pending exceptions only. -/
def continuing (x : StoreM Unit) : StoreM OpResult := do
  x
  pure .continue_

/-- The exit of a helper that looks at the result of the handler. -/
def exitOfResult (r : OpResult) : JitExit := if r = .trap then .trap else .continue_

/-- The exit of a helper that looks at the pending exception too. -/
def exitOfPending (r : OpResult) : StoreM JitExit := do
  let pending ← read Store.excPending
  pure (if r = .trap ∨ pending then .trap else .continue_)

section Helpers

variable (ctx : Ctx)

def jitTrap (code : TrapCode) (msg : String) : StoreM JitExit := do
  jelloVmTrap ctx code msg
  pure .trap

def jitBytesLen (dst bytesReg : ℕ) : StoreM JitExit := do
  let p ← vmLoadPtr ctx.rf bytesReg
  if p = 0 then jitTrap ctx .nullDeref "bytes_len on null"
  else do
    let b ← bytesAt p
    vmStoreU32 ctx.rf dst b.length
    pure .continue_

def jitBytesEq (dst aReg bReg : ℕ) : StoreM JitExit := do
  let r ← continuing (opBytesEq ctx (helperInsn .bytesEq dst aReg bReg 0))
  pure (exitOfResult r)

def jitBytesGetU8 (dst bytesReg idxReg : ℕ) : StoreM JitExit := do
  let p ← vmLoadPtr ctx.rf bytesReg
  if p = 0 then jitTrap ctx .nullDeref "bytes_get_u8 on null"
  else do
    let b ← bytesAt p
    let idx ← vmLoadU32 ctx.rf idxReg
    if b.length ≤ idx then jitTrap ctx .bounds "bytes_get_u8 index out of bounds"
    else do
      vmStoreU32 ctx.rf dst (b.data idx.toNat).toUInt32
      pure .continue_

def jitBytesSetU8 (valReg bytesReg idxReg : ℕ) : StoreM JitExit := do
  let p ← vmLoadPtr ctx.rf bytesReg
  if p = 0 then jitTrap ctx .nullDeref "bytes_set_u8 on null"
  else do
    let b ← bytesAt p
    let idx ← vmLoadU32 ctx.rf idxReg
    if b.length ≤ idx then jitTrap ctx .bounds "bytes_set_u8 index out of bounds"
    else do
      let v ← vmLoadU32 ctx.rf valReg
      if 255 < v then jitTrap ctx .bounds "bytes_set_u8 value out of range"
      else do
        writeCell p (.bytes (b.write idx.toNat 1 fun _ ↦ v.toUInt8))
        pure .continue_

/-- `jit_invoke_bytes_read` -/
def bytesReadOp : JirBytesKind → Ctx → JelloInsn → StoreM Unit
  | .u16Le => opBytesReadU16Le
  | .u16Be => opBytesReadU16Be
  | .u32Le => opBytesReadU32Le
  | .u32Be => opBytesReadU32Be
  | .i32Le => opBytesReadI32Le
  | .i32Be => opBytesReadI32Be
  | .f32Le => opBytesReadF32Le
  | .f32Be => opBytesReadF32Be

/-- `jit_invoke_bytes_write` -/
def bytesWriteOp : JirBytesKind → Ctx → JelloInsn → StoreM Unit
  | .u16Le => opBytesWriteU16Le
  | .u16Be => opBytesWriteU16Be
  | .u32Le => opBytesWriteU32Le
  | .u32Be => opBytesWriteU32Be
  | .i32Le => opBytesWriteI32Le
  | .i32Be => opBytesWriteI32Be
  | .f32Le => opBytesWriteF32Le
  | .f32Be => opBytesWriteF32Be

def jitBytesRead (dst bytesReg offReg : ℕ) (kind : JirBytesKind) : StoreM JitExit := do
  let r ← continuing (bytesReadOp kind ctx (helperInsn .bytesReadU16Le dst bytesReg offReg 0))
  pure (exitOfResult r)

def jitBytesWrite (valReg bytesReg offReg : ℕ) (kind : JirBytesKind) : StoreM JitExit := do
  let r ← continuing (bytesWriteOp kind ctx (helperInsn .bytesWriteU16Le valReg bytesReg offReg 0))
  pure (exitOfResult r)

def jitArrayLen (dst arrayReg : ℕ) : StoreM JitExit := do
  let p ← vmLoadPtr ctx.rf arrayReg
  if p = 0 then jitTrap ctx .nullDeref "array_len on null"
  else do
    let a ← arrayAt p
    vmStoreU32 ctx.rf dst a.length
    pure .continue_

def jitArrayGet (dst arrayReg idxReg : ℕ) : StoreM JitExit := do
  let p ← vmLoadPtr ctx.rf arrayReg
  if p = 0 then jitTrap ctx .nullDeref "array_get on null"
  else do
    let a ← arrayAt p
    let idx ← vmLoadU32 ctx.rf idxReg
    if a.length ≤ idx then jitTrap ctx .bounds "array_get index out of bounds"
    else do
      vmStoreFromBoxed ctx.m ctx.fpu ctx.f ctx.rf dst (a.data idx.toNat)
      pure .continue_

def jitArraySet (valReg arrayReg idxReg : ℕ) : StoreM JitExit := do
  let p ← vmLoadPtr ctx.rf arrayReg
  if p = 0 then jitTrap ctx .nullDeref "array_set on null"
  else do
    let a ← arrayAt p
    let idx ← vmLoadU32 ctx.rf idxReg
    if a.length ≤ idx then jitTrap ctx .bounds "array_set index out of bounds"
    else do
      storeElem ctx valReg p a idx
      pure .continue_

def jitArrayNew (dst lenReg : ℕ) : StoreM JitExit :=
  if 255 < dst ∨ 255 < lenReg then pure .trap
  else do
    let r ← continuing (opArrayNew ctx (helperInsn .arrayNew dst lenReg 0 0))
    exitOfPending r

def jitBytesNew (dst lenReg : ℕ) : StoreM JitExit :=
  if 255 < dst ∨ 255 < lenReg then pure .trap
  else do
    let r ← continuing (opBytesNew ctx (helperInsn .bytesNew dst lenReg 0 0))
    exitOfPending r

/-- The helpers for objects look up the atom without a hint. -/
def jitObjGetAtom (dst objReg : ℕ) (atomId : UInt32) : StoreM JitExit := do
  let ok ← vmObjGetAtomTyped ctx dst objReg atomId 0
  pure (if ok then .continue_ else .trap)

def jitObjSetAtom (valReg objReg : ℕ) (atomId : UInt32) : StoreM JitExit := do
  let ok ← vmObjSetAtomTyped ctx valReg objReg atomId 0
  pure (if ok then .continue_ else .trap)

def jitAssert (condReg msgReg hasMsg : ℕ) : StoreM JitExit :=
  if 255 < condReg then pure .trap
  else do
    let r ← opAssert ctx (helperInsn .assert condReg msgReg hasMsg 0)
    exitOfPending r

def jitConstBytes (dst : ℕ) (idx : UInt32) : StoreM JitExit :=
  if 255 < dst then pure .trap
  else do
    let cache ← read Store.constBytesCache
    if cache.length ≤ idx.toNat ∨ ctx.m.constBytes.length ≤ idx.toNat then pure .trap
    else do
      note (.entry .constBytesCache idx.toNat cache.length)
      if cache.getD idx.toNat 0 ≠ 0 then do
        vmStorePtr ctx.rf dst (cache.getD idx.toNat 0)
        pure .continue_
      else do
        note (.entry .constBytes idx.toNat ctx.m.constBytes.length)
        let payload := ctx.m.constBytes.getD idx.toNat []
        let typeId ← regTypeOf ctx.m ctx.f dst
        let b ← jelloBytesNew typeId (UInt32.ofNat payload.length) fun i ↦ payload.getD i 0
        change fun s ↦ { s with constBytesCache := s.constBytesCache.set idx.toNat b }
        vmStorePtr ctx.rf dst b
        pure .continue_

def jitClosure (dst firstCap ncaps : ℕ) (funcIndex : UInt32) : StoreM JitExit :=
  if 255 < dst ∨ 255 < firstCap ∨ 255 < ncaps then pure .trap
  else do
    let r ← continuing (opClosure ctx (helperInsn .closure dst firstCap ncaps funcIndex))
    exitOfPending r

def jitConv (dst src : ℕ) (kind : JirConv) : StoreM JitExit :=
  if 255 < dst ∨ 255 < src then pure .trap
  else do
    let rf := ctx.rf
    let fpu := ctx.fpu
    match kind with
    | .sextI64 => do
      let x ← vmLoadU32 rf src
      vmStoreI64 rf dst (sextI64 x)
      pure .continue_
    | .sextI16 => do
      let x ← vmLoadU32 rf src
      vmStoreU32 rf dst (sext8 x)
      pure .continue_
    | .truncI8 => do
      let x ← vmLoadU32 rf src
      vmStoreU32Masked rf dst x .i8
      pure .continue_
    | .truncI16 => do
      let x ← vmLoadU32 rf src
      vmStoreU32Masked rf dst x .i16
      pure .continue_
    | .i32FromI64 => do
      let x ← vmLoadI64 rf src
      vmStoreU32 rf dst x.toUInt32
      pure .continue_
    | .f64FromI32 => do
      let x ← vmLoadU32 rf src
      vmStoreF64 rf dst (fpu.f64FromI32 x)
      pure .continue_
    | .i32FromF64 => do
      let x ← vmLoadF64 rf src
      match ← vmCheckedF64ToI32 fpu x with
      | some v => do
        vmStoreU32 rf dst v
        pure .continue_
      | none => pure .trap
    | .f64FromI64 => do
      let x ← vmLoadI64 rf src
      vmStoreF64 rf dst (fpu.f64FromI64 x)
      pure .continue_
    | .i64FromF64 => do
      let x ← vmLoadF64 rf src
      match ← vmCheckedF64ToI64 fpu x with
      | some v => do
        vmStoreI64 rf dst v
        pure .continue_
      | none => pure .trap
    | .f32FromI32 => do
      let x ← vmLoadU32 rf src
      vmStoreF32 rf dst (fpu.f32FromI32 x)
      pure .continue_
    | .i32FromF32 => do
      let x ← vmLoadF32 rf src
      match ← vmCheckedF64ToI32 fpu (fpu.f64FromF32 x) with
      | some v => do
        vmStoreU32 rf dst v
        pure .continue_
      | none => pure .trap
    | .f64FromF32 => do
      let x ← vmLoadF32 rf src
      vmStoreF64 rf dst (fpu.f64FromF32 x)
      pure .continue_
    | .f32FromF64 => do
      let x ← vmLoadF64 rf src
      vmStoreF32 rf dst (fpu.f32FromF64 x)
      pure .continue_
    | .f32FromI64 => do
      let x ← vmLoadI64 rf src
      vmStoreF32 rf dst (fpu.f32FromI64 x)
      pure .continue_
    | .i64FromF32 => do
      let x ← vmLoadF32 rf src
      match ← vmCheckedF64ToI64 fpu (fpu.f64FromF32 x) with
      | some v => do
        vmStoreI64 rf dst v
        pure .continue_
      | none => pure .trap

/-- The helper that the code of a site calls, with the arguments that it passes. -/
def jitHelper (x : JirInsn) : Option (StoreM JitExit) :=
  match x.op with
  | .bytesNew => some (jitBytesNew ctx x.a x.b)
  | .bytesLen => some (jitBytesLen ctx x.a x.b)
  | .bytesEq => some (jitBytesEq ctx x.a x.b x.c)
  | .bytesGetU8 => some (jitBytesGetU8 ctx x.a x.b x.c)
  | .bytesSetU8 => some (jitBytesSetU8 ctx x.a x.b x.c)
  | .bytesRead kind => some (jitBytesRead ctx x.a x.b x.c kind)
  | .bytesWrite kind => some (jitBytesWrite ctx x.a x.b x.c kind)
  | .arrayLen => some (jitArrayLen ctx x.a x.b)
  | .arrayGet => some (jitArrayGet ctx x.a x.b x.c)
  | .arraySet => some (jitArraySet ctx x.a x.b x.c)
  | .arrayNew => some (jitArrayNew ctx x.a x.b)
  | .objGetAtom => some (jitObjGetAtom ctx x.a x.b x.imm)
  | .objSetAtom => some (jitObjSetAtom ctx x.a x.b x.imm)
  | .assert => some (jitAssert ctx x.a x.b x.c)
  | .constBytes => some (jitConstBytes ctx x.a x.imm)
  | .closure => some (jitClosure ctx x.a x.b x.c x.imm)
  | .conv kind => some (jitConv ctx x.a x.b kind)
  | _ => none

end Helpers

/-- What the interpreter does for an instruction that a helper may be called for. -/
def vmInsn (ctx : Ctx) (ins : JelloInsn) : StoreM Unit :=
  if ins.op = .assert then do
    let _ ← opAssert ctx ins
    pure ()
  else dataOp ins.op ctx ins

section Mirrors

variable {h : StoreM JitExit} {x : StoreM Unit} {s : Store}

/-- The helper stops where the interpreter does; it exits with a trap where the interpreter
raises one, which is then the same, and continues with the same store where it does not. -/
structure HelperAgrees (h : StoreM JitExit) (x : StoreM Unit) (s : Store) : Prop where
  fault : ∀ e, result h s = .error e ↔ result x s = .error e
  trap : ∀ e s₁ s₂, result h s = .ok (e, s₁) → result x s = .ok ((), s₂) →
    s₂.excPending = true → e = .trap ∧ s₁.excPending = true ∧ s₁.trapCode = s₂.trapCode
  same : ∀ e s₁ s₂, result h s = .ok (e, s₁) → result x s = .ok ((), s₂) →
    s₂.excPending = false → e = .continue_ ∧ s₁ = s₂

def exitOf (s : Store) : JitExit := if s.excPending then .trap else .continue_

/-- The helper makes the steps of the handler and exits as the exception flag says. -/
def MirrorsAt (h : StoreM JitExit) (x : StoreM Unit) (s : Store) : Prop :=
  result h s = (result x s).map fun r ↦ (exitOf r.2, r.2)

def Mirrors (h : StoreM JitExit) (x : StoreM Unit) : Prop :=
  ∀ s : Store, s.excPending = false → MirrorsAt h x s

theorem MirrorsAt.agrees (hm : MirrorsAt h x s) : HelperAgrees h x s := by
  unfold MirrorsAt at hm
  cases hx : result x s with
  | error e =>
    rw [hx] at hm
    have hh : result h s = .error e := hm
    refine ⟨fun e' ↦ by simp [hh, hx], fun e' s₁ s₂ _ hs₂ ↦ ?_, fun e' s₁ s₂ _ hs₂ ↦ ?_⟩
    · rw [hx] at hs₂
      exact Except.noConfusion rfl rfl (heq_of_eq hs₂)
    · rw [hx] at hs₂
      exact Except.noConfusion rfl rfl (heq_of_eq hs₂)
  | ok r =>
    obtain ⟨⟨⟩, s'⟩ := r
    rw [hx] at hm
    have hh : result h s = .ok (exitOf s', s') := hm
    refine ⟨fun e' ↦ by simp [hh, hx], ?_, ?_⟩
    · intro e s₁ s₂ h₁ h₂ hp
      rw [hh, Except.ok.injEq, Prod.mk.injEq] at h₁
      rw [hx, Except.ok.injEq, Prod.mk.injEq] at h₂
      obtain ⟨rfl, rfl⟩ := h₁
      obtain ⟨-, rfl⟩ := h₂
      exact ⟨by simp [exitOf, hp], hp, rfl⟩
    · intro e s₁ s₂ h₁ h₂ hp
      rw [hh, Except.ok.injEq, Prod.mk.injEq] at h₁
      rw [hx, Except.ok.injEq, Prod.mk.injEq] at h₂
      obtain ⟨rfl, rfl⟩ := h₁
      obtain ⟨-, rfl⟩ := h₂
      exact ⟨by simp [exitOf, hp], rfl⟩

theorem MirrorsAt.congr {x' : StoreM Unit} (hm : MirrorsAt h x s)
    (hx : result x s = result x' s) : MirrorsAt h x' s := by
  unfold MirrorsAt
  rw [← hx]
  exact hm

theorem mirrors_trap (ctx : Ctx) (code : TrapCode) (msg : String) :
    Mirrors (jitTrap ctx code msg) (jelloVmTrap ctx code msg) := fun _ _ ↦ rfl

theorem mirrorsAt_bind {α : Type} {y : StoreM α} {f : α → StoreM JitExit} {g : α → StoreM Unit}
    (hs : s.excPending = false) (hy : Keeps (fun _ ↦ True) Still y)
    (hf : ∀ a s', result y s = .ok (a, s') → s'.excPending = false → MirrorsAt (f a) (g a) s') :
    MirrorsAt (y >>= f) (y >>= g) s := by
  unfold MirrorsAt
  rw [result_bind, result_bind]
  cases hr : result y s with
  | error e => rfl
  | ok r =>
    have hstill : Still s r.2 := (hy s).2 r.1 r.2 hr
    exact hf r.1 r.2 hr (hstill.trap.pending.trans hs)

theorem mirrors_bind {α : Type} {y : StoreM α} {f : α → StoreM JitExit} {g : α → StoreM Unit}
    (hy : Keeps (fun _ ↦ True) Still y) (hf : ∀ a, Mirrors (f a) (g a)) :
    Mirrors (y >>= f) (y >>= g) :=
  fun _ hs ↦ mirrorsAt_bind hs hy fun a s' _ hs' ↦ hf a s' hs'

theorem mirrors_ite {c : Prop} [Decidable c] {h' : StoreM JitExit} {x' : StoreM Unit}
    (ht : c → Mirrors h x) (hf : ¬ c → Mirrors h' x') :
    Mirrors (if c then h else h') (if c then x else x') := by
  split_ifs with hc
  · exact ht hc
  · exact hf hc

theorem mirrors_done (hx : Keeps (fun _ ↦ True) Still x) :
    Mirrors (do x; pure .continue_) x := by
  intro s hs
  unfold MirrorsAt
  rw [result_bind]
  cases hr : result x s with
  | error e => rfl
  | ok r =>
    have hstill : Still s r.2 := (hx s).2 r.1 r.2 hr
    have hp : r.2.excPending = false := hstill.trap.pending.trans hs
    simp [Except.bind, Except.map, exitOf, hp]

theorem mirrors_silent (hx : Keeps (fun _ ↦ True) Still x) :
    Mirrors (do let r ← continuing x; pure (exitOfResult r)) x := by
  have hexit : (do let r ← continuing x; pure (exitOfResult r) : StoreM JitExit) =
      (do x; pure .continue_) := by
    unfold continuing
    rw [bind_assoc]
    rfl
  rw [hexit]
  exact mirrors_done hx

theorem result_exitOfPending (r : OpResult) (s : Store) :
    result (exitOfPending r) s =
      .ok (if r = .trap ∨ s.excPending = true then .trap else .continue_, s) := rfl

theorem mirrors_pending (x : StoreM Unit) :
    Mirrors (do let r ← continuing x; exitOfPending r) x := by
  intro s hs
  unfold MirrorsAt continuing
  rw [result_bind, result_bind]
  cases hr : result x s with
  | error e => rfl
  | ok r =>
    obtain ⟨⟨⟩, s'⟩ := r
    simp [Except.bind, Except.map, exitOf, result_exitOfPending]

theorem mirrors_reported {y : StoreM OpResult}
    (hy : ∀ s : Store, s.excPending = false →
      Ends y (fun r s' ↦ r = .trap → s'.excPending = true) s) :
    Mirrors (do let r ← y; exitOfPending r) (do let _ ← y; pure ()) := by
  intro s hs
  unfold MirrorsAt
  rw [result_bind, result_bind]
  cases hr : result y s with
  | error e => rfl
  | ok r =>
    have hp := (hy s hs).2 r.1 r.2 hr
    simp only [Except.bind, Except.map, exitOf, result_exitOfPending, result_pure]
    by_cases ht : r.1 = .trap
    · simp [ht, hp ht]
    · simp [ht]

theorem mirrors_answered {y : StoreM Bool}
    (hy : ∀ s : Store, s.excPending = false →
      Ends y (fun ok s' ↦ s'.excPending = !ok) s) :
    Mirrors (do let ok ← y; pure (if ok then .continue_ else .trap)) (do let _ ← y; pure ()) := by
  intro s hs
  unfold MirrorsAt
  rw [result_bind, result_bind]
  cases hr : result y s with
  | error e => rfl
  | ok r =>
    have hp := (hy s hs).2 r.1 r.2 hr
    simp only [Except.bind, Except.map, exitOf, result_pure, hp]
    cases r.1 <;> rfl

theorem mirrors_checked {α : Type} {y : StoreM (Option α)} {f : Option α → StoreM JitExit}
    {g : Option α → StoreM Unit}
    (hy : ∀ s : Store, s.excPending = false → Ends y (fun o s' ↦ s'.excPending = !o.isSome) s)
    (hsome : ∀ v, Mirrors (f (some v)) (g (some v))) (hf : f none = pure .trap)
    (hg : g none = pure ()) : Mirrors (y >>= f) (y >>= g) := by
  intro s hs
  unfold MirrorsAt
  rw [result_bind, result_bind]
  cases hr : result y s with
  | error e => rfl
  | ok r =>
    obtain ⟨o, s'⟩ := r
    have hp : s'.excPending = !o.isSome := (hy s hs).2 o s' hr
    cases o with
    | some v => exact hsome v s' hp
    | none =>
      have hp' : s'.excPending = true := hp
      simp [Except.bind, Except.map, hf, hg, exitOf, hp']

theorem agrees_continuing :
    HelperAgrees (do let r ← continuing x; pure (exitOfResult r)) x s ↔
      Ends x (fun _ s' ↦ s'.excPending = false) s := by
  have hh : result (do let r ← continuing x; pure (exitOfResult r) : StoreM JitExit) s =
      (result x s).map fun r ↦ (.continue_, r.2) := by
    unfold continuing
    rw [result_bind, result_bind]
    cases hr : result x s with
    | error e => rfl
    | ok r => rfl
  rw [ends_iff]
  constructor
  · intro ha u s' hr
    cases hp : s'.excPending with
    | false => rfl
    | true =>
      have htrap := ha.trap .continue_ s' s' (by rw [hh, hr]; rfl) hr hp
      exact absurd htrap.1 (by decide)
  · intro ha
    refine ⟨fun e ↦ ?_, fun e s₁ s₂ _ h₂ hp ↦ ?_, fun e s₁ s₂ h₁ h₂ _ ↦ ?_⟩
    · rw [hh]
      cases hr : result x s with
      | error e' => simp [Except.map]
      | ok r => simp [Except.map]
    · rw [ha () s₂ h₂] at hp
      exact absurd hp (by decide)
    · rw [hh, h₂] at h₁
      simp only [Except.map, Except.ok.injEq, Prod.mk.injEq] at h₁
      exact ⟨h₁.1.symm, h₁.2.symm⟩

end Mirrors

section Agreement

variable (ctx : Ctx) (ins : JelloInsn)

theorem helperInsn_ra (op : JelloOp) (b c : ℕ) (imm : UInt32) :
    (helperInsn op ins.ra b c imm).ra = ins.ra := by
  simp [helperInsn, JelloInsn.ra]

theorem helperInsn_rb (op : JelloOp) (a c : ℕ) (imm : UInt32) :
    (helperInsn op a ins.rb c imm).rb = ins.rb := by
  simp [helperInsn, JelloInsn.rb]

theorem helperInsn_rc (op : JelloOp) (a b : ℕ) (imm : UInt32) :
    (helperInsn op a b ins.rc imm).rc = ins.rc := by
  simp [helperInsn, JelloInsn.rc]

theorem helperInsn_c (op : JelloOp) (a b : ℕ) (imm : UInt32) :
    (helperInsn op a b ins.rc imm).c = ins.c := by
  simp [helperInsn, JelloInsn.rc]

theorem mirrors_bytesLen : Mirrors (jitBytesLen ctx ins.ra ins.rb) (opBytesLen ctx ins) := by
  refine mirrors_bind (keeps_vmLoad64 trivial) fun p ↦
    mirrors_ite (fun _ ↦ mirrors_trap ctx _ _) fun _ ↦ mirrors_bind (keeps_bytesAt p) fun b ↦ ?_
  exact mirrors_done (keeps_vmStoreU32 trivial _)

theorem mirrors_bytesGetU8 :
    Mirrors (jitBytesGetU8 ctx ins.ra ins.rb ins.rc) (opBytesGetU8 ctx ins) := by
  refine mirrors_bind (keeps_vmLoad64 trivial) fun p ↦
    mirrors_ite (fun _ ↦ mirrors_trap ctx _ _) fun _ ↦ mirrors_bind (keeps_bytesAt p) fun b ↦
    mirrors_bind (keeps_vmLoadU32 trivial) fun idx ↦
    mirrors_ite (fun _ ↦ mirrors_trap ctx _ _) fun _ ↦ ?_
  exact mirrors_done (keeps_vmStoreU32 trivial _)

theorem mirrors_bytesSetU8 :
    Mirrors (jitBytesSetU8 ctx ins.ra ins.rb ins.rc) (opBytesSetU8 ctx ins) := by
  refine mirrors_bind (keeps_vmLoad64 trivial) fun p ↦
    mirrors_ite (fun _ ↦ mirrors_trap ctx _ _) fun _ ↦ mirrors_bind (keeps_bytesAt p) fun b ↦
    mirrors_bind (keeps_vmLoadU32 trivial) fun idx ↦
    mirrors_ite (fun _ ↦ mirrors_trap ctx _ _) fun _ ↦
    mirrors_bind (keeps_vmLoadU32 trivial) fun v ↦
    mirrors_ite (fun _ ↦ mirrors_trap ctx _ _) fun _ ↦ ?_
  exact mirrors_done (keeps_writeCell _ _)

theorem mirrors_arrayLen : Mirrors (jitArrayLen ctx ins.ra ins.rb) (opArrayLen ctx ins) := by
  refine mirrors_bind (keeps_vmLoad64 trivial) fun p ↦
    mirrors_ite (fun _ ↦ mirrors_trap ctx _ _) fun _ ↦ mirrors_bind (keeps_arrayAt p) fun a ↦ ?_
  exact mirrors_done (keeps_vmStoreU32 trivial _)

theorem regs_fit : ¬ 255 < ins.ra ∧ ¬ 255 < ins.rb ∧ ¬ 255 < ins.rc := by
  have ha := ins.a.toNat_lt
  have hb := ins.b.toNat_lt
  have hc := ins.c.toNat_lt
  simp only [JelloInsn.ra, JelloInsn.rb, JelloInsn.rc]
  omega

theorem mirrors_arrayNew : Mirrors (jitArrayNew ctx ins.ra ins.rb) (opArrayNew ctx ins) := by
  obtain ⟨ha, hb, -⟩ := regs_fit ins
  have hsame : opArrayNew ctx (helperInsn .arrayNew ins.ra ins.rb 0 0) = opArrayNew ctx ins := by
    simp only [opArrayNew, helperInsn_ra, helperInsn_rb]
  unfold jitArrayNew
  rw [if_neg (by tauto), hsame]
  exact mirrors_pending _

theorem mirrors_bytesNew : Mirrors (jitBytesNew ctx ins.ra ins.rb) (opBytesNew ctx ins) := by
  obtain ⟨ha, hb, -⟩ := regs_fit ins
  have hsame : opBytesNew ctx (helperInsn .bytesNew ins.ra ins.rb 0 0) = opBytesNew ctx ins := by
    simp only [opBytesNew, helperInsn_ra, helperInsn_rb]
  unfold jitBytesNew
  rw [if_neg (by tauto), hsame]
  exact mirrors_pending _

theorem mirrors_closure :
    Mirrors (jitClosure ctx ins.ra ins.rb ins.rc ins.imm) (opClosure ctx ins) := by
  obtain ⟨ha, hb, hc⟩ := regs_fit ins
  have himm : (helperInsn .closure ins.ra ins.rb ins.rc ins.imm).imm = ins.imm := rfl
  have hsame : opClosure ctx (helperInsn .closure ins.ra ins.rb ins.rc ins.imm) =
      opClosure ctx ins := by
    simp only [opClosure, helperInsn_ra, helperInsn_rb, helperInsn_rc, himm]
  unfold jitClosure
  rw [if_neg (by tauto), hsame]
  exact mirrors_pending _

theorem ends_opAssert_trap (s : Store) :
    Ends (opAssert ctx ins) (fun r s' ↦ r = .trap → s'.excPending = true) s := by
  simp only [opAssert, spec_bind, spec_vmLoadU32, spec_ite, spec_pure, spec_setTrap, implies_true,
    and_true, true_and, reduceCtorEq, false_implies]
  refine fun _ _ ↦ spec_vmBoxFromTyped ⟨trivial, trivial, trivial⟩ fun v heap _ ↦ ?_
  refine spec_cellAt fun c _ ↦ ?_
  cases c <;> simp

theorem mirrors_assert : Mirrors (jitAssert ctx ins.ra ins.rb ins.rc)
    (do let _ ← opAssert ctx ins; pure ()) := by
  have hsame : opAssert ctx (helperInsn .assert ins.ra ins.rb ins.rc 0) = opAssert ctx ins := by
    simp only [opAssert, helperInsn_ra, helperInsn_rb, helperInsn_c]
  unfold jitAssert
  rw [if_neg (regs_fit ins).1, hsame]
  exact mirrors_reported fun s _ ↦ ends_opAssert_trap ctx ins s

theorem ends_vmCheckedF64 {α : Type} (fpu : Fpu) (msg : String) (hi lo : UInt64)
    (cast : UInt64 → α) (x : UInt64) {s : Store} (hs : s.excPending = false) :
    Ends (vmCheckedF64 fpu msg hi lo cast x) (fun o s' ↦ s'.excPending = !o.isSome) s := by
  simp [vmCheckedF64, spec_ite, spec_setTrap, hs]

/-- The instruction that is lowered to a conversion. -/
def JirConv.op : JirConv → JelloOp
  | .sextI64 => .sextI64
  | .sextI16 => .sextI16
  | .truncI8 => .truncI8
  | .truncI16 => .truncI16
  | .i32FromI64 => .i32FromI64
  | .f64FromI32 => .f64FromI32
  | .i32FromF64 => .i32FromF64
  | .f64FromI64 => .f64FromI64
  | .i64FromF64 => .i64FromF64
  | .f32FromI32 => .f32FromI32
  | .i32FromF32 => .i32FromF32
  | .f64FromF32 => .f64FromF32
  | .f32FromF64 => .f32FromF64
  | .f32FromI64 => .f32FromI64
  | .i64FromF32 => .i64FromF32

theorem mirrors_conv (kind : JirConv) :
    Mirrors (jitConv ctx ins.ra ins.rb kind) (dataOp kind.op ctx ins) := by
  obtain ⟨ha, hb, -⟩ := regs_fit ins
  unfold jitConv
  rw [if_neg (by tauto)]
  have hi32 (x : UInt64) (s : Store) (hs : s.excPending = false) :
      Ends (vmCheckedF64ToI32 ctx.fpu x) (fun o s' ↦ s'.excPending = !o.isSome) s :=
    ends_vmCheckedF64 _ _ _ _ _ _ hs
  have hi64 (x : UInt64) (s : Store) (hs : s.excPending = false) :
      Ends (vmCheckedF64ToI64 ctx.fpu x) (fun o s' ↦ s'.excPending = !o.isSome) s :=
    ends_vmCheckedF64 _ _ _ _ _ _ hs
  cases kind
  case i32FromF64 =>
    exact mirrors_bind (keeps_vmLoad64 trivial) fun x ↦ mirrors_checked (hi32 x)
      (fun v ↦ mirrors_done (keeps_vmStoreU32 trivial _)) rfl rfl
  case i64FromF64 =>
    exact mirrors_bind (keeps_vmLoad64 trivial) fun x ↦ mirrors_checked (hi64 x)
      (fun v ↦ mirrors_done (keeps_vmStore64 trivial _)) rfl rfl
  case i32FromF32 =>
    exact mirrors_bind (keeps_vmLoadU32 trivial) fun x ↦ mirrors_checked (hi32 _)
      (fun v ↦ mirrors_done (keeps_vmStoreU32 trivial _)) rfl rfl
  case i64FromF32 =>
    exact mirrors_bind (keeps_vmLoadU32 trivial) fun x ↦ mirrors_checked (hi64 _)
      (fun v ↦ mirrors_done (keeps_vmStore64 trivial _)) rfl rfl
  case sextI64 | f64FromI32 | f64FromF32 =>
    exact mirrors_bind (keeps_vmLoadU32 trivial) fun x ↦
      mirrors_done (keeps_vmStore64 trivial _)
  case sextI16 | truncI8 | truncI16 | f32FromI32 =>
    exact mirrors_bind (keeps_vmLoadU32 trivial) fun x ↦
      mirrors_done (keeps_vmStoreU32 trivial _)
  case i32FromI64 | f32FromF64 | f32FromI64 =>
    exact mirrors_bind (keeps_vmLoad64 trivial) fun x ↦
      mirrors_done (keeps_vmStoreU32 trivial _)
  case f64FromI64 =>
    exact mirrors_bind (keeps_vmLoad64 trivial) fun x ↦ mirrors_done (keeps_vmStore64 trivial _)

theorem isPtr_others {v : JelloValue} (h : jelloIsPtr v = true) :
    jelloIsI32 v = false ∧ jelloIsNull v = false := by
  simp only [jelloIsPtr, jelloIsI32, jelloIsNull, hasTag] at h ⊢
  simp_all [JelloTag.code]

theorem result_cellAt {p : JelloValue} {c : Cell} {s : Store} (hc : s.heap.cells p = some c) :
    result (cellAt p) s = .ok (c, s) := by
  simp [cellAt, hc, Except.bind]

theorem result_cellAt_none {p : JelloValue} {s : Store} (hc : s.heap.cells p = none) :
    result (cellAt p) s = .error .wild := by
  simp [cellAt, hc, Except.bind, wild]

def Cell.f64 : Cell → Option UInt64
  | .boxF64 _ x => some x
  | _ => none

theorem result_boxF64At {v : JelloValue} {c : Cell} {s : Store} (hp : jelloIsPtr v = true)
    (hc : s.heap.cells v = some c) : result (boxF64At v) s = .ok (c.f64, s) := by
  simp only [boxF64At, hp, Bool.not_true, Bool.false_eq_true, if_false, result_bind,
    result_cellAt hc, Except.bind]
  cases c <;> rfl

theorem result_boxF64At_none {v : JelloValue} {s : Store} (hp : jelloIsPtr v = true)
    (hc : s.heap.cells v = none) : result (boxF64At v) s = .error .wild := by
  simp only [boxF64At, hp, Bool.not_true, Bool.false_eq_true, if_false, result_bind,
    result_cellAt_none hc, Except.bind]

theorem result_boxF64At_tagged {v : JelloValue} {s : Store} (hp : jelloIsPtr v = false) :
    result (boxF64At v) s = .ok (none, s) := by
  simp [boxF64At, hp]

theorem vmStoreFromBoxed_f64_none {m : JelloBcModule} {fpu : Fpu} {f r : ℕ} {rf : RegFrame}
    {v : JelloValue} {s : Store} (hk : regKind m f r = .f64) (hp : jelloIsPtr v = true)
    (hc : s.heap.cells v = none) :
    result (vmStoreFromBoxed m fpu f rf r v) s = .error .wild := by
  obtain ⟨hi, hn⟩ := isPtr_others hp
  simp [vmStoreFromBoxed, result_vmRegKind, hk, hi, hn, boxF32At, hp, result_cellAt_none hc,
    Except.bind]

theorem vmStoreFromBoxed_f64 {m : JelloBcModule} {fpu : Fpu} {f r : ℕ} {rf : RegFrame}
    {v : JelloValue} {c : Cell} {x : UInt64} {s : Store} (hk : regKind m f r = .f64)
    (hp : jelloIsPtr v = true) (hc : s.heap.cells v = some c) (hx : c.f64 = some x) :
    result (vmStoreFromBoxed m fpu f rf r v) s = result (vmStoreF64 rf r x) s := by
  obtain ⟨hi, hn⟩ := isPtr_others hp
  cases c <;> simp only [Cell.f64, reduceCtorEq, Option.some.injEq] at hx
  subst hx
  simp [vmStoreFromBoxed, result_vmRegKind, hk, hi, hn, boxF32At, hp, result_cellAt hc,
    result_boxF64At hp hc, Cell.f64, Except.bind]

/-- The case of the interpreter for elements of kind F64 does what the other does. -/
theorem getF64_same (r arr : ℕ) (v : JelloValue) :
    SameResult (vmStoreFromBoxed ctx.m ctx.fpu ctx.f ctx.rf r v)
      (do
        if ← bothF64 ctx r arr then do
          match ← boxF64At v with
          | some x => vmStoreF64 ctx.rf r x
          | none => vmStoreFromBoxed ctx.m ctx.fpu ctx.f ctx.rf r v
        else vmStoreFromBoxed ctx.m ctx.fpu ctx.f ctx.rf r v) := by
  intro s
  rw [result_bind, result_bothF64]
  simp only [Except.bind, decide_eq_true_eq]
  split_ifs with hf
  · rw [result_bind]
    cases hp : jelloIsPtr v with
    | false => rw [result_boxF64At_tagged hp]; rfl
    | true =>
      cases hc : s.heap.cells v with
      | none =>
        rw [result_boxF64At_none hp hc, vmStoreFromBoxed_f64_none hf.1 hp hc]
        rfl
      | some c =>
        rw [result_boxF64At hp hc]
        cases hx : c.f64 with
        | some x => exact vmStoreFromBoxed_f64 hf.1 hp hc hx
        | none => rfl
  · rfl

theorem Mirrors.congr {h : StoreM JitExit} {x x' : StoreM Unit} (hm : Mirrors h x)
    (hx : SameResult x x') : Mirrors h x' := fun s hs ↦ (hm s hs).congr (hx s)

theorem mirrors_arrayGet :
    Mirrors (jitArrayGet ctx ins.ra ins.rb ins.rc) (opArrayGet ctx ins) := by
  refine mirrors_bind (keeps_vmLoad64 trivial) fun p ↦
    mirrors_ite (fun _ ↦ mirrors_trap ctx _ _) fun _ ↦ mirrors_bind (keeps_arrayAt p) fun a ↦
    mirrors_bind (keeps_vmLoadU32 trivial) fun idx ↦
    mirrors_ite (fun _ ↦ mirrors_trap ctx _ _) fun _ ↦ ?_
  have hplain := mirrors_done (keeps_vmStoreFromBoxed (R := Still) (regOk_true ctx.m ctx.f ctx.rf
    ins.ra) ctx.fpu (a.data idx.toNat))
  exact hplain.congr (getF64_same ctx ins.ra ins.rb (a.data idx.toNat))

theorem storeElem_f64 {r : ℕ} {p : JelloValue} {a : JelloArray} {idx : UInt32} {c : Cell}
    {x : UInt64} {s : Store} (hk : regKind ctx.m ctx.f r = .f64)
    (ha : s.heap.cells p = some (.array a)) (hp : jelloIsPtr (a.data idx.toNat) = true)
    (hc : s.heap.cells (a.data idx.toNat) = some c) (hx : c.f64 = some x) :
    result (storeElem ctx r p a idx) s =
      result (do let x ← vmLoadF64 ctx.rf r; setBoxF64 (a.data idx.toNat) x) s := by
  have hne : p ≠ a.data idx.toNat := by
    rintro rfl
    rw [ha] at hc
    cases hc
    exact absurd hx (by simp [Cell.f64])
  have hwrite : a.write idx (a.data idx.toNat) = a := by
    simp [JelloArray.write, Function.update_eq_self]
  simp only [storeElem, vmStoreNumInplace, result_bind, result_vmRegKind, hk, Except.bind,
    result_boxF64At hp hc, hx, result_cellAt hc, setBoxF64, vmLoadF64, vmLoad64, result_note,
    result_read, writeCell, result_change, result_pure, hwrite]
  congr 3
  simp only [Heap.write]
  congr 1
  rw [Function.update_comm hne.symm, ← ha, Function.update_eq_self]

theorem setF64_same (r arr : ℕ) {p : JelloValue} {a : JelloArray} (idx : UInt32) {s : Store}
    (ha : s.heap.cells p = some (.array a)) :
    result (storeElem ctx r p a idx) s =
      result (do
        if ← bothF64 ctx r arr then do
          match ← boxF64At (a.data idx.toNat) with
          | some _ => do
            let x ← vmLoadF64 ctx.rf r
            setBoxF64 (a.data idx.toNat) x
          | none => storeElem ctx r p a idx
        else storeElem ctx r p a idx : StoreM Unit) s := by
  rw [result_bind, result_bothF64]
  simp only [Except.bind, decide_eq_true_eq]
  split_ifs with hf
  · rw [result_bind]
    cases hp : jelloIsPtr (a.data idx.toNat) with
    | false => rw [result_boxF64At_tagged hp]; rfl
    | true =>
      cases hc : s.heap.cells (a.data idx.toNat) with
      | none =>
        rw [result_boxF64At_none hp hc]
        simp only [storeElem, vmStoreNumInplace, result_bind, result_vmRegKind, hf.1, Except.bind,
          result_boxF64At_none hp hc]
      | some c =>
        rw [result_boxF64At hp hc]
        cases hx : c.f64 with
        | some x => exact storeElem_f64 ctx hf.1 ha hp hc hx
        | none => rfl
  · rfl

theorem loaded64 {rf : RegFrame} {r : ℕ} {v : UInt64} {s s' : Store}
    (h : result (vmLoad64 rf r) s = .ok (v, s')) : v = load64 s.mem (rf.addr r) ∧ s' = s := by
  simp only [vmLoad64, result_bind, result_note, result_read, Except.bind, Except.ok.injEq,
    Prod.mk.injEq] at h
  exact ⟨h.1.symm, h.2.symm⟩

theorem loaded32 {rf : RegFrame} {r : ℕ} {v : UInt32} {s s' : Store}
    (h : result (vmLoadU32 rf r) s = .ok (v, s')) : v = load32 s.mem (rf.addr r) ∧ s' = s := by
  simp only [vmLoadU32, result_bind, result_note, result_read, Except.bind, Except.ok.injEq,
    Prod.mk.injEq] at h
  exact ⟨h.1.symm, h.2.symm⟩

theorem result_arrayAt {p : JelloValue} {a : JelloArray} {s s' : Store}
    (h : result (arrayAt p) s = .ok (a, s')) : s' = s ∧ s.heap.cells p = some (.array a) := by
  have hends : Ends (arrayAt p) (fun a s' ↦ s' = s ∧ s.heap.cells p = some (.array a)) s := by
    refine spec_bind.mpr (spec_cellAt fun c hc ↦ ?_)
    cases c
    case array a => exact (spec_pure _).mpr ⟨rfl, hc⟩
    all_goals exact spec_fail _
  exact hends.of_result h

theorem mirrors_arraySet :
    Mirrors (jitArraySet ctx ins.ra ins.rb ins.rc) (opArraySet ctx ins) := by
  refine mirrors_bind (keeps_vmLoad64 trivial) fun p ↦
    mirrors_ite (fun _ ↦ mirrors_trap ctx _ _) fun _ s hs ↦
    mirrorsAt_bind hs (keeps_arrayAt p) fun a s' ha hs' ↦
    mirrorsAt_bind hs' (keeps_vmLoadU32 trivial) fun idx s'' hi hs'' ↦ ?_
  obtain ⟨rfl, ha⟩ := result_arrayAt ha
  obtain ⟨-, rfl⟩ := loaded32 hi
  by_cases hb : a.length ≤ idx
  · rw [if_pos hb, if_pos hb]
    exact mirrors_trap ctx _ _ s'' hs''
  · rw [if_neg hb, if_neg hb]
    have hplain := mirrors_done (keeps_storeElem (R := Still) (regOk_true ctx.m ctx.f ctx.rf
      ins.ra) p a idx)
    exact (hplain s'' hs'').congr (setF64_same ctx ins.ra ins.rb idx ha)

theorem mirrors_bytesEq :
    Mirrors (jitBytesEq ctx ins.ra ins.rb ins.rc) (opBytesEq ctx ins) := by
  have hsame : opBytesEq ctx (helperInsn .bytesEq ins.ra ins.rb ins.rc 0) = opBytesEq ctx ins := by
    simp only [opBytesEq, helperInsn_ra, helperInsn_rb, helperInsn_rc]
  unfold jitBytesEq
  rw [hsame]
  have hstill : Keeps (fun _ ↦ True) Still (opBytesEq ctx ins) := by
    refine keeps_bind (keeps_vmLoad64 trivial) fun pa ↦ keeps_bind (keeps_vmLoad64 trivial)
      fun pb ↦ keeps_ite (fun _ ↦ keeps_vmStoreU32 trivial _) fun _ ↦
      keeps_ite (fun _ ↦ keeps_vmStoreU32 trivial _) fun _ ↦ ?_
    exact keeps_bind (keeps_bytesAt _) fun a ↦ keeps_bind (keeps_bytesAt _) fun b ↦
      keeps_vmStoreU32 trivial _
  exact mirrors_silent hstill

theorem mirrors_constBytes {s : Store} (hs : s.excPending = false)
    (hcache : ins.imm.toNat < s.constBytesCache.length)
    (hpool : ins.imm.toNat < ctx.m.constBytes.length) :
    MirrorsAt (jitConstBytes ctx ins.ra ins.imm) (opConstBytes ctx ins) s := by
  unfold jitConstBytes opConstBytes
  rw [if_neg (regs_fit ins).1]
  refine mirrorsAt_bind hs (keeps_read _) fun cache s' hr hs' ↦ ?_
  simp only [result_read, Except.ok.injEq, Prod.mk.injEq] at hr
  obtain ⟨rfl, rfl⟩ := hr
  rw [if_neg (by omega), if_neg (Nat.not_le.mpr hcache)]
  refine mirrors_bind (keeps_note trivial) (fun _ ↦ mirrors_ite (fun _ ↦ ?_) fun _ ↦ ?_) s hs
  · exact mirrors_done (keeps_vmStore64 trivial _)
  · refine mirrors_bind (keeps_note trivial) fun _ ↦ mirrors_bind (keeps_regTypeOf trivial)
      fun typeId ↦ mirrors_bind (keeps_gcAlloc _) fun b ↦
      mirrors_bind (keeps_change fun _ ↦ ?_) fun _ ↦ mirrors_done (keeps_vmStore64 trivial _)
    exact lenient_data rfl rfl ⟨rfl, rfl, rfl, rfl⟩ rfl

theorem constBytes_disagrees {s : Store} (hs : s.excPending = false)
    (h : s.constBytesCache.length ≤ ins.imm.toNat ∨ ctx.m.constBytes.length ≤ ins.imm.toNat) :
    ¬ HelperAgrees (jitConstBytes ctx ins.ra ins.imm) (opConstBytes ctx ins) s := by
  have hh : result (jitConstBytes ctx ins.ra ins.imm) s = .ok (.trap, s) := by
    unfold jitConstBytes
    rw [if_neg (regs_fit ins).1, result_bind, result_read]
    simp only [Except.bind]
    rw [if_pos h]
    rfl
  intro ha
  cases hr : result (opConstBytes ctx ins) s with
  | error e =>
    rw [← ha.fault, hh] at hr
    exact Except.noConfusion rfl rfl (heq_of_eq hr)
  | ok r =>
    obtain ⟨⟨⟩, s'⟩ := r
    cases hp : s'.excPending with
    | false => exact absurd (ha.same _ _ _ hh hr hp).1 (by decide)
    | true =>
      have htrap := (ha.trap _ _ _ hh hr hp).2.1
      rw [hs] at htrap
      exact absurd htrap (by decide)

theorem ends_protoWalk (atomId : UInt32) (n : ℕ) (cur : JelloValue) {s : Store}
    (hs : s.excPending = false) :
    Ends (protoWalk ctx atomId n cur) (fun o s' ↦ s'.excPending = !o.isSome) s := by
  induction n generalizing cur s with
  | zero => simp [protoWalk, jelloVmTrap, spec_setTrap]
  | succ n ih =>
    refine spec_bind.mpr ((keeps_objectAt (R := Still) cur).then fun o s' h₁ ↦ ?_)
    refine spec_bind.mpr ((keeps_orDiverge (R := Still) _).then fun r s'' h₂ ↦ ?_)
    refine spec_bind.mpr ((keeps_writeCell (R := Still) _ _).then fun _ s₃ h₃ ↦ ?_)
    have hs₃ : s₃.excPending = false :=
      h₃.trap.pending.trans (h₂.trap.pending.trans (h₁.trap.pending.trans hs))
    cases r.1 with
    | some i => exact (spec_pure _).mpr hs₃
    | none => exact spec_ite.mpr ⟨fun _ ↦ (spec_pure _).mpr hs₃, fun _ ↦ ih _ hs₃⟩

theorem ends_thenTrue {x : StoreM Unit} (hx : Keeps (fun _ ↦ True) Still x) {s : Store}
    (hs : s.excPending = false) :
    Ends (do x; pure true : StoreM Bool) (fun ok s' ↦ s'.excPending = !ok) s :=
  spec_bind.mpr (hx.then fun _ _ h ↦ (spec_pure _).mpr (h.trap.pending.trans hs))

theorem ends_trapFalse (code : TrapCode) (msg : String) (s : Store) :
    Ends (do jelloVmTrap ctx code msg; pure false : StoreM Bool)
      (fun ok s' ↦ s'.excPending = !ok) s := by
  simp [jelloVmTrap, spec_setTrap]

theorem ends_vmObjGetAtomTyped (dst obj : ℕ) (atomId hint : UInt32) {s : Store}
    (hs : s.excPending = false) :
    Ends (vmObjGetAtomTyped ctx dst obj atomId hint) (fun ok s' ↦ s'.excPending = !ok) s := by
  have hreg := regOk_true ctx.m ctx.f ctx.rf dst
  have hboxed (v : JelloValue) := keeps_vmStoreFromBoxed (R := Still) hreg ctx.fpu v
  refine spec_bind.mpr ((keeps_vmLoad64 (R := Still) trivial).then fun p s₁ h₁ ↦ ?_)
  have hs₁ : s₁.excPending = false := h₁.trap.pending.trans hs
  refine spec_ite.mpr ⟨fun _ ↦ ends_trapFalse ctx _ _ s₁, fun _ ↦ ?_⟩
  refine spec_bind.mpr (spec_note.mpr ⟨trivial, ?_⟩)
  refine spec_bind.mpr ((keeps_objectAt (R := Still) p).then fun o s₂ h₂ ↦ ?_)
  have hs₂ : s₂.excPending = false := h₂.trap.pending.trans hs₁
  refine spec_ite.mpr ⟨fun _ ↦ ?_, fun _ ↦ ?_⟩
  · refine spec_bind.mpr ((keeps_orDiverge (R := Still) _).then fun r s₃ h₃ ↦ ?_)
    refine spec_bind.mpr ((keeps_writeCell (R := Still) _ _).then fun _ s₄ h₄ ↦ ?_)
    have hs₄ : s₄.excPending = false := h₄.trap.pending.trans (h₃.trap.pending.trans hs₂)
    simp only [spec_bind, spec_vmRegKind, true_and]
    cases hk : regKind ctx.m ctx.f dst
    case i8 | i16 | i32 =>
      refine spec_ite.mpr ⟨fun _ ↦ ?_, fun _ ↦ ends_thenTrue (hboxed _) hs₄⟩
      exact ends_thenTrue (keeps_vmStoreU32 trivial _) hs₄
    case f64 =>
      refine spec_bind.mpr (spec_boxF64At fun x ↦ ?_)
      cases x with
      | some x => exact ends_thenTrue (keeps_vmStore64 trivial _) hs₄
      | none => exact ends_thenTrue (hboxed _) hs₄
    case f32 =>
      refine spec_bind.mpr (spec_boxF32At fun x ↦ ?_)
      cases x with
      | some x => exact ends_thenTrue (keeps_vmStoreU32 trivial _) hs₄
      | none => exact ends_thenTrue (hboxed _) hs₄
    case i64 =>
      refine spec_bind.mpr (spec_boxI64At fun x ↦ ?_)
      cases x with
      | some x => exact ends_thenTrue (keeps_vmStore64 trivial _) hs₄
      | none => exact ends_thenTrue (hboxed _) hs₄
    all_goals exact ends_thenTrue (hboxed _) hs₄
  · refine spec_bind.mpr ((ends_protoWalk ctx atomId 1026 p hs₂).mono fun v s₃ h₃ ↦ ?_)
    cases v with
    | none => exact (spec_pure _).mpr h₃
    | some v => exact ends_thenTrue (hboxed v) h₃

theorem ends_vmObjSetAtomTyped (src obj : ℕ) (atomId hint : UInt32) {s : Store}
    (hs : s.excPending = false) :
    Ends (vmObjSetAtomTyped ctx src obj atomId hint) (fun ok s' ↦ s'.excPending = !ok) s := by
  have hreg := regOk_true ctx.m ctx.f ctx.rf src
  refine spec_bind.mpr ((keeps_vmLoad64 (R := Still) trivial).then fun p s₁ h₁ ↦ ?_)
  have hs₁ : s₁.excPending = false := h₁.trap.pending.trans hs
  refine spec_ite.mpr ⟨fun _ ↦ ends_trapFalse ctx _ _ s₁, fun _ ↦ ?_⟩
  refine spec_bind.mpr (spec_note.mpr ⟨trivial, ?_⟩)
  refine spec_bind.mpr ((keeps_objectAt (R := Still) p).then fun o s₂ h₂ ↦ ?_)
  refine spec_bind.mpr ((keeps_orDiverge (R := Still) _).then fun r s₃ h₃ ↦ ?_)
  refine spec_bind.mpr ((keeps_writeCell (R := Still) _ _).then fun _ s₄ h₄ ↦ ?_)
  have hs₄ : s₄.excPending = false :=
    h₄.trap.pending.trans (h₃.trap.pending.trans (h₂.trap.pending.trans hs₁))
  exact ends_thenTrue (keeps_objStoreTyped hreg _ _ _ _) hs₄

/-- The lookups of a get in an object's own table, with the hint of the instruction and without
one, are the same. -/
def GetUnhinted (ctx : Ctx) (ins : JelloInsn) (s : Store) : Prop :=
  ∀ o, s.heap.cells (load64 s.mem (ctx.rf.addr ins.rb)) = some (.object o) →
    !ctx.m.protoEnabled ∨ ins.imm = jelloAtomProto ∨ o.proto = 0 →
      jelloObjectGetSlot o ins.c.toUInt32 ins.imm = jelloObjectGetSlot o 0 ins.imm

def SetUnhinted (ctx : Ctx) (ins : JelloInsn) (s : Store) : Prop :=
  ∀ o, s.heap.cells (load64 s.mem (ctx.rf.addr ins.rb)) = some (.object o) →
    jelloObjectSetSlot o ins.c.toUInt32 ins.imm = jelloObjectSetSlot o 0 ins.imm

theorem ends_objectAt (p : JelloValue) (s : Store) :
    Ends (objectAt p) (fun o s' ↦ s' = s ∧ s.heap.cells p = some (.object o)) s := by
  refine spec_bind.mpr (spec_cellAt fun c hc ↦ ?_)
  cases c
  case object o => exact (spec_pure _).mpr ⟨rfl, hc⟩
  all_goals exact spec_fail _

theorem getAtom_unhinted {s : Store} (h : GetUnhinted ctx ins s) :
    result (vmObjGetAtomTyped ctx ins.ra ins.rb ins.imm 0) s =
      result (vmObjGetAtomTyped ctx ins.ra ins.rb ins.imm ins.c.toUInt32) s := by
  refine result_bind_congr fun p s₁ h₁ ↦ ?_
  obtain ⟨rfl, rfl⟩ := loaded64 h₁
  split_ifs with hnull
  · rfl
  · refine result_bind_congr fun _ s₂ h₂ ↦ result_bind_congr fun o s₃ h₃ ↦ ?_
    simp only [result_note, Except.ok.injEq, Prod.mk.injEq, true_and] at h₂
    subst h₂
    obtain ⟨rfl, ho⟩ := (ends_objectAt _ _).of_result h₃
    by_cases hown : !ctx.m.protoEnabled ∨ ins.imm = jelloAtomProto ∨ o.proto = 0
    · rw [if_pos hown, if_pos hown, h o ho hown]
    · rw [if_neg hown, if_neg hown]

theorem setAtom_unhinted {s : Store} (h : SetUnhinted ctx ins s) :
    result (vmObjSetAtomTyped ctx ins.ra ins.rb ins.imm 0) s =
      result (vmObjSetAtomTyped ctx ins.ra ins.rb ins.imm ins.c.toUInt32) s := by
  refine result_bind_congr fun p s₁ h₁ ↦ ?_
  obtain ⟨rfl, rfl⟩ := loaded64 h₁
  split_ifs with hnull
  · rfl
  · refine result_bind_congr fun _ s₂ h₂ ↦ result_bind_congr fun o s₃ h₃ ↦ ?_
    simp only [result_note, Except.ok.injEq, Prod.mk.injEq, true_and] at h₂
    subst h₂
    obtain ⟨rfl, ho⟩ := (ends_objectAt _ _).of_result h₃
    rw [h o ho]

/-- A typed read or write of `width` bytes is refused: on null, at an offset that is negative or
not a multiple of the width, past the end. -/
def RwRefused (width : UInt32) (ctx : Ctx) (ins : JelloInsn) (s : Store) : Prop :=
  let p := load64 s.mem (ctx.rf.addr ins.rb)
  let off := load32 s.mem (ctx.rf.addr ins.rc)
  p = 0 ∨ i32 off < 0 ∨ off % width ≠ 0 ∨
    ∃ b, s.heap.cells p = some (.bytes b) ∧ b.length < off + width

theorem bytesRw_refused {name : String} {width : UInt32} {s : Store}
    (h : RwRefused width ctx ins s) :
    ∃ s', result (bytesRw name width ctx ins) s = .ok (none, s') ∧ s'.excPending = true := by
  unfold RwRefused at h
  dsimp only at h
  simp only [bytesRw, vmLoadPtr, vmLoad64, vmLoadU32, result_bind, result_note, result_read,
    Except.bind, result_ite, jelloVmTrap, setTrap, result_change, result_pure]
  by_cases hp : load64 s.mem (ctx.rf.addr ins.rb) = 0
  · rw [if_pos hp]
    exact ⟨_, rfl, rfl⟩
  · rw [if_neg hp]
    by_cases ho : i32 (load32 s.mem (ctx.rf.addr ins.rc)) < 0 ∨
        load32 s.mem (ctx.rf.addr ins.rc) % width ≠ 0
    · rw [if_pos ho]
      exact ⟨_, rfl, rfl⟩
    · obtain h | h | h | ⟨b, hb, hlen⟩ := h
      · exact absurd h hp
      · exact absurd (.inl h) ho
      · exact absurd (.inr h) ho
      · rw [if_neg ho]
        simp only [bytesAt, result_bind, result_cellAt hb, Except.bind, result_pure]
        rw [if_pos hlen]
        exact ⟨_, rfl, rfl⟩

theorem ends_bytesRw {name : String} {width : UInt32} {s : Store}
    (h : ¬ RwRefused width ctx ins s) :
    Ends (bytesRw name width ctx ins) (fun o s' ↦ o.isSome = true ∧ s' = s) s := by
  simp only [RwRefused, not_or, not_exists, not_and] at h
  obtain ⟨hp, hneg, hal, hlen⟩ := h
  refine spec_bind.mpr (spec_vmLoadPtr.mpr ⟨trivial, ?_⟩)
  refine spec_ite.mpr ⟨fun h ↦ absurd h hp, fun _ ↦ ?_⟩
  refine spec_bind.mpr (spec_vmLoadU32.mpr ⟨trivial, ?_⟩)
  refine spec_ite.mpr ⟨fun h ↦ ?_, fun _ ↦ ?_⟩
  · obtain h | h := h
    · exact absurd h hneg
    · exact absurd h hal
  · refine spec_bind.mpr (spec_bind.mpr (spec_cellAt fun c hc ↦ ?_))
    cases c
    case bytes b =>
      refine (spec_pure _).mpr (spec_ite.mpr ⟨fun h ↦ absurd h (hlen b hc), fun _ ↦ ?_⟩)
      exact (spec_pure _).mpr ⟨rfl, rfl⟩
    all_goals exact spec_fail _

theorem ends_bytesRead_iff {name : String} {width : UInt32} {e : Endian} {s : Store}
    (hs : s.excPending = false) :
    Ends (bytesRead name width e ctx ins) (fun _ s' ↦ s'.excPending = false) s ↔
      ¬ RwRefused width ctx ins s := by
  constructor
  · intro h hr
    have ⟨s', hres, hp⟩ := @bytesRw_refused ctx ins name width s hr
    have hend : s'.excPending = false := by
      refine h.2 () s' ?_
      simp [bytesRead, hres, Except.bind]
    rw [hp] at hend
    exact absurd hend (by decide)
  · intro h
    refine spec_bind.mpr ((ends_bytesRw ctx ins h).mono fun o s' ho ↦ ?_)
    obtain ⟨hsome, rfl⟩ := ho
    cases o with
    | none => exact absurd hsome (by decide)
    | some r => exact spec_vmStoreU32.mpr ⟨trivial, hs⟩

theorem ends_bytesWrite_iff {name : String} {width : UInt32} {e : Endian} {s : Store}
    (hs : s.excPending = false) :
    Ends (bytesWrite name width e ctx ins) (fun _ s' ↦ s'.excPending = false) s ↔
      ¬ RwRefused width ctx ins s := by
  constructor
  · intro h hr
    have ⟨s', hres, hp⟩ := @bytesRw_refused ctx ins name width s hr
    have hend : s'.excPending = false := by
      refine h.2 () s' ?_
      simp [bytesWrite, hres, Except.bind]
    rw [hp] at hend
    exact absurd hend (by decide)
  · intro h
    refine spec_bind.mpr ((ends_bytesRw ctx ins h).mono fun o s' ho ↦ ?_)
    obtain ⟨hsome, rfl⟩ := ho
    cases o with
    | none => exact absurd hsome (by decide)
    | some r =>
      exact spec_bind.mpr (spec_vmLoadU32.mpr ⟨trivial, spec_writeCell.mpr hs⟩)

/-- The bytes that a typed read or write is about. -/
def JelloOp.rwWidth : JelloOp → Option UInt32
  | .bytesReadU16Le | .bytesReadU16Be | .bytesWriteU16Le | .bytesWriteU16Be => some 2
  | .bytesReadU32Le | .bytesReadU32Be | .bytesReadI32Le | .bytesReadI32Be | .bytesReadF32Le
  | .bytesReadF32Be | .bytesWriteU32Le | .bytesWriteU32Be | .bytesWriteI32Le | .bytesWriteI32Be
  | .bytesWriteF32Le | .bytesWriteF32Be => some 4
  | _ => none

def JirBytesKind.readOp : JirBytesKind → JelloOp
  | .u16Le => .bytesReadU16Le
  | .u16Be => .bytesReadU16Be
  | .u32Le => .bytesReadU32Le
  | .u32Be => .bytesReadU32Be
  | .i32Le => .bytesReadI32Le
  | .i32Be => .bytesReadI32Be
  | .f32Le => .bytesReadF32Le
  | .f32Be => .bytesReadF32Be

def JirBytesKind.writeOp : JirBytesKind → JelloOp
  | .u16Le => .bytesWriteU16Le
  | .u16Be => .bytesWriteU16Be
  | .u32Le => .bytesWriteU32Le
  | .u32Be => .bytesWriteU32Be
  | .i32Le => .bytesWriteI32Le
  | .i32Be => .bytesWriteI32Be
  | .f32Le => .bytesWriteF32Le
  | .f32Be => .bytesWriteF32Be

def JirBytesKind.width : JirBytesKind → UInt32
  | .u16Le | .u16Be => 2
  | _ => 4

theorem rwWidth_op (kind : JirBytesKind) :
    kind.readOp.rwWidth = some kind.width ∧ kind.writeOp.rwWidth = some kind.width := by
  cases kind <;> exact ⟨rfl, rfl⟩

theorem dataOp_readOp (kind : JirBytesKind) :
    dataOp kind.readOp = bytesReadOp kind := by
  cases kind <;> rfl

theorem dataOp_writeOp (kind : JirBytesKind) :
    dataOp kind.writeOp = bytesWriteOp kind := by
  cases kind <;> rfl

theorem bytesReadOp_family (kind : JirBytesKind) :
    ∃ name e, bytesReadOp kind = bytesRead name kind.width e := by
  cases kind
  case u16Le => exact ⟨"bytes_read_u16_le", .le, rfl⟩
  case u16Be => exact ⟨"bytes_read_u16_be", .be, rfl⟩
  case u32Le => exact ⟨"bytes_read_u32_le", .le, rfl⟩
  case u32Be => exact ⟨"bytes_read_u32_be", .be, rfl⟩
  case i32Le => exact ⟨"bytes_read_i32_le", .le, rfl⟩
  case i32Be => exact ⟨"bytes_read_i32_be", .be, rfl⟩
  case f32Le => exact ⟨"bytes_read_f32_le", .le, rfl⟩
  case f32Be => exact ⟨"bytes_read_f32_be", .be, rfl⟩

theorem bytesWriteOp_family (kind : JirBytesKind) :
    ∃ name e, bytesWriteOp kind = bytesWrite name kind.width e := by
  cases kind
  case u16Le => exact ⟨"bytes_write_u16_le", .le, rfl⟩
  case u16Be => exact ⟨"bytes_write_u16_be", .be, rfl⟩
  case u32Le => exact ⟨"bytes_write_u32_le", .le, rfl⟩
  case u32Be => exact ⟨"bytes_write_u32_be", .be, rfl⟩
  case i32Le => exact ⟨"bytes_write_i32_le", .le, rfl⟩
  case i32Be => exact ⟨"bytes_write_i32_be", .be, rfl⟩
  case f32Le => exact ⟨"bytes_write_f32_le", .le, rfl⟩
  case f32Be => exact ⟨"bytes_write_f32_be", .be, rfl⟩

theorem agrees_bytesRead_iff (kind : JirBytesKind) {s : Store} (hs : s.excPending = false) :
    HelperAgrees (jitBytesRead ctx ins.ra ins.rb ins.rc kind) (dataOp kind.readOp ctx ins) s ↔
      ¬ RwRefused kind.width ctx ins s := by
  obtain ⟨name, e, hfam⟩ := bytesReadOp_family kind
  have hsame : bytesReadOp kind ctx (helperInsn .bytesReadU16Le ins.ra ins.rb ins.rc 0) =
      bytesReadOp kind ctx ins := by
    rw [hfam]
    simp only [bytesRead, bytesRw, helperInsn_ra, helperInsn_rb, helperInsn_rc]
  unfold jitBytesRead
  rw [hsame, dataOp_readOp, agrees_continuing, hfam]
  exact ends_bytesRead_iff ctx ins hs

theorem agrees_bytesWrite_iff (kind : JirBytesKind) {s : Store} (hs : s.excPending = false) :
    HelperAgrees (jitBytesWrite ctx ins.ra ins.rb ins.rc kind) (dataOp kind.writeOp ctx ins) s ↔
      ¬ RwRefused kind.width ctx ins s := by
  obtain ⟨name, e, hfam⟩ := bytesWriteOp_family kind
  have hsame : bytesWriteOp kind ctx (helperInsn .bytesWriteU16Le ins.ra ins.rb ins.rc 0) =
      bytesWriteOp kind ctx ins := by
    rw [hfam]
    simp only [bytesWrite, bytesRw, helperInsn_ra, helperInsn_rb, helperInsn_rc]
  unfold jitBytesWrite
  rw [hsame, dataOp_writeOp, agrees_continuing, hfam]
  exact ends_bytesWrite_iff ctx ins hs

/-- What the agreement of a helper with the interpreter takes. -/
structure HelperOk (ctx : Ctx) (ins : JelloInsn) (s : Store) : Prop where
  rw : ∀ width, ins.op.rwWidth = some width → ¬ RwRefused width ctx ins s
  constBytes : ins.op = .constBytes → ins.imm.toNat < s.constBytesCache.length ∧
    ins.imm.toNat < ctx.m.constBytes.length
  getAtom : ins.op = .objGetAtom → GetUnhinted ctx ins s
  setAtom : ins.op = .objSetAtom → SetUnhinted ctx ins s

theorem helperOk_of_mirrors {h : StoreM JitExit} {x : StoreM Unit} {s : Store}
    (hs : s.excPending = false) (hm : Mirrors h x) (hrw : ins.op.rwWidth = none)
    (hbytes : ins.op ≠ .constBytes) (hget : ins.op ≠ .objGetAtom) (hset : ins.op ≠ .objSetAtom) :
    (HelperOk ctx ins s → HelperAgrees h x s) ∧ (HelperAgrees h x s → HelperOk ctx ins s) := by
  refine ⟨fun _ ↦ (hm s hs).agrees, fun _ ↦ ⟨fun w hw ↦ ?_, fun h ↦ absurd h hbytes,
    fun h ↦ absurd h hget, fun h ↦ absurd h hset⟩⟩
  rw [hrw] at hw
  exact absurd hw (by simp)

/-- The helpers, with the operands of the instruction. -/
inductive HelperOf (ctx : Ctx) (ins : JelloInsn) : StoreM JitExit → Prop
  | bytesNew (hop : ins.op = .bytesNew) : HelperOf ctx ins (jitBytesNew ctx ins.ra ins.rb)
  | bytesLen (hop : ins.op = .bytesLen) : HelperOf ctx ins (jitBytesLen ctx ins.ra ins.rb)
  | bytesEq (hop : ins.op = .bytesEq) : HelperOf ctx ins (jitBytesEq ctx ins.ra ins.rb ins.rc)
  | bytesGetU8 (hop : ins.op = .bytesGetU8) :
      HelperOf ctx ins (jitBytesGetU8 ctx ins.ra ins.rb ins.rc)
  | bytesSetU8 (hop : ins.op = .bytesSetU8) :
      HelperOf ctx ins (jitBytesSetU8 ctx ins.ra ins.rb ins.rc)
  | bytesRead (kind : JirBytesKind) (hop : ins.op = kind.readOp) :
      HelperOf ctx ins (jitBytesRead ctx ins.ra ins.rb ins.rc kind)
  | bytesWrite (kind : JirBytesKind) (hop : ins.op = kind.writeOp) :
      HelperOf ctx ins (jitBytesWrite ctx ins.ra ins.rb ins.rc kind)
  | arrayLen (hop : ins.op = .arrayLen) : HelperOf ctx ins (jitArrayLen ctx ins.ra ins.rb)
  | arrayGet (hop : ins.op = .arrayGet) : HelperOf ctx ins (jitArrayGet ctx ins.ra ins.rb ins.rc)
  | arraySet (hop : ins.op = .arraySet) : HelperOf ctx ins (jitArraySet ctx ins.ra ins.rb ins.rc)
  | arrayNew (hop : ins.op = .arrayNew) : HelperOf ctx ins (jitArrayNew ctx ins.ra ins.rb)
  | objGetAtom (hop : ins.op = .objGetAtom) :
      HelperOf ctx ins (jitObjGetAtom ctx ins.ra ins.rb ins.imm)
  | objSetAtom (hop : ins.op = .objSetAtom) :
      HelperOf ctx ins (jitObjSetAtom ctx ins.ra ins.rb ins.imm)
  | assert (hop : ins.op = .assert) : HelperOf ctx ins (jitAssert ctx ins.ra ins.rb ins.rc)
  | constBytes (hop : ins.op = .constBytes) : HelperOf ctx ins (jitConstBytes ctx ins.ra ins.imm)
  | closure (hop : ins.op = .closure) :
      HelperOf ctx ins (jitClosure ctx ins.ra ins.rb ins.rc ins.imm)
  | conv (kind : JirConv) (hop : ins.op = kind.op) :
      HelperOf ctx ins (jitConv ctx ins.ra ins.rb kind)

theorem jitHelper_none {x : JirInsn} (h : x.op ∈ [JirOp.nop, .constFun, .fuelCheck, .jmp, .jmpIf,
    .switch, .switchCase, .sqrtF64, .slow, .callSelf, .callDirect]) : jitHelper ctx x = none := by
  simp only [List.mem_cons, List.not_mem_nil, or_false] at h
  rcases h with h | h | h | h | h | h | h | h | h | h | h <;> simp only [jitHelper, h]

theorem helperOf_lowered {pc : ℕ} {b : List JirInsn} {x : JirInsn} {h : StoreM JitExit}
    (hb : lowerOne ctx.m ctx.f pc = some b) (hx : x ∈ b) (hh : jitHelper ctx x = some h) :
    HelperOf ctx (ctx.fn.insn pc) h := by
  have hfn : ctx.m.func ctx.f = ctx.fn := rfl
  have hone {y : JirInsn} (hy : some [y] = some b) : jitHelper ctx y = some h := by
    cases hy
    exact List.mem_singleton.mp hx ▸ hh
  have hnot (hops : x.op ∈ [JirOp.nop, .constFun, .fuelCheck, .jmp, .jmpIf, .switch, .switchCase,
      .sqrtF64, .slow, .callSelf, .callDirect]) : HelperOf ctx (ctx.fn.insn pc) h := by
    rw [jitHelper_none ctx hops] at hh
    exact absurd hh (by simp)
  cases hop : (ctx.fn.insn pc).op <;> simp only [lowerOne, hfn, hop] at hb
  case switchKind =>
    obtain hops | hops := lowerSwitch_op hb x hx <;> exact hnot (by simp [hops])
  case jmp =>
    simp only [Option.some.injEq] at hb
    subst hb
    dsimp only [lowerJmp] at hx
    split_ifs at hx
    · simp only [List.mem_cons, List.not_mem_nil, or_false] at hx
      obtain rfl | rfl := hx <;> exact hnot (by simp [jir])
    · obtain rfl := List.mem_singleton.mp hx
      exact hnot (by simp [jir])
  case call =>
    cases hb
    obtain rfl := List.mem_singleton.mp hx
    have hops := @lowerCall_op ctx.m ctx.f pc (ctx.fn.insn pc)
    rcases hops with hops | hops | hops | hops <;> exact hnot (by simp [hops])
  case callr =>
    cases hb
    obtain rfl := List.mem_singleton.mp hx
    have hops := @lowerCallr_op ctx.m ctx.f pc (ctx.fn.insn pc)
    rcases hops with hops | hops | hops <;> exact hnot (by simp [hops])
  case constFun =>
    cases hb
    obtain rfl := List.mem_singleton.mp hx
    refine hnot ?_
    unfold lowerConstFun
    split_ifs <;> simp [jirA, jir]
  case caseKind =>
    cases hb
    exact absurd hx (by simp)
  all_goals
    have hy := hone hb
    simp only [jitHelper, lowerSlow, jirABC, jirAB, jirA, jir, Option.some.injEq,
      reduceCtorEq] at hy
  all_goals subst hy
  case bytesNew => exact .bytesNew hop
  case bytesLen => exact .bytesLen hop
  case bytesEq => exact .bytesEq hop
  case bytesGetU8 => exact .bytesGetU8 hop
  case bytesSetU8 => exact .bytesSetU8 hop
  case bytesReadU16Le => exact .bytesRead .u16Le hop
  case bytesReadU16Be => exact .bytesRead .u16Be hop
  case bytesReadU32Le => exact .bytesRead .u32Le hop
  case bytesReadU32Be => exact .bytesRead .u32Be hop
  case bytesReadI32Le => exact .bytesRead .i32Le hop
  case bytesReadI32Be => exact .bytesRead .i32Be hop
  case bytesReadF32Le => exact .bytesRead .f32Le hop
  case bytesReadF32Be => exact .bytesRead .f32Be hop
  case bytesWriteU16Le => exact .bytesWrite .u16Le hop
  case bytesWriteU16Be => exact .bytesWrite .u16Be hop
  case bytesWriteU32Le => exact .bytesWrite .u32Le hop
  case bytesWriteU32Be => exact .bytesWrite .u32Be hop
  case bytesWriteI32Le => exact .bytesWrite .i32Le hop
  case bytesWriteI32Be => exact .bytesWrite .i32Be hop
  case bytesWriteF32Le => exact .bytesWrite .f32Le hop
  case bytesWriteF32Be => exact .bytesWrite .f32Be hop
  case arrayLen => exact .arrayLen hop
  case arrayGet => exact .arrayGet hop
  case arraySet => exact .arraySet hop
  case arrayNew => exact .arrayNew hop
  case objGetAtom => exact .objGetAtom hop
  case objSetAtom => exact .objSetAtom hop
  case assert => exact .assert hop
  case constBytes => exact .constBytes hop
  case closure => exact .closure hop
  case sextI64 => exact .conv .sextI64 hop
  case sextI16 => exact .conv .sextI16 hop
  case truncI8 => exact .conv .truncI8 hop
  case truncI16 => exact .conv .truncI16 hop
  case i32FromI64 => exact .conv .i32FromI64 hop
  case f64FromI32 => exact .conv .f64FromI32 hop
  case i32FromF64 => exact .conv .i32FromF64 hop
  case f64FromI64 => exact .conv .f64FromI64 hop
  case i64FromF64 => exact .conv .i64FromF64 hop
  case f32FromI32 => exact .conv .f32FromI32 hop
  case i32FromF32 => exact .conv .i32FromF32 hop
  case f64FromF32 => exact .conv .f64FromF32 hop
  case f32FromF64 => exact .conv .f32FromF64 hop
  case f32FromI64 => exact .conv .f32FromI64 hop
  case i64FromF32 => exact .conv .i64FromF32 hop

end Agreement

end JelloVM
