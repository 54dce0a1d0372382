import JelloVM.Jit.EmitFunc

namespace JelloVM

open Function X64 CodeFlow

section Pieces

variable {T : Targets} {B : Backend}

def frameBase (B : Backend) : List Encoder :=
  [.loadR64Disp jitRegT2 jitRegCtx (UInt32.ofNat B.lay.execCtxFr),
    .loadR64Disp jitRegBase jitRegT2 (UInt32.ofNat B.lay.callFrameRfMem)]

theorem emits_loadFrameBase : Emits T (emitLoadFrameBase B) (straight (frameBase B)) := by
  intro realloc buf b h
  rw [emitLoadFrameBase] at h
  split_ifs at h
  exact emits_code _ _ _ _ h

/-- The helper has returned 0, or native code is left. -/
def leaveUnless : List Item := .jcc x64CcJz (.skip restoreAndRet.length) :: straight restoreAndRet

def rtItems (B : Backend) (h : JitHelper) : List Item :=
  straight (callFn B h ++ [.testRr .rax .rax]) ++ leaveUnless

theorem closed_leaveUnless : Closed leaveUnless := by
  refine ⟨fun n hn ↦ ?_, closed_straight _⟩
  cases hn
  rw [length_straight]

theorem closed_rtItems (h : JitHelper) : Closed (rtItems B h) :=
  (closed_straight _).append closed_leaveUnless

theorem stands_leaveUnless {xs : List Item} {buf b₁ b₂ : JelloJitEmitBuf} (hc : Closed xs)
    (h₁ : Stands T buf xs b₁)
    (h₂ : Stands T b₁ (straight (.jccRel32 x64CcJz :: restoreAndRet)) b₂) :
    Stands T buf (xs ++ leaveUnless) (patchJccRel32 b₁.data.length b₂.data.length b₂) := by
  have h := h₁.append hc h₂
  refine patch_skip (.jcc x64CcJz (.skip restoreAndRet.length)) rfl rfl h h₁.length ?_
  rw [h.length]
  simp only [straight, List.map_cons, itemsSize_append, itemsSize_cons, ← Nat.add_assoc]
  rfl

theorem emits_rtKeepBase (h : JitHelper) :
    Emits T (emitRtCallContinueKeepBase B h) (rtItems B h) := by
  intro realloc buf b hb
  simp only [emitRtCallContinueKeepBase, Option.bind_eq_bind, Option.bind_eq_some_iff] at hb
  obtain ⟨b₁, h₁, b₂, h₂, hb⟩ := hb
  cases hb
  exact stands_leaveUnless (closed_straight _) (emits_code _ _ _ _ h₁) (emits_code _ _ _ _ h₂)

theorem emits_rt (h : JitHelper) :
    Emits T (emitRtCallContinue B h) (rtItems B h ++ straight (frameBase B)) :=
  (emits_rtKeepBase h).bind (closed_rtItems h) emits_loadFrameBase

theorem emits_helper (h : JitHelper) (args : List UInt32) :
    Emits T (emitHelper B h args) (straight (helperArgs args) ++ rtItems B h) :=
  (emits_code _).bind (closed_straight _) (emits_rtKeepBase h)

theorem emits_helperRebase (h : JitHelper) (args : List UInt32) :
    Emits T (emitHelperRebase B h args)
      (straight (helperArgs args) ++ (rtItems B h ++ straight (frameBase B))) :=
  (emits_code _).bind (closed_straight _) (emits_rt h)

def jmpFieldItems (B : Backend) (off : ℕ) : List Item :=
  straight (takeField off) ++ (straight (frameBase B) ++ straight [.jmpR64 .rax])

theorem emits_jmpField (off : ℕ) : Emits T (emitJmpField B off) (jmpFieldItems B off) := by
  intro realloc buf b h
  rw [emitJmpField] at h
  split_ifs at h
  exact (emits_code _).bind (closed_straight _)
    (emits_loadFrameBase.bind (closed_straight _) (emits_code [.jmpR64 .rax])) _ _ _ h

def retItems (B : Backend) (x : JirInsn) : List Item :=
  straight (helperArgs [UInt32.ofNat x.a] ++ callFn B .retSelf ++ [.testRr .rax .rax]) ++
    leaveUnless ++ jmpFieldItems B B.lay.execCtxJitSelfResume

theorem emits_ret (x : JirInsn) : Emits T (emitRet B x) (retItems B x) := by
  intro realloc buf b h
  simp only [emitRet, Option.bind_eq_bind, Option.bind_eq_some_iff] at h
  obtain ⟨b₁, h₁, b₂, h₂, h⟩ := h
  have hleave := stands_leaveUnless (closed_straight _) (emits_code (T := T) _ _ _ _ h₁)
    (emits_code _ _ _ _ h₂)
  exact hleave.append ((closed_straight _).append closed_leaveUnless) (emits_jmpField _ _ _ _ h)

theorem size_jcc (cc : Fin 16) (l : Label) : (Item.jcc cc l).size = 6 := rfl

theorem size_jmp (l : Label) : (Item.jmp l).size = 5 := rfl

/-- Two branches over what follows, the second one to the last part. -/
def fuelItems (load test charge trap : List Encoder) : List Item :=
  straight load ++
    .jcc x64CcJz (.skip (test.length + 1 + (charge.length + 1) + trap.length)) :: straight test ++
    .jcc x64CcJz (.skip (charge.length + 1)) :: straight charge ++
    .jmp (.skip trap.length) :: straight trap

theorem emits_fuelCheck : Emits T (emitInlineFuelCheck B)
    (fuelItems (fuelLoad B) (fuelTest B) (fuelSpend B) (fuelTrap B)) := by
  intro realloc buf b h
  simp only [emitInlineFuelCheck, Option.bind_eq_bind, Option.bind_eq_some_iff] at h
  obtain ⟨b₁, h₁, b₂, h₂, b₃, h₃, b₄, h₄, b₅, h₅, h⟩ := h
  cases h
  generalize fuelLoad B = load, fuelTest B = test, fuelSpend B = charge, fuelTrap B = trap at *
  have h₁ := emits_code (T := T) _ _ _ _ h₁
  have h₂ := h₁.append (closed_straight _) (emits_code _ _ _ _ h₂)
  have h₃ := h₂.append (.append (closed_straight _) (closed_straight _)) (emits_code _ _ _ _ h₃)
  have h₄ := h₃.append (.append (.append (closed_straight _) (closed_straight _))
    (closed_straight _)) (emits_code _ _ _ _ h₄)
  have h₅ := h₄.append (.append (.append (.append (closed_straight _) (closed_straight _))
    (closed_straight _)) (closed_straight _)) (emits_code _ _ _ _ h₅)
  have hplain : (Item.plain (.jccRel32 x64CcJz)).size = 6 ∧ (Item.plain .jmpRel32).size = 5 :=
    ⟨rfl, rfl⟩
  have hlen₂ := h₂.length
  have hlen₃ := h₃.length
  have hlen₄ := h₄.length
  have hlen₅ := h₅.length
  simp only [straight_cons, straight_nil, itemsSize_append, itemsSize_cons, itemsSize_nil,
    hplain.1, hplain.2] at hlen₂ hlen₃ hlen₄ hlen₅
  -- the branch to the end, the one to the trap, and the jump to the end
  have hskip := h₅.patch
    (.jcc x64CcJz (.skip (test.length + 1 + (charge.length + 1) + trap.length))) (straight load)
    (straight test ++ .plain (.jccRel32 x64CcJz) :: straight charge ++
      .plain .jmpRel32 :: straight trap) b₁.data.length b₅.data.length (by simp [Item.encoder]) rfl
      rfl h₁.length (by
        rw [List.take_of_length_le (by simp; omega)]
        simp only [itemsSize_append, itemsSize_cons, size_jcc, hplain.1, hplain.2]
        omega)
  have htrap := hskip.patch (.jcc x64CcJz (.skip (charge.length + 1))) (straight load ++
      .jcc x64CcJz (.skip (test.length + 1 + (charge.length + 1) + trap.length)) :: straight test)
    ((straight charge ++ [.plain .jmpRel32]) ++ straight trap) b₂.data.length b₄.data.length
    (by simp [Item.encoder]) rfl rfl (by
        simp only [itemsSize_append, itemsSize_cons, size_jcc]
        omega) (by
        rw [List.take_left' (by simp)]
        simp only [itemsSize_append, itemsSize_cons, itemsSize_nil, size_jcc, hplain.2]
        omega)
  have hdone := htrap.patch (.jmp (.skip trap.length)) (straight load ++
      .jcc x64CcJz (.skip (test.length + 1 + (charge.length + 1) + trap.length)) :: straight test ++
      .jcc x64CcJz (.skip (charge.length + 1)) :: straight charge) (straight trap) b₃.data.length
    b₅.data.length (by simp [Item.encoder]) rfl rfl (by
        simp only [itemsSize_append, itemsSize_cons, size_jcc]
        omega) (by
        rw [List.take_of_length_le (by simp)]
        simp only [itemsSize_append, itemsSize_cons, size_jcc, size_jmp]
        omega)
  exact hdone

def callSelfItems (B : Backend) (x : JirInsn) : List Item :=
  let after := rtItems B .callSelf ++ straight (frameBase B)
  straight (helperArgs (jitCallArgs x)) ++ .lea .r9 (after.length + 1) :: after ++ [.jmp .body]

theorem emits_callSelf (x : JirInsn) : Emits T (emitCallSelf B T.body x) (callSelfItems B x) := by
  intro realloc buf b h
  simp only [emitCallSelf, Option.bind_eq_bind, Option.bind_eq_some_iff] at h
  obtain ⟨b₁, h₁, b₂, h₂, b₃, h₃, b₄, h₄, b₅, h₅, h⟩ := h
  cases h
  have hclosed : Closed (rtItems B .callSelf ++ straight (frameBase B)) :=
    (closed_rtItems _).append (closed_straight _)
  have h₁ := emits_code (T := T) _ _ _ _ h₁
  have h₂ := h₁.append (closed_straight _) (emits_code _ _ _ _ h₂)
  have h₃ := h₂.append (.append (closed_straight _) (closed_straight _)) (emits_rt _ _ _ _ h₃)
  have h₄ := h₃.append (.append (.append (closed_straight _) (closed_straight _)) hclosed)
    (emits_code _ _ _ _ h₄)
  simp only [callSelfItems]
  generalize rtItems B .callSelf ++ straight (frameBase B) = after at *
  have hlea : ∀ n, (Item.lea .r9 n).size = 7 := fun _ ↦ rfl
  have hplain : (Item.plain (.leaRipRel32 .r9)).size = 7 ∧ (Item.plain .jmpRel32).size = 5 :=
    ⟨rfl, rfl⟩
  have hlen₃ := h₃.length
  have hlen₄ := h₄.length
  simp only [straight_cons, straight_nil, itemsSize_append, itemsSize_cons, itemsSize_nil,
    hplain.1, hplain.2] at hlen₃ hlen₄
  rw [x64PatchLeaRipRel32] at h₅
  split_ifs at h₅
  cases h₅
  have haddr := h₄.patch (.lea .r9 (after.length + 1)) (straight (helperArgs (jitCallArgs x)))
    (after ++ [.plain .jmpRel32]) b₁.data.length b₄.data.length (by simp [Item.encoder]) rfl rfl
    h₁.length (by
      rw [List.take_of_length_le (by simp)]
      simp only [itemsSize_append, itemsSize_cons, itemsSize_nil, hlea, hplain.2]
      omega)
  have hjmp := haddr.patch_body (.jmp .body)
    (straight (helperArgs (jitCallArgs x)) ++ .lea .r9 (after.length + 1) :: after) []
    b₃.data.length (by simp [Item.encoder]) rfl rfl (by
      simp only [itemsSize_append, itemsSize_cons, hlea]
      omega)
  exact hjmp

def callDirectItems (B : Backend) (x : JirInsn) : List Item :=
  let after := straight (directCall B x) ++ leaveUnless ++ jmpFieldItems B B.lay.execCtxJitCallEntry
  straight (helperArgs (jitCallArgs x)) ++ .lea .r9 after.length :: after

theorem emits_callDirect (x : JirInsn) :
    Emits T (emitCallDirect B x) (callDirectItems B x) := by
  intro realloc buf b h
  simp only [emitCallDirect, Option.bind_eq_bind, Option.bind_eq_some_iff] at h
  obtain ⟨b₁, h₁, b₂, h₂, b₃, h₃, b₄, h₄, h⟩ := h
  have h₁ := emits_code (T := T) _ _ _ _ h₁
  have h₂ := h₁.append (closed_straight _) (emits_code _ _ _ _ h₂)
  have hc : Closed (straight (helperArgs (jitCallArgs x)) ++
      straight (.leaRipRel32 .r9 :: directCall B x)) :=
    (closed_straight _).append (closed_straight _)
  have h₃ := stands_leaveUnless hc h₂ (emits_code _ _ _ _ h₃)
  have h₄ := h₃.append (hc.append closed_leaveUnless) (emits_jmpField _ _ _ _ h₄)
  have hlea : ∀ n, (Item.lea .r9 n).size = 7 := fun _ ↦ rfl
  have hplain : (Item.plain (.leaRipRel32 .r9)).size = 7 := rfl
  have hlen₄ := h₄.length
  simp only [straight_cons, itemsSize_append, itemsSize_cons, hplain] at hlen₄
  rw [x64PatchLeaRipRel32] at h
  split_ifs at h
  cases h
  exact h₄.patch (.lea .r9 (straight (directCall B x) ++ leaveUnless ++
      jmpFieldItems B B.lay.execCtxJitCallEntry).length) (straight (helperArgs (jitCallArgs x)))
    (straight (directCall B x) ++ leaveUnless ++ jmpFieldItems B B.lay.execCtxJitCallEntry)
    b₁.data.length b₄.data.length (by simp [Item.encoder]) rfl rfl h₁.length (by
      rw [List.take_of_length_le le_rfl]
      simp only [itemsSize_append, hlea]
      omega)

def prologueItems (B : Backend) : List Item :=
  straight entryCode ++ straight (frameBase B) ++ straight (resumeTest B) ++
    [.jcc x64CcJz (.skip 1), .plain (.jmpR64 .rax)]

theorem emits_prologue : Emits T (emitPrologue B) (prologueItems B) := by
  intro realloc buf b h
  simp only [emitPrologue, Option.bind_eq_bind, Option.bind_eq_some_iff] at h
  obtain ⟨b₁, h₁, b₂, h₂, h⟩ := h
  split_ifs at h
  simp only [Option.bind_eq_some_iff] at h
  obtain ⟨b₃, h₃, b₄, h₄, h⟩ := h
  cases h
  have h₂ := (emits_code (T := T) _ _ _ _ h₁).append (closed_straight _)
    (emits_loadFrameBase _ _ _ h₂)
  have h₃ := h₂.append (.append (closed_straight _) (closed_straight _)) (emits_code _ _ _ _ h₃)
  have h₄ := h₃.append (.append (.append (closed_straight _) (closed_straight _))
    (closed_straight _)) (emits_code _ _ _ _ h₄)
  have hlen₄ := h₄.length
  rw [straight_cons, straight_cons, straight_nil] at h₄ hlen₄
  refine h₄.patch (.jcc x64CcJz (.skip 1)) _ [.plain (.jmpR64 .rax)] _ _ rfl rfl rfl h₃.length ?_
  have hlast : [Item.plain (.jmpR64 .rax)].take 1 = [.plain (.jmpR64 .rax)] := rfl
  rw [hlast, hlen₄, itemsSize_append, itemsSize_cons, size_jcc]
  simp only [← Nat.add_assoc]
  rfl

end Pieces

section Sites

variable (B : Backend) (m : JelloBcModule) (f : ℕ) (off : ℕ → ℕ) (ir : List JirInsn)

def plainItems (i : ℕ) (x : JirInsn) : List Item :=
  match helperOf x with
  | some (h, args) => straight (helperArgs args) ++ rtItems B h
  | none => straight ((scalarCode m f off ir i x).getD [])

def caseItems (x cs : JirInsn) : List Item :=
  straight [.movR32Imm jitRegT1 (UInt32.ofNat cs.a), .x64CmpR32Rr jitRegT0 jitRegT1] ++
    [.jcc x64CcJz (.pc (switchKindTarget x.bcPc x.b cs.imm))]

/-- The items of a site after its `ENDBR64`. -/
def siteBody (i : ℕ) (x : JirInsn) : List Item :=
  let load := emitLdrI32 jitRegT0 off (i32cAt m f ir i) x.a
  match x.op with
  | .jmp => [.jmp (.pc x.imm.toNat)]
  | .jmpIf =>
    straight ((encodersOf (load ++ [.alu32 .test jitRegT0 jitRegT0])).getD []) ++
      [.jcc x64CcJnz (.pc x.imm.toNat)]
  | .switch =>
    straight ((encodersOf load).getD []) ++ (switchCases ir i x.b).flatMap (caseItems x) ++
      [.jmp (.pc (switchKindTarget x.bcPc x.b x.imm))]
  | .ret => retItems B x
  | .callSelf => callSelfItems B x
  | .callDirect => callDirectItems B x
  | .slow => straight (helperArgs [x.imm]) ++ (rtItems B .slowOp ++ straight (frameBase B))
  | .closure =>
    straight (helperArgs [UInt32.ofNat x.a, UInt32.ofNat x.b, UInt32.ofNat x.c, x.imm]) ++
      (rtItems B .closure ++ straight (frameBase B))
  | .fuelCheck => fuelItems (fuelLoad B) (fuelTest B) (fuelSpend B) (fuelTrap B)
  | .objNew => straight ((objNew B off x).getD [])
  | .arrayGet => codeItems (emitArrayGetF64 B m f off x.a x.b x.c)
  | .arraySet => codeItems (emitArraySetF64 B m f off x.a x.b x.c)
  | .objGetAtom => codeItems (emitObjGetAtom B m f off x.a x.b x.imm)
  | .objSetAtom => codeItems (emitObjSetAtom B m f off x.a x.b x.imm)
  | _ => plainItems B m f off ir i x

def siteItems (i : ℕ) : List Item :=
  match ir[i]? with
  | none => []
  | some x =>
    if x.op = .switchCase then []
    else .plain .endbr64 :: siteBody B m f off ir i x

variable {B m f off ir} {T : Targets} {items items' : List Item} {st st' st₁ st₂ : EmitState}
  {e : Emitter} {realloc : ℕ → Bool} {x cs : JirInsn} {i body : ℕ}

/-- No branch leaves the items. -/
def LocalItems (items : List Item) : Prop := ∀ it ∈ items, it.branch = none

theorem pending_local {o : ℕ} (h : LocalItems items) : pending o items = [] := by
  induction items generalizing o with
  | nil => rfl
  | cons it rest ih =>
    rw [pending, h it List.mem_cons_self, ih fun it hit ↦ h it (List.mem_cons_of_mem _ hit)]
    rfl

theorem local_straight (es : List Encoder) : LocalItems (straight es) := by
  intro it hit
  obtain ⟨e, -, rfl⟩ := List.mem_map.mp hit
  rfl

theorem LocalItems.append (h : LocalItems items) (h' : LocalItems items') :
    LocalItems (items ++ items') := by
  intro it hit
  rcases List.mem_append.mp hit with hit | hit
  · exact h it hit
  · exact h' it hit

/-- The items have been emitted, and their branches recorded. -/
structure SiteStands (T : Targets) (st : EmitState) (items : List Item) (st' : EmitState) :
    Prop where
  code : Stands T st.buf items st'.buf
  sites : st'.patchSites = st.patchSites ++ pending st.buf.data.length items
  irOff : st'.irOff = st.irOff

theorem SiteStands.append (h : SiteStands T st items st₁) (hc : Closed items)
    (h' : SiteStands T st₁ items' st₂) : SiteStands T st (items ++ items') st₂ := by
  refine ⟨h.code.append hc h'.code, ?_, h'.irOff.trans h.irOff⟩
  rw [h'.sites, h.sites, h.code.length, pending_append, List.append_assoc]

theorem stands_emitInto (he : Emits T e items) (hl : LocalItems items)
    (h : emitInto realloc e st = some st') : SiteStands T st items st' := by
  obtain ⟨b, hb, rfl⟩ := Option.map_eq_some_iff.mp h
  refine ⟨he _ _ _ hb, ?_, rfl⟩
  rw [pending_local hl, List.append_nil]

theorem stands_emitPatched {it : Item} {enc : Encoder} {t : ℕ} {kind : UInt8}
    (he : it.encoder = enc) (hb : it.branch = some (t, kind)) (hl : it.label = some (.pc t))
    (h : emitPatched ir realloc enc kind t st = some st') :
    SiteStands (unlinked body) st [it] st' := by
  rw [emitPatched] at h
  split_ifs at h
  obtain ⟨b, hemit, rfl⟩ := Option.map_eq_some_iff.mp h
  refine ⟨?_, ?_, rfl⟩
  · rw [Stands, data_of_emit hemit, ← he, ← it.bytes_encoder]
    simp only [link, hl, Targets.disp, unlinked, Listing.bytes_cons, Listing.bytes_nil,
      List.append_nil]
  · simp only [pending, hb, Option.map_some, Option.toList_some, List.append_nil]

theorem local_leaveUnless : LocalItems leaveUnless := by
  intro it hit
  rcases List.mem_cons.mp hit with rfl | hit
  · rfl
  · exact local_straight _ it hit

theorem local_rtItems (h : JitHelper) : LocalItems (rtItems B h) :=
  (local_straight _).append local_leaveUnless

theorem local_rebase (h : JitHelper) (args : List UInt32) :
    LocalItems (straight (helperArgs args) ++ (rtItems B h ++ straight (frameBase B))) :=
  (local_straight _).append ((local_rtItems h).append (local_straight _))

theorem local_jmpField (o : ℕ) : LocalItems (jmpFieldItems B o) :=
  (local_straight _).append ((local_straight _).append (local_straight _))

theorem local_cons {it : Item} (h : it.branch = none) (hl : LocalItems items) :
    LocalItems (it :: items) := by
  intro it' hit
  rcases List.mem_cons.mp hit with rfl | hit
  · exact h
  · exact hl it' hit

theorem local_ret (x : JirInsn) : LocalItems (retItems B x) :=
  ((local_straight _).append local_leaveUnless).append (local_jmpField _)

theorem local_callSelf (x : JirInsn) : LocalItems (callSelfItems B x) :=
  ((local_straight _).append (local_cons rfl ((local_rtItems _).append (local_straight _)))).append
    (local_cons rfl fun _ hit ↦ absurd hit List.not_mem_nil)

theorem local_callDirect (x : JirInsn) : LocalItems (callDirectItems B x) :=
  (local_straight _).append (local_cons rfl
    (((local_straight _).append local_leaveUnless).append (local_jmpField _)))

theorem local_fuel (load test charge trap : List Encoder) :
    LocalItems (fuelItems load test charge trap) :=
  (((local_straight _).append (local_cons rfl (local_straight _))).append
    (local_cons rfl (local_straight _))).append (local_cons rfl (local_straight _))

theorem stands_jmp (h : emitJmpSite m f ir realloc x st = some st') :
    SiteStands (unlinked body) st [.jmp (.pc x.imm.toNat)] st' := by
  rw [emitJmpSite] at h
  split_ifs at h
  exact stands_emitPatched rfl rfl rfl h

theorem stands_jmpIf {i32c : Option ℕ} (h : emitJmpIfSite m f off ir realloc i32c x st = some st') :
    SiteStands (unlinked body) st
      (straight ((encodersOf (emitLdrI32 jitRegT0 off i32c x.a ++
        [.alu32 .test jitRegT0 jitRegT0])).getD []) ++ [.jcc x64CcJnz (.pc x.imm.toNat)]) st' := by
  rw [emitJmpIfSite] at h
  split_ifs at h
  simp only [Option.bind_eq_bind, Option.bind_eq_some_iff] at h
  obtain ⟨load, hload, mid, hmid, h⟩ := h
  rw [hload, Option.getD_some]
  exact (stands_emitInto (emits_code _) (local_straight _) hmid).append (closed_straight _)
    (stands_emitPatched rfl rfl rfl h)

theorem stands_case (h : emitCase ir realloc x cs st = some st') :
    SiteStands (unlinked body) st (caseItems x cs) st' := by
  rw [emitCase] at h
  split_ifs at h
  simp only [Option.bind_eq_bind, Option.bind_eq_some_iff] at h
  obtain ⟨mid, hmid, h⟩ := h
  exact (stands_emitInto (emits_code _) (local_straight _) hmid).append (closed_straight _)
    (stands_emitPatched rfl rfl rfl h)

theorem closed_case : Closed (caseItems x cs) :=
  (closed_straight _).append ⟨fun n hn ↦ absurd hn (by simp [Item.label]), trivial⟩

theorem closed_cases (cases : List JirInsn) : Closed (cases.flatMap (caseItems x)) := by
  induction cases with
  | nil => trivial
  | cons cs cases ih => exact closed_case.append ih

theorem stands_cases {cases : List JirInsn}
    (h : cases.foldlM (fun st cs ↦ emitCase ir realloc x cs st) st = some st') :
    SiteStands (unlinked body) st (cases.flatMap (caseItems x)) st' := by
  induction cases generalizing st with
  | nil =>
    cases h
    exact ⟨(List.append_nil _).symm, (List.append_nil _).symm, rfl⟩
  | cons cs cases ih =>
    rw [List.foldlM_cons] at h
    obtain ⟨mid, hmid, h⟩ := Option.bind_eq_some_iff.mp h
    exact (stands_case hmid).append closed_case (ih h)

theorem stands_switch {i32c : Option ℕ}
    (h : emitSwitchSite off ir realloc i i32c x st = some st') :
    SiteStands (unlinked body) st
      (straight ((encodersOf (emitLdrI32 jitRegT0 off i32c x.a)).getD []) ++
        (switchCases ir i x.b).flatMap (caseItems x) ++
        [.jmp (.pc (switchKindTarget x.bcPc x.b x.imm))]) st' := by
  rw [emitSwitchSite] at h
  split_ifs at h
  simp only [Option.bind_eq_bind, Option.bind_eq_some_iff] at h
  obtain ⟨load, hload, mid, hmid, mid', hmid', h⟩ := h
  rw [hload, Option.getD_some]
  have hload := stands_emitInto (T := unlinked body) (emits_code _) (local_straight _) hmid
  have hcases := hload.append (closed_straight _) (stands_cases hmid')
  exact hcases.append ((closed_straight _).append (closed_cases _))
    (stands_emitPatched rfl rfl rfl h)

theorem emits_plain : Emits T (emitPlainSite B m f off ir i x) (plainItems B m f off ir i x) := by
  intro realloc buf b h
  unfold emitPlainSite at h
  unfold plainItems
  cases hh : helperOf x with
  | some p =>
    rw [hh] at h
    exact emits_helper _ _ _ _ _ h
  | none =>
    rw [hh] at h
    obtain ⟨es, hes, h⟩ := Option.bind_eq_some_iff.mp h
    rw [hes]
    exact emits_code _ _ _ _ h

theorem local_plain : LocalItems (plainItems B m f off ir i x) := by
  unfold plainItems
  cases helperOf x with
  | some p => exact (local_straight _).append (local_rtItems _)
  | none => exact local_straight _

theorem stands_access {L : Type} [DecidableEq L] {ps : List (Piece L)} (hps : Complete ps)
    (h : emitInto realloc (assemble ps) st = some st') : SiteStands T st (codeItems ps) st' :=
  stands_emitInto hps.emits (fun _ hit ↦ (hps.inner hit).inside) h

theorem stands_siteCode (h : emitSiteCode B m f off ir realloc body i x st = some st') :
    SiteStands (unlinked body) st (siteBody B m f off ir i x) st' := by
  cases hop : x.op
  all_goals simp only [emitSiteCode, hop] at h
  all_goals simp only [siteBody, hop]
  case jmp => exact stands_jmp h
  case jmpIf => exact stands_jmpIf h
  case switch => exact stands_switch h
  case ret =>
    obtain ⟨mid, hmid, rfl⟩ := Option.map_eq_some_iff.mp h
    have hs := stands_emitInto (T := unlinked body) (emits_ret x) (local_ret x) hmid
    exact ⟨hs.code, hs.sites, hs.irOff⟩
  case callSelf => exact stands_emitInto (emits_callSelf x) (local_callSelf x) h
  case callDirect => exact stands_emitInto (emits_callDirect x) (local_callDirect x) h
  case slow => exact stands_emitInto (emits_helperRebase _ _) (local_rebase _ _) h
  case closure => exact stands_emitInto (emits_helperRebase _ _) (local_rebase _ _) h
  case fuelCheck => exact stands_emitInto emits_fuelCheck (local_fuel _ _ _ _) h
  case objNew =>
    obtain ⟨es, hes, h⟩ := Option.bind_eq_some_iff.mp h
    rw [hes]
    exact stands_emitInto (emits_code _) (local_straight _) h
  case arrayGet => exact stands_access (complete_arrayGet _ _ _) h
  case arraySet => exact stands_access (complete_arraySet _ _ _) h
  case objGetAtom => exact stands_access (complete_objGetAtom _ _ _) h
  case objSetAtom => exact stands_access (complete_objSetAtom _ _ _) h
  all_goals exact stands_emitInto emits_plain local_plain h

end Sites

section Shape

variable {B : Backend} {m : JelloBcModule} {f : ℕ} {off : ℕ → ℕ} {ir : List JirInsn}
  {items items' : List Item} {it : Item} {x : JirInsn} {i : ℕ}

/-- No item goes on to the end of the items. -/
def Stops : List Item → Prop
  | [] => True
  | it :: rest => (it.falls = true → rest ≠ []) ∧
      (∀ n, it.goes = some (.skip n) → n < rest.length) ∧ Stops rest

theorem Item.label_of_goes {l : Label} (h : it.goes = some l) : it.label = some l := by
  cases it with
  | jmp l' => exact h
  | jcc cc l' => exact h
  | _ => exact absurd h (by simp [Item.goes])

theorem Stops.append (hc : Closed items) (h : Stops items') (hne : items' ≠ []) :
    Stops (items ++ items') := by
  induction items with
  | nil => exact h
  | cons it rest ih =>
    refine ⟨fun _ ↦ ?_, fun n hn ↦ ?_, ih hc.2⟩
    · exact fun hnil ↦ hne (List.append_eq_nil_iff.mp hnil).2
    · have hle := hc.1 n (Item.label_of_goes hn)
      have hpos := List.length_pos_iff.mpr hne
      change n < (rest ++ items').length
      rw [List.length_append]
      omega

theorem Stops.at {k : ℕ} (h : Stops items) (hk : items[k]? = some it) :
    (it.falls = true → k + 1 < items.length) ∧
      ∀ n, it.goes = some (.skip n) → k + 1 + n < items.length := by
  induction items generalizing k with
  | nil => exact absurd hk (by simp)
  | cons it' rest ih =>
    obtain ⟨hfalls, hskip, hrest⟩ := h
    cases k with
    | zero =>
      obtain rfl : it' = it := by simpa using hk
      refine ⟨fun hf ↦ ?_, fun n hn ↦ ?_⟩
      · have := List.length_pos_iff.mpr (hfalls hf)
        rw [List.length_cons]
        omega
      · have := hskip n hn
        rw [List.length_cons]
        omega
    | succ k =>
      obtain ⟨h₁, h₂⟩ := ih hrest hk
      refine ⟨fun hf ↦ ?_, fun n hn ↦ ?_⟩
      · have := h₁ hf
        rw [List.length_cons]
        omega
      · have := h₂ n hn
        rw [List.length_cons]
        omega

theorem Closed.at {k n : ℕ} (h : Closed items) (hk : items[k]? = some it)
    (hn : it.label = some (.skip n)) : k + 1 + n ≤ items.length := by
  induction items generalizing k with
  | nil => exact absurd hk (by simp)
  | cons it' rest ih =>
    cases k with
    | zero =>
      obtain rfl : it' = it := by simpa using hk
      have := h.1 n hn
      rw [List.length_cons]
      omega
    | succ k =>
      have := ih h.2 hk
      rw [List.length_cons]
      omega

/-- What an item of a site can be: its branches go over items, to targets, or to the body. -/
structure Item.Fits (it : Item) (targets : List ℕ) (body : Bool) : Prop where
  done : it.done = true
  goes (l : Label) : it.goes = some l →
    (∃ n, l = .skip n) ∨ (∃ t ∈ targets, l = .pc t) ∨ (l = .body ∧ body = true)

variable {targets targets' : List ℕ} {body : Bool}

def Fit (items : List Item) (targets : List ℕ) (body : Bool) : Prop :=
  ∀ it ∈ items, it.Fits targets body

theorem Fit.append (h : Fit items targets body) (h' : Fit items' targets body) :
    Fit (items ++ items') targets body := by
  intro it hit
  rcases List.mem_append.mp hit with hit | hit
  · exact h it hit
  · exact h' it hit

theorem Fit.cons (h : it.Fits targets body) (h' : Fit items targets body) :
    Fit (it :: items) targets body := by
  intro it' hit
  rcases List.mem_cons.mp hit with rfl | hit
  · exact h
  · exact h' it' hit

theorem fit_straight {es : List Encoder} (h : es.all Encoder.direct = true) :
    Fit (straight es) targets body := by
  intro it hit
  obtain ⟨e, he, rfl⟩ := List.mem_map.mp hit
  have hdirect := List.all_eq_true.mp h e he
  exact ⟨(inner_plain hdirect).done, fun l hl ↦ absurd hl (by simp [Item.goes])⟩

theorem fits_jcc {cc : Fin 16} {l : Label} (h : (∃ n, l = .skip n) ∨ (∃ t ∈ targets, l = .pc t) ∨
    (l = .body ∧ body = true)) : (Item.jcc cc l).Fits targets body :=
  ⟨rfl, fun _ hl ↦ Option.some.inj hl ▸ h⟩

theorem fits_jmp {l : Label} (h : (∃ n, l = .skip n) ∨ (∃ t ∈ targets, l = .pc t) ∨
    (l = .body ∧ body = true)) : (Item.jmp l).Fits targets body :=
  ⟨rfl, fun _ hl ↦ Option.some.inj hl ▸ h⟩

theorem fits_lea {dst : Gpr} {n : ℕ} : (Item.lea dst n).Fits targets body :=
  ⟨rfl, fun _ hl ↦ absurd hl (by simp [Item.goes])⟩

theorem direct_fieldAccess {access : Gpr → UInt32 → Encoder}
    (h : ∀ base disp, (access base disp).direct = true) (base : Gpr) (o : ℕ) :
    (fieldAccess access base o).all Encoder.direct = true := by
  unfold fieldAccess
  split_ifs
  · simp only [List.all_cons, List.all_nil, h, Bool.and_true]
  · simp only [List.all_cons, List.all_nil, h, Bool.and_true]
    rfl

theorem direct_append {es es' : List Encoder} (h : es.all Encoder.direct = true)
    (h' : es'.all Encoder.direct = true) : (es ++ es').all Encoder.direct = true := by
  rw [List.all_append, h, h']
  rfl

theorem direct_cons {e : Encoder} {es : List Encoder} (he : e.direct = true)
    (h : es.all Encoder.direct = true) : (e :: es).all Encoder.direct = true := by
  rw [List.all_cons, he, h]
  rfl

theorem direct_args (args : List UInt32) : (helperArgs args).all Encoder.direct = true := by
  rw [helperArgs, List.all_cons]
  have hzip : ∀ (regs : List Gpr) (args : List UInt32),
      (List.zipWith Encoder.movR32Imm regs args).all Encoder.direct = true := by
    intro regs
    induction regs with
    | nil => exact fun _ ↦ rfl
    | cons r regs ih =>
      intro args
      cases args with
      | nil => rfl
      | cons v args => exact ih args
  rw [hzip]
  rfl

theorem fit_leaveUnless : Fit leaveUnless targets body :=
  .cons (fits_jcc (.inl ⟨_, rfl⟩)) (fit_straight rfl)

theorem fit_rtItems (h : JitHelper) : Fit (rtItems B h) targets body :=
  (fit_straight rfl).append fit_leaveUnless

theorem fit_rebase (h : JitHelper) (args : List UInt32) :
    Fit (straight (helperArgs args) ++ (rtItems B h ++ straight (frameBase B))) targets body :=
  (fit_straight (direct_args args)).append ((fit_rtItems h).append (fit_straight rfl))

theorem fit_jmpField (o : ℕ) : Fit (jmpFieldItems B o) targets body :=
  (fit_straight rfl).append ((fit_straight rfl).append (fit_straight rfl))

theorem fit_ret (x : JirInsn) : Fit (retItems B x) targets body :=
  ((fit_straight rfl).append fit_leaveUnless).append (fit_jmpField _)

theorem fit_callSelf (x : JirInsn) : Fit (callSelfItems B x) targets true :=
  ((fit_straight (direct_args _)).append (.cons fits_lea
    ((fit_rtItems _).append (fit_straight rfl)))).append
    (.cons (fits_jmp (.inr (.inr ⟨rfl, rfl⟩))) (fun _ hit ↦ absurd hit List.not_mem_nil))

theorem fit_callDirect (x : JirInsn) : Fit (callDirectItems B x) targets body :=
  (fit_straight (direct_args _)).append (.cons fits_lea
    (((fit_straight rfl).append fit_leaveUnless).append (fit_jmpField _)))

theorem fit_fuel : Fit (fuelItems (fuelLoad B) (fuelTest B) (fuelSpend B) (fuelTrap B))
    targets body := by
  have hload : (fuelLoad B).all Encoder.direct = true :=
    direct_append (direct_cons rfl (direct_fieldAccess (fun _ _ ↦ rfl) _ _)) rfl
  have htest : (fuelTest B).all Encoder.direct = true :=
    direct_append (direct_fieldAccess (fun _ _ ↦ rfl) _ _) rfl
  have hcharge : (fuelSpend B).all Encoder.direct = true :=
    direct_cons rfl (direct_fieldAccess (fun _ _ ↦ rfl) _ _)
  have hfit (es : List Encoder) (h : es.all Encoder.direct = true) :
      Fit (straight es) targets body := fit_straight h
  exact (((hfit _ hload).append (.cons (fits_jcc (.inl ⟨_, rfl⟩)) (hfit _ htest))).append
    (.cons (fits_jcc (.inl ⟨_, rfl⟩)) (hfit _ hcharge))).append
    (.cons (fits_jmp (.inl ⟨_, rfl⟩)) (hfit _ rfl))

theorem closed_fuel (load test charge trap : List Encoder) :
    Closed (fuelItems load test charge trap) := by
  have h : Closed (straight load ++ (.jcc x64CcJz (.skip (test.length + 1 + (charge.length + 1) +
      trap.length)) :: (straight test ++ (.jcc x64CcJz (.skip (charge.length + 1)) ::
      (straight charge ++ (.jmp (.skip trap.length) :: straight trap)))))) := by
    refine (closed_straight _).append ⟨?_, (closed_straight _).append ⟨?_,
      (closed_straight _).append ⟨?_, closed_straight _⟩⟩⟩
    all_goals
      intro n hn
      cases hn
      simp only [List.length_append, List.length_cons, length_straight]
      omega
  simpa [fuelItems] using h

theorem closed_jmpField (o : ℕ) : Closed (jmpFieldItems B o) :=
  (closed_straight _).append ((closed_straight _).append (closed_straight _))

theorem closed_ret (x : JirInsn) : Closed (retItems B x) :=
  ((closed_straight _).append closed_leaveUnless).append (closed_jmpField _)

theorem closed_callSelf (x : JirInsn) : Closed (callSelfItems B x) := by
  have hafter : Closed (rtItems B .callSelf ++ straight (frameBase B)) :=
    (closed_rtItems _).append (closed_straight _)
  simp only [callSelfItems]
  generalize rtItems B .callSelf ++ straight (frameBase B) = after at *
  rw [List.append_assoc, List.cons_append]
  refine (closed_straight _).append ⟨fun n hn ↦ ?_, hafter.append
    ⟨fun n hn ↦ absurd hn (by simp [Item.label]), trivial⟩⟩
  cases hn
  rw [List.length_append]
  exact le_rfl

theorem closed_callDirect (x : JirInsn) : Closed (callDirectItems B x) :=
  (closed_straight _).append ⟨fun n hn ↦ by cases hn; exact le_rfl,
    ((closed_straight _).append closed_leaveUnless).append (closed_jmpField _)⟩

theorem stops_jmpField (o : ℕ) : Stops (jmpFieldItems B o) := by
  have hlast : Stops (straight [.jmpR64 .rax]) :=
    ⟨fun h ↦ absurd h (by simp [Item.falls, x64Isa, Encoder.read, Encoder.named]),
      fun n hn ↦ absurd hn (by simp [Item.goes]), trivial⟩
  have hbase := hlast.append (closed_straight (frameBase B)) (by simp)
  exact hbase.append (closed_straight _) (by simp)

theorem stops_ret (x : JirInsn) : Stops (retItems B x) :=
  (stops_jmpField _).append ((closed_straight _).append closed_leaveUnless)
    (by simp [jmpFieldItems])

theorem stops_jmp {l : Label} (h : ∀ n, l ≠ .skip n) : Stops [.jmp l] :=
  ⟨fun hf ↦ absurd hf (by simp [Item.falls]), fun n hn ↦ absurd (Option.some.inj hn) (h n), trivial⟩

theorem stops_lea {dst : Gpr} {n : ℕ} (h : Stops items) (hne : items ≠ []) :
    Stops (.lea dst n :: items) :=
  ⟨fun _ ↦ hne, fun n hn ↦ absurd hn (by simp [Item.goes]), h⟩

theorem stops_callSelf (x : JirInsn) : Stops (callSelfItems B x) := by
  have hafter : Closed (rtItems B .callSelf ++ straight (frameBase B)) :=
    (closed_rtItems _).append (closed_straight _)
  simp only [callSelfItems]
  generalize rtItems B .callSelf ++ straight (frameBase B) = after at *
  rw [List.append_assoc, List.cons_append]
  have hjmp : Stops [.jmp .body] := stops_jmp fun n hn ↦ absurd hn (by simp)
  exact (stops_lea (hjmp.append hafter (by simp)) (by simp)).append (closed_straight _) (by simp)

theorem stops_callDirect (x : JirInsn) : Stops (callDirectItems B x) :=
  (stops_lea ((stops_jmpField _).append ((closed_straight _).append closed_leaveUnless)
    (by simp [jmpFieldItems])) (by simp [leaveUnless])).append (closed_straight _) (by simp)

theorem direct_scalar : ((scalarCode m f off ir i x).getD []).all Encoder.direct = true := by
  cases h : scalarCode m f off ir i x with
  | none => rfl
  | some es =>
    unfold scalarCode at h
    split_ifs at h
    cases hc : emitIr m f off (i32cAt m f ir i) (switchCases ir i x.b) x with
    | code code =>
      rw [hc] at h
      exact direct_encodersOf h
    | branch code =>
      rw [hc] at h
      exact absurd h (by simp)
    | helper =>
      rw [hc] at h
      exact absurd h (by simp)

theorem closed_plainItems : Closed (plainItems B m f off ir i x) := by
  unfold plainItems
  cases helperOf x with
  | some p => exact (closed_straight _).append (closed_rtItems _)
  | none => exact closed_straight _

theorem fit_plainItems : Fit (plainItems B m f off ir i x) targets body := by
  unfold plainItems
  cases helperOf x with
  | some p => exact (fit_straight (direct_args _)).append (fit_rtItems _)
  | none => exact fit_straight direct_scalar

theorem closed_rebase (h : JitHelper) (args : List UInt32) :
    Closed (straight (helperArgs args) ++ (rtItems B h ++ straight (frameBase B))) :=
  (closed_straight _).append ((closed_rtItems h).append (closed_straight _))

theorem closed_branch (l : Label) (h : ∀ n, l ≠ .skip n) (cc : Fin 16) :
    Closed [.jcc cc l] ∧ Closed [.jmp l] :=
  ⟨⟨fun n hn ↦ absurd (Option.some.inj hn) (h n), trivial⟩,
    ⟨fun n hn ↦ absurd (Option.some.inj hn) (h n), trivial⟩⟩

theorem closed_siteBody : Closed (siteBody B m f off ir i x) := by
  have hbranch := fun t ↦ closed_branch (.pc t) fun n hn ↦ absurd hn (by simp)
  cases hop : x.op
  all_goals simp only [siteBody, hop]
  case jmp => exact (hbranch _ 0).2
  case jmpIf => exact (closed_straight _).append (hbranch _ _).1
  case switch => exact ((closed_straight _).append (closed_cases _)).append (hbranch _ 0).2
  case ret => exact closed_ret x
  case callSelf => exact closed_callSelf x
  case callDirect => exact closed_callDirect x
  case slow => exact closed_rebase _ _
  case closure => exact closed_rebase _ _
  case fuelCheck => exact closed_fuel _ _ _ _
  case objNew => exact closed_straight _
  case arrayGet => exact (complete_arrayGet _ _ _).closed
  case arraySet => exact (complete_arraySet _ _ _).closed
  case objGetAtom => exact (complete_objGetAtom _ _ _).closed
  case objSetAtom => exact (complete_objSetAtom _ _ _).closed
  all_goals exact closed_plainItems

/-- Where an item among others leads: over items, back to one, to a target, or to the body. -/
structure Item.Leads (items : List Item) (targets : List ℕ) (body : Bool) (k : ℕ) (it : Item) :
    Prop where
  done : it.done = true
  goes (l : Label) : it.goes = some l → (∃ n, l = .skip n) ∨ (∃ t ∈ targets, l = .pc t) ∨
    (l = .body ∧ body = true) ∨
      ∃ n, l = .back n ∧ ∃ j ≤ k, ∀ o, itemAt o items (k + 1) = itemAt o items j + n

def Led (items : List Item) (targets : List ℕ) (body : Bool) : Prop :=
  ∀ k (it : Item), items[k]? = some it → it.Leads items targets body k

theorem Fit.led (h : Fit items targets body) : Led items targets body := by
  intro k it hk
  have hfits := h it (List.mem_of_getElem? hk)
  refine ⟨hfits.done, fun l hl ↦ ?_⟩
  rcases hfits.goes l hl with hskip | hpc | hbody
  · exact .inl hskip
  · exact .inr (.inl hpc)
  · exact .inr (.inr (.inl hbody))

theorem led_access {L : Type} [DecidableEq L] {ps : List (Piece L)} (hps : Complete ps) :
    Led (codeItems ps) targets body := by
  intro k it hk
  have hinner := hps.inner (List.mem_of_getElem? hk)
  refine ⟨hinner.done, fun l hl ↦ ?_⟩
  rcases hinner.goes l hl with hskip | ⟨n, rfl⟩
  · exact .inl hskip
  · exact .inr (.inr (.inr ⟨n, rfl, hps.loops k it n hk hl⟩))

theorem Led.plain {e : Encoder} (h : Led items targets body) (he : e.direct = true) :
    Led (.plain e :: items) targets body := by
  intro k it hk
  cases k with
  | zero =>
    obtain rfl : .plain e = it := by simpa using hk
    exact ⟨(inner_plain he).done, fun l hl ↦ absurd hl (by simp [Item.goes])⟩
  | succ k =>
    have hat (o : ℕ) (j : ℕ) : itemAt o (.plain e :: items) (j + 1) =
        itemAt (o + (Item.plain e).size) items j := by
      simp only [itemAt, List.take_succ_cons, itemsSize_cons, Nat.add_assoc]
    have hleads := h k it hk
    refine ⟨hleads.done, fun l hl ↦ ?_⟩
    rcases hleads.goes l hl with hskip | hpc | hbody | ⟨n, hn, j, hj, hback⟩
    · exact .inl hskip
    · exact .inr (.inl hpc)
    · exact .inr (.inr (.inl hbody))
    · refine .inr (.inr (.inr ⟨n, hn, j + 1, Nat.succ_le_succ hj, fun o ↦ ?_⟩))
      rw [hat, hat, hback]

theorem led_siteBody (hx : ir[i]? = some x) :
    Led (siteBody B m f off ir i x) (branchTargets ir i) (x.op == .callSelf) := by
  have hnil {ts : List ℕ} {b : Bool} : Fit [] ts b := fun _ hit ↦ absurd hit List.not_mem_nil
  cases hop : x.op
  all_goals simp only [siteBody, hop, branchTargets, hx]
  case jmp =>
    exact Fit.led (.cons (fits_jmp (.inr (.inl ⟨_, List.mem_singleton_self _, rfl⟩))) hnil)
  case jmpIf =>
    exact Fit.led ((fit_straight direct_getD).append
      (.cons (fits_jcc (.inr (.inl ⟨_, List.mem_singleton_self _, rfl⟩))) hnil))
  case switch =>
    refine Fit.led (((fit_straight direct_getD).append fun it hit ↦ ?_).append
      (.cons (fits_jmp (.inr (.inl ⟨_, List.mem_append_right _ (List.mem_singleton_self _),
        rfl⟩))) hnil))
    obtain ⟨cs, hcs, hit⟩ := List.mem_flatMap.mp hit
    have htarget : switchKindTarget x.bcPc x.b cs.imm ∈
        ((switchCases ir i x.b).map fun cs ↦ switchKindTarget x.bcPc x.b cs.imm) ++
          [switchKindTarget x.bcPc x.b x.imm] :=
      List.mem_append_left _ (List.mem_map_of_mem hcs)
    exact (fit_straight rfl).append (.cons (fits_jcc (.inr (.inl ⟨_, htarget, rfl⟩))) hnil) it hit
  case ret => exact (fit_ret x).led
  case callSelf => exact (fit_callSelf x).led
  case callDirect => exact (fit_callDirect x).led
  case slow => exact (fit_rebase _ _).led
  case closure => exact (fit_rebase _ _).led
  case fuelCheck => exact fit_fuel.led
  case objNew =>
    cases hes : objNew B off x with
    | none => exact hnil.led
    | some es =>
      obtain ⟨store, hstore, rfl⟩ := Option.map_eq_some_iff.mp hes
      exact (fit_straight (direct_append (by rfl) (direct_encodersOf hstore))).led
  case arrayGet => exact led_access (complete_arrayGet _ _ _)
  case arraySet => exact led_access (complete_arraySet _ _ _)
  case objGetAtom => exact led_access (complete_objGetAtom _ _ _)
  case objSetAtom => exact led_access (complete_objSetAtom _ _ _)
  all_goals exact fit_plainItems.led

theorem stops_siteBody (hcase : x.op ≠ .switchCase) (hop : x.op.falls = false) :
    Stops (siteBody B m f off ir i x) ∧ siteBody B m f off ir i x ≠ [] := by
  have hjmp := fun t ↦ stops_jmp (l := .pc t) fun n hn ↦ absurd hn (by simp)
  cases hop' : x.op
  all_goals simp only [siteBody, hop']
  case jmp => exact ⟨hjmp _, by simp⟩
  case switch =>
    exact ⟨(hjmp _).append ((closed_straight _).append (closed_cases _)) (by simp), by simp⟩
  case ret => exact ⟨stops_ret x, by simp [retItems, leaveUnless]⟩
  case callSelf => exact ⟨stops_callSelf x, by simp [callSelfItems]⟩
  case callDirect => exact ⟨stops_callDirect x, by simp [callDirectItems]⟩
  case switchCase => exact absurd hop' hcase
  all_goals exact absurd hop (by simp [hop', JirOp.falls, JirOp.calls])

end Shape

end JelloVM
