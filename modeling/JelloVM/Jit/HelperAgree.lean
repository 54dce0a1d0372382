import JelloVM.ProtoCache

namespace JelloVM

open ByteMemory Logged OpenAddressing

/-- An object without its values and its prototype, which a store of an entry changes. -/
def JelloObject.shape (o : JelloObject) : JelloObject := { o with vals := fun _ ↦ 0, proto := 0 }

section Hints

variable {o o' o₁ o₂ : JelloObject} {m : AtomMap} {a b i j k : UInt32} {e e₁ e₂ : Bool}

theorem eq_of_shape (hsame : SameEntries o o') (hheader : o'.header = o.header)
    (hshape : o'.shape = o.shape) : o' = o := by
  have hvals : o'.vals = o.vals := congrArg Table.val hsame.1
  have hproto : o'.proto = o.proto := congrArg Prod.snd hheader
  calc
    o' = { o'.shape with vals := o'.vals, proto := o'.proto } := rfl
    _ = { o.shape with vals := o.vals, proto := o.proto } := by rw [hshape, hvals, hproto]
    _ = o := rfl

/-- Where the hint points at the entry, the search finds the same slot. A table that grows on the
way has another capacity. -/
theorem upsert_of_slotHolds (h : Models o m) (hs : slotHolds o a k = true)
    (hu : jelloObjectUpsert o k = some (i, e, o')) (hshape : o'.shape = o.shape) :
    (a, true, o) = (i, e, o') := by
  have ha : Holds o.table a.toNat k := slotHolds_iff.mp hs
  have hheader := header_upsert hu
  have hcap : o'.cap = o.cap := by
    change o'.shape.cap = o.shape.cap
    rw [hshape]
  unfold jelloObjectUpsert at hu
  obtain ⟨oc, hens, hu⟩ := Option.bind_eq_some_iff.mp hu
  have hoc := ensureCap_spec h hens
  obtain ⟨⟨q, found, o₁⟩, hf, hu⟩ := Option.bind_eq_some_iff.mp hu
  obtain ⟨hfound, ⟨rfl, hq⟩ | ⟨-, habs, -⟩⟩ := findSlot_spec hoc.inv hf
  · obtain ⟨rfl, rfl, rfl⟩ : q = i ∧ true = e ∧ objectIcStore o₁ k q = o' := by simpa using hu
    have hstore := sameEntries_icStore o₁ k q
    have hsame : SameEntries oc (objectIcStore o₁ k q) :=
      ⟨hstore.1.trans hfound.1, hstore.2.trans hfound.2⟩
    have hfits : oc = o := by
      unfold ensureCap at hens
      split_ifs at hens with hfit
      · exact (Option.some.inj hens).symm
      · by_cases hc : o.cap.toNat = 2 ^ 31
        · rw [rehash_wraps h hc (len_ne_zero_of_grows h.inv.pow hfit)] at hens
          cases hens
        · obtain ⟨o₂, hr, -, -, hdouble, -⟩ := rehash_spec h hc
          obtain rfl := Option.some.inj (hr.symm.trans hens)
          have hcap' : (objectIcStore o₁ k q).cap.toNat = o₂.cap.toNat := congrArg Table.cap hsame.1
          have hbounds := h.inv.pow.bounds
          rw [hcap] at hcap'
          omega
    subst hfits
    rw [UInt32.toNat_inj.mp (h.inv.wf.unique ha hq), eq_of_shape hsame hheader hshape]
  · have hnone := hoc.rep.of_absent habs
    rw [h.rep.of_holds ha] at hnone
    cases hnone

theorem setSlot_hints (h : Models o m) (h₁ : jelloObjectSetSlot o a k = some (i, e₁, o₁))
    (h₂ : jelloObjectSetSlot o b k = some (j, e₂, o₂)) (hshape : o₂.shape = o₁.shape) :
    jelloObjectSetSlot o a k = jelloObjectSetSlot o b k := by
  unfold jelloObjectSetSlot at h₁ h₂ ⊢
  split_ifs at h₁ h₂ ⊢ with ha hb hb
  · rw [UInt32.toNat_inj.mp (h.inv.wf.unique (slotHolds_iff.mp ha) (slotHolds_iff.mp hb))]
  · obtain ⟨rfl, rfl, rfl⟩ : a = i ∧ true = e₁ ∧ o = o₁ := by simpa using h₁
    rw [h₂, upsert_of_slotHolds h ha h₂ hshape]
  · obtain ⟨rfl, rfl, rfl⟩ : b = j ∧ true = e₂ ∧ o = o₂ := by simpa using h₂
    rw [h₁, upsert_of_slotHolds h hb h₁ hshape.symm]
  · rfl

theorem getSlot_hints {v₁ v₂ : JelloValue} (h : Models o m)
    (h₁ : jelloObjectGetSlot o a k = some (v₁, o'))
    (h₂ : jelloObjectGetSlot o b k = some (v₂, o')) :
    jelloObjectGetSlot o a k = jelloObjectGetSlot o b k := by
  rw [h₁, h₂, (getSlot_spec h h₁).1, (getSlot_spec h h₂).1]

end Hints

section Programs

variable {ctx : Ctx} {s : Store} {r : ℕ} {p : JelloValue} {o : JelloObject} {k i : UInt32}

theorem ends_vmStoreFromBoxed_kept (ctx : Ctx) (r : ℕ) (v : JelloValue) (hf : s.heap.FreeAbove)
    (hr : s.heap.Room 1) :
    Ends (vmStoreFromBoxed ctx.m ctx.fpu ctx.f ctx.rf r v)
      (fun _ s' ↦ ObjectsKept s.heap s'.heap) s :=
  spec_vmStoreFromBoxed_of_clone (regOk_true _ _ _ _) _ _ (fun _ _ ↦ .refl hf) fun _ ↦
    ends_cloneNumbox_kept hf hr

theorem ends_objStoreSlot_shape (hf : s.heap.FreeAbove) (hr : s.heap.Room 1)
    (ho : s.heap.cells p = some (.object o)) :
    Ends (objStoreSlot ctx r p k i) (fun _ s' ↦ ∃ o', s'.heap.cells p = some (.object o') ∧
      o'.shape = o.shape) s := by
  refine spec_bind.mpr ((ends_boxForSlot_kept hf hr).mono fun v s₁ hg ↦ ?_)
  have ho₁ : s₁.heap.cells p = some (.object o) := (hg.objects p o).mpr ho
  refine spec_bind.mpr (ends_objectAt_of ho₁ (spec_bind.mpr (spec_writeCell.mpr ?_)))
  have hcell : (s₁.heap.write p (.object (writeSlot o i v))).cells p =
      some (.object (writeSlot o i v)) := Heap.write_self _ _ _
  refine spec_ite.mpr ⟨fun _ ↦ ?_, fun _ ↦ (spec_pure _).mpr ⟨_, hcell, rfl⟩⟩
  refine (ends_objUpdateProtoCache hcell v).mono ?_
  rintro _ s' ⟨q, rfl⟩
  exact ⟨_, Heap.write_self _ _ _, rfl⟩

theorem ends_objStoreTyped_shape {existed : Bool} (hf : s.heap.FreeAbove) (hr : s.heap.Room 1)
    (ho : s.heap.cells p = some (.object o)) :
    Ends (objStoreTyped ctx r p k i existed) (fun _ s' ↦ ∃ o',
      s'.heap.cells p = some (.object o') ∧ o'.shape = o.shape) s := by
  refine spec_ite.mpr ⟨fun _ ↦ ?_, fun _ ↦ ends_objStoreSlot_shape hf hr ho⟩
  refine spec_bind.mpr (ends_objectAt_of ho (spec_bind.mpr ?_))
  refine (ends_vmStoreNumInplace_kept hf).mono fun w s₁ ⟨hg, hnext⟩ ↦ ?_
  have ho₁ : s₁.heap.cells p = some (.object o) := (hg.objects p o).mpr ho
  cases w with
  | none =>
    have hr₁ : s₁.heap.Room 1 := by rwa [Heap.Room, hnext]
    exact ends_objStoreSlot_shape hg.free hr₁ ho₁
  | some v =>
    refine spec_bind.mpr (ends_objectAt_of ho₁ (spec_writeCell.mpr ?_))
    exact ⟨_, Heap.write_self _ _ _, rfl⟩

variable {obj : ℕ}

/-- A get in the object's own table leaves the object as the lookup has left it. -/
theorem ends_getAtom_own (reg : ℕ) (hint : UInt32) (hp : load64 s.mem (ctx.rf.addr obj) ≠ 0)
    (ho : s.heap.cells (load64 s.mem (ctx.rf.addr obj)) = some (.object o))
    (hown : !ctx.m.protoEnabled ∨ k = jelloAtomProto ∨ o.proto = 0)
    (hf : s.heap.FreeAbove) (hr : s.heap.Room 1) :
    Ends (vmObjGetAtomTyped ctx reg obj k hint) (fun ok s' ↦ ok = true ∧
      ∃ v o', jelloObjectGetSlot o hint k = some (v, o') ∧
        s'.heap.cells (load64 s.mem (ctx.rf.addr obj)) = some (.object o')) s := by
  refine spec_bind.mpr (spec_vmLoadPtr.mpr ⟨trivial, ?_⟩)
  rw [if_neg hp]
  refine spec_bind.mpr (spec_note.mpr ⟨trivial, spec_bind.mpr (ends_objectAt_of ho ?_)⟩)
  rw [if_pos hown]
  refine spec_bind.mpr (ends_orDiverge fun ⟨v, o'⟩ hv ↦ spec_bind.mpr (spec_writeCell.mpr ?_))
  generalize load64 s.mem (ctx.rf.addr obj) = p at ho ⊢
  have hf₁ : (s.heap.write p (.object o')).FreeAbove := hf.write (by rw [ho]; rfl) _
  have hr₁ : (s.heap.write p (.object o')).Room 1 := hr
  have hcell : (s.heap.write p (.object o')).cells p = some (.object o') := Heap.write_self _ _ _
  generalize hs₁ : { s with heap := s.heap.write p (.object o') } = s₁
  have hheap : s₁.heap = s.heap.write p (.object o') := by rw [← hs₁]
  rw [← hheap] at hf₁ hr₁ hcell
  have hdone {x : StoreM Unit} (hx : Ends x (fun _ s' ↦ ObjectsKept s₁.heap s'.heap) s₁) :
      Ends (do x; pure true : StoreM Bool) (fun ok s' ↦ ok = true ∧
        ∃ v o', jelloObjectGetSlot o hint k = some (v, o') ∧
          s'.heap.cells p = some (.object o')) s₁ :=
    spec_bind.mpr (hx.mono fun _ s' hg ↦ (spec_pure _).mpr
      ⟨rfl, v, o', hv, (hg.objects p o').mpr hcell⟩)
  have hboxed := hdone (ends_vmStoreFromBoxed_kept ctx reg v hf₁ hr₁)
  have h4 (w : UInt32) : Ends (vmStoreU32 ctx.rf reg w)
      (fun _ s' ↦ ObjectsKept s₁.heap s'.heap) s₁ := spec_vmStoreU32.mpr ⟨trivial, .refl hf₁⟩
  have h8 (w : UInt64) : Ends (vmStore64 ctx.rf reg w)
      (fun _ s' ↦ ObjectsKept s₁.heap s'.heap) s₁ := spec_vmStore64.mpr ⟨trivial, .refl hf₁⟩
  refine spec_bind.mpr (spec_vmRegKind.mpr ⟨trivial, trivial, ?_⟩)
  cases regKind ctx.m ctx.f reg
  case i8 | i16 | i32 => exact spec_ite.mpr ⟨fun _ ↦ hdone (h4 _), fun _ ↦ hboxed⟩
  case f64 =>
    refine spec_bind.mpr (spec_boxF64At fun x ↦ ?_)
    cases x with
    | some x => exact hdone (h8 _)
    | none => exact hboxed
  case f32 =>
    refine spec_bind.mpr (spec_boxF32At fun x ↦ ?_)
    cases x with
    | some x => exact hdone (h4 _)
    | none => exact hboxed
  case i64 =>
    refine spec_bind.mpr (spec_boxI64At fun x ↦ ?_)
    cases x with
    | some x => exact hdone (h8 _)
    | none => exact hboxed
  all_goals exact hboxed

theorem ends_setAtom_shape (reg : ℕ) (k hint : UInt32)
    (hp : load64 s.mem (ctx.rf.addr obj) ≠ 0)
    (ho : s.heap.cells (load64 s.mem (ctx.rf.addr obj)) = some (.object o))
    (hf : s.heap.FreeAbove) (hr : s.heap.Room 1) :
    Ends (vmObjSetAtomTyped ctx reg obj k hint) (fun ok s' ↦ ok = true ∧
      ∃ i e o₁ o', jelloObjectSetSlot o hint k = some (i, e, o₁) ∧
        s'.heap.cells (load64 s.mem (ctx.rf.addr obj)) = some (.object o') ∧
        o'.shape = o₁.shape) s := by
  refine spec_bind.mpr (spec_vmLoadPtr.mpr ⟨trivial, ?_⟩)
  rw [if_neg hp]
  refine spec_bind.mpr (spec_note.mpr ⟨trivial, spec_bind.mpr (ends_objectAt_of ho ?_)⟩)
  refine spec_bind.mpr (ends_orDiverge fun ⟨i, e, o₁⟩ hi ↦ spec_bind.mpr (spec_writeCell.mpr ?_))
  generalize load64 s.mem (ctx.rf.addr obj) = p at ho ⊢
  have hf₁ : (s.heap.write p (.object o₁)).FreeAbove := hf.write (by rw [ho]; rfl) _
  have hcell : (s.heap.write p (.object o₁)).cells p = some (.object o₁) := Heap.write_self _ _ _
  refine spec_bind.mpr ((ends_objStoreTyped_shape
    (s := { s with heap := s.heap.write p (.object o₁) }) hf₁ hr hcell).mono ?_)
  rintro _ s' ⟨o', hcell, hshape⟩
  exact (spec_pure _).mpr ⟨rfl, i, e, o₁, o', hi, hcell, hshape⟩

end Programs

section Agreement

/-- A helper that answers as a handler does, where the handler comes to an end without a trap. -/
theorem HelperAgrees.same_of_answer {y₀ y : StoreM Bool} {s : Store}
    (h : HelperAgrees (do
      let ok ← y₀
      pure (if ok then .continue_ else .trap)) (do
      let _ ← y
      pure ()) s)
    (hruns : ∃ r, result (do
      let _ ← y
      pure () : StoreM Unit) s = .ok r)
    (hok : Ends y (fun _ s' ↦ s'.excPending = false) s) :
    ∃ b₀ b s', result y₀ s = .ok (b₀, s') ∧ result y s = .ok (b, s') := by
  obtain ⟨r, hr⟩ := hruns
  obtain ⟨b, s', hy, hr'⟩ := bind_ok hr
  obtain rfl : ((), s') = r := Except.ok.inj hr'
  cases hh : result (do
      let ok ← y₀
      pure (if ok then .continue_ else .trap) : StoreM JitExit) s with
  | error e =>
    have herr := (h.fault e).mp hh
    rw [hr] at herr
    cases herr
  | ok r₀ =>
    obtain ⟨b₀, s₀, hy₀, hr₀⟩ := bind_ok hh
    have hsame := h.same r₀.1 r₀.2 s' hh hr (hok.of_result hy)
    obtain rfl : s₀ = r₀.2 := by
      have hpair : (_, s₀) = r₀ := Except.ok.inj hr₀
      exact congrArg Prod.snd hpair
    rw [hsame.2] at hy₀
    exact ⟨b₀, b, s', hy₀, hy⟩

variable (ctx : Ctx) (ins : JelloInsn)

theorem vmInsn_of_ne (h : ins.op ≠ .assert) :
    vmInsn ctx ins = dataOp ins.op ctx ins := if_neg h

/-- The object is one that the operations on objects make, the heap one that the allocator makes,
and the instruction comes to an end. -/
structure ObjectOk (s : Store) : Prop where
  models : ∀ o, s.heap.cells (load64 s.mem (ctx.rf.addr ins.rb)) = some (.object o) →
    ∃ m, Models o m
  null : s.heap.cells 0 = none
  free : s.heap.FreeAbove
  room : s.heap.Room 1
  runs : ∃ r, result (vmInsn ctx ins) s = .ok r

variable {ctx ins} {s : Store}

theorem ObjectOk.ne_zero {o : JelloObject} (hok : ObjectOk ctx ins s)
    (ho : s.heap.cells (load64 s.mem (ctx.rf.addr ins.rb)) = some (.object o)) :
    load64 s.mem (ctx.rf.addr ins.rb) ≠ 0 := by
  intro h0
  rw [h0, hok.null] at ho
  cases ho

theorem getUnhinted_of_agrees (hok : ObjectOk ctx ins s) (hop : ins.op = .objGetAtom)
    (hs : s.excPending = false)
    (ha : HelperAgrees (jitObjGetAtom ctx ins.ra ins.rb ins.imm) (opObjGetAtom ctx ins) s) :
    GetUnhinted ctx ins s := by
  intro o ho hown
  obtain ⟨m, hm⟩ := hok.models o ho
  have hp := hok.ne_zero ho
  have hget (hint : UInt32) := ends_getAtom_own ins.ra hint hp ho hown hok.free hok.room
  have hruns := hok.runs
  rw [vmInsn_of_ne ctx ins (by simp [hop]), hop] at hruns
  have hpending : Ends (vmObjGetAtomTyped ctx ins.ra ins.rb ins.imm ins.c.toUInt32)
      (fun _ s' ↦ s'.excPending = false) s :=
    ((ends_vmObjGetAtomTyped ctx ins.ra ins.rb ins.imm _ hs).and (hget _)).mono
      fun ok s' ⟨hpend, htrue, _⟩ ↦ by rw [hpend, htrue]; rfl
  obtain ⟨b₀, b, s', h₀, h⟩ := ha.same_of_answer hruns hpending
  obtain ⟨-, v₀, o₀, hl₀, hc₀⟩ := (hget 0).of_result h₀
  obtain ⟨-, v, o', hl, hc⟩ := (hget _).of_result h
  obtain rfl : o' = o₀ := Cell.object.inj (Option.some.inj (hc.symm.trans hc₀))
  exact getSlot_hints hm hl hl₀

theorem setUnhinted_of_agrees (hok : ObjectOk ctx ins s) (hop : ins.op = .objSetAtom)
    (hs : s.excPending = false)
    (ha : HelperAgrees (jitObjSetAtom ctx ins.ra ins.rb ins.imm) (opObjSetAtom ctx ins) s) :
    SetUnhinted ctx ins s := by
  intro o ho
  obtain ⟨m, hm⟩ := hok.models o ho
  have hp := hok.ne_zero ho
  have hset (hint : UInt32) := ends_setAtom_shape ins.ra ins.imm hint hp ho hok.free hok.room
  have hruns := hok.runs
  rw [vmInsn_of_ne ctx ins (by simp [hop]), hop] at hruns
  have hpending : Ends (vmObjSetAtomTyped ctx ins.ra ins.rb ins.imm ins.c.toUInt32)
      (fun _ s' ↦ s'.excPending = false) s :=
    ((ends_vmObjSetAtomTyped ctx ins.ra ins.rb ins.imm _ hs).and (hset _)).mono
      fun ok s' ⟨hpend, htrue, _⟩ ↦ by rw [hpend, htrue]; rfl
  obtain ⟨b₀, b, s', h₀, h⟩ := ha.same_of_answer hruns hpending
  obtain ⟨-, i₀, e₀, o₀, f₀, hl₀, hc₀, hshape₀⟩ := (hset 0).of_result h₀
  obtain ⟨-, i, e, o', f, hl, hc, hshape⟩ := (hset _).of_result h
  obtain rfl : f = f₀ := Cell.object.inj (Option.some.inj (hc.symm.trans hc₀))
  exact setSlot_hints hm hl hl₀ (hshape₀.symm.trans hshape)

variable (ctx)

/-- A helper does what the interpreter does exactly when a typed read or write is not refused, a
constant is in both tables, and the hint of a lookup makes no difference. -/
theorem helper_agrees {pc : ℕ} {b : List JirInsn} {x : JirInsn} {h : StoreM JitExit} {s : Store}
    (hb : lowerOne ctx.m ctx.f pc = some b) (hx : x ∈ b) (hh : jitHelper ctx x = some h)
    (hs : s.excPending = false) :
    (HelperOk ctx (ctx.fn.insn pc) s → HelperAgrees h (vmInsn ctx (ctx.fn.insn pc)) s) ∧
      (((ctx.fn.insn pc).op = .objGetAtom ∨ (ctx.fn.insn pc).op = .objSetAtom →
          ObjectOk ctx (ctx.fn.insn pc) s) →
        HelperAgrees h (vmInsn ctx (ctx.fn.insn pc)) s → HelperOk ctx (ctx.fn.insn pc) s) := by
  have hof := helperOf_lowered ctx hb hx hh
  generalize ctx.fn.insn pc = ins at hof ⊢
  have hplain {op : JelloOp} (hop : ins.op = op) (hm : Mirrors h (dataOp op ctx ins))
      (hne : op ≠ .assert ∧ op.rwWidth = none ∧ op ≠ .constBytes ∧ op ≠ .objGetAtom ∧
        op ≠ .objSetAtom) :
      (HelperOk ctx ins s → HelperAgrees h (vmInsn ctx ins) s) ∧
        ((ins.op = .objGetAtom ∨ ins.op = .objSetAtom → ObjectOk ctx ins s) →
          HelperAgrees h (vmInsn ctx ins) s → HelperOk ctx ins s) := by
    obtain ⟨hassert, hrw, hbytes, hget, hset⟩ := hop ▸ hne
    rw [vmInsn_of_ne ctx ins hassert]
    obtain ⟨hto, hfrom⟩ := helperOk_of_mirrors ctx ins hs (hop.symm ▸ hm) hrw hbytes hget hset
    exact ⟨hto, fun _ ↦ hfrom⟩
  have hrw {op : JelloOp} {w : UInt32} (hop : ins.op = op) (hw : op.rwWidth = some w)
      (hiff : HelperAgrees h (dataOp op ctx ins) s ↔ ¬ RwRefused w ctx ins s)
      (hne : op ≠ .assert ∧ op ≠ .constBytes ∧ op ≠ .objGetAtom ∧ op ≠ .objSetAtom) :
      (HelperOk ctx ins s → HelperAgrees h (vmInsn ctx ins) s) ∧
        ((ins.op = .objGetAtom ∨ ins.op = .objSetAtom → ObjectOk ctx ins s) →
          HelperAgrees h (vmInsn ctx ins) s → HelperOk ctx ins s) := by
    obtain ⟨hassert, hbytes, hget, hset⟩ := hop ▸ hne
    rw [vmInsn_of_ne ctx ins hassert, hop, hiff]
    refine ⟨fun hok ↦ hok.rw w (hop ▸ hw), fun _ hr ↦ ⟨fun w' hw' ↦ ?_,
      fun h ↦ absurd h hbytes, fun h ↦ absurd h hget, fun h ↦ absurd h hset⟩⟩
    rw [hop, hw, Option.some.injEq] at hw'
    exact hw' ▸ hr
  cases hof with
  | bytesNew hop => exact hplain hop (mirrors_bytesNew ctx ins) (by decide)
  | bytesLen hop => exact hplain hop (mirrors_bytesLen ctx ins) (by decide)
  | bytesEq hop => exact hplain hop (mirrors_bytesEq ctx ins) (by decide)
  | bytesGetU8 hop => exact hplain hop (mirrors_bytesGetU8 ctx ins) (by decide)
  | bytesSetU8 hop => exact hplain hop (mirrors_bytesSetU8 ctx ins) (by decide)
  | bytesRead kind hop =>
    exact hrw hop (rwWidth_op kind).1 (agrees_bytesRead_iff ctx ins kind hs)
      (by cases kind <;> decide)
  | bytesWrite kind hop =>
    exact hrw hop (rwWidth_op kind).2 (agrees_bytesWrite_iff ctx ins kind hs)
      (by cases kind <;> decide)
  | arrayLen hop => exact hplain hop (mirrors_arrayLen ctx ins) (by decide)
  | arrayGet hop => exact hplain hop (mirrors_arrayGet ctx ins) (by decide)
  | arraySet hop => exact hplain hop (mirrors_arraySet ctx ins) (by decide)
  | arrayNew hop => exact hplain hop (mirrors_arrayNew ctx ins) (by decide)
  | objGetAtom hop =>
    rw [vmInsn_of_ne ctx ins (by simp [hop]), hop]
    refine ⟨fun hok ↦ ?_, fun hobj ha ↦ ⟨fun w hw ↦ ?_, fun h ↦ ?_, fun _ ↦ ?_, fun h ↦ ?_⟩⟩
    · have hm := mirrors_answered fun s hs ↦ ends_vmObjGetAtomTyped ctx ins.ra ins.rb ins.imm 0 hs
      have hsame : result (do
            let _ ← vmObjGetAtomTyped ctx ins.ra ins.rb ins.imm 0
            pure () : StoreM Unit) s = result (opObjGetAtom ctx ins) s := by
        rw [opObjGetAtom, result_bind, result_bind, getAtom_unhinted ctx ins (hok.getAtom hop)]
      exact ((hm s hs).congr hsame).agrees
    · rw [hop] at hw
      exact absurd hw (by simp [JelloOp.rwWidth])
    · exact absurd (hop.symm.trans h) (by decide)
    · exact getUnhinted_of_agrees (hobj (.inl rfl)) hop hs ha
    · exact absurd (hop.symm.trans h) (by decide)
  | objSetAtom hop =>
    rw [vmInsn_of_ne ctx ins (by simp [hop]), hop]
    refine ⟨fun hok ↦ ?_, fun hobj ha ↦ ⟨fun w hw ↦ ?_, fun h ↦ ?_, fun h ↦ ?_, fun _ ↦ ?_⟩⟩
    · have hm := mirrors_answered fun s hs ↦ ends_vmObjSetAtomTyped ctx ins.ra ins.rb ins.imm 0 hs
      have hsame : result (do
            let _ ← vmObjSetAtomTyped ctx ins.ra ins.rb ins.imm 0
            pure () : StoreM Unit) s = result (opObjSetAtom ctx ins) s := by
        rw [opObjSetAtom, result_bind, result_bind, setAtom_unhinted ctx ins (hok.setAtom hop)]
      exact ((hm s hs).congr hsame).agrees
    · rw [hop] at hw
      exact absurd hw (by simp [JelloOp.rwWidth])
    · exact absurd (hop.symm.trans h) (by decide)
    · exact absurd (hop.symm.trans h) (by decide)
    · exact setUnhinted_of_agrees (hobj (.inr rfl)) hop hs ha
  | assert hop =>
    have hrw' : ins.op.rwWidth = none := by rw [hop]; rfl
    have hassert : vmInsn ctx ins = (do let _ ← opAssert ctx ins; pure ()) := if_pos hop
    rw [hassert]
    obtain ⟨hto, hfrom⟩ := helperOk_of_mirrors ctx ins hs (mirrors_assert ctx ins) hrw'
      (by simp [hop]) (by simp [hop]) (by simp [hop])
    exact ⟨hto, fun _ ↦ hfrom⟩
  | constBytes hop =>
    rw [vmInsn_of_ne ctx ins (by simp [hop]), hop]
    refine ⟨fun hok ↦ ?_, fun _ ha ↦ ⟨fun w hw ↦ ?_, fun _ ↦ ?_, fun h ↦ ?_, fun h ↦ ?_⟩⟩
    · obtain ⟨hcache, hpool⟩ := hok.constBytes hop
      exact (mirrors_constBytes ctx ins hs hcache hpool).agrees
    · rw [hop] at hw
      exact absurd hw (by simp [JelloOp.rwWidth])
    · by_contra hno
      exact constBytes_disagrees ctx ins hs (by omega) ha
    · rw [hop] at h
      exact absurd h (by simp)
    · rw [hop] at h
      exact absurd h (by simp)
  | closure hop => exact hplain hop (mirrors_closure ctx ins) (by decide)
  | conv kind hop =>
    exact hplain hop (mirrors_conv ctx ins kind) (by cases kind <;> decide)

end Agreement

/-- One function, of a number, a bytes and a number, which reads a length and two bytes. -/
def readModule : JelloBcModule :=
  { (default : JelloBcModule) with
    types := [⟨.i32, 0⟩, ⟨.bytes, 0⟩]
    funcs :=
      [{ regTypes := [0, 1, 0]
         capStart := 0
         insns :=
          [{ op := .bytesLen, a := 0, b := 1, c := 0, imm := 0 },
            { op := .bytesReadU16Le, a := 0, b := 1, c := 2, imm := 0 },
            { op := .ret, a := 0, b := 0, c := 0, imm := 0 }]
         sourceFile := 0
         lines := [] }] }

/-- In the first frame of a run. -/
def readCtx : Ctx :=
  { m := readModule
    fpu := default
    f := 0
    rf := { mem := 4096, off := [0, 8, 16], nregs := 3, total := 24 }
    pc := 1 }

/-- On null, the length traps in both; the typed read leaves its exception to nobody. -/
theorem null_read_continues : Accepted readModule ∧
    jitHelper readCtx (jirABC (.bytesRead .u16Le) ((readModule.func 0).insn 1) 1 0) =
      some (jitBytesRead readCtx 0 1 2 .u16Le) ∧
    ¬ HelperAgrees (jitBytesRead readCtx 0 1 2 .u16Le)
      (vmInsn readCtx ((readModule.func 0).insn 1)) jelloVmCreate.store := by
  refine ⟨by decide, rfl, fun h ↦ ?_⟩
  have hr := (agrees_bytesRead_iff readCtx ((readModule.func 0).insn 1) .u16Le rfl).mp h
  exact hr (.inl (by decide))

/-- Three bytes in the second register, and the offset 0 in the third. -/
def readStore : Store :=
  { jelloVmCreate.store with
    heap :=
      ⟨fun p ↦ if p = 16 then some (.bytes ⟨1, 3, fun i ↦ UInt8.ofNat (i + 5)⟩) else none, 64⟩
    mem := store64 (fun _ ↦ 0) 4104 16 }

theorem read_agrees : HelperAgrees (jitBytesRead readCtx 0 1 2 .u16Le)
      (vmInsn readCtx ((readModule.func 0).insn 1)) readStore ∧
    (result (jitBytesRead readCtx 0 1 2 .u16Le) readStore).toOption.map
      (fun r ↦ (r.1, load32 r.2.mem 4096)) = some (.continue_, 0x0605) := by
  refine ⟨?_, by decide +kernel⟩
  refine (@helper_agrees readCtx 1 [jirABC (.bytesRead .u16Le) ((readModule.func 0).insn 1) 1 0]
    (jirABC (.bytesRead .u16Le) ((readModule.func 0).insn 1) 1 0) _ readStore rfl
    (List.mem_singleton.mpr rfl) rfl rfl).1 ?_
  refine ⟨fun w hw hrefused ↦ ?_, fun h ↦ absurd h (by decide), fun h ↦ absurd h (by decide),
    fun h ↦ absurd h (by decide)⟩
  obtain rfl : 2 = w := Option.some.inj hw
  obtain hnull | hneg | hmis | ⟨b, hb, hlen⟩ := hrefused
  · exact absurd hnull (by decide +kernel)
  · exact absurd hneg (by decide +kernel)
  · exact absurd hmis (by decide +kernel)
  · have hp : load64 readStore.mem (readCtx.rf.addr (readCtx.fn.insn 1).rb) = 16 := by
      decide +kernel
    rw [hp] at hb
    obtain rfl := Cell.bytes.inj (Option.some.inj hb)
    exact absurd hlen (by decide +kernel)

end JelloVM
