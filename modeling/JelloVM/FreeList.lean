import JelloVM.GcAlloc
import JelloVM.Recycled
import JelloVM.Handlers
import JelloVM.RegSpec

namespace JelloVM

open Function ByteMemory Logged

section Take

variable {m : JelloBcModule} {s : GcVm} {p block : JelloValue} {size : ℕ} {c : Cell}
  {init : Option Cell → Cell}

theorem gcBoxFreePop_spec {hdr : JelloValue → GcHdr} {total : ℕ} {ps free : List JelloValue}
    (h : gcBoxFreePop hdr total ps = some (p, free)) :
    (hdr p).totalSize = total ∧ ∃ before after, ps = before ++ p :: after ∧
      free = before ++ after := by
  induction ps generalizing free with
  | nil => exact absurd h (Option.some_ne_none _).symm
  | cons q ps ih =>
    unfold gcBoxFreePop at h
    split_ifs at h with hsize
    · obtain ⟨rfl, rfl⟩ : q = p ∧ ps = free := by simpa using h
      exact ⟨hsize, [], ps, rfl, rfl⟩
    · obtain ⟨⟨p', free'⟩, hpop, hr⟩ := Option.map_eq_some_iff.mp h
      obtain ⟨rfl, rfl⟩ : p' = p ∧ q :: free' = free := by simpa using hr
      obtain ⟨htotal, before, after, rfl, rfl⟩ := ih hpop
      exact ⟨htotal, q :: before, after, rfl, rfl⟩

theorem GcVm.Ok.link {total : ℕ} (hs : s.Ok) (hp : p ∉ s.gc.gcObjects ++ s.gc.gcBoxFree)
    (hptr : jelloIsPtr p = true ∧ p ≠ 0) : (s.link p total c).Ok := by
  refine ⟨?_, fun q hq ↦ ?_, fun q ↦ ?_, fun q hq ↦ ?_, hs.len, hs.bound⟩
  · exact List.nodup_cons.mpr ⟨hp, hs.nodup⟩
  · rcases List.mem_cons.mp hq with rfl | hq
    · exact hptr
    · exact hs.ptr q hq
  · change (update s.gc.hdr p ⟨total, false⟩ q).marked = false
    by_cases hqp : q = p
    · rw [hqp, update_self]
    · rw [update_of_ne hqp]
      exact hs.clear q
  · change (update s.heap.cells p (some c) q).isSome = true
    by_cases hqp : q = p
    · rw [hqp, update_self]
      rfl
    · rw [update_of_ne hqp]
      exact hs.cells q ((List.mem_cons.mp hq).resolve_left hqp)

/-- A block that is not live can become an object without anything becoming live. -/
theorem live_link_iff {total : ℕ} {q : JelloValue} (hp : ¬s.Live m p) :
    (s.link p total c).Live m q ↔ s.Live m q := by
  refine GcVm.live_congr rfl rfl fun q hq ↦ update_of_ne (fun hqp ↦ ?_) _ _
  rw [hqp] at hq
  exact hp hq

theorem GcVm.Ok.popped {before after : List JelloValue} (hs : s.Ok)
    (hfree : s.gc.gcBoxFree = before ++ p :: after) :
    (s.popped (before ++ after)).Ok ∧ p ∉ s.gc.gcObjects ++ (before ++ after) := by
  have hperm : (s.gc.gcObjects ++ s.gc.gcBoxFree).Perm
      (p :: (s.gc.gcObjects ++ (before ++ after))) := by
    rw [hfree]
    exact (List.perm_middle.append_left _).trans List.perm_middle
  have hnodup := List.nodup_cons.mp (hperm.nodup_iff.mp hs.nodup)
  have hmem : ∀ q ∈ s.gc.gcObjects ++ (before ++ after), q ∈ s.gc.gcObjects ++ s.gc.gcBoxFree :=
    fun q hq ↦ hperm.mem_iff.mpr (List.mem_cons_of_mem p hq)
  have hlen : (before ++ after).length + 1 = s.gc.gcBoxFree.length := by
    rw [hfree]
    simp only [List.length_append, List.length_cons]
    omega
  refine ⟨⟨hnodup.2, fun q hq ↦ hs.ptr q (hmem q hq), hs.clear,
    fun q hq ↦ hs.cells q (hmem q hq), ?_, ?_⟩, hnodup.1⟩
  · change s.gc.gcBoxFreeLen - 1 = (before ++ after).length
    have hbefore := hs.len
    omega
  · change (before ++ after).length ≤ gcBoxFreeMax
    have hbefore := hs.bound
    omega

theorem not_live_of_mem_free (hs : s.Ok) (hc : s.Closed m) (hp : p ∈ s.gc.gcBoxFree) :
    ¬s.Live m p := fun hlive ↦
  (List.nodup_append.mp hs.nodup).2.2 p (hc p hlive) p hp rfl

theorem not_mem_of_unallocated (hs : s.Ok) (hblock : s.heap.cells block = none) :
    block ∉ s.gc.gcObjects ++ s.gc.gcBoxFree := by
  intro hmem
  have hsome := hs.cells block hmem
  rw [hblock] at hsome
  exact Bool.false_ne_true hsome

end Take

/-- What has been taken: a block that was not live and now is an object. -/
structure Taken (m : JelloBcModule) (s : GcVm) (p : JelloValue) (t : GcVm) : Prop where
  dead : ¬s.Live m p
  objects : t.gc.gcObjects = p :: s.gc.gcObjects
  live (q : JelloValue) : t.Live m q ↔ s.Live m q
  ok : t.Ok

theorem taken {m : JelloBcModule} {s : GcVm} (hs : s.Ok) (hc : s.Closed m) (size : ℕ)
    {block : JelloValue} (hblock : s.heap.cells block = none)
    (hptr : jelloIsPtr block = true ∧ block ≠ 0) (init : Option Cell → Cell) :
    Taken m s (gcTake size block init s).1 (gcTake size block init s).2 := by
  unfold gcTake
  cases hpop : gcBoxFreePop s.gc.hdr (gcHdrSize + size) s.gc.gcBoxFree with
  | some r =>
    obtain ⟨p, free⟩ := r
    obtain ⟨-, before, after, hfree, rfl⟩ := gcBoxFreePop_spec hpop
    obtain ⟨hok, hp⟩ := hs.popped hfree
    have hmem : p ∈ s.gc.gcBoxFree := by
      rw [hfree]
      exact List.mem_append_right _ List.mem_cons_self
    have hdead := not_live_of_mem_free hs hc hmem
    have hlive : ∀ q, (s.popped (before ++ after)).Live m q ↔ s.Live m q := fun q ↦
      GcVm.live_congr rfl rfl fun _ _ ↦ rfl
    refine ⟨hdead, rfl, fun q ↦ (live_link_iff ?_).trans (hlive q), hok.link hp ?_⟩
    · rwa [hlive]
    · exact hs.ptr p (List.mem_append_right _ hmem)
  | none =>
    have hp := not_mem_of_unallocated hs hblock
    have hdead : ¬s.Live m block := fun hlive ↦ hp (List.mem_append_left _ (hc block hlive))
    exact ⟨hdead, rfl, fun q ↦ live_link_iff hdead, hs.link hp hptr⟩

section Runs

/-- A machine, the module that is running, and what has been allocated since the last
collection. -/
structure GcState where
  m : JelloBcModule
  s : GcVm
  recent : List JelloValue

/-- What the program does between two calls of the allocator. -/
structure Mutates (s t : GcVm) : Prop where
  gc : t.gc = { s.gc with gcRoots := t.gc.gcRoots }
  cells (p : JelloValue) : (t.heap.cells p).isSome = (s.heap.cells p).isSome

/-- The allocations, the collections, and what happens between them, if it is in `P`. -/
inductive GcStep (P : GcState → GcState → Prop) (a : GcState) : GcState → Prop
  | take {size : ℕ} {block : JelloValue} {init : Option Cell → Cell}
      (hblock : a.s.heap.cells block = none) (hptr : jelloIsPtr block = true ∧ block ≠ 0) :
      GcStep P a ⟨a.m, (gcTake size block init a.s).2, (gcTake size block init a.s).1 :: a.recent⟩
  | collect {t : GcVm} (h : jelloGcCollect a.m a.s = some t) : GcStep P a ⟨a.m, t, []⟩
  | program {m : JelloBcModule} {t : GcVm} (h : Mutates a.s t) (hP : P a ⟨m, t, a.recent⟩) :
      GcStep P a ⟨m, t, a.recent⟩

def GcRun (P : GcState → GcState → Prop) : GcState → GcState → Prop :=
  Relation.ReflTransGen (GcStep P)

/-- What becomes reachable was reachable, or has been allocated since the last collection. -/
def Careful (a b : GcState) : Prop := ∀ p, b.s.Live b.m p → a.s.Live a.m p ∨ p ∈ a.recent

/-- The lists of the collector are in order, and what can be reached is on the list of objects. -/
structure GcState.Ok (a : GcState) : Prop where
  ok : a.s.Ok
  closed : a.s.Closed a.m
  recent (p : JelloValue) : p ∈ a.recent → p ∈ a.s.gc.gcObjects

theorem GcState.Ok.step {a b : GcState} (h : a.Ok) (hs : GcStep Careful a b) : b.Ok := by
  cases hs with
  | @take size block init hblock hptr =>
    have ht := taken h.ok h.closed size hblock hptr init
    refine ⟨ht.ok, fun p hp ↦ ?_, fun p hp ↦ ?_⟩
    · rw [ht.objects]
      exact List.mem_cons_of_mem _ (h.closed p ((ht.live p).mp hp))
    · rw [ht.objects]
      rcases List.mem_cons.mp hp with rfl | hp
      · exact List.mem_cons_self
      · exact List.mem_cons_of_mem _ (h.recent p hp)
  | collect hcollect =>
    obtain ⟨t, ht, hc⟩ := collected h.ok h.closed
    obtain rfl := Option.some.inj (ht.symm.trans hcollect)
    exact ⟨hc.ok, hc.closed, fun p hp ↦ absurd hp List.not_mem_nil⟩
  | @program m t hm hP =>
    have hobjects : t.gc.gcObjects = a.s.gc.gcObjects := by rw [hm.gc]
    have hfree : t.gc.gcBoxFree = a.s.gc.gcBoxFree := by rw [hm.gc]
    refine ⟨⟨?_, fun p hp ↦ ?_, fun p ↦ ?_, fun p hp ↦ ?_, ?_, ?_⟩, fun p hp ↦ ?_, fun p hp ↦ ?_⟩
    · rw [hobjects, hfree]
      exact h.ok.nodup
    · rw [hobjects, hfree] at hp
      exact h.ok.ptr p hp
    · rw [hm.gc]
      exact h.ok.clear p
    · rw [hobjects, hfree] at hp
      rw [hm.cells]
      exact h.ok.cells p hp
    · rw [hm.gc]
      exact h.ok.len
    · rw [hfree]
      exact h.ok.bound
    · change p ∈ t.gc.gcObjects
      rw [hobjects]
      rcases hP p hp with hp | hp
      · exact h.closed p hp
      · exact h.recent p hp
    · change p ∈ t.gc.gcObjects
      rw [hobjects]
      exact h.recent p hp

theorem GcState.Ok.run {a b : GcState} (h : a.Ok) (hr : GcRun Careful a b) : b.Ok := by
  induction hr with
  | refl => exact h
  | tail _ hs ih => exact ih.step hs

/-- A block that is taken from the free list is not live, the length of the list is known and
bounded, a recycled box is the box, and a recycled object is empty and cannot be told from one in
a new block by any calls. -/
theorem recycled_fresh {a b : GcState} (ha : a.Ok) (hr : GcRun Careful a b) :
    b.s.gc.gcBoxFreeLen = b.s.gc.gcBoxFree.length ∧
      b.s.gc.gcBoxFree.length ≤ gcBoxFreeMax ∧
      (∀ size p free, gcBoxFreePop b.s.gc.hdr (gcHdrSize + size) b.s.gc.gcBoxFree = some (p, free) →
        ¬b.s.Live b.m p) ∧
      (∀ size block c, (gcTake size block (fun _ ↦ c) b.s).2.heap.cells
        (gcTake size block (fun _ ↦ c) b.s).1 = some c) ∧
      ∀ size block typeId, ∃ o, (gcTake size block (objectInit typeId) b.s).2.heap.cells
          (gcTake size block (objectInit typeId) b.s).1 = some (.object o) ∧
        Models o (fun _ ↦ none) ∧ o.proto = 0 ∧ (∀ k, objectIcTry o k = (none, o)) ∧
        ∀ heap mem ops, (poolRun heap [o] ops).map (fun r ↦ (r.1, r.2.1)) =
          (poolRun heap [jelloObjectNew false mem typeId] ops).map fun r ↦ (r.1, r.2.1) := by
  have hb := ha.run hr
  have hcell : ∀ size block init, ∃ old,
      (gcTake size block init b.s).2.heap.cells (gcTake size block init b.s).1 =
        some (init old) := by
    intro size block init
    unfold gcTake
    cases gcBoxFreePop b.s.gc.hdr (gcHdrSize + size) b.s.gc.gcBoxFree with
    | none => exact ⟨none, update_self ..⟩
    | some r => exact ⟨b.s.heap.cells r.1, update_self ..⟩
  refine ⟨hb.ok.len, hb.ok.bound, fun size p free hpop ↦ ?_, fun size block c ↦ ?_,
    fun size block typeId ↦ ?_⟩
  · obtain ⟨-, before, after, hfree, -⟩ := gcBoxFreePop_spec hpop
    refine not_live_of_mem_free hb.ok hb.closed ?_
    rw [hfree]
    exact List.mem_append_right _ List.mem_cons_self
  · obtain ⟨-, h⟩ := hcell size block fun _ ↦ c
    exact h
  · obtain ⟨old, h⟩ := hcell size block (objectInit typeId)
    obtain ⟨recycled, mem, hinit⟩ : ∃ recycled mem,
        objectInit typeId old = .object (jelloObjectNew recycled mem typeId) := by
      unfold objectInit
      split
      · exact ⟨true, _, rfl⟩
      · exact ⟨false, _, rfl⟩
    rw [hinit] at h
    obtain ⟨hmodels, hproto, hic⟩ := new_empty recycled mem typeId
    refine ⟨_, h, hmodels, hproto, hic, fun heap mem' ops ↦ ?_⟩
    have hsame := alike_poolRun ops (.cons (alike_new recycled false mem mem' typeId) .nil) heap
    generalize poolRun heap [jelloObjectNew recycled mem typeId] ops = x at hsame
    generalize poolRun heap [jelloObjectNew false mem' typeId] ops = y at hsame
    cases hsame with
    | none => rfl
    | some hres => exact congrArg some (Prod.ext hres.1.symm hres.2.1.symm)

end Runs

/-- The box that nothing holds is collected, its block becomes another box, which is collected
too. -/
theorem recycled_fresh_cyclic : ∃ a b, GcRun Careful ⟨default, cyclicVm, []⟩ a ∧
    a.recent = [64] ∧ a.s.heap.cells 64 = some (.boxI64 0 7) ∧ GcRun Careful a b ∧
    gcBoxFreePop b.s.gc.hdr (gcHdrSize + 16) b.s.gc.gcBoxFree = some (64, []) ∧
    ¬b.s.Live b.m 64 := by
  have hok : GcState.Ok ⟨default, cyclicVm, []⟩ :=
    ⟨cyclicVm_ok, cyclicVm_closed, fun p hp ↦ absurd hp List.not_mem_nil⟩
  have hview : ((jelloGcCollect default cyclicVm).bind fun t ↦
      (jelloGcCollect default (gcTake 16 128 (fun _ ↦ .boxI64 0 7) t).2).map fun u ↦
        ((t.heap.cells 128).isNone, (gcTake 16 128 (fun _ ↦ .boxI64 0 7) t).1,
          gcBoxFreePop u.gc.hdr (gcHdrSize + 16) u.gc.gcBoxFree)) =
      some (true, 64, some (64, [])) := by decide +kernel
  obtain ⟨t, ht, hview⟩ := Option.bind_eq_some_iff.mp hview
  obtain ⟨u, hu, hview⟩ := Option.map_eq_some_iff.mp hview
  simp only [Prod.mk.injEq, Option.isNone_iff_eq_none] at hview
  obtain ⟨hfresh, hblock, hpop⟩ := hview
  have hfirst : GcRun Careful ⟨default, cyclicVm, []⟩ ⟨default, t, []⟩ := .single (.collect ht)
  have htaken := hfirst.tail
    (@GcStep.take _ _ 16 128 (fun _ ↦ .boxI64 0 7) hfresh ⟨by decide, by decide⟩)
  have hrun := htaken.tail (.collect hu)
  refine ⟨_, _, htaken, ?_, ?_, .single (.collect hu), hpop,
    (recycled_fresh hok hrun).2.2.1 16 64 [] hpop⟩
  · rw [hblock]
  · rw [← hblock]
    exact (recycled_fresh hok hfirst).2.2.2.1 16 128 _

section Traces

variable {m : JelloBcModule} {α : Type}

/-- A machine comes from one to another by allocations, collections and what is between them. -/
def Traced (m : JelloBcModule) (s t : GcVm) : Prop :=
  ∀ recent, ∃ recent', GcRun (fun _ _ ↦ True) ⟨m, s, recent⟩ ⟨m, t, recent'⟩

instance : IsPreorder GcVm (Traced m) where
  refl _ recent := ⟨recent, .refl⟩
  trans _ _ _ h h' recent := by
    obtain ⟨recent₁, h₁⟩ := h recent
    obtain ⟨recent₂, h₂⟩ := h' recent₁
    exact ⟨recent₂, h₁.trans h₂⟩

theorem traced_program {s t : GcVm} (h : Mutates s t) : Traced m s t := fun recent ↦
  ⟨recent, .single (.program h trivial)⟩

theorem traces_onGcStore {x : StoreM α}
    (h : Keeps (fun _ ↦ True) (fun s t : Store ↦ t.heap = s.heap) x) :
    Keeps (fun _ ↦ True) (Traced m) (onGcStore x) := by
  refine keeps_onPart h fun s st hheap ↦ traced_program ⟨rfl, fun p ↦ ?_⟩
  change (st.heap.cells p).isSome = (s.vm.store.heap.cells p).isSome
  rw [hheap]

theorem traces_gcCollect : Keeps (fun _ ↦ True) (Traced m) (Collecting.gcCollect m) := by
  refine fun s ↦ ⟨fun _ _ ↦ trivial, fun _ t hr recent ↦ ?_⟩
  simp only [result, Collecting.gcCollect] at hr
  cases hc : jelloGcCollect m s with
  | none => simp [hc] at hr
  | some t' =>
    obtain rfl : t' = t := by simpa [hc] using hr
    exact ⟨[], .single (.collect hc)⟩

theorem traces_take {size : ℕ} {init : Option Cell → Cell} :
    Keeps (fun _ ↦ True) (Traced m) (Collecting.take size init) := by
  refine fun s ↦ ⟨fun _ _ ↦ trivial, fun p t hr recent ↦ ?_⟩
  simp only [result, Collecting.take] at hr
  split_ifs at hr with hnext
  obtain ⟨-, rfl⟩ := Prod.mk.inj (Except.ok.inj hr)
  obtain ⟨hblock, hptr, h0⟩ : s.heap.cells s.heap.next = none ∧
      jelloIsPtr s.heap.next = true ∧ s.heap.next ≠ 0 := by
    simpa using hnext
  refine ⟨_, .tail (.single (.take (a := ⟨m, s, recent⟩) hblock ⟨hptr, h0⟩))
    (.program ⟨rfl, fun _ ↦ rfl⟩ trivial)⟩

theorem traces_gcAlloc {size : ℕ} {c : Cell} :
    Keeps (fun _ ↦ True) (Traced m) (Collecting.gcAlloc m size c) := by
  refine keeps_bind (keeps_read _) fun collects ↦ keeps_bind ?_ fun _ ↦ traces_take
  exact keeps_ite (fun _ ↦ traces_gcCollect) fun _ ↦ keeps_pure ()

variable {ctx : Ctx} {f r : ℕ} {rf : RegFrame} {ins : JelloInsn}

theorem traces_regTypeOf : Keeps (fun _ ↦ True) (Traced m) (onGcStore (regTypeOf m f r)) :=
  traces_onGcStore fun _ ↦ spec_regTypeOf.mpr ⟨trivial, rfl⟩

theorem traces_load64 : Keeps (fun _ ↦ True) (Traced m) (onGcStore (vmLoad64 rf r)) :=
  traces_onGcStore fun _ ↦ spec_vmLoad64.mpr ⟨trivial, rfl⟩

theorem traces_load32 : Keeps (fun _ ↦ True) (Traced m) (onGcStore (vmLoadU32 rf r)) :=
  traces_onGcStore fun _ ↦ spec_vmLoadU32.mpr ⟨trivial, rfl⟩

theorem traces_loadF16 : Keeps (fun _ ↦ True) (Traced m) (onGcStore (vmLoadF16Bits rf r)) :=
  traces_onGcStore fun _ ↦ spec_vmLoadF16Bits.mpr ⟨trivial, rfl⟩

theorem traces_storePtr {v : JelloValue} :
    Keeps (fun _ ↦ True) (Traced m) (onGcStore (vmStorePtr rf r v)) :=
  traces_onGcStore fun _ ↦ spec_vmStorePtr.mpr ⟨trivial, rfl⟩

theorem traces_vmBoxFromTyped :
    Keeps (fun _ ↦ True) (Traced m) (Collecting.vmBoxFromTyped m f rf r) := by
  refine fun s ↦ spec_bind.mpr (spec_onPart (spec_vmRegKind.mpr ⟨trivial, trivial, ?_⟩))
  have hback : s.setStore s.vm.store = s := rfl
  rw [hback]
  have hload {x : StoreM JelloValue}
      (h : Ends x (fun _ st ↦ st.heap = s.vm.store.heap) s.vm.store) :
      Spec (fun _ ↦ True) (onGcStore x) (fun _ t ↦ Traced m s t) s :=
    spec_onPart (h.mono fun _ st hst ↦ traced_program ⟨rfl, fun p ↦ by
      change (st.heap.cells p).isSome = (s.vm.store.heap.cells p).isSome
      rw [hst]⟩)
  cases hk : regKind m f r with
  | f32 =>
    exact keeps_bind traces_regTypeOf (fun _ ↦ keeps_bind traces_load32 fun _ ↦ traces_gcAlloc) s
  | f16 =>
    exact keeps_bind traces_regTypeOf (fun _ ↦ keeps_bind traces_loadF16 fun _ ↦ traces_gcAlloc) s
  | i64 | f64 =>
    exact keeps_bind traces_regTypeOf (fun _ ↦ keeps_bind traces_load64 fun _ ↦ traces_gcAlloc) s
  | i8 | i16 | i32 | bool | atom | dynamic | bytes | function | list | array | object | abstract
  | enum =>
    refine hload ?_
    simp [vmBoxFromTyped, hk]

theorem traces_enumFields (n : ℕ) : ∀ r,
    Keeps (fun _ ↦ True) (Traced ctx.m) (Collecting.enumFields ctx r n) := by
  induction n with
  | zero => exact fun _ ↦ keeps_pure []
  | succ n ih =>
    intro r
    refine keeps_ite (fun _ ↦ keeps_fail _) fun _ ↦ ?_
    exact keeps_bind traces_vmBoxFromTyped fun _ ↦ keeps_bind (ih (r + 1)) fun _ ↦ keeps_pure _

theorem traces_opEnumNew : Keeps (fun _ ↦ True) (Traced ctx.m) (Collecting.opEnumNew ctx ins) := by
  refine keeps_bind traces_regTypeOf fun typeId ↦ keeps_ite (fun _ ↦ ?_) fun _ ↦ ?_
  · refine keeps_bind ?_ fun _ ↦ traces_storePtr
    refine keeps_bind (keeps_read _) fun _ ↦ keeps_ite (fun _ ↦ traces_gcAlloc) fun _ ↦ ?_
    refine keeps_bind (keeps_read _) fun _ ↦ keeps_ite (fun _ ↦ keeps_pure _) fun _ ↦ ?_
    refine keeps_bind traces_gcAlloc fun _ ↦ keeps_bind ?_ fun _ ↦ keeps_pure _
    exact traces_onGcStore (keeps_change fun _ ↦ rfl)
  · refine keeps_bind (traces_enumFields ins.rc ins.rb) fun _ ↦ ?_
    exact keeps_bind traces_gcAlloc fun _ ↦ traces_storePtr

theorem traces_opBytesNew :
    Keeps (fun _ ↦ True) (Traced ctx.m) (Collecting.opBytesNew ctx ins) := by
  refine keeps_bind traces_load32 fun _ ↦ keeps_bind (keeps_read _) fun _ ↦ ?_
  refine keeps_ite (fun _ ↦ ?_) fun _ ↦ ?_
  · exact traces_onGcStore (keeps_change fun _ ↦ rfl)
  · exact keeps_bind traces_regTypeOf fun _ ↦ keeps_bind traces_gcAlloc fun _ ↦ traces_storePtr

end Traces

/-- Almost as many bytes as there can be before a collection, a box in an enum, and another box. -/
def enumModule : JelloBcModule :=
  { tailTryModule with
    features := { (default : Features) with const64 := true }
    types := [⟨.i32, 0⟩, ⟨.bytes, 0⟩, ⟨.i64, 0⟩, ⟨.enum, 0⟩, ⟨.dynamic, 0⟩]
    constI64 := [5]
    funcs :=
      [{ regTypes := [0, 1, 2, 3, 4]
         capStart := 0
         insns := [{ op := .constI32, a := 0, b := 0, c := 0, imm := 1048500 },
           { op := .bytesNew, a := 1, b := 0, c := 0, imm := 0 },
           { op := .constI64, a := 2, b := 0, c := 0, imm := 0 },
           { op := .enumNew, a := 3, b := 2, c := 1, imm := 0 },
           { op := .toDyn, a := 4, b := 2, c := 0, imm := 0 },
           { op := .ret, a := 4, b := 0, c := 0, imm := 0 }]
         sourceFile := 0
         lines := [] }] }

/-- The first call of `jello_vm_exec_status` on a machine: `jello_gc_init` has set the limit. -/
def enumStart : GcVm :=
  { vm := ((result (execEntry (.alone enumModule)) jelloVmCreate).toOption.map Prod.snd).getD
      jelloVmCreate
    gc :=
      { hdr := fun _ ↦ ⟨0, false⟩
        gcObjects := []
        gcBoxFree := []
        gcBoxFreeLen := 0
        gcBytesLive := 0
        gcNextCollect := 1048576
        gcRoots := [] } }

def enumCtx : Ctx := (Exec.alone enumModule).ctx (enumStart.vm.callFrames.headD default)

/-- The instructions before `TO_DYN`. -/
def enumRun : GcM Unit := do
  onGcStore (opConstI32 enumCtx ⟨.constI32, 0, 0, 0, 1048500⟩)
  Collecting.opBytesNew enumCtx ⟨.bytesNew, 1, 0, 0, 0⟩
  onGcStore (opConstI64 enumCtx ⟨.constI64, 2, 0, 0, 0⟩)
  Collecting.opEnumNew enumCtx ⟨.enumNew, 3, 2, 1, 0⟩

/-- The same instructions on a machine without the collector. -/
def enumPlainRun : StoreM Unit := do
  opConstI32 enumCtx ⟨.constI32, 0, 0, 0, 1048500⟩
  opBytesNew enumCtx ⟨.bytesNew, 1, 0, 0, 0⟩
  opConstI64 enumCtx ⟨.constI64, 2, 0, 0, 0⟩
  opEnumNew enumCtx ⟨.enumNew, 3, 2, 1, 0⟩

theorem givesSame_enumRun : GivesSame enumRun enumPlainRun :=
  givesSame_bind (givesSame_onGcStore _) fun _ ↦ givesSame_bind givesSame_opBytesNew fun _ ↦
    givesSame_bind (givesSame_onGcStore _) fun _ ↦ givesSame_opEnumNew

theorem traces_enumRun : Keeps (fun _ ↦ True) (Traced enumModule) enumRun := by
  refine keeps_bind ?_ fun _ ↦ keeps_bind traces_opBytesNew fun _ ↦ keeps_bind ?_ fun _ ↦
    traces_opEnumNew
  · exact traces_onGcStore fun _ ↦ spec_vmStoreU32.mpr ⟨trivial, rfl⟩
  · exact traces_onGcStore (keeps_bind (keeps_note trivial) fun _ ↦ fun _ ↦
      spec_vmStoreI64.mpr ⟨trivial, rfl⟩)

theorem enumStart_ok : GcState.Ok ⟨enumModule, enumStart, []⟩ := by
  have hroots : enumStart.roots enumModule = [] := by decide +kernel
  refine ⟨⟨List.nodup_nil, ?_, fun _ ↦ rfl, ?_, rfl, Nat.zero_le _⟩, fun p hp ↦ ?_, ?_⟩
  · exact fun p hp ↦ absurd hp List.not_mem_nil
  · exact fun p hp ↦ absurd hp List.not_mem_nil
  · obtain ⟨q, hq, -⟩ := reaches_iff.mpr hp
    rw [hroots] at hq
    exact absurd hq List.not_mem_nil
  · exact fun p hp ↦ absurd hp List.not_mem_nil

def Cell.firstField : Cell → Option JelloValue
  | .enum e => if e.nfields = 0 then none else some (e.fields 0)
  | _ => none

instance decEqFrameView : DecidableEq (List (ℕ × ℕ × JelloValue)) := inferInstance

theorem points_of_firstField {c : Cell} {p : JelloValue} (h : c.firstField = some p)
    (hp : jelloIsPtr p = true) : c.Points p := by
  cases c with
  | enum e =>
    have hfirst : (if e.nfields = 0 then none else some (e.fields 0)) = some p := h
    split_ifs at hfirst with hn
    obtain rfl := Option.some.inj hfirst
    refine .enumField (Nat.pos_of_ne_zero fun h0 ↦ hn ?_) hp
    exact UInt32.toNat_inj.mp h0
  | _ => exact absurd h (Option.some_ne_none p).symm

/-- The box of the field is on the free list, and the enum that holds it is live: the next box gets
its block. With the collector off the run is that of the handlers. -/
theorem enumNew_recycled : Accepted enumModule ∧
    result (execEntry (.alone enumModule)) jelloVmCreate = .ok (true, enumStart.vm) ∧
    GcState.Ok ⟨enumModule, enumStart, []⟩ ∧ GivesSame enumRun enumPlainRun ∧
    ∃ t recent, result enumRun enumStart = .ok ((), t) ∧
      GcRun (fun _ _ ↦ True) ⟨enumModule, enumStart, []⟩ ⟨enumModule, t, recent⟩ ∧
      ∃ p free, gcBoxFreePop t.gc.hdr (gcHdrSize + 16) t.gc.gcBoxFree = some (p, free) ∧
        t.Live enumModule p := by
  refine ⟨by decide, ?_, enumStart_ok, givesSame_enumRun, ?_⟩
  · have hview : (result (execEntry (.alone enumModule)) jelloVmCreate).toOption.map Prod.fst =
        some true := by
      decide +kernel
    obtain ⟨⟨b, vm⟩, hr, hb⟩ := result_of_view hview
    have hvm : enumStart.vm = vm := by
      simp only [enumStart, hr, Except.toOption, Option.map_some, Option.getD_some]
    rw [hr, hvm]
    exact congrArg (fun b ↦ Except.ok (b, vm)) hb
  · have hview : (result enumRun enumStart).toOption.map (fun r ↦
        (r.2.vm.callFrames.map fun fr ↦
            (fr.f, fr.rf.nregs, load64 r.2.vm.store.mem (fr.rf.addr 3)),
          (r.2.heap.cells 48).map Cell.firstField,
          gcBoxFreePop r.2.gc.hdr (gcHdrSize + 16) r.2.gc.gcBoxFree)) =
        some ([(0, 5, 48)], some (some 32), some (32, [])) := by
      decide +kernel
    obtain ⟨⟨⟨⟩, t⟩, hr, hv⟩ := result_of_view hview
    simp only [Prod.mk.injEq] at hv
    obtain ⟨hframes, hcell, hpop⟩ := hv
    obtain ⟨recent, hrun⟩ := (traces_enumRun enumStart).2 _ _ hr []
    refine ⟨t, recent, hr, hrun, 32, [], hpop, ?_⟩
    obtain ⟨fr, hfr, hfields⟩ := List.map_eq_singleton_iff.mp hframes
    obtain ⟨hf, hn, hreg⟩ : fr.f = 0 ∧ fr.rf.nregs = 5 ∧
        load64 t.vm.store.mem (fr.rf.addr 3) = 48 := by
      simpa only [Prod.mk.injEq] using hfields
    obtain ⟨c, hc, hfield⟩ := Option.map_eq_some_iff.mp hcell
    have hroot : t.Rooted enumModule (load64 t.vm.store.mem (fr.rf.addr 3)) := by
      refine .pointerReg (by rw [hfr]; exact List.mem_singleton_self fr) (by omega) ?_
      rw [hf]
      decide
    rw [hreg] at hroot
    exact .field (.root hroot (by decide)) hc (points_of_firstField hfield (by decide)) (by decide)

end JelloVM
