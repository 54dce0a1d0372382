import JelloVM.FreeList

namespace JelloVM

open Function MarkSweep

/-- `a->finalizer`, and which of the abstracts that were made this one is. -/
structure Finalizer where
  fn : UInt64
  number : ℕ
  deriving DecidableEq, Repr

/-- A call `a->finalizer(a->payload)`. -/
structure FinalizerCall where
  number : ℕ
  fn : UInt64
  payload : UInt64
  deriving DecidableEq, Repr

def Finalizer.call (fin : Finalizer) (payload : UInt64) : List FinalizerCall :=
  if fin.fn = 0 then [] else [⟨fin.number, fin.fn, payload⟩]

theorem number_of_call {fin : Finalizer} {payload : UInt64} {c : FinalizerCall}
    (h : c ∈ fin.call payload) : c.number = fin.number := by
  unfold Finalizer.call at h
  split_ifs at h
  · exact absurd h List.not_mem_nil
  · rw [List.mem_singleton.mp h]

section Destroy

variable (finalizer : JelloValue → Finalizer)

/-- What `destroy_object` calls; only an abstract has something to be called. -/
def destroyObject (p : JelloValue) : Cell → List FinalizerCall
  | .abstract a => (finalizer p).call a.payload
  | _ => []

/-- What is called when the object `p` of a heap is destroyed. -/
def objectCalls (h : Heap) (p : JelloValue) : List FinalizerCall :=
  (h.cells p).elim [] (destroyObject finalizer p)

/-- The objects whose blocks are kept are not destroyed. -/
def sweepObjectCalls (p : JelloValue) (h : Heap) : List FinalizerCall :=
  match h.cells p with
  | none => []
  | some c => if c.isNumbox ∨ gcIsRecyclableObject c then [] else destroyObject finalizer p c

/-- The calls that `sweep` makes. -/
def sweepCalls : List JelloValue → Gc × Heap → List FinalizerCall
  | [], _ => []
  | p :: ps, s =>
    if !(s.1.hdr p).marked then
      sweepObjectCalls finalizer p s.2 ++ sweepCalls ps (sweepObject p s)
    else sweepCalls ps (s.1.setMarked p false, s.2)

/-- The calls that `jello_gc_collect` makes. -/
def gcCollectCalls (m : JelloBcModule) (s : GcVm) : Option (List FinalizerCall) := do
  let marked ← drain s.heap.traced (s.gc.gcObjects.length + 1)
    (markAll (s.roots m) ⟨fun p ↦ (s.gc.hdr p).marked, []⟩)
  some (sweepCalls finalizer s.gc.gcObjects (s.marked marked))

end Destroy

section Calls

variable {finalizer : JelloValue → Finalizer} {p : JelloValue} {ps : List JelloValue}

theorem sweepObjectCalls_eq (h : Heap) :
    sweepObjectCalls finalizer p h = objectCalls finalizer h p := by
  unfold sweepObjectCalls objectCalls
  cases h.cells p with
  | none => rfl
  | some c =>
    change (if c.isNumbox = true ∨ gcIsRecyclableObject c = true then []
      else destroyObject finalizer p c) = destroyObject finalizer p c
    split_ifs with hc
    · cases c with
      | abstract a => simp [Cell.isNumbox, gcIsRecyclableObject] at hc
      | _ => rfl
    · rfl

theorem objectCalls_congr {h h' : Heap} {finalizer' : JelloValue → Finalizer}
    (hp : h'.cells p = h.cells p) (hf : finalizer' p = finalizer p) :
    objectCalls finalizer' h' p = objectCalls finalizer h p := by
  unfold objectCalls
  rw [hp]
  cases h.cells p with
  | none => rfl
  | some c =>
    cases c with
    | abstract a =>
      change destroyObject finalizer' p (.abstract a) = destroyObject finalizer p (.abstract a)
      rw [destroyObject, destroyObject, hf]
    | _ => rfl

theorem objectCalls_eq_nil {h : Heap} (hp : ∀ a, h.cells p ≠ some (.abstract a)) :
    objectCalls finalizer h p = [] := by
  unfold objectCalls
  cases hc : h.cells p with
  | none => rfl
  | some c =>
    cases c with
    | abstract a => exact absurd hc (hp a)
    | _ => rfl

theorem sweepCalls_eq {s : Gc × Heap} (hnd : ps.Nodup) :
    sweepCalls finalizer ps s =
      (ps.filter fun q ↦ !(s.1.hdr q).marked).flatMap (objectCalls finalizer s.2) := by
  induction ps generalizing s with
  | nil => rfl
  | cons p ps ih =>
    obtain ⟨hp, hnd⟩ := List.nodup_cons.mp hnd
    have hne : ∀ q ∈ ps, q ∉ [p] := fun q hq hqp ↦ hp (List.mem_singleton.mp hqp ▸ hq)
    cases hmarked : (s.1.hdr p).marked with
    | false =>
      have hstep := swept_sweepObject hmarked
      rw [sweepCalls, hmarked, if_pos (Bool.not_false), ih hnd, sweepObjectCalls_eq,
        List.filter_cons_of_pos (by simp [hmarked]), List.flatMap_cons]
      have hfilter : ps.filter (fun q ↦ !((sweepObject p s).1.hdr q).marked) =
          ps.filter fun q ↦ !(s.1.hdr q).marked :=
        List.filter_congr fun q hq ↦ by rw [hstep.hdr q (hne q hq)]
      rw [hfilter]
      refine congrArg _ (List.flatMap_congr fun q hq ↦ objectCalls_congr ?_ rfl)
      exact hstep.cells q fun hqp ↦ absurd hqp (hne q (List.mem_of_mem_filter hq))
    | true =>
      have hstep : Swept [p] s (s.1.setMarked p false, s.2) := swept_survivor
      rw [sweepCalls, hmarked, if_neg (by simp), ih hnd,
        List.filter_cons_of_neg (by simp [hmarked])]
      have hfilter : ps.filter (fun q ↦ !((s.1.setMarked p false).hdr q).marked) =
          ps.filter fun q ↦ !(s.1.hdr q).marked :=
        List.filter_congr fun q hq ↦ by rw [hstep.hdr q (hne q hq)]
      rw [hfilter]

end Calls

/-- The calls of the objects that are there: what has still to be called. -/
def GcVm.pending (s : GcVm) (finalizer : JelloValue → Finalizer) : List FinalizerCall :=
  s.gc.gcObjects.flatMap (objectCalls finalizer s.heap)

/-- A machine with the finalizers of its abstracts, the calls that have been made, those that the
abstracts were made with, and the number of abstracts so far. -/
structure FinState where
  a : GcState
  finalizer : JelloValue → Finalizer
  calls : List FinalizerCall
  made : List FinalizerCall
  count : ℕ

def jelloAbstractSize : ℕ := 24

/-- `jello_abstract_new_finalized`, in the block `p`. -/
def FinState.abstractNew (x : FinState) (typeId : UInt32) (payload fin : UInt64)
    (block : JelloValue) : FinState :=
  let r := gcTake jelloAbstractSize block (fun _ ↦ .abstract ⟨typeId, payload⟩) x.a.s
  { a := ⟨x.a.m, r.2, r.1 :: x.a.recent⟩
    finalizer := update x.finalizer r.1 ⟨fin, x.count⟩
    calls := x.calls
    made := x.made ++ Finalizer.call ⟨fin, x.count⟩ payload
    count := x.count + 1 }

/-- `jdl_close_abstract` -/
def FinState.close (x : FinState) (p : JelloValue) (a : JelloAbstract) : FinState :=
  { x with
    a := ⟨x.a.m, x.a.s.setHeap (x.a.s.heap.write p (.abstract { a with payload := 0 })),
      x.a.recent⟩
    finalizer := update x.finalizer p { x.finalizer p with fn := 0 }
    calls := x.calls ++ (x.finalizer p).call a.payload }

def SameAbstracts (s t : GcVm) : Prop :=
  ∀ p a, t.heap.cells p = some (.abstract a) ↔ s.heap.cells p = some (.abstract a)

inductive FinStep (x : FinState) : FinState → Prop
  | take {size : ℕ} {block : JelloValue} {init : Option Cell → Cell}
      (hblock : x.a.s.heap.cells block = none) (hptr : jelloIsPtr block = true ∧ block ≠ 0)
      (hinit : ∀ old a, init old ≠ .abstract a) :
      FinStep x
        { x with
          a := ⟨x.a.m, (gcTake size block init x.a.s).2,
            (gcTake size block init x.a.s).1 :: x.a.recent⟩ }
  | abstractNew {typeId : UInt32} {payload fin : UInt64} {block : JelloValue}
      (hblock : x.a.s.heap.cells block = none) (hptr : jelloIsPtr block = true ∧ block ≠ 0) :
      FinStep x (x.abstractNew typeId payload fin block)
  | collect {t : GcVm} {calls : List FinalizerCall} (h : jelloGcCollect x.a.m x.a.s = some t)
      (hcalls : gcCollectCalls x.finalizer x.a.m x.a.s = some calls) :
      FinStep x { x with a := ⟨x.a.m, t, []⟩, calls := x.calls ++ calls }
  | program {m : JelloBcModule} {t : GcVm} (h : Mutates x.a.s t)
      (hP : Careful x.a ⟨m, t, x.a.recent⟩) (habs : SameAbstracts x.a.s t) :
      FinStep x { x with a := ⟨m, t, x.a.recent⟩ }
  | close {p : JelloValue} {a : JelloAbstract} (hp : x.a.s.Live x.a.m p)
      (ha : x.a.s.heap.cells p = some (.abstract a)) :
      FinStep x (x.close p a)

abbrev FinRun : FinState → FinState → Prop := Relation.ReflTransGen FinStep

/-- The calls of the loop of `jello_gc_shutdown`. -/
def shutdownCalls (finalizer : JelloValue → Finalizer) : List JelloValue → Heap → List FinalizerCall
  | [], _ => []
  | p :: ps, h => objectCalls finalizer h p ++ shutdownCalls finalizer ps (h.free p)

/-- All calls, when `jello_gc_shutdown` has destroyed every object that is left. -/
def FinState.shutdown (x : FinState) : List FinalizerCall :=
  x.calls ++ shutdownCalls x.finalizer x.a.s.gc.gcObjects x.a.s.heap

/-- What has been called and what is still to be called is what abstracts have been made with, each
of them once. -/
structure FinState.Ok (x : FinState) : Prop where
  ok : x.a.Ok
  ledger : (x.calls ++ x.a.s.pending x.finalizer).Perm x.made
  distinct : (x.made.map FinalizerCall.number).Nodup
  below : ∀ c ∈ x.made, c.number < x.count

section Ledger

variable {x y : FinState} {s t : GcVm} {p : JelloValue}

theorem gcTake_cells (s : GcVm) (size : ℕ) (block : JelloValue) (init : Option Cell → Cell) : ∃ old,
    (gcTake size block init s).2.heap.cells =
      update s.heap.cells (gcTake size block init s).1 (some (init old)) := by
  unfold gcTake
  cases gcBoxFreePop s.gc.hdr (gcHdrSize + size) s.gc.gcBoxFree with
  | none => exact ⟨none, rfl⟩
  | some r => exact ⟨s.heap.cells r.1, rfl⟩

theorem pending_take {m : JelloBcModule} {size : ℕ} {block : JelloValue} {init : Option Cell → Cell}
    (finalizer finalizer' : JelloValue → Finalizer) (ht : Taken m s (gcTake size block init s).1
      (gcTake size block init s).2)
    (hf : ∀ q ≠ (gcTake size block init s).1, finalizer' q = finalizer q) :
    ∃ old, (gcTake size block init s).2.pending finalizer' =
      destroyObject finalizer' (gcTake size block init s).1 (init old) ++ s.pending finalizer := by
  obtain ⟨old, hcells⟩ := gcTake_cells s size block init
  have hp := ht.ok.nodup
  rw [ht.objects, List.cons_append, List.nodup_cons] at hp
  refine ⟨old, ?_⟩
  rw [GcVm.pending, ht.objects, List.flatMap_cons]
  refine congrArg₂ _ ?_ (List.flatMap_congr fun q hq ↦ ?_)
  · rw [objectCalls, hcells, update_self]
    rfl
  · have hne : q ≠ (gcTake size block init s).1 := by
      rintro rfl
      exact hp.1 (List.mem_append_left _ hq)
    exact objectCalls_congr (by rw [hcells, update_of_ne hne]) (hf q hne)

theorem gcCollectCalls_eq {m : JelloBcModule} (finalizer : JelloValue → Finalizer) (hs : s.Ok)
    (hc : s.Closed m) : ∃ marked : JelloValue → Bool, (∀ p, marked p = true ↔ s.Live m p) ∧
      gcCollectCalls finalizer m s =
        some ((s.gc.gcObjects.filter fun q ↦ !marked q).flatMap (objectCalls finalizer s.heap)) ∧
      ∀ t, jelloGcCollect m s = some t → t.pending finalizer =
        (s.gc.gcObjects.filter marked).flatMap (objectCalls finalizer s.heap) := by
  obtain ⟨marked, hmarked, hiff⟩ := marks_live hs hc
  have hnd := (List.nodup_append.mp hs.nodup).1
  obtain ⟨hlist, -, hswept⟩ := sweep_spec (s := s.marked marked) hnd
  refine ⟨marked, hiff, ?_, fun t h ↦ ?_⟩
  · simp only [gcCollectCalls, hmarked, Option.bind_eq_bind, Option.bind_some, sweepCalls_eq hnd]
    rfl
  · have ht : t.gc.gcObjects = (sweep s.gc.gcObjects (s.marked marked)).1.1 ∧
        t.heap = (sweep s.gc.gcObjects (s.marked marked)).2.2 := by
      simp only [jelloGcCollect, hmarked, Option.bind_eq_bind, Option.bind_some,
        Option.some.injEq] at h
      rw [← h]
      exact ⟨rfl, rfl⟩
    rw [GcVm.pending, ht.1, ht.2, hlist]
    refine List.flatMap_congr fun q hq ↦ objectCalls_congr ?_ rfl
    exact hswept.cells q fun _ ↦ (List.mem_filter.mp hq).2

theorem pending_collect {m : JelloBcModule} {finalizer : JelloValue → Finalizer}
    {calls : List FinalizerCall} (hs : s.Ok) (hc : s.Closed m)
    (h : jelloGcCollect m s = some t) (hcalls : gcCollectCalls finalizer m s = some calls) :
    (calls ++ t.pending finalizer).Perm (s.pending finalizer) := by
  obtain ⟨marked, -, hcalls', hpending⟩ := gcCollectCalls_eq finalizer hs hc
  obtain rfl := Option.some.inj (hcalls'.symm.trans hcalls)
  rw [hpending t h, ← List.flatMap_append]
  exact (List.perm_append_comm.trans (List.filter_append_perm marked _)).flatMap_right _

theorem pending_program {finalizer : JelloValue → Finalizer} (h : Mutates s t)
    (habs : SameAbstracts s t) : t.pending finalizer = s.pending finalizer := by
  unfold GcVm.pending
  rw [h.gc]
  refine List.flatMap_congr fun q _ ↦ ?_
  by_cases hq : ∃ a, s.heap.cells q = some (.abstract a)
  · obtain ⟨a, ha⟩ := hq
    exact objectCalls_congr (((habs q a).mpr ha).trans ha.symm) rfl
  · rw [not_exists] at hq
    rw [objectCalls_eq_nil hq, objectCalls_eq_nil fun a ha ↦ hq a ((habs q a).mp ha)]

theorem pending_close (hs : s.Ok) {finalizer : JelloValue → Finalizer} {a : JelloAbstract}
    (hp : p ∈ s.gc.gcObjects) (ha : s.heap.cells p = some (.abstract a)) :
    ((finalizer p).call a.payload ++
      (s.setHeap (s.heap.write p (.abstract { a with payload := 0 }))).pending
        (update finalizer p { finalizer p with fn := 0 })).Perm (s.pending finalizer) := by
  obtain ⟨before, after, hobjects⟩ := List.append_of_mem hp
  have hnd := (List.nodup_append.mp hs.nodup).1
  rw [hobjects, List.nodup_middle, List.nodup_cons] at hnd
  have hother : ∀ q ∈ before ++ after, objectCalls (update finalizer p { finalizer p with fn := 0 })
      (s.heap.write p (.abstract { a with payload := 0 })) q = objectCalls finalizer s.heap q := by
    intro q hq
    have hne : q ≠ p := fun h ↦ hnd.1 (h ▸ hq)
    exact objectCalls_congr (update_of_ne hne ..) (update_of_ne hne ..)
  have hclosed : objectCalls (update finalizer p { finalizer p with fn := 0 })
      (s.heap.write p (.abstract { a with payload := 0 })) p = [] := by
    change (update s.heap.cells p _ p).elim [] _ = _
    rw [update_self, Option.elim_some, destroyObject, update_self]
    exact if_pos rfl
  have hopen : objectCalls finalizer s.heap p = (finalizer p).call a.payload := by
    rw [objectCalls, ha]
    rfl
  change (_ ++ s.gc.gcObjects.flatMap _).Perm (s.gc.gcObjects.flatMap _)
  rw [hobjects, ← hopen]
  have hmiddle : (before ++ p :: after).Perm (p :: (before ++ after)) := List.perm_middle
  have hold := hmiddle.flatMap_right (objectCalls finalizer s.heap)
  have hnew := hmiddle.flatMap_right (objectCalls (update finalizer p { finalizer p with fn := 0 })
    (s.heap.write p (.abstract { a with payload := 0 })))
  rw [List.flatMap_cons] at hold hnew
  rw [hclosed, List.nil_append, List.flatMap_congr hother] at hnew
  exact (hnew.append_left _).trans hold.symm

theorem live_of_close {m : JelloBcModule} {a : JelloAbstract} {q : JelloValue}
    (hq : (s.setHeap (s.heap.write p (.abstract a))).Live m q) : s.Live m q := by
  induction hq with
  | root h h0 => exact .root (h.congr rfl rfl) h0
  | @field r q c _ hc hq h0 ih =>
    change update s.heap.cells p _ r = some c at hc
    by_cases hr : r = p
    · rw [hr, update_self, Option.some.injEq] at hc
      rw [← hc] at hq
      nomatch hq
    · rw [update_of_ne hr] at hc
      exact .field ih hc hq h0

theorem FinState.Ok.step (hx : x.Ok) (h : FinStep x y) : y.Ok := by
  obtain ⟨hok, hledger, hdistinct, hbelow⟩ := hx
  cases h with
  | @take size block init hblock hptr hinit =>
    have ht := taken hok.ok hok.closed size hblock hptr init
    obtain ⟨old, hpending⟩ := pending_take x.finalizer x.finalizer ht fun _ _ ↦ rfl
    refine ⟨hok.step (.take hblock hptr), ?_, hdistinct, hbelow⟩
    have hnil : destroyObject x.finalizer (gcTake size block init x.a.s).1 (init old) = [] := by
      cases hcell : init old with
      | abstract a => exact absurd hcell (hinit old a)
      | _ => rfl
    rw [hnil, List.nil_append] at hpending
    change (x.calls ++ GcVm.pending _ x.finalizer).Perm x.made
    rw [hpending]
    exact hledger
  | @abstractNew typeId payload fin block hblock hptr =>
    have ht := taken hok.ok hok.closed jelloAbstractSize hblock hptr
      fun _ ↦ .abstract ⟨typeId, payload⟩
    obtain ⟨old, hpending⟩ := pending_take x.finalizer
      (update x.finalizer _ ⟨fin, x.count⟩) ht
      fun q hq ↦ update_of_ne hq ..
    rw [destroyObject, update_self] at hpending
    refine ⟨hok.step (.take hblock hptr), ?_, ?_, ?_⟩
    · have hcalls : (x.abstractNew typeId payload fin block).a.s.pending
          (x.abstractNew typeId payload fin block).finalizer = _ := hpending
      change (x.calls ++ _).Perm (x.made ++ _)
      rw [hcalls]
      exact (List.perm_append_comm_assoc _ _ _).trans
        (List.perm_append_comm.trans (hledger.append_right _))
    · change ((x.made ++ _).map FinalizerCall.number).Nodup
      rw [List.map_append]
      refine List.nodup_append.mpr ⟨hdistinct, ?_, fun n hn k hk hnk ↦ ?_⟩
      · unfold Finalizer.call
        split_ifs <;> simp
      · obtain ⟨c, hc, rfl⟩ := List.mem_map.mp hn
        obtain ⟨c', hc', rfl⟩ := List.mem_map.mp hk
        have hlt := hbelow c hc
        rw [hnk, number_of_call hc'] at hlt
        exact Nat.lt_irrefl _ hlt
    · intro c hc
      rcases List.mem_append.mp hc with hc | hc
      · exact Nat.lt_succ_of_lt (hbelow c hc)
      · rw [number_of_call hc]
        exact Nat.lt_succ_self _
  | collect h hcalls =>
    refine ⟨hok.step (.collect h), ?_, hdistinct, hbelow⟩
    change ((x.calls ++ _) ++ _).Perm x.made
    rw [List.append_assoc]
    exact ((pending_collect hok.ok hok.closed h hcalls).append_left _).trans hledger
  | program h hP habs =>
    refine ⟨hok.step (.program h hP), ?_, hdistinct, hbelow⟩
    change (x.calls ++ GcVm.pending _ x.finalizer).Perm x.made
    rw [pending_program h habs]
    exact hledger
  | @close p a hp ha =>
    have hmut : Mutates x.a.s (x.close p a).a.s := by
      refine ⟨rfl, fun q ↦ ?_⟩
      change (update x.a.s.heap.cells p _ q).isSome = _
      by_cases hq : q = p
      · rw [hq, update_self, ha]
        rfl
      · rw [update_of_ne hq]
    refine ⟨hok.step (.program hmut fun q hq ↦ .inl (live_of_close hq)), ?_, hdistinct, hbelow⟩
    change ((x.calls ++ _) ++ _).Perm x.made
    rw [List.append_assoc]
    exact ((pending_close hok.ok (hok.closed p hp) ha).append_left _).trans hledger

theorem FinState.Ok.run (hx : x.Ok) (h : FinRun x y) : y.Ok := by
  induction h with
  | refl => exact hx
  | tail _ hs ih => exact ih.step hs

theorem shutdownCalls_eq {finalizer : JelloValue → Finalizer} {ps : List JelloValue} {h : Heap}
    (hnd : ps.Nodup) : shutdownCalls finalizer ps h = ps.flatMap (objectCalls finalizer h) := by
  induction ps generalizing h with
  | nil => rfl
  | cons p ps ih =>
    obtain ⟨hp, hnd⟩ := List.nodup_cons.mp hnd
    rw [shutdownCalls, ih hnd, List.flatMap_cons]
    refine congrArg _ (List.flatMap_congr fun q hq ↦ objectCalls_congr (update_of_ne ?_ ..) rfl)
    rintro rfl
    exact hp hq

/-- Whatever is allocated, collected and closed, the finalizer of each abstract is called at most
once, with its payload, and exactly once when the machine has been shut down. A collection calls
those of objects that cannot be reached, and an abstract that can be reached and still has its
finalizer has not had it called. -/
theorem finalizers_once (hx : x.a.Ok) (hnone : x.a.s.pending x.finalizer = [])
    (hcalls : x.calls = []) (hmade : x.made = []) (hr : FinRun x y) :
    (y.calls.map FinalizerCall.number).Nodup ∧ (∀ c ∈ y.calls, c ∈ y.made) ∧
      y.shutdown.Perm y.made ∧ (y.made.map FinalizerCall.number).Nodup ∧
      (∀ calls, gcCollectCalls y.finalizer y.a.m y.a.s = some calls →
        ∃ dead : List JelloValue, (∀ q ∈ dead, ¬ y.a.s.Live y.a.m q) ∧
          calls = dead.flatMap (objectCalls y.finalizer y.a.s.heap)) ∧
      ∀ p a, y.a.s.Live y.a.m p → y.a.s.heap.cells p = some (.abstract a) →
        (y.finalizer p).fn ≠ 0 → ∀ c ∈ y.calls, c.number ≠ (y.finalizer p).number := by
  have hy : y.Ok := by
    refine FinState.Ok.run ⟨hx, ?_, ?_, ?_⟩ hr
    · rw [hcalls, hnone, hmade, List.append_nil]
    · rw [hmade]
      exact List.nodup_nil
    · rw [hmade]
      exact fun c hc ↦ absurd hc List.not_mem_nil
  have hnd := (List.nodup_append.mp hy.ok.ok.nodup).1
  have hboth : ((y.calls ++ y.a.s.pending y.finalizer).map FinalizerCall.number).Nodup :=
    (hy.ledger.map _).nodup_iff.mpr hy.distinct
  rw [List.map_append, List.nodup_append] at hboth
  obtain ⟨honce, -, hapart⟩ := hboth
  refine ⟨honce, fun c hc ↦ hy.ledger.subset (List.mem_append_left _ hc), ?_, hy.distinct,
    fun calls hcollect ↦ ?_, fun p a hp ha hf c hc hnumber ↦ ?_⟩
  · rw [FinState.shutdown, shutdownCalls_eq hnd]
    exact hy.ledger
  · obtain ⟨marked, hiff, heq, -⟩ := gcCollectCalls_eq y.finalizer hy.ok.ok hy.ok.closed
    refine ⟨_, fun q hq hlive ↦ ?_, Option.some.inj (hcollect.symm.trans heq)⟩
    have hmarked := (List.mem_filter.mp hq).2
    rw [(hiff q).mpr hlive] at hmarked
    exact Bool.false_ne_true hmarked
  · have hcall : ⟨(y.finalizer p).number, (y.finalizer p).fn, a.payload⟩ ∈
        objectCalls y.finalizer y.a.s.heap p := by
      rw [objectCalls, ha, Option.elim_some, destroyObject, Finalizer.call, if_neg hf]
      exact List.mem_singleton_self _
    have hpending : ⟨(y.finalizer p).number, (y.finalizer p).fn, a.payload⟩ ∈
        y.a.s.pending y.finalizer := List.mem_flatMap.mpr ⟨p, hy.ok.closed p hp, hcall⟩
    exact hapart _ (List.mem_map_of_mem hc) _ (List.mem_map_of_mem hpending) hnumber

/-- An abstract that nothing holds is collected, and then another one is made. -/
theorem finalizers_once_cyclic : ∃ y,
    FinRun ⟨⟨default, cyclicVm, []⟩, fun _ ↦ ⟨0, 0⟩, [], [], 0⟩ y ∧ y.calls = [⟨0, 7, 9⟩] ∧
      y.shutdown.Perm [⟨0, 7, 9⟩, ⟨1, 5, 4⟩] := by
  have hok : GcState.Ok ⟨default, cyclicVm, []⟩ :=
    ⟨cyclicVm_ok, cyclicVm_closed, fun p hp ↦ absurd hp List.not_mem_nil⟩
  let x : FinState := ⟨⟨default, cyclicVm, []⟩, fun _ ↦ ⟨0, 0⟩, [], [], 0⟩
  have hmake : FinStep x (x.abstractNew 0 9 7 4096) := .abstractNew (by decide) (by decide)
  have hx : x.Ok := by
    refine ⟨hok, ?_, List.nodup_nil, fun c hc ↦ absurd hc List.not_mem_nil⟩
    have hnone : x.a.s.pending x.finalizer = [] := by decide
    rw [hnone]
    rfl
  have hx₁ := hx.step hmake
  obtain ⟨t, ht, -⟩ := collected hx₁.ok.ok hx₁.ok.closed
  have hcollect : FinStep (x.abstractNew 0 9 7 4096)
      { x.abstractNew 0 9 7 4096 with a := ⟨default, t, []⟩, calls := [⟨0, 7, 9⟩] } :=
    .collect ht (by decide +kernel)
  have hfree : (jelloGcCollect default (x.abstractNew 0 9 7 4096).a.s).map
      (fun t ↦ (t.heap.cells 8192).isNone) = some true := by decide +kernel
  rw [show jelloGcCollect default (x.abstractNew 0 9 7 4096).a.s = some t from ht] at hfree
  have hagain : FinStep _ (FinState.abstractNew { x.abstractNew 0 9 7 4096 with
      a := ⟨default, t, []⟩, calls := [⟨0, 7, 9⟩] } 0 4 5 8192) :=
    .abstractNew (Option.isNone_iff_eq_none.mp (Option.some.inj hfree)) (by decide)
  have hr : FinRun x _ := ((Relation.ReflTransGen.single hmake).tail hcollect).tail hagain
  exact ⟨_, hr, rfl, (finalizers_once hok (by decide) rfl rfl hr).2.2.1⟩

end Ledger

end JelloVM
