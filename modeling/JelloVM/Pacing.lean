import JelloVM.FreeList

namespace JelloVM

open Function

/-- `jello_gc_init` -/
def jelloGcInit (g : Gc) : Gc :=
  if g.gcNextCollect = 0 then { g with gcNextCollect := 1024 * 1024 } else g

/-- What `calloc` leaves in `jello_vm_create`. -/
def gcCreate : Gc where
  hdr := fun _ ↦ ⟨0, false⟩
  gcObjects := []
  gcBoxFree := []
  gcBoxFreeLen := 0
  gcBytesLive := 0
  gcNextCollect := 0
  gcRoots := []

/-- A machine with the bytes it has allocated since an allocation has started a collection, the
largest block so far, the collections that allocations have started, and the bytes that the last
collection has left. -/
structure PacedState where
  a : GcState
  since : ℕ
  largest : ℕ
  collections : ℕ
  survived : ℕ

def pacedStart (m : JelloBcModule) : PacedState where
  a := ⟨m, ⟨jelloVmCreate, jelloGcInit gcCreate⟩, []⟩
  since := 0
  largest := 0
  collections := 0
  survived := 0

/-- `jello_gc_alloc_recycled` collects when the threshold has been reached, and only then.
`jello_gc_collect` can also be called at any time, as `vm_finish_exec` does. -/
inductive PacedStep (x : PacedState) : PacedState → Prop
  | take {size : ℕ} {block : JelloValue} {init : Option Cell → Cell}
      (hw : x.a.s.gc.wantsCollect = false) (hblock : x.a.s.heap.cells block = none)
      (hptr : jelloIsPtr block = true ∧ block ≠ 0) :
      PacedStep x
        { a := ⟨x.a.m, (gcTake size block init x.a.s).2,
            (gcTake size block init x.a.s).1 :: x.a.recent⟩
          since := x.since + (gcHdrSize + size)
          largest := max x.largest (gcHdrSize + size)
          collections := x.collections
          survived := x.survived }
  | collect {t : GcVm} (hw : x.a.s.gc.wantsCollect = true)
      (h : jelloGcCollect x.a.m x.a.s = some t) :
      PacedStep x
        { x with
          a := ⟨x.a.m, t, []⟩
          since := 0
          collections := x.collections + 1
          survived := t.gc.gcBytesLive }
  | force {t : GcVm} (h : jelloGcCollect x.a.m x.a.s = some t) :
      PacedStep x { x with a := ⟨x.a.m, t, []⟩, survived := t.gc.gcBytesLive }
  | program {m : JelloBcModule} {t : GcVm} (h : Mutates x.a.s t)
      (hP : Careful x.a ⟨m, t, x.a.recent⟩) : PacedStep x { x with a := ⟨m, t, x.a.recent⟩ }

abbrev PacedRun : PacedState → PacedState → Prop := Relation.ReflTransGen PacedStep

/-- The bytes of the objects of the collector. -/
def Gc.objectBytes (g : Gc) : ℕ := (g.gcObjects.map fun p ↦ (g.hdr p).totalSize).sum

/-- The least distance of a threshold from the bytes that a collection has left. -/
def gcHeadroom : ℕ := gcBoxFreeMax * 192

/-- What has to be allocated before an allocation starts the next collection. -/
def PacedState.distance (x : PacedState) : ℕ :=
  if x.collections = 0 then 1024 * 1024 else gcHeadroom

structure PacedState.Ok (x : PacedState) : Prop where
  ok : x.a.Ok
  bytes : x.a.s.gc.gcBytesLive = x.a.s.gc.objectBytes
  threshold : x.a.s.gc.gcNextCollect ≠ 0
  pace : x.a.s.gc.gcBytesLive + x.distance ≤ x.since + x.a.s.gc.gcNextCollect
  next : x.a.s.gc.gcNextCollect ≤ 2 * x.survived + 1024 * 1024 + gcHeadroom
  live : x.a.s.gc.gcBytesLive ≤ x.a.s.gc.gcNextCollect + x.largest

theorem nextCollect_bounds (n : ℕ) :
    n + gcHeadroom ≤ nextCollect n ∧ nextCollect n ≤ 2 * n + gcHeadroom := by
  unfold nextCollect gcHeadroom gcBoxFreeMax
  dsimp only
  split_ifs <;> omega

section Take

variable {m : JelloBcModule} {s t : GcVm} {size : ℕ} {block : JelloValue}
  {init : Option Cell → Cell}

theorem gcTake_gc (s : GcVm) (size : ℕ) (block : JelloValue) (init : Option Cell → Cell) :
    (gcTake size block init s).2.gc.hdr =
      update s.gc.hdr (gcTake size block init s).1 ⟨gcHdrSize + size, false⟩ ∧
    (gcTake size block init s).2.gc.gcBytesLive = s.gc.gcBytesLive + (gcHdrSize + size) ∧
    (gcTake size block init s).2.gc.gcNextCollect = s.gc.gcNextCollect := by
  unfold gcTake
  cases gcBoxFreePop s.gc.hdr (gcHdrSize + size) s.gc.gcBoxFree with
  | none => exact ⟨rfl, rfl, rfl⟩
  | some r => exact ⟨rfl, rfl, rfl⟩

theorem objectBytes_take
    (ht : Taken m s (gcTake size block init s).1 (gcTake size block init s).2) :
    (gcTake size block init s).2.gc.objectBytes = s.gc.objectBytes + (gcHdrSize + size) := by
  have hp := ht.ok.nodup
  rw [ht.objects, List.cons_append, List.nodup_cons] at hp
  rw [Gc.objectBytes, ht.objects, (gcTake_gc ..).1, List.map_cons, List.sum_cons, update_self,
    Nat.add_comm]
  refine congrArg (· + _) (congrArg List.sum (List.map_congr_left fun q hq ↦ ?_))
  have hne : q ≠ (gcTake size block init s).1 := by
    rintro rfl
    exact hp.1 (List.mem_append_left _ hq)
  rw [update_of_ne hne]

theorem nextCollect_of_collect (h : jelloGcCollect m s = some t) :
    t.gc.gcNextCollect = nextCollect t.gc.gcBytesLive := by
  simp only [jelloGcCollect, Option.bind_eq_bind, Option.bind_eq_some_iff, Option.some.injEq] at h
  obtain ⟨marked, -, rfl⟩ := h
  rfl

end Take

variable {x y : PacedState} {m : JelloBcModule}

theorem PacedState.distance_le (x : PacedState) : x.distance ≤ gcHeadroom := by
  unfold PacedState.distance
  split_ifs
  · decide
  · exact le_rfl

/-- After a collection the distance to the threshold is `gcHeadroom` at least. -/
theorem PacedState.Ok.collect {t : GcVm} (hx : x.Ok) (h : jelloGcCollect x.a.m x.a.s = some t)
    (since collections : ℕ) :
    PacedState.Ok { x with
      a := ⟨x.a.m, t, []⟩
      since := since
      collections := collections
      survived := t.gc.gcBytesLive } := by
  obtain ⟨t', ht', hc⟩ := collected hx.ok.ok hx.ok.closed
  obtain rfl := Option.some.inj (ht'.symm.trans h)
  have hnext := nextCollect_of_collect h
  obtain ⟨hlow, hhigh⟩ := nextCollect_bounds t'.gc.gcBytesLive
  have hroom : 1024 * 1024 ≤ gcHeadroom := by decide
  have hdistance := PacedState.distance_le
    ⟨⟨x.a.m, t', []⟩, since, x.largest, collections, t'.gc.gcBytesLive⟩
  refine ⟨hx.ok.step (.collect h), hc.bytesLive, ?_, ?_, ?_, ?_⟩
  · rw [hnext]
    omega
  · rw [hnext]
    dsimp only
    omega
  · rw [hnext]
    dsimp only
    omega
  · rw [hnext]
    dsimp only
    omega

theorem PacedState.Ok.since_le (hx : x.Ok) (hw : x.a.s.gc.wantsCollect = true) :
    x.distance ≤ x.since := by
  have hreached : x.a.s.gc.gcNextCollect ≤ x.a.s.gc.gcBytesLive := by
    simpa [Gc.wantsCollect, hx.threshold] using hw
  have hpace := hx.pace
  omega

theorem PacedState.Ok.step (hx : x.Ok) (h : PacedStep x y) : y.Ok := by
  cases h with
  | @take size block init hw hblock hptr =>
    obtain ⟨hok, hbytes, hthreshold, hpace, hnext, hlive⟩ := hx
    have ht := taken hok.ok hok.closed size hblock hptr init
    obtain ⟨-, hlive', hnext'⟩ := gcTake_gc x.a.s size block init
    have hbelow : x.a.s.gc.gcBytesLive < x.a.s.gc.gcNextCollect := by
      simpa [Gc.wantsCollect, hthreshold] using hw
    unfold PacedState.distance at hpace
    refine ⟨hok.step (.take hblock hptr), ?_, ?_, ?_, ?_, ?_⟩
    · rw [hlive', objectBytes_take ht, hbytes]
    · rw [hnext']
      exact hthreshold
    · rw [hlive', hnext']
      unfold PacedState.distance
      dsimp only
      omega
    · rw [hnext']
      exact hnext
    · rw [hlive', hnext']
      dsimp only
      omega
  | collect _ h => exact hx.collect h 0 (x.collections + 1)
  | force h => exact hx.collect h x.since x.collections
  | @program m t h hP =>
    obtain ⟨hok, hbytes, hthreshold, hpace, hnext, hlive⟩ := hx
    have hgc := h.gc
    refine ⟨hok.step (.program h hP), ?_, ?_, ?_, ?_, ?_⟩
    · rw [hgc]
      exact hbytes
    · rw [hgc]
      exact hthreshold
    · rw [hgc]
      exact hpace
    · rw [hgc]
      exact hnext
    · rw [hgc]
      exact hlive

theorem PacedState.Ok.run (hx : x.Ok) (h : PacedRun x y) : y.Ok := by
  induction h with
  | refl => exact hx
  | tail _ hs ih => exact ih.step hs

theorem not_rooted_create {g : Gc} (hg : g.gcRoots = []) (p : JelloValue) :
    ¬ GcVm.Rooted m ⟨jelloVmCreate, g⟩ p := by
  intro hp
  cases hp with
  | spill h _ => exact absurd h List.not_mem_nil
  | temp h _ =>
    rw [show (GcVm.mk jelloVmCreate g).gc.gcRoots = [] from hg] at h
    exact absurd h List.not_mem_nil
  | constFun h => exact absurd h List.not_mem_nil
  | constBytes h => exact absurd h List.not_mem_nil
  | enumNullary hti _ => exact absurd hti (Nat.not_lt_zero _)
  | dynamicReg hfr _ _ _ => exact absurd hfr List.not_mem_nil
  | pointerReg hfr _ _ => exact absurd hfr List.not_mem_nil

theorem pacedStart_ok : (pacedStart m).Ok := by
  have hok : (pacedStart m).a.s.Ok := by
    refine ⟨List.nodup_nil, ?_, fun _ ↦ rfl, ?_, rfl, Nat.zero_le _⟩
    · exact fun p hp ↦ absurd hp List.not_mem_nil
    · exact fun p hp ↦ absurd hp List.not_mem_nil
  have hclosed : (pacedStart m).a.s.Closed m := by
    intro p hp
    induction hp with
    | root h _ => exact absurd h (not_rooted_create rfl _)
    | field _ _ _ _ ih => exact absurd ih List.not_mem_nil
  have hnext : (pacedStart m).a.s.gc.gcNextCollect = 1024 * 1024 := rfl
  refine ⟨⟨hok, hclosed, fun p hp ↦ absurd hp List.not_mem_nil⟩, rfl, ?_, ?_, ?_, ?_⟩
  · simp only [hnext, ne_eq, not_false_eq_true, Nat.reduceMul, OfNat.ofNat_ne_zero]
  · rw [hnext]
    simp [pacedStart, PacedState.distance, jelloGcInit, gcCreate]
  · rw [hnext]
    simp [pacedStart]
  · exact Nat.zero_le _

/-- From the creation of a machine on, the collector knows the bytes of its objects, an allocation
starts a collection after 1 MB first and then only when 1.5 MB have been allocated since the last
one it has started, and there are never more bytes than twice what the last collection has left, the
two margins, and one block. -/
theorem gc_paced (h : PacedRun (pacedStart m) y) :
    y.a.s.gc.gcBytesLive = y.a.s.gc.objectBytes ∧
      (y.a.s.gc.wantsCollect = true →
        (if y.collections = 0 then 1048576 else 1572864) ≤ y.since) ∧
      y.a.s.gc.gcBytesLive ≤ 2 * y.survived + 1048576 + 1572864 + y.largest := by
  have hy := pacedStart_ok.run h
  have hlive := hy.live
  have hnext := hy.next
  refine ⟨hy.bytes, hy.since_le, ?_⟩
  unfold gcHeadroom gcBoxFreeMax at hnext
  omega

/-- A block of 1 MB is taken and collected, and then one of 2 MB, which is collected as well. -/
theorem gc_paced_block : ∃ y, PacedRun (pacedStart default) y ∧ y.collections = 1 ∧
    y.a.s.gc.wantsCollect = true ∧ 1572864 ≤ y.since := by
  have htake := @PacedStep.take (pacedStart default) 1048576 64 (fun _ ↦ .boxI64 0 0) rfl rfl
    ⟨by decide, by decide⟩
  have hx := pacedStart_ok.step htake
  obtain ⟨t, ht, -⟩ := collected hx.ok.ok hx.ok.closed
  have hview : (jelloGcCollect default
      (gcTake 1048576 64 (fun _ ↦ .boxI64 0 0) (pacedStart default).a.s).2).map
        (fun t ↦ (t.gc.gcBytesLive, t.gc.gcNextCollect, (t.heap.cells 128).isNone)) =
          some (0, 1572864, true) := by
    decide +kernel
  have ht' : jelloGcCollect default
      (gcTake 1048576 64 (fun _ ↦ .boxI64 0 0) (pacedStart default).a.s).2 = some t := ht
  rw [ht', Option.map_some, Option.some.injEq, Prod.mk.injEq, Prod.mk.injEq] at hview
  obtain ⟨hlive, hnext, hblock⟩ := hview
  have hagain := @PacedStep.take
    ⟨⟨default, t, []⟩, 0, max 0 (gcHdrSize + 1048576), 0 + 1, t.gc.gcBytesLive⟩
    2097152 128 (fun _ ↦ .boxI64 0 0) (by simp [Gc.wantsCollect, hlive, hnext])
    (Option.isNone_iff_eq_none.mp hblock) ⟨by decide, by decide⟩
  have hrun := ((Relation.ReflTransGen.single htake).tail
    (.collect (by decide +kernel) ht)).tail hagain
  obtain ⟨-, hlive', hnext'⟩ := gcTake_gc t 2097152 128 fun _ ↦ .boxI64 0 0
  have hwants : (gcTake 2097152 128 (fun _ ↦ .boxI64 0 0) t).2.gc.wantsCollect = true := by
    unfold Gc.wantsCollect
    rw [hlive', hnext', hlive, hnext]
    decide +kernel
  exact ⟨_, hrun, rfl, hwants, (gc_paced hrun).2.1 hwants⟩

end JelloVM
