import JelloVM.Gc

namespace JelloVM

open Function ByteMemory MarkSweep

section Trace

variable {m : JelloBcModule} {s : GcVm} {c : Cell} {p q v : JelloValue}

theorem mem_markVal : q ∈ markVal v ↔ q = v ∧ jelloIsPtr q = true ∧ q ≠ 0 := by
  unfold markVal
  split_ifs with h
  · rw [List.mem_singleton]
    constructor
    · rintro rfl
      exact ⟨rfl, h⟩
    · exact And.left
  · refine ⟨fun hq ↦ absurd hq List.not_mem_nil, ?_⟩
    rintro ⟨rfl, hq⟩
    exact absurd hq h

theorem mem_markPtr : q ∈ markPtr p ↔ q = p ∧ q ≠ 0 := by
  unfold markPtr
  split_ifs with h
  · rw [List.mem_singleton]
    constructor
    · rintro rfl
      exact ⟨rfl, h⟩
    · exact And.left
  · refine ⟨fun hq ↦ absurd hq List.not_mem_nil, ?_⟩
    rintro ⟨rfl, hq⟩
    exact absurd hq h

/-- `trace_object` goes on to exactly the pointers in the fields. -/
theorem mem_traceObject : q ∈ traceObject c ↔ c.Points q ∧ q ≠ 0 := by
  constructor
  · intro h
    cases c with
    | bytes _ | abstract _ | boxI64 _ _ | boxF64 _ _ | boxF32 _ _ | boxF16 _ _ =>
      exact absurd h List.not_mem_nil
    | list l =>
      rcases List.mem_append.mp h with h | h
      · obtain ⟨rfl, hp, h0⟩ := mem_markVal.mp h
        exact ⟨.listHead hp, h0⟩
      · obtain ⟨rfl, h0⟩ := mem_markPtr.mp h
        exact ⟨.listTail l, h0⟩
    | array a =>
      obtain ⟨i, hi, h⟩ := List.mem_flatMap.mp h
      obtain ⟨rfl, hp, h0⟩ := mem_markVal.mp h
      exact ⟨.element (List.mem_range.mp hi) hp, h0⟩
    | object o =>
      rcases List.mem_append.mp h with h | h
      · obtain ⟨rfl, h0⟩ := mem_markPtr.mp h
        exact ⟨.proto o, h0⟩
      · obtain ⟨i, hi, h⟩ := List.mem_flatMap.mp h
        split_ifs at h with hs
        · obtain ⟨rfl, hp, h0⟩ := mem_markVal.mp h
          exact ⟨.slot (List.mem_range.mp hi) hs hp, h0⟩
        · exact absurd h List.not_mem_nil
    | function fn =>
      rcases List.mem_append.mp h with h | h
      · obtain ⟨rfl, hp, h0⟩ := mem_markVal.mp h
        exact ⟨.boundThis hp, h0⟩
      · split_ifs at h with hraw
        · exact absurd h List.not_mem_nil
        · obtain ⟨i, hi, h⟩ := List.mem_flatMap.mp h
          obtain ⟨rfl, hp, h0⟩ := mem_markVal.mp h
          exact ⟨.capture (by simpa using hraw) (List.mem_range.mp hi) hp, h0⟩
    | enum e =>
      obtain ⟨i, hi, h⟩ := List.mem_flatMap.mp h
      obtain ⟨rfl, hp, h0⟩ := mem_markVal.mp h
      exact ⟨.enumField (List.mem_range.mp hi) hp, h0⟩
  · rintro ⟨h, h0⟩
    cases h with
    | listHead hp => exact List.mem_append.mpr (.inl (mem_markVal.mpr ⟨rfl, hp, h0⟩))
    | listTail l => exact List.mem_append.mpr (.inr (mem_markPtr.mpr ⟨rfl, h0⟩))
    | element hi hp =>
      exact List.mem_flatMap.mpr ⟨_, List.mem_range.mpr hi, mem_markVal.mpr ⟨rfl, hp, h0⟩⟩
    | proto o => exact List.mem_append.mpr (.inl (mem_markPtr.mpr ⟨rfl, h0⟩))
    | slot hi hs hp =>
      refine List.mem_append.mpr (.inr (List.mem_flatMap.mpr ⟨_, List.mem_range.mpr hi, ?_⟩))
      rw [if_pos hs]
      exact mem_markVal.mpr ⟨rfl, hp, h0⟩
    | boundThis hp => exact List.mem_append.mpr (.inl (mem_markVal.mpr ⟨rfl, hp, h0⟩))
    | capture hraw hi hp =>
      refine List.mem_append.mpr (.inr ?_)
      rw [if_neg (by simp [hraw])]
      exact List.mem_flatMap.mpr ⟨_, List.mem_range.mpr hi, mem_markVal.mpr ⟨rfl, hp, h0⟩⟩
    | enumField hi hp =>
      exact List.mem_flatMap.mpr ⟨_, List.mem_range.mpr hi, mem_markVal.mpr ⟨rfl, hp, h0⟩⟩

theorem mem_traced : q ∈ s.heap.traced p ↔ ∃ c, s.heap.cells p = some c ∧ c.Points q ∧ q ≠ 0 := by
  unfold Heap.traced
  cases hc : s.heap.cells p with
  | none => simp
  | some c =>
    rw [Option.elim_some, mem_traceObject]
    simp

theorem mem_scanTypedFrames :
    q ∈ scanTypedFrames m s.vm ↔ q ≠ 0 ∧ ∃ fr ∈ s.vm.callFrames, ∃ r < fr.rf.nregs,
      q = load64 s.vm.store.mem (fr.rf.addr r) ∧
        (regKind m fr.f r = .dynamic ∧ jelloIsPtr q = true ∨
          (regKind m fr.f r).isPointer = true) := by
  simp only [scanTypedFrames, List.mem_flatMap, List.mem_reverse, List.mem_range]
  constructor
  · rintro ⟨fr, hfr, r, hr, h⟩
    split_ifs at h with hd hp
    · obtain ⟨rfl, hq, h0⟩ := mem_markVal.mp h
      exact ⟨h0, fr, hfr, r, hr, rfl, .inl ⟨hd, hq⟩⟩
    · obtain ⟨rfl, h0⟩ := mem_markPtr.mp h
      exact ⟨h0, fr, hfr, r, hr, rfl, .inr hp⟩
    · exact absurd h List.not_mem_nil
  · rintro ⟨h0, fr, hfr, r, hr, rfl, ⟨hd, hq⟩ | hp⟩
    · refine ⟨fr, hfr, r, hr, ?_⟩
      rw [if_pos hd]
      exact mem_markVal.mpr ⟨rfl, hq, h0⟩
    · refine ⟨fr, hfr, r, hr, ?_⟩
      have hd : regKind m fr.f r ≠ .dynamic := by
        intro hd
        rw [hd] at hp
        exact absurd hp Bool.false_ne_true
      rw [if_neg hd, if_pos hp]
      exact mem_markPtr.mpr ⟨rfl, h0⟩

theorem mem_roots : q ∈ s.roots m ↔ s.Rooted m q ∧ q ≠ 0 := by
  simp only [GcVm.roots, List.mem_append, List.mem_flatMap, mem_markVal, mem_markPtr,
    List.mem_range, mem_scanTypedFrames]
  constructor
  · rintro (((((⟨v, hv, rfl, hp, h0⟩ | ⟨v, hv, rfl, hp, h0⟩) | ⟨v, hv, rfl, h0⟩) |
      ⟨v, hv, rfl, h0⟩) | ⟨ti, hti, tag, htag, rfl, h0⟩) | ⟨h0, fr, hfr, r, hr, rfl, hk⟩)
    · exact ⟨.spill hv hp, h0⟩
    · exact ⟨.temp hv hp, h0⟩
    · exact ⟨.constFun hv, h0⟩
    · exact ⟨.constBytes hv, h0⟩
    · exact ⟨.enumNullary hti htag, h0⟩
    · rcases hk with ⟨hk, hp⟩ | hk
      · exact ⟨.dynamicReg hfr hr hk hp, h0⟩
      · exact ⟨.pointerReg hfr hr hk, h0⟩
  · rintro ⟨h, h0⟩
    cases h with
    | spill h hp => exact .inl (.inl (.inl (.inl (.inl ⟨q, h, rfl, hp, h0⟩))))
    | temp h hp => exact .inl (.inl (.inl (.inl (.inr ⟨q, h, rfl, hp, h0⟩))))
    | constFun h => exact .inl (.inl (.inl (.inr ⟨q, h, rfl, h0⟩)))
    | constBytes h => exact .inl (.inl (.inr ⟨q, h, rfl, h0⟩))
    | enumNullary hti htag => exact .inl (.inr ⟨_, hti, _, htag, rfl, h0⟩)
    | dynamicReg hfr hr hk hp => exact .inr ⟨h0, _, hfr, _, hr, rfl, .inl ⟨hk, hp⟩⟩
    | pointerReg hfr hr hk => exact .inr ⟨h0, _, hfr, _, hr, rfl, .inr hk⟩

theorem reaches_iff : Reaches s.heap.traced (s.roots m) q ↔ s.Live m q := by
  constructor
  · intro h
    refine h.induct (P := s.Live m) (fun p hp ↦ ?_) fun p q hp hq ↦ ?_
    · obtain ⟨hp, h0⟩ := mem_roots.mp hp
      exact .root hp h0
    · obtain ⟨c, hc, hq, h0⟩ := mem_traced.mp hq
      exact .field hp hc hq h0
  · intro h
    induction h with
    | root h h0 => exact .root (mem_roots.mpr ⟨h, h0⟩)
    | field _ hc hq h0 ih => exact ih.tail (mem_traced.mpr ⟨_, hc, hq, h0⟩)

end Trace

section Sweep

variable {s t u : Gc × Heap} {p q : JelloValue} {ps : List JelloValue}

/-- What a part of the sweep over the objects `ps` leaves as it was, and what it does with the free
list. -/
structure Swept (ps : List JelloValue) (s t : Gc × Heap) : Prop where
  size (q : JelloValue) : (t.1.hdr q).totalSize = (s.1.hdr q).totalSize
  hdr (q : JelloValue) : q ∉ ps → t.1.hdr q = s.1.hdr q
  roots : t.1.gcRoots = s.1.gcRoots
  next : t.2.next = s.2.next
  cells (q : JelloValue) : (q ∈ ps → (s.1.hdr q).marked = true) → t.2.cells q = s.2.cells q
  freed : ∃ freed, t.1.gcBoxFree = freed ++ s.1.gcBoxFree ∧
    t.1.gcBoxFreeLen = freed.length + s.1.gcBoxFreeLen ∧ freed.Nodup ∧
    (freed ≠ [] → t.1.gcBoxFreeLen ≤ gcBoxFreeMax) ∧
    ∀ q ∈ freed, q ∈ ps ∧ (s.1.hdr q).marked = false ∧ (t.2.cells q).isSome = true
  clear (q : JelloValue) : q ∈ ps → (s.1.hdr q).marked = true → (t.1.hdr q).marked = false
  unmarked (q : JelloValue) : (s.1.hdr q).marked = false → (t.1.hdr q).marked = false

theorem swept_nil : Swept [] s s where
  size _ := rfl
  hdr _ _ := rfl
  roots := rfl
  next := rfl
  cells _ _ := rfl
  freed := by
    refine ⟨[], rfl, (Nat.zero_add _).symm, List.nodup_nil, fun h ↦ absurd rfl h, ?_⟩
    exact fun q hq ↦ absurd hq List.not_mem_nil
  clear _ h := absurd h List.not_mem_nil
  unmarked _ h := h

theorem hdr_setMarked (g : Gc) (b : Bool) :
    (g.setMarked p b).hdr q = if q = p then { g.hdr p with marked := b } else g.hdr q := by
  simp only [Gc.setMarked, update_apply]

theorem size_setMarked (g : Gc) (b : Bool) :
    ((g.setMarked p b).hdr q).totalSize = (g.hdr q).totalSize := by
  rw [hdr_setMarked]
  split_ifs with h
  · rw [h]
  · rfl

theorem unmarked_setMarked (g : Gc) (hq : (g.hdr q).marked = false) :
    ((g.setMarked p false).hdr q).marked = false := by
  rw [hdr_setMarked]
  split_ifs
  · rfl
  · exact hq

theorem swept_survivor : Swept [p] s (s.1.setMarked p false, s.2) where
  size q := size_setMarked s.1 false
  hdr q hq := by
    rw [List.mem_singleton] at hq
    rw [hdr_setMarked, if_neg hq]
  roots := rfl
  next := rfl
  cells _ _ := rfl
  freed := by
    refine ⟨[], rfl, (Nat.zero_add _).symm, List.nodup_nil, fun h ↦ absurd rfl h, ?_⟩
    exact fun q hq ↦ absurd hq List.not_mem_nil
  clear q hq _ := by
    rw [List.mem_singleton] at hq
    rw [hdr_setMarked, if_pos hq]
  unmarked _ hq := unmarked_setMarked s.1 hq

theorem swept_free (hp : (s.1.hdr p).marked = false) {h : Heap}
    (hnext : h.next = s.2.next) (hcells : ∀ q ≠ p, h.cells q = s.2.cells q) :
    Swept [p] s (s.1, h) where
  size _ := rfl
  hdr _ _ := rfl
  roots := rfl
  next := hnext
  cells q hq := by
    refine hcells q fun hqp ↦ ?_
    have hmarked := hq (List.mem_singleton.mpr hqp)
    rw [hqp, hp] at hmarked
    exact Bool.false_ne_true hmarked
  freed := by
    refine ⟨[], rfl, (Nat.zero_add _).symm, List.nodup_nil, fun h ↦ absurd rfl h, ?_⟩
    exact fun q hq ↦ absurd hq List.not_mem_nil
  clear q hq hmarked := by
    rw [List.mem_singleton] at hq
    rw [hq, hp] at hmarked
    exact absurd hmarked Bool.false_ne_true
  unmarked _ h := h

theorem swept_gcBoxFreePush (hp : (s.1.hdr p).marked = false) (c : Cell) :
    Swept [p] s (gcBoxFreePush p (s.1, s.2.write p c)) := by
  have hcells : ∀ q ≠ p, (s.2.write p c).cells q = s.2.cells q := fun q hq ↦ update_of_ne hq _ _
  unfold gcBoxFreePush
  split_ifs with hfull
  · exact swept_free hp rfl fun q hq ↦ (update_of_ne hq _ _).trans (hcells q hq)
  · refine ⟨fun q ↦ size_setMarked s.1 false, fun q hq ↦ ?_, rfl, rfl, fun q hq ↦ ?_, ?_,
      fun q hq _ ↦ ?_, fun _ ↦ unmarked_setMarked s.1⟩
    · rw [List.mem_singleton] at hq
      exact (hdr_setMarked s.1 false).trans (if_neg hq)
    · refine hcells q fun hqp ↦ ?_
      have hmarked := hq (List.mem_singleton.mpr hqp)
      rw [hqp, hp] at hmarked
      exact Bool.false_ne_true hmarked
    · refine ⟨[p], rfl, Nat.add_comm _ _, List.nodup_singleton p, fun _ ↦ ?_, fun q hq ↦ ?_⟩
      · have hlt : s.1.gcBoxFreeLen < gcBoxFreeMax := Nat.lt_of_not_le hfull
        exact hlt
      · obtain rfl := List.mem_singleton.mp hq
        refine ⟨hq, hp, ?_⟩
        simp [Heap.write]
    · rw [List.mem_singleton] at hq
      rw [hq]
      exact congrArg GcHdr.marked ((hdr_setMarked s.1 false).trans (if_pos rfl))

theorem swept_sweepObject (hp : (s.1.hdr p).marked = false) :
    Swept [p] s (sweepObject p s) := by
  unfold sweepObject
  split
  · exact swept_free hp rfl fun _ _ ↦ rfl
  · next c _ =>
    split_ifs
    · exact swept_gcBoxFreePush hp (dropFields c)
    · exact swept_free hp rfl fun q hq ↦ update_of_ne hq _ _

theorem Swept.cons (hp : p ∉ ps) (h : Swept [p] s t) (h' : Swept ps t u) :
    Swept (p :: ps) s u where
  size q := (h'.size q).trans (h.size q)
  hdr q hq := by
    rw [List.mem_cons, not_or] at hq
    rw [h'.hdr q hq.2, h.hdr q (List.mem_singleton.not.mpr hq.1)]
  roots := h'.roots.trans h.roots
  next := h'.next.trans h.next
  cells q hq := by
    have hfirst := h.cells q fun hqp ↦ hq (List.mem_cons.mpr (.inl (List.mem_singleton.mp hqp)))
    rw [h'.cells q fun hqps ↦ ?_, hfirst]
    have hne : q ∉ [p] := by
      rw [List.mem_singleton]
      rintro rfl
      exact hp hqps
    rw [h.hdr q hne]
    exact hq (List.mem_cons_of_mem p hqps)
  freed := by
    obtain ⟨f, hf, hlen, hnd, hmax, hall⟩ := h.freed
    obtain ⟨f', hf', hlen', hnd', hmax', hall'⟩ := h'.freed
    have hne : ∀ q ∈ ps, q ∉ [p] := by
      intro q hq hqp
      rw [List.mem_singleton] at hqp
      exact hp (hqp ▸ hq)
    refine ⟨f' ++ f, by rw [hf', hf, List.append_assoc], ?_, ?_, fun hnil ↦ ?_, fun q hq ↦ ?_⟩
    · rw [hlen', hlen, List.length_append, Nat.add_assoc]
    · refine List.nodup_append.mpr ⟨hnd', hnd, ?_⟩
      rintro q hq r hr rfl
      exact hne q (hall' q hq).1 (hall q hr).1
    · by_cases hnil' : f' = []
      · have hsame : u.1.gcBoxFreeLen = t.1.gcBoxFreeLen := by
          rw [hlen', hnil', List.length_nil, Nat.zero_add]
        rw [hsame]
        refine hmax fun hf ↦ hnil ?_
        rw [hnil', hf, List.append_nil]
      · exact hmax' hnil'
    · rcases List.mem_append.mp hq with hq | hq
      · obtain ⟨hqps, hmarked, hsome⟩ := hall' q hq
        refine ⟨List.mem_cons_of_mem p hqps, ?_, hsome⟩
        rwa [h.hdr q (hne q hqps)] at hmarked
      · obtain ⟨hqp, hmarked, hsome⟩ := hall q hq
        refine ⟨List.mem_cons.mpr (.inl (List.mem_singleton.mp hqp)), hmarked, ?_⟩
        have hqps : q ∉ ps := fun hqps ↦ hne q hqps hqp
        rwa [h'.cells q fun hqps' ↦ absurd hqps' hqps]
  clear q hq hmarked := by
    by_cases hqps : q ∈ ps
    · refine h'.clear q hqps ?_
      have hne : q ∉ [p] := by
        rw [List.mem_singleton]
        rintro rfl
        exact hp hqps
      rwa [h.hdr q hne]
    · rw [h'.hdr q hqps]
      refine h.clear q ?_ hmarked
      rcases List.mem_cons.mp hq with rfl | hq
      · exact List.mem_singleton.mpr rfl
      · exact absurd hq hqps
  unmarked q hq := h'.unmarked q (h.unmarked q hq)

theorem Swept.filter (h : Swept [p] s t) (hp : p ∉ ps) :
    ps.filter (fun q ↦ (t.1.hdr q).marked) = ps.filter fun q ↦ (s.1.hdr q).marked := by
  refine List.filter_congr fun q hq ↦ ?_
  have hne : q ∉ [p] := by
    rw [List.mem_singleton]
    rintro rfl
    exact hp hq
  rw [h.hdr q hne]

/-- The sweep keeps the objects that are marked, in order, and adds up their sizes. -/
theorem sweep_spec (hnd : ps.Nodup) :
    (sweep ps s).1.1 = ps.filter (fun q ↦ (s.1.hdr q).marked) ∧
      (sweep ps s).1.2 = ((sweep ps s).1.1.map fun q ↦ (s.1.hdr q).totalSize).sum ∧
      Swept ps s (sweep ps s).2 := by
  induction ps generalizing s with
  | nil => exact ⟨rfl, rfl, swept_nil⟩
  | cons p ps ih =>
    obtain ⟨hp, hnd⟩ := List.nodup_cons.mp hnd
    cases hmarked : (s.1.hdr p).marked with
    | false =>
      have hstep := swept_sweepObject hmarked
      obtain ⟨hlist, hsum, hswept⟩ := ih (s := sweepObject p s) hnd
      have hsweep : sweep (p :: ps) s = sweep ps (sweepObject p s) := by
        rw [sweep, hmarked, if_pos (Bool.not_false)]
      rw [hsweep, List.filter_cons_of_neg (by simp [hmarked])]
      refine ⟨hlist.trans (hstep.filter hp), hsum.trans ?_, hstep.cons hp hswept⟩
      exact congrArg (fun l ↦ (List.map l _).sum) (funext hstep.size)
    | true =>
      have hstep : Swept [p] s (s.1.setMarked p false, s.2) := swept_survivor
      obtain ⟨hlist, hsum, hswept⟩ := ih (s := (s.1.setMarked p false, s.2)) hnd
      have hsweep : sweep (p :: ps) s =
          ((p :: (sweep ps (s.1.setMarked p false, s.2)).1.1,
            (s.1.hdr p).totalSize + (sweep ps (s.1.setMarked p false, s.2)).1.2),
            (sweep ps (s.1.setMarked p false, s.2)).2) := by
        rw [sweep, hmarked, if_neg (by simp)]
      rw [hsweep, List.filter_cons_of_pos (by simp [hmarked])]
      refine ⟨congrArg (p :: ·) (hlist.trans (hstep.filter hp)), ?_, hstep.cons hp hswept⟩
      rw [List.map_cons, List.sum_cons, hsum]
      exact congrArg (fun l ↦ _ + (List.map l _).sum) (funext hstep.size)

end Sweep

variable {m : JelloBcModule} {s : GcVm}

/-- The state that is swept: what is reached is marked. -/
def GcVm.marked (s : GcVm) (marked : JelloValue → Bool) : Gc × Heap :=
  ({ s.gc with hdr := fun p ↦ { s.gc.hdr p with marked := marked p } }, s.heap)

/-- Within as many rounds as there are objects everything live is marked, and nothing else. -/
theorem marks_live (hs : s.Ok) (hc : s.Closed m) :
    ∃ marked, drain s.heap.traced (s.gc.gcObjects.length + 1)
        (markAll (s.roots m) ⟨fun p ↦ (s.gc.hdr p).marked, []⟩) = some marked ∧
      ∀ p, marked p = true ↔ s.Live m p := by
  have hU : ∀ q, Reaches s.heap.traced (s.roots m) q → q ∈ s.gc.gcObjects.toFinset := fun q hq ↦
    List.mem_toFinset.mpr (hc q (reaches_iff.mp hq))
  obtain ⟨marked, hmarked, hiff⟩ := drain_spec hU
    (Nat.lt_succ_of_le (List.toFinset_card_le s.gc.gcObjects)) fun q _ ↦ hs.clear q
  refine ⟨marked, hmarked, fun p ↦ ?_⟩
  rw [hiff p, reaches_iff, hs.clear p]
  simp

/-- A collection keeps exactly what is live, as it was, and leaves no mark. -/
structure Collected (m : JelloBcModule) (s t : GcVm) : Prop where
  survivors (p : JelloValue) : p ∈ t.gc.gcObjects ↔ s.Live m p
  order : t.gc.gcObjects.Sublist s.gc.gcObjects
  contents (p : JelloValue) : p ∈ t.gc.gcObjects → t.heap.cells p = s.heap.cells p
  elsewhere (p : JelloValue) : p ∉ s.gc.gcObjects → t.heap.cells p = s.heap.cells p
  sizes (p : JelloValue) : (t.gc.hdr p).totalSize = (s.gc.hdr p).totalSize
  bytesLive : t.gc.gcBytesLive = (t.gc.gcObjects.map fun p ↦ (t.gc.hdr p).totalSize).sum
  free (p : JelloValue) : p ∈ t.gc.gcBoxFree →
    p ∈ s.gc.gcBoxFree ∨ p ∈ s.gc.gcObjects ∧ ¬s.Live m p
  roots : t.gc.gcRoots = s.gc.gcRoots
  vm : t.vm = s.vm.setStore { s.vm.store with heap := t.heap }
  next : t.heap.next = s.heap.next
  ok : t.Ok

theorem collected_of_marked (hs : s.Ok) {marked : JelloValue → Bool}
    (hiff : ∀ p, marked p = true ↔ s.Live m p) (hc : s.Closed m) {r : (List JelloValue × ℕ) × (Gc × Heap)}
    (hr : sweep s.gc.gcObjects (s.marked marked) = r) :
    Collected m s
      { s.setHeap r.2.2 with
        gc := { r.2.1 with
          gcObjects := r.1.1, gcBytesLive := r.1.2, gcNextCollect := nextCollect r.1.2 } } := by
  obtain ⟨hnd, hndfree, hdisjoint⟩ := List.nodup_append.mp hs.nodup
  obtain ⟨hlist, hsum, hswept⟩ := sweep_spec (s := s.marked marked) hnd
  rw [hr] at hlist hsum hswept
  obtain ⟨freed, hfreed, hlen, hfreednd, hmax, hall⟩ := hswept.freed
  have hsurvive : ∀ p, p ∈ r.1.1 ↔ p ∈ s.gc.gcObjects ∧ marked p = true := by
    intro p
    rw [hlist, List.mem_filter]
    exact Iff.rfl
  have hobjects : r.1.1.Sublist s.gc.gcObjects := by
    rw [hlist]
    exact List.filter_sublist
  have hkept : ∀ p, p ∈ r.1.1 → r.2.2.cells p = s.heap.cells p := fun p hp ↦
    hswept.cells p fun _ ↦ ((hsurvive p).mp hp).2
  have hold : ∀ p, p ∉ s.gc.gcObjects → r.2.2.cells p = s.heap.cells p := fun p hp ↦
    hswept.cells p fun hp' ↦ absurd hp' hp
  have hfree : r.2.1.gcBoxFree = freed ++ s.gc.gcBoxFree := hfreed
  have hfreedObjects : ∀ p ∈ freed, p ∈ s.gc.gcObjects ∧ marked p = false := fun p hp ↦
    ⟨(hall p hp).1, (hall p hp).2.1⟩
  refine
    { survivors := fun p ↦ ?_
      order := hobjects
      contents := hkept
      elsewhere := hold
      sizes := hswept.size
      bytesLive := ?_
      free := fun p hp ↦ ?_
      roots := hswept.roots
      vm := rfl
      next := hswept.next
      ok := ?_ }
  · rw [hsurvive]
    constructor
    · exact fun hp ↦ (hiff p).mp hp.2
    · exact fun hp ↦ ⟨hc p hp, (hiff p).mpr hp⟩
  · refine hsum.trans ?_
    exact congrArg (fun f ↦ (List.map f r.1.1).sum) (funext fun p ↦ (hswept.size p).symm)
  · change p ∈ r.2.1.gcBoxFree at hp
    rw [hfree] at hp
    rcases List.mem_append.mp hp with hp | hp
    · obtain ⟨hobj, hmarked⟩ := hfreedObjects p hp
      refine .inr ⟨hobj, fun hlive ↦ ?_⟩
      rw [(hiff p).mpr hlive] at hmarked
      exact Bool.noConfusion hmarked
    · exact .inl hp
  · have hmem : ∀ p, p ∈ r.1.1 ++ r.2.1.gcBoxFree →
        p ∈ r.1.1 ∨ p ∈ freed ∨ p ∈ s.gc.gcBoxFree := by
      intro p hp
      rw [hfree, List.mem_append, List.mem_append] at hp
      exact hp
    refine ⟨?_, fun p hp ↦ ?_, fun p ↦ ?_, fun p hp ↦ ?_, ?_, ?_⟩
    · change (r.1.1 ++ r.2.1.gcBoxFree).Nodup
      rw [hfree]
      refine List.nodup_append.mpr ⟨hobjects.nodup hnd, ?_, ?_⟩
      · refine List.nodup_append.mpr ⟨hfreednd, hndfree, ?_⟩
        exact fun p hp q hq ↦ hdisjoint p (hfreedObjects p hp).1 q hq
      · intro p hp q hq
        rcases List.mem_append.mp hq with hq | hq
        · rintro rfl
          have hmarked := (hsurvive p).mp hp
          rw [(hfreedObjects p hq).2] at hmarked
          exact Bool.false_ne_true hmarked.2
        · exact hdisjoint p (hobjects.subset hp) q hq
    · rcases hmem p hp with hp | hp | hp
      · exact hs.ptr p (List.mem_append_left _ (hobjects.subset hp))
      · exact hs.ptr p (List.mem_append_left _ (hfreedObjects p hp).1)
      · exact hs.ptr p (List.mem_append_right _ hp)
    · change (r.2.1.hdr p).marked = false
      by_cases hobj : p ∈ s.gc.gcObjects
      · cases hmarked : marked p with
        | true => exact hswept.clear p hobj hmarked
        | false => exact hswept.unmarked p hmarked
      · have hnotlive : marked p = false := by
          cases hmarked : marked p with
          | false => rfl
          | true => exact absurd (hc p ((hiff p).mp hmarked)) hobj
        exact hswept.unmarked p hnotlive
    · change (r.2.2.cells p).isSome = true
      rcases hmem p hp with hp | hp | hp
      · rw [hkept p hp]
        exact hs.cells p (List.mem_append_left _ (hobjects.subset hp))
      · exact (hall p hp).2.2
      · rw [hold p fun hp' ↦ hdisjoint p hp' p hp rfl]
        exact hs.cells p (List.mem_append_right _ hp)
    · have hbefore : (s.marked marked).1.gcBoxFreeLen = s.gc.gcBoxFree.length := hs.len
      change r.2.1.gcBoxFreeLen = r.2.1.gcBoxFree.length
      rw [hfree, List.length_append, hlen, hbefore]
    · change r.2.1.gcBoxFree.length ≤ gcBoxFreeMax
      have hbefore : (s.marked marked).1.gcBoxFreeLen = s.gc.gcBoxFree.length := hs.len
      by_cases hnil : freed = []
      · rw [hfree, hnil, List.nil_append]
        exact hs.bound
      · rw [hfree, List.length_append, ← hbefore, ← hlen]
        exact hmax hnil

theorem collected (hs : s.Ok) (hc : s.Closed m) :
    ∃ t, jelloGcCollect m s = some t ∧ Collected m s t := by
  obtain ⟨marked, hmarked, hiff⟩ := marks_live hs hc
  refine ⟨_, ?_, collected_of_marked hs hiff hc rfl⟩
  simp only [jelloGcCollect, hmarked, Option.bind_eq_bind, Option.bind_some]
  rfl

section Congr

variable {t : GcVm} {p : JelloValue}

theorem GcVm.Rooted.congr (h : s.Rooted m p)
    (hvm : t.vm = s.vm.setStore { s.vm.store with heap := t.heap })
    (hroots : t.gc.gcRoots = s.gc.gcRoots) : t.Rooted m p := by
  cases h with
  | spill hv hp => exact .spill (by rwa [hvm]) hp
  | temp hv hp => exact .temp (by rwa [hroots]) hp
  | constFun hv => exact .constFun (by rwa [hvm])
  | constBytes hv => exact .constBytes (by rwa [hvm])
  | @enumNullary ti tag hti htag =>
    have hroot : t.Rooted m (t.vm.store.enumNullary ti (UInt32.ofNat tag)) :=
      .enumNullary (by rwa [hvm]) htag
    rwa [hvm] at hroot
  | @dynamicReg fr r hfr hr hk hp =>
    have hroot : t.Rooted m (load64 t.vm.store.mem (fr.rf.addr r)) :=
      .dynamicReg (by rwa [hvm]) hr hk (by rwa [hvm])
    rwa [hvm] at hroot
  | @pointerReg fr r hfr hr hk =>
    have hroot : t.Rooted m (load64 t.vm.store.mem (fr.rf.addr r)) :=
      .pointerReg (by rwa [hvm]) hr hk
    rwa [hvm] at hroot

theorem GcVm.Live.congr (h : s.Live m p)
    (hvm : t.vm = s.vm.setStore { s.vm.store with heap := t.heap })
    (hroots : t.gc.gcRoots = s.gc.gcRoots)
    (hcells : ∀ q, s.Live m q → t.heap.cells q = s.heap.cells q) : t.Live m p := by
  induction h with
  | root h h0 => exact .root (h.congr hvm hroots) h0
  | field hp hcell hq h0 ih => exact .field ih ((hcells _ hp).trans hcell) hq h0

theorem GcVm.live_congr (hvm : t.vm = s.vm.setStore { s.vm.store with heap := t.heap })
    (hroots : t.gc.gcRoots = s.gc.gcRoots)
    (hcells : ∀ q, s.Live m q → t.heap.cells q = s.heap.cells q) :
    t.Live m p ↔ s.Live m p := by
  have hback : s.vm = t.vm.setStore { t.vm.store with heap := s.heap } := by
    rw [hvm]
    rfl
  refine ⟨fun h ↦ ?_, fun h ↦ h.congr hvm hroots hcells⟩
  induction h with
  | root h h0 => exact .root (h.congr hback hroots.symm) h0
  | field _ hcell hq h0 ih => exact .field ih ((hcells _ ih).symm.trans hcell) hq h0

end Congr

theorem Collected.live_iff {t : GcVm} {p : JelloValue} (h : Collected m s t) :
    t.Live m p ↔ s.Live m p :=
  GcVm.live_congr h.vm h.roots fun q hq ↦ h.contents q ((h.survivors q).mpr hq)

theorem Collected.closed {t : GcVm} (h : Collected m s t) : t.Closed m := fun p hp ↦
  (h.survivors p).mpr (h.live_iff.mp hp)

/-- A collection leaves exactly the live objects on the list, with the contents they had and no
mark, and counts their bytes. -/
theorem collect_exact (hs : s.Ok) (hc : s.Closed m) :
    ∃ t, jelloGcCollect m s = some t ∧
      (∀ p, p ∈ t.gc.gcObjects ↔ s.Live m p) ∧
      t.gc.gcObjects.Sublist s.gc.gcObjects ∧
      (∀ p ∈ t.gc.gcObjects, t.heap.cells p = s.heap.cells p) ∧
      (∀ p ∈ t.gc.gcObjects, (t.gc.hdr p).marked = false) ∧
      (∀ p, (t.gc.hdr p).totalSize = (s.gc.hdr p).totalSize) ∧
      t.gc.gcBytesLive = (t.gc.gcObjects.map fun p ↦ (t.gc.hdr p).totalSize).sum := by
  obtain ⟨t, ht, h⟩ := collected hs hc
  refine ⟨t, ht, h.survivors, h.order, h.contents, fun p _ ↦ ?_, h.sizes, h.bytesLive⟩
  exact h.ok.clear p

/-- Two list nodes that refer to each other, a box that one of them holds and a box that nothing
holds. -/
def cyclicHeap : Heap :=
  { cells := fun p ↦
      if p = 16 then some (.list ⟨0, jelloMakeNull, 32⟩)
      else if p = 32 then some (.list ⟨0, 48, 16⟩)
      else if p = 48 then some (.boxI64 0 7)
      else if p = 64 then some (.boxF64 0 0)
      else none
    next := 80 }

def cyclicVm : GcVm :=
  { vm := { jelloVmCreate with
      store := { jelloVmCreate.store with heap := cyclicHeap, spill := [16] } }
    gc :=
      { hdr := fun p ↦ if p = 16 ∨ p = 32 then ⟨48, false⟩ else ⟨40, false⟩
        gcObjects := [64, 48, 32, 16]
        gcBoxFree := []
        gcBoxFreeLen := 0
        gcBytesLive := 176
        gcNextCollect := 1048576
        gcRoots := [] } }

theorem cyclicVm_ok : cyclicVm.Ok := by
  refine ⟨by decide, fun p hp ↦ ?_, fun p ↦ ?_, fun p hp ↦ ?_, rfl, by decide⟩
  · have hmem : p = 64 ∨ p = 48 ∨ p = 32 ∨ p = 16 := by
      simpa [cyclicVm] using hp
    rcases hmem with rfl | rfl | rfl | rfl
    · exact ⟨by decide, by decide⟩
    · exact ⟨by decide, by decide⟩
    · exact ⟨by decide, by decide⟩
    · exact ⟨by decide, by decide⟩
  · simp only [cyclicVm]
    split_ifs <;> rfl
  · have hall : ∀ q ∈ [64, 48, 32, 16], (cyclicHeap.cells q).isSome = true := by
      simp [cyclicHeap]
    exact hall p hp

theorem cyclicVm_closed : cyclicVm.Closed default := by
  have hall : ∀ p ∈ [48, 32, 16], cyclicHeap.traced p ⊆ [48, 32, 16] := by
    simp [cyclicHeap, Heap.traced, traceObject, markVal, markPtr, jelloIsPtr, jelloMakeNull, hasTag]
    decide
  intro p hp
  have hreach := (reaches_iff.mpr hp).induct (P := fun q ↦ q ∈ [48, 32, 16]) ?_ ?_
  · exact List.mem_cons_of_mem 64 hreach
  · intro q hq
    have hroots : cyclicVm.roots default = [16] := by decide
    rw [hroots, List.mem_singleton] at hq
    rw [hq]
    decide
  · exact fun q r hq hr ↦ hall q hq hr

theorem collect_exact_cyclic :
    ∃ t, jelloGcCollect default cyclicVm = some t ∧
      (∀ p, p ∈ t.gc.gcObjects ↔ cyclicVm.Live default p) ∧
      t.gc.gcObjects.Sublist cyclicVm.gc.gcObjects ∧
      (∀ p ∈ t.gc.gcObjects, t.heap.cells p = cyclicVm.heap.cells p) ∧
      (∀ p ∈ t.gc.gcObjects, (t.gc.hdr p).marked = false) ∧
      (∀ p, (t.gc.hdr p).totalSize = (cyclicVm.gc.hdr p).totalSize) ∧
      t.gc.gcBytesLive = (t.gc.gcObjects.map fun p ↦ (t.gc.hdr p).totalSize).sum :=
  collect_exact cyclicVm_ok cyclicVm_closed

example : (jelloGcCollect default cyclicVm).map (fun t ↦ t.gc.gcObjects) = some [48, 32, 16] := by
  decide +kernel

end JelloVM
