import JelloVM.FrameRuns
import JelloVM.Validated

/-! Where the registers of a frame lie: apart from each other, and where an access of their size may
be. -/

namespace JelloVM

open Logged

section Slots

/-- `off` and `total` of a `frame_layout` have 32 bits. -/
def storedLayout (ks : List Kind) : List ℕ × ℕ :=
  ((layoutFrom ks 0).1.map u32, u32 (layoutFrom ks 0).2)

def slotAt (ks : List Kind) (off : List ℕ) (i : ℕ) : Area :=
  ⟨off.getD i 0, jelloSlotSize (ks.getD i default)⟩

structure SlotsApart (ks : List Kind) (off : List ℕ) (total : ℕ) : Prop where
  apart : ∀ i j, i < ks.length → j < ks.length → i ≠ j →
    (slotAt ks off i).Apart (slotAt ks off j)
  below : ∀ i < ks.length, (slotAt ks off i).start + (slotAt ks off i).size ≤ total

variable {ks : List Kind} {t i j : ℕ}

theorem slotSize_pos (k : Kind) : 0 < jelloSlotSize k := by
  obtain hk | hk := jelloSlotSize_cases k <;> omega

theorem layoutFrom_dvd_offset (t : ℕ) (hi : i < ks.length) :
    jelloSlotSize (ks.getD i default) ∣ (layoutFrom ks t).1.getD i 0 := by
  induction ks generalizing t i with
  | nil => exact absurd hi (Nat.not_lt_zero i)
  | cons k ks ih =>
    cases i with
    | zero => exact alignUp_dvd t dvd_rfl
    | succ i => exact ih _ (Nat.lt_of_succ_lt_succ hi)

theorem layoutFrom_length (ks : List Kind) (t : ℕ) : (layoutFrom ks t).1.length = ks.length := by
  induction ks generalizing t with
  | nil => rfl
  | cons k ks ih => simp only [layoutFrom, List.length_cons, ih]

/-- No slot crosses what 32 bits can count: a layout that gets there has a slot that starts there,
or ends there. -/
theorem layoutFrom_meets (ht : t ≤ 2 ^ 32) (hT : 2 ^ 32 ≤ (layoutFrom ks t).2) :
    (layoutFrom ks t).2 = 2 ^ 32 ∨ ∃ i < ks.length, (layoutFrom ks t).1.getD i 0 = 2 ^ 32 := by
  induction ks generalizing t with
  | nil => exact .inl (le_antisymm ht hT)
  | cons k ks ih =>
    have halign : alignUp t (jelloSlotSize k) = 2 ^ 32 ∨
        alignUp t (jelloSlotSize k) + jelloSlotSize k ≤ 2 ^ 32 := by
      unfold alignUp
      obtain hk | hk := jelloSlotSize_cases k <;> rw [hk] <;> omega
    obtain hmeet | hle := halign
    · exact .inr ⟨0, Nat.succ_pos _, hmeet⟩
    · obtain hend | ⟨i, hi, hoff⟩ := ih hle hT
      · exact .inl hend
      · exact .inr ⟨i + 1, Nat.succ_lt_succ hi, hoff⟩

theorem slotAt_stored (ks : List Kind) (i : ℕ) :
    slotAt ks (storedLayout ks).1 i =
      ⟨u32 ((layoutFrom ks 0).1.getD i 0), jelloSlotSize (ks.getD i default)⟩ := by
  have hget : ((layoutFrom ks 0).1.map u32).getD i (u32 0) = u32 ((layoutFrom ks 0).1.getD i 0) :=
    List.getD_map ..
  exact congrArg (Area.mk · _) hget

/-- The slots are where they should be exactly when the size of the frame fits in 32 bits. -/
theorem slotsApart_iff (ks : List Kind) :
    SlotsApart ks (storedLayout ks).1 (storedLayout ks).2 ↔ (layoutFrom ks 0).2 < 2 ^ 32 := by
  constructor
  · intro h
    by_contra hge
    rw [not_lt] at hge
    have hpos : 0 < ks.length := by
      rw [List.length_pos_iff]
      rintro rfl
      exact absurd hge (by decide)
    have hfirst : (layoutFrom ks 0).1.getD 0 0 = 0 := by
      cases ks with
      | nil => rfl
      | cons k ks =>
        obtain hk | hk := jelloSlotSize_cases k <;> simp [layoutFrom, alignUp, hk]
    have hsize := slotSize_pos (ks.getD 0 default)
    obtain hend | ⟨i, hi, hoff⟩ := layoutFrom_meets (Nat.zero_le _) hge
    · have hbelow := h.below 0 hpos
      have htotal : (storedLayout ks).2 = 0 := by
        simp only [storedLayout, hend, u32, Nat.mod_self]
      rw [slotAt_stored, htotal] at hbelow
      simp only at hbelow
      omega
    · have hne : 0 ≠ i := by
        rintro rfl
        rw [hfirst] at hoff
        exact absurd hoff (by decide)
      have hsize' := slotSize_pos (ks.getD i default)
      refine h.apart 0 i hpos hi hne 0 ?_
      simp only [slotAt_stored, hfirst, hoff, Area.Has, u32, Nat.mod_self, Nat.zero_mod,
        Nat.zero_add]
      exact ⟨⟨le_rfl, hsize⟩, le_rfl, hsize'⟩
  · intro hlt
    have hfit (i : ℕ) (hi : i < ks.length) :
        u32 ((layoutFrom ks 0).1.getD i 0) = (layoutFrom ks 0).1.getD i 0 := by
      have hslot := (layoutFrom_slot ks 0 i hi).2
      exact Nat.mod_eq_of_lt (by omega)
    refine ⟨fun i j hi hj hij x hboth ↦ ?_, fun i hi ↦ ?_⟩
    · obtain ⟨hx, hx'⟩ := hboth
      rw [slotAt_stored, hfit i hi] at hx
      rw [slotAt_stored, hfit j hj] at hx'
      simp only [Area.Has] at hx hx'
      obtain hlt | hlt := Nat.lt_or_gt_of_ne hij
      · have hle := layoutFrom_ordered ks 0 i j hlt hj
        omega
      · have hle := layoutFrom_ordered ks 0 j i hlt hi
        omega
    · rw [slotAt_stored, hfit i hi]
      have htotal : (storedLayout ks).2 = (layoutFrom ks 0).2 := Nat.mod_eq_of_lt hlt
      rw [htotal]
      exact (layoutFrom_slot ks 0 i hi).2

theorem stored_eq {m : JelloBcModule} (hm : FewRegs m) (f : ℕ) :
    storedLayout (regKinds m f) = ((vmGetFrameLayout m f).off, (vmGetFrameLayout m f).total) := by
  have htotal := hm.total_le f
  have hfit : (layoutFrom (regKinds m f) 0).2 < 2 ^ 32 := htotal.trans_lt (by decide)
  refine Prod.ext ?_ (Nat.mod_eq_of_lt hfit)
  change (layoutFrom (regKinds m f) 0).1.map u32 = (layoutFrom (regKinds m f) 0).1
  conv_rhs => rw [← List.map_id (layoutFrom (regKinds m f) 0).1]
  apply List.map_congr_left
  intro o ho
  obtain ⟨i, hi, rfl⟩ := List.getElem_of_mem ho
  have hle := (layoutFrom_slot (regKinds m f) 0 i (layoutFrom_length (regKinds m f) 0 ▸ hi)).2
  rw [List.getD_eq_getElem _ _ hi] at hle
  exact Nat.mod_eq_of_lt (by omega)

theorem slotsApart_layout {m : JelloBcModule} (hm : FewRegs m) (f : ℕ) :
    SlotsApart (regKinds m f) (vmGetFrameLayout m f).off (vmGetFrameLayout m f).total := by
  have hfit : (layoutFrom (regKinds m f) 0).2 < 2 ^ 32 := (hm.total_le f).trans_lt (by decide)
  have hslots := (slotsApart_iff (regKinds m f)).mpr hfit
  rw [stored_eq hm f] at hslots
  exact hslots

end Slots

section Frames

def HasWide (m : JelloBcModule) (f : ℕ) : Prop := ∃ k ∈ regKinds m f, jelloSlotSize k = 8

/-- A frame with a register of eight bytes starts at a multiple of eight. -/
def WideAt (m : JelloBcModule) (f o : ℕ) : Prop := HasWide m f → 8 ∣ o

/-- Every register of every live frame is where an access of its size may be. -/
def RegsAligned (m : JelloBcModule) (vm : VM) : Prop :=
  ∀ fr ∈ vm.callFrames, ∀ r < (m.func fr.f).nregs, jelloSlotSize (regKind m fr.f r) ∣ fr.rf.addr r

variable {ex : Exec} {vm : VM} {fr : CallFrame}

theorem FrameOk.aligned {base cap : ℕ} (h : FrameOk ex (WideAt ex.m) base cap fr)
    (hbase : 16 ∣ base) {r : ℕ} (hr : r < (ex.m.func fr.f).nregs) :
    jelloSlotSize (regKind ex.m fr.f r) ∣ fr.rf.addr r := by
  have hlen : r < (regKinds ex.m fr.f).length := by
    simpa [regKinds, JelloBcFunction.nregs] using hr
  have hkind := regKinds_getD ex.m fr.f hr
  have hoff : fr.rf.off.getD r 0 = (layoutFrom (regKinds ex.m fr.f) 0).1.getD r 0 := by
    rw [h.placed]
    rfl
  have htotal : fr.rf.total ≠ 0 := by
    have hslot := slot_le_total ex.m fr.f r hr
    have hpos := slotSize_pos (regKind ex.m fr.f r)
    rw [h.placed]
    change (vmGetFrameLayout ex.m fr.f).total ≠ 0
    omega
  have hmem : fr.rf.mem ≠ 0 := fun hzero ↦ htotal (h.empty hzero)
  have hstart : fr.rf.mem = base + (fr.rf.mem - base) := by
    have hin := h.inside hmem
    omega
  have hdvd := layoutFrom_dvd_offset 0 hlen
  obtain ⟨hfour, hwide⟩ := h.sits htotal
  rw [hkind] at hdvd
  rw [RegFrame.addr, hstart, hoff]
  refine (Dvd.dvd.add ?_ ?_).add hdvd
  · obtain hk | hk := jelloSlotSize_cases (regKind ex.m fr.f r) <;> rw [hk]
    · exact (by decide : 4 ∣ 16).trans hbase
    · exact (by decide : 8 ∣ 16).trans hbase
  · obtain hk | hk := jelloSlotSize_cases (regKind ex.m fr.f r)
    · rw [hk]
      exact hfour
    · rw [hk]
      refine hwide ⟨regKind ex.m fr.f r, ?_, hk⟩
      rw [← hkind, List.getD_eq_getElem _ _ hlen]
      exact List.getElem_mem hlen

theorem StackInv.aligned (h : StackInv ex (WideAt ex.m) vm) (halloc : ∀ n, 16 ∣ ex.realloc n) :
    RegsAligned ex.m vm := by
  intro fr hfr r hr
  have hbase : 16 ∣ vm.frameStack := by
    obtain hzero | ⟨n, hn⟩ := h.base
    · rw [hzero]
      exact Nat.dvd_zero 16
    · rw [hn]
      exact halloc n
  exact (h.frames fr hfr).aligned hbase hr

end Frames

/-- The slots of a layout lie apart and below its size where that size fits in 32 bits, as it does
for every function that can be loaded; and on a stack that the allocator has aligned, a run that
gives every frame with a register of eight bytes a multiple of eight as its place, has every register
where an access of its size may be. -/
theorem registers_aligned (ex : Exec) :
    (∀ ks, SlotsApart ks (storedLayout ks).1 (storedLayout ks).2 ↔ (layoutFrom ks 0).2 < 2 ^ 32) ∧
    (FewRegs ex.m → ∀ f,
      SlotsApart (regKinds ex.m f) (vmGetFrameLayout ex.m f).off (vmGetFrameLayout ex.m f).total) ∧
    (FewRegs ex.m → (∀ n, 16 ∣ ex.realloc n) →
      ∀ vm, OpRun ex (fun vm op ↦ op.Places ex (WideAt ex.m) vm) vm → RegsAligned ex.m vm) := by
  refine ⟨slotsApart_iff, fun hm f ↦ slotsApart_layout hm f, fun hm halloc vm hrun ↦ ?_⟩
  have hstack : StackRun ex (WideAt ex.m) vm := hrun.stackRun hm fun _ _ hop ↦ hop
  exact (hstack.inv hm).aligned halloc

/-- A function with one I32 register that calls one with an I64 and an I32 register. -/
def oddModule : JelloBcModule :=
  { features := { (default : Features) with const64 := true }
    types := [⟨.i32, 0⟩, ⟨.i64, 0⟩]
    sigs := []
    atoms := []
    constI64 := [1]
    constF64 := []
    constBytes := []
    funcs :=
      [{ regTypes := [0]
         capStart := 0
         insns := [{ op := .call, a := 0, b := 0, c := 0, imm := 48 },
           { op := .ret, a := 0, b := 0, c := 0, imm := 0 }]
         sourceFile := 0
         lines := [] },
       { regTypes := [1, 0]
         capStart := 0
         insns := [{ op := .constI64, a := 0, b := 0, c := 0, imm := 0 },
           { op := .constI32, a := 1, b := 0, c := 0, imm := 0 },
           { op := .ret, a := 1, b := 0, c := 0, imm := 0 }]
         sourceFile := 0
         lines := [] }]
    entry := 0
    sourceFiles := [] }

def oddOps : List StackOp := [.entry, .call 1 0 0 0 none]

/-- The I64 register of the callee lies four bytes above a multiple of eight. -/
theorem registers_misaligned :
    Accepted oddModule ∧ (∀ n, 16 ∣ (Exec.alone oddModule).realloc n) ∧
      ∃ vm, OpRun (.alone oddModule) (fun _ _ ↦ True) vm ∧ ¬ RegsAligned oddModule vm := by
  have hview : (result (StackOp.runAll (.alone oddModule) oddOps) jelloVmCreate).toOption.map
      (fun r ↦ r.2.callFrames.map fun fr ↦ (fr.f, fr.rf.addr 0)) = some [(1, 4100), (0, 4096)] := by
    decide +kernel
  obtain ⟨r, hr, hframes⟩ := result_of_view hview
  refine ⟨by decide +kernel, fun _ ↦ ⟨256, rfl⟩, r.2,
    OpRun.create.all (.alone oddModule) oddOps (fun _ _ _ ↦ trivial) hr, fun h ↦ ?_⟩
  cases hfrs : r.2.callFrames with
  | nil => simp [hfrs] at hframes
  | cons fr frs =>
    simp only [hfrs, List.map_cons, List.cons.injEq, Prod.mk.injEq] at hframes
    obtain ⟨⟨hf, haddr⟩, -⟩ := hframes
    have hdvd := h fr (hfrs ▸ List.mem_cons_self) 0 (by rw [hf]; decide)
    rw [hf, haddr] at hdvd
    exact absurd hdvd (by decide)

/-- The same functions the other way round: the frame of the caller is aligned at the bottom, and
the callee has no register of eight bytes. -/
def wideFirst : Exec := .alone { oddModule with entry := 1 }

def wideFirstOps : List StackOp := [.entry, .call 0 0 0 0 none]

theorem registers_aligned_wideFirst :
    ∃ vm, OpRun wideFirst (fun vm op ↦ op.Places wideFirst (WideAt wideFirst.m) vm) vm ∧
      vm.callFrames.map (fun fr ↦ (fr.f, fr.rf.addr 0)) = [(0, 4108), (1, 4096)] ∧
        RegsAligned wideFirst.m vm := by
  have hm : FewRegs wideFirst.m := by decide +kernel
  have hview : (result (StackOp.runAll wideFirst wideFirstOps) jelloVmCreate).toOption.map
      (fun r ↦ r.2.callFrames.map fun fr ↦ (fr.f, fr.rf.addr 0)) = some [(0, 4108), (1, 4096)] := by
    decide +kernel
  obtain ⟨r, hr, hframes⟩ := result_of_view hview
  have hnarrow : ¬ HasWide wideFirst.m 0 := by
    unfold HasWide
    decide
  have hrun := OpRun.create.all wideFirst wideFirstOps
    (P := fun vm op ↦ op.Places wideFirst (WideAt wideFirst.m) vm) (fun op hop vm ↦ ?_) hr
  · exact ⟨r.2, hrun, hframes, (registers_aligned wideFirst).2.2 hm (fun _ ↦ ⟨256, rfl⟩) r.2 hrun⟩
  · obtain rfl | rfl : op = .entry ∨ op = .call 0 0 0 0 none := by
      simpa [wideFirstOps] using hop
    · exact fun _ _ ↦ Nat.dvd_zero 8
    · exact fun _ _ hwide ↦ absurd hwide hnarrow

end JelloVM
