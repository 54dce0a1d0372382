import JelloVM.FrameStack
import JelloVM.Ret

/-! The frame stack as all ways to give and take frames use it, tail calls that shrink a frame in
place included. -/

namespace JelloVM

open Logged

section Layout

theorem alignUp_dvd {a b : ℕ} (x : ℕ) (h : a ∣ b) : a ∣ alignUp x b :=
  h.trans (Nat.dvd_mul_left _ _)

theorem four_dvd_slotSize (k : Kind) : 4 ∣ jelloSlotSize k := by
  obtain hk | hk := jelloSlotSize_cases k
  · rw [hk]
  · rw [hk]
    decide

theorem layoutFrom_dvd (ks : List Kind) {t : ℕ} (ht : 4 ∣ t) : 4 ∣ (layoutFrom ks t).2 := by
  induction ks generalizing t with
  | nil => exact ht
  | cons k ks ih =>
    have hk := four_dvd_slotSize k
    exact ih ((alignUp_dvd t hk).add hk)

theorem total_dvd (m : JelloBcModule) (f : ℕ) : 4 ∣ (vmGetFrameLayout m f).total :=
  layoutFrom_dvd (regKinds m f) (Nat.dvd_zero 4)

end Layout

section Steps

/-- The area of a frame goes off the stack, or, where it is none of the stack, into a pool from
which nothing is ever taken. -/
inductive Released (vm : VM) (rf : RegFrame) : VM → Prop
  | stack {vm' : VM} (h : result (vmRfRelease rf) vm = .ok ((), vm')) : Released vm rf vm'
  | pool (h : result (vmRfRelease rf) vm = .error .wild) : Released vm rf vm

def CallFrame.place (fr : CallFrame) : ℕ × RegFrame := (fr.f, fr.rf)

structure SameStack (vm vm' : VM) : Prop where
  base : vm'.frameStack = vm.frameStack
  top : vm'.frameStackTop = vm.frameStackTop
  cap : vm'.frameStackCap = vm.frameStackCap
  max : vm'.callFramesMax = vm.callFramesMax
  places : vm'.callFrames.map CallFrame.place = vm.callFrames.map CallFrame.place

variable (ex : Exec) (ok : ℕ → ℕ → Prop)

/-- A frame of the function `f` may lie `o` bytes above the base of the stack; where one that has no
registers lies does not matter. -/
def OkAt (f o : ℕ) : Prop := (vmGetFrameLayout ex.m f).total ≠ 0 → ok f o

/-- The next thing that happens to the frame stack -/
inductive StackStep (vm : VM) : VM → Prop
  | push {f mem : ℕ} {vm' : VM} {fr : CallFrame} (hroom : vm.canPush = true)
      (hfirst : vm.callFrames = [] → vm.frameStackTop = 0)
      (hok : OkAt ex ok f vm.frameStackTop)
      (hbump : result (vmFrameStackBump ex (vmGetFrameLayout ex.m f).total) vm = .ok (mem, vm'))
      (hfr : fr.place = (f, (vmGetFrameLayout ex.m f).frame mem)) :
      StackStep vm { vm' with callFrames := fr :: vm'.callFrames }
  | pop {fr : CallFrame} {frs : List CallFrame} {vm' : VM} (htop : vm.callFrames = fr :: frs)
      (hrel : Released vm fr.rf vm') : StackStep vm { vm' with callFrames := frs }
  | shrink {f : ℕ} {fr new : CallFrame} {frs : List CallFrame} (htop : vm.callFrames = fr :: frs)
      (hle : (vmGetFrameLayout ex.m f).total ≤ fr.rf.total)
      (hok : OkAt ex ok f
        (fr.rf.mem + (fr.rf.total - (vmGetFrameLayout ex.m f).total) - vm.frameStack))
      (hnew : new.place = (f, (vmGetFrameLayout ex.m f).frame
        (fr.rf.mem + (fr.rf.total - (vmGetFrameLayout ex.m f).total)))) :
      StackStep vm
        { vm with
          frameStackTop :=
            sub32 vm.frameStackTop (fr.rf.total - (vmGetFrameLayout ex.m f).total)
          callFrames := new :: frs }
  | clear : StackStep vm { vm with callFrames := [] }
  | reset (hnone : vm.callFrames = []) : StackStep vm { vm with frameStackTop := 0 }
  | other {vm' : VM} (h : SameStack vm vm') : StackStep vm vm'

def StackSteps : VM → VM → Prop := Relation.ReflTransGen (StackStep ex ok)

/-- The states of the frame stack from its creation on -/
def StackRun (vm : VM) : Prop := StackSteps ex ok jelloVmCreate vm

end Steps

section Invariant

/-- A frame has the layout of its function and lies in the stack. -/
structure FrameOk (ex : Exec) (ok : ℕ → ℕ → Prop) (base cap : ℕ) (fr : CallFrame) : Prop where
  placed : fr.rf = (vmGetFrameLayout ex.m fr.f).frame fr.rf.mem
  inside : fr.rf.mem ≠ 0 → base ≤ fr.rf.mem ∧ fr.rf.mem + fr.rf.total ≤ base + cap
  empty : fr.rf.mem = 0 → fr.rf.total = 0
  sits : fr.rf.total ≠ 0 → 4 ∣ fr.rf.mem - base ∧ ok fr.f (fr.rf.mem - base)

def topMax : ℕ := frameTotalMax * 100000

/-- No stack yet, or one of a size that comes from the first by multiplications by four. -/
def CapOk (vm : VM) : Prop :=
  vm.frameStackCap = 0 ∧ vm.frameStack = 0 ∨
    (∃ k ≤ 6, vm.frameStackCap = frameStackInitial * 4 ^ k) ∧ vm.frameStack ≠ 0

/-- What every step keeps. The frames need not lie one above the other, since one that was shrunk in
place lies above the top. -/
structure StackInv (ex : Exec) (ok : ℕ → ℕ → Prop) (vm : VM) : Prop where
  frames : ∀ fr ∈ vm.callFrames, FrameOk ex ok vm.frameStack vm.frameStackCap fr
  top : vm.callFrames = [] ∨ vm.frameStackTop = vm.totals.sum
  small : vm.frameStackTop ≤ topMax
  max : vm.callFramesMax = 100000
  len : vm.callFrames.length ≤ 100000
  cap : CapOk vm
  base : vm.frameStack = 0 ∨ ∃ n, vm.frameStack = ex.realloc n

variable {ex : Exec} {ok : ℕ → ℕ → Prop} {vm : VM} {fr : CallFrame} {frs : List CallFrame}

theorem FrameOk.total_le {base cap : ℕ} (hm : FewRegs ex.m) (h : FrameOk ex ok base cap fr) :
    fr.rf.total ≤ frameTotalMax := by
  rw [h.placed]
  exact hm.total_le fr.f

theorem FrameOk.total_dvd {base cap : ℕ} (h : FrameOk ex ok base cap fr) : 4 ∣ fr.rf.total := by
  rw [h.placed]
  exact JelloVM.total_dvd ex.m fr.f

theorem totals_sum_le (hm : FewRegs ex.m) {base cap : ℕ}
    (hok : ∀ fr ∈ vm.callFrames, FrameOk ex ok base cap fr)
    (hlen : vm.callFrames.length ≤ 100000) : vm.totals.sum ≤ topMax := by
  have hle : vm.totals.sum ≤ vm.totals.length • frameTotalMax := by
    apply List.sum_le_card_nsmul
    intro n hn
    obtain ⟨fr, hfr, rfl⟩ := List.mem_map.mp hn
    exact (hok fr hfr).total_le hm
  rw [VM.totals_length, smul_eq_mul, Nat.mul_comm] at hle
  exact hle.trans (Nat.mul_le_mul_left _ hlen)

theorem StackInv.totals_dvd (h : StackInv ex ok vm) : 4 ∣ vm.totals.sum := by
  apply List.dvd_sum
  intro n hn
  obtain ⟨fr, hfr, rfl⟩ := List.mem_map.mp hn
  exact (h.frames fr hfr).total_dvd

/-- The sizes of the live frames make up the top, so each of them can be taken off. -/
theorem StackInv.total_le (h : StackInv ex ok vm) (hfr : fr ∈ vm.callFrames) :
    fr.rf.total ≤ vm.frameStackTop := by
  obtain hnil | htop := h.top
  · simp [hnil] at hfr
  · rw [htop]
    exact List.single_le_sum (fun _ _ ↦ Nat.zero_le _) _ (List.mem_map_of_mem hfr)

theorem StackInv.u32_top (h : StackInv ex ok vm) {need : ℕ} (hneed : need ≤ frameTotalMax) :
    u32 (vm.frameStackTop + need) = vm.frameStackTop + need := by
  have htop := h.small
  unfold topMax at htop
  unfold frameTotalMax at hneed htop
  exact Nat.mod_eq_of_lt (by omega)

theorem StackInv.sub32_top (h : StackInv ex ok vm) {n : ℕ} (hn : n ≤ vm.frameStackTop) :
    sub32 vm.frameStackTop n = vm.frameStackTop - n := by
  have htop := h.small
  unfold topMax frameTotalMax at htop
  exact sub32_of_le hn (by omega)

/-- Releasing a live frame takes its bytes off the top; a frame that goes to the pool has none. -/
theorem StackInv.released (h : StackInv ex ok vm) (hfr : fr ∈ vm.callFrames) {vm' : VM}
    (hrel : Released vm fr.rf vm') :
    vm' = { vm with frameStackTop := vm.frameStackTop - fr.rf.total } := by
  have hok := h.frames fr hfr
  have hsub := h.sub32_top (h.total_le hfr)
  cases hrel with
  | stack hr =>
    rw [result_release] at hr
    unfold releasedTop at hr
    split_ifs at hr with hmem hin
    · simp only [Except.ok.injEq, Prod.mk.injEq, true_and] at hr
      rw [hok.empty hmem, Nat.sub_zero]
      exact hr.symm
    · simp only [hsub, Except.ok.injEq, Prod.mk.injEq, true_and] at hr
      exact hr.symm
  | pool hr =>
    rw [result_release] at hr
    unfold releasedTop at hr
    split_ifs at hr with hmem hin
    have hplace := hok.inside hmem
    have hcap := h.cap
    have hzero : fr.rf.total = 0 := by
      unfold CapOk at hcap
      by_contra hne
      apply hin
      omega
    rw [hzero, Nat.sub_zero]

end Invariant

section Growth

variable {ex : Exec} {ok : ℕ → ℕ → Prop} {vm g : VM} {need size mem : ℕ}

theorem growCap_steps {start want j n : ℕ} (hbelow : ∀ i < j, start * 4 ^ i < want)
    (hge : want ≤ start * 4 ^ j) (hfit : start * 4 ^ j < 2 ^ 32) (hn : j < n) :
    growCap n start want = some (start * 4 ^ j) := by
  induction j generalizing start n with
  | zero =>
    obtain ⟨n, rfl⟩ := Nat.exists_eq_succ_of_ne_zero (by omega : n ≠ 0)
    rw [pow_zero, Nat.mul_one] at hge ⊢
    rw [growCap, if_neg (not_lt.mpr hge)]
  | succ j ih =>
    obtain ⟨n, rfl⟩ := Nat.exists_eq_succ_of_ne_zero (by omega : n ≠ 0)
    have hstart := hbelow 0 (Nat.succ_pos j)
    have hpow (i : ℕ) : start * 4 * 4 ^ i = start * 4 ^ (i + 1) := by
      rw [pow_succ', Nat.mul_assoc]
    have hle : start * 4 ≤ start * 4 * 4 ^ j := Nat.le_mul_of_pos_right _ (Nat.pow_pos (by decide))
    rw [← hpow] at hge hfit ⊢
    rw [pow_zero, Nat.mul_one] at hstart
    rw [growCap, if_pos hstart, u32, Nat.mod_eq_of_lt (hle.trans_lt hfit)]
    refine ih (fun i hi ↦ ?_) hge hfit (by omega)
    rw [hpow]
    exact hbelow (i + 1) (by omega)

/-- The stack of `vm` with room for `need` more bytes; the frames have moved with it. -/
structure Enlarged (ex : Exec) (vm : VM) (need : ℕ) (g : VM) : Prop where
  frames : g.callFrames =
    vm.callFrames.map fun fr ↦ { fr with rf := fr.rf.rebase vm.frameStack g.frameStack }
  top : g.frameStackTop = vm.frameStackTop
  max : g.callFramesMax = vm.callFramesMax
  room : need ≠ 0 → vm.frameStackTop + need ≤ g.frameStackCap
  cap_le : vm.frameStackCap ≤ g.frameStackCap
  cap : CapOk g
  base : g.frameStack = vm.frameStack ∨ ∃ n, g.frameStack = ex.realloc n

theorem rebase_of_eq {rf : RegFrame} {old new : ℕ} (h : rf.mem ≠ 0 → new = old) :
    rf.rebase old new = rf := by
  unfold RegFrame.rebase
  split_ifs with hmem
  · rfl
  · rw [h hmem, Nat.add_sub_cancel_left]

theorem map_rebase {frs : List CallFrame} {old new : ℕ}
    (h : ∀ fr ∈ frs, fr.rf.mem ≠ 0 → new = old) :
    frs.map (fun fr ↦ { fr with rf := fr.rf.rebase old new }) = frs := by
  conv_rhs => rw [← List.map_id frs]
  apply List.map_congr_left
  intro fr hfr
  rw [rebase_of_eq (h fr hfr)]
  rfl

theorem Enlarged.of_room (h : StackInv ex ok vm)
    (hroom : need ≠ 0 → vm.frameStackTop + need ≤ vm.frameStackCap) : Enlarged ex vm need vm :=
  ⟨(map_rebase fun _ _ _ ↦ rfl).symm, rfl, rfl, hroom, le_rfl, h.cap, .inl rfl⟩

theorem StackInv.mem_zero (h : StackInv ex ok vm) (hbase : vm.frameStack = 0) {fr : CallFrame}
    (hfr : fr ∈ vm.callFrames) : fr.rf.mem = 0 := by
  by_contra hne
  have hin := (h.frames fr hfr).inside hne
  obtain ⟨hcap, -⟩ | ⟨-, hne'⟩ := h.cap
  · omega
  · exact hne' hbase

/-- The sizes that are tried, from the one that the stack has on. -/
def growStart (vm : VM) : ℕ :=
  if vm.frameStackCap = 0 then frameStackInitial else vm.frameStackCap * 4

theorem topMax_le {n : ℕ} (h : n ≤ frameTotalMax) : topMax + n ≤ frameStackInitial * 4 ^ 6 := by
  unfold frameTotalMax at h
  unfold topMax frameTotalMax frameStackInitial
  omega

theorem capacity_pos (k : ℕ) : 0 < frameStackInitial * 4 ^ k :=
  Nat.mul_pos (by decide) (Nat.pow_pos (by decide))

theorem StackInv.growStart (h : StackInv ex ok vm) (hneed : need ≤ frameTotalMax)
    (hlt : vm.frameStackCap < vm.frameStackTop + need) :
    ∃ k ≤ 6, growStart vm = frameStackInitial * 4 ^ k := by
  have hmax := topMax_le hneed
  have htop := h.small
  unfold JelloVM.growStart
  obtain ⟨hcap, -⟩ | ⟨⟨k, hk, hcap⟩, -⟩ := h.cap
  · exact ⟨0, by omega, by simp [hcap]⟩
  · have hpos := capacity_pos k
    have hk6 : k ≠ 6 := by
      rintro rfl
      omega
    refine ⟨k + 1, by omega, ?_⟩
    rw [if_neg (by omega), hcap, pow_succ, Nat.mul_assoc]

theorem capacity_lt {k : ℕ} (hk : k ≤ 6) : frameStackInitial * 4 ^ k < 2 ^ 32 := by
  have hle : 4 ^ k ≤ 4 ^ 6 := Nat.pow_le_pow_right (by decide) hk
  exact (Nat.mul_le_mul_left _ hle).trans_lt (by decide)

theorem StackInv.growStart_eq (h : StackInv ex ok vm) (hneed : need ≤ frameTotalMax)
    (hlt : vm.frameStackCap < vm.frameStackTop + need) :
    (if vm.frameStackCap = 0 then frameStackInitial else u32 (vm.frameStackCap * 4)) =
      JelloVM.growStart vm := by
  obtain ⟨k, hk, hstart⟩ := h.growStart hneed hlt
  have hfit : JelloVM.growStart vm < 2 ^ 32 := by
    rw [hstart]
    exact capacity_lt hk
  unfold JelloVM.growStart at hfit ⊢
  split_ifs at hfit ⊢ with hcap
  · rfl
  · exact Nat.mod_eq_of_lt hfit

/-- The loop of the growth ends after `j` rounds with a size that is large enough, and no
multiplication on the way is too much for 32 bits. -/
structure GrowthEnds (vm : VM) (need j : ℕ) : Prop where
  start : (if vm.frameStackCap = 0 then frameStackInitial else u32 (vm.frameStackCap * 4)) =
    growStart vm
  fits : growStart vm * 4 ^ j < 2 ^ 32
  enough : vm.frameStackTop + need ≤ growStart vm * 4 ^ j
  ends : ∀ n > j,
    growCap n (growStart vm) (vm.frameStackTop + need) = some (growStart vm * 4 ^ j)

theorem StackInv.grows (h : StackInv ex ok vm) (hneed : need ≤ frameTotalMax)
    (hlt : vm.frameStackCap < vm.frameStackTop + need) :
    ∃ j ≤ 6, GrowthEnds vm need j ∧
      ∃ i ≤ 6, JelloVM.growStart vm * 4 ^ j = frameStackInitial * 4 ^ i := by
  obtain ⟨k, hk, hstart⟩ := h.growStart hneed hlt
  have hpow (j : ℕ) : JelloVM.growStart vm * 4 ^ j = frameStackInitial * 4 ^ (k + j) := by
    rw [hstart, Nat.mul_assoc, ← pow_add]
  have hlast : vm.frameStackTop + need ≤ JelloVM.growStart vm * 4 ^ (6 - k) := by
    rw [hpow, Nat.add_sub_cancel' hk]
    exact (Nat.add_le_add_right h.small need).trans (topMax_le hneed)
  have hsome : ∃ j, vm.frameStackTop + need ≤ JelloVM.growStart vm * 4 ^ j := ⟨_, hlast⟩
  have hj := Nat.find_min' hsome hlast
  have hfit : JelloVM.growStart vm * 4 ^ Nat.find hsome < 2 ^ 32 := by
    rw [hpow]
    exact capacity_lt (by omega)
  have hends (n : ℕ) (hn : n > Nat.find hsome) :
      growCap n (JelloVM.growStart vm) (vm.frameStackTop + need) =
        some (JelloVM.growStart vm * 4 ^ Nat.find hsome) :=
    growCap_steps (fun i hi ↦ not_le.mp (Nat.find_min hsome hi)) (Nat.find_spec hsome) hfit hn
  exact ⟨Nat.find hsome, by omega, ⟨h.growStart_eq hneed hlt, hfit, Nat.find_spec hsome, hends⟩,
    k + Nat.find hsome, by omega, hpow _⟩

theorem ends_enlarge (h : StackInv ex ok vm) (hneed : need ≤ frameTotalMax) :
    Ends (vmFrameStackGrow ex need) (fun _ ↦ Enlarged ex vm need) vm := by
  simp only [vmFrameStackGrow, spec_bind, spec_read, id, h.u32_top hneed, spec_ite, spec_pure]
  refine ⟨fun hle ↦ .of_room h fun _ ↦ hle, fun hle ↦ ?_⟩
  have hlt := not_le.mp hle
  obtain ⟨j, hj, hends, i, hi, hpow⟩ := h.grows hneed hlt
  have hge := hends.enough
  rw [hends.start, hends.ends 17 (by omega)]
  simp only [spec_ite, spec_change]
  refine ⟨fun _ ↦ spec_fail _, fun hp ↦ ⟨fun hsame ↦ ?_, fun _ ↦ ?_⟩⟩
  · refine ⟨(map_rebase fun fr hfr hmem ↦ ?_).symm, rfl, rfl, fun _ ↦ hge, by simp only; omega,
      .inr ⟨⟨i, hi, hpow⟩, hp⟩, .inr ⟨_, rfl⟩⟩
    obtain hsame | hold := hsame
    · exact hsame
    · exact absurd (h.mem_zero hold hfr) hmem
  · exact ⟨rfl, rfl, rfl, fun _ ↦ hge, by simp only; omega, .inr ⟨⟨i, hi, hpow⟩, hp⟩,
      .inr ⟨_, rfl⟩⟩

theorem ends_bumped (h : StackInv ex ok vm) (hsize : size ≤ frameTotalMax) :
    Ends (vmFrameStackBump ex size) (fun mem vm' ↦ ∃ g, Enlarged ex vm size g ∧
      vm' = { g with frameStackTop := g.frameStackTop + size } ∧
        mem = if size = 0 then 0 else g.frameStack + g.frameStackTop) vm := by
  unfold vmFrameStackBump
  split_ifs with hzero
  · subst hzero
    exact (spec_pure _).mpr ⟨vm, .of_room h fun hne ↦ absurd rfl hne, rfl, rfl⟩
  · simp only [spec_bind, spec_read, id, spec_ite, spec_change, spec_pure]
    refine ⟨fun _ ↦ (ends_enlarge h hsize).mono fun _ g hg ↦ ?_, fun hfits ↦ ?_⟩
    · have hfit := h.u32_top hsize
      rw [← hg.top] at hfit
      exact ⟨g, hg, by rw [hfit], rfl⟩
    · rw [h.u32_top hsize, not_lt] at hfits
      exact ⟨vm, .of_room h fun _ ↦ hfits, by rw [h.u32_top hsize], rfl⟩

theorem FrameOk.rebase {fr : CallFrame} {base cap new cap' : ℕ} (h : FrameOk ex ok base cap fr)
    (hcap : cap ≤ cap') (hnew : fr.rf.mem ≠ 0 → new ≠ 0) :
    FrameOk ex ok new cap' { fr with rf := fr.rf.rebase base new } := by
  by_cases hmem : fr.rf.mem = 0
  · rw [rebase_of_eq (absurd hmem)]
    exact ⟨h.placed, absurd hmem, h.empty, fun hne ↦ absurd (h.empty hmem) hne⟩
  · have hin := h.inside hmem
    have hne := hnew hmem
    have hsub : new + fr.rf.mem - base - new = fr.rf.mem - base := by omega
    simp only [RegFrame.rebase, if_neg hmem]
    refine ⟨?_, fun _ ↦ by simp only; omega, fun h0 ↦ ?_, ?_⟩
    · rw [h.placed]
      rfl
    · simp only at h0
      omega
    · simp only [hsub]
      exact h.sits

theorem Enlarged.frameOk (h : StackInv ex ok vm) (hg : Enlarged ex vm need g) :
    ∀ fr ∈ g.callFrames, FrameOk ex ok g.frameStack g.frameStackCap fr := by
  intro fr hfr
  rw [hg.frames] at hfr
  obtain ⟨old, hold, rfl⟩ := List.mem_map.mp hfr
  refine (h.frames old hold).rebase hg.cap_le fun hmem hbase ↦ hmem (h.mem_zero ?_ hold)
  obtain ⟨hnone, -⟩ | ⟨-, hne⟩ := hg.cap
  · obtain ⟨-, hold0⟩ | ⟨⟨k, -, hcap⟩, -⟩ := h.cap
    · exact hold0
    · have hpos := capacity_pos k
      have hle := hg.cap_le
      omega
  · exact absurd hbase hne

theorem Enlarged.totals (hg : Enlarged ex vm need g) : g.totals = vm.totals := by
  simp [VM.totals, hg.frames, Function.comp_def, total_rebase]

theorem Enlarged.inv (h : StackInv ex ok vm) (hg : Enlarged ex vm need g) : StackInv ex ok g := by
  have hlen : g.callFrames.length = vm.callFrames.length := by
    rw [hg.frames, List.length_map]
  refine ⟨hg.frameOk h, ?_, ?_, ?_, ?_, hg.cap, ?_⟩
  · rw [hg.top, hg.totals, hg.frames, List.map_eq_nil_iff]
    exact h.top
  · rw [hg.top]
    exact h.small
  · rw [hg.max]
    exact h.max
  · rw [hlen]
    exact h.len
  · obtain hsame | hnew := hg.base
    · rw [hsame]
      exact h.base
    · exact .inr hnew

end Growth

section Keeps

variable {ex : Exec} {ok : ℕ → ℕ → Prop} {vm g vm' : VM} {f mem : ℕ} {fr new : CallFrame}
  {frs : List CallFrame}

theorem FrameOk.congr {base cap : ℕ} (h : FrameOk ex ok base cap fr)
    (hplace : new.place = fr.place) : FrameOk ex ok base cap new := by
  obtain ⟨hf, hrf⟩ := Prod.mk.injEq .. ▸ hplace
  refine ⟨?_, ?_, ?_, ?_⟩
  · rw [hf, hrf]
    exact h.placed
  · rw [hrf]
    exact h.inside
  · rw [hrf]
    exact h.empty
  · rw [hf, hrf]
    exact h.sits

theorem Enlarged.fresh (hg : Enlarged ex vm (vmGetFrameLayout ex.m f).total g)
    (hmem : mem = if (vmGetFrameLayout ex.m f).total = 0 then 0 else g.frameStack + g.frameStackTop)
    (hnew : new.place = (f, (vmGetFrameLayout ex.m f).frame mem)) (htop : 4 ∣ vm.frameStackTop)
    (hok : OkAt ex ok f vm.frameStackTop) :
    FrameOk ex ok g.frameStack g.frameStackCap new := by
  obtain ⟨hf, hrf⟩ := Prod.mk.injEq .. ▸ hnew
  have htotal : new.rf.total = (vmGetFrameLayout ex.m f).total := congrArg RegFrame.total hrf
  have hstart : new.rf.mem = mem := congrArg RegFrame.mem hrf
  refine ⟨?_, ?_, ?_, ?_⟩
  · rw [hstart, hf]
    exact hrf
  · intro hne
    rw [hstart] at hne ⊢
    split_ifs at hmem with hzero
    · exact absurd hmem hne
    · have hroom := hg.room hzero
      have hsame := hg.top
      omega
  · intro hzero
    rw [hstart] at hzero
    rw [htotal]
    split_ifs at hmem with hnone
    · exact hnone
    · have hroom := hg.room hnone
      have hcap := hg.cap
      unfold CapOk at hcap
      omega
  · intro hne
    rw [htotal] at hne
    rw [if_neg hne] at hmem
    rw [hstart, hmem, hg.top, Nat.add_sub_cancel_left, hf]
    exact ⟨htop, hok hne⟩

theorem StackInv.top_eq (h : StackInv ex ok vm)
    (hfirst : vm.callFrames = [] → vm.frameStackTop = 0) : vm.frameStackTop = vm.totals.sum := by
  obtain hnil | htop := h.top
  · rw [hfirst hnil, VM.totals, hnil]
    rfl
  · exact htop

theorem StackInv.top_cons (h : StackInv ex ok vm) (htop : vm.callFrames = fr :: frs) :
    vm.frameStackTop = fr.rf.total + (frs.map fun fr ↦ fr.rf.total).sum := by
  have hsum := h.top_eq fun hnil ↦ absurd (htop ▸ hnil) (List.cons_ne_nil fr frs)
  rw [VM.totals, htop, List.map_cons, List.sum_cons] at hsum
  exact hsum

/-- The invariant from the frames alone: their sizes bound the top. -/
theorem stackInv_of_frames (hm : FewRegs ex.m) {vm : VM}
    (hframes : ∀ fr ∈ vm.callFrames, FrameOk ex ok vm.frameStack vm.frameStackCap fr)
    (htop : vm.frameStackTop = vm.totals.sum) (hmax : vm.callFramesMax = 100000)
    (hlen : vm.callFrames.length ≤ 100000) (hcap : CapOk vm)
    (hbase : vm.frameStack = 0 ∨ ∃ n, vm.frameStack = ex.realloc n) : StackInv ex ok vm :=
  ⟨hframes, .inr htop, htop ▸ totals_sum_le hm hframes hlen, hmax, hlen, hcap, hbase⟩

theorem StackInv.push (hm : FewRegs ex.m) (h : StackInv ex ok vm) (hroom : vm.canPush = true)
    (hfirst : vm.callFrames = [] → vm.frameStackTop = 0)
    (hok : OkAt ex ok f vm.frameStackTop)
    (hbump : result (vmFrameStackBump ex (vmGetFrameLayout ex.m f).total) vm = .ok (mem, vm'))
    (hnew : new.place = (f, (vmGetFrameLayout ex.m f).frame mem)) :
    StackInv ex ok { vm' with callFrames := new :: vm'.callFrames } := by
  obtain ⟨g, hg, rfl, hmem⟩ := (ends_bumped h (hm.total_le f)).of_result hbump
  have hinv := hg.inv h
  have htop := h.top_eq hfirst
  have hfresh := hg.fresh hmem hnew (htop ▸ h.totals_dvd) hok
  have htotal : new.rf.total = (vmGetFrameLayout ex.m f).total :=
    congrArg (fun p ↦ RegFrame.total p.2) hnew
  refine stackInv_of_frames hm (List.forall_mem_cons.mpr ⟨hfresh, hinv.frames⟩) ?_ hinv.max ?_
    hinv.cap hinv.base
  · have htotals := hg.totals
    simp only [VM.totals, List.map_cons, List.sum_cons] at htotals htop ⊢
    rw [htotals, htotal, hg.top, htop, Nat.add_comm]
  · have hlen : vm.callFrames.length < 100000 := by
      unfold VM.canPush at hroom
      rw [h.max] at hroom
      simpa using hroom
    simp only [hg.frames, List.length_cons, List.length_map]
    exact hlen

theorem StackInv.pop (hm : FewRegs ex.m) (h : StackInv ex ok vm) (htop : vm.callFrames = fr :: frs)
    (hrel : Released vm fr.rf vm') : StackInv ex ok { vm' with callFrames := frs } := by
  rw [h.released (htop ▸ List.mem_cons_self) hrel]
  have hsum := h.top_cons htop
  have hlen := h.len
  rw [htop, List.length_cons] at hlen
  refine stackInv_of_frames hm (fun g hg ↦ ?_) ?_ h.max (by simp only; omega) h.cap h.base
  · exact h.frames g (htop ▸ List.mem_cons_of_mem fr hg)
  · simp only [hsum, Nat.add_sub_cancel_left]
    rfl

theorem StackInv.shrink (hm : FewRegs ex.m) (h : StackInv ex ok vm)
    (htop : vm.callFrames = fr :: frs) (hle : (vmGetFrameLayout ex.m f).total ≤ fr.rf.total)
    (hok : OkAt ex ok f
      (fr.rf.mem + (fr.rf.total - (vmGetFrameLayout ex.m f).total) - vm.frameStack))
    (hnew : new.place = (f, (vmGetFrameLayout ex.m f).frame
      (fr.rf.mem + (fr.rf.total - (vmGetFrameLayout ex.m f).total)))) :
    StackInv ex ok
      { vm with
        frameStackTop :=
          sub32 vm.frameStackTop (fr.rf.total - (vmGetFrameLayout ex.m f).total)
        callFrames := new :: frs } := by
  have hmem : fr ∈ vm.callFrames := htop ▸ List.mem_cons_self
  have hfr := h.frames fr hmem
  have hsum := h.top_cons htop
  have hlen := h.len
  rw [htop] at hlen
  obtain ⟨hf, hrf⟩ := Prod.mk.injEq .. ▸ hnew
  set n := (vmGetFrameLayout ex.m f).total with hn
  have htotal : new.rf.total = n := congrArg RegFrame.total hrf
  have hstart : new.rf.mem = fr.rf.mem + (fr.rf.total - n) := congrArg RegFrame.mem hrf
  rw [h.sub32_top ((Nat.sub_le _ _).trans (h.total_le hmem))]
  refine stackInv_of_frames hm (List.forall_mem_cons.mpr ⟨⟨?_, ?_, ?_, ?_⟩, fun g hg ↦ ?_⟩) ?_
    h.max hlen h.cap h.base
  · rw [hstart, hf]
    exact hrf
  · intro hne
    have hin := hfr.inside
    have hempty := hfr.empty
    simp only [hstart, htotal] at hne ⊢
    omega
  · intro hzero
    have hempty := hfr.empty
    omega
  · intro hne
    have hempty := hfr.empty
    have hin := hfr.inside
    have hold := hfr.sits (by omega)
    have hdvd := hfr.total_dvd
    have hdvd' := JelloVM.total_dvd ex.m f
    rw [hstart, hf]
    refine ⟨?_, hok (by omega)⟩
    have hsub : fr.rf.mem + (fr.rf.total - n) - vm.frameStack =
        fr.rf.mem - vm.frameStack + (fr.rf.total - n) := by omega
    simp only [hsub]
    exact hold.1.add (Nat.dvd_sub hdvd hdvd')
  · exact h.frames g (htop ▸ List.mem_cons_of_mem fr hg)
  · simp only [VM.totals, List.map_cons, List.sum_cons, htotal, hsum]
    omega

theorem SameStack.totals (h : SameStack vm vm') : vm'.totals = vm.totals := by
  have hmap := congrArg (List.map fun p : ℕ × RegFrame ↦ p.2.total) h.places
  rw [List.map_map, List.map_map] at hmap
  exact hmap

theorem StackInv.same (h : StackInv ex ok vm) (hs : SameStack vm vm') : StackInv ex ok vm' := by
  have hlen := congrArg List.length hs.places
  rw [List.length_map, List.length_map] at hlen
  refine ⟨fun fr hfr ↦ ?_, ?_, ?_, ?_, ?_, ?_, ?_⟩
  · have hplace : fr.place ∈ vm'.callFrames.map CallFrame.place := List.mem_map_of_mem hfr
    rw [hs.places] at hplace
    obtain ⟨old, hold, heq⟩ := List.mem_map.mp hplace
    rw [hs.base, hs.cap]
    exact (h.frames old hold).congr heq.symm
  · rw [hs.top, hs.totals, ← List.length_eq_zero_iff, hlen, List.length_eq_zero_iff]
    exact h.top
  · rw [hs.top]
    exact h.small
  · rw [hs.max]
    exact h.max
  · rw [hlen]
    exact h.len
  · unfold CapOk
    rw [hs.cap, hs.base]
    exact h.cap
  · rw [hs.base]
    exact h.base

theorem StackStep.inv (hm : FewRegs ex.m) (hs : StackStep ex ok vm vm') (h : StackInv ex ok vm) :
    StackInv ex ok vm' := by
  cases hs with
  | push hroom hfirst hok hbump hfr => exact h.push hm hroom hfirst hok hbump hfr
  | pop htop hrel => exact h.pop hm htop hrel
  | shrink htop hle hok hnew => exact h.shrink hm htop hle hok hnew
  | clear => exact ⟨by simp, .inl rfl, h.small, h.max, Nat.zero_le _, h.cap, h.base⟩
  | reset hnone =>
    exact ⟨h.frames, .inl hnone, Nat.zero_le _, h.max, h.len, h.cap, h.base⟩
  | other hs => exact h.same hs

theorem StackSteps.inv (hm : FewRegs ex.m) (hs : StackSteps ex ok vm vm')
    (h : StackInv ex ok vm) : StackInv ex ok vm' := by
  induction hs with
  | refl => exact h
  | tail _ hstep ih => exact hstep.inv hm ih

theorem stackInv_create (ex : Exec) (ok : ℕ → ℕ → Prop) : StackInv ex ok jelloVmCreate :=
  ⟨by simp [jelloVmCreate], .inl rfl, Nat.zero_le _, rfl, Nat.zero_le _, .inl ⟨rfl, rfl⟩, .inl rfl⟩

theorem StackRun.inv (hm : FewRegs ex.m) (h : StackRun ex ok vm) : StackInv ex ok vm :=
  StackSteps.inv hm h (stackInv_create ex ok)

end Keeps

section Safety

/-- The area of a frame is as far from the base of the stack as it was, if it has one. -/
def KeepsOffset (old new : ℕ) (rf rf' : RegFrame) : Prop :=
  rf.mem = 0 ∧ rf'.mem = 0 ∨ old ≤ rf.mem ∧ new ≤ rf'.mem ∧ rf'.mem - new = rf.mem - old

/-- Whatever is taken from the top was there, whatever is asked for fits in 32 bits, the growth ends
with a size that is large enough, and the frames move with the stack. -/
structure StackSafe (ex : Exec) (vm : VM) : Prop where
  release : ∀ fr ∈ vm.callFrames, ∀ vm', Released vm fr.rf vm' →
    vm'.frameStackTop + fr.rf.total = vm.frameStackTop
  shrink : ∀ fr ∈ vm.callFrames, ∀ n ≤ fr.rf.total, sub32 vm.frameStackTop n + n = vm.frameStackTop
  fits : ∀ need ≤ frameTotalMax, vm.frameStackTop + need ≤ 2 ^ 32 - 1
  grows : ∀ need ≤ frameTotalMax, vm.frameStackCap < vm.frameStackTop + need →
    ∃ j, GrowthEnds vm need j
  moves : ∀ need ≤ frameTotalMax, ∀ vm', result (vmFrameStackGrow ex need) vm = .ok ((), vm') →
    List.Forall₂ (fun fr fr' ↦ KeepsOffset vm.frameStack vm'.frameStack fr.rf fr'.rf)
      vm.callFrames vm'.callFrames

variable {ex : Exec} {ok : ℕ → ℕ → Prop} {vm g : VM} {need : ℕ}

theorem FrameOk.keepsOffset {fr : CallFrame} {base cap new : ℕ} (h : FrameOk ex ok base cap fr) :
    KeepsOffset base new fr.rf (fr.rf.rebase base new) := by
  by_cases hmem : fr.rf.mem = 0
  · rw [rebase_of_eq (absurd hmem)]
    exact .inl ⟨hmem, hmem⟩
  · have hin := h.inside hmem
    simp only [KeepsOffset, RegFrame.rebase, if_neg hmem]
    omega

theorem StackInv.moves (h : StackInv ex ok vm) (hg : Enlarged ex vm need g) :
    List.Forall₂ (fun fr fr' ↦ KeepsOffset vm.frameStack g.frameStack fr.rf fr'.rf)
      vm.callFrames g.callFrames := by
  rw [hg.frames, List.forall₂_map_right_iff]
  exact List.forall₂_same.mpr fun fr hfr ↦ (h.frames fr hfr).keepsOffset

theorem StackInv.safe (h : StackInv ex ok vm) : StackSafe ex vm := by
  refine ⟨fun fr hfr vm' hrel ↦ ?_, fun fr hfr n hn ↦ ?_, fun need hneed ↦ ?_, ?_, ?_⟩
  · rw [h.released hfr hrel]
    exact Nat.sub_add_cancel (h.total_le hfr)
  · have hle := hn.trans (h.total_le hfr)
    rw [h.sub32_top hle]
    exact Nat.sub_add_cancel hle
  · have hexact := h.u32_top hneed
    have hlt : u32 (vm.frameStackTop + need) < 2 ^ 32 := Nat.mod_lt _ (by decide)
    omega
  · intro need hneed hlt
    obtain ⟨j, -, hends, -⟩ := h.grows hneed hlt
    exact ⟨j, hends⟩
  · intro need hneed vm' hgrow
    exact h.moves ((ends_enlarge h hneed).of_result hgrow)

end Safety

end JelloVM
