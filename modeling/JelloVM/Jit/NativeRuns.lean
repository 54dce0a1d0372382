import JelloVM.Jit.SiteFlow
import JelloVM.Jit.Elide

/-! The runs of native code, at the level of its bytes: they are runs through its sites. -/

namespace JelloVM

open Function X64 CodeFlow Relation

section Lowering

variable {m : JelloBcModule} {f i pc : ℕ} {ir : List JirInsn} {x y : JirInsn}

theorem not_case_zero (hc : jelloJitCompileFunction m f = some ir) (hx : ir[0]? = some x) :
    x.op ≠ .switchCase := by
  intro hop
  obtain ⟨j, hj, -⟩ := before_switchCase hc hx hop
  exact Nat.not_lt_zero j hj

theorem not_case_entry (hc : jelloJitCompileFunction m f = some ir) (hmap : bcPcMap ir pc = some i)
    (hx : ir[i]? = some x) : x.op ≠ .switchCase := by
  intro hop
  obtain ⟨⟨y, hy, hpc⟩, hbefore⟩ := findIdx?_some hmap
  obtain rfl := Option.some.inj (hx.symm.trans hy)
  obtain ⟨j, hj, z, hz, hzpc, -⟩ := before_switchCase hc hx hop
  rw [decide_eq_true_eq] at hpc
  have hno := hbefore j hj z hz
  rw [decide_eq_false_iff_not] at hno
  exact hno (hzpc.trans hpc)

theorem not_case_next (hc : jelloJitCompileFunction m f = some ir) (hx : ir[i]? = some x)
    (hop : x.op.falls = true ∨ x.op.calls = true) (hy : ir[i + 1]? = some y) :
    y.op ≠ .switchCase := by
  intro hcase
  obtain ⟨start, k, b, hb, hik, hbk⟩ := exists_block hc hy
  have hne : x.op ≠ .switch ∧ x.op ≠ .switchCase := by
    refine ⟨fun h ↦ ?_, fun h ↦ ?_⟩ <;> simp [h, JirOp.falls, JirOp.calls] at hop
  cases blockShape hb.lowered with
  | @backward z w hcheck hjmp =>
    rcases List.mem_cons.mp (List.mem_of_getElem? hbk) with rfl | hmem
    · exact absurd (hcheck.symm.trans hcase) (by simp)
    · obtain rfl := List.mem_singleton.mp hmem
      exact absurd (hjmp.symm.trans hcase) (by simp)
  | @switch z cases hswitch hcases =>
    cases k with
    | zero =>
      obtain rfl : z = y := by simpa using hbk
      exact absurd (hswitch.symm.trans hcase) (by simp)
    | succ k =>
      have hlt := (List.getElem?_eq_some_iff.mp hbk).1
      have hi : i = start + k := by omega
      rw [hi, hb.inside k (by omega)] at hx
      rcases List.mem_cons.mp (List.mem_of_getElem? hx) with rfl | hmem
      · exact hne.1 hswitch
      · exact hne.2 (hcases x hmem)
  | none => simp at hbk
  | @single z hcheck hno =>
    obtain rfl := List.mem_singleton.mp (List.mem_of_getElem? hbk)
    exact hno hcase

end Lowering

section Map

variable {ir : List JirInsn} {irOff : ℕ → ℕ} {ninsns pc i n : ℕ} {map : ℕ → UInt32}

theorem mapSite_other (h : ∀ x, ir[i]? = some x → x.bcPc ≠ pc) :
    mapSite ir irOff ninsns map i pc = map pc := by
  unfold mapSite
  cases hx : ir[i]? with
  | none => rfl
  | some x =>
    dsimp only
    split_ifs
    · exact update_of_ne (h x hx).symm _ _
    · rfl

theorem mapSite_kept (h : map pc ≠ 0) : mapSite ir irOff ninsns map i pc = map pc := by
  unfold mapSite
  cases hx : ir[i]? with
  | none => rfl
  | some x =>
    dsimp only
    split_ifs with hmap
    · refine update_of_ne ?_ _ _
      rintro rfl
      exact h hmap.2
    · rfl

theorem mapSite_first {x : JirInsn} (hx : ir[i]? = some x) (hpc : x.bcPc = pc) (hlt : pc < ninsns)
    (hmap : map pc = 0) : mapSite ir irOff ninsns map i pc = UInt32.ofNat (irOff i) := by
  subst hpc
  simp only [mapSite, hx, hmap, hlt, true_and, if_true, update_self]

theorem mapped_none (h : ∀ j < n, ∀ x, ir[j]? = some x → x.bcPc ≠ pc) :
    (List.range n).foldl (mapSite ir irOff ninsns) (fun _ ↦ 0) pc = 0 := by
  induction n with
  | zero => rfl
  | succ n ih =>
    rw [List.range_succ, List.foldl_append]
    exact (mapSite_other (h n n.lt_succ_self)).trans (ih fun j hj ↦ h j (Nat.lt_succ_of_lt hj))

theorem mapped_of_le (h : ninsns ≤ pc) :
    (List.range n).foldl (mapSite ir irOff ninsns) (fun _ ↦ 0) pc = 0 := by
  induction n with
  | zero => rfl
  | succ n ih =>
    rw [List.range_succ, List.foldl_append, List.foldl_cons, List.foldl_nil, mapSite]
    cases hx : ir[n]? with
    | none => exact ih
    | some x =>
      dsimp only
      split_ifs with hmap
      · rw [update_of_ne (by omega)]
        exact ih
      · exact ih

theorem mapped_some {x : JirInsn} (hx : ir[i]? = some x) (hpc : x.bcPc = pc) (hlt : pc < ninsns)
    (hbefore : ∀ j < i, ∀ y, ir[j]? = some y → y.bcPc ≠ pc) (hoff : UInt32.ofNat (irOff i) ≠ 0)
    (h : i < n) : (List.range n).foldl (mapSite ir irOff ninsns) (fun _ ↦ 0) pc =
      UInt32.ofNat (irOff i) := by
  induction n, h using Nat.le_induction with
  | base =>
    rw [List.range_succ, List.foldl_append]
    exact mapSite_first hx hpc hlt (mapped_none hbefore)
  | succ n _ ih =>
    rw [List.range_succ, List.foldl_append, List.foldl_cons, List.foldl_nil, mapSite_kept, ih]
    rw [ih]
    exact hoff

theorem buildBcPcMap_eq (hne : buildBcPcMap ir irOff ninsns pc ≠ 0) : ∃ i, bcPcMap ir pc = some i ∧
    (UInt32.ofNat (irOff i) ≠ 0 → buildBcPcMap ir irOff ninsns pc = UInt32.ofNat (irOff i)) := by
  have hlt : pc < ninsns := by
    by_contra hle
    exact hne (mapped_of_le (Nat.le_of_not_lt hle))
  cases hmap : bcPcMap ir pc with
  | none =>
    refine absurd (mapped_none fun j _ x hx hpc ↦ ?_) hne
    have hno := List.findIdx?_eq_none_iff.mp hmap x (List.mem_of_getElem? hx)
    exact absurd hpc (by simpa using hno)
  | some i =>
    obtain ⟨⟨x, hx, hpc⟩, hbefore⟩ := findIdx?_some hmap
    rw [decide_eq_true_eq] at hpc
    refine ⟨i, rfl, fun hoff ↦ mapped_some hx hpc hlt (fun j hj y hy ↦ ?_) hoff
      (List.getElem?_eq_some_iff.mp hx).1⟩
    simpa using hbefore j hj y hy

end Map

/-- A function whose code is published: what it is lowered to, what is emitted up to the epilogue
(from `bodyOff` on for the sites), and the code. -/
structure NativeFunc (B : Backend) (m : JelloBcModule) (f : ℕ) where
  realloc : ℕ → Bool
  ir : List JirInsn
  bodyOff : ℕ
  st : EmitState
  out : NativeCode
  compiled : jelloJitCompileFunction m f = some ir
  body : x64EmitBody B m f (fun r ↦ (vmGetFrameLayout m f).off.getD r 0) ir realloc =
    some (bodyOff, st)
  emitted : x64EmitFunc B m f (fun r ↦ (vmGetFrameLayout m f).off.getD r 0) ir realloc = some out
  size : out.data.length < 2 ^ 31

namespace NativeFunc

variable {B : Backend} {m : JelloBcModule} {f : ℕ} (n : NativeFunc B m f)

/-- Where the code of a site ends: where that of the next one that has code begins. -/
def siteEnd (i : ℕ) : ℕ :=
  ((n.ir.drop (i + 1)).findIdx? (·.op ≠ .switchCase)).elim n.st.buf.data.length fun k ↦
    n.st.irOff (i + 1 + k)

structure InSite (i : ℕ) (x : JirInsn) (o : ℕ) : Prop where
  insn : n.ir[i]? = some x
  hasCode : x.op ≠ .switchCase
  le : n.st.irOff i ≤ o
  lt : o < n.siteEnd i

/-- An offset in the code of a site, or behind the last one. -/
def InCode (i o : ℕ) : Prop :=
  (∃ x, n.InSite i x o) ∨ (i = n.ir.length ∧ o = n.st.buf.data.length)

/-- At an offset there is a jump to the address in a register. -/
def JumpsAway (o : ℕ) : Prop :=
  ∃ r rest, decode (n.out.data.drop o) = some (⟨.jmp, [.r64 r]⟩, rest)

/-- Native code is entered at its body, or where the map says. -/
def Entered (o : ℕ) : Prop :=
  o = n.out.bodyOff ∨ ∃ pc, o = (n.out.bcPcMap pc).toNat ∧ o ≠ 0

end NativeFunc

section Bytes

variable {B : Backend} {m : JelloBcModule}

/-- One step of native code, over functions and offsets in their code; the ones to return to are
below. A call returns to the address that its `LEA` loads (`call_resumes`), which the helper notes
in the frame that it pushes. -/
inductive ByteStep (prog : (f : ℕ) → Option (NativeFunc B m f)) :
    List (ℕ × ℕ) → List (ℕ × ℕ) → Prop
  | flow {f o o' i : ℕ} {x : JirInsn} {n : NativeFunc B m f} (rest : List (ℕ × ℕ))
      (hn : prog f = some n) (hi : n.InSite i x o)
      (hself : x.op = .callSelf → o' ≠ n.out.bodyOff) (hf : Transfer x64Isa n.out.data o o') :
      ByteStep prog ((f, o) :: rest) ((f, o') :: rest)
  | callSelf {f o i : ℕ} {x : JirInsn} {n : NativeFunc B m f} (rest : List (ℕ × ℕ))
      (hn : prog f = some n) (hi : n.InSite i x o) (hop : x.op = .callSelf)
      (hf : Transfer x64Isa n.out.data o n.out.bodyOff) :
      ByteStep prog ((f, o) :: rest) ((f, n.out.bodyOff) :: (f, n.siteEnd i) :: rest)
  | callDirect {f o i : ℕ} {x : JirInsn} {n : NativeFunc B m f}
      {n' : NativeFunc B m (pushedBySite f x)} (rest : List (ℕ × ℕ)) (hn : prog f = some n)
      (hi : n.InSite i x o) (hop : x.op = .callDirect) (hjmp : n.JumpsAway o)
      (hn' : prog (pushedBySite f x) = some n') :
      ByteStep prog ((f, o) :: rest)
        ((pushedBySite f x, n'.out.bodyOff) :: (f, n.siteEnd i) :: rest)
  | ret {f o i : ℕ} {x : JirInsn} {n : NativeFunc B m f} (rest : List (ℕ × ℕ))
      (hn : prog f = some n) (hi : n.InSite i x o) (hop : x.op = .ret) (hjmp : n.JumpsAway o) :
      ByteStep prog ((f, o) :: rest) rest

def ByteRun (prog : (f : ℕ) → Option (NativeFunc B m f)) : List (ℕ × ℕ) → List (ℕ × ℕ) → Prop :=
  ReflTransGen (ByteStep prog)

end Bytes

section Refine

variable {B : Backend} {m : JelloBcModule} {f i j o k : ℕ} {x y : JirInsn} {n : NativeFunc B m f}

def NativeFunc.items (n : NativeFunc B m f) (i : ℕ) : List Item :=
  siteItems B m f (fun r ↦ (vmGetFrameLayout m f).off.getD r 0) n.ir i

def NativeFunc.start (n : NativeFunc B m f) (i : ℕ) : ℕ :=
  siteAt B m f (fun r ↦ (vmGetFrameLayout m f).off.getD r 0) n.ir n.bodyOff i

/-- The items of the function are what its code is. -/
theorem NativeFunc.listed (n : NativeFunc B m f) :
    LinkedCode B m f (fun r ↦ (vmGetFrameLayout m f).off.getD r 0) n.ir n.bodyOff n.st :=
  linkedCode n.body

theorem NativeFunc.data_eq (n : NativeFunc B m f) : n.out.bodyOff = n.bodyOff ∧
    n.out.bcPcMap = buildBcPcMap n.ir n.st.irOff (m.func f).ninsns ∧
    ∃ after, n.out.data = n.st.buf.data ++ after := by
  have h := n.emitted
  simp only [x64EmitFunc, n.body, Option.bind_eq_bind, Option.bind_some] at h
  split_ifs at h
  · rw [← Option.some.inj h]
    exact ⟨rfl, rfl, [], (List.append_nil _).symm⟩
  · obtain ⟨buf, hbuf, h⟩ := Option.bind_eq_some_iff.mp h
    rw [← Option.some.inj h]
    exact ⟨rfl, rfl, _, emits_code (T := unlinked 0) _ _ _ _ hbuf⟩

theorem Item.size_pos (it : Item) : 0 < it.size := by
  cases it with
  | plain e => exact List.length_pos_iff.mpr e.emit_eq.2.1
  | _ => exact Nat.succ_pos _

theorem NativeFunc.bodyOff_pos (n : NativeFunc B m f) : 0 < n.bodyOff := by
  rw [n.listed.body, prologueItems, entryCode]
  simp only [straight_cons, itemsSize_append, itemsSize_cons]
  have hpos : 0 < (Item.plain .endbr64).size := Item.size_pos _
  omega

theorem NativeFunc.start_zero : n.start 0 = n.bodyOff := rfl

theorem NativeFunc.start_succ :
    n.start (i + 1) = n.start i + itemsSize (n.items i) := siteAt_succ _

theorem NativeFunc.start_mono (h : i ≤ j) : n.start i ≤ n.start j := siteAt_mono _ h

theorem NativeFunc.start_length :
    n.start n.ir.length = n.st.buf.data.length := n.listed.length.symm

theorem NativeFunc.start_lt (hi : i ≤ n.ir.length) :
    n.start i < 2 ^ 31 := by
  obtain ⟨-, -, after, hdata⟩ := n.data_eq
  have hle : n.start i ≤ n.start n.ir.length := start_mono hi
  have hsize := n.size
  rw [start_length] at hle
  rw [hdata, List.length_append] at hsize
  omega

theorem NativeFunc.start_cases (hij : i ≤ j)
    (h : ∀ k, i ≤ k → k < j → ∃ y, n.ir[k]? = some y ∧ y.op = .switchCase) :
    n.start j = n.start i := by
  induction j, hij using Nat.le_induction with
  | base => rfl
  | succ j hj ih =>
    obtain ⟨y, hy, hop⟩ := h j hj j.lt_succ_self
    rw [start_succ, ih fun k hk hkj ↦ h k hk (Nat.lt_succ_of_lt hkj), items, siteItems_case hy hop]
    rfl

theorem NativeFunc.siteEnd_eq (hi : i < n.ir.length) :
    n.siteEnd i = n.start (i + 1) := by
  unfold siteEnd
  cases hfind : (n.ir.drop (i + 1)).findIdx? (·.op ≠ .switchCase) with
  | none =>
    rw [Option.elim_none, ← start_length]
    refine start_cases hi fun k hk hlt ↦ ⟨n.ir[k], List.getElem?_eq_getElem hlt, ?_⟩
    have hmem : n.ir[k] ∈ n.ir.drop (i + 1) := by
      refine List.mem_of_getElem? (i := k - (i + 1)) ?_
      rw [List.getElem?_drop, Nat.add_sub_cancel' hk, List.getElem?_eq_getElem hlt]
    simpa using List.findIdx?_eq_none_iff.mp hfind _ hmem
  | some k =>
    obtain ⟨⟨y, hy, hop⟩, hbefore⟩ := findIdx?_some hfind
    rw [List.getElem?_drop] at hy
    rw [Option.elim_some, n.listed.irOff _ y hy (by simpa using hop)]
    refine start_cases (Nat.le_add_right _ _) fun j hj hlt ↦ ?_
    have hjlt := (List.getElem?_eq_some_iff.mp hy).1
    have hget : n.ir[j]? = some n.ir[j] := List.getElem?_eq_getElem (by omega)
    refine ⟨n.ir[j], hget, ?_⟩
    have hno := hbefore (j - (i + 1)) (by omega) n.ir[j] (by
      rw [List.getElem?_drop, Nat.add_sub_cancel' hj, hget])
    simpa using hno

/-- Control is at an item of a site, or behind the last one. -/
inductive NativeFunc.AtItem (n : NativeFunc B m f) : ℕ → ℕ → Prop
  | item {i k : ℕ} {x : JirInsn} (hx : n.ir[i]? = some x) (hcase : x.op ≠ .switchCase)
      (hk : k < (n.items i).length) : n.AtItem i (itemAt (n.start i) (n.items i) k)
  | behind : n.AtItem n.ir.length n.st.buf.data.length

theorem NativeFunc.items_of (hx : n.ir[i]? = some x)
    (hcase : x.op ≠ .switchCase) : ∃ rest, n.items i = .plain .endbr64 :: rest :=
  ⟨_, siteItems_of hx hcase⟩

theorem NativeFunc.atItem_start (hi : i ≤ n.ir.length)
    (hcase : ∀ x, n.ir[i]? = some x → x.op ≠ .switchCase) : n.AtItem i (n.start i) := by
  cases hx : n.ir[i]? with
  | none =>
    obtain rfl : i = n.ir.length := le_antisymm hi (List.getElem?_eq_none_iff.mp hx)
    rw [start_length]
    exact .behind
  | some x =>
    obtain ⟨rest, hitems⟩ := items_of hx (hcase x hx)
    exact .item (k := 0) hx (hcase x hx) (by simp [hitems])

theorem NativeFunc.atItem_next (hx : n.ir[i]? = some x)
    (hop : x.op.falls = true ∨ x.op.calls = true) : n.AtItem (i + 1) (n.start (i + 1)) :=
  atItem_start (List.getElem?_eq_some_iff.mp hx).1 fun _ ↦ not_case_next n.compiled hx hop

theorem NativeFunc.atItem_body : n.AtItem 0 n.out.bodyOff := by
  rw [n.data_eq.1]
  exact atItem_start (Nat.zero_le _) fun _ ↦ not_case_zero n.compiled

theorem NativeFunc.itemAt_lt (hk : k < (n.items i).length) :
    itemAt (n.start i) (n.items i) k < n.start (i + 1) := by
  obtain ⟨it, hit⟩ : ∃ it, (n.items i)[k]? = some it := ⟨_, List.getElem?_eq_getElem hk⟩
  have hpos := it.size_pos
  have hsucc := itemAt_succ (o := n.start i) hit
  have hle : itemAt (n.start i) (n.items i) (k + 1) ≤ n.start i + itemsSize (n.items i) :=
    itemAt_le (k + 1)
  rw [start_succ]
  omega

theorem NativeFunc.InSite.bounds (hi : n.InSite i x o) :
    n.start i ≤ o ∧ o < n.start (i + 1) := by
  have hle := hi.le
  have hlt := hi.lt
  rw [n.listed.irOff i x hi.insn hi.hasCode] at hle
  rw [siteEnd_eq (List.getElem?_eq_some_iff.mp hi.insn).1] at hlt
  exact ⟨hle, hlt⟩

theorem NativeFunc.AtItem.at_site (ha : n.AtItem j o)
    (hi : n.InSite i x o) : j = i ∧ ∃ k < (n.items i).length,
      o = itemAt (n.start i) (n.items i) k := by
  obtain ⟨hle, hlt⟩ := hi.bounds
  cases ha with
  | @item j k y hy hcase hk =>
    have hlt' := itemAt_lt hk
    have hle' : n.start j ≤ itemAt (n.start j) (n.items j) k :=
      Nat.le_add_right _ _
    rcases Nat.lt_trichotomy i j with hij | rfl | hij
    · have hmono : n.start (i + 1) ≤ n.start j := start_mono hij
      omega
    · exact ⟨rfl, k, hk, rfl⟩
    · have hmono : n.start (j + 1) ≤ n.start i := start_mono hij
      omega
  | behind =>
    have hmono : n.start (i + 1) ≤ n.start n.ir.length :=
      start_mono (List.getElem?_eq_some_iff.mp hi.insn).1
    rw [start_length] at hmono
    omega

theorem NativeFunc.AtItem.inCode (ha : n.AtItem j o) : n.InCode j o := by
  cases ha with
  | @item j k y hy hcase hk =>
    refine .inl ⟨y, hy, hcase, ?_, ?_⟩
    · rw [n.listed.irOff j y hy hcase]
      exact Nat.le_add_right _ _
    · rw [siteEnd_eq (List.getElem?_eq_some_iff.mp hy).1]
      exact itemAt_lt hk
  | behind => exact .inr ⟨rfl, rfl⟩

theorem siteInsn_of (hx : n.ir[i]? = some x) : siteInsn m ⟨f, i⟩ = some x := by
  rw [siteInsn, n.compiled, Option.bind_some, hx]

theorem NativeFunc.atItem_branch {t : ℕ} (ht : t ∈ branchTargets n.ir i)
    (hin : n.bodyOff ≤ irOffset n.ir n.st.irOff t) :
    ∃ j ∈ siteTargets m ⟨f, i⟩, n.AtItem j (irOffset n.ir n.st.irOff t) := by
  have hpos := n.bodyOff_pos
  unfold irOffset at hin ⊢
  cases hj : irOffForBc n.ir t with
  | none =>
    rw [hj, Option.elim_none] at hin
    omega
  | some j =>
    rw [hj, Option.elim_some] at hin
    rw [Option.elim_some]
    obtain ⟨y, hy⟩ : ∃ y, n.ir[j]? = some y := by
      obtain ⟨⟨y, hy, -⟩, -⟩ := findIdx?_some (marked_of_irOffForBc n.compiled hj)
      exact ⟨y, hy⟩
    have hcase : y.op ≠ .switchCase := by
      intro hop
      rw [n.listed.cases j y hy hop] at hin
      omega
    refine ⟨j, ?_, ?_⟩
    · rw [siteTargets, n.compiled]
      exact List.mem_filterMap.mpr ⟨t, ht, hj⟩
    · rw [n.listed.irOff j y hy hcase]
      refine atItem_start (List.getElem?_eq_some_iff.mp hy).1.le fun z hz ↦ ?_
      rwa [← Option.some.inj (hy.symm.trans hz)]

variable {prog : (f : ℕ) → Option (NativeFunc B m f)} {c c' : List (ℕ × ℕ)} {S : List Site}

/-- Control is at a site: an offset in the code of its function is at one of its items. -/
def Sits (prog : (f : ℕ) → Option (NativeFunc B m f)) (p : ℕ × ℕ) (s : Site) : Prop :=
  s.f = p.1 ∧ ∃ n, prog p.1 = some n ∧ n.AtItem s.i p.2

theorem flow_step (hi : n.InSite i x o) (ha : n.AtItem i o)
    (hself : x.op = .callSelf → k ≠ n.out.bodyOff) (hf : Transfer x64Isa n.out.data o k)
    (rest : List Site) : ∃ j, n.AtItem j k ∧
      (j = i ∨ ∃ br, NativeStep m (⟨f, i⟩ :: rest) br (⟨f, j⟩ :: rest)) := by
  obtain ⟨-, l, hl, rfl⟩ := ha.at_site hi
  obtain ⟨hbody, -, after, hdata⟩ := n.data_eq
  have hflow := flow_site n.listed hdata n.size hi.insn hi.hasCode hl hf
  cases hflow with
  | within l' hl' =>
    exact ⟨i, .item hi.insn hi.hasCode hl', .inl rfl⟩
  | next hfalls =>
    exact ⟨i + 1, NativeFunc.atItem_next hi.insn (.inl hfalls),
      .inr ⟨false, .next rest (siteInsn_of hi.insn) hfalls⟩⟩
  | branch t ht hin =>
    obtain ⟨j, hj, hat⟩ := NativeFunc.atItem_branch ht hin
    exact ⟨j, hat, .inr ⟨true, .branch rest hj⟩⟩
  | body hcall => exact absurd hbody.symm (hself hcall)

theorem sits_head (hn : prog f = some n) (hi : n.InSite i x o)
    (hS : List.Forall₂ (Sits prog) ((f, o) :: c) S) :
    ∃ us, S = ⟨f, i⟩ :: us ∧ n.AtItem i o ∧ List.Forall₂ (Sits prog) c us := by
  obtain ⟨⟨g, j⟩, us, ⟨hg, n', hn', ha⟩, hus, rfl⟩ := List.forall₂_cons_left_iff.mp hS
  dsimp only at hg hn' ha
  subst hg
  obtain rfl := Option.some.inj (hn.symm.trans hn')
  obtain rfl := (ha.at_site hi).1
  exact ⟨us, rfl, ha, hus⟩

theorem sits_next (hn : prog f = some n) (hx : n.ir[i]? = some x)
    (hop : x.op.falls = true ∨ x.op.calls = true) :
    Sits prog (f, n.siteEnd i) ⟨f, i + 1⟩ := by
  rw [NativeFunc.siteEnd_eq (List.getElem?_eq_some_iff.mp hx).1]
  exact ⟨rfl, n, hn, NativeFunc.atItem_next hx hop⟩

/-- A step of native code stays at its site, or is a step from one site to the next. -/
theorem byteStep_sites (hstep : ByteStep prog c c') (hS : List.Forall₂ (Sits prog) c S) :
    ∃ S', List.Forall₂ (Sits prog) c' S' ∧
      (S' = S ∨ ∃ br, NativeStep m S br S') := by
  cases hstep with
  | @flow f o o' i x n rest hn hi hself hf =>
    obtain ⟨us, rfl, ha, hus⟩ := sits_head hn hi hS
    obtain ⟨j, ha', hj⟩ := flow_step hi ha hself hf us
    refine ⟨⟨f, j⟩ :: us, .cons ⟨rfl, n, hn, ha'⟩ hus, ?_⟩
    rcases hj with rfl | hstep
    · exact .inl rfl
    · exact .inr hstep
  | @callSelf f o i x n rest hn hi hop hf =>
    obtain ⟨us, rfl, -, hus⟩ := sits_head hn hi hS
    have hcalls : x.op.calls = true := by simp [hop, JirOp.calls]
    refine ⟨⟨f, 0⟩ :: ⟨f, i + 1⟩ :: us, .cons ⟨rfl, n, hn, NativeFunc.atItem_body⟩
      (.cons (sits_next hn hi.insn (.inr hcalls)) hus), .inr ⟨false, ?_⟩⟩
    have hcall := NativeStep.call us (siteInsn_of hi.insn) hcalls
    rw [pushedBySite, if_pos hop] at hcall
    exact hcall
  | @callDirect f o i x n n' rest hn hi hop hjmp hn' =>
    obtain ⟨us, rfl, -, hus⟩ := sits_head hn hi hS
    have hcalls : x.op.calls = true := by simp [hop, JirOp.calls]
    exact ⟨⟨pushedBySite f x, 0⟩ :: ⟨f, i + 1⟩ :: us,
      .cons ⟨rfl, n', hn', NativeFunc.atItem_body⟩
        (.cons (sits_next hn hi.insn (.inr hcalls)) hus),
      .inr ⟨false, .call us (siteInsn_of hi.insn) hcalls⟩⟩
  | @ret f o i x n _ hn hi hop hjmp =>
    obtain ⟨us, rfl, -, hus⟩ := sits_head hn hi hS
    exact ⟨us, hus, .inr ⟨false, .ret us (siteInsn_of hi.insn) hop⟩⟩

theorem entered_site (ho : n.Entered o) :
    ∃ i, EntrySite m ⟨f, i⟩ ∧ n.AtItem i o := by
  obtain ⟨-, hmap, -⟩ := n.data_eq
  rcases ho with rfl | ⟨pc, rfl, hne⟩
  · refine ⟨0, .inl rfl, ?_⟩
    exact NativeFunc.atItem_body
  · rw [hmap] at hne ⊢
    have hne' : buildBcPcMap n.ir n.st.irOff (m.func f).ninsns pc ≠ 0 := by
      intro hzero
      rw [hzero] at hne
      exact hne rfl
    obtain ⟨i, hi, heq⟩ := buildBcPcMap_eq hne'
    obtain ⟨⟨x, hx, -⟩, -⟩ := findIdx?_some hi
    have hcase := not_case_entry n.compiled hi hx
    have hlt := (List.getElem?_eq_some_iff.mp hx).1
    have hstart : n.st.irOff i = n.start i := n.listed.irOff i x hx hcase
    have hsize : n.st.irOff i < 2 ^ 32 ∧ 0 < n.st.irOff i := by
      have hend := NativeFunc.start_lt (n := n) hlt.le
      have hle : n.start 0 ≤ n.start i := NativeFunc.start_mono (Nat.zero_le i)
      have hpos := n.bodyOff_pos
      rw [NativeFunc.start_zero] at hle
      rw [hstart]
      omega
    have hoff : (UInt32.ofNat (n.st.irOff i)).toNat = n.st.irOff i :=
      UInt32.toNat_ofNat_of_lt' hsize.1
    refine ⟨i, .inr ⟨n.ir, pc, n.compiled, hi⟩, ?_⟩
    rw [heq, hoff, hstart]
    · exact NativeFunc.atItem_start hlt.le fun y hy ↦ not_case_entry n.compiled hi hy
    · intro hzero
      rw [hzero] at hoff
      exact absurd hoff.symm (Nat.pos_iff_ne_zero.mp hsize.2)

/-- A run of native code is a run through its sites: whatever has been emitted and patched, control
is always in the code of the site that the lowered function is at. -/
theorem native_refines {o : ℕ} (hn : prog f = some n) (ho : n.Entered o)
    (hrun : ByteRun prog [(f, o)] c) : ∃ i tr br S, EntrySite m ⟨f, i⟩ ∧
      NativePath m ⟨f, i⟩ tr br S ∧ List.Forall₂ (fun p s ↦ s.f = p.1 ∧
        ∃ n, prog p.1 = some n ∧ n.InCode s.i p.2) c S := by
  obtain ⟨i, hi, ha⟩ := entered_site ho
  have hrun' : ∃ tr br S, NativePath m ⟨f, i⟩ tr br S ∧ List.Forall₂ (Sits prog) c S := by
    induction hrun with
    | refl => exact ⟨[], false, [⟨f, i⟩], .start, .cons ⟨rfl, n, hn, ha⟩ .nil⟩
    | tail _ hstep ih =>
      obtain ⟨tr, br, S, hpath, hS⟩ := ih
      obtain ⟨S', hS', rfl | ⟨br', hnative⟩⟩ := byteStep_sites hstep hS
      · exact ⟨tr, br, S', hpath, hS'⟩
      · cases hS with
        | nil => cases hstep
        | cons hs hrest => exact ⟨_, br', S', hpath.step hnative, hS'⟩
  obtain ⟨tr, br, S, hpath, hS⟩ := hrun'
  refine ⟨i, tr, br, S, hi, hpath, hS.imp ?_⟩
  rintro p s ⟨hf, n, hn, ha⟩
  exact ⟨hf, n, hn, ha.inCode⟩

theorem falls_args (x : JirInsn) :
    ∀ e ∈ Encoder.endbr64 :: helperArgs (jitCallArgs x), x64Isa.falls e.read = true := by
  intro e he
  simp only [helperArgs, jitCallArgs, List.zipWith_cons_cons, List.zipWith_nil_left, List.mem_cons,
    List.not_mem_nil, or_false] at he
  rcases he with rfl | rfl | rfl | rfl | rfl | rfl <;> rfl

/-- The code of a call: before its `LEA` control falls through, behind it is what it leads over. -/
theorem call_items (hx : n.ir[i]? = some x)
    (hop : x.op.calls = true) : ∃ after, n.items i =
      straight (.endbr64 :: helperArgs (jitCallArgs x)) ++ .lea .r9 after.length :: after := by
  have hcase : x.op ≠ .switchCase := by
    intro h
    simp [h, JirOp.calls] at hop
  have hitems : n.items i = .plain .endbr64 :: siteBody B m f _ n.ir i x :=
    siteItems_of hx hcase
  have hcalls : x.op = .callSelf ∨ x.op = .callDirect := by simpa [JirOp.calls] using hop
  rcases hcalls with h | h
  · refine ⟨rtItems B .callSelf ++ straight (frameBase B) ++ [.jmp .body], ?_⟩
    rw [hitems, siteBody, h, List.length_append]
    simp [callSelfItems]
  · refine ⟨straight (directCall B x) ++ leaveUnless ++ jmpFieldItems B B.lay.execCtxJitCallEntry,
      ?_⟩
    rw [hitems, siteBody, h]
    rfl

theorem reaches_straight {es : List Encoder} {rest : List Item}
    (hitems : n.items i = straight es ++ rest)
    (hfalls : ∀ e ∈ es, x64Isa.falls e.read = true) (hk : k ≤ es.length) :
    ReflTransGen (Transfer x64Isa n.out.data) (n.start i)
      (itemAt (n.start i) (n.items i) k) := by
  obtain ⟨-, -, after, hdata⟩ := n.data_eq
  induction k with
  | zero => exact .refl
  | succ k ih =>
    have hget : (n.items i)[k]? = some (.plain es[k]) := by
      rw [hitems, List.getElem?_append_left (by rw [length_straight]; omega), straight,
        List.getElem?_map, List.getElem?_eq_getElem hk]
      rfl
    obtain ⟨rest, hdecode, hend⟩ := decode_site n.listed hdata hget rfl
    have hstep := Transfer.next hdecode (hfalls _ (List.getElem_mem hk))
    rw [hend] at hstep
    exact (ih (Nat.le_of_succ_le hk)).tail hstep

/-- The address that a call gives its helper, to return to, is where the code of the next site
begins. -/
theorem call_resumes (hx : n.ir[i]? = some x) (hop : x.op.calls = true) :
    ∃ o d rest, n.InSite i x o ∧ ReflTransGen (Transfer x64Isa n.out.data) (n.st.irOff i) o ∧
      decode (n.out.data.drop o) = some (⟨.lea, [.r64 .r9, .m64 (.rip d)]⟩, rest) ∧
      ((n.out.data.length - rest.length : ℕ) : ℤ) + int32 d = n.siteEnd i := by
  have h := n.listed
  obtain ⟨after, hitems⟩ := call_items hx hop
  obtain ⟨-, -, behind, hdata⟩ := n.data_eq
  have hi := (List.getElem?_eq_some_iff.mp hx).1
  have hcase : x.op ≠ .switchCase := by
    intro h
    simp [h, JirOp.calls] at hop
  have hfalls := falls_args x
  generalize Encoder.endbr64 :: helperArgs (jitCallArgs x) = es at hitems hfalls
  have hlen : (n.items i).length = es.length + 1 + after.length := by
    rw [hitems, List.length_append, length_straight, List.length_cons]
    omega
  have hlea : (n.items i)[es.length]? = some (.lea .r9 after.length) := by
    rw [hitems, List.getElem?_append_right (by rw [length_straight]), length_straight, Nat.sub_self]
    rfl
  have hreach := reaches_straight hitems hfalls le_rfl
  obtain ⟨rest, hdecode, hend⟩ := decode_site h hdata hlea rfl
  refine ⟨_, _, rest, ⟨hx, hcase, ?_, ?_⟩, ?_, hdecode, ?_⟩
  · rw [h.irOff i x hx hcase]
    exact Nat.le_add_right _ _
  · rw [NativeFunc.siteEnd_eq hi]
    exact NativeFunc.itemAt_lt (by omega)
  · rw [h.irOff i x hx hcase]
    exact hreach
  · have hnext : n.start (i + 1) < 2 ^ 31 := NativeFunc.start_lt hi
    have hbody : n.bodyOff < 2 ^ 31 := n.start_lt (Nat.zero_le _)
    have hinside : ∀ j, itemAt (n.start i) (n.items i) j < 2 ^ 31 := fun j ↦ by
      rw [NativeFunc.start_succ] at hnext
      exact (itemAt_le j).trans_lt hnext
    have hover : itemAt (n.start i) (n.items i) (es.length + 1 + after.length) =
        n.start (i + 1) := by
      rw [← hlen, itemAt_length, NativeFunc.start_succ]
    have hlands : _ = ((labelAt (irOffset n.ir n.st.irOff) n.bodyOff (n.start i)
        (n.items i) es.length (.skip after.length) : ℕ) : ℤ) :=
      disp_labelAt hinside hbody fun t ht ↦ by cases ht
    rw [labelAt, hover] at hlands
    rw [NativeFunc.siteEnd_eq hi, ← hlands]
    exact congrArg (fun k : ℕ ↦ (k : ℤ) + _) hend

end Refine

section Example

/-- The offsets of the fields, and one address for the functions. -/
def oneBackend : Backend where
  lay :=
    { execCtxFr := 24
      callFrameRfMem := 8
      execCtxJitResumeEntry := 64
      execCtxJitSelfResume := 72
      execCtxJitCallEntry := 80
      vmFuelLimit := 128
      vmFuelRemaining := 136 }
  fn _ := 0x1000

def callingOff (r : ℕ) : ℕ := (vmGetFrameLayout callingModule 0).off.getD r 0

def callingBody : ℕ × EmitState :=
  (x64EmitBody oneBackend callingModule 0 callingOff callingIr fun _ ↦ true).get (by decide +kernel)

def callingCode : NativeCode :=
  (x64EmitFunc oneBackend callingModule 0 callingOff callingIr fun _ ↦ true).get (by decide +kernel)

theorem callingBody_eq :
    x64EmitBody oneBackend callingModule 0 callingOff callingIr (fun _ ↦ true) =
      some callingBody := by
  rw [callingBody, Option.some_get]

theorem callingCode_eq :
    x64EmitFunc oneBackend callingModule 0 callingOff callingIr (fun _ ↦ true) =
      some callingCode := by
  rw [callingCode, Option.some_get]

theorem callingCode_size : callingCode.data.length < 2 ^ 31 := by
  decide +kernel

/-- The function that calls itself, compiled. -/
def callingNative : NativeFunc oneBackend callingModule 0 where
  realloc _ := true
  ir := callingIr
  bodyOff := callingBody.1
  st := callingBody.2
  out := callingCode
  compiled := by decide +kernel
  body := by
    rw [Prod.mk.eta]
    exact callingBody_eq
  emitted := callingCode_eq
  size := callingCode_size

def callingProg : (f : ℕ) → Option (NativeFunc oneBackend callingModule f)
  | 0 => some callingNative
  | _ + 1 => none

def callingSite : JirInsn := { op := .callSelf, a := 0, b := 0, c := 1, imm := 0, bcPc := 1 }

theorem calling_places : callingNative.out.bodyOff = 54 ∧ callingNative.st.irOff 0 = 54 ∧
    callingNative.siteEnd 0 = 58 ∧ callingNative.st.irOff 1 = 58 ∧
    callingNative.siteEnd 1 = 148 := by
  decide +kernel

theorem calling_flows : List.IsChain (fun o o' ↦ Transfer x64Isa callingNative.out.data o o' ∧
    o' ≠ 54 ∧ 54 ≤ o ∧ o < 148)
      [54, 58, 62, 65, 70, 75, 80, 86, 93, 103, 105, 107, 128, 136, 143] := by
  decide +kernel

theorem calling_jump : Transfer x64Isa callingNative.out.data 143 54 := by
  decide +kernel

theorem calling_inSite {o : ℕ} (h : 58 ≤ o ∧ o < 148) : callingNative.InSite 1 callingSite o := by
  obtain ⟨-, -, -, hstart, hend⟩ := calling_places
  refine ⟨rfl, by decide, ?_, ?_⟩
  · rw [hstart]
    exact h.1
  · rw [hend]
    exact h.2

theorem calling_step {o o' : ℕ} (hf : Transfer x64Isa callingNative.out.data o o')
    (ho' : o' ≠ 54) (h : 54 ≤ o ∧ o < 148) : ByteStep callingProg [(0, o)] [(0, o')] := by
  obtain ⟨hbody, hstart, hend, -, -⟩ := calling_places
  by_cases hlt : o < 58
  · have hi : callingNative.InSite 0 (jir .nop 0 0) o := by
      refine ⟨rfl, by decide, ?_, ?_⟩
      · rw [hstart]
        exact h.1
      · rw [hend]
        exact hlt
    exact .flow [] rfl hi (fun hop ↦ absurd hop (by decide)) hf
  · refine .flow [] rfl (calling_inSite ⟨Nat.le_of_not_lt hlt, h.2⟩) (fun _ ↦ ?_) hf
    rw [hbody]
    exact ho'

theorem calling_run : ByteRun callingProg [(0, 54)] [(0, 54), (0, 148)] := by
  obtain ⟨hbody, -, -, -, hend⟩ := calling_places
  have hsteps := calling_flows.imp fun o o' h ↦ calling_step h.1 h.2.1 h.2.2
  have hrun := (List.relationReflTransGen_of_exists_isChain_cons _ hsteps rfl).lift
    (fun o ↦ [(0, o)]) fun _ _ h ↦ h
  refine hrun.tail ?_
  have hcall := ByteStep.callSelf [] (show callingProg 0 = some callingNative from rfl)
    (calling_inSite (o := 143) (by decide)) rfl (hbody ▸ calling_jump)
  rw [hbody, hend] at hcall
  exact hcall

theorem native_refines_calling : ∃ i tr br S, EntrySite callingModule ⟨0, i⟩ ∧
    NativePath callingModule ⟨0, i⟩ tr br S ∧ List.Forall₂ (fun p s ↦ s.f = p.1 ∧
      ∃ n, callingProg p.1 = some n ∧ n.InCode s.i p.2) [(0, 54), (0, 148)] S :=
  native_refines rfl (.inl calling_places.1.symm) calling_run

theorem call_resumes_calling : ∃ o d rest, callingNative.InSite 1 callingSite o ∧
    ReflTransGen (Transfer x64Isa callingNative.out.data) (callingNative.st.irOff 1) o ∧
    decode (callingNative.out.data.drop o) = some (⟨.lea, [.r64 .r9, .m64 (.rip d)]⟩, rest) ∧
    ((callingNative.out.data.length - rest.length : ℕ) : ℤ) + int32 d = callingNative.siteEnd 1 :=
  call_resumes rfl rfl

end Example

end JelloVM
