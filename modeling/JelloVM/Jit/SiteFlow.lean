import JelloVM.Jit.EmitItems
import JelloVM.Jit.Cache

/-! Where control goes in the code of a function: from each item of a site to where the site
says. -/

namespace JelloVM

open Function X64 CodeFlow

section Whole

variable {B : Backend} {m : JelloBcModule} {f : ℕ} {off : ℕ → ℕ} {ir : List JirInsn}
  {realloc : ℕ → Bool} {st st' : EmitState} {i k body : ℕ}

variable (B m f off ir) in
def allItems (k : ℕ) : List Item :=
  (List.range k).flatMap (siteItems B m f off ir)

variable (B m f off ir) in
def siteAt (o : ℕ) (i : ℕ) : ℕ :=
  o + itemsSize (allItems B m f off ir i)

theorem allItems_succ : allItems B m f off ir (k + 1) =
    allItems B m f off ir k ++ siteItems B m f off ir k := by
  rw [allItems, List.range_succ, List.flatMap_append, List.flatMap_singleton]
  rfl

theorem siteAt_succ (o : ℕ) : siteAt B m f off ir o (k + 1) =
    siteAt B m f off ir o k + itemsSize (siteItems B m f off ir k) := by
  rw [siteAt, allItems_succ, itemsSize_append, siteAt, Nat.add_assoc]

theorem closed_siteItems : Closed (siteItems B m f off ir i) := by
  unfold siteItems
  cases ir[i]? with
  | none => trivial
  | some x =>
    dsimp only
    split_ifs
    · trivial
    · exact ⟨fun n hn ↦ absurd hn (by simp [Item.label]), closed_siteBody⟩

theorem closed_allItems : Closed (allItems B m f off ir k) := by
  induction k with
  | zero => trivial
  | succ k ih =>
    rw [allItems_succ]
    exact ih.append closed_siteItems

/-- The first sites have been emitted, and their offsets and branches recorded. -/
structure SitesEmitted (B : Backend) (m : JelloBcModule) (f : ℕ) (off : ℕ → ℕ) (ir : List JirInsn)
    (k : ℕ) (st st' : EmitState) : Prop where
  code : Stands (unlinked st.buf.data.length) st.buf (allItems B m f off ir k) st'.buf
  sites : st'.patchSites =
    st.patchSites ++ pending st.buf.data.length (allItems B m f off ir k)
  irOff : ∀ i < k, ∀ x, ir[i]? = some x → x.op ≠ .switchCase →
    st'.irOff i = siteAt B m f off ir st.buf.data.length i
  cases : ∀ i x, ir[i]? = some x → x.op = .switchCase → st'.irOff i = st.irOff i

theorem stands_site (h : emitSite B m f off ir realloc body st i = some st') :
    Stands (unlinked body) st.buf (siteItems B m f off ir i) st'.buf ∧
      st'.patchSites = st.patchSites ++
        pending st.buf.data.length (siteItems B m f off ir i) ∧
      ∃ x, ir[i]? = some x ∧ st'.irOff =
        if x.op = .switchCase then st.irOff else update st.irOff i st.buf.data.length := by
  unfold emitSite at h
  cases hx : ir[i]? with
  | none => simp [hx] at h
  | some x =>
    simp only [hx] at h
    split_ifs at h with hcase
    · cases h
      simp only [siteItems, hx, if_pos hcase, Option.some.injEq, exists_eq_left']
      exact ⟨(List.append_nil _).symm, (List.append_nil _).symm, trivial⟩
    · simp only [Option.bind_eq_bind, Option.bind_eq_some_iff] at h
      obtain ⟨mid, hmid, h⟩ := h
      have hs := (stands_emitInto (T := unlinked body) (emits_code [.endbr64])
        (local_straight _) hmid).append (closed_straight _) (stands_siteCode h)
      simp only [siteItems, hx, if_neg hcase, Option.some.injEq, exists_eq_left']
      exact ⟨hs.code, hs.sites, hs.irOff⟩

theorem emitted (st : EmitState) (h : (List.range k).foldlM
    (emitSite B m f off ir realloc st.buf.data.length) st = some st') :
    SitesEmitted B m f off ir k st st' := by
  induction k generalizing st' with
  | zero =>
    cases h
    exact ⟨(List.append_nil _).symm, (List.append_nil _).symm,
      fun i hi ↦ absurd hi (Nat.not_lt_zero i), fun _ _ _ _ ↦ rfl⟩
  | succ k ih =>
    rw [List.range_succ, List.foldlM_append] at h
    obtain ⟨mid, hmid, h⟩ := Option.bind_eq_some_iff.mp h
    have hsite : emitSite B m f off ir realloc st.buf.data.length mid k = some st' := by
      simpa using h
    have he := ih hmid
    obtain ⟨hcode, hsites, x, hx, hoff⟩ := stands_site hsite
    refine ⟨?_, ?_, fun i hi y hy hop ↦ ?_, fun i y hy hop ↦ ?_⟩
    · rw [allItems_succ]
      exact he.code.append closed_allItems hcode
    · rw [hsites, he.sites, he.code.length, allItems_succ, pending_append, List.append_assoc]
    · rw [hoff]
      rcases Nat.lt_succ_iff_lt_or_eq.mp hi with hi | rfl
      · have hold := he.irOff i hi y hy hop
        split_ifs
        · exact hold
        · rw [update_of_ne (Nat.ne_of_lt hi)]
          exact hold
      · obtain rfl := Option.some.inj (hx.symm.trans hy)
        rw [if_neg hop, update_self, he.code.length]
        rfl
    · have hold := he.cases i y hy hop
      rw [hoff]
      split_ifs with hcase
      · exact hold
      · have hne : i ≠ k := by
          rintro rfl
          obtain rfl := Option.some.inj (hx.symm.trans hy)
          exact hcase hop
        rw [update_of_ne hne]
        exact hold

end Whole

section Code

variable {B : Backend} {m : JelloBcModule} {f : ℕ} {off : ℕ → ℕ} {ir : List JirInsn}
  {realloc : ℕ → Bool} {st : EmitState} {i j k bodyOff : ℕ}
  {x y : JirInsn} {code : List UInt8}

/-- The bytes before the epilogue: the prologue and the sites, linked, and where they are. -/
structure LinkedCode (B : Backend) (m : JelloBcModule) (f : ℕ) (off : ℕ → ℕ) (ir : List JirInsn)
    (bodyOff : ℕ) (st : EmitState) : Prop where
  body : bodyOff = itemsSize (prologueItems B)
  data : ∃ before, before.length = bodyOff ∧ st.buf.data = before ++
    (link (linked (irOffset ir st.irOff) bodyOff) bodyOff
      (allItems B m f off ir ir.length)).bytes
  irOff : ∀ i x, ir[i]? = some x → x.op ≠ .switchCase →
    st.irOff i = siteAt B m f off ir bodyOff i
  cases : ∀ i x, ir[i]? = some x → x.op = .switchCase → st.irOff i = 0
  targets : ∀ it ∈ allItems B m f off ir ir.length, ∀ t kind, it.branch = some (t, kind) →
    bodyOff ≤ irOffset ir st.irOff t

theorem linkedCode (h : x64EmitBody B m f off ir realloc = some (bodyOff, st)) :
    LinkedCode B m f off ir bodyOff st := by
  simp only [x64EmitBody, Option.bind_eq_bind, Option.bind_eq_some_iff] at h
  obtain ⟨buf, hbuf, st₁, hst₁, buf₁, hpatch, h⟩ := h
  cases h
  have hprologue := emits_prologue (T := unlinked 0) _ _ _ hbuf
  have hlen := hprologue.length
  have he : SitesEmitted B m f off ir ir.length ⟨buf, fun _ ↦ 0, [], false⟩ st₁ := emitted _ hst₁
  have hsites := he.sites
  rw [List.nil_append] at hsites
  rw [hsites] at hpatch
  obtain ⟨hdata, htargets⟩ := patchBranchSites_data rfl
    (he.code.trans (List.append_nil _).symm) hpatch
  refine ⟨?_, ⟨buf.data, rfl, hdata.trans (List.append_nil _)⟩, fun i x hx hop ↦ ?_,
    fun i x hx hop ↦ he.cases i x hx hop, htargets⟩
  · rw [hlen]
    exact Nat.zero_add _
  · exact he.irOff i (List.getElem?_eq_some_iff.mp hx).1 x hx hop

variable {after : List UInt8} {o' t : ℕ}

theorem siteItems_of (hx : ir[i]? = some x) (hcase : x.op ≠ .switchCase) :
    siteItems B m f off ir i = .plain .endbr64 :: siteBody B m f off ir i x := by
  simp only [siteItems, hx, if_neg hcase]

theorem siteItems_case (hx : ir[i]? = some x) (hcase : x.op = .switchCase) :
    siteItems B m f off ir i = [] := by
  simp only [siteItems, hx, if_pos hcase]

theorem allItems_split (hi : i < k) : ∃ rest, allItems B m f off ir k =
    allItems B m f off ir i ++ (siteItems B m f off ir i ++ rest) := by
  induction k, hi using Nat.le_induction with
  | base => exact ⟨[], by rw [allItems_succ, List.append_nil]⟩
  | succ k _ ih =>
    obtain ⟨rest, hrest⟩ := ih
    refine ⟨rest ++ siteItems B m f off ir k, ?_⟩
    rw [allItems_succ, hrest, List.append_assoc, List.append_assoc]

theorem siteAt_mono (o : ℕ) (h : i ≤ k) :
    siteAt B m f off ir o i ≤ siteAt B m f off ir o k := by
  induction k, h using Nat.le_induction with
  | base => exact le_rfl
  | succ k _ ih =>
    rw [siteAt_succ]
    omega

theorem LinkedCode.length (h : LinkedCode B m f off ir bodyOff st) :
    st.buf.data.length = siteAt B m f off ir bodyOff ir.length := by
  obtain ⟨before, hlen, hdata⟩ := h.data
  rw [hdata, List.length_append, length_bytes_link, hlen, siteAt]

theorem LinkedCode.irOffset_le (h : LinkedCode B m f off ir bodyOff st) (t : ℕ) :
    irOffset ir st.irOff t ≤ st.buf.data.length := by
  unfold irOffset
  cases ht : irOffForBc ir t with
  | none => exact Nat.zero_le _
  | some j =>
    rw [Option.elim_some]
    have hj : ∃ y, ir[j]? = some y := by
      unfold irOffForBc at ht
      obtain hfirst | ⟨-, hfirst⟩ := Option.or_eq_some_iff.mp ht
      · exact (findIdx?_some hfirst).1.imp fun _ hy ↦ hy.1
      · exact (findIdx?_some hfirst).1.imp fun _ hy ↦ hy.1
    obtain ⟨y, hy⟩ := hj
    by_cases hop : y.op = .switchCase
    · rw [h.cases j y hy hop]
      exact Nat.zero_le _
    · rw [h.irOff j y hy hop, h.length]
      exact siteAt_mono bodyOff (List.getElem?_eq_some_iff.mp hy).1.le

/-- Where control goes from an item of a site. -/
inductive SiteFlow (B : Backend) (m : JelloBcModule) (f : ℕ) (off : ℕ → ℕ) (ir : List JirInsn)
    (bodyOff : ℕ) (irOff : ℕ → ℕ) (i : ℕ) (x : JirInsn) : ℕ → Prop
  | within (k : ℕ) (hk : k < (siteItems B m f off ir i).length) :
      SiteFlow B m f off ir bodyOff irOff i x
        (itemAt (siteAt B m f off ir bodyOff i) (siteItems B m f off ir i) k)
  | next (hop : x.op.falls = true) :
      SiteFlow B m f off ir bodyOff irOff i x (siteAt B m f off ir bodyOff (i + 1))
  | branch (t : ℕ) (ht : t ∈ branchTargets ir i) (hin : bodyOff ≤ irOffset ir irOff t) :
      SiteFlow B m f off ir bodyOff irOff i x (irOffset ir irOff t)
  | body (hop : x.op = .callSelf) : SiteFlow B m f off ir bodyOff irOff i x bodyOff

theorem Item.branch_of_goes {it : Item} (h : it.goes = some (.pc t)) :
    ∃ kind, it.branch = some (t, kind) := by
  cases it with
  | jmp l =>
    cases h
    exact ⟨0, rfl⟩
  | jcc cc l =>
    cases h
    exact ⟨1, rfl⟩
  | _ => exact absurd h (by simp [Item.goes])

theorem itemAt_length (o : ℕ) (items : List Item) :
    itemAt o items items.length = o + itemsSize items := by
  rw [itemAt, List.take_length]

theorem siteFlow_item {irOff : ℕ → ℕ}
    (hk : k ≤ (siteItems B m f off ir i).length)
    (hstops : x.op.falls = false → k < (siteItems B m f off ir i).length) :
    SiteFlow B m f off ir bodyOff irOff i x
      (itemAt (siteAt B m f off ir bodyOff i) (siteItems B m f off ir i) k) := by
  rcases Nat.lt_or_eq_of_le hk with hlt | rfl
  · exact .within k hlt
  · rw [itemAt_length, ← siteAt_succ]
    cases hfalls : x.op.falls with
    | true => exact .next hfalls
    | false => exact absurd (hstops hfalls) (Nat.lt_irrefl _)

theorem led_siteItems (hx : ir[i]? = some x) (hcase : x.op ≠ .switchCase) :
    Led (siteItems B m f off ir i) (branchTargets ir i) (x.op == .callSelf) := by
  rw [siteItems_of hx hcase]
  exact (led_siteBody hx).plain rfl

theorem LinkedCode.split (h : LinkedCode B m f off ir bodyOff st)
    (hcode : code = st.buf.data ++ after) (hi : i < ir.length) : ∃ before behind,
      before.length = siteAt B m f off ir bodyOff i ∧
      code = before ++ (link (linked (irOffset ir st.irOff) bodyOff)
        (siteAt B m f off ir bodyOff i) (siteItems B m f off ir i)).bytes ++ behind := by
  obtain ⟨before, hbefore, hdata⟩ := h.data
  obtain ⟨rest, hsplit⟩ : ∃ rest, allItems B m f off ir ir.length =
      allItems B m f off ir i ++ (siteItems B m f off ir i ++ rest) := allItems_split hi
  rw [hsplit, link_append closed_allItems, link_append closed_siteItems, Listing.bytes_append,
    Listing.bytes_append] at hdata
  refine ⟨before ++ (link (linked (irOffset ir st.irOff) bodyOff) bodyOff
    (allItems B m f off ir i)).bytes, (link (linked (irOffset ir st.irOff) bodyOff)
      (bodyOff + itemsSize (allItems B m f off ir i) +
        itemsSize (siteItems B m f off ir i)) rest).bytes ++ after, ?_, ?_⟩
  · rw [List.length_append, length_bytes_link, hbefore, siteAt]
  · rw [hcode, hdata, siteAt]
    simp only [List.append_assoc]

theorem mem_allItems {it : Item} (hi : i < k) (hit : it ∈ siteItems B m f off ir i) :
    it ∈ allItems B m f off ir k :=
  List.mem_flatMap.mpr ⟨i, List.mem_range.mpr hi, hit⟩

theorem flow_site (h : LinkedCode B m f off ir bodyOff st)
    (hcode : code = st.buf.data ++ after) (hsize : code.length < 2 ^ 31)
    (hx : ir[i]? = some x) (hcase : x.op ≠ .switchCase)
    (hk : k < (siteItems B m f off ir i).length)
    (hf : Transfer x64Isa code
      (itemAt (siteAt B m f off ir bodyOff i) (siteItems B m f off ir i) k) o') :
    SiteFlow B m f off ir bodyOff st.irOff i x o' := by
  have hi := (List.getElem?_eq_some_iff.mp hx).1
  have hlen : st.buf.data.length < 2 ^ 31 := by
    rw [hcode, List.length_append] at hsize
    omega
  have hbody : bodyOff < 2 ^ 31 := by
    have hle := h.length
    rw [siteAt] at hle
    omega
  obtain ⟨it, hit⟩ : ∃ it, (siteItems B m f off ir i)[k]? = some it :=
    ⟨_, List.getElem?_eq_getElem hk⟩
  have hleads : it.Leads (siteItems B m f off ir i) (branchTargets ir i) (x.op == .callSelf) k :=
    led_siteItems hx hcase k it hit
  have hstops : x.op.falls = false → Stops (siteItems B m f off ir i) := by
    intro hfalls
    obtain ⟨hstops, hne⟩ : Stops (siteBody B m f off ir i x) ∧
        siteBody B m f off ir i x ≠ [] := stops_siteBody hcase hfalls
    rw [siteItems_of hx hcase]
    exact ⟨fun _ ↦ hne, fun n hn ↦ absurd hn (by simp [Item.goes]), hstops⟩
  obtain ⟨before, behind, hbefore, hsplit⟩ := h.split hcode hi
  obtain ⟨hfalls, rfl⟩ | ⟨l, hl, rfl⟩ := flow_item hbefore hsplit hsize hbody hleads.done
    (fun t _ ↦ (h.irOffset_le t).trans_lt hlen) hit hf
  · exact siteFlow_item hk fun hop' ↦ ((hstops hop').at hit).1 hfalls
  · obtain ⟨n, rfl⟩ | ⟨t, ht, rfl⟩ | ⟨rfl, hself⟩ | ⟨n, rfl, j, hj, hback⟩ := hleads.goes l hl
    · exact siteFlow_item (closed_siteItems.at hit (Item.label_of_goes hl))
        fun hop' ↦ ((hstops hop').at hit).2 n hl
    · obtain ⟨kind, hbranch⟩ := Item.branch_of_goes hl
      exact .branch t ht
        (h.targets it (mem_allItems hi (List.mem_of_getElem? hit)) t kind hbranch)
    · exact .body (by simpa using hself)
    · rw [labelAt, hback, Nat.add_sub_cancel]
      exact .within j (hj.trans_lt hk)

theorem decode_site (h : LinkedCode B m f off ir bodyOff st)
    (hcode : code = st.buf.data ++ after) {it : Item} {d : Decoded}
    (hk : (siteItems B m f off ir i)[k]? = some it)
    (hd : it.read ((linked (irOffset ir st.irOff) bodyOff).disp
      (itemAt (siteAt B m f off ir bodyOff i) (siteItems B m f off ir i) (k + 1))
      ((siteItems B m f off ir i).drop (k + 1)) it.label) = d) :
    ∃ rest, decode (code.drop
        (itemAt (siteAt B m f off ir bodyOff i) (siteItems B m f off ir i) k)) =
          some (d, rest) ∧ code.length - rest.length =
        itemAt (siteAt B m f off ir bodyOff i) (siteItems B m f off ir i) (k + 1) := by
  have hi : i < ir.length := by
    by_contra hle
    rw [siteItems, List.getElem?_eq_none (Nat.le_of_not_lt hle)] at hk
    exact absurd hk (by simp)
  obtain ⟨before, behind, hbefore, hsplit⟩ := h.split hcode hi
  have hentry := link_getElem? (T := linked (irOffset ir st.irOff) bodyOff)
    (o := siteAt B m f off ir bodyOff i) hk
  rw [hd] at hentry
  have hat : ∀ j, before.length + (link (linked (irOffset ir st.irOff) bodyOff)
      (siteAt B m f off ir bodyOff i) (siteItems B m f off ir i)).offset j =
        itemAt (siteAt B m f off ir bodyOff i) (siteItems B m f off ir i) j :=
    fun j ↦ by rw [offset_link, hbefore, itemAt]
  have hread := read_link.decode_at hsplit hentry
  rw [hat, hat] at hread
  exact hread

end Code

end JelloVM
