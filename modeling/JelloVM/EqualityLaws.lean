import JelloVM.Equality
import JelloVM.ProtoCache

/-! The comparison of values ends, and where it is equality. -/

namespace JelloVM

open ByteMemory Logged Ieee Subgoals

section Values

variable {h : Heap} {v x a b c : JelloValue}

/-- In the heap, the fields of enums are values, and enums do not contain themselves. -/
structure EnumsOk (h : Heap) : Prop where
  live {p : JelloValue} {e : JelloEnum} {i : ℕ} (hp : h.cells p = some (.enum e))
    (hi : i < e.nfields.toNat) : h.IsValue (e.fields i)
  grounded (v : JelloValue) : Acc h.Field v

/-- Everything in `v` is a value, and no NaN. -/
def Heap.Sound (h : Heap) (v : JelloValue) : Prop :=
  ∀ x, Relation.ReflTransGen h.Field x v → h.IsValue x ∧
    ∀ n, h.number x = some n → n.datum ≠ .nan

theorem Heap.Sound.field (hv : h.Sound v) (hx : h.Field x v) : h.Sound x :=
  fun y hy ↦ hv y (hy.tail hx)

theorem sound_of_value (hok : EnumsOk h) (hv : h.IsValue v) (hnan : h.NoNaN v) : h.Sound v := by
  intro x hx
  refine ⟨?_, hnan x hx⟩
  induction hx using Relation.ReflTransGen.head_induction_on with
  | refl => exact hv
  | head hfield _ _ =>
    obtain ⟨-, e, i, hc, hi, rfl⟩ := hfield
    exact hok.live hc hi

theorem field_of_mem_zip {ea eb : JelloEnum} {q : JelloValue × JelloValue}
    (hpa : jelloIsPtr a = true) (hpb : jelloIsPtr b = true) (hca : h.cells a = some (.enum ea))
    (hcb : h.cells b = some (.enum eb)) (hn : ea.nfields = eb.nfields)
    (hq : q ∈ ea.fieldList.zip eb.fieldList) : h.Field q.1 a ∧ h.Field q.2 b := by
  obtain ⟨j, hj, rfl⟩ := (mem_zip_fieldList hn).mp hq
  exact ⟨⟨hpa, ea, j, hca, hj, rfl⟩, hpb, eb, j, hcb, hn ▸ hj, rfl⟩

theorem field_of_below {p q : JelloValue × JelloValue} (hq : Below h.parts q p) :
    h.Field q.1 p.1 ∧ h.Field q.2 p.2 := by
  obtain ⟨qs, hqs, hmem⟩ := hq
  rcases parts_cases (a := p.1) (b := p.2) hqs with ⟨-, rfl⟩ |
    ⟨-, hpa, hpb, ea, eb, hca, hcb, -, hn, rfl⟩
  · exact absurd hmem List.not_mem_nil
  · exact field_of_mem_zip hpa hpb hca hcb hn hmem

theorem acc_parts (hok : EnumsOk h) (p : JelloValue × JelloValue) : Acc (Below h.parts) p :=
  Subrelation.accessible (fun hq ↦ (field_of_below hq).1)
    (InvImage.accessible Prod.fst (hok.grounded p.1))

/-- What the two values mean is the same, place by place, exactly if they are equal. -/
theorem same_iff (hok : EnumsOk h) (p : JelloValue × JelloValue) :
    h.Same p.1 p.2 ↔ All h.parts (fun q ↦ h.meaning q.1 = h.meaning q.2) p := by
  induction acc_parts hok p with
  | intro p _ ih =>
    cases hsub : h.parts p with
    | none =>
      rw [all_none hsub]
      constructor
      · intro hsame
        cases hsame with
        | meaning heq => exact heq
        | @enum _ _ tag fs gs ha hb hlen hfields =>
          have hne : ¬p.1 = p.2 := by
            intro heq
            rw [Heap.parts, if_pos heq] at hsub
            exact absurd hsub (Option.some_ne_none _)
          rw [Heap.parts, if_neg hne, ha, hb] at hsub
          simp only [hlen, and_self, if_true] at hsub
          exact absurd hsub (Option.some_ne_none _)
      · exact .meaning
    | some qs =>
      rw [all_some hsub]
      have hbelow : ∀ q ∈ qs, (h.Same q.1 q.2 ↔ All h.parts _ q) := fun q hq ↦ ih q ⟨qs, hsub, hq⟩
      rcases parts_cases (a := p.1) (b := p.2) hsub with ⟨heq, rfl⟩ |
        ⟨hne, hpa, hpb, ea, eb, hca, hcb, htag, hn, rfl⟩
      · constructor
        · intro _ q hq
          exact absurd hq List.not_mem_nil
        · intro _
          exact .meaning (congrArg h.meaning heq)
      · have hma : h.meaning p.1 = .enum ea.tag ea.fieldList := meaning_of_cell hpa hca
        have hmb : h.meaning p.2 = .enum ea.tag eb.fieldList := by
          rw [htag]
          exact meaning_of_cell hpb hcb
        have hlen : ea.fieldList.length = eb.fieldList.length := by
          simp only [JelloEnum.fieldList, List.length_map, List.length_range, hn]
        constructor
        · intro hsame q hq
          refine (hbelow q hq).mp ?_
          cases hsame with
          | meaning heq =>
            rw [hma, hmb, Meaning.enum.injEq] at heq
            rw [heq.2] at hq
            obtain ⟨j, -, rfl⟩ := (mem_zip_fieldList rfl).mp hq
            exact .meaning rfl
          | @enum _ _ tag fs gs ha hb _ hfields =>
            rw [hma, Meaning.enum.injEq] at ha
            rw [hmb, Meaning.enum.injEq] at hb
            rw [ha.2, hb.2] at hq
            exact hfields q hq
        · intro hall
          exact .enum hma hmb hlen fun q hq ↦ (hbelow q hq).mpr (hall q hq)

end Values

section Building

variable {h h' : Heap} {m : JelloBcModule} {f r : ℕ} {rf : RegFrame} {s s' : Store}
  {v : JelloValue} {ctx : Ctx} {ins : JelloInsn}

/-- There is room for `n` objects at addresses that nothing uses. -/
structure Heap.CanAlloc (h : Heap) (n : ℕ) : Prop where
  free : h.FreeAbove
  room : h.Room n
  next : h.next ≠ 0

/-- A heap in which no other enum has come up, and from which nothing was taken that a field
refers to. -/
structure EnumsKept (h h' : Heap) : Prop where
  old {p : JelloValue} {e : JelloEnum} (hp : h'.cells p = some (.enum e)) :
    h.cells p = some (.enum e)
  live {p : JelloValue} {e : JelloEnum} {i : ℕ} (hp : h'.cells p = some (.enum e))
    (hi : i < e.nfields.toNat) : h'.IsValue (e.fields i)

/-- The stores in which every enum was built by `ENUM_NEW` from the values in registers. -/
inductive Built : Store → Prop
  | empty {s : Store} (h : ∀ p e, s.heap.cells p ≠ some (.enum e)) : Built s
  | enumNew {s s' : Store} (hs : Built s) (ctx : Ctx) (ins : JelloInsn)
      (halloc : s.heap.CanAlloc (ins.rc + 1))
      (hvalues : ∀ r, ins.rb ≤ r → r < ins.rb + ins.rc → ∀ v s₁,
        result (vmBoxFromTyped ctx.m ctx.f ctx.rf r) s = .ok (v, s₁) → s₁.heap.IsValue v)
      (hres : result (opEnumNew ctx ins) s = .ok ((), s')) : Built s'
  | other {s s' : Store} (hs : Built s) (hkept : EnumsKept s.heap s'.heap) : Built s'

theorem EnumsOk.of_none (hno : ∀ p e, h.cells p ≠ some (.enum e)) : EnumsOk h where
  live hp := absurd hp (hno _ _)
  grounded v := ⟨v, fun x hx ↦ by
    obtain ⟨-, e, i, hc, -⟩ := hx
    exact absurd hc (hno _ _)⟩

theorem EnumsOk.kept (hok : EnumsOk h) (hkept : EnumsKept h h') : EnumsOk h' where
  live hp hi := hkept.live hp hi
  grounded v := by
    induction hok.grounded v with
    | intro v _ ih =>
      refine ⟨v, fun x hx ↦ ?_⟩
      obtain ⟨hp, e, i, hc, hi, rfl⟩ := hx
      exact ih _ ⟨hp, e, i, hkept.old hc, hi, rfl⟩

theorem isValue_alloc (hv : h.IsValue v) (c : Cell) : (h.alloc c).2.IsValue v := by
  intro hp
  obtain ⟨h0, hsome⟩ := hv hp
  refine ⟨h0, ?_⟩
  by_cases hn : v = h.next
  · subst hn
    simp [Heap.alloc]
  · rwa [Heap.alloc_of_ne hn]

theorem isValue_next (h0 : h.next ≠ 0) (c : Cell) : (h.alloc c).2.IsValue h.next := by
  intro _
  exact ⟨h0, by simp [Heap.alloc]⟩

theorem EnumsOk.alloc (hok : EnumsOk h) (hfree : h.cells h.next = none) {c : Cell}
    (hc : ∀ e, c = .enum e → ∀ i, i < e.nfields.toNat → h.IsValue (e.fields i)) :
    EnumsOk (h.alloc c).2 where
  live {p e i} hp hi := by
    by_cases hn : p = h.next
    · subst hn
      have hce : c = .enum e := by simpa [Heap.alloc] using hp
      exact isValue_alloc (hc e hce i hi) c
    · rw [Heap.alloc_of_ne hn] at hp
      exact isValue_alloc (hok.live hp hi) c
  grounded v := by
    have hfresh {x : JelloValue} (hx : h.IsValue x) (hp : jelloIsPtr x = true) : x ≠ h.next := by
      rintro rfl
      have hsome := (hx hp).2
      rw [hfree] at hsome
      exact Bool.false_ne_true hsome
    have hold (v : JelloValue) (hv : jelloIsPtr v = true → v ≠ h.next) :
        Acc (h.alloc c).2.Field v := by
      induction hok.grounded v with
      | intro v _ ih =>
        refine ⟨v, fun x hx ↦ ?_⟩
        obtain ⟨hp, e, i, hcell, hi, rfl⟩ := hx
        rw [Heap.alloc_of_ne (hv hp)] at hcell
        exact ih _ ⟨hp, e, i, hcell, hi, rfl⟩ (hfresh (hok.live hcell hi))
    by_cases hn : v = h.next
    · refine ⟨v, fun x hx ↦ ?_⟩
      obtain ⟨hp, e, i, hcell, hi, rfl⟩ := hx
      subst hn
      have hce : c = .enum e := by simpa [Heap.alloc] using hcell
      exact hold _ (hfresh (hc e hce i hi))
    · exact hold v fun _ ↦ hn

theorem Heap.CanAlloc.alloc {n : ℕ} (ha : h.CanAlloc (n + 1)) (c : Cell) :
    (h.alloc c).2.CanAlloc n := by
  have hnext := alloc_next_toNat ha.room (Nat.succ_pos n) c
  have hroom := ha.room
  refine ⟨ha.free.alloc ha.room (Nat.succ_pos n) c, ?_, fun h0 ↦ ?_⟩
  · unfold Heap.Room at hroom ⊢
    omega
  · rw [h0] at hnext
    exact absurd hnext (by change 0 ≠ _; omega)

/-- A register is boxed to a new number, or to a value that its bytes alone determine. -/
theorem vmBoxFromTyped_cases (hres : result (vmBoxFromTyped m f rf r) s = .ok (v, s')) :
    (∃ c, c.num.isSome = true ∧ v = s.heap.next ∧ s' = { s with heap := (s.heap.alloc c).2 }) ∨
      (s' = s ∧ ∀ t : Store, t.mem = s.mem → result (vmBoxFromTyped m f rf r) t = .ok (v, t)) := by
  have hkind (t : Store) := result_vmRegKind m f r t
  rw [vmBoxFromTyped, result_then (hkind s)] at hres
  cases hk : regKind m f r
  case f32 | f16 | i64 | f64 =>
    rw [hk] at hres
    obtain ⟨rfl, rfl⟩ := Prod.mk.inj (Except.ok.inj hres)
    exact .inl ⟨_, rfl, rfl, rfl⟩
  all_goals
    rw [hk] at hres
    obtain ⟨rfl, rfl⟩ := Prod.mk.inj (Except.ok.inj hres)
    refine .inr ⟨rfl, fun t ht ↦ ?_⟩
    rw [vmBoxFromTyped, result_then (hkind t), hk]
    simp only [vmLoadU32, vmLoadVal, vmLoadPtr, vmLoad64, result_bind, result_note, result_read,
      result_pure, Except.bind, ht]

theorem enumFields_ok {t t' : Store} {vs : List JelloValue} {k : ℕ} (n r : ℕ)
    (hok : EnumsOk t.heap) (halloc : t.heap.CanAlloc (k + n)) (hmem : t.mem = s.mem)
    (hgrown : ∀ v, s.heap.IsValue v → t.heap.IsValue v)
    (hvalues : ∀ r', r ≤ r' → r' < r + n → ∀ v s₁,
      result (vmBoxFromTyped ctx.m ctx.f ctx.rf r') s = .ok (v, s₁) → s₁.heap.IsValue v)
    (hres : result (enumFields ctx r n) t = .ok (vs, t')) :
    EnumsOk t'.heap ∧ t'.heap.CanAlloc k ∧ (∀ v, t.heap.IsValue v → t'.heap.IsValue v) ∧
      ∀ v ∈ vs, t'.heap.IsValue v := by
  induction n generalizing r t vs with
  | zero =>
    obtain ⟨rfl, rfl⟩ := Prod.mk.inj (Except.ok.inj hres)
    exact ⟨hok, halloc, fun _ ↦ id, fun v hv ↦ absurd hv List.not_mem_nil⟩
  | succ n ih =>
    rw [enumFields] at hres
    split_ifs at hres
    · exact absurd hres (by simp [panic])
    obtain ⟨v, t₁, hbox, hres⟩ := bind_ok hres
    obtain ⟨vs', t₂, hrest, hres⟩ := bind_ok hres
    obtain ⟨rfl, rfl⟩ := Prod.mk.inj (Except.ok.inj hres)
    have hnext : ∀ r', r + 1 ≤ r' → r' < r + 1 + n → ∀ v s₁,
        result (vmBoxFromTyped ctx.m ctx.f ctx.rf r') s = .ok (v, s₁) → s₁.heap.IsValue v :=
      fun r' hr hlt ↦ hvalues r' (by omega) (by omega)
    rcases vmBoxFromTyped_cases hbox with ⟨c, hc, rfl, rfl⟩ | ⟨rfl, hsame⟩
    · have hfree : t.heap.cells t.heap.next = none := halloc.free _ le_rfl
      have hok₁ : EnumsOk (t.heap.alloc c).2 := hok.alloc hfree fun e he ↦ by
        subst he
        exact absurd hc Bool.false_ne_true
      obtain ⟨hok₂, halloc₂, hkeep, hvs⟩ := ih (t := { t with heap := (t.heap.alloc c).2 })
        (r + 1) hok₁ (halloc.alloc (n := k + n) c) hmem
        (fun w hw ↦ isValue_alloc (hgrown w hw) c) hnext hrest
      refine ⟨hok₂, halloc₂, fun w hw ↦ hkeep w (isValue_alloc hw c), fun w hw ↦ ?_⟩
      rcases List.mem_cons.mp hw with rfl | hw
      · exact hkeep _ (isValue_next halloc.next c)
      · exact hvs w hw
    · have halloc₁ : t₁.heap.CanAlloc (k + n) :=
        ⟨halloc.free, by have hroom := halloc.room; unfold Heap.Room at hroom ⊢; omega,
          halloc.next⟩
      obtain ⟨hok₂, halloc₂, hkeep, hvs⟩ := ih (r + 1) hok halloc₁ hmem hgrown hnext hrest
      refine ⟨hok₂, halloc₂, hkeep, fun w hw ↦ ?_⟩
      rcases List.mem_cons.mp hw with rfl | hw
      · exact hkeep _ (hgrown _ (hvalues r le_rfl (by omega) _ s (hsame s hmem.symm)))
      · exact hvs w hw

/-- `ENUM_NEW` builds no cycles. -/
theorem opEnumNew_ok (hok : EnumsOk s.heap) (halloc : s.heap.CanAlloc (ins.rc + 1))
    (hvalues : ∀ r, ins.rb ≤ r → r < ins.rb + ins.rc → ∀ v s₁,
      result (vmBoxFromTyped ctx.m ctx.f ctx.rf r) s = .ok (v, s₁) → s₁.heap.IsValue v)
    (hres : result (opEnumNew ctx ins) s = .ok ((), s')) : EnumsOk s'.heap := by
  have hnew {t t' : Store} {typeId : ℕ} {tag : UInt32} {fields : List JelloValue} {p : JelloValue}
      (hok : EnumsOk t.heap) (hfree : t.heap.FreeAbove) (hfields : ∀ v ∈ fields, t.heap.IsValue v)
      (hr : result (jelloEnumNew typeId tag fields) t = .ok (p, t')) : EnumsOk t'.heap := by
    obtain ⟨rfl, rfl⟩ := Prod.mk.inj (Except.ok.inj hr)
    refine hok.alloc (hfree _ le_rfl) fun e he i hi ↦ ?_
    obtain rfl := Cell.enum.inj he
    have hlt : i < fields.length :=
      hi.trans_le ((UInt32.toNat_ofNat' (n := fields.length)).trans_le (Nat.mod_le _ _))
    have hget : fields.getD i 0 = fields.get ⟨i, hlt⟩ := by simp [List.getD, hlt]
    change t.heap.IsValue (fields.getD i 0)
    rw [hget]
    exact hfields _ (List.get_mem ..)
  have hstore {t t' : Store} {p : JelloValue} (hok : EnumsOk t.heap)
      (hr : result (vmStorePtr ctx.rf ins.ra p) t = .ok ((), t')) : EnumsOk t'.heap := by
    obtain ⟨-, rfl⟩ := Prod.mk.inj (Except.ok.inj hr)
    exact hok
  rw [opEnumNew] at hres
  obtain ⟨typeId, s₁, hty, hres⟩ := bind_ok hres
  obtain ⟨-, rfl⟩ := Prod.mk.inj (Except.ok.inj hty)
  by_cases hrc : ins.rc = 0
  · rw [if_pos hrc] at hres
    obtain ⟨p, s₂, hintern, hres⟩ := bind_ok hres
    refine hstore ?_ hres
    rw [jelloEnumNullaryIntern] at hintern
    obtain ⟨ntypes, s₃, hn, hintern⟩ := bind_ok hintern
    obtain ⟨-, rfl⟩ := Prod.mk.inj (Except.ok.inj hn)
    split_ifs at hintern
    · exact hnew hok halloc.free (fun v hv ↦ absurd hv List.not_mem_nil) hintern
    · obtain ⟨e, s₃, he, hintern⟩ := bind_ok hintern
      obtain ⟨-, rfl⟩ := Prod.mk.inj (Except.ok.inj he)
      split_ifs at hintern
      · obtain ⟨-, rfl⟩ := Prod.mk.inj (Except.ok.inj hintern)
        exact hok
      · obtain ⟨e', s₃, he', hintern⟩ := bind_ok hintern
        obtain ⟨u, s₄, hset, hintern⟩ := bind_ok hintern
        obtain ⟨-, rfl⟩ := Prod.mk.inj (Except.ok.inj hset)
        obtain ⟨-, rfl⟩ := Prod.mk.inj (Except.ok.inj hintern)
        have hok' := hnew hok halloc.free (fun v hv ↦ absurd hv List.not_mem_nil) he'
        exact hok'
  · rw [if_neg hrc] at hres
    obtain ⟨fields, s₂, hfields, hres⟩ := bind_ok hres
    obtain ⟨p, s₃, hp, hres⟩ := bind_ok hres
    obtain ⟨hok₂, halloc₂, -, hvs⟩ := enumFields_ok (k := 1) ins.rc ins.rb hok
      (by rwa [Nat.add_comm]) rfl (fun _ ↦ id) hvalues hfields
    exact hstore (hnew hok₂ halloc₂.free hvs hp) hres

theorem Built.enumsOk (hs : Built s) : EnumsOk s.heap := by
  induction hs with
  | empty h => exact .of_none h
  | enumNew _ ctx ins halloc hvalues hres ih => exact opEnumNew_ok ih halloc hvalues hres
  | other _ hkept ih => exact ih.kept hkept

end Building

/-- The comparison ends, and returns `r`. -/
def Returns (fpu : Fpu) (s : Store) (a b : JelloValue) (r : Bool) : Prop :=
  ∃ N, ∀ n, N ≤ n → result (valuesEqual fpu n a b) s = .ok (r, s)

section Results

variable {fpu : Fpu} {s : Store} {h : Heap} {a b c : JelloValue} {top : ℤ}

theorem Returns.unique {r r' : Bool} (h : Returns fpu s a b r) (h' : Returns fpu s a b r') :
    r = r' := by
  obtain ⟨N, hN⟩ := h
  obtain ⟨N', hN'⟩ := h'
  have heq := (hN _ (le_max_left N N')).symm.trans (hN' _ (le_max_right N N'))
  exact (Prod.mk.inj (Except.ok.inj heq)).1

/-- With rounds enough, the comparison returns, and it goes by what it makes of the values place by
place. -/
theorem exists_returns (hf : fpu.Ieee) (hround : fpu.RoundsI64) (hok : EnumsOk s.heap)
    (ha : s.heap.Sound a) (hb : s.heap.Sound b) :
    ∃ r, Returns fpu s a b r ∧
      (r = true ↔ All s.heap.parts (s.heap.ReadSame fpu.castTop) (a, b)) := by
  have hsettled := @settles _ s.heap.parts (a, b)
    (fun n p ↦ s.heap.Sound p.1 ∧ s.heap.Sound p.2 →
      ∃ r, result (valuesEqual fpu n p.1 p.2) s = .ok (r, s) ∧
        (r = true ↔ All s.heap.parts (s.heap.ReadSame fpu.castTop) p)) ?_ ?_ (acc_parts hok (a, b))
  · obtain ⟨N, hN⟩ := hsettled
    by_cases hall : All s.heap.parts (s.heap.ReadSame fpu.castTop) (a, b)
    · refine ⟨true, ⟨N, fun n hn ↦ ?_⟩, fun _ ↦ hall, fun _ ↦ rfl⟩
      obtain ⟨r, hr, hiff⟩ := hN n hn ⟨ha, hb⟩
      rw [hr, hiff.mpr hall]
    · refine ⟨false, ⟨N, fun n hn ↦ ?_⟩, fun h ↦ absurd h Bool.false_ne_true,
        fun h ↦ absurd h hall⟩
      obtain ⟨r, hr, hiff⟩ := hN n hn ⟨ha, hb⟩
      rw [hr, Bool.eq_false_iff.mpr (mt hiff.mp hall)]
  · intro n p hsub hs
    obtain ⟨hva, hna⟩ := hs.1 p.1 .refl
    obtain ⟨hvb, hnb⟩ := hs.2 p.2 .refl
    obtain ⟨r, hr, hiff⟩ := result_valuesEqual_leaf (n := n) hf hround hva hvb (by
      rintro v x (rfl | rfl) hx
      · exact hna x hx
      · exact hnb x hx) hsub
    exact ⟨r, hr, hiff.trans (all_none hsub).symm⟩
  · intro n p qs hsub hqs hs
    rw [all_some hsub]
    rcases parts_cases (a := p.1) (b := p.2) hsub with ⟨heq, rfl⟩ |
      ⟨hne, hpa, hpb, ea, eb, hca, hcb, htag, hn, rfl⟩
    · refine ⟨true, ?_, fun _ q hq ↦ absurd hq List.not_mem_nil, fun _ ↦ rfl⟩
      rw [heq]
      exact result_valuesEqual_self fpu n p.2 s
    · rw [result_valuesEqual_enum hne (hs.1 p.1 .refl).1 (hs.2 p.2 .refl).1 hpa hpb hca hcb htag hn]
      obtain ⟨r, hr, hiff⟩ := @result_fieldsEqual s (valuesEqual fpu n) ea eb
        (All s.heap.parts (s.heap.ReadSame fpu.castTop)) ea.nfields.toNat 0 fun j _ hj ↦ by
          have hmem := (mem_zip_fieldList hn).mpr ⟨j, by omega, rfl⟩
          obtain ⟨h1, h2⟩ := field_of_mem_zip hpa hpb hca hcb hn hmem
          exact hqs _ hmem ⟨hs.1.field h1, hs.2.field h2⟩
      refine ⟨r, hr, hiff.trans ?_⟩
      constructor
      · intro hall q hq
        obtain ⟨j, hj, rfl⟩ := (mem_zip_fieldList hn).mp hq
        exact hall j (Nat.zero_le j) (by omega)
      · intro hall j _ hj
        exact hall _ ((mem_zip_fieldList hn).mpr ⟨j, by omega, rfl⟩)

theorem missedAt_meaning {q : JelloValue × JelloValue} (hm : h.MissedAt q) :
    h.meaning q.1 = h.meaning q.2 := by
  obtain ⟨x, y, hx, hy, hxy⟩ := hm
  rw [meaning_of_number hx, meaning_of_number hy, hxy.datum_eq]

theorem confusedAt_meaning {q : JelloValue × JelloValue} (hm : h.ConfusedAt top q) :
    h.meaning q.1 ≠ h.meaning q.2 := by
  obtain ⟨x, y, hx, hy, hxy⟩ := hm
  rw [meaning_of_number hx, meaning_of_number hy]
  exact fun heq ↦ hxy.datum_ne (Meaning.number.inj heq)

theorem readSame_iff (q : JelloValue × JelloValue) :
    h.ReadSame top q ↔
      (h.meaning q.1 = h.meaning q.2 ∧ ¬h.MissedAt q) ∨ h.ConfusedAt top q := by
  by_cases hboth : ∃ x y, h.number q.1 = some x ∧ h.number q.2 = some y
  · obtain ⟨x, y, hx, hy⟩ := hboth
    have hmissed : h.MissedAt q ↔ x.Missed y := by
      constructor
      · rintro ⟨x', y', hx', hy', hm⟩
        obtain rfl := Option.some.inj (hx.symm.trans hx')
        obtain rfl := Option.some.inj (hy.symm.trans hy')
        exact hm
      · exact fun hm ↦ ⟨x, y, hx, hy, hm⟩
    have hconfused : h.ConfusedAt top q ↔ x.Confused top y := by
      constructor
      · rintro ⟨x', y', hx', hy', hm⟩
        obtain rfl := Option.some.inj (hx.symm.trans hx')
        obtain rfl := Option.some.inj (hy.symm.trans hy')
        exact hm
      · exact fun hm ↦ ⟨x, y, hx, hy, hm⟩
    rw [hmissed, hconfused, meaning_of_number hx, meaning_of_number hy, Meaning.number.injEq]
    exact (readSame_of_numbers (a := q.1) (b := q.2) hx hy).trans Num.readEqual_iff
  · have hnone : h.number q.1 = none ∨ h.number q.2 = none := by
      cases hx : h.number q.1 with
      | none => exact .inl rfl
      | some x =>
        cases hy : h.number q.2 with
        | none => exact .inr rfl
        | some y => exact absurd ⟨x, y, hx, hy⟩ hboth
    have hmissed : ¬h.MissedAt q := by
      rintro ⟨x, y, hx, hy, -⟩
      exact hboth ⟨x, y, hx, hy⟩
    have hconfused : ¬h.ConfusedAt top q := by
      rintro ⟨x, y, hx, hy, -⟩
      exact hboth ⟨x, y, hx, hy⟩
    have hmeaning : h.ReadSame top q ↔ _ := readSame_iff_meaning (a := q.1) (b := q.2) hnone
    rw [hmeaning]
    simp [hmissed, hconfused]

theorem all_readSame_iff (hok : EnumsOk h) (p : JelloValue × JelloValue) :
    (All h.parts (h.ReadSame top) p ↔ h.Same p.1 p.2) ↔ h.Discerned top p := by
  rw [same_iff hok p]
  exact all_iff_all (fun q _ ↦ readSame_iff q) (fun q ↦ missedAt_meaning)
    fun q _ ↦ confusedAt_meaning

theorem readSame_swap {q : JelloValue × JelloValue} (hr : h.ReadSame top q) :
    h.ReadSame top q.swap := by
  rcases hr with ⟨x, y, hx, hy, hread⟩ | ⟨hnone, heq⟩
  · exact .inl ⟨y, x, hy, hx, hread.symm⟩
  · exact (readSame_iff_meaning (a := q.2) (b := q.1) (.inr hnone)).mpr heq.symm

theorem parts_swap (p : JelloValue × JelloValue) :
    h.parts p.swap = (h.parts p).map (List.map Prod.swap) := by
  rw [Heap.parts, Heap.parts, Prod.fst_swap, Prod.snd_swap]
  by_cases heq : p.1 = p.2
  · rw [if_pos heq, if_pos heq.symm]
    rfl
  · rw [if_neg heq, if_neg (Ne.symm heq)]
    cases h.meaning p.1 <;> cases h.meaning p.2 <;> try rfl
    next t fs u gs =>
      dsimp only
      by_cases hshape : t = u ∧ fs.length = gs.length
      · rw [if_pos hshape, if_pos ⟨hshape.1.symm, hshape.2.symm⟩, Option.map_some, List.zip_swap]
      · rw [if_neg hshape, if_neg fun h ↦ hshape ⟨h.1.symm, h.2.symm⟩]
        rfl

theorem leaf_swap {p q : JelloValue × JelloValue} (hq : Leaf h.parts p q) :
    Leaf h.parts p.swap q.swap := by
  induction hq with
  | here hsub =>
    refine .here ?_
    rw [parts_swap, hsub]
    rfl
  | step hsub hmem _ ih =>
    refine .step ?_ (List.mem_map_of_mem (f := Prod.swap) hmem) ih
    rw [parts_swap, hsub]
    rfl

theorem all_readSame_swap {p : JelloValue × JelloValue}
    (hall : All h.parts (h.ReadSame top) p) : All h.parts (h.ReadSame top) p.swap := by
  intro q hq
  have hswap := leaf_swap hq
  rw [Prod.swap_swap] at hswap
  have hr := readSame_swap (hall q.swap hswap)
  rwa [Prod.swap_swap] at hr

theorem mem_zip_between {fs gs ks : List JelloValue} {p : JelloValue × JelloValue}
    (hlen : fs.length = gs.length) (hp : p ∈ fs.zip ks) :
    ∃ g, (p.1, g) ∈ fs.zip gs ∧ (g, p.2) ∈ gs.zip ks := by
  obtain ⟨i, hi, rfl⟩ := List.mem_iff_getElem.mp hp
  rw [List.length_zip, lt_min_iff] at hi
  have hg : i < gs.length := hlen ▸ hi.1
  refine ⟨gs.get ⟨i, hg⟩, List.mem_iff_getElem.mpr ⟨i, by simp [hi.1, hg], ?_⟩,
    List.mem_iff_getElem.mpr ⟨i, by simp [hi.2, hg], ?_⟩⟩
  · simp [List.getElem_zip]
  · simp [List.getElem_zip]

theorem Heap.Same.trans (hab : h.Same a b) (hbc : h.Same b c) : h.Same a c := by
  induction hab generalizing c with
  | meaning heq =>
    cases hbc with
    | meaning heq' => exact .meaning (heq.trans heq')
    | enum hb hc hlen hfields => exact .enum (heq.trans hb) hc hlen hfields
  | @enum _ _ _ _ gs ha hb hlen _ ih =>
    cases hbc with
    | meaning heq => exact .enum ha (heq.symm.trans hb) hlen (fun p hp ↦ ih p hp (.meaning rfl))
    | @enum _ _ _ gs' _ hb' hc hlen' hfields =>
      have heq := hb.symm.trans hb'
      rw [Meaning.enum.injEq] at heq
      obtain ⟨rfl, rfl⟩ := heq
      refine .enum ha hc (hlen.trans hlen') fun p hp ↦ ?_
      obtain ⟨g, h1, h2⟩ := mem_zip_between hlen hp
      exact ih _ h1 (hfields _ h2)

end Results

/-- The comparison of two values ends. It returns 1 exactly for values that are equal, if and only
if no numbers of theirs that are misread make a difference. A value equals itself, the order does
not matter, and among values that are told apart in this way equality is transitive. -/
theorem valuesEqual_iff {fpu : Fpu} (hf : fpu.Ieee) (hround : fpu.RoundsI64) {s : Store}
    (hs : Built s) {a b : JelloValue} (ha : s.heap.IsValue a) (hb : s.heap.IsValue b)
    (hna : s.heap.NoNaN a) (hnb : s.heap.NoNaN b) :
    (∃ r, Returns fpu s a b r) ∧
      ((Returns fpu s a b true ↔ s.heap.Same a b) ↔ s.heap.Discerned fpu.castTop (a, b)) ∧
      Returns fpu s a a true ∧ (Returns fpu s a b true → Returns fpu s b a true) ∧
      ∀ c, s.heap.IsValue c → s.heap.NoNaN c → s.heap.Discerned fpu.castTop (a, b) →
        s.heap.Discerned fpu.castTop (b, c) → s.heap.Discerned fpu.castTop (a, c) →
          Returns fpu s a b true → Returns fpu s b c true → Returns fpu s a c true := by
  have hok := hs.enumsOk
  have hiff {a b : JelloValue} (ha : s.heap.IsValue a) (hb : s.heap.IsValue b)
      (hna : s.heap.NoNaN a) (hnb : s.heap.NoNaN b) : (∃ r, Returns fpu s a b r) ∧
      (Returns fpu s a b true ↔ All s.heap.parts (s.heap.ReadSame fpu.castTop) (a, b)) := by
    obtain ⟨r, hr, hall⟩ := exists_returns hf hround hok (sound_of_value hok ha hna)
      (sound_of_value hok hb hnb)
    refine ⟨⟨r, hr⟩, fun htrue ↦ hall.mp (hr.unique htrue), fun h ↦ ?_⟩
    rw [← hall.mpr h]
    exact hr
  have hsame {a b : JelloValue} (ha : s.heap.IsValue a) (hb : s.heap.IsValue b)
      (hna : s.heap.NoNaN a) (hnb : s.heap.NoNaN b) :
      (Returns fpu s a b true ↔ s.heap.Same a b) ↔ s.heap.Discerned fpu.castTop (a, b) := by
    rw [(hiff ha hb hna hnb).2]
    exact all_readSame_iff hok (a, b)
  refine ⟨(hiff ha hb hna hnb).1, hsame ha hb hna hnb, ?_, fun hab ↦ ?_, ?_⟩
  · refine ⟨1, fun n hn ↦ ?_⟩
    obtain ⟨k, rfl⟩ := Nat.exists_eq_add_of_le' hn
    exact result_valuesEqual_self fpu k a s
  · have hall := (hiff ha hb hna hnb).2.mp hab
    exact (hiff hb ha hnb hna).2.mpr (all_readSame_swap hall)
  · intro c hc hnc hdab hdbc hdac hab hbc
    have h1 := ((hsame ha hb hna hnb).mpr hdab).mp hab
    have h2 := ((hsame hb hc hnb hnc).mpr hdbc).mp hbc
    exact ((hsame ha hc hna hnc).mpr hdac).mpr (h1.trans h2)

section Boxes

def boxPair (c d : Cell) : Store :=
  { jelloVmCreate.store with heap := (jelloVmCreate.store.heap.write 16 c).write 32 d }

variable {c d : Cell} {x y : Num}

theorem boxPair_cells (p : JelloValue) : (boxPair c d).heap.cells p =
    if p = 32 then some d else if p = 16 then some c else none := by
  by_cases h32 : p = 32
  · subst h32
    simp [boxPair, Heap.write]
  · by_cases h16 : p = 16
    · subst h16
      simp [boxPair, Heap.write]
    · simp [boxPair, Heap.write, h32, h16, jelloVmCreate]

theorem boxPair_no_enum (hc : c.num = some x) (hd : d.num = some y) (p : JelloValue)
    (e : JelloEnum) : (boxPair c d).heap.cells p ≠ some (.enum e) := by
  rw [boxPair_cells]
  split_ifs
  · intro h
    rw [Option.some.inj h] at hd
    exact absurd hd (Option.some_ne_none y).symm
  · intro h
    rw [Option.some.inj h] at hc
    exact absurd hc (Option.some_ne_none x).symm
  · exact (Option.some_ne_none _).symm

theorem built_boxPair (hc : c.num = some x) (hd : d.num = some y) : Built (boxPair c d) :=
  .empty (boxPair_no_enum hc hd)

theorem boxPair_number (hc : c.num = some x) (hd : d.num = some y) :
    (boxPair c d).heap.number 16 = some x ∧ (boxPair c d).heap.number 32 = some y := by
  have h16 : jelloIsI32 16 = false ∧ jelloIsPtr 16 = true := by decide
  have h32 : jelloIsI32 32 = false ∧ jelloIsPtr 32 = true := by decide
  simp [Heap.number, Heap.numAt, h16, h32, boxPair_cells, hc, hd]

theorem boxPair_isValue : (boxPair c d).heap.IsValue 16 ∧ (boxPair c d).heap.IsValue 32 := by
  refine ⟨fun _ ↦ ⟨by decide, ?_⟩, fun _ ↦ ⟨by decide, ?_⟩⟩
  · rw [boxPair_cells, if_neg (by decide), if_pos rfl]
    rfl
  · rw [boxPair_cells, if_pos rfl]
    rfl

theorem boxPair_noNaN (hc : c.num = some x) (hd : d.num = some y) (hx : x.datum ≠ .nan)
    (hy : y.datum ≠ .nan) :
    (boxPair c d).heap.NoNaN 16 ∧ (boxPair c d).heap.NoNaN 32 := by
  have hself {v w : JelloValue}
      (hv : Relation.ReflTransGen (boxPair c d).heap.Field v w) : v = w := by
    cases hv with
    | refl => rfl
    | tail _ hf =>
      obtain ⟨-, e, i, hcell, -⟩ := hf
      exact absurd hcell (boxPair_no_enum hc hd _ e)
  obtain ⟨h16, h32⟩ := boxPair_number hc hd
  constructor
  · intro v hv n hn
    rw [hself hv, h16] at hn
    rwa [← Option.some.inj hn]
  · intro v hv n hn
    rw [hself hv, h32] at hn
    rwa [← Option.some.inj hn]

theorem boxPair_parts (hc : c.num = some x) (hd : d.num = some y) :
    (boxPair c d).heap.parts (16, 32) = none := by
  obtain ⟨h16, h32⟩ := boxPair_number hc hd
  rw [Heap.parts, if_neg (by decide)]
  simp only [meaning_of_number h16, meaning_of_number h32]

theorem roundsI64_exactFpu : exactFpu.RoundsI64 := by
  intro x
  refine ⟨0, ?_, by decide, by decide⟩
  have hzero : val64 0 = .finite 0 := by decide +kernel
  exact_mod_cast hzero

theorem castTop_exactFpu : exactFpu.castTop = -2 ^ 63 := by decide +kernel

/-- The integer 1 and the double 1 -/
theorem valuesEqual_iff_one :
    Returns exactFpu (boxPair (.boxI64 0 1) (.boxF64 0 0x3ff0000000000000)) 16 32 true := by
  have hone : val64 0x3ff0000000000000 = .finite 1 := by decide +kernel
  have hnum := boxPair_number (c := .boxI64 0 1) (d := .boxF64 0 0x3ff0000000000000) rfl rfl
  have hnan := boxPair_noNaN (c := .boxI64 0 1) (d := .boxF64 0 0x3ff0000000000000) rfl rfl
    Datum.noConfusion (by rw [Num.datum, hone]; exact Datum.noConfusion)
  have hiff := (valuesEqual_iff ieee_exactFpu roundsI64_exactFpu (built_boxPair rfl rfl)
    boxPair_isValue.1 boxPair_isValue.2 hnan.1 hnan.2).2.1
  refine (hiff.mpr (.inr (.inl fun q hq ↦ ?_))).mpr ?_
  · have hself : q = (16, 32) := by
      cases hq with
      | here => rfl
      | step hsub _ _ => cases (boxPair_parts rfl rfl).symm.trans hsub
    subst hself
    constructor
    · rintro ⟨x, y, hx, hy, hxy⟩
      obtain rfl := Option.some.inj (hnum.1.symm.trans hx)
      obtain rfl := Option.some.inj (hnum.2.symm.trans hy)
      rcases hxy with ⟨hd, -⟩ | ⟨hd, -⟩ | ⟨-, -, hval⟩ | ⟨hw, -⟩
      · exact hd
      · exact hd
      · rw [Num.datum, hone] at hval
        exact absurd (Datum.finite.inj hval) (by norm_num)
      · cases hw
    · rintro ⟨x, y, hx, hy, -, hxy⟩
      obtain rfl := Option.some.inj (hnum.1.symm.trans hx)
      obtain rfl := Option.some.inj (hnum.2.symm.trans hy)
      exact hxy.mpr id
  · refine .meaning ?_
    rw [meaning_of_number hnum.1, meaning_of_number hnum.2, Num.datum, Num.datum, hone]
    rfl

/-- The smallest integer of 64 bits equals `2 ^ 63`, where that is cast to the former. -/
theorem twoPow63_equals_min :
    exactFpu.Ieee ∧ exactFpu.RoundsI64 ∧
      ∃ s : Store, Built s ∧ s.heap.IsValue 16 ∧ s.heap.IsValue 32 ∧ s.heap.NoNaN 16 ∧
        s.heap.NoNaN 32 ∧ Returns exactFpu s 16 32 true ∧ ¬s.heap.Same 16 32 := by
  have hnum := boxPair_number (c := .boxI64 0 0x8000000000000000)
    (d := .boxF64 0 0x43e0000000000000) rfl rfl
  have hnan := boxPair_noNaN (c := .boxI64 0 0x8000000000000000)
    (d := .boxF64 0 0x43e0000000000000) rfl rfl Datum.noConfusion
    (by rw [Num.datum, val64_twoPow63]; exact Datum.noConfusion)
  have hbuilt : Built (boxPair (.boxI64 0 0x8000000000000000) (.boxF64 0 0x43e0000000000000)) :=
    built_boxPair rfl rfl
  have hparts : (boxPair (.boxI64 0 0x8000000000000000)
      (.boxF64 0 0x43e0000000000000)).heap.parts (16, 32) = none := boxPair_parts rfl rfl
  have hmin : (0x8000000000000000 : UInt64).toBitVec.toInt = -2 ^ 63 := by decide
  refine ⟨ieee_exactFpu, roundsI64_exactFpu, _, hbuilt, boxPair_isValue.1, boxPair_isValue.2,
    hnan.1, hnan.2, ?_, ?_⟩
  · have hok := hbuilt.enumsOk
    obtain ⟨r, hr, hiff⟩ := exists_returns ieee_exactFpu roundsI64_exactFpu hok
      (sound_of_value hok boxPair_isValue.1 hnan.1) (sound_of_value hok boxPair_isValue.2 hnan.2)
    have htrue : r = true := by
      rw [hiff, all_none hparts, readSame_of_numbers hnum.1 hnum.2]
      refine .inr ⟨?_, ?_⟩
      · exact (Num.asRead_of_not_doubled (x := .f64 0x43e0000000000000) id).trans val64_twoPow63
      · rw [castTop_exactFpu]
        exact hmin
    rwa [htrue] at hr
  · intro hsame
    have hall := (same_iff hbuilt.enumsOk (16, 32)).mp hsame
    rw [all_none hparts, meaning_of_number hnum.1, meaning_of_number hnum.2, Num.datum, Num.datum,
      val64_twoPow63, hmin] at hall
    have hval := Datum.finite.inj (Meaning.number.inj hall)
    norm_num at hval

end Boxes

end JelloVM
