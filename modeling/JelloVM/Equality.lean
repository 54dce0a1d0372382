import JelloVM.Library.Subgoals
import JelloVM.Numeric
import JelloVM.BytesCodec

/-! The equality of dynamic values. -/

namespace JelloVM

open ByteMemory Logged Ieee Subgoals

def bytesContentEqual (a b : JelloValue) : StoreM Bool :=
  if a = b then pure true
  else if a = 0 ∨ b = 0 then pure false
  else do
    let x ← bytesAt a
    let y ← bytesAt b
    if x.length ≠ y.length then pure false
    else pure ((List.range x.length.toNat).all fun i ↦ x.data i == y.data i)

def valueIsNumeric (v : JelloValue) : StoreM Bool :=
  if jelloIsI32 v then pure true
  else do
    let i ← boxI64At v
    let d ← boxF64At v
    let f ← boxF32At v
    let h ← boxF16At v
    pure (i.isSome || d.isSome || f.isSome || h.isSome)

def valueAsF64 (fpu : Fpu) (v : JelloValue) : StoreM (Option UInt64) :=
  if jelloIsI32 v then pure (some (fpu.f64FromI32 (jelloAsI32 v)))
  else do
    match ← boxI64At v with
    | some x => pure (some (fpu.f64FromI64 x))
    | none => do
      match ← boxF64At v with
      | some x => pure (some x)
      | none => do
        match ← boxF32At v with
        | some x => pure (some (fpu.f64FromF32 x))
        | none => do
          match ← boxF16At v with
          | some x => pure (some (fpu.f64FromF32 (vmF16BitsToF32 fpu x)))
          | none => pure none

def valueAsExactI64 (v : JelloValue) : StoreM (Option UInt64) :=
  if jelloIsI32 v then pure (some (sextI64 (jelloAsI32 v)))
  else boxI64At v

def numericValuesEqual (fpu : Fpu) (a b : JelloValue) : StoreM Bool := do
  let aInt ← valueAsExactI64 a
  let bInt ← valueAsExactI64 b
  match aInt, bInt with
  | some ai, some bi => pure (ai == bi)
  | some ai, none => do
    match ← valueAsF64 fpu b with
    | none => pure false
    | some bf =>
      match f64IsExactI64 fpu bf with
      | some bi => pure (ai == bi)
      | none => pure (fpu.eq64 (fpu.f64FromI64 ai) bf)
  | none, some bi => do
    match ← valueAsF64 fpu a with
    | none => pure false
    | some af =>
      match f64IsExactI64 fpu af with
      | some ai => pure (ai == bi)
      | none => pure (fpu.eq64 af (fpu.f64FromI64 bi))
  | none, none => do
    let af ← valueAsF64 fpu a
    let bf ← valueAsF64 fpu b
    match af, bf with
    | some x, some y => pure (fpu.eq64 x y)
    | _, _ => pure false

/-- The fields `i`, `i + 1`, ..., `i + n - 1` of two enums, compared by `eq` until two differ. -/
def fieldsEqual (eq : JelloValue → JelloValue → StoreM Bool) (ea eb : JelloEnum) :
    ℕ → ℕ → StoreM Bool
  | _, 0 => pure true
  | i, n + 1 => do
    let same ← eq (ea.fields i) (eb.fields i)
    if !same then pure false
    else fieldsEqual eq ea eb (i + 1) n

/-- `values_equal`; the first argument bounds the depth of the recursion. -/
def valuesEqual (fpu : Fpu) : ℕ → JelloValue → JelloValue → StoreM Bool
  | 0, _, _ => fail .diverge
  | n + 1, a, b =>
    if a = b then pure true
    else if jelloIsNull a || jelloIsNull b then pure (jelloIsNull a && jelloIsNull b)
    else if jelloIsBool a || jelloIsBool b then
      pure (jelloIsBool a && jelloIsBool b && jelloAsBool a == jelloAsBool b)
    else do
      let aNum ← valueIsNumeric a
      let bNum ← valueIsNumeric b
      if aNum || bNum then
        if !aNum || !bNum then pure false
        else numericValuesEqual fpu a b
      else if jelloIsAtom a || jelloIsAtom b then
        pure (jelloIsAtom a && jelloIsAtom b && jelloAsAtom a == jelloAsAtom b)
      else if !(jelloIsPtr a && jelloIsPtr b) then pure false
      else do
        let ka ← jelloObjKindOf a
        let kb ← jelloObjKindOf b
        if ka = 1 ∧ kb = 1 then bytesContentEqual a b
        else if ka = 11 ∧ kb = 11 then do
          let ea ← enumAt a
          let eb ← enumAt b
          if ea.tag ≠ eb.tag then pure false
          else if ea.nfields ≠ eb.nfields then pure false
          else fieldsEqual (valuesEqual fpu n) ea eb 0 ea.nfields.toNat
        else pure false

section Meanings

/-- What a value stands for. Of the objects with an identity it is the address. -/
inductive Meaning
  | null
  | bool (b : Bool)
  | number (d : Datum)
  | atom (k : UInt32)
  | bytes (data : List UInt8)
  | enum (tag : UInt32) (fields : List JelloValue)
  | object (v : JelloValue)

def JelloEnum.fieldList (e : JelloEnum) : List JelloValue :=
  (List.range e.nfields.toNat).map e.fields

def Cell.meaning (v : JelloValue) : Cell → Meaning
  | .bytes b => .bytes ((List.range b.length.toNat).map b.data)
  | .enum e => .enum e.tag e.fieldList
  | c => c.num.elim (.object v) fun n ↦ .number n.datum

def Heap.meaning (h : Heap) (v : JelloValue) : Meaning :=
  if jelloIsNull v then .null
  else if jelloIsBool v then .bool (jelloAsBool v)
  else if jelloIsI32 v then .number (Num.word (jelloAsI32 v)).datum
  else if jelloIsAtom v then .atom (jelloAsAtom v)
  else if jelloIsPtr v then (h.cells v).elim (.object v) (Cell.meaning v)
  else .object v

/-- The equality of values that the language means. -/
inductive Heap.Same (h : Heap) : JelloValue → JelloValue → Prop
  | meaning {a b : JelloValue} (heq : h.meaning a = h.meaning b) : Same h a b
  | enum {a b : JelloValue} {tag : UInt32} {fs gs : List JelloValue}
      (ha : h.meaning a = .enum tag fs) (hb : h.meaning b = .enum tag gs)
      (hlen : fs.length = gs.length) (hfields : ∀ p ∈ fs.zip gs, Same h p.1 p.2) : Same h a b

/-- The number that a value is. -/
def Heap.number (h : Heap) (v : JelloValue) : Option Num :=
  if jelloIsI32 v then some (.word (jelloAsI32 v)) else h.numAt v

/-- The pairs of fields that two enums have to be compared by; a value is equal to itself. -/
def Heap.parts (h : Heap) (p : JelloValue × JelloValue) :
    Option (List (JelloValue × JelloValue)) :=
  if p.1 = p.2 then some []
  else
    match h.meaning p.1, h.meaning p.2 with
    | .enum t fs, .enum u gs => if t = u ∧ fs.length = gs.length then some (fs.zip gs) else none
    | _, _ => none

/-- The pair is one of two numbers that are equal, of which one is not read as what it is. -/
def Heap.MissedAt (h : Heap) (p : JelloValue × JelloValue) : Prop :=
  ∃ x y, h.number p.1 = some x ∧ h.number p.2 = some y ∧ x.Missed y

/-- The pair is one of two numbers of which one is read as the other. -/
def Heap.ConfusedAt (h : Heap) (top : ℤ) (p : JelloValue × JelloValue) : Prop :=
  ∃ x y, h.number p.1 = some x ∧ h.number p.2 = some y ∧ x.Confused top y

/-- No numbers at the same place of the two values are misread, or what is misread makes no
difference: the values differ in some other place, or numbers are misread both ways. -/
def Heap.Discerned (h : Heap) (top : ℤ) (p : JelloValue × JelloValue) : Prop :=
  (∃ q, Leaf h.parts p q ∧ h.meaning q.1 ≠ h.meaning q.2 ∧ ¬h.ConfusedAt top q) ∨
    (∀ q, Leaf h.parts p q → ¬h.ConfusedAt top q ∧ ¬h.MissedAt q) ∨
      ((∃ q, Leaf h.parts p q ∧ h.ConfusedAt top q) ∧ ∃ q, Leaf h.parts p q ∧ h.MissedAt q)

def Heap.IsValue (h : Heap) (v : JelloValue) : Prop :=
  jelloIsPtr v = true → v ≠ 0 ∧ (h.cells v).isSome

/-- `x` is a field of the enum `v`. -/
def Heap.Field (h : Heap) (x v : JelloValue) : Prop :=
  jelloIsPtr v = true ∧ ∃ e i, h.cells v = some (.enum e) ∧ i < e.nfields.toNat ∧ e.fields i = x

def Heap.NoNaN (h : Heap) (v : JelloValue) : Prop :=
  ∀ x, Relation.ReflTransGen h.Field x v → ∀ n, h.number x = some n → n.datum ≠ .nan

end Meanings

section Tags

variable {v : JelloValue} {t u : JelloTag}

theorem hasTag_iff : hasTag t v = true ↔ v &&& 7 = t.code := beq_iff_eq

theorem hasTag_unique (h : hasTag t v = true) (hne : u ≠ t) : hasTag u v = false := by
  rw [hasTag_iff] at h
  rw [Bool.eq_false_iff, ne_eq, hasTag_iff, h]
  intro hcode
  cases t <;> cases u <;> first | exact hne rfl | exact absurd hcode (by decide)

end Tags

section Reading

variable {fpu : Fpu} {s : Store} {v a b : JelloValue} {x y : Num}

theorem result_boxes (hv : jelloIsPtr v = true → (s.heap.cells v).isSome) :
    result (boxI64At v) s = .ok ((s.heap.numAt v).bind Num.asI64, s) ∧
      result (boxF64At v) s = .ok ((s.heap.numAt v).bind Num.asF64, s) ∧
        result (boxF32At v) s = .ok ((s.heap.numAt v).bind Num.asF32, s) ∧
          result (boxF16At v) s = .ok ((s.heap.numAt v).bind Num.asF16, s) := by
  cases hp : jelloIsPtr v with
  | false =>
    have hnum : s.heap.numAt v = none := by simp [Heap.numAt, hp]
    simp [boxI64At, boxF64At, boxF32At, boxF16At, hp, hnum]
  | true =>
    obtain ⟨c, hc⟩ := Option.isSome_iff_exists.mp (hv hp)
    have hnum : s.heap.numAt v = c.num := by simp [Heap.numAt, hp, hc]
    simp only [boxI64At, boxF64At, boxF32At, boxF16At, hp, Bool.not_true, Bool.false_eq_true,
      if_false, result_bind, result_cellAt hc, Except.bind, hnum]
    cases c <;> exact ⟨rfl, rfl, rfl, rfl⟩

theorem result_valueIsNumeric (hv : s.heap.IsValue v) :
    result (valueIsNumeric v) s = .ok ((s.heap.number v).isSome, s) := by
  obtain ⟨h1, h2, h3, h4⟩ := result_boxes fun hp ↦ (hv hp).2
  rw [valueIsNumeric, Heap.number]
  cases hi : jelloIsI32 v with
  | true => rfl
  | false =>
    simp only [Bool.false_eq_true, if_false, result_bind, h1, h2, h3, h4, Except.bind]
    cases hn : s.heap.numAt v with
    | none => rfl
    | some n =>
      cases n with
      | word w =>
        obtain ⟨-, c, -, hc⟩ := numAt_eq_some.mp hn
        cases c <;> simp [Cell.num] at hc
      | _ => rfl

/-- The integer that `value_as_exact_i64` gives. -/
def Num.exactI64 : Num → Option UInt64
  | .word x => some (sextI64 x)
  | .i64 x => some x
  | _ => none

/-- The double that `value_as_f64` gives. -/
def Num.toF64 (fpu : Fpu) : Num → UInt64
  | .word x => fpu.f64FromI32 x
  | .i64 x => fpu.f64FromI64 x
  | .f64 x => x
  | .f32 x => fpu.f64FromF32 x
  | .f16 x => fpu.f64FromF32 (vmF16BitsToF32 fpu x)

theorem number_of_i32 (hi : jelloIsI32 v = true) (hx : s.heap.number v = some x) :
    x = .word (jelloAsI32 v) := by
  rw [Heap.number, hi, if_pos rfl] at hx
  exact (Option.some.inj hx).symm

theorem number_of_box (hi : jelloIsI32 v = false) (hx : s.heap.number v = some x) :
    s.heap.numAt v = some x ∧ ∀ w, x ≠ .word w := by
  rw [Heap.number, hi, if_neg Bool.false_ne_true] at hx
  refine ⟨hx, fun w hw ↦ ?_⟩
  obtain ⟨-, c, -, hc⟩ := numAt_eq_some.mp hx
  rw [hw] at hc
  cases c <;> simp [Cell.num] at hc

theorem isSome_of_numAt (hx : s.heap.numAt v = some x) : (s.heap.cells v).isSome := by
  obtain ⟨-, c, hc, -⟩ := numAt_eq_some.mp hx
  rw [hc]
  rfl

theorem result_valueAsExactI64 (hx : s.heap.number v = some x) :
    result (valueAsExactI64 v) s = .ok (x.exactI64, s) := by
  rw [valueAsExactI64]
  cases hi : jelloIsI32 v with
  | true =>
    obtain rfl := number_of_i32 hi hx
    rfl
  | false =>
    obtain ⟨hn, hword⟩ := number_of_box hi hx
    obtain ⟨h1, -⟩ := result_boxes fun _ ↦ isSome_of_numAt hn
    rw [if_neg Bool.false_ne_true, h1, hn]
    cases x with
    | word w => exact absurd rfl (hword w)
    | _ => rfl

theorem result_valueAsF64 (hx : s.heap.number v = some x) :
    result (valueAsF64 fpu v) s = .ok (some (x.toF64 fpu), s) := by
  rw [valueAsF64]
  cases hi : jelloIsI32 v with
  | true =>
    obtain rfl := number_of_i32 hi hx
    rfl
  | false =>
    obtain ⟨hn, hword⟩ := number_of_box hi hx
    obtain ⟨h1, h2, h3, h4⟩ := result_boxes fun _ ↦ isSome_of_numAt hn
    rw [if_neg Bool.false_ne_true]
    rw [hn] at h1 h2 h3 h4
    cases x with
    | word w => exact absurd rfl (hword w)
    | i64 w => rw [result_then h1]; rfl
    | f64 w => rw [result_then h1]; exact (result_then h2).trans rfl
    | f32 w =>
      rw [result_then h1]
      exact (result_then h2).trans ((result_then h3).trans rfl)
    | f16 w =>
      rw [result_then h1]
      exact (result_then h2).trans ((result_then h3).trans ((result_then h4).trans rfl))

theorem toInt_sextI64 (w : UInt32) : (sextI64 w).toBitVec.toInt = w.toBitVec.toInt := by
  change (BitVec.signExtend 64 w.toBitVec).toInt = _
  exact BitVec.toInt_signExtend_of_le (by decide)

theorem exactI64_some {i : UInt64} (h : x.exactI64 = some i) : x.whole = some i.toBitVec.toInt := by
  cases x with
  | word w =>
    obtain rfl := Option.some.inj h
    rw [toInt_sextI64]
    rfl
  | i64 w =>
    obtain rfl := Option.some.inj h
    rfl
  | _ => exact absurd h (Option.some_ne_none i).symm

theorem exactI64_none (h : x.exactI64 = none) : x.whole = none := by
  cases x with
  | word w => exact absurd h (Option.some_ne_none _)
  | i64 w => exact absurd h (Option.some_ne_none _)
  | _ => rfl

theorem val64_toF64 (hf : fpu.Ieee) (hx : x.whole = none) (hnan : x.datum ≠ .nan) :
    val64 (x.toF64 fpu) = x.asRead := by
  cases x with
  | word w => exact absurd hx (Option.some_ne_none _)
  | i64 w => exact absurd hx (Option.some_ne_none _)
  | f64 w => exact (Num.asRead_of_not_doubled (x := .f64 w) id).symm
  | f32 w => exact (hf.f64FromF32 w).trans (Num.asRead_of_not_doubled (x := .f32 w) id).symm
  | f16 w => exact (hf.f64FromF32 _).trans (val32_asRead hf w hnan)

theorem datum_eq_iff {d d' : Datum} (hd : d ≠ .nan) : d.eq d' = true ↔ d = d' := by
  cases d <;> cases d' <;> simp [Datum.eq] at hd ⊢

theorem datum_eq_comm (d d' : Datum) : d.eq d' = d'.eq d := by
  cases d <;> cases d' <;> simp [Datum.eq, eq_comm]

theorem twice_ne_nan {d : Datum} (hd : d ≠ .nan) : twice d ≠ .nan := by
  cases d <;> simp [twice] at hd ⊢

theorem asRead_ne_nan (hnan : x.datum ≠ .nan) : x.asRead ≠ .nan := by
  rw [Num.asRead]
  split_ifs
  · exact twice_ne_nan hnan
  · exact hnan

theorem result_numericValuesEqual (hf : fpu.Ieee) (hround : fpu.RoundsI64)
    (hx : s.heap.number a = some x) (hy : s.heap.number b = some y) (hnx : x.datum ≠ .nan)
    (hny : y.datum ≠ .nan) :
    ∃ r, result (numericValuesEqual fpu a b) s = .ok (r, s) ∧
      (r = true ↔ x.ReadEqual fpu.castTop y) := by
  rw [numericValuesEqual, result_then (result_valueAsExactI64 hx),
    result_then (result_valueAsExactI64 hy)]
  cases hxi : x.exactI64 with
  | some i =>
    have hwx := exactI64_some hxi
    cases hyi : y.exactI64 with
    | some j =>
      refine ⟨i == j, rfl, ?_⟩
      rw [Num.ReadEqual, hwx, exactI64_some hyi, beq_iff_eq, ← toInt_inj]
    | none =>
      have hwy := exactI64_none hyi
      refine ⟨intEqualsF64 fpu i (y.toF64 fpu), ?_, ?_⟩
      · refine (result_then (result_valueAsF64 hy)).trans ?_
        rw [intEqualsF64]
        dsimp only
        cases f64IsExactI64 fpu (y.toF64 fpu) <;> rfl
      · rw [intEqualsF64_iff hf hround, val64_toF64 hf hwy hny, Num.ReadEqual, hwx, hwy]
  | none =>
    have hwx := exactI64_none hxi
    cases hyi : y.exactI64 with
    | some j =>
      have hwy := exactI64_some hyi
      refine ⟨intEqualsF64 fpu j (x.toF64 fpu), ?_, ?_⟩
      · refine (result_then (result_valueAsF64 hx)).trans ?_
        rw [intEqualsF64]
        dsimp only
        cases f64IsExactI64 fpu (x.toF64 fpu) with
        | some i => exact congrArg (fun r ↦ Except.ok (r, s)) (Bool.beq_comm)
        | none =>
          refine congrArg (fun r ↦ Except.ok (r, s)) ?_
          rw [hf.eq64, hf.eq64, datum_eq_comm]
      · rw [intEqualsF64_iff hf hround, val64_toF64 hf hwx hnx, Num.ReadEqual, hwx, hwy]
    | none =>
      have hwy := exactI64_none hyi
      refine ⟨fpu.eq64 (x.toF64 fpu) (y.toF64 fpu), ?_, ?_⟩
      · rw [result_then (result_valueAsF64 hx), result_then (result_valueAsF64 hy)]
        rfl
      · rw [hf.eq64, val64_toF64 hf hwx hnx, val64_toF64 hf hwy hny,
          datum_eq_iff (asRead_ne_nan hnx), Num.ReadEqual, hwx, hwy]

end Reading

section Leaves

variable {fpu : Fpu} {s : Store} {h : Heap} {v a b : JelloValue} {x y : Num}

theorem meaning_of_number (hx : h.number v = some x) : h.meaning v = .number x.datum := by
  rw [Heap.number] at hx
  cases hi : jelloIsI32 v with
  | true =>
    rw [hi, if_pos rfl] at hx
    obtain rfl := Option.some.inj hx
    have hnull : jelloIsNull v = false := hasTag_unique hi (by decide)
    have hbool : jelloIsBool v = false := hasTag_unique hi (by decide)
    simp [Heap.meaning, hnull, hbool, hi]
  | false =>
    rw [hi, if_neg Bool.false_ne_true] at hx
    obtain ⟨hp, c, hc, hn⟩ := numAt_eq_some.mp hx
    have hnull : jelloIsNull v = false := hasTag_unique hp (by decide)
    have hbool : jelloIsBool v = false := hasTag_unique hp (by decide)
    have hatom : jelloIsAtom v = false := hasTag_unique hp (by decide)
    have hcell : c.meaning v = .number x.datum := by
      cases c <;> simp only [Cell.num, reduceCtorEq, Option.some.injEq] at hn <;> subst hn <;> rfl
    simp [Heap.meaning, hnull, hbool, hi, hatom, hp, hc, hcell]

theorem meaning_of_cell {c : Cell} (hp : jelloIsPtr v = true) (hc : h.cells v = some c) :
    h.meaning v = c.meaning v := by
  have hnull : jelloIsNull v = false := hasTag_unique hp (by decide)
  have hbool : jelloIsBool v = false := hasTag_unique hp (by decide)
  have hi : jelloIsI32 v = false := hasTag_unique hp (by decide)
  have hatom : jelloIsAtom v = false := hasTag_unique hp (by decide)
  simp [Heap.meaning, hnull, hbool, hi, hatom, hp, hc]

/-- The ways a value can be tested, one after the other. -/
inductive Heap.Tested (h : Heap) (v : JelloValue) : Meaning → Prop
  | null (htag : jelloIsNull v = true) : Tested h v .null
  | bool (htag : jelloIsBool v = true) : Tested h v (.bool (jelloAsBool v))
  | number {x : Num} (hx : h.number v = some x) : Tested h v (.number x.datum)
  | atom (htag : jelloIsAtom v = true) : Tested h v (.atom (jelloAsAtom v))
  | bytes {b : JelloBytes} (hp : jelloIsPtr v = true) (hc : h.cells v = some (.bytes b)) :
      Tested h v (.bytes ((List.range b.length.toNat).map b.data))
  | enum {e : JelloEnum} (hp : jelloIsPtr v = true) (hc : h.cells v = some (.enum e)) :
      Tested h v (.enum e.tag e.fieldList)
  | object : Tested h v (.object v)

theorem tested (h : Heap) (v : JelloValue) : h.Tested v (h.meaning v) := by
  cases hnull : jelloIsNull v with
  | true =>
    have hm : h.meaning v = .null := by simp [Heap.meaning, hnull]
    rw [hm]
    exact .null hnull
  | false =>
  cases hbool : jelloIsBool v with
  | true =>
    have hm : h.meaning v = .bool (jelloAsBool v) := by simp [Heap.meaning, hnull, hbool]
    rw [hm]
    exact .bool hbool
  | false =>
  cases hx : h.number v with
  | some x =>
    rw [meaning_of_number hx]
    exact .number hx
  | none =>
  have hi : jelloIsI32 v = false := by
    cases hi : jelloIsI32 v with
    | true => simp [Heap.number, hi] at hx
    | false => rfl
  have hnum : h.numAt v = none := by simpa [Heap.number, hi] using hx
  cases hatom : jelloIsAtom v with
  | true =>
    have hm : h.meaning v = .atom (jelloAsAtom v) := by
      simp [Heap.meaning, hnull, hbool, hi, hatom]
    rw [hm]
    exact .atom hatom
  | false =>
  cases hp : jelloIsPtr v with
  | false =>
    have hm : h.meaning v = .object v := by simp [Heap.meaning, hnull, hbool, hi, hatom, hp]
    rw [hm]
    exact .object
  | true =>
  cases hc : h.cells v with
  | none =>
    have hm : h.meaning v = .object v := by simp [Heap.meaning, hnull, hbool, hi, hatom, hp, hc]
    rw [hm]
    exact .object
  | some c =>
    have hcn : c.num = none := by simpa [Heap.numAt, hp, hc] using hnum
    rw [meaning_of_cell hp hc]
    cases c with
    | bytes b => exact .bytes hp hc
    | enum e => exact .enum hp hc
    | boxI64 t w => exact absurd hcn (Option.some_ne_none _)
    | boxF64 t w => exact absurd hcn (Option.some_ne_none _)
    | boxF32 t w => exact absurd hcn (Option.some_ne_none _)
    | boxF16 t w => exact absurd hcn (Option.some_ne_none _)
    | _ => exact .object

theorem meaning_null_iff : h.meaning v = .null ↔ jelloIsNull v = true := by
  have ht := tested h v
  constructor
  · intro hm
    rw [hm] at ht
    cases ht with
    | null htag => exact htag
  · intro hnull
    simp [Heap.meaning, hnull]

theorem meaning_bool_iff {x : Bool} :
    h.meaning v = .bool x ↔ jelloIsBool v = true ∧ jelloAsBool v = x := by
  have ht := tested h v
  constructor
  · intro hm
    rw [hm] at ht
    cases ht with
    | bool htag => exact ⟨htag, rfl⟩
  · rintro ⟨hbool, rfl⟩
    have hnull : jelloIsNull v = false := hasTag_unique hbool (by decide)
    simp [Heap.meaning, hnull, hbool]

theorem meaning_atom_iff {k : UInt32} :
    h.meaning v = .atom k ↔ jelloIsAtom v = true ∧ jelloAsAtom v = k := by
  have ht := tested h v
  constructor
  · intro hm
    rw [hm] at ht
    cases ht with
    | atom htag => exact ⟨htag, rfl⟩
  · rintro ⟨hatom, rfl⟩
    have hnull : jelloIsNull v = false := hasTag_unique hatom (by decide)
    have hbool : jelloIsBool v = false := hasTag_unique hatom (by decide)
    have hi : jelloIsI32 v = false := hasTag_unique hatom (by decide)
    simp [Heap.meaning, hnull, hbool, hi, hatom]

theorem number_of_meaning {d : Datum} (hm : h.meaning v = .number d) :
    ∃ x, h.number v = some x ∧ x.datum = d := by
  have ht := tested h v
  rw [hm] at ht
  cases ht with
  | number hx => exact ⟨_, hx, rfl⟩

theorem object_of_meaning {w : JelloValue} (hm : h.meaning v = .object w) : w = v := by
  have ht := tested h v
  rw [hm] at ht
  cases ht with
  | object => rfl

theorem bytes_of_meaning {l : List UInt8} (hm : h.meaning v = .bytes l) :
    ∃ b, h.cells v = some (.bytes b) ∧ (List.range b.length.toNat).map b.data = l := by
  have ht := tested h v
  rw [hm] at ht
  cases ht with
  | bytes _ hc => exact ⟨_, hc, rfl⟩

theorem enum_of_meaning {tag : UInt32} {fs : List JelloValue} (hm : h.meaning v = .enum tag fs) :
    jelloIsPtr v = true ∧ ∃ e, h.cells v = some (.enum e) ∧ e.tag = tag ∧ e.fieldList = fs := by
  have ht := tested h v
  rw [hm] at ht
  cases ht with
  | enum hp hc => exact ⟨hp, _, hc, rfl, rfl⟩

theorem number_none_of_tag {t : JelloTag} (ht : hasTag t v = true) (hi : t ≠ .i32)
    (hp : t ≠ .ptr) : h.number v = none := by
  have hi32 : jelloIsI32 v = false := hasTag_unique ht hi.symm
  have hptr : jelloIsPtr v = false := hasTag_unique ht hp.symm
  simp [Heap.number, Heap.numAt, hi32, hptr]

/-- What the comparison makes of two values that are not compared field by field. -/
def Heap.ReadSame (h : Heap) (top : ℤ) (p : JelloValue × JelloValue) : Prop :=
  (∃ x y, h.number p.1 = some x ∧ h.number p.2 = some y ∧ x.ReadEqual top y) ∨
    (h.number p.1 = none ∧ h.meaning p.1 = h.meaning p.2)

theorem readSame_iff_meaning {top : ℤ} (hnone : h.number a = none ∨ h.number b = none) :
    h.ReadSame top (a, b) ↔ h.meaning a = h.meaning b := by
  constructor
  · rintro (⟨x, y, hx, hy, -⟩ | ⟨-, heq⟩)
    · rcases hnone with ha | hb
      · exact absurd (ha.symm.trans hx) (Option.some_ne_none x).symm
      · exact absurd (hb.symm.trans hy) (Option.some_ne_none y).symm
    · exact heq
  · intro heq
    refine .inr ⟨?_, heq⟩
    rcases hnone with ha | hb
    · exact ha
    · cases ha : h.number a with
      | none => rfl
      | some x =>
        obtain ⟨y, hy, -⟩ := number_of_meaning (heq.symm.trans (meaning_of_number ha))
        exact absurd (hb.symm.trans hy) (Option.some_ne_none y).symm

theorem readSame_of_numbers {top : ℤ} (hx : h.number a = some x) (hy : h.number b = some y) :
    h.ReadSame top (a, b) ↔ x.ReadEqual top y := by
  constructor
  · rintro (⟨x', y', hx', hy', hread⟩ | ⟨hnone, -⟩)
    · obtain rfl := Option.some.inj (hx.symm.trans hx')
      obtain rfl := Option.some.inj (hy.symm.trans hy')
      exact hread
    · exact absurd (hnone.symm.trans hx) (Option.some_ne_none x).symm
  · intro hread
    exact .inl ⟨x, y, hx, hy, hread⟩

theorem bytesEqual_iff {x y : JelloBytes} (hlen : x.length = y.length) :
    ((List.range x.length.toNat).all fun i ↦ x.data i == y.data i) = true ↔
      (List.range x.length.toNat).map x.data = (List.range y.length.toNat).map y.data := by
  rw [List.all_eq_true, ← hlen, List.map_inj_left]
  exact forall_congr' fun i ↦ forall_congr' fun _ ↦ beq_iff_eq

theorem result_bytesContentEqual {x y : JelloBytes} (hne : a ≠ b) (ha0 : a ≠ 0) (hb0 : b ≠ 0)
    (ha : s.heap.cells a = some (.bytes x)) (hb : s.heap.cells b = some (.bytes y)) :
    ∃ r, result (bytesContentEqual a b) s = .ok (r, s) ∧
      (r = true ↔ (List.range x.length.toNat).map x.data =
        (List.range y.length.toNat).map y.data) := by
  rw [bytesContentEqual, if_neg hne, if_neg (by simp [ha0, hb0]), result_then (result_bytesAt ha),
    result_then (result_bytesAt hb)]
  by_cases hlen : x.length = y.length
  · rw [if_neg (not_not.mpr hlen)]
    exact ⟨_, rfl, bytesEqual_iff hlen⟩
  · rw [if_pos hlen]
    refine ⟨false, rfl, ?_⟩
    constructor
    · intro h'
      exact absurd h' Bool.false_ne_true
    · intro heq
      have hcount := congrArg List.length heq
      simp only [List.length_map, List.length_range] at hcount
      exact absurd (UInt32.toNat_inj.mp hcount) hlen

end Leaves

section Rounds

variable {fpu : Fpu} {s : Store} {a b : JelloValue} {n : ℕ}

/-- The part of a round after the tests for numbers. -/
def objectsEqual (fpu : Fpu) (n : ℕ) (a b : JelloValue) : StoreM Bool :=
  if jelloIsAtom a || jelloIsAtom b then
    pure (jelloIsAtom a && jelloIsAtom b && jelloAsAtom a == jelloAsAtom b)
  else if !(jelloIsPtr a && jelloIsPtr b) then pure false
  else do
    let ka ← jelloObjKindOf a
    let kb ← jelloObjKindOf b
    if ka = 1 ∧ kb = 1 then bytesContentEqual a b
    else if ka = 11 ∧ kb = 11 then do
      let ea ← enumAt a
      let eb ← enumAt b
      if ea.tag ≠ eb.tag then pure false
      else if ea.nfields ≠ eb.nfields then pure false
      else fieldsEqual (valuesEqual fpu n) ea eb 0 ea.nfields.toNat
    else pure false

theorem result_valuesEqual_self (fpu : Fpu) (n : ℕ) (a : JelloValue) (s : Store) :
    result (valuesEqual fpu (n + 1) a a) s = .ok (true, s) := by
  rw [valuesEqual, if_pos rfl]
  rfl

/-- Values that are neither null nor booleans are compared as numbers or as objects. -/
theorem result_valuesEqual_tested (hne : a ≠ b) (hva : s.heap.IsValue a) (hvb : s.heap.IsValue b)
    (hna : jelloIsNull a = false) (hnb : jelloIsNull b = false) (hba : jelloIsBool a = false)
    (hbb : jelloIsBool b = false) :
    result (valuesEqual fpu (n + 1) a b) s =
      if (s.heap.number a).isSome || (s.heap.number b).isSome then
        if (s.heap.number a).isSome && (s.heap.number b).isSome then
          result (numericValuesEqual fpu a b) s
        else .ok (false, s)
      else result (objectsEqual fpu n a b) s := by
  rw [valuesEqual, if_neg hne, hna, hnb, hba, hbb, Bool.or_self, if_neg Bool.false_ne_true,
    if_neg Bool.false_ne_true, result_then (result_valueIsNumeric hva),
    result_then (result_valueIsNumeric hvb)]
  cases (s.heap.number a).isSome <;> cases (s.heap.number b).isSome <;> rfl

theorem result_objectsEqual {ca cb : Cell} (hpa : jelloIsPtr a = true) (hpb : jelloIsPtr b = true)
    (hca : s.heap.cells a = some ca) (hcb : s.heap.cells b = some cb) :
    result (objectsEqual fpu n a b) s =
      if ca.kind = 1 ∧ cb.kind = 1 then result (bytesContentEqual a b) s
      else if ca.kind = 11 ∧ cb.kind = 11 then
        result (do
          let ea ← enumAt a
          let eb ← enumAt b
          if ea.tag ≠ eb.tag then pure false
          else if ea.nfields ≠ eb.nfields then pure false
          else fieldsEqual (valuesEqual fpu n) ea eb 0 ea.nfields.toNat) s
      else .ok (false, s) := by
  have hta : jelloIsAtom a = false := hasTag_unique hpa (by decide)
  have htb : jelloIsAtom b = false := hasTag_unique hpb (by decide)
  have hka : result (jelloObjKindOf a) s = .ok (ca.kind, s) := by
    rw [jelloObjKindOf, result_then (result_cellAt hca)]
    rfl
  have hkb : result (jelloObjKindOf b) s = .ok (cb.kind, s) := by
    rw [jelloObjKindOf, result_then (result_cellAt hcb)]
    rfl
  rw [objectsEqual, hta, htb, Bool.or_self, if_neg Bool.false_ne_true, hpa, hpb, Bool.and_self,
    Bool.not_true, if_neg Bool.false_ne_true, result_then hka, result_then hkb, result_ite,
    result_ite]
  rfl

theorem cell_of_kind_bytes {c : Cell} (h : c.kind = 1) : ∃ b, c = .bytes b := by
  cases c <;> simp [Cell.kind] at h ⊢

theorem cell_of_kind_enum {c : Cell} (h : c.kind = 11) : ∃ e, c = .enum e := by
  cases c <;> simp [Cell.kind] at h ⊢

theorem result_enumAt {p : JelloValue} {e : JelloEnum} (he : s.heap.cells p = some (.enum e)) :
    result (enumAt p) s = .ok (e, s) := by
  rw [enumAt, result_then (result_cellAt he)]
  rfl

/-- A test of a tag and of what goes with it decides whether two values mean the same. -/
theorem tagTest_iff {α : Type} [BEq α] [LawfulBEq α] {test : JelloValue → Bool}
    {get : JelloValue → α} {con : α → Meaning} {h : Heap}
    (hiff : ∀ v x, h.meaning v = con x ↔ test v = true ∧ get v = x)
    (hor : (test a || test b) = true) :
    (test a && test b && get a == get b) = true ↔ h.meaning a = h.meaning b := by
  have hself (v : JelloValue) (hv : test v = true) : h.meaning v = con (get v) :=
    (hiff v (get v)).mpr ⟨hv, rfl⟩
  rw [Bool.and_eq_true, Bool.and_eq_true, beq_iff_eq]
  constructor
  · rintro ⟨⟨ha, hb⟩, hget⟩
    rw [hself a ha, hself b hb, hget]
  · intro heq
    rcases Bool.or_eq_true_iff.mp hor with ha | hb
    · have hb := (hiff b (get a)).mp (heq.symm.trans (hself a ha))
      exact ⟨⟨ha, hb.1⟩, hb.2.symm⟩
    · have ha := (hiff a (get b)).mp (heq.trans (hself b hb))
      exact ⟨⟨ha.1, hb⟩, ha.2⟩

theorem meaning_of_untagged {h : Heap} {v : JelloValue} (hnull : jelloIsNull v = false)
    (hbool : jelloIsBool v = false) (hx : h.number v = none) (hatom : jelloIsAtom v = false)
    (hp : jelloIsPtr v = false) : h.meaning v = .object v := by
  have hi : jelloIsI32 v = false := by
    cases hi : jelloIsI32 v with
    | true => simp [Heap.number, hi] at hx
    | false => rfl
  simp [Heap.meaning, hnull, hbool, hi, hatom, hp]

theorem parts_enum {h : Heap} {ea eb : JelloEnum} (hne : a ≠ b) (hpa : jelloIsPtr a = true)
    (hpb : jelloIsPtr b = true) (hca : h.cells a = some (.enum ea))
    (hcb : h.cells b = some (.enum eb)) :
    h.parts (a, b) = if ea.tag = eb.tag ∧ ea.nfields = eb.nfields then
      some (ea.fieldList.zip eb.fieldList) else none := by
  have hma : h.meaning a = .enum ea.tag ea.fieldList := meaning_of_cell hpa hca
  have hmb : h.meaning b = .enum eb.tag eb.fieldList := meaning_of_cell hpb hcb
  have hlen : ea.fieldList.length = eb.fieldList.length ↔ ea.nfields = eb.nfields := by
    simp only [JelloEnum.fieldList, List.length_map, List.length_range, UInt32.toNat_inj]
  rw [Heap.parts, if_neg hne]
  simp only [hma, hmb, hlen]

theorem result_objectsEqual_leaf (hne : a ≠ b) (hva : s.heap.IsValue a)
    (hvb : s.heap.IsValue b) (hna : jelloIsNull a = false) (hnb : jelloIsNull b = false)
    (hba : jelloIsBool a = false) (hbb : jelloIsBool b = false)
    (hxa : s.heap.number a = none) (hxb : s.heap.number b = none)
    (hparts : s.heap.parts (a, b) = none) :
    ∃ r, result (objectsEqual fpu n a b) s = .ok (r, s) ∧
      (r = true ↔ s.heap.meaning a = s.heap.meaning b) := by
  cases hatom : jelloIsAtom a || jelloIsAtom b with
  | true =>
    refine ⟨jelloIsAtom a && jelloIsAtom b && jelloAsAtom a == jelloAsAtom b, ?_,
      tagTest_iff (fun v x ↦ meaning_atom_iff) hatom⟩
    rw [objectsEqual, if_pos hatom]
    rfl
  | false =>
  obtain ⟨hta, htb⟩ := Bool.or_eq_false_iff.mp hatom
  cases hptr : jelloIsPtr a && jelloIsPtr b with
  | false =>
    refine ⟨false, ?_, ?_⟩
    · rw [objectsEqual, if_neg (by simp [hatom]), if_pos (by simp [hptr])]
      rfl
    · refine ⟨fun h ↦ absurd h Bool.false_ne_true, fun heq ↦ ?_⟩
      rcases Bool.and_eq_false_iff.mp hptr with hpa | hpb
      · rw [meaning_of_untagged hna hba hxa hta hpa] at heq
        exact absurd (object_of_meaning heq.symm) hne
      · rw [meaning_of_untagged hnb hbb hxb htb hpb] at heq
        exact absurd (object_of_meaning heq).symm hne
  | true =>
  obtain ⟨hpa, hpb⟩ := Bool.and_eq_true_iff.mp hptr
  obtain ⟨ha0, hsa⟩ := hva hpa
  obtain ⟨hb0, hsb⟩ := hvb hpb
  obtain ⟨ca, hca⟩ := Option.isSome_iff_exists.mp hsa
  obtain ⟨cb, hcb⟩ := Option.isSome_iff_exists.mp hsb
  rw [result_objectsEqual hpa hpb hca hcb]
  by_cases hbytes : ca.kind = 1 ∧ cb.kind = 1
  · obtain ⟨x, rfl⟩ := cell_of_kind_bytes hbytes.1
    obtain ⟨y, rfl⟩ := cell_of_kind_bytes hbytes.2
    obtain ⟨r, hr, hiff⟩ := result_bytesContentEqual hne ha0 hb0 hca hcb
    rw [if_pos hbytes]
    refine ⟨r, hr, ?_⟩
    rw [hiff, meaning_of_cell hpa hca, meaning_of_cell hpb hcb, Cell.meaning, Cell.meaning,
      Meaning.bytes.injEq]
  rw [if_neg hbytes]
  by_cases henum : ca.kind = 11 ∧ cb.kind = 11
  · obtain ⟨x, rfl⟩ := cell_of_kind_enum henum.1
    obtain ⟨y, rfl⟩ := cell_of_kind_enum henum.2
    rw [parts_enum hne hpa hpb hca hcb] at hparts
    have hdiffer : ¬(x.tag = y.tag ∧ x.nfields = y.nfields) := by
      intro h
      rw [if_pos h] at hparts
      exact absurd hparts (Option.some_ne_none _)
    refine ⟨false, ?_, ?_⟩
    · rw [if_pos henum, result_then (result_enumAt hca), result_then (result_enumAt hcb)]
      by_cases htag : x.tag = y.tag
      · rw [if_neg (not_not.mpr htag), if_pos fun h ↦ hdiffer ⟨htag, h⟩]
        rfl
      · rw [if_pos htag]
        rfl
    · refine ⟨fun h ↦ absurd h Bool.false_ne_true, fun heq ↦ ?_⟩
      rw [meaning_of_cell hpa hca, meaning_of_cell hpb hcb, Cell.meaning, Cell.meaning,
        Meaning.enum.injEq] at heq
      have hcount := congrArg List.length heq.2
      simp only [JelloEnum.fieldList, List.length_map, List.length_range] at hcount
      exact absurd ⟨heq.1, UInt32.toNat_inj.mp hcount⟩ hdiffer
  rw [if_neg henum]
  refine ⟨false, rfl, fun h ↦ absurd h Bool.false_ne_true, fun heq ↦ ?_⟩
  have ht := tested s.heap a
  rw [heq] at ht
  cases hm : s.heap.meaning b with
  | null => rw [hm, meaning_null_iff, hna] at heq; exact absurd heq Bool.false_ne_true
  | bool x => rw [hm, meaning_bool_iff, hba] at heq; exact absurd heq.1 Bool.false_ne_true
  | number d =>
    obtain ⟨x, hx, -⟩ := number_of_meaning hm
    exact absurd (hxb.symm.trans hx) (Option.some_ne_none x).symm
  | atom k => rw [hm, meaning_atom_iff, hta] at heq; exact absurd heq.1 Bool.false_ne_true
  | bytes l =>
    obtain ⟨x, hx, -⟩ := bytes_of_meaning (heq.trans hm)
    obtain ⟨y, hy, -⟩ := bytes_of_meaning hm
    obtain rfl := Option.some.inj (hca.symm.trans hx)
    obtain rfl := Option.some.inj (hcb.symm.trans hy)
    exact absurd ⟨rfl, rfl⟩ hbytes
  | enum t fs =>
    obtain ⟨-, x, hx, -⟩ := enum_of_meaning (heq.trans hm)
    obtain ⟨-, y, hy, -⟩ := enum_of_meaning hm
    obtain rfl := Option.some.inj (hca.symm.trans hx)
    obtain rfl := Option.some.inj (hcb.symm.trans hy)
    exact absurd ⟨rfl, rfl⟩ henum
  | object w =>
    have hwa := object_of_meaning (heq.trans hm)
    have hwb := object_of_meaning hm
    exact absurd (hwa.symm.trans hwb) hne

theorem result_valuesEqual_leaf (hf : fpu.Ieee) (hround : fpu.RoundsI64)
    (hva : s.heap.IsValue a) (hvb : s.heap.IsValue b)
    (hnan : ∀ v x, v = a ∨ v = b → s.heap.number v = some x → x.datum ≠ .nan)
    (hparts : s.heap.parts (a, b) = none) :
    ∃ r, result (valuesEqual fpu (n + 1) a b) s = .ok (r, s) ∧
      (r = true ↔ s.heap.ReadSame fpu.castTop (a, b)) := by
  have hne : a ≠ b := by
    rintro rfl
    rw [Heap.parts, if_pos rfl] at hparts
    exact absurd hparts (Option.some_ne_none _)
  cases hnull : jelloIsNull a || jelloIsNull b with
  | true =>
    have hnone : s.heap.number a = none ∨ s.heap.number b = none :=
      (Bool.or_eq_true_iff.mp hnull).imp
        (fun h ↦ number_none_of_tag h (by decide) (by decide))
        fun h ↦ number_none_of_tag h (by decide) (by decide)
    have htest := @tagTest_iff a b Unit _ _ jelloIsNull (fun _ ↦ ()) (fun _ ↦ .null) s.heap
      (fun v x ↦ meaning_null_iff.trans (by simp)) hnull
    refine ⟨jelloIsNull a && jelloIsNull b, ?_, ?_⟩
    · rw [valuesEqual, if_neg hne, if_pos hnull]
      rfl
    · rw [readSame_iff_meaning hnone, ← htest]
      simp
  | false =>
  obtain ⟨hna, hnb⟩ := Bool.or_eq_false_iff.mp hnull
  cases hbool : jelloIsBool a || jelloIsBool b with
  | true =>
    have hnone : s.heap.number a = none ∨ s.heap.number b = none :=
      (Bool.or_eq_true_iff.mp hbool).imp
        (fun h ↦ number_none_of_tag h (by decide) (by decide))
        fun h ↦ number_none_of_tag h (by decide) (by decide)
    refine ⟨jelloIsBool a && jelloIsBool b && jelloAsBool a == jelloAsBool b, ?_, ?_⟩
    · rw [valuesEqual, if_neg hne, if_neg (by simp [hnull]), if_pos hbool]
      rfl
    · rw [readSame_iff_meaning hnone]
      exact tagTest_iff (fun v x ↦ meaning_bool_iff) hbool
  | false =>
  obtain ⟨hba, hbb⟩ := Bool.or_eq_false_iff.mp hbool
  rw [result_valuesEqual_tested hne hva hvb hna hnb hba hbb]
  cases hx : s.heap.number a with
  | some x =>
    cases hy : s.heap.number b with
    | some y =>
      obtain ⟨r, hr, hiff⟩ := result_numericValuesEqual hf hround hx hy
        (hnan a x (.inl rfl) hx) (hnan b y (.inr rfl) hy)
      exact ⟨r, hr, hiff.trans (readSame_of_numbers hx hy).symm⟩
    | none =>
      refine ⟨false, rfl, fun h ↦ absurd h Bool.false_ne_true, fun h ↦ ?_⟩
      have heq := (readSame_iff_meaning (.inr hy)).mp h
      obtain ⟨z, hz, -⟩ := number_of_meaning (heq.symm.trans (meaning_of_number hx))
      exact absurd (hy.symm.trans hz) (Option.some_ne_none z).symm
  | none =>
    rw [readSame_iff_meaning (.inl hx)]
    cases hy : s.heap.number b with
    | some y =>
      refine ⟨false, rfl, fun h ↦ absurd h Bool.false_ne_true, fun heq ↦ ?_⟩
      obtain ⟨z, hz, -⟩ := number_of_meaning (heq.trans (meaning_of_number hy))
      exact absurd (hx.symm.trans hz) (Option.some_ne_none z).symm
    | none => exact result_objectsEqual_leaf hne hva hvb hna hnb hba hbb hx hy hparts

theorem result_fieldsEqual {eq : JelloValue → JelloValue → StoreM Bool} {ea eb : JelloEnum}
    {P : JelloValue × JelloValue → Prop} (k i : ℕ)
    (h : ∀ j, i ≤ j → j < i + k → ∃ r, result (eq (ea.fields j) (eb.fields j)) s = .ok (r, s) ∧
      (r = true ↔ P (ea.fields j, eb.fields j))) :
    ∃ r, result (fieldsEqual eq ea eb i k) s = .ok (r, s) ∧
      (r = true ↔ ∀ j, i ≤ j → j < i + k → P (ea.fields j, eb.fields j)) := by
  induction k generalizing i with
  | zero => exact ⟨true, rfl, fun _ j hj hlt ↦ by omega, fun _ ↦ rfl⟩
  | succ k ih =>
    obtain ⟨r, hr, hiff⟩ := h i le_rfl (by omega)
    rw [fieldsEqual, result_then hr]
    cases r with
    | false =>
      refine ⟨false, rfl, fun h' ↦ absurd h' Bool.false_ne_true, fun hall ↦ ?_⟩
      exact hiff.mpr (hall i le_rfl (by omega))
    | true =>
      obtain ⟨r, hr', hiff'⟩ := ih (i + 1) fun j hj hlt ↦ h j (by omega) (by omega)
      refine ⟨r, hr', hiff'.trans ?_⟩
      constructor
      · intro hall j hj hlt
        rcases Nat.eq_or_lt_of_le hj with rfl | hj
        · exact hiff.mp rfl
        · exact hall j hj (by omega)
      · intro hall j hj hlt
        exact hall j (by omega) (by omega)

theorem mem_zip_fieldList {ea eb : JelloEnum} (hn : ea.nfields = eb.nfields)
    {p : JelloValue × JelloValue} :
    p ∈ ea.fieldList.zip eb.fieldList ↔
      ∃ j, j < ea.nfields.toNat ∧ (ea.fields j, eb.fields j) = p := by
  rw [JelloEnum.fieldList, JelloEnum.fieldList, ← hn, List.zip_map', List.mem_map]
  simp only [List.mem_range]

/-- Where there are parts, the values are one and the same, or two enums of one shape. -/
theorem parts_cases {h : Heap} {qs : List (JelloValue × JelloValue)}
    (hparts : h.parts (a, b) = some qs) :
    (a = b ∧ qs = []) ∨ a ≠ b ∧ jelloIsPtr a = true ∧ jelloIsPtr b = true ∧ ∃ ea eb,
      h.cells a = some (.enum ea) ∧ h.cells b = some (.enum eb) ∧ ea.tag = eb.tag ∧
        ea.nfields = eb.nfields ∧ qs = ea.fieldList.zip eb.fieldList := by
  by_cases hne : a = b
  · rw [Heap.parts, if_pos hne] at hparts
    exact .inl ⟨hne, (Option.some.inj hparts).symm⟩
  · have hshape : (∃ t fs, h.meaning a = .enum t fs) ∧ ∃ u gs, h.meaning b = .enum u gs := by
      rw [Heap.parts, if_neg hne] at hparts
      cases hma : h.meaning a <;> cases hmb : h.meaning b <;>
        simp only [hma, hmb, reduceCtorEq] at hparts
      exact ⟨⟨_, _, rfl⟩, _, _, rfl⟩
    obtain ⟨⟨t, fs, hma⟩, u, gs, hmb⟩ := hshape
    obtain ⟨hpa, ea, hca, -, -⟩ := enum_of_meaning hma
    obtain ⟨hpb, eb, hcb, -, -⟩ := enum_of_meaning hmb
    rw [parts_enum hne hpa hpb hca hcb] at hparts
    split_ifs at hparts with heq
    exact .inr ⟨hne, hpa, hpb, ea, eb, hca, hcb, heq.1, heq.2, (Option.some.inj hparts).symm⟩

theorem number_of_enum {h : Heap} {v : JelloValue} {e : JelloEnum} (hp : jelloIsPtr v = true)
    (hc : h.cells v = some (.enum e)) : h.number v = none := by
  have hi : jelloIsI32 v = false := hasTag_unique hp (by decide)
  simp [Heap.number, Heap.numAt, hi, hp, hc, Cell.num]

theorem result_valuesEqual_enum {ea eb : JelloEnum} (hne : a ≠ b) (hva : s.heap.IsValue a)
    (hvb : s.heap.IsValue b) (hpa : jelloIsPtr a = true) (hpb : jelloIsPtr b = true)
    (hca : s.heap.cells a = some (.enum ea)) (hcb : s.heap.cells b = some (.enum eb))
    (htag : ea.tag = eb.tag) (hn : ea.nfields = eb.nfields) :
    result (valuesEqual fpu (n + 1) a b) s =
      result (fieldsEqual (valuesEqual fpu n) ea eb 0 ea.nfields.toNat) s := by
  have hnull {v : JelloValue} (hp : jelloIsPtr v = true) : jelloIsNull v = false :=
    hasTag_unique hp (by decide)
  have hbool {v : JelloValue} (hp : jelloIsPtr v = true) : jelloIsBool v = false :=
    hasTag_unique hp (by decide)
  rw [result_valuesEqual_tested hne hva hvb (hnull hpa) (hnull hpb) (hbool hpa) (hbool hpb),
    number_of_enum hpa hca, number_of_enum hpb hcb, Option.isSome_none, Bool.or_self,
    if_neg Bool.false_ne_true, result_objectsEqual hpa hpb hca hcb,
    if_neg (by simp [Cell.kind]), if_pos ⟨rfl, rfl⟩, result_then (result_enumAt hca),
    result_then (result_enumAt hcb), if_neg (not_not.mpr htag), if_neg (not_not.mpr hn)]

end Rounds

end JelloVM
