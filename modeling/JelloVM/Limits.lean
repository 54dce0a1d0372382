import JelloVM.InlineAgree
import JelloVM.Fuel
import JelloVM.Delivery

namespace JelloVM

open ByteMemory Logged

/-- A limit of 0 is none. -/
def Within (limit n : UInt32) : Prop := limit ≠ 0 → n ≤ limit

def Cell.bytesLen : Cell → Option UInt32
  | .bytes b => some b.length
  | _ => none

def Cell.arrayLen : Cell → Option UInt32
  | .array a => some a.length
  | _ => none

def Store.bytesLen (s : Store) (p : JelloValue) : Option UInt32 :=
  (s.heap.cells p).bind Cell.bytesLen

def Store.arrayLen (s : Store) (p : JelloValue) : Option UInt32 :=
  (s.heap.cells p).bind Cell.arrayLen

/-- The lengths of the Bytes and of the arrays that are new in `s'` are in `B` and in `A`. -/
structure NewLengths (B A : UInt32 → Prop) (s s' : Store) : Prop where
  maxBytesLen : s'.maxBytesLen = s.maxBytesLen
  maxArrayLen : s'.maxArrayLen = s.maxArrayLen
  bytes {p : JelloValue} {n : UInt32} (h : s'.bytesLen p = some n) : s.bytesLen p = some n ∨ B n
  arrays {p : JelloValue} {n : UInt32} (h : s'.arrayLen p = some n) : s.arrayLen p = some n ∨ A n

section NewLengths

variable {B A : UInt32 → Prop} {s s' : Store} {ctx : Ctx} {ins : JelloInsn}

instance : IsPreorder Store (NewLengths B A) where
  refl _ := ⟨rfl, rfl, .inl, .inl⟩
  trans s₁ s₂ s₃ h h' := by
    refine ⟨h'.maxBytesLen.trans h.maxBytesLen, h'.maxArrayLen.trans h.maxArrayLen, ?_, ?_⟩
    · intro p n hn
      rcases h'.bytes hn with hold | hnew
      · exact h.bytes hold
      · exact .inr hnew
    · intro p n hn
      rcases h'.arrays hn with hold | hnew
      · exact h.arrays hold
      · exact .inr hnew

theorem newLengths_same (hheap : s'.heap = s.heap) (hb : s'.maxBytesLen = s.maxBytesLen)
    (ha : s'.maxArrayLen = s.maxArrayLen) : NewLengths B A s s' := by
  refine ⟨hb, ha, fun h ↦ .inl ?_, fun h ↦ .inl ?_⟩
  · rwa [Store.bytesLen, hheap] at h
  · rwa [Store.arrayLen, hheap] at h

theorem newLengths_update {q : JelloValue} {c : Cell} {heap : Heap}
    (hheap : heap.cells = Function.update s.heap.cells q (some c))
    (hb : ∀ n, c.bytesLen = some n → B n) (ha : ∀ n, c.arrayLen = some n → A n) :
    NewLengths B A s { s with heap := heap } := by
  refine ⟨rfl, rfl, fun {p n} h ↦ ?_, fun {p n} h ↦ ?_⟩
  · simp only [Store.bytesLen, hheap, Function.update_apply] at h
    split_ifs at h with hp
    · exact .inr (hb n h)
    · exact .inl h
  · simp only [Store.arrayLen, hheap, Function.update_apply] at h
    split_ifs at h with hp
    · exact .inr (ha n h)
    · exact .inl h

theorem newLengths_alloc {c : Cell} (hb : ∀ n, c.bytesLen = some n → B n)
    (ha : ∀ n, c.arrayLen = some n → A n) :
    NewLengths B A s { s with heap := (s.heap.alloc c).2 } :=
  newLengths_update rfl hb ha

theorem newLengths_write {q : JelloValue} {c : Cell} (hb : ∀ n, c.bytesLen = some n → B n)
    (ha : ∀ n, c.arrayLen = some n → A n) :
    NewLengths B A s { s with heap := s.heap.write q c } :=
  newLengths_update rfl hb ha

theorem newLengths_trap {code : TrapCode} {msg : Option (List UInt8)} {v : JelloValue} :
    NewLengths B A s
      { s with trapCode := code, trapMsg := msg, excPending := true, excPayload := v } :=
  newLengths_same rfl rfl rfl

theorem NewLengths.thenSame {s'' : Store} (h : NewLengths B A s s') (hheap : s''.heap = s'.heap)
    (hb : s''.maxBytesLen = s'.maxBytesLen) (ha : s''.maxArrayLen = s'.maxArrayLen) :
    NewLengths B A s s'' :=
  trans_of (NewLengths B A) h (newLengths_same hheap hb ha)

theorem newLengths_mem {mem : Mem} : NewLengths B A s { s with mem := mem } :=
  newLengths_same rfl rfl rfl

theorem NewLengths.thenMem {mem : Mem} (h : NewLengths B A s s') :
    NewLengths B A s { s' with mem := mem } :=
  trans_of (NewLengths B A) h newLengths_mem

theorem ends_bytesAt {p : JelloValue} {Q : JelloBytes → Store → Prop}
    (h : ∀ b, s.heap.cells p = some (.bytes b) → Q b s) : Ends (bytesAt p) Q s := by
  refine spec_bind.mpr (spec_cellAt fun c hc ↦ ?_)
  cases c
  case bytes b => exact (spec_pure b).mpr (h b hc)
  all_goals exact spec_fail _

theorem ends_arrayAt {p : JelloValue} {Q : JelloArray → Store → Prop}
    (h : ∀ a, s.heap.cells p = some (.array a) → Q a s) : Ends (arrayAt p) Q s := by
  refine spec_bind.mpr (spec_cellAt fun c hc ↦ ?_)
  cases c
  case array a => exact (spec_pure a).mpr (h a hc)
  all_goals exact spec_fail _

end NewLengths

def Cell.len : Cell → ℕ
  | .bytes b => b.length.toNat
  | .array a => a.length.toNat
  | _ => 0

def Store.lenAt (s : Store) (p : JelloValue) : ℕ := (s.heap.cells p).elim 0 Cell.len

/-- The sum of the lengths of the elements `i`, ..., `i + n - 1`. -/
def Store.sumLen (s : Store) (data : ℕ → JelloValue) : ℕ → ℕ → ℕ
  | _, 0 => 0
  | i, n + 1 => s.lenAt (data i) + s.sumLen data (i + 1) n

def Store.partsLen (s : Store) (p : JelloValue) : ℕ :=
  match s.heap.cells p with
  | some (.array a) => s.sumLen a.data 0 a.length.toNat
  | _ => 0

/-- The exact sum that the result of a concatenation is as long as. -/
def lengthSum (rf : RegFrame) (ins : JelloInsn) (s : Store) : Option ℕ :=
  let operand (r : ℕ) := load64 s.mem (rf.addr r)
  match ins.op with
  | .bytesConcat2 | .arrayConcat2 => some (s.lenAt (operand ins.rb) + s.lenAt (operand ins.rc))
  | .bytesConcatMany => some (s.partsLen (operand ins.rb))
  | _ => none

/-- The instructions that make or resize Bytes and arrays. -/
def JelloOp.isSized : JelloOp → Bool
  | .bytesNew | .bytesConcat2 | .bytesConcatMany | .bytesBitand2 | .bytesBitor2 | .bytesBitxor2
  | .constBytes | .arrayNew | .arrayConcat2 | .arrayResize => true
  | _ => false

/-- A length that the instruction may give to something it makes. -/
structure Fits (rf : RegFrame) (ins : JelloInsn) (s : Store) (limit n : UInt32) : Prop where
  within : Within limit n
  exact {total : ℕ} (h : lengthSum rf ins s = some total) : n.toNat = total

/-- What the instruction makes is no longer than the limits, and as long as its parts. -/
def LimitsKept (rf : RegFrame) (ins : JelloInsn) (s s' : Store) : Prop :=
  NewLengths (Fits rf ins s s.maxBytesLen) (Fits rf ins s s.maxArrayLen) s s'

/-- An entry of the pool of constants that is not made yet is within the limit. -/
def ConstFits (m : JelloBcModule) (ins : JelloInsn) (s : Store) : Prop :=
  ins.op = .constBytes → ins.imm.toNat < s.constBytesCache.length →
    s.constBytesCache.getD ins.imm.toNat 0 = 0 →
    Within s.maxBytesLen (UInt32.ofNat (m.constBytes.getD ins.imm.toNat []).length)

section Ops

variable {ctx : Ctx} {ins : JelloInsn} {s : Store}

theorem within_of_not {limit n : UInt32} (h : ¬(limit ≠ 0 ∧ limit < n)) : Within limit n :=
  fun hne ↦ UInt32.not_lt.mp fun hlt ↦ h ⟨hne, hlt⟩

theorem within_of_sum {limit : UInt32} {total : ℕ} (htotal : ¬0xffffffff < total)
    (h : ¬(limit ≠ 0 ∧ limit.toNat < total)) : Within limit (UInt32.ofNat total) := by
  intro hne
  rw [UInt32.le_iff_toNat_le, UInt32.toNat_ofNat_of_lt' (by simp [UInt32.size]; omega)]
  exact Nat.not_lt.mp fun hlt ↦ h ⟨hne, hlt⟩

theorem toNat_sum {total : ℕ} (htotal : ¬0xffffffff < total) :
    (UInt32.ofNat total).toNat = total :=
  UInt32.toNat_ofNat_of_lt' (by simp [UInt32.size]; omega)

theorem limitsKept_bytes {b : JelloBytes} (h : Fits ctx.rf ins s s.maxBytesLen b.length) :
    LimitsKept ctx.rf ins s { s with heap := (s.heap.alloc (.bytes b)).2 } := by
  refine newLengths_alloc ?_ ?_
  · rintro n ⟨⟩
    exact h
  · rintro n ⟨⟩

theorem limitsKept_array {a : JelloArray} (h : Fits ctx.rf ins s s.maxArrayLen a.length) :
    LimitsKept ctx.rf ins s { s with heap := (s.heap.alloc (.array a)).2 } := by
  refine newLengths_alloc ?_ ?_
  · rintro n ⟨⟩
  · rintro n ⟨⟩
    exact h

theorem limitsKept_resized {p : JelloValue} {a : JelloArray} {s' : Store}
    (hs : LimitsKept ctx.rf ins s s') (h : Fits ctx.rf ins s s.maxArrayLen a.length) :
    LimitsKept ctx.rf ins s { s' with heap := s'.heap.write p (.array a) } := by
  refine trans_of (NewLengths _ _) hs (newLengths_write ?_ ?_)
  · rintro n ⟨⟩
  · rintro n ⟨⟩
    exact h

theorem fits_of_within {limit n : UInt32} (h : Within limit n)
    (hsum : lengthSum ctx.rf ins s = none) : Fits ctx.rf ins s limit n :=
  ⟨h, fun hsome ↦ absurd (hsum.symm.trans hsome) (Option.some_ne_none _).symm⟩

theorem fits_of_sum {limit : UInt32} {total : ℕ} (htotal : ¬0xffffffff < total)
    (h : ¬(limit ≠ 0 ∧ limit.toNat < total)) (hsum : lengthSum ctx.rf ins s = some total) :
    Fits ctx.rf ins s limit (UInt32.ofNat total) :=
  ⟨within_of_sum htotal h, fun hsome ↦
    (toNat_sum htotal).trans (Option.some.inj (hsum.symm.trans hsome))⟩

theorem lenAt_cell {p : JelloValue} {c : Cell} (h : s.heap.cells p = some c) :
    s.lenAt p = c.len := by
  simp only [Store.lenAt, h, Option.elim_some]

theorem lenAt_of_bytesLen {p : JelloValue} {n : UInt32} (h : s.bytesLen p = some n) :
    s.lenAt p = n.toNat := by
  obtain ⟨c, hc, hn⟩ := Option.bind_eq_some_iff.mp h
  cases c <;> simp only [Cell.bytesLen, Option.some.injEq, reduceCtorEq] at hn
  rw [lenAt_cell hc, Cell.len, hn]

theorem lenAt_of_arrayLen {p : JelloValue} {n : UInt32} (h : s.arrayLen p = some n) :
    s.lenAt p = n.toNat := by
  obtain ⟨c, hc, hn⟩ := Option.bind_eq_some_iff.mp h
  cases c <;> simp only [Cell.arrayLen, Option.some.injEq, reduceCtorEq] at hn
  rw [lenAt_cell hc, Cell.len, hn]

theorem ends_opBytesNew (hop : ins.op = .bytesNew) :
    Ends (opBytesNew ctx ins) (fun _ ↦ LimitsKept ctx.rf ins s) s := by
  simp only [opBytesNew, spec_bind, spec_vmLoadU32, spec_read, spec_ite, spec_jelloVmTrap,
    spec_regTypeOf, jelloBytesNew, spec_gcAlloc, spec_vmStorePtr, true_and]
  refine ⟨fun _ ↦ newLengths_trap, fun hlimit ↦ (limitsKept_bytes ?_).thenMem⟩
  exact fits_of_within (within_of_not hlimit) (by simp only [lengthSum, hop])

theorem ends_opBytesConcat2 (hop : ins.op = .bytesConcat2) :
    Ends (opBytesConcat2 ctx ins) (fun _ ↦ LimitsKept ctx.rf ins s) s := by
  simp only [opBytesConcat2, spec_bind, spec_vmLoadPtr, spec_ite, spec_jelloVmTrap, true_and]
  refine ⟨fun _ ↦ newLengths_trap, fun _ ↦ ⟨fun _ ↦ newLengths_trap, fun _ ↦ ?_⟩⟩
  refine ends_bytesAt fun x hx ↦ ends_bytesAt fun y hy ↦ ?_
  simp only [spec_read, spec_regTypeOf, jelloBytesNew, spec_gcAlloc, spec_vmStorePtr, true_and]
  refine ⟨fun _ ↦ newLengths_trap, fun htotal ↦ ⟨fun _ ↦ newLengths_trap, fun hlimit ↦ ?_⟩⟩
  refine (limitsKept_bytes (fits_of_sum htotal hlimit ?_)).thenMem
  simp only [lengthSum, hop, lenAt_cell hx, lenAt_cell hy, Cell.len]

theorem ends_bytesBitwise2 {name : String} {binop : UInt8 → UInt8 → UInt8}
    (hsum : lengthSum ctx.rf ins s = none) :
    Ends (bytesBitwise2 name binop ctx ins) (fun _ ↦ LimitsKept ctx.rf ins s) s := by
  simp only [bytesBitwise2, spec_bind, spec_vmLoadPtr, spec_ite, spec_jelloVmTrap, true_and]
  refine ⟨fun _ ↦ newLengths_trap, fun _ ↦ ⟨fun _ ↦ newLengths_trap, fun _ ↦ ?_⟩⟩
  refine ends_bytesAt fun x hx ↦ ends_bytesAt fun y hy ↦ ?_
  simp only [spec_read, spec_regTypeOf, jelloBytesNew, spec_gcAlloc, spec_vmStorePtr, true_and]
  refine ⟨fun _ ↦ newLengths_trap, fun _ ↦ ⟨fun _ ↦ newLengths_trap, fun hlimit ↦ ?_⟩⟩
  refine (limitsKept_bytes ?_).thenMem
  exact fits_of_within (within_of_not hlimit) hsum

theorem ends_trapNone {code : TrapCode} {msg : String}
    {Q : Option (List JelloBytes × ℕ) → Store → Prop}
    (h : ∀ s', LimitsKept ctx.rf ins s s' → Q none s') :
    Ends (do jelloVmTrap ctx code msg; pure none) Q s := by
  simp only [spec_bind, spec_jelloVmTrap, spec_pure]
  exact h _ newLengths_trap

/-- The first pass adds the lengths of the parts that are left to those before. -/
theorem ends_concatParts (ins : JelloInsn) (data : ℕ → JelloValue) (n i total : ℕ)
    (htotal : total ≤ 0xffffffff) : Ends (concatParts ctx data i n total) (fun r s' ↦ LimitsKept ctx.rf ins s s' ∧
      ∀ bs sum, r = some (bs, sum) → s' = s ∧ sum = total + s.sumLen data i n ∧
        sum ≤ 0xffffffff) s := by
  induction n generalizing i total with
  | zero =>
    refine (spec_pure _).mpr ⟨refl_of (NewLengths _ _) s, ?_⟩
    rintro bs sum ⟨⟩
    exact ⟨rfl, rfl, htotal⟩
  | succ n ih =>
    have hnone : ∀ s', LimitsKept ctx.rf ins s s' → LimitsKept ctx.rf ins s s' ∧
        ∀ bs sum, (none : Option (List JelloBytes × ℕ)) = some (bs, sum) → s' = s ∧
          sum = total + s.sumLen data i (n + 1) ∧ sum ≤ 0xffffffff :=
      fun _ hs ↦ ⟨hs, fun _ _ h ↦ Option.noConfusion rfl (heq_of_eq h)⟩
    unfold concatParts
    refine spec_ite.mpr ⟨fun _ ↦ ends_trapNone hnone, fun _ ↦ spec_ite.mpr
      ⟨fun _ ↦ ends_trapNone hnone, fun _ ↦ spec_bind.mpr (spec_cellAt fun c hc ↦ ?_)⟩⟩
    cases c
    case bytes b =>
      refine spec_ite.mpr ⟨fun _ ↦ ends_trapNone hnone, fun hlt ↦ spec_bind.mpr ?_⟩
      refine (ih (i + 1) (total + b.length.toNat) (by omega)).mono fun r s' h ↦ ?_
      cases r with
      | none => exact (spec_pure _).mpr (hnone s' h.1)
      | some r =>
        refine (spec_pure _).mpr ⟨h.1, ?_⟩
        rintro bs sum ⟨⟩
        obtain ⟨hs, hsum, hle⟩ := h.2 r.1 r.2 rfl
        refine ⟨hs, ?_, hle⟩
        rw [hsum, Store.sumLen, lenAt_cell hc, Cell.len, Nat.add_assoc]
    all_goals exact ends_trapNone hnone

theorem ends_opBytesConcatMany (hop : ins.op = .bytesConcatMany) :
    Ends (opBytesConcatMany ctx ins) (fun _ ↦ LimitsKept ctx.rf ins s) s := by
  simp only [opBytesConcatMany, spec_bind, spec_vmLoadPtr, spec_ite, spec_jelloVmTrap, true_and]
  refine ⟨fun _ ↦ newLengths_trap, fun _ ↦ ends_arrayAt fun parts hparts ↦ ?_⟩
  refine (ends_concatParts ins parts.data parts.length.toNat 0 0 (Nat.zero_le _)).mono
    fun r s' h ↦ ?_
  cases r with
  | none => exact (spec_pure _).mpr h.1
  | some r =>
    obtain ⟨rfl, hsum, hle⟩ := h.2 r.1 r.2 rfl
    simp only [spec_read, spec_ite, spec_jelloVmTrap, spec_bind, spec_regTypeOf, jelloBytesNew,
      spec_gcAlloc, spec_vmStorePtr, true_and]
    refine ⟨fun _ ↦ newLengths_trap, fun hlimit ↦ (limitsKept_bytes ?_).thenMem⟩
    refine fits_of_sum (Nat.not_lt.mpr hle) hlimit ?_
    simp only [lengthSum, hop, Store.partsLen, hparts, hsum, Nat.zero_add]

theorem numbox_no_length {c : Cell} (h : c.isNumbox = true) :
    c.bytesLen = none ∧ c.arrayLen = none := by
  cases c
  case boxI64 => exact ⟨rfl, rfl⟩
  case boxF64 => exact ⟨rfl, rfl⟩
  case boxF32 => exact ⟨rfl, rfl⟩
  case boxF16 => exact ⟨rfl, rfl⟩
  all_goals exact absurd h Bool.false_ne_true

theorem keeps_newLengths_clone {B A : UInt32 → Prop} (v : JelloValue) :
    Keeps (fun _ ↦ True) (NewLengths B A) (cloneNumbox v) := by
  intro s
  simp only [cloneNumbox, spec_bind, spec_read, vmCloneNumbox]
  by_cases hptr : jelloIsPtr v = true
  · cases hc : s.heap.cells v with
    | none => simp [hptr, wild]
    | some c =>
      by_cases hbox : c.isNumbox = true
      · simp only [hptr, hbox, Bool.not_true, Bool.false_eq_true, if_false, if_true, spec_bind,
          spec_change, spec_pure]
        obtain ⟨hb, ha⟩ := numbox_no_length hbox
        refine newLengths_alloc (fun n h ↦ ?_) (fun n h ↦ ?_)
        · exact absurd (hb.symm.trans h) (Option.some_ne_none _).symm
        · exact absurd (ha.symm.trans h) (Option.some_ne_none _).symm
      · simp only [hptr, hbox, Bool.not_true, Bool.false_eq_true, if_false, spec_bind,
          spec_change, spec_pure]
        exact refl_of (NewLengths B A) s
  · simp only [hptr, Bool.not_false, if_true, spec_bind, spec_change, spec_pure]
    exact refl_of (NewLengths B A) s

theorem keeps_newLengths_cloneElems (B A : UInt32 → Prop) (data : ℕ → JelloValue) (n i : ℕ) :
    Keeps (fun _ ↦ True) (NewLengths B A) (cloneElems data i n) := by
  induction n generalizing i with
  | zero => exact keeps_pure _
  | succ n ih =>
    exact keeps_bind (keeps_newLengths_clone _) fun v ↦ keeps_bind (ih (i + 1)) fun vs ↦
      keeps_pure _

theorem ends_elemKindOf {m : JelloBcModule} {tid : ℕ} {Q : Option Kind → Store → Prop}
    (h : ∀ k, Q k s) : Ends (elemKindOf m tid) Q s := by
  simp only [elemKindOf, spec_ite, spec_pure, spec_bind, spec_typeOf, true_and]
  exact ⟨fun _ ↦ h _, fun _ ↦ ⟨fun _ ↦ h _, fun _ ↦ ⟨fun _ ↦ h _, fun _ ↦ h _⟩⟩⟩

theorem ends_opArrayNew (hop : ins.op = .arrayNew) :
    Ends (opArrayNew ctx ins) (fun _ ↦ LimitsKept ctx.rf ins s) s := by
  simp only [opArrayNew, spec_bind, spec_vmLoadU32, spec_read, spec_ite, spec_jelloVmTrap,
    spec_regTypeOf, true_and]
  refine ⟨fun _ ↦ newLengths_trap, fun hlimit ↦ ends_elemKindOf fun k ↦ ?_⟩
  simp only [spec_gcAlloc, spec_vmStorePtr, true_and]
  refine (limitsKept_array ?_).thenMem
  exact fits_of_within (within_of_not hlimit) (by simp only [lengthSum, hop])

theorem ends_opArrayConcat2 (hop : ins.op = .arrayConcat2) :
    Ends (opArrayConcat2 ctx ins) (fun _ ↦ LimitsKept ctx.rf ins s) s := by
  simp only [opArrayConcat2, spec_bind, spec_vmLoadPtr, spec_ite, spec_jelloVmTrap, true_and]
  refine ⟨fun _ ↦ newLengths_trap, fun _ ↦ ⟨fun _ ↦ newLengths_trap, fun _ ↦ ?_⟩⟩
  refine ends_arrayAt fun x hx ↦ ends_arrayAt fun y hy ↦ ?_
  simp only [spec_read, spec_regTypeOf, spec_gcAlloc, true_and]
  refine ⟨fun _ ↦ newLengths_trap, fun htotal ↦ ⟨fun _ ↦ newLengths_trap, fun hlimit ↦
    ⟨fun _ ↦ newLengths_trap, fun _ ↦ ?_⟩⟩⟩
  have hfits : Fits ctx.rf ins s s.maxArrayLen
      (UInt32.ofNat (x.length.toNat + y.length.toNat)) := by
    refine fits_of_sum htotal hlimit ?_
    simp only [lengthSum, hop, lenAt_cell hx, lenAt_cell hy, Cell.len]
  have hclone := keeps_newLengths_cloneElems (Fits ctx.rf ins s s.maxBytesLen)
    (Fits ctx.rf ins s s.maxArrayLen)
  refine (hclone _ _ _).then fun xs s₁ h₁ ↦ (hclone _ _ _).then fun ys s₂ h₂ ↦ ?_
  simp only [spec_writeCell, spec_vmStorePtr, true_and]
  refine (limitsKept_resized ?_ hfits).thenMem
  exact trans_of (NewLengths _ _) (limitsKept_array hfits) (trans_of (NewLengths _ _) h₁ h₂)

theorem ends_jelloArrayDefaultElem {m : JelloBcModule} {tid : ℕ} {Q : JelloValue → Store → Prop}
    (h : ∀ v, Q v s) : Ends (jelloArrayDefaultElem m tid) Q s := by
  refine spec_bind.mpr (ends_elemKindOf fun k ↦ ?_)
  split <;> exact (spec_pure _).mpr (h _)

theorem ends_opArrayResize (hop : ins.op = .arrayResize) :
    Ends (opArrayResize ctx ins) (fun _ ↦ LimitsKept ctx.rf ins s) s := by
  simp only [opArrayResize, spec_bind, spec_vmLoadPtr, spec_vmLoadU32, spec_ite,
    spec_jelloVmTrap, true_and]
  refine ⟨fun _ ↦ newLengths_trap, fun _ ↦ ends_arrayAt fun a ha ↦ ?_⟩
  simp only [spec_read, spec_pure, spec_writeCell]
  refine ⟨fun _ ↦ newLengths_trap, fun hlimit ↦
    ⟨fun _ ↦ refl_of (NewLengths _ _) s, fun _ ↦ ?_⟩⟩
  have hfits : Fits ctx.rf ins s s.maxArrayLen (load32 s.mem (ctx.rf.addr ins.rc)) :=
    fits_of_within (within_of_not hlimit) (by simp only [lengthSum, hop])
  refine ⟨fun _ ↦ limitsKept_resized (refl_of (NewLengths _ _) s) hfits, fun _ ↦ ?_⟩
  refine ends_jelloArrayDefaultElem fun v ↦ ?_
  exact limitsKept_resized (refl_of (NewLengths _ _) s) hfits

theorem ends_opConstBytes (hop : ins.op = .constBytes) (hfits : ConstFits ctx.m ins s) :
    Ends (opConstBytes ctx ins) (fun _ ↦ LimitsKept ctx.rf ins s) s := by
  simp only [opConstBytes, spec_bind, spec_read, spec_ite, spec_jelloVmTrap, spec_note,
    spec_regTypeOf, jelloBytesNew, spec_gcAlloc, spec_change, spec_vmStorePtr, true_and]
  refine ⟨fun _ ↦ ⟨fun _ ↦ newLengths_trap, fun _ ↦ spec_fail _⟩, fun hlt ↦
    ⟨fun _ ↦ newLengths_mem, fun hempty ↦ ?_⟩⟩
  have hlength : Fits ctx.rf ins s s.maxBytesLen
      (UInt32.ofNat (ctx.m.constBytes.getD ins.imm.toNat []).length) := by
    refine fits_of_within (hfits hop (Nat.not_le.mp hlt) (not_not.mp hempty)) ?_
    simp only [lengthSum, hop]
  refine (limitsKept_bytes ?_).thenSame rfl rfl rfl
  exact hlength

/-- An instruction that makes or resizes Bytes and arrays keeps the limits, where the constants
do. -/
theorem ends_sized (hsized : ins.op.isSized = true) (hfits : ConstFits ctx.m ins s) :
    Ends (dataOp ins.op ctx ins) (fun _ ↦ LimitsKept ctx.rf ins s) s := by
  cases hop : ins.op <;> rw [hop] at hsized <;>
    simp only [JelloOp.isSized, Bool.false_eq_true] at hsized
  case bytesNew => exact ends_opBytesNew hop
  case bytesConcat2 => exact ends_opBytesConcat2 hop
  case bytesConcatMany => exact ends_opBytesConcatMany hop
  case bytesBitand2 => exact ends_bytesBitwise2 (by simp only [lengthSum, hop])
  case bytesBitor2 => exact ends_bytesBitwise2 (by simp only [lengthSum, hop])
  case bytesBitxor2 => exact ends_bytesBitwise2 (by simp only [lengthSum, hop])
  case constBytes => exact ends_opConstBytes hop hfits
  case arrayNew => exact ends_opArrayNew hop
  case arrayConcat2 => exact ends_opArrayConcat2 hop
  case arrayResize => exact ends_opArrayResize hop

/-- What `CONST_BYTES` makes is as long as the constant. -/
theorem ends_opConstBytes_made (hlt : ins.imm.toNat < s.constBytesCache.length)
    (hempty : s.constBytesCache.getD ins.imm.toNat 0 = 0) :
    Ends (opConstBytes ctx ins) (fun _ s' ↦ s'.bytesLen s.heap.next =
      some (UInt32.ofNat (ctx.m.constBytes.getD ins.imm.toNat []).length)) s := by
  simp only [opConstBytes, spec_bind, spec_read, spec_ite, spec_jelloVmTrap, spec_note,
    spec_regTypeOf, jelloBytesNew, spec_gcAlloc, spec_change, spec_vmStorePtr, true_and]
  refine ⟨fun hle ↦ absurd hle (Nat.not_le.mpr hlt), fun _ ↦
    ⟨fun hne ↦ absurd hempty hne, fun _ ↦ ?_⟩⟩
  simp only [Store.bytesLen, Heap.alloc, Function.update_self, Option.bind_some, Cell.bytesLen]

theorem constFits_of_limitsKept {s' : Store} {u : Unit}
    (hr : result (dataOp ins.op ctx ins) s = .ok (u, s')) (hfree : s.heap.cells s.heap.next = none)
    (h : LimitsKept ctx.rf ins s s') : ConstFits ctx.m ins s := by
  intro hop hlt hempty
  rw [hop] at hr
  rcases h.bytes ((ends_opConstBytes_made hlt hempty).of_result hr) with hold | hnew
  · simp [Store.bytesLen, hfree] at hold
  · exact hnew.within

end Ops

/-- Bytes or an array longer than its limit. -/
def Store.Over (s : Store) (p : JelloValue) : Prop :=
  (∃ n, s.bytesLen p = some n ∧ ¬Within s.maxBytesLen n) ∨
    ∃ n, s.arrayLen p = some n ∧ ¬Within s.maxArrayLen n

/-- What is over its limit was there when the run started, or came from something other than the
instructions that make or resize Bytes and arrays. -/
inductive Foreign (ex : Exec) (reference : Bool) (build : Build) : VM → JelloValue → Prop
  | start {vm : VM} {p : JelloValue} (h : Starts ex vm) (hover : vm.store.Over p) :
      Foreign ex reference build vm p
  | head {vm vm₁ : VM} {p : JelloValue} (hhead : result (checkExc ex) vm = .ok (none, vm₁))
      (hp : vm.store.Over p → Foreign ex reference build vm p) (hover : vm₁.store.Over p) :
      Foreign ex reference build vm₁ p
  | other {vm₁ vm₂ : VM} {p : JelloValue} {ins : JelloInsn} (hnext : vm₁.nextInsn ex = some ins)
      (hother : ins.op.isSized = false)
      (hbody : result (execInsn ex reference build) vm₁ = .ok (none, vm₂))
      (hp : vm₁.store.Over p → Foreign ex reference build vm₁ p) (hover : vm₂.store.Over p) :
      Foreign ex reference build vm₂ p
  | left {vm₁ vm₂ : VM} {p : JelloValue}
      (hbody : result (execInsn ex reference build) vm₁ = .ok (none, vm₂))
      (hold : Foreign ex reference build vm₁ p)
      (hlen : vm₂.store.lenAt p = vm₁.store.lenAt p) (hover : vm₂.store.Over p) :
      Foreign ex reference build vm₂ p

section Runs

variable {ex : Exec} {reference : Bool} {build : Build} {vm₁ vm₂ : VM} {fr : CallFrame}
  {frs : List CallFrame} {ins : JelloInsn} {st : Option ExecStatus}

theorem result_fetch (hfr : vm₁.callFrames = fr :: frs) (hnext : vm₁.nextInsn ex = some ins) :
    result (fetch ex) vm₁ = .ok (ins, vm₁.fetched) := by
  have hins : (ex.func fr.f).insns[fr.pc]? = some ins := by
    simpa only [VM.nextInsn, hfr] using hnext
  have hvm : { vm₁ with callFrames := { fr with pc := fr.pc + 1 } :: vm₁.callFrames.tail } =
      vm₁.fetched := by
    simp only [VM.fetched, hfr, List.tail_cons]
  simp only [fetch, topFrame, result_bind, result_read, Except.bind, hfr, result_pure, result_note,
    hins, setTopFrame, result_change, ← hvm]

/-- An instruction that is not about control does its data operation, whichever loop runs it. -/
theorem result_dataInsn (hinline : inlineControl ex ins = none)
    (hcontrol : controlOp ex build ins = none) (vm : VM) :
    result (if reference then opDispatch ex build ins else inlineInsn ex build ins) vm =
      result (do onCtx ex (dataOp ins.op) ins; pure OpResult.continue_ : VMM OpResult) vm := by
  have hdispatch : result (opDispatch ex build ins) vm =
      result (do onCtx ex (dataOp ins.op) ins; pure OpResult.continue_ : VMM OpResult) vm := by
    simp only [opDispatch, hcontrol]
    exact result_andContinue ex ins (dispatched_same build ins ins.op) vm
  cases reference with
  | true => exact hdispatch
  | false =>
    simp only [Bool.false_eq_true, if_false, inlineInsn, hinline]
    cases hx : inlineOp ins.op with
    | none => exact hdispatch
    | some x => exact result_andContinue ex ins (fun ctx ↦ inlineOp_same ctx ins hx) vm

theorem execInsn_eq : execInsn ex reference build = (do
    let ins ← fetch ex
    let r ← (if reference then opDispatch ex build ins else inlineInsn ex build ins)
    pure (if r = .return_ then some ExecStatus.ok else none)) := by
  unfold execInsn
  congr 1
  funext ins
  split_ifs <;> rfl

theorem store_of_execInsn (hfr : vm₁.callFrames = fr :: frs) (hnext : vm₁.nextInsn ex = some ins)
    (hinline : inlineControl ex ins = none) (hcontrol : controlOp ex build ins = none)
    (hbody : result (execInsn ex reference build) vm₁ = .ok (st, vm₂)) :
    result (dataOp ins.op (ex.ctx { fr with pc := fr.pc + 1 }) ins) vm₁.store =
      .ok ((), vm₂.store) := by
  rw [execInsn_eq] at hbody
  obtain ⟨ins', vm, hfetch, hrest⟩ := bind_ok hbody
  obtain ⟨rfl, rfl⟩ : ins = ins' ∧ vm₁.fetched = vm := by
    simpa [result_fetch hfr hnext] using hfetch
  obtain ⟨r, vm', hexec, hpure⟩ := bind_ok hrest
  rw [result_dataInsn hinline hcontrol] at hexec
  obtain ⟨u, vm'', hdata, hr⟩ := bind_ok hexec
  obtain ⟨rfl, rfl⟩ : OpResult.continue_ = r ∧ vm'' = vm' := by simpa using hr
  obtain ⟨-, rfl⟩ : none = st ∧ vm'' = vm₂ := by simpa using hpure
  have htop : vm₁.fetched.callFrames = { fr with pc := fr.pc + 1 } :: frs := by
    simp only [VM.fetched, hfr]
  have hstore : vm₁.fetched.store = vm₁.store := by simp only [VM.fetched, hfr]
  simp only [onCtx, topFrame, result_bind, result_read, Except.bind, htop, result_pure, onStore,
    result_onPart, hstore] at hdata
  cases hop : result (dataOp ins.op (ex.ctx { fr with pc := fr.pc + 1 }) ins) vm₁.store with
  | error e => simp [hop, Except.map] at hdata
  | ok p =>
    simp only [hop, Except.map, Except.ok.injEq, Prod.mk.injEq] at hdata
    rw [← hdata.2]
    rfl

theorem sized_data (ex : Exec) (build : Build) (hsized : ins.op.isSized = true) :
    inlineControl ex ins = none ∧ controlOp ex build ins = none := by
  obtain ⟨op, a, b, c, imm⟩ := ins
  cases op <;> simp only [JelloOp.isSized, Bool.false_eq_true] at hsized <;> exact ⟨rfl, rfl⟩

theorem topFrame_of_nextInsn (hnext : vm₁.nextInsn ex = some ins) :
    ∃ fr frs, vm₁.callFrames = fr :: frs := by
  cases hfr : vm₁.callFrames with
  | nil => simp [VM.nextInsn, hfr] at hnext
  | cons fr frs => exact ⟨fr, frs, rfl⟩

theorem limitsKept_iff (hfr : vm₁.callFrames = fr :: frs) (hnext : vm₁.nextInsn ex = some ins)
    (hsized : ins.op.isSized = true)
    (hbody : result (execInsn ex reference build) vm₁ = .ok (st, vm₂)) :
    (ConstFits ex.m ins vm₁.store → LimitsKept fr.rf ins vm₁.store vm₂.store) ∧
      (vm₁.store.heap.cells vm₁.store.heap.next = none →
        LimitsKept fr.rf ins vm₁.store vm₂.store → ConstFits ex.m ins vm₁.store) := by
  obtain ⟨hinline, hcontrol⟩ := sized_data ex build hsized
  have hdata := store_of_execInsn hfr hnext hinline hcontrol hbody
  refine ⟨fun hfits ↦ ?_, fun hfree hkept ↦ ?_⟩
  · have hfits' : ConstFits (ex.ctx { fr with pc := fr.pc + 1 }).m ins vm₁.store := hfits
    exact (ends_sized hsized hfits').of_result hdata
  · exact constFits_of_limitsKept hdata hfree hkept

theorem over_of_limitsKept {rf : RegFrame} {s s' : Store} {p : JelloValue}
    (h : LimitsKept rf ins s s') (hover : s'.Over p) : s.Over p ∧ s'.lenAt p = s.lenAt p := by
  rcases hover with ⟨n, hn, hwithin⟩ | ⟨n, hn, hwithin⟩
  · rw [h.maxBytesLen] at hwithin
    rcases h.bytes hn with hold | hnew
    · exact ⟨.inl ⟨n, hold, hwithin⟩, (lenAt_of_bytesLen hn).trans (lenAt_of_bytesLen hold).symm⟩
    · exact absurd hnew.within hwithin
  · rw [h.maxArrayLen] at hwithin
    rcases h.arrays hn with hold | hnew
    · exact ⟨.inr ⟨n, hold, hwithin⟩, (lenAt_of_arrayLen hn).trans (lenAt_of_arrayLen hold).symm⟩
    · exact absurd hnew.within hwithin

/-- The constant that is made next, if any, is within the limit. -/
def ConstantFits (ex : Exec) (vm : VM) : Prop :=
  ∀ ins, vm.nextInsn ex = some ins → ConstFits ex.m ins vm.store

/-- In a run in which the constants are within the limit, nothing over a limit comes from an
instruction that makes or resizes Bytes and arrays. -/
theorem foreign_of_run (h : Run ex reference build (ConstantFits ex) vm₁) (p : JelloValue)
    (hover : vm₁.store.Over p) : Foreign ex reference build vm₁ p := by
  induction h generalizing p with
  | start h => exact .start h hover
  | @round vm vm₁ vm₂ _ hhead hP hbody ih =>
    have hforeign : vm₁.store.Over p → Foreign ex reference build vm₁ p :=
      fun hover ↦ .head hhead (ih p) hover
    obtain ⟨ins, hnext⟩ := nextInsn_of_execInsn hbody
    cases hsized : ins.op.isSized with
    | false => exact .other hnext hsized hbody hforeign hover
    | true =>
      obtain ⟨fr, frs, hfr⟩ := topFrame_of_nextInsn hnext
      have hkept := (limitsKept_iff hfr hnext hsized hbody).1 (hP ins hnext)
      obtain ⟨hold, hlen⟩ := over_of_limitsKept hkept hover
      exact .left hbody (hforeign hold) hlen hover

/-- In a run in which every constant is within the limit, what is over its limit does not come
from the instructions that make or resize Bytes and arrays; in every run, such an instruction
keeps the limits and adds lengths exactly if the constant that it makes is within the limit. -/
theorem limits_kept :
    (∀ vm, Run ex reference build (ConstantFits ex) vm → ∀ p, vm.store.Over p →
        Foreign ex reference build vm p) ∧
      ∀ vm₁ vm₂ fr frs ins st, Fetches ex reference build (fun _ ↦ True) vm₁ →
        vm₁.callFrames = fr :: frs → vm₁.nextInsn ex = some ins → ins.op.isSized = true →
        result (execInsn ex reference build) vm₁ = .ok (st, vm₂) →
        (ConstFits ex.m ins vm₁.store → LimitsKept fr.rf ins vm₁.store vm₂.store) ∧
          (vm₁.store.heap.cells vm₁.store.heap.next = none →
            LimitsKept fr.rf ins vm₁.store vm₂.store → ConstFits ex.m ins vm₁.store) :=
  ⟨fun _ hrun ↦ foreign_of_run hrun, fun _ _ _ _ _ _ _ hfr hnext hsized hbody ↦
    limitsKept_iff hfr hnext hsized hbody⟩

end Runs

/-- Two Bytes of length 2 are joined, and a constant of length 5 is loaded. -/
def sizedModule : JelloBcModule :=
  { tailTryModule with
    features := { (default : Features) with constBytes := true }
    types := [⟨.i32, 0⟩, ⟨.bytes, 0⟩]
    constBytes := [[1, 2, 3, 4, 5]]
    funcs :=
      [{ regTypes := [0, 1]
         capStart := 0
         insns := [{ op := .constI32, a := 0, b := 0, c := 0, imm := 2 },
           { op := .bytesNew, a := 1, b := 0, c := 0, imm := 0 },
           { op := .bytesConcat2, a := 1, b := 1, c := 1, imm := 0 },
           { op := .constBytes, a := 1, b := 0, c := 0, imm := 0 },
           { op := .ret, a := 1, b := 0, c := 0, imm := 0 }]
         sourceFile := 0
         lines := [] }] }

/-- `jello_vm_set_max_bytes_len` and `jello_vm_set_max_array_len` on a new machine. -/
def limitedVm (limit : UInt32) : VM :=
  jelloVmCreate.setStore
    { jelloVmCreate.store with maxBytesLen := limit, maxArrayLen := limit }

/-- The next instruction, the number of frames, the limit, and the lengths of the Bytes at the
third and at the fourth address. -/
def VM.sizedView (ex : Exec) (vm : VM) :
    Option JelloOp × ℕ × UInt32 × Option UInt32 × Option UInt32 :=
  ((vm.nextInsn ex).map JelloInsn.op, vm.callFrames.length, vm.store.maxBytesLen,
    vm.store.bytesLen 32, vm.store.bytesLen 48)

instance decEqSizedView : DecidableEq (Option JelloOp × ℕ × UInt32 × Option UInt32 × Option UInt32) :=
  inferInstance

/-- `CONST_BYTES` makes Bytes of length 5 on a machine with the limit 4. -/
theorem constBytes_over_limit : Accepted sizedModule ∧
    ∃ vm₁ vm₂ ins p, Fetches (Exec.alone sizedModule) false .switch (fun _ ↦ True) vm₁ ∧
      vm₁.nextInsn (Exec.alone sizedModule) = some ins ∧ ins.op = .constBytes ∧
      vm₁.store.maxBytesLen = 4 ∧ vm₁.store.bytesLen p = none ∧
      result (execInsn (Exec.alone sizedModule) false .switch) vm₁ = .ok (none, vm₂) ∧
      vm₂.store.maxBytesLen = 4 ∧ vm₂.store.bytesLen p = some 5 := by
  refine ⟨by decide, ?_⟩
  obtain ⟨vm₁, vm₂, hfetch, hv₁, hbody, hv₂, -⟩ := executed_states (Exec.alone sizedModule) false
    .switch (limitedVm 4) 3 (VM.sizedView (Exec.alone sizedModule))
    (VM.sizedView (Exec.alone sizedModule)) none (some .constBytes, 1, 4, some 4, none)
    (some .ret, 1, 4, some 4, some 5) (by decide +kernel) (by decide +kernel)
  simp only [VM.sizedView, Prod.mk.injEq] at hv₁ hv₂
  obtain ⟨ins, hins, hop⟩ := Option.map_eq_some_iff.mp hv₁.1
  exact ⟨vm₁, vm₂, ins, 48, hfetch, hins, hop, hv₁.2.2.1, hv₁.2.2.2.2, hbody, hv₂.2.2.1,
    hv₂.2.2.2.2⟩

theorem bytesConcat2_limits_kept :
    ∃ (vm₁ vm₂ : VM) (fr : CallFrame) (ins : JelloInsn),
      Fetches (Exec.alone sizedModule) false .switch (fun _ ↦ True) vm₁ ∧
      vm₁.nextInsn (Exec.alone sizedModule) = some ins ∧ ins.op = .bytesConcat2 ∧
      vm₂.store.bytesLen 32 = some 4 ∧ LimitsKept fr.rf ins vm₁.store vm₂.store := by
  obtain ⟨vm₁, vm₂, hfetch, hv₁, hbody, hv₂, -⟩ := executed_states (Exec.alone sizedModule) false
    .switch (limitedVm 4) 2 (VM.sizedView (Exec.alone sizedModule))
    (VM.sizedView (Exec.alone sizedModule)) none (some .bytesConcat2, 1, 4, none, none)
    (some .constBytes, 1, 4, some 4, none) (by decide +kernel) (by decide +kernel)
  simp only [VM.sizedView, Prod.mk.injEq] at hv₁ hv₂
  obtain ⟨ins, hins, hop⟩ := Option.map_eq_some_iff.mp hv₁.1
  obtain ⟨fr, hfr⟩ := List.length_eq_one_iff.mp hv₁.2.1
  refine ⟨vm₁, vm₂, fr, ins, hfetch, hins, hop, hv₂.2.2.2.1, ?_⟩
  refine (limits_kept.2 vm₁ vm₂ fr [] ins none hfetch hfr hins ?_ hbody).1 ?_
  · rw [hop]
    rfl
  · intro hconst
    rw [hop] at hconst
    exact JelloOp.noConfusion hconst

end JelloVM
