import Mathlib.Data.List.Basic
import Mathlib.Data.Int.Init

/-! Code as bytes, and where control goes in it: a listing gives the instructions that the bytes
are read as, so that control stays at the beginnings of its instructions. -/

namespace CodeFlow

/-- How the instructions of a machine are read, and where control goes after one: to the next one
if it falls through, and to a distance from its end if it branches. -/
structure Isa (ι : Type) where
  decode : List UInt8 → Option (ι × List UInt8)
  falls : ι → Bool
  branch : ι → Option ℤ

variable {ι : Type} (isa : Isa ι)

/-- One step of control in the code, from one offset to another. -/
inductive Transfer (code : List UInt8) (o : ℕ) : ℕ → Prop
  | next {d : ι} {rest : List UInt8} (h : isa.decode (code.drop o) = some (d, rest))
      (hd : isa.falls d = true) : Transfer code o (code.length - rest.length)
  | branch {d : ι} {rest : List UInt8} {v : ℤ} {o' : ℕ}
      (h : isa.decode (code.drop o) = some (d, rest)) (hd : isa.branch d = some v)
      (ho : (o' : ℤ) = (code.length - rest.length : ℕ) + v) : Transfer code o o'

def transfers (code : List UInt8) (o o' : ℕ) : Bool :=
  match isa.decode (code.drop o) with
  | none => false
  | some (d, rest) =>
    isa.falls d && o' == code.length - rest.length ||
      (isa.branch d).any fun v ↦ (o' : ℤ) == (code.length - rest.length : ℕ) + v

theorem transfer_iff {code : List UInt8} {o o' : ℕ} :
    Transfer isa code o o' ↔ transfers isa code o o' = true := by
  constructor
  · intro hf
    cases hf with
    | next h hd => simp [transfers, h, hd]
    | branch h hd ho => simp [transfers, h, hd, ho]
  · intro h
    cases hdecode : isa.decode (code.drop o) with
    | none => simp [transfers, hdecode] at h
    | some p =>
      obtain ⟨d, rest⟩ := p
      simp only [transfers, hdecode, Bool.or_eq_true, Bool.and_eq_true, beq_iff_eq,
        Option.any_eq_true] at h
      obtain ⟨hd, rfl⟩ | ⟨v, hv, ho⟩ := h
      · exact .next hdecode hd
      · exact .branch hdecode hv ho

instance (code : List UInt8) (o o' : ℕ) : Decidable (Transfer isa code o o') :=
  decidable_of_iff _ (transfer_iff isa).symm

/-- Instructions with their bytes; bytes without an instruction are not looked at. -/
abbrev Listing (ι : Type) := List (Option ι × List UInt8)

namespace Listing

variable {isa} {l l' : Listing ι} {k : ℕ} {d : ι} {bs before after : List UInt8}

def bytes (l : Listing ι) : List UInt8 := l.flatMap Prod.snd

def offset (l : Listing ι) (k : ℕ) : ℕ := (bytes (l.take k)).length

/-- The instructions of the listing are what is read there, whatever follows. -/
def Read (isa : Isa ι) (l : Listing ι) : Prop :=
  ∀ p ∈ l, ∀ d, p.1 = some d → ∀ rest, isa.decode (p.2 ++ rest) = some (d, rest)

@[simp] theorem bytes_nil : bytes ([] : Listing ι) = [] := rfl

@[simp] theorem bytes_cons (p : Option ι × List UInt8) : bytes (p :: l) = p.2 ++ bytes l :=
  List.flatMap_cons

@[simp] theorem bytes_append : bytes (l ++ l') = bytes l ++ bytes l' := List.flatMap_append

@[simp] theorem offset_zero : offset l 0 = 0 := rfl

@[simp] theorem offset_length : offset l l.length = (bytes l).length := by
  rw [offset, List.take_length]

theorem offset_succ {p : Option ι × List UInt8} (h : l[k]? = some p) :
    offset l (k + 1) = offset l k + p.2.length := by
  obtain ⟨hk, rfl⟩ := List.getElem?_eq_some_iff.mp h
  rw [offset, List.take_succ_eq_append_getElem hk, bytes_append, List.length_append, offset]
  simp

theorem bytes_split (h : l[k]? = some (some d, bs)) :
    bytes l = bytes (l.take k) ++ (bs ++ bytes (l.drop (k + 1))) := by
  obtain ⟨hk, hget⟩ := List.getElem?_eq_some_iff.mp h
  have hl : l = l.take k ++ l[k] :: l.drop (k + 1) := by
    rw [List.getElem_cons_drop, List.take_append_drop]
  conv_lhs => rw [hl, bytes_append, bytes_cons, hget]

variable {code : List UInt8}

/-- At the beginning of an instruction of a listing the code is read as that instruction. -/
theorem Read.decode_at (hl : Read isa l) (hcode : code = before ++ bytes l ++ after)
    (h : l[k]? = some (some d, bs)) :
    ∃ rest, isa.decode (code.drop (before.length + offset l k)) = some (d, rest) ∧
      code.length - rest.length = before.length + offset l (k + 1) := by
  refine ⟨bytes (l.drop (k + 1)) ++ after, ?_, ?_⟩
  · have hdrop : code.drop (before.length + offset l k) =
        bs ++ (bytes (l.drop (k + 1)) ++ after) := by
      rw [hcode, bytes_split h, offset, ← List.length_append]
      simp only [List.append_assoc]
      rw [← List.append_assoc, List.drop_left]
    rw [hdrop]
    exact hl _ (List.mem_of_getElem? h) d rfl _
  · rw [offset_succ h, hcode, bytes_split h, offset]
    simp only [List.length_append]
    omega

/-- From the beginning of an instruction control goes to that of the next one, if the instruction
falls through, or to where it branches. -/
theorem Read.flow (hl : Read isa l) (hcode : code = before ++ bytes l ++ after)
    (h : l[k]? = some (some d, bs)) {o' : ℕ}
    (hf : Transfer isa code (before.length + offset l k) o') :
    (isa.falls d = true ∧ o' = before.length + offset l (k + 1)) ∨
      ∃ v, isa.branch d = some v ∧ (o' : ℤ) = (before.length + offset l (k + 1) : ℕ) + v := by
  obtain ⟨rest, hdecode, hend⟩ := hl.decode_at hcode h
  cases hf with
  | next h' hd =>
    obtain ⟨rfl, rfl⟩ := Prod.mk.inj (Option.some.inj (hdecode.symm.trans h'))
    exact .inl ⟨hd, hend⟩
  | @branch d' rest' v _ h' hd ho =>
    obtain ⟨rfl, rfl⟩ := Prod.mk.inj (Option.some.inj (hdecode.symm.trans h'))
    rw [hend] at ho
    exact .inr ⟨v, hd, ho⟩

end Listing

section Patch

variable {α : Type} {a w w' c : List α}

def overwrite (pos : ℕ) (w bs : List α) : List α :=
  bs.take pos ++ w ++ bs.drop (pos + w.length)

theorem overwrite_append (hw : w'.length = w.length) :
    overwrite a.length w (a ++ w' ++ c) = a ++ w ++ c := by
  have hdrop : (a ++ w' ++ c).drop (a.length + w.length) = c := by
    rw [← hw, ← List.length_append, List.drop_left]
  rw [overwrite, hdrop, List.append_assoc a w' c, List.take_left]

end Patch

end CodeFlow
