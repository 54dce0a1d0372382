import JelloVM.Library.LittleEndian

namespace Recogniser

open LittleEndian

variable {E α β γ : Type}

/-- A reader at an offset, which may fail. -/
abbrev Reader (E α : Type) := StateT ℕ (Except E) α

/-- The texts of the values. -/
abbrev Grammar (α : Type) := List UInt8 → α → Prop

/-- A buffer: what it holds, and how much of that is its own. -/
structure Buffer where
  data : ℕ → UInt8
  size : ℕ

/-- The text stands in the buffer at an offset. -/
def Buffer.At (b : Buffer) : ℕ → List UInt8 → Prop
  | _, [] => True
  | off, c :: bs => (off < b.size ∧ b.data off = c) ∧ b.At (off + 1) bs

/-- The `n` bytes from an offset on. -/
def Buffer.slice (b : Buffer) (off n : ℕ) : List UInt8 :=
  (List.range n).map fun i ↦ b.data (off + i)

section At

variable {b : Buffer} {off n : ℕ} {bs cs : List UInt8}

@[simp] theorem at_nil : b.At off [] := trivial

theorem at_cons {c : UInt8} :
    b.At off (c :: bs) ↔ (off < b.size ∧ b.data off = c) ∧ b.At (off + 1) bs := Iff.rfl

theorem at_append : b.At off (bs ++ cs) ↔ b.At off bs ∧ b.At (off + bs.length) cs := by
  induction bs generalizing off with
  | nil => simp
  | cons c bs ih =>
    rw [List.cons_append, at_cons, at_cons, ih, List.length_cons, and_assoc, and_assoc, and_assoc,
      Nat.add_assoc, Nat.add_comm 1]

theorem Buffer.At.unique (h : b.At off bs) (h' : b.At off cs) (hlen : bs.length = cs.length) :
    bs = cs := by
  induction bs generalizing off cs with
  | nil => exact (List.eq_nil_of_length_eq_zero hlen.symm).symm
  | cons c bs ih =>
    cases cs with
    | nil => cases hlen
    | cons d cs => rw [← h.1.2, ← h'.1.2, ih h.2 h'.2 (Nat.succ.inj hlen)]

theorem Buffer.At.transfer {b' : Buffer} (h : b.At off bs) (hsize : off + bs.length ≤ b'.size)
    (hdata : ∀ i < off + bs.length, b'.data i = b.data i) : b'.At off bs := by
  induction bs generalizing off with
  | nil => exact at_nil
  | cons c bs ih =>
    rw [List.length_cons, ← Nat.add_assoc, Nat.add_right_comm] at hsize hdata
    exact ⟨⟨by omega, (hdata off (by omega)).trans h.1.2⟩, ih h.2 hsize hdata⟩

@[simp] theorem length_slice : (b.slice off n).length = n := by simp [Buffer.slice]

theorem slice_succ : b.slice off (n + 1) = b.data off :: b.slice (off + 1) n := by
  simp only [Buffer.slice, List.range_succ_eq_map, List.map_cons, Nat.add_zero, List.map_map]
  congr 1
  apply List.map_congr_left
  intro i _
  rw [Function.comp_apply, Nat.succ_eq_add_one, Nat.add_comm i, Nat.add_assoc]

theorem at_slice (h : off + n ≤ b.size ∨ n = 0) : b.At off (b.slice off n) := by
  induction n generalizing off with
  | zero => exact at_nil
  | succ n ih =>
    rw [slice_succ]
    exact ⟨⟨by omega, rfl⟩, ih (by omega)⟩

theorem Buffer.At.size_le (h : b.At off bs) : off + bs.length ≤ b.size ∨ bs = [] := by
  induction bs generalizing off with
  | nil => exact .inr rfl
  | cons c bs ih =>
    left
    have hlt := h.1.1
    obtain hle | rfl := ih h.2
    · rw [List.length_cons]
      omega
    · rw [List.length_singleton]
      omega

theorem Buffer.At.length_le (h : b.At 0 bs) : bs.length ≤ b.size := by
  obtain hle | rfl := h.size_le
  · rwa [Nat.zero_add] at hle
  · exact Nat.zero_le _

theorem Buffer.At.eq_slice (h : b.At off bs) : bs = b.slice off bs.length :=
  h.unique (at_slice (h.size_le.imp_right fun hnil ↦ by rw [hnil, List.length_nil]))
    length_slice.symm

/-- The buffer that is a text. -/
def Buffer.ofList (bs : List UInt8) : Buffer := ⟨fun i ↦ bs.getD i 0, bs.length⟩

theorem at_ofList_append (bs cs : List UInt8) : (Buffer.ofList (bs ++ cs)).At bs.length cs := by
  induction cs generalizing bs with
  | nil => exact at_nil
  | cons c cs ih =>
    have hrest := ih (bs ++ [c])
    rw [List.append_assoc, List.length_append, List.length_singleton] at hrest
    exact ⟨⟨by simp [Buffer.ofList], by simp [Buffer.ofList]⟩, hrest⟩

theorem at_ofList (bs : List UInt8) : (Buffer.ofList bs).At 0 bs := at_ofList_append [] bs

end At

/-- The reader goes through exactly where a text stands, gives what the text means, and stops
behind it. -/
def Recognises (b : Buffer) (x : Reader E α) (G : Grammar α) : Prop :=
  ∀ off a off', x off = .ok (a, off') ↔ ∃ bs, G bs a ∧ b.At off bs ∧ off' = off + bs.length

/-- The empty text, for the values of a kind. -/
def Grammar.only (P : α → Prop) : Grammar α := fun bs a ↦ bs = [] ∧ P a

/-- One text after the other; the second may depend on what the first means. -/
def Grammar.bind (G : Grammar α) (F : α → Grammar β) : Grammar β := fun bs v ↦
  ∃ a bs₁ bs₂, bs = bs₁ ++ bs₂ ∧ G bs₁ a ∧ F a bs₂ v

/-- Texts of values, one after the other. -/
def Grammar.many (G : Grammar α) : Grammar (List α) := fun bs as ↦
  ∃ bss, List.Forall₂ G bss as ∧ bs = bss.flatten

section Many

variable {G : Grammar α} {P : α → Prop}

theorem many_nil {bs : List UInt8} : G.many bs [] ↔ bs = [] := by
  constructor
  · rintro ⟨bss, h, rfl⟩
    obtain rfl := List.forall₂_nil_right_iff.mp h
    rfl
  · rintro rfl
    exact ⟨[], .nil, rfl⟩

theorem many_cons {bs : List UInt8} {a : α} {as : List α} :
    G.many bs (a :: as) ↔ ∃ bs₁ bs₂, bs = bs₁ ++ bs₂ ∧ G bs₁ a ∧ G.many bs₂ as := by
  constructor
  · rintro ⟨bss, h, rfl⟩
    obtain ⟨bs₁, bss', h₁, hs, rfl⟩ := List.forall₂_cons_right_iff.mp h
    exact ⟨bs₁, bss'.flatten, rfl, h₁, bss', hs, rfl⟩
  · rintro ⟨bs₁, _, rfl, h₁, bss, hs, rfl⟩
    exact ⟨bs₁ :: bss, .cons h₁ hs, rfl⟩

theorem many_and {bs : List UInt8} {as : List α} :
    Grammar.many (fun bs a ↦ G bs a ∧ P a) bs as ↔ G.many bs as ∧ ∀ a ∈ as, P a := by
  induction as generalizing bs with
  | nil => simp [many_nil]
  | cons a as ih =>
    simp only [many_cons, ih, List.forall_mem_cons]
    constructor
    · rintro ⟨bs₁, bs₂, rfl, ⟨h₁, hp⟩, hs, hps⟩
      exact ⟨⟨bs₁, bs₂, rfl, h₁, hs⟩, hp, hps⟩
    · rintro ⟨⟨bs₁, bs₂, rfl, h₁, hs⟩, hp, hps⟩
      exact ⟨bs₁, bs₂, rfl, ⟨h₁, hp⟩, hs, hps⟩

theorem many_map {G' : Grammar β} {f : α → β} {bs : List UInt8} {as : List α} (h : G.many bs as)
    (hf : ∀ bs a, G bs a → G' bs (f a)) : G'.many bs (as.map f) := by
  induction as generalizing bs with
  | nil => exact many_nil.mpr (many_nil.mp h)
  | cons a as ih =>
    obtain ⟨bs₁, bs₂, rfl, ha, hs⟩ := many_cons.mp h
    exact many_cons.mpr ⟨bs₁, bs₂, rfl, hf bs₁ a ha, ih hs⟩

theorem many_flatMap {write : α → List UInt8} (as : List α) (h : ∀ a ∈ as, G (write a) a) :
    G.many (as.flatMap write) as := by
  induction as with
  | nil => exact many_nil.mpr rfl
  | cons a as ih =>
    rw [List.forall_mem_cons] at h
    exact many_cons.mpr ⟨write a, as.flatMap write, rfl, h.1, ih h.2⟩

end Many

section Recognises

variable {b : Buffer} {x : Reader E α} {G G' : Grammar α}

theorem Recognises.congr (h : Recognises b x G) (hG : ∀ bs a, G bs a ↔ G' bs a) :
    Recognises b x G' := by
  intro off a off'
  rw [h off a off']
  exact exists_congr fun bs ↦ and_congr_left fun _ ↦ hG bs a

theorem recognises_pure (a : α) : Recognises b (pure a : Reader E α) (.only (· = a)) := by
  intro off v off'
  constructor
  · intro h
    obtain ⟨rfl, rfl⟩ := Prod.mk.inj (Except.ok.inj h)
    exact ⟨[], ⟨rfl, rfl⟩, at_nil, rfl⟩
  · rintro ⟨_, ⟨rfl, rfl⟩, -, rfl⟩
    rfl

theorem recognises_bind_of {f : α → Reader E β} {F : α → Grammar β} (hx : Recognises b x G)
    (hf : ∀ bs a, G bs a → Recognises b (f a) (F a)) : Recognises b (x >>= f) (G.bind F) := by
  intro off v off'
  have hrun : (x >>= f) off = (x off).bind fun r ↦ f r.1 r.2 := rfl
  rw [hrun]
  constructor
  · intro h
    cases hr : x off with
    | error e => simp [hr, Except.bind] at h
    | ok r =>
      rw [hr] at h
      obtain ⟨bs₁, h₁, hat₁, hoff₁⟩ := (hx off r.1 r.2).mp hr
      obtain ⟨bs₂, h₂, hat₂, rfl⟩ := (hf bs₁ r.1 h₁ r.2 v off').mp h
      rw [hoff₁] at hat₂ ⊢
      refine ⟨bs₁ ++ bs₂, ⟨r.1, bs₁, bs₂, rfl, h₁, h₂⟩, at_append.mpr ⟨hat₁, hat₂⟩, ?_⟩
      rw [List.length_append, Nat.add_assoc]
  · rintro ⟨_, ⟨a, bs₁, bs₂, rfl, h₁, h₂⟩, hat, rfl⟩
    obtain ⟨hat₁, hat₂⟩ := at_append.mp hat
    rw [(hx off a _).mpr ⟨bs₁, h₁, hat₁, rfl⟩]
    refine (hf bs₁ a h₁ _ v _).mpr ⟨bs₂, h₂, hat₂, ?_⟩
    rw [List.length_append, Nat.add_assoc]

theorem recognises_bind {f : α → Reader E β} {F : α → Grammar β} (hx : Recognises b x G)
    (hf : ∀ a, Recognises b (f a) (F a)) : Recognises b (x >>= f) (G.bind F) :=
  recognises_bind_of hx fun _ a _ ↦ hf a

theorem recognises_then {f : α → Reader E β} {P : α → β → Prop} (hx : Recognises b x G)
    (hf : ∀ a, Recognises b (f a) (.only (P a))) :
    Recognises b (x >>= f) fun bs v ↦ ∃ a, G bs a ∧ P a v := by
  refine (recognises_bind hx hf).congr fun bs v ↦ ?_
  constructor
  · rintro ⟨a, bs₁, _, rfl, h, rfl, hp⟩
    exact ⟨a, by rwa [List.append_nil], hp⟩
  · rintro ⟨a, h, hp⟩
    exact ⟨a, bs, [], (List.append_nil bs).symm, h, rfl, hp⟩

theorem recognises_after {f : α → Reader E β} {P : α → Prop} {F : α → Grammar β}
    (hx : Recognises b x (.only P)) (hf : ∀ a, Recognises b (f a) (F a)) :
    Recognises b (x >>= f) fun bs v ↦ ∃ a, P a ∧ F a bs v := by
  refine (recognises_bind hx hf).congr fun bs v ↦ ?_
  constructor
  · rintro ⟨a, _, bs₂, rfl, ⟨rfl, hp⟩, h⟩
    exact ⟨a, hp, h⟩
  · rintro ⟨a, hp, h⟩
    exact ⟨a, [], bs, rfl, ⟨rfl, hp⟩, h⟩

theorem Recognises.ok {off : ℕ} {a : α} {bs : List UInt8} (h : Recognises b x G) (hG : G bs a)
    (hat : b.At off bs) : x off = .ok (a, off + bs.length) :=
  (h off a _).mpr ⟨bs, hG, hat, rfl⟩

/-- A number of `w` bytes. -/
theorem recognises_le {w : ℕ} {val : α → ℕ} (hw : w ≠ 0) (hval : ∀ a, val a < 256 ^ w)
    (hx : ∀ off a off', x off = .ok (a, off') ↔
      off + w ≤ b.size ∧ off' = off + w ∧ val a = natLE (b.slice off w)) :
    Recognises b x fun bs a ↦ bs = bytesLE w (val a) := by
  intro off a off'
  rw [hx]
  constructor
  · rintro ⟨hsize, rfl, hv⟩
    have htext : b.slice off w = bytesLE w (val a) := by
      have h := bytesLE_natLE (b.slice off w)
      rw [length_slice] at h
      rw [hv, h]
    exact ⟨_, rfl, htext ▸ at_slice (.inl hsize), by rw [length_bytesLE]⟩
  · rintro ⟨_, rfl, hat, rfl⟩
    have hslice := hat.eq_slice
    rw [length_bytesLE] at hslice ⊢
    refine ⟨?_, rfl, ?_⟩
    · obtain hle | hnil := hat.size_le
      · rwa [length_bytesLE] at hle
      · have hlen := congrArg List.length hnil
        rw [length_bytesLE] at hlen
        exact absurd hlen hw
    · rw [← hslice, natLE_bytesLE, Nat.mod_eq_of_lt (hval a)]

end Recognises

end Recogniser
