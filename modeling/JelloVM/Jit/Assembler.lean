import JelloVM.Jit.Linked
import JelloVM.Jit.Emit

/-! Code with branches to places that have a name: the branches are recorded while code is emitted,
and patched where their place is known. -/

namespace JelloVM

open Function X64 CodeFlow

/-- The encoder of an instruction of the scalar sites. -/
def encoderOf : Insn → Option Encoder
  | .mov32 dst src => some (.movR32Rr dst src)
  | .mov64 dst src => some (.movRr dst src)
  | .movImm32 dst imm => some (.movR32Imm dst imm)
  | .movImm64 dst imm => some (.movR64Imm dst imm)
  | .load32 dst base disp => some (.loadR32Disp dst base disp)
  | .load64 dst base disp => some (.loadR64Disp dst base disp)
  | .store32 src base disp => some (.storeR32Disp src base disp)
  | .store64 src base disp => some (.storeR64Disp src base disp)
  | .alu32 .add dst src => some (.addR32Rr dst src)
  | .alu32 .sub dst src => some (.subR32Rr dst src)
  | .alu32 .xor dst src => some (.xorR32 dst src)
  | .alu32 .cmp dst src => some (.cmpR32Rr dst src)
  | .alu32 .test dst src => some (.testRr dst src)
  | .alu64 .add dst src => some (.addRr dst src)
  | .alu64 .sub dst src => some (.subRr dst src)
  | .alu64 .xor dst src => some (.xorR64 dst src)
  | .alu64 .cmp dst src => some (.cmpR64Rr dst src)
  | .alu64 .test dst src => some (.testR64 dst src)
  | .aluImm32 .add dst imm => some (.addR32Imm dst imm)
  | .aluImm32 .sub dst imm => some (.subR32Imm dst imm)
  | .aluImm32 .cmp dst imm => some (.cmpR32Imm dst imm)
  | .aluImm32 _ _ _ => none
  | .imul32 dst src => some (.imulR32 dst src)
  | .imul64 dst src => some (.imulR64 dst src)
  | .neg32 dst => some (.negR32 dst)
  | .neg64 dst => some (.negR64 dst)
  | .cdq => some .cdq
  | .cqo => some .cqo
  | .idiv32 divisor => some (.idivR32 divisor)
  | .idiv64 divisor => some (.idivR64 divisor)
  | .shiftCl32 .shl dst => some (.shlR32Cl dst)
  | .shiftCl32 .sar dst => some (.sarR32Cl dst)
  | .shiftCl64 .shl dst => some (.shlR64Cl dst)
  | .shiftCl64 .sar dst => some (.sarR64Cl dst)
  | .setcc .e dst => some (.setcc 4 dst)
  | .setcc .l dst => some (.setcc 12 dst)
  | .setcc .b dst => some (.setcc 2 dst)
  | .movzx8 dst src => some (.movzxR32R8 dst src)
  | .movssLoad dst base disp => some (.loadXmm32Disp (Fin.ofNat 8 dst) base disp)
  | .movsdLoad dst base disp => some (.loadXmm64Disp (Fin.ofNat 8 dst) base disp)
  | .movssStore src base disp => some (.storeXmm32Disp (Fin.ofNat 8 src) base disp)
  | .movsdStore src base disp => some (.storeXmm64Disp (Fin.ofNat 8 src) base disp)
  | .float32 .add dst src => some (.addss (Fin.ofNat 8 dst) (Fin.ofNat 8 src))
  | .float32 .sub dst src => some (.subss (Fin.ofNat 8 dst) (Fin.ofNat 8 src))
  | .float32 .mul dst src => some (.mulss (Fin.ofNat 8 dst) (Fin.ofNat 8 src))
  | .float32 .div dst src => some (.divss (Fin.ofNat 8 dst) (Fin.ofNat 8 src))
  | .float64 .add dst src => some (.addsd (Fin.ofNat 8 dst) (Fin.ofNat 8 src))
  | .float64 .sub dst src => some (.subsd (Fin.ofNat 8 dst) (Fin.ofNat 8 src))
  | .float64 .mul dst src => some (.mulsd (Fin.ofNat 8 dst) (Fin.ofNat 8 src))
  | .float64 .div dst src => some (.divsd (Fin.ofNat 8 dst) (Fin.ofNat 8 src))
  | .sqrtsd dst src => some (.sqrtsd (Fin.ofNat 8 dst) (Fin.ofNat 8 src))
  | .comiss a b => some (.comiss (Fin.ofNat 8 a) (Fin.ofNat 8 b))
  | .comisd a b => some (.comisd (Fin.ofNat 8 a) (Fin.ofNat 8 b))

/-- A register of the list as an operand of the encoders. -/
abbrev xmmOperand (n : ℕ) : Fin 8 := Fin.ofNat 8 n

/-- `X64_CC_JZ` -/
abbrev x64CcJz : Fin 16 := 4

/-- `X64_CC_JNZ` -/
abbrev x64CcJnz : Fin 16 := 5

/-- `X64_CC_JAE` -/
abbrev x64CcJae : Fin 16 := 3

def encodersOf (code : List Insn) : Option (List Encoder) := code.mapM encoderOf

def emitCode (es : List Encoder) : Emitter := fun realloc buf ↦ emitAll realloc buf es

section Emits

variable {T : Targets} {e e' : Emitter} {xs ys items : List Item} {buf b₁ b₂ : JelloJitEmitBuf}

/-- The items have been emitted after what was there. -/
def Stands (T : Targets) (buf : JelloJitEmitBuf) (items : List Item) (b : JelloJitEmitBuf) : Prop :=
  b.data = buf.data ++ (link T buf.data.length items).bytes

def Emits (T : Targets) (e : Emitter) (items : List Item) : Prop :=
  ∀ realloc buf b, e realloc buf = some b → Stands T buf items b

theorem Stands.length (h : Stands T buf items b₁) :
    b₁.data.length = buf.data.length + itemsSize items := by
  rw [h, List.length_append, length_bytes_link]

theorem Stands.append (h : Stands T buf xs b₁) (hc : Closed xs) (h' : Stands T b₁ ys b₂) :
    Stands T buf (xs ++ ys) b₂ := by
  have hlen := h.length
  rw [Stands, hlen] at h'
  rw [Stands, h', h, link_append hc, Listing.bytes_append, List.append_assoc]

theorem Stands.patch (it : Item) (xs ys : List Item) (pos target : ℕ) {enc : Encoder} {n : ℕ}
    (h : Stands T buf items b₁) (hitems : items = xs ++ .plain enc :: ys)
    (he : it.encoder = enc) (hl : it.label = some (.skip n))
    (hpos : pos = buf.data.length + itemsSize xs)
    (htarget : target = buf.data.length + itemsSize xs + it.size + itemsSize (ys.take n)) :
    Stands T buf (xs ++ it :: ys) (patchRel32 it.head.length pos target b₁) := by
  rw [hitems] at h
  exact patch_skip it he hl h hpos htarget

theorem Stands.patch_body (it : Item) (xs ys : List Item) (pos : ℕ) {enc : Encoder}
    (h : Stands T buf items b₁) (hitems : items = xs ++ .plain enc :: ys)
    (he : it.encoder = enc) (hl : it.label = some .body)
    (hpos : pos = buf.data.length + itemsSize xs) :
    Stands T buf (xs ++ it :: ys) (patchRel32 it.head.length pos T.body b₁) := by
  have hlabel : it.label ≠ none := by
    rw [hl]
    exact Option.some_ne_none _
  rw [hitems] at h
  refine patch_item he hlabel h hpos ?_
  rw [hl]
  rfl

theorem emits_code (es : List Encoder) : Emits T (emitCode es) (straight es) := by
  intro realloc buf b h
  rw [Stands, bytes_link_straight]
  rw [emitCode, emitAll] at h
  induction es generalizing buf with
  | nil =>
    cases h
    exact (List.append_nil _).symm
  | cons e es ih =>
    rw [List.foldlM_cons] at h
    obtain ⟨mid, hmid, hrest⟩ := Option.bind_eq_some_iff.mp h
    rw [ih _ hrest, data_of_emit hmid, List.append_assoc, List.flatMap_cons]

theorem Emits.bind (h : Emits T e xs) (hc : Closed xs) (h' : Emits T e' ys) :
    Emits T (fun realloc buf ↦ (e realloc buf).bind (e' realloc)) (xs ++ ys) := by
  intro realloc buf b hb
  obtain ⟨mid, hmid, hrest⟩ := Option.bind_eq_some_iff.mp hb
  exact (h _ _ _ hmid).append hc (h' _ _ _ hrest)

end Emits


section Pieces

variable {L : Type} [DecidableEq L]

/-- A part of an emitter. The branches to a place are patched when it is reached (`land`); a jump
back to one that has been passed (`mark`) is patched at once. -/
inductive Piece (L : Type)
  | code (es : List Encoder)
  | insns (xs : List Insn)
  | jcc (cc : Fin 16) (l : L)
  | jmp (l : L)
  | land (l : L)
  | mark (l : L)
  | back (l : L)

/-- A branch to a place that has not been reached. -/
structure OpenSite (L : Type) where
  place : L
  pos : ℕ
  cond : Bool

structure Asm (L : Type) where
  buf : JelloJitEmitBuf
  sites : List (OpenSite L)
  marks : L → ℕ

def OpenSite.patch (target : ℕ) (buf : JelloJitEmitBuf) (site : OpenSite L) : JelloJitEmitBuf :=
  if site.cond then patchJccRel32 site.pos target buf else patchJmpRel32 site.pos target buf

namespace Asm

def code (realloc : ℕ → Bool) (es : List Encoder) (s : Asm L) : Option (Asm L) :=
  (emitCode es realloc s.buf).map fun buf ↦ { s with buf := buf }

def record (l : L) (cond : Bool) (s : Asm L) : Asm L :=
  { s with sites := s.sites ++ [⟨l, s.buf.data.length, cond⟩] }

def land (l : L) (s : Asm L) : Asm L :=
  { s with
    buf := (s.sites.filter (·.place = l)).foldl (OpenSite.patch s.buf.data.length) s.buf
    sites := s.sites.filter (·.place ≠ l) }

def jumpBack (realloc : ℕ → Bool) (l : L) (s : Asm L) : Option (Asm L) :=
  (s.code realloc [.jmpRel32]).map fun s' ↦
    { s' with buf := patchJmpRel32 s.buf.data.length (s.marks l) s'.buf }

end Asm

def Piece.emit (realloc : ℕ → Bool) (s : Asm L) : Piece L → Option (Asm L)
  | .code es => s.code realloc es
  | .insns xs => (encodersOf xs).bind fun es ↦ s.code realloc es
  | .jcc cc l => (s.record l true).code realloc [.jccRel32 cc]
  | .jmp l => (s.record l false).code realloc [.jmpRel32]
  | .land l => some (s.land l)
  | .mark l => some { s with marks := update s.marks l s.buf.data.length }
  | .back l => s.jumpBack realloc l

def assemble (ps : List (Piece L)) : Emitter := fun realloc buf ↦
  (ps.foldlM (Piece.emit realloc) ⟨buf, [], fun _ ↦ buf.data.length⟩).map Asm.buf

end Pieces

section Inside

variable {items items' : List Item} {o k : ℕ}

/-- An item of finished code: it leads to items. -/
structure Item.Inner (it : Item) : Prop where
  done : it.done = true
  inside : it.branch = none
  goes (l : Label) : it.goes = some l → (∃ n, l = .skip n) ∨ ∃ n, l = .back n

/-- The jumps back lead to items. -/
def Loops (items : List Item) : Prop :=
  ∀ k it d, items[k]? = some it → it.goes = some (.back d) →
    ∃ j ≤ k, ∀ o, itemAt o items (k + 1) = itemAt o items j + d

def Encoder.direct : Encoder → Bool
  | .jmpRel32 | .jccRel32 _ => false
  | _ => true

theorem inner_plain {e : Encoder} (h : e.direct = true) : (Item.plain e).Inner := by
  refine ⟨?_, rfl, fun l hl ↦ absurd hl (by simp [Item.goes])⟩
  cases e with
  | jmpRel32 => exact absurd h (by simp [Encoder.direct])
  | jccRel32 cc => exact absurd h (by simp [Encoder.direct])
  | _ => rfl

theorem direct_encoderOf {x : Insn} {e : Encoder} (h : encoderOf x = some e) :
    e.direct = true := by
  cases x with
  | alu32 op dst src => cases op <;> cases h <;> rfl
  | alu64 op dst src => cases op <;> cases h <;> rfl
  | aluImm32 op dst imm => cases op <;> cases h <;> rfl
  | shiftCl32 op dst => cases op <;> cases h <;> rfl
  | shiftCl64 op dst => cases op <;> cases h <;> rfl
  | setcc cc dst => cases cc <;> cases h <;> rfl
  | float32 op dst src => cases op <;> cases h <;> rfl
  | float64 op dst src => cases op <;> cases h <;> rfl
  | _ =>
    cases h
    rfl

theorem direct_encodersOf {code : List Insn} {es : List Encoder} (h : encodersOf code = some es) :
    es.all Encoder.direct = true := by
  induction code generalizing es with
  | nil =>
    cases h
    rfl
  | cons x code ih =>
    rw [encodersOf, List.mapM_cons] at h
    simp only [Option.bind_eq_bind, Option.bind_eq_some_iff] at h
    obtain ⟨e, he, rest, hrest, h⟩ := h
    cases h
    rw [List.all_cons, direct_encoderOf he, ih hrest]
    rfl

theorem direct_getD {code : List Insn} : ((encodersOf code).getD []).all Encoder.direct = true := by
  cases h : encodersOf code with
  | none => rfl
  | some es => exact direct_encodersOf h

theorem itemAt_append {k : ℕ} (h : k ≤ items.length) :
    itemAt o (items ++ items') k = itemAt o items k := by
  rw [itemAt, List.take_append_of_le_length h, itemAt]

theorem itemAt_congr (h : items'.map Item.size = items.map Item.size) (k : ℕ) :
    itemAt o items' k = itemAt o items k := by
  rw [itemAt, itemAt, itemsSize, itemsSize, List.map_take, List.map_take, h]

theorem Loops.append (h : Loops items)
    (h' : ∀ k it d, items'[k]? = some it → it.goes = some (.back d) →
      ∃ j ≤ items.length + k,
        ∀ o, itemAt o (items ++ items') (items.length + k + 1) = itemAt o (items ++ items') j + d) :
    Loops (items ++ items') := by
  intro k it d hk hd
  rcases Nat.lt_or_ge k items.length with hlt | hle
  · rw [List.getElem?_append_left hlt] at hk
    obtain ⟨j, hj, hat⟩ := h k it d hk hd
    refine ⟨j, hj, fun o ↦ ?_⟩
    rw [itemAt_append hlt, itemAt_append (hj.trans hlt.le), hat]
  · rw [List.getElem?_append_right hle] at hk
    have hback := h' (k - items.length) it d hk hd
    rw [Nat.add_sub_cancel' hle] at hback
    exact hback

end Inside

section Drafts

variable {L : Type}

/-- What has been emitted: an item, or a branch that is still open. -/
inductive CodeEntry (L : Type)
  | item (it : Item)
  | branch (cc : Option (Fin 16)) (l : L)

def CodeEntry.emitted : CodeEntry L → Item
  | .item it => it
  | .branch none _ => .plain .jmpRel32
  | .branch (some cc) _ => .plain (.jccRel32 cc)

def boundTo (l : Label) : Option (Fin 16) → Item
  | none => .jmp l
  | some cc => .jcc cc l

def listed (es : List (CodeEntry L)) : List Item := es.map CodeEntry.emitted

def openSites : ℕ → List (CodeEntry L) → List (OpenSite L)
  | _, [] => []
  | o, .item it :: rest => openSites (o + it.size) rest
  | o, .branch cc l :: rest =>
    ⟨l, o, cc.isSome⟩ :: openSites (o + (CodeEntry.branch cc l).emitted.size) rest

/-- The entries, and how many there were at each place. -/
structure Draft (L : Type) where
  entries : List (CodeEntry L)
  marks : L → ℕ

def Draft.add (es : List (CodeEntry L)) (D : Draft L) : Draft L :=
  { D with entries := D.entries ++ es }

def itemEntries (items : List Item) : List (CodeEntry L) := items.map .item

def Draft.loop (l : L) (D : Draft L) : Item :=
  .jmp (.back (itemsSize ((listed D.entries).drop (D.marks l)) + 5))

structure Draft.Ok (D : Draft L) : Prop where
  closed : Closed (listed D.entries)
  marks (l : L) : D.marks l ≤ D.entries.length
  inner (it : Item) : .item it ∈ D.entries → it.Inner
  loops : Loops (listed D.entries)

variable {es es' : List (CodeEntry L)} {l : L} {D : Draft L} {o : ℕ} {items : List Item}

@[simp] theorem emitted_item (it : Item) : (CodeEntry.item it : CodeEntry L).emitted = it := rfl

@[simp] theorem listed_append : listed (es ++ es') = listed es ++ listed es' := List.map_append

@[simp] theorem length_listed : (listed es).length = es.length := List.length_map _

@[simp] theorem listed_itemEntries : listed (itemEntries (L := L) items) = items := by
  rw [listed, itemEntries, List.map_map]
  exact List.map_id _

theorem openSites_append : openSites o (es ++ es') =
    openSites o es ++ openSites (o + itemsSize (listed es)) es' := by
  induction es generalizing o with
  | nil => rfl
  | cons e es ih =>
    cases e with
    | item it =>
      simp only [List.cons_append, openSites, ih, listed, List.map_cons, itemsSize_cons,
        CodeEntry.emitted, Nat.add_assoc]
    | branch cc l =>
      simp only [List.cons_append, openSites, ih, listed, List.map_cons, itemsSize_cons,
        Nat.add_assoc]

theorem openSites_items : openSites (L := L) o (itemEntries items) = [] := by
  induction items generalizing o with
  | nil => rfl
  | cons it items ih => exact ih

theorem size_boundTo (cc : Option (Fin 16)) (l : L) (b : Label) :
    (boundTo b cc).size = (CodeEntry.branch cc l).emitted.size := by
  cases cc <;> rfl

theorem Draft.Ok.add (h : D.Ok) (hc : Closed (listed es)) (hi : ∀ it, .item it ∈ es → it.Inner)
    (hl : Loops (listed D.entries ++ listed es)) : (D.add es).Ok where
  closed := by
    rw [Draft.add, listed_append]
    exact h.closed.append hc
  marks l := (h.marks l).trans (by simp [Draft.add])
  inner it hit := (List.mem_append.mp hit).elim (h.inner it) (hi it)
  loops := by
    rw [Draft.add, listed_append]
    exact hl

theorem Draft.Ok.forward (h : D.Ok) (hl : ∀ it ∈ items, ∀ d, it.goes ≠ some (.back d)) :
    Loops (listed D.entries ++ items) :=
  h.loops.append fun _ it d hk hd ↦ absurd hd (hl it (List.mem_of_getElem? hk) d)

theorem Draft.Ok.code {es : List Encoder} (h : D.Ok) (hd : es.all Encoder.direct = true) :
    (D.add (itemEntries (straight es))).Ok := by
  have hinner : ∀ it ∈ straight es, it.Inner := by
    intro it hit
    obtain ⟨e, he, rfl⟩ := List.mem_map.mp hit
    exact inner_plain (List.all_eq_true.mp hd e he)
  refine h.add ?_ (fun it hit ↦ ?_) (h.forward fun it hit d hgo ↦ ?_)
  · rw [listed_itemEntries]
    exact closed_straight es
  · obtain ⟨it', hit', heq⟩ := List.mem_map.mp hit
    cases heq
    exact hinner it hit'
  · rw [listed_itemEntries] at hit
    obtain ⟨e, -, rfl⟩ := List.mem_map.mp hit
    exact absurd hgo (by simp [Item.goes])

theorem Draft.Ok.branch (h : D.Ok) (cc : Option (Fin 16)) (l : L) : (D.add [.branch cc l]).Ok := by
  refine h.add ⟨fun n hn ↦ ?_, trivial⟩ (fun it hit ↦ ?_) (h.forward fun it hit d hgo ↦ ?_)
  · cases cc <;> cases hn
  · cases List.mem_singleton.mp hit
  · obtain rfl := List.mem_singleton.mp hit
    cases cc <;> cases hgo

theorem size_loop (D : Draft L) (l : L) : (D.loop l).size = 5 := rfl

theorem itemAt_loop (l : L) (o : ℕ) :
    o + itemsSize (listed D.entries) + 5 = itemAt o (listed D.entries) (D.marks l) +
      (itemsSize ((listed D.entries).drop (D.marks l)) + 5) := by
  have hsplit : itemsSize (listed D.entries) = itemsSize ((listed D.entries).take (D.marks l)) +
      itemsSize ((listed D.entries).drop (D.marks l)) := by
    rw [← itemsSize_append, List.take_append_drop]
  rw [itemAt, hsplit]
  omega

theorem Draft.Ok.back (h : D.Ok) (l : L) : (D.add [.item (D.loop l)]).Ok := by
  refine h.add ⟨fun n hn ↦ ?_, trivial⟩ (fun it hit ↦ ?_) (h.loops.append fun k it d hk hd ↦ ?_)
  · cases hn
  · cases List.mem_singleton.mp hit
    exact ⟨rfl, rfl, fun b hb ↦ .inr ⟨_, (Option.some.inj hb).symm⟩⟩
  · obtain ⟨rfl, rfl⟩ : k = 0 ∧ D.loop l = it := by
      cases k with
      | zero => exact ⟨rfl, Option.some.inj hk⟩
      | succ k => cases hk
    cases hd
    have hle : D.marks l ≤ (listed D.entries).length := (h.marks l).trans_eq length_listed.symm
    refine ⟨D.marks l, hle, fun o ↦ ?_⟩
    rw [itemAt_append hle, ← itemAt_loop l o, itemAt, List.take_of_length_le (by simp),
      itemsSize_append, Nat.add_assoc]
    rfl

end Drafts

section Landed

variable {L : Type} [DecidableEq L]

/-- The branches to a place lead to the end of the entries. -/
def landed (l : L) : List (CodeEntry L) → List (CodeEntry L)
  | [] => []
  | .item it :: rest => .item it :: landed l rest
  | .branch cc l' :: rest =>
    (if l' = l then .item (boundTo (.skip rest.length) cc) else .branch cc l') :: landed l rest

def Piece.draft (D : Draft L) : Piece L → Draft L
  | .code es => D.add (itemEntries (straight es))
  | .insns xs => D.add (itemEntries (straight ((encodersOf xs).getD [])))
  | .jcc cc l => D.add [.branch (some cc) l]
  | .jmp l => D.add [.branch none l]
  | .land l => { D with entries := landed l D.entries }
  | .mark l => { D with marks := update D.marks l D.entries.length }
  | .back l => D.add [.item (D.loop l)]

def draftOf (ps : List (Piece L)) : Draft L := ps.foldl Piece.draft ⟨[], fun _ ↦ 0⟩

/-- The items that the pieces become. -/
def codeItems (ps : List (Piece L)) : List Item := listed (draftOf ps).entries

variable {es : List (CodeEntry L)} {l : L} {o k : ℕ} {T : Targets} {buf b : JelloJitEmitBuf}

theorem sizes_landed : (listed (landed l es)).map Item.size = (listed es).map Item.size := by
  induction es with
  | nil => rfl
  | cons e es ih =>
    cases e with
    | item it => exact congrArg (it.size :: ·) ih
    | branch cc l' =>
      simp only [landed, listed, List.map_cons] at ih ⊢
      rw [ih]
      split_ifs
      · exact congrArg (· :: _) (size_boundTo cc l' _)
      · rfl

@[simp] theorem length_landed : (landed l es).length = es.length := by
  have hsizes : (listed (landed l es)).map Item.size = (listed es).map Item.size := sizes_landed
  simpa using congrArg List.length hsizes

theorem openSites_landed :
    openSites o (landed l es) = (openSites o es).filter (·.place ≠ l) := by
  induction es generalizing o with
  | nil => rfl
  | cons e es ih =>
    cases e with
    | item it => exact ih
    | branch cc l' =>
      by_cases h : l' = l
      · simp [landed, openSites, h, ih, size_boundTo cc l]
      · simp [landed, openSites, h, ih]

/-- The sites of a place are patched: its branches lead to the end of what stands. -/
theorem stands_landed {target : ℕ} (xs : List Item) (h : Stands T buf (xs ++ listed es) b)
    (htarget : target = buf.data.length + itemsSize xs + itemsSize (listed es)) :
    Stands T buf (xs ++ listed (landed l es))
      (((openSites (buf.data.length + itemsSize xs) es).filter (·.place = l)).foldl
        (OpenSite.patch target) b) := by
  induction es generalizing xs b with
  | nil => exact h
  | cons e es ih =>
    have hnext : ∀ it : Item, it.size = e.emitted.size → ∀ b,
        Stands T buf (xs ++ it :: listed es) b → Stands T buf (xs ++ it :: listed (landed l es))
          (((openSites (buf.data.length + itemsSize xs + it.size) es).filter (·.place = l)).foldl
            (OpenSite.patch target) b) := by
      intro it hsize b hb
      have hstep := ih (b := b) (xs ++ [it]) (by simpa using hb) (by
        simp only [htarget, listed, List.map_cons, itemsSize_append, itemsSize_cons, itemsSize_nil,
          hsize]
        omega)
      simpa [← Nat.add_assoc] using hstep
    cases e with
    | item it => exact hnext it rfl b h
    | branch cc l' =>
      by_cases hl : l' = l
      · subst hl
        have hbound : (boundTo (.skip es.length) cc).size = (CodeEntry.branch cc l').emitted.size :=
          size_boundTo cc l' _
        have hlabel : (boundTo (.skip es.length) cc).label = some (.skip es.length) := by
          cases cc <;> rfl
        have hpatch := h.patch (boundTo (.skip es.length) cc) xs (listed es)
          (buf.data.length + itemsSize xs) target (by cases cc <;> rfl) rfl hlabel rfl (by
            rw [htarget, List.take_of_length_le (by simp), hbound]
            exact (Nat.add_assoc ..).symm)
        have hstands := hnext _ hbound _ hpatch
        rw [hbound] at hstands
        have hsite : ∀ b, OpenSite.patch target b ⟨l', buf.data.length + itemsSize xs, cc.isSome⟩ =
            patchRel32 (boundTo (.skip es.length) cc).head.length
              (buf.data.length + itemsSize xs) target b := by
          intro b
          cases cc <;> rfl
        simpa [landed, openSites, listed, hsite] using hstands
      · have hstands := hnext _ rfl b h
        simpa [landed, openSites, hl, listed] using hstands

theorem closed_landed (h : Closed (listed es)) : Closed (listed (landed l es)) := by
  induction es with
  | nil => trivial
  | cons e es ih =>
    cases e with
    | item it =>
      refine ⟨fun n hn ↦ (h.1 n hn).trans_eq ?_, ih h.2⟩
      simp
    | branch cc l' =>
      simp only [landed, listed, List.map_cons] at ih ⊢
      refine ⟨fun n hn ↦ ?_, ih h.2⟩
      split_ifs at hn
      · obtain rfl : es.length = n := by
          cases cc <;> cases hn <;> rfl
        simp
      · cases cc <;> cases hn

theorem getElem?_landed {it : Item} {d : ℕ} (hk : (listed (landed l es))[k]? = some it)
    (hd : it.goes = some (.back d)) : (listed es)[k]? = some it := by
  induction es generalizing k with
  | nil => exact hk
  | cons e es ih =>
    cases k with
    | succ k =>
      cases e with
      | item _ => exact ih hk
      | branch cc l' => exact ih hk
    | zero =>
      cases e with
      | item _ => exact hk
      | branch cc l' =>
        simp only [landed, listed, List.map_cons, List.getElem?_cons_zero, Option.some.injEq] at hk
        subst hk
        split_ifs at hd <;> cases cc <;> cases hd

theorem loops_landed (h : Loops (listed es)) : Loops (listed (landed l es)) := by
  intro k it d hk hd
  obtain ⟨j, hj, hat⟩ := h k it d (getElem?_landed hk hd) hd
  refine ⟨j, hj, fun o ↦ ?_⟩
  rw [itemAt_congr sizes_landed, itemAt_congr sizes_landed, hat]

theorem inner_landed (h : ∀ it, .item it ∈ es → it.Inner) {it : Item}
    (hit : .item it ∈ landed l es) : it.Inner := by
  induction es with
  | nil => exact absurd hit List.not_mem_nil
  | cons e es ih =>
    have hrest : ∀ it, .item it ∈ es → it.Inner := fun it hit ↦ h it (List.mem_cons_of_mem _ hit)
    cases e with
    | item it' =>
      rcases List.mem_cons.mp hit with heq | hit
      · exact h it (heq ▸ List.mem_cons_self)
      · exact ih hrest hit
    | branch cc l' =>
      rcases List.mem_cons.mp hit with heq | hit
      · split_ifs at heq
        cases heq
        exact ⟨by cases cc <;> rfl, by cases cc <;> rfl, fun b hb ↦
          .inl ⟨_, by cases cc <;> exact (Option.some.inj hb).symm⟩⟩
      · exact ih hrest hit

end Landed

section Assemble

variable {L : Type}

/-- The state of the assembler is that of the draft. -/
structure Asm.Drafts (T : Targets) (buf : JelloJitEmitBuf) (s : Asm L) (D : Draft L) : Prop where
  stands : Stands T buf (listed D.entries) s.buf
  sites : s.sites = openSites buf.data.length D.entries
  marks (l : L) : s.marks l = itemAt buf.data.length (listed D.entries) (D.marks l)

/-- No branch is emitted as an instruction. -/
def Piece.direct : Piece L → Bool
  | .code es => es.all Encoder.direct
  | _ => true

variable {T : Targets} {buf b : JelloJitEmitBuf} {D : Draft L} {s s' : Asm L} {p : Piece L}
  {es : List (CodeEntry L)} {l : L} {realloc : ℕ → Bool} {places : List L}

theorem Asm.Drafts.add (h : s.Drafts T buf D) (hok : D.Ok) (hb : Stands T s.buf (listed es) b) :
    (⟨b, s.sites ++ openSites s.buf.data.length es, s.marks⟩ : Asm L).Drafts T buf (D.add es) where
  stands := by
    rw [Draft.add, listed_append]
    exact h.stands.append hok.closed hb
  sites := by
    rw [Draft.add, openSites_append, h.sites, h.stands.length]
  marks l := by
    rw [Draft.add, listed_append, itemAt_append ((hok.marks l).trans_eq length_listed.symm)]
    exact h.marks l

theorem Asm.Drafts.code {es : List Encoder} (h : s.Drafts T buf D) (hok : D.Ok)
    (hs : s.code realloc es = some s') : s'.Drafts T buf (D.add (itemEntries (straight es))) := by
  obtain ⟨b, hb, rfl⟩ := Option.map_eq_some_iff.mp hs
  have hlisted : listed (itemEntries (L := L) (straight es)) = straight es := listed_itemEntries
  have hstands := emits_code (T := T) es _ _ _ hb
  rw [← hlisted] at hstands
  have hadd := h.add hok hstands
  rw [openSites_items, List.append_nil] at hadd
  exact hadd

theorem Asm.Drafts.branch (h : s.Drafts T buf D) (hok : D.Ok) (cc : Option (Fin 16)) {e : Encoder}
    (he : (CodeEntry.branch cc l).emitted = .plain e)
    (hs : (s.record l cc.isSome).code realloc [e] = some s') :
    s'.Drafts T buf (D.add [.branch cc l]) := by
  obtain ⟨b, hb, rfl⟩ := Option.map_eq_some_iff.mp hs
  have hstands : Stands T s.buf (listed [.branch cc l]) b := by
    rw [listed, List.map_singleton, he]
    exact emits_code [e] _ _ _ hb
  exact h.add hok hstands

theorem Asm.Drafts.back (h : s.Drafts T buf D) (hok : D.Ok)
    (hs : s.jumpBack realloc l = some s') : s'.Drafts T buf (D.add [.item (D.loop l)]) := by
  obtain ⟨s₁, hs₁, rfl⟩ := Option.map_eq_some_iff.mp hs
  obtain ⟨b, hb, rfl⟩ := Option.map_eq_some_iff.mp hs₁
  have hstands := h.stands.append hok.closed (emits_code (T := T) [.jmpRel32] _ _ _ hb)
  have hlabel : (D.loop l).label ≠ none := by simp [Draft.loop, Item.label]
  have hdisp : T.disp (buf.data.length + itemsSize (listed D.entries) + (D.loop l).size) []
      (D.loop l).label =
      relDisp (s.marks l) (buf.data.length + itemsSize (listed D.entries) + (D.loop l).size) := by
    have hat := itemAt_loop (D := D) l buf.data.length
    rw [size_loop, h.marks l]
    simp only [Draft.loop, Item.label, Targets.disp]
    rw [hat, Nat.add_sub_cancel]
  have hpatch := patch_item rfl hlabel hstands h.stands.length hdisp
  refine ⟨?_, ?_, fun l' ↦ ?_⟩
  · rw [Draft.add, listed_append]
    exact hpatch
  · rw [Draft.add, openSites_append]
    exact h.sites.trans (List.append_nil _).symm
  · rw [Draft.add, listed_append, itemAt_append ((hok.marks l').trans_eq length_listed.symm)]
    exact h.marks l'

theorem ok_empty : (⟨[], fun _ ↦ 0⟩ : Draft L).Ok :=
  ⟨trivial, fun _ ↦ le_rfl, fun _ hit ↦ absurd hit List.not_mem_nil,
    fun _ _ _ hk ↦ absurd hk (by simp [listed])⟩

def Draft.Opens (D : Draft L) (places : List L) : Prop :=
  ∀ cc l, .branch cc l ∈ D.entries → l ∈ places

theorem Draft.Opens.items (h : D.Opens places) (items : List Item) :
    (D.add (itemEntries items)).Opens places := by
  intro cc l hl
  rcases List.mem_append.mp hl with hl | hl
  · exact h cc l hl
  · obtain ⟨it, -, heq⟩ := List.mem_map.mp hl
    cases heq

theorem Draft.Opens.branch (h : D.Opens places) (cc : Option (Fin 16)) (l : L) :
    (D.add [.branch cc l]).Opens (l :: places) := by
  intro cc' l' hl
  rcases List.mem_append.mp hl with hl | hl
  · exact List.mem_cons_of_mem _ (h cc' l' hl)
  · cases List.mem_singleton.mp hl
    exact List.mem_cons_self

variable [DecidableEq L]

theorem Draft.Ok.land (h : D.Ok) (l : L) :
    ({ D with entries := landed l D.entries } : Draft L).Ok where
  closed := closed_landed h.closed
  marks l' := (h.marks l').trans_eq length_landed.symm
  inner _ hit := inner_landed h.inner hit
  loops := loops_landed h.loops

theorem Draft.Ok.mark (h : D.Ok) (l : L) :
    ({ D with marks := update D.marks l D.entries.length } : Draft L).Ok where
  closed := h.closed
  marks l' := by
    rcases eq_or_ne l' l with rfl | hne
    · exact (update_self ..).le
    · simp only [update_of_ne hne]
      exact h.marks l'
  inner := h.inner
  loops := h.loops

theorem Draft.Ok.step (h : D.Ok) (hp : p.direct = true) : (p.draft D).Ok := by
  cases p with
  | code es => exact h.code hp
  | insns xs => exact h.code direct_getD
  | jcc cc l => exact h.branch (some cc) l
  | jmp l => exact h.branch none l
  | land l => exact h.land l
  | mark l => exact h.mark l
  | back l => exact h.back l

theorem Asm.Drafts.land (h : s.Drafts T buf D) (l : L) :
    (s.land l).Drafts T buf { D with entries := landed l D.entries } where
  stands := by
    have hstands := stands_landed (l := l) [] h.stands h.stands.length
    rw [Asm.land, h.sites]
    exact hstands
  sites := by
    rw [Asm.land, openSites_landed, h.sites]
  marks l' := by
    rw [itemAt_congr sizes_landed]
    exact h.marks l'

theorem Asm.Drafts.mark (h : s.Drafts T buf D) (l : L) :
    ({ s with marks := update s.marks l s.buf.data.length } : Asm L).Drafts T buf
      { D with marks := update D.marks l D.entries.length } where
  stands := h.stands
  sites := h.sites
  marks l' := by
    rcases eq_or_ne l' l with rfl | hne
    · simp only [update_self]
      rw [h.stands.length, itemAt, List.take_of_length_le (by simp)]
    · simp only [update_of_ne hne]
      exact h.marks l'

theorem Asm.Drafts.step (h : s.Drafts T buf D) (hok : D.Ok) (hs : p.emit realloc s = some s') :
    s'.Drafts T buf (p.draft D) := by
  cases p with
  | code es => exact h.code hok hs
  | insns xs =>
    obtain ⟨es, hes, hs⟩ := Option.bind_eq_some_iff.mp hs
    have hcode := h.code hok hs
    simp only [Piece.draft, hes, Option.getD_some]
    exact hcode
  | jcc cc l => exact h.branch hok (some cc) rfl hs
  | jmp l => exact h.branch hok none rfl hs
  | land l =>
    cases hs
    exact h.land l
  | mark l =>
    cases hs
    exact h.mark l
  | back l => exact h.back hok hs

/-- The places that an open branch leads to. -/
def Piece.opens (places : List L) : Piece L → List L
  | .jcc _ l | .jmp l => l :: places
  | .land l => places.filter (· ≠ l)
  | _ => places

/-- Of the branches to the places in `S` and their own, the pieces leave open those to places in
`S'`. -/
structure Leaves (S S' : List L) (ps : List (Piece L)) : Prop where
  direct : ps.all Piece.direct = true
  opens : ps.foldl Piece.opens S ⊆ S'

/-- Every branch is patched. -/
abbrev Complete (ps : List (Piece L)) : Prop := Leaves [] [] ps

variable {S S' S'' : List L} {ps qs : List (Piece L)}

theorem opens_mono (h : S ⊆ S') : ps.foldl Piece.opens S ⊆ ps.foldl Piece.opens S' := by
  induction ps generalizing S S' with
  | nil => exact h
  | cons p ps ih =>
    refine ih ?_
    cases p with
    | jcc cc l => exact List.cons_subset_cons l h
    | jmp l => exact List.cons_subset_cons l h
    | land l => exact List.filter_subset _ h
    | _ => exact h

theorem Leaves.append (h : Leaves S S' ps) (h' : Leaves S' S'' qs) : Leaves S S'' (ps ++ qs) := by
  refine ⟨?_, ?_⟩
  · rw [List.all_append, h.direct, h'.direct]
    rfl
  · rw [List.foldl_append]
    exact List.Subset.trans (opens_mono h.opens) h'.opens

theorem mem_landed {cc : Option (Fin 16)} {l' : L} (h : .branch cc l' ∈ landed l es) :
    .branch cc l' ∈ es ∧ l' ≠ l := by
  induction es with
  | nil => exact absurd h List.not_mem_nil
  | cons e es ih =>
    cases e with
    | item it =>
      rcases List.mem_cons.mp h with heq | h
      · cases heq
      · exact ⟨List.mem_cons_of_mem _ (ih h).1, (ih h).2⟩
    | branch cc' l'' =>
      rcases List.mem_cons.mp h with heq | h
      · split_ifs at heq with hl
        cases heq
        exact ⟨List.mem_cons_self, hl⟩
      · exact ⟨List.mem_cons_of_mem _ (ih h).1, (ih h).2⟩

theorem Draft.Opens.step (h : D.Opens places) : (p.draft D).Opens (p.opens places) := by
  cases p with
  | code es => exact h.items _
  | insns xs => exact h.items _
  | jcc cc l => exact h.branch _ l
  | jmp l => exact h.branch _ l
  | land l =>
    intro cc l' hl
    obtain ⟨hmem, hne⟩ := mem_landed hl
    exact List.mem_filter.mpr ⟨h cc l' hmem, decide_eq_true hne⟩
  | mark l => exact h
  | back l => exact h.items [D.loop l]

theorem Draft.Opens.run (h : D.Opens places) :
    (ps.foldl Piece.draft D).Opens (ps.foldl Piece.opens places) := by
  induction ps generalizing D places with
  | nil => exact h
  | cons p ps ih => exact ih h.step

theorem Draft.Ok.run (h : D.Ok) (hd : ps.all Piece.direct = true) :
    (ps.foldl Piece.draft D).Ok := by
  induction ps generalizing D with
  | nil => exact h
  | cons p ps ih =>
    rw [List.all_cons, Bool.and_eq_true] at hd
    exact ih (h.step hd.1) hd.2

theorem Asm.Drafts.run (h : s.Drafts T buf D) (hok : D.Ok) (hd : ps.all Piece.direct = true)
    (hs : ps.foldlM (Piece.emit realloc) s = some s') :
    s'.Drafts T buf (ps.foldl Piece.draft D) := by
  induction ps generalizing s D with
  | nil =>
    cases hs
    exact h
  | cons p ps ih =>
    rw [List.all_cons, Bool.and_eq_true] at hd
    rw [List.foldlM_cons] at hs
    obtain ⟨mid, hmid, hs⟩ := Option.bind_eq_some_iff.mp hs
    exact ih (h.step hok hmid) (hok.step hd.1) hd.2 hs

namespace Complete

theorem ok (h : Complete ps) : (draftOf ps).Ok := ok_empty.run h.direct

/-- The bytes that are emitted and patched are those of the items. -/
theorem emits (h : Complete ps) : Emits T (assemble ps) (codeItems ps) := by
  intro realloc buf b hb
  obtain ⟨s, hs, rfl⟩ := Option.map_eq_some_iff.mp hb
  have hempty : (⟨buf, [], fun _ ↦ buf.data.length⟩ : Asm L).Drafts T buf ⟨[], fun _ ↦ 0⟩ :=
    ⟨(List.append_nil _).symm, rfl, fun _ ↦ rfl⟩
  exact (hempty.run ok_empty h.direct hs).stands

theorem closed (h : Complete ps) : Closed (codeItems ps) := h.ok.closed

theorem loops (h : Complete ps) : Loops (codeItems ps) := h.ok.loops

theorem inner (h : Complete ps) {it : Item} (hit : it ∈ codeItems ps) : it.Inner := by
  have hopens : (draftOf ps).Opens (ps.foldl Piece.opens []) :=
    Draft.Opens.run fun _ _ hl ↦ absurd hl List.not_mem_nil
  obtain ⟨e, he, rfl⟩ := List.mem_map.mp hit
  cases e with
  | item it => exact h.ok.inner it he
  | branch cc l =>
    have hl := hopens cc l he
    exact absurd (h.opens hl) List.not_mem_nil

end Complete

end Assemble

end JelloVM
