import JelloVM.Library.CodeFlow
import JelloVM.Jit.EncoderTable

/-! Native code with its branches: what is emitted first, what the patches make of it, and where
control goes in it. -/

namespace JelloVM

open X64 CodeFlow

/-- A call returns to the next instruction. -/
def x64Isa : Isa Decoded where
  decode := decode
  falls d := d.op ≠ .jmp ∧ d.op ≠ .ret
  branch
    | ⟨.jmp, [.imm v]⟩ => some v
    | ⟨.j _, [.imm v]⟩ => some v
    | _ => none

section Bytes

def Encoder.bytes (e : Encoder) : List UInt8 :=
  ((e.emit (fun _ ↦ true) ⟨[], 0⟩).map JelloJitEmitBuf.data).getD []

theorem Encoder.emit_eq (e : Encoder) : e.emit = jelloJitEmitBytes e.bytes ∧ e.bytes ≠ [] ∧
    ∀ rest, decode (e.bytes ++ rest) = some (e.read, rest) := by
  obtain ⟨bytes, hne, hemit, hdecode⟩ := e.decodes_read
  have hbuf : ∃ buf, jelloJitEmitBytes bytes (fun _ ↦ true) ⟨[], 0⟩ = some buf := by
    simp [jelloJitEmitBytes, jelloJitEmitBufReserve, hne]
  obtain ⟨buf, hbuf⟩ := hbuf
  have hbytes : e.bytes = bytes := by
    rw [Encoder.bytes, hemit, hbuf]
    exact data_of_emitBytes hbuf
  rw [hbytes]
  exact ⟨hemit, hne, hdecode⟩

theorem data_of_emit {e : Encoder} {realloc : ℕ → Bool} {buf buf' : JelloJitEmitBuf}
    (h : e.emit realloc buf = some buf') : buf'.data = buf.data ++ e.bytes := by
  rw [e.emit_eq.1] at h
  exact data_of_emitBytes h

end Bytes

/-- Where a branch leads: over the next items, as many bytes back from its end, to the code of a
bytecode instruction, or to the beginning of the body. -/
inductive Label
  | skip (n : ℕ)
  | back (n : ℕ)
  | pc (bcPc : ℕ)
  | body
  deriving DecidableEq, Repr

/-- What is emitted: an instruction, a branch, or the address of a place behind the next items. -/
inductive Item
  | plain (e : Encoder)
  | jmp (l : Label)
  | jcc (cc : Fin 16) (l : Label)
  | lea (dst : Gpr) (n : ℕ)

namespace Item

def encoder : Item → Encoder
  | .plain e => e
  | .jmp _ => .jmpRel32
  | .jcc cc _ => .jccRel32 cc
  | .lea dst _ => .leaRipRel32 dst

def label : Item → Option Label
  | .jmp l => some l
  | .jcc _ l => some l
  | .lea _ n => some (.skip n)
  | _ => none

/-- The bytes before the displacement of a branch -/
def head : Item → List UInt8
  | .plain e => e.bytes
  | .jmp _ => [0xe9]
  | .jcc cc _ => [0x0f, UInt8.ofNat (0x80 + cc)]
  | .lea dst _ => [x64Rex 1 (regExt dst.num) 0 0, 0x8d, x64Modrm 0 (regLo dst.num) 5]

def bytes (it : Item) (d : UInt32) : List UInt8 :=
  if it.label = none then it.head else it.head ++ le32 d

def read (d : UInt32) : Item → Decoded
  | .plain e => e.read
  | .jmp _ => ⟨.jmp, [.imm (int32 d)]⟩
  | .jcc cc _ => ⟨.j cc, [.imm (int32 d)]⟩
  | .lea dst _ => ⟨.lea, [.r64 dst, .m64 (.rip d)]⟩

def size (it : Item) : ℕ := (it.bytes 0).length

theorem length_bytes (it : Item) (d : UInt32) : (it.bytes d).length = it.size := by
  cases it <;> rfl

theorem bytes_encoder (it : Item) : it.bytes 0 = it.encoder.bytes := by
  cases it <;> rfl

theorem size_plain (it : Item) : (Item.plain it.encoder).size = it.size := by
  rw [size, size, bytes_encoder, bytes_encoder]
  rfl

theorem decode_bytes (it : Item) (d : UInt32) (rest : List UInt8) :
    decode (it.bytes d ++ rest) = some (it.read d, rest) := by
  cases it with
  | plain e => exact e.emit_eq.2.2 rest
  | jmp l =>
    have ho : Opens 0xe9 (.rel32 .jmp) := opens rfl rfl
    have hd := decode_oneByte (c := False) (w := 0) (r := 0) (b := 0) ho (le32 d ++ rest)
    simp only [rexIf, if_false, List.nil_append, Form.read, read32_le32, Option.bind_eq_bind,
      Option.bind_some] at hd
    exact hd
  | jcc cc l =>
    have hf : twoByte none (UInt8.ofNat (0x80 + cc)) = some (.rel32 (.j cc)) := by
      fin_cases cc <;> rfl
    have hd := decode_twoByte (c := False) (w := 0) (r := 0) (b := 0) hf (le32 d ++ rest)
    simp only [rexIf, if_false, List.nil_append, Form.read, read32_le32, Option.bind_eq_bind,
      Option.bind_some] at hd
    exact hd
  | lea dst n =>
    have hbits := bits_lead none (needed_true 1 (regExt dst.num) 0)
    have ho : Opens 0x8d (.address .lea) := opens rfl rfl
    have hm : (x64Modrm 0 (regLo dst.num) 5).toNat = 8 * regLo dst.num + 5 := by
      rw [toNat_x64Modrm (by omega) (regLo_lt _) (by omega)]
      omega
    have hword := read32_le32 d rest
    simp only [le32, List.cons_append, List.nil_append, read32, Option.some.injEq, Prod.mk.injEq,
      and_true] at hword
    have hd := decode_oneByte (c := True) (w := 1) (r := regExt dst.num) (b := 0) ho
      (x64Modrm 0 (regLo dst.num) 5 :: (le32 d ++ rest))
    simp only [rexIf, if_true, le32, List.cons_append, List.nil_append, Form.read,
      readModRM_rip _ rest _ _ _ _ hm (regLo_lt _), hword, hbits, Option.bind_eq_bind,
      Option.bind_some] at hd
    simp only [rexBits, regExt_num, sizedReg, ofNum_regLo] at hd
    exact hd

end Item

section Link

/-- The displacement from the end of a branch to its target -/
def relDisp (target endAt : ℕ) : UInt32 := ⟨BitVec.ofInt 32 ((target : ℤ) - endAt)⟩

theorem int32_relDisp {target endAt : ℕ} (ht : target < 2 ^ 31) (he : endAt < 2 ^ 31) :
    int32 (relDisp target endAt) = target - endAt := by
  rw [int32, relDisp, BitVec.toInt_ofInt, Int.bmod_def]
  split <;> omega

def itemsSize (items : List Item) : ℕ := (items.map Item.size).sum

@[simp] theorem itemsSize_nil : itemsSize [] = 0 := rfl

@[simp] theorem itemsSize_cons (it : Item) (items : List Item) :
    itemsSize (it :: items) = it.size + itemsSize items := rfl

@[simp] theorem itemsSize_append (items items' : List Item) :
    itemsSize (items ++ items') = itemsSize items + itemsSize items' := by
  simp [itemsSize]

/-- The displacements of the branches to bytecode instructions (from the end of the branch), and
where the body begins. -/
structure Targets where
  pcDisp : ℕ → ℕ → UInt32
  body : ℕ

/-- Instructions without a branch. -/
def straight (es : List Encoder) : List Item := es.map .plain

@[simp] theorem straight_nil : straight [] = [] := rfl

@[simp] theorem straight_cons (e : Encoder) (es : List Encoder) :
    straight (e :: es) = .plain e :: straight es := rfl

@[simp] theorem straight_append (es es' : List Encoder) :
    straight (es ++ es') = straight es ++ straight es' := List.map_append

@[simp] theorem length_straight (es : List Encoder) : (straight es).length = es.length :=
  List.length_map _

variable (T : Targets)

def Targets.disp (endAt : ℕ) (rest : List Item) : Option Label → UInt32
  | none => 0
  | some (.skip n) => relDisp (endAt + itemsSize (rest.take n)) endAt
  | some (.back n) => relDisp (endAt - n) endAt
  | some (.pc t) => T.pcDisp endAt t
  | some .body => relDisp T.body endAt

def link : ℕ → List Item → Listing Decoded
  | _, [] => []
  | o, it :: rest =>
    let d := T.disp (o + it.size) rest it.label
    (some (it.read d), it.bytes d) :: link (o + it.size) rest

/-- No label leads over more items than there are. -/
def Closed : List Item → Prop
  | [] => True
  | it :: rest => (∀ n, it.label = some (.skip n) → n ≤ rest.length) ∧ Closed rest

variable {T} {items items' : List Item} {o : ℕ}

theorem read_link : (link T o items).Read x64Isa := by
  induction items generalizing o with
  | nil => exact fun p hp ↦ absurd hp List.not_mem_nil
  | cons it rest ih =>
    intro p hp d hd bs
    rcases List.mem_cons.mp hp with rfl | hp
    · cases hd
      exact it.decode_bytes _ bs
    · exact ih p hp d hd bs

@[simp] theorem length_bytes_link : (link T o items).bytes.length = itemsSize items := by
  induction items generalizing o with
  | nil => rfl
  | cons it rest ih =>
    simp only [link, Listing.bytes_cons, List.length_append, Item.length_bytes, ih, itemsSize_cons]

theorem link_append (hc : Closed items) :
    link T o (items ++ items') = link T o items ++ link T (o + itemsSize items) items' := by
  induction items generalizing o with
  | nil => rfl
  | cons it rest ih =>
    have hdisp : T.disp (o + it.size) (rest ++ items') it.label =
        T.disp (o + it.size) rest it.label := by
      cases hl : it.label with
      | none => rfl
      | some l =>
        cases l with
        | skip n => simp only [Targets.disp, List.take_append_of_le_length (hc.1 n hl)]
        | _ => rfl
    simp only [List.cons_append, link, hdisp, ih hc.2, itemsSize_cons, Nat.add_assoc]

theorem Closed.append (hc : Closed items) (hc' : Closed items') : Closed (items ++ items') := by
  induction items with
  | nil => exact hc'
  | cons it rest ih =>
    refine ⟨fun n hn ↦ (hc.1 n hn).trans ?_, ih hc.2⟩
    change rest.length ≤ (rest ++ items').length
    rw [List.length_append]
    exact Nat.le_add_right _ _

theorem closed_straight (es : List Encoder) : Closed (straight es) := by
  induction es with
  | nil => trivial
  | cons e es ih => exact ⟨fun n hn ↦ absurd hn (by simp [Item.label]), ih⟩

theorem bytes_link_straight (es : List Encoder) :
    (link T o (straight es)).bytes = es.flatMap Encoder.bytes := by
  induction es generalizing o with
  | nil => rfl
  | cons e es ih =>
    rw [straight] at ih
    simp only [straight, List.map_cons, link, Listing.bytes_cons, ih, List.flatMap_cons, Item.bytes,
      Item.label, Item.head, if_true]

end Link

section Patch

/-- The write of a displacement, `n` bytes behind the beginning of a branch -/
def patchRel32 (n pos target : ℕ) (buf : JelloJitEmitBuf) : JelloJitEmitBuf :=
  { buf with data := overwrite (pos + n) (le32 (relDisp target (pos + n + 4))) buf.data }

def patchJmpRel32 (pos target : ℕ) (buf : JelloJitEmitBuf) : JelloJitEmitBuf :=
  patchRel32 1 pos target buf

def patchJccRel32 (pos target : ℕ) (buf : JelloJitEmitBuf) : JelloJitEmitBuf :=
  patchRel32 2 pos target buf

def x64PatchLeaRipRel32 (pos target : ℕ) (buf : JelloJitEmitBuf) : Option JelloJitEmitBuf :=
  if pos + 7 ≤ buf.data.length then some (patchRel32 3 pos target buf) else none

variable {T : Targets} {a c : List UInt8} {it : Item} {xs ys : List Item} {e : Encoder}
  {buf : JelloJitEmitBuf} {o target : ℕ}

theorem patch_bytes (target : ℕ) (d : UInt32) (hl : it.label ≠ none)
    (hdata : buf.data = a ++ it.bytes d ++ c) :
    (patchRel32 it.head.length a.length target buf).data =
      a ++ it.bytes (relDisp target (a.length + it.size)) ++ c := by
  have hsize : it.size = it.head.length + 4 := by
    rw [Item.size, Item.bytes, if_neg hl, List.length_append]
    rfl
  have hbytes : ∀ d, it.bytes d = it.head ++ le32 d := fun d ↦ if_neg hl
  simp only [patchRel32, hdata, hbytes, hsize, ← Nat.add_assoc, ← List.append_assoc]
  rw [← List.length_append]
  exact overwrite_append rfl

/-- The bytes of an item among others; what is before and after it depends on its size only. -/
theorem bytes_link_middle (xs ys : List Item) (o : ℕ) (it : Item) : ∃ p q, p.length = itemsSize xs ∧
    (link T o (xs ++ .plain it.encoder :: ys)).bytes = p ++ it.encoder.bytes ++ q ∧
    (link T o (xs ++ it :: ys)).bytes =
      p ++ it.bytes (T.disp (o + itemsSize xs + it.size) ys it.label) ++ q := by
  have hsize : (Item.plain it.encoder).size = it.size := it.size_plain
  induction xs generalizing o with
  | nil =>
    refine ⟨[], (link T (o + it.size) ys).bytes, rfl, ?_, rfl⟩
    simp only [List.nil_append, link, Listing.bytes_cons, hsize]
    rfl
  | cons x rest ih =>
    obtain ⟨p, q, hp, hplain, hit⟩ := ih (o + x.size)
    refine ⟨x.bytes (T.disp (o + x.size) (rest ++ it :: ys) x.label) ++ p, q, ?_, ?_, ?_⟩
    · rw [List.length_append, Item.length_bytes, hp, itemsSize_cons]
    · have hsizes : (rest ++ .plain it.encoder :: ys).map Item.size =
          (rest ++ it :: ys).map Item.size := by
        simp only [List.map_append, List.map_cons, hsize]
      have hdisp : T.disp (o + x.size) (rest ++ .plain it.encoder :: ys) x.label =
          T.disp (o + x.size) (rest ++ it :: ys) x.label := by
        cases hl : x.label with
        | none => rfl
        | some l =>
          cases l with
          | skip n => simp only [Targets.disp, itemsSize, List.map_take, hsizes]
          | _ => rfl
      simp only [List.cons_append, link, Listing.bytes_cons, hdisp, hplain, List.append_assoc]
    · simp only [List.cons_append, link, Listing.bytes_cons, hit, itemsSize_cons, List.append_assoc,
        Nat.add_assoc]

/-- A displacement that has been left out is patched: the items are those with the label. -/
theorem patch_item {pos : ℕ} (he : it.encoder = e) (hl : it.label ≠ none)
    (hdata : buf.data = a ++ (link T a.length (xs ++ .plain e :: ys)).bytes)
    (hpos : pos = a.length + itemsSize xs)
    (hd : T.disp (a.length + itemsSize xs + it.size) ys it.label =
      relDisp target (a.length + itemsSize xs + it.size)) :
    (patchRel32 it.head.length pos target buf).data =
      a ++ (link T a.length (xs ++ it :: ys)).bytes := by
  subst he
  obtain ⟨p, q, hp, hplain, hit⟩ := bytes_link_middle (T := T) xs ys a.length it
  have hlen : (a ++ p).length = pos := by rw [List.length_append, hp, hpos]
  rw [hplain, ← it.bytes_encoder] at hdata
  have h := patch_bytes (a := a ++ p) (c := q) target 0 hl
    (hdata.trans (by simp only [List.append_assoc]))
  rw [hlen, hpos] at h
  rw [hpos, h, hit, hd]
  simp only [List.append_assoc]

theorem patch_skip (it : Item) {pos n : ℕ} (he : it.encoder = e)
    (hl : it.label = some (.skip n))
    (hdata : buf.data = a ++ (link T a.length (xs ++ .plain e :: ys)).bytes)
    (hpos : pos = a.length + itemsSize xs)
    (htarget : target = a.length + itemsSize xs + it.size + itemsSize (ys.take n)) :
    (patchRel32 it.head.length pos target buf).data =
      a ++ (link T a.length (xs ++ it :: ys)).bytes := by
  have hlabel : it.label ≠ none := by
    rw [hl]
    exact Option.some_ne_none _
  refine patch_item he hlabel hdata hpos ?_
  rw [hl, htarget]
  rfl

end Patch

section Branches

/-- `jello_jit_patch_site`: a branch at `pos`, and the instruction it goes to; the kind 0 is a jump
without a condition. -/
structure JelloJitPatchSite where
  pos : ℕ
  bcTgt : ℕ
  kind : UInt8

/-- `target` is `ir_off_for_bc`. -/
def patchBranchSites (target : ℕ → ℕ) (prologueEnd : ℕ) :
    List JelloJitPatchSite → JelloJitEmitBuf → Option JelloJitEmitBuf
  | [], buf => some buf
  | ps :: sites, buf =>
    if target ps.bcTgt < prologueEnd then none
    else patchBranchSites target prologueEnd sites
      (if ps.kind = 0 then patchJmpRel32 ps.pos (target ps.bcTgt) buf
        else patchJccRel32 ps.pos (target ps.bcTgt) buf)

/-- The target and the kind of a branch to a bytecode instruction -/
def Item.branch : Item → Option (ℕ × UInt8)
  | .jmp (.pc t) => some (t, 0)
  | .jcc _ (.pc t) => some (t, 1)
  | _ => none

/-- The branches of the items to bytecode instructions. -/
def pending : ℕ → List Item → List JelloJitPatchSite
  | _, [] => []
  | o, it :: rest =>
    (it.branch.map fun p ↦ ⟨o, p.1, p.2⟩).toList ++ pending (o + it.size) rest

/-- The branches to bytecode instructions are left open. -/
def unlinked (body : ℕ) : Targets := ⟨fun _ _ ↦ 0, body⟩

def linked (target : ℕ → ℕ) (body : ℕ) : Targets := ⟨fun endAt t ↦ relDisp (target t) endAt, body⟩

theorem Item.branch_label {it : Item} {t : ℕ} {kind : UInt8} (h : it.branch = some (t, kind)) :
    it.label = some (.pc t) ∧ it.head.length = if kind = 0 then 1 else 2 := by
  cases it with
  | jmp l =>
    cases l with
    | pc t' =>
      cases h
      exact ⟨rfl, rfl⟩
    | _ => exact absurd h (by simp [Item.branch])
  | jcc cc l =>
    cases l with
    | pc t' =>
      cases h
      exact ⟨rfl, rfl⟩
    | _ => exact absurd h (by simp [Item.branch])
  | _ => exact absurd h (by simp [Item.branch])

theorem Item.label_ne_pc {it : Item} (h : it.branch = none) (t : ℕ) : it.label ≠ some (.pc t) := by
  intro hl
  cases it with
  | jmp l =>
    cases hl
    exact absurd h (by simp [Item.branch])
  | jcc cc l =>
    cases hl
    exact absurd h (by simp [Item.branch])
  | _ => exact absurd hl (by simp [Item.label])

variable {target : ℕ → ℕ} {prologueEnd body o : ℕ} {items items' : List Item}
  {buf buf' : JelloJitEmitBuf} {a c : List UInt8}

theorem pending_append :
    pending o (items ++ items') = pending o items ++ pending (o + itemsSize items) items' := by
  induction items generalizing o with
  | nil => rfl
  | cons it rest ih =>
    simp only [List.cons_append, pending, ih, itemsSize_cons, List.append_assoc, Nat.add_assoc]

theorem disp_linked_of_not_branch {it : Item} (h : it.branch = none) (endAt : ℕ)
    (rest : List Item) :
    (linked target body).disp endAt rest it.label =
      (unlinked body).disp endAt rest it.label := by
  cases hl : it.label with
  | none => rfl
  | some l =>
    cases l with
    | pc t => exact absurd hl (Item.label_ne_pc h t)
    | _ => rfl

theorem patchBranchSites_cons {it : Item} {t : ℕ} {kind : UInt8} {sites : List JelloJitPatchSite}
    (hb : it.branch = some (t, kind))
    (h : patchBranchSites target prologueEnd (⟨o, t, kind⟩ :: sites) buf = some buf') :
    prologueEnd ≤ target t ∧ patchBranchSites target prologueEnd sites
      (patchRel32 it.head.length o (target t) buf) = some buf' := by
  rw [patchBranchSites] at h
  by_cases ht : target t < prologueEnd
  · rw [if_pos ht] at h
    exact absurd h (by simp)
  have hpatch : (if kind = 0 then patchJmpRel32 o (target t) buf
      else patchJccRel32 o (target t) buf) = patchRel32 it.head.length o (target t) buf := by
    rw [(Item.branch_label hb).2]
    split_ifs <;> rfl
  rw [if_neg ht, hpatch] at h
  exact ⟨Nat.le_of_not_lt ht, h⟩

/-- What is patched is the code with the branches linked, and every target is in the body. -/
theorem patchBranchSites_data (ho : a.length = o)
    (hdata : buf.data = a ++ (link (unlinked body) o items).bytes ++ c)
    (h : patchBranchSites target prologueEnd (pending o items) buf = some buf') :
    buf'.data = a ++ (link (linked target body) o items).bytes ++ c ∧
      ∀ it ∈ items, ∀ t kind, it.branch = some (t, kind) → prologueEnd ≤ target t := by
  induction items generalizing o a buf with
  | nil =>
    cases h
    exact ⟨hdata, fun it hit ↦ absurd hit List.not_mem_nil⟩
  | cons it rest ih =>
    simp only [link, Listing.bytes_cons] at hdata ⊢
    have hlen : ∀ d, (a ++ it.bytes d).length = o + it.size := fun d ↦ by
      rw [List.length_append, Item.length_bytes, ho]
    cases hb : it.branch with
    | none =>
      rw [← List.append_assoc] at hdata
      simp only [pending, hb, Option.map_none, Option.toList_none, List.nil_append] at h
      obtain ⟨hdata', hin⟩ := ih (hlen _) hdata h
      rw [disp_linked_of_not_branch hb, ← List.append_assoc a]
      refine ⟨hdata', fun it' hit t kind hbr ↦ ?_⟩
      rcases List.mem_cons.mp hit with rfl | hit
      · exact absurd (hb.symm.trans hbr) (by simp)
      · exact hin it' hit t kind hbr
    | some p =>
      obtain ⟨t, kind⟩ := p
      have hl := (Item.branch_label hb).1
      simp only [pending, hb, Option.map_some, Option.toList_some, List.singleton_append] at h
      obtain ⟨ht, h⟩ := patchBranchSites_cons hb h
      have hlabel : it.label ≠ none := by
        rw [hl]
        exact Option.some_ne_none _
      rw [← List.append_assoc] at hdata
      have hpatched := patch_bytes (target t) _ hlabel
        (hdata.trans (List.append_assoc ..))
      rw [ho, ← List.append_assoc] at hpatched
      obtain ⟨hdata', hin⟩ := ih (hlen _) hpatched h
      rw [hl, Targets.disp, ← List.append_assoc a]
      refine ⟨hdata', fun it' hit t' kind' hbr ↦ ?_⟩
      rcases List.mem_cons.mp hit with rfl | hit
      · obtain ⟨rfl, -⟩ := Prod.mk.inj (Option.some.inj (hb.symm.trans hbr))
        exact ht
      · exact hin it' hit t' kind' hbr

end Branches

section Control

/-- No branch whose displacement has been left out. -/
def Item.done : Item → Bool
  | .plain .jmpRel32 => false
  | .plain (.jccRel32 _) => false
  | _ => true

def Item.falls : Item → Bool
  | .plain e => x64Isa.falls e.read
  | .jmp _ => false
  | _ => true

def Item.goes : Item → Option Label
  | .jmp l => some l
  | .jcc _ l => some l
  | _ => none

def itemAt (o : ℕ) (items : List Item) (k : ℕ) : ℕ := o + itemsSize (items.take k)

/-- The offset of a label of the item with index `k`. -/
def labelAt (target : ℕ → ℕ) (body o : ℕ) (items : List Item) (k : ℕ) : Label → ℕ
  | .skip n => itemAt o items (k + 1 + n)
  | .back n => itemAt o items (k + 1) - n
  | .pc t => target t
  | .body => body

variable {T : Targets} {target : ℕ → ℕ} {body o k : ℕ} {items : List Item} {it : Item}

theorem branch_plain {e : Encoder} (h : (Item.plain e).done = true) :
    x64Isa.branch e.read = none := by
  cases e with
  | jmpRel32 => exact absurd h (by simp [Item.done])
  | jccRel32 cc => exact absurd h (by simp [Item.done])
  | _ => rfl

theorem itemAt_succ (h : items[k]? = some it) :
    itemAt o items (k + 1) = itemAt o items k + it.size := by
  obtain ⟨hk, rfl⟩ := List.getElem?_eq_some_iff.mp h
  rw [itemAt, List.take_succ_eq_append_getElem hk, itemsSize_append, itemAt, Nat.add_assoc]
  rfl

theorem itemAt_add (n : ℕ) :
    itemAt o items (k + n) = itemAt o items k + itemsSize ((items.drop k).take n) := by
  rw [itemAt, List.take_add, itemsSize_append, itemAt, Nat.add_assoc]

theorem itemAt_le (k : ℕ) : itemAt o items k ≤ o + itemsSize items := by
  have h : itemsSize items = itemsSize (items.take k) + itemsSize (items.drop k) := by
    rw [← itemsSize_append, List.take_append_drop]
  rw [itemAt]
  omega

theorem link_getElem? (h : items[k]? = some it) :
    (link T o items)[k]? = some
      (some (it.read (T.disp (itemAt o items (k + 1)) (items.drop (k + 1)) it.label)),
        it.bytes (T.disp (itemAt o items (k + 1)) (items.drop (k + 1)) it.label)) := by
  induction items generalizing o k with
  | nil => exact absurd h (by simp)
  | cons it' rest ih =>
    cases k with
    | zero =>
      obtain rfl : it' = it := by simpa using h
      have hat : itemAt o (it' :: rest) (0 + 1) = o + it'.size := by
        rw [itemAt]
        simp
      rw [hat]
      rfl
    | succ k =>
      have hat : itemAt o (it' :: rest) (k + 1 + 1) = itemAt (o + it'.size) rest (k + 1) := by
        simp only [itemAt, List.take_succ_cons, itemsSize_cons, Nat.add_assoc]
      rw [hat]
      exact ih h

theorem offset_link (k : ℕ) : (link T o items).offset k = itemsSize (items.take k) := by
  induction items generalizing o k with
  | nil =>
    rw [List.take_nil, Listing.offset, link, List.take_nil]
    rfl
  | cons it rest ih =>
    cases k with
    | zero => rfl
    | succ k =>
      have h := ih (o := o + it.size) k
      rw [Listing.offset] at h ⊢
      simp only [link, List.take_succ_cons, Listing.bytes_cons, List.length_append,
        Item.length_bytes, itemsSize_cons, h]

theorem disp_labelAt {l : Label} (hend : ∀ j, itemAt o items j < 2 ^ 31) (hbody : body < 2 ^ 31)
    (htarget : ∀ t, l = .pc t → target t < 2 ^ 31) :
    (itemAt o items (k + 1) : ℤ) + int32 ((linked target body).disp (itemAt o items (k + 1))
      (items.drop (k + 1)) (some l)) = labelAt target body o items k l := by
  cases l with
  | skip n =>
    have hat : itemAt o items (k + 1 + n) = _ := itemAt_add n
    rw [Targets.disp, ← hat, int32_relDisp (hend _) (hend _), labelAt]
    omega
  | back n =>
    rw [Targets.disp, int32_relDisp ((Nat.sub_le _ _).trans_lt (hend _)) (hend _), labelAt]
    omega
  | pc t =>
    rw [Targets.disp, linked, int32_relDisp (htarget t rfl) (hend _), labelAt]
    omega
  | body =>
    rw [Targets.disp, linked, int32_relDisp hbody (hend _), labelAt]
    omega

/-- Control goes from an item to the next one, if it falls through, or to its label. -/
theorem flow_item {before after code : List UInt8} (ho : before.length = o)
    (hcode : code = before ++ (link (linked target body) o items).bytes ++ after)
    (hsize : code.length < 2 ^ 31) (hbody : body < 2 ^ 31) (hdone : it.done = true)
    (htarget : ∀ t, it.label = some (.pc t) → target t < 2 ^ 31) (hk : items[k]? = some it) {o' : ℕ}
    (hf : Transfer x64Isa code (itemAt o items k) o') :
    (it.falls = true ∧ o' = itemAt o items (k + 1)) ∨
      ∃ l, it.goes = some l ∧ o' = labelAt target body o items k l := by
  have hentry := link_getElem? (T := linked target body) (o := o) hk
  generalize hd : (linked target body).disp (itemAt o items (k + 1)) (items.drop (k + 1)) it.label
    = d at hentry
  have hend : ∀ j, itemAt o items j < 2 ^ 31 := fun j ↦ by
    have hlen : code.length = o + itemsSize items + after.length := by
      rw [hcode, List.length_append, List.length_append, ho, length_bytes_link]
    have hle : itemAt o items j ≤ o + itemsSize items := itemAt_le j
    omega
  have hgo : ∀ l, it.label = some l →
      (itemAt o items (k + 1) : ℤ) + int32 d = labelAt target body o items k l := by
    intro l hl
    rw [← hd, hl]
    exact disp_labelAt hend hbody fun t ht ↦ htarget t (hl.trans (congrArg _ ht))
  have hflow : (x64Isa.falls (it.read d) = true ∧ o' = itemAt o items (k + 1)) ∨
      ∃ v, x64Isa.branch (it.read d) = some v ∧ (o' : ℤ) = itemAt o items (k + 1) + v := by
    have hat : ∀ j, before.length + (link (linked target body) o items).offset j =
        itemAt o items j := fun j ↦ by rw [offset_link, ho, itemAt]
    rw [← hat] at hf
    have h := read_link.flow hcode hentry hf
    rw [hat] at h
    exact h
  cases it with
  | plain e =>
    obtain ⟨hfalls, ho'⟩ | ⟨v, hv, -⟩ := hflow
    · exact .inl ⟨hfalls, ho'⟩
    · exact absurd ((branch_plain hdone).symm.trans hv) (by simp)
  | jmp l =>
    obtain ⟨hfalls, -⟩ | ⟨v, hv, ho'⟩ := hflow
    · exact absurd hfalls (by simp [x64Isa, Item.read])
    · cases hv
      exact .inr ⟨l, rfl, by exact_mod_cast ho'.trans (hgo l rfl)⟩
  | jcc cc l =>
    obtain ⟨-, ho'⟩ | ⟨v, hv, ho'⟩ := hflow
    · exact .inl ⟨rfl, ho'⟩
    · cases hv
      exact .inr ⟨l, rfl, by exact_mod_cast ho'.trans (hgo l rfl)⟩
  | lea dst n =>
    obtain ⟨-, ho'⟩ | ⟨v, hv, -⟩ := hflow
    · exact .inl ⟨rfl, ho'⟩
    · exact absurd hv (by simp [x64Isa, Item.read])

end Control

end JelloVM
