import JelloVM.Library.Blocks
import JelloVM.Libs.Unicode

namespace JelloVM

open Blocks Traced Utf8

section Source

variable (s a b : CBytes)

def utf8At (i : UInt32) : Option (UInt32 × UInt32) := (utf8DecodeAt s i).value

/-- The loop of `utf8_codepoint_count`; `none` when it takes more rounds than the fuel allows. -/
def utf8CountFrom : ℕ → UInt32 → UInt32 → Option UInt32
  | 0, _, _ => none
  | fuel + 1, i, n =>
    if i < s.len then
      match utf8At s i with
      | none => some 0xFFFFFFFF
      | some (_, adv) => utf8CountFrom fuel (i + adv) (n + 1)
    else some n

def utf8CodepointCount (fuel : ℕ) : Option UInt32 := utf8CountFrom s fuel 0 0

/-- `k` rounds of `i += adv` -/
def utf8Skip : ℕ → UInt32 → Option UInt32
  | 0, i => some i
  | k + 1, i =>
    match utf8At s i with
    | none => none
    | some (_, adv) => utf8Skip k (i + adv)

def utf8ByteOffsetAtCp (cpIndex : Int32) : Option UInt32 :=
  if cpIndex < 0 then none
  else (utf8Skip s cpIndex.toInt.toNat 0).filter fun i ↦ i ≤ s.len

/-- The errors are the texts passed to `jdl_fail`. -/
def unicodeLength (fuel : ℕ) : Option (Except String Int32) :=
  (utf8CodepointCount s fuel).map fun n ↦
    if n = 0xFFFFFFFF then .error "unicode_length: invalid utf8" else .ok n.toInt32

def unicodeGet (idx : Int32) : Except String Int32 :=
  if idx < 0 then .error "unicode_get: negative index"
  else
    match utf8ByteOffsetAtCp s idx with
    | none => .error "unicode_get: index out of range"
    | some off =>
      match utf8At s off with
      | none => .error "unicode_get: invalid utf8"
      | some (cp, _) => .ok cp.toInt32

def unicodeSub (pos slen : Int32) : Except String (List UInt8) :=
  if pos < 0 ∨ slen < 0 then .error "unicode_sub: negative pos/len"
  else if slen = 0 then .ok []
  else
    match utf8ByteOffsetAtCp s pos with
    | none => .error "unicode_sub: pos out of range"
    | some start =>
      match utf8Skip s slen.toInt.toNat start with
      | none => .error "unicode_sub: invalid utf8"
      | some i =>
        if i < start ∨ s.len < i then .error "unicode_sub: slice out of range"
        else .ok (s.window start.toNat (i - start).toNat)

/-- The loop of `unicode_compare` from `ia` and `ib` on -/
def unicodeCompareFrom : ℕ → UInt32 → UInt32 → Option Int32
  | 0, _, _ => none
  | fuel + 1, ia, ib =>
    match if ia < a.len then utf8At a ia else none, if ib < b.len then utf8At b ib else none with
    | none, none => some 0
    | none, some _ => some (-1)
    | some _, none => some 1
    | some (ca, aa), some (cb, ab) =>
      if ca ≠ cb then some (if ca < cb then -1 else 1)
      else unicodeCompareFrom fuel (ia + aa) (ib + ab)

def unicodeCompare (fuel : ℕ) : Option Int32 := unicodeCompareFrom a b fuel 0 0

end Source

/-- `data` goes on behind the block with the memory that follows it. -/
structure UnicodeBuf where
  data : ℕ → UInt8
  len : UInt32
  cap : UInt32
  chars : UInt32

def UnicodeBuf.bytes (b : UnicodeBuf) : List UInt8 := (List.range b.len.toNat).map b.data

/-- The blocks `malloc` and `realloc` return, with what their new bytes hold -/
abbrev Alloc := UInt32 → Option (ℕ → UInt8)

/-- `while(cap < need)`, for at most `fuel` rounds -/
def grownCap (need : UInt32) : ℕ → UInt32 → Option UInt32
  | 0, _ => none
  | fuel + 1, cap =>
    if cap < need then
      if 0x7FFFFFFF < cap then none else grownCap need fuel (cap * 2)
    else some cap

def unicodeBufGrow (alloc : Alloc) (b : UnicodeBuf) (need : UInt32) : Option UnicodeBuf :=
  if b.len + need ≤ b.cap then some b
  else
    match grownCap (b.len + need) 33 (if b.cap = 0 then 8 else b.cap) with
    | none => none
    | some cap =>
      match alloc cap with
      | none => none
      | some fresh =>
        some { b with data := fun j ↦ if j < b.cap.toNat then b.data j else fresh j, cap := cap }

def unicodeBufNew (alloc : Alloc) (cap : Int32) : Except String UnicodeBuf :=
  if cap < 0 then .error "unicode_buf_new: negative capacity"
  else
    let initial := if cap = 0 then 8 else cap.toUInt32
    match alloc initial with
    | none => .error "unicode_buf_new: out of memory"
    | some fresh => .ok { data := fresh, len := 0, cap := initial, chars := 0 }

/-- `memcpy(b->data + b->len, out, n)` -/
def UnicodeBuf.copied (b : UnicodeBuf) (out : List UInt8) : ℕ → UInt8 :=
  place b.data b.len.toNat out

def unicodeBufAdd (alloc : Alloc) (b : UnicodeBuf) (cp : Int32) : Except String UnicodeBuf :=
  match utf8Encode cp.toUInt32 4 with
  | none => .error "unicode_buf_add: invalid codepoint"
  | some out =>
    match unicodeBufGrow alloc b (UInt32.ofNat out.length) with
    | none => .error "unicode_buf_add: out of memory"
    | some b =>
      .ok { b with
        data := b.copied out, len := b.len + UInt32.ofNat out.length, chars := b.chars + 1 }

def unicodeBufBytes (b : UnicodeBuf) : List UInt8 := b.bytes

def unicodeBufLength (b : UnicodeBuf) : Int32 := b.chars.toInt32

/-- A run of calls: the buffer in the end, and the code points of the calls that did not fail -/
def unicodeBufAdds (b : UnicodeBuf) : List (Alloc × Int32) → UnicodeBuf × List ℕ
  | [] => (b, [])
  | (alloc, cp) :: calls =>
    match unicodeBufAdd alloc b cp with
    | .error _ => unicodeBufAdds b calls
    | .ok b' => ((unicodeBufAdds b' calls).1, cp.toUInt32.toNat :: (unicodeBufAdds b' calls).2)

section Walk

variable {s a b : CBytes} {i ia ib : UInt32} {c k fuel : ℕ} {cs ds : List ℕ}

/-- From `i` on the string is the encoding of the code points. -/
structure Rest (s : CBytes) (i : UInt32) (cs : List ℕ) : Prop where
  inside : i.toNat ≤ s.len.toNat
  scalar : ∀ c ∈ cs, Scalar c
  drop : s.bytes.drop i.toNat = cs.flatMap encode

theorem Rest.length (h : Rest s i cs) :
    i.toNat + (cs.flatMap encode).length = s.len.toNat := by
  have hlen := congrArg List.length h.drop
  rw [List.length_drop, CBytes.length_bytes] at hlen
  have hinside := h.inside
  omega

theorem length_le_flatMap (cs : List ℕ) : cs.length ≤ (cs.flatMap encode).length := by
  induction cs with
  | nil => exact Nat.le_refl _
  | cons c cs ih =>
    have hpos := length_encode_pos c
    rw [List.flatMap_cons, List.length_append, List.length_cons]
    omega

theorem Rest.length_le (h : Rest s i cs) : cs.length ≤ s.len.toNat := by
  have hlen := h.length
  have hle := length_le_flatMap cs
  omega

theorem Rest.nil_at (h : Rest s i []) : ¬ i < s.len ∧ utf8At s i = none := by
  have hlen := h.length
  rw [List.flatMap_nil, List.length_nil, Nat.add_zero] at hlen
  have hle : s.len ≤ i := UInt32.le_iff_toNat_le.mpr (Nat.le_of_eq hlen.symm)
  refine ⟨UInt32.not_lt.mpr hle, ?_⟩
  rw [utf8At, utf8DecodeAt, if_pos hle]
  rfl

theorem Rest.cons_lt (h : Rest s i (c :: cs)) : i < s.len := by
  have hlen := h.length
  have hpos := length_encode_pos c
  rw [List.flatMap_cons, List.length_append] at hlen
  rw [UInt32.lt_iff_toNat_lt]
  omega

theorem Rest.cons_at (h : Rest s i (c :: cs)) : ∃ adv,
    utf8At s i = some (UInt32.ofNat c, adv) ∧ (i + adv).toNat = i.toNat + (encode c).length ∧
      Rest s (i + adv) cs := by
  have hc := h.scalar c List.mem_cons_self
  have hcode := toNat_ofNat_scalar hc
  have hdrop := h.drop
  rw [List.flatMap_cons] at hdrop
  have hpre : encode c <+: s.bytes.drop i.toNat := by
    rw [hdrop]
    exact List.prefix_append _ _
  have hlen := h.length
  rw [List.flatMap_cons, List.length_append] at hlen
  have hbound := s.len.toNat_lt
  have hadd : (i + UInt32.ofNat (encode c).length).toNat = i.toNat + (encode c).length :=
    toNat_add_of_lt (by omega)
  refine ⟨UInt32.ofNat (encode c).length, ?_, hadd, ?_⟩
  · have hdec := @utf8DecodeAt_of_begins s i (UInt32.ofNat c)
    rw [hcode] at hdec
    exact hdec hc hpre
  · refine ⟨by omega, fun d hd ↦ h.scalar d (List.mem_cons_of_mem c hd), ?_⟩
    rw [drop_add_of_begins hpre] at hdrop
    rw [hadd]
    exact List.append_cancel_left hdrop

theorem utf8CountFrom_spec (h : Rest s i cs) (hfuel : cs.length < fuel) (n : UInt32) :
    utf8CountFrom s fuel i n = some (n + UInt32.ofNat cs.length) := by
  induction cs generalizing i n fuel with
  | nil =>
    obtain ⟨fuel, rfl⟩ := Nat.exists_eq_add_of_le' (Nat.one_le_of_lt hfuel)
    rw [utf8CountFrom, if_neg h.nil_at.1]
    simp
  | cons c cs ih =>
    obtain ⟨fuel, rfl⟩ := Nat.exists_eq_add_of_le' (Nat.one_le_of_lt hfuel)
    obtain ⟨adv, hat, -, hrest⟩ := h.cons_at
    rw [List.length_cons] at hfuel
    rw [utf8CountFrom, if_pos h.cons_lt, hat]
    refine (ih hrest (by omega) (n + 1)).trans ?_
    rw [List.length_cons, UInt32.ofNat_add, UInt32.add_assoc, UInt32.add_comm 1]
    rfl

theorem utf8Skip_spec (h : Rest s i cs) (hk : k ≤ cs.length) : ∃ j, utf8Skip s k i = some j ∧
    j.toNat = i.toNat + ((cs.take k).flatMap encode).length ∧ Rest s j (cs.drop k) := by
  induction k generalizing i cs with
  | zero => exact ⟨i, rfl, rfl, h⟩
  | succ k ih =>
    cases cs with
    | nil => exact absurd hk (Nat.not_succ_le_zero k)
    | cons c cs =>
      obtain ⟨adv, hat, hadd, hrest⟩ := h.cons_at
      obtain ⟨j, hskip, hj, hlast⟩ := ih hrest (Nat.le_of_succ_le_succ hk)
      refine ⟨j, ?_, ?_, hlast⟩
      · rw [utf8Skip, hat]
        exact hskip
      · rw [List.take_succ_cons, List.flatMap_cons, List.length_append, hj, hadd, Nat.add_assoc]

theorem utf8Skip_none (h : Rest s i cs) (hk : cs.length < k) : utf8Skip s k i = none := by
  induction k generalizing i cs with
  | zero => exact absurd hk (Nat.not_lt_zero _)
  | succ k ih =>
    rw [utf8Skip]
    cases cs with
    | nil => rw [h.nil_at.2]
    | cons c cs =>
      obtain ⟨adv, hat, -, hrest⟩ := h.cons_at
      rw [hat]
      exact ih hrest (Nat.lt_of_succ_lt_succ hk)

theorem unicodeCompareFrom_spec (ha : Rest a ia cs) (hb : Rest b ib ds) (hfuel : cs.length < fuel) :
    ∃ r, unicodeCompareFrom a b fuel ia ib = some r ∧ (r = 0 ↔ cs = ds) ∧ (r = -1 ↔ cs < ds) ∧
      (r = 1 ↔ ds < cs) := by
  induction fuel generalizing ia ib cs ds with
  | zero => exact absurd hfuel (Nat.not_lt_zero _)
  | succ fuel ih =>
    rw [unicodeCompareFrom]
    cases cs with
    | nil =>
      rw [if_neg ha.nil_at.1]
      cases ds with
      | nil =>
        rw [if_neg hb.nil_at.1]
        exact ⟨0, rfl, by simp, by simp, by simp⟩
      | cons d ds =>
        obtain ⟨adv, hat, -⟩ := hb.cons_at
        rw [if_pos hb.cons_lt, hat]
        exact ⟨-1, rfl, by simp, by simp, by simp⟩
    | cons c cs =>
      obtain ⟨adv, hat, -, hrest⟩ := ha.cons_at
      rw [if_pos ha.cons_lt, hat]
      cases ds with
      | nil =>
        rw [if_neg hb.nil_at.1]
        exact ⟨1, rfl, by simp, by simp, by simp⟩
      | cons d ds =>
        obtain ⟨adv', hat', -, hrest'⟩ := hb.cons_at
        have hc := toNat_ofNat_scalar (ha.scalar c List.mem_cons_self)
        have hd := toNat_ofNat_scalar (hb.scalar d List.mem_cons_self)
        rw [if_pos hb.cons_lt, hat']
        by_cases heq : UInt32.ofNat c = UInt32.ofNat d
        · have hcd : c = d := by rw [← hc, heq, hd]
          subst hcd
          obtain ⟨r, hr, hzero, hless, hmore⟩ := ih hrest hrest' (Nat.lt_of_succ_lt_succ hfuel)
          refine ⟨r, (if_neg (not_not.mpr heq)).trans hr, ?_, ?_, ?_⟩
          · rw [hzero, List.cons.injEq]
            simp only [true_and]
          · rw [hless, List.cons_lt_cons_iff]
            simp only [lt_irrefl, true_and, false_or]
          · rw [hmore, List.cons_lt_cons_iff]
            simp only [lt_irrefl, true_and, false_or]
        · have hcd : c ≠ d := fun h ↦ heq (congrArg UInt32.ofNat h)
          have hlt : UInt32.ofNat c < UInt32.ofNat d ↔ c < d := by
            rw [UInt32.lt_iff_toNat_lt, hc, hd]
          refine ⟨if UInt32.ofNat c < UInt32.ofNat d then -1 else 1, if_pos heq, ?_⟩
          simp only [hlt, List.cons.injEq, List.cons_lt_cons_iff, hcd, Ne.symm hcd, false_and,
            or_false, iff_false]
          split_ifs with h
          · exact ⟨by decide, iff_of_true rfl h, iff_of_false (by decide) (by omega)⟩
          · exact ⟨by decide, iff_of_false (by decide) h, iff_of_true rfl (by omega)⟩

end Walk

section Operations

variable {s a b : CBytes} {cs ds : List ℕ} {α : Type}

def Fails (r : Except String α) : Prop := ∃ msg, r = .error msg

theorem fails_error (msg : String) : Fails (.error msg : Except String α) := ⟨msg, rfl⟩

theorem not_fails_of_ok {r : Except String α} {v : α} (h : r = .ok v) : ¬ Fails r := by
  rintro ⟨msg, hmsg⟩
  rw [h] at hmsg
  exact absurd hmsg (by simp)

def PointsOf (s : CBytes) (cs : List ℕ) : Prop :=
  (∀ c ∈ cs, Scalar c) ∧ s.bytes = cs.flatMap encode

theorem PointsOf.rest (h : PointsOf s cs) : Rest s 0 cs := ⟨Nat.zero_le _, h.1, h.2⟩

theorem toInt_toInt32 {n : UInt32} (h : n.toNat < 2 ^ 31) : n.toInt32.toInt = n.toNat := by
  rw [← Int32.toInt_toBitVec, UInt32.toBitVec_toInt32, BitVec.toInt_eq_toNat_of_lt]
  · rfl
  · rw [UInt32.toNat_toBitVec]
    omega

theorem toInt_neg_iff {i : Int32} : i < 0 ↔ i.toInt < 0 := Int32.lt_iff_toInt_lt

theorem unicodeLength_spec (h : PointsOf s cs) (hcount : cs.length < 2 ^ 31) {fuel : ℕ}
    (hfuel : s.len.toNat < fuel) :
    ∃ n, unicodeLength s fuel = some (.ok n) ∧ n.toInt = cs.length := by
  have hcs := h.rest.length_le
  have hnat : (UInt32.ofNat cs.length).toNat = cs.length := by
    rw [UInt32.toNat_ofNat']
    exact Nat.mod_eq_of_lt (by omega)
  have hvalid : UInt32.ofNat cs.length ≠ 0xFFFFFFFF := by
    intro heq
    have hall : (0xFFFFFFFF : UInt32).toNat = 4294967295 := rfl
    rw [heq, hall] at hnat
    omega
  refine ⟨(UInt32.ofNat cs.length).toInt32, ?_, ?_⟩
  · rw [unicodeLength, utf8CodepointCount, utf8CountFrom_spec h.rest (by omega), UInt32.zero_add]
    exact congrArg some (if_neg hvalid)
  · rw [toInt_toInt32 (by omega), hnat]

theorem utf8ByteOffsetAtCp_spec (h : PointsOf s cs) {idx : Int32} (hidx : ¬ idx < 0)
    (hle : idx.toInt.toNat ≤ cs.length) : ∃ i, utf8ByteOffsetAtCp s idx = some i ∧
      Rest s i (cs.drop idx.toInt.toNat) := by
  obtain ⟨i, hskip, -, hrest⟩ := utf8Skip_spec h.rest hle
  refine ⟨i, ?_, hrest⟩
  rw [utf8ByteOffsetAtCp, if_neg hidx, hskip]
  exact Option.filter_some_pos (decide_eq_true (UInt32.le_iff_toNat_le.mpr hrest.inside))

theorem utf8ByteOffsetAtCp_none (h : PointsOf s cs) {idx : Int32} (hidx : ¬ idx < 0)
    (hlt : cs.length < idx.toInt.toNat) : utf8ByteOffsetAtCp s idx = none := by
  rw [utf8ByteOffsetAtCp, if_neg hidx, utf8Skip_none h.rest hlt]
  rfl

theorem unicodeGet_ok (h : PointsOf s cs) {idx : Int32} (hidx : ¬ idx < 0)
    (hlt : idx.toInt.toNat < cs.length) :
    unicodeGet s idx = .ok (UInt32.ofNat cs[idx.toInt.toNat]).toInt32 := by
  obtain ⟨i, hoff, hrest⟩ := utf8ByteOffsetAtCp_spec h hidx hlt.le
  rw [List.drop_eq_getElem_cons hlt] at hrest
  obtain ⟨adv, hat, -⟩ := hrest.cons_at
  rw [unicodeGet, if_neg hidx, hoff]
  simp only [hat]

theorem unicodeGet_fails (h : PointsOf s cs) {idx : Int32}
    (hout : idx.toInt < 0 ∨ (cs.length : ℤ) ≤ idx.toInt) : Fails (unicodeGet s idx) := by
  by_cases hidx : idx < 0
  · rw [unicodeGet, if_pos hidx]
    exact fails_error _
  · have hneg := mt toInt_neg_iff.mpr hidx
    rw [unicodeGet, if_neg hidx]
    rcases Nat.lt_or_ge cs.length idx.toInt.toNat with hlt | hge
    · rw [utf8ByteOffsetAtCp_none h hidx hlt]
      exact fails_error _
    · obtain ⟨i, hoff, hrest⟩ := utf8ByteOffsetAtCp_spec h hidx hge
      rw [List.drop_of_length_le (by omega)] at hrest
      simp only [hoff, hrest.nil_at.2]
      exact fails_error _

theorem flatMap_window {i j : UInt32} {k : ℕ} (hrest : Rest s i cs)
    (hj : j.toNat = i.toNat + ((cs.take k).flatMap encode).length) (hend : j.toNat ≤ s.len.toNat) :
    s.window i.toNat (j - i).toNat = (cs.take k).flatMap encode := by
  have hle : i ≤ j := UInt32.le_iff_toNat_le.mpr (by omega)
  have hwidth : (j - i).toNat = ((cs.take k).flatMap encode).length := by
    rw [UInt32.toNat_sub_of_le _ _ hle]
    omega
  have hsplit : cs.flatMap encode = (cs.take k).flatMap encode ++ (cs.drop k).flatMap encode := by
    rw [← List.flatMap_append, List.take_append_drop]
  rw [← s.take_drop_bytes (by omega), hwidth, hrest.drop, hsplit, List.take_left]

theorem unicodeSub_ok (h : PointsOf s cs) {pos slen : Int32} (hpos : ¬ pos < 0) (hslen : ¬ slen < 0)
    (hfits : slen = 0 ∨ pos.toInt.toNat + slen.toInt.toNat ≤ cs.length) :
    unicodeSub s pos slen =
      .ok (((cs.drop pos.toInt.toNat).take slen.toInt.toNat).flatMap encode) := by
  rw [unicodeSub, if_neg (not_or.mpr ⟨hpos, hslen⟩)]
  by_cases hzero : slen = 0
  · rw [if_pos hzero, hzero]
    rfl
  · have hfits := hfits.resolve_left hzero
    obtain ⟨i, hoff, hrest⟩ := utf8ByteOffsetAtCp_spec h hpos (by omega)
    obtain ⟨j, hskip, hj, hlast⟩ := utf8Skip_spec hrest (k := slen.toInt.toNat)
      (by rw [List.length_drop]; omega)
    have hinside := hlast.inside
    have hslice : ¬ (j < i ∨ s.len < j) := by
      rw [not_or, UInt32.not_lt, UInt32.not_lt, UInt32.le_iff_toNat_le, UInt32.le_iff_toNat_le]
      omega
    rw [if_neg hzero]
    simp only [hoff, hskip, if_neg hslice]
    rw [flatMap_window hrest hj hinside]

theorem unicodeSub_fails (h : PointsOf s cs) {pos slen : Int32}
    (hout : pos.toInt < 0 ∨ slen.toInt < 0 ∨
      (0 < slen.toInt ∧ (cs.length : ℤ) < pos.toInt + slen.toInt)) :
    Fails (unicodeSub s pos slen) := by
  by_cases hneg : pos < 0 ∨ slen < 0
  · rw [unicodeSub, if_pos hneg]
    exact fails_error _
  · have hpos := not_or.mp hneg
    have hpos' := mt toInt_neg_iff.mpr hpos.1
    have hslen' := mt toInt_neg_iff.mpr hpos.2
    have hsum := (hout.resolve_left hpos').resolve_left hslen'
    have hzero : slen ≠ 0 := by
      rintro rfl
      exact absurd hsum.1 (by decide)
    rw [unicodeSub, if_neg hneg, if_neg hzero]
    rcases Nat.lt_or_ge cs.length pos.toInt.toNat with hlt | hge
    · rw [utf8ByteOffsetAtCp_none h hpos.1 hlt]
      exact fails_error _
    · obtain ⟨i, hoff, hrest⟩ := utf8ByteOffsetAtCp_spec h hpos.1 hge
      have hskip := utf8Skip_none hrest (k := slen.toInt.toNat) (by rw [List.length_drop]; omega)
      simp only [hoff, hskip]
      exact fails_error _

/-- What the operations on one string have to do with its code points -/
structure OnPoints (s : CBytes) (cs : List ℕ) : Prop where
  length : cs.length < 2 ^ 31 → ∀ fuel > s.len.toNat, ∃ n,
    unicodeLength s fuel = some (.ok n) ∧ n.toInt = cs.length
  get_fails : ∀ idx, Fails (unicodeGet s idx) ↔ idx.toInt < 0 ∨ (cs.length : ℤ) ≤ idx.toInt
  get : ∀ idx v, unicodeGet s idx = .ok v →
    ∃ c, cs[idx.toInt.toNat]? = some c ∧ v.toInt = c
  sub_fails : ∀ pos slen, Fails (unicodeSub s pos slen) ↔ pos.toInt < 0 ∨ slen.toInt < 0 ∨
    (0 < slen.toInt ∧ (cs.length : ℤ) < pos.toInt + slen.toInt)
  sub : ∀ pos slen bs, unicodeSub s pos slen = .ok bs →
    bs = ((cs.drop pos.toInt.toNat).take slen.toInt.toNat).flatMap encode

theorem toInt_scalar {c : ℕ} (hc : Scalar c) : (UInt32.ofNat c).toInt32.toInt = c := by
  have hcode := toNat_ofNat_scalar hc
  unfold Scalar at hc
  rw [toInt_toInt32 (by omega), hcode]

theorem onPoints (h : PointsOf s cs) : OnPoints s cs where
  length := fun hcount _ hfuel ↦ unicodeLength_spec h hcount hfuel
  get_fails := by
    intro idx
    refine ⟨fun hfail ↦ ?_, unicodeGet_fails h⟩
    by_contra hin
    rw [not_or] at hin
    exact not_fails_of_ok (unicodeGet_ok h (mt toInt_neg_iff.mp hin.1) (by omega)) hfail
  get := by
    intro idx v hv
    have hin := mt (unicodeGet_fails h) (not_fails_of_ok hv)
    rw [not_or] at hin
    have hlt : idx.toInt.toNat < cs.length := by omega
    rw [unicodeGet_ok h (mt toInt_neg_iff.mp hin.1) hlt, Except.ok.injEq] at hv
    refine ⟨cs[idx.toInt.toNat], List.getElem?_eq_getElem hlt, ?_⟩
    rw [← hv, toInt_scalar (h.1 _ (List.getElem_mem hlt))]
  sub_fails := by
    intro pos slen
    refine ⟨fun hfail ↦ ?_, unicodeSub_fails h⟩
    by_contra hin
    rw [not_or, not_or] at hin
    have hzero : slen = 0 ∨ 0 < slen.toInt := by
      rw [← Int32.toInt_inj, Int32.toInt_zero]
      omega
    exact not_fails_of_ok (unicodeSub_ok h (mt toInt_neg_iff.mp hin.1)
      (mt toInt_neg_iff.mp hin.2.1) (hzero.imp_right fun hlt ↦ by omega)) hfail
  sub := by
    intro pos slen bs hbs
    have hin := mt (unicodeSub_fails h) (not_fails_of_ok hbs)
    rw [not_or, not_or] at hin
    have hzero : slen = 0 ∨ 0 < slen.toInt := by
      rw [← Int32.toInt_inj, Int32.toInt_zero]
      omega
    rw [unicodeSub_ok h (mt toInt_neg_iff.mp hin.1) (mt toInt_neg_iff.mp hin.2.1)
      (hzero.imp_right fun hlt ↦ by omega), Except.ok.injEq] at hbs
    exact hbs.symm

/-- `unicode_compare` is the lexicographic order of the code points. -/
def OrdersPoints (a b : CBytes) (cs ds : List ℕ) : Prop :=
  ∀ fuel > a.len.toNat, ∃ r, unicodeCompare a b fuel = some r ∧ (r = 0 ↔ cs = ds) ∧
    (r = -1 ↔ cs < ds) ∧ (r = 1 ↔ ds < cs) ∧ (r = 0 → a.bytes = b.bytes)

theorem ordersPoints (ha : PointsOf a cs) (hb : PointsOf b ds) : OrdersPoints a b cs ds := by
  intro fuel hfuel
  have hcs := ha.rest.length_le
  obtain ⟨r, hr, hzero, hless, hmore⟩ :=
    unicodeCompareFrom_spec ha.rest hb.rest (show cs.length < fuel by omega)
  refine ⟨r, hr, hzero, hless, hmore, fun h ↦ ?_⟩
  rw [ha.2, hb.2, hzero.mp h]

end Operations

section Buffer

variable {b b' : UnicodeBuf} {cs : List ℕ} {alloc : Alloc} {cp : Int32}

theorem grownCap_enough {need cap cap' : UInt32} {fuel : ℕ}
    (h : grownCap need fuel cap = some cap') : need ≤ cap' := by
  induction fuel generalizing cap with
  | zero => exact absurd h (by simp [grownCap])
  | succ fuel ih =>
    rw [grownCap] at h
    split_ifs at h with hlt hbig
    · exact ih h
    · rw [Option.some.injEq] at h
      rwa [← h, ← UInt32.not_lt]

theorem grownCap_rounds {need cap : UInt32} (k more : ℕ) (hcap : 2 ^ 32 ≤ cap.toNat * 2 ^ k) :
    grownCap need (k + 1 + more) cap = grownCap need (k + 1) cap := by
  induction k generalizing cap with
  | zero =>
    have hlt := cap.toNat_lt
    omega
  | succ k ih =>
    rw [Nat.add_right_comm, grownCap, grownCap]
    split_ifs with hlt hbig
    · rfl
    · have hdouble : (cap * 2).toNat = cap.toNat * 2 := by
        rw [UInt32.not_lt, UInt32.le_iff_toNat_le] at hbig
        have hhalf : cap.toNat ≤ 2147483647 := hbig
        rw [UInt32.toNat_mul]
        exact Nat.mod_eq_of_lt (show cap.toNat * 2 < 2 ^ 32 by omega)
      apply ih
      rw [hdouble, Nat.mul_assoc, ← pow_succ']
      exact hcap
    · rfl

/-- The buffer holds the encoding of the code points, within its block. -/
structure Holding (b : UnicodeBuf) (cs : List ℕ) : Prop where
  scalar : ∀ c ∈ cs, Scalar c
  bytes : b.bytes = cs.flatMap encode
  chars : b.chars.toNat = cs.length
  within : b.len ≤ b.cap

theorem UnicodeBuf.length_bytes (b : UnicodeBuf) : b.bytes.length = b.len.toNat := by
  rw [bytes, List.length_map, List.length_range]

theorem holding_new {cap : Int32} (h : unicodeBufNew alloc cap = .ok b) : Holding b [] := by
  have hempty : ∃ fresh initial, b = { data := fresh, len := 0, cap := initial, chars := 0 } := by
    by_cases hneg : cap < 0
    · rw [unicodeBufNew, if_pos hneg] at h
      exact absurd h (by simp)
    rw [unicodeBufNew, if_neg hneg] at h
    cases hfresh : alloc (if cap = 0 then 8 else cap.toUInt32) with
    | none => simp only [hfresh, reduceCtorEq] at h
    | some fresh =>
      simp only [hfresh, Except.ok.injEq] at h
      exact ⟨fresh, _, h.symm⟩
  obtain ⟨fresh, initial, rfl⟩ := hempty
  exact ⟨by simp, rfl, rfl, UInt32.le_iff_toNat_le.mpr (Nat.zero_le _)⟩

theorem unicodeBufGrow_spec {need : UInt32} (hwithin : b.len ≤ b.cap)
    (h : unicodeBufGrow alloc b need = some b') :
    b'.len = b.len ∧ b'.chars = b.chars ∧ b'.bytes = b.bytes ∧ b.len + need ≤ b'.cap := by
  by_cases hroom : b.len + need ≤ b.cap
  · rw [unicodeBufGrow, if_pos hroom, Option.some.injEq] at h
    subst h
    exact ⟨rfl, rfl, rfl, hroom⟩
  · rw [unicodeBufGrow, if_neg hroom] at h
    cases hgrow : grownCap (b.len + need) 33 (if b.cap = 0 then 8 else b.cap) with
    | none => simp only [hgrow, reduceCtorEq] at h
    | some cap =>
      cases hfresh : alloc cap with
      | none => simp only [hgrow, hfresh, reduceCtorEq] at h
      | some fresh =>
        simp only [hgrow, hfresh, Option.some.injEq] at h
        subst h
        refine ⟨rfl, rfl, ?_, grownCap_enough hgrow⟩
        apply List.map_congr_left
        intro j hj
        rw [UInt32.le_iff_toNat_le] at hwithin
        exact if_pos ((List.mem_range.mp hj).trans_le hwithin)

theorem bytes_copied {out : List UInt8} (hsum : b.len.toNat + out.length < 2 ^ 32) :
    ((List.range (b.len + UInt32.ofNat out.length).toNat).map (b.copied out)) = b.bytes ++ out := by
  rw [toNat_add_of_lt hsum]
  exact map_range_place _ _ _

theorem utf8Encode_some {c : UInt32} {out : List UInt8} (h : utf8Encode c 4 = some out) :
    Scalar c.toNat ∧ out = encode c.toNat := by
  have hc : Scalar c.toNat := by
    rw [← utf8ValidCp_iff]
    by_contra hc
    rw [Bool.not_eq_true] at hc
    rw [utf8Encode, hc] at h
    exact absurd h (by simp)
  rw [utf8Encode_eq hc, Option.some.injEq] at h
  exact ⟨hc, h.symm⟩

theorem holding_add (hb : Holding b cs) (h : unicodeBufAdd alloc b cp = .ok b')
    (hsum : ((cs ++ [cp.toUInt32.toNat]).flatMap encode).length < 2 ^ 32) :
    Holding b' (cs ++ [cp.toUInt32.toNat]) := by
  rw [unicodeBufAdd] at h
  cases henc : utf8Encode cp.toUInt32 4 with
  | none => simp only [henc, reduceCtorEq] at h
  | some out =>
    obtain ⟨hc, rfl⟩ := utf8Encode_some henc
    have hle := length_encode_le cp.toUInt32.toNat
    have hlen := b.length_bytes
    rw [List.flatMap_append, List.length_append, List.flatMap_singleton, ← hb.bytes, hlen] at hsum
    cases hgrow : unicodeBufGrow alloc b
        (UInt32.ofNat (encode cp.toUInt32.toNat).length) with
    | none => simp only [henc, hgrow, reduceCtorEq] at h
    | some g =>
      simp only [henc, hgrow, Except.ok.injEq] at h
      subst h
      obtain ⟨hglen, hgchars, hgbytes, hroom⟩ := unicodeBufGrow_spec hb.within hgrow
      have hchars : cs.length ≤ b.len.toNat := by
        rw [← hlen, hb.bytes]
        exact length_le_flatMap cs
      have hpos := length_encode_pos cp.toUInt32.toNat
      refine ⟨?_, ?_, ?_, ?_⟩
      · intro c hmem
        rcases List.mem_append.mp hmem with hmem | hmem
        · exact hb.scalar c hmem
        · rw [List.mem_singleton.mp hmem]
          exact hc
      · rw [List.flatMap_append, List.flatMap_singleton, ← hb.bytes, ← hgbytes]
        exact bytes_copied (b := g) (by rw [hglen]; omega)
      · rw [List.length_append, List.length_singleton, hgchars]
        have hadd := @toNat_add_of_lt b.chars 1 (by rw [hb.chars]; omega)
        rw [hb.chars] at hadd
        exact hadd
      · rw [hglen]
        exact hroom

theorem holding_adds (calls : List (Alloc × Int32)) (hb : Holding b cs)
    (hsum : ((cs ++ (unicodeBufAdds b calls).2).flatMap encode).length < 2 ^ 32) :
    Holding (unicodeBufAdds b calls).1 (cs ++ (unicodeBufAdds b calls).2) := by
  induction calls generalizing b cs with
  | nil =>
    rw [unicodeBufAdds, List.append_nil]
    exact hb
  | cons call calls ih =>
    rcases call with ⟨alloc, cp⟩
    rw [unicodeBufAdds] at hsum ⊢
    cases hadd : unicodeBufAdd alloc b cp with
    | error msg =>
      simp only [hadd] at hsum
      exact ih hb hsum
    | ok b' =>
      simp only [hadd] at hsum
      rw [List.append_cons] at hsum
      have hone := hsum
      rw [List.flatMap_append, List.length_append] at hone
      have hrest := ih (holding_add hb hadd (by omega)) hsum
      rw [← List.append_cons] at hrest
      exact hrest

/-- A sum of length and need that wraps around passes for room. -/
theorem unicodeBufAdd_wraps {out : List UInt8} (henc : utf8Encode cp.toUInt32 4 = some out)
    (hwrap : b.len + UInt32.ofNat out.length ≤ b.cap) :
    unicodeBufAdd alloc b cp = .ok { b with
      data := b.copied out, len := b.len + UInt32.ofNat out.length, chars := b.chars + 1 } := by
  simp only [unicodeBufAdd, henc, unicodeBufGrow, if_pos hwrap]

/-- A buffer of any capacity, filled by any calls -/
def BufferHolds : Prop :=
  ∀ (alloc : Alloc) (cap : Int32) (b : UnicodeBuf), unicodeBufNew alloc cap = .ok b →
    ∀ (calls : List (Alloc × Int32)) (r : UnicodeBuf) (added : List ℕ),
      unicodeBufAdds b calls = (r, added) → (added.flatMap encode).length < 2 ^ 32 →
        unicodeBufBytes r = added.flatMap encode ∧
        (added.length < 2 ^ 31 → (unicodeBufLength r).toInt = added.length) ∧ r.len ≤ r.cap

theorem bufferHolds : BufferHolds := by
  intro alloc cap b hnew calls r added hrun hsum
  have hend : Holding (unicodeBufAdds b calls).1 ([] ++ (unicodeBufAdds b calls).2) := by
    apply holding_adds calls (holding_new hnew)
    rw [List.nil_append, hrun]
    exact hsum
  rw [List.nil_append, hrun] at hend
  refine ⟨hend.bytes, fun hcount ↦ ?_, hend.within⟩
  rw [unicodeBufLength, toInt_toInt32 (by rw [hend.chars]; exact hcount), hend.chars]

end Buffer

/-- The loop of `unicode_buf_grow` ends: thirty-three rounds are all that it ever takes. -/
def GrowthRounds : Prop := ∀ (need cap : UInt32) (more : ℕ), cap ≠ 0 →
  grownCap need (33 + more) cap = grownCap need 33 cap

section Refinement

/-- The operations are those of the list of code points. -/
theorem unicode_onPoints (a b : CBytes) (cs ds : List ℕ) (ha : PointsOf a cs)
    (hb : PointsOf b ds) : OnPoints a cs ∧ OrdersPoints a b cs ds ∧ BufferHolds ∧ GrowthRounds := by
  refine ⟨onPoints ha, ordersPoints ha hb, bufferHolds, fun need cap more hcap ↦ ?_⟩
  refine grownCap_rounds 32 more (Nat.le_mul_of_pos_left _ (Nat.pos_of_ne_zero fun h ↦ hcap ?_))
  exact UInt32.toNat_inj.mp h

/-- A letter, one with an accent and one beyond the basic plane, against a part of them. -/
theorem unicode_onPoints_e :
    OnPoints (CBytes.ofList [0x65, 0xC3, 0xA9, 0xF0, 0x9F, 0x98, 0x80]) [0x65, 0xE9, 0x1F600] ∧
      OrdersPoints (CBytes.ofList [0x65, 0xC3, 0xA9, 0xF0, 0x9F, 0x98, 0x80])
        (CBytes.ofList [0x65, 0xC3, 0xA9]) [0x65, 0xE9, 0x1F600] [0x65, 0xE9] ∧
      BufferHolds ∧ GrowthRounds :=
  unicode_onPoints _ _ _ _ ⟨by decide, by decide⟩ ⟨by decide, by decide⟩

/-- One code point from before the start is not the code point at the start: it is refused. -/
theorem unicodeSub_negative : ¬ ∀ pos slen : Int32,
    Fails (unicodeSub (CBytes.ofList [0x61]) pos slen) ↔
      0 < slen.toInt ∧ (([0x61] : List ℕ).length : ℤ) < pos.toInt + slen.toInt := by
  intro h
  have hout := (h (-1) 1).mp ⟨"unicode_sub: negative pos/len", by decide⟩
  exact absurd hout.2 (by decide)

end Refinement

end JelloVM
