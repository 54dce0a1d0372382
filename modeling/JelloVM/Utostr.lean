import JelloVM.Libs.Unicode
import JelloVM.Library.Fitting
import JelloVM.Library.Utf16

/-! The conversion of strings from UTF-16 to UTF-8. -/

namespace JelloVM

open Utf8 (Scalar)
open Fitting

/-- The bytes before the terminator; `none` is a read beyond the memory of the string. The count
is at most three times the units, so `size_t` holds it. -/
def utostrUtf8Len : List UInt16 → Option ℕ
  | [] => none
  | c :: str =>
    if c.toUInt32 = 0 then some 0
    else if c.toUInt32 < 0x80 then (utostrUtf8Len str).map (1 + ·)
    else if c.toUInt32 < 0x800 then (utostrUtf8Len str).map (2 + ·)
    else if 0xD800 ≤ c.toUInt32 ∧ c.toUInt32 ≤ 0xDFFF then
      match str with
      | [] => none
      | _ :: str => (utostrUtf8Len str).map (4 + ·)
    else (utostrUtf8Len str).map (3 + ·)

/-- The fast loop with `room` bytes between `out` and `end`: what it writes, the room left and
where `str` then points. -/
def utostrAscii : ℕ → List UInt16 → Option (List UInt8 × ℕ × List UInt16)
  | 0, str => some ([], 0, str)
  | _ + 1, [] => none
  | room + 1, c :: str =>
    if c.toUInt32 = 0 then some ([], room + 1, c :: str)
    else if 0x80 ≤ c.toUInt32 then some ([], room + 1, c :: str)
    else (utostrAscii room str).map fun s ↦ (c.toUInt32.toUInt8 :: s.1, s.2)

def surrogateFull (c d : UInt32) : UInt32 := (((c - 0xD800) <<< 10) ||| (d - 0xDC00)) + 0x10000

def utostrGeneral (room : ℕ) (str : List UInt16) : Option (List UInt8) :=
  if room = 0 then some []
  else match str with
    | [] => none
    | c :: str =>
      let c := c.toUInt32
      if c = 0 then some []
      else if c < 0x80 then (utostrGeneral (room - 1) str).map (c.toUInt8 :: ·)
      else if c < 0x800 then
        if room < 2 then some []
        else (utostrGeneral (room - 2) str).map ([leadOf 0xC0 (c >>> 6), tailOf c] ++ ·)
      else if 0xD800 ≤ c ∧ c ≤ 0xDFFF then
        if room < 4 then some []
        else match str with
          | [] => none
          | d :: str =>
            let full := surrogateFull c d.toUInt32
            (utostrGeneral (room - 4) str).map ([leadOf 0xF0 (full >>> 18),
              tailOf (full >>> 12), tailOf (full >>> 6), tailOf full] ++ ·)
      else
        if room < 3 then some []
        else (utostrGeneral (room - 3) str).map
          ([leadOf 0xE0 (c >>> 12), tailOf (c >>> 6), tailOf c] ++ ·)

/-- The bytes written to `out` with the terminator, and the return value -/
def utostr (outSize : Int32) (str : List UInt16) : Option (List UInt8 × Int32) :=
  if outSize ≤ 0 then some ([], 0)
  else do
    let (ascii, room, str) ← utostrAscii (outSize.toNatClampNeg - 1) str
    let general ← utostrGeneral room str
    let written := ascii ++ general
    some (written ++ [0], Int32.ofNat written.length)

/-- The fast loop does what the general one does, so the two of them are the general one. -/
theorem utostrAscii_general (room : ℕ) (str : List UInt16) :
    ((utostrAscii room str).bind fun s ↦ (utostrGeneral s.2.1 s.2.2).map (s.1 ++ ·)) =
      utostrGeneral room str := by
  induction room generalizing str with
  | zero =>
    rw [utostrAscii, utostrGeneral.eq_def 0 str, if_pos rfl, Option.bind_some,
      utostrGeneral.eq_def, if_pos rfl]
    rfl
  | succ room ih =>
    cases str with
    | nil =>
      rw [utostrAscii, utostrGeneral.eq_def (room + 1), if_neg room.succ_ne_zero]
      rfl
    | cons c str =>
      rw [utostrAscii]
      split_ifs with h0 h80
      · simp only [Option.bind_some, List.nil_append, Option.map_id_fun', id]
      · simp only [Option.bind_some, List.nil_append, Option.map_id_fun', id]
      · rw [UInt32.not_le] at h80
        rw [utostrGeneral.eq_def (room + 1)]
        simp only [room.succ_ne_zero, if_false, h0, h80, if_true, Nat.add_sub_cancel, ← ih str]
        cases utostrAscii room str with
        | none => rfl
        | some s =>
          simp only [Option.map_some, Option.bind_some, Option.map_map]
          rfl

theorem utostr_eq {outSize : Int32} (hout : ¬outSize ≤ 0) (str : List UInt16) :
    utostr outSize str = (utostrGeneral (outSize.toNatClampNeg - 1) str).map fun w ↦
      (w ++ [0], Int32.ofNat w.length) := by
  rw [utostr, if_neg hout, ← utostrAscii_general]
  cases utostrAscii (outSize.toNatClampNeg - 1) str with
  | none => rfl
  | some s =>
    obtain ⟨ascii, room, str⟩ := s
    simp only [bind, Option.bind_some, Option.map_map]
    cases utostrGeneral room str <;> rfl

section Steps

variable {c d : UInt16} {room : ℕ} {str : List UInt16}

theorem encode_toNat {cp : UInt32} (hcp : Scalar cp.toNat) : Utf8.encode cp.toNat =
    if cp < 0x80 then [cp.toUInt8]
    else if cp < 0x800 then [leadOf 0xC0 (cp >>> 6), tailOf cp]
    else if cp < 0x10000 then [leadOf 0xE0 (cp >>> 12), tailOf (cp >>> 6), tailOf cp]
    else [leadOf 0xF0 (cp >>> 18), tailOf (cp >>> 12), tailOf (cp >>> 6), tailOf cp] := by
  have henc := utf8Encode_eq hcp
  have hcap : ¬ (4 : UInt32) < 1 ∧ ¬ (4 : UInt32) < 2 ∧ ¬ (4 : UInt32) < 3 ∧
      ¬ (4 : UInt32) < 4 := by decide
  simp only [utf8Encode, utf8ValidCp_iff.mpr hcp, Bool.not_true, Bool.false_eq_true, if_false,
    hcap] at henc
  apply Option.some.inj
  rw [← henc]
  split_ifs <;> rfl

theorem toUInt32_lt_iff {bound : UInt32} : c.toUInt32 < bound ↔ c.toNat < bound.toNat := by
  rw [UInt32.lt_iff_toNat_lt, UInt16.toNat_toUInt32]

theorem surrogate_range : 0xD800 ≤ c.toUInt32 ∧ c.toUInt32 ≤ 0xDFFF ↔ Utf16.Surrogate c := by
  rw [Utf16.surrogate_iff, UInt32.le_iff_toNat_le, UInt32.le_iff_toNat_le, UInt16.toNat_toUInt32]
  rfl

theorem toUInt32_eq_zero : c.toUInt32 = 0 ↔ c = 0 := by
  rw [← UInt32.toNat_inj, ← UInt16.toNat_inj, UInt16.toNat_toUInt32]
  rfl

theorem toNat_surrogateFull (hc : Utf16.High c) (hd : Utf16.Low d) :
    (surrogateFull c.toUInt32 d.toUInt32).toNat = Utf16.combined c d := by
  rw [Utf16.high_iff] at hc
  rw [Utf16.low_iff] at hd
  have hhigh : (c.toUInt32 - 0xD800).toNat = c.toNat - 0xD800 := by
    rw [UInt32.toNat_sub_of_le, UInt16.toNat_toUInt32]
    · rfl
    · rw [UInt32.le_iff_toNat_le, UInt16.toNat_toUInt32]
      exact hc.1
  have hlow : (d.toUInt32 - 0xDC00).toNat = d.toNat - 0xDC00 := by
    rw [UInt32.toNat_sub_of_le, UInt16.toNat_toUInt32]
    · rfl
    · rw [UInt32.le_iff_toNat_le, UInt16.toNat_toUInt32]
      exact hd.1
  have hshift : ((c.toUInt32 - 0xD800) <<< 10).toNat = (c.toNat - 0xD800) <<< 10 := by
    rw [UInt32.toNat_shiftLeft, hhigh]
    have hten : 2 ^ ((10 : UInt32).toNat % 32) = 1024 := rfl
    apply Nat.mod_eq_of_lt
    rw [Nat.shiftLeft_eq, hten]
    omega
  rw [surrogateFull, UInt32.toNat_add, UInt32.toNat_or, hshift, hlow, or_eq_add _ 10 (by omega),
    Utf16.combined]
  simp only [UInt32.reduceToNat]
  omega

theorem encode_unit_bytes (hc : ¬Utf16.Surrogate c) : Utf8.encode c.toNat =
    if c.toUInt32 < 0x80 then [c.toUInt32.toUInt8]
    else if c.toUInt32 < 0x800 then [leadOf 0xC0 (c.toUInt32 >>> 6), tailOf c.toUInt32]
    else [leadOf 0xE0 (c.toUInt32 >>> 12), tailOf (c.toUInt32 >>> 6), tailOf c.toUInt32] := by
  have hcp : Scalar c.toUInt32.toNat := by
    rw [UInt16.toNat_toUInt32]
    exact (Utf16.encode_unit hc).1
  have hlast : c.toUInt32 < 0x10000 := toUInt32_lt_iff.mpr c.toNat_lt
  have hbytes := encode_toNat hcp
  rw [if_pos hlast, UInt16.toNat_toUInt32] at hbytes
  exact hbytes

theorem encode_pair_bytes (hc : Utf16.High c) (hd : Utf16.Low d) :
    Utf8.encode (Utf16.combined c d) =
      [leadOf 0xF0 (surrogateFull c.toUInt32 d.toUInt32 >>> 18),
        tailOf (surrogateFull c.toUInt32 d.toUInt32 >>> 12),
        tailOf (surrogateFull c.toUInt32 d.toUInt32 >>> 6),
        tailOf (surrogateFull c.toUInt32 d.toUInt32)] := by
  have hfull := toNat_surrogateFull hc hd
  have hlow : 0x10000 ≤ Utf16.combined c d := Nat.le_add_left _ _
  have hcp : Scalar (surrogateFull c.toUInt32 d.toUInt32).toNat := by
    rw [hfull]
    exact (Utf16.encode_combined hc hd).1
  have hbound : ∀ bound : UInt32, bound.toNat ≤ 0x10000 →
      ¬surrogateFull c.toUInt32 d.toUInt32 < bound := by
    intro bound hle
    rw [UInt32.lt_iff_toNat_lt, hfull]
    omega
  have hbytes := encode_toNat hcp
  rw [if_neg (hbound 0x80 (by decide)), if_neg (hbound 0x800 (by decide)),
    if_neg (hbound 0x10000 (by decide)), hfull] at hbytes
  exact hbytes

theorem surrogate_of_high (hc : Utf16.High c) : Utf16.Surrogate c := by
  rw [Utf16.high_iff] at hc
  rw [Utf16.surrogate_iff]
  omega

theorem surrogate_tests (hc : Utf16.Surrogate c) :
    c ≠ 0 ∧ ¬c.toUInt32 < 0x80 ∧ ¬c.toUInt32 < 0x800 := by
  have hne : c ≠ 0 := by
    intro h
    rw [h] at hc
    exact absurd hc (by decide)
  rw [Utf16.surrogate_iff] at hc
  rw [toUInt32_lt_iff, toUInt32_lt_iff]
  simp only [UInt32.reduceToNat]
  exact ⟨hne, by omega, by omega⟩

theorem utostrGeneral_unit (hc : ¬Utf16.Surrogate c) (h0 : c ≠ 0) :
    utostrGeneral room (c :: str) = if (Utf8.encode c.toNat).length ≤ room then
      (utostrGeneral (room - (Utf8.encode c.toNat).length) str).map (Utf8.encode c.toNat ++ ·)
      else some [] := by
  rw [utostrGeneral.eq_def]
  by_cases hroom : room = 0
  · rw [if_pos hroom, hroom, if_neg (Nat.not_le_of_gt (Utf8.length_encode_pos _))]
  · simp only [hroom, toUInt32_eq_zero, h0, surrogate_range, hc, if_false, encode_unit_bytes hc]
    by_cases hone : c.toUInt32 < 0x80
    · simp only [hone, if_true, List.length_singleton, Nat.one_le_iff_ne_zero.mpr hroom]
      rfl
    · by_cases htwo : c.toUInt32 < 0x800
      · simp only [hone, htwo, if_true, if_false, List.length_cons, List.length_nil, ← not_lt,
          ite_not, Nat.zero_add, Nat.reduceAdd]
      · simp only [hone, htwo, if_false, List.length_cons, List.length_nil, ← not_lt,
          ite_not, Nat.zero_add, Nat.reduceAdd]

theorem utostrGeneral_pair (hc : Utf16.High c) (hd : Utf16.Low d) :
    utostrGeneral room (c :: d :: str) = if (Utf8.encode (Utf16.combined c d)).length ≤ room then
      (utostrGeneral (room - (Utf8.encode (Utf16.combined c d)).length) str).map
        (Utf8.encode (Utf16.combined c d) ++ ·)
      else some [] := by
  obtain ⟨h0, hone, htwo⟩ := surrogate_tests (surrogate_of_high hc)
  rw [utostrGeneral.eq_def]
  by_cases hroom : room = 0
  · rw [if_pos hroom, hroom, if_neg (Nat.not_le_of_gt (Utf8.length_encode_pos _))]
  · simp only [hroom, toUInt32_eq_zero, h0, hone, htwo, surrogate_range, surrogate_of_high hc,
      if_true, if_false, encode_pair_bytes hc hd, List.length_cons, List.length_nil, ← not_lt,
      ite_not, Nat.zero_add, Nat.reduceAdd]

theorem utostrUtf8Len_unit (hc : ¬Utf16.Surrogate c) (h0 : c ≠ 0) :
    utostrUtf8Len (c :: str) =
      (utostrUtf8Len str).map ((Utf8.encode c.toNat).length + ·) := by
  rw [encode_unit_bytes hc, utostrUtf8Len.eq_def]
  simp only [toUInt32_eq_zero, h0, surrogate_range, hc, if_false]
  split_ifs <;> rfl

theorem utostrUtf8Len_pair (hc : Utf16.High c) (hd : Utf16.Low d) :
    utostrUtf8Len (c :: d :: str) =
      (utostrUtf8Len str).map ((Utf8.encode (Utf16.combined c d)).length + ·) := by
  obtain ⟨h0, hone, htwo⟩ := surrogate_tests (surrogate_of_high hc)
  rw [encode_pair_bytes hc hd, utostrUtf8Len.eq_def]
  simp only [toUInt32_eq_zero, h0, hone, htwo, surrogate_range, surrogate_of_high hc, if_true,
    if_false]
  rfl

end Steps

def utf8Bytes (cs : List ℕ) : List UInt8 := cs.flatMap Utf8.encode

def utf8Width (c : ℕ) : ℕ := (Utf8.encode c).length

section Strings

variable {cs : List ℕ} {rest : List UInt16} {room : ℕ}

theorem total_utf8Width (cs : List ℕ) : total utf8Width cs = (utf8Bytes cs).length :=
  total_eq_length Utf8.encode cs

theorem character_cases {c : ℕ} (hc : Scalar c) (hzero : c ≠ 0) :
    (∃ u : UInt16, ¬Utf16.Surrogate u ∧ u ≠ 0 ∧ c = u.toNat ∧ Utf16.encode c = [u]) ∨
      ∃ u v : UInt16, Utf16.High u ∧ Utf16.Low v ∧ c = Utf16.combined u v ∧
        Utf16.encode c = [u, v] := by
  rcases Utf16.encode_cases hc with ⟨u, hu, hval, henc⟩ | hpair
  · refine .inl ⟨u, hu, ?_, hval, henc⟩
    intro h
    exact hzero (hval.trans (congrArg UInt16.toNat h))
  · exact .inr hpair

theorem utostrGeneral_eq (hcs : ∀ c ∈ cs, Scalar c ∧ c ≠ 0) :
    utostrGeneral room (cs.flatMap Utf16.encode ++ 0 :: rest) =
      some (utf8Bytes (fitting utf8Width room cs)) := by
  induction cs generalizing room with
  | nil =>
    rw [List.flatMap_nil, List.nil_append, utostrGeneral.eq_def]
    split_ifs <;> rfl
  | cons c cs ih =>
    obtain ⟨⟨hc, hzero⟩, hcs⟩ := List.forall_mem_cons.mp hcs
    have hstep : utostrGeneral room (Utf16.encode c ++ (cs.flatMap Utf16.encode ++ 0 :: rest)) =
        if utf8Width c ≤ room then
          (utostrGeneral (room - utf8Width c) (cs.flatMap Utf16.encode ++ 0 :: rest)).map
            (Utf8.encode c ++ ·)
        else some [] := by
      rcases character_cases hc hzero with ⟨u, hu, h0, rfl, henc⟩ | ⟨u, v, hu, hv, rfl, henc⟩
      · rw [henc]
        exact utostrGeneral_unit hu h0
      · rw [henc]
        exact utostrGeneral_pair hu hv
    rw [List.flatMap_cons, List.append_assoc, hstep, ih hcs, fitting]
    split_ifs <;> rfl

theorem utostrUtf8Len_eq (hcs : ∀ c ∈ cs, Scalar c ∧ c ≠ 0) :
    utostrUtf8Len (cs.flatMap Utf16.encode ++ 0 :: rest) = some (utf8Bytes cs).length := by
  induction cs with
  | nil =>
    rw [List.flatMap_nil, List.nil_append, utostrUtf8Len.eq_def]
    rfl
  | cons c cs ih =>
    obtain ⟨⟨hc, hzero⟩, hcs⟩ := List.forall_mem_cons.mp hcs
    have hstep : utostrUtf8Len (Utf16.encode c ++ (cs.flatMap Utf16.encode ++ 0 :: rest)) =
        (utostrUtf8Len (cs.flatMap Utf16.encode ++ 0 :: rest)).map (utf8Width c + ·) := by
      rcases character_cases hc hzero with ⟨u, hu, h0, rfl, henc⟩ | ⟨u, v, hu, hv, rfl, henc⟩
      · rw [henc]
        exact utostrUtf8Len_unit hu h0
      · rw [henc]
        exact utostrUtf8Len_pair hu hv
    rw [List.flatMap_cons, List.append_assoc, hstep, ih hcs, Option.map_some, utf8Bytes,
      utf8Bytes, List.flatMap_cons, List.length_append]
    rfl

end Strings

section Conversion

variable {us rest : List UInt16} {outSize : Int32}

theorem characters_of (hus : Utf16.WellFormed us) (h0 : 0 ∉ us) :
    ∃ cs : List ℕ, (∀ c ∈ cs, Scalar c ∧ c ≠ 0) ∧ us = cs.flatMap Utf16.encode := by
  obtain ⟨cs, hcs, rfl⟩ := Utf16.wellFormed_iff.mp hus
  refine ⟨cs, fun c hc ↦ ⟨hcs c hc, fun hzero ↦ h0 ?_⟩, rfl⟩
  exact List.mem_flatMap.mpr ⟨c, hc, (Utf16.zero_mem_encode (hcs c hc)).mpr hzero⟩

theorem room_eq (hout : 1 ≤ outSize) : (outSize.toNatClampNeg : ℤ) = outSize.toInt := by
  have hpos : (1 : ℤ) ≤ outSize.toInt := Int32.le_iff_toInt_le.mp hout
  exact Int.toNat_of_nonneg (by omega)

/-- What fits in the buffer has a length that an `int` holds. -/
theorem toInt_ofNat_of_lt {n : ℕ} (outSize : Int32) (h : (n : ℤ) < outSize.toInt) :
    (Int32.ofNat n).toInt = n := by
  have hlt := outSize.toInt_lt
  exact Int32.toInt_ofNat_of_lt (by omega)

/-- The conversion is cut only between characters, as late as the buffer allows. -/
theorem utostr_converts (hus : Utf16.WellFormed us) (h0 : 0 ∉ us) (hout : 1 ≤ outSize) :
    ∃ cs : List ℕ, (∀ c ∈ cs, Scalar c) ∧ us = cs.flatMap Utf16.encode ∧
      ∃ k ≤ cs.length, ∃ written ret,
        utostr outSize (us ++ 0 :: rest) = some (written, ret) ∧
        written = utf8Bytes (cs.take k) ++ [0] ∧ (written.length : ℤ) ≤ outSize.toInt ∧
        ret.toInt = (utf8Bytes (cs.take k)).length ∧
        (∀ j ≤ cs.length, ((utf8Bytes (cs.take j)).length : ℤ) ≤ outSize.toInt - 1 → j ≤ k) ∧
        ∃ n, utostrUtf8Len (us ++ 0 :: rest) = some n ∧
          (outSize.toInt = n + 1 → k = cs.length) := by
  obtain ⟨cs, hcs, rfl⟩ := characters_of hus h0
  have hroom := room_eq hout
  have hpos : (1 : ℤ) ≤ outSize.toInt := Int32.le_iff_toInt_le.mp hout
  have hout' : ¬outSize ≤ 0 := by
    rw [Int32.le_iff_toInt_le]
    exact not_le.mpr hpos
  obtain ⟨k, hk, htake, hmost⟩ := fitting_eq_take utf8Width (outSize.toNatClampNeg - 1) cs
  have hfits := total_fitting_le utf8Width (outSize.toNatClampNeg - 1) cs
  rw [htake, total_utf8Width] at hfits
  simp only [total_utf8Width] at hmost
  have hlongest : ∀ j ≤ cs.length,
      ((utf8Bytes (cs.take j)).length : ℤ) ≤ outSize.toInt - 1 → j ≤ k := by
    intro j hj hfit
    exact hmost j hj (by omega)
  refine ⟨cs, fun c hc ↦ (hcs c hc).1, rfl, k, hk, _, Int32.ofNat (utf8Bytes (cs.take k)).length,
    ?_, rfl, ?_, toInt_ofNat_of_lt outSize (by omega), hlongest, _, utostrUtf8Len_eq hcs, ?_⟩
  · rw [utostr_eq hout', utostrGeneral_eq hcs, htake]
    rfl
  · rw [List.length_append, List.length_singleton]
    omega
  · intro hall
    apply hk.antisymm (hlongest _ le_rfl _)
    rw [List.take_length]
    omega

/-- There is no room for the second character, a pair. -/
theorem utostr_converts_pair : ∃ cs : List ℕ, [0x61, 0xD83D, 0xDE00] = cs.flatMap Utf16.encode ∧
    ∃ k ≤ cs.length, ∃ written ret, utostr 4 [0x61, 0xD83D, 0xDE00, 0] = some (written, ret) ∧
      written = utf8Bytes (cs.take k) ++ [0] ∧ (written.length : ℤ) ≤ 4 := by
  have hus : Utf16.WellFormed [0x61, 0xD83D, 0xDE00] :=
    .one (by decide) (.pair ⟨by decide, by decide⟩ ⟨by decide, by decide⟩ .nil)
  obtain ⟨cs, -, henc, k, hk, written, ret, hrun, hwritten, hlen, -⟩ :=
    @utostr_converts _ [] 4 hus (by decide) (by decide)
  exact ⟨cs, henc, k, hk, written, ret, hrun, hwritten, hlen⟩

end Conversion

end JelloVM
