import JelloVM.Types
import JelloVM.Library.LittleEndian

namespace JelloVM

open LittleEndian

/-- `"JLYBOOT1"` -/
def jelloBootMagic : List UInt8 := text "JLYBOOT1"

def jelloBootFooterSize : UInt64 := 24

def jelloBootIoChunk : ℕ := 65536

def wrU64Le (v : UInt64) : List UInt8 := splitBytes64 v

def rdU64Le (p : List UInt8) : UInt64 := orBytes64 p 8

def footerOf (jloOffset jloSize : UInt64) : List UInt8 :=
  wrU64Le jloSize ++ (wrU64Le jloOffset ++ jelloBootMagic)

/-- The offset and the size of the payload; the sum is taken as the machine takes it. -/
def parseFooter (footer : List UInt8) (fileSize : UInt64) : Option (UInt64 × UInt64) :=
  if (footer.drop 16).take 8 ≠ jelloBootMagic then none
  else
    let jloSize := rdU64Le footer
    let jloOffset := rdU64Le (footer.drop 8)
    if jloSize = 0 then none
    else if fileSize ≤ jloOffset then none
    else if fileSize - jelloBootFooterSize < jloOffset + jloSize then none
    else some (jloOffset, jloSize)

section Files

variable (file : List UInt8)

/-- A file stands for its contents. Opening, seeking, writing and allocation succeed. -/
def fileSizeOf : UInt64 := UInt64.ofNat file.length

/-- What `fread` gives after `fseek`, fewer bytes at the end of the file -/
def freadAt (pos n : ℕ) : List UInt8 := (file.drop pos).take n

def footerAtEof : List UInt8 :=
  freadAt file (fileSizeOf file - jelloBootFooterSize).toNat jelloBootFooterSize.toNat

def vmBaseSize : UInt64 :=
  if jelloBootFooterSize ≤ fileSizeOf file then
    match parseFooter (footerAtEof file) (fileSizeOf file) with
    | some (jloOffset, _) => jloOffset
    | none => fileSizeOf file
  else fileSizeOf file

end Files

/-- The bytes that the loop writes, `none` when the input ends before. -/
def copyBytes (inp : List UInt8) (n : ℕ) : Option (List UInt8) :=
  if n = 0 then some []
  else
    let chunk := if jelloBootIoChunk < n then jelloBootIoChunk else n
    let buf := inp.take chunk
    if buf.length ≠ chunk then none
    else (copyBytes (inp.drop chunk) (n - chunk)).map fun rest ↦ buf ++ rest
termination_by n
decreasing_by
  unfold jelloBootIoChunk
  split_ifs <;> omega

/-- The file that is written, `none` for the status -1. -/
def jelloBootCreate (vmExe jlo : List UInt8) : Option (List UInt8) :=
  let vmBase := vmBaseSize vmExe
  (copyBytes vmExe vmBase.toNat).map fun base ↦
    base ++ jlo ++ footerOf vmBase (UInt64.ofNat jlo.length)

inductive BootImage
  | error
  | bare
  | image (data : List UInt8)
  deriving DecidableEq

def jelloBootProbe (file : List UInt8) : BootImage :=
  if fileSizeOf file < jelloBootFooterSize then .bare
  else
    match parseFooter (footerAtEof file) (fileSizeOf file) with
    | none => .bare
    | some (jloOffset, jloSize) =>
      let data := freadAt file jloOffset.toNat jloSize.toNat
      if data.length ≠ jloSize.toNat then .error else .image data

section Footer

variable {offset size fileSize : UInt64} {footer : List UInt8}

theorem length_footerOf : (footerOf offset size).length = 24 := by
  simp [footerOf, wrU64Le, splitBytes64_eq]
  rfl

theorem footerOf_magic : ((footerOf offset size).drop 16).take 8 = jelloBootMagic := by
  have hlen : (wrU64Le size ++ wrU64Le offset).length = 16 := by
    simp [wrU64Le, splitBytes64_eq]
  rw [footerOf, ← List.append_assoc, List.drop_left' hlen]
  rfl

theorem rdU64Le_footerOf : rdU64Le (footerOf offset size) = size :=
  orBytes64_split size _

theorem rdU64Le_drop_footerOf : rdU64Le ((footerOf offset size).drop 8) = offset := by
  have hlen : (wrU64Le size).length = 8 := by
    simp [wrU64Le, splitBytes64_eq]
  rw [footerOf, List.drop_left' hlen]
  exact orBytes64_split offset _

theorem parseFooter_footerOf (hsize : size ≠ 0) (hoff : offset < fileSize)
    (hfits : offset + size ≤ fileSize - jelloBootFooterSize) :
    parseFooter (footerOf offset size) fileSize = some (offset, size) := by
  simp only [parseFooter, footerOf_magic, rdU64Le_footerOf, rdU64Le_drop_footerOf, ne_eq,
    not_true, if_false, if_neg hsize, if_neg (UInt64.not_le.mpr hoff), if_neg (UInt64.not_lt.mpr hfits)]

theorem parseFooter_eq_some :
    parseFooter footer fileSize = some (offset, size) ↔
      (footer.drop 16).take 8 = jelloBootMagic ∧ rdU64Le footer = size ∧
        rdU64Le (footer.drop 8) = offset ∧ size ≠ 0 ∧ offset < fileSize ∧
        offset + size ≤ fileSize - jelloBootFooterSize := by
  unfold parseFooter
  dsimp only
  split_ifs with hmagic hsize hoff hfits
  · simp [hmagic]
  · constructor
    · intro h
      cases h
    · rintro ⟨-, rfl, -, h, -⟩
      exact absurd hsize h
  · constructor
    · intro h
      cases h
    · rintro ⟨-, -, rfl, -, h, -⟩
      exact absurd hoff (UInt64.not_le.mpr h)
  · constructor
    · intro h
      cases h
    · rintro ⟨-, rfl, rfl, -, -, h⟩
      exact absurd hfits (UInt64.not_lt.mpr h)
  · simp only [Option.some.injEq, Prod.mk.injEq]
    constructor
    · rintro ⟨rfl, rfl⟩
      exact ⟨not_not.mp hmagic, rfl, rfl, hsize, UInt64.not_le.mp hoff, UInt64.not_lt.mp hfits⟩
    · rintro ⟨-, h₁, h₂, -⟩
      exact ⟨h₂, h₁⟩

end Footer

section Images

variable {vm a b file : List UInt8}

theorem toNat_fileSizeOf (h : file.length < 2 ^ 63) : (fileSizeOf file).toNat = file.length := by
  rw [fileSizeOf, UInt64.toNat_ofNat']
  exact Nat.mod_eq_of_lt (by omega)

theorem copyBytes_eq (inp : List UInt8) (n : ℕ) (h : n ≤ inp.length) :
    copyBytes inp n = some (inp.take n) := by
  induction n using Nat.strong_induction_on generalizing inp with
  | h n ih =>
    rw [copyBytes]
    by_cases hn : n = 0
    · rw [if_pos hn, hn, List.take_zero]
    rw [if_neg hn]
    have hchunk : 0 < (if jelloBootIoChunk < n then jelloBootIoChunk else n) ∧
        (if jelloBootIoChunk < n then jelloBootIoChunk else n) ≤ n := by
      unfold jelloBootIoChunk
      split_ifs <;> omega
    generalize (if jelloBootIoChunk < n then jelloBootIoChunk else n) = chunk at hchunk
    dsimp only
    have hbuf : (inp.take chunk).length = chunk := by
      rw [List.length_take]
      omega
    have hrest := ih (n - chunk) (by omega) (inp.drop chunk) (by rw [List.length_drop]; omega)
    rw [if_neg (not_not.mpr hbuf), hrest, Option.map_some, ← List.take_add,
      Nat.add_sub_cancel' hchunk.2]

/-- The executable does not end in a footer that would be taken for one. -/
def BareVm (vm : List UInt8) : Prop :=
  24 ≤ vm.length → parseFooter (footerAtEof vm) (fileSizeOf vm) = none

theorem le_fileSizeOf (h : file.length < 2 ^ 63) :
    jelloBootFooterSize ≤ fileSizeOf file ↔ 24 ≤ file.length := by
  rw [UInt64.le_iff_toNat_le, toNat_fileSizeOf h]
  rfl

theorem vmBaseSize_bare (hvm : BareVm vm) (h : vm.length < 2 ^ 63) :
    vmBaseSize vm = fileSizeOf vm := by
  unfold vmBaseSize
  split_ifs with hsize
  · rw [hvm ((le_fileSizeOf h).mp hsize)]
  · rfl

/-- An executable, a program and the footer that says where it is -/
def imageOf (vm jlo : List UInt8) : List UInt8 :=
  vm ++ jlo ++ footerOf (fileSizeOf vm) (fileSizeOf jlo)

theorem length_imageOf : (imageOf vm a).length = vm.length + a.length + 24 := by
  rw [imageOf, List.length_append, List.length_append, length_footerOf]

theorem create_bare (hvm : BareVm vm) (h : vm.length < 2 ^ 63) :
    jelloBootCreate vm a = some (imageOf vm a) := by
  rw [jelloBootCreate, vmBaseSize_bare hvm h, toNat_fileSizeOf h, copyBytes_eq vm _ le_rfl,
    List.take_length, Option.map_some]
  rfl

theorem footerAtEof_imageOf (h : (imageOf vm a).length < 2 ^ 63) :
    footerAtEof (imageOf vm a) = footerOf (fileSizeOf vm) (fileSizeOf a) := by
  have hlen := @length_imageOf vm a
  have hpos : (fileSizeOf (imageOf vm a) - jelloBootFooterSize).toNat = (vm ++ a).length := by
    rw [UInt64.toNat_sub_of_le _ _ ((le_fileSizeOf h).mpr (by omega)), toNat_fileSizeOf h, hlen,
      List.length_append]
    exact Nat.add_sub_cancel _ 24
  rw [footerAtEof, freadAt, hpos, imageOf, List.drop_left]
  exact List.take_of_length_le (Nat.le_of_eq length_footerOf)

theorem parseFooter_imageOf (ha : a ≠ []) (h : (imageOf vm a).length < 2 ^ 63) :
    parseFooter (footerAtEof (imageOf vm a)) (fileSizeOf (imageOf vm a)) =
      some (fileSizeOf vm, fileSizeOf a) := by
  have hlen := @length_imageOf vm a
  have hvm := @toNat_fileSizeOf vm (by omega)
  have hsize := @toNat_fileSizeOf a (by omega)
  have hpos := List.length_pos_iff.mpr ha
  rw [footerAtEof_imageOf h]
  apply parseFooter_footerOf
  · intro h0
    rw [h0] at hsize
    exact absurd hsize.symm (Nat.ne_of_gt hpos)
  · rw [UInt64.lt_iff_toNat_lt, hvm, toNat_fileSizeOf h, hlen]
    omega
  · rw [UInt64.le_iff_toNat_le,
      UInt64.toNat_sub_of_le _ _ ((le_fileSizeOf h).mpr (by omega)), toNat_fileSizeOf h, hlen,
      UInt64.toNat_add, hvm, hsize]
    exact Nat.le_of_eq (Nat.mod_eq_of_lt (by omega))

theorem probe_imageOf (ha : a ≠ []) (h : (imageOf vm a).length < 2 ^ 63) :
    jelloBootProbe (imageOf vm a) = .image a := by
  have hlen := @length_imageOf vm a
  have hbig : ¬ fileSizeOf (imageOf vm a) < jelloBootFooterSize := by
    rw [UInt64.not_lt, le_fileSizeOf h]
    omega
  have hdata : freadAt (imageOf vm a) vm.length a.length = a := by
    rw [freadAt, imageOf, List.append_assoc, List.drop_left, List.take_left]
  simp only [jelloBootProbe, if_neg hbig, parseFooter_imageOf ha h,
    @toNat_fileSizeOf vm (by omega), @toNat_fileSizeOf a (by omega), hdata, ne_eq, not_true,
    if_false]

theorem create_imageOf (ha : a ≠ []) (h : (imageOf vm a).length < 2 ^ 63) :
    jelloBootCreate (imageOf vm a) b = some (imageOf vm b) := by
  have hlen := @length_imageOf vm a
  have hvm := @toNat_fileSizeOf vm (by omega)
  have hbase : vmBaseSize (imageOf vm a) = fileSizeOf vm := by
    simp only [vmBaseSize, if_pos ((le_fileSizeOf h).mpr (by omega)), parseFooter_imageOf ha h]
  have hcopy : copyBytes (imageOf vm a) vm.length = some vm := by
    rw [copyBytes_eq _ _ (by omega), imageOf, List.append_assoc, List.take_left]
  rw [jelloBootCreate, hbase, hvm, hcopy, Option.map_some]
  rfl

/-- What lies before the footer contains the payload that an accepted footer names. In shorter
files no footer is looked for. -/
def FooterInside (file : List UInt8) : Prop :=
  24 ≤ file.length → ∀ offset size,
    parseFooter (footerAtEof file) (fileSizeOf file) = some (offset, size) →
    offset.toNat + size.toNat ≤ file.length - 24

/-- The footer names a payload from within the file whose end, taken modulo `2 ^ 64`, is again
before the footer. -/
def WrapsInside (file : List UInt8) : Prop :=
  24 ≤ file.length ∧ ((footerAtEof file).drop 16).take 8 = jelloBootMagic ∧
    (rdU64Le ((footerAtEof file).drop 8)).toNat < file.length ∧
    2 ^ 64 ≤ (rdU64Le ((footerAtEof file).drop 8)).toNat + (rdU64Le (footerAtEof file)).toNat ∧
    (rdU64Le ((footerAtEof file).drop 8)).toNat + (rdU64Le (footerAtEof file)).toNat - 2 ^ 64 ≤
      file.length - 24

theorem footerInside_iff (h : file.length < 2 ^ 63) :
    FooterInside file ↔ ¬ WrapsInside file := by
  unfold FooterInside WrapsInside
  by_cases hfooter : 24 ≤ file.length
  swap
  · exact iff_of_true (fun h' ↦ absurd h' hfooter) fun h' ↦ hfooter h'.1
  have hlen := toNat_fileSizeOf h
  have hsub : (fileSizeOf file - jelloBootFooterSize).toNat = file.length - 24 := by
    rw [UInt64.toNat_sub_of_le _ _ ((le_fileSizeOf h).mpr hfooter), hlen]
    rfl
  generalize footerAtEof file = footer
  constructor
  · rintro hin ⟨-, hmagic, hoff, hwrap, hend⟩
    have hsize := (rdU64Le footer).toNat_lt
    have hne : rdU64Le footer ≠ 0 := by
      intro h0
      rw [h0] at hwrap
      have hzero : (0 : UInt64).toNat = 0 := rfl
      omega
    have hlt : rdU64Le (footer.drop 8) < fileSizeOf file := by
      apply UInt64.lt_iff_toNat_lt.mpr
      omega
    have hfits : rdU64Le (footer.drop 8) + rdU64Le footer ≤
        fileSizeOf file - jelloBootFooterSize := by
      apply UInt64.le_iff_toNat_le.mpr
      rw [hsub, UInt64.toNat_add]
      omega
    have hsum := hin hfooter _ _ (parseFooter_eq_some.mpr ⟨hmagic, rfl, rfl, hne, hlt, hfits⟩)
    omega
  · intro hno _ offset size hparse
    obtain ⟨hmagic, rfl, rfl, -, hoff, hfits⟩ := parseFooter_eq_some.mp hparse
    rw [UInt64.lt_iff_toNat_lt, hlen] at hoff
    rw [UInt64.le_iff_toNat_le, hsub, UInt64.toNat_add] at hfits
    have hsize := (rdU64Le footer).toNat_lt
    by_contra hout
    exact hno ⟨hfooter, hmagic, hoff, by omega, by omega⟩

/-- The program is found again in the image, a second one replaces it, and the footer of any
file is taken for one only if its payload lies before it: all but the last hold throughout, and
that one but for the payloads that reach around the end of the numbers. -/
theorem bootImage_iff (hvm : BareVm vm) (ha : a ≠ []) (hsize : vm.length + a.length + 24 < 2 ^ 63)
    (hfile : file.length < 2 ^ 63) :
    (((jelloBootCreate vm a).map jelloBootProbe = some (.image a) ∧
        ((jelloBootCreate vm a).bind fun img ↦ jelloBootCreate img b) = jelloBootCreate vm b) ∧
      FooterInside file) ↔ ¬ WrapsInside file := by
  have h : (imageOf vm a).length < 2 ^ 63 := by rwa [length_imageOf]
  have hcreate (c : List UInt8) := @create_bare vm c hvm (by omega)
  rw [footerInside_iff hfile, hcreate, hcreate, Option.map_some, Option.bind_some,
    probe_imageOf ha h, create_imageOf ha h]
  exact and_iff_right ⟨rfl, rfl⟩

end Images

/-- A payload of two bytes behind an executable of three -/
def smallImage : List UInt8 := imageOf [1, 2, 3] [4, 5]

theorem bootImage_small :
    ((jelloBootCreate [1, 2, 3] [4, 5]).map jelloBootProbe = some (.image [4, 5]) ∧
        ((jelloBootCreate [1, 2, 3] [4, 5]).bind fun img ↦ jelloBootCreate img [6]) =
          jelloBootCreate [1, 2, 3] [6]) ∧ FooterInside smallImage :=
  (@bootImage_iff [1, 2, 3] [4, 5] [6] smallImage (fun h ↦ absurd h (by decide)) (by decide)
    (by decide) (by decide)).mpr fun h ↦ absurd h.2.2.2.1 (by decide)

/-- The payload would begin in the middle of the file and end, past all memory, before it. -/
def wrappingFile : List UInt8 :=
  List.replicate 100 0 ++ footerOf 50 (0 - 50)

theorem wrappingFile_accepted :
    parseFooter (footerAtEof wrappingFile) (fileSizeOf wrappingFile) = some (50, 0 - 50) ∧
      ¬ FooterInside wrappingFile := by
  have hparse : parseFooter (footerAtEof wrappingFile) (fileSizeOf wrappingFile) =
      some (50, 0 - 50) := by decide +kernel
  refine ⟨hparse, fun h ↦ ?_⟩
  exact absurd (h (by decide +kernel) _ _ hparse) (by decide +kernel)

end JelloVM
