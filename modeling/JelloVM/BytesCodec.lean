import JelloVM.Library.LittleEndian
import JelloVM.Ops.Bytes
import JelloVM.SlotStore

namespace JelloVM

open ByteMemory LittleEndian Logged

inductive BytesNum where
  | u16
  | u32
  | i32
  | f32
deriving DecidableEq

def BytesNum.width : BytesNum → UInt32
  | .u16 => 2
  | _ => 4

def opBytesReadOf : BytesNum → Endian → Ctx → JelloInsn → StoreM Unit
  | .u16, .le => opBytesReadU16Le
  | .u16, .be => opBytesReadU16Be
  | .u32, .le => opBytesReadU32Le
  | .u32, .be => opBytesReadU32Be
  | .i32, .le => opBytesReadI32Le
  | .i32, .be => opBytesReadI32Be
  | .f32, .le => opBytesReadF32Le
  | .f32, .be => opBytesReadF32Be

def opBytesWriteOf : BytesNum → Endian → Ctx → JelloInsn → StoreM Unit
  | .u16, .le => opBytesWriteU16Le
  | .u16, .be => opBytesWriteU16Be
  | .u32, .le => opBytesWriteU32Le
  | .u32, .be => opBytesWriteU32Be
  | .i32, .le => opBytesWriteI32Le
  | .i32, .be => opBytesWriteI32Be
  | .f32, .le => opBytesWriteF32Le
  | .f32, .be => opBytesWriteF32Be

def Endian.other : Endian → Endian
  | .le => .be
  | .be => .le

/-- The number as far as it is wide -/
def reduced (k : BytesNum) (v : UInt32) : UInt32 := UInt32.ofNat (v.toNat % 256 ^ k.width.toNat)

def byteReversed (k : BytesNum) (v : UInt32) : UInt32 :=
  UInt32.ofNat (natLE (bytesLE k.width.toNat v.toNat).reverse)

section Bytes

variable {w : ℕ} {v : UInt32} {data : ℕ → UInt8} {off : ℕ}

theorem getLE_eq_natLE (mem : Mem) (a w : ℕ) :
    getLE mem a w = natLE ((List.range' a w).map mem) := by
  induction w generalizing a with
  | zero => rfl
  | succ w ih => rw [getLE, ih, List.range'_succ, List.map_cons, natLE]

/-- The bytes in memory, in the order of the number -/
def Endian.order : Endian → List UInt8 → List UInt8
  | .le, l => l
  | .be, l => l.reverse

theorem Endian.order_order (e : Endian) (l : List UInt8) : e.order (e.order l) = l := by
  cases e with
  | le => rfl
  | be => exact List.reverse_reverse l

theorem Endian.order_other (e : Endian) (l : List UInt8) : e.other.order (e.order l) = l.reverse := by
  cases e with
  | le => rfl
  | be => rfl

theorem getU_eq (e : Endian) :
    getU e w data off = UInt32.ofNat (natLE (e.order ((List.range' off w).map data))) := by
  cases e with
  | le => rw [getU, getLE_eq_natLE, Endian.order]
  | be =>
    rw [getU, getLE_eq_natLE, Endian.order]
    refine congrArg (fun l ↦ UInt32.ofNat (natLE l)) ?_
    apply List.ext_getElem
    · rw [List.length_map, List.length_reverse, List.length_map, List.length_range',
        List.length_range']
    · intro i hi hi'
      rw [List.length_map, List.length_range'] at hi
      simp only [List.getElem_map, List.getElem_reverse, List.getElem_range', List.length_map,
        List.length_range', Nat.one_mul, Nat.zero_add]

theorem map_putU (e : Endian) : (List.range w).map (putU e w v) = e.order (bytesLE w v.toNat) := by
  cases e with
  | le =>
    rw [Endian.order, bytesLE_eq_map]
    rfl
  | be =>
    rw [Endian.order, bytesLE_eq_map]
    apply List.ext_getElem
    · rw [List.length_map, List.length_reverse, List.length_map]
    · intro i hi hi'
      simp only [List.getElem_map, List.getElem_reverse, List.getElem_range, List.length_map,
        List.length_range, putU]

theorem map_paste (src : ℕ → UInt8) :
    (List.range' off w).map (paste data off w src) = (List.range w).map src := by
  rw [List.range'_eq_map_range, List.map_map]
  apply List.map_congr_left
  intro i hi
  have hlt := List.mem_range.mp hi
  rw [Function.comp_apply, paste, if_pos (by omega), Nat.add_sub_cancel_left]

variable {k : BytesNum}

theorem getU_putU (e : Endian) : getU e k.width.toNat
    (paste data off k.width.toNat (putU e k.width.toNat v)) off = reduced k v := by
  rw [getU_eq, map_paste, map_putU, e.order_order, natLE_bytesLE, reduced]

theorem getU_other_putU (e : Endian) : getU e.other k.width.toNat
    (paste data off k.width.toNat (putU e k.width.toNat v)) off = byteReversed k v := by
  rw [getU_eq, map_paste, map_putU, e.order_other, byteReversed]

end Bytes

section Access

variable {k : BytesNum} {e : Endian} {ctx : Ctx} {ins : JelloInsn} {s : Store} {b : JelloBytes}
  {p : JelloValue}

/-- The offset is not negative, a multiple of the width, and the number fits behind it. -/
def Addressable (k : BytesNum) (b : JelloBytes) (off : UInt32) : Prop :=
  0 ≤ i32 off ∧ k.width.toNat ∣ off.toNat ∧ off.toNat + k.width.toNat ≤ b.length.toNat

def BoundsTrap (s s' : Store) : Prop :=
  ∃ msg payload, s' =
    { s with trapCode := .bounds, trapMsg := msg, excPending := true, excPayload := payload }

/-- The registers of an access hold a pointer to the bytes and the offset. -/
structure Accesses (ctx : Ctx) (ins : JelloInsn) (s : Store) (p : JelloValue) (b : JelloBytes)
    (off : UInt32) : Prop where
  pointer : load64 s.mem (ctx.rf.addr ins.rb) = p
  notNull : p ≠ 0
  bytes : s.heap.cells p = some (.bytes b)
  offset : load32 s.mem (ctx.rf.addr ins.rc) = off

theorem result_bytesAt (hb : s.heap.cells p = some (.bytes b)) :
    result (bytesAt p) s = .ok (b, s) := by
  simp only [bytesAt, result_bind, result_cellAt hb, Except.bind]
  rfl

theorem toNat_width (k : BytesNum) : k.width.toNat = 2 ∨ k.width.toNat = 4 := by
  cases k with
  | u16 => exact .inl rfl
  | u32 => exact .inr rfl
  | i32 => exact .inr rfl
  | f32 => exact .inr rfl

theorem i32_nonneg_iff {x : UInt32} : 0 ≤ i32 x ↔ x.toNat < 2 ^ 31 := by
  rw [i32, BitVec.toInt_eq_toNat_cond]
  have hlt := x.toBitVec.isLt
  have hnat : x.toBitVec.toNat = x.toNat := rfl
  rw [hnat] at hlt ⊢
  split_ifs <;> omega

theorem mod_width_iff (k : BytesNum) (off : UInt32) :
    off % k.width = 0 ↔ k.width.toNat ∣ off.toNat := by
  rw [← UInt32.toNat_inj, UInt32.toNat_mod, UInt32.toNat_zero, Nat.dvd_iff_mod_eq_zero]

theorem toNat_add_width {off : UInt32} (h : 0 ≤ i32 off) :
    (off + k.width).toNat = off.toNat + k.width.toNat := by
  rw [i32_nonneg_iff] at h
  have hw := toNat_width k
  rw [UInt32.toNat_add]
  exact Nat.mod_eq_of_lt (by omega)

/-- The 32-bit sum of the check does not wrap, since the offset is not negative. -/
theorem bytesRw_ok {name : String} {off : UInt32} (h : Accesses ctx ins s p b off)
    (ha : Addressable k b off) :
    result (bytesRw name k.width ctx ins) s = .ok (some (p, b, off), s) := by
  obtain ⟨hneg, hdvd, hfits⟩ := ha
  have hcheck : ¬ (i32 off < 0 ∨ off % k.width ≠ 0) := by
    rw [not_or, not_not, mod_width_iff]
    exact ⟨Int.not_lt.mpr hneg, hdvd⟩
  have hroom : ¬ b.length < off + k.width := by
    rw [UInt32.lt_iff_toNat_lt, toNat_add_width hneg]
    exact Nat.not_lt.mpr hfits
  simp only [bytesRw, vmLoadPtr, result_bind, result_vmLoad64, result_vmLoadU32, h.pointer,
    h.offset, Except.bind, if_neg h.notNull, if_neg hcheck, result_bytesAt h.bytes,
    if_neg hroom, result_pure]

theorem boundsTrap_trap {msg : String} :
    ∃ s', result (do jelloVmTrap ctx .bounds msg; pure (none : Option (JelloValue × JelloBytes ×
      UInt32))) s = .ok (none, s') ∧ BoundsTrap s s' :=
  ⟨_, rfl, _, _, rfl⟩

theorem bytesRw_trap {name : String} {off : UInt32} (h : Accesses ctx ins s p b off)
    (ha : ¬ Addressable k b off) :
    ∃ s', result (bytesRw name k.width ctx ins) s = .ok (none, s') ∧ BoundsTrap s s' := by
  simp only [bytesRw, vmLoadPtr, result_bind, result_vmLoad64, result_vmLoadU32, h.pointer,
    h.offset, Except.bind, result_ite, if_neg h.notNull]
  by_cases hcheck : i32 off < 0 ∨ off % k.width ≠ 0
  · rw [if_pos hcheck]
    exact boundsTrap_trap
  rw [if_neg hcheck, result_bytesAt h.bytes]
  rw [not_or, not_not, mod_width_iff] at hcheck
  have hneg := Int.not_lt.mp hcheck.1
  have hroom : b.length < off + k.width := by
    rw [UInt32.lt_iff_toNat_lt, toNat_add_width hneg]
    by_contra hfits
    exact ha ⟨hneg, hcheck.2, Nat.not_lt.mp hfits⟩
  simp only [if_pos hroom]
  exact boundsTrap_trap

/-- The sixteen handlers are two definitions at their widths, orders and names. -/
theorem opBytesReadOf_eq (k : BytesNum) (e : Endian) :
    ∃ name, ∀ ctx ins, opBytesReadOf k e ctx ins = bytesRead name k.width e ctx ins := by
  cases k <;> cases e <;> exact ⟨_, fun _ _ ↦ rfl⟩

theorem opBytesWriteOf_eq (k : BytesNum) (e : Endian) :
    ∃ name, ∀ ctx ins, opBytesWriteOf k e ctx ins = bytesWrite name k.width e ctx ins := by
  cases k <;> cases e <;> exact ⟨_, fun _ _ ↦ rfl⟩

theorem read_ok {off : UInt32} (h : Accesses ctx ins s p b off) (ha : Addressable k b off) :
    result (opBytesReadOf k e ctx ins) s = .ok ((), { s with
      mem := store32 s.mem (ctx.rf.addr ins.ra) (getU e k.width.toNat b.data off.toNat) }) := by
  obtain ⟨name, hname⟩ := opBytesReadOf_eq k e
  rw [hname, bytesRead, result_bind, bytesRw_ok h ha]
  rfl

theorem read_trap {off : UInt32} (h : Accesses ctx ins s p b off) (ha : ¬ Addressable k b off) :
    ∃ s', result (opBytesReadOf k e ctx ins) s = .ok ((), s') ∧ BoundsTrap s s' := by
  obtain ⟨name, hname⟩ := opBytesReadOf_eq k e
  obtain ⟨s', hs', htrap⟩ := @bytesRw_trap k ctx ins s b p name off h ha
  rw [hname, bytesRead, result_bind, hs']
  exact ⟨s', rfl, htrap⟩

def writtenBytes (k : BytesNum) (e : Endian) (b : JelloBytes) (off v : UInt32) : JelloBytes :=
  b.write off.toNat k.width.toNat (putU e k.width.toNat v)

theorem write_ok {off : UInt32} (h : Accesses ctx ins s p b off) (ha : Addressable k b off) :
    result (opBytesWriteOf k e ctx ins) s = .ok ((), { s with
      heap := s.heap.write p
        (.bytes (writtenBytes k e b off (load32 s.mem (ctx.rf.addr ins.ra)))) }) := by
  obtain ⟨name, hname⟩ := opBytesWriteOf_eq k e
  rw [hname, bytesWrite, result_bind, bytesRw_ok h ha]
  rfl

theorem write_trap {off : UInt32} (h : Accesses ctx ins s p b off) (ha : ¬ Addressable k b off) :
    ∃ s', result (opBytesWriteOf k e ctx ins) s = .ok ((), s') ∧ BoundsTrap s s' := by
  obtain ⟨name, hname⟩ := opBytesWriteOf_eq k e
  obtain ⟨s', hs', htrap⟩ := @bytesRw_trap k ctx ins s b p name off h ha
  rw [hname, bytesWrite, result_bind, hs']
  exact ⟨s', rfl, htrap⟩

/-- An access that is not possible traps, and nothing but the trap is left of it. -/
def TrapsBoth (k : BytesNum) (e : Endian) (ctx : Ctx) (ins : JelloInsn) (s : Store) : Prop :=
  (∃ s', result (opBytesWriteOf k e ctx ins) s = .ok ((), s') ∧ BoundsTrap s s') ∧
    ∃ s', result (opBytesReadOf k e ctx ins) s = .ok ((), s') ∧ BoundsTrap s s'

/-- A write that is possible changes the addressed bytes only, and the reads give back what was
written, in the same order or reversed. A read changes its register only. -/
def RoundTrips (k : BytesNum) (e : Endian) (ctx : Ctx) (ins : JelloInsn) (s : Store)
    (p : JelloValue) (b : JelloBytes) (off : UInt32) : Prop :=
  (∃ b' : JelloBytes, result (opBytesWriteOf k e ctx ins) s =
      .ok ((), { s with heap := s.heap.write p (.bytes b') }) ∧
    b'.typeId = b.typeId ∧ b'.length = b.length ∧
    (∀ i, ¬ (off.toNat ≤ i ∧ i < off.toNat + k.width.toNat) → b'.data i = b.data i) ∧
    ∀ ctx' ins' s', Accesses ctx' ins' s' p b' off →
      result (opBytesReadOf k e ctx' ins') s' = .ok ((), { s' with
        mem := store32 s'.mem (ctx'.rf.addr ins'.ra)
          (reduced k (load32 s.mem (ctx.rf.addr ins.ra))) }) ∧
      result (opBytesReadOf k e.other ctx' ins') s' = .ok ((), { s' with
        mem := store32 s'.mem (ctx'.rf.addr ins'.ra)
          (byteReversed k (load32 s.mem (ctx.rf.addr ins.ra))) })) ∧
  ∃ v, result (opBytesReadOf k e ctx ins) s =
    .ok ((), { s with mem := store32 s.mem (ctx.rf.addr ins.ra) v })

/-- Typed access to bytes is a codec, whatever the offset. -/
theorem bytes_codec (k : BytesNum) (e : Endian) (ctx : Ctx) (ins : JelloInsn) (s : Store)
    (p : JelloValue) (b : JelloBytes) (off : UInt32) (h : Accesses ctx ins s p b off) :
    (¬ Addressable k b off → TrapsBoth k e ctx ins s) ∧
      (Addressable k b off → RoundTrips k e ctx ins s p b off) := by
  refine ⟨fun ha ↦ ⟨write_trap h ha, read_trap h ha⟩, fun ha ↦ ⟨?_, _, read_ok h ha⟩⟩
  refine ⟨_, write_ok h ha, rfl, rfl, fun i hi ↦ if_neg hi, fun ctx' ins' s' h' ↦ ?_⟩
  rw [read_ok h' ha, read_ok h' ha]
  constructor
  · rw [writtenBytes, JelloBytes.write, getU_putU]
  · rw [writtenBytes, JelloBytes.write, getU_other_putU]

def codecInsn : JelloInsn := { op := .bytesWriteU16Le, a := 0, b := 1, c := 2, imm := 0 }

def codecCtx : Ctx where
  m := default
  fpu := default
  f := 0
  rf := { mem := 4096, off := [0, 8, 16], nregs := 3, total := 24 }
  pc := 1

def codecBytes : JelloBytes where
  typeId := 0
  length := 4
  data := fun _ ↦ 0

/-- Four bytes, their pointer in register 1 and the offset 2 in register 2 -/
def codecStore : Store :=
  { jelloVmCreate.store with
    heap := jelloVmCreate.store.heap.write 16 (.bytes codecBytes)
    mem := store64 (store32 jelloVmCreate.store.mem 4112 2) 4104 16 }

theorem codecStore_offset : load32 codecStore.mem 4112 = 2 := by
  have hapart : load32 codecStore.mem 4112 =
      load32 (store32 jelloVmCreate.store.mem 4112 2) 4112 :=
    congrArg UInt32.ofNat (getLE_congr 4 4112 (sameBytes_putLE _ (.inl (by decide))))
  rw [hapart, load32_store32]

theorem codecStore_bytes : codecStore.heap.cells 16 = some (.bytes codecBytes) := by
  simp [codecStore, Heap.write]

theorem codecStore_accesses : Accesses codecCtx codecInsn codecStore 16 codecBytes 2 :=
  ⟨load64_store64 _ _ _, by decide, codecStore_bytes, codecStore_offset⟩

theorem bytes_codec_u16 :
    (¬ Addressable .u16 codecBytes 2 → TrapsBoth .u16 .le codecCtx codecInsn codecStore) ∧
      (Addressable .u16 codecBytes 2 →
        RoundTrips .u16 .le codecCtx codecInsn codecStore 16 codecBytes 2) :=
  bytes_codec _ _ _ _ _ _ _ _ codecStore_accesses

end Access

end JelloVM
