import JelloVM.LoaderRead
import JelloVM.Payload
import JelloVM.RegSpec
import JelloVM.Ops.Scalar

namespace JelloVM

open ByteMemory Logged

/-- The pool of a file, from an offset to another: the payloads, each after its length. -/
inductive PoolAt (inp : BcInput) : ℕ → List (List UInt8) → ℕ → Prop
  | nil (off : ℕ) : PoolAt inp off [] off
  | cons {off stop : ℕ} {len : UInt32} {ps : List (List UInt8)}
      (hlen : rdU32 inp off = .ok (len, off + 4)) (hfit : off + 4 + len.toNat ≤ inp.size)
      (hrest : PoolAt inp (off + 4 + len.toNat) ps stop) :
      PoolAt inp off (inp.slice (off + 4) len.toNat :: ps) stop

/-- The bytes of the payloads before the `i`-th. -/
def bytesBefore (ps : List (List UInt8)) (i : ℕ) : ℕ := ((ps.take i).map List.length).sum

/-- The loaded pool is that of the file: offsets are exact sums, the entries lie in the block, and
they are the payloads. -/
structure PoolExact (pool : ConstBytes) (ps : List (List UInt8)) : Prop where
  off : ∀ i < ps.length, (pool.off.getD i 0).toNat = bytesBefore ps i
  fits : ∀ i < ps.length,
    (pool.off.getD i 0).toNat + (pool.len.getD i 0).toNat ≤ pool.size.toNat
  payload : ∀ i < ps.length, pool.payload i = ps.getD i []

/-- The offsets of the payloads, in 32 bits. -/
def offsFrom : UInt32 → List (List UInt8) → List UInt32
  | _, [] => []
  | total, p :: ps => total :: offsFrom (total + UInt32.ofNat p.length) ps

section Tables

variable {inp : BcInput} {ps : List (List UInt8)}

@[simp] theorem length_slice (off n : ℕ) : (inp.slice off n).length = n := by
  simp [BcInput.slice]

theorem getD_slice {off n k : ℕ} (hk : k < n) : (inp.slice off n).getD k 0 = inp.data (off + k) := by
  simp [BcInput.slice, List.getD_eq_getElem?_getD, hk]

theorem getD_payload {pool : ConstBytes} {i k : ℕ} (hk : k < (pool.len.getD i 0).toNat) :
    (pool.payload i).getD k 0 = pool.data ((pool.off.getD i 0).toNat + k) := by
  rw [ConstBytes.payload, List.getD_eq_getElem _ _ (by simpa using hk)]
  simp

@[simp] theorem length_offsFrom (total : UInt32) : (offsFrom total ps).length = ps.length := by
  induction ps generalizing total with
  | nil => rfl
  | cons p ps ih => simp [offsFrom, ih]

@[simp] theorem bytesBefore_zero : bytesBefore ps 0 = 0 := by simp [bytesBefore]

theorem bytesBefore_succ (p : List UInt8) (i : ℕ) :
    bytesBefore (p :: ps) (i + 1) = p.length + bytesBefore ps i := by
  simp [bytesBefore]

theorem toNat_add_length (total : UInt32) (p : List UInt8) :
    (total + UInt32.ofNat p.length).toNat = (total.toNat + p.length) % 2 ^ 32 := by
  rw [UInt32.toNat_add, UInt32.toNat_ofNat', Nat.add_mod_mod]

theorem offsFrom_getD (total : UInt32) {i : ℕ} (hi : i < ps.length) :
    ((offsFrom total ps).getD i 0).toNat = (total.toNat + bytesBefore ps i) % 2 ^ 32 := by
  induction ps generalizing total i with
  | nil => exact absurd hi (Nat.not_lt_zero i)
  | cons p ps ih =>
    cases i with
    | zero =>
      rw [offsFrom, bytesBefore_zero, Nat.add_zero, Nat.mod_eq_of_lt total.toNat_lt]
      rfl
    | succ i =>
      have hrest := ih (total + UInt32.ofNat p.length) (Nat.lt_of_succ_lt_succ hi)
      rw [offsFrom, List.getD_cons_succ, hrest, toNat_add_length, bytesBefore_succ,
        Nat.mod_add_mod, Nat.add_assoc]

theorem constBytesIndex_spec (n : ℕ) {total : UInt32} {off stop : ℕ}
    {r : List UInt32 × List UInt32 × UInt32}
    (h : constBytesIndex inp n total off = .ok (r, stop)) :
    ∃ ps, PoolAt inp off ps stop ∧ ps.length = n ∧ r.1.map UInt32.toNat = ps.map List.length ∧
      r.2.1 = offsFrom total ps ∧
      r.2.2.toNat = (total.toNat + bytesBefore ps ps.length) % 2 ^ 32 := by
  induction n generalizing total off r stop with
  | zero =>
    obtain ⟨rfl, rfl⟩ := Prod.mk.inj (load_pure_iff.mp h)
    refine ⟨[], .nil _, rfl, rfl, rfl, ?_⟩
    change total.toNat = (total.toNat + bytesBefore [] 0) % 2 ^ 32
    rw [bytesBefore_zero, Nat.add_zero, Nat.mod_eq_of_lt total.toNat_lt]
  | succ n ih =>
    obtain ⟨len, off₁, hlen, h⟩ := load_bind_iff.mp h
    obtain ⟨⟨⟩, off₂, hskip, h⟩ := load_bind_iff.mp h
    obtain ⟨q, off₃, hrec, h⟩ := load_bind_iff.mp h
    obtain ⟨rfl, rfl⟩ := Prod.mk.inj (load_pure_iff.mp h)
    have hlen := orFree_iff.mp hlen
    obtain ⟨hfit₁, rfl, -⟩ := rdU32_iff.mp hlen
    obtain ⟨hfit, rfl⟩ : off + 4 + len.toNat ≤ inp.size ∧ off₂ = off + 4 + len.toNat := by
      unfold skipPayload at hskip
      split_ifs at hskip with h0
      · obtain ⟨-, rfl⟩ := Prod.mk.inj (load_pure_iff.mp hskip)
        rw [h0]
        exact ⟨hfit₁, rfl⟩
      · obtain ⟨⟨⟩, off₄, hneed, hskip⟩ := load_bind_iff.mp hskip
        obtain ⟨hfit, heq⟩ := needBytes_iff.mp hneed
        obtain ⟨-, rfl⟩ := Prod.mk.inj heq
        exact ⟨hfit, (Prod.mk.inj (rdSkip_iff.mp hskip)).2⟩
    obtain ⟨ps, hpool, hn, hlens, hoffs, htotal⟩ := ih hrec
    have hlength : UInt32.ofNat (inp.slice (off + 4) len.toNat).length = len := by
      rw [length_slice, UInt32.ofNat_toNat]
    refine ⟨inp.slice (off + 4) len.toNat :: ps, .cons hlen hfit hpool, by simp [hn], ?_, ?_, ?_⟩
    · rw [List.map_cons, List.map_cons, hlens, length_slice]
    · rw [offsFrom, hlength, hoffs]
    · rw [htotal, List.length_cons, bytesBefore_succ, length_slice, UInt32.toNat_add,
        Nat.mod_add_mod, Nat.add_assoc]

theorem memcpy_none (blob : ℕ → UInt8) (dst off : ℕ) : inp.memcpy blob dst off 0 = blob := by
  funext k
  exact if_neg (by omega)

theorem copyPayload_iff {blob : ℕ → UInt8} {total dst len : UInt32} {off : ℕ}
    {r : (ℕ → UInt8) × ℕ} : copyPayload inp total blob dst len off = .ok r ↔
      (len ≠ 0 → off + len.toNat ≤ inp.size ∧
        inp.copies total.toNat dst.toNat len.toNat = true) ∧
      r = (inp.memcpy blob dst.toNat off len.toNat, off + len.toNat) := by
  unfold copyPayload
  by_cases h0 : len = 0
  · subst h0
    have hzero : (0 : UInt32).toNat = 0 := rfl
    rw [if_pos rfl, load_pure_iff, hzero, memcpy_none, Nat.add_zero]
    simp
  · rw [if_neg h0]
    constructor
    · intro h
      obtain ⟨u, off₁, hneed, h₁⟩ := load_bind_iff.mp h
      obtain ⟨hfit, hoff₁⟩ := needBytes_iff.mp hneed
      obtain ⟨-, rfl⟩ := Prod.mk.inj hoff₁
      obtain ⟨off₂, off₃, hget, h₂⟩ := load_bind_iff.mp h₁
      obtain ⟨rfl, rfl⟩ := Prod.mk.inj (load_get_iff.mp hget)
      by_cases hcopies : inp.copies total.toNat dst.toNat len.toNat = true
      · rw [if_pos hcopies] at h₂
        obtain ⟨v, off₄, hskip, h₃⟩ := load_bind_iff.mp h₂
        obtain ⟨-, rfl⟩ := Prod.mk.inj (rdSkip_iff.mp hskip)
        exact ⟨fun _ ↦ ⟨hfit, hcopies⟩, load_pure_iff.mp h₃⟩
      · rw [if_neg hcopies] at h₂
        cases h₂
    · rintro ⟨hroom, rfl⟩
      obtain ⟨hfit, hcopies⟩ := hroom h0
      refine load_bind_iff.mpr ⟨(), off, needBytes_iff.mpr ⟨hfit, rfl⟩, ?_⟩
      refine load_bind_iff.mpr ⟨off, off, rfl, ?_⟩
      rw [if_pos hcopies]
      exact load_bind_iff.mpr ⟨(), _, rdSkip_iff.mpr rfl, rfl⟩

theorem memcpy_below {blob : ℕ → UInt8} {dst off n k : ℕ} (hk : k < dst) :
    inp.memcpy blob dst off n k = blob k := if_neg (by omega)

theorem memcpy_at {blob : ℕ → UInt8} {dst off n k : ℕ} (hk : k < n) :
    inp.memcpy blob dst off n (dst + k) = inp.data (off + k) := by
  rw [BcInput.memcpy, if_pos (by omega), Nat.add_sub_cancel_left]

/-- The second pass, where the total is below the limit: what is before the first offset is left
alone, and every entry gets its payload. -/
theorem constBytesCopy_spec {off stop off' : ℕ} (hpool : PoolAt inp off ps stop)
    {lens : List UInt32} {size total : UInt32} {blob blob' : ℕ → UInt8}
    (hlens : lens.map UInt32.toNat = ps.map List.length)
    (hfits : total.toNat + bytesBefore ps ps.length < 2 ^ 32)
    (h : constBytesCopy inp size lens (offsFrom total ps) blob off = .ok (blob', off')) :
    (∀ k < total.toNat, blob' k = blob k) ∧ ∀ i < ps.length, ∀ k < (ps.getD i []).length,
      blob' (total.toNat + bytesBefore ps i + k) = (ps.getD i []).getD k 0 := by
  induction hpool generalizing lens total blob with
  | nil off =>
    obtain rfl : lens = [] := by simpa using hlens
    obtain ⟨rfl, rfl⟩ := Prod.mk.inj (load_pure_iff.mp h)
    exact ⟨fun k _ ↦ rfl, fun i hi ↦ absurd hi (Nat.not_lt_zero i)⟩
  | @cons off stop len ps hlen hfit hrest ih =>
    obtain ⟨l, lens, rfl⟩ : ∃ l ls, lens = l :: ls := by
      cases lens with
      | nil => simp at hlens
      | cons l ls => exact ⟨l, ls, rfl⟩
    simp only [List.map_cons, List.cons.injEq, length_slice] at hlens
    obtain ⟨hl, hlens⟩ := hlens
    obtain rfl := UInt32.toNat_inj.mp hl
    obtain ⟨len', off₁, hlen', h⟩ := load_bind_iff.mp h
    rw [orFree_iff, hlen] at hlen'
    obtain ⟨rfl, rfl⟩ := Prod.mk.inj (Except.ok.inj hlen')
    obtain ⟨⟨⟩, off₂, hbail, h⟩ := load_bind_iff.mp h
    obtain ⟨-, rfl⟩ := Prod.mk.inj (bailIf_iff.mp hbail).2
    obtain ⟨blob₁, off₃, hcopy, h⟩ := load_bind_iff.mp h
    obtain ⟨rfl, rfl⟩ := Prod.mk.inj (copyPayload_iff.mp hcopy).2
    rw [List.length_cons, bytesBefore_succ, length_slice] at hfits
    have htotal : (total + UInt32.ofNat (inp.slice (off + 4) l.toNat).length).toNat =
        total.toNat + l.toNat := by
      rw [toNat_add_length, length_slice, Nat.mod_eq_of_lt (by omega)]
    obtain ⟨hbelow, hentries⟩ := ih hlens (by rw [htotal]; omega) h
    rw [htotal] at hbelow hentries
    refine ⟨fun k hk ↦ ?_, fun i hi k hk ↦ ?_⟩
    · rw [hbelow k (by omega), memcpy_below hk]
    · cases i with
      | zero =>
        rw [List.getD_cons_zero, length_slice] at hk
        rw [bytesBefore_zero, Nat.add_zero, hbelow _ (by omega), memcpy_at hk, List.getD_cons_zero,
          getD_slice hk]
      | succ i =>
        rw [List.getD_cons_succ] at hk
        rw [bytesBefore_succ, length_slice, ← Nat.add_assoc, List.getD_cons_succ]
        exact hentries i (Nat.lt_of_succ_lt_succ hi) k hk

theorem bytesBefore_le {i : ℕ} (hi : i < ps.length) :
    bytesBefore ps i + (ps.getD i []).length ≤ bytesBefore ps ps.length := by
  induction ps generalizing i with
  | nil => exact absurd hi (Nat.not_lt_zero i)
  | cons p ps ih =>
    cases i with
    | zero =>
      rw [bytesBefore_zero, List.length_cons, bytesBefore_succ, List.getD_cons_zero]
      omega
    | succ i =>
      have hrest := ih (Nat.lt_of_succ_lt_succ hi)
      rw [bytesBefore_succ, List.length_cons, bytesBefore_succ, List.getD_cons_succ]
      omega

theorem bytesBefore_last {i : ℕ} (hi : i + 1 = ps.length) :
    bytesBefore ps i + (ps.getD i []).length = bytesBefore ps ps.length := by
  induction ps generalizing i with
  | nil => exact absurd hi (by simp)
  | cons p ps ih =>
    rw [List.length_cons, bytesBefore_succ]
    cases i with
    | zero =>
      obtain rfl : ps = [] := List.length_eq_zero_iff.mp (by simpa using hi.symm)
      simp
    | succ i =>
      have hrest := ih (by simpa using hi)
      rw [bytesBefore_succ, List.getD_cons_succ]
      omega

end Tables

theorem lens_getD {ps : List (List UInt8)} {lens : List UInt32}
    (hlens : lens.map UInt32.toNat = ps.map List.length) (i : ℕ) :
    (lens.getD i 0).toNat = (ps.getD i []).length := by
  have hget := congrArg (fun l ↦ l.getD i 0) hlens
  simp only [List.getD_eq_getElem?_getD, List.getElem?_map] at hget ⊢
  cases hl : lens[i]? <;> cases hp : ps[i]? <;> simp_all

theorem poolExact_iff {inp : BcInput} {ps : List (List UInt8)} {off stop off' : ℕ}
    {pool : ConstBytes} (hat : PoolAt inp off ps stop)
    (hlens : pool.len.map UInt32.toNat = ps.map List.length) (hoffs : pool.off = offsFrom 0 ps)
    (hsize : pool.size.toNat = bytesBefore ps ps.length % 2 ^ 32) {blob : ℕ → UInt8}
    (hcopy : constBytesCopy inp pool.size pool.len (offsFrom 0 ps) blob off =
      .ok (pool.data, off')) :
    PoolExact pool ps ↔ bytesBefore ps ps.length < 2 ^ 32 := by
  have hoff {i : ℕ} (hi : i < ps.length) :
      (pool.off.getD i 0).toNat = bytesBefore ps i % 2 ^ 32 := by
    rw [hoffs, offsFrom_getD 0 hi]
    simp
  constructor
  · intro h
    by_contra hbig
    have hne : ps.length ≠ 0 := by
      intro h0
      rw [h0, bytesBefore_zero] at hbig
      exact hbig (by decide)
    have hlast := @bytesBefore_last ps (ps.length - 1) (by omega)
    have hfits := h.fits (ps.length - 1) (by omega)
    rw [h.off _ (by omega), lens_getD hlens, hlast, hsize] at hfits
    have hlt := Nat.mod_lt (bytesBefore ps ps.length) (show 0 < 2 ^ 32 by decide)
    omega
  · intro hsmall
    have hexact {i : ℕ} (hi : i < ps.length) : (pool.off.getD i 0).toNat = bytesBefore ps i := by
      have hle := bytesBefore_le hi
      rw [hoff hi, Nat.mod_eq_of_lt (by omega)]
    refine ⟨fun i hi ↦ hexact hi, fun i hi ↦ ?_, fun i hi ↦ ?_⟩
    · rw [hexact hi, lens_getD hlens, hsize, Nat.mod_eq_of_lt hsmall]
      exact bytesBefore_le hi
    · obtain ⟨-, hentries⟩ := constBytesCopy_spec hat hlens (by simpa using hsmall) hcopy
      have hlen : (pool.payload i).length = (ps.getD i []).length := by
        rw [ConstBytes.payload, List.length_map, List.length_range, lens_getD hlens]
      refine List.ext_getElem hlen fun k hk hk' ↦ ?_
      have hbyte := hentries i hi k hk'
      rw [List.getD_eq_getElem _ _ hk'] at hbyte
      have hget : (pool.payload i)[k] = pool.data ((pool.off.getD i 0).toNat + k) := by
        simp only [ConstBytes.payload, List.getElem_map, List.getElem_range]
      have hzero : (0 : UInt32).toNat = 0 := rfl
      rw [hget, hexact hi]
      rwa [hzero, Nat.zero_add] at hbyte

/-- A pool that has been read is that of the file exactly if its total fits into 32 bits. -/
theorem readConstBytes_spec {inp : BcInput} {n off stop : ℕ} {pool : ConstBytes}
    (h : readConstBytes inp n off = .ok (pool, stop)) :
    ∃ ps end', PoolAt inp off ps end' ∧ ps.length = n ∧ pool.len.length = n ∧
      (PoolExact pool ps ↔ bytesBefore ps ps.length < 2 ^ 32) := by
  unfold readConstBytes at h
  split_ifs at h with hn
  · obtain ⟨hpool, hoff⟩ := Prod.mk.inj (load_pure_iff.mp h)
    rw [hpool, hn]
    refine ⟨[], off, .nil off, rfl, rfl, iff_of_true ⟨?_, ?_, ?_⟩ (by decide)⟩ <;>
      exact fun i hi ↦ absurd hi (Nat.not_lt_zero i)
  · obtain ⟨u, off₁, halloc, h₁⟩ := load_bind_iff.mp h
    obtain ⟨-, hoff₁⟩ := Prod.mk.inj (alloc_iff.mp halloc).2
    obtain ⟨start, off₂, hget, h₂⟩ := load_bind_iff.mp h₁
    obtain ⟨hstart, hoff₂⟩ := Prod.mk.inj (load_get_iff.mp hget)
    obtain ⟨r, off₃, hindex, h₃⟩ := load_bind_iff.mp h₂
    obtain ⟨v, off₄, -, h₄⟩ := load_bind_iff.mp h₃
    obtain ⟨w, off₅, hset, h₅⟩ := load_bind_iff.mp h₄
    obtain ⟨-, hoff₅⟩ := Prod.mk.inj (load_set_iff.mp hset)
    obtain ⟨blob, off₆, hcopy, h₆⟩ := load_bind_iff.mp h₅
    obtain ⟨hpool, -⟩ := Prod.mk.inj (load_pure_iff.mp h₆)
    rw [hoff₂, hoff₁] at hindex
    rw [hoff₅, hstart, hoff₁] at hcopy
    obtain ⟨ps, hat, hlength, hlens, hoffs, htotal⟩ := constBytesIndex_spec n hindex
    have hnlens : r.1.length = n := by
      have := congrArg List.length hlens
      simpa [hlength] using this
    rw [hpool]
    rw [hoffs] at hcopy
    exact ⟨ps, off₃, hat, hlength, hnlens, poolExact_iff hat hlens hoffs (by simpa using htotal)
      hcopy⟩

/-- On a fresh cache `CONST_BYTES` gives the `i`-th payload. -/
def MakesPayloads (m : JelloBcModule) (ps : List (List UInt8)) : Prop :=
  ∀ ctx : Ctx, ctx.m = m → ∀ (ins : JelloInsn) (s : Store), ins.imm.toNat < ps.length →
    s.constBytesCache.length = ps.length → s.constBytesCache.getD ins.imm.toNat 0 = 0 →
    ∃ s' c, result (opConstBytes ctx ins) s = .ok ((), s') ∧
      s'.heap.cells (load64 s'.mem (ctx.rf.addr ins.ra)) = some (.bytes c) ∧
      c.length.toNat = (ps.getD ins.imm.toNat []).length ∧
      ∀ k < c.length.toNat, c.data k = (ps.getD ins.imm.toNat []).getD k 0

theorem makesPayloads_of_exact {m : JelloBcModule} {pool : ConstBytes} {ps : List (List UInt8)}
    (hm : m.constBytes = pool.payloads) (hlen : pool.len.length = ps.length)
    (h : PoolExact pool ps) : MakesPayloads m ps := by
  rintro ctx rfl ins s hi hcache hempty
  have hpayload : ctx.m.constBytes.getD ins.imm.toNat [] = ps.getD ins.imm.toNat [] := by
    rw [hm, ← h.payload _ hi]
    simp [ConstBytes.payloads, List.getD_eq_getElem?_getD, hlen, hi]
  have hshort : (ps.getD ins.imm.toNat []).length < 2 ^ 32 := by
    have hlt := (pool.len.getD ins.imm.toNat 0).toNat_lt
    have hlength := congrArg List.length (h.payload _ hi)
    rw [ConstBytes.payload, List.length_map, List.length_range] at hlength
    omega
  have hin : ¬ s.constBytesCache.length ≤ ins.imm.toNat := by omega
  let payload := ps.getD ins.imm.toNat []
  let c : JelloBytes :=
    { typeId := UInt32.ofNat ((ctx.m.func ctx.f).regType ins.ra)
      length := UInt32.ofNat payload.length
      data := fun i ↦ payload.getD i 0 }
  refine ⟨{ s with
    heap := (s.heap.alloc (.bytes c)).2
    constBytesCache := s.constBytesCache.set ins.imm.toNat s.heap.next
    mem := store64 s.mem (ctx.rf.addr ins.ra) s.heap.next }, c, ?_, ?_, ?_, fun k _ ↦ rfl⟩
  · have hmiss : ¬ s.constBytesCache.getD ins.imm.toNat 0 ≠ 0 := not_not.mpr hempty
    rw [opConstBytes]
    simp only [result_bind, result_read, Except.bind, if_neg hin, if_neg hmiss, result_note,
      hpayload]
    rfl
  · rw [load64_store64]
    exact Heap.alloc_cells_self s.heap (.bytes c)
  · exact UInt32.toNat_ofNat_of_lt' hshort

/-- Everything of a module before its pool of bytes. -/
def beforePool (inp : BcInput) : LoadM BcHeader := do
  readMagic inp
  let h ← readHeader inp
  let _ ← readTypes inp h
  let _ ← readSigs inp h
  let _ ← readAtoms inp h
  let _ ← optional h.features.const64 (readConst64 inp "oom const_i64" h.nconstI64) []
  let _ ← optional h.features.const64 (readConst64 inp "oom const_f64" h.nconstF64) []
  pure h

theorem readAll_of_accepted {inp : BcInput} {l : LoadedModule}
    (hread : jelloBcRead inp = some { err := none, out := some l }) :
    ∃ stop, readAll inp 0 = .ok (l, stop) := by
  unfold jelloBcRead at hread
  split_ifs at hread
  · cases hrun : readAll inp 0 with
    | error e =>
      rw [hrun] at hread
      cases e with
      | returns result out => exact nomatch (BcRead.mk.inj (Option.some.inj hread)).1
      | faults => cases hread
    | ok r =>
      rw [hrun] at hread
      exact ⟨r.2, by rw [← Option.some.inj (BcRead.mk.inj (Option.some.inj hread)).2]⟩
  · exact nomatch (BcRead.mk.inj (Option.some.inj hread)).1

theorem pool_of_accepted {inp : BcInput} {l : LoadedModule} {stop : ℕ}
    (hrun : readAll inp 0 = .ok (l, stop)) (hfeat : l.bc.features.constBytes = true) :
    ∃ h start stop', beforePool inp 0 = .ok (h, start) ∧
      readConstBytes inp h.nconstBytes start = .ok (l.pool, stop') ∧
      l.bc.constBytes = l.pool.payloads := by
  obtain ⟨u, off₁, hmagic, h₁⟩ := load_bind_iff.mp hrun
  obtain ⟨h, off₂, hheader, h₂⟩ := load_bind_iff.mp h₁
  obtain ⟨types, off₃, htypes, h₃⟩ := load_bind_iff.mp h₂
  obtain ⟨sigs, off₄, hsigs, h₄⟩ := load_bind_iff.mp h₃
  obtain ⟨atoms, off₅, hatoms, h₅⟩ := load_bind_iff.mp h₄
  obtain ⟨i64s, off₆, hi64s, h₆⟩ := load_bind_iff.mp h₅
  obtain ⟨f64s, off₇, hf64s, h₇⟩ := load_bind_iff.mp h₆
  obtain ⟨pool, off₈, hpool, h₈⟩ := load_bind_iff.mp h₇
  obtain ⟨files, off₉, hfiles, h₉⟩ := load_bind_iff.mp h₈
  obtain ⟨funcs, off₁₀, hfuncs, h₁₀⟩ := load_bind_iff.mp h₉
  obtain ⟨rfl, -⟩ := Prod.mk.inj (load_pure_iff.mp h₁₀)
  have hon : h.features.constBytes = true := hfeat
  rw [optional, if_pos hon] at hpool
  refine ⟨h, off₇, off₈, ?_, hpool, rfl⟩
  refine load_bind_iff.mpr ⟨u, off₁, hmagic, load_bind_iff.mpr ⟨h, off₂, hheader, ?_⟩⟩
  refine load_bind_iff.mpr ⟨types, off₃, htypes, load_bind_iff.mpr ⟨sigs, off₄, hsigs, ?_⟩⟩
  refine load_bind_iff.mpr ⟨atoms, off₅, hatoms, load_bind_iff.mpr ⟨i64s, off₆, hi64s, ?_⟩⟩
  exact load_bind_iff.mpr ⟨f64s, off₇, hf64s, rfl⟩

/-- In every accepted file with constants of bytes, the constants are loaded as they are in the
file exactly if their total is below `2 ^ 32`. -/
theorem constants_loaded_iff {inp : BcInput} {l : LoadedModule}
    (hread : jelloBcRead inp = some { err := none, out := some l })
    (hfeat : l.bc.features.constBytes = true) :
    ∃ h start ps stop, beforePool inp 0 = .ok (h, start) ∧ PoolAt inp start ps stop ∧
      ps.length = h.nconstBytes ∧
      (PoolExact l.pool ps ∧ MakesPayloads l.bc ps ↔ bytesBefore ps ps.length < 2 ^ 32) := by
  obtain ⟨stop, hrun⟩ := readAll_of_accepted hread
  obtain ⟨h, start, stop', hbefore, hpool, hbytes⟩ := pool_of_accepted hrun hfeat
  obtain ⟨ps, off, hat, hlength, hlens, hexact⟩ := readConstBytes_spec hpool
  refine ⟨h, start, ps, off, hbefore, hat, hlength, fun hboth ↦ hexact.mp hboth.1, fun hfits ↦ ?_⟩
  have hpe := hexact.mpr hfits
  exact ⟨hpe, makesPayloads_of_exact hbytes (hlens.trans hlength.symm) hpe⟩

/-- The header of a file with `n` constants of bytes, one function and nothing else. -/
def poolHeader (n : UInt8) : List UInt8 :=
  [0x42, 0x59, 0x4C, 0x4A, 1, 0, 0, 0, 2, 0, 0, 0, 0, 0, 0, 0, 0, 0, 0, 0, 0, 0, 0, 0, 1, 0, 0, 0, 0,
    0, 0, 0, n, 0, 0, 0]

/-- A file with the constants `[5, 6, 7]` and `[8]`. -/
def poolInput : BcInput :=
  { data := fun i ↦ (poolHeader 2 ++ [3, 0, 0, 0, 5, 6, 7, 1, 0, 0, 0, 8]).getD i 0
    size := 36 + 12 + 8
    mallocs := fun _ _ ↦ true
    fresh := fun _ ↦ 0
    beyond := fun _ _ ↦ false }

def BcRead.module? (r : BcRead) : Option LoadedModule := if r.err = none then r.out else none

theorem read_of_module {inp : BcInput} {l : LoadedModule}
    (h : (jelloBcRead inp).bind BcRead.module? = some l) :
    jelloBcRead inp = some { err := none, out := some l } := by
  obtain ⟨⟨err, out⟩, hread, hmodule⟩ := Option.bind_eq_some_iff.mp h
  unfold BcRead.module? at hmodule
  split_ifs at hmodule with herr
  obtain rfl : err = none := herr
  obtain rfl : out = some l := hmodule
  exact hread

theorem poolInput_loaded : ∃ l h start ps stop,
    jelloBcRead poolInput = some { err := none, out := some l } ∧
    beforePool poolInput 0 = .ok (h, start) ∧ PoolAt poolInput start ps stop ∧
      ps.length = h.nconstBytes ∧
      (PoolExact l.pool ps ∧ MakesPayloads l.bc ps ↔ bytesBefore ps ps.length < 2 ^ 32) := by
  have hfeat : ((jelloBcRead poolInput).bind BcRead.module?).map
      (fun l ↦ l.bc.features.constBytes) = some true := by decide +kernel
  obtain ⟨l, hl, hon⟩ := Option.map_eq_some_iff.mp hfeat
  have hread := read_of_module hl
  obtain ⟨h, start, ps, stop, hloaded⟩ := constants_loaded_iff hread hon
  exact ⟨l, h, start, ps, stop, hread, hloaded⟩

/-- A file with the constants of `2 ^ 32 - 1` sevens, of one nine, and of `2 ^ 32 - 1` eights, where
the byte behind the block of the pool is memory. -/
def wrapInput : BcInput :=
  { data := fun i ↦
      if i < 40 then (poolHeader 3 ++ [0xff, 0xff, 0xff, 0xff]).getD i 0
      else if i < 40 + (2 ^ 32 - 1) then 7
      else if i < 49 + (2 ^ 32 - 1) then
        [1, 0, 0, 0, 9, 0xff, 0xff, 0xff, 0xff].getD (i - (40 + (2 ^ 32 - 1))) 0
      else if i < 49 + 2 * (2 ^ 32 - 1) then 8
      else 0
    size := 57 + 2 * (2 ^ 32 - 1)
    mallocs := fun _ _ ↦ true
    fresh := fun _ ↦ 0
    beyond := fun dst n ↦ dst = 2 ^ 32 - 1 && n = 1 }

/-- The file is accepted. Its second constant is copied behind the block of the pool, and the third
one over the first. -/
theorem constants_wrap : ∃ l, jelloBcRead wrapInput = some { err := none, out := some l } ∧
    l.bc.features.constBytes = true ∧ l.pool.size = 0xffffffff ∧
    (l.pool.off.getD 1 0).toNat + (l.pool.len.getD 1 0).toNat > l.pool.size.toNat ∧
    l.pool.off.getD 2 0 = l.pool.off.getD 0 0 ∧ (l.pool.payload 0).getD 0 0 = 8 ∧
    ∀ ps, ps.length = 3 → ¬ PoolExact l.pool ps := by
  have hview : ((jelloBcRead wrapInput).bind BcRead.module?).map (fun l ↦
      (l.bc.features.constBytes, l.pool.len, l.pool.off, l.pool.size, l.pool.data 0)) =
        some (true, [0xffffffff, 1, 0xffffffff], [0, 0xffffffff, 0], 0xffffffff, 8) := by
    decide +kernel
  obtain ⟨l, hl, hview⟩ := Option.map_eq_some_iff.mp hview
  simp only [Prod.mk.injEq] at hview
  obtain ⟨hfeat, hlen, hoff, hsize, hdata⟩ := hview
  refine ⟨l, read_of_module hl, hfeat, hsize, ?_, ?_, ?_, fun ps hps hexact ↦ ?_⟩
  · rw [hlen, hoff, hsize]
    decide
  · rw [hoff]
    rfl
  · rw [getD_payload (by rw [hlen]; decide), hoff]
    exact hdata
  · have hfits := hexact.fits 1 (by omega)
    rw [hlen, hoff, hsize] at hfits
    exact absurd hfits (by decide)

end JelloVM
