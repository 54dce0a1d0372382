import JelloVM.LoaderText
import JelloVM.LoaderWithin

namespace JelloVM

open LittleEndian Recogniser

section Pool

variable {inp : BcInput}

def putBytes (blob : ℕ → UInt8) (dst : ℕ) (s : List UInt8) : ℕ → UInt8 := fun k ↦
  if dst ≤ k ∧ k < dst + s.length then s.getD (k - dst) 0 else blob k

def copyOut : (ℕ → UInt8) → List UInt32 → List (List UInt8) → ℕ → UInt8
  | blob, dst :: offs, s :: ps => copyOut (putBytes blob dst.toNat s) offs ps
  | blob, _, _ => blob

def lensOf (ps : List (List UInt8)) : List UInt32 := ps.map fun s ↦ UInt32.ofNat s.length

/-- The pool in memory, with the payloads copied to their offsets. -/
def loadedPool (fresh : ℕ → UInt8) (ps : List (List UInt8)) : ConstBytes :=
  if ps = [] then .empty
  else
    { len := lensOf ps
      off := offsFrom 0 ps
      data := copyOut fresh (offsFrom 0 ps) ps
      size := (lensOf ps).foldl (· + ·) 0 }

/-- The copies of the payloads go through. -/
def BcInput.Copied (inp : BcInput) (total : UInt32) : List UInt32 → List (List UInt8) → Prop
  | dst :: offs, s :: ps =>
    (s ≠ [] → inp.copies total.toNat dst.toNat s.length = true) ∧ inp.Copied total offs ps
  | _, _ => True

/-- The memory takes the pool of the payloads. -/
def BcInput.Takes (inp : BcInput) (ps : List (List UInt8)) : Prop :=
  inp.Copied ((lensOf ps).foldl (· + ·) 0) (offsFrom 0 ps) ps

theorem copied_of_fits {ps : List (List UInt8)} {size total : UInt32} (hlt : size.toNat < 2 ^ 32)
    (hfits : total.toNat + bytesBefore ps ps.length ≤ size.toNat) :
    inp.Copied size (offsFrom total ps) ps := by
  induction ps generalizing total with
  | nil => trivial
  | cons s ps ih =>
    rw [List.length_cons, bytesBefore_succ] at hfits
    refine ⟨fun hs ↦ ?_, ih ?_⟩
    · have hpos := List.length_pos_of_ne_nil hs
      have hsize : size.toNat ≠ 0 := by omega
      simp only [BcInput.copies, Bool.and_eq_true, Bool.or_eq_true, decide_eq_true_eq]
      exact ⟨hsize, .inl (by omega)⟩
    · rw [toNat_add_length, Nat.mod_eq_of_lt (by omega)]
      omega

theorem recognises_string32 {α : Type} {rest : UInt32 → LoadM α} {P : List UInt8 → α → Prop}
    (h : ∀ off len a off', off ≤ inp.size → (rest len off = .ok (a, off') ↔
      ∃ s, s.length = len.toNat ∧ inp.buffer.At off s ∧ P s a ∧ off' = off + len.toNat)) :
    Recognises inp.buffer (orFree (rdU32 inp) >>= rest) fun bs a ↦
      ∃ s, stringText bs s ∧ P s a := by
  have hword : orFree (rdU32 inp) >>= rest = readWord inp >>= fun n ↦ rest (UInt32.ofNat n) := by
    simp only [readWord, bind_assoc, pure_bind, UInt32.ofNat_toNat]
  rw [hword]
  refine recognises_string fun off len a off' hlen hoff ↦ ?_
  rw [h off _ a off' hoff, UInt32.toNat_ofNat_of_lt' hlen]

/-- A round of the first pass. -/
def payloadLen (inp : BcInput) : LoadM UInt32 := do
  let len ← orFree (rdU32 inp)
  skipPayload inp len
  pure len

/-- A round of the second. -/
def payloadCopy (inp : BcInput) (total expected dst : UInt32) (blob : ℕ → UInt8) :
    LoadM (ℕ → UInt8) := do
  let len ← orFree (rdU32 inp)
  bailIf (len ≠ expected) .badFormat "const_bytes length mismatch" 4
  copyPayload inp total blob dst len

theorem recognises_payloadLen : Recognises inp.buffer (payloadLen inp)
    fun bs len ↦ ∃ s, stringText bs s ∧ len = UInt32.ofNat s.length := by
  refine recognises_string32 fun off len a off' hoff ↦ ?_
  have hzero : len = 0 ↔ len.toNat = 0 := UInt32.toNat_inj.symm
  rw [load_bind_iff]
  simp only [load_pure_iff, Prod.mk.injEq, skipPayload]
  split_ifs with hlen
  · simp only [load_pure_iff, Prod.mk.injEq]
    constructor
    · rintro ⟨_, _, ⟨-, rfl⟩, rfl, rfl⟩
      exact ⟨[], (hzero.mp hlen).symm, at_nil, hlen, by rw [hzero.mp hlen, Nat.add_zero]⟩
    · rintro ⟨s, hs, -, rfl, rfl⟩
      exact ⟨(), off, ⟨trivial, rfl⟩, by rw [hs, UInt32.ofNat_toNat], by
        rw [hzero.mp hlen, Nat.add_zero]⟩
  · simp only [load_bind_iff, needBytes_iff, rdSkip_iff, Prod.mk.injEq, bytesLeft_iff hoff]
    constructor
    · rintro ⟨_, _, ⟨_, _, ⟨⟨s, hs, hat⟩, -, rfl⟩, -, rfl⟩, rfl, rfl⟩
      exact ⟨s, hs, hat, by rw [hs, UInt32.ofNat_toNat], rfl⟩
    · rintro ⟨s, hs, hat, rfl, rfl⟩
      exact ⟨(), _, ⟨(), off, ⟨⟨s, hs, hat⟩, trivial, rfl⟩, trivial, rfl⟩, by
        rw [hs, UInt32.ofNat_toNat], rfl⟩

theorem recognises_constBytesIndex (n : ℕ) (total : UInt32) :
    Recognises inp.buffer (constBytesIndex inp n total) fun bs r ↦ ∃ ps, ps.length = n ∧
      stringText.many bs ps ∧
        r = (lensOf ps, offsFrom total ps, (lensOf ps).foldl (· + ·) total) := by
  induction n generalizing total with
  | zero =>
    refine (recognises_pure _).congr fun bs r ↦ ?_
    constructor
    · rintro ⟨rfl, rfl⟩
      exact ⟨[], rfl, many_nil.mpr rfl, rfl⟩
    · rintro ⟨ps, hlen, htext, rfl⟩
      obtain rfl := List.length_eq_zero_iff.mp hlen
      exact ⟨many_nil.mp htext, rfl⟩
  | succ n ih =>
    have hsplit : constBytesIndex inp (n + 1) total = payloadLen inp >>= fun len ↦
        constBytesIndex inp n (total + len) >>= fun r ↦
          pure (len :: r.1, total :: r.2.1, r.2.2) := by
      simp only [constBytesIndex, payloadLen, bind_assoc, pure_bind]
    rw [hsplit]
    refine (recognises_bind recognises_payloadLen fun len ↦ recognises_then (ih (total + len))
      fun r ↦ recognises_pure _).congr fun bs r ↦ ?_
    constructor
    · rintro ⟨_, bs₁, bs₂, rfl, ⟨s, hs, rfl⟩, _, ⟨ps, hlen, htext, rfl⟩, rfl⟩
      exact ⟨s :: ps, by rw [List.length_cons, hlen], many_cons.mpr ⟨bs₁, bs₂, rfl, hs, htext⟩, rfl⟩
    · rintro ⟨ps, hlen, htext, rfl⟩
      cases ps with
      | nil => cases hlen
      | cons s ps =>
        obtain ⟨bs₁, bs₂, rfl, hs, hrest⟩ := many_cons.mp htext
        exact ⟨_, bs₁, bs₂, rfl, ⟨s, hs, rfl⟩, _, ⟨ps, Nat.succ.inj hlen, hrest, rfl⟩, rfl⟩

theorem memcpy_eq {blob : ℕ → UInt8} {dst off : ℕ} {s : List UInt8} (hat : inp.buffer.At off s) :
    inp.memcpy blob dst off s.length = putBytes blob dst s := by
  funext k
  simp only [BcInput.memcpy, putBytes]
  split_ifs with hk
  · have hs := hat.eq_slice
    rw [hs, List.getD_eq_getElem _ _ (by rw [Recogniser.length_slice]; omega)]
    simp [Buffer.slice, BcInput.buffer]
  · rfl

theorem recognises_payloadCopy (total expected dst : UInt32) (blob : ℕ → UInt8) :
    Recognises inp.buffer (payloadCopy inp total expected dst blob) fun bs blob' ↦
      ∃ s, stringText bs s ∧ expected = UInt32.ofNat s.length ∧
        (s ≠ [] → inp.copies total.toNat dst.toNat s.length = true) ∧
        blob' = putBytes blob dst.toNat s := by
  refine recognises_string32 fun off len a off' hoff ↦ ?_
  have hzero : len = 0 ↔ len.toNat = 0 := UInt32.toNat_inj.symm
  rw [load_bind_iff]
  simp only [bailIf_iff, Prod.mk.injEq, not_not, copyPayload_iff]
  constructor
  · rintro ⟨_, off, ⟨rfl, -, rfl⟩, hroom, rfl, rfl⟩
    have hfit : off + len.toNat ≤ inp.size := by
      by_cases hlen : len = 0
      · rwa [hzero.mp hlen, Nat.add_zero]
      · exact (hroom hlen).1
    obtain ⟨s, hs, hat⟩ := (bytesLeft_iff hoff).mp hfit
    refine ⟨s, hs, hat, ⟨by rw [hs, UInt32.ofNat_toNat], fun hne ↦ ?_, ?_⟩, rfl⟩
    · have hlen : len ≠ 0 := fun h0 ↦ hne (List.length_eq_zero_iff.mp (hs.trans (hzero.mp h0)))
      rw [hs]
      exact (hroom hlen).2
    · rw [← hs, memcpy_eq hat]
  · rintro ⟨s, hs, hat, ⟨rfl, hcopies, rfl⟩, rfl⟩
    refine ⟨(), off, ⟨by rw [hs, UInt32.ofNat_toNat], trivial, rfl⟩, fun hlen ↦ ?_, ?_, rfl⟩
    · have hne : s ≠ [] := by
        rintro rfl
        exact hlen (hzero.mpr hs.symm)
      rw [← hs]
      exact ⟨hs ▸ (bytesLeft_iff hoff).mpr ⟨s, hs, hat⟩, hcopies hne⟩
    · rw [← hs, memcpy_eq hat]

theorem recognises_constBytesCopy (total : UInt32) (lens offs : List UInt32) (blob : ℕ → UInt8)
    (hoffs : offs.length = lens.length) :
    Recognises inp.buffer (constBytesCopy inp total lens offs blob) fun bs blob' ↦ ∃ ps,
      stringText.many bs ps ∧ lens = lensOf ps ∧ inp.Copied total offs ps ∧
        blob' = copyOut blob offs ps := by
  induction lens generalizing offs blob with
  | nil =>
    obtain rfl := List.length_eq_zero_iff.mp hoffs
    refine (recognises_pure blob).congr fun bs r ↦ ?_
    constructor
    · rintro ⟨rfl, rfl⟩
      exact ⟨[], many_nil.mpr rfl, rfl, trivial, rfl⟩
    · rintro ⟨ps, htext, hlens, -, rfl⟩
      obtain rfl := List.map_eq_nil_iff.mp hlens.symm
      exact ⟨many_nil.mp htext, rfl⟩
  | cons expected lens ih =>
    cases offs with
    | nil => cases hoffs
    | cons dst offs =>
      have hsplit : constBytesCopy inp total (expected :: lens) (dst :: offs) blob =
          payloadCopy inp total expected dst blob >>= fun blob ↦
            constBytesCopy inp total lens offs blob := by
        simp only [constBytesCopy, payloadCopy, bind_assoc]
      rw [hsplit]
      refine (recognises_bind (recognises_payloadCopy total expected dst blob) fun blob ↦
        ih offs blob (Nat.succ.inj hoffs)).congr fun bs r ↦ ?_
      constructor
      · rintro ⟨_, bs₁, bs₂, rfl, ⟨s, hs, rfl, hcopies, rfl⟩, ps, htext, rfl, hcopied, rfl⟩
        exact ⟨s :: ps, many_cons.mpr ⟨bs₁, bs₂, rfl, hs, htext⟩, rfl, ⟨hcopies, hcopied⟩, rfl⟩
      · rintro ⟨ps, htext, hlens, hcopied, rfl⟩
        cases ps with
        | nil => cases hlens
        | cons s ps =>
          obtain ⟨bs₁, bs₂, rfl, hs, hrest⟩ := many_cons.mp htext
          obtain ⟨hlen, hlens⟩ := List.cons.inj hlens
          exact ⟨_, bs₁, bs₂, rfl, ⟨s, hs, hlen, hcopied.1, rfl⟩, ps, hrest, hlens, hcopied.2, rfl⟩

theorem offsFrom_congr {ps qs : List (List UInt8)} (h : lensOf ps = lensOf qs) (total : UInt32) :
    offsFrom total ps = offsFrom total qs := by
  induction ps generalizing qs total with
  | nil =>
    cases qs with
    | nil => rfl
    | cons q qs => cases h
  | cons p ps ih =>
    cases qs with
    | nil => cases h
    | cons q qs =>
      obtain ⟨hp, hps⟩ := List.cons.inj h
      have hlen : UInt32.ofNat p.length = UInt32.ofNat q.length := hp
      rw [offsFrom, offsFrom, hlen, ih hps]

theorem recognises_readConstBytes (hmem : inp.Plenty) (n : ℕ) :
    Recognises inp.buffer (readConstBytes inp n) fun bs pool ↦ ∃ ps, ps.length = n ∧
      stringText.many bs ps ∧ inp.Takes ps ∧ pool = loadedPool inp.fresh ps := by
  intro off pool off'
  unfold readConstBytes
  split_ifs with hn
  · have hempty : Recognises inp.buffer (pure .empty : LoadM ConstBytes) fun bs pool ↦
        ∃ ps, ps.length = n ∧ stringText.many bs ps ∧ inp.Takes ps ∧
          pool = loadedPool inp.fresh ps := by
      refine (recognises_pure _).congr fun bs pool ↦ ?_
      rw [hn]
      constructor
      · rintro ⟨rfl, rfl⟩
        exact ⟨[], rfl, many_nil.mpr rfl, trivial, rfl⟩
      · rintro ⟨ps, hlen, htext, -, rfl⟩
        obtain rfl := List.length_eq_zero_iff.mp hlen
        exact ⟨many_nil.mp htext, rfl⟩
    exact hempty off pool off'
  · have hpool (ps : List (List UInt8)) (hlen : ps.length = n) : loadedPool inp.fresh ps =
        ⟨lensOf ps, offsFrom 0 ps, copyOut inp.fresh (offsFrom 0 ps) ps,
          (lensOf ps).foldl (· + ·) 0⟩ := by
      refine if_neg fun hnil ↦ hn ?_
      rw [← hlen, hnil, List.length_nil]
    constructor
    · intro hrun
      obtain ⟨_, off₁, halloc, h₁⟩ := load_bind_iff.mp hrun
      obtain ⟨-, hoff₁⟩ := Prod.mk.inj (alloc_iff.mp halloc).2
      obtain ⟨start, off₂, hget, h₂⟩ := load_bind_iff.mp h₁
      obtain ⟨hstart, -⟩ := Prod.mk.inj (load_get_iff.mp hget)
      obtain ⟨r, off₃, hindex, h₃⟩ := load_bind_iff.mp h₂
      obtain ⟨_, off₄, -, h₄⟩ := load_bind_iff.mp h₃
      obtain ⟨_, off₅, hset, h₅⟩ := load_bind_iff.mp h₄
      obtain ⟨-, hoff₅⟩ := Prod.mk.inj (load_set_iff.mp hset)
      obtain ⟨blob, off₆, hcopy, h₆⟩ := load_bind_iff.mp h₅
      obtain ⟨rfl, rfl⟩ := Prod.mk.inj (load_pure_iff.mp h₆)
      obtain ⟨_, ⟨qs, hlen, -, hr⟩, -, -⟩ := (recognises_constBytesIndex n 0 _ _ _).mp hindex
      subst hr
      have hoffs : (offsFrom 0 qs).length = (lensOf qs).length := by simp [lensOf]
      rw [hoff₅, hstart, hoff₁] at hcopy
      obtain ⟨bs, ⟨ps, htext, hlens, hcopied, hblob⟩, hat, hoff⟩ :=
        (recognises_constBytesCopy _ _ _ _ hoffs _ _ _).mp hcopy
      have hlen' : ps.length = n := by
        have h := congrArg List.length hlens
        simp only [lensOf, List.length_map] at h
        rw [← h, hlen]
      rw [hlens, offsFrom_congr hlens] at hcopied
      refine ⟨bs, ⟨ps, hlen', htext, hcopied, ?_⟩, hat, hoff⟩
      rw [hpool ps hlen', hblob, offsFrom_congr hlens, hlens]
    · rintro ⟨bs, ⟨ps, hlen, htext, htakes, rfl⟩, hat, rfl⟩
      have hindex := (recognises_constBytesIndex n 0).ok ⟨ps, hlen, htext, rfl⟩ hat
      have hcopy := (recognises_constBytesCopy _ (lensOf ps) (offsFrom 0 ps) inp.fresh
        (by simp [lensOf])).ok ⟨ps, htext, rfl, htakes, rfl⟩ hat
      have halloc {total : UInt32} {at' : ℕ} : allocPool inp total at' = .ok ((), at') := by
        unfold allocPool
        split_ifs
        · rfl
        · exact alloc_ok hmem
      refine load_bind_iff.mpr ⟨(), off, alloc_ok hmem, load_bind_iff.mpr ⟨off, off, rfl, ?_⟩⟩
      refine load_bind_iff.mpr ⟨_, _, hindex, load_bind_iff.mpr ⟨(), _, halloc, ?_⟩⟩
      refine load_bind_iff.mpr ⟨_, off, rfl, load_bind_iff.mpr ⟨_, _, hcopy, ?_⟩⟩
      rw [hpool ps hlen]
      rfl

theorem poolAt_of_text {off : ℕ} {bs : List UInt8} {ps : List (List UInt8)}
    (h : stringText.many bs ps) (hat : inp.buffer.At off bs) :
    PoolAt inp off ps (off + bs.length) := by
  induction ps generalizing off bs with
  | nil =>
    obtain rfl := many_nil.mp h
    exact .nil off
  | cons s ps ih =>
    obtain ⟨_, bs', rfl, ⟨hlt, rfl⟩, hrest⟩ := many_cons.mp h
    obtain ⟨htext, hat'⟩ := at_append.mp hat
    obtain ⟨hword, hs⟩ := at_append.mp htext
    have hlen : (UInt32.ofNat s.length).toNat = s.length := UInt32.toNat_ofNat_of_lt' hlt
    have hread : rdU32 inp off = .ok (UInt32.ofNat s.length, off + 4) := by
      have htext : inp.buffer.At off (bytesLE 4 (UInt32.ofNat s.length).toNat) := by
        rw [hlen]
        exact hword
      have hok := recognises_rdU32_raw.ok rfl htext
      rwa [length_bytesLE] at hok
    have hfile : (fileWord s.length).length = 4 := length_bytesLE ..
    rw [hfile] at hs
    have hslice : inp.slice (off + 4) (UInt32.ofNat s.length).toNat = s := by
      rw [hlen]
      exact hs.eq_slice.symm
    have hfit : off + 4 + (UInt32.ofNat s.length).toNat ≤ inp.size := by
      rw [hlen]
      obtain hle | rfl := hs.size_le
      · exact hle
      · exact (rdU32_iff.mp hread).1
    have hpool := ih hrest hat'
    rw [List.length_append, hfile, ← Nat.add_assoc, ← hlen] at hpool
    have hcons := PoolAt.cons hread hfit hpool
    rw [hslice, hlen] at hcons
    rw [List.length_append, List.length_append, hfile, ← Nat.add_assoc, ← Nat.add_assoc]
    exact hcons

theorem lensOf_toNat {bs : List UInt8} {ps : List (List UInt8)} (h : stringText.many bs ps) :
    (lensOf ps).map UInt32.toNat = ps.map List.length := by
  induction ps generalizing bs with
  | nil => rfl
  | cons s ps ih =>
    obtain ⟨_, bs', -, ⟨hlt, -⟩, hrest⟩ := many_cons.mp h
    have hlen : (UInt32.ofNat s.length).toNat = s.length := UInt32.toNat_ofNat_of_lt' hlt
    rw [lensOf, List.map_cons, List.map_cons, List.map_cons, hlen]
    exact congrArg _ (ih hrest)

theorem toNat_total (total : UInt32) (ps : List (List UInt8)) :
    ((lensOf ps).foldl (· + ·) total).toNat =
      (total.toNat + bytesBefore ps ps.length) % 2 ^ 32 := by
  induction ps generalizing total with
  | nil => exact (Nat.mod_eq_of_lt total.toNat_lt).symm
  | cons s ps ih =>
    have hrest := ih (total + UInt32.ofNat s.length)
    rw [toNat_add_length, Nat.mod_add_mod] at hrest
    rw [List.length_cons, bytesBefore_succ, ← Nat.add_assoc, ← hrest]
    rfl

theorem takes_of_fits {ps : List (List UInt8)} (htotal : bytesBefore ps ps.length < 2 ^ 32) :
    inp.Takes ps := by
  have hsize := toNat_total 0 ps
  have hzero : (0 : UInt32).toNat = 0 := rfl
  rw [hzero, Nat.zero_add, Nat.mod_eq_of_lt htotal] at hsize
  refine copied_of_fits (UInt32.toNat_lt _) ?_
  rw [hzero, Nat.zero_add, hsize]

/-- A file, where the allocator always has a block, and nothing behind a block is memory. -/
def BcInput.ofBytes (bs : List UInt8) (fresh : ℕ → UInt8) : BcInput :=
  { data := fun i ↦ bs.getD i 0
    size := bs.length
    mallocs := fun _ _ ↦ true
    fresh := fresh
    beyond := fun _ _ ↦ false }

theorem plenty_ofBytes (bs : List UInt8) (fresh : ℕ → UInt8) : (BcInput.ofBytes bs fresh).Plenty :=
  fun _ _ ↦ rfl

theorem at_ofBytes (bs : List UInt8) (fresh : ℕ → UInt8) :
    (BcInput.ofBytes bs fresh).buffer.At 0 bs := at_ofList bs

theorem payloads_loadedPool {fresh : ℕ → UInt8} {bs : List UInt8} {ps : List (List UInt8)}
    (h : stringText.many bs ps) (htotal : bytesBefore ps ps.length < 2 ^ 32) :
    (loadedPool fresh ps).payloads = ps := by
  unfold loadedPool
  split_ifs with hnil
  · rw [hnil]
    rfl
  · have hat := at_ofBytes bs fresh
    have hcopy := (recognises_constBytesCopy _ (lensOf ps) (offsFrom 0 ps) fresh
      (by simp [lensOf])).ok ⟨ps, h, rfl, takes_of_fits htotal, rfl⟩ hat
    have hsize := toNat_total 0 ps
    have hzero : (0 : UInt32).toNat = 0 := rfl
    rw [hzero, Nat.zero_add] at hsize
    have hexact : PoolExact ⟨lensOf ps, offsFrom 0 ps, copyOut fresh (offsFrom 0 ps) ps,
        (lensOf ps).foldl (· + ·) 0⟩ ps :=
      (poolExact_iff (poolAt_of_text h hat) (lensOf_toNat h) rfl hsize hcopy).mpr htotal
    have hlen : (lensOf ps).length = ps.length := List.length_map ..
    refine List.ext_getElem (by simp [ConstBytes.payloads, hlen]) fun i hi hi' ↦ ?_
    have hpayload := hexact.payload i hi'
    rw [List.getD_eq_getElem _ _ hi'] at hpayload
    simpa [ConstBytes.payloads] using hpayload

end Pool

section Header

variable {inp : BcInput}

/-- The header from the version on. -/
def headerText : Grammar BcHeader := fun bs h ↦
  ∃ (bits : UInt32) (i64s f64s bytes : List UInt8), h.features = .ofBits bits ∧
    h.ntypes < 2 ^ 32 ∧ h.nsigs < 2 ^ 32 ∧ h.natoms < 2 ^ 32 ∧ h.nfuncs < 2 ^ 32 ∧
    h.entry < 2 ^ 32 ∧ h.entry < h.nfuncs ∧
    whenText h.features.const64 wordText 0 i64s h.nconstI64 ∧
    whenText h.features.const64 wordText 0 f64s h.nconstF64 ∧
    whenText h.features.constBytes wordText 0 bytes h.nconstBytes ∧
    bs = fileWord 1 ++ bytesLE 4 bits.toNat ++ fileWord h.ntypes ++ fileWord h.nsigs ++
      fileWord h.natoms ++ fileWord h.nfuncs ++ fileWord h.entry ++ i64s ++ f64s ++ bytes

theorem recognises_readHeader : Recognises inp.buffer (readHeader inp) headerText := by
  refine (recognises_bind recognises_rdU32 fun version ↦ recognises_after recognises_bailIf fun _ ↦
    recognises_bind recognises_rdU32 fun bits ↦ recognises_bind recognises_readWord fun ntypes ↦
    recognises_bind recognises_readWord fun nsigs ↦ recognises_bind recognises_readWord fun natoms ↦
    recognises_bind recognises_readWord fun nfuncs ↦ recognises_bind recognises_readWord fun entry ↦
    recognises_after recognises_bailIf fun _ ↦
    recognises_bind (recognises_optional recognises_readWord) fun nconstI64 ↦
    recognises_bind (recognises_optional recognises_readWord) fun nconstF64 ↦
    recognises_then (recognises_optional recognises_readWord) fun nconstBytes ↦
      recognises_pure _).congr fun bs h ↦ ?_
  constructor
  · rintro ⟨version, _, _, rfl, rfl, _, hversion, bits, _, _, rfl, rfl, ntypes, _, _, rfl,
      ⟨hntypes, rfl⟩, nsigs, _, _, rfl, ⟨hnsigs, rfl⟩, natoms, _, _, rfl, ⟨hnatoms, rfl⟩, nfuncs, _,
      _, rfl, ⟨hnfuncs, rfl⟩, entry, _, _, rfl, ⟨hentry, rfl⟩, _, hlt, nconstI64, i64s, _, rfl,
      hi64s, nconstF64, f64s, bytes, rfl, hf64s, nconstBytes, hbytes, rfl⟩
    obtain rfl := not_not.mp hversion
    refine ⟨bits, i64s, f64s, bytes, rfl, hntypes, hnsigs, hnatoms, hnfuncs, hentry,
      Nat.not_le.mp hlt, hi64s, hf64s, hbytes, ?_⟩
    simp [fileWord]
  · obtain ⟨features, ntypes, nsigs, natoms, nfuncs, entry, nconstI64, nconstF64, nconstBytes⟩ := h
    rintro ⟨bits, i64s, f64s, bytes, rfl, hntypes, hnsigs, hnatoms, hnfuncs, hentry, hlt, hi64s,
      hf64s, hbytes, rfl⟩
    exact ⟨1, _, _, by simp [fileWord], rfl, (), not_not.mpr rfl, bits, _, _, rfl, rfl, ntypes, _,
      _, rfl, ⟨hntypes, rfl⟩, nsigs, _, _, rfl, ⟨hnsigs, rfl⟩, natoms, _, _, rfl, ⟨hnatoms, rfl⟩,
      nfuncs, _, _, rfl, ⟨hnfuncs, rfl⟩, entry, _, _, rfl, ⟨hentry, rfl⟩, (), Nat.not_le.mpr hlt,
      nconstI64, i64s, _, rfl, hi64s, nconstF64, f64s, bytes, rfl, hf64s, nconstBytes, hbytes, rfl⟩

end Header

section Module

variable {inp : BcInput}

def filesText : Grammar (List (List UInt8)) := fun bs files ↦ ∃ texts,
  files.length < 2 ^ 32 ∧ stringText.many texts files ∧ bs = fileWord files.length ++ texts

def bodyText : Grammar JelloBcModule := fun bs m ↦
  ∃ types sigs atoms i64s f64s pool files funcs, typeText.many types m.types ∧
    sigText.many sigs m.sigs ∧ stringText.many atoms m.atoms ∧
    whenText m.features.const64 word64Text.many [] i64s m.constI64 ∧
    whenText m.features.const64 word64Text.many [] f64s m.constF64 ∧
    whenText m.features.constBytes stringText.many [] pool m.constBytes ∧
    whenText m.features.lineTable filesText [] files m.sourceFiles ∧
    (functionText m.features).many funcs m.funcs ∧
    bs = types ++ sigs ++ atoms ++ i64s ++ f64s ++ pool ++ files ++ funcs

def JelloBcModule.header (m : JelloBcModule) : BcHeader :=
  { features := m.features
    ntypes := m.types.length
    nsigs := m.sigs.length
    natoms := m.atoms.length
    nfuncs := m.funcs.length
    entry := m.entry
    nconstI64 := m.constI64.length
    nconstF64 := m.constF64.length
    nconstBytes := m.constBytes.length }

def moduleText : Grammar JelloBcModule := fun bs m ↦ ∃ header body,
  headerText header m.header ∧ bodyText body m ∧ bs = bytesLE 4 bcMagic.toNat ++ header ++ body

/-- What is loaded from a file of the module: the constants of bytes come from the pool. -/
def BcInput.loaded (inp : BcInput) (m : JelloBcModule) : LoadedModule :=
  { bc := { m with constBytes := (loadedPool inp.fresh m.constBytes).payloads }
    pool := loadedPool inp.fresh m.constBytes }

/-- The module has the tables that the header announces. -/
structure BcHeader.Announces (h : BcHeader) (m : JelloBcModule) : Prop where
  features : m.features = h.features
  types : m.types.length = h.ntypes
  sigs : m.sigs.length = h.nsigs
  atoms : m.atoms.length = h.natoms
  funcs : m.funcs.length = h.nfuncs
  entry : m.entry = h.entry
  constI64 : h.features.const64 = true → m.constI64.length = h.nconstI64
  constF64 : h.features.const64 = true → m.constF64.length = h.nconstF64
  constBytes : h.features.constBytes = true → m.constBytes.length = h.nconstBytes

theorem recognises_readTypes (hmem : inp.Plenty) (h : BcHeader) :
    Recognises inp.buffer (readTypes inp h) fun bs types ↦ types.length = h.ntypes ∧
      typeText.many bs types ∧ ∀ t ∈ types, validateTypeEntry h.module t = .ok () :=
  (recognises_readTable hmem (recognises_each (fun _ ↦ recognises_readType h) _ 0)).congr
    fun _ _ ↦ and_congr_right fun _ ↦ many_and

theorem recognises_readSigs (hmem : inp.Plenty) (h : BcHeader) :
    Recognises inp.buffer (readSigs inp h) fun bs sigs ↦ sigs.length = h.nsigs ∧
      sigText.many bs sigs ∧ ∀ sig ∈ sigs, validateSig h.module sig = .ok () :=
  (recognises_readTable hmem (recognises_each (fun _ ↦ recognises_readSig hmem h) _ 0)).congr
    fun _ _ ↦ and_congr_right fun _ ↦ many_and

theorem recognises_readFunctions (hmem : inp.Plenty) (h : BcHeader) (m : JelloBcModule)
    (hn : h.ntypes = m.types.length) :
    Recognises inp.buffer (readFunctions inp h m) fun bs funcs ↦ funcs.length = h.nfuncs ∧
      (functionText h.features).many bs funcs ∧ ∀ fn ∈ funcs, validateFunction m fn = .ok () :=
  (recognises_readTable hmem
    (recognises_each (fun _ ↦ recognises_readFunction hmem h hn) _ 0)).congr fun _ _ ↦
      and_congr_right fun _ ↦ many_and

theorem validateTypeEntry_congr {m m' : JelloBcModule} (t : TypeEntry)
    (htypes : m'.types.length = m.types.length) (hsigs : m'.sigs.length = m.sigs.length) :
    validateTypeEntry m' t = validateTypeEntry m t := by
  simp only [validateTypeEntry, htypes, hsigs]

theorem validateSig_congr {m m' : JelloBcModule} (sig : FunSig)
    (htypes : m'.types.length = m.types.length) : validateSig m' sig = validateSig m sig := by
  simp only [validateSig, htypes]

theorem validateFunction_congr {m m' : JelloBcModule} (fn : JelloBcFunction)
    (htypes : m'.types = m.types) (hatoms : m'.atoms = m.atoms) (hi64 : m'.constI64 = m.constI64)
    (hf64 : m'.constF64 = m.constF64) (hbytes : m'.constBytes = m.constBytes)
    (hfuncs : m'.funcs.length = m.funcs.length) :
    validateFunction m' fn = .ok () ↔ validateFunction m fn = .ok () := by
  rw [validateFunction_iff, validateFunction_iff, validateInsns_iff, validateInsns_iff, htypes]
  refine and_congr_right fun _ ↦ and_congr_right fun _ ↦ and_congr_left fun _ ↦ ?_
  refine forall_congr' fun j ↦ forall_congr' fun ins ↦ imp_congr_right fun _ ↦ ?_
  rw [validateInsn_congr ins (0 + j) rfl rfl htypes hatoms hi64 hf64 hbytes hfuncs]

theorem whenText_and {α : Type} {present : Bool} {G : Grammar α} {P : α → Prop} {absent : α}
    {bs : List UInt8} {a : α} : whenText present (fun bs a ↦ P a ∧ G bs a) absent bs a ↔
      whenText present G absent bs a ∧ (present = true → P a) := by
  cases present with
  | false => simp [whenText]
  | true => simp [whenText, and_comm]

theorem whenText_pool {present : Bool} {n : ℕ} {bs : List UInt8} {pool : ConstBytes} :
    whenText present (fun bs pool ↦ ∃ ps, ps.length = n ∧ stringText.many bs ps ∧ inp.Takes ps ∧
      pool = loadedPool inp.fresh ps) .empty bs pool ↔
    ∃ ps, whenText present stringText.many [] bs ps ∧ (present = true → ps.length = n) ∧
      inp.Takes ps ∧ pool = loadedPool inp.fresh ps := by
  cases present with
  | false =>
    constructor
    · rintro ⟨rfl, rfl⟩
      exact ⟨[], ⟨rfl, rfl⟩, fun h ↦ (nomatch h), trivial, rfl⟩
    · rintro ⟨_, ⟨rfl, rfl⟩, -, -, rfl⟩
      exact ⟨rfl, rfl⟩
  | true =>
    constructor
    · rintro ⟨ps, hlen, htext, htakes, rfl⟩
      exact ⟨ps, htext, fun _ ↦ hlen, htakes, rfl⟩
    · rintro ⟨ps, htext, hlen, htakes, rfl⟩
      exact ⟨ps, hlen rfl, htext, htakes, rfl⟩

/-- What the body of a file with a header is read as. -/
structure BcHeader.Body (h : BcHeader) (inp : BcInput) (bs : List UInt8) (m : JelloBcModule)
    (l : LoadedModule) : Prop where
  text : bodyText bs m
  announces : h.Announces m
  takes : inp.Takes m.constBytes
  loaded : l = inp.loaded m
  types : ∀ t ∈ m.types, validateTypeEntry l.bc t = .ok ()
  sigs : ∀ sig ∈ m.sigs, validateSig l.bc sig = .ok ()
  funcs : ∀ fn ∈ m.funcs, validateFunction l.bc fn = .ok ()

theorem recognises_readBody (hmem : inp.Plenty) (h : BcHeader) :
    Recognises inp.buffer (readBody inp h) fun bs l ↦ ∃ m, h.Body inp bs m l := by
  refine (recognises_bind_of (recognises_readTypes hmem h) fun _ types htypes ↦
    recognises_bind (recognises_readSigs hmem h) fun sigs ↦
    recognises_bind (recognises_readAtoms hmem h) fun atoms ↦
    recognises_bind (recognises_optional (recognises_readConst64 hmem _ _)) fun constI64 ↦
    recognises_bind (recognises_optional (recognises_readConst64 hmem _ _)) fun constF64 ↦
    recognises_bind (recognises_optional (recognises_readConstBytes hmem _)) fun pool ↦
    recognises_bind (recognises_optional (recognises_readSourceFiles hmem)) fun files ↦
    recognises_then (recognises_readFunctions hmem h _ htypes.1.symm) fun funcs ↦
      recognises_pure _).congr fun bs l ↦ ?_
  constructor
  · rintro ⟨types, bs₁, _, rfl, ⟨hntypes, htypes, hvtypes⟩, sigs, bs₂, _, rfl,
      ⟨hnsigs, hsigs, hvsigs⟩, atoms, bs₃, _, rfl, ⟨hnatoms, hatoms⟩, constI64, bs₄, _, rfl, hi64,
      constF64, bs₅, _, rfl, hf64, pool, bs₆, _, rfl, hpool, files, bs₇, bs₈, rfl, hfiles, funcs,
      ⟨hnfuncs, hfuncs, hvfuncs⟩, rfl⟩
    obtain ⟨hi64, hni64⟩ := whenText_and.mp hi64
    obtain ⟨hf64, hnf64⟩ := whenText_and.mp hf64
    obtain ⟨ps, hps, hnps, htakes, rfl⟩ := whenText_pool.mp hpool
    let m : JelloBcModule :=
      { features := h.features
        types := types
        sigs := sigs
        atoms := atoms
        constI64 := constI64
        constF64 := constF64
        constBytes := ps
        funcs := funcs
        entry := h.entry
        sourceFiles := files }
    refine ⟨m, ⟨bs₁, bs₂, bs₃, bs₄, bs₅, bs₆, bs₇, bs₈, htypes, hsigs, hatoms, hi64, hf64, hps,
      hfiles, hfuncs, by simp only [List.append_assoc]⟩, ⟨rfl, hntypes, hnsigs, hnatoms, hnfuncs,
      rfl,
      hni64, hnf64, hnps⟩, htakes, rfl, fun t ht ↦ ?_, fun sig hsig ↦ ?_, fun fn hfn ↦ ?_⟩
    · rw [← hvtypes t ht]
      exact validateTypeEntry_congr t (by simp [BcHeader.module, hntypes])
        (by simp [BcHeader.module, hnsigs])
    · rw [← hvsigs sig hsig]
      exact validateSig_congr sig (by simp [BcHeader.module, hntypes])
    · refine Iff.mp ?_ (hvfuncs fn hfn)
      exact validateFunction_congr fn rfl rfl rfl rfl rfl (by simp [hnfuncs])
  · rintro ⟨⟨features, types, sigs, atoms, constI64, constF64, ps, funcs, entry, files⟩,
      ⟨bs₁, bs₂, bs₃, bs₄, bs₅, bs₆, bs₇, bs₈, htypes, hsigs, hatoms, hi64, hf64, hps, hfiles,
        hfuncs, rfl⟩, ⟨rfl, hntypes, hnsigs, hnatoms, hnfuncs, rfl, hni64, hnf64, hnps⟩, htakes, rfl,
        hvtypes, hvsigs, hvfuncs⟩
    refine ⟨types, bs₁, _, by simp only [List.append_assoc], ⟨hntypes, htypes, fun t ht ↦ ?_⟩, sigs,
      bs₂, _, rfl, ⟨hnsigs, hsigs, fun sig hsig ↦ ?_⟩, atoms, bs₃, _, rfl, ⟨hnatoms, hatoms⟩,
      constI64, bs₄, _, rfl, whenText_and.mpr ⟨hi64, hni64⟩, constF64, bs₅, _, rfl,
      whenText_and.mpr ⟨hf64, hnf64⟩, loadedPool inp.fresh ps, bs₆, _, rfl,
      whenText_pool.mpr ⟨ps, hps, hnps, htakes, rfl⟩, files, bs₇, bs₈, rfl, hfiles, funcs,
      ⟨hnfuncs, hfuncs, fun fn hfn ↦ ?_⟩, rfl⟩
    · rw [← hvtypes t ht]
      exact validateTypeEntry_congr t (by simp [BcHeader.module, hntypes, BcInput.loaded])
        (by simp [BcHeader.module, hnsigs, BcInput.loaded])
    · rw [← hvsigs sig hsig]
      exact validateSig_congr sig (by simp [BcHeader.module, hntypes, BcInput.loaded])
    · refine Iff.mp ?_ (hvfuncs fn hfn)
      exact validateFunction_congr fn rfl rfl rfl rfl rfl
        (hnfuncs.trans List.length_replicate.symm)

theorem recognises_readMagic :
    Recognises inp.buffer (readMagic inp) fun bs _ ↦ bs = bytesLE 4 bcMagic.toNat := by
  have hread : Recognises inp.buffer (orReturn (rdU32 inp)) fun bs v ↦ bs = bytesLE 4 v.toNat := by
    intro off v off'
    have horReturn : orReturn (rdU32 inp) off = .ok (v, off') ↔ rdU32 inp off = .ok (v, off') := by
      unfold orReturn
      cases rdU32 inp off <;> simp
    rw [horReturn, recognises_rdU32_raw off v off']
  refine (recognises_then hread fun magic ↦ recognises_bailIf).congr fun bs _ ↦ ?_
  constructor
  · rintro ⟨magic, rfl, hmagic⟩
    rw [not_not.mp hmagic]
  · rintro rfl
    exact ⟨bcMagic, rfl, not_not.mpr rfl⟩

theorem accepted_iff {m : JelloBcModule} : Accepted m ↔ m.entry < m.funcs.length ∧
    (∀ t ∈ m.types, validateTypeEntry m t = .ok ()) ∧
    (∀ sig ∈ m.sigs, validateSig m sig = .ok ()) ∧
    ∀ fn ∈ m.funcs, validateFunction m fn = .ok () := by
  simp only [Accepted, jelloBcValidate, verdict_bind_ok, require_ok, checkAll_ok]

theorem announces_iff {h : BcHeader} {m : JelloBcModule} {header body : List UInt8}
    (hheader : headerText header h) (hbody : bodyText body m) : h.Announces m ↔ h = m.header := by
  obtain ⟨bits, i64s, f64s, bytes, -, -, -, -, -, -, -, hi64, hf64, hbytes, -⟩ := hheader
  obtain ⟨-, -, -, bi64, bf64, bbytes, -, -, -, -, -, hmi64, hmf64, hmbytes, -⟩ := hbody
  constructor
  · intro hann
    rw [hann.features] at hmi64 hmf64 hmbytes
    have hcount {α : Type} {present : Bool} {n : ℕ} {xs : List α} {bs bs' : List UInt8}
        {G : Grammar (List α)} (hn : whenText present wordText 0 bs n)
        (hxs : whenText present G [] bs' xs) (heq : present = true → xs.length = n) :
        xs.length = n := by
      cases present with
      | false =>
        rw [hxs.2, hn.2]
        rfl
      | true => exact heq rfl
    have h₁ := hcount hi64 hmi64 hann.constI64
    have h₂ := hcount hf64 hmf64 hann.constF64
    have h₃ := hcount hbytes hmbytes hann.constBytes
    rw [JelloBcModule.header, hann.features, hann.types, hann.sigs, hann.atoms, hann.funcs,
      hann.entry, h₁, h₂, h₃]
  · rintro rfl
    exact ⟨rfl, rfl, rfl, rfl, rfl, rfl, fun _ ↦ rfl, fun _ ↦ rfl, fun _ ↦ rfl⟩

theorem recognises_readAll (hmem : inp.Plenty) : Recognises inp.buffer (readAll inp) fun bs l ↦
    ∃ m, moduleText bs m ∧ inp.Takes m.constBytes ∧ l = inp.loaded m ∧ Accepted l.bc := by
  refine (recognises_bind recognises_readMagic fun _ ↦ recognises_bind recognises_readHeader fun h ↦
    recognises_readBody hmem h).congr fun bs l ↦ ?_
  constructor
  · rintro ⟨_, _, _, rfl, rfl, h, header, body, rfl, hheader, m, hbody⟩
    obtain rfl := (announces_iff hheader hbody.text).mp hbody.announces
    have hentry : m.entry < m.funcs.length := by
      obtain ⟨_, _, _, _, _, _, _, _, _, _, hentry, -⟩ := hheader
      exact hentry
    obtain ⟨htext, -, htakes, rfl, htypes, hsigs, hfuncs⟩ := hbody
    exact ⟨m, ⟨header, body, hheader, htext, (List.append_assoc ..).symm⟩, htakes, rfl,
      accepted_iff.mpr ⟨hentry, htypes, hsigs, hfuncs⟩⟩
  · rintro ⟨m, ⟨header, body, hheader, hbody, rfl⟩, htakes, rfl, haccepted⟩
    obtain ⟨-, htypes, hsigs, hfuncs⟩ := accepted_iff.mp haccepted
    have hann := (announces_iff hheader hbody).mpr rfl
    exact ⟨(), _, _, List.append_assoc .., rfl, m.header, header, body, rfl, hheader, m, hbody,
      hann, htakes, rfl, htypes, hsigs, hfuncs⟩

/-- The bytes of the constants of a module fit into one block. -/
def JelloBcModule.PoolFits (m : JelloBcModule) : Prop :=
  bytesBefore m.constBytes m.constBytes.length < 2 ^ 32

theorem bytesBefore_congr {ps qs : List (List UInt8)}
    (h : ps.map List.length = qs.map List.length) :
    bytesBefore ps ps.length = bytesBefore qs qs.length := by
  rw [bytesBefore, bytesBefore, List.take_length, List.take_length, h]

theorem lengths_loadedPool (fresh : ℕ → UInt8) {bs : List UInt8} {ps : List (List UInt8)}
    (h : stringText.many bs ps) :
    (loadedPool fresh ps).payloads.map List.length = ps.map List.length := by
  unfold loadedPool
  split_ifs with hnil
  · rw [hnil]
    rfl
  · rw [← lensOf_toNat h]
    refine List.ext_getElem (by simp [ConstBytes.payloads]) fun i hi hi' ↦ ?_
    have hlen : i < (lensOf ps).length := by simpa using hi'
    simp [ConstBytes.payloads, ConstBytes.payload, hlen]

theorem loaded_poolFits_iff {bs : List UInt8} {m : JelloBcModule} (h : moduleText bs m) :
    (inp.loaded m).bc.PoolFits ↔ m.PoolFits := by
  obtain ⟨_, _, -, ⟨_, _, _, _, _, pool, _, _, -, -, -, -, -, hpool, -⟩, -⟩ := h
  have htext : ∃ bs, stringText.many bs m.constBytes := by
    unfold whenText at hpool
    split_ifs at hpool
    · exact ⟨pool, hpool⟩
    · exact ⟨[], by rw [hpool.2]; exact many_nil.mpr rfl⟩
  obtain ⟨_, htext⟩ := htext
  have hlens := bytesBefore_congr (lengths_loadedPool inp.fresh htext)
  unfold JelloBcModule.PoolFits
  rw [← hlens]
  rfl

/-- A module whose constants fit is loaded exactly if the file begins with its text, and it passes
the checks. -/
theorem loads_iff {l : LoadedModule} (hmem : inp.Plenty) (hpool : l.bc.PoolFits) :
    jelloBcRead inp = some { err := none, out := some l } ↔
      ∃ bs m, moduleText bs m ∧ inp.buffer.At 0 bs ∧ l = inp.loaded m ∧ Accepted l.bc := by
  have hread := recognises_readAll hmem 0 l
  constructor
  · intro h
    obtain ⟨stop, hrun⟩ := readAll_of_accepted h
    obtain ⟨bs, ⟨m, htext, -, hl, haccepted⟩, hat, -⟩ := (hread stop).mp hrun
    exact ⟨bs, m, htext, hat, hl, haccepted⟩
  · rintro ⟨bs, m, htext, hat, rfl, haccepted⟩
    have htakes : inp.Takes m.constBytes := takes_of_fits ((loaded_poolFits_iff htext).mp hpool)
    rw [jelloBcRead, if_pos (hmem _ _),
      (hread _).mpr ⟨bs, ⟨m, htext, htakes, rfl, haccepted⟩, hat, rfl⟩]

end Module

section Allocator

variable {inp : BcInput}

/-- The file, with an allocator that always has a block. -/
def BcInput.plenty (inp : BcInput) : BcInput := { inp with mallocs := fun _ _ ↦ true }

theorem within_plenty : inp.Within inp.plenty :=
  ⟨le_rfl, fun _ _ ↦ rfl, fun _ _ _ ↦ rfl, rfl, rfl⟩

end Allocator

/-- Whatever the allocator does, a module that is loaded is that of the file, and has passed the
checks. -/
theorem loaded_accepted {inp : BcInput} {l : LoadedModule}
    (hread : jelloBcRead inp = some { err := none, out := some l }) : Accepted l.bc ∧
      ∃ bs m, moduleText bs m ∧ inp.buffer.At 0 bs ∧ l = inp.loaded m := by
  obtain ⟨stop, hrun⟩ := readAll_of_accepted hread
  have hmem : inp.plenty.Plenty := fun _ _ ↦ rfl
  have hplenty : readAll inp.plenty 0 = .ok (l, stop) := by
    obtain heq | ⟨result, out, herr⟩ := covers_readAll within_plenty 0
    · rw [← heq, hrun]
    · exact nomatch hrun.symm.trans herr
  obtain ⟨bs, ⟨m, htext, -, hl, haccepted⟩, hat, -⟩ :=
    (recognises_readAll hmem 0 l stop).mp hplenty
  exact ⟨haccepted, bs, m, htext, hat, hl⟩

theorem poolInput_accepted : ∃ l,
    jelloBcRead poolInput = some { err := none, out := some l } ∧ Accepted l.bc := by
  have hsome : ((jelloBcRead poolInput).bind BcRead.module?).isSome = true := by decide +kernel
  obtain ⟨l, hl⟩ := Option.isSome_iff_exists.mp hsome
  have hread := read_of_module hl
  exact ⟨l, hread, (loaded_accepted hread).1⟩

end JelloVM
