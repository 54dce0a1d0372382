import JelloVM.LoaderRead

namespace JelloVM

/-- The one file is a front of the other, and its memory has no more room. -/
structure BcInput.Within (inp inp' : BcInput) : Prop where
  size : inp.size ≤ inp'.size
  data : ∀ i < inp.size, inp.data i = inp'.data i
  mallocs : ∀ msg off, inp.mallocs msg off = true → inp'.mallocs msg off = true
  fresh : inp.fresh = inp'.fresh
  beyond : inp.beyond = inp'.beyond

section Covers

variable {α β : Type}

/-- The one reader returns an error, or the other does what it does. -/
def CoversAt (off : ℕ) (x x' : LoadM α) : Prop :=
  x off = x' off ∨ ∃ result out, x off = .error (.returns result out)

def Covers (x x' : LoadM α) : Prop := ∀ off, CoversAt off x x'

theorem covers_refl (x : LoadM α) : Covers x x := fun _ ↦ .inl rfl

theorem coversAt_bind {off : ℕ} {x x' : LoadM α} {f f' : α → LoadM β} (hx : CoversAt off x x')
    (hf : ∀ a off', x off = .ok (a, off') → CoversAt off' (f a) (f' a)) :
    CoversAt off (x >>= f) (x' >>= f') := by
  obtain heq | ⟨result, out, herr⟩ := hx
  · cases hrun : x off with
    | error e =>
      left
      rw [load_bind, load_bind, ← heq, hrun]
      rfl
    | ok r =>
      obtain hrest | ⟨result, out, hrest⟩ := hf r.1 r.2 hrun
      · left
        rw [load_bind, load_bind, ← heq, hrun]
        exact hrest
      · refine .inr ⟨result, out, ?_⟩
        rw [load_bind, hrun]
        exact hrest
  · refine .inr ⟨result, out, ?_⟩
    rw [load_bind, herr]
    rfl

theorem covers_bind {x x' : LoadM α} {f f' : α → LoadM β} (hx : Covers x x')
    (hf : ∀ a, Covers (f a) (f' a)) : Covers (x >>= f) (x' >>= f') :=
  fun off ↦ coversAt_bind (hx off) fun a off' _ ↦ hf a off'

theorem covers_then (x : LoadM α) {f f' : α → LoadM β} (hf : ∀ a, Covers (f a) (f' a)) :
    Covers (x >>= f) (x >>= f') := covers_bind (covers_refl x) hf

theorem covers_map {x x' : LoadM α} (hx : Covers x x') (f : α → LoadM β) :
    Covers (x >>= f) (x' >>= f) := covers_bind hx fun a ↦ covers_refl (f a)

theorem covers_ite {c : Prop} [Decidable c] {x x' y y' : LoadM α} (hx : Covers x x')
    (hy : Covers y y') : Covers (if c then x else y) (if c then x' else y') := by
  split_ifs
  · exact hx
  · exact hy

theorem covers_optional {x x' : LoadM α} (present : Bool) (h : Covers x x') (absent : α) :
    Covers (optional present x absent) (optional present x' absent) :=
  covers_ite h (covers_refl _)

theorem covers_each {body body' : ℕ → LoadM α} (h : ∀ i, Covers (body i) (body' i)) (n : ℕ) :
    ∀ i, Covers (each body i n) (each body' i n) := by
  induction n with
  | zero => exact fun i ↦ covers_refl _
  | succ n ih => exact fun i ↦ covers_bind (h i) fun a ↦ covers_map (ih (i + 1)) _

theorem covers_orFree {x x' : ReadM α} (h : ∀ off r, x off = .ok r → x' off = .ok r) :
    Covers (orFree x) (orFree x') := by
  intro off
  cases hx : x off with
  | ok r =>
    left
    rw [orFree, orFree, hx, h off r hx]
  | error e =>
    refine .inr ⟨e, none, ?_⟩
    rw [orFree, hx]

theorem covers_orReturn {x x' : ReadM α} (h : ∀ off r, x off = .ok r → x' off = .ok r) :
    Covers (orReturn x) (orReturn x') := by
  intro off
  cases hx : x off with
  | ok r =>
    left
    rw [orReturn, orReturn, hx, h off r hx]
  | error e =>
    refine .inr ⟨e, some zeroModule, ?_⟩
    rw [orReturn, hx]

end Covers

section Readers

variable {α : Type} {inp inp' : BcInput} (hin : inp.Within inp')
include hin

theorem rdU8_within (off : ℕ) (r : UInt8 × ℕ) (h : rdU8 inp off = .ok r) :
    rdU8 inp' off = .ok r := by
  rw [rdU8_eq] at h ⊢
  split_ifs at h with hfit
  have hsize := hin.size
  rw [if_pos (by omega), ← hin.data off (by omega)]
  exact h

theorem rdU16_within (off : ℕ) (r : UInt16 × ℕ) (h : rdU16 inp off = .ok r) :
    rdU16 inp' off = .ok r := by
  rw [rdU16_eq] at h ⊢
  split_ifs at h with hfit
  have hsize := hin.size
  rw [if_pos (by omega), ← hin.data off (by omega), ← hin.data (off + 1) (by omega)]
  exact h

theorem rdU32_within (off : ℕ) (r : UInt32 × ℕ) (h : rdU32 inp off = .ok r) :
    rdU32 inp' off = .ok r := by
  rw [rdU32_eq] at h ⊢
  split_ifs at h with hfit
  have hsize := hin.size
  rw [if_pos (by omega), ← hin.data off (by omega), ← hin.data (off + 1) (by omega),
    ← hin.data (off + 2) (by omega), ← hin.data (off + 3) (by omega)]
  exact h

theorem covers_rdU8 : Covers (orFree (rdU8 inp)) (orFree (rdU8 inp')) :=
  covers_orFree (rdU8_within hin)

theorem covers_rdU16 : Covers (orFree (rdU16 inp)) (orFree (rdU16 inp')) :=
  covers_orFree (rdU16_within hin)

theorem covers_rdU32 : Covers (orFree (rdU32 inp)) (orFree (rdU32 inp')) :=
  covers_orFree (rdU32_within hin)

theorem covers_readWord : Covers (readWord inp) (readWord inp') := covers_map (covers_rdU32 hin) _

theorem covers_readWord64 : Covers (readWord64 inp) (readWord64 inp') :=
  covers_bind (covers_rdU32 hin) fun _ ↦ covers_map (covers_rdU32 hin) _

theorem covers_allocAt (msg : String) (at' : ℕ) :
    Covers (allocAt inp msg at') (allocAt inp' msg at') := by
  intro off
  by_cases h : inp.mallocs msg at' = true
  · left
    rw [allocAt, allocAt, if_pos h, if_pos (hin.mallocs _ _ h)]
  · refine .inr ⟨⟨.outOfMemory, msg, at'⟩, none, ?_⟩
    rw [allocAt, if_neg h]
    rfl

theorem covers_alloc (msg : String) : Covers (alloc inp msg) (alloc inp' msg) :=
  covers_then _ fun off ↦ covers_allocAt hin msg off

theorem covers_readTable (msg : String) (n : ℕ) {body body' : ℕ → LoadM α}
    (h : ∀ i, Covers (body i) (body' i)) :
    Covers (readTable inp msg n body) (readTable inp' msg n body') :=
  covers_ite (covers_refl _) (covers_bind (covers_alloc hin msg) fun _ ↦ covers_each h n 0)

theorem covers_needBytes {n : ℕ} {msg : String} {f f' : Unit → LoadM α}
    (hf : ∀ off, off + n ≤ inp.size → CoversAt off (f ()) (f' ())) :
    Covers (needBytes inp n msg >>= f) (needBytes inp' n msg >>= f') := by
  intro off
  by_cases hfit : off + n ≤ inp.size
  · have hneed : needBytes inp n msg off = .ok ((), off) := needBytes_iff.mpr ⟨hfit, rfl⟩
    have hneed' : needBytes inp' n msg off = .ok ((), off) :=
      needBytes_iff.mpr ⟨hfit.trans hin.size, rfl⟩
    refine coversAt_bind (.inl (hneed.trans hneed'.symm)) fun u off' hrun ↦ ?_
    obtain ⟨-, rfl⟩ := Prod.mk.inj (Except.ok.inj (hneed.symm.trans hrun))
    exact hf off hfit
  · refine .inr ⟨⟨.eof, msg, off⟩, none, ?_⟩
    have hno : decide (off + n ≤ inp.size) = false := decide_eq_false hfit
    have hneed : needBytes inp n msg off =
        bailIf (decide (off + n ≤ inp.size) = false) .eof msg 0 off := rfl
    rw [load_bind, hneed, bailIf, if_pos hno]
    rfl

theorem slice_within {off n : ℕ} (hfit : off + n ≤ inp.size) : inp.slice off n = inp'.slice off n :=
  List.map_congr_left fun i hi ↦ hin.data _ (by have := List.mem_range.mp hi; omega)

theorem coversAt_takeBytes {off n : ℕ} (hfit : off + n ≤ inp.size) :
    CoversAt off (takeBytes inp n) (takeBytes inp' n) := by
  left
  change Except.ok (inp.slice off n, off + n) = .ok (inp'.slice off n, off + n)
  rw [slice_within hin hfit]

theorem memcpy_within {blob : ℕ → UInt8} {dst off n : ℕ} (hfit : off + n ≤ inp.size) :
    inp.memcpy blob dst off n = inp'.memcpy blob dst off n := by
  funext k
  simp only [BcInput.memcpy]
  split_ifs with hk
  · exact hin.data _ (by omega)
  · rfl

end Readers

section Sections

variable {inp inp' : BcInput} (hin : inp.Within inp')
include hin

theorem covers_readMagic : Covers (readMagic inp) (readMagic inp') :=
  covers_map (covers_orReturn (rdU32_within hin)) _

theorem covers_readHeader : Covers (readHeader inp) (readHeader inp') := by
  have hword := covers_readWord hin
  refine covers_bind (covers_rdU32 hin) fun _ ↦ covers_then _ fun _ ↦ ?_
  refine covers_bind (covers_rdU32 hin) fun bits ↦ ?_
  refine covers_bind hword fun _ ↦ covers_bind hword fun _ ↦ covers_bind hword fun _ ↦ ?_
  refine covers_bind hword fun _ ↦ covers_bind hword fun _ ↦ covers_then _ fun _ ↦ ?_
  refine covers_bind (covers_optional _ hword 0) fun _ ↦ ?_
  exact covers_bind (covers_optional _ hword 0) fun _ ↦ covers_map (covers_optional _ hword 0) _

theorem covers_readType (h : BcHeader) : Covers (readType inp h) (readType inp' h) :=
  covers_bind (covers_rdU8 hin) fun _ ↦ covers_bind (covers_rdU8 hin) fun _ ↦
    covers_bind (covers_rdU16 hin) fun _ ↦ covers_bind (covers_readWord hin) fun _ ↦
      covers_map (covers_readWord hin) _

theorem covers_readTypeId (h : BcHeader) (msg : String) :
    Covers (readTypeId inp h msg) (readTypeId inp' h msg) := covers_map (covers_readWord hin) _

theorem covers_readSig (h : BcHeader) : Covers (readSig inp h) (readSig inp' h) :=
  covers_bind (covers_readWord hin) fun _ ↦ covers_bind (covers_rdU16 hin) fun _ ↦
    covers_bind (covers_rdU16 hin) fun _ ↦ covers_then _ fun _ ↦
      covers_map (covers_readTable hin _ _ fun _ ↦ covers_readTypeId hin h _) _

theorem covers_atomLen : Covers (atomLen inp) (atomLen inp') :=
  covers_bind (covers_readWord hin) fun _ ↦ covers_ite (covers_refl _)
    (covers_needBytes hin fun _ _ ↦ .inl rfl)

theorem covers_atomBytes (expected : ℕ) :
    Covers (atomBytes inp expected) (atomBytes inp' expected) :=
  covers_bind (covers_readWord hin) fun _ ↦ covers_then _ fun _ ↦ covers_ite (covers_refl _)
    (covers_needBytes hin fun _ hfit ↦ coversAt_takeBytes hin hfit)

theorem covers_readAtoms (h : BcHeader) : Covers (readAtoms inp h) (readAtoms inp' h) := by
  refine covers_ite (covers_refl _) (covers_then _ fun start ↦ ?_)
  refine covers_bind (covers_alloc hin _) fun _ ↦ ?_
  refine covers_bind (covers_each (fun _ ↦ covers_atomLen hin) _ 0) fun lens ↦ ?_
  refine covers_bind (covers_allocAt hin _ _) fun _ ↦ covers_bind (covers_allocAt hin _ _) fun _ ↦ ?_
  exact covers_then _ fun _ ↦ covers_each (fun i ↦ covers_atomBytes hin _) _ 0

theorem covers_readConst64 (msg : String) (n : ℕ) :
    Covers (readConst64 inp msg n) (readConst64 inp' msg n) :=
  covers_readTable hin _ _ fun _ ↦ covers_readWord64 hin

theorem covers_skipPayload (len : UInt32) : Covers (skipPayload inp len) (skipPayload inp' len) :=
  covers_ite (covers_refl _) (covers_needBytes hin fun _ _ ↦ .inl rfl)

theorem covers_constBytesIndex (n : ℕ) :
    ∀ total, Covers (constBytesIndex inp n total) (constBytesIndex inp' n total) := by
  induction n with
  | zero => exact fun total ↦ covers_refl _
  | succ n ih =>
    exact fun total ↦ covers_bind (covers_rdU32 hin) fun len ↦
      covers_bind (covers_skipPayload hin len) fun _ ↦ covers_map (ih _) _

theorem covers_copyPayload (total : UInt32) (blob : ℕ → UInt8) (dst len : UInt32) :
    Covers (copyPayload inp total blob dst len) (copyPayload inp' total blob dst len) := by
  refine covers_ite (covers_refl _) (covers_needBytes hin fun off hfit ↦ .inl ?_)
  have hcopies (dst n : ℕ) : inp.copies total.toNat dst n = inp'.copies total.toNat dst n := by
    rw [BcInput.copies, BcInput.copies, hin.beyond]
  rw [load_bind, load_bind]
  change (if inp.copies _ _ _ = true then _ else fault : LoadM (ℕ → UInt8)) off =
    (if inp'.copies _ _ _ = true then _ else fault : LoadM (ℕ → UInt8)) off
  rw [hcopies, memcpy_within hin hfit]

theorem covers_constBytesCopy (total : UInt32) (lens : List UInt32) : ∀ offs blob,
    Covers (constBytesCopy inp total lens offs blob) (constBytesCopy inp' total lens offs blob) := by
  induction lens with
  | nil => exact fun offs blob ↦ covers_refl _
  | cons expected lens ih =>
    intro offs blob
    cases offs with
    | nil => exact covers_refl _
    | cons dst offs =>
      exact covers_bind (covers_rdU32 hin) fun len ↦ covers_then _ fun _ ↦
        covers_bind (covers_copyPayload hin _ _ _ _) fun blob ↦ ih offs blob

theorem covers_readConstBytes (n : ℕ) : Covers (readConstBytes inp n) (readConstBytes inp' n) := by
  refine covers_ite (covers_refl _) (covers_bind (covers_alloc hin _) fun _ ↦ ?_)
  refine covers_then _ fun start ↦ covers_bind (covers_constBytesIndex hin n 0) fun r ↦ ?_
  refine covers_bind (covers_ite (covers_refl _) (covers_alloc hin _)) fun _ ↦ ?_
  refine covers_then _ fun _ ↦ ?_
  rw [hin.fresh]
  exact covers_map (covers_constBytesCopy hin _ _ _ _) _

theorem covers_readSourceFile : Covers (readSourceFile inp) (readSourceFile inp') := by
  refine covers_bind (covers_readWord hin) fun len ↦ covers_needBytes hin fun off hfit ↦ ?_
  refine coversAt_bind (covers_alloc hin _ off) fun u off' hrun ↦ ?_
  obtain ⟨-, rfl⟩ := Prod.mk.inj (alloc_iff.mp hrun).2
  exact coversAt_takeBytes hin hfit

theorem covers_readSourceFiles : Covers (readSourceFiles inp) (readSourceFiles inp') :=
  covers_bind (covers_readWord hin) fun _ ↦
    covers_readTable hin _ _ fun _ ↦ covers_readSourceFile hin

theorem covers_readLine (features : Features) :
    Covers (readLine inp features) (readLine inp' features) :=
  covers_ite (covers_rdU32 hin) (covers_map (covers_rdU16 hin) _)

theorem covers_readInsn (m : JelloBcModule) (regTypes : List ℕ) (ninsns pc : ℕ) :
    Covers (readInsn inp m regTypes ninsns pc) (readInsn inp' m regTypes ninsns pc) :=
  covers_bind (covers_rdU8 hin) fun _ ↦ covers_bind (covers_rdU8 hin) fun _ ↦
    covers_bind (covers_rdU8 hin) fun _ ↦ covers_bind (covers_rdU8 hin) fun _ ↦
      covers_map (covers_rdU32 hin) _

theorem covers_readFunction (h : BcHeader) (m : JelloBcModule) :
    Covers (readFunction inp h m) (readFunction inp' h m) := by
  have hword := covers_readWord hin
  refine covers_bind hword fun nregs ↦ covers_bind (covers_optional _ hword 0) fun capStart ↦ ?_
  refine covers_bind hword fun ninsns ↦ covers_then _ fun _ ↦ ?_
  refine covers_bind (covers_readTable hin _ _ fun _ ↦ covers_readTypeId hin h _) fun regTypes ↦ ?_
  have hfile : Covers (readFileId inp) (readFileId inp') := covers_map (covers_rdU16 hin) _
  refine covers_bind (covers_optional _ hfile 0) fun sourceFile ↦ ?_
  refine covers_bind
    (covers_optional _ (covers_readTable hin _ _ fun _ ↦ covers_readLine hin _) []) fun lines ↦ ?_
  exact covers_map (covers_readTable hin _ _ fun pc ↦ covers_readInsn hin m regTypes ninsns pc) _

theorem covers_readBody (h : BcHeader) : Covers (readBody inp h) (readBody inp' h) := by
  have hconst (msg : String) (n : ℕ) :=
    covers_optional h.features.const64 (covers_readConst64 hin msg n) []
  refine covers_bind (covers_readTable hin _ _ fun _ ↦ covers_readType hin h) fun types ↦ ?_
  refine covers_bind (covers_readTable hin _ _ fun _ ↦ covers_readSig hin h) fun sigs ↦ ?_
  refine covers_bind (covers_readAtoms hin h) fun atoms ↦ ?_
  refine covers_bind (hconst _ _) fun constI64 ↦ covers_bind (hconst _ _) fun constF64 ↦ ?_
  refine covers_bind (covers_optional _ (covers_readConstBytes hin _) _) fun pool ↦ ?_
  refine covers_bind (covers_optional _ (covers_readSourceFiles hin) []) fun sourceFiles ↦ ?_
  exact covers_map (covers_readTable hin _ _ fun _ ↦ covers_readFunction hin h _) _

/-- The load of a front of a file returns an error, or does what the load of the file does. -/
theorem covers_readAll : Covers (readAll inp) (readAll inp') :=
  covers_bind (covers_readMagic hin) fun _ ↦ covers_bind (covers_readHeader hin) fun h ↦
    covers_readBody hin h

end Sections

end JelloVM
