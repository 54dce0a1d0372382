import JelloVM.LoaderPool
import JelloVM.Validated
import JelloVM.Library.Recogniser

namespace JelloVM

open LittleEndian Recogniser

def fileWord (n : ℕ) : List UInt8 := bytesLE 4 n

def wordText : Grammar ℕ := fun bs n ↦ n < 2 ^ 32 ∧ bs = fileWord n

/-- A string: its length, and its bytes. -/
def stringText : Grammar (List UInt8) := fun bs s ↦
  s.length < 2 ^ 32 ∧ bs = fileWord s.length ++ s

def word64Text : Grammar UInt64 := fun bs v ↦ bs = bytesLE 8 v.toNat

/-- The kinds whose entry means something by its first word. -/
def Kind.hasParam : Kind → Bool
  | .list | .array | .function | .abstract => true
  | _ => false

/-- An entry of the type table; the padding and the second word may be anything, the first one
too where the kind does not use it. -/
def typeText : Grammar TypeEntry := fun bs t ↦ ∃ (code pad₁ : UInt8) (pad₂ : UInt16) (p₀ p₁ : ℕ),
  p₀ < 2 ^ 32 ∧ p₁ < 2 ^ 32 ∧
    bs = [code, pad₁] ++ bytesLE 2 pad₂.toNat ++ fileWord p₀ ++ fileWord p₁ ∧
    Kind.ofCode code = some t.kind ∧ t.param = if t.kind.hasParam then p₀ else 0

def sigText : Grammar FunSig := fun bs sig ↦ ∃ (pad : UInt16) (args : List UInt8),
  sig.ret < 2 ^ 32 ∧ sig.args.length < 2 ^ 16 ∧ wordText.many args sig.args ∧
    bs = fileWord sig.ret ++ bytesLE 2 sig.args.length ++ bytesLE 2 pad.toNat ++ args

def lineText (lineCol : Bool) : Grammar UInt32 := fun bs line ↦
  if lineCol then bs = bytesLE 4 line.toNat else line.toNat < 2 ^ 16 ∧ bs = bytesLE 2 line.toNat

def insnText : Grammar JelloInsn := fun bs ins ↦ ∃ code,
  JelloOp.ofCode code = some ins.op ∧ bs = [code, ins.a, ins.b, ins.c] ++ bytesLE 4 ins.imm.toNat

/-- A part that is there with a feature only; without it the value is the one given. -/
def whenText {α : Type} (present : Bool) (G : Grammar α) (absent : α) : Grammar α := fun bs a ↦
  if present then G bs a else bs = [] ∧ a = absent

def halfText : Grammar ℕ := fun bs n ↦ n < 2 ^ 16 ∧ bs = bytesLE 2 n

def linesText (features : Features) (ninsns : ℕ) : Grammar (List UInt32) := fun bs lines ↦
  lines.length = ninsns ∧ (lineText features.lineCol).many bs lines

def functionText (features : Features) : Grammar JelloBcFunction := fun bs fn ↦
  ∃ capStart regs file lines insns, fn.nregs < 2 ^ 32 ∧ fn.ninsns < 2 ^ 32 ∧
    whenText features.capStart wordText 0 capStart fn.capStart ∧ wordText.many regs fn.regTypes ∧
    whenText features.lineTable halfText 0 file fn.sourceFile ∧
    whenText features.lineTable (linesText features fn.ninsns) [] lines fn.lines ∧
    insnText.many insns fn.insns ∧
    bs = fileWord fn.nregs ++ capStart ++ fileWord fn.ninsns ++ regs ++ file ++ lines ++ insns

section Primitives

variable (inp : BcInput)

def BcInput.buffer : Buffer := ⟨inp.data, inp.size⟩

variable {inp}

theorem recognises_orFree_iff {α : Type} {x : ReadM α} {G : Grammar α} :
    Recognises inp.buffer (orFree x) G ↔ Recognises inp.buffer x G := by
  simp only [Recognises, orFree_iff]

theorem recognises_rdU8 : Recognises inp.buffer (orFree (rdU8 inp)) fun bs v ↦ bs = [v] := by
  intro off v off'
  rw [orFree_iff, rdU8_eq]
  split_ifs with hsize
  · constructor
    · intro h
      obtain ⟨rfl, rfl⟩ := Prod.mk.inj (Except.ok.inj h)
      exact ⟨_, rfl, ⟨⟨hsize, rfl⟩, at_nil⟩, rfl⟩
    · rintro ⟨_, rfl, ⟨⟨-, hv⟩, -⟩, rfl⟩
      rw [← hv]
      rfl
  · constructor
    · exact fun h ↦ nomatch h
    · rintro ⟨_, rfl, ⟨⟨hlt, -⟩, -⟩, -⟩
      exact absurd hlt hsize

theorem natLE_slice (off n : ℕ) : natLE (inp.buffer.slice off (n + 1)) =
    (inp.data off).toNat + 256 * natLE (inp.buffer.slice (off + 1) n) := by
  rw [slice_succ, natLE]
  rfl

theorem toNat_word16 (b₀ b₁ : UInt8) :
    (b₀.toUInt16 ||| b₁.toUInt16 <<< 8).toNat = b₀.toNat + 256 * b₁.toNat := by
  have h₀ := b₀.toNat_lt
  have h₁ := b₁.toNat_lt
  have hshift : (b₁.toUInt16 <<< 8).toNat = b₁.toNat * 256 := by
    rw [UInt16.toNat_shiftLeft, UInt8.toNat_toUInt16, Nat.shiftLeft_eq]
    exact Nat.mod_eq_of_lt (by change b₁.toNat * 256 < 65536; omega)
  have hor := or_byte (n := b₀.toNat) (i := 1) (by omega) b₁
  rw [Nat.shiftLeft_eq, show 2 ^ (8 * 1) = 256 from rfl, pow_one] at hor
  rw [UInt16.toNat_or, UInt8.toNat_toUInt16, hshift, hor, Nat.mul_comm]

theorem toNat_word32 (b₀ b₁ b₂ b₃ : UInt8) :
    (b₀.toUInt32 ||| b₁.toUInt32 <<< 8 ||| b₂.toUInt32 <<< 16 ||| b₃.toUInt32 <<< 24).toNat =
      b₀.toNat + 256 * (b₁.toNat + 256 * (b₂.toNat + 256 * b₃.toNat)) := by
  have h₀ := b₀.toNat_lt
  have h₁ := b₁.toNat_lt
  have h₂ := b₂.toNat_lt
  have h₃ := b₃.toNat_lt
  have hshift (b : UInt8) (s : UInt32) (k : ℕ) (hs : s.toNat = 8 * k) (hk : k < 4) :
      (b.toUInt32 <<< s).toNat = b.toNat <<< (8 * k) := by
    have hlt : b.toNat <<< (8 * k) < 2 ^ 32 := by
      have h := byte_shift_lt hk b
      norm_num at h ⊢
      exact h
    rw [UInt32.toNat_shiftLeft, UInt8.toNat_toUInt32, hs,
      Nat.mod_eq_of_lt (show 8 * k < 32 by omega), Nat.mod_eq_of_lt hlt]
  have hor₁ := or_byte (n := b₀.toNat) (i := 1) (by omega) b₁
  have hor₂ := or_byte (n := b₀.toNat + b₁.toNat * 256 ^ 1) (i := 2) (by omega) b₂
  have hor₃ := or_byte (n := b₀.toNat + b₁.toNat * 256 ^ 1 + b₂.toNat * 256 ^ 2) (i := 3)
    (by omega) b₃
  rw [UInt32.toNat_or, UInt32.toNat_or, UInt32.toNat_or, UInt8.toNat_toUInt32,
    hshift b₁ 8 1 rfl (by decide), hshift b₂ 16 2 rfl (by decide), hshift b₃ 24 3 rfl (by decide),
    hor₁, hor₂, hor₃]
  ring

theorem recognises_rdU16 :
    Recognises inp.buffer (orFree (rdU16 inp)) fun bs v ↦ bs = bytesLE 2 v.toNat := by
  refine recognises_le (by decide) (fun v ↦ v.toNat_lt) fun off v off' ↦ ?_
  have hval : natLE (inp.buffer.slice off 2) =
      ((inp.data off).toUInt16 ||| (inp.data (off + 1)).toUInt16 <<< 8).toNat := by
    rw [natLE_slice, natLE_slice, toNat_word16]
    rfl
  rw [orFree_iff, rdU16_eq, hval, UInt16.toNat_inj]
  split_ifs with h
  · simp only [Except.ok.injEq, Prod.mk.injEq]
    exact ⟨fun ⟨hv, ho⟩ ↦ ⟨h, ho.symm, hv.symm⟩, fun ⟨_, ho, hv⟩ ↦ ⟨hv.symm, ho.symm⟩⟩
  · exact ⟨fun hs ↦ (nomatch hs), fun hs ↦ absurd hs.1 h⟩

theorem recognises_rdU32_raw :
    Recognises inp.buffer (rdU32 inp) fun bs v ↦ bs = bytesLE 4 v.toNat := by
  refine recognises_le (by decide) (fun v ↦ v.toNat_lt) fun off v off' ↦ ?_
  have hval : natLE (inp.buffer.slice off 4) =
      ((inp.data off).toUInt32 ||| (inp.data (off + 1)).toUInt32 <<< 8 |||
        (inp.data (off + 2)).toUInt32 <<< 16 ||| (inp.data (off + 3)).toUInt32 <<< 24).toNat := by
    rw [natLE_slice, natLE_slice, natLE_slice, natLE_slice, toNat_word32]
    rfl
  rw [rdU32_iff, hval, UInt32.toNat_inj]
  exact Iff.rfl

theorem recognises_rdU32 :
    Recognises inp.buffer (orFree (rdU32 inp)) fun bs v ↦ bs = bytesLE 4 v.toNat :=
  recognises_orFree_iff.mpr recognises_rdU32_raw

theorem recognises_readWord : Recognises inp.buffer (readWord inp) wordText := by
  refine (recognises_then recognises_rdU32 fun v ↦ recognises_pure _).congr fun bs n ↦ ?_
  constructor
  · rintro ⟨v, rfl, rfl⟩
    exact ⟨v.toNat_lt, rfl⟩
  · rintro ⟨hn, rfl⟩
    have hv : (UInt32.ofNat n).toNat = n := UInt32.toNat_ofNat_of_lt' hn
    exact ⟨UInt32.ofNat n, by rw [hv]; rfl, hv.symm⟩

/-- The allocator always has a block. -/
def BcInput.Plenty (inp : BcInput) : Prop := ∀ msg off, inp.mallocs msg off = true

theorem recognises_bailIf {c : Prop} [Decidable c] {e : BcError} {msg : String} {back : ℕ} :
    Recognises inp.buffer (bailIf c e msg back) (.only fun _ ↦ ¬ c) := by
  intro off u off'
  rw [bailIf_iff]
  constructor
  · rintro ⟨hc, h⟩
    exact ⟨[], ⟨rfl, hc⟩, at_nil, (Prod.mk.inj h).2⟩
  · rintro ⟨_, ⟨rfl, hc⟩, -, rfl⟩
    exact ⟨hc, rfl⟩

theorem recognises_bail {α : Type} {e : BcError} {msg : String} {back : ℕ} :
    Recognises inp.buffer (bail e msg back : LoadM α) (.only fun _ ↦ False) := by
  intro off a off'
  constructor
  · exact fun h ↦ nomatch h
  · exact fun ⟨_, ⟨_, hfalse⟩, _⟩ ↦ hfalse.elim

theorem recognises_check {v : Verdict} :
    Recognises inp.buffer (check v) (.only fun _ ↦ v = .ok ()) := by
  cases v with
  | ok u => exact (recognises_pure u).congr fun bs _ ↦ by simp [Grammar.only]
  | error msg => exact recognises_bail.congr fun bs _ ↦ by simp [Grammar.only]

theorem recognises_alloc (hmem : inp.Plenty) {msg : String} :
    Recognises inp.buffer (alloc inp msg) (.only fun _ ↦ True) := by
  intro off u off'
  rw [alloc_iff]
  constructor
  · rintro ⟨-, h⟩
    exact ⟨[], ⟨rfl, trivial⟩, at_nil, (Prod.mk.inj h).2⟩
  · rintro ⟨_, ⟨rfl, -⟩, -, rfl⟩
    exact ⟨hmem _ _, rfl⟩

theorem recognises_optional {α : Type} {present : Bool} {x : LoadM α} {G : Grammar α} {absent : α}
    (h : Recognises inp.buffer x G) :
    Recognises inp.buffer (optional present x absent) (whenText present G absent) := by
  cases present with
  | false => exact recognises_pure absent
  | true => exact h

theorem recognises_rounds {α : Type} {body : ℕ → LoadM α} {G : Grammar α} {P : ℕ → α → Prop}
    (h : ∀ i, Recognises inp.buffer (body i) fun bs a ↦ G bs a ∧ P i a) (n : ℕ) (i : ℕ) :
    Recognises inp.buffer (each body i n) fun bs as ↦
      as.length = n ∧ G.many bs as ∧ ∀ j a, as[j]? = some a → P (i + j) a := by
  induction n generalizing i with
  | zero =>
    refine (recognises_pure []).congr fun bs as ↦ ?_
    constructor
    · rintro ⟨rfl, rfl⟩
      exact ⟨rfl, many_nil.mpr rfl, fun j a hj ↦ by simp at hj⟩
    · rintro ⟨hlen, htext, -⟩
      obtain rfl := List.length_eq_zero_iff.mp hlen
      exact ⟨many_nil.mp htext, rfl⟩
  | succ n ih =>
    refine (recognises_bind (h i) fun a ↦ recognises_then (ih (i + 1)) fun as ↦
      recognises_pure (a :: as)).congr fun bs as ↦ ?_
    constructor
    · rintro ⟨a, bs₁, bs₂, rfl, ⟨ha, hP⟩, as, ⟨hlen, htext, hrest⟩, rfl⟩
      refine ⟨by rw [List.length_cons, hlen], many_cons.mpr ⟨bs₁, bs₂, rfl, ha, htext⟩, ?_⟩
      intro j a' hj
      cases j with
      | zero => rwa [Nat.add_zero, ← Option.some.inj hj]
      | succ j =>
        have hs := hrest j a' hj
        rwa [Nat.add_assoc, Nat.add_comm 1] at hs
    · rintro ⟨hlen, htext, hP⟩
      cases as with
      | nil => cases hlen
      | cons a as =>
        obtain ⟨bs₁, bs₂, rfl, ha, hrest⟩ := many_cons.mp htext
        refine ⟨a, bs₁, bs₂, rfl, ⟨ha, hP 0 a rfl⟩, as, ⟨Nat.succ.inj hlen, hrest, ?_⟩, rfl⟩
        intro j a' hj
        have hs := hP (j + 1) a' hj
        rwa [Nat.add_comm j 1, ← Nat.add_assoc] at hs

theorem recognises_each {α : Type} {body : ℕ → LoadM α} {G : Grammar α}
    (h : ∀ i, Recognises inp.buffer (body i) G) (n : ℕ) (i : ℕ) :
    Recognises inp.buffer (each body i n) fun bs as ↦ as.length = n ∧ G.many bs as := by
  have hall := recognises_rounds (P := fun _ _ ↦ True)
    (fun i ↦ (h i).congr fun bs a ↦ (and_iff_left trivial).symm) n i
  exact hall.congr fun bs as ↦ ⟨fun h ↦ ⟨h.1, h.2.1⟩, fun h ↦ ⟨h.1, h.2, fun _ _ _ ↦ trivial⟩⟩

theorem recognises_readTable {α : Type} (hmem : inp.Plenty) {msg : String} {n : ℕ}
    {body : ℕ → LoadM α} {G : Grammar (List α)} (h : Recognises inp.buffer (each body 0 n) G) :
    Recognises inp.buffer (readTable inp msg n body) G := by
  unfold readTable
  split_ifs with hn
  · subst hn
    exact h
  · refine (recognises_after (recognises_alloc hmem) fun _ ↦ h).congr fun bs as ↦ ?_
    exact ⟨fun ⟨_, _, hG⟩ ↦ hG, fun hG ↦ ⟨(), trivial, hG⟩⟩

/-- There is room for `n` bytes where `n` bytes stand. -/
theorem bytesLeft_iff {off n : ℕ} (hoff : off ≤ inp.size) :
    off + n ≤ inp.size ↔ ∃ s, s.length = n ∧ inp.buffer.At off s := by
  constructor
  · exact fun h ↦ ⟨inp.buffer.slice off n, Recogniser.length_slice, at_slice (.inl h)⟩
  · rintro ⟨s, rfl, hat⟩
    obtain hle | rfl := hat.size_le
    · exact hle
    · exact hoff

theorem takeBytes_iff {n off : ℕ} {r : List UInt8 × ℕ} :
    takeBytes inp n off = .ok r ↔ r = (inp.buffer.slice off n, off + n) := by
  constructor
  · exact fun h ↦ (Except.ok.inj h).symm
  · rintro rfl
    rfl

theorem recognises_string {α : Type} {rest : ℕ → LoadM α} {P : List UInt8 → α → Prop}
    (h : ∀ off len a off', len < 2 ^ 32 → off ≤ inp.size → (rest len off = .ok (a, off') ↔
      ∃ s, s.length = len ∧ inp.buffer.At off s ∧ P s a ∧ off' = off + len)) :
    Recognises inp.buffer (readWord inp >>= rest) fun bs a ↦ ∃ s, stringText bs s ∧ P s a := by
  intro off a off'
  rw [load_bind_iff]
  constructor
  · rintro ⟨len, off₁, hword, hrest⟩
    obtain ⟨_, ⟨hlt, rfl⟩, hat, rfl⟩ := (recognises_readWord off len off₁).mp hword
    have hsize : off + (fileWord len).length ≤ inp.size := by
      obtain hle | hnil := hat.size_le
      · exact hle
      · exact absurd (congrArg List.length hnil) (by simp [fileWord])
    obtain ⟨s, rfl, hs, hP, rfl⟩ := (h _ len a off' hlt hsize).mp hrest
    refine ⟨fileWord s.length ++ s, ⟨s, ⟨hlt, rfl⟩, hP⟩, at_append.mpr ⟨hat, hs⟩, ?_⟩
    rw [List.length_append, Nat.add_assoc]
  · rintro ⟨_, ⟨s, ⟨hlt, rfl⟩, hP⟩, hat, rfl⟩
    obtain ⟨hword, hs⟩ := at_append.mp hat
    have hsize : off + (fileWord s.length).length ≤ inp.size := by
      obtain hle | hnil := hword.size_le
      · exact hle
      · exact absurd (congrArg List.length hnil) (by simp [fileWord])
    refine ⟨s.length, _, recognises_readWord.ok ⟨hlt, rfl⟩ hword, ?_⟩
    refine (h _ _ a _ hlt hsize).mpr ⟨s, rfl, hs, hP, ?_⟩
    rw [List.length_append, Nat.add_assoc]

theorem recognises_readSourceFile (hmem : inp.Plenty) :
    Recognises inp.buffer (readSourceFile inp) stringText := by
  refine (recognises_string (P := fun s a ↦ a = s) fun off len a off' _ hoff ↦ ?_).congr
    fun bs a ↦ ⟨fun ⟨_, h, ha⟩ ↦ ha ▸ h, fun h ↦ ⟨a, h, rfl⟩⟩
  simp only [load_bind_iff, needBytes_iff, alloc_iff, takeBytes_iff, Prod.mk.injEq, bytesLeft_iff hoff]
  constructor
  · rintro ⟨_, _, ⟨⟨s, rfl, hat⟩, -, rfl⟩, _, _, ⟨-, -, rfl⟩, rfl, rfl⟩
    exact ⟨s, rfl, hat, hat.eq_slice.symm, rfl⟩
  · rintro ⟨s, rfl, hat, rfl, rfl⟩
    exact ⟨(), off, ⟨⟨a, rfl, hat⟩, trivial, rfl⟩, (), off, ⟨hmem _ _, trivial, rfl⟩, hat.eq_slice,
      rfl⟩

theorem recognises_atomLen :
    Recognises inp.buffer (atomLen inp) fun bs len ↦ ∃ s, stringText bs s ∧ len = s.length := by
  refine recognises_string fun off len a off' _ hoff ↦ ?_
  split_ifs with hlen
  · rw [load_pure_iff, Prod.mk.injEq]
    constructor
    · rintro ⟨rfl, rfl⟩
      exact ⟨[], hlen.symm, at_nil, rfl, by rw [hlen, Nat.add_zero]⟩
    · rintro ⟨s, rfl, -, rfl, rfl⟩
      exact ⟨hlen, by rw [hlen, Nat.add_zero]⟩
  · simp only [load_bind_iff, needBytes_iff, rdSkip_iff, load_pure_iff, Prod.mk.injEq,
      bytesLeft_iff hoff]
    constructor
    · rintro ⟨_, _, ⟨⟨s, rfl, hat⟩, -, rfl⟩, _, _, ⟨-, rfl⟩, rfl, rfl⟩
      exact ⟨s, rfl, hat, rfl, rfl⟩
    · rintro ⟨s, rfl, hat, rfl, rfl⟩
      exact ⟨(), off, ⟨⟨s, rfl, hat⟩, trivial, rfl⟩, (), _, ⟨trivial, rfl⟩, rfl, rfl⟩

theorem recognises_atomBytes (expected : ℕ) : Recognises inp.buffer (atomBytes inp expected)
    fun bs s ↦ stringText bs s ∧ s.length = expected := by
  refine (recognises_string (P := fun s a ↦ a = s ∧ s.length = expected)
    fun off len a off' _ hoff ↦ ?_).congr
    fun bs a ↦ ⟨fun ⟨_, h, ha, he⟩ ↦ ha ▸ ⟨h, he⟩, fun h ↦ ⟨a, h.1, rfl, h.2⟩⟩
  rw [load_bind_iff]
  simp only [bailIf_iff, Prod.mk.injEq, not_not]
  split_ifs with hlen
  · simp only [load_pure_iff, Prod.mk.injEq]
    constructor
    · rintro ⟨_, _, ⟨rfl, -, rfl⟩, rfl, rfl⟩
      exact ⟨[], hlen.symm, at_nil, ⟨rfl, hlen.symm⟩, by rw [hlen, Nat.add_zero]⟩
    · rintro ⟨s, rfl, -, ⟨rfl, rfl⟩, rfl⟩
      exact ⟨(), off, ⟨rfl, trivial, rfl⟩, List.eq_nil_of_length_eq_zero hlen, by
        rw [hlen, Nat.add_zero]⟩
  · simp only [load_bind_iff, needBytes_iff, takeBytes_iff, Prod.mk.injEq]
    constructor
    · rintro ⟨_, _, ⟨rfl, -, rfl⟩, _, _, ⟨hroom, -, rfl⟩, rfl, rfl⟩
      obtain ⟨s, rfl, hat⟩ := (bytesLeft_iff hoff).mp hroom
      exact ⟨s, rfl, hat, ⟨hat.eq_slice.symm, rfl⟩, rfl⟩
    · rintro ⟨s, rfl, hat, ⟨rfl, rfl⟩, rfl⟩
      have hroom := (bytesLeft_iff hoff).mpr ⟨a, rfl, hat⟩
      exact ⟨(), off, ⟨rfl, trivial, rfl⟩, (), off, ⟨hroom, trivial, rfl⟩, hat.eq_slice, rfl⟩

end Primitives

section Strings

variable {inp : BcInput}

theorem allocAt_ok (hmem : inp.Plenty) {msg : String} {at' off : ℕ} :
    allocAt inp msg at' off = .ok ((), off) := allocAt_iff.mpr ⟨hmem _ _, rfl⟩

theorem alloc_ok (hmem : inp.Plenty) {msg : String} {off : ℕ} :
    alloc inp msg off = .ok ((), off) := alloc_iff.mpr ⟨hmem _ _, rfl⟩

theorem recognises_readAtoms (hmem : inp.Plenty) (h : BcHeader) :
    Recognises inp.buffer (readAtoms inp h) fun bs atoms ↦
      atoms.length = h.natoms ∧ stringText.many bs atoms := by
  have hpass (lens : List ℕ) : Recognises inp.buffer
      (each (fun i ↦ atomBytes inp (lens.getD i 0)) 0 h.natoms) fun bs atoms ↦
        atoms.length = h.natoms ∧ stringText.many bs atoms ∧
          ∀ j s, atoms[j]? = some s → s.length = lens.getD (0 + j) 0 :=
    recognises_rounds (fun i ↦ recognises_atomBytes (lens.getD i 0)) h.natoms 0
  intro off atoms off'
  unfold readAtoms
  split_ifs with hn
  · have hempty : Recognises inp.buffer (pure [] : LoadM (List (List UInt8))) fun bs atoms ↦
        atoms.length = h.natoms ∧ stringText.many bs atoms := by
      refine (recognises_pure []).congr fun bs as ↦ ?_
      rw [hn]
      constructor
      · rintro ⟨rfl, rfl⟩
        exact ⟨rfl, many_nil.mpr rfl⟩
      · rintro ⟨hlen, htext⟩
        obtain rfl := List.length_eq_zero_iff.mp hlen
        exact ⟨many_nil.mp htext, rfl⟩
    exact hempty off atoms off'
  · constructor
    · intro hrun
      obtain ⟨start, off₁, hget, h₁⟩ := load_bind_iff.mp hrun
      obtain ⟨rfl, rfl⟩ := Prod.mk.inj (load_get_iff.mp hget)
      obtain ⟨_, off₂, -, h₂⟩ := load_bind_iff.mp h₁
      obtain ⟨lens, off₃, -, h₃⟩ := load_bind_iff.mp h₂
      obtain ⟨_, off₄, -, h₄⟩ := load_bind_iff.mp h₃
      obtain ⟨_, off₅, -, h₅⟩ := load_bind_iff.mp h₄
      obtain ⟨_, off₆, hset, h₆⟩ := load_bind_iff.mp h₅
      obtain ⟨-, rfl⟩ := Prod.mk.inj (load_set_iff.mp hset)
      obtain ⟨bs, ⟨hlen, htext, -⟩, hat, hoff⟩ := (hpass lens _ _ _).mp h₆
      exact ⟨bs, ⟨hlen, htext⟩, hat, hoff⟩
    · rintro ⟨bs, ⟨hlen, htext⟩, hat, rfl⟩
      have hlens : Grammar.many (fun bs len ↦ ∃ s, stringText bs s ∧ len = s.length) bs
          (atoms.map List.length) := many_map htext fun bs s hs ↦ ⟨s, hs, rfl⟩
      have hfirst := (recognises_each (fun _ ↦ recognises_atomLen) h.natoms 0).ok
        ⟨by rw [List.length_map, hlen], hlens⟩ hat
      refine load_bind_iff.mpr ⟨off, off, rfl, load_bind_iff.mpr ⟨_, off, alloc_ok hmem, ?_⟩⟩
      refine load_bind_iff.mpr ⟨_, _, hfirst, load_bind_iff.mpr ⟨_, _, allocAt_ok hmem, ?_⟩⟩
      refine load_bind_iff.mpr ⟨_, _, allocAt_ok hmem, load_bind_iff.mpr ⟨_, off, rfl, ?_⟩⟩
      refine (hpass _).ok ⟨hlen, htext, fun j s hj ↦ ?_⟩ hat
      rw [Nat.zero_add, List.getD_eq_getElem?_getD, List.getElem?_map, hj]
      rfl

end Strings

section Entries

variable {inp : BcInput}

theorem toNat_word64 (lo hi : UInt32) :
    (lo.toUInt64 ||| hi.toUInt64 <<< 32).toNat = lo.toNat + 2 ^ 32 * hi.toNat := by
  have hlo := lo.toNat_lt
  have hhi := hi.toNat_lt
  have hamount : (32 : UInt64).toNat % 64 = 32 := rfl
  have hlt : hi.toNat <<< 32 < 2 ^ 64 := by
    rw [Nat.shiftLeft_eq]
    omega
  rw [UInt64.toNat_or, UInt64.toNat_shiftLeft, hamount, UInt32.toNat_toUInt64,
    UInt32.toNat_toUInt64, Nat.mod_eq_of_lt hlt, Nat.or_comm,
    ← Nat.shiftLeft_add_eq_or_of_lt hlo, Nat.shiftLeft_eq]
  omega

theorem bytesLE_word64 (lo hi : UInt32) : bytesLE 8 (lo.toUInt64 ||| hi.toUInt64 <<< 32).toNat =
    bytesLE 4 lo.toNat ++ bytesLE 4 hi.toNat := by
  have hlo := lo.toNat_lt
  have hword : (256 : ℕ) ^ 4 = 2 ^ 32 := by norm_num
  have hlow : (lo.toNat + 2 ^ 32 * hi.toNat) % 2 ^ 32 = lo.toNat := by omega
  have hhigh : (lo.toNat + 2 ^ 32 * hi.toNat) / 2 ^ 32 = hi.toNat := by omega
  rw [toNat_word64, bytesLE_add 4 4, hword, hhigh, ← bytesLE_mod 4, hword, hlow]

theorem word64_halves (v : UInt64) :
    v.toUInt32.toUInt64 ||| (v >>> 32).toUInt32.toUInt64 <<< 32 = v := by
  have hlt := v.toNat_lt
  have hamount : (32 : UInt64).toNat % 64 = 32 := rfl
  rw [← UInt64.toNat_inj, toNat_word64, UInt64.toNat_toUInt32, UInt64.toNat_toUInt32,
    UInt64.toNat_shiftRight, hamount, Nat.shiftRight_eq_div_pow]
  omega

theorem recognises_readWord64 : Recognises inp.buffer (readWord64 inp) word64Text := by
  refine (recognises_bind recognises_rdU32 fun lo ↦ recognises_then recognises_rdU32 fun hi ↦
    recognises_pure (lo.toUInt64 ||| hi.toUInt64 <<< 32)).congr fun bs v ↦ ?_
  constructor
  · rintro ⟨lo, _, _, rfl, rfl, hi, rfl, rfl⟩
    exact (bytesLE_word64 lo hi).symm
  · intro hbs
    refine ⟨v.toUInt32, _, _, ?_, rfl, (v >>> 32).toUInt32, rfl, (word64_halves v).symm⟩
    rw [hbs, ← bytesLE_word64, word64_halves]

theorem recognises_readConst64 (hmem : inp.Plenty) (msg : String) (n : ℕ) :
    Recognises inp.buffer (readConst64 inp msg n) fun bs vs ↦
      vs.length = n ∧ word64Text.many bs vs :=
  recognises_readTable hmem (recognises_each (fun _ ↦ recognises_readWord64) n 0)

theorem recognises_readSourceFiles (hmem : inp.Plenty) :
    Recognises inp.buffer (readSourceFiles inp) fun bs files ↦ ∃ texts,
      files.length < 2 ^ 32 ∧ stringText.many texts files ∧
        bs = fileWord files.length ++ texts := by
  refine (recognises_bind recognises_readWord fun n ↦ recognises_readTable hmem
    (recognises_each (fun _ ↦ recognises_readSourceFile hmem) n 0)).congr fun bs files ↦ ?_
  constructor
  · rintro ⟨_, _, texts, rfl, ⟨hlt, rfl⟩, rfl, htexts⟩
    exact ⟨texts, hlt, htexts, rfl⟩
  · rintro ⟨texts, hlt, htexts, rfl⟩
    exact ⟨_, _, texts, rfl, ⟨hlt, rfl⟩, rfl, htexts⟩

theorem readType_eq (h : BcHeader) : readType inp h = (do
    let code ← orFree (rdU8 inp)
    let _ ← orFree (rdU8 inp)
    let _ ← orFree (rdU16 inp)
    let p₀ ← readWord inp
    let _ ← readWord inp
    (Kind.ofCode code).elim (bail .badFormat "unknown type kind" 0) fun kind ↦ do
      check (validateTypeEntry h.module ⟨kind, if kind.hasParam then p₀ else 0⟩)
      pure ⟨kind, if kind.hasParam then p₀ else 0⟩) := by
  unfold readType
  refine bind_congr fun code ↦ bind_congr fun _ ↦ bind_congr fun _ ↦ bind_congr fun p₀ ↦
    bind_congr fun _ ↦ ?_
  cases Kind.ofCode code with
  | none => rfl
  | some kind => cases kind <;> rfl

theorem recognises_readType (h : BcHeader) : Recognises inp.buffer (readType inp h) fun bs t ↦
    typeText bs t ∧ validateTypeEntry h.module t = .ok () := by
  have hrest (code : UInt8) (p₀ : ℕ) : Recognises inp.buffer
      ((Kind.ofCode code).elim (bail .badFormat "unknown type kind" 0) fun kind ↦ do
        check (validateTypeEntry h.module ⟨kind, if kind.hasParam then p₀ else 0⟩)
        pure ⟨kind, if kind.hasParam then p₀ else 0⟩ : LoadM TypeEntry)
      (.only fun t ↦ Kind.ofCode code = some t.kind ∧
        t.param = (if t.kind.hasParam then p₀ else 0) ∧
        validateTypeEntry h.module t = .ok ()) := by
    cases hcode : Kind.ofCode code with
    | none => exact recognises_bail.congr fun bs t ↦ by simp [Grammar.only]
    | some kind =>
      refine (recognises_then recognises_check fun _ ↦ recognises_pure _).congr fun bs t ↦ ?_
      constructor
      · rintro ⟨_, ⟨rfl, hcheck⟩, rfl⟩
        exact ⟨rfl, rfl, rfl, hcheck⟩
      · obtain ⟨kind', param⟩ := t
        rintro ⟨rfl, hk, hp, hcheck⟩
        obtain rfl : kind = kind' := Option.some.inj hk
        change param = _ at hp
        rw [hp] at hcheck ⊢
        exact ⟨(), ⟨rfl, hcheck⟩, rfl⟩
  rw [readType_eq]
  refine (recognises_bind recognises_rdU8 fun code ↦ recognises_bind recognises_rdU8 fun _ ↦
    recognises_bind recognises_rdU16 fun _ ↦ recognises_bind recognises_readWord fun p₀ ↦
      recognises_then recognises_readWord fun _ ↦ hrest code p₀).congr fun bs t ↦ ?_
  constructor
  · rintro ⟨code, _, _, rfl, rfl, pad₁, _, _, rfl, rfl, pad₂, _, _, rfl, rfl, p₀, _, _, rfl,
      ⟨hp₀, rfl⟩, p₁, ⟨hp₁, rfl⟩, hk, hp, hcheck⟩
    exact ⟨⟨code, pad₁, pad₂, p₀, p₁, hp₀, hp₁, by simp, hk, hp⟩, hcheck⟩
  · rintro ⟨⟨code, pad₁, pad₂, p₀, p₁, hp₀, hp₁, rfl, hk, hp⟩, hcheck⟩
    exact ⟨code, _, _, by simp, rfl, pad₁, _, _, rfl, rfl, pad₂, _, _, rfl, rfl, p₀, _, _, rfl,
      ⟨hp₀, rfl⟩, p₁, ⟨hp₁, rfl⟩, hk, hp, hcheck⟩

theorem recognises_readTypeId (h : BcHeader) (msg : String) :
    Recognises inp.buffer (readTypeId inp h msg) fun bs tid ↦ wordText bs tid ∧ tid < h.ntypes := by
  refine (recognises_bind recognises_readWord fun tid ↦ recognises_then recognises_bailIf
    fun _ ↦ recognises_pure tid).congr fun bs tid ↦ ?_
  constructor
  · rintro ⟨_, bs₁, _, rfl, hword, _, ⟨rfl, hlt⟩, rfl⟩
    exact ⟨by rwa [List.append_nil], Nat.not_le.mp hlt⟩
  · rintro ⟨hword, hlt⟩
    exact ⟨tid, bs, [], (List.append_nil bs).symm, hword, (), ⟨rfl, Nat.not_le.mpr hlt⟩, rfl⟩

theorem recognises_readTypeIds (hmem : inp.Plenty) (h : BcHeader) (msg oom : String) (n : ℕ) :
    Recognises inp.buffer (readTable inp oom n fun _ ↦ readTypeId inp h msg) fun bs tids ↦
      tids.length = n ∧ wordText.many bs tids ∧ ∀ tid ∈ tids, tid < h.ntypes :=
  (recognises_readTable hmem (recognises_each (fun _ ↦ recognises_readTypeId h msg) n 0)).congr
    fun _ _ ↦ and_congr_right fun _ ↦ many_and

theorem recognises_readSig (hmem : inp.Plenty) (h : BcHeader) :
    Recognises inp.buffer (readSig inp h) fun bs sig ↦
      sigText bs sig ∧ validateSig h.module sig = .ok () := by
  have hvalid (sig : FunSig) : validateSig h.module sig = .ok () ↔
      sig.ret < h.ntypes ∧ ∀ tid ∈ sig.args, tid < h.ntypes := by
    simp [validateSig, BcHeader.module]
  refine (recognises_bind recognises_readWord fun ret ↦ recognises_bind recognises_rdU16 fun nargs ↦
    recognises_bind recognises_rdU16 fun _ ↦ recognises_after recognises_bailIf fun _ ↦
      recognises_then (recognises_readTypeIds hmem h _ _ nargs.toNat) fun args ↦
        recognises_pure _).congr fun bs sig ↦ ?_
  rw [hvalid]
  constructor
  · rintro ⟨ret, _, _, rfl, ⟨hret, rfl⟩, nargs, _, _, rfl, rfl, pad, _, args, rfl, rfl, _, hlt,
      tids, ⟨hlen, htids, hall⟩, rfl⟩
    refine ⟨⟨pad, args, hret, hlen ▸ nargs.toNat_lt, htids, ?_⟩, Nat.not_le.mp hlt, hall⟩
    rw [hlen]
    simp
  · obtain ⟨ret, tids⟩ := sig
    rintro ⟨⟨pad, args, hret, hnargs, htids, rfl⟩, hlt, hall⟩
    have hn : (UInt16.ofNat tids.length).toNat = tids.length := UInt16.toNat_ofNat_of_lt' hnargs
    refine ⟨ret, _, _, ?_, ⟨hret, rfl⟩, UInt16.ofNat tids.length, _, _, rfl, rfl, pad, _, args, rfl,
      rfl, (), Nat.not_le.mpr hlt, tids, ⟨hn.symm, htids, hall⟩, rfl⟩
    rw [hn]
    simp

theorem recognises_readLine (features : Features) :
    Recognises inp.buffer (readLine inp features) (lineText features.lineCol) := by
  unfold readLine
  split_ifs with hcol
  · rw [hcol]
    exact recognises_rdU32
  · have hoff : features.lineCol = false := by simpa using hcol
    refine (recognises_then recognises_rdU16 fun line ↦ recognises_pure _).congr fun bs v ↦ ?_
    rw [hoff]
    constructor
    · rintro ⟨line, rfl, rfl⟩
      rw [lineText, if_neg Bool.false_ne_true, UInt16.toNat_toUInt32]
      exact ⟨line.toNat_lt, rfl⟩
    · rintro ⟨hlt, rfl⟩
      refine ⟨v.toUInt16, ?_, ?_⟩
      · rw [UInt32.toNat_toUInt16, Nat.mod_eq_of_lt hlt]
      · rw [← UInt32.toNat_inj, UInt16.toNat_toUInt32, UInt32.toNat_toUInt16, Nat.mod_eq_of_lt hlt]

theorem readInsn_eq (m : JelloBcModule) (regTypes : List ℕ) (ninsns pc : ℕ) :
    readInsn inp m regTypes ninsns pc = (do
      let code ← orFree (rdU8 inp)
      let a ← orFree (rdU8 inp)
      let b ← orFree (rdU8 inp)
      let c ← orFree (rdU8 inp)
      let imm ← orFree (rdU32 inp)
      (JelloOp.ofCode code).elim (bail .badFormat "unknown opcode" 0) fun op ↦ do
        check (jelloBcValidateInsn m (announced regTypes ninsns) ⟨op, a, b, c, imm⟩ pc)
        pure ⟨op, a, b, c, imm⟩) := by
  unfold readInsn
  refine bind_congr fun code ↦ bind_congr fun a ↦ bind_congr fun b ↦ bind_congr fun c ↦
    bind_congr fun imm ↦ ?_
  cases JelloOp.ofCode code <;> rfl

theorem recognises_readInsn (m : JelloBcModule) (regTypes : List ℕ) (ninsns pc : ℕ) :
    Recognises inp.buffer (readInsn inp m regTypes ninsns pc) fun bs ins ↦ insnText bs ins ∧
      jelloBcValidateInsn m (announced regTypes ninsns) ins pc = .ok () := by
  have hrest (code a b c : UInt8) (imm : UInt32) : Recognises inp.buffer
      ((JelloOp.ofCode code).elim (bail .badFormat "unknown opcode" 0) fun op ↦ do
        check (jelloBcValidateInsn m (announced regTypes ninsns) ⟨op, a, b, c, imm⟩ pc)
        pure ⟨op, a, b, c, imm⟩ : LoadM JelloInsn)
      (.only fun ins ↦ JelloOp.ofCode code = some ins.op ∧
        (ins.a = a ∧ ins.b = b ∧ ins.c = c ∧ ins.imm = imm) ∧
        jelloBcValidateInsn m (announced regTypes ninsns) ins pc = .ok ()) := by
    cases hcode : JelloOp.ofCode code with
    | none => exact recognises_bail.congr fun bs t ↦ by simp [Grammar.only]
    | some op =>
      refine (recognises_then recognises_check fun _ ↦ recognises_pure _).congr fun bs ins ↦ ?_
      constructor
      · rintro ⟨_, ⟨rfl, hcheck⟩, rfl⟩
        exact ⟨rfl, rfl, ⟨rfl, rfl, rfl, rfl⟩, hcheck⟩
      · obtain ⟨op', a', b', c', imm'⟩ := ins
        rintro ⟨rfl, hop, ⟨rfl, rfl, rfl, rfl⟩, hcheck⟩
        obtain rfl : op = op' := Option.some.inj hop
        exact ⟨(), ⟨rfl, hcheck⟩, rfl⟩
  rw [readInsn_eq]
  refine (recognises_bind recognises_rdU8 fun code ↦ recognises_bind recognises_rdU8 fun a ↦
    recognises_bind recognises_rdU8 fun b ↦ recognises_bind recognises_rdU8 fun c ↦
      recognises_then recognises_rdU32 fun imm ↦ hrest code a b c imm).congr fun bs ins ↦ ?_
  constructor
  · rintro ⟨code, _, _, rfl, rfl, a, _, _, rfl, rfl, b, _, _, rfl, rfl, c, _, _, rfl, rfl, imm, rfl,
      hop, ⟨rfl, rfl, rfl, rfl⟩, hcheck⟩
    exact ⟨⟨code, hop, rfl⟩, hcheck⟩
  · rintro ⟨⟨code, hop, rfl⟩, hcheck⟩
    exact ⟨code, [code], _, rfl, rfl, ins.a, [ins.a], _, rfl, rfl, ins.b, [ins.b], _, rfl, rfl,
      ins.c, [ins.c], _, rfl, rfl, ins.imm, rfl, hop, ⟨rfl, rfl, rfl, rfl⟩, hcheck⟩

/-- The validator of an instruction knows the function by its registers and its number of
instructions, and the module by its tables. -/
theorem validateInsn_congr {m m' : JelloBcModule} {fn fn' : JelloBcFunction} (ins : JelloInsn)
    (pc : ℕ) (hregs : fn'.regTypes = fn.regTypes) (hn : fn'.ninsns = fn.ninsns)
    (htypes : m'.types = m.types) (hatoms : m'.atoms = m.atoms) (hi64 : m'.constI64 = m.constI64)
    (hf64 : m'.constF64 = m.constF64) (hbytes : m'.constBytes = m.constBytes)
    (hfuncs : m'.funcs.length = m.funcs.length) :
    jelloBcValidateInsn m' fn' ins pc = jelloBcValidateInsn m fn ins pc := by
  have hnregs : fn'.nregs = fn.nregs := congrArg List.length hregs
  have hreg : fn'.regType = fn.regType := by
    funext r
    rw [JelloBcFunction.regType, hregs]
    rfl
  have htype : m'.type = m.type := by
    funext tid
    rw [JelloBcModule.type, htypes]
    rfl
  have hrk : rk m' fn' = rk m fn := by
    funext r
    rw [rk, hreg, htype]
    rfl
  have helem : elemOf m' fn' = elemOf m fn := by
    funext r
    rw [elemOf, hreg, htype]
    rfl
  have henum : isEnumReg m' fn' = isEnumReg m fn := by
    funext r
    rw [isEnumReg, hrk, hreg, htype]
    rfl
  simp only [jelloBcValidateInsn, regA, regAB, regABC, constOf, unOf, convOf, fromDynOf, binOf,
    arithOf, cmpI32Of, keyedOf, atomOf, funcOf, targetOf, arrayElemOf, constI32Range, assertMsgOf,
    indirectOf, directOf, henum, hnregs, hn, hreg, htype, hrk, helem, htypes, hatoms, hi64,
    hf64, hbytes, hfuncs]

end Entries

section Functions

variable {inp : BcInput} {m : JelloBcModule} {fn : JelloBcFunction}

theorem validateInsns_iff {insns : List JelloInsn} {start : ℕ} :
    validateInsns m fn start insns = .ok () ↔
      ∀ j ins, insns[j]? = some ins → jelloBcValidateInsn m fn ins (start + j) = .ok () := by
  refine ⟨fun h j ins hj ↦ validateInsns_get h hj, fun h ↦ ?_⟩
  induction insns generalizing start with
  | nil => rfl
  | cons ins insns ih =>
    simp only [validateInsns, verdict_bind_ok]
    refine ⟨h 0 ins rfl, ih fun j ins' hj ↦ ?_⟩
    have hs := h (j + 1) ins' hj
    rwa [Nat.add_comm j 1, ← Nat.add_assoc] at hs

theorem validateInsns_announced {insns : List JelloInsn} {start : ℕ} :
    validateInsns m (announced fn.regTypes fn.ninsns) start insns =
      validateInsns m fn start insns := by
  induction insns generalizing start with
  | nil => rfl
  | cons ins insns ih =>
    have hn : (announced fn.regTypes fn.ninsns).ninsns = fn.ninsns := List.length_replicate ..
    have hins : jelloBcValidateInsn m (announced fn.regTypes fn.ninsns) ins start =
        jelloBcValidateInsn m fn ins start :=
      validateInsn_congr ins start rfl hn rfl rfl rfl rfl rfl rfl
    rw [validateInsns, validateInsns, hins, ih]

theorem recognises_readFileId : Recognises inp.buffer (readFileId inp) halfText := by
  refine (recognises_then recognises_rdU16 fun f ↦ recognises_pure _).congr fun bs n ↦ ?_
  constructor
  · rintro ⟨f, rfl, rfl⟩
    exact ⟨f.toNat_lt, rfl⟩
  · rintro ⟨hn, rfl⟩
    have hf : (UInt16.ofNat n).toNat = n := UInt16.toNat_ofNat_of_lt' hn
    exact ⟨UInt16.ofNat n, by rw [hf], hf.symm⟩

theorem recognises_readInsns (hmem : inp.Plenty) (regTypes : List ℕ) (ninsns : ℕ) :
    Recognises inp.buffer
      (readTable inp "oom insns" ninsns fun pc ↦ readInsn inp m regTypes ninsns pc) fun bs insns ↦
        insns.length = ninsns ∧ insnText.many bs insns ∧
          validateInsns m (announced regTypes ninsns) 0 insns = .ok () := by
  refine (recognises_readTable hmem (recognises_rounds
    (fun pc ↦ recognises_readInsn m regTypes ninsns pc) ninsns 0)).congr fun bs insns ↦ ?_
  rw [validateInsns_iff]

theorem recognises_checkSemantics : Recognises inp.buffer (checkSemantics fn)
    (.only fun _ ↦ jelloBcValidateFunctionSemantics fn = .ok ()) := by
  unfold checkSemantics
  split_ifs with hn
  · have hinsns : fn.insns = [] := List.length_eq_zero_iff.mp hn
    have hok : jelloBcValidateFunctionSemantics fn = .ok () := by
      simp [jelloBcValidateFunctionSemantics, validateSwitchKindTables, validateTryStackLinear,
        hinsns, switchKindTables, tryStackLinear]
    exact (recognises_pure ()).congr fun bs u ↦ by simp [Grammar.only, hok]
  · exact recognises_check

theorem validateFunction_iff : validateFunction m fn = .ok () ↔
    fn.nregs ≤ 256 ∧ (∀ tid ∈ fn.regTypes, tid < m.types.length) ∧
      validateInsns m fn 0 fn.insns = .ok () ∧ jelloBcValidateFunctionSemantics fn = .ok () := by
  simp only [validateFunction, verdict_bind_ok, require_ok, checkAll_ok]

theorem recognises_checked (fn : JelloBcFunction) : Recognises inp.buffer
    (do checkSemantics fn; pure fn : LoadM JelloBcFunction)
    (.only fun fn' ↦ jelloBcValidateFunctionSemantics fn = .ok () ∧ fn' = fn) := by
  refine (recognises_after recognises_checkSemantics fun _ ↦ recognises_pure fn).congr
    fun bs fn' ↦ ?_
  constructor
  · rintro ⟨_, hok, rfl, rfl⟩
    exact ⟨rfl, hok, rfl⟩
  · rintro ⟨rfl, hok, rfl⟩
    exact ⟨(), hok, rfl, rfl⟩

theorem recognises_readFunction (hmem : inp.Plenty) (h : BcHeader)
    (hn : h.ntypes = m.types.length) : Recognises inp.buffer (readFunction inp h m) fun bs fn ↦
      functionText h.features bs fn ∧ validateFunction m fn = .ok () := by
  refine (recognises_bind recognises_readWord fun nregs ↦
    recognises_bind (recognises_optional recognises_readWord) fun capStart ↦
    recognises_bind recognises_readWord fun ninsns ↦
    recognises_after recognises_bailIf fun _ ↦
    recognises_bind (recognises_readTypeIds hmem h _ _ nregs) fun regTypes ↦
    recognises_bind (recognises_optional recognises_readFileId) fun sourceFile ↦
    recognises_bind (recognises_optional (recognises_readTable hmem
      (recognises_each (fun _ ↦ recognises_readLine h.features) ninsns 0))) fun lines ↦
    recognises_then (recognises_readInsns hmem regTypes ninsns) fun insns ↦
      recognises_checked _).congr fun bs fn ↦ ?_
  rw [validateFunction_iff, hn]
  constructor
  · rintro ⟨nregs, _, _, rfl, ⟨hnregs, rfl⟩, capStart, cap, _, rfl, hcap, ninsns, _, _, rfl,
      ⟨hninsns, rfl⟩, _, hle, regTypes, regs, _, rfl, ⟨hlen, hregs, hall⟩, sourceFile, file, _, rfl,
      hfile, lines, ls, insns, rfl, hlines, is, ⟨hlen', hinsns, hvalid⟩, hsem, rfl⟩
    subst hlen hlen'
    refine ⟨⟨cap, regs, file, ls, insns, hnregs, hninsns, hcap, hregs, hfile, hlines, hinsns, ?_⟩,
      Nat.not_lt.mp hle, hall, ?_, hsem⟩
    · simp [JelloBcFunction.nregs, JelloBcFunction.ninsns]
    · exact validateInsns_announced.symm.trans hvalid
  · obtain ⟨regTypes, capStart, is, sourceFile, lines⟩ := fn
    rintro ⟨⟨cap, regs, file, ls, insns, hnregs, hninsns, hcap, hregs, hfile, hlines, hinsns, rfl⟩,
      hle, hall, hvalid, hsem⟩
    exact ⟨_, _, _, by simp, ⟨hnregs, rfl⟩, capStart, cap, _, rfl, hcap, _, _, _, rfl,
      ⟨hninsns, rfl⟩, (), Nat.not_lt.mpr hle, regTypes, regs, _, rfl, ⟨rfl, hregs, hall⟩,
      sourceFile, file, _, rfl,
      hfile, lines, ls, insns, rfl, hlines, is, ⟨rfl, hinsns, validateInsns_announced.trans hvalid⟩,
      hsem, rfl⟩

end Functions

end JelloVM
