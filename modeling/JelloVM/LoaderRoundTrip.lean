import JelloVM.LoaderModule

namespace JelloVM

open LittleEndian Recogniser

section Bytes

def Kind.code (k : Kind) : UInt8 := UInt8.ofNat (k.ctorIdx + 1)

def JelloOp.code (op : JelloOp) : UInt8 := UInt8.ofNat op.ctorIdx

theorem Kind.ofCode_code (k : Kind) : Kind.ofCode k.code = some k := by cases k <;> rfl

theorem JelloOp.ofCode_code (op : JelloOp) : JelloOp.ofCode op.code = some op := by
  cases op <;> rfl

def Features.bits (f : Features) : UInt32 :=
  (if f.const64 then 1 else 0) ||| (if f.constBytes then 2 else 0) |||
    (if f.capStart then 4 else 0) ||| (if f.lineTable then 8 else 0) |||
      (if f.lineCol then 16 else 0)

theorem Features.ofBits_bits (f : Features) : Features.ofBits f.bits = f := by
  obtain ⟨const64, constBytes, capStart, lineTable, lineCol⟩ := f
  cases const64 <;> cases constBytes <;> cases capStart <;> cases lineTable <;> cases lineCol <;>
    rfl

/-- The bytes of a part that is there with a feature only. -/
def bytesWhen (present : Bool) (bs : List UInt8) : List UInt8 := if present then bs else []

def stringBytes (s : List UInt8) : List UInt8 := fileWord s.length ++ s

/-- Padding is written as zero. -/
def TypeEntry.bytes (t : TypeEntry) : List UInt8 :=
  [t.kind.code, 0] ++ bytesLE 2 0 ++ fileWord t.param ++ fileWord 0

def FunSig.bytes (sig : FunSig) : List UInt8 :=
  fileWord sig.ret ++ bytesLE 2 sig.args.length ++ bytesLE 2 0 ++ sig.args.flatMap fileWord

def lineBytes (lineCol : Bool) (line : UInt32) : List UInt8 :=
  if lineCol then bytesLE 4 line.toNat else bytesLE 2 line.toNat

def JelloInsn.bytes (ins : JelloInsn) : List UInt8 :=
  [ins.op.code, ins.a, ins.b, ins.c] ++ bytesLE 4 ins.imm.toNat

def JelloBcFunction.bytes (features : Features) (fn : JelloBcFunction) : List UInt8 :=
  fileWord fn.nregs ++ bytesWhen features.capStart (fileWord fn.capStart) ++ fileWord fn.ninsns ++
    fn.regTypes.flatMap fileWord ++ bytesWhen features.lineTable (bytesLE 2 fn.sourceFile) ++
    bytesWhen features.lineTable (fn.lines.flatMap (lineBytes features.lineCol)) ++
    fn.insns.flatMap JelloInsn.bytes

def BcHeader.bytes (h : BcHeader) : List UInt8 :=
  fileWord 1 ++ bytesLE 4 h.features.bits.toNat ++ fileWord h.ntypes ++ fileWord h.nsigs ++
    fileWord h.natoms ++ fileWord h.nfuncs ++ fileWord h.entry ++
    bytesWhen h.features.const64 (fileWord h.nconstI64) ++
    bytesWhen h.features.const64 (fileWord h.nconstF64) ++
    bytesWhen h.features.constBytes (fileWord h.nconstBytes)

def JelloBcModule.bodyBytes (m : JelloBcModule) : List UInt8 :=
  m.types.flatMap TypeEntry.bytes ++ m.sigs.flatMap FunSig.bytes ++ m.atoms.flatMap stringBytes ++
    bytesWhen m.features.const64 (m.constI64.flatMap fun v ↦ bytesLE 8 v.toNat) ++
    bytesWhen m.features.const64 (m.constF64.flatMap fun v ↦ bytesLE 8 v.toNat) ++
    bytesWhen m.features.constBytes (m.constBytes.flatMap stringBytes) ++
    bytesWhen m.features.lineTable
      (fileWord m.sourceFiles.length ++ m.sourceFiles.flatMap stringBytes) ++
    m.funcs.flatMap (JelloBcFunction.bytes m.features)

def JelloBcModule.bytes (m : JelloBcModule) : List UInt8 :=
  bytesLE 4 bcMagic.toNat ++ m.header.bytes ++ m.bodyBytes

end Bytes

section Fits

/-- A value of a part of the file: what fits there, and what it is without the part. -/
def FitsWhen {α : Type} (present : Bool) (P : α → Prop) (absent a : α) : Prop :=
  if present then P a else a = absent

structure TypeEntry.Fits (t : TypeEntry) : Prop where
  param : t.param < 2 ^ 32
  unused : t.kind.hasParam = false → t.param = 0

structure FunSig.Fits (sig : FunSig) : Prop where
  ret : sig.ret < 2 ^ 32
  nargs : sig.args.length < 2 ^ 16
  args : ∀ tid ∈ sig.args, tid < 2 ^ 32

/-- The lines of the instructions, of half a word each without columns. -/
structure LinesFit (features : Features) (ninsns : ℕ) (lines : List UInt32) : Prop where
  length : lines.length = ninsns
  narrow : features.lineCol = false → ∀ line ∈ lines, line.toNat < 2 ^ 16

structure JelloBcFunction.Fits (features : Features) (fn : JelloBcFunction) : Prop where
  nregs : fn.nregs < 2 ^ 32
  ninsns : fn.ninsns < 2 ^ 32
  regTypes : ∀ tid ∈ fn.regTypes, tid < 2 ^ 32
  capStart : FitsWhen features.capStart (· < 2 ^ 32) 0 fn.capStart
  sourceFile : FitsWhen features.lineTable (· < 2 ^ 16) 0 fn.sourceFile
  lines : FitsWhen features.lineTable (LinesFit features fn.ninsns) [] fn.lines

/-- A table of strings, with its number in a word. -/
structure StringsFit (ss : List (List UInt8)) : Prop where
  count : ss.length < 2 ^ 32
  lengths : ∀ s ∈ ss, s.length < 2 ^ 32

/-- A file can hold the module. -/
structure JelloBcModule.Fits (m : JelloBcModule) : Prop where
  ntypes : m.types.length < 2 ^ 32
  nsigs : m.sigs.length < 2 ^ 32
  nfuncs : m.funcs.length < 2 ^ 32
  entry : m.entry < m.funcs.length
  types : ∀ t ∈ m.types, t.Fits
  sigs : ∀ sig ∈ m.sigs, sig.Fits
  atoms : StringsFit m.atoms
  constI64 : FitsWhen m.features.const64 (·.length < 2 ^ 32) [] m.constI64
  constF64 : FitsWhen m.features.const64 (·.length < 2 ^ 32) [] m.constF64
  constBytes : FitsWhen m.features.constBytes StringsFit [] m.constBytes
  sourceFiles : FitsWhen m.features.lineTable StringsFit [] m.sourceFiles
  funcs : ∀ fn ∈ m.funcs, fn.Fits m.features

end Fits

section Texts

theorem whenText_bytes {α : Type} {present : Bool} {G : Grammar α} {P : α → Prop} {absent a : α}
    {bs : List UInt8} (h : FitsWhen present P absent a) (hG : P a → G bs a) :
    whenText present G absent (bytesWhen present bs) a := by
  cases present with
  | false => exact ⟨rfl, h⟩
  | true => exact hG h

theorem TypeEntry.text (t : TypeEntry) (h : t.Fits) : typeText t.bytes t := by
  refine ⟨t.kind.code, 0, 0, t.param, 0, h.param, Nat.two_pow_pos 32, rfl, Kind.ofCode_code _, ?_⟩
  split_ifs with hparam
  · rfl
  · exact h.unused (by simpa using hparam)

theorem wordText_flatMap {ns : List ℕ} (h : ∀ n ∈ ns, n < 2 ^ 32) :
    wordText.many (ns.flatMap fileWord) ns := many_flatMap ns fun n hn ↦ ⟨h n hn, rfl⟩

theorem FunSig.text (sig : FunSig) (h : sig.Fits) : sigText sig.bytes sig :=
  ⟨0, _, h.ret, h.nargs, wordText_flatMap h.args, rfl⟩

theorem stringText_flatMap {ss : List (List UInt8)} (h : ∀ s ∈ ss, s.length < 2 ^ 32) :
    stringText.many (ss.flatMap stringBytes) ss := many_flatMap ss fun s hs ↦ ⟨h s hs, rfl⟩

theorem word64Text_flatMap (vs : List UInt64) :
    word64Text.many (vs.flatMap fun v ↦ bytesLE 8 v.toNat) vs := many_flatMap vs fun _ _ ↦ rfl

theorem LinesFit.text {features : Features} {ninsns : ℕ} {lines : List UInt32}
    (h : LinesFit features ninsns lines) :
    linesText features ninsns (lines.flatMap (lineBytes features.lineCol)) lines := by
  refine ⟨h.length, many_flatMap lines fun line hline ↦ ?_⟩
  unfold lineText lineBytes
  split_ifs with hcol
  · rfl
  · exact ⟨h.narrow (by simpa using hcol) line hline, rfl⟩

theorem JelloBcFunction.text {features : Features} (fn : JelloBcFunction) (h : fn.Fits features) :
    functionText features (fn.bytes features) fn :=
  ⟨_, _, _, _, _, h.nregs, h.ninsns, whenText_bytes h.capStart fun hlt ↦ ⟨hlt, rfl⟩,
    wordText_flatMap h.regTypes, whenText_bytes h.sourceFile fun hlt ↦ ⟨hlt, rfl⟩,
    whenText_bytes h.lines LinesFit.text,
    many_flatMap fn.insns fun ins _ ↦ ⟨ins.op.code, JelloOp.ofCode_code _, rfl⟩, rfl⟩

theorem JelloBcModule.header_text {m : JelloBcModule} (h : m.Fits) :
    headerText m.header.bytes m.header := by
  have hcount {α : Type} {present : Bool} {P : List α → Prop} {xs : List α}
      (hxs : FitsWhen present P [] xs) (hP : P xs → xs.length < 2 ^ 32) :
      whenText present wordText 0 (bytesWhen present (fileWord xs.length)) xs.length := by
    cases present with
    | false => exact ⟨rfl, congrArg List.length hxs⟩
    | true => exact ⟨hP hxs, rfl⟩
  exact ⟨m.features.bits, _, _, _, (Features.ofBits_bits _).symm, h.ntypes, h.nsigs, h.atoms.count,
    h.nfuncs, h.entry.trans h.nfuncs, h.entry, hcount h.constI64 id, hcount h.constF64 id,
    hcount h.constBytes StringsFit.count, rfl⟩

theorem JelloBcModule.body_text {m : JelloBcModule} (h : m.Fits) : bodyText m.bodyBytes m :=
  ⟨_, _, _, _, _, _, _, _, many_flatMap m.types fun t ht ↦ t.text (h.types t ht),
    many_flatMap m.sigs fun sig hsig ↦ sig.text (h.sigs sig hsig),
    stringText_flatMap h.atoms.lengths,
    whenText_bytes h.constI64 fun _ ↦ word64Text_flatMap _,
    whenText_bytes h.constF64 fun _ ↦ word64Text_flatMap _,
    whenText_bytes h.constBytes fun hss ↦ stringText_flatMap hss.lengths,
    whenText_bytes h.sourceFiles fun hss ↦ ⟨_, hss.count, stringText_flatMap hss.lengths, rfl⟩,
    many_flatMap m.funcs fun fn hfn ↦ fn.text (h.funcs fn hfn), rfl⟩

theorem JelloBcModule.text {m : JelloBcModule} (h : m.Fits) : moduleText m.bytes m :=
  ⟨_, _, m.header_text h, m.body_text h, rfl⟩

end Texts

section RoundTrip

variable {inp inp' : BcInput} {m : JelloBcModule}

theorem loaded_eq (h : m.Fits) (hpool : m.PoolFits) (inp : BcInput) :
    inp.loaded m = { bc := m, pool := loadedPool inp.fresh m.constBytes } := by
  have hstrings : ∀ s ∈ m.constBytes, s.length < 2 ^ 32 := by
    have hbytes := h.constBytes
    unfold FitsWhen at hbytes
    split_ifs at hbytes with hfeat
    · exact hbytes.lengths
    · rw [hbytes]
      exact List.forall_mem_nil _
  rw [BcInput.loaded, payloads_loadedPool (stringText_flatMap hstrings) hpool]

/-- What is written is read again, whatever follows it in the file. -/
theorem reads_bytes (hmem : inp.Plenty) (hfits : m.Fits) (hpool : m.PoolFits)
    (haccepted : Accepted m) (hat : inp.buffer.At 0 m.bytes) :
    jelloBcRead inp = some
      { err := none, out := some { bc := m, pool := loadedPool inp.fresh m.constBytes } } :=
  (loads_iff hmem hpool).mpr
    ⟨m.bytes, m, m.text hfits, hat, (loaded_eq hfits hpool inp).symm, haccepted⟩

theorem takes_congr (h : inp'.beyond = inp.beyond) (ps : List (List UInt8)) :
    inp'.Takes ps ↔ inp.Takes ps := by
  have hcopied (total : UInt32) (offs : List UInt32) (ps : List (List UInt8)) :
      inp'.Copied total offs ps ↔ inp.Copied total offs ps := by
    induction offs generalizing ps with
    | nil => rfl
    | cons dst offs ih =>
      cases ps with
      | nil => rfl
      | cons s ps => simp only [BcInput.Copied, BcInput.copies, h, ih ps]
  exact hcopied _ _ ps

/-- A load that stopped at an offset depends on nothing behind it, and needs all that is before. -/
theorem reads_front {l : LoadedModule} {stop : ℕ} (hmem : inp.Plenty) (hmem' : inp'.Plenty)
    (hfresh : inp'.fresh = inp.fresh) (hbeyond : inp'.beyond = inp.beyond)
    (hrun : readAll inp 0 = .ok (l, stop)) (hdata : ∀ i < stop, inp'.data i = inp.data i) :
    (stop ≤ inp'.size → jelloBcRead inp' = some { err := none, out := some l }) ∧
      (inp'.size < stop → ∃ r, jelloBcRead inp' = some r ∧ r.err ≠ none) := by
  obtain ⟨bs, ⟨m, htext, htakes, rfl, haccepted⟩, hat, rfl⟩ :=
    (recognises_readAll hmem 0 _ _).mp hrun
  rw [Nat.zero_add] at hrun hdata ⊢
  constructor
  · intro hsize
    have hloaded : inp.loaded m = inp'.loaded m := by rw [BcInput.loaded, BcInput.loaded, hfresh]
    have hat' : inp'.buffer.At 0 bs := hat.transfer (by rwa [Nat.zero_add]) (by rwa [Nat.zero_add])
    have hrun' := (recognises_readAll hmem').ok
      ⟨m, htext, (takes_congr hbeyond _).mpr htakes, hloaded, haccepted⟩ hat'
    rw [jelloBcRead, if_pos (hmem' _ _), hrun']
  · intro hsize
    have hle : bs.length ≤ inp.size := hat.length_le
    have hwithin : inp'.Within inp :=
      ⟨by omega, fun i hi ↦ hdata i (by omega), fun _ _ _ ↦ hmem _ _, hfresh, hbeyond⟩
    obtain heq | ⟨result, out, herr⟩ := covers_readAll hwithin 0
    · obtain ⟨bs', -, hat', hstop⟩ := (recognises_readAll hmem' 0 _ _).mp (heq.trans hrun)
      have hle' : bs'.length ≤ inp'.size := hat'.length_le
      omega
    · refine ⟨⟨some result, out⟩, ?_, Option.some_ne_none result⟩
      rw [jelloBcRead, if_pos (hmem' _ _), herr]

end RoundTrip

/-- A module with every part of a file: a function that returns the second of two constants. -/
def filedModule : JelloBcModule :=
  { features :=
      { const64 := true, constBytes := true, capStart := true, lineTable := true, lineCol := true }
    types := [⟨.bytes, 0⟩, ⟨.list, 0⟩]
    sigs := [{ ret := 0, args := [1, 0] }]
    atoms := [text "__proto__"]
    constI64 := [0x123456789abcdef0]
    constF64 := [0x3ff0000000000000]
    constBytes := [[5, 6, 7], [8]]
    funcs :=
      [{ regTypes := [0]
         capStart := 1
         insns := [{ op := .constBytes, a := 0, b := 0, c := 0, imm := 1 },
           { op := .ret, a := 0, b := 0, c := 0, imm := 0 }]
         sourceFile := 0
         lines := [0x10001, 0x10002] }]
    entry := 0
    sourceFiles := [text "a.jello"] }

theorem filedModule_fits : filedModule.Fits where
  ntypes := by decide
  nsigs := by decide
  nfuncs := by decide
  entry := by decide
  types t ht := by
    simp only [filedModule, List.mem_cons, List.not_mem_nil, or_false] at ht
    obtain rfl | rfl := ht
    · exact ⟨by decide, fun _ ↦ rfl⟩
    · exact ⟨by decide, fun _ ↦ rfl⟩
  sigs sig hsig := by
    obtain rfl := List.mem_singleton.mp hsig
    exact ⟨by decide, by decide, by decide⟩
  atoms := ⟨by decide, by decide⟩
  constI64 := by
    change [(0x123456789abcdef0 : UInt64)].length < 2 ^ 32
    decide
  constF64 := by
    change [(0x3ff0000000000000 : UInt64)].length < 2 ^ 32
    decide
  constBytes := ⟨by decide, by decide⟩
  sourceFiles := ⟨by decide, by decide⟩
  funcs fn hfn := by
    obtain rfl := List.mem_singleton.mp hfn
    refine ⟨by decide, by decide, by decide, ?_, ?_, rfl, fun h ↦ ?_⟩
    · change 1 < 2 ^ 32
      decide
    · change 0 < 2 ^ 16
      decide
    · cases h

theorem filedModule_poolFits : filedModule.PoolFits := by
  change bytesBefore [[5, 6, 7], [8]] 2 < 2 ^ 32
  decide

/-- The file of the module, with nothing behind it. -/
def filedInput : BcInput := .ofBytes filedModule.bytes fun _ ↦ 0

theorem filedInput_loaded : Accepted (filedInput.loaded filedModule).bc := by
  rw [loaded_eq filedModule_fits filedModule_poolFits]
  decide +kernel

theorem filedInput_poolFits : (filedInput.loaded filedModule).bc.PoolFits := by
  rw [loaded_eq filedModule_fits filedModule_poolFits]
  exact filedModule_poolFits

theorem filedModule_loads : jelloBcRead filedInput =
    some { err := none, out := some (filedInput.loaded filedModule) } :=
  (loads_iff (plenty_ofBytes _ _) filedInput_poolFits).mpr
    ⟨_, filedModule, filedModule.text filedModule_fits, at_ofBytes _ _, rfl, filedInput_loaded⟩

theorem filedModule_read : jelloBcRead (.ofBytes (filedModule.bytes ++ [1, 2, 3]) fun _ ↦ 0) = some
    { err := none
      out := some { bc := filedModule, pool := loadedPool (fun _ ↦ 0) filedModule.constBytes } } :=
  reads_bytes (plenty_ofBytes _ _) filedModule_fits filedModule_poolFits (by decide +kernel)
    (at_append.mp (at_ofBytes (filedModule.bytes ++ [1, 2, 3]) fun _ ↦ 0)).1

def cutInput : BcInput := { filedInput with size := filedModule.bytes.length - 1 }

theorem cutInput_refused : ∃ r, jelloBcRead cutInput = some r ∧ r.err ≠ none := by
  have hmem : filedInput.Plenty := plenty_ofBytes _ _
  have hmem' : cutInput.Plenty := fun _ _ ↦ rfl
  have htakes : filedInput.Takes filedModule.constBytes := takes_of_fits filedModule_poolFits
  have hrun := (recognises_readAll hmem).ok
    ⟨filedModule, filedModule.text filedModule_fits, htakes, rfl, filedInput_loaded⟩
    (at_ofBytes _ _)
  have hshort : filedModule.bytes.length - 1 < 0 + filedModule.bytes.length := by decide +kernel
  exact (reads_front hmem hmem' rfl rfl hrun fun _ _ ↦ rfl).2 hshort

end JelloVM
