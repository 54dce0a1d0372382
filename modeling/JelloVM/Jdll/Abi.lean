import JelloVM.Jdll.Caps
import JelloVM.Library.Traced

namespace JelloVM

open ByteMemory Traced

structure JdllAbiExport where
  name : List UInt8
  sym : List UInt8
  retKind : UInt8
  arity : UInt8
  argKinds : Option (List UInt8)
  argKindLen : UInt8
deriving DecidableEq

structure JdllAbiParsed where
  libraryId : List UInt8
  exports : List JdllAbiExport
deriving DecidableEq

section Parse

variable (alloc : ℕ → Bool) (data : ℕ → UInt8) (blen : ℕ)

/-- Reads are noted by their index. -/
abbrev AbiM (α : Type) := OptionT (Traced ℕ) α

def abiByte (i : ℕ) : AbiM UInt8 := OptionT.lift (readAt data i)

def abiBytes (i n : ℕ) : AbiM (List UInt8) := OptionT.lift (readRange data i n)

def rdU32le (i : ℕ) : AbiM (UInt32 × ℕ) :=
  if blen < i + 4 then failure
  else do
    let b₀ ← abiByte data i
    let b₁ ← abiByte data (i + 1)
    let b₂ ← abiByte data (i + 2)
    let b₃ ← abiByte data (i + 3)
    pure (b₀.toUInt32 ||| b₁.toUInt32 <<< 8 ||| b₂.toUInt32 <<< 16 ||| b₃.toUInt32 <<< 24, i + 4)

def rdStr (i : ℕ) : AbiM (List UInt8 × ℕ) := do
  let len ← rdU32le data blen i
  if blen < len.2 + len.1.toNat ∨ alloc (len.1.toNat + 1) = false then failure
  else do
    let s ← abiBytes data len.2 len.1.toNat
    pure (s, len.2 + len.1.toNat)

/-- The kinds of an export, their number, and where they end -/
def rdKinds (arity : UInt8) (i : ℕ) : AbiM (Option (List UInt8) × UInt8 × ℕ) :=
  if arity = jdllAbiVarargsArity then
    if blen < i + 1 ∨ alloc 1 = false then failure
    else do
      let kind ← abiByte data i
      pure (some [kind], 1, i + 1)
  else if arity = jdllAbiMixedVarargsArity then
    if blen < i + 1 then failure
    else do
      let n ← abiByte data i
      if n = 0 ∨ blen < i + 1 + n.toNat ∨ alloc n.toNat = false then failure
      else do
        let kinds ← abiBytes data (i + 1) n.toNat
        pure (some kinds, n, i + 1 + n.toNat)
  else if arity ≠ 0 then
    if alloc arity.toNat = false ∨ blen < i + arity.toNat then failure
    else do
      let kinds ← abiBytes data i arity.toNat
      pure (some kinds, arity, i + arity.toNat)
  else pure (none, 0, i)

def rdExport (i : ℕ) : AbiM (JdllAbiExport × ℕ) := do
  let name ← rdStr alloc data blen i
  let sym ← rdStr alloc data blen name.2
  if blen < sym.2 + 2 then failure
  else do
    let retKind ← abiByte data sym.2
    let arity ← abiByte data (sym.2 + 1)
    let kinds ← rdKinds alloc data blen arity (sym.2 + 2)
    pure (⟨name.1, sym.1, retKind, arity, kinds.1, kinds.2.1⟩, kinds.2.2)

def rdExports : ℕ → ℕ → AbiM (List JdllAbiExport)
  | 0, _ => pure []
  | n + 1, i => do
    let e ← rdExport alloc data blen i
    let es ← rdExports n e.2
    pure (e.1 :: es)

/-- `JLYDLLABI1` with its end -/
def jdllAbiMagic : List UInt8 :=
  [0x4A, 0x4C, 0x59, 0x44, 0x4C, 0x4C, 0x41, 0x42, 0x49, 0x31, 0x00]

def parseJdllAbiBytes : AbiM JdllAbiParsed :=
  if blen < jdllAbiMagic.length then failure
  else do
    let magic ← abiBytes data 0 jdllAbiMagic.length
    if magic ≠ jdllAbiMagic then failure
    else do
      let version ← rdU32le data blen jdllAbiMagic.length
      if version.1 ≠ 1 then failure
      else do
        let libraryId ← rdStr alloc data blen version.2
        let n ← rdU32le data blen libraryId.2
        -- the six arrays, of pointers and of bytes
        if alloc (n.1.toNat * 8) = false ∨ alloc n.1.toNat = false then failure
        else do
          let exports ← rdExports alloc data blen n.1.toNat n.2
          pure ⟨libraryId.1, exports⟩

end Parse

section Fill

def cString (s : List UInt8) : List UInt8 := s.takeWhile (· ≠ 0)

/-- The dynamic linker, and the copies `strdup` makes; 0 is NULL. -/
structure JdllHost where
  dlsym : List UInt8 → UInt64
  strdup : ℕ → List UInt8 → UInt64

variable (host : JdllHost) (atoms : List (List UInt8)) (stack : Mem)

def findAtomId (name : List UInt8) : Option ℕ := atoms.findIdx? fun a ↦ cString a = cString name

inductive ExportOutcome where
  /-- The module has no such atom. -/
  | skipped
  /-- A trap, with the text it is made from -/
  | rejected (format : String)
  /-- The descriptor before and after the kinds are copied, and the number of bytes copied -/
  | filled (atom : ℕ) (before after : Mem) (copied : ℕ)

def ExportOutcome.isRejected : ExportOutcome → Bool
  | .rejected _ => true
  | _ => false

/-- The initializer of `caps`, in memory that held something else -/
def capsInit (fn : UInt64) (e : JdllAbiExport) (libId name sym : UInt64) : Mem :=
  store64 (store64 (store64 (fill (fill (fill (store64 stack 0 fn) 8 1 e.retKind) 9 1 e.arity)
    argKindsOffset 8 0) 24 libId) 32 name) 40 sym

def copyKinds (e : JdllAbiExport) (atom : ℕ) (caps : Mem) : ExportOutcome :=
  match e.argKinds with
  | none => .filled atom caps caps 0
  | some kinds =>
    if e.arity = jdllAbiVarargsArity then
      .filled atom caps (fill caps argKindsOffset 1 (kinds.getD 0 0)) 1
    else if e.arity = jdllAbiMixedVarargsArity then
      if e.argKindLen < 2 then
        .rejected "jdll '%s': export '%s' mixed varargs needs fixed prefix + elem types"
      else if 6 < e.argKindLen - 1 then
        .rejected "jdll '%s': export '%s' mixed varargs fixed prefix too long (max 6)"
      else
        .filled atom caps
          (paste (fill caps argKindsOffset 1 (e.argKindLen - 1)) (argKindsOffset + 1)
            e.argKindLen.toNat fun j ↦ kinds.getD j 0)
          (e.argKindLen.toNat + 1)
    else
      .filled atom caps (paste caps argKindsOffset e.arity.toNat fun j ↦ kinds.getD j 0)
        e.arity.toNat

def fillExport (libId : UInt64) (i : ℕ) (e : JdllAbiExport) : ExportOutcome :=
  match findAtomId atoms e.name with
  | none => .skipped
  | some atom =>
    let fn := host.dlsym (cString e.sym)
    if fn = 0 then .rejected "jdll '%s': missing symbol %s"
    else
      let name := host.strdup (2 * i + 1) (cString e.name)
      let sym := host.strdup (2 * i + 2) (cString e.sym)
      if name = 0 ∨ sym = 0 then .rejected "jdll init: oom"
      else copyKinds e atom (capsInit stack fn e libId name sym)

def fillFrom (libId : UInt64) : ℕ → List JdllAbiExport → List (JdllAbiExport × ExportOutcome)
  | _, [] => []
  | i, e :: es =>
    if (fillExport host atoms stack libId i e).isRejected then
      [(e, fillExport host atoms stack libId i e)]
    else (e, fillExport host atoms stack libId i e) :: fillFrom libId (i + 1) es

/-- `jello_jdll_fill_exports` from the copy of the library's name on, with what becomes of each
export it comes to -/
def jdllFillExports (abi : JdllAbiParsed) : List (JdllAbiExport × ExportOutcome) :=
  let libId := host.strdup 0 (cString abi.libraryId)
  if libId = 0 then [] else fillFrom host atoms stack libId 0 abi.exports

end Fill

section Reads

variable {alloc : ℕ → Bool} {data : ℕ → UInt8} {blen : ℕ}

theorem within_abiByte {i : ℕ} (h : i < blen) : Within (· < blen) (abiByte data i) := by
  apply within_lift
  intro a ha
  rw [trace_readAt, List.mem_singleton] at ha
  rwa [ha]

theorem within_abiBytes {i n : ℕ} (h : i + n ≤ blen) :
    Within (· < blen) (abiBytes data i n) := by
  apply within_lift
  intro a ha
  have hmem := List.mem_range'_1.mp ha
  omega

theorem within_rdU32le (i : ℕ) : Within (· < blen) (rdU32le data blen i) := by
  rw [rdU32le]
  split_ifs with h
  · exact within_failure
  · refine within_bind (within_abiByte (by omega)) fun _ _ ↦ ?_
    refine within_bind (within_abiByte (by omega)) fun _ _ ↦ ?_
    refine within_bind (within_abiByte (by omega)) fun _ _ ↦ ?_
    refine within_bind (within_abiByte (by omega)) fun _ _ ↦ ?_
    exact within_pure _

theorem within_rdStr (i : ℕ) : Within (· < blen) (rdStr alloc data blen i) := by
  refine within_bind (within_rdU32le i) fun len _ ↦ ?_
  split_ifs with h
  · exact within_failure
  · refine within_bind (within_abiBytes (by omega)) fun _ _ ↦ ?_
    exact within_pure _

theorem within_rdKinds (arity : UInt8) (i : ℕ) :
    Within (· < blen) (rdKinds alloc data blen arity i) := by
  rw [rdKinds]
  split_ifs with h₁ h₂ h₃ h₄ h₅ h₆
  · exact within_failure
  · refine within_bind (within_abiByte (by omega)) fun _ _ ↦ ?_
    exact within_pure _
  · exact within_failure
  · refine within_bind (within_abiByte (by omega)) fun n _ ↦ ?_
    split_ifs with h
    · exact within_failure
    · refine within_bind (within_abiBytes (by omega)) fun _ _ ↦ ?_
      exact within_pure _
  · exact within_failure
  · refine within_bind (within_abiBytes (by omega)) fun _ _ ↦ ?_
    exact within_pure _
  · exact within_pure _

theorem within_rdExport (i : ℕ) : Within (· < blen) (rdExport alloc data blen i) := by
  refine within_bind (within_rdStr i) fun name _ ↦ ?_
  refine within_bind (within_rdStr name.2) fun sym _ ↦ ?_
  split_ifs with h
  · exact within_failure
  · refine within_bind (within_abiByte (by omega)) fun _ _ ↦ ?_
    refine within_bind (within_abiByte (by omega)) fun _ _ ↦ ?_
    refine within_bind (within_rdKinds _ _) fun _ _ ↦ ?_
    exact within_pure _

theorem within_rdExports (n i : ℕ) : Within (· < blen) (rdExports alloc data blen n i) := by
  induction n generalizing i with
  | zero => exact within_pure _
  | succ n ih =>
    refine within_bind (within_rdExport i) fun e _ ↦ ?_
    refine within_bind (ih e.2) fun _ _ ↦ ?_
    exact within_pure _

theorem within_parseJdllAbiBytes : Within (· < blen) (parseJdllAbiBytes alloc data blen) := by
  rw [parseJdllAbiBytes]
  split_ifs with h
  · exact within_failure
  refine within_bind (within_abiBytes (by omega)) fun magic _ ↦ ?_
  split_ifs with hmagic
  · exact within_failure
  refine within_bind (within_rdU32le _) fun version _ ↦ ?_
  split_ifs with hversion
  · exact within_failure
  refine within_bind (within_rdStr _) fun libraryId _ ↦ ?_
  refine within_bind (within_rdU32le _) fun n _ ↦ ?_
  split_ifs with hroom
  · exact within_failure
  refine within_bind (within_rdExports _ _) fun _ _ ↦ ?_
  exact within_pure _

end Reads

section Parsed

variable {alloc : ℕ → Bool} {data : ℕ → UInt8} {blen : ℕ}

/-- The kinds that an export comes with are as many as its arity says. -/
structure JdllAbiExport.WellParsed (e : JdllAbiExport) : Prop where
  none : e.arity = 0 → e.argKinds = .none
  varargs : e.arity = jdllAbiVarargsArity → ∃ kind, e.argKinds = some [kind]
  mixed : e.arity = jdllAbiMixedVarargsArity →
    ∃ kinds, e.argKinds = some kinds ∧ kinds.length = e.argKindLen.toNat
  fixed : e.arity ≠ 0 → e.arity ≠ jdllAbiVarargsArity → e.arity ≠ jdllAbiMixedVarargsArity →
    ∃ kinds, e.argKinds = some kinds ∧ kinds.length = e.arity.toNat

theorem value_abiBytes (i n : ℕ) :
    (abiBytes data i n).run.value = some ((List.range' i n).map data) := rfl

theorem rdKinds_spec {arity : UInt8} {i : ℕ} {r : Option (List UInt8) × UInt8 × ℕ}
    (h : (rdKinds alloc data blen arity i).run.value = some r)
    (name sym : List UInt8) (retKind : UInt8) :
    (JdllAbiExport.mk name sym retKind arity r.1 r.2.1).WellParsed := by
  rw [rdKinds] at h
  by_cases hvar : arity = jdllAbiVarargsArity
  · rw [if_pos hvar] at h
    split_ifs at h
    · rw [value_run_failure] at h
      exact absurd h (by simp)
    obtain ⟨kind, -, h⟩ := value_bind_some h
    rw [value_run_pure, Option.some.injEq] at h
    subst hvar h
    exact ⟨fun h ↦ absurd h varargs_ne_zero, fun _ ↦ ⟨kind, rfl⟩,
      fun h ↦ absurd h varargs_ne_mixed, fun _ h ↦ absurd rfl h⟩
  rw [if_neg hvar] at h
  by_cases hmixed : arity = jdllAbiMixedVarargsArity
  · rw [if_pos hmixed] at h
    split_ifs at h
    · rw [value_run_failure] at h
      exact absurd h (by simp)
    obtain ⟨n, -, h⟩ := value_bind_some h
    split_ifs at h
    · rw [value_run_failure] at h
      exact absurd h (by simp)
    obtain ⟨kinds, hkinds, h⟩ := value_bind_some h
    rw [value_abiBytes, Option.some.injEq] at hkinds
    rw [value_run_pure, Option.some.injEq] at h
    subst hmixed h
    refine ⟨fun h ↦ absurd h mixed_ne_zero, fun h ↦ absurd h.symm varargs_ne_mixed,
      fun _ ↦ ⟨kinds, rfl, ?_⟩, fun _ _ h ↦ absurd rfl h⟩
    rw [← hkinds, List.length_map, List.length_range']
  rw [if_neg hmixed] at h
  by_cases hzero : arity = 0
  · rw [if_neg (not_not.mpr hzero), value_run_pure, Option.some.injEq] at h
    subst h
    exact ⟨fun _ ↦ rfl, fun h ↦ absurd h hvar, fun h ↦ absurd h hmixed, fun h ↦ absurd hzero h⟩
  · rw [if_pos hzero] at h
    split_ifs at h
    · rw [value_run_failure] at h
      exact absurd h (by simp)
    obtain ⟨kinds, hkinds, h⟩ := value_bind_some h
    rw [value_abiBytes, Option.some.injEq] at hkinds
    rw [value_run_pure, Option.some.injEq] at h
    subst h
    refine ⟨fun h ↦ absurd h hzero, fun h ↦ absurd h hvar, fun h ↦ absurd h hmixed,
      fun _ _ _ ↦ ⟨kinds, rfl, ?_⟩⟩
    rw [← hkinds, List.length_map, List.length_range']

theorem rdExport_spec {i : ℕ} {r : JdllAbiExport × ℕ}
    (h : (rdExport alloc data blen i).run.value = some r) : r.1.WellParsed := by
  obtain ⟨name, -, h⟩ := value_bind_some h
  obtain ⟨sym, -, h⟩ := value_bind_some h
  split_ifs at h
  · rw [value_run_failure] at h
    exact absurd h (by simp)
  obtain ⟨retKind, -, h⟩ := value_bind_some h
  obtain ⟨arity, -, h⟩ := value_bind_some h
  obtain ⟨kinds, hkinds, h⟩ := value_bind_some h
  rw [value_run_pure, Option.some.injEq] at h
  subst h
  exact rdKinds_spec hkinds _ _ _

theorem rdExports_spec {n i : ℕ} {es : List JdllAbiExport}
    (h : (rdExports alloc data blen n i).run.value = some es) : ∀ e ∈ es, e.WellParsed := by
  induction n generalizing i es with
  | zero =>
    rw [rdExports, value_run_pure, Option.some.injEq] at h
    subst h
    exact fun e he ↦ absurd he List.not_mem_nil
  | succ n ih =>
    obtain ⟨e, he, h⟩ := value_bind_some h
    obtain ⟨rest, hrest, h⟩ := value_bind_some h
    rw [value_run_pure, Option.some.injEq] at h
    subst h
    rw [List.forall_mem_cons]
    exact ⟨rdExport_spec he, ih hrest⟩

theorem parseJdllAbiBytes_spec {abi : JdllAbiParsed}
    (h : (parseJdllAbiBytes alloc data blen).run.value = some abi) :
    ∀ e ∈ abi.exports, e.WellParsed := by
  rw [parseJdllAbiBytes] at h
  split_ifs at h
  · rw [value_run_failure] at h
    exact absurd h (by simp)
  obtain ⟨magic, -, h⟩ := value_bind_some h
  split_ifs at h
  · rw [value_run_failure] at h
    exact absurd h (by simp)
  obtain ⟨version, -, h⟩ := value_bind_some h
  split_ifs at h
  · rw [value_run_failure] at h
    exact absurd h (by simp)
  obtain ⟨libraryId, -, h⟩ := value_bind_some h
  obtain ⟨n, -, h⟩ := value_bind_some h
  split_ifs at h
  · rw [value_run_failure] at h
    exact absurd h (by simp)
  obtain ⟨es, hes, h⟩ := value_bind_some h
  rw [value_run_pure, Option.some.injEq] at h
  subst h
  exact rdExports_spec hes

end Parsed

section Descriptor

variable {host : JdllHost} {atoms : List (List UInt8)} {stack : Mem} {e : JdllAbiExport}
  {fn libId name sym : UInt64}

/-- At most eight bytes are copied, into the array only, and the kinds are those of the ABI. -/
def ExportOutcome.Fits (e : JdllAbiExport) : ExportOutcome → Prop
  | .skipped => True
  | .rejected _ => True
  | .filled _ before after copied => copied ≤ 8 ∧ OnlyIn before after argKindsOffset 8 ∧
      (primCapsAt after).kinds = e.argKinds.getD []

/-- Eight kinds fit, and so does whatever the kinds of varargs are. -/
def JdllAbiExport.Short (e : JdllAbiExport) : Prop := e.arity.toNat ≤ 8 ∨ 254 ≤ e.arity.toNat

/-- The prefix of mixed varargs is missing or too long. -/
def JdllAbiExport.BadPrefix (e : JdllAbiExport) : Prop :=
  e.arity = jdllAbiMixedVarargsArity ∧ (e.argKindLen.toNat < 2 ∨ 7 < e.argKindLen.toNat)

theorem capsInit_arity : capsInit stack fn e libId name sym 9 = e.arity := by
  unfold capsInit store64 putLE fill argKindsOffset
  simp

theorem kinds_of_fixed {caps : JdllPrimCaps} (h₁ : caps.arity ≠ jdllAbiVarargsArity)
    (h₂ : caps.arity ≠ jdllAbiMixedVarargsArity) :
    caps.kinds = (List.range caps.arity.toNat).map caps.argKinds := by
  rw [JdllPrimCaps.kinds, if_neg h₁, if_neg h₂]

theorem nine_lt : 9 < argKindsOffset := by decide

theorem map_getD_range (l : List UInt8) : (List.range l.length).map (fun i ↦ l.getD i 0) = l := by
  apply List.ext_getElem
  · rw [List.length_map, List.length_range]
  · intro i hi hi'
    rw [List.getElem_map, List.getElem_range, List.getD_eq_getElem _ _ hi']

theorem paste_at {mem : Mem} {a w x : ℕ} {src : ℕ → UInt8} (hx : x < w) :
    paste mem a w src (a + x) = src x := by
  rw [paste, if_pos (by omega), Nat.add_sub_cancel_left]

theorem paste_outside {mem : Mem} {a w x : ℕ} {src : ℕ → UInt8} (hx : x < a ∨ a + w ≤ x) :
    paste mem a w src x = mem x := if_neg (by omega)

theorem fill_outside {mem : Mem} {a w x : ℕ} {v : UInt8} (hx : x < a ∨ a + w ≤ x) :
    fill mem a w v x = mem x := if_neg (by omega)

theorem fits_fixed {caps : Mem} {kinds : List UInt8} {atom : ℕ} (harity : caps 9 = e.arity)
    (hkinds : e.argKinds = some kinds) (hlength : kinds.length = e.arity.toNat)
    (h₁ : e.arity ≠ jdllAbiVarargsArity) (h₂ : e.arity ≠ jdllAbiMixedVarargsArity)
    (hshort : e.arity.toNat ≤ 8) :
    (ExportOutcome.filled atom caps (paste caps argKindsOffset e.arity.toNat
      fun j ↦ kinds.getD j 0) e.arity.toNat).Fits e := by
  refine ⟨hshort, fun x hx ↦ paste_outside (by omega), ?_⟩
  have hread : (primCapsAt (paste caps argKindsOffset e.arity.toNat
      fun j ↦ kinds.getD j 0)).arity = e.arity := by
    rw [primCapsAt_arity, ← harity]
    exact paste_outside (.inl nine_lt)
  rw [kinds_of_fixed (by rwa [hread]) (by rwa [hread]), hread, hkinds, Option.getD_some,
    ← hlength]
  refine Eq.trans ?_ (map_getD_range kinds)
  apply List.map_congr_left
  intro i hi
  rw [List.mem_range] at hi
  rw [primCapsAt_argKinds]
  exact paste_at hi

theorem fits_varargs {caps : Mem} {kind : UInt8} {atom : ℕ} (harity : caps 9 = e.arity)
    (hkinds : e.argKinds = some [kind]) (h : e.arity = jdllAbiVarargsArity) :
    (ExportOutcome.filled atom caps (fill caps argKindsOffset 1 kind) 1).Fits e := by
  refine ⟨by decide, fun x hx ↦ fill_outside (by omega), ?_⟩
  have hread : (primCapsAt (fill caps argKindsOffset 1 kind)).arity = jdllAbiVarargsArity := by
    rw [primCapsAt_arity, ← h, ← harity]
    exact fill_outside (.inl nine_lt)
  rw [JdllPrimCaps.kinds, if_pos hread, hkinds, Option.getD_some, primCapsAt_argKinds,
    Nat.add_zero, fill, if_pos ⟨le_rfl, Nat.lt_succ_self _⟩]

theorem fits_mixed {caps : Mem} {kinds : List UInt8} {atom : ℕ} (harity : caps 9 = e.arity)
    (hkinds : e.argKinds = some kinds) (hlength : kinds.length = e.argKindLen.toNat)
    (h : e.arity = jdllAbiMixedVarargsArity)
    (hlens : 2 ≤ e.argKindLen.toNat ∧ e.argKindLen.toNat ≤ 7) :
    (ExportOutcome.filled atom caps
      (paste (fill caps argKindsOffset 1 (e.argKindLen - 1)) (argKindsOffset + 1)
        e.argKindLen.toNat fun j ↦ kinds.getD j 0) (e.argKindLen.toNat + 1)).Fits e := by
  refine ⟨by omega, fun x hx ↦ ?_, ?_⟩
  · rw [paste_outside (by omega), fill_outside (by omega)]
  generalize hmem : paste (fill caps argKindsOffset 1 (e.argKindLen - 1)) (argKindsOffset + 1)
    e.argKindLen.toNat (fun j ↦ kinds.getD j 0) = mem
  have hread : (primCapsAt mem).arity = jdllAbiMixedVarargsArity := by
    rw [primCapsAt_arity, ← h, ← harity, ← hmem]
    exact (paste_outside (.inl (Nat.lt_succ_of_lt nine_lt))).trans (fill_outside (.inl nine_lt))
  have hfirst : (primCapsAt mem).nfixed = e.argKindLen.toNat - 1 := by
    have hone : (1 : UInt8) ≤ e.argKindLen := UInt8.le_iff_toNat_le.mpr (by
      have h1 : (1 : UInt8).toNat = 1 := rfl
      omega)
    have hbyte : mem argKindsOffset = e.argKindLen - 1 := by
      rw [← hmem, paste_outside (.inl (Nat.lt_succ_self _)), fill, if_pos ⟨le_rfl, by omega⟩]
    rw [JdllPrimCaps.nfixed, primCapsAt_argKinds, Nat.add_zero, hbyte,
      UInt8.toNat_sub_of_le _ _ hone]
    rfl
  have hne : (primCapsAt mem).arity ≠ jdllAbiVarargsArity := by
    rw [hread]
    exact varargs_ne_mixed.symm
  rw [JdllPrimCaps.kinds, if_neg hne, if_pos hread, hfirst, hkinds, Option.getD_some,
    Nat.sub_add_cancel (by omega), ← hlength]
  refine Eq.trans ?_ (map_getD_range kinds)
  apply List.map_congr_left
  intro i hi
  rw [List.mem_range, hlength] at hi
  rw [primCapsAt_argKinds, ← hmem, ← Nat.add_assoc]
  exact paste_at hi

theorem copyKinds_none {caps : Mem} {atom : ℕ} (h : e.argKinds = none) :
    copyKinds e atom caps = .filled atom caps caps 0 := by
  rw [copyKinds, h]

theorem fits_none {caps : Mem} {atom : ℕ} (harity : caps 9 = e.arity) (h : e.argKinds = none)
    (hzero : e.arity = 0) : (ExportOutcome.filled atom caps caps 0).Fits e := by
  refine ⟨Nat.zero_le _, .refl _ _ _, ?_⟩
  have hread : (primCapsAt caps).arity = 0 := by rw [primCapsAt_arity, harity, hzero]
  rw [kinds_of_fixed (by rw [hread]; exact varargs_ne_zero.symm)
    (by rw [hread]; exact mixed_ne_zero.symm), hread, h]
  rfl

theorem badPrefix_iff (h : ¬ e.argKindLen < 2) :
    6 < e.argKindLen - 1 ↔ 7 < e.argKindLen.toNat := by
  have h1 : (1 : UInt8).toNat = 1 := rfl
  have h2 : (2 : UInt8).toNat = 2 := rfl
  have h6 : (6 : UInt8).toNat = 6 := rfl
  rw [UInt8.lt_iff_toNat_lt, h2] at h
  have hone : (1 : UInt8) ≤ e.argKindLen := by
    rw [UInt8.le_iff_toNat_le, h1]
    omega
  rw [UInt8.lt_iff_toNat_lt, UInt8.toNat_sub_of_le _ _ hone, h1, h6]
  omega

/-- What becomes of the kinds: rejected for a bad prefix, and else copied, rightly exactly for a
short arity. -/
theorem copyKinds_spec {caps : Mem} {atom : ℕ} (harity : caps 9 = e.arity) (hwell : e.WellParsed) :
    (e.BadPrefix ∧ (copyKinds e atom caps).isRejected = true) ∨
    (¬ e.BadPrefix ∧ (copyKinds e atom caps).isRejected = false ∧
      ((copyKinds e atom caps).Fits e ↔ e.Short)) := by
  have h254 : jdllAbiMixedVarargsArity.toNat = 254 := rfl
  have h255 : jdllAbiVarargsArity.toNat = 255 := rfl
  by_cases hmixed : e.arity = jdllAbiMixedVarargsArity
  · obtain ⟨kinds, hkinds, hlength⟩ := hwell.mixed hmixed
    have hshort : e.Short := .inr (by rw [hmixed, h254])
    have hne : e.arity ≠ jdllAbiVarargsArity := by
      rw [hmixed]
      exact varargs_ne_mixed.symm
    simp only [copyKinds, hkinds, if_neg hne, if_pos hmixed]
    have h2 : (2 : UInt8).toNat = 2 := rfl
    by_cases hfew : e.argKindLen < 2
    · rw [if_pos hfew]
      rw [UInt8.lt_iff_toNat_lt, h2] at hfew
      exact .inl ⟨⟨hmixed, .inl hfew⟩, rfl⟩
    rw [if_neg hfew]
    have hbad := badPrefix_iff hfew
    rw [UInt8.lt_iff_toNat_lt, h2] at hfew
    by_cases hmany : 6 < e.argKindLen - 1
    · rw [if_pos hmany]
      exact .inl ⟨⟨hmixed, .inr (hbad.mp hmany)⟩, rfl⟩
    · rw [if_neg hmany]
      rw [hbad] at hmany
      refine .inr ⟨?_, rfl, iff_of_true ?_ hshort⟩
      · rintro ⟨-, hlow | hhigh⟩
        · exact hfew hlow
        · exact hmany hhigh
      · exact fits_mixed harity hkinds hlength hmixed ⟨by omega, by omega⟩
  refine .inr ⟨fun hbad ↦ hmixed hbad.1, ?_⟩
  by_cases hvar : e.arity = jdllAbiVarargsArity
  · obtain ⟨kind, hkinds⟩ := hwell.varargs hvar
    simp only [copyKinds, hkinds, if_pos hvar]
    exact ⟨rfl, iff_of_true (fits_varargs harity hkinds hvar) (.inr (by rw [hvar, h255]; decide))⟩
  by_cases hzero : e.arity = 0
  · rw [copyKinds_none (hwell.none hzero)]
    exact ⟨rfl, iff_of_true (fits_none harity (hwell.none hzero) hzero)
      (.inl (by rw [hzero]; exact Nat.zero_le _))⟩
  · obtain ⟨kinds, hkinds, hlength⟩ := hwell.fixed hzero hvar hmixed
    simp only [copyKinds, hkinds, if_neg hvar, if_neg hmixed]
    refine ⟨rfl, fun hfits ↦ .inl hfits.1, fun hshort ↦ ?_⟩
    have hlt := e.arity.toNat_lt
    have hsmall : e.arity.toNat ≤ 8 := by
      rw [← UInt8.toNat_inj, h254] at hmixed
      rw [← UInt8.toNat_inj, h255] at hvar
      rcases hshort with hsmall | hbig
      · exact hsmall
      · omega
    exact fits_fixed harity hkinds hlength hvar hmixed hsmall

variable (host atoms) in
/-- The name is an atom of the module, the symbol is found and the strings are copied. -/
def JdllAbiExport.Bound (e : JdllAbiExport) (i : ℕ) : Prop :=
  host.dlsym (cString e.sym) ≠ 0 ∧ host.strdup (2 * i + 1) (cString e.name) ≠ 0 ∧
    host.strdup (2 * i + 2) (cString e.sym) ≠ 0 ∧ findAtomId atoms e.name ≠ none

variable (host atoms) in
/-- The loop comes to an export with a fixed arity of more than eight. -/
def Overlong : ℕ → List JdllAbiExport → Prop
  | _, [] => False
  | i, e :: es => (e.Bound host atoms i ∧ ¬ e.Short) ∨
      ((findAtomId atoms e.name = none ∨ (e.Bound host atoms i ∧ ¬ e.BadPrefix)) ∧
        Overlong (i + 1) es)

theorem fillExport_skipped (i : ℕ) (h : findAtomId atoms e.name = none) :
    fillExport host atoms stack libId i e = .skipped := by
  rw [fillExport, h]

theorem fillExport_unbound {i : ℕ} (hatom : findAtomId atoms e.name ≠ none)
    (h : ¬ e.Bound host atoms i) :
    (fillExport host atoms stack libId i e).isRejected = true := by
  obtain ⟨atom, hatom'⟩ := Option.ne_none_iff_exists'.mp hatom
  simp only [fillExport, hatom']
  split_ifs with hfn hdup
  · rfl
  · rfl
  · rw [not_or] at hdup
    exact absurd ⟨hfn, hdup.1, hdup.2, hatom⟩ h

theorem fillExport_bound {i : ℕ} (h : e.Bound host atoms i) : ∃ atom name sym,
    fillExport host atoms stack libId i e =
      copyKinds e atom (capsInit stack (host.dlsym (cString e.sym)) e libId name sym) := by
  obtain ⟨hfn, hname, hsym, hatom⟩ := h
  obtain ⟨atom, hatom⟩ := Option.ne_none_iff_exists'.mp hatom
  refine ⟨atom, host.strdup (2 * i + 1) (cString e.name),
    host.strdup (2 * i + 2) (cString e.sym), ?_⟩
  simp only [fillExport, hatom]
  rw [if_neg hfn, if_neg (not_or.mpr ⟨hname, hsym⟩)]

/-- The induction is on the exports; a rejected one ends the loop. -/
theorem fillFrom_fits_iff {es : List JdllAbiExport} (i : ℕ) (hwell : ∀ e ∈ es, e.WellParsed) :
    (∀ p ∈ fillFrom host atoms stack libId i es, p.2.Fits p.1) ↔ ¬ Overlong host atoms i es := by
  induction es generalizing i with
  | nil => exact iff_of_true (fun p hp ↦ absurd hp List.not_mem_nil) id
  | cons e es ih =>
    rw [List.forall_mem_cons] at hwell
    have ih := ih (i + 1) hwell.2
    rw [fillFrom, Overlong]
    by_cases hatom : findAtomId atoms e.name = none
    · have hunbound : ¬ e.Bound host atoms i := fun h ↦ h.2.2.2 hatom
      rw [fillExport_skipped i hatom, if_neg (by exact Bool.false_ne_true), List.forall_mem_cons,
        ih]
      simp only [hatom, hunbound, false_and, or_false, true_and, false_or]
      exact and_iff_right trivial
    by_cases hbound : e.Bound host atoms i
    · obtain ⟨atom, name, sym, hfill⟩ := @fillExport_bound host atoms stack e libId i hbound
      have hspec := @copyKinds_spec e _ atom
        (@capsInit_arity stack e (host.dlsym (cString e.sym)) libId name sym) hwell.1
      rw [← hfill] at hspec
      rcases hspec with ⟨hbad, hrejected⟩ | ⟨hgood, hkept, hfits⟩
      · have hshort : e.Short := .inr (by rw [hbad.1]; decide)
        rw [if_pos hrejected, List.forall_mem_singleton]
        simp only [hatom, hbound, hbad, hshort, not_true, and_false, or_false, false_and,
          not_false_iff, iff_true]
        cases hout : fillExport host atoms stack libId i e with
        | skipped => trivial
        | rejected _ => trivial
        | filled _ _ _ _ =>
          rw [hout] at hrejected
          exact absurd hrejected Bool.false_ne_true
      · rw [if_neg (by rw [hkept]; exact Bool.false_ne_true), List.forall_mem_cons, ih, hfits]
        simp only [hatom, hbound, hgood, true_and, not_false_iff, or_true, not_or, not_not]
    · rw [if_pos (fillExport_unbound hatom hbound), List.forall_mem_singleton]
      simp only [hatom, hbound, false_and, or_false, not_false_iff, iff_true]
      have hrejected := @fillExport_unbound host atoms stack e libId i hatom hbound
      cases hout : fillExport host atoms stack libId i e with
      | skipped => trivial
      | rejected _ => trivial
      | filled _ _ _ _ =>
        rw [hout] at hrejected
        exact absurd hrejected Bool.false_ne_true

end Descriptor

section Accepted

/-- The reads stay inside the input, and each export the loop comes to is rejected or fits. -/
def AbiFits (alloc : ℕ → Bool) (data : ℕ → UInt8) (blen : ℕ) (abi : JdllAbiParsed)
    (host : JdllHost) (atoms : List (List UInt8)) (stack : Mem) : Prop :=
  (∀ i ∈ (parseJdllAbiBytes alloc data blen).run.trace, i < blen) ∧
    ∀ p ∈ jdllFillExports host atoms stack abi, p.2.Fits p.1

/-- An accepted ABI fits the descriptors exactly where no export that is bound has a fixed arity of
more than eight. -/
theorem jdllAbi_fits_iff (alloc : ℕ → Bool) (data : ℕ → UInt8) (blen : ℕ) (abi : JdllAbiParsed)
    (haccepted : (parseJdllAbiBytes alloc data blen).run.value = some abi) (host : JdllHost)
    (atoms : List (List UInt8)) (stack : Mem) :
    AbiFits alloc data blen abi host atoms stack ↔
      host.strdup 0 (cString abi.libraryId) = 0 ∨ ¬ Overlong host atoms 0 abi.exports := by
  have hwell := parseJdllAbiBytes_spec haccepted
  refine (and_iff_right within_parseJdllAbiBytes).trans ?_
  rw [jdllFillExports]
  by_cases hlib : host.strdup 0 (cString abi.libraryId) = 0
  · simp only [hlib, if_true, true_or, iff_true]
    exact fun p hp ↦ absurd hp List.not_mem_nil
  · simp only [hlib, if_false, false_or]
    exact fillFrom_fits_iff 0 hwell

/-- A library `l` with one export `f`, of sixteen arguments -/
def sixteenArgs : List UInt8 :=
  jdllAbiMagic ++ [1, 0, 0, 0] ++ [1, 0, 0, 0, 0x6C] ++ [1, 0, 0, 0] ++ [1, 0, 0, 0, 0x66] ++
    [1, 0, 0, 0, 0x66] ++ [4, 16] ++ List.replicate 16 4

def sixteenArgsParsed : JdllAbiParsed where
  libraryId := [0x6C]
  exports := [⟨[0x66], [0x66], 4, 16, some (List.replicate 16 4), 16⟩]

def boundHost : JdllHost where
  dlsym := fun _ ↦ 0x1000
  strdup := fun i _ ↦ 0x2000 + UInt64.ofNat (16 * i)

theorem sixteenArgs_accepted : (parseJdllAbiBytes (fun _ ↦ true) (fun i ↦ sixteenArgs.getD i 0)
    sixteenArgs.length).run.value = some sixteenArgsParsed := by decide +kernel

theorem jdllAbi_fits_iff_sixteen :
    AbiFits (fun _ ↦ true) (fun i ↦ sixteenArgs.getD i 0) sixteenArgs.length sixteenArgsParsed
        boundHost [[0x66]] (fun _ ↦ 0) ↔
      boundHost.strdup 0 (cString sixteenArgsParsed.libraryId) = 0 ∨
        ¬ Overlong boundHost [[0x66]] 0 sixteenArgsParsed.exports :=
  jdllAbi_fits_iff _ _ _ _ sixteenArgs_accepted _ _ _

/-- Sixteen kinds are accepted, and copied over the eight places of the array. -/
theorem sixteenArgs_overwrites : ¬ ∀ abi, (parseJdllAbiBytes (fun _ ↦ true)
    (fun i ↦ sixteenArgs.getD i 0) sixteenArgs.length).run.value = some abi →
      AbiFits (fun _ ↦ true) (fun i ↦ sixteenArgs.getD i 0) sixteenArgs.length abi boundHost
        [[0x66]] (fun _ ↦ 0) := by
  intro h
  have hfits := (h _ sixteenArgs_accepted).2
  have hmem : ∃ atom before after, (sixteenArgsParsed.exports.head (by decide),
      ExportOutcome.filled atom before after 16) ∈
        jdllFillExports boundHost [[0x66]] (fun _ ↦ 0) sixteenArgsParsed :=
    ⟨_, _, _, List.mem_singleton_self _⟩
  obtain ⟨atom, before, after, hmem⟩ := hmem
  exact absurd (hfits _ hmem).1 (by decide)

end Accepted

end JelloVM
