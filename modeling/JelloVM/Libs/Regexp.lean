import JelloVM.Libs.CBytes

namespace JelloVM

section Source

/-- `REGEXP_MAX_CAPTURES` -/
def regexpMaxCaptures : ℕ := 32

/-- `(PCRE2_SIZE)-1` -/
def pcre2Unset : ℕ := 2 ^ 64 - 1

/-- A match as `pcre2_match` returns it: `rc`, and the pairs of the vector -/
structure RegexpMatch where
  rc : ℕ
  ovec : ℕ → ℕ × ℕ

def RegexpMatch.start (m : RegexpMatch) : ℕ := (m.ovec 0).1

def RegexpMatch.stop (m : RegexpMatch) : ℕ := (m.ovec 0).2

/-- `out`, `out_cap` and, as the length of the bytes, `out_len` -/
structure OutBuf where
  bytes : List UInt8
  cap : UInt32

/-- The library, for the pattern and the subject of a call (`none` where `rc < 1`), and the
memory -/
structure RegexpEnv where
  created : Bool
  pcre2Match : UInt32 → Option RegexpMatch
  realloc : OutBuf → UInt32 → Bool

variable (env : RegexpEnv) (hay : CBytes) (m : RegexpMatch)

/-- The doubling of `new_cap`, which ends in 33 rounds at most -/
def regexpNewCap (need : ℕ) : ℕ → UInt32 → UInt32
  | 0, newCap => newCap
  | fuel + 1, newCap =>
    if newCap.toNat < need then
      if 0xFFFFFFFF / 2 < newCap then UInt32.ofNat need else regexpNewCap need fuel (newCap * 2)
    else newCap

def regexpAppendBytes (out : OutBuf) (data : List UInt8) : Option OutBuf :=
  if data = [] then some out
  else
    let need := out.bytes.length + data.length
    if 2 ^ 32 - 1 < need then none
    else if out.cap.toNat < need then
      let newCap := regexpNewCap need 33 (if out.cap ≠ 0 then out.cap else 64)
      if env.realloc out newCap then some ⟨out.bytes ++ data, newCap⟩ else none
    else some ⟨out.bytes ++ data, out.cap⟩

def regexpAppendCapture (group : ℕ) (out : OutBuf) : Option OutBuf :=
  if m.rc ≤ group then some out
  else
    let start := (m.ovec group).1
    let stop := (m.ovec group).2
    if stop < start ∨ start = pcre2Unset ∨ stop = pcre2Unset then some out
    else if hay.len.toNat < stop then none
    else regexpAppendBytes env out (hay.window start (stop - start))

def isDigit (b : UInt8) : Bool := 0x30 ≤ b && b ≤ 0x39

def digitOf (b : UInt8) : ℕ := b.toNat - 0x30

/-- The digits after the first one, up to the one that makes the number too large -/
def groupDigits : ℕ → List UInt8 → ℕ × List UInt8
  | group, [] => (group, [])
  | group, b :: rest =>
    if isDigit b then
      if regexpMaxCaptures ≤ group * 10 + digitOf b then (group * 10 + digitOf b, b :: rest)
      else groupDigits (group * 10 + digitOf b) rest
    else (group, b :: rest)

theorem length_groupDigits (group : ℕ) (bs : List UInt8) :
    (groupDigits group bs).2.length ≤ bs.length := by
  induction bs generalizing group with
  | nil => exact Nat.le_refl _
  | cons b rest ih =>
    rw [groupDigits]
    split_ifs
    · exact Nat.le_refl _
    · exact (ih _).trans (Nat.le_succ _)
    · exact Nat.le_refl _

/-- The loop from a place of the replacement on -/
def regexpAppendReplacement : List UInt8 → OutBuf → Option OutBuf
  | [], out => some out
  | [b], out => regexpAppendBytes env out [b]
  | b :: next :: rest, out =>
    if b = 0x24 ∧ next = 0x24 then
      (regexpAppendBytes env out [0x24]).bind fun out ↦ regexpAppendReplacement rest out
    else if b = 0x24 ∧ isDigit next then
      (regexpAppendCapture env hay m (groupDigits (digitOf next) rest).1 out).bind fun out ↦
        regexpAppendReplacement (groupDigits (digitOf next) rest).2 out
    else
      (regexpAppendBytes env out [b]).bind fun out ↦ regexpAppendReplacement (next :: rest) out
termination_by bs => bs.length
decreasing_by
  · simp only [List.length_cons]
    omega
  · have hle := length_groupDigits (digitOf next) rest
    simp only [List.length_cons]
    omega
  · simp only [List.length_cons]
    omega

variable (repl : List UInt8)

/-- What the loop leaves: `offset`, the output, and `replaced` -/
structure Replaced where
  offset : UInt32
  out : OutBuf
  replaced : Bool

/-- The loop of `regexp_replace`; `none` when it takes more rounds than the fuel allows. -/
def regexpReplaceLoop : ℕ → Replaced → Option (Except String Replaced)
  | 0, _ => none
  | fuel + 1, s =>
    if s.offset ≤ hay.len then
      match env.pcre2Match s.offset with
      | none => some (.ok s)
      | some m =>
        if regexpMaxCaptures < m.rc then some (.error "regexp_replace: too many captures")
        else if m.stop < m.start ∨ hay.len.toNat < m.stop ∨ m.start < s.offset.toNat then
          some (.error "regexp_replace: bad match range")
        else
          match regexpAppendBytes env s.out
            (hay.window s.offset.toNat (m.start - s.offset.toNat)) with
          | none => some (.error "regexp_replace: out of memory")
          | some out =>
            match regexpAppendReplacement env hay m repl out with
            | none => some (.error "regexp_replace: out of memory")
            | some out =>
              if m.start = m.stop then
                if hay.len ≤ UInt32.ofNat m.stop then some (.ok ⟨UInt32.ofNat m.stop, out, true⟩)
                else regexpReplaceLoop fuel ⟨UInt32.ofNat m.stop + 1, out, true⟩
              else regexpReplaceLoop fuel ⟨UInt32.ofNat m.stop, out, true⟩
    else some (.ok s)

def regexpReplaceEnd (s : Replaced) : Except String (List UInt8) :=
  if s.replaced then
    match regexpAppendBytes env s.out
      (hay.window s.offset.toNat (hay.len - s.offset).toNat) with
    | none => .error "regexp_replace: out of memory"
    | some out => .ok out.bytes
  else .ok hay.bytes

def regexpReplace (fuel : ℕ) : Option (Except String (List UInt8)) :=
  if env.created then
    (regexpReplaceLoop env hay repl fuel ⟨0, ⟨[], 0⟩, false⟩).map fun r ↦
      r.bind (regexpReplaceEnd env hay)
  else some (.error "regexp_replace: out of memory")

end Source

section Expansion

variable (hay : CBytes) (m : RegexpMatch)

/-- The text of a group, empty for a group that took no part in the match -/
def captured (group : ℕ) : List UInt8 :=
  if m.rc ≤ group ∨ (m.ovec group).2 < (m.ovec group).1 ∨ (m.ovec group).1 = pcre2Unset ∨
      (m.ovec group).2 = pcre2Unset then []
  else hay.window (m.ovec group).1 ((m.ovec group).2 - (m.ovec group).1)

def expansion : List UInt8 → List UInt8
  | [] => []
  | [b] => [b]
  | b :: next :: rest =>
    if b = 0x24 ∧ next = 0x24 then 0x24 :: expansion rest
    else if b = 0x24 ∧ isDigit next then
      captured hay m (groupDigits (digitOf next) rest).1 ++
        expansion (groupDigits (digitOf next) rest).2
    else b :: expansion (next :: rest)
termination_by bs => bs.length
decreasing_by
  · simp only [List.length_cons]
    omega
  · have hle := length_groupDigits (digitOf next) rest
    simp only [List.length_cons]
    omega
  · simp only [List.length_cons]
    omega

/-- The groups that took part lie in the subject. -/
def RegexpMatch.Inside (m : RegexpMatch) (hay : CBytes) : Prop :=
  ∀ group < m.rc, (m.ovec group).2 ≠ pcre2Unset → (m.ovec group).2 ≤ hay.len.toNat

variable {hay m} {env : RegexpEnv} {out out' : OutBuf} {data bs : List UInt8}

theorem regexpAppendBytes_bytes (h : regexpAppendBytes env out data = some out') :
    out'.bytes = out.bytes ++ data := by
  by_cases hnone : data = []
  · rw [regexpAppendBytes, if_pos hnone, Option.some.injEq] at h
    rw [← h, hnone, List.append_nil]
  rw [regexpAppendBytes, if_neg hnone] at h
  dsimp only at h
  by_cases hbig : 2 ^ 32 - 1 < out.bytes.length + data.length
  · rw [if_pos hbig] at h
    exact absurd h (by simp)
  rw [if_neg hbig] at h
  by_cases hgrow : out.cap.toNat < out.bytes.length + data.length
  · rw [if_pos hgrow] at h
    split_ifs at h
    all_goals
      rw [Option.some.injEq] at h
      rw [← h]
  · rw [if_neg hgrow, Option.some.injEq] at h
    rw [← h]

theorem regexpAppendBytes_ok (halloc : ∀ out cap, env.realloc out cap = true)
    (hfits : (out.bytes ++ data).length < 2 ^ 32) :
    ∃ out', regexpAppendBytes env out data = some out' := by
  rw [List.length_append] at hfits
  rw [regexpAppendBytes]
  dsimp only
  rw [if_neg (show ¬ 2 ^ 32 - 1 < out.bytes.length + data.length by omega), if_pos (halloc _ _)]
  by_cases hnone : data = []
  · exact ⟨_, if_pos hnone⟩
  · rw [if_neg hnone]
    by_cases hgrow : out.cap.toNat < out.bytes.length + data.length
    · exact ⟨_, if_pos hgrow⟩
    · exact ⟨_, if_neg hgrow⟩

theorem regexpAppendCapture_bytes {group : ℕ}
    (h : regexpAppendCapture env hay m group out = some out') :
    out'.bytes = out.bytes ++ captured hay m group := by
  rw [regexpAppendCapture] at h
  dsimp only at h
  by_cases hrc : m.rc ≤ group
  · rw [if_pos hrc, Option.some.injEq] at h
    rw [captured, if_pos (.inl hrc), ← h, List.append_nil]
  rw [if_neg hrc] at h
  by_cases hunset : (m.ovec group).2 < (m.ovec group).1 ∨ (m.ovec group).1 = pcre2Unset ∨
      (m.ovec group).2 = pcre2Unset
  · rw [if_pos hunset, Option.some.injEq] at h
    rw [captured, if_pos (.inr hunset), ← h, List.append_nil]
  rw [if_neg hunset] at h
  split_ifs at h
  rw [captured, if_neg (not_or.mpr ⟨hrc, hunset⟩), regexpAppendBytes_bytes h]

theorem regexpAppendCapture_ok {group : ℕ} (halloc : ∀ out cap, env.realloc out cap = true)
    (hinside : m.Inside hay) (hfits : (out.bytes ++ captured hay m group).length < 2 ^ 32) :
    ∃ out', regexpAppendCapture env hay m group out = some out' := by
  rw [regexpAppendCapture]
  dsimp only
  by_cases hrc : m.rc ≤ group
  · exact ⟨_, if_pos hrc⟩
  rw [if_neg hrc]
  by_cases hunset : (m.ovec group).2 < (m.ovec group).1 ∨ (m.ovec group).1 = pcre2Unset ∨
      (m.ovec group).2 = pcre2Unset
  · exact ⟨_, if_pos hunset⟩
  rw [captured, if_neg (not_or.mpr ⟨hrc, hunset⟩)] at hfits
  rw [if_neg hunset]
  have hset := (not_or.mp (not_or.mp hunset).2).2
  rw [if_neg (Nat.not_lt.mpr (hinside group (Nat.not_le.mp hrc) hset))]
  exact regexpAppendBytes_ok halloc hfits

theorem regexpAppendReplacement_bytes
    (h : regexpAppendReplacement env hay m bs out = some out') :
    out'.bytes = out.bytes ++ expansion hay m bs := by
  induction bs using expansion.induct generalizing out with
  | case1 =>
    rw [regexpAppendReplacement, Option.some.injEq] at h
    rw [expansion, ← h, List.append_nil]
  | case2 b =>
    rw [regexpAppendReplacement] at h
    rw [expansion, regexpAppendBytes_bytes h]
  | case3 b next rest hdollar ih =>
    rw [regexpAppendReplacement, if_pos hdollar, Option.bind_eq_some_iff] at h
    obtain ⟨mid, hmid, hrest⟩ := h
    rw [expansion, if_pos hdollar, ih hrest, regexpAppendBytes_bytes hmid, List.append_assoc]
    rfl
  | case4 b next rest hdollar hgroup ih =>
    rw [regexpAppendReplacement, if_neg hdollar, if_pos hgroup, Option.bind_eq_some_iff] at h
    obtain ⟨mid, hmid, hrest⟩ := h
    rw [expansion, if_neg hdollar, if_pos hgroup, ih hrest, regexpAppendCapture_bytes hmid,
      List.append_assoc]
  | case5 b next rest hdollar hgroup ih =>
    rw [regexpAppendReplacement, if_neg hdollar, if_neg hgroup, Option.bind_eq_some_iff] at h
    obtain ⟨mid, hmid, hrest⟩ := h
    rw [expansion, if_neg hdollar, if_neg hgroup, ih hrest, regexpAppendBytes_bytes hmid,
      List.append_assoc]
    rfl

theorem regexpAppendReplacement_ok (halloc : ∀ out cap, env.realloc out cap = true)
    (hinside : m.Inside hay) (hfits : (out.bytes ++ expansion hay m bs).length < 2 ^ 32) :
    ∃ out', regexpAppendReplacement env hay m bs out = some out' := by
  induction bs using expansion.induct generalizing out with
  | case1 => exact ⟨out, by rw [regexpAppendReplacement]⟩
  | case2 b =>
    rw [expansion] at hfits
    rw [regexpAppendReplacement]
    exact regexpAppendBytes_ok halloc hfits
  | case3 b next rest hdollar ih =>
    rw [expansion, if_pos hdollar, List.append_cons] at hfits
    obtain ⟨mid, hmid⟩ := @regexpAppendBytes_ok env out [0x24] halloc
      (by rw [List.length_append] at hfits; omega)
    rw [regexpAppendReplacement, if_pos hdollar, hmid]
    exact ih (by rw [regexpAppendBytes_bytes hmid]; exact hfits)
  | case4 b next rest hdollar hgroup ih =>
    rw [expansion, if_neg hdollar, if_pos hgroup, ← List.append_assoc] at hfits
    obtain ⟨mid, hmid⟩ := regexpAppendCapture_ok halloc hinside
      (lt_of_le_of_lt (List.sublist_append_left _ _).length_le hfits)
    rw [regexpAppendReplacement, if_neg hdollar, if_pos hgroup, hmid]
    exact ih (by rw [regexpAppendCapture_bytes hmid]; exact hfits)
  | case5 b next rest hdollar hgroup ih =>
    rw [expansion, if_neg hdollar, if_neg hgroup, List.append_cons] at hfits
    obtain ⟨mid, hmid⟩ := @regexpAppendBytes_ok env out [b] halloc
      (by rw [List.length_append] at hfits; omega)
    rw [regexpAppendReplacement, if_neg hdollar, if_neg hgroup, hmid]
    exact ih (by rw [regexpAppendBytes_bytes hmid]; exact hfits)

end Expansion

section Replacement

variable (env : RegexpEnv) (hay : CBytes) (repl : List UInt8)

/-- A match lies in the subject and does not begin before the offset. -/
def InRange : Prop := ∀ offset m, offset ≤ hay.len → env.pcre2Match offset = some m →
  offset.toNat ≤ m.start ∧ m.start ≤ m.stop ∧ m.stop ≤ hay.len.toNat

/-- The matches found from left to right, from an offset on. After an empty match the search goes
on one byte further. -/
inductive Found : ℕ → List RegexpMatch → Prop
  | none {o : ℕ} (h : env.pcre2Match (UInt32.ofNat o) = .none) : Found o []
  | last {o : ℕ} {m : RegexpMatch} (h : env.pcre2Match (UInt32.ofNat o) = some m)
      (hempty : m.start = m.stop) (hend : m.stop = hay.len.toNat) : Found o [m]
  | empty {o : ℕ} {m : RegexpMatch} {ms : List RegexpMatch}
      (h : env.pcre2Match (UInt32.ofNat o) = some m) (hempty : m.start = m.stop)
      (hlt : m.stop < hay.len.toNat) (hrest : Found (m.stop + 1) ms) : Found o (m :: ms)
  | full {o : ℕ} {m : RegexpMatch} {ms : List RegexpMatch}
      (h : env.pcre2Match (UInt32.ofNat o) = some m) (hfull : m.start ≠ m.stop)
      (hrest : Found m.stop ms) : Found o (m :: ms)

/-- The subject from an offset on, with the matches replaced and everything else as it is -/
def weave : ℕ → List RegexpMatch → List UInt8
  | o, [] => hay.bytes.drop o
  | o, m :: ms =>
    (hay.bytes.drop o).take (m.start - o) ++ expansion hay m repl ++ weave m.stop ms

/-- The subject with the byte behind an empty match left out -/
def skipping : ℕ → List RegexpMatch → List UInt8
  | o, [] => hay.bytes.drop o
  | o, m :: ms =>
    (hay.bytes.drop o).take (m.start - o) ++ expansion hay m repl ++
      skipping (if m.start = m.stop ∧ m.stop < hay.len.toNat then m.stop + 1 else m.stop) ms

/-- No match before the end of the subject is empty. -/
def NoneEmpty (ms : List RegexpMatch) : Prop :=
  ∀ m ∈ ms, m.start = m.stop → m.stop = hay.len.toNat

variable {env hay repl} {o : ℕ} {ms : List RegexpMatch} {m : RegexpMatch}

theorem ofNat_toNat_le (ho : o ≤ hay.len.toNat) :
    (UInt32.ofNat o).toNat = o ∧ UInt32.ofNat o ≤ hay.len := by
  have hlt := hay.len.toNat_lt
  have hof : (UInt32.ofNat o).toNat = o := by
    rw [UInt32.toNat_ofNat']
    exact Nat.mod_eq_of_lt (by omega)
  exact ⟨hof, by rwa [UInt32.le_iff_toNat_le, hof]⟩

theorem InRange.at (hrange : InRange env hay) (ho : o ≤ hay.len.toNat)
    (h : env.pcre2Match (UInt32.ofNat o) = some m) :
    o ≤ m.start ∧ m.start ≤ m.stop ∧ m.stop ≤ hay.len.toNat := by
  obtain ⟨hof, hle⟩ := ofNat_toNat_le ho
  have h := hrange _ m hle h
  rwa [hof] at h

theorem weave_eq_skipping (h : NoneEmpty hay ms) : weave hay repl o ms = skipping hay repl o ms := by
  induction ms generalizing o with
  | nil => rfl
  | cons m ms ih =>
    rw [NoneEmpty, List.forall_mem_cons] at h
    have hnext : ¬ (m.start = m.stop ∧ m.stop < hay.len.toNat) := by
      rintro ⟨hempty, hlt⟩
      have heq := h.1 hempty
      omega
    rw [weave, skipping, if_neg hnext, ih h.2]

theorem length_weave_succ (hrange : InRange env hay) (ho : o < hay.len.toNat)
    (h : Found env hay (o + 1) ms) :
    (weave hay repl o ms).length = (weave hay repl (o + 1) ms).length + 1 := by
  have hlen := hay.length_bytes
  have hcons (m : RegexpMatch) (ms : List RegexpMatch)
      (hm : env.pcre2Match (UInt32.ofNat (o + 1)) = some m) :
      (weave hay repl o (m :: ms)).length = (weave hay repl (o + 1) (m :: ms)).length + 1 := by
    have hin := hrange.at ho hm
    simp only [weave, List.length_append, List.length_take, List.length_drop, hlen]
    omega
  cases h with
  | none h =>
    simp only [weave, List.length_drop, hlen]
    omega
  | last h => exact hcons _ _ h
  | empty h => exact hcons _ _ h
  | full h => exact hcons _ _ h

theorem length_skipping (hrange : InRange env hay) (ho : o ≤ hay.len.toNat)
    (h : Found env hay o ms) :
    (skipping hay repl o ms).length ≤ (weave hay repl o ms).length ∧
      ((skipping hay repl o ms).length = (weave hay repl o ms).length → NoneEmpty hay ms) := by
  induction h with
  | none h => exact ⟨le_rfl, fun _ _ hm ↦ absurd hm (List.not_mem_nil)⟩
  | @last o m h hempty hend =>
    have hnext : ¬ (m.start = m.stop ∧ m.stop < hay.len.toNat) := by omega
    simp only [skipping, weave, if_neg hnext]
    refine ⟨le_rfl, fun _ m' hm _ ↦ ?_⟩
    rw [List.mem_singleton.mp hm]
    exact hend
  | @empty o m ms h hempty hlt hrest ih =>
    have hin := hrange.at ho h
    obtain ⟨hle, -⟩ := ih hlt
    have hsucc := @length_weave_succ env hay repl _ _ hrange hlt hrest
    rw [skipping, weave, if_pos ⟨hempty, hlt⟩]
    simp only [List.length_append]
    exact ⟨by omega, fun heq ↦ by omega⟩
  | @full o m ms h hfull hrest ih =>
    have hin := hrange.at ho h
    obtain ⟨hle, heq⟩ := ih hin.2.2
    have hnext : ¬ (m.start = m.stop ∧ m.stop < hay.len.toNat) := fun hboth ↦ hfull hboth.1
    rw [skipping, weave, if_neg hnext]
    simp only [List.length_append]
    refine ⟨by omega, fun hsame ↦ ?_⟩
    rw [NoneEmpty, List.forall_mem_cons]
    exact ⟨fun hempty ↦ absurd hempty hfull, heq (by omega)⟩

/-- Memory never runs out, and nothing about the match stops the call. -/
structure Supported (env : RegexpEnv) (hay : CBytes) (ms : List RegexpMatch) : Prop where
  memory : ∀ out cap, env.realloc out cap = true
  captures : ∀ m ∈ ms, m.rc ≤ regexpMaxCaptures ∧ m.Inside hay

theorem Supported.tail (h : Supported env hay (m :: ms)) : Supported env hay ms :=
  ⟨h.memory, fun m' hm ↦ h.captures m' (List.mem_cons_of_mem m hm)⟩

/-- The state after a match, where the loop goes on or ends -/
def afterMatch (env : RegexpEnv) (hay : CBytes) (repl : List UInt8) (m : RegexpMatch) (fuel : ℕ)
    (out : OutBuf) : Option (Except String Replaced) :=
  if m.start = m.stop then
    if hay.len ≤ UInt32.ofNat m.stop then some (.ok ⟨UInt32.ofNat m.stop, out, true⟩)
    else regexpReplaceLoop env hay repl fuel ⟨UInt32.ofNat m.stop + 1, out, true⟩
  else regexpReplaceLoop env hay repl fuel ⟨UInt32.ofNat m.stop, out, true⟩

/-- One round with a match: the text before it and its expansion are added, or the call fails for
want of support. -/
theorem regexpReplaceLoop_match {s : Replaced} {fuel : ℕ}
    (hm : env.pcre2Match s.offset = some m) (ho : s.offset ≤ hay.len)
    (hin : s.offset.toNat ≤ m.start ∧ m.start ≤ m.stop ∧ m.stop ≤ hay.len.toNat) :
    (∃ out, out.bytes = s.out.bytes ++ ((hay.bytes.drop s.offset.toNat).take
        (m.start - s.offset.toNat) ++ expansion hay m repl) ∧
      regexpReplaceLoop env hay repl (fuel + 1) s = afterMatch env hay repl m fuel out) ∨
    (∃ msg, regexpReplaceLoop env hay repl (fuel + 1) s = some (.error msg)) ∧
      ¬ (Supported env hay [m] ∧ (s.out.bytes ++ ((hay.bytes.drop s.offset.toNat).take
        (m.start - s.offset.toNat) ++ expansion hay m repl)).length < 2 ^ 32) := by
  rw [regexpReplaceLoop, if_pos ho, hm]
  dsimp only
  by_cases hrc : regexpMaxCaptures < m.rc
  · rw [if_pos hrc]
    refine .inr ⟨⟨_, rfl⟩, fun ⟨hsup, _⟩ ↦ ?_⟩
    exact absurd (hsup.captures m (List.mem_singleton_self m)).1 (Nat.not_le.mpr hrc)
  have hbad : ¬ (m.stop < m.start ∨ hay.len.toNat < m.stop ∨ m.start < s.offset.toNat) := by omega
  rw [if_neg hrc, if_neg hbad, hay.take_drop_bytes (by omega)]
  rw [← List.append_assoc]
  cases hbefore : regexpAppendBytes env s.out
      (hay.window s.offset.toNat (m.start - s.offset.toNat)) with
  | none =>
    refine .inr ⟨⟨_, rfl⟩, fun ⟨hsup, hfits⟩ ↦ ?_⟩
    obtain ⟨out, hout⟩ := regexpAppendBytes_ok hsup.memory
      (lt_of_le_of_lt (List.sublist_append_left _ _).length_le hfits)
    rw [hbefore] at hout
    exact absurd hout (by simp)
  | some mid =>
    have hmid := regexpAppendBytes_bytes hbefore
    rw [← hmid]
    cases hrepl : regexpAppendReplacement env hay m repl mid with
    | none =>
      refine .inr ⟨⟨"regexp_replace: out of memory", by simp only [hrepl]⟩, fun ⟨hsup, hfits⟩ ↦ ?_⟩
      obtain ⟨out, hout⟩ := regexpAppendReplacement_ok hsup.memory
        (hsup.captures m (List.mem_singleton_self m)).2 hfits
      rw [hrepl] at hout
      exact absurd hout (by simp)
    | some out =>
      refine .inl ⟨out, regexpAppendReplacement_bytes hrepl, ?_⟩
      simp only [hrepl, afterMatch]

/-- What the loop leaves behind, and that it ends -/
structure LoopEnds (env : RegexpEnv) (hay : CBytes) (repl : List UInt8) (s : Replaced)
    (ms : List RegexpMatch) (r : Except String Replaced) : Prop where
  outcome : ∀ s', r = .ok s' → s'.offset ≤ hay.len ∧
    s'.out.bytes ++ hay.bytes.drop s'.offset.toNat =
      s.out.bytes ++ skipping hay repl s.offset.toNat ms ∧
    (s'.replaced = false → s.replaced = false ∧ ms = [])
  succeeds : Supported env hay ms →
    (s.out.bytes ++ skipping hay repl s.offset.toNat ms).length < 2 ^ 32 → ∃ s', r = .ok s'

theorem LoopEnds.of_error {s : Replaced} {msg : String}
    (h : ¬ (Supported env hay [m] ∧ (s.out.bytes ++ ((hay.bytes.drop s.offset.toNat).take
        (m.start - s.offset.toNat) ++ expansion hay m repl)).length < 2 ^ 32)) :
    LoopEnds env hay repl s (m :: ms) (.error msg) where
  outcome := fun s' hs' ↦ absurd hs' (by simp)
  succeeds := by
    intro hsup hfits
    refine absurd ⟨⟨hsup.memory, fun m' hm' ↦ ?_⟩, ?_⟩ h
    · rw [List.mem_singleton.mp hm']
      exact hsup.captures m List.mem_cons_self
    · rw [skipping, ← List.append_assoc] at hfits
      exact lt_of_le_of_lt (List.sublist_append_left _ _).length_le hfits

theorem LoopEnds.of_match {s s₁ : Replaced} {r : Except String Replaced}
    (hbytes : s₁.out.bytes = s.out.bytes ++ ((hay.bytes.drop s.offset.toNat).take
      (m.start - s.offset.toNat) ++ expansion hay m repl))
    (hnext : s₁.offset.toNat =
      if m.start = m.stop ∧ m.stop < hay.len.toNat then m.stop + 1 else m.stop)
    (hreplaced : s₁.replaced = true) (h : LoopEnds env hay repl s₁ ms r) :
    LoopEnds env hay repl s (m :: ms) r := by
  have hall : s₁.out.bytes ++ skipping hay repl s₁.offset.toNat ms =
      s.out.bytes ++ skipping hay repl s.offset.toNat (m :: ms) := by
    rw [hbytes, hnext, skipping, List.append_assoc]
  refine ⟨fun s' hs' ↦ ?_, fun hsup hfits ↦ h.succeeds hsup.tail (by rwa [hall])⟩
  obtain ⟨hle, hout, hflag⟩ := h.outcome s' hs'
  refine ⟨hle, hout.trans hall, fun hfalse ↦ ?_⟩
  rw [(hflag hfalse).1] at hreplaced
  exact absurd hreplaced Bool.false_ne_true

theorem loopEnds_nil {s : Replaced} (ho : s.offset ≤ hay.len) :
    LoopEnds env hay repl s [] (.ok s) := by
  refine ⟨fun s' hs' ↦ ?_, fun _ _ ↦ ⟨s, rfl⟩⟩
  rw [Except.ok.injEq] at hs'
  subst hs'
  exact ⟨ho, rfl, fun h ↦ ⟨h, rfl⟩⟩

/-- The induction is on the matches found: every round moves the offset on. -/
theorem regexpReplaceLoop_spec (hrange : InRange env hay) {fuel : ℕ} {s : Replaced}
    (h : Found env hay o ms) (hs : s.offset = UInt32.ofNat o) (ho : o ≤ hay.len.toNat)
    (hfuel : hay.len.toNat - o < fuel) :
    ∃ r, regexpReplaceLoop env hay repl fuel s = some r ∧ LoopEnds env hay repl s ms r := by
  induction h generalizing fuel s with
  | @none o h =>
    obtain ⟨fuel, rfl⟩ := Nat.exists_eq_add_of_le' (Nat.one_le_of_lt hfuel)
    have hle : s.offset ≤ hay.len := by
      rw [hs]
      exact (ofNat_toNat_le ho).2
    rw [← hs] at h
    refine ⟨.ok s, ?_, loopEnds_nil hle⟩
    rw [regexpReplaceLoop, if_pos hle, h]
  | @last o m h hempty hend =>
    obtain ⟨fuel, rfl⟩ := Nat.exists_eq_add_of_le' (Nat.one_le_of_lt hfuel)
    have hin := hrange.at ho h
    obtain ⟨hof, hle⟩ := ofNat_toNat_le ho
    obtain ⟨hstop, hstople⟩ := @ofNat_toNat_le hay m.stop hin.2.2
    rw [← hs] at h hle hof
    rw [← hof] at hin
    rcases @regexpReplaceLoop_match env hay repl m s fuel h hle hin with
      ⟨out, hbytes, hstep⟩ | ⟨⟨msg, herror⟩, hneed⟩
    · have hlast : hay.len ≤ UInt32.ofNat m.stop := by
        rw [UInt32.le_iff_toNat_le, hstop, hend]
      refine ⟨.ok ⟨UInt32.ofNat m.stop, out, true⟩, ?_, ?_⟩
      · rw [hstep, afterMatch, if_pos hempty, if_pos hlast]
      · refine LoopEnds.of_match hbytes ?_ rfl (loopEnds_nil hstople)
        rw [if_neg (by omega)]
        exact hstop
    · exact ⟨_, herror, .of_error hneed⟩
  | @empty o m ms h hempty hlt hrest ih =>
    obtain ⟨fuel, rfl⟩ := Nat.exists_eq_add_of_le' (Nat.one_le_of_lt hfuel)
    have hin := hrange.at ho h
    obtain ⟨hof, hle⟩ := ofNat_toNat_le ho
    obtain ⟨hstop, -⟩ := @ofNat_toNat_le hay m.stop hin.2.2
    obtain ⟨hnext, -⟩ := @ofNat_toNat_le hay (m.stop + 1) hlt
    rw [← hs] at h hle hof
    have hin' := hin
    rw [← hof] at hin'
    rcases @regexpReplaceLoop_match env hay repl m s fuel h hle hin' with
      ⟨out, hbytes, hstep⟩ | ⟨⟨msg, herror⟩, hneed⟩
    · have hmore : ¬ hay.len ≤ UInt32.ofNat m.stop := by
        rw [UInt32.le_iff_toNat_le, hstop]
        omega
      have hsucc : UInt32.ofNat m.stop + 1 = UInt32.ofNat (m.stop + 1) := (UInt32.ofNat_add _ _).symm
      obtain ⟨r, hr, hends⟩ := @ih fuel ⟨UInt32.ofNat m.stop + 1, out, true⟩ hsucc hlt (by omega)
      refine ⟨r, ?_, LoopEnds.of_match hbytes ?_ rfl hends⟩
      · rw [hstep, afterMatch, if_pos hempty, if_neg hmore]
        exact hr
      · rw [if_pos ⟨hempty, hlt⟩, hsucc]
        exact hnext
    · exact ⟨_, herror, .of_error hneed⟩
  | @full o m ms h hfull hrest ih =>
    obtain ⟨fuel, rfl⟩ := Nat.exists_eq_add_of_le' (Nat.one_le_of_lt hfuel)
    have hin := hrange.at ho h
    obtain ⟨hof, hle⟩ := ofNat_toNat_le ho
    obtain ⟨hstop, -⟩ := @ofNat_toNat_le hay m.stop hin.2.2
    rw [← hs] at h hle hof
    have hin' := hin
    rw [← hof] at hin'
    rcases @regexpReplaceLoop_match env hay repl m s fuel h hle hin' with
      ⟨out, hbytes, hstep⟩ | ⟨⟨msg, herror⟩, hneed⟩
    · obtain ⟨r, hr, hends⟩ := @ih fuel ⟨UInt32.ofNat m.stop, out, true⟩ rfl hin.2.2 (by omega)
      refine ⟨r, ?_, LoopEnds.of_match hbytes ?_ rfl hends⟩
      · rw [hstep, afterMatch, if_neg hfull]
        exact hr
      · rw [if_neg fun hboth ↦ hfull hboth.1]
        exact hstop
    · exact ⟨_, herror, .of_error hneed⟩

theorem exists_found (hrange : InRange env hay) (ho : o ≤ hay.len.toNat) :
    ∃ ms, Found env hay o ms := by
  induction hleft : hay.len.toNat - o using Nat.strong_induction_on generalizing o with
  | _ left ih =>
    subst hleft
    cases hm : env.pcre2Match (UInt32.ofNat o) with
    | none => exact ⟨[], .none hm⟩
    | some m =>
      have hin := hrange.at ho hm
      by_cases hempty : m.start = m.stop
      · by_cases hend : m.stop = hay.len.toNat
        · exact ⟨[m], .last hm hempty hend⟩
        · obtain ⟨ms, hms⟩ := ih _ (by omega) (show m.stop + 1 ≤ hay.len.toNat by omega) rfl
          exact ⟨m :: ms, .empty hm hempty (by omega) hms⟩
      · obtain ⟨ms, hms⟩ := ih _ (by omega) hin.2.2 rfl
        exact ⟨m :: ms, .full hm hempty hms⟩

theorem window_eq_drop (hay : CBytes) {i : UInt32} (h : i ≤ hay.len) :
    hay.window i.toNat (hay.len - i).toNat = hay.bytes.drop i.toNat := by
  have hle := UInt32.le_iff_toNat_le.mp h
  rw [UInt32.toNat_sub_of_le _ _ h, ← hay.take_drop_bytes (by omega)]
  apply List.take_of_length_le
  rw [List.length_drop, hay.length_bytes]

/-- The call ends. Its output is what the loop leaves out bytes of, and with enough support there
is one. -/
theorem regexpReplace_spec (hrange : InRange env hay) (h : Found env hay 0 ms) {fuel : ℕ}
    (hfuel : hay.len.toNat < fuel) : ∃ r, regexpReplace env hay repl fuel = some r ∧
      (∀ out, r = .ok out → out = skipping hay repl 0 ms) ∧
      (env.created = true → Supported env hay ms → (weave hay repl 0 ms).length < 2 ^ 32 →
        ∃ out, r = .ok out) := by
  by_cases hcreated : env.created = true
  swap
  · refine ⟨_, if_neg hcreated, fun out hout ↦ absurd hout (by simp), fun hc ↦ ?_⟩
    exact absurd hc hcreated
  obtain ⟨r, hr, hends⟩ := @regexpReplaceLoop_spec env hay repl _ _ hrange fuel
    ⟨0, ⟨[], 0⟩, false⟩ h rfl (Nat.zero_le _) hfuel
  rw [regexpReplace, if_pos hcreated, hr]
  refine ⟨_, rfl, ?_, fun _ hsup hfits ↦ ?_⟩
  · intro out hout
    cases r with
    | error msg => exact absurd hout (by simp [Except.bind])
    | ok s =>
      obtain ⟨hle, hbytes, hflag⟩ := hends.outcome s rfl
      have hout : regexpReplaceEnd env hay s = .ok out := hout
      rw [regexpReplaceEnd, window_eq_drop hay hle] at hout
      cases hreplaced : s.replaced with
      | false =>
        rw [hreplaced, if_neg Bool.false_ne_true, Except.ok.injEq] at hout
        rw [← hout, (hflag hreplaced).2]
        rfl
      | true =>
        rw [hreplaced, if_pos rfl] at hout
        cases happend : regexpAppendBytes env s.out (hay.bytes.drop s.offset.toNat) with
        | none => simp only [happend, reduceCtorEq] at hout
        | some last =>
          simp only [happend, Except.ok.injEq] at hout
          rw [← hout, regexpAppendBytes_bytes happend, hbytes]
          rfl
  · have hless := (@length_skipping env hay repl _ _ hrange (Nat.zero_le _) h).1
    obtain ⟨s, rfl⟩ := hends.succeeds hsup (lt_of_le_of_lt hless hfits)
    obtain ⟨hle, hbytes, -⟩ := hends.outcome s rfl
    change ∃ out, regexpReplaceEnd env hay s = .ok out
    rw [regexpReplaceEnd, window_eq_drop hay hle]
    cases s.replaced with
    | false => exact ⟨_, rfl⟩
    | true =>
      obtain ⟨last, hlast⟩ := regexpAppendBytes_ok hsup.memory
        (show (s.out.bytes ++ hay.bytes.drop s.offset.toNat).length < 2 ^ 32 by
          rw [hbytes]
          exact lt_of_le_of_lt hless hfits)
      rw [if_pos rfl, hlast]
      exact ⟨_, rfl⟩

variable (env hay repl)

/-- The call ends, and the output, unless it ends with an error, is the subject with the matches
replaced. -/
def LosesNothing (ms : List RegexpMatch) : Prop :=
  ∀ fuel > hay.len.toNat, ∃ r, regexpReplace env hay repl fuel = some r ∧
    ∀ out, r = .ok out → out = weave hay repl 0 ms

/-- The call ends, with an output where it is supported; and in an output no text is lost exactly
where no match before the end of the subject is empty. -/
theorem regexpReplace_iff (hrange : InRange env hay) : (∃ ms, Found env hay 0 ms) ∧
    ∀ ms, Found env hay 0 ms → ∀ fuel > hay.len.toNat,
      ∃ r, regexpReplace env hay repl fuel = some r ∧
        (env.created = true → Supported env hay ms → (weave hay repl 0 ms).length < 2 ^ 32 →
          ∃ out, r = .ok out) ∧
        ∀ out, r = .ok out → (out = weave hay repl 0 ms ↔ NoneEmpty hay ms) := by
  refine ⟨exists_found hrange (Nat.zero_le _), fun ms h fuel hfuel ↦ ?_⟩
  obtain ⟨r, hr, hskip, hok⟩ := @regexpReplace_spec env hay repl ms hrange h fuel hfuel
  refine ⟨r, hr, hok, fun out hout ↦ ?_⟩
  rw [hskip out hout]
  constructor
  · intro hsame
    exact (length_skipping hrange (Nat.zero_le _) h).2 (congrArg List.length hsame)
  · intro hnone
    exact (weave_eq_skipping hnone).symm

/-- A pattern that matches the empty text at every place of `ab` -/
def emptyEverywhere : RegexpEnv where
  created := true
  pcre2Match := fun o ↦ if o ≤ 2 then some ⟨1, fun _ ↦ (o.toNat, o.toNat)⟩ else none
  realloc := fun _ _ ↦ true

theorem emptyEverywhere_inRange :
    InRange emptyEverywhere (CBytes.ofList [0x61, 0x62]) := by
  intro offset m ho hm
  have hlen : (CBytes.ofList [0x61, 0x62]).len = 2 := rfl
  rw [hlen] at ho ⊢
  have hsome : emptyEverywhere.pcre2Match offset =
      some ⟨1, fun _ ↦ (offset.toNat, offset.toNat)⟩ := if_pos ho
  rw [hsome, Option.some.injEq] at hm
  subst hm
  exact ⟨le_rfl, le_rfl, UInt32.le_iff_toNat_le.mp ho⟩

/-- `a12b3` -/
def digitsText : CBytes := CBytes.ofList [0x61, 0x31, 0x32, 0x62, 0x33]

/-- The numbers of `a12b3` are matched. -/
def digitsEnv : RegexpEnv where
  created := true
  pcre2Match := fun o ↦
    if o ≤ 1 then some ⟨1, fun _ ↦ (1, 3)⟩ else if o ≤ 4 then some ⟨1, fun _ ↦ (4, 5)⟩ else none
  realloc := fun _ _ ↦ true

theorem digitsEnv_inRange : InRange digitsEnv digitsText := by
  intro offset m ho hm
  change (if offset ≤ 1 then some ⟨1, fun _ ↦ (1, 3)⟩
    else if offset ≤ 4 then some ⟨1, fun _ ↦ (4, 5)⟩ else none) = some m at hm
  have hlen : digitsText.len.toNat = 5 := rfl
  split_ifs at hm with h1 h4
  · rw [← Option.some.inj hm]
    exact ⟨UInt32.le_iff_toNat_le.mp h1, by decide, by decide⟩
  · rw [← Option.some.inj hm]
    exact ⟨UInt32.le_iff_toNat_le.mp h4, by decide, by decide⟩

/-- With `<$0>` for the numbers of `a12b3` the output is `a<12>b<3>`. -/
theorem regexpReplace_iff_digits : ∃ out,
    regexpReplace digitsEnv digitsText [0x3C, 0x24, 0x30, 0x3E] 6 = some (.ok out) ∧
      out = [0x61, 0x3C, 0x31, 0x32, 0x3E, 0x62, 0x3C, 0x33, 0x3E] := by
  have hfound : Found digitsEnv digitsText 0 [⟨1, fun _ ↦ (1, 3)⟩, ⟨1, fun _ ↦ (4, 5)⟩] :=
    .full rfl (by decide) (.full rfl (by decide) (.none rfl))
  have hrun : regexpReplace digitsEnv digitsText [0x3C, 0x24, 0x30, 0x3E] 6 =
      some (.ok [0x61, 0x3C, 0x31, 0x32, 0x3E, 0x62, 0x3C, 0x33, 0x3E]) := by decide +kernel
  obtain ⟨r, hr, -, hiff⟩ := (regexpReplace_iff digitsEnv digitsText [0x3C, 0x24, 0x30, 0x3E]
    digitsEnv_inRange).2 _ hfound 6 (by decide)
  rw [hrun, Option.some.injEq] at hr
  subst hr
  refine ⟨_, hrun, ((hiff _ rfl).mpr fun m hm ↦ ?_).trans (by decide +kernel)⟩
  fin_cases hm <;> exact fun h ↦ absurd h (by decide)

/-- Replacing every empty text of `ab` by `-` gives `---`, without the `a` and the `b`. -/
theorem emptyEverywhere_loses :
    InRange emptyEverywhere (CBytes.ofList [0x61, 0x62]) ∧
    ¬ ∀ ms, Found emptyEverywhere (CBytes.ofList [0x61, 0x62]) 0 ms →
      LosesNothing emptyEverywhere (CBytes.ofList [0x61, 0x62]) [0x2D] ms := by
  refine ⟨emptyEverywhere_inRange, fun h ↦ ?_⟩
  have hfound : Found emptyEverywhere (CBytes.ofList [0x61, 0x62]) 0
      [⟨1, fun _ ↦ (0, 0)⟩, ⟨1, fun _ ↦ (1, 1)⟩, ⟨1, fun _ ↦ (2, 2)⟩] :=
    .empty rfl rfl (by decide) (.empty rfl rfl (by decide) (.last rfl rfl rfl))
  obtain ⟨r, hr, hout⟩ := h _ hfound 3 (by decide)
  have hrun : regexpReplace emptyEverywhere (CBytes.ofList [0x61, 0x62]) [0x2D] 3 =
      some (.ok [0x2D, 0x2D, 0x2D]) := by decide +kernel
  have hweave : weave (CBytes.ofList [0x61, 0x62]) [0x2D] 0
      [⟨1, fun _ ↦ (0, 0)⟩, ⟨1, fun _ ↦ (1, 1)⟩, ⟨1, fun _ ↦ (2, 2)⟩] =
      [0x2D, 0x61, 0x2D, 0x62, 0x2D] := by decide +kernel
  rw [hrun, Option.some.injEq] at hr
  have hsame := hout _ hr.symm
  rw [hweave] at hsame
  exact absurd hsame (by decide)

end Replacement

end JelloVM
