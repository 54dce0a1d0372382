import JelloVM.Loader

namespace JelloVM

section Frees

variable {α β : Type} {inp : BcInput}

/-- Where the load returns early, the module has been freed and `*out` is null. -/
def Frees (x : LoadM α) : Prop := ∀ off result out, x off = .error (.returns result out) → out = none

theorem frees_bind {x : LoadM α} {f : α → LoadM β} (hx : Frees x) (hf : ∀ a, Frees (f a)) :
    Frees (x >>= f) := by
  intro off result out h
  rw [load_bind] at h
  cases hr : x off with
  | error e =>
    rw [hr] at h
    obtain rfl := Except.error.inj h
    exact hx off _ _ hr
  | ok r =>
    rw [hr] at h
    exact hf r.1 r.2 _ _ h

theorem frees_pure (a : α) : Frees (pure a : LoadM α) := fun _ _ _ h ↦ nomatch h

theorem frees_get : Frees (get : LoadM ℕ) := fun _ _ _ h ↦ nomatch h

theorem frees_set (off : ℕ) : Frees (set off : LoadM PUnit) := fun _ _ _ h ↦ nomatch h

theorem frees_fault : Frees (fault : LoadM α) := fun _ _ _ h ↦ nomatch h

theorem frees_orFree (x : ReadM α) : Frees (orFree x) := by
  intro off result out h
  unfold orFree at h
  cases hx : x off with
  | ok r =>
    rw [hx] at h
    cases h
  | error e =>
    rw [hx] at h
    exact (BcExit.returns.inj (Except.error.inj h)).2.symm

theorem frees_bail (e : BcError) (msg : String) (back : ℕ) : Frees (bail e msg back : LoadM α) :=
  fun _ _ _ h ↦ (BcExit.returns.inj (Except.error.inj h)).2.symm

theorem frees_ite {c : Prop} [Decidable c] {x y : LoadM α} (hx : Frees x) (hy : Frees y) :
    Frees (if c then x else y) := by
  split_ifs
  · exact hx
  · exact hy

theorem frees_bailIf (c : Prop) [Decidable c] (e : BcError) (msg : String) (back : ℕ) :
    Frees (bailIf c e msg back) :=
  frees_ite (frees_bail e msg back) (frees_pure ())

theorem frees_optional {x : LoadM α} (present : Bool) (hx : Frees x) (absent : α) :
    Frees (optional present x absent) :=
  frees_ite hx (frees_pure absent)

theorem frees_check (v : Verdict) : Frees (check v) := by
  cases v with
  | ok u => exact frees_pure ()
  | error msg => exact frees_bail _ _ _

theorem frees_each {body : ℕ → LoadM α} (h : ∀ i, Frees (body i)) (n : ℕ) :
    ∀ i, Frees (each body i n) := by
  induction n with
  | zero => exact fun i ↦ frees_pure []
  | succ n ih =>
    exact fun i ↦ frees_bind (h i) fun a ↦ frees_bind (ih (i + 1)) fun as ↦ frees_pure _

theorem frees_allocAt (msg : String) (off : ℕ) : Frees (allocAt inp msg off) := by
  refine frees_ite (frees_pure ()) fun off' result out h ↦ ?_
  exact (BcExit.returns.inj (Except.error.inj h)).2.symm

theorem frees_alloc (msg : String) : Frees (alloc inp msg) :=
  frees_bind frees_get fun off ↦ frees_allocAt msg off

theorem frees_readTable (msg : String) (n : ℕ) {body : ℕ → LoadM α} (h : ∀ i, Frees (body i)) :
    Frees (readTable inp msg n body) :=
  frees_ite (frees_pure []) (frees_bind (frees_alloc _) fun _ ↦ frees_each h _ 0)

theorem frees_readWord : Frees (readWord inp) := frees_bind (frees_orFree _) fun _ ↦ frees_pure _

theorem frees_readWord64 : Frees (readWord64 inp) :=
  frees_bind (frees_orFree _) fun _ ↦ frees_bind (frees_orFree _) fun _ ↦ frees_pure _

theorem frees_takeBytes (n : ℕ) : Frees (takeBytes inp n) :=
  frees_bind frees_get fun _ ↦ frees_bind (frees_set _) fun _ ↦ frees_pure _

theorem frees_needBytes (n : ℕ) (msg : String) : Frees (needBytes inp n msg) :=
  frees_bind (frees_orFree _) fun _ ↦ frees_bailIf _ _ _ _

end Frees

section Sections

variable {inp : BcInput}

theorem frees_readType (h : BcHeader) : Frees (readType inp h) := by
  refine frees_bind (frees_orFree _) fun code ↦ frees_bind (frees_orFree _) fun _ ↦ ?_
  refine frees_bind (frees_orFree _) fun _ ↦ frees_bind frees_readWord fun p0 ↦ ?_
  refine frees_bind frees_readWord fun _ ↦ ?_
  cases Kind.ofCode code with
  | none => exact frees_bail _ _ _
  | some kind => exact frees_bind (frees_check _) fun _ ↦ frees_pure _

theorem frees_readTypes (h : BcHeader) : Frees (readTypes inp h) :=
  frees_readTable _ _ fun _ ↦ frees_readType h

theorem frees_readTypeId (h : BcHeader) (msg : String) : Frees (readTypeId inp h msg) :=
  frees_bind frees_readWord fun _ ↦ frees_bind (frees_bailIf _ _ _ _) fun _ ↦ frees_pure _

theorem frees_readSig (h : BcHeader) : Frees (readSig inp h) := by
  refine frees_bind frees_readWord fun ret ↦ frees_bind (frees_orFree _) fun nargs ↦ ?_
  refine frees_bind (frees_orFree _) fun _ ↦ frees_bind (frees_bailIf _ _ _ _) fun _ ↦ ?_
  exact frees_bind (frees_readTable _ _ fun _ ↦ frees_readTypeId h _) fun args ↦ frees_pure _

theorem frees_readSigs (h : BcHeader) : Frees (readSigs inp h) :=
  frees_readTable _ _ fun _ ↦ frees_readSig h

theorem frees_atomLen : Frees (atomLen inp) :=
  frees_bind frees_readWord fun _ ↦ frees_ite (frees_pure 0) (frees_bind (frees_needBytes _ _) fun _ ↦
    frees_bind (frees_orFree _) fun _ ↦ frees_pure _)

theorem frees_atomBytes (expected : ℕ) : Frees (atomBytes inp expected) :=
  frees_bind frees_readWord fun _ ↦ frees_bind (frees_bailIf _ _ _ _) fun _ ↦
    frees_ite (frees_pure []) (frees_bind (frees_needBytes _ _) fun _ ↦ frees_takeBytes _)

theorem frees_readAtoms (h : BcHeader) : Frees (readAtoms inp h) := by
  refine frees_ite (frees_pure []) (frees_bind frees_get fun start ↦ ?_)
  refine frees_bind (frees_alloc _) fun _ ↦ ?_
  refine frees_bind (frees_each (fun _ ↦ frees_atomLen) _ 0) fun lens ↦ ?_
  refine frees_bind (frees_allocAt _ _) fun _ ↦ frees_bind (frees_allocAt _ _) fun _ ↦ ?_
  exact frees_bind (frees_set _) fun _ ↦ frees_each (fun i ↦ frees_atomBytes _) _ 0

theorem frees_readConst64 (msg : String) (n : ℕ) : Frees (readConst64 inp msg n) :=
  frees_readTable _ _ fun _ ↦ frees_readWord64

theorem frees_skipPayload (len : UInt32) : Frees (skipPayload inp len) :=
  frees_ite (frees_pure ()) (frees_bind (frees_needBytes _ _) fun _ ↦ frees_orFree _)

theorem frees_constBytesIndex (n : ℕ) : ∀ total, Frees (constBytesIndex inp n total) := by
  induction n with
  | zero => exact fun total ↦ frees_pure _
  | succ n ih =>
    intro total
    refine frees_bind (frees_orFree _) fun len ↦ frees_bind (frees_skipPayload len) fun _ ↦ ?_
    exact frees_bind (ih _) fun _ ↦ frees_pure _

theorem frees_copyPayload (total : UInt32) (blob : ℕ → UInt8) (dst len : UInt32) :
    Frees (copyPayload inp total blob dst len) :=
  frees_ite (frees_pure blob) (frees_bind (frees_needBytes _ _) fun _ ↦
    frees_bind frees_get fun _ ↦
    frees_ite (frees_bind (frees_orFree _) fun _ ↦ frees_pure _) frees_fault)

theorem frees_constBytesCopy (total : UInt32) (lens : List UInt32) :
    ∀ offs blob, Frees (constBytesCopy inp total lens offs blob) := by
  induction lens with
  | nil => exact fun offs blob ↦ frees_pure blob
  | cons expected lens ih =>
    intro offs blob
    cases offs with
    | nil => exact frees_pure blob
    | cons dst offs =>
      refine frees_bind (frees_orFree _) fun len ↦ frees_bind (frees_bailIf _ _ _ _) fun _ ↦ ?_
      exact frees_bind (frees_copyPayload _ _ _ _) fun blob ↦ ih offs blob

theorem frees_readConstBytes (n : ℕ) : Frees (readConstBytes inp n) := by
  refine frees_ite (frees_pure _) (frees_bind (frees_alloc _) fun _ ↦ ?_)
  refine frees_bind frees_get fun start ↦ frees_bind (frees_constBytesIndex n 0) fun r ↦ ?_
  refine frees_bind (frees_ite (frees_pure ()) (frees_alloc _)) fun _ ↦ ?_
  exact frees_bind (frees_set _) fun _ ↦ frees_bind (frees_constBytesCopy _ _ _ _) fun _ ↦
    frees_pure _

theorem frees_readSourceFiles : Frees (readSourceFiles inp) := by
  refine frees_bind frees_readWord fun n ↦ frees_readTable _ _ fun _ ↦ ?_
  refine frees_bind frees_readWord fun len ↦ frees_bind (frees_needBytes _ _) fun _ ↦ ?_
  exact frees_bind (frees_alloc _) fun _ ↦ frees_takeBytes _

theorem frees_readLine (features : Features) : Frees (readLine inp features) :=
  frees_ite (frees_orFree _) (frees_bind (frees_orFree _) fun _ ↦ frees_pure _)

theorem frees_readInsn (m : JelloBcModule) (regTypes : List ℕ) (ninsns pc : ℕ) :
    Frees (readInsn inp m regTypes ninsns pc) := by
  refine frees_bind (frees_orFree _) fun code ↦ frees_bind (frees_orFree _) fun _ ↦ ?_
  refine frees_bind (frees_orFree _) fun _ ↦ frees_bind (frees_orFree _) fun _ ↦ ?_
  refine frees_bind (frees_orFree _) fun imm ↦ ?_
  cases JelloOp.ofCode code with
  | none => exact frees_bail _ _ _
  | some op => exact frees_bind (frees_check _) fun _ ↦ frees_pure _

theorem frees_checkSemantics (fn : JelloBcFunction) : Frees (checkSemantics fn) :=
  frees_ite (frees_pure ()) (frees_check _)

theorem frees_readFunction (h : BcHeader) (m : JelloBcModule) : Frees (readFunction inp h m) := by
  refine frees_bind frees_readWord fun nregs ↦ frees_bind (frees_optional _ frees_readWord 0) fun capStart ↦ ?_
  refine frees_bind frees_readWord fun ninsns ↦ frees_bind (frees_bailIf _ _ _ _) fun _ ↦ ?_
  refine frees_bind (frees_readTable _ _ fun _ ↦ frees_readTypeId h _) fun regTypes ↦ ?_
  have hfile : Frees (readFileId inp) := frees_bind (frees_orFree _) fun _ ↦ frees_pure _
  refine frees_bind (frees_optional _ hfile 0) fun sourceFile ↦ ?_
  refine frees_bind (frees_optional _ (frees_readTable _ _ fun _ ↦ frees_readLine _) [])
    fun lines ↦ ?_
  refine frees_bind (frees_readTable _ _ fun pc ↦ frees_readInsn m regTypes ninsns pc)
    fun insns ↦ ?_
  exact frees_bind (frees_checkSemantics _) fun _ ↦ frees_pure _

theorem frees_readBody (h : BcHeader) : Frees (readBody inp h) := by
  refine frees_bind (frees_readTypes h) fun types ↦ frees_bind (frees_readSigs h) fun sigs ↦ ?_
  refine frees_bind (frees_readAtoms h) fun atoms ↦ ?_
  refine frees_bind (frees_optional _ (frees_readConst64 _ _) []) fun constI64 ↦ ?_
  refine frees_bind (frees_optional _ (frees_readConst64 _ _) []) fun constF64 ↦ ?_
  refine frees_bind (frees_optional _ (frees_readConstBytes _) _) fun pool ↦ ?_
  refine frees_bind (frees_optional _ frees_readSourceFiles []) fun sourceFiles ↦ ?_
  refine frees_bind (frees_readTable _ _ fun _ ↦ frees_readFunction h _) fun funcs ↦ ?_
  exact frees_pure _

theorem frees_readHeader : Frees (readHeader inp) := by
  refine frees_bind (frees_orFree _) fun _ ↦ frees_bind (frees_bailIf _ _ _ _) fun _ ↦ ?_
  refine frees_bind (frees_orFree _) fun bits ↦ ?_
  refine frees_bind frees_readWord fun _ ↦ frees_bind frees_readWord fun _ ↦ frees_bind frees_readWord fun _ ↦ ?_
  refine frees_bind frees_readWord fun _ ↦ frees_bind frees_readWord fun _ ↦ ?_
  refine frees_bind (frees_bailIf _ _ _ _) fun _ ↦ ?_
  refine frees_bind (frees_optional _ frees_readWord 0) fun _ ↦ ?_
  refine frees_bind (frees_optional _ frees_readWord 0) fun _ ↦ ?_
  exact frees_bind (frees_optional _ frees_readWord 0) fun _ ↦ frees_pure _

end Sections

section Result

variable (inp : BcInput)

theorem frees_readAll (hsize : 4 ≤ inp.size) {result : BcResult} {out : Option LoadedModule}
    (h : readAll inp 0 = .error (.returns result out)) : out = none := by
  obtain ⟨v, hv⟩ : ∃ v, rdU32 inp 0 = .ok (v, 4) := ⟨_, (rdU32_eq inp 0).trans (if_pos (by omega))⟩
  have hmagic : orReturn (rdU32 inp) 0 = .ok (v, 4) := by rw [orReturn, hv]
  have hrest : Frees (do
      bailIf (v ≠ bcMagic) .badMagic "bad magic" 4
      let h ← readHeader inp
      readBody inp h) :=
    frees_bind (frees_bailIf _ _ _ _) fun _ ↦ frees_bind frees_readHeader fun h ↦ frees_readBody h
  have hrun : readAll inp 0 = (do
      bailIf (v ≠ bcMagic) .badMagic "bad magic" 4
      let h ← readHeader inp
      readBody inp h) 4 := by
    rw [readAll, readMagic, bind_assoc, load_bind, hmagic]
    rfl
  rw [hrun] at h
  exact hrest 4 _ _ h

/-- A failed load leaves nothing behind unless the file has less than four bytes. -/
theorem failed_load_out_iff :
    (∀ r, jelloBcRead inp = some r → r.err ≠ none → r.out = none) ↔
      4 ≤ inp.size ∨ inp.mallocs "oom module" 0 = false := by
  unfold jelloBcRead
  cases hmod : inp.mallocs "oom module" 0 with
  | false =>
    refine iff_of_true (fun r h _ ↦ ?_) (.inr rfl)
    rw [← Option.some.inj h]
  | true =>
    rw [if_pos rfl]
    simp only [reduceCtorEq, or_false]
    constructor
    · intro h
      by_contra hsize
      have hrun : readAll inp 0 =
          .error (.returns ⟨.eof, "unexpected EOF", 0⟩ (some zeroModule)) := by
        rw [readAll, readMagic, bind_assoc, load_bind, orReturn, rdU32_eq, if_neg (by omega)]
        rfl
      rw [hrun] at h
      exact absurd (h _ rfl (by simp)) (by simp)
    · intro hsize r h herr
      cases hrun : readAll inp 0 with
      | ok l =>
        rw [hrun] at h
        rw [← Option.some.inj h] at herr
        exact absurd rfl herr
      | error e =>
        rw [hrun] at h
        cases e with
        | returns result out =>
          rw [← Option.some.inj h]
          exact frees_readAll inp hsize hrun
        | faults => cases h

end Result

def emptyInput : BcInput :=
  { data := fun _ ↦ 0
    size := 0
    mallocs := fun _ _ ↦ true
    fresh := fun _ ↦ 0
    beyond := fun _ _ ↦ false }

/-- The load of an empty file fails, and `*out` is a module. -/
theorem empty_file_out : ∃ r, jelloBcRead emptyInput = some r ∧
    r.err = some ⟨.eof, "unexpected EOF", 0⟩ ∧ r.out.isSome = true := by
  have hrun : readAll emptyInput 0 =
      .error (.returns ⟨.eof, "unexpected EOF", 0⟩ (some zeroModule)) := rfl
  have hmod : emptyInput.mallocs "oom module" 0 = true := rfl
  refine ⟨⟨some ⟨.eof, "unexpected EOF", 0⟩, some zeroModule⟩, ?_, rfl, rfl⟩
  rw [jelloBcRead, if_pos hmod, hrun]

end JelloVM
