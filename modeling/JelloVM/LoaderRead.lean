import JelloVM.Loader

namespace JelloVM

variable {α β : Type} {inp : BcInput} {off off' : ℕ}

theorem load_bind_iff {x : LoadM α} {f : α → LoadM β} {r : β × ℕ} :
    (x >>= f) off = .ok r ↔ ∃ a off', x off = .ok (a, off') ∧ f a off' = .ok r := by
  rw [load_bind]
  cases hx : x off with
  | error e => simp [Except.bind]
  | ok q =>
    constructor
    · exact fun h ↦ ⟨q.1, q.2, rfl, h⟩
    · rintro ⟨a, off', h, hf⟩
      obtain rfl := Except.ok.inj h
      exact hf

theorem load_pure_iff {a : α} {r : α × ℕ} :
    (pure a : LoadM α) off = .ok r ↔ r = (a, off) := by
  constructor
  · intro h
    exact (Except.ok.inj h).symm
  · rintro rfl
    rfl

theorem load_get_iff {r : ℕ × ℕ} : (get : LoadM ℕ) off = .ok r ↔ r = (off, off) := by
  constructor
  · intro h
    exact (Except.ok.inj h).symm
  · rintro rfl
    rfl

theorem load_set_iff {n : ℕ} {r : PUnit × ℕ} :
    (set n : LoadM PUnit) off = .ok r ↔ r = (⟨⟩, n) := by
  constructor
  · intro h
    exact (Except.ok.inj h).symm
  · rintro rfl
    rfl

theorem orFree_iff {x : ReadM α} {r : α × ℕ} : orFree x off = .ok r ↔ x off = .ok r := by
  unfold orFree
  cases hx : x off <;> simp

theorem bailIf_iff {c : Prop} [Decidable c] {e : BcError} {msg : String} {back : ℕ}
    {r : Unit × ℕ} : bailIf c e msg back off = .ok r ↔ ¬ c ∧ r = ((), off) := by
  unfold bailIf
  split_ifs with hc
  · simp [hc, bail]
  · rw [load_pure_iff]
    simp [hc]

theorem allocAt_iff {msg : String} {at' : ℕ} {r : Unit × ℕ} :
    allocAt inp msg at' off = .ok r ↔ inp.mallocs msg at' = true ∧ r = ((), off) := by
  unfold allocAt
  split_ifs with hm
  · rw [load_pure_iff]
    simp [hm]
  · constructor
    · intro h
      cases h
    · exact fun h ↦ absurd h.1 hm

theorem alloc_iff {msg : String} {r : Unit × ℕ} :
    alloc inp msg off = .ok r ↔ inp.mallocs msg off = true ∧ r = ((), off) := by
  rw [alloc, load_bind_iff]
  constructor
  · rintro ⟨a, off', h, ha⟩
    obtain ⟨rfl, rfl⟩ := Prod.mk.inj (load_get_iff.mp h)
    exact allocAt_iff.mp ha
  · exact fun h ↦ ⟨off, off, rfl, allocAt_iff.mpr h⟩

theorem needBytes_iff {n : ℕ} {msg : String} {r : Unit × ℕ} :
    needBytes inp n msg off = .ok r ↔ off + n ≤ inp.size ∧ r = ((), off) := by
  rw [needBytes, load_bind_iff]
  constructor
  · rintro ⟨a, off', h, ha⟩
    obtain ⟨rfl, rfl⟩ := Prod.mk.inj (Except.ok.inj (orFree_iff.mp h)).symm
    obtain ⟨hfit, hr⟩ := bailIf_iff.mp ha
    exact ⟨by simpa using hfit, hr⟩
  · rintro ⟨hfit, hr⟩
    exact ⟨_, off, rfl, bailIf_iff.mpr ⟨by simpa using hfit, hr⟩⟩

theorem rdSkip_iff {k : ℕ} {r : Unit × ℕ} :
    orFree (rdSkip k) off = .ok r ↔ r = ((), off + k) := by
  constructor
  · intro h
    exact (Except.ok.inj h).symm
  · rintro rfl
    rfl

theorem rdU32_iff {v : UInt32} : rdU32 inp off = .ok (v, off') ↔
    off + 4 ≤ inp.size ∧ off' = off + 4 ∧
      v = (inp.data off).toUInt32 ||| (inp.data (off + 1)).toUInt32 <<< 8 |||
        (inp.data (off + 2)).toUInt32 <<< 16 ||| (inp.data (off + 3)).toUInt32 <<< 24 := by
  rw [rdU32_eq]
  split_ifs with h
  · simp only [Except.ok.injEq, Prod.mk.injEq, h, true_and]
    exact ⟨fun ⟨hv, ho⟩ ↦ ⟨ho.symm, hv.symm⟩, fun ⟨ho, hv⟩ ↦ ⟨hv.symm, ho.symm⟩⟩
  · simp [h]

end JelloVM
