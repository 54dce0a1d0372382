import JelloVM.Threads

namespace JelloVM

open Function Logged

/-- The thread has not ended. -/
def Party.Working : Party → Prop
  | .starting | .sharing | .running | .joining _ | .reaping _ _ => True
  | _ => False

def Party.HasMachine : Party → Prop
  | .sharing | .running | .joining _ | .reaping _ _ => True
  | _ => False

def ThreadSystem.Unheld (s : ThreadSystem) (i : ℕ) : Prop :=
  ∀ h, s.handle i = some h → h.thread = none

/-- What holds of the system between any two steps. -/
structure ThreadSystem.Sound (s : ThreadSystem) : Prop where
  main : 0 < s.next ∧ s.thread 0 = none ∧ s.handle 0 = none ∧ s.ended 0 = none
  mainParty : s.party 0 ≠ .starting ∧ s.party 0 ≠ .sharing ∧ s.party 0 ≠ .published ∧
    s.party 0 ≠ .absent
  fresh : ∀ i, s.next ≤ i →
    s.thread i = none ∧ s.handle i = none ∧ s.ended i = none ∧ s.party i = .absent
  present : ∀ i, i < s.next → s.party i ≠ .absent
  lower : ∀ i, 0 < i → i < s.next → s.parent i < i
  record : ∀ i t, s.thread i = some t →
    ∃ b, t = recordOf (s.parent i) (s.ended i) b
  working : ∀ i, 0 < i → i < s.next → ((s.party i).Working ↔ s.ended i = none)
  active : ∀ i, 0 < i → (s.party i).Working ∨ s.party i = .published →
    s.thread i ≠ none
  held : ∀ i h, s.handle i = some h → h.owner = s.parent i ∧
    (h.thread = none ∨
      h.thread = some i ∧ s.thread i = some (recordOf (s.parent i) (s.ended i) false))
  joining : ∀ p i, s.party p = .joining i → s.parent i = p ∧ s.Unheld i ∧
    s.thread i = some (recordOf (s.parent i) (s.ended i) false)
  reaping : ∀ p i seen, s.party p = .reaping i seen → s.parent i = p ∧ s.Unheld i ∧
    s.ended i ≠ none ∧ seen = recordOf (s.parent i) (s.ended i) true ∧
    s.thread i = some seen
  machines : ∀ i, (s.party i).HasMachine → s.machine i = true
  owners : ∀ i h, s.handle i = some h → s.machine h.owner = true
  childless : ∀ i, 0 < i → i < s.next →
    s.party (s.parent i) ≠ .starting ∧ s.party (s.parent i) ≠ .sharing
  ran : ∀ i r, s.ended i = some (.ran r) → s.thread i ≠ none → s.machine i = true
  freed : ∀ i, 0 < i → i < s.next → (s.thread i = none ↔ ∃ j ∈ s.joins, j.thread = i)
  once : (s.joins.map Join.thread).Nodup
  outcome : ∀ j ∈ s.joins, 0 < j.thread ∧ j.thread < s.next ∧ j.parent = s.parent j.thread ∧
    ∃ e, s.ended j.thread = some e ∧ j.outcome = e.outcome

namespace ThreadSystem

/-- `std.thread_spawn` of party `p`; without a handle it joins the thread itself. -/
def spawned (s : ThreadSystem) (p : ℕ) (handleOk : Bool) : ThreadSystem :=
  { s with
    thread := update s.thread s.next (some (recordOf p none false))
    handle := fun j ↦ if j = s.next ∧ handleOk = true then some ⟨p, some j⟩ else s.handle j
    party := fun j ↦
      if j = s.next then .starting
      else if j = p ∧ handleOk = false then .joining s.next else s.party j
    lent := update s.lent s.next true
    next := s.next + 1
    parent := update s.parent s.next p }

def moved (s : ThreadSystem) (i : ℕ) (y : Party) (m l : ℕ → Bool) : ThreadSystem :=
  { s with party := update s.party i y, machine := m, lent := l }

def published (s : ThreadSystem) (i : ℕ) (y : Party) (m l : ℕ → Bool) (e : Ending) (b : Bool) :
    ThreadSystem :=
  { s with
    thread := update s.thread i (some (recordOf (s.parent i) (some e) b))
    party := update s.party i y
    machine := m
    lent := l
    ended := update s.ended i (some e) }

def taken (s : ThreadSystem) (p i : ℕ) : ThreadSystem :=
  { s with
    handle := update s.handle i (some ⟨p, none⟩)
    party := update s.party p (.joining i) }

def locked (s : ThreadSystem) (p i : ℕ) : ThreadSystem :=
  { s with
    thread := update s.thread i (some (recordOf (s.parent i) (s.ended i) true))
    party := update s.party p (.reaping i (recordOf (s.parent i) (s.ended i) true)) }

def reaped (s : ThreadSystem) (p i : ℕ) (m l : ℕ → Bool) (e : Ending) : ThreadSystem :=
  { s with
    thread := update s.thread i none
    party := update s.party p .running
    machine := m
    lent := l
    joins := s.joins ++ [⟨p, i, e.outcome⟩] }

def collected (s : ThreadSystem) (i : ℕ) : ThreadSystem :=
  { s with handle := update s.handle i none }

def detached (s : ThreadSystem) (i : ℕ) : ThreadSystem :=
  { s with
    thread := update s.thread i (some (recordOf (s.parent i) (s.ended i) true))
    handle := update s.handle i none }

/-- What a step can do to the system. A party that neither starts nor ends a join `moved` on,
a worker `published` how it has ended; the machines of others are left alone. -/
inductive Change (s : ThreadSystem) : ThreadSystem → Prop
  | idle : Change s s
  | dropped (l : ℕ → Bool) : Change s { s with lent := l }
  | spawned {p : ℕ} (handleOk : Bool) (hp : s.party p = .running) :
      Change s (s.spawned p handleOk)
  | moved {i : ℕ} {y : Party} {m l : ℕ → Bool} (hi : s.party i ≠ .absent)
      (hp : ∀ j, s.party i ≠ .joining j) (hp' : ∀ j seen, s.party i ≠ .reaping j seen)
      (hy : ∀ j, y ≠ .joining j) (hy' : ∀ j seen, y ≠ .reaping j seen)
      (hmain : i = 0 → y = .exited)
      (hwork : 0 < i → (y.Working ↔ (s.party i).Working) ∧ y ≠ .published ∧ y ≠ .absent)
      (hstart : y = .starting ∨ y = .sharing → s.party i = .starting ∨ s.party i = .sharing)
      (hm : ∀ j ≠ i, m j = s.machine j)
      (hmi : y.HasMachine ∨ (∃ r, s.ended i = some (.ran r)) ∨ ¬ s.Swept i → m i = true) :
      Change s (s.moved i y m l)
  | published {i : ℕ} {y : Party} {m l : ℕ → Bool} {e : Ending} {b : Bool} (hi : 0 < i)
      (hw : (s.party i).Working)
      (hp : ∀ j, s.party i ≠ .joining j) (hp' : ∀ j seen, s.party i ≠ .reaping j seen)
      (hy : y = .published ∨ y = .exited)
      (ht : s.thread i = some (recordOf (s.parent i) none b))
      (hm : ∀ j ≠ i, m j = s.machine j)
      (hmi : (∃ r, e = .ran r) ∨ ¬ s.Swept i → m i = true) :
      Change s (s.published i y m l e b)
  | taken {p i : ℕ} (hp : s.party p = .running) (hh : s.handle i = some ⟨p, some i⟩) :
      Change s (s.taken p i)
  | locked {p i : ℕ} (hp : s.party p = .joining i) (he : s.ended i ≠ none) :
      Change s (s.locked p i)
  | reaped {p i : ℕ} {seen : JelloThread} {m l : ℕ → Bool} {e : Ending}
      (hp : s.party p = .reaping i seen) (hi : s.party i = .exited) (he : s.ended i = some e)
      (hw : s.Swept i) (hm : ∀ j ≠ i, m j = s.machine j) :
      Change s (s.reaped p i m l e)
  | collected {i : ℕ} {h : ThreadHandle} (hh : s.handle i = some h) (hn : h.thread = none) :
      Change s (s.collected i)
  | detached {p i : ℕ} (hh : s.handle i = some ⟨p, some i⟩) :
      Change s (s.detached i)

variable {s s' : ThreadSystem} {p i : ℕ}

theorem sound_init : init.Sound := by
  constructor <;> simp only [init]
  case mainParty => simp
  case machines => grind [Party.HasMachine]
  all_goals grind [Party.Working]

section Change

variable (hs : s.Sound)
include hs

theorem Sound.lt_next (hp : s.party p ≠ .absent) : p < s.next := by
  by_contra h
  exact hp (hs.fresh p (by omega)).2.2.2

theorem Sound.exists_record (hi : 0 < i) (hp : (s.party i).Working ∨ s.party i = .published) :
    ∃ b, s.thread i = some (recordOf (s.parent i) (s.ended i) b) := by
  obtain ⟨t, ht⟩ := Option.ne_none_iff_exists'.mp (hs.active i hi hp)
  obtain ⟨b, rfl⟩ := hs.record i t ht
  exact ⟨b, ht⟩

theorem Sound.swept_of_starting (hp : s.party i = .starting ∨ s.party i = .sharing) :
    s.Swept i := by
  intro j h hj hown
  have hpar := (hs.held j h hj).1
  have hlt : j < s.next := by
    by_contra hn
    rw [(hs.fresh j (by omega)).2.1] at hj
    nomatch hj
  have hpos : 0 < j := Nat.pos_of_ne_zero fun h0 ↦ by
    rw [h0, hs.main.2.2.1] at hj
    nomatch hj
  have hc := hs.childless j hpos hlt
  rw [← hpar, hown] at hc
  exact hp.elim hc.1 hc.2

theorem Sound.spawned (handleOk : Bool) (hp : s.party p = .running) :
    (s.spawned p handleOk).Sound := by
  unfold ThreadSystem.spawned
  have hlt := hs.lt_next (p := p) (by rw [hp]; nofun)
  have hm := hs.machines p (by rw [hp]; trivial)
  have hnew := hs.fresh s.next le_rfl
  exact
    { hs with
      main := by grind [hs.main]
      mainParty := by grind [hs.mainParty]
      fresh := by grind [hs.fresh]
      present := by grind [hs.present]
      lower := by have := hs.lower; grind
      record := by grind [hs.record]
      working := by grind [hs.working, Party.Working]
      active := by grind [hs.active, Party.Working]
      held := by grind [hs.held]
      joining := by have := hs.joining; grind [Unheld]
      reaping := by have := hs.reaping; grind [Unheld]
      machines := by grind [hs.machines, Party.HasMachine]
      owners := by grind [hs.owners]
      childless := by have := hs.childless; have := hs.lower; grind
      ran := by grind [hs.ran]
      freed := by grind [hs.freed, hs.outcome]
      outcome := by have := hs.outcome; grind }

theorem Sound.moved {y : Party} {m l : ℕ → Bool} (hi : s.party i ≠ .absent)
    (hy : ∀ j, y ≠ .joining j) (hy' : ∀ j seen, y ≠ .reaping j seen)
    (hmain : i = 0 → y = .exited)
    (hwork : 0 < i → (y.Working ↔ (s.party i).Working) ∧ y ≠ .published ∧ y ≠ .absent)
    (hstart : y = .starting ∨ y = .sharing → s.party i = .starting ∨ s.party i = .sharing)
    (hm : ∀ j ≠ i, m j = s.machine j)
    (hmi : y.HasMachine ∨ (∃ r, s.ended i = some (.ran r)) ∨ ¬ s.Swept i → m i = true) :
    (s.moved i y m l).Sound := by
  unfold ThreadSystem.moved
  have hlt := hs.lt_next hi
  exact
    { hs with
      mainParty := by grind [hs.mainParty]
      fresh := by grind [hs.fresh]
      present := by grind [hs.present]
      working := by grind [hs.working]
      active := by grind [hs.active]
      joining := by grind [hs.joining, Unheld]
      reaping := by grind [hs.reaping, Unheld]
      machines := by grind [hs.machines]
      owners := by grind [hs.owners, Swept]
      childless := by grind [hs.childless]
      ran := by grind [hs.ran] }

theorem Sound.published {y : Party} {m l : ℕ → Bool} {e : Ending} {b : Bool} (hi : 0 < i)
    (hw : (s.party i).Working)
    (hy : y = .published ∨ y = .exited)
    (ht : s.thread i = some (recordOf (s.parent i) none b))
    (hm : ∀ j ≠ i, m j = s.machine j)
    (hmi : (∃ r, e = .ran r) ∨ ¬ s.Swept i → m i = true) :
    (s.published i y m l e b).Sound := by
  unfold ThreadSystem.published
  have hlt : i < s.next := hs.lt_next fun h ↦ by rw [h] at hw; exact hw
  have hend := (hs.working i hi hlt).mp hw
  exact
    { hs with
      main := by grind [hs.main]
      mainParty := by grind [hs.mainParty]
      fresh := by grind [hs.fresh]
      present := by grind [hs.present]
      record := by grind [hs.record]
      working := by grind [hs.working, Party.Working]
      active := by grind [hs.active, Party.Working]
      held := by grind [hs.held]
      joining := by grind [hs.joining, Unheld]
      reaping := by grind [hs.reaping, Unheld]
      machines := by grind [hs.machines, Party.HasMachine]
      owners := by grind [hs.owners, Swept]
      childless := by grind [hs.childless]
      ran := by grind [hs.ran]
      freed := by grind [hs.freed]
      outcome := by have := hs.outcome; grind }

theorem Sound.taken (hp : s.party p = .running) (hh : s.handle i = some ⟨p, some i⟩) :
    (s.taken p i).Sound := by
  unfold ThreadSystem.taken
  have hlt := hs.lt_next (p := p) (by rw [hp]; nofun)
  have hheld := hs.held i _ hh
  exact
    { hs with
      main := by grind [hs.main]
      mainParty := by grind [hs.mainParty]
      fresh := by grind [hs.fresh]
      present := by grind [hs.present]
      working := by grind [hs.working, Party.Working]
      active := by grind [hs.active, Party.Working]
      held := by grind [hs.held]
      joining := by grind [hs.joining, Unheld]
      reaping := by grind [hs.reaping, Unheld]
      machines := by grind [hs.machines, Party.HasMachine]
      owners := by have := hs.owners; grind
      childless := by grind [hs.childless] }

theorem Sound.locked (hp : s.party p = .joining i) (he : s.ended i ≠ none) :
    (s.locked p i).Sound := by
  unfold ThreadSystem.locked
  have hlt := hs.lt_next (p := p) (by rw [hp]; nofun)
  obtain ⟨hpar, hun, ht⟩ := hs.joining p i hp
  exact
    { hs with
      main := by grind [hs.main]
      mainParty := by grind [hs.mainParty]
      fresh := by grind [hs.fresh]
      present := by grind [hs.present]
      record := by grind [hs.record]
      working := by have := hs.working; grind [Party.Working]
      active := by grind [hs.active, Party.Working]
      held := by grind [hs.held, Unheld]
      joining := by grind [hs.joining, Unheld]
      reaping := by grind [hs.reaping, Unheld]
      machines := by grind [hs.machines, Party.HasMachine]
      childless := by grind [hs.childless]
      ran := by grind [hs.ran]
      freed := by grind [hs.freed] }

theorem Sound.reaped {seen : JelloThread} {m l : ℕ → Bool} {e : Ending}
    (hp : s.party p = .reaping i seen) (hi : s.party i = .exited) (he : s.ended i = some e)
    (hw : s.Swept i) (hm : ∀ j ≠ i, m j = s.machine j) :
    (s.reaped p i m l e).Sound := by
  unfold ThreadSystem.reaped
  have hltp := hs.lt_next (p := p) (by rw [hp]; nofun)
  have hlt := hs.lt_next (p := i) (by rw [hi]; nofun)
  obtain ⟨hpar, hun, -, -, ht⟩ := hs.reaping p i seen hp
  have hpos : 0 < i := Nat.pos_of_ne_zero fun h ↦ by
    rw [h, hs.main.2.1] at ht
    nomatch ht
  have hnew : ∀ j ∈ s.joins, j.thread ≠ i := by
    intro j hj h
    rw [(hs.freed i hpos hlt).mpr ⟨j, hj, h⟩] at ht
    nomatch ht
  exact
    { hs with
      main := by grind [hs.main]
      mainParty := by grind [hs.mainParty]
      fresh := by grind [hs.fresh]
      present := by grind [hs.present]
      record := by grind [hs.record]
      working := by have := hs.working; grind [Party.Working]
      active := by grind [hs.active, Party.Working]
      held := by grind [hs.held, Unheld]
      joining := by grind [hs.joining, Unheld]
      reaping := by grind [hs.reaping, Unheld]
      machines := by grind [hs.machines, Party.HasMachine]
      owners := by grind [hs.owners, Swept]
      childless := by grind [hs.childless]
      ran := by grind [hs.ran]
      freed := by
        have := hs.freed
        simp only [List.mem_append, List.mem_singleton]
        grind
      once := by
        have := hs.once
        simp only [List.map_append, List.map_cons, List.map_nil, List.nodup_append]
        grind
      outcome := by
        have := hs.outcome
        simp only [List.mem_append, List.mem_singleton]
        grind }

theorem Sound.collected : (s.collected i).Sound := by
  unfold ThreadSystem.collected
  exact
    { hs with
      main := by grind [hs.main]
      fresh := by grind [hs.fresh]
      present := by grind [hs.present]
      held := by grind [hs.held]
      joining := by grind [hs.joining, Unheld]
      reaping := by grind [hs.reaping, Unheld]
      owners := by grind [hs.owners] }

theorem Sound.detached (hh : s.handle i = some ⟨p, some i⟩) :
    (s.detached i).Sound := by
  unfold ThreadSystem.detached
  have hheld := hs.held i _ hh
  exact
    { hs with
      main := by grind [hs.main]
      fresh := by grind [hs.fresh]
      present := by grind [hs.present]
      record := by grind [hs.record]
      active := by grind [hs.active]
      held := by grind [hs.held]
      joining := by grind [hs.joining, Unheld]
      reaping := by grind [hs.reaping, Unheld]
      owners := by grind [hs.owners]
      ran := by grind [hs.ran]
      freed := by grind [hs.freed] }

/-- The protocol keeps its invariant. -/
theorem Sound.change (h : s.Change s') : s'.Sound := by
  cases h with
  | idle => exact hs
  | dropped l => exact { hs with }
  | spawned handleOk hp => exact hs.spawned handleOk hp
  | moved hi hp hp' hy hy' hmain hwork hstart hm hmi =>
    exact hs.moved hi hy hy' hmain hwork hstart hm hmi
  | published hi hw hp hp' hy ht hm hmi => exact hs.published hi hw hy ht hm hmi
  | taken hp hh => exact hs.taken hp hh
  | locked hp he => exact hs.locked hp he
  | reaped hp hi he hw hm => exact hs.reaped hp hi he hw hm
  | collected hh hn => exact hs.collected
  | detached hh => exact hs.detached hh

end Change

section Steps

variable (hs : s.Sound)
include hs

theorem Sound.create (hp : s.party i = .starting) (hm : s.machine (s.parent i) = true) :
    ∃ s', result (workerCreate i) s = .ok ((), s') ∧ s.Change s' := by
  have hi : 0 < i := Nat.pos_of_ne_zero fun h ↦ hs.mainParty.1 (h ▸ hp)
  obtain ⟨b, ht⟩ := hs.exists_record hi (.inl (by rw [hp]; trivial))
  refine ⟨_, by
    rw [workerCreate, result_then (result_threadAt ht), recordOf_parentVm,
      result_then (result_machineAt hm)]
    rfl, ?_⟩
  apply Change.moved <;> grind [Party.Working]

theorem Sound.share (hp : s.party i = .sharing) (hl : s.lent i = true) :
    ∃ s', result (workerShare i) s = .ok ((), s') ∧ s.Change s' := by
  have hi : 0 < i := Nat.pos_of_ne_zero fun h ↦ hs.mainParty.2.1 (h ▸ hp)
  obtain ⟨b, ht⟩ := hs.exists_record hi (.inl (by rw [hp]; trivial))
  have hm := hs.machines i (by rw [hp]; trivial)
  refine ⟨_, by
    rw [workerShare, result_then ((result_readLent ht).trans (if_pos hl))]
    rfl, ?_⟩
  apply Change.moved <;> grind [Party.Working]

theorem Sound.leave (hp : s.party i = .published) :
    ∃ s', result (workerLeave i) s = .ok ((), s') ∧ s.Change s' := by
  have hi : 0 < i := Nat.pos_of_ne_zero fun h ↦ hs.mainParty.2.2.1 (h ▸ hp)
  obtain ⟨b, ht⟩ := hs.exists_record hi (.inr hp)
  have hran := hs.ran i
  have hown := hs.owners
  refine ⟨_, by rw [workerLeave, result_then (result_threadAt ht)]; rfl, ?_⟩
  apply Change.moved <;> grind [Party.Working, Party.HasMachine, Swept]

theorem Sound.shutdown (hp : s.party 0 = .running) (hw : s.Swept 0) :
    ∃ s', result mainShutdown s = .ok ((), s') ∧ s.Change s' := by
  have hm := hs.machines 0 (by rw [hp]; trivial)
  have hmain := hs.main
  refine ⟨_, by rw [mainShutdown, result_then (result_destroyMachine hm)]; rfl, ?_⟩
  apply Change.moved <;> grind [Party.HasMachine]

theorem Sound.fail (f : StartFailure)
    (hp : s.party i = if f = .create then .starting else .sharing)
    (hl : f.reads = true → s.lent i = true) :
    ∃ s', result (workerFail i f) s = .ok ((), s') ∧ s.Change s' := by
  have hw : (s.party i).Working := by rw [hp]; split <;> trivial
  have hi : 0 < i := Nat.pos_of_ne_zero fun h ↦ by grind [hs.mainParty]
  have hlt : i < s.next := hs.lt_next fun h ↦ by rw [h] at hw; exact hw
  obtain ⟨b, ht⟩ := hs.exists_record hi (.inl hw)
  rw [(hs.working i hi hlt).mp hw] at ht
  have hwr : f.write (recordOf (s.parent i) none b) =
      recordOf (s.parent i) (some (.failed f)) b := write_recordOf (e := .failed f)
  have hswept : s.Swept i := hs.swept_of_starting (by rw [hp]; split <;> simp)
  have hread := (result_readFailing ht).trans (if_pos hl)
  by_cases hf : f = .create
  · refine ⟨_, by
      rw [workerFail, result_then hread, destroyStarted, if_pos hf, pure_bind, result_then (result_threadAt ht), hwr]
      rfl, ?_⟩
    apply Change.published <;> grind
  · have hm := hs.machines i (by rw [hp, if_neg hf]; trivial)
    refine ⟨_, by
      rw [workerFail, result_then hread, destroyStarted, if_neg hf, result_then (result_destroyMachine hm),
        result_then (result_threadAt (s := s.destroyed i) ht), hwr]
      rfl, ?_⟩
    apply Change.published <;> grind

theorem Sound.finish (r : ClosureRun) (hp : s.party i = .running) (hi : 0 < i) :
    ∃ s', result (workerFinish i r) s = .ok ((), s') ∧ s.Change s' := by
  have hw : (s.party i).Working := by rw [hp]; trivial
  have hlt := hs.lt_next (p := i) (by rw [hp]; nofun)
  obtain ⟨b, ht⟩ := hs.exists_record hi (.inl hw)
  rw [(hs.working i hi hlt).mp hw] at ht
  have hm := hs.machines i (by rw [hp]; trivial)
  have hwr : r.write (recordOf (s.parent i) none b) = recordOf (s.parent i) (some (.ran r)) b :=
    write_recordOf (e := .ran r)
  refine ⟨_, by rw [workerFinish, result_then (result_threadAt ht), hwr]; rfl, ?_⟩
  apply Change.published <;> grind

theorem Sound.spawn (handleOk : Bool) (hp : s.party p = .running) :
    ∃ s', result (stdThreadSpawn p handleOk) s = .ok ((), s') ∧ s.Change s' := by
  have hne : p ≠ s.next := (hs.lt_next (by rw [hp]; nofun)).ne
  have hc := Change.spawned handleOk hp
  unfold ThreadSystem.spawned at hc
  cases handleOk with
  | false =>
    have hy : (fun j ↦
        if j = s.next then .starting
        else if j = p ∧ false = false then .joining s.next else s.party j) =
          update (update s.party s.next .starting) p (.joining s.next) := by
      funext j
      grind
    have hh : (fun j ↦
        if j = s.next ∧ false = true then some ⟨p, some j⟩ else s.handle j) = s.handle := by
      funext j
      grind
    rw [hh, hy] at hc
    exact ⟨_, rfl, hc⟩
  | true =>
    have hh : (fun j ↦
        if j = s.next ∧ true = true then some ⟨p, some j⟩ else s.handle j) =
          update s.handle s.next (some ⟨p, some s.next⟩) := by
      funext j
      grind
    have hy : (fun j ↦
        if j = s.next then .starting
        else if j = p ∧ true = false then .joining s.next else s.party j) =
          update s.party s.next .starting := by
      funext j
      grind
    rw [hh, hy] at hc
    exact ⟨_, rfl, hc⟩

theorem Sound.join (hp : s.party p = .running)
    (hh : ∃ h, s.handle i = some h ∧ h.owner = p) :
    ∃ s', result (stdThreadJoin p i) s = .ok ((), s') ∧ s.Change s' := by
  obtain ⟨⟨owner, thread⟩, hh, rfl⟩ := hh
  cases thread with
  | none => exact ⟨s, by rw [stdThreadJoin, result_then (result_handleAt hh)]; rfl, .idle⟩
  | some j =>
    obtain ⟨-, hj | ⟨hj, -⟩⟩ := hs.held i _ hh
    · nomatch hj
    obtain rfl : j = i := by simpa using hj
    exact ⟨_, by rw [stdThreadJoin, result_then (result_handleAt hh)]; rfl, .taken hp hh⟩

theorem Sound.lock (hp : s.party p = .joining i)
    (hd : ∀ t, s.thread i = some t → t.done = true) :
    ∃ s', result (joinLocked p i) s = .ok ((), s') ∧ s.Change s' := by
  obtain ⟨-, -, ht⟩ := hs.joining p i hp
  have hd := hd _ ht
  rw [recordOf_done] at hd
  refine ⟨_, by
    rw [joinLocked, result_then (result_threadAt ht), recordOf_joined,
      if_neg Bool.false_ne_true, recordOf_setJoined]
    rfl, .locked hp (Option.isSome_iff_ne_none.mp hd)⟩

theorem Sound.reap {seen : JelloThread} (hp : s.party p = .reaping i seen)
    (hi : s.party i = .exited) (hw : s.Swept i) :
    ∃ s', result (joinReap p i seen) s = .ok ((), s') ∧ s.Change s' := by
  have hm := hs.machines p (by rw [hp]; trivial)
  obtain ⟨-, -, hend, hseen, ht⟩ := hs.reaping p i seen hp
  obtain ⟨e, he⟩ := Option.ne_none_iff_exists'.mp hend
  rw [he] at hseen
  subst hseen
  by_cases hr : ∃ r, e = .ran r
  · obtain ⟨r, rfl⟩ := hr
    have hmi := hs.ran i r he (by rw [ht]; nofun)
    refine ⟨_, by
      rw [joinReap, result_then result_joinOutcome, result_then (result_machineAt hm),
        result_then (result_threadAt ht), threadDestroyWorker,
        if_pos (recordOf_workerVm.mpr ⟨r, rfl⟩), result_then (result_destroyMachine hmi)]
      rfl, ?_⟩
    apply Change.reaped hp hi he hw
    grind
  · refine ⟨_, by
      rw [joinReap, result_then result_joinOutcome, result_then (result_machineAt hm),
        result_then (result_threadAt ht), threadDestroyWorker,
        if_neg (fun h ↦ hr (by simpa using recordOf_workerVm.mp h)), pure_bind]
      rfl, ?_⟩
    apply Change.reaped hp hi he hw
    grind

theorem Sound.collect (hh : ∃ h, s.handle i = some h ∧ s.machine h.owner = true) :
    ∃ s', result (jdllThreadHandleFin i) s = .ok ((), s') ∧ s.Change s' := by
  obtain ⟨⟨owner, thread⟩, hh, -⟩ := hh
  cases thread with
  | none =>
    exact ⟨_, by rw [jdllThreadHandleFin, result_then (result_handleAt hh)]; rfl,
      .collected hh rfl⟩
  | some j =>
    obtain ⟨-, hj | ⟨hj, ht⟩⟩ := hs.held i _ hh
    · nomatch hj
    obtain rfl : j = i := by simpa using hj
    refine ⟨_, by
      rw [jdllThreadHandleFin, result_then (result_handleAt hh)]
      dsimp only
      rw [jelloThreadDetach, bind_assoc, result_then (result_threadAt ht), recordOf_setJoined]
      rfl, .detached hh⟩

/-- The worker's reads of what is its parent's find it there. -/
def Served (s : ThreadSystem) : Action → Prop
  | .create i => s.machine (s.parent i) = true
  | .share i => s.lent i = true
  | .fail i f => f.reads = true → s.lent i = true
  | _ => True

omit hs in
theorem Sound.step {a : Action} (hs : s.Sound) (ha : s.Enabled a) (hv : s.Served a) :
    ∃ s', result a.run s = .ok ((), s') ∧ s.Change s' := by
  cases a with
  | spawn p handleOk => exact hs.spawn handleOk ha
  | drop i => exact ⟨_, rfl, .dropped _⟩
  | create i => exact hs.create ha hv
  | share i => exact hs.share ha hv
  | fail i f => exact hs.fail f ha hv
  | finish i r => exact hs.finish r ha.1 (Nat.pos_of_ne_zero ha.2)
  | leave i => exact hs.leave ha
  | join p i => exact hs.join ha.1 ha.2
  | lock p i => exact hs.lock ha.1 ha.2
  | reap p i seen => exact hs.reap ha.1 ha.2.1 ha.2.2
  | collect i => exact hs.collect ha
  | shutdown => exact hs.shutdown ha.1 ha.2

theorem Sound.stray {a : Action} (ha : s.Enabled a) (hv : ¬ s.Served a) :
    result a.run s = .error .wild := by
  cases a with
  | create i =>
    have hi : 0 < i := Nat.pos_of_ne_zero fun h ↦ hs.mainParty.1 (h ▸ ha)
    obtain ⟨b, ht⟩ := hs.exists_record hi (.inl (by rw [show s.party i = _ from ha]; trivial))
    have hm : s.machine (s.parent i) = false := Bool.not_eq_true _ ▸ hv
    change result (workerCreate i) s = _
    rw [workerCreate, result_then (result_threadAt ht), recordOf_parentVm, result_bind,
      machineAt, result_bind, result_read, hm]
    rfl
  | share i =>
    have hi : 0 < i := Nat.pos_of_ne_zero fun h ↦ hs.mainParty.2.1 (h ▸ ha)
    obtain ⟨b, ht⟩ := hs.exists_record hi (.inl (by rw [show s.party i = _ from ha]; trivial))
    change result (workerShare i) s = _
    have hl : ¬ s.lent i = true := hv
    rw [workerShare, result_bind, (result_readLent ht).trans (if_neg hl)]
    rfl
  | fail i f =>
    have hp : s.party i = if f = .create then .starting else .sharing := ha
    have hi : 0 < i := Nat.pos_of_ne_zero fun h ↦ by grind [hs.mainParty]
    obtain ⟨b, ht⟩ := hs.exists_record hi (.inl (by rw [hp]; split <;> trivial))
    change result (workerFail i f) s = _
    rw [workerFail, result_bind, (result_readFailing ht).trans (if_neg hv)]
    rfl
  | _ => exact (hv trivial).elim

theorem Sound.change_of_steps (h : s.Steps s') : s.Change s' := by
  obtain ⟨a, ha, hr⟩ := h
  by_cases hv : s.Served a
  · obtain ⟨t, ht, hc⟩ := hs.step ha hv
    rw [ht] at hr
    cases hr
    exact hc
  · rw [hs.stray ha hv] at hr
    nomatch hr

end Steps

theorem sound_of_run (h : init.Run s) : s.Sound := by
  induction h with
  | refl => exact sound_init
  | tail _ hstep ih => exact ih.change (ih.change_of_steps hstep)

/-- In every interleaving no step touches a freed record, a freed handle or a destroyed machine,
but for the worker that reads its parent's machine, or what its parent has lent it, too late. -/
theorem run_safe {a : Action} (h : init.Run s) (ha : s.Enabled a) :
    (s.Served a ∧ ∃ s', result a.run s = .ok ((), s')) ∨
      (¬ s.Served a ∧ result a.run s = .error .wild) := by
  have hs := sound_of_run h
  by_cases hv : s.Served a
  · obtain ⟨s', hs', -⟩ := hs.step ha hv
    exact .inl ⟨hv, s', hs'⟩
  · exact .inr ⟨hv, hs.stray ha hv⟩

/-- A worker can be too late: its handle is collected and the main thread shuts down first. -/
theorem run_safe_orphan : ∃ s, init.Run s ∧ s.Enabled (.create 1) ∧
    result (Action.create 1).run s = .error .wild := by
  have h : ∃ s, init.Run s ∧ s.Enabled (.create 1) ∧ ¬ s.Served (.create 1) := by
    refine ⟨_, .tail (.tail (.tail .refl ⟨.spawn 0 true, rfl, rfl⟩)
      ⟨.collect 1, ⟨_, rfl, rfl⟩, rfl⟩) ⟨.shutdown, ⟨rfl, ?_⟩, rfl⟩, rfl, nofun⟩
    intro i h hh
    change update (update init.handle 1 (some ⟨0, some 1⟩)) 1 none i = some h at hh
    grind [init]
  obtain ⟨s, hr, ha, hv⟩ := h
  exact ⟨s, hr, ha, ((run_safe hr ha).resolve_left fun h ↦ hv h.1).2⟩

/-- The joins of a run: a thread is joined at most once, by its parent, which is told how the
worker has ended, and its record has been freed if and only if it has been joined. -/
theorem run_joins (h : init.Run s) :
    (s.joins.map Join.thread).Nodup ∧
      (∀ j ∈ s.joins, j.parent = s.parent j.thread ∧
        ∃ e, s.ended j.thread = some e ∧ j.outcome = e.outcome) ∧
      ∀ i, 0 < i → i < s.next → (s.thread i = none ↔ ∃ j ∈ s.joins, j.thread = i) := by
  have hs := sound_of_run h
  exact ⟨hs.once, fun j hj ↦ (hs.outcome j hj).2.2, hs.freed⟩

theorem run_joins_failed : ∃ s, init.Run s ∧
    s.joins = [⟨0, 1, .trap .limit (text "thread: failed to create VM")⟩] ∧ s.thread 1 = none := by
  have h : ∃ s, init.Run s ∧ s.next = 2 ∧
      s.joins = [⟨0, 1, .trap .limit (text "thread: failed to create VM")⟩] := by
    refine ⟨_, .tail (.tail (.tail (.tail (.tail .refl ⟨.spawn 0 true, rfl, rfl⟩)
      ⟨.fail 1 .create, rfl, rfl⟩) ⟨.join 0 1, ⟨rfl, _, rfl, rfl⟩, rfl⟩)
      ⟨.lock 0 1, ⟨rfl, ?_⟩, rfl⟩) ⟨.reap 0 1 _, ⟨rfl, rfl, ?_⟩, rfl⟩, rfl, rfl⟩
    · intro t ht
      cases ht
      rfl
    · intro i h hh
      change update (update init.handle 1 (some ⟨0, some 1⟩)) 1 (some ⟨0, none⟩) i =
        some h at hh
      grind [init]
  obtain ⟨s, hr, hn, hj⟩ := h
  have hfreed := (run_joins hr).2.2 1 one_pos (hn ▸ one_lt_two)
  exact ⟨s, hr, hj, hfreed.mpr ⟨_, by rw [hj]; exact .head _, rfl⟩⟩

section Detached

/-- The thread's handle has been finalized, and not joined before. -/
def Detached (s : ThreadSystem) (i : ℕ) : Prop :=
  s.thread i = some (recordOf (s.parent i) (s.ended i) true) ∧
    ∀ seen, s.party (s.parent i) ≠ .reaping i seen

theorem Sound.detached_change (hs : s.Sound) (hc : s.Change s') (hd : s.Detached i) :
    s'.Detached i := by
  obtain ⟨ht, hr⟩ := hd
  have hlt : i < s.next := by
    by_contra hn
    rw [(hs.fresh i (by omega)).1] at ht
    nomatch ht
  have hj := hs.joining
  have hr' := hs.reaping
  cases hc <;>
    simp only [Detached, ThreadSystem.spawned, ThreadSystem.moved, ThreadSystem.published,
      ThreadSystem.taken, ThreadSystem.locked, ThreadSystem.reaped, ThreadSystem.collected,
      ThreadSystem.detached] <;>
    constructor <;> grind

theorem Sound.detached_run (h : init.Run s) (hr : s.Run s') (hd : s.Detached i) :
    s'.Detached i := by
  induction hr with
  | refl => exact hd
  | @tail t t' ht hstep ih =>
    have hs := sound_of_run (h.trans ht)
    exact hs.detached_change (hs.change_of_steps hstep) ih

theorem Sound.detached_of_collect (hs : s.Sound) (hh : s.handle i = some ⟨p, some i⟩)
    (hc : result (Action.collect i).run s = .ok ((), s')) : s'.Detached i := by
  obtain ⟨-, hj | ⟨-, ht⟩⟩ := hs.held i _ hh
  · nomatch hj
  change result (jdllThreadHandleFin i) s = _ at hc
  rw [jdllThreadHandleFin, result_then (result_handleAt hh)] at hc
  dsimp only at hc
  rw [jelloThreadDetach, bind_assoc, result_then (result_threadAt ht), recordOf_setJoined] at hc
  cases hc
  refine ⟨update_self .., fun seen hr ↦ ?_⟩
  have hun := (hs.reaping _ _ _ hr).2.1 _ hh
  nomatch hun

/-- Nothing cleans up after a detached thread: once the finalizer of a handle has met a thread
that was not joined, its record is never freed, nor is the machine that its closure ran in, and
it is never joined. -/
theorem run_detached {t : ThreadSystem} (h : init.Run s) (hh : s.handle i = some ⟨p, some i⟩)
    (hc : result (Action.collect i).run s = .ok ((), t)) (hr : t.Run s') :
    s'.thread i ≠ none ∧ (∀ j ∈ s'.joins, j.thread ≠ i) ∧
      ∀ r, s'.ended i = some (.ran r) → s'.machine i = true := by
  have hs := sound_of_run h
  have ht : init.Run t := h.tail ⟨.collect i, ⟨_, hh, hs.owners i _ hh⟩, hc⟩
  have hs' := sound_of_run (ht.trans hr)
  have hd := Sound.detached_run ht hr (hs.detached_of_collect hh hc)
  have hne : s'.thread i ≠ none := by rw [hd.1]; nofun
  refine ⟨hne, fun j hj hji ↦ ?_, fun r he ↦ hs'.ran i r he hne⟩
  obtain ⟨hpos, hlt, -⟩ := hs'.outcome j hj
  rw [hji] at hpos hlt
  exact hne ((hs'.freed i hpos hlt).mpr ⟨j, hj, hji⟩)

theorem run_detached_spawned : ∃ t, init.Run t ∧ ∀ s', t.Run s' → s'.thread 1 ≠ none := by
  have h : init.Steps _ := ⟨.spawn 0 true, rfl, rfl⟩
  exact ⟨_, .tail (.single h) ⟨.collect 1, ⟨_, rfl, rfl⟩, rfl⟩,
    fun s' hr ↦ (run_detached (.single h) rfl rfl hr).1⟩

end Detached

section Waiting

/-- Party `p` waits for party `q`: for its condition variable, or in `pthread_join`. -/
def Waits (s : ThreadSystem) (p q : ℕ) : Prop :=
  (s.party p = .joining q ∧ ∃ t, s.thread q = some t ∧ t.done = false) ∨
    ∃ seen, s.party p = .reaping q seen ∧ s.party q ≠ .exited

def Of (s : ThreadSystem) (r : ℕ) : Action → Prop
  | .spawn p _ | .join p _ | .lock p _ | .reap p _ _ => p = r
  | .create i | .share i | .fail i _ | .finish i _ | .leave i => i = r
  | .collect i => ∃ h, s.handle i = some h ∧
      (h.owner = r ∨ ∃ seen, s.party r = .reaping h.owner seen)
  | .drop _ => False
  | .shutdown => r = 0

theorem Sound.waits_lt {q : ℕ} (hs : s.Sound) (h : s.Waits p q) :
    p < q ∧ q < s.next ∧ s.parent q = p ∧ s.machine p = true := by
  have hq : s.parent q = p ∧ s.thread q ≠ none ∧ (s.party p).HasMachine := by
    obtain ⟨hp, -⟩ | ⟨seen, hp, -⟩ := h
    · obtain ⟨hpar, -, ht⟩ := hs.joining p q hp
      exact ⟨hpar, by rw [ht]; nofun, by rw [hp]; trivial⟩
    · obtain ⟨hpar, -, -, -, ht⟩ := hs.reaping p q seen hp
      exact ⟨hpar, by rw [ht]; nofun, by rw [hp]; trivial⟩
  obtain ⟨hpar, ht, hm⟩ := hq
  have hlt : q < s.next := by
    by_contra hn
    exact ht (hs.fresh q (by omega)).1
  have hpos : 0 < q := Nat.pos_of_ne_zero fun h0 ↦ ht (h0 ▸ hs.main.2.1)
  have := hs.lower q hpos hlt
  exact ⟨by omega, hlt, hpar, hs.machines p hm⟩

theorem Sound.moves_of_not_waits {q : ℕ} (hs : s.Sound) (h : s.Waits p q)
    (hq : ∀ u, ¬ s.Waits q u) :
    ∃ a, s.Enabled a ∧ s.Served a ∧ s.Of q a ∧ ∀ i f, a = .fail i f → s.lent i = false := by
  obtain ⟨hpq, hlt, hpar, hm⟩ := hs.waits_lt h
  cases hy : s.party q with
  | absent => exact (hs.present q hlt hy).elim
  | starting => exact ⟨.create q, hy, by rw [Served, hpar]; exact hm, rfl, nofun⟩
  | sharing =>
    by_cases hl : s.lent q = true
    · exact ⟨.share q, hy, hl, rfl, nofun⟩
    · exact ⟨.fail q .oom, hy, nofun, rfl, fun i f h ↦ by cases h; simpa using hl⟩
  | running => exact ⟨.spawn q true, hy, trivial, rfl, nofun⟩
  | joining u =>
    refine ⟨.lock q u, ⟨hy, fun t ht ↦ ?_⟩, trivial, rfl, nofun⟩
    by_contra hd
    exact hq u (.inl ⟨hy, t, ht, by simpa using hd⟩)
  | reaping u seen =>
    have hu : s.party u = .exited := by
      by_contra hu
      exact hq u (.inr ⟨seen, hy, hu⟩)
    by_cases hw : s.Swept u
    · exact ⟨.reap q u seen, ⟨hy, hu, hw⟩, trivial, rfl, nofun⟩
    · simp only [Swept, not_forall, not_not] at hw
      obtain ⟨i, k, hk, hown⟩ := hw
      exact ⟨.collect i, ⟨k, hk, hs.owners i k hk⟩, trivial,
        ⟨k, hk, .inr ⟨seen, hown ▸ hy⟩⟩, nofun⟩
  | published => exact ⟨.leave q, hy, trivial, rfl, nofun⟩
  | exited =>
    have hw := hs.working q (by omega) hlt
    rw [hy] at hw
    obtain ⟨hp, t, ht, hd⟩ | ⟨seen, hp, he⟩ := h
    · obtain ⟨b, rfl⟩ := hs.record q t ht
      have he : s.ended q = none := by simpa using hd
      exact (hw.mpr he).elim
    · exact (he hy).elim

/-- No joins are deadlocked: a joiner waits, perhaps through other joiners, for a party that
waits for nobody and that can take a step; its start has to fail only when what it was lent is
gone. -/
theorem run_waits {q : ℕ} (h : init.Run s) (hw : s.Waits p q) :
    ∃ r a s', Relation.TransGen s.Waits p r ∧ (∀ u, ¬ s.Waits r u) ∧
      s.Enabled a ∧ s.Of r a ∧ (∀ i f, a = .fail i f → s.lent i = false) ∧
      result a.run s = .ok ((), s') := by
  have hs := sound_of_run h
  induction hn : s.next - q using Nat.strong_induction_on generalizing p q with
  | _ n ih =>
    by_cases hq : ∃ u, s.Waits q u
    · obtain ⟨u, hu⟩ := hq
      have hlt := hs.waits_lt hu
      obtain ⟨r, a, s', hr, rest⟩ := ih (s.next - u) (by omega) hu rfl
      exact ⟨r, a, s', .head hw hr, rest⟩
    · rw [not_exists] at hq
      obtain ⟨a, ha, hv, hof, hfail⟩ := hs.moves_of_not_waits hw hq
      obtain ⟨s', hs', -⟩ := hs.step ha hv
      exact ⟨q, a, s', .single hw, hq, ha, hof, hfail, hs'⟩

theorem run_waits_spawned : ∃ s, init.Run s ∧ s.party 0 = .joining 1 ∧
    ∃ r a s', Relation.TransGen s.Waits 0 r ∧ (∀ u, ¬ s.Waits r u) ∧
      s.Enabled a ∧ s.Of r a ∧ (∀ i f, a = .fail i f → s.lent i = false) ∧
      result a.run s = .ok ((), s') := by
  have h : init.Steps _ := ⟨.spawn 0 false, rfl, rfl⟩
  exact ⟨_, .single h, rfl, run_waits (.single h) (.inl ⟨rfl, _, rfl, rfl⟩)⟩

end Waiting

end ThreadSystem

end JelloVM
