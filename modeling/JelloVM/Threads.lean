import JelloVM.Channel
import JelloVM.ExecLoop

namespace JelloVM

open Function Logged

/-- `struct jello_thread` as its worker and its joiner use it. -/
structure JelloThread where
  done : Bool
  joined : Bool
  execStatus : ExecStatus
  trapCode : TrapCode
  trapMsg : List UInt8
  workerResult : JelloValue
  workerVm : Option Store
  parentVm : ℕ

/-- `jdll_thread_handle`, and the machine its abstract belongs to. -/
structure ThreadHandle where
  owner : ℕ
  thread : Option ℕ

/-- What a thread of the system does next; `joining` and `reaping` are the two halves of
`jello_thread_join`, `seen` is what the first has copied under the mutex. -/
inductive Party
  | absent
  | starting
  | sharing
  | running
  | joining (i : ℕ)
  | reaping (i : ℕ) (seen : JelloThread)
  | published
  | exited

/-- The ways `thread_worker_main` ends before the closure runs. -/
inductive StartFailure
  | create
  | oom
  | arg
  | closure
  deriving DecidableEq, Repr

def StartFailure.code : StartFailure → TrapCode
  | .arg => .typeMismatch
  | _ => .limit

def StartFailure.message : StartFailure → String
  | .create => "thread: failed to create VM"
  | .oom => "thread: oom"
  | .arg => "thread: arg not copy-safe"
  | .closure => "thread: failed to share closure"

/-- A run of the closure: its status, its result, and the machine it leaves. -/
structure ClosureRun where
  status : ExecStatus
  value : JelloValue
  vm : Store
  copySafe : Bool
  checked : status = .ok → result (jelloValueIsCopySafe value) vm = .ok (copySafe, vm)

inductive Ending
  | failed (f : StartFailure)
  | ran (r : ClosureRun)

/-- A value comes with the machine that it is copied from. -/
inductive JoinOutcome
  | value (v : JelloValue) (worker : Store)
  | trap (code : TrapCode) (msg : List UInt8)

structure Join where
  parent : ℕ
  thread : ℕ
  outcome : JoinOutcome

/-- Party 0 is the main thread, party `i` runs thread `i`; handle `i` is the one made for
thread `i`. A machine is alive or not; `lent` says that the closure and the arguments of a thread
are still in its parent's heap. The last three fields only record what has happened. -/
structure ThreadSystem where
  thread : ℕ → Option JelloThread
  handle : ℕ → Option ThreadHandle
  party : ℕ → Party
  machine : ℕ → Bool
  lent : ℕ → Bool
  next : ℕ
  parent : ℕ → ℕ
  ended : ℕ → Option Ending
  joins : List Join

abbrev ThreadM (α : Type) := Logged Fault Access ThreadSystem α

def threadAt (i : ℕ) : ThreadM JelloThread := do
  match ← read fun s ↦ s.thread i with
  | some t => pure t
  | none => fail .wild

def setThread (i : ℕ) (t : Option JelloThread) : ThreadM Unit :=
  change fun s ↦ { s with thread := update s.thread i t }

def handleAt (i : ℕ) : ThreadM ThreadHandle := do
  match ← read fun s ↦ s.handle i with
  | some h => pure h
  | none => fail .wild

def setHandle (i : ℕ) (h : Option ThreadHandle) : ThreadM Unit :=
  change fun s ↦ { s with handle := update s.handle i h }

def setParty (p : ℕ) (x : Party) : ThreadM Unit :=
  change fun s ↦ { s with party := update s.party p x }

/-- An access to the machine of a party. -/
def machineAt (p : ℕ) : ThreadM Unit := do
  if ← read fun s ↦ s.machine p then pure () else fail .wild

/-- With the machine goes what has been spawned from its heap. -/
def ThreadSystem.destroyed (s : ThreadSystem) (p : ℕ) : ThreadSystem :=
  { s with
    machine := update s.machine p false
    lent := fun i ↦ s.lent i && s.parent i != p }

/-- `jello_vm_destroy`. -/
def destroyMachine (p : ℕ) : ThreadM Unit := do
  machineAt p
  change fun s ↦ s.destroyed p

/-- `snprintf` into the 512 bytes of `trap_msg`. -/
def clipTrapMsg (msg : List UInt8) : List UInt8 := msg.take 511

section Worker

def StartFailure.write (f : StartFailure) (t : JelloThread) : JelloThread :=
  { t with
    execStatus := .trap
    trapCode := f.code
    trapMsg := clipTrapMsg (text f.message)
    done := true }

def ClosureRun.message (r : ClosureRun) : List UInt8 :=
  match r.vm.trapMsg with
  | none => text "thread execution trapped"
  | some msg => if msg = [] then text "thread execution trapped" else msg

def ClosureRun.write (r : ClosureRun) (t : JelloThread) : JelloThread :=
  let t := { t with workerVm := some r.vm, workerResult := r.value, execStatus := r.status }
  match r.status with
  | .ok => { t with done := true }
  | .trap => { t with trapCode := r.vm.trapCode, trapMsg := clipTrapMsg r.message, done := true }

/-- The machine is created and takes over the limits of the parent's. -/
def workerCreate (i : ℕ) : ThreadM Unit := do
  let t ← threadAt i
  machineAt t.parentVm
  change fun s ↦ { s with machine := update s.machine i true }
  setParty i .sharing

/-- The arguments and the closure are read in the parent's heap. -/
def readLent (i : ℕ) : ThreadM Unit := do
  let _ ← threadAt i
  if ← read fun s ↦ s.lent i then pure () else fail .wild

def workerShare (i : ℕ) : ThreadM Unit := do
  readLent i
  setParty i .running

def recordEnd (i : ℕ) (e : Ending) : ThreadM Unit :=
  change fun s ↦ { s with ended := update s.ended i (some e) }

/-- The machine of a start that fails, unless that was what failed. -/
def destroyStarted (i : ℕ) (f : StartFailure) : ThreadM Unit :=
  if f = .create then pure () else destroyMachine i

/-- What fails is the copying of what the parent has lent. -/
def StartFailure.reads : StartFailure → Bool
  | .arg | .closure => true
  | .create | .oom => false

def readFailing (i : ℕ) (f : StartFailure) : ThreadM Unit :=
  if f.reads then readLent i else pure ()

def workerFail (i : ℕ) (f : StartFailure) : ThreadM Unit := do
  readFailing i f
  destroyStarted i f
  let t ← threadAt i
  setThread i (some (f.write t))
  recordEnd i (.failed f)
  setParty i .exited

def workerFinish (i : ℕ) (r : ClosureRun) : ThreadM Unit := do
  let t ← threadAt i
  setThread i (some (r.write t))
  recordEnd i (.ran r)
  setParty i .published

/-- After the mutex has been released: `jello_vm_bind_current(t->parent_vm)`. -/
def workerLeave (i : ℕ) : ThreadM Unit := do
  let _ ← threadAt i
  setParty i .exited

end Worker

section Joiner

/-- `thread_alloc`, and the parent that `jello_thread_spawn` sets. -/
def threadAlloc (p : ℕ) : JelloThread where
  done := false
  joined := false
  execStatus := .ok
  trapCode := .none
  trapMsg := []
  workerResult := 0
  workerVm := none
  parentVm := p

/-- `jello_thread_spawn` that succeeds, in `jdll_std_thread_spawn`; without memory for the
handle the thread is joined at once. -/
def stdThreadSpawn (p : ℕ) (handleOk : Bool) : ThreadM Unit := do
  let i ← read ThreadSystem.next
  setThread i (some (threadAlloc p))
  change fun s ↦
    { s with
      next := i + 1
      parent := update s.parent i p
      lent := update s.lent i true }
  setParty i .starting
  if handleOk then setHandle i (some { owner := p, thread := some i })
  else setParty p (.joining i)

/-- `jdll_std_thread_join` with the handle that was made for thread `i`. -/
def stdThreadJoin (p i : ℕ) : ThreadM Unit := do
  let h ← handleAt i
  match h.thread with
  | none => pure ()
  | some t => do
    setHandle i (some { h with thread := none })
    setParty p (.joining t)

/-- `jello_thread_join` from the lock to the unlock, once the thread is done. -/
def joinLocked (p i : ℕ) : ThreadM Unit := do
  let t ← threadAt i
  if t.joined then setParty p .running
  else do
    setThread i (some { t with joined := true })
    setParty p (.reaping i { t with joined := true })

def orTypeMismatch (c : TrapCode) : TrapCode := if c = .none then .typeMismatch else c

def joinOutcome (seen : JelloThread) : ThreadM JoinOutcome :=
  match seen.execStatus, seen.workerVm with
  | .ok, some vm =>
    match result (jelloValueIsCopySafe seen.workerResult) vm with
    | .ok (true, _) => pure (.value seen.workerResult vm)
    | .ok (false, _) =>
      pure (.trap (orTypeMismatch seen.trapCode) (text "thread join: result not copy-safe"))
    | .error e => fail e
  | .ok, none => fail .wild
  | .trap, _ =>
    pure (.trap (orTypeMismatch seen.trapCode)
      (if seen.trapMsg = [] then text "thread join failed" else seen.trapMsg))

def threadDestroyWorker (i : ℕ) (t : JelloThread) : ThreadM Unit :=
  if t.workerVm.isSome then destroyMachine i else pure ()

/-- `jello_thread_join` from `pthread_join` on. -/
def joinReap (p i : ℕ) (seen : JelloThread) : ThreadM Unit := do
  let o ← joinOutcome seen
  machineAt p
  let t ← threadAt i
  threadDestroyWorker i t
  setThread i none
  change fun s ↦ { s with joins := s.joins ++ [⟨p, i, o⟩] }
  setParty p .running

def jelloThreadDetach (i : ℕ) : ThreadM Unit := do
  let t ← threadAt i
  setThread i (some { t with joined := true })

def jdllThreadHandleFin (i : ℕ) : ThreadM Unit := do
  let h ← handleAt i
  match h.thread with
  | none => pure ()
  | some t => jelloThreadDetach t
  setHandle i none

def mainShutdown : ThreadM Unit := do
  destroyMachine 0
  setParty 0 .exited

end Joiner

inductive Action
  | spawn (p : ℕ) (handleOk : Bool)
  | drop (i : ℕ)
  | create (i : ℕ)
  | share (i : ℕ)
  | fail (i : ℕ) (f : StartFailure)
  | finish (i : ℕ) (r : ClosureRun)
  | leave (i : ℕ)
  | join (p i : ℕ)
  | lock (p i : ℕ)
  | reap (p i : ℕ) (seen : JelloThread)
  | collect (i : ℕ)
  | shutdown

def Action.run : Action → ThreadM Unit
  | .spawn p handleOk => stdThreadSpawn p handleOk
  | .drop i => change fun s ↦ { s with lent := update s.lent i false }
  | .create i => workerCreate i
  | .share i => workerShare i
  | .fail i f => workerFail i f
  | .finish i r => workerFinish i r
  | .leave i => workerLeave i
  | .join p i => stdThreadJoin p i
  | .lock p i => joinLocked p i
  | .reap p i seen => joinReap p i seen
  | .collect i => jdllThreadHandleFin i
  | .shutdown => mainShutdown

/-- The finalizers of a machine have run: `gc_shutdown` runs what is left of them. -/
def ThreadSystem.Swept (s : ThreadSystem) (p : ℕ) : Prop :=
  ∀ i h, s.handle i = some h → h.owner ≠ p

/-- When a step may be taken: where its party stands, and what it waits for. -/
def ThreadSystem.Enabled (s : ThreadSystem) : Action → Prop
  | .spawn p _ => s.party p = .running
  | .drop i => s.machine (s.parent i) = true
  | .create i => s.party i = .starting
  | .share i => s.party i = .sharing
  | .fail i f => s.party i = if f = .create then .starting else .sharing
  | .finish i _ => s.party i = .running ∧ i ≠ 0
  | .leave i => s.party i = .published
  | .join p i => s.party p = .running ∧ ∃ h, s.handle i = some h ∧ h.owner = p
  | .lock p i => s.party p = .joining i ∧ ∀ t, s.thread i = some t → t.done = true
  | .reap p i seen => s.party p = .reaping i seen ∧ s.party i = .exited ∧ s.Swept i
  | .collect i => ∃ h, s.handle i = some h ∧ s.machine h.owner = true
  | .shutdown => s.party 0 = .running ∧ s.Swept 0

/-- The initial state: the main thread runs. -/
def ThreadSystem.init : ThreadSystem where
  thread := fun _ ↦ none
  handle := fun _ ↦ none
  party := fun p ↦ if p = 0 then .running else .absent
  machine := fun p ↦ p == 0
  lent := fun _ ↦ false
  next := 1
  parent := fun _ ↦ 0
  ended := fun _ ↦ none
  joins := []

def ThreadSystem.Steps (s s' : ThreadSystem) : Prop :=
  ∃ a, s.Enabled a ∧ result a.run s = .ok ((), s')

abbrev ThreadSystem.Run : ThreadSystem → ThreadSystem → Prop :=
  Relation.ReflTransGen ThreadSystem.Steps

/-- What a joiner must be told of a thread. -/
def Ending.outcome : Ending → JoinOutcome
  | .failed f => .trap f.code (text f.message)
  | .ran r =>
    match r.status with
    | .ok =>
      if r.copySafe then .value r.value r.vm
      else .trap .typeMismatch (text "thread join: result not copy-safe")
    | .trap => .trap (orTypeMismatch r.vm.trapCode) (clipTrapMsg r.message)

def Ending.write (t : JelloThread) : Ending → JelloThread
  | .failed f => f.write t
  | .ran r => r.write t

/-- The record of a thread, from its parent, how it has ended, and its flag. -/
def recordOf (p : ℕ) (e : Option Ending) (joined : Bool) : JelloThread :=
  match e with
  | none => { threadAlloc p with joined }
  | some e => e.write { threadAlloc p with joined }

variable {s : ThreadSystem} {p i : ℕ}

section Records

variable {e : Ending} {o : Option Ending} {b c : Bool}

theorem write_joined (t : JelloThread) : (e.write t).joined = t.joined := by
  cases e with
  | failed f => rfl
  | ran r =>
    simp only [Ending.write, ClosureRun.write]
    cases r.status <;> rfl

theorem write_parentVm (t : JelloThread) : (e.write t).parentVm = t.parentVm := by
  cases e with
  | failed f => rfl
  | ran r =>
    simp only [Ending.write, ClosureRun.write]
    cases r.status <;> rfl

theorem write_done (t : JelloThread) : (e.write t).done = true := by
  cases e with
  | failed f => rfl
  | ran r =>
    simp only [Ending.write, ClosureRun.write]
    cases r.status <;> rfl

theorem write_setJoined (t : JelloThread) :
    { e.write t with joined := c } = e.write { t with joined := c } := by
  cases e with
  | failed f => rfl
  | ran r =>
    simp only [Ending.write, ClosureRun.write]
    cases r.status <;> rfl

@[simp, grind =]
theorem recordOf_joined : (recordOf p o b).joined = b := by
  cases o with
  | none => rfl
  | some e => exact write_joined _

@[grind →]
theorem joined_of_recordOf_eq {p' : ℕ} {o' : Option Ending}
    (h : recordOf p o b = recordOf p' o' c) : b = c := by
  simpa using congrArg JelloThread.joined h

@[simp, grind =]
theorem recordOf_parentVm : (recordOf p o b).parentVm = p := by
  cases o with
  | none => rfl
  | some e => exact write_parentVm _

@[simp, grind =]
theorem recordOf_done : (recordOf p o b).done = o.isSome := by
  cases o with
  | none => rfl
  | some e => exact write_done _

theorem recordOf_setJoined : { recordOf p o b with joined := c } = recordOf p o c := by
  cases o with
  | none => rfl
  | some e => exact write_setJoined _

theorem write_recordOf : e.write (recordOf p none b) = recordOf p (some e) b := rfl

theorem recordOf_workerVm :
    (recordOf p o b).workerVm.isSome = true ↔ ∃ r, o = some (.ran r) := by
  cases o with
  | none => simp [recordOf, threadAlloc]
  | some e =>
    cases e with
    | failed f => simp [recordOf, Ending.write, StartFailure.write, threadAlloc]
    | ran r =>
      simp only [recordOf, Ending.write, ClosureRun.write]
      cases r.status <;> simp

theorem StartFailure.clip_message (f : StartFailure) :
    clipTrapMsg (text f.message) = text f.message ∧ text f.message ≠ [] := by
  cases f <;> decide

theorem ClosureRun.clip_message (r : ClosureRun) : clipTrapMsg r.message ≠ [] := by
  have hm : r.message ≠ [] := by
    unfold ClosureRun.message
    split
    · decide
    · split_ifs with h
      · decide
      · exact h
  simpa [clipTrapMsg] using hm

theorem result_joinOutcome :
    result (joinOutcome (recordOf p (some e) b)) s = .ok (e.outcome, s) := by
  cases e with
  | failed f =>
    have hc : orTypeMismatch f.code = f.code := by
      cases f <;> rfl
    simp [joinOutcome, recordOf, Ending.write, StartFailure.write, Ending.outcome, hc,
      f.clip_message.1, f.clip_message.2]
  | ran r =>
    cases hr : r.status with
    | ok =>
      have hv := r.checked hr
      cases hb : r.copySafe <;>
        simp [joinOutcome, recordOf, Ending.write, ClosureRun.write, Ending.outcome, hr, hv, hb,
          threadAlloc, orTypeMismatch]
    | trap =>
      simp [joinOutcome, recordOf, Ending.write, ClosureRun.write, Ending.outcome, hr,
        r.clip_message]

end Records

theorem result_threadAt {t : JelloThread} (h : s.thread i = some t) :
    result (threadAt i) s = .ok (t, s) := by
  rw [threadAt, result_bind, result_read, h]
  rfl

theorem result_handleAt {h : ThreadHandle} (hh : s.handle i = some h) :
    result (handleAt i) s = .ok (h, s) := by
  rw [handleAt, result_bind, result_read, hh]
  rfl

theorem result_readLent {t : JelloThread} (ht : s.thread i = some t) :
    result (readLent i) s = if s.lent i = true then .ok ((), s) else .error .wild := by
  rw [readLent, result_then (result_threadAt ht), result_bind, result_read]
  cases s.lent i <;> rfl

theorem result_readFailing {t : JelloThread} {f : StartFailure} (ht : s.thread i = some t) :
    result (readFailing i f) s =
      if f.reads = true → s.lent i = true then .ok ((), s) else .error .wild := by
  unfold readFailing
  cases f.reads with
  | false => rfl
  | true => simpa using result_readLent ht

theorem result_machineAt (h : s.machine p = true) :
    result (machineAt p) s = .ok ((), s) := by
  rw [machineAt, result_bind, result_read, h]
  rfl

theorem result_destroyMachine (h : s.machine p = true) :
    result (destroyMachine p) s = .ok ((), s.destroyed p) := by
  rw [destroyMachine, result_then (result_machineAt h)]
  rfl

@[grind =]
theorem destroyed_machine {j : ℕ} :
    (s.destroyed p).machine j = if j = p then false else s.machine j :=
  update_apply ..

end JelloVM
