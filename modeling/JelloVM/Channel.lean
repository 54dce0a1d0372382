import JelloVM.Library.RingBuffer
import JelloVM.Payload

namespace JelloVM

open Logged RingBuffer

/-- `jello_channel_cell`: the union is only read as the member that its kind names. -/
inductive JelloChannelCell
  | null
  | bool (u32 : UInt32)
  | i32 (u32 : UInt32)
  | atom (u32 : UInt32)
  | i64 (u64 : UInt64)
  | f32 (bits : UInt32)
  | f64 (bits : UInt64)
  | f16 (u32 : UInt32)
  | bytes (data : List UInt8)
  deriving DecidableEq, Repr

structure JelloChannel where
  cap : UInt32
  head : UInt32
  tail : UInt32
  count : UInt32
  closed : Bool
  cells : ℕ → JelloChannelCell

def Cell.isCopySafe : Cell → Bool
  | .boxI64 .. | .boxF32 .. | .boxF64 .. | .boxF16 .. | .bytes _ => true
  | _ => false

def jelloValueIsCopySafe (v : JelloValue) : StoreM Bool :=
  if jelloIsNull v || jelloIsBool v || jelloIsI32 v || jelloIsAtom v then pure true
  else if !jelloIsPtr v then pure false
  else do
    let c ← cellAt v
    pure c.isCopySafe

def channelCellFromValue (v : JelloValue) : StoreM (Option JelloChannelCell) := do
  if !(← jelloValueIsCopySafe v) then pure none
  else if jelloIsNull v then pure (some .null)
  else if jelloIsBool v then pure (some (.bool (if jelloAsBool v then 1 else 0)))
  else if jelloIsI32 v then pure (some (.i32 (jelloAsI32 v)))
  else if jelloIsAtom v then pure (some (.atom (jelloAsAtom v)))
  else do
    match ← cellAt v with
    | .boxI64 _ x => pure (some (.i64 x))
    | .boxF32 _ x => pure (some (.f32 x))
    | .boxF64 _ x => pure (some (.f64 x))
    | .boxF16 _ x => pure (some (.f16 x.toUInt32))
    | .bytes b => pure (some (.bytes ((List.range b.length.toNat).map b.data)))
    | _ => pure none

def channelCellToValue : JelloChannelCell → StoreM JelloValue
  | .null => pure jelloMakeNull
  | .bool x => pure (jelloMakeBool (x != 0))
  | .i32 x => pure (jelloMakeI32 x)
  | .atom x => pure (jelloMakeAtom x)
  | .i64 x => jelloBoxI64New 0 x
  | .f32 x => jelloBoxF32New 0 x
  | .f64 x => jelloBoxF64New 0 x
  | .f16 x => jelloBoxF16New 0 x.toUInt16
  | .bytes data => jelloBytesNew 0 (UInt32.ofNat data.length) fun i ↦ data.getD i 0

def jelloChannelDefaultCap : UInt32 := 64

def jelloChannelNew (capacity : UInt32) : JelloChannel :=
  { cap := if capacity = 0 then jelloChannelDefaultCap else capacity
    head := 0
    tail := 0
    count := 0
    closed := false
    cells := fun _ ↦ .null }

def channelSlot (ch : JelloChannel) (index : UInt32) : ℕ := (index % ch.cap).toNat

/-- What a sender does while it holds the mutex; `none` when it waits. -/
def channelSendLocked (ch : JelloChannel) (tmp : JelloChannelCell) :
    Option (JelloChannel × Bool) :=
  if !ch.closed ∧ ch.cap ≤ ch.count then none
  else if ch.closed then some (ch, false)
  else some
    ({ ch with
        cells := Function.update ch.cells (channelSlot ch ch.tail) tmp
        tail := ch.tail + 1
        count := ch.count + 1 }, true)

/-- The flag says that the value has been accepted. -/
def jelloChannelSend (ctx : Ctx) (ch : JelloChannel) (msg : JelloValue) :
    StoreM (Option (JelloChannel × Bool)) := do
  if !(← jelloValueIsCopySafe msg) then do
    jelloVmTrap ctx .typeMismatch "channel send: value not copy-safe"
    pure (some (ch, false))
  else do
    match ← channelCellFromValue msg with
    | none => do
      jelloVmTrap ctx .typeMismatch "channel send: marshal failed"
      pure (some (ch, false))
    | some tmp => pure (channelSendLocked ch tmp)

/-- What a receiver does while it holds the mutex; `none` when it waits. -/
def channelRecvLocked (ch : JelloChannel) (block : Bool) :
    Option (JelloChannel × Option JelloChannelCell) :=
  if block ∧ ch.count = 0 ∧ !ch.closed then none
  else if ch.count = 0 then some (ch, none)
  else some
    ({ ch with
        cells := Function.update ch.cells (channelSlot ch ch.head) .null
        head := ch.head + 1
        count := ch.count - 1 }, some (ch.cells (channelSlot ch ch.head)))

/-- `jello_channel_recv` and `jello_channel_try_recv`; an empty channel gives null. -/
def jelloChannelRecv (ch : JelloChannel) (block : Bool) :
    StoreM (Option (JelloChannel × JelloValue)) :=
  match channelRecvLocked ch block with
  | none => pure none
  | some (ch, none) => pure (some (ch, jelloMakeNull))
  | some (ch, some tmp) => do
    let v ← channelCellToValue tmp
    pure (some (ch, v))

def jelloChannelClose (ch : JelloChannel) : JelloChannel := { ch with closed := true }

/-- A value of a heap is the one that the cell stands for. -/
def Denotes (h : Heap) (v : JelloValue) : JelloChannelCell → Prop
  | .null => jelloIsNull v = true
  | .bool x => jelloIsBool v = true ∧ jelloAsBool v = (x != 0)
  | .i32 x => jelloIsI32 v = true ∧ jelloAsI32 v = x
  | .atom x => jelloIsAtom v = true ∧ jelloAsAtom v = x
  | .i64 x => jelloIsPtr v = true ∧ ∃ t, h.cells v = some (.boxI64 t x)
  | .f32 x => jelloIsPtr v = true ∧ ∃ t, h.cells v = some (.boxF32 t x)
  | .f64 x => jelloIsPtr v = true ∧ ∃ t, h.cells v = some (.boxF64 t x)
  | .f16 x => jelloIsPtr v = true ∧ ∃ t, h.cells v = some (.boxF16 t x.toUInt16)
  | .bytes data => jelloIsPtr v = true ∧ ∃ b, h.cells v = some (.bytes b) ∧
      b.length.toNat = data.length ∧ ∀ i < data.length, b.data i = data.getD i 0

def SameValue (p q : Heap × JelloValue) : Prop := ∃ c, Denotes p.1 p.2 c ∧ Denotes q.1 q.2 c

section Marshal

variable {s : Store} {v : JelloValue}

theorem ends_copySafe (v : JelloValue) (s : Store) :
    Ends (jelloValueIsCopySafe v)
      (fun b s' ↦ s' = s ∧ (b = true → jelloIsNull v ∨ jelloIsBool v ∨ jelloIsI32 v ∨
        jelloIsAtom v ∨ jelloIsPtr v)) s := by
  refine spec_ite.mpr ⟨fun h ↦ (spec_pure _).mpr ⟨rfl, fun _ ↦ ?_⟩, fun _ ↦ ?_⟩
  · simp only [Bool.or_eq_true] at h
    tauto
  refine spec_ite.mpr ⟨fun _ ↦ (spec_pure _).mpr ⟨rfl, fun h ↦ absurd h (by decide)⟩, fun h ↦ ?_⟩
  refine spec_bind.mpr (spec_cellAt fun c _ ↦ (spec_pure _).mpr ⟨rfl, fun _ ↦ ?_⟩)
  simp only [Bool.not_eq_true', Bool.not_eq_false] at h
  tauto

theorem ends_channelCellFromValue (v : JelloValue) (s : Store) :
    Ends (channelCellFromValue v) (fun o s' ↦ s' = s ∧ ∀ c, o = some c → Denotes s.heap v c) s := by
  have hsome (c : JelloChannelCell) (h : Denotes s.heap v c) :
      s = s ∧ ∀ c', some c = some c' → Denotes s.heap v c' := ⟨rfl, fun c' hc ↦ by cases hc; exact h⟩
  have hnone : s = s ∧ ∀ c', (none : Option JelloChannelCell) = some c' → Denotes s.heap v c' :=
    ⟨rfl, fun c' hc ↦ absurd hc (by simp)⟩
  refine spec_bind.mpr ((ends_copySafe v s).mono fun safe s' hsafe ↦ ?_)
  obtain ⟨rfl, hkind⟩ := hsafe
  refine spec_ite.mpr ⟨fun _ ↦ (spec_pure _).mpr hnone, fun hs ↦ ?_⟩
  refine spec_ite.mpr ⟨fun h ↦ (spec_pure _).mpr (hsome .null h), fun hn ↦ ?_⟩
  refine spec_ite.mpr ⟨fun h ↦ (spec_pure _).mpr (hsome (.bool _) ⟨h, ?_⟩), fun hb ↦ ?_⟩
  · cases jelloAsBool v <;> rfl
  refine spec_ite.mpr ⟨fun h ↦ (spec_pure _).mpr (hsome (.i32 _) ⟨h, rfl⟩), fun hi ↦ ?_⟩
  refine spec_ite.mpr ⟨fun h ↦ (spec_pure _).mpr (hsome (.atom _) ⟨h, rfl⟩), fun ha ↦ ?_⟩
  have hp : jelloIsPtr v = true := by
    have hk := hkind (by simpa using hs)
    tauto
  refine spec_bind.mpr (spec_cellAt fun c hc ↦ ?_)
  cases c
  case boxI64 t x => exact (spec_pure _).mpr (hsome (.i64 x) ⟨hp, t, hc⟩)
  case boxF32 t x => exact (spec_pure _).mpr (hsome (.f32 x) ⟨hp, t, hc⟩)
  case boxF64 t x => exact (spec_pure _).mpr (hsome (.f64 x) ⟨hp, t, hc⟩)
  case boxF16 t x => exact (spec_pure _).mpr (hsome (.f16 x.toUInt32) ⟨hp, t, by simpa using hc⟩)
  case bytes b =>
    refine (spec_pure _).mpr (hsome (.bytes _) ⟨hp, b, hc, by simp, fun i hi ↦ ?_⟩)
    rw [List.length_map, List.length_range] at hi
    simp [hi]
  all_goals exact (spec_pure _).mpr hnone

/-- The heap hands out pointers. -/
def PtrNext (s : Store) : Prop := jelloIsPtr s.heap.next = true

theorem ends_gcAlloc_denotes {c : JelloChannelCell} {cell : Cell} (hp : PtrNext s)
    (h : ∀ heap v, jelloIsPtr v = true → heap.cells v = some cell → Denotes heap v c) :
    Ends (gcAlloc cell) (fun v s' ↦ PtrNext s' ∧ Denotes s'.heap v c) s := by
  refine spec_gcAlloc.mpr ⟨jelloIsPtr_add hp (by decide), h _ _ hp ?_⟩
  exact Heap.alloc_cells_self s.heap cell

theorem ends_channelCellToValue (c : JelloChannelCell) (hlen : ∀ data, c = .bytes data →
    data.length < 2 ^ 32) (hp : PtrNext s) :
    Ends (channelCellToValue c) (fun v s' ↦ PtrNext s' ∧ Denotes s'.heap v c) s := by
  cases c with
  | null => exact (spec_pure _).mpr ⟨hp, rfl⟩
  | bool x =>
    refine (spec_pure _).mpr ⟨hp, ?_⟩
    simp only [Denotes]
    cases (x != 0) <;> decide
  | i32 x => exact (spec_pure _).mpr ⟨hp, hasTag_tagged .i32 x, payload_tagged .i32 x⟩
  | atom x => exact (spec_pure _).mpr ⟨hp, hasTag_tagged .atom x, payload_tagged .atom x⟩
  | i64 x => exact ends_gcAlloc_denotes hp fun _ _ hv hc ↦ ⟨hv, _, hc⟩
  | f32 x => exact ends_gcAlloc_denotes hp fun _ _ hv hc ↦ ⟨hv, _, hc⟩
  | f64 x => exact ends_gcAlloc_denotes hp fun _ _ hv hc ↦ ⟨hv, _, hc⟩
  | f16 x => exact ends_gcAlloc_denotes hp fun _ _ hv hc ↦ ⟨hv, _, hc⟩
  | bytes data =>
    refine ends_gcAlloc_denotes hp fun _ _ hv hc ↦ ⟨hv, _, hc, ?_, fun i _ ↦ rfl⟩
    exact Nat.mod_eq_of_lt (hlen data rfl)

theorem Denotes.length_lt {h : Heap} {c : JelloChannelCell} (hd : Denotes h v c) :
    ∀ data, c = .bytes data → data.length < 2 ^ 32 := by
  rintro data rfl
  obtain ⟨-, b, -, hb, -⟩ := hd
  exact hb ▸ b.length.toNat_lt

theorem channelCellToValue_ok (c : JelloChannelCell) (s : Store) :
    ∃ v s', result (channelCellToValue c) s = .ok (v, s') := by
  cases c <;> exact ⟨_, _, rfl⟩

end Marshal

/-- A channel and the machines of the threads that use it, with what has been put into it and what
has been taken out, each with the heap it was in. -/
structure ChannelSystem where
  ch : JelloChannel
  threads : ℕ → Store
  accepted : List (Heap × JelloValue)
  taken : List (Heap × JelloValue)

inductive ChannelCall
  | send (i : ℕ) (msg : JelloValue)
  | recv (i : ℕ) (block : Bool)
  | close
  | run (i : ℕ)
  deriving DecidableEq, Repr

open Function in
/-- A thread finishes a call, which it does while it holds the mutex and need not wait, or it does
something else on its own machine. -/
inductive ChannelStep (σ : ChannelSystem) : ChannelCall → ChannelSystem → Prop
  | accept {i : ℕ} {msg : JelloValue} {ctx : Ctx} {ch' : JelloChannel} {s' : Store}
      (h : result (jelloChannelSend ctx σ.ch msg) (σ.threads i) = .ok (some (ch', true), s')) :
      ChannelStep σ (.send i msg)
        { σ with
          ch := ch'
          threads := update σ.threads i s'
          accepted := σ.accepted ++ [((σ.threads i).heap, msg)] }
  | refuse {i : ℕ} {msg : JelloValue} {ctx : Ctx} {ch' : JelloChannel} {s' : Store}
      (h : result (jelloChannelSend ctx σ.ch msg) (σ.threads i) = .ok (some (ch', false), s')) :
      ChannelStep σ (.send i msg) { σ with ch := ch', threads := update σ.threads i s' }
  | take {i : ℕ} {block : Bool} {ch' : JelloChannel} {v : JelloValue} {s' : Store}
      (hcount : σ.ch.count ≠ 0)
      (h : result (jelloChannelRecv σ.ch block) (σ.threads i) = .ok (some (ch', v), s')) :
      ChannelStep σ (.recv i block)
        { σ with
          ch := ch'
          threads := update σ.threads i s'
          taken := σ.taken ++ [(s'.heap, v)] }
  | empty {i : ℕ} {block : Bool} {ch' : JelloChannel} {v : JelloValue} {s' : Store}
      (hcount : σ.ch.count = 0)
      (h : result (jelloChannelRecv σ.ch block) (σ.threads i) = .ok (some (ch', v), s')) :
      ChannelStep σ (.recv i block) { σ with ch := ch', threads := update σ.threads i s' }
  | close : ChannelStep σ .close { σ with ch := jelloChannelClose σ.ch }
  | run {i : ℕ} {s' : Store} (hp : PtrNext s') :
      ChannelStep σ (.run i) { σ with threads := update σ.threads i s' }

def ChannelSystem.start (capacity : UInt32) (threads : ℕ → Store) : ChannelSystem :=
  { ch := jelloChannelNew capacity, threads := threads, accepted := [], taken := [] }

/-- The runs in which `C` holds of the channel at every send. -/
inductive ChannelRun (C : JelloChannel → Prop) (σ₀ : ChannelSystem) : ChannelSystem → Prop
  | start : ChannelRun C σ₀ σ₀
  | step {σ σ' : ChannelSystem} {call : ChannelCall} (h : ChannelRun C σ₀ σ)
      (hstep : ChannelStep σ call σ') (hsend : ∀ i msg, call = .send i msg → C σ.ch) :
      ChannelRun C σ₀ σ'

/-- The values come out as they went in, and after a close only those that are inside do. -/
structure Fifo (σ : ChannelSystem) : Prop where
  le : σ.taken.length ≤ σ.accepted.length
  same : ∀ (k : ℕ) (ht : k < σ.taken.length) (ha : k < σ.accepted.length),
    SameValue σ.accepted[k] σ.taken[k]
  closed : σ.ch.closed = true → ∀ call σ', ChannelStep σ call σ' →
    σ'.accepted = σ.accepted ∧ σ'.ch.closed = true
  receivable : σ.taken.length < σ.accepted.length → ∀ i block, ∃ σ',
    ChannelStep σ (.recv i block) σ' ∧ σ'.taken.length = σ.taken.length + 1

/-- With `2 ^ 32 % cap` slots passed over where the counters wrap: the tail is past them, or fewer
values are inside. -/
def SendClear (ch : JelloChannel) : Prop :=
  Clear (2 ^ 32) ch.cap.toNat ch.tail.toNat ch.count.toNat

/-- The cell that the next send fills is that of a value which has not come out. -/
def Overwrites (σ : ChannelSystem) : Prop :=
  ∃ k < σ.accepted.length - σ.taken.length,
    channelSlot σ.ch (σ.ch.head + UInt32.ofNat k) = channelSlot σ.ch σ.ch.tail

section Invariant

variable {σ σ' : ChannelSystem} {call : ChannelCall}

/-- `pending` lies in the ring. -/
structure Inside (ch : JelloChannel) (pending : List JelloChannelCell) : Prop where
  cap : ch.cap ≠ 0
  count : ch.count.toNat = pending.length
  tail : ch.tail = ch.head + ch.count
  ring : Holds (2 ^ 32) ch.cap.toNat ch.cells ch.head.toNat pending

theorem channelSlot_eq (ch : JelloChannel) (index : UInt32) :
    channelSlot ch index = slot (2 ^ 32) ch.cap.toNat index.toNat := by
  rw [channelSlot, slot, UInt32.toNat_mod, Nat.mod_eq_of_lt index.toNat_lt]

theorem Inside.slot_tail {ch : JelloChannel} {pending : List JelloChannelCell}
    (h : Inside ch pending) :
    channelSlot ch ch.tail = slot (2 ^ 32) ch.cap.toNat (ch.head.toNat + pending.length) := by
  rw [channelSlot_eq, h.tail, UInt32.toNat_add, h.count, slot, slot, Nat.mod_mod]

theorem Inside.push {ch : JelloChannel} {pending : List JelloChannelCell} (h : Inside ch pending)
    (hroom : ch.count < ch.cap) (hclear : SendClear ch) (c : JelloChannelCell) :
    Inside { ch with
        cells := Function.update ch.cells (channelSlot ch ch.tail) c
        tail := ch.tail + 1
        count := ch.count + 1 } (pending ++ [c]) := by
  have hcap := ch.cap.toNat_lt
  have hlt : ch.count.toNat < ch.cap.toNat := UInt32.lt_iff_toNat_lt.mp hroom
  have hcount : (ch.count + 1).toNat = pending.length + 1 := by
    rw [UInt32.toNat_add, h.count]
    exact Nat.mod_eq_of_lt (by have := h.count; simp; omega)
  refine ⟨h.cap, ?_, ?_, ?_⟩
  · simp only [List.length_append, List.length_singleton]
    exact hcount
  · simp only [h.tail]
    rw [UInt32.add_assoc]
  · simp only [h.slot_tail]
    refine h.ring.push hcap.le (h.count ▸ hlt) ?_ c
    unfold SendClear at hclear
    rw [h.tail, h.count] at hclear
    simp only [Clear, UInt32.toNat_add, h.count, Nat.mod_mod] at hclear ⊢
    exact hclear

theorem Inside.slot_add {ch : JelloChannel} {pending : List JelloChannelCell}
    (h : Inside ch pending) {k : ℕ} (hk : k < pending.length) :
    channelSlot ch (ch.head + UInt32.ofNat k) = slot (2 ^ 32) ch.cap.toNat (ch.head.toNat + k) := by
  have hlt : k < 2 ^ 32 := by
    have hcount := h.count
    have := ch.count.toNat_lt
    omega
  rw [channelSlot_eq, UInt32.toNat_add, UInt32.toNat_ofNat_of_lt' hlt, slot, slot, Nat.mod_mod]

theorem Inside.sendClear_iff {ch : JelloChannel} {pending : List JelloChannelCell}
    (h : Inside ch pending) (hroom : ch.count < ch.cap) :
    SendClear ch ↔ ¬ ∃ k < pending.length,
      channelSlot ch (ch.head + UInt32.ofNat k) = channelSlot ch ch.tail := by
  have hcap := ch.cap.toNat_lt
  have hlt : pending.length < ch.cap.toNat := h.count ▸ UInt32.lt_iff_toNat_lt.mp hroom
  have hclear : SendClear ch ↔
      Clear (2 ^ 32) ch.cap.toNat (ch.head.toNat + pending.length) pending.length := by
    rw [SendClear, h.tail, h.count]
    simp only [Clear, UInt32.toNat_add, h.count, Nat.mod_mod]
  rw [hclear, h.slot_tail]
  constructor
  · rintro hclear ⟨k, hk, hslot⟩
    rw [h.slot_add hk] at hslot
    refine slot_ne_of_clear (d := pending.length - k) hcap.le hclear (by omega) (by omega) hlt
      (by omega) ?_
    rw [← hslot]
    congr 1
    omega
  · intro hno
    by_contra hnot
    obtain ⟨d, hd, hdn, hslot⟩ := exists_slot_eq hcap.le hlt (Nat.le_add_left _ _) hnot
    refine hno ⟨pending.length - d, by omega, ?_⟩
    rw [h.slot_add (by omega), ← hslot]
    congr 1
    omega

theorem Inside.pop {ch : JelloChannel} {c : JelloChannelCell} {pending : List JelloChannelCell}
    (h : Inside ch (c :: pending)) :
    ch.cells (channelSlot ch ch.head) = c ∧
      Inside { ch with
        cells := Function.update ch.cells (channelSlot ch ch.head) .null
        head := ch.head + 1
        count := ch.count - 1 } pending := by
  obtain ⟨hfirst, hrest⟩ := h.ring.pop JelloChannelCell.null
  rw [channelSlot_eq]
  have hcount := h.count
  rw [List.length_cons] at hcount
  refine ⟨hfirst, h.cap, ?_, ?_, ?_⟩
  · simp only
    rw [UInt32.toNat_sub_of_le _ _ (UInt32.le_iff_toNat_le.mpr (by simp; omega)), hcount]
    simp
  · simp only [h.tail]
    rw [UInt32.add_assoc, UInt32.add_comm 1, UInt32.sub_add_cancel]
  · refine hrest.congr ?_
    simp only [UInt32.toNat_add, Nat.mod_mod]
    rfl

theorem channelSendLocked_some {ch ch' : JelloChannel} {tmp : JelloChannelCell} {b : Bool}
    (h : channelSendLocked ch tmp = some (ch', b)) :
    (b = true ∧ ch.closed = false ∧ ch.count < ch.cap ∧ ch' = { ch with
        cells := Function.update ch.cells (channelSlot ch ch.tail) tmp
        tail := ch.tail + 1
        count := ch.count + 1 }) ∨ (b = false ∧ ch' = ch) := by
  unfold channelSendLocked at h
  split_ifs at h with hwait hclosed
  · simp only [Option.some.injEq, Prod.mk.injEq] at h
    exact .inr ⟨h.2.symm, h.1.symm⟩
  · simp only [Option.some.injEq, Prod.mk.injEq] at h
    have hopen : ch.closed = false := by simpa using hclosed
    refine .inl ⟨h.2.symm, hopen, ?_, h.1.symm⟩
    simpa [hopen] using hwait

theorem ends_jelloChannelSend (ctx : Ctx) (ch : JelloChannel) (msg : JelloValue) (s : Store) :
    Ends (jelloChannelSend ctx ch msg) (fun r s' ↦ s'.heap = s.heap ∧ ∀ ch' b,
      r = some (ch', b) → (b = false ∧ ch' = ch) ∨
        ∃ tmp, Denotes s.heap msg tmp ∧ channelSendLocked ch tmp = some (ch', b)) s := by
  have hrefuse {s' : Store} (hs' : s'.heap = s.heap) : s'.heap = s.heap ∧ ∀ ch' b,
      some (ch, false) = some (ch', b) → (b = false ∧ ch' = ch) ∨
        ∃ tmp, Denotes s.heap msg tmp ∧ channelSendLocked ch tmp = some (ch', b) := by
    refine ⟨hs', fun ch' b hr ↦ ?_⟩
    simp only [Option.some.injEq, Prod.mk.injEq] at hr
    exact .inl ⟨hr.2.symm, hr.1.symm⟩
  refine spec_bind.mpr ((ends_copySafe msg s).mono fun safe s' hsafe ↦ ?_)
  obtain ⟨rfl, -⟩ := hsafe
  refine spec_ite.mpr ⟨fun _ ↦ spec_bind.mpr (spec_setTrap.mpr ?_), fun _ ↦ ?_⟩
  · exact (spec_pure _).mpr (hrefuse rfl)
  refine spec_bind.mpr ((ends_channelCellFromValue msg s').mono fun o s'' ho ↦ ?_)
  obtain ⟨rfl, hden⟩ := ho
  cases o with
  | none => exact spec_bind.mpr (spec_setTrap.mpr ((spec_pure _).mpr (hrefuse rfl)))
  | some tmp =>
    exact (spec_pure _).mpr ⟨rfl, fun ch' b hr ↦ .inr ⟨tmp, hden tmp rfl, hr⟩⟩

/-- What the calls so far have left: the cells that have gone out, and those inside. -/
def ChannelInv (σ : ChannelSystem) : Prop :=
  (∀ i, PtrNext (σ.threads i)) ∧ ∃ out pending, Inside σ.ch pending ∧
    List.Forall₂ (fun p c ↦ Denotes p.1 p.2 c) σ.accepted (out ++ pending) ∧
    List.Forall₂ (fun p c ↦ Denotes p.1 p.2 c) σ.taken out

theorem ptrNext_update {threads : ℕ → Store} {i : ℕ} {s' : Store}
    (h : ∀ i, PtrNext (threads i)) (hs' : PtrNext s') :
    ∀ j, PtrNext (Function.update threads i s' j) := by
  intro j
  by_cases hj : j = i
  · rw [hj, Function.update_self]
    exact hs'
  · rw [Function.update_of_ne hj]
    exact h j

theorem forall₂_append_one {α β : Type} {R : α → β → Prop} {as : List α} {bs : List β} {a : α}
    {b : β} (h : List.Forall₂ R as bs) (hab : R a b) : List.Forall₂ R (as ++ [a]) (bs ++ [b]) :=
  List.rel_append h (.cons hab .nil)

theorem channelInv_start (capacity : UInt32) {threads : ℕ → Store}
    (hp : ∀ i, PtrNext (threads i)) : ChannelInv (.start capacity threads) := by
  refine ⟨hp, [], [], ⟨?_, rfl, rfl, holds_nil _ _ _ _⟩, .nil, .nil⟩
  simp only [ChannelSystem.start, jelloChannelNew]
  split_ifs with h
  · decide
  · exact h

theorem result_jelloChannelRecv {ch : JelloChannel} {block : Bool} (hcount : ch.count ≠ 0) :
    jelloChannelRecv ch block = (do
      let v ← channelCellToValue (ch.cells (channelSlot ch ch.head))
      pure (some ({ ch with
        cells := Function.update ch.cells (channelSlot ch ch.head) .null
        head := ch.head + 1
        count := ch.count - 1 }, v))) := by
  unfold jelloChannelRecv channelRecvLocked
  rw [if_neg (by tauto), if_neg hcount]

theorem Inside.exists_cons {ch : JelloChannel} {pending : List JelloChannelCell}
    (h : Inside ch pending) (hcount : ch.count ≠ 0) : ∃ c rest, pending = c :: rest := by
  cases pending with
  | nil => exact absurd (UInt32.toNat_inj.mp h.count) hcount
  | cons c rest => exact ⟨c, rest, rfl⟩

theorem denoted_length_lt {accepted : List (Heap × JelloValue)} {out rest : List JelloChannelCell}
    {c : JelloChannelCell}
    (h : List.Forall₂ (fun p c ↦ Denotes p.1 p.2 c) accepted (out ++ c :: rest)) :
    ∀ data, c = .bytes data → data.length < 2 ^ 32 := by
  obtain ⟨hlen, hget⟩ := List.forall₂_iff_get.mp h
  have hk : out.length < (out ++ c :: rest).length := by simp
  have hden := hget out.length (hlen ▸ hk) hk
  rw [List.get_eq_getElem (l := out ++ c :: rest), List.getElem_append_right le_rfl] at hden
  simpa using Denotes.length_lt hden

theorem ChannelInv.step (h : ChannelInv σ) (hstep : ChannelStep σ call σ')
    (hsend : ∀ i msg, call = .send i msg → SendClear σ.ch) : ChannelInv σ' := by
  obtain ⟨hp, out, pending, hin, hacc, htaken⟩ := h
  cases hstep with
  | @accept i msg ctx ch' s' hr =>
    obtain ⟨hheap, hres⟩ := (ends_jelloChannelSend _ _ _ _).of_result hr
    have hp' := ptrNext_update (i := i) hp (show PtrNext s' by rw [PtrNext, hheap]; exact hp i)
    obtain ⟨hfalse, -⟩ | ⟨tmp, hden, hlocked⟩ := hres ch' true rfl
    · exact absurd hfalse (by decide)
    obtain ⟨-, -, hroom, rfl⟩ | ⟨hfalse, -⟩ := channelSendLocked_some hlocked
    · refine ⟨hp', out, pending ++ [tmp], hin.push hroom (hsend i msg rfl) tmp, ?_, htaken⟩
      rw [← List.append_assoc]
      exact forall₂_append_one hacc hden
    · exact absurd hfalse (by decide)
  | @refuse i msg ctx ch' s' hr =>
    obtain ⟨hheap, hres⟩ := (ends_jelloChannelSend _ _ _ _).of_result hr
    have hp' := ptrNext_update (i := i) hp (show PtrNext s' by rw [PtrNext, hheap]; exact hp i)
    have hch : ch' = σ.ch := by
      obtain ⟨-, hch⟩ | ⟨tmp, -, hlocked⟩ := hres ch' false rfl
      · exact hch
      obtain ⟨htrue, -⟩ | ⟨-, hch⟩ := channelSendLocked_some hlocked
      · exact absurd htrue (by decide)
      · exact hch
    exact ⟨hp', out, pending, hch ▸ hin, hacc, htaken⟩
  | @take i block ch' v s' hcount hr =>
    obtain ⟨c, rest, rfl⟩ := hin.exists_cons hcount
    obtain ⟨hc, hrest⟩ := hin.pop
    rw [result_jelloChannelRecv hcount, hc] at hr
    obtain ⟨v', s'', hval, hret⟩ := bind_ok hr
    simp only [result_pure, Except.ok.injEq, Prod.mk.injEq, Option.some.injEq] at hret
    obtain ⟨⟨rfl, rfl⟩, rfl⟩ := hret
    obtain ⟨hp', hden⟩ :=
      (ends_channelCellToValue c (denoted_length_lt hacc) (hp i)).of_result hval
    refine ⟨ptrNext_update hp hp', out ++ [c], rest, hrest, ?_, forall₂_append_one htaken hden⟩
    rw [List.append_assoc]
    exact hacc
  | @empty i block ch' v s' hcount hr =>
    have hrecv : ch' = σ.ch ∧ s' = σ.threads i := by
      unfold jelloChannelRecv channelRecvLocked at hr
      split_ifs at hr with hwait
      · simp at hr
      · simp only [result_pure, Except.ok.injEq, Prod.mk.injEq, Option.some.injEq] at hr
        exact ⟨hr.1.1.symm, hr.2.symm⟩
    obtain ⟨rfl, rfl⟩ := hrecv
    exact ⟨ptrNext_update hp (hp i), out, pending, hin, hacc, htaken⟩
  | close => exact ⟨hp, out, pending, ⟨hin.cap, hin.count, hin.tail, hin.ring⟩, hacc, htaken⟩
  | run hp' => exact ⟨ptrNext_update hp hp', out, pending, hin, hacc, htaken⟩

theorem ChannelInv.fifo (h : ChannelInv σ) : Fifo σ := by
  obtain ⟨hp, out, pending, hin, hacc, htaken⟩ := h
  have hlen := hacc.length_eq
  have htlen := htaken.length_eq
  rw [List.length_append] at hlen
  refine ⟨by omega, fun k ht ha ↦ ?_, fun hclosed call σ' hstep ↦ ?_, fun hlt i block ↦ ?_⟩
  · have hout : k < out.length := htlen ▸ ht
    have hk : k < (out ++ pending).length := by
      rw [List.length_append]
      omega
    have hden := (List.forall₂_iff_get.mp hacc).2 k ha hk
    have hden' := (List.forall₂_iff_get.mp htaken).2 k ht hout
    rw [List.get_eq_getElem, List.get_eq_getElem, List.getElem_append_left hout] at hden
    exact ⟨out[k], hden, hden'⟩
  · cases hstep with
    | @accept i msg ctx ch' s' hr =>
      obtain ⟨-, hres⟩ := (ends_jelloChannelSend _ _ _ _).of_result hr
      obtain ⟨hfalse, -⟩ | ⟨tmp, -, hlocked⟩ := hres ch' true rfl
      · exact absurd hfalse (by decide)
      obtain ⟨-, hopen, -⟩ | ⟨hfalse, -⟩ := channelSendLocked_some hlocked
      · exact absurd (hclosed.symm.trans hopen) (by decide)
      · exact absurd hfalse (by decide)
    | @refuse i msg ctx ch' s' hr =>
      obtain ⟨-, hres⟩ := (ends_jelloChannelSend _ _ _ _).of_result hr
      obtain ⟨-, rfl⟩ | ⟨tmp, -, hlocked⟩ := hres ch' false rfl
      · exact ⟨rfl, hclosed⟩
      obtain ⟨htrue, -⟩ | ⟨-, rfl⟩ := channelSendLocked_some hlocked
      · exact absurd htrue (by decide)
      · exact ⟨rfl, hclosed⟩
    | @take i block ch' v s' hcount hr =>
      rw [result_jelloChannelRecv hcount] at hr
      obtain ⟨v', s'', -, hret⟩ := bind_ok hr
      simp only [result_pure, Except.ok.injEq, Prod.mk.injEq, Option.some.injEq] at hret
      obtain ⟨⟨rfl, -⟩, -⟩ := hret
      exact ⟨rfl, hclosed⟩
    | @empty i block ch' v s' hcount hr =>
      unfold jelloChannelRecv channelRecvLocked at hr
      rw [if_neg (by simp [hclosed]), if_pos hcount] at hr
      simp only [result_pure, Except.ok.injEq, Prod.mk.injEq, Option.some.injEq] at hr
      obtain ⟨⟨rfl, -⟩, -⟩ := hr
      exact ⟨rfl, hclosed⟩
    | close => exact ⟨rfl, rfl⟩
    | run hp' => exact ⟨rfl, hclosed⟩
  · have hcount : σ.ch.count ≠ 0 := by
      intro h0
      have hc := hin.count
      rw [h0] at hc
      have hz : (0 : UInt32).toNat = 0 := rfl
      omega
    obtain ⟨v, s', hval⟩ :=
      channelCellToValue_ok (σ.ch.cells (channelSlot σ.ch σ.ch.head)) (σ.threads i)
    refine ⟨_, .take hcount (by rw [result_jelloChannelRecv hcount, result_bind, hval]; rfl), ?_⟩
    simp

theorem ChannelInv.sendClear_iff (h : ChannelInv σ) (hroom : σ.ch.count < σ.ch.cap) :
    SendClear σ.ch ↔ ¬ Overwrites σ := by
  obtain ⟨-, out, pending, hin, hacc, htaken⟩ := h
  have hlen : σ.accepted.length - σ.taken.length = pending.length := by
    rw [hacc.length_eq, htaken.length_eq, List.length_append, Nat.add_sub_cancel_left]
  rw [hin.sendClear_iff hroom, Overwrites, hlen]

/-- In every run of any number of threads whose sends find their slot clear, the values come out
of the channel as they went in; the next send finds its slot clear unless it writes over one of
them. -/
theorem channel_fifo (capacity : UInt32) {threads : ℕ → Store} (hp : ∀ i, PtrNext (threads i))
    (h : ChannelRun SendClear (.start capacity threads) σ) :
    Fifo σ ∧ (σ.ch.count < σ.ch.cap → (SendClear σ.ch ↔ ¬ Overwrites σ)) := by
  suffices hinv : ChannelInv σ from ⟨hinv.fifo, hinv.sendClear_iff⟩
  induction h with
  | start => exact channelInv_start capacity hp
  | step h hstep hsend ih => exact ih.step hstep hsend

end Invariant

section Wrap

def idleThreads : ℕ → Store := fun _ ↦ jelloVmCreate.store

/-- After `n` zeros have gone through the channel. -/
def passed (capacity : UInt32) (n : ℕ) : ChannelSystem :=
  { ch := { jelloChannelNew capacity with head := UInt32.ofNat n, tail := UInt32.ofNat n }
    threads := idleThreads
    accepted := List.replicate n (jelloVmCreate.store.heap, jelloMakeI32 0)
    taken := List.replicate n (jelloVmCreate.store.heap, jelloMakeI32 0) }

def sent (ch : JelloChannel) (x : UInt32) : JelloChannel :=
  { ch with
    cells := Function.update ch.cells (channelSlot ch ch.tail) (.i32 x)
    tail := ch.tail + 1
    count := ch.count + 1 }

def received (ch : JelloChannel) : JelloChannel :=
  { ch with
    cells := Function.update ch.cells (channelSlot ch ch.head) .null
    head := ch.head + 1
    count := ch.count - 1 }

variable {σ : ChannelSystem} {ch : JelloChannel} {x : UInt32} {i : ℕ}

theorem step_sent (ctx : Ctx) (hopen : σ.ch.closed = false) (hroom : σ.ch.count < σ.ch.cap) :
    ChannelStep σ (.send i (jelloMakeI32 x))
      { σ with
        ch := sent σ.ch x
        accepted := σ.accepted ++ [((σ.threads i).heap, jelloMakeI32 x)] } := by
  have htag : jelloIsI32 (jelloMakeI32 x) = true := hasTag_tagged .i32 x
  have hval : jelloAsI32 (jelloMakeI32 x) = x := payload_tagged .i32 x
  have hother : jelloIsNull (jelloMakeI32 x) = false ∧ jelloIsBool (jelloMakeI32 x) = false := by
    simp only [jelloIsI32, jelloIsNull, jelloIsBool, hasTag] at htag ⊢
    simp_all [JelloTag.code]
  have hr : result (jelloChannelSend ctx σ.ch (jelloMakeI32 x)) (σ.threads i) =
      .ok (some (sent σ.ch x, true), σ.threads i) := by
    simp [jelloChannelSend, jelloValueIsCopySafe, channelCellFromValue, htag, hval, hother,
      channelSendLocked, hopen, sent, hroom]
  have hstep := ChannelStep.accept (σ := σ) hr
  rwa [Function.update_eq_self] at hstep

theorem step_received (hcount : σ.ch.count ≠ 0)
    (hcell : σ.ch.cells (channelSlot σ.ch σ.ch.head) = .i32 x) (block : Bool) :
    ChannelStep σ (.recv i block)
      { σ with
        ch := received σ.ch
        taken := σ.taken ++ [((σ.threads i).heap, jelloMakeI32 x)] } := by
  have hr : result (jelloChannelRecv σ.ch block) (σ.threads i) =
      .ok (some (received σ.ch, jelloMakeI32 x), σ.threads i) := by
    rw [result_jelloChannelRecv hcount, hcell]
    rfl
  have hstep := ChannelStep.take (σ := σ) hcount hr
  rwa [Function.update_eq_self] at hstep

theorem run_passed {C : JelloChannel → Prop} {capacity : UInt32} (ctx : Ctx)
    (hC : ∀ ch, ch.count = 0 → ch.cap = (jelloChannelNew capacity).cap → C ch) (n : ℕ) :
    ChannelRun C (.start capacity idleThreads) (passed capacity n) := by
  have hcap : 0 < (jelloChannelNew capacity).cap := by
    simp only [jelloChannelNew]
    split_ifs with h
    · decide
    · exact UInt32.pos_iff_ne_zero.mpr h
  induction n with
  | zero => exact .start
  | succ n ih =>
    have hsent := step_sent (σ := passed capacity n) (x := 0) (i := 0) ctx rfl hcap
    have hrecv := step_received (x := 0) (i := 0) (σ := { passed capacity n with
      ch := sent (passed capacity n).ch 0
      accepted := (passed capacity n).accepted ++ [(jelloVmCreate.store.heap, jelloMakeI32 0)] })
      (by simp [sent, passed, jelloChannelNew]) (by simp [sent, passed, channelSlot]) true
    have hend := (ih.step hsent fun i msg _ ↦ hC _ rfl rfl).step hrecv fun i msg h ↦
      absurd h (by simp)
    have hcells : Function.update (Function.update (jelloChannelNew capacity).cells
        (channelSlot (passed capacity n).ch (UInt32.ofNat n)) (.i32 0))
        (channelSlot (passed capacity n).ch (UInt32.ofNat n)) .null =
          (jelloChannelNew capacity).cells := by
      rw [Function.update_idem]
      exact Function.update_eq_self _ _
    have hnext : UInt32.ofNat (n + 1) = UInt32.ofNat n + 1 := by simp
    convert hend using 1
    simp only [passed, received, sent, List.replicate_succ', hnext]
    congr 2
    · exact (UInt32.add_sub_cancel _ _).symm
    · exact hcells.symm

theorem getElem_replicate_append {α : Type} {a b : α} (rest : List α) (n : ℕ)
    (h : n < (List.replicate n a ++ [b] ++ rest).length) :
    (List.replicate n a ++ [b] ++ rest)[n] = b := by
  simp

theorem eq_of_denotes_i32 {h : Heap} {x : UInt32} {c : JelloChannelCell}
    (hc : Denotes h (jelloMakeI32 x) c) : c = .i32 x := by
  have htag : jelloMakeI32 x &&& 7 = 1 := by
    have h := hasTag_tagged .i32 x
    rwa [hasTag, beq_iff_eq] at h
  have hval : jelloAsI32 (jelloMakeI32 x) = x := payload_tagged .i32 x
  cases c
  case i32 y => rw [← hc.2, hval]
  all_goals
    simp [Denotes, jelloIsNull, jelloIsBool, jelloIsAtom, jelloIsPtr, hasTag, htag,
      JelloTag.code] at hc

def pushed (σ : ChannelSystem) (x : UInt32) : ChannelSystem :=
  { σ with
    ch := sent σ.ch x
    accepted := σ.accepted ++ [(jelloVmCreate.store.heap, jelloMakeI32 x)] }

def popped (σ : ChannelSystem) (x : UInt32) : ChannelSystem :=
  { σ with
    ch := received σ.ch
    taken := σ.taken ++ [(jelloVmCreate.store.heap, jelloMakeI32 x)] }

/-- Two values are sent to an empty channel of three cells, and what is then at the head is taken. -/
theorem run_two {C : JelloChannel → Prop} {n : ℕ} {x y z : UInt32}
    (hempty : ∀ ch, ch.count = 0 → ch.cap = 3 → C ch) (hone : C (sent (passed 3 n).ch x))
    (hcell : (sent (sent (passed 3 n).ch x) y).cells
      (channelSlot (passed 3 n).ch (UInt32.ofNat n)) = .i32 z) :
    ChannelRun C (.start 3 idleThreads) (popped (pushed (pushed (passed 3 n) x) y) z) := by
  let ctx : Ctx := { m := default, fpu := default, f := 0, rf := default, pc := 0 }
  have h₀ : ChannelRun C (.start 3 idleThreads) (passed 3 n) :=
    run_passed ctx (fun ch hcount hcap ↦ hempty ch hcount (hcap.trans rfl)) n
  have h₁ : ChannelStep (passed 3 n) (.send 0 (jelloMakeI32 x)) (pushed (passed 3 n) x) :=
    step_sent ctx rfl (show (0 : UInt32) < 3 by decide)
  have h₂ : ChannelStep (pushed (passed 3 n) x) (.send 0 (jelloMakeI32 y))
      (pushed (pushed (passed 3 n) x) y) :=
    step_sent ctx rfl (show (0 : UInt32) + 1 < 3 by decide)
  have h₃ : ChannelStep (pushed (pushed (passed 3 n) x) y) (.recv 0 true)
      (popped (pushed (pushed (passed 3 n) x) y) z) :=
    step_received (show (0 : UInt32) + 1 + 1 ≠ 0 by decide) hcell true
  exact ((h₀.step h₁ fun _ _ _ ↦ hempty _ rfl rfl).step h₂ fun _ _ _ ↦ hone).step h₃
    fun _ _ h ↦ absurd h (by simp)

/-- Where the counters pass over a slot, the second of two values takes the place of the first. -/
theorem loses_value (n : ℕ)
    (hn : ∀ ch : JelloChannel, ch.cap = 3 →
      channelSlot ch (UInt32.ofNat n) = channelSlot ch (UInt32.ofNat n + 1)) :
    ∃ σ, ChannelRun (fun _ ↦ True) (.start 3 idleThreads) σ ∧ ¬ Fifo σ := by
  have hcell : (sent (sent (passed 3 n).ch 1) 2).cells
      (channelSlot (passed 3 n).ch (UInt32.ofNat n)) = .i32 2 := by
    rw [hn (passed 3 n).ch rfl]
    exact Function.update_self _ _ _
  let σ := popped (pushed (pushed (passed 3 n) 1) 2) 2
  refine ⟨σ, run_two (fun _ _ _ ↦ trivial) trivial hcell, fun hf ↦ ?_⟩
  have ha : n < σ.accepted.length := by simp [σ, popped, pushed, passed]
  have ht : n < σ.taken.length := by simp [σ, popped, pushed, passed]
  have hfirst : σ.accepted[n] = (jelloVmCreate.store.heap, jelloMakeI32 1) :=
    getElem_replicate_append [_] n ha
  have hout : σ.taken[n] = (jelloVmCreate.store.heap, jelloMakeI32 2) := by
    simp [σ, popped, pushed, passed]
  have hsame := hf.same n ht ha
  rw [hfirst, hout] at hsame
  obtain ⟨c, h1, h2⟩ := hsame
  have hne := (eq_of_denotes_i32 h1).symm.trans (eq_of_denotes_i32 h2)
  exact absurd hne (by decide)

/-- The counters wrap after `2 ^ 32` values, which is no multiple of three. -/
theorem wrap_loses_value :
    ∃ σ, ChannelRun (fun _ ↦ True) (.start 3 idleThreads) σ ∧ ¬ Fifo σ := by
  refine loses_value (2 ^ 32 - 1) fun ch hcap ↦ ?_
  simp only [channelSlot, hcap]
  decide

/-- After five values the next two lie in a channel of three cells, the second one before the
first, and the first one comes out. -/
theorem two_values_fifo : Fifo (popped (pushed (pushed (passed 3 5) 1) 2) 1) := by
  have hp (i : ℕ) : PtrNext (idleThreads i) := show jelloIsPtr 16 = true by decide
  refine (channel_fifo 3 hp (run_two (fun ch hcount hcap ↦ ?_) ?_ rfl)).1
  · intro _
    rw [hcap, hcount]
    decide
  · unfold SendClear Clear
    decide

end Wrap

end JelloVM
