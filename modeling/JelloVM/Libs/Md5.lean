import JelloVM.Library.Blocks
import JelloVM.Library.LittleEndian
import JelloVM.Libs.CBytes

namespace JelloVM

open Blocks LittleEndian

section Source

structure Md5State where
  a : UInt32
  b : UInt32
  c : UInt32
  d : UInt32
deriving DecidableEq

structure Md5Context where
  total0 : UInt32
  total1 : UInt32
  state : Md5State
  buffer : ℕ → UInt8

/-- `GET_UINT32(n, b, i)` -/
def getUint32 (b : ℕ → UInt8) (i : ℕ) : UInt32 :=
  (b i).toUInt32 ||| (b (i + 1)).toUInt32 <<< 8 ||| (b (i + 2)).toUInt32 <<< 16 |||
    (b (i + 3)).toUInt32 <<< 24

/-- `PUT_UINT32(n, b, i)` -/
def putUint32 (n : UInt32) : List UInt8 :=
  [n.toUInt8, (n >>> 8).toUInt8, (n >>> 16).toUInt8, (n >>> 24).toUInt8]

def md5Init : Md5State := ⟨0x67452301, 0xEFCDAB89, 0x98BADCFE, 0x10325476⟩

/-- The buffer is not set. -/
def md5Starts (buffer : ℕ → UInt8) : Md5Context := ⟨0, 0, md5Init, buffer⟩

def md5F (x y z : UInt32) : UInt32 := z ^^^ (x &&& (y ^^^ z))

def md5G (x y z : UInt32) : UInt32 := y ^^^ (z &&& (x ^^^ y))

def md5H (x y z : UInt32) : UInt32 := x ^^^ y ^^^ z

def md5I (x y z : UInt32) : UInt32 := y ^^^ (x ||| ~~~z)

/-- `S(x, n)` -/
def md5Shift (x n : UInt32) : UInt32 := x <<< n ||| (x &&& 0xFFFFFFFF) >>> (32 - n)

/-- `P(a, b, c, d, k, s, t)` with the round function of its section -/
def md5Step (f : UInt32 → UInt32 → UInt32 → UInt32) (X : ℕ → UInt32) (a b c d : UInt32) (k : ℕ)
    (s t : UInt32) : UInt32 :=
  md5Shift (a + (f b c d + X k + t)) s + b

@[irreducible] def md5Process (ctx : Md5State) (data : List UInt8) : Md5State :=
  let X := fun i ↦ getUint32 (fun j ↦ data.getD j 0) (i * 4)
  let A := ctx.a
  let B := ctx.b
  let C := ctx.c
  let D := ctx.d
  let A := md5Step md5F X A B C D 0 7 0xD76AA478
  let D := md5Step md5F X D A B C 1 12 0xE8C7B756
  let C := md5Step md5F X C D A B 2 17 0x242070DB
  let B := md5Step md5F X B C D A 3 22 0xC1BDCEEE
  let A := md5Step md5F X A B C D 4 7 0xF57C0FAF
  let D := md5Step md5F X D A B C 5 12 0x4787C62A
  let C := md5Step md5F X C D A B 6 17 0xA8304613
  let B := md5Step md5F X B C D A 7 22 0xFD469501
  let A := md5Step md5F X A B C D 8 7 0x698098D8
  let D := md5Step md5F X D A B C 9 12 0x8B44F7AF
  let C := md5Step md5F X C D A B 10 17 0xFFFF5BB1
  let B := md5Step md5F X B C D A 11 22 0x895CD7BE
  let A := md5Step md5F X A B C D 12 7 0x6B901122
  let D := md5Step md5F X D A B C 13 12 0xFD987193
  let C := md5Step md5F X C D A B 14 17 0xA679438E
  let B := md5Step md5F X B C D A 15 22 0x49B40821
  let A := md5Step md5G X A B C D 1 5 0xF61E2562
  let D := md5Step md5G X D A B C 6 9 0xC040B340
  let C := md5Step md5G X C D A B 11 14 0x265E5A51
  let B := md5Step md5G X B C D A 0 20 0xE9B6C7AA
  let A := md5Step md5G X A B C D 5 5 0xD62F105D
  let D := md5Step md5G X D A B C 10 9 0x02441453
  let C := md5Step md5G X C D A B 15 14 0xD8A1E681
  let B := md5Step md5G X B C D A 4 20 0xE7D3FBC8
  let A := md5Step md5G X A B C D 9 5 0x21E1CDE6
  let D := md5Step md5G X D A B C 14 9 0xC33707D6
  let C := md5Step md5G X C D A B 3 14 0xF4D50D87
  let B := md5Step md5G X B C D A 8 20 0x455A14ED
  let A := md5Step md5G X A B C D 13 5 0xA9E3E905
  let D := md5Step md5G X D A B C 2 9 0xFCEFA3F8
  let C := md5Step md5G X C D A B 7 14 0x676F02D9
  let B := md5Step md5G X B C D A 12 20 0x8D2A4C8A
  let A := md5Step md5H X A B C D 5 4 0xFFFA3942
  let D := md5Step md5H X D A B C 8 11 0x8771F681
  let C := md5Step md5H X C D A B 11 16 0x6D9D6122
  let B := md5Step md5H X B C D A 14 23 0xFDE5380C
  let A := md5Step md5H X A B C D 1 4 0xA4BEEA44
  let D := md5Step md5H X D A B C 4 11 0x4BDECFA9
  let C := md5Step md5H X C D A B 7 16 0xF6BB4B60
  let B := md5Step md5H X B C D A 10 23 0xBEBFBC70
  let A := md5Step md5H X A B C D 13 4 0x289B7EC6
  let D := md5Step md5H X D A B C 0 11 0xEAA127FA
  let C := md5Step md5H X C D A B 3 16 0xD4EF3085
  let B := md5Step md5H X B C D A 6 23 0x04881D05
  let A := md5Step md5H X A B C D 9 4 0xD9D4D039
  let D := md5Step md5H X D A B C 12 11 0xE6DB99E5
  let C := md5Step md5H X C D A B 15 16 0x1FA27CF8
  let B := md5Step md5H X B C D A 2 23 0xC4AC5665
  let A := md5Step md5I X A B C D 0 6 0xF4292244
  let D := md5Step md5I X D A B C 7 10 0x432AFF97
  let C := md5Step md5I X C D A B 14 15 0xAB9423A7
  let B := md5Step md5I X B C D A 5 21 0xFC93A039
  let A := md5Step md5I X A B C D 12 6 0x655B59C3
  let D := md5Step md5I X D A B C 3 10 0x8F0CCC92
  let C := md5Step md5I X C D A B 10 15 0xFFEFF47D
  let B := md5Step md5I X B C D A 1 21 0x85845DD1
  let A := md5Step md5I X A B C D 8 6 0x6FA87E4F
  let D := md5Step md5I X D A B C 15 10 0xFE2CE6E0
  let C := md5Step md5I X C D A B 6 15 0xA3014314
  let B := md5Step md5I X B C D A 13 21 0x4E0811A1
  let A := md5Step md5I X A B C D 4 6 0xF7537E82
  let D := md5Step md5I X D A B C 11 10 0xBD3AF235
  let C := md5Step md5I X C D A B 2 15 0x2AD7D2BB
  let B := md5Step md5I X B C D A 9 21 0xEB86D391
  ⟨ctx.a + A, ctx.b + B, ctx.c + C, ctx.d + D⟩

def Md5Context.withState (ctx : Md5Context) (state : Md5State) : Md5Context :=
  { ctx with state := state }

def Md5Context.process (ctx : Md5Context) (data : List UInt8) : Md5Context :=
  ctx.withState (md5Process ctx.state data)

/-- `memcpy(ctx->buffer + left, input, n)` -/
def Md5Context.copied (ctx : Md5Context) (left : UInt32) (input : CBytes) (n : UInt32) :
    Md5Context :=
  { ctx with buffer := place ctx.buffer left.toNat (input.window 0 n.toNat) }

/-- `ctx->total[0] += length; if(ctx->total[0] < length) ctx->total[1]++` -/
def Md5Context.counted (ctx : Md5Context) (length : UInt32) : Md5Context :=
  { ctx with
    total0 := ctx.total0 + length
    total1 := if ctx.total0 + length < length then ctx.total1 + 1 else ctx.total1 }

/-- `while(length >= 64u)`. Each round takes bytes away, so there are no more rounds than bytes. -/
def md5Blocks : ℕ → Md5Context → CBytes → Md5Context × CBytes
  | 0, ctx, input => (ctx, input)
  | rounds + 1, ctx, input =>
    if 64 ≤ input.len then md5Blocks rounds (ctx.process (input.window 0 64)) (input.skip 64)
    else (ctx, input)

/-- `md5_update` from the loop on -/
def md5Absorb (ctx : Md5Context) (left : UInt32) (input : CBytes) : Md5Context :=
  let r := md5Blocks input.len.toNat ctx input
  if r.2.len ≠ 0 then r.1.copied left r.2 r.2.len else r.1

def md5Update (ctx : Md5Context) (input : CBytes) : Md5Context :=
  if input.len = 0 then ctx
  else
    let left := ctx.total0 &&& 0x3F
    let fill := 64 - left
    let ctx := ctx.counted input.len
    if left ≠ 0 ∧ fill ≤ input.len then
      let ctx := ctx.copied left input fill
      md5Absorb (ctx.process ((List.range 64).map ctx.buffer)) 0 (input.skip fill)
    else md5Absorb ctx left input

def md5Padding : ℕ → UInt8 := fun i ↦ if i = 0 then 0x80 else 0

def md5Padn (total0 : UInt32) : UInt32 :=
  if total0 &&& 0x3F < 56 then 56 - (total0 &&& 0x3F) else 120 - (total0 &&& 0x3F)

def md5Msglen (ctx : Md5Context) : List UInt8 :=
  putUint32 (ctx.total0 <<< 3) ++ putUint32 (ctx.total0 >>> 29 ||| ctx.total1 <<< 3)

def md5Digest (s : Md5State) : List UInt8 :=
  putUint32 s.a ++ putUint32 s.b ++ putUint32 s.c ++ putUint32 s.d

def md5Finish (ctx : Md5Context) : Md5Context × List UInt8 :=
  let msglen := md5Msglen ctx
  let ctx := md5Update ctx ⟨md5Padding, md5Padn ctx.total0⟩
  let ctx := md5Update ctx (CBytes.ofList msglen)
  (ctx, md5Digest ctx.state)

def jdllStdMd5 (buffer : ℕ → UInt8) (data : CBytes) : List UInt8 :=
  (md5Finish (if data.len ≠ 0 then md5Update (md5Starts buffer) data else md5Starts buffer)).2

end Source

section Streaming

variable {ctx : Md5Context} {message : List UInt8} {input : CBytes} {left : UInt32}

def Md5Context.tail (ctx : Md5Context) (n : ℕ) : List UInt8 := (List.range n).map ctx.buffer

theorem Md5Context.length_tail (ctx : Md5Context) (n : ℕ) : (ctx.tail n).length = n := by
  rw [tail, List.length_map, List.length_range]

theorem withState_total0 (ctx : Md5Context) (state : Md5State) :
    (ctx.withState state).total0 = ctx.total0 := rfl

theorem withState_total1 (ctx : Md5Context) (state : Md5State) :
    (ctx.withState state).total1 = ctx.total1 := rfl

/-- The context stands for the message so far, its last bytes in the buffer. -/
structure Streaming (ctx : Md5Context) (message : List UInt8) : Prop where
  total : ctx.total0.toNat + 2 ^ 32 * ctx.total1.toNat = message.length
  absorbed : Absorbed 64 md5Process md5Init message ctx.state (ctx.tail (message.length % 64))

theorem streaming_starts (buffer : ℕ → UInt8) : Streaming (md5Starts buffer) [] :=
  ⟨rfl, .empty (by decide)⟩

theorem Streaming.toNat_left (h : Streaming ctx message) :
    (ctx.total0 &&& 0x3F).toNat = message.length % 64 := by
  have hand : (ctx.total0 &&& 0x3F).toNat = ctx.total0.toNat % 64 := by
    rw [UInt32.toNat_and]
    exact Nat.and_two_pow_sub_one_eq_mod _ 6
  have htotal := h.total
  omega

theorem total_counted {length : UInt32}
    (h : ctx.total0.toNat + 2 ^ 32 * ctx.total1.toNat + length.toNat < 2 ^ 64) :
    (ctx.counted length).total0.toNat + 2 ^ 32 * (ctx.counted length).total1.toNat =
      ctx.total0.toNat + 2 ^ 32 * ctx.total1.toNat + length.toNat := by
  have hlow := ctx.total0.toNat_lt
  have hlength := length.toNat_lt
  have hsum : (ctx.total0 + length).toNat = (ctx.total0.toNat + length.toNat) % 2 ^ 32 :=
    UInt32.toNat_add _ _
  dsimp only [Md5Context.counted]
  split_ifs with hcarry
  · rw [UInt32.lt_iff_toNat_lt, hsum] at hcarry
    have hnext : (ctx.total1 + 1).toNat = (ctx.total1.toNat + 1) % 2 ^ 32 := UInt32.toNat_add _ _
    rw [hsum, hnext]
    omega
  · rw [UInt32.lt_iff_toNat_lt, hsum] at hcarry
    rw [hsum]
    omega

theorem absorbed_copied (h : Absorbed 64 md5Process md5Init message ctx.state (ctx.tail left.toNat))
    (hlt : left.toNat + input.len.toNat < 64) :
    Absorbed 64 md5Process md5Init (message ++ input.bytes)
      (ctx.copied left input input.len).state
      ((ctx.copied left input input.len).tail (left.toNat + input.len.toNat)) := by
  have htail : (ctx.copied left input input.len).tail (left.toNat + input.len.toNat) =
      ctx.tail left.toNat ++ input.bytes := by
    rw [← input.length_bytes, input.bytes_eq_window]
    exact map_range_place _ _ _
  rw [htail]
  apply h.keep _
  rw [List.length_append, ctx.length_tail, input.length_bytes]
  exact hlt

theorem md5Blocks_of_lt {rounds : ℕ} (h : input.len.toNat < 64) :
    md5Blocks rounds ctx input = (ctx, input) := by
  cases rounds with
  | zero => rfl
  | succ rounds =>
    have hlen : ¬ (64 : UInt32) ≤ input.len := by
      rw [UInt32.not_le, UInt32.lt_iff_toNat_lt]
      exact h
    rw [md5Blocks, if_neg hlen]

theorem md5Blocks_spec {rounds : ℕ} (hrounds : input.len.toNat ≤ rounds)
    (h : Absorbed 64 md5Process md5Init message ctx.state []) :
    ∃ pre, input.bytes = pre ++ (md5Blocks rounds ctx input).2.bytes ∧
      (md5Blocks rounds ctx input).2.len.toNat < 64 ∧
      Absorbed 64 md5Process md5Init (message ++ pre) (md5Blocks rounds ctx input).1.state [] ∧
      (md5Blocks rounds ctx input).1.total0 = ctx.total0 ∧
      (md5Blocks rounds ctx input).1.total1 = ctx.total1 := by
  induction rounds generalizing ctx input message with
  | zero =>
    refine ⟨[], rfl, ?_, ?_, rfl, rfl⟩
    · exact Nat.lt_of_le_of_lt hrounds (by decide)
    · rw [List.append_nil]
      exact h
  | succ rounds ih =>
    rw [md5Blocks]
    by_cases hfull : (64 : UInt32) ≤ input.len
    · rw [if_pos hfull]
      have hle : 64 ≤ input.len.toNat := UInt32.le_iff_toNat_le.mp hfull
      have hskip : (input.skip 64).len.toNat = input.len.toNat - 64 :=
        UInt32.toNat_sub_of_le _ _ hfull
      have hblock : Absorbed 64 md5Process md5Init (message ++ input.window 0 64)
          (ctx.process (input.window 0 64)).state [] :=
        h.block (input.window 0 64) (by decide) (by rw [List.nil_append, input.length_window])
      have hless : (input.skip 64).len.toNat ≤ rounds := by omega
      obtain ⟨pre, hpre, hlast, habs, htotal0, htotal1⟩ := ih hless hblock
      rw [Md5Context.process, withState_total0] at htotal0
      rw [Md5Context.process, withState_total1] at htotal1
      refine ⟨input.window 0 64 ++ pre, ?_, hlast, ?_, htotal0, htotal1⟩
      · rw [List.append_assoc, ← hpre]
        exact input.split_bytes hfull
      · rw [← List.append_assoc]
        exact habs
    · rw [if_neg hfull]
      refine ⟨[], rfl, ?_, ?_, rfl, rfl⟩
      · rw [UInt32.not_le, UInt32.lt_iff_toNat_lt] at hfull
        exact hfull
      · rw [List.append_nil]
        exact h

theorem bytes_of_len_zero (h : input.len = 0) : input.bytes = [] := by
  rw [CBytes.bytes, h]
  rfl

theorem md5Absorb_spec (h : Absorbed 64 md5Process md5Init message ctx.state (ctx.tail left.toNat))
    (hleft : left = 0 ∨ left.toNat + input.len.toNat < 64) :
    (∃ n, Absorbed 64 md5Process md5Init (message ++ input.bytes) (md5Absorb ctx left input).state
      ((md5Absorb ctx left input).tail n)) ∧
      (md5Absorb ctx left input).total0 = ctx.total0 ∧
      (md5Absorb ctx left input).total1 = ctx.total1 := by
  have hloop : ∃ pre, input.bytes = pre ++ (md5Blocks input.len.toNat ctx input).2.bytes ∧
      left.toNat + (md5Blocks input.len.toNat ctx input).2.len.toNat < 64 ∧
      Absorbed 64 md5Process md5Init (message ++ pre)
        (md5Blocks input.len.toNat ctx input).1.state
        ((md5Blocks input.len.toNat ctx input).1.tail left.toNat) ∧
      (md5Blocks input.len.toNat ctx input).1.total0 = ctx.total0 ∧
      (md5Blocks input.len.toNat ctx input).1.total1 = ctx.total1 := by
    rcases hleft with rfl | hlt
    · obtain ⟨pre, hpre, hlast, habs, htotal⟩ := md5Blocks_spec (le_refl input.len.toNat) h
      refine ⟨pre, hpre, ?_, habs, htotal⟩
      rw [UInt32.toNat_zero, Nat.zero_add]
      exact hlast
    · rw [md5Blocks_of_lt (by omega)]
      refine ⟨[], rfl, hlt, ?_, rfl, rfl⟩
      rw [List.append_nil]
      exact h
  obtain ⟨pre, hpre, hlt, habs, htotal0, htotal1⟩ := hloop
  rw [hpre, ← List.append_assoc]
  by_cases hnone : (md5Blocks input.len.toNat ctx input).2.len = 0
  · have hres : md5Absorb ctx left input = (md5Blocks input.len.toNat ctx input).1 :=
      if_neg (not_not.mpr hnone)
    rw [hres, bytes_of_len_zero hnone, List.append_nil]
    exact ⟨⟨_, habs⟩, htotal0, htotal1⟩
  · have hres : md5Absorb ctx left input = (md5Blocks input.len.toNat ctx input).1.copied left
        (md5Blocks input.len.toNat ctx input).2 (md5Blocks input.len.toNat ctx input).2.len :=
      if_pos hnone
    rw [hres]
    exact ⟨⟨_, absorbed_copied habs hlt⟩, htotal0, htotal1⟩

theorem absorbed_filled (input : CBytes) {fill : UInt32} (hfill : left.toNat + fill.toNat = 64)
    (h : Absorbed 64 md5Process md5Init message ctx.state (ctx.tail left.toNat)) :
    Absorbed 64 md5Process md5Init (message ++ input.window 0 fill.toNat)
      ((ctx.copied left input fill).process
        ((List.range 64).map (ctx.copied left input fill).buffer)).state [] := by
  have hblock : (List.range 64).map (ctx.copied left input fill).buffer =
      ctx.tail left.toNat ++ input.window 0 fill.toNat := by
    rw [← hfill, ← input.length_window 0 fill.toNat]
    refine (map_range_place _ _ _).trans ?_
    rw [input.length_window]
    rfl
  rw [hblock]
  apply h.block _ (by decide)
  rw [List.length_append, ctx.length_tail, input.length_window]
  exact hfill

theorem Streaming.of_absorbed {n : ℕ}
    (htotal : ctx.total0.toNat + 2 ^ 32 * ctx.total1.toNat = message.length)
    (h : Absorbed 64 md5Process md5Init message ctx.state (ctx.tail n)) :
    Streaming ctx message := by
  refine ⟨htotal, ?_⟩
  have hn := h.length_tail
  rw [ctx.length_tail] at hn
  rw [← hn]
  exact h

theorem md5Update_spec (h : Streaming ctx message)
    (hsize : message.length + input.len.toNat < 2 ^ 64) :
    Streaming (md5Update ctx input) (message ++ input.bytes) := by
  rw [md5Update]
  by_cases hzero : input.len = 0
  · rw [if_pos hzero, bytes_of_len_zero hzero, List.append_nil]
    exact h
  rw [if_neg hzero]
  have hleft := h.toNat_left
  have hcounted := @total_counted ctx input.len (by rw [h.total]; exact hsize)
  have htotal : (ctx.counted input.len).total0.toNat +
      2 ^ 32 * (ctx.counted input.len).total1.toNat = (message ++ input.bytes).length := by
    rw [hcounted, h.total, List.length_append, input.length_bytes]
  have habs : Absorbed 64 md5Process md5Init message (ctx.counted input.len).state
      ((ctx.counted input.len).tail (ctx.total0 &&& 0x3F).toNat) := by
    rw [hleft]
    exact h.absorbed
  have hle : ctx.total0 &&& 0x3F ≤ 64 := by
    rw [UInt32.le_iff_toNat_le, hleft]
    exact (Nat.mod_lt _ (by decide)).le
  have hfill : (64 - (ctx.total0 &&& 0x3F)).toNat = 64 - message.length % 64 := by
    rw [UInt32.toNat_sub_of_le _ _ hle, hleft]
    rfl
  by_cases hfull : ctx.total0 &&& 0x3F ≠ 0 ∧ 64 - (ctx.total0 &&& 0x3F) ≤ input.len
  · dsimp only
    rw [if_pos hfull, input.split_bytes hfull.2, ← List.append_assoc]
    have hsum : (ctx.total0 &&& 0x3F).toNat + (64 - (ctx.total0 &&& 0x3F)).toNat = 64 := by
      rw [hfill, hleft]
      omega
    have hfilled := absorbed_filled input hsum habs
    obtain ⟨⟨n, hend⟩, htotal0, htotal1⟩ :=
      @md5Absorb_spec _ _ (input.skip (64 - (ctx.total0 &&& 0x3F))) 0 hfilled (.inl rfl)
    refine Streaming.of_absorbed ?_ hend
    rw [htotal0, htotal1, List.append_assoc, ← input.split_bytes hfull.2]
    exact htotal
  · dsimp only
    rw [if_neg hfull]
    have hpart : ctx.total0 &&& 0x3F = 0 ∨
        (ctx.total0 &&& 0x3F).toNat + input.len.toNat < 64 := by
      rw [not_and_or, not_not, UInt32.not_le, UInt32.lt_iff_toNat_lt, hfill] at hfull
      rw [hleft]
      exact hfull.imp_right fun hlt ↦ by omega
    obtain ⟨⟨n, hend⟩, htotal0, htotal1⟩ := md5Absorb_spec habs hpart
    refine Streaming.of_absorbed ?_ hend
    rw [htotal0, htotal1]
    exact htotal

end Streaming

section Digest

/-- The number of zeros between the byte 0x80 and the bit length -/
def zeros (n : ℕ) : ℕ := (119 - n % 64) % 64

def md5Padded (message : List UInt8) : List UInt8 :=
  message ++ 0x80 :: (List.replicate (zeros message.length) 0 ++ bytesLE 8 (8 * message.length))

/-- The message of the calls -/
def fed (calls : List CBytes) : List UInt8 := calls.flatMap CBytes.bytes

variable {ctx : Md5Context} {message : List UInt8}

theorem zeros_least (n : ℕ) : IsLeast {z | 64 ∣ n + 1 + z + 8} (zeros n) := by
  constructor
  · rw [Set.mem_ofPred_eq, zeros]
    omega
  · intro z hz
    rw [Set.mem_ofPred_eq] at hz
    rw [zeros]
    omega

theorem streaming_updates (calls : List CBytes) (h : Streaming ctx message)
    (hsize : message.length + (fed calls).length < 2 ^ 64) :
    Streaming (calls.foldl md5Update ctx) (message ++ fed calls) := by
  induction calls generalizing ctx message with
  | nil =>
    rw [fed, List.flatMap_nil, List.append_nil, List.foldl_nil]
    exact h
  | cons input calls ih =>
    rw [fed, List.flatMap_cons, List.length_append, input.length_bytes] at hsize
    rw [fed, List.flatMap_cons, ← List.append_assoc, List.foldl_cons]
    apply ih (md5Update_spec h (by omega))
    rw [List.length_append, input.length_bytes, Nat.add_assoc]
    exact hsize

theorem toNat_padn (h : Streaming ctx message) :
    (md5Padn ctx.total0).toNat = zeros message.length + 1 := by
  have hleft := h.toNat_left
  have hlt : message.length % 64 < 64 := Nat.mod_lt _ (by decide)
  have h56 : (56 : UInt32).toNat = 56 := rfl
  have h120 : (120 : UInt32).toNat = 120 := rfl
  rw [md5Padn, zeros]
  by_cases hshort : ctx.total0 &&& 0x3F < 56
  · rw [if_pos hshort, UInt32.toNat_sub_of_le _ _ (UInt32.le_of_lt hshort), hleft, h56]
    rw [UInt32.lt_iff_toNat_lt, hleft, h56] at hshort
    omega
  · have hle : ctx.total0 &&& 0x3F ≤ 120 := by
      rw [UInt32.le_iff_toNat_le, hleft, h120]
      omega
    rw [if_neg hshort, UInt32.toNat_sub_of_le _ _ hle, hleft, h120]
    rw [UInt32.lt_iff_toNat_lt, hleft, h56] at hshort
    omega

theorem bytes_padding (h : Streaming ctx message) :
    (CBytes.mk md5Padding (md5Padn ctx.total0)).bytes =
      0x80 :: List.replicate (zeros message.length) 0 := by
  rw [CBytes.bytes, toNat_padn h, List.range_succ_eq_map, List.map_cons, List.map_map]
  have hzero : md5Padding ∘ Nat.succ = fun _ ↦ 0 := by
    funext i
    rw [Function.comp_apply, md5Padding, if_neg (Nat.succ_ne_zero i)]
  rw [hzero, List.map_const', List.length_range]
  rfl

theorem putUint32_eq (n : UInt32) : putUint32 n = bytesLE 4 n.toNat := by
  have hbyte (k : UInt32) (i : ℕ) (hk : k.toNat = 8 * i) (hi : i < 4) :
      (n >>> k).toUInt8 = UInt8.ofNat (n.toNat / 256 ^ i) := by
    rw [← UInt8.toNat_inj, UInt32.toNat_toUInt8, UInt32.toNat_shiftRight, hk,
      Nat.mod_eq_of_lt (show 8 * i < 32 by omega), Nat.shiftRight_eq_div_pow, two_pow_bits,
      UInt8.toNat_ofNat']
  have hlow : n.toUInt8 = UInt8.ofNat (n.toNat / 256 ^ 0) := by
    rw [← UInt8.toNat_inj, UInt32.toNat_toUInt8, UInt8.toNat_ofNat', pow_zero, Nat.div_one]
  rw [bytesLE_eq_map, putUint32, hlow, hbyte 8 1 rfl (by decide), hbyte 16 2 rfl (by decide),
    hbyte 24 3 rfl (by decide)]
  rfl

/-- The two words of `msglen` are the length in bits. -/
theorem md5Msglen_eq (h : Streaming ctx message) (hsize : message.length < 2 ^ 61) :
    md5Msglen ctx = bytesLE 8 (8 * message.length) := by
  have htotal := h.total
  have hlow : (ctx.total0 <<< 3).toNat = 8 * message.length % 256 ^ 4 := by
    have h3 : (3 : UInt32).toNat % 32 = 3 := rfl
    rw [UInt32.toNat_shiftLeft, h3, Nat.shiftLeft_eq]
    omega
  have hhigh : (ctx.total0 >>> 29 ||| ctx.total1 <<< 3).toNat = 8 * message.length / 256 ^ 4 := by
    have h3 : (3 : UInt32).toNat % 32 = 3 := rfl
    have h29 : (29 : UInt32).toNat % 32 = 29 := rfl
    have hbits : (ctx.total1.toNat <<< 3) % 2 ^ 32 = ctx.total1.toNat <<< 3 := by
      rw [Nat.shiftLeft_eq]
      omega
    have hless : ctx.total0.toNat >>> 29 < 2 ^ 3 := by
      have hlt := ctx.total0.toNat_lt
      rw [Nat.shiftRight_eq_div_pow]
      omega
    rw [UInt32.toNat_or, UInt32.toNat_shiftRight, UInt32.toNat_shiftLeft, h3, h29, hbits,
      Nat.or_comm, ← Nat.shiftLeft_add_eq_or_of_lt hless, Nat.shiftLeft_eq,
      Nat.shiftRight_eq_div_pow]
    omega
  rw [md5Msglen, putUint32_eq, putUint32_eq, hlow, hhigh, bytesLE_mod]
  exact (bytesLE_add 4 4 _).symm

theorem length_md5Padded (message : List UInt8) : (md5Padded message).length =
    message.length + zeros message.length + 9 := by
  rw [md5Padded, List.length_append, List.length_cons, List.length_append, List.length_replicate,
    length_bytesLE]
  omega

theorem dvd_length_md5Padded (message : List UInt8) : (md5Padded message).length % 64 = 0 := by
  rw [length_md5Padded, zeros]
  omega

/-- `md5_finish` feeds the padding, and then every block has been processed. -/
theorem md5Finish_state (h : Streaming ctx message) (hsize : message.length < 2 ^ 61) :
    (md5Finish ctx).1.state = (blocks 64 (md5Padded message)).foldl md5Process md5Init := by
  have hzeros : zeros message.length < 64 := Nat.mod_lt _ (by decide)
  have hpad := @md5Update_spec _ _ ⟨md5Padding, md5Padn ctx.total0⟩ h (by
    rw [toNat_padn h]
    omega)
  rw [bytes_padding h] at hpad
  have hmsglen : (CBytes.ofList (md5Msglen ctx)).bytes = bytesLE 8 (8 * message.length) := by
    rw [md5Msglen_eq h hsize]
    apply CBytes.bytes_ofList
    rw [length_bytesLE]
    decide
  have hlen := (CBytes.ofList (md5Msglen ctx)).length_bytes
  rw [hmsglen, length_bytesLE] at hlen
  have hend := @md5Update_spec _ _ (CBytes.ofList (md5Msglen ctx)) hpad (by
    rw [List.length_append, List.length_cons, List.length_replicate]
    omega)
  rw [hmsglen, List.append_assoc, List.cons_append] at hend
  have hall : Streaming (md5Finish ctx).1 (md5Padded message) := hend
  have habs := hall.absorbed
  rw [dvd_length_md5Padded] at habs
  exact habs.finish

theorem md5Finish_digest (ctx : Md5Context) :
    (md5Finish ctx).2 = md5Digest (md5Finish ctx).1.state := rfl

/-- Whatever the calls, the state in the end is that of the padded message, and the digest is what
the export makes of the message. -/
theorem md5Finish_streamed (calls : List CBytes) (buffer : ℕ → UInt8)
    (hsize : (fed calls).length < 2 ^ 61) :
    IsLeast {z | 64 ∣ (fed calls).length + 1 + z + 8} (zeros (fed calls).length) ∧
    (md5Finish (calls.foldl md5Update (md5Starts buffer))).1.state =
      (blocks 64 (md5Padded (fed calls))).foldl md5Process md5Init ∧
    (∀ (calls' : List CBytes) (buffer' : ℕ → UInt8), fed calls' = fed calls →
      (md5Finish (calls'.foldl md5Update (md5Starts buffer'))).2 =
        (md5Finish (calls.foldl md5Update (md5Starts buffer))).2) ∧
    ∀ (data : CBytes) (buffer' : ℕ → UInt8), data.bytes = fed calls →
      jdllStdMd5 buffer' data = (md5Finish (calls.foldl md5Update (md5Starts buffer))).2 := by
  have hstate (calls' : List CBytes) (buffer' : ℕ → UInt8) (hfed : fed calls' = fed calls) :
      (md5Finish (calls'.foldl md5Update (md5Starts buffer'))).1.state =
        (blocks 64 (md5Padded (fed calls))).foldl md5Process md5Init := by
    have hrun := streaming_updates calls' (streaming_starts buffer') (by
      rw [hfed, List.length_nil]
      omega)
    rw [List.nil_append, hfed] at hrun
    exact md5Finish_state hrun hsize
  have hdigest (calls' : List CBytes) (buffer' : ℕ → UInt8) (hfed : fed calls' = fed calls) :
      (md5Finish (calls'.foldl md5Update (md5Starts buffer'))).2 =
        (md5Finish (calls.foldl md5Update (md5Starts buffer))).2 := by
    rw [md5Finish_digest, md5Finish_digest, hstate calls' buffer' hfed, hstate calls buffer rfl]
  refine ⟨zeros_least _, hstate calls buffer rfl, hdigest, fun data buffer' hfed ↦ ?_⟩
  unfold jdllStdMd5
  split_ifs with hlen
  · exact hdigest [data] buffer' ((List.flatMap_singleton ..).trans hfed)
  · exact hdigest [] buffer' ((bytes_of_len_zero (not_not.mp hlen)).symm.trans hfed)

theorem md5Finish_streamed_abc :
    IsLeast {z | 64 ∣ (fed [CBytes.ofList [0x61], CBytes.ofList [0x62, 0x63]]).length + 1 + z + 8}
      (zeros (fed [CBytes.ofList [0x61], CBytes.ofList [0x62, 0x63]]).length) ∧
    (md5Finish ([CBytes.ofList [0x61], CBytes.ofList [0x62, 0x63]].foldl md5Update
        (md5Starts fun _ ↦ 0))).1.state =
      (blocks 64 (md5Padded (fed [CBytes.ofList [0x61], CBytes.ofList [0x62, 0x63]]))).foldl
        md5Process md5Init ∧
    (∀ (calls' : List CBytes) (buffer' : ℕ → UInt8),
      fed calls' = fed [CBytes.ofList [0x61], CBytes.ofList [0x62, 0x63]] →
      (md5Finish (calls'.foldl md5Update (md5Starts buffer'))).2 =
        (md5Finish ([CBytes.ofList [0x61], CBytes.ofList [0x62, 0x63]].foldl md5Update
          (md5Starts fun _ ↦ 0))).2) ∧
    jdllStdMd5 (fun _ ↦ 0) (CBytes.ofList [0x61, 0x62, 0x63]) =
      (md5Finish ([CBytes.ofList [0x61], CBytes.ofList [0x62, 0x63]].foldl md5Update
        (md5Starts fun _ ↦ 0))).2 := by
  obtain ⟨hleast, hstate, hsplit, hexport⟩ :=
    md5Finish_streamed [CBytes.ofList [0x61], CBytes.ofList [0x62, 0x63]] (fun _ ↦ 0) (by decide)
  exact ⟨hleast, hstate, hsplit, hexport _ _ (by decide)⟩

example : jdllStdMd5 (fun _ ↦ 0) (CBytes.ofList []) = [0xD4, 0x1D, 0x8C, 0xD9, 0x8F, 0x00, 0xB2,
    0x04, 0xE9, 0x80, 0x09, 0x98, 0xEC, 0xF8, 0x42, 0x7E] := by decide +kernel

end Digest

end JelloVM
