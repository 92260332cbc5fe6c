import LibWebsocket.Lib.ByteOrder
import LibWebsocket.Lib.Consumer

/-! `ProtobufCodecLite` in the default build on a little-endian host, where `Buffer::appendInt32`
and `Buffer::peekInt32` keep the order of the host. -/
namespace LibWebsocket.Protobuf
open Lib

def kHeaderLen : ℕ := 4

def kChecksumLen : ℕ := 4

def kMaxMessageLen : ℕ := 64 * 1024 * 1024

inductive ErrorCode
  | kInvalidLength | kCheckSumError | kUnknownMessageType | kParseError
deriving DecidableEq, Repr

inductive Call (M : Type*)
  | messageCallback (message : M)
  | errorCallback (errorCode : ErrorCode)
deriving DecidableEq, Repr

/-- A codec with what it takes from outside: the serialisation of its messages, zlib's `adler32`
with start value 1, and the raw callback if there is one. -/
structure ProtobufCodecLite (M : Type*) where
  tag : Bytes
  serializeToBuffer : M → Bytes
  parseFromBuffer : Bytes → Option M
  adler32 : Bytes → UInt32
  rawCb : Option (Bytes → Bool)

namespace Buffer

def hostToNetwork32 (host32 : ℕ) : ℕ := byteSwap 4 host32

def networkToHost32 (net32 : ℕ) : ℕ := byteSwap 4 net32

/-- The bytes of an `int32_t` as the host stores it. -/
def int32 (x : ℕ) : Bytes := leBytes 4 x

/-- The value of 32 bits read as a signed number. -/
def signed (n : ℕ) : ℤ := if n < 2 ^ 31 then n else n - 2 ^ 32

/-- The first four bytes as a signed number of the host. -/
def peekInt32 (buf : Bytes) : ℤ := signed (leNat (buf.take 4))

end Buffer

namespace ProtobufCodecLite

variable {M : Type*} (cod : ProtobufCodecLite M)

def kMinMessageLen : ℕ := cod.tag.length + kChecksumLen

/-- Signed and unsigned checksums are equal together, so the unsigned ones are compared. -/
def checksum (buf : Bytes) : ℕ := (cod.adler32 buf).toNat

def asInt32 (buf : Bytes) : ℕ := Buffer.networkToHost32 (leNat (buf.take 4))

/-- Tag and payload. -/
def content (message : M) : Bytes := cod.tag ++ cod.serializeToBuffer message

/-- What the length field counts. -/
def body (message : M) : Bytes :=
  cod.content message ++ Buffer.int32 (cod.checksum (cod.content message))

def fillEmptyBuffer (message : M) : Bytes :=
  Buffer.int32 (Buffer.hostToNetwork32 (cod.body message).length) ++ cod.body message

def validateChecksum (buf : Bytes) : Bool :=
  cod.checksum (buf.take (buf.length - kChecksumLen)) = asInt32 (buf.drop (buf.length - kChecksumLen))

def parse (buf : Bytes) : Except ErrorCode M :=
  if cod.validateChecksum buf then
    if buf.take cod.tag.length = cod.tag then
      match cod.parseFromBuffer ((buf.take (buf.length - kChecksumLen)).drop cod.tag.length) with
      | some message => .ok message
      | none => .error .kParseError
    else .error .kUnknownMessageType
  else .error .kCheckSumError

/-- What one round of the loop of `onMessage` finds in the buffer. -/
inductive Poll (M : Type*)
  | wait
  | fail (errorCode : ErrorCode)
  | skip (rest : Bytes)
  | message (message : M) (rest : Bytes)

/-- A whole frame is there. -/
def pollFrame (frame rest : Bytes) : Poll M :=
  if (cod.rawCb.map fun cb => cb frame) = some false then .skip rest
  else
    match cod.parse (frame.drop kHeaderLen) with
    | .ok message => .message message rest
    | .error e => .fail e

def poll (buf : Bytes) : Poll M :=
  let len := Buffer.peekInt32 buf
  if buf.length < cod.kMinMessageLen + kHeaderLen then .wait
  else if kMaxMessageLen < len ∨ len < cod.kMinMessageLen then .fail .kInvalidLength
  else if buf.length < kHeaderLen + len.toNat then .wait
  else cod.pollFrame (buf.take (kHeaderLen + len.toNat)) (buf.drop (kHeaderLen + len.toNat))

/-- Without fuel the loop would still be running. -/
def onMessageLoop : ℕ → Bytes → List (Call M) → Option (Bytes × List (Call M))
  | 0, _, _ => none
  | fuel + 1, buf, calls =>
    match cod.poll buf with
    | .wait => some (buf, calls)
    | .fail e => some (buf, calls ++ [.errorCallback e])
    | .skip rest => onMessageLoop fuel rest calls
    | .message m rest => onMessageLoop fuel rest (calls ++ [.messageCallback m])

def onMessage (buf : Bytes) (calls : List (Call M)) : Option (Bytes × List (Call M)) :=
  cod.onMessageLoop (buf.length + 1) buf calls

/-- Append each chunk to the input buffer and call `onMessage` after it. -/
def feed : Bytes → List (Call M) → List Bytes → Option (Bytes × List (Call M))
  | buf, calls, [] => some (buf, calls)
  | buf, calls, chunk :: chunks =>
    (cod.onMessage (buf ++ chunk) calls).bind fun r => feed r.1 r.2 chunks

/-- The chunks give the messages, in order and nothing else, and leave nothing. -/
def RoundTrips (messages : List M) (chunks : List Bytes) : Prop :=
  cod.feed [] [] chunks = some ([], messages.map .messageCallback)

theorem length_body (message : M) :
    (cod.body message).length = (cod.content message).length + 4 := by
  simp only [body, List.length_append, Buffer.int32, length_leBytes]

theorem kMinMessageLen_le (message : M) : cod.kMinMessageLen ≤ (cod.body message).length := by
  simp only [length_body, content, List.length_append, kMinMessageLen, kChecksumLen]
  omega

theorem length_fillEmptyBuffer (message : M) :
    (cod.fillEmptyBuffer message).length = kHeaderLen + (cod.body message).length := by
  simp only [fillEmptyBuffer, List.length_append, Buffer.int32, length_leBytes, kHeaderLen]

variable {cod} {b : Bytes} (x : Bytes)

theorem peekInt32_append (h : 4 ≤ b.length) :
    Buffer.peekInt32 (b ++ x) = Buffer.peekInt32 b := by
  simp only [Buffer.peekInt32, List.take_append_of_le_length h]

/-- The buffer begins with a length in range, and the frame is there. -/
structure Whole (cod : ProtobufCodecLite M) (b : Bytes) : Prop where
  header : cod.kMinMessageLen + kHeaderLen ≤ b.length
  le_max : Buffer.peekInt32 b ≤ kMaxMessageLen
  min_le : cod.kMinMessageLen ≤ Buffer.peekInt32 b
  body : kHeaderLen + (Buffer.peekInt32 b).toNat ≤ b.length

theorem poll_of_whole (h : Whole cod b) : cod.poll b =
    cod.pollFrame (b.take (kHeaderLen + (Buffer.peekInt32 b).toNat))
      (b.drop (kHeaderLen + (Buffer.peekInt32 b).toNat)) := by
  obtain ⟨hheader, hmax, hmin, hbody⟩ := h
  rw [poll]
  simp only [if_neg (show ¬ b.length < cod.kMinMessageLen + kHeaderLen by omega),
    if_neg (show ¬ (kMaxMessageLen < Buffer.peekInt32 b ∨
      Buffer.peekInt32 b < cod.kMinMessageLen) by omega),
    if_neg (show ¬ b.length < kHeaderLen + (Buffer.peekInt32 b).toNat by omega)]

/-- Everything a round can do. -/
theorem poll_cases (cod : ProtobufCodecLite M) (b : Bytes) : cod.poll b = .wait ∨
    (cod.kMinMessageLen + kHeaderLen ≤ b.length ∧ (kMaxMessageLen < Buffer.peekInt32 b ∨
      Buffer.peekInt32 b < cod.kMinMessageLen) ∧ cod.poll b = .fail .kInvalidLength) ∨
    Whole cod b := by
  by_cases hshort : b.length < cod.kMinMessageLen + kHeaderLen
  · exact .inl (if_pos hshort)
  · by_cases hrange : kMaxMessageLen < Buffer.peekInt32 b ∨ Buffer.peekInt32 b < cod.kMinMessageLen
    · refine .inr (.inl ⟨by omega, hrange, ?_⟩)
      simp only [poll, if_neg hshort, if_pos hrange]
    · by_cases hpart : b.length < kHeaderLen + (Buffer.peekInt32 b).toNat
      · left
        simp only [poll, if_neg hshort, if_neg hrange, if_pos hpart]
      · exact .inr (.inr ⟨by omega, by omega, by omega, by omega⟩)

/-- The outcome of a round when `x` follows the buffer. -/
def Poll.append (x : Bytes) : Poll M → Poll M
  | .wait => .wait
  | .fail e => .fail e
  | .skip rest => .skip (rest ++ x)
  | .message m rest => .message m (rest ++ x)

theorem rest_of_pollFrame {frame rest rest' : Bytes} {m : M}
    (h : cod.pollFrame frame rest = .message m rest') : rest = rest' := by
  unfold pollFrame at h
  split_ifs at h
  split at h <;> cases h
  rfl

/-- A round that goes on has found a whole frame. -/
theorem whole_of_poll {rest : Bytes}
    (h : cod.poll b = .skip rest ∨ ∃ m, cod.poll b = .message m rest) : Whole cod b := by
  rcases poll_cases cod b with hwait | ⟨-, -, hfail⟩ | hwhole
  · simp [hwait] at h
  · simp [hfail] at h
  · exact hwhole

theorem poll_ne_skip {rest : Bytes} (hraw : cod.rawCb = none) : cod.poll b ≠ .skip rest := by
  intro h
  rw [poll_of_whole (whole_of_poll (.inl h)), pollFrame, hraw] at h
  simp only [Option.map_none, reduceCtorEq, if_false] at h
  split at h <;> cases h

theorem pollFrame_append (frame rest : Bytes) :
    cod.pollFrame frame (rest ++ x) = (cod.pollFrame frame rest).append x := by
  unfold pollFrame
  split_ifs
  · rfl
  · split <;> rfl

/-- What follows a frame has no effect on its round. -/
theorem poll_append (h : cod.poll b ≠ .wait) : cod.poll (b ++ x) = (cod.poll b).append x := by
  have hpeek : kHeaderLen ≤ b.length → Buffer.peekInt32 (b ++ x) = Buffer.peekInt32 b :=
    peekInt32_append x
  have hlen : (b ++ x).length = b.length + x.length := List.length_append
  rcases poll_cases cod b with hwait | ⟨hheader, hrange, hfail⟩ | hwhole
  · exact absurd hwait h
  · rw [hfail, Poll.append]
    rw [← hpeek (by omega)] at hrange
    simp only [poll, if_pos hrange, hlen,
      if_neg (show ¬ b.length + x.length < cod.kMinMessageLen + kHeaderLen by omega)]
  · obtain ⟨hheader, hmax, hmin, hbody⟩ := hwhole
    have hp := hpeek (by omega)
    have hwhole' : Whole cod (b ++ x) := by
      constructor <;> simp only [hp, hlen] <;> omega
    rw [poll_of_whole ⟨hheader, hmax, hmin, hbody⟩, poll_of_whole hwhole', hp,
      List.take_append_of_le_length hbody, List.drop_append_of_le_length hbody, pollFrame_append]

theorem length_rest_lt {rest : Bytes}
    (h : cod.poll b = .skip rest ∨ ∃ m, cod.poll b = .message m rest) :
    rest.length < b.length := by
  have hwhole := whole_of_poll h
  have hrest : rest = b.drop (kHeaderLen + (Buffer.peekInt32 b).toNat) := by
    rw [poll_of_whole hwhole, pollFrame] at h
    split_ifs at h
    · rcases h with h | ⟨m, h⟩ <;> cases h
      rfl
    · split at h <;> rcases h with h | ⟨m, h⟩ <;> cases h
      rfl
  have hbody := hwhole.body
  rw [hrest, List.length_drop]
  simp only [kHeaderLen] at hbody ⊢
  omega

/-- The loop comes to an end. -/
theorem onMessageLoop_isSome {fuel : ℕ} (hfuel : b.length < fuel) (calls : List (Call M)) :
    (cod.onMessageLoop fuel b calls).isSome := by
  induction fuel generalizing b calls with
  | zero => omega
  | succ fuel ih =>
    rw [onMessageLoop]
    cases hp : cod.poll b with
    | wait | fail => rfl
    | skip rest =>
      have hlt := length_rest_lt (.inl hp)
      exact ih (by omega) calls
    | message m rest =>
      have hlt := length_rest_lt (.inr ⟨m, hp⟩)
      exact ih (by omega) _

def tick (cod : ProtobufCodecLite M) (b : Bytes) :
    Except ErrorCode (Option (Consumer.Rest Unit UInt8 M)) :=
  match cod.poll b with
  | .wait => .ok none
  | .fail e => .error e
  | .skip rest => .ok (some ((), rest, []))
  | .message m rest => .ok (some ((), rest, [m]))

theorem tick_append (h : cod.tick b ≠ .ok none) : cod.tick (b ++ x) =
    (cod.tick b).map (Option.map fun r => (r.1, r.2.1 ++ x, r.2.2)) := by
  have hpoll : cod.poll b ≠ .wait := by
    intro hwait
    exact h (by rw [tick, hwait])
  rw [tick, poll_append x hpoll, tick]
  cases cod.poll b <;> rfl

/-- The loop of `onMessage` as a machine that takes one frame a tick. -/
def machine (cod : ProtobufCodecLite M) : Consumer Unit UInt8 M ErrorCode where
  tick _ b := cod.tick b
  size _ b := b.length
  tick_size := by
    intro _ b _ b' o h
    have hpoll : cod.poll b = .skip b' ∨ ∃ m, cod.poll b = .message m b' := by
      unfold tick at h
      split at h <;> cases h
      · exact .inl ‹_›
      · exact .inr ⟨_, ‹_›⟩
    exact length_rest_lt hpoll

theorem machine_stable (cod : ProtobufCodecLite M) : cod.machine.Stable fun _ _ => True :=
  .of_tick_append (fun _ => trivial) (fun _ _ => trivial) fun _ h => tick_append _ h

/-- Where the machine does not fail, the loop ends as it does. -/
theorem onMessageLoop_of_run {fuel : ℕ} {b' : Bytes} {o : List M} (hfuel : b.length < fuel)
    (h : cod.machine.run () b = .ok ((), b', o)) (calls : List (Call M)) :
    cod.onMessageLoop fuel b calls = some (b', calls ++ o.map .messageCallback) := by
  induction fuel generalizing b o calls with
  | zero => omega
  | succ fuel ih =>
    rw [onMessageLoop]
    cases hp : cod.poll b with
    | wait =>
      have hrun := cod.machine.run_of_wait (s := ()) (b := b) (by simp only [machine, tick, hp])
      rw [hrun] at h
      cases h
      simp
    | fail e =>
      have hrun := cod.machine.run_of_error (s := ()) (b := b) (e := e)
        (by simp only [machine, tick, hp])
      rw [hrun] at h
      cases h
    | skip rest =>
      have hlt := length_rest_lt (.inl hp)
      have htick : cod.machine.tick () b = .ok (some ((), rest, [])) := by
        simp only [machine, tick, hp]
      obtain ⟨o', hrest, rfl⟩ := cod.machine.run_eq_ok_of_tick htick h
      exact ih (by omega) hrest calls
    | message m rest =>
      have hlt := length_rest_lt (.inr ⟨m, hp⟩)
      have htick : cod.machine.tick () b = .ok (some ((), rest, [m])) := by
        simp only [machine, tick, hp]
      obtain ⟨o', hrest, rfl⟩ := cod.machine.run_eq_ok_of_tick htick h
      have hloop := ih (by omega) hrest (calls ++ [.messageCallback m])
      rw [List.append_assoc] at hloop
      exact hloop

/-- A round that waits ends the loop. -/
theorem poll_of_run {b' : Bytes} {o : List M} (h : cod.machine.run () b = .ok ((), b', o)) :
    cod.poll b' = .wait := by
  have ht : cod.tick b' = .ok none := (cod.machine.run_eq_ok_iff.mp h).2
  unfold tick at ht
  split at ht <;> first | assumption | cases ht

/-- However the input is cut, the calls are those of one run on all of it. -/
theorem feed_of_run {b' : Bytes} {o : List M} {chunks : List Bytes} (hwait : cod.poll b = .wait)
    (h : cod.machine.run () (b ++ chunks.flatten) = .ok ((), b', o)) (calls : List (Call M)) :
    cod.feed b calls chunks = some (b', calls ++ o.map .messageCallback) := by
  induction chunks generalizing b o calls with
  | nil =>
    rw [List.flatten_nil, List.append_nil,
      cod.machine.run_of_wait (by simp only [machine, tick, hwait])] at h
    cases h
    simp [feed]
  | cons chunk chunks ih =>
    rw [List.flatten_cons, ← List.append_assoc] at h
    obtain ⟨_, b₁, o₁, o₂, hrun, hrest, rfl⟩ := (machine_stable cod).run_append_eq_ok trivial h
    rw [feed, onMessage, onMessageLoop_of_run (Nat.lt_succ_self _) hrun]
    simp only [Option.bind_some]
    rw [ih (poll_of_run hrun) hrest]
    simp

/-- What the receiver takes for the length of a frame. -/
theorem peekInt32_fillEmptyBuffer (cod : ProtobufCodecLite M) (m : M) :
    Buffer.peekInt32 (cod.fillEmptyBuffer m ++ x) =
      Buffer.signed (byteSwap 4 (cod.body m).length) := by
  have htake : (cod.fillEmptyBuffer m ++ x).take 4 =
      leBytes 4 (byteSwap 4 (cod.body m).length) := by
    rw [fillEmptyBuffer, List.append_assoc, Buffer.int32, Buffer.hostToNetwork32]
    exact List.take_left' (length_leBytes 4 _)
  have hlt := byteSwap_lt 4 (cod.body m).length
  rw [Buffer.peekInt32, htake, leNat_leBytes, Nat.mod_eq_of_lt hlt]

theorem length_body_sub (cod : ProtobufCodecLite M) (m : M) :
    (cod.body m).length - kChecksumLen = (cod.content m).length := by
  rw [length_body, kChecksumLen, Nat.add_sub_cancel]

theorem validateChecksum_body (cod : ProtobufCodecLite M) (m : M) :
    cod.validateChecksum (cod.body m) = true ↔
      byteSwap 4 (cod.checksum (cod.content m)) = cod.checksum (cod.content m) := by
  have hlt : cod.checksum (cod.content m) < 256 ^ 4 := (cod.adler32 (cod.content m)).toNat_lt
  rw [validateChecksum, length_body_sub, body, List.take_left, List.drop_left, asInt32, Buffer.int32,
    List.take_of_length_le (by rw [length_leBytes]), leNat_leBytes, Nat.mod_eq_of_lt hlt,
    Buffer.networkToHost32, decide_eq_true_iff, eq_comm]

/-- What the receiver makes of a frame that it cuts as it was sent. -/
theorem parse_body {m : M} (hparse : cod.parseFromBuffer (cod.serializeToBuffer m) = some m) :
    cod.parse (cod.body m) =
      if byteSwap 4 (cod.checksum (cod.content m)) = cod.checksum (cod.content m) then .ok m
      else .error .kCheckSumError := by
  have htag : (cod.body m).take cod.tag.length = cod.tag := by
    rw [body, content, List.append_assoc, List.take_left]
  have hdata : ((cod.body m).take ((cod.body m).length - kChecksumLen)).drop cod.tag.length =
      cod.serializeToBuffer m := by
    rw [length_body_sub, body, List.take_left, content, List.drop_left]
  rw [parse, htag, hdata, hparse]
  simp only [validateChecksum_body, if_true]

/-- Length and checksum read the same from both ends. -/
structure Balanced (cod : ProtobufCodecLite M) (m : M) : Prop where
  length : byteSwap 4 (cod.body m).length = (cod.body m).length
  checksum : byteSwap 4 (cod.checksum (cod.content m)) = cod.checksum (cod.content m)

theorem signed_of_le {n : ℕ} (h : n ≤ kMaxMessageLen) : Buffer.signed n = n := by
  rw [Buffer.signed, if_pos (Nat.lt_of_le_of_lt h (by decide))]

/-- The message comes back from its frame. -/
structure Fit (cod : ProtobufCodecLite M) (m : M) : Prop extends Balanced cod m where
  le_max : (cod.body m).length ≤ kMaxMessageLen
  parse : cod.parseFromBuffer (cod.serializeToBuffer m) = some m

section
variable {m : M} (hraw : cod.rawCb = none)
include hraw

theorem pollFrame_fillEmptyBuffer (hparse : cod.parseFromBuffer (cod.serializeToBuffer m) = some m)
    (rest : Bytes) :
    cod.pollFrame (cod.fillEmptyBuffer m) rest =
      if byteSwap 4 (cod.checksum (cod.content m)) = cod.checksum (cod.content m) then
        .message m rest
      else .fail .kCheckSumError := by
  have hdrop : (cod.fillEmptyBuffer m).drop kHeaderLen = cod.body m :=
    List.drop_left' (length_leBytes 4 _)
  rw [pollFrame, hdrop, parse_body hparse, hraw]
  simp only [Option.map_none, reduceCtorEq, if_false]
  split_ifs <;> rfl

/-- A frame that fits is taken whole. -/
theorem poll_fit (hm : Fit cod m) : cod.poll (cod.fillEmptyBuffer m ++ x) = .message m x := by
  have hmax := hm.le_max
  have hpeek : Buffer.peekInt32 (cod.fillEmptyBuffer m ++ x) = (cod.body m).length := by
    rw [peekInt32_fillEmptyBuffer, hm.length, signed_of_le hmax]
  have hfill := cod.length_fillEmptyBuffer m
  have hlen : (cod.fillEmptyBuffer m ++ x).length =
      kHeaderLen + (cod.body m).length + x.length := by
    rw [List.length_append, hfill]
  have hmin := cod.kMinMessageLen_le m
  rw [poll_of_whole ⟨by omega, by omega, by omega, by omega⟩, hpeek, Int.toNat_natCast,
    List.take_left' hfill, List.drop_left' hfill, pollFrame_fillEmptyBuffer hraw hm.parse,
    if_pos hm.checksum]

/-- Of the frames, those that are there whole are taken. -/
theorem run_cut {ms : List M} (hms : ∀ m ∈ ms, Fit cod m)
    (hcut : b ++ x = (ms.map cod.fillEmptyBuffer).flatten) : ∃ ms₁ ms₂ b',
    ms = ms₁ ++ ms₂ ∧ cod.machine.run () b = .ok ((), b', ms₁) ∧
    b' ++ x = (ms₂.map cod.fillEmptyBuffer).flatten := by
  induction ms generalizing b with
  | nil =>
    obtain ⟨rfl, rfl⟩ := List.append_eq_nil_iff.mp hcut
    refine ⟨[], [], [], rfl, cod.machine.run_of_wait ?_, rfl⟩
    simp [machine, tick, poll, kHeaderLen]
  | cons m ms ih =>
    obtain ⟨hm, hms⟩ := List.forall_mem_cons.mp hms
    rw [List.map_cons, List.flatten_cons] at hcut
    have hpoll := poll_fit (ms.map cod.fillEmptyBuffer).flatten hraw hm
    rcases Nat.lt_or_ge b.length (cod.fillEmptyBuffer m).length with hshort | hlong
    · -- the first frame is not there yet
      have hwait : cod.poll b = .wait := by
        by_contra hne
        rw [← hcut, poll_append x hne] at hpoll
        cases hb : cod.poll b with
        | wait => exact hne hb
        | fail | skip => simp [hb, Poll.append] at hpoll
        | message m' rest =>
          rw [hb, Poll.append] at hpoll
          have hlen := congrArg List.length hcut
          rw [← (Poll.message.inj hpoll).2] at hlen
          simp only [List.length_append] at hlen
          omega
      refine ⟨[], m :: ms, b, rfl, cod.machine.run_of_wait ?_, ?_⟩
      · simp only [machine, tick, hwait]
      · rw [List.map_cons, List.flatten_cons, hcut]
    · obtain ⟨b₁, rfl⟩ : ∃ b₁, b = cod.fillEmptyBuffer m ++ b₁ := by
        refine ⟨b.drop (cod.fillEmptyBuffer m).length, ?_⟩
        have htake := congrArg (List.take (cod.fillEmptyBuffer m).length) hcut
        rw [List.take_append_of_le_length hlong, List.take_left] at htake
        exact (List.take_append_drop _ b).symm.trans (by rw [htake])
      rw [List.append_assoc] at hcut
      obtain ⟨ms₁, ms₂, b', rfl, hrun, hrest⟩ := ih hms (List.append_cancel_left hcut)
      have htick : cod.machine.tick () (cod.fillEmptyBuffer m ++ b₁) =
          .ok (some ((), b₁, [m])) := by
        simp only [machine, tick, poll_fit b₁ hraw hm]
      refine ⟨m :: ms₁, ms₂, b', rfl, ?_, hrest⟩
      rw [cod.machine.run_of_tick htick, hrun]
      rfl

theorem run_fit {ms : List M} (hms : ∀ m ∈ ms, Fit cod m) :
    cod.machine.run () (ms.map cod.fillEmptyBuffer).flatten = .ok ((), [], ms) := by
  induction ms with
  | nil =>
    apply cod.machine.run_of_wait
    simp [machine, tick, poll, kHeaderLen]
  | cons m ms ih =>
    obtain ⟨hm, hms⟩ := List.forall_mem_cons.mp hms
    have hpoll := poll_fit (ms.map cod.fillEmptyBuffer).flatten hraw hm
    have htick : cod.machine.tick ()
        (cod.fillEmptyBuffer m ++ (ms.map cod.fillEmptyBuffer).flatten) =
          .ok (some ((), (ms.map cod.fillEmptyBuffer).flatten, [m])) := by
      simp only [machine, tick, hpoll]
    rw [List.map_cons, List.flatten_cons, cod.machine.run_of_tick htick, ih hms]
    rfl

/-- Calls are only added, and one is added for every frame that is taken. -/
theorem onMessageLoop_calls {fuel : ℕ} {b' : Bytes} {calls calls' : List (Call M)}
    (h : cod.onMessageLoop fuel b calls = some (b', calls')) :
    ∃ new, calls' = calls ++ new ∧ (new = [] → b' = b) := by
  induction fuel generalizing b calls with
  | zero => cases h
  | succ fuel ih =>
    rw [onMessageLoop] at h
    cases hp : cod.poll b with
    | wait =>
      rw [hp] at h
      cases h
      exact ⟨[], (List.append_nil _).symm, fun _ => rfl⟩
    | fail e =>
      rw [hp] at h
      cases h
      exact ⟨[.errorCallback e], rfl, fun hnil => by cases hnil⟩
    | skip rest => exact absurd hp (poll_ne_skip hraw)
    | message m rest =>
      rw [hp] at h
      obtain ⟨new, hnew, -⟩ := ih h
      refine ⟨.messageCallback m :: new, ?_, fun hnil => by cases hnil⟩
      rw [hnew, List.append_assoc]
      rfl

/-- What `onMessage` does with the frames that are there whole. -/
theorem onMessage_cut {ms : List M} (hms : ∀ m ∈ ms, Fit cod m)
    (hcut : b ++ x = (ms.map cod.fillEmptyBuffer).flatten) : ∃ ms₁ ms₂ b', ms = ms₁ ++ ms₂ ∧
    cod.onMessage b [] = some (b', ms₁.map .messageCallback) ∧
    b' ++ x = (ms₂.map cod.fillEmptyBuffer).flatten ∧ cod.poll b' = .wait := by
  obtain ⟨ms₁, ms₂, b', rfl, hrun, hrest⟩ := run_cut x hraw hms hcut
  exact ⟨ms₁, ms₂, b', rfl, onMessageLoop_of_run (Nat.lt_succ_self _) hrun [], hrest,
    poll_of_run hrun⟩

omit hraw in
/-- A frame that is taken to its last byte was taken with the length it was sent with. -/
theorem byteSwap_length_of_poll {m' : M} (h : cod.poll (cod.fillEmptyBuffer m) = .message m' []) :
    byteSwap 4 (cod.body m).length = (cod.body m).length ∧
      cod.poll (cod.fillEmptyBuffer m) = cod.pollFrame (cod.fillEmptyBuffer m) [] := by
  have hfill := cod.length_fillEmptyBuffer m
  have hwhole := whole_of_poll (.inr ⟨m', h⟩)
  have hpeek := cod.peekInt32_fillEmptyBuffer [] m
  rw [List.append_nil] at hpeek
  have hpoll := poll_of_whole hwhole
  have hrest := rest_of_pollFrame (hpoll.symm.trans h)
  have hlen := congrArg List.length hrest
  have hbody := hwhole.body
  have hmin := hwhole.min_le
  rw [List.length_drop, List.length_nil] at hlen
  have heq : Buffer.peekInt32 (cod.fillEmptyBuffer m) = (cod.body m).length := by omega
  constructor
  · have hlt := byteSwap_lt 4 (cod.body m).length
    rw [heq, Buffer.signed] at hpeek
    split_ifs at hpeek <;> omega
  · rw [hpoll, hrest, heq, Int.toNat_natCast, ← hfill, List.take_length]

variable (hparse : ∀ m, cod.parseFromBuffer (cod.serializeToBuffer m) = some m)
include hparse

/-- A single message goes through only if it is balanced. -/
theorem balanced_of_roundTrips (h : cod.RoundTrips [m] [cod.fillEmptyBuffer m]) :
    Balanced cod m := by
  have hloop : cod.onMessage (cod.fillEmptyBuffer m) [] = some ([], [.messageCallback m]) := by
    simpa [RoundTrips, feed] using h
  rw [onMessage, onMessageLoop] at hloop
  cases hp : cod.poll (cod.fillEmptyBuffer m) with
  | wait =>
    rw [hp] at hloop
    cases hloop
  | fail e =>
    rw [hp] at hloop
    cases hloop
  | skip rest => exact absurd hp (poll_ne_skip hraw)
  | message m' rest =>
    rw [hp] at hloop
    obtain ⟨new, hnew, hrest⟩ := onMessageLoop_calls hraw hloop
    obtain rfl : [] = rest := by
      apply hrest
      cases hnew
      rfl
    obtain ⟨hlength, hframe⟩ := byteSwap_length_of_poll hp
    refine ⟨hlength, ?_⟩
    rw [hframe, pollFrame_fillEmptyBuffer hraw (hparse m)] at hp
    by_contra hsum
    rw [if_neg hsum] at hp
    cases hp

/-- Messages go through in every list and every chunking exactly if each of them is balanced. -/
theorem roundTrips_iff (S : M → Prop) (hmax : ∀ m, S m → (cod.body m).length ≤ kMaxMessageLen) :
    (∀ ms : List M, (∀ m ∈ ms, S m) → ∀ chunks : List Bytes,
        chunks.flatten = (ms.map cod.fillEmptyBuffer).flatten → cod.RoundTrips ms chunks) ↔
      ∀ m, S m → Balanced cod m := by
  constructor
  · intro h m hm
    apply balanced_of_roundTrips hraw hparse
    exact h [m] (by simpa using hm) [cod.fillEmptyBuffer m] (by simp)
  · intro h ms hms chunks hcut
    have hrun := run_fit hraw fun m hm => ⟨h m (hms m hm), hmax m (hms m hm), hparse m⟩
    have hwait : cod.poll [] = .wait := by simp [poll, kHeaderLen]
    rw [← hcut] at hrun
    exact feed_of_run hwait hrun []

end

/-! ### Frames that are refused -/

/-- The last byte of the length, which the receiver takes for the first, is too large. -/
def Refused (cod : ProtobufCodecLite M) (m : M) : Prop := 5 ≤ (cod.body m).length % 256

theorem byteSwap_of_refused {m : M} (h : Refused cod m) :
    kMaxMessageLen < Buffer.signed (byteSwap 4 (cod.body m).length) ∨
      Buffer.signed (byteSwap 4 (cod.body m).length) < 0 := by
  have hswap := byteSwap_add 1 3 (cod.body m).length
  have hone : byteSwap 1 (cod.body m).length = (cod.body m).length % 256 := by
    simp [byteSwap, beBytes, leBytes, leNat]
  rw [hone] at hswap
  have hlow := byteSwap_lt 3 ((cod.body m).length / 256 ^ 1)
  have hlast : 5 ≤ (cod.body m).length % 256 := h
  have hmax : ((kMaxMessageLen : ℕ) : ℤ) = 67108864 := rfl
  rw [hswap, Buffer.signed, hmax]
  norm_num at hlow ⊢
  split_ifs <;> omega

/-- Whatever part of the stream has come, the frame at its head is not taken. -/
theorem onMessage_refused {m : M} {y : Bytes} (h : Refused cod m)
    (hb : b ++ y = cod.fillEmptyBuffer m ++ x) : cod.onMessage b [] = some (b, []) ∨
      cod.onMessage b [] = some (b, [.errorCallback .kInvalidLength]) := by
  rw [onMessage, onMessageLoop]
  rcases poll_cases cod b with hwait | ⟨-, -, hfail⟩ | hwhole
  · rw [hwait]
    exact Or.inl rfl
  · rw [hfail]
    exact Or.inr rfl
  · have hpeek := peekInt32_fillEmptyBuffer x cod m
    have hheader := hwhole.header
    rw [← hb, peekInt32_append y (by simp only [kHeaderLen] at hheader; omega)] at hpeek
    have hmax := hwhole.le_max
    have hmin := hwhole.min_le
    have := byteSwap_of_refused h
    omega

/-! ### Examples -/

/-- One byte more for zlib's `adler32`. -/
def adlerStep (s : ℕ × ℕ) (c : UInt8) : ℕ × ℕ :=
  ((s.1 + c.toNat) % 65521, (s.1 + c.toNat + s.2) % 65521)

/-- Strings with the tag of the RPC codec. -/
def rpcCodec : ProtobufCodecLite Bytes where
  tag := [82, 80, 67, 48]
  serializeToBuffer := id
  parseFromBuffer := some
  adler32 buf :=
    let s := buf.foldl adlerStep (1, 0)
    .ofNat (s.2 * 65536 + s.1)
  rawCb := none

theorem content_rpcCodec (m : Bytes) : rpcCodec.content m = [82, 80, 67, 48] ++ m := rfl

theorem checksum_rpcCodec {b : Bytes} {s : ℕ × ℕ} (h : b.foldl adlerStep (1, 0) = s) :
    rpcCodec.checksum b = (UInt32.ofNat (s.2 * 65536 + s.1)).toNat := h ▸ rfl

theorem foldl_adlerStep_zeros {a : ℕ} (ha : a < 65521) (n b : ℕ) (hb : b < 65521) :
    (List.replicate n 0).foldl adlerStep (a, b) = (a, (b + n * a) % 65521) := by
  induction n generalizing b with
  | zero =>
    rw [List.replicate_zero, List.foldl_nil, Nat.zero_mul, Nat.add_zero, Nat.mod_eq_of_lt hb]
  | succ n ih =>
    have hstep : adlerStep (a, b) 0 = (a, (a + b) % 65521) := by
      rw [adlerStep, UInt8.toNat_zero, Nat.add_zero, Nat.mod_eq_of_lt ha]
    rw [List.replicate_succ, List.foldl_cons, hstep, ih _ (Nat.mod_lt _ (by decide)),
      Nat.mod_add_mod, Nat.succ_mul]
    congr 2
    omega

/-- A message of 65784 bytes, `n` of them behind the only one that need not be zero. Its frame has
the length `0x00010100`. -/
def longMessage (d : UInt8) (n : ℕ) : Bytes := List.replicate (65783 - n) 0 ++ d :: List.replicate n 0

theorem length_body_longMessage {d : UInt8} {n : ℕ} (hn : n ≤ 65783) :
    (rpcCodec.body (longMessage d n)).length = 65792 := by
  have hlen : (longMessage d n).length = 65784 := by
    rw [longMessage, List.length_append, List.length_cons, List.length_replicate,
      List.length_replicate]
    omega
  rw [length_body, content_rpcCodec, List.length_append, hlen]
  rfl

theorem foldl_longMessage {a b n : ℕ} {d : UInt8}
    (hstep : adlerStep (278, (754 + (65783 - n) * 278) % 65521) d = (a, b)) (ha : a < 65521)
    (hb : b < 65521) : (longMessage d n).foldl adlerStep (278, 754) = (a, (b + n * a) % 65521) := by
  rw [longMessage, List.foldl_append, List.foldl_cons,
    foldl_adlerStep_zeros (by decide) _ 754 (by decide), hstep]
  exact foldl_adlerStep_zeros ha n b hb

theorem fit_longMessage {d : UInt8} {n : ℕ} {s : ℕ × ℕ} (hn : n ≤ 65783)
    (hs : (longMessage d n).foldl adlerStep (278, 754) = s)
    (hsum : byteSwap 4 (UInt32.ofNat (s.2 * 65536 + s.1)).toNat =
      (UInt32.ofNat (s.2 * 65536 + s.1)).toNat) : Fit rpcCodec (longMessage d n) := by
  have hlen := length_body_longMessage (d := d) hn
  have hfold : (rpcCodec.content (longMessage d n)).foldl adlerStep (1, 0) = s := by
    rw [content_rpcCodec, List.foldl_append]
    exact hs
  refine ⟨⟨?_, ?_⟩, ?_, rfl⟩
  · rw [hlen]
    decide
  · rw [checksum_rpcCodec hfold]
    exact hsum
  · rw [hlen]
    decide

/-- The checksum is `0x17010117`. -/
theorem fit_longMessage_one : Fit rpcCodec (longMessage 1 63062) :=
  fit_longMessage (by decide)
    (foldl_longMessage (a := 279) (b := 36740) (by decide) (by decide) (by decide)) (by decide)

/-- The checksum is `0x18010118`. -/
theorem fit_longMessage_two : Fit rpcCodec (longMessage 2 64419) :=
  fit_longMessage (by decide)
    (foldl_longMessage (a := 280) (b := 52621) (by decide) (by decide) (by decide)) (by decide)

theorem roundTrips_longMessage :
    rpcCodec.RoundTrips [longMessage 1 63062, longMessage 2 64419]
      [(rpcCodec.fillEmptyBuffer (longMessage 1 63062)).take 7,
        (rpcCodec.fillEmptyBuffer (longMessage 1 63062)).drop 7 ++
          rpcCodec.fillEmptyBuffer (longMessage 2 64419)] := by
  have hcut (b b' : Bytes) : [b.take 7, b.drop 7 ++ b'].flatten = [b, b'].flatten := by
    rw [List.flatten_cons, List.flatten_singleton, ← List.append_assoc, List.take_append_drop,
      List.flatten_cons, List.flatten_singleton]
  refine (roundTrips_iff rfl (fun _ => rfl) (Fit rpcCodec) fun _ hm => hm.le_max).mpr
    (fun _ hm => hm.toBalanced) _ ?_ _ (hcut _ _)
  exact List.forall_mem_cons.mpr
    ⟨fit_longMessage_one, List.forall_mem_singleton.mpr fit_longMessage_two⟩

/-- An empty message is refused: its length 8 is read as `0x08000000`. -/
theorem not_roundTrips_empty :
    rpcCodec.rawCb = none ∧
      (∀ m, rpcCodec.parseFromBuffer (rpcCodec.serializeToBuffer m) = some m) ∧
      (rpcCodec.body []).length ≤ kMaxMessageLen ∧
      rpcCodec.feed [] [] [rpcCodec.fillEmptyBuffer []] =
        some (rpcCodec.fillEmptyBuffer [], [.errorCallback .kInvalidLength]) ∧
      ¬ rpcCodec.RoundTrips [[]] [rpcCodec.fillEmptyBuffer []] := by
  have hfeed : rpcCodec.feed [] [] [rpcCodec.fillEmptyBuffer []] =
      some (rpcCodec.fillEmptyBuffer [], [.errorCallback .kInvalidLength]) := by decide
  refine ⟨rfl, fun _ => rfl, by decide, hfeed, ?_⟩
  rw [RoundTrips, hfeed]
  decide

end ProtobufCodecLite

end LibWebsocket.Protobuf
