import LibWebsocket.Lib.ByteOrder
import LibWebsocket.Lib.Overwrite
import LibWebsocket.Lib.Run

/-! The buffer of a connection (`Buffer.h`, `Buffer.cc`): a vector of bytes with a reader and a
writer index. It is a queue of bytes, to which some bytes can be prepended. -/
namespace LibWebsocket.Net

open LibWebsocket.Lib

def kCheapPrepend : ℕ := 8
def kInitialSize : ℕ := 1024

structure Buffer where
  buffer : Bytes
  readerIndex : ℕ
  writerIndex : ℕ
  reader_le : readerIndex ≤ writerIndex
  writer_le : writerIndex ≤ buffer.length
  cheap_le : kCheapPrepend ≤ buffer.length

namespace Buffer

variable {b b' : Buffer} {len : ℕ} {data : Bytes}

theorem cheap_le_create (initialSize : ℕ) :
    kCheapPrepend ≤ (List.replicate (kCheapPrepend + initialSize) (0 : UInt8)).length := by
  rw [List.length_replicate]
  exact Nat.le_add_right ..

def create (initialSize : ℕ) : Buffer where
  buffer := List.replicate (kCheapPrepend + initialSize) 0
  readerIndex := kCheapPrepend
  writerIndex := kCheapPrepend
  reader_le := le_rfl
  writer_le := cheap_le_create initialSize
  cheap_le := cheap_le_create initialSize

def readableBytes (b : Buffer) : ℕ := b.writerIndex - b.readerIndex

def writableBytes (b : Buffer) : ℕ := b.buffer.length - b.writerIndex

def prependableBytes (b : Buffer) : ℕ := b.readerIndex

/-- The readable bytes. -/
def content (b : Buffer) : Bytes := (b.buffer.take b.writerIndex).drop b.readerIndex

theorem content_mk {buffer : Bytes} {r w : ℕ} (hr : r ≤ w) (hw : w ≤ buffer.length)
    (hcheap : kCheapPrepend ≤ buffer.length) :
    (mk buffer r w hr hw hcheap).content = (buffer.take w).drop r := rfl

theorem length_content (b : Buffer) : b.content.length = b.readableBytes := by
  have := b.writer_le
  simp only [content, readableBytes, List.length_drop, List.length_take]
  omega

/-! ### The functions, with their assertions -/

def retrieveAll (b : Buffer) : Buffer :=
  { b with readerIndex := kCheapPrepend, writerIndex := kCheapPrepend, reader_le := le_rfl
           writer_le := b.cheap_le }

theorem reader_le_retrieve (h : len < b.readableBytes) : b.readerIndex + len ≤ b.writerIndex := by
  rw [readableBytes] at h
  omega

def retrieve (b : Buffer) (len : ℕ) : Option Buffer :=
  if len ≤ b.readableBytes then
    if h : len < b.readableBytes then
      some { b with readerIndex := b.readerIndex + len, reader_le := reader_le_retrieve h }
    else some b.retrieveAll
  else none

theorem reader_le_unwrite (h : len ≤ b.readableBytes) : b.readerIndex ≤ b.writerIndex - len := by
  have := b.reader_le
  rw [readableBytes] at h
  omega

def unwrite (b : Buffer) (len : ℕ) : Option Buffer :=
  if h : len ≤ b.readableBytes then
    some { b with writerIndex := b.writerIndex - len, reader_le := reader_le_unwrite h
                  writer_le := (Nat.sub_le ..).trans b.writer_le }
  else none

theorem length_put (h : data.length ≤ b.writableBytes) :
    (overwrite b.buffer b.writerIndex data).length = b.buffer.length := by
  have := b.writer_le
  rw [writableBytes] at h
  exact length_overwrite (by omega)

theorem writer_le_put (h : data.length ≤ b.writableBytes) :
    b.writerIndex + data.length ≤ (overwrite b.buffer b.writerIndex data).length := by
  have := b.writer_le
  rw [length_put h]
  rw [writableBytes] at h
  omega

/-- Bytes are written at `beginWrite()`, and `hasWritten` is called. -/
def put (b : Buffer) (data : Bytes) : Option Buffer :=
  if h : data.length ≤ b.writableBytes then
    some { buffer := overwrite b.buffer b.writerIndex data
           readerIndex := b.readerIndex
           writerIndex := b.writerIndex + data.length
           reader_le := b.reader_le.trans (Nat.le_add_right ..)
           writer_le := writer_le_put h
           cheap_le := b.cheap_le.trans (length_put h).ge }
  else none

/-- `std::vector::resize`. -/
def resize (buffer : Bytes) (n : ℕ) : Bytes :=
  buffer.take n ++ List.replicate (n - buffer.length) 0

theorem length_resize (buffer : Bytes) (n : ℕ) : (resize buffer n).length = n := by
  simp only [resize, List.length_append, List.length_take, List.length_replicate]
  omega

theorem writer_le_resize (b : Buffer) (len : ℕ) :
    b.writerIndex ≤ (resize b.buffer (b.writerIndex + len)).length := by
  rw [length_resize]
  exact Nat.le_add_right ..

theorem cheap_le_resize (h : b.writableBytes < len) :
    kCheapPrepend ≤ (resize b.buffer (b.writerIndex + len)).length := by
  have := b.cheap_le
  rw [writableBytes] at h
  rw [length_resize]
  omega

theorem length_move (h : kCheapPrepend < b.readerIndex) :
    (overwrite b.buffer kCheapPrepend b.content).length = b.buffer.length := by
  have := b.reader_le
  have := b.writer_le
  refine length_overwrite ?_
  rw [length_content, readableBytes]
  omega

theorem writer_le_move (h : kCheapPrepend < b.readerIndex) : kCheapPrepend + b.readableBytes ≤
    (overwrite b.buffer kCheapPrepend b.content).length := by
  have := b.reader_le
  have := b.writer_le
  rw [length_move h, readableBytes]
  omega

/-- Only called when there is not enough space behind the content. -/
def makeSpace (b : Buffer) (len : ℕ) (hlen : b.writableBytes < len) : Option Buffer :=
  if b.writableBytes + b.prependableBytes < len + kCheapPrepend then
    some { b with buffer := resize b.buffer (b.writerIndex + len)
                  writer_le := writer_le_resize b len
                  cheap_le := cheap_le_resize hlen }
  else if h : kCheapPrepend < b.readerIndex then
    some { buffer := overwrite b.buffer kCheapPrepend b.content
           readerIndex := kCheapPrepend
           writerIndex := kCheapPrepend + b.readableBytes
           reader_le := Nat.le_add_right ..
           writer_le := writer_le_move h
           cheap_le := b.cheap_le.trans (length_move h).ge }
  else none

def ensureWritableBytes (b : Buffer) (len : ℕ) : Option Buffer :=
  (if h : b.writableBytes < len then b.makeSpace len h else some b).bind fun b =>
    if len ≤ b.writableBytes then some b else none

def append (b : Buffer) (data : Bytes) : Option Buffer :=
  (b.ensureWritableBytes data.length).bind (·.put data)

theorem length_prepend (h : data.length ≤ b.prependableBytes) :
    (overwrite b.buffer (b.readerIndex - data.length) data).length = b.buffer.length := by
  have := b.reader_le
  have := b.writer_le
  rw [prependableBytes] at h
  exact length_overwrite (by omega)

def prepend (b : Buffer) (data : Bytes) : Option Buffer :=
  if h : data.length ≤ b.prependableBytes then
    some { buffer := overwrite b.buffer (b.readerIndex - data.length) data
           readerIndex := b.readerIndex - data.length
           writerIndex := b.writerIndex
           reader_le := (Nat.sub_le ..).trans b.reader_le
           writer_le := b.writer_le.trans (length_prepend h).ge
           cheap_le := b.cheap_le.trans (length_prepend h).ge }
  else none

/-- `toStringPiece` makes an `int` of the length, and a length that is not one makes a negative
number, for which there is no memory. -/
def shrink (b : Buffer) (reserve : ℕ) : Option Buffer :=
  ((create kInitialSize).ensureWritableBytes (b.readableBytes + reserve)).bind fun other =>
    if b.readableBytes < 0x80000000 then other.append b.content else none

def extrabufSize : ℕ := 65536

/-- How many bytes the call of `readv` can read. -/
def readvLength (b : Buffer) : ℕ :=
  if b.writableBytes < extrabufSize then b.writableBytes + extrabufSize else b.writableBytes

/-- `readFd`, with what the call of `readv` reads. -/
def readFd (b : Buffer) (data : Bytes) : Option Buffer :=
  if data.length ≤ b.readvLength then
    if data.length ≤ b.writableBytes then b.put data
    else (b.put (data.take b.writableBytes)).bind (·.append (data.drop b.writableBytes))
  else none

/-- Make sure that there is space to read into. -/
def roomToRead (b : Buffer) : Option Buffer :=
  if b.writableBytes = 0 then b.ensureWritableBytes 4096 else some b

/-- The loop of `readFull`, with the bytes that there are to read. Call number `i` reads
`counts[i] + 1` of them, or as many as there are or as there is space for; the call behind them
fails. The result is the buffer and what has not been read. -/
def readFull : List ℕ → Bytes → Buffer → Option (Buffer × Bytes)
  | [], data, b => b.roomToRead.map (·, data)
  | k :: counts, data, b =>
    b.roomToRead.bind fun b =>
      let rc := min (k + 1) (min b.writableBytes data.length)
      if rc = 0 then some (b, data)
      else (b.put (data.take rc)).bind (readFull counts (data.drop rc))

/-! ### What they do to the content -/

/-- The buffer `b'` behind a call on `b`: what its content is, that as many bytes can be prepended
as before up to eight, but for those that have been, and that it is no longer than `b` unless it
had to hold `n` bytes. -/
structure Becomes (b : Buffer) (c : Bytes) (n prepended : ℕ) (b' : Buffer) : Prop where
  content : b'.content = c
  headroom : min kCheapPrepend b.readerIndex ≤ b'.readerIndex + prepended
  size : b'.buffer.length ≤ max b.buffer.length (2 * n + kCheapPrepend)

theorem Becomes.refl (b : Buffer) (n : ℕ) : Becomes b b.content n 0 b :=
  ⟨rfl, Nat.min_le_right .., Nat.le_max_left ..⟩

theorem Becomes.mono {c : Bytes} {m n k : ℕ} (h : Becomes b c m k b') (hmn : m ≤ n) :
    Becomes b c n k b' :=
  ⟨h.content, h.headroom, h.size.trans (by omega)⟩

theorem Becomes.trans {c c' : Bytes} {n n' : ℕ} {b₁ b₂ : Buffer} (h : Becomes b c n 0 b₁)
    (h' : Becomes b₁ c' n' 0 b₂) : Becomes b c' (max n n') 0 b₂ where
  content := h'.content
  headroom := by
    have := h.headroom
    have := h'.headroom
    omega
  size := by
    have := h.size
    have := h'.size
    omega

theorem put_becomes (h : data.length ≤ b.writableBytes) :
    ∃ b', b.put data = some b' ∧ b'.buffer.length = b.buffer.length ∧
      Becomes b (b.content ++ data) 0 0 b' := by
  rw [put, dif_pos h]
  refine ⟨_, rfl, length_put h, ?_, Nat.min_le_right .., ?_⟩
  · have hr : b.readerIndex ≤ (b.buffer.take b.writerIndex).length := by
      rw [List.length_take, Nat.min_eq_left b.writer_le]
      exact b.reader_le
    rw [content, content, take_overwrite b.writer_le, List.drop_append_of_le_length hr]
  · exact (length_put h).le.trans (Nat.le_max_left ..)

theorem makeSpace_becomes (h : b.writableBytes < len) : ∃ b', b.makeSpace len h = some b' ∧
    len ≤ b'.writableBytes ∧ Becomes b b.content (b.readableBytes + len) 0 b' := by
  have hr := b.reader_le
  have hw := b.writer_le
  rw [makeSpace]
  split_ifs with hsmall hmove
  · refine ⟨_, rfl, ?_, ?_, Nat.min_le_right .., ?_⟩
    · simp only [writableBytes, length_resize]
      omega
    · have hlen : b.writerIndex ≤ (b.buffer.take (b.writerIndex + len)).length := by
        rw [List.length_take]
        omega
      rw [content_mk, resize, List.take_append_of_le_length hlen, List.take_take,
        Nat.min_eq_left (Nat.le_add_right ..), content]
    · rw [prependableBytes] at hsmall
      simp only [length_resize, readableBytes]
      omega
  · refine ⟨_, rfl, ?_, ?_, Nat.min_le_left .., ?_⟩
    · rw [writableBytes, prependableBytes] at hsmall
      simp only [writableBytes, length_move hmove, readableBytes]
      omega
    · have hcheap : (b.buffer.take kCheapPrepend).length = kCheapPrepend := by
        rw [List.length_take, Nat.min_eq_left b.cheap_le]
      rw [content_mk, ← b.length_content, take_overwrite b.cheap_le]
      exact List.drop_left' hcheap
    · exact (length_move hmove).le.trans (Nat.le_max_left ..)
  · -- the space behind the content is too small, so the assertion follows from the test
    rw [prependableBytes] at hsmall
    omega

theorem ensureWritableBytes_of_le (h : len ≤ b.writableBytes) :
    b.ensureWritableBytes len = some b := by
  rw [ensureWritableBytes, dif_neg (Nat.not_lt.mpr h), Option.bind_some, if_pos h]

theorem ensureWritableBytes_becomes (b : Buffer) (len : ℕ) :
    ∃ b', b.ensureWritableBytes len = some b' ∧ len ≤ b'.writableBytes ∧
      Becomes b b.content (b.readableBytes + len) 0 b' := by
  by_cases h : b.writableBytes < len
  · obtain ⟨b', hb', hlen, hbecomes⟩ := makeSpace_becomes h
    refine ⟨b', ?_, hlen, hbecomes⟩
    rw [ensureWritableBytes, dif_pos h, hb', Option.bind_some, if_pos hlen]
  · have hlen := Nat.not_lt.mp h
    exact ⟨b, ensureWritableBytes_of_le hlen, hlen, .refl b _⟩

theorem append_becomes (b : Buffer) (data : Bytes) : ∃ b', b.append data = some b' ∧
    Becomes b (b.content ++ data) (b.readableBytes + data.length) 0 b' := by
  obtain ⟨b₁, hb₁, hlen, h₁⟩ := b.ensureWritableBytes_becomes data.length
  obtain ⟨b', hb', -, h'⟩ := put_becomes hlen
  rw [h₁.content] at h'
  refine ⟨b', by rw [append, hb₁, Option.bind_some, hb'], ?_⟩
  have := h₁.trans h'
  rwa [Nat.max_zero] at this

theorem readFd_becomes (h : data.length ≤ b.readvLength) : ∃ b', b.readFd data = some b' ∧
    Becomes b (b.content ++ data) (b.readableBytes + data.length) 0 b' := by
  rw [readFd, if_pos h]
  split_ifs with hfits
  · obtain ⟨b', hb', hlen, h'⟩ := put_becomes hfits
    exact ⟨b', hb', h'.content, h'.headroom, hlen.le.trans (Nat.le_max_left ..)⟩
  · have htake : (data.take b.writableBytes).length ≤ b.writableBytes := List.length_take_le ..
    obtain ⟨b₁, hb₁, -, h₁⟩ := put_becomes htake
    obtain ⟨b', hb', h'⟩ := b₁.append_becomes (data.drop b.writableBytes)
    have hn : b₁.readableBytes + (data.drop b.writableBytes).length =
        b.readableBytes + data.length := by
      rw [← length_content, h₁.content, List.length_append, length_content, Nat.add_assoc,
        ← List.length_append, List.take_append_drop]
    rw [h₁.content, List.append_assoc, List.take_append_drop, hn] at h'
    refine ⟨b', by rw [hb₁, Option.bind_some, hb'], ?_⟩
    have := h₁.trans h'
    rwa [Nat.zero_max] at this

theorem content_create (n : ℕ) : (create n).content = [] := by
  rw [← List.length_eq_zero_iff, length_content]
  exact Nat.sub_self _

theorem writableBytes_create (n : ℕ) : (create n).writableBytes = n := by
  simp only [writableBytes, create, List.length_replicate]
  omega

theorem ensureWritableBytes_create (n len : ℕ) :
    ∃ b, (create n).ensureWritableBytes len = some b ∧ b.content = [] ∧ len ≤ b.writableBytes ∧
      kCheapPrepend ≤ b.readerIndex ∧ b.buffer.length = kCheapPrepend + max n len := by
  by_cases h : len ≤ n
  · have hlen : len ≤ (create n).writableBytes := h.trans (writableBytes_create n).ge
    refine ⟨create n, ensureWritableBytes_of_le hlen, content_create n, hlen, le_rfl, ?_⟩
    rw [create, List.length_replicate, Nat.max_eq_left h]
  · have hlt : (create n).writableBytes < len := by
      rw [writableBytes_create]
      omega
    have hsmall : (create n).writableBytes + (create n).prependableBytes < len + kCheapPrepend :=
      Nat.add_lt_add_right hlt _
    obtain ⟨b', hb', hlen, hbecomes⟩ := (create n).ensureWritableBytes_becomes len
    have hb := hb'
    rw [ensureWritableBytes, dif_pos hlt, makeSpace, if_pos hsmall, Option.bind_some] at hb
    obtain ⟨-, ⟨⟩⟩ := Option.ite_none_right_eq_some.mp hb
    refine ⟨_, hb', hbecomes.content.trans (content_create n), hlen, le_rfl, ?_⟩
    rw [length_resize, Nat.max_eq_right (Nat.le_of_not_le h)]
    rfl

/-- `shrink` keeps the content, and gives back the memory that is not needed. -/
theorem shrink_becomes (reserve : ℕ) (h : b.readableBytes < 0x80000000) :
    ∃ b', b.shrink reserve = some b' ∧ b'.content = b.content ∧ kCheapPrepend ≤ b'.readerIndex ∧
      b'.buffer.length = kCheapPrepend + max kInitialSize (b.readableBytes + reserve) := by
  obtain ⟨other, hother, hempty, hlen, hreader, hsize⟩ :=
    ensureWritableBytes_create kInitialSize (b.readableBytes + reserve)
  have hfits : b.content.length ≤ other.writableBytes := by
    rw [length_content]
    exact (Nat.le_add_right ..).trans hlen
  obtain ⟨b', hb', hsize', h'⟩ := put_becomes hfits
  refine ⟨b', ?_, by rw [h'.content, hempty, List.nil_append], ?_, hsize'.trans hsize⟩
  · rw [shrink, hother, Option.bind_some, if_pos h, append, ensureWritableBytes_of_le hfits,
      Option.bind_some, hb']
  · have := h'.headroom
    omega

theorem roomToRead_becomes (b : Buffer) : ∃ b', b.roomToRead = some b' ∧ 0 < b'.writableBytes ∧
    Becomes b b.content (b.readableBytes + 4096) 0 b' := by
  rw [roomToRead]
  split_ifs with h
  · obtain ⟨b', hb', hlen, h'⟩ := b.ensureWritableBytes_becomes 4096
    exact ⟨b', hb', by omega, h'⟩
  · exact ⟨b, rfl, Nat.pos_of_ne_zero h, .refl b _⟩

theorem readFull_becomes (counts : List ℕ) (data : Bytes) (b : Buffer) :
    ∃ b' got rest, readFull counts data b = some (b', rest) ∧ data = got ++ rest ∧
      Becomes b (b.content ++ got) ((b.content ++ got).length + 4096) 0 b' ∧
      (data.length ≤ counts.length → rest = []) := by
  induction counts generalizing data b with
  | nil =>
    obtain ⟨b', hb', -, h'⟩ := b.roomToRead_becomes
    refine ⟨b', [], data, by rw [readFull, hb', Option.map_some], rfl, ?_, fun h => ?_⟩
    · rwa [List.append_nil, length_content]
    · exact List.length_eq_zero_iff.mp (Nat.le_zero.mp h)
  | cons k counts ih =>
    obtain ⟨b₁, hb₁, hpos, h₁⟩ := b.roomToRead_becomes
    rw [readFull, hb₁, Option.bind_some]
    dsimp only
    split_ifs with hrc
    · refine ⟨b₁, [], data, rfl, rfl, ?_, fun _ => ?_⟩
      · rwa [List.append_nil, length_content]
      · exact List.length_eq_zero_iff.mp (by omega)
    · set rc := min (k + 1) (min b₁.writableBytes data.length) with hdef
      have hlen : (data.take rc).length ≤ b₁.writableBytes := by
        rw [List.length_take]
        omega
      obtain ⟨b₂, hb₂, -, h₂⟩ := put_becomes hlen
      obtain ⟨b', got, rest, hb', hdata, h', hall⟩ := ih (data.drop rc) b₂
      rw [h₂.content, h₁.content, List.append_assoc] at h'
      refine ⟨b', data.take rc ++ got, rest, by rw [hb₂, Option.bind_some, hb'], ?_, ?_, ?_⟩
      · rw [List.append_assoc, ← hdata, List.take_append_drop]
      · refine ((h₁.trans h₂).trans h').mono ?_
        rw [List.length_append, length_content]
        omega
      · intro h
        rw [List.length_cons] at h
        refine hall ?_
        rw [List.length_drop]
        omega

/-- `readFull` appends what it reads, which is all that there is if it makes enough calls. -/
theorem readFull_spec (counts : List ℕ) (data : Bytes) (b : Buffer) :
    ∃ b' got rest, readFull counts data b = some (b', rest) ∧ data = got ++ rest ∧
      b'.content = b.content ++ got ∧ min kCheapPrepend b.readerIndex ≤ b'.readerIndex ∧
      (data.length ≤ counts.length → rest = []) := by
  obtain ⟨b', got, rest, hb', hdata, h', hall⟩ := readFull_becomes counts data b
  exact ⟨b', got, rest, hb', hdata, h'.content, h'.headroom, hall⟩

/-! ### Whole runs -/

inductive Op
  | append (data : Bytes)
  | retrieve (len : ℕ)
  | retrieveAll
  | unwrite (len : ℕ)
  | prepend (data : Bytes)
  | ensureWritableBytes (len : ℕ)
  | shrink (reserve : ℕ)
  | readFd (data : Bytes)
  | readFull (counts : List ℕ) (data : Bytes)
deriving DecidableEq, Repr

def step (b : Buffer) : Op → Option Buffer
  | .append data => b.append data
  | .retrieve len => b.retrieve len
  | .retrieveAll => some b.retrieveAll
  | .unwrite len => b.unwrite len
  | .prepend data => b.prepend data
  | .ensureWritableBytes len => b.ensureWritableBytes len
  | .shrink reserve => b.shrink reserve
  | .readFd data => b.readFd data
  | .readFull counts data => (readFull counts data b).map Prod.fst

/-- What is prepended has space in front of the content, `readv` reads no more than it can, and
`readFull` reads until there is nothing left. -/
def Op.Allowed (b : Buffer) : Op → Prop
  | .prepend data => data.length ≤ b.prependableBytes
  | .readFd data => data.length ≤ b.readvLength
  | .readFull counts data => data.length ≤ counts.length
  | _ => True

instance decidableAllowed (b : Buffer) : ∀ op : Op, Decidable (op.Allowed b)
  | .prepend _ | .readFd _ | .readFull _ _ => inferInstanceAs (Decidable (_ ≤ _))
  | .append _ | .retrieve _ | .retrieveAll | .unwrite _ | .ensureWritableBytes _ | .shrink _ =>
    inferInstanceAs (Decidable True)

/-- The space that an operation makes sure of behind the content. -/
def Op.reserve : Op → ℕ
  | .ensureWritableBytes len => len
  | .shrink reserve => reserve
  | .readFull _ _ => 4096
  | .append _ | .retrieve _ | .retrieveAll | .unwrite _ | .prepend _ | .readFd _ => 0

theorem step_size {op : Op} (hstep : b.step op = some b') :
    b'.buffer.length ≤ max (max b.buffer.length (kCheapPrepend + kInitialSize))
      (2 * (b'.content.length + op.reserve) + kCheapPrepend) := by
  cases op with
  | append data =>
    obtain ⟨_, hb', h'⟩ := b.append_becomes data
    cases hstep.symm.trans hb'
    have := h'.size
    rw [h'.content, List.length_append, length_content, Op.reserve]
    omega
  | readFd data =>
    obtain ⟨hlen, -⟩ := Option.ite_none_right_eq_some.mp hstep
    obtain ⟨_, hb', h'⟩ := readFd_becomes hlen
    cases hstep.symm.trans hb'
    have := h'.size
    rw [h'.content, List.length_append, length_content, Op.reserve]
    omega
  | readFull counts data =>
    obtain ⟨_, got, rest, hb', -, h', -⟩ := readFull_becomes counts data b
    rw [step, hb'] at hstep
    cases hstep
    have := h'.size
    dsimp only
    rw [h'.content, Op.reserve]
    omega
  | ensureWritableBytes len =>
    obtain ⟨_, hb', -, h'⟩ := b.ensureWritableBytes_becomes len
    cases hstep.symm.trans hb'
    have := h'.size
    rw [h'.content, length_content, Op.reserve]
    omega
  | shrink reserve =>
    have hint : b.readableBytes < 0x80000000 := by
      by_contra h
      rw [step, shrink] at hstep
      simp only [if_neg h, Option.bind_fun_none] at hstep
      cases hstep
    obtain ⟨_, hb', hcontent, -, hsize⟩ := shrink_becomes reserve hint
    cases hstep.symm.trans hb'
    rw [hcontent, hsize, length_content, Op.reserve]
    omega
  | retrieveAll =>
    cases hstep
    exact (Nat.le_max_left ..).trans (Nat.le_max_left ..)
  | retrieve len =>
    rw [step, retrieve] at hstep
    split_ifs at hstep <;> cases hstep <;> exact (Nat.le_max_left ..).trans (Nat.le_max_left ..)
  | unwrite len =>
    rw [step, unwrite] at hstep
    split_ifs at hstep
    cases hstep
    exact (Nat.le_max_left ..).trans (Nat.le_max_left ..)
  | prepend data =>
    rw [step, prepend] at hstep
    split_ifs at hstep with h
    cases hstep
    exact (length_prepend h).le.trans ((Nat.le_max_left ..).trans (Nat.le_max_left ..))

/-- The vector is never longer than it was or than a new one, or than eight bytes and twice the
largest content there has been together with the largest space that was made sure of. -/
theorem run_size {ops : List Op} {most reserve : ℕ} (hreserve : ∀ op ∈ ops, op.reserve ≤ reserve)
    (hmost : Always step (fun b => b.content.length ≤ most) b ops)
    (hrun : run step b ops = some b') :
    b'.buffer.length ≤ max (max b.buffer.length (kCheapPrepend + kInitialSize))
      (2 * (most + reserve) + kCheapPrepend) := by
  induction ops generalizing b with
  | nil =>
    cases hrun
    exact (Nat.le_max_left ..).trans (Nat.le_max_left ..)
  | cons op ops ih =>
    obtain ⟨b₁, h₁, hrun⟩ := run_cons_eq_some.mp hrun
    obtain ⟨hop, hops⟩ := List.forall_mem_cons.mp hreserve
    have hrest := hmost.2 b₁ h₁
    have := step_size h₁
    have := hrest.head
    have := ih hops hrest hrun
    omega

theorem run_size_grown : ∃ b', run step (create 4) [.append [1, 2, 3], .retrieve 1,
      .append [4, 5, 6, 7, 8, 9, 10, 11], .retrieve 9, .shrink 2, .append [12]] = some b' ∧
    b'.buffer.length ≤ max (max 12 1032) (2 * (10 + 2) + kCheapPrepend) := by
  obtain ⟨b', hb', -⟩ := exists_run_of_test step (create 4) [.append [1, 2, 3], .retrieve 1,
    .append [4, 5, 6, 7, 8, 9, 10, 11], .retrieve 9, .shrink 2, .append [12]] (fun _ => true)
    (by decide +kernel)
  exact ⟨b', hb', run_size (by decide) (by decide +kernel) hb'⟩

end Buffer

end LibWebsocket.Net
