import LibWebsocket.Lib.Numeral
import LibWebsocket.Lib.Run
import Mathlib.Algebra.Order.Ring.Int

/-! The stream that a line of the log is written to (`LogStream.h`, `LogStream.cc`): numbers as
texts, in a buffer of fixed size that takes the whole of what is inserted or nothing. -/
namespace LibWebsocket.Base

open LibWebsocket.Lib

/-- The bytes up to `cur_`. The ones behind it are never read. -/
structure FixedBuffer (SIZE : ℕ) where
  data : Bytes
  length_le : data.length ≤ SIZE
deriving DecidableEq

namespace FixedBuffer

variable {SIZE : ℕ} {b b' : FixedBuffer SIZE} {text rest line : Bytes}

def create (SIZE : ℕ) : FixedBuffer SIZE := ⟨[], Nat.zero_le _⟩

def avail (b : FixedBuffer SIZE) : ℕ := SIZE - b.data.length

theorem length_append_le (h : line.length ≤ b.avail) : (b.data ++ line).length ≤ SIZE := by
  have := b.length_le
  rw [avail] at h
  rw [List.length_append]
  omega

def append (b : FixedBuffer SIZE) (line : Bytes) : FixedBuffer SIZE :=
  if h : line.length < b.avail then ⟨b.data ++ line, length_append_le h.le⟩ else b

/-- `text` and `rest` are written at `current()`, and `text` is added. There is no result if the
bytes are not all in the buffer. -/
def write (b : FixedBuffer SIZE) (text rest : Bytes) : Option (FixedBuffer SIZE) :=
  if h : (text ++ rest).length ≤ b.avail then
    some ⟨b.data ++ text, length_append_le (Nat.le_trans (by simp) h)⟩
  else none

theorem append_of_lt (h : line.length < b.avail) : (b.append line).data = b.data ++ line := by
  rw [append, dif_pos h]

theorem append_of_le (h : b.avail ≤ line.length) : b.append line = b := by
  rw [append, dif_neg (Nat.not_lt.mpr h)]

theorem write_of_le (h : text.length + rest.length ≤ b.avail) :
    ∃ b', b.write text rest = some b' ∧ b'.data = b.data ++ text := by
  rw [← List.length_append] at h
  exact ⟨_, dif_pos h, rfl⟩

end FixedBuffer

/-! ### Numbers -/

/-- The table `digits`, of which `zero` is the middle. -/
def digits : Bytes := [57, 56, 55, 54, 53, 52, 51, 50, 49, 48, 49, 50, 51, 52, 53, 54, 55, 56, 57]

def zero (lsd : ℤ) : UInt8 := digits.getD (9 + lsd).toNat 0

/-- The loop of `convert`, in which `%` and `/` round towards zero. -/
def convertLoop : ℕ → ℤ → Bytes
  | 0, _ => []
  | fuel + 1, i =>
    zero (i.tmod 10) :: if i.tdiv 10 = 0 then [] else convertLoop fuel (i.tdiv 10)

/-- The text without the zero byte behind it. -/
def convert (value : ℤ) : Bytes :=
  let p := convertLoop (value.natAbs + 1) value
  (if value < 0 then p ++ [45] else p).reverse

def digitsHex : Bytes := [48, 49, 50, 51, 52, 53, 54, 55, 56, 57, 65, 66, 67, 68, 69, 70]

def convertHex (value : ℕ) : Bytes := numeral (digitsHex.getD · 0) 16 value

/-- A number with its sign in front. -/
def decimal (v : ℤ) : Bytes :=
  if v < 0 then 45 :: numeral decimalDigit 10 v.natAbs else numeral decimalDigit 10 v.natAbs

/-- The number that a text with a sign stands for. -/
def intValue : Bytes → ℤ
  | 45 :: text => -numeralValue decimalValue 10 text
  | text => numeralValue decimalValue 10 text

theorem zero_eq {d : ℤ} (h : d.natAbs < 10) : zero d = decimalDigit d.natAbs := by
  have htable : ∀ k < 10, zero (k : ℕ) = decimalDigit k ∧ zero (-(k : ℕ)) = decimalDigit k := by
    decide
  obtain ⟨hpos, hneg⟩ := htable _ h
  rcases Int.natAbs_eq d with hd | hd
  · rwa [← hd] at hpos
  · rwa [← hd] at hneg

theorem convertLoop_eq (fuel : ℕ) (i : ℤ) :
    convertLoop fuel i = (lastFirst 10 fuel i.natAbs).map decimalDigit := by
  induction fuel generalizing i with
  | zero => rfl
  | succ fuel ih =>
    have hmod : (i.tmod 10).natAbs = i.natAbs % 10 := Int.natAbs_tmod ..
    have hdiv : (i.tdiv 10).natAbs = i.natAbs / 10 := Int.natAbs_tdiv ..
    have hdigit : zero (i.tmod 10) = decimalDigit (i.natAbs % 10) := by
      rw [← hmod]
      exact zero_eq (by rw [hmod]; exact Nat.mod_lt _ (by decide))
    have hzero : i.tdiv 10 = 0 ↔ i.natAbs / 10 = 0 := by rw [← hdiv, Int.natAbs_eq_zero]
    rw [convertLoop, lastFirst, List.map_cons, hdigit]
    simp only [hzero]
    split_ifs
    · rfl
    · rw [ih, hdiv]

/-- The digits of a negative number are those of its absolute value, which need not be a number of
its type. -/
theorem convert_eq (v : ℤ) : convert v = decimal v := by
  rw [convert, decimal, convertLoop_eq]
  split_ifs
  · rw [List.reverse_append]
    rfl
  · rfl

theorem numeral_ne_minus (n : ℕ) (text : Bytes) : numeral decimalDigit 10 n ≠ 45 :: text := by
  intro h
  have hmem : (45 : UInt8) ∈ numeral decimalDigit 10 n := by
    rw [h]
    exact List.mem_cons_self
  rw [numeral, List.mem_reverse, List.mem_map] at hmem
  obtain ⟨d, hd, hminus⟩ := hmem
  have hlt := lt_of_mem_lastFirst (by decide) hd
  have htable : ∀ k < 10, decimalDigit k ≠ 45 := by decide
  exact htable d hlt hminus

/-- A number is read back from the text that `convert` gives. -/
theorem intValue_convert (v : ℤ) : intValue (convert v) = v := by
  have hvalue := numeralValue_numeral (by decide) (fun _ => decimalValue_decimalDigit) v.natAbs
  rw [convert_eq, decimal]
  split_ifs with hneg
  · rw [intValue, hvalue]
    omega
  · rw [intValue, hvalue]
    · omega
    · exact numeral_ne_minus _

theorem length_decimal_le {v : ℤ} (h : v.natAbs < 10 ^ 20) (hneg : v < 0 → v.natAbs < 10 ^ 19) :
    (decimal v).length ≤ 20 := by
  rw [decimal]
  split_ifs with hv
  · rw [List.length_cons]
    exact Nat.succ_le_succ (length_numeral_le (hneg hv))
  · exact length_numeral_le h

/-! ### The stream -/

def kSmallBuffer : ℕ := 4000

def kMaxNumericSize : ℕ := 32

/-- What is inserted into a stream. A `double` is given by what `snprintf` makes of it. Of the
integers only the value matters. -/
inductive Item
  | bool (v : Bool)
  | signed (v : Int64)
  | unsigned (v : UInt64)
  | pointer (v : UInt64)
  | double (text : Bytes) (short : text.length < kMaxNumericSize)
  | char (v : UInt8)
  | str (str : Option Bytes)
  | piece (v : Bytes)

abbrev LogStream := FixedBuffer kSmallBuffer

namespace LogStream

variable {b b' : LogStream} {text : Bytes} {i : Item} {items : List Item}

def formatNumber (b : LogStream) (text : Bytes) : Option LogStream :=
  if kMaxNumericSize ≤ b.avail then b.write text [0] else some b

def insert (b : LogStream) : Item → Option LogStream
  | .bool v => some (b.append (if v then [49] else [48]))
  | .signed v => b.formatNumber (convert v.toInt)
  | .unsigned v => b.formatNumber (convert v.toNat)
  | .pointer v => b.formatNumber (48 :: 120 :: convertHex v.toNat)
  | .double text _ => b.formatNumber text
  | .char v => some (b.append [v])
  | .str (some s) => some (b.append (s.takeWhile (· ≠ 0)))
  | .str none => some (b.append [40, 110, 117, 108, 108, 41])
  | .piece v => some (b.append v)

end LogStream

/-- The text of an item. -/
def Item.text : Item → Bytes
  | .bool v => if v then [49] else [48]
  | .signed v => decimal v.toInt
  | .unsigned v => decimal v.toNat
  | .pointer v => 48 :: 120 :: convertHex v.toNat
  | .double text _ => text
  | .char v => [v]
  | .str s => (s.map (·.takeWhile (· ≠ 0))).getD [40, 110, 117, 108, 108, 41]
  | .piece v => v

namespace LogStream

variable {b b' : LogStream} {text : Bytes} {i : Item} {items : List Item}

/-- The text has been added, and there is a byte left behind it; or it has not been added, and there
was no space for a text of its length and a number. -/
def Took (b : LogStream) (text : Bytes) (b' : LogStream) : Prop :=
  b'.data = b.data ++ text ∧ b'.data.length < kSmallBuffer ∨
  b' = b ∧ kSmallBuffer < b.data.length + text.length + kMaxNumericSize

theorem took_append (b : LogStream) (text : Bytes) : b.Took text (b.append text) := by
  by_cases h : text.length < b.avail
  · have hdata := FixedBuffer.append_of_lt h
    refine .inl ⟨hdata, ?_⟩
    rw [FixedBuffer.avail] at h
    rw [hdata, List.length_append]
    omega
  · refine .inr ⟨FixedBuffer.append_of_le (Nat.not_lt.mp h), ?_⟩
    rw [FixedBuffer.avail] at h
    rw [kMaxNumericSize]
    have := b.length_le
    omega

theorem took_formatNumber (b : LogStream) (h : text.length < kMaxNumericSize) :
    ∃ b', b.formatNumber text = some b' ∧ b.Took text b' := by
  rw [formatNumber]
  split_ifs with hle
  · obtain ⟨b', hb', hdata⟩ : ∃ b', b.write text [0] = some b' ∧ b'.data = b.data ++ text :=
      FixedBuffer.write_of_le (Nat.le_trans h hle)
    refine ⟨b', hb', .inl ⟨hdata, ?_⟩⟩
    rw [FixedBuffer.avail] at hle
    rw [hdata, List.length_append]
    omega
  · refine ⟨b, rfl, .inr ⟨rfl, ?_⟩⟩
    rw [FixedBuffer.avail] at hle
    omega

theorem length_signed (v : Int64) : (decimal v.toInt).length < kMaxNumericSize := by
  have hlo := v.le_toInt
  have hhi := v.toInt_lt
  refine Nat.lt_of_le_of_lt (length_decimal_le ?_ fun _ => ?_) (show 20 < 32 by decide) <;> omega

theorem length_unsigned (v : UInt64) : (decimal v.toNat).length < kMaxNumericSize := by
  have hlt := v.toNat_lt
  refine Nat.lt_of_le_of_lt (length_decimal_le ?_ fun hneg => ?_) (show 20 < 32 by decide) <;> omega

theorem length_pointer (v : UInt64) :
    (48 :: 120 :: convertHex v.toNat).length < kMaxNumericSize := by
  have hlen : (convertHex v.toNat).length ≤ 16 := length_numeral_le (k := 15) v.toNat_lt
  simp only [List.length_cons, kMaxNumericSize]
  omega

/-- Nothing is written outside the buffer. -/
theorem insert_took (b : LogStream) (i : Item) : ∃ b', b.insert i = some b' ∧ b.Took i.text b' := by
  cases i with
  | bool v => exact ⟨_, rfl, took_append ..⟩
  | signed v =>
    rw [insert, convert_eq]
    exact took_formatNumber b (length_signed v)
  | unsigned v =>
    rw [insert, convert_eq]
    exact took_formatNumber b (length_unsigned v)
  | pointer v => exact took_formatNumber b (length_pointer v)
  | double text short => exact took_formatNumber b short
  | char v => exact ⟨_, rfl, took_append ..⟩
  | str s =>
    cases s with
    | none => exact ⟨_, rfl, took_append ..⟩
    | some s => exact ⟨_, rfl, took_append ..⟩
  | piece v => exact ⟨_, rfl, took_append ..⟩

theorem run_insert (b : LogStream) (items : List Item) : ∃ b' kept,
    run insert b items = some b' ∧ kept.Sublist items ∧
    b'.data = b.data ++ kept.flatMap Item.text ∧
    (b.data.length < kSmallBuffer → b'.data.length < kSmallBuffer) ∧
    (b.data.length + (items.flatMap Item.text).length + kMaxNumericSize ≤ kSmallBuffer →
      kept = items) := by
  induction items generalizing b with
  | nil => exact ⟨b, [], rfl, .refl _, (List.append_nil _).symm, id, fun _ => rfl⟩
  | cons i items ih =>
    obtain ⟨b₁, h₁, htook⟩ := b.insert_took i
    obtain ⟨b', kept, hrun, hsub, hdata, hlt, hall⟩ := ih b₁
    rcases htook with ⟨hdata₁, hlt₁⟩ | ⟨rfl, hfull⟩
    · refine ⟨b', i :: kept, run_cons_eq_some.mpr ⟨b₁, h₁, hrun⟩, hsub.cons_cons i, ?_,
        fun _ => hlt hlt₁, fun hle => ?_⟩
      · rw [hdata, hdata₁, List.flatMap_cons, List.append_assoc]
      · rw [hall]
        rw [hdata₁, List.length_append]
        rw [List.flatMap_cons, List.length_append] at hle
        omega
    · refine ⟨b', kept, run_cons_eq_some.mpr ⟨b₁, h₁, hrun⟩, hsub.cons i, hdata, hlt,
        fun hle => ?_⟩
      rw [List.flatMap_cons, List.length_append] at hle
      omega

/-- Whatever is inserted into a stream, nothing is written outside its buffer, of which a byte stays
free, and the line is made of the whole texts of some of the items, in their order: of all of them,
if that leaves the space for one more number. -/
theorem stream_keeps_whole_items (items : List Item) : ∃ b kept,
    run insert (.create kSmallBuffer) items = some b ∧ kept.Sublist items ∧
    b.data = kept.flatMap Item.text ∧ b.data.length < kSmallBuffer ∧
    ((items.flatMap Item.text).length + kMaxNumericSize ≤ kSmallBuffer → kept = items) := by
  obtain ⟨b, kept, hrun, hsub, hdata, hlt, hall⟩ := run_insert (.create kSmallBuffer) items
  refine ⟨b, kept, hrun, hsub, hdata, hlt (by decide), fun hle => hall ?_⟩
  rwa [FixedBuffer.create, List.length_nil, Nat.zero_add]

end LogStream

end LibWebsocket.Base
