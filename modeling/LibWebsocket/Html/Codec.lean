import LibWebsocket.Http.Parse
import LibWebsocket.Lib.Replace

/-! `htmlcodec.h`: the entities of a table are written and read by replacements, one after the
other. -/
namespace LibWebsocket.Html
open Lib Http

/-- The characters with their entities, in the order of the table; texts are UTF-8. -/
def codes : Table UInt8 :=
  [([38], ascii "&amp;"),
   ([60], ascii "&lt;"),
   ([62], ascii "&gt;"),
   ([34], ascii "&quot;"),
   ([39], ascii "&apos;"),
   ([32], ascii "&nbsp;"),
   ([0xc2, 0xa9], ascii "&copy;"),
   ([0xe2, 0x80, 0xb2], ascii "&prime;"),
   ([0xe2, 0x80, 0xb3], ascii "&Prime;"),
   ([0xe2, 0x88, 0x92], ascii "&minus;"),
   ([0xc3, 0xb7], ascii "&divide;"),
   ([0xe2, 0x88, 0xa7], ascii "&and;"),
   ([0xe2, 0x88, 0xa8], ascii "&or;"),
   ([0xe2, 0x8a, 0xa5], ascii "&perp;"),
   ([0xe2, 0x80, 0x93], ascii "&ndash;"),
   ([0xe2, 0x80, 0x94], ascii "&mdash;"),
   ([0xe2, 0x80, 0x98], ascii "&lsquo;"),
   ([0xe2, 0x80, 0x99], ascii "&rsquo;"),
   ([0xe2, 0x80, 0x9a], ascii "&sbquo;"),
   ([0xe2, 0x80, 0x9c], ascii "&ldquo;"),
   ([0xe2, 0x80, 0x9d], ascii "&rdquo;"),
   ([0xe2, 0x80, 0x9e], ascii "&bdquo;")]

def encode (s : Bytes) : Bytes := codes.foldl (fun rs c => replaceAll c.1 c.2 rs) s

/-- The entities are read in the same order, `&amp;` first. -/
def decode (s : Bytes) : Bytes := codes.foldl (fun rs c => replaceAll c.2 c.1 rs) s

/-- The entities but `&amp;`, with what they are read as. -/
def entities : Table UInt8 := codes.tail.map Prod.swap

/-- The table behind the replacement of `&amp;`: the other characters are still written as
entities. -/
def halfDecoded : Table UInt8 := Table.without (Table.updates [] codes).tail 38

/-- `Encode`, with `&amp;` read back. -/
theorem replaceAll_amp_encode (s : Bytes) :
    replaceAll (ascii "&amp;") [38] (encode s) = substitute halfDecoded s := by
  have hchain : Chain [] codes := by decide +kernel
  have hamp : Compatible (Table.updates [] codes) (ascii "&amp;") := by decide +kernel
  have hencode : encode s = substitute (Table.updates [] codes) s := by
    rw [← foldl_replaceAll hchain, substitute_nil_table]
    rfl
  have htable : (Table.updates [] codes).update (ascii "&amp;") [38] =
      ([38], [38]) :: ((Table.updates [] codes).tail ++ [(ascii "&amp;", [38])]) := by
    decide +kernel
  have hne : ∀ e ∈ (Table.updates [] codes).tail ++ [(ascii "&amp;", [38])], e.1 ≠ [] := by
    decide +kernel
  have hwithout : Table.without ((Table.updates [] codes).tail ++ [(ascii "&amp;", [38])]) 38 =
      halfDecoded := by
    decide +kernel
  rw [hencode, replaceAll_substitute hamp, htable, substitute_cons_self hne, hwithout]

theorem decode_eq (t : Bytes) :
    decode t = entities.foldl (fun rs e => replaceAll e.1 e.2 rs)
      (replaceAll (ascii "&amp;") [38] t) := by
  have hcodes : codes = ([38], ascii "&amp;") :: codes.tail := rfl
  rw [entities, List.foldl_map, decode]
  conv_lhs => rw [hcodes, List.foldl_cons]
  simp only [Prod.fst_swap, Prod.snd_swap]

/-- Every entity begins with `&`. -/
theorem decode_eq_self {s : Bytes} (h : 38 ∉ s) : decode s = s := by
  have hamp : ∀ c ∈ codes, 38 ∈ c.2 := by decide +kernel
  refine List.foldlRecOn (motive := fun rs => rs = s) _ _ rfl fun rs hrs c hc => ?_
  rw [hrs, replaceAll_eq_self (hamp c hc) h]

/-- The round trip reads every entity of the string itself, but `&amp;`. -/
theorem decode_encode (s : Bytes) :
    decode (encode s) = substitute (halfDecoded.updates entities) s := by
  have hchain : Chain halfDecoded entities := by decide +kernel
  rw [decode_eq, replaceAll_amp_encode]
  exact foldl_replaceAll hchain s

/-- A string survives exactly if none of the entities but `&amp;` occurs in it. -/
theorem decode_encode_iff (s : Bytes) :
    decode (encode s) = s ↔ ∀ c ∈ codes.tail, ¬ c.2 <:+: s := by
  have hshrinks : Shrinks (halfDecoded.updates entities) := by decide +kernel
  have hpatterns : ((halfDecoded.updates entities).filter fun f => f.1 ≠ f.2).map Prod.fst =
      codes.tail.map Prod.snd := by
    decide +kernel
  rw [decode_encode, hshrinks.eq_self_iff]
  constructor
  · intro h c hc
    have hmem : c.2 ∈ codes.tail.map Prod.snd := List.mem_map_of_mem hc
    rw [← hpatterns] at hmem
    obtain ⟨f, hf, hfc⟩ := List.mem_map.mp hmem
    rw [List.mem_filter, decide_eq_true_iff] at hf
    rw [← hfc]
    exact h f hf.1 hf.2
  · intro h f hf hne
    have hmem : f.1 ∈ ((halfDecoded.updates entities).filter fun f => f.1 ≠ f.2).map Prod.fst :=
      List.mem_map_of_mem (List.mem_filter.mpr ⟨hf, decide_eq_true hne⟩)
    rw [hpatterns] at hmem
    obtain ⟨c, hc, hcf⟩ := List.mem_map.mp hmem
    rw [← hcf]
    exact h c hc

/-- A text about an entity is read as the character. -/
theorem decode_encode_lt : decode (encode (ascii "&lt;")) ≠ ascii "&lt;" := by
  decide +kernel

end LibWebsocket.Html
