import Mathlib.Data.List.Find
import Mathlib.Data.List.Infix
import Mathlib.Tactic.Common

/-! Replacing the occurrences of patterns in a list: of one pattern, and of the patterns of a table
in one scan from left to right. Replacements made one after the other are such a scan where no
pattern is touched by what the others write. -/
namespace LibWebsocket.Lib

variable {α : Type*} [DecidableEq α]

/-- Patterns with what replaces them; the first that matches counts. -/
abbrev Table (α : Type*) := List (List α × List α)

/-- The entry that applies at the beginning of a list. -/
def Table.match? (T : Table α) (s : List α) : Option (List α × List α) := T.find? (·.1 <+: s)

/-- Replace the patterns of the table behind the first `k` elements, which are left out. -/
def scan (T : Table α) : ℕ → List α → List α
  | _, [] => []
  | k + 1, _ :: s => scan T k s
  | 0, c :: s =>
    match T.match? (c :: s) with
    | some e => e.2 ++ scan T (e.1.length - 1) s
    | none => c :: scan T 0 s

def substitute (T : Table α) (s : List α) : List α := scan T 0 s

/-- The occurrences of one pattern that do not overlap. -/
def replaceAll (p q s : List α) : List α := substitute [(p, q)] s

section Equations
variable {T : Table α} {s r : List α} {c : α} {e : List α × List α}

theorem mem_of_match? (h : T.match? s = some e) : e ∈ T := List.mem_of_find?_eq_some h

theorem prefix_of_match? (h : T.match? s = some e) : e.1 <+: s := by
  have hpre := List.find?_some h
  simpa using hpre

theorem match?_eq_none_iff : T.match? s = none ↔ ∀ e ∈ T, ¬ e.1 <+: s := by
  simp [Table.match?]

theorem scan_eq_drop (k : ℕ) (s : List α) : scan T k s = substitute T (s.drop k) := by
  induction s generalizing k with
  | nil => cases k <;> rfl
  | cons c s ih =>
    cases k with
    | zero => rfl
    | succ k => exact ih k

theorem substitute_of_none (h : T.match? (c :: s) = none) :
    substitute T (c :: s) = c :: substitute T s := by
  rw [substitute, scan, h]
  rfl

theorem substitute_of_some (he : e.1 ≠ []) (h : T.match? (e.1 ++ r) = some e) :
    substitute T (e.1 ++ r) = e.2 ++ substitute T r := by
  obtain ⟨p, q⟩ := e
  obtain ⟨c, p, rfl⟩ := List.exists_cons_of_ne_nil he
  have hskip : scan T p.length (p ++ r) = substitute T r := by
    rw [scan_eq_drop, List.drop_left]
  rw [List.cons_append] at h ⊢
  rw [substitute, scan, h]
  exact congrArg (q ++ ·) hskip

@[simp] theorem substitute_nil_table (s : List α) : substitute [] s = s := by
  induction s with
  | nil => rfl
  | cons c s ih => rw [substitute_of_none rfl, ih]

/-- Induction along the scan. -/
theorem scan_induction (hT : ∀ e ∈ T, e.1 ≠ []) {motive : List α → Prop} (nil : motive [])
    (raw : ∀ c s, T.match? (c :: s) = none → motive s → motive (c :: s))
    (hit : ∀ e r, T.match? (e.1 ++ r) = some e → motive r → motive (e.1 ++ r)) (s : List α) :
    motive s := by
  induction hn : s.length using Nat.strong_induction_on generalizing s with
  | _ n ih =>
    cases s with
    | nil => exact nil
    | cons c s =>
      rw [List.length_cons] at hn
      cases hmatch : T.match? (c :: s) with
      | none => exact raw c s hmatch (ih s.length (by omega) s rfl)
      | some e =>
        have hpos := List.length_pos_of_ne_nil (hT e (mem_of_match? hmatch))
        obtain ⟨r, hr⟩ := prefix_of_match? hmatch
        have hlen := congrArg List.length hr
        rw [List.length_append, List.length_cons] at hlen
        rw [← hr] at hmatch ⊢
        exact hit e r hmatch (ih r.length (by omega) r rfl)

end Equations

/-- The first elements of the lists. -/
def heads (ls : List (List α)) : List α := ls.filterMap List.head?

section Raw
variable {T : Table α} {s r u : List α} {c : α}

theorem match?_eq_none_of_head (hT : ∀ e ∈ T, e.1 ≠ []) (hc : c ∉ heads (T.map Prod.fst)) :
    T.match? (c :: s) = none := by
  rw [match?_eq_none_iff]
  intro e he hpre
  obtain ⟨d, t, hd⟩ := List.exists_cons_of_ne_nil (hT e he)
  rw [hd, List.cons_prefix_cons] at hpre
  refine hc (List.mem_filterMap.mpr ⟨e.1, List.mem_map_of_mem he, ?_⟩)
  rw [hd, hpre.1]
  rfl

/-- Where no pattern starts nothing is replaced. -/
theorem substitute_append (hT : ∀ e ∈ T, e.1 ≠ [])
    (hu : ∀ c ∈ u, c ∉ heads (T.map Prod.fst)) :
    substitute T (u ++ r) = u ++ substitute T r := by
  induction u with
  | nil => rfl
  | cons c u ih =>
    rw [List.forall_mem_cons] at hu
    rw [List.cons_append, substitute_of_none (match?_eq_none_of_head hT hu.1), ih hu.2]
    rfl

/-- What no replacement starts with was there before. -/
theorem prefix_of_prefix_substitute (hT : ∀ e ∈ T, e.1 ≠ [] ∧ e.2 ≠ [])
    (hu : ∀ c ∈ u, c ∉ heads (T.map Prod.snd)) (h : u <+: substitute T s) : u <+: s := by
  induction s using scan_induction fun e he => (hT e he).1 generalizing u with
  | nil => exact h
  | raw c s hmatch ih =>
    rw [substitute_of_none hmatch] at h
    cases u with
    | nil => exact List.nil_prefix
    | cons d u =>
      rw [List.forall_mem_cons] at hu
      rw [List.cons_prefix_cons] at h ⊢
      exact ⟨h.1, ih hu.2 h.2⟩
  | hit e r hmatch _ =>
    have he := mem_of_match? hmatch
    obtain ⟨b, t, hb⟩ := List.exists_cons_of_ne_nil (hT e he).2
    rw [substitute_of_some (hT e he).1 hmatch, hb] at h
    cases u with
    | nil => exact List.nil_prefix
    | cons d u =>
      rw [List.cons_append, List.cons_prefix_cons] at h
      refine absurd (List.mem_filterMap.mpr ⟨e.2, List.mem_map_of_mem he, ?_⟩)
        (hu d List.mem_cons_self)
      rw [hb, h.1]
      rfl

end Raw

/-- No occurrence of `p` starts inside `b`. -/
def Inert (p b : List α) : Prop := ∀ t ∈ b.tails, t ≠ [] → ¬ t <+: p ∧ ¬ p <+: t

instance (p b : List α) : Decidable (Inert p b) := inferInstanceAs (Decidable (∀ t ∈ b.tails, _))

section Single
variable {p q b r s : List α} {c : α}

omit [DecidableEq α] in
theorem Inert.ne (h : Inert p b) (hb : b ≠ []) : b ≠ p := by
  rintro rfl
  exact (h b ((List.mem_tails b b).mpr (List.suffix_refl b)) hb).1 (List.prefix_refl b)

theorem replaceAll_cons_of_not (h : ¬ p <+: c :: s) :
    replaceAll p q (c :: s) = c :: replaceAll p q s :=
  substitute_of_none (match?_eq_none_iff.mpr (by simpa using h))

/-- A pattern with an element that does not occur is not found. -/
theorem replaceAll_eq_self (hc : c ∈ p) (hs : c ∉ s) : replaceAll p q s = s := by
  induction s with
  | nil => rfl
  | cons d s ih =>
    have hnot : ¬ p <+: d :: s := fun hpre => hs (hpre.subset hc)
    rw [replaceAll_cons_of_not hnot, ih fun h => hs (List.mem_cons_of_mem d h)]

theorem replaceAll_append_self (hp : p ≠ []) : replaceAll p q (p ++ r) = q ++ replaceAll p q r :=
  substitute_of_some (e := (p, q)) hp (by simp [Table.match?])

theorem replaceAll_append (h : Inert p b) : replaceAll p q (b ++ r) = b ++ replaceAll p q r := by
  induction b with
  | nil => rfl
  | cons c b ih =>
    rw [Inert, List.tails_cons, List.forall_mem_cons] at h
    obtain ⟨hleft, hright⟩ := h.1 (List.cons_ne_nil c b)
    have hnot : ¬ p <+: c :: (b ++ r) := fun hpre =>
      (List.prefix_or_prefix_of_prefix hpre (List.prefix_append (c :: b) r)).elim hright hleft
    rw [List.cons_append, replaceAll_cons_of_not hnot, ih h.2]
    rfl

end Single

/-- `p` can be replaced behind the table: nothing of the table starts inside it, and what the
table writes either is `p` or does not touch it. -/
structure Compatible (T : Table α) (p : List α) : Prop where
  ne : p ≠ []
  table : ∀ e ∈ T, e.1 ≠ [] ∧ e.2 ≠ []
  left : ∀ c ∈ p.tail, c ∉ heads (T.map Prod.fst)
  right : ∀ c ∈ p.tail, c ∉ heads (T.map Prod.snd)
  write : ∀ e ∈ T, e.2 = p ∨ Inert p e.2

instance (T : Table α) (p : List α) : Decidable (Compatible T p) :=
  decidable_of_iff (p ≠ [] ∧ (∀ e ∈ T, e.1 ≠ [] ∧ e.2 ≠ []) ∧
      (∀ c ∈ p.tail, c ∉ heads (T.map Prod.fst)) ∧ (∀ c ∈ p.tail, c ∉ heads (T.map Prod.snd)) ∧
      ∀ e ∈ T, e.2 = p ∨ Inert p e.2)
    ⟨fun ⟨h₁, h₂, h₃, h₄, h₅⟩ => ⟨h₁, h₂, h₃, h₄, h₅⟩,
      fun h => ⟨h.ne, h.table, h.left, h.right, h.write⟩⟩

/-- The table of both replacements. -/
def Table.update (T : Table α) (p q : List α) : Table α :=
  T.map (fun e => (e.1, if e.2 = p then q else e.2)) ++ [(p, q)]

section Update
variable {T : Table α} {p q : List α}

theorem match?_update (s : List α) :
    (T.update p q).match? s =
      ((T.match? s).map fun e => (e.1, if e.2 = p then q else e.2)).or
        (if p <+: s then some (p, q) else none) := by
  rw [Table.match?, Table.update, List.find?_append, List.find?_map, List.find?_singleton]
  simp [Table.match?]

/-- A `p` at which the table does not start is left alone. -/
theorem Compatible.substitute_append (h : Compatible T p) {r : List α}
    (hmatch : T.match? (p ++ r) = none) : substitute T (p ++ r) = p ++ substitute T r := by
  obtain ⟨d, t, rfl⟩ := List.exists_cons_of_ne_nil h.ne
  have hleft : ∀ c ∈ t, c ∉ heads (T.map Prod.fst) := h.left
  rw [List.cons_append] at hmatch ⊢
  rw [substitute_of_none hmatch, List.cons_append,
    Lib.substitute_append (fun e he => (h.table e he).1) hleft]

/-- Replacing `p` in what a table writes is one scan with the table of both. -/
theorem replaceAll_substitute (h : Compatible T p) (s : List α) :
    replaceAll p q (substitute T s) = substitute (T.update p q) s := by
  have hT : ∀ e ∈ T.update p q, e.1 ≠ [] := by
    intro e he
    rcases List.mem_append.mp he with hmap | hlast
    · obtain ⟨f, hf, rfl⟩ := List.mem_map.mp hmap
      exact (h.table f hf).1
    · rw [List.mem_singleton.mp hlast]
      exact h.ne
  induction s using scan_induction hT with
  | nil => rfl
  | raw c s hupdate ih =>
    have hnone := hupdate
    rw [match?_update, Option.or_eq_none_iff, Option.map_eq_none_iff] at hnone
    obtain ⟨hmatch, hp⟩ := hnone
    have hpre : ¬ p <+: c :: s := fun hpre => by simp [hpre] at hp
    -- What stands behind the first element of `p` is not written by the table.
    have hnot : ¬ p <+: c :: substitute T s := by
      obtain ⟨d, t, rfl⟩ := List.exists_cons_of_ne_nil h.ne
      rw [List.cons_prefix_cons] at hpre ⊢
      exact fun hp => hpre ⟨hp.1, prefix_of_prefix_substitute h.table h.right hp.2⟩
    rw [substitute_of_none hmatch, substitute_of_none hupdate, replaceAll_cons_of_not hnot, ih]
  | hit e r hupdate ih =>
    rw [substitute_of_some (hT e (mem_of_match? hupdate)) hupdate, ← ih]
    rw [match?_update] at hupdate
    cases hmatch : T.match? (e.1 ++ r) with
    | none =>
      rw [hmatch, Option.map_none, Option.none_or] at hupdate
      split_ifs at hupdate with hpre
      obtain rfl := Option.some.inj hupdate
      rw [h.substitute_append hmatch, replaceAll_append_self h.ne]
    | some f =>
      rw [hmatch, Option.map_some, Option.some_or, Option.some.injEq] at hupdate
      have hf := h.table f (mem_of_match? hmatch)
      obtain rfl := hupdate
      rw [substitute_of_some hf.1 hmatch]
      rcases h.write f (mem_of_match? hmatch) with hp | hinert
      · rw [hp, replaceAll_append_self h.ne, if_pos rfl]
      · rw [replaceAll_append hinert, if_neg (hinert.ne hf.2)]

/-- The replacements can be made one after the other behind the table. -/
def Chain : Table α → Table α → Prop
  | _, [] => True
  | T, e :: rs => Compatible T e.1 ∧ Chain (T.update e.1 e.2) rs

instance Chain.decidable : (T rs : Table α) → Decidable (Chain T rs)
  | _, [] => inferInstanceAs (Decidable True)
  | T, e :: rs =>
    have := Chain.decidable (T.update e.1 e.2) rs
    inferInstanceAs (Decidable (_ ∧ _))

def Table.updates (T rs : Table α) : Table α := rs.foldl (fun T e => T.update e.1 e.2) T

/-- Replacements one after the other are one scan. -/
theorem foldl_replaceAll {rs : Table α} (h : Chain T rs) (s : List α) :
    rs.foldl (fun s e => replaceAll e.1 e.2 s) (substitute T s) =
      substitute (T.updates rs) s := by
  induction rs generalizing T with
  | nil => rfl
  | cons e rs ih =>
    rw [List.foldl_cons, replaceAll_substitute h.1, ih h.2, Table.updates, Table.updates,
      List.foldl_cons]

end Update

/-- The patterns that do not start with `c`. -/
def Table.without (T : Table α) (c : α) : Table α := T.filter (·.1.head? ≠ some c)

section Self
variable {T : Table α} {c : α}

theorem match?_without_self (hT : ∀ e ∈ T, e.1 ≠ []) (s : List α) :
    (T.without c).match? (c :: s) = none := by
  rw [match?_eq_none_iff]
  intro e he hpre
  obtain ⟨hmem, hhead⟩ := List.mem_filter.mp he
  obtain ⟨d, t, hd⟩ := List.exists_cons_of_ne_nil (hT e hmem)
  rw [hd, List.cons_prefix_cons] at hpre
  rw [hd, hpre.1] at hhead
  simp at hhead

theorem match?_without {d : α} (hT : ∀ e ∈ T, e.1 ≠ []) (hd : d ≠ c) (s : List α) :
    (T.without c).match? (d :: s) = T.match? (d :: s) := by
  rw [Table.match?, Table.match?, Table.without, List.find?_filter]
  refine List.find?_congr fun e he => ?_
  obtain ⟨b, t, hb⟩ := List.exists_cons_of_ne_nil (hT e he)
  have himp : b = d → b ≠ c := fun h => h ▸ hd
  simp only [hb, List.head?_cons, List.cons_prefix_cons, Bool.decide_and]
  by_cases hbd : b = d
  · simp [himp hbd]
  · simp [hbd]

/-- A single element that is replaced by itself is left out, with the patterns that it hides. -/
theorem substitute_cons_self (hT : ∀ e ∈ T, e.1 ≠ []) (s : List α) :
    substitute (([c], [c]) :: T) s = substitute (T.without c) s := by
  have hwithout : ∀ e ∈ T.without c, e.1 ≠ [] := fun e he => hT e (List.mem_of_mem_filter he)
  have hcons : ∀ d s, d ≠ c → Table.match? (([c], [c]) :: T) (d :: s) = T.match? (d :: s) :=
    fun d s hd => List.find?_cons_of_neg (by simp [Ne.symm hd])
  have hself : ∀ s, Table.match? (([c], [c]) :: T) ([c] ++ s) = some ([c], [c]) := fun s =>
    List.find?_cons_of_pos (by simp)
  induction s using scan_induction hwithout with
  | nil => rfl
  | raw d s hmatch ih =>
    by_cases hd : d = c
    · subst hd
      have hleft : substitute (([d], [d]) :: T) (d :: s) = [d] ++ substitute (([d], [d]) :: T) s :=
        substitute_of_some (e := ([d], [d])) (List.cons_ne_nil d []) (hself s)
      rw [hleft, substitute_of_none hmatch, ih]
      rfl
    · have hleft : Table.match? (([c], [c]) :: T) (d :: s) = none := by
        rw [hcons d s hd, ← match?_without hT hd, hmatch]
      rw [substitute_of_none hleft, substitute_of_none hmatch, ih]
  | hit e r hmatch ih =>
    have he := hwithout e (mem_of_match? hmatch)
    have hleft : Table.match? (([c], [c]) :: T) (e.1 ++ r) = some e := by
      obtain ⟨d, t, hd⟩ := List.exists_cons_of_ne_nil he
      rw [hd, List.cons_append] at hmatch ⊢
      have hne : d ≠ c := by
        rintro rfl
        rw [match?_without_self hT] at hmatch
        cases hmatch
      rw [hcons d _ hne, ← match?_without hT hne, hmatch]
    rw [substitute_of_some he hleft, substitute_of_some he hmatch, ih]

end Self

section Shrink

/-- The patterns that are not replaced by themselves become shorter, and no other pattern reaches
into them. -/
structure Shrinks (T : Table α) : Prop where
  ne : ∀ e ∈ T, e.1 ≠ []
  shorter : ∀ e ∈ T, e.1 = e.2 ∨ e.2.length < e.1.length
  apart : ∀ e ∈ T, ∀ f ∈ T, f.1 ≠ f.2 →
    (∀ c ∈ e.1.tail, f.1.head? ≠ some c) ∧ (e.1 = e.2 → e.1.head? ≠ f.1.head?)

instance (T : Table α) : Decidable (Shrinks T) :=
  decidable_of_iff ((∀ e ∈ T, e.1 ≠ []) ∧ (∀ e ∈ T, e.1 = e.2 ∨ e.2.length < e.1.length) ∧
      ∀ e ∈ T, ∀ f ∈ T, f.1 ≠ f.2 →
        (∀ c ∈ e.1.tail, f.1.head? ≠ some c) ∧ (e.1 = e.2 → e.1.head? ≠ f.1.head?))
    ⟨fun ⟨h₁, h₂, h₃⟩ => ⟨h₁, h₂, h₃⟩, fun h => ⟨h.ne, h.shorter, h.apart⟩⟩

variable {T : Table α} {s : List α}

theorem Shrinks.length_le (h : Shrinks T) (s : List α) :
    (substitute T s).length ≤ s.length := by
  induction s using scan_induction h.ne with
  | nil => exact Nat.le_refl _
  | raw c s hmatch ih =>
    rw [substitute_of_none hmatch, List.length_cons, List.length_cons]
    omega
  | hit e r hmatch ih =>
    have he := mem_of_match? hmatch
    rw [substitute_of_some (h.ne e he) hmatch, List.length_append, List.length_append]
    rcases h.shorter e he with heq | hlt
    · rw [heq]
      omega
    · omega

omit [DecidableEq α] in
/-- What is left as it is does not reach into a pattern that becomes shorter. -/
theorem Shrinks.infix_of_append (h : Shrinks T) {e f : List α × List α} {r : List α} (he : e ∈ T)
    (heq : e.1 = e.2) (hf : f ∈ T) (hne : f.1 ≠ f.2) (hs : f.1 <:+: e.1 ++ r) : f.1 <:+: r := by
  obtain ⟨htail, hhead⟩ := h.apart e he f hf hne
  obtain ⟨u, v, huv⟩ := hs
  rw [List.append_assoc] at huv
  rcases List.append_eq_append_iff.mp huv with ⟨t, het, hft⟩ | ⟨t, -, hr⟩
  · cases t with
    | nil => exact ⟨[], v, hft⟩
    | cons c t =>
      -- The pattern starts with an element of `e.1`.
      have hc : f.1.head? = some c := by
        obtain ⟨d, w, hd⟩ := List.exists_cons_of_ne_nil (h.ne f hf)
        rw [hd, List.cons_append, List.cons_append] at hft
        rw [hd, (List.cons.inj hft).1]
        rfl
      cases u with
      | nil => exact absurd (by rw [het, hc]; rfl) (hhead heq)
      | cons d u => exact absurd hc (htail c (by rw [het]; simp))
  · exact ⟨t, v, by rw [List.append_assoc, hr]⟩

/-- An occurrence of a pattern that becomes shorter is found. -/
theorem Shrinks.length_lt (h : Shrinks T) {f : List α × List α} (hf : f ∈ T) (hne : f.1 ≠ f.2)
    (hs : f.1 <:+: s) : (substitute T s).length < s.length := by
  induction s using scan_induction h.ne with
  | nil => exact absurd (List.infix_nil.mp hs) (h.ne f hf)
  | raw c s hmatch ih =>
    rcases List.infix_cons_iff.mp hs with hpre | hocc
    · exact absurd hpre (match?_eq_none_iff.mp hmatch f hf)
    · have hlt := ih hocc
      rw [substitute_of_none hmatch, List.length_cons, List.length_cons]
      omega
  | hit e r hmatch ih =>
    have he := mem_of_match? hmatch
    rw [substitute_of_some (h.ne e he) hmatch, List.length_append, List.length_append]
    by_cases heq : e.1 = e.2
    · -- The occurrence lies behind what is left as it is.
      have hlt := ih (h.infix_of_append he heq hf hne hs)
      rw [heq]
      omega
    · have hlt := (h.shorter e he).resolve_left heq
      have hle := h.length_le r
      omega

theorem Shrinks.eq_self_iff (h : Shrinks T) (s : List α) :
    substitute T s = s ↔ ∀ f ∈ T, f.1 ≠ f.2 → ¬ f.1 <:+: s := by
  constructor
  · intro heq f hf hne hs
    have hlt := h.length_lt hf hne hs
    rw [heq] at hlt
    exact lt_irrefl _ hlt
  · intro hs
    induction s using scan_induction h.ne with
    | nil => rfl
    | raw c s hmatch ih =>
      rw [substitute_of_none hmatch,
        ih fun f hf hne hocc => hs f hf hne (List.infix_cons hocc)]
    | hit e r hmatch ih =>
      have he := mem_of_match? hmatch
      have heq : e.1 = e.2 := by
        by_contra hne
        exact hs e he hne (List.prefix_append e.1 r).isInfix
      rw [substitute_of_some (h.ne e he) hmatch, ← heq,
        ih fun f hf hne hocc => hs f hf hne (hocc.trans (List.suffix_append e.1 r).isInfix)]

end Shrink

end LibWebsocket.Lib
