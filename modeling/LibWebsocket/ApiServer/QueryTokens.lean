import LibWebsocket.ApiServer.Query

/-! What `parseQuery` makes of a query written as tokens between `&`. -/
namespace LibWebsocket.ApiServer
open Lib Http

/-- The tokens joined by `&`, with or without a `?` in front. -/
def query (lead : Bool) (tokens : List Bytes) : Bytes :=
  (if lead then [63] else []) ++ [38].intercalate tokens

/-- The value that the last token with this key gives it; the first `=` ends the key. -/
def lastValue (tokens : List Bytes) (key : Bytes) : Option Bytes :=
  (tokens.filterMap (cut 61)).reverse.lookup key

/-- The keys are those of the tokens, each with its last value. -/
def HttpParams.Fills (params : HttpParams) (tokens : List Bytes) : Prop :=
  ∀ key, params.lookup key = lastValue tokens key

/-- From the first `?` on, inside the token that has it. -/
def behindMark : List Bytes → Option (List Bytes)
  | [] => none
  | token :: tokens =>
    match cut 63 token with
    | some (_, rest) => some (rest :: tokens)
    | none => behindMark tokens

/-- The tokens up to the first one without `=`, behind the first `?` of the query. -/
def readTokens (lead : Bool) (tokens : List Bytes) : List Bytes :=
  (if lead then tokens else (behindMark tokens).getD tokens).takeWhile (61 ∈ ·)

section Set
variable {params : HttpParams} {key key' val : Bytes}

theorem HttpParams.lookup_set :
    (params.set key val).lookup key' = if key' = key then some val else params.lookup key' := by
  rw [HttpParams.set, List.lookup_cons]
  split_ifs with h
  · rw [beq_iff_eq.mpr h]
  · rw [beq_eq_false_iff_ne.mpr h]
    -- What `set` removes has another key.
    induction params with
    | nil => rfl
    | cons p params ih =>
      obtain ⟨k, v⟩ := p
      rw [List.filter_cons]
      split_ifs with hk
      · simp only [List.lookup_cons, ih]
      · obtain rfl : k = key := by simpa using hk
        rw [ih, List.lookup_cons, beq_eq_false_iff_ne.mpr h]

/-- What a token does to the parameters. -/
def HttpParams.assign (params : HttpParams) (token : Bytes) : HttpParams :=
  (cut 61 token).elim params fun p => params.set p.1 p.2

theorem lookup_foldl_assign {tokens : List Bytes} :
    (tokens.foldl HttpParams.assign params).lookup key =
      (lastValue tokens key).or (params.lookup key) := by
  induction tokens generalizing params with
  | nil => rfl
  | cons token tokens ih =>
    rw [List.foldl_cons, ih, HttpParams.assign, lastValue, lastValue]
    cases hcut : cut 61 token with
    | none => rw [List.filterMap_cons_none hcut, Option.elim_none]
    | some p =>
      rw [List.filterMap_cons_some hcut, List.reverse_cons, List.lookup_append, Option.or_assoc,
        Option.elim_some, HttpParams.lookup_set, List.lookup_singleton]
      congr 1
      by_cases h : key = p.1 <;> simp [h]

end Set

section Loop
variable {params : HttpParams} {tokens : List Bytes} {fuel : ℕ}

theorem intercalate_cons_cons {token token' : Bytes} :
    [38].intercalate (token :: token' :: tokens) =
      token ++ 38 :: [38].intercalate (token' :: tokens) := by
  simp [List.intercalate]

theorem length_le_length_intercalate :
    tokens.length ≤ ([38].intercalate tokens : Bytes).length + 1 := by
  induction tokens with
  | nil => simp
  | cons token tokens ih =>
    cases tokens with
    | nil => simp
    | cons token' tokens =>
      simp only [intercalate_cons_cons, List.length_append, List.length_cons] at ih ⊢
      omega

/-- The loop assigns the tokens up to the first one without `=`. -/
theorem parseQueryLoop_intercalate (h : ∀ t ∈ tokens, 38 ∉ t) (hfuel : tokens.length ≤ fuel) :
    parseQueryLoop fuel ([38].intercalate tokens) params =
      (tokens.takeWhile (61 ∈ ·)).foldl HttpParams.assign params := by
  induction tokens generalizing fuel params with
  | nil => cases fuel <;> rfl
  | cons token tokens ih =>
    obtain ⟨fuel, rfl⟩ : ∃ n, fuel = n + 1 := ⟨fuel - 1, by simp at hfuel; omega⟩
    rw [List.forall_mem_cons] at h
    rw [List.length_cons, Nat.add_le_add_iff_right] at hfuel
    rw [parseQueryLoop]
    cases tokens with
    | nil =>
      have hamp : cut 38 token = none := cut_eq_none_iff.mpr h.1
      rw [List.intercalate_singleton, hamp]
      cases hcut : cut 61 token with
      | none => simp [cut_eq_none_iff.mp hcut]
      | some p => simp [mem_of_cut hcut, HttpParams.assign, hcut]
    | cons token' tokens =>
      have hamp : cut 38 ([38].intercalate (token :: token' :: tokens)) =
          some (token, [38].intercalate (token' :: tokens)) := by
        rw [intercalate_cons_cons, cut_append_cons h.1]
      rw [hamp, intercalate_cons_cons]
      cases hcut : cut 61 token with
      | none =>
        -- The first `=`, if there is one, stands behind the `&`.
        have hmem : 61 ∉ token := cut_eq_none_iff.mp hcut
        rw [cut_append_of_notMem hmem]
        cases cut 61 (38 :: [38].intercalate (token' :: tokens)) with
        | none => simp [hmem]
        | some p => simp [hmem]
      | some p =>
        obtain ⟨key, val⟩ := p
        obtain ⟨rfl, -⟩ := cut_eq_some hcut
        have hassign : params.assign (key ++ 61 :: val) = params.set key val := by
          rw [HttpParams.assign, hcut]
          rfl
        have hval : (key ++ 61 :: val).drop (key.length + 1) = val := by simp
        have hlt : key.length < (key ++ 61 :: val).length := by simp
        have htake : ((key ++ 61 :: val) :: token' :: tokens).takeWhile (61 ∈ ·) =
            (key ++ 61 :: val) :: (token' :: tokens).takeWhile (61 ∈ ·) :=
          List.takeWhile_cons_of_pos (by simp)
        rw [cut_append_of_eq_some hcut, htake, List.foldl_cons, hassign, ← ih h.2 hfuel]
        simp only [hlt, if_true, hval]

end Loop

section Mark
variable {tokens : List Bytes}

/-- The first `?` of the query, found in its token. -/
theorem cut_intercalate :
    (cut 63 ([38].intercalate tokens)).map Prod.snd =
      (behindMark tokens).map [38].intercalate := by
  induction tokens with
  | nil => rfl
  | cons token tokens ih =>
    rw [behindMark]
    cases tokens with
    | nil =>
      rw [List.intercalate_singleton]
      cases cut 63 token with
      | none => rfl
      | some p => simp
    | cons token' tokens =>
      rw [intercalate_cons_cons]
      cases hcut : cut 63 token with
      | none =>
        have hmem : 63 ∉ token ++ [38] := by simp [cut_eq_none_iff.mp hcut]
        rw [← ih, List.append_cons, cut_append_of_notMem hmem, Option.map_map]
        rfl
      | some p => simp [cut_append_of_eq_some hcut]

theorem behindMark_amp {rest : List Bytes} (h : ∀ t ∈ tokens, 38 ∉ t)
    (hrest : behindMark tokens = some rest) : ∀ t ∈ rest, 38 ∉ t := by
  induction tokens with
  | nil => cases hrest
  | cons token tokens ih =>
    rw [List.forall_mem_cons] at h
    rw [behindMark] at hrest
    cases hcut : cut 63 token with
    | none =>
      rw [hcut] at hrest
      exact ih h.2 hrest
    | some p =>
      rw [hcut] at hrest
      cases hrest
      have hsub : 38 ∉ p.2 := fun hm => h.1 (by rw [(cut_eq_some hcut).1]; simp [hm])
      exact List.forall_mem_cons.mpr ⟨hsub, h.2⟩

end Mark

variable {lead : Bool} {tokens : List Bytes}

theorem parseQuery_eq_foldl (h : ∀ t ∈ tokens, 38 ∉ t) :
    parseQuery (query lead tokens) = (readTokens lead tokens).foldl HttpParams.assign [] := by
  have hloop : ∀ rest : List Bytes, (∀ t ∈ rest, 38 ∉ t) →
      parseQueryLoop (([38].intercalate rest).length + 1) ([38].intercalate rest) [] =
        (rest.takeWhile (61 ∈ ·)).foldl HttpParams.assign [] := fun rest hrest =>
    parseQueryLoop_intercalate hrest length_le_length_intercalate
  cases lead with
  | true => exact hloop tokens h
  | false =>
    have hcut : (cut 63 ([38].intercalate tokens)).map Prod.snd =
        (behindMark tokens).map [38].intercalate := cut_intercalate
    rw [parseQuery, readTokens]
    cases hmark : behindMark tokens with
    | none =>
      rw [hmark, Option.map_none, Option.map_eq_none_iff] at hcut
      have hnone : cut 63 (query false tokens) = none := hcut
      rw [hnone]
      exact hloop tokens h
    | some rest =>
      rw [hmark, Option.map_some, Option.map_eq_some_iff] at hcut
      obtain ⟨⟨skipped, subStr⟩, hsome, rfl⟩ := hcut
      have hsome' : cut 63 (query false tokens) = some (skipped, [38].intercalate rest) := hsome
      rw [hsome']
      exact hloop rest (behindMark_amp h hmark)

/-- `parseQuery` gives each key the last value among the tokens that it reads. -/
theorem lookup_parseQuery (h : ∀ t ∈ tokens, 38 ∉ t) (key : Bytes) :
    (parseQuery (query lead tokens)).lookup key = lastValue (readTokens lead tokens) key := by
  rw [parseQuery_eq_foldl h, lookup_foldl_assign, List.lookup_nil, Option.or_none]

/-- The tokens fill the parameters exactly if those behind the first one without `=`, and those
before a `?` that is not the leading one, change no key's last value. -/
theorem parseQuery_fills_iff (lead : Bool) (tokens : List Bytes) (h : ∀ t ∈ tokens, 38 ∉ t) :
    (parseQuery (query lead tokens)).Fills tokens ↔
      ∀ key, lastValue (readTokens lead tokens) key = lastValue tokens key := by
  refine forall_congr' fun key => ?_
  rw [lookup_parseQuery h]

/-- The value of the first token contains both `=` and `?`. -/
theorem parseQuery_fills_signed :
    (parseQuery (query true [ascii "url=/?a=1", ascii "id=7", ascii "id=8", ascii "x"])).Fills
      [ascii "url=/?a=1", ascii "id=7", ascii "id=8", ascii "x"] := by
  rw [parseQuery_fills_iff true _ (by decide)]
  intro key
  rfl

/-- A token without `=` hides the one behind it. -/
theorem not_fills_flag :
    (∀ t ∈ [ascii "debug", ascii "id=7"], 38 ∉ t) ∧
      ¬ (parseQuery (query true [ascii "debug", ascii "id=7"])).Fills
        [ascii "debug", ascii "id=7"] := by
  refine ⟨by decide, fun h => ?_⟩
  have hid := h (ascii "id")
  revert hid
  decide

theorem behindMark_eq_none (h : ∀ t ∈ tokens, 63 ∉ t) : behindMark tokens = none := by
  induction tokens with
  | nil => rfl
  | cons token tokens ih =>
    rw [List.forall_mem_cons] at h
    rw [behindMark, cut_eq_none_iff.mpr h.1]
    exact ih h.2

/-- Nothing is lost where the tokens without `=` come last and no `?` is taken for the leading
one. -/
theorem parseQuery_fills (h : ∀ t ∈ tokens, 38 ∉ t)
    (hlast : ∀ t ∈ tokens.dropWhile (61 ∈ ·), 61 ∉ t)
    (hmark : lead = true ∨ ∀ t ∈ tokens, 63 ∉ t) :
    (parseQuery (query lead tokens)).Fills tokens := by
  have hread : readTokens lead tokens = tokens.takeWhile (61 ∈ ·) := by
    obtain rfl | hmark := hmark
    · rfl
    · rw [readTokens, behindMark_eq_none hmark, Option.getD_none, ite_self]
  have hnone : (tokens.dropWhile (61 ∈ ·)).filterMap (cut 61) = [] :=
    List.filterMap_eq_nil_iff.mpr fun t ht => cut_eq_none_iff.mpr (hlast t ht)
  have hsplit : tokens.filterMap (cut 61) =
      (tokens.takeWhile (61 ∈ ·)).filterMap (cut 61) := by
    conv_lhs => rw [← List.takeWhile_append_dropWhile (p := (61 ∈ ·)) (l := tokens)]
    rw [List.filterMap_append, hnone, List.append_nil]
  intro key
  rw [lookup_parseQuery h, hread, lastValue, lastValue, hsplit]

end LibWebsocket.ApiServer
