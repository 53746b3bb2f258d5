import Swyft.Pools.Model

/-!
# The keys of cached lists

`getListCacheKey` joins the fields of a query by colons, and three of them are texts that the client
chose, without white space around them. A search for `x:token0=y` has the key of another query. A
query shares its key with no other one, if and only if no text of its holds, where it is trimmed,
what stands before the next one.

## Main definitions

* `PoolListQuery.IsValid` — the queries that `getPools` makes
* `PoolListQuery.Ambiguous` — a text holds the name of the next field

## Main results

* `getListCacheKey_unique_iff` — when a query has a key of its own
-/

namespace Swyft.Pools

open Js Separators

/-! ### Texts -/

theorem dropWhile_eq_self_iff {cs : List Char} :
    cs.dropWhile isSpace = cs ↔ TrimmedLeft isSpace cs := by
  cases cs with
  | nil => simp [TrimmedLeft]
  | cons c cs =>
    by_cases hc : isSpace c
    · rw [List.dropWhile_cons_of_pos hc]
      refine iff_of_false (fun h => ?_) (by simp [TrimmedLeft, hc])
      have hlength := congrArg List.length h
      have hle := (List.dropWhile_suffix isSpace (l := cs)).length_le
      rw [List.length_cons] at hlength
      omega
    · rw [List.dropWhile_cons_of_neg hc]
      exact iff_of_true rfl (by simpa [TrimmedLeft] using hc)

/-- A text is trimmed if and only if trimming leaves it alone. -/
theorem trim_eq_self_iff {cs : List Char} : trim cs = cs ↔ Trimmed isSpace cs := by
  have hreverse : TrimmedRight isSpace cs ↔ TrimmedLeft isSpace cs.reverse := by
    rw [TrimmedLeft, TrimmedRight, List.head?_reverse]
  constructor
  · intro h
    have hsuffix := List.dropWhile_suffix isSpace (l := cs)
    have hsuffix' := List.dropWhile_suffix isSpace (l := (cs.dropWhile isSpace).reverse)
    have hlength : cs.length
        = ((cs.dropWhile isSpace).reverse.dropWhile isSpace).length := by
      conv_lhs => rw [← h, trim, List.length_reverse]
    have hleft : cs.dropWhile isSpace = cs := by
      refine hsuffix.eq_of_length (le_antisymm hsuffix.length_le ?_)
      have hsame : (cs.dropWhile isSpace).reverse.length = (cs.dropWhile isSpace).length :=
        List.length_reverse
      rw [hlength, ← hsame]
      exact hsuffix'.length_le
    rw [hleft] at hsuffix' hlength
    have hright : cs.reverse.dropWhile isSpace = cs.reverse :=
      hsuffix'.eq_of_length (by rw [← hlength, List.length_reverse])
    exact ⟨dropWhile_eq_self_iff.mp hleft, hreverse.mpr (dropWhile_eq_self_iff.mp hright)⟩
  · rintro ⟨hleft, hright⟩
    rw [trim, dropWhile_eq_self_iff.mpr hleft, dropWhile_eq_self_iff.mpr (hreverse.mp hright),
      List.reverse_reverse]

/-- The texts that a query may hold. -/
def IsText (text : Option String) : Prop :=
  ∀ t ∈ text, t ≠ "" ∧ trim t.toList = t.toList

/-- The numbers that a query may hold. -/
def IsCount (n : ℕ) : Prop := 0 < n ∧ Doubles.round n = n ∧ (n : ℚ) < 2 ^ 1024

/-- The queries that `getPools` makes. -/
structure PoolListQuery.IsValid (query : PoolListQuery) : Prop where
  page : IsCount query.page
  limit : IsCount query.limit
  search : IsText query.search
  token0 : IsText query.token0
  token1 : IsText query.token1

/-- The characters of a text that may be missing. -/
def chars (text : Option String) : List Char := (text.getD "").toList

/-- What stands before the text of `token0`. -/
def token0Name : List Char := ":token0=".toList

/-- What stands before the text of `token1`. -/
def token1Name : List Char := ":token1=".toList

/-- A text holds, where it is trimmed, what stands before a later one. -/
def PoolListQuery.Ambiguous (query : PoolListQuery) : Prop :=
  Cuts isSpace token0Name (chars query.search) ∨ Cuts isSpace token0Name (chars query.token0) ∨
    Cuts isSpace token1Name (chars query.token0) ∨ Cuts isSpace token1Name (chars query.token1)

/-- The three texts of a key. -/
def PoolListQuery.texts (query : PoolListQuery) : List Char :=
  joined token0Name token1Name (chars query.search) (chars query.token0) (chars query.token1)

/-- The key, one field after the other. -/
theorem toList_getListCacheKey (query : PoolListQuery) :
    (getListCacheKey query).toList = "pools:list:v1:page=".toList ++ ((numberText query.page).toList ++
      ':' :: ("limit=".toList ++ ((numberText query.limit).toList ++
      ':' :: ("orderBy=".toList ++ (query.orderBy.text.toList ++
      ':' :: ("search=".toList ++ (query.texts ++ (":includeInactive=".toList ++
        (if query.includeInactive then "true" else "false").toList))))))))  := by
  simp only [getListCacheKey, String.intercalate_cons_cons, String.intercalate_singleton,
    String.toList_append, PoolListQuery.texts, joined, chars, List.append_assoc]
  rfl

/-! ### The other fields -/

theorem not_mem_numberText {n : ℕ} (hn : 0 < n) : ':' ∉ (numberText n).toList := by
  have hpos : (0 : ℚ) < n := by exact_mod_cast hn
  rw [numberText, String.toList_ofList, Number.toText, if_neg hpos.ne', if_neg (not_lt.mpr hpos.le)]
  intro hmem
  rcases mem_positiveText hpos hmem with h | h
  · exact absurd h (by decide)
  · exact absurd h (by decide)

theorem numberText_inj {n m : ℕ} (hn : IsCount n) (hm : IsCount m)
    (h : (numberText n).toList = (numberText m).toList) : n = m := by
  have hpos : (0 : ℚ) < n := by exact_mod_cast hn.1
  have hpos' : (0 : ℚ) < m := by exact_mod_cast hm.1
  rw [numberText, numberText, String.toList_ofList, String.toList_ofList, Number.toText,
    Number.toText, if_neg hpos.ne', if_neg hpos'.ne', if_neg (not_lt.mpr hpos.le),
    if_neg (not_lt.mpr hpos'.le)] at h
  rw [← Int.cast_natCast n, ← Int.cast_natCast m] at h
  obtain ⟨hn0, hn1, hn2⟩ := hn
  obtain ⟨hm0, hm1, hm2⟩ := hm
  rw [← Int.cast_natCast n] at hn1 hn2
  rw [← Int.cast_natCast m] at hm1 hm2
  exact Int.natCast_inj.mp
    (positiveText_inj (by exact_mod_cast hn0) (by exact_mod_cast hm0) hn1 hm1 hn2 hm2 h)

theorem not_mem_text (orderBy : PoolOrderBy) : ':' ∉ orderBy.text.toList := by
  cases orderBy <;> decide

theorem text_inj {orderBy orderBy' : PoolOrderBy} (h : orderBy.text.toList = orderBy'.text.toList) :
    orderBy = orderBy' := by
  revert h
  cases orderBy <;> cases orderBy' <;> decide

/-- The last field is known by the end of a key. -/
theorem includeInactive_inj {cs cs' : List Char} {b b' : Bool}
    (h : cs ++ (":includeInactive=".toList ++ (if b then "true" else "false").toList)
      = cs' ++ (":includeInactive=".toList ++ (if b' then "true" else "false").toList)) :
    cs = cs' ∧ b = b' := by
  have hreverse := congrArg List.reverse h
  simp only [List.reverse_append] at hreverse
  cases b <;> cases b' <;> simp at hreverse ⊢ <;> exact hreverse

/-- **Two queries have one key if and only if their fields agree, but for how the three texts are
told apart.** -/
theorem getListCacheKey_eq_iff {query query' : PoolListQuery} (h : query.IsValid)
    (h' : query'.IsValid) :
    getListCacheKey query = getListCacheKey query' ↔
      query.page = query'.page ∧ query.limit = query'.limit ∧ query.orderBy = query'.orderBy ∧
        query.includeInactive = query'.includeInactive ∧ query.texts = query'.texts := by
  rw [← String.toList_inj, toList_getListCacheKey, toList_getListCacheKey]
  constructor
  · intro hkey
    have hkey := List.append_cancel_left hkey
    obtain ⟨hpage, hkey⟩ := append_cons_inj (not_mem_numberText h.page.1)
      (not_mem_numberText h'.page.1) hkey
    have hkey := List.append_cancel_left hkey
    obtain ⟨hlimit, hkey⟩ := append_cons_inj (not_mem_numberText h.limit.1)
      (not_mem_numberText h'.limit.1) hkey
    have hkey := List.append_cancel_left hkey
    obtain ⟨horderBy, hkey⟩ := append_cons_inj (not_mem_text _) (not_mem_text _) hkey
    have hkey := List.append_cancel_left hkey
    obtain ⟨htexts, hinactive⟩ := includeInactive_inj hkey
    exact ⟨numberText_inj h.page h'.page hpage, numberText_inj h.limit h'.limit hlimit,
      text_inj horderBy, hinactive, htexts⟩
  · rintro ⟨hpage, hlimit, horderBy, hinactive, htexts⟩
    rw [hpage, hlimit, horderBy, hinactive, htexts]

/-! ### Keys of their own -/

theorem isSeparator_token0Name : IsSeparator ':' token0Name :=
  ⟨"token0=".toList, rfl, by decide⟩

theorem isSeparator_token1Name : IsSeparator ':' token1Name :=
  ⟨"token1=".toList, rfl, by decide⟩

theorem token0Name_ne : token0Name ≠ token1Name := by decide

theorem length_token0Name : token0Name.length = token1Name.length := by decide

theorem trimmed_token0Name : Trimmed isSpace token0Name := trim_eq_self_iff.mp (by decide)

theorem trimmed_token1Name : Trimmed isSpace token1Name := trim_eq_self_iff.mp (by decide)

theorem IsText.trimmed {text : Option String} (h : IsText text) : Trimmed isSpace (chars text) := by
  cases text with
  | none => exact trim_eq_self_iff.mp rfl
  | some t => exact trim_eq_self_iff.mp (h t rfl).2

theorem chars_inj {text text' : Option String} (h : IsText text) (h' : IsText text')
    (heq : chars text = chars text') : text = text' := by
  have heq := String.toList_injective heq
  cases text with
  | none =>
    cases text' with
    | none => rfl
    | some t' => exact absurd heq.symm (h' t' rfl).1
  | some t =>
    cases text' with
    | none => exact absurd heq (h t rfl).1
    | some t' => exact congrArg some heq

/-- The text of some characters, which is missing where there are none. -/
def textOf (cs : List Char) : Option String := if cs = [] then none else some (String.ofList cs)

theorem chars_textOf (cs : List Char) : chars (textOf cs) = cs := by
  rw [textOf]
  split
  case isTrue h => rw [h]; rfl
  case isFalse => exact String.toList_ofList

theorem isText_textOf {cs : List Char} (h : Trimmed isSpace cs) : IsText (textOf cs) := by
  intro t ht
  rw [textOf] at ht
  split at ht
  case isTrue => exact absurd ht (by simp)
  case isFalse hne =>
    obtain rfl := Option.some.inj ht
    refine ⟨fun hempty => hne ?_, ?_⟩
    · rw [← String.toList_ofList (l := cs), hempty]
      rfl
    · rw [String.toList_ofList]
      exact trim_eq_self_iff.mpr h

/-- **A query has a key of its own if and only if no text of its holds, where it is trimmed, the
name of a later field.** -/
theorem getListCacheKey_unique_iff (query : PoolListQuery) (h : query.IsValid) :
    (∀ query' : PoolListQuery, query'.IsValid → query' ≠ query →
        getListCacheKey query' ≠ getListCacheKey query) ↔
      ¬ query.Ambiguous := by
  constructor
  · intro hown hambiguous
    obtain ⟨a, b, c, ha, hb, hc, hjoined, hne⟩ :=
      exists_of_cuts isSeparator_token0Name isSeparator_token1Name trimmed_token0Name
        trimmed_token1Name h.search.trimmed h.token0.trimmed h.token1.trimmed hambiguous
    let other : PoolListQuery :=
      { query with search := textOf a, token0 := textOf b, token1 := textOf c }
    have hother : other.IsValid :=
      ⟨h.page, h.limit, isText_textOf ha, isText_textOf hb, isText_textOf hc⟩
    refine hown other hother (fun heq => hne ?_) ?_
    · rw [← heq]
      exact congrArg₂ Prod.mk (chars_textOf a).symm (chars_textOf b).symm
    · refine (getListCacheKey_eq_iff hother h).mpr ⟨rfl, rfl, rfl, rfl, ?_⟩
      show joined _ _ (chars (textOf a)) (chars (textOf b)) (chars (textOf c)) = query.texts
      rw [chars_textOf, chars_textOf, chars_textOf]
      exact hjoined.symm
  · intro hclear query' h' hne hkey
    obtain ⟨hpage, hlimit, horderBy, hinactive, htexts⟩ :=
      (getListCacheKey_eq_iff h h').mp hkey.symm
    have hcases := cuts_of_joined_eq isSeparator_token0Name isSeparator_token1Name token0Name_ne
      length_token0Name trimmed_token0Name trimmed_token1Name h'.search.trimmed h'.token0.trimmed
      h'.token1.trimmed htexts
    rcases hcases with ⟨hsearch, htoken0, htoken1⟩ | hcuts
    · refine hne ?_
      have hsearch := chars_inj h.search h'.search hsearch
      have htoken0 := chars_inj h.token0 h'.token0 htoken0
      have htoken1 := chars_inj h.token1 h'.token1 htoken1
      cases query
      cases query'
      simp_all
    · exact hclear hcuts

/-! ### A search for a colon -/

theorem isCount_of_lt {n : ℕ} (hn : 0 < n) (hlt : n < 2 ^ 53) : IsCount n := by
  have hsmall : (n : ℚ) < 2 ^ 53 := by exact_mod_cast hlt
  refine ⟨hn, ?_, hsmall.trans (pow_lt_pow_right₀ one_lt_two (by norm_num))⟩
  have hround := Doubles.round_intCast (n := n) (by rw [Nat.abs_cast]; exact_mod_cast hlt)
  exact_mod_cast hround

/-- The first page of a search, with a filter. -/
def firstPage (search token0 : Option String) : PoolListQuery :=
  ⟨1, 20, .tvl, search, token0, none, false⟩

theorem isValid_firstPage {search token0 : Option String} (hsearch : IsText search)
    (htoken0 : IsText token0) : (firstPage search token0).IsValid :=
  ⟨isCount_of_lt (n := 1) (by decide) (by decide), isCount_of_lt (n := 20) (by decide) (by decide),
    hsearch, htoken0,
    fun _ h => absurd h (by simp [firstPage])⟩

/-- **A search for a text with a colon has the key of another query.** -/
theorem getListCacheKey_colon :
    (firstPage (some "x:token0=y") none).IsValid ∧
      (firstPage (some "x") (some "y:token0=")).IsValid ∧
      firstPage (some "x:token0=y") none ≠ firstPage (some "x") (some "y:token0=") ∧
      getListCacheKey (firstPage (some "x:token0=y") none)
        = getListCacheKey (firstPage (some "x") (some "y:token0=")) := by
  have hnone : IsText none := fun _ h => absurd h (by simp)
  have hsome (t : String) (ht : t ≠ "" ∧ trim t.toList = t.toList) : IsText (some t) := by
    intro t' ht'
    obtain rfl := Option.some.inj ht'
    exact ht
  have hfirst : (firstPage (some "x:token0=y") none).IsValid :=
    isValid_firstPage (hsome _ (by decide)) hnone
  have hsecond : (firstPage (some "x") (some "y:token0=")).IsValid :=
    isValid_firstPage (hsome _ (by decide)) (hsome _ (by decide))
  exact ⟨hfirst, hsecond, by decide, (getListCacheKey_eq_iff hfirst hsecond).mpr
    ⟨rfl, rfl, rfl, rfl, by decide⟩⟩

theorem getListCacheKey_unique_iff_firstPage :
    (∀ query' : PoolListQuery, query'.IsValid → query' ≠ firstPage none none →
        getListCacheKey query' ≠ getListCacheKey (firstPage none none)) ↔
      ¬ (firstPage none none).Ambiguous :=
  getListCacheKey_unique_iff (firstPage none none)
    (isValid_firstPage (fun _ h => absurd h (by simp)) fun _ h => absurd h (by simp))

end Swyft.Pools
