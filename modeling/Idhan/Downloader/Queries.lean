import Idhan.Downloader.Http
import Idhan.Lib.StableSort
import Mathlib.Data.Char
import Mathlib.Data.List.Lex

/-!
# Queries of stored and compared URLs

`UrlComparison.hpp` has two normal forms of a URL.  The one for storage sorts the fields of the
query and keeps their bytes; the one for comparison decodes the query, leaves out ephemeral
parameters, sorts and encodes it again.  The decoder of `ada::url_search_params` drops a `?` at the
beginning of its input, the first of the two forms does not know of that.

## What stands for the library

`ada::url_search_params` is not part of the repository.  `percentDecode`, `percentEncode` and
`searchParams` are written after the URL standard that it follows:
`application/x-www-form-urlencoded` parsing and serializing, on bytes.  Its `sort` compares the
names by their code units in UTF-16.  That is a total order of the names only if they are valid
UTF-8, so the order is a parameter, `NameOrder`, and nothing is used of it but that it is linear.
The form for storage does not depend on any of this: the decoder of the names is a parameter there.

## The two forms together

`sortUrlQueryParameters_canonical` has the laws of the form for storage: it is idempotent, and it
depends on the query only through the fields of each name in their order.  `comparison_agrees_iff`
says when a URL and its form for storage are compared as equal, which is a condition on the mark
that the decoder drops; and `findEquivalentUrls_eq` that the candidates of `findEquivalentUrls` are
all that can be equal.
-/

namespace Idhan.Downloader

open List

variable {url base query fragment : Text} {c : Char} {units : NameOrder}
  {parameters others : List Parameter}

/-! ## The parts of a URL -/

/-- The text before the first `c`, which a text without `c` is as a whole. -/
theorem takeWhile_ne_append {l r : Text} (hl : c ∉ l) (hr : ∀ d ∈ r.head?, d = c) :
    (l ++ r).takeWhile (· ≠ c) = l ∧ (l ++ r).dropWhile (· ≠ c) = r := by
  have hpos : ∀ d ∈ l, decide (d ≠ c) = true := fun d hd => decide_eq_true fun h => hl (h ▸ hd)
  rw [takeWhile_append_of_pos hpos, dropWhile_append_of_pos hpos]
  cases r with
  | nil => simp
  | cons d r => simp [hr d rfl]

/-- The text up to the fragment. -/
def beforeFragment (url : Text) : Text :=
  url.takeWhile (· ≠ '#')

/-- The query of a text without a fragment; it is empty if there is none. -/
def queryOf (text : Text) : Text :=
  (text.dropWhile (· ≠ '?')).tail

/-- The parts of a URL with a query. -/
structure Parts (base query fragment : Text) : Prop where
  base_query : '?' ∉ base
  base_fragment : '#' ∉ base
  query_fragment : '#' ∉ query
  fragment_mark : ∀ c ∈ fragment.head?, c = '#'

/-- A URL with a query. -/
def assembled (base query fragment : Text) : Text :=
  base ++ '?' :: query ++ fragment

theorem Parts.cut (h : Parts base query fragment) :
    beforeFragment (assembled base query fragment) = base ++ '?' :: query ∧
    (assembled base query fragment).dropWhile (· ≠ '#') = fragment :=
  takeWhile_ne_append (by simp [h.base_fragment, h.query_fragment]) h.fragment_mark

theorem Parts.cutQuery (h : Parts base query fragment) :
    (base ++ '?' :: query).takeWhile (· ≠ '?') = base ∧ queryOf (base ++ '?' :: query) = query := by
  obtain ⟨htake, hdrop⟩ := takeWhile_ne_append (r := '?' :: query) h.base_query (by simp)
  exact ⟨htake, congrArg List.tail hdrop⟩

/-- A URL has a query or none. -/
theorem url_cases (url : Text) : '?' ∉ beforeFragment url ∨
    ∃ base query fragment, Parts base query fragment ∧ url = assembled base query fragment := by
  rw [or_iff_not_imp_left, not_not]
  intro hmark
  obtain ⟨base, query, hbefore, hbase⟩ := eq_append_cons_of_mem hmark
  have hall : '#' ∉ beforeFragment url := fun hmem => by simpa using mem_takeWhile_imp hmem
  rw [hbefore] at hall
  refine ⟨base, query, url.dropWhile (· ≠ '#'), ⟨hbase, ?_, ?_, fun c hc => ?_⟩, ?_⟩
  · exact fun h => hall (by simp [h])
  · exact fun h => hall (by simp [h])
  · have hmark := head?_dropWhile_not (· ≠ '#') url
    rw [hc] at hmark
    simpa using hmark
  · rw [assembled, ← hbefore, beforeFragment, takeWhile_append_dropWhile]

/-! ## Fields -/

/-- The fields of a query: what stands between the `&`, if that is not empty. -/
def fields (query : Text) : List Text :=
  (query.splitOn '&').filter (· ≠ [])

/-- The fields of a text that is put together from fields. -/
theorem fields_intercalate {list : List Text} (h : ∀ field ∈ list, field ≠ [] ∧ '&' ∉ field) :
    fields (['&'].intercalate list) = list := by
  have hfilter : list.filter (· ≠ []) = list :=
    filter_eq_self.2 fun field hfield => decide_eq_true (h field hfield).1
  cases list with
  | nil => rfl
  | cons field list =>
    rw [fields, splitOn_intercalate '&' (fun field hfield => (h field hfield).2) (by simp), hfilter]

theorem mem_splitOn {piece : Text} (h : piece ∈ query.splitOn '&') :
    '&' ∉ piece ∧ ∀ c ∈ piece, c ∈ query := by
  induction query generalizing piece with
  | nil =>
    rw [splitOn_nil, mem_singleton] at h
    simp [h]
  | cons c query ih =>
    rw [splitOn_cons_eq_if_modifyHead] at h
    cases hsplit : query.splitOn '&' with
    | nil => exact absurd hsplit (splitOn_ne_nil _ _)
    | cons first rest =>
      rw [hsplit] at h ih
      split at h
      next hc =>
        rcases mem_cons.1 h with rfl | hmem
        · simp
        · obtain ⟨hpiece, hsub⟩ := ih hmem
          exact ⟨hpiece, fun d hd => mem_cons_of_mem _ (hsub d hd)⟩
      next hc =>
        rcases mem_cons.1 h with rfl | hmem
        · obtain ⟨hpiece, hsub⟩ := ih (mem_cons_self ..)
          refine ⟨by simpa [hpiece] using Ne.symm (by simpa using hc), fun d hd => ?_⟩
          exact (mem_cons.1 hd).elim (fun h => by simp [h]) fun hd => mem_cons_of_mem _ (hsub d hd)
        · obtain ⟨hpiece, hsub⟩ := ih (mem_cons_of_mem _ hmem)
          exact ⟨hpiece, fun d hd => mem_cons_of_mem _ (hsub d hd)⟩

theorem mem_fields {field : Text} (h : field ∈ fields query) :
    field ≠ [] ∧ '&' ∉ field ∧ ∀ c ∈ field, c ∈ query := by
  obtain ⟨hmem, hne⟩ := mem_filter.1 h
  exact ⟨of_decide_eq_true hne, mem_splitOn hmem⟩

/-! ## The form for storage -/

section Storage

variable {Name : Type} [LinearOrder Name] {decode : Text → Name}

/-- The name of a field, decoded. -/
def fieldName (decode : Text → Name) (field : Text) : Name :=
  decode (field.takeWhile (· ≠ '='))

def sortUrlQueryParameters (decode : Text → Name) (url : Text) : Text :=
  if '?' ∈ beforeFragment url then
    (beforeFragment url).takeWhile (· ≠ '?') ++
      '?' :: ['&'].intercalate (sortBy (fieldName decode) (fields (queryOf (beforeFragment url))))
        ++ url.dropWhile (· ≠ '#')
  else url

theorem sortUrlQueryParameters_assembled (h : Parts base query fragment) :
    sortUrlQueryParameters decode (assembled base query fragment) =
      assembled base (['&'].intercalate (sortBy (fieldName decode) (fields query))) fragment := by
  obtain ⟨hcut, hfragment⟩ := h.cut
  obtain ⟨hbase, hquery⟩ := h.cutQuery
  rw [sortUrlQueryParameters, hcut, if_pos (by simp), hbase, hquery, hfragment, assembled]

/-- The fields of the sorted query. -/
theorem fields_sorted (decode : Text → Name) (query : Text) :
    fields (['&'].intercalate (sortBy (fieldName decode) (fields query))) =
      sortBy (fieldName decode) (fields query) :=
  fields_intercalate fun _ hfield => ⟨(mem_fields (mem_sortBy.1 hfield)).1,
    (mem_fields (mem_sortBy.1 hfield)).2.1⟩

theorem mem_intercalate {list : List Text} (h : c ∈ ['&'].intercalate list) :
    c = '&' ∨ ∃ field ∈ list, c ∈ field := by
  match list with
  | [] => cases h
  | [field] => exact .inr ⟨field, by simp, by simpa using h⟩
  | field :: next :: rest =>
    rw [intercalate_cons_cons, mem_append, mem_append, mem_singleton] at h
    rcases h with (hc | hc) | hc
    · exact .inr ⟨field, by simp, hc⟩
    · exact .inl hc
    · exact (mem_intercalate hc).imp_right fun ⟨other, hmem, hc⟩ => ⟨other, mem_cons_of_mem _ hmem,
        hc⟩

theorem Parts.sorted (h : Parts base query fragment) (decode : Text → Name) :
    Parts base (['&'].intercalate (sortBy (fieldName decode) (fields query))) fragment := by
  refine { h with query_fragment := fun hmem => ?_ }
  rcases mem_intercalate hmem with heq | ⟨field, hfield, hc⟩
  · cases heq
  · exact h.query_fragment ((mem_fields (mem_sortBy.1 hfield)).2.2 _ hc)

/-- **Sorting the query is canonical.**  What is not of the query is kept; the fields are the same
ones, sorted by their names, and those of one name in their order; a sorted URL stays as it is; and
URLs that differ only in the order of fields with different names are sorted to the same URL. -/
theorem sortUrlQueryParameters_canonical (decode : Text → Name) :
    (∀ url, '?' ∉ beforeFragment url → sortUrlQueryParameters decode url = url) ∧
    (∀ base query fragment, Parts base query fragment → ∃ sorted,
      sortUrlQueryParameters decode (assembled base query fragment) =
        assembled base (['&'].intercalate sorted) fragment ∧
      sorted.Perm (fields query) ∧
      (sorted.Pairwise fun a b => fieldName decode a ≤ fieldName decode b) ∧
      ∀ name, sorted.filter (fieldName decode · = name) =
      (fields query).filter (fieldName decode · = name)) ∧
    (∀ url, sortUrlQueryParameters decode (sortUrlQueryParameters decode url) =
      sortUrlQueryParameters decode url) ∧
    ∀ base query other fragment, Parts base query fragment → Parts base other fragment →
      (∀ name, (fields query).filter (fieldName decode · = name) =
        (fields other).filter (fieldName decode · = name)) →
      sortUrlQueryParameters decode (assembled base query fragment) =
        sortUrlQueryParameters decode (assembled base other fragment) := by
  refine ⟨fun url hnone => if_neg hnone, fun base query fragment h => ?_, fun url => ?_,
    fun base query other fragment h h' hsame => ?_⟩
  · exact ⟨_, sortUrlQueryParameters_assembled h, perm_sortBy .., sortBy_pairwise .., filter_sortBy⟩
  · rcases url_cases url with hnone | ⟨base, query, fragment, h, rfl⟩
    · have hsame : sortUrlQueryParameters decode url = url := if_neg hnone
      rw [hsame, hsame]
    · rw [sortUrlQueryParameters_assembled h, sortUrlQueryParameters_assembled (h.sorted decode),
        fields_sorted, sortBy_of_pairwise (sortBy_pairwise ..)]
  · rw [sortUrlQueryParameters_assembled h, sortUrlQueryParameters_assembled h', sortBy_congr hsame]

end Storage

/-! ## The form for comparison

The parameters of a query as `ada::url_search_params` has them, which follows the URL standard.  A
character stands for a byte. -/

def hexDigit (n : ℕ) : Char :=
  "0123456789ABCDEF".toList.getD n '0'

def hexValue (c : Char) : Option ℕ :=
  "0123456789ABCDEF".toList.idxOf? c.toUpper

def percentDecode : Text → Text
  | [] => []
  | '+' :: text => ' ' :: percentDecode text
  | '%' :: a :: b :: text =>
    match hexValue a, hexValue b with
    | some high, some low => Char.ofNat (16 * high + low) :: percentDecode text
    | _, _ => '%' :: percentDecode (a :: b :: text)
  | c :: text => c :: percentDecode text

def percentEncode (text : Text) : Text :=
  text.flatMap fun c =>
    if c = ' ' then ['+']
    else if c.isAlphanum ∨ c ∈ ['*', '-', '.', '_'] ∨ 256 ≤ c.toNat then [c]
    else ['%', hexDigit (c.toNat / 16), hexDigit (c.toNat % 16)]

/-- A name and a value. -/
abbrev Parameter := Text × Text

def parameterOf (field : Text) : Parameter :=
  (fieldName percentDecode field, percentDecode (field.dropWhile (· ≠ '=')).tail)

/-- The constructor drops a mark at the beginning. -/
def withoutMark : Text → Text
  | '?' :: query => query
  | query => query

def searchParams (query : Text) : List Parameter :=
  (fields (withoutMark query)).map parameterOf

/-- A parameter as a field. -/
def encoded (parameter : Parameter) : Text :=
  percentEncode parameter.1 ++ '=' :: percentEncode parameter.2

/-- The order by which `url_search_params::sort` sorts names.  In the library it is that of their
code units in UTF-16, for names that are valid UTF-8. -/
structure NameOrder where
  order : LinearOrder Text

/-- The parameters of a query that are compared, sorted by their names and encoded. -/
def compared (units : NameOrder) (ephemeralQuery : List Text) (parameters : List Parameter) :
    Text :=
  ['&'].intercalate ((@sortBy _ _ units.order Prod.fst (parameters.filter fun parameter =>
    ephemeralQuery.all (· ≠ parameter.1))).map encoded)

/-- A URL without its query, with another one if that is not empty. -/
def withQuery (base query : Text) : Text :=
  if query = [] then base else base ++ '?' :: query

def urlComparisonKey (units : NameOrder) (ephemeralQuery : List Text) (url : Text) : Text :=
  if '?' ∈ beforeFragment url then
    withQuery ((beforeFragment url).takeWhile (· ≠ '?'))
      (compared units ephemeralQuery (searchParams (queryOf (beforeFragment url))))
  else beforeFragment url

def urlComparisonBase (url : Text) : Text :=
  url.takeWhile fun c => c ≠ '?' ∧ c ≠ '#'

/-- `findEquivalentUrls`, with the table `urls`.  The query of the database cuts the stored URLs by
`split_part`. -/
def findEquivalentUrls (units : NameOrder) (ephemeralQuery : List Text) (url : Text)
    (urls : List (ℕ × Text)) : List ℕ :=
  ((urls.filter fun row => (beforeFragment row.2).takeWhile (· ≠ '?') =
    urlComparisonBase url).filter fun row =>
    urlComparisonKey units ephemeralQuery row.2 = urlComparisonKey units ephemeralQuery url).map
      Prod.fst

/-! ### Encoding -/

theorem percentDecode_cons (hplus : c ≠ '+') (hpercent : c ≠ '%') (text : Text) :
    percentDecode (c :: text) = c :: percentDecode text := by
  rw [percentDecode.eq_def]
  split <;> simp_all

theorem hexValue_hexDigit : ∀ n < 16, hexValue (hexDigit n) = some n := by
  decide

theorem hexDigit_isAlphanum : ∀ n < 16, (hexDigit n).isAlphanum := by
  decide

theorem percentDecode_percentEncode (text : Text) : percentDecode (percentEncode text) = text := by
  induction text with
  | nil => rfl
  | cons c text ih =>
    rw [percentEncode, flatMap_cons]
    split
    next hspace =>
      subst hspace
      exact congrArg (' ' :: ·) ih
    split
    next hkept =>
      have hplus : c ≠ '+' := by rintro rfl; revert hkept; decide
      have hpercent : c ≠ '%' := by rintro rfl; revert hkept; decide
      rw [singleton_append, percentDecode_cons hplus hpercent]
      exact congrArg (c :: ·) ih
    next hbyte =>
      have hlt : c.toNat < 256 := by
        by_contra hge
        exact hbyte (.inr (.inr (by omega)))
      simp only [cons_append, nil_append, percentDecode,
        hexValue_hexDigit (c.toNat / 16) (by omega), hexValue_hexDigit (c.toNat % 16) (by omega)]
      rw [Nat.div_add_mod, Char.ofNat_toNat]
      exact congrArg (c :: ·) ih

/-- The characters of an encoded text. -/
theorem mem_percentEncode {text : Text} (h : c ∈ percentEncode text) :
    c.isAlphanum ∨ c ∈ ['*', '-', '.', '_', '+', '%'] ∨ 256 ≤ c.toNat := by
  obtain ⟨d, -, hc⟩ := mem_flatMap.1 h
  split at hc
  · exact .inr (.inl (by simp_all))
  split at hc
  next hkept =>
    rw [mem_singleton.1 hc]
    exact hkept.imp_right (Or.imp_left fun hmem => mem_append_left ['+', '%'] hmem)
  next hbyte =>
    have hlt : d.toNat < 256 := not_le.1 fun hge => hbyte (.inr (.inr hge))
    rcases mem_cons.1 hc with rfl | hc
    · exact .inr (.inl (by simp))
    rcases mem_pair.1 hc with rfl | rfl
    · exact .inl (hexDigit_isAlphanum _ (by omega))
    · exact .inl (hexDigit_isAlphanum _ (by omega))

/-- Neither of the two separators is left in an encoded text. -/
theorem percentEncode_plain {text : Text} (h : c ∈ percentEncode text) : c ≠ '&' ∧ c ≠ '=' := by
  have hc := mem_percentEncode h
  constructor
  · rintro rfl
    revert hc
    decide
  · rintro rfl
    revert hc
    decide

theorem parameterOf_encoded (parameter : Parameter) :
    parameterOf (encoded parameter) = parameter := by
  obtain ⟨htake, hdrop⟩ := @takeWhile_ne_append '=' (percentEncode parameter.1)
    ('=' :: percentEncode parameter.2)
    (fun h => (percentEncode_plain h).2 rfl) (by simp)
  rw [parameterOf, fieldName, encoded, htake, hdrop, tail_cons, percentDecode_percentEncode,
    percentDecode_percentEncode]

/-- What is compared determines the parameters, up to their order. -/
theorem perm_of_compared_eq (h : compared units [] parameters = compared units [] others) :
    parameters.Perm others := by
  have hfields : ∀ list : List Parameter,
      (fields (['&'].intercalate (list.map encoded))).map parameterOf = list := by
    intro list
    rw [fields_intercalate, map_map]
    · exact (map_congr_left fun parameter _ => parameterOf_encoded parameter).trans (map_id _)
    · intro field hfield
      obtain ⟨parameter, -, rfl⟩ := mem_map.1 hfield
      refine ⟨by simp [encoded], fun hmem => ?_⟩
      rcases mem_append.1 hmem with hmem | hmem
      · exact (percentEncode_plain hmem).1 rfl
      · rcases mem_cons.1 hmem with heq | hmem
        · cases heq
        · exact (percentEncode_plain hmem).1 rfl
  have hsorted := congrArg (fun text => (fields text).map parameterOf) h
  simp only [compared, hfields, all_nil, filter_true] at hsorted
  exact ((@perm_sortBy _ _ units.order Prod.fst parameters).symm.trans (.of_eq hsorted)).trans
    (@perm_sortBy _ _ units.order Prod.fst others)

/-- Parameters of one name are compared in their order, the others in any. -/
theorem compared_congr (ephemeralQuery : List Text)
    (h : ∀ name, parameters.filter (·.1 = name) = others.filter (·.1 = name)) :
    compared units ephemeralQuery parameters = compared units ephemeralQuery others := by
  have hkept :
      ∀ name, (parameters.filter fun parameter => ephemeralQuery.all (· ≠ parameter.1)).filter
    (·.1 = name) =
      (others.filter fun parameter => ephemeralQuery.all (· ≠ parameter.1)).filter
      (·.1 = name) := by
    intro name
    rw [filter_comm, h, filter_comm]
  rw [compared, @sortBy_congr _ _ units.order Prod.fst _ _ _ hkept, compared]

/-! ### The mark at the beginning -/

/-- What is left of a field at the front of a query. -/
def fronted : Text → List Text
  | '?' :: field => [field].filter (· ≠ [])
  | field => [field]

/-- The fields of a query that is read without its mark. -/
def stripMark : List Text → List Text
  | [] => []
  | field :: rest => fronted field ++ rest

theorem fronted_of_ne {field : Text} (h : field.head? ≠ some '?') : fronted field = [field] := by
  unfold fronted
  split
  · exact absurd rfl h
  · rfl

/-- The first field of a query with a mark has the mark. -/
theorem fields_cons_mark (query : Text) :
    ∃ field rest, fields ('?' :: query) = ('?' :: field) :: rest ∧
    fields query = stripMark (('?' :: field) :: rest) := by
  cases hsplit : query.splitOn '&' with
  | nil => exact absurd hsplit (splitOn_ne_nil _ _)
  | cons field rest =>
    refine ⟨field, rest.filter (· ≠ []), ?_, ?_⟩
    · rw [fields, splitOn_cons_eq_if_modifyHead, if_neg (by decide), hsplit, modifyHead_cons]
      exact filter_cons_of_pos (by simp)
    · rw [fields, hsplit]
      exact filter_append [field] rest

theorem fields_withoutMark (query : Text) :
    fields (withoutMark query) = if query.head? = some '?' then stripMark (fields query)
      else fields query := by
  cases query with
  | nil => rfl
  | cons c query =>
    by_cases hc : c = '?'
    · subst hc
      obtain ⟨field, rest, hmarked, hfields⟩ := fields_cons_mark query
      rw [withoutMark, hfields, if_pos head?_cons, hmarked]
    · simp [withoutMark, hc]

/-- The parameters of the sorted query: a field that begins with a mark loses it when it comes to
the front. -/
theorem fields_withoutMark_sorted (query : Text) :
    fields (withoutMark (['&'].intercalate (sortBy (fieldName percentDecode) (fields query)))) =
      stripMark (sortBy (fieldName percentDecode) (fields query)) := by
  rw [fields_withoutMark, fields_sorted]
  split
  · rfl
  next hhead =>
    cases hsort : sortBy (fieldName percentDecode) (fields query) with
    | nil => rfl
    | cons field rest =>
      have hne : field ≠ [] := (mem_fields (mem_sortBy.1 (hsort ▸ mem_cons_self ..))).1
      have hmark : field.head? ≠ some '?' := by
        obtain ⟨c, text, rfl⟩ := exists_cons_of_ne_nil hne
        intro heq
        refine hhead ?_
        rw [hsort, ← heq]
        cases rest <;> simp [intercalate_cons_cons]
      rw [stripMark, fronted_of_ne hmark]
      rfl

/-- The mark at the beginning of a query, or its absence, is not moved by sorting: a field that is
first for its mark is first for its name, and no other field with a mark is. -/
def KeepsMark (query : Text) : Prop :=
  if query.head? = some '?' then
    ∀ first ∈ (fields query).head?, ∀ field ∈ fields query,
    fieldName percentDecode first ≤ fieldName percentDecode field
  else
    ∀ first ∈ (fields query).find? fun field =>
      (fields query).all fun other => fieldName percentDecode field ≤ fieldName percentDecode other,
      first.head? ≠ some '?'

/-- Whether a field has a name. -/
def named (name field : Text) : Bool :=
  fieldName percentDecode field = name

/-- A mark belongs to the name: a field that loses it has another name, if anything is left of
it. -/
theorem countP_fronted {field : Text} (h : field.head? = some '?') :
    (fronted field).countP (named (fieldName percentDecode field)) = 0 := by
  obtain ⟨field, rfl⟩ : ∃ rest, field = '?' :: rest := ⟨_, eq_cons_of_mem_head? h⟩
  refine countP_eq_zero.2 fun other hmem heq => ?_
  have hfield : other = field := mem_singleton.1 (mem_of_mem_filter (p := (· ≠ [])) hmem)
  simp [hfield, named, fieldName, percentDecode_cons] at heq

theorem KeepsMark.filter_eq (h : KeepsMark query) (name : Text) :
    (searchParams (['&'].intercalate (sortBy (fieldName percentDecode) (fields query)))).filter
    (·.1 = name) =
      (searchParams query).filter (·.1 = name) := by
  have hsame :
      ∀ list, ((sortBy (fieldName percentDecode) list).map parameterOf).filter (·.1 = name) =
      (list.map parameterOf).filter (·.1 = name) := by
    intro list
    rw [filter_map, filter_map]
    exact congrArg (List.map parameterOf) (filter_sortBy name)
  rw [searchParams, fields_withoutMark_sorted, searchParams, fields_withoutMark]
  unfold KeepsMark at h
  split at h
  next hmark =>
    -- the first field stays the first
    rw [if_pos hmark]
    cases hfields : fields query with
    | nil => rfl
    | cons first rest =>
      rw [hfields] at h
      rw [sortBy_cons_of_le fun field hfield => h first rfl field (mem_cons_of_mem _ hfield),
        stripMark, stripMark, map_append, filter_append, hsame, ← filter_append, ← map_append]
  next hmark =>
    rw [if_neg hmark]
    rw [← head?_sortBy] at h
    have hstrip : stripMark (sortBy (fieldName percentDecode) (fields query)) =
        sortBy (fieldName percentDecode) (fields query) := by
      cases hsort : sortBy (fieldName percentDecode) (fields query) with
      | nil => rfl
      | cons first rest =>
        rw [hsort] at h
        rw [stripMark, fronted_of_ne (h first rfl)]
        rfl
    rw [hstrip, hsame]

/-- If the mark is moved, the sorted query has another number of parameters of some name. -/
theorem keepsMark_of_perm
    (h : (searchParams (['&'].intercalate (sortBy (fieldName percentDecode) (fields query)))).Perm
      (searchParams query)) :
    KeepsMark query := by
  rw [searchParams, fields_withoutMark_sorted, searchParams, fields_withoutMark] at h
  have hperm := perm_sortBy (fieldName percentDecode) (fields query)
  have hsorted := sortBy_pairwise (fieldName percentDecode) (fields query)
  unfold KeepsMark
  rw [← head?_sortBy]
  cases hsort : sortBy (fieldName percentDecode) (fields query) with
  | nil =>
    have hnil : fields query = [] := (hsort ▸ hperm).nil_eq.symm
    split <;> simp [hnil]
  | cons least rest =>
    rw [hsort] at h hperm hsorted
    have hcount := fun name => hperm.countP_eq (named name)
    have hself : ∀ field, named (fieldName percentDecode field) field :=
      fun field => decide_eq_true rfl
    have hparams := fun name => h.countP_eq fun parameter => decide (parameter.1 = name)
    simp only [countP_map] at hparams
    change ∀ name, List.countP (named name) _ = List.countP (named name) _ at hparams
    split
    next hmark =>
      obtain ⟨first, others, hfields, -⟩ := fields_cons_mark query.tail
      rw [← eq_cons_of_mem_head? hmark] at hfields
      rw [hfields] at hperm hcount ⊢
      simp only [if_pos hmark, hfields, stripMark, countP_append] at hparams
      rintro _ ⟨⟩ field hfield
      have hleast : fieldName percentDecode least ≤ fieldName percentDecode field := by
        rcases mem_cons.1 (hperm.mem_iff.2 hfield) with rfl | hin
        · exact le_rfl
        · exact rel_of_pairwise_cons hsorted hin
      refine le_of_eq_of_le (by_contra fun hne => ?_) hleast
      -- the field that loses its mark is missed among those with its name
      by_cases hhead : least.head? = some '?'
      · have hname := hparams (fieldName percentDecode least)
        have hall := hcount (fieldName percentDecode least)
        rw [countP_fronted hhead] at hname
        rw [countP_cons_of_pos (hself _), countP_cons_of_neg (by simpa [named] using hne)] at hall
        omega
      · have hname := hparams (fieldName percentDecode ('?' :: first))
        have hall := hcount (fieldName percentDecode ('?' :: first))
        rw [countP_fronted rfl, fronted_of_ne hhead, ← countP_append, singleton_append, hall,
          countP_cons_of_pos (hself _)] at hname
        omega
    next hmark =>
      rintro _ ⟨⟩ hhead
      have hname := hparams (fieldName percentDecode least)
      rw [if_neg hmark, ← hcount, stripMark, countP_append, countP_fronted hhead,
        countP_cons_of_pos (hself _)] at hname
      omega

/-! ## The two forms agree -/

theorem urlComparisonKey_assembled (units : NameOrder) (ephemeralQuery : List Text)
    (h : Parts base query fragment) :
    urlComparisonKey units ephemeralQuery (assembled base query fragment) =
      withQuery base (compared units ephemeralQuery (searchParams query)) := by
  obtain ⟨hbase, hquery⟩ := h.cutQuery
  rw [urlComparisonKey, h.cut.1, if_pos (by simp), hbase, hquery]

theorem withQuery_inj {text other : Text} : withQuery base text = withQuery base other ↔
    text = other := by
  refine ⟨fun h => ?_, fun h => h ▸ rfl⟩
  unfold withQuery at h
  split_ifs at h with htext hother hother
  · rw [htext, hother]
  · exact absurd (congrArg List.length h) (by simp)
  · exact absurd (congrArg List.length h) (by simp)
  · exact (List.cons.inj (append_cancel_left h)).2

/-- The database and the code cut URLs alike. -/
theorem takeWhile_beforeFragment (url : Text) :
    (beforeFragment url).takeWhile (· ≠ '?') = urlComparisonBase url := by
  rw [beforeFragment, takeWhile_takeWhile, urlComparisonBase]
  simp

/-- The base of a URL is the text of its key up to the query. -/
theorem takeWhile_urlComparisonKey (units : NameOrder) (ephemeralQuery : List Text) (url : Text) :
    (urlComparisonKey units ephemeralQuery url).takeWhile (· ≠ '?') = urlComparisonBase url := by
  rw [← takeWhile_beforeFragment]
  rcases url_cases url with hnone | ⟨base, query, fragment, h, rfl⟩
  · rw [urlComparisonKey, if_neg hnone]
  · rw [urlComparisonKey_assembled units ephemeralQuery h, h.cut.1, h.cutQuery.1, withQuery]
    split
    · exact takeWhile_eq_self_iff.2 fun c hc => decide_eq_true fun heq => h.base_query (heq ▸ hc)
    · exact (takeWhile_ne_append h.base_query (by simp)).1

theorem urlComparisonBase_eq_of_key_eq {ephemeralQuery : List Text} {other : Text}
    (h : urlComparisonKey units ephemeralQuery url = urlComparisonKey units ephemeralQuery other) :
    urlComparisonBase url = urlComparisonBase other := by
  rw [← takeWhile_urlComparisonKey units ephemeralQuery url, h, takeWhile_urlComparisonKey]

/-- **A URL and its form for storage have one key for every list of ephemeral parameters exactly if
sorting keeps the mark at the beginning of the query; and URLs with one key have one base.** -/
theorem comparison_agrees_iff (units : NameOrder) (url : Text) :
    ((∀ ephemeralQuery, urlComparisonKey units ephemeralQuery
        (sortUrlQueryParameters percentDecode url) = urlComparisonKey units ephemeralQuery url) ↔
        KeepsMark (queryOf (beforeFragment url))) ∧
      ∀ other ephemeralQuery, urlComparisonKey units ephemeralQuery url =
        urlComparisonKey units ephemeralQuery other →
        urlComparisonBase url = urlComparisonBase other := by
  refine ⟨?_, fun other ephemeralQuery h => ?_⟩
  · rcases url_cases url with hnone | ⟨base, query, fragment, h, rfl⟩
    · have hempty : queryOf (beforeFragment url) = [] := by
        have hdrop : (beforeFragment url).dropWhile (· ≠ '?') = [] :=
          dropWhile_eq_nil_iff.2 fun c hc => decide_eq_true fun heq => hnone (heq ▸ hc)
        rw [queryOf, hdrop, tail_nil]
      rw [hempty, show sortUrlQueryParameters percentDecode url = url from if_neg hnone]
      exact ⟨fun _ => by simp [KeepsMark, fields], fun _ _ => rfl⟩
    · rw [h.cut.1, h.cutQuery.2, sortUrlQueryParameters_assembled h]
      simp only [urlComparisonKey_assembled units _ h,
        urlComparisonKey_assembled units _ (h.sorted percentDecode), withQuery_inj]
      exact ⟨fun hsame => keepsMark_of_perm (perm_of_compared_eq (hsame [])),
        fun hkeeps ephemeralQuery => compared_congr ephemeralQuery hkeeps.filter_eq⟩
  · exact urlComparisonBase_eq_of_key_eq h

/-- The candidates of the database are all URLs that can have the key. -/
theorem findEquivalentUrls_eq (units : NameOrder) (ephemeralQuery : List Text) (url : Text)
    (urls : List (ℕ × Text)) :
    findEquivalentUrls units ephemeralQuery url urls = (urls.filter fun row =>
      urlComparisonKey units ephemeralQuery row.2 = urlComparisonKey units ephemeralQuery url).map
        Prod.fst := by
  rw [findEquivalentUrls, filter_filter]
  refine congrArg _ (filter_congr fun row _ => ?_)
  rw [takeWhile_beforeFragment, Bool.and_eq_left_iff_imp, decide_eq_true_iff, decide_eq_true_iff]
  exact urlComparisonBase_eq_of_key_eq

/-- A field with a mark comes to the front: the stored URL has the parameter `a` in the place of
`?a`. -/
theorem mark_comes_to_front :
    urlComparisonKey ⟨inferInstance⟩ []
      (sortUrlQueryParameters percentDecode "https://x/?b=1&?a=2".toList) =
      "https://x/?a=2&b=1".toList ∧
    urlComparisonKey ⟨inferInstance⟩ [] "https://x/?b=1&?a=2".toList =
      "https://x/?%3Fa=2&b=1".toList := by
  decide +kernel

end Idhan.Downloader
