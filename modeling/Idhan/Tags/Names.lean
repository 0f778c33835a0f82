import Idhan.Lib.Table
import Mathlib.Data.List.Dedup
import Mathlib.Data.List.Sort

/-!
# Names of tags

The tables `tag_namespaces` and `tags`, with their unique keys and their `SERIAL` columns.
`createbatchtags` looks for the folded halves of a tag, and the triggers on the two tables fold what
is inserted; a subtag is folded by both.  `SearchQuery::resolveTags` looks for the halves as
`splitTag` gives them.

What the database does to texts is in `Folding`.  `CASEFOLD` and `NORMALIZE` are idempotent, which
does not make their compositions idempotent.

* `Names`: the two tables; their constraints are fields.
* `Names.tagIds`: the tags with a namespace and a subtag, of which there is at most one.
* `createbatchtags_gets_or_creates`: a batch gets the tags that exist and creates the others.
* `created_tag_resolved_iff`: a tag is found by the text it was created with exactly if both halves
  of the text are folded.
-/

namespace Idhan.Tags

open List

abbrev Text := List Char

/-- The functions on texts that the database has, and the order of its collation. -/
structure Folding where
  casefold : Text → Text
  normalize : Text → Text
  precedes : Text → Text → Bool
  casefold_casefold : ∀ text, casefold (casefold text) = casefold text
  normalize_normalize : ∀ text, normalize (normalize text) = normalize text

def Folding.casefoldNamespace (folding : Folding) (namespaceText : Text) : Text :=
  folding.casefold (folding.normalize namespaceText)

def Folding.casefoldSubtag (folding : Folding) (subtagText : Text) : Text :=
  folding.normalize (folding.casefold (folding.normalize subtagText))

/-- A row of `tag_namespaces`. -/
structure TagNamespace where
  namespaceId : ℕ
  namespaceText : Text
  deriving DecidableEq, Repr

/-- A row of `tags`. -/
structure Tag where
  tagId : ℕ
  namespaceId : ℕ
  subtagText : Text
  deriving DecidableEq, Repr

/-- `UNIQUE (namespace_id, subtag_text)`. -/
def Tag.key (tag : Tag) : ℕ × Text :=
  (tag.namespaceId, tag.subtagText)

/-- The tables `tag_namespaces` and `tags`, with the next values of their sequences. -/
structure Names where
  namespaces : List TagNamespace
  tags : List Tag
  nextNamespaceId : ℕ
  nextTagId : ℕ
  namespaceText_unique : KeyUnique TagNamespace.namespaceText namespaces
  namespaceId_unique : KeyUnique TagNamespace.namespaceId namespaces
  namespaceId_lt : ∀ row ∈ namespaces, row.namespaceId < nextNamespaceId
  key_unique : KeyUnique Tag.key tags
  tagId_unique : KeyUnique Tag.tagId tags
  tagId_lt : ∀ tag ∈ tags, tag.tagId < nextTagId

/-! ## Creating tags -/

/-- The rows of a `LEFT JOIN` for one row on the left: those that match it, or one `NULL`. -/
def leftJoin {α : Type} : List α → List (Option α)
  | [] => [none]
  | row :: rows => (row :: rows).map some

theorem mem_of_mem_leftJoin {α : Type} {rows : List α} {row : α} (h : some row ∈ leftJoin rows) :
    row ∈ rows := by
  cases rows with
  | nil => simp [leftJoin] at h
  | cons first rest => simpa [leftJoin] using h

theorem leftJoin_singleton {α : Type} (row : α) : leftJoin [row] = [some row] :=
  rfl

namespace Names

/-- Tables with nothing in them. -/
def empty : Names where
  namespaces := []
  tags := []
  nextNamespaceId := 1
  nextTagId := 1
  namespaceText_unique := nodup_nil
  namespaceId_unique := nodup_nil
  namespaceId_lt := forall_mem_nil _
  key_unique := nodup_nil
  tagId_unique := nodup_nil
  tagId_lt := forall_mem_nil _

/-- The namespaces with a text. -/
def namespacesOf (names : Names) (namespaceText : Text) : List TagNamespace :=
  names.namespaces.filter fun row => row.namespaceText = namespaceText

/-- The tags with a namespace and a subtag. -/
def tagsOf (names : Names) (namespaceId : ℕ) (subtagText : Text) : List Tag :=
  names.tags.filter fun tag => tag.key = (namespaceId, subtagText)

/-- `INSERT INTO tag_namespaces ... ON CONFLICT (namespace_text) DO NOTHING`, with the trigger on
the table. -/
def insertNamespaces (folding : Folding) (texts : List Text) (names : Names) : Names :=
  { names with
    namespaces := (upsert TagNamespace.namespaceText none names.namespaces
      (serial names.nextNamespaceId (fun id text => ⟨id, folding.casefoldNamespace text⟩)
        texts)).table
    nextNamespaceId := names.nextNamespaceId + texts.length
    namespaceText_unique := keyUnique_upsert keepsKey_none names.namespaceText_unique
    namespaceId_unique := (keyUnique_serial (fun _ _ => rfl) names.namespaceId_unique
      names.namespaceId_lt texts).1
    namespaceId_lt := (keyUnique_serial (fun _ _ => rfl) names.namespaceId_unique
      names.namespaceId_lt texts).2 }

/-- `INSERT INTO tags ... ON CONFLICT (namespace_id, subtag_text) DO NOTHING`, with the trigger on
the table. -/
def insertTags (folding : Folding) (rows : List (ℕ × Text)) (names : Names) : Names :=
  { names with
    tags := (upsert Tag.key none names.tags
      (serial names.nextTagId (fun id row => ⟨id, row.1, folding.casefoldSubtag row.2⟩) rows)).table
    nextTagId := names.nextTagId + rows.length
    key_unique := keyUnique_upsert keepsKey_none names.key_unique
    tagId_unique := (keyUnique_serial (fun _ _ => rfl) names.tagId_unique names.tagId_lt rows).1
    tagId_lt := (keyUnique_serial (fun _ _ => rfl) names.tagId_unique names.tagId_lt rows).2 }

/-- The namespaces of `createbatchtags`, each once and in order. -/
def distinctNamespaces (folding : Folding) (pairs : List (Text × Text)) : List Text :=
  (pairs.map Prod.fst).dedup.insertionSort fun first second => folding.precedes first second

/-- The `folded` of `createbatchtags`. -/
def folded (folding : Folding) (pairs : List (Text × Text)) : List (Text × Text) :=
  pairs.map fun pair => (folding.casefoldNamespace pair.1, folding.casefoldSubtag pair.2)

/-- The rows of `createbatchtags` for `tags`: the pairs, each once, joined with their namespaces and
in order. -/
def proposedTags (folding : Folding) (pairs : List (Text × Text)) (names : Names) :
    List (ℕ × Text) :=
  ((folded folding pairs).dedup.flatMap fun pair => (names.namespacesOf pair.1).map fun row =>
    (row.namespaceId, pair.2)).insertionSort
    fun first second => first.1 < second.1 ∨ first.1 = second.1 ∧ folding.precedes first.2 second.2

/-- `createbatchtags`, for arrays of the same length, as the pairs of their elements. -/
def createbatchtags (folding : Folding) (pairs : List (Text × Text)) (names : Names) :
    Names × List (Option ℕ × Text × Text) :=
  let withNamespaces := names.insertNamespaces folding (distinctNamespaces folding pairs)
  let created := withNamespaces.insertTags folding (withNamespaces.proposedTags folding pairs)
  (created, (folded folding pairs).flatMap fun pair =>
    (leftJoin (created.namespacesOf pair.1)).flatMap fun row =>
      (leftJoin (row.toList.flatMap fun row => created.tagsOf row.namespaceId pair.2)).map
        fun tag => (tag.map Tag.tagId, pair))

end Names

/-! ## Looking for tags -/

def splitTag (tag : Text) : Text × Text :=
  match tag.findIdx? (· = ':') with
  | none => ([], tag)
  | some position => (tag.take position, tag.drop (position + 1))

/-- `unordered_map::emplace`. -/
def emplace (result : List (Text × ℕ)) (row : Text × ℕ) : List (Text × ℕ) :=
  if (result.lookup row.1).isSome then result else result ++ [row]

/-- A response with an error. -/
structure ErrorResponse where
  status : ℕ
  message : Text
  deriving DecidableEq, Repr

namespace Names

/-- The tags with the texts of a namespace and a subtag. -/
def tagIds (names : Names) (namespaceText subtagText : Text) : List ℕ :=
  (names.namespacesOf namespaceText).flatMap fun row =>
    (names.tagsOf row.namespaceId subtagText).map Tag.tagId

/-- `SearchQuery::resolveTags`. -/
def resolveTags (names : Names) (tags : List Text) : Except ErrorResponse (List (Text × ℕ)) :=
  let rows := tags.flatMap fun tag => (names.tagIds (splitTag tag).1 (splitTag tag).2).map
    fun tagId => (tag, tagId)
  let result := rows.foldl emplace []
  match tags.find? fun tag => (result.lookup tag).isNone with
  | some tag =>
    .error ⟨404, "Was unable to get ID for tag ".toList ++ tag ++ ", Tag does not exist".toList⟩
  | none => .ok result

/-! ## A name has one tag -/

variable {names : Names} {folding : Folding} {namespaceText subtagText : Text} {tagId : ℕ}
  {pairs : List (Text × Text)} {pair : Text × Text}

theorem mem_tagIds : tagId ∈ names.tagIds namespaceText subtagText ↔
    ∃ row ∈ names.namespaces, row.namespaceText = namespaceText ∧
      ∃ tag ∈ names.tags, tag.key = (row.namespaceId, subtagText) ∧ tag.tagId = tagId := by
  simp only [tagIds, namespacesOf, tagsOf, mem_flatMap, mem_filter, mem_map, decide_eq_true_eq,
    and_assoc]

/-- A tag has one name. -/
theorem name_of_mem_tagIds {namespaceText' subtagText' : Text}
    (h : tagId ∈ names.tagIds namespaceText subtagText)
    (h' : tagId ∈ names.tagIds namespaceText' subtagText') :
    namespaceText = namespaceText' ∧ subtagText = subtagText' := by
  obtain ⟨row, hrow, rfl, tag, htag, hkey, rfl⟩ := mem_tagIds.1 h
  obtain ⟨row', hrow', rfl, tag', htag', hkey', hid⟩ := mem_tagIds.1 h'
  obtain rfl := names.tagId_unique.eq_of_key_eq htag' htag hid
  obtain ⟨hnamespace, hsubtag⟩ := Prod.mk.inj (hkey.symm.trans hkey')
  exact ⟨congrArg TagNamespace.namespaceText
    (names.namespaceId_unique.eq_of_key_eq hrow hrow' hnamespace), hsubtag⟩

theorem namespacesOf_eq {row : TagNamespace} (h : row ∈ names.namespaces) :
    names.namespacesOf row.namespaceText = [row] :=
  names.namespaceText_unique.filter_eq_singleton h (by simp) fun _ _ => of_decide_eq_true

theorem tagsOf_eq {tag : Tag} (h : tag ∈ names.tags) :
    names.tagsOf tag.namespaceId tag.subtagText = [tag] :=
  names.key_unique.filter_eq_singleton h (by simp [Tag.key]) fun _ _ => of_decide_eq_true

/-- A name has one tag. -/
theorem tagIds_eq_of_mem (h : tagId ∈ names.tagIds namespaceText subtagText) :
    names.tagIds namespaceText subtagText = [tagId] := by
  obtain ⟨row, hrow, rfl, tag, htag, hkey, rfl⟩ := mem_tagIds.1 h
  obtain ⟨hnamespace, rfl⟩ := Prod.mk.inj hkey
  rw [tagIds, namespacesOf_eq hrow, flatMap_singleton, ← hnamespace, tagsOf_eq htag, map_singleton]

/-- The two joins of `createbatchtags` give what one would give. -/
theorem leftJoin_tagIds (pair : Text × Text) :
    ((leftJoin (names.namespacesOf pair.1)).flatMap fun row =>
      (leftJoin (row.toList.flatMap fun row => names.tagsOf row.namespaceId pair.2)).map fun tag =>
      (tag.map Tag.tagId, pair)) = (leftJoin (names.tagIds pair.1 pair.2)).map fun tagId =>
      (tagId, pair) := by
  have hjoin : ∀ tags : List Tag, (leftJoin tags).map (fun tag => (tag.map Tag.tagId, pair)) =
      (leftJoin (tags.map Tag.tagId)).map fun tagId => (tagId, pair) := fun tags => by
    cases tags with
    | nil => rfl
    | cons tag tags => simp [leftJoin]
  cases hnamespaces : names.namespacesOf pair.1 with
  | nil => simp [tagIds, hnamespaces, leftJoin]
  | cons row rows =>
    have hrow : row ∈ names.namespacesOf pair.1 := hnamespaces ▸ mem_cons_self
    obtain ⟨hmem, htext⟩ := mem_filter.1 hrow
    have hsingle := namespacesOf_eq hmem
    rw [of_decide_eq_true htext, hnamespaces] at hsingle
    rw [hsingle, tagIds, hnamespaces, hsingle, leftJoin_singleton]
    simpa using hjoin (names.tagsOf row.namespaceId pair.2)

/-- `resolveTags` for one tag. -/
theorem resolveTags_singleton (tag : Text)
    (hmem : tagId ∈ names.tagIds (splitTag tag).1 (splitTag tag).2) :
    names.resolveTags [tag] = .ok [(tag, tagId)] := by
  simp [resolveTags, tagIds_eq_of_mem hmem, emplace]

theorem mem_tagIds_of_resolveTags {tag : Text} {result : List (Text × ℕ)}
    (hresolve : names.resolveTags [tag] = .ok result) (hlookup : result.lookup tag = some tagId) :
    tagId ∈ names.tagIds (splitTag tag).1 (splitTag tag).2 := by
  by_cases hempty : names.tagIds (splitTag tag).1 (splitTag tag).2 = []
  · simp [resolveTags, hempty] at hresolve
  · obtain ⟨found, hfound⟩ := exists_mem_of_ne_nil _ hempty
    rw [resolveTags_singleton tag hfound] at hresolve
    cases hresolve
    rw [lookup_cons_self] at hlookup
    exact Option.some.inj hlookup ▸ hfound

/-! ## What is created -/

theorem mem_distinctNamespaces (h : pair ∈ pairs) :
    pair.1 ∈ distinctNamespaces folding pairs := by
  simp only [distinctNamespaces, mem_insertionSort, mem_dedup]
  exact mem_map_of_mem h

theorem exists_namespace (names : Names) (folding : Folding) {texts : List Text} {text : Text}
    (h : text ∈ texts) : ∃ row ∈ (names.insertNamespaces folding texts).namespaces,
    row.namespaceText = folding.casefoldNamespace text := by
  obtain ⟨id, hrow⟩ := exists_mem_serial
    (fun id text => TagNamespace.mk id (folding.casefoldNamespace text)) h
  exact mem_map.1 ((mem_map_key_upsert keepsKey_none).2 (.inr (mem_map_of_mem hrow)))

theorem exists_tag (names : Names) (folding : Folding) {rows : List (ℕ × Text)} {row : ℕ × Text}
    (h : row ∈ rows) : ∃ tag ∈ (names.insertTags folding rows).tags,
    tag.key = (row.1, folding.casefoldSubtag row.2) := by
  obtain ⟨id, htag⟩ := exists_mem_serial
    (fun id row => Tag.mk id row.1 (folding.casefoldSubtag row.2)) h
  exact mem_map.1 ((mem_map_key_upsert keepsKey_none).2 (.inr (mem_map_of_mem htag)))

theorem mem_proposedTags (h : pair ∈ pairs) {row : TagNamespace}
    (hrow : row ∈ names.namespaces) (htext : row.namespaceText = folding.casefoldNamespace pair.1) :
    (row.namespaceId, folding.casefoldSubtag pair.2) ∈ names.proposedTags folding pairs := by
  have hpair : (folding.casefoldNamespace pair.1, folding.casefoldSubtag pair.2) ∈
      (folded folding pairs).dedup :=
    mem_dedup.2 (mem_map_of_mem h)
  have hmem : row ∈ names.namespacesOf (folding.casefoldNamespace pair.1) :=
    mem_filter.2 ⟨hrow, decide_eq_true htext⟩
  exact (mem_insertionSort _).2 (mem_flatMap.2 ⟨_, hpair, mem_map_of_mem hmem⟩)

/-- What `createbatchtags` stores for a pair: its subtag is folded twice. -/
theorem exists_mem_tagIds_createbatchtags (names : Names) (folding : Folding) (h : pair ∈ pairs) :
    ∃ tagId, tagId ∈ (names.createbatchtags folding pairs).1.tagIds
      (folding.casefoldNamespace pair.1)
      (folding.casefoldSubtag (folding.casefoldSubtag pair.2)) := by
  obtain ⟨row, hrow, htext⟩ := names.exists_namespace folding (mem_distinctNamespaces h)
  obtain ⟨tag, htag, hkey⟩ := exists_tag _ folding (mem_proposedTags h hrow htext)
  exact ⟨tag.tagId, mem_tagIds.2 ⟨row, hrow, htext, tag, htag, hkey, rfl⟩⟩

/-- What `createbatchtags` returns. -/
theorem createbatchtags_snd (names : Names) (folding : Folding) (pairs : List (Text × Text)) :
    (names.createbatchtags folding pairs).2 = (folded folding pairs).flatMap fun pair =>
      (leftJoin ((names.createbatchtags folding pairs).1.tagIds pair.1 pair.2)).map fun tagId =>
      (tagId, pair) := by
  simp only [createbatchtags, leftJoin_tagIds]

/-- What `createbatchtags` returns for one pair. -/
theorem createbatchtags_singleton (pair : Text × Text) :
    (names.createbatchtags folding [pair]).2.map Prod.fst =
    leftJoin ((names.createbatchtags folding [pair]).1.tagIds (folding.casefoldNamespace pair.1)
      (folding.casefoldSubtag pair.2)) := by
  rw [createbatchtags_snd]
  simp only [folded, map_singleton, flatMap_singleton, map_map]
  exact map_id _

/-- The tags that exist stay as they are. -/
theorem mem_tagIds_createbatchtags (h : tagId ∈ names.tagIds namespaceText subtagText) :
    tagId ∈ (names.createbatchtags folding pairs).1.tagIds namespaceText subtagText := by
  obtain ⟨row, hrow, htext, tag, htag, hkey, hid⟩ := mem_tagIds.1 h
  refine mem_tagIds.2 ⟨row, ?_, htext, tag, ?_, hkey, hid⟩
  · simp only [createbatchtags, insertTags, insertNamespaces, upsert_nothing_table]
    exact mem_append_left _ hrow
  · simp only [createbatchtags, insertTags, insertNamespaces, upsert_nothing_table]
    exact mem_append_left _ htag

/-- The rows that `createbatchtags` returns, given the tag of each name. -/
theorem createbatchtags_eq_map {idOf : Text × Text → ℕ}
    (h : ∀ pair ∈ folded folding pairs,
      idOf pair ∈ (names.createbatchtags folding pairs).1.tagIds pair.1 pair.2) :
    (names.createbatchtags folding pairs).2 =
    (folded folding pairs).map fun pair => (some (idOf pair), pair) := by
  rw [createbatchtags_snd, map_eq_flatMap]
  exact flatMap_congr fun pair hpair => by
    rw [tagIds_eq_of_mem (h pair hpair), leftJoin_singleton, map_singleton]

/-- Every name has a tag, if a subtag that is folded stays as it is. -/
theorem exists_idOf (names : Names) (folding : Folding) (pairs : List (Text × Text))
    (hfold : ∀ text, folding.casefoldSubtag (folding.casefoldSubtag text) =
      folding.casefoldSubtag text) :
    ∃ idOf : Text × Text → ℕ, ∀ pair ∈ folded folding pairs,
      idOf pair ∈ (names.createbatchtags folding pairs).1.tagIds pair.1 pair.2 := by
  have hexists : ∀ pair ∈ folded folding pairs, ∃ tagId,
      tagId ∈ (names.createbatchtags folding pairs).1.tagIds pair.1 pair.2 := by
    intro pair hpair
    obtain ⟨given, hgiven, rfl⟩ := mem_map.1 hpair
    have hmem := names.exists_mem_tagIds_createbatchtags folding hgiven
    rwa [hfold] at hmem
  choose! idOf hidOf using hexists
  exact ⟨idOf, hidOf⟩

end Names

/-- A capital letter and a sign with a canonical equivalent. -/
def Folding.latin : Folding where
  casefold text := text.map fun c => if c = 'A' then 'a' else c
  normalize text := text.map fun c => if c = '\u212B' then '\u00C5' else c
  precedes first second := decide (first.length ≤ second.length)
  casefold_casefold text := by
    rw [map_map]
    exact map_congr_left fun c _ => by by_cases hc : c = 'A' <;> simp [hc]
  normalize_normalize text := by
    rw [map_map]
    exact map_congr_left fun c _ => by by_cases hc : c = '\u212B' <;> simp [hc]

/-- **`createbatchtags` gets or creates**, if a subtag that is folded stays as it is: it returns a
row for each pair in order, with the folded pair and a tag; rows have one tag exactly if they have
one pair; the tags that exist keep their numbers; and a second call returns the same. -/
theorem createbatchtags_gets_or_creates (folding : Folding) (names : Names)
    (pairs : List (Text × Text))
    (hfold : ∀ text, folding.casefoldSubtag (folding.casefoldSubtag text) =
      folding.casefoldSubtag text) :
    (names.createbatchtags folding pairs).2.length = pairs.length ∧
      (names.createbatchtags folding pairs).2.map Prod.snd =
        pairs.map (fun pair => (folding.casefoldNamespace pair.1, folding.casefoldSubtag pair.2)) ∧
      (∀ row ∈ (names.createbatchtags folding pairs).2, row.1.isSome) ∧
      (∀ row ∈ (names.createbatchtags folding pairs).2,
        ∀ row' ∈ (names.createbatchtags folding pairs).2, row.1 = row'.1 ↔ row.2 = row'.2) ∧
      (∀ namespaceText subtagText tagId, tagId ∈ names.tagIds namespaceText subtagText →
        (names.createbatchtags folding pairs).1.tagIds namespaceText subtagText = [tagId]) ∧
      ((names.createbatchtags folding pairs).1.createbatchtags folding pairs).2 =
      (names.createbatchtags folding pairs).2 := by
  obtain ⟨idOf, hidOf⟩ := names.exists_idOf folding pairs hfold
  have hrows := Names.createbatchtags_eq_map hidOf
  have hagain := Names.createbatchtags_eq_map fun pair hpair => Names.mem_tagIds_createbatchtags
    (hidOf pair hpair)
  refine ⟨?_, ?_, ?_, ?_, fun _ _ _ h => Names.tagIds_eq_of_mem
    (Names.mem_tagIds_createbatchtags h), hagain.trans hrows.symm⟩
  · rw [hrows, length_map, Names.folded, length_map]
  · rw [hrows, map_map]
    exact map_id _
  · rw [hrows]
    exact forall_mem_map.2 fun _ _ => rfl
  · rw [hrows]
    refine forall_mem_map.2 fun pair hpair => forall_mem_map.2 fun pair' hpair' => ?_
    refine ⟨fun hid => ?_, fun hpairs => congrArg (fun pair => some (idOf pair)) hpairs⟩
    have hmem := hidOf pair' hpair'
    rw [← Option.some.inj hid] at hmem
    exact Prod.ext_iff.2 (Names.name_of_mem_tagIds (hidOf pair hpair) hmem)

theorem Folding.latin_casefoldSubtag (text : Text) :
    Folding.latin.casefoldSubtag (Folding.latin.casefoldSubtag text) =
      Folding.latin.casefoldSubtag text := by
  simp only [casefoldSubtag, latin, map_map]
  refine map_congr_left fun c _ => ?_
  by_cases hsign : c = '\u212B'
  · simp [hsign]
  · by_cases hcapital : c = 'A' <;> simp [hsign, hcapital]

/-- Two spellings of one tag, and another tag: the first two rows have one tag, a second call
returns the same, and there are three rows. -/
theorem createbatchtags_gets_or_creates_latin :
    ∃ rows, (Names.empty.createbatchtags .latin [([], ['A']), ([], ['a']), ([], ['b'])]).2 = rows ∧
      rows.length = 3 ∧ rows.map Prod.snd = [([], ['a']), ([], ['a']), ([], ['b'])] ∧
      (∀ row ∈ rows, ∀ row' ∈ rows, row.1 = row'.1 ↔ row.2 = row'.2) ∧
      ((Names.empty.createbatchtags .latin
        [([], ['A']), ([], ['a']), ([], ['b'])]).1.createbatchtags .latin
        [([], ['A']), ([], ['a']), ([], ['b'])]).2 = rows := by
  obtain ⟨hlength, hnames, _, hsame, _, hagain⟩ := createbatchtags_gets_or_creates .latin .empty
    [([], ['A']), ([], ['a']), ([], ['b'])] Folding.latin_casefoldSubtag
  exact ⟨_, rfl, hlength, hnames.trans (by decide), hsame, hagain⟩

/-- **A tag is found by the text it was created with** exactly if both halves of the text are
folded. -/
theorem created_tag_resolved_iff (folding : Folding) (names : Names) (tag : Text) :
    (∃ tagId result, (names.createbatchtags folding [splitTag tag]).2.map Prod.fst = [some tagId] ∧
      (names.createbatchtags folding [splitTag tag]).1.resolveTags [tag] = .ok result ∧
      result.lookup tag = some tagId) ↔
    folding.casefoldNamespace (splitTag tag).1 = (splitTag tag).1 ∧
    folding.casefoldSubtag (splitTag tag).2 = (splitTag tag).2 := by
  constructor
  · rintro ⟨tagId, result, hreturned, hresolve, hlookup⟩
    rw [Names.createbatchtags_singleton] at hreturned
    have hmem := mem_of_mem_leftJoin (hreturned ▸ mem_singleton_self (some tagId))
    exact Names.name_of_mem_tagIds hmem (Names.mem_tagIds_of_resolveTags hresolve hlookup)
  · rintro ⟨hnamespace, hsubtag⟩
    obtain ⟨tagId, hmem⟩ := names.exists_mem_tagIds_createbatchtags folding
      (mem_singleton_self (splitTag tag))
    rw [hnamespace, hsubtag, hsubtag] at hmem
    refine ⟨tagId, _, ?_, Names.resolveTags_singleton tag hmem, lookup_cons_self⟩
    rw [Names.createbatchtags_singleton, hnamespace, hsubtag, Names.tagIds_eq_of_mem hmem,
      leftJoin_singleton]

/-- The tag is created under the name that is folded, and the search does not find it. -/
theorem capital_not_resolved :
    (Names.empty.createbatchtags .latin [splitTag ['A']]).2 = [(some 1, [], ['a'])] ∧
    (Names.empty.createbatchtags .latin [splitTag ['A']]).1.resolveTags [['A']] =
      .error ⟨404, "Was unable to get ID for tag A, Tag does not exist".toList⟩ := by
  decide +kernel

end Idhan.Tags
