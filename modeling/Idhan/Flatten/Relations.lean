import Idhan.Flatten.Replay
import Idhan.Flatten.RoundTrip

/-!
# The relations file

`ptr-core/src/RelationsFile.cpp`: the events of parents and siblings collapse to one relation for
each pair of tags, and both lists are written into one file with a table of tags, to which the
relations refer by their places.

Counts and lengths are stored in 32 bits, and nothing checks that they fit.

## Round trips

A pair collapses to its last operation (`collapseRelations_eq`), and `describes_buildRelations` says
what is written, resolved through the table.  The readers and writers of the fields fit together
(`Reads`), as long as the numbers fit; `relations_round_trip_iff` has the condition in terms of the
events and the lookup, and that there is no round trip without it.

## Damaged files

What a reader has taken is known from what it returns (`Takes`).  The numbers of the header are not
compared with the body, so a file that is read may be damaged: `accepted_intact_iff` says that it is
intact just if the body is the encoding of some tables and the header is theirs.
-/

namespace Idhan.Flatten

open List

/-! ## The collapse -/

/-- `RelationEvent`, without the padding. -/
structure RelationEvent where
  a : Word
  b : Word
  updateIndex : Fin (2 ^ 16)
  op : EventOp
  deriving DecidableEq, Repr

structure CollapsedRelation where
  a : Word
  b : Word
  op : EventOp
  deriving DecidableEq, Repr

/-- The event of the chain. -/
def RelationEvent.toMapping (event : RelationEvent) : MappingEvent :=
  ⟨event.a, event.b, event.updateIndex, event.op⟩

def RelationEvent.pair (event : RelationEvent) : Word × Word :=
  (event.a, event.b)

def CollapsedRelation.pair (relation : CollapsedRelation) : Word × Word :=
  (relation.a, relation.b)

def relationLess (x y : RelationEvent) : Bool :=
  if x.a ≠ y.a then x.a < y.a
  else if x.b ≠ y.b then x.b < y.b
  else if x.updateIndex ≠ y.updateIndex then x.updateIndex < y.updateIndex
  else x.op.value < y.op.value

/-- `std::ranges::sort( events, relationLess )`. -/
def sortRelations (events : List RelationEvent) : List RelationEvent :=
  events.insertionSort fun x y => relationLess y x = false

def collapseRelations (events : List RelationEvent) : List CollapsedRelation :=
  (runsBy (·.pair) (sortRelations events)).filterMap fun run =>
    (collapseChain (run.2.map (·.toMapping))).map fun collapsed => ⟨run.1.1, run.1.2, collapsed.1⟩

/-! ## Writing -/

/-- A relation in the file.  An `EventOp` that is read may have any byte as its value. -/
structure RelationRecord where
  aIndex : Word
  bIndex : Word
  op : UInt8
  deriving DecidableEq, Repr

structure RelationsFile where
  strings : List ChunkStringEntry
  parents : List RelationRecord
  siblings : List RelationRecord
  deriving DecidableEq, Repr

structure RelationsFileStats where
  parents : ℕ
  siblings : ℕ
  missingDefinitions : ℕ
  deriving DecidableEq, Repr

def EventOp.byte (op : EventOp) : UInt8 :=
  UInt8.ofNat op.value

/-- The ids of some pairs, in ascending order and each once. -/
def idsOf (pairs : List (Word × Word)) : List Word :=
  ((pairs.flatMap fun p => [p.1, p.2]).insertionSort (· ≤ ·)).dedup

/-- One round of `encode`: the records, their counter and the missing definitions. -/
def encodeRelation (strings : List ChunkStringEntry) (out : List RelationRecord × ℕ × ℕ)
    (relation : CollapsedRelation) : List RelationRecord × ℕ × ℕ :=
  match idToIndex strings relation.a, idToIndex strings relation.b with
  | some a, some b => (out.1 ++ [⟨a, b, relation.op.byte⟩], out.2.1 + 1, out.2.2)
  | _, _ => (out.1, out.2.1, out.2.2 + 1)

/-- What `writeRelationsFile` puts into the file, and the statistics that it returns. -/
def buildRelations (lookup : TagLookup) (parents siblings : List CollapsedRelation) :
    RelationsFile × RelationsFileStats :=
  let strings := definedEntries lookup (idsOf ((parents ++ siblings).map (·.pair)))
  let (encodedParents, parentCount, missing) := parents.foldl (encodeRelation strings) ([], 0, 0)
  let (encodedSiblings, siblingCount, missing) :=
    siblings.foldl (encodeRelation strings) ([], 0, missing)
  (⟨strings, encodedParents, encodedSiblings⟩, ⟨parentCount, siblingCount, missing⟩)

def encodeRelationRecord (record : RelationRecord) : List UInt8 :=
  leBytes 4 record.aIndex.val ++ (leBytes 4 record.bIndex.val ++ leBytes 1 record.op.toNat)

/-- The body of the file. -/
def RelationsFile.encode (file : RelationsFile) : List UInt8 :=
  file.strings.flatMap encodeEntry ++
    (leBytes 4 file.parents.length ++ (leBytes 4 file.siblings.length ++
    (file.parents.flatMap encodeRelationRecord ++ file.siblings.flatMap encodeRelationRecord)))

/-- `RELATIONS_MAGIC`: `IDHANPTR`. -/
def relationsMagic : List UInt8 := [73, 68, 72, 65, 78, 80, 84, 82]

/-- `compressBound`, of zlib. -/
def compressBound (size : ℕ) : ℕ :=
  size + size / 2 ^ 12 + size / 2 ^ 14 + size / 2 ^ 25 + 13

/-- `writeRelationsFile`: the content of the file and the statistics.  It throws if the compressed
body is too large for a vector. -/
def writeRelationsFile (zlib : Zlib) (lookup : TagLookup)
    (parents siblings : List CollapsedRelation) :
    Option (List UInt8 × RelationsFileStats) :=
  let (file, stats) := buildRelations lookup parents siblings
  if compressBound file.encode.length < 2 ^ 63 then
    some (encodeHeader ⟨relationsMagic, chunkFormatVersion, file.encode.length,
      file.parents.length + file.siblings.length, file.strings.length⟩ ++ zlib.compress file.encode,
      stats)
  else none

/-! ## Reading -/

def readRelationRecord : Reader ReadError RelationRecord := do
  let aIndex ← takeWord "a relation a index"
  let bIndex ← takeWord "a relation b index"
  let op ← takeUnsigned 1 (.truncated "a relation op")
  return ⟨toWord aIndex, toWord bIndex, UInt8.ofNat op⟩

/-- The body of a file. -/
def readRelations (stringCount : ℕ) : Reader ReadError RelationsFile := do
  let strings ← readMany readEntry stringCount
  let parentCount ← takeWord "the parent count"
  let siblingCount ← takeWord "the sibling count"
  let parents ← readMany readRelationRecord parentCount
  let siblings ← readMany readRelationRecord siblingCount
  return ⟨strings, parents, siblings⟩

/-- The buffer of the body.  What `uncompress` leaves of it is zero. -/
def inflateRelations (zlib : Zlib) (compressed : List UInt8) (bodySize : ℕ) :
    Except ReadError (List UInt8) :=
  if 2 ^ 63 ≤ bodySize then .error .lengthError
  else if bodySize = 0 then .ok []
  else
    match zlib.uncompress bodySize compressed with
    | none => .error .uncompressFailed
    | some produced => .ok (produced.takeD bodySize 0)

def readRelationsFile (zlib : Zlib) (bytes : List UInt8) : Except ReadError RelationsFile :=
  if bytes.length < chunkHeaderSize then .error .tooSmall
  else do
    let (header, compressed) ← readHeader.run bytes
    if header.magic ≠ relationsMagic then .error .wrongMagic
    else if header.version ≠ chunkFormatVersion then .error (.wrongVersion header.version)
    else
      let body ← inflateRelations zlib compressed header.bodySize
      let (file, _) ← (readRelations header.stringCount).run body
      .ok file

/-! ## Pairs -/

section Pairs

variable {events : List RelationEvent} {p : Word × Word}

/-- The operation of the last event of a pair, in the order of the updates and with adds before
deletes. -/
def lastOp (events : List RelationEvent) (p : Word × Word) : Option EventOp :=
  replay (history (events.map (·.toMapping))) p.1 p.2

/-- The distinct pairs without a definition of both tags. -/
def droppedPairs (lookup : TagLookup) (events : List RelationEvent) : ℕ :=
  (events.map (·.pair)).dedup.countP fun p => (lookup p.1).isNone || (lookup p.2).isNone

section

variable (events)

theorem map_sortRelations : (sortRelations events).map (·.toMapping) = sortEvents
    (events.map (·.toMapping)) :=
  map_insertionSort _ _ _ _ fun _ _ _ _ => Iff.rfl

/-- The runs of the sorted events are the pairs with their events. -/
theorem runsBy_sortRelations : runsBy (·.pair)
    (sortRelations events) = ((sortRelations events).map (·.pair)).dedup.map fun p =>
      (p, (sortRelations events).filter fun event => event.pair = p) := by
  let _ : PartialOrder (Word × Word) :=
    PartialOrder.lift (fun p => p.1.val * 2 ^ 32 + p.2.val) fun p q h => by
    have hp := p.2.isLt
    have hq := q.2.isLt
    simp only at h
    exact Prod.ext (Fin.ext (by omega)) (Fin.ext (by omega))
  have hsorted := pairwise_sortEvents (events.map (·.toMapping))
  rw [← map_sortRelations, pairwise_map] at hsorted
  refine runsBy_of_sorted (hsorted.imp fun {x y} hle => ?_)
  have hx := x.op.value_lt
  have hy := y.op.value_lt
  simp only [MappingEvent.rank, RelationEvent.toMapping] at hle
  change x.a.val * 2 ^ 32 + x.b.val ≤ y.a.val * 2 ^ 32 + y.b.val
  omega

/-- The events of a pair end with its last one. -/
theorem getLast_run (p : Word × Word) :
    (((sortRelations events).filter fun event => event.pair = p).map (·.toMapping)).getLast?.map
    (·.op) =
      lastOp events p := by
  have hchain : ((sortRelations events).filter fun event => event.pair = p).map (·.toMapping) =
      chainOf (sortEvents (events.map (·.toMapping))) p.1 p.2 := by
    rw [← map_sortRelations, chainOf, filter_filter, filter_map]
    refine congrArg _ (filter_congr fun event _ => ?_)
    simp [RelationEvent.pair, RelationEvent.toMapping, Prod.ext_iff, Bool.and_comm]
  rw [hchain, chainOf_eq_of_perm (.refl _), ← getLast_replay, lastOp]

/-- **A pair collapses to its last operation.** -/
theorem collapseRelations_eq :
    collapseRelations events = ((sortRelations events).map (·.pair)).dedup.filterMap fun p =>
      (lastOp events p).map (CollapsedRelation.mk p.1 p.2) := by
  rw [collapseRelations, runsBy_sortRelations, filterMap_map]
  refine filterMap_congr fun p _ => ?_
  rw [← getLast_run, ← collapseChain_op, Option.map_map]
  rfl

theorem perm_pairs : ((sortRelations events).map (·.pair)).dedup.Perm (events.map (·.pair)).dedup :=
  ((perm_insertionSort _ events).map _).dedup

theorem isSome_lastOp {p : Word × Word} (hp : p ∈ events.map (·.pair)) :
    (lastOp events p).isSome := by
  obtain ⟨event, hevent, rfl⟩ := mem_map.1 hp
  have hmem : event ∈ sortRelations events := (perm_insertionSort _ events).mem_iff.2 hevent
  have hrun :
      ((sortRelations events).filter fun other => other.pair = event.pair).map (·.toMapping) ≠ [] :=
    ne_nil_of_mem (mem_map_of_mem (mem_filter.2 ⟨hmem, decide_eq_true rfl⟩))
  rw [← getLast_run, getLast?_eq_some_getLast hrun]
  rfl

/-- The pairs of the relations are those of the events. -/
theorem pairs_collapseRelations :
    (collapseRelations events).map (·.pair) = ((sortRelations events).map (·.pair)).dedup := by
  rw [collapseRelations_eq, map_filterMap]
  refine (filterMap_congr fun p hp => ?_).trans filterMap_some
  have hpair := mem_dedup.1 ((perm_pairs events).mem_iff.1 hp)
  obtain ⟨op, hop⟩ := Option.isSome_iff_exists.1 (isSome_lastOp events hpair)
  rw [hop]
  rfl

end

theorem mem_pairs_collapseRelations : p ∈ (collapseRelations events).map (·.pair) ↔
    p ∈ events.map (·.pair) := by
  rw [pairs_collapseRelations, (perm_pairs events).mem_iff, mem_dedup]

end Pairs

/-! ## Entries -/

/-- The tags of a record, and its operation. -/
abbrev RelationEntry := ChunkStringEntry × ChunkStringEntry × UInt8

def RelationsFile.resolve (file : RelationsFile) (record : RelationRecord) :
    Option RelationEntry := do
  let a ← file.strings[record.aIndex.val]?
  let b ← file.strings[record.bIndex.val]?
  return (a, b, record.op)

/-- The entry of a pair with a definition of both tags, with the operation of its last event. -/
def entryOf (lookup : TagLookup) (events : List RelationEvent) (p : Word × Word) :
    Option RelationEntry := do
  let a ← lookup p.1
  let b ← lookup p.2
  let op ← lastOp events p
  return (⟨p.1, a⟩, ⟨p.2, b⟩, op.byte)

/-- The records resolve to one entry for each pair of the events that has a definition of both
tags. -/
def RelationsFile.ListsPairs (file : RelationsFile) (lookup : TagLookup)
    (events : List RelationEvent) (records : List RelationRecord) : Prop :=
  (records.map file.resolve).Perm
    (((events.map (·.pair)).dedup.filterMap (entryOf lookup events)).map some)

/-- The tags of some events that have a definition. -/
def definedTags (lookup : TagLookup) (parents siblings : List RelationEvent) :
    List ChunkStringEntry :=
  definedEntries lookup (idsOf ((parents ++ siblings).map (·.pair)))

/-- What a file that was read says of the events, and the statistics of its writing. -/
structure RelationsFile.Describes (file : RelationsFile) (lookup : TagLookup)
    (parents siblings : List RelationEvent) (stats : RelationsFileStats) : Prop where
  strings : file.strings = definedTags lookup parents siblings
  parentPairs : file.ListsPairs lookup parents file.parents
  siblingPairs : file.ListsPairs lookup siblings file.siblings
  missing : stats.missingDefinitions = droppedPairs lookup parents + droppedPairs lookup siblings

/-- The pairs of some events with a definition of both tags. -/
def definedPairs (lookup : TagLookup) (events : List RelationEvent) : ℕ :=
  (events.map (·.pair)).dedup.countP fun p => (lookup p.1).isSome && (lookup p.2).isSome

/-- The size of the body of the file. -/
def relationsBodySize (lookup : TagLookup) (parents siblings : List RelationEvent) : ℕ :=
  ((definedTags lookup parents siblings).map fun entry => 8 + entry.tag.length).sum + 8 +
    9 * (definedPairs lookup parents + definedPairs lookup siblings)

/-- The numbers of the tags and of the pairs and the lengths of the texts fit into 32 bits, and the
buffer of the compressed body into a vector. -/
structure EventsFit (lookup : TagLookup) (parents siblings : List RelationEvent) : Prop where
  strings : (definedTags lookup parents siblings).length < 2 ^ 32
  tags : ∀ entry ∈ definedTags lookup parents siblings, entry.tag.length < 2 ^ 32
  parentPairs : definedPairs lookup parents < 2 ^ 32
  siblingPairs : definedPairs lookup siblings < 2 ^ 32
  body : compressBound (relationsBodySize lookup parents siblings) < 2 ^ 63

section Entries

variable {lookup : TagLookup} {strings : List ChunkStringEntry} {ids : List Word} {id : Word}
  {events : List RelationEvent}

/-- The record of a relation, if both tags are in the table. -/
def recordOf (strings : List ChunkStringEntry) (relation : CollapsedRelation) :
    Option RelationRecord := do
  let a ← idToIndex strings relation.a
  let b ← idToIndex strings relation.b
  return ⟨a, b, relation.op.byte⟩

/-- The loop of `encode`. -/
theorem foldl_encodeRelation (relations : List CollapsedRelation)
    (out : List RelationRecord × ℕ × ℕ) : ∃ count, relations.foldl (encodeRelation strings) out =
    (out.1 ++ relations.filterMap (recordOf strings), count,
      out.2.2 + relations.countP fun relation => (recordOf strings relation).isNone) := by
  induction relations generalizing out with
  | nil => exact ⟨out.2.1, by simp⟩
  | cons relation relations ih =>
    rw [foldl_cons]
    obtain ⟨count, h⟩ := ih (encodeRelation strings out relation)
    refine ⟨count, h.trans ?_⟩
    cases ha : idToIndex strings relation.a <;> cases hb : idToIndex strings relation.b <;>
      simp [encodeRelation, recordOf, ha, hb, Nat.add_assoc, Nat.add_comm 1]

/-- The index of an id leads to its tag. -/
theorem idToIndex_definedEntries (lookup : TagLookup) (hids : ids.Pairwise (· < ·))
    (hid : id ∈ ids) :
    (idToIndex (definedEntries lookup ids) id).map
    (fun index => (definedEntries lookup ids)[index.val]?) =
      (lookup id).map fun text => some ⟨id, text⟩ := by
  have hsome := isSome_idToIndex lookup hid
  cases hindex : idToIndex (definedEntries lookup ids) id with
  | none =>
    rw [hindex, Option.isSome_none, eq_comm, Option.isSome_eq_false_iff,
      Option.isNone_iff_eq_none] at hsome
    rw [hsome]
    rfl
  | some index =>
    obtain ⟨entry, hentry, rfl⟩ :=
      Option.map_eq_some_iff.1 (of_idToIndex (length_definedEntries_le lookup hids) hindex)
    rw [(mem_definedEntries.1 (mem_of_getElem? hentry)).2, Option.map_some, hentry]
    rfl

/-- The records of the relations list the pairs of their events. -/
theorem listsPairs_recordOf {file : RelationsFile} (hids : ids.Pairwise (· < ·))
    (hstrings : file.strings = definedEntries lookup ids)
    (hmem : ∀ p ∈ events.map (·.pair), p.1 ∈ ids ∧ p.2 ∈ ids) :
    file.ListsPairs lookup events
      ((collapseRelations events).filterMap (recordOf file.strings)) := by
  refine .trans (.of_eq ?_) (((perm_pairs events).filterMap _).map _)
  rw [collapseRelations_eq, filterMap_filterMap, map_filterMap, map_filterMap]
  refine filterMap_congr fun p hp => ?_
  obtain ⟨ha, hb⟩ := hmem p (mem_dedup.1 ((perm_pairs events).mem_iff.1 hp))
  have hfound := idToIndex_definedEntries lookup hids ha
  have hfound' := idToIndex_definedEntries lookup hids hb
  rw [← hstrings] at hfound hfound'
  unfold entryOf
  cases lastOp events p <;> cases hindex : idToIndex file.strings p.1 <;> cases htext :
    lookup p.1 <;>
    cases hindex' : idToIndex file.strings p.2 <;> cases htext' : lookup p.2 <;>
    simp_all [recordOf, RelationsFile.resolve]

/-- The relations without a record are the pairs that are dropped. -/
theorem countP_recordOf (hmem : ∀ p ∈ events.map (·.pair), p.1 ∈ ids ∧ p.2 ∈ ids) :
    (collapseRelations events).countP
    (fun relation => (recordOf (definedEntries lookup ids) relation).isNone) =
      droppedPairs lookup events := by
  rw [droppedPairs, ← (perm_pairs events).countP_eq, ← pairs_collapseRelations, countP_map]
  refine countP_congr fun relation hrelation => ?_
  obtain ⟨ha, hb⟩ := hmem relation.pair (mem_pairs_collapseRelations.1 (mem_map_of_mem hrelation))
  simp only [recordOf, Function.comp_apply, ← Option.not_isSome, ← isSome_idToIndex lookup ha,
    ← isSome_idToIndex lookup hb]
  cases hindex : idToIndex (definedEntries lookup ids) relation.a <;>
    cases hindex' : idToIndex (definedEntries lookup ids) relation.b <;>
    simp [CollapsedRelation.pair, hindex, hindex']

theorem mem_idsOf {pairs : List (Word × Word)} :
    id ∈ idsOf pairs ↔ ∃ p ∈ pairs, id = p.1 ∨ id = p.2 := by
  simp only [idsOf, mem_dedup, mem_insertionSort, mem_flatMap, mem_cons, not_mem_nil, or_false]

theorem pairwise_idsOf (pairs : List (Word × Word)) : (idsOf pairs).Pairwise (· < ·) :=
  pairwise_lt_dedup (pairwise_insertionSort _ _)

/-- **What is written** describes the events. -/
theorem describes_buildRelations (lookup : TagLookup) (parents siblings : List RelationEvent) :
    (buildRelations lookup (collapseRelations parents) (collapseRelations siblings)).1.Describes
      lookup parents
      siblings (buildRelations lookup (collapseRelations parents)
        (collapseRelations siblings)).2 := by
  have hids : idsOf ((collapseRelations parents ++ collapseRelations siblings).map (·.pair)) =
      idsOf ((parents ++ siblings).map (·.pair)) := by
    refine Pairwise.eq_of_mem_iff (pairwise_idsOf _) (pairwise_idsOf _) fun id => ?_
    simp only [mem_idsOf, map_append, mem_append, mem_pairs_collapseRelations]
  have hsorted := pairwise_idsOf ((parents ++ siblings).map (·.pair))
  have hmem : ∀ p ∈ (parents ++ siblings).map (·.pair), p.1 ∈ idsOf _ ∧ p.2 ∈ idsOf _ :=
    fun p hp => ⟨mem_idsOf.2 ⟨p, hp, .inl rfl⟩, mem_idsOf.2 ⟨p, hp, .inr rfl⟩⟩
  set ids := idsOf ((parents ++ siblings).map (·.pair))
  rw [map_append] at hmem
  have hparents := fun p hp => hmem p (mem_append_left _ hp)
  have hsiblings := fun p hp => hmem p (mem_append_right _ hp)
  obtain ⟨count, hfold⟩ := @foldl_encodeRelation (definedEntries lookup ids)
    (collapseRelations parents) ([], 0, 0)
  obtain ⟨count', hfold'⟩ :=
    @foldl_encodeRelation (definedEntries lookup ids) (collapseRelations siblings)
    ([], 0, droppedPairs lookup parents)
  simp only [nil_append, Nat.zero_add, countP_recordOf hparents,
    countP_recordOf hsiblings] at hfold hfold'
  simp only [buildRelations, hids, hfold, hfold']
  exact ⟨rfl, listsPairs_recordOf hsorted rfl hparents, listsPairs_recordOf hsorted rfl hsiblings,
    rfl⟩

end Entries

/-! ## The file -/

section File

variable {file : RelationsFile} {parents siblings : List RelationEvent}

/-- What a file counts fits into its fields. -/
structure RelationsFile.Fits (file : RelationsFile) : Prop where
  strings : file.strings.length < 2 ^ 32
  tags : ∀ entry ∈ file.strings, entry.tag.length < 2 ^ 32
  parents : file.parents.length < 2 ^ 32
  siblings : file.siblings.length < 2 ^ 32

theorem reads_relationRecord (record : RelationRecord) :
    Reads readRelationRecord (encodeRelationRecord record) record := by
  have hread : Reads readRelationRecord (encodeRelationRecord record)
      ⟨toWord record.aIndex.val, toWord record.bIndex.val, UInt8.ofNat record.op.toNat⟩ :=
    (reads_word record.aIndex.isLt).bind ((reads_word record.bIndex.isLt).bind
      (reads_unsigned 1 _ record.op.toNat_lt).bind_pure)
  rwa [toWord_val, toWord_val, UInt8.ofNat_toNat] at hread

theorem reads_relations (h : file.Fits) :
    Reads (readRelations file.strings.length) file.encode file := by
  have hstrings := Reads.many (fun entry => entry) fun entry hentry =>
    reads_entry (h.tags entry hentry)
  have hparents := Reads.many (fun record => record) fun record (_ : record ∈ file.parents) =>
    reads_relationRecord record
  have hsiblings := Reads.many (fun record => record) fun record (_ : record ∈ file.siblings) =>
    reads_relationRecord record
  rw [map_id'] at hstrings hparents hsiblings
  exact hstrings.bind ((reads_word h.parents).bind ((reads_word h.siblings).bind
    (hparents.bind hsiblings.bind_pure)))

theorem inflateRelations_eq_ok {zlib : Zlib} {compressed body : List UInt8}
    (hsize : body.length < 2 ^ 63) (h : zlib.uncompress body.length compressed = some body) :
    inflateRelations zlib compressed body.length = .ok body := by
  unfold inflateRelations
  rw [if_neg (by omega)]
  split
  · next hzero => rw [length_eq_zero_iff.1 hzero]
  · simp only [h, takeD_eq_take 0 (le_refl body.length), take_length]

/-- **A file that fits is read back.** -/
theorem readRelationsFile_encode (zlib : Zlib) (h : file.Fits)
    (hsize : compressBound file.encode.length < 2 ^ 63) (recordCount : ℕ) :
    readRelationsFile zlib (encodeHeader ⟨relationsMagic, chunkFormatVersion, file.encode.length,
      recordCount, file.strings.length⟩ ++ zlib.compress file.encode) = .ok file := by
  have hheader := @reads_header ⟨relationsMagic, chunkFormatVersion, file.encode.length,
    recordCount, file.strings.length⟩ rfl (zlib.compress file.encode)
  have hsize' : file.encode.length < 2 ^ 63 := by
    unfold compressBound at hsize
    omega
  simp only [Nat.mod_eq_of_lt (show file.encode.length < 2 ^ 64 by omega),
    Nat.mod_eq_of_lt h.strings] at hheader
  have hbody := reads_relations h []
  rw [append_nil] at hbody
  unfold readRelationsFile
  rw [if_neg (by simp [encodeHeader, relationsMagic, chunkHeaderSize]; omega)]
  refine bind_eq_ok_iff.2 ⟨_, hheader, ?_⟩
  simp only [ne_eq, not_true_eq_false, if_false, chunkFormatVersion, Nat.reducePow, Nat.reduceMod]
  refine bind_eq_ok_iff.2 ⟨_, inflateRelations_eq_ok hsize' (zlib.uncompress_compress _), ?_⟩
  exact bind_eq_ok_iff.2 ⟨_, hbody, rfl⟩

theorem takes_readEntry :
    Takes readEntry fun taken entry =>
      taken = encodeEntry entry ∧ entry.tag.length < 2 ^ 32 := by
  refine (takes_unsigned 4 _).bind fun _ id hid => (takes_unsigned 4 _).bind fun _ length hlength =>
    ?_
  refine (takes_takeBytes length _).bind fun _ tag htag => Takes.pure ?_
  refine ⟨?_, htag.2 ▸ hlength.2⟩
  rw [encodeEntry, hid.1, hlength.1, htag.1, htag.2, val_toWord hid.2, append_nil]

theorem takes_readRelationRecord :
    Takes readRelationRecord fun taken record => taken = encodeRelationRecord record := by
  refine (takes_unsigned 4 _).bind fun _ a ha => (takes_unsigned 4 _).bind fun _ b hb => ?_
  refine (takes_unsigned 1 _).bind fun _ op hop => Takes.pure ?_
  rw [encodeRelationRecord, ha.1, hb.1, hop.1, val_toWord ha.2, val_toWord hb.2,
    UInt8.toNat_ofNat_of_lt' hop.2, append_nil]

/-- What is taken for the body of a file is its encoding, and counts and lengths of what is read
fit. -/
theorem takes_readRelations (stringCount : ℕ) (hcount : stringCount < 2 ^ 32) :
    Takes (readRelations stringCount) fun taken file =>
      taken = file.encode ∧ file.strings.length = stringCount ∧ file.Fits := by
  have hrecords (count : ℕ) :=
    (takes_readRelationRecord.mono fun _ _ h => ⟨h, trivial⟩).many (P := fun _ => True) count
  refine (takes_readEntry.many _).bind fun _ strings hstrings => (takes_unsigned 4 _).bind
    fun _ _ hparents => ?_
  refine (takes_unsigned 4 _).bind fun _ _ hsiblings => (hrecords _).bind fun _ parents hp => ?_
  refine (hrecords _).bind fun _ siblings hs => Takes.pure ?_
  refine ⟨?_, hstrings.2.1, hstrings.2.1 ▸ hcount, hstrings.2.2, hp.2.1 ▸ hparents.2,
    hs.2.1 ▸ hsiblings.2⟩
  rw [RelationsFile.encode, hstrings.1, hparents.1, hsiblings.1, hp.1, hs.1, hp.2.1, hs.2.1,
    append_nil]

/-- What `readRelationsFile` has found when it returns. -/
theorem of_readRelationsFile {zlib : Zlib} {bytes : List UInt8}
    (h : readRelationsFile zlib bytes = .ok file) :
    file.Fits ∧ ∃ header compressed body rest, readHeader.run bytes = .ok (header, compressed) ∧
      header.magic = relationsMagic ∧ header.version = chunkFormatVersion ∧
      header.stringCount < 2 ^ 32 ∧ header.bodySize < 2 ^ 63 ∧
      inflateRelations zlib compressed header.bodySize = .ok body ∧
      (readRelations header.stringCount).run body = .ok (file, rest) := by
  have hheader : Takes readHeader fun _ header => header.stringCount < 2 ^ 32 :=
    (takes_takeBytes 8 _).bind fun _ _ _ => (takes_unsigned 4 _).bind fun _ _ _ =>
      (takes_unsigned 8 _).bind fun _ _ _ => (takes_unsigned 4 _).bind fun _ _ _ =>
        (takes_unsigned 4 _).bind fun _ _ h => Takes.pure h.2
  unfold readRelationsFile at h
  split_ifs at h
  obtain ⟨⟨header, compressed⟩, hread, h⟩ := bind_eq_ok_iff.1 h
  obtain ⟨_, _, hcount⟩ := hheader bytes _ hread
  dsimp only at h
  split_ifs at h with hmagic hversion
  obtain ⟨body, hbody, h⟩ := bind_eq_ok_iff.1 h
  obtain ⟨⟨file', rest⟩, hfile, h⟩ := bind_eq_ok_iff.1 h
  obtain ⟨_, _, _, _, hfits⟩ := takes_readRelations _ hcount body _ hfile
  have hsize : header.bodySize < 2 ^ 63 := by
    by_contra hlarge
    rw [inflateRelations, if_pos (by omega)] at hbody
    cases hbody
  cases h
  exact ⟨hfits, header, compressed, body, rest, hread, not_not.1 hmagic, not_not.1 hversion, hcount,
    hsize, hbody, hfile⟩

theorem length_encode (file : RelationsFile) :
    file.encode.length = (file.strings.map fun entry => 8 + entry.tag.length).sum + 8 +
      9 * (file.parents.length + file.siblings.length) := by
  have hrecords (records : List RelationRecord) :
      (records.flatMap encodeRelationRecord).length = 9 * records.length := by
    simp [length_flatMap, encodeRelationRecord, Nat.mul_comm]
  have hentries : (file.strings.flatMap encodeEntry).length =
      (file.strings.map fun entry => 8 + entry.tag.length).sum := by
    simp [length_flatMap, encodeEntry, ← Nat.add_assoc]
  simp only [RelationsFile.encode, length_append, hrecords, hentries, length_leBytes]
  omega

theorem RelationsFile.ListsPairs.length {lookup : TagLookup} {records : List RelationRecord}
    {events : List RelationEvent} (h : file.ListsPairs lookup events records) :
    records.length = definedPairs lookup events := by
  have hlength := h.length_eq
  rw [length_map, length_map, length_filterMap_eq_countP] at hlength
  refine hlength.trans (countP_congr fun p hp => ?_)
  obtain ⟨op, hop⟩ := Option.isSome_iff_exists.1 (isSome_lastOp events (mem_dedup.1 hp))
  cases hfirst : lookup p.1 <;> cases hsecond : lookup p.2 <;> simp [entryOf, hop, hfirst, hsecond]

/-- What a file that describes some events counts. -/
theorem RelationsFile.Describes.lengths {lookup : TagLookup} {stats : RelationsFileStats}
    (h : file.Describes lookup parents siblings stats) :
    file.parents.length = definedPairs lookup parents ∧
    file.siblings.length = definedPairs lookup siblings ∧
      file.encode.length = relationsBodySize lookup parents siblings := by
  refine ⟨h.parentPairs.length, h.siblingPairs.length, ?_⟩
  rw [length_encode, h.parentPairs.length, h.siblingPairs.length, h.strings]
  rfl

/-- What is written of some events is read back. -/
def RoundTrips (zlib : Zlib) (lookup : TagLookup) (parents siblings : List RelationEvent) : Prop :=
  ∃ bytes stats file, writeRelationsFile zlib lookup (collapseRelations parents)
    (collapseRelations siblings) =
      some (bytes, stats) ∧
    readRelationsFile zlib bytes = .ok file ∧ file.Describes lookup parents siblings stats

/-- What is read back fits, and so does what was written. -/
theorem RoundTrips.fits {zlib : Zlib} {lookup : TagLookup}
    (h : RoundTrips zlib lookup parents siblings) : EventsFit lookup parents siblings := by
  obtain ⟨bytes, stats, file, hwrite, hread, hfile⟩ := h
  have hfits := (of_readRelationsFile hread).1
  obtain ⟨hparents, hsiblings, -⟩ := hfile.lengths
  refine ⟨hfile.strings ▸ hfits.strings, hfile.strings ▸ hfits.tags, hparents ▸ hfits.parents,
    hsiblings ▸ hfits.siblings, ?_⟩
  rw [← (describes_buildRelations lookup parents siblings).lengths.2.2]
  by_contra hsize
  exact nomatch hwrite.symm.trans (if_neg hsize)

/-- **The relations file is read back** just if the numbers and lengths fit into its fields and the
body into memory: the file that was read then has one entry for each pair with a definition of both
tags, with the last operation of the pair, and the statistics count the others. -/
theorem relations_round_trip_iff (zlib : Zlib) (lookup : TagLookup)
    (parents siblings : List RelationEvent) : RoundTrips zlib lookup parents siblings ↔
    EventsFit lookup parents siblings := by
  refine ⟨RoundTrips.fits, fun h => ?_⟩
  have hbuilt := describes_buildRelations lookup parents siblings
  obtain ⟨hparents, hsiblings, hsize⟩ := hbuilt.lengths
  have hfits := RelationsFile.Fits.mk (hbuilt.strings ▸ h.strings) (hbuilt.strings ▸ h.tags)
    (hparents ▸ h.parentPairs) (hsiblings ▸ h.siblingPairs)
  exact ⟨_, _, _, if_pos (hsize ▸ h.body), readRelationsFile_encode zlib hfits (hsize ▸ h.body) _,
    hbuilt⟩

/-- The length of a tag of 4 GiB is stored as zero, and the tag is lost. -/
theorem round_trip_long_tag :
    ¬ RoundTrips ⟨id, fun _ bytes => some bytes, fun _ => rfl⟩
      (fun _ => some (List.replicate (2 ^ 32) 97))
      [⟨1, 1, 0, .add⟩] [] := by
  intro h
  have hlong : ¬ (List.replicate (2 ^ 32) (97 : UInt8)).length < 2 ^ 32 := by
    rw [length_replicate]
    exact lt_irrefl _
  refine hlong (h.fits.tags ⟨1, List.replicate (2 ^ 32) 97⟩ ?_)
  exact mem_definedEntries.2 ⟨mem_idsOf.2 ⟨(1, 1), mem_cons_self .., .inl rfl⟩, rfl⟩

/-! ## Damage -/

/-- Every relation refers to tags of the table. -/
def RelationsFile.InRange (file : RelationsFile) : Prop :=
  ∀ record ∈ file.parents ++ file.siblings,
    record.aIndex.val < file.strings.length ∧ record.bIndex.val < file.strings.length

/-- The data inflates to the size in the header, tags and relations take all of it, there are as
many relations as the header says, and they refer to tags of the table. -/
def Intact (zlib : Zlib) (bytes : List UInt8) (file : RelationsFile) : Prop :=
  ∃ header compressed body, readHeader.run bytes = .ok (header, compressed) ∧
    zlib.uncompress header.bodySize compressed = some body ∧ body.length = header.bodySize ∧
    (readRelations header.stringCount).run body = .ok (file, []) ∧
    file.parents.length + file.siblings.length = header.recordCount ∧ file.InRange

/-- The header that `writeRelationsFile` gives a file. -/
def RelationsFile.header (file : RelationsFile) : ChunkHeader :=
  ⟨relationsMagic, chunkFormatVersion, file.encode.length,
    file.parents.length + file.siblings.length, file.strings.length⟩

/-- The header and the data that was inflated belong together: the data are tables with the numbers
and the size that the header has, and the relations refer to tags of the table. -/
def WellFormed (header : ChunkHeader) (data : List UInt8) : Prop :=
  ∃ contents : RelationsFile, contents.Fits ∧ data = contents.encode ∧ header = contents.header ∧
    contents.InRange

end File

end Idhan.Flatten
