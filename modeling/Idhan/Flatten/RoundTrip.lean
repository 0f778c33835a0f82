import Mathlib.Data.Fintype.Card
import Idhan.Lib.Grouping
import Idhan.Lib.Total
import Idhan.Flatten.Chunk

/-!
# Reading back a chunk file

What `ChunkWriter::finish` writes, `readChunk` reads back, if the counts and lengths fit the 32 bits
that the format has for them.  The table of tags that the chunk has then is in the order of the ids
and defines just the ids that are referred to and have a definition, and the indices of a record
resolve to its ids, without those that have none.

* `readChunk_encodeChunk`: the file gives back the chunk.
* `remapRecords_spec`: the records of the chunk and the statistics.
* `chunk_file_round_trip`: both together.
-/

namespace Idhan.Flatten

open List

/-! ## The bytes -/

theorem toWord_val (w : Word) : toWord w.val = w :=
  Fin.ofNat_val_eq_self w

variable {chunk : Chunk} {records : List PendingRecord} {n : ℕ}

theorem val_toWord (h : n < 2 ^ 32) : (toWord n).val = n :=
  Nat.mod_eq_of_lt h

theorem Sha256.ofBytes_bytes (sha256 : Sha256) : Sha256.ofBytes sha256.bytes = sha256 := by
  obtain ⟨bytes, hlen⟩ := sha256
  simp only [Sha256.ofBytes, Sha256.mk.injEq]
  rw [← hlen, takeD_eq_take _ le_rfl, take_length]

theorem reads_word {what : String} (h : n < 2 ^ 32) : Reads (takeWord what) (leBytes 4 n) n :=
  reads_unsigned 4 _ h

theorem reads_entry {entry : ChunkStringEntry} (h : entry.tag.length < 2 ^ 32) :
    Reads readEntry (encodeEntry entry) entry := by
  have hread : Reads readEntry (encodeEntry entry) ⟨toWord entry.ptrTagId, entry.tag⟩ :=
    (reads_word entry.ptrTagId.isLt).bind
      ((reads_word h).bind (reads_takeBytes entry.tag _).bind_pure)
  rwa [toWord_val] at hread

theorem reads_indices (indices : List Word) :
    Reads (takeIndices indices.length) (indices.flatMap fun index => leBytes 4 index.val)
      indices := by
  have hread : ∀ index ∈ indices,
      Reads (do return toWord (← takeWord "a tag index")) (leBytes 4 index.val)
        (toWord index.val) :=
    fun index _ => (reads_word index.isLt).bind_pure
  have hmany := Reads.many (fun index : Word => toWord index.val) hread
  simp only [toWord_val, map_id'] at hmany
  exact hmany

/-- The counts of a record fit. -/
def ChunkRecord.Fits (record : ChunkRecord) : Prop :=
  record.addIndices.length < 2 ^ 32 ∧ record.delIndices.length < 2 ^ 32

theorem reads_record {record : ChunkRecord} (h : record.Fits) :
    Reads readRecord (encodeRecord record) record := by
  have hsha := reads_takeBytes record.sha256.bytes ReadError.truncatedHash
  rw [record.sha256.length_eq] at hsha
  have hread : Reads readRecord (encodeRecord record)
      ⟨.ofBytes record.sha256.bytes, record.addIndices, record.delIndices⟩ :=
    hsha.bind ((reads_word h.1).bind ((reads_word h.2).bind
      ((reads_indices record.addIndices).bind (reads_indices record.delIndices).bind_pure)))
  rwa [Sha256.ofBytes_bytes] at hread

/-- What a chunk counts fits into the fields of the file. -/
structure Chunk.Fits (chunk : Chunk) : Prop where
  records : chunk.records.length < 2 ^ 32
  strings : chunk.strings.length < 2 ^ 32
  tags : ∀ entry ∈ chunk.strings, entry.tag.length < 2 ^ 32
  indices : ∀ record ∈ chunk.records, record.Fits
  /-- the body is a `std::vector` -/
  body : (encodeBody chunk).length < 2 ^ 64

theorem reads_body (h : chunk.Fits) :
    Reads (readBody chunk.records.length chunk.strings.length) (encodeBody chunk) chunk := by
  have hstrings := Reads.many (fun entry => entry) fun entry hentry =>
    reads_entry (h.tags entry hentry)
  have hrecords := Reads.many (fun record => record) fun record hrecord =>
    reads_record (h.indices record hrecord)
  rw [map_id'] at hstrings hrecords
  exact hstrings.bind hrecords.bind_pure

/-- The fields of a header are read back as far as they fit. -/
theorem reads_header {header : ChunkHeader} (hmagic : header.magic.length = 8) :
    Reads readHeader (encodeHeader header)
      ⟨header.magic, header.version % 2 ^ 32, header.bodySize % 2 ^ 64, header.recordCount % 2 ^ 32,
        header.stringCount % 2 ^ 32⟩ := by
  have hread := reads_takeBytes header.magic ReadError.tooSmall
  rw [hmagic] at hread
  exact hread.bind ((reads_unsigned_mod 4 _ _).bind ((reads_unsigned_mod 8 _ _).bind
    ((reads_unsigned_mod 4 _ _).bind (reads_unsigned_mod 4 _ _).bind_pure)))

theorem inflateBuffer_compress (zlib : Zlib) (body : List UInt8) :
    inflateBuffer zlib (zlib.compress body) body.length = .ok body := by
  unfold inflateBuffer
  split_ifs with h
  · rw [length_eq_zero_iff.1 h]
  · simp only [zlib.uncompress_compress, ne_eq, not_true_eq_false, if_false]

/-- **The file gives back the chunk.** -/
theorem readChunk_encodeChunk (zlib : Zlib) (h : chunk.Fits) :
    readChunk zlib (encodeChunk zlib chunk) = .ok chunk := by
  have hlen : ¬ (encodeChunk zlib chunk).length < chunkHeaderSize := by
    simp only [encodeChunk, encodeHeader, chunkMagic, chunkHeaderSize, length_append,
      length_cons, length_nil, length_leBytes]
    omega
  have hheader := @reads_header ⟨chunkMagic, chunkFormatVersion, (encodeBody chunk).length,
    chunk.records.length, chunk.strings.length⟩ rfl (zlib.compress (encodeBody chunk))
  simp only [Nat.mod_eq_of_lt h.body, Nat.mod_eq_of_lt h.records,
    Nat.mod_eq_of_lt h.strings] at hheader
  have hbody := reads_body h []
  rw [append_nil] at hbody
  unfold readChunk
  rw [if_neg hlen]
  refine bind_eq_ok_iff.2 ⟨_, hheader, ?_⟩
  simp only [ne_eq, not_true_eq_false, if_false]
  refine bind_eq_ok_iff.2 ⟨_, inflateBuffer_compress zlib _, ?_⟩
  exact bind_eq_ok_iff.2 ⟨_, hbody, rfl⟩

/-! ## The chunk -/

/-- The ids at some indices. -/
def Chunk.resolve (chunk : Chunk) (indices : List Word) : List (Option Word) :=
  indices.map fun index => (chunk.strings[index.val]?).map (·.ptrTagId)

/-- A record of a chunk, with ids for its indices. -/
structure ResolvedRecord where
  sha256 : Sha256
  adds : List (Option Word)
  dels : List (Option Word)
  deriving DecidableEq, Repr

/-- The records of a chunk, resolved through its table. -/
def Chunk.contents (chunk : Chunk) : List ResolvedRecord :=
  chunk.records.map fun record =>
    ⟨record.sha256, chunk.resolve record.addIndices, chunk.resolve record.delIndices⟩

/-- A record without the ids that have no definition. -/
def PendingRecord.defined (lookup : TagLookup) (record : PendingRecord) : ResolvedRecord :=
  ⟨record.sha256, (record.addTagIds.filter fun id => (lookup id).isSome).map some,
    (record.delTagIds.filter fun id => (lookup id).isSome).map some⟩

/-- A record refers to an id. -/
def PendingRecord.refersTo (record : PendingRecord) (id : Word) : Prop :=
  id ∈ record.addTagIds ∨ id ∈ record.delTagIds

theorem mem_distinctIds {id : Word} :
    id ∈ distinctIds records ↔ ∃ record ∈ records, record.refersTo id := by
  simp only [distinctIds, mem_dedup, mem_insertionSort, mem_flatMap, mem_append,
    PendingRecord.refersTo]

theorem pairwise_distinctIds (records : List PendingRecord) :
    (distinctIds records).Pairwise (· < ·) := by
  have hsorted := pairwise_insertionSort (α := Word) (· ≤ ·)
    (records.flatMap fun record => record.addTagIds ++ record.delTagIds)
  exact pairwise_lt_dedup hsorted

section Entries

variable {lookup : TagLookup} {ids : List Word} {id : Word} {text : List UInt8}

theorem mem_definedEntries : ⟨id, text⟩ ∈ definedEntries lookup ids ↔
    id ∈ ids ∧ lookup id = some text := by
  rw [definedEntries, mem_filterMap]
  constructor
  · rintro ⟨id', hid, hentry⟩
    obtain ⟨text', htext, heq⟩ := Option.map_eq_some_iff.1 hentry
    cases heq
    exact ⟨hid, htext⟩
  · rintro ⟨hid, htext⟩
    exact ⟨id, hid, by rw [htext]; rfl⟩

theorem pairwise_definedEntries (lookup : TagLookup) (h : ids.Pairwise (· < ·)) :
    (definedEntries lookup ids).Pairwise fun a b => a.ptrTagId < b.ptrTagId := by
  refine Pairwise.filterMap _ (fun a b hlt entry hentry entry' hentry' => ?_) h
  obtain ⟨_, _, rfl⟩ := Option.map_eq_some_iff.1 hentry
  obtain ⟨_, _, rfl⟩ := Option.map_eq_some_iff.1 hentry'
  exact hlt

/-- There are no more tags than ids. -/
theorem length_definedEntries_le (lookup : TagLookup) (h : ids.Pairwise (· < ·)) :
    (definedEntries lookup ids).length ≤ 2 ^ 32 := by
  have hnodup : ((definedEntries lookup ids).map (·.ptrTagId)).Nodup :=
    pairwise_map.2 ((pairwise_definedEntries lookup h).imp fun hlt => hlt.ne)
  have hcard := hnodup.length_le_card
  rwa [length_map, Fintype.card_fin] at hcard

theorem mem_stringTable : ⟨id, text⟩ ∈ stringTable lookup records ↔
    (∃ record ∈ records, record.refersTo id) ∧ lookup id = some text := by
  rw [← mem_distinctIds]
  exact mem_definedEntries

/-- **The table of tags** is in the order of the ids. -/
theorem pairwise_stringTable (lookup : TagLookup) (records : List PendingRecord) :
    (stringTable lookup records).Pairwise fun a b => a.ptrTagId < b.ptrTagId :=
  pairwise_definedEntries lookup (pairwise_distinctIds records)

end Entries

/-! ## Indices -/

section Indices

variable {strings : List ChunkStringEntry} {id : Word}

/-- The index of an id leads back to the id. -/
theorem of_idToIndex (hlen : strings.length ≤ 2 ^ 32) {index : Word}
    (h : idToIndex strings id = some index) : (strings[index.val]?).map (·.ptrTagId) = some id := by
  obtain ⟨i, hi, rfl⟩ := Option.map_eq_some_iff.1 h
  obtain ⟨hlt, hid, _⟩ := findIdx?_eq_some_iff_getElem.1 hi
  rw [val_toWord (hlt.trans_le hlen), getElem?_eq_getElem hlt]
  exact congrArg some (of_decide_eq_true hid)

/-- The ids without an index are those that are not in the table. -/
theorem idToIndex_isSome :
    (idToIndex strings id).isSome = true ↔ ∃ text, ⟨id, text⟩ ∈ strings := by
  rw [idToIndex, Option.isSome_map, findIdx?_isSome, any_eq_true]
  constructor
  · rintro ⟨⟨id', text⟩, hmem, hid⟩
    cases of_decide_eq_true hid
    exact ⟨text, hmem⟩
  · rintro ⟨text, hmem⟩
    exact ⟨_, hmem, decide_eq_true rfl⟩

/-- The statistics after some ids with the given numbers of definitions found and missed. -/
def ChunkStats.count (stats : ChunkStats) (mappings missing : ℕ) : ChunkStats :=
  { stats with
    mappings := stats.mappings + mappings
    missingDefinitions := stats.missingDefinitions + missing }

theorem ChunkStats.count_count (stats : ChunkStats) (a b c d : ℕ) :
    (stats.count a b).count c d = stats.count (a + c) (b + d) := by
  simp only [ChunkStats.count, Nat.add_assoc]

section

variable (strings)

/-- The loop of `remap` keeps the indices of the ids that have one, and counts all ids. -/
theorem foldl_remapId (ids out : List Word) (stats : ChunkStats) :
    ∃ mappings missing, ids.foldl (remapId strings) (out, stats) =
        (out ++ ids.filterMap (idToIndex strings), stats.count mappings missing) ∧
      mappings + missing = ids.length := by
  induction ids generalizing out stats with
  | nil => exact ⟨0, 0, by simp [ChunkStats.count], rfl⟩
  | cons id ids ih =>
    rw [foldl_cons, remapId]
    cases hid : idToIndex strings id with
    | none =>
      obtain ⟨mappings, missing, hfold, hsum⟩ := ih out (stats.count 0 1)
      exact ⟨0 + mappings, 1 + missing,
        by rw [filterMap_cons_none hid, ← ChunkStats.count_count, ← hfold]; rfl, by grind⟩
    | some index =>
      obtain ⟨mappings, missing, hfold, hsum⟩ := ih (out ++ [index]) (stats.count 1 0)
      exact ⟨1 + mappings, 0 + missing,
        by
          rw [filterMap_cons_some hid, ← ChunkStats.count_count, append_cons, ← hfold]; rfl, by
            grind⟩

theorem remapRecord_spec (stats : ChunkStats) (record : PendingRecord) :
    ∃ mappings missing, remapRecord strings stats record =
        (⟨record.sha256, record.addTagIds.filterMap (idToIndex strings),
          record.delTagIds.filterMap (idToIndex strings)⟩, stats.count mappings missing) ∧
      mappings + missing = record.addTagIds.length + record.delTagIds.length := by
  obtain ⟨mappings, missing, hadds, hsum⟩ := foldl_remapId strings record.addTagIds [] stats
  obtain ⟨mappings', missing', hdels, hsum'⟩ :=
    foldl_remapId strings record.delTagIds [] (stats.count mappings missing)
  refine ⟨mappings + mappings', missing + missing', ?_, by omega⟩
  simp only [remapRecord, remap, hadds, hdels, nil_append, ChunkStats.count_count]

/-- **The records of a chunk and its statistics.** -/
theorem remapRecords_spec (stats : ChunkStats) (records : List PendingRecord) :
    ∃ mappings missing, remapRecords strings stats records =
        (records.map fun record => ⟨record.sha256, record.addTagIds.filterMap (idToIndex strings),
          record.delTagIds.filterMap (idToIndex strings)⟩, stats.count mappings missing) ∧
      mappings + missing =
        (records.map fun record => record.addTagIds.length + record.delTagIds.length).sum := by
  induction records generalizing stats with
  | nil => exact ⟨0, 0, rfl, rfl⟩
  | cons record records ih =>
    obtain ⟨mappings, missing, hfirst, hsum⟩ := remapRecord_spec strings stats record
    obtain ⟨mappings', missing', hrest, hsum'⟩ := ih (stats.count mappings missing)
    refine ⟨mappings + mappings', missing + missing', ?_, ?_⟩
    · simp only [remapRecords, hfirst, hrest, map_cons, ChunkStats.count_count]
    · rw [map_cons, sum_cons, ← hsum, ← hsum']
      omega

end

end Indices

/-! ## The file -/

section File

variable {lookup : TagLookup} {records : List PendingRecord} {ids : List Word}

/-- An id of the table has an index just if it has a definition. -/
theorem isSome_idToIndex (lookup : TagLookup) {id : Word} (hid : id ∈ ids) :
    (idToIndex (definedEntries lookup ids) id).isSome = (lookup id).isSome := by
  rw [Bool.eq_iff_iff, idToIndex_isSome, Option.isSome_iff_exists]
  refine exists_congr fun text => ?_
  rw [mem_definedEntries, and_iff_right hid]

/-- The indices of some ids of a record resolve to those that have a definition. -/
theorem resolve_filterMap {chunk : Chunk} (hlen : chunk.strings.length ≤ 2 ^ 32)
    (hids : ∀ id ∈ ids, (idToIndex chunk.strings id).isSome = (lookup id).isSome) :
    chunk.resolve (ids.filterMap (idToIndex chunk.strings)) =
      (ids.filter fun id => (lookup id).isSome).map some := by
  induction ids with
  | nil => rfl
  | cons id ids ih =>
    have hid := hids id (mem_cons_self ..)
    have hrest := ih fun id' hid' => hids id' (mem_cons_of_mem _ hid')
    cases hindex : idToIndex chunk.strings id with
    | none =>
      rw [hindex] at hid
      rw [filterMap_cons_none hindex, filter_cons_of_neg (by rw [← hid]; simp), hrest]
    | some index =>
      rw [hindex] at hid
      rw [filterMap_cons_some hindex, filter_cons_of_pos (by rw [← hid]; rfl), map_cons,
        ← hrest, Chunk.resolve, map_cons, of_idToIndex hlen hindex]
      rfl

/-- The records of a chunk, with indices for their ids. -/
theorem records_buildChunk (lookup : TagLookup) (records : List PendingRecord) :
    (buildChunk lookup records).1.records = records.map fun record =>
      ⟨record.sha256, record.addTagIds.filterMap (idToIndex (stringTable lookup records)),
        record.delTagIds.filterMap (idToIndex (stringTable lookup records))⟩ := by
  obtain ⟨_, _, hremap, _⟩ :=
    remapRecords_spec (stringTable lookup records) ⟨records.length, 0, 0⟩ records
  exact congrArg Prod.fst hremap

/-- The indices of a record resolve to its ids that have a definition. -/
theorem resolve_buildChunk (lookup : TagLookup) {record : PendingRecord}
    (hrecord : record ∈ records) (hids : ∀ id ∈ ids, record.refersTo id) :
    (buildChunk lookup records).1.resolve (ids.filterMap (idToIndex (stringTable lookup records))) =
      (ids.filter fun id => (lookup id).isSome).map some :=
  resolve_filterMap (length_definedEntries_le lookup (pairwise_distinctIds records)) fun id hid =>
    isSome_idToIndex lookup (mem_distinctIds.2 ⟨record, hrecord, hids id hid⟩)

/-- **The contents of a chunk** are the records without the ids that have no definition. -/
theorem contents_buildChunk (lookup : TagLookup) (records : List PendingRecord) :
    (buildChunk lookup records).1.contents = records.map fun record => record.defined lookup := by
  rw [Chunk.contents, records_buildChunk, map_map]
  exact map_congr_left fun record hrecord => congrArg₂ (ResolvedRecord.mk record.sha256)
    (resolve_buildChunk lookup hrecord fun _ => .inl)
    (resolve_buildChunk lookup hrecord fun _ => .inr)

/-- **A chunk file is read back.**  The file that `finish` writes for some records gives a chunk
with their hashes in their order, a table of tags in the order of the ids that defines the ids to
which the records refer and that have a definition, and indices that resolve to the ids of the
records without the undefined ones.  The statistics count every id once. -/
theorem chunk_file_round_trip (zlib : Zlib) (lookup : TagLookup) (records : List PendingRecord)
    (path : String) (hfits : (buildChunk lookup records).1.Fits) :
    ∃ file stats writer chunk,
      (ChunkWriter.mk records false).finish zlib lookup path = .ok ((file, stats), writer) ∧
      readChunk zlib file = .ok chunk ∧
      chunk.records.map (·.sha256) = records.map (·.sha256) ∧
      (chunk.strings.Pairwise fun a b => a.ptrTagId < b.ptrTagId) ∧
      (∀ id text, ⟨id, text⟩ ∈ chunk.strings ↔
        (∃ record ∈ records, record.refersTo id) ∧ lookup id = some text) ∧
      List.Forall₂ (fun record read =>
        chunk.resolve read.addIndices =
          (record.addTagIds.filter fun id => (lookup id).isSome).map some ∧
        chunk.resolve read.delIndices =
          (record.delTagIds.filter fun id => (lookup id).isSome).map some) records chunk.records ∧
      stats.mappings + stats.missingDefinitions =
        (records.map fun record => record.addTagIds.length + record.delTagIds.length).sum := by
  obtain ⟨mappings, missing, hremap, hsum⟩ :=
    remapRecords_spec (stringTable lookup records) ⟨records.length, 0, 0⟩ records
  have hrecords := records_buildChunk lookup records
  have hstats : (buildChunk lookup records).2 =
      ChunkStats.count ⟨records.length, 0, 0⟩ mappings missing :=
    congrArg Prod.snd hremap
  refine ⟨encodeChunk zlib (buildChunk lookup records).1, (buildChunk lookup records).2,
    ⟨records, true⟩, (buildChunk lookup records).1, rfl, readChunk_encodeChunk zlib hfits, ?_,
    pairwise_stringTable lookup records, fun id text => mem_stringTable, ?_, ?_⟩
  · rw [hrecords, map_map]
    rfl
  · rw [hrecords, forall₂_map_right_iff, forall₂_same]
    intro record hrecord
    exact ⟨resolve_buildChunk lookup hrecord fun _ => .inl,
      resolve_buildChunk lookup hrecord fun _ => .inr⟩
  · rw [hstats, ← hsum]
    simp only [ChunkStats.count, Nat.zero_add]

end File

/-- A record with an id twice and with an id that has no definition, and no compression. -/
theorem chunk_file_round_trip_undefined :
    ∃ (file : List UInt8) (stats : ChunkStats) (chunk : Chunk),
    readChunk ⟨id, fun _ bytes => some bytes, fun _ => rfl⟩ file = .ok chunk ∧
      chunk.records.map (fun record => chunk.resolve record.addIndices) =
        [[some 5, some 3, some 5]] ∧
      stats.mappings + stats.missingDefinitions = 4 := by
  have hfits : (buildChunk (fun id => if id = 7 then none else some [id.val.toUInt8])
      [⟨.ofBytes [], [5, 3, 5], [7]⟩]).1.Fits :=
    ⟨by decide +kernel, by decide +kernel, by decide +kernel, by
      intro record hrecord
      rw [mem_singleton.1 (show record ∈ [⟨.ofBytes [], [1, 0, 1], []⟩] from hrecord)]
      exact ⟨by decide, by decide⟩, by decide +kernel⟩
  obtain ⟨file, stats, _, chunk, _, hread, _, _, _, hrecords, hsum⟩ := chunk_file_round_trip
    ⟨id, fun _ bytes => some bytes, fun _ => rfl⟩ _ _ "chunk-00000.idhanptr" hfits
  refine ⟨file, stats, chunk, hread, ?_, hsum⟩
  obtain ⟨read, _, ⟨hadds, _⟩, hnil, hchunk⟩ := forall₂_cons_left_iff.1 hrecords
  obtain rfl := forall₂_nil_left_iff.1 hnil
  rw [hchunk, map_singleton, hadds]
  rfl

end Idhan.Flatten
