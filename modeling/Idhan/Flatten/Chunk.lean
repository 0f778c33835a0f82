import Mathlib.Data.List.Dedup
import Mathlib.Data.List.Sort
import Mathlib.Data.List.TakeDrop
import Mathlib.Order.Fin.Basic
import Idhan.Lib.Codec

/-!
# Chunk files

`ChunkWriter` and `readChunk` of `ptr-core/src/ChunkFormat.cpp`.  A chunk file is a header and a
compressed body; the body is a table of tags followed by records, which refer to tags by their place
in the table.

The compression is that of zlib, of which only `uncompress` after `compress` is asked to give back
the bytes.  Numbers are stored with the least significant byte first.  `usage`, which the writer
marks with the ids of the table, plays no part in the file.
-/

namespace Idhan.Flatten

/-- `std::uint32_t`. -/
abbrev Word := Fin (2 ^ 32)

/-- `static_cast< std::uint32_t >`. -/
def toWord (n : ℕ) : Word :=
  Fin.ofNat (2 ^ 32) n

def sha256Bytes : ℕ := 32

/-- A hash, as its bytes. -/
structure Sha256 where
  bytes : List UInt8
  length_eq : bytes.length = sha256Bytes
  deriving DecidableEq, Repr

/-- `memcpy` of the bytes of a hash. -/
def Sha256.ofBytes (bytes : List UInt8) : Sha256 :=
  ⟨bytes.takeD sha256Bytes 0, List.takeD_length ..⟩

structure PendingRecord where
  sha256 : Sha256
  addTagIds : List Word
  delTagIds : List Word
  deriving DecidableEq, Repr

structure ChunkStringEntry where
  ptrTagId : Word
  tag : List UInt8
  deriving DecidableEq, Repr

structure ChunkRecord where
  sha256 : Sha256
  addIndices : List Word
  delIndices : List Word
  deriving DecidableEq, Repr

structure Chunk where
  strings : List ChunkStringEntry
  records : List ChunkRecord
  deriving DecidableEq, Repr

structure ChunkStats where
  records : ℕ
  mappings : ℕ
  missingDefinitions : ℕ
  deriving DecidableEq, Repr

abbrev TagLookup := Word → Option (List UInt8)

/-- What the format uses of zlib. -/
structure Zlib where
  /-- `compress2` -/
  compress : List UInt8 → List UInt8
  /-- `uncompress` into a buffer of the given size: the bytes that it produces, unless it fails -/
  uncompress : ℕ → List UInt8 → Option (List UInt8)
  uncompress_compress : ∀ bytes, uncompress bytes.length (compress bytes) = some bytes

/-! ## Writing -/

/-- The ids to which the records refer, in ascending order and each once. -/
def distinctIds (records : List PendingRecord) : List Word :=
  ((records.flatMap fun record => record.addTagIds ++ record.delTagIds).insertionSort (· ≤ ·)).dedup

/-- The tags of the ids that have a definition. -/
def definedEntries (lookup : TagLookup) (ids : List Word) : List ChunkStringEntry :=
  ids.filterMap fun id => (lookup id).map fun text => ⟨id, text⟩

/-- The table of tags: the ids that have a definition. -/
def stringTable (lookup : TagLookup) (records : List PendingRecord) : List ChunkStringEntry :=
  definedEntries lookup (distinctIds records)

def idToIndex (strings : List ChunkStringEntry) (id : Word) : Option Word :=
  (strings.findIdx? fun entry => entry.ptrTagId = id).map toWord

/-- One round of `remap`. -/
def remapId (strings : List ChunkStringEntry) (out : List Word × ChunkStats) (id : Word) :
    List Word × ChunkStats :=
  match idToIndex strings id with
  | none => (out.1, { out.2 with missingDefinitions := out.2.missingDefinitions + 1 })
  | some index => (out.1 ++ [index], { out.2 with mappings := out.2.mappings + 1 })

/-- `remap`, with the statistics that it updates. -/
def remap (strings : List ChunkStringEntry) (stats : ChunkStats) (ids : List Word) :
    List Word × ChunkStats :=
  ids.foldl (remapId strings) ([], stats)

/-- The record with indices for its ids. -/
def remapRecord (strings : List ChunkStringEntry) (stats : ChunkStats) (record : PendingRecord) :
    ChunkRecord × ChunkStats :=
  let (adds, stats) := remap strings stats record.addTagIds
  let (dels, stats) := remap strings stats record.delTagIds
  (⟨record.sha256, adds, dels⟩, stats)

/-- The records of the chunk, one after the other. -/
def remapRecords (strings : List ChunkStringEntry) :
    ChunkStats → List PendingRecord → List ChunkRecord × ChunkStats
  | stats, [] => ([], stats)
  | stats, record :: records =>
    let (first, stats) := remapRecord strings stats record
    let (rest, stats) := remapRecords strings stats records
    (first :: rest, stats)

/-- What `ChunkWriter::finish` writes, and the statistics that it returns. -/
def buildChunk (lookup : TagLookup) (records : List PendingRecord) : Chunk × ChunkStats :=
  let strings := stringTable lookup records
  let (remapped, stats) := remapRecords strings ⟨records.length, 0, 0⟩ records
  (⟨strings, remapped⟩, stats)

/-- An entry of the table in the body. -/
def encodeEntry (entry : ChunkStringEntry) : List UInt8 :=
  leBytes 4 entry.ptrTagId.val ++ (leBytes 4 entry.tag.length ++ entry.tag)

/-- A record in the body. -/
def encodeRecord (record : ChunkRecord) : List UInt8 :=
  record.sha256.bytes ++ (leBytes 4 record.addIndices.length ++
    (leBytes 4 record.delIndices.length ++
    ((record.addIndices.flatMap fun index => leBytes 4 index.val) ++
      record.delIndices.flatMap fun index => leBytes 4 index.val)))

/-- The body of the file. -/
def encodeBody (chunk : Chunk) : List UInt8 :=
  chunk.strings.flatMap encodeEntry ++ chunk.records.flatMap encodeRecord

/-- `CHUNK_MAGIC`: `IDHANPTC`. -/
def chunkMagic : List UInt8 := [73, 68, 72, 65, 78, 80, 84, 67]

def chunkFormatVersion : ℕ := 2

/-- `sizeof( ChunkHeader )`. -/
def chunkHeaderSize : ℕ := 28

structure ChunkHeader where
  magic : List UInt8
  version : ℕ
  bodySize : ℕ
  recordCount : ℕ
  stringCount : ℕ

/-- The header in the file. -/
def encodeHeader (header : ChunkHeader) : List UInt8 :=
  header.magic ++ (leBytes 4 header.version ++ (leBytes 8 header.bodySize ++
    (leBytes 4 header.recordCount ++ leBytes 4 header.stringCount)))

/-- The file. -/
def encodeChunk (zlib : Zlib) (chunk : Chunk) : List UInt8 :=
  let body := encodeBody chunk
  encodeHeader ⟨chunkMagic, chunkFormatVersion, body.length, chunk.records.length,
    chunk.strings.length⟩ ++ zlib.compress body

structure ChunkWriter where
  records : List PendingRecord
  finished : Bool

/-- The error of a second call of `finish`, with its text. -/
def finishedTwice (path : String) : String :=
  s!"ChunkWriter::finish called twice for {path}"

/-- `ChunkWriter::finish`: the content of the file and the statistics, and the writer afterwards. -/
def ChunkWriter.finish (writer : ChunkWriter) (zlib : Zlib) (lookup : TagLookup) (path : String) :
    Except String ((List UInt8 × ChunkStats) × ChunkWriter) :=
  if writer.finished then
    .error (finishedTwice path)
  else
    let (chunk, stats) := buildChunk lookup writer.records
    .ok ((encodeChunk zlib chunk, stats), { writer with finished := true })

/-! ## Reading -/

/-- The errors of `readChunk`. -/
inductive ReadError where
  | tooSmall
  | wrongMagic
  | wrongVersion (version : ℕ)
  | uncompressFailed
  | inflatedSize (produced expected : ℕ)
  | truncated (what : String)
  | truncatedStrings
  | truncatedHash
  /-- `std::length_error`, of a vector -/
  | lengthError
  deriving DecidableEq, Repr

/-- `takePod< std::uint32_t >`. -/
def takeWord (what : String) : Reader ReadError ℕ :=
  takeUnsigned 4 (.truncated what)

/-- An entry of the table of tags. -/
def readEntry : Reader ReadError ChunkStringEntry := do
  let id ← takeWord "a string table id"
  let length ← takeWord "a string table length"
  let tag ← takeBytes length .truncatedStrings
  return ⟨toWord id, tag⟩

def takeIndices (count : ℕ) : Reader ReadError (List Word) :=
  readMany (do return toWord (← takeWord "a tag index")) count

/-- A record. -/
def readRecord : Reader ReadError ChunkRecord := do
  let sha256 ← takeBytes sha256Bytes .truncatedHash
  let addCount ← takeWord "an add count"
  let delCount ← takeWord "a delete count"
  let adds ← takeIndices addCount
  let dels ← takeIndices delCount
  return ⟨.ofBytes sha256, adds, dels⟩

/-- The body of a file with the counts of its header. -/
def readBody (recordCount stringCount : ℕ) : Reader ReadError Chunk := do
  let strings ← readMany readEntry stringCount
  let records ← readMany readRecord recordCount
  return ⟨strings, records⟩

def inflateBuffer (zlib : Zlib) (input : List UInt8) (expectedSize : ℕ) :
    Except ReadError (List UInt8) :=
  if expectedSize = 0 then
    .ok []
  else
    match zlib.uncompress expectedSize input with
    | none => .error .uncompressFailed
    | some produced =>
      if produced.length ≠ expectedSize then
        .error (.inflatedSize produced.length expectedSize)
      else
        .ok produced

/-- The header of a file that is large enough. -/
def readHeader : Reader ReadError ChunkHeader := do
  let magic ← takeBytes 8 .tooSmall
  let version ← takeUnsigned 4 .tooSmall
  let bodySize ← takeUnsigned 8 .tooSmall
  let recordCount ← takeUnsigned 4 .tooSmall
  let stringCount ← takeUnsigned 4 .tooSmall
  return ⟨magic, version, bodySize, recordCount, stringCount⟩

def readChunk (zlib : Zlib) (file : List UInt8) : Except ReadError Chunk :=
  if file.length < chunkHeaderSize then
    .error .tooSmall
  else do
    let (header, compressed) ← readHeader.run file
    if header.magic ≠ chunkMagic then
      .error .wrongMagic
    else if header.version ≠ chunkFormatVersion then
      .error (.wrongVersion header.version)
    else
      let body ← inflateBuffer zlib compressed header.bodySize
      -- what the body holds beyond the counted records is not looked at
      let (chunk, _) ← (readBody header.recordCount header.stringCount).run body
      .ok chunk

end Idhan.Flatten
