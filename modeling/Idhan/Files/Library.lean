import Idhan.Flatten.Chunk
import Idhan.Lib.Total
import Mathlib.Algebra.Order.Ring.Rat

/-!
# Files of the records

The tables `records` and `file_info` and the files of the clusters, as far as a record is connected
with its file.  A row of `file_info` assigns the record to a cluster; the name of the file there
comes from the hash of the record and from an extension.

What the server is given is in `Host`: the configuration of the clusters as `ClusterManager` has
read it, the table of the mime types, and what the markers of the clusters, the file system and the
scanners answer.  They answer the same during one request.  The usage counters of the clusters are
kept by triggers, and are given here.

* `findRecordFilePath`: the path of the file of a record, with the statement
  `find_record_file_path`.
* `findPresentRecordFilePath`: the same for a file that is there; a record whose file is not there
  loses its cluster.
* `Library.Keeps`: what finding a file keeps.
* `Library.Findable`: the path of the file of a record is the path of a file with this content.
-/

namespace Idhan.Files

open List Option

open Flatten (Sha256)

abbrev Text := List Char

abbrev Data := List UInt8

/-! ## Paths -/

/-- `SHA256::hex`. -/
def hex (sha256 : Sha256) : Text :=
  sha256.bytes.flatMap fun byte => [Nat.digitChar (byte.toNat / 16),
    Nat.digitChar (byte.toNat % 16)]

/-- `if ( extension.starts_with( '.' ) ) extension.remove_prefix( 1 )`. -/
def withoutDot : Text → Text
  | '.' :: extension => extension
  | extension => extension

/-- The name of the file with a hash and an extension that has no dot. -/
def filename (sha256 : Sha256) (extension : Text) : Text :=
  if extension = [] then hex sha256 else hex sha256 ++ '.' :: extension

def getClusterRelativePath (sha256 : Sha256) (extension : Text) : Text :=
  'f' :: (hex sha256).take 2 ++ '/' :: filename sha256 (withoutDot extension)

/-- `path / path`. -/
def join (root relative : Text) : Text :=
  root ++ '/' :: relative

theorem filename_injective (sha256 : Sha256) : Function.Injective (filename sha256) := by
  intro first second h
  unfold filename at h
  split at h <;> split at h
  · next hfirst hsecond => rw [hfirst, hsecond]
  · simp at h
  · simp at h
  · exact List.cons.inj (append_cancel_left h) |>.2

/-- Two extensions name the same file in a cluster only if they are the same up to a dot. -/
theorem join_getClusterRelativePath_eq_iff {root : Text} {sha256 : Sha256} {first second : Text} :
    join root (getClusterRelativePath sha256 first) =
      join root (getClusterRelativePath sha256 second) ↔ withoutDot first = withoutDot second := by
  refine ⟨fun h => filename_injective sha256 ?_,
    fun h => by rw [getClusterRelativePath, getClusterRelativePath, h]⟩
  have hrelative := (List.cons.inj (append_cancel_left h)).2
  exact (List.cons.inj (append_cancel_left hrelative)).2

/-! ## Clusters -/

structure ClusterInfo where
  id : ℕ
  path : Text
  readOnly : Bool
  sizeLimit : ℤ
  deriving DecidableEq, Repr

/-- A cluster to which a file may go.  The score, a `double`, says how full it is. -/
structure ClusterCandidate where
  id : ℕ
  score : ℚ
  deriving DecidableEq, Repr

/-- What the server is given. -/
structure Host where
  /-- the configuration of `ClusterManager` -/
  clusters : List ClusterInfo
  /-- `cluster_id` and `size_used` of the table `file_clusters` -/
  usage : List (ℕ × ℤ)
  /-- `std::ranges::sort` by the score, which leaves open how candidates with one score are
  ordered -/
  sorts : List ClusterCandidate → List ClusterCandidate
  sorts_perm : ∀ candidates, (sorts candidates).Perm candidates
  sorts_sorted : ∀ candidates, (sorts candidates).Pairwise fun first second => first.score ≤
    second.score
  /-- the table `mime`: `best_extension` -/
  mimes : ℕ → Option (Option Text)
  /-- whether a module parses files of a mime type -/
  hasParser : ℕ → Bool
  /-- `CallInput::forPath` -/
  inputs : Text → Except Text Unit
  /-- the module parses a file: the hashes of the files that it contains -/
  parses : Text → Except Text (List Sha256)
  /-- `ClusterAccess::open` -/
  opens : ClusterInfo → Except Text Unit
  /-- `ClusterAccess::verify` -/
  verifies : ClusterInfo → Except Text Unit
  /-- the error of `std::filesystem::status`, other than that there is no such file -/
  inspects : Text → Except Text Unit
  /-- whether a file can be read -/
  readable : Text → Bool
  /-- `SHA256::hash` -/
  hash : Data → Sha256
  /-- `getFileTimes`: the time of the last change and of the creation, in microseconds -/
  fileTimes : Text → Option (ℤ × Option ℤ)
  identifyMime : Data → Text → ℕ
  identifyMimeForPath : Data → Text → ℕ
  createDirectories : Text → Except Text Unit
  /-- whether a file can be opened for writing -/
  opensFile : Text → Bool
  /-- and whether it can be written -/
  writesFile : Text → Bool
  /-- the error of `renameat2`, other than that there is no such file or that there is one -/
  renames : Text → Text → Except Text Unit
  now : ℤ

namespace Host

/-- `ClusterManager::find`. -/
def find (host : Host) (id : ℕ) : Option ClusterInfo :=
  host.clusters.find? fun info => info.id = id

def openCluster (host : Host) (id : ℕ) : Except Text ClusterInfo :=
  match host.find id with
  | none => .error "Cluster does not exist".toList
  | some info => do
    host.opens info
    return info

/-- `best_extension` of a mime type. -/
def bestExtension (host : Host) (mimeId : ℕ) : Option Text :=
  (host.mimes mimeId).join

end Host

/-- `mime_ids::UNKNOWN`. -/
def unknownMime : ℕ := 1

/-! ## Tables -/

/-- A row of `records`. -/
structure Record where
  id : ℕ
  sha256 : Sha256
  deriving DecidableEq, Repr

/-- A row of `file_info`, with the check that it has a mime type or an extension. -/
structure FileInfo where
  size : ℤ
  clusterStoreTime : Option ℤ
  clusterDeleteTime : Option ℤ
  fileMtime : Option ℤ
  fileCtime : Option ℤ
  mimeId : Option ℕ
  clusterId : Option ℕ
  extension : Option Text
  mime_check : mimeId ≠ none ∨ extension ≠ none
  deriving DecidableEq, Repr

/-- What names the file of a row. -/
def FileInfo.names (row : FileInfo) : Option ℕ × Option Text :=
  (row.mimeId, row.extension)

/-- The tables, the files of the clusters, and which files were written. -/
structure Library where
  records : List Record
  /-- the next `record_id` -/
  nextRecord : ℕ
  fileInfo : ℕ → Option FileInfo
  /-- whether the record has a row of `metadata` -/
  hasMetadata : ℕ → Bool
  /-- the regular files -/
  files : Text → Option Data
  /-- the paths that were written, in their order -/
  written : List Text
  /-- the primary key of `records` -/
  primary : (records.map Record.id).Nodup
  below : ∀ record ∈ records, record.id < nextRecord
  /-- the reference of `file_info` to `records` -/
  foreign : ∀ id row, fileInfo id = some row → ∃ record ∈ records, record.id = id

namespace Library

/-- A library without records. -/
def empty (files : Text → Option Data) : Library :=
  ⟨[], 1, fun _ => none, fun _ => false, files, [], .nil, forall_mem_nil _,
    fun _ _ h => absurd h.symm (some_ne_none _)⟩

def recordForHash (library : Library) (sha256 : Sha256) : Option ℕ :=
  (library.records.find? fun record => record.sha256 = sha256).map Record.id

def ensureRecord (library : Library) (sha256 : Sha256) : ℕ × Library :=
  match library.recordForHash sha256 with
  | some id => (id, library)
  | none =>
    (library.nextRecord,
      { library with
        records := library.records ++ [⟨library.nextRecord, sha256⟩]
        nextRecord := library.nextRecord + 1
        primary := by
          rw [map_append]
          refine library.primary.append (nodup_singleton _) (disjoint_singleton.2 fun h => ?_)
          obtain ⟨record, hrecord, hid⟩ := mem_map.1 h
          exact (library.below record hrecord).ne hid
        below := by
          intro record hrecord
          obtain hrecord | hrecord := mem_append.1 hrecord
          · exact Nat.lt_succ_of_lt (library.below record hrecord)
          · rw [mem_singleton.1 hrecord]
            exact Nat.lt_succ_self _
        foreign := by
          intro id row hrow
          obtain ⟨record, hrecord, hid⟩ := library.foreign id row hrow
          exact ⟨record, mem_append_left _ hrecord, hid⟩ })

/-- An `UPDATE` of the row of a record. -/
def updateRow (library : Library) (id : ℕ) (f : FileInfo → FileInfo) : Library :=
  { library with
    fileInfo := fun other =>
      if other = id then (library.fileInfo other).map f else library.fileInfo other
    foreign := by
      intro other row hrow
      split at hrow
      · obtain ⟨old, hold, -⟩ := map_eq_some_iff.1 hrow
        exact library.foreign other old hold
      · exact library.foreign other row hrow }

/-- The references of `file_info`: the record, the mime type and the cluster of a row exist. -/
def Refers (host : Host) (library : Library) (id : ℕ) (row : FileInfo) : Prop :=
  (∃ record ∈ library.records, record.id = id) ∧
    (∀ mimeId ∈ row.mimeId, (host.mimes mimeId).isSome) ∧
    ∀ clusterId ∈ row.clusterId, clusterId ∈ host.usage.map Prod.fst

instance (host : Host) (library : Library) (id : ℕ) (row : FileInfo) :
    Decidable (library.Refers host id row) :=
  inferInstanceAs (Decidable (_ ∧ _ ∧ _))

/-- A row is put in place of the one that is there.  It raises where a reference is to nothing. -/
def putRow (host : Host) (id : ℕ) (row : FileInfo) (library : Library) : Option Library :=
  if h : library.Refers host id row then
    some { library with
      fileInfo := fun other => if other = id then some row else library.fileInfo other
      foreign := by
        intro other old hold
        split at hold
        · next heq => exact heq ▸ h.1
        · exact library.foreign other old hold }
  else none

/-- An `INSERT` of a row, with `ON CONFLICT DO NOTHING`. -/
def insertRow (host : Host) (id : ℕ) (row : FileInfo) (library : Library) : Option Library :=
  if (library.fileInfo id).isSome then some library else library.putRow host id row

/-- A file is written. -/
def writeFile (library : Library) (path : Text) (data : Data) : Library :=
  { library with
    files := fun other => if other = path then some data else library.files other
    written := library.written ++ [path] }

/-- A file is moved. -/
def moveFile (library : Library) (source target : Text) : Library :=
  { library with
    files := fun other =>
      if other = target then library.files source
        else if other = source then none else library.files other }

/-- The row of `metadata` is written. -/
def writeMetadata (library : Library) (id : ℕ) : Library :=
  { library with hasMetadata := fun other => other = id || library.hasMetadata other }

def detachMissingRecordFile (library : Library) (id clusterId : ℕ) : Library :=
  library.updateRow id fun row =>
    if row.clusterId = some clusterId ∧ row.clusterDeleteTime = none then { row with
      clusterId := none } else row

end Library

/-! ## The file of a record -/

structure VerifiedRecordPath where
  cluster : ClusterInfo
  relative : Text
  clusterId : ℕ
  deriving DecidableEq, Repr

/-- `VerifiedRecordPath::path`. -/
def VerifiedRecordPath.path (location : VerifiedRecordPath) : Text :=
  join location.cluster.path location.relative

/-- `COALESCE(m.best_extension, '')`. -/
def FileInfo.mimeExtension (host : Host) (row : FileInfo) : Text :=
  (row.mimeId.bind host.bestExtension).getD []

/-- `COALESCE(fi.extension, m.best_extension, '')`. -/
def FileInfo.resolvedExtension (host : Host) (row : FileInfo) : Text :=
  row.extension.getD (row.mimeExtension host)

/-- The statement `find_record_file_path`. -/
def findRecordFilePathRow (host : Host) (id : ℕ) (library : Library) :
    Option (ℕ × Sha256 × Text) := do
  let record ← library.records.find? fun record => record.id = id
  let row ← library.fileInfo id
  let clusterId ← row.clusterId
  return (clusterId, record.sha256, row.resolvedExtension host)

def findRecordFilePath (host : Host) (id : ℕ) (library : Library) :
    Except Text (Option VerifiedRecordPath) :=
  match findRecordFilePathRow host id library with
  | none => return none
  | some (clusterId, sha256, extension) => do
    let cluster ← host.openCluster clusterId
    return some ⟨cluster, getClusterRelativePath sha256 extension, clusterId⟩

def findPresentRecordFilePath (host : Host) (id : ℕ) (library : Library) :
    Except Text (Option VerifiedRecordPath × Library) := do
  match ← findRecordFilePath host id library with
  | none => return (none, library)
  | some location =>
    (host.inspects location.path).mapError fun message =>
      "Cannot inspect record ".toList ++ (toString id).toList ++ ": ".toList ++ message
    host.verifies location.cluster
    if (library.files location.path).isSome then return (some location, library)
    else return (none, library.detachMissingRecordFile id location.clusterId)

/-! ## The metadata of a record -/

structure MetadataError where
  status : ℕ
  message : Text
  deriving DecidableEq, Repr

/-- `parseRecordMetadata`, of which only the hashes of the files in an archive are kept. -/
def parseRecordMetadata (host : Host) (id mimeId : ℕ) (path : Text) :
    Except MetadataError (List Sha256) :=
  if host.hasParser mimeId then do
    (host.inputs path).mapError fun message =>
      ⟨500, "Failed to open the file for record ".toList ++ (toString id).toList ++ ": ".toList ++
        message⟩
    (host.parses path).mapError fun message =>
      ⟨500, "Module failed to parse data for record ".toList ++ (toString id).toList ++
        ": ".toList ++ message⟩
  else .error ⟨400, "No parser found for mime id ".toList ++ (toString mimeId).toList⟩

def updateRecordFileTimesForScan (host : Host) (id : ℕ) (path : Text) (library : Library) :
    Library :=
  match host.fileTimes path with
  | none => library
  | some (mtime, ctime) =>
    library.updateRow id fun row => { row with fileMtime := some mtime, fileCtime := ctime }

/-- `storeRecordMetadata`: the files in an archive get records. -/
def storeRecordMetadata (host : Host) (id : ℕ) (cluster : ClusterInfo) (path : Text)
    (contained : List Sha256) (library : Library) : Except MetadataError Library := do
  (host.verifies cluster).mapError (⟨503, ·⟩)
  let library := contained.foldl (fun library sha256 => (library.ensureRecord sha256).2)
    (library.writeMetadata id)
  return updateRecordFileTimesForScan host id path library

/-! ## What finding a file keeps -/

/-- The records and the files, and what names the file of each row, are the same. -/
structure Library.Keeps (library library' : Library) : Prop where
  records : library'.records = library.records
  files : library'.files = library.files
  written : library'.written = library.written
  names : ∀ id, (library'.fileInfo id).map FileInfo.names = (library.fileInfo id).map FileInfo.names

namespace Library

theorem Keeps.refl (library : Library) : library.Keeps library :=
  ⟨rfl, rfl, rfl, fun _ => rfl⟩

variable {library₁ library₂ library₃ : Library}

theorem Keeps.trans (h₁₂ : library₁.Keeps library₂) (h₂₃ : library₂.Keeps library₃) :
    library₁.Keeps library₃ :=
  ⟨h₂₃.records.trans h₁₂.records, h₂₃.files.trans h₁₂.files, h₂₃.written.trans h₁₂.written,
    fun id => (h₂₃.names id).trans (h₁₂.names id)⟩

theorem keeps_updateRow (library : Library) (id : ℕ) {f : FileInfo → FileInfo}
    (hf : ∀ row, (f row).names = row.names) : library.Keeps (library.updateRow id f) := by
  refine ⟨rfl, rfl, rfl, fun other => ?_⟩
  simp only [updateRow]
  split
  · rw [Option.map_map]
    exact Option.map_congr fun row _ => hf row
  · rfl

theorem fileInfo_updateRow (library : Library) (id : ℕ) (f : FileInfo → FileInfo) :
    (library.updateRow id f).fileInfo id = (library.fileInfo id).map f :=
  if_pos rfl

theorem keeps_detachMissingRecordFile (library : Library) (id clusterId : ℕ) :
    library.Keeps (library.detachMissingRecordFile id clusterId) := by
  refine library.keeps_updateRow id fun row => ?_
  split <;> rfl

variable {library : Library} {new : FileInfo} {library' : Library} {id : ℕ} {host : Host}

/-- The record with an identifier is found by it. -/
theorem find?_id {record : Record} (h : record ∈ library.records) :
    (library.records.find? fun other => other.id = record.id) = some record := by
  have hsome : (library.records.find? fun other => other.id = record.id).isSome :=
    find?_isSome.2 ⟨record, h, decide_eq_true rfl⟩
  obtain ⟨found, hfound⟩ := isSome_iff_exists.1 hsome
  have hid : found.id = record.id := by simpa using find?_some hfound
  rw [hfound, inj_on_of_nodup_map library.primary (mem_of_find?_eq_some hfound) h hid]

section

variable (library) (sha256 : Sha256)

@[simp] theorem files_ensureRecord : (library.ensureRecord sha256).2.files = library.files := by
  unfold ensureRecord
  split <;> rfl

@[simp] theorem written_ensureRecord :
    (library.ensureRecord sha256).2.written = library.written := by
  unfold ensureRecord
  split <;> rfl

@[simp] theorem fileInfo_ensureRecord :
    (library.ensureRecord sha256).2.fileInfo = library.fileInfo := by
  unfold ensureRecord
  split <;> rfl

/-- The record of a hash exists, and has this hash. -/
theorem exists_record_of_ensureRecord :
    ∃ record ∈ (library.ensureRecord sha256).2.records,
    record.id = (library.ensureRecord sha256).1 ∧ record.sha256 = sha256 := by
  unfold ensureRecord
  split
  · next id hid =>
    obtain ⟨record, hfound, rfl⟩ := map_eq_some_iff.1 hid
    exact ⟨record, mem_of_find?_eq_some hfound, rfl, by simpa using find?_some hfound⟩
  · exact ⟨⟨library.nextRecord, sha256⟩, mem_append_right _ (mem_singleton_self _), rfl, rfl⟩

end

/-- Only a record that was there has a row. -/
theorem recordForHash_of_fileInfo_ensureRecord {sha256 : Sha256} {row : FileInfo}
    (h : library.fileInfo (library.ensureRecord sha256).1 = some row) :
    library.recordForHash sha256 = some (library.ensureRecord sha256).1 := by
  unfold ensureRecord at h ⊢
  cases hid : library.recordForHash sha256 with
  | some id => rfl
  | none =>
    simp only [hid] at h
    obtain ⟨record, hrecord, heq⟩ := library.foreign _ row h
    exact absurd heq (library.below record hrecord).ne

theorem putRow_eq_some (h : library.putRow host id new = some library') :
    library'.records = library.records ∧ library'.files = library.files ∧
    library'.written = library.written ∧
      library'.fileInfo id = some new := by
  unfold putRow at h
  split at h
  · cases h
    exact ⟨rfl, rfl, rfl, if_pos rfl⟩
  · cases h

/-- What an `INSERT` with `ON CONFLICT DO NOTHING` does: there is a row, the one that was there or
the new one. -/
theorem insertRow_eq_some (h : library.insertRow host id new = some library') :
    library'.records = library.records ∧ library'.files = library.files ∧
    library'.written = library.written ∧
      ∃ row, library'.fileInfo id = some row ∧
      (library.fileInfo id = some row ∨ library.fileInfo id = none ∧ row = new) := by
  unfold insertRow at h
  split at h
  · next hsome =>
    obtain ⟨row, hrow⟩ := isSome_iff_exists.1 hsome
    cases h
    exact ⟨rfl, rfl, rfl, row, hrow, .inl hrow⟩
  · next hnone =>
    obtain ⟨hrecords, hfiles, hwritten, hnew⟩ := putRow_eq_some h
    exact ⟨hrecords, hfiles, hwritten, new, hnew, .inr ⟨not_isSome_iff_eq_none.1 hnone, rfl⟩⟩

/-- `find_record_file_path` gives the path of a file with this content. -/
def Findable (host : Host) (id : ℕ) (data : Data) (library : Library) : Prop :=
  ∃ location, findRecordFilePath host id library = .ok (some location) ∧
    library.files location.path = some data

section

variable {host : Host} {id : ℕ} {library library' : Library} {row : FileInfo} {record : Record}
  {present : Option VerifiedRecordPath} {location : VerifiedRecordPath} {data : Data}

section

variable (hrecord : record ∈ library.records) (hrow : library.fileInfo record.id = some row)
include hrecord hrow

theorem findRecordFilePathRow_of_row : findRecordFilePathRow host record.id library =
      row.clusterId.map fun clusterId => (clusterId, record.sha256,
        row.resolvedExtension host) := by
  unfold findRecordFilePathRow
  rw [library.find?_id hrecord, hrow]
  cases hcluster : row.clusterId <;> simp [hcluster]

/-- Where the file of a row is found. -/
theorem findRecordFilePath_eq_some_iff :
    findRecordFilePath host record.id library = .ok (some location) ↔
      row.clusterId = some location.clusterId ∧ host.openCluster location.clusterId =
        .ok location.cluster ∧ location.relative =
          getClusterRelativePath record.sha256 (row.resolvedExtension host) := by
  obtain ⟨cluster, relative, clusterId⟩ := location
  unfold findRecordFilePath
  rw [findRecordFilePathRow_of_row hrecord hrow]
  cases row.clusterId with
  | none => simp [pure, Except.pure]
  | some assigned =>
    simp only [map_some, bind_eq_ok_iff, Option.some.injEq]
    constructor
    · rintro ⟨opened, hopen, heq⟩
      cases heq
      exact ⟨rfl, hopen, rfl⟩
    · rintro ⟨rfl, hopen, rfl⟩
      exact ⟨cluster, hopen, rfl⟩

end

theorem findRecordFilePathRow_of_none (hrow : library.fileInfo id = none) :
    findRecordFilePathRow host id library = none := by
  unfold findRecordFilePathRow
  rw [hrow]
  cases library.records.find? fun record => record.id = id <;> rfl

/-- A record whose file is found has a row. -/
theorem exists_row_of_findRecordFilePath
    (h : findRecordFilePath host id library = .ok (some location)) :
    ∃ record ∈ library.records, record.id = id ∧ ∃ row, library.fileInfo id = some row := by
  cases hrow : library.fileInfo id with
  | some row =>
    obtain ⟨record, hrecord, hid⟩ := library.foreign id row hrow
    exact ⟨record, hrecord, hid, row, rfl⟩
  | none =>
    rw [findRecordFilePath, findRecordFilePathRow_of_none hrow] at h
    cases h

theorem mem_records_ensureRecord (sha256 : Sha256) (h : record ∈ library.records) :
    record ∈ (library.ensureRecord sha256).2.records := by
  unfold ensureRecord
  split
  · exact h
  · exact mem_append_left _ h

/-- A new record changes no path. -/
theorem findRecordFilePath_ensureRecord (library : Library) (sha256 : Sha256) :
    findRecordFilePath host id (library.ensureRecord sha256).2 =
      findRecordFilePath host id library := by
  suffices hsame : findRecordFilePathRow host id (library.ensureRecord sha256).2 =
      findRecordFilePathRow host id library by
    rw [findRecordFilePath, findRecordFilePath, hsame]
  have hfileInfo := congrFun (library.fileInfo_ensureRecord sha256) id
  cases hrow : library.fileInfo id with
  | none =>
    rw [findRecordFilePathRow_of_none hrow, findRecordFilePathRow_of_none (hfileInfo.trans hrow)]
  | some row =>
    obtain ⟨record, hrecord, rfl⟩ := library.foreign id row hrow
    rw [findRecordFilePathRow_of_row hrecord hrow,
      findRecordFilePathRow_of_row (mem_records_ensureRecord sha256 hrecord) (hfileInfo.trans hrow)]

/-- A record is findable if its row has a cluster that opens and the file there has the content. -/
theorem findable_iff (hrecord : record ∈ library.records)
    (hrow : library.fileInfo record.id = some row) :
    library.Findable host record.id data ↔ ∃ clusterId cluster, row.clusterId = some clusterId ∧
      host.openCluster clusterId = .ok cluster ∧
        library.files (join cluster.path
          (getClusterRelativePath record.sha256 (row.resolvedExtension host))) = some data := by
  constructor
  · rintro ⟨location, hfound, hfile⟩
    obtain ⟨hcluster, hopen, hrelative⟩ := (findRecordFilePath_eq_some_iff hrecord hrow).1 hfound
    rw [VerifiedRecordPath.path, hrelative] at hfile
    exact ⟨location.clusterId, location.cluster, hcluster, hopen, hfile⟩
  · rintro ⟨clusterId, cluster, hcluster, hopen, hfile⟩
    exact ⟨⟨cluster, _, clusterId⟩,
      (findRecordFilePath_eq_some_iff hrecord hrow).2 ⟨hcluster, hopen, rfl⟩, hfile⟩

/-- A change of the row that keeps its cluster and its names keeps the path. -/
theorem findRecordFilePath_updateRow {f : FileInfo → FileInfo}
    (hf : ∀ row, library.fileInfo id = some row → (f row).clusterId = row.clusterId ∧
      (f row).names = row.names) :
    findRecordFilePath host id (library.updateRow id f) = findRecordFilePath host id library := by
  have hsame : findRecordFilePathRow host id (library.updateRow id f) =
      findRecordFilePathRow host id library := by
    unfold findRecordFilePathRow
    rw [fileInfo_updateRow]
    cases hrow : library.fileInfo id with
    | none => rfl
    | some row =>
      obtain ⟨hcluster, hnames⟩ := hf row hrow
      obtain ⟨hmime, hextension⟩ := Prod.mk.inj hnames
      simp only [map_some, updateRow, FileInfo.resolvedExtension, FileInfo.mimeExtension, hcluster,
        hmime, hextension, bind_eq_bind, bind_some]
  rw [findRecordFilePath, findRecordFilePath, hsame]

/-- The files, and the path of the file of a record, are the same. -/
structure Leaves (host : Host) (id : ℕ) (library library' : Library) : Prop where
  files : library'.files = library.files
  written : library'.written = library.written
  path : findRecordFilePath host id library' = findRecordFilePath host id library

theorem Leaves.trans (h₁₂ : library₁.Leaves host id library₂)
    (h₂₃ : library₂.Leaves host id library₃) : library₁.Leaves host id library₃ :=
  ⟨h₂₃.files.trans h₁₂.files, h₂₃.written.trans h₁₂.written, h₂₃.path.trans h₁₂.path⟩

theorem Leaves.findable (h : library.Leaves host id library') :
    library'.Findable host id data ↔ library.Findable host id data := by
  unfold Findable
  rw [h.path, h.files]

/-- What each change of `storeRecordMetadata` keeps is kept by all of them. -/
theorem storeRecordMetadata_induct {cluster : ClusterInfo} {path : Text} {contained : List Sha256}
    {P : Library → Prop} (hmetadata : P (library.writeMetadata id))
    (hrecord : ∀ library sha256, P library → P (library.ensureRecord sha256).2)
    (htimes : ∀ library mtime ctime, P library →
      P (library.updateRow id fun row => { row with fileMtime := mtime, fileCtime := ctime }))
    (h : storeRecordMetadata host id cluster path contained library = .ok library') :
      P library' := by
  obtain ⟨-, -, h⟩ := bind_eq_ok_iff.1 h
  cases h
  have hrecords : P (contained.foldl (fun library sha256 => (library.ensureRecord sha256).2)
      (library.writeMetadata id)) :=
    List.foldlRecOn contained _ hmetadata fun library hlibrary sha256 _ => hrecord library sha256
      hlibrary
  unfold updateRecordFileTimesForScan
  split
  · exact hrecords
  · exact htimes _ _ _ hrecords

/-- **Storing the metadata of a record leaves its file.** -/
theorem leaves_storeRecordMetadata {cluster : ClusterInfo} {path : Text} {contained : List Sha256}
    (h : storeRecordMetadata host id cluster path contained library = .ok library') :
    library.Leaves host id library' := by
  refine storeRecordMetadata_induct ⟨rfl, rfl, rfl⟩
    (fun library₁ sha256 hleaves => hleaves.trans ?_)
    (fun library₁ _ _ hleaves => hleaves.trans ?_) h
  · exact ⟨library₁.files_ensureRecord sha256, library₁.written_ensureRecord sha256,
      library₁.findRecordFilePath_ensureRecord sha256⟩
  · exact ⟨rfl, rfl, findRecordFilePath_updateRow fun _ _ => ⟨rfl, rfl⟩⟩

/-- The three ways in which `findPresentRecordFilePath` returns. -/
theorem findPresentRecordFilePath_cases
    (h : findPresentRecordFilePath host id library = .ok (present, library')) :
    (∃ location, present = some location ∧ library' = library ∧ findRecordFilePath host id library =
        .ok (some location) ∧ (library.files location.path).isSome) ∨
      (present = none ∧ library' = library ∧ findRecordFilePath host id library = .ok none) ∨
      ∃ location, present = none ∧ findRecordFilePath host id library = .ok (some location) ∧
        library.files location.path = none ∧
        library' = library.detachMissingRecordFile id location.clusterId := by
  unfold findPresentRecordFilePath at h
  obtain ⟨found, hfound, h⟩ := bind_eq_ok_iff.1 h
  cases found with
  | none =>
    cases h
    exact .inr (.inl ⟨rfl, rfl, hfound⟩)
  | some location =>
    obtain ⟨-, -, h⟩ := bind_eq_ok_iff.1 h
    obtain ⟨-, -, h⟩ := bind_eq_ok_iff.1 h
    split at h
    · next hfile =>
      cases h
      exact .inl ⟨location, rfl, rfl, hfound, hfile⟩
    · next hfile =>
      cases h
      exact .inr (.inr ⟨location, rfl, hfound, not_isSome_iff_eq_none.1 hfile, rfl⟩)

/-- A file that is there can be found, with its content. -/
theorem findable_of_findPresentRecordFilePath
    (h : findPresentRecordFilePath host id library = .ok (some location, library')) :
    ∃ data, library'.Findable host id data := by
  obtain ⟨found, -, rfl, hfound, hfile⟩ | ⟨hnone, -⟩ | ⟨-, hnone, -⟩ :=
    findPresentRecordFilePath_cases h
  · obtain ⟨data, hdata⟩ := isSome_iff_exists.1 hfile
    exact ⟨data, found, hfound, hdata⟩
  · cases hnone
  · cases hnone

/-- **Finding a file that is there keeps the names of the files.** -/
theorem keeps_findPresentRecordFilePath
    (h : findPresentRecordFilePath host id library = .ok (present, library')) :
    library.Keeps library' := by
  obtain ⟨-, -, rfl, -⟩ | ⟨-, rfl, -⟩ | ⟨location, -, -, -, rfl⟩ :=
    findPresentRecordFilePath_cases h
  · exact .refl _
  · exact .refl _
  · exact library.keeps_detachMissingRecordFile id location.clusterId

/-- If the file is not there, the row of a record that is not deleted has no cluster afterwards. -/
theorem clusterId_of_findPresentRecordFilePath {row' : FileInfo}
    (h : findPresentRecordFilePath host id library = .ok (none, library'))
    (hrow : library.fileInfo id = some row) (hdeleted : row.clusterDeleteTime = none)
    (hrow' : library'.fileInfo id = some row') : row'.clusterId = none := by
  obtain ⟨record, hrecord, rfl⟩ := library.foreign id row hrow
  obtain ⟨location, hpresent, -⟩ | ⟨-, rfl, hfound⟩ | ⟨location, -, hfound, -, rfl⟩ :=
    findPresentRecordFilePath_cases h
  · cases hpresent
  · rw [hrow] at hrow'
    cases hrow'
    by_contra hne
    obtain ⟨clusterId, hcluster⟩ := ne_none_iff_exists'.1 hne
    rw [findRecordFilePath, findRecordFilePathRow_of_row hrecord hrow, hcluster] at hfound
    obtain ⟨cluster, -, hfound⟩ := bind_eq_ok_iff.1 hfound
    cases hfound
  · have hcluster := ((findRecordFilePath_eq_some_iff hrecord hrow).1 hfound).1
    rw [detachMissingRecordFile, fileInfo_updateRow, hrow, map_some,
      if_pos ⟨hcluster, hdeleted⟩] at hrow'
    rw [← Option.some.inj hrow']

/-- **Finding a file that is there changes nothing of what can be found.** -/
theorem findable_findPresentRecordFilePath
    (h : findPresentRecordFilePath host id library = .ok (present, library')) :
    library'.Findable host id data ↔ library.Findable host id data := by
  obtain ⟨-, -, rfl, -⟩ | ⟨-, rfl, -⟩ | ⟨location, rfl, hfound, hfile, hlibrary⟩ :=
    findPresentRecordFilePath_cases h
  · rfl
  · rfl
  -- the file is not there: nothing was found, and nothing is found without a cluster
  have hlost : ¬library.Findable host id data := by
    rintro ⟨other, hother, hdata⟩
    rw [hfound] at hother
    cases hother
    rw [hfile] at hdata
    cases hdata
  refine iff_of_false ?_ hlost
  rintro ⟨other, hother, hdata⟩
  obtain ⟨record, hrecord, rfl, row, hrow⟩ := exists_row_of_findRecordFilePath hfound
  by_cases hdeleted : row.clusterDeleteTime = none
  · obtain ⟨record', hrecord', hid, row', hrow'⟩ := exists_row_of_findRecordFilePath hother
    have hcluster := clusterId_of_findPresentRecordFilePath h hrow hdeleted hrow'
    rw [← hid] at hother hrow'
    rw [((findRecordFilePath_eq_some_iff hrecord' hrow').1 hother).1] at hcluster
    cases hcluster
  · refine hlost ⟨other, ?_, ?_⟩
    · rw [← hother, hlibrary, detachMissingRecordFile, findRecordFilePath_updateRow]
      intro old hold
      rw [hrow] at hold
      cases hold
      rw [if_neg fun hboth => hdeleted hboth.2]
      exact ⟨rfl, rfl⟩
    · rw [← hdata, hlibrary]
      rfl

end

end Library

end Idhan.Files
