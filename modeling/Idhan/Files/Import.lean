import Idhan.Files.Scan
import Idhan.Lib.Rounding

/-!
# Importing a file

`importFile` for a file whose bytes are there: it looks for the record of the hash and for its file,
makes what is missing, chooses a cluster, writes the file and reads its metadata.

The name under which the file is written comes from the mime type of the row
(`recordBestExtension`).  The name under which it is found again comes from the extension of the row
itself, where it has one (`find_record_file_path`), and a row has one if it comes from a scan.

`importFile` is a program in steps, of which any may fail (`Idhan.Lib.Faulty`).  An import that
returns has gone through all of them, and the steps before the write keep what names the files, so
the question is one about the library before the import: `import_findable_iff` says when the two
names are one.  `scanned_picture_not_findable` is an import after a scan, for which they are not.
-/

namespace Idhan.Files

open Flatten (Sha256)

inductive ImportStatus where
  | success
  | exists
  | deleted
  | failed
  deriving DecidableEq, Repr

inductive ImportFailureCode where
  | unknownReason
  | unknownMime
  deriving DecidableEq, Repr

structure ImportOutcome where
  status : ImportStatus
  recordId : ℕ
  failure : ImportFailureCode
  deletedTime : Option ℤ
  deriving DecidableEq, Repr

/-- `ImportError`, or an exception of the database. -/
inductive ImportStop where
  | error (status : ℕ) (message : Text)
  | exception
  deriving DecidableEq, Repr

/-- The error has status 503. -/
def unavailable {α : Type} (x : Except Text α) : Except ImportStop α :=
  x.mapError (.error 503)

structure ImportTarget where
  id : ℕ
  access : ClusterInfo
  deriving DecidableEq, Repr

/-! ## Steps -/

/-- A step that changes the library, or leaves it if it fails by itself. -/
def query {α : Type} (f : Library → Except ImportStop (α × Library)) :
    Faulty ImportStop Library α :=
  .attempt .exception f

/-- A step that reads. -/
def inspect {α : Type} (f : Library → Except ImportStop α) : Faulty ImportStop Library α :=
  query fun library => (f library).map (·, library)

/-! ## The cluster -/

/-- How full a cluster is: the quotient of two numbers of the type `double`. -/
def score (host : Host) (info : ClusterInfo) : ℚ :=
  if info.sizeLimit ≤ 0 then 0
  else
    let sizeUsed := ((host.usage.find? fun usage => usage.1 = info.id).map Prod.snd).getD 0
    toDouble (toDouble sizeUsed / toDouble info.sizeLimit)

/-- The first of the candidates that can be opened. -/
def firstOpen (host : Host) : List ClusterCandidate → Except ImportStop ImportTarget
  | [] => .error (.error 503 "No writable cluster has a verified identity".toList)
  | candidate :: rest =>
    match host.openCluster candidate.id with
    | .ok access => .ok ⟨candidate.id, access⟩
    | .error _ => firstOpen host rest

/-- The clusters that can be written. -/
def candidates (host : Host) : List ClusterCandidate :=
  (host.clusters.filter fun info => !info.readOnly).map fun info => ⟨info.id, score host info⟩

/-- The second part of `findBestFolderForImport`: the emptiest cluster that can be written. -/
def bestCandidate (host : Host) : Except ImportStop ImportTarget :=
  if host.clusters = [] then
    .error (.error 400 "No clusters available, You must create one before importing files".toList)
  else if host.clusters.all ClusterInfo.readOnly then
    .error (.error 400
      "All clusters are read-only, You must mark one as writable before importing files".toList)
  else firstOpen host (host.sorts (candidates host))

/-- The first part of it: the cluster of the row, if it can be written. -/
def assignedCluster (host : Host) (row : FileInfo) : Option ℕ := do
  let id ← row.clusterId
  let info ← host.find id
  if row.clusterDeleteTime = none ∧ info.readOnly = false then some id else none

/-- Where a file goes, given the cluster of its row. -/
def folderFor (host : Host) : Option ℕ → Except ImportStop ImportTarget
  | some clusterId => do
    let access ← unavailable (host.openCluster clusterId)
    return ⟨clusterId, access⟩
  | none => bestCandidate host

def findBestFolderForImport (host : Host) (id : ℕ) (library : Library) :
    Except ImportStop ImportTarget :=
  folderFor host ((library.fileInfo id).bind (assignedCluster host))

/-! ## The file -/

def storedFileIsValid (host : Host) (id : ℕ) (expected : Sha256) (library : Library) :
    Except ImportStop (Bool × Library) := do
  let (resolved, library) ← unavailable (findPresentRecordFilePath host id library)
  match resolved with
  | none => return (false, library)
  | some location =>
    match library.files location.path with
    | none => return (false, library)
    | some data =>
      if host.readable location.path then do
        unavailable (host.verifies location.cluster)
        return (host.hash data = expected, library)
      else return (false, library)

def recordBestExtension (host : Host) (id : ℕ) (library : Library) : Except ImportStop Text :=
  match ((library.fileInfo id).bind FileInfo.mimeId).bind host.mimes with
  | none => .error (.error 500 ("No file info for record ".toList ++ (toString id).toList))
  | some best => .ok (best.getD [])

def writeFileToCluster (host : Host) (clusterPath : Text) (readOnly : Bool) (sha256 : Sha256)
    (data : Data) (extension : Text) (library : Library) : Except ImportStop Library :=
  if readOnly then .error (.error 500 "Refusing to write into a read-only cluster".toList)
  else do
    let path := join clusterPath (getClusterRelativePath sha256 extension)
    (host.createDirectories path).mapError fun message =>
      .error 500 ("Failed to create cluster directory: ".toList ++ message)
    (if !host.opensFile path then
      .error (.error 500 ("Failed to open file ".toList ++ path ++ " for writing!".toList))
    else if !host.writesFile path then .error (.error 500 ("Failed to write file ".toList ++ path))
    else .ok (library.writeFile path data))

/-- The `UPDATE` at the end of `storeRecordFile`. -/
def FileInfo.stored (host : Host) (clusterId : ℕ) (row : FileInfo) : FileInfo :=
  { row with
    clusterStoreTime := some host.now, clusterId := some clusterId, clusterDeleteTime := none }

/-- Whether the cluster of the record can only be read. -/
def inReadOnlyCluster (host : Host) (id : ℕ) (library : Library) : Bool :=
  (((library.fileInfo id).bind FileInfo.clusterId).bind host.find).any ClusterInfo.readOnly

/-- What a write that fails leaves: if the file was opened it was emptied first. -/
def Library.tornWrite (host : Host) (target : ImportTarget) (sha256 : Sha256) (data : Data)
    (extension : Text) (reach : ℕ) (library : Library) : Library :=
  let path := join target.access.path (getClusterRelativePath sha256 extension)
  if target.access.readOnly = false ∧ (host.createDirectories path).isOk ∧ host.opensFile path then
    library.writeFile path (data.take reach)
  else library

/-- The step that writes the file. -/
def attemptWrite (host : Host) (target : ImportTarget) (sha256 : Sha256) (data : Data)
    (extension : Text) (reach : ℕ) : Faulty ImportStop Library Unit :=
  .step .exception fun library =>
    match writeFileToCluster host target.access.path target.access.readOnly sha256 data extension
      library with
    | .ok library' => (.ok (), library')
    | .error e => (.error e, library.tornWrite host target sha256 data extension reach)

/-- `storeRecordFile`, the part that stores. -/
def writeRecordFile (host : Host) (id : ℕ) (sha256 : Sha256) (data : Data) (target : ImportTarget)
    (reach : ℕ) : Faulty ImportStop Library Unit := do
  let extension ← inspect (recordBestExtension host id)
  inspect fun _ => unavailable (host.verifies target.access)
  attemptWrite host target sha256 data extension reach
  query fun library =>
    if target.id ∈ host.usage.map Prod.fst then
      .ok ((), library.updateRow id (FileInfo.stored host target.id))
    else .error .exception

/-- `storeRecordFile`. -/
def storeRecordFile (host : Host) (id : ℕ) (sha256 : Sha256) (data : Data) (target : ImportTarget)
    (reach : ℕ) : Faulty ImportStop Library Unit := do
  if ← inspect fun library => .ok (inReadOnlyCluster host id library) then
    if ← query (storedFileIsValid host id sha256) then return ()
    else writeRecordFile host id sha256 data target reach
  else writeRecordFile host id sha256 data target reach

/-- `parseAndStoreRecordMetadata`.  Its errors are logged. -/
def parseAndStoreRecordMetadata (host : Host) (id : ℕ) (library : Library) : Library :=
  match (library.fileInfo id).bind FileInfo.mimeId with
  | none => library
  | some mimeId =>
    if !host.hasParser mimeId then library
    else
      match findPresentRecordFilePath host id library with
      | .error _ => library
      | .ok (none, library) => library
      | .ok (some location, library) =>
        match parseRecordMetadata host id mimeId location.path >>= fun contained =>
          storeRecordMetadata host id location.cluster location.path contained library with
        | .error _ => library
        | .ok stored => stored

/-! ## The import -/

/-- `extract(epoch FROM time)::bigint` of a time in microseconds. -/
def epochSeconds (time : ℤ) : ℤ :=
  time.sign * ((time.natAbs + 500000) / 1000000)

/-- The outcome for a record that was deleted. -/
def deletedOutcome (id : ℕ) (row : FileInfo) : ImportOutcome :=
  ⟨.deleted, id, .unknownReason, row.clusterDeleteTime.map epochSeconds⟩

def openRecordCluster (host : Host) (id : ℕ) (library : Library) :
    Except Text (Option ClusterInfo) :=
  match (library.fileInfo id).bind FileInfo.clusterId with
  | none => .ok none
  | some clusterId => some <$> host.openCluster clusterId

/-- The first part of `importFile`: whether the record of the hash answers the request. -/
def examine (host : Host) (sha256 : Sha256) (force : Bool) (library : Library) :
    Except ImportStop (Option ImportOutcome × Library) :=
  match library.recordForHash sha256 with
  | none => return (none, library)
  | some id => do
    let _ ← unavailable (openRecordCluster host id library)
    match library.fileInfo id with
    | none => return (none, library)
    | some row =>
      if force then return (none, library)
      else if row.clusterDeleteTime.isSome then return (some (deletedOutcome id row), library)
      else do
        let (present, library) ← unavailable (findPresentRecordFilePath host id library)
        return (present.map fun _ => ⟨.exists, id, .unknownReason, none⟩, library)

/-- The row that `importFile` makes. -/
def importedRow (host : Host) (data : Data) (mimeId clusterId : ℕ) : FileInfo :=
  { size := data.length
    clusterStoreTime := none
    clusterDeleteTime := none
    fileMtime := some host.now
    fileCtime := none
    mimeId := some mimeId
    clusterId := some clusterId
    extension := none
    mime_check := .inl (Option.some_ne_none mimeId) }

/-- Whether a file that was stored is there. -/
def confirmStored (host : Host) (id : ℕ) (row : FileInfo) (library : Library) :
    Except ImportStop (Bool × Library) :=
  if row.clusterStoreTime.isSome then do
    let (present, library) ← unavailable (findPresentRecordFilePath host id library)
    return (present.isSome, library)
  else return (false, library)

def shouldStore (row : FileInfo) (confirmed force : Bool) : Bool :=
  !row.clusterDeleteTime.isSome && !row.clusterStoreTime.isSome || force || !confirmed &&
    row.clusterStoreTime.isSome

/-- The last part of `importFile`. -/
def placeFile (host : Host) (data : Data) (sha256 : Sha256) (force : Bool) (id : ℕ)
    (target : ImportTarget) (reach : ℕ) (row : FileInfo) :
    Faulty ImportStop Library ImportOutcome :=
  if row.clusterDeleteTime.isSome && !force then return deletedOutcome id row
  else do
    let confirmed ← query (confirmStored host id row)
    (if shouldStore row confirmed force then storeRecordFile host id sha256 data target reach
      else return ())
    query fun library => .ok ((), parseAndStoreRecordMetadata host id library)
    return ⟨if confirmed && !force then .exists else .success, id, .unknownReason, none⟩

/-- `importFile`. -/
def importFile (host : Host) (data : Data) (sha256 : Sha256) (filename : Text) (force : Bool)
    (reach : ℕ) : Faulty ImportStop Library ImportOutcome :=
  if data = [] then inspect fun _ => .error (.error 400 "No file data supplied".toList)
  else do
    match ← query (examine host sha256 force) with
    | some outcome => return outcome
    | none =>
      let mimeId := host.identifyMime data filename
      if mimeId = unknownMime ∧ force = false then return ⟨.failed, 0, .unknownMime, none⟩
      else do
        let id ← query fun library => .ok (library.ensureRecord sha256)
        let target ← inspect (findBestFolderForImport host id)
        query fun library =>
          match library.insertRow host id (importedRow host data mimeId target.id) with
          | none => .error .exception
          | some library => .ok ((), library)
        let row ← inspect fun library => (library.fileInfo id).elim (.error .exception) .ok
        placeFile host data sha256 force id target reach row

/-! ## What the parts do -/

section

variable {host : Host} {id : ℕ} {sha256 : Sha256} {data : Data} {force : Bool}
  {target : ImportTarget} {library library' : Library} {row : FileInfo} {valid confirmed : Bool}
  {extension : Text} {reach : ℕ} {faults faults' : List Fault}

theorem unavailable_eq_ok_iff {α : Type} {x : Except Text α} {a : α} :
    unavailable x = .ok a ↔ x = .ok a :=
  mapError_eq_ok_iff

theorem query_eq_ok {α : Type} {f : Library → Except ImportStop (α × Library)} {a : α}
    (h : query f library faults = (.ok a, library', faults')) : f library = .ok (a, library') := by
  unfold query at h
  exact Faulty.eq_ok_of_attempt h

theorem inspect_eq_ok {α : Type} {f : Library → Except ImportStop α} {a : α}
    (h : inspect f library faults = (.ok a, library', faults')) :
    f library = .ok a ∧ library = library' := by
  have hread := query_eq_ok h
  cases hf : f library with
  | error e =>
    rw [hf] at hread
    cases hread
  | ok b =>
    rw [hf] at hread
    cases hread
    exact ⟨rfl, rfl⟩

/-- The cluster that is chosen was opened. -/
theorem openCluster_of_firstOpen {candidates : List ClusterCandidate}
    (h : firstOpen host candidates = .ok target) :
    host.openCluster target.id = .ok target.access := by
  induction candidates with
  | nil => cases h
  | cons candidate rest ih =>
    unfold firstOpen at h
    split at h
    · next access hopen =>
      cases h
      exact hopen
    · exact ih h

theorem openCluster_of_folderFor {assigned : Option ℕ} (h : folderFor host assigned = .ok target) :
    host.openCluster target.id = .ok target.access := by
  cases assigned with
  | some clusterId =>
    obtain ⟨access, hopen, h⟩ := bind_eq_ok_iff.1 h
    cases h
    exact unavailable_eq_ok_iff.1 hopen
  | none =>
    simp only [folderFor, bestCandidate] at h
    split at h
    · cases h
    split at h
    · cases h
    exact openCluster_of_firstOpen h

/-- A record that does not answer the request keeps its names.  Unless the import is forced, its row
has no cluster. -/
theorem examine_cases {answer : Option ImportOutcome}
    (h : examine host sha256 force library = .ok (answer, library')) :
    (∃ outcome, answer = some outcome ∧ outcome.status ≠ .success) ∨
      answer = none ∧ library.Keeps library' ∧ ∀ id row, library.recordForHash sha256 = some id →
        library'.fileInfo id = some row → ∃ old, library.fileInfo id = some old ∧
        row.names = old.names ∧
          assignedCluster host row = if force then assignedCluster host old else none := by
  unfold examine at h
  split at h
  · next hnone =>
    cases h
    refine .inr ⟨rfl, .refl library, fun id row hid => ?_⟩
    rw [hnone] at hid
    cases hid
  next id hid =>
  obtain ⟨-, -, h⟩ := bind_eq_ok_iff.1 h
  split at h
  · next hrow =>
    cases h
    refine .inr ⟨rfl, .refl library, fun other row hother hsome => ?_⟩
    rw [hid] at hother
    cases hother
    rw [hrow] at hsome
    cases hsome
  next old hold =>
  cases force with
  | true =>
    cases h
    refine .inr ⟨rfl, .refl library, fun other row hother hrow => ?_⟩
    exact ⟨row, hrow, rfl, rfl⟩
  | false =>
    simp only [Bool.false_eq_true, if_false] at h ⊢
    split at h
    · cases h
      exact .inl ⟨_, rfl, fun heq => nomatch heq⟩
    next hdeleted =>
    obtain ⟨⟨present, library₁⟩, hpresent, h⟩ := bind_eq_ok_iff.1 h
    have hpresent := unavailable_eq_ok_iff.1 hpresent
    cases h
    cases present with
    | some location => exact .inl ⟨_, rfl, fun heq => nomatch heq⟩
    | none =>
      have hkeeps := Library.keeps_findPresentRecordFilePath hpresent
      refine .inr ⟨rfl, hkeeps, fun other row hother hrow => ?_⟩
      rw [hid] at hother
      cases hother
      have hnames := hkeeps.names id
      rw [hrow, hold] at hnames
      have hcluster := Library.clusterId_of_findPresentRecordFilePath hpresent hold
        (Option.not_isSome_iff_eq_none.1 hdeleted) hrow
      refine ⟨old, hold, Option.some.inj hnames, ?_⟩
      rw [assignedCluster, hcluster]
      rfl

/-- `confirmStored` leaves what finding the file leaves. -/
theorem confirmStored_cases (h : confirmStored host id row library = .ok (confirmed, library')) :
    library' = library ∧ confirmed = false ∨ ∃ present, findPresentRecordFilePath host id library =
      .ok (present, library') ∧ row.clusterStoreTime.isSome ∧ confirmed = present.isSome := by
  unfold confirmStored at h
  split at h
  · next hstored =>
    obtain ⟨⟨present, library₁⟩, hpresent, h⟩ := bind_eq_ok_iff.1 h
    cases h
    exact .inr ⟨present, unavailable_eq_ok_iff.1 hpresent, hstored, rfl⟩
  · cases h
    exact .inl ⟨rfl, rfl⟩

theorem keeps_confirmStored (h : confirmStored host id row library = .ok (confirmed, library')) :
    library.Keeps library' := by
  obtain ⟨rfl, -⟩ | ⟨present, hpresent, -⟩ := confirmStored_cases h
  · exact .refl _
  · exact Library.keeps_findPresentRecordFilePath hpresent

/-- `storedFileIsValid` leaves what finding the file leaves. -/
theorem storedFileIsValid_cases
    (h : storedFileIsValid host id sha256 library = .ok (valid, library')) :
    ∃ present, findPresentRecordFilePath host id library = .ok (present, library') := by
  unfold storedFileIsValid at h
  obtain ⟨⟨present, library₁⟩, hpresent, h⟩ := bind_eq_ok_iff.1 h
  refine ⟨present, ?_⟩
  suffices heq : library' = library₁ from heq ▸ unavailable_eq_ok_iff.1 hpresent
  simp only at h
  split at h
  · cases h
    rfl
  split at h
  · cases h
    rfl
  split at h
  · obtain ⟨-, -, h⟩ := bind_eq_ok_iff.1 h
    cases h
    rfl
  · cases h
    rfl

theorem keeps_storedFileIsValid
    (h : storedFileIsValid host id sha256 library = .ok (valid, library')) :
    library.Keeps library' := by
  obtain ⟨present, hpresent⟩ := storedFileIsValid_cases h
  exact Library.keeps_findPresentRecordFilePath hpresent

/-- The extension under which a file is written is the one of its mime type. -/
theorem recordBestExtension_eq_ok (h : recordBestExtension host id library = .ok extension) :
    ∃ row, library.fileInfo id = some row ∧ extension = row.mimeExtension host := by
  unfold recordBestExtension at h
  split at h
  · cases h
  next best hbest =>
  obtain ⟨mimeId, hmime, hbest⟩ := Option.bind_eq_some_iff.1 hbest
  obtain ⟨row, hrow, hmime⟩ := Option.bind_eq_some_iff.1 hmime
  cases h
  refine ⟨row, hrow, ?_⟩
  rw [FileInfo.mimeExtension, hmime, Option.bind_some, Host.bestExtension, hbest]
  rfl

/-- The library after a file of the record was written. -/
def Library.afterWrite (host : Host) (id : ℕ) (sha256 : Sha256) (data : Data)
    (target : ImportTarget) (extension : Text) (library : Library) : Library :=
  (library.writeFile (join target.access.path (getClusterRelativePath sha256 extension))
    data).updateRow id
    (FileInfo.stored host target.id)

theorem writeFileToCluster_eq_ok {clusterPath : Text} {readOnly : Bool}
    (h : writeFileToCluster host clusterPath readOnly sha256 data extension library =
      .ok library') :
    library' = library.writeFile (join clusterPath (getClusterRelativePath sha256 extension))
      data := by
  unfold writeFileToCluster at h
  split at h
  · cases h
  obtain ⟨-, -, h⟩ := bind_eq_ok_iff.1 h
  split at h
  · cases h
  split at h
  · cases h
  · cases h
    rfl

theorem attemptWrite_eq_ok
    (h : attemptWrite host target sha256 data extension reach library faults =
      (.ok (), library', faults')) :
    library' = library.writeFile (join target.access.path (getClusterRelativePath sha256 extension))
      data := by
  have hstep := Faulty.eq_ok_of_step h
  split at hstep
  · next hwritten =>
    cases hstep
    exact writeFileToCluster_eq_ok hwritten
  · cases hstep

theorem writeRecordFile_eq_ok
    (h : writeRecordFile host id sha256 data target reach library faults =
      (.ok (), library', faults')) :
    ∃ row, library.fileInfo id = some row ∧
      library' = library.afterWrite host id sha256 data target (row.mimeExtension host) := by
  obtain ⟨extension, _, _, hextension, hverify⟩ := Faulty.eq_ok_of_bind h
  obtain ⟨hbest, rfl⟩ := inspect_eq_ok hextension
  obtain ⟨row, hrow, rfl⟩ := recordBestExtension_eq_ok hbest
  obtain ⟨_, _, _, hverified, hwrite⟩ := Faulty.eq_ok_of_bind hverify
  obtain ⟨-, rfl⟩ := inspect_eq_ok hverified
  obtain ⟨_, _, _, hwritten, hupdate⟩ := Faulty.eq_ok_of_bind hwrite
  refine ⟨row, hrow, ?_⟩
  have hupdate := query_eq_ok hupdate
  split at hupdate
  · cases hupdate
    rw [attemptWrite_eq_ok hwritten, Library.afterWrite]
  · cases hupdate

/-- `storeRecordFile` keeps what names the files, and writes at most the file of the record. -/
theorem storeRecordFile_cases
    (h : storeRecordFile host id sha256 data target reach library faults =
      (.ok (), library', faults')) :
    library.Keeps library' ∨ ∃ library₁ row, library.Keeps library₁ ∧
    library₁.fileInfo id = some row ∧
      library' = library₁.afterWrite host id sha256 data target (row.mimeExtension host) := by
  obtain ⟨readOnly, _, _, hreadOnly, h⟩ := Faulty.eq_ok_of_bind h
  obtain ⟨-, rfl⟩ := inspect_eq_ok hreadOnly
  cases readOnly with
  | true =>
    obtain ⟨valid, library₁, _, hvalid, h⟩ := Faulty.eq_ok_of_bind h
    have hkeeps := keeps_storedFileIsValid (query_eq_ok hvalid)
    cases valid with
    | true =>
      cases h
      exact .inl hkeeps
    | false =>
      obtain ⟨row, hrow, heq⟩ := writeRecordFile_eq_ok h
      exact .inr ⟨library₁, row, hkeeps, hrow, heq⟩
  | false =>
    obtain ⟨row, hrow, heq⟩ := writeRecordFile_eq_ok h
    exact .inr ⟨library, row, .refl library, hrow, heq⟩

/-- `parseAndStoreRecordMetadata` looks for the file and stores the metadata, if it comes so far. -/
theorem parseAndStoreRecordMetadata_induct {P : Library → Prop} (hlibrary : P library)
    (hfind : ∀ present library', findPresentRecordFilePath host id library =
      .ok (present, library') → P library')
    (hstore : ∀ cluster path contained library library', P library →
      storeRecordMetadata host id cluster path contained library = .ok library' → P library') :
    P (parseAndStoreRecordMetadata host id library) := by
  unfold parseAndStoreRecordMetadata
  split
  · exact hlibrary
  split
  · exact hlibrary
  split
  · exact hlibrary
  · next hpresent => exact hfind _ _ hpresent
  next hpresent =>
  split
  · exact hfind _ _ hpresent
  next hstored =>
  obtain ⟨contained, -, hstored⟩ := bind_eq_ok_iff.1 hstored
  exact hstore _ _ contained _ _ (hfind _ _ hpresent) hstored

/-- Reading the metadata of a file changes nothing of what can be found, and writes no file. -/
theorem parseAndStoreRecordMetadata_spec (host : Host) (id : ℕ) (data : Data) (library : Library) :
    (parseAndStoreRecordMetadata host id library).written = library.written ∧
      ((parseAndStoreRecordMetadata host id library).Findable host id data ↔
        library.Findable host id data) := by
  refine parseAndStoreRecordMetadata_induct
    (P := fun library' => library'.written = library.written ∧
    (library'.Findable host id data ↔ library.Findable host id data))
    ⟨rfl, Iff.rfl⟩ (fun present library' hpresent => ?_) fun _ _ _ library₁ library' h hstored => ?_
  · exact ⟨(Library.keeps_findPresentRecordFilePath hpresent).written,
      Library.findable_findPresentRecordFilePath hpresent⟩
  · have hleaves := Library.leaves_storeRecordMetadata hstored
    exact ⟨hleaves.written.trans h.1, hleaves.findable.trans h.2⟩

/-- After the file was written the record is findable if the two extensions name the same file, or
if the file that the extension of the row names has the same content already. -/
theorem findable_afterWrite {record : Record} (hrecord : record ∈ library.records)
    (hrow : library.fileInfo record.id = some row)
    (hopen : host.openCluster target.id = .ok target.access) :
    (library.afterWrite host record.id record.sha256 data target (row.mimeExtension host)).Findable
      host record.id data ↔
      ∀ own, row.extension = some own → withoutDot own = withoutDot (row.mimeExtension host) ∨
        library.files (join target.access.path (getClusterRelativePath record.sha256 own)) =
          some data := by
  have hstored :
      (library.afterWrite host record.id record.sha256 data target
    (row.mimeExtension host)).fileInfo record.id =
      some (row.stored host target.id) := by
    rw [Library.afterWrite, Library.fileInfo_updateRow]
    exact congrArg (Option.map _) hrow
  have hfiles (extension : Text) :
      (library.afterWrite host record.id record.sha256 data target (row.mimeExtension host)).files
          (join target.access.path (getClusterRelativePath record.sha256 extension)) = some data ↔
        withoutDot extension = withoutDot (row.mimeExtension host) ∨
          library.files (join target.access.path (getClusterRelativePath record.sha256 extension)) =
          some data := by
    rw [← join_getClusterRelativePath_eq_iff]
    simp only [Library.afterWrite, Library.updateRow, Library.writeFile]
    split
    · next heq => exact iff_of_true rfl (.inl heq)
    · next hne => exact (or_iff_right hne).symm
  have hresolved : (row.stored host target.id).resolvedExtension host =
      row.resolvedExtension host := rfl
  refine (Library.findable_iff ?_ hstored).trans ?_
  · exact hrecord
  constructor
  · rintro ⟨clusterId, cluster, hcluster, hcopen, hfile⟩ own hown
    cases hcluster
    rw [hopen] at hcopen
    cases hcopen
    rw [hresolved, FileInfo.resolvedExtension, hown] at hfile
    exact (hfiles own).1 hfile
  · intro hagree
    refine ⟨target.id, target.access, rfl, hopen, ?_⟩
    rw [hresolved, hfiles, FileInfo.resolvedExtension]
    cases hown : row.extension with
    | none => exact .inl rfl
    | some own => exact hagree own hown

end

/-! ## What an import leaves to be found -/

/-- If the record of the hash has a row with an extension of its own, then this extension and the
one of its mime type name the same file, or the file that its own extension names, in the cluster to
which the file goes, has the content already. -/
def Library.NamesAgree (host : Host) (data : Data) (sha256 : Sha256) (force : Bool)
    (library : Library) : Prop :=
  ∀ id row own, library.recordForHash sha256 = some id → library.fileInfo id = some row →
    row.extension = some own →
    withoutDot own = withoutDot (row.mimeExtension host) ∨
      ∃ target, folderFor host (if force then assignedCluster host row else none) = .ok target ∧
        library.files (join target.access.path (getClusterRelativePath sha256 own)) = some data

section

variable {host : Host} {data : Data} {sha256 : Sha256} {force : Bool} {library library' : Library}
  {outcome : ImportOutcome} {target : ImportTarget} {row : FileInfo} {reach : ℕ}
  {faults faults' : List Fault}

/-- The condition for a record that has a row, if the cluster to which the file goes is known. -/
theorem namesAgree_iff_of_row {id : ℕ} (hid : library.recordForHash sha256 = some id)
    (hrow : library.fileInfo id = some row)
    (htarget : folderFor host (if force then assignedCluster host row else none) = .ok target) :
    library.NamesAgree host data sha256 force ↔ ∀ own, row.extension = some own →
      withoutDot own = withoutDot (row.mimeExtension host) ∨
        library.files (join target.access.path (getClusterRelativePath sha256 own)) =
          some data := by
  constructor
  · intro h own hown
    refine (h id row own hid hrow hown).imp_right ?_
    rintro ⟨other, hother, hfile⟩
    rw [htarget] at hother
    cases hother
    exact hfile
  · intro h other row' own hother hrow' hown
    rw [hid] at hother
    cases hother
    rw [hrow] at hrow'
    cases hrow'
    exact (h own hown).imp_right fun hfile => ⟨target, htarget, hfile⟩

/-- What `placeFile` leaves to be found, if it wrote the file. -/
theorem findable_placeFile {record : Record} (hrecord : record ∈ library.records)
    (hrow : library.fileInfo record.id = some row)
    (hopen : host.openCluster target.id = .ok target.access)
    (h : placeFile host data record.sha256 force record.id target reach row library faults =
      (.ok outcome, library', faults'))
    (hwritten : library'.written ≠ library.written) :
    outcome.recordId = record.id ∧ (library'.Findable host record.id data ↔
      ∀ own, row.extension = some own → withoutDot own = withoutDot (row.mimeExtension host) ∨
        library.files (join target.access.path (getClusterRelativePath record.sha256 own)) =
          some data) := by
  unfold placeFile at h
  split at h
  · cases h
    exact absurd rfl hwritten
  obtain ⟨confirmed, library₁, _, hconfirmed, h⟩ := Faulty.eq_ok_of_bind h
  obtain ⟨_, library₂, _, hstored, h⟩ := Faulty.eq_ok_of_bind h
  obtain ⟨_, library₃, _, hparse, h⟩ := Faulty.eq_ok_of_bind h
  have hkeeps := keeps_confirmStored (query_eq_ok hconfirmed)
  cases query_eq_ok hparse
  cases h
  obtain ⟨hparsed, hfindable⟩ := parseAndStoreRecordMetadata_spec host record.id data library₂
  rw [hparsed] at hwritten
  refine ⟨rfl, hfindable.trans ?_⟩
  split at hstored
  · obtain hsame | ⟨library₃, row₃, hkeeps₃, hrow₃, rfl⟩ := storeRecordFile_cases hstored
    · exact absurd (hkeeps.trans hsame).written hwritten
    have hkeeps₃ := hkeeps.trans hkeeps₃
    have hnames := hkeeps₃.names record.id
    rw [hrow₃, hrow] at hnames
    obtain ⟨hmime, hextension⟩ := Prod.mk.inj (Option.some.inj hnames)
    have hrecord₃ : record ∈ library₃.records := by rwa [hkeeps₃.records]
    rw [findable_afterWrite hrecord₃ hrow₃ hopen, hextension, FileInfo.mimeExtension,
      FileInfo.mimeExtension, hmime, hkeeps₃.files]
  · cases hstored
    exact absurd hkeeps.written hwritten

/-- The way of an import that ends in a success, up to `placeFile`. -/
theorem placed_of_importFile {filename : Text}
    (h : importFile host data sha256 filename force reach library faults =
      (.ok outcome, library', faults'))
    (hsuccess : outcome.status = .success) :
    ∃ library₁ target library₂ row faults₂,
      examine host sha256 force library = .ok (none, library₁) ∧
      findBestFolderForImport host (library₁.ensureRecord sha256).1
        (library₁.ensureRecord sha256).2 = .ok target ∧
      (library₁.ensureRecord sha256).2.insertRow host (library₁.ensureRecord sha256).1
        (importedRow host data (host.identifyMime data filename) target.id) = some library₂ ∧
      (library₂.fileInfo (library₁.ensureRecord sha256).1).elim (Except.error ImportStop.exception)
        Except.ok = .ok row ∧
      placeFile host data sha256 force (library₁.ensureRecord sha256).1 target reach row library₂
        faults₂ = (.ok outcome, library', faults') := by
  unfold importFile at h
  split at h
  · cases (inspect_eq_ok h).1
  obtain ⟨answer, library₁, _, hexamine, h⟩ := Faulty.eq_ok_of_bind h
  have hexamined := query_eq_ok hexamine
  obtain ⟨given, rfl, hgiven⟩ | ⟨rfl, -⟩ := examine_cases hexamined
  · cases h
    exact absurd hsuccess hgiven
  simp only at h
  split at h
  · cases h
    cases hsuccess
  obtain ⟨id, ensured, _, hensure, h⟩ := Faulty.eq_ok_of_bind h
  have hensured := Except.ok.inj (query_eq_ok hensure)
  obtain rfl : (library₁.ensureRecord sha256).1 = id := congrArg Prod.fst hensured
  obtain rfl : (library₁.ensureRecord sha256).2 = ensured := congrArg Prod.snd hensured
  obtain ⟨target, _, _, hfolder, h⟩ := Faulty.eq_ok_of_bind h
  obtain ⟨htarget, rfl⟩ := inspect_eq_ok hfolder
  obtain ⟨_, library₂, _, hinserted, h⟩ := Faulty.eq_ok_of_bind h
  have hinserted := query_eq_ok hinserted
  split at hinserted
  · cases hinserted
  next hinsert =>
  cases hinserted
  obtain ⟨row, _, faults₂, hselect, hplaced⟩ := Faulty.eq_ok_of_bind h
  obtain ⟨hread, rfl⟩ := inspect_eq_ok hselect
  exact ⟨library₁, target, library₂, row, faults₂, hexamined, htarget, hinsert, hread, hplaced⟩

/-- A record without a row has no extension that could name another file. -/
theorem namesAgree_of_no_row
    (h : ∀ id, library.recordForHash sha256 = some id → library.fileInfo id = none) :
    library.NamesAgree host data sha256 force := by
  intro id row own hid hrow
  rw [h id hid] at hrow
  cases hrow

/-- **A file that was imported and written can be found if and only if the names agree.** -/
theorem import_findable_iff {filename : Text}
    (h : importFile host data sha256 filename force reach library faults =
      (.ok outcome, library', faults'))
    (hsuccess : outcome.status = .success) (hwritten : library'.written ≠ library.written) :
    library'.Findable host outcome.recordId data ↔ library.NamesAgree host data sha256 force := by
  obtain ⟨library₁, target, library₂, row, _, hexamined, htarget, hinsert, hread, hplaced⟩ :=
    placed_of_importFile h hsuccess
  obtain ⟨_, hanswer, _⟩ | ⟨-, hkeeps, hrows⟩ := examine_cases hexamined
  · cases hanswer
  obtain ⟨hrecords, hfiles, hwritten₂, _, hrow, hnew⟩ := Library.insertRow_eq_some hinsert
  rw [hrow] at hread
  cases hread
  obtain ⟨record, hrecord, hid, rfl⟩ := library₁.exists_record_of_ensureRecord sha256
  rw [← hid] at hplaced hrow
  rw [Library.written_ensureRecord, hkeeps.written] at hwritten₂
  rw [Library.files_ensureRecord, hkeeps.files] at hfiles
  rw [Library.fileInfo_ensureRecord, ← hid] at hnew
  have hrecord₂ : record ∈ library₂.records := by rwa [hrecords]
  obtain ⟨hrecordId, hfindable⟩ :=
    findable_placeFile hrecord₂ hrow (openCluster_of_folderFor htarget) hplaced
      (hwritten₂ ▸ hwritten)
  rw [hrecordId, hfindable, hfiles]
  have hhash : library₁.recordForHash record.sha256 = library.recordForHash record.sha256 := by
    rw [Library.recordForHash, hkeeps.records, Library.recordForHash]
  obtain hold | ⟨hnone, rfl⟩ := hnew
  · -- the row was there: the file goes where the condition says, under the names that the row had
    have hfound := Library.recordForHash_of_fileInfo_ensureRecord (hid ▸ hold)
    rw [← hid, hhash] at hfound
    obtain ⟨old, hrow₀, hnames, hassigned⟩ := hrows record.id row hfound hold
    rw [findBestFolderForImport, Library.fileInfo_ensureRecord, ← hid, hold, Option.bind_some,
      hassigned] at htarget
    obtain ⟨hmime, hextension⟩ := Prod.mk.inj hnames
    rw [namesAgree_iff_of_row hfound hrow₀ htarget, hextension, FileInfo.mimeExtension,
      FileInfo.mimeExtension, hmime]
  · -- the row is new: it has no extension
    refine iff_of_true ?_ (namesAgree_of_no_row fun id hfound => ?_)
    · intro own hown
      cases hown
    · have hrecordId : (library₁.ensureRecord record.sha256).1 = id := by
        rw [Library.ensureRecord, hhash, hfound]
      have hnames := hkeeps.names record.id
      rw [hnone, hid, hrecordId, Option.map_none] at hnames
      exact Option.map_eq_none_iff.1 hnames.symm

end

/-- The hash of every file. -/
def zeroHash : Sha256 := ⟨List.replicate 32 0, List.length_replicate⟩

/-- A server with one cluster, whose files are all pictures with the hash zero. -/
def pictures : Host where
  clusters := [⟨1, "/c".toList, false, 0⟩]
  usage := [(1, 0)]
  sorts := List.insertionSort fun first second => first.score ≤ second.score
  sorts_perm := List.perm_insertionSort _
  sorts_sorted := List.pairwise_insertionSort _
  mimes := fun mimeId => if mimeId = 1000 then some (some "jpg".toList) else none
  hasParser := fun mimeId => mimeId = 1000
  inputs := fun _ => .ok ()
  parses := fun _ => .ok []
  opens := fun _ => .ok ()
  verifies := fun _ => .ok ()
  inspects := fun _ => .ok ()
  readable := fun _ => true
  hash := fun _ => zeroHash
  fileTimes := fun _ => some (0, none)
  identifyMime := fun _ _ => 1000
  identifyMimeForPath := fun _ _ => 1000
  createDirectories := fun _ => .ok ()
  opensFile := fun _ => true
  writesFile := fun _ => true
  renames := fun _ _ => .ok ()
  now := 7

/-- The name that a picture has in the cluster. -/
def picturePath : Text :=
  join "/c".toList (getClusterRelativePath zeroHash "jpeg".toList)

/-- A library with one file, of which nothing is known. -/
def onePicture : Library :=
  .empty fun path => if path = picturePath then some [1] else none

/-- A new file is written and can be found. -/
theorem import_findable_new :
    ∃ outcome library',
      importFile pictures [1] zeroHash [] false 0 (.empty fun _ => none) [] =
      (.ok outcome, library', []) ∧
        outcome.status = .success ∧ library'.written ≠ [] ∧
        library'.Findable pictures outcome.recordId [1] := by
  have hrun : ∃ outcome library',
      importFile pictures [1] zeroHash [] false 0 (.empty fun _ => none) [] =
      (.ok outcome, library', []) ∧
        outcome.status = .success ∧ library'.written ≠ [] := ⟨_, _, rfl, rfl, by decide⟩
  obtain ⟨outcome, library', h, hsuccess, hwritten⟩ := hrun
  refine ⟨outcome, library', h, hsuccess, hwritten, (import_findable_iff h hsuccess hwritten).2 ?_⟩
  intro id row own hid
  cases hid

/-- **An imported file that cannot be found.**  A scan takes up a picture whose extension is not the
one of its mime type.  The file is lost, and is imported again: the import succeeds and writes a
file with the other extension, and then takes the record out of the cluster because there is no file
with its own. -/
theorem scanned_picture_not_findable :
    ∃ library,
      scanFile pictures 1 ⟨picturePath, 1⟩ { adoptOrphans := true } ⟨1, "/c".toList, false, 0⟩
        onePicture [] = (.ok (), library, []) ∧
      ∃ outcome library',
        importFile pictures [1] zeroHash [] false 0 { library with files := fun _ => none } [] =
          (.ok outcome, library', []) ∧
        outcome.status = .success ∧ library'.written ≠ library.written ∧
          ¬library'.Findable pictures outcome.recordId [1] := by
  refine ⟨_, rfl, _, _, rfl, rfl, by decide, ?_⟩
  rintro ⟨location, hfound, -⟩
  have hnone : (Except.ok none : Except Text (Option VerifiedRecordPath)) = .ok (some location) :=
    hfound
  cases hnone

end Idhan.Files
