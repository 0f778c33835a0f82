import Idhan.Files.Attempts

/-!
# Files that were deleted

`deleteRecordFile` takes a record out of its cluster and notes the time.  `file_info` has no
constraint that a row with a cluster has no such time; every statement that writes a cluster has to
see to it.  The `UPDATE` of an import clears the time, and that of a missing file leaves a deleted
one alone.  `store_record_file_info`, with which a scan takes up a file, sets the cluster and keeps
the time.

Requests stop wherever one of their steps fails, so `Library.Consistent` (no row has both a cluster
and the time of a deletion) is shown to be kept by each step, and by the programs with the rules of
`Faulty`.  `stored_not_deleted` has it for all sequences of requests in which no scan takes up the
file of a record that was deleted; after `scanned_after_deletion`, which does, it is lost.
-/

namespace Idhan.Files

open Flatten (Sha256)

/-! ## The deletion -/

/-- Why `deleteRecordFile` does not delete: its error responses, or an exception. -/
inductive DeleteStop where
  | error (status : ℕ) (message : Text)
  | exception
  deriving DecidableEq, Repr

/-- The `UPDATE` of `deleteRecordFile`. -/
def FileInfo.deleted (now : ℤ) (row : FileInfo) : FileInfo :=
  if row.clusterDeleteTime = none then { row with clusterId := none, clusterDeleteTime := some now }
    else row

/-- A file is removed. -/
def Library.removeFile (library : Library) (path : Text) : Library :=
  { library with files := fun other => if other = path then none else library.files other }

/-- One deletion: what it is given, and what happens to it.  `removes` is what `IOUring::removeFile`
returns. -/
structure DeleteCall where
  host : Host
  id : ℕ
  removes : Text → ℤ
  faults : List Fault

/-- The number of the error that a file does not exist. -/
def enoent : ℤ := 2

/-- The path whose file `deleteRecordFile` removes. -/
def pathToDelete (host : Host) (id : ℕ) (library : Library) : Except DeleteStop Text :=
  match findRecordFilePath host id library with
  | .error message => .error (.error 503 message)
  | .ok none => .error (.error 409 "The record no longer has an assigned file cluster".toList)
  | .ok (some location) =>
    if location.cluster.readOnly then .error (.error 409 "The record's cluster is read-only".toList)
    else
      match host.verifies location.cluster with
      | .error message => .error (.error 503 message)
      | .ok () => .ok location.path

/-- The file at a path is removed, unless there is none. -/
def removeAt (removes : Text → ℤ) (path : Text) (library : Library) :
    Except DeleteStop (Unit × Library) :=
  if removes path ≠ 0 ∧ removes path ≠ -enoent then
    .error (.error 500 ("Could not delete record file: errno ".toList ++
    (toString (removes path)).toList))
  else if removes path = 0 then .ok ((), library.removeFile path)
  else .ok ((), library)

/-- `deleteRecordFile`, for a record that is named by its identifier; it returns what the response
says of `deleted`. -/
def deleteRecordFile (call : DeleteCall) : Faulty DeleteStop Library Bool := do
  let row ← .attempt .exception fun library =>
    match library.fileInfo call.id with
    | none =>
      .error (.error 404 ("Record ".toList ++ (toString call.id).toList ++
        " has no file info".toList))
    | some row => .ok (row, library)
  if row.clusterDeleteTime.isSome then return false
  else do
    (if row.clusterId.isSome then do
      let path ← .attempt .exception fun library => (pathToDelete call.host call.id library).map
          (·, library)
      .attempt .exception (removeAt call.removes path)
    else return ())
    .attempt .exception fun library =>
      .ok ((), library.updateRow call.id (FileInfo.deleted call.host.now))
    return true

/-- One scan of a file: what it is given, and what happens to it. -/
structure ScanCall where
  host : Host
  clusterId : ℕ
  candidate : ScanCandidate
  options : ScanOptions
  access : ClusterInfo
  faults : List Fault

/-! ## Rows with a cluster -/

/-- The row has no cluster, or no time of a deletion. -/
def FileInfo.Consistent (row : FileInfo) : Prop :=
  row.clusterId = none ∨ row.clusterDeleteTime = none

/-- No row has both a cluster and the time of a deletion. -/
def Library.Consistent (library : Library) : Prop :=
  ∀ id row, library.fileInfo id = some row → row.Consistent

namespace Library

variable {host : Host} {id : ℕ} {library library' : Library} {row : FileInfo}

section

variable (h : library.Consistent)
include h

theorem Consistent.of_eq (heq : library'.fileInfo = library.fileInfo) : library'.Consistent := by
  unfold Consistent
  rw [heq]
  exact h

theorem Consistent.updateRow {f : FileInfo → FileInfo}
    (hf : ∀ row, row.Consistent → (f row).Consistent) : (library.updateRow id f).Consistent := by
  intro other row hrow
  simp only [Library.updateRow] at hrow
  split at hrow
  · obtain ⟨old, hold, rfl⟩ := Option.map_eq_some_iff.1 hrow
    exact hf old (h other old hold)
  · exact h other row hrow

theorem Consistent.putRow (hrow : row.Consistent)
    (hput : library.putRow host id row = some library') : library'.Consistent := by
  unfold Library.putRow at hput
  split at hput
  · cases hput
    intro other row' hrow'
    simp only at hrow'
    split at hrow'
    · exact Option.some.inj hrow' ▸ hrow
    · exact h other row' hrow'
  · cases hput

theorem Consistent.insertRow (hrow : row.Consistent)
    (hinsert : library.insertRow host id row = some library') : library'.Consistent := by
  unfold Library.insertRow at hinsert
  split at hinsert
  · exact Option.some.inj hinsert ▸ h
  · exact h.putRow hrow hinsert

theorem Consistent.detachMissingRecordFile (clusterId : ℕ) :
    (library.detachMissingRecordFile id clusterId).Consistent := by
  refine h.updateRow fun row hrow => ?_
  split
  · exact .inl rfl
  · exact hrow

theorem Consistent.findPresentRecordFilePath {present : Option VerifiedRecordPath}
    (hfound : Files.findPresentRecordFilePath host id library = .ok (present, library')) :
    library'.Consistent := by
  obtain ⟨-, -, rfl, -⟩ | ⟨-, rfl, -⟩ | ⟨location, -, -, -, rfl⟩ :=
    findPresentRecordFilePath_cases hfound
  · exact h
  · exact h
  · exact h.detachMissingRecordFile location.clusterId

theorem Consistent.storeRecordMetadata {cluster : ClusterInfo} {path : Text}
    {contained : List Sha256}
    (hstored : Files.storeRecordMetadata host id cluster path contained library = .ok library') :
    library'.Consistent := by
  refine storeRecordMetadata_induct (P := Library.Consistent) h (fun library sha256 h => ?_)
    (fun _ _ _ h => ?_) hstored
  · exact h.of_eq (library.fileInfo_ensureRecord sha256)
  · exact h.updateRow fun _ hrow => hrow

theorem Consistent.parseAndStoreRecordMetadata :
    (Files.parseAndStoreRecordMetadata host id library).Consistent :=
  parseAndStoreRecordMetadata_induct h (fun _ _ hpresent => h.findPresentRecordFilePath hpresent)
    fun _ _ _ _ _ h hstored => h.storeRecordMetadata hstored

end

end Library

/-! ## What the requests keep -/

section

variable {host : Host} {id : ℕ} {sha256 : Sha256} {data : Data} {target : ImportTarget} {reach : ℕ}
  {library library' : Library} {α : Type} {access : ClusterInfo} {path : Text} {mimeId : Option ℕ}
  {clusterId : ℕ}

theorem keeps_writeRecordFile :
    (writeRecordFile host id sha256 data target reach).Keeps Library.Consistent := by
  refine (keeps_inspect _ _).bind fun extension => (keeps_inspect _ _).bind fun _ => .bind ?_
    fun _ => ?_
  · refine .step fun library h => ?_
    split
    · next hwrite =>
      rw [writeFileToCluster_eq_ok hwrite]
      exact h
    · unfold Library.tornWrite
      dsimp only
      split <;> exact h
  · refine keeps_query fun library _ library' h hresult => ?_
    split at hresult
    · cases hresult
      exact h.updateRow fun _ _ => .inr rfl
    · cases hresult

theorem keeps_storeRecordFile :
    (storeRecordFile host id sha256 data target reach).Keeps Library.Consistent := by
  refine (keeps_inspect _ _).bind fun readOnly => ?_
  cases readOnly with
  | false => exact keeps_writeRecordFile
  | true =>
    refine .bind (keeps_query fun library valid library' h hvalid => ?_) fun valid => ?_
    · obtain ⟨present, hpresent⟩ := storedFileIsValid_cases hvalid
      exact h.findPresentRecordFilePath hpresent
    · cases valid with
      | false => exact keeps_writeRecordFile
      | true => exact .pure ()

theorem keeps_placeFile (force : Bool) (row : FileInfo) :
    (placeFile host data sha256 force id target reach row).Keeps Library.Consistent := by
  unfold placeFile
  split
  · exact .pure _
  refine .bind (keeps_query fun library confirmed library' h hconfirmed => ?_) fun confirmed =>
    .bind ?_ fun _ => ?_
  · obtain ⟨rfl, -⟩ | ⟨present, hpresent, -⟩ := confirmStored_cases hconfirmed
    · exact h
    · exact h.findPresentRecordFilePath hpresent
  · split
    · exact keeps_storeRecordFile
    · exact .pure ()
  · refine .bind (keeps_query fun library _ library' h hresult => ?_) fun _ => .pure _
    cases hresult
    exact h.parseAndStoreRecordMetadata

theorem keeps_importFile (filename : Text) (force : Bool) :
    (importFile host data sha256 filename force reach).Keeps Library.Consistent := by
  unfold importFile
  split
  · exact keeps_inspect _ _
  refine .bind (keeps_query fun library answer library' h hexamine => ?_) fun answer => ?_
  · obtain ⟨rfl, -⟩ | ⟨id, present, hpresent, -⟩ := library_of_examine hexamine
    · exact h
    · exact h.findPresentRecordFilePath hpresent
  cases answer with
  | some outcome => exact .pure outcome
  | none =>
    dsimp only
    split
    · exact .pure _
    refine .bind (keeps_query fun library _ library' h hresult => ?_) fun id =>
      (keeps_inspect _ _).bind fun target =>
      .bind (keeps_query fun library _ library' h hresult => ?_) fun _ => (keeps_inspect _ _).bind
        fun row => keeps_placeFile force row
    · obtain ⟨-, rfl⟩ := Prod.mk.inj (Except.ok.inj hresult)
      exact h.of_eq (Library.fileInfo_ensureRecord library sha256)
    · split at hresult
      · cases hresult
      · next hinsert =>
        cases hresult
        exact h.insertRow (.inr rfl) hinsert

theorem keeps_deleteRecordFile (call : DeleteCall) :
    (deleteRecordFile call).Keeps Library.Consistent := by
  refine .bind (.attempt fun library row library' h hresult => ?_) fun row => ?_
  · split at hresult
    · cases hresult
    · cases hresult
      exact h
  split
  · exact .pure false
  refine .bind ?_ fun _ => .bind (.attempt fun library _ library' h hresult => ?_) fun _ =>
    .pure true
  · split
    · refine (Faulty.Keeps.read _).bind fun path => .attempt fun library _ library' h hresult => ?_
      unfold removeAt at hresult
      split at hresult
      · cases hresult
      split at hresult <;> cases hresult <;> exact h
    · exact .pure ()
  · cases hresult
    refine h.updateRow fun row hrow => ?_
    unfold FileInfo.deleted
    split
    · exact .inl rfl
    · exact hrow

/-- The record of the hash was not deleted. -/
def Library.Undeleted (hash : Sha256) (library : Library) : Prop :=
  ∀ id row, library.recordForHash hash = some id → library.fileInfo id = some row →
    row.clusterDeleteTime = none

/-- The hash in the name of the file, if there is one. -/
def ScanCandidate.hash (candidate : ScanCandidate) : Option Sha256 :=
  fromHex (splitExtension (lastComponent candidate.path)).1

theorem hash_of_prepareScan {candidate : ScanCandidate} {options : ScanOptions}
    {plan : Sha256 × Option ℕ × Text × Bool}
    (h : prepareScan host clusterId candidate options access library = .ok plan) :
    candidate.hash = some plan.1 := by
  unfold prepareScan at h
  split at h
  · cases h
  split at h
  · cases h
  split at h
  · cases h
  next hash hhash =>
  split at h
  · cases h
  obtain ⟨-, -, h⟩ := bind_eq_ok_iff.1 h
  obtain ⟨mimeId, -, h⟩ := bind_eq_ok_iff.1 h
  cases h
  exact hhash

/-- The move of the file changes neither records nor rows. -/
theorem tables_of_moveToDestination {destination : Text}
    (h : moveToDestination host access path destination library = .ok library') :
    library'.records = library.records ∧ library'.fileInfo = library.fileInfo := by
  unfold moveToDestination at h
  split at h
  · cases h
    exact ⟨rfl, rfl⟩
  obtain ⟨-, -, h⟩ := bind_eq_ok_iff.1 h
  obtain ⟨-, -, h⟩ := bind_eq_ok_iff.1 h
  have h := mapError_eq_ok_iff.1 h
  unfold renameNoReplace at h
  split at h
  · cases h
  split at h
  · cases h
  obtain ⟨-, -, h⟩ := bind_eq_ok_iff.1 h
  cases h
  exact ⟨rfl, rfl⟩

theorem Library.Consistent.updateFileInfo {size : ℕ} {extension : Text} {times : ℤ × Option ℤ}
    (h : library.Consistent)
    (hundeleted : ∀ row, library.fileInfo id = some row → row.clusterDeleteTime = none)
    (hupdate : Files.updateFileInfo host id clusterId size mimeId extension times library =
      .ok library') : library'.Consistent := by
  unfold Files.updateFileInfo at hupdate
  split at hupdate
  · cases hupdate
    exact h
  split at hupdate
  · cases hupdate
  next hput =>
  cases hupdate
  refine h.putRow (.inr ?_) hput
  unfold scannedRow
  cases hrow : library.fileInfo id with
  | none => rfl
  | some row => exact hundeleted row hrow

theorem Library.Consistent.scanMetadata {parse : Bool}
    (h : library.Consistent)
    (hscan : Files.scanMetadata host id mimeId parse access path library = .ok library') :
    library'.Consistent := by
  unfold Files.scanMetadata at hscan
  split at hscan
  · cases hscan
    exact h
  split at hscan
  · obtain ⟨contained, -, hstored⟩ := bind_eq_ok_iff.1 (mapError_eq_ok_iff.1 hscan)
    exact h.storeRecordMetadata hstored
  · cases hscan
    exact h

/-- The scan may take up the file: its record was not deleted. -/
def ScanCall.Allowed (call : ScanCall) (library : Library) : Prop :=
  ∀ hash, call.candidate.hash = some hash → library.Undeleted hash

/-- The program of a scan. -/
def ScanCall.program (call : ScanCall) : Faulty ScanStop Library Unit :=
  scanFile call.host call.clusterId call.candidate call.options call.access

theorem triple_scanFile (call : ScanCall) :
    call.program.Triple (fun library => library.Consistent ∧ call.Allowed library)
      (fun _ => Library.Consistent)
      Library.Consistent := by
  refine .bind (Q := fun plan library => library.Consistent ∧ library.Undeleted plan.1) ?_
    fun plan => ?_
  · exact .read (fun _ h => h.1) fun library plan h hplan =>
      ⟨h.1, h.2 _ (hash_of_prepareScan hplan)⟩
  refine .bind (Q := fun _ library => library.Consistent ∧ library.Undeleted plan.1) ?_ fun _ => ?_
  · refine .change (fun _ h => h.1) (fun _ h => h.1) fun library library' h hmoved => ?_
    obtain ⟨hrecords, hrows⟩ := tables_of_moveToDestination hmoved
    refine ⟨h.1.of_eq hrows, ?_⟩
    unfold Library.Undeleted Library.recordForHash
    rw [hrecords, hrows]
    exact h.2
  refine .bind (Q := fun _ library => library.Consistent ∧ library.Undeleted plan.1) ?_ fun times =>
    ?_
  · exact .read (fun _ h => h.1) fun _ _ h _ => h
  refine .bind (Q := fun id library => library.Consistent ∧ ∀ row, library.fileInfo id = some row →
    row.clusterDeleteTime = none) ?_
    fun id => ?_
  · refine .attempt (fun _ h => h.1) fun library id library' h hresult => ?_
    obtain ⟨hid, hlibrary⟩ := Prod.mk.inj (Except.ok.inj hresult)
    have hrows : library'.fileInfo = library.fileInfo :=
      hlibrary ▸ Library.fileInfo_ensureRecord library plan.1
    refine ⟨⟨h.1.of_eq hrows, fun row hrow => ?_⟩, h.1.of_eq hrows⟩
    rw [hrows, ← hid] at hrow
    exact h.2 _ row (Library.recordForHash_of_fileInfo_ensureRecord hrow) hrow
  refine .bind (Q := fun _ => Library.Consistent) ?_ fun _ => ?_
  · exact .change (fun _ h => h.1) (fun _ h => h) fun library library' h hupdate =>
      h.1.updateFileInfo h.2 hupdate
  · exact .change (fun _ h => h) (fun _ h => h) fun library library' h hscan => h.scanMetadata hscan

end

/-! ## Sequences of requests -/

/-- What a scan of a file leaves. -/
def ScanCall.run (call : ScanCall) (library : Library) : Except ScanStop Unit × Library :=
  let result := call.program library call.faults
  (result.1, result.2.1)

/-- What a deletion leaves. -/
def DeleteCall.run (call : DeleteCall) (library : Library) : Except DeleteStop Bool × Library :=
  let result := deleteRecordFile call library call.faults
  (result.1, result.2.1)

/-- The libraries that are reached from empty tables by imports, scans that are allowed, deletions
and detachments, each of which may have failed.  Between them files come and go. -/
inductive Served (allowed : ScanCall → Library → Prop) : Library → Prop
  | empty (files : Text → Option Data) : Served allowed (.empty files)
  | imported {library : Library} (h : Served allowed library) (call : ImportCall) :
      Served allowed (call.run library).2
  | scan {library : Library} (h : Served allowed library) (call : ScanCall)
      (hallowed : allowed call library) : Served allowed (call.run library).2
  | delete {library : Library} (h : Served allowed library) (call : DeleteCall) :
      Served allowed (call.run library).2
  | detach {library : Library} (h : Served allowed library) (id clusterId : ℕ) :
      Served allowed (library.detachMissingRecordFile id clusterId)
  | files {library : Library} (h : Served allowed library) (files : Text → Option Data) :
      Served allowed { library with files }

theorem Served.consistent {library : Library} (h : Served ScanCall.Allowed library) :
    library.Consistent := by
  induction h with
  | empty files =>
    intro id row hrow
    cases hrow
  | imported _ call ih => exact (keeps_importFile call.filename call.force).run ih call.faults
  | scan _ call hallowed ih =>
    exact (triple_scanFile call).run (fun _ _ h => h) (fun _ h => h) ⟨ih, hallowed⟩ call.faults
  | delete _ call ih => exact (keeps_deleteRecordFile call).run ih call.faults
  | detach _ id clusterId ih => exact ih.detachMissingRecordFile clusterId
  | files _ files ih => exact ih

/-- The condition of the search on the row of a record, without and with those that were deleted. -/
def FileInfo.searched (include_deleted : Bool) (row : FileInfo) : Bool :=
  row.mimeId.isSome && (include_deleted || row.clusterDeleteTime.isNone)

/-- **A stored file is not recorded as deleted**, if no scan takes up the file of a record that was
deleted: a search without deleted files finds it if one with them does. -/
theorem stored_not_deleted {library : Library} (h : Served ScanCall.Allowed library) {id : ℕ}
    {row : FileInfo} (hrow : library.fileInfo id = some row) (hstored : row.clusterId ≠ none) :
    row.clusterDeleteTime = none ∧ row.searched false = row.searched true := by
  have hundeleted : row.clusterDeleteTime = none := (h.consistent id row hrow).resolve_left hstored
  exact ⟨hundeleted, by simp [FileInfo.searched, hundeleted]⟩

/-- The other name that a picture can have in the cluster. -/
def otherPath : Text :=
  join "/c".toList (getClusterRelativePath zeroHash "jpg".toList)

/-- A scan of a picture of the cluster. -/
def scanPicture (path : Text) : ScanCall where
  host := pictures
  clusterId := 1
  candidate := ⟨path, 1⟩
  options := { adoptOrphans := true }
  access := ⟨1, "/c".toList, false, 0⟩
  faults := []

/-- The deletion of a picture. -/
def deletePicture : DeleteCall :=
  ⟨pictures, 1, fun _ => 0, []⟩

/-- A cluster with the same picture under two names. -/
def twoPictures : Library :=
  .empty fun path => if path = picturePath ∨ path = otherPath then some [1] else none

/-- A scan takes up a picture of which nothing is known. -/
theorem stored_not_deleted_scanned :
    ∃ library row, Served ScanCall.Allowed library ∧ library.fileInfo 1 = some row ∧
    row.clusterId = some 1 ∧ row.clusterDeleteTime = none ∧
    row.searched false = row.searched true := by
  have hrun : Served ScanCall.Allowed ((scanPicture picturePath).run twoPictures).2 :=
    .scan (.empty _) _ fun hash _ id row hid => by cases hid
  obtain ⟨row, hrow, hcluster⟩ :
      ∃ row, ((scanPicture picturePath).run twoPictures).2.fileInfo 1 = some row ∧
        row.clusterId = some 1 :=
    ⟨_, rfl, rfl⟩
  exact ⟨_, row, hrun, hrow, hcluster, stored_not_deleted hrun hrow (by simp [hcluster])⟩

/-- The picture is taken up under one name and deleted, and then taken up under the other one.  The
row has a cluster and the time of the deletion, and a search does not find it. -/
theorem scanned_after_deletion :
    ∃ library row, Served (fun _ _ => True) library ∧ library.fileInfo 1 = some row ∧
    row.clusterId = some 1 ∧ row.clusterDeleteTime = some 7 ∧ row.searched false = false ∧
    row.searched true = true := by
  have hdeleted :
      Served (fun _ _ => True)
        (deletePicture.run ((scanPicture picturePath).run twoPictures).2).2 :=
    .delete (.scan (.empty _) _ trivial) _
  exact ⟨_, _, hdeleted.scan (scanPicture otherPath) trivial, rfl, rfl, rfl, rfl, rfl⟩

end Idhan.Files
