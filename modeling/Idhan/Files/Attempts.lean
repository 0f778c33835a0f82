import Idhan.Files.Import

/-!
# Imports that fail

`importFile` is a program that can stop at each of its steps: a statement of the database can be
refused, or its answer can be lost, and the file that is written can remain with a part of the data.
A step is a part of `importFile` that changes the library at most once.

## What can be damaged

The row of a record names a cluster before the file is written, and the file is written in place.
So a write that is cut off leaves a file that the next import takes for the whole one: it finds a
record of the hash with a file behind it and answers `Exists`, and `torn_file_exists` is such a run.

## What cannot

If no write is cut off, an import that answers `Exists` has found the right bytes, and one that
fails has damaged no file (`exists_only_if_intact`).  The invariant is carried through `Reached`,
the libraries after some imports, each of which may have failed at any of its steps; so the proof
goes through the program once, with a triple for each step, and not through the ways in which it can
end.
-/

namespace Idhan.Files

open List Option

open Flatten (Sha256)

/-! ## The program -/

/-- One import: what it is given, and what happens to it. -/
structure ImportCall where
  host : Host
  data : Data
  filename : Text
  force : Bool
  /-- which of its steps fail -/
  faults : List Fault
  /-- how much of the data is in the file if the write fails -/
  reach : ℕ

/-- The import as it is called: with the hash of the data. -/
def ImportCall.run (call : ImportCall) (library : Library) :
    Except ImportStop ImportOutcome × Library :=
  let result := importFile call.host call.data (call.host.hash call.data) call.filename call.force
    call.reach library call.faults
  (result.1, result.2.1)

/-! ## Files that have their hash -/

/-- No extension of the table `mime` has a slash. -/
def Host.PlainExtensions (host : Host) : Prop :=
  ∀ mimeId best, host.mimes mimeId = some (some best) → '/' ∉ best

theorem plain_mimeExtension {host : Host} {row : FileInfo} (hplain : host.PlainExtensions) :
    '/' ∉ row.mimeExtension host := by
  unfold FileInfo.mimeExtension
  cases hbest : row.mimeId.bind host.bestExtension with
  | none => exact not_mem_nil
  | some best =>
    obtain ⟨mimeId, -, hbest⟩ := bind_eq_some_iff.1 hbest
    exact hplain mimeId best (join_eq_some_iff.1 hbest)

/-- A file that is opened for writing is written. -/
def Host.CompleteWrites (host : Host) : Prop :=
  ∀ path, host.opensFile path → host.writesFile path

/-- Every file with the path of a record has the hash of it, and no extension of a row has a
slash. -/
structure Library.Intact (hash : Data → Sha256) (library : Library) : Prop where
  files : ∀ root sha256 extension data, '/' ∉ extension →
    library.files (join root (getClusterRelativePath sha256 extension)) = some data →
    hash data = sha256
  plain : ∀ id row extension, library.fileInfo id = some row → row.extension = some extension →
    '/' ∉ extension

/-- The files that were there are there. -/
def Library.KeepsFiles (library library' : Library) : Prop :=
  ∀ path, (library.files path).isSome → (library'.files path).isSome

/-- What a step does that writes no file. -/
structure Library.Still (library library' : Library) : Prop where
  files : library'.files = library.files
  rows : ∀ id row, library'.fileInfo id = some row →
    row.extension = none ∨ ∃ old, library.fileInfo id = some old ∧ old.extension = row.extension

namespace Library

variable {host : Host} {hash : Data → Sha256} {id : ℕ}
variable {library library' library₁ library₂ library₃ : Library}

theorem Still.refl (library : Library) : library.Still library :=
  ⟨rfl, fun _ row hrow => .inr ⟨row, hrow, rfl⟩⟩

theorem Still.trans (h₁₂ : library₁.Still library₂) (h₂₃ : library₂.Still library₃) :
    library₁.Still library₃ := by
  refine ⟨h₂₃.files.trans h₁₂.files, fun id row hrow => ?_⟩
  obtain hnone | ⟨middle, hmiddle, hextension⟩ := h₂₃.rows id row hrow
  · exact .inl hnone
  obtain hnone | ⟨old, hold, hextension'⟩ := h₁₂.rows id middle hmiddle
  · exact .inl (hextension ▸ hnone)
  · exact .inr ⟨old, hold, hextension'.trans hextension⟩

theorem Keeps.still (h : library.Keeps library') : library.Still library' := by
  refine ⟨h.files, fun id row hrow => .inr ?_⟩
  have hnames := h.names id
  rw [hrow] at hnames
  obtain ⟨old, hold, heq⟩ := map_eq_some_iff.1 hnames.symm
  exact ⟨old, hold, (Prod.mk.inj heq).2⟩

theorem still_ensureRecord (library : Library) (sha256 : Sha256) :
    library.Still (library.ensureRecord sha256).2 := by
  refine ⟨library.files_ensureRecord sha256, fun id row hrow => .inr ⟨row, ?_, rfl⟩⟩
  rwa [fileInfo_ensureRecord] at hrow

theorem still_insertRow {new : FileInfo} (hnew : new.extension = none)
    (h : library.insertRow host id new = some library') : library.Still library' := by
  unfold insertRow at h
  split at h
  · cases h
    exact .refl _
  unfold putRow at h
  split at h
  · cases h
    refine ⟨rfl, fun other row hrow => ?_⟩
    simp only at hrow
    split at hrow
    · cases hrow
      exact .inl hnew
    · exact .inr ⟨row, hrow, rfl⟩
  · cases h

theorem still_parseAndStoreRecordMetadata :
    library.Still (parseAndStoreRecordMetadata host id library) := by
  refine parseAndStoreRecordMetadata_induct (.refl _)
    (fun _ _ hpresent => (keeps_findPresentRecordFilePath hpresent).still)
    fun _ _ _ library₁ library₂ hstill hstored => ?_
  refine storeRecordMetadata_induct (P := library.Still) { hstill with }
    (fun library₃ sha256 h => h.trans (library₃.still_ensureRecord sha256))
    (fun library₃ _ _ h => h.trans (Keeps.still ?_)) hstored
  exact library₃.keeps_updateRow id fun _ => rfl

theorem Intact.plain_resolvedExtension {row : FileInfo} (h : library.Intact hash)
    (hplain : host.PlainExtensions) (hrow : library.fileInfo id = some row) :
    '/' ∉ row.resolvedExtension host := by
  unfold FileInfo.resolvedExtension
  cases hextension : row.extension with
  | none => exact plain_mimeExtension hplain
  | some extension => exact h.plain id row extension hrow hextension

theorem Intact.still (h : library.Intact hash) (hstill : library.Still library') :
    library'.Intact hash := by
  refine ⟨?_, fun id row extension hrow hextension => ?_⟩
  · rw [hstill.files]
    exact h.files
  · obtain hnone | ⟨old, hold, heq⟩ := hstill.rows id row hrow
    · rw [hnone] at hextension
      cases hextension
    · exact h.plain id old extension hold (heq.trans hextension)

/-- A file with the right hash is written. -/
theorem Intact.writeFile {root : Text} {sha256 : Sha256} {extension : Text} {data : Data}
    (h : library.Intact hash) (hplain : '/' ∉ extension) (hdata : hash data = sha256) :
    (library.writeFile (join root (getClusterRelativePath sha256 extension)) data).Intact hash := by
  refine ⟨fun root' sha256' extension' data' hplain' hfile => ?_, h.plain⟩
  simp only [Library.writeFile] at hfile
  split at hfile
  · next hpath =>
    cases hfile
    rw [hdata]
    exact (sha256_eq_of_path_eq hplain' hplain hpath).symm
  · exact h.files root' sha256' extension' data' hplain' hfile

theorem keepsFiles_writeFile (path : Text) (data : Data) :
    library.KeepsFiles (library.writeFile path data) := by
  intro other hother
  simp only [Library.writeFile]
  split
  · rfl
  · exact hother

end Library

/-! ## What holds after an import -/

section

variable {host : Host} {hash : Data → Sha256} {start library library' : Library} {id reach : ℕ}
variable {sha256 : Sha256} {data : Data} {extension : Text} {force : Bool} {target : ImportTarget}
variable {α : Type} {f : Library → Except ImportStop (α × Library)} {answer : Option ImportOutcome}
variable {P : Library → Prop} {Q : α → Library → Prop}

/-- The files have their hashes, and those that were there at the start are there. -/
structure Sound (hash : Data → Sha256) (start library : Library) : Prop where
  intact : library.Intact hash
  kept : start.KeepsFiles library

theorem Sound.still (h : Sound hash start library) (hstill : library.Still library') :
    Sound hash start library' := by
  refine ⟨h.intact.still hstill, fun path hpath => ?_⟩
  rw [hstill.files]
  exact h.kept path hpath

theorem keeps_query {P : Library → Prop}
    (h : ∀ library a library', P library → f library = .ok (a, library') → P library') :
    (query f).Keeps P :=
  Faulty.Keeps.attempt h

theorem keeps_inspect (f : Library → Except ImportStop α) (P : Library → Prop) :
    (inspect f).Keeps P :=
  Faulty.Keeps.read f

/-- A step that writes no file. -/
theorem triple_query (hP : ∀ library, P library → Sound hash start library)
    (hf : ∀ library a library', f library = .ok (a, library') → library.Still library')
    (hQ : ∀ library a library', P library → f library = .ok (a, library') →
      Sound hash start library' → Q a library') :
    (query f).Triple P Q (Sound hash start) := by
  refine Faulty.Triple.attempt hP fun library a library' hlibrary hresult => ?_
  have hsound := (hP library hlibrary).still (hf library a library' hresult)
  exact ⟨hQ library a library' hlibrary hresult hsound, hsound⟩

/-- A file that is opened is written, so a write that fails leaves nothing. -/
theorem tornWrite_eq {e : ImportStop} (hcomplete : host.CompleteWrites)
    (h : writeFileToCluster host target.access.path target.access.readOnly sha256 data extension
      library = .error e) :
    library.tornWrite host target sha256 data extension reach = library := by
  refine if_neg ?_
  rintro ⟨hwritable, hcreates, hopens⟩
  obtain ⟨_, hcreates⟩ := isOk_iff.1 hcreates
  simp [writeFileToCluster, hwritable, hcreates, hopens, hcomplete _ hopens, Except.mapError, bind,
    Except.bind] at h

/-- Writing the file. -/
theorem sound_attemptWrite (hcomplete : host.CompleteWrites) (hdata : hash data = sha256)
    (hplain : '/' ∉ extension) :
    (attemptWrite host target sha256 data extension reach).Keeps (Sound hash start) := by
  refine Faulty.Keeps.step fun library hsound => ?_
  split
  · next library' hwrite =>
    rw [writeFileToCluster_eq_ok hwrite]
    exact ⟨hsound.intact.writeFile hplain hdata,
      fun path hpath => library.keepsFiles_writeFile _ _ path (hsound.kept path hpath)⟩
  · next hwrite =>
    rw [tornWrite_eq hcomplete hwrite]
    exact hsound

section

variable (hplain : host.PlainExtensions) (hcomplete : host.CompleteWrites)
  (hdata : hash data = sha256)
include hplain hcomplete hdata

theorem sound_writeRecordFile : (writeRecordFile host id sha256 data target reach).Keeps
    (Sound hash start) := by
  refine Faulty.Triple.bind (Q := fun extension library => '/' ∉ extension ∧
    Sound hash start library) ?_ fun extension => ?_
  · refine Faulty.Triple.read (fun _ h => h) fun library extension hsound hextension => ⟨?_, hsound⟩
    obtain ⟨row, -, rfl⟩ := recordBestExtension_eq_ok hextension
    exact plain_mimeExtension hplain
  intro library faults h
  refine Faulty.Keeps.bind (keeps_inspect _ _) (fun _ => ?_) library faults h.2
  refine .bind (sound_attemptWrite hcomplete hdata h.1) fun _ => keeps_query
    fun library _ library' hsound h => ?_
  split at h
  · cases h
    refine hsound.still (library.keeps_updateRow id ?_).still
    exact fun _ => rfl
  · cases h

theorem sound_storeRecordFile : (storeRecordFile host id sha256 data target reach).Keeps
    (Sound hash start) := by
  refine .bind (keeps_inspect _ _) fun readOnly => ?_
  cases readOnly with
  | false => exact sound_writeRecordFile hplain hcomplete hdata
  | true =>
    refine .bind (keeps_query fun _ _ _ hsound h => hsound.still (keeps_storedFileIsValid h).still)
      fun valid => ?_
    cases valid with
    | false => exact sound_writeRecordFile hplain hcomplete hdata
    | true => exact .pure ()

end

/-- The files have their hashes, and a record that is answered for has its file. -/
def Answered (host : Host) (hash : Data → Sha256) (start : Library) (outcome : ImportOutcome)
    (library : Library) : Prop :=
  Sound hash start library ∧
    (outcome.status = .exists → ∃ data, library.Findable host outcome.recordId data)

theorem triple_placeFile {row : FileInfo} (hplain : host.PlainExtensions)
    (hcomplete : host.CompleteWrites) (hdata : hash data = sha256) :
    (placeFile host data sha256 force id target reach row).Triple (Sound hash start)
    (Answered host hash start)
      (Sound hash start) := by
  unfold placeFile
  split
  · exact .pure fun library hsound => ⟨hsound, fun h => nomatch h⟩
  -- if the file is confirmed and the import is not forced, nothing is stored and the file stays
  refine .bind (Q := fun confirmed library => Sound hash start library ∧
    (confirmed = true → row.clusterStoreTime.isSome ∧ ∃ data, library.Findable host id data)) ?_
      fun confirmed => ?_
  · refine triple_query (fun _ h => h) (fun _ _ _ h => (keeps_confirmStored h).still)
      fun library confirmed library' _ h hsound => ?_
    refine ⟨hsound, fun hconfirmed => ?_⟩
    obtain ⟨-, rfl⟩ | ⟨present, hpresent, hstored, rfl⟩ := confirmStored_cases h
    · cases hconfirmed
    · obtain ⟨location, rfl⟩ := isSome_iff_exists.1 hconfirmed
      exact ⟨hstored, Library.findable_of_findPresentRecordFilePath hpresent⟩
  refine .bind (Q := fun _ library => Sound hash start library ∧
    (confirmed = true → force = false → ∃ data, library.Findable host id data)) ?_ fun _ => ?_
  · split
    · next hstore =>
      intro library faults hlibrary
      obtain ⟨hok, herror⟩ := sound_storeRecordFile hplain hcomplete hdata library faults hlibrary.1
      refine ⟨fun a library' faults' hrun => ⟨hok a library' faults' hrun,
        fun hconfirmed hforce => ?_⟩, herror⟩
      have hstored := (hlibrary.2 hconfirmed).1
      simp [shouldStore, hconfirmed, hforce, hstored] at hstore
    · exact .pure fun library h => ⟨h.1, fun hconfirmed _ => (h.2 hconfirmed).2⟩
  refine .bind (Q := fun _ library => Sound hash start library ∧
    (confirmed = true → force = false → ∃ data, library.Findable host id data)) ?_ fun _ => ?_
  · refine triple_query (fun _ h => h.1) (fun library _ library' h => ?_)
      fun library _ library' hlibrary h hsound => ?_
    · cases h
      exact Library.still_parseAndStoreRecordMetadata
    · cases h
      refine ⟨hsound, fun hconfirmed hforce => ?_⟩
      obtain ⟨found, hfound⟩ := hlibrary.2 hconfirmed hforce
      exact ⟨found, (parseAndStoreRecordMetadata_spec host id found library).2.2 hfound⟩
  · refine .pure fun library h => ⟨h.1, fun hexists => ?_⟩
    cases confirmed <;> cases force <;> simp at hexists
    exact h.2 rfl rfl

/-- `examine` leaves what finding the file leaves, and answers `Exists` only if it has found it. -/
theorem library_of_examine (h : examine host sha256 force library = .ok (answer, library')) :
    library' = library ∧ (∀ outcome ∈ answer, outcome.status ≠ .exists) ∨
      ∃ id present, findPresentRecordFilePath host id library = .ok (present, library') ∧
        answer = present.map fun _ => ⟨.exists, id, .unknownReason, none⟩ := by
  unfold examine at h
  split at h
  · cases h
    simp
  obtain ⟨-, -, h⟩ := bind_eq_ok_iff.1 h
  split at h
  · cases h
    simp
  split at h
  · cases h
    simp
  split at h
  · cases h
    simp [deletedOutcome]
  obtain ⟨⟨present, library₁⟩, hpresent, h⟩ := bind_eq_ok_iff.1 h
  cases h
  exact .inr ⟨_, present, unavailable_eq_ok_iff.1 hpresent, rfl⟩

theorem still_examine (h : examine host sha256 force library = .ok (answer, library')) :
    library.Still library' := by
  obtain ⟨rfl, -⟩ | ⟨id, present, hpresent, -⟩ := library_of_examine h
  · exact .refl _
  · exact (Library.keeps_findPresentRecordFilePath hpresent).still

/-- A record that answers the request with `Exists` has its file. -/
theorem findable_of_examine {outcome : ImportOutcome}
    (h : examine host sha256 force library = .ok (some outcome, library'))
    (hexists : outcome.status = .exists) :
    ∃ data, library'.Findable host outcome.recordId data := by
  obtain ⟨-, hother⟩ | ⟨id, present, hpresent, hanswer⟩ := library_of_examine h
  · exact absurd hexists (hother outcome rfl)
  · obtain ⟨location, rfl, rfl⟩ := map_eq_some_iff.1 hanswer.symm
    exact Library.findable_of_findPresentRecordFilePath hpresent

/-- **What holds after an import**, wherever it stops. -/
theorem triple_importFile (filename : Text) (force : Bool) (reach : ℕ)
    (hplain : host.PlainExtensions) (hcomplete : host.CompleteWrites) (hdata : hash data = sha256) :
    (importFile host data sha256 filename force reach).Triple (Sound hash start)
    (Answered host hash start)
      (Sound hash start) := by
  unfold importFile
  split
  · unfold inspect query
    exact .read (fun _ h => h) fun _ _ _ h => nomatch h
  refine .bind (Q := fun answer library => Sound hash start library ∧ ∀ outcome,
    answer = some outcome → Answered host hash start outcome library) ?_ fun answer => ?_
  · refine triple_query (fun _ h => h) (fun _ _ _ h => still_examine h)
      fun library answer library' _ h hsound => ⟨hsound, ?_⟩
    rintro outcome rfl
    exact ⟨hsound, findable_of_examine h⟩
  cases answer with
  | some outcome => exact .pure fun library h => h.2 outcome rfl
  | none =>
    simp only
    split
    · exact .pure fun library h => ⟨h.1, fun hexists => nomatch hexists⟩
    refine .bind (Q := fun _ => Sound hash start) ?_ fun id => ?_
    · refine triple_query (fun _ h => h.1) (fun library _ library' h => ?_) fun _ _ _ _ _ h => h
      rw [← show (library.ensureRecord sha256).2 =
        library' from congrArg Prod.snd (Except.ok.inj h)]
      exact library.still_ensureRecord sha256
    refine .bind (keeps_inspect _ _) fun target => ?_
    refine .bind (keeps_query fun library _ library' hsound h => ?_) fun _ => ?_
    · split at h
      · cases h
      · next hinsert =>
        cases h
        exact hsound.still (Library.still_insertRow rfl hinsert)
    exact .bind (keeps_inspect _ _) fun row => triple_placeFile hplain hcomplete hdata

end

/-! ## Sequences of imports -/

/-- The libraries that are reached by imports, each of which may have failed. -/
inductive Reached (hash : Data → Sha256) (allowed : ImportCall → Prop) (start : Library) :
    Library → Prop
  | start : Reached hash allowed start start
  | call {library : Library} (h : Reached hash allowed start library) (call : ImportCall)
      (hhash : call.host.hash = hash) (hallowed : allowed call) :
      Reached hash allowed start (call.run library).2

/-- No write of the call is cut off, and the extensions of its mime types are plain. -/
def ImportCall.Writes (call : ImportCall) : Prop :=
  call.host.PlainExtensions ∧ call.host.CompleteWrites

section

variable {hash : Data → Sha256} {start library library' : Library} {call : ImportCall}

/-- What holds after one call. -/
theorem ImportCall.sound_run (library' : Library) (hhash : call.host.hash = hash)
    (hwrites : call.Writes) (hintact : library.Intact hash) :
    (∀ outcome, call.run library = (.ok outcome, library') →
      Answered call.host hash library outcome library') ∧
      ∀ e, call.run library = (.error e, library') → Sound hash library library' := by
  have hdata : hash call.data = call.host.hash call.data := by rw [hhash]
  have hsound : Sound hash library library := ⟨hintact, fun _ h => h⟩
  obtain ⟨hok, herror⟩ := triple_importFile call.filename call.force call.reach hwrites.1 hwrites.2
    hdata library
    call.faults hsound
  refine ⟨fun outcome h => ?_, fun e h => ?_⟩
  · obtain ⟨hresult, hlibrary⟩ := Prod.mk.inj h
    exact hok outcome library' _ (Prod.ext hresult (Prod.ext hlibrary rfl))
  · obtain ⟨hresult, hlibrary⟩ := Prod.mk.inj h
    exact herror e library' _ (Prod.ext hresult (Prod.ext hlibrary rfl))

theorem Reached.intact (h : Reached hash ImportCall.Writes start library)
    (hstart : start.Intact hash) : library.Intact hash := by
  induction h with
  | start => exact hstart
  | @call library _ call hhash hallowed ih =>
    have hsound := ImportCall.sound_run (call.run library).2 hhash hallowed ih
    cases hresult : (call.run library).1 with
    | ok outcome => exact (hsound.1 outcome (Prod.ext hresult rfl)).1.intact
    | error e => exact (hsound.2 e (Prod.ext hresult rfl)).intact

/-- A file that is found has the hash of the record. -/
theorem Library.Intact.hash_of_findable {host : Host} {id : ℕ} (h : library.Intact hash)
    (hplain : host.PlainExtensions) {data : Data} (hfindable : library.Findable host id data) :
    ∃ record ∈ library.records, record.id = id ∧ hash data = record.sha256 := by
  obtain ⟨location, hfound, hdata⟩ := hfindable
  obtain ⟨record, hrecord, rfl, row, hrow⟩ := Library.exists_row_of_findRecordFilePath hfound
  obtain ⟨-, -, hrelative⟩ := (Library.findRecordFilePath_eq_some_iff hrecord hrow).1 hfound
  rw [VerifiedRecordPath.path, hrelative] at hdata
  refine ⟨record, hrecord, rfl, h.files _ _ _ _ (h.plain_resolvedExtension hplain hrow) hdata⟩

/-- **An import that answers `Exists` has found the bytes with the hash of the record, and one that
fails has damaged no file**: in every library that imports reach which may have failed anywhere, if
no write is cut off. -/
theorem exists_only_if_intact (hstart : start.Intact hash)
    (hreached : Reached hash ImportCall.Writes start library) (hhash : call.host.hash = hash)
    (hwrites : call.Writes) :
    (∀ outcome library', call.run library = (.ok outcome, library') → outcome.status = .exists →
      ∃ record ∈ library'.records, record.id = outcome.recordId ∧ ∃ location data,
        findRecordFilePath call.host record.id library' = .ok (some location) ∧
          library'.files location.path = some data ∧ hash data = record.sha256) ∧
    ∀ e library', call.run library = (.error e, library') → ∀ record ∈ library.records,
    ∀ row root data,
      library.fileInfo record.id = some row →
      library.files (join root (getClusterRelativePath record.sha256
        (row.resolvedExtension call.host))) = some data →
      ∃ data', library'.files (join root
        (getClusterRelativePath record.sha256 (row.resolvedExtension call.host))) = some data' ∧
        hash data' = record.sha256 := by
  have hintact := hreached.intact hstart
  refine ⟨fun outcome library' hrun hexists => ?_,
    fun e library' hrun record hrecord row root data hrow hdata => ?_⟩
  · obtain ⟨hsound, hanswered⟩ :=
      (ImportCall.sound_run library' hhash hwrites hintact).1 outcome hrun
    obtain ⟨data, hfindable⟩ := hanswered hexists
    obtain ⟨record, hrecord, hid, hdata⟩ := hsound.intact.hash_of_findable hwrites.1 hfindable
    obtain ⟨location, hfound, hfile⟩ := hfindable
    exact ⟨record, hrecord, hid, location, data, hid ▸ hfound, hfile, hdata⟩
  · obtain ⟨hintact', hkept⟩ := (ImportCall.sound_run library' hhash hwrites hintact).2 e hrun
    obtain ⟨data', hdata'⟩ := isSome_iff_exists.1 (hkept _ (isSome_of_eq_some hdata))
    exact ⟨data', hdata', hintact'.files _ _ _ _ (hintact.plain_resolvedExtension hwrites.1 hrow)
      hdata'⟩

end

/-- A hash that tells the picture `[1]` from all other data. -/
def pictureHash (data : Data) : Sha256 :=
  if data = [1] then zeroHash else ⟨List.replicate 32 1, length_replicate⟩

/-- The picture is imported; the disk is full or not. -/
def importPicture (full force : Bool) : ImportCall where
  host := { pictures with hash := pictureHash, writesFile := fun _ => !full }
  data := [1]
  filename := []
  force := force
  faults := []
  reach := 0

/-- Imports that are not cut off: the second answers for the file of the first. -/
theorem exists_only_if_intact_twice :
    ∃ outcome library', (importPicture false false).run
      ((importPicture false false).run (.empty fun _ => none)).2 =
        (.ok outcome, library') ∧ outcome.status = .exists ∧
      ∃ record ∈ library'.records, record.id = outcome.recordId ∧ ∃ location data,
        findRecordFilePath (importPicture false false).host record.id library' =
          .ok (some location) ∧ library'.files location.path = some data ∧
          pictureHash data = record.sha256 := by
  have hwrites : (importPicture false false).Writes := by
    refine ⟨fun mimeId best hbest => ?_, fun _ _ => rfl⟩
    simp only [importPicture, pictures] at hbest
    split at hbest
    · cases hbest
      decide
    · cases hbest
  have hempty : (Library.empty fun _ => none).Intact pictureHash := by
    refine ⟨fun _ _ _ _ _ hfile => ?_, fun _ _ _ hrow => ?_⟩
    · cases hfile
    · cases hrow
  have hrun : ∃ outcome library',
      (importPicture false false).run ((importPicture false false).run (.empty fun _ => none)).2 =
      (.ok outcome, library') ∧ outcome.status = .exists := ⟨_, _, rfl, rfl⟩
  obtain ⟨outcome, library', hrun, hexists⟩ := hrun
  have hreached : Reached pictureHash ImportCall.Writes (.empty fun _ => none)
      ((importPicture false false).run (.empty fun _ => none)).2 := .call .start _ rfl hwrites
  exact ⟨outcome, library', hrun, hexists,
    (exists_only_if_intact hempty hreached rfl hwrites).1 outcome library' hrun hexists⟩

/-- **A damaged file that is answered for**, and a whole file that is damaged.  The disk is full
while a picture is written: the import fails, and the next one answers `Exists` for the empty file.
A forced import of a picture that is there fails likewise, and leaves it empty. -/
theorem torn_file_exists :
    (∃ library, Reached pictureHash (fun _ => True) (.empty fun _ => none) library ∧
      ∃ outcome library', (importPicture false false).run library = (.ok outcome, library') ∧
        outcome.status = .exists ∧ ∃ record ∈ library'.records, record.id = outcome.recordId ∧
        ∃ location data,
          findRecordFilePath (importPicture false false).host record.id library' =
            .ok (some location) ∧ library'.files location.path = some data ∧
            pictureHash data ≠ record.sha256) ∧
    ∃ library, Reached pictureHash (fun _ => True) (.empty fun _ => none) library ∧
      ∃ e library', (importPicture true true).run library = (.error e, library') ∧ ∃ path,
        library.files path = some [1] ∧ library'.files path = some [] := by
  refine ⟨⟨_, .call .start (importPicture true false) rfl trivial, _, _, rfl, rfl, ⟨1, zeroHash⟩,
    ?_, rfl, _, [], rfl, rfl, ?_⟩,
    ⟨_, .call .start (importPicture false false) rfl trivial, _, _, rfl,
      join "/c".toList (getClusterRelativePath zeroHash "jpg".toList), rfl, rfl⟩⟩
  · exact mem_singleton_self _
  · decide

end Idhan.Files
