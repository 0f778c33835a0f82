import Idhan.Files.Library
import Idhan.Lib.Faulty

/-!
# Scanning a cluster

`scanFile` takes up a file that is in a cluster: the hash of its record is its name, and the row of
`file_info` takes its extension from the file.  A file that is not in the directory of its hash, or
has not the extension of its mime type, is moved.

* `sha256_eq_of_path_eq`: the path of a file tells its hash.
* `scanFile`: the function.
-/

namespace Idhan.Files

open List

open Flatten (Sha256)

/-! ## Names of files -/

def hexDigit (character : Char) : Option ℕ :=
  if '0' ≤ character ∧ character ≤ '9' then some (character.toNat - '0'.toNat)
  else if 'a' ≤ character ∧ character ≤ 'f' then some (character.toNat - 'a'.toNat + 10)
  else if 'A' ≤ character ∧ character ≤ 'F' then some (character.toNat - 'A'.toNat + 10)
  else none

/-- The loop of `SHA256::fromHex`. -/
def hexBytes : Text → Option (List UInt8)
  | high :: low :: rest => do
    let high ← hexDigit high
    let low ← hexDigit low
    let bytes ← hexBytes rest
    return UInt8.ofNat (high * 16 + low) :: bytes
  | _ => some []

/-- `SHA256::fromHex`. -/
def fromHex (text : Text) : Option Sha256 :=
  if text.length = 64 then (hexBytes text).map Sha256.ofBytes else none

/-- The last component of a path. -/
def lastComponent (path : Text) : Text :=
  (path.reverse.takeWhile (· ≠ '/')).reverse

/-- `path::parent_path`. -/
def parentPath (path : Text) : Text :=
  ((path.reverse.dropWhile (· ≠ '/')).drop 1).reverse

/-- `path::stem` and `path::extension` of a name: the last dot divides it, unless it is the first
character. -/
def splitExtension (name : Text) : Text × Text :=
  match name.reverse.dropWhile (· ≠ '.') with
  | [] => (name, [])
  | [_] => (name, [])
  | _ :: stem =>
    if name = "..".toList then (name, [])
      else (stem.reverse, '.' :: (name.reverse.takeWhile (· ≠ '.')).reverse)

def fileExtension (path : Text) : Text :=
  withoutDot (splitExtension (lastComponent path)).2

theorem digitChar_injOn {m n : ℕ} (hm : m < 16) (hn : n < 16)
    (h : Nat.digitChar m = Nat.digitChar n) : m = n := by
  have hall : ∀ a b : Fin 16, Nat.digitChar a = Nat.digitChar b → a = b := by decide
  exact Fin.mk.inj (hall ⟨m, hm⟩ ⟨n, hn⟩ h)

theorem digitChar_ne_slash {n : ℕ} (hn : n < 16) : Nat.digitChar n ≠ '/' := by
  have hall : ∀ a : Fin 16, Nat.digitChar a ≠ '/' := by decide
  exact hall ⟨n, hn⟩

/-- The two digits of a byte. -/
theorem hexByte_injective {first second : UInt8}
    (h : [Nat.digitChar (first.toNat / 16), Nat.digitChar (first.toNat % 16)] =
    [Nat.digitChar (second.toNat / 16), Nat.digitChar (second.toNat % 16)]) : first = second := by
  have hfirst := first.toNat_lt
  have hsecond := second.toNat_lt
  obtain ⟨hhigh, hlow⟩ := List.cons.inj h
  have hhigh := digitChar_injOn (by omega) (by omega) hhigh
  have hlow := digitChar_injOn (by omega) (by omega) (List.cons.inj hlow).1
  exact UInt8.toNat_inj.1 (by omega)

theorem hex_injective : Function.Injective hex := by
  intro first second h
  have hbytes : ∀ l₁ l₂ : List UInt8,
      (l₁.flatMap fun byte => [Nat.digitChar (byte.toNat / 16), Nat.digitChar (byte.toNat % 16)]) =
        (l₂.flatMap fun byte => [Nat.digitChar (byte.toNat / 16), Nat.digitChar (byte.toNat % 16)])
          → l₁ = l₂ := by
    intro l₁
    induction l₁ with
    | nil =>
      intro l₂ hl
      cases l₂ with
      | nil => rfl
      | cons byte rest => simp at hl
    | cons byte₁ rest₁ ih =>
      intro l₂ hl
      cases l₂ with
      | nil => simp at hl
      | cons byte₂ rest₂ =>
        rw [flatMap_cons, flatMap_cons] at hl
        obtain ⟨hbyte, hrest⟩ := append_inj hl rfl
        rw [hexByte_injective hbyte, ih rest₂ hrest]
  obtain ⟨bytes₁, _⟩ := first
  obtain ⟨bytes₂, _⟩ := second
  cases hbytes bytes₁ bytes₂ h
  rfl

theorem length_hex (sha256 : Sha256) : (hex sha256).length = 64 := by
  have hlength : ∀ l : List UInt8,
      (l.flatMap fun byte => [Nat.digitChar (byte.toNat / 16),
      Nat.digitChar (byte.toNat % 16)]).length = 2 * l.length := by
    intro l
    induction l with
    | nil => rfl
    | cons byte rest ih =>
      rw [flatMap_cons, length_append, ih, length_cons]
      simp only [length_cons, length_nil]
      omega
  rw [hex, hlength, sha256.length_eq]
  rfl

theorem slash_notMem_hex (sha256 : Sha256) : '/' ∉ hex sha256 := by
  intro h
  obtain ⟨byte, -, hbyte⟩ := mem_flatMap.1 h
  have hlt := byte.toNat_lt
  simp only [mem_cons, not_mem_nil, or_false] at hbyte
  obtain hbyte | hbyte := hbyte
  · exact digitChar_ne_slash (by omega) hbyte.symm
  · exact digitChar_ne_slash (by omega) hbyte.symm

theorem take_filename (sha256 : Sha256) (extension : Text) :
    (filename sha256 extension).take 64 = hex sha256 := by
  rw [← length_hex sha256, filename]
  split
  · exact take_length
  · exact take_left

theorem slash_notMem_filename {sha256 : Sha256} {extension : Text} (h : '/' ∉ extension) :
    '/' ∉ filename sha256 extension := by
  rw [filename]
  split
  · exact slash_notMem_hex sha256
  · simp [slash_notMem_hex sha256, h]

theorem slash_notMem_withoutDot {extension : Text} (h : '/' ∉ extension) :
    '/' ∉ withoutDot extension := by
  unfold withoutDot
  split
  · exact fun hmem => h (mem_cons_of_mem _ hmem)
  · exact h

theorem lastComponent_append {front name : Text} (h : '/' ∉ name) :
    lastComponent (front ++ '/' :: name) = name := by
  have hall : ∀ c ∈ name.reverse, (decide (c ≠ '/')) = true := by
    intro c hc
    exact decide_eq_true fun heq => h (heq ▸ mem_reverse.1 hc)
  rw [lastComponent, reverse_append, reverse_cons, append_assoc, takeWhile_append_of_pos hall]
  simp

/-- Files of different records have different paths, in all clusters. -/
theorem sha256_eq_of_path_eq {root₁ root₂ : Text} {first second : Sha256}
    {extension₁ extension₂ : Text} (h₁ : '/' ∉ extension₁) (h₂ : '/' ∉ extension₂)
    (h : join root₁ (getClusterRelativePath first extension₁) =
      join root₂ (getClusterRelativePath second extension₂)) :
    first = second := by
  have hlast {root : Text} {sha256 : Sha256} {extension : Text} (hplain : '/' ∉ extension) :
      lastComponent (join root (getClusterRelativePath sha256 extension)) =
      filename sha256 (withoutDot extension) := by
    have hsplit : join root (getClusterRelativePath sha256 extension) =
        (root ++ '/' :: 'f' :: (hex sha256).take 2) ++ '/' ::
        filename sha256 (withoutDot extension) := by
      simp [join, getClusterRelativePath]
    rw [hsplit]
    exact lastComponent_append (slash_notMem_filename (slash_notMem_withoutDot hplain))
  have hname := congrArg lastComponent h
  rw [hlast h₁, hlast h₂] at hname
  have hhex := congrArg (List.take 64) hname
  rw [take_filename, take_filename] at hhex
  exact hex_injective hhex

/-! ## The state of a record -/

inductive ScanMode where
  | disabled
  | missingOnly
  | always
  deriving DecidableEq, Repr

/-- `ScanOptions`, as far as one file is concerned. -/
structure ScanOptions where
  readOnly : Bool := true
  verifyHash : Bool := false
  adoptOrphans : Bool := false
  mime : ScanMode := .missingOnly
  metadata : ScanMode := .missingOnly
  fixExtensions : Bool := false
  deriving DecidableEq, Repr

structure ScanCandidate where
  path : Text
  size : ℕ
  deriving DecidableEq, Repr

/-- `ScanError`, or an exception. -/
inductive ScanStop where
  | error (message : Text) (clusterUnavailable : Bool)
  | exception
  deriving DecidableEq, Repr

/-- `RecordFileState`: a record, with its row of `file_info` if it has one. -/
structure RecordFileState where
  recordId : ℕ
  row : Option FileInfo
  hasMetadata : Bool
  deriving DecidableEq, Repr

def findRecordFileState (hash : Sha256) (library : Library) : Option RecordFileState :=
  (library.recordForHash hash).map fun id => ⟨id, library.fileInfo id, library.hasMetadata id⟩

def needsScan (mode : ScanMode) (present : Bool) : Bool :=
  match mode with
  | .always => true
  | .disabled => false
  | .missingOnly => !present

structure ScanPlan where
  detectMime : Bool
  parseMetadata : Bool
  verifyHash : Bool
  deriving DecidableEq, Repr

def planScan (options : ScanOptions) (state : Option RecordFileState) : ScanPlan where
  detectMime := needsScan options.mime
    ((state.bind RecordFileState.row).bind FileInfo.mimeId).isSome
  parseMetadata := needsScan options.metadata (state.any RecordFileState.hasMetadata)
  verifyHash := options.verifyHash || state.isNone

/-! ## The steps of a scan -/

/-- The cluster is not available. -/
def clusterUnavailable {α : Type} (x : Except Text α) : Except ScanStop α :=
  x.mapError (.error · true)

/-- An error that concerns this file only. -/
def scanError {α : Type} (message : String) (path : Text) : Except ScanStop α :=
  .error (.error (message.toList ++ path) false)

def checkAssignedFile (host : Host) (recordId : ℕ) (row : FileInfo) (clusterId : ℕ) (hash : Sha256)
    (library : Library) : Except ScanStop Unit :=
  match row.clusterId with
  | none => .ok ()
  | some assignedId =>
    if assignedId = clusterId then .ok ()
    else do
      let assigned ← clusterUnavailable (host.openCluster assignedId)
      let path := join assigned.path (getClusterRelativePath hash (row.resolvedExtension host))
      (host.inspects path).mapError fun message =>
        .error ("Cannot inspect assigned file ".toList ++ path ++ ": ".toList ++ message) false
      (if (library.files path).isSome then
        .error (.error ("Record ".toList ++ (toString recordId).toList ++
          " is already stored in cluster ".toList ++ (toString assignedId).toList) false)
      else .ok ())

/-- `hashFile` and the readers of mime types open the file. -/
def readFile (host : Host) (path : Text) (library : Library) : Except ScanStop Data :=
  match library.files path with
  | none => .error .exception
  | some data => if host.readable path then .ok data else .error .exception

/-- The hash of a file is the one in its name. -/
def verifyHash (host : Host) (path : Text) (hash : Sha256) (library : Library) :
    Except ScanStop Unit := do
  let data ← readFile host path library
  (if host.hash data = hash then .ok () else scanError "Filename does not match SHA-256: " path)

/-- The mime type is read from the file. -/
def detectMime (host : Host) (path : Text) (library : Library) : Except ScanStop (Option ℕ) := do
  let data ← readFile host path library
  let detected := host.identifyMimeForPath data path
  return if detected = unknownMime then none else some detected

/-- The extension that the file is to have. -/
def scannedExtension (host : Host) (options : ScanOptions) (mimeId : Option ℕ) (extension : Text) :
    Text :=
  if options.fixExtensions && !options.readOnly then
    match mimeId.bind host.bestExtension with
    | none => extension
    | some best => if best = [] then extension else best
  else extension

def renameNoReplace (host : Host) (source target : Text) (library : Library) :
    Except Text Library :=
  if (library.files source).isNone then .error "No such file or directory".toList
  else if (library.files target).isSome then .error "File exists".toList
  else do
    host.renames source target
    return library.moveFile source target

def moveWithoutReplacing (host : Host) (source target : Text) (library : Library) :
    Except ScanStop Library := do
  (host.createDirectories target).mapError fun message =>
    .error ("Cannot create ".toList ++ parentPath target ++ ": ".toList ++ message) false
  (renameNoReplace host source target library).mapError fun message =>
    .error ("Cannot move ".toList ++ source ++ " to ".toList ++ target ++ ": ".toList ++ message)
      false

/-- The move of a file that is not where it belongs. -/
def moveToDestination (host : Host) (access : ClusterInfo) (path destination : Text)
    (library : Library) : Except ScanStop Library :=
  if path = destination then .ok library
  else do
    clusterUnavailable (host.verifies access)
    moveWithoutReplacing host path destination library

/-- The row that `storeRecordFileInfo` makes of the one that is there. -/
def scannedRow (host : Host) (clusterId size : ℕ) (mimeId : Option ℕ) (extension : Text)
    (times : ℤ × Option ℤ) (old : Option FileInfo) : FileInfo :=
  { size := size
    clusterStoreTime := some ((old.bind FileInfo.clusterStoreTime).getD host.now)
    clusterDeleteTime := old.bind FileInfo.clusterDeleteTime
    fileMtime := some times.1
    fileCtime := times.2
    mimeId := mimeId
    clusterId := some clusterId
    extension := some extension
    mime_check := .inr (Option.some_ne_none extension) }

def fileInfoMatches (row : FileInfo) (clusterId size : ℕ) (mimeId : Option ℕ) (extension : Text)
    (times : ℤ × Option ℤ) : Bool :=
  row.clusterId = some clusterId ∧ row.size = size ∧ row.mimeId = mimeId ∧
    row.extension = some extension ∧
    row.fileMtime = some times.1 ∧ row.fileCtime = times.2 ∧ row.clusterStoreTime.isSome

/-- The row of the record is brought up to date. -/
def updateFileInfo (host : Host) (id clusterId size : ℕ) (mimeId : Option ℕ) (extension : Text)
    (times : ℤ × Option ℤ) (library : Library) : Except ScanStop Library :=
  if (library.fileInfo id).any fun row =>
      fileInfoMatches row clusterId size mimeId extension times then
    .ok library
  else
    match library.putRow host id
      (scannedRow host clusterId size mimeId extension times (library.fileInfo id)) with
    | none => .error .exception
    | some library => .ok library

/-- The metadata is read from the file. -/
def scanMetadata (host : Host) (id : ℕ) (mimeId : Option ℕ) (parse : Bool) (access : ClusterInfo)
    (path : Text) (library : Library) : Except ScanStop Library :=
  match mimeId with
  | none => .ok library
  | some mimeId =>
    if parse then
      (parseRecordMetadata host id mimeId path >>= fun contained =>
        storeRecordMetadata host id access path contained library).mapError
        fun error => .error error.message (error.status = 503)
    else .ok library

/-- The checks that `scanFile` makes of a file, and its mime type. -/
def examineFile (host : Host) (clusterId : ℕ) (path : Text) (hash : Sha256) (options : ScanOptions)
    (state : Option RecordFileState) (library : Library) : Except ScanStop (Option ℕ) := do
  (match state with
    | none => if options.adoptOrphans then .ok () else scanError "No record exists for " path
    | some state =>
      state.row.elim (.ok ()) fun row => checkAssignedFile host state.recordId row clusterId hash
        library)
  (if (planScan options state).verifyHash then verifyHash host path hash library else .ok ())
  (if (planScan options state).detectMime then detectMime host path library
  else .ok ((state.bind RecordFileState.row).bind FileInfo.mimeId))

/-- The first part of `scanFile`, which reads: the hash of the file, its mime type and extension,
and whether its metadata is wanted. -/
def prepareScan (host : Host) (clusterId : ℕ) (candidate : ScanCandidate) (options : ScanOptions)
    (access : ClusterInfo) (library : Library) :
    Except ScanStop (Sha256 × Option ℕ × Text × Bool) :=
  if candidate.size = 0 then scanError "Empty file: " candidate.path
  else if 2 ^ 63 - 1 < candidate.size then scanError "File is too large for the database: "
    candidate.path
  else
    match fromHex (splitExtension (lastComponent candidate.path)).1 with
    | none => scanError "Invalid hash in filename: " candidate.path
    | some hash =>
      if options.readOnly ∧ candidate.path ≠ join access.path (getClusterRelativePath hash
        (fileExtension candidate.path)) then
        scanError "File is outside its hash directory: " candidate.path
      else do
        clusterUnavailable (host.verifies access)
        let state := findRecordFileState hash library
        let mimeId ← examineFile host clusterId candidate.path hash options state library
        return (hash, mimeId, scannedExtension host options mimeId (fileExtension candidate.path),
          (planScan options state).parseMetadata)

/-- The times of the file that was moved, from a cluster that is still there. -/
def movedTimes (host : Host) (access : ClusterInfo) (destination : Text) :
    Except ScanStop (ℤ × Option ℤ) :=
  match host.fileTimes destination with
  | none => scanError "Cannot stat " destination
  | some times => do
    clusterUnavailable (host.verifies access)
    return times

/-- `scanFile`: what reads the tables is one step, and so is each change. -/
def scanFile (host : Host) (clusterId : ℕ) (candidate : ScanCandidate) (options : ScanOptions)
    (access : ClusterInfo) : Faulty ScanStop Library Unit := do
  let (hash, mimeId, extension, parse) ← .attempt .exception fun library =>
    (prepareScan host clusterId candidate options access library).map (·, library)
  let destination := join access.path (getClusterRelativePath hash extension)
  .attempt .exception fun library =>
    (moveToDestination host access candidate.path destination library).map ((), ·)
  let times ← .attempt .exception fun library => (movedTimes host access destination).map
      (·, library)
  let id ← .attempt .exception fun library => .ok (library.ensureRecord hash)
  .attempt .exception fun library =>
    (updateFileInfo host id clusterId candidate.size mimeId extension times library).map ((), ·)
  .attempt .exception fun library =>
    (scanMetadata host id mimeId parse access destination library).map ((), ·)

end Idhan.Files
