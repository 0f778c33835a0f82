import Mathlib.Logic.Function.Basic
import Mathlib.Data.List.Nodup
import Mathlib.Data.List.TakeWhile
import Mathlib.Tactic.Common

/-!
# Publishing a flattened output

`runFlatten` of `ptr-core/src/RunFlatten.cpp`, from the side of the output directory.  Until the
output is complete everything is written in the work subdirectory.  Then `publishStagedOutput`
renames the chunks and the relations file over whatever has their names, and if a rename fails
removes what it has moved; `writeManifest` comes last.

A failed flatten is meant to leave the output directory as it was.  It does not: to remove what was
moved is not to restore what was there, and nothing is undone when the manifest cannot be written.

* `publishStagedOutput_out`: what the renames and their undoing leave.
* `failed_flatten_restores`: when a failed flatten leaves the directory as it was.
-/

namespace Idhan.Flatten

open List

/-- The content of a file. -/
abbrev FileContent := List UInt8

/-- The files of a directory, without those in subdirectories. -/
abbrev Directory := String → Option FileContent

def relationsFilename : String := "relations.idhanptr"

def manifestFilename : String := "compact_manifest.json"

/-- The statistics of a manifest that the message of a success gives. -/
structure FlattenStats where
  eventsScanned : ℕ
  mappingsAfterCollapse : ℕ
  terminalDeletes : ℕ
  terminalDeleteRecords : ℕ
  definedTags : ℕ
  usedTags : ℕ
  deriving DecidableEq, Repr

/-- What is complete in the staging directory when it comes to the publication: the files that the
manifest names, and the text of the manifest. -/
structure StagedOutput where
  /-- the files of `manifest.chunks` -/
  chunks : List String
  files : Directory
  manifestText : FileContent
  stats : FlattenStats
  distinct : (manifestFilename :: (chunks ++ [relationsFilename])).Nodup
  written : ∀ name ∈ chunks ++ [relationsFilename], (files name).isSome

/-- The names that are moved, in their order. -/
def StagedOutput.names (staged : StagedOutput) : List String :=
  staged.chunks ++ [relationsFilename]

/-- How the writing of the manifest fails. -/
inductive ManifestFault where
  | opening
  /-- only some bytes are written -/
  | writing (bytes : ℕ)
  deriving DecidableEq, Repr

/-- The operations that fail, with the text of the exceptions. -/
structure Faults where
  rename : String → Bool
  remove : String → Bool
  manifest : Option ManifestFault
  what : String

/-- How far a flatten comes before the publication. -/
inductive Progress where
  /-- there is less space than required -/
  | refused (available : ℕ)
  /-- an exception -/
  | threw (what : String)
  | cancelledDuringScan
  | cancelledDuringCollapse
  | completed (staged : StagedOutput)

/-- `FlattenOutcome`, without the manifest. -/
structure FlattenOutcome where
  success : Bool
  cancelled : Bool
  message : String
  deriving DecidableEq, Repr

/-- What `runFlatten` reads of its options, and the name of the output directory. -/
structure FlattenOptions where
  outDir : String
  requiredFreeBytes : ℕ
  discardTerminalDeletes : Bool
  deriving DecidableEq, Repr

/-! ## Publication -/

/-- The state of `publishStagedOutput`. -/
structure Publication where
  staging : Directory
  out : Directory
  moved : List String

/-- The moves; they end at the first rename that fails. -/
def moveAll (faults : Faults) : Publication → List String → Publication × Bool
  | p, [] => (p, true)
  | p, name :: names =>
    match p.staging name with
    | none => (p, false)
    | some content =>
      if faults.rename name then (p, false)
      else moveAll faults ⟨Function.update p.staging name none,
        Function.update p.out name (some content), p.moved ++ [name]⟩ names

/-- `std::filesystem::remove`, whose failure is ignored. -/
def removeFile (faults : Faults) (out : Directory) (name : String) : Directory :=
  if faults.remove name then out else Function.update out name none

/-- `publishStagedOutput`: the output directory, and whether an exception leaves the function. -/
def publishStagedOutput (faults : Faults) (staged : StagedOutput) (out : Directory) :
    Directory × Bool :=
  match moveAll faults ⟨staged.files, out, []⟩ staged.names with
  | (p, true) => (p.out, true)
  | (p, false) => (p.moved.foldl (removeFile faults) p.out, false)

/-- `writeManifest`: opening the file empties it. -/
def writeManifest (faults : Faults) (text : FileContent) (out : Directory) : Directory × Bool :=
  match faults.manifest with
  | none => (Function.update out manifestFilename (some text), true)
  | some .opening => (out, false)
  | some (.writing bytes) => (Function.update out manifestFilename (some (text.take bytes)), false)

/-- A number of bytes in GiB. -/
def gib (bytes : ℕ) : ℕ :=
  bytes / (1024 * 1024 * 1024)

/-- The message of a success. -/
def successMessage (options : FlattenOptions) (staged : StagedOutput) : String :=
  "Flattened " ++ toString staged.stats.eventsScanned ++ " events into " ++
    toString staged.stats.mappingsAfterCollapse ++ " mappings across " ++
    toString staged.chunks.length ++
    " chunks. " ++ toString staged.stats.terminalDeletes ++ " terminal deletes " ++
    (if options.discardTerminalDeletes then "discarded" else "kept") ++ " across " ++
    toString staged.stats.terminalDeleteRecords ++ " records; " ++
    toString (staged.stats.definedTags - staged.stats.usedTags) ++ " of " ++
    toString staged.stats.definedTags ++ " defined tags were unused"

/-- `runFlatten`: its outcome, and the files of the output directory outside the work
subdirectory. -/
def runFlatten (options : FlattenOptions) (faults : Faults) (progress : Progress)
    (out : Directory) : FlattenOutcome × Directory :=
  match progress with
  | .refused available =>
    (⟨false, false, "Not enough free space at " ++ options.outDir ++ ": " ++
      toString (gib available) ++ " GiB available, " ++ toString (gib options.requiredFreeBytes) ++
      " GiB required"⟩, out)
  | .threw what => (⟨false, false, what⟩, out)
  | .cancelledDuringScan => (⟨false, true, "Cancelled during scan"⟩, out)
  | .cancelledDuringCollapse => (⟨false, true, "Cancelled during collapse"⟩, out)
  | .completed staged =>
    match publishStagedOutput faults staged out with
    | (out, false) => (⟨false, false, faults.what⟩, out)
    | (out, true) =>
      match writeManifest faults staged.manifestText out with
      | (out, false) => (⟨false, false, faults.what⟩, out)
      | (out, true) => (⟨true, false, successMessage options staged⟩, out)

/-! ## What a publication leaves -/

/-- The names before the first whose rename fails. -/
def movedNames (faults : Faults) (names : List String) : List String :=
  names.takeWhile fun name => !faults.rename name

variable {names : List String} {name : String} {faults : Faults}

theorem movedNames_cons_of_fails (h : faults.rename name = true)
    (names : List String) : movedNames faults (name :: names) = [] := by
  simp [movedNames, h]

theorem movedNames_cons (h : faults.rename name = false)
    (names : List String) :
    movedNames faults (name :: names) = name :: movedNames faults names := by
  simp [movedNames, h]

/-- No rename fails. -/
def movesAll (faults : Faults) (names : List String) : Bool :=
  names.all fun name => !faults.rename name

theorem movedNames_eq_self :
    movedNames faults names = names ↔ movesAll faults names = true := by
  rw [movedNames, takeWhile_eq_self_iff, movesAll, all_eq_true]

/-- The moves put the staged files over those in the directory, up to the first rename that
fails. -/
theorem moveAll_spec (faults : Faults) (hnodup : names.Nodup) (p : Publication)
    (hstaged : ∀ name ∈ names, (p.staging name).isSome) :
    (moveAll faults p names).1.moved = p.moved ++ movedNames faults names ∧
    (∀ file, (moveAll faults p names).1.out file =
      if file ∈ movedNames faults names then p.staging file else p.out file) ∧
    (moveAll faults p names).2 = movesAll faults names := by
  induction names generalizing p with
  | nil => simp [moveAll, movedNames, movesAll]
  | cons name names ih =>
    obtain ⟨hname, hnames⟩ := nodup_cons.1 hnodup
    obtain ⟨content, hcontent⟩ := Option.isSome_iff_exists.1 (hstaged name (mem_cons_self ..))
    unfold moveAll
    cases hfails : faults.rename name with
    | true => simp [hcontent, movedNames_cons_of_fails hfails, movesAll, hfails]
    | false =>
      simp only [hcontent, movedNames_cons hfails, Bool.false_eq_true, if_false]
      -- the names that are left are still staged, being others
      have hne : ∀ other ∈ names, other ≠ name := fun other hother heq => hname (heq ▸ hother)
      obtain ⟨hmoved, hout, hdone⟩ := ih hnames ⟨Function.update p.staging name none,
        Function.update p.out name (some content), p.moved ++ [name]⟩ fun other hother => by
          simpa only [Function.update_of_ne (hne other hother)] using
            hstaged other (mem_cons_of_mem _ hother)
      refine ⟨by rw [hmoved, append_assoc, singleton_append], fun file => ?_, by
        simpa [movesAll, hfails] using hdone⟩
      rw [hout]
      by_cases hfile : file = name
      · subst hfile
        have hnot : file ∉ movedNames faults names := fun hmem => hname ((takeWhile_subset _) hmem)
        simp [hnot, hcontent]
      · simp [hfile]

/-- Undoing removes the files, except those that cannot be removed. -/
theorem foldl_removeFile (faults : Faults) (names : List String) (out : Directory) (file : String) :
    names.foldl (removeFile faults) out file =
      if file ∈ names ∧ faults.remove file = false then none else out file := by
  induction names generalizing out with
  | nil => simp
  | cons name names ih =>
    rw [foldl_cons, ih]
    by_cases hfile : file = name
    · subst hfile
      cases hremove : faults.remove file <;> simp [removeFile, hremove]
    · have hkeep : removeFile faults out name file = out file := by
        unfold removeFile
        split_ifs
        · rfl
        · rw [Function.update_of_ne hfile]
      simp [hfile, hkeep]

/-- **What a publication leaves**: all staged files, or, if a rename fails, none of those that were
moved, except those that cannot be removed. -/
theorem publishStagedOutput_out (faults : Faults) (staged : StagedOutput) (out : Directory) :
    (publishStagedOutput faults staged out).2 = movesAll faults staged.names ∧
    ∀ file, (publishStagedOutput faults staged out).1 file =
      if file ∈ movedNames faults staged.names then
        if movesAll faults staged.names = true ∨ faults.remove file = true then staged.files file
          else none
      else out file := by
  obtain ⟨hmoved, hout, hdone⟩ := moveAll_spec faults (nodup_cons.1 staged.distinct).2
    ⟨staged.files, out, []⟩ staged.written
  rw [← StagedOutput.names] at hmoved hout hdone
  unfold publishStagedOutput
  generalize moveAll faults ⟨staged.files, out, []⟩ staged.names = result at hmoved hout hdone
  obtain ⟨p, ok⟩ := result
  subst hdone
  dsimp only at hmoved hout ⊢
  cases hall : movesAll faults staged.names with
  | true =>
    refine ⟨rfl, fun file => ?_⟩
    rw [if_pos (Or.inl rfl)]
    exact hout file
  | false =>
    refine ⟨rfl, fun file => ?_⟩
    simp only [foldl_removeFile, hmoved, hout, nil_append, Bool.false_eq_true, false_or]
    split_ifs <;> simp_all

/-! ## Failed runs -/

/-- What a failure does no harm to: if a rename fails, the files moved before it were not in the
directory; if the manifest fails, they were there with the same content. -/
def Harmless (faults : Faults) (staged : StagedOutput) (out : Directory) : Prop :=
  if movesAll faults staged.names then
    match faults.manifest with
    | none => True
    | some .opening => ∀ name ∈ staged.names, out name = staged.files name
    | some (.writing bytes) => (∀ name ∈ staged.names, out name = staged.files name) ∧
      out manifestFilename = some (staged.manifestText.take bytes)
  else
    ∀ name ∈ movedNames faults staged.names,
      out name = if faults.remove name then staged.files name else none

/-- A directory is unchanged if some of its files are what they were. -/
theorem ite_eq_self_iff {new out : Directory} :
    (∀ file, (if file ∈ names then new file else out file) = out file) ↔
      ∀ name ∈ names, out name = new name := by
  refine forall_congr' fun file => ?_
  split_ifs with hmem
  · exact ⟨fun h _ => h.symm, fun h => (h hmem).symm⟩
  · exact ⟨fun _ h => absurd h hmem, fun _ => rfl⟩

/-- The same when one more file is written, which was unchanged before. -/
theorem update_eq_self_iff {content : Option FileContent} {new out : Directory}
    (h : new name = out name) :
    (∀ file, Function.update new name content file = out file) ↔
      (∀ file, new file = out file) ∧ out name = content := by
  constructor
  · intro hall
    refine ⟨fun file => ?_, by simpa using (hall name).symm⟩
    by_cases hfile : file = name
    · exact hfile ▸ h
    · simpa only [Function.update_of_ne hfile] using hall file
  · rintro ⟨hall, hcontent⟩ file
    by_cases hfile : file = name
    · rw [hfile, Function.update_self, hcontent]
    · rw [Function.update_of_ne hfile, hall]

/-- The condition for a whole run: it does no harm to fail before the publication. -/
def Progress.Harmless (faults : Faults) (out : Directory) : Progress → Prop
  | .completed staged => Flatten.Harmless faults staged out
  | _ => True

/-- **When a failed flatten leaves the output directory as it was.**  It does if it is cancelled or
fails before the publication.  If a rename fails, it does just if the files that were moved before
had not been there (or, where they cannot be removed again, had the same content); and if the
manifest cannot be written, just if all files had been there with the same content. -/
theorem failed_flatten_restores (options : FlattenOptions) (faults : Faults) (progress : Progress)
    (out : Directory) :
    ((runFlatten options faults progress out).1.success = false →
      ∀ file, (runFlatten options faults progress out).2 file = out file) ↔
      progress.Harmless faults out := by
  cases progress with
  | refused | threw | cancelledDuringScan | cancelledDuringCollapse =>
    exact iff_of_true (fun _ _ => rfl) trivial
  | completed staged =>
    obtain ⟨hok, hout⟩ := publishStagedOutput_out faults staged out
    simp only [Progress.Harmless, Flatten.Harmless, runFlatten]
    generalize publishStagedOutput faults staged out = result at hok hout
    obtain ⟨published, ok⟩ := result
    obtain rfl : ok = movesAll faults staged.names := hok
    dsimp only at hout ⊢
    cases hall : movesAll faults staged.names with
    | true =>
      have hpublished : published = fun file => if file ∈ staged.names then staged.files file
          else out file := by
        funext file
        simpa only [hall, movedNames_eq_self.2 hall, true_or, if_true] using hout file
      simp only [writeManifest, if_true]
      cases faults.manifest with
      | none => simp
      | some fault =>
        cases fault with
        | opening => simpa only [forall_const, hpublished] using ite_eq_self_iff
        | writing bytes =>
          have hmanifest : manifestFilename ∉ staged.names := (nodup_cons.1 staged.distinct).1
          simp only [forall_const, hpublished]
          rw [update_eq_self_iff (if_neg hmanifest), ite_eq_self_iff]
    | false =>
      simp only [hall, Bool.false_eq_true, false_or] at hout
      simp only [forall_const, hout, Bool.false_eq_true, if_false]
      exact ite_eq_self_iff

/-- **A failed flatten destroys earlier output.**  The directory has a chunk of an earlier run; a
new run moves its chunk over it, cannot move the relations file, and removes the chunk. -/
theorem failed_flatten_removes_chunk :
    ∃ (options : FlattenOptions) (faults : Faults) (staged : StagedOutput)
    (out : Directory), out "chunk-00000.idhanptr" = some [1] ∧
      (runFlatten options faults (.completed staged) out).1.success = false ∧
      (runFlatten options faults (.completed staged) out).2 "chunk-00000.idhanptr" = none := by
  refine ⟨⟨"out", 0, false⟩, ⟨fun name => name = relationsFilename, fun _ => false, none, "rename"⟩,
    ⟨["chunk-00000.idhanptr"], fun _ => some [2], [], ⟨0, 0, 0, 0, 0, 0⟩, by decide, by simp⟩,
    fun name => if name = "chunk-00000.idhanptr" then some [1] else none, ?_, ?_, ?_⟩
  · decide
  · decide
  · decide

end Idhan.Flatten
