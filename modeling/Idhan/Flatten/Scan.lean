import Mathlib.Logic.Function.Basic
import Idhan.Flatten.Chunk

/-!
# The scan of the update files

`scanCorpus` of `ptr-core/src/FlattenScan.cpp`: every update file is a list of added and deleted
mappings, and each mapping becomes an event that is spilled to the bucket of its hash
(`ptr-core/src/BucketSpill.cpp`).

The files are shared out to workers.  A worker writes the events of its file one after the other,
and each write is atomic, being done under the lock of the bucket; so a run of the scan is an
interleaving of the files, and is given here by the list of the files whose turn it is.  The work
directory has no buckets before.

Of an update file only the mappings are kept: its index fits the 16 bits of an event, and files that
are missing or do not parse are skipped.
-/

namespace Idhan.Flatten

inductive EventOp where
  | add
  | delete
  deriving DecidableEq, Repr

/-- The number of an operation, on which the order of events rests. -/
def EventOp.value : EventOp → ℕ
  | .add => 0
  | .delete => 1

/-- `MappingEvent`, without the padding. -/
structure MappingEvent where
  hashId : Word
  tagId : Word
  updateIndex : Fin (2 ^ 16)
  op : EventOp
  deriving DecidableEq, Repr

def bucketCount : ℕ := 4096

def bucketFor (hashId : Word) : ℕ :=
  hashId.val % bucketCount

def eventLess (a b : MappingEvent) : Bool :=
  if a.hashId ≠ b.hashId then a.hashId < b.hashId
  else if a.tagId ≠ b.tagId then a.tagId < b.tagId
  else if a.updateIndex ≠ b.updateIndex then a.updateIndex < b.updateIndex
  else a.op.value < b.op.value

/-! ## Events -/

structure ContentUpdateMapping where
  tagId : Word
  hashIds : List Word
  deriving DecidableEq, Repr

/-- An update file: the index of its update and its mappings. -/
structure UpdateFile where
  updateIndex : Fin (2 ^ 16)
  mappingsAdd : List ContentUpdateMapping
  mappingsDelete : List ContentUpdateMapping
  deriving DecidableEq, Repr

/-- `spillMappings`: the events that are written, in their order. -/
def spillMappings (mappings : List ContentUpdateMapping) (updateIndex : Fin (2 ^ 16))
    (op : EventOp) :
    List MappingEvent :=
  mappings.flatMap fun mapping => mapping.hashIds.map fun hashId =>
    ⟨hashId, mapping.tagId, updateIndex, op⟩

/-- The events that a worker writes for a file. -/
def UpdateFile.events (file : UpdateFile) : List MappingEvent :=
  spillMappings file.mappingsAdd file.updateIndex .add ++
    spillMappings file.mappingsDelete file.updateIndex .delete

/-! ## Buckets -/

/-- A bucket of the `BucketWriter`: what its file holds, and what its buffer holds. -/
structure Bucket where
  file : List MappingEvent
  buffer : List MappingEvent
  deriving DecidableEq, Repr

/-- `flushBucket`. -/
def Bucket.flush (bucket : Bucket) : Bucket :=
  ⟨bucket.file ++ bucket.buffer, []⟩

/-- `BucketWriter::write`, at the bucket of the event.  A buffer takes at least one event. -/
def Bucket.write (bufferEvents : ℕ) (bucket : Bucket) (event : MappingEvent) : Bucket :=
  let written : Bucket := { bucket with buffer := bucket.buffer ++ [event] }
  if max bufferEvents 1 ≤ written.buffer.length then written.flush else written

/-- The state of a scan: the events that each file has left, and the buckets. -/
structure ScanState where
  remaining : List (List MappingEvent)
  buckets : ℕ → Bucket

/-- The state before the first event. -/
def ScanState.start (files : List UpdateFile) : ScanState :=
  ⟨files.map (·.events), fun _ => ⟨[], []⟩⟩

/-- The worker of a file writes the next event of the file. -/
def ScanState.step (bufferEvents : ℕ) (s : ScanState) (file : ℕ) : ScanState :=
  match s.remaining[file]? with
  | some (event :: events) =>
    { remaining := s.remaining.set file events
      buckets := Function.update s.buckets (bucketFor event.hashId)
        ((s.buckets (bucketFor event.hashId)).write bufferEvents event) }
  | _ => s

/-- The scan, in the interleaving of the files that `schedule` gives. -/
def scan (bufferEvents : ℕ) (files : List UpdateFile) (schedule : List ℕ) : ScanState :=
  schedule.foldl (ScanState.step bufferEvents) (.start files)

/-- All events of all files are written. -/
def ScanState.Done (s : ScanState) : Prop :=
  ∀ events ∈ s.remaining, events = []

/-- `scanCorpus`: the files of the buckets, which are flushed after the last event. -/
def scanCorpus (bufferEvents : ℕ) (files : List UpdateFile) (schedule : List ℕ) :
    ℕ → List MappingEvent :=
  fun bucket => ((scan bufferEvents files schedule).buckets bucket).flush.file

end Idhan.Flatten
