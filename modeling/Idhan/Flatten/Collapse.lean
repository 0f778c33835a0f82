import Idhan.Lib.Grouping
import Idhan.Flatten.Scan

/-!
# The collapse of the buckets

`collapseBuckets` of `ptr-core/src/FlattenCollapse.cpp`: each bucket is sorted and cut into records
and these into chains of events of one tag; a chain collapses to its last operation.  The records go
into one shared batch, and whoever fills the batch seals it: a chunk file is written while others go
on adding.

A run is given by the list of the things that workers do: to collapse a bucket, to append the next
record, to seal a batch.  The code lets another worker append only while a batch is being sealed, so
that this allows more interleavings than there are.  The file of a batch is named after the number
of the batch (`chunk-00000.idhanptr` and so on), which stands for the name here.
-/

namespace Idhan.Flatten

/-- What `DefinitionReader` answers. -/
structure Definitions where
  hash : Word → Option Sha256
  tag : TagLookup

/-! ## One bucket -/

def collapseChain (events : List MappingEvent) : Option (EventOp × Fin (2 ^ 16)) :=
  match events.getLast? with
  | none => none
  | some last =>
    if last.op = .delete then
      some (.delete, last.updateIndex)
    else
      (events.find? fun event => event.op = .add).map fun event => (.add, event.updateIndex)

abbrev CollapsedRecord := PendingRecord

structure BucketCollapseResult where
  records : List CollapsedRecord
  eventsScanned : ℕ
  mappingsAfterCollapse : ℕ
  terminalDeletes : ℕ
  terminalDeleteRecords : ℕ
  deriving DecidableEq, Repr

/-- The tags of a record so far, and the result of the bucket. -/
structure RecordCollapse where
  adds : List Word
  dels : List Word
  out : BucketCollapseResult

/-- The inner loop of `collapseOneBucket`: one chain. -/
def collapseTag (discardTerminalDeletes : Bool) (r : RecordCollapse)
    (chain : Word × List MappingEvent) : RecordCollapse :=
  match collapseChain chain.2 with
  | none => r
  | some (.add, _) =>
    { r with
      adds := r.adds ++ [chain.1]
      out := { r.out with mappingsAfterCollapse := r.out.mappingsAfterCollapse + 1 } }
  | some (.delete, _) =>
    let r := { r with out := { r.out with terminalDeletes := r.out.terminalDeletes + 1 } }
    if discardTerminalDeletes then r
    else
      { r with
        dels := r.dels ++ [chain.1]
        out := { r.out with mappingsAfterCollapse := r.out.mappingsAfterCollapse + 1 } }

/-- The outer loop of `collapseOneBucket`: one record.  Events of a hash without a definition are
dropped. -/
def collapseHash (definitions : Definitions) (discardTerminalDeletes : Bool)
    (out : BucketCollapseResult) (record : Word × List MappingEvent) : BucketCollapseResult :=
  match definitions.hash record.1 with
  | none => out
  | some sha256 =>
    let r := (runsBy (·.tagId) record.2).foldl (collapseTag discardTerminalDeletes) ⟨[], [], out⟩
    { r.out with
      records := r.out.records ++ [⟨sha256, r.adds, r.dels⟩]
      terminalDeleteRecords :=
        if out.terminalDeletes < r.out.terminalDeletes then r.out.terminalDeleteRecords + 1
        else r.out.terminalDeleteRecords }

/-- `std::ranges::sort( events, eventLess )`. -/
def sortEvents (events : List MappingEvent) : List MappingEvent :=
  events.insertionSort fun a b => eventLess b a = false

def collapseOneBucket (definitions : Definitions) (discardTerminalDeletes : Bool)
    (events : List MappingEvent) : BucketCollapseResult :=
  (runsBy (·.hashId) (sortEvents events)).foldl (collapseHash definitions discardTerminalDeletes)
    ⟨[], events.length, 0, 0, 0⟩

/-! ## The chunk sink -/

/-- The state of a collapse. -/
structure CollapseState where
  /-- the buckets that no worker has claimed -/
  waiting : List ℕ
  /-- the records that workers have still to append -/
  adding : List (List CollapsedRecord)
  /-- `m_pending` -/
  pending : List CollapsedRecord
  /-- `m_next_index` -/
  nextIndex : ℕ
  /-- the batches that are being sealed, with their numbers -/
  sealing : List (ℕ × List CollapsedRecord)
  /-- the chunk files, with the numbers of their names -/
  chunks : List (ℕ × Chunk)

/-- What a worker does next. -/
inductive CollapseAction where
  | collapse (bucket : ℕ)
  | append (worker : ℕ)
  | sealBatch (batch : ℕ)
  deriving DecidableEq, Repr

/-- The options and inputs of a collapse. -/
structure CollapseInput where
  buckets : ℕ → List MappingEvent
  definitions : Definitions
  maxRecordsPerChunk : ℕ
  discardTerminalDeletes : Bool

namespace CollapseState

/-- The state before the first bucket. -/
def start : CollapseState :=
  ⟨List.range bucketCount, [], [], 0, [], []⟩

/-- The file of a number is written, whatever it held. -/
def writeChunk (chunks : List (ℕ × Chunk)) (index : ℕ) (chunk : Chunk) : List (ℕ × Chunk) :=
  (chunks.filter fun file => file.1 ≠ index) ++ [(index, chunk)]

def takeBatch (s : CollapseState) : CollapseState :=
  { s with
    pending := []
    nextIndex := s.nextIndex + 1
    sealing := s.sealing ++ [(s.nextIndex, s.pending)] }

/-- What happens when a worker does something.  The indices are places in the lists of the state. -/
def step (input : CollapseInput) (s : CollapseState) : CollapseAction → CollapseState
  | .collapse bucket =>
    match s.waiting[bucket]? with
    | some number =>
      { s with
        waiting := s.waiting.eraseIdx bucket
        adding := s.adding ++ [(collapseOneBucket input.definitions input.discardTerminalDeletes
          (input.buckets number)).records] }
    | none => s
  | .append worker =>
    match s.adding[worker]? with
    | some (record :: records) =>
      let s := { s with
        adding := s.adding.set worker records
        pending := s.pending ++ [record] }
      if s.pending.length < max input.maxRecordsPerChunk 1 then s else s.takeBatch
    | _ => s
  | .sealBatch batch =>
    match s.sealing[batch]? with
    | some (index, records) =>
      { s with
        sealing := s.sealing.eraseIdx batch
        chunks := writeChunk s.chunks index (buildChunk input.definitions.tag records).1 }
    | none => s

/-- The state after some actions. -/
def run (input : CollapseInput) (actions : List CollapseAction) : CollapseState :=
  actions.foldl (step input) start

/-- Every worker has finished. -/
def Done (s : CollapseState) : Prop :=
  s.waiting = [] ∧ (∀ records ∈ s.adding, records = []) ∧ s.sealing = []

/-- `ChunkSink::close`: the chunk files at the end. -/
def close (input : CollapseInput) (s : CollapseState) : List (ℕ × Chunk) :=
  if s.pending = [] then s.chunks
  else writeChunk s.chunks s.nextIndex (buildChunk input.definitions.tag s.pending).1

end CollapseState

/-- `collapseBuckets`: the chunks that are in the files at the end. -/
def collapseBuckets (input : CollapseInput) (actions : List CollapseAction) : List Chunk :=
  ((CollapseState.run input actions).close input).map (·.2)

end Idhan.Flatten
