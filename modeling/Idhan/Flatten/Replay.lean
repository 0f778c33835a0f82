import Idhan.Flatten.Runs

/-!
# Flattening is replaying

The updates of a repository are a history: each mapping event sets what is known about a hash and a
tag, and the last one counts.  `replay` is that, done one event after the other in the order of the
updates.  The flattened output says the same, whatever order the workers have taken.

What a replay knows of a hash and a tag is the operation of their last event (`getLast_replay`).
The events of one hash all go to one bucket, where a sort brings them into the order of the history
(`chainOf_sortEvents`); the order in which they came there does not matter, since events that the
sort does not tell apart are equal.  So the records of a bucket are those of the replay
(`collapseOneBucket_records`), and with what the interleavings leave in the buckets and chunks
(`Idhan.Flatten.Runs`) so is the output of the whole pipeline (`flatten_replays`).
-/

namespace Idhan.Flatten

open List

/-! ## The history -/

/-- The order of the history: by update, and adds before deletes. -/
def MappingEvent.NotAfter (a b : MappingEvent) : Prop :=
  a.updateIndex < b.updateIndex ∨ a.updateIndex = b.updateIndex ∧ a.op.value ≤ b.op.value

instance : DecidableRel MappingEvent.NotAfter := fun _ _ =>
  inferInstanceAs (Decidable (_ ∨ _))

/-- The events in the order of the history. -/
def history (events : List MappingEvent) : List MappingEvent :=
  events.insertionSort MappingEvent.NotAfter

/-- What is known of each hash and tag: the operation that was done last. -/
abbrev Knowledge := Word → Word → Option EventOp

/-- An event is replayed. -/
def replayEvent (known : Knowledge) (event : MappingEvent) : Knowledge :=
  Function.update known event.hashId
    (Function.update (known event.hashId) event.tagId (some event.op))

/-- The events are replayed one after the other. -/
def replay (events : List MappingEvent) : Knowledge :=
  events.foldl replayEvent fun _ _ => none

/-- The tags of the corpus that a hash has with an operation, in ascending order. -/
def tagsKnown (events : List MappingEvent) (hashId : Word) (op : EventOp) : List Word :=
  ((events.map (·.tagId)).insertionSort (· ≤ ·)).dedup.filter fun tagId =>
    replay (history events) hashId tagId = some op

/-- The record of a hash after a replay, if the hash has a definition. -/
def replayedRecord (definitions : Definitions) (discardTerminalDeletes : Bool)
    (events : List MappingEvent) (hashId : Word) : Option CollapsedRecord :=
  (definitions.hash hashId).map fun sha256 =>
    ⟨sha256, tagsKnown events hashId .add,
      if discardTerminalDeletes then [] else tagsKnown events hashId .delete⟩

/-- The records after a replay: one for each hash that has a definition and an event, with the tags
that have a definition. -/
def replayed (definitions : Definitions) (discardTerminalDeletes : Bool)
    (events : List MappingEvent) :
    List ResolvedRecord :=
  ((events.map (·.hashId)).dedup.filterMap
    (replayedRecord definitions discardTerminalDeletes events)).map fun record =>
    record.defined definitions.tag

/-! ## Last events -/

/-- The events of a hash and a tag. -/
def chainOf (events : List MappingEvent) (hashId tagId : Word) : List MappingEvent :=
  (events.filter fun event => event.hashId = hashId).filter fun event => event.tagId = tagId

variable {events : List MappingEvent} {hashId : Word} {bucket : List MappingEvent}

theorem mem_chainOf {tagId : Word} {event : MappingEvent} :
    event ∈ chainOf events hashId tagId ↔
      event ∈ events ∧ event.hashId = hashId ∧ event.tagId = tagId := by
  simp only [chainOf, mem_filter, decide_eq_true_eq, and_assoc]

/-- **A replay knows the last events.** -/
theorem getLast_replay (events : List MappingEvent) (hashId tagId : Word) :
    replay events hashId tagId = (chainOf events hashId tagId).getLast?.map (·.op) := by
  unfold replay
  induction events using List.reverseRecOn with
  | nil => rfl
  | append_singleton events event ih =>
    rw [foldl_concat, chainOf, filter_append, filter_append]
    by_cases hhash : event.hashId = hashId
    · subst hhash
      by_cases htag : event.tagId = tagId
      · subst htag
        simp [replayEvent]
      · rw [replayEvent, Function.update_self, Function.update_of_ne (Ne.symm htag), ih]
        simp [htag, chainOf]
    · rw [replayEvent, Function.update_of_ne (Ne.symm hhash), ih]
      simp [hhash, chainOf]

/-- What is known after the history comes from an event. -/
theorem of_replay_history {tagId : Word} {op : EventOp}
    (h : replay (history events) hashId tagId = some op) :
    ∃ event ∈ events, event.hashId = hashId ∧ event.tagId = tagId := by
  rw [getLast_replay] at h
  obtain ⟨event, hlast, _⟩ := Option.map_eq_some_iff.1 h
  obtain ⟨hevent, hids⟩ := mem_chainOf.1 (mem_of_getLast? hlast)
  exact ⟨event, (mem_insertionSort _).1 hevent, hids⟩

/-- A chain collapses to its last operation. -/
theorem collapseChain_op (events : List MappingEvent) :
    (collapseChain events).map (·.1) = events.getLast?.map (·.op) := by
  unfold collapseChain
  cases hlast : events.getLast? with
  | none => rfl
  | some last =>
    have hmem := mem_of_getLast? hlast
    cases hop : last.op with
    | delete => simp [hop]
    | add =>
      have hadd : (events.find? fun event => event.op = .add).isSome :=
        find?_isSome.2 ⟨last, hmem, decide_eq_true hop⟩
      obtain ⟨first, hfirst⟩ := Option.isSome_iff_exists.1 hadd
      simp [hop, hfirst]

/-! ## Sorted events -/

theorem EventOp.value_lt (op : EventOp) : op.value < 2 := by
  cases op <;> decide

theorem EventOp.value_injective {a b : EventOp} (h : a.value = b.value) : a = b := by
  cases a <;> cases b <;> simp_all [EventOp.value]

/-- The place of an event in the order of a bucket. -/
def MappingEvent.rank (event : MappingEvent) : ℕ :=
  ((event.hashId.val * 2 ^ 32 + event.tagId.val) * 2 ^ 16 + event.updateIndex.val) * 2 +
    event.op.value

theorem eventLess_eq_false_iff {a b : MappingEvent} : eventLess b a = false ↔ a.rank ≤ b.rank := by
  have hop := a.op.value_lt
  have hop' := b.op.value_lt
  unfold eventLess MappingEvent.rank
  split_ifs with hhash htag hindex
  all_goals
    simp only [ne_eq, not_not, Fin.ext_iff] at *
    simp only [decide_eq_false_iff_not, Fin.lt_def]
    omega

instance : Std.Total MappingEvent.NotAfter where
  total a b := by
    simp only [MappingEvent.NotAfter, Fin.lt_def, Fin.ext_iff]
    omega

instance : IsTrans MappingEvent MappingEvent.NotAfter where
  trans a b c := by
    simp only [MappingEvent.NotAfter, Fin.lt_def, Fin.ext_iff]
    omega

section

variable (events)

theorem pairwise_sortEvents : (sortEvents events).Pairwise fun a b => a.rank ≤ b.rank := by
  have : Std.Total fun a b : MappingEvent => eventLess b a = false :=
    ⟨fun a b => by simpa only [eventLess_eq_false_iff] using le_total a.rank b.rank⟩
  have : IsTrans MappingEvent fun a b => eventLess b a = false :=
    ⟨fun a b c => by simpa only [eventLess_eq_false_iff] using le_trans⟩
  exact (pairwise_insertionSort _ events).imp eventLess_eq_false_iff.1

theorem perm_sortEvents : (sortEvents events).Perm events :=
  perm_insertionSort _ events

/-- A sorted bucket is sorted by the hashes. -/
theorem pairwise_hashId : (sortEvents events).Pairwise fun a b => a.hashId ≤ b.hashId := by
  refine (pairwise_sortEvents events).imp fun {a b} hle => ?_
  have hop := a.op.value_lt
  have hop' := b.op.value_lt
  simp only [MappingEvent.rank] at hle
  rw [Fin.le_def]
  omega

/-- The events of a hash are sorted by the tags. -/
theorem pairwise_tagId (hashId : Word) :
    ((sortEvents events).filter fun event => event.hashId = hashId).Pairwise
      fun a b => a.tagId ≤ b.tagId := by
  refine pairwise_filter.2 ((pairwise_sortEvents events).imp fun {a b} hle ha hb => ?_)
  have hop := a.op.value_lt
  have hop' := b.op.value_lt
  simp only [MappingEvent.rank, of_decide_eq_true ha, of_decide_eq_true hb] at hle
  rw [Fin.le_def]
  omega

/-- The events of a hash and a tag are in the order of the history. -/
theorem pairwise_chainOf (hashId tagId : Word) :
    (chainOf (sortEvents events) hashId tagId).Pairwise MappingEvent.NotAfter := by
  refine pairwise_filter.2 (pairwise_filter.2
    ((pairwise_sortEvents events).imp fun {a b} hle ha hb htag htag' => ?_))
  have hop := a.op.value_lt
  have hop' := b.op.value_lt
  simp only [MappingEvent.rank, of_decide_eq_true ha, of_decide_eq_true hb, of_decide_eq_true htag,
    of_decide_eq_true htag'] at hle
  rw [MappingEvent.NotAfter, Fin.lt_def, Fin.ext_iff]
  omega

end

/-- Events that agree in a hash and a tag are sorted as they stand in the history. -/
theorem chainOf_eq_of_perm {tagId : Word}
    (h : (chainOf bucket hashId tagId).Perm (chainOf events hashId tagId)) :
    chainOf (sortEvents bucket) hashId tagId = chainOf (history events) hashId tagId := by
  have hbucket : (chainOf (sortEvents bucket) hashId tagId).Perm (chainOf bucket hashId tagId) :=
    ((perm_sortEvents bucket).filter _).filter _
  have hhistory : (chainOf (history events) hashId tagId).Perm (chainOf events hashId tagId) :=
    ((perm_insertionSort _ events).filter _).filter _
  have hsorted : (history events).Pairwise MappingEvent.NotAfter := pairwise_insertionSort _ events
  refine Perm.eq_of_pairwise (fun a b ha hb hab hba => ?_) (pairwise_chainOf bucket hashId tagId)
    ((hsorted.filter _).filter _) ((hbucket.trans h).trans hhistory.symm)
  -- events of the same hash and tag that are not after each other are the same
  obtain ⟨_, hhash, htag⟩ := mem_chainOf.1 ha
  obtain ⟨_, hhash', htag'⟩ := mem_chainOf.1 hb
  simp only [MappingEvent.NotAfter, Fin.lt_def, Fin.ext_iff] at hab hba
  have hindex : a.updateIndex = b.updateIndex := Fin.ext (by omega)
  have hop : a.op = b.op := EventOp.value_injective (by omega)
  cases a
  cases b
  simp_all

/-- **The events of a hash and a tag** stand in the sorted bucket as in the history. -/
theorem chainOf_sortEvents
    (h : bucket.Perm (events.filter fun event => bucketFor event.hashId = bucketFor hashId))
    (tagId : Word) :
    chainOf (sortEvents bucket) hashId tagId = chainOf (history events) hashId tagId := by
  have hfilter : ((events.filter fun event => bucketFor event.hashId = bucketFor hashId).filter
      fun event => event.hashId = hashId) = events.filter fun event => event.hashId = hashId := by
    rw [filter_filter]
    refine filter_congr fun event _ => ?_
    rw [← Bool.decide_and, decide_eq_decide, and_iff_left_iff_imp]
    exact congrArg bucketFor
  refine chainOf_eq_of_perm ?_
  unfold chainOf
  rw [← hfilter]
  exact (h.filter _).filter _

/-! ## Records -/

/-- The tags of some chains that collapse to an operation. -/
def chainTags (op : EventOp) (chains : List (Word × List MappingEvent)) : List Word :=
  (chains.filter fun chain => chain.2.getLast?.map (·.op) = some op).map (·.1)

theorem chainTags_cons (op : EventOp) (chain : Word × List MappingEvent)
    (chains : List (Word × List MappingEvent)) :
    chainTags op (chain :: chains) =
      (if chain.2.getLast?.map (·.op) = some op then [chain.1] else []) ++ chainTags op chains := by
  unfold chainTags
  split_ifs with h
  · rw [filter_cons_of_pos (by simpa only [decide_eq_true_eq] using h)]
    rfl
  · rw [filter_cons_of_neg (by simpa using h)]
    rfl

/-- What the loop over the chains collects, and that it adds no record. -/
theorem foldl_collapseTag (discard : Bool) (chains : List (Word × List MappingEvent))
    (r : RecordCollapse) :
    (chains.foldl (collapseTag discard) r).adds = r.adds ++ chainTags .add chains ∧
    (chains.foldl (collapseTag discard) r).dels =
      r.dels ++ (if discard then [] else chainTags .delete chains) ∧
    (chains.foldl (collapseTag discard) r).out.records = r.out.records := by
  induction chains generalizing r with
  | nil => simp [chainTags]
  | cons chain chains ih =>
    have hop := collapseChain_op chain.2
    rw [foldl_cons, chainTags_cons, chainTags_cons, ← hop]
    refine ⟨(ih _).1.trans ?_, (ih _).2.1.trans ?_, (ih _).2.2.trans ?_⟩
    all_goals
      unfold collapseTag
      rcases collapseChain chain.2 with _ | ⟨_ | _, index⟩ <;> cases discard <;> simp

/-- What the loop over the hashes collects. -/
theorem foldl_collapseHash (definitions : Definitions) (discard : Bool)
    (runs : List (Word × List MappingEvent)) (out : BucketCollapseResult) :
    (runs.foldl (collapseHash definitions discard) out).records =
      out.records ++ runs.filterMap fun run =>
      (definitions.hash run.1).map fun sha256 =>
        ⟨sha256, chainTags .add (runsBy (·.tagId) run.2),
          if discard then [] else chainTags .delete (runsBy (·.tagId) run.2)⟩ := by
  induction runs generalizing out with
  | nil => simp
  | cons run runs ih =>
    rw [foldl_cons, ih]
    cases hhash : definitions.hash run.1 with
    | none => simp [collapseHash, hhash]
    | some sha256 =>
      obtain ⟨hadds, hdels, hrecords⟩ :=
        foldl_collapseTag discard (runsBy (·.tagId) run.2) ⟨[], [], out⟩
      simp [collapseHash, hhash, hadds, hdels, hrecords]

/-- The tags of the chains of a hash are those that the replay knows. -/
theorem chainTags_eq_tagsKnown
    (h : bucket.Perm (events.filter fun event => bucketFor event.hashId = bucketFor hashId))
    (op : EventOp) :
    chainTags op (runsBy (·.tagId) ((sortEvents bucket).filter fun event => event.hashId = hashId))
      =
      tagsKnown events hashId op := by
  have hlast : ∀ tagId, (((sortEvents bucket).filter fun event => event.hashId = hashId).filter
      fun event => event.tagId = tagId).getLast?.map (·.op) =
      replay (history events) hashId tagId := by
    intro tagId
    rw [getLast_replay, ← chainOf_sortEvents h]
    rfl
  -- both lists are in strict order, and hold the tags whose last event has the operation
  have htags :
      chainTags op (runsBy (·.tagId) ((sortEvents bucket).filter fun event => event.hashId =
    hashId)) =
      (((sortEvents bucket).filter fun event => event.hashId = hashId).map (·.tagId)).dedup.filter
        fun tagId => replay (history events) hashId tagId = some op := by
    rw [chainTags, runsBy_of_sorted (pairwise_tagId bucket hashId), filter_map, map_map]
    refine (map_id _).trans (filter_congr fun tagId _ => ?_)
    rw [Function.comp_apply, hlast]
  have hsorted := pairwise_insertionSort (α := Word) (· ≤ ·) (events.map (·.tagId))
  rw [htags]
  refine Pairwise.eq_of_mem_iff (r := (· < ·))
    ((pairwise_lt_dedup (pairwise_map.2 (pairwise_tagId bucket hashId))).filter _)
    ((pairwise_lt_dedup hsorted).filter _) fun tagId => ?_
  simp only [tagsKnown, mem_filter, mem_dedup, mem_insertionSort, decide_eq_true_eq]
  refine and_congr_left fun hknown => ?_
  obtain ⟨event, hevent, rfl, rfl⟩ := of_replay_history hknown
  refine iff_of_true (mem_map_of_mem (mem_filter.2 ⟨?_, by simp⟩)) (mem_map_of_mem hevent)
  exact (perm_sortEvents bucket).mem_iff.2 (h.mem_iff.2 (mem_filter.2 ⟨hevent, by simp⟩))

/-- **The records of a bucket** are those of its hashes after the replay of all events. -/
theorem collapseOneBucket_records {bucketEvents : List MappingEvent} {bucket : ℕ}
    (h : bucketEvents.Perm (events.filter fun event => bucketFor event.hashId = bucket))
    (definitions : Definitions) (discard : Bool) :
    (collapseOneBucket definitions discard bucketEvents).records =
      ((sortEvents bucketEvents).map (·.hashId)).dedup.filterMap
        (replayedRecord definitions discard events) := by
  rw [collapseOneBucket, foldl_collapseHash, nil_append,
    runsBy_of_sorted (pairwise_hashId bucketEvents), filterMap_map]
  refine filterMap_congr fun hashId hmem => ?_
  have hbucket : bucketFor hashId = bucket := by
    obtain ⟨event, hevent, rfl⟩ := mem_map.1 (mem_dedup.1 hmem)
    have hevent := h.mem_iff.1 ((perm_sortEvents bucketEvents).mem_iff.1 hevent)
    exact of_decide_eq_true (mem_filter.1 hevent).2
  subst hbucket
  simp only [Function.comp_apply, chainTags_eq_tagsKnown h, replayedRecord]

/-! ## The pipeline -/

/-- A record of a replay has no tag twice. -/
theorem nodup_replayed {definitions : Definitions} {discard : Bool}
    {record : ResolvedRecord} (h : record ∈ replayed definitions discard events) :
    (record.adds ++ record.dels).Nodup := by
  obtain ⟨collapsed, hcollapsed, rfl⟩ := mem_map.1 h
  obtain ⟨hashId, _, hrecord⟩ := mem_filterMap.1 hcollapsed
  obtain ⟨sha256, _, rfl⟩ := Option.map_eq_some_iff.1 hrecord
  have hknown : (tagsKnown events hashId .add ++ tagsKnown events hashId .delete).Nodup := by
    refine Nodup.append ((nodup_dedup _).filter _) ((nodup_dedup _).filter _) ?_
    intro tagId hadd hdelete
    have hadd := of_decide_eq_true (mem_filter.1 hadd).2
    rw [of_decide_eq_true (mem_filter.1 hdelete).2] at hadd
    exact nomatch hadd
  have hsub : (tagsKnown events hashId .add ++
      (if discard then [] else tagsKnown events hashId .delete)).Nodup := by
    cases discard
    · exact hknown
    · rw [if_pos rfl, append_nil]
      exact hknown.of_append_left
  rw [PendingRecord.defined, ← map_append, ← filter_append]
  exact (hsub.filter _).map (Option.some_injective _)

/-- The hashes of the buckets are the hashes of all events. -/
theorem hashes_perm {buckets : ℕ → List MappingEvent}
    (h : ∀ bucket, (buckets bucket).Perm (events.filter fun event => bucketFor event.hashId =
      bucket)) :
    ((List.range bucketCount).flatMap fun bucket =>
      ((sortEvents (buckets bucket)).map (·.hashId)).dedup).Perm (events.map (·.hashId)).dedup := by
  have hbucket : ∀ bucket, (((sortEvents (buckets bucket)).map (·.hashId)).dedup).Perm
      ((events.map (·.hashId)).dedup.filter fun hashId => bucketFor hashId = bucket) := by
    intro bucket
    refine (perm_ext_iff_of_nodup (nodup_dedup _) ((nodup_dedup _).filter _)).2 fun hashId => ?_
    have hmem := fun event => ((perm_sortEvents (buckets bucket)).trans (h bucket)).mem_iff
      (a := event)
    simp only [mem_dedup, mem_map, mem_filter, hmem, decide_eq_true_eq]
    constructor
    · rintro ⟨event, ⟨hevent, hbucket⟩, rfl⟩
      exact ⟨⟨event, hevent, rfl⟩, hbucket⟩
    · rintro ⟨⟨event, hevent, rfl⟩, hbucket⟩
      exact ⟨event, ⟨hevent, hbucket⟩, rfl⟩
  refine (Perm.flatMap_left _ fun bucket _ => hbucket bucket).trans ?_
  refine (flatMap_filter_perm bucketFor _ bucketCount).trans (Perm.of_eq ?_)
  exact filter_eq_self.2 fun hashId _ => decide_eq_true (Nat.mod_lt _ (by decide))

/-- **Flattening is replaying.**  Let the workers of the scan interleave in any way and the workers
of the collapse in any way, with any sizes of buffers and chunks.  Then the records of all chunks
are, up to their order, those of the replay of the whole history: one for each hash that has an
event and a definition, with the defined tags whose last event is an add, and, unless terminal
deletes are discarded, those whose last event is a delete.  No record has a tag twice. -/
theorem flatten_replays (files : List UpdateFile) (definitions : Definitions)
    (bufferEvents maxRecordsPerChunk : ℕ) (discardTerminalDeletes : Bool)
    (schedule : List ℕ) (hscan : (scan bufferEvents files schedule).Done)
    (actions : List CollapseAction)
    (hcollapse : (CollapseState.run ⟨scanCorpus bufferEvents files schedule, definitions,
      maxRecordsPerChunk, discardTerminalDeletes⟩ actions).Done) :
    ((collapseBuckets ⟨scanCorpus bufferEvents files schedule, definitions, maxRecordsPerChunk,
      discardTerminalDeletes⟩ actions).flatMap (·.contents)).Perm
        (replayed definitions discardTerminalDeletes (eventsOf files)) ∧
    ∀ record ∈ replayed definitions discardTerminalDeletes (eventsOf files),
      (record.adds ++ record.dels).Nodup := by
  have hbuckets := scanCorpus_perm hscan
  refine ⟨(collapseBuckets_perm hcollapse).trans (Perm.map _ ?_), fun record => nodup_replayed⟩
  have hrecords : ∀ bucket,
      CollapseInput.recordsOf ⟨scanCorpus bufferEvents files schedule, definitions,
      maxRecordsPerChunk, discardTerminalDeletes⟩ bucket =
        ((sortEvents (scanCorpus bufferEvents files schedule bucket)).map
          (·.hashId)).dedup.filterMap
          (replayedRecord definitions discardTerminalDeletes (eventsOf files)) :=
    fun bucket => collapseOneBucket_records (hbuckets bucket) definitions discardTerminalDeletes
  rw [funext hrecords, ← filterMap_flatMap]
  exact (hashes_perm hbuckets).filterMap _

/-- A mapping that is deleted in the update that adds it, one that is added again in a later update
that is listed first, and a hash and a tag without a definition. -/
theorem flatten_replays_out_of_order : ∃ schedule actions,
    ((collapseBuckets ⟨scanCorpus 2 [⟨2, [⟨7, [1]⟩], []⟩,
        ⟨1, [⟨5, [1]⟩, ⟨6, [1, 9]⟩], [⟨5, [1]⟩, ⟨7, [1]⟩]⟩] schedule,
        ⟨fun id => if id = 9 then none else some (.ofBytes [id.val.toUInt8]),
          fun id => if id = 6 then none else some [id.val.toUInt8]⟩, 0, false⟩ actions).flatMap
      (·.contents)).Perm [⟨.ofBytes [1], [some 7], [some 5]⟩] := by
  refine (ScanState.exists_done 2 (.start _)).imp fun schedule hscan =>
    (CollapseState.exists_done _).imp fun actions hcollapse =>
      (flatten_replays _ _ 2 0 false schedule hscan actions hcollapse).1.trans (.of_eq ?_)
  decide +kernel

end Idhan.Flatten
