import Idhan.Flatten.Collapse
import Idhan.Flatten.RoundTrip

/-!
# Interleavings

Whatever the workers do in which order, the scan brings every event to the bucket of its hash, and
the collapse brings every record of every bucket to one chunk.

* `scanCorpus_perm`: what the buckets hold after a scan.
* `collapseBuckets_perm`: what the chunks hold after a collapse.
* `ScanState.exists_done`, `CollapseState.exists_done`: the workers can always finish.
-/

namespace Idhan.Flatten

open List

/-! ## The scan -/

/-- The events of all files. -/
def eventsOf (files : List UpdateFile) : List MappingEvent :=
  files.flatMap (·.events)

theorem Bucket.flush_file_write (bufferEvents : ℕ) (bucket : Bucket) (event : MappingEvent) :
    (bucket.write bufferEvents event).flush.file = bucket.flush.file ++ [event] := by
  simp only [Bucket.write]
  split_ifs <;> simp [Bucket.flush]

/-- What a bucket holds or is still to get. -/
def ScanState.due (s : ScanState) (bucket : ℕ) : List MappingEvent :=
  (s.buckets bucket).flush.file ++ s.remaining.flatten.filter fun event => bucketFor event.hashId =
    bucket

theorem ScanState.due_step (bufferEvents : ℕ) (s : ScanState) (file bucket : ℕ) :
    ((s.step bufferEvents file).due bucket).Perm (s.due bucket) := by
  unfold ScanState.step
  split
  case h_2 => exact .rfl
  case h_1 event events hget =>
    have hflat := (perm_cons_flatten_set hget).filter fun event => bucketFor event.hashId = bucket
    refine Perm.trans ?_ (hflat.symm.append_left _)
    by_cases hbucket : bucketFor event.hashId = bucket
    · subst hbucket
      simp only [ScanState.due, Function.update_self, Bucket.flush_file_write]
      rw [filter_cons_of_pos (by simp), append_assoc, singleton_append]
    · simp only [ScanState.due, Function.update_of_ne (Ne.symm hbucket)]
      rw [filter_cons_of_neg (by simpa using hbucket)]

theorem ScanState.due_run (bufferEvents : ℕ) (schedule : List ℕ) (s : ScanState) (bucket : ℕ) :
    ((schedule.foldl (ScanState.step bufferEvents) s).due bucket).Perm (s.due bucket) := by
  induction schedule generalizing s with
  | nil => exact .rfl
  | cons file schedule ih => exact (ih _).trans (s.due_step bufferEvents file bucket)

/-- **A bucket holds the events of its hashes** after a scan, in some order. -/
theorem scanCorpus_perm {bufferEvents : ℕ} {files : List UpdateFile} {schedule : List ℕ}
    (hdone : (scan bufferEvents files schedule).Done) (bucket : ℕ) :
    (scanCorpus bufferEvents files schedule bucket).Perm
      ((eventsOf files).filter fun event => bucketFor event.hashId = bucket) := by
  have hrun := ScanState.due_run bufferEvents schedule (.start files) bucket
  have hnone : (scan bufferEvents files schedule).remaining.flatten = [] :=
    flatten_eq_nil_iff.2 hdone
  rw [← scan, ScanState.due, hnone, filter_nil, append_nil] at hrun
  exact hrun

/-- From every state the scan can be finished. -/
theorem ScanState.exists_done (bufferEvents : ℕ) (s : ScanState) :
    ∃ schedule : List ℕ, (schedule.foldl (ScanState.step bufferEvents) s).Done := by
  induction hn : s.remaining.flatten.length generalizing s with
  | zero => exact ⟨[], flatten_eq_nil_iff.1 (length_eq_zero_iff.1 hn)⟩
  | succ n ih =>
    obtain ⟨file, event, events, hget⟩ := exists_getElem?_cons (ne_nil_of_length_eq_add_one hn)
    have hstep : (s.step bufferEvents file).remaining = s.remaining.set file events := by
      simp only [ScanState.step, hget]
    have hlen := (perm_cons_flatten_set hget).length_eq
    rw [hn, length_cons, ← hstep, Nat.add_right_cancel_iff] at hlen
    obtain ⟨schedule, hdone⟩ := ih _ hlen.symm
    exact ⟨file :: schedule, hdone⟩

/-! ## The collapse -/

/-- The records of a bucket. -/
def CollapseInput.recordsOf (input : CollapseInput) (bucket : ℕ) : List CollapsedRecord :=
  (collapseOneBucket input.definitions input.discardTerminalDeletes (input.buckets bucket)).records

/-- The chunk file of a batch. -/
def CollapseInput.chunkOf (input : CollapseInput) (batch : ℕ × List CollapsedRecord) : ℕ × Chunk :=
  (batch.1, (buildChunk input.definitions.tag batch.2).1)

namespace CollapseState

/-- The chunk files are those of some batches, and these, the batches that are being sealed and what
is not yet in a batch hold all records. -/
structure Conserves (input : CollapseInput) (s : CollapseState)
    (batches : List (ℕ × List CollapsedRecord)) : Prop where
  chunks : s.chunks = batches.map input.chunkOf
  distinct : ((s.sealing ++ batches).map (·.1)).Nodup
  below : ∀ batch ∈ s.sealing ++ batches, batch.1 < s.nextIndex
  records : (s.waiting.flatMap input.recordsOf ++ s.adding.flatten ++ s.pending ++
    (s.sealing ++ batches).flatMap (·.2)).Perm ((List.range bucketCount).flatMap input.recordsOf)

variable {input : CollapseInput} {s : CollapseState} {batches : List (ℕ × List CollapsedRecord)}

theorem conserves_start (input : CollapseInput) : Conserves input start [] :=
  ⟨rfl, nodup_nil, fun _ h => (nomatch h), by simp [start]⟩

/-- A file with a new number is one file more. -/
theorem writeChunk_of_fresh {index : ℕ} (records : List CollapsedRecord)
    (h : index ∉ batches.map (·.1)) :
    writeChunk (batches.map input.chunkOf) index (buildChunk input.definitions.tag records).1 =
      (batches ++ [(index, records)]).map input.chunkOf := by
  have hkeep : ((batches.map input.chunkOf).filter fun file => file.1 ≠ index) =
      batches.map input.chunkOf := by
    refine filter_eq_self.2 fun file hfile => ?_
    obtain ⟨other, hother, rfl⟩ := mem_map.1 hfile
    have hne : other.1 ≠ index := fun heq => h (heq ▸ mem_map_of_mem hother)
    exact decide_eq_true hne
  rw [writeChunk, hkeep, map_append]
  rfl

theorem Conserves.takeBatch (h : Conserves input s batches) :
    Conserves input s.takeBatch batches where
  chunks := h.chunks
  distinct := by
    have hperm : (s.takeBatch.sealing ++ batches).Perm
        ((s.nextIndex, s.pending) :: (s.sealing ++ batches)) := by
      simp [CollapseState.takeBatch]
    rw [(hperm.map _).nodup_iff, map_cons, nodup_cons]
    refine ⟨fun hmem => ?_, h.distinct⟩
    obtain ⟨batch, hbatch, heq⟩ := mem_map.1 hmem
    exact (h.below batch hbatch).ne heq
  below := by
    intro batch hbatch
    simp only [CollapseState.takeBatch, append_assoc, mem_append, mem_singleton] at hbatch
    show batch.1 < s.nextIndex + 1
    rcases hbatch with hbatch | rfl | hbatch
    · exact (h.below batch (mem_append_left _ hbatch)).trans (Nat.lt_succ_self _)
    · exact Nat.lt_succ_self _
    · exact (h.below batch (mem_append_right _ hbatch)).trans (Nat.lt_succ_self _)
  records := by
    refine Perm.trans (perm_iff_count.2 fun record => ?_) h.records
    simp only [CollapseState.takeBatch, flatMap_append, flatMap_singleton, count_append,
      count_nil]
    omega

/-- Each action keeps the records. -/
theorem Conserves.step (h : Conserves input s batches) (action : CollapseAction) :
    ∃ batches', Conserves input (s.step input action) batches' := by
  cases action with
  | collapse bucket =>
    simp only [CollapseState.step]
    split
    case h_2 => exact ⟨batches, h⟩
    case h_1 number hget =>
      refine ⟨batches, h.chunks, h.distinct, h.below, ?_⟩
      refine Perm.trans (perm_iff_count.2 fun record => ?_) h.records
      have hwaiting := ((perm_cons_eraseIdx hget).flatMap_right input.recordsOf).count_eq record
      simp only [flatMap_cons, flatten_append, flatten_singleton, count_append,
        CollapseInput.recordsOf] at hwaiting ⊢
      omega
  | append worker =>
    simp only [CollapseState.step]
    split
    case h_2 => exact ⟨batches, h⟩
    case h_1 record records hget =>
      have happend : Conserves input { s with
          adding := s.adding.set worker records
          pending := s.pending ++ [record] } batches := by
        refine ⟨h.chunks, h.distinct, h.below, ?_⟩
        refine Perm.trans (perm_iff_count.2 fun other => ?_) h.records
        have hadding := (perm_cons_flatten_set hget).count_eq other
        simp only [count_append, count_cons, count_nil] at hadding ⊢
        omega
      split_ifs
      · exact ⟨batches, happend⟩
      · exact ⟨batches, happend.takeBatch⟩
  | sealBatch batch =>
    simp only [CollapseState.step]
    split
    case h_2 => exact ⟨batches, h⟩
    case h_1 index records hget =>
      -- the batch goes from those that are being sealed to those in files
      have hperm : (s.sealing.eraseIdx batch ++ (batches ++ [(index, records)])).Perm
          (s.sealing ++ batches) := by
        refine Perm.trans ?_ ((perm_cons_eraseIdx hget).append_right batches).symm
        simpa using (perm_append_singleton (index, records) (s.sealing.eraseIdx batch ++ batches))
      refine ⟨batches ++ [(index, records)], ?_, ?_, ?_, ?_⟩
      · show writeChunk s.chunks index _ = _
        rw [h.chunks]
        refine writeChunk_of_fresh records fun hmem => ?_
        have hnodup := h.distinct
        rw [((perm_cons_eraseIdx hget).append_right batches |>.map (·.1)).nodup_iff, cons_append,
          map_cons, nodup_cons] at hnodup
        refine hnodup.1 ?_
        rw [map_append]
        exact mem_append_right _ hmem
      · exact ((hperm.map _).nodup_iff).2 h.distinct
      · exact fun other hother => h.below other (hperm.subset hother)
      · exact ((hperm.flatMap_right _).append_left _).trans h.records

theorem conserves_run (input : CollapseInput) (actions : List CollapseAction) :
    ∃ batches, Conserves input (run input actions) batches := by
  unfold run
  induction actions using List.reverseRecOn with
  | nil => exact ⟨[], conserves_start input⟩
  | append_singleton actions action ih =>
    obtain ⟨batches, h⟩ := ih
    rw [foldl_concat]
    exact h.step action

/-- When every worker has finished, the files that `close` leaves hold all records. -/
theorem Conserves.close (h : Conserves input s batches) (hdone : s.Done) :
    ∃ batches' : List (ℕ × List CollapsedRecord), s.close input = batches'.map input.chunkOf ∧
      (batches'.flatMap (·.2)).Perm ((List.range bucketCount).flatMap input.recordsOf) := by
  obtain ⟨hwaiting, hadding, hsealing⟩ := hdone
  have hrecords := h.records
  rw [hwaiting, flatten_eq_nil_iff.2 hadding, hsealing, flatMap_nil, nil_append,
    nil_append, nil_append] at hrecords
  unfold CollapseState.close
  split_ifs with hpending
  · rw [hpending, nil_append] at hrecords
    exact ⟨batches, h.chunks, hrecords⟩
  · refine ⟨batches ++ [(s.nextIndex, s.pending)], ?_, ?_⟩
    · rw [h.chunks]
      refine writeChunk_of_fresh s.pending fun hmem => ?_
      obtain ⟨batch, hbatch, heq⟩ := mem_map.1 hmem
      exact (h.below batch (mem_append_right _ hbatch)).ne heq
    · rw [flatMap_append, flatMap_singleton]
      exact perm_append_comm.trans hrecords

section

variable (input) (s)

/-- From every state all buckets can be collapsed. -/
theorem exists_collapsed : ∃ actions : List CollapseAction,
    (actions.foldl (CollapseState.step input) s).waiting = [] := by
  induction hn : s.waiting.length generalizing s with
  | zero => exact ⟨[], length_eq_zero_iff.1 hn⟩
  | succ n ih =>
    have hstep : (s.step input (.collapse 0)).waiting = s.waiting.eraseIdx 0 := by
      simp only [CollapseState.step, getElem?_eq_getElem (show 0 < s.waiting.length by omega)]
    obtain ⟨actions, hdone⟩ := ih (s.step input (.collapse 0)) (by
      rw [hstep, length_eraseIdx_of_lt (by omega), hn, Nat.add_sub_cancel])
    exact ⟨.collapse 0 :: actions, hdone⟩

/-- Then all records can be appended. -/
theorem exists_appended (hwaiting : s.waiting = []) :
    ∃ actions : List CollapseAction, (actions.foldl (CollapseState.step input) s).waiting = [] ∧
      (actions.foldl (CollapseState.step input) s).adding.flatten = [] := by
  induction hn : s.adding.flatten.length generalizing s with
  | zero => exact ⟨[], hwaiting, length_eq_zero_iff.1 hn⟩
  | succ n ih =>
    obtain ⟨worker, record, records, hget⟩ :=
      exists_getElem?_cons (ne_nil_of_length_eq_add_one hn)
    have hstep : (s.step input (.append worker)).waiting = s.waiting ∧
        (s.step input (.append worker)).adding = s.adding.set worker records := by
      simp only [CollapseState.step, hget]
      split_ifs <;> exact ⟨rfl, rfl⟩
    have hlen := (perm_cons_flatten_set hget).length_eq
    rw [hn, length_cons, ← hstep.2, Nat.add_right_cancel_iff] at hlen
    obtain ⟨actions, hdone⟩ := ih _ (hstep.1.trans hwaiting) hlen.symm
    exact ⟨.append worker :: actions, hdone⟩

/-- Then all batches can be sealed. -/
theorem exists_sealed (hwaiting : s.waiting = []) (hadding : s.adding.flatten = []) :
    ∃ actions : List CollapseAction, (actions.foldl (CollapseState.step input) s).Done := by
  induction hn : s.sealing.length generalizing s with
  | zero => exact ⟨[], hwaiting, flatten_eq_nil_iff.1 hadding, length_eq_zero_iff.1 hn⟩
  | succ n ih =>
    have hstep : (s.step input (.sealBatch 0)).waiting = s.waiting ∧
        (s.step input (.sealBatch 0)).adding = s.adding ∧
        (s.step input (.sealBatch 0)).sealing = s.sealing.eraseIdx 0 := by
      simp only [CollapseState.step, getElem?_eq_getElem (show 0 < s.sealing.length by omega),
        true_and]
    obtain ⟨actions, hdone⟩ := ih (s.step input (.sealBatch 0)) (hstep.1.trans hwaiting)
      (hstep.2.1 ▸ hadding) (by
        rw [hstep.2.2, length_eraseIdx_of_lt (by omega), hn, Nat.add_sub_cancel])
    exact ⟨.sealBatch 0 :: actions, hdone⟩

end

/-- The collapse can be finished. -/
theorem exists_done (input : CollapseInput) : ∃ actions, (run input actions).Done := by
  obtain ⟨collapses, hwaiting⟩ := exists_collapsed input start
  obtain ⟨appends, hwaiting, hadding⟩ := exists_appended input _ hwaiting
  obtain ⟨seals, hdone⟩ := exists_sealed input _ hwaiting hadding
  refine ⟨collapses ++ appends ++ seals, ?_⟩
  rwa [run, foldl_append, foldl_append]

end CollapseState

/-- **Every record of every bucket is in one chunk** after a collapse, without the tags that have no
definition. -/
theorem collapseBuckets_perm {input : CollapseInput} {actions : List CollapseAction}
    (hdone : (CollapseState.run input actions).Done) :
    ((collapseBuckets input actions).flatMap (·.contents)).Perm
      (((List.range bucketCount).flatMap input.recordsOf).map fun record =>
        record.defined input.definitions.tag) := by
  obtain ⟨batches, h⟩ := CollapseState.conserves_run input actions
  obtain ⟨batches', hclose, hrecords⟩ := h.close hdone
  have hcontents : (collapseBuckets input actions).flatMap (·.contents) =
      (batches'.flatMap (·.2)).map fun record => record.defined input.definitions.tag := by
    rw [collapseBuckets, hclose, map_map, flatMap_map, map_flatMap]
    exact flatMap_congr fun batch _ => contents_buildChunk _ _
  rw [hcontents]
  exact hrecords.map _

end Idhan.Flatten
