import Idhan.Tags.Parents

/-!
# The statements of the API, and their runs

The server writes the tag tables with the statements below (`httpapi/tags.cpp`,
`httpapi/records.cpp`, `tags/AssociateTags.cpp`, `store_record_file_info.sql`) and with the count
pass (`db/tagCounts.cpp`).  A statement that raises is rolled back, and so is one that fails for a
reason outside the tables.
-/

namespace Idhan.Tags

/-- The statements that reach the tag tables. -/
inductive Op where
  | insertTagMappings (rows : List TagMapping)
  | deleteTagMappings (rows : List TagMapping)
  | insertFileInfo (records : List RecordId)
  | insertTagAlias (domain : DomainId) (aliased target : TagId)
  | deleteTagAlias (domain : DomainId) (aliased target : TagId)
  | insertTagParent (domain : DomainId) (parent child : TagId)
  | deleteTagParent (domain : DomainId) (parent child : TagId)
  | accumulateTagCountDelta
  deriving DecidableEq, Repr

/-- `func_tag_mappings_after_insert` (432). -/
def tagMappingsAfterInsert (newRows : List TagMapping) : Statement := fun db =>
  insertActiveTagMappings (newRows.filter fun nm => nm.recordId ∈ db.fileInfo) db

/-- `INSERT INTO tag_mappings ... ON CONFLICT DO NOTHING`. -/
def insertTagMappings (rows : List TagMapping) : Statement := fun db =>
  if rows.any fun row => row.tagDomainId ∉ db.tagDomains then
    .error (.noPartition "tag_mappings")
  else
    let result := upsert id none db.tagMappings rows
    tagMappingsAfterInsert result.inserted { db with tagMappings := result.table }

/-- `DELETE FROM tag_mappings`.  The foreign key of `active_tag_mappings` deletes the active row of
each deleted mapping, with one statement for each. -/
def deleteTagMappings (rows : List TagMapping) : Statement := fun db =>
  (db.tagMappings.filter fun m => m ∈ rows).foldlM
    (fun db old => deleteActiveTagMappings (fun m => m.key = old) db)
    { db with tagMappings := db.tagMappings.filter fun m => m ∉ rows }

/-- `func_tag_mappings_after_active_insert` (432). -/
def tagMappingsAfterActiveInsert (newRows : List RecordId) : Statement := fun db =>
  insertActiveTagMappings
    (newRows.flatMap fun nf => db.tagMappings.filter fun tm => tm.recordId = nf) db

/-- `INSERT INTO file_info ... ON CONFLICT (record_id)`.  The insert trigger is given the records
that had no row. -/
def insertFileInfo (records : List RecordId) : Statement := fun db =>
  let result := upsert id none db.fileInfo records
  tagMappingsAfterActiveInsert result.inserted { db with fileInfo := result.table }

/-- The statement of the API.  `createRelationshipPairs` refuses to relate a tag to itself before it
reaches the tables. -/
def exec : Op → Statement
  | .insertTagMappings rows => insertTagMappings rows
  | .deleteTagMappings rows => deleteTagMappings rows
  | .insertFileInfo records => insertFileInfo records
  | .insertTagAlias domain aliased target => fun db =>
      if aliased = target then .error (.selfRelationship "alias" aliased target)
      else insertTagAlias domain aliased target db
  | .deleteTagAlias domain aliased target => deleteTagAlias domain aliased target
  | .insertTagParent domain parent child => fun db =>
      if parent = child then .error (.selfRelationship "parent" parent child)
      else insertTagParent domain parent child db
  | .deleteTagParent domain parent child => deleteTagParent domain parent child
  | .accumulateTagCountDelta => accumulateTagCountDelta

/-- Statements one after the other, up to the first that raises. -/
def run (ops : List Op) : Statement := fun db =>
  ops.foldlM (fun db op => exec op db) db

/-- The states reached from empty tables by the statements, any of which may also fail for a reason
of its own and be rolled back. -/
inductive Reachable (domains : List DomainId) : Db → Prop where
  | empty : Reachable domains (Db.empty domains)
  | step {db db' : Db} (op : Op) : Reachable domains db → exec op db = .ok db' →
      Reachable domains db'
  | rolledBack {db : Db} (op : Op) : Reachable domains db → Reachable domains db

variable {db : Db} {ops : List Op} {domains : List DomainId}

theorem Reachable.run {db' : Db} (h : Reachable domains db)
    (hrun : run ops db = .ok db') : Reachable domains db' := by
  induction ops generalizing db with
  | nil =>
    cases hrun
    exact h
  | cons op ops ih =>
    obtain ⟨s, hs, hrest⟩ := bind_eq_ok_iff.1 hrun
    exact ih (h.step op hs) hrest

/-- The states reached by statements that all meet a condition on the state before them. -/
inductive ReachableBy (meets : Db → Op → Prop) (domains : List DomainId) : Db → Prop where
  | empty : ReachableBy meets domains (Db.empty domains)
  | step {db db' : Db} (op : Op) : ReachableBy meets domains db → meets db op →
      exec op db = .ok db' → ReachableBy meets domains db'
  | rolledBack {db : Db} (op : Op) : ReachableBy meets domains db → ReachableBy meets domains db

theorem ReachableBy.reachable {meets : Db → Op → Prop} (h : ReachableBy meets domains db) :
    Reachable domains db := by
  induction h with
  | empty => exact .empty
  | step op _ _ hexec ih => exact ih.step op hexec
  | rolledBack op _ ih => exact ih.rolledBack op

/-- The statements of a run all return, and meet a condition on the state before them. -/
def Along (meets : Db → Op → Prop) : List Op → Db → Prop
  | [], _ => True
  | op :: ops, db => meets db op ∧
      match exec op db with
      | .ok db' => Along meets ops db'
      | .error _ => False

instance Along.decidable {meets : Db → Op → Prop} [∀ db op, Decidable (meets db op)] :
    (ops : List Op) → (db : Db) → Decidable (Along meets ops db)
  | [], _ => .isTrue trivial
  | op :: ops, db =>
      match h : exec op db with
      | .ok db' =>
          have : Decidable (Along meets ops db') := Along.decidable ops db'
          decidable_of_iff (meets db op ∧ Along meets ops db') (by rw [Along, h])
      | .error _ => .isFalse (by rw [Along, h]; exact And.right)

theorem ReachableBy.along {meets : Db → Op → Prop} {db' : Db}
    (h : ReachableBy meets domains db) (hmeets : Along meets ops db)
    (hrun : Tags.run ops db = .ok db') : ReachableBy meets domains db' := by
  induction ops generalizing db with
  | nil =>
    cases hrun
    exact h
  | cons op ops ih =>
    obtain ⟨s, hs, hrest⟩ := bind_eq_ok_iff.1 hrun
    obtain ⟨hop, hmeets⟩ := hmeets
    rw [show exec op db = .ok s from hs] at hmeets
    exact ih (h.step op hop hs) hmeets hrest

/-- A run that returns a state of which a property is evaluated. -/
theorem exists_run {P : Db → Prop} [DecidablePred P]
    (h : (Tags.run ops db).toOption.any (fun db' => decide (P db')) = true) :
    ∃ db', Tags.run ops db = .ok db' ∧ P db' := by
  cases hrun : Tags.run ops db with
  | error e =>
    rw [hrun] at h
    exact nomatch h
  | ok db' =>
    rw [hrun] at h
    exact ⟨db', rfl, of_decide_eq_true h⟩

end Idhan.Tags
