import Idhan.Tags.Inherited

/-!
# The statements on `active_tag_mappings`

A mapping of a record that has a file is active.  An active mapping carries the effective tag of its
tag (`intercept_parent_mapping` 049), and its row triggers insert the parents of the effective tag
(`insert_parents_from_active_mappings` 047), delete them again
(`delete_parents_from_active_mappings` 048) and exchange them when the effective tag changes
(`repropagate_parents_on_ideal_change` 085).
-/

namespace Idhan.Tags

/-- The row of `tag_aliases` that aliases `tag` in the domain. -/
def Db.aliasOf? (db : Db) (domain : DomainId) (tag : TagId) : Option TagAlias :=
  db.tagAliases.find? fun ta => ta.tagDomainId = domain ∧ ta.aliasedId = tag

/-- `(SELECT ta.effective_tag_id FROM tag_aliases ta WHERE ta.tag_domain_id = domain AND
ta.aliased_id = tag)`. -/
def Db.idealOf (db : Db) (domain : DomainId) (tag : TagId) : Option TagId :=
  (db.aliasOf? domain tag).map (·.effectiveTagId)

/-- `intercept_parent_mapping` (049), the trigger before an insert. -/
def interceptParentMapping (db : Db) (new : TagMapping) : ActiveTagMapping :=
  ⟨new.recordId, new.tagId, db.idealOf new.tagDomainId new.tagId, new.tagDomainId⟩

/-- The rows that give `record` the parents of `tag`, with `tag` as their origin. -/
def Db.parentRows (db : Db) (domain : DomainId) (record : RecordId) (tag : TagId) :
    List ActiveTagMappingParent :=
  (db.parentsOf domain tag).map fun tp => ⟨record, tp.effectiveParentId, tag, 0, domain⟩

/-- `insert_parents_from_active_mappings` (047). -/
def insertParentsFromActiveMappings (new : ActiveTagMapping) : Statement := fun db =>
  insertActiveTagMappingsParents none
    (db.parentRows new.tagDomainId new.recordId new.effectiveTagId) db

/-- `INSERT INTO active_tag_mappings ... ON CONFLICT DO NOTHING`, with its triggers. -/
def insertActiveTagMappings (rows : List TagMapping) : Statement := fun db => do
  let result := upsert ActiveTagMapping.key none db.activeTagMappings
    (rows.map (interceptParentMapping db))
  let db ← result.inserted.foldlM (fun db new => insertParentsFromActiveMappings new db)
    { db with activeTagMappings := result.table }
  collectTagCountStorage (.insert result.inserted) db

/-- `delete_parents_from_active_mappings` (048). -/
def deleteParentsFromActiveMappings (old : ActiveTagMapping) : Statement :=
  deleteActiveTagMappingsParents fun row =>
    decide (row.recordId = old.recordId ∧
      (row.originId = old.tagId ∨ row.originId = old.effectiveTagId) ∧
      row.tagDomainId = old.tagDomainId) && !row.internal

/-- `DELETE FROM active_tag_mappings WHERE p`, with its triggers. -/
def deleteActiveTagMappings (p : ActiveTagMapping → Bool) : Statement := fun db => do
  let removed := db.activeTagMappings.filter p
  let db ← removed.foldlM (fun db old => deleteParentsFromActiveMappings old db)
    { db with activeTagMappings := db.activeTagMappings.filter fun m => !p m }
  collectTagCountStorage (.delete removed) db

/-- The record of `old` still carries the effective tag of `old`. -/
def Db.stillCarries (db : Db) (old : ActiveTagMapping) : Bool :=
  db.activeTagMappings.any fun other =>
    other.recordId = old.recordId ∧ other.tagDomainId = old.tagDomainId ∧
      other.effectiveTagId = old.effectiveTagId

/-- `repropagate_parents_on_ideal_change` (085). -/
def repropagateParentsOnIdealChange (old new : ActiveTagMapping) : Statement := fun db =>
  if old.effectiveTagId = new.effectiveTagId then
    .ok db
  else do
    let db ←
      (if db.stillCarries old then
        .ok db
      else
        deleteActiveTagMappingsParents (fun row =>
          decide (row.recordId = old.recordId ∧ row.originId = old.effectiveTagId ∧
            row.tagDomainId = old.tagDomainId) && !row.internal) db)
    insertActiveTagMappingsParents none
      (db.parentRows new.tagDomainId new.recordId new.effectiveTagId) db

/-- `UPDATE active_tag_mappings SET ideal_tag_id = ideal WHERE p`, with its triggers.  The row
trigger has a `WHEN` that asks for a change of the effective tag. -/
def updateActiveTagMappings (p : ActiveTagMapping → Bool) (ideal : Option TagId) : Statement :=
  fun db => do
    let set := fun m : ActiveTagMapping => { m with idealTagId := ideal }
    let old := db.activeTagMappings.filter p
    let changed := old.filter fun m => m.effectiveTagId ≠ (set m).effectiveTagId
    let db ← changed.foldlM (fun db m => repropagateParentsOnIdealChange m (set m) db)
      { db with activeTagMappings := db.activeTagMappings.map fun m => if p m then set m else m }
    collectTagCountStorage (.update old (old.map set)) db

end Idhan.Tags
