import Idhan.Lib.Digraph
import Idhan.Tags.Aliases

/-!
# The statements on `tag_parents`

`check_parent_cycle` (044) refuses an edge that closes a cycle of `parent_id` and `child_id`,
`tag_parents_before_insert_trigger` (083) resolves the aliases of both, and the inherited rows that
the edge brings or takes are inserted by `insert_parent_mapping` (045) and deleted by
`delete_parent_mapping` (046).
-/

namespace Idhan.Tags

/-- `SELECT tp.parent_id FROM tag_parents tp WHERE tp.child_id = child AND tp.tag_domain_id =
domain`. -/
def Db.rawParents (db : Db) (domain : DomainId) (child : TagId) : List TagId :=
  (db.tagParents.filter fun tp => tp.childId = child ∧ tp.tagDomainId = domain).map (·.parentId)

/-- The recursive query of `check_parent_cycle`: the tags above `tag`.  A round that finds nothing
new is the last one, so there are at most as many rounds as rows. -/
def Db.ancestors (db : Db) (domain : DomainId) (tag : TagId) : List TagId :=
  reachUpTo (db.rawParents domain) db.tagParents.length (db.rawParents domain tag)

/-- `check_parent_cycle` (044). -/
def checkParentCycle (db : Db) (domain : DomainId) (parent child : TagId) : Except DbError Unit :=
  if child ∈ db.ancestors domain parent then
    .error (.parentCycle parent child domain)
  else
    .ok ()

/-- `tag_parents_before_insert_trigger` (083): the row that is inserted. -/
def tagParentsBeforeInsertTrigger (db : Db) (domain : DomainId) (parent child : TagId) :
    TagParent :=
  ⟨parent, db.idealOf domain parent, child, db.idealOf domain child, domain⟩

/-- The first statement of `insert_parent_mapping` (045): the records that carry the child. -/
def directRows (new : TagParent) (db : Db) : List ActiveTagMappingParent :=
  (db.activeTagMappings.filter fun tm =>
      tm.tagDomainId = new.tagDomainId ∧ tm.effectiveTagId = new.effectiveChildId).map
    fun tm => ⟨tm.recordId, new.effectiveParentId, new.childId, 0, new.tagDomainId⟩

/-- The second statement of `insert_parent_mapping` (045): the records that inherit the child, each
with the number of rows that give it the child. -/
def ancestorRows (new : TagParent) (db : Db) : List ActiveTagMappingParent :=
  let records := (db.activeTagMappingsParents.filter fun atmp =>
      atmp.tagDomainId = new.tagDomainId ∧ atmp.tagId = new.effectiveChildId).map (·.recordId)
  records.dedup.map fun record =>
    ⟨record, new.effectiveParentId, new.childId, records.count record, new.tagDomainId⟩

/-- `insert_parent_mapping` (045). -/
def insertParentMapping (new : TagParent) : Statement := fun db => do
  let db ← insertActiveTagMappingsParents none (directRows new db) db
  insertActiveTagMappingsParents (some (· + ·)) (ancestorRows new db) db

/-- The primary key of `tag_parents`. -/
def TagParent.key (tp : TagParent) : TagId × TagId × DomainId :=
  (tp.parentId, tp.childId, tp.tagDomainId)

/-- `INSERT INTO tag_parents ... ON CONFLICT (tag_domain_id, parent_id, child_id) DO NOTHING`. -/
def insertTagParent (domain : DomainId) (parent child : TagId) : Statement := fun db => do
  if domain ∉ db.tagDomains then
    .error (.noPartition "tag_parents")
  else
    checkParentCycle db domain parent child
    if (parent, child, domain) ∈ db.tagParents.map TagParent.key then
      .ok db
    else
      let new := tagParentsBeforeInsertTrigger db domain parent child
      insertParentMapping new { db with tagParents := db.tagParents ++ [new] }

/-- `delete_parent_mapping` (046).  The origin is matched with `child_id`. -/
def deleteParentMapping (old : TagParent) : Statement :=
  deleteActiveTagMappingsParents fun row =>
    row.tagId = old.effectiveParentId ∧ row.originId = old.childId ∧
      row.tagDomainId = old.tagDomainId

/-- `DELETE FROM tag_parents WHERE tag_domain_id = domain AND parent_id = parent AND child_id =
child`, with its trigger. -/
def deleteTagParent (domain : DomainId) (parent child : TagId) : Statement := fun db =>
  (db.tagParents.filter fun tp => tp.key = (parent, child, domain)).foldlM
    (fun db old => deleteParentMapping old db)
    { db with tagParents := db.tagParents.filter fun tp => tp.key ≠ (parent, child, domain) }

end Idhan.Tags
