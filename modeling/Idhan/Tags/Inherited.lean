import Idhan.Tags.Counts

/-!
# The statements on `active_tag_mappings_parents`

A row `(record, tag, origin)` of `active_tag_mappings_parents` gives the record a tag that it
inherits from the tag `origin`.  Row triggers carry a change of the table up the parent relation: an
inserted row inserts the parents of its tag with one internal reference (`atmp_internal_on_insert`
039), and a deleted row takes one internal reference off the parents of its tag and deletes those
that are left with none (`atmp_internal_on_delete` 040).

`AFTER ROW` triggers run when their statement has changed all its rows, one after the other, and
before the statement triggers.  A statement of a trigger runs its own triggers before the trigger
goes on.  So a statement is a function that calls itself for the rows it changed.  The recursion is
bounded by a depth, as PostgreSQL bounds it by `max_stack_depth`; the statements below start it with
a depth that is never exhausted (`insertActiveTagMappingsParents_spec`,
`deleteActiveTagMappingsParents_spec`).
-/

namespace Idhan.Tags

/-- The row with a reference count computed from its own and from the one that was to be
inserted. -/
def ActiveTagMappingParent.mergeCount (f : ℕ → ℕ → ℕ) (old excluded : ActiveTagMappingParent) :
    ActiveTagMappingParent :=
  { old with internalCount := f old.internalCount excluded.internalCount }

/-- The rows of `tag_parents` under which `tag` stands as the effective child. -/
def Db.parentsOf (db : Db) (domain : DomainId) (tag : TagId) : List TagParent :=
  db.tagParents.filter fun tp => tp.tagDomainId = domain ∧ tp.effectiveChildId = tag

/-- The rows that the insert of `new` brings: the parents of its tag, each with one internal
reference.  `DISTINCT` because several rows of `tag_parents` may have one effective parent. -/
def Db.internalRows (db : Db) (new : ActiveTagMappingParent) : List ActiveTagMappingParent :=
  ((db.parentsOf new.tagDomainId new.tagId).map fun tp =>
    { recordId := new.recordId
      tagId := tp.effectiveParentId
      originId := new.tagId
      internalCount := 1
      tagDomainId := new.tagDomainId : ActiveTagMappingParent }).dedup

/-- `atmp_internal_on_insert` (039).  A row that exists already gets the count `excluded + 1`. -/
def atmpInternalOnInsert
    (insert : Option (ℕ → ℕ → ℕ) → List ActiveTagMappingParent → Statement)
    (new : ActiveTagMappingParent) : Statement := fun db =>
  insert (some fun _ excluded => excluded + 1) (db.internalRows new) db

/-- `INSERT INTO active_tag_mappings_parents ... ON CONFLICT`, with its triggers.  `none` is
`DO NOTHING`, and `some f` is `DO UPDATE SET internal_count = f existing excluded`. -/
def insertParentsUpTo :
    ℕ → Option (ℕ → ℕ → ℕ) → List ActiveTagMappingParent → Statement
  | 0, _, _ => fun _ => .error .stackDepthLimitExceeded
  | depth + 1, onConflict, rows => fun db => do
    let result := upsert ActiveTagMappingParent.key
      (onConflict.map ActiveTagMappingParent.mergeCount) db.activeTagMappingsParents rows
    let db ← result.inserted.foldlM
      (fun db new => atmpInternalOnInsert (insertParentsUpTo depth) new db)
      { db with activeTagMappingsParents := result.table }
    -- the update trigger of an upsert fires before its insert trigger
    let db ←
      (if onConflict.isSome then
        collectTagCountParents
          (.update (result.updated.map Prod.fst) (result.updated.map Prod.snd)) db
      else
        .ok db)
    collectTagCountParents (.insert result.inserted) db

/-- `INSERT INTO active_tag_mappings_parents ... ON CONFLICT`.  A row deeper in the recursion is a
new row for an edge of the parent relation, so the edges bound the depth. -/
def insertActiveTagMappingsParents (onConflict : Option (ℕ → ℕ → ℕ))
    (rows : List ActiveTagMappingParent) : Statement := fun db =>
  insertParentsUpTo (db.tagParents.length + 2) onConflict rows db

/-- `UPDATE active_tag_mappings_parents SET internal_count = f internal_count WHERE p`. -/
def updateInternalCount (p : ActiveTagMappingParent → Bool) (f : ℕ → ℕ) : Statement := fun db =>
  let set := fun row : ActiveTagMappingParent => { row with internalCount := f row.internalCount }
  let old := db.activeTagMappingsParents.filter p
  collectTagCountParents (.update old (old.map set))
    { db with
      activeTagMappingsParents :=
        db.activeTagMappingsParents.map fun row => if p row then set row else row }

/-- The row is inherited by the record of `old` from the tag of `old`. -/
def ActiveTagMappingParent.fromTagOf (old row : ActiveTagMappingParent) : Bool :=
  row.recordId = old.recordId ∧ row.originId = old.tagId ∧ row.tagDomainId = old.tagDomainId

/-- `atmp_internal_on_delete` (040). -/
def atmpInternalOnDelete (delete : (ActiveTagMappingParent → Bool) → Statement)
    (old : ActiveTagMappingParent) : Statement := fun db => do
  let db ← updateInternalCount
    (fun row => decide (0 < row.internalCount) && old.fromTagOf row) (· - 1) db
  delete (fun row => old.fromTagOf row && decide (row.internalCount = 0)) db

/-- `DELETE FROM active_tag_mappings_parents WHERE p`, with its triggers. -/
def deleteParentsUpTo : ℕ → (ActiveTagMappingParent → Bool) → Statement
  | 0, _ => fun _ => .error .stackDepthLimitExceeded
  | depth + 1, p => fun db => do
    let removed := db.activeTagMappingsParents.filter p
    let db ← removed.foldlM (fun db old => atmpInternalOnDelete (deleteParentsUpTo depth) old db)
      { db with
        activeTagMappingsParents := db.activeTagMappingsParents.filter fun row => !p row }
    collectTagCountParents (.delete removed) db

/-- `DELETE FROM active_tag_mappings_parents WHERE p`.  Every level of the recursion has a row
fewer. -/
def deleteActiveTagMappingsParents (p : ActiveTagMappingParent → Bool) : Statement := fun db =>
  deleteParentsUpTo (db.activeTagMappingsParents.length + 1) p db

/-! ## Moving inherited rows to the target of an alias -/

/-- The alias of the statement that the row has to follow. -/
def ActiveTagMappingParent.newAlias? (newAliases : List TagAlias) (p : ActiveTagMappingParent) :
    Option TagAlias :=
  newAliases.find? fun na =>
    na.tagDomainId = p.tagDomainId ∧ na.aliasedId = p.tagId ∧ na.effectiveTagId ≠ p.tagId

/-- `SELECT record_id, tag_id, origin_id, tag_domain_id, MAX(internal_count) ... GROUP BY`. -/
def groupMax (rows : List ActiveTagMappingParent) : List ActiveTagMappingParent :=
  (rows.map ActiveTagMappingParent.key).dedup.map fun k =>
    { recordId := k.1
      tagId := k.2.1
      originId := k.2.2.1
      internalCount := ((rows.filter fun p => p.key = k).map (·.internalCount)).foldr max 0
      tagDomainId := k.2.2.2 }

/-- `repair_parents_on_alias` (429), the statement trigger of an insert or update of `tag_aliases`.
The rows move with every trigger off, and the counts that this bypasses are appended by hand. -/
def repairParentsOnAlias (newAliases : List TagAlias) : Statement := fun db =>
  if db.activeTagMappingsParents.any fun p =>
      newAliases.any fun na => na.aliasedId = p.tagId ∧ na.tagDomainId = p.tagDomainId then
    let removed := db.activeTagMappingsParents.filter fun p => (p.newAlias? newAliases).isSome
    let moved := removed.filterMap fun p =>
      (p.newAlias? newAliases).map fun na => { p with tagId := na.effectiveTagId }
    let result := upsert ActiveTagMappingParent.key (some (ActiveTagMappingParent.mergeCount max))
      (db.activeTagMappingsParents.filter fun p => (p.newAlias? newAliases).isNone)
      (groupMax moved)
    collect true
      (groupDeltas (removed.map (·.change (-1))) ++ groupDeltas (result.inserted.map (·.change 1)))
      { db with activeTagMappingsParents := result.table }
  else
    .ok db

end Idhan.Tags
