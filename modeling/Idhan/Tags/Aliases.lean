import Idhan.Tags.Active

/-!
# The statements on `tag_aliases`

`ideal_alias_id` compresses the chains of aliases: a row whose target is aliased itself carries the
last tag of the chain.  The triggers keep the rows of `tag_aliases`, `tag_parents` and
`active_tag_mappings` that depend on a tag at the effective tag of it, and move inherited rows
(`repair_parents_on_alias` 429).

An update of `tag_aliases` runs its triggers only for the rows whose effective tag changes
(migrations 291 and 292); each of them updates the rows that have the changed tag as their target,
so the update calls itself down the tree of aliases.
-/

namespace Idhan.Tags

/-- `UPDATE tag_parents SET ideal_parent_id = ideal WHERE parent_id = tag`. -/
def setIdealParent (domain : DomainId) (tag : TagId) (ideal : Option TagId) (db : Db) : Db :=
  { db with
    tagParents := db.tagParents.map fun tp =>
      if tp.parentId = tag ∧ tp.tagDomainId = domain then { tp with idealParentId := ideal }
      else tp }

/-- `UPDATE tag_parents SET ideal_child_id = ideal WHERE child_id = tag`. -/
def setIdealChild (domain : DomainId) (tag : TagId) (ideal : Option TagId) (db : Db) : Db :=
  { db with
    tagParents := db.tagParents.map fun tp =>
      if tp.childId = tag ∧ tp.tagDomainId = domain then { tp with idealChildId := ideal }
      else tp }

/-- The two updates of `tag_parents` that the alias triggers share. -/
def setIdeals (domain : DomainId) (tag : TagId) (ideal : Option TagId) (db : Db) : Db :=
  setIdealChild domain tag ideal (setIdealParent domain tag ideal db)

/-- The guard of `tag_aliases_after_update_trigger`: some row ends at a tag that is aliased. -/
def Db.recursiveAlias (db : Db) (new : TagAlias) : Bool :=
  db.tagAliases.any fun ta =>
    ta.effectiveTagId = new.aliasedId ∧ ta.tagDomainId = new.tagDomainId ∧
      ta.aliasedId ≠ new.effectiveTagId

/-- `tag_aliases_after_update_trigger` (226). -/
def tagAliasesAfterUpdateTrigger (update : (TagAlias → Bool) → Option TagId → Statement)
    (new : TagAlias) : Statement := fun db =>
  if db.recursiveAlias new then
    .error .recursiveAlias
  else do
    let db ← update
      (fun ta => ta.aliasId = new.aliasedId ∧ ta.tagDomainId = new.tagDomainId)
      (some new.effectiveTagId) db
    .ok (setIdeals new.tagDomainId new.aliasedId (some new.effectiveTagId) db)

/-- `repair_tag_mappings_ideals_update` (225). -/
def repairTagMappingsIdealsUpdate (old new : TagAlias) : Statement :=
  updateActiveTagMappings
    (fun m => m.tagId = old.aliasedId ∧ m.idealTagId = some old.effectiveTagId ∧
      m.tagDomainId = new.tagDomainId)
    (some new.effectiveTagId)

/-- The row with another `ideal_alias_id`. -/
def TagAlias.withIdeal (ideal : Option TagId) (ta : TagAlias) : TagAlias :=
  { ta with idealAliasId := ideal }

/-- `UPDATE tag_aliases SET ideal_alias_id = ideal WHERE p`, with its triggers. -/
def updateTagAliasesUpTo : ℕ → (TagAlias → Bool) → Option TagId → Statement
  | 0, _, _ => fun _ => .error .stackDepthLimitExceeded
  | depth + 1, p, ideal => fun db =>
    let old := db.tagAliases.filter p
    -- CHECK ( aliased_id != ideal_alias_id )
    if old.any fun ta => ideal = some ta.aliasedId then
      .error (.checkViolation "tag_aliases")
    else do
      let changed := old.filter fun ta => ta.effectiveTagId ≠ (ta.withIdeal ideal).effectiveTagId
      let db ← changed.foldlM
        (fun db ta => do
          let db ← tagAliasesAfterUpdateTrigger (updateTagAliasesUpTo depth) (ta.withIdeal ideal) db
          repairTagMappingsIdealsUpdate ta (ta.withIdeal ideal) db)
        { db with
          tagAliases := db.tagAliases.map fun ta => if p ta then ta.withIdeal ideal else ta }
      repairParentsOnAlias (old.map (TagAlias.withIdeal ideal)) db

/-- `UPDATE tag_aliases SET ideal_alias_id = ideal WHERE p`.  The recursion goes down the tree of
aliases, so the rows bound the depth. -/
def updateTagAliases (p : TagAlias → Bool) (ideal : Option TagId) : Statement := fun db =>
  updateTagAliasesUpTo (db.tagAliases.length + 1) p ideal db

/-- `tag_aliases_before_insert_trigger` (023): the row that is inserted. -/
def tagAliasesBeforeInsertTrigger (db : Db) (domain : DomainId) (aliased target : TagId) :
    Except DbError TagAlias :=
  if db.idealOf domain target = some aliased then
    .error (.aliasCycle aliased target domain)
  else
    .ok ⟨aliased, target, db.idealOf domain target, domain⟩

/-- `tag_aliases_after_insert_trigger` (022). -/
def tagAliasesAfterInsertTrigger (new : TagAlias) : Statement := fun db => do
  let db ← updateTagAliases
    (fun ta => ta.effectiveTagId = new.aliasedId ∧ ta.tagDomainId = new.tagDomainId)
    (some new.effectiveTagId) db
  .ok (setIdeals new.tagDomainId new.aliasedId (some new.effectiveTagId) db)

/-- `repair_tag_mappings_ideals_insert` (224). -/
def repairTagMappingsIdealsInsert (new : TagAlias) : Statement :=
  updateActiveTagMappings
    (fun m => m.tagId = new.aliasedId ∧ m.tagDomainId = new.tagDomainId)
    (some new.effectiveTagId)

/-- The row triggers after the insert of `new`, in the order of their names, and then the statement
trigger. -/
def tagAliasesAfterInsert (new : TagAlias) : Statement := fun db => do
  let db ← tagAliasesAfterInsertTrigger new db
  let db ← repairTagMappingsIdealsInsert new db
  repairParentsOnAlias [new] db

/-- The `CHECK`s of a row of `tag_aliases`. -/
def TagAlias.check (ta : TagAlias) : Bool :=
  ta.aliasedId ≠ ta.aliasId ∧ ta.idealAliasId ≠ some ta.aliasedId

/-- `INSERT INTO tag_aliases ... ON CONFLICT (tag_domain_id, aliased_id) DO NOTHING`.  A statement
that inserts nothing fires only its statement trigger. -/
def insertTagAlias (domain : DomainId) (aliased target : TagId) : Statement := fun db => do
  if domain ∉ db.tagDomains then
    .error (.noPartition "tag_aliases")
  else
    let new ← tagAliasesBeforeInsertTrigger db domain aliased target
    if !new.check then
      .error (.checkViolation "tag_aliases")
    else if (db.aliasOf? domain aliased).isSome then
      repairParentsOnAlias [] db
    else
      tagAliasesAfterInsert new { db with tagAliases := db.tagAliases ++ [new] }

/-- `tag_aliases_after_delete_trigger` (024). -/
def tagAliasesAfterDeleteTrigger (old : TagAlias) : Statement := fun db => do
  let db ← updateTagAliases
    (fun ta => ta.aliasId = old.aliasedId ∧ ta.tagDomainId = old.tagDomainId) none db
  .ok (setIdeals old.tagDomainId old.aliasedId none db)

/-- `repair_tag_mappings_ideals_delete` (030). -/
def repairTagMappingsIdealsDelete (old : TagAlias) : Statement :=
  updateActiveTagMappings
    (fun m => m.tagId = old.aliasedId ∧ m.tagDomainId = old.tagDomainId) none

/-- `DELETE FROM tag_aliases WHERE tag_domain_id = domain AND aliased_id = aliased AND alias_id =
target`, with its triggers. -/
def deleteTagAlias (domain : DomainId) (aliased target : TagId) : Statement := fun db =>
  let p := fun ta : TagAlias =>
    decide (ta.tagDomainId = domain ∧ ta.aliasedId = aliased ∧ ta.aliasId = target)
  (db.tagAliases.filter p).foldlM
    (fun db old => do
      let db ← tagAliasesAfterDeleteTrigger old db
      repairTagMappingsIdealsDelete old db)
    { db with tagAliases := db.tagAliases.filter fun ta => !p ta }

end Idhan.Tags
