import Mathlib.Data.Int.Notation
import Mathlib.Data.Nat.Notation
import Idhan.Lib.Total

/-!
# The tag tables

The rows of the tag tables of `IDHANMigration/src`, and the state of the database that the triggers
on them read and write.

* `tag_mappings` (018), `tag_aliases` (020) and `tag_parents` (021) hold the base facts.
* `active_tag_mappings` (330) and `active_tag_mappings_parents` (331) are derived from them by
  triggers, and `active_tag_mappings_final` (328) is the view that readers see.
* `tag_count_delta` (418) and `tag_counts` (035) hold the counts of the derived rows.

A table is the list of its rows in the order in which a statement visits them.  `INTEGER` and
`SMALLINT` keys are natural numbers, and `NULL` is `none`.  The tables `tags` and `records` are left
out: every other table only refers to them, so a foreign key that fails only rejects a statement.
Of `file_info` only the key is kept, which is all that the tag triggers read of it.
-/

namespace Idhan.Tags

abbrev RecordId := ℕ
abbrev TagId := ℕ
abbrev DomainId := ℕ

/-- A row of `tag_mappings`. -/
structure TagMapping where
  recordId : RecordId
  tagId : TagId
  tagDomainId : DomainId
  deriving DecidableEq, Repr

/-- A row of `tag_aliases`: `aliasedId` is to be read as `aliasId`. -/
structure TagAlias where
  aliasedId : TagId
  aliasId : TagId
  idealAliasId : Option TagId
  tagDomainId : DomainId
  deriving DecidableEq, Repr

/-- `COALESCE(ideal_alias_id, alias_id)`. -/
def TagAlias.effectiveTagId (a : TagAlias) : TagId :=
  a.idealAliasId.getD a.aliasId

/-- A row of `tag_parents`. -/
structure TagParent where
  parentId : TagId
  idealParentId : Option TagId
  childId : TagId
  idealChildId : Option TagId
  tagDomainId : DomainId
  deriving DecidableEq, Repr

/-- `COALESCE(ideal_parent_id, parent_id)`. -/
def TagParent.effectiveParentId (p : TagParent) : TagId :=
  p.idealParentId.getD p.parentId

/-- `COALESCE(ideal_child_id, child_id)`. -/
def TagParent.effectiveChildId (p : TagParent) : TagId :=
  p.idealChildId.getD p.childId

/-- A row of `active_tag_mappings`. -/
structure ActiveTagMapping where
  recordId : RecordId
  tagId : TagId
  idealTagId : Option TagId
  tagDomainId : DomainId
  deriving DecidableEq, Repr

/-- `COALESCE(ideal_tag_id, tag_id)`. -/
def ActiveTagMapping.effectiveTagId (m : ActiveTagMapping) : TagId :=
  m.idealTagId.getD m.tagId

/-- The primary key of `active_tag_mappings`. -/
def ActiveTagMapping.key (m : ActiveTagMapping) : TagMapping :=
  ⟨m.recordId, m.tagId, m.tagDomainId⟩

/-- A row of `active_tag_mappings_parents`: the record inherits `tagId` from `originId`. -/
structure ActiveTagMappingParent where
  recordId : RecordId
  tagId : TagId
  originId : TagId
  internalCount : ℕ
  tagDomainId : DomainId
  deriving DecidableEq, Repr

/-- The generated column `internal`. -/
def ActiveTagMappingParent.internal (p : ActiveTagMappingParent) : Bool :=
  decide (0 < p.internalCount)

/-- The primary key of `active_tag_mappings_parents`. -/
def ActiveTagMappingParent.key (p : ActiveTagMappingParent) :
    RecordId × TagId × TagId × DomainId :=
  (p.recordId, p.tagId, p.originId, p.tagDomainId)

/-- A row of `tag_count_delta`. -/
structure TagCountDelta where
  tagId : TagId
  tagDomainId : DomainId
  storageDelta : ℤ
  displayDelta : ℤ
  deriving DecidableEq, Repr

/-- A row of `tag_counts`. -/
structure TagCount where
  tagId : TagId
  tagDomainId : DomainId
  storageCount : ℤ
  displayCount : ℤ
  deriving DecidableEq, Repr

/-- The state of the tag tables. -/
structure Db where
  tagDomains : List DomainId
  fileInfo : List RecordId
  tagMappings : List TagMapping
  tagAliases : List TagAlias
  tagParents : List TagParent
  activeTagMappings : List ActiveTagMapping
  activeTagMappingsParents : List ActiveTagMappingParent
  tagCountDelta : List TagCountDelta
  tagCounts : List TagCount
  deriving DecidableEq, Repr

/-- Empty tables over the domains `domains`. -/
def Db.empty (domains : List DomainId) : Db :=
  ⟨domains, [], [], [], [], [], [], [], []⟩

/-- The columns of the view `active_tag_mappings_final` (328): the effective tag of every active
mapping, and every inherited tag.  The view is a `UNION ALL`, so the rows repeat. -/
def Db.activeTagMappingsFinal (db : Db) : List TagMapping :=
  (db.activeTagMappings.filter fun m => m.idealTagId.isNone).map
      (fun m => ⟨m.recordId, m.tagId, m.tagDomainId⟩) ++
    (db.activeTagMappings.filter fun m => m.idealTagId.isSome).map
      (fun m => ⟨m.recordId, m.effectiveTagId, m.tagDomainId⟩) ++
    db.activeTagMappingsParents.map fun p => ⟨p.recordId, p.tagId, p.tagDomainId⟩

/-- The errors that the statements on the tag tables raise. -/
inductive DbError where
  /-- `tag_aliases_before_insert_trigger` (023) -/
  | aliasCycle (aliased target : TagId) (domain : DomainId)
  /-- `tag_aliases_after_update_trigger` (226) -/
  | recursiveAlias
  /-- `check_parent_cycle` (044) -/
  | parentCycle (parent child : TagId) (domain : DomainId)
  /-- `createRelationshipPairs` of `httpapi/tags.cpp` -/
  | selfRelationship (action : String) (a b : TagId)
  /-- a `CHECK` of the table does not hold of a row -/
  | checkViolation (table : String)
  /-- a row for which the partitioned table has no partition -/
  | noPartition (table : String)
  /-- the recursion of a trigger has no end within `max_stack_depth` -/
  | stackDepthLimitExceeded
  /-- a sum that does not fit the column -/
  | integerOutOfRange
  deriving DecidableEq, Repr

/-- The text of an error. -/
def DbError.message : DbError → String
  | .aliasCycle aliased target domain =>
      s!"Cycle detected: aliasing {aliased} to {target} would create an alias cycle in domain {domain}"
  | .recursiveAlias => "Recursive alias detected during update"
  | .parentCycle parent child domain =>
      s!"Cycle detected: inserting parent {parent} for child {child} would create a cycle in domain {domain}"
  | .selfRelationship action a b => s!"Cannot {action} a tag to itself {a} == {b}"
  | .checkViolation table => s!"new row for relation {table} violates check constraint"
  | .noPartition table => s!"no partition of relation {table} found for row"
  | .stackDepthLimitExceeded => "stack depth limit exceeded"
  | .integerOutOfRange => "integer out of range"

/-- A statement, as it changes the state or raises. -/
abbrev Statement := Db → Except DbError Db

end Idhan.Tags
