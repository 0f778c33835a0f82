import Idhan.Tags.Cascade
import Idhan.Tags.Parents

/-!
# What the statements on the derived tables change

The statements on `active_tag_mappings` and the bulk move of inherited rows return from every state,
and what they change outside of `active_tag_mappings_parents` and the pending counts is read off
their first line.  Each lemma says so with `InheritedOnly`: after the first line, only inherited
rows and pending counts change.
-/

namespace Idhan.Tags

/-- A loop of statements that change only inherited rows and pending counts. -/
theorem InheritedOnly.foldlM {β : Type} {f : Db → β → Except DbError Db} {l : List β}
    (hf : ∀ b ∈ l, ∀ db, Succeeds (f db b) (InheritedOnly db)) (db : Db) :
    Succeeds (l.foldlM f db) (InheritedOnly db) :=
  Succeeds.foldlM_of_forall (InheritedOnly.refl db) fun b hb s hs =>
    (hf b hb s).mono fun _ h => hs.trans h

theorem collectTagCountStorage_inheritedOnly (tr : Transition ActiveTagMapping) (db : Db) :
    Succeeds (collectTagCountStorage tr db) (InheritedOnly db) :=
  (collectTagCountStorage_spec tr db).mono fun _ h => .of_collected h

theorem insertActiveTagMappings_spec (rows : List TagMapping) (db : Db) :
    Succeeds (insertActiveTagMappings rows db) (InheritedOnly
      { db with
        activeTagMappings := (upsert ActiveTagMapping.key none db.activeTagMappings
          (rows.map (interceptParentMapping db))).table }) := by
  refine (InheritedOnly.foldlM (fun new _ s => ?_) _).bind fun s hs => ?_
  · exact (insertActiveTagMappingsParents_spec _ _ s).mono fun _ h => h.1
  · exact (collectTagCountStorage_inheritedOnly _ s).mono fun _ h => hs.trans h

theorem deleteActiveTagMappings_spec (p : ActiveTagMapping → Bool) (db : Db) :
    Succeeds (deleteActiveTagMappings p db) (InheritedOnly
      { db with activeTagMappings := db.activeTagMappings.filter fun m => !p m }) := by
  refine (InheritedOnly.foldlM (fun old _ s => ?_) _).bind fun s hs => ?_
  · exact (deleteActiveTagMappingsParents_spec _ s).mono fun _ h => h.1
  · exact (collectTagCountStorage_inheritedOnly _ s).mono fun _ h => hs.trans h

theorem repropagateParentsOnIdealChange_spec (old new : ActiveTagMapping) (db : Db) :
    Succeeds (repropagateParentsOnIdealChange old new db) (InheritedOnly db) := by
  unfold repropagateParentsOnIdealChange
  have hinsert : ∀ s, InheritedOnly db s → Succeeds (insertActiveTagMappingsParents none
      (s.parentRows new.tagDomainId new.recordId new.effectiveTagId) s) (InheritedOnly db) :=
    fun s hs => (insertActiveTagMappingsParents_spec _ _ s).mono fun _ h => hs.trans h.1
  split_ifs
  · exact .ok (.refl db)
  · exact hinsert db (.refl db)
  · exact (deleteActiveTagMappingsParents_spec _ db).bind fun s hs => hinsert s hs.1

theorem updateActiveTagMappings_spec (p : ActiveTagMapping → Bool) (ideal : Option TagId)
    (db : Db) :
    Succeeds (updateActiveTagMappings p ideal db) (InheritedOnly
      { db with
        activeTagMappings := db.activeTagMappings.map fun m =>
          if p m then { m with idealTagId := ideal } else m }) := by
  refine (InheritedOnly.foldlM (fun m _ s => ?_) _).bind fun s hs => ?_
  · exact repropagateParentsOnIdealChange_spec _ _ s
  · exact (collectTagCountStorage_inheritedOnly _ s).mono fun _ h => hs.trans h

theorem repairParentsOnAlias_spec (newAliases : List TagAlias) (db : Db) :
    Succeeds (repairParentsOnAlias newAliases db) (InheritedOnly db) := by
  unfold repairParentsOnAlias
  split_ifs
  · refine (collect_spec (Or.inl rfl) _).mono fun db' hc => ?_
    exact (InheritedOnly.setRows db _).trans (.of_collected hc)
  · exact .ok (.refl db)

theorem insertParentMapping_spec (new : TagParent) (db : Db) :
    Succeeds (insertParentMapping new db) (InheritedOnly db) := by
  refine (insertActiveTagMappingsParents_spec _ _ db).bind fun s hs => ?_
  exact (insertActiveTagMappingsParents_spec _ _ s).mono fun _ h => hs.1.trans h.1

theorem deleteParentMapping_spec (old : TagParent) (db : Db) :
    Succeeds (deleteParentMapping old db) (InheritedOnly db) :=
  (deleteActiveTagMappingsParents_spec _ db).mono fun _ h => h.1

end Idhan.Tags
