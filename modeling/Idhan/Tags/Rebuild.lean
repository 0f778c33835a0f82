import Idhan.Tags.Support

/-!
# Rebuilding the derived tags

The migration 432 empties the tables of active mappings and inserts the mappings of the records that
have a file.  The triggers resolve the aliases and fill `active_tag_mappings_parents`.

* `rebuildActive_exact`: afterwards a record inherits exactly the strict ancestors of the tags that
  are mapped on it, whatever the order of the rows.
-/

namespace Idhan.Tags

open Relation Idhan.Derivation List

/-- `TRUNCATE active_tag_mappings, active_tag_mappings_parents, tag_counts, tag_count_delta`. -/
def Db.truncateActive (db : Db) : Db :=
  { db with
    activeTagMappings := [], activeTagMappingsParents := [], tagCounts := [], tagCountDelta := [] }

/-- The rebuild, with the rows of `tag_mappings JOIN file_info` in the order in which they come.
Its `INSERT` has no `ON CONFLICT`, and the keys of the rows are different.  The counts are taken
from the new rows afterwards. -/
def rebuildActive (rows : List TagMapping) : Statement := fun db =>
  insertActiveTagMappings rows db.truncateActive

variable {base db : Db} {S : TagMapping → Prop}

/-- The trigger of a mapping adds what its tag gives. -/
theorem insertParentsFromActiveMappings_filling (hbase : InheritedOnly base db)
    (h : Filling base.Gives S [] db.derivations) (m : ActiveTagMapping) :
    Succeeds (insertParentsFromActiveMappings m db) fun db' =>
      InheritedOnly base db' ∧ Filling base.Gives (fun x => S x ∨ x = m.carried) []
        db'.derivations := by
  refine (insertActiveTagMappingsParents_rule
    (I := fun pending s => InheritedOnly base s ∧ Filling base.Gives (fun x => S x ∨ x = m.carried)
      (pending.map ActiveTagMappingParent.derivation) s.derivations) ?_ ?_ ?_).mono fun s hs => hs.1
  · exact fun pending s deltas hs => ⟨hs.1.trans ⟨_, _, rfl⟩, hs.2⟩
  · rintro new rest s ⟨hi, hs⟩
    refine ⟨hi.trans (.setRows _ _), ?_⟩
    have hrows : Raises s.Gives _ _ := raises_internalRows new
    rw [hi.gives_eq] at hrows
    rw [Db.afterInsert, map_append, derivation_inserted, derivations_upsertParents]
    exact hs.step hrows
  · refine ⟨hbase.trans (.setRows _ _), ?_⟩
    rw [derivation_inserted, derivations_upsertParents, ← append_nil (upsert ..).inserted]
    refine h.feed (fun _ => Or.inl) (fun _ => id) ⟨m.carried, Or.inr rfl, .refl⟩ (fun _ => id)
      (fun _ _ hk => (not_mem_nil hk).elim) fun t o => ?_
    rw [← hbase.gives_eq, mem_keys_iff]
    simp only [mem_derivation_parentRows]
    constructor
    · rintro ⟨_, hsource, _, hgives⟩
      exact ⟨hsource, hgives⟩
    · rintro ⟨hsource, hgives⟩
      exact ⟨0, hsource, rfl, hgives⟩

/-- The rows that are inserted into an empty table are those of the keys. -/
theorem mem_inserted_carried (db : Db) (rows : List TagMapping) (x : TagMapping) :
    (∃ m ∈ (upsert ActiveTagMapping.key none [] (rows.map (interceptParentMapping db))).inserted,
      m.carried = x) ↔ ∃ m ∈ rows, (interceptParentMapping db m).carried = x := by
  constructor
  · rintro ⟨m, hm, rfl⟩
    obtain ⟨mapped, hmapped, rfl⟩ := mem_map.1 (of_mem_upsert_inserted keepsKey_none hm).1
    exact ⟨mapped, hmapped, rfl⟩
  · rintro ⟨m, hm, rfl⟩
    have hkey : m ∈ (upsert ActiveTagMapping.key none []
        (rows.map (interceptParentMapping db))).inserted.map ActiveTagMapping.key :=
      (mem_map_key_upsert_inserted keepsKey_none).2 ⟨mem_map.2 ⟨_, mem_map_of_mem hm, rfl⟩,
        not_mem_nil⟩
    obtain ⟨row, hrow, heq⟩ := mem_map.1 hkey
    obtain ⟨mapped, -, rfl⟩ := mem_map.1 (of_mem_upsert_inserted keepsKey_none hrow).1
    exact ⟨_, hrow, congrArg (fun m => (interceptParentMapping db m).carried) heq⟩

/-- The triggers of a statement fill the table from the tags of its new rows. -/
theorem insertActiveTagMappings_filling (hempty : db.activeTagMappingsParents = [])
    (hactive : db.activeTagMappings = []) (rows : List TagMapping) :
    Succeeds (insertActiveTagMappings rows db) fun db' =>
      Filling db.Gives (fun x => ∃ m ∈ rows, (interceptParentMapping db m).carried = x) []
        db'.derivations := by
  have hmem := mem_inserted_carried db rows
  unfold insertActiveTagMappings
  rw [hactive]
  generalize upsert ActiveTagMapping.key none [] (rows.map (interceptParentMapping db)) =
    result at hmem ⊢
  simp only [← hmem]
  set base : Db := { db with activeTagMappings := result.table }
  refine Succeeds.bind (P := fun s => Filling base.Gives (fun x => ∃ m ∈ result.inserted,
    m.carried = x) [] s.derivations)
    ?_ fun s hs => ?_
  · refine (Succeeds.foldlM (fun rest s => ∃ done, done ++ rest = result.inserted ∧
      InheritedOnly base s ∧ Filling base.Gives (fun x => ∃ m ∈ done, m.carried = x) []
      s.derivations) ⟨[], rfl, .refl base, ?_⟩ ?_).mono ?_
    · have hnone : base.derivations = [] := congrArg (List.map _) hempty
      rw [hnone]
      exact ⟨fun _ _ hk => (nomatch hk), fun _ hk => (nomatch hk), fun _ _ hk => (nomatch hk),
        fun _ ⟨_, hm, _⟩ => (nomatch hm)⟩
    · rintro m rest s ⟨done, hdone, hi, hs⟩
      refine (insertParentsFromActiveMappings_filling hi hs m).mono fun s' ⟨hi', hs'⟩ =>
        ⟨done ++ [m], by simpa using hdone, hi', ?_⟩
      simpa [or_and_right, exists_or, eq_comm] using hs'
    · rintro s ⟨done, hdone, -, hs⟩
      rwa [← hdone, append_nil]
  · refine (collectTagCountStorage_spec _ s).mono fun s' hc => ?_
    obtain ⟨deltas, rfl, _⟩ := hc
    exact hs

theorem Resolved.resolve_eq_iff (h : Resolved db) {domain : DomainId} {tag last : TagId} :
    db.resolve domain tag = last ↔ Ends (db.aliasNext domain) tag last :=
  ⟨fun heq => heq ▸ h.ends_getD domain tag, h.getD_idealOf⟩

/-- An edge of `tag_parents` between the ends of the chains of aliases. -/
def Db.ResolvedParent (db : Db) (domain : DomainId) (child parent : TagId) : Prop :=
  ∃ p c, (p, c, domain) ∈ db.tagParents.map TagParent.key ∧
    Ends (db.aliasNext domain) c child ∧ Ends (db.aliasNext domain) p parent

theorem Resolved.inherits_eq (h : Resolved db) (domain : DomainId) :
    db.Inherits domain = db.ResolvedParent domain := by
  funext child parent
  simp only [Db.ResolvedParent, h.inherits_iff, h.resolve_eq_iff]

/-- **The rebuild is exact**: whatever the order of the rows, a record inherits a tag in a domain
exactly if a tag that is mapped on it resolves to a strict descendant, in the graph of the resolved
parent rows. -/
theorem rebuildActive_exact {db : Db} (hresolved : Resolved db.truncateActive)
    {rows : List TagMapping} (hrows : ∀ m, m ∈ rows ↔
      m ∈ db.tagMappings ∧ m.recordId ∈ db.fileInfo) :
    Succeeds (rebuildActive rows db) fun db' => ∀ record tag domain,
      (∃ row ∈ db'.activeTagMappingsParents, row.recordId = record ∧ row.tagId = tag ∧
        row.tagDomainId = domain) ↔ ∃ m ∈ db.tagMappings, m.recordId = record ∧
        m.tagDomainId = domain ∧ record ∈ db.fileInfo ∧
          ∃ last, Ends (db.aliasNext domain) m.tagId last ∧
          TransGen (db.ResolvedParent domain) last tag := by
  refine (insertActiveTagMappings_filling rfl rfl rows).mono fun db' hfilling record tag domain =>
    ?_
  have hinherits : db.truncateActive.Inherits domain = db.ResolvedParent domain :=
    hresolved.inherits_eq domain
  rw [← hinherits]
  constructor
  · rintro ⟨row, hrow, rfl, rfl, rfl⟩
    obtain ⟨_, ⟨m, hm, rfl⟩, hpath⟩ :=
      hfilling.exists_iff.1 ⟨_, mem_keys_of_mem (mem_map_of_mem hrow)⟩
    obtain ⟨hrecord, hdomain, hpath⟩ := transGen_onRecord.1 hpath
    obtain ⟨hmapped, hfile⟩ := (hrows m).1 hm
    have hrecord : m.recordId = row.recordId := hrecord.symm
    have hdomain : m.tagDomainId = row.tagDomainId := hdomain.symm
    refine ⟨m, hmapped, hrecord, hdomain, hrecord ▸ hfile, _,
      hdomain ▸ hresolved.ends_getD m.tagDomainId m.tagId, ?_⟩
    exact hdomain ▸ hpath
  · rintro ⟨m, hmapped, rfl, rfl, hfile, last, hlast, hpath⟩
    have hresolve : db.truncateActive.resolve m.tagDomainId m.tagId = last :=
      hresolved.resolve_eq_iff.2 hlast
    subst hresolve
    have hgives : TransGen db.truncateActive.Gives
        (interceptParentMapping db.truncateActive m).carried ⟨m.recordId, tag, m.tagDomainId⟩ :=
      transGen_onRecord.2 ⟨rfl, rfl, hpath⟩
    obtain ⟨o, ho⟩ := hfilling.exists_iff.2 ⟨_, ⟨m, (hrows m).2 ⟨hmapped, hfile⟩, rfl⟩, hgives⟩
    obtain ⟨r, hr, hnode, _⟩ := exists_of_mem_keys ho
    obtain ⟨row, hrow, rfl⟩ := mem_map.1 hr
    obtain ⟨hrecord, htag, hdomain⟩ := TagMapping.mk.inj hnode
    exact ⟨row, hrow, hrecord, htag, hdomain⟩

/-- Two tags on one record with a parent in common, one of them an alias: the parent, and the parent
above it, are inherited. -/
def Db.beforeRebuild : Db :=
  { Db.empty [0] with
    tagMappings := [⟨1, 3, 0⟩, ⟨1, 2, 0⟩, ⟨2, 2, 0⟩], fileInfo := [1],
    tagAliases := [⟨3, 1, none, 0⟩]
    tagParents := [⟨10, none, 1, none, 0⟩, ⟨10, none, 2, none, 0⟩, ⟨20, none, 10, none, 0⟩] }

theorem rebuildActive_exact_diamond :
    Succeeds (rebuildActive [⟨1, 2, 0⟩, ⟨1, 3, 0⟩] Db.beforeRebuild) fun db' => ∀ record tag domain,
      (∃ row ∈ db'.activeTagMappingsParents, row.recordId = record ∧ row.tagId = tag ∧
        row.tagDomainId = domain) ↔ ∃ m ∈ Db.beforeRebuild.tagMappings, m.recordId = record ∧
        m.tagDomainId = domain ∧ record ∈ Db.beforeRebuild.fileInfo ∧
          ∃ last, Ends (Db.beforeRebuild.aliasNext domain) m.tagId last ∧
          TransGen (Db.beforeRebuild.ResolvedParent domain) last tag := by
  have hends : ∀ domain tag, ∃ last, Ends (Db.beforeRebuild.aliasNext domain) tag last := by
    intro domain tag
    by_cases halias : domain = 0 ∧ tag = 3
    · obtain ⟨rfl, rfl⟩ := halias
      exact ⟨1, .follow (y := 1) rfl (.stop rfl)⟩
    · refine ⟨tag, .stop (aliasNext_eq_none.2 (aliasOf?_eq_none.2 ?_))⟩
      simpa [Db.beforeRebuild, TagAlias.key] using halias
  have hresolved : Resolved Db.beforeRebuild.truncateActive :=
    ⟨nodup_singleton (0, 3), hends, by decide, by decide, by decide, by decide⟩
  refine rebuildActive_exact hresolved fun m => ?_
  simp only [Db.beforeRebuild, mem_cons, not_mem_nil, or_false]
  constructor
  · rintro (rfl | rfl) <;> simp
  · rintro ⟨rfl | rfl | rfl, hfile⟩
    · exact Or.inr rfl
    · exact Or.inl rfl
    · cases hfile

end Idhan.Tags
