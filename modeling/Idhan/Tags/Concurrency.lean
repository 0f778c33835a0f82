import Idhan.Lib.ReadCommitted
import Idhan.Tags.ParentGraph

/-!
# Two requests at the same time

`createRelationshipPairs` of `httpapi/tags.cpp` writes its pairs in one transaction and takes no
lock.  The triggers of a statement read what was committed before it and what its own transaction
has written, so they do not see the pairs of another request that has not committed.

`tag_aliases_before_insert_trigger` reads `ideal_alias_id`, not the links, so what it refuses
depends on how well a transaction keeps that column.  `Moved` says what an alias statement does to
any table, also one in which the column is wrong, and `Follows` is what is left of the resolution of
the aliases in the view of a transaction: it is right for the chains that have no link of the other
transaction.

`insertTagAlias_moved` has the rows that an alias statement rewrites, and `follows_of_interleaving`
that a transaction resolves the chains in which the other has no part.  With that both kinds of
requests meet the contract of `Idhan.Lib.ReadCommitted`, and `relationships_acyclic_iff` says that
two requests leave acyclic aliases, and acyclic parents, exactly when none of their statements
closes a path through a row that the other has inserted.
-/

namespace Idhan.Tags

open Relation List Function
open TagAlias (key withIdeal)

/-- The link of a row of `tag_aliases`. -/
def TagAlias.Edge (domain : DomainId) (ta : TagAlias) (x y : TagId) : Prop :=
  ta.tagDomainId = domain ∧ ta.aliasedId = x ∧ ta.aliasId = y

/-! ## What an alias statement does to any table -/

section Moved

variable {table : List TagAlias} {domain : DomainId} {aliased e : TagId}

/-- The links of the table lead from the row to a row that ends at `aliased`. -/
def Upstream (table : List TagAlias) (domain : DomainId) (aliased : TagId) (ta : TagAlias) : Prop :=
  ta.tagDomainId = domain ∧ ∃ q ∈ table, q.tagDomainId = domain ∧ q.effectiveTagId = aliased ∧
    ReflTransGen (EdgeOf (TagAlias.Edge domain) table) ta.aliasedId q.aliasedId

/-- Some rows upstream of `aliased` are set to `e`, and the others are as they were. -/
def Moved (table : List TagAlias) (domain : DomainId) (aliased e : TagId) (t t' : List TagAlias) :
    Prop :=
  ∃ f : TagAlias → TagAlias, t' = t.map f ∧
    ∀ ta ∈ t, f ta = ta ∨ (f ta = ta.withIdeal (some e) ∧ Upstream table domain aliased ta)

namespace Moved

theorem refl (t : List TagAlias) : Moved table domain aliased e t t :=
  ⟨id, t.map_id.symm, fun _ _ => Or.inl rfl⟩

variable {t' t : List TagAlias}

theorem trans {t'' : List TagAlias} (h : Moved table domain aliased e t t')
    (h' : Moved table domain aliased e t' t'') : Moved table domain aliased e t t'' := by
  obtain ⟨f, rfl, hf⟩ := h
  obtain ⟨g, rfl, hg⟩ := h'
  refine ⟨g ∘ f, List.map_map, fun ta hta => ?_⟩
  have hgf := hg (f ta) (mem_map_of_mem hta)
  rcases hf ta hta with hfta | ⟨hfta, hup⟩
  · rw [comp_apply, hfta]
    rwa [hfta] at hgf
  · refine Or.inr ⟨?_, hup⟩
    rcases hgf with hgf | ⟨hgf, _⟩
    · exact hgf.trans hfta
    · rw [comp_apply, hgf, hfta]
      rfl

/-- One statement sets rows that are all upstream. -/
theorem setAlias {db : Db} {p : TagAlias → Bool}
    (hp : ∀ ta ∈ db.tagAliases, p ta → Upstream table domain aliased ta) :
    Moved table domain aliased e db.tagAliases (db.setAlias p (some e)).tagAliases := by
  refine ⟨_, rfl, fun ta hta => ?_⟩
  by_cases hpta : p ta
  · exact Or.inr ⟨if_pos hpta, hp ta hta hpta⟩
  · exact Or.inl (if_neg hpta)

/-- The links stay. -/
theorem links (h : Moved table domain aliased e t t') :
    t'.map (withIdeal none) = t.map (withIdeal none) := by
  obtain ⟨f, rfl, hf⟩ := h
  rw [List.map_map]
  refine List.map_congr_left fun ta hta => ?_
  rcases hf ta hta with hfta | ⟨hfta, _⟩
  · rw [comp_apply, hfta]
  · rw [comp_apply, hfta]
    rfl

end Moved

theorem edgeOf_tagAliases_of_links {t t' : List TagAlias}
    (hlinks : t'.map (withIdeal none) = t.map (withIdeal none)) {x y : TagId}
    (h : EdgeOf (TagAlias.Edge domain) t' x y) : EdgeOf (TagAlias.Edge domain) t x y := by
  obtain ⟨ta, hta, hedge⟩ := h
  obtain ⟨ta', hta', heq⟩ := mem_map.1 (hlinks ▸ mem_map_of_mem hta)
  refine ⟨ta', hta', ?_⟩
  obtain ⟨ha, hb, _, hd⟩ := TagAlias.mk.injEq .. ▸ heq
  rw [TagAlias.Edge, hd, ha, hb]
  exact hedge

/-- **An update of `tag_aliases` moves rows that are upstream**, and no others. -/
theorem updateTagAliasesUpTo_moved (depth : ℕ) (p : TagAlias → Bool) (db : Db)
    (hlinks : db.tagAliases.map (withIdeal none) = table.map (withIdeal none))
    (hp : ∀ ta ∈ db.tagAliases, p ta → Upstream table domain aliased ta) :
    Returns (updateTagAliasesUpTo depth p (some e) db) fun db' =>
      Moved table domain aliased e (db.setAlias p (some e)).tagAliases db'.tagAliases := by
  induction depth generalizing p db with
  | zero => exact .error
  | succ depth ih =>
    rw [updateTagAliasesUpTo]
    by_cases hcheck : (db.tagAliases.filter p).any fun ta => some e = some ta.aliasedId
    · simp only [if_pos hcheck]
      exact .error
    simp only [if_neg hcheck]
    have hloop : Returns ((db.changedAliases p (some e)).foldlM
        (fun db ta => do
          let db ← tagAliasesAfterUpdateTrigger (updateTagAliasesUpTo depth) (ta.withIdeal (some e))
              db
          repairTagMappingsIdealsUpdate ta (ta.withIdeal (some e)) db)
        (db.setAlias p (some e)))
        fun s => Moved table domain aliased e (db.setAlias p (some e)).tagAliases s.tagAliases := by
      refine Returns.foldlM (.refl _) fun ta hta s hs => ?_
      obtain ⟨hmem, hpta⟩ := mem_filter.1 (mem_of_mem_filter hta)
      have hslinks := (hs.links.trans (Moved.setAlias hp).links).trans hlinks
      -- the rows that link to a row upstream are upstream
      have hup : ∀ ta' ∈ s.tagAliases,
          decide (ta'.aliasId = ta.aliasedId ∧ ta'.tagDomainId = ta.tagDomainId) = true →
          Upstream table domain aliased ta' := fun ta' hta' hlink => by
        obtain ⟨hto, hd⟩ := of_decide_eq_true hlink
        obtain ⟨htd, q, hq, hqd, hqe, hpath⟩ := hp ta hmem hpta
        refine ⟨hd.trans htd, q, hq, hqd, hqe, .head ?_ hpath⟩
        exact edgeOf_tagAliases_of_links hslinks ⟨ta', hta', hd.trans htd, rfl, hto⟩
      refine Returns.bind (P := fun s' => Moved table domain aliased e
        (db.setAlias p (some e)).tagAliases s'.tagAliases) ?_ fun s' hs' => ?_
      · unfold tagAliasesAfterUpdateTrigger
        by_cases hrec : s.recursiveAlias (ta.withIdeal (some e))
        · rw [if_pos hrec]
          exact .error
        · rw [if_neg hrec]
          refine (ih _ s hslinks hup).bind fun s' hs' => .ok ?_
          exact hs.trans ((Moved.setAlias hup).trans hs')
      · refine (updateActiveTagMappings_spec _ _ s').returns.mono fun s'' hi => ?_
        obtain ⟨_, _, rfl⟩ := hi
        exact hs'
    refine hloop.bind fun s hs => ?_
    refine (repairParentsOnAlias_spec _ s).returns.mono fun db' hi => ?_
    obtain ⟨_, _, rfl⟩ := hi
    exact hs

theorem tagAliasesAfterInsert_moved (new : TagAlias) (db : Db) :
    Returns (tagAliasesAfterInsert new db) fun db' =>
      Moved db.tagAliases new.tagDomainId new.aliasedId new.effectiveTagId
        (db.setAlias (endsAt new.tagDomainId new.aliasedId) (some new.effectiveTagId)).tagAliases
        db'.tagAliases := by
  have hup : ∀ ta ∈ db.tagAliases, endsAt new.tagDomainId new.aliasedId ta →
      Upstream db.tagAliases new.tagDomainId new.aliasedId ta := fun ta hta hends => by
    obtain ⟨he, hd⟩ := of_decide_eq_true hends
    exact ⟨hd, ta, hta, hd, he, .refl⟩
  have htrigger : Returns (tagAliasesAfterInsertTrigger new db) fun s =>
      Moved db.tagAliases new.tagDomainId new.aliasedId new.effectiveTagId
        (db.setAlias (endsAt new.tagDomainId new.aliasedId) (some new.effectiveTagId)).tagAliases
        s.tagAliases :=
    (updateTagAliasesUpTo_moved _ _ db rfl hup).bind fun s hs => .ok hs
  refine htrigger.bind fun s hs => ?_
  refine (updateActiveTagMappings_spec _ _ s).returns.bind fun s' hi => ?_
  refine (repairParentsOnAlias_spec _ s').returns.mono fun s'' hi' => ?_
  obtain ⟨_, _, rfl⟩ := hi
  obtain ⟨_, _, rfl⟩ := hi'
  exact hs

/-- The rows of `tag_aliases` after an alias is inserted: those that ended at the aliased tag end
where the target ends, and so do some of the rows upstream of them. -/
theorem insertTagAlias_moved {target : TagId} {db db' : Db}
    (hexec : exec (.insertTagAlias domain aliased target) db = .ok db') :
    aliased ≠ target ∧ db.idealOf domain target ≠ some aliased ∧
      ((db.aliasOf? domain aliased ≠ none ∧ db'.tagAliases = db.tagAliases) ∨
        (db.aliasOf? domain aliased = none ∧
          Moved (db.withAlias domain aliased target).tagAliases domain aliased
            (db.resolve domain target)
            ((db.withAlias domain aliased target).setAlias (endsAt domain aliased)
              (some (db.resolve domain target))).tagAliases db'.tagAliases)) := by
  simp only [exec] at hexec
  split_ifs at hexec with hne
  by_cases hd : domain ∈ db.tagDomains
  · by_cases hcycle : db.idealOf domain target = some aliased
    · rw [insertTagAlias, if_neg (not_not.2 hd), tagAliasesBeforeInsertTrigger,
        if_pos hcycle] at hexec
      cases hexec
    · refine ⟨hne, hcycle, ?_⟩
      rw [insertTagAlias_eq hd hne hcycle] at hexec
      by_cases hfree : db.aliasOf? domain aliased = none
      · refine Or.inr ⟨hfree, ?_⟩
        rw [hfree, Option.isSome_none, if_neg Bool.false_ne_true] at hexec
        exact tagAliasesAfterInsert_moved _ _ _ hexec
      · rw [if_pos (Option.isSome_iff_ne_none.2 hfree)] at hexec
        exact Or.inl ⟨hfree, congrArg Db.tagAliases (Except.ok.inj hexec).symm⟩
  · rw [insertTagAlias, if_pos hd] at hexec
    cases hexec

end Moved

/-! ## The statements of the two requests -/

/-- What a statement of `createTagAliases` does to `tag_aliases`, whatever the other tables hold. -/
def aliasStatement (domain : DomainId) (pair : TagId × TagId) (table table' : List TagAlias) :
    Prop :=
  ∃ db db', db.tagAliases = table ∧ exec (.insertTagAlias domain pair.1 pair.2) db = .ok db' ∧
    db'.tagAliases = table'

/-- The pair does not conflict with a row. -/
def aliasFree (domain : DomainId) (pair : TagId × TagId) (table : List TagAlias) : Prop :=
  (domain, pair.1) ∉ table.map key

/-- What a statement of `createTagParents` does to `tag_parents`, whatever the other tables hold. -/
def parentStatement (domain : DomainId) (pair : TagId × TagId) (table table' : List TagParent) :
    Prop :=
  ∃ db db', db.tagParents = table ∧ exec (.insertTagParent domain pair.1 pair.2) db = .ok db' ∧
    db'.tagParents = table'

/-- The pair does not conflict with a row. -/
def parentFree (domain : DomainId) (pair : TagId × TagId) (table : List TagParent) : Prop :=
  (pair.1, pair.2, domain) ∉ table.map TagParent.key

/-- A new row `new` is inserted, and the rows are rewritten with `f` to the end of the target. -/
structure Linked (domain : DomainId) (a b : TagId) (table : List TagAlias) (new : TagAlias)
    (f : TagAlias → TagAlias) : Prop where
  edge : TagAlias.Edge domain new a b
  ne : new.effectiveTagId ≠ a
  resolved : ∀ q ∈ table, q.tagDomainId = domain → q.aliasedId = b →
    q.effectiveTagId = new.effectiveTagId
  unaliased : (domain, b) ∉ table.map key → new.effectiveTagId = b
  moved : ∀ ta ∈ table ++ [new], (f ta = ta ∧ ¬ endsAt domain a ta) ∨
    (f ta = ta.withIdeal (some new.effectiveTagId) ∧ Upstream (table ++ [new]) domain a ta)

variable {domain : DomainId}

/-- **A statement of `createTagAliases`** leaves the table as it was, or links a new row. -/
theorem aliasStatement_cases {pair : TagId × TagId}
    {table table' : List TagAlias} (hu : KeyUnique key table)
    (h : aliasStatement domain pair table table') :
    pair.1 ≠ pair.2 ∧
      (∀ q ∈ table, q.tagDomainId = domain → q.aliasedId = pair.2 → q.effectiveTagId ≠ pair.1) ∧
      ((¬ aliasFree domain pair table ∧ table' = table) ∨
        (aliasFree domain pair table ∧ ∃ new f, Linked domain pair.1 pair.2 table new f ∧
          table' = (table ++ [new]).map f)) := by
  obtain ⟨db, db', rfl, hexec, rfl⟩ := h
  obtain ⟨hne, hcycle, hcases⟩ := insertTagAlias_moved hexec
  have hideal : ∀ q ∈ db.tagAliases, q.tagDomainId = domain → q.aliasedId = pair.2 →
      db.idealOf domain pair.2 = some q.effectiveTagId := by
    rintro q hq rfl hb
    rw [← hb]
    exact idealOf_of_mem hu hq
  refine ⟨hne, fun q hq hd hb heq => hcycle (heq ▸ hideal q hq hd hb), ?_⟩
  rcases hcases with ⟨hsome, heq⟩ | ⟨hnone, hmoved⟩
  · exact Or.inl ⟨fun hfree => hsome (aliasOf?_eq_none.2 hfree), heq⟩
  · refine Or.inr ⟨aliasOf?_eq_none.1 hnone, ?_⟩
    obtain ⟨g, hg, hcase⟩ := hmoved
    refine ⟨db.newAlias domain pair.1 pair.2, _, ⟨⟨rfl, rfl, rfl⟩, ?_, ?_, ?_, ?_⟩,
      hg.trans List.map_map⟩
    · exact Accepts.effective_ne ⟨hnone, hcycle, hne⟩
    · intro q hq hd hb
      show q.effectiveTagId = (db.idealOf domain pair.2).getD pair.2
      rw [hideal q hq hd hb, Option.getD_some]
    · intro hfree
      show (db.idealOf domain pair.2).getD pair.2 = pair.2
      rw [idealOf_eq_none.2 (aliasOf?_eq_none.2 hfree), Option.getD_none]
    · intro ta hta
      have hg := hcase _ (mem_map_of_mem hta)
      by_cases hends : endsAt domain pair.1 ta
      · rw [if_pos hends] at hg
        obtain ⟨he, hd⟩ := of_decide_eq_true hends
        refine Or.inr ⟨?_, hd, ta, hta, hd, he, .refl⟩
        rw [comp_apply, if_pos hends]
        rcases hg with hg | hg
        · exact hg
        · exact hg.1
      · rw [if_neg hends] at hg
        rw [comp_apply, if_neg hends]
        rcases hg with hg | hg
        · exact Or.inl ⟨hg, hends⟩
        · exact Or.inr hg

namespace Linked

variable {domain : DomainId} {a b : TagId} {table : List TagAlias} {new : TagAlias}
  {f : TagAlias → TagAlias}

section

variable (h : Linked domain a b table new f)
include h

theorem of_mem {ta : TagAlias} (hta : ta ∈ table ++ [new]) :
    (f ta).key = ta.key ∧ TagAlias.Edge domain (f ta) = TagAlias.Edge domain ta := by
  rcases h.moved ta hta with ⟨hf, _⟩ | ⟨hf, _⟩
  · rw [hf]
    exact ⟨rfl, rfl⟩
  · rw [hf]
    exact ⟨rfl, rfl⟩

theorem key_new : new.key = (domain, a) :=
  Prod.ext h.edge.1 h.edge.2.1

theorem edge_new : TagAlias.Edge domain new = fun x y => x = a ∧ y = b := by
  obtain ⟨hd, rfl, rfl⟩ := h.edge
  funext x y
  simp only [TagAlias.Edge, hd, true_and, eq_comm]

theorem contract {free : Prop} (hfree : free) (hkey : (domain, a) ∉ table.map key) :
    Contract key (TagAlias.Edge domain) a b free table ((table ++ [new]).map f) where
  unique := fun hu => by
    have hkeys : ((table ++ [new]).map f).map key = (table ++ [new]).map key := by
      rw [List.map_map]
      exact List.map_congr_left fun ta hta => (h.of_mem hta).1
    rw [KeyUnique, hkeys]
    exact hu.append_singleton (h.key_new ▸ hkey)
  old := fun ta hta =>
    have hmem := mem_append_left [new] hta
    ⟨f ta, mem_map_of_mem hmem, h.of_mem hmem⟩
  mem := fun ta' hta' => by
    obtain ⟨ta, hta, rfl⟩ := mem_map.1 hta'
    obtain ⟨hk, he⟩ := h.of_mem hta
    rcases mem_append.1 hta with hta | hta
    · exact Or.inl ⟨ta, hta, hk.symm, he.symm⟩
    · obtain rfl := mem_singleton.1 hta
      exact Or.inr ⟨hfree, hk ▸ h.key_new ▸ hkey, he.trans h.edge_new⟩
  inserted := fun _ => by
    have hmem : new ∈ table ++ [new] := mem_append_right _ (mem_singleton_self _)
    obtain ⟨hk, he⟩ := h.of_mem hmem
    exact ⟨f new, mem_map_of_mem hmem, hk ▸ h.key_new ▸ hkey, he.trans h.edge_new⟩

end

end Linked

theorem aliasStatement_contract (pair : TagId × TagId)
    (table table' : List TagAlias) (hu : KeyUnique key table)
    (h : aliasStatement domain pair table table') :
    Contract key (TagAlias.Edge domain) pair.1 pair.2 (aliasFree domain pair table)
      table table' := by
  obtain ⟨_, _, ⟨hfree, rfl⟩ | ⟨hfree, new, f, hlinked, rfl⟩⟩ := aliasStatement_cases hu h
  · exact .unchanged hfree
  · exact hlinked.contract hfree hfree

/-! ## The chains that a transaction resolves -/

/-- In the view of a transaction, a chain without a link of the other transaction is resolved. -/
def Follows (domain : DomainId) (s : Store TagAlias (DomainId × TagId)) (i : Bool) : Prop :=
  ∀ ta ∈ s.view key i, ta.tagDomainId = domain → ∀ last,
    TransGen (s.Without key (TagAlias.Edge domain) i) ta.aliasedId last →
    (∀ x, ¬ s.Graph (TagAlias.Edge domain) last x) → ta.effectiveTagId = last

section Follows

variable {db : Db} {domain : DomainId} {s : Store TagAlias (DomainId × TagId)} {i : Bool}
  {x y b a last : TagId} {table : List TagAlias} {ta : TagAlias} {free : Prop}

theorem edgeOf_tagAliases_iff (hu : KeyUnique key db.tagAliases) :
    EdgeOf (TagAlias.Edge domain) db.tagAliases x y ↔ db.aliasNext domain x = some y := by
  constructor
  · rintro ⟨ta, hta, rfl, rfl, rfl⟩
    rw [Db.aliasNext, aliasOf?_of_mem hu hta, Option.map_some]
  · intro h
    obtain ⟨ta, hta, rfl⟩ := Option.map_eq_some_iff.1 h
    obtain ⟨hmem, hd, hx⟩ := of_aliasOf?_eq_some hta
    exact ⟨ta, hmem, hd, hx, rfl⟩

/-- A chain of aliases is a path of links. -/
theorem ends_iff_path (hu : KeyUnique key db.tagAliases) :
    Ends (db.aliasNext domain) x y ↔
      ReflTransGen (EdgeOf (TagAlias.Edge domain) db.tagAliases) x y ∧
        db.aliasNext domain y = none := by
  constructor
  · intro h
    refine ⟨?_, h.next_end⟩
    induction h with
    | stop _ => exact .refl
    | follow hnext _ ih => exact .head ((edgeOf_tagAliases_iff hu).2 hnext) ih
  · rintro ⟨hpath, hnone⟩
    induction hpath using ReflTransGen.head_induction_on with
    | refl => exact .stop hnone
    | head hedge _ ih => exact .follow ((edgeOf_tagAliases_iff hu).1 hedge) ih

/-- In a resolved state a row leads to its effective tag. -/
theorem Resolved.path_effectiveTagId (h : Resolved db) (hta : ta ∈ db.tagAliases) :
    ReflTransGen (EdgeOf (TagAlias.Edge ta.tagDomainId) db.tagAliases) ta.aliasedId
      ta.effectiveTagId :=
  ((ends_iff_path h.unique).1 (h.ends_effectiveTagId hta)).1

/-- The links of all versions are the links of one function. -/
theorem graph_functional {start : List TagAlias}
    (hs : s.Sound key (TagAlias.Edge domain) start) {z : TagId}
    (hy : s.Graph (TagAlias.Edge domain) x y) (hz : s.Graph (TagAlias.Edge domain) x z) :
    y = z := by
  obtain ⟨ta, hta, hedge⟩ := hy
  obtain ⟨ta', hta', hedge'⟩ := hz
  have hkey : ta.key = ta'.key :=
    Prod.ext (hedge.1.trans hedge'.1.symm) (hedge.2.1.trans hedge'.2.1.symm)
  rw [← hs.edges ta hta ta' hta' hkey] at hedge'
  exact hedge.2.2.symm.trans hedge'.2.2

/-- Of two paths of a function, the one that goes to the end passes through the end of the other. -/
theorem path_through {r g : TagId → TagId → Prop} (hr : ∀ x y z, r x y → r x z → y = z)
    (hg : ∀ x y, g x y → r x y) (hxy : ReflTransGen r x y)
    (hlast : ReflTransGen g x last) (hend : ∀ z, ¬ r last z) : ReflTransGen g y last := by
  induction hxy using ReflTransGen.head_induction_on with
  | refl => exact hlast
  | head hedge _ ih =>
    rcases ReflTransGen.cases_head hlast with rfl | ⟨z, hz, hrest⟩
    · exact (hend _ hedge).elim
    · obtain rfl := hr _ _ _ hedge (hg _ _ hz)
      exact ih hrest

theorem follows_start (h : Resolved db) : Follows domain (Store.start db.tagAliases) i := by
  intro ta hta hd last hpath hend
  have hmem : ta ∈ db.tagAliases := by simpa [Store.view, Store.start] using hta
  have hgraph : ∀ {x y}, (Store.start db.tagAliases : Store TagAlias (DomainId × TagId)).Graph
      (TagAlias.Edge domain) x y ↔ EdgeOf (TagAlias.Edge domain) db.tagAliases x y := by
    intro x y
    simp [Store.Graph, Store.versions, Store.start]
  subst hd
  have hlast : Ends (db.aliasNext ta.tagDomainId) ta.aliasedId last := by
    refine (ends_iff_path h.unique).2 ⟨hpath.to_reflTransGen.mono (fun x y hxy => ?_) _ _, ?_⟩
    · obtain ⟨r, hr, hedge, _⟩ := hxy
      exact hgraph.1 ⟨r, hr, hedge⟩
    · cases hnext : db.aliasNext ta.tagDomainId last with
      | none => rfl
      | some z => exact (hend z (hgraph.2 ((edgeOf_tagAliases_iff h.unique).2 hnext))).elim
  exact (h.ends_effectiveTagId hmem).unique hlast

/-- A statement of the other transaction. -/
theorem Follows.write_other
    (h : Follows domain s (!i))
    (hc : Contract key (TagAlias.Edge domain) a b free (s.view key i) table) :
    Follows domain (s.write key i table) (!i) := by
  intro ta hta hd last hpath hend
  rw [Store.view_write_other] at hta
  refine h ta hta hd last ?_ fun x hx => hend x ((Store.graph_write hc _ _).2 (Or.inl hx))
  exact TransGen.mono (fun _ _ hxy => Store.without_write_other hc hxy) _ _ hpath

variable {start : List TagAlias} {pair : TagId × TagId} {new : TagAlias} {f : TagAlias → TagAlias}

/-- A row of the view on a path that is not at its end. -/
theorem exists_row_of_path (hs : s.Sound key (TagAlias.Edge domain) start)
    (h : TransGen (s.Without key (TagAlias.Edge domain) i) x y) :
    ∃ ta ∈ s.view key i, ta.tagDomainId = domain ∧ ta.aliasedId = x := by
  obtain ⟨z, hxz, _⟩ := TransGen.head'_iff.1 h
  obtain ⟨ta, hta, hd, hx, _⟩ := hs.edgeOf_view hxz
  exact ⟨ta, hta, hd, hx⟩

/-- A pair that does not conflict and can be written is not aliased by any transaction. -/
theorem not_graph_of_unlocked (hfree : free)
    (hc : Contract key (TagAlias.Edge domain) a b free (s.view key i) table)
    (hl : s.Unlocked key i table) :
    ¬ s.Graph (TagAlias.Edge domain) a x := by
  rintro ⟨ta, hta, hd, ha, _⟩
  obtain ⟨new, hnew, hkey, hedge⟩ := hc.inserted hfree
  have hnewkey : new.key = ta.key := by
    have hab : TagAlias.Edge domain new a b := by
      rw [hedge]
      exact ⟨rfl, rfl⟩
    exact Prod.ext (hab.1.trans hd.symm) (hab.2.1.trans ha.symm)
  rcases Store.key_of_mem_versions key i hta with h | h
  · exact hkey (hnewkey ▸ h)
  · refine hl new (mem_filter.2 ⟨hnew, decide_eq_true fun hrows => ?_⟩) (hnewkey ▸ h)
    exact hkey (Store.mem_map_key_view (mem_map_of_mem hrows))

section

variable (hlinked : Linked domain a b (s.view key i) new f) (h : Follows domain s i)
  (hs : s.Sound key (TagAlias.Edge domain) start)
include hlinked h hs

/-- The target of a new alias ends where the new row ends. -/
theorem Linked.effective_eq (hpath : ReflTransGen (s.Without key (TagAlias.Edge domain) i) b last)
    (hend : ∀ x, ¬ s.Graph (TagAlias.Edge domain) last x) : new.effectiveTagId = last := by
  rcases reflTransGen_iff_eq_or_transGen.1 hpath with rfl | hpath
  · refine hlinked.unaliased fun hkey => ?_
    obtain ⟨ta, hta, hk⟩ := mem_map.1 hkey
    obtain ⟨hd, hx⟩ := Prod.mk.inj hk
    exact hend ta.aliasId ⟨ta, Store.versions_of_mem_view hta, hd, hx, rfl⟩
  · obtain ⟨q, hq, hd, rfl⟩ := exists_row_of_path hs hpath
    rw [← hlinked.resolved q hq hd rfl]
    exact h q hq hd last hpath hend

/-- A new alias resolves the chains that it extends, and leaves the others as they are. -/
theorem Linked.follows (ha : ∀ x, ¬ s.Graph (TagAlias.Edge domain) a x)
    (hend : ∀ x, ¬ AddEdge (s.Graph (TagAlias.Edge domain)) a b last x)
    (hta : ta ∈ s.view key i ++ [new]) (hd : ta.tagDomainId = domain)
    (hpath : TransGen (AddEdge (s.Without key (TagAlias.Edge domain) i) a b)
      ta.aliasedId last) : (f ta).effectiveTagId = last := by
  have hend' : ∀ x, ¬ s.Graph (TagAlias.Edge domain) last x := fun x hx => hend x (Or.inl hx)
  have hwithout : ∀ x y, s.Without key (TagAlias.Edge domain) i x y →
      s.Graph (TagAlias.Edge domain) x y := fun x y ⟨r, hr, hxy, _⟩ => ⟨r, hr, hxy⟩
  rcases transGen_addEdge hpath with hpath | ⟨hxa, hblast⟩
  · -- the chain does not reach the new row
    have hview : ta ∈ s.view key i := by
      rcases mem_append.1 hta with hta | hta
      · exact hta
      · obtain ⟨z, hz, _⟩ := TransGen.head'_iff.1 hpath
        rw [mem_singleton.1 hta, hlinked.edge.2.1] at hz
        exact (ha z (hwithout _ _ hz)).elim
    have heff := h ta hview hd last hpath hend'
    rcases hlinked.moved ta hta with ⟨hf, _⟩ | ⟨_, _, q, hq, hqd, hqe, hup⟩
    · rw [hf, heff]
    · -- a row upstream would end at the aliased tag, which is not the end of its chain
      have hqview : q ∈ s.view key i := by
        rcases mem_append.1 hq with hq | hq
        · exact hq
        · exact absurd (mem_singleton.1 hq ▸ hqe) hlinked.ne
      have hup' : ReflTransGen (AddEdge (s.Graph (TagAlias.Edge domain)) a b) ta.aliasedId
          q.aliasedId := by
        refine ReflTransGen.mono (fun x y ⟨r, hr, hxy⟩ => ?_) _ _ hup
        rcases mem_append.1 hr with hr | hr
        · exact Or.inl ⟨r, Store.versions_of_mem_view hr, hxy⟩
        · rw [mem_singleton.1 hr, hlinked.edge_new] at hxy
          exact Or.inr hxy
      have hfun : ∀ x y z, AddEdge (s.Graph (TagAlias.Edge domain)) a b x y →
          AddEdge (s.Graph (TagAlias.Edge domain)) a b x z → y = z := by
        rintro x y z (hy | ⟨hxa, hyb⟩) (hz | ⟨hxa', hzb⟩)
        · exact graph_functional hs hy hz
        · exact (ha y (hxa' ▸ hy)).elim
        · exact (ha z (hxa ▸ hz)).elim
        · exact hyb.trans hzb.symm
      have hq' := path_through hfun (fun x y hxy => Or.inl (hwithout x y hxy)) hup'
        hpath.to_reflTransGen hend
      rcases reflTransGen_iff_eq_or_transGen.1 hq' with hlast | hq'
      · refine (hend q.aliasId (Or.inl ⟨q, Store.versions_of_mem_view hqview, hqd, ?_, rfl⟩)).elim
        exact hlast.symm
      · have hlast := (h q hqview hqd last hq' hend').symm.trans hqe
        exact (hend b (Or.inr ⟨hlast, rfl⟩)).elim
  · -- the chain runs through the new row
    have hnew := hlinked.effective_eq h hs hblast hend'
    rcases hlinked.moved ta hta with ⟨hf, hnot⟩ | ⟨hf, _⟩
    · rw [hf]
      rcases mem_append.1 hta with hta | hta
      · refine (hnot (decide_eq_true ⟨?_, hd⟩)).elim
        rcases reflTransGen_iff_eq_or_transGen.1 hxa with hxa | hxa
        · exact (ha ta.aliasId ⟨ta, Store.versions_of_mem_view hta, hd, hxa.symm, rfl⟩).elim
        · exact h ta hta hd a hxa ha
      · rw [mem_singleton.1 hta, hnew]
    · rw [hf]
      exact hnew

end

/-- A statement of one's own. -/
theorem Follows.write (h : Follows domain s i)
    (hs : s.Sound key (TagAlias.Edge domain) start)
    (hx : aliasStatement domain pair (s.view key i) table)
    (hl : s.Unlocked key i table) :
    Follows domain (s.write key i table) i := by
  have hu := hs.keyUnique_view i
  have hc := aliasStatement_contract pair _ _ hu hx
  intro ta' hta' hd last hpath hend
  have hmem := hs.mem_of_mem_view_write hc hta'
  obtain ⟨_, _, ⟨hfree, rfl⟩ | ⟨hfree, new, f, hlinked, rfl⟩⟩ := aliasStatement_cases hu hx
  · refine h ta' hmem hd last (TransGen.mono (fun x y hxy => ?_) _ _ hpath) fun x hx => ?_
    · exact (Store.without_write hc hxy).resolve_right fun hnew => hfree hnew.1
    · exact hend x ((Store.graph_write hc _ _).2 (Or.inl hx))
  · obtain ⟨ta, hta, rfl⟩ := mem_map.1 hmem
    obtain ⟨hkd, hkx⟩ := Prod.mk.inj (hlinked.of_mem hta).1
    refine hlinked.follows h hs (fun x => not_graph_of_unlocked hfree hc hl) (fun x hx => ?_) hta
      (hkd.symm.trans hd) (hkx ▸ TransGen.mono (fun x y hxy => ?_) _ _ hpath)
    · exact hend x ((Store.graph_write hc _ _).2 (hx.imp_right fun hnew => ⟨hfree, hnew⟩))
    · exact (Store.without_write hc hxy).imp_right And.right

/-- A commit of the other transaction.  Nothing was committed before it, so a row that the
transaction has not written itself is resolved as it was at the start. -/
theorem Follows.commit_other (hr : Resolved db) (h : Follows domain s (!i))
    (h' : Follows domain s i) (hs : s.Sound key (TagAlias.Edge domain) db.tagAliases)
    (hrows : s.rows = db.tagAliases) :
    Follows domain (s.commit key i) (!i) := by
  intro ta hta hd last hpath hend
  have hpath := TransGen.mono (fun x y hxy => Store.without_commit hxy) _ _ hpath
  have hend : ∀ x, ¬ s.Graph (TagAlias.Edge domain) last x :=
    fun x hx => hend x ((Store.graph_commit hs _ _).2 hx)
  rcases Store.mem_view_commit_other hta with hta | ⟨hta, hkey⟩
  · exact h ta hta hd last hpath hend
  · obtain ⟨q, hq, hqd, hqx⟩ := exists_row_of_path hs hpath
    have heff := h q hq hqd last (hqx ▸ hpath) hend
    have hqkey : q.key = ta.key := Prod.ext (hqd.trans hd.symm) hqx
    have hqmem : q ∈ db.tagAliases := by
      rcases Store.mem_view.1 hq with hq | hq
      · exact hrows ▸ hq.1
      · exact (hkey (hqkey ▸ mem_map_of_mem hq)).elim
    have hold := hr.path_effectiveTagId hqmem
    rw [hqd, hqx, heff] at hold
    refine h' ta (Store.mem_view.2 (Or.inr hta)) hd last ?_ hend
    rcases reflTransGen_iff_eq_or_transGen.1 hold with hlast | hold
    · refine (hend q.aliasId ⟨q, Store.versions_of_mem_view hq, hqd, ?_, rfl⟩).elim
      exact hqx.trans hlast.symm
    · refine TransGen.mono (fun x y ⟨r, hr, hxy⟩ => ?_) _ _ hold
      refine ⟨r, (Store.mem_versions i).2 (Or.inl (hrows ▸ hr)), hxy, fun hk => ?_⟩
      exact hs.base _ _ hk (mem_map_of_mem hr)

/-- **A transaction resolves the chains that the other has no part in**, in every interleaving. -/
theorem follows_of_interleaving {meets : Store TagAlias (DomainId × TagId) → Bool → TagId × TagId →
      Prop}
    (hr : Resolved db)
    (h : Interleaving key (aliasStatement domain) meets db.tagAliases s) :
    ∀ i, (s.tx i).committed = false → Follows domain s i := by
  induction h with
  | start => exact fun i _ => follows_start hr
  | @write s j pair table hrun hactive hx hl _ ih =>
    have hs := hrun.sound hr.unique aliasStatement_contract
    intro i hi
    by_cases hij : i = j
    · subst hij
      exact (ih i hactive).write hs hx hl
    · obtain rfl := Bool.eq_not.2 hij
      refine (ih (!j) ?_).write_other (aliasStatement_contract pair _ _ (hs.keyUnique_view j) hx)
      simpa [Store.write] using hi
  | @commit s j hrun hactive ih =>
    have hs := hrun.sound hr.unique aliasStatement_contract
    intro i hi
    by_cases hij : i = j
    · subst hij
      simp [Store.commit] at hi
    · obtain rfl := Bool.eq_not.2 hij
      have hi : (s.tx !j).committed = false := by simpa [Store.commit] using hi
      refine (ih (!j) hi).commit_other hr (ih j hactive) hs (hs.unchanged fun i => ?_)
      by_cases hij : i = j
      · exact hij ▸ hactive
      · obtain rfl := Bool.eq_not.2 hij
        exact hi

/-- `tag_aliases_before_insert_trigger` refuses an alias that closes a chain without a link of the
other transaction. -/
theorem aliasStatement_caught (hr : Resolved db)
    (h : Interleaving key (aliasStatement domain) (fun _ _ _ => True) db.tagAliases s)
    (hactive : (s.tx i).committed = false)
    (hx : aliasStatement domain pair (s.view key i) table)
    (hl : s.Unlocked key i table) (hfree : aliasFree domain pair (s.view key i)) :
    ¬ ReflTransGen (s.Without key (TagAlias.Edge domain) i) pair.2 pair.1 := by
  have hs := h.sound hr.unique aliasStatement_contract
  have hu := hs.keyUnique_view i
  have hc := aliasStatement_contract pair _ _ hu hx
  obtain ⟨hne, hrefused, _⟩ := aliasStatement_cases hu hx
  intro hpath
  rcases reflTransGen_iff_eq_or_transGen.1 hpath with heq | hpath
  · exact hne heq
  · obtain ⟨q, hq, hqd, hqx⟩ := exists_row_of_path hs hpath
    refine hrefused q hq hqd hqx (follows_of_interleaving hr h i hactive q hq hqd
      pair.1 (hqx ▸ hpath) fun x => ?_)
    exact not_graph_of_unlocked hfree hc hl

end Follows

/-- The links of a resolved state are acyclic. -/
theorem Resolved.acyclic_links {db : Db} (h : Resolved db) (domain : DomainId) :
    Acyclic (EdgeOf (TagAlias.Edge domain) db.tagAliases) := by
  intro x hcycle
  obtain ⟨last, hends⟩ := h.ends domain x
  induction hends with
  | stop hnone =>
    obtain ⟨y, hxy, _⟩ := TransGen.head'_iff.1 hcycle
    rw [edgeOf_tagAliases_iff h.unique, hnone] at hxy
    exact nomatch hxy
  | follow hnext _ ih =>
    obtain ⟨y, hxy, hrest⟩ := TransGen.head'_iff.1 hcycle
    obtain rfl := Option.some.inj (hnext.symm.trans ((edgeOf_tagAliases_iff h.unique).1 hxy))
    exact ih (TransGen.tail' hrest hxy)

/-! ## Parents -/

section Parents

variable {domain : DomainId}

/-- **A statement of `createTagParents`** leaves the table as it was, or adds a row. -/
theorem parentStatement_cases {pair : TagId × TagId} {table table' : List TagParent}
    (h : parentStatement domain pair table table') :
    ¬ ReflTransGen (EdgeOf (TagParent.Edge domain) table) pair.1 pair.2 ∧
      ((¬ parentFree domain pair table ∧ table' = table) ∨
        (parentFree domain pair table ∧
          ∃ new : TagParent, new.key = (pair.1, pair.2, domain) ∧ table' = table ++ [new])) := by
  obtain ⟨db, db', rfl, hexec, rfl⟩ := h
  obtain ⟨hne, hcycle, hcases⟩ := exec_insertTagParent_ok hexec
  refine ⟨?_, ?_⟩
  · rw [reflTransGen_iff_eq_or_transGen]
    exact not_or.2 ⟨hne.symm, fun hpath => hcycle (mem_ancestors.2 hpath)⟩
  · rcases hcases with ⟨hkey, rfl⟩ | ⟨hkey, hmapping⟩
    · exact Or.inl ⟨fun hfree => hfree hkey, rfl⟩
    · obtain ⟨_, _, rfl⟩ := (insertParentMapping_spec _ _).of_ok hmapping
      exact Or.inr ⟨hkey, _, rfl, rfl⟩

theorem parentStatement_contract (pair : TagId × TagId) (table table' : List TagParent)
    (_ : KeyUnique TagParent.key table) (h : parentStatement domain pair table table') :
    Contract TagParent.key (TagParent.Edge domain) pair.2 pair.1 (parentFree domain pair table)
      table table' := by
  obtain ⟨_, ⟨hfree, rfl⟩ | ⟨hfree, new, hkey, rfl⟩⟩ := parentStatement_cases h
  · exact .unchanged hfree
  · have hedge : TagParent.Edge domain new = fun x y => x = pair.2 ∧ y = pair.1 := by
      obtain ⟨hp, hc, hd⟩ : new.parentId = pair.1 ∧ new.childId = pair.2 ∧
          new.tagDomainId = domain := by
        simpa [TagParent.key] using hkey
      funext x y
      simp only [TagParent.Edge, hp, hc, hd, true_and, eq_comm]
    exact .append_singleton hfree (hkey ▸ hfree) hedge

end Parents

/-! ## Two requests -/

/-- A statement of `createTagAliases` closes no chain through a row that the other request has
inserted. -/
def ClearAlias (domain : DomainId) (s : Store TagAlias (DomainId × TagId)) (i : Bool)
    (pair : TagId × TagId) : Prop :=
  InsertsClear key (TagAlias.Edge domain) Prod.fst Prod.snd (aliasFree domain) s i pair

/-- A statement of `createTagParents` closes no path through a row that the other request has
inserted. -/
def ClearParent (domain : DomainId) (s : Store TagParent (TagId × TagId × DomainId)) (i : Bool)
    (pair : TagId × TagId) : Prop :=
  InsertsClear TagParent.key (TagParent.Edge domain) Prod.snd Prod.fst (parentFree domain) s i pair

/-- **Two requests leave an acyclic graph exactly when they are clear of each other.**  From every
reachable state, two `createTagAliases` (or two `createTagParents`) that have both committed have
left acyclic aliases (or parents) if and only if each of their statements was clear. -/
theorem relationships_acyclic_iff {domains : List DomainId} {db : Db} (h : Reachable domains db)
    (domain : DomainId) :
    (∀ s, Interleaving key (aliasStatement domain) (fun _ _ _ => True) db.tagAliases s →
      (∀ i, (s.tx i).committed = true) →
      (Acyclic (EdgeOf (TagAlias.Edge domain) s.rows) ↔
        Interleaving key (aliasStatement domain) (ClearAlias domain) db.tagAliases s)) ∧
    ∀ s, Interleaving TagParent.key (parentStatement domain) (fun _ _ _ => True) db.tagParents s →
      (∀ i, (s.tx i).committed = true) →
      (Acyclic (EdgeOf (TagParent.Edge domain) s.rows) ↔
        Interleaving TagParent.key (parentStatement domain) (ClearParent domain) db.tagParents
          s) := by
  have hc := h.consistent
  constructor
  · intro s hs hdone
    rw [← (hs.sound hc.unique aliasStatement_contract).graph_eq hdone]
    refine hs.acyclic_iff hc.unique aliasStatement_contract ?_ (hc.acyclic_links domain)
    intro s hs i pair table hactive hx hl hfree
    exact aliasStatement_caught hc.toResolved hs hactive hx hl hfree
  · intro s hs hdone
    rw [← (hs.sound hc.parentKeys parentStatement_contract).graph_eq hdone]
    refine hs.acyclic_iff hc.parentKeys parentStatement_contract ?_ (h.acyclic_edges domain)
    intro s hs i pair table _ hx _ _ hpath
    have hsound := hs.sound hc.parentKeys parentStatement_contract
    refine (parentStatement_cases hx).1 (ReflTransGen.mono (fun x y hxy => ?_) _ _ hpath)
    exact hsound.edgeOf_view hxy

/-- Two requests, one after the other: the second extends the chain of the first. -/
theorem relationships_acyclic_iff_sequential :
    ∃ s, Interleaving key (aliasStatement 0) (fun _ _ _ => True)
        (Db.empty [0]).tagAliases s ∧
      s.rows = [⟨1, 2, some 3, 0⟩, ⟨2, 3, none, 0⟩] ∧
      (Acyclic (EdgeOf (TagAlias.Edge 0) s.rows) ↔
        Interleaving key (aliasStatement 0) (ClearAlias 0) (Db.empty [0]).tagAliases s) := by
  have hfirst : aliasStatement 0 (1, 2) [] [⟨1, 2, none, 0⟩] :=
    ⟨Db.empty [0], { Db.empty [0] with tagAliases := [⟨1, 2, none, 0⟩] }, rfl,
      by decide +kernel, rfl⟩
  have hsecond : aliasStatement 0 (2, 3) [⟨1, 2, none, 0⟩] [⟨1, 2, some 3, 0⟩, ⟨2, 3, none, 0⟩] :=
    ⟨{ Db.empty [0] with tagAliases := [⟨1, 2, none, 0⟩] },
      { Db.empty [0] with tagAliases := [⟨1, 2, some 3, 0⟩, ⟨2, 3, none, 0⟩] }, rfl,
      by decide +kernel, rfl⟩
  have hrun : Interleaving key (aliasStatement 0) (fun _ _ _ => True)
      (Db.empty [0]).tagAliases _ :=
    .commit true (.write true (2, 3) _ (.commit false (.write false (1, 2) _ .start rfl hfirst
      (by decide +kernel : ∀ r ∈ _, _ ∉ _) trivial) rfl) rfl hsecond
      (by decide +kernel : ∀ r ∈ _, _ ∉ _) trivial) rfl
  exact ⟨_, hrun, rfl, (relationships_acyclic_iff (.empty : Reachable [0] _) 0).1 _ hrun
    (by decide)⟩

/-- Two requests that each insert the pair of the other, the other way round, and both commit. -/
theorem relationships_cyclic :
    (∃ s, Interleaving key (aliasStatement 0) (fun _ _ _ => True)
        (Db.empty [0]).tagAliases s ∧ (∀ i, (s.tx i).committed = true) ∧
      s.rows = [⟨1, 2, none, 0⟩, ⟨2, 1, none, 0⟩] ∧
      ¬ Acyclic (EdgeOf (TagAlias.Edge 0) s.rows)) ∧
    ∃ s, Interleaving TagParent.key (parentStatement 0) (fun _ _ _ => True)
        (Db.empty [0]).tagParents s ∧ (∀ i, (s.tx i).committed = true) ∧
      s.rows = [⟨1, none, 2, none, 0⟩, ⟨2, none, 1, none, 0⟩] ∧
      ¬ Acyclic (EdgeOf (TagParent.Edge 0) s.rows) := by
  have halias : ∀ pair ∈ [(1, 2), (2, 1)], aliasStatement 0 pair [] [⟨pair.1, pair.2, none, 0⟩] :=
    fun pair hpair => ⟨Db.empty [0], { Db.empty [0] with
      tagAliases := [⟨pair.1, pair.2, none, 0⟩] }, rfl, by revert pair; decide +kernel, rfl⟩
  have hparent : ∀ pair ∈ [(1, 2), (2, 1)],
      parentStatement 0 pair [] [⟨pair.1, none, pair.2, none, 0⟩] :=
    fun pair hpair => ⟨Db.empty [0],
      { Db.empty [0] with tagParents := [⟨pair.1, none, pair.2, none, 0⟩] },
      rfl, by revert pair; decide +kernel, rfl⟩
  constructor
  · refine ⟨_, .commit true (.commit false (.write true (2, 1) _ (.write false (1, 2) _ .start rfl
      (halias _ (by decide)) (by decide +kernel : ∀ r ∈ _, _ ∉ _) trivial) rfl
      (halias _ (by decide)) (by decide +kernel : ∀ r ∈ _, _ ∉ _) trivial) rfl) rfl,
      by decide, rfl, not_acyclic_of_edges (x := 1) (y := 2) ?_ (.single ?_)⟩
    · exact ⟨_, mem_cons_self .., rfl, rfl, rfl⟩
    · exact ⟨_, mem_cons_of_mem _ (mem_cons_self ..), rfl, rfl, rfl⟩
  · refine ⟨_, .commit true (.commit false (.write true (2, 1) _ (.write false (1, 2) _ .start rfl
      (hparent _ (by decide)) (by decide +kernel : ∀ r ∈ _, _ ∉ _) trivial) rfl
      (hparent _ (by decide)) (by decide +kernel : ∀ r ∈ _, _ ∉ _) trivial) rfl) rfl,
      by decide, rfl, not_acyclic_of_edges (x := 2) (y := 1) ?_ (.single ?_)⟩
    · exact ⟨_, mem_cons_self .., rfl, rfl, rfl⟩
    · exact ⟨_, mem_cons_of_mem _ (mem_cons_self ..), rfl, rfl, rfl⟩

end Idhan.Tags
