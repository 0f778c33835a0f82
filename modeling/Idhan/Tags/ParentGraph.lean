import Idhan.Lib.Digraph
import Idhan.Tags.Runs

/-!
# The graph along which tags are inherited

`check_parent_cycle` keeps the edges of `parent_id` and `child_id` acyclic.  Tags are inherited
along the edges of the *effective* tags, and an alias merges two nodes of that graph, which no
trigger checks.  This module says exactly when a statement keeps it acyclic (`Separates`).

* `Accepts.inherits_iff`: an alias merges its tag into the effective tag of its target.
* `inherits_withParent`: an edge is added between the effective tags.
* `Reachable.acyclic_edges`: the edges that are checked stay acyclic.
* `exec_acyclic_iff`: a statement keeps the graph acyclic exactly when it separates.
* `inherits_acyclic_iff`: a run keeps it acyclic while, and only while, its statements separate.
-/

namespace Idhan.Tags

open Relation List

/-- The effective tag of a tag. -/
def Db.resolve (db : Db) (domain : DomainId) (tag : TagId) : TagId :=
  (db.idealOf domain tag).getD tag

/-- The record that carries `child` inherits `parent`: an edge between the effective tags of a row
of `tag_parents`. -/
def Db.Inherits (db : Db) (domain : DomainId) (child parent : TagId) : Prop :=
  ∃ tp ∈ db.tagParents, tp.tagDomainId = domain ∧ tp.effectiveChildId = child ∧
    tp.effectiveParentId = parent

/-- The statement does not close a cycle of the effective tags: the effective tag of a new parent is
not, and does not inherit, that of the child; and of a new alias and the effective tag of its
target, neither inherits the other. -/
def Separates (db : Db) : Op → Prop
  | .insertTagParent domain parent child =>
      ¬ ReflTransGen (db.Inherits domain) (db.resolve domain parent) (db.resolve domain child)
  | .insertTagAlias domain aliased target => db.aliasOf? domain aliased = none →
      ¬ TransGen (db.Inherits domain) aliased (db.resolve domain target) ∧
        ¬ TransGen (db.Inherits domain) (db.resolve domain target) aliased
  | _ => True

variable {db db' : Db} {domain : DomainId} {target parent child aliased : TagId} {d : DomainId}
  {y x : TagId} {table : List TagParent} {op : Op} {domains : List DomainId}

theorem Resolved.inherits_iff (h : Resolved db) :
    db.Inherits domain child parent ↔ ∃ p c, (p, c, domain) ∈ db.tagParents.map TagParent.key ∧
      db.resolve domain c = child ∧ db.resolve domain p = parent := by
  have heff : ∀ tp ∈ db.tagParents, tp.effectiveChildId = db.resolve tp.tagDomainId tp.childId ∧
      tp.effectiveParentId = db.resolve tp.tagDomainId tp.parentId := fun tp htp => by
    rw [TagParent.effectiveChildId, TagParent.effectiveParentId, h.children tp htp,
      h.parents tp htp]
    exact ⟨rfl, rfl⟩
  constructor
  · rintro ⟨tp, htp, rfl, rfl, rfl⟩
    exact ⟨_, _, mem_map.2 ⟨tp, htp, rfl⟩, (heff tp htp).1.symm, (heff tp htp).2.symm⟩
  · rintro ⟨p, c, hkey, rfl, rfl⟩
    obtain ⟨tp, htp, hk⟩ := mem_map.1 hkey
    obtain ⟨rfl, rfl, rfl⟩ : tp.parentId = p ∧ tp.childId = c ∧ tp.tagDomainId = domain := by
      simpa [TagParent.key] using hk
    exact ⟨tp, htp, rfl, heff tp htp⟩

/-- Two states with the same edges and the same effective tags have the same graph. -/
theorem Resolved.inherits_congr (h : Resolved db) (h' : Resolved db')
    (hkeys : db'.tagParents.map TagParent.key = db.tagParents.map TagParent.key)
    (hres : ∀ x, db'.resolve domain x = db.resolve domain x) (child parent : TagId) :
    db'.Inherits domain child parent ↔ db.Inherits domain child parent := by
  rw [h.inherits_iff, h'.inherits_iff, hkeys]
  simp only [hres]

/-! ## A new alias -/

section

variable (ha : Accepts db domain aliased target) (h : Resolved db) (h' : Resolved db')
  (hf : SameFacts (db.addAlias domain aliased target) db')
include ha h h' hf

/-- The effective tags after a new alias. -/
theorem Accepts.resolve_eq (d : DomainId) (x : TagId) :
    db'.resolve d x = if d = domain ∧ db.resolve d x = aliased then db.resolve domain target
      else db.resolve d x := by
  have hends := ha.ends_withAlias h (h.ends_getD d x)
  refine h'.getD_idealOf (hends.congr fun y => ?_)
  rw [hf.aliasNext_eq, (sameFacts_withAlias db domain aliased target).aliasNext_eq]

/-- **A new alias merges two nodes.** -/
theorem Accepts.inherits_iff (child parent : TagId) :
    db'.Inherits domain child parent ↔
      Merge (db.Inherits domain) aliased (db.resolve domain target) child parent := by
  have hres : ∀ x, db'.resolve domain x =
      if db.resolve domain x = aliased then db.resolve domain target else db.resolve domain x :=
    fun x => by simpa using ha.resolve_eq h h' hf domain x
  rw [h'.inherits_iff, hf.parents]
  constructor
  · rintro ⟨p, c, hkey, rfl, rfl⟩
    exact ⟨_, _, h.inherits_iff.2 ⟨p, c, hkey, rfl, rfl⟩, (hres c).symm, (hres p).symm⟩
  · rintro ⟨x, y, hxy, rfl, rfl⟩
    obtain ⟨p, c, hkey, rfl, rfl⟩ := h.inherits_iff.1 hxy
    exact ⟨p, c, hkey, hres c, hres p⟩

theorem Accepts.inherits_of_ne (hd : d ≠ domain) (child parent : TagId) :
    db'.Inherits d child parent ↔ db.Inherits d child parent := by
  refine h.inherits_congr h' hf.parents (fun x => ?_) child parent
  rw [ha.resolve_eq h h' hf, if_neg fun hh => hd hh.1]

end

/-! ## A deleted alias -/

section

variable (h : Resolved db) (h' : Resolved db')
  (hf : SameFacts (db.withoutAlias domain aliased target) db')
include h h' hf

/-- The effective tag of the effective tag that a tag had with fewer aliases. -/
theorem resolve_resolve_withoutAlias (d : DomainId) (x : TagId) :
    db.resolve d (db'.resolve d x) = db.resolve d x := by
  refine (h.getD_idealOf (Ends.of_fewer (h'.ends_getD d x) (fun y t ht => ?_)
    (h.ends_getD d _))).symm
  rw [hf.aliasNext_eq] at ht
  obtain ⟨ta, hta, rfl⟩ := Option.map_eq_some_iff.1 ht
  obtain ⟨hmem, rfl, rfl⟩ := of_aliasOf?_eq_some hta
  rw [Db.aliasNext, aliasOf?_of_mem h.unique (mem_of_mem_filter hmem), Option.map_some]

/-- **A deleted alias splits a node**, and the graph stays acyclic. -/
theorem acyclic_withoutAlias (hacyclic : Acyclic (db.Inherits d)) : Acyclic (db'.Inherits d) := by
  refine hacyclic.of_hom (db.resolve d) fun x y hxy => ?_
  obtain ⟨p, c, hkey, rfl, rfl⟩ := h'.inherits_iff.1 hxy
  rw [hf.parents] at hkey
  exact h.inherits_iff.2 ⟨p, c, hkey, (resolve_resolve_withoutAlias h h' hf d c).symm,
    (resolve_resolve_withoutAlias h h' hf d p).symm⟩

end

/-! ## Parents -/

theorem inherits_withParent (hi : InheritedOnly
      (db.withParent domain parent child) db') (d : DomainId) (x y : TagId) :
    db'.Inherits d x y ↔
      db.Inherits d x y ∨ domain = d ∧ db.resolve domain child = x ∧ db.resolve domain parent =
        y := by
  obtain ⟨rows, deltas, rfl⟩ := hi
  exact edgeOf_concat (E := fun (tp : TagParent) x y => tp.tagDomainId = d ∧
    tp.effectiveChildId = x ∧ tp.effectiveParentId = y)

/-- The graph is read off `tag_parents`. -/
theorem inherits_eq_of_tagParents (h : db'.tagParents = db.tagParents) :
    db'.Inherits = db.Inherits := by
  unfold Db.Inherits
  rw [h]

/-! ## The edges that are checked -/

/-- The edge of a row of `tag_parents`, as `check_parent_cycle` walks it. -/
def TagParent.Edge (domain : DomainId) (tp : TagParent) (child parent : TagId) : Prop :=
  tp.tagDomainId = domain ∧ tp.childId = child ∧ tp.parentId = parent

theorem edgeOf_tagParents_iff :
    EdgeOf (TagParent.Edge domain) table child parent ↔
      (parent, child, domain) ∈ table.map TagParent.key := by
  rw [mem_map]
  constructor
  · rintro ⟨tp, htp, rfl, rfl, rfl⟩
    exact ⟨tp, htp, rfl⟩
  · rintro ⟨tp, htp, hkey⟩
    obtain ⟨hp, hc, hd⟩ : tp.parentId = parent ∧ tp.childId = child ∧ tp.tagDomainId = domain := by
      simpa [TagParent.key] using hkey
    exact ⟨tp, htp, hd, hc, hp⟩

theorem edgeOf_tagParents_of_keys {table' : List TagParent}
    (hkeys : table'.map TagParent.key = table.map TagParent.key) (x y : TagId)
    (h : EdgeOf (TagParent.Edge domain) table' x y) : EdgeOf (TagParent.Edge domain) table x y := by
  rw [edgeOf_tagParents_iff] at h ⊢
  rwa [← hkeys]

theorem mem_rawParents :
    parent ∈ db.rawParents domain child ↔
      EdgeOf (TagParent.Edge domain) db.tagParents child parent := by
  simp only [Db.rawParents, mem_map, mem_filter, decide_eq_true_eq, EdgeOf,
    TagParent.Edge]
  constructor
  · rintro ⟨tp, ⟨htp, hc, hd⟩, hp⟩
    exact ⟨tp, htp, hd, hc, hp⟩
  · rintro ⟨tp, htp, hd, hc, hp⟩
    exact ⟨tp, ⟨htp, hc, hd⟩, hp⟩

/-- As many rounds as there are edges find all tags above some tags. -/
theorem mem_reachUpTo_rawParents {tags : List TagId} :
    y ∈ reachUpTo (db.rawParents domain) db.tagParents.length tags ↔
      ∃ x ∈ tags, ReflTransGen (EdgeOf (TagParent.Edge domain) db.tagParents) x y := by
  have htargets : ∀ x y, y ∈ db.rawParents domain x → y ∈ db.tagParents.map (·.parentId) :=
    fun x y hy => by
      obtain ⟨tp, htp, rfl⟩ := mem_map.1 hy
      exact mem_map_of_mem (mem_of_mem_filter htp)
  have hrel : (fun x y => y ∈ db.rawParents domain x) =
      EdgeOf (TagParent.Edge domain) db.tagParents :=
    funext fun x => funext fun y => propext mem_rawParents
  rw [mem_reachUpTo htargets (length_map _).le, hrel]

/-- The recursive query of `check_parent_cycle` finds all tags above a tag. -/
theorem mem_ancestors :
    y ∈ db.ancestors domain x ↔ TransGen (EdgeOf (TagParent.Edge domain) db.tagParents) x y := by
  rw [Db.ancestors, mem_reachUpTo_rawParents, TransGen.head'_iff]
  exact exists_congr fun z => and_congr_left fun _ => mem_rawParents

/-- A statement keeps the edges that are checked acyclic. -/
theorem exec_acyclic_edges (h : Consistent db)
    (hacyclic : ∀ d, Acyclic (EdgeOf (TagParent.Edge d) db.tagParents))
    (hexec : exec op db = .ok db') (d : DomainId) :
    Acyclic (EdgeOf (TagParent.Edge d) db'.tagParents) := by
  cases op with
  | insertTagMappings _ | deleteTagMappings _ | insertFileInfo _ | accumulateTagCountDelta =>
    rw [(exec_onMappings rfl hexec).2]
    exact hacyclic d
  | insertTagAlias domain aliased target =>
    rcases exec_insertTagAlias_ok h hexec with ⟨_, rfl⟩ | ⟨_, hf⟩
    · exact hacyclic d
    · exact (hacyclic d).mono (edgeOf_tagParents_of_keys hf.parents)
  | deleteTagAlias domain aliased target =>
    have hf := ((deleteTagAlias_spec h.toResolved domain aliased target).of_ok hexec).2
    exact (hacyclic d).mono (edgeOf_tagParents_of_keys hf.parents)
  | insertTagParent domain parent child =>
    obtain ⟨hne, hcycle, ⟨_, rfl⟩ | ⟨_, hmapping⟩⟩ := exec_insertTagParent_ok hexec
    · exact hacyclic d
    · obtain ⟨_, _, rfl⟩ := (insertParentMapping_spec _ _).of_ok hmapping
      by_cases hd : domain = d
      · subst hd
        rw [mem_ancestors] at hcycle
        have hpath :
            ¬ ReflTransGen (EdgeOf (TagParent.Edge domain) db.tagParents) parent child := by
          rw [reflTransGen_iff_eq_or_transGen]
          exact not_or.2 ⟨hne.symm, hcycle⟩
        refine ((acyclic_addEdge_iff (hacyclic domain)).2 hpath).mono fun x y hxy => ?_
        exact (edgeOf_concat.1 hxy).imp_right fun hnew => ⟨hnew.2.1.symm, hnew.2.2.symm⟩
      · exact (hacyclic d).mono fun x y hxy => (edgeOf_concat.1 hxy).resolve_right fun hnew =>
          hd hnew.1
  | deleteTagParent domain parent child =>
    obtain ⟨_, _, rfl⟩ := (deleteTagParent_spec domain parent child db).of_ok hexec
    exact (hacyclic d).mono fun x y ⟨tp, htp, hedge⟩ => ⟨tp, mem_of_mem_filter htp, hedge⟩

/-- **The edges that are checked are acyclic** in every reachable state. -/
theorem Reachable.acyclic_edges (h : Reachable domains db)
    (d : DomainId) : Acyclic (EdgeOf (TagParent.Edge d) db.tagParents) := by
  induction h generalizing d with
  | empty => exact .of_isEmpty fun _ _ ⟨_, htp, _⟩ => not_mem_nil htp
  | step op hreach hexec ih => exact exec_acyclic_edges hreach.consistent ih hexec d
  | rolledBack _ _ ih => exact ih d

/-! ## Runs -/

/-- **A statement keeps the graph acyclic exactly when it separates.** -/
theorem exec_acyclic_iff (h : Consistent db) (hacyclic : ∀ d, Acyclic (db.Inherits d))
    (hexec : exec op db = .ok db') : (∀ d, Acyclic (db'.Inherits d)) ↔ Separates db op := by
  have h' := exec_consistent h hexec
  cases op with
  | insertTagMappings _ | deleteTagMappings _ | insertFileInfo _ | accumulateTagCountDelta =>
    refine ⟨fun _ => trivial, fun _ d => ?_⟩
    rw [inherits_eq_of_tagParents (exec_onMappings rfl hexec).2]
    exact hacyclic d
  | insertTagAlias domain aliased target =>
    rcases exec_insertTagAlias_ok h hexec with ⟨hsome, rfl⟩ | ⟨ha, hf⟩
    · exact ⟨fun _ hnone => absurd hnone hsome, fun _ => hacyclic⟩
    · have hmerge : db'.Inherits domain =
          Merge (db.Inherits domain) aliased (db.resolve domain target) :=
        funext fun x => funext fun y =>
          propext (ha.inherits_iff h.toResolved h'.toResolved hf x y)
      constructor
      · intro hall _
        exact (acyclic_merge_iff (hacyclic domain)).1 (hmerge ▸ hall domain)
      · intro hsep d
        by_cases hd : d = domain
        · subst hd
          rw [hmerge]
          exact (acyclic_merge_iff (hacyclic d)).2 (hsep ha.free)
        · exact (hacyclic d).mono fun x y hxy =>
            (ha.inherits_of_ne h.toResolved h'.toResolved hf hd x y).1 hxy
  | deleteTagAlias domain aliased target =>
    have hf := ((deleteTagAlias_spec h.toResolved domain aliased target).of_ok hexec).2
    exact ⟨fun _ => trivial, fun _ d =>
      acyclic_withoutAlias h.toResolved h'.toResolved hf (hacyclic d)⟩
  | insertTagParent domain parent child =>
    obtain ⟨_, _, ⟨hkey, rfl⟩ | ⟨_, hmapping⟩⟩ := exec_insertTagParent_ok hexec
    · refine ⟨fun _ hpath => ?_, fun _ => hacyclic⟩
      have hedge : db'.Inherits domain (db'.resolve domain child) (db'.resolve domain parent) :=
        h.inherits_iff.2 ⟨parent, child, hkey, rfl, rfl⟩
      exact hacyclic domain _ (TransGen.tail' hpath hedge)
    · have hi := (insertParentMapping_spec _ _).of_ok hmapping
      have hadd : db'.Inherits domain = AddEdge (db.Inherits domain) (db.resolve domain child)
          (db.resolve domain parent) := by
        funext x y
        simp [inherits_withParent hi, AddEdge, eq_comm]
      constructor
      · intro hall
        exact (acyclic_addEdge_iff (hacyclic domain)).1 (hadd ▸ hall domain)
      · intro hsep d
        by_cases hd : d = domain
        · subst hd
          rw [hadd]
          exact (acyclic_addEdge_iff (hacyclic d)).2 hsep
        · exact (hacyclic d).mono fun x y hxy =>
            ((inherits_withParent hi d x y).1 hxy).resolve_right fun hnew => hd hnew.1.symm
  | deleteTagParent domain parent child =>
    obtain ⟨_, _, rfl⟩ := (deleteTagParent_spec domain parent child db).of_ok hexec
    exact ⟨fun _ => trivial, fun _ d => (hacyclic d).mono fun x y ⟨tp, htp, hedge⟩ =>
      ⟨tp, mem_of_mem_filter htp, hedge⟩⟩

theorem acyclic_of_separates (h : ReachableBy Separates domains db)
    (d : DomainId) : Acyclic (db.Inherits d) := by
  induction h generalizing d with
  | empty => exact .of_isEmpty fun _ _ ⟨_, htp, _⟩ => not_mem_nil htp
  | step op hreach hmeets hexec ih =>
    exact (exec_acyclic_iff hreach.reachable.consistent ih hexec).2 hmeets d
  | rolledBack _ _ ih => exact ih d

/-- **The graph of the effective tags stays acyclic while, and only while, the statements
separate.** In every state reached by statements that separate the graph has no cycle and no
self-loop, and the next statement leaves it so exactly when it separates too. -/
theorem inherits_acyclic_iff {domains : List DomainId} (h : ReachableBy Separates domains db) :
    (∀ d, Acyclic (db.Inherits d)) ∧
      ∀ op db', exec op db = .ok db' → ((∀ d, Acyclic (db'.Inherits d)) ↔ Separates db op) :=
  ⟨acyclic_of_separates h, fun _ _ hexec =>
    exec_acyclic_iff h.reachable.consistent (acyclic_of_separates h) hexec⟩

/-- A first edge separates, and the graph it leaves is acyclic. -/
theorem inherits_acyclic_iff_first_edge :
    ∃ db, exec (.insertTagParent 0 2 1) (Db.empty [0]) = .ok db ∧
      db.tagParents = [⟨2, none, 1, none, 0⟩] ∧ Acyclic (db.Inherits 0) ∧
      ∀ db', exec (.insertTagAlias 0 2 1) db = .ok db' →
        ((∀ d, Acyclic (db'.Inherits d)) ↔ Separates db (.insertTagAlias 0 2 1)) := by
  have hexec : exec (.insertTagParent 0 2 1) (Db.empty [0]) =
      .ok { Db.empty [0] with tagParents := [⟨2, none, 1, none, 0⟩] } := by decide +kernel
  have hsep : Separates (Db.empty [0]) (.insertTagParent 0 2 1) := by
    intro hpath
    rcases ReflTransGen.cases_head hpath with heq | ⟨_, ⟨_, htp, _⟩, _⟩
    · exact absurd heq (by decide)
    · exact not_mem_nil htp
  have hiff := inherits_acyclic_iff (ReachableBy.empty.step _ hsep hexec)
  exact ⟨_, hexec, rfl, hiff.1 0, hiff.2 _⟩

theorem not_acyclic_of_edges {r : TagId → TagId → Prop} (hxy : r x y)
    (hyx : ReflTransGen r y x) : ¬ Acyclic r :=
  fun h => h x (TransGen.head' hxy hyx)

/-- Two accepted runs that end in a cycle: an alias of a parent to its child, and an edge between
the effective tags of an edge, the other way round. -/
theorem inherits_cyclic :
    (∃ db, run [.insertTagParent 0 2 1, .insertTagAlias 0 2 1] (Db.empty [0]) = .ok db ∧
      ¬ Acyclic (db.Inherits 0)) ∧
    ∃ db, run [.insertTagAlias 0 2 3, .insertTagParent 0 2 1, .insertTagParent 0 1 3]
        (Db.empty [0]) = .ok db ∧ ¬ Acyclic (db.Inherits 0) := by
  constructor
  · refine ⟨{ Db.empty [0] with
        tagAliases := [⟨2, 1, none, 0⟩]
        tagParents := [⟨2, some 1, 1, none, 0⟩] }, by decide +kernel,
        not_acyclic_of_edges (x := 1) (y := 1) ?_ .refl⟩
    exact ⟨_, mem_cons_self .., rfl, rfl, rfl⟩
  · refine ⟨{ Db.empty [0] with
        tagAliases := [⟨2, 3, none, 0⟩]
        tagParents := [⟨2, some 3, 1, none, 0⟩, ⟨1, none, 3, none, 0⟩] }, by decide +kernel,
      not_acyclic_of_edges (x := 1) (y := 3) ?_ (.single ?_)⟩
    · exact ⟨_, mem_cons_self .., rfl, rfl, rfl⟩
    · exact ⟨_, mem_cons_of_mem _ (mem_cons_self ..), rfl, rfl, rfl⟩

end Idhan.Tags
