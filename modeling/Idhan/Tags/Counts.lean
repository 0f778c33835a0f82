import Mathlib.Data.List.Dedup
import Idhan.Lib.Table
import Idhan.Tags.Schema

/-!
# The tag counts

`active_tag_mappings` and `active_tag_mappings_parents` have statement triggers that append grouped
contributions to `tag_count_delta` (`collect_tag_count_storage` 419, `collect_tag_count_parents`
420), and a worker moves what is pending into `tag_counts` (`accumulate_tag_count_delta.sql`).

A statement trigger is given the transition tables of its statement (`Transition`).  Its rows are
joined with `tag_domains`, grouped by domain and tag and summed, and `tag_count_delta` has a `CHECK`
that refuses a row without a contribution.

`collect_spec` is what the rest of the development uses: a collector returns, it only appends to
`tag_count_delta`, and what it appends sums to the contributions of every live domain.
-/

namespace Idhan.Tags

open List

/-- The transition tables that a statement trigger is given, with the operation that fired it. -/
inductive Transition (ρ : Type) where
  | insert (newMappings : List ρ)
  | delete (oldMappings : List ρ)
  | update (oldMappings newMappings : List ρ)

/-- `CHECK (storage_delta <> 0 OR display_delta <> 0)`, which is also the `HAVING` of the sums. -/
def TagCountDelta.nonzero (c : TagCountDelta) : Bool :=
  c.storageDelta != 0 || c.displayDelta != 0

/-- The pair `(tag_domain_id, tag_id)` that contributions are grouped by. -/
def TagCountDelta.group (c : TagCountDelta) : DomainId × TagId :=
  (c.tagDomainId, c.tagId)

/-- `SELECT tag_id, tag_domain_id, SUM(storage_delta), SUM(display_delta) ... GROUP BY`. -/
def groupDeltas (changes : List TagCountDelta) : List TagCountDelta :=
  (changes.map TagCountDelta.group).dedup.map fun g =>
    { tagId := g.2
      tagDomainId := g.1
      storageDelta := ((changes.filter fun c => c.group = g).map (·.storageDelta)).sum
      displayDelta := ((changes.filter fun c => c.group = g).map (·.displayDelta)).sum }

/-- `INSERT INTO tag_count_delta`. -/
def appendTagCountDelta (rows : List TagCountDelta) : Statement := fun db =>
  if rows.all TagCountDelta.nonzero then
    .ok { db with tagCountDelta := db.tagCountDelta ++ rows }
  else
    .error (.checkViolation "tag_count_delta")

/-- The body shared by the collectors: join the changes with `tag_domains`, group them, keep the
groups that pass the `HAVING` where there is one, and append. -/
def collect (having : Bool) (changes : List TagCountDelta) : Statement := fun db =>
  let grouped := groupDeltas (changes.filter fun c => c.tagDomainId ∈ db.tagDomains)
  appendTagCountDelta (if having then grouped.filter TagCountDelta.nonzero else grouped) db

/-- What a row of `active_tag_mappings` adds to the counts: one stored row of its tag, and one
displayed row of its effective tag. -/
def ActiveTagMapping.changes (sign : ℤ) (m : ActiveTagMapping) : List TagCountDelta :=
  [⟨m.tagId, m.tagDomainId, sign, 0⟩, ⟨m.effectiveTagId, m.tagDomainId, 0, sign⟩]

/-- `collect_tag_count_storage` (419). -/
def collectTagCountStorage : Transition ActiveTagMapping → Statement
  | .insert newMappings => collect false (newMappings.flatMap (·.changes 1))
  | .delete oldMappings => collect false (oldMappings.flatMap (·.changes (-1)))
  | .update oldMappings newMappings =>
      collect true (oldMappings.flatMap (·.changes (-1)) ++ newMappings.flatMap (·.changes 1))

/-- What a row of `active_tag_mappings_parents` adds to the counts: one displayed row. -/
def ActiveTagMappingParent.change (sign : ℤ) (p : ActiveTagMappingParent) : TagCountDelta :=
  ⟨p.tagId, p.tagDomainId, 0, sign⟩

/-- `collect_tag_count_parents` (420).  Updates that only touch the reference count cancel out. -/
def collectTagCountParents : Transition ActiveTagMappingParent → Statement
  | .insert newMappings => collect false (newMappings.map (·.change 1))
  | .delete oldMappings => collect false (oldMappings.map (·.change (-1)))
  | .update oldMappings newMappings =>
      collect true (oldMappings.map (·.change (-1)) ++ newMappings.map (·.change 1))

/-- The primary key of `tag_counts`. -/
def TagCount.key (c : TagCount) : TagId × DomainId :=
  (c.tagId, c.tagDomainId)

/-- The value fits an `INTEGER` column. -/
def fitsInteger (x : ℤ) : Bool :=
  decide (-2 ^ 31 ≤ x ∧ x < 2 ^ 31)

/-- Both columns of a row of `tag_counts` fit. -/
def TagCount.fits (c : TagCount) : Bool :=
  fitsInteger c.storageCount && fitsInteger c.displayCount

/-- `tag_counts.storage_count + EXCLUDED.storage_count`, and the same for the display column. -/
def TagCount.add (old excluded : TagCount) : TagCount :=
  { old with
    storageCount := old.storageCount + excluded.storageCount
    displayCount := old.displayCount + excluded.displayCount }

/-- The sums that `accumulate_tag_count_delta.sql` takes from the pending rows. -/
def pendingCounts (pending : List TagCountDelta) : List TagCount :=
  ((groupDeltas pending).filter TagCountDelta.nonzero).map fun c =>
    ⟨c.tagId, c.tagDomainId, c.storageDelta, c.displayDelta⟩

/-- `accumulate_tag_count_delta.sql`: all pending rows are deleted, and their sums are added to
`tag_counts`.  A sum that does not fit its column raises. -/
def accumulateTagCountDelta : Statement := fun db =>
  let rows := pendingCounts db.tagCountDelta
  let applied := upsert TagCount.key (some TagCount.add) db.tagCounts rows
  if rows.all TagCount.fits && applied.updated.all fun r => r.2.fits then
    .ok { db with tagCountDelta := [], tagCounts := applied.table }
  else
    .error .integerOutOfRange

/-! ## Sums of contributions -/

/-- The two columns of the count tables. -/
inductive Column where
  | storage
  | display

/-- The column of a pending row. -/
def Column.delta : Column → TagCountDelta → ℤ
  | .storage => TagCountDelta.storageDelta
  | .display => TagCountDelta.displayDelta

/-- The sum of a column over the contributions to a tag in a domain. -/
def sumAt (col : Column) (t : TagId) (d : DomainId) (l : List TagCountDelta) : ℤ :=
  ((l.filter fun c => c.group = (d, t)).map col.delta).sum

section sumAt

variable (col : Column) (t : TagId) (d : DomainId)

@[simp] theorem sumAt_nil : sumAt col t d [] = 0 := rfl

theorem sumAt_append (l l' : List TagCountDelta) :
    sumAt col t d (l ++ l') = sumAt col t d l + sumAt col t d l' := by
  simp only [sumAt, filter_append, map_append, sum_append]

theorem sumAt_cons (c : TagCountDelta) (l : List TagCountDelta) :
    sumAt col t d (c :: l) = (if c.group = (d, t) then col.delta c else 0) + sumAt col t d l := by
  unfold sumAt
  by_cases h : c.group = (d, t)
  · rw [if_pos h, filter_cons_of_pos (by simpa using h), map_cons, sum_cons]
  · rw [if_neg h, filter_cons_of_neg (by simpa using h), zero_add]

/-- Rows that contribute nothing may be left out. -/
theorem sumAt_filter {p : TagCountDelta → Bool} {l : List TagCountDelta}
    (h : ∀ c ∈ l, p c = false → c.group = (d, t) → col.delta c = 0) :
    sumAt col t d (l.filter p) = sumAt col t d l := by
  induction l with
  | nil => rfl
  | cons c l ih =>
    have ih := ih fun c' hc' => h c' (mem_cons_of_mem _ hc')
    cases hp : p c with
    | true => rw [filter_cons_of_pos hp, sumAt_cons, sumAt_cons, ih]
    | false =>
      rw [filter_cons_of_neg (by simp [hp]), sumAt_cons, ih]
      by_cases hg : c.group = (d, t)
      · rw [if_pos hg, h c (mem_cons_self ..) hp hg, zero_add]
      · rw [if_neg hg, zero_add]

/-- One row per group, each with a sum of its own. -/
theorem sumAt_map_of_nodup (g : DomainId × TagId → TagCountDelta) (hg : ∀ k, (g k).group = k)
    {ks : List (DomainId × TagId)} (hks : ks.Nodup) :
    sumAt col t d (ks.map g) = if (d, t) ∈ ks then col.delta (g (d, t)) else 0 := by
  induction ks with
  | nil => rfl
  | cons k ks ih =>
    obtain ⟨hk, hks⟩ := nodup_cons.1 hks
    rw [map_cons, sumAt_cons, hg, ih hks]
    by_cases h : k = (d, t)
    · subst h
      simp [hk]
    · have h' : ¬ (d, t) = k := fun e => h e.symm
      simp [h, h']

/-- Grouping keeps every sum. -/
theorem sumAt_groupDeltas (l : List TagCountDelta) :
    sumAt col t d (groupDeltas l) = sumAt col t d l := by
  rw [groupDeltas, sumAt_map_of_nodup _ _ _ _ (fun _ => rfl) (nodup_dedup _)]
  split_ifs with h
  · cases col <;> rfl
  · rw [sumAt, filter_eq_nil_iff.2, map_nil, sum_nil]
    intro c hc hg
    rw [mem_dedup] at h
    exact h (mem_map.2 ⟨c, hc, of_decide_eq_true hg⟩)

theorem Column.delta_eq_zero {c : TagCountDelta} (h : c.nonzero = false) : col.delta c = 0 := by
  rw [TagCountDelta.nonzero, Bool.or_eq_false_iff] at h
  cases col with
  | storage => simpa [Column.delta] using h.1
  | display => simpa [Column.delta] using h.2

/-- The groups that fail the `HAVING` contribute nothing. -/
theorem sumAt_filter_nonzero (l : List TagCountDelta) :
    sumAt col t d (l.filter TagCountDelta.nonzero) = sumAt col t d l :=
  sumAt_filter _ _ _ fun _ _ hc _ => col.delta_eq_zero hc

/-- The join with `tag_domains` keeps every contribution to a live domain. -/
theorem sumAt_filter_live {domains : List DomainId} (hd : d ∈ domains) (l : List TagCountDelta) :
    sumAt col t d (l.filter fun c => c.tagDomainId ∈ domains) = sumAt col t d l := by
  refine sumAt_filter _ _ _ fun c _ hc hg => ?_
  have hcd : c.tagDomainId = d := congrArg Prod.fst hg
  rw [hcd] at hc
  exact absurd hd (of_decide_eq_false hc)

end sumAt

/-! ## The collectors return -/

/-- Contributions of one sign, as those of an insert or of a delete are: a group of them does not
cancel out. -/
def OneSign (changes : List TagCountDelta) : Prop :=
  ∃ s : ℤ, s ≠ 0 ∧ ∀ c ∈ changes, c.storageDelta + c.displayDelta = s

variable {s : ℤ} {changes : List TagCountDelta}

theorem sum_storage_add_sum_display {l : List TagCountDelta}
    (h : ∀ c ∈ l, c.storageDelta + c.displayDelta = s) :
    (l.map (·.storageDelta)).sum + (l.map (·.displayDelta)).sum = l.length * s := by
  induction l with
  | nil => simp
  | cons c l ih =>
    have hc := h c (mem_cons_self ..)
    have ih := ih fun c' hc' => h c' (mem_cons_of_mem _ hc')
    simp only [map_cons, sum_cons, length_cons, Nat.cast_add, Nat.cast_one,
      add_mul, one_mul]
    omega

/-- A group of contributions of one sign passes the `CHECK`. -/
theorem nonzero_of_mem_groupDeltas (h : OneSign changes)
    {c : TagCountDelta} (hc : c ∈ groupDeltas changes) : c.nonzero = true := by
  obtain ⟨s, hs, hsum⟩ := h
  obtain ⟨g, hg, rfl⟩ := mem_map.1 hc
  obtain ⟨c, hcmem, hcg⟩ := mem_map.1 (mem_dedup.1 hg)
  have htotal := sum_storage_add_sum_display (l := changes.filter fun c => c.group = g)
    fun c' hc' => hsum c' (mem_of_mem_filter hc')
  have hpos : (changes.filter fun c => c.group = g).length ≠ 0 := by
    rw [Ne, length_eq_zero_iff, filter_eq_nil_iff]
    exact fun h => h c hcmem (decide_eq_true hcg)
  have hne : ((changes.filter fun c => c.group = g).length : ℤ) * s ≠ 0 :=
    mul_ne_zero (Nat.cast_ne_zero.2 hpos) hs
  rw [← htotal] at hne
  rw [TagCountDelta.nonzero, Bool.or_eq_true]
  by_cases h0 : ((changes.filter fun c => c.group = g).map (·.storageDelta)).sum = 0
  · rw [h0, zero_add] at hne
    exact Or.inr (bne_iff_ne.2 hne)
  · exact Or.inl (bne_iff_ne.2 h0)

/-- The state after a collector has taken the contributions `changes`. -/
def Collected (changes : List TagCountDelta) (db db' : Db) : Prop :=
  ∃ rows, db' = { db with tagCountDelta := db.tagCountDelta ++ rows } ∧
    ∀ col t d, d ∈ db.tagDomains → sumAt col t d rows = sumAt col t d changes

/-- **A collector returns**: no group it appends violates the `CHECK`, and what it appends sums to
the contributions. -/
theorem collect_spec {having : Bool}
    (h : having = true ∨ OneSign changes) (db : Db) :
    Succeeds (collect having changes db) (Collected changes db) := by
  unfold collect
  set live := changes.filter fun c => c.tagDomainId ∈ db.tagDomains with hlive
  have hsum : ∀ col t d, d ∈ db.tagDomains →
      sumAt col t d (groupDeltas live) = sumAt col t d changes := fun col t d hd => by
    rw [sumAt_groupDeltas, hlive, sumAt_filter_live _ _ _ hd]
  cases having with
  | true =>
    refine ⟨_, if_pos ?_, _, rfl, fun col t d hd => ?_⟩
    · exact all_eq_true.2 fun c hc => (mem_filter.1 hc).2
    · rw [if_pos rfl, sumAt_filter_nonzero, hsum col t d hd]
  | false =>
    obtain ⟨s, hs, hone⟩ := h.resolve_left Bool.false_ne_true
    have hone : OneSign live := ⟨s, hs, fun c hc => hone c (mem_of_mem_filter hc)⟩
    refine ⟨_, if_pos ?_, _, rfl, hsum⟩
    exact all_eq_true.2 fun c hc => nonzero_of_mem_groupDeltas hone hc

/-- The contributions of a transition of `active_tag_mappings`. -/
def Transition.storageChanges : Transition ActiveTagMapping → List TagCountDelta
  | .insert newMappings => newMappings.flatMap (·.changes 1)
  | .delete oldMappings => oldMappings.flatMap (·.changes (-1))
  | .update oldMappings newMappings =>
      oldMappings.flatMap (·.changes (-1)) ++ newMappings.flatMap (·.changes 1)

/-- The contributions of a transition of `active_tag_mappings_parents`. -/
def Transition.parentChanges : Transition ActiveTagMappingParent → List TagCountDelta
  | .insert newMappings => newMappings.map (·.change 1)
  | .delete oldMappings => oldMappings.map (·.change (-1))
  | .update oldMappings newMappings =>
      oldMappings.map (·.change (-1)) ++ newMappings.map (·.change 1)

theorem oneSign_flatMap_changes (hs : s ≠ 0) (l : List ActiveTagMapping) :
    OneSign (l.flatMap (·.changes s)) := by
  refine ⟨s, hs, fun c hc => ?_⟩
  obtain ⟨m, _, hm⟩ := mem_flatMap.1 hc
  rw [ActiveTagMapping.changes, mem_pair] at hm
  rcases hm with rfl | rfl
  · exact add_zero s
  · exact zero_add s

theorem oneSign_map_change (hs : s ≠ 0) (l : List ActiveTagMappingParent) :
    OneSign (l.map (·.change s)) := by
  refine ⟨s, hs, fun c hc => ?_⟩
  obtain ⟨p, _, rfl⟩ := mem_map.1 hc
  exact zero_add s

theorem collectTagCountStorage_spec (tr : Transition ActiveTagMapping) (db : Db) :
    Succeeds (collectTagCountStorage tr db) (Collected tr.storageChanges db) := by
  cases tr with
  | insert l => exact collect_spec (Or.inr (oneSign_flatMap_changes one_ne_zero l)) db
  | delete l => exact collect_spec (Or.inr (oneSign_flatMap_changes (by decide) l)) db
  | update l l' => exact collect_spec (Or.inl rfl) db

theorem collectTagCountParents_spec (tr : Transition ActiveTagMappingParent) (db : Db) :
    Succeeds (collectTagCountParents tr db) (Collected tr.parentChanges db) := by
  cases tr with
  | insert l => exact collect_spec (Or.inr (oneSign_map_change one_ne_zero l)) db
  | delete l => exact collect_spec (Or.inr (oneSign_map_change (by decide) l)) db
  | update l l' => exact collect_spec (Or.inl rfl) db

end Idhan.Tags
