import Idhan.Lib.Total
import Idhan.Search.Query

/-!
# The two ways to a page

The search folds its terms in memory if one of them is positive, and leaves the paging to PostgreSQL
otherwise.  Both list the matching records by key and id, in the direction of the search, and cut
the page out of this list; only for a limit or an offset that is no `bigint` does the second way
fail.

`evaluate_spec` says what the fold of the terms denotes, with the laws of the set operations; the
order of the terms is not in it.  `slice_spec` and `orderBy_desc` say that reversing and slicing in
memory is `ORDER BY ... DESC`, `OFFSET` and `LIMIT`: keys are tied by the id, so that a list sorted
by both is determined by its records.  `query_pages` has the page of the search, exactly when there
is a positive term or both numbers are in range.
-/

namespace Idhan.Search

open List

/-! ## Ordered lists -/

section OrderBy

variable {k : Sorting} {ids : List RecordId} {order : SortOrder}

theorem mem_orderBy {x : RecordId} : x ∈ k.orderBy order ids ↔ x ∈ ids := by
  cases order <;> exact mem_insertionSort _

theorem nodup_orderBy (h : ids.Nodup) : (k.orderBy order ids).Nodup := by
  cases order <;> exact (perm_insertionSort _ _).nodup_iff.2 h

/-- Different records in weak order are in strict order. -/
theorem sortedBy_of_nodup (h : ids.Nodup) (hle : ids.Pairwise fun x y => k.rank x ≤ k.rank y) :
    SortedBy k.rank ids :=
  (h.and hle).imp fun ⟨hne, hle⟩ => hle.lt_of_ne fun heq => hne (k.rank_injective heq)

theorem sortedBy_orderBy (h : ids.Nodup) : SortedBy k.rank (k.orderBy .asc ids) := by
  have : Std.Total fun x y => k.rank x ≤ k.rank y := ⟨fun x y => le_total _ _⟩
  have : IsTrans RecordId fun x y => k.rank x ≤ k.rank y := ⟨fun _ _ _ => le_trans⟩
  exact sortedBy_of_nodup (nodup_orderBy h) (pairwise_insertionSort _ _)

/-- `ORDER BY key DESC, record_id DESC` is the ascending order, reversed. -/
theorem orderBy_desc (h : ids.Nodup) : k.orderBy .desc ids = (k.orderBy .asc ids).reverse := by
  have : Std.Total fun x y => k.rank y ≤ k.rank x := ⟨fun x y => le_total _ _⟩
  have : IsTrans RecordId fun x y => k.rank y ≤ k.rank x := ⟨fun _ _ _ hxy hyz => hyz.trans hxy⟩
  have hdesc : (k.orderBy .desc ids).reverse.Pairwise fun x y => k.rank x ≤ k.rank y :=
    pairwise_reverse.2 (pairwise_insertionSort _ _)
  have hsorted : SortedBy k.rank (k.orderBy .desc ids).reverse :=
    sortedBy_of_nodup (nodup_reverse.2 (nodup_orderBy h)) hdesc
  rw [← hsorted.ext (sortedBy_orderBy h) fun x => by rw [mem_reverse, mem_orderBy, mem_orderBy],
    reverse_reverse]

end OrderBy

variable {offset : ℕ} {limit : Option ℕ} {rows : List RecordId}

/-- A page has no record twice. -/
theorem nodup_pageOf (h : rows.Nodup) : (pageOf offset limit rows).Nodup := by
  cases limit with
  | none => exact h.sublist (drop_sublist _ _)
  | some limit => exact h.sublist ((take_sublist _ _).trans (drop_sublist _ _))

variable {α β : Type}

theorem map_pageOf (f : α → β) (offset : ℕ) (limit : Option ℕ) (rows : List α) :
    (pageOf offset limit rows).map f = pageOf offset limit (rows.map f) := by
  cases limit with
  | none => exact map_drop
  | some limit => rw [pageOf, pageOf, map_take, map_drop]

/-- What `slice` does to each column. -/
theorem drop_take_kept (offset : ℕ) (limit : Option ℕ) (rows : List α) :
    (rows.take (offset + kept (rows.length - offset) limit)).drop offset =
      pageOf offset limit rows := by
  rw [drop_take, Nat.add_sub_cancel_left]
  cases limit with
  | none => exact take_of_length_le (length_drop ▸ le_rfl)
  | some limit =>
    rw [pageOf, take_eq_take_iff, length_drop, kept]
    omega

theorem pageOf_of_length_le {rows : List α}
    (h : rows.length ≤ offset) : pageOf offset limit rows = [] := by
  cases limit with
  | none => exact drop_eq_nil_of_le h
  | some limit => rw [pageOf, drop_eq_nil_of_le h, take_nil]

/-- **Slicing** is `OFFSET` and `LIMIT`, of the ids and of the hashes. -/
theorem slice_spec {s : Set} (offset : ℕ) (limit : Option ℕ)
    (hlen : (s.hashes.getD []).length = s.ids.length ∨ s.hashes = none) :
    (s.slice offset limit).ids = pageOf offset limit s.ids ∧
      (s.slice offset limit).hashes = s.hashes.map (pageOf offset limit) := by
  unfold Set.slice
  split_ifs with hle
  · refine ⟨(pageOf_of_length_le hle).symm, ?_⟩
    cases hhashes : s.hashes with
    | none => rfl
    | some hashes =>
      rw [hhashes] at hlen
      have hlen' : hashes.length ≤ offset := (hlen.resolve_right nofun).symm ▸ hle
      rw [Option.map_some, Option.map_some, pageOf_of_length_le hlen']
  · refine ⟨drop_take_kept offset limit s.ids, ?_⟩
    cases hhashes : s.hashes with
    | none => rfl
    | some hashes =>
      rw [hhashes] at hlen
      have hlen' : hashes.length = s.ids.length := hlen.resolve_right nofun
      simp only [Option.map_some, ← hlen', drop_take_kept]

/-- Rows of different records are all kept. -/
theorem foldl_appendRow {ids rows : List RecordId} (h : (ids ++ rows).Nodup) :
    rows.foldl appendRow ids = ids ++ rows := by
  induction rows generalizing ids with
  | nil => rw [foldl_nil, append_nil]
  | cons id rows ih =>
    have hlast : ids.getLast? ≠ some id := fun hlast =>
      (nodup_append.1 h).2.2 id (mem_of_getLast? hlast) id (mem_cons_self ..) rfl
    have happend : ids ++ [id] ++ rows = ids ++ id :: rows := by
      rw [append_assoc, singleton_append]
    rw [foldl_cons, appendRow, if_neg hlast, ih (happend ▸ h), happend]

theorem foldl_appendRow_nil (h : rows.Nodup) : rows.foldl appendRow [] = rows :=
  foldl_appendRow (show ([] ++ rows).Nodup from h)

/-- A column is one of values of the ids if its entries stand beside their ids. -/
theorem eq_map_iff_zip {f : α → β} {as : List α} {bs : List β} (h : bs.length = as.length) :
    bs = as.map f ↔ ∀ pair ∈ as.zip bs, pair.2 = f pair.1 := by
  induction as generalizing bs with
  | nil => simp [length_eq_zero_iff.1 h]
  | cons a as ih =>
    cases bs with
    | nil => exact absurd h (Nat.succ_ne_zero _).symm
    | cons b bs =>
      rw [map_cons, List.cons.injEq, ih (Nat.succ.inj h), zip_cons_cons, forall_mem_cons]

/-! ## Terms -/

/-- The records of a search: each once, and with a key that has a place in the order. -/
structure Catalogue.Wellformed (c : Catalogue) : Prop where
  nodup : c.records.Nodup
  comparable : ∀ id ∈ c.records, c.sorting.Comparable id

/-- A set that is fetched for a term of the search. -/
structure Catalogue.Term (c : Catalogue) (wantHashes : Bool) (s : Set) : Prop where
  wellformed : s.Wellformed c.sorting
  inverted_eq : s.inverted = false
  records : ∀ id ∈ s.ids, id ∈ c.records
  hashes : s.hashes = if wantHashes then some (s.ids.map c.sha256) else none

section Terms

variable {c : Catalogue} {wantHashes : Bool} {a b s r : Set} {positive negative : List Set}

/-- **What is fetched for a term** is well-formed, and lists the records that match. -/
theorem fetchTerm_term (h : c.Wellformed) (found : List RecordId) :
    c.Term wantHashes (c.fetchTerm wantHashes found) ∧
      ∀ id, id ∈ (c.fetchTerm wantHashes found).ids ↔ id ∈ c.records ∧ id ∈ found := by
  have hnodup := nodup_dedup (c.records.filter fun id => id ∈ found)
  have hids : (c.fetchTerm wantHashes found).ids =
      c.sorting.orderBy .asc (c.records.filter fun id => id ∈ found).dedup :=
    foldl_appendRow_nil (nodup_orderBy hnodup)
  have hmem : ∀ id, id ∈ (c.fetchTerm wantHashes found).ids ↔ id ∈ c.records ∧ id ∈ found := by
    intro id
    rw [hids, mem_orderBy, mem_dedup, mem_filter, decide_eq_true_eq]
  refine ⟨⟨⟨⟨rfl, fun id hid => h.comparable id ((hmem id).1 hid).1, ?_⟩, fun hashes heq => ?_⟩,
    rfl, fun id hid => ((hmem id).1 hid).1, rfl⟩, hmem⟩
  · rw [hids]
    exact sortedBy_orderBy hnodup
  · cases wantHashes with
    | false => exact nomatch heq
    | true =>
      rw [← Option.some.inj heq]
      exact length_map ..

/-- What the sets of the fold have in common: the hashes are those of the records, and a set without
hashes where they are wanted is empty. -/
structure Catalogue.Folded (c : Catalogue) (wantHashes : Bool) (s : Set) : Prop where
  wellformed : s.Wellformed c.sorting
  hashes : ∀ hashes, s.hashes = some hashes → hashes = s.ids.map c.sha256
  wanted : wantHashes = true → s.hashes = none → s.ids = []
  unwanted : wantHashes = false → s.hashes = none

theorem Catalogue.Term.folded (h : c.Term wantHashes s) : c.Folded wantHashes s := by
  have hcolumn := h.hashes
  refine ⟨h.wellformed, fun hashes heq => ?_, fun hwant hnone => ?_, fun hwant => ?_⟩
  · rw [heq] at hcolumn
    split_ifs at hcolumn
    exact Option.some.inj hcolumn
  · rw [hcolumn, if_pos hwant] at hnone
    exact nomatch hnone
  · rw [hcolumn, hwant]
    rfl

theorem Catalogue.Folded.negate (h : c.Folded wantHashes s) : c.Folded wantHashes s.negate :=
  ⟨(negate_spec h.wellformed).2.1, h.hashes, h.wanted, h.unwanted⟩

theorem Catalogue.folded_emptyOf : c.Folded wantHashes (Set.emptyOf c.sorting.type) := by
  refine ⟨⟨⟨?_, forall_mem_nil _, Pairwise.nil⟩, nofun⟩, nofun,
    fun _ _ => rfl, fun _ => rfl⟩
  cases c.sorting <;> rfl

/-- Every hash of a set of the fold is that of its record. -/
theorem Catalogue.Folded.hashed (h : c.Folded wantHashes s) :
    ∀ pair ∈ s.hashed, pair.2 = c.sha256 pair.1 := by
  unfold Set.hashed
  cases hhashes : s.hashes with
  | none =>
    intro pair hpair
    rw [Option.getD_none, zip_nil_right] at hpair
    exact (not_mem_nil hpair).elim
  | some hashes =>
    exact (eq_map_iff_zip (h.wellformed.parallel hashes hhashes)).1 (h.hashes hashes hhashes)

theorem Catalogue.Folded.hashesTogether (ha : c.Folded wantHashes a)
    (hb : c.Folded wantHashes b) : HashesTogether a b := by
  cases wantHashes with
  | false =>
    rw [HashesTogether, ha.unwanted rfl, hb.unwanted rfl]
    exact ⟨nofun, nofun⟩
  | true => exact ⟨fun _ => hb.wanted rfl, fun _ => ha.wanted rfl⟩

/-- The sign of an intersection. -/
theorem inverted_intersect (h : a.intersect b = .ok s) :
    s.inverted = (a.inverted && b.inverted) := by
  have hmerge : ∀ {a b s : Set} {op : MergeOp} {inverted : Bool},
      a.merge b op inverted = .ok s → s.inverted = inverted := by
    intro a b s op inverted h
    unfold Set.merge at h
    split at h <;> first | exact Except.ok.inj h ▸ rfl | exact nomatch h
  unfold Set.intersect at h
  cases hai : a.inverted <;> cases hbi : b.inverted <;> rw [hai, hbi] at h <;> exact hmerge h

/-- A step of the fold. -/
theorem Catalogue.Folded.intersect (ha : c.Folded wantHashes a)
    (hb : c.Folded wantHashes b) :
    Succeeds (a.intersect b) fun s => c.Folded wantHashes s ∧
      s.inverted = (a.inverted && b.inverted) ∧ ∀ x, x ∈ s ↔ x ∈ a ∧ x ∈ b := by
  obtain ⟨s, hs, hcombines⟩ := intersect_spec ha.wellformed hb.wellformed
  obtain ⟨hwell, hpairs⟩ := hcombines.hashes (ha.hashesTogether hb)
  refine ⟨s, hs, ⟨hwell, fun hashes heq => ?_, fun hwant hnone => ?_, fun hwant => ?_⟩,
    inverted_intersect hs, hcombines.mem_iff⟩
  · refine (eq_map_iff_zip (hwell.parallel hashes heq)).2 fun pair hpair => ?_
    have hmem : pair ∈ s.hashed := by rwa [Set.hashed, heq]
    exact (hpairs pair hmem).elim (ha.hashed pair) (hb.hashed pair)
  · -- without hashes both operands are empty, and an empty list stays empty
    have hboth := hcombines.isSome_hashes
    rw [hnone, Option.isSome_none, eq_comm, Bool.or_eq_false_iff, Option.isSome_eq_false_iff,
      Option.isSome_eq_false_iff, Option.isNone_iff_eq_none, Option.isNone_iff_eq_none] at hboth
    refine eq_nil_iff_forall_not_mem.2 fun x hx => ?_
    have hmem := hcombines.mem_iff x
    rw [Set.mem_iff, Set.mem_iff, Set.mem_iff, ha.wanted hwant hboth.1, hb.wanted hwant hboth.2,
      inverted_intersect hs] at hmem
    cases hai : a.inverted <;> cases hbi : b.inverted <;> simp [hx, hai, hbi] at hmem
  · have hnone := hcombines.isSome_hashes
    rw [ha.unwanted hwant, hb.unwanted hwant] at hnone
    exact Option.not_isSome_iff_eq_none.1 (Bool.eq_false_iff.1 hnone)

/-- The first loop of `evaluate`, from the second term on. -/
theorem foldlM_narrow (hr : c.Folded wantHashes r) (hlisted : r.inverted = false)
    (h : ∀ s ∈ positive, c.Term wantHashes s) :
    Succeeds (positive.foldlM narrow (some r)) fun result => ∃ r', result = some r' ∧
      c.Folded wantHashes r' ∧ r'.inverted = false ∧ ∀ x, x ∈ r' ↔ x ∈ r ∧ ∀ s ∈ positive,
      x ∈ s := by
  induction positive generalizing r with
  | nil => exact .ok ⟨r, rfl, hr, hlisted, fun x => by simp⟩
  | cons s positive ih =>
    obtain ⟨r₁, hr₁, hfolded, hinverted, hmem⟩ := hr.intersect (h s (mem_cons_self ..)).folded
    have hstep : narrow (some r) s = .ok (some r₁) := by rw [narrow, hr₁, Except.map]
    rw [foldlM_cons, hstep]
    rw [hlisted, Bool.false_and] at hinverted
    refine (ih hfolded hinverted fun t ht => h t (mem_cons_of_mem _ ht)).mono ?_
    rintro _ ⟨r', rfl, hr', hinverted', hmem'⟩
    refine ⟨r', rfl, hr', hinverted', fun x => ?_⟩
    rw [hmem', hmem, forall_mem_cons, and_assoc]

/-- The second loop of `evaluate`. -/
theorem foldlM_exclude (hr : c.Folded wantHashes r)
    (h : ∀ s ∈ negative, c.Term wantHashes s) :
    Succeeds (negative.foldlM exclude r) fun r' => c.Folded wantHashes r' ∧
      r'.inverted = r.inverted ∧ ∀ x, x ∈ r' ↔ x ∈ r ∧ ∀ s ∈ negative, x ∉ s := by
  induction negative generalizing r with
  | nil => exact .ok ⟨hr, rfl, fun x => by simp⟩
  | cons s negative ih =>
    have hs := h s (mem_cons_self ..)
    rw [foldlM_cons]
    refine (hr.intersect hs.folded.negate).bind fun r₁ ⟨hfolded, hinverted, hmem⟩ => ?_
    refine (ih hfolded fun t ht => h t (mem_cons_of_mem _ ht)).mono ?_
    rintro r' ⟨hr', hinverted', hmem'⟩
    refine ⟨hr', ?_, fun x => ?_⟩
    · rw [hinverted', hinverted, Set.negate, hs.inverted_eq, Bool.not_false, Bool.and_true]
    · rw [hmem', hmem, (negate_spec hs.wellformed).1, forall_mem_cons, and_assoc]

/-- **The fold of the terms** denotes the records in all positive terms and in no negative one, and
it is inverted if there is no positive term. -/
theorem evaluate_spec (hp : ∀ s ∈ positive, c.Term wantHashes s)
    (hn : ∀ s ∈ negative, c.Term wantHashes s) :
    Succeeds (evaluate c.sorting.type positive negative) fun r => c.Folded wantHashes r ∧
      r.inverted = positive.isEmpty ∧
      ∀ x, x ∈ r ↔ (∀ s ∈ positive, x ∈ s) ∧ ∀ s ∈ negative, x ∉ s := by
  cases positive with
  | nil =>
    have hempty : c.Folded wantHashes (Set.emptyOf c.sorting.type) := c.folded_emptyOf
    refine (foldlM_exclude hempty.negate hn).mono fun r ⟨hr, hinverted, hmem⟩ => ?_
    refine ⟨hr, hinverted, fun x => ?_⟩
    rw [hmem, (negate_spec hempty.wellformed).1, Set.mem_iff]
    simp [Set.emptyOf]
  | cons s positive =>
    have hs := hp s (mem_cons_self ..)
    refine (foldlM_narrow hs.folded hs.inverted_eq fun t ht => hp t (mem_cons_of_mem _ ht)).bind ?_
    rintro _ ⟨r, rfl, hr, hlisted, hmem⟩
    refine (foldlM_exclude hr hn).mono fun r' ⟨hr', hinverted, hmem'⟩ => ?_
    refine ⟨hr', hinverted.trans hlisted, fun x => ?_⟩
    rw [hmem', hmem, forall_mem_cons]

end Terms

/-! ## Pages -/

/-- The records in all positive terms and in no negative one. -/
def Catalogue.matching (c : Catalogue) (positive negative : List Set) : List RecordId :=
  c.records.filter fun id => (positive.all fun s => id ∈ s.ids) && negative.all fun s => id ∉ s.ids

/-- The matching records in the order of the search. -/
def Catalogue.listing (c : Catalogue) (positive negative : List Set) : SortOrder → List RecordId
  | .asc => c.sorting.orderBy .asc (c.matching positive negative)
  | .desc => (c.sorting.orderBy .asc (c.matching positive negative)).reverse

/-- The results for some records. -/
def Catalogue.results (c : Catalogue) (wantHashes : Bool) (ids : List RecordId) : SearchResults :=
  ⟨ids, if wantHashes then ids.map c.sha256 else []⟩

/-- Both numbers are `bigint`s. -/
def InRange (offset : ℕ) (limit : Option ℕ) : Prop :=
  offset ≤ bigintMax ∧ ∀ n, limit = some n → n ≤ bigintMax

section Pages

variable {c : Catalogue} {s : Set} {positive negative positive' negative' : List Set}
variable {wantHashes : Bool} {order : SortOrder} {offset : ℕ} {limit : Option ℕ} {id : RecordId}

theorem nodup_matching (h : c.Wellformed) : (c.matching positive negative).Nodup :=
  h.nodup.filter _

/-- PostgreSQL orders the matching records as the search lists them. -/
theorem orderBy_matching (h : c.Wellformed) :
    c.sorting.orderBy order (c.matching positive negative) = c.listing positive negative order := by
  cases order with
  | asc => rfl
  | desc => exact orderBy_desc (nodup_matching h)

/-- The page of a set in memory. -/
theorem toResults_slice (hlen : (s.hashes.getD []).length = s.ids.length ∨ s.hashes = none)
    (hhashes : wantHashes = true → s.hashes.getD [] = s.ids.map c.sha256) :
    toResults (s.slice offset limit) wantHashes =
      c.results wantHashes (pageOf offset limit s.ids) := by
  obtain ⟨hids, hcolumn⟩ := slice_spec offset limit hlen
  rw [toResults, Catalogue.results, hids, hcolumn]
  cases wantHashes with
  | false => rfl
  | true =>
    have hpage : (s.hashes.map (pageOf offset limit)).getD [] =
        pageOf offset limit (s.hashes.getD []) := by
      cases s.hashes with
      | none => exact (pageOf_of_length_le (Nat.zero_le _)).symm
      | some hashes => rfl
    rw [if_pos rfl, if_pos rfl, hpage, hhashes rfl, map_pageOf]

/-- The results of a query. -/
theorem toResults_runTypedFetch (h : rows.Nodup) :
    toResults (c.runTypedFetch wantHashes rows) wantHashes = c.results wantHashes rows := by
  simp only [toResults, Catalogue.runTypedFetch, Catalogue.results, foldl_appendRow_nil h]
  cases wantHashes <;> rfl

/-- The column of hashes of a set of the fold. -/
theorem Catalogue.Folded.getD_hashes (h : c.Folded wantHashes s) (hwant : wantHashes = true) :
    s.hashes.getD [] = s.ids.map c.sha256 := by
  cases hhashes : s.hashes with
  | none => rw [h.wanted hwant hhashes]; rfl
  | some hashes => exact h.hashes hashes hhashes

theorem mem_matching : id ∈ c.matching positive negative ↔
    id ∈ c.records ∧ (∀ s ∈ positive, id ∈ s.ids) ∧ ∀ s ∈ negative, id ∉ s.ids := by
  simp [Catalogue.matching, mem_filter]

theorem Catalogue.Term.mem_iff (h : c.Term wantHashes s) :
    id ∈ s ↔ id ∈ s.ids := by
  rw [Set.mem_iff, h.inverted_eq]
  simp

section

variable (h : c.Wellformed) (hp : ∀ s ∈ positive, c.Term wantHashes s)
  (hn : ∀ s ∈ negative, c.Term wantHashes s) (hne : positive ≠ [])
include h hp hn hne

/-- What the fold of the terms lists, if there is a positive one. -/
theorem ids_of_positive {r : Set} (hfolded : c.Folded wantHashes r) (hlisted : r.inverted = false)
    (hmem : ∀ x, x ∈ r ↔ (∀ s ∈ positive, x ∈ s) ∧ ∀ s ∈ negative, x ∉ s) :
    r.ids = c.sorting.orderBy .asc (c.matching positive negative) := by
  refine hfolded.wellformed.sorted.ext (sortedBy_orderBy (nodup_matching h)) fun x => ?_
  have hr : x ∈ r ↔ x ∈ r.ids := by
    rw [Set.mem_iff, hlisted]
    simp
  rw [mem_orderBy, mem_matching, ← hr, hmem]
  have hpositive : (∀ s ∈ positive, x ∈ s) ↔ ∀ s ∈ positive, x ∈ s.ids :=
    forall₂_congr fun s hs => (hp s hs).mem_iff
  have hnegative : (∀ s ∈ negative, x ∉ s) ↔ ∀ s ∈ negative, x ∉ s.ids :=
    forall₂_congr fun s hs => not_congr (hn s hs).mem_iff
  rw [hpositive, hnegative, iff_and_self]
  -- a record of a positive term is a record of the search
  obtain ⟨s, hs⟩ := exists_mem_of_ne_nil positive hne
  exact fun hx => (hp s hs).records x (hx.1 s hs)

/-- **In memory**: with a positive term, the terms are folded, and the result is reversed and
sliced. -/
theorem query_of_positive : c.query wantHashes positive negative order offset limit =
      .ok (c.results wantHashes (pageOf offset limit (c.listing positive negative order))) := by
  obtain ⟨r, hr, hfolded, hinverted, hmem⟩ := evaluate_spec hp hn
  rw [Bool.eq_false_iff.2 fun hempty => hne (isEmpty_iff.1 hempty)] at hinverted
  have hids := ids_of_positive h hp hn hne hfolded hinverted hmem
  have hlen : (r.hashes.getD []).length = r.ids.length ∨ r.hashes = none := by
    cases hhashes : r.hashes with
    | none => exact Or.inr rfl
    | some hashes => exact Or.inl (hfolded.wellformed.parallel hashes hhashes)
  simp only [Catalogue.query, hr, hinverted, Bool.false_eq_true, if_false]
  refine congrArg Except.ok ?_
  cases order with
  | asc =>
    rw [Catalogue.listing, ← hids]
    exact toResults_slice hlen hfolded.getD_hashes
  | desc =>
    rw [Catalogue.listing, ← hids]
    refine toResults_slice (s := r.reverse) ?_ fun hwant => ?_
    · rw [Set.reverse]
      cases hhashes : r.hashes with
      | none => exact Or.inr rfl
      | some hashes =>
        rw [hhashes] at hlen
        exact Or.inl (by simpa using hlen)
    · have hcolumn := hfolded.getD_hashes hwant
      rw [Set.reverse, map_reverse, ← hcolumn]
      cases r.hashes <;> rfl

/-- **Consecutive pages tile the listing**: no record is shown twice or passed over. -/
theorem pages_tile (m n : ℕ) : ∃ first second,
    c.query wantHashes positive negative order offset (some m) = .ok first ∧
    c.query wantHashes positive negative order (offset + m) (some n) = .ok second ∧
    c.query wantHashes positive negative order offset (some (m + n)) =
      .ok ⟨first.recordIds ++ second.recordIds, first.hashes ++ second.hashes⟩ := by
  refine ⟨_, _, query_of_positive h hp hn hne, query_of_positive h hp hn hne,
    (query_of_positive h hp hn hne).trans ?_⟩
  simp only [Catalogue.results, pageOf, take_add, drop_drop]
  cases wantHashes <;> simp

end

theorem pages_tile_two : ∃ (c : Catalogue) (first : SearchResults), c.query false
    [c.fetchTerm false [1, 2]] [] .asc 0 (some 1) = .ok first := by
  have h : Catalogue.Wellformed ⟨[1, 2], .integer fun _ => 0, fun _ => 0⟩ :=
    ⟨by decide, fun _ _ => trivial⟩
  obtain ⟨first, _, hfirst, _⟩ :=
    pages_tile h (forall_mem_singleton.2 (fetchTerm_term h [1, 2]).1) (forall_mem_nil _) nofun 1 1
  exact ⟨_, first, hfirst⟩

/-- **In the database**: without a positive term, the records of the negative ones are excluded. -/
theorem query_of_no_positive (h : c.Wellformed) (hn : ∀ s ∈ negative, c.Term wantHashes s) :
    c.query wantHashes [] negative order offset limit =
      if bigintMax < offset ∨ limit.any (bigintMax < ·) then .error .bigintOutOfRange
      else .ok (c.results wantHashes (pageOf offset limit (c.listing [] negative order))) := by
  have hp : ∀ s ∈ ([] : List Set), c.Term wantHashes s := fun _ hs => nomatch hs
  obtain ⟨r, hr, _, hinverted, hmem⟩ := evaluate_spec hp hn
  have hfilter : c.records.filter (fun id => id ∉ r.ids) = c.matching [] negative := by
    refine filter_congr fun id _ => ?_
    have hid : id ∈ r ↔ id ∉ r.ids := by
      rw [Set.mem_iff, hinverted]
      simp
    rw [all_nil, Bool.true_and, Bool.eq_iff_iff, decide_eq_true_eq, all_eq_true, ← hid, hmem,
      and_iff_right fun _ hs => nomatch hs]
    refine forall₂_congr fun s hs => ?_
    rw [decide_eq_true_eq]
    exact not_congr (hn s hs).mem_iff
  have hselected : (if r.ids.isEmpty then c.records else c.records.filter fun id => id ∉ r.ids) =
      c.matching [] negative := by
    rw [← hfilter]
    split_ifs with hempty
    · rw [isEmpty_iff.1 hempty]
      simp
    · rfl
  simp only [Catalogue.query, hr, hinverted, isEmpty_nil, if_true, Catalogue.fetchPage, hselected,
    orderBy_matching h]
  split_ifs
  · rfl
  · refine congrArg Except.ok ?_
    have hnodup : (c.listing [] negative order).Nodup :=
      orderBy_matching h ▸ nodup_orderBy (nodup_matching h)
    exact toResults_runTypedFetch (nodup_pageOf hnodup)

theorem inRange_iff :
    InRange offset limit ↔ ¬ (bigintMax < offset ∨ limit.any (bigintMax < ·)) := by
  rw [not_or, not_lt, InRange]
  cases limit <;> simp

/-- Only the terms matter, not their order. -/
theorem matching_perm (hp : positive.Perm positive')
    (hn : negative.Perm negative') :
    c.matching positive' negative' = c.matching positive negative := by
  unfold Catalogue.matching
  refine filter_congr fun id _ => ?_
  rw [hp.all_eq, hn.all_eq]

theorem listing_perm (hp : positive.Perm positive')
    (hn : negative.Perm negative') :
    c.listing positive' negative' order = c.listing positive negative order := by
  cases order <;> rw [Catalogue.listing, Catalogue.listing, matching_perm hp hn]

/-- **The two ways to a page.**  A search returns the page of the matching records, listed by key
and id in the direction of the search, exactly if it has a positive term or its limit and offset are
`bigint`s.  In either case the order of its terms does not matter. -/
theorem query_pages (h : c.Wellformed) (hp : ∀ s ∈ positive, c.Term wantHashes s)
    (hn : ∀ s ∈ negative, c.Term wantHashes s) :
    (c.query wantHashes positive negative order offset limit =
        .ok (c.results wantHashes (pageOf offset limit (c.listing positive negative order))) ↔
      positive ≠ [] ∨ InRange offset limit) ∧
    ∀ positive' negative', positive.Perm positive' → negative.Perm negative' →
      c.query wantHashes positive' negative' order offset limit =
        c.query wantHashes positive negative order offset limit := by
  constructor
  · by_cases hne : positive = []
    · subst hne
      rw [query_of_no_positive h hn, inRange_iff]
      split_ifs with hrange
      · simp [hrange]
      · simp [hrange]
    · exact iff_of_true (query_of_positive h hp hn hne) (Or.inl hne)
  · intro positive' negative' hpp hnn
    have hp' : ∀ s ∈ positive', c.Term wantHashes s := fun s hs => hp s (hpp.mem_iff.2 hs)
    have hn' : ∀ s ∈ negative', c.Term wantHashes s := fun s hs => hn s (hnn.mem_iff.2 hs)
    by_cases hne : positive = []
    · subst hne
      obtain rfl := hpp.nil_eq
      rw [query_of_no_positive h hn, query_of_no_positive h hn', listing_perm (.refl []) hnn]
    · have hne' : positive' ≠ [] := fun hnil => hne (hnil ▸ hpp).eq_nil
      rw [query_of_positive h hp hn hne, query_of_positive h hp' hn' hne', listing_perm hpp hnn]

end Pages

/-- Three records by descending id, of which a positive term matches two and a negative one the
third: the second record of the page in descending order. -/
theorem query_pages_two_terms :
    ∃ c : Catalogue, c.records = [1, 2, 3] ∧
      c.query true [c.fetchTerm true [1, 3, 3]] [c.fetchTerm true [2]] .desc 1 none =
        .ok ⟨[3], [3]⟩ := by
  have h :
      Catalogue.Wellformed ⟨[1, 2, 3], .integer fun id => -id, fun id => BitVec.ofNat 256 id⟩ :=
    ⟨by decide, fun _ _ => trivial⟩
  refine ⟨⟨[1, 2, 3], .integer fun id => -id, fun id => BitVec.ofNat 256 id⟩, rfl, ?_⟩
  refine ((query_pages h (forall_mem_singleton.2 (fetchTerm_term h [1, 3, 3]).1)
    (forall_mem_singleton.2 (fetchTerm_term h [2]).1)).1.2 (Or.inl nofun)).trans ?_
  decide +kernel

/-- A search without terms whose limit is no `bigint` raises, where a term that matches every record
would give the page of them all. -/
theorem query_limit_out_of_range :
    ∃ c : Catalogue, c.Wellformed ∧
      c.query false [] [] .asc 0 (some (2 ^ 63)) = .error .bigintOutOfRange ∧
      c.results false (pageOf 0 (some (2 ^ 63)) (c.listing [] [] .asc)) = ⟨[1], []⟩ ∧
      c.query false [c.fetchTerm false [1]] [] .asc 0 (some (2 ^ 63)) = .ok ⟨[1], []⟩ := by
  refine ⟨⟨[1], .integer fun _ => 0, fun _ => 0⟩, ⟨by decide, fun _ _ => trivial⟩, ?_, ?_, ?_⟩
  · decide +kernel
  · decide +kernel
  · decide +kernel

end Idhan.Search
