import Mathlib.Data.List.Basic
import Mathlib.Data.Prod.Lex
import Mathlib.Data.Int.Order.Basic
import Idhan.Search.Set

/-!
# The algebra of sets of records

A sorting gives every record its key, and `Sorting.rank` orders the records by key and id.  A set is
well-formed for a sorting if its ids stand in this order, its keys are those of its ids, and its
hashes, if it has them, are as many as its ids.  A NaN has no place in the order of keys, so that a
well-formed set lists no record whose key is one.

* `merge_spec`: what one merge does, for each of the four operations of the loop and each type of
  column.
* `set_algebra`: the operators denote intersection, union, symmetric difference and complement, for
  inverted operands too, and their results are well-formed.
-/

namespace Idhan.Search

open List

/-! ## Well-formed sets -/

/-- The sort key of every record. -/
inductive Sorting where
  | none
  | integer (key : RecordId → ℤ)
  | real (key : RecordId → Double)
  | hash (key : RecordId → SHA256)

namespace Sorting

/-- The type of the keys. -/
def type : Sorting → SortKeyType
  | .none => .none
  | .integer _ => .integer
  | .real _ => .real
  | .hash _ => .hash

/-- The keys of records, as a column. -/
def column : Sorting → List RecordId → SortKeyColumn
  | .none, _ => .none
  | .integer key, ids => .integer (ids.map key)
  | .real key, ids => .real (ids.map key)
  | .hash key, ids => .hash (ids.map key)

/-- The key has a place in the order of keys. -/
def Comparable : Sorting → RecordId → Prop
  | .real key, id => (key id).isNaN = false
  | _, _ => True

/-- The place of the key of a record in the order of keys. -/
def place : Sorting → RecordId → ℤ
  | .none, _ => 0
  | .integer key, id => key id
  | .real key, id => (key id).place
  | .hash key, id => (key id).toNat

/-- The place of a record in the order by key and id. -/
def rank (k : Sorting) (id : RecordId) : ℤ ×ₗ ℕ :=
  toLex (k.place id, id)

theorem rank_injective (k : Sorting) : Function.Injective k.rank :=
  fun _ _ h => congrArg (fun r => (ofLex r).2) h

theorem rank_lt_rank {k : Sorting} {x y : RecordId} :
    k.rank x < k.rank y ↔ k.place x < k.place y ∨ (k.place x = k.place y ∧ x < y) :=
  Prod.Lex.toLex_lt_toLex

end Sorting

/-- The keys stand beside their ids, and the ids stand in the order of the sorting. -/
structure Set.Sorted (k : Sorting) (s : Set) : Prop where
  keys : s.keys = k.column s.ids
  comparable : ∀ id ∈ s.ids, k.Comparable id
  sorted : SortedBy k.rank s.ids

/-- A well-formed set: the hashes stand beside their ids too. -/
structure Set.Wellformed (k : Sorting) (s : Set) : Prop extends s.Sorted k where
  parallel : ∀ hashes, s.hashes = some hashes → hashes.length = s.ids.length

/-- A record is in a set if it is listed, and in an inverted set if it is not. -/
instance : Membership RecordId Set :=
  ⟨fun s id => if s.inverted then id ∉ s.ids else id ∈ s.ids⟩

variable {p q : Prop} {a b s : Set} {k : Sorting} {P : Prop → Prop → Prop}

theorem Set.mem_iff {id : RecordId} : id ∈ s ↔ (id ∈ s.ids ↔ s.inverted = false) := by
  change (if s.inverted then id ∉ s.ids else id ∈ s.ids) ↔ _
  cases s.inverted <;> simp

/-- The ids of a set with their hashes. -/
def Set.hashed (s : Set) : List (RecordId × SHA256) :=
  s.ids.zip (s.hashes.getD [])

/-- An operand without hashes beside one with hashes is empty. -/
def HashesTogether (a b : Set) : Prop :=
  (a.hashes.isSome → b.hashes = none → b.ids = []) ∧
    (b.hashes.isSome → a.hashes = none → a.ids = [])

/-! ## Rows -/

section Rows

variable {κ : Type} {f : RecordId → κ} {ids : List RecordId} {row : Row κ} {k : Sorting}

theorem map_id_rowsOf (ids : List RecordId) (hashes : Option (List SHA256)) :
    (rowsOf ids (ids.map f) hashes).map (·.id) = ids := by
  induction ids generalizing hashes with
  | nil => rfl
  | cons id ids ih =>
    rw [map_cons, rowsOf, map_cons, ih]

theorem map_rank_rowsOf (k : Sorting) (ids : List RecordId) (hashes : Option (List SHA256)) :
    (rowsOf ids (ids.map f) hashes).map (fun row => k.rank row.id) = ids.map k.rank := by
  conv_rhs => rw [← map_id_rowsOf (f := f) ids hashes, map_map]
  rfl

theorem sortedBy_rowsOf {hashes : Option (List SHA256)}
    (h : SortedBy k.rank ids) :
    SortedBy (fun row => k.rank row.id) (rowsOf ids (ids.map f) hashes) := by
  rw [SortedBy, ← pairwise_map (f := fun row : Row κ => row.id) (R := fun x y => k.rank x <
    k.rank y), map_id_rowsOf]
  exact h

theorem key_of_mem_rowsOf {hashes : Option (List SHA256)}
    (h : row ∈ rowsOf ids (ids.map f) hashes) : row.key = f row.id := by
  induction ids generalizing hashes with
  | nil => exact (not_mem_nil h).elim
  | cons id ids ih =>
    rcases mem_cons.1 h with rfl | h
    · rfl
    · exact ih h

/-- A row of parallel columns has the hash that stands beside its id. -/
theorem hash_of_mem_rowsOf_some {keys : List κ} {hashes : List SHA256}
    (hlen : hashes.length = ids.length) (h : row ∈ rowsOf ids keys (some hashes)) :
    ∃ hash, row.hash = some hash ∧ (row.id, hash) ∈ ids.zip hashes := by
  induction ids generalizing keys hashes with
  | nil => exact (not_mem_nil h).elim
  | cons id ids ih =>
    cases keys with
    | nil => exact (not_mem_nil h).elim
    | cons key keys =>
      cases hashes with
      | nil => exact absurd hlen (Nat.succ_ne_zero _).symm
      | cons hash hashes =>
        rcases mem_cons.1 h with rfl | h
        · exact ⟨hash, rfl, mem_cons_self ..⟩
        · obtain ⟨hash', hrow, hmem⟩ := ih (Nat.succ.inj hlen) h
          exact ⟨hash', hrow, mem_cons_of_mem _ hmem⟩

/-- If every row has a hash, the hashes of the rows stand beside their ids. -/
theorem hashes_of_rows {rows : List (Row κ)} {pairs : List (RecordId × SHA256)}
    (h : ∀ row ∈ rows, ∃ hash, row.hash = some hash ∧ (row.id, hash) ∈ pairs) :
    (rows.filterMap (·.hash)).length = (rows.map (·.id)).length ∧
      ∀ pair ∈ (rows.map (·.id)).zip (rows.filterMap (·.hash)), pair ∈ pairs := by
  induction rows with
  | nil => exact ⟨rfl, forall_mem_nil _⟩
  | cons row rows ih =>
    obtain ⟨hash, hrow, hmem⟩ := h row (mem_cons_self ..)
    obtain ⟨hlen, hzip⟩ := ih fun r hr => h r (mem_cons_of_mem _ hr)
    rw [filterMap_cons_some hrow, map_cons]
    refine ⟨congrArg Nat.succ hlen, fun pair hpair => ?_⟩
    rcases mem_cons.1 hpair with rfl | hpair
    · exact hmem
    · exact hzip pair hpair

/-- The comparison of rows is the order by key and id, if that of the keys is the order of their
places. -/
theorem compositeLess_iff {less : κ → κ → Bool} {x y : Row κ}
    (hxy : less x.key y.key = true ↔ k.place x.id < k.place y.id)
    (hyx : less y.key x.key = true ↔ k.place y.id < k.place x.id) :
    compositeLess less x y = true ↔ k.rank x.id < k.rank y.id := by
  rw [Sorting.rank_lt_rank, compositeLess]
  split_ifs with h h'
  · exact iff_of_true rfl (Or.inl (hxy.1 h))
  · refine iff_of_false id (not_or.2 ⟨fun hlt => h (hxy.2 hlt), fun heq => ?_⟩)
    exact (hyx.1 h').ne heq.1.symm
  · have heq : k.place x.id = k.place y.id :=
      le_antisymm (not_lt.1 fun hlt => h' (hyx.2 hlt)) (not_lt.1 fun hlt => h (hxy.2 hlt))
    rw [decide_eq_true_eq, and_iff_right heq, or_iff_right heq.not_lt]

end Rows

/-! ## One merge -/

/-- What a merge of two sets for an operation returns. -/
structure Merged (k : Sorting) (op : MergeOp) (inverted : Bool) (a b s : Set) : Prop where
  sorted : s.Sorted k
  mem_ids : ∀ x, x ∈ s.ids ↔ op.emits.Selects (x ∈ a.ids) (x ∈ b.ids)
  inverted_eq : s.inverted = inverted
  isSome_hashes : s.hashes.isSome = (a.hashes.isSome || b.hashes.isSome)
  hashes : HashesTogether a b → (∀ hashes, s.hashes = some hashes → hashes.length = s.ids.length) ∧
    ∀ pair ∈ s.hashed, pair ∈ a.hashed ∨ pair ∈ b.hashed

section Merge

variable {κ : Type} {k : Sorting} {a b : Set}

/-- A row of a well-formed set beside another set has a hash, if one of the two has hashes. -/
theorem hash_of_mem_rows (ha : a.Wellformed k) {keys : List κ} {row : Row κ}
    (hhashes : a.hashes = none → a.ids = []) (h : row ∈ rowsOf a.ids keys a.hashes) :
    ∃ hash, row.hash = some hash ∧ (row.id, hash) ∈ a.hashed := by
  cases hcol : a.hashes with
  | none =>
    rw [hhashes hcol] at h
    exact (not_mem_nil h).elim
  | some hashes =>
    rw [hcol] at h
    rw [Set.hashed, hcol]
    exact hash_of_mem_rowsOf_some (ha.parallel hashes hcol) h

/-- The loop, where `less` compares the keys `f` of the records. -/
theorem mergeColumns_spec (f : RecordId → κ) (less : κ → κ → Bool) (column : List κ → SortKeyColumn)
    (ha : a.Wellformed k) (hb : b.Wellformed k)
    (hcolumn : ∀ ids, k.column ids = column (ids.map f))
    (hless : ∀ x y, k.Comparable x → k.Comparable y →
      (less (f x) (f y) = true ↔ k.place x < k.place y)) (op : MergeOp) (inverted : Bool) :
    Merged k op inverted a b
      (.mergeColumns less column a b (a.ids.map f) (b.ids.map f) op inverted) := by
  -- the rows that are compared are those of the two sets
  have hrows : ∀ s : Set, s.Wellformed k → ∀ row ∈ rowsOf s.ids (s.ids.map f) s.hashes,
      row.key = f row.id ∧ k.Comparable row.id := fun s hs row hrow => by
    refine ⟨key_of_mem_rowsOf hrow, hs.comparable _ ?_⟩
    rw [← map_id_rowsOf (f := f) s.ids s.hashes]
    exact mem_map_of_mem hrow
  have hagrees : AgreesOn (fun row : Row κ => k.rank row.id) (compositeLess less)
      (rowsOf a.ids (a.ids.map f) a.hashes) (rowsOf b.ids (b.ids.map f) b.hashes) := by
    intro x hx y hy
    obtain ⟨hxkey, hxc⟩ := hrows a ha x hx
    obtain ⟨hykey, hyc⟩ := hrows b hb y hy
    have hxy := hless x.id y.id hxc hyc
    have hyx := hless y.id x.id hyc hxc
    rw [← hxkey, ← hykey] at hxy hyx
    exact ⟨compositeLess_iff hxy hyx, compositeLess_iff hyx hxy⟩
  have hsorted := sorted_mergeWith op.emits hagrees (sortedBy_rowsOf ha.sorted)
    (sortedBy_rowsOf hb.sorted)
  have hof : ∀ row ∈ mergeWith (compositeLess less) op.emits
      (rowsOf a.ids (a.ids.map f) a.hashes) (rowsOf b.ids (b.ids.map f) b.hashes),
      row.key = f row.id ∧ k.Comparable row.id :=
    fun row hrow => (of_mem_mergeWith hrow).elim (hrows a ha row) (hrows b hb row)
  refine ⟨⟨?_, ?_, ?_⟩, fun x => ?_, rfl, ?_, fun htogether => ?_⟩
  · rw [hcolumn]
    refine congrArg column ?_
    simp only [Set.mergeColumns, Set.ofRows, map_map]
    exact map_congr_left fun row hrow => (hof row hrow).1
  · intro id hid
    obtain ⟨row, hrow, rfl⟩ := mem_map.1 hid
    exact (hof row hrow).2
  · exact pairwise_map.2 hsorted
  · have hmem := mem_map_mergeWith op.emits (r := k.rank x) hagrees
      (sortedBy_rowsOf ha.sorted) (sortedBy_rowsOf hb.sorted)
    simp only [map_rank_rowsOf, mem_map_of_injective k.rank_injective] at hmem
    rw [← hmem, ← mem_map_of_injective k.rank_injective]
    simp only [Set.mergeColumns, Set.ofRows, map_map]
    rfl
  · simp only [Set.mergeColumns, Set.ofRows]
    split_ifs with h
    · rw [h]
      rfl
    · rw [Bool.eq_false_iff.2 h]
      rfl
  · simp only [Set.mergeColumns, Set.ofRows]
    rw [Set.hashed]
    split_ifs with h
    · have hpairs : ∀ row ∈ mergeWith (compositeLess less) op.emits
          (rowsOf a.ids (a.ids.map f) a.hashes) (rowsOf b.ids (b.ids.map f) b.hashes),
          ∃ hash, row.hash = some hash ∧ (row.id, hash) ∈ a.hashed ++ b.hashed := by
        intro row hrow
        rcases of_mem_mergeWith hrow with hrow | hrow
        · obtain ⟨hash, heq, hmem⟩ := hash_of_mem_rows ha
            (fun hnone => htogether.2 (by simpa [hnone] using h) hnone) hrow
          exact ⟨hash, heq, mem_append_left _ hmem⟩
        · obtain ⟨hash, heq, hmem⟩ := hash_of_mem_rows hb
            (fun hnone => htogether.1 (by simpa [hnone] using h) hnone) hrow
          exact ⟨hash, heq, mem_append_right _ hmem⟩
      obtain ⟨hlen, hzip⟩ := hashes_of_rows hpairs
      refine ⟨fun hashes heq => Option.some.inj heq ▸ hlen, fun pair hpair => ?_⟩
      exact mem_append.1 (hzip pair hpair)
    · refine ⟨fun _ heq => (nomatch heq), fun pair hpair => ?_⟩
      rw [Option.getD_none, zip_nil_right] at hpair
      exact (not_mem_nil hpair).elim

/-- **One merge**, for every type of column. -/
theorem merge_spec (ha : a.Wellformed k) (hb : b.Wellformed k) (op : MergeOp) (inverted : Bool) :
    ∃ s, Set.merge a b op inverted = .ok s ∧ Merged k op inverted a b s := by
  have hakeys := ha.keys
  have hbkeys := hb.keys
  unfold Set.merge
  rw [hakeys, hbkeys]
  cases k with
  | none =>
    refine ⟨_, rfl, mergeColumns_spec (fun _ => ()) _ _ ha hb (fun _ => rfl) (fun x y _ _ => ?_) op
      inverted⟩
    exact iff_of_false Bool.false_ne_true (lt_irrefl _)
  | integer key =>
    refine ⟨_, rfl, mergeColumns_spec key _ _ ha hb (fun _ => rfl) (fun x y _ _ => ?_) op inverted⟩
    exact decide_eq_true_iff
  | real key =>
    refine ⟨_, rfl, mergeColumns_spec key _ _ ha hb (fun _ => rfl) (fun x y hx hy => ?_) op
      inverted⟩
    rw [Double.less, show (key x).isNaN = false from hx, show (key y).isNaN = false from hy]
    exact decide_eq_true_iff
  | hash key =>
    refine ⟨_, rfl, mergeColumns_spec key _ _ ha hb (fun _ => rfl) (fun x y _ _ => ?_) op inverted⟩
    rw [decide_eq_true_iff]
    exact Int.ofNat_lt.symm

end Merge

/-! ## The operators -/

@[simp] theorem selects_intersect : MergeOp.intersect.emits.Selects p q ↔ p ∧ q := by
  simp [MergeOp.emits, Emits.Selects]

@[simp] theorem selects_union : MergeOp.union.emits.Selects p q ↔ p ∨ q := by
  by_cases p <;> by_cases q <;> simp_all [MergeOp.emits, Emits.Selects]

@[simp] theorem selects_difference : MergeOp.difference.emits.Selects p q ↔ p ∧ ¬ q := by
  simp [MergeOp.emits, Emits.Selects]

@[simp] theorem selects_symmetricDifference :
    MergeOp.symmetricDifference.emits.Selects p q ↔ ¬ (p ↔ q) := by
  by_cases p <;> by_cases q <;> simp_all [MergeOp.emits, Emits.Selects]

/-- What an operator returns: the set denotes `P` of its operands, and it is well-formed. -/
structure Combines (k : Sorting) (P : Prop → Prop → Prop) (a b s : Set) : Prop where
  mem_iff : ∀ x, x ∈ s ↔ P (x ∈ a) (x ∈ b)
  sorted : s.Sorted k
  isSome_hashes : s.hashes.isSome = (a.hashes.isSome || b.hashes.isSome)
  hashes : HashesTogether a b →
    s.Wellformed k ∧ ∀ pair ∈ s.hashed, pair ∈ a.hashed ∨ pair ∈ b.hashed

theorem HashesTogether.symm (h : HashesTogether a b) : HashesTogether b a :=
  ⟨h.2, h.1⟩

/-- A merge combines its operands as its operation does, if the signs of the operands and of the
result are right. -/
theorem merge_combines (ha : a.Wellformed k) (hb : b.Wellformed k) (op : MergeOp) (inverted : Bool)
    (hsigns : ∀ p q : Prop, (op.emits.Selects p q ↔ inverted = false) ↔
      P (p ↔ a.inverted = false) (q ↔ b.inverted = false)) :
    ∃ s, Set.merge a b op inverted = .ok s ∧ Combines k P a b s := by
  obtain ⟨s, hs, h⟩ := merge_spec ha hb op inverted
  refine ⟨s, hs, fun x => ?_, h.sorted, h.isSome_hashes, fun htogether =>
    ⟨⟨h.sorted, (h.hashes htogether).1⟩, (h.hashes htogether).2⟩⟩
  rw [Set.mem_iff, Set.mem_iff, Set.mem_iff, h.inverted_eq, h.mem_ids]
  exact hsigns _ _

/-- The operands of a merge may be exchanged. -/
theorem Combines.symm (h : Combines k (fun p q => P q p) b a s) : Combines k P a b s :=
  ⟨h.mem_iff, h.sorted, h.isSome_hashes.trans (Bool.or_comm _ _), fun htogether =>
    ⟨(h.hashes htogether.symm).1, fun pair hpair => ((h.hashes htogether.symm).2 pair hpair).symm⟩⟩

section Operators

variable {k : Sorting} {a b : Set}

section

variable (ha : a.Wellformed k) (hb : b.Wellformed k)
include ha hb

theorem intersect_spec : ∃ s, a.intersect b = .ok s ∧ Combines k (fun p q => p ∧ q) a b s := by
  unfold Set.intersect
  cases hai : a.inverted <;> cases hbi : b.inverted
  · exact merge_combines ha hb .intersect false fun p q => by simp [hai, hbi]
  · exact merge_combines ha hb .difference false fun p q => by simp [hai, hbi]
  · obtain ⟨s, hs, hm⟩ := merge_combines (P := fun p q => q ∧ p) hb ha .difference false
      fun p q => by simp [hai, hbi, and_comm]
    exact ⟨s, hs, hm.symm⟩
  · exact merge_combines ha hb .union true fun p q => by simp [hai, hbi]

theorem unite_spec : ∃ s, a.unite b = .ok s ∧ Combines k (fun p q => p ∨ q) a b s := by
  unfold Set.unite
  cases hai : a.inverted <;> cases hbi : b.inverted
  · exact merge_combines ha hb .union false fun p q => by simp [hai, hbi]
  · obtain ⟨s, hs, hm⟩ := merge_combines (P := fun p q => q ∨ p) hb ha .difference true
      fun p q => by simp [hai, hbi, imp_iff_not_or, or_comm]
    exact ⟨s, hs, hm.symm⟩
  · exact merge_combines ha hb .difference true fun p q => by simp [hai, hbi, imp_iff_not_or]
  · exact merge_combines ha hb .intersect true fun p q => by simp [hai, hbi, imp_iff_not_or]

theorem symmetricDifference_spec :
    ∃ s, a.symmetricDifference b = .ok s ∧ Combines k (fun p q => ¬ (p ↔ q)) a b s := by
  refine merge_combines ha hb .symmetricDifference (a.inverted != b.inverted) fun p q => ?_
  cases a.inverted <;> cases b.inverted <;> by_cases p <;> by_cases q <;> simp_all

end

/-- The complement lists the same records. -/
theorem negate_spec (ha : a.Wellformed k) :
    (∀ x, x ∈ a.negate ↔ x ∉ a) ∧ a.negate.Wellformed k ∧ a.negate.hashed = a.hashed := by
  refine ⟨fun x => ?_, { ha with }, rfl⟩
  rw [Set.mem_iff, Set.mem_iff, Set.negate]
  cases a.inverted <;> simp

/-- **The algebra of sets.**  For well-formed sets over one sorting, inverted or not, the operators
denote intersection, union, symmetric difference and complement.  The results list their records in
the order of the sorting, with the keys beside them, and also with the hashes beside them unless one
operand has hashes and the other lists records without. -/
theorem set_algebra (ha : a.Wellformed k) (hb : b.Wellformed k) :
    (∃ s, a.intersect b = .ok s ∧ Combines k (fun p q => p ∧ q) a b s) ∧
    (∃ s, a.unite b = .ok s ∧ Combines k (fun p q => p ∨ q) a b s) ∧
    (∃ s, a.symmetricDifference b = .ok s ∧ Combines k (fun p q => ¬ (p ↔ q)) a b s) ∧
    (∀ x, x ∈ a.negate ↔ x ∉ a) ∧ a.negate.Wellformed k ∧ a.negate.hashed = a.hashed :=
  ⟨intersect_spec ha hb, unite_spec ha hb, symmetricDifference_spec ha hb, negate_spec ha⟩

end Operators

/-- Two sets by descending id, the second of them inverted, with hashes. -/
theorem set_algebra_descending :
    ∃ s, Set.intersect ⟨[3, 2, 1], .integer [-3, -2, -1], some [30, 20, 10], false⟩
        ⟨[2], .integer [-2], some [20], true⟩ = .ok s ∧ (3 ∈ s ∧ 2 ∉ s ∧ 1 ∈ s) ∧
      s.Wellformed (.integer fun id => -id) := by
  have ha : Set.Wellformed (.integer fun id => -id)
      ⟨[3, 2, 1], .integer [-3, -2, -1], some [30, 20, 10], false⟩ :=
    ⟨⟨rfl, fun _ _ => trivial, by unfold SortedBy; decide⟩, fun _ h => Option.some.inj h ▸ rfl⟩
  have hb : Set.Wellformed (.integer fun id => -id) ⟨[2], .integer [-2], some [20], true⟩ :=
    ⟨⟨rfl, fun _ _ => trivial, by unfold SortedBy; decide⟩, fun _ h => Option.some.inj h ▸ rfl⟩
  obtain ⟨⟨s, hs, hcombines⟩, _⟩ := set_algebra ha hb
  refine ⟨s, hs, ?_, (hcombines.hashes ⟨nofun, nofun⟩).1⟩
  simp only [hcombines.mem_iff, Set.mem_iff]
  decide

end Idhan.Search
