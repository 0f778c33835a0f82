import Idhan.Lib.Digraph

/-!
# Derivations with reference counts

Along the edges of a graph, nodes are derived from seeds: a *derivation* `(node, source)` is a row
of a table, and it belongs there when there is an edge from `source` to `node` and `source` is a
seed or is derived itself.  A table that is maintained incrementally keeps with each row the number
of rows that derive its source, so that a row can go when the last of them goes.

A change of the seeds or of the edges changes some rows at once, and each row that comes or goes
then has to be carried to the rows that it is the source of.  The rows for which this is still to be
done are *pending*.

* `Exact`: the rows are the derivations, and the counts are right.
* `Exact.exists_iff`: without cycles, what is derived is what is reached from a seed.
* `Growing`, `Growing.step`: the table while rows come.  A row that meets its key is given the count
  `2`, whatever its count was, so the step needs `Roomy`: no node gets a third derivation, and a
  seed gets no first one.
* `Shrinking`, `Shrinking.step`: the table while rows go.  A row goes when its count is used up,
  whether its source is a seed or not, so the step needs `Unseeded`: no seed loses its last
  derivation.
-/

namespace Idhan

open Relation List

/-- `node` is derived from `source`, of which the table has `count` derivations. -/
structure Derivation (N : Type) where
  node : N
  source : N
  count : ℕ

namespace Derivation

variable {N : Type} {A : List (Derivation N)} {r : Derivation N}

/-- The unique key of a table of derivations. -/
def key (r : Derivation N) : N × N :=
  (r.node, r.source)

/-- The row with a count computed from its own and from the one that was to be inserted. -/
def mergeCount (f : ℕ → ℕ → ℕ) (old excluded : Derivation N) : Derivation N :=
  { old with count := f old.count excluded.count }

theorem keepsKey_merge (c : Option (ℕ → ℕ → ℕ)) :
    KeepsKey (key : Derivation N → N × N) (c.map mergeCount) := by
  cases c with
  | none => exact keepsKey_none
  | some f => exact keepsKey_some fun _ _ => rfl

/-- The keys of a table. -/
def keys (A : List (Derivation N)) : List (N × N) :=
  A.map key

theorem mem_keys_of_mem (h : r ∈ A) : (r.node, r.source) ∈ keys A :=
  mem_map_of_mem h

theorem exists_of_mem_keys {t o : N} (h : (t, o) ∈ keys A) :
    ∃ r ∈ A, r.node = t ∧ r.source = o := by
  obtain ⟨r, hr, hk⟩ := mem_map.1 h
  exact ⟨r, hr, (Prod.mk.inj hk).1, (Prod.mk.inj hk).2⟩

theorem mem_keys_iff {t o : N} : (t, o) ∈ keys A ↔ ∃ c, ⟨t, o, c⟩ ∈ A := by
  constructor
  · intro h
    obtain ⟨r, hr, rfl, rfl⟩ := exists_of_mem_keys h
    exact ⟨r.count, hr⟩
  · exact fun ⟨c, h⟩ => mem_keys_of_mem h

theorem keys_append (A B : List (Derivation N)) : keys (A ++ B) = keys A ++ keys B :=
  map_append ..

/-! ## Counting derivations -/

section Refs

variable [DecidableEq N] {A B : List (Derivation N)} {n : N} {sources : List N}
  {rows : List (Derivation N)} {k : N × N} {c : Option (ℕ → ℕ → ℕ)}

/-- The number of derivations of a node. -/
def refs (A : List (Derivation N)) (n : N) : ℕ :=
  A.countP fun r => r.node = n

theorem refs_eq_countP_keys : refs A n = (keys A).countP fun k => k.1 = n := by
  rw [keys, countP_map]
  rfl

theorem refs_append : refs (A ++ B) n = refs A n + refs B n :=
  countP_append ..

theorem refs_cons (r : Derivation N) : refs (r :: A) n = refs A n + if r.node = n then 1
    else 0 := by
  rw [refs, countP_cons]
  simp only [decide_eq_true_eq]
  rfl

theorem refs_eq_zero : refs A n = 0 ↔ ∀ o, (n, o) ∉ keys A := by
  rw [refs, countP_eq_zero]
  constructor
  · intro h o ho
    obtain ⟨r, hr, hn, _⟩ := exists_of_mem_keys ho
    exact h r hr (decide_eq_true hn)
  · exact fun h r hr hn => h r.source (of_decide_eq_true hn ▸ mem_keys_of_mem hr)

theorem refs_pos : 0 < refs A n ↔ ∃ o, (n, o) ∈ keys A := by
  rw [Nat.pos_iff_ne_zero, ne_eq, refs_eq_zero]
  push Not
  rfl

/-- More keys, more derivations. -/
theorem refs_le (hA : KeyUnique key A) (h : ∀ o, (n, o) ∈ keys A → (n, o) ∈ keys B) :
    refs A n ≤ refs B n := by
  rw [refs_eq_countP_keys, refs_eq_countP_keys, countP_eq_length_filter,
    countP_eq_length_filter]
  refine (subperm_of_subset (Nodup.filter _ hA) fun k hk => ?_).length_le
  obtain ⟨hk, hn⟩ := mem_filter.1 hk
  refine mem_filter.2 ⟨?_, hn⟩
  rw [← Prod.mk.eta (p := k), of_decide_eq_true hn] at hk ⊢
  exact h _ hk

theorem refs_congr (hA : KeyUnique key A) (hB : KeyUnique key B)
    (h : ∀ o, (n, o) ∈ keys A ↔ (n, o) ∈ keys B) : refs A n = refs B n :=
  le_antisymm (refs_le hA fun o => (h o).1) (refs_le hB fun o => (h o).2)

/-- The derivations of a node, counted by a list of their sources. -/
theorem refs_le_length (hA : KeyUnique key A)
    (h : ∀ o, (n, o) ∈ keys A → o ∈ sources) : refs A n ≤ sources.length := by
  have hle := refs_le (B := sources.map fun o => ⟨n, o, 0⟩) hA fun o ho =>
    mem_keys_of_mem (mem_map_of_mem (h o ho))
  exact hle.trans (countP_le_length.trans (length_map _).le)

theorem length_le_refs (hnodup : sources.Nodup)
    (h : ∀ o ∈ sources, (n, o) ∈ keys A) : sources.length ≤ refs A n := by
  rw [refs_eq_countP_keys, countP_eq_length_filter, ← length_map (f := fun o => (n, o))]
  refine (subperm_of_subset ?_ fun k hk => ?_).length_le
  · exact hnodup.map fun o o' he => (Prod.mk.inj he).2
  · obtain ⟨o, ho, rfl⟩ := mem_map.1 hk
    exact mem_filter.2 ⟨h o ho, decide_eq_true rfl⟩

/-- The derivations of a node, in two parts. -/
theorem refs_filter_add (hA : KeyUnique key A) (hB : KeyUnique key B)
    (hsub : ∀ k ∈ keys B, k ∈ keys A) :
    refs (A.filter fun r => r.key ∉ keys B) n + refs B n = refs A n := by
  have hmem : ∀ k, k ∈ keys (A.filter fun r => r.key ∉ keys B) ↔ k ∈ keys A ∧ k ∉ keys B :=
    fun k => (mem_map_key_filter (q := fun k => decide (k ∉ keys B))).trans
      (and_congr_right fun _ => decide_eq_true_iff)
  rw [← refs_append]
  refine refs_congr ?_ hA fun o => ?_
  · rw [KeyUnique, map_append]
    refine nodup_append.2 ⟨hA.filter _, hB, fun k hk k' hk' he => ?_⟩
    exact ((hmem k).1 hk).2 (he ▸ hk')
  · rw [keys_append, mem_append, hmem]
    refine ⟨fun h => h.elim And.left (hsub _), fun h => ?_⟩
    by_cases hB : (n, o) ∈ keys B
    · exact Or.inr hB
    · exact Or.inl ⟨h, hB⟩

theorem refs_upsert (c : Option (ℕ → ℕ → ℕ)) (rows : List (Derivation N)) :
    refs (upsert key (c.map mergeCount) A rows).table n =
      refs A n + refs (upsert key (c.map mergeCount) A rows).inserted n :=
  countP_upsert_table (keepsKey_merge c) A rows fun k => k.1 = n

/-- The keys after a statement, and those of its new rows. -/
theorem mem_keys_upsert :
    k ∈ keys (upsert key (c.map mergeCount) A rows).table ↔ k ∈ keys A ∨ k ∈ keys rows :=
  mem_map_key_upsert (keepsKey_merge c)

theorem mem_keys_inserted :
    k ∈ keys (upsert key (c.map mergeCount) A rows).inserted ↔ k ∈ keys rows ∧ k ∉ keys A :=
  mem_map_key_upsert_inserted (keepsKey_merge c)

end Refs

/-! ## The tables that are right -/

/-- There is an edge from `source` to `node`, and `source` is reached from a seed. -/
def Derivable (E : N → N → Prop) (S : N → Prop) (node source : N) : Prop :=
  E source node ∧ ∃ m, S m ∧ ReflTransGen E m source

/-- The rows are the derivations, and their counts are right. -/
structure Exact [DecidableEq N] (E : N → N → Prop) (S : N → Prop) (A : List (Derivation N)) :
    Prop where
  unique : KeyUnique key A
  mem : ∀ t o, (t, o) ∈ keys A ↔ E o t ∧ (S o ∨ ∃ o', (o, o') ∈ keys A)
  count : ∀ r ∈ A, r.count = refs A r.source

section Exact

variable [DecidableEq N] {E : N → N → Prop} {S : N → Prop} {A : List (Derivation N)} {t o : N}
  {rank : N → ℕ}

omit [DecidableEq N] in
/-- What is closed under deriving holds of every derivation. -/
theorem Derivable.induct {P : N → N → Prop} (hP : ∀ t o, E o t → (S o ∨ ∃ o', P o o') → P t o)
    (hd : Derivable E S t o) : P t o := by
  obtain ⟨hot, m, hm, hpath⟩ := hd
  induction hpath generalizing t with
  | refl => exact hP t m hot (Or.inl hm)
  | tail _ hstep ih => exact hP _ _ hot (Or.inr ⟨_, ih hstep⟩)

/-- What is reached from a seed is derived. -/
theorem Exact.mem_of_derivable (h : Exact E S A) (hd : Derivable E S t o) : (t, o) ∈ keys A :=
  hd.induct fun t o hot hcause => (h.mem t o).2 ⟨hot, hcause⟩

/-- Without cycles, what is derived is reached from a seed. -/
theorem Exact.derivable_of_mem (h : Exact E S A)
    (hrank : ∀ x y, E x y → rank x < rank y) (hmem : (t, o) ∈ keys A) :
    Derivable E S t o := by
  -- the induction goes down the edges, from the source `o` to the sources of its derivations
  induction hn : rank o using Nat.strong_induction_on generalizing t o with
  | _ n ih =>
    obtain ⟨hot, hs | ⟨o', ho'⟩⟩ := (h.mem t o).1 hmem
    · exact ⟨hot, o, hs, .refl⟩
    · have hedge := ((h.mem o o').1 ho').1
      obtain ⟨_, m, hm, hpath⟩ := ih (rank o') (hn ▸ hrank _ _ hedge) ho' rfl
      exact ⟨hot, m, hm, hpath.tail hedge⟩

/-- **What is derived is what is reached from a seed**, without cycles. -/
theorem Exact.exists_iff (h : Exact E S A)
    (hrank : ∀ x y, E x y → rank x < rank y) :
    (∃ o, (t, o) ∈ keys A) ↔ ∃ m, S m ∧ TransGen E m t := by
  constructor
  · rintro ⟨o, ho⟩
    obtain ⟨hot, m, hm, hpath⟩ := h.derivable_of_mem hrank ho
    exact ⟨m, hm, TransGen.tail' hpath hot⟩
  · rintro ⟨m, hm, hpath⟩
    obtain ⟨o, hmo, hot⟩ := TransGen.tail'_iff.1 hpath
    exact ⟨o, h.mem_of_derivable ⟨hot, m, hm, hmo⟩⟩

omit [DecidableEq N] in
theorem Derivable.mono {E' : N → N → Prop} {S' : N → Prop} (hE : ∀ x y, E x y → E' x y)
    (hS : ∀ x, S x → S' x) (h : Derivable E S t o) : Derivable E' S' t o := by
  obtain ⟨hot, m, hm, hpath⟩ := h
  exact ⟨hE _ _ hot, m, hS m hm, ReflTransGen.mono hE _ _ hpath⟩

omit [DecidableEq N] in
theorem Derivable.next {p : N} (h : Derivable E S t o) (hp : E t p) : Derivable E S p t := by
  obtain ⟨hot, m, hm, hpath⟩ := h
  exact ⟨hp, m, hm, hpath.tail hot⟩

end Exact

/-! ## Rows that come -/

section Growing

variable [DecidableEq N] (E : N → N → Prop) (S : N → Prop) (start : List (Derivation N))

/-- No node gets a third derivation, and no seed gets a first one. -/
def Roomy : Prop :=
  ∀ n p, E n p → ∀ B : List (Derivation N), KeyUnique key B →
    (∀ t o, (t, o) ∈ keys B → Derivable E S t o) → refs start n < refs B n →
    refs B n ≤ 2 ∧ (refs start n = 0 → ¬ S n)

/-- The table while rows come.  The nodes that they can reach are `above`.  The rows with another
source are those of `settled`, and the others are right as far as no row is pending. -/
structure Growing (above : N → Prop) (settled pending A : List (Derivation N)) : Prop where
  unique : KeyUnique key A
  pendingUnique : KeyUnique key pending
  pendingMem : ∀ k ∈ keys pending, k ∈ keys A
  pendingAbove : ∀ r ∈ pending, above r.node
  startMem : ∀ k ∈ keys start, k ∈ keys A ∧ k ∉ keys pending
  below : ∀ r : Derivation N, ¬ above r.source → (r ∈ A ↔ r ∈ settled)
  mem : ∀ t o, above o →
    ((t, o) ∈ keys A ↔ E o t ∧ (S o ∨ ∃ o', (o, o') ∈ keys A ∧ (o, o') ∉ keys pending))
  count : ∀ r ∈ A, above r.source → r.count + refs pending r.source = refs A r.source
  bound : ∀ t o, (t, o) ∈ keys A → Derivable E S t o

/-- The rows that the derivation `new` is the source of, each with one reference. -/
structure Raises (new : Derivation N) (rows : List (Derivation N)) : Prop where
  unique : KeyUnique key rows
  mem : ∀ r : Derivation N, r ∈ rows ↔ r.source = new.node ∧ r.count = 1 ∧ E new.node r.node

end Growing

section GrowingSteps

variable [DecidableEq N] {E : N → N → Prop} {S : N → Prop} {start : List (Derivation N)}
  {above : N → Prop} {settled pending A rows : List (Derivation N)} {new : Derivation N}

omit [DecidableEq N] in
theorem Raises.mem_keys (hrows : Raises E new rows) {t o : N} :
    (t, o) ∈ keys rows ↔ o = new.node ∧ E new.node t := by
  simp [mem_keys_iff, hrows.mem]

namespace Growing

/-- The derivations of a node that have been carried on, and those that are pending. -/
theorem refs_start_le (h : Growing E S start above settled pending A) (hstart : KeyUnique key start)
    (n : N) : refs start n + refs pending n ≤ refs A n := by
  rw [← refs_append]
  refine refs_le ?_ fun o ho => ?_
  · rw [KeyUnique, map_append]
    exact nodup_append.2 ⟨hstart, h.pendingUnique, fun k hk k' hk' he =>
      (h.startMem k hk).2 (he ▸ hk')⟩
  · rw [keys_append, mem_append] at ho
    exact ho.elim (fun ho => (h.startMem _ ho).1) (h.pendingMem _)

/-- The count that the trigger of `new` replaces is `1`: one derivation of the source has been
carried on before `new`. -/
theorem count_eq_one (h : Growing E S start above settled (new :: pending) A)
    (hstart : KeyUnique key start) (hroom : Roomy E S start) (hr : r ∈ A)
    (hs : r.source = new.node) : r.count = 1 := by
  have habove : above r.source := hs ▸ h.pendingAbove new (mem_cons_self ..)
  obtain ⟨hedge, hcause⟩ := (h.mem r.node r.source habove).1 (mem_keys_of_mem hr)
  have hcount := h.count r hr habove
  have hle := h.refs_start_le hstart new.node
  have hcarried := refs_filter_add (n := new.node) h.unique h.pendingUnique h.pendingMem
  have hwithNew := refs_filter_add (n := new.node) h.unique (nodup_cons.1 h.pendingUnique).2
    fun k hk => h.pendingMem k (mem_cons_of_mem _ hk)
  rw [hs] at hcount hcause hedge
  rw [refs_cons, if_pos rfl] at hcount hle hcarried
  have hbound := hroom new.node r.node hedge (A.filter fun r => r.key ∉ keys pending)
    (h.unique.filter _)
    (fun t o hto => h.bound t o (map_subset key (filter_subset_self _) hto)) (by omega)
  have hne : r.count ≠ 0 := by
    intro hzero
    obtain ⟨o', ho', hnot⟩ := hcause.resolve_left (hbound.2 (by omega))
    obtain ⟨r', hr', hnode, rfl⟩ := exists_of_mem_keys ho'
    have hpos : 0 < refs (A.filter fun r => r.key ∉ keys (new :: pending)) new.node := by
      refine refs_pos.2 ⟨r'.source, mem_map.2 ⟨r', ?_, by rw [key, hnode]⟩⟩
      exact mem_filter.2 ⟨hr', decide_eq_true (by rwa [key, hnode])⟩
    omega
  omega

/-- The trigger of `new` finds no row: no derivation of its node has been carried on before. -/
theorem refs_eq_of_not_mem (h : Growing E S start above settled (new :: pending) A) {p : N}
    (hedge : E new.node p) (hnot : (p, new.node) ∉ keys A) :
    refs A new.node = refs pending new.node + 1 := by
  have habove : above new.node := h.pendingAbove new (mem_cons_self ..)
  have hcarried := refs_filter_add (n := new.node) h.unique h.pendingUnique h.pendingMem
  have hzero : refs (A.filter fun r => r.key ∉ keys (new :: pending)) new.node = 0 := by
    refine refs_eq_zero.2 fun o ho => ?_
    obtain ⟨hmem, hpending⟩ :=
      (mem_map_key_filter (q := fun k => decide (k ∉ keys (new :: pending)))).1 ho
    exact hnot ((h.mem p new.node habove).2
      ⟨hedge, Or.inr ⟨o, hmem, of_decide_eq_true hpending⟩⟩)
  rw [refs_cons, if_pos rfl] at hcarried
  omega

/-- The new rows of a statement are pending besides those that were. -/
theorem pendingUnique_append {c : Option (ℕ → ℕ → ℕ)} (hpending : KeyUnique key pending)
    (hsub : ∀ k ∈ keys pending, k ∈ keys A) :
    KeyUnique key ((upsert key (c.map mergeCount) A rows).inserted ++ pending) := by
  rw [KeyUnique, map_append]
  refine nodup_append.2
    ⟨keyUnique_upsert_inserted (keepsKey_merge c), hpending, fun k hk k' hk' he => ?_⟩
  exact (mem_keys_inserted.1 hk).2 (hsub k (he ▸ hk'))

/-- **The step of an insert**: the rows that `new` is the source of are inserted, or have their
count set to `2`, and `new` has been carried on. -/
theorem step (h : Growing E S start above settled (new :: pending) A)
    (hstart : KeyUnique key start) (hroom : Roomy E S start)
    (hup : ∀ o t, above o → E o t → above t) (hrows : Raises E new rows) :
    Growing E S start above settled
      ((upsert key ((some fun _ excluded => excluded + 1).map mergeCount) A rows).inserted ++
        pending)
      (upsert key ((some fun _ excluded => excluded + 1).map mergeCount) A rows).table := by
  set s := upsert key ((some fun _ excluded => excluded + 1).map mergeCount) A rows with hs
  have habove : above new.node := h.pendingAbove new (mem_cons_self ..)
  obtain ⟨hnew, hpending⟩ := nodup_cons.1 h.pendingUnique
  have hsub : ∀ k ∈ keys pending, k ∈ keys A :=
    fun k hk => h.pendingMem k (mem_cons_of_mem _ hk)
  have htable : ∀ t o, (t, o) ∈ keys s.table ↔ (t, o) ∈ keys A ∨ (o = new.node ∧ E new.node t) :=
    fun t o => mem_keys_upsert.trans (or_congr_right hrows.mem_keys)
  have hins : ∀ t o, (t, o) ∈ keys s.inserted ↔
      (o = new.node ∧ E new.node t) ∧ (t, o) ∉ keys A :=
    fun t o => mem_keys_inserted.trans (and_congr_left' hrows.mem_keys)
  -- a row with another source is as it was
  have hother : ∀ r : Derivation N, r.source ≠ new.node → (r ∈ s.table ↔ r ∈ A) := by
    intro r hr
    have hkey : r.key ∉ keys rows := fun hk => hr (hrows.mem_keys.1 hk).1
    exact ⟨fun h => of_mem_upsert (keepsKey_merge _) h hkey, fun h => mem_upsert_of_mem h hkey⟩
  refine ⟨keyUnique_upsert (keepsKey_merge _) h.unique, pendingUnique_append hpending hsub, ?_, ?_,
    ?_, ?_, ?_, ?_, ?_⟩
  · rintro ⟨t, o⟩ hk
    rw [keys_append, mem_append] at hk
    refine (htable t o).2 (hk.elim (fun hk => Or.inr ((hins t o).1 hk).1) fun hk => ?_)
    exact Or.inl (hsub _ hk)
  · intro r hr
    rcases mem_append.1 hr with hr | hr
    · exact hup _ _ habove ((hins _ _).1 (mem_keys_of_mem hr)).1.2
    · exact h.pendingAbove r (mem_cons_of_mem _ hr)
  · rintro ⟨t, o⟩ hk
    obtain ⟨hmem, hnot⟩ := h.startMem _ hk
    refine ⟨(htable t o).2 (Or.inl hmem), ?_⟩
    rw [keys_append, mem_append]
    rintro (hk | hk)
    · exact ((hins t o).1 hk).2 hmem
    · exact hnot (mem_cons_of_mem _ hk)
  · intro r hr
    rw [hother r fun he => hr (he ▸ habove)]
    exact h.below r hr
  · intro t o ho
    -- what has been carried on now: what had been, and `new`
    have hcarried : ∀ o', ((o, o') ∈ keys s.table ∧ (o, o') ∉ keys (s.inserted ++ pending)) ↔
        ((o, o') ∈ keys A ∧ (o, o') ∉ keys pending) := by
      intro o'
      rw [keys_append, mem_append, htable, hins]
      tauto
    simp only [hcarried]
    by_cases hn : o = new.node
    · subst hn
      have hcause : ∃ o', (new.node, o') ∈ keys A ∧ (new.node, o') ∉ keys pending :=
        ⟨new.source, h.pendingMem _ (mem_cons_self ..), hnew⟩
      rw [htable]
      constructor
      · exact fun hk => ⟨hk.elim (fun hk => ((h.mem _ _ ho).1 hk).1) And.right, Or.inr hcause⟩
      · exact fun hk => Or.inr ⟨rfl, hk.1⟩
    · rw [htable, or_iff_left fun hk => hn hk.1, h.mem t o ho]
      refine and_congr_right fun _ =>
        or_congr_right (exists_congr fun o' => and_congr_right fun _ => ?_)
      rw [not_iff_not]
      exact mem_cons.trans (or_iff_right fun he => hn (Prod.mk.inj he).1)
  · intro r hr ho
    have hrefs : refs s.table r.source = refs A r.source + refs s.inserted r.source :=
      refs_upsert _ rows
    rw [refs_append, hrefs]
    by_cases hn : r.source = new.node
    · rcases of_mem_upsert_update (keepsKey_merge (some _)) hrows.unique hr with
        ⟨hmem, hnot⟩ | ⟨hmem, hnot⟩ | ⟨old, hold, row, hrow, hkey, rfl⟩
      · have hedge := ((h.mem _ _ ho).1 (mem_keys_of_mem hmem)).1
        exact absurd (hrows.mem_keys.2 ⟨hn, hn ▸ hedge⟩) hnot
      · obtain ⟨_, hone, hedge⟩ := (hrows.mem r).1 hmem
        rw [hn, h.refs_eq_of_not_mem hedge (hn ▸ hnot), hone]
        omega
      · obtain ⟨_, hone, _⟩ := (hrows.mem row).1 hrow
        have hcount := h.count old hold ho
        have hn' : old.source = new.node := hn
        rw [h.count_eq_one hstart hroom hold hn', hn', refs_cons, if_pos rfl] at hcount
        simp only [mergeCount, hone, hn']
        omega
    · have hcount := h.count r ((hother r hn).1 hr) ho
      rw [refs_cons, if_neg (Ne.symm hn)] at hcount
      omega
  · intro t o hk
    rcases (htable t o).1 hk with hk | ⟨rfl, hedge⟩
    · exact h.bound t o hk
    · exact (h.bound _ _ (h.pendingMem _ (mem_cons_self ..))).next hedge

/-- Before a change, the rows are those of an exact table whose seeds and edges are the same
above. -/
theorem of_exact {E₀ : N → N → Prop} {S₀ : N → Prop} (h : Exact E₀ S₀ start)
    (hS : ∀ o, above o → (S₀ o ↔ S o)) (hE : ∀ o t, above o → (E₀ o t ↔ E o t))
    (hbound : ∀ t o, (t, o) ∈ keys start → Derivable E S t o) :
    Growing E S start above start [] start where
  unique := h.unique
  pendingUnique := nodup_nil
  pendingMem := fun _ hk => nomatch hk
  pendingAbove := fun _ hr => nomatch hr
  startMem := fun _ hk => ⟨hk, not_mem_nil⟩
  below := fun _ _ => Iff.rfl
  mem := fun t o ho => by
    rw [h.mem, hS o ho, hE o t ho]
    simp [keys]
  count := fun r hr _ => h.count r hr
  bound := hbound

/-- The rows of a statement, whose sources are not above and whose nodes are. -/
structure Feeds (E : N → N → Prop) (S : N → Prop) (above : N → Prop) (rows : List (Derivation N)) :
    Prop where
  source : ∀ r ∈ rows, ¬ above r.source
  node : ∀ r ∈ rows, above r.node
  bound : ∀ r ∈ rows, Derivable E S r.node r.source

variable {t o : N}

omit [DecidableEq N] in
theorem Feeds.not_mem_keys (hf : Feeds E S above rows) (ho : above o) :
    (t, o) ∉ keys rows := by
  intro hk
  obtain ⟨r, hr, _, rfl⟩ := exists_of_mem_keys hk
  exact hf.source r hr ho

/-- **The statement of an insert**: its new rows are pending. -/
theorem feed (h : Growing E S start above settled [] A) (c : Option (ℕ → ℕ → ℕ))
    (hf : Feeds E S above rows) :
    Growing E S start above (upsert key (c.map mergeCount) A rows).table
      (upsert key (c.map mergeCount) A rows).inserted
      (upsert key (c.map mergeCount) A rows).table where
  unique := keyUnique_upsert (keepsKey_merge c) h.unique
  pendingUnique := keyUnique_upsert_inserted (keepsKey_merge c)
  pendingMem := fun k hk => mem_keys_upsert.2 (Or.inr (mem_keys_inserted.1 hk).1)
  pendingAbove := fun r hr => hf.node r (of_mem_upsert_inserted (keepsKey_merge c) hr).1
  startMem := fun k hk => ⟨mem_keys_upsert.2 (Or.inl (h.startMem k hk).1),
    fun hins => (mem_keys_inserted.1 hins).2 (h.startMem k hk).1⟩
  below := fun _ _ => Iff.rfl
  mem := fun t o ho => by
    have hcarried : ∀ o', ((o, o') ∈ keys (upsert key (c.map mergeCount) A rows).table ∧
        (o, o') ∉ keys (upsert key (c.map mergeCount) A rows).inserted) ↔ (o, o') ∈ keys A := by
      intro o'
      rw [mem_keys_upsert, mem_keys_inserted]
      tauto
    simp only [hcarried]
    rw [mem_keys_upsert, or_iff_left (hf.not_mem_keys ho), h.mem t o ho]
    simp [keys]
  count := fun r hr ho => by
    have hmem : r ∈ A := of_mem_upsert (keepsKey_merge c) hr (hf.not_mem_keys ho)
    have hcount : r.count = refs A r.source := h.count r hmem ho
    rw [refs_upsert, hcount]
  bound := fun t o hk => by
    rcases mem_keys_upsert.1 hk with hk | hk
    · exact h.bound t o hk
    · obtain ⟨r, hr, rfl, rfl⟩ := exists_of_mem_keys hk
      exact hf.bound r hr

theorem mem_keys_settled (h : Growing E S start above settled pending A) (ho : ¬ above o) :
    (t, o) ∈ keys A ↔ (t, o) ∈ keys settled := by
  rw [mem_keys_iff, mem_keys_iff]
  exact exists_congr fun c => h.below ⟨t, o, c⟩ ho

/-- The nodes that are not above have the derivations they had. -/
theorem mem_keys_of_not_above (h : Growing E S start above settled pending A)
    (hup : ∀ o t, above o → E o t → above t)
    (hsettled : ∀ t o, ¬ above t → ((t, o) ∈ keys settled ↔ (t, o) ∈ keys start))
    (ht : ¬ above t) : (t, o) ∈ keys A ↔ (t, o) ∈ keys start := by
  refine ⟨fun hk => ?_, fun hk => (h.startMem _ hk).1⟩
  have ho : ¬ above o := fun ho => ht (hup o t ho (h.bound t o hk).1)
  exact (hsettled _ _ ht).1 ((h.mem_keys_settled ho).1 hk)

/-- **After a change** the table is exact, when the rows whose source is not above are right. -/
theorem exact (h : Growing E S start above settled [] A) (hstart : KeyUnique key start)
    (hup : ∀ o t, above o → E o t → above t)
    (hsettled : ∀ t o, ¬ above t → ((t, o) ∈ keys settled ↔ (t, o) ∈ keys start))
    (hmem : ∀ t o, ¬ above o →
      ((t, o) ∈ keys settled ↔ E o t ∧ (S o ∨ ∃ o', (o, o') ∈ keys start)))
    (hcount : ∀ r ∈ settled, ¬ above r.source → r.count = refs start r.source) :
    Exact E S A where
  unique := h.unique
  mem := fun t o => by
    by_cases ho : above o
    · rw [h.mem t o ho]
      simp [keys]
    · rw [h.mem_keys_settled ho, hmem t o ho]
      simp only [h.mem_keys_of_not_above hup hsettled ho]
  count := fun r hr => by
    by_cases ho : above r.source
    · exact h.count r hr ho
    · rw [hcount r ((h.below r ho).1 hr) ho]
      exact refs_congr hstart h.unique fun o => (h.mem_keys_of_not_above hup hsettled ho).symm

end Growing

end GrowingSteps

/-! ## Rows that go -/

section Shrinking

variable [DecidableEq N]

/-- The rows that `old` is the source of lose a reference. -/
def release (old : Derivation N) (A : List (Derivation N)) : List (Derivation N) :=
  A.map fun r => if r.source = old.node then { r with count := r.count - 1 } else r

/-- A row that `old` was the last source of. -/
def spent (old r : Derivation N) : Bool :=
  r.source = old.node ∧ r.count = 0

variable (E : N → N → Prop) (S : N → Prop) (start : List (Derivation N))

/-- No seed loses its last derivation. -/
def Unseeded : Prop :=
  ∀ n p, E n p → (∃ o, (n, o) ∈ keys start) → (∀ o, ¬ Derivable E S n o) → ¬ S n

/-- The table while rows go.  A row that is pending has gone, but it still counts for the rows that
it is the source of. -/
structure Shrinking (pending A : List (Derivation N)) : Prop where
  unique : KeyUnique key (pending ++ A)
  sub : ∀ k ∈ keys (pending ++ A), k ∈ keys start
  mem : ∀ t o, (t, o) ∈ keys A ↔ E o t ∧ (S o ∨ ∃ o', (o, o') ∈ keys (pending ++ A))
  count : ∀ r ∈ A, r.count = refs (pending ++ A) r.source

end Shrinking

section ShrinkingSteps

variable [DecidableEq N] {E : N → N → Prop} {S : N → Prop} {start : List (Derivation N)}
  {pending A : List (Derivation N)} {old : Derivation N}

theorem keys_release (old : Derivation N) (A : List (Derivation N)) :
    keys (release old A) = keys A := by
  rw [keys, release, List.map_map]
  refine List.map_congr_left fun r _ => ?_
  simp only [Function.comp_apply]
  split_ifs <;> rfl

/-- The pending rows and the table, before and after a step. -/
theorem keys_step_perm (old : Derivation N) (pending A : List (Derivation N))
    (p : Derivation N → Bool) :
    (keys (((release old A).filter p ++ pending) ++ (release old A).filter fun r => !p r)).Perm
      (keys (pending ++ A)) := by
  have hperm : (((release old A).filter p ++ pending) ++ (release old A).filter fun r => !p r).Perm
      (pending ++ release old A) := by
    refine (perm_append_comm.append_right _).trans ?_
    rw [append_assoc]
    exact (filter_append_perm p _).append_left _
  rw [keys_append pending, ← keys_release old A, ← keys_append]
  exact hperm.map key

theorem of_mem_release_kept (hr : r ∈ (release old A).filter fun r => !spent old r) :
    ∃ r' ∈ A, r.key = r'.key ∧
      ((r'.source ≠ old.node ∧ r = r') ∨
        (r'.source = old.node ∧ r.count = r'.count - 1 ∧ r.count ≠ 0)) := by
  obtain ⟨hr, hspent⟩ := mem_filter.1 hr
  obtain ⟨r', hr', rfl⟩ := mem_map.1 hr
  refine ⟨r', hr', ?_⟩
  by_cases hs : r'.source = old.node
  · rw [if_pos hs] at hspent ⊢
    refine ⟨rfl, Or.inr ⟨hs, rfl, fun hzero => ?_⟩⟩
    rw [show spent old { r' with count := r'.count - 1 } = true from decide_eq_true ⟨hs, hzero⟩]
      at hspent
    exact nomatch hspent
  · rw [if_neg hs]
    exact ⟨rfl, Or.inl ⟨hs, rfl⟩⟩

namespace Shrinking

/-- When a change begins, the rows that a condition selects go. -/
theorem of_exact {E₀ : N → N → Prop} {S₀ : N → Prop} (h : Exact E₀ S₀ start)
    (p : Derivation N → Bool)
    (hmem : ∀ t o, (t, o) ∈ keys (start.filter fun r => !p r) ↔
      E o t ∧ (S o ∨ ∃ o', (o, o') ∈ keys start)) :
    Shrinking E S start (start.filter p) (start.filter fun r => !p r) := by
  have hperm : (start.filter p ++ start.filter fun r => !p r).Perm start :=
    filter_append_perm p start
  have hkeys : ∀ k, k ∈ keys (start.filter p ++ start.filter fun r => !p r) ↔ k ∈ keys start :=
    fun k => (hperm.map key).mem_iff
  refine ⟨(hperm.map key).nodup_iff.2 h.unique, fun k hk => (hkeys k).1 hk, fun t o => ?_,
    fun r hr => ?_⟩
  · rw [hmem]
    simp only [hkeys]
  · rw [h.count r (mem_of_mem_filter hr), refs, refs, hperm.countP_eq]

variable {t o : N}

/-- What is reached from a seed stays. -/
theorem mem_of_derivable (h : Shrinking E S start pending A) (hd : Derivable E S t o) :
    (t, o) ∈ keys A := by
  refine hd.induct fun t o hot hcause =>
    (h.mem t o).2 ⟨hot, hcause.imp_right fun ⟨o', ho'⟩ => ⟨o', ?_⟩⟩
  rw [keys_append, mem_append]
  exact Or.inr ho'

section

variable (h : Shrinking E S start (old :: pending) A)
include h

/-- The step of a delete keeps a row, unless `old` was the last source of it. -/
theorem mem_keys_kept : (t, o) ∈ keys ((release old A).filter fun r => !spent old r) ↔
      (t, o) ∈ keys A ∧ (o = old.node → 0 < refs (pending ++ A) old.node) := by
  have hcount : ∀ r ∈ A, r.source = old.node → r.count = refs (pending ++ A) old.node + 1 := by
    intro r hr hs
    rw [h.count r hr, hs, cons_append, refs_cons, if_pos rfl]
  constructor
  · intro hk
    obtain ⟨r, hr, rfl, rfl⟩ := exists_of_mem_keys hk
    obtain ⟨r', hr', hkey, hcase⟩ := of_mem_release_kept hr
    refine ⟨mem_map.2 ⟨r', hr', hkey.symm⟩, fun hs => ?_⟩
    have hsource : r'.source = r.source := (congrArg Prod.snd hkey).symm
    rcases hcase with ⟨hne, _⟩ | ⟨hs', hdec, hpos⟩
    · exact absurd (hsource.trans hs) hne
    · have := hcount r' hr' hs'
      omega
  · rintro ⟨hk, hpos⟩
    obtain ⟨r, hr, rfl, rfl⟩ := exists_of_mem_keys hk
    by_cases hs : r.source = old.node
    · have hdec : ({ r with count := r.count - 1 } : Derivation N) ∈
          (release old A).filter fun r => !spent old r := by
        refine mem_filter.2 ⟨mem_map.2 ⟨r, hr, if_pos hs⟩, ?_⟩
        have := hcount r hr hs
        have := hpos hs
        simp only [spent, hs, true_and, Bool.not_eq_true', decide_eq_false_iff_not]
        omega
      exact mem_map.2 ⟨_, hdec, rfl⟩
    · refine mem_keys_of_mem (mem_filter.2 ⟨mem_map.2 ⟨r, hr, if_neg hs⟩, ?_⟩)
      simp [spent, hs]

/-- A node that loses its last derivation is not a seed. -/
theorem not_seed (hseed : Unseeded E S start) (hzero : refs (pending ++ A) old.node = 0) {p : N}
    (hp : E old.node p) : ¬ S old.node := by
  refine hseed old.node p hp ⟨old.source, h.sub _ (mem_cons_self ..)⟩ fun o hd => ?_
  refine refs_eq_zero.1 hzero o ?_
  rw [keys_append, mem_append]
  exact Or.inr (h.mem_of_derivable hd)

/-- **The step of a delete**: the rows that `old` is the source of lose a reference, those that have
none left go, and `old` has been carried on. -/
theorem step (hseed : Unseeded E S start) :
    Shrinking E S start ((release old A).filter (spent old) ++ pending)
      ((release old A).filter fun r => !spent old r) := by
  have hperm := keys_step_perm old pending A (spent old)
  have hrefs : ∀ n, refs ((((release old A).filter (spent old)) ++ pending) ++
      (release old A).filter fun r => !spent old r) n = refs (pending ++ A) n := by
    intro n
    rw [refs_eq_countP_keys, refs_eq_countP_keys, hperm.countP_eq]
  refine ⟨?_, ?_, ?_, ?_⟩
  · exact hperm.nodup_iff.2 (nodup_cons.1 h.unique).2
  · exact fun k hk => h.sub k (mem_cons_of_mem _ (hperm.mem_iff.1 hk))
  · intro t o
    rw [h.mem_keys_kept, h.mem]
    simp only [hperm.mem_iff]
    by_cases hn : o = old.node
    · subst hn
      have hcause : ∃ o', (old.node, o') ∈ keys (old :: pending ++ A) :=
        ⟨old.source, mem_cons_self ..⟩
      rcases Nat.eq_zero_or_pos (refs (pending ++ A) old.node) with hzero | hpos
      · simp only [hzero, lt_irrefl, imp_false, not_true, and_false, false_iff]
        rintro ⟨hp, hs | ⟨o', ho'⟩⟩
        · exact h.not_seed hseed hzero hp hs
        · exact refs_eq_zero.1 hzero o' ho'
      · simp only [hpos, refs_pos.1 hpos, hcause, or_true, and_true, implies_true]
    · have hcause : ∀ o', (o, o') ∈ keys (old :: pending ++ A) ↔ (o, o') ∈ keys (pending ++ A) :=
        fun o' => mem_cons.trans (or_iff_right fun he => hn (Prod.mk.inj he).1)
      simp only [hcause, hn, false_imp_iff, and_true]
  · intro r hr
    rw [hrefs]
    obtain ⟨r', hr', hkey, hcase⟩ := of_mem_release_kept hr
    have hsource : r'.source = r.source := (congrArg Prod.snd hkey).symm
    have hcount := h.count r' hr'
    rw [cons_append, refs_cons, hsource] at hcount
    rcases hcase with ⟨hne, rfl⟩ | ⟨hs, hdec, _⟩
    · rw [if_neg (Ne.symm hne)] at hcount
      exact hcount
    · rw [if_pos (hs.symm.trans hsource)] at hcount
      omega

end

/-- **After a change** the table is exact. -/
theorem exact (h : Shrinking E S start [] A) : Exact E S A :=
  ⟨h.unique, h.mem, h.count⟩

end Shrinking

end ShrinkingSteps

end Derivation

end Idhan
