import Idhan.Lib.Derivation

/-!
# Changes of the seeds and of the edges

What a table of derivations owes when a seed or edges come or go, and that the table is exact again
when nothing is pending.

* `Exact.growing_addSeed`, `Exact.addSeed`: a new seed.
* `Exact.shrinking_removeSeed`: a seed less.
* `Exact.growing_addEdges`, `Exact.addEdges`: new edges, in two statements.
* `Exact.shrinking_removeEdges`: edges less.
* `Filling.exists_iff`: a table that was filled from the seeds on.
-/

namespace Idhan

open Relation List

namespace Derivation

variable {N : Type}

/-! ## A new seed -/

section AddSeed

variable [DecidableEq N] {E : N → N → Prop} {S S' : N → Prop} {start A rows : List (Derivation N)}
  {seed : N} {rank : N → ℕ}

omit [DecidableEq N] in
theorem not_transGen_self (hrank : ∀ x y, E x y → rank x < rank y) (x : N) : ¬ TransGen E x x := by
  have hlt : ∀ {y}, TransGen E x y → rank x < rank y := fun hp => by
    induction hp with
    | single hxy => exact hrank _ _ hxy
    | tail _ hyz ih => exact ih.trans (hrank _ _ hyz)
  exact fun hp => lt_irrefl _ (hlt hp)

/-- A new seed changes nothing above it. -/
theorem Exact.growing_addSeed (h : Exact E S start) (hrank : ∀ x y, E x y → rank x < rank y)
    (hS : ∀ x, S' x ↔ S x ∨ x = seed) : Growing E S' start (TransGen E seed) start [] start := by
  refine Growing.of_exact h (fun o ho => ?_) (fun _ _ _ => Iff.rfl) fun t o hk => ?_
  · rw [hS, or_iff_left]
    rintro rfl
    exact not_transGen_self hrank _ ho
  · exact (h.derivable_of_mem hrank hk).mono (fun _ _ h => h) fun x hx => (hS x).2 (Or.inl hx)

omit [DecidableEq N] in
/-- The rows that a new seed is the source of. -/
theorem feeds_addSeed (hrank : ∀ x y, E x y → rank x < rank y) (hS : ∀ x, S' x ↔ S x ∨ x = seed)
    (hrows : ∀ r : Derivation N, r ∈ rows ↔ r.source = seed ∧ r.count = 0 ∧ E seed r.node) :
    Growing.Feeds E S' (TransGen E seed) rows where
  source := fun r hr habove =>
    not_transGen_self hrank _ (((hrows r).1 hr).1 ▸ habove)
  node := fun r hr => .single ((hrows r).1 hr).2.2
  bound := fun r hr => by
    obtain ⟨hs, _, hedge⟩ := (hrows r).1 hr
    exact ⟨hs ▸ hedge, seed, (hS seed).2 (Or.inr rfl), hs ▸ .refl⟩

/-- **The table after a new seed** is exact. -/
theorem Exact.addSeed (h : Exact E S start) (hS : ∀ x, S' x ↔ S x ∨ x = seed)
    (hrows : ∀ r : Derivation N, r ∈ rows ↔ r.source = seed ∧ r.count = 0 ∧ E seed r.node)
    (hg : Growing E S' start (TransGen E seed)
      (upsert key (Option.map mergeCount none) start rows).table [] A) : Exact E S' A := by
  have hkeys : ∀ t o, (t, o) ∈ keys rows ↔ o = seed ∧ E seed t := by
    simp [mem_keys_iff, hrows]
  refine hg.exact h.unique (fun o t ho hot => ho.tail hot) ?_ ?_ ?_
  · intro t o ht
    rw [mem_keys_upsert, or_iff_left]
    exact fun hk => ht (.single ((hkeys t o).1 hk).2)
  · intro t o _
    rw [mem_keys_upsert, hkeys, h.mem, hS]
    constructor
    · rintro (⟨hot, hs | ho'⟩ | ⟨rfl, hot⟩)
      · exact ⟨hot, Or.inl (Or.inl hs)⟩
      · exact ⟨hot, Or.inr ho'⟩
      · exact ⟨hot, Or.inl (Or.inr rfl)⟩
    · rintro ⟨hot, (hs | rfl) | ho'⟩
      · exact Or.inl ⟨hot, Or.inl hs⟩
      · exact Or.inr ⟨rfl, hot⟩
      · exact Or.inl ⟨hot, Or.inr ho'⟩
  · intro r hr _
    rw [Option.map_none, upsert_nothing_table] at hr
    rcases mem_append.1 hr with hr | hr
    · exact h.count r hr
    · -- a row that was missing: its source had no derivation
      obtain ⟨hmem, hnot⟩ := of_mem_upsert_inserted keepsKey_none hr
      obtain ⟨hs, hzero, hedge⟩ := (hrows r).1 hmem
      rw [hzero, eq_comm, refs_eq_zero]
      exact fun o ho => hnot ((h.mem _ _).2 ⟨hs ▸ hedge, Or.inr ⟨o, ho⟩⟩)

end AddSeed

/-! ## A seed less -/

section RemoveSeed

variable [DecidableEq N] {E : N → N → Prop} {S S' : N → Prop} {start : List (Derivation N)}
  {seed : N}

/-- The rows of a lost seed go, unless it is derived. -/
theorem Exact.shrinking_removeSeed (h : Exact E S start) (hS : ∀ x, S' x ↔ S x ∧ x ≠ seed) :
    Shrinking E S' start (start.filter fun r => decide (r.source = seed ∧ r.count = 0))
      (start.filter fun r => !decide (r.source = seed ∧ r.count = 0)) := by
  refine Shrinking.of_exact h _ fun t o => ?_
  have hkept : (t, o) ∈ keys (start.filter fun r => !decide (r.source = seed ∧ r.count = 0)) ↔
      (t, o) ∈ keys start ∧ ¬ (o = seed ∧ refs start seed = 0) := by
    constructor
    · intro hk
      obtain ⟨r, hr, rfl, rfl⟩ := exists_of_mem_keys hk
      obtain ⟨hr, hnot⟩ := mem_filter.1 hr
      refine ⟨mem_keys_of_mem hr, fun ⟨hs, hzero⟩ => ?_⟩
      have hcount : r.count = 0 := by rw [h.count r hr, hs, hzero]
      rw [decide_eq_true ⟨hs, hcount⟩] at hnot
      exact nomatch hnot
    · rintro ⟨hk, hnot⟩
      obtain ⟨r, hr, rfl, rfl⟩ := exists_of_mem_keys hk
      refine mem_keys_of_mem (mem_filter.2 ⟨hr, ?_⟩)
      rw [decide_eq_false fun ⟨hs, hzero⟩ => hnot ⟨hs, by rw [← hs, ← h.count r hr, hzero]⟩]
      rfl
  rw [hkept, h.mem, hS]
  by_cases ho : o = seed
  · subst ho
    rcases Nat.eq_zero_or_pos (refs start o) with hzero | hpos
    · have hnone : ¬ ∃ o', (o, o') ∈ keys start := fun ⟨o', ho'⟩ => refs_eq_zero.1 hzero o' ho'
      simp [hzero, hnone]
    · simp [hpos.ne', refs_pos.1 hpos]
  · simp [ho]

end RemoveSeed

/-! ## New edges -/

section AddEdges

variable [DecidableEq N] {E E' F : N → N → Prop} {S : N → Prop}
  {start settled A B rows : List (Derivation N)} {rank : N → ℕ}

/-- The nodes that new edges lead to. -/
def Reached (E' F : N → N → Prop) (n : N) : Prop :=
  ∃ c p, F c p ∧ ReflTransGen E' p n

omit [DecidableEq N] in
theorem Reached.next {o t : N} (h : Reached E' F o) (hot : E' o t) : Reached E' F t := by
  obtain ⟨c, p, hcp, hpath⟩ := h
  exact ⟨c, p, hcp, hpath.tail hot⟩

/-- New edges change nothing above them. -/
theorem Exact.growing_addEdges (h : Exact E S start) (hrank : ∀ x y, E x y → rank x < rank y)
    (hE : ∀ x y, E' x y ↔ E x y ∨ F x y) (hloop : ∀ c p, F c p → ¬ Reached E' F c) :
    Growing E' S start (Reached E' F) start [] start := by
  refine Growing.of_exact h (fun _ _ => Iff.rfl) (fun o t ho => ?_) fun t o hk => ?_
  · rw [hE, or_iff_left fun hF => hloop o t hF ho]
  · exact (h.derivable_of_mem hrank hk).mono (fun x y hxy => (hE x y).2 (Or.inl hxy)) fun _ hx => hx

omit [DecidableEq N] in
/-- The rows of new edges whose sources are seeds or are derived. -/
theorem feeds_addEdges (hE : ∀ x y, E' x y ↔ E x y ∨ F x y)
    (hloop : ∀ c p, F c p → ¬ Reached E' F c)
    (hrows : ∀ r ∈ rows, F r.source r.node ∧ (S r.source ∨ ∃ o, Derivable E' S r.source o)) :
    Growing.Feeds E' S (Reached E' F) rows where
  source := fun r hr => hloop _ _ (hrows r hr).1
  node := fun r hr => ⟨_, _, (hrows r hr).1, .refl⟩
  bound := fun r hr => by
    obtain ⟨hF, hs | ⟨o, hd⟩⟩ := hrows r hr
    · exact ⟨(hE _ _).2 (Or.inr hF), _, hs, .refl⟩
    · exact hd.next ((hE _ _).2 (Or.inr hF))

/-- **The table after new edges** is exact, when the rows of seeds are inserted first, with the
count `0`, and those of derived nodes then, with the number of their derivations added. -/
theorem Exact.addEdges {direct derived : List (Derivation N)} (h : Exact E S start)
    (hE : ∀ x y, E' x y ↔ E x y ∨ F x y) (hnew : ∀ c p, F c p → ¬ E c p)
    (hdirect : ∀ r : Derivation N, r ∈ direct ↔ r.count = 0 ∧ F r.source r.node ∧ S r.source)
    (hA : Growing E' S start (Reached E' F)
      (upsert key (Option.map mergeCount none) start direct).table [] A)
    (hunique : KeyUnique key derived)
    (hderived : ∀ r : Derivation N, r ∈ derived ↔
      F r.source r.node ∧ 0 < refs A r.source ∧ r.count = refs A r.source)
    (hB : Growing E' S start (Reached E' F)
      (upsert key (Option.map mergeCount (some (· + ·))) A derived).table [] B) :
    Exact E' S B := by
  have hdirectKeys : ∀ t o, (t, o) ∈ keys direct ↔ F o t ∧ S o := by
    simp [mem_keys_iff, hdirect]
  have hderivedKeys : ∀ t o, (t, o) ∈ keys derived ↔ F o t ∧ 0 < refs A o := by
    simp [mem_keys_iff, hderived]
  have hup : ∀ o t, Reached E' F o → E' o t → Reached E' F t := fun _ _ => Reached.next
  -- the nodes that are not above have the derivations they had
  have hbefore : ∀ t o, ¬ Reached E' F t →
      ((t, o) ∈ keys (upsert key (Option.map mergeCount none) start direct).table ↔
        (t, o) ∈ keys start) := by
    intro t o ht
    rw [mem_keys_upsert, or_iff_left]
    exact fun hk => ht ⟨o, t, ((hdirectKeys t o).1 hk).1, .refl⟩
  have hkeysA : ∀ t o, ¬ Reached E' F t → ((t, o) ∈ keys A ↔ (t, o) ∈ keys start) :=
    fun t o ht => hA.mem_keys_of_not_above hup hbefore ht
  have hrefs : ∀ o, ¬ Reached E' F o → refs A o = refs start o :=
    fun o ho => refs_congr hA.unique h.unique fun o' => hkeysA o o' ho
  -- the rows of `A` whose source is not above
  have hrowsA : ∀ r ∈ A, ¬ Reached E' F r.source →
      (r ∈ start ∨ (r ∈ direct ∧ r.key ∉ keys start)) := by
    intro r hr ho
    have hr := (hA.below r ho).1 hr
    rw [Option.map_none, upsert_nothing_table] at hr
    exact (mem_append.1 hr).imp_right (of_mem_upsert_inserted keepsKey_none)
  refine hB.exact h.unique hup ?_ ?_ ?_
  · intro t o ht
    rw [mem_keys_upsert, hkeysA t o ht, or_iff_left]
    exact fun hk => ht ⟨o, t, ((hderivedKeys t o).1 hk).1, .refl⟩
  · intro t o ho
    rw [mem_keys_upsert, hA.mem_keys_settled ho, mem_keys_upsert, hdirectKeys, hderivedKeys,
      hrefs o ho, refs_pos, h.mem, hE]
    tauto
  · intro r hr ho
    rcases of_mem_upsert_update (keepsKey_merge (some _)) hunique hr with
      ⟨hr, hnot⟩ | ⟨hr, _⟩ | ⟨old, hold, row, hrow, hkey, rfl⟩
    · rcases hrowsA r hr ho with hr | ⟨hr, _⟩
      · exact h.count r hr
      · obtain ⟨hzero, hF, _⟩ := (hdirect r).1 hr
        by_contra hne
        refine hnot ((hderivedKeys r.node r.source).2 ⟨hF, ?_⟩)
        rw [hrefs _ ho]
        omega
    · rw [((hderived r).1 hr).2.2, hrefs _ ho]
    · obtain ⟨hF, _, hcount⟩ := (hderived row).1 hrow
      have hnode : old.node = row.node := congrArg Prod.fst hkey
      have hsource : old.source = row.source := congrArg Prod.snd hkey
      have hzero : old.count = 0 := by
        rcases hrowsA old hold ho with hr | ⟨hr, _⟩
        · have hedge := ((h.mem _ _).1 (mem_keys_of_mem hr)).1
          rw [hnode, hsource] at hedge
          exact absurd hedge (hnew _ _ hF)
        · exact ((hdirect old).1 hr).1
      simp only [mergeCount, hzero, hcount, zero_add]
      rw [← hsource]
      exact hrefs _ ho

end AddEdges

/-! ## Edges less -/

section RemoveEdges

variable [DecidableEq N] {E E' : N → N → Prop} {S : N → Prop} {start : List (Derivation N)}

/-- The rows of lost edges go. -/
theorem Exact.shrinking_removeEdges (h : Exact E S start) {q : N × N → Bool}
    (hE : ∀ x y, E' x y ↔ E x y ∧ ¬ q (y, x)) :
    Shrinking E' S start (start.filter fun r => q r.key) (start.filter fun r => !q r.key) := by
  refine Shrinking.of_exact h _ fun t o => ?_
  have hkept : (t, o) ∈ keys (start.filter fun r => !q r.key) ↔
      (t, o) ∈ keys start ∧ ¬ q (t, o) := by
    rw [keys, mem_map_key_filter (q := fun k => !q k), Bool.not_eq_true', Bool.not_eq_true]
    rfl
  rw [hkept, h.mem, hE]
  tauto

end RemoveEdges

/-! ## Tables that are filled -/

section Filling

variable [DecidableEq N]

/-- The table while it is filled, whatever the counts are: what is derived is reached from a seed,
and a node that is not pending is derived with all that it has an edge to. -/
structure Filling (E : N → N → Prop) (S : N → Prop) (pending A : List (Derivation N)) : Prop where
  sound : ∀ t o, (t, o) ∈ keys A → ∃ m, S m ∧ TransGen E m t
  pendingMem : ∀ k ∈ keys pending, k ∈ keys A
  closed : ∀ t o, (t, o) ∈ keys A →
    (∃ o', (t, o') ∈ keys pending) ∨ ∀ p, E t p → ∃ o', (p, o') ∈ keys A
  seeds : ∀ m, S m → ∀ p, E m p → ∃ o, (p, o) ∈ keys A

namespace Filling

variable {E : N → N → Prop} {S S' : N → Prop} {pending before A rows : List (Derivation N)}
  {new : Derivation N} {node t : N} {c : Option (ℕ → ℕ → ℕ)}

/-- The rows of one node that was pending, or of a new seed. -/
theorem feed (h : Filling E S before A) (hS : ∀ m, S m → S' m) (hseed : ∀ m, S' m → S m ∨ m = node)
    (hnode : ∃ m, S' m ∧ ReflTransGen E m node) (hpending : ∀ k ∈ keys pending, k ∈ keys before)
    (hbefore : ∀ t o, (t, o) ∈ keys before → t = node ∨ (t, o) ∈ keys pending)
    (hrows : ∀ t o, (t, o) ∈ keys rows ↔ o = node ∧ E node t) :
    Filling E S' ((upsert key (c.map mergeCount) A rows).inserted ++ pending)
      (upsert key (c.map mergeCount) A rows).table := by
  have hold : ∀ {t}, (∃ o, (t, o) ∈ keys A) →
      ∃ o, (t, o) ∈ keys (upsert key (c.map mergeCount) A rows).table :=
    fun ⟨o, ho⟩ => ⟨o, mem_keys_upsert.2 (Or.inl ho)⟩
  have hfed : ∀ p, E node p → ∃ o, (p, o) ∈ keys (upsert key (c.map mergeCount) A rows).table :=
    fun p hp => ⟨node, mem_keys_upsert.2 (Or.inr ((hrows p node).2 ⟨rfl, hp⟩))⟩
  refine ⟨fun t o hk => ?_, fun k hk => ?_, fun t o hk => ?_, fun m hm p hp => ?_⟩
  · rcases mem_keys_upsert.1 hk with hk | hk
    · obtain ⟨m, hm, hpath⟩ := h.sound t o hk
      exact ⟨m, hS m hm, hpath⟩
    · obtain ⟨m, hm, hpath⟩ := hnode
      exact ⟨m, hm, TransGen.tail' hpath ((hrows t o).1 hk).2⟩
  · rw [keys_append, mem_append, mem_keys_inserted] at hk
    rw [mem_keys_upsert]
    exact hk.elim (fun hk => Or.inr hk.1) fun hk => Or.inl (h.pendingMem k (hpending k hk))
  · rw [keys_append]
    simp only [mem_append]
    by_cases hin : (t, o) ∈ keys A
    · rcases h.closed t o hin with ⟨o', ho'⟩ | hall
      · rcases hbefore t o' ho' with rfl | hwaits
        · exact Or.inr hfed
        · exact Or.inl ⟨o', Or.inr hwaits⟩
      · exact Or.inr fun p hp => hold (hall p hp)
    · refine Or.inl ⟨o, Or.inl (mem_keys_inserted.2 ⟨?_, hin⟩)⟩
      exact (mem_keys_upsert.1 hk).resolve_left hin
  · rcases hseed m hm with hm | rfl
    · exact hold (h.seeds m hm p hp)
    · exact hfed p hp

theorem step (h : Filling E S (new :: pending) A) (hrows : Raises E new rows) :
    Filling E S ((upsert key (c.map mergeCount) A rows).inserted ++ pending)
      (upsert key (c.map mergeCount) A rows).table := by
  obtain ⟨m, hm, hpath⟩ := h.sound new.node new.source (h.pendingMem _ (mem_cons_self ..))
  refine h.feed (fun _ => id) (fun _ => Or.inl) ⟨m, hm, hpath.to_reflTransGen⟩
    (fun k => mem_cons_of_mem _) (fun t o hk => ?_) fun t o => hrows.mem_keys
  exact (mem_cons.1 hk).imp_left fun heq => congrArg Prod.fst heq

omit [DecidableEq N] in
/-- **A table that is filled** derives what is reached from a seed. -/
theorem exists_iff (h : Filling E S [] A) : (∃ o, (t, o) ∈ keys A) ↔ ∃ m, S m ∧ TransGen E m t := by
  constructor
  · rintro ⟨o, ho⟩
    exact h.sound t o ho
  · rintro ⟨m, hm, hpath⟩
    induction hpath with
    | single hedge => exact h.seeds m hm _ hedge
    | tail _ hedge ih =>
      obtain ⟨o, ho⟩ := ih
      rcases h.closed _ o ho with ⟨_, hnone⟩ | hall
      · cases hnone
      · exact hall _ hedge

end Filling

end Filling

end Derivation

end Idhan
