import Mathlib.Data.List.Nodup
import Mathlib.Data.List.Count
import Mathlib.Algebra.Order.Ring.Int

/-!
# Tables with a key

A table is a list of rows, and a unique key of it is a function on its rows that takes every value
at most once.  The statement `INSERT ... ON CONFLICT (key)` goes through its rows in order: a row
whose key is new is appended, a row whose key is taken is dropped (`DO NOTHING`) or merged into the
row that has the key (`DO UPDATE`).  Its `AFTER` triggers are given the appended rows and the merged
ones, so `upsert` returns both.

* `upsert_nothing_table`: with `DO NOTHING` the table is the old one followed by the new rows.
* `mem_map_key_upsert`: the keys after the statement are the old ones and those of its rows.
* `countP_upsert_table`: counting by key, only the appended rows count.
* `keyUnique_upsert`, `KeyUnique.filter`, `KeyUnique.map`: the key stays unique.
* `of_mem_upsert_update`: where a row of the table comes from.
* `upsert_map`: a statement on the image of a table.
* `keyUnique_serial`: the numbers of a `SERIAL` column.
-/

namespace Idhan

open List

variable {ρ κ : Type} (key : ρ → κ)

/-- The key is unique in the table. -/
def KeyUnique (t : List ρ) : Prop :=
  (t.map key).Nodup

/-- A `DO UPDATE` does not change the key. -/
def KeepsKey (onConflict : Option (ρ → ρ → ρ)) : Prop :=
  ∀ f, onConflict = some f → ∀ old new, key old = key new → key (f old new) = key old

variable {key} {t : List ρ} {k : κ} {new : ρ} {p : ρ → Bool} {r : ρ} {f : ρ → ρ → ρ}

theorem keepsKey_none : KeepsKey key none := fun _ h => nomatch h

theorem keepsKey_some (h : ∀ old new, key (f old new) = key old) : KeepsKey key (some f) := by
  intro g hg old new _
  rw [← Option.some.inj hg]
  exact h old new

theorem KeyUnique.eq_of_key_eq (h : KeyUnique key t) {r r' : ρ} (hr : r ∈ t)
    (hr' : r' ∈ t) (hk : key r = key r') : r = r' :=
  inj_on_of_nodup_map h hr hr' hk

theorem KeyUnique.filter (h : KeyUnique key t) (p : ρ → Bool) :
    KeyUnique key (t.filter p) :=
  h.sublist (filter_sublist.map key)

/-- The keys of the rows that a condition on the key selects. -/
theorem mem_map_key_filter {q : κ → Bool} :
    k ∈ (t.filter fun r => q (key r)).map key ↔ k ∈ t.map key ∧ q k := by
  simp only [mem_map, mem_filter]
  constructor
  · rintro ⟨r, ⟨hr, hq⟩, rfl⟩
    exact ⟨⟨r, hr, rfl⟩, hq⟩
  · rintro ⟨⟨r, hr, rfl⟩, hq⟩
    exact ⟨r, ⟨hr, hq⟩, rfl⟩

/-- A condition that fixes the key selects one row at most. -/
theorem KeyUnique.filter_eq_singleton (h : KeyUnique key t)
    (hr : r ∈ t) (hp : p r) (hk : ∀ r' ∈ t, p r' → key r' = key r) : t.filter p = [r] := by
  have hall : ∀ r' ∈ t.filter p, r' = r := fun r' hr' => by
    obtain ⟨hmem, hp'⟩ := mem_filter.1 hr'
    exact h.eq_of_key_eq hmem hr (hk r' hmem hp')
  have hmem : r ∈ t.filter p := mem_filter.2 ⟨hr, hp⟩
  have hnodup : (t.filter p).Nodup := Nodup.of_map key (h.filter p)
  rw [eq_replicate_of_mem hall] at hnodup hmem ⊢
  have hle := nodup_replicate.1 hnodup
  have hne : (t.filter p).length ≠ 0 := (mem_replicate.1 hmem).1
  rw [show (t.filter p).length = 1 by omega, replicate_one]

/-- A change of the rows that leaves their keys alone keeps the key unique. -/
theorem KeyUnique.map (h : KeyUnique key t) {f : ρ → ρ}
    (hf : ∀ r ∈ t, key (f r) = key r) : KeyUnique key (t.map f) := by
  have hmap : (t.map f).map key = t.map key := by
    rw [map_map]
    exact map_congr_left fun r hr => hf r hr
  rw [KeyUnique, hmap]
  exact h

theorem KeyUnique.append_singleton (h : KeyUnique key t)
    (hn : key new ∉ t.map key) : KeyUnique key (t ++ [new]) := by
  rw [KeyUnique, map_append, map_singleton]
  exact nodup_append.2 ⟨h, nodup_singleton _, fun a ha b hb hab => by
    rw [mem_singleton] at hb
    exact hn (hb ▸ hab ▸ ha)⟩

/-- Fewer rows satisfy the stronger condition, if some row satisfies only the weaker one. -/
theorem countP_lt_countP {q : ρ → Bool} (hpq : ∀ r ∈ t, p r → q r) (hr : r ∈ t) (hq : q r)
    (hp : ¬ p r) : t.countP p < t.countP q := by
  have hfilter : t.countP p = ((t.filter q).filter p).length := by
    rw [countP_eq_length_filter, filter_filter]
    refine congrArg List.length (filter_congr fun x hx => ?_)
    cases hx' : p x with
    | false => rfl
    | true => rw [hpq x hx hx', Bool.and_self]
  rw [hfilter, countP_eq_length_filter]
  exact length_filter_lt_length_iff_exists.2 ⟨r, mem_filter.2 ⟨hr, hq⟩, hp⟩

/-! ## `INSERT ... ON CONFLICT` -/

variable [DecidableEq κ] (key)

/-- The table after an `INSERT ... ON CONFLICT`, with the rows that its triggers are given. -/
structure Upserted (ρ : Type) where
  table : List ρ
  inserted : List ρ
  updated : List (ρ × ρ)

/-- One row of an `INSERT ... ON CONFLICT`.  `none` is `DO NOTHING`, and `some f` is the `DO UPDATE`
that puts `f old new` in the place of the row `old` that has the key of `new`. -/
def upsertRow (onConflict : Option (ρ → ρ → ρ)) (s : Upserted ρ) (new : ρ) : Upserted ρ :=
  match s.table.find? fun r => key r = key new with
  | none => { s with table := s.table ++ [new], inserted := s.inserted ++ [new] }
  | some old =>
    match onConflict with
    | none => s
    | some f =>
      { s with
        table := s.table.map fun r => if key r = key new then f r new else r
        updated := s.updated ++ [(old, f old new)] }

/-- `INSERT ... ON CONFLICT` of several rows. -/
def upsert (onConflict : Option (ρ → ρ → ρ)) (t rows : List ρ) : Upserted ρ :=
  rows.foldl (upsertRow key onConflict) ⟨t, [], []⟩

variable {key}

theorem find?_key_eq_none :
    (t.find? fun r => key r = k) = none ↔ k ∉ t.map key := by
  simp only [find?_eq_none, decide_eq_true_eq, mem_map, not_exists, not_and]

theorem find?_key_eq_some (h : (t.find? fun r => key r = k) = some r) : r ∈ t ∧ key r = k :=
  ⟨mem_of_find?_eq_some h, by simpa using find?_some h⟩

theorem KeyUnique.find?_eq_some (h : KeyUnique key t) (hr : r ∈ t) :
    (t.find? fun r' => key r' = key r) = some r := by
  cases hf : t.find? fun r' => key r' = key r with
  | none =>
    rw [find?_key_eq_none] at hf
    exact absurd (mem_map_of_mem hr) hf
  | some r' =>
    obtain ⟨hr', hk⟩ := find?_key_eq_some hf
    rw [h.eq_of_key_eq hr' hr hk]

/-! ## One row -/

/-- The two outcomes of one row: it is appended, or a row has its key already. -/
theorem upsertRow_cases (key : ρ → κ) (onConflict : Option (ρ → ρ → ρ)) (s : Upserted ρ) (new : ρ) :
    (key new ∉ s.table.map key ∧ upsertRow key onConflict s new =
        { s with table := s.table ++ [new], inserted := s.inserted ++ [new] }) ∨
      (∃ old ∈ s.table, key old = key new ∧ upsertRow key onConflict s new =
        match onConflict with
        | none => s
        | some f =>
          { s with
            table := s.table.map fun r => if key r = key new then f r new else r
            updated := s.updated ++ [(old, f old new)] }) := by
  unfold upsertRow
  cases h : s.table.find? fun r => key r = key new with
  | none => exact Or.inl ⟨find?_key_eq_none.1 h, rfl⟩
  | some old =>
    obtain ⟨hmem, hk⟩ := find?_key_eq_some h
    exact Or.inr ⟨old, hmem, hk, rfl⟩

variable {onConflict : Option (ρ → ρ → ρ)} {rows : List ρ} {α : Type} {next : ℕ} {number : ρ → ℕ}
  {make : ℕ → α → ρ} {items : List α}

theorem map_key_merge (hf : KeepsKey key (some f)) (t : List ρ) (new : ρ) :
    (t.map fun r => if key r = key new then f r new else r).map key = t.map key := by
  rw [map_map]
  refine map_congr_left fun r _ => ?_
  by_cases h : key r = key new
  · simp only [Function.comp_apply, if_pos h]
    exact hf f rfl r new h
  · simp only [Function.comp_apply, if_neg h]

/-! ## The rows of a statement, by induction -/

/-- An invariant of the rows of a statement: it holds at the start, an appended row keeps it and so
does a row that meets its key. -/
theorem upsert_induction (key : ρ → κ) (onConflict : Option (ρ → ρ → ρ)) (t rows : List ρ)
    {P : List ρ → Upserted ρ → Prop}
    (start : P rows ⟨t, [], []⟩)
    (append : ∀ new rest s, new ∈ rows → P (new :: rest) s → key new ∉ s.table.map key →
      P rest { s with table := s.table ++ [new], inserted := s.inserted ++ [new] })
    (skip : ∀ new rest s old, new ∈ rows → P (new :: rest) s → old ∈ s.table → key old = key new →
      onConflict = none → P rest s)
    (merge : ∀ new rest s old f, new ∈ rows → P (new :: rest) s → old ∈ s.table →
      key old = key new → onConflict = some f →
      P rest
        { s with
          table := s.table.map fun r => if key r = key new then f r new else r
          updated := s.updated ++ [(old, f old new)] }) :
    P [] (upsert key onConflict t rows) := by
  have go : ∀ rest s, rest ⊆ rows → P rest s → P [] (rest.foldl (upsertRow key onConflict) s) := by
    intro rest
    induction rest with
    | nil => exact fun _ _ h => h
    | cons new rest ih =>
      intro s hsub h
      obtain ⟨hnew, hsub⟩ := cons_subset.1 hsub
      rw [foldl_cons]
      refine ih _ hsub ?_
      rcases upsertRow_cases key onConflict s new with ⟨hn, he⟩ | ⟨old, hold, hk, he⟩
      · rw [he]
        exact append new rest s hnew h hn
      · rw [he]
        cases hc : onConflict with
        | none => exact skip new rest s old hnew h hold hk hc
        | some f => exact merge new rest s old f hnew h hold hk hc
  exact go rows _ (Subset.refl rows) start

/-- A row with a new key is appended. -/
theorem upsert_singleton (hn : key new ∉ t.map key) :
    upsert key onConflict t [new] = ⟨t ++ [new], [new], []⟩ := by
  rcases upsertRow_cases key onConflict ⟨t, [], []⟩ new with ⟨_, he⟩ | ⟨old, hold, hk, _⟩
  · exact he
  · exact absurd (hk ▸ mem_map_of_mem hold) hn

/-- With `DO NOTHING` a row whose key is taken changes nothing. -/
theorem upsert_nothing_singleton (hn : key new ∈ t.map key) :
    upsert key none t [new] = ⟨t, [], []⟩ := by
  rcases upsertRow_cases key none ⟨t, [], []⟩ new with ⟨hnot, _⟩ | ⟨_, _, _, he⟩
  · exact absurd hn hnot
  · exact he

/-- The keys while a statement still has the rows `rest` to go through: the appended rows have
brought the new keys, each once, and every row before `rest` finds its key in the table. -/
structure Upserted.Keyed (key : ρ → κ) (t rows rest : List ρ) (s : Upserted ρ) : Prop where
  table : s.table.map key = t.map key ++ s.inserted.map key
  unique : KeyUnique key s.inserted
  inserted : ∀ r ∈ s.inserted, r ∈ rows ∧ key r ∉ t.map key
  found : ∀ k ∈ rows.map key, k ∈ s.table.map key ∨ k ∈ rest.map key

omit [DecidableEq κ] in
theorem Upserted.Keyed.append {rest : List ρ} {s : Upserted ρ}
    (hs : s.Keyed key t rows (new :: rest)) (hnew : new ∈ rows) (hn : key new ∉ s.table.map key) :
    Upserted.Keyed key t rows rest { s with
      table := s.table ++ [new], inserted := s.inserted ++ [new] } := by
  obtain ⟨hold, hinserted⟩ := not_or.1 (mt mem_append.2 (hs.table ▸ hn))
  refine ⟨by simp [hs.table], hs.unique.append_singleton hinserted, fun r hr => ?_, fun k hk => ?_⟩
  · rcases mem_append.1 hr with hr | hr
    · exact hs.inserted r hr
    · exact mem_singleton.1 hr ▸ ⟨hnew, hold⟩
  · rw [map_append, mem_append, or_assoc]
    exact (hs.found k hk).imp_right fun h => (mem_cons.1 h).imp_left mem_singleton.2

omit [DecidableEq κ] in
/-- A row that meets its key changes no key. -/
theorem Upserted.Keyed.meet {rest : List ρ} {s s' : Upserted ρ} {old : ρ}
    (hs : s.Keyed key t rows (new :: rest)) (hold : old ∈ s.table) (hk : key old = key new)
    (htable : s'.table.map key = s.table.map key)
    (hinserted : s'.inserted = s.inserted) : s'.Keyed key t rows rest := by
  refine ⟨by rw [htable, hinserted, hs.table], hinserted ▸ hs.unique, hinserted ▸ hs.inserted,
    fun k hkey => ?_⟩
  rw [htable]
  refine (hs.found k hkey).elim Or.inl fun h => (mem_cons.1 h).imp_left fun he => ?_
  exact he ▸ hk ▸ mem_map_of_mem hold

section

variable (hc : KeepsKey key onConflict)
include hc

theorem keyed_upsert (t rows : List ρ) : (upsert key onConflict t rows).Keyed key t rows [] := by
  refine upsert_induction key onConflict t rows
    ⟨by simp, nodup_nil, fun _ h => (nomatch h), fun _ => Or.inr⟩ ?_ ?_ ?_
  · exact fun new rest s hnew hs hn => hs.append hnew hn
  · exact fun new rest s old _ hs hold hk _ => hs.meet hold hk rfl rfl
  · intro new rest s old f _ hs hold hk hf
    subst hf
    exact hs.meet hold hk (map_key_merge hc s.table new) rfl

/-- An appended row is one of the statement's rows, and its key was not taken. -/
theorem of_mem_upsert_inserted (hr : r ∈ (upsert key onConflict t rows).inserted) :
    r ∈ rows ∧ key r ∉ t.map key :=
  (keyed_upsert hc t rows).inserted r hr

/-- The key is unique in the appended rows. -/
theorem keyUnique_upsert_inserted : KeyUnique key (upsert key onConflict t rows).inserted :=
  (keyed_upsert hc t rows).unique

/-- The keys after the statement are the old ones and those of its rows. -/
theorem mem_map_key_upsert : k ∈ (upsert key onConflict t rows).table.map key ↔
    k ∈ t.map key ∨ k ∈ rows.map key := by
  have hs := keyed_upsert hc t rows
  constructor
  · rw [hs.table, mem_append]
    refine Or.imp_right fun h => ?_
    obtain ⟨r, hr, rfl⟩ := mem_map.1 h
    exact mem_map_of_mem (hs.inserted r hr).1
  · rintro (h | h)
    · exact hs.table ▸ mem_append_left _ h
    · exact (hs.found k h).resolve_right not_mem_nil

/-- The keys of the appended rows are the new ones. -/
theorem mem_map_key_upsert_inserted : k ∈ (upsert key onConflict t rows).inserted.map key ↔
    k ∈ rows.map key ∧ k ∉ t.map key := by
  constructor
  · intro h
    obtain ⟨r, hr, rfl⟩ := mem_map.1 h
    exact (of_mem_upsert_inserted hc hr).imp_left mem_map_of_mem
  · rintro ⟨hrow, hnot⟩
    have h : k ∈ (upsert key onConflict t rows).table.map key :=
      (mem_map_key_upsert hc).2 (Or.inr hrow)
    rw [(keyed_upsert hc t rows).table] at h
    exact (mem_append.1 h).resolve_left hnot

/-- The key stays unique. -/
theorem keyUnique_upsert (h : KeyUnique key t) :
    KeyUnique key (upsert key onConflict t rows).table := by
  rw [KeyUnique, (keyed_upsert hc t rows).table]
  exact h.append (keyUnique_upsert_inserted hc) fun k hk hnew =>
    ((mem_map_key_upsert_inserted hc).1 hnew).2 hk

end

/-- With `DO NOTHING` on whole rows, the rows after the statement are the old ones and the new
ones. -/
theorem mem_upsert_id [DecidableEq ρ] : r ∈ (upsert id none t rows).table ↔ r ∈ t ∨ r ∈ rows := by
  have h : r ∈ (upsert id none t rows).table.map id ↔ r ∈ t.map id ∨ r ∈ rows.map id :=
    mem_map_key_upsert keepsKey_none
  simpa only [map_id] using h

/-- With `DO NOTHING` the table is the old one followed by the appended rows. -/
theorem upsert_nothing_table (t rows : List ρ) :
    (upsert key none t rows).table = t ++ (upsert key none t rows).inserted := by
  refine upsert_induction key none t rows
    (P := fun _ s => s.table = t ++ s.inserted) (append_nil t).symm ?_ ?_ ?_
  · intro new rest s _ hs _
    rw [← append_assoc, ← hs]
  · exact fun _ _ _ _ _ hs _ _ _ => hs
  · exact fun _ _ _ _ _ _ _ _ _ hf => nomatch hf

theorem upsert_nothing_sublist (t rows : List ρ) :
    (upsert key none t rows).table.Sublist (t ++ rows) := by
  have h := upsert_induction key none t rows
    (P := fun rest s => (s.table ++ rest).Sublist (t ++ rows)) (Sublist.refl _) ?_ ?_ ?_
  · rwa [append_nil] at h
  · intro new rest s _ hs _
    rwa [append_assoc]
  · exact fun new rest s old _ hs _ _ _ => (sublist_cons_self new rest).append_left s.table |>.trans
      hs
  · exact fun _ _ _ _ _ _ _ _ _ hf => nomatch hf

/-! ## Serial numbers -/

/-- The rows that a statement proposes to a table with a `SERIAL` column: each takes the next
number, whether it is inserted or not. -/
def serial {α : Type} (next : ℕ) (make : ℕ → α → ρ) (items : List α) : List ρ :=
  (items.zipIdx next).map fun item => make item.2 item.1

theorem exists_mem_serial (make : ℕ → α → ρ) {item : α} (h : item ∈ items) :
    ∃ n, make n item ∈ serial next make items := by
  rw [← zipIdx_map_fst next items] at h
  obtain ⟨numbered, hmem, rfl⟩ := mem_map.1 h
  exact ⟨numbered.2, mem_map_of_mem hmem⟩

theorem map_number_serial (h : ∀ n item, number (make n item) = n) :
    (serial next make items).map number = List.range' next items.length := by
  rw [serial, map_map, ← zipIdx_map_snd next items]
  exact map_congr_left fun item _ => h item.2 item.1

/-- The numbers stay unique, and below the next one. -/
theorem keyUnique_serial (hmake : ∀ n item, number (make n item) = n)
    (hunique : KeyUnique number t) (hnext : ∀ r ∈ t, number r < next) (items : List α) :
    KeyUnique number (upsert key none t (serial next make items)).table ∧
      ∀ r ∈ (upsert key none t (serial next make items)).table, number r < next + items.length := by
  have hsub : (upsert key none t (serial next make items)).table.Sublist
      (t ++ serial next make items) := upsert_nothing_sublist _ _
  have hnumbers : (serial next make items).map number = List.range' next items.length :=
    map_number_serial hmake
  constructor
  · refine Nodup.sublist (hsub.map number) ?_
    rw [map_append, hnumbers]
    refine Nodup.append hunique nodup_range' fun n hold hnew => ?_
    obtain ⟨r, hr, rfl⟩ := mem_map.1 hold
    have := hnext r hr
    have := (mem_range'_1.1 hnew).1
    omega
  · intro r hr
    rcases mem_append.1 (hsub.subset hr) with hold | hnew
    · have := hnext r hold
      omega
    · have hmem : number r ∈ List.range' next items.length := hnumbers ▸ mem_map_of_mem hnew
      exact (mem_range'_1.1 hmem).2

/-- Counting by key, only the appended rows count. -/
theorem countP_upsert_table (hc : KeepsKey key onConflict) (t rows : List ρ) (p : κ → Bool) :
    (upsert key onConflict t rows).table.countP (fun r => p (key r)) =
      t.countP (fun r => p (key r)) +
        (upsert key onConflict t rows).inserted.countP (fun r => p (key r)) := by
  have hcount : ∀ t : List ρ, t.countP (fun r => p (key r)) = (t.map key).countP p :=
    fun t => countP_map.symm
  rw [hcount, hcount, hcount, (keyed_upsert hc t rows).table, countP_append]

/-- A merged row keeps its key. -/
theorem key_of_mem_upsert_updated (hc : KeepsKey key onConflict) {r : ρ × ρ}
    (hr : r ∈ (upsert key onConflict t rows).updated) : key r.2 = key r.1 := by
  have h := upsert_induction key onConflict t rows
    (P := fun _ s => ∀ r ∈ s.updated, key r.2 = key r.1) (fun _ h => nomatch h) ?_ ?_ ?_
  · exact h r hr
  · exact fun _ _ _ _ hs _ => hs
  · exact fun _ _ _ _ _ hs _ _ _ => hs
  · intro new rest s old f _ hs _ hk hf r hr
    rcases mem_append.1 hr with hr | hr
    · exact hs r hr
    · rw [mem_singleton.1 hr]
      exact hc f hf old new hk

/-- With a `DO UPDATE` that puts the new row in the place of the old one, a row of the table is a
new one, or an old one that no new row has replaced. -/
theorem of_mem_upsert_replace (hf : ∀ old new, key old = key new → f old new = new)
    (hr : r ∈ (upsert key (some f) t rows).table) : r ∈ rows ∨ (r ∈ t ∧ key r ∉ rows.map key) := by
  have h := upsert_induction key (some f) t rows
    (P := fun rest s => ∀ r ∈ s.table,
      r ∈ rows ∨ (r ∈ t ∧ (key r ∈ rows.map key → key r ∈ rest.map key)))
    (fun r hr => Or.inr ⟨hr, id⟩) ?_ ?_ ?_
  · refine (h r hr).imp_right fun ⟨hmem, hkey⟩ => ⟨hmem, fun hrows => ?_⟩
    exact not_mem_nil (hkey hrows)
  · intro new rest s hnew hs hn r hr
    rcases mem_append.1 hr with hr | hr
    · refine (hs r hr).imp_right fun ⟨hmem, hkey⟩ => ⟨hmem, fun hrows => ?_⟩
      exact (mem_cons.1 (hkey hrows)).resolve_left fun he => hn (he ▸ mem_map_of_mem hr)
    · exact Or.inl (mem_singleton.1 hr ▸ hnew)
  · exact fun _ _ _ _ _ _ _ _ hnone => nomatch hnone
  · intro new rest s old g hnew hs _ _ hg r hr
    obtain ⟨r', hr', rfl⟩ := mem_map.1 hr
    split_ifs with hk
    · rw [← Option.some.inj hg, hf r' new hk]
      exact Or.inl hnew
    · refine (hs r' hr').imp_right fun ⟨hmem, hkey⟩ => ⟨hmem, fun hrows => ?_⟩
      exact (mem_cons.1 (hkey hrows)).resolve_left hk

/-- A row whose key no new row has stays. -/
theorem mem_upsert_of_mem (hr : r ∈ t) (hk : key r ∉ rows.map key) :
    r ∈ (upsert key onConflict t rows).table := by
  have h := upsert_induction key onConflict t rows
    (P := fun _ s => r ∈ s.table) hr ?_ ?_ ?_
  · exact h
  · exact fun _ _ _ _ hs _ => mem_append_left _ hs
  · exact fun _ _ _ _ _ hs _ _ _ => hs
  · intro new rest s old f hnew hs _ _ _
    refine mem_map.2 ⟨r, hs, if_neg fun he => hk ?_⟩
    exact he ▸ mem_map_of_mem hnew

/-- A row whose key no new row has was there before. -/
theorem of_mem_upsert (hc : KeepsKey key onConflict)
    (hr : r ∈ (upsert key onConflict t rows).table) (hk : key r ∉ rows.map key) : r ∈ t := by
  have h := upsert_induction key onConflict t rows
    (P := fun _ s => ∀ r ∈ s.table, key r ∉ rows.map key → r ∈ t) (fun _ h _ => h) ?_ ?_ ?_
  · exact h r hr hk
  · intro new rest s hnew hs _ r hr hk
    rcases mem_append.1 hr with hr | hr
    · exact hs r hr hk
    · rw [mem_singleton.1 hr] at hk
      exact absurd (mem_map_of_mem hnew) hk
  · exact fun _ _ _ _ _ hs _ _ _ => hs
  · intro new rest s old f hrow hs _ _ hf r hr hk
    obtain ⟨r', hr', rfl⟩ := mem_map.1 hr
    split_ifs at hk ⊢ with hnew
    · rw [hc f hf r' new hnew, hnew] at hk
      exact absurd (mem_map_of_mem hrow) hk
    · exact hs r' hr' hk

/-- With a `DO UPDATE` and at most one new row for a key, a row of the table is an old one that no
new row meets, or a new one whose key was not taken, or the merge of an old row and a new one. -/
theorem of_mem_upsert_update (hc : KeepsKey key (some f)) (hrows : KeyUnique key rows)
    (hr : r ∈ (upsert key (some f) t rows).table) :
    (r ∈ t ∧ key r ∉ rows.map key) ∨ (r ∈ rows ∧ key r ∉ t.map key) ∨
      ∃ old ∈ t, ∃ new ∈ rows, key old = key new ∧ r = f old new := by
  have h := upsert_induction key (some f) t rows
    (P := fun rest s => KeyUnique key rest ∧
      (∀ k ∈ t.map key, k ∈ s.table.map key) ∧
      ∀ r ∈ s.table, (r ∈ t ∧ (key r ∈ rows.map key → key r ∈ rest.map key)) ∨
        (key r ∉ rest.map key ∧ ((r ∈ rows ∧ key r ∉ t.map key) ∨
          ∃ old ∈ t, ∃ new ∈ rows, key old = key new ∧ r = f old new)))
    ⟨hrows, fun _ h => h, fun r hr => Or.inl ⟨hr, id⟩⟩ ?_ ?_ ?_
  · rcases h.2.2 r hr with ⟨hmem, hkey⟩ | ⟨_, h⟩
    · exact Or.inl ⟨hmem, fun hk => not_mem_nil (hkey hk)⟩
    · exact Or.inr h
  · rintro new rest s hrow ⟨hunique, hkeys, hs⟩ hn
    obtain ⟨hnew, hunique⟩ := nodup_cons.1 hunique
    refine ⟨hunique, fun k hk => ?_, fun r hr => ?_⟩
    · rw [map_append]
      exact mem_append_left _ (hkeys k hk)
    · rcases mem_append.1 hr with hr | hr
      · refine (hs r hr).imp (fun h => ⟨h.1, fun hk => ?_⟩) fun h => ⟨fun hk => ?_, h.2⟩
        · exact (mem_cons.1 (h.2 hk)).resolve_left fun he => hn (he ▸ mem_map_of_mem hr)
        · exact h.1 (mem_cons_of_mem _ hk)
      · rw [mem_singleton.1 hr]
        exact Or.inr ⟨hnew, Or.inl ⟨hrow, fun hk => hn (hkeys _ hk)⟩⟩
  · exact fun _ _ _ _ _ _ _ _ hnone => nomatch hnone
  · rintro new rest s old g hrow ⟨hunique, hkeys, hs⟩ _ _ hg
    cases hg
    obtain ⟨hnew, hunique⟩ := nodup_cons.1 hunique
    refine ⟨hunique, fun k hk => ?_, fun r hr => ?_⟩
    · rw [map_key_merge hc]
      exact hkeys k hk
    · obtain ⟨r', hr', rfl⟩ := mem_map.1 hr
      split_ifs with hk
      · -- the row that meets `new` is an old one: `new` is the only row with its key
        rcases hs r' hr' with ⟨hmem, _⟩ | ⟨hnot, _⟩
        · refine Or.inr ⟨?_, Or.inr ⟨r', hmem, new, hrow, hk, rfl⟩⟩
          rw [hc f rfl r' new hk, hk]
          exact hnew
        · exact absurd (hk ▸ mem_cons_self ..) hnot
      · refine (hs r' hr').imp (fun h => ⟨h.1, fun hrows => ?_⟩) fun h => ⟨fun hrest => ?_, h.2⟩
        · exact (mem_cons.1 (h.2 hrows)).resolve_left hk
        · exact h.1 (mem_cons_of_mem _ hrest)

/-! ## Images of tables -/

section Image

variable {σ κ' γ : Type} [DecidableEq κ'] {key' : σ → κ'} {g : ρ → σ} {φ : κ → κ'}
  {merge : γ → ρ → ρ → ρ} {merge' : γ → σ → σ → σ}

/-- The image of a table, with the rows that its triggers are given. -/
def Upserted.map (g : ρ → σ) (s : Upserted ρ) : Upserted σ :=
  ⟨s.table.map g, s.inserted.map g, s.updated.map (Prod.map g g)⟩

section

variable (hφ : Function.Injective φ) (hkey : ∀ r, key' (g r) = φ (key r))
  (hmerge : ∀ c old new, merge' c (g old) (g new) = g (merge c old new)) (c : Option γ)
include hφ hkey hmerge c

theorem upsertRow_map (s : Upserted ρ) (new : ρ) :
    upsertRow key' (c.map merge') (s.map g) (g new) =
    (upsertRow key (c.map merge) s new).map g := by
  have hfind : (s.table.map g).find? (fun r => key' r = key' (g new)) =
      (s.table.find? fun r => key r = key new).map g := by
    rw [find?_map]
    simp only [Function.comp_def, hkey, hφ.eq_iff]
  unfold upsertRow
  rw [show (s.map g).table = s.table.map g from rfl, hfind]
  cases s.table.find? fun r => key r = key new with
  | none => simp [Upserted.map]
  | some old =>
    cases c with
    | none => rfl
    | some c =>
      simp only [Option.map_some, Upserted.map, hmerge, map_map, map_append, map_cons,
        map_nil, Prod.map_apply, Upserted.mk.injEq, and_true]
      refine map_congr_left fun r _ => ?_
      simp only [Function.comp_apply, hkey, hφ.eq_iff, hmerge]
      split_ifs <;> rfl

/-- **A statement on the image of a table**: a map that respects the key and the merge. -/
theorem upsert_map (t rows : List ρ) :
    upsert key' (c.map merge') (t.map g) (rows.map g) =
    (upsert key (c.map merge) t rows).map g := by
  have go : ∀ (rows : List ρ) (s : Upserted ρ),
      (rows.map g).foldl (upsertRow key' (c.map merge')) (s.map g) =
        (rows.foldl (upsertRow key (c.map merge)) s).map g := by
    intro rows
    induction rows with
    | nil => exact fun _ => rfl
    | cons new rest ih =>
      intro s
      rw [map_cons, foldl_cons, foldl_cons, upsertRow_map hφ hkey hmerge, ih]
  exact go rows ⟨t, [], []⟩

end

end Image

end Idhan
