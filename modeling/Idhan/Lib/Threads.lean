import Mathlib.Algebra.BigOperators.Group.List.Basic
import Mathlib.Algebra.Order.BigOperators.Group.List
import Mathlib.Tactic.Abel

/-!
# Threads over a shared state

Threads that share a state, each with a list of the actions it has still to take.  An action reads
and changes the shared state in one piece, and puts the actions of what it calls in front of the
rest of its thread.  A new thread begins with one of the entry actions.

What is handed from thread to thread is kept track of by a weight on the actions.  The load is what
all the actions that are still to be taken weigh together, and an action that puts as much into the
state or into its calls as it weighs itself leaves the balance as it is.

A fact about the shared state that every action keeps holds in every run
(`Threads.Run.shared_of_act`).  A fact about who is to do something is a balance
(`Threads.Run.balanced_with`): since a weight is a sum over all threads, an action is compared with
its own calls only, and the other threads need not be mentioned.  `Threads.Run.covered` is the same
with some of the load given up on the way.
-/

namespace Idhan

open List

/-- A shared state, and for each thread the actions it has still to take. -/
structure Threads (σ α : Type) where
  shared : σ
  programs : List (List α)

namespace Threads

variable {σ α M : Type} {act : α → σ → σ → List α → Prop} {entry : α → Prop}
  {allowed : Threads σ α → α → Prop} {threads start : Threads σ α} {weight : α → M} {action : α}

/-- One action of one thread, or the beginning of a new thread. -/
inductive Step (act : α → σ → σ → List α → Prop) (entry : α → Prop)
    (allowed : Threads σ α → α → Prop) : Threads σ α → Threads σ α → Prop
  | run {shared shared' : σ} {before after : List (List α)} {action : α} {rest calls : List α} :
      act action shared shared' calls →
      allowed ⟨shared, before ++ (action :: rest) :: after⟩ action →
      Step act entry allowed ⟨shared, before ++ (action :: rest) :: after⟩ ⟨shared',
        before ++ (calls ++ rest) :: after⟩
  | spawn {threads : Threads σ α} {action : α} : entry action →
      Step act entry allowed threads ⟨threads.shared, threads.programs ++ [[action]]⟩

/-- What is reached from `start` by actions which are all allowed where they are taken. -/
inductive Run (act : α → σ → σ → List α → Prop) (entry : α → Prop)
    (allowed : Threads σ α → α → Prop) (start : Threads σ α) : Threads σ α → Prop
  | start : Run act entry allowed start start
  | step {threads threads' : Threads σ α} : Run act entry allowed start threads →
      Step act entry allowed threads threads' → Run act entry allowed start threads'

/-- The thread between `before` and `after` takes its next action. -/
theorem Run.take {shared shared' : σ} (before after : List (List α)) {rest calls : List α}
    (hrun : Run act entry allowed start ⟨shared, before ++ (action :: rest) :: after⟩)
    (h : act action shared shared' calls)
    (hallowed : allowed ⟨shared, before ++ (action :: rest) :: after⟩ action) :
    Run act entry allowed start ⟨shared', before ++ (calls ++ rest) :: after⟩ :=
  hrun.step (.run h hallowed)

/-- A new thread begins. -/
theorem Run.enter (action : α) (hentry : entry action)
    (hrun : Run act entry allowed start threads) :
    Run act entry allowed start ⟨threads.shared, threads.programs ++ [[action]]⟩ :=
  hrun.step (.spawn hentry)

theorem Run.trans {threads' : Threads σ α} (hrun : Run act entry allowed start threads)
    (hlater : Run act entry allowed threads threads') : Run act entry allowed start threads' := by
  induction hlater with
  | start => exact hrun
  | step _ hstep ih => exact ih.step hstep

theorem Run.mono {allowed' : Threads σ α → α → Prop}
    (h : ∀ threads action, allowed threads action → allowed' threads action)
    (hrun : Run act entry allowed start threads) : Run act entry allowed' start threads := by
  induction hrun with
  | start => exact .start
  | step _ hstep ih =>
    cases hstep with
    | run htaken hallowed => exact ih.step (.run htaken (h _ _ hallowed))
    | spawn hentry => exact ih.step (.spawn hentry)

/-- All the actions that are still to be taken. -/
def actions (threads : Threads σ α) : List α :=
  threads.programs.flatten

/-- What a list of actions weighs. -/
def weigh [AddCommMonoid M] (weight : α → M) (program : List α) : M :=
  (program.map weight).sum

/-- What all the actions that are still to be taken weigh. -/
def load [AddCommMonoid M] (weight : α → M) (threads : Threads σ α) : M :=
  weigh weight threads.actions

section Weights

variable [AddCommMonoid M] {weight : α → M} {start threads threads' : Threads σ α}

section

variable (weight)

@[simp]
theorem weigh_nil : weigh weight [] = 0 :=
  rfl

@[simp]
theorem weigh_cons (action : α) (rest : List α) :
    weigh weight (action :: rest) = weight action + weigh weight rest := by
  simp [weigh]

@[simp]
theorem weigh_append (first second : List α) :
    weigh weight (first ++ second) = weigh weight first + weigh weight second := by
  simp [weigh]

theorem weigh_flatMap {β : Type} (f : β → List α) (items : List β) :
    weigh weight (items.flatMap f) = (items.map fun item => weigh weight (f item)).sum := by
  induction items with
  | nil => rfl
  | cons item items ih => simp [ih]

theorem weigh_map_eq_zero {β : Type} {f : β → α} (items : List β)
    (hf : ∀ item, weight (f item) = 0) : weigh weight (items.map f) = 0 := by
  rw [weigh, map_map]
  exact sum_eq_zero (by simp [hf])

/-- An action that is taken gives its own weight for the weight of its calls, next to all the
others. -/
theorem load_run (shared shared' : σ) (before after : List (List α)) (action : α)
    (rest calls : List α) : ∃ others, load weight ⟨shared, before ++ (action :: rest) :: after⟩ =
      others + weight action ∧
      load weight ⟨shared', before ++ (calls ++ rest) :: after⟩ = others + weigh weight calls := by
  refine ⟨weigh weight before.flatten + (weigh weight rest + weigh weight after.flatten), ?_, ?_⟩
  · simp only [load, actions, flatten_append, flatten_cons, weigh_append, weigh_cons]
    abel
  · simp only [load, actions, flatten_append, flatten_cons, weigh_append]
    abel

end

theorem load_spawn {action : α} (h : weight action = 0) :
    load weight ⟨threads.shared, threads.programs ++ [[action]]⟩ = load weight threads := by
  simp [load, actions, h]

/-- **A balance between the state and the load**, next to an invariant of the state.  What is owed
grows by what an action adds to it, and the action puts what it weighs itself and what it adds into
the state or into its calls.  It may do so for the reason that its own weight is part of the
balance. -/
theorem Run.balanced_with (P : σ → Prop) (owed paid : σ → M)
    (hact : ∀ action shared shared' calls others, P shared →
      owed shared = paid shared + (others + weight action) → act action shared shared' calls →
      P shared' ∧ ∃ added, owed shared' = owed shared + added ∧
        paid shared' + weigh weight calls = paid shared + weight action + added)
    (hentry : ∀ action, entry action → weight action = 0) (hP : P start.shared)
    (hstart : owed start.shared = paid start.shared + load weight start)
    (hrun : Run act entry allowed start threads) :
    P threads.shared ∧ owed threads.shared = paid threads.shared + load weight threads := by
  induction hrun with
  | start => exact ⟨hP, hstart⟩
  | step _ hstep ih =>
    cases hstep with
    | @run shared shared' before after action rest calls htaken _ =>
      obtain ⟨others, hload, hload'⟩ :=
        load_run weight shared shared' before after action rest calls
      simp only at ih ⊢
      rw [hload] at ih
      obtain ⟨hP', added, howed, hpaid⟩ := hact _ _ _ _ _ ih.1 ih.2 htaken
      refine ⟨hP', ?_⟩
      calc owed shared'
          = paid shared + weight action + added + others := by rw [howed, ih.2]; abel
        _ = paid shared' + load weight ⟨shared', before ++ (calls ++ rest) :: after⟩ := by
          rw [← hpaid, hload']; abel
    | spawn h => rw [load_spawn (hentry _ h)]; exact ih

/-- A balance between the state and the load. -/
theorem Run.balanced (owed paid : σ → M)
    (hact : ∀ action shared shared' calls others,
      owed shared = paid shared + (others + weight action) → act action shared shared' calls →
      ∃ added, owed shared' = owed shared + added ∧
        paid shared' + weigh weight calls = paid shared + weight action + added)
    (hentry : ∀ action, entry action → weight action = 0)
    (hstart : owed start.shared = paid start.shared + load weight start)
    (hrun : Run act entry allowed start threads) :
    owed threads.shared = paid threads.shared + load weight threads :=
  (hrun.balanced_with (fun _ => True) owed paid
    (fun _ _ _ _ _ _ hbalance htaken => ⟨trivial, hact _ _ _ _ _ hbalance htaken⟩) hentry trivial
      hstart).2

/-- **A balance that may fall short.**  Like `Run.balanced`, for a load that an action may also give
up. -/
theorem Run.covered [PartialOrder M] [IsOrderedAddMonoid M] (owed paid : σ → M)
    (hact : ∀ action shared shared' calls, act action shared shared' calls →
      ∃ added, owed shared' = owed shared + added ∧ paid shared' + weigh weight calls ≤
        paid shared + weight action + added)
    (hentry : ∀ action, entry action → weight action = 0)
    (hstart : paid start.shared + load weight start ≤ owed start.shared)
    (hrun : Run act entry allowed start threads) :
    paid threads.shared + load weight threads ≤ owed threads.shared := by
  induction hrun with
  | start => exact hstart
  | step _ hstep ih =>
    cases hstep with
    | @run shared shared' before after action rest calls htaken _ =>
      obtain ⟨added, howed, hpaid⟩ := hact _ _ _ _ htaken
      obtain ⟨others, hload, hload'⟩ :=
        load_run weight shared shared' before after action rest calls
      simp only at ih ⊢
      rw [hload] at ih
      calc paid shared' + load weight ⟨shared', before ++ (calls ++ rest) :: after⟩
          = paid shared' + weigh weight calls + others := by rw [hload']; abel
        _ ≤ paid shared + weight action + added + others := by gcongr
        _ = paid shared + (others + weight action) + added := by abel
        _ ≤ owed shared' := by rw [howed]; gcongr
    | spawn h => rw [load_spawn (hentry _ h)]; exact ih

end Weights

section Invariants

variable {start threads threads' : Threads σ α} {action other : α} {shared : σ} {rest : List α}
  {before after : List (List α)} {shared' : σ} {calls : List α} {P : σ → Prop}

/-- What every action keeps holds of the shared state in every run. -/
theorem Run.shared_of_act (hact : ∀ action shared shared' calls, act action shared shared' calls →
      P shared → P shared')
    (hstart : P start.shared) (hrun : Run act entry allowed start threads) : P threads.shared := by
  induction hrun with
  | start => exact hstart
  | step _ hstep ih =>
    cases hstep with
    | run htaken _ => exact hact _ _ _ _ htaken ih
    | spawn _ => exact ih

/-- What every action keeps, where it is known that it is part of a run, holds of the shared state
in every run. -/
theorem Run.shared_of_run (hact : ∀ before after action rest shared shared' calls,
      Run act entry allowed start ⟨shared, before ++ (action :: rest) :: after⟩ →
      allowed ⟨shared, before ++ (action :: rest) :: after⟩ action →
      act action shared shared' calls → P shared → P shared')
    (hstart : P start.shared) (hrun : Run act entry allowed start threads) : P threads.shared := by
  induction hrun with
  | start => exact hstart
  | step hrun hstep ih =>
    cases hstep with
    | run htaken hallowed => exact hact _ _ _ _ _ _ _ hrun hallowed htaken ih
    | spawn _ => exact ih

theorem action_mem_actions :
    action ∈ (⟨shared, before ++ (action :: rest) :: after⟩ : Threads σ α).actions := by
  simp [actions]

/-- The actions after a step are the calls of the one that was taken, and actions from before. -/
theorem mem_actions_run
    (h : other ∈ (⟨shared', before ++ (calls ++ rest) :: after⟩ : Threads σ α).actions) :
    other ∈ calls ∨
      other ∈ (⟨shared, before ++ (action :: rest) :: after⟩ : Threads σ α).actions := by
  simp only [actions, flatten_append, flatten_cons, mem_append, mem_cons] at h ⊢
  tauto

/-- Only the action that was taken is gone after a step. -/
theorem mem_actions_of_ne
    (h : other ∈ (⟨shared, before ++ (action :: rest) :: after⟩ : Threads σ α).actions)
    (hne : other ≠ action) : other ∈
    (⟨shared', before ++ (calls ++ rest) :: after⟩ : Threads σ α).actions := by
  simp only [actions, flatten_append, flatten_cons, mem_append, mem_cons] at h ⊢
  tauto

theorem mem_actions_spawn :
    other ∈ (⟨threads.shared, threads.programs ++ [[action]]⟩ : Threads σ α).actions ↔
    other ∈ threads.actions ∨ other = action := by
  simp [actions]

end Invariants

/-- The load is nothing if no action that weighs something is still to be taken. -/
theorem load_eq_zero_iff [AddCommMonoid M] [PartialOrder M] [IsOrderedAddMonoid M]
    [CanonicallyOrderedAdd M] :
    load weight threads = 0 ↔ ∀ action ∈ threads.actions, weight action = 0 := by
  rw [load, weigh, sum_eq_zero_iff, forall_mem_map]

theorem weight_eq_zero_of_load [AddCommMonoid M] [PartialOrder M] [IsOrderedAddMonoid M]
    [CanonicallyOrderedAdd M] (h : load weight threads = 0) (hmem : action ∈ threads.actions) :
    weight action = 0 :=
  load_eq_zero_iff.1 h action hmem

end Threads

end Idhan
