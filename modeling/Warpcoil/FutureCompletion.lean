import Mathlib.Algebra.GroupWithZero.Nat
import Mathlib.Data.List.Perm.Subperm
import Mathlib.Logic.Function.Iterate
import Warpcoil.FutureOrder

/-! Waits and completions return, and a future whose operations have all completed has called its
handler once. -/
namespace Warpcoil
namespace Futures
open Joining Transition
variable {P : Program} {ρ : Type}

/-! How much is left to run. -/

mutual
/-- The most tasks that a wait leads to, where the call of the handler leads to `n`. -/
def Future.cost : ∀ {α : Type}, Future P α → Nat → Nat
  | _, .useFuture _, n | _, .thenAction _, n => n + 1
  | _, .andThen first _ _, n => first.cost (n + 2) + 1
  | _, .whenAll first others, n => first.cost (n + 1) + 1 + Future.costOfAll others (n + 1) + 2
def Future.costOfAll : List (Future P Unit) → Nat → Nat
  | [], _ => 0
  | future::futures, n => future.cost n + 1 + Future.costOfAll futures n
end

def Handler.cost : ∀ {α : Type}, Handler P ρ α → Nat
  | _, .root => 1
  | _, .transform _ _ onResult => onResult.cost + 2
  | _, .callback _ _ onResult => onResult.cost + 1

def Task.cost : Task P ρ → Nat
  | .wait future onResult => future.cost onResult.cost
  | .asyncWaits futures callback => Future.costOfAll futures callback.cost + 1
  | .call handler _ => handler.cost
  | .transforming _ _ onResult => onResult.cost + 1
  | .finished _ => 0

def State.cost (s : State P ρ) : Nat := (s.tasks.map Task.cost).sum

/-- The actions that have not returned. -/
def State.acting (s : State P ρ) : Nat := (s.tasks.flatMap Task.acting).length

variable [DecidableEq P.Operation] [DecidableEq P.Action]

/-- Fewer actions are running, or there is less to run besides. -/
theorem advance_decreases {s : State P ρ} (h : s.tasks ≠ []) :
    s.advance.acting < s.acting ∨ s.advance.acting = s.acting ∧ s.advance.cost < s.cost := by
  obtain ⟨task, tasks, htasks⟩ := List.exists_cons_of_ne_nil h
  simp only [State.advance, State.acting, State.cost, htasks]
  cases task with
  | wait future onResult =>
    right
    cases future with
    | useFuture operation =>
      simp only [State.execute, State.wait]
      split <;> simp [Task.acting, Task.cost, Future.cost]
    | thenAction operation =>
      simp only [State.execute, State.wait]
      split <;> simp [Task.acting, Task.cost, Future.cost]
    | andThen first name f =>
      simp [State.execute, State.wait, Task.acting, Task.cost, Future.cost, Handler.cost]
    | whenAll first others =>
      simp [State.execute, State.wait, Task.acting, Task.cost, Future.cost, Future.costOfAll,
        Handler.cost]
  | asyncWaits futures callback =>
    right
    cases futures with
    | nil => simp [State.execute, Task.acting, Task.cost, Future.costOfAll]
    | cons future futures =>
      simp [State.execute, Task.acting, Task.cost, Future.costOfAll]
      omega
  | call handler value =>
    right
    cases handler with
    | root => simp [State.execute, State.call, Task.acting, Task.cost, Handler.cost]
    | transform name f onResult =>
      simp [State.execute, State.call, Task.acting, Task.cost, Handler.cost]
    | callback completed futureCount onResult =>
      simp only [State.execute, State.call]
      split <;> simp [Task.acting, Task.cost, Handler.cost]
  | transforming f value onResult =>
    right
    simp [State.execute, Task.acting, Task.cost]
  | finished operation =>
    left
    simp only [State.execute]
    split <;> simp [Task.acting]

/-- All that is being called returns. -/
theorem advance_returns (s : State P ρ) : ∃ n, (State.advance^[n] s).tasks = [] := by
  have hwf : WellFounded (Prod.Lex (· < ·) (· < ·) : Nat × Nat → Nat × Nat → Prop) :=
    (Prod.lex Nat.lt_wfRel Nat.lt_wfRel).wf
  induction hm : (s.acting, s.cost) using hwf.induction generalizing s with
  | _ m ih =>
    subst hm
    by_cases h : s.tasks = []
    · exact ⟨0, h⟩
    · have hless : Prod.Lex (· < ·) (· < ·) (s.advance.acting, s.advance.cost)
          (s.acting, s.cost) := by
        rcases advance_decreases h with hlt | ⟨heq, hlt⟩
        · exact .left _ _ hlt
        · rw [heq]
          exact .right _ hlt
      obtain ⟨n, hn⟩ := ih _ hless s.advance rfl
      exact ⟨n + 1, hn⟩

/-! The invariant along runs. -/

section
variable {root : Future P ρ} {outcomes : Outcomes P} {s s' : State P ρ} {e : Event P}

/-- `async_wait` has been called on the future of the operation whose action returns. -/
def State.awaited (s : State P ρ) : Bool :=
  match s.tasks with
  | .finished operation :: _ => (s.finished operation).isSome
  | _ => true

/-- What is done is not the return of an action before the `async_wait` on its future. -/
def Awaited (s : State P ρ) : Event P → Prop
  | .advance => s.awaited = true
  | .complete _ | .asyncWait => True

instance (s : State P ρ) : ∀ e : Event P, Decidable (Awaited s e)
  | .advance => decidable_of_iff (s.awaited = true) Iff.rfl
  | .complete _ | .asyncWait => isTrue trivial

omit [DecidableEq P.Operation] [DecidableEq P.Action] in
theorem State.awaited_of (h : s.awaited = true) (operation : P.Action)
    (htask : s.tasks.head? = some (.finished operation)) : s.finished operation ≠ none := by
  cases htasks : s.tasks with
  | nil => simp [htasks] at htask
  | cons task tasks =>
    simp only [htasks, List.head?_cons, Option.some.injEq] at htask
    simp only [State.awaited, htasks, htask] at h
    exact Option.isSome_iff_ne_none.mp h

/-- Nothing has been lost or done twice. -/
def Kept (root : Future P ρ) (outcomes : Outcomes P) (s : State P ρ) : Prop :=
  ∃ joins consumed, Sound root outcomes joins consumed [] s

theorem Kept.initial (root : Future P ρ) (outcomes : Outcomes P) : Kept root outcomes {} := by
  have hstored : ∀ base, State.stored {} outcomes [] base = ([] : List (Debt P ρ)) := by
    intro base
    cases base <;> rfl
  have hparts : State.parts {} root outcomes [] = [root.whole outcomes] := by
    simp [State.parts, funext hstored]
  have hledger : Ledger (root.whole outcomes) [] [root.whole outcomes] [] [] [] := .start rfl
  exact ⟨[], [], {
    ledger := hparts ▸ hledger
    completed := rfl
    tasks := List.forall_mem_nil _
    slots := fun _ => List.not_mem_nil
    finished := fun _ _ hnone => absurd hnone.symm (Option.some_ne_none _)
    used := List.forall_mem_nil _
    ended := fun _ hmem => absurd hmem List.not_mem_nil
    acting := fun _ hmem => absurd hmem List.not_mem_nil
    once := List.nodup_nil
    safe := ⟨rfl, rfl⟩ }⟩

/-- The root is waited for. -/
theorem Kept.asyncWait (h : Kept root outcomes s) (hwaited : s.waited = false) :
    Kept root outcomes { s with waited := true, tasks := .wait root .root :: s.tasks } := by
  obtain ⟨joins, consumed, h⟩ := h
  have hhand : Sound root outcomes joins consumed [root.whole outcomes]
      { s with waited := true } := {
    h with
    ledger := h.ledger.perm <| by
      simp only [State.parts, hwaited, List.nil_append, List.singleton_append]
      exact List.perm_middle }
  exact ⟨joins, consumed, hhand.push (.wait root .root) rfl trivial rfl⟩

theorem Kept.step (hnodup : root.operations.Nodup) (h : Kept root outcomes s) (ha : Awaited s e)
    (hs : step root outcomes s e = some s') : Kept root outcomes s' := by
  cases e with
  | complete base =>
    obtain ⟨joins, consumed, h⟩ := h
    by_cases hnew : base ∈ s.ended
    · simp [Futures.step, hnew] at hs
    · simp only [Futures.step, hnew, if_false, Option.some.injEq] at hs
      subst hs
      cases base with
      | useFuture operation => exact ⟨joins, h.completeUseFuture hnodup hnew⟩
      | thenAction operation => exact ⟨joins, consumed, h.completeThenAction hnew⟩
  | asyncWait =>
    cases hwaited : s.waited with
    | true => simp [Futures.step, hwaited] at hs
    | false =>
      simp only [Futures.step, hwaited, Bool.false_eq_true, if_false, Option.some.injEq] at hs
      subst hs
      exact h.asyncWait hwaited
  | advance =>
    obtain ⟨joins, consumed, h⟩ := h
    cases hs
    exact h.advance hnodup (State.awaited_of ha)

theorem Kept.run (hnodup : root.operations.Nodup) {events : List (Event P)}
    (ha : Along (Futures.step root outcomes) Awaited {} events)
    (hr : run (Futures.step root outcomes) {} events = some s) : Kept root outcomes s :=
  ha.run (fun _ _ _ hkept he hs => hkept.step hnodup he hs) (.initial root outcomes) hr

/-- What is to be seen of a future and the handler that was passed to its `async_wait`. -/
structure CompletesOnce (root : Future P ρ) (outcomes : Outcomes P) (s : State P ρ) : Prop where
  safe : s.unreachable = false ∧ s.thrown = false
  once : s.called.length ≤ 1
  value : ∀ value ∈ s.called, value = root.value outcomes
  after : s.called ≠ [] → ∀ base ∈ root.operations, base ∈ s.ended
  transformed : s.transformed.Subperm root.transformations
  complete : s.tasks = [] → s.waited = true → (∀ base ∈ root.operations, base ∈ s.ended) →
    s.called = [root.value outcomes] ∧ s.transformed.Perm root.transformations

omit [DecidableEq P.Operation] [DecidableEq P.Action] in
theorem whole_transformations :
    (root.whole outcomes).transformations = root.transformations := List.append_nil _

/-- No handler is left in the state when all operations have completed. -/
theorem parts_of_ended {joins : List (Join (Debt P ρ))} {consumed : List (Base P)}
    (h : Sound root outcomes joins consumed [] s) (htasks : s.tasks = [])
    (hwaited : s.waited = true) (hended : ∀ base ∈ root.operations, base ∈ s.ended) :
    s.parts root outcomes consumed = [] := by
  have hstored : ∀ base ∈ root.operations, s.stored outcomes consumed base = [] := by
    intro base hbase
    by_cases hused : base ∈ consumed
    · exact stored_used hused
    · cases base with
      | useFuture operation =>
        have hslot := h.slots operation
        cases heq : s.slot operation with
        | handler handler =>
          rw [heq] at hslot
          exact absurd (hslot.2.2 (hended _ hbase)) hused
        | _ => simp [State.stored, heq]
      | thenAction operation =>
        have hacting := h.ended operation (hended _ hbase) hused
        simp [htasks] at hacting
  have hnone : root.operations.flatMap (s.stored outcomes consumed) = [] :=
    List.flatMap_eq_nil_iff.mpr hstored
  rw [State.parts, htasks, hwaited, hnone]
  rfl

theorem Kept.completesOnce (h : Kept root outcomes s) : CompletesOnce root outcomes s := by
  obtain ⟨joins, consumed, h⟩ := h
  refine ⟨h.safe, h.ledger.balanced.le_one, fun value hvalue => ?_, fun hcalled base hbase => ?_,
    ?_, fun htasks hwaited hended => ?_⟩
  · exact Option.some.inj (h.ledger.called value hvalue)
  · have hperm := h.ledger.operations
    rw [h.ledger.debts_of_called hcalled] at hperm
    exact h.used base (hperm.mem_iff.mpr hbase)
  · have hperm := h.ledger.transformations
    rw [whole_transformations] at hperm
    exact (List.sublist_append_right _ _).subperm.trans hperm.subperm
  · have hledger := h.ledger
    rw [parts_of_ended h htasks hwaited hended] at hledger
    obtain ⟨value, hcalled, hvalue, -, htransformed⟩ := hledger.called_of_nil
    rw [whole_transformations] at htransformed
    have heq : value = root.value outcomes := Option.some.inj hvalue
    exact ⟨heq ▸ hcalled, htransformed⟩

/-- What has been asked for from outside does not change while calls return, nor is an exception
forgotten. -/
theorem advance_history (s : State P ρ) :
    s.advance.ended = s.ended ∧ s.advance.waited = s.waited ∧ s.advance.acted = s.acted ∧
      (s.thrown = true → s.advance.thrown = true) := by
  rw [State.advance]
  split
  · exact ⟨rfl, rfl, rfl, id⟩
  · next task tasks htasks =>
    cases task with
    | wait future onResult =>
      cases future with
      | useFuture operation =>
        simp only [State.execute, State.wait]
        split <;> exact ⟨rfl, rfl, rfl, id⟩
      | thenAction operation =>
        simp only [State.execute, State.wait]
        split <;> exact ⟨rfl, rfl, rfl, id⟩
      | _ => exact ⟨rfl, rfl, rfl, id⟩
    | asyncWaits futures callback => cases futures <;> exact ⟨rfl, rfl, rfl, id⟩
    | call handler value =>
      cases handler with
      | callback completed futureCount onResult =>
        simp only [State.execute, State.call]
        split <;> exact ⟨rfl, rfl, rfl, id⟩
      | _ => exact ⟨rfl, rfl, rfl, id⟩
    | transforming f value onResult => exact ⟨rfl, rfl, rfl, id⟩
    | finished operation =>
      simp only [State.execute]
      split
      · exact ⟨rfl, rfl, rfl, fun _ => rfl⟩
      · exact ⟨rfl, rfl, rfl, id⟩

theorem advances_history (s : State P ρ) (n : Nat) :
    (State.advance^[n] s).ended = s.ended ∧ (State.advance^[n] s).waited = s.waited := by
  induction n generalizing s with
  | zero => exact ⟨rfl, rfl⟩
  | succ n ih =>
    obtain ⟨hended, hwaited⟩ := ih s.advance
    obtain ⟨hended', hwaited', -, -⟩ := advance_history s
    exact ⟨hended.trans hended', hwaited.trans hwaited'⟩

/-! Trees in which every operation was started with `use_future`. -/

section
variable [IsEmpty P.Action]

omit [DecidableEq P.Operation] [DecidableEq P.Action] in
theorem awaited_of_isEmpty (s : State P ρ) (e : Event P) : Awaited s e := by
  cases e with
  | advance =>
    simp only [Awaited, State.awaited]
    split
    · next operation _ _ => exact isEmptyElim operation
    · rfl
  | _ => trivial

theorem along_of_isEmpty (s : State P ρ) (events : List (Event P)) :
    Along (Futures.step root outcomes) Awaited s events := by
  induction events generalizing s with
  | nil => trivial
  | cons e events ih => exact ⟨awaited_of_isEmpty s e, fun s' _ => ih s'⟩

theorem Kept.advances (hnodup : root.operations.Nodup) (h : Kept root outcomes s) (n : Nat) :
    Kept root outcomes (State.advance^[n] s) := by
  induction n generalizing s with
  | zero => exact h
  | succ n ih => exact ih (h.step hnodup (awaited_of_isEmpty s .advance) rfl)

/-- The handler is called once, after all operations the future depends on, with the result that
the transformations make of theirs, and every call returns. -/
theorem future_completes_once (root : Future P ρ) (outcomes : Outcomes P)
    (hnodup : root.operations.Nodup) (events : List (Event P)) (s : State P ρ)
    (hr : run (step root outcomes) {} events = some s) :
    CompletesOnce root outcomes s ∧
      (s.waited = true → (∀ base ∈ root.operations, base ∈ s.ended) →
        ∃ n, (State.advance^[n] s).tasks = [] ∧
          (State.advance^[n] s).called = [root.value outcomes] ∧
          (State.advance^[n] s).transformed.Perm root.transformations) := by
  have hkept : Kept root outcomes s := .run hnodup (along_of_isEmpty {} events) hr
  refine ⟨hkept.completesOnce, fun hwaited hended => ?_⟩
  obtain ⟨n, hn⟩ := advance_returns s
  obtain ⟨hended', hwaited'⟩ := advances_history s n
  have hlast := (hkept.advances hnodup n).completesOnce
  exact ⟨n, hn, hlast.complete hn (hwaited'.trans hwaited) (hended' ▸ hended)⟩

end

end

/-! Two operations under a `when_all`, the first of which completes before the wait. -/

/-- Two operations with numbers for results. -/
abbrev twoOperations : Program :=
  ⟨Bool, fun _ => Nat, Empty, fun _ => Empty, Nat⟩

def bothThenSeven : Future twoOperations Nat :=
  .andThen (.whenAll (.andThen (.useFuture true) 0 fun _ : Nat => ())
    [.andThen (.useFuture false) 1 fun _ : Nat => ()]) 2 fun _ => 7

def bothRun : Option (State twoOperations Nat) :=
  run (step bothThenSeven ⟨fun _ => 3, Empty.elim⟩) {}
    [.complete (.useFuture true), .asyncWait, .advance, .advance, .advance, .advance, .advance,
      .advance, .advance, .complete (.useFuture false)]

theorem future_completes_once_both :
    ∃ s, bothRun = some s ∧ ∃ n, (State.advance^[n] s).called = [7] := by
  have hsome : bothRun.isSome = true := by decide +kernel
  obtain ⟨s, hs⟩ := Option.isSome_iff_exists.mp hsome
  have hended : s.waited = true ∧ s.ended = [.useFuture false, .useFuture true] := by
    have hall : bothRun.all (fun s => s.waited &&
      decide (s.ended = [.useFuture false, .useFuture true])) = true := by decide +kernel
    rw [hs] at hall
    simpa using hall
  have hnodup : bothThenSeven.operations.Nodup := by
    simp [bothThenSeven, Future.operations, Future.operationsOfAll]
  have hall : ∀ base ∈ bothThenSeven.operations, base ∈ s.ended := by
    simp [bothThenSeven, Future.operations, Future.operationsOfAll, hended.2]
  obtain ⟨-, hreturns⟩ := future_completes_once bothThenSeven _ hnodup _ s hs
  obtain ⟨n, -, hcalled, -⟩ := hreturns hended.1 hall
  exact ⟨s, hs, n, hcalled⟩

end Futures
end Warpcoil
