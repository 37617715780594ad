import Warpcoil.FutureCompletion

/-! The completion token `then(action)`. Its handler calls the function that `async_wait` stores,
and nothing has been stored when the operation completes before the wait. -/
namespace Warpcoil
namespace Futures
open Joining Transition
variable {P : Program} {ρ : Type}

/-- Every action runs once when its operation completes, with what it completes with, and has
returned when the handler of the future is called. -/
structure ActsOnce (root : Future P ρ) (outcomes : Outcomes P) (s : State P ρ) : Prop where
  once : (s.acted.map Sigma.fst).Nodup
  input : ∀ act ∈ s.acted, act.2 = outcomes.input act.1
  ended : ∀ operation, operation ∈ s.acted.map Sigma.fst ↔ .thenAction operation ∈ s.ended
  returned : s.called ≠ [] → ∀ operation, .thenAction operation ∈ root.operations →
    operation ∈ s.acted.map Sigma.fst ∧ operation ∉ s.tasks.flatMap Task.acting

section
variable [DecidableEq P.Operation] [DecidableEq P.Action]
variable {root : Future P ρ} {outcomes : Outcomes P} {s s' : State P ρ} {e : Event P}

/-- The history of the actions. -/
structure Acted (outcomes : Outcomes P) (s : State P ρ) : Prop where
  once : (s.acted.map Sigma.fst).Nodup
  input : ∀ act ∈ s.acted, act.2 = outcomes.input act.1
  ended : ∀ operation, operation ∈ s.acted.map Sigma.fst ↔ .thenAction operation ∈ s.ended

omit [DecidableEq P.Operation] [DecidableEq P.Action] in
theorem Acted.initial (outcomes : Outcomes P) : Acted outcomes ({} : State P ρ) :=
  ⟨List.nodup_nil, nofun, fun _ => ⟨nofun, nofun⟩⟩

theorem Acted.complete (h : Acted outcomes s) {base : Base P} (hnew : base ∉ s.ended) :
    Acted outcomes (State.complete { s with ended := base :: s.ended } outcomes base) := by
  cases base with
  | useFuture operation =>
    have hended : ∀ o, o ∈ s.acted.map Sigma.fst ↔
        Base.thenAction o ∈ Base.useFuture operation :: s.ended := fun o =>
      (h.ended o).trans ⟨List.mem_cons_of_mem _, fun hmem =>
        (List.mem_cons.mp hmem).resolve_left nofun⟩
    simp only [State.complete, State.futureHandler]
    split <;> exact ⟨h.once, h.input, hended⟩
  | thenAction operation =>
    refine ⟨?_, fun act hact => ?_, fun o => ?_⟩
    · simp only [State.complete, State.thenHandler, List.map_append, List.map_cons, List.map_nil]
      refine List.nodup_append_comm.mp (List.nodup_cons.mpr ⟨fun hmem => hnew ?_, h.once⟩)
      exact (h.ended operation).mp hmem
    · rcases List.mem_append.mp hact with hact | hact
      · exact h.input act hact
      · rw [List.mem_singleton.mp hact]
    · simp only [State.complete, State.thenHandler, List.map_append, List.map_cons, List.map_nil,
        List.mem_append, List.mem_singleton, List.mem_cons, h.ended o, Base.thenAction.injEq,
        List.not_mem_nil, or_false]
      exact or_comm

theorem Acted.step (h : Acted outcomes s) (hs : step root outcomes s e = some s') :
    Acted outcomes s' := by
  cases e with
  | complete base =>
    by_cases hnew : base ∈ s.ended
    · simp [Futures.step, hnew] at hs
    · simp only [Futures.step, hnew, if_false, Option.some.injEq] at hs
      exact hs ▸ h.complete hnew
  | asyncWait =>
    cases hwaited : s.waited with
    | true => simp [Futures.step, hwaited] at hs
    | false =>
      simp only [Futures.step, hwaited, Bool.false_eq_true, if_false, Option.some.injEq] at hs
      subst hs
      exact ⟨h.once, h.input, h.ended⟩
  | advance =>
    cases hs
    obtain ⟨hended, -, hacted, -⟩ := advance_history s
    refine ⟨?_, ?_, ?_⟩ <;> rw [hacted]
    · exact h.once
    · exact h.input
    · rw [hended]
      exact h.ended

theorem Kept.actsOnce (h : Kept root outcomes s) (hacted : Acted outcomes s) :
    ActsOnce root outcomes s := by
  refine ⟨hacted.once, hacted.input, hacted.ended, fun hcalled operation hmem => ?_⟩
  have hended := h.completesOnce.after hcalled _ hmem
  obtain ⟨joins, consumed, h⟩ := h
  have hperm := h.ledger.operations
  rw [h.ledger.debts_of_called hcalled] at hperm
  have hused : .thenAction operation ∈ consumed := hperm.mem_iff.mpr hmem
  exact ⟨(hacted.ended operation).mpr hended, fun hacting => (h.acting operation hacting).2 hused⟩

/-! An empty function that has been called. -/

theorem step_thrown (h : s.thrown = true) (hs : step root outcomes s e = some s') :
    s'.thrown = true := by
  cases e with
  | complete base =>
    by_cases hnew : base ∈ s.ended
    · simp [step, hnew] at hs
    · simp only [step, hnew, if_false, Option.some.injEq] at hs
      subst hs
      cases base with
      | useFuture operation =>
        simp only [State.complete, State.futureHandler]
        split <;> exact h
      | thenAction operation => exact h
  | asyncWait =>
    cases hwaited : s.waited with
    | true => simp [step, hwaited] at hs
    | false =>
      simp only [step, hwaited, Bool.false_eq_true, if_false, Option.some.injEq] at hs
      subst hs
      exact h
  | advance =>
    cases hs
    exact (advance_history s).2.2.2 h

theorem thrown_of_not_awaited (h : ¬Awaited s e) (hs : step root outcomes s e = some s') :
    s'.thrown = true := by
  cases e with
  | complete base => exact absurd trivial h
  | asyncWait => exact absurd trivial h
  | advance =>
    cases hs
    cases htasks : s.tasks with
    | nil => simp [Awaited, State.awaited, htasks] at h
    | cons task tasks =>
      cases task with
      | finished operation =>
        have hnone : s.finished operation = none := by
          simpa [Awaited, State.awaited, htasks] using h
        simp [State.advance, State.execute, htasks, hnone]
      | _ => simp [Awaited, State.awaited, htasks] at h

/-- Actions, and the handler of a future that was made of them, work just where the wait comes
before the return of every action. -/
theorem then_completes_once_iff (root : Future P ρ) (outcomes : Outcomes P)
    (hnodup : root.operations.Nodup) (events : List (Event P)) (s : State P ρ)
    (hr : run (step root outcomes) {} events = some s) :
    Along (step root outcomes) Awaited {} events ↔
      CompletesOnce root outcomes s ∧ ActsOnce root outcomes s ∧
        ∃ n, (State.advance^[n] s).tasks = [] := by
  refine ⟨fun hall => ?_, fun h => ?_⟩
  · have hkept : Kept root outcomes s := .run hnodup hall hr
    have hacted : Acted outcomes s :=
      Preserved.run (fun _ _ _ h hs => Acted.step h hs) (.initial outcomes) hr
    exact ⟨hkept.completesOnce, hkept.actsOnce hacted, advance_returns s⟩
  · have hkeep : Preserved (step root outcomes) fun s => s.thrown = true :=
      fun _ _ _ h hs => step_thrown h hs
    refine .of_unmarked (fun _ _ _ hnot hs => thrown_of_not_awaited hnot hs) hkeep hr ?_
    rw [h.1.safe.2]
    exact Bool.false_ne_true

end

/-! Two operations under a `when_all`. -/

abbrev twoActions : Program := ⟨Empty, fun _ => Empty, Bool, fun _ => Nat, Empty⟩

def bothActions : Future twoActions Unit := .whenAll (.thenAction true) [.thenAction false]

/-- The wait, then the operations. -/
def waitedEvents : List (Event twoActions) :=
  [.asyncWait, .advance, .advance, .advance, .advance, .advance, .advance,
    .complete (.thenAction false), .advance, .advance, .advance, .complete (.thenAction true),
    .advance, .advance, .advance, .advance]

theorem then_completes_once_iff_waited :
    ∃ s, run (step bothActions ⟨Empty.elim, fun _ => 5⟩) {} waitedEvents = some s ∧
      CompletesOnce bothActions ⟨Empty.elim, fun _ => 5⟩ s ∧ s.called = [()] := by
  have hsome : (run (step bothActions ⟨Empty.elim, fun _ => 5⟩) {} waitedEvents).any
      (fun s => decide (s.called = [()])) = true := by decide +kernel
  obtain ⟨s, hs, hcalled⟩ := (Option.any_eq_true _ _).mp hsome
  have hnodup : bothActions.operations.Nodup := by
    simp [bothActions, Future.operations, Future.operationsOfAll]
  have hall : Along (step bothActions ⟨Empty.elim, fun _ => 5⟩) Awaited {} waitedEvents := by
    decide +kernel
  have hworks := (then_completes_once_iff bothActions _ hnodup waitedEvents s hs).mp hall
  exact ⟨s, hs, hworks.1, of_decide_eq_true hcalled⟩

/-- An operation completes before the wait, as inside the call that initiates it: the handler
calls an empty function, and the one that is stored later is never called. -/
theorem then_completes_once_early :
    ∃ s, run (step (Future.thenAction true : Future twoActions Unit) ⟨Empty.elim, fun _ => 5⟩) {}
        [.complete (.thenAction true), .advance, .asyncWait, .advance] = some s ∧
      s.waited = true ∧ s.ended = [.thenAction true] ∧ s.tasks = [] ∧
      s.called = [] ∧ s.thrown = true := by
  have hsome : (run (step (Future.thenAction true : Future twoActions Unit)
      ⟨Empty.elim, fun _ => 5⟩) {}
      [.complete (.thenAction true), .advance, .asyncWait, .advance]).any (fun s =>
        s.waited && decide (s.ended = [.thenAction true]) && s.tasks.isEmpty &&
          s.called.isEmpty && s.thrown) = true := by decide +kernel
  obtain ⟨s, hs, hlast⟩ := (Option.any_eq_true _ _).mp hsome
  simp only [Bool.and_eq_true, decide_eq_true_eq, List.isEmpty_iff] at hlast
  obtain ⟨⟨⟨⟨hwaited, hended⟩, htasks⟩, hcalled⟩, hthrown⟩ := hlast
  exact ⟨s, hs, hwaited, hended, htasks, hcalled, hthrown⟩

end Futures
end Warpcoil
