import Mathlib.Logic.Function.Basic
import Warpcoil.Library.Transition

/-! Futures, and the completion tokens `use_future` and `then` that give one for an operation. A
wait and a completion run each other's closures; what is left of them to run is a stack of tasks,
on top of which an operation may complete at any time. -/
namespace Warpcoil
namespace Futures
open Transition

/-- The operations that are started with `use_future` and with `then(action)`, and the
transformations. -/
structure Program where
  Operation : Type
  Result : Operation → Type
  Action : Type
  Input : Action → Type
  Transformation : Type

/-- What an operation completes with. -/
structure Outcomes (P : Program) where
  result : ∀ operation, P.Result operation
  input : ∀ operation, P.Input operation

/-- An operation with its completion token. -/
inductive Base (P : Program) where
  | useFuture (operation : P.Operation)
  | thenAction (operation : P.Action)

instance (P : Program) [DecidableEq P.Operation] [DecidableEq P.Action] : DecidableEq (Base P)
  | .useFuture left, .useFuture right => decidable_of_iff (left = right) (by simp)
  | .thenAction left, .thenAction right => decidable_of_iff (left = right) (by simp)
  | .useFuture _, .thenAction _ | .thenAction _, .useFuture _ => isFalse nofun

instance {P : Program} [DecidableEq P.Operation] [DecidableEq P.Action] (base : Base P)
    (bases : List (Base P)) : Decidable (base ∈ bases) := inferInstance

/-- How a future was made. -/
inductive Future (P : Program) : Type → Type 1 where
  | useFuture (operation : P.Operation) : Future P (P.Result operation)
  | thenAction (operation : P.Action) : Future P Unit
  | andThen {α β : Type} (first : Future P α) (name : P.Transformation) (transform : α → β) :
    Future P β
  | whenAll (first : Future P Unit) (others : List (Future P Unit)) : Future P Unit

/-- A function that is called with the result of a future; `root` is the one passed to the
`async_wait` from outside. -/
inductive Handler (P : Program) (ρ : Type) : Type → Type 1 where
  | root : Handler P ρ ρ
  | transform {α β : Type} (name : P.Transformation) (transform : α → β)
    (onResult : Handler P ρ β) : Handler P ρ α
  | callback (completed futureCount : Nat) (onResult : Handler P ρ Unit) : Handler P ρ Unit

/-- `state` of `future_handler`; `moved` is a result that has been moved away. -/
inductive Slot (P : Program) (ρ α : Type) : Type 1 where
  | unit
  | handler (handler : Handler P ρ α)
  | result (value : α)
  | moved

/-- What is left to run of the functions that are being called. -/
inductive Task (P : Program) (ρ : Type) : Type 1 where
  | wait {α : Type} (future : Future P α) (onResult : Handler P ρ α)
  | asyncWaits (futures : List (Future P Unit)) (callback : Handler P ρ Unit)
  | call {α : Type} (handler : Handler P ρ α) (value : α)
  | transforming {α β : Type} (transform : α → β) (value : α) (onResult : Handler P ρ β)
  | finished (operation : P.Action)

/-- The last five fields are the history, and what must not happen: `unreachable` is reached or an
assertion fails, an empty function is called. -/
structure State (P : Program) (ρ : Type) where
  slot : ∀ operation, Slot P ρ (P.Result operation) := fun _ => .unit
  finished : P.Action → Option (Handler P ρ Unit) := fun _ => none
  completed : List Nat := []
  tasks : List (Task P ρ) := []
  waited : Bool := false
  ended : List (Base P) := []
  acted : List (Σ operation, P.Input operation) := []
  transformed : List P.Transformation := []
  called : List ρ := []
  unreachable : Bool := false
  thrown : Bool := false

section
variable {P : Program} {ρ : Type}

/-- What a handler does: that of `then` begins with the transformation, and the one of `when_all`
counts. -/
def State.call (s : State P ρ) : ∀ {α : Type}, Handler P ρ α → α → State P ρ
  | _, .root, value => { s with called := s.called ++ [value] }
  | _, .transform name transform onResult, value =>
    { s with
      transformed := s.transformed ++ [name]
      tasks := .transforming transform value onResult :: s.tasks }
  | _, .callback completed futureCount onResult, _ =>
    let count := s.completed.getD completed 0 + 1
    let s := { s with completed := s.completed.set completed count }
    if count = futureCount then { s with tasks := .call onResult () :: s.tasks } else s

variable [DecidableEq P.Operation] [DecidableEq P.Action]

/-- The function `_wait` of a future. -/
def State.wait (s : State P ρ) : ∀ {α : Type}, Future P α → Handler P ρ α → State P ρ
  | _, .useFuture operation, onResult =>
    match s.slot operation with
    | .unit => { s with slot := Function.update s.slot operation (.handler onResult) }
    | .result value =>
      { s with
        slot := Function.update s.slot operation .moved
        tasks := .call onResult value :: s.tasks }
    | .handler _ | .moved => { s with unreachable := true }
  | _, .thenAction operation, onResult =>
    match s.finished operation with
    | none => { s with finished := Function.update s.finished operation (some onResult) }
    | some _ => { s with unreachable := true }
  | _, .andThen first name transform, onResult =>
    { s with tasks := .wait first (.transform name transform onResult) :: s.tasks }
  | _, .whenAll first others, onResult =>
    { s with
      completed := s.completed ++ [0]
      tasks := .asyncWaits (first::others)
        (.callback s.completed.length (others.length + 1) onResult) :: s.tasks }

/-- The function that is on top of the stack goes on. An exception unwinds the stack. -/
def State.execute (s : State P ρ) : Task P ρ → State P ρ
  | .wait future onResult => s.wait future onResult
  | .asyncWaits [] _ => s
  | .asyncWaits (future::futures) callback =>
    { s with tasks := .wait future callback :: .asyncWaits futures callback :: s.tasks }
  | .call handler value => s.call handler value
  | .transforming transform value onResult =>
    { s with tasks := .call onResult (transform value) :: s.tasks }
  | .finished operation =>
    match s.finished operation with
    | none => { s with tasks := [], thrown := true }
    | some onResult => { s with tasks := .call onResult () :: s.tasks }

def State.advance (s : State P ρ) : State P ρ :=
  match s.tasks with
  | [] => s
  | task::tasks => State.execute { s with tasks := tasks } task

/-- The call operator of `future_handler`. -/
def State.futureHandler (s : State P ρ) (operation : P.Operation) (result : P.Result operation) :
    State P ρ :=
  match s.slot operation with
  | .unit => { s with slot := Function.update s.slot operation (.result result) }
  | .handler handler => { s with tasks := .call handler result :: s.tasks }
  | .result _ | .moved => { s with unreachable := true }

/-- The call operator of `then_handler`, up to the end of the action. -/
def State.thenHandler (s : State P ρ) (operation : P.Action) (input : P.Input operation) :
    State P ρ :=
  { s with acted := s.acted ++ [⟨operation, input⟩], tasks := .finished operation :: s.tasks }

/-- An operation completes, `async_wait` is called on the root, or what runs goes on. -/
inductive Event (P : Program) where
  | complete (operation : Base P)
  | asyncWait
  | advance

def State.complete (s : State P ρ) (outcomes : Outcomes P) :
    Base P → State P ρ
  | .useFuture operation => s.futureHandler operation (outcomes.result operation)
  | .thenAction operation => s.thenHandler operation (outcomes.input operation)

/-- Every operation completes at most once, and the future at the root is waited for once. -/
def step (root : Future P ρ) (outcomes : Outcomes P) (s : State P ρ) :
    Event P → Option (State P ρ)
  | .complete operation =>
    if operation ∈ s.ended then none
    else some (State.complete { s with ended := operation :: s.ended } outcomes operation)
  | .asyncWait =>
    if s.waited then none
    else some { s with waited := true, tasks := .wait root .root :: s.tasks }
  | .advance => some s.advance

end

/-! What a future is made of. -/

namespace Future
variable {P : Program}

/-- The result: the transformations applied to the results of the operations. -/
def value (outcomes : Outcomes P) : ∀ {α : Type}, Future P α → α
  | _, .useFuture operation => outcomes.result operation
  | _, .thenAction _ => ()
  | _, .andThen first _ transform => transform (first.value outcomes)
  | _, .whenAll _ _ => ()

mutual
/-- The operations it depends on. -/
def operations : ∀ {α : Type}, Future P α → List (Base P)
  | _, .useFuture operation => [.useFuture operation]
  | _, .thenAction operation => [.thenAction operation]
  | _, .andThen first _ _ => first.operations
  | _, .whenAll first others => first.operations ++ operationsOfAll others
def operationsOfAll : List (Future P Unit) → List (Base P)
  | [] => []
  | future::futures => future.operations ++ operationsOfAll futures
end

mutual
def transformations : ∀ {α : Type}, Future P α → List P.Transformation
  | _, .useFuture _ | _, .thenAction _ => []
  | _, .andThen first name _ => first.transformations ++ [name]
  | _, .whenAll first others => first.transformations ++ transformationsOfAll others
def transformationsOfAll : List (Future P Unit) → List P.Transformation
  | [] => []
  | future::futures => future.transformations ++ transformationsOfAll futures
end

end Future
end Futures
end Warpcoil
