import Warpcoil.FutureLedger

/-! Futures complete once, in whatever order operations complete and are waited for. -/
namespace Warpcoil
namespace Futures
open Joining Transition
variable {P : Program} {ρ : Type}

/-- The counters the handler leads to are those of open joins. -/
def Handler.Agrees (joins : List (Join (Debt P ρ))) : ∀ {α : Type}, Handler P ρ α → Prop
  | _, .root => True
  | _, .transform _ _ onResult => onResult.Agrees joins
  | _, .callback completed futureCount onResult =>
    (∃ join : Join (Debt P ρ), joins[completed]? = some join ∧ join.parts = futureCount ∧
      join.part = onResult.debt () [] []) ∧ onResult.Agrees joins

def Task.Agrees (joins : List (Join (Debt P ρ))) : Task P ρ → Prop
  | .wait _ onResult => onResult.Agrees joins
  | .asyncWaits _ callback => callback.Agrees joins
  | .call handler _ => handler.Agrees joins
  | .transforming _ _ onResult => onResult.Agrees joins
  | .finished _ => True

/-- Joins stay, and more of their parts arrive. -/
def Extends (joins joins' : List (Join (Debt P ρ))) : Prop :=
  ∀ (c : Nat) (join : Join (Debt P ρ)), joins[c]? = some join →
    ∃ join' : Join (Debt P ρ), joins'[c]? = some join' ∧ join'.parts = join.parts ∧
      join'.part = join.part

theorem Handler.Agrees.mono {joins joins' : List (Join (Debt P ρ))}
    (hext : Extends joins joins') : ∀ {α : Type} {handler : Handler P ρ α},
    handler.Agrees joins → handler.Agrees joins'
  | _, .root, _ => trivial
  | _, .transform _ _ onResult, h => (show onResult.Agrees joins from h).mono hext
  | _, .callback completed _ onResult, h => by
    obtain ⟨⟨join, hjoin, hparts, hpart⟩, h⟩ := h
    obtain ⟨join', hjoin', hparts', hpart'⟩ := hext completed join hjoin
    exact ⟨⟨join', hjoin', hparts'.trans hparts, hpart'.trans hpart⟩, h.mono hext⟩

theorem Task.Agrees.mono {joins joins' : List (Join (Debt P ρ))} (hext : Extends joins joins')
    {task : Task P ρ} (h : task.Agrees joins) : task.Agrees joins' := by
  cases task with
  | finished => trivial
  | _ => exact Handler.Agrees.mono hext h

theorem Extends.refl (joins : List (Join (Debt P ρ))) : Extends joins joins :=
  fun _ join h => ⟨join, h, rfl, rfl⟩

theorem Extends.append (joins : List (Join (Debt P ρ))) (join : Join (Debt P ρ)) :
    Extends joins (joins ++ [join]) := fun c old h => by
  refine ⟨old, ?_, rfl, rfl⟩
  rw [List.getElem?_append_left (List.getElem?_eq_some_iff.mp h).1]
  exact h

theorem Extends.set {joins : List (Join (Debt P ρ))} {c : Nat} {join : Join (Debt P ρ)}
    (hjoin : joins[c]? = some join) : Extends joins (joins.set c join.arrive) := fun c' old h => by
  by_cases heq : c' = c
  · subst heq
    cases hjoin.symm.trans h
    refine ⟨join.arrive, ?_, rfl, rfl⟩
    exact List.getElem?_set_self (List.getElem?_eq_some_iff.mp h).1
  · exact ⟨old, by rwa [List.getElem?_set_ne (Ne.symm heq)], rfl, rfl⟩

/-! What the parts of a state owe. -/

def Task.debts (outcomes : Outcomes P) : Task P ρ → List (Debt P ρ)
  | .wait future onResult =>
    [onResult.debt (future.value outcomes) future.operations future.transformations]
  | .asyncWaits futures callback =>
    futures.map fun future => callback.debt () future.operations future.transformations
  | .call handler value => [handler.debt value [] []]
  | .transforming transform value onResult => [onResult.debt (transform value) [] []]
  | .finished _ => []

/-- The actions that have not returned. -/
def Task.acting : Task P ρ → List P.Action
  | .finished operation => [operation]
  | .wait .. | .asyncWaits .. | .call .. | .transforming .. => []

def Future.whole (root : Future P ρ) (outcomes : Outcomes P) : Debt P ρ :=
  Handler.root.debt (root.value outcomes) root.operations root.transformations

variable [DecidableEq P.Operation] [DecidableEq P.Action]

/-- A handler that waits for an operation, unless it has been called. -/
def State.stored (s : State P ρ) (outcomes : Outcomes P) (consumed : List (Base P))
    (base : Base P) : List (Debt P ρ) :=
  if base ∈ consumed then []
  else match base with
  | .useFuture operation =>
    match s.slot operation with
    | .handler handler => [handler.debt (outcomes.result operation) [base] []]
    | .unit | .result _ | .moved => []
  | .thenAction operation =>
    match s.finished operation with
    | some handler => [handler.debt () [base] []]
    | none => []

def State.parts (s : State P ρ) (root : Future P ρ) (outcomes : Outcomes P)
    (consumed : List (Base P)) : List (Debt P ρ) :=
  s.tasks.flatMap (Task.debts outcomes) ++
    ((if s.waited then [] else [root.whole outcomes]) ++
      root.operations.flatMap (s.stored outcomes consumed))

/-- What `state` of an operation says about its completion and its wait. -/
def SlotSound (root : Future P ρ) (outcomes : Outcomes P) (joins : List (Join (Debt P ρ)))
    (consumed ended : List (Base P)) (operation : P.Operation) :
    Slot P ρ (P.Result operation) → Prop
  | .unit => .useFuture operation ∉ ended
  | .handler handler => .useFuture operation ∈ root.operations ∧ handler.Agrees joins ∧
    (.useFuture operation ∈ ended → .useFuture operation ∈ consumed)
  | .result value => value = outcomes.result operation ∧ .useFuture operation ∈ ended
  | .moved => .useFuture operation ∈ consumed

omit [DecidableEq P.Operation] [DecidableEq P.Action] in
theorem SlotSound.mono {root : Future P ρ} {outcomes : Outcomes P}
    {joins joins' : List (Join (Debt P ρ))} {consumed consumed' ended ended' : List (Base P)}
    {operation : P.Operation} {slot : Slot P ρ (P.Result operation)}
    (h : SlotSound root outcomes joins consumed ended operation slot)
    (hext : Extends joins joins')
    (hconsumed : .useFuture operation ∈ consumed → .useFuture operation ∈ consumed')
    (hended : .useFuture operation ∈ ended' ↔ .useFuture operation ∈ ended) :
    SlotSound root outcomes joins' consumed' ended' operation slot := by
  cases slot with
  | unit => exact fun hmem => h (hended.mp hmem)
  | handler handler =>
    obtain ⟨hmem, hagrees, himp⟩ := h
    exact ⟨hmem, hagrees.mono hext, fun hend => hconsumed (himp (hended.mp hend))⟩
  | result value => exact ⟨h.1, hended.mpr h.2⟩
  | moved => exact hconsumed h

/-- A state between two steps, where `hand` is owed besides by what is being done. -/
structure Sound (root : Future P ρ) (outcomes : Outcomes P) (joins : List (Join (Debt P ρ)))
    (consumed : List (Base P)) (hand : List (Debt P ρ)) (s : State P ρ) : Prop where
  ledger : Ledger (root.whole outcomes) joins (hand ++ s.parts root outcomes consumed) consumed
    s.transformed s.called
  completed : s.completed = joins.map Join.arrived
  tasks : ∀ task ∈ s.tasks, task.Agrees joins
  slots : ∀ operation,
    SlotSound root outcomes joins consumed s.ended operation (s.slot operation)
  finished : ∀ operation handler, s.finished operation = some handler →
    .thenAction operation ∈ root.operations ∧ handler.Agrees joins
  used : ∀ base ∈ consumed, base ∈ s.ended
  ended : ∀ operation, .thenAction operation ∈ s.ended → .thenAction operation ∉ consumed →
    operation ∈ s.tasks.flatMap Task.acting
  acting : ∀ operation ∈ s.tasks.flatMap Task.acting,
    .thenAction operation ∈ s.ended ∧ .thenAction operation ∉ consumed
  once : (s.tasks.flatMap Task.acting).Nodup
  safe : s.unreachable = false ∧ s.thrown = false

omit [DecidableEq P.Operation] [DecidableEq P.Action] in
theorem operationsOfAll_eq (futures : List (Future P Unit)) :
    Future.operationsOfAll futures = futures.flatMap Future.operations := by
  induction futures with
  | nil => rw [Future.operationsOfAll, List.flatMap_nil]
  | cons future futures ih => rw [Future.operationsOfAll, List.flatMap_cons, ih]

omit [DecidableEq P.Operation] [DecidableEq P.Action] in
theorem transformationsOfAll_eq (futures : List (Future P Unit)) :
    Future.transformationsOfAll futures = futures.flatMap Future.transformations := by
  induction futures with
  | nil => rw [Future.transformationsOfAll, List.flatMap_nil]
  | cons future futures ih => rw [Future.transformationsOfAll, List.flatMap_cons, ih]

theorem flatMap_split {α β : Type*} {l : List α} (hnodup : l.Nodup) {a : α} (ha : a ∈ l)
    {f g : α → List β} (h : ∀ other, other ≠ a → g other = f other) :
    ∃ rest, (l.flatMap f).Perm (f a ++ rest) ∧ (l.flatMap g).Perm (g a ++ rest) := by
  obtain ⟨as, bs, rfl⟩ := List.append_of_mem ha
  have hothers : ∀ other ∈ as ++ bs, g other = f other := by
    intro other hother
    refine h other fun heq => ?_
    subst heq
    exact (List.nodup_cons.mp (List.nodup_middle.mp hnodup)).1 hother
  have hsame : (as ++ bs).flatMap g = (as ++ bs).flatMap f := List.flatMap_congr hothers
  refine ⟨(as ++ bs).flatMap f, List.perm_middle.flatMap_right f, ?_⟩
  rw [← hsame]
  exact List.perm_middle.flatMap_right g

section
variable {root : Future P ρ} {outcomes : Outcomes P} {joins : List (Join (Debt P ρ))}
variable {consumed consumed' : List (Base P)} {hand : List (Debt P ρ)} {debt : Debt P ρ}
variable {s s' : State P ρ} {base : Base P}

theorem stored_operations (h : debt ∈ s.stored outcomes consumed base) :
    debt.operations = [base] := by
  simp only [State.stored] at h
  split at h
  · cases h
  · split at h <;> split at h <;> simp only [List.mem_singleton, List.not_mem_nil] at h <;>
      rw [h] <;> rfl

theorem stored_congr
    (hslot : ∀ operation, base = .useFuture operation → s'.slot operation = s.slot operation)
    (hfinished : ∀ operation, base = .thenAction operation →
      s'.finished operation = s.finished operation)
    (hconsumed : base ∈ consumed' ↔ base ∈ consumed) :
    s'.stored outcomes consumed' base = s.stored outcomes consumed base := by
  cases base with
  | useFuture operation => simp only [State.stored, hconsumed, hslot operation rfl]
  | thenAction operation => simp only [State.stored, hconsumed, hfinished operation rfl]

theorem stored_used (h : base ∈ consumed) : s.stored outcomes consumed base = [] := if_pos h

theorem stored_handler {operation : P.Operation} {handler : Handler P ρ (P.Result operation)}
    (hunused : .useFuture operation ∉ consumed) (hslot : s.slot operation = .handler handler) :
    s.stored outcomes consumed (.useFuture operation) =
      [handler.debt (outcomes.result operation) [.useFuture operation] []] := by
  simp only [State.stored, if_neg hunused, hslot]

theorem stored_finished {operation : P.Action} {handler : Handler P ρ Unit}
    (hunused : .thenAction operation ∉ consumed) (hslot : s.finished operation = some handler) :
    s.stored outcomes consumed (.thenAction operation) =
      [handler.debt () [.thenAction operation] []] := by
  simp only [State.stored, if_neg hunused, hslot]

theorem parts_update (s s' : State P ρ) (outcomes : Outcomes P) (consumed consumed' : List (Base P))
    (hnodup : root.operations.Nodup) (hbase : base ∈ root.operations)
    (htasks : s'.tasks = s.tasks) (hwaited : s'.waited = s.waited)
    (hstored : ∀ other, other ≠ base →
      s'.stored outcomes consumed' other = s.stored outcomes consumed other) :
    ∃ rest, (s.parts root outcomes consumed).Perm (s.stored outcomes consumed base ++ rest) ∧
      (s'.parts root outcomes consumed').Perm (s'.stored outcomes consumed' base ++ rest) := by
  obtain ⟨rest, hbefore, hafter⟩ := flatMap_split hnodup hbase hstored
  refine ⟨s.tasks.flatMap (Task.debts outcomes) ++
    ((if s.waited then [] else [root.whole outcomes]) ++ rest), ?_, ?_⟩
  · refine ((hbefore.append_left _).append_left _).trans ?_
    exact ((List.perm_append_comm_assoc _ _ _).append_left _).trans
      (List.perm_append_comm_assoc _ _ _)
  · rw [State.parts, htasks, hwaited]
    refine ((hafter.append_left _).append_left _).trans ?_
    exact ((List.perm_append_comm_assoc _ _ _).append_left _).trans
      (List.perm_append_comm_assoc _ _ _)

/-- An operation has completed and been waited for. -/
theorem Ledger.use {α : Type} {handler : Handler P ρ α} {value : α}
    (h : Ledger (root.whole outcomes) joins (hand ++ s.parts root outcomes consumed) consumed
      s.transformed s.called) (s' : State P ρ)
    (hnodup : root.operations.Nodup) (hbase : base ∈ root.operations)
    (hhand : hand ++ s.stored outcomes consumed base = [handler.debt value [base] []])
    (htasks : s'.tasks = s.tasks) (hwaited : s'.waited = s.waited)
    (hothers : ∀ other, other ≠ base →
      s'.stored outcomes (base::consumed) other = s.stored outcomes consumed other) :
    Ledger (root.whole outcomes) joins
      ([handler.debt value [] []] ++ s'.parts root outcomes (base::consumed)) (base::consumed)
      s.transformed s.called := by
  obtain ⟨rest, hbefore, hafter⟩ := parts_update s s' outcomes consumed (base::consumed) hnodup
    hbase htasks hwaited hothers
  rw [stored_used (List.mem_cons_self ..), List.nil_append] at hafter
  have hperm : (hand ++ s.parts root outcomes consumed).Perm
      (handler.debt value [base] [] :: rest) := by
    refine (hbefore.append_left hand).trans (List.Perm.of_eq ?_)
    rw [← List.append_assoc, hhand]
    rfl
  have hledger : Ledger (root.whole outcomes) joins (handler.debt value [] [] :: rest)
      (base::consumed) s.transformed s.called :=
    (h.perm hperm).replace rfl rfl (List.Perm.refl _) (List.Perm.refl _)
  exact hledger.perm (hafter.symm.cons _)

namespace Sound

/-- An operation that is being waited for was not waited for before. -/
theorem fresh (h : Sound root outcomes joins consumed [debt] s) (hnodup : root.operations.Nodup)
    (hdebt : debt.operations = [base]) :
    base ∈ root.operations ∧ base ∉ consumed ∧ s.stored outcomes consumed base = [] := by
  have hperm := h.ledger.operations
  simp only [debts, List.cons_append, List.nil_append, List.flatMap_cons, hdebt] at hperm
  have hall := hperm.nodup_iff.mpr hnodup
  rw [List.nodup_cons, List.mem_append, not_or] at hall
  have hbase : base ∈ root.operations := hperm.mem_iff.mp (List.mem_cons_self ..)
  refine ⟨hbase, hall.1.2, List.eq_nil_iff_forall_not_mem.mpr fun other hother => hall.1.1 ?_⟩
  refine List.mem_flatMap.mpr ⟨other, List.mem_append_left _ ?_, ?_⟩
  · exact List.mem_append_right _ (List.mem_append_right _
      (List.mem_flatMap.mpr ⟨base, hbase, hother⟩))
  · rw [stored_operations hother]
    exact List.mem_singleton_self base

/-- What is owed by hand is left to a task. -/
theorem push {hand' : List (Debt P ρ)} (h : Sound root outcomes joins consumed hand' s)
    (task : Task P ρ) (hhand : hand' = task.debts outcomes ++ hand)
    (hagrees : task.Agrees joins) (hacting : task.acting = []) :
    Sound root outcomes joins consumed hand { s with tasks := task :: s.tasks } := by
  subst hhand
  have hflat : (task::s.tasks).flatMap Task.acting = s.tasks.flatMap Task.acting := by
    rw [List.flatMap_cons, hacting]
    rfl
  exact {
    h with
    ledger := h.ledger.perm <| by
      simp only [State.parts, List.flatMap_cons, List.append_assoc]
      exact List.perm_append_comm_assoc _ _ _
    tasks := List.forall_mem_cons.mpr ⟨hagrees, h.tasks⟩
    ended := fun operation => hflat ▸ h.ended operation
    acting := fun operation => hflat ▸ h.acting operation
    once := hflat ▸ h.once }

theorem exchange {hand' : List (Debt P ρ)} (h : Sound root outcomes joins consumed hand s)
    (hhand : hand.Perm hand') : Sound root outcomes joins consumed hand' s :=
  { h with ledger := h.ledger.perm (hhand.append_right _) }

/-- What a task on the stack owes is taken over. -/
theorem pop {task : Task P ρ} {tasks : List (Task P ρ)}
    (h : Sound root outcomes joins consumed [] s) (htasks : s.tasks = task::tasks)
    (hacting : task.acting = []) :
    Sound root outcomes joins consumed (task.debts outcomes) { s with tasks := tasks } ∧
      task.Agrees joins := by
  have hflat : s.tasks.flatMap Task.acting = tasks.flatMap Task.acting := by
    rw [htasks, List.flatMap_cons, hacting]
    rfl
  refine ⟨{
    h with
    ledger := ?_
    tasks := fun other hother => h.tasks other (htasks ▸ List.mem_cons_of_mem _ hother)
    ended := fun operation => hflat ▸ h.ended operation
    acting := fun operation => hflat ▸ h.acting operation
    once := hflat ▸ h.once }, h.tasks task (htasks ▸ List.mem_cons_self ..)⟩
  have hledger := h.ledger
  simp only [State.parts, htasks, List.flatMap_cons, List.append_assoc, List.nil_append]
    at hledger
  exact hledger

theorem rejoin {joins' : List (Join (Debt P ρ))} {hand' : List (Debt P ρ)}
    (h : Sound root outcomes joins consumed hand s) (hext : Extends joins joins')
    (hledger : Ledger (root.whole outcomes) joins' (hand' ++ s.parts root outcomes consumed)
      consumed s.transformed s.called) :
    Sound root outcomes joins' consumed hand'
      { s with completed := joins'.map Join.arrived } :=
  { h with
    ledger := hledger
    completed := rfl
    tasks := fun task htask => (h.tasks task htask).mono hext
    slots := fun operation => (h.slots operation).mono hext id Iff.rfl
    finished := fun operation handler hslot =>
      have ⟨hmem, hagrees⟩ := h.finished operation handler hslot
      ⟨hmem, hagrees.mono hext⟩ }

/-- A callback counts its call, and the last one calls what waits for all. -/
theorem callback {completed futureCount : Nat} {onResult : Handler P ρ Unit}
    (h : Sound root outcomes joins consumed
      [(Handler.callback completed futureCount onResult).debt () [] []] s)
    (hagrees : (Handler.callback completed futureCount onResult).Agrees joins) :
    ∃ joins', Sound root outcomes joins' consumed []
      (s.call (.callback completed futureCount onResult) ()) := by
  obtain ⟨⟨join, hjoin, hparts, hpart⟩, honResult⟩ := hagrees
  have hcount : s.completed.getD completed 0 = join.arrived := by
    simp [h.completed, hjoin]
  have hset : s.completed.set completed (join.arrived + 1) =
      (joins.set completed join.arrive).map Join.arrived := by
    rw [h.completed, List.map_set]
    rfl
  have hlt : join.arrived < join.parts := by
    simpa [Join.isOpen] using h.ledger.balanced.open_of_owed hjoin (by simp [owed, Handler.debt,
      Handler.parent])
  refine ⟨joins.set completed join.arrive, ?_⟩
  simp only [State.call, hcount, hset]
  split
  · next heq =>
    have hclosed : join.arrive.isOpen = false := by
      rw [Join.isOpen, decide_eq_false_iff_not]
      exact Nat.not_lt.mpr (Nat.le_of_eq (hparts.trans heq.symm))
    have hledger : Ledger (root.whole outcomes) (joins.set completed join.arrive)
        ([onResult.debt () [] []] ++ s.parts root outcomes consumed) consumed s.transformed
        s.called := hpart ▸ h.ledger.close rfl hjoin hclosed rfl rfl
    have hsound := h.rejoin (.set hjoin) hledger
    exact hsound.push (.call onResult ()) rfl (honResult.mono (.set hjoin)) rfl
  · next hne =>
    have hopen : join.arrive.isOpen = true := by
      rw [Join.isOpen, decide_eq_true_iff]
      exact Nat.lt_of_le_of_ne hlt fun heq => hne (heq.trans hparts)
    exact h.rejoin (.set hjoin) (h.ledger.arrive rfl hjoin hopen rfl rfl)

theorem call {α : Type} {handler : Handler P ρ α} {value : α}
    (h : Sound root outcomes joins consumed [handler.debt value [] []] s)
    (hagrees : handler.Agrees joins) :
    ∃ joins', Sound root outcomes joins' consumed [] (s.call handler value) := by
  cases handler with
  | root => exact ⟨joins, { h with ledger := h.ledger.finish rfl rfl rfl rfl }⟩
  | transform name f onResult =>
    have hledger : Ledger (root.whole outcomes) joins
        (onResult.debt (f value) [] [] :: s.parts root outcomes consumed) consumed
        (s.transformed ++ [name]) s.called :=
      h.ledger.replace rfl rfl (List.Perm.refl _) <| by
        simp only [Handler.debt, Handler.transformations, List.nil_append, ← List.append_assoc]
        exact List.perm_append_singleton _ _
    have hsound : Sound root outcomes joins consumed [onResult.debt (f value) [] []]
        { s with transformed := s.transformed ++ [name] } := { h with ledger := hledger }
    exact ⟨joins, hsound.push (.transforming f value onResult) rfl hagrees rfl⟩
  | callback completed futureCount onResult => exact h.callback hagrees

/-- Only what concerns one operation changes. -/
theorem slots_update {ended' : List (Base P)} {operation : P.Operation}
    {slot : Slot P ρ (P.Result operation)} (h : Sound root outcomes joins consumed hand s)
    (hslot : SlotSound root outcomes joins consumed' ended' operation slot)
    (hconsumed : ∀ other ≠ Base.useFuture operation, other ∈ consumed' ↔ other ∈ consumed)
    (hended : ∀ other ≠ Base.useFuture operation, other ∈ ended' ↔ other ∈ s.ended)
    (other : P.Operation) : SlotSound root outcomes joins consumed' ended' other
      (Function.update s.slot operation slot other) := by
  by_cases heq : other = operation
  · subst heq
    rw [Function.update_self]
    exact hslot
  · rw [Function.update_of_ne heq]
    have hne : Base.useFuture other ≠ .useFuture operation := fun h => heq (Base.useFuture.inj h)
    exact (h.slots other).mono (.refl joins) (hconsumed _ hne).mpr (hended _ hne)

/-- The wait of a future that `use_future` gave. -/
theorem waitUseFuture {operation : P.Operation} {onResult : Handler P ρ (P.Result operation)}
    (h : Sound root outcomes joins consumed
      [onResult.debt (outcomes.result operation) [.useFuture operation] []] s)
    (hagrees : onResult.Agrees joins) (hnodup : root.operations.Nodup) :
    ∃ consumed', Sound root outcomes joins consumed' []
      (s.wait (.useFuture operation) onResult) := by
  obtain ⟨hbase, hunused, hnone⟩ := h.fresh hnodup rfl
  have hslot := h.slots operation
  have hothers : ∀ (slot : Slot P ρ (P.Result operation)) (other : Base P),
      other ≠ .useFuture operation → ∀ o, other = .useFuture o →
        Function.update s.slot operation slot o = s.slot o := fun slot other hne o ho =>
    Function.update_of_ne (fun heq : o = operation => hne (by rw [ho, heq])) slot s.slot
  simp only [State.wait]
  cases heq : s.slot operation with
  | unit =>
    -- the handler is stored until the operation completes
    rw [heq] at hslot
    obtain ⟨rest, hbefore, hafter⟩ := parts_update s
      { s with slot := Function.update s.slot operation (.handler onResult) } outcomes consumed
      consumed hnodup hbase rfl rfl fun other hother =>
        stored_congr (hothers _ other hother) (fun _ _ => rfl) Iff.rfl
    rw [hnone] at hbefore
    rw [stored_handler hunused (Function.update_self ..)] at hafter
    exact ⟨consumed, {
      h with
      ledger := h.ledger.perm ((hbefore.cons _).trans hafter.symm)
      slots := h.slots_update ⟨hbase, hagrees, fun hend => absurd hend hslot⟩
        (fun _ _ => Iff.rfl) fun _ _ => Iff.rfl }⟩
  | result value =>
    rw [heq] at hslot
    obtain ⟨rfl, hended⟩ := hslot
    refine ⟨.useFuture operation :: consumed, ?_⟩
    have hledger := h.ledger.use
      { s with slot := Function.update s.slot operation .moved } hnodup hbase
      (by rw [hnone]; rfl) rfl rfl
      fun other hother => stored_congr (hothers _ other hother) (fun _ _ => rfl)
        (List.mem_cons.trans (or_iff_right hother))
    have hsound : Sound root outcomes joins (.useFuture operation :: consumed)
        [onResult.debt (outcomes.result operation) [] []]
        { s with slot := Function.update s.slot operation .moved } := {
      h with
      ledger := hledger
      slots := h.slots_update (List.mem_cons_self ..)
        (fun other hother => List.mem_cons.trans (or_iff_right hother)) fun _ _ => Iff.rfl
      used := List.forall_mem_cons.mpr ⟨hended, h.used⟩
      ended := fun o hend hnot => h.ended o hend fun hmem => hnot (List.mem_cons_of_mem _ hmem)
      acting := fun o ho => ⟨(h.acting o ho).1, fun hmem =>
        (h.acting o ho).2 ((List.mem_cons.mp hmem).resolve_left nofun)⟩ }
    exact hsound.push (.call onResult (outcomes.result operation)) rfl hagrees rfl
  | handler handler =>
    rw [stored_handler hunused heq] at hnone
    cases hnone
  | moved =>
    rw [heq] at hslot
    exact absurd hslot hunused

/-- The wait of a future that `then(action)` gave. -/
theorem waitThenAction {operation : P.Action} {onResult : Handler P ρ Unit}
    (h : Sound root outcomes joins consumed [onResult.debt () [.thenAction operation] []] s)
    (hagrees : onResult.Agrees joins) (hnodup : root.operations.Nodup) :
    Sound root outcomes joins consumed [] (s.wait (.thenAction operation) onResult) := by
  obtain ⟨hbase, hunused, hnone⟩ := h.fresh hnodup rfl
  have hupdate : ∀ o, o ≠ operation →
      Function.update s.finished operation (some onResult) o = s.finished o :=
    fun o ho => Function.update_of_ne ho (some onResult) s.finished
  simp only [State.wait]
  cases heq : s.finished operation with
  | none =>
    obtain ⟨rest, hbefore, hafter⟩ := parts_update s
      { s with finished := Function.update s.finished operation (some onResult) } outcomes
      consumed consumed hnodup hbase rfl rfl fun other hother =>
        stored_congr (fun _ _ => rfl) (fun o ho => hupdate o fun heq => hother (by rw [ho, heq]))
          Iff.rfl
    rw [hnone] at hbefore
    rw [stored_finished hunused (Function.update_self ..)] at hafter
    have hfinished : ∀ o handler,
        Function.update s.finished operation (some onResult) o = some handler →
          .thenAction o ∈ root.operations ∧ handler.Agrees joins := by
      intro o handler ho
      by_cases hsame : o = operation
      · subst hsame
        rw [Function.update_self, Option.some.injEq] at ho
        exact ⟨hbase, ho ▸ hagrees⟩
      · rw [hupdate o hsame] at ho
        exact h.finished o handler ho
    exact {
      h with
      ledger := h.ledger.perm ((hbefore.cons _).trans hafter.symm)
      finished := hfinished }
  | some handler =>
    rw [stored_finished hunused heq] at hnone
    cases hnone

/-- The wait of a `when_all`. -/
theorem waitWhenAll {first : Future P Unit} {others : List (Future P Unit)}
    {onResult : Handler P ρ Unit}
    (h : Sound root outcomes joins consumed
      [onResult.debt () (Future.whenAll first others).operations
        (Future.whenAll first others).transformations] s)
    (hagrees : onResult.Agrees joins) :
    ∃ joins', Sound root outcomes joins' consumed [] (s.wait (.whenAll first others) onResult) := by
  have hlength : s.completed.length = joins.length := by rw [h.completed, List.length_map]
  let callback : Handler P ρ Unit := .callback joins.length (others.length + 1) onResult
  let children := (Task.asyncWaits (first::others) callback).debts outcomes
  have hchildren : children.length = others.length + 1 := by simp [children, Task.debts]
  have hledger : Ledger (root.whole outcomes)
      (joins ++ [⟨onResult.debt () [] [], others.length + 1, 0⟩])
      (children ++ s.parts root outcomes consumed) consumed s.transformed s.called := by
    rw [← hchildren]
    refine h.ledger.fork rfl rfl (by omega) ?_ ?_ ?_
    · intro child hchild
      obtain ⟨future, -, rfl⟩ := List.mem_map.mp hchild
      rfl
    · simp [children, Task.debts, Handler.debt, Future.operations, operationsOfAll_eq,
        List.flatMap_map]
    · simp [children, callback, Task.debts, Handler.debt, Handler.transformations,
        Future.transformations, transformationsOfAll_eq, List.flatMap_map]
  have hsound := h.rejoin (.append joins _) hledger
  rw [List.map_append, ← h.completed] at hsound
  refine ⟨joins ++ [⟨onResult.debt () [] [], others.length + 1, 0⟩], ?_⟩
  simp only [State.wait, hlength]
  refine hsound.push (.asyncWaits (first::others) callback) (List.append_nil _).symm ?_ rfl
  exact ⟨⟨_, List.getElem?_concat_length .., rfl, rfl⟩, hagrees.mono (.append joins _)⟩

theorem wait {α : Type} {future : Future P α} {onResult : Handler P ρ α}
    (h : Sound root outcomes joins consumed
      [onResult.debt (future.value outcomes) future.operations future.transformations] s)
    (hagrees : onResult.Agrees joins) (hnodup : root.operations.Nodup) :
    ∃ joins' consumed', Sound root outcomes joins' consumed' [] (s.wait future onResult) := by
  cases future with
  | useFuture operation => exact ⟨joins, h.waitUseFuture hagrees hnodup⟩
  | thenAction operation => exact ⟨joins, consumed, h.waitThenAction hagrees hnodup⟩
  | andThen first name f =>
    refine ⟨joins, consumed, h.push (.wait first (.transform name f onResult)) ?_ hagrees rfl⟩
    simp [Task.debts, Handler.debt, Handler.parent, Handler.transformations, Handler.outcome,
      Future.value, Future.operations, Future.transformations]
  | whenAll first others =>
    obtain ⟨joins', h'⟩ := h.waitWhenAll hagrees
    exact ⟨joins', consumed, h'⟩

/-- The end of an action that somebody waits for. -/
theorem executeFinished {operation : P.Action} {tasks : List (Task P ρ)}
    (h : Sound root outcomes joins consumed [] s) (htasks : s.tasks = .finished operation :: tasks)
    (hwaited : s.finished operation ≠ none) (hnodup : root.operations.Nodup) :
    ∃ consumed', Sound root outcomes joins consumed' []
      (State.execute { s with tasks := tasks } (.finished operation)) := by
  obtain ⟨handler, hhandler⟩ := Option.ne_none_iff_exists'.mp hwaited
  obtain ⟨hbase, hagrees⟩ := h.finished operation handler hhandler
  have hflat : s.tasks.flatMap Task.acting = operation :: tasks.flatMap Task.acting := by
    rw [htasks, List.flatMap_cons]
    rfl
  obtain ⟨hended, hunused⟩ := h.acting operation (hflat ▸ List.mem_cons_self ..)
  have honce := h.once
  rw [hflat, List.nodup_cons] at honce
  have hledger : Ledger (root.whole outcomes) joins
      ([] ++ State.parts { s with tasks := tasks } root outcomes consumed) consumed
      s.transformed s.called := by
    have hledger := h.ledger
    rw [State.parts, htasks] at hledger
    exact hledger
  have hothers : ∀ o, o ≠ operation → (Base.thenAction o ∈ .thenAction operation :: consumed ↔
      Base.thenAction o ∈ consumed) := fun o ho =>
    List.mem_cons.trans (or_iff_right fun heq => ho (Base.thenAction.inj heq))
  have hstored : State.stored { s with tasks := tasks } outcomes consumed
      (.thenAction operation) = [handler.debt () [.thenAction operation] []] :=
    stored_finished hunused hhandler
  have hsound : Sound root outcomes joins (.thenAction operation :: consumed)
      [handler.debt () [] []] { s with tasks := tasks } := {
    h with
    ledger := Ledger.use (s := { s with tasks := tasks }) hledger { s with tasks := tasks } hnodup
      hbase hstored rfl rfl fun other hother =>
        stored_congr (fun _ _ => rfl) (fun _ _ => rfl) (List.mem_cons.trans (or_iff_right hother))
    tasks := fun task htask => h.tasks task (htasks ▸ List.mem_cons_of_mem _ htask)
    slots := fun o => (h.slots o).mono (.refl joins) (List.mem_cons_of_mem _) Iff.rfl
    used := List.forall_mem_cons.mpr ⟨hended, h.used⟩
    ended := fun o hend hnot => by
      have hne : o ≠ operation := fun heq => hnot (heq ▸ List.mem_cons_self ..)
      have hmem := h.ended o hend fun hmem => hnot ((hothers o hne).mpr hmem)
      exact (List.mem_cons.mp (hflat ▸ hmem)).resolve_left hne
    acting := fun o ho => by
      have hne : o ≠ operation := fun heq => honce.1 (heq ▸ ho)
      obtain ⟨hend, hnot⟩ := h.acting o (hflat ▸ List.mem_cons_of_mem _ ho)
      exact ⟨hend, fun hmem => hnot ((hothers o hne).mp hmem)⟩
    once := honce.2 }
  refine ⟨.thenAction operation :: consumed, ?_⟩
  simp only [State.execute, hhandler]
  exact hsound.push (.call handler ()) rfl hagrees rfl

/-- What runs goes on, where the action that returns has been waited for. -/
theorem advance (h : Sound root outcomes joins consumed [] s) (hnodup : root.operations.Nodup)
    (hwaited : ∀ operation, s.tasks.head? = some (.finished operation) →
      s.finished operation ≠ none) :
    ∃ joins' consumed', Sound root outcomes joins' consumed' [] s.advance := by
  rw [State.advance]
  split
  · exact ⟨joins, consumed, h⟩
  · next task tasks htasks =>
    cases task with
    | finished operation =>
      have hwaits := hwaited operation (by rw [htasks]; rfl)
      exact ⟨joins, h.executeFinished htasks hwaits hnodup⟩
    | wait future onResult =>
      obtain ⟨hpop, hagrees⟩ := h.pop htasks rfl
      exact hpop.wait hagrees hnodup
    | call handler value =>
      obtain ⟨hpop, hagrees⟩ := h.pop htasks rfl
      obtain ⟨joins', h'⟩ := hpop.call hagrees
      exact ⟨joins', consumed, h'⟩
    | transforming f value onResult =>
      obtain ⟨hpop, hagrees⟩ := h.pop htasks rfl
      exact ⟨joins, consumed, hpop.push (.call onResult (f value)) rfl hagrees rfl⟩
    | asyncWaits futures callback =>
      obtain ⟨hpop, hagrees⟩ := h.pop htasks rfl
      cases futures with
      | nil => exact ⟨joins, consumed, hpop⟩
      | cons future futures =>
        let debt := callback.debt () future.operations future.transformations
        have hfirst : Sound root outcomes joins consumed
            ((Task.asyncWaits futures callback).debts outcomes ++ [debt])
            { s with tasks := tasks } := hpop.exchange (List.perm_append_singleton _ _).symm
        have hrest := hfirst.push (.asyncWaits futures callback) rfl hagrees rfl
        exact ⟨joins, consumed, hrest.push (.wait future callback) rfl hagrees rfl⟩

/-- An operation started with `use_future` completes. -/
theorem completeUseFuture {operation : P.Operation}
    (h : Sound root outcomes joins consumed [] s) (hnodup : root.operations.Nodup)
    (hnew : .useFuture operation ∉ s.ended) :
    ∃ consumed', Sound root outcomes joins consumed' []
      (State.futureHandler { s with ended := .useFuture operation :: s.ended } operation
        (outcomes.result operation)) := by
  have hslot := h.slots operation
  have hended : ∀ other ≠ Base.useFuture operation,
      other ∈ Base.useFuture operation :: s.ended ↔ other ∈ s.ended := fun other hother =>
    List.mem_cons.trans (or_iff_right hother)
  have hacted : ∀ o, Base.thenAction o ∈ Base.useFuture operation :: s.ended ↔
      .thenAction o ∈ s.ended := fun o => hended (.thenAction o) nofun
  simp only [State.futureHandler]
  cases heq : s.slot operation with
  | unit =>
    -- the result is kept until somebody waits for it
    have hstored : ∀ base, State.stored { s with
        slot := Function.update s.slot operation (.result (outcomes.result operation)) }
        outcomes consumed base = s.stored outcomes consumed base := by
      intro base
      by_cases hbase : base = .useFuture operation
      · subst hbase
        simp [State.stored, heq]
      · refine stored_congr (fun o ho => ?_) (fun _ _ => rfl) Iff.rfl
        exact Function.update_of_ne (fun heq : o = operation => hbase (by rw [ho, heq])) _ s.slot
    refine ⟨consumed, {
      h with
      ledger := ?_
      slots := h.slots_update ⟨rfl, List.mem_cons_self ..⟩ (fun _ _ => Iff.rfl) hended
      used := fun base hbase => List.mem_cons_of_mem _ (h.used base hbase)
      ended := fun o ho => h.ended o ((hacted o).mp ho)
      acting := fun o ho => ⟨(hacted o).mpr (h.acting o ho).1, (h.acting o ho).2⟩ }⟩
    have hledger := h.ledger
    rw [State.parts, ← funext hstored] at hledger
    exact hledger
  | handler handler =>
    rw [heq] at hslot
    obtain ⟨hbase, hagrees, -⟩ := hslot
    have hunused : .useFuture operation ∉ consumed := fun hmem => hnew (h.used _ hmem)
    have hstored : s.stored outcomes consumed (.useFuture operation) =
        [handler.debt (outcomes.result operation) [.useFuture operation] []] :=
      stored_handler hunused heq
    have hothers : ∀ other ≠ Base.useFuture operation,
        other ∈ Base.useFuture operation :: consumed ↔ other ∈ consumed := fun other hother =>
      List.mem_cons.trans (or_iff_right hother)
    have hsound : Sound root outcomes joins (.useFuture operation :: consumed)
        [handler.debt (outcomes.result operation) [] []]
        { s with ended := .useFuture operation :: s.ended } := {
      h with
      ledger := h.ledger.use { s with ended := .useFuture operation :: s.ended } hnodup hbase
        hstored rfl rfl fun other hother => stored_congr (fun _ _ => rfl) (fun _ _ => rfl)
          (hothers other hother)
      slots := fun o => by
        by_cases ho : o = operation
        · subst ho
          rw [heq]
          exact ⟨hbase, hagrees, fun _ => List.mem_cons_self ..⟩
        · have hne : Base.useFuture o ≠ .useFuture operation := fun h => ho (Base.useFuture.inj h)
          exact (h.slots o).mono (.refl joins) (List.mem_cons_of_mem _) (hended _ hne)
      used := List.forall_mem_cons.mpr ⟨List.mem_cons_self .., fun base hbase =>
        List.mem_cons_of_mem _ (h.used base hbase)⟩
      ended := fun o ho hnot => h.ended o ((hacted o).mp ho) fun hmem =>
        hnot (List.mem_cons_of_mem _ hmem)
      acting := fun o ho => ⟨(hacted o).mpr (h.acting o ho).1, fun hmem =>
        (h.acting o ho).2 ((hothers (.thenAction o) nofun).mp hmem)⟩ }
    exact ⟨.useFuture operation :: consumed,
      hsound.push (.call handler (outcomes.result operation)) rfl hagrees rfl⟩
  | result value =>
    rw [heq] at hslot
    exact absurd hslot.2 hnew
  | moved =>
    rw [heq] at hslot
    exact absurd (h.used _ hslot) hnew

/-- One that was started with `then(action)` completes. -/
theorem completeThenAction {operation : P.Action} {input : P.Input operation}
    (h : Sound root outcomes joins consumed [] s) (hnew : .thenAction operation ∉ s.ended) :
    Sound root outcomes joins consumed []
      (State.thenHandler { s with ended := .thenAction operation :: s.ended } operation input) := by
  have hunused : .thenAction operation ∉ consumed := fun hmem => hnew (h.used _ hmem)
  have hidle : operation ∉ s.tasks.flatMap Task.acting := fun hmem => hnew (h.acting _ hmem).1
  exact {
    h with
    ledger := h.ledger
    tasks := List.forall_mem_cons.mpr ⟨trivial, h.tasks⟩
    slots := fun o => (h.slots o).mono (.refl joins) id
      (List.mem_cons.trans (or_iff_right nofun))
    used := fun base hbase => List.mem_cons_of_mem _ (h.used base hbase)
    ended := fun o ho hnot => by
      rcases List.mem_cons.mp ho with heq | ho
      · exact Base.thenAction.inj heq ▸ List.mem_cons_self ..
      · exact List.mem_cons_of_mem _ (h.ended o ho hnot)
    acting := fun o ho => by
      rcases List.mem_cons.mp ho with rfl | ho
      · exact ⟨List.mem_cons_self .., hunused⟩
      · exact ⟨List.mem_cons_of_mem _ (h.acting o ho).1, (h.acting o ho).2⟩
    once := List.nodup_cons.mpr ⟨hidle, h.once⟩ }

end Sound
end

end Futures
end Warpcoil
