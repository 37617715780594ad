import Mathlib.Data.List.Nodup
import Warpcoil.Futures
import Warpcoil.Library.Joining

/-! What is owed while futures are being waited for: every wait, every stored handler and every
call in progress will call one function once, and so will every `when_all` that is not complete. -/
namespace Warpcoil
namespace Futures
open Joining
variable {P : Program} {ρ : Type}

/-! What becomes of a value that a handler is called with. -/

/-- The counter that the handler leads to, or the handler from outside. -/
def Handler.parent : ∀ {α : Type}, Handler P ρ α → Option Nat
  | _, .root => none
  | _, .transform _ _ onResult => onResult.parent
  | _, .callback completed _ _ => some completed

/-- The transformations up to there. -/
def Handler.transformations : ∀ {α : Type}, Handler P ρ α → List P.Transformation
  | _, .root => []
  | _, .transform name _ onResult => name :: onResult.transformations
  | _, .callback _ _ _ => []

/-- What the handler from outside is called with. -/
def Handler.outcome : ∀ {α : Type}, Handler P ρ α → α → Option ρ
  | _, .root, value => some value
  | _, .transform _ f onResult, value => onResult.outcome (f value)
  | _, .callback _ _ _, _ => none

/-- A call that will be made. -/
structure Debt (P : Program) (ρ : Type) where
  parent : Option Nat
  operations : List (Base P)
  transformations : List P.Transformation
  outcome : Option ρ

/-- The handler will be called with the value, when the operations have completed and the
transformations have run. -/
def Handler.debt {α : Type} (handler : Handler P ρ α) (value : α) (operations : List (Base P))
    (transformations : List P.Transformation) : Debt P ρ :=
  ⟨handler.parent, operations, transformations ++ handler.transformations,
    handler.outcome value⟩

/-- All that is owed. -/
def debts (joins : List (Join (Debt P ρ))) (parts : List (Debt P ρ)) : List (Debt P ρ) :=
  parts ++ pending joins

/-- The whole has been split up and nothing of it was lost or done twice. -/
structure Ledger (whole : Debt P ρ) (joins : List (Join (Debt P ρ))) (parts : List (Debt P ρ))
    (consumed : List (Base P)) (transformed : List P.Transformation) (called : List ρ) :
    Prop where
  balanced : Balanced Debt.parent joins parts called.length
  operations : ((debts joins parts).flatMap Debt.operations ++ consumed).Perm whole.operations
  transformations : ((debts joins parts).flatMap Debt.transformations ++ transformed).Perm
    whole.transformations
  outcome : ∀ debt ∈ debts joins parts, debt.parent = none → debt.outcome = whole.outcome
  called : ∀ value ∈ called, some value = whole.outcome

theorem perm_exchange {α : Type*} {as bs cs ds es : List α}
    (h : (as ++ ds).Perm (bs ++ es)) : (as ++ cs ++ ds).Perm (bs ++ cs ++ es) := by
  have hfront : ∀ as ds : List α, (as ++ cs ++ ds).Perm (cs ++ (as ++ ds)) := fun as ds => by
    rw [← List.append_assoc cs]
    exact List.perm_append_comm.append_right ds
  exact (hfront as ds).trans ((h.append_left cs).trans (hfront bs es).symm)

namespace Ledger
variable {whole debt : Debt P ρ} {joins : List (Join (Debt P ρ))} {parts parts' : List (Debt P ρ)}
variable {consumed consumed' : List (Base P)} {transformed transformed' : List P.Transformation}
variable {called : List ρ}

theorem start (h : whole.parent = none) : Ledger whole [] [whole] [] [] [] := by
  refine ⟨.start h, ?_, ?_, fun debt hdebt _ => ?_, nofun⟩
  · simp [debts, pending]
  · simp [debts, pending]
  · have heq : debt = whole := by simpa [debts, pending] using hdebt
    rw [heq]

theorem perm (h : Ledger whole joins parts consumed transformed called)
    (hparts : parts.Perm parts') : Ledger whole joins parts' consumed transformed called := by
  have hdebts : (debts joins parts).Perm (debts joins parts') := hparts.append_right _
  refine ⟨h.balanced.congr (hparts.map _), ?_, ?_, fun debt hdebt => ?_, h.called⟩
  · exact ((hdebts.flatMap_right _).symm.append_right _).trans h.operations
  · exact ((hdebts.flatMap_right _).symm.append_right _).trans h.transformations
  · exact h.outcome debt (hdebts.mem_iff.mpr hdebt)

/-- An operation has been used or a transformation has run. -/
theorem replace {debt' : Debt P ρ}
    (h : Ledger whole joins (debt::parts) consumed transformed called)
    (hparent : debt'.parent = debt.parent) (houtcome : debt'.outcome = debt.outcome)
    (hoperations : (debt'.operations ++ consumed').Perm (debt.operations ++ consumed))
    (htransformations :
      (debt'.transformations ++ transformed').Perm (debt.transformations ++ transformed)) :
    Ledger whole joins (debt'::parts) consumed' transformed' called := by
  refine ⟨h.balanced.congr (by simp [hparent]), ?_, ?_, fun other hother hnone => ?_, h.called⟩
  · exact (perm_exchange hoperations).trans h.operations
  · exact (perm_exchange htransformations).trans h.transformations
  · rcases List.mem_cons.mp hother with rfl | hother
    · rw [houtcome]
      exact h.outcome debt (List.mem_cons_self ..) (hparent.symm.trans hnone)
    · exact h.outcome other (List.mem_cons_of_mem _ hother) hnone

/-- The wait of a `when_all` becomes the waits of its futures. -/
theorem fork {part : Debt P ρ} {children : List (Debt P ρ)}
    (h : Ledger whole joins (debt::parts) consumed transformed called)
    (hparent : part.parent = debt.parent) (houtcome : part.outcome = debt.outcome)
    (hne : 0 < children.length)
    (hchildren : ∀ child ∈ children, child.parent = some joins.length)
    (hoperations : children.flatMap Debt.operations ++ part.operations = debt.operations)
    (htransformations :
      children.flatMap Debt.transformations ++ part.transformations = debt.transformations) :
    Ledger whole (joins ++ [⟨part, children.length, 0⟩]) (children ++ parts) consumed transformed
      called := by
  have hopen : (⟨part, children.length, 0⟩ : Join (Debt P ρ)).isOpen = true :=
    decide_eq_true hne
  have hdebts : (debts (joins ++ [⟨part, children.length, 0⟩]) (children ++ parts)).Perm
      ((children ++ [part]) ++ debts joins parts) := by
    rw [debts, debts, pending_open joins hopen, List.append_assoc, List.append_assoc,
      ← List.append_assoc parts]
    exact List.perm_append_comm.append_left children
  have hsplit : ∀ {α : Type} (f : Debt P ρ → List α),
      children.flatMap f ++ f part = f debt → ∀ rest : List α,
      ((debts (joins ++ [⟨part, children.length, 0⟩]) (children ++ parts)).flatMap f ++ rest).Perm
        ((debts joins (debt::parts)).flatMap f ++ rest) := by
    intro α f hf rest
    refine ((hdebts.flatMap_right f).append_right rest).trans (List.Perm.of_eq ?_)
    simp [debts, ← hf]
  refine ⟨h.balanced.fork hparent hne hchildren, ?_, ?_, fun other hother hnone => ?_, h.called⟩
  · exact (hsplit _ hoperations consumed).trans h.operations
  · exact (hsplit _ htransformations transformed).trans h.transformations
  · rcases List.mem_append.mp (hdebts.mem_iff.mp hother) with hother | hother
    · rcases List.mem_append.mp hother with hother | hother
      · cases (hchildren other hother).symm.trans hnone
      · rw [List.mem_singleton.mp hother, houtcome]
        refine h.outcome debt (List.mem_cons_self ..) (hparent.symm.trans ?_)
        rwa [← List.mem_singleton.mp hother]
    · exact h.outcome other (List.mem_cons_of_mem _ hother) hnone

/-- A callback counts, and others are missing. -/
theorem arrive {c : Nat} {join : Join (Debt P ρ)}
    (h : Ledger whole joins (debt::parts) consumed transformed called)
    (hparent : debt.parent = some c) (hjoin : joins[c]? = some join)
    (hopen : join.arrive.isOpen = true) (hoperations : debt.operations = [])
    (htransformations : debt.transformations = []) :
    Ledger whole (joins.set c join.arrive) parts consumed transformed called := by
  have hwas : join.isOpen = true := h.balanced.open_of_owed hjoin (by simp [owed, hparent])
  have hdebts : debts joins (debt::parts) = debt :: debts (joins.set c join.arrive) parts := by
    rw [debts, debts, pending_arrive hjoin hwas hopen]
    rfl
  refine ⟨h.balanced.arrive hparent hjoin hopen, ?_, ?_, fun other hother => ?_, h.called⟩
  · have hperm := h.operations
    rwa [hdebts, List.flatMap_cons, hoperations] at hperm
  · have hperm := h.transformations
    rwa [hdebts, List.flatMap_cons, htransformations] at hperm
  · exact h.outcome other (hdebts ▸ List.mem_cons_of_mem _ hother)

/-- The last callback counts. -/
theorem close {c : Nat} {join : Join (Debt P ρ)}
    (h : Ledger whole joins (debt::parts) consumed transformed called)
    (hparent : debt.parent = some c) (hjoin : joins[c]? = some join)
    (hclosed : join.arrive.isOpen = false) (hoperations : debt.operations = [])
    (htransformations : debt.transformations = []) :
    Ledger whole (joins.set c join.arrive) (join.part::parts) consumed transformed called := by
  have hwas : join.isOpen = true := h.balanced.open_of_owed hjoin (by simp [owed, hparent])
  have hdebts : (debts joins (debt::parts)).Perm
      (debt :: debts (joins.set c join.arrive) (join.part::parts)) :=
    (((pending_close hjoin hwas hclosed).append_left parts).trans List.perm_middle).cons debt
  refine ⟨h.balanced.close hparent hjoin hclosed, ?_, ?_, fun other hother => ?_, h.called⟩
  · have hperm := ((hdebts.flatMap_right Debt.operations).append_right consumed).symm.trans
      h.operations
    rwa [List.flatMap_cons, hoperations] at hperm
  · have hperm := ((hdebts.flatMap_right Debt.transformations).append_right transformed).symm.trans
      h.transformations
    rwa [List.flatMap_cons, htransformations] at hperm
  · exact h.outcome other (hdebts.mem_iff.mpr (List.mem_cons_of_mem _ hother))

/-- The handler from outside is called. -/
theorem finish {value : ρ}
    (h : Ledger whole joins (debt::parts) consumed transformed called)
    (hparent : debt.parent = none) (houtcome : debt.outcome = some value)
    (hoperations : debt.operations = []) (htransformations : debt.transformations = []) :
    Ledger whole joins parts consumed transformed (called ++ [value]) := by
  refine ⟨?_, ?_, ?_, fun other hother => ?_, fun other hother => ?_⟩
  · rw [List.length_append]
    exact h.balanced.finish hparent
  · have hperm := h.operations
    rwa [debts, List.cons_append, List.flatMap_cons, hoperations] at hperm
  · have hperm := h.transformations
    rwa [debts, List.cons_append, List.flatMap_cons, htransformations] at hperm
  · exact h.outcome other (List.mem_cons_of_mem _ hother)
  · rcases List.mem_append.mp hother with hother | hother
    · exact h.called other hother
    · rw [List.mem_singleton.mp hother, ← houtcome]
      exact h.outcome debt (List.mem_cons_self ..) hparent

/-- When it has been called nothing is owed any more. -/
theorem debts_of_called (h : Ledger whole joins parts consumed transformed called)
    (hcalled : called ≠ []) : debts joins parts = [] := by
  have howed := h.balanced.owed_of_done (List.length_pos_iff.mpr hcalled)
  rw [owed, ← List.map_append] at howed
  exact List.map_eq_nil_iff.mp howed

/-- It has been called when nothing is left that could lead to the call. -/
theorem called_of_nil (h : Ledger whole joins [] consumed transformed called) :
    ∃ value, called = [value] ∧ some value = whole.outcome ∧
      consumed.Perm whole.operations ∧ transformed.Perm whole.transformations := by
  obtain ⟨hpending, hdone⟩ := h.balanced.done_of_nil
  obtain ⟨value, hvalue⟩ := List.length_eq_one_iff.mp hdone
  refine ⟨value, hvalue, h.called value (by simp [hvalue]), ?_, ?_⟩
  · simpa [debts, hpending] using h.operations
  · simpa [debts, hpending] using h.transformations

end Ledger
end Futures
end Warpcoil
