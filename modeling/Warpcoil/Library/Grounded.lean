import Mathlib.Data.List.Basic

/-! Lists in which everything stands behind what it needs. -/

/-- Every element has what it needs among what was seen before and what stands before it. -/
def Grounded {α : Type*} (Needs : List α → α → Prop) : List α → List α → Prop
  | _, [] => True
  | seen, x::xs => Needs seen x ∧ Grounded Needs (seen ++ [x]) xs

namespace Grounded
variable {α : Type*} {Needs : List α → α → Prop}

theorem append {seen l l' : List α} :
    Grounded Needs seen (l ++ l') ↔ Grounded Needs seen l ∧ Grounded Needs (seen ++ l) l' := by
  induction l generalizing seen with
  | nil => simp [Grounded]
  | cons x xs ih => simp [Grounded, ih, and_assoc]

end Grounded
