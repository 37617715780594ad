import Mathlib.Data.List.Basic

/-! Lists written one after another, each behind a separator that they may contain themselves. -/
namespace Separated
variable {α : Type*} (separator : α)

def joined (parts : List (List α)) : List α := parts.flatMap (separator :: ·)

variable [DecidableEq α]

/-- What stands between the separators of all of them. -/
def words (parts : List (List α)) : List (List α) := parts.flatMap (List.splitOn separator)

variable {separator}

theorem splitOn_joined (parts : List (List α)) :
    (joined separator parts).splitOn separator = [] :: words separator parts := by
  suffices hbehind : ∀ front : List α, (front ++ joined separator parts).splitOn separator =
      front.splitOn separator ++ words separator parts by
    simpa using hbehind []
  induction parts with
  | nil => simp [joined, words]
  | cons part parts ih =>
    intro front
    change (front ++ separator :: (part ++ joined separator parts)).splitOn separator = _
    rw [List.splitOn_append_cons_self, ih part]
    rfl

/-- The words are all that can be read back. -/
theorem joined_eq_iff {parts parts' : List (List α)} :
    joined separator parts = joined separator parts' ↔
      words separator parts = words separator parts' := by
  constructor
  · intro h
    have hsplit := congrArg (List.splitOn separator) h
    rw [splitOn_joined, splitOn_joined] at hsplit
    exact (List.cons.inj hsplit).2
  · intro h
    calc
      joined separator parts =
          [separator].intercalate ((joined separator parts).splitOn separator) :=
        (List.intercalate_splitOn separator).symm
      _ = [separator].intercalate ((joined separator parts').splitOn separator) := by
        rw [splitOn_joined, splitOn_joined, h]
      _ = joined separator parts' := List.intercalate_splitOn separator

end Separated
