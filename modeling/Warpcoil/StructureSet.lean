import Mathlib.Tactic.Linarith
import Warpcoil.DefinitionOrder

/-! The set in which the generator of the shared code keeps the generated structures, as the
search tree that `std::set` is. The order of the types is a strict total order, so that the tree
finds what was inserted and nothing else. -/
namespace Warpcoil
namespace SharedCode
open Writing

/-- The type of `m_generated_structures`. -/
abbrev StructureSet := Std.TreeSet Structure (threeWay lessStructure)

instance : Std.TransCmp (threeWay lessStructure) := lessStructure_strictlyOrders.transCmp

/-- A set after insertions. -/
def StructureSet.insertAll (set : StructureSet) (inserted : List Structure) : StructureSet :=
  inserted.foldl Std.TreeSet.insert set

theorem contains_insertAll (inserted : List Structure) (set : StructureSet)
    (required : Structure) :
    (set.insertAll inserted).contains required = true ↔
      set.contains required = true ∨ required ∈ inserted := by
  induction inserted generalizing set with
  | nil => simp [StructureSet.insertAll]
  | cons first inserted ih =>
    have hfirst : threeWay lessStructure first required = .eq ↔ first = required :=
      lessStructure_strictlyOrders.threeWay_eq_iff
    have hstep := ih (set.insert first)
    rw [Std.TreeSet.contains_insert, Bool.or_eq_true, beq_iff_eq, hfirst] at hstep
    rw [List.mem_cons, StructureSet.insertAll, List.foldl_cons]
    refine hstep.trans ?_
    rw [eq_comm, or_comm (a := required = first), or_assoc]

/-- The state of the generator after insertions. -/
theorem mem_all_insert (inserted generated : List Structure) (required : Structure) :
    required ∈ (all (inserted.map insert) generated).2 ↔
      required ∈ generated ∨ required ∈ inserted := by
  induction inserted generalizing generated with
  | nil => simp [all, skip]
  | cons first inserted ih =>
    have hfirst : required ∈ (insert first generated).2 ↔
        required ∈ generated ∨ required = first := by
      by_cases hmem : first ∈ generated
      · have hfound : found generated first = true := found_iff.mpr hmem
        simp only [insert, hfound, if_true]
        exact ⟨.inl, fun h => h.elim id fun heq => heq ▸ hmem⟩
      · have hfound : found generated first = false :=
          Bool.eq_false_iff.mpr fun h => hmem (found_iff.mp h)
        simp [insert, hfound]
    rw [List.map_cons, List.mem_cons, ← or_assoc, ← hfirst]
    exact ih _

/-- What is found after calls of the generator. -/
theorem found_run (calls : List Call) (required : Structure) :
    found (run calls []).2 required = true ↔ required ∈ calls.flatMap Call.occurring := by
  have hdefines := run_defines calls []
  rw [found_iff]
  refine ⟨fun h => hdefines.only required ?_, fun h => (hdefines.complete nofun).2 required h⟩
  simpa using hdefines.perm.mem_iff.mp h

/-- `less` is a strict total order that takes for equal only what is equal, and so the set finds
a structure exactly where an equal one was inserted. -/
theorem less_strict_total :
    (∀ a : Ty, a.less a = false) ∧
    (∀ a b c : Ty, a.less b = true → b.less c = true → a.less c = true) ∧
    (∀ a b : Ty, a.less b = false ∧ b.less a = false ↔ a = b) ∧
    (∀ (inserted : List Structure) (required : Structure),
      ((StructureSet.insertAll ∅ inserted).contains required = true ↔ required ∈ inserted) ∧
      found (all (inserted.map insert) []).2 required =
        (StructureSet.insertAll ∅ inserted).contains required) ∧
    ∀ (calls : List Call) (required : Structure),
      found (run calls []).2 required = true ↔ required ∈ calls.flatMap Call.occurring := by
  refine ⟨fun a => (a.trichotomous a).irrefl, Ty.transits, fun a b => (a.trichotomous b).eq_iff,
    fun inserted required => ?_, found_run⟩
  have hset : (StructureSet.insertAll ∅ inserted).contains required = true ↔
      required ∈ inserted := by
    simpa using contains_insertAll inserted ∅ required
  refine ⟨hset, Bool.eq_iff_iff.mpr (Iff.trans ?_ hset.symm)⟩
  rw [found_iff, mem_all_insert]
  simp

end SharedCode
end Warpcoil
