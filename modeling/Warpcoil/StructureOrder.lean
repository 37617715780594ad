import Warpcoil.Library.Trichotomy
import Warpcoil.Types

/-! The comparison `less` of `types.hpp`, by which the generator keeps the structures it has
generated. It tells all types apart, and it is transitive. -/
namespace Warpcoil

/-- `types::structure`. -/
abbrev Structure := List (Ty × Identifier)

/-- The order of the alternatives of `types::type`. -/
def Ty.index : Ty → Nat
  | .integer _ => 0
  | .variant _ => 1
  | .tuple _ => 2
  | .vector _ _ => 3
  | .utf8 _ => 4
  | .struct _ => 5

def Integer.less (left right : Integer) : Bool :=
  decide (left.minimum < right.minimum) ||
    (!decide (right.minimum < left.minimum) && decide (left.maximum < right.maximum))

mutual
def Ty.less : Ty → Ty → Bool
  | .integer left, .integer right => left.less right
  | .variant left, .variant right => lessElements left right
  | .tuple left, .tuple right => lessElements left right
  | .vector length element, .vector length' element' =>
    length.less length' || (!length'.less length && element.less element')
  | .utf8 left, .utf8 right => left.less right
  | .struct left, .struct right => lessStructure left right
  | left, right => decide (left.index < right.index)
termination_by left right => sizeOf left + sizeOf right
/-- `std::lexicographical_compare` -/
def lessElements : List Ty → List Ty → Bool
  | _, [] => false
  | [], _::_ => true
  | t::ts, u::us => t.less u || (!u.less t && lessElements ts us)
termination_by left right => sizeOf left + sizeOf right
def lessStructure : Structure → Structure → Bool
  | _, [] => false
  | [], _::_ => true
  | (t, name)::ts, (u, name')::us =>
    (t.less u || (!u.less t && decide (name < name'))) ||
      (!(u.less t || (!t.less u && decide (name' < name))) && lessStructure ts us)
termination_by left right => sizeOf left + sizeOf right
end

/-- The comparison of two fields in `lessStructure`. -/
def lessField (left right : Ty × Identifier) : Bool :=
  left.1.less right.1 || (!right.1.less left.1 && decide (left.2 < right.2))

theorem Integer.trichotomous (left right : Integer) :
    Trichotomous Integer.less left right := by
  obtain ⟨minimum, maximum⟩ := left
  obtain ⟨minimum', maximum'⟩ := right
  exact .lex (f := Integer.mk) (by simp) (fun _ _ _ _ => rfl)
    (.ofLT minimum minimum') (.ofLT maximum maximum')

theorem Identifier.trichotomous (left right : Identifier) :
    Trichotomous (fun a b : Identifier => decide (a < b)) left right :=
  .ofLT left right

/-- Types of different alternatives. -/
theorem trichotomous_index {left right : Ty} (hne : left.index ≠ right.index)
    (hless : left.less right = decide (left.index < right.index))
    (hless' : right.less left = decide (right.index < left.index)) :
    Trichotomous Ty.less left right := by
  have hdiffer : left ≠ right := fun heq => hne (congrArg Ty.index heq)
  rcases Nat.lt_or_gt_of_ne hne with h | h
  · exact .lt (hless.trans (decide_eq_true h))
      (hless'.trans (decide_eq_false (Nat.lt_asymm h))) hdiffer
  · exact .gt (hless.trans (decide_eq_false (Nat.lt_asymm h)))
      (hless'.trans (decide_eq_true h)) hdiffer

mutual
theorem Ty.trichotomous : ∀ left right : Ty, Trichotomous Ty.less left right
  | .integer left, right => by
    cases right with
    | integer right =>
      exact (left.trichotomous right).map (f := Ty.integer) (fun _ _ => Ty.integer.inj)
        fun _ _ => by rw [Ty.less]
    | _ => exact trichotomous_index (by simp [Ty.index]) (by simp [Ty.less]) (by simp [Ty.less])
  | .variant lefts, right => by
    cases right with
    | variant rights =>
      exact (elements_trichotomous lefts rights).map (f := Ty.variant) (fun _ _ => Ty.variant.inj)
        fun _ _ => by rw [Ty.less]
    | _ => exact trichotomous_index (by simp [Ty.index]) (by simp [Ty.less]) (by simp [Ty.less])
  | .tuple lefts, right => by
    cases right with
    | tuple rights =>
      exact (elements_trichotomous lefts rights).map (f := Ty.tuple) (fun _ _ => Ty.tuple.inj)
        fun _ _ => by rw [Ty.less]
    | _ => exact trichotomous_index (by simp [Ty.index]) (by simp [Ty.less]) (by simp [Ty.less])
  | .vector length left, right => by
    cases right with
    | vector length' right =>
      exact .lex (f := Ty.vector) (by simp) (fun _ _ _ _ => by rw [Ty.less])
        (length.trichotomous length') (left.trichotomous right)
    | _ => exact trichotomous_index (by simp [Ty.index]) (by simp [Ty.less]) (by simp [Ty.less])
  | .utf8 left, right => by
    cases right with
    | utf8 right =>
      exact (left.trichotomous right).map (f := Ty.utf8) (fun _ _ => Ty.utf8.inj)
        fun _ _ => by rw [Ty.less]
    | _ => exact trichotomous_index (by simp [Ty.index]) (by simp [Ty.less]) (by simp [Ty.less])
  | .struct lefts, right => by
    cases right with
    | struct rights =>
      exact (structure_trichotomous lefts rights).map (f := Ty.struct) (fun _ _ => Ty.struct.inj)
        fun _ _ => by rw [Ty.less]
    | _ => exact trichotomous_index (by simp [Ty.index]) (by simp [Ty.less]) (by simp [Ty.less])
theorem elements_trichotomous : ∀ lefts rights : List Ty, Trichotomous lessElements lefts rights
  | [], [] => .eq rfl (by simp [lessElements]) (by simp [lessElements])
  | [], _::_ => .lt (by simp [lessElements]) (by simp [lessElements]) nofun
  | _::_, [] => .gt (by simp [lessElements]) (by simp [lessElements]) nofun
  | t::ts, u::us =>
    .lex (f := List.cons) (by simp) (fun _ _ _ _ => by rw [lessElements]) (t.trichotomous u)
      (elements_trichotomous ts us)
/-- `less` of two structures. -/
theorem structure_trichotomous : ∀ lefts rights : Structure,
    Trichotomous lessStructure lefts rights
  | [], [] => .eq rfl (by simp [lessStructure]) (by simp [lessStructure])
  | [], _::_ => .lt (by simp [lessStructure]) (by simp [lessStructure]) nofun
  | _::_, [] => .gt (by simp [lessStructure]) (by simp [lessStructure]) nofun
  | (t, name)::ts, (u, name')::us => by
    have helement : Trichotomous lessField (t, name) (u, name') :=
      .lex (f := Prod.mk) (by simp) (fun _ _ _ _ => rfl) (t.trichotomous u)
        (name.trichotomous name')
    exact .lex (f := List.cons) (by simp) (fun _ _ _ _ => by rw [lessStructure]; rfl) helement
      (structure_trichotomous ts us)
end

theorem field_trichotomous (left right : Ty × Identifier) : Trichotomous lessField left right :=
  .lex (f := Prod.mk) (by simp) (fun _ _ _ _ => rfl) (left.1.trichotomous right.1)
    (left.2.trichotomous right.2)

theorem Integer.transits (a b c : Integer) : Transits Integer.less a b c :=
  .lex (f := Integer.mk) (.ofLT · ·) (fun _ _ _ _ => rfl)
    (.ofLT a.minimum b.minimum c.minimum) (.ofLT a.maximum b.maximum c.maximum)

theorem Ty.less_of_index {left right : Ty} (h : left.index < right.index) :
    left.less right = true := by
  cases left <;> cases right <;> simp [Ty.index] at h <;> simp [Ty.less, Ty.index]

theorem Ty.index_le_of_less {left right : Ty} (h : left.less right = true) :
    left.index ≤ right.index := by
  by_contra hlt
  have hback := Ty.less_of_index (Nat.lt_of_not_le hlt)
  cases Ty.trichotomous left right with
  | lt _ h' _ => exact Bool.noConfusion (h'.symm.trans hback)
  | eq _ h' _ => exact Bool.noConfusion (h'.symm.trans h)
  | gt h' _ _ => exact Bool.noConfusion (h'.symm.trans h)

/-- Only types of one alternative are left to compare. -/
theorem transits_index {a b c : Ty}
    (h : b.index = a.index → c.index = a.index → Transits Ty.less a b c) :
    Transits Ty.less a b c := by
  intro hab hbc
  have hle := Ty.index_le_of_less hab
  have hle' := Ty.index_le_of_less hbc
  by_cases hac : a.index < c.index
  · exact Ty.less_of_index hac
  · exact h (by omega) (by omega) hab hbc

mutual
theorem Ty.transits : ∀ a b c : Ty, Transits Ty.less a b c
  | .integer a, b, c => transits_index fun hb hc => by
    cases b with
    | integer b => cases c with
      | integer c => exact (a.transits b c).map fun _ _ => by rw [Ty.less]
      | _ => cases hc
    | _ => cases hb
  | .variant as, b, c => transits_index fun hb hc => by
    cases b with
    | variant bs => cases c with
      | variant cs => exact (elements_transit as bs cs).map fun _ _ => by rw [Ty.less]
      | _ => cases hc
    | _ => cases hb
  | .tuple as, b, c => transits_index fun hb hc => by
    cases b with
    | tuple bs => cases c with
      | tuple cs => exact (elements_transit as bs cs).map fun _ _ => by rw [Ty.less]
      | _ => cases hc
    | _ => cases hb
  | .vector length a, b, c => transits_index fun hb hc => by
    cases b with
    | vector length' b => cases c with
      | vector length'' c =>
        exact .lex (f := Ty.vector) Integer.trichotomous (fun _ _ _ _ => by rw [Ty.less])
          (length.transits length' length'') (a.transits b c)
      | _ => cases hc
    | _ => cases hb
  | .utf8 a, b, c => transits_index fun hb hc => by
    cases b with
    | utf8 b => cases c with
      | utf8 c => exact (a.transits b c).map fun _ _ => by rw [Ty.less]
      | _ => cases hc
    | _ => cases hb
  | .struct as, b, c => transits_index fun hb hc => by
    cases b with
    | struct bs => cases c with
      | struct cs => exact (structure_transits as bs cs).map fun _ _ => by rw [Ty.less]
      | _ => cases hc
    | _ => cases hb
theorem elements_transit : ∀ as bs cs : List Ty, Transits lessElements as bs cs
  | _, [], _ => fun h => by simp [lessElements] at h
  | _, _::_, [] => fun _ h => by simp [lessElements] at h
  | [], _::_, _::_ => fun _ _ => by rw [lessElements]
  | a::as, b::bs, c::cs =>
    .lex (f := List.cons) Ty.trichotomous (fun _ _ _ _ => by rw [lessElements])
      (a.transits b c) (elements_transit as bs cs)
theorem structure_transits : ∀ as bs cs : Structure, Transits lessStructure as bs cs
  | _, [], _ => fun h => by simp [lessStructure] at h
  | _, _::_, [] => fun _ h => by simp [lessStructure] at h
  | [], _::_, _::_ => fun _ _ => by rw [lessStructure]
  | (a, name)::as, (b, name')::bs, (c, name'')::cs =>
    have helement : Transits lessField (a, name) (b, name') (c, name'') :=
      .lex (f := Prod.mk) Ty.trichotomous (fun _ _ _ _ => rfl) (a.transits b c)
        (.ofLT name name' name'')
    .lex (f := List.cons) field_trichotomous (fun _ _ _ _ => by rw [lessStructure]; rfl)
      helement (structure_transits as bs cs)
end

theorem lessStructure_strictlyOrders : StrictlyOrders lessStructure :=
  ⟨structure_trichotomous, structure_transits⟩

end Warpcoil
