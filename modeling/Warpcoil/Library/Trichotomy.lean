import Mathlib.Data.List.Basic

/-! Comparison functions that tell two values apart, their lexicographic combination, and the
strict total orders among them. -/

/-- Of two values one is less, or they are equal. -/
inductive Trichotomous {α : Type*} (less : α → α → Bool) (a b : α) : Prop
  | lt (h : less a b = true) (h' : less b a = false) (hne : a ≠ b)
  | eq (heq : a = b) (h : less a b = false) (h' : less b a = false)
  | gt (h : less a b = false) (h' : less b a = true) (hne : a ≠ b)

namespace Trichotomous
variable {α β γ : Type*} {less : α → α → Bool} {less' : β → β → Bool} {a b : α} {c d : β}

theorem eq_iff (h : Trichotomous less a b) : less a b = false ∧ less b a = false ↔ a = b := by
  cases h with
  | lt h h' hne => simp [h, hne]
  | eq heq h h' => exact ⟨fun _ => heq, fun _ => ⟨h, h'⟩⟩
  | gt h h' hne => simp [h', hne]

theorem ofLT [LT α] [DecidableLT α] [Std.Asymm fun a b : α => a < b]
    [Std.Trichotomous fun a b : α => a < b] (a b : α) :
    Trichotomous (fun a b : α => decide (a < b)) a b := by
  by_cases h : a < b
  · have h' : ¬b < a := Std.Asymm.asymm (r := fun a b : α => a < b) a b h
    refine .lt (decide_eq_true h) (decide_eq_false h') fun heq => ?_
    subst heq
    exact h' h
  · by_cases h' : b < a
    · refine .gt (decide_eq_false h) (decide_eq_true h') fun heq => ?_
      subst heq
      exact h h'
    · exact .eq (Std.Trichotomous.trichotomous (r := fun a b : α => a < b) a b h h')
        (decide_eq_false h) (decide_eq_false h')

theorem irrefl (h : Trichotomous less a a) : less a a = false := (h.eq_iff.mpr rfl).1

/-- What decides after `less` does so where it finds the two equal. -/
theorem or_iff (h : Trichotomous less a b) (next : Bool) :
    (less a b || (!less b a && next)) = true ↔ less a b = true ∨ a = b ∧ next = true := by
  cases h with
  | lt h h' hne => simp [h]
  | eq heq h h' =>
    subst heq
    simp [h]
  | gt h h' hne => simp [h, h', hne]

/-- The second components decide where the first ones are equal. -/
theorem lex {f : α → β → γ} {lessBoth : γ → γ → Bool}
    (hinj : ∀ {a b : α} {c d : β}, f a c = f b d ↔ a = b ∧ c = d)
    (hless : ∀ (a b : α) (c d : β),
      lessBoth (f a c) (f b d) = (less a b || (!less b a && less' c d)))
    (h : Trichotomous less a b) (h' : Trichotomous less' c d) :
    Trichotomous lessBoth (f a c) (f b d) := by
  have hboth := hless a b c d
  have hback := hless b a d c
  cases h with
  | lt h1 h2 hne =>
    refine .lt ?_ ?_ fun heq => hne (hinj.mp heq).1
    · rw [hboth, h1]
      rfl
    · rw [hback, h1, h2]
      rfl
  | gt h1 h2 hne =>
    refine .gt ?_ ?_ fun heq => hne (hinj.mp heq).1
    · rw [hboth, h1, h2]
      rfl
    · rw [hback, h2]
      rfl
  | eq heq h1 h2 =>
    rw [h1, h2, Bool.false_or, Bool.not_false, Bool.true_and] at hboth hback
    cases h' with
    | lt h3 h4 hne => exact .lt (hboth.trans h3) (hback.trans h4) fun he => hne (hinj.mp he).2
    | eq heq' h3 h4 => exact .eq (hinj.mpr ⟨heq, heq'⟩) (hboth.trans h3) (hback.trans h4)
    | gt h3 h4 hne => exact .gt (hboth.trans h3) (hback.trans h4) fun he => hne (hinj.mp he).2

/-- A comparison of the images. -/
theorem map {f : α → β} (hinj : Function.Injective f)
    (hless : ∀ a b, less' (f a) (f b) = less a b) (h : Trichotomous less a b) :
    Trichotomous less' (f a) (f b) := by
  cases h with
  | lt h h' hne => exact .lt ((hless a b).trans h) ((hless b a).trans h') (hinj.ne hne)
  | eq heq h h' => exact .eq (congrArg f heq) ((hless a b).trans h) ((hless b a).trans h')
  | gt h h' hne => exact .gt ((hless a b).trans h) ((hless b a).trans h') (hinj.ne hne)

end Trichotomous

/-- From `a` over `b` to `c`. -/
def Transits {α : Type*} (less : α → α → Bool) (a b c : α) : Prop :=
  less a b = true → less b c = true → less a c = true

namespace Transits
variable {α β γ : Type*} {less : α → α → Bool} {less' : β → β → Bool} {a b c : α} {d e g : β}

theorem ofLT [LT α] [DecidableLT α] [IsTrans α fun a b : α => a < b] (a b c : α) :
    Transits (fun a b : α => decide (a < b)) a b c := fun h h' =>
  decide_eq_true (IsTrans.trans (r := fun a b : α => a < b) a b c (of_decide_eq_true h)
    (of_decide_eq_true h'))

theorem lex {f : α → β → γ} {lessBoth : γ → γ → Bool}
    (htri : ∀ a b, Trichotomous less a b)
    (hless : ∀ (a b : α) (d e : β),
      lessBoth (f a d) (f b e) = (less a b || (!less b a && less' d e)))
    (h : Transits less a b c) (h' : Transits less' d e g) :
    Transits lessBoth (f a d) (f b e) (f c g) := by
  intro hfirst hsecond
  rw [hless, (htri _ _).or_iff] at hfirst hsecond ⊢
  rcases hfirst with hab | ⟨hab, hde⟩
  · rcases hsecond with hbc | ⟨hbc, -⟩
    · exact .inl (h hab hbc)
    · exact .inl (hbc ▸ hab)
  · rcases hsecond with hbc | ⟨hbc, heg⟩
    · exact .inl (hab ▸ hbc)
    · exact .inr ⟨hab.trans hbc, h' hde heg⟩

theorem map {f : α → β} (hless : ∀ a b, less' (f a) (f b) = less a b) (h : Transits less a b c) :
    Transits less' (f a) (f b) (f c) := by
  intro hfirst hsecond
  rw [hless] at hfirst hsecond ⊢
  exact h hfirst hsecond

end Transits

/-- A strict total order. -/
structure StrictlyOrders {α : Type*} (less : α → α → Bool) : Prop where
  trichotomous : ∀ a b, Trichotomous less a b
  transits : ∀ a b c, Transits less a b c

/-- The three-way comparison by `less`. -/
def threeWay {α : Type*} (less : α → α → Bool) (a b : α) : Ordering :=
  if less a b then .lt else if less b a then .gt else .eq

namespace StrictlyOrders
variable {α : Type*} {less : α → α → Bool}

theorem threeWay_eq_iff (h : StrictlyOrders less) {a b : α} :
    threeWay less a b = .eq ↔ a = b := by
  rw [← (h.trichotomous a b).eq_iff, threeWay]
  cases less a b <;> cases less b a <;> simp

theorem threeWay_swap (h : StrictlyOrders less) {a b : α} :
    threeWay less a b = (threeWay less b a).swap := by
  rw [threeWay, threeWay]
  cases h.trichotomous a b with
  | lt h h' hne => simp [h, h']
  | eq heq h h' => simp [h, h']
  | gt h h' hne => simp [h, h']

theorem threeWay_isLE (h : StrictlyOrders less) {a b : α} :
    (threeWay less a b).isLE = true ↔ less a b = true ∨ a = b := by
  rw [threeWay]
  cases h.trichotomous a b with
  | lt h h' hne => simp [h]
  | eq heq h h' =>
    subst heq
    simp [h]
  | gt h h' hne => simp [h, h', hne]

theorem transCmp (h : StrictlyOrders less) : Std.TransCmp (threeWay less) where
  eq_swap := h.threeWay_swap
  isLE_trans := by
    intro a b c hab hbc
    rw [h.threeWay_isLE] at hab hbc ⊢
    rcases hab with hab | hab
    · rcases hbc with hbc | hbc
      · exact .inl (h.transits a b c hab hbc)
      · exact .inl (hbc ▸ hab)
    · exact hab ▸ hbc

end StrictlyOrders
