import Mathlib.Data.List.Basic

/-! Runs of a partial step function, the rule by which an invariant travels along them, and
machines that are a component of another one. -/
namespace Transition
variable {σ τ ε δ : Type*}

def run (step : σ → ε → Option σ) : σ → List ε → Option σ
  | s, [] => some s
  | s, e :: es => (step s e).bind fun s' => run step s' es

theorem run_cons {step : σ → ε → Option σ} {s s'' : σ} {e : ε} {es : List ε} :
    run step s (e :: es) = some s'' ↔
      ∃ s', step s e = some s' ∧ run step s' es = some s'' :=
  Option.bind_eq_some_iff

theorem run_append (step : σ → ε → Option σ) (s : σ) (es ds : List ε) :
    run step s (es ++ ds) = (run step s es).bind fun s' => run step s' ds := by
  induction es generalizing s with
  | nil => rfl
  | cons e es ih =>
    rw [List.cons_append, run, run, Option.bind_assoc]
    congr 1
    funext s'
    exact ih s'

def Reaches (step : σ → ε → Option σ) (s s' : σ) : Prop :=
  ∃ es, run step s es = some s'

theorem Reaches.refl (step : σ → ε → Option σ) (s : σ) : Reaches step s s :=
  ⟨[], rfl⟩

theorem Reaches.single {step : σ → ε → Option σ} {s s' : σ} {e : ε}
    (h : step s e = some s') : Reaches step s s' :=
  ⟨[e], run_cons.mpr ⟨s', h, rfl⟩⟩

theorem Reaches.trans {step : σ → ε → Option σ} {s t u : σ}
    (h : Reaches step s t) (h' : Reaches step t u) : Reaches step s u := by
  obtain ⟨es, hes⟩ := h
  obtain ⟨ds, hds⟩ := h'
  exact ⟨es ++ ds, by rw [run_append, hes, Option.bind_some, hds]⟩

/-- `P` holds after every step that is taken where it holds. -/
def Preserved (step : σ → ε → Option σ) (P : σ → Prop) : Prop :=
  ∀ s e s', P s → step s e = some s' → P s'

theorem Preserved.run {step : σ → ε → Option σ} {P : σ → Prop} (h : Preserved step P)
    {s s' : σ} {es : List ε} (hs : P s) (hr : run step s es = some s') : P s' := by
  induction es generalizing s with
  | nil => cases hr; exact hs
  | cons e es ih =>
    obtain ⟨t, ht, hrest⟩ := run_cons.mp hr
    exact ih (h s e t hs ht) hrest

theorem Preserved.reaches {step : σ → ε → Option σ} {P : σ → Prop} (h : Preserved step P)
    {s s' : σ} (hs : P s) (hr : Reaches step s s') : P s' := by
  obtain ⟨es, hes⟩ := hr
  exact h.run hs hes

theorem Preserved.and {step : σ → ε → Option σ} {P Q : σ → Prop} (hP : Preserved step P)
    (hQ : ∀ s e s', P s → Q s → step s e = some s' → Q s') :
    Preserved step fun s => P s ∧ Q s :=
  fun s e s' h hstep => ⟨hP s e s' h.1 hstep, hQ s e s' h.1 h.2 hstep⟩

/-- Every step of the run is taken where `C` allows it. -/
def Along (step : σ → ε → Option σ) (C : σ → ε → Prop) : σ → List ε → Prop
  | _, [] => True
  | s, e :: es => C s e ∧ ∀ s', step s e = some s' → Along step C s' es

theorem Along.mono {step : σ → ε → Option σ} {C D : σ → ε → Prop} (h : ∀ s e, C s e → D s e)
    {s : σ} {es : List ε} (hs : Along step C s es) : Along step D s es := by
  induction es generalizing s with
  | nil => trivial
  | cons e es ih => exact ⟨h s e hs.1, fun s' hs' => ih (hs.2 s' hs')⟩

theorem Along.and {step : σ → ε → Option σ} {C D : σ → ε → Prop} {s : σ} {es : List ε}
    (hC : Along step C s es) (hD : Along step D s es) :
    Along step (fun s e => C s e ∧ D s e) s es := by
  induction es generalizing s with
  | nil => trivial
  | cons e es ih =>
    exact ⟨⟨hC.1, hD.1⟩, fun s' hs' => ih (hC.2 s' hs') (hD.2 s' hs')⟩

theorem Along.append_iff {step : σ → ε → Option σ} {C : σ → ε → Prop} {s : σ} {es ds : List ε} :
    Along step C s (es ++ ds) ↔
      Along step C s es ∧ ∀ s', run step s es = some s' → Along step C s' ds := by
  induction es generalizing s with
  | nil => simp [Along, Transition.run]
  | cons e es ih =>
    simp only [List.cons_append, Along, ih, run_cons]
    constructor
    · rintro ⟨hfirst, hrest⟩
      refine ⟨⟨hfirst, fun t ht => (hrest t ht).1⟩, ?_⟩
      rintro s' ⟨t, ht, hs'⟩
      exact (hrest t ht).2 s' hs'
    · rintro ⟨⟨hfirst, hrest⟩, hlast⟩
      exact ⟨hfirst, fun t ht => ⟨hrest t ht, fun s' hs' => hlast s' ⟨t, ht, hs'⟩⟩⟩

/-- The rule for an invariant that only the allowed steps keep. -/
theorem Along.run {step : σ → ε → Option σ} {C : σ → ε → Prop} {P : σ → Prop}
    (h : ∀ s e s', P s → C s e → step s e = some s' → P s') {s s' : σ} {es : List ε}
    (hs : P s) (hall : Along step C s es) (hr : run step s es = some s') : P s' := by
  induction es generalizing s with
  | nil => cases hr; exact hs
  | cons e es ih =>
    obtain ⟨t, ht, hrest⟩ := run_cons.mp hr
    exact ih (h s e t hs hall.1 ht) (hall.2 t ht) hrest

/-- The rule for a mark that a step leaves which is not allowed, and that stays. -/
theorem Along.of_unmarked {step : σ → ε → Option σ} {C : σ → ε → Prop} {M : σ → Prop}
    (hmark : ∀ s e s', ¬C s e → step s e = some s' → M s') (hkeep : Preserved step M)
    {s s' : σ} {es : List ε} (hr : Transition.run step s es = some s') (h : ¬M s') :
    Along step C s es := by
  induction es generalizing s with
  | nil => trivial
  | cons e es ih =>
    obtain ⟨t, ht, hrest⟩ := run_cons.mp hr
    refine ⟨?_, fun t' ht' => ih (Option.some.inj (ht.symm.trans ht') ▸ hrest)⟩
    by_contra hnot
    exact h (hkeep.run (hmark s e t hnot ht) hrest)

/-- The same along a run of which an invariant is known: where a step is not allowed it leaves the
mark, and elsewhere it keeps the invariant. -/
theorem Along.of_unmarked_invariant {step : σ → ε → Option σ} {C D : σ → ε → Prop}
    {P M : σ → Prop}
    (h : ∀ s e s', P s → D s e → step s e = some s' → (C s e ∧ P s') ∨ M s')
    (hkeep : Preserved step M) {s s' : σ} {es : List ε} (hs : P s) (hall : Along step D s es)
    (hr : Transition.run step s es = some s') (hnot : ¬M s') : Along step C s es := by
  induction es generalizing s with
  | nil => trivial
  | cons e es ih =>
    obtain ⟨t, ht, hrest⟩ := run_cons.mp hr
    rcases h s e t hs hall.1 ht with ⟨hallowed, hnext⟩ | hmark
    · refine ⟨hallowed, fun t' ht' => ?_⟩
      obtain rfl := Option.some.inj (ht.symm.trans ht')
      exact ih hnext (hall.2 t ht) hrest
    · exact (hnot (hkeep.run hmark hrest)).elim

/-- On a given run the condition can be checked. -/
instance decidableAlong (step : σ → ε → Option σ) (C : σ → ε → Prop)
    [∀ s e, Decidable (C s e)] : ∀ s es, Decidable (Along step C s es)
  | _, [] => isTrue trivial
  | s, e :: es =>
    match h : step s e with
    | none => decidable_of_iff (C s e) (by simp [Along, h])
    | some s' =>
      have := decidableAlong step C s' es
      decidable_of_iff (C s e ∧ Along step C s' es) (by simp [Along, h])

/-- A step of the whole takes the component through some steps of its own. -/
def Component (step : σ → ε → Option σ) (step' : τ → δ → Option τ) (part : σ → τ) : Prop :=
  ∀ s e s', step s e = some s' → Reaches step' (part s) (part s')

theorem Component.reaches {step : σ → ε → Option σ} {step' : τ → δ → Option τ}
    {part : σ → τ} (h : Component step step' part) {s s' : σ} (hr : Reaches step s s') :
    Reaches step' (part s) (part s') := by
  obtain ⟨es, hes⟩ := hr
  have hpreserved : Preserved step fun t => Reaches step' (part s) (part t) :=
    fun t e t' ht hstep => ht.trans (h t e t' hstep)
  exact hpreserved.run (Reaches.refl _ _) hes

end Transition
