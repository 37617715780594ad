import Mathlib.Data.List.Basic

/-! Machines that answer every element they are given: with nothing, with a result or with an
error, which ends them. Unlike those of `Incremental` they go on after a result. -/
namespace Answering
variable {σ τ β α γ ε : Type*}

inductive Reaction (α ε : Type*) where
  | nothing
  | returns (result : α)
  | throws (error : ε)
deriving DecidableEq

/-- The answers up to the first error. -/
def reactions (step : σ → β → Except ε (σ × Option α)) : σ → List β → List (Reaction α ε)
  | _, [] => []
  | s, b :: bs =>
    match step s b with
    | .error e => [.throws e]
    | .ok (s', none) => .nothing :: reactions step s' bs
    | .ok (s', some a) => .returns a :: reactions step s' bs

/-- The state behind the elements, unless there was an error. -/
def after (step : σ → β → Except ε (σ × Option α)) : σ → List β → Option σ
  | s, [] => some s
  | s, b :: bs =>
    match step s b with
    | .error _ => none
    | .ok (s', _) => after step s' bs

variable {step : σ → β → Except ε (σ × Option α)}

/-- The elements are answered with nothing. -/
inductive Silent (step : σ → β → Except ε (σ × Option α)) : σ → List β → σ → Prop
  | nil (s : σ) : Silent step s [] s
  | cons {s t u : σ} {b : β} {bs : List β} (head : step s b = .ok (t, none))
      (tail : Silent step t bs u) : Silent step s (b :: bs) u

theorem Silent.append {s t u : σ} {bs cs : List β} (h : Silent step s bs t)
    (h' : Silent step t cs u) : Silent step s (bs ++ cs) u := by
  induction h with
  | nil => exact h'
  | cons head tail ih => exact .cons head (ih h')

theorem Silent.snoc {s t u : σ} {bs : List β} {b : β} (h : Silent step s bs t)
    (h' : step t b = .ok (u, none)) : Silent step s (bs ++ [b]) u :=
  h.append (.cons h' (.nil u))

theorem Silent.reactions {s t : σ} {bs : List β} (h : Silent step s bs t) (more : List β) :
    Answering.reactions step s (bs ++ more) =
      List.replicate bs.length .nothing ++ Answering.reactions step t more := by
  induction h with
  | nil => rfl
  | cons head tail ih =>
    rw [List.cons_append, Answering.reactions, head]
    exact congrArg (Reaction.nothing :: ·) ih

theorem Silent.after {s t : σ} {bs : List β} (h : Silent step s bs t) (more : List β) :
    Answering.after step s (bs ++ more) = Answering.after step t more := by
  induction h with
  | nil => rfl
  | cons head tail ih => rwa [List.cons_append, Answering.after, head]

/-- The last element, and no other, is answered with the result. -/
def Completes (step : σ → β → Except ε (σ × Option α)) (s : σ) (bs : List β) (a : α) (s' : σ) :
    Prop :=
  ∃ front last t, bs = front ++ [last] ∧ Silent step s front t ∧ step t last = .ok (s', some a)

theorem Completes.reactions {s t : σ} {bs : List β} {a : α} (h : Completes step s bs a t)
    (more : List β) :
    Answering.reactions step s (bs ++ more) =
      List.replicate (bs.length - 1) .nothing ++ .returns a :: Answering.reactions step t more := by
  obtain ⟨front, last, u, rfl, hfront, hlast⟩ := h
  rw [List.append_assoc, hfront.reactions, List.length_append, List.length_singleton,
    Nat.add_sub_cancel, List.singleton_append, Answering.reactions, hlast]

theorem Completes.after {s t : σ} {bs : List β} {a : α} (h : Completes step s bs a t)
    (more : List β) :
    Answering.after step s (bs ++ more) = Answering.after step t more := by
  obtain ⟨front, last, u, rfl, hfront, hlast⟩ := h
  rw [List.append_assoc, hfront.after, List.singleton_append, Answering.after, hlast]

theorem Silent.completes {s t u : σ} {bs cs : List β} {a : α} (h : Silent step s bs t)
    (h' : Completes step t cs a u) : Completes step s (bs ++ cs) a u := by
  obtain ⟨front, last, v, rfl, hfront, hlast⟩ := h'
  exact ⟨bs ++ front, last, v, (List.append_assoc _ _ _).symm, h.append hfront, hlast⟩

theorem Completes.ne_nil {s t : σ} {bs : List β} {a : α} (h : Completes step s bs a t) :
    bs ≠ [] := by
  obtain ⟨front, last, u, rfl, -, -⟩ := h
  exact List.append_ne_nil_of_right_ne_nil _ (List.cons_ne_nil _ _)

/-- The first element is the last one, or is answered with nothing. -/
theorem Completes.cases {s t : σ} {b : β} {bs : List β} {a : α}
    (h : Completes step s (b :: bs) a t) :
    bs = [] ∧ step s b = .ok (t, some a) ∨
      ∃ u, step s b = .ok (u, none) ∧ Completes step u bs a t := by
  obtain ⟨front, last, v, heq, hfront, hlast⟩ := h
  cases hfront with
  | nil =>
    obtain ⟨rfl, rfl⟩ := List.cons.inj heq
    exact .inl ⟨rfl, hlast⟩
  | cons head tail =>
    obtain ⟨rfl, rfl⟩ := List.cons.inj heq
    exact .inr ⟨_, head, _, last, v, rfl, tail, hlast⟩

/-- None of the elements is answered with a result. -/
def Mute (step : σ → β → Except ε (σ × Option α)) (s : σ) (bs : List β) : Prop :=
  ∀ a, .returns a ∉ Answering.reactions step s bs

theorem Mute.nil (s : σ) : Mute step s [] := fun _ => List.not_mem_nil

theorem Mute.error {s : σ} {b : β} {bs : List β} {e : ε} (h : step s b = .error e) :
    Mute step s (b :: bs) := by
  intro a ha
  rw [Answering.reactions, h] at ha
  cases List.mem_singleton.mp ha

theorem Silent.mute {s t : σ} {bs more : List β} (h : Silent step s bs t)
    (h' : Mute step t more) : Mute step s (bs ++ more) := by
  intro a ha
  rw [h.reactions, List.mem_append] at ha
  rcases ha with hfront | hrest
  · cases List.eq_of_mem_replicate hfront
  · exact h' a hrest

theorem mute_cons {s t : σ} {b : β} {bs : List β} (h : step s b = .ok (t, none)) :
    Mute step s (b :: bs) ↔ Mute step t bs := by
  unfold Mute
  rw [Answering.reactions, h]
  simp

theorem Mute.not_returns {s t : σ} {b : β} {bs : List β} {a : α} (h : Mute step s (b :: bs)) :
    step s b ≠ .ok (t, some a) := by
  intro heq
  refine h a ?_
  rw [Answering.reactions, heq]
  exact List.mem_cons_self

/-! A machine that hands its elements on to another one. -/

section
variable {step' : τ → β → Except ε (τ × Option γ)}

theorem Silent.map {f : σ → τ}
    (hsilent : ∀ s b t, step s b = .ok (t, none) → step' (f s) b = .ok (f t, none))
    {s t : σ} {bs : List β} (h : Silent step s bs t) : Silent step' (f s) bs (f t) := by
  induction h with
  | nil => exact .nil _
  | cons head tail ih => exact .cons (hsilent _ _ _ head) ih

theorem Mute.map {f : σ → τ}
    (hsilent : ∀ s b t, step s b = .ok (t, none) → step' (f s) b = .ok (f t, none))
    (herror : ∀ s b e, step s b = .error e → step' (f s) b = .error e)
    {s : σ} {bs : List β} (h : Mute step s bs) : Mute step' (f s) bs := by
  induction bs generalizing s with
  | nil => exact .nil _
  | cons b bs ih =>
    cases hstep : step s b with
    | error e => exact .error (herror s b e hstep)
    | ok answer =>
      obtain ⟨t, _ | a⟩ := answer
      · exact (mute_cons (hsilent s b t hstep)).mpr (ih ((mute_cons hstep).mp h))
      · exact (h.not_returns hstep).elim

theorem Completes.map_silent {f : σ → τ} {u : τ}
    (hsilent : ∀ s b t, step s b = .ok (t, none) → step' (f s) b = .ok (f t, none))
    {s t : σ} {bs : List β} {a : α} (h : Completes step s bs a t)
    (hlast : ∀ s b t, step s b = .ok (t, some a) → step' (f s) b = .ok (u, none)) :
    Silent step' (f s) bs u := by
  obtain ⟨front, last, v, rfl, hfront, hreturn⟩ := h
  exact (hfront.map hsilent).snoc (hlast v last t hreturn)

theorem Completes.map {f : σ → τ} {u : τ} {c : γ}
    (hsilent : ∀ s b t, step s b = .ok (t, none) → step' (f s) b = .ok (f t, none))
    {s t : σ} {bs : List β} {a : α} (h : Completes step s bs a t)
    (hlast : ∀ s b t, step s b = .ok (t, some a) → step' (f s) b = .ok (u, some c)) :
    Completes step' (f s) bs c u := by
  obtain ⟨front, last, v, rfl, hfront, hreturn⟩ := h
  exact ⟨front, last, f v, rfl, hfront.map hsilent, hlast v last t hreturn⟩

/-- The elements are answered with the result under the condition, and otherwise nothing ever is. -/
structure Decides (step : σ → β → Except ε (σ × Option α)) (s : σ) (bs : List β)
    (condition : Prop) (a : α) (t : σ) : Prop where
  completes : condition → Completes step s bs a t
  mute : ¬ condition → ∀ more, Mute step s (bs ++ more)

theorem Silent.decides {s t u : σ} {bs cs : List β} {p : Prop} {a : α} (h : Silent step s bs t)
    (h' : Decides step t cs p a u) : Decides step s (bs ++ cs) p a u where
  completes hp := h.completes (h'.completes hp)
  mute hp more := by
    rw [List.append_assoc]
    exact h.mute (h'.mute hp more)

section
variable {f : σ → τ} {s t : σ} {u w : τ} {bs cs : List β} {p q : Prop} {a : α} {c : γ}

theorem Decides.map (h : Decides step s bs p a t)
    (hsilent : ∀ s b t, step s b = .ok (t, none) → step' (f s) b = .ok (f t, none))
    (herror : ∀ s b e, step s b = .error e → step' (f s) b = .error e)
    (hlast : ∀ s b t, step s b = .ok (t, some a) → step' (f s) b = .ok (u, some c)) :
    Decides step' (f s) bs p c u where
  completes hp := (h.completes hp).map hsilent hlast
  mute hp more := (h.mute hp more).map hsilent herror

theorem Decides.seq (h : Decides step s bs p a t)
    (hsilent : ∀ s b t, step s b = .ok (t, none) → step' (f s) b = .ok (f t, none))
    (herror : ∀ s b e, step s b = .error e → step' (f s) b = .error e)
    (hlast : ∀ s b t, step s b = .ok (t, some a) → step' (f s) b = .ok (u, none))
    (h' : Decides step' u cs q c w) : Decides step' (f s) (bs ++ cs) (p ∧ q) c w where
  completes hpq := ((h.completes hpq.1).map_silent hsilent hlast).completes (h'.completes hpq.2)
  mute hpq more := by
    rw [List.append_assoc]
    by_cases hp : p
    · exact ((h.completes hp).map_silent hsilent hlast).mute
        (h'.mute (fun hq => hpq ⟨hp, hq⟩) more)
    · exact (h.mute hp _).map hsilent herror

end

end

end Answering
