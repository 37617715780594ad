import Mathlib.Data.List.Basic

/-! Machines that read a stream one element at a time, and what they read from a
whole stretch of it. Nothing here depends on what the elements or the results are. -/
namespace Incremental
variable {σ τ β α γ δ ε ζ : Type*}

/-- The answer to one element. An element that was not `consumed` is handed back. -/
inductive Step (σ α ε : Type*) where
  | complete (result : α) (consumed : Bool)
  | more (state : σ)
  | fail (error : ε)

/-- What became of a machine that was shown a whole list. -/
inductive Reading (σ β α ε : Type*) where
  | complete (result : α) (rest : List β)
  | more (state : σ)
  | fail (error : ε)

def read (step : σ → β → Step σ α ε) : σ → List β → Reading σ β α ε
  | s, [] => .more s
  | s, b :: bs =>
    match step s b with
    | .complete a true => .complete a bs
    | .complete a false => .complete a (b :: bs)
    | .more s' => read step s' bs
    | .fail e => .fail e

/-- Show a machine that may have stopped already some more elements. -/
def Reading.resume (step : σ → β → Step σ α ε) : Reading σ β α ε → List β → Reading σ β α ε
  | .complete a rest, bs => .complete a (rest ++ bs)
  | .more s, bs => read step s bs
  | .fail e, _ => .fail e

theorem read_append (step : σ → β → Step σ α ε) (s : σ) (xs ys : List β) :
    read step s (xs ++ ys) = (read step s xs).resume step ys := by
  induction xs generalizing s with
  | nil => rfl
  | cons b bs ih =>
    simp only [List.cons_append, read]
    cases step s b with
    | complete a consumed => cases consumed <;> rfl
    | more s' => exact ih s'
    | fail e => rfl

/-- What is left when the reader completes is the end of what it was given. -/
theorem read_suffix {step : σ → β → Step σ α ε} {s : σ} {xs rest : List β} {a : α}
    (h : read step s xs = .complete a rest) : rest <:+ xs := by
  induction xs generalizing s with
  | nil => cases h
  | cons b xs ih =>
    simp only [read] at h
    cases hb : step s b with
    | complete v consumed =>
      cases consumed <;> simp only [hb, Reading.complete.injEq] at h
      · exact h.2 ▸ List.suffix_refl _
      · exact h.2 ▸ List.suffix_cons b xs
    | more s' =>
      rw [hb] at h
      exact (ih h).trans (List.suffix_cons b xs)
    | fail e => rw [hb] at h; cases h

theorem read_append_of_more {step : σ → β → Step σ α ε} {s s' : σ} {xs : List β}
    (h : read step s xs = .more s') (ys : List β) :
    read step s (xs ++ ys) = read step s' ys := by
  rw [read_append, h]
  rfl

/-- From the states of `P` the machine only ever stops on an element it consumes. -/
def Exact (step : σ → β → Step σ α ε) (P : σ → Prop) : Prop :=
  ∀ s b, P s → match step s b with
    | .complete _ consumed => consumed = true
    | .more s' => P s'
    | .fail _ => True

theorem Exact.complete {step : σ → β → Step σ α ε} {P : σ → Prop} (h : Exact step P)
    {s : σ} {b : β} {a : α} {c : Bool} (hs : P s) (hb : step s b = .complete a c) : c = true := by
  have := h s b hs
  rwa [hb] at this

theorem Exact.more {step : σ → β → Step σ α ε} {P : σ → Prop} (h : Exact step P)
    {s s' : σ} {b : β} (hs : P s) (hb : step s b = .more s') : P s' := by
  have := h s b hs
  rwa [hb] at this

/-- A completed reading stopped on one element: every earlier one asked for more,
and this one was consumed. -/
theorem Exact.read_complete {step : σ → β → Step σ α ε} {P : σ → Prop} (h : Exact step P)
    {s : σ} {bs rest : List β} {a : α} (hs : P s) (hr : read step s bs = .complete a rest) :
    ∃ before last s', bs = before ++ last :: rest ∧ read step s before = .more s' ∧
      step s' last = .complete a true := by
  induction bs generalizing s with
  | nil => cases hr
  | cons b bs ih =>
    rw [read] at hr
    cases hb : step s b with
    | complete a' c =>
      have hc := h.complete hs hb
      subst hc
      simp only [hb, Reading.complete.injEq] at hr
      obtain ⟨rfl, rfl⟩ := hr
      exact ⟨[], b, s, rfl, rfl, hb⟩
    | more t =>
      rw [hb] at hr
      obtain ⟨before, last, s', rfl, hmore, hlast⟩ := ih (h.more hs hb) hr
      exact ⟨b :: before, last, s', rfl, by simpa [read, hb] using hmore, hlast⟩
    | fail e => simp [hb] at hr

/-! What a composed machine does once its current part has completed. -/

inductive Next (τ γ ε : Type*) where
  | done (result : γ)
  | go (state : τ)
  | fail (error : ε)

def Next.toStep : Next τ γ ε → Step τ γ ε
  | .done c => .complete c true
  | .go t => .more t
  | .fail e => .fail e

def Next.read (step : τ → β → Step τ γ ε) : Next τ γ ε → List β → Reading τ β γ ε
  | .done c, rest => .complete c rest
  | .go t, rest => Incremental.read step t rest
  | .fail e, _ => .fail e

/-- A machine that runs another one inside `wrap` and goes on with `k` reads what the
inner one reads, and then what `k` reads. -/
theorem read_wrap {step : σ → β → Step σ α ε} {step' : τ → β → Step τ γ ε}
    {P : σ → Prop} (hP : Exact step P) (wrap : σ → τ) (k : α → Next τ γ ε)
    (h : ∀ s b, P s → step' (wrap s) b = match step s b with
      | .complete a _ => (k a).toStep
      | .more s' => .more (wrap s')
      | .fail e => .fail e)
    {s : σ} (hs : P s) (bs : List β) :
    read step' (wrap s) bs = match read step s bs with
      | .complete a rest => (k a).read step' rest
      | .more s' => .more (wrap s')
      | .fail e => .fail e := by
  induction bs generalizing s with
  | nil => rfl
  | cons b bs ih =>
    rw [read, read, h s b hs]
    cases hb : step s b with
    | complete a c =>
      have hc := hP.complete hs hb
      subst hc
      cases hk : k a <;> simp only [hk, Next.toStep, Next.read]
    | more s' => exact ih (hP.more hs hb)
    | fail e => rfl

/-! Readings with the state of an unfinished machine forgotten. -/

def Reading.forget : Reading σ β α ε → Reading Unit β α ε
  | .complete a rest => .complete a rest
  | .more _ => .more ()
  | .fail e => .fail e

def Reading.bind (r : Reading Unit β α ε) (f : α → List β → Reading Unit β γ ε) :
    Reading Unit β γ ε :=
  match r with
  | .complete a rest => f a rest
  | .more _ => .more ()
  | .fail e => .fail e

def Reading.map (f : α → γ) (r : Reading Unit β α ε) : Reading Unit β γ ε :=
  r.bind fun a rest => .complete (f a) rest

@[simp] theorem Reading.forget_complete (a : α) (rest : List β) :
    (Reading.complete a rest : Reading σ β α ε).forget = .complete a rest := rfl
@[simp] theorem Reading.forget_more (s : σ) :
    (Reading.more s : Reading σ β α ε).forget = .more () := rfl
@[simp] theorem Reading.forget_fail (e : ε) :
    (Reading.fail e : Reading σ β α ε).forget = .fail e := rfl
@[simp] theorem Reading.bind_complete (a : α) (rest : List β)
    (f : α → List β → Reading Unit β γ ε) : (Reading.complete a rest).bind f = f a rest := rfl
@[simp] theorem Reading.bind_more (f : α → List β → Reading Unit β γ ε) :
    (Reading.more ()).bind f = .more () := rfl
@[simp] theorem Reading.bind_fail (e : ε) (f : α → List β → Reading Unit β γ ε) :
    (Reading.fail e).bind f = .fail e := rfl

theorem Reading.bind_assoc (r : Reading Unit β α ε) (f : α → List β → Reading Unit β γ ε)
    (g : γ → List β → Reading Unit β δ ε) :
    (r.bind f).bind g = r.bind fun a rest => (f a rest).bind g := by
  cases r <;> rfl

theorem Reading.forget_eq_complete {r : Reading σ β α ε} {a : α} {rest : List β} :
    r.forget = .complete a rest ↔ r = .complete a rest := by
  cases r <;> simp [Reading.forget]

theorem forget_read_wrap {step : σ → β → Step σ α ε} (step' : τ → β → Step τ γ ε)
    {P : σ → Prop} (hP : Exact step P) (wrap : σ → τ) (k : α → Next τ γ ε)
    (h : ∀ s b, P s → step' (wrap s) b = match step s b with
      | .complete a _ => (k a).toStep
      | .more s' => .more (wrap s')
      | .fail e => .fail e)
    {s : σ} (hs : P s) (bs : List β) :
    (read step' (wrap s) bs).forget =
      (read step s bs).forget.bind fun a rest => ((k a).read step' rest).forget := by
  rw [read_wrap hP wrap k h hs]
  cases read step s bs <;> rfl

/-- Two readings that stop at the same place for the same reason, with results in `R`. -/
def Reading.Agree (R : α → γ → List β → Prop) :
    Reading Unit β α ε → Reading Unit β γ ε → Prop
  | .complete a rest, .complete c rest' => rest = rest' ∧ R a c rest
  | .more _, .more _ => True
  | .fail e, .fail e' => e = e'
  | _, _ => False

theorem Reading.Agree.bind {R : α → γ → List β → Prop} {S : δ → ζ → List β → Prop}
    {r : Reading Unit β α ε} {r' : Reading Unit β γ ε}
    {f : α → List β → Reading Unit β δ ε} {g : γ → List β → Reading Unit β ζ ε}
    (h : r.Agree R r') (hfg : ∀ a c rest, R a c rest → (f a rest).Agree S (g c rest)) :
    (r.bind f).Agree S (r'.bind g) := by
  cases r <;> cases r' <;> try exact h.elim
  · obtain ⟨rfl, hR⟩ := h
    exact hfg _ _ _ hR
  · trivial
  · exact h

theorem Reading.Agree.map {R : α → γ → List β → Prop} {S : δ → ζ → List β → Prop}
    {r : Reading Unit β α ε} {r' : Reading Unit β γ ε} {f : α → δ} {g : γ → ζ}
    (h : r.Agree R r') (hfg : ∀ a c rest, R a c rest → S (f a) (g c) rest) :
    (r.map f).Agree S (r'.map g) :=
  h.bind fun a c rest hR => ⟨rfl, hfg a c rest hR⟩

theorem Reading.Agree.map_left {R : α → γ → List β → Prop} {S : δ → γ → List β → Prop}
    {r : Reading Unit β α ε} {r' : Reading Unit β γ ε} {f : α → δ}
    (h : r.Agree R r') (hf : ∀ a c rest, R a c rest → S (f a) c rest) :
    (r.map f).Agree S r' := by
  cases r <;> cases r' <;> try exact h.elim
  · exact ⟨h.1, hf _ _ _ h.2⟩
  · trivial
  · exact h

theorem Reading.Agree.map_right {R : α → γ → List β → Prop} {S : α → ζ → List β → Prop}
    {r : Reading Unit β α ε} {r' : Reading Unit β γ ε} {g : γ → ζ}
    (h : r.Agree R r') (hg : ∀ a c rest, R a c rest → S a (g c) rest) :
    r.Agree S (r'.map g) := by
  cases r <;> cases r' <;> try exact h.elim
  · exact ⟨h.1, hg _ _ _ h.2⟩
  · trivial
  · exact h

theorem Reading.Agree.mono {R S : α → γ → List β → Prop} {r : Reading Unit β α ε}
    {r' : Reading Unit β γ ε} (h : r.Agree R r') (hRS : ∀ a c rest, R a c rest → S a c rest) :
    r.Agree S r' := by
  cases r <;> cases r' <;> try exact h.elim
  · exact ⟨h.1, hRS _ _ _ h.2⟩
  · trivial
  · exact h

theorem Reading.Agree.of_complete {R : α → γ → List β → Prop}
    {r : Reading Unit β α ε} {r' : Reading Unit β γ ε} (h : r.Agree R r') {a : α}
    {rest : List β} (hr : r = .complete a rest) :
    ∃ c, r' = .complete c rest ∧ R a c rest := by
  subst hr
  cases r' with
  | complete c rest' =>
    obtain ⟨rfl, hR⟩ := h
    exact ⟨c, rfl, hR⟩
  | more | fail => exact h.elim

theorem Reading.Agree.complete_of {R : α → γ → List β → Prop}
    {r : Reading Unit β α ε} {r' : Reading Unit β γ ε} (h : r.Agree R r') {c : γ}
    {rest : List β} (hr : r' = .complete c rest) :
    ∃ a, r = .complete a rest ∧ R a c rest := by
  subst hr
  cases r with
  | complete a rest' =>
    obtain ⟨rfl, hR⟩ := h
    exact ⟨a, rfl, hR⟩
  | more | fail => exact h.elim

/-- A reader applied a number of times, its results collected. -/
def many (f : List β → Reading Unit β α ε) : Nat → List β → Reading Unit β (List α) ε
  | 0, bs => .complete [] bs
  | n+1, bs => (f bs).bind fun a rest => (many f n rest).map (a :: ·)

/-! Runs that end with a result, whether or not the last element was consumed. -/

inductive Stops (step : σ → β → Step σ α ε) : σ → List β → α → Bool → Prop where
  | last {s : σ} {b : β} {a : α} {consumed : Bool} (h : step s b = .complete a consumed) :
    Stops step s [b] a consumed
  | more {s s' : σ} {b : β} {bs : List β} {a : α} {consumed : Bool}
    (h : step s b = .more s') (hs : Stops step s' bs a consumed) :
    Stops step s (b :: bs) a consumed

theorem Stops.read {step : σ → β → Step σ α ε} {s : σ} {bs : List β} {a : α}
    (h : Stops step s bs a true) (rest : List β) :
    Incremental.read step s (bs ++ rest) = .complete a rest := by
  generalize hc : true = consumed at h
  induction h with
  | last h =>
    subst hc
    simp [Incremental.read, h]
  | more h _ ih => simpa [Incremental.read, h] using ih hc

theorem stops_of_read {step : σ → β → Step σ α ε} {s : σ} {bs : List β} {a : α}
    (h : read step s bs = .complete a []) : Stops step s bs a true := by
  induction bs generalizing s with
  | nil => cases h
  | cons b bs ih =>
    rw [read] at h
    cases hb : step s b with
    | complete a' consumed =>
      -- a byte that is handed back would be left over
      cases consumed <;> simp only [hb, Reading.complete.injEq, reduceCtorEq, and_false] at h
      obtain ⟨rfl, rfl⟩ := h
      exact .last hb
    | more s' =>
      rw [hb] at h
      exact .more hb (ih h)
    | fail e => simp [hb] at h

theorem Exact.stops {step : σ → β → Step σ α ε} {P : σ → Prop} (h : Exact step P)
    {s : σ} {bs : List β} {a : α} {consumed : Bool} (hs : P s)
    (hstops : Stops step s bs a consumed) : consumed = true := by
  induction hstops with
  | last hb => exact h.complete hs hb
  | more hb _ ih => exact ih (h.more hs hb)

/-- A machine that runs another one inside `wrap` and answers its result with `k`. -/
def Wraps (step : σ → β → Step σ α ε) (step' : τ → β → Step τ γ ε) (wrap : σ → τ)
    (k : α → Bool → Step τ γ ε) : Prop :=
  ∀ s b, step' (wrap s) b = match step s b with
    | .complete a consumed => k a consumed
    | .more s' => .more (wrap s')
    | .fail e => .fail e

theorem Stops.wrap {step : σ → β → Step σ α ε} {step' : τ → β → Step τ γ ε} {wrap : σ → τ}
    {k : α → Bool → Step τ γ ε} (hwrap : Wraps step step' wrap k) {s : σ} {bs : List β}
    {a : α} {c c' : Bool} {r : γ} (h : Stops step s bs a c) (hk : k a c = .complete r c') :
    Stops step' (wrap s) bs r c' := by
  induction h with
  | last h => exact .last (by rw [hwrap, h]; exact hk)
  | more h _ ih => exact .more (by rw [hwrap, h]) (ih hk)

theorem Stops.wrap_more {step : σ → β → Step σ α ε} {step' : τ → β → Step τ γ ε}
    {wrap : σ → τ} {k : α → Bool → Step τ γ ε} (hwrap : Wraps step step' wrap k) {s : σ}
    {xs ys : List β} {a : α} {c c' : Bool} {r : γ} {t : τ} (h : Stops step s xs a c)
    (hk : k a c = .more t) (ht : Stops step' t ys r c') :
    Stops step' (wrap s) (xs ++ ys) r c' := by
  induction h with
  | last h => exact .more (by rw [hwrap, h]; exact hk) ht
  | more h _ ih => exact .more (by rw [hwrap, h]) (ih hk)

/-- The inner machine stops first, and every element it was shown is gone. -/
theorem Stops.of_wrap {step : σ → β → Step σ α ε} {step' : τ → β → Step τ γ ε}
    {wrap : σ → τ} {k : α → Bool → Step τ γ ε} (hwrap : Wraps step step' wrap k) {s : σ}
    {bs : List β} {r : γ} {c' : Bool} (h : Stops step' (wrap s) bs r c') :
    ∃ xs a c, Stops step s xs a c ∧
      (k a c = .complete r c' ∧ bs = xs ∨
        ∃ t ys, k a c = .more t ∧ bs = xs ++ ys ∧ Stops step' t ys r c') := by
  generalize ht : wrap s = t at h
  induction h generalizing s with
  | @last t b a consumed h =>
    rw [← ht, hwrap] at h
    cases hb : step s b with
    | complete a c => exact ⟨[b], a, c, .last hb, .inl ⟨by simpa only [hb] using h, rfl⟩⟩
    | more s' => simp [hb] at h
    | fail e => simp [hb] at h
  | @more t t' b bs a consumed h hstops ih =>
    rw [← ht, hwrap] at h
    cases hb : step s b with
    | complete a c =>
      exact ⟨[b], a, c, .last hb, .inr ⟨t', bs, by simpa only [hb] using h, rfl, hstops⟩⟩
    | more s' =>
      simp only [hb, Step.more.injEq] at h
      obtain ⟨xs, a, c, hxs, hrest⟩ := ih h
      refine ⟨b :: xs, a, c, .more hb hxs, ?_⟩
      obtain ⟨hk, rfl⟩ | ⟨u, ys, hk, rfl, hys⟩ := hrest
      · exact .inl ⟨hk, rfl⟩
      · exact .inr ⟨u, ys, hk, rfl, hys⟩
    | fail e => simp [hb] at h

end Incremental
