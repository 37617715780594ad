import Mathlib.Data.List.Basic

/-! Statements that append to an output and change a state as they run, and the rules for what
they do from every state. -/

def Writing (σ ω : Type*) := σ → List ω × σ

namespace Writing
variable {σ ω : Type*}

def skip : Writing σ ω := fun s => ([], s)
def write (c : ω) : Writing σ ω := fun s => ([c], s)
def writeAll (cs : List ω) : Writing σ ω := fun s => (cs, s)

def seq (m n : Writing σ ω) : Writing σ ω := fun s =>
  ((m s).1 ++ (n (m s).2).1, (n (m s).2).2)

def all : List (Writing σ ω) → Writing σ ω
  | [] => skip
  | m::ms => m.seq (all ms)

/-- What the statements write becomes the content of one item. -/
def inside (wrap : List ω → ω) (m : Writing σ ω) : Writing σ ω := fun s =>
  ([wrap (m s).1], (m s).2)

/-- From every state the output and the next state are as the specification says. -/
def Does (m : Writing σ ω) (Spec : σ → List ω → σ → Prop) : Prop :=
  ∀ s, Spec s (m s).1 (m s).2

theorem Does.seq {m n : Writing σ ω} {First Second Both : σ → List ω → σ → Prop}
    (hm : m.Does First) (hn : n.Does Second)
    (hboth : ∀ s o t o' u, First s o t → Second t o' u → Both s (o ++ o') u) :
    (m.seq n).Does Both :=
  fun s => hboth _ _ _ _ _ (hm s) (hn (m s).2)

theorem Does.inside {m : Writing σ ω} {Content Whole : σ → List ω → σ → Prop} {wrap : List ω → ω}
    (hm : m.Does Content) (hwhole : ∀ s o t, Content s o t → Whole s [wrap o] t) :
    (m.inside wrap).Does Whole :=
  fun s => hwhole _ _ _ (hm s)

theorem Does.imp {m : Writing σ ω} {Spec Spec' : σ → List ω → σ → Prop}
    (hm : m.Does Spec) (himp : ∀ s o t, Spec s o t → Spec' s o t) : m.Does Spec' :=
  fun s => himp _ _ _ (hm s)

@[simp] theorem skip_seq (m : Writing σ ω) : skip.seq m = m := by
  funext s
  simp [seq, skip]

@[simp] theorem seq_skip (m : Writing σ ω) : m.seq skip = m := by
  funext s
  simp [seq, skip]

theorem seq_assoc (m n k : Writing σ ω) : (m.seq n).seq k = m.seq (n.seq k) := by
  funext s
  simp [seq]

theorem all_append (ms ns : List (Writing σ ω)) : all (ms ++ ns) = (all ms).seq (all ns) := by
  induction ms with
  | nil => simp [all]
  | cons m ms ih => rw [List.cons_append, all, all, ih, seq_assoc]

end Writing
