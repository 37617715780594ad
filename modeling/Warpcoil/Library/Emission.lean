import Mathlib.Data.List.Basic

/-! Statements that append to an output as they run and may leave early. What they
appended before leaving stays in the output. -/

structure Emission (β : Type*) where
  output : List β
  ok : Bool

namespace Emission
variable {β : Type*}

def done : Emission β := ⟨[], true⟩
def leave : Emission β := ⟨[], false⟩
def emit (output : List β) : Emission β := ⟨output, true⟩

/-- The second statement runs only if the first one reached its end. -/
def seq (a b : Emission β) : Emission β :=
  if a.ok then ⟨a.output ++ b.output, b.ok⟩ else a

def all : List (Emission β) → Emission β
  | [] => done
  | e :: es => e.seq (all es)

@[simp] theorem done_ok : (done : Emission β).ok = true := rfl
@[simp] theorem done_output : (done : Emission β).output = [] := rfl
@[simp] theorem leave_ok : (leave : Emission β).ok = false := rfl
@[simp] theorem emit_ok (output : List β) : (emit output).ok = true := rfl
@[simp] theorem emit_output (output : List β) : (emit output).output = output := rfl

@[simp] theorem seq_ok (a b : Emission β) : (a.seq b).ok = (a.ok && b.ok) := by
  cases h : a.ok <;> simp [seq, h]

theorem seq_output (a b : Emission β) (h : a.ok = true) :
    (a.seq b).output = a.output ++ b.output := by
  simp [seq, h]

theorem seq_assoc (a b c : Emission β) : (a.seq b).seq c = a.seq (b.seq c) := by
  cases ha : a.ok <;> cases hb : b.ok <;> simp [seq, ha, hb]

@[simp] theorem seq_done (a : Emission β) : a.seq done = a := by
  cases a with | mk output ok => cases ok <;> simp [seq, done]

@[simp] theorem done_seq (a : Emission β) : done.seq a = a := by
  cases a; simp [seq, done]

/-- What the first statement appended stays, whatever the second one does. -/
theorem output_prefix_seq (a b : Emission β) : a.output <+: (a.seq b).output := by
  cases h : a.ok <;> simp [seq, h]

theorem all_ok (es : List (Emission β)) : (all es).ok = true ↔ ∀ e ∈ es, e.ok = true := by
  induction es with
  | nil => simp [all]
  | cons e es ih => simp [all, ih]

theorem all_output (es : List (Emission β)) (h : ∀ e ∈ es, e.ok = true) :
    (all es).output = es.flatMap output := by
  induction es with
  | nil => rfl
  | cons e es ih =>
    rw [all, seq_output _ _ (h e (by simp)), ih (fun e' he' => h e' (by simp [he']))]
    rfl

end Emission
