import Mathlib.Data.List.Flatten
import Warpcoil.Conservation

/-! What a message that is refused half-way leaves behind in the output. -/
namespace Warpcoil
open Transition

namespace BufferedWriter
variable {η : Type*}

@[simp] theorem sendBuffer_appended (w : BufferedWriter η) (handler : η) :
    (w.sendBuffer handler).appended = w.appended := by
  unfold sendBuffer
  dsimp only
  split <;> rfl

@[simp] theorem finishSend_appended (w : BufferedWriter η) (ec : ErrorCode) (queue : Nat)
    (handlers : List η) : (w.finishSend ec queue handlers).appended = w.appended := by
  unfold finishSend
  split_ifs <;> rfl

theorem proceed_appended {w v : BufferedWriter η} (h : w.proceed = some v) :
    v.appended = w.appended := by
  unfold proceed at h
  split at h <;> cases h <;> rfl

theorem written_appended {w v : BufferedWriter η} {index transferred : Nat} {ec : ErrorCode}
    (h : w.step (.written index transferred ec) = some v) : v.appended = w.appended := by
  simp only [step] at h
  split at h
  · split_ifs at h
    cases h
    exact finishSend_appended _ _ _ _
  · cases h

/-- What a sink appends is in the buffer until the next send. -/
theorem append_buffer_ne (w : BufferedWriter η) {bytes : List UInt8} (h : bytes ≠ []) :
    (w.append bytes).buffer ≠ w.buffer := by
  simp [append, h]

end BufferedWriter

namespace Side
variable [Platform]

/-- The bytes appended are those of the messages, complete or not, and no message is
empty. -/
def Accounted (s : Side) : Prop :=
  s.output.appended = s.history.messages.flatMap Emission.output ∧
    ∀ message ∈ s.history.messages, message.output ≠ []

omit [Platform] in
theorem Accounted.of_eq {s t : Side} (hs : s.Accounted)
    (houtput : t.output.appended = s.output.appended)
    (hmessages : t.history.messages = s.history.messages) : t.Accounted := by
  rw [Accounted, houtput, hmessages]
  exact hs

omit [Platform] in
theorem Accounted.of_ledger {s t : Side} (hs : s.Accounted) (h : t.ledger = s.ledger) :
    t.Accounted :=
  hs.of_eq (congrArg (fun l => l.1.appended) h) (congrArg (fun l => l.2.2.2.2.2.2.1) h)

omit [Platform] in
theorem Accounted.append {s t : Side} (hs : s.Accounted) {message : Emission UInt8}
    (hne : message.output ≠ [])
    (houtput : t.output.appended = s.output.appended ++ message.output)
    (hmessages : t.history.messages = s.history.messages ++ [message]) : t.Accounted := by
  refine ⟨?_, ?_⟩
  · rw [houtput, hmessages, hs.1, List.flatMap_append, List.flatMap_singleton]
  · rw [hmessages]
    simpa [or_imp, forall_and, hne] using hs.2

theorem request_messages (s : Side) (name : Identifier) (m : Method) (arguments : List Value) :
    (s.request name m arguments).history.messages =
      s.history.messages ++ [requestMessage s.nextRequestId name m arguments] := by
  unfold request
  dsimp only
  split_ifs
  · exact (congrArg (fun r => r.2.2.2.2.2.2.2.2.2.1) (expectResponse_record _ _ _)).trans rfl
  · rfl

theorem answer_messages (s : Side) (index : Nat) (invocation : Invocation) (v : Value) :
    (s.answer index invocation (.ok v)).history.messages =
      s.history.messages ++ [responseMessage invocation.id invocation.method v] := by
  unfold answer
  dsimp only
  split_ifs <;> rfl

theorem resume_messages (servers : InterfaceDefinition) (s : Side) (frame : Frame) :
    (resume servers s frame).history.messages = s.history.messages :=
  congrArg (fun d => d.2.2.2.1) (resume_diary servers s frame)

theorem accounted_step (clients servers : InterfaceDefinition) :
    Preserved (step clients servers) Accounted := by
  intro s event s' hs hstep
  obtain ⟨-, htaken⟩ := taken_of_step hstep
  cases htaken with
  | @call name m arguments =>
    refine hs.append (ne_nil_of_header (requestMessage_starts _ _ _ _)) ?_
      (request_messages s name m arguments)
    rw [output_request]
    split_ifs
    · exact BufferedWriter.sendBuffer_appended _ _
    · rfl
  | serve =>
    have hserve : (s.note fun h => { h with serves := h.serves + 1 }).Accounted := hs
    exact hserve.of_ledger (ledger_eq (waitForRequest_record _ _))
  | @answer index invocation result =>
    cases result with
    | error ec => exact hs
    | ok v =>
      refine hs.append (ne_nil_of_header (responseMessage_starts _ _ _)) ?_
        (answer_messages s index invocation v)
      rw [output_answer]
      dsimp only
      split_ifs
      · exact BufferedWriter.sendBuffer_appended _ _
      · rfl
  | «return» => exact hs
  | @resume frame stack =>
    refine hs.of_eq ?_ (resume_messages servers { s with stack } frame)
    by_cases hwriter : frame = .writer
    · subst hwriter
      rcases continueWriter_output { s with stack } with hsame | hproceed
      · rw [resume, hsame]
      · exact BufferedWriter.proceed_appended hproceed
    · rw [resume_output servers _ frame hwriter]
  | read => exact hs
  | readError => exact hs.of_ledger ((ledger_eq (call_record _ _ _ _)).trans rfl)
  | written _ hwritten => exact hs.of_eq (BufferedWriter.written_appended hwritten) rfl

omit [Platform] in
theorem accepted_length_le (messages : List (Emission UInt8)) :
    ((messages.filter Emission.ok).flatMap Emission.output).length ≤
      (messages.flatMap Emission.output).length :=
  (List.filter_sublist.flatMap _).length_le

omit [Platform] in
/-- A message that was refused has left at least its header between the others. -/
theorem accepted_only_iff {messages : List (Emission UInt8)}
    (hne : ∀ message ∈ messages, message.output ≠ []) :
    messages.flatMap Emission.output = (messages.filter Emission.ok).flatMap Emission.output ↔
      ∀ message ∈ messages, message.ok = true := by
  refine ⟨fun heq => ?_, fun hall => by rw [List.filter_eq_self.mpr hall]⟩
  induction messages with
  | nil => simp
  | cons first rest ih =>
    simp only [List.mem_cons, forall_eq_or_imp] at hne ⊢
    by_cases hok : first.ok = true
    · rw [List.filter_cons_of_pos hok, List.flatMap_cons, List.flatMap_cons,
        List.append_cancel_left_eq] at heq
      exact ⟨hok, ih hne.2 heq⟩
    · -- the right-hand side has no more than the bytes of `rest`
      rw [List.filter_cons_of_neg hok, List.flatMap_cons] at heq
      have hlength := congrArg List.length heq
      have hle := accepted_length_le rest
      have hpos := List.length_pos_iff.mpr hne.1
      rw [List.length_append] at hlength
      omega

theorem accounted_run {clients servers : InterfaceDefinition} {events : List Event} {s : Side}
    (h : run (step clients servers) {} events = some s) : s.Accounted :=
  (accounted_step clients servers).run ⟨rfl, by simp⟩ h

theorem rejected_call_expected {s : Side} {name : Identifier} {m : Method}
    {arguments : List Value}
    (hrejected : (requestMessage s.nextRequestId name m arguments).ok = false) :
    (s.request name m arguments).expectedResponses = s.expectedResponses := by
  unfold request
  dsimp only
  rw [hrejected, if_neg Bool.false_ne_true]
  rfl

theorem rejected_call_buffer {s : Side} {name : Identifier} {m : Method}
    {arguments : List Value}
    (hrejected : (requestMessage s.nextRequestId name m arguments).ok = false) :
    (s.request name m arguments).output.buffer ≠ s.output.buffer := by
  rw [output_request, hrejected, if_neg Bool.false_ne_true]
  exact BufferedWriter.append_buffer_ne _
    (ne_nil_of_header (requestMessage_starts _ _ _ _))

theorem rejected_answer_buffer {s : Side} {index : Nat} {invocation : Invocation} {v : Value}
    (hrejected : (responseMessage invocation.id invocation.method v).ok = false) :
    (s.answer index invocation (.ok v)).output.buffer ≠ s.output.buffer := by
  rw [output_answer]
  dsimp only
  rw [hrejected, if_neg Bool.false_ne_true]
  exact BufferedWriter.append_buffer_ne _
    (ne_nil_of_header (responseMessage_starts _ _ _))

/-- A refused call or result changes the buffer of the writer in every state, although the
expected responses stay. The bytes that were and will be sent are those of the accepted
messages exactly in the runs in which none was refused. -/
theorem rejected_value_remains (clients servers : InterfaceDefinition) :
    (∀ (s : Side) (name : Identifier) (m : Method) (arguments : List Value),
      (requestMessage s.nextRequestId name m arguments).ok = false →
        (s.request name m arguments).expectedResponses = s.expectedResponses ∧
        (s.request name m arguments).output.buffer ≠ s.output.buffer) ∧
    (∀ (s : Side) (index : Nat) (invocation : Invocation) (v : Value),
      (responseMessage invocation.id invocation.method v).ok = false →
        (s.answer index invocation (.ok v)).output.buffer ≠ s.output.buffer) ∧
    ∀ (events : List Event) (s : Side), run (step clients servers) {} events = some s →
      (s.output.handed.flatten ++ s.output.buffer =
          (s.history.messages.filter Emission.ok).flatMap Emission.output ↔
        ∀ message ∈ s.history.messages, message.ok = true) := by
  refine ⟨fun s name m arguments h => ⟨rejected_call_expected h, rejected_call_buffer h⟩,
    fun s index invocation v h => rejected_answer_buffer h, fun events s h => ?_⟩
  have haccounted := accounted_run h
  rw [(output_ordered ⟨events, h⟩).bytes, haccounted.1]
  exact accepted_only_iff haccounted.2

/-- One method `f`, from `integer{0, 1000}` to `integer{0, 255}`. -/
def exampleInterface : InterfaceDefinition where
  methods := [([0x66], ⟨.integer ⟨0, 255⟩, [.integer ⟨0, 1000⟩]⟩)]
  sorted := by decide
  terminated := by decide

omit [Platform] in
theorem rejected_value_remains_example :
    let := Platform.reference
    let m : Method := ⟨.integer ⟨0, 255⟩, [.integer ⟨0, 1000⟩]⟩
    (requestMessage ({} : Side).nextRequestId [0x66] m [.integer 1001]).ok = false ∧
    (({} : Side).request [0x66] m [.integer 1001]).expectedResponses =
      ({} : Side).expectedResponses ∧
    (({} : Side).request [0x66] m [.integer 1001]).output.buffer ≠ ({} : Side).output.buffer :=
  let := Platform.reference
  ⟨by decide, (rejected_value_remains exampleInterface exampleInterface).1 {} [0x66]
    ⟨.integer ⟨0, 255⟩, [.integer ⟨0, 1000⟩]⟩ [.integer 1001] (by decide)⟩

omit [Platform] in
/-- After `f(1001)` was refused, `f(7)` sends what the refused call had appended. -/
theorem rejected_value_sent :
    letI := Platform.reference
    ¬ ∀ (events : List Event) (s : Side),
      run (step exampleInterface exampleInterface) {} events = some s →
        s.output.handed.flatten ++ s.output.buffer =
          (s.history.messages.filter Emission.ok).flatMap Emission.output := by
  intro h
  letI := Platform.reference
  have hrun := h [.call [0x66] [.integer 1001], .return, .call [0x66] [.integer 7]] _ rfl
  revert hrun
  decide

end Side

end Warpcoil
