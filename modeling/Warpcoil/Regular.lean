import Warpcoil.Pending
import Warpcoil.Serial

/-! The invariant of a side that is used as intended, and the one when it has met no error
either. -/
namespace Warpcoil.Side
open Transition
variable [Platform]

omit [Platform] in
/-- There are fewer calls than ids, and a server waits for the next request when it has
completed the one before. -/
def Polite (s : Side) : Event → Prop
  | .call _ _ => s.history.calls.length < 2 ^ 64
  | .serve => s.Served
  | .answer _ _ | .return | .resume | .read _ _ | .readError _ _ | .written _ _ _ => True

/-- What is kept whatever the implementation answers. -/
structure Composed (servers : InterfaceDefinition) (s : Side) : Prop where
  calm : s.Calm
  custody : s.Custody
  ordered : s.output.Ordered
  serial : s.Serial
  books : s.books.Balanced
  work : s.desk.Dispatched
  trace : ∃ messages, Trace servers s messages

structure Regular (servers : InterfaceDefinition) (s : Side) : Prop
    extends s.Composed servers where
  failed : s.history.failed = false
  desk : s.desk.Tidy

theorem composed_initial (servers : InterfaceDefinition) : ({} : Side).Composed servers where
  calm := by
    refine ⟨rfl, rfl, by simp, by simp [active], ?_, ?_⟩
    · exact .idle rfl rfl rfl rfl rfl
    · exact .notExpecting rfl rfl rfl rfl
  custody := custody_initial
  ordered := BufferedWriter.ordered_initial
  serial := fun n hn => absurd hn (Nat.not_lt_zero _)
  books := Books.balanced_initial
  work := rfl
  trace := ⟨[], .nil, fun h => (h rfl).elim, by simp, ⟨[], rfl, .idle⟩, by simp⟩

theorem regular_initial (servers : InterfaceDefinition) : ({} : Side).Regular servers where
  toComposed := composed_initial servers
  failed := rfl
  desk := ⟨rfl, .nil⟩

omit [Platform] in
/-- Who has called every handler waits for nothing, and no arguments are parsed. -/
theorem Custody.served_free {s : Side} (hs : s.Custody) (h : s.output.Ordered)
    (hserved : s.Served) : s.Free := by
  refine ⟨hs.free h hserved, fun operation hoperation id name m n hkind => ?_⟩
  refine hs.not_held h hserved n ?_
  have htoken : Token.serve n ∈ operation.onResult.tokens := by
    rw [hkind]
    exact List.mem_cons_self
  rcases List.mem_append.mp hoperation with hframe | hread
  · obtain ⟨frame, hmem, hframe⟩ := List.mem_flatMap.mp hframe
    have hstart : frame = .start operation := by
      cases frame with
      | start other => rw [List.mem_singleton.mp hframe]
      | _ => cases hframe
    simp only [held, List.mem_append, List.mem_flatMap]
    exact .inl (.inl (.inl (.inl ⟨frame, hmem, by rw [hstart]; exact htoken⟩)))
  · simp only [held, List.mem_append, List.mem_flatMap]
    exact .inl (.inl (.inl (.inr ⟨operation, hread, htoken⟩)))

theorem Polite.free {s : Side} {event : Event} (h : s.Polite event) {servers : InterfaceDefinition}
    (hcomposed : s.Composed servers) (hserve : event = .serve) : s.Free := by
  subst hserve
  exact hcomposed.custody.served_free hcomposed.ordered h

omit [Platform] in
theorem Polite.fresh {s : Side} {event : Event} (h : s.Polite event)
    (hbooks : s.books.Balanced) {name : Identifier} {arguments : List Value}
    (hcall : event = .call name arguments) : s.Fresh := by
  subst hcall
  exact hbooks.fresh h

/-- Called handlers stay called, and only `serve_one_request` creates one. -/
theorem moved_served {clients servers : InterfaceDefinition} {s s' : Side} {event : Event}
    (h : Moved clients servers s event s') :
    s.history.served ⊆ s'.history.served ∧
      (s'.history.serves = s.history.serves ∨
        event = .serve ∧ s'.history.serves = s.history.serves + 1) := by
  cases h with
  | serve =>
    rw [(summon_fields _).1]
    exact ⟨List.Subset.refl _, .inr ⟨rfl, rfl⟩⟩
  | awaited =>
    rw [(summon_fields _).1]
    exact ⟨List.Subset.refl _, .inl rfl⟩
  | resume hstack hresumed =>
    cases hresumed with
    | result | argument =>
      rw [(release_fields _).1]
      exact ⟨List.Subset.refl _, .inl rfl⟩
    | nextHeader =>
      rw [(summon_fields _).1]
      exact ⟨List.Subset.refl _, .inl rfl⟩
    | responseSent => exact ⟨List.subset_append_left _ _, .inl rfl⟩
    | _ => exact ⟨List.Subset.refl _, .inl rfl⟩
  | _ => exact ⟨List.Subset.refl _, .inl rfl⟩

theorem moved_failed {clients servers : InterfaceDefinition} {s s' : Side} {event : Event}
    (h : Moved clients servers s event s') : s'.history.failed = s.history.failed := by
  cases h with
  | serve | awaited =>
    rw [(summon_fields _).1]
    rfl
  | resume hstack hresumed =>
    cases hresumed with
    | result | argument =>
      rw [(release_fields _).1]
      rfl
    | nextHeader =>
      rw [(summon_fields _).1]
      rfl
    | responseSent => exact Bool.or_false _
    | _ => rfl
  | _ => rfl

theorem Serial.moved {clients servers : InterfaceDefinition} {s s' : Side} {event : Event}
    (h : s.Serial) (hmoved : Moved clients servers s event s')
    (hserved : event = .serve → s.Served) : s'.Serial := by
  obtain ⟨hsubset, hserves⟩ := moved_served hmoved
  intro n hn
  refine List.map_subset Prod.fst hsubset ?_
  rcases hserves with hsame | ⟨hserve, hnext⟩
  · exact h n (hsame ▸ hn)
  · exact hserved hserve n (by omega)

/-- Polite steps keep everything in order, or end the calm. -/
theorem Composed.step {clients servers : InterfaceDefinition} {s s' : Side} {event : Event}
    (h : s.Composed servers) (hstep : Side.step clients servers s event = some s')
    (hpolite : s.Polite event) :
    (Moved clients servers s event s' ∧ s'.Composed servers) ∨ Upset servers s event := by
  rcases h.calm.moved hstep (hpolite.free h) with hmoved | hupset
  · refine .inl ⟨hmoved, ?_⟩
    have hfresh (name : Identifier) (arguments : List Value)
        (hcall : event = .call name arguments) : s.Fresh := hpolite.fresh h.books hcall
    have hcalm := h.calm.of_moved hmoved (hpolite.free h)
    obtain ⟨messages, htrace⟩ := h.trace
    refine ⟨hcalm, ?_, ?_, ?_, ?_, ?_, ?_⟩
    · exact custody_step h.custody hstep hcalm.thrown hfresh fun hserve =>
        (hpolite.free h hserve).1
    · exact BufferedWriter.ordered_step.reaches h.ordered
        (output_component clients servers s event s' hstep)
    · exact h.serial.moved hmoved fun hserve => by subst hserve; exact hpolite
    · exact h.books.step (h.calm.moved_books hmoved hfresh)
    · exact h.work.step (moved_desk h.custody h.ordered h.serial hmoved)
    · obtain ⟨messages', -, hnext⟩ := htrace.moved h.calm h.books.keyed hmoved
      exact ⟨messages', hnext⟩
  · exact .inr hupset

theorem Regular.step {clients servers : InterfaceDefinition} {s s' : Side} {event : Event}
    (h : s.Regular servers) (hstep : Side.step clients servers s event = some s')
    (hpolite : s.Polite event) :
    (Moved clients servers s event s' ∧ s'.Regular servers) ∨ Upset servers s event := by
  rcases h.toComposed.step hstep hpolite with ⟨hmoved, hcomposed⟩ | hupset
  · refine .inl ⟨hmoved, { hcomposed with failed := ?_, desk := ?_ }⟩
    · exact (moved_failed hmoved).trans h.failed
    · exact h.desk.step (moved_desk h.custody h.ordered h.serial hmoved)
  · exact .inr hupset

/-- The user has been called, and of what parses and of what is parsed nothing has changed. -/
theorem Composed.told {servers : InterfaceDefinition} {s : Side} (h : s.Composed servers)
    {unanswered : List Nat} {output : BufferedWriter Sent} {served : List (Nat × ErrorCode)}
    {failed : Bool} {responses : List (Nat × Emission UInt8)} {answers : List (Nat × Value)}
    {messages : List (Emission UInt8)} {t : Side}
    (ht : t = Side.push { s with unanswered, output, history := { s.history with
      served, failed, responses, answers, messages } } [.user])
    (hcustody : t.Custody) (hordered : t.output.Ordered) (hserved : s.history.served ⊆ served) :
    t.Composed servers := by
  subst ht
  obtain ⟨read, htrace⟩ := h.trace
  refine ⟨?_, hcustody, hordered, ?_, h.books, h.work, read, ?_⟩
  · apply h.calm.same
    · apply Sober.pushQuiet
      · exact ⟨h.calm.thrown, h.calm.asserts, h.calm.frames, h.calm.sound⟩
      · rfl
      · rfl
    · exact push_incoming _ rfl rfl
  · exact fun n hn => List.map_subset Prod.fst hserved (h.serial n hn)
  · apply Trace.push
    · exact htrace.same rfl rfl rfl rfl (.inl rfl)
    · rfl

/-- The implementation has answered with an error, or with a result that is refused. -/
theorem Composed.answer {clients servers : InterfaceDefinition} {s s' : Side} {index : Nat}
    {result : Except ErrorCode Value} (h : s.Composed servers)
    (hstep : Side.step clients servers s (.answer index result) = some s')
    (hupset : Upset servers s (.answer index result)) : s'.Composed servers := by
  have hordered := BufferedWriter.ordered_step.reaches h.ordered
    (output_component clients servers s _ s' hstep)
  obtain ⟨-, htaken⟩ := taken_of_step hstep
  cases htaken with
  | @answer _ invocation _ runs invoked unanswered admitted =>
    have hcustody := h.custody.answer invoked unanswered result
    cases hupset with
    | answerError => exact h.told rfl hcustody hordered (List.subset_append_left _ _)
    | @answerRefused _ invocation' v invoked' refused =>
      obtain rfl := Option.some.inj (invoked.symm.trans invoked')
      have hanswer : s.answer index invocation (.ok v) = Side.complete (Side.note
          { s with unanswered := s.unanswered.erase index,
                   output := s.output.append
                     (responseMessage invocation.id invocation.method v).output } fun h =>
          { h with responses := h.responses ++
                     [(index, responseMessage invocation.id invocation.method v)],
                   answers := h.answers ++ [(index, v)],
                   messages := h.messages ++
                     [responseMessage invocation.id invocation.method v] })
          invocation.handler .invalidInput :=
        if_neg (by rw [refused]; exact Bool.false_ne_true)
      exact h.told hanswer hcustody hordered (List.subset_append_left _ _)

end Warpcoil.Side
