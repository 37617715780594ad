import Warpcoil.Exclusive

/-! What becomes of the bytes of a request whose arguments were refused: they stay in the
receive buffer, and the next header is read from them. -/
namespace Warpcoil.Side
open Incremental Transition

/-- What a new parse operation would find. -/
structure Rest where
  active : List ParseOperation
  parsingHeader : Bool
  locked : Bool
  waitingForResponse : Bool
  waitingForRequest : Option Nat
  buffer : List UInt8
  received : List UInt8
  parsed : List Parsed

def rest (s : Side) : Rest :=
  ⟨s.active, s.parsingHeader, s.locked, s.waitingForResponse, s.waitingForRequest, s.buffer,
    s.history.received, s.history.parsed⟩

/-- Nothing is parsed and nobody waits for a message. -/
def Silent (buffer received : List UInt8) (parsed : List Parsed) (s : Side) : Prop :=
  s.rest = ⟨[], false, false, false, none, buffer, received, parsed⟩

/-- The position in the stream of the first byte that an operation was shown. -/
def begins (s : Side) (operation : ParseOperation) : Nat :=
  s.history.received.length - s.buffer.length - operation.seen.length

variable {buffer received : List UInt8} {parsed : List Parsed}

theorem Silent.of_rest {s t : Side} (h : s.Silent buffer received parsed)
    (ht : t.rest = s.rest) : t.Silent buffer received parsed :=
  ht.trans h

theorem push_rest (s : Side) {frames : List Frame} (h : frames.flatMap Frame.operation = []) :
    (s.push frames).rest = s.rest := by
  simp only [rest, active, push, List.flatMap_append, h, List.nil_append]

theorem Silent.throw {s : Side} (h : s.Silent buffer received parsed) (e : Exception) :
    (s.throw e).Silent buffer received parsed := by
  have hactive : s.active = [] := congrArg Rest.active h
  have hsame : (s.throw e).active = s.active := by
    rw [hactive]
    exact (List.append_eq_nil_iff.mp hactive).2
  apply h.of_rest
  rw [rest, hsame]
  rfl

theorem complete_rest (s : Side) (handler : Nat) (ec : ErrorCode) :
    (s.complete handler ec).rest = s.rest :=
  (push_rest _ rfl).trans rfl

theorem callResultHandler_rest (s : Side) (handler : Nat) (result : Except ErrorCode Value) :
    (s.callResultHandler handler result).rest = s.rest :=
  (push_rest _ rfl).trans rfl

theorem registryOnError_rest (s : Side) (ec : ErrorCode) :
    (s.registryOnError ec).rest = s.rest :=
  (push_rest _ rfl).trans rfl

theorem continueWriter_rest (s : Side) : s.continueWriter.rest = s.rest := by
  unfold continueWriter
  dsimp only
  split
  · rfl
  · have hpush (output : BufferedWriter Sent) :
        (Side.push { s with output } [.writer]).rest = s.rest := (push_rest _ rfl).trans rfl
    split
    · unfold onSent
      split
      · split_ifs
        · exact hpush _
        · exact (registryOnError_rest _ _).trans (hpush _)
      · exact (complete_rest _ _ _).trans (hpush _)
    · exact hpush _

variable [Platform]

theorem answer_rest (s : Side) (index : Nat) (invocation : Invocation)
    (result : Except ErrorCode Value) : (s.answer index invocation result).rest = s.rest := by
  unfold answer
  dsimp only
  split
  · exact (complete_rest _ _ _).trans rfl
  · split_ifs
    · rfl
    · exact (complete_rest _ _ _).trans rfl

/-- The steps that call `wait_for_request` or `wait_for_response`. -/
def Waits (clients : InterfaceDefinition) (s : Side) : Event → Prop
  | .serve => True
  | .call name arguments => ∃ m, clients.find name = some m ∧
      (requestMessage s.nextRequestId name m arguments).ok = true ∧
      s.state = .notExpectingResponse
  | .resume => s.expectedResponses ≠ [] ∧
      ∃ handler v stack, s.stack = .resultUnlocked handler v :: stack
  | .answer _ _ | .return | .read _ _ | .readError _ _ | .written _ _ _ => False

instance (clients : InterfaceDefinition) (s : Side) : DecidablePred (s.Waits clients)
  | .serve => isTrue trivial
  | .call name arguments => decidable_of_iff
      ((clients.find name).any (fun m => (requestMessage s.nextRequestId name m arguments).ok &&
        decide (s.state = .notExpectingResponse)) = true) <| by
      simp [Waits, Option.any_eq_true]
  | .resume => decidable_of_iff
      (s.expectedResponses ≠ [] ∧
        (match s.stack with | .resultUnlocked _ _ :: _ => true | _ => false) = true) <| by
      rw [Waits]
      split
      · next handler v stack hstack => simp [hstack]
      · next hnot => exact ⟨fun h => absurd h.2 Bool.false_ne_true,
          fun ⟨_, handler, v, stack, hstack⟩ => (hnot handler v stack hstack).elim⟩
  | .answer _ _ | .return | .read _ _ | .readError _ _ | .written _ _ _ => isFalse id

omit [Platform] in
theorem Silent.continueRequest {s : Side} (h : s.Silent buffer received parsed)
    (continue_ : Bool) : (s.continueRequest continue_).Silent buffer received parsed := by
  have hresponse : s.waitingForResponse = false := congrArg Rest.waitingForResponse h
  unfold Side.continueRequest
  rw [if_neg (by simp [hresponse])]
  exact h

omit [Platform] in
theorem Silent.continueResponse {s : Side} (h : s.Silent buffer received parsed)
    (continue_ : Bool) : (s.continueResponse continue_).Silent buffer received parsed := by
  have hrequest : s.waitingForRequest = none := congrArg Rest.waitingForRequest h
  unfold Side.continueResponse
  rw [if_neg (by simp [hrequest])]
  exact h

omit [Platform] in
theorem Silent.continueError {servers : InterfaceDefinition} {s : Side}
    (h : s.Silent buffer received parsed) (isWaitingForRequest : Bool) (ec : ErrorCode) :
    (continueError servers s isWaitingForRequest ec).Silent buffer received parsed := by
  have hrequest : s.waitingForRequest = none := congrArg Rest.waitingForRequest h
  unfold Side.continueError
  split_ifs
  · split
    · next handler hsome => rw [hrequest] at hsome; cases hsome
    · exact h.throw _
  · exact h

omit [Platform] in
theorem Silent.continueResult {s : Side} (h : s.Silent buffer received parsed)
    (hempty : s.expectedResponses = []) (handler : Nat) (v : Value) :
    (s.continueResult handler v).Silent buffer received parsed := by
  unfold Side.continueResult
  dsimp only [push]
  rw [hempty, List.isEmpty_nil, if_pos rfl]
  exact h.of_rest rfl

/-- While nobody starts to wait, nothing is parsed. -/
theorem silent_resume (clients servers : InterfaceDefinition) {s : Side} {frame : Frame}
    {stack : List Frame} (h : s.Silent buffer received parsed) (hstack : s.stack = frame :: stack)
    (hwaits : ¬ s.Waits clients .resume) :
    (resume servers { s with stack } frame).Silent buffer received parsed := by
  have hactive : s.active = [] := congrArg Rest.active h
  rw [active, hstack, List.flatMap_cons] at hactive
  have hoperations := List.append_eq_nil_iff.mp (List.append_eq_nil_iff.mp hactive).1
  have hpop : Silent buffer received parsed { s with stack } := by
    apply h.of_rest
    simp only [rest, active, hstack, List.flatMap_cons, hoperations.1, List.nil_append]
  cases frame with
  | start operation => simp [Frame.operation] at hoperations
  | requestContinue continue_ => exact hpop.continueRequest _
  | responseContinue continue_ => exact hpop.continueResponse _
  | errorContinue isWaitingForRequest ec => exact hpop.continueError _ _
  | errors handlers ec =>
    cases handlers with
    | nil => exact hpop
    | cons handler handlers =>
      exact hpop.of_rest ((callResultHandler_rest _ _ _).trans (push_rest _ rfl))
  | resultUnlocked handler v =>
    apply hpop.continueResult
    by_contra hne
    exact hwaits ⟨hne, handler, v, stack, hstack⟩
  | resultReady handler v => exact hpop.of_rest (callResultHandler_rest _ _ _)
  | argumentUnlocked id name m handler argument =>
    cases argument with
    | error ec => exact hpop.of_rest (complete_rest _ _ _)
    | ok v => exact hpop.of_rest ((push_rest _ rfl).trans rfl)
  | writer => exact hpop.of_rest (continueWriter_rest _)
  | user => exact hpop

theorem silent_step {clients servers : InterfaceDefinition} {s s' : Side} {event : Event}
    (h : s.Silent buffer received parsed) (hwaits : ¬ s.Waits clients event)
    (hstep : step clients servers s event = some s') : s'.Silent buffer received parsed := by
  have hactive : s.active = [] := congrArg Rest.active h
  have hreads : s.reads = [] := (List.append_eq_nil_iff.mp hactive).2
  obtain ⟨-, htaken⟩ := taken_of_step hstep
  cases htaken with
  | @call name m arguments runs find =>
    unfold request
    dsimp only
    split_ifs with hok
    · -- the registry waits for a header already, or parses a result
      have hstate : s.state ≠ .notExpectingResponse := fun hstate =>
        hwaits ⟨m, find, hok, hstate⟩
      unfold expectResponse
      dsimp only [note]
      cases hs : s.state with
      | notExpectingResponse => exact (hstate hs).elim
      | parsingHeader => exact h.of_rest rfl
      | parsingResult => exact h.of_rest rfl
    · apply h.of_rest
      exact (callResultHandler_rest _ _ _).trans rfl
  | serve => exact (hwaits trivial).elim
  | answer => exact h.of_rest (answer_rest _ _ _ _)
  | «return» hstack =>
    apply h.of_rest
    simp only [rest, active, hstack, List.flatMap_cons, Frame.operation, List.nil_append]
  | resume hstack => exact silent_resume clients servers h hstack hwaits
  | read _ hread => rw [hreads] at hread; simp at hread
  | readError _ hread => rw [hreads] at hread; simp at hread
  | written => exact h.of_rest ((push_rest _ rfl).trans rfl)

omit [Platform] in
/-- A header parse has been started on this buffer. -/
def Rereads (buffer received : List UInt8) (s : Side) : Prop :=
  Continuation.messageType.operation ∈ s.active ∧ s.buffer = buffer ∧
    s.history.received = received

omit [Platform] in
theorem Rereads.of_rest {s t : Side} (h : s.Rereads buffer received) (ht : t.rest = s.rest) :
    t.Rereads buffer received := by
  have hactive : t.active = s.active := congrArg Rest.active ht
  exact ⟨hactive ▸ h.1, (congrArg Rest.buffer ht).trans h.2.1,
    (congrArg Rest.received ht).trans h.2.2⟩

omit [Platform] in
theorem begun_rereads (s : Side) : s.begun.Rereads s.buffer s.history.received :=
  ⟨List.mem_append_left _ (List.mem_cons_self ..), rfl, rfl⟩

omit [Platform] in
theorem Silent.waitForResponse {s : Side} (h : s.Silent buffer received parsed) :
    s.waitForResponse.Rereads buffer received := by
  have hheader : s.parsingHeader = false := congrArg Rest.parsingHeader h
  have hlocked : s.locked = false := congrArg Rest.locked h
  have hbuffer : s.buffer = buffer := congrArg Rest.buffer h
  have hreceived : s.history.received = received := congrArg Rest.received h
  have hfree : s.waitingForResponse = false := congrArg Rest.waitingForResponse h
  unfold Side.waitForResponse
  rw [assert_of s _ (by rw [hfree]; rfl)]
  dsimp only
  rw [hheader, if_neg Bool.false_ne_true,
    callBeginParseMessage_eq rfl rfl rfl, hlocked, if_neg Bool.false_ne_true, ← hbuffer,
    ← hreceived]
  exact begun_rereads _

omit [Platform] in
theorem Silent.waitForRequest {s : Side} (h : s.Silent buffer received parsed) (handler : Nat) :
    (s.waitForRequest handler).Rereads buffer received := by
  have hheader : s.parsingHeader = false := congrArg Rest.parsingHeader h
  have hlocked : s.locked = false := congrArg Rest.locked h
  have hbuffer : s.buffer = buffer := congrArg Rest.buffer h
  have hreceived : s.history.received = received := congrArg Rest.received h
  have hfree : s.waitingForRequest = none := congrArg Rest.waitingForRequest h
  unfold Side.waitForRequest
  rw [assert_of s _ (by rw [hfree]; rfl)]
  dsimp only
  rw [hheader, if_neg Bool.false_ne_true,
    callBeginParseMessage_eq rfl rfl (Bool.or_true _), hlocked, if_neg Bool.false_ne_true,
    ← hbuffer, ← hreceived]
  exact begun_rereads _

omit [Platform] in
theorem Silent.continueResult_rereads {s : Side} (h : s.Silent buffer received parsed)
    (hne : s.expectedResponses ≠ []) (handler : Nat) (v : Value) :
    (s.continueResult handler v).Rereads buffer received := by
  have hempty : s.expectedResponses.isEmpty = false := List.isEmpty_eq_false_iff.mpr hne
  unfold Side.continueResult
  dsimp only [push]
  rw [hempty, if_neg Bool.false_ne_true]
  apply Silent.waitForResponse
  exact h.of_rest rfl

/-- Whoever waits next reads the bytes that were left. -/
theorem waits_step {clients servers : InterfaceDefinition} {s s' : Side} {event : Event}
    (h : s.Silent buffer received parsed) (hwaits : s.Waits clients event)
    (hstep : step clients servers s event = some s') : s'.Rereads buffer received := by
  obtain ⟨-, htaken⟩ := taken_of_step hstep
  cases htaken with
  | @call name m arguments runs find =>
    obtain ⟨m', hfind, hok, hstate⟩ := hwaits
    obtain rfl : m' = m := by rw [find, Option.some.injEq] at hfind; exact hfind.symm
    unfold request
    dsimp only
    rw [if_pos hok]
    unfold expectResponse
    dsimp only [note]
    rw [hstate]
    apply Silent.waitForResponse
    exact h.of_rest rfl
  | serve =>
    apply Silent.waitForRequest
    exact h.of_rest rfl
  | @resume frame stack hstack =>
    obtain ⟨hne, handler, v, stack', hstack'⟩ := hwaits
    obtain ⟨rfl, rfl⟩ := List.cons.inj (hstack.symm.trans hstack')
    have hpop : Silent buffer received parsed { s with stack } := by
      apply h.of_rest
      simp only [rest, active, hstack, List.flatMap_cons, Frame.operation, List.nil_append]
    exact hpop.continueResult_rereads hne handler v
  | answer | «return» | read | readError | written => exact hwaits.elim

/-- The innermost frame parses the arguments of a request and will refuse the byte before the
position `stop` of the stream. -/
inductive Refuses (s : Side) (stop : Nat) : Prop where
  | intro {parser parser' : Parser} {id : RequestId} {name : Identifier} {m : Method}
    {handler : Nat} {seen before rest : List UInt8} {last : UInt8} {stack : List Frame}
    (stack_eq : s.stack = .start ⟨parser, .argument id name m handler, seen⟩ :: stack)
    (check : parser.checkForImmediateCompletion = none)
    (buffer : s.buffer = before ++ last :: rest) (read : parser.read before = .more parser')
    (refused : parser'.parseByte last = .fail .invalidInput)
    (stop_eq : s.history.received.length = stop + rest.length)

omit [Platform] in
/-- The input is unlocked after the arguments of a request. -/
theorem Opened.unlockInput {s : Side} {k : Continuation} (h : s.Opened k)
    (hkind : k.isHeader = false) :
    (s.waitingForResponse = false → s.waitingForRequest = none →
        s.unlockInput.Silent s.buffer s.history.received s.history.parsed) ∧
      ((s.waitingForResponse || s.waitingForRequest.isSome) = true →
        s.unlockInput.thrown = none → s.unlockInput.Rereads s.buffer s.history.received) := by
  have hheader : s.parsingHeader = false := h.parsingHeader.trans hkind
  have hlocked : s.locked = true := h.locked.trans (congrArg (! ·) hkind)
  have hactive : s.active = [] := h.active
  constructor
  · intro hresponse hrequest
    have hnobody : ¬ (s.waitingForResponse || s.waitingForRequest.isSome) = true := by
      simp [hresponse, hrequest]
    rw [unlockInput_eq hlocked hheader fun hwaiting => (hnobody hwaiting).elim, release,
      if_neg hnobody]
    change Rest.mk s.active s.parsingHeader false s.waitingForResponse s.waitingForRequest
      s.buffer s.history.received s.history.parsed = _
    rw [hactive, hheader, hresponse, hrequest]
  · intro hwaiting hthrown
    cases hbegin : s.beginParseMessage with
    | true =>
      rw [unlockInput_eq hlocked hheader fun _ => hbegin, release, if_pos hwaiting]
      exact begun_rereads { s with locked := false }
    | false =>
      -- an empty function is called
      have hsome : ¬ (!s.waitingForResponse && s.waitingForRequest.isNone) = true := by
        cases hresponse : s.waitingForResponse <;> cases hrequest : s.waitingForRequest <;>
          simp_all
      unfold Side.unlockInput at hthrown
      rw [assert_of s .unlockInput (by rw [hheader, hlocked]; rfl)] at hthrown
      dsimp only at hthrown
      rw [if_neg hsome] at hthrown
      unfold callBeginParseMessage at hthrown
      rw [if_neg (by simp [assert, note, hbegin])] at hthrown
      cases hthrown

/-- The bytes that the parser of the arguments was shown last stay in the buffer, and the input
is unlocked. -/
theorem Refuses.resume {clients servers : InterfaceDefinition} {s s' : Side} {stop : Nat}
    (h : s.Refuses stop) (hexclusive : s.Exclusive)
    (hstep : step clients servers s .resume = some s') :
    (s.waitingForResponse = false → s.waitingForRequest = none →
        s'.Silent s.buffer s.history.received s.history.parsed) ∧
      ((s.waitingForResponse || s.waitingForRequest.isSome) = true → s'.thrown = none →
        s'.Rereads s.buffer s.history.received) := by
  obtain ⟨-, htaken⟩ := taken_of_step hstep
  cases h with
  | @intro parser parser' id name m handler seen before rest last stack hstack hcheck hbuffer
      hread hrefused =>
    cases htaken with
    | resume hstack' =>
      obtain ⟨rfl, rfl⟩ := List.cons.inj (hstack.symm.trans hstack')
      have hopened := hexclusive.opened (t := { s with stack }) (active_start hstack) rfl
      have hfail : parser.read s.buffer = .fail .invalidInput := by
        rw [hbuffer, Parser.read, read_append_of_more hread, Incremental.read, hrefused]
      have hstart : Side.resume servers { s with stack }
          (.start ⟨parser, .argument id name m handler, seen⟩) =
          (Side.push (Side.fail { s with stack })
            [.argumentUnlocked id name m handler (.error .invalidInput)]).unlockInput := by
        simp only [Side.resume, start, hcheck, hfail, call]
      rw [hstart]
      have hpushed := hopened.of_gate (t := Side.push (Side.fail { s with stack })
        [.argumentUnlocked id name m handler (.error .invalidInput)]) ((push_gate _ rfl).trans rfl)
      exact hpushed.unlockInput rfl

theorem silent_run {clients servers : InterfaceDefinition} {s s' : Side} {events : List Event}
    (h : s.Silent buffer received parsed)
    (hwaits : Along (step clients servers) (fun t event => ¬ t.Waits clients event) s events)
    (hrun : run (step clients servers) s events = some s') : s'.Silent buffer received parsed :=
  Along.run (fun _ _ _ ht hevent hstep => silent_step ht hevent hstep) h hwaits hrun

/-- After the arguments of a request were refused nothing is parsed as long as nobody waits for
a message, then or later. The first that waits reads the refused bytes as a header. -/
theorem refused_bytes_skipped (clients servers : InterfaceDefinition) (events : List Event)
    (s s₁ : Side) (stop : Nat) (hrun : run (step clients servers) {} events = some s)
    (hrefuses : s.Refuses stop) (hstep : step clients servers s .resume = some s₁) :
    (s.waitingForResponse = false ∧ s.waitingForRequest = none →
      ∀ later t, Along (step clients servers) (fun u event => ¬ u.Waits clients event) s₁ later →
        run (step clients servers) s₁ later = some t →
        (∀ operation ∈ t.active, stop ≤ t.begins operation) ∧
          t.history.parsed = s.history.parsed ∧
          ∀ event u, t.Waits clients event → step clients servers t event = some u →
            u.Rereads s.buffer s.history.received) ∧
      (¬ (s.waitingForResponse = false ∧ s.waitingForRequest = none) → s₁.thrown = none →
        s₁.Rereads s.buffer s.history.received) := by
  have hexclusive := (exclusive_step clients servers).run exclusive_initial hrun
  obtain ⟨hnobody, hsomebody⟩ := hrefuses.resume hexclusive hstep
  constructor
  · rintro ⟨hresponse, hrequest⟩ later t hwaits hlater
    have hsilent := silent_run (hnobody hresponse hrequest) hwaits hlater
    have hactive : t.active = [] := congrArg Rest.active hsilent
    refine ⟨?_, congrArg Rest.parsed hsilent, fun _ _ hevent => waits_step hsilent hevent⟩
    rw [hactive]
    simp
  · intro hwaiting
    apply hsomebody
    cases hresponse : s.waitingForResponse <;> cases hrequest : s.waitingForRequest <;> simp_all

/-- One method `f`, from `utf8{0, 255}` to `integer{0, 255}`. -/
def textInterface : InterfaceDefinition where
  methods := [([0x66], ⟨.integer ⟨0, 255⟩, [.utf8 ⟨0, 255⟩]⟩)]
  sorted := by decide
  terminated := by decide

omit [Platform] in
/-- A server alone is sent a text of one byte that is not UTF-8. Its handler makes a call with an
argument that is refused as well, and returns. -/
theorem refused_bytes_skipped_server :
    letI := Platform.reference
    let events : List Event := [.serve, .resume,
      .read 0 [0, 0, 0, 0, 0, 0, 0, 0, 5, 1, 0x66, 1, 0xff], .resume, .resume]
    let later : List Event := [.resume, .call [0x66] [.utf8 [0xff]], .return, .return, .resume]
    ∃ s s₁ t, run (step textInterface textInterface) {} events = some s ∧
      step textInterface textInterface s .resume = some s₁ ∧
      run (step textInterface textInterface) s₁ later = some t ∧ t.stack = [] ∧
      t.history.served = [(0, .invalidInput)] ∧ t.history.parsed = s.history.parsed := by
  letI := Platform.reference
  intro events later
  refine ⟨_, _, _, rfl, rfl, rfl, rfl, rfl, ?_⟩
  refine ((refused_bytes_skipped textInterface textInterface events _ _ 13 rfl ?_ rfl).1
    ⟨rfl, rfl⟩ later _ (of_decide_eq_true rfl) rfl).2.1
  exact .intro rfl rfl (show _ = [1] ++ 0xff :: [] from rfl) rfl rfl rfl

omit [Platform] in
/-- The last ten bytes of a refused text are taken for a response to the pending call. -/
theorem refused_bytes_decoded :
    letI := Platform.reference
    ∃ s s₁ t, run (step exampleInterface textInterface) {} [.call [0x66] [.integer 7], .resume,
        .serve, .read 0 [0, 0, 0, 0, 0, 0, 0, 0, 5, 1, 0x66, 10], .resume, .resume, .resume,
        .resume, .read 0 [1, 0, 0, 0, 0, 0, 0, 0, 0, 0xff]] = some s ∧
      s.Refuses 22 ∧ step exampleInterface textInterface s .resume = some s₁ ∧
      (∃ operation ∈ s₁.active, s₁.begins operation < 22) ∧
      run (step exampleInterface textInterface) s₁
        [.resume, .resume, .resume, .resume, .resume] = some t ∧
      t.history.completed = [(0, .ok (.integer 255))] := by
  letI := Platform.reference
  refine ⟨_, _, _, rfl, ?_, rfl, ?_, rfl, rfl⟩
  · exact .intro rfl rfl (show _ = [1, 0, 0, 0, 0, 0, 0, 0, 0] ++ 0xff :: [] from rfl) rfl rfl rfl
  · exact ⟨Continuation.messageType.operation, .head _, by decide⟩

end Warpcoil.Side
