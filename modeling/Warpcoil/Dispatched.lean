import Warpcoil.HostileInput
import Warpcoil.RefusedArgument
import Warpcoil.Requests

/-! What a server dispatches when requests are refused. The bytes of a refused one stay in the
buffer, so that the next one is looked for in the middle of it. -/
namespace Warpcoil
open Incremental Transition

section Reference
variable [Platform]

/-- Requests that stand in the bytes, each behind the one before, and what is behind them. There
may be anything between them. -/
inductive Found (servers : InterfaceDefinition) (received : List UInt8) :
    List Request → List UInt8 → Prop
  | nil : Found servers received [] received
  | skip {found : List Request} {mid rest : List UInt8}
      (before : Found servers received found mid) (suffix : rest <:+ mid) :
      Found servers received found rest
  | request {found : List Request} {request : Request} {mid rest : List UInt8}
      (before : Found servers received found mid)
      (read : readRequest servers mid = some (request, rest)) :
      Found servers received (found ++ [request]) rest

theorem Found.append {servers : InterfaceDefinition} {received rest : List UInt8}
    {found : List Request} (h : Found servers received found rest) (more : List UInt8) :
    Found servers (received ++ more) found (rest ++ more) := by
  induction h with
  | nil => exact .nil
  | skip before suffix ih =>
    obtain ⟨skipped, rfl⟩ := suffix
    exact .skip ih ⟨skipped, by rw [List.append_assoc]⟩
  | request before read ih => exact .request ih (readRequest_append read more)

theorem Reads.suffix {received rest : List UInt8} {parsed : List Parsed}
    (h : Reads received parsed rest) : rest <:+ received := by
  induction h with
  | nil => exact List.suffix_refl _
  | snoc before parse ih => exact (ParserType.parse_suffix parse).trans ih

end Reference

/-- A frame that neither parses nor dispatches. -/
def Frame.isInert : Frame → Bool
  | .requestContinue _ | .errorContinue _ _ | .errors _ _ | .argumentUnlocked _ _ _ _ (.error _)
  | .writer | .user => true
  | .start _ | .responseContinue _ | .resultUnlocked _ _ | .resultReady _ _
  | .argumentUnlocked _ _ _ _ (.ok _) => false

namespace Side

/-- The event lets nobody wait for input. -/
def Event.isPassive : Event → Bool
  | .call _ _ | .serve => false
  | .answer _ _ | .return | .resume | .read _ _ | .readError _ _ | .written _ _ _ => true

variable [Platform]

/-- The side goes on in the stream behind the requests that it has dispatched or is about to
dispatch, somewhere in a message that may be none. -/
structure Located (servers : InterfaceDefinition) (s : Side) : Prop where
  found : ∃ mid opening, Found servers s.history.received
      ((s.invoked ++ s.desk.unlocked).map Invocation.request) mid ∧
    Opening servers s.parsing opening ∧ Reads mid opening s.unread
  sound : ∀ operation ∈ s.active, operation.Sound
  buffer : s.reads ≠ [] → s.buffer = []

omit [Platform] in
/-- A header has perhaps begun to be parsed, and nothing else has happened. -/
structure Begins (s t : Side) : Prop where
  record : t.record = s.record
  stack : t.stack = s.stack ∨
    t.stack = .start Continuation.messageType.operation :: s.stack

omit [Platform] in
theorem Begins.after {s t u : Side} (h : t.Begins u) (hrecord : t.record = s.record)
    (hstack : t.stack = s.stack) : s.Begins u :=
  ⟨h.record.trans hrecord, hstack ▸ h.stack⟩

omit [Platform] in
theorem callBeginParseMessage_begins {s : Side} (h : s.callBeginParseMessage.thrown = none) :
    s.Begins s.callBeginParseMessage := by
  refine ⟨callBeginParseMessage_record s, ?_⟩
  unfold callBeginParseMessage at h ⊢
  dsimp only at h ⊢
  split_ifs at h ⊢
  · exact .inl rfl
  · exact .inr rfl
  · cases h

omit [Platform] in
theorem waitForRequest_begins {s : Side} {handler : Nat}
    (h : (s.waitForRequest handler).thrown = none) : s.Begins (s.waitForRequest handler) := by
  unfold waitForRequest at h ⊢
  dsimp only at h ⊢
  split_ifs at h ⊢
  · exact ⟨rfl, .inl rfl⟩
  · exact (callBeginParseMessage_begins h).after rfl rfl

omit [Platform] in
theorem unlockInput_begins {s : Side} (h : s.unlockInput.thrown = none) :
    s.Begins s.unlockInput := by
  unfold unlockInput at h ⊢
  dsimp only at h ⊢
  split_ifs at h ⊢
  · exact ⟨rfl, .inl rfl⟩
  · exact (callBeginParseMessage_begins h).after rfl rfl

/-! What is located stays so. -/

variable {servers : InterfaceDefinition} {s t : Side}

theorem Located.same (h : s.Located servers) (hreceived : t.history.received = s.history.received)
    (hdispatched : t.invoked ++ t.desk.unlocked = s.invoked ++ s.desk.unlocked)
    (hbuffer : t.buffer = s.buffer) (hreads : t.reads = s.reads) (hactive : t.active = s.active) :
    t.Located servers := by
  refine ⟨?_, hactive ▸ h.sound, hreads ▸ hbuffer ▸ h.buffer⟩
  obtain ⟨mid, opening, hfound, hopening, hread⟩ := h.found
  refine ⟨mid, opening, ?_, ?_, ?_⟩
  · rw [hreceived, hdispatched]
    exact hfound
  · rw [parsing, hactive]
    exact hopening
  · rw [unread, hactive, hbuffer]
    exact hread

/-- A frame that parses nothing and dispatches nothing. -/
theorem Located.push (h : s.Located servers) {frame : Frame} (hnone : frame.operation = [])
    (hinvocation : frame.invocation = []) : (s.push [frame]).Located servers := by
  refine h.same rfl ?_ rfl rfl ?_
  · rw [push_desk, hinvocation]
    rfl
  · rw [push_active, List.flatMap_singleton, hnone, List.nil_append]

theorem Located.pop (h : s.Located servers) {frame : Frame} {stack : List Frame}
    (hstack : s.stack = frame :: stack) (hnone : frame.operation = [])
    (hinvocation : frame.invocation = []) : Located servers { s with stack } := by
  refine h.same rfl ?_ rfl rfl ?_
  · rw [popped_desk hstack, hinvocation]
    rfl
  · rw [active, active, hstack, List.flatMap_cons, hnone, List.nil_append]

/-- The operation that stops gives its place in the stream back to the buffer. -/
theorem Located.stopped (h : s.Located servers)
    (hreceived : t.history.received = s.history.received) (hinvoked : t.invoked = s.invoked)
    (hunlocked : t.desk.unlocked = s.desk.unlocked) (hactive : t.active = [])
    (hsuffix : t.buffer <:+ s.unread) : t.Located servers := by
  obtain ⟨mid, opening, hfound, hopening, hread⟩ := h.found
  refine ⟨⟨t.buffer, [], ?_, ?_, ?_⟩, by rw [hactive]; simp, fun hne => ?_⟩
  · rw [hreceived, hinvoked, hunlocked]
    exact hfound.skip (hsuffix.trans hread.suffix)
  · rw [parsing, hactive]
    exact .idle
  · rw [unread, hactive]
    exact .nil
  · exact (hne (List.append_eq_nil_iff.mp hactive).2).elim

/-- Where a header begins to be parsed nothing else is being parsed. -/
theorem Located.begins (h : s.Located servers) (hbegins : s.Begins t) (hexclusive : t.Exclusive) :
    t.Located servers := by
  have hledger := ledger_eq hbegins.record
  have hreceived : t.history.received = s.history.received :=
    congrArg (fun l => l.2.2.2.2.1) hledger
  have hinvoked : t.invoked = s.invoked := congrArg (fun l => l.2.2.1) hledger
  have hbuffer : t.buffer = s.buffer := congrArg Prod.fst hbegins.record
  have hreads : t.reads = s.reads := congrArg (fun r => r.2.1) hbegins.record
  rcases hbegins.stack with hstack | hstack
  · refine h.same hreceived ?_ hbuffer hreads ?_
    · rw [desk, desk, hstack, hinvoked]
    · rw [active, active, hstack, hreads]
  · have hactive : t.active = Continuation.messageType.operation :: s.active := by
      rw [active, active, hstack, hreads]
      rfl
    have hnone : s.active = [] := by
      have hle := hexclusive.length_le.1
      rw [hactive, List.length_cons] at hle
      exact List.length_eq_zero_iff.mp (by omega)
    have hunlocked : t.desk.unlocked = s.desk.unlocked := by
      rw [desk, desk, hstack]
      rfl
    obtain ⟨mid, opening, hfound, hopening, hread⟩ := h.found
    rw [parsing, hnone] at hopening
    rw [unread, hnone] at hread
    cases hopening
    refine ⟨⟨mid, [], ?_, ?_, ?_⟩, ?_, hreads ▸ hbuffer ▸ h.buffer⟩
    · rw [hreceived, hinvoked, hunlocked]
      exact hfound
    · rw [parsing, hactive]
      exact .messageType
    · rw [unread, hactive, hnone, hbuffer]
      exact hread
    · rw [hactive, hnone]
      intro operation hoperation
      rw [List.mem_singleton.mp hoperation]
      exact Continuation.operation_sound _

/-! The operation that is about to start. -/

omit [Platform] in
/-- An operation at the top of the stack is the only one. -/
theorem Exclusive.alone (h : s.Exclusive) {operation : ParseOperation} {stack : List Frame}
    (hstack : s.stack = .start operation :: stack) :
    s.active = [operation] ∧ Side.active { s with stack } = [] := by
  have hactive : s.active = operation :: Side.active { s with stack } := by
    rw [Side.active, hstack]
    rfl
  have hle := h.length_le.1
  rw [hactive, List.length_cons] at hle
  have hnone : Side.active { s with stack } = [] := List.length_eq_zero_iff.mp (by omega)
  exact ⟨by rw [hactive, hnone], hnone⟩

/-- It completes, and the next part of the message is parsed. -/
theorem Located.completed (h : s.Located servers) {operation : ParseOperation}
    (hactive : s.active = [operation]) {v : Value} {rest : List UInt8}
    (hread : s.reading operation = .complete v rest)
    (hreceived : t.history.received = s.history.received) (hinvoked : t.invoked = s.invoked)
    (hunlocked : t.desk.unlocked = s.desk.unlocked) {k : Continuation}
    (hnext : t.active = [k.operation]) (hreads : t.reads = []) (hbuffer : t.buffer = rest)
    (hopens : ∀ opening, Opening servers (some operation.onResult) opening →
      Opening servers (some k) (opening ++ [⟨operation.onResult, v⟩])) :
    t.Located servers := by
  obtain ⟨mid, opening, hfound, hopening, hbefore⟩ := h.found
  rw [parsing, hactive] at hopening
  rw [unread, hactive, List.flatMap_singleton] at hbefore
  refine ⟨⟨mid, opening ++ [⟨operation.onResult, v⟩], ?_, ?_, ?_⟩, ?_, fun hne => ?_⟩
  · rw [hreceived, hinvoked, hunlocked]
    exact hfound
  · rw [parsing, hnext]
    exact hopens opening hopening
  · rw [unread, hnext, hbuffer]
    exact .snoc hbefore hread
  · rw [hnext]
    intro other hother
    rw [List.mem_singleton.mp hother]
    exact Continuation.operation_sound k
  · exact (hne hreads).elim

/-- The arguments complete, and so does a request. -/
theorem Located.argument (h : s.Located servers) {operation : ParseOperation}
    (hactive : s.active = [operation]) {id : RequestId} {name : Identifier} {m : Method}
    {handler : Nat} (hkind : operation.onResult = .argument id name m handler) {v : Value}
    {rest : List UInt8} (hread : s.reading operation = .complete v rest)
    (hnone : s.desk.unlocked = []) (hreceived : t.history.received = s.history.received)
    (hinvoked : t.invoked = s.invoked)
    (hunlocked : t.desk.unlocked = [⟨id, name, m, v, handler⟩])
    (hnext : t.active = []) (hbuffer : t.buffer = rest) : t.Located servers := by
  obtain ⟨mid, opening, hfound, hopening, hbefore⟩ := h.found
  rw [parsing, hactive, List.head?_cons, Option.map_some, hkind] at hopening
  rw [unread, hactive, List.flatMap_singleton] at hbefore
  refine ⟨⟨rest, [], ?_, ?_, ?_⟩, by rw [hnext]; simp, fun hne => ?_⟩
  · have hmessage := Reads.snoc hbefore hread
    rw [hkind] at hmessage
    cases hopening with
    | @argument id name m handler find =>
      rw [hnone, List.append_nil] at hfound
      rw [hreceived, hinvoked, hunlocked, List.map_append]
      have hrequest : Reads _ (Message.request _ name m handler v).parsed rest := hmessage
      exact hfound.request (readRequest_of_reads hrequest find)
  · rw [parsing, hnext]
    exact .idle
  · rw [unread, hnext, hbuffer]
    exact .nil
  · exact (hne (List.append_eq_nil_iff.mp hnext).2).elim

theorem Located.onError (h : s.Located servers) (hlistening : s.Listening servers)
    (ec : ErrorCode) : (s.onError ec).Located servers := by
  rw [hlistening.onError_eq]
  refine Located.push ?_ rfl rfl
  exact h.same rfl rfl rfl rfl rfl

/-- The handler of an operation that stopped with an error. -/
theorem Located.call_error (h : s.Located servers) (hlistening : s.Listening servers)
    {k : Continuation} (hserves : k.serves servers) {ec : ErrorCode}
    (hthrown : (call servers s k (.error ec)).thrown = none)
    (hnext : (call servers s k (.error ec)).Exclusive) :
    (call servers s k (.error ec)).Located servers := by
  cases k with
  | messageType => exact h.onError hlistening ec
  | request =>
    refine Located.onError (s := s.assert .requestWaiting s.waitingForRequest.isSome) ?_
      { hlistening with } ec
    exact h.same rfl rfl rfl rfl rfl
  | argument id name m handler =>
    exact Located.begins (h.push rfl rfl) (unlockInput_begins hthrown) hnext
  | response | result => exact hserves.elim

/-- The type of a message. -/
theorem Located.messageType (h : s.Located servers) (hlistening : s.Listening servers)
    {operation : ParseOperation} {stack : List Frame} (hstack : s.stack = .start operation :: stack)
    (hexclusive : s.Exclusive) (hkind : operation.onResult = .messageType)
    (hwaits : s.waitingForRequest.isSome = true) {v : Value} {rest : List UInt8}
    (hread : s.reading operation = .complete v rest) :
    (callWith servers { s with stack } operation.onResult v rest).Located servers := by
  obtain ⟨hactive, hnone⟩ := hexclusive.alone hstack
  have hentered : Listening servers (entered { s with stack } .messageType v rest) :=
    { hlistening.pop hstack with }
  have hunlocked : (desk { s with stack }).unlocked = s.desk.unlocked := by
    rw [popped_desk hstack]
    rfl
  have hrefused :
      (Side.onError (entered { s with stack } .messageType v rest) .invalidInput).Located
        servers := by
    have hstopped : (entered { s with stack } .messageType v rest).Located servers := by
      refine h.stopped rfl rfl hunlocked hnone ?_
      rw [unread, hactive, List.flatMap_singleton]
      exact ParserType.parse_suffix hread
    exact hstopped.onError hentered _
  rw [hkind]
  change (onMessageType (entered { s with stack } .messageType v rest) (.ok v)).Located servers
  unfold Side.onMessageType
  dsimp only
  rw [hentered.response, if_neg Bool.false_ne_true,
    show (entered { s with stack } .messageType v rest).waitingForRequest.isSome = true from hwaits,
    if_pos rfl]
  split_ifs with hresponse hrequest
  · exact hrefused
  · refine h.completed hactive hread rfl rfl hunlocked (k := .request) ?_ ?_ rfl
      fun opening hopening => ?_
    · rw [beginParseValue_active]
      exact congrArg _ hnone
    · exact (List.append_eq_nil_iff.mp hnone).2
    · rw [hkind, hrequest] at *
      cases hopening
      exact .request
  · exact hrefused

/-- The header of a request, which names a method. -/
theorem Located.requestHeader (h : s.Located servers)
    {operation : ParseOperation} {stack : List Frame} (hstack : s.stack = .start operation :: stack)
    (hexclusive : s.Exclusive) (hkind : operation.onResult = .request)
    (hwaits : s.waitingForRequest.isSome = true) {v : Value} {rest : List UInt8}
    (hread : s.reading operation = .complete v rest)
    (hthrown : (callWith servers { s with stack } operation.onResult v rest).thrown = none) :
    (callWith servers { s with stack } operation.onResult v rest).Located servers := by
  obtain ⟨hactive, hnone⟩ := hexclusive.alone hstack
  obtain ⟨handler, hhandler⟩ := Option.isSome_iff_exists.mp hwaits
  have hheader := hread
  rw [reading, hkind] at hheader
  obtain ⟨n, tail, -, -, -, -, -, rfl⟩ := requestHeader_complete hheader
  rw [hkind] at hthrown ⊢
  unfold callWith call Side.onRequestHeader at hthrown ⊢
  dsimp only [Side.assert, note] at hthrown ⊢
  rw [hhandler] at hthrown ⊢
  dsimp only at hthrown ⊢
  unfold Side.onRequest at hthrown ⊢
  dsimp only at hthrown ⊢
  split at hthrown
  · cases hthrown
  · next m hfind =>
    refine h.completed hactive hread rfl rfl ?_
      (k := .argument (UInt64.ofNat (BigEndian.ofBytes ((operation.seen ++ s.buffer).take 8)))
        (tail.take n.toNat) m handler) ?_ ?_ rfl fun opening hopening => ?_
    · rw [popped_desk hstack]
      rfl
    · rw [beginParseValue_active]
      exact congrArg _ hnone
    · exact (List.append_eq_nil_iff.mp hnone).2
    · rw [hkind] at hopening ⊢
      cases hopening
      exact .argument hfind

/-- `parse_operation::start`. -/
theorem Located.start (h : s.Located servers) (hlistening : s.Listening servers)
    (hexclusive : s.Exclusive) {operation : ParseOperation} {stack : List Frame}
    (hstack : s.stack = .start operation :: stack)
    (hunlocked : operation.onResult.isHeader = false → s.desk.unlocked = [])
    (hthrown : (Side.start servers { s with stack } operation).thrown = none)
    (hnext : (Side.start servers { s with stack } operation).Exclusive) :
    (Side.start servers { s with stack } operation).Located servers := by
  obtain ⟨hactive, hnone⟩ := hexclusive.alone hstack
  have hmem : operation ∈ s.active := by rw [hactive]; exact List.mem_singleton_self _
  have hserves : operation.onResult.serves servers :=
    hlistening.frames (.start operation) (hstack ▸ List.mem_cons_self)
  have hwaits := hlistening.waits hmem
  have hpopped : (desk { s with stack }).unlocked = s.desk.unlocked := by
    rw [popped_desk hstack]
    rfl
  have hreading : operation.onResult.parserType.parse
      (operation.seen ++ (Side.buffer { s with stack })) = s.reading operation := rfl
  rw [start_eq servers _ (h.sound operation hmem), hreading] at hthrown hnext ⊢
  cases hread : s.reading operation with
  | complete v rest =>
    rw [hread] at hthrown hnext
    cases hkind : operation.onResult with
    | messageType =>
      have hlocated := h.messageType hlistening hstack hexclusive hkind
        (hwaits (by rw [hkind]; rfl)) hread
      rwa [hkind] at hlocated
    | request =>
      have hlocated := h.requestHeader hstack hexclusive hkind (hwaits (by rw [hkind]; rfl)) hread
        hthrown
      rwa [hkind] at hlocated
    | argument id name m handler =>
      rw [hkind] at hthrown hnext hunlocked
      have hcompleted : (Side.push (entered { s with stack } (.argument id name m handler) v rest)
          [.argumentUnlocked id name m handler (.ok v)]).Located servers := by
        refine h.argument hactive hkind hread (hunlocked rfl) rfl rfl ?_ hnone rfl
        exact congrArg (_ :: ·) (hpopped.trans (hunlocked rfl))
      exact hcompleted.begins (unlockInput_begins hthrown) hnext
    | response | result =>
      rw [hkind] at hserves
      exact hserves.elim
  | more parser =>
    have hframes : stack.flatMap Frame.operation = [] := (List.append_eq_nil_iff.mp hnone).1
    have hreads : s.reads = [] := (List.append_eq_nil_iff.mp hnone).2
    have hnew (operation' : ParseOperation) :
        Side.active { s with stack, buffer := [], reads := s.reads ++ [operation'] } =
          [operation'] := by
      simp only [Side.active, hframes, hreads, List.nil_append]
    obtain ⟨mid, opening, hfound, hopening, hbefore⟩ := h.found
    rw [parsing, hactive] at hopening
    rw [unread, hactive, List.flatMap_singleton] at hbefore
    refine ⟨⟨mid, opening, ?_, ?_, ?_⟩, ?_, fun _ => rfl⟩
    · exact hpopped.symm ▸ hfound
    · rw [parsing, hnew]
      exact hopening
    · rw [unread, hnew, List.flatMap_singleton, List.append_nil]
      exact hbefore
    · rw [hnew]
      intro other hother
      rw [List.mem_singleton.mp hother]
      exact ParseOperation.sound_more hread
  | fail e =>
    rw [hread] at hthrown hnext
    cases e with
    | lengthError => cases hthrown
    | invalidInput =>
      refine Located.call_error (s := Side.fail { s with stack }) ?_ ?_ hserves hthrown hnext
      · refine h.stopped rfl rfl hpopped hnone ?_
        rw [unread, hactive, List.flatMap_singleton]
        exact List.suffix_append _ _
      · exact { hlistening.pop hstack with }

theorem Located.complete (h : s.Located servers) (handler : Nat) (ec : ErrorCode) :
    (s.complete handler ec).Located servers := by
  refine Located.push ?_ rfl rfl
  exact h.same rfl rfl rfl rfl rfl

theorem Located.continueWriter (h : s.Located servers) : s.continueWriter.Located servers := by
  have hnext (output : BufferedWriter Sent) :
      (Side.push { s with output } [.writer]).Located servers := by
    refine Located.push ?_ rfl rfl
    exact h.same rfl rfl rfl rfl rfl
  unfold Side.continueWriter
  dsimp only
  split
  · exact h
  · split
    · unfold onSent
      split
      · split_ifs
        · exact hnext _
        · refine Located.push ?_ rfl rfl
          exact (hnext _).same rfl rfl rfl rfl rfl
      · exact (hnext _).complete _ _
    · exact hnext _

/-- The last part of `message_splitter::on_error` takes the waiter away and calls it. -/
theorem Located.continueError (h : s.Located servers) {waiting : Bool} {ec : ErrorCode}
    (hthrown : (Side.continueError servers s waiting ec).thrown = none) :
    (Side.continueError servers s waiting ec).Located servers := by
  unfold Side.continueError at hthrown ⊢
  split_ifs at hthrown ⊢
  · split at hthrown
    · refine Located.complete ?_ _ ec
      exact h.same rfl rfl rfl rfl rfl
    · cases hthrown
  · exact h

theorem Located.resume (h : s.Located servers) (hserving : s.Serving servers)
    (hexclusive : s.Exclusive) {frame : Frame} {stack : List Frame}
    (hstack : s.stack = frame :: stack)
    (hunlocked : ∀ operation, frame = .start operation → operation.onResult.isHeader = false →
      s.desk.unlocked = [])
    (hthrown : (Side.resume servers { s with stack } frame).thrown = none)
    (hnext : (Side.resume servers { s with stack } frame).Exclusive) :
    (Side.resume servers { s with stack } frame).Located servers := by
  rcases hserving with hlistening | ⟨waiting, ec, rest, hfailing⟩
  · have hserves := hlistening.frames frame (hstack ▸ List.mem_cons_self)
    cases frame with
    | start operation =>
      exact h.start hlistening hexclusive hstack (hunlocked operation rfl) hthrown hnext
    | requestContinue continue_ =>
      have hresponse : s.waitingForResponse = false := hlistening.response
      unfold Side.resume continueRequest
      dsimp only
      rw [if_neg (by rw [hresponse]; simp)]
      exact h.pop hstack rfl rfl
    | errors handlers ec =>
      cases handlers with
      | nil => exact h.pop hstack rfl rfl
      | cons handler handlers =>
        refine Located.push ?_ rfl rfl
        refine Located.same (s := Side.push { s with stack } [.errors handlers ec]) ?_ rfl rfl rfl
          rfl rfl
        exact (h.pop hstack rfl rfl).push rfl rfl
    | argumentUnlocked id name m handler argument =>
      cases argument with
      | error ec => exact (h.pop hstack rfl rfl).complete handler ec
      | ok v =>
        -- the invocation moves from the frame to the implementation
        refine Located.push ?_ rfl rfl
        refine h.same rfl ?_ rfl rfl ?_
        · rw [popped_desk hstack]
          exact List.append_assoc _ _ _
        · rw [active, active, hstack]
          rfl
    | writer => exact (h.pop hstack rfl rfl).continueWriter
    | user => exact h.pop hstack rfl rfl
    | errorContinue | responseContinue | resultUnlocked | resultReady => exact hserves.elim
  · obtain ⟨rfl, rfl⟩ := List.cons.inj (hstack.symm.trans hfailing.stack_eq)
    exact (h.pop hstack rfl rfl).continueError hthrown

/-! The server, whatever has failed, until it throws. -/

/-- What holds of a server alone while it has not thrown. -/
structure Solitary (servers : InterfaceDefinition) (s : Side) : Prop where
  serving : s.Serving servers
  exclusive : s.Exclusive
  custody : s.Custody
  ordered : s.output.Ordered
  serial : s.Serial
  located : s.Located servers

theorem Solitary.servesOnly (h : s.Solitary servers) {event : Event}
    (halone : s.servesAlone event = true) : s.servesOnly event = true := by
  cases event with
  | call => cases halone
  | serve =>
    exact Option.isNone_iff_eq_none.mpr (h.custody.free h.ordered (servesAlone_polite halone))
  | _ => rfl

/-- The bytes that a read brings are those behind what its operation has seen. -/
theorem Located.read (h : s.Located servers) (hexclusive : s.Exclusive) {index : Nat}
    {bytes : List UInt8} {operation : ParseOperation} (hstack : s.stack = [])
    (hreads : s.reads[index]? = some operation)
    (hreceived : t.history.received = s.history.received ++ bytes)
    (hdispatched : t.invoked ++ t.desk.unlocked = s.invoked ++ s.desk.unlocked)
    (hbuffer : t.buffer = s.buffer ++ bytes) (hreads' : t.reads = s.reads.eraseIdx index)
    (hactive' : t.active =
      operation :: (s.stack.flatMap Frame.operation ++ s.reads.eraseIdx index)) :
    t.Located servers := by
  have hperm : s.active.Perm t.active := by
    rw [hactive']
    exact active_perm (t := { s with reads := s.reads.eraseIdx index }) hstack hreads rfl
  have hrest : s.stack.flatMap Frame.operation ++ s.reads.eraseIdx index = [] := by
    have hle := hexclusive.length_le.1
    rw [hperm.length_eq, hactive', List.length_cons] at hle
    exact List.length_eq_zero_iff.mp (by omega)
  rw [hrest] at hactive'
  have hactive : s.active = [operation] := List.perm_singleton.mp (hactive' ▸ hperm)
  have hempty : s.buffer = [] := h.buffer fun hnone => by rw [hnone] at hreads; cases hreads
  obtain ⟨mid, opening, hfound, hopening, hbefore⟩ := h.found
  rw [parsing, hactive] at hopening
  rw [unread, hactive, List.flatMap_singleton, hempty, List.append_nil] at hbefore
  refine ⟨⟨mid ++ bytes, opening, ?_, ?_, ?_⟩, ?_, fun hne => ?_⟩
  · rw [hreceived, hdispatched]
    exact hfound.append bytes
  · rw [parsing, hactive']
    exact hopening
  · rw [unread, hactive', hbuffer, hempty, List.flatMap_singleton, List.nil_append]
    exact hbefore.append bytes
  · rw [hactive', ← hactive]
    exact h.sound
  · exact (hne (hreads'.trans (List.append_eq_nil_iff.mp hrest).2)).elim

theorem Solitary.located_step {clients : InterfaceDefinition} {s' : Side} {event : Event}
    (h : s.Solitary servers) (halone : s.servesAlone event = true)
    (htaken : Taken clients servers s event s') (hthrown : s'.thrown = none)
    (hnext : s'.Exclusive) : s'.Located servers := by
  cases htaken with
  | call => cases halone
  | serve =>
    refine Located.begins (s := s.note _) ?_ (waitForRequest_begins hthrown) hnext
    exact h.located.same rfl rfl rfl rfl rfl
  | @answer index invocation result =>
    cases result with
    | error ec =>
      refine Located.complete ?_ _ ec
      exact h.located.same rfl rfl rfl rfl rfl
    | ok v =>
      unfold Side.answer
      dsimp only
      split_ifs
      · exact h.located.same rfl rfl rfl rfl rfl
      · refine Located.complete ?_ _ _
        exact h.located.same rfl rfl rfl rfl rfl
  | «return» hstack => exact h.located.pop hstack rfl rfl
  | @resume frame stack hstack =>
    refine h.located.resume h.serving h.exclusive hstack (fun operation hframe hpayload => ?_)
      hthrown hnext
    subst hframe
    cases hkind : operation.onResult with
    | argument id name m handler =>
      have htoken : (Frame.start operation).tokens.countP Token.isServe = 1 := by
        rw [Frame.tokens, hkind]
        rfl
      rw [popped_desk hstack]
      exact (h.custody.alone h.ordered h.serial hstack htoken).1
    | result expected =>
      rcases h.serving with hlistening | ⟨waiting, ec, rest, hfailing⟩
      · have hserves := hlistening.frames (.start operation) (hstack ▸ List.mem_cons_self)
        rw [Frame.serves, hkind] at hserves
        exact hserves.elim
      · cases hstack.symm.trans hfailing.stack_eq
    | messageType | response | request => rw [hkind] at hpayload; cases hpayload
  | read hstack hreads => exact h.located.read h.exclusive hstack hreads rfl rfl rfl rfl rfl
  | @readError index ec operation hstack hreads =>
    rcases h.serving with hlistening | ⟨waiting, ec', rest, hfailing⟩
    · have hmem := List.mem_of_getElem? hreads
      have hopened := h.exclusive.opened (active_perm hstack hreads rfl)
        (t := { s.fail with reads := s.reads.eraseIdx index }) rfl
      refine Located.call_error (s := { s.fail with reads := s.reads.eraseIdx index }) ?_ ?_
        (hlistening.reads operation hmem) hthrown hnext
      · refine h.located.stopped rfl rfl rfl hopened.active ?_
        exact List.suffix_append _ _
      · exact { hlistening.without index with }
    · cases hstack.symm.trans hfailing.stack_eq
  | written hstack hwritten =>
    refine Located.push ?_ rfl rfl
    exact h.located.same rfl rfl rfl rfl rfl

/-- Only `serve_one_request` creates a handler. -/
theorem serves_step {clients : InterfaceDefinition} {s' : Side} {event : Event}
    (htaken : Taken clients servers s event s') :
    s'.history.serves = s.history.serves ∨
      event = .serve ∧ s'.history.serves = s.history.serves + 1 := by
  have hserves {t u : Side} (h : t.diary = u.diary) : t.history.serves = u.history.serves :=
    congrArg (fun d => d.2.2.2.2.1) h
  cases htaken with
  | call => exact .inl (congrArg (fun d => d.2.2.2.2.1) (request_diary s _ _ _))
  | serve =>
    exact .inr ⟨rfl, (hserves (diary_of_ledger (ledger_eq (waitForRequest_record _ _)))).trans rfl⟩
  | @answer index invocation result =>
    cases result with
    | error ec => exact .inl rfl
    | ok v =>
      unfold answer
      dsimp only
      split_ifs <;> exact .inl rfl
  | «return» => exact .inl rfl
  | resume => exact .inl (hserves (resume_diary servers _ _))
  | read => exact .inl rfl
  | readError =>
    exact .inl ((hserves (diary_of_ledger (ledger_eq (call_record _ _ _ _)))).trans rfl)
  | written => exact .inl rfl

theorem Serial.step {clients : InterfaceDefinition} {s' : Side} {event : Event} (h : s.Serial)
    (hstep : Side.step clients servers s event = some s') (hserve : event = .serve → s.Served) :
    s'.Serial := by
  intro n hn
  refine ((served_step hstep).map Prod.fst).subset ?_
  rcases serves_step (taken_of_step hstep).2 with hsame | ⟨hevent, hnext⟩
  · exact h n (hsame ▸ hn)
  · exact hserve hevent n (by omega)

theorem Solitary.step {clients : InterfaceDefinition} {s' : Side} {event : Event}
    (h : s.Solitary servers) (halone : s.servesAlone event = true)
    (hstep : Side.step clients servers s event = some s') (hthrown : s'.thrown = none) :
    s'.Solitary servers := by
  obtain ⟨-, htaken⟩ := taken_of_step hstep
  have hexclusive := exclusive_step clients servers s event s' h.exclusive hstep
  obtain ⟨hthrows, hserves⟩ := step_serving h.serving h.exclusive h.ordered (h.servesOnly halone)
    htaken
  have hpeaceful : s.hostile servers event = false := by
    by_contra hhostile
    exact hthrows (by simpa using hhostile) hthrown
  have hserved (hserve : event = .serve) : s.Served := by
    subst hserve
    exact servesAlone_polite halone
  refine ⟨hserves hpeaceful, hexclusive, ?_, ?_, h.serial.step hstep hserved,
    h.located_step halone htaken hthrown hexclusive⟩
  · refine custody_step h.custody hstep hthrown (fun name arguments hcall => ?_)
      fun hserve => h.custody.free h.ordered (hserved hserve)
    rw [hcall] at halone
    cases halone
  · exact BufferedWriter.ordered_step.reaches h.ordered
      (output_component clients servers s event s' hstep)

/-- The step that throws reads something, and dispatches nothing. -/
theorem Solitary.throws {clients : InterfaceDefinition} {s' : Side} {event : Event}
    (h : s.Solitary servers) (halone : s.servesAlone event = true)
    (htaken : Taken clients servers s event s') (hthrown : s'.thrown ≠ none) :
    s'.invoked = s.invoked ∧ s'.history.received = s.history.received := by
  have hhostile : s.hostile servers event = true := by
    by_contra hnot
    rcases (step_serving h.serving h.exclusive h.ordered (h.servesOnly halone) htaken).2
      (by simpa using hnot) with hlistening | ⟨waiting, ec, stack, hfailing⟩
    · exact hthrown hlistening.thrown
    · exact hthrown hfailing.listening.thrown
  cases htaken with
  | @resume frame stack hstack =>
    rw [hostile, hstack] at hhostile
    cases frame with
    | start operation =>
      have hledger := start_ledger servers { s with stack } operation
      exact ⟨congrArg (fun l => l.2.2.1) hledger, congrArg (fun l => l.2.2.2.2.1) hledger⟩
    | _ => cases hhostile
  | _ => cases hhostile

omit [Platform] in
structure Dormant (s : Side) : Prop where
  response : s.waitingForResponse = false
  reads : s.reads = []
  frames : ∀ frame ∈ s.stack, frame.isInert = true

omit [Platform] in
theorem Dormant.push (h : s.Dormant) {frame : Frame} (hinert : frame.isInert = true) :
    (s.push [frame]).Dormant := by
  refine ⟨h.response, h.reads, fun other hother => ?_⟩
  rcases List.mem_cons.mp hother with rfl | hrest
  · exact hinert
  · exact h.frames other hrest

omit [Platform] in
theorem Dormant.same (h : s.Dormant) (hresponse : t.waitingForResponse = s.waitingForResponse)
    (hreads : t.reads = s.reads) (hstack : t.stack = s.stack) : t.Dormant :=
  ⟨hresponse ▸ h.response, hreads ▸ h.reads, hstack ▸ h.frames⟩

omit [Platform] in
theorem Dormant.pop (h : s.Dormant) {frame : Frame} {stack : List Frame}
    (hstack : s.stack = frame :: stack) : Dormant { s with stack } :=
  ⟨h.response, h.reads, fun other hother => h.frames other (hstack ▸ List.mem_cons_of_mem _ hother)⟩

omit [Platform] in
theorem Dormant.complete (h : s.Dormant) (handler : Nat) (ec : ErrorCode) :
    (s.complete handler ec).Dormant := by
  refine Dormant.push ?_ rfl
  exact h.same rfl rfl rfl

omit [Platform] in
theorem Dormant.throw (h : s.Dormant) (e : Exception) : (s.throw e).Dormant :=
  ⟨h.response, h.reads, nofun⟩

omit [Platform] in
theorem Dormant.continueWriter (h : s.Dormant) : s.continueWriter.Dormant := by
  have hnext (output : BufferedWriter Sent) : (Side.push { s with output } [.writer]).Dormant := by
    refine Dormant.push ?_ rfl
    exact h.same rfl rfl rfl
  unfold Side.continueWriter
  dsimp only
  split
  · exact h
  · split
    · unfold onSent
      split
      · split_ifs
        · exact hnext _
        · refine Dormant.push ?_ rfl
          exact (hnext _).same rfl rfl rfl
      · exact (hnext _).complete _ _
    · exact hnext _

omit [Platform] in
theorem Dormant.continueError (h : s.Dormant) (servers : InterfaceDefinition) (waiting : Bool)
    (ec : ErrorCode) : (Side.continueError servers s waiting ec).Dormant := by
  unfold Side.continueError
  split_ifs
  · split
    · refine Dormant.complete ?_ _ ec
      exact h.same rfl rfl rfl
    · exact h.throw _
  · exact h

theorem Dormant.resume (h : s.Dormant) (servers : InterfaceDefinition) {frame : Frame}
    {stack : List Frame} (hstack : s.stack = frame :: stack) :
    (Side.resume servers { s with stack } frame).Dormant ∧
      (Side.resume servers { s with stack } frame).invoked = s.invoked := by
  have hinert := h.frames frame (hstack ▸ List.mem_cons_self)
  have hpop := h.pop hstack
  refine ⟨?_, (resume_implementation servers { s with stack } frame ?_).1⟩
  · cases frame with
    | requestContinue continue_ =>
      have hresponse : s.waitingForResponse = false := h.response
      unfold Side.resume continueRequest
      dsimp only
      rw [if_neg (by rw [hresponse]; simp)]
      exact hpop
    | errorContinue waiting ec => exact hpop.continueError servers waiting ec
    | errors handlers ec =>
      cases handlers with
      | nil => exact hpop
      | cons handler handlers =>
        refine Dormant.push ?_ rfl
        have herrors := hpop.push (show (Frame.errors handlers ec).isInert = true from rfl)
        exact herrors.same rfl rfl rfl
    | argumentUnlocked id name m handler argument =>
      cases argument with
      | error ec => exact hpop.complete handler ec
      | ok v => cases hinert
    | writer => exact hpop.continueWriter
    | user => exact hpop
    | start | responseContinue | resultUnlocked | resultReady => cases hinert
  · rintro id name m handler v rfl
    cases hinert

theorem Dormant.step {clients : InterfaceDefinition} {s' : Side} {event : Event} (h : s.Dormant)
    (hpassive : event.isPassive = true) (htaken : Taken clients servers s event s') :
    s'.Dormant ∧ s'.invoked = s.invoked := by
  cases htaken with
  | call | serve => cases hpassive
  | @answer index invocation result =>
    cases result with
    | error ec =>
      refine ⟨Dormant.complete ?_ _ ec, rfl⟩
      exact h.same rfl rfl rfl
    | ok v =>
      unfold answer
      dsimp only
      split_ifs
      · exact ⟨h.same rfl rfl rfl, rfl⟩
      · refine ⟨Dormant.complete ?_ _ _, rfl⟩
        exact h.same rfl rfl rfl
  | «return» hstack => exact ⟨h.pop hstack, rfl⟩
  | resume hstack => exact h.resume servers hstack
  | read _ hreads | readError _ hreads =>
    rw [h.reads] at hreads
    cases hreads
  | written hstack hwritten =>
    refine ⟨Dormant.push ?_ rfl, rfl⟩
    exact h.same rfl rfl rfl

theorem Dormant.run {clients : InterfaceDefinition} {s' : Side} {later : List Event} (h : s.Dormant)
    (hpassive : ∀ event ∈ later, event.isPassive = true)
    (hrun : Transition.run (Side.step clients servers) s later = some s') :
    s'.invoked = s.invoked := by
  induction later generalizing s with
  | nil =>
    cases hrun
    rfl
  | cons event later ih =>
    obtain ⟨t, hstep, hrest⟩ := run_cons.mp hrun
    obtain ⟨hdormant, hinvoked⟩ := h.step (hpassive event (by simp)) (taken_of_step hstep).2
    exact (ih hdormant (fun e he => hpassive e (by simp [he])) hrest).trans hinvoked

omit [Platform] in
/-- A server that parses nothing and has no call in hand. -/
theorem Listening.dormant (h : s.Listening servers) (hactive : s.active = [])
    (hunlocked : s.desk.unlocked = []) : s.Dormant := by
  obtain ⟨hframes, hreads⟩ := List.append_eq_nil_iff.mp hactive
  refine ⟨h.response, hreads, fun frame hframe => ?_⟩
  have hserves := h.frames frame hframe
  have hnone := List.flatMap_eq_nil_iff.mp hframes frame hframe
  have hinvocation := List.flatMap_eq_nil_iff.mp hunlocked frame hframe
  cases frame with
  | start => cases hnone
  | argumentUnlocked id name m handler argument =>
    cases argument with
    | error => rfl
    | ok => cases hinvocation
  | responseContinue | resultUnlocked | resultReady => exact hserves.elim
  | _ => rfl

omit [Platform] in
/-- An operation has stopped with an error, and nobody else waits. -/
theorem Dormant.call_error (h : s.Dormant) (hlistening : s.Listening servers) {k : Continuation}
    (hserves : k.serves servers) (hfree : k.isHeader = false → s.waitingForRequest = none)
    (ec : ErrorCode) : (call servers s k (.error ec)).Dormant := by
  have herror {u : Side} (hu : u.Dormant) (hl : u.Listening servers) : (u.onError ec).Dormant := by
    rw [hl.onError_eq]
    refine Dormant.push ?_ rfl
    exact hu.same rfl rfl rfl
  cases k with
  | messageType => exact herror h hlistening
  | request => exact herror (h.same rfl rfl rfl) { hlistening with }
  | argument id name m handler =>
    have hnone := hfree rfl
    unfold call unlockInput
    dsimp only
    rw [if_pos (by simp [Side.assert, note, Side.push, h.response, hnone])]
    refine Dormant.same (s := s.push [.argumentUnlocked id name m handler (.error ec)])
      ?_ rfl rfl rfl
    exact h.push rfl
  | response | result => exact hserves.elim

omit [Platform] in
/-- The handler that is called is that of the last `serve_one_request`. -/
theorem Serial.served (h : s.Serial) (hcustody : t.Custody) (hordered : t.output.Ordered)
    (hserves : t.history.serves = s.history.serves) {call : Nat × ErrorCode}
    (hserved : t.history.served = s.history.served ++ [call]) : t.Served := by
  have hnodup := hcustody.served_nodup hordered
  have hlt : call.1 < t.history.serves := by
    have hle := hcustody.le hordered (.serve call.1)
    rw [count_map_of_injective _ Prod.fst (fun _ _ => Token.serve.inj), hserved] at hle
    simp only [created, List.map_append, List.map_singleton, List.count_append,
      List.count_singleton_self] at hle
    split_ifs at hle with hlt
    · exact hlt
    · omega
  rw [hserved, List.map_append, List.map_singleton] at hnodup
  intro n hn
  rw [hserved, List.map_append, List.map_singleton, List.mem_append, List.mem_singleton]
  by_cases hearlier : n + 1 < s.history.serves
  · exact .inl (h n hearlier)
  · refine .inr ?_
    by_contra hne
    have hcall := h call.1 (by omega)
    exact (List.nodup_append.mp hnodup).2.2 _ hcall _ (List.mem_singleton_self _) rfl

omit [Platform] in
theorem Listening.serves_active (h : s.Listening servers) {operation : ParseOperation}
    (hmem : operation ∈ s.active) : operation.onResult.serves servers := by
  rcases List.mem_append.mp hmem with hframe | hread
  · obtain ⟨frame, hstack, hoperation⟩ := List.mem_flatMap.mp hframe
    have hserves := h.frames frame hstack
    cases frame with
    | start other =>
      rw [List.mem_singleton.mp hoperation]
      exact hserves
    | _ => cases hoperation
  · exact h.reads operation hread

omit [Platform] in
theorem mem_held_active {operation : ParseOperation} (hmem : operation ∈ s.active) {t : Token}
    (ht : t ∈ operation.onResult.tokens) : t ∈ s.held := by
  simp only [held, List.mem_append, List.mem_flatMap]
  rcases List.mem_append.mp hmem with hframe | hread
  · obtain ⟨frame, hstack, hoperation⟩ := List.mem_flatMap.mp hframe
    refine .inl (.inl (.inl (.inl ⟨frame, hstack, ?_⟩)))
    cases frame with
    | start other =>
      rw [List.mem_singleton.mp hoperation] at ht
      exact ht
    | _ => cases hoperation
  · exact .inl (.inl (.inl (.inr ⟨operation, hread, ht⟩)))

/-- Once every handler has been called nothing is left to dispatch. -/
theorem Solitary.dormant (h : s.Solitary servers) (hlistening : s.Listening servers)
    (hserved : s.Served) : s.Dormant := by
  have hheld := h.custody.not_held h.ordered hserved
  refine hlistening.dormant (List.eq_nil_iff_forall_not_mem.mpr fun operation hmem => ?_) ?_
  · have hserves := hlistening.serves_active hmem
    have hwaits := hlistening.waits hmem
    rw [h.custody.free h.ordered hserved] at hwaits
    cases hkind : operation.onResult with
    | argument id name m handler =>
      refine hheld handler (mem_held_active hmem ?_)
      rw [hkind]
      exact List.mem_singleton_self _
    | messageType | response | request => exact absurd (hwaits (by rw [hkind]; rfl)) nofun
    | result expected => rw [hkind] at hserves; exact hserves
  · refine List.flatMap_eq_nil_iff.mpr fun frame hframe => ?_
    cases frame with
    | argumentUnlocked id name m handler argument =>
      refine (hheld handler ?_).elim
      simp only [held, List.mem_append, List.mem_flatMap]
      exact .inl (.inl (.inl (.inl ⟨_, hframe, List.mem_singleton_self _⟩)))
    | _ => rfl

omit [Platform] in
/-- Nothing is about to be dispatched while somebody waits. -/
theorem Custody.unlocked_nil (hs : s.Custody) (h : s.output.Ordered) (hserial : s.Serial)
    (hwaiting : s.waitingForRequest.isSome = true) : s.desk.unlocked = [] := by
  obtain ⟨handler, hhandler⟩ := Option.isSome_iff_exists.mp hwaiting
  have hsingle := hs.single h hserial
  have hle := invocation_le s.stack
  simp only [held, hhandler, Option.toList_some, List.map_cons, List.map_nil, List.countP_append,
    List.countP_cons, Token.isServe, if_true] at hsingle
  rw [inFrames] at hle
  exact List.length_eq_zero_iff.mp (by change (s.stack.flatMap Frame.invocation).length = 0; omega)

theorem Solitary.listening (h : s.Solitary servers) (hcalm : s.Calm) : s.Listening servers := by
  rcases h.serving with hlistening | ⟨waiting, ec, stack, hfailing⟩
  · exact hlistening
  · have herror := hcalm.frames (.errorContinue waiting ec)
      (hfailing.stack_eq ▸ List.mem_cons_self)
    cases herror

/-- The step has called the handler of the last `serve_one_request`. -/
theorem Solitary.completed (h : s.Solitary servers) (hserial : t.Serial)
    (hserves : s.history.serves = t.history.serves) {call : Nat × ErrorCode}
    (hserved : s.history.served = t.history.served ++ [call])
    (hstack : s.stack.head? = some .user) : s.Dormant := by
  rcases h.serving with hlistening | ⟨waiting, ec, stack, hfailing⟩
  · exact h.dormant hlistening (hserial.served h.custody h.ordered hserves hserved)
  · rw [hfailing.stack_eq] at hstack
    cases hstack

omit [Platform] in
theorem Phase.awaited_of (h : s.Phase) {operation : ParseOperation}
    (hactive : s.active = [operation]) : s.awaited operation.onResult = true := by
  cases h with
  | idle active =>
    rw [active] at hactive
    cases hactive
  | header active _ awaited | payload active _ awaited =>
    rw [active, List.cons.injEq] at hactive
    rwa [hactive.1] at awaited

omit [Platform] in
theorem awaited_payload {k : Continuation} (hawaited : s.awaited k = true)
    (hserves : k.serves servers) (hkind : k.isHeader = false) : s.waitingForRequest = none := by
  cases k with
  | argument => exact Option.isNone_iff_eq_none.mp hawaited
  | messageType | response | request => cases hkind
  | result => exact hserves.elim

/-- A parse operation that stops a regular server leaves nothing behind that dispatches. -/
theorem Solitary.stopped (h : s.Solitary servers) (hcalm : s.Calm) {operation : ParseOperation}
    {stack : List Frame} (hstack : s.stack = .start operation :: stack) :
    Listening servers { s with stack } ∧ Dormant { s with stack } ∧
      operation.onResult.serves servers ∧
      (operation.onResult.isHeader = false → s.waitingForRequest = none) := by
  have hlistening := h.listening hcalm
  have hready := hcalm.ready hstack
  have hmem : operation ∈ s.active := by
    rw [hcalm.alone hstack]
    exact List.mem_singleton_self _
  have hserves := hlistening.serves_active hmem
  have hfree := awaited_payload hready.awaited hserves
  refine ⟨hlistening.pop hstack, (hlistening.pop hstack).dormant hready.active ?_, hserves, hfree⟩
  cases hkind : operation.onResult with
  | argument id name m handler =>
    have htoken : (Frame.start operation).tokens.countP Token.isServe = 1 := by
      rw [Frame.tokens, hkind]
      rfl
    exact (h.custody.alone h.ordered h.serial hstack htoken).1
  | messageType | response | request =>
    have hunlocked := h.custody.unlocked_nil h.ordered h.serial
      (hlistening.waits hmem (by rw [hkind]; rfl))
    rw [popped_desk hstack] at hunlocked
    exact hunlocked
  | result expected => rw [hkind] at hserves; exact hserves.elim

theorem start_reading (servers : InterfaceDefinition) (s : Side) {operation : ParseOperation}
    (h : operation.Sound) :
    s.start servers operation =
      match s.reading operation with
      | .complete v rest => s.callWith servers operation.onResult v rest
      | .more parser =>
        { s with buffer := [],
                 reads := s.reads ++
                   [{ operation with parser, seen := operation.seen ++ s.buffer }] }
      | .fail .invalidInput => s.fail.call servers operation.onResult (.error .invalidInput)
      | .fail .lengthError => s.throw .lengthError :=
  start_eq servers s h

theorem Solitary.disturbed (h : s.Solitary servers) (hcalm : s.Calm) {frame : Frame}
    {stack : List Frame} (hstack : s.stack = frame :: stack)
    (hdisturbed : Disturbed servers { s with stack } frame)
    (hnext : (Side.resume servers { s with stack } frame).Solitary servers)
    (hthrown : (Side.resume servers { s with stack } frame).thrown = none) :
    (Side.resume servers { s with stack } frame).Dormant := by
  have hlistening := h.listening hcalm
  cases hdisturbed with
  | @refused operation e reads =>
    obtain ⟨hpop, hdormant, hserves, hfree⟩ := h.stopped hcalm hstack
    change (Side.start servers { s with stack } operation).thrown = none at hthrown
    change (Side.start servers { s with stack } operation).Dormant
    rw [start_reading servers _ (hcalm.ready hstack).sound, reads] at hthrown ⊢
    cases e with
    | lengthError => cases hthrown
    | invalidInput =>
      refine Dormant.call_error (s := Side.fail { s with stack }) ?_ ?_ hserves hfree _
      · exact hdormant.same rfl rfl rfl
      · exact { hpop with }
  | @messageType operation n rest kind reads response request =>
    obtain ⟨hpop, hdormant, hserves, hfree⟩ := h.stopped hcalm hstack
    change (Side.start servers { s with stack } operation).Dormant
    rw [start_reading servers _ (hcalm.ready hstack).sound, reads, kind]
    change (Side.onMessageType (entered { s with stack } .messageType (.integer n) rest)
      (.ok (.integer n))).Dormant
    have hentered : Listening servers (entered { s with stack } .messageType (.integer n) rest) :=
      { hpop with }
    have hrefused : (Side.onError (entered { s with stack } .messageType (.integer n) rest)
        .invalidInput).Dormant := by
      have hbefore : (entered { s with stack } .messageType (.integer n) rest).Dormant :=
        hdormant.same rfl rfl rfl
      exact hbefore.call_error hentered (k := .messageType) trivial nofun _
    have hone : Value.integer n = .integer MessageType.response.toNat ↔ n = 1 := by
      rw [Value.integer.injEq]
      rfl
    have hzero : Value.integer n = .integer MessageType.request.toNat ↔ n = 0 := by
      rw [Value.integer.injEq]
      rfl
    unfold Side.onMessageType
    simp only [hone, hzero]
    split_ifs with hn hwaiting hm hwaiting
    · exact (response ⟨hn, hwaiting⟩).elim
    · exact hrefused
    · exact (request ⟨hm, hwaiting⟩).elim
    · exact hrefused
    · exact hrefused
  | stray kind =>
    have hserves := (h.stopped hcalm hstack).2.2.1
    rw [kind] at hserves
    exact hserves.elim
  | @unknown operation id name rest kind reads find =>
    exfalso
    have hready := hcalm.ready hstack
    have hawaited := hready.awaited
    rw [kind] at hawaited
    obtain ⟨handler, hhandler⟩ := Option.isSome_iff_exists.mp hawaited
    change s.waitingForRequest = some handler at hhandler
    change (Side.start servers { s with stack } operation).thrown = none at hthrown
    rw [start_reading servers _ hready.sound, reads, kind] at hthrown
    unfold callWith call Side.onRequestHeader at hthrown
    dsimp only [Side.assert, note] at hthrown
    rw [hhandler] at hthrown
    dsimp only at hthrown
    unfold Side.onRequest at hthrown
    dsimp only at hthrown
    rw [find] at hthrown
    cases hthrown
  | @writeError handler handlers ec stack' ec_ne top =>
    obtain ⟨call, hcall, rfl⟩ := calls_back_sent h.ordered top
    obtain ⟨n, -, hn⟩ := hlistening.sent call hcall
    have heq : ∃ u : Side, Side.resume servers { s with stack } .writer = u.complete n ec ∧
        u.history = s.history := by
      unfold Side.resume Side.continueWriter
      change s.output.stack = _ at top
      simp only [BufferedWriter.proceed, top, hn]
      exact ⟨_, rfl, rfl⟩
    obtain ⟨u, hu, hhistory⟩ := heq
    rw [hu] at hnext ⊢
    have hserved : (u.complete n ec).history.served = s.history.served ++ [(n, ec)] := by
      change u.history.served ++ [(n, ec)] = s.history.served ++ [(n, ec)]
      rw [hhistory]
    refine hnext.completed h.serial ?_ hserved rfl
    change u.history.serves = s.history.serves
    rw [hhistory]

end Side

end Warpcoil
