import Warpcoil.Replies

/-! A client that is alone with its splitter, and a peer that answers the calls which are
pending, in any order: nothing fails, and every handler gets the result of its own call. -/
namespace Warpcoil
open Incremental Transition

namespace BufferedWriter
variable {η : Type*}

/-- Only writes that succeeded are being reported. -/
def Quiet (w : BufferedWriter η) : Prop :=
  ∀ handlers ec, SendFrame.onResult handlers ec ∈ w.stack → ec = .success

theorem Quiet.of_stack {w v : BufferedWriter η} (h : w.Quiet) (hstack : v.stack = w.stack) :
    v.Quiet := by
  intro handlers ec hmem
  exact h handlers ec (hstack ▸ hmem)

theorem sendBuffer_stack (w : BufferedWriter η) (onResult : η) :
    (w.sendBuffer onResult).stack = w.stack := by
  unfold sendBuffer
  dsimp only
  split <;> rfl

theorem Quiet.proceed {w v : BufferedWriter η} (h : w.Quiet) (hproceed : w.proceed = some v) :
    v.Quiet := by
  unfold BufferedWriter.proceed at hproceed
  split at hproceed
  · cases hproceed
  · next ec stack hstack =>
    cases hproceed
    intro handlers ec hmem
    exact h handlers ec (hstack ▸ List.mem_cons_of_mem _ hmem)
  · next handler handlers ec stack hstack =>
    cases hproceed
    intro others ec' hmem
    rcases List.mem_cons.mp hmem with htop | hrest
    · cases htop
      exact h (handler :: handlers) ec (hstack ▸ List.mem_cons_self)
    · exact h others ec' (hstack ▸ List.mem_cons_of_mem _ hrest)
  · next queue stack hstack =>
    cases hproceed
    intro handlers ec hmem
    exact h handlers ec (hstack ▸ List.mem_cons_of_mem _ hmem)

theorem finishSend_frame {w : BufferedWriter η} {ec : ErrorCode} {queue : Nat}
    {onResult handlers : List η} {ec' : ErrorCode}
    (h : SendFrame.onResult handlers ec' ∈ (w.finishSend ec queue onResult).stack) :
    ec' = ec ∨ SendFrame.onResult handlers ec' ∈ w.stack := by
  unfold finishSend at h
  split_ifs at h <;>
    simp only [List.mem_cons, SendFrame.onResult.injEq, reduceCtorEq, false_or] at h
  all_goals
    rcases h with ⟨-, hec⟩ | hrest
    · exact .inl hec
    · exact .inr hrest

theorem Quiet.written {w v : BufferedWriter η} (h : w.Quiet) {index transferred : Nat}
    (hwritten : w.step (.written index transferred .success) = some v) : v.Quiet := by
  simp only [BufferedWriter.step] at hwritten
  split at hwritten
  · split_ifs at hwritten
    cases hwritten
    intro handlers ec hmem
    rcases finishSend_frame hmem with hec | hold
    · exact hec
    · exact h handlers ec hold
  · cases hwritten

end BufferedWriter

/-- What a handler is given when a response is read. -/
def Reply.part (reply : Reply) : Continuation → Option Value
  | .messageType => some (.integer 1)
  | .response => some (.integer reply.id.toNat)
  | .result _ => some reply.value
  | .request | .argument _ _ _ _ => none

def Frame.Rests (frame : Frame) : Prop := frame.operation = [] ∧ frame.results = 0

namespace Side
variable [Platform]

/-- The next thing that happens is that the header of a response has been read. -/
def readsResponse (s : Side) : Bool :=
  match s.stack with
  | .start operation :: _ =>
    match operation.onResult, s.reading operation with
    | .response, .complete _ _ => true
    | _, _ => false
  | _ => false

omit [Platform] in
def isPending (s : Side) (id : RequestId) : Bool :=
  s.expectedResponses.any fun e => decide (e.1 = id)

/-- The peer answers calls that are pending when the header of the response is read, nothing
fails underneath, and nobody serves. -/
def responds (replies : List Reply) (s : Side) : Event → Bool
  | .call _ _ => decide (s.history.calls.length < 2 ^ 64)
  | .serve | .readError _ _ => false
  | .read _ bytes => decide (s.history.received ++ bytes <+: Reply.stream replies)
  | .resume => !s.readsResponse || (replies[s.history.parsed.length / 3]?).all fun reply =>
      reply.answers s.history.calls && s.isPending reply.id
  | .written _ _ ec => decide (ec = .success)
  | .answer _ _ | .return => true

/-- What the matching of responses asks of an event. -/
def Fed (replies : List Reply) (s : Side) : Event → Prop
  | .call _ _ => s.history.calls.length < 2 ^ 64
  | .read _ bytes => s.history.received ++ bytes <+: Reply.stream replies
  | .resume => s.readsResponse = true →
      ∀ reply, replies[s.history.parsed.length / 3]? = some reply →
        reply.answers s.history.calls = true ∧ s.isPending reply.id = true
  | .serve | .answer _ _ | .return | .readError _ _ | .written _ _ _ => True

theorem responds_fed {replies : List Reply} {s : Side} {event : Event}
    (h : responds replies s event = true) : s.Fed replies event := by
  cases event with
  | call name arguments =>
    have hlt : s.history.calls.length < 2 ^ 64 := of_decide_eq_true h
    exact hlt
  | read index bytes =>
    have hstream : s.history.received ++ bytes <+: Reply.stream replies := of_decide_eq_true h
    exact hstream
  | resume =>
    intro hreads reply hreply
    rw [responds, hreads, hreply] at h
    simpa using h
  | _ => trivial

/-- What a step can add to the records of a side. -/
structure Recorded (s : Side) (event : Event) (s' : Side) : Prop where
  received : s'.history.received = s.history.received ∨
    ∃ index bytes, event = .read index bytes ∧
      s'.history.received = s.history.received ++ bytes
  calls : s'.history.calls = s.history.calls ∨
    ∃ name arguments call, event = .call name arguments ∧
      s'.history.calls = s.history.calls ++ [call]
  parsed : s'.history.parsed = s.history.parsed ∨
    ∃ operation stack v rest, event = .resume ∧ s.stack = .start operation :: stack ∧
      s.reading operation = .complete v rest ∧
      s'.history.parsed = s.history.parsed ++ [⟨operation.onResult, v⟩]

theorem Recorded.same {s s' : Side} {event : Event}
    (hreceived : s'.history.received = s.history.received)
    (hcalls : s'.history.calls = s.history.calls)
    (hparsed : s'.history.parsed = s.history.parsed) : s.Recorded event s' :=
  ⟨.inl hreceived, .inl hcalls, .inl hparsed⟩

theorem Resumed.recorded {servers : InterfaceDefinition} {s s' : Side} {frame : Frame}
    {stack : List Frame} (hstack : s.stack = frame :: stack)
    (h : Resumed servers { s with stack } frame s') : s.Recorded .resume s' := by
  cases h with
  | @responseType operation rest kind reads waiting =>
    exact ⟨.inl rfl, .inl rfl, .inr ⟨_, _, _, _, rfl, hstack, reads, by rw [kind]; rfl⟩⟩
  | @requestType operation rest kind reads waiting =>
    exact ⟨.inl rfl, .inl rfl, .inr ⟨_, _, _, _, rfl, hstack, reads, by rw [kind]; rfl⟩⟩
  | @responseHeader operation rest id key expected kind reads find =>
    exact ⟨.inl rfl, .inl rfl, .inr ⟨_, _, _, _, rfl, hstack, reads, by rw [kind]; rfl⟩⟩
  | @requestHeader operation rest id name m handler kind reads waiting find =>
    exact ⟨.inl rfl, .inl rfl, .inr ⟨_, _, _, _, rfl, hstack, reads, by rw [kind]; rfl⟩⟩
  | @result operation expected v rest kind reads =>
    obtain ⟨hhistory, -, -⟩ := release_fields ((Side.entered { s with stack } (.result expected) v
      rest).push [.resultUnlocked expected.handler v])
    refine ⟨.inl ?_, .inl ?_, .inr ⟨_, _, _, _, rfl, hstack, reads, ?_⟩⟩
    · rw [hhistory]; rfl
    · rw [hhistory]; rfl
    · rw [hhistory, kind]; rfl
  | @argument operation id name m handler v rest kind reads =>
    obtain ⟨hhistory, -, -⟩ := release_fields ((Side.entered { s with stack }
      (.argument id name m handler) v rest).push [.argumentUnlocked id name m handler (.ok v)])
    refine ⟨.inl ?_, .inl ?_, .inr ⟨_, _, _, _, rfl, hstack, reads, ?_⟩⟩
    · rw [hhistory]; rfl
    · rw [hhistory]; rfl
    · rw [hhistory, kind]; rfl
  | @nextHeader handler v =>
    obtain ⟨hhistory, -, -⟩ := summon_fields
      (Side.push { s with stack } [.resultReady handler v]).awaitHeader
    apply Recorded.same <;> rw [hhistory] <;> rfl
  | _ => exact .same rfl rfl rfl

theorem Moved.recorded {clients servers : InterfaceDefinition} {s s' : Side} {event : Event}
    (h : Moved clients servers s event s') : s.Recorded event s' := by
  cases h with
  | refused | placed => exact ⟨.inl rfl, .inr ⟨_, _, _, rfl, rfl⟩, .inl rfl⟩
  | @awaited name m arguments =>
    obtain ⟨hhistory, -, -⟩ := summon_fields (s.placed name m arguments).awaitHeader
    refine ⟨.inl ?_, .inr ⟨name, arguments, ⟨s.nextRequestId, name, m, arguments,
      (requestMessage s.nextRequestId name m arguments).ok⟩, rfl, ?_⟩, .inl ?_⟩
    · rw [hhistory]; rfl
    · rw [hhistory]; rfl
    · rw [hhistory]; rfl
  | serve =>
    obtain ⟨hhistory, -, -⟩ := summon_fields s.awaitRequest
    apply Recorded.same <;> rw [hhistory] <;> rfl
  | answered | «return» | written => exact .same rfl rfl rfl
  | resume hstack hresumed => exact hresumed.recorded hstack
  | read => exact ⟨.inr ⟨_, _, rfl, rfl⟩, .inl rfl, .inl rfl⟩

/-- The writer of a calm side goes on as writers do. -/
theorem Moved.quiet {clients servers : InterfaceDefinition} {s s' : Side} {event : Event}
    (h : Moved clients servers s event s') (hquiet : s.output.Quiet)
    (hwritten : ∀ index transferred ec, event = .written index transferred ec → ec = .success) :
    s'.output.Quiet := by
  have hsummon (t : Side) : t.summon.output = t.output := by
    unfold summon
    split_ifs <;> rfl
  have hrelease (t : Side) : t.release.output = t.output := by
    unfold release
    split_ifs <;> rfl
  cases h with
  | refused => exact hquiet.of_stack rfl
  | placed | answered => exact hquiet.of_stack (BufferedWriter.sendBuffer_stack _ _)
  | awaited =>
    rw [hsummon]
    exact hquiet.of_stack (BufferedWriter.sendBuffer_stack _ _)
  | serve =>
    rw [hsummon]
    exact hquiet
  | «return» | read => exact hquiet
  | @written index transferred ec output hstack written =>
    obtain rfl := hwritten _ _ _ rfl
    exact hquiet.written written
  | resume hstack hresumed =>
    cases hresumed with
    | result | argument =>
      rw [hrelease]
      exact hquiet
    | nextHeader =>
      rw [hsummon]
      exact hquiet
    | writer proceeds => exact hquiet.proceed proceeds
    | responseSent proceeds => exact hquiet.proceed proceeds
    | _ => exact hquiet

/-- A client that has only met responses to its pending calls. -/
structure Client (servers : InterfaceDefinition) (replies : List Reply) (s : Side) : Prop where
  follows : s.Follows servers replies
  serves : s.history.serves = 0
  quiet : s.output.Quiet

theorem client_initial (servers : InterfaceDefinition) (replies : List Reply) :
    Client servers replies {} where
  follows := ⟨regular_initial servers, List.nil_prefix,
    fun _ _ _ hk => (Nat.not_succ_le_zero _ hk).elim, Nat.zero_le _⟩
  serves := rfl
  quiet := fun handlers ec hmem => by cases hmem

theorem Client.served {servers : InterfaceDefinition} {replies : List Reply} {s : Side}
    (h : s.Client servers replies) : s.Served := by
  intro n hn
  rw [h.serves] at hn
  cases hn

theorem Client.no_request {servers : InterfaceDefinition} {replies : List Reply} {s : Side}
    (h : s.Client servers replies) : s.waitingForRequest = none :=
  h.follows.regular.custody.free h.follows.regular.ordered h.served

/-- Nothing has been dispatched. -/
theorem Client.no_answer {servers : InterfaceDefinition} {replies : List Reply} {s : Side}
    (h : s.Client servers replies) : s.unanswered = [] := by
  refine List.eq_nil_iff_forall_not_mem.mpr fun index hindex => ?_
  have hlt := h.follows.regular.custody.bound index hindex
  refine h.follows.regular.custody.not_held h.follows.regular.ordered h.served
    (s.invoked.get ⟨index, hlt⟩).handler ?_
  simp only [held, List.mem_append, List.mem_flatMap]
  refine .inr ⟨index, hindex, ?_⟩
  rw [callback, List.getElem?_eq_getElem hlt]
  exact List.mem_singleton_self _

/-- What is left of the stream is what the running parser is for. -/
theorem Follows.parse {servers : InterfaceDefinition} {done left : List Reply} {s : Side}
    (h : s.Follows servers (done ++ left)) {more : List UInt8}
    (hposition : s.Position done left more) {k : Continuation} (hparsing : s.parsing = some k) :
    (k = .messageType ∧ left = [] ∧ s.unread ++ more = []) ∨ ∃ reply later bytes v tail,
      left = reply :: later ∧ s.unread ++ more = bytes ++ Reply.stream later ∧
      reply.part k = some v ∧ k.parserType.parse bytes = .complete v tail := by
  have hremains := hposition.remains
  have hlength := hposition.length
  rw [hparsing] at hremains hlength
  generalize s.unread ++ more = rest at hremains ⊢
  cases hremains with
  | messageType =>
    cases left with
    | nil => exact .inl ⟨rfl, rfl, rfl⟩
    | cons reply later =>
      have hparse : messageTypeParser.parse reply.bytes =
          .complete (.integer 1) (BigEndian.toBytes 8 reply.id.toNat ++ reply.payload) := by
        rw [Reply.bytes, messageHeader_eq]
        exact parse_type .response _
      exact .inr ⟨reply, later, _, _, _, rfl, rfl, rfl, hparse⟩
  | @response reply later left_eq =>
    refine .inr ⟨reply, later, _, _, _, left_eq, ?_, rfl, parse_id reply.id reply.payload⟩
    rw [List.append_assoc]
  | @result reply later expected left_eq key =>
    have hanswers : reply.answers s.history.calls = true := by
      refine h.answers done.length reply ?_ ?_
      · rw [left_eq, List.getElem?_append_right (Nat.le_refl _), Nat.sub_self]
        rfl
      · rw [hlength]
        exact Nat.le_refl _
    have hparse := (h.fits (mem_expectations_reading hparsing) hanswers key).2
    exact .inr ⟨reply, later, _, _, _, left_eq, rfl, rfl, hparse⟩

/-- So a parse operation that is started waits for more, or reads the next part of it. -/
theorem Follows.reads {servers : InterfaceDefinition} {done left : List Reply} {s : Side}
    (h : s.Follows servers (done ++ left)) {more : List UInt8}
    (hposition : s.Position done left more) {operation : ParseOperation} {stack : List Frame}
    (hstack : s.stack = .start operation :: stack) :
    s.parsing = some operation.onResult ∧
      ((∃ parser, s.reading operation = .more parser) ∨ ∃ reply later v rest,
        left = reply :: later ∧ reply.part operation.onResult = some v ∧
          s.reading operation = .complete v rest) := by
  have halone := h.regular.calm.alone hstack
  have hparsing : s.parsing = some operation.onResult := by rw [parsing, halone]; rfl
  have hunread : s.unread = operation.seen ++ s.buffer := by
    rw [unread, halone, List.flatMap_singleton]
  refine ⟨hparsing, ?_⟩
  rcases h.parse hposition hparsing with ⟨hk, -, hnil⟩ |
    ⟨reply, later, bytes, v, tail, hleft, hbytes, hpart, hparse⟩
  · left
    rw [hunread, List.append_eq_nil_iff] at hnil
    rw [reading, hnil.1, hk]
    exact ⟨_, rfl⟩
  · replace hparse := ParserType.parse_append hparse (Reply.stream later)
    rw [← hbytes, hunread] at hparse
    rcases ParserType.parse_of_append hparse with hmore | ⟨rest, hcomplete, -⟩
    · exact .inl hmore
    · exact .inr ⟨reply, later, v, rest, hleft, hpart, hcomplete⟩

omit [Platform] in
/-- The number of the response that is being read. -/
theorem Position.index {s : Side} {done left : List Reply} {more : List UInt8}
    (h : s.Position done left more) : s.history.parsed.length / 3 = done.length := by
  have hlength := h.length
  have hparts : Continuation.parts s.parsing ≤ 2 := by
    unfold Continuation.parts
    split <;> omega
  omega

theorem Position.answers {done left : List Reply} {s : Side} {more : List UInt8}
    (h : s.Position done left more) (hfed : s.Fed (done ++ left) .resume)
    {operation : ParseOperation}
    {stack : List Frame} (hstack : s.stack = .start operation :: stack)
    (hkind : operation.onResult = .response) {v : Value} {rest : List UInt8}
    (hread : s.reading operation = .complete v rest) {reply : Reply} {later : List Reply}
    (hleft : left = reply :: later) :
    reply.answers s.history.calls = true ∧ s.isPending reply.id = true := by
  have hreads : s.readsResponse = true := by
    obtain ⟨parser, k, seen⟩ := operation
    obtain rfl : k = .response := hkind
    rw [Side.readsResponse, hstack]
    dsimp only
    rw [hread]
  have hreply : (done ++ left)[done.length]? = some reply := by
    rw [List.getElem?_append_right (Nat.le_refl _), Nat.sub_self, hleft]
    rfl
  exact hfed hreads reply (h.index ▸ hreply)

/-- Nothing ends the calm of a side whose calls are answered, unless a response comes for
which nobody waits. -/
theorem Follows.undisturbed {servers : InterfaceDefinition} {replies : List Reply} {s : Side}
    (h : s.Follows servers replies) (hquiet : s.output.Quiet) (hfed : s.Fed replies .resume)
    {frame : Frame} {stack : List Frame} (hstack : s.stack = frame :: stack)
    (hwaiting : ∀ operation rest, frame = .start operation → operation.onResult = .messageType →
      s.reading operation = .complete (.integer 1) rest → s.waitingForResponse = true) :
    ¬ Disturbed servers { s with stack } frame := by
  obtain ⟨done, left, more, rfl, hposition⟩ := h.position
  intro hdisturbed
  cases hdisturbed with
  | @writeError handler handlers ec _ ec_ne top =>
    refine ec_ne (hquiet (handler :: handlers) ec ?_)
    rw [show s.output.stack = _ from top]
    exact List.mem_cons_self
  | @refused operation e reads =>
    have hreads : s.reading operation = .fail e := reads
    rcases (h.reads hposition hstack).2 with ⟨parser, hmore⟩ | ⟨_, _, _, _, _, _, hcomplete⟩
    · rw [hreads] at hmore; cases hmore
    · rw [hreads] at hcomplete; cases hcomplete
  | @messageType operation n rest kind reads response request =>
    have hreads : s.reading operation = .complete (.integer n) rest := reads
    rcases (h.reads hposition hstack).2 with ⟨parser, hmore⟩ |
      ⟨reply, later, v, tail, hleft, hpart, hcomplete⟩
    · rw [hreads] at hmore; cases hmore
    · rw [hreads, Reading.complete.injEq] at hcomplete
      rw [kind, ← hcomplete.1] at hpart
      obtain rfl : n = 1 := by simpa [Reply.part, eq_comm] using hpart
      exact response ⟨rfl, hwaiting operation rest rfl kind hreads⟩
  | @stray operation id rest kind reads find =>
    have hreads : s.reading operation = .complete (.integer id) rest := reads
    rcases (h.reads hposition hstack).2 with ⟨parser, hmore⟩ |
      ⟨reply, later, v, tail, hleft, hpart, hcomplete⟩
    · rw [hreads] at hmore; cases hmore
    · obtain ⟨-, hpending⟩ := hposition.answers hfed hstack kind hreads hleft
      rw [hreads, Reading.complete.injEq] at hcomplete
      rw [kind, ← hcomplete.1] at hpart
      have hid : id = reply.id.toNat := by simpa [Reply.part, eq_comm] using hpart
      obtain ⟨e, he, hkey⟩ := List.any_eq_true.mp hpending
      refine absurd (List.find?_eq_none.mp find e he) ?_
      rw [not_not, hid, UInt64.ofNat_toNat]
      exact hkey
  | @unknown operation id name rest kind reads find =>
    have hreads : s.reading operation = .complete (.tuple [.integer id, .utf8 name]) rest := reads
    rcases (h.reads hposition hstack).2 with ⟨parser, hmore⟩ |
      ⟨reply, later, v, tail, hleft, hpart, hcomplete⟩
    · rw [hreads] at hmore; cases hmore
    · rw [kind] at hpart; cases hpart

/-- A response whose header has been read answers its call from then on. -/
theorem Follows.answers_step {servers : InterfaceDefinition} {replies : List Reply} {s s' : Side}
    {event : Event} (h : s.Follows servers replies) (hrecorded : s.Recorded event s')
    (hfed : s.Fed replies event) {k : Nat} {reply : Reply}
    (hreply : replies[k]? = some reply) (hread : 3 * k + 2 ≤ s'.history.parsed.length) :
    reply.answers s'.history.calls = true := by
  have hold : reply.answers s.history.calls = true := by
    rcases hrecorded.parsed with hsame | ⟨operation, stack, v, rest, rfl, hstack, hreads, hnext⟩
    · exact h.answers k reply hreply (hsame ▸ hread)
    · rw [hnext, List.length_append, List.length_singleton] at hread
      by_cases hearlier : 3 * k + 2 ≤ s.history.parsed.length
      · exact h.answers k reply hreply hearlier
      · -- this step reads the header of the response
        obtain ⟨done, left, more, rfl, hposition⟩ := h.position
        obtain ⟨hparsing, hcase⟩ := h.reads hposition hstack
        have hindex := hposition.index
        have hlength := hposition.length
        have hk : k = done.length := by omega
        rcases hcase with ⟨parser, hmore⟩ | ⟨other, later, w, tail, hleft, hpart, -⟩
        · rw [hreads] at hmore
          cases hmore
        · have hkind : operation.onResult = .response := by
            rw [hparsing] at hlength
            cases hk : operation.onResult with
            | response => rfl
            | messageType | result => rw [hk, Continuation.parts] at hlength; omega
            | request | argument => rw [hk] at hpart; cases hpart
          obtain rfl : other = reply := by
            rw [hk, List.getElem?_append_right (Nat.le_refl _), Nat.sub_self, hleft] at hreply
            exact Option.some.inj hreply
          exact (hposition.answers hfed hstack hkind hreads hleft).1
  rcases hrecorded.calls with hsame | ⟨name, arguments, call, -, hnext⟩
  · rw [hsame]
    exact hold
  · rw [hnext]
    exact Reply.answers_append hold _

theorem Follows.moved {clients servers : InterfaceDefinition} {replies : List Reply}
    {s s' : Side} {event : Event} (h : s.Follows servers replies)
    (hmoved : Moved clients servers s event s') (hregular : s'.Regular servers)
    (hfed : s.Fed replies event) : s'.Follows servers replies := by
  have hrecorded := hmoved.recorded
  refine ⟨hregular, ?_, fun k reply => h.answers_step hrecorded hfed, ?_⟩
  · rcases hrecorded.received with hsame | ⟨index, bytes, rfl, hnext⟩
    · rw [hsame]
      exact h.received
    · rw [hnext]
      exact hfed
  · rcases hrecorded.calls with hsame | ⟨name, arguments, call, rfl, hnext⟩
    · rw [hsame]
      exact h.calls
    · have hlt : s.history.calls.length < 2 ^ 64 := hfed
      rw [hnext, List.length_append, List.length_singleton]
      omega

/-- A client waits for a response whenever it waits. -/
theorem Client.undisturbed {servers : InterfaceDefinition} {replies : List Reply} {s : Side}
    (h : s.Client servers replies) (hfed : s.Fed replies .resume) {frame : Frame}
    {stack : List Frame} (hstack : s.stack = frame :: stack) :
    ¬ Disturbed servers { s with stack } frame := by
  refine h.follows.undisturbed h.quiet hfed hstack fun operation rest hframe hkind hreads => ?_
  subst hframe
  have hawaited := (h.follows.regular.calm.ready hstack).awaited
  rw [hkind] at hawaited
  simpa [awaited, h.no_request] using hawaited

/-- A client whose calls are answered goes on without an error. -/
theorem Client.step {clients servers : InterfaceDefinition} {replies : List Reply} {s s' : Side}
    {event : Event} (h : s.Client servers replies)
    (hstep : Side.step clients servers s event = some s')
    (hresponds : responds replies s event = true) :
    Moved clients servers s event s' ∧ s'.Client servers replies := by
  have hpolite : s.Polite event := by
    cases event with
    | call name arguments =>
      have hlt : s.history.calls.length < 2 ^ 64 := of_decide_eq_true hresponds
      exact hlt
    | serve => cases hresponds
    | _ => trivial
  have hmoved : Moved clients servers s event s' ∧ s'.Regular servers := by
    rcases h.follows.regular.step hstep hpolite with hmoved | hupset
    · exact hmoved
    · cases hupset with
      | resume hstack hdisturbed =>
        exact (h.undisturbed (responds_fed hresponds) hstack hdisturbed).elim
      | readError => cases hresponds
      | answerError | answerRefused =>
        cases (taken_of_step hstep).2 with
        | answer runs invoked unanswered =>
          rw [h.no_answer] at unanswered
          cases unanswered
  obtain ⟨hmoved, hregular⟩ := hmoved
  refine ⟨hmoved, h.follows.moved hmoved hregular (responds_fed hresponds), ?_,
    hmoved.quiet h.quiet ?_⟩
  · rcases (moved_served hmoved).2 with hsame | ⟨rfl, -⟩
    · rw [hsame]
      exact h.serves
    · cases hresponds
  · rintro index transferred ec rfl
    exact of_decide_eq_true hresponds

/-- No frame parses, or holds the registry in the state `parsingResult`. -/
def Rests (s : Side) : Prop := ∀ frame ∈ s.stack, frame.Rests

omit [Platform] in
theorem Rests.active {s : Side} (h : s.Rests) : s.active = s.reads := by
  have hnone : s.stack.flatMap Frame.operation = [] :=
    List.flatMap_eq_nil_iff.mpr fun frame hframe => (h frame hframe).1
  rw [Side.active, hnone, List.nil_append]

omit [Platform] in
theorem Rests.results {s : Side} (h : s.Rests) (hreads : s.reads = []) : s.results = 0 := by
  have hzero : (s.stack.map Frame.results).sum = 0 := by
    refine List.sum_eq_zero_iff_forall_eq_nat.mpr fun n hn => ?_
    obtain ⟨frame, hframe, rfl⟩ := List.mem_map.mp hn
    exact (h frame hframe).2
  rw [Side.results, hzero, hreads]
  rfl

/-- A side that does not parse has read every response that it has received and that
belongs to a pending call. -/
theorem Follows.drained {servers : InterfaceDefinition} {done : List Reply} {next : Reply}
    {later : List Reply} {s : Side} (h : s.Follows servers (done ++ next :: later))
    {more : List UInt8} (hposition : s.Position done (next :: later) more) (hrests : s.Rests)
    (hreceived : (Reply.stream (done ++ [next])).length ≤ s.history.received.length) :
    s.reads = [] ∧ s.expectedResponses = [] := by
  have hcalm := h.regular.calm
  by_cases hreads : s.reads = []
  · refine ⟨hreads, ?_⟩
    obtain ⟨-, -, hresponse, -⟩ := hcalm.phase.idle_of (hrests.active.trans hreads)
    cases hcalm.registry with
    | notExpecting _ _ expected => exact expected
    | header _ response => rw [hresponse] at response; cases response
    | result _ _ results => rw [hrests.results hreads] at results; cases results
  · -- the operation that waits for more would have completed
    exfalso
    obtain ⟨k, parser, hparsing, hwaits⟩ := h.regular.waits hrests.active hreads
    rcases h.parse hposition hparsing with ⟨-, hnil, -⟩ |
      ⟨reply, rest, bytes, v, tail, hleft, hbytes, -, hparse⟩
    · cases hnil
    · obtain ⟨-, rfl⟩ := List.cons.inj hleft
      have htotal := congrArg List.length hposition.received
      have hsplit : Reply.stream (done ++ next :: later) =
          Reply.stream (done ++ [next]) ++ Reply.stream later := by
        rw [List.append_cons, Reply.stream, Reply.stream, Reply.stream, List.flatMap_append]
      rw [hsplit, List.length_append, List.length_append] at htotal
      have hlength := congrArg List.length hbytes
      rw [List.length_append, List.length_append] at hlength
      have hprefix : bytes <+: s.unread := by
        refine List.prefix_of_prefix_length_le ⟨_, rfl⟩ ⟨more, hbytes⟩ ?_
        omega
      obtain ⟨extra, hextra⟩ := hprefix
      have hcomplete := ParserType.parse_append hparse extra
      rw [hextra, hwaits] at hcomplete
      cases hcomplete

/-- The results that were read have been handed over, or wait in a frame. -/
theorem Follows.handed {servers : InterfaceDefinition} {replies : List Reply} {s : Side}
    (h : s.Follows servers replies) :
    ∃ done left more, replies = done ++ left ∧ s.Position done left more ∧
      (∀ reply ∈ done, reply.answers s.history.calls = true) ∧
      (s.history.completed.flatMap handedOver ++ s.books.inHand).Perm (done.map Reply.result) := by
  obtain ⟨done, left, more, rfl, hposition⟩ := h.position
  refine ⟨done, left, more, rfl, hposition, fun reply hreply => ?_, ?_⟩
  · obtain ⟨k, hk⟩ := List.getElem?_of_mem hreply
    have hlt := (List.getElem?_eq_some_iff.mp hk).1
    have hlength := hposition.length
    refine h.answers k reply ?_ (by omega)
    rw [List.getElem?_append_left hlt, hk]
  · have hresults := h.regular.books.results
    rw [show s.books.parsed = s.history.parsed from rfl, hposition.results] at hresults
    exact hresults.symm

end Side

end Warpcoil
