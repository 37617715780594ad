import Warpcoil.FailedWrite
import Warpcoil.Outgoing
import Warpcoil.Sharing

/-! A client at one end of a connection and a server at the other, joined by two byte streams that
lose, repeat and reorder nothing. -/
namespace Warpcoil
open Incremental Transition

theorem Books.Step.placed_pending {b b' : Books} (h : b.Step b')
    (hnext : b.nextRequestId = UInt64.ofNat b.calls.length) {call : Call}
    (hcalls : b'.calls = b.calls ++ [call]) (haccepted : call.accepted = true) :
    ∃ e ∈ b'.pending, e.1 = UInt64.ofNat b.calls.length := by
  cases h with
  | @refused other id accepted =>
    rw [List.append_cancel_left_eq, List.singleton_inj] at hcalls
    rw [hcalls, haccepted] at accepted
    cases accepted
  | placed id accepted fresh =>
    exact ⟨_, (Side.perm_insertExpected fresh).mem_iff.mpr List.mem_cons_self, hnext⟩
  | _ => simp at hcalls

namespace Side
variable [Platform]

theorem Asked.extend {servers : InterfaceDefinition} {stream stream' : List UInt8} {s : Side}
    (h : s.Asked servers stream) (hstream : stream <+: stream') : s.Asked servers stream' :=
  ⟨h.regular, h.received.trans hstream⟩

omit [Platform] in
theorem Position.parsed_le {s : Side} {done left : List Reply} {more : List UInt8}
    (h : s.Position done left more) :
    s.history.parsed.length ≤ 3 * (done ++ left).length := by
  have hlength := h.length
  have hremains := h.remains
  rw [List.length_append]
  cases left with
  | nil =>
    cases hk : s.parsing with
    | none => rw [hk, Continuation.parts] at hlength; omega
    | some k =>
      rw [hk] at hremains hlength
      generalize s.unread ++ more = rest at hremains
      cases hremains with
      | messageType => rw [Continuation.parts] at hlength; omega
      | response left_eq | result left_eq => cases left_eq
  | cons reply later =>
    have hparts : Continuation.parts s.parsing ≤ 2 := by
      unfold Continuation.parts
      split <;> omega
    rw [List.length_cons]
    omega

theorem Follows.extend {servers : InterfaceDefinition} {replies : List Reply} {s : Side}
    (h : s.Follows servers replies) (more : List Reply) : s.Follows servers (replies ++ more) := by
  refine ⟨h.regular, h.received.trans ?_, fun k reply hreply hread => ?_, h.calls⟩
  · rw [Reply.stream, Reply.stream, List.flatMap_append]
    exact List.prefix_append _ _
  · obtain ⟨done, left, rest, rfl, hposition⟩ := h.position
    have hle := hposition.parsed_le
    refine h.answers k reply ?_ hread
    rwa [List.getElem?_append_left (by omega)] at hreply

/-- All calls from the next one to be answered on are pending. -/
def StillPending (s : Side) : Prop :=
  ∀ n, (s.history.parsed.length + 1) / 3 ≤ n → n < s.history.calls.length →
    s.isPending (UInt64.ofNat n) = true

/-- The header that is read belongs to the response whose turn it is. -/
theorem Follows.header {servers : InterfaceDefinition} {replies : List Reply} {s s' : Side}
    {event : Event} (h : s.Follows servers replies) (hrecorded : s.Recorded event s') {n : Nat}
    (hparsed : s'.history.parsed = s.history.parsed ++ [⟨.response, .integer n⟩]) :
    ∃ k reply, s.history.parsed.length = 3 * k + 1 ∧ replies[k]? = some reply ∧
      UInt64.ofNat n = reply.id := by
  obtain ⟨done, left, more, rfl, hposition⟩ := h.position
  rcases hrecorded.parsed with hsame | ⟨operation, stack, v, rest, -, hstack, hreads, hnext⟩
  · rw [hsame] at hparsed
    simp at hparsed
  · rw [hnext, List.append_cancel_left_eq, List.singleton_inj, Parsed.mk.injEq] at hparsed
    obtain ⟨hkind, rfl⟩ := hparsed
    obtain ⟨hlength, reply, later, rfl, hid⟩ := hposition.header h hstack hkind hreads
    refine ⟨done.length, reply, hlength, ?_, hid⟩
    rw [List.getElem?_append_right (Nat.le_refl _), Nat.sub_self]
    rfl

/-- Responses in the order of the calls take the pending calls from the front. -/
theorem StillPending.moved {clients servers : InterfaceDefinition} {replies : List Reply}
    {s s' : Side} {event : Event} (h : s.StillPending) (hfollows : s.Follows servers replies)
    (hturn : ∀ (k : Nat) (reply : Reply), replies[k]? = some reply → reply.call = k)
    (hmoved : Moved clients servers s event s')
    (hfresh : ∀ name arguments, event = .call name arguments → s.Fresh)
    (haccepted : ∀ call ∈ s'.history.calls, call.accepted = true)
    (hcalls : s'.history.calls.length ≤ 2 ^ 64) : s'.StillPending := by
  intro n hturn' hn
  have hrecorded := hmoved.recorded
  have hbooks := hfollows.regular.calm.moved_books hmoved hfresh
  rw [isPending_iff]
  by_cases hold : n < s.history.calls.length
  · have hle : (s.history.parsed.length + 1) / 3 ≤ n := by
      have := hrecorded.parsed_le
      omega
    refine hbooks.keeps (isPending_iff.mp (h n hle hold)) fun m hheader => ?_
    change s'.history.parsed = s.history.parsed ++ [⟨.response, .integer m⟩] at hheader
    obtain ⟨k, reply, hlength, hreply, hid⟩ := hfollows.header hrecorded hheader
    rw [hheader, List.length_append, List.length_singleton, hlength] at hturn'
    rw [hid, Reply.id, hturn k reply hreply]
    exact Books.ofNat_ne (by omega) (by omega)
  · -- the call that has just been made
    rcases hrecorded.calls with hsame | ⟨name, arguments, call, rfl, hnext⟩
    · rw [hsame] at hn
      exact (hold hn).elim
    · have hlength := congrArg List.length hnext
      rw [List.length_append, List.length_singleton] at hlength
      obtain rfl : n = s.history.calls.length := by omega
      exact hbooks.placed_pending hfollows.regular.books.next hnext
        (haccepted call (by rw [hnext]; simp))

theorem Follows.reading {servers : InterfaceDefinition} {replies : List Reply} {s : Side}
    (h : s.Follows servers replies) (hreads : s.readsResponse = true) :
    s.history.parsed.length = 3 * (s.history.parsed.length / 3) + 1 := by
  obtain ⟨done, left, more, rfl, hposition⟩ := h.position
  unfold readsResponse at hreads
  split at hreads
  · next operation stack hstack =>
    split at hreads
    · next hkind _ =>
      have hlength := hposition.length
      rw [(h.reads hposition hstack).1, hkind, Continuation.parts] at hlength
      omega
    · cases hreads
  · cases hreads

theorem Client.extend {servers : InterfaceDefinition} {replies : List Reply} {s : Side}
    (h : s.Client servers replies) (more : List Reply) : s.Client servers (replies ++ more) :=
  ⟨h.follows.extend more, h.serves, h.quiet⟩

theorem Asked.on_time {servers : InterfaceDefinition} {stream : List UInt8} {s : Side}
    (h : s.Asked servers stream) {requests : List Request}
    (hstream : RequestStream servers stream requests) (hcalls : s.history.calls = []) :
    s.untimely = false := by
  have hexpected : s.expectedResponses = [] := by
    obtain ⟨-, -, -, hpending, -⟩ := h.approached.dispatched hstream
    rw [hcalls] at hpending
    exact List.length_eq_zero_iff.mp hpending
  have hresponse : s.waitingForResponse = false := by
    cases h.regular.calm.registry with
    | notExpecting _ response | result _ response => exact response
    | header _ _ expected => exact (expected hexpected).elim
  unfold untimely
  split
  · next operation stack hstack =>
    split
    · next hkind _ =>
      have hawaited := (h.regular.calm.ready hstack).awaited
      rw [hkind] at hawaited
      have hrequest : s.waitingForRequest.isSome = true := by
        simpa [awaited, hresponse] using hawaited
      rwa [Option.isNone_eq_false_iff]
    · rfl
  · rfl

end Side

structure Connection where
  client : Side := {}
  server : Side := {}

namespace Connection
open Side

inductive Event where
  | client (event : Side.Event)
  | server (event : Side.Event)

/-- A read brings the next bytes that the other end has handed to its writes, and nothing fails. -/
def carries (sender receiver : Side) : Side.Event → Bool
  | .read _ bytes => decide (receiver.history.received ++ bytes <+: sender.output.handed.flatten)
  | .readError _ _ => false
  | .written _ _ ec => decide (ec = .success)
  | .call _ _ | .serve | .answer _ _ | .return | .resume => true

/-- The client calls with arguments that can be encoded, and the implementation gives results that
can be. The server waits for the next request when it has completed the one before. -/
def intended [Platform] (definition : InterfaceDefinition) (c : Connection) : Event → Bool
  | .client (.call name arguments) => decide (c.client.history.calls.length < 2 ^ 64) &&
      (definition.find name).all fun m =>
        (requestMessage c.client.nextRequestId name m arguments).ok
  | .client .serve => false
  | .client _ => true
  | .server (.call _ _) => false
  | .server .serve => (List.range c.server.history.serves).all fun n =>
      (c.server.history.served.map Prod.fst).contains n
  | .server (.answer index (.ok v)) => (c.server.invoked[index]?).any fun invocation =>
      (responseMessage invocation.id invocation.method v).ok
  | .server (.answer _ (.error _)) => false
  | .server _ => true

def step [Platform] (definition : InterfaceDefinition) (c : Connection) :
    Event → Option Connection
  | .client event =>
    if carries c.server c.client event then
      (Side.step definition definition c.client event).map fun client => { c with client }
    else none
  | .server event =>
    if carries c.client c.server event then
      (Side.step definition definition c.server event).map fun server => { c with server }
    else none

variable [Platform]

inductive Taken (definition : InterfaceDefinition) (c : Connection) : Event → Connection → Prop
  | client {event : Side.Event} {client : Side} (carried : carries c.server c.client event = true)
      (step : Side.step definition definition c.client event = some client) :
      Taken definition c (.client event) { c with client }
  | server {event : Side.Event} {server : Side} (carried : carries c.client c.server event = true)
      (step : Side.step definition definition c.server event = some server) :
      Taken definition c (.server event) { c with server }

theorem taken_of_step {definition : InterfaceDefinition} {c c' : Connection} {event : Event}
    (h : step definition c event = some c') : Taken definition c event c' := by
  cases event with
  | client event | server event =>
    rw [step] at h
    split_ifs at h with hcarried
    obtain ⟨s, hstep, rfl⟩ := Option.map_eq_some_iff.mp h
    first
    | exact .client hcarried hstep
    | exact .server hcarried hstep

theorem carries_received {sender receiver receiver' : Side} {event : Side.Event}
    (hcarried : carries sender receiver event = true)
    (hreceived : receiver.history.received <+: sender.output.handed.flatten)
    (hrecorded : receiver.Recorded event receiver') :
    receiver'.history.received <+: sender.output.handed.flatten := by
  rcases hrecorded.received with hsame | ⟨index, bytes, rfl, hnext⟩
  · rw [hsame]
    exact hreceived
  · rw [hnext]
    exact of_decide_eq_true hcarried

theorem handed_step {clients servers : InterfaceDefinition} {s s' : Side} {event : Side.Event}
    (h : Side.step clients servers s event = some s') :
    s.output.handed.flatten <+: s'.output.handed.flatten := by
  obtain ⟨events, hrun⟩ := output_component clients servers s event s' h
  obtain ⟨more, hmore⟩ := (BufferedWriter.run_onward hrun).handed
  rw [← hmore, List.flatten_append]
  exact List.prefix_append _ _

/-- Everything that the client has appended are the requests of its calls, and everything that the
server has appended are its responses to the requests that it has read. -/
structure Linked (definition : InterfaceDefinition) (c : Connection) : Prop where
  client : c.client.Client definition c.server.replies
  waits : c.client.StillPending
  calls : ∀ call ∈ c.client.history.calls, call.accepted = true ∧
    definition.find call.name = some call.method
  requests : RequestStream definition c.client.output.appended
    (c.client.history.calls.map Call.request)
  server : c.server.Asked definition c.client.output.appended
  quiet : c.server.output.Quiet
  passive : c.server.history.calls = []
  responses : c.server.output.appended =
    c.server.history.responses.flatMap fun response => response.2.output
  typed : c.server.Typed
  delivered : c.client.history.received <+: c.server.output.handed.flatten ∧
    c.server.history.received <+: c.client.output.handed.flatten
  flushed : c.client.output.Flushed ∧ c.server.output.Flushed
  attended : c.client.Attended ∧ c.server.Attended

namespace Linked
variable {definition : InterfaceDefinition} {c : Connection}

/-- Calls are dispatched in their order, with their arguments. -/
theorem dispatched (h : Linked definition c) :
    c.server.invoked.map Invocation.request <+: c.client.history.calls.map Call.request :=
  (h.server.approached.dispatched h.requests).1

theorem invocation (h : Linked definition c) {k : Nat} {invocation : Invocation}
    (hk : c.server.invoked[k]? = some invocation) :
    ∃ call, c.client.history.calls[k]? = some call ∧ call.request = invocation.request ∧
      call.id = UInt64.ofNat k ∧ definition.find call.name = some call.method := by
  obtain ⟨rest, hrest⟩ := h.dispatched
  have hlt := (List.getElem?_eq_some_iff.mp hk).1
  have hget : (c.client.history.calls.map Call.request)[k]? = some invocation.request := by
    rw [← hrest, List.getElem?_append_left (by rwa [List.length_map]), List.getElem?_map, hk]
    rfl
  rw [List.getElem?_map, Option.map_eq_some_iff] at hget
  obtain ⟨call, hcall, hrequest⟩ := hget
  exact ⟨call, hcall, hrequest, h.client.follows.regular.books.ids k call hcall,
    (h.calls call (List.mem_of_getElem? hcall)).2⟩

theorem numbered (h : Linked definition c) : c.server.Numbered := by
  intro k invocation hk
  obtain ⟨call, -, hrequest, hid, -⟩ := h.invocation hk
  rw [← hid]
  exact (congrArg Request.id hrequest).symm

theorem stream (h : Linked definition c) :
    Reply.stream c.server.replies = c.server.output.appended :=
  (replies_stream h.server.regular.desk h.numbered).trans h.responses.symm

/-- Each reply of the server can be read for the call whose turn it is. -/
theorem answers (h : Linked definition c) (hlegible : definition.legible = true) {k : Nat}
    {reply : Reply} (hk : c.server.replies[k]? = some reply) :
    reply.call = k ∧ reply.answers c.client.history.calls = true := by
  obtain ⟨hcall, hanswer, invocation, hinvoked, hpayload, hok⟩ :=
    replies_get h.server.regular.desk hk
  obtain ⟨call, hfound, hrequest, -, hfind⟩ := h.invocation hinvoked
  have hmethod : call.method = invocation.method := congrArg Request.method hrequest
  obtain ⟨other, hother, hfits⟩ := h.typed _ hanswer
  obtain rfl : other = invocation := Option.some.inj (hother.symm.trans hinvoked)
  rw [hmethod] at hfind
  refine ⟨hcall, Reply.answers_iff.mpr ⟨call, by rw [hcall, hfound], ?_⟩⟩
  rw [hmethod, hpayload]
  exact parse_response (InterfaceDefinition.legible_find hlegible hfind).2 hfits hok

/-- What reaches the client are responses to its pending calls. -/
theorem responds (h : Linked definition c) (hlegible : definition.legible = true)
    {event : Side.Event} (hcarried : carries c.server c.client event = true)
    (hintended : intended definition c (.client event) = true) :
    Side.responds c.server.replies c.client event = true := by
  cases event with
  | call name arguments =>
    rw [intended, Bool.and_eq_true] at hintended
    exact hintended.1
  | serve => exact hintended
  | answer | «return» => rfl
  | read index bytes =>
    have hread : c.client.history.received ++ bytes <+: c.server.output.handed.flatten :=
      of_decide_eq_true hcarried
    refine decide_eq_true (hread.trans ?_)
    rw [h.stream]
    exact ⟨_, h.server.regular.ordered.bytes⟩
  | readError => exact hcarried
  | written => exact hcarried
  | resume =>
    rw [Side.responds]
    cases hreads : c.client.readsResponse with
    | false => rfl
    | true =>
      have hlength := h.client.follows.reading hreads
      rw [Bool.not_true, Bool.false_or, Option.all_eq_true]
      intro reply hreply
      obtain ⟨hcall, hanswers⟩ := h.answers hlegible hreply
      have hlt := Reply.lt_of_answers hanswers
      rw [Bool.and_eq_true, Reply.id]
      exact ⟨hanswers, h.waits _ (by omega) hlt⟩

theorem client_step (h : Linked definition c) (hlegible : definition.legible = true)
    {event : Side.Event} {client : Side} (hcarried : carries c.server c.client event = true)
    (hintended : intended definition c (.client event) = true)
    (hstep : Side.step definition definition c.client event = some client) :
    Linked definition { c with client } := by
  obtain ⟨hmoved, hclient⟩ := h.client.step hstep (h.responds hlegible hcarried hintended)
  have hfresh (name : Identifier) (arguments : List Value) (hcall : event = .call name arguments) :
      c.client.Fresh := by
    subst hcall
    rw [intended, Bool.and_eq_true] at hintended
    exact h.client.follows.regular.books.fresh (of_decide_eq_true hintended.1)
  -- the next call is accepted, and sent
  have hnext : (∀ call ∈ client.history.calls, call.accepted = true ∧
        definition.find call.name = some call.method) ∧
      RequestStream definition client.output.appended (client.history.calls.map Call.request) ∧
      c.client.output.appended <+: client.output.appended ∧ client.output.Flushed := by
    cases hmoved.sends with
    | nothing appended sent calls =>
      rw [appended, calls]
      exact ⟨h.calls, h.requests, List.prefix_refl _, h.flushed.1.of_eq appended sent⟩
    | refused find refused =>
      rw [intended, find, Bool.and_eq_true] at hintended
      have haccepted := hintended.2
      rw [Option.all_some, refused] at haccepted
      cases haccepted
    | @request name m arguments find short fits accepted output calls =>
      have happended : client.output.appended = c.client.output.appended ++
          (requestMessage c.client.nextRequestId name m arguments).output := by
        rw [output, BufferedWriter.sendBuffer_appended]
        rfl
      refine ⟨?_, ?_, ?_, .inr ?_⟩
      · rw [calls]
        exact List.forall_mem_append.mpr ⟨h.calls, List.forall_mem_singleton.mpr ⟨rfl, find⟩⟩
      · rw [happended, calls, List.map_append]
        exact h.requests.append
          (.cons (readRequest_message hlegible find short fits accepted) .nil)
      · rw [happended]
        exact List.prefix_append _ _
      · rw [output, sendBuffer_sent, BufferedWriter.sendBuffer_appended]
        exact ⟨_, List.mem_append_right _ (List.mem_singleton_self _), rfl⟩
    | response =>
      cases (Side.taken_of_step hstep).2 with
      | answer runs invoked unanswered =>
        rw [h.client.no_answer] at unanswered
        cases unanswered
  obtain ⟨hcalls, hrequests, hfirst, hflushed⟩ := hnext
  refine ⟨hclient, ?_, hcalls, hrequests, h.server.extend hfirst, h.quiet, h.passive, h.responses,
    h.typed, ⟨carries_received hcarried h.delivered.1 hmoved.recorded,
      h.delivered.2.trans (handed_step hstep)⟩,
    ⟨hflushed, h.flushed.2⟩, ⟨hmoved.attended h.attended.1, h.attended.2⟩⟩
  exact h.waits.moved h.client.follows (fun k reply hreply => (h.answers hlegible hreply).1) hmoved
    hfresh (fun call hcall => (hcalls call hcall).1) hclient.follows.calls

theorem requested (h : Linked definition c) {event : Side.Event}
    (hcarried : carries c.client c.server event = true)
    (hintended : intended definition c (.server event) = true) :
    Side.requested c.client.output.appended c.server event = true := by
  cases event with
  | call | readError => cases hintended <;> cases hcarried
  | serve => exact hintended
  | «return» | resume => rfl
  | answer index result =>
    cases result with
    | error ec => cases hintended
    | ok v =>
      obtain ⟨invocation, hinvoked, hok⟩ := (Option.any_eq_true _ _).mp hintended
      simp only [Side.requested, hinvoked]
      exact hok
  | read index bytes =>
    have hread : c.server.history.received ++ bytes <+: c.client.output.handed.flatten :=
      of_decide_eq_true hcarried
    exact decide_eq_true (hread.trans ⟨_, h.client.follows.regular.ordered.bytes⟩)
  | written => exact hcarried

theorem server_step (h : Linked definition c) {event : Side.Event} {server : Side}
    (hcarried : carries c.client c.server event = true)
    (hintended : intended definition c (.server event) = true)
    (hstep : Side.step definition definition c.server event = some server) :
    Linked definition { c with server } := by
  have hrequested := h.requested hcarried hintended
  obtain ⟨hmoved, hasked, hquiet, -⟩ | ⟨-, hlate, -⟩ :=
    h.server.step h.requests h.quiet hrequested hstep
  · have hpassive : server.history.calls = [] := by
      rcases hmoved.recorded.calls with hsame | ⟨name, arguments, call, rfl, -⟩
      · rw [hsame]
        exact h.passive
      · cases hintended
    -- the next response is appended to those that the client knows
    have hnext : (∃ more, server.replies = c.server.replies ++ more) ∧
        server.output.appended =
          server.history.responses.flatMap (fun response => response.2.output) ∧
        server.Typed ∧ server.output.Flushed := by
      cases hmoved.sends with
      | nothing appended sent calls responses answers invoked =>
        refine ⟨⟨[], ?_⟩, ?_, ?_, h.flushed.2.of_eq appended sent⟩
        · rw [replies, responses, answers, List.append_nil]
          rfl
        · rw [appended, responses]
          exact h.responses
        · intro answer hanswer
          rw [answers] at hanswer
          obtain ⟨invocation, hinvoked, hfits⟩ := h.typed answer hanswer
          obtain ⟨rest, hrest⟩ := invoked
          refine ⟨invocation, ?_, hfits⟩
          rw [← hrest, List.getElem?_append_left (List.getElem?_eq_some_iff.mp hinvoked).1,
            hinvoked]
      | refused | request => cases hintended
      | @response index invocation v invoked_eq fits accepted output calls responses answers
          invoked =>
        have happended : server.output.appended = c.server.output.appended ++
            (responseMessage invocation.id invocation.method v).output := by
          rw [output, BufferedWriter.sendBuffer_appended]
          rfl
        refine ⟨⟨[replyOf (index, responseMessage invocation.id invocation.method v) (index, v)],
          ?_⟩, ?_, ?_, .inr ?_⟩
        · have hlength : c.server.history.responses.length = c.server.history.answers.length :=
            h.server.regular.desk.responses.length_eq
          rw [replies, responses, answers, List.zipWith_append hlength]
          rfl
        · rw [happended, responses, List.flatMap_append, List.flatMap_singleton, h.responses]
        · intro answer hanswer
          rw [answers, List.mem_append, List.mem_singleton] at hanswer
          rw [invoked]
          rcases hanswer with hold | rfl
          · exact h.typed answer hold
          · exact ⟨invocation, invoked_eq, fits⟩
        · rw [output, sendBuffer_sent, BufferedWriter.sendBuffer_appended]
          exact ⟨_, List.mem_append_right _ (List.mem_singleton_self _), rfl⟩
    obtain ⟨⟨more, hmore⟩, hresponses, htyped, hflushed⟩ := hnext
    refine ⟨?_, h.waits, h.calls, h.requests, hasked, hquiet, hpassive, hresponses, htyped,
      ⟨h.delivered.1.trans (handed_step hstep),
        carries_received hcarried h.delivered.2 hmoved.recorded⟩,
      ⟨h.flushed.1, hflushed⟩, ⟨h.attended.1, hmoved.attended h.attended.2⟩⟩
    change c.client.Client definition server.replies
    rw [hmore]
    exact h.client.extend more
  · rw [h.server.on_time h.requests h.passive] at hlate
    cases hlate

theorem step (h : Linked definition c) (hlegible : definition.legible = true) {event : Event}
    {c' : Connection} (hintended : intended definition c event = true)
    (hstep : Connection.step definition c event = some c') : Linked definition c' := by
  cases taken_of_step hstep with
  | client carried step => exact h.client_step hlegible carried hintended step
  | server carried step => exact h.server_step carried hintended step

end Linked

/-- No frame is left, no write has to complete, and everything has been read that somebody waits
for. -/
def idle (sender s : Side) : Bool :=
  s.stack.isEmpty && s.output.outstanding.isEmpty &&
    (s.reads.isEmpty || decide (s.history.received = sender.output.handed.flatten))

/-- An end gets on without a call of user code. A read of no bytes, which changes nothing, does not
count. -/
def advances : Side.Event → Bool
  | .call _ _ | .serve | .answer _ _ | .readError _ _ => false
  | .return | .resume | .written _ _ _ => true
  | .read _ bytes => !bytes.isEmpty

theorem goes_on {definition : InterfaceDefinition} {sender s : Side} (hthrown : s.thrown = none)
    (hattended : s.Attended) (hreceived : s.history.received <+: sender.output.handed.flatten)
    (hbusy : idle sender s = false) :
    ∃ event, advances event = true ∧ carries sender s event = true ∧
      (Side.step definition definition s event).isSome = true := by
  cases hstack : s.stack with
  | cons frame stack =>
    cases frame with
    | user => exact ⟨.return, rfl, rfl, by simp [Side.step, hthrown, hstack]⟩
    | _ => exact ⟨.resume, rfl, rfl, by simp [Side.step, hthrown, hstack]⟩
  | nil =>
    cases houtstanding : s.output.outstanding with
    | cons pending outstanding =>
      have hwriter : s.output.stack = [] := by
        by_contra hne
        have hmem := hattended hne
        rw [hstack] at hmem
        cases hmem
      have hwritten : (s.output.step (.written 0 pending.data.length .success)).isSome = true := by
        simp [BufferedWriter.step, hwriter, houtstanding]
      obtain ⟨output, hwritten⟩ := Option.isSome_iff_exists.mp hwritten
      exact ⟨.written 0 pending.data.length .success, rfl, rfl,
        by simp [Side.step, hthrown, hstack, hwritten]⟩
    | nil =>
      -- somebody waits for bytes that have been handed over
      rw [idle, hstack, houtstanding] at hbusy
      simp only [List.isEmpty_nil, Bool.true_and, Bool.or_eq_false_iff, List.isEmpty_eq_false_iff,
        decide_eq_false_iff_not] at hbusy
      obtain ⟨operation, hoperation⟩ : ∃ operation, s.reads[0]? = some operation := by
        cases hreads : s.reads with
        | nil => exact (hbusy.1 hreads).elim
        | cons operation reads => exact ⟨operation, rfl⟩
      obtain ⟨bytes, hbytes⟩ := hreceived
      have hsome : bytes ≠ [] := by
        rintro rfl
        exact hbusy.2 ((List.append_nil _).symm.trans hbytes)
      refine ⟨.read 0 (bytes.take 512), ?_, ?_, ?_⟩
      · simp [advances, hsome]
      · rw [carries, ← hbytes]
        exact decide_eq_true ((List.prefix_append_right_inj _).mpr (List.take_prefix _ _))
      · simp [Side.step, hthrown, hstack, hoperation]

namespace Linked
variable {definition : InterfaceDefinition} {c : Connection}

omit [Platform] in
theorem replies_results {s : Side} (h : s.history.responses.length = s.history.answers.length) :
    s.replies.map Reply.result = s.history.answers := by
  have hsecond : (s.history.responses.zip s.history.answers).map Prod.snd = s.history.answers :=
    List.map_snd_zip h.ge
  rw [List.zip, List.map_zipWith] at hsecond
  rw [replies, List.map_zipWith]
  exact hsecond

/-- Only results that the implementation has given are handed over, each to its own call. -/
theorem completed (h : Linked definition c) {n : Nat} {result : Except ErrorCode Value}
    (hcompleted : (n, result) ∈ c.client.history.completed) :
    ∃ v, result = .ok v ∧ (n, v) ∈ c.server.history.answers := by
  cases result with
  | error ec =>
    obtain ⟨-, call, hcall, hrefused⟩ := h.client.follows.regular.books.refused n ec hcompleted
    rw [(h.calls call (List.mem_of_getElem? hcall)).1] at hrefused
    cases hrefused
  | ok v =>
    obtain ⟨done, left, more, hreplies, -, -, hhanded⟩ := h.client.follows.handed
    have hmem : (n, v) ∈ done.map Reply.result := by
      refine hhanded.mem_iff.mp (List.mem_append_left _ (List.mem_flatMap.mpr ⟨_, hcompleted, ?_⟩))
      exact List.mem_singleton_self _
    refine ⟨v, rfl, ?_⟩
    rw [← replies_results h.server.regular.desk.responses.length_eq, hreplies, List.map_append]
    exact List.mem_append_left _ hmem

end Linked

end Connection

end Warpcoil
