import Warpcoil.Owing

/-! The order in which a client calls the handlers of its calls. What a parse operation has
completed waits on the call stack until the next header cannot be read on, so the responses
that one read completes are handed over in reverse. -/
namespace Warpcoil
open Incremental Transition

variable [Platform]

namespace Side

/-- The peer answers calls that are pending when the first byte of the response arrives. -/
def answersPending (replies : List Reply) (s : Side) : Event → Bool
  | .call _ _ => decide (s.history.calls.length < 2 ^ 64)
  | .serve | .readError _ _ => false
  | .read _ bytes =>
    let received := s.history.received ++ bytes
    decide (received <+: Reply.stream replies) &&
      ((replies.take (Cuts.begun Reply.size replies received.length)).drop
        ((s.history.parsed.length + 1) / 3)).all s.awaits
  | .written _ _ ec => decide (ec = .success)
  | .answer _ _ | .return | .resume => true

/-- Only the innermost frame parses, or has just parsed. -/
def Tip (s : Side) : Prop := ∀ frame ∈ s.stack.tail, frame.Rests

/-- A client and the responses that it has begun to receive. -/
structure Expecting (servers : InterfaceDefinition) (replies : List Reply) (s : Side) : Prop where
  client : s.Client servers replies
  owed : ∀ (k : Nat) (reply : Reply), replies[k]? = some reply →
    (s.history.parsed.length + 1) / 3 ≤ k →
    (Reply.stream (replies.take k)).length < s.history.received.length → s.awaits reply = true
  tip : s.Tip

theorem expecting_initial (servers : InterfaceDefinition) (replies : List Reply) :
    Expecting servers replies {} where
  client := client_initial servers replies
  owed := fun _ _ _ _ hlt => (Nat.not_lt_zero _ hlt).elim
  tip := fun frame hframe => by cases hframe

theorem Expecting.owing {servers : InterfaceDefinition} {replies : List Reply} {s : Side}
    (h : s.Expecting servers replies) : s.Owing servers replies :=
  ⟨h.client.follows, h.owed⟩

theorem answersPending_offered {replies : List Reply} {s : Side} {event : Event}
    (h : answersPending replies s event = true) : s.Offered replies event := by
  cases event with
  | call name arguments =>
    have hlt : s.history.calls.length < 2 ^ 64 := of_decide_eq_true h
    exact hlt
  | read index bytes =>
    rw [answersPending, Bool.and_eq_true, List.all_eq_true] at h
    have hstream : s.history.received ++ bytes <+: Reply.stream replies := of_decide_eq_true h.1
    exact ⟨hstream, h.2⟩
  | _ => trivial

/-- What is offered to a client is a response to a pending call when it is read. -/
theorem Expecting.responds {servers : InterfaceDefinition} {replies : List Reply} {s : Side}
    {event : Event} (h : s.Expecting servers replies)
    (hevent : answersPending replies s event = true) : responds replies s event = true := by
  have hfed := h.owing.fed (answersPending_offered hevent)
  cases event with
  | read index bytes => exact decide_eq_true hfed
  | resume =>
    rw [Side.responds]
    cases hreads : s.readsResponse with
    | false => rfl
    | true =>
      rw [Bool.not_true, Bool.false_or, Option.all_eq_true]
      intro reply hreply
      rw [Bool.and_eq_true]
      exact hfed hreads reply hreply
  | _ => exact hevent

/-! Where the frame that parses stands. -/

omit [Platform] in
theorem userRuns_rests {s : Side} (h : s.Tip) (hruns : s.userRuns = true) :
    ∀ frame ∈ s.stack, frame.Rests := by
  unfold userRuns at hruns
  unfold Tip at h
  split at hruns
  · next hstack => simp [hstack]
  · next stack hstack =>
    rw [hstack] at h ⊢
    exact List.forall_mem_cons.mpr ⟨⟨rfl, rfl⟩, h⟩
  · cases hruns

omit [Platform] in
theorem summon_stack (s : Side) :
    s.summon.stack = s.stack ∨ ∃ operation, s.summon.stack = .start operation :: s.stack := by
  unfold summon
  split_ifs
  · exact .inr ⟨_, rfl⟩
  · exact .inl rfl

omit [Platform] in
theorem release_stack (s : Side) :
    s.release.stack = s.stack ∨ ∃ operation, s.release.stack = .start operation :: s.stack := by
  unfold release
  split_ifs
  · exact .inr ⟨_, rfl⟩
  · exact .inl rfl

omit [Platform] in
theorem Tip.of_rests {s t : Side} (h : ∀ frame ∈ t.stack, frame.Rests)
    (hstack : s.stack = t.stack ∨ ∃ operation, s.stack = .start operation :: t.stack) :
    s.Tip := by
  unfold Tip
  rcases hstack with hsame | ⟨operation, hnext⟩
  · rw [hsame]
    exact fun frame hframe => h frame (List.mem_of_mem_tail hframe)
  · rw [hnext]
    exact h

omit [Platform] in
theorem Tip.of_push {s : Side} {stack : List Frame} (h : ∀ frame ∈ stack, frame.Rests)
    {f : Frame} (hstack : s.stack = f :: stack) : s.Tip := by
  unfold Tip
  rw [hstack]
  exact h

theorem Tip.resumed {servers : InterfaceDefinition} {s s' : Side} (h : s.Tip) (hcalm : s.Calm)
    (hrequest : s.waitingForRequest = none) {frame : Frame} {stack : List Frame}
    (hstack : s.stack = frame :: stack) (hresumed : Resumed servers { s with stack } frame s') :
    s'.Tip := by
  have hrests : ∀ frame ∈ stack, frame.Rests := by
    unfold Tip at h
    rwa [hstack] at h
  have hpushed {quiet : Frame} (hquiet : quiet.Rests) : ∀ frame ∈ quiet :: stack, frame.Rests :=
    List.forall_mem_cons.mpr ⟨hquiet, hrests⟩
  cases hresumed with
  | more | requestContinue | responseContinue | writerDone =>
    exact fun frame hframe => hrests frame (List.mem_of_mem_tail hframe)
  | responseType | requestType => exact .of_push hrests rfl
  | responseHeader | requestHeader => exact .of_push (hpushed ⟨rfl, rfl⟩) rfl
  | @result operation expected v rest kind reads =>
    -- nobody waits while the registry parses a result
    have hresponse : s.waitingForResponse = false := by
      have hstate := (hcalm.ready hstack).result expected kind
      cases hcalm.registry with
      | result _ response => exact response
      | notExpecting state | header state =>
        rw [show s.state = _ from hstate] at state
        cases state
    refine .of_push hrests (f := .resultUnlocked expected.handler v) ?_
    have hwaiting : (s.waitingForResponse || s.waitingForRequest.isSome) = false := by
      rw [hresponse, hrequest]
      rfl
    exact congrArg Side.stack (if_neg (Bool.eq_false_iff.mp hwaiting))
  | argument =>
    refine Tip.of_rests ?_ (release_stack _)
    exact hpushed ⟨rfl, rfl⟩
  | nextHeader =>
    refine Tip.of_rests ?_ (summon_stack _)
    exact hpushed ⟨rfl, rfl⟩
  | lastResult | resultReady | implementation | writer => exact .of_push hrests rfl
  | responseSent => exact .of_push (hpushed ⟨rfl, rfl⟩) rfl

theorem Tip.moved {clients servers : InterfaceDefinition} {s s' : Side} {event : Event}
    (h : s.Tip) (hcalm : s.Calm) (hrequest : s.waitingForRequest = none)
    (hmoved : Moved clients servers s event s') : s'.Tip := by
  cases hmoved with
  | resume hstack hresumed => exact h.resumed hcalm hrequest hstack hresumed
  | refused runs => exact .of_push (userRuns_rests h runs) rfl
  | placed | answered => exact h
  | awaited runs => exact .of_rests (userRuns_rests h runs) (summon_stack _)
  | serve runs => exact .of_rests (userRuns_rests h runs) (summon_stack _)
  | «return» hstack =>
    unfold Tip at h
    rw [hstack] at h
    exact fun frame hframe => h frame (List.mem_of_mem_tail hframe)
  | read => exact .of_push (by simp) rfl
  | written hstack =>
    have hnone : ∀ frame ∈ s.stack, frame.Rests := by simp [hstack]
    exact .of_push (f := .writer) hnone rfl

theorem Expecting.step {clients servers : InterfaceDefinition} {replies : List Reply} {s s' : Side}
    {event : Event} (h : s.Expecting servers replies) (hdistinct : (replies.map Reply.call).Nodup)
    (hstep : Side.step clients servers s event = some s')
    (hevent : answersPending replies s event = true) :
    Moved clients servers s event s' ∧ s'.Expecting servers replies := by
  obtain ⟨hmoved, hclient⟩ := h.client.step hstep (h.responds hevent)
  refine ⟨hmoved, hclient, ?_, ?_⟩
  · exact (h.owing.moved hdistinct (answersPending_offered hevent) hmoved
      hclient.follows.regular).owed
  · exact h.tip.moved h.client.follows.regular.calm h.client.no_request hmoved

end Side

/-- The results in the order in which they are handed over, if nothing more arrives. -/
def Books.order (replies : List Reply) (received : Nat) (b : Books) : List (Nat × Value) :=
  b.completed.flatMap handedOver ++
    (((b.due replies received).map Reply.result).reverse ++ b.inHand)

omit [Platform] in
/-- A result that is read goes in front of those that wait on the stack. -/
theorem Books.Step.order {b b' : Books} (h : b.Step b') {replies : List Reply} {received : Nat}
    (hcompleted : b'.completed.flatMap handedOver ≠ b.completed.flatMap handedOver →
      b.due replies received = [])
    (hresult : ∀ handler v, b'.parsed.flatMap Parsed.result =
      b.parsed.flatMap Parsed.result ++ [(handler, v)] →
      ∃ reply, reply.result = (handler, v) ∧
        b.due replies received = reply :: b'.due replies received) :
    b'.order replies received = b.order replies received := by
  cases h with
  | same => rfl
  | parsed response result => simp [Books.order, Books.due, Parsed.result, result]
  | header reading find =>
    simp [Books.order, Books.due, Parsed.result, Continuation.expected]
  | @result expected v rest reading =>
    obtain ⟨reply, hreply, hdue⟩ := hresult expected.handler v (by
      simp [Parsed.result, Continuation.expected])
    rw [Books.order, Books.order, hdue, List.map_cons, List.reverse_cons, hreply,
      List.append_assoc]
    rfl
  | @completed handler v rest inHand =>
    have hdue := hcompleted (by simp [handedOver])
    have hdue' : Books.due replies received { b with
      completed := b.completed ++ [(handler, .ok v)], inHand := rest } = [] := hdue
    simp [Books.order, hdue, hdue', inHand, handedOver]
  | refused id accepted => simp [Books.order, Books.due, handedOver]
  | placed id accepted fresh => rfl

namespace Side

omit [Platform] in
/-- The result that is read is the one that was due. -/
theorem Position.due_cons {s s' : Side} {replies done left done' left' : List Reply}
    {more more' : List UInt8} (h : s.Position done left more) (hreplies : replies = done ++ left)
    (h' : s'.Position done' left' more') (hreplies' : replies = done' ++ left')
    (hreceived : s'.history.received = s.history.received) {handler : Nat} {v : Value}
    (hresult : s'.history.parsed.flatMap Parsed.result =
      s.history.parsed.flatMap Parsed.result ++ [(handler, v)]) :
    ∃ reply, reply.result = (handler, v) ∧
      s.books.due replies s.history.received.length =
        reply :: s'.books.due replies s.history.received.length := by
  rw [h.results, h'.results] at hresult
  have hlength : done'.length = done.length + 1 := by
    have := congrArg List.length hresult
    simpa using this
  have hdone : done'[done.length]? = replies[done.length]? := by
    rw [hreplies', List.getElem?_append_left (by omega)]
  have hle := h'.done_le
  rw [hreceived, ← hreplies'] at hle
  have hdue := h.due_eq
  have hdue' := h'.due_eq
  rw [← hreplies] at hdue
  rw [← hreplies', hreceived, hlength] at hdue'
  have hended := Cuts.ended_le_length Reply.size replies s.history.received.length
  have hlt : done.length < (replies.take
      (Cuts.ended Reply.size replies s.history.received.length)).length := by
    rw [List.length_take]
    omega
  refine ⟨_, ?_, by rw [hdue, hdue', List.drop_eq_getElem_cons hlt]⟩
  have hget := congrArg (fun results => results[done.length]?) hresult
  simp only [List.getElem?_map, hdone, List.getElem?_append_right, List.length_map, Nat.le_refl,
    Nat.sub_self, List.getElem?_cons_zero] at hget
  rw [List.getElem_take]
  rw [List.getElem?_eq_getElem (by rw [List.length_take] at hlt; omega), Option.map_some] at hget
  exact Option.some.inj hget

/-- Results are handed over by the last statement of `parse_result_operation`. -/
theorem Moved.handed_over {clients servers : InterfaceDefinition} {s s' : Side} {event : Event}
    (h : Moved clients servers s event s') :
    s'.history.completed.flatMap handedOver = s.history.completed.flatMap handedOver ∨
      ∃ handler v stack, s.stack = .resultReady handler v :: stack := by
  cases h with
  | refused =>
    left
    simp [Side.refused, callResultHandler, note, push, handedOver]
  | awaited =>
    rw [(summon_fields _).1]
    exact .inl rfl
  | serve =>
    rw [(summon_fields _).1]
    exact .inl rfl
  | resume hstack hresumed =>
    cases hresumed with
    | resultReady => exact .inr ⟨_, _, _, hstack⟩
    | result | argument =>
      rw [(release_fields _).1]
      exact .inl rfl
    | nextHeader =>
      rw [(summon_fields _).1]
      exact .inl rfl
    | _ => exact .inl rfl
  | _ => exact .inl rfl

/-- Between two reads the order does not change. -/
theorem Expecting.order_same {clients servers : InterfaceDefinition} {replies : List Reply}
    {s s' : Side} {event : Event} (h : s.Expecting servers replies)
    (hevent : answersPending replies s event = true) (hmoved : Moved clients servers s event s')
    (h' : s'.Expecting servers replies) (hreceived : s'.history.received = s.history.received) :
    s'.books.order replies s'.history.received.length =
      s.books.order replies s.history.received.length := by
  rw [hreceived]
  refine (h.owing.books_step (answersPending_offered hevent) hmoved).order
    (fun hcompleted => ?_) fun handler v hresult => ?_
  · rcases hmoved.handed_over with hsame | ⟨handler, v, stack, hstack⟩
    · exact (hcompleted hsame).elim
    · have htip := h.tip
      unfold Tip at htip
      rw [hstack] at htip
      refine h.owing.no_due ?_
      rw [Rests, hstack]
      exact List.forall_mem_cons.mpr ⟨⟨rfl, rfl⟩, htip⟩
  · obtain ⟨done, left, more, hreplies, hposition⟩ := h.client.follows.position
    obtain ⟨done', left', more', hreplies', hposition'⟩ := h'.client.follows.position
    exact hposition.due_cons hreplies hposition' hreplies' hreceived hresult

/-- A read appends the responses that it completes, the last one first. -/
theorem Expecting.order_read {replies : List Reply} {servers : InterfaceDefinition} {s : Side}
    (h : s.Expecting servers replies) (hstack : s.stack = []) (operation : ParseOperation)
    (bytes : List UInt8) :
    (s.delivered operation bytes).books.order replies
        (s.delivered operation bytes).history.received.length =
      s.books.order replies s.history.received.length ++
        ((Cuts.batch Reply.size replies s.history.received.length
          (s.history.received.length + bytes.length)).map Reply.result).reverse := by
  have hdue := h.owing.no_due (by rw [Rests, hstack]; simp)
  have hin : s.books.inHand = [] := by
    rw [books, hstack]
    rfl
  have hin' : (s.delivered operation bytes).books.inHand = [] := rfl
  have hended : Cuts.ended Reply.size replies s.history.received.length =
      (s.history.parsed.flatMap Parsed.result).length := by
    obtain ⟨done, left, more, rfl, hposition⟩ := h.client.follows.position
    have hle := hposition.done_le
    have hlength := Cuts.ended_le_length Reply.size (done ++ left) s.history.received.length
    rw [hposition.due_eq, List.drop_eq_nil_iff, List.length_take] at hdue
    rw [hposition.results, List.length_map]
    omega
  have hreceived : (s.delivered operation bytes).history.received.length =
      s.history.received.length + bytes.length := List.length_append
  rw [Books.order, Books.order, hin, hin', hdue, hreceived, Cuts.batch, hended]
  simp only [List.append_nil, List.map_nil, List.reverse_nil]
  rfl

/-- The sizes of the pieces in which a run receives the stream. -/
def Event.pieces : Event → List Nat
  | .read _ bytes => [bytes.length]
  | .call _ _ | .serve | .answer _ _ | .return | .resume | .readError _ _ | .written _ _ _ => []

/-- The responses that each of the reads of a run completes. -/
def batches (replies : List Reply) (received : Nat) (events : List Event) : List (List Reply) :=
  Cuts.batches Reply.size replies received (events.flatMap Event.pieces)

omit [Platform] in
theorem batches_append (replies : List Reply) (received : Nat) (events more : List Event) :
    batches replies received (events ++ more) = batches replies received events ++
      batches replies (received + (events.flatMap Event.pieces).sum) more := by
  rw [batches, List.flatMap_append, Cuts.batches_append]
  rfl

theorem Expecting.order_step {clients servers : InterfaceDefinition} {replies : List Reply}
    {s s' : Side} {event : Event} (h : s.Expecting servers replies)
    (hevent : answersPending replies s event = true) (hmoved : Moved clients servers s event s')
    (h' : s'.Expecting servers replies) :
    s'.history.received.length = s.history.received.length + event.pieces.sum ∧
    s'.books.order replies s'.history.received.length =
      s.books.order replies s.history.received.length ++
        (batches replies s.history.received.length [event]).flatMap fun batch =>
          (batch.map Reply.result).reverse := by
  by_cases hread : ∃ index bytes, event = .read index bytes
  · obtain ⟨index, bytes, rfl⟩ := hread
    cases hmoved with
    | read hstack hreads =>
      refine ⟨List.length_append, (h.order_read hstack _ bytes).trans ?_⟩
      simp [batches, Event.pieces, Cuts.batches]
  · have hpieces : event.pieces = [] := by
      cases event with
      | read index bytes => exact (hread ⟨index, bytes, rfl⟩).elim
      | _ => rfl
    have hreceived : s'.history.received = s.history.received := by
      rcases hmoved.recorded.received with hsame | ⟨index, bytes, hevent, -⟩
      · exact hsame
      · exact (hread ⟨index, bytes, hevent⟩).elim
    refine ⟨by rw [hreceived, hpieces]; rfl, ?_⟩
    rw [h.order_same hevent hmoved h' hreceived, batches, List.flatMap_singleton, hpieces]
    exact (List.append_nil _).symm

/-- The handlers of one read are called in reverse order, those of several reads in order. -/
theorem order_run {clients servers : InterfaceDefinition} {replies : List Reply}
    (hdistinct : (replies.map Reply.call).Nodup) {s t : Side} {events : List Event}
    (h : s.Expecting servers replies)
    (hpending : Along (Side.step clients servers)
      (fun s event => answersPending replies s event = true) s events)
    (hrun : run (Side.step clients servers) s events = some t) :
    t.Expecting servers replies ∧
    t.history.received.length = s.history.received.length + (events.flatMap Event.pieces).sum ∧
    t.books.order replies t.history.received.length =
      s.books.order replies s.history.received.length ++
        (batches replies s.history.received.length events).flatMap fun batch =>
          (batch.map Reply.result).reverse := by
  induction events generalizing s with
  | nil =>
    cases hrun
    exact ⟨h, rfl, (List.append_nil _).symm⟩
  | cons event events ih =>
    obtain ⟨u, hstep, hrest⟩ := run_cons.mp hrun
    obtain ⟨hmoved, hu⟩ := h.step hdistinct hstep hpending.1
    obtain ⟨hreceived, horder⟩ := h.order_step hpending.1 hmoved hu
    obtain ⟨ht, hlength, hrestOrder⟩ := ih hu (hpending.2 u hstep) hrest
    refine ⟨ht, ?_, ?_⟩
    · rw [hlength, hreceived, List.flatMap_cons, List.sum_append, Nat.add_assoc]
    · rw [hrestOrder, horder, hreceived, ← List.singleton_append (l := events), batches_append,
        List.flatMap_singleton, List.flatMap_append, List.append_assoc]

omit [Platform] in
theorem ended_zero (replies : List Reply) : Cuts.ended Reply.size replies 0 = 0 := by
  cases replies with
  | nil => rfl
  | cons reply replies =>
    refine if_neg ?_
    rw [Reply.size, Reply.bytes, messageHeader_eq]
    simp

omit [Platform] in
/-- Different calls have different results. -/
theorem result_nodup {replies : List Reply} (h : (replies.map Reply.call).Nodup) :
    (replies.map Reply.result).Nodup := by
  refine List.Nodup.of_map Prod.fst ?_
  rwa [List.map_map]

/-- The order in which a client calls the handlers of its calls is that of the stream between
reads, and the reverse of it within each read. -/
theorem handlers_order (clients servers : InterfaceDefinition) (replies : List Reply)
    (events : List Event) (s : Side) (hdistinct : (replies.map Reply.call).Nodup)
    (hpending : Along (Side.step clients servers)
      (fun s event => answersPending replies s event = true) {} events)
    (hrun : run (Side.step clients servers) {} events = some s) (hstack : s.stack = []) :
    (batches replies 0 events).flatten =
      replies.take (Cuts.ended Reply.size replies s.history.received.length) ∧
    s.history.completed.flatMap handedOver =
      (batches replies 0 events).flatMap (fun batch => (batch.map Reply.result).reverse) ∧
    (s.history.completed.flatMap handedOver =
        (batches replies 0 events).flatten.map Reply.result ↔
      ∀ batch ∈ batches replies 0 events, batch.length ≤ 1) := by
  obtain ⟨h, hreceived, horder⟩ := order_run hdistinct (expecting_initial servers replies)
    hpending hrun
  have hflatten : (batches replies 0 events).flatten =
      replies.take (Cuts.ended Reply.size replies s.history.received.length) := by
    rw [batches, Cuts.flatten_batches, Cuts.batch, ended_zero, List.drop_zero, hreceived]
    rfl
  have hcompleted : s.history.completed.flatMap handedOver =
      (batches replies 0 events).flatMap (fun batch => (batch.map Reply.result).reverse) := by
    have hdue := h.owing.no_due (by rw [Rests, hstack]; simp)
    have hin : s.books.inHand = [] := by
      rw [books, hstack]
      rfl
    have hinitial : Books.order replies 0 (books {}) = [] := by
      rw [Books.order, Books.due, ended_zero]
      simp [books]
    rw [Books.order, hdue, hin, show ({} : Side).history.received.length = 0 from rfl, hinitial,
      List.map_nil, List.reverse_nil, List.append_nil, List.append_nil, List.nil_append] at horder
    exact horder
  refine ⟨hflatten, hcompleted, ?_⟩
  have hnodup : ((batches replies 0 events).map (List.map Reply.result)).flatten.Nodup := by
    rw [← List.map_flatten, hflatten, List.map_take]
    exact (result_nodup hdistinct).sublist (List.take_sublist _ _)
  have hiff := Cuts.flatMap_reverse_eq_flatten_iff hnodup
  rw [List.flatMap_map, ← List.map_flatten] at hiff
  rw [hcompleted, hiff]
  simp

omit [Platform] in
theorem handlers_order_three :
    letI := Platform.reference
    let replies : List Reply := [⟨1, [11], .integer 11⟩, ⟨0, [5], .integer 5⟩, ⟨2, [6], .integer 6⟩]
    let events : List Event := [.call [0x66] [.integer 7], .resume, .call [0x66] [.integer 9],
      .call [0x66] [.integer 3], .read 0 [1, 0, 0, 0, 0, 0, 0, 0, 1, 11, 1, 0, 0], .resume, .resume,
      .resume, .resume, .resume, .resume, .resume, .return, .resume,
      .read 0 [0, 0, 0, 0, 0, 0, 5, 1, 0, 0, 0, 0, 0, 0, 0, 2, 6], .resume, .resume, .resume,
      .resume, .resume, .resume, .resume, .resume, .return, .resume, .resume, .return, .resume]
    ∃ s, run (Side.step exampleInterface exampleInterface) {} events = some s ∧
      s.history.completed.flatMap handedOver =
        (batches replies 0 events).flatMap fun batch => (batch.map Reply.result).reverse := by
  letI := Platform.reference
  intro replies events
  have hidle : (run (Side.step exampleInterface exampleInterface) {} events).any
      (fun s => s.stack.isEmpty) = true := by decide +kernel
  obtain ⟨s, hrun, hs⟩ := (Option.any_eq_true _ _).mp hidle
  obtain ⟨-, horder, -⟩ := handlers_order exampleInterface exampleInterface replies events s
    (by decide) (by decide +kernel) hrun (List.isEmpty_iff.mp hs)
  exact ⟨s, hrun, horder⟩

omit [Platform] in
/-- Two responses that arrive in two reads, and the same bytes in one read. -/
theorem handlers_order_coalesced :
    letI := Platform.reference
    let replies : List Reply := [⟨0, [5], .integer 5⟩, ⟨1, [11], .integer 11⟩]
    let calls : List Event := [.call [0x66] [.integer 7], .resume, .call [0x66] [.integer 9]]
    let apart : List Event := calls ++ [.read 0 [1, 0, 0, 0, 0, 0, 0, 0, 0, 5], .resume, .resume,
      .resume, .resume, .resume, .resume, .return, .resume,
      .read 0 [1, 0, 0, 0, 0, 0, 0, 0, 1, 11], .resume, .resume, .resume, .resume, .resume, .return,
      .resume]
    let together : List Event := calls ++ [.read 0 [1, 0, 0, 0, 0, 0, 0, 0, 0, 5,
      1, 0, 0, 0, 0, 0, 0, 0, 1, 11], .resume, .resume, .resume, .resume, .resume, .resume,
      .resume, .resume, .resume, .return, .resume, .resume, .return, .resume]
    (∀ events ∈ [apart, together], Along (Side.step exampleInterface exampleInterface)
      (fun s event => answersPending replies s event = true) {} events) ∧
    (run (Side.step exampleInterface exampleInterface) {} apart).any (fun s =>
      s.stack.isEmpty && decide (s.history.received = Reply.stream replies) &&
      decide (s.history.completed.flatMap handedOver = replies.map Reply.result)) = true ∧
    (run (Side.step exampleInterface exampleInterface) {} together).any (fun s =>
      s.stack.isEmpty && decide (s.history.received = Reply.stream replies) &&
      decide (s.history.completed.flatMap handedOver =
        (replies.map Reply.result).reverse)) = true := by
  letI := Platform.reference
  refine ⟨?_, by decide +kernel, by decide +kernel⟩
  decide +kernel

end Side

end Warpcoil
