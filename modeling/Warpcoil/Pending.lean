import Warpcoil.Trace

/-! The calls of a client: a pending one is found by its id, a completed one has the result
that was parsed for it. `Books` is what these facts are about, and its steps are all that a
side without errors does to it. -/
namespace Warpcoil
open Transition

def Continuation.expected : Continuation → List ExpectedResponse
  | .result expected => [expected]
  | .messageType | .response | .request | .argument _ _ _ _ => []

def Continuation.isResponse : Continuation → Bool
  | .response => true
  | .messageType | .request | .result _ | .argument _ _ _ _ => false

/-- The result of a call. -/
def Parsed.result (parsed : Parsed) : List (Nat × Value) :=
  parsed.onResult.expected.map fun expected => (expected.handler, parsed.value)

/-- A result that is about to be handed over. -/
def Frame.result : Frame → List (Nat × Value)
  | .resultUnlocked handler v | .resultReady handler v => [(handler, v)]
  | .start _ | .requestContinue _ | .responseContinue _ | .errorContinue _ _ | .errors _ _
  | .argumentUnlocked _ _ _ _ _ | .writer | .user => []

def handedOver : Nat × Except ErrorCode Value → List (Nat × Value)
  | (handler, .ok v) => [(handler, v)]
  | (_, .error _) => []

/-- `reading` is the response whose result is being parsed, `inHand` the results that have
not been handed over. -/
structure Books where
  nextRequestId : RequestId
  pending : List (RequestId × ExpectedResponse)
  calls : List Call
  parsed : List Parsed
  completed : List (Nat × Except ErrorCode Value)
  reading : List ExpectedResponse
  inHand : List (Nat × Value)

namespace Books

inductive Step (b : Books) : Books → Prop
  | same : Step b b
  | parsed {p : Parsed} (response : p.onResult.isResponse = false)
      (result : p.onResult.expected = []) : Step b { b with parsed := b.parsed ++ [p] }
  | header {id : Nat} {key : RequestId} {expected : ExpectedResponse}
      (reading : b.reading = [])
      (find : b.pending.find? (fun e => decide (e.1 = UInt64.ofNat id)) = some (key, expected)) :
      Step b { b with
        parsed := b.parsed ++ [⟨.response, .integer id⟩]
        pending := b.pending.eraseP fun e => decide (e.1 = UInt64.ofNat id)
        reading := expected :: b.reading }
  | result {expected : ExpectedResponse} {v : Value} {rest : List ExpectedResponse}
      (reading : b.reading = expected :: rest) :
      Step b { b with
        parsed := b.parsed ++ [⟨.result expected, v⟩]
        reading := rest
        inHand := (expected.handler, v) :: b.inHand }
  | completed {handler : Nat} {v : Value} {rest : List (Nat × Value)}
      (inHand : b.inHand = (handler, v) :: rest) :
      Step b { b with
        completed := b.completed ++ [(handler, .ok v)]
        inHand := rest }
  | refused {call : Call} (id : call.id = b.nextRequestId) (accepted : call.accepted = false) :
      Step b { b with
        nextRequestId := b.nextRequestId + 1
        calls := b.calls ++ [call]
        completed := b.completed ++ [(b.calls.length, .error .invalidInput)] }
  | placed {call : Call} (id : call.id = b.nextRequestId) (accepted : call.accepted = true)
      (fresh : ∀ e ∈ b.pending, e.1 ≠ b.nextRequestId) :
      Step b { b with
        nextRequestId := b.nextRequestId + 1
        calls := b.calls ++ [call]
        pending := Side.insertExpected b.nextRequestId ⟨call.method.resultParser, b.calls.length⟩
          b.pending }

/-- Every response that somebody expects, or has got. -/
def expectations (b : Books) : List ExpectedResponse :=
  b.pending.map Prod.snd ++ b.reading ++ b.parsed.flatMap fun p => p.onResult.expected

/-- An accepted call whose result is read by this parser and given to this handler. -/
def Expects (b : Books) (expected : ExpectedResponse) : Prop :=
  ∃ call, b.calls[expected.handler]? = some call ∧ call.accepted = true ∧
    expected.resultParser = call.method.resultParser

theorem Expects.lt {b : Books} {expected : ExpectedResponse} (h : b.Expects expected) :
    expected.handler < b.calls.length := by
  obtain ⟨call, hcall, -⟩ := h
  exact (List.getElem?_eq_some_iff.mp hcall).1

theorem Expects.append {b c : Books} {expected : ExpectedResponse} (h : b.Expects expected)
    {more : List Call} (hcalls : c.calls = b.calls ++ more) : c.Expects expected := by
  have hlt := h.lt
  obtain ⟨call, hcall, hrest⟩ := h
  exact ⟨call, by rw [hcalls, List.getElem?_append_left hlt, hcall], hrest⟩

/-- The registry finds a call by its id. `completed` and `pending` say what has become of the
calls. -/
structure Balanced (b : Books) : Prop where
  next : b.nextRequestId = UInt64.ofNat b.calls.length
  ids : ∀ n call, b.calls[n]? = some call → call.id = UInt64.ofNat n
  keyed : ∀ e ∈ b.pending, e.1 = UInt64.ofNat e.2.handler
  expects : ∀ expected ∈ b.expectations, b.Expects expected
  pending : b.pending.length + b.parsed.countP (fun p => p.onResult.isResponse) =
    b.calls.countP Call.accepted
  results : (b.parsed.flatMap Parsed.result).Perm (b.completed.flatMap handedOver ++ b.inHand)
  refused : ∀ n ec, (n, .error ec) ∈ b.completed →
    ec = .invalidInput ∧ ∃ call, b.calls[n]? = some call ∧ call.accepted = false

theorem balanced_initial : (⟨0, [], [], [], [], [], []⟩ : Books).Balanced := by
  refine ⟨rfl, ?_, ?_, ?_, rfl, .refl _, ?_⟩ <;> simp [expectations]

theorem ofNat_ne {m n : Nat} (hmn : m < n) (hn : n < 2 ^ 64) : UInt64.ofNat m ≠ UInt64.ofNat n := by
  intro h
  have hnat := congrArg UInt64.toNat h
  simp only [UInt64.toNat_ofNat'] at hnat
  omega

/-- Fewer calls than ids have different ids. -/
theorem Balanced.fresh {b : Books} (h : b.Balanced) (hcalls : b.calls.length < 2 ^ 64) :
    ∀ e ∈ b.pending, e.1 ≠ b.nextRequestId := by
  intro e he
  have hmem : e.2 ∈ b.expectations := by
    rw [expectations, List.append_assoc]
    exact List.mem_append_left _ (List.mem_map_of_mem he)
  rw [h.next, h.keyed e he]
  exact ofNat_ne (h.expects e.2 hmem).lt hcalls

theorem next_succ {b : Books} (h : b.nextRequestId = UInt64.ofNat b.calls.length) (call : Call) :
    b.nextRequestId + 1 = UInt64.ofNat (b.calls ++ [call]).length := by
  rw [h, List.length_append, List.length_singleton, UInt64.ofNat_add]
  rfl

theorem ids_append {b : Books} (h : b.Balanced) {call : Call} (hid : call.id = b.nextRequestId)
    (n : Nat) (other : Call) (hother : (b.calls ++ [call])[n]? = some other) :
    other.id = UInt64.ofNat n := by
  rcases Nat.lt_or_ge n b.calls.length with hlt | hge
  · rw [List.getElem?_append_left hlt] at hother
    exact h.ids n other hother
  · rw [List.getElem?_append_right hge, List.getElem?_singleton] at hother
    split_ifs at hother with hzero
    cases hother
    rw [hid, h.next]
    congr 1
    omega

/-- Every step keeps the books balanced. -/
theorem Balanced.step {b b' : Books} (h : b.Balanced) (hstep : b.Step b') : b'.Balanced := by
  cases hstep with
  | same => exact h
  | @parsed p response result =>
    refine ⟨h.next, h.ids, h.keyed, ?_, ?_, ?_, h.refused⟩
    · intro expected hexpected
      refine h.expects expected ?_
      simpa [expectations, result] using hexpected
    · simpa [response] using h.pending
    · simpa [Parsed.result, result] using h.results
  | @header id key expected reading find =>
    have hperm := Side.perm_eraseP find
    refine ⟨h.next, h.ids, fun e he => h.keyed e (List.mem_of_mem_eraseP he), ?_, ?_, ?_,
      h.refused⟩
    · intro other hother
      refine h.expects other ?_
      have hsnd := hperm.map Prod.snd
      simp only [expectations, List.mem_append, List.flatMap_append, List.flatMap_singleton,
        Continuation.expected, reading, List.not_mem_nil, or_false, hsnd.mem_iff, List.map_cons,
        List.mem_cons] at hother ⊢
      tauto
    · have hlength := hperm.length_eq
      have hpending := h.pending
      simp only [List.length_cons, List.countP_append, List.countP_singleton,
        Continuation.isResponse, if_true] at hlength hpending ⊢
      omega
    · simpa [Parsed.result, Continuation.expected] using h.results
  | @result expected v rest reading =>
    refine ⟨h.next, h.ids, h.keyed, ?_, ?_, ?_, h.refused⟩
    · intro other hother
      refine h.expects other ?_
      simp only [expectations, List.mem_append, List.flatMap_append, List.flatMap_singleton,
        Continuation.expected, reading, List.mem_cons, List.not_mem_nil, or_false] at hother ⊢
      tauto
    · simpa [Continuation.isResponse] using h.pending
    · simp only [List.flatMap_append, List.flatMap_singleton, Parsed.result,
        Continuation.expected, List.map_cons, List.map_nil]
      exact (h.results.append_right _).trans
        (List.append_assoc _ _ _ ▸ (List.perm_append_singleton _ _).append_left _)
  | @completed handler v rest inHand =>
    refine ⟨h.next, h.ids, h.keyed, h.expects, h.pending, ?_, ?_⟩
    · have hresults := h.results
      rw [inHand] at hresults
      simpa [handedOver] using hresults
    · intro n ec hmem
      refine h.refused n ec ?_
      simpa using hmem
  | @refused call id accepted =>
    refine ⟨next_succ h.next call, ids_append h id, h.keyed, ?_, ?_, ?_, ?_⟩
    · exact fun expected hexpected => (h.expects expected hexpected).append rfl
    · simpa [accepted] using h.pending
    · simpa [handedOver] using h.results
    · intro n ec hmem
      rcases List.mem_append.mp hmem with hold | hnew
      · obtain ⟨hec, other, hother, hrefused⟩ := h.refused n ec hold
        refine ⟨hec, other, ?_, hrefused⟩
        rw [List.getElem?_append_left (List.getElem?_eq_some_iff.mp hother).1, hother]
      · simp only [List.mem_singleton, Prod.mk.injEq, Except.error.injEq] at hnew
        obtain ⟨rfl, rfl⟩ := hnew
        exact ⟨rfl, call, by simp, accepted⟩
  | @placed call id accepted fresh =>
    have hperm : (Side.insertExpected b.nextRequestId ⟨call.method.resultParser, b.calls.length⟩
        b.pending).Perm _ := Side.perm_insertExpected fresh
    refine ⟨next_succ h.next call, ids_append h id, ?_, ?_, ?_, h.results, ?_⟩
    · intro e he
      rcases List.mem_cons.mp (hperm.mem_iff.mp he) with rfl | hold
      · exact h.next
      · exact h.keyed e hold
    · intro expected hexpected
      have hsnd := hperm.map Prod.snd
      simp only [expectations, List.mem_append, hsnd.mem_iff, List.map_cons, List.mem_cons]
        at hexpected
      rcases hexpected with ((rfl | hpending) | hreading) | hparsed
      · exact ⟨call, by simp, accepted, rfl⟩
      all_goals
        refine (h.expects expected ?_).append rfl
        simp only [expectations, List.mem_append]
        tauto
    · have hlength := hperm.length_eq
      have hpending := h.pending
      simp only [List.length_cons, List.countP_append, List.countP_singleton, accepted, if_true]
        at hlength hpending ⊢
      omega
    · intro n ec hmem
      obtain ⟨hec, other, hother, hrefused⟩ := h.refused n ec hmem
      refine ⟨hec, other, ?_, hrefused⟩
      rw [List.getElem?_append_left (List.getElem?_eq_some_iff.mp hother).1, hother]

end Books

namespace Side

def books (s : Side) : Books where
  nextRequestId := s.nextRequestId
  pending := s.expectedResponses
  calls := s.history.calls
  parsed := s.history.parsed
  completed := s.history.completed
  reading := s.active.flatMap fun operation => operation.onResult.expected
  inHand := s.stack.flatMap Frame.result

theorem begun_books (s : Side) : s.begun.books = s.books := by
  simp only [books, begun_active, List.flatMap_cons]
  rfl

theorem summon_books (s : Side) : s.summon.books = s.books := by
  unfold summon
  split_ifs
  · exact begun_books s
  · rfl

theorem release_books (s : Side) : s.release.books = s.books := by
  unfold release
  split_ifs
  · exact (begun_books _).trans rfl
  · rfl

theorem beginParseValue_books (s : Side) (k : Continuation) :
    (s.beginParseValue k).books = { s.books with reading := k.expected ++ s.books.reading } := by
  simp only [books, beginParseValue_active, List.flatMap_cons]
  rfl

theorem push_books (s : Side) {frame : Frame} (hoperation : frame.operation = []) :
    (s.push [frame]).books = { s.books with inHand := frame.result ++ s.books.inHand } := by
  have hactive : (s.push [frame]).active = s.active := by
    rw [push_active, List.flatMap_singleton, hoperation, List.nil_append]
  have hstack : (s.push [frame]).stack.flatMap Frame.result =
      frame.result ++ s.stack.flatMap Frame.result := by
    rw [push, List.flatMap_append, List.flatMap_singleton]
  simp only [books, hactive, hstack]
  rfl

theorem popped_books {s : Side} {frame : Frame} {stack : List Frame}
    (hstack : s.stack = frame :: stack) (hoperation : frame.operation = []) :
    s.books = { books { s with stack } with
      inHand := frame.result ++ (books { s with stack }).inHand } := by
  have hactive : active { s with stack } = s.active := by
    rw [active, active, hstack, List.flatMap_cons, hoperation]
    rfl
  simp only [books, hactive, hstack, List.flatMap_cons]

variable [Platform]

omit [Platform] in
theorem started_books {s : Side} {operation : ParseOperation} {stack : List Frame}
    (hstack : s.stack = .start operation :: stack) :
    s.books = { books { s with stack } with
      reading := operation.onResult.expected ++ (books { s with stack }).reading } := by
  have hactive : s.active = operation :: active { s with stack } := by
    rw [active, hstack]
    rfl
  simp only [books, hactive, hstack, List.flatMap_cons]
  rfl

/-- A frame that is resumed makes a step of the books. -/
theorem Calm.resumed_books {servers : InterfaceDefinition} {s s' : Side} (h : s.Calm)
    {frame : Frame} {stack : List Frame} (hstack : s.stack = frame :: stack)
    (hresumed : Resumed servers { s with stack } frame s') : s.books.Step s'.books := by
  cases hresumed with
  | @more operation parser reads =>
    have hsame : s.books = Side.books { s with
        stack
        buffer := []
        reads := s.reads ++ [⟨parser, operation.onResult, operation.seen ++ s.buffer⟩] } := by
      simp only [books, h.alone hstack, active_more (h.ready hstack).active, hstack,
        List.flatMap_cons]
      rfl
    exact hsame ▸ .same
  | @responseType operation rest kind reads waiting =>
    rw [started_books hstack, kind, beginParseValue_books]
    exact Books.Step.parsed (p := ⟨.messageType, .integer 1⟩) rfl rfl
  | @requestType operation rest kind reads waiting =>
    rw [started_books hstack, kind, beginParseValue_books]
    exact Books.Step.parsed (p := ⟨.messageType, .integer 0⟩) rfl rfl
  | @responseHeader operation rest id key expected kind reads find =>
    have hreading : (books { s with stack }).reading = [] := by
      simp only [books, (h.ready hstack).active, List.flatMap_nil]
    rw [started_books hstack, kind, beginParseValue_books, push_books _ rfl]
    exact Books.Step.header hreading find
  | @requestHeader operation rest id name m handler kind reads waiting find =>
    rw [started_books hstack, kind, beginParseValue_books, push_books _ rfl]
    exact Books.Step.parsed (p := ⟨.request, .tuple [.integer id, .utf8 name]⟩) rfl rfl
  | @result operation expected v rest kind reads =>
    rw [started_books hstack, kind, release_books, push_books _ rfl]
    exact Books.Step.result rfl
  | @argument operation id name m handler v rest kind reads =>
    rw [started_books hstack, kind, release_books, push_books _ rfl]
    exact Books.Step.parsed (p := ⟨.argument id name m handler, v⟩) rfl rfl
  | requestContinue | responseContinue | writerDone =>
    rw [popped_books hstack rfl]
    exact .same
  | @lastResult handler v =>
    change s.books.Step (Side.push { s with stack } [.resultReady handler v]).books
    rw [popped_books hstack rfl, push_books _ rfl]
    exact .same
  | @nextHeader handler v =>
    rw [summon_books]
    change s.books.Step (Side.push { s with stack } [.resultReady handler v]).books
    rw [popped_books hstack rfl, push_books _ rfl]
    exact .same
  | resultReady =>
    rw [popped_books hstack rfl, callResultHandler, push_books _ rfl]
    exact .completed rfl
  | implementation | writer =>
    rw [popped_books hstack rfl, push_books _ rfl]
    exact .same
  | @responseSent output handler =>
    rw [popped_books hstack rfl, complete, push_books _ rfl]
    have hwriter := push_books { s with stack, output } (show Frame.writer.operation = [] from rfl)
    exact (congrArg (Books.Step _) hwriter).mpr .same

/-- So does every other step that leaves the calm. -/
theorem Calm.moved_books {clients servers : InterfaceDefinition} {s s' : Side} {event : Event}
    (h : s.Calm) (hmoved : Moved clients servers s event s')
    (hfresh : ∀ name arguments, event = .call name arguments → s.Fresh) :
    s.books.Step s'.books := by
  cases hmoved with
  | resume hstack hresumed => exact h.resumed_books hstack hresumed
  | @refused name m arguments runs find short fits refused =>
    rw [Side.refused, callResultHandler, push_books _ rfl]
    exact Books.Step.refused rfl refused
  | @placed name m arguments runs find short fits accepted =>
    exact @Books.Step.placed s.books ⟨s.nextRequestId, name, m, arguments, _⟩ rfl accepted
      (hfresh name arguments rfl)
  | @awaited name m arguments runs find short fits accepted =>
    rw [summon_books]
    exact @Books.Step.placed s.books ⟨s.nextRequestId, name, m, arguments, _⟩ rfl accepted
      (hfresh name arguments rfl)
  | serve =>
    rw [summon_books]
    exact .same
  | answered => exact .same
  | «return» hstack =>
    rw [popped_books hstack rfl]
    exact .same
  | @read operation bytes hstack hreads =>
    have hsame : (s.delivered operation bytes).books = s.books := by
      have hactive : (s.delivered operation bytes).active = s.active := by
        rw [active, active, hstack, hreads]
        rfl
      simp only [books, hactive, hstack]
      rfl
    exact hsame ▸ .same
  | written =>
    rw [push_books _ rfl]
    exact .same

end Side

end Warpcoil
