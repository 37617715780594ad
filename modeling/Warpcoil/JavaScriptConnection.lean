import Warpcoil.Library.Transition
import Warpcoil.JavaScriptReceiver

/-! The generated client and the receiver that shares its `pending_requests`: the ids of the calls
go through eight bytes to the server and come back as the keys of the entries. -/
namespace Warpcoil
namespace JavaScript
open Answering

/-! ### The ids -/

/-- What the two `setUint32` write for `{high: 0, low: next_request_id}`. -/
def idBytes (nextRequestId : Nat) : List UInt8 :=
  BigEndian.toBytes 4 0 ++ BigEndian.toBytes 4 nextRequestId

theorem ofBytes_idBytes {n : Nat} (h : n < 2 ^ 32) : BigEndian.ofBytes (idBytes n) = n := by
  have hzero : BigEndian.toBytes 4 (n / 256 ^ 4) = BigEndian.toBytes 4 0 := by
    rw [Nat.div_eq_of_lt (by omega)]
  rw [idBytes, ← hzero, ← BigEndian.toBytes_add 4 4 n]
  exact BigEndian.ofBytes_toBytes _ _ (by omega)

theorem idBytes_inj {m n : Nat} (hm : m < 2 ^ 32) (hn : n < 2 ^ 32) (h : idBytes m = idBytes n) :
    m = n := by
  rw [← ofBytes_idBytes hm, h, ofBytes_idBytes hn]

/-- The parser of the id returns the object that is the key of the call, if it is not negative. -/
theorem idBytes_completes {n : Nat} (h : n < 2 ^ 32) : ∃ t,
    Completes ByteParser.step requestIdParserCreation (idBytes n) (.halves 0 (signed n)) t := by
  have hid : (UInt64.ofNat n).toNat = n := by
    rw [UInt64.toNat_ofNat']
    omega
  obtain ⟨t, ht⟩ := id_completes (UInt64.ofNat n)
  have hbytes : writeInteger .uint64 (UInt64.ofNat n).toNat = idBytes n := by
    rw [writeInteger_eq, hid]
    have hback := BigEndian.toBytes_ofBytes (idBytes n)
    rw [ofBytes_idBytes h] at hback
    exact hback
  have hhigh : n / 2 ^ 32 = 0 := by omega
  have hlow : n % 2 ^ 32 = n := by omega
  rw [hbytes, hid, hhigh, hlow] at ht
  exact ⟨t, ht⟩

/-! ### The entries -/

/-- The entries of the calls that are not among those taken. -/
def held (calls : List Method) (taken : List Nat) : PendingRequests := fun key =>
  if key.1 = 0 ∧ 0 ≤ key.2 ∧ key.2.toNat ∉ taken then
    (calls[key.2.toNat]?).bind fun m =>
      (generateParserCreation m.result).map fun argumentParser => ⟨argumentParser, key.2.toNat⟩
  else none

theorem held_call {calls : List Method} {taken : List Nat} {n : Nat} (h : n ∉ taken) :
    held calls taken (0, n) = (calls[n]?).bind fun m =>
      (generateParserCreation m.result).map fun argumentParser => ⟨argumentParser, n⟩ := by
  have hcast : ((n : Int)).toNat = n := Int.toNat_natCast n
  rw [held]
  simp only [hcast]
  exact if_pos ⟨trivial, Int.natCast_nonneg n, h⟩

theorem held_append {calls : List Method} {taken : List Nat} {m : Method} {parser : ByteParser}
    (hparser : generateParserCreation m.result = some parser)
    (h : ∀ call ∈ taken, call < calls.length) :
    held (calls ++ [m]) taken = Function.update (held calls taken) (0, (calls.length : Int))
      (some ⟨parser, calls.length⟩) := by
  funext key
  by_cases hkey : key = (0, (calls.length : Int))
  · subst hkey
    rw [Function.update_self, held_call fun hmem => Nat.lt_irrefl _ (h _ hmem),
      List.getElem?_concat_length, Option.bind_some, hparser, Option.map_some]
  · rw [Function.update_of_ne hkey, held, held]
    split_ifs with hcond
    · have hne : key.2.toNat ≠ calls.length := by
        intro heq
        refine hkey (Prod.ext hcond.1 ?_)
        have := hcond.2.1
        dsimp only
        omega
      congr 1
      by_cases hlt : key.2.toNat < calls.length
      · exact List.getElem?_append_left hlt
      · rw [List.getElem?_eq_none (by simp; omega), List.getElem?_eq_none (by omega)]
    · rfl

theorem held_remove (calls : List Method) (taken : List Nat) (n : Nat) :
    held calls (taken ++ [n]) = Function.update (held calls taken) (0, (n : Int)) none := by
  funext key
  by_cases hkey : key = (0, (n : Int))
  · subst hkey
    rw [Function.update_self, held, Int.toNat_natCast]
    exact if_neg fun hcond => hcond.2.2 (by simp)
  · rw [Function.update_of_ne hkey, held, held]
    have hiff : (key.1 = 0 ∧ 0 ≤ key.2 ∧ key.2.toNat ∉ taken ++ [n]) ↔
        key.1 = 0 ∧ 0 ≤ key.2 ∧ key.2.toNat ∉ taken := by
      rw [List.mem_append, List.mem_singleton]
      constructor
      · exact fun ⟨hzero, hpos, hmem⟩ => ⟨hzero, hpos, fun hin => hmem (.inl hin)⟩
      · rintro ⟨hzero, hpos, hmem⟩
        refine ⟨hzero, hpos, fun hin => ?_⟩
        rcases hin with hin | heq
        · exact hmem hin
        · exact hkey (Prod.ext hzero (by dsimp only; omega))
    rw [if_congr hiff rfl rfl]

theorem held_ne_none {calls : List Method} {taken : List Nat}
    (hcreated : ∀ m ∈ calls, ∃ parser, generateParserCreation m.result = some parser) {key : Key} :
    held calls taken key ≠ none ↔
      ∃ call : Nat, key = (0, (call : Int)) ∧ call < calls.length ∧ call ∉ taken := by
  constructor
  · intro hne
    rw [held] at hne
    split_ifs at hne with hcond
    · obtain ⟨hzero, hpos, hmem⟩ := hcond
      refine ⟨key.2.toNat, Prod.ext hzero (Int.toNat_of_nonneg hpos).symm, ?_, hmem⟩
      by_contra hge
      rw [List.getElem?_eq_none (Nat.not_lt.mp hge)] at hne
      exact hne rfl
    · exact absurd rfl hne
  · rintro ⟨call, rfl, hlt, hmem⟩
    obtain ⟨parser, hparser⟩ := hcreated calls[call] (List.getElem_mem hlt)
    rw [held_call hmem, List.getElem?_eq_getElem hlt, Option.bind_some, hparser]
    exact Option.some_ne_none _

/-! ### The runs -/

variable [Platform]

/-- The answer of the server to a call. -/
structure Answer where
  call : Nat
  method : Method
  value : Value

/-- The server sends the id that it has read. -/
def Answer.message (a : Answer) : Emission UInt8 :=
  responseMessage (UInt64.ofNat (BigEndian.ofBytes (idBytes a.call))) a.method a.value

def Answer.payload (a : Answer) : List UInt8 :=
  match typeEmptiness a.method.result with
  | .empty => []
  | .nonEmpty => (generateValueSerialization a.method.result a.value).output

/-- What `on_result` of the call is to be called with. -/
def Answer.result (a : Answer) : Nat × Received :=
  (a.call, if typeEmptiness a.method.result = .empty then .array []
    else received a.method.result a.value)

/-- A client, its receiver, and the responses that are on their way. -/
structure Connection where
  nextRequestId : Nat := 0
  receiver : Receiver := {}
  incoming : List UInt8 := []
  /-- The methods that have been called. -/
  calls : List Method := []
  answers : List Answer := []
  /-- The calls of the functions `on_result`. -/
  results : List (Nat × Received) := []
  failure : Option Failure := none

inductive Action where
  | call (m : Method)
  /-- The server answers a call that it has not answered. -/
  | answer (call : Nat) (value : Value)
  /-- The receiver is given the next byte. -/
  | receive

def Connection.record (s : Connection) : Option Effect → List (Nat × Received)
  | some (.result onResult value) => s.results ++ [(onResult, value)]
  | some (.calls _ _ _) | none => s.results

def Connection.step (handlers : List RequestHandler) (s : Connection) : Action → Option Connection
  | .call m =>
    -- an entry for `JSON.stringify(request_id)`
    (generateParserCreation m.result).map fun argumentParser =>
      { s with
        nextRequestId := s.nextRequestId + 1
        receiver.pendingRequests := Function.update s.receiver.pendingRequests
          (0, s.nextRequestId) (some ⟨argumentParser, s.calls.length⟩)
        calls := s.calls ++ [m] }
  | .answer call value =>
    (s.calls[call]?).bind fun method =>
      let answer : Answer := ⟨call, method, value⟩
      if call ∉ s.answers.map Answer.call ∧ answer.message.ok = true then
        some { s with
          answers := s.answers ++ [answer]
          incoming := s.incoming ++ answer.message.output }
      else none
  | .receive =>
    match s.failure, s.incoming with
    | none, input :: incoming =>
      match s.receiver.step handlers input with
      | .error failure => some { s with incoming, failure := some failure }
      | .ok (receiver, effect) =>
        some { s with incoming, receiver, results := s.record effect }
    | _, _ => none

def stream (answers : List Answer) : List UInt8 :=
  answers.flatMap fun a => a.message.output

/-- Every response finds the entry of its call, removes it and completes the call. -/
structure Connection.Recognised (s : Connection) : Prop where
  unfailed : s.failure = none
  once : (s.results.map Prod.fst).Nodup
  /-- The calls whose responses have been received, in this order. -/
  completed : ∃ done rest, s.answers = done ++ rest ∧ s.results = done.map Answer.result ∧
    s.incoming <:+ stream rest ∧
    (∀ a more, rest = a :: more → (stream more).length < s.incoming.length) ∧
    ∀ key, s.receiver.pendingRequests key ≠ none ↔ ∃ call : Nat, key = (0, (call : Int)) ∧
      call < s.calls.length ∧ call ∉ done.map Answer.call ∧
      ∀ a more, rest = a :: more → a.call = call →
        (a.payload ++ stream more).length < s.incoming.length
  distinct : ∀ call call' : Nat, s.receiver.pendingRequests (0, call) ≠ none →
    s.receiver.pendingRequests (0, call') ≠ none → idBytes call = idBytes call' → call = call'

/-- Where the ids of the calls are positive numbers of 32 bits, and the results are received. -/
def Recognisable (s : Connection) : Action → Prop
  | .call _ => s.nextRequestId < 2 ^ 31
  | .answer call value => ∀ method, s.calls[call]? = some method →
    typeEmptiness method.result = .empty ∨ Receivable method.result value
  | .receive => True

/-! ### The messages -/

theorem Answer.message_output (a : Answer) :
    a.message.output = 1 :: (idBytes a.call ++ a.payload) := by
  have hid : writeInteger .uint64
      (UInt64.ofNat (BigEndian.ofBytes (idBytes a.call))).toNat = idBytes a.call := by
    have hlt := BigEndian.ofBytes_lt (idBytes a.call)
    have hlength : (idBytes a.call).length = 8 := by
      rw [idBytes, List.length_append, BigEndian.toBytes_length, BigEndian.toBytes_length]
    rw [hlength] at hlt
    have hback := BigEndian.toBytes_ofBytes (idBytes a.call)
    rw [hlength] at hback
    rw [writeInteger_eq, UInt64.toNat_ofNat', Nat.mod_eq_of_lt (by omega)]
    exact hback
  rw [Answer.message, responseMessage, Emission.seq_output _ _ rfl, Emission.emit_output,
    messageHeader, hid, Answer.payload]
  cases typeEmptiness a.method.result with
  | empty => rfl
  | nonEmpty => rfl

/-- The result of a method is received, or its parser is not needed. -/
theorem Answer.received {a : Answer} {parser : ByteParser} (hok : a.message.ok = true)
    (hparser : generateParserCreation a.method.result = some parser)
    (h : typeEmptiness a.method.result = .empty ∨ Receivable a.method.result a.value) :
    parser = .undefined ∧ a.payload = [] ∧ a.result = (a.call, .array []) ∨
      ∃ t, Completes ByteParser.step parser a.payload a.result.2 t := by
  cases hempty : typeEmptiness a.method.result with
  | empty =>
    have hundefined : parser = .undefined := by
      cases hresult : a.method.result with
      | integer range => rw [hresult] at hempty; cases hempty
      | vector length element => rw [hresult] at hempty; cases hempty
      | utf8 codeUnits => rw [hresult] at hempty; cases hempty
      | variant elements => rw [hresult] at hparser; cases hparser
      | tuple elements =>
        rw [hresult] at hempty hparser
        cases elements with
        | nil => exact (Option.some.inj hparser).symm
        | cons t ts => cases hempty
      | struct elements =>
        rw [hresult] at hempty hparser
        cases elements with
        | nil => exact (Option.some.inj hparser).symm
        | cons t ts => cases hempty
    refine .inl ⟨hundefined, ?_, ?_⟩
    · rw [Answer.payload, hempty]
    · rw [Answer.result, if_pos hempty]
  | nonEmpty =>
    have hreceivable : Receivable a.method.result a.value := by
      refine h.resolve_left ?_
      rw [hempty]
      exact TypeEmptiness.noConfusion
    have hserialized : (generateValueSerialization a.method.result a.value).ok = true := by
      rw [Answer.message, responseMessage, Emission.seq_ok, hempty] at hok
      exact hok
    obtain ⟨t, ht⟩ := value_receives a.method.result a.value parser hserialized hparser
    have hresult : a.result.2 = JavaScript.received a.method.result a.value := by
      rw [Answer.result, hempty, if_neg nofun]
    rw [Answer.payload, hempty, hresult]
    exact .inr ⟨t, ht.completes hreceivable⟩

/-! ### What holds in a run -/

/-- Where the receiver is in the responses. Those in `done` are complete, and the entries of the
calls in `taken` have been removed. -/
inductive Phase : ReceiverState → List UInt8 → List Answer → List Answer → List Nat → Prop
  | initial (done rest : List Answer) :
    Phase .initial (stream rest) done rest (done.map Answer.call)
  | responseId {parser t : ByteParser} {front left : List UInt8} (done : List Answer)
      (a : Answer) (rest : List Answer)
      (h : Completes ByteParser.step parser left (.halves 0 a.call) t)
      (hid : idBytes a.call = front ++ left) :
    Phase (.responseId parser) (left ++ a.payload ++ stream rest) done (a :: rest)
      (done.map Answer.call)
  | responseArgument {parser t : ByteParser} {front left : List UInt8} (done : List Answer)
      (a : Answer) (rest : List Answer) (request : PendingRequest)
      (h : Completes ByteParser.step parser left a.result.2 t)
      (hpayload : a.payload = front ++ left) (hcall : request.onResult = a.call) :
    Phase (.responseArgument request parser) (left ++ stream rest) done (a :: rest)
      (done.map Answer.call ++ [a.call])

structure Connection.Consistent (s : Connection) (done rest : List Answer) (taken : List Nat) :
    Prop where
  counted : s.nextRequestId = s.calls.length
  bounded : s.calls.length ≤ 2 ^ 31
  created : ∀ m ∈ s.calls, ∃ parser, generateParserCreation m.result = some parser
  answers : s.answers = done ++ rest
  answered : ∀ a ∈ s.answers, s.calls[a.call]? = some a.method ∧ a.message.ok = true ∧
    (typeEmptiness a.method.result = .empty ∨ Receivable a.method.result a.value)
  once : (s.answers.map Answer.call).Nodup
  results : s.results = done.map Answer.result
  unfailed : s.failure = none
  pending : s.receiver.pendingRequests = held s.calls taken
  phase : Phase s.receiver.state s.incoming done rest taken

theorem stream_cons (a : Answer) (rest : List Answer) :
    stream (a :: rest) = 1 :: (idBytes a.call ++ a.payload ++ stream rest) := by
  rw [stream, List.flatMap_cons, Answer.message_output]
  rfl

theorem stream_concat (rest : List Answer) (a : Answer) :
    stream (rest ++ [a]) = stream rest ++ a.message.output := by
  rw [stream, List.flatMap_append, List.flatMap_singleton]
  rfl

theorem Phase.append {state : ReceiverState} {incoming : List UInt8} {done rest : List Answer}
    {taken : List Nat} (h : Phase state incoming done rest taken) (a : Answer) :
    Phase state (incoming ++ a.message.output) done (rest ++ [a]) taken := by
  cases h with
  | initial =>
    rw [← stream_concat]
    exact .initial done _
  | responseId done b rest h hid =>
    rw [List.append_assoc, ← stream_concat]
    exact .responseId done b _ h hid
  | responseArgument done b rest request h hpayload hcall =>
    rw [List.append_assoc, ← stream_concat]
    exact .responseArgument done b _ request h hpayload hcall

theorem Phase.taken {state : ReceiverState} {incoming : List UInt8} {done rest : List Answer}
    {taken : List Nat} (h : Phase state incoming done rest taken) :
    ∀ call ∈ taken, call ∈ (done ++ rest).map Answer.call := by
  intro call hmem
  rw [List.map_append]
  cases h with
  | initial => exact List.mem_append_left _ hmem
  | responseId => exact List.mem_append_left _ hmem
  | responseArgument done b rest =>
    rcases List.mem_append.mp hmem with hdone | hlast
    · exact List.mem_append_left _ hdone
    · rw [List.mem_singleton.mp hlast]
      exact List.mem_append_right _ List.mem_cons_self

section
variable {s s' : Connection} {done rest : List Answer} {taken : List Nat}

theorem Connection.Consistent.call (h : s.Consistent done rest taken)
    {handlers : List RequestHandler} {m : Method} (hid : s.nextRequestId < 2 ^ 31)
    (hstep : s.step handlers (.call m) = some s') : s'.Consistent done rest taken := by
  rw [Connection.step, Option.map_eq_some_iff] at hstep
  obtain ⟨parser, hparser, rfl⟩ := hstep
  have hlt (a : Answer) (ha : a ∈ s.answers) : a.call < s.calls.length :=
    (List.getElem?_eq_some_iff.mp (h.answered a ha).1).choose
  refine { h with counted := ?_, bounded := ?_, created := ?_, answered := ?_, pending := ?_ }
  · rw [h.counted, List.length_append, List.length_singleton]
  · rw [List.length_append, List.length_singleton, ← h.counted]
    exact hid
  · intro m' hm'
    rcases List.mem_append.mp hm' with hold | hnew
    · exact h.created m' hold
    · rw [List.mem_singleton.mp hnew]
      exact ⟨parser, hparser⟩
  · intro a ha
    rw [List.getElem?_append_left (hlt a ha)]
    exact h.answered a ha
  · rw [held_append hparser, ← h.pending, ← h.counted]
    intro call hcall
    obtain ⟨a, ha, rfl⟩ := List.mem_map.mp (h.phase.taken call hcall)
    exact hlt a (h.answers ▸ ha)

theorem Connection.Consistent.answer (h : s.Consistent done rest taken)
    {handlers : List RequestHandler} {call : Nat} {value : Value}
    (hreceived : ∀ method, s.calls[call]? = some method →
      typeEmptiness method.result = .empty ∨ Receivable method.result value)
    (hstep : s.step handlers (.answer call value) = some s') :
    ∃ a, s'.Consistent done (rest ++ [a]) taken := by
  rw [Connection.step, Option.bind_eq_some_iff] at hstep
  obtain ⟨method, hmethod, hstep⟩ := hstep
  dsimp only at hstep
  split_ifs at hstep with hcond
  cases hstep
  refine ⟨⟨call, method, value⟩, { h with answers := ?_, answered := ?_, once := ?_, phase := ?_ }⟩
  · rw [h.answers, List.append_assoc]
  · intro a ha
    rcases List.mem_append.mp ha with hold | hnew
    · exact h.answered a hold
    · rw [List.mem_singleton.mp hnew]
      exact ⟨hmethod, hcond.2, hreceived method hmethod⟩
  · rw [List.map_append, List.nodup_append]
    refine ⟨h.once, List.nodup_singleton _, ?_⟩
    rintro c hc d hd rfl
    rw [List.mem_singleton.mp hd] at hc
    exact hcond.1 hc
  · exact h.phase.append _

theorem Connection.step_receive {handlers : List RequestHandler} (hunfailed : s.failure = none)
    (hstep : s.step handlers .receive = some s') :
    ∃ input incoming, s.incoming = input :: incoming ∧
      ∀ receiver effect, s.receiver.step handlers input = .ok (receiver, effect) →
        s' = { s with incoming, receiver, results := s.record effect } := by
  rw [Connection.step, hunfailed] at hstep
  cases hincoming : s.incoming with
  | nil => rw [hincoming] at hstep; cases hstep
  | cons input incoming =>
    rw [hincoming] at hstep
    refine ⟨input, incoming, rfl, fun receiver effect hreceiver => ?_⟩
    dsimp only at hstep
    rw [hreceiver] at hstep
    refine (Option.some.inj hstep).symm.trans ?_
    rw [hunfailed]

theorem Connection.Consistent.call_lt (h : s.Consistent done rest taken) {a : Answer}
    (ha : a ∈ s.answers) : a.call < 2 ^ 31 := by
  obtain ⟨hlt, -⟩ := List.getElem?_eq_some_iff.mp (h.answered a ha).1
  exact Nat.lt_of_lt_of_le hlt h.bounded

/-- With the last byte of its id a response finds the entry of its call. -/
theorem Connection.Consistent.entry {a : Answer} (h : s.Consistent done (a :: rest) taken)
    (htaken : taken = done.map Answer.call) :
    ∃ parser, generateParserCreation a.method.result = some parser ∧ a.call ∉ taken ∧
      s.receiver.pendingRequests (0, (a.call : Int)) = some ⟨parser, a.call⟩ := by
  have hmem : a ∈ s.answers := by
    rw [h.answers]
    simp
  obtain ⟨hcall, -, -⟩ := h.answered a hmem
  obtain ⟨parser, hparser⟩ := h.created a.method (List.mem_of_getElem? hcall)
  have honce := h.once
  rw [h.answers, List.map_append, List.map_cons, List.nodup_append] at honce
  have hnot : a.call ∉ taken := fun hin =>
    honce.2.2 _ (htaken ▸ hin) a.call List.mem_cons_self rfl
  refine ⟨parser, hparser, hnot, ?_⟩
  rw [h.pending, held_call hnot, hcall, Option.bind_some, hparser, Option.map_some]

omit [Platform] in
theorem Receiver.step_undefined {r : Receiver} {handlers : List RequestHandler}
    {parser t : ByteParser} {input : UInt8} {high low : Int} {onResult : Nat}
    (hstate : r.state = .responseId parser)
    (hstep : parser.step input = .ok (t, some (.halves high low)))
    (hentry : r.pendingRequests (high, low) = some ⟨.undefined, onResult⟩) :
    r.step handlers input =
      .ok (⟨.initial, Function.update r.pendingRequests (high, low) none⟩,
        some (.result onResult (.array []))) := by
  rw [Receiver.step, hstate]
  simp only [hstep, Received.key, Option.bind_some, hentry, Option.map_some]

omit [Platform] in
theorem Receiver.step_argument {r : Receiver} {handlers : List RequestHandler}
    {parser argumentParser t : ByteParser} {input : UInt8} {high low : Int} {onResult : Nat}
    (hstate : r.state = .responseId parser)
    (hstep : parser.step input = .ok (t, some (.halves high low)))
    (hentry : r.pendingRequests (high, low) = some ⟨argumentParser, onResult⟩)
    (hne : argumentParser ≠ .undefined) :
    r.step handlers input =
      .ok (⟨.responseArgument ⟨argumentParser, onResult⟩ argumentParser,
        Function.update r.pendingRequests (high, low) none⟩, none) := by
  rw [Receiver.step, hstate]
  simp only [hstep, Received.key, Option.bind_some, hentry, Option.map_some]

omit [Platform] in
theorem undefined_completes {bs : List UInt8} {a : Received} {t : ByteParser} :
    ¬ Completes ByteParser.step .undefined bs a t := by
  intro h
  cases bs with
  | nil => exact h.ne_nil rfl
  | cons b bs =>
    rcases h.cases with ⟨-, hstep⟩ | ⟨u, hstep, -⟩
    · cases hstep
    · cases hstep

/-- The state behind a byte. -/
theorem Connection.Consistent.receive (h : s.Consistent done rest taken)
    {handlers : List RequestHandler} (hstep : s.step handlers .receive = some s') :
    ∃ done' rest' taken', s'.Consistent done' rest' taken' := by
  obtain ⟨input, incoming, hincoming, hnext⟩ := Connection.step_receive h.unfailed hstep
  have hphase := h.phase
  generalize hstate : s.receiver.state = state at hphase
  rw [hincoming] at hphase
  generalize hbytes : input :: incoming = bytes at hphase
  cases hphase with
  | initial =>
    cases rest with
    | nil => cases hbytes
    | cons a rest =>
      rw [stream_cons] at hbytes
      obtain ⟨rfl, rfl⟩ := List.cons.inj hbytes
      have hcall := h.call_lt (a := a) (by rw [h.answers]; simp)
      obtain ⟨t, ht⟩ := idBytes_completes (n := a.call) (by omega)
      rw [signed_eq_iff.mpr hcall] at ht
      obtain rfl := hnext { s.receiver with state := .responseId requestIdParserCreation } none
        (by rw [Receiver.step, hstate]; rfl)
      refine ⟨done, a :: rest, _, { h with phase := ?_ }⟩
      exact .responseId done a rest ht (List.nil_append _).symm
  | @responseId parser t front left _ a rest hcompletes hid =>
    cases left with
    | nil => exact absurd rfl hcompletes.ne_nil
    | cons b left =>
      obtain ⟨rfl, rfl⟩ := List.cons.inj hbytes
      rcases hcompletes.cases with ⟨rfl, hlast⟩ | ⟨u, hnone, hrest⟩
      · -- the last byte of the id
        obtain ⟨argumentParser, hparser, hnot, hentry⟩ := h.entry rfl
        obtain ⟨-, hok, hreceived⟩ := h.answered a (by rw [h.answers]; simp)
        have hpending : Function.update s.receiver.pendingRequests (0, (a.call : Int)) none =
            held s.calls (done.map Answer.call ++ [a.call]) := by
          rw [held_remove, h.pending]
        rcases Answer.received hok hparser hreceived with ⟨rfl, hpayload, hresult⟩ | ⟨u, hu⟩
        · obtain rfl := hnext _ _ (Receiver.step_undefined hstate hlast hentry)
          refine ⟨done ++ [a], rest, (done ++ [a]).map Answer.call, { h with
            answers := by rw [h.answers, List.append_assoc]; rfl
            results := ?_
            pending := by rw [List.map_append]; exact hpending
            phase := ?_ }⟩
          · rw [Connection.record, h.results, List.map_append, List.map_singleton, hresult]
          · change Phase .initial ([] ++ a.payload ++ stream rest) _ _ _
            rw [hpayload]
            exact .initial (done ++ [a]) rest
        · have hne : argumentParser ≠ .undefined := by
            rintro rfl
            exact undefined_completes hu
          obtain rfl := hnext _ _ (Receiver.step_argument hstate hlast hentry hne)
          refine ⟨done, a :: rest, _, { h with
            pending := hpending
            phase := ?_ }⟩
          exact .responseArgument done a rest _ hu (List.nil_append _).symm rfl
      · obtain rfl := hnext { s.receiver with state := .responseId u } none
          (by rw [Receiver.step, hstate]; simp only [hnone])
        refine ⟨done, a :: rest, _, { h with phase := ?_ }⟩
        have hid' : idBytes a.call = (front ++ [input]) ++ left := by
          rw [hid, List.append_assoc]
          rfl
        exact .responseId done a rest hrest hid'
  | @responseArgument parser t front left _ a rest request hcompletes hpayload hcall =>
    cases left with
    | nil => exact absurd rfl hcompletes.ne_nil
    | cons b left =>
      obtain ⟨rfl, rfl⟩ := List.cons.inj hbytes
      rcases hcompletes.cases with ⟨rfl, hlast⟩ | ⟨u, hnone, hrest⟩
      · -- the last byte of the result
        obtain rfl := hnext { s.receiver with state := .initial }
          (some (.result request.onResult a.result.2))
          (by rw [Receiver.step, hstate]; simp only [hlast])
        refine ⟨done ++ [a], rest, (done ++ [a]).map Answer.call, { h with
          answers := by rw [h.answers, List.append_assoc]; rfl
          results := ?_
          pending := by rw [List.map_append]; exact h.pending
          phase := .initial (done ++ [a]) rest }⟩
        rw [Connection.record, h.results, List.map_append, List.map_singleton, hcall]
        rfl
      · obtain rfl := hnext { s.receiver with state := .responseArgument request u } none
          (by rw [Receiver.step, hstate]; simp only [hnone])
        refine ⟨done, a :: rest, _, { h with phase := ?_ }⟩
        have hpayload' : a.payload = (front ++ [input]) ++ left := by
          rw [hpayload, List.append_assoc]
          rfl
        exact .responseArgument done a rest request hrest hpayload' hcall

theorem Phase.progress {state : ReceiverState} {incoming : List UInt8}
    (h : Phase state incoming done rest taken) :
    incoming <:+ stream rest ∧
      (∀ a more, rest = a :: more → (stream more).length < incoming.length) ∧
      ∀ call, call ∉ taken ↔ call ∉ done.map Answer.call ∧ ∀ a more, rest = a :: more →
        a.call = call → (a.payload ++ stream more).length < incoming.length := by
  cases h with
  | initial =>
    refine ⟨List.suffix_rfl, fun a more heq => ?_, fun call => ?_⟩
    · rw [heq, stream_cons]
      simp only [List.length_cons, List.length_append]
      omega
    · refine (and_iff_left fun a more heq hcall => ?_).symm
      rw [heq, stream_cons]
      simp only [List.length_cons, List.length_append]
      omega
  | @responseId parser t front left _ a rest hcompletes hid =>
    have hpos := List.length_pos_iff.mpr hcompletes.ne_nil
    refine ⟨?_, ?_, fun call => ?_⟩
    · rw [stream_cons, hid, List.append_assoc front, List.append_assoc front]
      exact (List.suffix_append _ _).trans (List.suffix_cons _ _)
    · rintro b more heq
      cases heq
      simp only [List.length_append]
      omega
    · refine (and_iff_left ?_).symm
      rintro b more heq -
      cases heq
      simp only [List.length_append]
      omega
  | @responseArgument parser t front left _ a rest request hcompletes hpayload hcall =>
    have hpos := List.length_pos_iff.mpr hcompletes.ne_nil
    refine ⟨?_, ?_, fun call => ?_⟩
    · rw [stream_cons, hpayload, ← List.append_assoc, List.append_assoc _ left]
      exact (List.suffix_append _ _).trans (List.suffix_cons _ _)
    · rintro b more heq
      cases heq
      simp only [List.length_append]
      omega
    · rw [List.mem_append, List.mem_singleton, not_or]
      refine and_congr_right fun _ => ⟨?_, ?_⟩
      · rintro hne b more heq rfl
        cases heq
        exact absurd rfl hne
      · rintro hall rfl
        have hlt := hall a rest rfl rfl
        rw [hpayload] at hlt
        simp only [List.length_append] at hlt
        omega

theorem Connection.Consistent.recognised (h : s.Consistent done rest taken) : s.Recognised := by
  obtain ⟨hsuffix, hleft, htaken⟩ := h.phase.progress
  have hheld (key : Key) : s.receiver.pendingRequests key ≠ none ↔ ∃ call : Nat,
      key = (0, (call : Int)) ∧ call < s.calls.length ∧ call ∉ taken := by
    rw [h.pending]
    exact held_ne_none h.created
  refine ⟨h.unfailed, ?_, ⟨done, rest, h.answers, h.results, hsuffix, hleft, fun key => ?_⟩, ?_⟩
  · have honce := h.once
    rw [h.answers, List.map_append, List.nodup_append] at honce
    rw [h.results, List.map_map]
    exact honce.1
  · rw [hheld]
    simp only [htaken]
  · intro call call' hcall hcall' heq
    obtain ⟨n, hn, hlt, -⟩ := (hheld _).mp hcall
    obtain ⟨n', hn', hlt', -⟩ := (hheld _).mp hcall'
    have hbounded := h.bounded
    simp only [Prod.mk.injEq, true_and, Int.natCast_inj] at hn hn'
    exact idBytes_inj (by omega) (by omega) heq

theorem consistent_initial : Connection.Consistent {} [] [] [] where
  counted := rfl
  bounded := Nat.zero_le _
  created := fun _ hm => absurd hm List.not_mem_nil
  answers := rfl
  answered := fun _ ha => absurd ha List.not_mem_nil
  once := List.nodup_nil
  results := rfl
  unfailed := rfl
  pending := by
    funext key
    rw [held]
    split_ifs <;> rfl
  phase := .initial [] []

/-- In a run where fewer than 2^31 ids are used and every result is received, every response is
recognised. -/
theorem recognises_own_answers (handlers : List RequestHandler) (actions : List Action)
    (s : Connection)
    (hconditions : Transition.Along (Connection.step handlers) Recognisable {} actions)
    (hrun : Transition.run (Connection.step handlers) {} actions = some s) : s.Recognised := by
  have hconsistent : ∃ done rest taken, s.Consistent done rest taken := by
    refine hconditions.run
      (P := fun s : Connection => ∃ done rest taken, s.Consistent done rest taken)
      (fun s action s' h hcondition hstep => ?_) ⟨[], [], [], consistent_initial⟩ hrun
    obtain ⟨done, rest, taken, h⟩ := h
    cases action with
    | call m => exact ⟨done, rest, taken, h.call hcondition hstep⟩
    | answer call value =>
      obtain ⟨a, ha⟩ := h.answer hcondition hstep
      exact ⟨done, rest ++ [a], taken, ha⟩
    | receive => exact h.receive hstep
  obtain ⟨done, rest, taken, h⟩ := hconsistent
  exact h.recognised

theorem answer_calls {handlers : List RequestHandler} {call : Nat} {value : Value}
    (hstep : s.step handlers (.answer call value) = some s') : s'.calls = s.calls := by
  rw [Connection.step, Option.bind_eq_some_iff] at hstep
  obtain ⟨method, -, hstep⟩ := hstep
  dsimp only at hstep
  split_ifs at hstep
  cases hstep
  rfl

theorem along_receive {handlers : List RequestHandler} (n : Nat) (s : Connection) :
    Transition.Along (Connection.step handlers) Recognisable s (List.replicate n .receive) := by
  induction n generalizing s with
  | zero => trivial
  | succ n ih => exact ⟨trivial, fun s' _ => ih s'⟩

omit [Platform] in
/-- Two calls that are answered in the other order. -/
theorem recognises_own_answers_two :
    letI := Platform.reference
    ∃ s, Transition.run (Connection.step []) {}
        ([.call ⟨.tuple [], []⟩, .call ⟨.integer ⟨0, 1000⟩, []⟩, .answer 1 (.integer 7),
          .answer 0 (.tuple [])] ++ List.replicate 20 .receive) = some s ∧
      s.results.map Prod.fst = [1, 0] ∧ s.Recognised := by
  let platform := Platform.reference
  have hresults : (Transition.run (Connection.step []) {}
      ([.call ⟨.tuple [], []⟩, .call ⟨.integer ⟨0, 1000⟩, []⟩, .answer 1 (.integer 7),
        .answer 0 (.tuple [])] ++ List.replicate 20 .receive)).map
          (fun s => s.results.map Prod.fst) = some [1, 0] := by
    decide +kernel
  obtain ⟨s, hrun, hs⟩ := Option.map_eq_some_iff.mp hresults
  refine ⟨s, hrun, hs, recognises_own_answers [] _ s ?_ hrun⟩
  refine Transition.Along.append_iff.mpr ⟨?_, fun s' _ => along_receive 20 s'⟩
  refine ⟨(by decide : 0 < 2 ^ 31), fun s₁ h₁ => ?_⟩
  obtain rfl := Option.some.inj h₁
  refine ⟨(by decide : 1 < 2 ^ 31), fun s₂ h₂ => ?_⟩
  obtain rfl := Option.some.inj h₂
  refine ⟨?_, fun s₃ h₃ => ⟨?_, fun s₄ _ => trivial⟩⟩
  · intro method hmethod
    cases hmethod
    exact .inr (.inr (by decide))
  · intro method hmethod
    rw [answer_calls h₃] at hmethod
    cases hmethod
    exact .inl rfl

/-! ### The first id with the highest bit -/

theorem calls_run (handlers : List RequestHandler) {m : Method} {parser : ByteParser}
    (hparser : generateParserCreation m.result = some parser) (n : Nat) :
    ∃ s, Transition.run (Connection.step handlers) {} (List.replicate n (.call m)) = some s ∧
      s.nextRequestId = n ∧ s.calls = List.replicate n m ∧ s.answers = [] ∧ s.incoming = [] ∧
      s.failure = none ∧ s.receiver.state = .initial ∧
      ∀ high low, low < 0 → s.receiver.pendingRequests (high, low) = none := by
  induction n with
  | zero => exact ⟨{}, rfl, rfl, rfl, rfl, rfl, rfl, rfl, fun _ _ _ => rfl⟩
  | succ n ih =>
    obtain ⟨s, hrun, hid, hcalls, hanswers, hincoming, hfailure, hstate, hnone⟩ := ih
    rw [List.replicate_succ', Transition.run_append, hrun, Option.bind_some, Transition.run,
      Connection.step, hparser, Option.map_some, Option.bind_some]
    refine ⟨_, rfl, congrArg (· + 1) hid, ?_, hanswers, hincoming, hfailure, hstate, ?_⟩
    · rw [List.replicate_succ', ← hcalls]
    · intro high low hlow
      have hne : (high, low) ≠ (0, (s.nextRequestId : Int)) := by
        intro heq
        have := (Prod.mk.inj heq).2
        omega
      exact (Function.update_of_ne hne _ _).trans (hnone high low hlow)

theorem receive_step {handlers : List RequestHandler} {input : UInt8} {incoming : List UInt8}
    (hfailure : s.failure = none) (hincoming : s.incoming = input :: incoming) :
    s.step handlers .receive = match s.receiver.step handlers input with
      | .error failure => some { s with incoming, failure := some failure }
      | .ok (receiver, effect) =>
        some { s with incoming, receiver, results := s.record effect } := by
  rw [Connection.step, hfailure, hincoming]

theorem silent_run {handlers : List RequestHandler} {parser parser' : ByteParser}
    {bs more : List UInt8} (h : Silent ByteParser.step parser bs parser') {s : Connection}
    (hfailure : s.failure = none) (hstate : s.receiver.state = .responseId parser)
    (hincoming : s.incoming = bs ++ more) :
    ∃ s', Transition.run (Connection.step handlers) s (List.replicate bs.length .receive) =
        some s' ∧ s'.failure = none ∧ s'.receiver.state = .responseId parser' ∧
      s'.incoming = more ∧ s'.receiver.pendingRequests = s.receiver.pendingRequests := by
  induction h generalizing s with
  | nil => exact ⟨s, rfl, hfailure, hstate, hincoming, rfl⟩
  | @cons parser t _ b bs head tail ih =>
    have hreceiver : s.receiver.step handlers b =
        .ok ({ s.receiver with state := .responseId t }, none) := by
      rw [Receiver.step, hstate]
      simp only [head]
    rw [List.length_cons, List.replicate_succ, Transition.run, receive_step hfailure hincoming,
      hreceiver]
    exact ih (s := { s with
      incoming := bs ++ more
      receiver.state := .responseId t
      results := s.record none }) hfailure rfl rfl

/-- The response to the call with such an id has no entry: its key is negative. -/
theorem unexpected_run (handlers : List RequestHandler) {a : Answer} {parser : ByteParser}
    (hparser : generateParserCreation a.method.result = some parser)
    (hlow : 2 ^ 31 ≤ a.call) (hhigh : a.call < 2 ^ 32) (hok : a.message.ok = true) :
    ∃ s, Transition.run (Connection.step handlers) {} (List.replicate (a.call + 1) (.call a.method)
        ++ .answer a.call a.value :: .receive :: List.replicate 8 .receive) = some s ∧
      s.failure = some .unexpectedResponse := by
  obtain ⟨s, hrun, -, hcalls, hanswers, hincoming, hfailure, hstate, hnone⟩ :=
    calls_run handlers hparser (a.call + 1)
  have hcall : s.calls[a.call]? = some a.method := by
    rw [hcalls, List.getElem?_replicate, if_pos (Nat.lt_succ_self _)]
  have hanswer : s.step handlers (.answer a.call a.value) =
      some { s with answers := s.answers ++ [a], incoming := a.message.output } := by
    rw [Connection.step, hcall, Option.bind_some, hanswers, hincoming]
    exact if_pos ⟨List.not_mem_nil, hok⟩
  obtain ⟨t, front, last, u, hbytes, hfront, hlast⟩ := idBytes_completes hhigh
  have hneg : signed a.call < 0 := by
    rw [signed, if_neg (by omega)]
    omega
  have hlength : front.length = 7 := by
    have height := congrArg List.length hbytes
    rw [idBytes, List.length_append, BigEndian.toBytes_length, BigEndian.toBytes_length,
      List.length_append, List.length_singleton] at height
    omega
  have hmessage : a.message.output = 1 :: (front ++ last :: a.payload) := by
    rw [a.message_output, hbytes, List.append_assoc]
    rfl
  -- the byte of the message type
  have hfirst : { s with answers := s.answers ++ [a], incoming := a.message.output }.step handlers
      .receive = some { s with
        answers := s.answers ++ [a]
        incoming := front ++ last :: a.payload
        receiver.state := .responseId requestIdParserCreation } := by
    rw [receive_step (s := { s with answers := s.answers ++ [a], incoming := a.message.output })
      hfailure hmessage, Receiver.step, hstate]
    rfl
  obtain ⟨s', hrun', hfailure', hstate', hincoming', hpending⟩ :=
    @silent_run _ handlers _ _ _ _ hfront { s with
      answers := s.answers ++ [a]
      incoming := front ++ last :: a.payload
      receiver.state := .responseId requestIdParserCreation } hfailure rfl rfl
  -- the last byte of the id
  have hreceiver : s'.receiver.step handlers last = .error .unexpectedResponse := by
    rw [Receiver.step, hstate']
    simp only [hlast, Received.key, Option.bind_some, hpending, hnone 0 _ hneg, Option.map_none]
  refine ⟨{ s' with incoming := a.payload, failure := some .unexpectedResponse }, ?_, rfl⟩
  have height : List.replicate 8 Action.receive =
      List.replicate front.length .receive ++ [.receive] := by
    rw [hlength]
    rfl
  rw [Transition.run_append, hrun, Option.bind_some, Transition.run, hanswer, Option.bind_some,
    Transition.run, hfirst, Option.bind_some, height, Transition.run_append, hrun',
    Option.bind_some, Transition.run, receive_step hfailure' hincoming', hreceiver]
  rfl

end

omit [Platform] in
/-- The call number 2^31. -/
theorem recognises_own_answers_sign :
    letI := Platform.reference
    ∃ s, Transition.run (Connection.step []) {} (List.replicate (2 ^ 31 + 1)
        (.call ⟨.tuple [], []⟩) ++
          .answer (2 ^ 31) (.tuple []) :: .receive :: List.replicate 8 .receive) = some s ∧
      s.failure = some .unexpectedResponse ∧ ¬ s.Recognised := by
  let platform := Platform.reference
  obtain ⟨s, hrun, hfailure⟩ := unexpected_run [] (a := ⟨2 ^ 31, ⟨.tuple [], []⟩, .tuple []⟩)
    rfl (Nat.le_refl _) (by decide) rfl
  refine ⟨s, hrun, hfailure, fun h => ?_⟩
  rw [h.unfailed] at hfailure
  cases hfailure

end JavaScript

end Warpcoil
