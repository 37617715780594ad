import Warpcoil.Splitter

/-! The one-shot function of the splitter, and the waiters that depend on it. -/
namespace Warpcoil
open Incremental Transition

/-- The assertions on `begin_parse_message` where it is called. -/
def Assertion.isBegin : Assertion → Bool
  | .unlockBegin | .requestBegin | .responseBegin => true
  | .waitForResponse | .waitForRequest | .lockInput | .unlockInput | .beginParseMessage
  | .requestWaiting | .requestHeader | .responseWaiting | .responseHeader | .registryHeader
  | .registryResult => false

/-- The assertions on what the users of the splitter do. -/
def Assertion.isUse : Assertion → Bool
  | .waitForResponse | .waitForRequest | .lockInput | .unlockInput => true
  | .unlockBegin | .requestBegin | .responseBegin | .beginParseMessage | .requestWaiting
  | .requestHeader | .responseWaiting | .responseHeader | .registryHeader
  | .registryResult => false

theorem Assertion.isBegin_of_isUse {a : Assertion} (h : a.isUse = true) : a.isBegin = false := by
  cases a <;> first | rfl | cases h

def SplitterFrame.operation : SplitterFrame → List HeaderOperation
  | .start operation => [operation]
  | .requestContinue _ | .responseContinue _ | .errorContinue _ _ => []

def SplitterFrame.isError : SplitterFrame → Bool
  | .errorContinue _ _ => true
  | .start _ | .requestContinue _ | .responseContinue _ => false

namespace Splitter

/-- The header parses that have been begun and have not ended. -/
def active (s : Splitter) : List HeaderOperation :=
  s.stack.flatMap SplitterFrame.operation ++ s.reads

/-- Somebody waits for what is being parsed. -/
def awaits (s : Splitter) : HeaderPart → Bool
  | .messageType => s.waitingForResponse || s.waitingForRequest
  | .response => s.waitingForResponse
  | .request => s.waitingForRequest

variable [Platform]

/-- No header parse has failed, and nobody has been overlooked. -/
structure Steady (s : Splitter) : Prop where
  aborted : s.aborted = none
  thrown : s.thrown = none
  errors : s.stack.filter SplitterFrame.isError = []
  parsing : s.parsingHeader = true → s.locked = false ∧ ∃ operation : HeaderOperation,
    s.active = [operation] ∧ operation.operation.Sound ∧ s.awaits operation.part = true
  resting : s.parsingHeader = false → s.active = []
  -- a spent function is one that was called for the waiters there are
  spent : s.beginParseMessage = false → s.crowded = false →
    (s.waitingForResponse && s.waitingForRequest) = false ∧
      (s.parsingHeader = false → (s.waitingForResponse || s.waitingForRequest) = false)
  crowded : s.crowded = true → s.beginParseMessage = false ∧
    (s.waitingForResponse || s.waitingForRequest) = true ∧
      (s.parsingHeader = true → (s.waitingForResponse && s.waitingForRequest) = true)
  -- whoever waits beside a handler is looked at when the handler has returned
  response : s.parsingHeader = false → (s.locked = false ∨ s.crowded = true) →
    s.waitingForResponse = true → s.stack.head? = some (.requestContinue true)
  request : s.parsingHeader = false → (s.locked = false ∨ s.crowded = true) →
    s.waitingForRequest = true → s.stack.head? = some (.responseContinue true)

/-- The function is there to be called. -/
structure Ready (s : Splitter) : Prop where
  aborted : s.aborted = none
  thrown : s.thrown = none
  errors : s.stack.filter SplitterFrame.isError = []
  active : s.active = []
  parsingHeader : s.parsingHeader = false
  waiting : (s.waitingForResponse || s.waitingForRequest) = true
  begins : s.beginParseMessage = true
  crowded : s.crowded = false

theorem HeaderPart.sound (part : HeaderPart) : part.fresh.operation.Sound :=
  Continuation.operation_sound part.continuation

theorem Ready.callBeginParseMessage {s : Splitter} (h : s.Ready) :
    s.callBeginParseMessage.Steady := by
  unfold Splitter.callBeginParseMessage
  have hguard : (s.parsingHeader || !(s.waitingForResponse || s.waitingForRequest)) = false := by
    rw [h.parsingHeader, h.waiting]
    rfl
  rw [hguard, if_neg Bool.false_ne_true]
  split_ifs with hlocked
  · refine ⟨h.aborted, h.thrown, h.errors, ?_, fun _ => h.active, ?_, ?_, ?_, ?_⟩
    · intro hparsing
      rw [h.parsingHeader] at hparsing
      cases hparsing
    · intro hbegins
      rw [h.begins] at hbegins
      cases hbegins
    · intro hcrowded
      rw [h.crowded] at hcrowded
      cases hcrowded
    · intro _ hfree
      rw [hlocked, h.crowded] at hfree
      rcases hfree with hfree | hfree <;> cases hfree
    · intro _ hfree
      rw [hlocked, h.crowded] at hfree
      rcases hfree with hfree | hfree <;> cases hfree
  · have hactive : s.stack.flatMap SplitterFrame.operation ++ s.reads = [] := h.active
    refine ⟨h.aborted, h.thrown, h.errors, ?_, fun hparsing => ?_, ?_, ?_, ?_, ?_⟩
    · intro _
      refine ⟨Bool.eq_false_iff.mpr hlocked, HeaderPart.messageType.fresh, ?_,
        HeaderPart.sound .messageType, h.waiting⟩
      exact congrArg (HeaderPart.messageType.fresh :: ·) hactive
    · cases hparsing
    · intro _ hcrowded
      exact ⟨hcrowded, fun hparsing => by cases hparsing⟩
    · intro hcrowded
      exact ⟨rfl, h.waiting, fun _ => hcrowded⟩
    · intro hparsing
      cases hparsing
    · intro hparsing
      cases hparsing

/-- What a step comes to that overlooks a waiter, or does not. -/
inductive Outcome (overlooks : Bool) (s : Splitter) : Prop
  | steady (attended : overlooks = false) (steady : s.Steady)
  | misused {a : Assertion} (attended : overlooks = false) (aborted : s.aborted = some a)
      (use : a.isUse = true)
  | overlooked {a : Assertion} (overlooked : overlooks = true) (aborted : s.aborted = some a)
      (begins : a.isBegin = true)

theorem waitForResponse_outcome {s : Splitter} (h : s.Steady) :
    Outcome false s.waitForResponse := by
  unfold waitForResponse
  split_ifs with hwaiting
  · exact .misused (a := .waitForResponse) rfl rfl rfl
  · refine .steady rfl ?_
    dsimp only
    split_ifs with hparsing
    · refine ⟨h.aborted, h.thrown, h.errors, fun _ => ?_, fun hresting => ?_, ?_, ?_, ?_, ?_⟩
      · obtain ⟨hlocked, operation, hactive, hsound, hawaits⟩ := h.parsing hparsing
        refine ⟨hlocked, operation, hactive, hsound, ?_⟩
        cases hpart : operation.part with
        | messageType => rfl
        | response => rfl
        | request => rw [hpart] at hawaits; exact hawaits
      · exact h.resting hresting
      · intro hbegins
        cases hbegins
      · intro hcrowded
        cases hcrowded
      · intro hresting
        exact (Bool.false_ne_true (hresting.symm.trans hparsing)).elim
      · intro hresting
        exact (Bool.false_ne_true (hresting.symm.trans hparsing)).elim
    · apply Ready.callBeginParseMessage
      have hresting : s.parsingHeader = false := Bool.eq_false_iff.mpr hparsing
      exact ⟨h.aborted, h.thrown, h.errors, h.resting hresting, hresting, rfl, rfl, rfl⟩

theorem waitForRequest_outcome {s : Splitter} (h : s.Steady) :
    Outcome false s.waitForRequest := by
  unfold waitForRequest
  split_ifs with hwaiting
  · exact .misused (a := .waitForRequest) rfl rfl rfl
  · refine .steady rfl ?_
    dsimp only
    split_ifs with hparsing
    · refine ⟨h.aborted, h.thrown, h.errors, fun _ => ?_, fun hresting => ?_, ?_, ?_, ?_, ?_⟩
      · obtain ⟨hlocked, operation, hactive, hsound, hawaits⟩ := h.parsing hparsing
        refine ⟨hlocked, operation, hactive, hsound, ?_⟩
        cases hpart : operation.part with
        | messageType => exact Bool.or_true _
        | response => rw [hpart] at hawaits; exact hawaits
        | request => rfl
      · exact h.resting hresting
      · intro hbegins
        cases hbegins
      · intro hcrowded
        cases hcrowded
      · intro hresting
        exact (Bool.false_ne_true (hresting.symm.trans hparsing)).elim
      · intro hresting
        exact (Bool.false_ne_true (hresting.symm.trans hparsing)).elim
    · apply Ready.callBeginParseMessage
      have hresting : s.parsingHeader = false := Bool.eq_false_iff.mpr hparsing
      exact ⟨h.aborted, h.thrown, h.errors, h.resting hresting, hresting, Bool.or_true _, rfl,
        rfl⟩

theorem lockInput_outcome {s : Splitter} (h : s.Steady) : Outcome false s.lockInput := by
  unfold lockInput
  split_ifs with hguard
  · exact .misused (a := .lockInput) rfl rfl rfl
  · simp only [Bool.or_eq_true, not_or, Bool.not_eq_true] at hguard
    obtain ⟨hresting, hlocked⟩ := hguard
    refine .steady rfl ⟨h.aborted, h.thrown, h.errors, fun hparsing => ?_, h.resting, h.spent,
      h.crowded, fun _ _ => h.response hresting (.inl hlocked),
      fun _ _ => h.request hresting (.inl hlocked)⟩
    exact (Bool.false_ne_true (hresting.symm.trans hparsing)).elim

/-- With nobody waiting there is nothing to begin, else there is a function for it. -/
theorem Steady.begins {s : Splitter} (h : s.Steady) (hresting : s.parsingHeader = false)
    (hwaiting : (s.waitingForResponse || s.waitingForRequest) = true) :
    s.beginParseMessage = !s.crowded := by
  cases hcrowded : s.crowded with
  | true => exact (h.crowded hcrowded).1
  | false =>
    by_contra hne
    have hspent : s.beginParseMessage = false := by simpa using hne
    have hnone := (h.spent hspent hcrowded).2 hresting
    rw [hwaiting] at hnone
    cases hnone

theorem unlockInput_outcome {s : Splitter} (h : s.Steady) :
    Outcome (s.crowded && !s.parsingHeader && s.locked) s.unlockInput := by
  unfold unlockInput
  split_ifs with hguard
  · have hfalse : (s.crowded && !s.parsingHeader && s.locked) = false := by
      cases hparsing : s.parsingHeader <;> cases hlocked : s.locked <;>
        simp_all
    exact .misused (a := .unlockInput) hfalse rfl rfl
  · simp only [Bool.or_eq_true, not_or, Bool.not_eq_true, Bool.not_eq_false'] at hguard
    obtain ⟨hresting, hlocked⟩ := hguard
    have hoverlooked : (s.crowded && !s.parsingHeader && s.locked) = s.crowded := by
      rw [hresting, hlocked, Bool.not_false, Bool.and_true, Bool.and_true]
    dsimp only
    by_cases hwaiting : (s.waitingForResponse || s.waitingForRequest) = true
    · have hguard : ¬ (!s.waitingForResponse && !s.waitingForRequest) = true := by
        rw [← Bool.not_or, hwaiting]
        decide
      have hbegins := h.begins hresting hwaiting
      rw [if_neg hguard]
      split_ifs with hbegin
      · rw [hbegin, Eq.comm, Bool.not_eq_true'] at hbegins
        refine .steady (hoverlooked.trans hbegins) ?_
        apply Ready.callBeginParseMessage
        exact ⟨h.aborted, h.thrown, h.errors, h.resting hresting, hresting, hwaiting, hbegin,
          hbegins⟩
      · rw [Bool.eq_false_iff.mpr hbegin, Eq.comm, Bool.not_eq_false'] at hbegins
        exact .overlooked (a := .unlockBegin) (hoverlooked.trans hbegins) rfl rfl
    · have hnobody : (s.waitingForResponse || s.waitingForRequest) = false :=
        Bool.eq_false_iff.mpr hwaiting
      have hguard : (!s.waitingForResponse && !s.waitingForRequest) = true := by
        rw [← Bool.not_or, hnobody]
        rfl
      have hcrowded : s.crowded = false := by
        by_contra hne
        rw [(h.crowded (by simpa using hne)).2.1] at hnobody
        cases hnobody
      rw [if_pos hguard]
      rw [Bool.or_eq_false_iff] at hnobody
      refine .steady (hoverlooked.trans hcrowded) ⟨h.aborted, h.thrown, h.errors,
        fun hparsing => ?_, h.resting, h.spent, h.crowded, fun _ _ hresponse => ?_,
        fun _ _ hrequest => ?_⟩
      · exact (Bool.false_ne_true (hresting.symm.trans hparsing)).elim
      · exact (Bool.false_ne_true (hnobody.1.symm.trans hresponse)).elim
      · exact (Bool.false_ne_true (hnobody.2.symm.trans hrequest)).elim

/-- A frame that parses nothing returns with nobody left to look at. -/
theorem Steady.returned {s : Splitter} (h : s.Steady) {frame : SplitterFrame}
    {stack : List SplitterFrame} (hstack : s.stack = frame :: stack)
    (hframe : frame.operation = [])
    (hnobody : s.parsingHeader = false → (s.locked = false ∨ s.crowded = true) →
      s.waitingForResponse = false ∧ s.waitingForRequest = false) :
    Steady { s with stack } := by
  have hactive : active { s with stack } = s.active := by
    simp only [active, hstack, List.flatMap_cons, hframe, List.nil_append]
  have herrors := h.errors
  rw [hstack, List.filter_cons] at herrors
  refine ⟨h.aborted, h.thrown, ?_, ?_, ?_, h.spent, h.crowded, ?_, ?_⟩
  · split_ifs at herrors
    exact herrors
  · rw [hactive]
    exact h.parsing
  · rw [hactive]
    exact h.resting
  · intro hresting hfree hresponse
    exact (Bool.false_ne_true ((hnobody hresting hfree).1.symm.trans hresponse)).elim
  · intro hresting hfree hrequest
    exact (Bool.false_ne_true ((hnobody hresting hfree).2.symm.trans hrequest)).elim

theorem Steady.attended {s : Splitter} (h : s.Steady)
    (hnobody : s.parsingHeader = false → (s.locked = false ∨ s.crowded = true) →
      s.waitingForResponse = false ∧ s.waitingForRequest = false) :
    (s.crowded && !s.parsingHeader) = false := by
  by_contra hne
  simp only [Bool.not_eq_false, Bool.and_eq_true, Bool.not_eq_true'] at hne
  obtain ⟨hresponse, hrequest⟩ := hnobody hne.2 (.inr hne.1)
  have hwaiting := (h.crowded hne.1).2.1
  rw [hresponse, hrequest] at hwaiting
  cases hwaiting

theorem Steady.ready {s : Splitter} (h : s.Steady) {frame : SplitterFrame}
    {stack : List SplitterFrame} (hstack : s.stack = frame :: stack)
    (hframe : frame.operation = []) (hresting : s.parsingHeader = false)
    (hwaiting : (s.waitingForResponse || s.waitingForRequest) = true)
    (hbegins : s.beginParseMessage = true) (hcrowded : s.crowded = false) :
    Ready { s with stack } := by
  have herrors := h.errors
  rw [hstack, List.filter_cons] at herrors
  have hactive := h.resting hresting
  simp only [active, hstack, List.flatMap_cons, hframe, List.nil_append] at hactive
  refine ⟨h.aborted, h.thrown, ?_, hactive, hresting, hwaiting, hbegins, hcrowded⟩
  split_ifs at herrors
  exact herrors

theorem continueRequest_outcome {s : Splitter} (h : s.Steady) {continue_ : Bool}
    {stack : List SplitterFrame} (hstack : s.stack = .requestContinue continue_ :: stack) :
    Outcome (s.crowded && !s.parsingHeader)
      (Splitter.continueRequest { s with stack } continue_) := by
  unfold continueRequest
  split_ifs with hguard hbegins
  · simp only [Bool.and_eq_true, Bool.not_eq_true'] at hguard
    obtain ⟨⟨-, hresponse⟩, hresting⟩ := hguard
    have hwaiting : (s.waitingForResponse || s.waitingForRequest) = true := by
      rw [hresponse, Bool.true_or]
    have hspent := h.begins hresting hwaiting
    have hcrowded : s.crowded = false := by
      rw [hbegins, Eq.comm, Bool.not_eq_true'] at hspent
      exact hspent
    refine .steady (by rw [hcrowded, Bool.false_and]) ?_
    apply Ready.callBeginParseMessage
    exact h.ready hstack rfl hresting hwaiting hbegins hcrowded
  · simp only [Bool.and_eq_true, Bool.not_eq_true'] at hguard
    obtain ⟨⟨-, hresponse⟩, hresting⟩ := hguard
    have hspent := h.begins hresting (by rw [hresponse, Bool.true_or])
    rw [Bool.eq_false_iff.mpr hbegins, Eq.comm, Bool.not_eq_false'] at hspent
    exact .overlooked (a := .requestBegin) (by rw [hspent, hresting]; rfl) rfl rfl
  · have hnobody : s.parsingHeader = false → (s.locked = false ∨ s.crowded = true) →
        s.waitingForResponse = false ∧ s.waitingForRequest = false := by
      intro hresting hfree
      constructor
      · by_contra hne
        have hresponse : s.waitingForResponse = true := by simpa using hne
        have hhead := h.response hresting hfree hresponse
        rw [hstack, List.head?_cons, Option.some.injEq, SplitterFrame.requestContinue.injEq]
          at hhead
        exact hguard (by rw [hhead, hresponse, hresting]; rfl)
      · by_contra hne
        have hhead := h.request hresting hfree (by simpa using hne)
        rw [hstack] at hhead
        cases hhead
    exact .steady (h.attended hnobody) (h.returned hstack rfl hnobody)

theorem continueResponse_outcome {s : Splitter} (h : s.Steady) {continue_ : Bool}
    {stack : List SplitterFrame} (hstack : s.stack = .responseContinue continue_ :: stack) :
    Outcome (s.crowded && !s.parsingHeader)
      (Splitter.continueResponse { s with stack } continue_) := by
  unfold continueResponse
  split_ifs with hguard hbegins
  · simp only [Bool.and_eq_true, Bool.not_eq_true'] at hguard
    obtain ⟨⟨-, hrequest⟩, hresting⟩ := hguard
    have hwaiting : (s.waitingForResponse || s.waitingForRequest) = true := by
      rw [hrequest, Bool.or_true]
    have hspent := h.begins hresting hwaiting
    have hcrowded : s.crowded = false := by
      rw [hbegins, Eq.comm, Bool.not_eq_true'] at hspent
      exact hspent
    refine .steady (by rw [hcrowded, Bool.false_and]) ?_
    apply Ready.callBeginParseMessage
    exact h.ready hstack rfl hresting hwaiting hbegins hcrowded
  · simp only [Bool.and_eq_true, Bool.not_eq_true'] at hguard
    obtain ⟨⟨-, hrequest⟩, hresting⟩ := hguard
    have hspent := h.begins hresting (by rw [hrequest, Bool.or_true])
    rw [Bool.eq_false_iff.mpr hbegins, Eq.comm, Bool.not_eq_false'] at hspent
    exact .overlooked (a := .responseBegin) (by rw [hspent, hresting]; rfl) rfl rfl
  · have hnobody : s.parsingHeader = false → (s.locked = false ∨ s.crowded = true) →
        s.waitingForResponse = false ∧ s.waitingForRequest = false := by
      intro hresting hfree
      constructor
      · by_contra hne
        have hhead := h.response hresting hfree (by simpa using hne)
        rw [hstack] at hhead
        cases hhead
      · by_contra hne
        have hrequest : s.waitingForRequest = true := by simpa using hne
        have hhead := h.request hresting hfree hrequest
        rw [hstack, List.head?_cons, Option.some.injEq, SplitterFrame.responseContinue.injEq]
          at hhead
        exact hguard (by rw [hhead, hrequest, hresting]; rfl)
    exact .steady (h.attended hnobody) (h.returned hstack rfl hnobody)

/-! A header parse goes on. -/

/-- A type that somebody waits for. -/
def expects (s : Splitter) (type : Value) : Bool :=
  (decide (type = .integer MessageType.response.toNat) && s.waitingForResponse) ||
    (decide (type = .integer MessageType.request.toNat) && s.waitingForRequest)

/-- The operation fails on what is in the buffer, or finds a message nobody waits for. -/
def refuses (s : Splitter) (operation : HeaderOperation) : Bool :=
  match operation.parser.read s.buffer with
  | .fail _ => true
  | .more _ => false
  | .complete type _ =>
    match operation.part with
    | .messageType => !s.expects type
    | .response | .request => false

/-- The event ends a header parse with an error. -/
def headerFails (s : Splitter) : Event → Bool
  | .resume =>
    match s.stack with
    | .start operation :: _ => s.refuses operation
    | [] | .requestContinue _ :: _ | .responseContinue _ :: _ | .errorContinue _ _ :: _ => false
  | .readError _ _ => true
  | .waitForResponse | .waitForRequest | .lockInput | .unlockInput | .payload _ | .read _ _ =>
    false

/-- A header whose parse was begun for both waiters has been handed to one of them, and with no
wait since its handler returns or unlocks the input. -/
def overlooks (s : Splitter) : Event → Bool
  | .resume =>
    match s.stack with
    | .requestContinue _ :: _ | .responseContinue _ :: _ => s.crowded && !s.parsingHeader
    | [] | .start _ :: _ | .errorContinue _ _ :: _ => false
  | .unlockInput => s.crowded && !s.parsingHeader && s.locked
  | .waitForResponse | .waitForRequest | .lockInput | .payload _ | .read _ _ | .readError _ _ =>
    false

theorem HeaderOperation.check_eq {operation : HeaderOperation}
    (h : operation.operation.Sound) : operation.parser.checkForImmediateCompletion = none := by
  refine h.check.trans ?_
  cases operation with
  | mk parser part seen => cases part <;> rfl

theorem HeaderOperation.read_eq {operation : HeaderOperation}
    (h : operation.operation.Sound) (buffer : List UInt8) :
    operation.parser.read buffer =
      operation.part.continuation.parserType.parse (operation.seen ++ buffer) := by
  have hfresh : operation.part.continuation.parserType.fresh.checkForImmediateCompletion = none :=
    h.check.symm.trans (HeaderOperation.check_eq h)
  rw [ParserType.parse_of_check hfresh]
  exact (read_append_of_more h.read buffer).symm

/-- An operation of this part has just stopped. -/
structure Stopped (s : Splitter) (part : HeaderPart) : Prop where
  aborted : s.aborted = none
  thrown : s.thrown = none
  errors : s.stack.filter SplitterFrame.isError = []
  active : s.active = []
  parsingHeader : s.parsingHeader = true
  locked : s.locked = false
  awaits : s.awaits part = true
  spent : s.beginParseMessage = false → s.crowded = false →
    (s.waitingForResponse && s.waitingForRequest) = false
  crowded : s.crowded = true → s.beginParseMessage = false ∧
    (s.waitingForResponse && s.waitingForRequest) = true

theorem Steady.stopped {s t : Splitter} (h : s.Steady) {operation : HeaderOperation}
    (hactive : s.active = operation :: t.active)
    (ht : t = { s with buffer := t.buffer, stack := t.stack, reads := t.reads })
    (herrors : t.stack.filter SplitterFrame.isError = []) :
    operation.operation.Sound ∧ t.Stopped operation.part := by
  have hparsing : s.parsingHeader = true := by
    by_contra hne
    have hnil := h.resting (by simpa using hne)
    rw [hactive] at hnil
    cases hnil
  obtain ⟨hlocked, operation', hone, hsound, hawaits⟩ := h.parsing hparsing
  rw [hactive] at hone
  obtain ⟨rfl, hrest⟩ := List.cons.inj hone
  refine ⟨hsound, ?_⟩
  rw [ht] at herrors hrest ⊢
  exact ⟨h.aborted, h.thrown, herrors, hrest, hparsing, hlocked, hawaits,
    fun hspent hcrowded => (h.spent hspent hcrowded).1,
    fun hcrowded => ⟨(h.crowded hcrowded).1, (h.crowded hcrowded).2.2 hparsing⟩⟩

omit [Platform] in
theorem waiting_of_awaits {s : Splitter} {part : HeaderPart} (h : s.awaits part = true) :
    (s.waitingForResponse || s.waitingForRequest) = true := by
  cases part with
  | messageType => exact h
  | response =>
    have hresponse : s.waitingForResponse = true := h
    rw [hresponse, Bool.true_or]
  | request =>
    have hrequest : s.waitingForRequest = true := h
    rw [hrequest, Bool.or_true]

/-- Another operation parses on. -/
theorem Stopped.parses {s t : Splitter} {part : HeaderPart} (h : s.Stopped part)
    {operation : HeaderOperation}
    (ht : t = { s with buffer := t.buffer, stack := t.stack, reads := t.reads })
    (herrors : t.stack.filter SplitterFrame.isError = []) (hactive : t.active = [operation])
    (hsound : operation.operation.Sound) (hawaits : s.awaits operation.part = true) :
    t.Steady := by
  rw [ht] at herrors hactive ⊢
  have hnot {P : Prop} (hresting : s.parsingHeader = false) : P :=
    (Bool.false_ne_true (hresting.symm.trans h.parsingHeader)).elim
  refine ⟨h.aborted, h.thrown, herrors, fun _ => ⟨h.locked, operation, hactive, hsound, hawaits⟩,
    hnot, ?_, ?_, hnot, hnot⟩
  · intro hspent hcrowded
    exact ⟨h.spent hspent hcrowded, hnot⟩
  · intro hcrowded
    obtain ⟨hspent, hboth⟩ := h.crowded hcrowded
    exact ⟨hspent, waiting_of_awaits hawaits, fun _ => hboth⟩

theorem Stopped.beginParseValue {s : Splitter} {part part' : HeaderPart} (h : s.Stopped part)
    (hawaits : s.awaits part' = true) : (s.beginParseValue part').Steady :=
  h.parses rfl h.errors (congrArg (part'.fresh :: ·) h.active) (HeaderPart.sound part') hawaits

/-- The operation waits for more of its bytes. -/
theorem Stopped.more {s : Splitter} {operation : HeaderOperation}
    (h : s.Stopped operation.part) {parser : Parser} {seen : List UInt8}
    (hsound : HeaderOperation.operation { operation with parser, seen } |>.Sound) :
    Steady { s with buffer := [], reads := s.reads ++ [{ operation with parser, seen }] } := by
  have hactive : s.stack.flatMap SplitterFrame.operation ++ s.reads = [] := h.active
  obtain ⟨hstack, hreads⟩ := List.append_eq_nil_iff.mp hactive
  refine h.parses rfl h.errors ?_ hsound h.awaits
  change s.stack.flatMap SplitterFrame.operation ++ (s.reads ++ [_]) = _
  rw [hstack, hreads]
  rfl

theorem Stopped.onMessageType {s : Splitter} (h : s.Stopped .messageType) {type : Value}
    (hexpects : s.expects type = true) : (s.onMessageType (.ok type)).Steady := by
  simp only [expects, Bool.or_eq_true, Bool.and_eq_true, decide_eq_true_eq] at hexpects
  unfold Splitter.onMessageType
  dsimp only
  rcases hexpects with ⟨hresponse, hwaiting⟩ | ⟨hrequest, hwaiting⟩
  · rw [if_pos hresponse, if_pos hwaiting]
    exact h.beginParseValue hwaiting
  · have hne : type ≠ .integer MessageType.response.toNat := by
      rw [hrequest]
      decide
    rw [if_neg hne, if_pos hrequest, if_pos hwaiting]
    exact h.beginParseValue hwaiting

theorem Stopped.onResponse {s : Splitter} (h : s.Stopped .response) (id : Nat) :
    (s.onResponse (.ok (.integer id))).Steady := by
  have hwaiting : s.waitingForResponse = true := h.awaits
  unfold Splitter.onResponse
  rw [hwaiting, Bool.not_true, if_neg Bool.false_ne_true]
  dsimp only
  rw [h.parsingHeader, Bool.not_true, if_neg Bool.false_ne_true]
  have hresponse {P : Prop} (hfalse : false = true) : P := by cases hfalse
  refine ⟨h.aborted, h.thrown, h.errors, hresponse, fun _ => h.active, ?_, ?_, ?_, ?_⟩
  · intro hspent hcrowded
    have hboth := h.spent hspent hcrowded
    rw [hwaiting, Bool.true_and] at hboth
    exact ⟨rfl, fun _ => hboth⟩
  · intro hcrowded
    obtain ⟨hspent, hboth⟩ := h.crowded hcrowded
    rw [hwaiting, Bool.true_and] at hboth
    exact ⟨hspent, hboth, hresponse⟩
  · intro _ _ hfalse
    exact hresponse hfalse
  · intro _ _ hrequest
    exact congrArg (fun b => some (SplitterFrame.responseContinue b)) hrequest

theorem Stopped.onRequest {s : Splitter} (h : s.Stopped .request) (id : Nat)
    (name : Identifier) : (s.onRequest (.ok (.tuple [.integer id, .utf8 name]))).Steady := by
  have hwaiting : s.waitingForRequest = true := h.awaits
  unfold Splitter.onRequest
  rw [hwaiting, Bool.not_true, if_neg Bool.false_ne_true]
  dsimp only
  rw [h.parsingHeader, Bool.not_true, if_neg Bool.false_ne_true]
  have hrequest {P : Prop} (hfalse : false = true) : P := by cases hfalse
  refine ⟨h.aborted, h.thrown, h.errors, hrequest, fun _ => h.active, ?_, ?_, ?_, ?_⟩
  · intro hspent hcrowded
    have hboth := h.spent hspent hcrowded
    rw [hwaiting, Bool.and_true] at hboth
    exact ⟨Bool.and_false _, fun _ => (Bool.or_false _).trans hboth⟩
  · intro hcrowded
    obtain ⟨hspent, hboth⟩ := h.crowded hcrowded
    rw [hwaiting, Bool.and_true] at hboth
    exact ⟨hspent, (Bool.or_false _).trans hboth, hrequest⟩
  · intro _ _ hresponse
    exact congrArg (fun b => some (SplitterFrame.requestContinue b)) hresponse
  · intro _ _ hfalse
    exact hrequest hfalse

theorem start_steady {s : Splitter} {operation : HeaderOperation}
    (h : s.Stopped operation.part) (hsound : operation.operation.Sound)
    (haccepted : s.refuses operation = false) : (s.start operation).Steady := by
  unfold start
  rw [HeaderOperation.check_eq hsound]
  dsimp only
  unfold refuses at haccepted
  have hparse := HeaderOperation.read_eq hsound s.buffer
  cases hread : operation.parser.read s.buffer with
  | more parser =>
    rw [hread] at hparse
    have hmore : operation.operation.onResult.parserType.parse
        (operation.operation.seen ++ s.buffer) = .more parser := hparse.symm
    exact h.more (ParseOperation.sound_more hmore)
  | fail e =>
    rw [hread] at haccepted
    cases haccepted
  | complete v rest =>
    rw [hread] at haccepted hparse
    dsimp only at haccepted ⊢
    have hrest : Stopped { s with buffer := rest } operation.part :=
      ⟨h.aborted, h.thrown, h.errors, h.active, h.parsingHeader, h.locked, h.awaits, h.spent,
        h.crowded⟩
    cases hpart : operation.part with
    | messageType =>
      rw [hpart] at haccepted hrest
      apply hrest.onMessageType
      rw [Bool.not_eq_false'] at haccepted
      exact haccepted
    | response =>
      rw [hpart] at hparse hrest
      obtain ⟨-, -, rfl⟩ := Side.requestId_complete hparse.symm
      exact hrest.onResponse _
    | request =>
      rw [hpart] at hparse hrest
      obtain ⟨_, _, -, -, -, -, -, rfl⟩ := Side.requestHeader_complete hparse.symm
      exact hrest.onRequest _ _

/-! The steps. -/

theorem Steady.started {s : Splitter} (h : s.Steady) {operation : HeaderOperation}
    {stack : List SplitterFrame} (hstack : s.stack = .start operation :: stack) :
    operation.operation.Sound ∧ Stopped { s with stack } operation.part := by
  have herrors := h.errors
  rw [hstack] at herrors
  apply h.stopped (t := { s with stack }) _ rfl herrors
  simp only [active, hstack]
  rfl

theorem Steady.read {s : Splitter} (h : s.Steady) {operation : HeaderOperation} {index : Nat}
    (hstack : s.stack = []) (hreads : s.reads[index]? = some operation) :
    s.reads = [operation] ∧ operation.operation.Sound ∧
      Stopped { s with reads := s.reads.eraseIdx index } operation.part := by
  have hactive : s.active = s.reads := by
    simp only [active, hstack]
    rfl
  have hone : s.reads = [operation] := by
    cases hparsing : s.parsingHeader with
    | false =>
      rw [← hactive, h.resting hparsing] at hreads
      cases hreads
    | true =>
      obtain ⟨-, other, hother, -, -⟩ := h.parsing hparsing
      rw [hactive] at hother
      rw [hother, List.getElem?_singleton] at hreads
      split_ifs at hreads
      cases hreads
      exact hother
  have hindex : index = 0 := by
    rw [hone, List.getElem?_singleton] at hreads
    split_ifs at hreads with hindex
    exact hindex
  refine ⟨hone, ?_⟩
  apply h.stopped (t := { s with reads := s.reads.eraseIdx index }) _ rfl h.errors
  rw [hactive, hone, hindex]
  simp only [active, hstack]
  rfl

theorem step_steady {s s' : Splitter} {event : Event} (h : s.Steady)
    (haccepted : s.headerFails event = false) (htaken : Taken s event s') :
    Outcome (s.overlooks event) s' := by
  cases htaken with
  | waitForResponse => exact waitForResponse_outcome h
  | waitForRequest => exact waitForRequest_outcome h
  | lockInput => exact lockInput_outcome h
  | unlockInput => exact unlockInput_outcome h
  | payload =>
    exact .steady rfl ⟨h.aborted, h.thrown, h.errors, h.parsing, h.resting, h.spent, h.crowded,
      h.response, h.request⟩
  | @resume frame stack hstack =>
    unfold overlooks
    unfold headerFails at haccepted
    rw [hstack] at haccepted ⊢
    cases frame with
    | start operation =>
      obtain ⟨hsound, hstopped⟩ := h.started hstack
      exact .steady rfl (start_steady hstopped hsound haccepted)
    | requestContinue continue_ => exact continueRequest_outcome h hstack
    | responseContinue continue_ => exact continueResponse_outcome h hstack
    | errorContinue isWaitingForRequest ec =>
      have herrors := h.errors
      rw [hstack] at herrors
      cases herrors
  | @read index bytes operation hstack hreads =>
    obtain ⟨-, hsound, hstopped⟩ := h.read hstack hreads
    refine .steady rfl (hstopped.parses rfl h.errors ?_ hsound hstopped.awaits)
    exact congrArg (operation :: ·) hstopped.active
  | readError => cases haccepted

/-! The runs. -/

theorem initial_steady : ({} : Splitter).Steady := by
  refine ⟨rfl, rfl, rfl, ?_, fun _ => rfl, fun _ _ => ⟨rfl, fun _ => rfl⟩, ?_, ?_, ?_⟩
  · intro hfalse
    cases hfalse
  · intro hfalse
    cases hfalse
  · intro _ _ hfalse
    cases hfalse
  · intro _ _ hfalse
    cases hfalse

/-- An assertion that does not hold ends the program. -/
theorem run_aborted {s s' : Splitter} {events : List Event} {a : Assertion}
    (haborted : s.aborted = some a) (hrun : run step s events = some s') :
    events = [] ∧ s' = s := by
  cases events with
  | nil =>
    cases hrun
    exact ⟨rfl, rfl⟩
  | cons event events =>
    obtain ⟨t, hstep, -⟩ := run_cons.mp hrun
    have hnone := (taken_of_step hstep).1.1
    rw [haborted] at hnone
    cases hnone

theorem run_steady {s s' : Splitter} {events : List Event} (h : s.Steady)
    (haccepted : Along step (fun s event => s.headerFails event = false) s events)
    (hrun : run step s events = some s') :
    Along step (fun s event => s.overlooks event = false) s events ∧
        (s'.Steady ∨ ∃ a, s'.aborted = some a ∧ a.isUse = true) ∨
      ¬ Along step (fun s event => s.overlooks event = false) s events ∧
        ∃ a, s'.aborted = some a ∧ a.isBegin = true := by
  induction events generalizing s with
  | nil =>
    cases hrun
    exact .inl ⟨trivial, .inl h⟩
  | cons event events ih =>
    obtain ⟨t, hstep, hrest⟩ := run_cons.mp hrun
    have honly {u : Splitter} (hu : step s event = some u) : u = t :=
      Option.some.inj (hu.symm.trans hstep)
    cases step_steady h haccepted.1 (taken_of_step hstep).2 with
    | steady hattended hsteady =>
      rcases ih hsteady (haccepted.2 t hstep) hrest with ⟨halong, hend⟩ | ⟨halong, hend⟩
      · exact .inl ⟨⟨hattended, fun u hu => honly hu ▸ halong⟩, hend⟩
      · exact .inr ⟨fun hall => halong (hall.2 t hstep), hend⟩
    | misused hattended haborted huse =>
      obtain ⟨rfl, rfl⟩ := run_aborted haborted hrest
      exact .inl ⟨⟨hattended, fun _ _ => trivial⟩, .inr ⟨_, haborted, huse⟩⟩
    | overlooked hoverlooked haborted hbegins =>
      obtain ⟨rfl, rfl⟩ := run_aborted haborted hrest
      exact .inr ⟨fun hall => Bool.false_ne_true (hall.1.symm.trans hoverlooked),
        _, haborted, hbegins⟩

/-- Whoever waits when nothing runs has a header parse in progress, or the input is locked. -/
theorem Steady.in_flight {s : Splitter} (h : s.Steady) (hstack : s.stack = []) :
    (s.parsingHeader = true ↔ s.reads.length = 1) ∧ (s.parsingHeader = false → s.reads = []) ∧
      ((s.waitingForResponse || s.waitingForRequest) = true →
        s.locked = true ∨ s.parsingHeader = true) := by
  have hactive : s.active = s.reads := by
    simp only [active, hstack]
    rfl
  rw [← hactive]
  refine ⟨⟨fun hparsing => ?_, fun hlength => ?_⟩, h.resting, fun hwaiting => ?_⟩
  · obtain ⟨-, operation, hone, -, -⟩ := h.parsing hparsing
    rw [hone]
    rfl
  · by_contra hne
    rw [h.resting (by simpa using hne)] at hlength
    cases hlength
  · by_contra hne
    simp only [not_or, Bool.not_eq_true] at hne
    obtain ⟨hlocked, hresting⟩ := hne
    rw [Bool.or_eq_true] at hwaiting
    rcases hwaiting with hresponse | hrequest
    · have hhead := h.response hresting (.inl hlocked) hresponse
      rw [hstack] at hhead
      cases hhead
    · have hhead := h.request hresting (.inl hlocked) hrequest
      rw [hstack] at hhead
      cases hhead

/-- In the runs whose headers are well formed and match a waiter, `begin_parse_message` is there
whenever it is called unless a waiter was overlooked, and nobody waits for nothing. -/
theorem begin_parse_message_set (events : List Event) (s : Splitter)
    (haccepted : Along step (fun s event => s.headerFails event = false) {} events)
    (hrun : run step {} events = some s) :
    ((∀ a, s.aborted = some a → a.isBegin = false) ↔
        Along step (fun s event => s.overlooks event = false) {} events) ∧
      (s.aborted = none → s.stack = [] → s.locked = false →
        (s.waitingForResponse || s.waitingForRequest) = true →
        s.parsingHeader = true ∧ s.reads.length = 1) := by
  rcases run_steady initial_steady haccepted hrun with ⟨halong, hend⟩ | ⟨halong, a, ha, hbegins⟩
  · constructor
    · refine ⟨fun _ => halong, fun _ a ha => ?_⟩
      rcases hend with hsteady | ⟨b, hb, huse⟩
      · rw [hsteady.aborted] at ha
        cases ha
      · rw [ha, Option.some.injEq] at hb
        exact hb ▸ Assertion.isBegin_of_isUse huse
    · intro hnone hstack hlocked hwaiting
      rcases hend with hsteady | ⟨b, hb, -⟩
      · obtain ⟨hflight, -, hwaits⟩ := hsteady.in_flight hstack
        rcases hwaits hwaiting with hlock | hparsing
        · exact (Bool.false_ne_true (hlocked.symm.trans hlock)).elim
        · exact ⟨hparsing, hflight.mp hparsing⟩
      · rw [hnone] at hb
        cases hb
  · constructor
    · refine ⟨fun hall => ?_, fun hall => (halong hall).elim⟩
      exact (Bool.false_ne_true ((hall a ha).symm.trans hbegins)).elim
    · intro hnone
      rw [hnone] at ha
      cases ha

omit [Platform] in
/-- A request handler that locks the input before it waits for the next request. -/
theorem begin_parse_message_set_locked :
    letI := Platform.reference
    let events : List Event := [.waitForResponse, .resume, .waitForRequest,
      .read 0 [0, 0, 0, 0, 0, 0, 0, 0, 0, 0], .resume, .resume, .lockInput, .waitForRequest,
      .resume, .payload [], .unlockInput, .resume]
    ∃ s, run step {} events = some s ∧ s.parsingHeader = true ∧ s.reads.length = 1 := by
  letI := Platform.reference
  intro events
  have hidle : (run step {} events).any (fun s => s.aborted.isNone && s.stack.isEmpty &&
      !s.locked && s.waitingForResponse) = true := by decide +kernel
  obtain ⟨s, hrun, hs⟩ := (Option.any_eq_true _ _).mp hidle
  simp only [Bool.and_eq_true, Option.isNone_iff_eq_none, List.isEmpty_iff,
    Bool.not_eq_true'] at hs
  obtain ⟨⟨⟨haborted, hstack⟩, hlocked⟩, hwaiting⟩ := hs
  have hset := begin_parse_message_set events s (by decide +kernel) hrun
  exact ⟨s, hrun, hset.2 haborted hstack hlocked (by rw [hwaiting, Bool.true_or])⟩

omit [Platform] in
/-- The first request handler waits for the next request and takes the function that the second
one needs. -/
theorem begin_parse_message_empty :
    letI := Platform.reference
    let events : List Event := [.waitForResponse, .resume, .waitForRequest,
      .read 0 [0, 0, 0, 0, 0, 0, 0, 0, 0, 0], .resume, .resume, .waitForRequest, .resume, .resume,
      .read 0 [0, 0, 0, 0, 0, 0, 0, 0, 0, 0], .resume, .resume, .resume]
    (∃ s, run step {} events = some s ∧ s.aborted = some .requestBegin) ∧
      Along step (fun s event => s.headerFails event = false) {} events := by
  letI := Platform.reference
  intro events
  have hend : (run step {} events).any (fun s => decide (s.aborted = some .requestBegin)) =
      true := by decide +kernel
  obtain ⟨s, hrun, hs⟩ := (Option.any_eq_true _ _).mp hend
  exact ⟨⟨s, hrun, of_decide_eq_true hs⟩, by decide +kernel⟩

end Splitter

end Warpcoil
