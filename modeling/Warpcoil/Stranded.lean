import Warpcoil.Waiters

/-! The header parses of a splitter that end in `on_error`, and what is left after one. -/
namespace Warpcoil
open Incremental Transition

namespace Splitter

/-- The flag has been left behind by a parse that ended in `on_error`. At most one frame of it
is left, and the request waiter it is to call is still there. -/
structure Stuck (s : Splitter) : Prop where
  aborted : s.aborted = none
  thrown : s.thrown = none
  parsingHeader : s.parsingHeader = true
  active : s.active = []
  errors : s.stack.filter SplitterFrame.isError = [] ∨ ∃ isWaitingForRequest ec,
    s.stack.filter SplitterFrame.isError = [.errorContinue isWaitingForRequest ec] ∧
      (isWaitingForRequest = true → s.waitingForRequest = true)

theorem Stopped.onError {s : Splitter} {part : HeaderPart} (h : s.Stopped part)
    (ec : ErrorCode) : (s.onError ec).Stuck := by
  have herrors : (SplitterFrame.errorContinue s.waitingForRequest ec :: s.stack).filter
      SplitterFrame.isError = [.errorContinue s.waitingForRequest ec] :=
    congrArg (SplitterFrame.errorContinue s.waitingForRequest ec :: ·) h.errors
  unfold Splitter.onError
  dsimp only
  split_ifs
  · exact ⟨h.aborted, h.thrown, h.parsingHeader, h.active, .inr ⟨_, _, herrors, id⟩⟩
  · exact ⟨h.aborted, h.thrown, h.parsingHeader, h.active, .inr ⟨_, _, herrors, id⟩⟩

theorem Stopped.call_error {s : Splitter} {part : HeaderPart} (h : s.Stopped part)
    (ec : ErrorCode) : (s.call part (.error ec)).Stuck := by
  cases part with
  | messageType => exact h.onError ec
  | response =>
    have hwaiting : s.waitingForResponse = true := h.awaits
    change (s.onResponse (.error ec)).Stuck
    unfold Splitter.onResponse
    rw [hwaiting, Bool.not_true, if_neg Bool.false_ne_true]
    exact h.onError ec
  | request =>
    have hwaiting : s.waitingForRequest = true := h.awaits
    change (s.onRequest (.error ec)).Stuck
    unfold Splitter.onRequest
    rw [hwaiting, Bool.not_true, if_neg Bool.false_ne_true]
    exact h.onError ec

theorem Stopped.onMessageType_unexpected {s : Splitter} (h : s.Stopped .messageType)
    {type : Value} (hexpects : s.expects type = false) :
    (s.onMessageType (.ok type)).Stuck := by
  simp only [expects, Bool.or_eq_false_iff] at hexpects
  unfold Splitter.onMessageType
  dsimp only
  split_ifs with hresponse hwaiting hrequest hwaiting
  · simp [hresponse, hwaiting] at hexpects
  · exact h.onError _
  · simp [hrequest, hwaiting] at hexpects
  · exact h.onError _
  · exact h.onError _

variable [Platform]

/-- The lengths in a header are those of short names. -/
theorem HeaderPart.parse_ne_lengthError (part : HeaderPart) (bs : List UInt8) :
    part.continuation.parserType.parse bs ≠ .fail .lengthError := by
  intro hparse
  cases part with
  | messageType =>
    have hforget := parse_messageType bs
    rw [show messageTypeParser.parse bs = _ from hparse] at hforget
    cases bs <;> cases hforget
  | response =>
    have hforget := parse_requestId bs
    rw [show requestIdParser.parse bs = _ from hparse] at hforget
    split_ifs at hforget
    · cases hforget
    · cases hforget
  | request =>
    have hforget := parse_requestHeader bs
    rw [show requestHeaderParser.parse bs = _ from hparse] at hforget
    split_ifs at hforget
    · cases hforget
    · split at hforget
      · cases hforget
      · split_ifs at hforget <;> cases hforget

theorem start_stuck {s : Splitter} {operation : HeaderOperation}
    (h : s.Stopped operation.part) (hsound : operation.operation.Sound)
    (hrefused : s.refuses operation = true) : (s.start operation).Stuck := by
  unfold start
  rw [HeaderOperation.check_eq hsound]
  dsimp only
  unfold refuses at hrefused
  have hparse := HeaderOperation.read_eq hsound s.buffer
  cases hread : operation.parser.read s.buffer with
  | more parser =>
    rw [hread] at hrefused
    cases hrefused
  | fail e =>
    rw [hread] at hparse
    cases e with
    | invalidInput => exact h.call_error _
    | lengthError => exact (HeaderPart.parse_ne_lengthError _ _ hparse.symm).elim
  | complete v rest =>
    rw [hread] at hrefused
    dsimp only at hrefused ⊢
    cases hpart : operation.part with
    | messageType =>
      rw [hpart] at hrefused h
      have hrest : Stopped { s with buffer := rest } .messageType :=
        ⟨h.aborted, h.thrown, h.errors, h.active, h.parsingHeader, h.locked, h.awaits, h.spent,
          h.crowded⟩
      apply hrest.onMessageType_unexpected
      rw [Bool.not_eq_true'] at hrefused
      exact hrefused
    | response =>
      rw [hpart] at hrefused
      cases hrefused
    | request =>
      rw [hpart] at hrefused
      cases hrefused

theorem step_stuck {s s' : Splitter} {event : Event} (h : s.Steady)
    (hfails : s.headerFails event = true) (htaken : Taken s event s') : s'.Stuck := by
  cases htaken with
  | waitForResponse | waitForRequest | lockInput | unlockInput | payload | read => cases hfails
  | @resume frame stack hstack =>
    unfold headerFails at hfails
    rw [hstack] at hfails
    cases frame with
    | start operation =>
      obtain ⟨hsound, hstopped⟩ := h.started hstack
      exact start_stuck hstopped hsound hfails
    | requestContinue | responseContinue | errorContinue => cases hfails
  | readError hstack hreads =>
    obtain ⟨-, -, hstopped⟩ := h.read hstack hreads
    exact hstopped.call_error _

/-- Nothing takes the flag back. -/
theorem Stuck.kept {s s' : Splitter} {event : Event} (h : s.Stuck) (htaken : Taken s event s') :
    s'.Stuck ∨ ∃ a, s'.aborted = some a ∧ a.isUse = true := by
  have hactive : s.stack.flatMap SplitterFrame.operation ++ s.reads = [] := h.active
  obtain ⟨hstarts, hreads⟩ := List.append_eq_nil_iff.mp hactive
  cases htaken with
  | waitForResponse =>
    unfold Splitter.waitForResponse
    dsimp only
    split_ifs with hwaiting hparsing
    · exact .inr ⟨.waitForResponse, rfl, rfl⟩
    · exact .inl ⟨h.aborted, h.thrown, h.parsingHeader, h.active, h.errors⟩
    · exact (hparsing h.parsingHeader).elim
  | waitForRequest =>
    unfold Splitter.waitForRequest
    dsimp only
    split_ifs with hwaiting hparsing
    · exact .inr ⟨.waitForRequest, rfl, rfl⟩
    · refine .inl ⟨h.aborted, h.thrown, h.parsingHeader, h.active, ?_⟩
      rcases h.errors with herrors | ⟨isWaitingForRequest, ec, herrors, -⟩
      · exact .inl herrors
      · exact .inr ⟨isWaitingForRequest, ec, herrors, fun _ => rfl⟩
    · exact (hparsing h.parsingHeader).elim
  | lockInput =>
    unfold Splitter.lockInput
    rw [h.parsingHeader, Bool.true_or, if_pos rfl]
    exact .inr ⟨.lockInput, rfl, rfl⟩
  | unlockInput =>
    unfold Splitter.unlockInput
    rw [h.parsingHeader, Bool.true_or, if_pos rfl]
    exact .inr ⟨.unlockInput, rfl, rfl⟩
  | payload => exact .inl ⟨h.aborted, h.thrown, h.parsingHeader, h.active, h.errors⟩
  | @resume frame stack hstack =>
    have hrest : Splitter.active { s with stack } = [] := by
      rw [hstack, List.flatMap_cons] at hstarts
      exact List.append_eq_nil_iff.mpr ⟨(List.append_eq_nil_iff.mp hstarts).2, hreads⟩
    have herrors := h.errors
    rw [hstack] at herrors
    have hquiet (hframe : frame.isError = false) : Stuck { s with stack } := by
      rw [List.filter_cons, hframe, if_neg Bool.false_ne_true] at herrors
      exact ⟨h.aborted, h.thrown, h.parsingHeader, hrest, herrors⟩
    cases frame with
    | start operation =>
      rw [hstack] at hstarts
      cases hstarts
    | requestContinue continue_ =>
      change (Splitter.continueRequest { s with stack } continue_).Stuck ∨ _
      unfold Splitter.continueRequest
      rw [if_neg (by simp [h.parsingHeader])]
      exact .inl (hquiet rfl)
    | responseContinue continue_ =>
      change (Splitter.continueResponse { s with stack } continue_).Stuck ∨ _
      unfold Splitter.continueResponse
      rw [if_neg (by simp [h.parsingHeader])]
      exact .inl (hquiet rfl)
    | errorContinue isWaitingForRequest ec =>
      -- this was the only frame of its kind
      rw [List.filter_cons,
        if_pos (show SplitterFrame.isError (.errorContinue _ _) = true from rfl)]
        at herrors
      obtain hnone | ⟨isWaitingForRequest', ec', hone, hwaiting⟩ := herrors
      · cases hnone
      · obtain ⟨hframe, hnone⟩ := List.cons.inj hone
        cases hframe
        change (Splitter.continueError { s with stack } isWaitingForRequest ec).Stuck ∨ _
        unfold Splitter.continueError
        split_ifs with his hrequest
        · exact .inl ⟨h.aborted, h.thrown, h.parsingHeader, hrest, .inl hnone⟩
        · exact (hrequest (hwaiting his)).elim
        · exact .inl ⟨h.aborted, h.thrown, h.parsingHeader, hrest, .inl hnone⟩
  | read hstack hread => simp [hreads] at hread
  | readError hstack hread => simp [hreads] at hread

theorem Stuck.run {s s' : Splitter} {events : List Event} (h : s.Stuck)
    (hrun : run step s events = some s') (haborted : s'.aborted = none) : s'.Stuck := by
  induction events generalizing s with
  | nil =>
    cases hrun
    exact h
  | cons event events ih =>
    obtain ⟨t, hstep, hrest⟩ := run_cons.mp hrun
    rcases h.kept (taken_of_step hstep).2 with hstuck | ⟨a, ha, -⟩
    · exact ih hstuck hrest
    · obtain ⟨-, rfl⟩ := run_aborted ha hrest
      rw [haborted] at ha
      cases ha

theorem run_stuck {s s' : Splitter} {events : List Event} (h : s.Steady)
    (hrun : run step s events = some s') (haborted : s'.aborted = none) :
    Along step (fun s event => s.headerFails event = false) s events ∧ s'.Steady ∨
      ¬ Along step (fun s event => s.headerFails event = false) s events ∧ s'.Stuck := by
  induction events generalizing s with
  | nil =>
    cases hrun
    exact .inl ⟨trivial, h⟩
  | cons event events ih =>
    obtain ⟨t, hstep, hrest⟩ := run_cons.mp hrun
    have honly {u : Splitter} (hu : step s event = some u) : u = t :=
      Option.some.inj (hu.symm.trans hstep)
    have hgone {a : Assertion} {P : Prop} (ha : t.aborted = some a) : P := by
      obtain ⟨-, rfl⟩ := run_aborted ha hrest
      rw [haborted] at ha
      cases ha
    have htaken := (taken_of_step hstep).2
    rcases Bool.eq_false_or_eq_true (s.headerFails event) with hfails | hfails
    · refine .inr ⟨fun hall => ?_, (step_stuck h hfails htaken).run hrest haborted⟩
      exact Bool.false_ne_true (hall.1.symm.trans hfails)
    · cases step_steady h hfails htaken with
      | steady hattended hsteady =>
        rcases ih hsteady hrest with ⟨halong, hend⟩ | ⟨halong, hend⟩
        · exact .inl ⟨⟨hfails, fun u hu => honly hu ▸ halong⟩, hend⟩
        · exact .inr ⟨fun hall => halong (hall.2 t hstep), hend⟩
      | misused hattended ha huse => exact hgone ha
      | overlooked hoverlooked ha hbegins => exact hgone ha

/-- Between events the flag tells whether a header parse is in flight, and nobody is stranded,
exactly in the runs in which no header parse has ended in `on_error`. -/
theorem header_parse_in_flight (events : List Event) (s : Splitter)
    (hrun : run step {} events = some s) (haborted : s.aborted = none) (hstack : s.stack = []) :
    ((s.parsingHeader = true ↔ s.reads.length = 1) ∧ (s.parsingHeader = false → s.reads = []) ∧
        ((s.waitingForResponse || s.waitingForRequest) = true →
          s.locked = true ∨ s.reads.length = 1)) ↔
      Along step (fun s event => s.headerFails event = false) {} events := by
  rcases run_stuck initial_steady hrun haborted with ⟨halong, hsteady⟩ | ⟨halong, hstuck⟩
  · obtain ⟨hflight, hresting, hwaits⟩ := hsteady.in_flight hstack
    refine ⟨fun _ => halong, fun _ => ⟨hflight, hresting, fun hwaiting => ?_⟩⟩
    exact (hwaits hwaiting).imp_right hflight.mp
  · refine ⟨fun ⟨hflight, _⟩ => ?_, fun hall => (halong hall).elim⟩
    have hreads : s.reads = [] := (List.append_eq_nil_iff.mp hstuck.active).2
    have hone := hflight.mp hstuck.parsingHeader
    rw [hreads] at hone
    cases hone

omit [Platform] in
/-- A run of two reads without errors. -/
theorem header_parse_in_flight_read :
    letI := Platform.reference
    let events : List Event := [.waitForRequest, .resume, .read 0 [0, 0], .resume, .resume]
    ∃ s, run step {} events = some s ∧ (s.parsingHeader = true ↔ s.reads.length = 1) := by
  letI := Platform.reference
  intro events
  have hidle : (run step {} events).any (fun s => s.aborted.isNone && s.stack.isEmpty) = true := by
    decide +kernel
  obtain ⟨s, hrun, hs⟩ := (Option.any_eq_true _ _).mp hidle
  simp only [Bool.and_eq_true, Option.isNone_iff_eq_none, List.isEmpty_iff] at hs
  obtain ⟨haborted, hstack⟩ := hs
  have hall := (header_parse_in_flight events s hrun haborted hstack).mpr (by decide +kernel)
  exact ⟨s, hrun, hall.1⟩

omit [Platform] in
/-- An unknown message type, and a waiter that is registered after it: nothing is read any
more. -/
theorem waiter_stranded :
    letI := Platform.reference
    let events : List Event := [.waitForRequest, .resume, .read 0 [2], .resume, .resume,
      .waitForRequest]
    ∃ s, run step {} events = some s ∧ s.aborted = none ∧ s.thrown = none ∧ s.stack = [] ∧
      s.waitingForRequest = true ∧ s.parsingHeader = true ∧ s.locked = false ∧ s.reads = [] := by
  letI := Platform.reference
  intro events
  have hend : (run step {} events).any (fun s => s.aborted.isNone && s.thrown.isNone &&
      s.stack.isEmpty && s.waitingForRequest && s.parsingHeader && !s.locked &&
      s.reads.isEmpty) = true := by decide +kernel
  obtain ⟨s, hrun, hs⟩ := (Option.any_eq_true _ _).mp hend
  simp only [Bool.and_eq_true, Option.isNone_iff_eq_none, List.isEmpty_iff,
    Bool.not_eq_true'] at hs
  obtain ⟨⟨⟨⟨⟨⟨haborted, hthrown⟩, hstack⟩, hwaiting⟩, hparsing⟩, hlocked⟩, hreads⟩ := hs
  exact ⟨s, hrun, haborted, hthrown, hstack, hwaiting, hparsing, hlocked, hreads⟩

end Splitter

end Warpcoil
