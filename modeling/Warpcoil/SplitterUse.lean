import Warpcoil.Lockstep
import Warpcoil.Stranded

/-! The `message_splitter` in a side is the one that stands on its own: as long as no assertion
fails and nothing is thrown, a side only does what the users of a splitter may do. -/
namespace Warpcoil
open Incremental Transition

/-- The header that such a continuation parses; the others belong to the holder of the lock. -/
def Continuation.part : Continuation → Option HeaderPart
  | .messageType => some .messageType
  | .response => some .response
  | .request => some .request
  | .result _ | .argument _ _ _ _ => none

def ParseOperation.header (operation : ParseOperation) : Option HeaderOperation :=
  operation.onResult.part.map fun part => ⟨operation.parser, part, operation.seen⟩

def Frame.splitter : Frame → Option SplitterFrame
  | .start operation => operation.header.map .start
  | .requestContinue continue_ => some (.requestContinue continue_)
  | .responseContinue continue_ => some (.responseContinue continue_)
  | .errorContinue isWaitingForRequest ec => some (.errorContinue isWaitingForRequest ec)
  | .errors _ _ | .resultUnlocked _ _ | .resultReady _ _ | .argumentUnlocked _ _ _ _ _ | .writer
  | .user => none

namespace Side

/-- The splitter of a side, beside what a splitter records. -/
def splitter (s : Side) (handed : List Handed) (crowded : Bool) : Splitter where
  buffer := s.buffer
  locked := s.locked
  beginParseMessage := s.beginParseMessage
  waitingForRequest := s.waitingForRequest.isSome
  waitingForResponse := s.waitingForResponse
  parsingHeader := s.parsingHeader
  reads := s.reads.filterMap ParseOperation.header
  stack := s.stack.filterMap Frame.splitter
  handed
  crowded

/-- No assertion has failed and nothing has been thrown. -/
structure Clean (s : Side) : Prop where
  violated : s.history.violated = []
  thrown : s.thrown = none

/-- No parse has just been begun. -/
def Still (s : Side) : Prop := s.stack.flatMap Frame.operation = []

/-- A parse is begun last of all. -/
def Topmost (s : Side) : Prop := s.stack.tail.flatMap Frame.operation = []

variable {s : Side} {handed : List Handed} {crowded : Bool}

theorem Still.topmost (h : s.Still) : s.Topmost := by
  unfold Topmost
  unfold Still at h
  cases hstack : s.stack with
  | nil => rfl
  | cons frame stack =>
    rw [hstack, List.flatMap_cons] at h
    exact (List.append_eq_nil_iff.mp h).2

theorem Topmost.still_of_user (h : s.Topmost) (hruns : s.userRuns = true) : s.Still := by
  unfold userRuns at hruns
  unfold Topmost at h
  unfold Still
  split at hruns
  · next hstack =>
    rw [hstack]
    rfl
  · next stack hstack =>
    rw [hstack] at h ⊢
    exact h
  · cases hruns

theorem Topmost.pop (h : s.Topmost) {frame : Frame} {stack : List Frame}
    (hstack : s.stack = frame :: stack) : Still { s with stack } := by
  unfold Topmost at h
  rw [hstack] at h
  exact h

theorem still_nil (hstack : s.stack = []) : s.Still := by
  unfold Still
  rw [hstack]
  rfl

/-- The splitter waits for its user then. -/
theorem Still.userRuns (h : s.Still) : (s.splitter handed crowded).userRuns = true := by
  unfold Still at h
  unfold Splitter.userRuns
  split
  · next operation stack hstack =>
    have hmem : SplitterFrame.start operation ∈ s.stack.filterMap Frame.splitter := by
      rw [show s.stack.filterMap Frame.splitter = _ from hstack]
      exact List.mem_cons_self
    obtain ⟨frame, hframe, hsplitter⟩ := List.mem_filterMap.mp hmem
    cases frame with
    | start other =>
      have hnil := List.flatMap_eq_nil_iff.mp h _ hframe
      cases hnil
    | _ => cases hsplitter
  · rfl
  · rfl
  · rfl
  · rfl

/-! The functions of the splitter, one by one. -/

theorem assert_clean {a : Assertion} {c : Bool} (h : (s.assert a c).history.violated = []) :
    c = true ∧ s.history.violated = [] := by
  cases c with
  | true => exact ⟨rfl, h⟩
  | false => exact absurd h (List.append_ne_nil_of_right_ne_nil _ (List.cons_ne_nil _ _))

theorem assert_splitter (s : Side) (a : Assertion) (c : Bool) :
    (s.assert a c).splitter handed crowded = s.splitter handed crowded := rfl

theorem Still.assert (h : s.Still) (a : Assertion) (c : Bool) : (s.assert a c).Still := h

theorem callBeginParseMessage_violated (h : s.callBeginParseMessage.history.violated = []) :
    s.history.violated = [] := by
  unfold callBeginParseMessage at h
  split at h
  · dsimp only at h
    split_ifs at h
    · exact (assert_clean h).2
    · exact (assert_clean h).2
  · exact h

theorem callBeginParseMessage_splitter (handed : List Handed) (crowded : Bool) (hstill : s.Still)
    (hclean : s.callBeginParseMessage.Clean) :
    s.beginParseMessage = true ∧ s.callBeginParseMessage.Topmost ∧
      ∃ crowded', (s.splitter handed crowded).callBeginParseMessage =
        s.callBeginParseMessage.splitter handed crowded' := by
  cases hbegin : s.beginParseMessage with
  | false =>
    have hthrown := hclean.thrown
    rw [callBeginParseMessage, hbegin, if_neg Bool.false_ne_true] at hthrown
    cases hthrown
  | true =>
    have hviolated := hclean.violated
    have hguard : (!s.parsingHeader && (s.waitingForResponse || s.waitingForRequest.isSome)) =
        true := by
      rw [callBeginParseMessage, if_pos hbegin] at hviolated
      dsimp only at hviolated
      split_ifs at hviolated
      · exact (assert_clean hviolated).1
      · exact (assert_clean hviolated).1
    simp only [Bool.and_eq_true, Bool.not_eq_true'] at hguard
    obtain ⟨hheader, hwaiting⟩ := hguard
    have hsplitter : (s.splitter handed crowded).callBeginParseMessage =
        if s.locked then s.splitter handed crowded
        else s.begun.splitter handed (s.waitingForResponse && s.waitingForRequest.isSome) := by
      have hnot : ¬ (s.parsingHeader || !(s.waitingForResponse || s.waitingForRequest.isSome)) =
          true := by
        rw [hheader, hwaiting]
        exact Bool.false_ne_true
      exact if_neg hnot
    rw [callBeginParseMessage_eq hbegin hheader hwaiting, hsplitter]
    cases s.locked with
    | true => exact ⟨rfl, hstill.topmost, crowded, rfl⟩
    | false => exact ⟨rfl, hstill, _, rfl⟩

theorem onHeader_clean {request : Except ErrorCode RequestId}
    (h : (s.onHeader request).history.violated = []) :
    s.state = .parsingHeader ∧ s.history.violated = [] := by
  have hassert : (s.assert .registryHeader (decide (s.state = .parsingHeader))).history.violated =
      [] := by
    unfold onHeader at h
    dsimp only at h
    split at h
    · exact h
    · split at h
      · exact h
      · exact (assert_clean h).2
  obtain ⟨hstate, hviolated⟩ := assert_clean hassert
  exact ⟨of_decide_eq_true hstate, hviolated⟩

theorem onError_violated {ec : ErrorCode} (h : (s.onError ec).history.violated = []) :
    s.history.violated = [] := by
  unfold onError at h
  dsimp only at h
  split_ifs at h
  · have hbefore := (onHeader_clean h).2
    exact hbefore
  · exact h

theorem onRequest_violated {servers : InterfaceDefinition} {handler : Nat}
    {request : Except ErrorCode (RequestId × Identifier)}
    (h : (onRequest servers s handler request).history.violated = []) :
    s.history.violated = [] := by
  unfold onRequest at h
  split at h
  · exact h
  · split at h
    · exact h
    · exact (assert_clean h).2

theorem onResponse_clean {request : Except ErrorCode Value}
    (h : (s.onResponse request).history.violated = []) :
    s.waitingForResponse = true ∧ s.history.violated = [] := by
  have hassert : (s.assert .responseWaiting s.waitingForResponse).history.violated = [] := by
    unfold onResponse at h
    dsimp only at h
    split at h
    · exact onError_violated h
    · split_ifs at h
      · have hbefore : ((s.assert .responseWaiting s.waitingForResponse).assert .responseHeader
            s.parsingHeader).history.violated = [] := (onHeader_clean h).2
        exact (assert_clean hbefore).2
      · exact (assert_clean h).2
    · exact h
  exact assert_clean hassert

theorem onRequestHeader_clean {servers : InterfaceDefinition} {request : Except ErrorCode Value}
    (h : (onRequestHeader servers s request).history.violated = []) :
    s.waitingForRequest.isSome = true ∧ s.history.violated = [] := by
  have hassert : (s.assert .requestWaiting s.waitingForRequest.isSome).history.violated = [] := by
    unfold onRequestHeader at h
    dsimp only at h
    split at h
    · exact onError_violated h
    · split at h
      · have hbefore : ((s.assert .requestWaiting s.waitingForRequest.isSome).assert .requestHeader
            s.parsingHeader).history.violated = [] := by
          have hbefore := onRequest_violated h
          exact hbefore
        exact (assert_clean hbefore).2
      · exact (assert_clean h).2
    · exact h
  exact assert_clean hassert

theorem onError_splitter (handed : List Handed) (crowded : Bool) (hstill : s.Still)
    (ec : ErrorCode) :
    (s.onError ec).Still ∧ ∃ handed', (s.splitter handed crowded).onError ec =
      (s.onError ec).splitter handed' crowded := by
  have hsplitter : (s.splitter handed crowded).onError ec =
      if s.waitingForResponse then
        (Splitter.push { s.splitter handed crowded with waitingForResponse := false }
          [.errorContinue s.waitingForRequest.isSome ec]).hand (.response (.error ec))
      else (s.splitter handed crowded).push [.errorContinue s.waitingForRequest.isSome ec] := rfl
  rw [hsplitter, onError]
  dsimp only
  split_ifs
  · exact ⟨hstill, _, rfl⟩
  · exact ⟨hstill, handed, rfl⟩

theorem onMessageType_splitter (handed : List Handed) (crowded : Bool) (hstill : s.Still)
    (type : Except ErrorCode Value) :
    (s.onMessageType type).Topmost ∧ ∃ handed', (s.splitter handed crowded).onMessageType type =
      (s.onMessageType type).splitter handed' crowded := by
  have herror (ec : ErrorCode) : (s.onError ec).Topmost ∧ ∃ handed',
      (s.splitter handed crowded).onError ec = (s.onError ec).splitter handed' crowded :=
    ⟨(onError_splitter handed crowded hstill ec).1.topmost,
      (onError_splitter handed crowded hstill ec).2⟩
  unfold onMessageType Splitter.onMessageType
  cases type with
  | error ec => exact herror ec
  | ok type =>
    dsimp only
    rw [show (s.splitter handed crowded).waitingForResponse = s.waitingForResponse from rfl,
      show (s.splitter handed crowded).waitingForRequest = s.waitingForRequest.isSome from rfl]
    split_ifs
    · exact ⟨hstill, handed, rfl⟩
    · exact herror _
    · exact ⟨hstill, handed, rfl⟩
    · exact herror _
    · exact herror _

variable [Platform]

/-- The splitter gets to where the side is. -/
structure Mirrors (t : Splitter) (s : Side) : Prop where
  reaches : ∃ handed crowded, Reaches Splitter.step t (s.splitter handed crowded)
  topmost : s.Topmost

theorem Mirrors.refl (handed : List Handed) (crowded : Bool) (h : s.Topmost) :
    Mirrors (s.splitter handed crowded) s :=
  ⟨⟨handed, crowded, .refl _ _⟩, h⟩

theorem Mirrors.of_eq {s' : Side}
    (heq : s'.splitter handed crowded = s.splitter handed crowded) (h : s'.Topmost) :
    Mirrors (s.splitter handed crowded) s' :=
  heq ▸ .refl handed crowded h

theorem Mirrors.after {u s' : Side} (h : Mirrors (u.splitter handed crowded) s')
    (heq : u.splitter handed crowded = s.splitter handed crowded) :
    Mirrors (s.splitter handed crowded) s' :=
  heq ▸ h

theorem Mirrors.step {t u : Splitter} {event : Splitter.Event} (h : Mirrors u s)
    (hs : Splitter.step t event = some u) : Mirrors t s := by
  obtain ⟨handed, crowded, hreaches⟩ := h.reaches
  exact ⟨⟨handed, crowded, (Reaches.single hs).trans hreaches⟩, h.topmost⟩

/-- A new waiter. -/
theorem summoned_mirrors (hstill : s.Still)
    (hclean : Clean (if s.parsingHeader then s else s.callBeginParseMessage)) :
    Mirrors
      (if s.parsingHeader then s.splitter handed false
        else (s.splitter handed false).callBeginParseMessage)
      (if s.parsingHeader then s else s.callBeginParseMessage) := by
  split_ifs at hclean ⊢
  · exact .refl _ _ hstill.topmost
  · obtain ⟨-, htopmost, crowded', heq⟩ :=
      callBeginParseMessage_splitter handed false hstill hclean
    exact heq ▸ Mirrors.refl _ _ htopmost

theorem waitForResponse_mirrors (hstill : s.Still) (hclean : s.waitForResponse.Clean) :
    Mirrors (s.splitter handed crowded) s.waitForResponse := by
  have hviolated : (s.assert .waitForResponse !s.waitingForResponse).history.violated = [] := by
    have hviolated := hclean.violated
    unfold waitForResponse at hviolated
    dsimp only at hviolated
    split_ifs at hviolated
    · exact hviolated
    · have hbefore := callBeginParseMessage_violated hviolated
      exact hbefore
  obtain ⟨hnone, -⟩ := assert_clean hviolated
  have hnot : ¬ s.waitingForResponse = true := by simpa using hnone
  have hstep : Splitter.step (s.splitter handed crowded) .waitForResponse =
      some (s.splitter handed crowded).waitForResponse := by
    rw [Splitter.step, if_neg (by simp [splitter])]
    exact if_pos hstill.userRuns
  let w : Side := { s with waitingForResponse := true, beginParseMessage := true }
  have hw : s.waitForResponse = if s.parsingHeader then w else w.callBeginParseMessage := by
    rw [waitForResponse, assert_of s _ hnone]
  have hsplitter : (s.splitter handed crowded).waitForResponse =
      if s.parsingHeader then w.splitter handed false
      else (w.splitter handed false).callBeginParseMessage := if_neg hnot
  refine Mirrors.step ?_ hstep
  rw [hw] at hclean ⊢
  rw [hsplitter]
  exact summoned_mirrors (s := w) hstill hclean

theorem lockInput_step (handed : List Handed) (crowded : Bool) (hstill : s.Still)
    (hviolated : s.lockInput.history.violated = []) :
    Splitter.step (s.splitter handed crowded) .lockInput =
      some (s.lockInput.splitter handed crowded) := by
  have hguard := (assert_clean hviolated).1
  simp only [Bool.and_eq_true, Bool.not_eq_true'] at hguard
  rw [Splitter.step, if_neg (by simp [splitter])]
  refine (if_pos hstill.userRuns).trans ?_
  rw [Splitter.lockInput, if_neg (by simp [splitter, hguard])]
  rfl

theorem payload_step (hstill : s.Still) (hlocked : s.locked = true) (rest : List UInt8) :
    Splitter.step (s.splitter handed crowded) (.payload rest) =
      some (Side.splitter { s with buffer := rest } handed crowded) := by
  rw [Splitter.step, if_neg (by simp [splitter])]
  exact if_pos (by rw [hstill.userRuns]; exact hlocked)

theorem onHeader_mirrors (hstill : s.Still) {request : Except ErrorCode RequestId}
    (hclean : (s.onHeader request).Clean) :
    Mirrors (s.splitter handed crowded) (s.onHeader request) := by
  obtain ⟨hstate, -⟩ := onHeader_clean hclean.violated
  cases request with
  | error ec => exact .of_eq rfl (Still.topmost (s := s.onHeader (.error ec)) hstill)
  | ok id =>
    have hviolated := hclean.violated
    unfold onHeader at hviolated ⊢
    rw [assert_of s _ (decide_eq_true hstate)] at hviolated ⊢
    dsimp only at hviolated ⊢
    cases hfind : s.expectedResponses.find? fun e => decide (e.1 = id) with
    | none => exact .of_eq rfl (Still.topmost hstill)
    | some e =>
      rw [hfind] at hviolated
      have hlocked := lockInput_step handed crowded
        (s := { s with expectedResponses := s.expectedResponses.eraseP fun e => decide (e.1 = id),
                       state := .parsingResult }) hstill hviolated
      exact Mirrors.step (.of_eq rfl hstill) hlocked

theorem onResponse_mirrors (hstill : s.Still) {request : Except ErrorCode Value}
    (hclean : (s.onResponse request).Clean) :
    Mirrors ((s.splitter handed crowded).onResponse request) (s.onResponse request) := by
  obtain ⟨hwaiting, -⟩ := onResponse_clean hclean.violated
  have hgiven : ¬ (!(s.splitter handed crowded).waitingForResponse) = true := by
    rw [show (s.splitter handed crowded).waitingForResponse = true from hwaiting]
    exact Bool.false_ne_true
  unfold onResponse at hclean ⊢
  rw [assert_of s _ hwaiting] at hclean ⊢
  split at hclean
  · next ec =>
    obtain ⟨hnext, handed', heq⟩ := onError_splitter handed crowded hstill ec
    rw [Splitter.onResponse, if_neg hgiven]
    dsimp only
    rw [heq]
    exact .refl _ _ hnext.topmost
  · next id =>
    dsimp only at hclean ⊢
    have hstill' : (s.assert .responseHeader s.parsingHeader).waitingForResponse = true := hwaiting
    rw [if_pos hstill'] at hclean ⊢
    obtain ⟨-, hviolated⟩ := onHeader_clean hclean.violated
    have hheader : s.parsingHeader = true := (assert_clean hviolated).1
    have hnot : ¬ (!(s.splitter handed crowded).parsingHeader) = true := by
      rw [show (s.splitter handed crowded).parsingHeader = true from hheader]
      exact Bool.false_ne_true
    rw [assert_of s _ hheader] at hclean ⊢
    rw [Splitter.onResponse, if_neg hgiven, if_neg hnot]
    exact onHeader_mirrors (s := Side.push { s with
      parsingHeader := false, waitingForResponse := false }
      [.responseContinue s.waitingForRequest.isSome]) hstill hclean
  · next hother =>
    rw [Splitter.onResponse, if_neg hgiven]
    · exact .refl _ _ hstill.topmost
    · exact hother

theorem waitForRequest_mirrors (hstill : s.Still) {handler : Nat}
    (hclean : (s.waitForRequest handler).Clean) :
    Mirrors (s.splitter handed crowded) (s.waitForRequest handler) := by
  have hviolated : (s.assert .waitForRequest s.waitingForRequest.isNone).history.violated = [] := by
    have hviolated := hclean.violated
    unfold waitForRequest at hviolated
    dsimp only at hviolated
    split_ifs at hviolated
    · exact hviolated
    · have hbefore := callBeginParseMessage_violated hviolated
      exact hbefore
  obtain ⟨hnone, -⟩ := assert_clean hviolated
  have hnot : ¬ s.waitingForRequest.isSome = true := by simpa using hnone
  have hstep : Splitter.step (s.splitter handed crowded) .waitForRequest =
      some (s.splitter handed crowded).waitForRequest := by
    rw [Splitter.step, if_neg (by simp [splitter])]
    exact if_pos hstill.userRuns
  let w : Side := { s with waitingForRequest := some handler, beginParseMessage := true }
  have hw : s.waitForRequest handler = if s.parsingHeader then w else w.callBeginParseMessage := by
    rw [waitForRequest, assert_of s _ hnone]
  have hsplitter : (s.splitter handed crowded).waitForRequest =
      if s.parsingHeader then w.splitter handed false
      else (w.splitter handed false).callBeginParseMessage := if_neg hnot
  refine Mirrors.step ?_ hstep
  rw [hw] at hclean ⊢
  rw [hsplitter]
  exact summoned_mirrors (s := w) hstill hclean

theorem onRequest_mirrors {servers : InterfaceDefinition} (hstill : s.Still) {handler : Nat}
    {request : Except ErrorCode (RequestId × Identifier)}
    (hclean : (onRequest servers s handler request).Clean) :
    Mirrors (s.splitter handed crowded) (onRequest servers s handler request) := by
  cases request with
  | error ec =>
    exact .of_eq rfl (Still.topmost (s := onRequest servers s handler (.error ec)) hstill)
  | ok request =>
    unfold onRequest at hclean ⊢
    dsimp only at hclean ⊢
    cases hfind : servers.find request.2 with
    | none =>
      rw [hfind] at hclean
      cases hclean.thrown
    | some m =>
      rw [hfind] at hclean
      exact Mirrors.step (.of_eq rfl hstill) (lockInput_step _ _ hstill hclean.violated)

theorem onRequestHeader_mirrors {servers : InterfaceDefinition} (hstill : s.Still)
    {request : Except ErrorCode Value} (hclean : (onRequestHeader servers s request).Clean) :
    Mirrors ((s.splitter handed crowded).onRequest request)
      (onRequestHeader servers s request) := by
  obtain ⟨hwaiting, -⟩ := onRequestHeader_clean hclean.violated
  have hgiven : ¬ (!(s.splitter handed crowded).waitingForRequest) = true := by
    rw [show (s.splitter handed crowded).waitingForRequest = true from hwaiting]
    exact Bool.false_ne_true
  unfold onRequestHeader at hclean ⊢
  rw [assert_of s _ hwaiting] at hclean ⊢
  split at hclean
  · next ec =>
    obtain ⟨hnext, handed', heq⟩ := onError_splitter handed crowded hstill ec
    rw [Splitter.onRequest, if_neg hgiven]
    dsimp only
    rw [heq]
    exact .refl _ _ hnext.topmost
  · next id name =>
    dsimp only at hclean ⊢
    obtain ⟨handler, hhandler⟩ := Option.isSome_iff_exists.mp hwaiting
    have htaken : (s.assert .requestHeader s.parsingHeader).waitingForRequest = some handler :=
      hhandler
    rw [htaken] at hclean ⊢
    dsimp only at hclean ⊢
    have hviolated := onRequest_violated hclean.violated
    have hheader : s.parsingHeader = true := (assert_clean hviolated).1
    have hnot : ¬ (!(s.splitter handed crowded).parsingHeader) = true := by
      rw [show (s.splitter handed crowded).parsingHeader = true from hheader]
      exact Bool.false_ne_true
    rw [assert_of s _ hheader] at hclean ⊢
    rw [Splitter.onRequest, if_neg hgiven, if_neg hnot]
    exact onRequest_mirrors (s := Side.push { s with
      parsingHeader := false, waitingForRequest := none }
      [.requestContinue s.waitingForResponse]) hstill hclean
  · next hother =>
    rw [Splitter.onRequest, if_neg hgiven]
    · exact .refl _ _ hstill.topmost
    · exact hother

theorem unlockInput_mirrors (hstill : s.Still) (hclean : s.unlockInput.Clean) :
    Mirrors (s.splitter handed crowded) s.unlockInput := by
  have hviolated :
      (s.assert .unlockInput (!s.parsingHeader && s.locked)).history.violated = [] := by
    have hviolated := hclean.violated
    unfold unlockInput at hviolated
    dsimp only at hviolated
    split_ifs at hviolated
    · exact hviolated
    · have hbefore := (assert_clean (callBeginParseMessage_violated hviolated)).2
      exact hbefore
  obtain ⟨hguard, -⟩ := assert_clean hviolated
  have hnot : ¬ (s.parsingHeader || !s.locked) = true := by
    simp only [Bool.and_eq_true, Bool.not_eq_true'] at hguard
    simp [hguard]
  have hstep : Splitter.step (s.splitter handed crowded) .unlockInput =
      some (s.splitter handed crowded).unlockInput := by
    rw [Splitter.step, if_neg (by simp [splitter])]
    exact if_pos hstill.userRuns
  let u : Side := { s with locked := false }
  have hu : s.unlockInput = if !u.waitingForResponse && u.waitingForRequest.isNone then u
      else (u.assert .unlockBegin u.beginParseMessage).callBeginParseMessage := by
    rw [unlockInput, assert_of s _ hguard]
  have hsplitter : (s.splitter handed crowded).unlockInput =
      if !u.waitingForResponse && !u.waitingForRequest.isSome then u.splitter handed crowded
      else if u.beginParseMessage then (u.splitter handed crowded).callBeginParseMessage
      else (u.splitter handed crowded).abort .unlockBegin := if_neg hnot
  refine Mirrors.step ?_ hstep
  rw [hu] at hclean ⊢
  rw [hsplitter, Option.not_isSome]
  split_ifs at hclean ⊢ with hnobody hbegin
  · exact Mirrors.refl handed crowded (Still.topmost (s := u) hstill)
  · rw [assert_of u _ hbegin] at hclean ⊢
    obtain ⟨-, htopmost, crowded', heq⟩ :=
      callBeginParseMessage_splitter (s := u) handed crowded hstill hclean
    exact heq ▸ Mirrors.refl _ _ htopmost
  · have hbefore := callBeginParseMessage_violated hclean.violated
    exact (hbegin (assert_clean hbefore).1).elim

/-- The handler of a header. -/
theorem call_header_mirrors {servers : InterfaceDefinition} {k : Continuation} {part : HeaderPart}
    (hpart : k.part = some part) (hstill : s.Still) {result : Except ErrorCode Value}
    (hclean : (Side.call servers s k result).Clean) :
    Mirrors ((s.splitter handed crowded).call part result) (Side.call servers s k result) := by
  cases k with
  | messageType =>
    cases hpart
    obtain ⟨htopmost, handed', heq⟩ := onMessageType_splitter handed crowded hstill result
    have hnext : Mirrors ((s.splitter handed crowded).onMessageType result)
        (s.onMessageType result) := by
      rw [heq]
      exact .refl _ _ htopmost
    exact hnext
  | response =>
    cases hpart
    exact onResponse_mirrors hstill hclean
  | request =>
    cases hpart
    exact onRequestHeader_mirrors hstill hclean
  | result expected => cases hpart
  | argument id name m handler => cases hpart

/-- The handler of a payload. -/
theorem call_payload_mirrors {servers : InterfaceDefinition} {k : Continuation}
    (hpart : k.part = none) (hstill : s.Still) {result : Except ErrorCode Value}
    (hclean : (Side.call servers s k result).Clean) :
    Mirrors (s.splitter handed crowded) (Side.call servers s k result) := by
  cases k with
  | messageType | response | request => cases hpart
  | result expected =>
    unfold Side.call onResult at hclean ⊢
    dsimp only at hclean ⊢
    rw [← assert_splitter s .registryResult (decide (s.state = .parsingResult))]
    have hstill' := hstill.assert .registryResult (decide (s.state = .parsingResult))
    generalize s.assert .registryResult (decide (s.state = .parsingResult)) = u at *
    cases result with
    | error ec => exact .of_eq rfl (Still.topmost hstill')
    | ok v =>
      exact unlockInput_mirrors (s := u.push [.resultUnlocked expected.handler v]) hstill' hclean
  | argument id name m handler =>
    exact unlockInput_mirrors (s := s.push [.argumentUnlocked id name m handler result]) hstill
      hclean

/-- A parse of a header goes on. -/
theorem start_header_mirrors {servers : InterfaceDefinition} {operation : ParseOperation}
    {header : HeaderOperation} (hheader : operation.header = some header) (hstill : s.Still)
    (hclean : (s.start servers operation).Clean) :
    Mirrors ((s.splitter handed crowded).start header) (s.start servers operation) := by
  obtain ⟨part, hpart, rfl⟩ := Option.map_eq_some_iff.mp hheader
  unfold Side.start at hclean ⊢
  unfold Splitter.start
  dsimp only
  cases hcheck : operation.parser.checkForImmediateCompletion with
  | some v =>
    rw [hcheck] at hclean
    exact call_header_mirrors (s := Side.note { s with buffer := s.buffer } fun h =>
      { h with parsed := h.parsed ++ [⟨operation.onResult, v⟩] }) hpart hstill hclean
  | none =>
    rw [hcheck] at hclean
    dsimp only at hclean ⊢
    rw [show (s.splitter handed crowded).buffer = s.buffer from rfl]
    cases hread : operation.parser.read s.buffer with
    | complete v rest =>
      rw [hread] at hclean
      exact call_header_mirrors (s := Side.note { s with buffer := rest } fun h =>
        { h with parsed := h.parsed ++ [⟨operation.onResult, v⟩] }) hpart hstill hclean
    | more parser =>
      have heq : { s.splitter handed crowded with
          buffer := []
          reads := (s.splitter handed crowded).reads ++
            [⟨parser, part, operation.seen ++ s.buffer⟩] } =
          Side.splitter { s with
            buffer := []
            reads := s.reads ++ [{ operation with parser, seen := operation.seen ++ s.buffer }] }
            handed crowded := by
        simp [splitter, List.filterMap_append, ParseOperation.header, hpart]
      dsimp only at heq ⊢
      rw [heq]
      exact .refl _ _ (Still.topmost hstill)
    | fail e =>
      rw [hread] at hclean
      cases e with
      | invalidInput => exact call_header_mirrors (s := s.fail) hpart hstill hclean
      | lengthError => cases hclean.thrown

/-- What the holder of the lock does to the buffer. -/
theorem start_payload_mirrors {servers : InterfaceDefinition} {operation : ParseOperation}
    (hpart : operation.onResult.part = none) (hstill : s.Still) (hlocked : s.locked = true)
    (hclean : (s.start servers operation).Clean) :
    Mirrors (s.splitter handed crowded) (s.start servers operation) := by
  unfold Side.start at hclean ⊢
  cases hcheck : operation.parser.checkForImmediateCompletion with
  | some v =>
    rw [hcheck] at hclean
    exact call_payload_mirrors (s := Side.note { s with buffer := s.buffer } fun h =>
      { h with parsed := h.parsed ++ [⟨operation.onResult, v⟩] }) hpart hstill hclean
  | none =>
    rw [hcheck] at hclean
    dsimp only at hclean ⊢
    cases hread : operation.parser.read s.buffer with
    | complete v rest =>
      rw [hread] at hclean
      exact Mirrors.step (call_payload_mirrors (s := Side.note { s with buffer := rest } fun h =>
        { h with parsed := h.parsed ++ [⟨operation.onResult, v⟩] }) hpart hstill hclean)
        (payload_step hstill hlocked rest)
    | more parser =>
      refine Mirrors.step (.of_eq ?_ (Still.topmost hstill)) (payload_step hstill hlocked [])
      simp [splitter, List.filterMap_append, ParseOperation.header, hpart]
    | fail e =>
      rw [hread] at hclean
      cases e with
      | invalidInput => exact call_payload_mirrors (s := s.fail) hpart hstill hclean
      | lengthError => cases hclean.thrown

/-- The end of an operation that has called a handler. -/
theorem attended_mirrors {a : Assertion} (goes : Bool) (hstill : s.Still)
    (hclean : Clean (if goes then (s.assert a s.beginParseMessage).callBeginParseMessage else s)) :
    Mirrors
      (if goes then
        if s.beginParseMessage then (s.splitter handed crowded).callBeginParseMessage
        else (s.splitter handed crowded).abort a
      else s.splitter handed crowded)
      (if goes then (s.assert a s.beginParseMessage).callBeginParseMessage else s) := by
  split_ifs at hclean ⊢ with hgoes hbegin
  · rw [assert_of s _ hbegin] at hclean ⊢
    obtain ⟨-, htopmost, crowded', heq⟩ :=
      callBeginParseMessage_splitter handed crowded hstill hclean
    exact heq ▸ Mirrors.refl _ _ htopmost
  · have hbefore := callBeginParseMessage_violated hclean.violated
    exact (hbegin (assert_clean hbefore).1).elim
  · exact .refl _ _ hstill.topmost

theorem continueRequest_mirrors (hstill : s.Still) {continue_ : Bool}
    (hclean : (s.continueRequest continue_).Clean) :
    Mirrors ((s.splitter handed crowded).continueRequest continue_)
      (s.continueRequest continue_) :=
  attended_mirrors (continue_ && s.waitingForResponse && !s.parsingHeader) hstill hclean

theorem continueResponse_mirrors (hstill : s.Still) {continue_ : Bool}
    (hclean : (s.continueResponse continue_).Clean) :
    Mirrors ((s.splitter handed crowded).continueResponse continue_)
      (s.continueResponse continue_) :=
  attended_mirrors (continue_ && s.waitingForRequest.isSome && !s.parsingHeader) hstill hclean

theorem continueError_mirrors {servers : InterfaceDefinition} (hstill : s.Still)
    {isWaitingForRequest : Bool} {ec : ErrorCode}
    (hclean : (continueError servers s isWaitingForRequest ec).Clean) :
    Mirrors ((s.splitter handed crowded).continueError isWaitingForRequest ec)
      (continueError servers s isWaitingForRequest ec) := by
  have hsplitter : (s.splitter handed crowded).continueError isWaitingForRequest ec =
      if isWaitingForRequest then
        if s.waitingForRequest.isSome then
          Splitter.hand { s.splitter handed crowded with waitingForRequest := false }
            (.request (.error ec))
        else (s.splitter handed crowded).throw .badFunctionCall
      else s.splitter handed crowded := rfl
  unfold continueError at hclean ⊢
  rw [hsplitter]
  cases isWaitingForRequest with
  | false => exact .refl _ _ hstill.topmost
  | true =>
    rw [if_pos rfl] at hclean ⊢
    rw [if_pos rfl]
    cases hwaiting : s.waitingForRequest with
    | none =>
      rw [hwaiting] at hclean
      cases hclean.thrown
    | some handler =>
      exact .refl _ _ (Still.topmost (s := onRequest servers
        { s with waitingForRequest := none } handler (.error ec)) hstill)

theorem continueWriter_mirrors (hstill : s.Still) :
    Mirrors (s.splitter handed crowded) s.continueWriter := by
  unfold continueWriter
  cases hproceed : s.output.proceed with
  | none => exact .refl _ _ hstill.topmost
  | some output =>
    dsimp only
    split
    · unfold onSent
      split
      · split_ifs
        · exact .of_eq rfl (Still.topmost hstill)
        · exact .of_eq rfl (Still.topmost hstill)
      · exact .of_eq rfl (Still.topmost hstill)
    · exact .of_eq rfl (Still.topmost hstill)

theorem continueResult_mirrors (hstill : s.Still) {handler : Nat} {v : Value}
    (hclean : (s.continueResult handler v).Clean) :
    Mirrors (s.splitter handed crowded) (s.continueResult handler v) := by
  unfold continueResult at hclean ⊢
  dsimp only at hclean ⊢
  split_ifs at hclean ⊢
  · exact .of_eq rfl (Still.topmost hstill)
  · exact waitForResponse_mirrors
      (s := { s.push [.resultReady handler v] with state := .parsingHeader }) hstill hclean

theorem resume_step {frame : Frame} {stack : List Frame} {f : SplitterFrame}
    (hstack : s.stack = frame :: stack) (hframe : frame.splitter = some f) :
    Splitter.step (s.splitter handed crowded) .resume =
      some (Splitter.resume (Side.splitter { s with stack } handed crowded) f) := by
  rw [Splitter.step, if_neg (by simp [splitter])]
  have hsplitter : (s.splitter handed crowded).stack = f :: stack.filterMap Frame.splitter := by
    simp [splitter, hstack, hframe]
  rw [hsplitter]
  rfl

omit [Platform] in
theorem splitter_pop (handed : List Handed) (crowded : Bool) {frame : Frame} {stack : List Frame}
    (hstack : s.stack = frame :: stack) (hframe : frame.splitter = none) :
    Side.splitter { s with stack } handed crowded = s.splitter handed crowded := by
  simp [splitter, hstack, hframe]

theorem resume_mirrors {servers : InterfaceDefinition} {frame : Frame} {stack : List Frame}
    (hexclusive : s.Exclusive) (htopmost : s.Topmost) (hstack : s.stack = frame :: stack)
    (hclean : (Side.resume servers { s with stack } frame).Clean) :
    Mirrors (s.splitter handed crowded) (Side.resume servers { s with stack } frame) := by
  have hstill := htopmost.pop hstack
  have hnone (hframe : frame.splitter = none) := splitter_pop handed crowded hstack hframe
  cases frame with
  | start operation =>
    cases hpart : operation.onResult.part with
    | some part =>
      have hheader : operation.header = some ⟨operation.parser, part, operation.seen⟩ := by
        rw [ParseOperation.header, hpart]
        rfl
      exact Mirrors.step (start_header_mirrors hheader hstill hclean)
        (resume_step hstack (by rw [Frame.splitter, hheader]; rfl))
    | none =>
      have hopened := hexclusive.opened (active_start hstack) rfl
      have hlocked : s.locked = true := by
        refine hopened.locked.trans ?_
        cases hkind : operation.onResult <;> simp_all [Continuation.part, Continuation.isHeader]
      rw [← hnone (by rw [Frame.splitter, ParseOperation.header, hpart]; rfl)]
      exact start_payload_mirrors hpart hstill hlocked hclean
  | requestContinue continue_ =>
    exact Mirrors.step (continueRequest_mirrors hstill hclean) (resume_step hstack rfl)
  | responseContinue continue_ =>
    exact Mirrors.step (continueResponse_mirrors hstill hclean) (resume_step hstack rfl)
  | errorContinue isWaitingForRequest ec =>
    exact Mirrors.step (continueError_mirrors hstill hclean) (resume_step hstack rfl)
  | errors handlers ec =>
    rw [← hnone rfl]
    cases handlers with
    | nil => exact .refl _ _ hstill.topmost
    | cons handler handlers => exact .of_eq rfl (Still.topmost hstill)
  | resultUnlocked handler v =>
    rw [← hnone rfl]
    exact continueResult_mirrors hstill hclean
  | resultReady handler v =>
    rw [← hnone rfl]
    exact .of_eq rfl (Still.topmost hstill)
  | argumentUnlocked id name m handler argument =>
    rw [← hnone rfl]
    cases argument with
    | error ec => exact .of_eq rfl (Still.topmost hstill)
    | ok v => exact .of_eq rfl (Still.topmost hstill)
  | writer =>
    rw [← hnone rfl]
    exact continueWriter_mirrors hstill
  | user =>
    rw [← hnone rfl]
    exact .refl _ _ hstill.topmost

theorem expectResponse_mirrors {id : RequestId} {expected : ExpectedResponse} (hstill : s.Still)
    (hclean : (s.expectResponse id expected).Clean) :
    Mirrors (s.splitter handed crowded) (s.expectResponse id expected) := by
  unfold expectResponse at hclean ⊢
  dsimp only at hclean ⊢
  cases hstate : s.state with
  | notExpectingResponse =>
    rw [hstate] at hclean
    refine (waitForResponse_mirrors (s := { s with
      expectedResponses := insertExpected id expected s.expectedResponses
      state := .parsingHeader }) hstill hclean).after rfl
  | parsingHeader => exact .of_eq rfl (Still.topmost hstill)
  | parsingResult => exact .of_eq rfl (Still.topmost hstill)

theorem request_mirrors {name : Identifier} {m : Method} {arguments : List Value}
    (hstill : s.Still) (hclean : (s.request name m arguments).Clean) :
    Mirrors (s.splitter handed crowded) (s.request name m arguments) := by
  unfold request at hclean ⊢
  dsimp only at hclean ⊢
  split_ifs at hclean ⊢
  · refine (expectResponse_mirrors ?_ hclean).after ?_
    · exact hstill
    · rfl
  · exact .of_eq rfl (Still.topmost hstill)

theorem answer_mirrors {index : Nat} {invocation : Invocation}
    {result : Except ErrorCode Value} (hstill : s.Still) :
    Mirrors (s.splitter handed crowded) (s.answer index invocation result) := by
  unfold answer
  dsimp only
  split
  · exact .of_eq rfl (Still.topmost hstill)
  · split_ifs
    · exact .of_eq rfl (Still.topmost hstill)
    · exact .of_eq rfl (Still.topmost hstill)

theorem read_mirrors {index : Nat} {operation : ParseOperation} {bytes : List UInt8}
    (hexclusive : s.Exclusive) (hstack : s.stack = [])
    (hreads : s.reads[index]? = some operation) (hlength : bytes.length ≤ 512) :
    Mirrors (s.splitter handed crowded) (Side.push (Side.note
      { s with reads := s.reads.eraseIdx index, buffer := s.buffer ++ bytes }
      fun h => { h with received := h.received ++ bytes }) [.start operation]) := by
  obtain ⟨honly, rfl⟩ := hexclusive.only_read hreads
  have hstill : s.Still := still_nil hstack
  cases hpart : operation.onResult.part with
  | some part =>
    have hstep : Splitter.step (s.splitter handed crowded) (.read 0 bytes) =
        some (Side.splitter (Side.push (Side.note
          { s with reads := s.reads.eraseIdx 0, buffer := s.buffer ++ bytes }
          fun h => { h with received := h.received ++ bytes }) [.start operation])
          handed crowded) := by
      simp [Splitter.step, splitter, hstack, honly, ParseOperation.header, hpart, hlength,
        Splitter.push, push, note, Frame.splitter]
    exact Mirrors.step (.refl _ _ hstill) hstep
  | none =>
    have hlocked : s.locked = true := by
      have hopened := hexclusive.opened (t := { s with reads := s.reads.eraseIdx 0 })
        (active_perm hstack hreads rfl) rfl
      refine hopened.locked.trans ?_
      cases hkind : operation.onResult <;> simp_all [Continuation.part, Continuation.isHeader]
    refine Mirrors.step (.of_eq ?_ hstill) (payload_step hstill hlocked (s.buffer ++ bytes))
    simp [splitter, hstack, honly, ParseOperation.header, hpart, push, note, Frame.splitter]

theorem readError_mirrors {servers : InterfaceDefinition} {index : Nat}
    {operation : ParseOperation} {ec : ErrorCode} (hexclusive : s.Exclusive) (hstack : s.stack = [])
    (hreads : s.reads[index]? = some operation) (hec : ec ≠ .success)
    (hclean : (Side.call servers { s.fail with reads := s.reads.eraseIdx index }
      operation.onResult (.error ec)).Clean) :
    Mirrors (s.splitter handed crowded) (Side.call servers
      { s.fail with reads := s.reads.eraseIdx index } operation.onResult (.error ec)) := by
  obtain ⟨honly, rfl⟩ := hexclusive.only_read hreads
  have hstill : s.Still := still_nil hstack
  cases hpart : operation.onResult.part with
  | some part =>
    have hstep : Splitter.step (s.splitter handed crowded) (.readError 0 ec) =
        some ((Side.splitter { s.fail with reads := s.reads.eraseIdx 0 } handed crowded).call part
          (.error ec)) := by
      simp [Splitter.step, splitter, hstack, honly, ParseOperation.header, hpart, hec, fail, note]
    refine Mirrors.step (call_header_mirrors hpart ?_ hclean) hstep
    exact hstill
  | none =>
    refine (call_payload_mirrors hpart ?_ hclean).after ?_
    · exact hstill
    · simp [splitter, honly, ParseOperation.header, hpart, fail, note]

/-- Whatever a side does its splitter can be made to do by those who use it. -/
theorem step_mirrors {clients servers : InterfaceDefinition} {s' : Side} {event : Event}
    (hexclusive : s.Exclusive) (htopmost : s.Topmost)
    (hs : step clients servers s event = some s') (hclean : s'.Clean) :
    Mirrors (s.splitter handed crowded) s' := by
  obtain ⟨-, htaken⟩ := taken_of_step hs
  cases htaken with
  | call runs => exact request_mirrors (htopmost.still_of_user runs) hclean
  | serve runs =>
    refine (waitForRequest_mirrors ?_ hclean).after ?_
    · exact htopmost.still_of_user runs
    · rfl
  | answer runs => exact answer_mirrors (htopmost.still_of_user runs)
  | «return» hstack =>
    rw [← splitter_pop _ _ hstack rfl]
    exact .refl _ _ (htopmost.pop hstack).topmost
  | resume hstack => exact resume_mirrors hexclusive htopmost hstack hclean
  | read hstack hreads hlength => exact read_mirrors hexclusive hstack hreads hlength
  | readError hstack hreads hec => exact readError_mirrors hexclusive hstack hreads hec hclean
  | written hstack =>
    refine .of_eq rfl (Still.topmost ?_)
    exact still_nil (s := s) hstack

/-- A side is a user of its splitter: as long as no assertion fails and nothing is thrown, a run
of the splitter leads to every state of it. -/
theorem run_mirrors {clients servers : InterfaceDefinition} {events : List Event} {s' : Side}
    (hexclusive : s.Exclusive) (htopmost : s.Topmost)
    (hclean : ∀ before t, before <+: events → run (step clients servers) s before = some t →
      t.Clean) (hrun : run (step clients servers) s events = some s') :
    Mirrors (s.splitter handed crowded) s' := by
  induction events generalizing s handed crowded with
  | nil =>
    cases hrun
    exact .refl _ _ htopmost
  | cons event events ih =>
    obtain ⟨t, ht, hrest⟩ := run_cons.mp hrun
    have hfirst : run (step clients servers) s [event] = some t := run_cons.mpr ⟨t, ht, rfl⟩
    have hstep : Mirrors (s.splitter handed crowded) t := step_mirrors hexclusive htopmost ht
      (hclean [event] t (List.prefix_iff_eq_append.mpr rfl) hfirst)
    obtain ⟨handed', crowded', hreaches⟩ := hstep.reaches
    have hmore : Mirrors (t.splitter handed' crowded') s' := ih
      (exclusive_step clients servers s event t hexclusive ht) hstep.topmost
      (fun before u hbefore hu => hclean (event :: before) u
        (List.cons_prefix_cons.mpr ⟨rfl, hbefore⟩) (run_cons.mpr ⟨t, ht, hu⟩)) hrest
    obtain ⟨handed'', crowded'', hlast⟩ := hmore.reaches
    exact ⟨⟨handed'', crowded'', hreaches.trans hlast⟩, hmore.topmost⟩

theorem splitter_reached {clients servers : InterfaceDefinition} {events : List Event}
    (hclean : ∀ before t, before <+: events → run (step clients servers) {} before = some t →
      t.Clean) (hrun : run (step clients servers) {} events = some s) :
    ∃ handed crowded, Reaches Splitter.step {} (s.splitter handed crowded) := by
  have hmirrors : Mirrors (({} : Side).splitter [] false) s :=
    run_mirrors exclusive_initial rfl hclean hrun
  exact hmirrors.reaches

/-- Between events whoever waits at a side has a header parse in flight or waits for the lock, or
is stranded behind a header parse that has failed. -/
theorem waiters_attended {clients servers : InterfaceDefinition} {events : List Event}
    (hclean : ∀ before t, before <+: events → run (step clients servers) {} before = some t →
      t.Clean) (hrun : run (step clients servers) {} events = some s) (hstack : s.stack = [])
    (hwaiting : (s.waitingForResponse || s.waitingForRequest.isSome) = true) :
    s.locked = true ∨ (s.reads.filterMap ParseOperation.header).length = 1 ∨
      s.parsingHeader = true ∧ s.reads.filterMap ParseOperation.header = [] := by
  obtain ⟨handed, crowded, splitterEvents, hsplitter⟩ := splitter_reached hclean hrun
  rcases Splitter.run_stuck Splitter.initial_steady hsplitter rfl with ⟨-, hsteady⟩ | ⟨-, hstuck⟩
  · have hnone : (s.splitter handed crowded).stack = [] := by simp [splitter, hstack]
    obtain ⟨hflight, -, hwaits⟩ := hsteady.in_flight hnone
    rcases hwaits hwaiting with hlocked | hheader
    · exact .inl hlocked
    · exact .inr (.inl (hflight.mp hheader))
  · exact .inr (.inr ⟨hstuck.parsingHeader, (List.append_eq_nil_iff.mp hstuck.active).2⟩)

end Side
end Warpcoil
