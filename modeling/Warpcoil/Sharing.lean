import Warpcoil.ArrivalOrder

/-! A client and a server on one splitter, and a peer that answers the calls of the client while
`serve_one_request` waits. When a result has been parsed the splitter goes on for the server
before the registry waits again, so a response that begins in the same read finds nobody. -/
namespace Warpcoil
open Incremental Transition

/-- Where a frame can parse or keep the registry in `parsingResult`: at the top, or right under
the parse that `unlock_input` has begun for the server. -/
inductive Layered : List Frame → Prop
  | nil : Layered []
  | top {frame : Frame} {stack : List Frame} (rests : ∀ other ∈ stack, other.Rests) :
      Layered (frame :: stack)
  | unlocked {operation : ParseOperation} {handler : Nat} {v : Value} {stack : List Frame}
      (kind : operation.onResult = .messageType) (rests : ∀ other ∈ stack, other.Rests) :
      Layered (.start operation :: .resultUnlocked handler v :: stack)

theorem Layered.of_rests {stack : List Frame} (h : ∀ frame ∈ stack, frame.Rests) :
    Layered stack := by
  cases stack with
  | nil => exact .nil
  | cons frame stack => exact .top fun other hother => h other (List.mem_cons_of_mem _ hother)

/-- Under anything but a parse the frames rest. -/
theorem Layered.rests {frame : Frame} {stack : List Frame} (h : Layered (frame :: stack))
    (hframe : frame.operation = []) : ∀ other ∈ stack, other.Rests := by
  cases h with
  | top rests => exact rests
  | unlocked => cases hframe

namespace Side
variable [Platform]

/-- The peer answers calls that are pending, and the server may wait for a request. -/
def sharesReplies (replies : List Reply) (s : Side) : Event → Bool
  | .serve => (List.range s.history.serves).all fun n => (s.history.served.map Prod.fst).contains n
  | event => answersPending replies s event

/-- No read ends a response and begins the next one while `serve_one_request` waits. -/
def apart (replies : List Reply) (s : Side) : Event → Bool
  | .read _ bytes => s.waitingForRequest.isNone ||
      decide ((s.history.received ++ bytes).length ≤ Cuts.total Reply.size
        (replies.take (Cuts.ended Reply.size replies s.history.received.length + 1)))
  | _ => true

/-- A side that has only met responses to its pending calls, and of which the server has not
been asked for anything. -/
structure Sharing (servers : InterfaceDefinition) (replies : List Reply) (s : Side) : Prop where
  owing : s.Owing servers replies
  quiet : s.output.Quiet
  serving : s.history.serves = 0 ∨ s.history.serves = 1 ∧ s.waitingForRequest = some 0
  layered : Layered s.stack
  within : s.waitingForRequest ≠ none → s.history.received.length ≤
    Cuts.total Reply.size (replies.take (s.history.parsed.length / 3 + 1))
  exhausted : ∀ handler v, .resultUnlocked handler v ∈ s.stack → s.waitingForRequest ≠ none →
    s.history.received.length ≤
      Cuts.total Reply.size (replies.take (s.history.parsed.length / 3))

theorem sharing_initial (servers : InterfaceDefinition) (replies : List Reply) :
    Sharing servers replies {} where
  owing := owing_initial servers replies
  quiet := fun handlers ec hmem => by cases hmem
  serving := .inl rfl
  layered := .nil
  within := fun h => (h rfl).elim
  exhausted := fun _ _ _ h => (h rfl).elim

omit [Platform] in
/-- The handler of the server is held by the splitter alone. -/
theorem serving_only {s : Side} (hcustody : s.Custody) (hordered : s.output.Ordered)
    (hserving : s.history.serves = 0 ∨ s.history.serves = 1 ∧ s.waitingForRequest = some 0) :
    s.history.served = [] ∧ s.unanswered = [] := by
  constructor
  · refine List.eq_nil_iff_forall_not_mem.mpr fun served hserved => ?_
    have hle := hcustody.le hordered (.serve served.1)
    have hpos := List.count_pos_iff.mpr (List.mem_map_of_mem (f := Prod.fst) hserved)
    rw [count_map_of_injective _ Prod.fst (fun _ _ => Token.serve.inj)] at hle
    simp only [created] at hle
    rcases hserving with hnone | ⟨hone, hwaiting⟩
    · rw [hnone, if_neg (Nat.not_lt_zero _)] at hle
      omega
    · rw [hone] at hle
      split_ifs at hle with hlt
      · obtain hzero : served.1 = 0 := by omega
        have hheld : Token.serve served.1 ∈ s.held := by simp [held, hwaiting, hzero]
        have := List.count_pos_iff.mpr hheld
        omega
      · omega
  · refine List.eq_nil_iff_forall_not_mem.mpr fun index hindex => ?_
    have hlt := hcustody.bound index hindex
    have hmem : Token.serve (s.invoked.get ⟨index, hlt⟩).handler ∈
        s.unanswered.flatMap (callback s.invoked) := by
      refine List.mem_flatMap.mpr ⟨index, hindex, ?_⟩
      rw [callback, List.getElem?_eq_getElem hlt]
      exact List.mem_singleton_self _
    have hle := hcustody.le hordered (.serve (s.invoked.get ⟨index, hlt⟩).handler)
    have hpos := List.count_pos_iff.mpr hmem
    simp only [held, created, List.count_append] at hle
    rcases hserving with hnone | ⟨hone, hwaiting⟩
    · rw [hnone, if_neg (Nat.not_lt_zero _)] at hle
      omega
    · rw [hone, hwaiting] at hle
      split_ifs at hle with hfirst
      · have hzero : (s.invoked.get ⟨index, hlt⟩).handler = 0 := by omega
        rw [hzero] at hle hpos
        have hheld : (List.map Token.serve (some 0).toList).count (.serve 0) = 1 := rfl
        omega
      · omega

/-- What a parse operation completes is a part of a response. -/
theorem Follows.part {servers : InterfaceDefinition} {replies : List Reply} {s : Side}
    (h : s.Follows servers replies) {operation : ParseOperation} {stack : List Frame}
    (hstack : s.stack = .start operation :: stack) {v : Value} {rest : List UInt8}
    (hreads : s.reading operation = .complete v rest) :
    ∃ reply : Reply, reply.part operation.onResult = some v := by
  obtain ⟨done, left, more, rfl, hposition⟩ := h.position
  rcases (h.reads hposition hstack).2 with ⟨parser, hmore⟩ | ⟨reply, _, w, _, _, hpart, hcomplete⟩
  · rw [hreads] at hmore
    cases hmore
  · rw [hreads, Reading.complete.injEq] at hcomplete
    exact ⟨reply, hcomplete.1 ▸ hpart⟩

omit [Platform] in
/-- Between two responses the bytes that have not been read are the last ones received. -/
theorem Position.received_length {s : Side} {done left : List Reply} {more : List UInt8}
    (h : s.Position done left more) (hparsing : s.parsing = some .messageType) :
    s.history.received.length = (Reply.stream done).length + s.unread.length := by
  have hremains := h.remains
  rw [hparsing] at hremains
  generalize hrest : s.unread ++ more = rest at hremains
  cases hremains
  have hlength := congrArg List.length hrest
  have htotal := congrArg List.length h.received
  rw [Reply.stream, List.flatMap_append] at htotal
  simp only [List.length_append] at hlength htotal
  rw [Reply.stream] at hlength ⊢
  omega

/-- A side that does not parse has received a part of the next response at most. -/
theorem Owing.within {servers : InterfaceDefinition} {replies : List Reply} {s : Side}
    (h : s.Owing servers replies) (hrests : s.Rests) :
    Cuts.ended Reply.size replies s.history.received.length = s.history.parsed.length / 3 ∧
    s.history.received.length ≤
      Cuts.total Reply.size (replies.take (s.history.parsed.length / 3 + 1)) := by
  have hdue := h.no_due hrests
  obtain ⟨done, left, more, rfl, hposition⟩ := h.follows.position
  have hle := hposition.done_le
  have hindex := hposition.index
  have hlength := Cuts.ended_le_length Reply.size (done ++ left) s.history.received.length
  rw [hposition.due_eq, List.drop_eq_nil_iff, List.length_take] at hdue
  rw [hindex]
  refine ⟨by omega, ?_⟩
  by_contra hlt
  by_cases hlast : done.length + 1 ≤ (done ++ left).length
  · have hended := (Cuts.le_ended_iff hlast).mpr (Nat.le_of_lt (Nat.not_le.mp hlt))
    omega
  · rw [List.take_of_length_le (by omega), Reply.total_size] at hlt
    exact hlt h.follows.received.length_le

/-- The type of a response is read while the registry waits for it. -/
theorem Sharing.waits {servers : InterfaceDefinition} {replies : List Reply} {s : Side}
    (h : s.Sharing servers replies) {operation : ParseOperation} {stack : List Frame}
    (hstack : s.stack = .start operation :: stack) (hkind : operation.onResult = .messageType)
    {rest : List UInt8} (hreads : s.reading operation = .complete (.integer 1) rest) :
    s.waitingForResponse = true := by
  have hcalm := h.owing.follows.regular.calm
  have halone := hcalm.alone hstack
  obtain ⟨done, left, more, hreplies, hposition⟩ := h.owing.follows.position
  subst hreplies
  obtain ⟨hparsing, hcase⟩ := h.owing.follows.reads hposition hstack
  rw [hkind] at hparsing
  have hindex := hposition.index
  have hlength := hposition.length
  rw [hparsing, Continuation.parts] at hlength
  have hbegun : (Reply.stream done).length < s.history.received.length := by
    rw [hposition.received_length hparsing, unread, halone, List.flatMap_singleton]
    rw [reading, hkind] at hreads
    obtain ⟨b, hb, -⟩ := messageType_complete hreads
    rw [hb, List.length_cons]
    omega
  cases hcalm.registry with
  | header _ response => exact response
  | notExpecting _ _ expected =>
    -- the response would belong to a pending call
    exfalso
    rcases hcase with ⟨parser, hmore⟩ | ⟨reply, later, _, _, hleft, -, -⟩
    · rw [hreads] at hmore
      cases hmore
    · have hreply : (done ++ left)[done.length]? = some reply := by
        rw [List.getElem?_append_right (Nat.le_refl _), Nat.sub_self, hleft]
        rfl
      have hawaits := h.owing.owed done.length reply hreply (by omega)
        (by rw [List.take_left' rfl]; exact hbegun)
      rw [awaits, Bool.and_eq_true, isPending_iff] at hawaits
      obtain ⟨e, he, -⟩ := hawaits.2
      rw [show s.books.pending = s.expectedResponses from rfl, expected] at he
      cases he
  | result _ response one =>
    exfalso
    have hlayered := h.layered
    rw [hstack] at hlayered
    cases hlayered with
    | top rests =>
      have hreadsNil : s.reads = [] := by
        rw [active, hstack, List.flatMap_cons] at halone
        simpa using (List.append_eq_nil_iff.mp (List.cons.inj halone).2).2
      have hzero : results { s with stack } = 0 :=
        Rests.results (s := { s with stack }) rests hreadsNil
      rw [results_popped hstack, hzero] at one
      simp [Frame.results, hkind, Continuation.results] at one
    | @unlocked _ handler v rest' kind rests =>
      have hwaiting : s.waitingForRequest ≠ none := by
        have hawaited := (hcalm.ready hstack).awaited
        rw [hkind] at hawaited
        intro hnone
        simp [awaited, response, hnone] at hawaited
      have hend := h.exhausted handler v (by rw [hstack]; simp) hwaiting
      rw [hindex, List.take_left' rfl, Reply.total_size] at hend
      omega

theorem Sharing.layered_resumed {servers : InterfaceDefinition} {replies : List Reply}
    {s s' : Side} (h : s.Sharing servers replies) {frame : Frame} {stack : List Frame}
    (hstack : s.stack = frame :: stack) (hresumed : Resumed servers { s with stack } frame s') :
    Layered s'.stack := by
  have hlayered : Layered (frame :: stack) := hstack ▸ h.layered
  cases hresumed with
  | more =>
    cases hlayered with
    | top rests => exact .of_rests rests
    | unlocked kind rests => exact .top rests
  | @responseType operation rest kind reads waiting =>
    cases hlayered with
    | top rests => exact .top rests
    | unlocked _ rests =>
      -- the registry does not wait before the frame of the last result has gone
      cases h.owing.follows.regular.calm.registry with
      | notExpecting _ response | result _ response =>
        exact (Bool.false_ne_true (response.symm.trans waiting)).elim
      | header _ _ _ none =>
        rw [results_popped hstack, results] at none
        simp [Frame.results] at none
  | requestType kind reads | requestHeader kind reads | argument kind reads =>
    obtain ⟨reply, hpart⟩ := h.owing.follows.part hstack reads
    rw [kind] at hpart
    simp [Reply.part] at hpart
  | responseHeader kind =>
    cases hlayered with
    | top rests => exact .top (List.forall_mem_cons.mpr ⟨⟨rfl, rfl⟩, rests⟩)
    | unlocked kind' => rw [kind] at kind'; cases kind'
  | result kind =>
    cases hlayered with
    | top rests =>
      unfold release
      split_ifs
      · exact Layered.unlocked rfl rests
      · exact .top rests
    | unlocked kind' => rw [kind] at kind'; cases kind'
  | requestContinue | responseContinue | writerDone => exact .of_rests (hlayered.rests rfl)
  | lastResult | resultReady | implementation | writer => exact .top (hlayered.rests rfl)
  | responseSent => exact .top (List.forall_mem_cons.mpr ⟨⟨rfl, rfl⟩, hlayered.rests rfl⟩)
  | @nextHeader handler v =>
    have hready : (Frame.resultReady handler v).Rests := ⟨rfl, rfl⟩
    have hrests := List.forall_mem_cons.mpr ⟨hready, hlayered.rests rfl⟩
    rcases summon_stack (Side.push { s with stack } [.resultReady handler v]).awaitHeader with
      hsame | ⟨operation, hnext⟩
    · rw [hsame]
      exact .of_rests hrests
    · rw [hnext]
      exact .top hrests

omit [Platform] in
theorem layered_userRuns {s : Side} (h : Layered s.stack) (hruns : s.userRuns = true) :
    ∀ frame ∈ s.stack, frame.Rests := by
  unfold userRuns at hruns
  split at hruns
  · next hstack => simp [hstack]
  · next stack hstack =>
    rw [hstack] at h ⊢
    exact List.forall_mem_cons.mpr ⟨⟨rfl, rfl⟩, h.rests rfl⟩
  · cases hruns

omit [Platform] in
theorem layered_summon {s t : Side} (h : ∀ frame ∈ s.stack, frame.Rests)
    (hstack : t.stack = s.stack) : Layered t.summon.stack := by
  rcases summon_stack t with hsame | ⟨operation, hnext⟩
  · rw [hsame, hstack]
    exact .of_rests h
  · rw [hnext, hstack]
    exact .top h

theorem Sharing.layered_moved {clients servers : InterfaceDefinition} {replies : List Reply}
    {s s' : Side} {event : Event} (h : s.Sharing servers replies)
    (hmoved : Moved clients servers s event s') : Layered s'.stack := by
  cases hmoved with
  | resume hstack hresumed => exact h.layered_resumed hstack hresumed
  | refused runs => exact .top (layered_userRuns h.layered runs)
  | placed | answered => exact h.layered
  | awaited runs | serve runs => exact layered_summon (layered_userRuns h.layered runs) rfl
  | «return» hstack => exact .of_rests ((hstack ▸ h.layered).rests rfl)
  | read => exact .top (by simp)
  | written hstack => exact .top (by simp [hstack])

omit [Platform] in
theorem summon_request (s : Side) : s.summon.waitingForRequest = s.waitingForRequest := by
  unfold summon
  split_ifs <;> rfl

omit [Platform] in
theorem release_request (s : Side) : s.release.waitingForRequest = s.waitingForRequest := by
  unfold release
  split_ifs <;> rfl

/-- Responses leave the server waiting. -/
theorem Sharing.request_moved {clients servers : InterfaceDefinition} {replies : List Reply}
    {s s' : Side} {event : Event} (h : s.Sharing servers replies)
    (hmoved : Moved clients servers s event s') (hserve : event ≠ .serve) :
    s'.waitingForRequest = s.waitingForRequest := by
  cases hmoved with
  | serve => exact (hserve rfl).elim
  | refused | placed | answered | «return» | read | written => rfl
  | awaited => exact summon_request _
  | resume hstack hresumed =>
    cases hresumed with
    | requestHeader kind reads =>
      obtain ⟨reply, hpart⟩ := h.owing.follows.part hstack reads
      rw [kind] at hpart
      cases hpart
    | result | argument => exact release_request _
    | nextHeader => exact summon_request _
    | _ => rfl

/-- A frame that waits to register for the next header comes from a result that was read. -/
theorem Moved.unlocked_mem {clients servers : InterfaceDefinition} {s s' : Side} {event : Event}
    (h : Moved clients servers s event s') {handler : Nat} {v : Value}
    (hmem : .resultUnlocked handler v ∈ s'.stack) :
    .resultUnlocked handler v ∈ s.stack ∨ event = .resume ∧ ∃ operation stack expected rest,
      s.stack = .start operation :: stack ∧ operation.onResult = .result expected ∧
      s'.history.parsed = s.history.parsed ++ [⟨.result expected, v⟩] ∧
      s.reading operation = .complete v rest := by
  have hsummon {t : Side} (hmem : .resultUnlocked handler v ∈ t.summon.stack) :
      .resultUnlocked handler v ∈ t.stack := by
    rcases summon_stack t with hsame | ⟨operation, hnext⟩
    · rwa [hsame] at hmem
    · rw [hnext] at hmem
      simpa using hmem
  have hrelease {t : Side} (hmem : .resultUnlocked handler v ∈ t.release.stack) :
      .resultUnlocked handler v ∈ t.stack := by
    rcases release_stack t with hsame | ⟨operation, hnext⟩
    · rwa [hsame] at hmem
    · rw [hnext] at hmem
      simpa using hmem
  cases h with
  | refused => exact .inl (by simpa [Side.refused, callResultHandler, note, push] using hmem)
  | placed | answered => exact .inl hmem
  | awaited | serve =>
    replace hmem := hsummon hmem
    exact .inl hmem
  | «return» hstack =>
    rw [hstack]
    exact .inl (List.mem_cons_of_mem _ hmem)
  | read hstack =>
    simp [delivered] at hmem
  | written hstack =>
    simp [push, hstack] at hmem
  | @resume frame stack _ hstack hresumed =>
    rw [hstack]
    cases hresumed with
    | more | requestContinue | responseContinue | writerDone =>
      exact .inl (List.mem_cons_of_mem _ hmem)
    | responseType | requestType | responseHeader | requestHeader | lastResult | resultReady
    | implementation | writer | responseSent =>
      refine .inl (List.mem_cons_of_mem _ ?_)
      simpa [beginParseValue, push, callResultHandler, complete, note, entered, takeResponse,
        takeRequest] using hmem
    | nextHeader =>
      refine .inl (List.mem_cons_of_mem _ ?_)
      simpa [awaitHeader, push] using hsummon hmem
    | argument =>
      refine .inl (List.mem_cons_of_mem _ ?_)
      simpa [entered, note, push] using hrelease hmem
    | @result operation expected w rest kind reads =>
      replace hmem := hrelease hmem
      rw [push, List.singleton_append, List.mem_cons, Frame.resultUnlocked.injEq] at hmem
      rcases hmem with ⟨-, rfl⟩ | hmem
      · refine .inr ⟨rfl, operation, stack, expected, rest, rfl, kind, ?_, reads⟩
        rw [(release_fields _).1]
        rfl
      · exact .inl (List.mem_cons_of_mem _ hmem)

omit [Platform] in
theorem served_of_all {s : Side} (h : ((List.range s.history.serves).all fun n =>
    (s.history.served.map Prod.fst).contains n) = true) : s.Served := by
  intro n hn
  simp only [List.all_eq_true, List.mem_range, List.contains_iff_mem] at h
  exact h n hn

theorem sharesReplies_offered {replies : List Reply} {s : Side} {event : Event}
    (h : sharesReplies replies s event = true) : s.Offered replies event := by
  cases event with
  | serve => trivial
  | _ => exact answersPending_offered h

/-- No response meets a splitter that waits for a request only. -/
theorem Sharing.moved {clients servers : InterfaceDefinition} {replies : List Reply} {s s' : Side}
    {event : Event} (h : s.Sharing servers replies)
    (hstep : Side.step clients servers s event = some s')
    (hreplies : sharesReplies replies s event = true) :
    Moved clients servers s event s' ∧ s'.Regular servers := by
  have hregular := h.owing.follows.regular
  have hpolite : s.Polite event := by
    cases event with
    | call name arguments =>
      have hlt : s.history.calls.length < 2 ^ 64 := sharesReplies_offered hreplies
      exact hlt
    | serve => exact served_of_all hreplies
    | _ => trivial
  rcases hregular.step hstep hpolite with hmoved | hupset
  · exact hmoved
  · cases hupset with
    | resume hstack hdisturbed =>
      refine (h.owing.follows.undisturbed h.quiet (h.owing.fed (sharesReplies_offered hreplies))
        hstack (fun operation rest hframe hkind hreads => ?_) hdisturbed).elim
      subst hframe
      exact h.waits hstack hkind hreads
    | readError => cases hreplies
    | answerError | answerRefused =>
      cases (taken_of_step hstep).2 with
      | answer runs invoked unanswered =>
        rw [(serving_only hregular.custody hregular.ordered h.serving).2] at unanswered
        cases unanswered

theorem Sharing.serving_moved {clients servers : InterfaceDefinition} {replies : List Reply}
    {s s' : Side} {event : Event} (h : s.Sharing servers replies)
    (hmoved : Moved clients servers s event s') (hreplies : sharesReplies replies s event = true) :
    s'.history.serves = 0 ∨ s'.history.serves = 1 ∧ s'.waitingForRequest = some 0 := by
  by_cases hserve : event = .serve
  · subst hserve
    have hregular := h.owing.follows.regular
    have hserved := (serving_only hregular.custody hregular.ordered h.serving).1
    have hnone : s.history.serves = 0 := by
      by_contra hpos
      have := served_of_all hreplies 0 (Nat.pos_of_ne_zero hpos)
      rw [hserved] at this
      cases this
    cases hmoved with
    | serve =>
      right
      rw [(summon_fields _).1, summon_request]
      simp [awaitRequest, hnone]
  · rcases (moved_served hmoved).2 with hsame | ⟨rfl, -⟩
    · rw [hsame, h.request_moved hmoved hserve]
      exact h.serving
    · exact (hserve rfl).elim

theorem Recorded.parsed_le {s s' : Side} {event : Event} (h : s.Recorded event s') :
    s.history.parsed.length ≤ s'.history.parsed.length := by
  rcases h.parsed with hsame | ⟨_, _, _, _, _, _, _, hnext⟩
  · rw [hsame]
  · rw [hnext, List.length_append]
    exact Nat.le_add_right _ _

theorem Sharing.within_moved {clients servers : InterfaceDefinition} {replies : List Reply}
    {s s' : Side} {event : Event} (h : s.Sharing servers replies)
    (hmoved : Moved clients servers s event s') (hapart : apart replies s event = true)
    (hwaiting : s'.waitingForRequest ≠ none) : s'.history.received.length ≤
      Cuts.total Reply.size (replies.take (s'.history.parsed.length / 3 + 1)) := by
  by_cases hserve : event = .serve
  · subst hserve
    cases hmoved with
    | serve runs =>
      rw [(summon_fields _).1]
      exact (h.owing.within (layered_userRuns h.layered runs)).2
  · have hsame := h.request_moved hmoved hserve
    rw [hsame] at hwaiting
    have hrecorded := hmoved.recorded
    have hle := Cuts.total_take_le Reply.size replies
      (Nat.add_le_add_right (Nat.div_le_div_right (c := 3) hrecorded.parsed_le) 1)
    rcases hrecorded.received with hreceived | ⟨index, bytes, rfl, hreceived⟩
    · have := h.within hwaiting
      rw [hreceived]
      omega
    · cases hmoved with
      | read hstack =>
        have hended := (h.owing.within (by rw [Rests, hstack]; simp)).1
        rw [apart, Bool.or_eq_true, Option.isNone_iff_eq_none, decide_eq_true_eq, hended] at hapart
        exact hapart.resolve_left hwaiting

theorem Sharing.exhausted_moved {clients servers : InterfaceDefinition} {replies : List Reply}
    {s s' : Side} {event : Event} (h : s.Sharing servers replies)
    (hmoved : Moved clients servers s event s') {handler : Nat} {v : Value}
    (hmem : .resultUnlocked handler v ∈ s'.stack) (hwaiting : s'.waitingForRequest ≠ none) :
    s'.history.received.length ≤
      Cuts.total Reply.size (replies.take (s'.history.parsed.length / 3)) := by
  have hrecorded := hmoved.recorded
  rcases hmoved.unlocked_mem hmem with hold | ⟨rfl, operation, stack, expected, rest, hstack,
    hkind, hparsed, hreads⟩
  · have hrests (hall : ∀ frame ∈ s.stack, frame.Rests) : False := by
      have hresults := (hall _ hold).2
      cases hresults
    by_cases hserve : event = .serve
    · subst hserve
      cases hmoved with
      | serve runs => exact (hrests (layered_userRuns h.layered runs)).elim
    · rw [h.request_moved hmoved hserve] at hwaiting
      have hle := Cuts.total_take_le Reply.size replies
        (Nat.div_le_div_right (c := 3) hrecorded.parsed_le)
      rcases hrecorded.received with hreceived | ⟨index, bytes, rfl, hreceived⟩
      · have := h.exhausted handler v hold hwaiting
        rw [hreceived]
        omega
      · cases hmoved with
        | read hstack => exact (hrests (by simp [hstack])).elim
  · -- the response that was read is the last one that has begun
    rw [h.request_moved hmoved nofun] at hwaiting
    have hlength : s.history.parsed.length = 3 * (s.history.parsed.length / 3) + 2 := by
      obtain ⟨done, left, more, rfl, hposition⟩ := h.owing.follows.position
      have hposition' := hposition.length
      rw [(h.owing.follows.reads hposition hstack).1, hkind, Continuation.parts] at hposition'
      omega
    have hnext : s'.history.parsed.length / 3 = s.history.parsed.length / 3 + 1 := by
      rw [hparsed, List.length_append, List.length_singleton]
      omega
    rcases hrecorded.received with hreceived | ⟨_, _, hread, -⟩
    · rw [hreceived, hnext]
      exact h.within hwaiting
    · cases hread

theorem Sharing.step {clients servers : InterfaceDefinition} {replies : List Reply} {s s' : Side}
    {event : Event} (h : s.Sharing servers replies) (hdistinct : (replies.map Reply.call).Nodup)
    (hstep : Side.step clients servers s event = some s')
    (hreplies : sharesReplies replies s event = true) (hapart : apart replies s event = true) :
    s'.Sharing servers replies := by
  obtain ⟨hmoved, hregular⟩ := h.moved hstep hreplies
  refine ⟨h.owing.moved hdistinct (sharesReplies_offered hreplies) hmoved hregular,
    hmoved.quiet h.quiet ?_, h.serving_moved hmoved hreplies, h.layered_moved hmoved,
    h.within_moved hmoved hapart, fun _ _ => h.exhausted_moved hmoved⟩
  rintro index transferred ec rfl
  exact of_decide_eq_true hreplies

/-- Where no read ends a response and begins another one while `serve_one_request` waits, the
responses reach their calls and the server goes on waiting. -/
theorem replies_shared (clients servers : InterfaceDefinition) (replies : List Reply)
    (events : List Event) (s : Side) (hdistinct : (replies.map Reply.call).Nodup)
    (hreplies : Along (Side.step clients servers)
      (fun s event => sharesReplies replies s event = true) {} events)
    (hapart : Along (Side.step clients servers)
      (fun s event => apart replies s event = true) {} events)
    (hrun : run (Side.step clients servers) {} events = some s) :
    s.thrown = none ∧ s.history.violated = [] ∧ s.history.served = [] ∧
    (s.history.serves = 0 ∨ s.history.serves = 1 ∧ s.waitingForRequest = some 0) ∧
    (s.history.completed.map Prod.fst).Nodup ∧
    (∀ n ec, (n, .error ec) ∈ s.history.completed →
      ec = .invalidInput ∧ ∃ call, s.history.calls[n]? = some call ∧ call.accepted = false) ∧
    ∃ done waiting, done <+: replies ∧ Reply.stream done <+: s.history.received ∧
      (∀ reply ∈ done, reply.answers s.history.calls = true) ∧
      (s.history.completed.flatMap handedOver ++ waiting).Perm (done.map Reply.result) ∧
      (s.stack = [] → waiting = [] ∧
        done = replies.take (Cuts.ended Reply.size replies s.history.received.length)) := by
  have h : s.Sharing servers replies :=
    Along.run (fun _ _ _ h hevent hstep => h.step hdistinct hstep hevent.1 hevent.2)
      (sharing_initial servers replies) (hreplies.and hapart) hrun
  have hregular := h.owing.follows.regular
  obtain ⟨done, left, more, rfl, hposition, hanswers, hhanded⟩ := h.owing.follows.handed
  refine ⟨hregular.calm.thrown, hregular.calm.asserts,
    (serving_only hregular.custody hregular.ordered h.serving).1, h.serving,
    hregular.custody.completed_nodup hregular.ordered, hregular.books.refused, done,
    s.books.inHand, List.prefix_append _ _, hposition.before, hanswers, hhanded,
    fun hstack => ⟨?_, ?_⟩⟩
  · rw [books, hstack]
    rfl
  · rw [(h.owing.within (by rw [Rests, hstack]; simp)).1, hposition.index, List.take_left' rfl]

omit [Platform] in
/-- Two responses that arrive in two reads, while `serve_one_request` waits. -/
theorem replies_shared_apart :
    letI := Platform.reference
    let replies : List Reply := [⟨0, [5], .integer 5⟩, ⟨1, [11], .integer 11⟩]
    let events : List Event := [.serve, .resume, .call [0x66] [.integer 7],
      .call [0x66] [.integer 9], .read 0 [1, 0, 0, 0, 0, 0, 0, 0, 0, 5], .resume, .resume, .resume,
      .resume, .resume, .resume, .return, .resume, .read 0 [1, 0, 0, 0, 0, 0, 0, 0, 1, 11], .resume,
      .resume, .resume, .resume, .resume, .resume, .return, .resume]
    ∃ s, run (Side.step exampleInterface exampleInterface) {} events = some s ∧
      s.stack = [] ∧ s.history.served = [] ∧
      (s.history.completed.flatMap handedOver).Perm (replies.map Reply.result) := by
  letI := Platform.reference
  intro replies events
  have hidle : (run (Side.step exampleInterface exampleInterface) {} events).any (fun s =>
      s.stack.isEmpty && decide (s.history.received = Reply.stream replies)) = true := by
    decide +kernel
  obtain ⟨s, hrun, hs⟩ := (Option.any_eq_true _ _).mp hidle
  rw [Bool.and_eq_true, List.isEmpty_iff, decide_eq_true_eq] at hs
  obtain ⟨-, -, hserved, -, -, -, done, waiting, -, -, -, hhanded, hend⟩ :=
    replies_shared exampleInterface exampleInterface replies events s (by decide)
      (by decide +kernel) (by decide +kernel) hrun
  obtain ⟨rfl, hdone⟩ := hend hs.1
  have hall : replies.take (Cuts.ended Reply.size replies (Reply.stream replies).length) =
      replies := List.take_of_length_le (by decide +kernel)
  rw [hdone, hs.2, hall, List.append_nil] at hhanded
  exact ⟨s, hrun, hs.1, hserved, hhanded⟩

omit [Platform] in
/-- The same responses in one read: the server is told of an error, and the second call waits
on. -/
theorem replies_shared_together :
    letI := Platform.reference
    let replies : List Reply := [⟨0, [5], .integer 5⟩, ⟨1, [11], .integer 11⟩]
    let events : List Event := [.serve, .resume, .call [0x66] [.integer 7],
      .call [0x66] [.integer 9], .read 0 [1, 0, 0, 0, 0, 0, 0, 0, 0, 5,
        1, 0, 0, 0, 0, 0, 0, 0, 1, 11], .resume, .resume, .resume, .resume, .resume, .return,
      .resume, .resume, .return, .resume]
    Along (Side.step exampleInterface exampleInterface)
      (fun s event => sharesReplies replies s event = true) {} events ∧
    (run (Side.step exampleInterface exampleInterface) {} events).any (fun s =>
      s.stack.isEmpty && decide (s.history.received = Reply.stream replies) &&
      decide (s.history.served = [(0, .invalidInput)]) && s.reads.isEmpty &&
      decide (s.history.completed.flatMap handedOver = [(0, .integer 5)])) = true := by
  letI := Platform.reference
  refine ⟨?_, by decide +kernel⟩
  decide +kernel

end Side

end Warpcoil
