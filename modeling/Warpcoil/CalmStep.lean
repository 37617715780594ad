import Warpcoil.Calm

/-! Calm is kept by every step that does not end it with an error. -/
namespace Warpcoil.Side
open Incremental Transition

@[simp] theorem push_active (s : Side) (frames : List Frame) :
    (s.push frames).active = frames.flatMap Frame.operation ++ s.active := by
  rw [active, active, push, List.flatMap_append, List.append_assoc]

@[simp] theorem beginParseValue_active (s : Side) (k : Continuation) :
    (s.beginParseValue k).active = k.operation :: s.active :=
  push_active s _

@[simp] theorem push_results (s : Side) (frames : List Frame) :
    (s.push frames).results = (frames.map Frame.results).sum + s.results := by
  rw [results, results, push, List.map_append, List.sum_append, Nat.add_assoc]

@[simp] theorem beginParseValue_results (s : Side) (k : Continuation) :
    (s.beginParseValue k).results = k.results + s.results :=
  push_results s _

/-! The phases that are entered. -/

theorem begun_phase {s : Side} (hactive : s.active = []) (hlocked : s.locked = false)
    (hwaiting : (s.waitingForResponse || s.waitingForRequest.isSome) = true)
    (hone : s.waitingForResponse = true → s.waitingForRequest.isSome = false) : s.begun.Phase := by
  have hbegun : s.begun.active = [Continuation.messageType.operation] :=
    (beginParseValue_active _ _).trans (congrArg _ hactive)
  refine .header hbegun rfl hwaiting rfl hlocked fun hresponse hrequest => ?_
  rw [show s.begun.waitingForRequest.isSome = false from hone hresponse] at hrequest
  cases hrequest

theorem release_phase {s : Side} (hactive : s.active = []) (hheader : s.parsingHeader = false)
    (hone : s.waitingForResponse = true → s.waitingForRequest.isSome = false) :
    s.release.Phase := by
  unfold release
  split_ifs with hwaiting
  · exact begun_phase (s := { s with locked := false }) hactive rfl hwaiting hone
  · simp only [Bool.or_eq_true, not_or, Bool.not_eq_true, Option.isSome_eq_false_iff,
      Option.isNone_iff_eq_none] at hwaiting
    exact .idle hactive hheader rfl hwaiting.1 hwaiting.2

/-- Somebody starts to wait who has not waited. -/
theorem summon_phase {s t : Side} (h : s.Phase) (hactive : t.active = s.active)
    (hheader : t.parsingHeader = s.parsingHeader) (hlocked : t.locked = s.locked)
    (hresponse : s.waitingForResponse = true → t.waitingForResponse = true)
    (hrequest : s.waitingForRequest.isSome = true → t.waitingForRequest.isSome = true)
    (hwaiting : (t.waitingForResponse || t.waitingForRequest.isSome) = true)
    (hone : s.active = [] → t.waitingForResponse = true → t.waitingForRequest.isSome = false)
    (hpayload : ∀ operation ∈ s.active, operation.onResult.isHeader = false →
      t.awaited operation.onResult = true) : t.summon.Phase := by
  unfold summon
  cases h with
  | idle active parsingHeader locked =>
    rw [hactive, active]
    exact begun_phase (hactive.trans active) (hlocked.trans locked) hwaiting (hone active)
  | @header operation active kind awaited parsingHeader locked begins =>
    rw [hactive, active]
    refine .header (hactive.trans active) kind ?_
      (hheader.trans parsingHeader) (hlocked.trans locked) fun _ _ => rfl
    cases hk : operation.onResult with
    | messageType => exact hwaiting
    | response => rw [hk] at awaited; exact hresponse awaited
    | request => rw [hk] at awaited; exact hrequest awaited
    | result | argument => rw [hk] at kind; cases kind
  | @payload operation active kind awaited parsingHeader locked =>
    rw [hactive, active]
    have hawaited := hpayload operation (by rw [active]; exact List.mem_cons_self) kind
    refine .payload (hactive.trans active) kind ?_
      (hheader.trans parsingHeader) (hlocked.trans locked) fun _ => rfl
    exact hawaited

theorem Phase.congr {s t : Side} (h : s.Phase) (hactive : t.active = s.active)
    (hresponse : t.waitingForResponse = s.waitingForResponse)
    (hrequest : t.waitingForRequest = s.waitingForRequest)
    (hheader : t.parsingHeader = s.parsingHeader) (hlocked : t.locked = s.locked)
    (hbegin : t.beginParseMessage = s.beginParseMessage) : t.Phase := by
  have hawaited (k : Continuation) : t.awaited k = s.awaited k := by
    cases k <;> simp only [awaited, hresponse, hrequest]
  cases h with
  | idle active parsingHeader locked response request =>
    exact .idle (hactive.trans active) (hheader.trans parsingHeader) (hlocked.trans locked)
      (hresponse.trans response) (hrequest.trans request)
  | header active kind awaited parsingHeader locked begins =>
    exact .header (hactive.trans active) kind ((hawaited _).trans awaited)
      (hheader.trans parsingHeader) (hlocked.trans locked)
      (by rw [hresponse, hrequest, hbegin]; exact begins)
  | payload active kind awaited parsingHeader locked begins =>
    exact .payload (hactive.trans active) kind ((hawaited _).trans awaited)
      (hheader.trans parsingHeader) (hlocked.trans locked)
      (by rw [hresponse, hrequest, hbegin]; exact begins)

theorem Phase.payload_awaited {s : Side} (h : s.Phase) {operation : ParseOperation}
    (hoperation : operation ∈ s.active) (hkind : operation.onResult.isHeader = false) :
    s.awaited operation.onResult = true := by
  cases h with
  | idle active => rw [active] at hoperation; cases hoperation
  | header active kind =>
    rw [active, List.mem_singleton] at hoperation
    rw [hoperation, kind] at hkind
    cases hkind
  | payload active kind awaited =>
    rw [active, List.mem_singleton] at hoperation
    rw [hoperation]
    exact awaited

theorem awaitHeader_phase {s : Side} (h : s.Phase) : s.awaitHeader.summon.Phase := by
  refine summon_phase h rfl rfl rfl (fun _ => rfl) id rfl (fun hactive _ => ?_) ?_
  · rw [show s.awaitHeader.waitingForRequest = none from (h.idle_of hactive).2.2.2]
    rfl
  · -- whoever reads a payload does not wait for a response
    intro operation hoperation hkind
    have hawaited := h.payload_awaited hoperation hkind
    cases hk : operation.onResult with
    | messageType | response | request => rw [hk] at hkind; cases hkind
    | result => rfl
    | argument => rw [hk] at hawaited; exact hawaited

/-- A request is awaited while no arguments are parsed. -/
theorem awaitRequest_phase {s : Side} (h : s.Phase) (handler : Nat)
    (hfree : ∀ operation ∈ s.active, ∀ id name m n,
      operation.onResult ≠ .argument id name m n) :
    (summon { s with waitingForRequest := some handler }).Phase := by
  refine summon_phase h rfl rfl rfl id (fun _ => rfl) (Bool.or_true _)
    (fun hactive hresponse => ?_) ?_
  · have hidle := (h.idle_of hactive).2.2.1
    rw [show s.waitingForResponse = true from hresponse] at hidle
    cases hidle
  · intro operation hoperation hkind
    cases hk : operation.onResult with
    | messageType | response | request => rw [hk] at hkind; cases hkind
    | result => rfl
    | argument id name m n => exact (hfree operation hoperation id name m n hk).elim

/-! Starting to parse a header changes nothing else. -/

@[simp] theorem begun_active (s : Side) :
    s.begun.active = Continuation.messageType.operation :: s.active :=
  beginParseValue_active _ _

@[simp] theorem begun_results (s : Side) : s.begun.results = s.results :=
  (beginParseValue_results _ _).trans (Nat.zero_add _)

theorem Registry.begun {s : Side} (h : s.Registry) : s.begun.Registry := by
  cases h with
  | notExpecting state response expected results =>
    exact .notExpecting state response expected ((begun_results s).trans results)
  | header state response expected results =>
    exact .header state response expected ((begun_results s).trans results)
  | result state response results =>
    exact .result state response ((begun_results s).trans results)

/-- What only some of the flags of the splitter distinguish. -/
theorem Registry.congr {s t : Side} (h : s.Registry) (hstate : t.state = s.state)
    (hresponse : t.waitingForResponse = s.waitingForResponse)
    (hexpected : t.expectedResponses = s.expectedResponses) (hresults : t.results = s.results) :
    t.Registry := by
  cases h with
  | notExpecting state response expected results =>
    exact .notExpecting (hstate.trans state) (hresponse.trans response)
      (hexpected.trans expected) (hresults.trans results)
  | header state response expected results =>
    exact .header (hstate.trans state) (hresponse.trans response)
      (hexpected ▸ expected) (hresults.trans results)
  | result state response results =>
    exact .result (hstate.trans state) (hresponse.trans response) (hresults.trans results)

theorem Registry.summon {s : Side} (h : s.Registry) : s.summon.Registry := by
  unfold Side.summon
  split_ifs
  · exact h.begun
  · exact h.congr rfl rfl rfl rfl

theorem Registry.release {s : Side} (h : s.Registry) : s.release.Registry := by
  have hlocked : Registry { s with locked := false } := h.congr rfl rfl rfl rfl
  unfold Side.release
  split_ifs
  · exact hlocked.begun
  · exact hlocked

variable [Platform]

/-- Everything but the phase. -/
structure Sober (s : Side) : Prop where
  thrown : s.thrown = none
  asserts : s.history.violated = []
  frames : ∀ frame ∈ s.stack, frame.isError = false
  sound : ∀ operation ∈ s.active, operation.Sound

theorem Sober.calm {s : Side} (h : s.Sober) (hphase : s.Phase) (hregistry : s.Registry) :
    s.Calm :=
  ⟨h.thrown, h.asserts, h.frames, h.sound, hphase, hregistry⟩

theorem Calm.sober {s : Side} (h : s.Calm) : s.Sober :=
  ⟨h.thrown, h.asserts, h.frames, h.sound⟩

theorem Sober.entered {s : Side} (h : s.Sober) (k : Continuation) (v : Value)
    (rest : List UInt8) : (s.entered k v rest).Sober :=
  ⟨h.thrown, h.asserts, h.frames, h.sound⟩

theorem Sober.takeResponse {s : Side} (h : s.Sober) (id : RequestId) :
    (s.takeResponse id).Sober :=
  ⟨h.thrown, h.asserts, h.frames, h.sound⟩

theorem Sober.awaitHeader {s : Side} (h : s.Sober) : s.awaitHeader.Sober :=
  ⟨h.thrown, h.asserts, h.frames, h.sound⟩

theorem Sober.takeRequest {s : Side} (h : s.Sober) : s.takeRequest.Sober :=
  ⟨h.thrown, h.asserts, h.frames, h.sound⟩

theorem Sober.push {s : Side} (h : s.Sober) {frames : List Frame}
    (hframes : ∀ frame ∈ frames, frame.isError = false)
    (hsound : ∀ operation ∈ frames.flatMap Frame.operation, operation.Sound) :
    (s.push frames).Sober where
  thrown := h.thrown
  asserts := h.asserts
  frames := fun frame hframe => by
    rcases List.mem_append.mp hframe with hnew | hold
    · exact hframes frame hnew
    · exact h.frames frame hold
  sound := fun operation hoperation => by
    rw [push_active] at hoperation
    rcases List.mem_append.mp hoperation with hnew | hold
    · exact hsound operation hnew
    · exact h.sound operation hold

theorem Sober.beginParseValue {s : Side} (h : s.Sober) (k : Continuation) :
    (s.beginParseValue k).Sober :=
  h.push (by simp [Frame.isError]) (by simp [Frame.operation, k.operation_sound])

theorem Sober.begun {s : Side} (h : s.Sober) : s.begun.Sober :=
  Sober.beginParseValue (s := { s with beginParseMessage := false, parsingHeader := true })
    ⟨h.thrown, h.asserts, h.frames, h.sound⟩ _

theorem Sober.summon {s : Side} (h : s.Sober) : s.summon.Sober := by
  unfold Side.summon
  split_ifs
  · exact h.begun
  · exact ⟨h.thrown, h.asserts, h.frames, h.sound⟩

theorem Sober.release {s : Side} (h : s.Sober) : s.release.Sober := by
  have hlocked : Sober { s with locked := false } :=
    ⟨h.thrown, h.asserts, h.frames, h.sound⟩
  unfold Side.release
  split_ifs
  · exact hlocked.begun
  · exact hlocked

theorem Sober.popped {s : Side} (h : s.Sober) {frame : Frame} {stack : List Frame}
    (hstack : s.stack = frame :: stack) : Sober { s with stack } where
  thrown := h.thrown
  asserts := h.asserts
  frames := fun f hf => h.frames f (by rw [hstack]; exact List.mem_cons_of_mem _ hf)
  sound := fun operation hoperation => by
    refine h.sound operation ?_
    rw [active, hstack, List.flatMap_cons, List.append_assoc]
    exact List.mem_append_right _ hoperation

omit [Platform] in
/-- The frame that is taken from the stack. -/
theorem results_popped {s : Side} {frame : Frame} {stack : List Frame}
    (hstack : s.stack = frame :: stack) :
    s.results = frame.results + results { s with stack } := by
  rw [results, hstack, List.map_cons, List.sum_cons, Nat.add_assoc]
  rfl

/-- The fields that the calm is about. -/
def incoming (s : Side) :=
  (s.waitingForResponse, s.waitingForRequest, s.parsingHeader, s.locked, s.beginParseMessage,
    s.state, s.expectedResponses, s.active, s.results)

/-- Steps that leave the incoming side alone keep the calm. -/
theorem Calm.same {s t : Side} (h : s.Calm) (hsober : t.Sober)
    (hincoming : t.incoming = s.incoming) : t.Calm := by
  simp only [incoming, Prod.mk.injEq] at hincoming
  obtain ⟨hresponse, hrequest, hheader, hlocked, hbegin, hstate, hexpected, hactive, hresults⟩ :=
    hincoming
  exact hsober.calm (h.phase.congr hactive hresponse hrequest hheader hlocked hbegin)
    (h.registry.congr hstate hresponse hexpected hresults)

omit [Platform] in
theorem popped_incoming {s : Side} {frame : Frame} {stack : List Frame}
    (hstack : s.stack = frame :: stack) (hoperation : frame.operation = [])
    (hresults : frame.results = 0) : incoming { s with stack } = s.incoming := by
  have hactive : active { s with stack } = s.active := by
    rw [active, active, hstack, List.flatMap_cons, hoperation]
    rfl
  have hsame : results { s with stack } = s.results := by
    rw [results_popped hstack, hresults, Nat.zero_add]
  simp only [incoming, hactive, hsame]

omit [Platform] in
theorem push_incoming (s : Side) {frame : Frame} (hoperation : frame.operation = [])
    (hresults : frame.results = 0) : (s.push [frame]).incoming = s.incoming := by
  have hactive : (s.push [frame]).active = s.active := by
    rw [push_active, List.flatMap_singleton, hoperation, List.nil_append]
  have hsame : (s.push [frame]).results = s.results := by
    rw [push_results, List.map_singleton, List.sum_singleton, hresults, Nat.zero_add]
  simp only [incoming, hactive, hsame]
  rfl

theorem Sober.pushQuiet {s : Side} (h : s.Sober) {frame : Frame} (herror : frame.isError = false)
    (hoperation : frame.operation = []) : (s.push [frame]).Sober :=
  h.push (by simp [herror]) (by simp [hoperation])

theorem Calm.alone {s : Side} (h : s.Calm) {operation : ParseOperation} {stack : List Frame}
    (hstack : s.stack = .start operation :: stack) : s.active = [operation] := by
  have hrest := (h.ready hstack).active
  have hactive : s.active = operation :: active { s with stack } := by
    rw [active, hstack]
    rfl
  rw [hactive, hrest]

omit [Platform] in
theorem active_more {s : Side} (h : s.active = []) (operation : ParseOperation) :
    active { s with buffer := [], reads := s.reads ++ [operation] } = [operation] := by
  obtain ⟨hstack, hreads⟩ := List.append_eq_nil_iff.mp h
  rw [active, hstack, hreads]
  rfl

theorem Calm.more {s : Side} (h : s.Calm) {operation : ParseOperation} {stack : List Frame}
    (hstack : s.stack = .start operation :: stack) {parser : Parser}
    (hread : reading { s with stack } operation = .more parser) :
    Calm { s with
      stack
      buffer := []
      reads := s.reads ++ [⟨parser, operation.onResult, operation.seen ++ s.buffer⟩] } := by
  have hready := h.ready hstack
  have hsober := h.sober.popped hstack
  have hactive := active_more hready.active
    ⟨parser, operation.onResult, operation.seen ++ s.buffer⟩
  have hsound := ParseOperation.sound_more hread
  have hresults := results_popped hstack
  refine Sober.calm ⟨hsober.thrown, hsober.asserts, hsober.frames, ?_⟩ ?_ ?_
  · intro other hother
    rw [hactive, List.mem_singleton] at hother
    rw [hother]
    exact hsound
  · cases hkind : operation.onResult.isHeader with
    | true =>
      obtain ⟨hheader, hlocked, hbegins⟩ := h.phase.of_header (h.alone hstack) hkind
      exact .header hactive hkind hready.awaited hheader hlocked hbegins
    | false =>
      obtain ⟨hheader, hlocked, hbegins⟩ := h.phase.of_payload (h.alone hstack) hkind
      exact .payload hactive hkind hready.awaited hheader hlocked hbegins
  · refine h.registry.congr rfl rfl rfl ?_
    rw [hresults]
    simp only [results, List.map_append, List.sum_append, List.map_cons, List.map_nil,
      List.sum_cons, List.sum_nil, Frame.results]
    omega

/-- Every frame that is resumed without an error keeps the calm. -/
theorem Calm.of_resumed {servers : InterfaceDefinition} {s s' : Side} (h : s.Calm)
    {frame : Frame} {stack : List Frame} (hstack : s.stack = frame :: stack)
    (hresumed : Resumed servers { s with stack } frame s') : s'.Calm := by
  have hsober := h.sober.popped hstack
  have hresults := results_popped hstack
  cases hresumed with
  | more reads => exact h.more hstack reads
  | @responseType operation rest kind reads waiting =>
    have hready := h.ready hstack
    have hheader := h.phase.of_header (h.alone hstack) (by rw [kind]; rfl)
    rw [Frame.results, kind, Continuation.results, Nat.zero_add] at hresults
    refine ((hsober.entered _ _ rest).beginParseValue _).calm ?_ ?_
    · refine .header (show _ = [Continuation.response.operation] from ?_) rfl waiting hheader.1
        hheader.2.1 hheader.2.2
      exact (beginParseValue_active _ _).trans (congrArg _ hready.active)
    · refine h.registry.congr rfl rfl rfl ?_
      exact (beginParseValue_results _ _).trans ((Nat.zero_add _).trans hresults.symm)
  | @requestType operation rest kind reads waiting =>
    have hready := h.ready hstack
    have hheader := h.phase.of_header (h.alone hstack) (by rw [kind]; rfl)
    rw [Frame.results, kind, Continuation.results, Nat.zero_add] at hresults
    refine ((hsober.entered _ _ rest).beginParseValue _).calm ?_ ?_
    · refine .header (show _ = [Continuation.request.operation] from ?_) rfl waiting hheader.1
        hheader.2.1 hheader.2.2
      exact (beginParseValue_active _ _).trans (congrArg _ hready.active)
    · refine h.registry.congr rfl rfl rfl ?_
      exact (beginParseValue_results _ _).trans ((Nat.zero_add _).trans hresults.symm)
  | @responseHeader operation rest id key expected kind reads find =>
    have hready := h.ready hstack
    obtain ⟨-, -, hbegins⟩ := h.phase.of_header (h.alone hstack) (by rw [kind]; rfl)
    have hwaiting : s.waitingForResponse = true := by
      have hawaited := hready.awaited
      rwa [kind] at hawaited
    rw [Frame.results, kind, Continuation.results, Nat.zero_add] at hresults
    have hnone : s.results = 0 := by
      cases h.registry with
      | header _ _ _ results => exact results
      | notExpecting _ response | result _ response =>
        rw [hwaiting] at response
        cases response
    refine ((((hsober.entered _ _ rest).takeResponse _).push (by simp [Frame.isError])
      (by simp [Frame.operation])).beginParseValue _).calm ?_ ?_
    · refine .payload (show _ = [(Continuation.result expected).operation] from ?_) rfl rfl rfl
        rfl fun hrequest => hbegins hwaiting hrequest
      rw [beginParseValue_active, push_active]
      exact congrArg _ hready.active
    · refine .result rfl rfl ?_
      rw [beginParseValue_results, push_results]
      exact congrArg (1 + ·) ((Nat.zero_add _).trans (hresults.symm.trans hnone))
  | @requestHeader operation rest id name m handler kind reads waiting find =>
    have hready := h.ready hstack
    obtain ⟨-, -, hbegins⟩ := h.phase.of_header (h.alone hstack) (by rw [kind]; rfl)
    have hsome : s.waitingForRequest.isSome = true := by
      change s.waitingForRequest = some handler at waiting
      rw [waiting]
      rfl
    rw [Frame.results, kind, Continuation.results, Nat.zero_add] at hresults
    refine ((((hsober.entered _ _ rest).takeRequest).push (by simp [Frame.isError])
      (by simp [Frame.operation])).beginParseValue _).calm ?_ ?_
    · refine .payload (show _ = [(Continuation.argument (UInt64.ofNat id) name m
        handler).operation] from ?_) rfl rfl rfl rfl fun hresponse => hbegins ?_ hsome
      · rw [beginParseValue_active, push_active]
        exact congrArg _ hready.active
      · exact (Bool.or_false _).symm.trans hresponse
    · refine h.registry.congr rfl rfl rfl ?_
      rw [beginParseValue_results, push_results]
      exact (Nat.zero_add _).trans ((Nat.zero_add _).trans hresults.symm)
  | @result operation expected v rest kind reads =>
    have hready := h.ready hstack
    obtain ⟨hheader, hlocked, -⟩ := hready.payload (by rw [kind]; rfl)
    rw [Frame.results, kind, Continuation.results] at hresults
    have hresponse : s.waitingForResponse = false := by
      cases h.registry with
      | result _ response => exact response
      | notExpecting _ _ _ results | header _ _ _ results => omega
    refine Sober.calm (((hsober.entered _ v rest).push
      (by simp [Frame.isError]) (by simp [Frame.operation])).release) ?_ ?_
    · refine release_phase ((push_active _ _).trans hready.active) hheader fun hwaiting => ?_
      rw [show s.waitingForResponse = true from hwaiting] at hresponse
      cases hresponse
    · refine Registry.release (h.registry.congr rfl rfl rfl ?_)
      exact (push_results _ _).trans hresults.symm
  | @argument operation id name m handler v rest kind reads =>
    have hready := h.ready hstack
    obtain ⟨hheader, hlocked, -⟩ := hready.payload (by rw [kind]; rfl)
    have hrequest : s.waitingForRequest.isNone = true := by
      have hawaited := hready.awaited
      rwa [kind] at hawaited
    rw [Frame.results, kind, Continuation.results, Nat.zero_add] at hresults
    refine Sober.calm (((hsober.entered _ v rest).push
      (by simp [Frame.isError]) (by simp [Frame.operation])).release) ?_ ?_
    · refine release_phase ((push_active _ _).trans hready.active) hheader fun _ => ?_
      exact Option.isSome_eq_false_iff.mpr hrequest
    · refine Registry.release (h.registry.congr rfl rfl rfl ?_)
      exact (push_results _ _).trans ((Nat.zero_add _).trans hresults.symm)
  | requestContinue | responseContinue => exact h.same hsober (popped_incoming hstack rfl rfl)
  | @lastResult handler v expected =>
    have hphase := (h.popped hstack rfl).2
    rw [Frame.results] at hresults
    have hpushed : Sober (push { s with stack } [.resultReady handler v]) :=
      hsober.push (by simp [Frame.isError]) (by simp [Frame.operation])
    have hregistry : s.waitingForResponse = false ∧ s.results = 1 := by
      cases h.registry with
      | result _ response results => exact ⟨response, results⟩
      | notExpecting _ _ _ results | header _ _ _ results => omega
    refine Sober.calm ⟨hpushed.thrown, hpushed.asserts, hpushed.frames,
      hpushed.sound⟩ (hphase.congr (push_active _ _) rfl rfl rfl rfl rfl) ?_
    refine .notExpecting rfl hregistry.1 expected ?_
    have hnext := push_results { s with stack } [.resultReady handler v]
    rw [List.map_singleton, List.sum_singleton, Frame.results, Nat.zero_add] at hnext
    refine hnext.trans ?_
    omega
  | @nextHeader handler v expected =>
    have hphase := (h.popped hstack rfl).2
    rw [Frame.results] at hresults
    have hpushed : Sober (push { s with stack } [.resultReady handler v]) :=
      hsober.push (by simp [Frame.isError]) (by simp [Frame.operation])
    have hregistry : s.waitingForResponse = false ∧ s.results = 1 := by
      cases h.registry with
      | result _ response results => exact ⟨response, results⟩
      | notExpecting _ _ _ results | header _ _ _ results => omega
    refine hpushed.awaitHeader.summon.calm ?_ ?_
    · exact awaitHeader_phase (hphase.congr (push_active _ _) rfl rfl rfl rfl rfl)
    · refine Registry.summon (.header rfl rfl expected ?_)
      have hnext := push_results { s with stack } [.resultReady handler v]
      rw [List.map_singleton, List.sum_singleton, Frame.results, Nat.zero_add] at hnext
      refine hnext.trans ?_
      omega
  | resultReady | implementation | writer =>
    apply h.same
    · apply Sober.pushQuiet
      · exact ⟨hsober.thrown, hsober.asserts, hsober.frames, hsober.sound⟩
      · rfl
      · rfl
    · exact (push_incoming _ rfl rfl).trans (popped_incoming hstack rfl rfl)
  | writerDone => exact h.same hsober (popped_incoming hstack rfl rfl)
  | @responseSent output handler handlers stack' proceeds top =>
    have hwriter : Sober (push { s with stack, output } [.writer]) := by
      apply Sober.pushQuiet
      · exact ⟨hsober.thrown, hsober.asserts, hsober.frames, hsober.sound⟩
      · rfl
      · rfl
    apply h.same
    · apply Sober.pushQuiet
      · exact ⟨hwriter.thrown, hwriter.asserts, hwriter.frames, hwriter.sound⟩
      · rfl
      · rfl
    · refine (push_incoming _ rfl rfl).trans ?_
      exact (push_incoming { s with stack, output } rfl rfl).trans
        (popped_incoming hstack rfl rfl)

/-! The calls of the user and the completions of the event loop. -/

omit [Platform] in
theorem insertExpected_ne_nil (id : RequestId) (expected : ExpectedResponse)
    (expectedResponses : List (RequestId × ExpectedResponse)) :
    insertExpected id expected expectedResponses ≠ [] := by
  cases expectedResponses with
  | nil => simp [insertExpected]
  | cons first rest =>
    rw [insertExpected]
    split_ifs <;> simp

/-- An accepted call before the registry waits for its response. -/
def placed (s : Side) (name : Identifier) (m : Method) (arguments : List Value) : Side :=
  let message := requestMessage s.nextRequestId name m arguments
  { s with
    nextRequestId := s.nextRequestId + 1
    output := (s.output.append message.output).sendBuffer .request
    expectedResponses := insertExpected s.nextRequestId
      ⟨m.resultParser, s.history.calls.length⟩ s.expectedResponses
    history := { s.history with
      calls := s.history.calls ++ [⟨s.nextRequestId, name, m, arguments, message.ok⟩]
      messages := s.history.messages ++ [message] } }

/-- A call that the encoder refused. -/
def refused (s : Side) (name : Identifier) (m : Method) (arguments : List Value) : Side :=
  let message := requestMessage s.nextRequestId name m arguments
  callResultHandler { s with
    nextRequestId := s.nextRequestId + 1
    output := s.output.append message.output
    history := { s.history with
      calls := s.history.calls ++ [⟨s.nextRequestId, name, m, arguments, message.ok⟩]
      messages := s.history.messages ++ [message] } }
    s.history.calls.length (.error .invalidInput)

theorem request_refused {s : Side} {name : Identifier} {m : Method} {arguments : List Value}
    (h : (requestMessage s.nextRequestId name m arguments).ok = false) :
    s.request name m arguments = s.refused name m arguments := by
  have hneg : ¬ (requestMessage s.nextRequestId name m arguments).ok = true := by
    rw [h]
    exact Bool.false_ne_true
  exact if_neg hneg

theorem Sober.placed {s : Side} (h : s.Sober) (name : Identifier) (m : Method)
    (arguments : List Value) : (s.placed name m arguments).Sober :=
  ⟨h.thrown, h.asserts, h.frames, h.sound⟩

theorem Phase.placed {s : Side} (h : s.Phase) (name : Identifier) (m : Method)
    (arguments : List Value) : (s.placed name m arguments).Phase :=
  h.congr rfl rfl rfl rfl rfl rfl

theorem expectResponse_placed {s : Side} {name : Identifier} {m : Method}
    {arguments : List Value} (hok : (requestMessage s.nextRequestId name m arguments).ok = true) :
    s.request name m arguments =
      match s.state with
      | .notExpectingResponse => (s.placed name m arguments).parseHeader
      | .parsingHeader | .parsingResult => s.placed name m arguments :=
  if_pos hok

theorem request_eq {s : Side} (h : s.Calm) {name : Identifier} {m : Method}
    {arguments : List Value} (hok : (requestMessage s.nextRequestId name m arguments).ok = true) :
    s.request name m arguments =
      if s.state = .notExpectingResponse then (s.placed name m arguments).awaitHeader.summon
      else s.placed name m arguments := by
  rw [expectResponse_placed hok]
  cases h.registry with
  | notExpecting state response =>
    have hphase : Phase { s.placed name m arguments with state := .parsingHeader } :=
      h.phase.congr rfl rfl rfl rfl rfl rfl
    rw [state, if_pos rfl]
    exact waitForResponse_eq hphase response
  | header state | result state =>
    rw [state, if_neg (by decide)]

/-- Calls keep the calm. -/
theorem Calm.request {s : Side} (h : s.Calm) (name : Identifier) (m : Method)
    (arguments : List Value) : (s.request name m arguments).Calm := by
  cases hok : (requestMessage s.nextRequestId name m arguments).ok with
  | false =>
    rw [request_refused hok]
    apply h.same
    · apply Sober.pushQuiet
      · exact ⟨h.thrown, h.asserts, h.frames, h.sound⟩
      · rfl
      · rfl
    · exact push_incoming _ rfl rfl
  | true =>
    have hne := insertExpected_ne_nil s.nextRequestId ⟨m.resultParser, s.history.calls.length⟩
      s.expectedResponses
    have hsober := h.sober.placed name m arguments
    have hphase := h.phase.placed name m arguments
    rw [request_eq h hok]
    cases h.registry with
    | notExpecting state response expected results =>
      rw [if_pos state]
      exact hsober.awaitHeader.summon.calm (awaitHeader_phase hphase)
        (Registry.summon (.header rfl rfl hne results))
    | header state response expected results =>
      rw [if_neg (by rw [state]; decide)]
      exact hsober.calm hphase (.header state response hne results)
    | result state response results =>
      rw [if_neg (by rw [state]; decide)]
      exact hsober.calm hphase (.result state response results)

omit [Platform] in
/-- The server waits for the next header. -/
def awaitRequest (s : Side) : Side :=
  { s with
    waitingForRequest := some s.history.serves
    history := { s.history with serves := s.history.serves + 1 } }

omit [Platform] in
theorem serve_eq {s : Side} (h : s.Phase) (hfree : s.waitingForRequest = none) :
    s.serveOneRequest = s.awaitRequest.summon :=
  waitForRequest_eq (s := s.note fun h => { h with serves := h.serves + 1 })
    (h.congr rfl rfl rfl rfl rfl rfl) hfree _

/-- A server that waits for a request while no arguments are parsed keeps the calm. -/
theorem Calm.awaitRequest {s : Side} (h : s.Calm)
    (harguments : ∀ operation ∈ s.active, ∀ id name m n,
      operation.onResult ≠ .argument id name m n) : s.awaitRequest.summon.Calm := by
  have hphase := awaitRequest_phase (h.phase.congr (t := s.note fun h =>
    { h with serves := h.serves + 1 }) rfl rfl rfl rfl rfl rfl) s.history.serves harguments
  apply Sober.calm
  · apply Sober.summon
    exact ⟨h.thrown, h.asserts, h.frames, h.sound⟩
  · exact hphase
  · exact Registry.summon (h.registry.congr rfl rfl rfl rfl)

/-- What an accepted result leaves. -/
def answered (s : Side) (index : Nat) (invocation : Invocation) (v : Value) : Side :=
  let message := responseMessage invocation.id invocation.method v
  { s with
    unanswered := s.unanswered.erase index
    output := (s.output.append message.output).sendBuffer (.response invocation.handler)
    history := { s.history with
      responses := s.history.responses ++ [(index, message)]
      answers := s.history.answers ++ [(index, v)]
      messages := s.history.messages ++ [message] } }

theorem answer_eq {s : Side} {index : Nat} {invocation : Invocation} {v : Value}
    (hok : (responseMessage invocation.id invocation.method v).ok = true) :
    s.answer index invocation (.ok v) = s.answered index invocation v :=
  if_pos hok

theorem Calm.answered {s : Side} (h : s.Calm) (index : Nat) (invocation : Invocation)
    (v : Value) : (s.answered index invocation v).Calm :=
  h.same ⟨h.thrown, h.asserts, h.frames, h.sound⟩ rfl

/-- The only outstanding read. -/
theorem Calm.reads_eq {s : Side} (h : s.Calm) (hstack : s.stack = []) {index : Nat}
    {operation : ParseOperation} (hread : s.reads[index]? = some operation) :
    index = 0 ∧ s.reads = [operation] := by
  have hactive : s.active = s.reads := by rw [active, hstack]; rfl
  have hlt := (List.getElem?_eq_some_iff.mp hread).1
  cases h.phase with
  | idle active =>
    rw [hactive] at active
    rw [active] at hlt
    cases hlt
  | @header other active | @payload other active =>
    rw [hactive] at active
    rw [active] at hlt hread
    obtain rfl : index = 0 := Nat.lt_one_iff.mp hlt
    cases hread
    exact ⟨rfl, active⟩

/-- A completed read at the event loop. -/
def delivered (s : Side) (operation : ParseOperation) (bytes : List UInt8) : Side :=
  { s with
    reads := []
    buffer := s.buffer ++ bytes
    stack := [.start operation]
    history := { s.history with received := s.history.received ++ bytes } }

omit [Platform] in
theorem delivered_eq {s : Side} (hstack : s.stack = []) {operation : ParseOperation}
    (hreads : s.reads = [operation]) (bytes : List UInt8) :
    Side.push (Side.note { s with reads := s.reads.eraseIdx 0, buffer := s.buffer ++ bytes }
      fun h => { h with received := h.received ++ bytes }) [.start operation] =
      s.delivered operation bytes := by
  unfold push note
  dsimp only
  rw [hstack, hreads]
  rfl

theorem Calm.delivered {s : Side} (h : s.Calm) (hstack : s.stack = [])
    {operation : ParseOperation} (hreads : s.reads = [operation]) (bytes : List UInt8) :
    (s.delivered operation bytes).Calm := by
  have hactive : (s.delivered operation bytes).active = s.active := by
    rw [active, active, hstack, hreads]
    rfl
  have hresults : (s.delivered operation bytes).results = s.results := by
    rw [results, results, hstack, hreads]
    exact Nat.add_comm _ _
  apply h.same
  · refine ⟨h.thrown, h.asserts, ?_, fun other hother => ?_⟩
    · intro frame hframe
      rw [List.mem_singleton.mp hframe]
      rfl
    · rw [hactive] at hother
      exact h.sound other hother
  · simp only [incoming, hactive, hresults]
    rfl

/-- What ends the calm. -/
inductive Upset (servers : InterfaceDefinition) (s : Side) : Event → Prop
  | resume {frame : Frame} {stack : List Frame} (stack_eq : s.stack = frame :: stack)
      (disturbed : Disturbed servers { s with stack } frame) : Upset servers s .resume
  | readError {index : Nat} {ec : ErrorCode} : Upset servers s (.readError index ec)
  | answerError {index : Nat} {ec : ErrorCode} : Upset servers s (.answer index (.error ec))
  | answerRefused {index : Nat} {invocation : Invocation} {v : Value}
      (invoked : s.invoked[index]? = some invocation)
      (refused : (responseMessage invocation.id invocation.method v).ok = false) :
      Upset servers s (.answer index (.ok v))

/-- The steps that do not. -/
inductive Moved (clients servers : InterfaceDefinition) (s : Side) : Event → Side → Prop
  | refused {name : Identifier} {m : Method} {arguments : List Value} (runs : s.userRuns = true)
      (find : clients.find name = some m) (short : name.length ≤ 255)
      (fits : Value.fitsAll m.parameters arguments = true)
      (refused : (requestMessage s.nextRequestId name m arguments).ok = false) :
      Moved clients servers s (.call name arguments) (s.refused name m arguments)
  | placed {name : Identifier} {m : Method} {arguments : List Value} (runs : s.userRuns = true)
      (find : clients.find name = some m) (short : name.length ≤ 255)
      (fits : Value.fitsAll m.parameters arguments = true)
      (accepted : (requestMessage s.nextRequestId name m arguments).ok = true)
      (state : s.state ≠ .notExpectingResponse) :
      Moved clients servers s (.call name arguments) (s.placed name m arguments)
  | awaited {name : Identifier} {m : Method} {arguments : List Value} (runs : s.userRuns = true)
      (find : clients.find name = some m) (short : name.length ≤ 255)
      (fits : Value.fitsAll m.parameters arguments = true)
      (accepted : (requestMessage s.nextRequestId name m arguments).ok = true)
      (state : s.state = .notExpectingResponse) :
      Moved clients servers s (.call name arguments)
        (s.placed name m arguments).awaitHeader.summon
  | serve (runs : s.userRuns = true) : Moved clients servers s .serve s.awaitRequest.summon
  | answered {index : Nat} {invocation : Invocation} {v : Value} (runs : s.userRuns = true)
      (invoked : s.invoked[index]? = some invocation) (unanswered : index ∈ s.unanswered)
      (fits : v.fits invocation.method.result = true)
      (accepted : (responseMessage invocation.id invocation.method v).ok = true) :
      Moved clients servers s (.answer index (.ok v)) (s.answered index invocation v)
  | return {stack : List Frame} (stack_eq : s.stack = .user :: stack) :
      Moved clients servers s .return { s with stack }
  | resume {frame : Frame} {stack : List Frame} {s' : Side} (stack_eq : s.stack = frame :: stack)
      (resumed : Resumed servers { s with stack } frame s') : Moved clients servers s .resume s'
  | read {operation : ParseOperation} {bytes : List UInt8} (stack_eq : s.stack = [])
      (reads_eq : s.reads = [operation]) (length_le : bytes.length ≤ 512) :
      Moved clients servers s (.read 0 bytes) (s.delivered operation bytes)
  | written {index transferred : Nat} {ec : ErrorCode} {output : BufferedWriter Sent}
      (stack_eq : s.stack = [])
      (written : s.output.step (.written index transferred ec) = some output) :
      Moved clients servers s (.written index transferred ec)
        (Side.push { s with output } [.writer])

/-- The conditions under which a new waiter may come. -/
def Free (s : Side) : Prop :=
  s.waitingForRequest = none ∧
    ∀ operation ∈ s.active, ∀ id name m n, operation.onResult ≠ .argument id name m n

/-- A step of a calm side is one of those, or ends the calm with an error. -/
theorem Calm.moved {clients servers : InterfaceDefinition} {s s' : Side} {event : Event}
    (h : s.Calm) (hstep : step clients servers s event = some s')
    (hserve : event = .serve → s.Free) :
    Moved clients servers s event s' ∨ Upset servers s event := by
  obtain ⟨-, htaken⟩ := taken_of_step hstep
  cases htaken with
  | @call name m arguments runs find short fits =>
    refine .inl ?_
    cases hok : (requestMessage s.nextRequestId name m arguments).ok with
    | false =>
      rw [request_refused hok]
      exact .refused runs find short fits hok
    | true =>
      rw [request_eq h hok]
      split_ifs with hstate
      · exact .awaited runs find short fits hok hstate
      · exact .placed runs find short fits hok hstate
  | serve runs =>
    rw [serve_eq h.phase (hserve rfl).1]
    exact .inl (.serve runs)
  | @answer index invocation result runs invoked unanswered admitted =>
    cases result with
    | error ec => exact .inr .answerError
    | ok v =>
      cases hok : (responseMessage invocation.id invocation.method v).ok with
      | true =>
        rw [answer_eq hok]
        exact .inl (.answered runs invoked unanswered admitted hok)
      | false => exact .inr (.answerRefused invoked hok)
  | «return» hstack => exact .inl (.return hstack)
  | resume hstack hne =>
    rcases h.resumed servers hstack hne with hresumed | hdisturbed
    · exact .inl (.resume hstack hresumed)
    · exact .inr (.resume hstack hdisturbed)
  | @read index bytes operation hstack hread hlength =>
    obtain ⟨rfl, hreads⟩ := h.reads_eq hstack hread
    rw [delivered_eq hstack hreads]
    exact .inl (.read hstack hreads hlength)
  | readError => exact .inr .readError
  | written hstack hwritten => exact .inl (.written hstack hwritten)

/-- They keep the calm. -/
theorem Calm.of_moved {clients servers : InterfaceDefinition} {s s' : Side} {event : Event}
    (h : s.Calm) (hmoved : Moved clients servers s event s') (hserve : event = .serve → s.Free) :
    s'.Calm := by
  cases hmoved with
  | @refused name m arguments runs find short fits refused =>
    have hcalm := h.request name m arguments
    rwa [request_refused refused] at hcalm
  | @placed name m arguments runs find short fits accepted state =>
    have hcalm := h.request name m arguments
    rwa [request_eq h accepted, if_neg state] at hcalm
  | @awaited name m arguments runs find short fits accepted state =>
    have hcalm := h.request name m arguments
    rwa [request_eq h accepted, if_pos state] at hcalm
  | serve => exact h.awaitRequest (hserve rfl).2
  | answered => exact h.answered _ _ _
  | «return» hstack => exact h.same (h.sober.popped hstack) (popped_incoming hstack rfl rfl)
  | resume hstack hresumed => exact h.of_resumed hstack hresumed
  | read hstack hreads => exact h.delivered hstack hreads _
  | written =>
    apply h.same
    · apply Sober.pushQuiet
      · exact ⟨h.thrown, h.asserts, h.frames, h.sound⟩
      · rfl
      · rfl
    · exact push_incoming _ rfl rfl

end Warpcoil.Side
