import Warpcoil.Trace

/-! A server that calls `serve_one_request` when the one before has completed handles its
requests one after another. `Desk` is what the server and the implementation know of them. -/
namespace Warpcoil
open Transition

/-- The arguments that were parsed for a request. -/
def Parsed.invocation : Parsed → List Invocation
  | ⟨.argument id name m handler, v⟩ => [⟨id, name, m, v, handler⟩]
  | ⟨.messageType, _⟩ | ⟨.response, _⟩ | ⟨.request, _⟩ | ⟨.result _, _⟩ => []

/-- A call that the server is about to make. -/
def Frame.invocation : Frame → List Invocation
  | .argumentUnlocked id name m handler (.ok v) => [⟨id, name, m, v, handler⟩]
  | .argumentUnlocked _ _ _ _ (.error _) | .start _ | .requestContinue _ | .responseContinue _
  | .errorContinue _ _ | .errors _ _ | .resultUnlocked _ _ | .resultReady _ _ | .writer
  | .user => []

structure Desk where
  parsed : List Parsed
  unlocked : List Invocation
  invoked : List Invocation
  unanswered : List Nat
  responses : List (Nat × Emission UInt8)
  answers : List (Nat × Value)

namespace Desk
variable [Platform]

inductive Step (d : Desk) : Desk → Prop
  | same : Step d d
  | parsed {p : Parsed} (invocation : p.invocation = []) :
      Step d { d with parsed := d.parsed ++ [p] }
  | argument {p : Parsed} {invocation : Invocation} (invocation_eq : p.invocation = [invocation])
      (unlocked : d.unlocked = []) :
      Step d { d with parsed := d.parsed ++ [p], unlocked := invocation :: d.unlocked }
  | invoked {invocation : Invocation} {rest : List Invocation}
      (unlocked : d.unlocked = invocation :: rest) (alone : rest = [])
      (unanswered : d.unanswered = []) :
      Step d { d with
        unlocked := rest
        invoked := d.invoked ++ [invocation]
        unanswered := d.unanswered ++ [d.invoked.length] }
  | answered {index : Nat} {invocation : Invocation} {v : Value}
      (invoked : d.invoked[index]? = some invocation) (unanswered : d.unanswered = [index])
      (accepted : (responseMessage invocation.id invocation.method v).ok = true) :
      Step d { d with
        unanswered := d.unanswered.erase index
        responses := d.responses ++
          [(index, responseMessage invocation.id invocation.method v)]
        answers := d.answers ++ [(index, v)] }

/-- A response is the message for the result that the implementation gave. -/
def Answers (invoked : List Invocation) (response : Nat × Emission UInt8)
    (answer : Nat × Value) : Prop :=
  response.1 = answer.1 ∧ ∃ invocation, invoked[answer.1]? = some invocation ∧
    response.2 = responseMessage invocation.id invocation.method answer.2 ∧ response.2.ok = true

theorem Answers.append {invoked : List Invocation} {response : Nat × Emission UInt8}
    {answer : Nat × Value} (h : Answers invoked response answer) (more : List Invocation) :
    Answers (invoked ++ more) response answer := by
  obtain ⟨hindex, invocation, hinvoked, hrest⟩ := h
  have hlt := (List.getElem?_eq_some_iff.mp hinvoked).1
  exact ⟨hindex, invocation, by rw [List.getElem?_append_left hlt, hinvoked], hrest⟩

/-- What was parsed was dispatched. -/
def Dispatched (d : Desk) : Prop := d.parsed.flatMap Parsed.invocation = d.invoked ++ d.unlocked

theorem Dispatched.step {d d' : Desk} (h : d.Dispatched) (hstep : d.Step d') : d'.Dispatched := by
  unfold Dispatched at h ⊢
  cases hstep with
  | same | answered => exact h
  | parsed invocation => simpa [invocation] using h
  | argument invocation_eq unlocked =>
    rw [unlocked, List.append_nil] at h
    simp only [List.flatMap_append, List.flatMap_singleton, h, invocation_eq, unlocked]
  | invoked unlocked => rw [h, unlocked, List.append_assoc, List.singleton_append]

/-- What was dispatched is answered in order. -/
structure Tidy (d : Desk) : Prop where
  answered : d.responses.map Prod.fst ++ d.unanswered = List.range d.invoked.length
  responses : List.Forall₂ (Answers d.invoked) d.responses d.answers

theorem Tidy.step {d d' : Desk} (h : d.Tidy) (hstep : d.Step d') : d'.Tidy := by
  cases hstep with
  | same => exact h
  | parsed | argument => exact ⟨h.answered, h.responses⟩
  | invoked unlocked alone unanswered =>
    refine ⟨?_, h.responses.imp fun _ _ hanswers => hanswers.append _⟩
    have hanswered := h.answered
    rw [unanswered, List.append_nil] at hanswered
    simp only [unanswered, List.nil_append, hanswered, List.length_append, List.length_singleton,
      List.range_succ]
  | @answered index invocation v invoked unanswered accepted =>
    refine ⟨?_, ?_⟩
    · have hanswered := h.answered
      rw [unanswered] at hanswered
      simp only [unanswered, List.map_append, List.map_singleton, List.erase_cons_head,
        List.append_nil, hanswered]
    · exact List.rel_append h.responses
        (.cons ⟨rfl, invocation, invoked, rfl, accepted⟩ .nil)

/-- The `k`-th response belongs to the `k`-th call of the implementation. -/
theorem Tidy.response {d : Desk} (h : d.Tidy) {k index : Nat} {message : Emission UInt8}
    (hk : d.responses[k]? = some (index, message)) : index = k := by
  have hlt := (List.getElem?_eq_some_iff.mp hk).1
  have hrange : (d.responses.map Prod.fst ++ d.unanswered)[k]? =
      (List.range d.invoked.length)[k]? :=
    by rw [h.answered]
  rw [List.getElem?_append_left (by rwa [List.length_map]), List.getElem?_map, hk, Option.map_some]
    at hrange
  have hindex := List.getElem?_eq_some_iff.mp hrange.symm
  obtain ⟨hlt', hget⟩ := hindex
  rw [List.getElem_range] at hget
  exact hget.symm

end Desk

def Token.isServe : Token → Bool
  | .serve _ => true
  | .call _ => false

namespace Side

def desk (s : Side) : Desk where
  parsed := s.history.parsed
  unlocked := s.stack.flatMap Frame.invocation
  invoked := s.invoked
  unanswered := s.unanswered
  responses := s.history.responses
  answers := s.history.answers

/-- Every handler of a `serve_one_request` but the last one has been called. -/
def Serial (s : Side) : Prop :=
  ∀ n, n + 1 < s.history.serves → n ∈ s.history.served.map Prod.fst

/-- At most one request is in work. -/
theorem Custody.single {s : Side} (hs : s.Custody) (h : s.output.Ordered) (hserial : s.Serial) :
    s.held.countP Token.isServe ≤ 1 := by
  have hlast (t : Token) (ht : t ∈ s.held) (hserve : t.isServe = true) :
      t = .serve (s.history.serves - 1) := by
    cases t with
    | call n => cases hserve
    | serve n =>
      have hle := hs.le h (.serve n)
      have hcount := List.count_pos_iff.mpr ht
      rw [count_map_of_injective _ Prod.fst (fun _ _ => Token.serve.inj)] at hle
      simp only [created] at hle
      split_ifs at hle with hlt
      · have hnot : ¬ n + 1 < s.history.serves := by
          intro hearlier
          have := List.count_pos_iff.mpr (hserial n hearlier)
          omega
        congr 1
        omega
      · omega
  have hle := hs.le h (.serve (s.history.serves - 1))
  have hcreated := created_le s (.serve (s.history.serves - 1))
  have hcount : s.held.countP Token.isServe ≤ s.held.count (.serve (s.history.serves - 1)) :=
    List.countP_mono_left fun t ht hserve => beq_iff_eq.mpr (hlast t ht hserve)
  omega

/-! The places of the one token. -/

def inFrames (frames : List Frame) : Nat := (frames.flatMap Frame.tokens).countP Token.isServe

theorem inFrames_cons (frame : Frame) (frames : List Frame) :
    inFrames (frame :: frames) = frame.tokens.countP Token.isServe + inFrames frames := by
  rw [inFrames, List.flatMap_cons, List.countP_append]
  rfl

theorem invocation_le (frames : List Frame) :
    (frames.flatMap Frame.invocation).length ≤ inFrames frames := by
  induction frames with
  | nil => rfl
  | cons frame frames ih =>
    have hle : frame.invocation.length ≤ frame.tokens.countP Token.isServe := by
      cases frame with
      | argumentUnlocked id name m handler argument =>
        cases argument with
        | error ec => exact Nat.zero_le _
        | ok v => exact Nat.le_refl _
      | _ => exact Nat.zero_le _
    rw [List.flatMap_cons, List.length_append, inFrames_cons]
    omega

theorem unanswered_le {invoked : List Invocation} {indices : List Nat}
    (h : ∀ i ∈ indices, i < invoked.length) :
    indices.length ≤ (indices.flatMap (callback invoked)).countP Token.isServe := by
  induction indices with
  | nil => rfl
  | cons i indices ih =>
    have hcallback : callback invoked i = [.serve (invoked.get ⟨i, h i (by simp)⟩).handler] := by
      rw [callback, List.getElem?_eq_getElem (h i (by simp))]
      rfl
    have hrest := ih fun j hj => h j (by simp [hj])
    rw [List.flatMap_cons, List.countP_append, hcallback, List.length_cons]
    simp only [List.countP_singleton, Token.isServe, if_true]
    omega

theorem Custody.in_work {s : Side} (hs : s.Custody) (h : s.output.Ordered)
    (hserial : s.Serial) : inFrames s.stack + s.unanswered.length ≤ 1 := by
  have hsingle := hs.single h hserial
  have hunanswered := unanswered_le hs.bound
  simp only [held, List.countP_append] at hsingle
  rw [inFrames]
  omega

/-- Whoever takes a frame with the token finds no other call in work. -/
theorem Custody.alone {s : Side} (hs : s.Custody) (h : s.output.Ordered) (hserial : s.Serial)
    {frame : Frame} {stack : List Frame} (hstack : s.stack = frame :: stack)
    (hframe : frame.tokens.countP Token.isServe = 1) :
    stack.flatMap Frame.invocation = [] ∧ s.unanswered = [] := by
  have hwork := hs.in_work h hserial
  have hle := invocation_le stack
  rw [hstack, inFrames_cons, hframe] at hwork
  exact ⟨List.length_eq_zero_iff.mp (by omega), List.length_eq_zero_iff.mp (by omega)⟩

theorem Custody.unanswered_eq {s : Side} (hs : s.Custody) (h : s.output.Ordered)
    (hserial : s.Serial) {index : Nat} (hindex : index ∈ s.unanswered) :
    s.unanswered = [index] := by
  have hwork := hs.in_work h hserial
  cases hunanswered : s.unanswered with
  | nil => rw [hunanswered] at hindex; cases hindex
  | cons i indices =>
    rw [hunanswered, List.length_cons] at hwork
    obtain rfl : indices = [] := List.length_eq_zero_iff.mp (by omega)
    rw [hunanswered, List.mem_singleton] at hindex
    rw [hindex]

theorem summon_desk (s : Side) : s.summon.desk = s.desk := by
  unfold summon
  split_ifs <;> rfl

theorem release_desk (s : Side) : s.release.desk = s.desk := by
  unfold release
  split_ifs <;> rfl

theorem push_desk (s : Side) (frame : Frame) :
    (s.push [frame]).desk = { s.desk with unlocked := frame.invocation ++ s.desk.unlocked } := rfl

theorem popped_desk {s : Side} {frame : Frame} {stack : List Frame}
    (hstack : s.stack = frame :: stack) :
    s.desk = { desk { s with stack } with
      unlocked := frame.invocation ++ (desk { s with stack }).unlocked } := by
  simp only [desk, hstack, List.flatMap_cons]

variable [Platform]

/-- A frame that is resumed makes a step of the desk. -/
theorem resumed_desk {servers : InterfaceDefinition} {s s' : Side} (hs : s.Custody)
    (hordered : s.output.Ordered) (hserial : s.Serial) {frame : Frame} {stack : List Frame}
    (hstack : s.stack = frame :: stack) (hresumed : Resumed servers { s with stack } frame s') :
    s.desk.Step s'.desk := by
  rw [popped_desk hstack]
  cases hresumed with
  | more | requestContinue | responseContinue | writerDone => exact .same
  | @responseType operation rest kind reads waiting =>
    exact Desk.Step.parsed (p := ⟨.messageType, .integer 1⟩) rfl
  | @requestType operation rest kind reads waiting =>
    exact Desk.Step.parsed (p := ⟨.messageType, .integer 0⟩) rfl
  | @responseHeader operation rest id key expected kind reads find =>
    exact Desk.Step.parsed (p := ⟨.response, .integer id⟩) rfl
  | @requestHeader operation rest id name m handler kind reads waiting find =>
    exact Desk.Step.parsed (p := ⟨.request, .tuple [.integer id, .utf8 name]⟩) rfl
  | @result operation expected v rest kind reads =>
    rw [release_desk]
    exact Desk.Step.parsed (p := ⟨.result expected, v⟩) rfl
  | @argument operation id name m handler v rest kind reads =>
    have hframe : (Frame.start operation).tokens.countP Token.isServe = 1 := by
      rw [Frame.tokens, kind]
      rfl
    rw [release_desk]
    exact Desk.Step.argument (p := ⟨.argument id name m handler, v⟩) rfl
      (hs.alone hordered hserial hstack hframe).1
  | lastResult | resultReady | writer | responseSent => exact .same
  | nextHeader =>
    rw [summon_desk]
    exact .same
  | implementation =>
    obtain ⟨hunlocked, hunanswered⟩ := hs.alone hordered hserial hstack rfl
    exact Desk.Step.invoked rfl hunlocked hunanswered

theorem moved_desk {clients servers : InterfaceDefinition} {s s' : Side} {event : Event}
    (hs : s.Custody) (hordered : s.output.Ordered) (hserial : s.Serial)
    (hmoved : Moved clients servers s event s') : s.desk.Step s'.desk := by
  cases hmoved with
  | resume hstack hresumed => exact resumed_desk hs hordered hserial hstack hresumed
  | refused | placed | written => exact .same
  | awaited | serve =>
    rw [summon_desk]
    exact .same
  | answered runs invoked unanswered fits accepted =>
    exact Desk.Step.answered invoked (hs.unanswered_eq hordered hserial unanswered) accepted
  | «return» hstack =>
    rw [popped_desk hstack]
    exact .same
  | @read operation bytes hstack hreads =>
    have hsame : (s.delivered operation bytes).desk = s.desk := by
      simp only [desk, hstack, List.flatMap_nil]
      rfl
    rw [hsame]
    exact .same

end Side

end Warpcoil
