import Warpcoil.Exclusive

/-! What a side that only calls and a side that only serves have in common: how they use their
splitter, and which frames and operations are theirs. -/
namespace Warpcoil.Side

/-- Somebody waits for a header. -/
def hasWaiter (s : Side) : Bool := s.waitingForResponse || s.waitingForRequest.isSome

/-- What no use of the splitter changes. -/
def aside (s : Side) :=
  (s.thrown, s.waitingForResponse, s.waitingForRequest, s.expectedResponses, s.invoked, s.output,
    s.history.parsed, s.history.calls, s.history.completed, s.history.served, s.history.dropped)

/-- Whoever waits can have a header parsed, nobody else has one parsed, and the frames and the
operations are of a kind. -/
structure Tended (F : Frame → Prop) (O : ParseOperation → Prop) (s : Side) : Prop where
  armed : s.hasWaiter = true → s.parsingHeader = true ∨ s.beginParseMessage = true
  awaits : ∀ operation ∈ s.active, operation.onResult.isHeader = true → s.hasWaiter = true
  frames : ∀ frame ∈ s.stack, F frame
  reads : ∀ operation ∈ s.reads, O operation

/-- `t` goes on from `s` above what was on the stack, and only the splitter has been used. -/
structure Attends (F : Frame → Prop) (O : ParseOperation → Prop) (s t : Side) : Prop where
  tended : t.Tended F O
  aside : t.aside = s.aside
  stack : s.stack <:+ t.stack

variable {F : Frame → Prop} {O : ParseOperation → Prop} {s : Side}

theorem tended_initial (F : Frame → Prop) (O : ParseOperation → Prop) : ({} : Side).Tended F O :=
  ⟨fun hwaits => absurd hwaits Bool.false_ne_true, List.forall_mem_nil _, List.forall_mem_nil _,
    List.forall_mem_nil _⟩

/-- What a parse leaves alone may differ before. -/
theorem Attends.rebase {s' t : Side} (h : Attends F O s' t) (haside : s'.aside = s.aside)
    (hstack : s'.stack = s.stack) : Attends F O s t :=
  ⟨h.tended, h.aside.trans haside, hstack ▸ h.stack⟩

theorem Tended.assert (h : s.Tended F O) (a : Assertion) (c : Bool) : (s.assert a c).Tended F O :=
  { h with }

theorem Tended.push (h : s.Tended F O) {frame : Frame} (hframe : F frame)
    (hnone : frame.operation = []) : Attends F O s (s.push [frame]) := by
  refine ⟨{ h with awaits := ?_, frames := ?_ }, rfl, List.suffix_append _ _⟩
  · intro operation hoperation
    refine h.awaits operation ?_
    simpa only [active, Side.push, List.singleton_append, List.flatMap_cons, hnone,
      List.nil_append] using hoperation
  · intro other hother
    rcases List.mem_cons.mp hother with rfl | hrest
    · exact hframe
    · exact h.frames other hrest

/-- A parse is begun; a header by who waits for it. -/
theorem Tended.start (h : s.Tended F O) {operation : ParseOperation} (hframe : F (.start operation))
    (hwaits : operation.onResult.isHeader = true → s.hasWaiter = true) :
    Attends F O s (s.push [.start operation]) := by
  refine ⟨{ h with awaits := ?_, frames := ?_ }, rfl, List.suffix_append _ _⟩
  · intro other hother hheader
    rcases List.mem_cons.mp (show other ∈ operation :: s.active from hother) with rfl | hrest
    · exact hwaits hheader
    · exact h.awaits other hrest hheader
  · intro frame hmem
    rcases List.mem_cons.mp hmem with rfl | hrest
    · exact hframe
    · exact h.frames frame hrest

theorem Tended.callBeginParseMessage (h : s.Tended F O)
    (hframe : F (.start Continuation.messageType.operation)) (hbegin : s.beginParseMessage = true)
    (hwaits : s.hasWaiter = true) : Attends F O s s.callBeginParseMessage := by
  have hassert := h.assert .beginParseMessage
    (!s.parsingHeader && (s.waitingForResponse || s.waitingForRequest.isSome))
  unfold Side.callBeginParseMessage
  rw [if_pos hbegin]
  dsimp only
  split_ifs
  · exact ⟨hassert, rfl, List.suffix_rfl⟩
  · have hparsing : Tended F O { s.assert .beginParseMessage
        (!s.parsingHeader && (s.waitingForResponse || s.waitingForRequest.isSome)) with
        beginParseMessage := false, parsingHeader := true } :=
      { hassert with armed := fun _ => .inl rfl }
    exact (hparsing.start hframe fun _ => hwaits).rebase rfl rfl

/-- `unlock_input` at the end of a payload. -/
theorem Tended.unlockInput (h : s.Tended F O)
    (hframe : F (.start Continuation.messageType.operation)) (hheader : s.parsingHeader = false) :
    Attends F O s s.unlockInput := by
  have hunlocked : Tended F O
      { s.assert .unlockInput (!s.parsingHeader && s.locked) with locked := false } := { h with }
  have hguard : (!s.waitingForResponse && s.waitingForRequest.isNone) = !s.hasWaiter := by
    unfold hasWaiter
    cases s.waitingForResponse <;> cases s.waitingForRequest <;> rfl
  have heq : s.unlockInput =
      if !s.hasWaiter then
        { s.assert .unlockInput (!s.parsingHeader && s.locked) with locked := false }
      else (Side.assert { s.assert .unlockInput (!s.parsingHeader && s.locked) with
        locked := false } .unlockBegin s.beginParseMessage).callBeginParseMessage := by
    rw [← hguard]
    rfl
  rw [heq]
  split_ifs with hnone
  · exact ⟨hunlocked, rfl, List.suffix_rfl⟩
  · have hwaits : s.hasWaiter = true := by simpa using hnone
    have hbegin : s.beginParseMessage = true := by
      rcases h.armed hwaits with hparsing | hbegin
      · rw [hheader] at hparsing
        cases hparsing
      · exact hbegin
    exact ((hunlocked.assert .unlockBegin s.beginParseMessage).callBeginParseMessage hframe hbegin
      hwaits).rebase rfl rfl

theorem Tended.pop (h : s.Tended F O) {frame : Frame} {stack : List Frame}
    (hstack : s.stack = frame :: stack) : Tended F O { s with stack } := by
  refine { h with awaits := ?_, frames := ?_ }
  · intro operation hoperation
    refine h.awaits operation ?_
    simp only [active, hstack, List.flatMap_cons, List.append_assoc]
    exact List.mem_append_right _ hoperation
  · intro other hother
    exact h.frames other (hstack ▸ List.mem_cons_of_mem _ hother)

theorem Tended.without (h : s.Tended F O) (index : Nat) :
    Tended F O { s with reads := s.reads.eraseIdx index } := by
  refine { h with awaits := ?_, reads := ?_ }
  · intro operation hoperation
    refine h.awaits operation ?_
    rcases List.mem_append.mp hoperation with hframe | hread
    · exact List.mem_append_left _ hframe
    · exact List.mem_append_right _ (List.mem_of_mem_eraseIdx hread)
  · exact fun operation hoperation => h.reads operation (List.mem_of_mem_eraseIdx hoperation)

/-- An operation has read what is there, and asks for more. -/
theorem Tended.more (h : s.Tended F O) {operation : ParseOperation} (hnext : O operation)
    (hwaits : operation.onResult.isHeader = true → s.hasWaiter = true) :
    Tended F O { s with buffer := [], reads := s.reads ++ [operation] } := by
  refine { h with awaits := ?_, reads := ?_ }
  · intro other hother
    rw [active, ← List.append_assoc, List.mem_append, List.mem_singleton] at hother
    rcases hother with hold | rfl
    · exact h.awaits other hold
    · exact hwaits
  · intro other hother
    rcases List.mem_append.mp hother with hold | hnew
    · exact h.reads other hold
    · rw [List.mem_singleton.mp hnew]
      exact hnext

/-- Nothing is being parsed when the last waiter is told. -/
theorem Tended.told (h : s.Tended F O) (hidle : s.active = []) {t : Side}
    (hnone : t.hasWaiter = false) (hstack : t.stack = s.stack) (hreads : t.reads = s.reads) :
    t.Tended F O := by
  have hactive : t.active = [] := by rw [active, hstack, hreads, ← active, hidle]
  refine ⟨fun hwaits => ?_, fun operation hmem => ?_, hstack ▸ h.frames, hreads ▸ h.reads⟩
  · rw [hnone] at hwaits
    cases hwaits
  · rw [hactive] at hmem
    cases hmem

end Warpcoil.Side
