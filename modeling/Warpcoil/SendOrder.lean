import Mathlib.Data.List.Forall2
import Warpcoil.BufferedWriter

/-! Every `send_buffer` call stands in exactly one of four places, and the places are
ordered: its handler was invoked, is about to be invoked, is held by the outstanding write,
or waits in the queue of that write. -/
namespace Warpcoil.BufferedWriter
open Transition
variable {η : Type*}

theorem handleResult_eq_reverse (handlers : List η) :
    handleResult handlers = handlers.reverse := by
  induction handlers with
  | nil => rfl
  | cons handler next ih => rw [handleResult, ih, List.reverse_cons]

/-- The range with number `n` ends with or after byte number `position`, counted from one,
and the one before it does not. -/
def Holds (handed : List (List UInt8)) (n position : Nat) : Prop :=
  n < handed.length ∧ (handed.take n).flatten.length < position ∧
    position ≤ (handed.take (n + 1)).flatten.length

theorem Holds.append {handed : List (List UInt8)} {n position : Nat}
    (h : Holds handed n position) (more : List (List UInt8)) :
    Holds (handed ++ more) n position := by
  obtain ⟨hn, hlow, hhigh⟩ := h
  refine ⟨?_, ?_, ?_⟩
  · rw [List.length_append]; omega
  · rwa [List.take_append_of_le_length (by omega)]
  · rwa [List.take_append_of_le_length (by omega)]

theorem holds_last {handed : List (List UInt8)} {data : List UInt8} {position : Nat}
    (hlow : handed.flatten.length < position)
    (hhigh : position ≤ handed.flatten.length + data.length) :
    Holds (handed ++ [data]) handed.length position := by
  refine ⟨?_, ?_, ?_⟩
  · simp
  · rwa [List.take_left]
  · rw [List.take_of_length_le (by simp), List.flatten_append, List.length_append,
      List.flatten_singleton]
    exact hhigh

theorem Holds.le_flatten {handed : List (List UInt8)} {n position : Nat}
    (h : Holds handed n position) : position ≤ handed.flatten.length := by
  have hsplit := congrArg (fun ranges => ranges.flatten.length)
    (List.take_append_drop (n + 1) handed)
  simp only [List.flatten_append, List.length_append] at hsplit
  have hhigh := h.2.2
  omega

/-- The write that holds the byte completed with `ec`. -/
def Answers (w : BufferedWriter η) (position : Nat) (ec : ErrorCode) : Prop :=
  ∃ n, w.completed[n]? = some (n, ec) ∧ Holds w.handed n position

theorem Answers.mono {w v : BufferedWriter η} {position : Nat} {ec : ErrorCode}
    (h : w.Answers position ec) (hc : w.completed <+: v.completed)
    (hh : w.handed <+: v.handed) : v.Answers position ec := by
  obtain ⟨n, hn, hholds⟩ := h
  obtain ⟨more, hmore⟩ := hh
  refine ⟨n, ?_, hmore ▸ hholds.append more⟩
  obtain ⟨rest, hrest⟩ := hc
  rw [← hrest, List.getElem?_append_left (List.getElem?_eq_some_iff.mp hn).1]
  exact hn

/-! The four places. -/

def Answered (w : BufferedWriter η) (done : List (η × Nat)) : Prop :=
  List.Forall₂ (fun call answer => call.1 = answer.1 ∧ w.Answers call.2 answer.2) done w.invoked

def Running (w : BufferedWriter η) (running : List (η × Nat)) : Prop :=
  match w.stack with
  | .onResult handlers ec :: _ =>
    running.map Prod.fst = handlers ∧ ∀ call ∈ running, w.Answers call.2 ec
  | _ => running = []

def Writing (w : BufferedWriter η) (writing : List (η × Nat)) : Prop :=
  match w.outstanding with
  | [pending] => writing.map Prod.fst = pending.onResult ∧
      ∀ call ∈ writing, Holds w.handed pending.number call.2
  | _ => writing = []

def Queued (w : BufferedWriter η) (queued : List (η × Nat)) : Prop :=
  match w.state with
  | .sending _ queue => queued.map Prod.fst = (w.queueAt queue).reverse ∧
      ∀ call ∈ queued, w.handed.flatten.length < call.2
  | .notSending => queued = []

def Custody (w : BufferedWriter η) : Prop :=
  ∃ done running writing queued, w.sent = done ++ running ++ writing ++ queued ∧
    w.Answered done ∧ w.Running running ∧ w.Writing writing ∧ w.Queued queued

def Draining (stack : List (SendFrame η)) : Prop :=
  stack = [] ∨ ∃ handlers ec, stack = [.onResult handlers ec]

/-- Where the writer is between two completions. -/
inductive Phase (w : BufferedWriter η) : Prop
  | idle (state : w.state = .notSending) (outstanding : w.outstanding = [])
      (stack : Draining w.stack)
  | writing (data : List UInt8) (queue : Nat) (pending : PendingWrite η)
      (state : w.state = .sending data queue) (outstanding : w.outstanding = [pending])
      (shared : pending.bufferHandlerQueue = queue) (alive : queue < w.queues.length)
      (stack : Draining w.stack)
  | between (data : List UInt8) (queue : Nat) (state : w.state = .sending data queue)
      (outstanding : w.outstanding = []) (alive : queue < w.queues.length)
      (handlers : w.queueAt queue ≠ []) (buffer : w.buffer ≠ [])
      (stack : w.stack = [.continueSend queue] ∨
        ∃ handlers ec, w.stack = [.onResult handlers ec, .continueSend queue])

structure Ordered (w : BufferedWriter η) : Prop where
  bytes : w.handed.flatten ++ w.buffer = w.appended
  position_le : ∀ call ∈ w.sent, call.2 ≤ w.appended.length
  numbers : w.completed.map Prod.fst ++ w.outstanding.map PendingWrite.number =
    List.range w.handed.length
  phase : w.Phase
  custody : w.Custody

theorem ordered_initial : ({} : BufferedWriter η).Ordered where
  bytes := rfl
  position_le := by simp
  numbers := rfl
  phase := .idle rfl rfl (.inl rfl)
  custody := ⟨[], [], [], [], rfl, .nil, rfl, rfl, rfl⟩

theorem Ordered.append {w : BufferedWriter η} (h : w.Ordered) (bytes : List UInt8) :
    (w.append bytes).Ordered where
  bytes := by simp only [BufferedWriter.append, ← h.bytes, List.append_assoc]
  position_le := fun call hcall => by
    have := h.position_le call hcall
    simp only [BufferedWriter.append, List.length_append]
    omega
  numbers := h.numbers
  phase := by
    cases h.phase with
    | idle state outstanding stack => exact .idle state outstanding stack
    | writing data queue pending state outstanding shared alive stack =>
      exact .writing data queue pending state outstanding shared alive stack
    | between data queue state outstanding alive handlers buffer stack =>
      exact .between data queue state outstanding alive handlers
        (by simp [BufferedWriter.append, buffer]) stack
  custody := h.custody

theorem Ordered.length {w : BufferedWriter η} (h : w.Ordered) :
    w.handed.flatten.length + w.buffer.length = w.appended.length := by
  rw [← h.bytes, List.length_append]

theorem queueAt_modify (w : BufferedWriter η) (queue : Nat) (handler : η)
    (h : queue < w.queues.length) :
    (w.queues.modify queue (handler :: ·)).getD queue [] = handler :: w.queueAt queue := by
  simp [queueAt, List.getD_eq_getElem?_getD, h]

/-- A send while a write is under way, or between two, only joins the queue. -/
theorem Ordered.enqueue {w : BufferedWriter η} (h : w.Ordered) (handler : η)
    (hbuffer : w.buffer ≠ []) {data : List UInt8} {queue : Nat}
    (hstate : w.state = .sending data queue) (alive : queue < w.queues.length) :
    (w.sendBuffer handler).Ordered := by
  have hsend : w.sendBuffer handler =
      { w with sent := w.sent ++ [(handler, w.appended.length)],
               queues := w.queues.modify queue (handler :: ·) } := by
    simp [sendBuffer, hstate]
  have hlen := h.length
  have hpos := List.length_pos_iff.mpr hbuffer
  rw [hsend]
  refine ⟨h.bytes, ?_, h.numbers, ?_, ?_⟩
  · simpa [or_imp, forall_and] using h.position_le
  · cases h.phase with
    | idle state => rw [state] at hstate; cases hstate
    | writing data' queue' pending state outstanding shared alive' stack =>
      exact .writing data' queue' pending state outstanding shared (by simpa using alive') stack
    | between data' queue' state outstanding alive' handlers buffer stack =>
      rw [hstate] at state
      cases state
      refine .between data queue hstate outstanding (by simpa using alive) ?_ buffer stack
      simp only [queueAt] at handlers ⊢
      rw [queueAt_modify w queue handler alive]
      simp
  · obtain ⟨done, running, writing, queued, hsent, hdone, hrunning, hwriting, hqueued⟩ :=
      h.custody
    simp only [Queued, hstate] at hqueued
    refine ⟨done, running, writing, queued ++ [(handler, w.appended.length)], ?_, hdone,
      hrunning, hwriting, ?_⟩
    · simp [hsent]
    · simp only [Queued, hstate]
      refine ⟨?_, ?_⟩
      · have hqueue := queueAt_modify w queue handler alive
        simp only [queueAt] at hqueue ⊢ hqueued
        rw [hqueue, List.map_append, hqueued.1]
        simp
      · simp only [List.mem_append, List.mem_singleton, or_imp, forall_and, forall_eq]
        exact ⟨hqueued.2, by omega⟩

/-- A send that starts a write of its own. -/
theorem Ordered.start {w : BufferedWriter η} (h : w.Ordered) (handler : η)
    (hbuffer : w.buffer ≠ []) (hstate : w.state = .notSending) :
    (w.sendBuffer handler).Ordered := by
  have hsend : w.sendBuffer handler =
      { w with sent := w.sent ++ [(handler, w.appended.length)] }.asyncWrite [handler] := by
    simp [sendBuffer, hstate]
  have hlen := h.length
  have hpos := List.length_pos_iff.mpr hbuffer
  obtain ⟨houtstanding, hstack⟩ : w.outstanding = [] ∧ Draining w.stack := by
    cases h.phase with
    | idle state outstanding stack => exact ⟨outstanding, stack⟩
    | writing data queue pending state => rw [state] at hstate; cases hstate
    | between data queue state => rw [state] at hstate; cases hstate
  rw [hsend]
  refine ⟨?_, ?_, ?_, ?_, ?_⟩
  · simpa [asyncWrite, prepareSendState] using h.bytes
  · simpa [asyncWrite, prepareSendState, or_imp, forall_and] using h.position_le
  · have hnumbers := h.numbers
    rw [houtstanding] at hnumbers
    simp only [List.map_nil, List.append_nil] at hnumbers
    simp [asyncWrite, prepareSendState, houtstanding, hnumbers, List.range_succ]
  · exact .writing w.buffer w.queues.length _ rfl (by simp [asyncWrite, houtstanding]; rfl) rfl
      (by simp [asyncWrite, prepareSendState]) hstack
  · obtain ⟨done, running, writing, queued, hsent, hdone, hrunning, hwriting, hqueued⟩ :=
      h.custody
    simp only [Writing, houtstanding] at hwriting
    simp only [Queued, hstate] at hqueued
    subst hwriting hqueued
    have hmono : ∀ {position ec}, w.Answers position ec →
        ({ w with sent := w.sent ++ [(handler, w.appended.length)] }.asyncWrite
          [handler]).Answers position ec :=
      fun ha => ha.mono (List.prefix_refl _) (List.prefix_append _ _)
    refine ⟨done, running, [(handler, w.appended.length)], [], ?_, ?_, ?_, ?_, ?_⟩
    · simp [asyncWrite, prepareSendState, hsent]
    · exact hdone.imp fun call answer hc => ⟨hc.1, hmono hc.2⟩
    · rcases hstack with hstack | ⟨handlers, ec, hstack⟩
      · simpa [Running, asyncWrite, prepareSendState, hstack] using hrunning
      · simp only [Running, hstack, asyncWrite, prepareSendState] at hrunning ⊢
        exact ⟨hrunning.1, fun call hcall => hmono (hrunning.2 call hcall)⟩
    · simp only [Writing, asyncWrite, prepareSendState, houtstanding, List.nil_append]
      refine ⟨rfl, ?_⟩
      simp only [List.mem_singleton, forall_eq]
      exact holds_last (by omega) (by omega)
    · simp [Queued, asyncWrite, prepareSendState, queueAt]

/-- The state in which `finish_send` finds the writer. -/
def complete (w : BufferedWriter η) (pending : PendingWrite η) (transferred : Nat)
    (ec : ErrorCode) : BufferedWriter η :=
  { w with outstanding := [],
           completed := w.completed ++ [(pending.number, ec)],
           accepted := w.accepted ++ pending.data.take transferred }

/-- The calls of a completed write are answered by its error code. -/
theorem Ordered.complete_answers {w : BufferedWriter η} (h : w.Ordered)
    {pending : PendingWrite η} (houtstanding : w.outstanding = [pending]) (transferred : Nat)
    (ec : ErrorCode) {position : Nat} (hholds : Holds w.handed pending.number position) :
    (w.complete pending transferred ec).Answers position ec := by
  have hnumbers := congrArg List.length h.numbers
  have hlast := congrArg (fun ns => ns[w.completed.length]?) h.numbers
  simp only [houtstanding, List.map_singleton, List.length_append, List.length_map,
    List.length_singleton, List.length_range] at hnumbers
  rw [houtstanding] at hlast
  simp only [List.map_singleton] at hlast
  rw [List.getElem?_append_right (by simp)] at hlast
  simp only [List.length_map, Nat.sub_self, List.getElem?_cons_zero] at hlast
  rw [List.getElem?_range (by omega)] at hlast
  have hnumber : pending.number = w.completed.length := Option.some.inj hlast
  exact ⟨pending.number, by simp [complete, hnumber], hholds⟩

theorem Ordered.written {w : BufferedWriter η} (h : w.Ordered) {pending : PendingWrite η}
    (hstack : w.stack = []) (houtstanding : w.outstanding = [pending]) (transferred : Nat)
    (ec : ErrorCode) :
    ((w.complete pending transferred ec).finishSend ec pending.bufferHandlerQueue
      pending.onResult).Ordered := by
  have hlen := h.length
  obtain ⟨data, queue, hstate, hshared, halive⟩ : ∃ data queue,
      w.state = .sending data queue ∧ pending.bufferHandlerQueue = queue ∧
        queue < w.queues.length := by
    cases h.phase with
    | idle state outstanding => rw [houtstanding] at outstanding; cases outstanding
    | writing data queue pending' state outstanding shared alive =>
      rw [houtstanding] at outstanding
      cases outstanding
      exact ⟨data, queue, state, shared, alive⟩
    | between data queue state outstanding =>
      rw [houtstanding] at outstanding; cases outstanding
  obtain ⟨done, running, writing, queued, hsent, hdone, hrunning, hwriting, hqueued⟩ :=
    h.custody
  simp only [Running, hstack] at hrunning
  simp only [Writing, houtstanding] at hwriting
  simp only [Queued, hstate] at hqueued
  subst hrunning
  have hnumbers := h.numbers
  simp only [houtstanding, List.map_singleton] at hnumbers
  have hmono : ∀ {position ec'}, w.Answers position ec' →
      (w.complete pending transferred ec).Answers position ec' :=
    fun ha => ha.mono (List.prefix_append _ _) (List.prefix_refl _)
  have hrun : ∀ call ∈ writing, (w.complete pending transferred ec).Answers call.2 ec :=
    fun call hcall => h.complete_answers houtstanding transferred ec (hwriting.2 call hcall)
  have hanswered : (w.complete pending transferred ec).Answered done :=
    hdone.imp fun call answer hc => ⟨hc.1, hmono hc.2⟩
  -- without a handler in the queue the writer stops, whatever the buffer holds
  have hstop : w.queueAt queue = [] →
      ({ w.complete pending transferred ec with
          state := .notSending,
          stack := .onResult pending.onResult ec :: w.stack } : BufferedWriter η).Ordered := by
    intro hempty
    refine ⟨h.bytes, h.position_le, ?_, ?_, ?_⟩
    · simpa [complete] using hnumbers
    · exact .idle rfl rfl (.inr ⟨pending.onResult, ec, by rw [hstack]⟩)
    · rw [hempty, List.reverse_nil, List.map_eq_nil_iff] at hqueued
      obtain ⟨rfl, -⟩ := hqueued
      exact ⟨done, writing, [], [], by simp [complete, hsent], hanswered,
        ⟨hwriting.1, hrun⟩, rfl, rfl⟩
  have hqueue : (w.complete pending transferred ec).queueAt queue = w.queueAt queue := rfl
  have hframes : (w.complete pending transferred ec).stack = w.stack := rfl
  have hbuffer : (w.complete pending transferred ec).buffer = w.buffer := rfl
  unfold finishSend
  rw [hshared, hqueue, hframes, hbuffer]
  split_ifs with hb hq
  · apply hstop
    -- a queued call came after the bytes of the write, so some byte would be buffered
    by_contra hq
    cases queued with
    | nil =>
      rw [List.map_nil] at hqueued
      exact hq (List.reverse_eq_nil_iff.mp hqueued.1.symm)
    | cons call calls =>
      have hlow := hqueued.2 call (by simp)
      have hhigh := h.position_le call (by simp [hsent])
      rw [hb, List.length_nil] at hlen
      omega
  · exact hstop hq
  · refine ⟨h.bytes, h.position_le, ?_, ?_, ?_⟩
    · simpa [complete] using hnumbers
    · exact .between data queue hstate rfl halive hq hb
        (.inr ⟨pending.onResult, ec, by rw [hstack]⟩)
    · refine ⟨done, writing, [], queued, by simp [complete, hsent], hanswered,
        ⟨hwriting.1, hrun⟩, rfl, ?_⟩
      simp only [Queued, complete, hstate]
      exact hqueued

theorem Ordered.invoke {w : BufferedWriter η} (h : w.Ordered) {handler : η}
    {handlers : List η} {ec : ErrorCode} {stack : List (SendFrame η)}
    (hstack : w.stack = .onResult (handler :: handlers) ec :: stack) :
    ({ w with stack := .onResult handlers ec :: stack,
              invoked := w.invoked ++ [(handler, ec)] } : BufferedWriter η).Ordered := by
  refine ⟨h.bytes, h.position_le, h.numbers, ?_, ?_⟩
  · cases h.phase with
    | idle state outstanding drain =>
      rcases drain with hnil | ⟨hs, ec', hone⟩
      · rw [hstack] at hnil; cases hnil
      · rw [hstack] at hone
        cases hone
        exact .idle state outstanding (.inr ⟨handlers, ec, rfl⟩)
    | writing data queue pending state outstanding shared alive drain =>
      rcases drain with hnil | ⟨hs, ec', hone⟩
      · rw [hstack] at hnil; cases hnil
      · rw [hstack] at hone
        cases hone
        exact .writing data queue pending state outstanding shared alive
          (.inr ⟨handlers, ec, rfl⟩)
    | between data queue state outstanding alive waiting buffer two =>
      rcases two with hone | ⟨hs, ec', htwo⟩
      · rw [hstack] at hone; cases hone
      · rw [hstack] at htwo
        cases htwo
        exact .between data queue state outstanding alive waiting buffer
          (.inr ⟨handlers, ec, rfl⟩)
  · obtain ⟨done, running, writing, queued, hsent, hdone, hrunning, hwriting, hqueued⟩ :=
      h.custody
    simp only [Running, hstack] at hrunning
    cases running with
    | nil => simp at hrunning
    | cons call calls =>
      simp only [List.map_cons, List.cons.injEq, List.mem_cons, forall_eq_or_imp] at hrunning
      obtain ⟨⟨hcall, hcalls⟩, hanswer, hanswers⟩ := hrunning
      refine ⟨done ++ [call], calls, writing, queued, by simp [hsent], ?_, ⟨hcalls, hanswers⟩,
        hwriting, hqueued⟩
      exact List.rel_append hdone (.cons ⟨hcall, hanswer⟩ .nil)

/-- `on_result` has returned. -/
theorem Ordered.returned {w : BufferedWriter η} (h : w.Ordered) {ec : ErrorCode}
    {stack : List (SendFrame η)} (hstack : w.stack = .onResult [] ec :: stack) :
    ({ w with stack } : BufferedWriter η).Ordered := by
  obtain ⟨done, running, writing, queued, hsent, hdone, hrunning, hwriting, hqueued⟩ :=
    h.custody
  simp only [Running, hstack, List.map_eq_nil_iff] at hrunning
  obtain ⟨rfl, -⟩ := hrunning
  have hdrain : ∀ {frames : List (SendFrame η)}, w.stack = frames → Draining frames →
      stack = [] := by
    intro frames hframes hdrain
    rw [← hframes, hstack] at hdrain
    rcases hdrain with hnil | ⟨hs, ec', hone⟩
    · cases hnil
    · cases hone; rfl
  cases h.phase with
  | idle state outstanding drain =>
    have hnil := hdrain rfl drain
    subst hnil
    exact ⟨h.bytes, h.position_le, h.numbers, .idle state outstanding (.inl rfl),
      done, [], writing, queued, hsent, hdone, rfl, hwriting, hqueued⟩
  | writing data queue pending state outstanding shared alive drain =>
    have hnil := hdrain rfl drain
    subst hnil
    exact ⟨h.bytes, h.position_le, h.numbers,
      .writing data queue pending state outstanding shared alive (.inl rfl),
      done, [], writing, queued, hsent, hdone, rfl, hwriting, hqueued⟩
  | between data queue state outstanding alive waiting buffer two =>
    rcases two with hone | ⟨hs, ec', htwo⟩
    · rw [hstack] at hone; cases hone
    · rw [hstack] at htwo
      cases htwo
      exact ⟨h.bytes, h.position_le, h.numbers,
        .between data queue state outstanding alive waiting buffer (.inl rfl),
        done, [], writing, queued, hsent, hdone, rfl, hwriting, hqueued⟩

theorem Ordered.continueSend {w : BufferedWriter η} (h : w.Ordered) {queue : Nat}
    {stack : List (SendFrame η)} (hstack : w.stack = .continueSend queue :: stack) :
    ({ w with stack }.continueSend queue).Ordered := by
  have hlen := h.length
  obtain ⟨data, hstate, houtstanding, hbuffer, hnil⟩ : ∃ data,
      w.state = .sending data queue ∧ w.outstanding = [] ∧ w.buffer ≠ [] ∧ stack = [] := by
    have hnot : ¬ Draining w.stack := by
      rintro (hnil | ⟨handlers, ec, hone⟩)
      · rw [hstack] at hnil; cases hnil
      · rw [hstack] at hone; cases hone
    cases h.phase with
    | idle _ _ drain => exact (hnot drain).elim
    | writing _ _ _ _ _ _ _ drain => exact (hnot drain).elim
    | between data queue' state outstanding alive handlers buffer two =>
      rcases two with hone | ⟨hs, ec', htwo⟩
      · rw [hstack] at hone
        cases hone
        exact ⟨data, state, outstanding, buffer, rfl⟩
      · rw [hstack] at htwo; cases htwo
  subst hnil
  have hpos := List.length_pos_iff.mpr hbuffer
  obtain ⟨done, running, writing, queued, hsent, hdone, hrunning, hwriting, hqueued⟩ :=
    h.custody
  simp only [Running, hstack] at hrunning
  simp only [Writing, houtstanding] at hwriting
  simp only [Queued, hstate] at hqueued
  subst hrunning hwriting
  have hnumbers := h.numbers
  rw [houtstanding, List.map_nil, List.append_nil] at hnumbers
  refine ⟨?_, ?_, ?_, ?_, ?_⟩
  · simpa [BufferedWriter.continueSend, asyncWrite, prepareSendState] using h.bytes
  · simpa [BufferedWriter.continueSend, asyncWrite, prepareSendState] using h.position_le
  · simp [BufferedWriter.continueSend, asyncWrite, prepareSendState, houtstanding, hnumbers,
      List.range_succ]
  · exact .writing w.buffer w.queues.length
      ⟨w.handed.length, w.buffer, w.queues.length, handleResult (w.queueAt queue)⟩
      (by simp [BufferedWriter.continueSend, asyncWrite, prepareSendState])
      (by simp [BufferedWriter.continueSend, asyncWrite, houtstanding]; rfl) rfl
      (by simp [BufferedWriter.continueSend, asyncWrite, prepareSendState]) (.inl rfl)
  · refine ⟨done, [], queued, [], ?_, ?_, rfl, ?_, ?_⟩
    · simp [BufferedWriter.continueSend, asyncWrite, prepareSendState, hsent]
    · exact hdone.imp fun call answer hc =>
        ⟨hc.1, hc.2.mono (List.prefix_refl _) (List.prefix_append _ _)⟩
    · simp only [Writing, BufferedWriter.continueSend, asyncWrite, prepareSendState,
        houtstanding, List.nil_append, handleResult_eq_reverse]
      refine ⟨hqueued.1, fun call hcall => holds_last (hqueued.2 call hcall) ?_⟩
      have hle := h.position_le call (by simp [hsent, hcall])
      omega
    · simp [Queued, BufferedWriter.continueSend, asyncWrite, prepareSendState, queueAt]

theorem Ordered.sendBuffer {w : BufferedWriter η} (h : w.Ordered) (handler : η)
    (hbuffer : w.buffer ≠ []) : (w.sendBuffer handler).Ordered := by
  cases h.phase with
  | idle state => exact h.start handler hbuffer state
  | writing data queue pending state outstanding shared alive =>
    exact h.enqueue handler hbuffer state alive
  | between data queue state outstanding alive => exact h.enqueue handler hbuffer state alive

theorem Ordered.outstanding_eq {w : BufferedWriter η} (h : w.Ordered) {index : Nat}
    {pending : PendingWrite η} (hpending : w.outstanding[index]? = some pending) :
    w.outstanding = [pending] ∧ index = 0 := by
  cases h.phase with
  | idle _ outstanding => simp [outstanding] at hpending
  | writing data queue pending' state outstanding =>
    rw [outstanding] at hpending ⊢
    cases index with
    | zero => cases hpending; exact ⟨rfl, rfl⟩
    | succ index => simp at hpending
  | between data queue state outstanding => simp [outstanding] at hpending

theorem ordered_step : Preserved (step (η := η)) Ordered := by
  intro w event w' h hstep
  cases event with
  | append bytes =>
    cases hstep
    exact h.append bytes
  | sendBuffer handler =>
    simp only [step] at hstep
    split_ifs at hstep with hbuffer
    cases hstep
    exact h.sendBuffer handler hbuffer
  | written index transferred ec =>
    cases hstack : w.stack with
    | cons frame stack => simp [step, hstack] at hstep
    | nil =>
      cases hpending : w.outstanding[index]? with
      | none => simp [step, hstack, hpending] at hstep
      | some pending =>
        obtain ⟨houtstanding, rfl⟩ := h.outstanding_eq hpending
        simp only [step, hstack, hpending] at hstep
        split_ifs at hstep with hlength
        cases hstep
        have hw := h.written hstack houtstanding transferred ec
        simpa [complete, houtstanding, hstack] using hw
  | proceed =>
    simp only [step, proceed] at hstep
    split at hstep
    · cases hstep
    · next ec stack hstack => cases hstep; exact h.returned hstack
    · next handler handlers ec stack hstack => cases hstep; exact h.invoke hstack
    · next queue stack hstack => cases hstep; exact h.continueSend hstack

theorem ordered_run {w : BufferedWriter η} {events : List (Event η)}
    (h : run step {} events = some w) : w.Ordered :=
  ordered_step.run ordered_initial h

theorem Ordered.invoked_sent {w : BufferedWriter η} (h : w.Ordered) {k : Nat} {handler : η}
    {ec : ErrorCode} (hk : w.invoked[k]? = some (handler, ec)) :
    ∃ position n, w.sent[k]? = some (handler, position) ∧ w.completed[n]? = some (n, ec) ∧
      Holds w.handed n position := by
  obtain ⟨done, running, writing, queued, hsent, hdone, -⟩ := h.custody
  have hlt := (List.getElem?_eq_some_iff.mp hk).1
  have hlength := hdone.length_eq
  have hcall : done[k]? = some done[k] := List.getElem?_eq_getElem (by omega)
  have hrel := List.forall₂_iff_get.mp hdone
  have hk' := hrel.2 k (by omega) hlt
  rw [List.getElem?_eq_getElem hlt, Option.some.injEq] at hk
  simp only [List.get_eq_getElem, hk] at hk'
  obtain ⟨hhandler, n, hn, hholds⟩ := hk'
  refine ⟨done[k].2, n, ?_, hn, hholds⟩
  rw [hsent, List.append_assoc, List.append_assoc, List.getElem?_append_left (by omega), hcall,
    ← hhandler]

/-- Nothing is left over when the writer rests. -/
theorem Ordered.rest {w : BufferedWriter η} (h : w.Ordered) (houtstanding : w.outstanding = [])
    (hstack : w.stack = []) :
    w.invoked.length = w.sent.length ∧ ∀ call ∈ w.sent, call.2 ≤ w.handed.flatten.length := by
  obtain ⟨done, running, writing, queued, hsent, hdone, hrunning, hwriting, hqueued⟩ :=
    h.custody
  have hstate : w.state = .notSending := by
    cases h.phase with
    | idle state => exact state
    | writing data queue pending state outstanding =>
      rw [houtstanding] at outstanding; cases outstanding
    | between data queue state _ _ _ _ two => simp [hstack] at two
  simp only [Running, hstack] at hrunning
  simp only [Writing, houtstanding] at hwriting
  simp only [Queued, hstate] at hqueued
  subst hrunning hwriting hqueued
  rw [List.append_nil, List.append_nil, List.append_nil] at hsent
  have hlength : w.invoked.length = w.sent.length := by rw [hsent, hdone.length_eq]
  refine ⟨hlength, fun call hcall => ?_⟩
  obtain ⟨k, hk, rfl⟩ := List.getElem_of_mem hcall
  obtain ⟨position, n, hposition, -, hholds⟩ :=
    h.invoked_sent (List.getElem?_eq_getElem (hlength ▸ hk))
  rw [List.getElem?_eq_getElem hk, Option.some.injEq] at hposition
  rw [hposition]
  exact hholds.le_flatten

/-- `buffered_writer` is a lossless queue. At most one write is outstanding. The ranges
handed over and the buffer are the bytes appended. The handler invoked in place `k` is that
of the `send_buffer` call in place `k`, with the error code of the completed write that
holds the last byte appended before that call. At rest every handler has been invoked and
every byte appended before a call has been handed over. -/
theorem lossless_fifo (events : List (Event η)) (w : BufferedWriter η)
    (h : run step {} events = some w) :
    w.outstanding.length ≤ 1 ∧
    w.handed.flatten ++ w.buffer = w.appended ∧
    (∀ (k : Nat) (handler : η) (ec : ErrorCode), w.invoked[k]? = some (handler, ec) →
      ∃ position n, w.sent[k]? = some (handler, position) ∧
        w.completed[n]? = some (n, ec) ∧ Holds w.handed n position) ∧
    (w.outstanding = [] → w.stack = [] → w.invoked.length = w.sent.length ∧
      ∀ call ∈ w.sent, call.2 ≤ w.handed.flatten.length) := by
  have hordered := ordered_run h
  refine ⟨?_, hordered.bytes, fun k handler ec hk => hordered.invoked_sent hk,
    hordered.rest⟩
  cases hordered.phase with
  | idle _ outstanding => simp [outstanding]
  | writing _ _ _ _ outstanding => simp [outstanding]
  | between _ _ _ outstanding => simp [outstanding]

/-- Two calls while the first write is under way; the second write fails after one byte. -/
theorem lossless_fifo_queue :
    let events : List (Event Nat) := [.append [1], .sendBuffer 7, .append [2], .sendBuffer 8,
      .append [3], .sendBuffer 9, .written 0 1 .success, .proceed, .proceed, .proceed,
      .written 0 1 (.system 32), .proceed, .proceed, .proceed]
    ∃ w : BufferedWriter Nat, run step {} events = some w ∧
      (w.outstanding.length ≤ 1 ∧
      w.handed.flatten ++ w.buffer = w.appended ∧
      (∀ (k : Nat) (handler : Nat) (ec : ErrorCode), w.invoked[k]? = some (handler, ec) →
        ∃ position n, w.sent[k]? = some (handler, position) ∧
          w.completed[n]? = some (n, ec) ∧ Holds w.handed n position) ∧
      (w.outstanding = [] → w.stack = [] → w.invoked.length = w.sent.length ∧
        ∀ call ∈ w.sent, call.2 ≤ w.handed.flatten.length)) ∧
      w.invoked = [(7, .success), (8, .system 32), (9, .system 32)] := by
  intro events
  refine ⟨_, rfl, lossless_fifo events _ rfl, rfl⟩

end Warpcoil.BufferedWriter
