import Warpcoil.SendOrder

/-! What follows a write that fails. `finish_send` looks at the buffer and at the handlers behind
the write, but not at the error code, so it goes on sending. -/
namespace Warpcoil.BufferedWriter
open Transition
variable {η : Type*}

/-- The write fails, and some of the bytes it should have sent, or of those behind it, have not
been sent. -/
def loses (w : BufferedWriter η) : Event η → Bool
  | .written index transferred ec => decide (ec ≠ .success) &&
      (w.outstanding[index]?).any fun pending =>
        decide (transferred < pending.data.length) || !w.buffer.isEmpty
  | .append _ | .sendBuffer _ | .proceed => false

/-- Nobody waits behind a write that fails, and nothing is sent once bytes have been lost. -/
def withholds (lost : Bool) (w : BufferedWriter η) : Event η → Bool
  | .sendBuffer _ => !lost
  | .written index _ ec => decide (ec = .success) ||
      (w.outstanding[index]?).all fun pending => (w.queueAt pending.bufferHandlerQueue).isEmpty
  | .append _ | .proceed => true

/-- The writer, and whether bytes have been lost. -/
def watched (s : Bool × BufferedWriter η) (event : Event η) : Option (Bool × BufferedWriter η) :=
  (step s.2 event).map fun w => (s.1 || s.2.loses event, w)

theorem watched_eq {lost lost' : Bool} {w v : BufferedWriter η} {event : Event η}
    (h : watched (lost, w) event = some (lost', v)) :
    step w event = some v ∧ lost' = (lost || w.loses event) := by
  rw [watched, Option.map_eq_some_iff] at h
  obtain ⟨u, hu, heq⟩ := h
  rw [Prod.mk.injEq] at heq
  exact ⟨heq.2 ▸ hu, heq.1.symm⟩

theorem run_watched {w v : BufferedWriter η} {events : List (Event η)} (lost : Bool)
    (h : run step w events = some v) : ∃ lost', run watched (lost, w) events = some (lost', v) := by
  induction events generalizing w lost with
  | nil =>
    cases h
    exact ⟨lost, rfl⟩
  | cons event events ih =>
    obtain ⟨u, hu, hrest⟩ := run_cons.mp h
    obtain ⟨lost', hlost'⟩ := ih (lost || w.loses event) hrest
    exact ⟨lost', run_cons.mpr ⟨_, by rw [watched, hu]; rfl, hlost'⟩⟩

/-! What is recorded stays recorded. -/

structure Onward (w v : BufferedWriter η) : Prop where
  sent : w.sent <+: v.sent
  handed : w.handed <+: v.handed
  completed : w.completed <+: v.completed

theorem Onward.of_eq {w v : BufferedWriter η} (hsent : v.sent = w.sent)
    (hhanded : v.handed = w.handed) (hcompleted : v.completed = w.completed) : w.Onward v :=
  ⟨hsent ▸ List.prefix_rfl, hhanded ▸ List.prefix_rfl, hcompleted ▸ List.prefix_rfl⟩

theorem Onward.trans {u v w : BufferedWriter η} (h : u.Onward v) (h' : v.Onward w) : u.Onward w :=
  ⟨h.sent.trans h'.sent, h.handed.trans h'.handed, h.completed.trans h'.completed⟩

theorem finishSend_onward (w : BufferedWriter η) (ec : ErrorCode) (queue : Nat)
    (onResult : List η) : w.Onward (w.finishSend ec queue onResult) := by
  unfold finishSend
  split_ifs <;> exact .of_eq rfl rfl rfl

theorem sendBuffer_onward (w : BufferedWriter η) (onResult : η) :
    w.Onward (w.sendBuffer onResult) := by
  unfold sendBuffer
  dsimp only
  split
  · exact ⟨List.prefix_append _ _, List.prefix_append _ _, List.prefix_rfl⟩
  · exact ⟨List.prefix_append _ _, List.prefix_rfl, List.prefix_rfl⟩

theorem step_onward {w v : BufferedWriter η} {event : Event η} (h : step w event = some v) :
    w.Onward v := by
  cases event with
  | append bytes =>
    cases h
    exact .of_eq rfl rfl rfl
  | sendBuffer onResult =>
    simp only [step] at h
    split_ifs at h
    cases h
    exact sendBuffer_onward w onResult
  | written index transferred ec =>
    simp only [step] at h
    split at h
    · split_ifs at h
      cases h
      refine .trans ⟨?_, ?_, ?_⟩ (finishSend_onward _ _ _ _)
      · exact List.prefix_rfl
      · exact List.prefix_rfl
      · exact List.prefix_append _ _
    · cases h
  | proceed =>
    simp only [step, proceed] at h
    split at h
    · cases h
    · cases h
      exact .of_eq rfl rfl rfl
    · cases h
      exact .of_eq rfl rfl rfl
    · cases h
      exact ⟨List.prefix_rfl, List.prefix_append _ _, List.prefix_rfl⟩

theorem run_onward {w v : BufferedWriter η} {events : List (Event η)}
    (h : run step w events = some v) : w.Onward v := by
  have hpreserved : Preserved (step (η := η)) w.Onward := fun _ _ _ hs hstep =>
    hs.trans (step_onward hstep)
  exact hpreserved.run (.of_eq rfl rfl rfl) h

/-- While nothing is lost every range handed over has been accepted, or is being written. After
that nothing is handed over any more. -/
structure Guarded (lost : Bool) (w : BufferedWriter η) : Prop where
  ordered : w.Ordered
  kept : lost = false → w.accepted ++ w.outstanding.flatMap PendingWrite.data = w.handed.flatten
  stopped : lost = true → w.state = .notSending ∧ w.accepted <+: w.handed.flatten

theorem guarded_initial : Guarded false ({} : BufferedWriter η) :=
  ⟨ordered_initial, fun _ => rfl, nofun⟩

/-- A writer that does not send has no write outstanding and none to begin. -/
theorem Ordered.idle_of {w : BufferedWriter η} (h : w.Ordered) (hstate : w.state = .notSending) :
    w.outstanding = [] ∧ Draining w.stack := by
  cases h.phase with
  | idle _ outstanding stack => exact ⟨outstanding, stack⟩
  | writing _ _ _ state => rw [hstate] at state; cases state
  | between _ _ state => rw [hstate] at state; cases state

theorem Guarded.sendBuffer {w : BufferedWriter η} (h : Guarded false w) (handler : η)
    (hbuffer : w.buffer ≠ []) : Guarded false (w.sendBuffer handler) := by
  refine ⟨h.ordered.sendBuffer handler hbuffer, fun _ => ?_, nofun⟩
  have hkept := h.kept rfl
  unfold BufferedWriter.sendBuffer
  dsimp only
  split
  · simp [asyncWrite, prepareSendState, ← hkept]
  · exact hkept

theorem Guarded.continueSend {w : BufferedWriter η} (h : Guarded false w) {queue : Nat}
    {stack : List (SendFrame η)} (hstack : w.stack = .continueSend queue :: stack) :
    Guarded false ({ w with stack }.continueSend queue) := by
  refine ⟨h.ordered.continueSend hstack, fun _ => ?_, nofun⟩
  have hkept := h.kept rfl
  simp [BufferedWriter.continueSend, asyncWrite, prepareSendState, ← hkept]

/-- A write completes while nothing is lost. -/
theorem Guarded.written {w v : BufferedWriter η} (h : Guarded false w) {index transferred : Nat}
    {ec : ErrorCode} (hwithholds : withholds false w (.written index transferred ec) = true)
    (hstep : step w (.written index transferred ec) = some v) :
    Guarded (w.loses (.written index transferred ec)) v := by
  have hordered := ordered_step w _ v h.ordered hstep
  simp only [step] at hstep
  split at hstep
  · next pending hstack hpending =>
    obtain ⟨houtstanding, rfl⟩ := h.ordered.outstanding_eq hpending
    split_ifs at hstep with hlength
    have hkept := h.kept rfl
    rw [houtstanding, List.flatMap_singleton] at hkept
    have hv : v.accepted = w.accepted ++ pending.data.take transferred ∧ v.outstanding = [] ∧
        v.handed = w.handed := by
      cases hstep
      unfold finishSend
      split_ifs <;> simp [houtstanding]
    obtain ⟨haccepted, hnone, hhanded⟩ := hv
    have hle : v.accepted <+: v.handed.flatten := by
      rw [haccepted, hhanded, ← hkept]
      exact (List.prefix_append_right_inj _).mpr (List.take_prefix _ _)
    refine ⟨hordered, fun hlost => ?_, fun hlost => ⟨?_, hle⟩⟩
    · have hall : pending.data.take transferred = pending.data := by
        refine List.take_of_length_le ?_
        simp only [loses, hpending, Option.any_some, Bool.and_eq_false_iff, Bool.or_eq_false_iff,
          decide_eq_false_iff_not, not_not] at hlost
        rcases hlost with hsuccess | ⟨hlt, -⟩
        · exact Nat.le_of_eq (hlength.2 hsuccess).symm
        · omega
      rw [haccepted, hnone, hhanded, hall, ← hkept]
      exact List.append_nil _
    · -- with nobody waiting behind it `finish_send` leaves the writer idle
      have hec : ec ≠ .success := by
        simp only [loses, Bool.and_eq_true, decide_eq_true_eq] at hlost
        exact hlost.1
      simp only [withholds, decide_eq_false hec, Bool.false_or, hpending, Option.all_some,
        List.isEmpty_iff] at hwithholds
      cases hstep
      unfold finishSend
      split_ifs with hbuffer hqueue
      · rfl
      · rfl
      · exact (hqueue hwithholds).elim
  · cases hstep

theorem Guarded.step {lost : Bool} {w v : BufferedWriter η} {event : Event η} (h : Guarded lost w)
    (hwithholds : withholds lost w event = true) (hstep : step w event = some v) :
    Guarded (lost || w.loses event) v := by
  have hordered := ordered_step w event v h.ordered hstep
  cases event with
  | append bytes =>
    cases hstep
    rw [loses, Bool.or_false]
    exact ⟨hordered, h.kept, h.stopped⟩
  | sendBuffer handler =>
    obtain rfl : lost = false := by simpa [withholds] using hwithholds
    simp only [BufferedWriter.step] at hstep
    split_ifs at hstep with hbuffer
    cases hstep
    exact h.sendBuffer handler hbuffer
  | written index transferred ec =>
    cases lost with
    | false => exact h.written hwithholds hstep
    | true =>
      have hnone := (h.ordered.idle_of (h.stopped rfl).1).1
      simp [BufferedWriter.step, hnone] at hstep
  | proceed =>
    rw [loses, Bool.or_false]
    simp only [BufferedWriter.step, proceed] at hstep
    split at hstep
    · cases hstep
    · cases hstep
      exact ⟨hordered, h.kept, h.stopped⟩
    · cases hstep
      exact ⟨hordered, h.kept, h.stopped⟩
    · next queue stack hstack =>
      cases hstep
      cases lost with
      | false => exact h.continueSend hstack
      | true =>
        rcases (h.ordered.idle_of (h.stopped rfl).1).2 with hnil | ⟨handlers, ec, hone⟩
        · rw [hstack] at hnil; cases hnil
        · rw [hstack] at hone; cases hone

theorem guarded_run {lost lost' : Bool} {w v : BufferedWriter η} {events : List (Event η)}
    (h : Guarded lost w)
    (hwithholds : Along watched (fun s event => withholds s.1 s.2 event = true) (lost, w) events)
    (hrun : run watched (lost, w) events = some (lost', v)) : Guarded lost' v := by
  refine Along.run (P := fun s : Bool × BufferedWriter η => Guarded s.1 s.2)
    (fun s event s' hs hevent hstep => ?_) h hwithholds hrun
  obtain ⟨hstep, hlost⟩ := watched_eq hstep
  rw [hlost]
  exact hs.step hevent hstep

theorem Guarded.accepted {lost : Bool} {w : BufferedWriter η} (h : Guarded lost w) :
    w.accepted <+: w.appended := by
  have hhanded : w.accepted <+: w.handed.flatten := by
    cases lost with
    | false => exact h.kept rfl ▸ List.prefix_append _ _
    | true => exact (h.stopped rfl).2
  exact hhanded.trans (h.ordered.bytes ▸ List.prefix_append _ _)

/-- After a loss nothing is handed over. -/
theorem Guarded.handed_step {w v : BufferedWriter η} {event : Event η} (h : Guarded true w)
    (hwithholds : withholds true w event = true) (hstep : BufferedWriter.step w event = some v) :
    v.handed = w.handed := by
  obtain ⟨hnone, hdraining⟩ := h.ordered.idle_of (h.stopped rfl).1
  cases event with
  | append bytes => cases hstep; rfl
  | sendBuffer handler => cases hwithholds
  | written => simp [BufferedWriter.step, hnone] at hstep
  | proceed =>
    simp only [BufferedWriter.step, proceed] at hstep
    split at hstep
    · cases hstep
    · cases hstep; rfl
    · cases hstep; rfl
    · next queue stack hstack =>
      rcases hdraining with hnil | ⟨handlers, ec, hone⟩
      · rw [hstack] at hnil; cases hnil
      · rw [hstack] at hone; cases hone

theorem Guarded.handed_run {lost : Bool} {w v : BufferedWriter η} {events : List (Event η)}
    (h : Guarded true w)
    (hwithholds : Along watched (fun s event => withholds s.1 s.2 event = true) (true, w) events)
    (hrun : run watched (true, w) events = some (lost, v)) : v.handed = w.handed := by
  have hend := Along.run (P := fun s : Bool × BufferedWriter η =>
    s.1 = true ∧ Guarded s.1 s.2 ∧ s.2.handed = w.handed)
    (fun s event s' hs hevent hstep => ?_) ⟨rfl, h, rfl⟩ hwithholds hrun
  · exact hend.2.2
  · obtain ⟨hlost, hguarded, hhanded⟩ := hs
    obtain ⟨hstep, hnext⟩ := watched_eq hstep
    rw [hlost] at hguarded hevent
    rw [hlost, Bool.true_or] at hnext
    refine ⟨hnext, ?_, (hguarded.handed_step hevent hstep).trans hhanded⟩
    rw [hnext]
    exact hguarded.step hevent hstep

theorem take_flatten_le {α : Type*} (xs : List (List α)) {m n : Nat} (h : m ≤ n) :
    (xs.take m).flatten.length ≤ (xs.take n).flatten.length := by
  have hsplit := List.take_append_drop m (xs.take n)
  rw [List.take_take, Nat.min_eq_left h] at hsplit
  rw [← hsplit, List.flatten_append, List.length_append]
  exact Nat.le_add_right _ _

theorem getElem?_of_starts {α : Type*} {xs ys : List α} (h : xs <+: ys) {i : Nat} {x : α}
    (hx : xs[i]? = some x) : ys[i]? = some x := by
  obtain ⟨more, rfl⟩ := h
  rw [List.getElem?_append_left (List.getElem?_eq_some_iff.mp hx).1]
  exact hx

theorem Holds.unique {handed : List (List UInt8)} {m n position : Nat}
    (hm : Holds handed m position) (hn : Holds handed n position) : m = n := by
  rcases Nat.lt_trichotomy m n with hlt | heq | hgt
  · have hle : (handed.take (m + 1)).flatten.length ≤ (handed.take n).flatten.length :=
      take_flatten_le handed hlt
    have := hm.2.2
    have := hn.2.1
    omega
  · exact heq
  · have hle : (handed.take (n + 1)).flatten.length ≤ (handed.take m).flatten.length :=
      take_flatten_le handed hgt
    have := hn.2.2
    have := hm.2.1
    omega

theorem Ordered.number_eq {w : BufferedWriter η} (h : w.Ordered) {pending : PendingWrite η}
    (houtstanding : w.outstanding = [pending]) : pending.number = w.completed.length := by
  have hlength := congrArg List.length h.numbers
  have hlast := congrArg (fun ns => ns[w.completed.length]?) h.numbers
  simp only [houtstanding, List.map_singleton, List.length_append, List.length_map,
    List.length_singleton, List.length_range] at hlength
  simp only [houtstanding, List.map_singleton] at hlast
  rw [List.getElem?_append_right (by simp), List.getElem?_range (by omega)] at hlast
  simpa using hlast

/-- A call whose bytes were written is answered when nothing runs. -/
theorem Ordered.answered {w : BufferedWriter η} (h : w.Ordered) (hstack : w.stack = []) {i n : Nat}
    {handler : η} {position : Nat} {ec : ErrorCode} (hsent : w.sent[i]? = some (handler, position))
    (hholds : Holds w.handed n position) (hcompleted : w.completed[n]? = some (n, ec)) :
    w.invoked[i]? = some (handler, ec) := by
  obtain ⟨done, running, writing, queued, hplaces, hdone, hrunning, hwriting, hqueued⟩ := h.custody
  simp only [Running, hstack] at hrunning
  subst hrunning
  rw [hplaces, List.append_nil, List.append_assoc] at hsent
  by_cases hlt : i < done.length
  · rw [List.getElem?_append_left hlt] at hsent
    obtain ⟨hlength, hall⟩ := List.forall₂_iff_get.mp hdone
    have hanswer := hall i hlt (hlength ▸ hlt)
    rw [List.getElem?_eq_getElem hlt, Option.some.injEq] at hsent
    simp only [List.get_eq_getElem, hsent] at hanswer
    obtain ⟨hhandler, m, hm, hholds'⟩ := hanswer
    obtain rfl := hholds'.unique hholds
    rw [hcompleted, Option.some.injEq, Prod.mk.injEq] at hm
    rw [List.getElem?_eq_getElem (hlength ▸ hlt)]
    exact congrArg some (Prod.ext hhandler.symm hm.2.symm)
  · exfalso
    rw [List.getElem?_append_right (Nat.not_lt.mp hlt)] at hsent
    rcases List.mem_append.mp (List.mem_of_getElem? hsent) with hmem | hmem
    · cases houtstanding : w.outstanding with
      | nil => simp only [Writing, houtstanding] at hwriting; subst hwriting; cases hmem
      | cons pending rest =>
        have hfirst : w.outstanding[0]? = some pending := by rw [houtstanding]; rfl
        have hone := (h.outstanding_eq hfirst).1
        simp only [Writing, hone] at hwriting
        have hnumber := (hwriting.2 _ hmem).unique hholds
        have hlast := h.number_eq hone
        have hcount := (List.getElem?_eq_some_iff.mp hcompleted).1
        omega
    · simp only [Queued] at hqueued
      split at hqueued
      · have hlow := hqueued.2 _ hmem
        have hhigh := hholds.le_flatten
        simp only at hlow
        omega
      · subst hqueued; cases hmem

theorem Ordered.invoked_starts {w : BufferedWriter η} (h : w.Ordered) :
    w.invoked.map Prod.fst <+: w.sent.map Prod.fst := by
  obtain ⟨done, running, writing, queued, hplaces, hdone, -⟩ := h.custody
  have hsame : w.invoked.map Prod.fst = done.map Prod.fst :=
    (List.forall₂_eq_eq_eq ▸ List.forall₂_map_left_iff.mpr (List.forall₂_map_right_iff.mpr
      (hdone.imp fun _ _ hcall => hcall.1)) : done.map Prod.fst = w.invoked.map Prod.fst).symm
  rw [hsame, hplaces, List.append_assoc, List.append_assoc, List.map_append]
  exact List.prefix_append _ _

/-- The calls that a write answers when nobody waits behind it. -/
theorem Ordered.written_for {w : BufferedWriter η} (h : w.Ordered) {pending : PendingWrite η}
    (hstack : w.stack = []) (houtstanding : w.outstanding = [pending])
    (hqueue : w.queueAt pending.bufferHandlerQueue = []) {i : Nat} {handler : η} {position : Nat}
    (hsent : w.sent[i]? = some (handler, position)) (hlate : w.invoked.length ≤ i) :
    Holds w.handed pending.number position := by
  obtain ⟨done, running, writing, queued, hplaces, hdone, hrunning, hwriting, hqueued⟩ := h.custody
  simp only [Running, hstack] at hrunning
  simp only [Writing, houtstanding] at hwriting
  obtain rfl : queued = [] := by
    cases h.phase with
    | idle _ outstanding => rw [houtstanding] at outstanding; cases outstanding
    | between _ _ _ outstanding => rw [houtstanding] at outstanding; cases outstanding
    | writing data queue pending' state outstanding shared =>
      rw [houtstanding, List.cons.injEq] at outstanding
      rw [outstanding.1, shared] at hqueue
      simp only [Queued, state, hqueue, List.reverse_nil, List.map_eq_nil_iff] at hqueued
      exact hqueued.1
  subst hrunning
  rw [hplaces, List.append_nil, List.append_nil, List.getElem?_append_right
    (hdone.length_eq ▸ hlate)] at hsent
  exact hwriting.2 _ (List.mem_of_getElem? hsent)

/-- What a completion records. -/
theorem written_eq {w v : BufferedWriter η} {index transferred : Nat} {ec : ErrorCode}
    (h : step w (.written index transferred ec) = some v) : ∃ pending,
      w.stack = [] ∧ w.outstanding[index]? = some pending ∧
      v.completed = w.completed ++ [(pending.number, ec)] ∧ v.handed = w.handed ∧
      v.sent = w.sent := by
  simp only [step] at h
  split at h
  · next pending hstack hpending =>
    split_ifs at h
    cases h
    refine ⟨pending, hstack, hpending, ?_⟩
    unfold finishSend
    split_ifs <;> exact ⟨rfl, rfl, rfl⟩
  · cases h

/-- Nothing is sent after a failed write, as long as nobody waits behind a write that fails and
nothing is sent once bytes have been lost: what the destination accepted is a prefix of what was
appended, a later write holds none of the bytes appended before the failure, and every handler
that was waiting at the failure is invoked once, with its error code. -/
theorem nothing_after_failed_write (events : List (Event η)) (w : BufferedWriter η)
    (hwithholds : Along watched (fun s event => withholds s.1 s.2 event = true) (false, {}) events)
    (hrun : run step {} events = some w) :
    w.accepted <+: w.appended ∧
    w.invoked.map Prod.fst <+: w.sent.map Prod.fst ∧
    ∀ (before : List (Event η)) (index transferred : Nat) (ec : ErrorCode)
      (after : List (Event η)) (u : BufferedWriter η),
      events = before ++ .written index transferred ec :: after → ec ≠ .success →
      run step {} before = some u →
      (∀ n, u.handed.length ≤ n → n < w.handed.length →
        u.appended.length ≤ (w.handed.take n).flatten.length) ∧
      (w.stack = [] → ∀ (i : Nat) (handler : η) (position : Nat),
        u.sent[i]? = some (handler, position) → u.invoked.length ≤ i →
        w.sent[i]? = some (handler, position) ∧ w.invoked[i]? = some (handler, ec)) := by
  obtain ⟨lost, hwatched⟩ := run_watched false hrun
  have hend := guarded_run guarded_initial hwithholds hwatched
  refine ⟨hend.accepted, hend.ordered.invoked_starts, ?_⟩
  intro before index transferred ec after u hevents hec hbefore
  subst hevents
  obtain ⟨hfirst, hrest⟩ := Along.append_iff.mp hwithholds
  obtain ⟨lost₁, hwatched₁⟩ := run_watched false hbefore
  have hu := guarded_run guarded_initial hfirst hwatched₁
  obtain ⟨hnow, hlater⟩ := hrest _ hwatched₁
  rw [run_append, hbefore, Option.bind_some] at hrun
  obtain ⟨u', hstep, hafter⟩ := run_cons.mp hrun
  obtain ⟨pending, hstack, hpending, hcompleted, hhanded, -⟩ := written_eq hstep
  obtain ⟨houtstanding, rfl⟩ := hu.ordered.outstanding_eq hpending
  have hstep' : watched (lost₁, u) (.written 0 transferred ec) =
      some (lost₁ || u.loses (.written 0 transferred ec), u') := by
    rw [watched, hstep]; rfl
  have hgoing := hlater _ hstep'
  obtain ⟨lost₂, hwatched₂⟩ := run_watched (lost₁ || u.loses (.written 0 transferred ec)) hafter
  have honward := run_onward hafter
  obtain ⟨more, hmore⟩ := honward.handed
  rw [hhanded] at hmore
  constructor
  · intro n hlow hhigh
    cases hlost : lost₁ || u.loses (.written 0 transferred ec) with
    | true =>
      rw [hlost] at hgoing hwatched₂
      have hu' := hu.step hnow hstep
      rw [hlost] at hu'
      have hsame := hu'.handed_run hgoing hwatched₂
      rw [hsame, hhanded] at hhigh
      omega
    | false =>
      -- the write has transferred all that there was
      have hbuffer : u.buffer = [] := by
        have hkept := (Bool.or_eq_false_iff.mp hlost).2
        simp only [loses, decide_eq_true hec, Bool.true_and, hpending, Option.any_some,
          Bool.or_eq_false_iff, Bool.not_eq_false', List.isEmpty_iff] at hkept
        exact hkept.2
      have hall := hu.ordered.bytes
      rw [hbuffer, List.append_nil] at hall
      rw [← hall, ← hmore, List.take_append, List.take_of_length_le hlow, List.flatten_append,
        List.length_append]
      exact Nat.le_add_right _ _
  · intro hrest i handler position hsent hlate
    have hsent' : w.sent[i]? = some (handler, position) :=
      getElem?_of_starts ((step_onward hstep).trans honward).sent hsent
    refine ⟨hsent', hend.ordered.answered hrest (n := pending.number) hsent' ?_ ?_⟩
    · rw [← hmore]
      refine (hu.ordered.written_for hstack houtstanding ?_ hsent hlate).append more
      simpa [withholds, hec, hpending] using hnow
    · rw [hu.ordered.number_eq houtstanding]
      refine getElem?_of_starts honward.completed ?_
      rw [hcompleted, hu.ordered.number_eq houtstanding, List.getElem?_concat_length]

/-- The second write fails after one of its two bytes, with another byte in the buffer. -/
theorem nothing_after_failed_write_two :
    let before : List (Event Nat) := [.append [1], .sendBuffer 7, .written 0 1 .success, .proceed,
      .proceed, .append [2, 3], .sendBuffer 8, .append [4]]
    let after : List (Event Nat) := [.proceed, .proceed, .append [5]]
    ∃ u w : BufferedWriter Nat, run step {} before = some u ∧
      run step {} (before ++ .written 0 1 (.system 32) :: after) = some w ∧
      w.accepted <+: w.appended ∧
      (∀ n, u.handed.length ≤ n → n < w.handed.length →
        u.appended.length ≤ (w.handed.take n).flatten.length) ∧
      w.sent[1]? = some (8, 3) ∧ w.invoked[1]? = some (8, .system 32) := by
  intro before after
  have h := nothing_after_failed_write (before ++ .written 0 1 (.system 32) :: after) _ (by decide)
    rfl
  have hthere := h.2.2 before 0 1 (.system 32) after _ rfl nofun rfl
  exact ⟨_, _, rfl, rfl, h.1, hthere.1, hthere.2 rfl 1 8 3 rfl (by decide)⟩

/-- A call waits behind the write that fails: its byte is sent, the byte of the failed write never
was, and its handler is told of a success. -/
theorem nothing_after_failed_write_queue :
    let before : List (Event Nat) := [.append [1], .sendBuffer 7, .append [2], .sendBuffer 8]
    let after : List (Event Nat) := [.proceed, .proceed, .proceed, .written 0 1 .success,
      .proceed, .proceed]
    ∃ u w : BufferedWriter Nat, run step {} before = some u ∧
      run step {} (before ++ .written 0 0 (.system 32) :: after) = some w ∧
      ¬ w.accepted <+: w.appended ∧ u.appended = [1, 2] ∧ w.handed.drop u.handed.length = [[2]] ∧
      w.invoked[1]? = some (8, .success) :=
  ⟨_, _, rfl, rfl, by decide, rfl, rfl, rfl⟩

end Warpcoil.BufferedWriter
