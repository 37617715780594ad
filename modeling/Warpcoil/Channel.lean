import Warpcoil.AsyncStreamAdaptor
import Warpcoil.FailedWrite
import Warpcoil.Outgoing

/-! A `buffered_writer` at one end of a websocket and parsers at the other. A range is written as
some messages, and the bytes of a message are read as if there had been none. -/
namespace Warpcoil
open Incremental Transition
variable {η : Type*}

structure WriteCompletion where
  ec : StreamError
  bytesTransferred : Nat
deriving DecidableEq, Repr

/-- The call operator of `write_operation`. -/
def AsyncStreamAdaptor.writeOperation (ec : StreamError) (bytesTransferred : Nat) :
    WriteCompletion :=
  ⟨ec, if ec.isError then 0 else bytesTransferred⟩

/-- What the handler of `async_write` gets to see. -/
def StreamError.writeError (ec : StreamError) : ErrorCode :=
  if ec.isError then ec.errorCode else .success

/-- `async_write` of a range, which is written by calls of `async_write_some`. `part` is what the
`write_operation` of an outstanding one counts, and `ec` what the last one has completed with. -/
structure RangeWrite where
  data : List UInt8
  totalTransferred : Nat := 0
  part : Option Nat := none
  ec : StreamError := .success
deriving DecidableEq, Repr

namespace RangeWrite

def buffers (w : RangeWrite) (size : Nat) : List UInt8 :=
  (w.data.drop w.totalTransferred).take size

def asyncWriteSome (w : RangeWrite) (size : Nat) : RangeWrite :=
  { w with part := some (w.buffers size).length }

def transfer (w : RangeWrite) (completion : WriteCompletion) : RangeWrite :=
  { w with
    totalTransferred := w.totalTransferred + completion.bytesTransferred
    part := none
    ec := completion.ec }

def begun (w : RangeWrite) : Nat := w.totalTransferred + w.part.getD 0

def rest (w : RangeWrite) : List UInt8 := w.data.drop w.begun

end RangeWrite

/-- Both ends, and the messages on the way. The last three fields only record that the write of a
message has failed, the errors of reads and the bytes of the messages that have been read. -/
structure Channel (η : Type*) where
  writer : BufferedWriter η := {}
  writes : List RangeWrite := []
  transit : List (List UInt8) := []
  receiver : Receiving := Receiving.opened (.empty .tuple) [] [] .cont
  failed : Bool := false
  readErrors : List StreamError := []
  delivered : List UInt8 := []

namespace Channel

/-- The writer has done something, and `async_write` is called for the range that it has handed
over. -/
def follow (c : Channel η) (writer : BufferedWriter η) : Channel η :=
  { c with writer, writes := c.writes ++
      (writer.handed[c.writer.handed.length]?).toList.map fun data => { data } }

/-- `async_write_some`: all buffers are one binary message, which may get on its way or not. -/
def asyncWriteSome (c : Channel η) (index size : Nat) (taken : Bool) : Option (Channel η) :=
  (c.writes[index]?).map fun w => { c with
    writes := c.writes.set index (w.asyncWriteSome size)
    transit := if taken then c.transit ++ [w.buffers size] else c.transit }

def sent (c : Channel η) (index : Nat) (ec : StreamError) : Option (Channel η) :=
  (c.writes[index]?).bind fun w => w.part.map fun size => { c with
    writes := c.writes.set index (w.transfer (AsyncStreamAdaptor.writeOperation ec size))
    failed := c.failed || ec.isError }

def written (c : Channel η) (index : Nat) : Option (Channel η) :=
  (c.writes[index]?).bind fun w =>
    (c.writer.step (.written index w.totalTransferred w.ec.writeError)).map fun writer =>
      { c with writer, writes := c.writes.eraseIdx index }

variable [Platform]

inductive Event (η : Type*) where
  | append (bytes : List UInt8)
  | sendBuffer (onResult : η)
  | proceed
  | asyncWriteSome (index size : Nat) (taken : Bool)
  | sent (index : Nat) (ec : StreamError)
  | written (index : Nat)
  | lost (kept : Nat)
  | beginParseValue (type : ParserType)
  | received
  | readError (ec : StreamError)

def step (c : Channel η) : Event η → Option (Channel η)
  | .append bytes => (c.writer.step (.append bytes)).map c.follow
  | .sendBuffer onResult => (c.writer.step (.sendBuffer onResult)).map c.follow
  | .proceed => (c.writer.step .proceed).map c.follow
  | .asyncWriteSome index size taken => c.asyncWriteSome index size taken
  | .sent index ec => c.sent index ec
  | .written index => c.written index
  | .lost kept => some { c with transit := c.transit.take kept }
  | .beginParseValue type =>
    (c.receiver.step (.beginParseValue type)).map fun receiver => { c with receiver }
  | .received =>
    match c.transit with
    | [] => none
    | payload :: transit =>
      (c.receiver.step (.message .binary payload)).map fun receiver =>
        { c with receiver, transit, delivered := c.delivered ++ payload }
  | .readError ec =>
    (c.receiver.step (.readError ec)).map fun receiver =>
      { c with receiver, readErrors := c.readErrors ++ [ec] }

/-- What `async_write` promises: it writes a range by parts that are not empty, one after the other,
until one of them fails, and completes with its error or when all of the range is written. -/
def composed (c : Channel η) : Event η → Bool
  | .asyncWriteSome index size _ => (c.writes[index]?).all fun w =>
      w.part.isNone && !w.ec.isError && !(w.buffers size).isEmpty
  | .written index => (c.writes[index]?).all fun w =>
      w.part.isNone && (w.ec.isError || w.totalTransferred == w.data.length)
  | .append _ | .sendBuffer _ | .proceed | .sent _ _ | .lost _ | .beginParseValue _ | .received
  | .readError _ => true

/-- What a websocket promises: no message is lost before a write has failed. After that nothing is
sent any more, and after a failed read nothing is received. -/
def reliable (c : Channel η) : Event η → Bool
  | .asyncWriteSome _ _ taken => taken == !c.failed
  | .sent _ ec => !c.failed || ec.isError
  | .lost _ => c.failed
  | .received => c.readErrors.isEmpty
  | .append _ | .sendBuffer _ | .proceed | .written _ | .beginParseValue _ | .readError _ => true

def conforms (c : Channel η) (event : Event η) : Bool := c.composed event && c.reliable event

def Event.type : Event η → Option ParserType
  | .beginParseValue type => some type
  | .append _ | .sendBuffer _ | .proceed | .asyncWriteSome _ _ _ | .sent _ _ | .written _ | .lost _
  | .received | .readError _ => none

end Channel

/-! What the writer hands over, and what becomes of it. -/

namespace RangeWrite
variable {w : RangeWrite} {size : Nat} {ec : StreamError}

theorem begun_of_none (hpart : w.part = none) : w.begun = w.totalTransferred := by
  rw [begun, hpart, Option.getD_none, Nat.add_zero]

theorem begun_asyncWriteSome (htotal : w.totalTransferred ≤ w.data.length) :
    (w.asyncWriteSome size).begun ≤ w.data.length := by
  simp only [begun, asyncWriteSome, buffers, Option.getD_some, List.length_take, List.length_drop]
  omega

theorem rest_asyncWriteSome (hpart : w.part = none) (size : Nat) :
    w.buffers size ++ (w.asyncWriteSome size).rest = w.rest := by
  have hprefix : w.buffers size <+: w.data.drop w.totalTransferred := List.take_prefix _ _
  rw [rest, rest, begun_of_none hpart, begun, asyncWriteSome, Option.getD_some, ← List.drop_drop]
  exact List.prefix_iff_eq_append.mp hprefix

theorem begun_transfer (hpart : w.part = some size) (hec : ec.isError = false) :
    (w.transfer (AsyncStreamAdaptor.writeOperation ec size)).begun = w.begun := by
  simp [begun, transfer, AsyncStreamAdaptor.writeOperation, hpart, hec]

theorem begun_transfer_le (hpart : w.part = some size) :
    (w.transfer (AsyncStreamAdaptor.writeOperation ec size)).begun ≤ w.begun := by
  simp only [begun, transfer, AsyncStreamAdaptor.writeOperation, hpart, Option.getD_some,
    Option.getD_none]
  split <;> omega

theorem rest_eq_nil (hpart : w.part = none) (hall : w.totalTransferred = w.data.length) :
    w.rest = [] := by
  rw [rest, begun_of_none hpart, hall, List.drop_length]

end RangeWrite

namespace BufferedWriter
variable {w v : BufferedWriter η}

/-- What a step hands over is written from then on. -/
structure Hands (w v : BufferedWriter η) (ranges : List (List UInt8)) : Prop where
  handed : v.handed = w.handed ++ ranges
  outstanding : v.outstanding.map PendingWrite.data = w.outstanding.map PendingWrite.data ++ ranges
  single : ranges.length ≤ 1

theorem Hands.nothing (hhanded : v.handed = w.handed)
    (houtstanding : v.outstanding = w.outstanding) : w.Hands v [] :=
  ⟨by rw [hhanded, List.append_nil], by rw [houtstanding, List.append_nil], Nat.zero_le _⟩

theorem Hands.asyncWrite {u : BufferedWriter η} (hhanded : u.handed = w.handed)
    (houtstanding : u.outstanding = w.outstanding) (onResult : List η) :
    w.Hands (u.asyncWrite onResult) [u.buffer] :=
  ⟨by simp [BufferedWriter.asyncWrite, hhanded],
    by simp [BufferedWriter.asyncWrite, houtstanding], Nat.le_refl _⟩

theorem sendBuffer_hands (w : BufferedWriter η) (onResult : η) :
    ∃ ranges, w.Hands (w.sendBuffer onResult) ranges := by
  unfold sendBuffer
  dsimp only
  split
  · exact ⟨_, .asyncWrite (by rfl) (by rfl) _⟩
  · exact ⟨[], .nothing rfl rfl⟩

theorem proceed_hands (h : w.proceed = some v) : ∃ ranges, w.Hands v ranges := by
  unfold proceed at h
  split at h
  · cases h
  · cases h
    exact ⟨[], .nothing rfl rfl⟩
  · cases h
    exact ⟨[], .nothing rfl rfl⟩
  · cases h
    exact ⟨_, .asyncWrite (by rfl) (by rfl) _⟩

theorem step_hands {event : Event η} (h : w.step event = some v)
    (hevent : ∀ index transferred ec, event ≠ .written index transferred ec) :
    ∃ ranges, w.Hands v ranges := by
  cases event with
  | append bytes =>
    cases h
    exact ⟨[], .nothing rfl rfl⟩
  | sendBuffer onResult =>
    simp only [step] at h
    split_ifs at h
    cases h
    exact w.sendBuffer_hands onResult
  | written index transferred ec => exact absurd rfl (hevent index transferred ec)
  | proceed => exact proceed_hands h

theorem Ordered.continues (h : w.Ordered) {queue : Nat} {stack : List (SendFrame η)}
    (hstack : w.stack = .continueSend queue :: stack) : w.buffer ≠ [] := by
  have hnot : ¬ Draining w.stack := by
    rintro (hnil | ⟨handlers, ec, hone⟩)
    · rw [hstack] at hnil; cases hnil
    · rw [hstack] at hone; cases hone
  cases h.phase with
  | idle _ _ drain => exact (hnot drain).elim
  | writing _ _ _ _ _ _ _ drain => exact (hnot drain).elim
  | between _ _ _ _ _ _ buffer => exact buffer

theorem Ordered.outstanding_le (h : w.Ordered) : w.outstanding.length ≤ 1 := by
  cases h.phase with
  | idle _ outstanding | between _ _ _ outstanding => rw [outstanding]; exact Nat.zero_le _
  | writing _ _ _ _ outstanding => rw [outstanding]; exact Nat.le_refl _

theorem written_keeps {index transferred : Nat} {ec : ErrorCode}
    (h : w.step (.written index transferred ec) = some v) :
    v.handed = w.handed ∧ v.outstanding = w.outstanding.eraseIdx index ∧ v.buffer = w.buffer ∧
      v.sent = w.sent ∧ v.invoked = w.invoked ∧ v.stack.length ≤ w.stack.length + 2 := by
  simp only [step] at h
  split at h
  · split_ifs at h
    cases h
    unfold finishSend
    split_ifs <;> exact ⟨rfl, rfl, rfl, rfl, rfl, by simp⟩
  · cases h

end BufferedWriter

namespace Channel
variable {c c' : Channel η} {v : BufferedWriter η}

theorem follow_nothing (hhanded : v.handed = c.writer.handed) :
    c.follow v = { c with writer := v } := by
  simp [follow, hhanded]

theorem follow_range {data : List UInt8} (hhanded : v.handed = c.writer.handed ++ [data]) :
    c.follow v = { c with writer := v, writes := c.writes ++ [{ data }] } := by
  simp [follow, hhanded]

/-- Everything that the writer has handed over is a range of one of the writes, and in their order
the messages read, those on the way and what is left of a range make it up. When a write has failed
the messages are a part of it. -/
structure Carried (c : Channel η) : Prop where
  ordered : c.writer.Ordered
  writes : c.writes.map RangeWrite.data = c.writer.outstanding.map PendingWrite.data
  total : ∀ w ∈ c.writes, w.begun ≤ w.data.length
  failed : ∀ w ∈ c.writes, w.ec.isError = true → c.failed = true
  stream : c.delivered ++ c.transit.flatten <+: c.writer.handed.flatten
  kept : c.failed = false → c.delivered ++ c.transit.flatten ++ c.writes.flatMap RangeWrite.rest =
    c.writer.handed.flatten

theorem carried_initial : Carried ({} : Channel η) where
  ordered := BufferedWriter.ordered_initial
  writes := rfl
  total := by simp
  failed := by simp
  stream := List.prefix_rfl
  kept := fun _ => rfl

namespace Carried

theorem writes_le (h : Carried c) : c.writes.length ≤ 1 := by
  have hlength := congrArg List.length h.writes
  rw [List.length_map, List.length_map] at hlength
  rw [hlength]
  exact h.ordered.outstanding_le

theorem writes_eq (h : Carried c) {index : Nat} {w : RangeWrite}
    (hw : c.writes[index]? = some w) : c.writes = [w] ∧ index = 0 := by
  have hle := h.writes_le
  obtain ⟨hlt, rfl⟩ := List.getElem?_eq_some_iff.mp hw
  obtain rfl : index = 0 := by omega
  obtain ⟨first, hfirst⟩ := List.length_eq_one_iff.mp (show c.writes.length = 1 by omega)
  simp [hfirst]

theorem writes_nil (h : Carried c) {data : List UInt8} (hhands : c.writer.Hands v [data])
    (hordered : v.Ordered) : c.writes = [] := by
  have hlength := congrArg List.length hhands.outstanding
  rw [← h.writes] at hlength
  simp only [List.length_append, List.length_map, List.length_singleton] at hlength
  have hle := hordered.outstanding_le
  exact List.length_eq_zero_iff.mp (by omega)

theorem follow (h : Carried c) {ranges : List (List UInt8)} (hhands : c.writer.Hands v ranges)
    (hordered : v.Ordered) : Carried (c.follow v) := by
  have hhanded := hhands.handed
  have houtstanding := hhands.outstanding
  have hsingle := hhands.single
  cases ranges with
  | nil =>
    rw [List.append_nil] at hhanded houtstanding
    rw [follow_nothing hhanded]
    exact ⟨hordered, h.writes.trans houtstanding.symm, h.total, h.failed, hhanded ▸ h.stream,
      hhanded ▸ h.kept⟩
  | cons data ranges =>
    obtain rfl : ranges = [] := by
      rw [List.length_cons] at hsingle
      exact List.length_eq_zero_iff.mp (by omega)
    have hwrites := h.writes_nil hhands hordered
    have hkept := h.kept
    rw [hwrites, List.flatMap_nil, List.append_nil] at hkept
    rw [← h.writes, hwrites] at houtstanding
    rw [follow_range hhanded, hwrites, List.nil_append]
    refine ⟨hordered, houtstanding.symm, ?_, ?_, ?_, fun hfailed => ?_⟩
    · simp [RangeWrite.begun]
    · simp [StreamError.isError, StreamError.success]
    · refine h.stream.trans ?_
      rw [hhanded, List.flatten_append]
      exact List.prefix_append _ _
    · rw [hhanded, List.flatten_append, ← hkept hfailed]
      simp [RangeWrite.rest, RangeWrite.begun]

theorem set (h : Carried c) {w : RangeWrite} (w' : RangeWrite) (hwrites : c.writes = [w])
    (hdata : w'.data = w.data) (htotal : w'.begun ≤ w'.data.length) {failed : Bool}
    (hfailed : w'.ec.isError = true ∨ c.failed = true → failed = true)
    {transit : List (List UInt8)}
    (hstream : c.delivered ++ transit.flatten <+: c.writer.handed.flatten)
    (hkept : failed = false → transit.flatten ++ w'.rest = c.transit.flatten ++ w.rest) :
    Carried { c with writes := c.writes.set 0 w', transit, failed } := by
  have hbefore := h.writes
  rw [hwrites] at hbefore ⊢
  refine ⟨h.ordered, ?_, ?_, ?_, hstream, fun hnot => ?_⟩
  · simpa [hdata] using hbefore
  · simpa using htotal
  · simpa using fun herror => hfailed (.inl herror)
  · have hnever : c.failed = false := by
      cases hc : c.failed with
      | false => rfl
      | true => exact absurd (hfailed (.inr hc)) (by simp [show failed = false from hnot])
    have hall := h.kept hnever
    rw [hwrites, List.flatMap_singleton, List.append_assoc] at hall
    rw [← hall, List.set_cons_zero, List.flatMap_singleton, List.append_assoc, hkept hnot]

theorem asyncWriteSome (h : Carried c) {index size : Nat} {taken : Bool}
    (hconforms : c.conforms (.asyncWriteSome index size taken : Event η) = true)
    (hs : c.asyncWriteSome index size taken = some c') : Carried c' := by
  obtain ⟨w, hw, rfl⟩ := Option.map_eq_some_iff.mp hs
  rw [conforms, composed, reliable, hw, Option.all_some] at hconforms
  simp only [Bool.and_eq_true, Bool.not_eq_true', Option.isNone_iff_eq_none, beq_iff_eq]
    at hconforms
  obtain ⟨⟨⟨hpart, hec⟩, -⟩, rfl⟩ := hconforms
  obtain ⟨hwrites, rfl⟩ := h.writes_eq hw
  have htotal := h.total w (by rw [hwrites]; exact List.mem_singleton_self w)
  rw [RangeWrite.begun_of_none hpart] at htotal
  refine h.set (w.asyncWriteSome size) hwrites rfl (RangeWrite.begun_asyncWriteSome htotal)
    (fun hor => hor.resolve_left ?_) ?_ ?_
  · exact fun herror => absurd (hec.symm.trans herror) (by simp)
  · cases hfailed : c.failed with
    | true => exact h.stream
    | false =>
      have hkept := h.kept hfailed
      rw [hwrites, List.flatMap_singleton, ← RangeWrite.rest_asyncWriteSome hpart size] at hkept
      exact ⟨_, by simpa using hkept⟩
  · intro hfailed
    rw [hfailed, ← RangeWrite.rest_asyncWriteSome hpart size]
    simp

theorem sent (h : Carried c) {index : Nat} {ec : StreamError} (hs : c.sent index ec = some c') :
    Carried c' := by
  obtain ⟨w, hw, hs⟩ := Option.bind_eq_some_iff.mp hs
  obtain ⟨size, hpart, rfl⟩ := Option.map_eq_some_iff.mp hs
  obtain ⟨hwrites, rfl⟩ := h.writes_eq hw
  have htotal := h.total w (by rw [hwrites]; exact List.mem_singleton_self w)
  refine h.set (w.transfer (AsyncStreamAdaptor.writeOperation ec size)) hwrites rfl
    ((RangeWrite.begun_transfer_le hpart).trans htotal) ?_ h.stream ?_
  · rintro (herror | hfailed)
    · exact Bool.or_eq_true_iff.mpr (.inr herror)
    · exact Bool.or_eq_true_iff.mpr (.inl hfailed)
  · intro hnot
    rw [Bool.or_eq_false_iff] at hnot
    rw [RangeWrite.rest, RangeWrite.begun_transfer hpart hnot.2]
    rfl

theorem written (h : Carried c) {index : Nat}
    (hconforms : c.conforms (.written index : Event η) = true)
    (hs : c.written index = some c') : Carried c' := by
  obtain ⟨w, hw, hs⟩ := Option.bind_eq_some_iff.mp hs
  obtain ⟨v, hv, rfl⟩ := Option.map_eq_some_iff.mp hs
  rw [conforms, composed, hw, Option.all_some] at hconforms
  simp only [Bool.and_eq_true, Bool.or_eq_true, Option.isNone_iff_eq_none, beq_iff_eq]
    at hconforms
  obtain ⟨⟨hpart, hend⟩, -⟩ := hconforms
  obtain ⟨hwrites, rfl⟩ := h.writes_eq hw
  obtain ⟨hhanded, houtstanding, -⟩ := BufferedWriter.written_keeps hv
  have hbefore := h.writes
  rw [hwrites] at hbefore
  refine ⟨BufferedWriter.ordered_step _ _ _ h.ordered hv, ?_, ?_, ?_, hhanded ▸ h.stream, ?_⟩
  · dsimp only
    rw [houtstanding, hwrites]
    cases hout : c.writer.outstanding with
    | nil => rfl
    | cons first rest =>
      rw [hout, List.map_cons, List.map_cons, List.cons.injEq] at hbefore
      exact hbefore.2
  · simp [hwrites]
  · simp [hwrites]
  · intro hfailed
    have hall : w.totalTransferred = w.data.length := by
      refine hend.resolve_left fun herror => ?_
      have hmark := h.failed w (by rw [hwrites]; exact List.mem_singleton_self w) herror
      exact absurd (hmark.symm.trans hfailed) (by simp)
    have hkept := h.kept hfailed
    rw [hwrites, List.flatMap_singleton, RangeWrite.rest_eq_nil hpart hall] at hkept
    simpa [hwrites, hhanded] using hkept

end Carried

variable [Platform]

theorem Carried.step (h : Carried c) {event : Event η} (hconforms : c.conforms event = true)
    (hs : c.step event = some c') : Carried c' := by
  cases event with
  | append | sendBuffer | proceed =>
    rw [Channel.step] at hs
    obtain ⟨v, hv, rfl⟩ := Option.map_eq_some_iff.mp hs
    obtain ⟨ranges, hhands⟩ := BufferedWriter.step_hands hv (by simp)
    exact h.follow hhands (BufferedWriter.ordered_step _ _ _ h.ordered hv)
  | asyncWriteSome index size taken => exact h.asyncWriteSome hconforms hs
  | sent index ec => exact h.sent hs
  | written index => exact h.written hconforms hs
  | lost kept =>
    have hfailed : c.failed = true := hconforms
    cases hs
    refine ⟨h.ordered, h.writes, h.total, h.failed, ?_, fun hnot => ?_⟩
    · refine List.IsPrefix.trans ?_ h.stream
      obtain ⟨rest, hrest⟩ := List.take_prefix kept c.transit
      exact ⟨rest.flatten, by rw [List.append_assoc, ← List.flatten_append, hrest]⟩
    · exact absurd (hfailed.symm.trans hnot) (by simp)
  | beginParseValue type =>
    obtain ⟨receiver, -, rfl⟩ := Option.map_eq_some_iff.mp hs
    exact ⟨h.ordered, h.writes, h.total, h.failed, h.stream, h.kept⟩
  | received =>
    simp only [Channel.step] at hs
    split at hs
    · cases hs
    · next payload transit htransit =>
      obtain ⟨receiver, -, rfl⟩ := Option.map_eq_some_iff.mp hs
      have hsame : c.delivered ++ payload ++ transit.flatten =
          c.delivered ++ c.transit.flatten := by
        rw [htransit, List.flatten_cons, List.append_assoc]
      exact ⟨h.ordered, h.writes, h.total, h.failed, hsame ▸ h.stream, hsame ▸ h.kept⟩
  | readError ec =>
    obtain ⟨receiver, -, rfl⟩ := Option.map_eq_some_iff.mp hs
    exact ⟨h.ordered, h.writes, h.total, h.failed, h.stream, h.kept⟩

theorem Carried.run {events : List (Event η)} (h : Carried c)
    (hconforms : Along Channel.step (fun c event => c.conforms event = true) c events)
    (hrun : run Channel.step c events = some c') : Carried c' :=
  Along.run (fun _ _ _ h hevent hs => h.step hevent hs) h hconforms hrun

/-- What the parsers have been given are the bytes of the messages and then the errors. -/
def Heard (types : List ParserType) (c : Channel η) : Prop :=
  ∃ events, Receiving.Settled { parser := .empty .tuple, buffer := [] } [] events c.receiver ∧
    events.filterMap Receiving.Event.type = types ∧
    events.flatMap Receiving.Event.signals =
      c.delivered.map .byte ++ c.readErrors.map fun ec => .error ec.errorCode

theorem heard_initial : Heard [] ({} : Channel η) :=
  ⟨[], Receiving.settled_opened _ [] [] .cont, rfl, rfl⟩

namespace Heard
variable {types : List ParserType}

theorem step {event : Event η} (h : c.Heard types) (hconforms : c.conforms event = true)
    (hs : c.step event = some c') : c'.Heard (types ++ event.type.toList) := by
  obtain ⟨events, hsettled, htypes, hsignals⟩ := id h
  cases event with
  | append | sendBuffer | proceed =>
    rw [Channel.step] at hs
    obtain ⟨v, -, rfl⟩ := Option.map_eq_some_iff.mp hs
    rw [Event.type, Option.toList_none, List.append_nil]
    exact h
  | asyncWriteSome index size taken =>
    obtain ⟨w, -, rfl⟩ := Option.map_eq_some_iff.mp hs
    rw [Event.type, Option.toList_none, List.append_nil]
    exact h
  | sent index ec =>
    obtain ⟨w, -, hs⟩ := Option.bind_eq_some_iff.mp hs
    obtain ⟨size, -, rfl⟩ := Option.map_eq_some_iff.mp hs
    rw [Event.type, Option.toList_none, List.append_nil]
    exact h
  | written index =>
    obtain ⟨w, -, hs⟩ := Option.bind_eq_some_iff.mp hs
    obtain ⟨v, -, rfl⟩ := Option.map_eq_some_iff.mp hs
    rw [Event.type, Option.toList_none, List.append_nil]
    exact h
  | lost kept =>
    cases hs
    rw [Event.type, Option.toList_none, List.append_nil]
    exact h
  | beginParseValue type =>
    obtain ⟨receiver, hreceiver, rfl⟩ := Option.map_eq_some_iff.mp hs
    exact ⟨_, hsettled.step rfl hreceiver, by simp [htypes, Receiving.Event.type, Event.type],
      by simp [hsignals, Receiving.Event.signals, Receiving.Event.payload, Receiving.Event.error]⟩
  | received =>
    have herrors : c.readErrors = [] := List.isEmpty_iff.mp hconforms
    simp only [Channel.step] at hs
    split at hs
    · cases hs
    · obtain ⟨receiver, hreceiver, rfl⟩ := Option.map_eq_some_iff.mp hs
      rw [herrors, List.map_nil, List.append_nil] at hsignals
      exact ⟨_, hsettled.step rfl hreceiver, by simp [htypes, Receiving.Event.type, Event.type],
        by simp [hsignals, herrors, Receiving.Event.signals, Receiving.Event.payload,
          Receiving.Event.error]⟩
  | readError ec =>
    obtain ⟨receiver, hreceiver, rfl⟩ := Option.map_eq_some_iff.mp hs
    exact ⟨_, hsettled.step rfl hreceiver, by simp [htypes, Receiving.Event.type, Event.type],
      by simp [hsignals, Receiving.Event.signals, Receiving.Event.payload, Receiving.Event.error]⟩

theorem run {events : List (Event η)} (h : c.Heard types)
    (hconforms : Along Channel.step (fun c event => c.conforms event = true) c events)
    (hr : run Channel.step c events = some c') :
    c'.Heard (types ++ events.filterMap Event.type) := by
  induction events generalizing c types with
  | nil =>
    cases hr
    rwa [List.filterMap_nil, List.append_nil]
  | cons event events ih =>
    obtain ⟨t, ht, hrest⟩ := run_cons.mp hr
    have hlast := ih (h.step hconforms.1 ht) (hconforms.2 t ht) hrest
    rw [List.append_assoc] at hlast
    cases htype : event.type <;> simpa [htype, List.filterMap_cons] using hlast

theorem leaves (h : c.Heard types) :
    c.receiver.parsing.Leaves (c.receiver.adaptor.receiveBuffer.map .byte)
      (serve [] [] types (c.delivered.map .byte ++
        c.readErrors.map fun ec => .error ec.errorCode)) := by
  obtain ⟨events, hsettled, htypes, hsignals⟩ := h
  have hleaves := hsettled.leaves
  rwa [Receiving.served, Receiving.stream, hsignals, htypes] at hleaves

end Heard

end Channel

/-! What a stream of values, or a part of it, gives to those who ask for their types. -/

section
variable [Platform] {x : Ty × Value} {values : List (Ty × Value)} {types : List ParserType}

/-- A value that can be sent as one of its type, and read. -/
structure Sendable (x : Ty × Value) : Prop where
  legible : x.1.legible = true
  fits : x.2.fits x.1 = true
  ok : (generateValueSerialization x.1 x.2).ok = true

/-- The bytes that are appended for it. -/
def encoding (x : Ty × Value) : List UInt8 := (generateValueSerialization x.1 x.2).output

def awaitedType (x : Ty × Value) : ParserType := generateParserType x.1

def Served.results : Served → List (Except ErrorCode Value)
  | .resting results _ _ | .waiting results _ _ _ | .failed results _ => results

omit [Platform] in
theorem Parsing.Leaves.results {s : Parsing} {unread : List Signal} {served : Served}
    (h : s.Leaves unread served) (hserved : served.rejected = false) :
    s.results = served.results := by
  cases served with
  | resting results kept rest => exact h.1
  | waiting results parser taken later => exact h.1
  | failed results e => cases hserved

theorem ParserType.parseSignals_bytes (type : ParserType) (bytes : List UInt8) :
    type.parseSignals (bytes.map .byte) = match type.parse bytes with
      | .complete v rest => .complete (.ok v) (rest.map .byte)
      | .more p => .more p
      | .fail e => .fail e := by
  rw [parseSignals, parse]
  cases type.fresh.checkForImmediateCompletion with
  | some v => rfl
  | none => exact read_receive type.fresh bytes

theorem Sendable.parseSignals (h : Sendable x) (signals : List Signal) :
    (awaitedType x).parseSignals ((encoding x).map .byte ++ signals) =
      .complete (.ok x.2) signals := by
  have hparse := Ty.parse_serialized h.legible h.fits h.ok []
  rw [List.append_nil] at hparse
  rw [ParserType.parseSignals_append, ParserType.parseSignals_bytes, awaitedType, encoding, hparse]
  rfl

theorem Sendable.parseSignals_part (h : Sendable x) {bytes more : List UInt8}
    (hpart : bytes ++ more = encoding x) (hmore : more ≠ []) :
    ∃ p, (awaitedType x).parseSignals (bytes.map .byte) = .more p := by
  have hwhole := h.parseSignals []
  rw [List.append_nil, ← hpart, List.map_append, ParserType.parseSignals_append] at hwhole
  cases hread : (awaitedType x).parseSignals (bytes.map .byte) with
  | complete result rest =>
    rw [hread, Reading.resume, Reading.complete.injEq, List.append_eq_nil_iff] at hwhole
    exact (hmore (List.map_eq_nil_iff.mp hwhole.2.2)).elim
  | more p => exact ⟨p, rfl⟩
  | fail e => rw [hread] at hwhole; cases hwhole

/-- The value, or an error of the stream. -/
def Arrives (errors : List ErrorCode) (result : Except ErrorCode Value) (x : Ty × Value) : Prop :=
  result = .ok x.2 ∨ ∃ ec ∈ errors, result = .error ec

omit [Platform] in
theorem Arrives.mono {errors errors' : List ErrorCode} {result : Except ErrorCode Value}
    (h : Arrives errors result x) (hsubset : errors ⊆ errors') : Arrives errors' result x := by
  rcases h with hvalue | ⟨ec, hmem, herror⟩
  · exact .inl hvalue
  · exact .inr ⟨ec, hsubset hmem, herror⟩

/-- Some bytes of the stream of values and then errors give values and then errors. -/
theorem serve_values (hvalues : ∀ x ∈ values, Sendable x)
    (htypes : types <+: values.map awaitedType)
    {bytes : List UInt8} (hbytes : bytes <+: values.flatMap encoding) (errors : List ErrorCode)
    (results : List (Except ErrorCode Value)) :
    (serve [] results types (bytes.map .byte ++ errors.map .error)).rejected = false ∧
      ∃ given, (serve [] results types (bytes.map .byte ++ errors.map .error)).results =
        results ++ given ∧ List.Forall₂ (Arrives errors) given (values.take given.length) := by
  induction values generalizing types bytes errors results with
  | nil =>
    rw [List.map_nil, List.prefix_nil] at htypes
    subst htypes
    exact ⟨rfl, [], (List.append_nil _).symm, .nil⟩
  | cons x values ih =>
    obtain ⟨hx, hvalues⟩ := List.forall_mem_cons.mp hvalues
    cases types with
    | nil => exact ⟨rfl, [], (List.append_nil _).symm, .nil⟩
    | cons type types =>
      rw [List.map_cons, List.cons_prefix_cons] at htypes
      obtain ⟨rfl, htypes⟩ := htypes
      rw [List.flatMap_cons] at hbytes
      -- one more result, and the rest of the stream
      have hnext {result : Except ErrorCode Value} {bytes' : List UInt8} {errors' : List ErrorCode}
          (hresult : Arrives errors result x) (hbytes' : bytes' <+: values.flatMap encoding)
          (herrors : errors' ⊆ errors)
          (hparse : (awaitedType x).parseSignals (bytes.map .byte ++ errors.map .error) =
            .complete result (bytes'.map .byte ++ errors'.map .error)) :
          (serve [] results (awaitedType x :: types)
            (bytes.map .byte ++ errors.map .error)).rejected = false ∧
          ∃ given, (serve [] results (awaitedType x :: types)
            (bytes.map .byte ++ errors.map .error)).results = results ++ given ∧
            List.Forall₂ (Arrives errors) given ((x :: values).take given.length) := by
        rw [serve, ParserType.turn_complete hparse]
        obtain ⟨hserved, given, hgiven, hall⟩ :=
          ih hvalues htypes hbytes' errors' (results ++ [result])
        refine ⟨hserved, result :: given, by rw [hgiven, List.append_assoc]; rfl, ?_⟩
        exact .cons hresult (hall.imp fun _ _ harrives => harrives.mono herrors)
      by_cases hwhole : encoding x <+: bytes
      · obtain ⟨bytes', rfl⟩ := hwhole
        rw [List.prefix_append_right_inj] at hbytes
        refine hnext (.inl rfl) hbytes (List.Subset.refl _) ?_
        rw [List.map_append, List.append_assoc]
        exact hx.parseSignals _
      · -- only an error can end the read that waits for the rest of the value
        have hpart : bytes <+: encoding x :=
          (List.prefix_or_prefix_of_prefix (List.prefix_append _ _) hbytes).resolve_left hwhole
        obtain ⟨more, hmore⟩ := hpart
        obtain ⟨p, hp⟩ := hx.parseSignals_part hmore fun hnil =>
          hwhole ⟨[], by rw [← hmore, hnil, List.append_nil, List.append_nil]⟩
        cases errors with
        | nil =>
          obtain ⟨taken, hturn⟩ := ParserType.turn_more hp
          rw [serve, List.map_nil, List.append_nil, hturn]
          exact ⟨rfl, [], (List.append_nil _).symm, .nil⟩
        | cons ec errors =>
          refine hnext (.inr ⟨ec, List.mem_cons_self, rfl⟩) (List.nil_prefix)
            (List.subset_cons_self ec errors) ?_
          rw [ParserType.parseSignals_append, hp]
          rfl

theorem serve_all (hvalues : ∀ x ∈ values, Sendable x) (htypes : types <+: values.map awaitedType)
    (results : List (Except ErrorCode Value)) :
    ∃ rest, serve [] results types ((values.flatMap encoding).map .byte) =
      .resting (results ++ (values.take types.length).map fun x => .ok x.2) [] rest := by
  induction values generalizing types results with
  | nil =>
    rw [List.map_nil, List.prefix_nil] at htypes
    subst htypes
    exact ⟨_, by rw [serve, List.take_nil, List.map_nil, List.append_nil]⟩
  | cons x values ih =>
    obtain ⟨hx, hvalues⟩ := List.forall_mem_cons.mp hvalues
    cases types with
    | nil => exact ⟨_, by rw [serve, List.length_nil, List.take_zero, List.map_nil,
        List.append_nil]⟩
    | cons type types =>
      rw [List.map_cons, List.cons_prefix_cons] at htypes
      obtain ⟨rfl, htypes⟩ := htypes
      obtain ⟨rest, hrest⟩ := ih hvalues htypes (results ++ [.ok x.2])
      refine ⟨rest, ?_⟩
      rw [serve, List.flatMap_cons, List.map_append, ParserType.turn_complete (hx.parseSignals _)]
      dsimp only
      rw [hrest, List.append_assoc]
      rfl

end

namespace Channel
variable [Platform] {c c' : Channel η} {v : BufferedWriter η}

/-- What the ends, asio and the websocket do by themselves while nothing fails. -/
def Event.internal : Event η → Bool
  | .proceed | .asyncWriteSome _ _ _ | .written _ | .received => true
  | .sent _ ec => !ec.isError
  | .append _ | .sendBuffer _ | .lost _ | .beginParseValue _ | .readError _ => false

omit [Platform] in
theorem Event.type_of_internal {event : Event η} (h : event.internal = true) :
    event.type = none := by
  cases event with
  | beginParseValue type => cases h
  | _ => rfl

/-- Nothing is being written, and there is nothing to read or nobody who reads. -/
def AtRest (c : Channel η) : Prop :=
  c.writer.outstanding = [] ∧ c.writer.stack = [] ∧
    (c.transit = [] ∨ c.receiver.parsing.reading = false)

theorem Carried.write_goes_on (h : Carried c) (hfailed : c.failed = false)
    (hstack : c.writer.stack = []) {w : RangeWrite} (hwrites : c.writes = [w]) :
    ∃ event : Event η, event.internal = true ∧ c.conforms event = true ∧
      (c.step event).isSome = true := by
  have hw : c.writes[0]? = some w := by rw [hwrites, List.getElem?_cons_zero]
  have hmem : w ∈ c.writes := List.mem_of_getElem? hw
  have hec : w.ec.isError = false := by
    cases hec : w.ec.isError with
    | false => rfl
    | true => exact absurd ((h.failed w hmem hec).symm.trans hfailed) (by simp)
  cases hpart : w.part with
  | some size =>
    refine ⟨.sent 0 .success, rfl, ?_, ?_⟩
    · simp [conforms, composed, reliable, hfailed]
    · simp [Channel.step, Channel.sent, hw, hpart]
  | none =>
    have htotal := h.total w hmem
    rw [RangeWrite.begun_of_none hpart] at htotal
    rcases htotal.lt_or_eq with hlt | heq
    · refine ⟨.asyncWriteSome 0 (w.data.length - w.totalTransferred) true, rfl, ?_, ?_⟩
      · have hbuffers : w.buffers (w.data.length - w.totalTransferred) ≠ [] := by
          refine List.ne_nil_of_length_pos ?_
          rw [RangeWrite.buffers, List.length_take, List.length_drop]
          omega
        simp [conforms, composed, reliable, hw, hpart, hec, hfailed, hbuffers]
      · simp [Channel.step, Channel.asyncWriteSome, hw]
    · refine ⟨.written 0, rfl, ?_, ?_⟩
      · simp [conforms, composed, reliable, hw, hpart, heq]
      · have hout := h.writes
        rw [hwrites, List.map_singleton] at hout
        obtain ⟨pending, hpending, hdata⟩ := List.map_eq_singleton_iff.mp hout.symm
        rw [Channel.step, Channel.written, hw, Option.bind_some, Option.isSome_map,
          BufferedWriter.step, hstack, hpending, List.getElem?_cons_zero]
        dsimp only
        rw [if_pos ⟨by rw [heq, hdata], fun _ => by rw [heq, hdata]⟩]
        rfl

theorem Carried.goes_on (h : Carried c) (hfailed : c.failed = false) (herrors : c.readErrors = [])
    (hrest : ¬ c.AtRest) :
    ∃ event : Event η, event.internal = true ∧ c.conforms event = true ∧
      (c.step event).isSome = true := by
  cases hstack : c.writer.stack with
  | cons frame stack =>
    refine ⟨.proceed, rfl, rfl, ?_⟩
    rw [Channel.step, Option.isSome_map, BufferedWriter.step, BufferedWriter.proceed, hstack]
    cases frame with
    | onResult handlers ec => cases handlers <;> rfl
    | continueSend queue => rfl
  | nil =>
    cases hout : c.writer.outstanding with
    | nil =>
      have hreading : ¬ (c.transit = [] ∨ c.receiver.parsing.reading = false) :=
        fun hnot => hrest ⟨hout, hstack, hnot⟩
      rw [not_or, Bool.not_eq_false] at hreading
      obtain ⟨payload, transit, htransit⟩ := List.exists_cons_of_ne_nil hreading.1
      refine ⟨.received, rfl, ?_, ?_⟩
      · simp [conforms, composed, reliable, herrors]
      · simp [Channel.step, htransit, Receiving.step, hreading.2]
    | cons pending outstanding =>
      have hlength := congrArg List.length h.writes
      rw [hout, List.length_map, List.length_map, List.length_cons] at hlength
      have hle := h.writes_le
      obtain ⟨w, hwrites⟩ := List.length_eq_one_iff.mp (show c.writes.length = 1 by omega)
      exact h.write_goes_on hfailed hstack hwrites

theorem Carried.arrived (h : Carried c) {types : List ParserType}
    (hheard : c.Heard types) {values : List (Ty × Value)} (hvalues : ∀ x ∈ values, Sendable x)
    (htypes : types <+: values.map awaitedType)
    (happended : c.writer.appended = values.flatMap encoding) (hflushed : c.writer.Flushed)
    (hfailed : c.failed = false) (herrors : c.readErrors = []) (hrest : c.AtRest) :
    c.receiver.parsing.results = (values.take types.length).map fun x => .ok x.2 := by
  obtain ⟨houtstanding, hstack, hend⟩ := hrest
  have hwrites := h.writes
  rw [houtstanding, List.map_nil, List.map_eq_nil_iff] at hwrites
  -- everything has been put into messages
  have hbytes := h.kept hfailed
  rw [hwrites, List.flatMap_nil, List.append_nil,
    hflushed.buffer_eq h.ordered houtstanding hstack, happended] at hbytes
  obtain ⟨rest, hall⟩ := serve_all hvalues htypes []
  rw [← hbytes, List.nil_append] at hall
  have hleaves := hheard.leaves
  rw [herrors, List.map_nil, List.append_nil] at hleaves
  rcases hend with htransit | hreading
  · rw [htransit, List.flatten_nil, List.append_nil] at hall
    rw [hall] at hleaves
    exact hleaves.1
  · -- what is on the way nobody waits for
    cases hserved : serve [] [] types (c.delivered.map .byte) with
    | resting results kept left =>
      rw [hserved] at hleaves
      have hsame := serve_append_resting hserved (c.transit.flatten.map .byte)
      rw [← List.map_append, hall] at hsame
      rw [hleaves.1]
      cases hsame
      rfl
    | waiting results parser taken later =>
      rw [hserved] at hleaves
      exact absurd (hreading.symm.trans hleaves.2.2.2.1) (by simp)
    | failed results e =>
      have hsame := serve_failed hserved [] (c.transit.flatten.map .byte)
      rw [List.append_nil, ← List.map_append, hall] at hsame
      cases hsame

/-- What is left to do: bytes to be put into messages, writes to be completed, messages to be read
and handlers to be invoked. -/
def work (c : Channel η) : Nat :=
  6 * c.writer.buffer.length + 3 * (c.writes.flatMap RangeWrite.rest).length +
    c.writes.countP (fun w => w.part.isSome) + 3 * c.writes.length + c.transit.length +
    c.writer.stack.length + (c.writer.sent.length - c.writer.invoked.length)

/-- What the ends leave alone while they go on by themselves. -/
structure Kept (c c' : Channel η) : Prop where
  appended : c'.writer.appended = c.writer.appended
  sent : c'.writer.sent = c.writer.sent
  failed : c'.failed = c.failed
  readErrors : c'.readErrors = c.readErrors

omit [Platform] in
theorem Kept.trans {u w : Channel η} (h : u.Kept c) (h' : c.Kept w) : u.Kept w :=
  ⟨h'.appended.trans h.appended, h'.sent.trans h.sent, h'.failed.trans h.failed,
    h'.readErrors.trans h.readErrors⟩

namespace Carried

omit [Platform] in
theorem work_proceed (h : Carried c) (hv : c.writer.proceed = some v) :
    (c.follow v).work < c.work := by
  have hordered := BufferedWriter.ordered_step c.writer .proceed v h.ordered hv
  have hstarts := hordered.invoked_starts.length_le
  rw [List.length_map, List.length_map] at hstarts
  unfold BufferedWriter.proceed at hv
  split at hv
  · cases hv
  · next ec stack hstack =>
    cases hv
    rw [follow_nothing]
    · simp only [work, hstack, List.length_cons]
      omega
    · rfl
  · next handler handlers ec stack hstack =>
    cases hv
    simp only [List.length_append, List.length_singleton] at hstarts
    rw [follow_nothing]
    · simp only [work, hstack, List.length_cons, List.length_append, List.length_nil]
      omega
    · rfl
  · next queue stack hstack =>
    cases hv
    have hbuffer := List.length_pos_iff.mpr (h.ordered.continues hstack)
    have hhands : c.writer.Hands
        (BufferedWriter.continueSend { c.writer with stack } queue) [c.writer.buffer] :=
      .asyncWrite (by rfl) (by rfl) _
    have hwrites := h.writes_nil hhands hordered
    rw [follow_range hhands.handed, hwrites, List.nil_append]
    simp only [work, hwrites, hstack, List.flatMap_singleton, List.flatMap_nil, List.length_cons,
      List.length_nil, List.countP_nil, List.countP_singleton, RangeWrite.rest, RangeWrite.begun,
      BufferedWriter.continueSend, BufferedWriter.asyncWrite, BufferedWriter.prepareSendState]
    simp
    omega

omit [Platform] in
theorem work_asyncWriteSome (h : Carried c) {index size : Nat} {taken : Bool}
    (hconforms : c.conforms (.asyncWriteSome index size taken : Event η) = true)
    (hs : c.asyncWriteSome index size taken = some c') : c.Kept c' ∧ c'.work < c.work := by
  obtain ⟨w, hw, rfl⟩ := Option.map_eq_some_iff.mp hs
  rw [conforms, composed, hw, Option.all_some] at hconforms
  simp only [Bool.and_eq_true, Bool.not_eq_true', Option.isNone_iff_eq_none,
    List.isEmpty_eq_false_iff] at hconforms
  obtain ⟨⟨⟨hpart, -⟩, hbuffers⟩, -⟩ := hconforms
  obtain ⟨hwrites, rfl⟩ := h.writes_eq hw
  have hlength := congrArg List.length (RangeWrite.rest_asyncWriteSome hpart size)
  have hpos := List.length_pos_iff.mpr hbuffers
  rw [List.length_append] at hlength
  refine ⟨⟨rfl, rfl, rfl, rfl⟩, ?_⟩
  have htransit : (if taken then c.transit ++ [w.buffers size] else c.transit).length ≤
      c.transit.length + 1 := by
    split <;> simp
  simp only [work, hwrites, List.set_cons_zero, List.flatMap_singleton, List.length_singleton,
    List.countP_singleton, RangeWrite.asyncWriteSome, hpart, Option.isSome_some,
    Option.isSome_none, Bool.false_eq_true, if_true, if_false] at hlength htransit ⊢
  omega

omit [Platform] in
theorem work_sent (h : Carried c) {index : Nat} {ec : StreamError} (hec : ec.isError = false)
    (hs : c.sent index ec = some c') : c.Kept c' ∧ c'.work < c.work := by
  obtain ⟨w, hw, hs⟩ := Option.bind_eq_some_iff.mp hs
  obtain ⟨size, hpart, rfl⟩ := Option.map_eq_some_iff.mp hs
  obtain ⟨hwrites, rfl⟩ := h.writes_eq hw
  refine ⟨⟨rfl, rfl, by simp [hec], rfl⟩, ?_⟩
  have hrest : (w.transfer (AsyncStreamAdaptor.writeOperation ec size)).rest = w.rest := by
    rw [RangeWrite.rest, RangeWrite.begun_transfer hpart hec]
    rfl
  simp only [work, hwrites, List.set_cons_zero, List.flatMap_singleton, List.length_singleton,
    List.countP_singleton, hrest, hpart, Option.isSome_some, if_true]
  simp [RangeWrite.transfer]

omit [Platform] in
theorem work_written (h : Carried c) {index : Nat} (hs : c.written index = some c') :
    c.Kept c' ∧ c'.work < c.work := by
  obtain ⟨w, hw, hs⟩ := Option.bind_eq_some_iff.mp hs
  obtain ⟨v, hv, rfl⟩ := Option.map_eq_some_iff.mp hs
  obtain ⟨hwrites, rfl⟩ := h.writes_eq hw
  obtain ⟨-, -, hbuffer, hsent, hinvoked, hstack⟩ := BufferedWriter.written_keeps hv
  refine ⟨⟨BufferedWriter.written_appended hv, BufferedWriter.written_sent hv, rfl, rfl⟩, ?_⟩
  simp only [work, hwrites, hbuffer, hsent, hinvoked, List.eraseIdx_cons_zero, List.flatMap_nil,
    List.countP_nil, List.length_cons, List.length_nil]
  omega

end Carried

theorem Carried.internal_step (h : Carried c) {event : Event η} (hinternal : event.internal = true)
    (hconforms : c.conforms event = true) (hs : c.step event = some c') :
    c.Kept c' ∧ c'.work < c.work := by
  cases event with
  | proceed =>
    obtain ⟨v, hv, rfl⟩ := Option.map_eq_some_iff.mp hs
    have hv : c.writer.proceed = some v := hv
    exact ⟨⟨BufferedWriter.proceed_appended hv, BufferedWriter.proceed_sent hv, rfl, rfl⟩,
      h.work_proceed hv⟩
  | asyncWriteSome index size taken => exact h.work_asyncWriteSome hconforms hs
  | sent index ec => exact h.work_sent ((Bool.not_eq_true' _).mp hinternal) hs
  | written index => exact h.work_written hs
  | received =>
    simp only [Channel.step] at hs
    split at hs
    · cases hs
    · next payload transit htransit =>
      obtain ⟨receiver, -, rfl⟩ := Option.map_eq_some_iff.mp hs
      refine ⟨⟨rfl, rfl, rfl, rfl⟩, ?_⟩
      simp only [work, htransit, List.length_cons]
      omega
  | append | sendBuffer | lost | beginParseValue | readError => cases hinternal

theorem Carried.internal_run (h : Carried c) {events : List (Event η)}
    (hinternal : ∀ event ∈ events, event.internal = true)
    (hconforms : Along Channel.step (fun c event => c.conforms event = true) c events)
    (hr : Transition.run Channel.step c events = some c') :
    c.Kept c' ∧ events.length + c'.work ≤ c.work := by
  induction events generalizing c with
  | nil =>
    cases hr
    exact ⟨⟨rfl, rfl, rfl, rfl⟩, (Nat.zero_add _).le⟩
  | cons event events ih =>
    obtain ⟨t, ht, hrest⟩ := run_cons.mp hr
    obtain ⟨hevent, hevents⟩ := List.forall_mem_cons.mp hinternal
    obtain ⟨hkept, hless⟩ := h.internal_step hevent hconforms.1 ht
    obtain ⟨hkept', hle⟩ := ih (h.step hconforms.1 ht) hevents (hconforms.2 t ht) hrest
    refine ⟨hkept.trans hkept', ?_⟩
    rw [List.length_cons]
    omega

/-- However the sender cuts what it appends, and asio what it is given, the parsers get the values
in their order, without one that was not sent, until the websocket fails. -/
theorem values_arrive {values : List (Ty × Value)} (hvalues : ∀ x ∈ values, Sendable x)
    (events : List (Event η)) (c : Channel η)
    (hconforms : Along step (fun c event => conforms c event = true) {} events)
    (hrun : run step {} events = some c) (happended : c.writer.appended <+: values.flatMap encoding)
    (hcalls : events.filterMap Event.type <+: values.map awaitedType) :
    List.Forall₂ (Arrives (c.readErrors.map StreamError.errorCode)) c.receiver.parsing.results
        (values.take c.receiver.parsing.results.length) ∧
      c.delivered ++ c.transit.flatten <+: c.writer.handed.flatten ∧
      (c.failed = false → c.delivered ++ c.transit.flatten ++ c.writes.flatMap RangeWrite.rest ++
        c.writer.buffer = c.writer.appended) := by
  have hcarried := carried_initial.run hconforms hrun
  refine ⟨?_, hcarried.stream, fun hfailed => ?_⟩
  · have hheard := heard_initial.run hconforms hrun
    rw [List.nil_append] at hheard
    have hdelivered : c.delivered <+: values.flatMap encoding :=
      (List.prefix_append _ _).trans (hcarried.stream.trans
        (List.IsPrefix.trans ⟨_, hcarried.ordered.bytes⟩ happended))
    obtain ⟨hserved, given, hgiven, hall⟩ := serve_values hvalues hcalls hdelivered
      (c.readErrors.map StreamError.errorCode) []
    rw [List.map_map] at hserved hgiven
    have hresults : c.receiver.parsing.results = [] ++ given :=
      (hheard.leaves.results hserved).trans hgiven
    rw [hresults, List.nil_append]
    exact hall
  · rw [hcarried.kept hfailed, hcarried.ordered.bytes]

def sentValues : List (Ty × Value) :=
  [(.integer ⟨0, 0xffff⟩, .integer 258), (.utf8 ⟨0, 255⟩, .utf8 [0x61, 0x62, 0x63])]

omit [Platform] in
theorem sentValues_sendable :
    letI := Platform.reference
    ∀ x ∈ sentValues, Sendable x := by
  letI := Platform.reference
  rintro x hx
  rcases List.mem_cons.mp hx with rfl | hx
  · exact ⟨by decide +kernel, by decide +kernel, by decide +kernel⟩
  · rw [List.mem_singleton.mp hx]
    exact ⟨by decide +kernel, by decide +kernel, by decide +kernel⟩

omit [Platform] in
/-- The second range is cut into three messages of 1, 2 and 1 bytes, of which the websocket loses
the last two. -/
theorem values_arrive_lost :
    letI := Platform.reference
    let events : List (Event Nat) := [.append [1, 2], .sendBuffer 0, .asyncWriteSome 0 8 true,
      .beginParseValue (.integer .uint16), .append [3, 0x61, 0x62, 0x63], .sendBuffer 1, .received,
      .sent 0 .success, .written 0, .proceed, .proceed, .proceed, .beginParseValue (.utf8 .uint8),
      .asyncWriteSome 0 1 true, .sent 0 .success, .received, .asyncWriteSome 0 2 true,
      .sent 0 .success, .asyncWriteSome 0 8 true, .sent 0 ⟨104, .system⟩, .lost 0, .written 0,
      .readError ⟨104, .system⟩, .proceed, .proceed]
    ∃ c, run step {} events = some c ∧
      (List.Forall₂ (Arrives (c.readErrors.map StreamError.errorCode)) c.receiver.parsing.results
          (sentValues.take c.receiver.parsing.results.length) ∧
        c.delivered ++ c.transit.flatten <+: c.writer.handed.flatten ∧
        (c.failed = false → c.delivered ++ c.transit.flatten ++
          c.writes.flatMap RangeWrite.rest ++ c.writer.buffer = c.writer.appended)) ∧
      c.receiver.parsing.results = [.ok (.integer 258), .error (.system 104)] ∧
      c.writer.invoked = [(0, .success), (1, .system 104)] := by
  letI := Platform.reference
  intro events
  have hsome : (run step {} events).any (fun c =>
      decide (c.writer.appended <+: sentValues.flatMap encoding) &&
        decide (c.receiver.parsing.results = [.ok (.integer 258), .error (.system 104)]) &&
        decide (c.writer.invoked = [(0, .success), (1, .system 104)])) = true := by decide +kernel
  obtain ⟨c, hrun, hc⟩ := (Option.any_eq_true _ _).mp hsome
  simp only [Bool.and_eq_true, decide_eq_true_eq] at hc
  obtain ⟨⟨happended, hresults⟩, hinvoked⟩ := hc
  exact ⟨c, hrun, values_arrive sentValues_sendable events c (by decide +kernel) hrun happended
    List.prefix_rfl, hresults, hinvoked⟩

/-- When all has been appended and sent, and nothing fails, there is only so much left to do without
user code, and where it stops every value that is waited for has arrived. -/
theorem values_all_arrive {values : List (Ty × Value)} (hvalues : ∀ x ∈ values, Sendable x)
    (events more : List (Event η)) (c c' : Channel η)
    (hconforms : Along step (fun c event => conforms c event = true) {} events)
    (hrun : run step {} events = some c) (happended : c.writer.appended = values.flatMap encoding)
    (hflushed : c.writer.Flushed)
    (hcalls : events.filterMap Event.type <+: values.map awaitedType)
    (hfailed : c.failed = false) (herrors : c.readErrors = [])
    (hinternal : ∀ event ∈ more, event.internal = true)
    (hgoes : Along step (fun c event => conforms c event = true) c more)
    (hmore : run step c more = some c') :
    more.length ≤ c.work ∧
      ((∃ event : Event η, event.internal = true ∧ conforms c' event = true ∧
          (step c' event).isSome = true) ∨
        c'.receiver.parsing.results =
          (values.take (events.filterMap Event.type).length).map fun x => .ok x.2) := by
  have hcarried := carried_initial.run hconforms hrun
  obtain ⟨hkept, hwork⟩ := hcarried.internal_run hinternal hgoes hmore
  have hlast := hcarried.run hgoes hmore
  have hfailed' : c'.failed = false := hkept.failed.trans hfailed
  have herrors' : c'.readErrors = [] := hkept.readErrors.trans herrors
  have hheard := (heard_initial.run hconforms hrun).run hgoes hmore
  rw [List.nil_append, List.filterMap_eq_nil_iff.mpr fun event hevent =>
    Event.type_of_internal (hinternal event hevent), List.append_nil] at hheard
  refine ⟨by omega, ?_⟩
  by_cases hrest : c'.AtRest
  · exact .inr (hlast.arrived hheard hvalues hcalls (hkept.appended.trans happended)
      (hflushed.of_eq hkept.appended hkept.sent) hfailed' herrors' hrest)
  · exact .inl (hlast.goes_on hfailed' herrors' hrest)

omit [Platform] in
/-- After both have been appended. The second one is cut into 1 and 3 bytes. -/
theorem values_all_arrive_two :
    letI := Platform.reference
    let events : List (Event Nat) := [.append [1, 2], .sendBuffer 0, .asyncWriteSome 0 8 true,
      .beginParseValue (.integer .uint16), .append [3, 0x61, 0x62, 0x63], .sendBuffer 1, .received,
      .beginParseValue (.utf8 .uint8)]
    let more : List (Event Nat) := [.sent 0 .success, .written 0, .proceed, .proceed, .proceed,
      .asyncWriteSome 0 1 true, .sent 0 .success, .asyncWriteSome 0 8 true, .received,
      .sent 0 .success, .received, .written 0, .proceed, .proceed]
    ∃ c c', run step {} events = some c ∧ run step c more = some c' ∧
      (more.length ≤ c.work ∧
        ((∃ event : Event Nat, event.internal = true ∧ conforms c' event = true ∧
            (step c' event).isSome = true) ∨
          c'.receiver.parsing.results =
            (sentValues.take (events.filterMap Event.type).length).map fun x => .ok x.2)) ∧
      c'.receiver.parsing.results = [.ok (.integer 258), .ok (.utf8 [0x61, 0x62, 0x63])] := by
  letI := Platform.reference
  intro events more
  have hsome : (run step {} events).any (fun c =>
      decide (c.writer.appended = sentValues.flatMap encoding) &&
        decide (∃ call ∈ c.writer.sent, call.2 = c.writer.appended.length) &&
        decide (c.failed = false) && decide (c.readErrors = []) &&
        decide (Along step (fun c event => conforms c event = true) c more) &&
        (run step c more).any fun c' => decide (c'.receiver.parsing.results =
          [.ok (.integer 258), .ok (.utf8 [0x61, 0x62, 0x63])])) = true := by decide +kernel
  obtain ⟨c, hrun, hc⟩ := (Option.any_eq_true _ _).mp hsome
  simp only [Bool.and_eq_true, decide_eq_true_eq] at hc
  obtain ⟨⟨⟨⟨⟨happended, hflushed⟩, hfailed⟩, herrors⟩, hgoes⟩, hmore⟩ := hc
  obtain ⟨c', hmore, hresults⟩ := (Option.any_eq_true _ _).mp hmore
  exact ⟨c, c', hrun, hmore, values_all_arrive sentValues_sendable events more c c'
    (by decide +kernel) hrun happended (.inr hflushed) List.prefix_rfl hfailed herrors (by decide)
    hgoes hmore, of_decide_eq_true hresults⟩

end Channel

end Warpcoil
