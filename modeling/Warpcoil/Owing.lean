import Warpcoil.Library.Cuts
import Warpcoil.Matching

/-! Responses to calls that are pending when they begin to arrive. -/
namespace Warpcoil
open Incremental Transition

def Reply.size (reply : Reply) : Nat := reply.bytes.length

theorem Reply.total_size (replies : List Reply) :
    Cuts.total Reply.size replies = (Reply.stream replies).length := by
  rw [Cuts.total, Reply.stream, List.length_flatMap]
  rfl

variable [Platform]

omit [Platform] in
/-- A pending call whose response is awaited stays pending. -/
theorem Books.Step.keeps {b b' : Books} (h : b.Step b') {id : RequestId}
    (hpending : ∃ e ∈ b.pending, e.1 = id)
    (hheader : ∀ n, b'.parsed = b.parsed ++ [⟨.response, .integer n⟩] → UInt64.ofNat n ≠ id) :
    ∃ e ∈ b'.pending, e.1 = id := by
  cases h with
  | @header n key expected reading find =>
    obtain ⟨e, he, rfl⟩ := hpending
    refine ⟨e, (List.mem_eraseP_of_neg ?_).mpr he, rfl⟩
    simpa [eq_comm] using hheader n rfl
  | placed id accepted fresh =>
    obtain ⟨e, he, hkey⟩ := hpending
    exact ⟨e, (Side.perm_insertExpected fresh).mem_iff.mpr (List.mem_cons_of_mem _ he), hkey⟩
  | _ => exact hpending

/-- The responses that have arrived completely and whose results have not been read. -/
def Books.due (replies : List Reply) (received : Nat) (b : Books) : List Reply :=
  (replies.take (Cuts.ended Reply.size replies received)).drop
    (b.parsed.flatMap Parsed.result).length

namespace Side

omit [Platform] in
theorem isPending_iff {s : Side} {id : RequestId} :
    s.isPending id = true ↔ ∃ e ∈ s.books.pending, e.1 = id := by
  rw [isPending, List.any_eq_true]
  refine exists_congr fun e => and_congr_right fun _ => decide_eq_true_iff

/-- The response is for a pending call, and well formed. -/
def awaits (s : Side) (reply : Reply) : Bool :=
  reply.answers s.history.calls && s.isPending reply.id

/-- What a peer may send that answers calls which are pending when the first byte of the
response arrives. -/
def Offered (replies : List Reply) (s : Side) : Event → Prop
  | .call _ _ => s.history.calls.length < 2 ^ 64
  | .read _ bytes => s.history.received ++ bytes <+: Reply.stream replies ∧
      ∀ reply ∈ (replies.take (Cuts.begun Reply.size replies
        (s.history.received ++ bytes).length)).drop ((s.history.parsed.length + 1) / 3),
        s.awaits reply = true
  | .serve | .answer _ _ | .return | .resume | .readError _ _ | .written _ _ _ => True

/-- A side, and the responses that it has begun to receive. -/
structure Owing (servers : InterfaceDefinition) (replies : List Reply) (s : Side) : Prop where
  follows : s.Follows servers replies
  owed : ∀ (k : Nat) (reply : Reply), replies[k]? = some reply →
    (s.history.parsed.length + 1) / 3 ≤ k →
    (Reply.stream (replies.take k)).length < s.history.received.length → s.awaits reply = true

theorem owing_initial (servers : InterfaceDefinition) (replies : List Reply) :
    Owing servers replies {} where
  follows := ⟨regular_initial servers, List.nil_prefix,
    fun _ _ _ hk => (Nat.not_succ_le_zero _ hk).elim, Nat.zero_le _⟩
  owed := fun _ _ _ _ hlt => (Nat.not_lt_zero _ hlt).elim

omit [Platform] in
/-- The type of a response has been received when its header is read. -/
theorem Position.begun {s : Side} {done left : List Reply} {more : List UInt8}
    (h : s.Position done left more) (hparsing : s.parsing = some .response) :
    (Reply.stream done).length < s.history.received.length := by
  have hremains := h.remains
  have htotal := congrArg List.length h.received
  rw [hparsing] at hremains
  generalize hrest : s.unread ++ more = rest at hremains
  cases hremains with
  | @response reply later left_eq =>
    have hlength := congrArg List.length hrest
    have hsplit : Reply.stream (done ++ left) = Reply.stream done ++ Reply.stream left :=
      List.flatMap_append
    rw [hsplit, left_eq, Reply.stream_cons, messageHeader_eq] at htotal
    simp only [List.length_append, List.length_cons] at htotal hlength
    omega

/-- A response that is read was expected when it began to arrive. -/
theorem Owing.fed {servers : InterfaceDefinition} {replies : List Reply} {s : Side} {event : Event}
    (h : s.Owing servers replies) (hoffered : s.Offered replies event) :
    s.Fed replies event := by
  cases event with
  | call name arguments => exact hoffered
  | read index bytes => exact hoffered.1
  | resume =>
    intro hreads reply hreply
    obtain ⟨done, left, more, rfl, hposition⟩ := h.follows.position
    have hparsing : s.parsing = some .response := by
      unfold readsResponse at hreads
      split at hreads
      · next operation stack hstack =>
        split at hreads
        · next hkind _ =>
          rw [(h.follows.reads hposition hstack).1, hkind]
        · cases hreads
      · cases hreads
    have hlength := hposition.length
    rw [hparsing, Continuation.parts] at hlength
    rw [hposition.index] at hreply
    have hawaits := h.owed done.length reply hreply (by omega) (by
      rw [List.take_left' rfl]
      exact hposition.begun hparsing)
    simpa [awaits] using hawaits
  | _ => trivial

/-- The id of the header that is read is the one of the next response. -/
theorem Position.header {servers : InterfaceDefinition} {done left : List Reply} {s : Side}
    {more : List UInt8} (h : s.Position done left more)
    (hfollows : s.Follows servers (done ++ left)) {operation : ParseOperation}
    {stack : List Frame} (hstack : s.stack = .start operation :: stack)
    (hkind : operation.onResult = .response) {n : Nat} {rest : List UInt8}
    (hread : s.reading operation = .complete (.integer n) rest) :
    s.history.parsed.length = 3 * done.length + 1 ∧
      ∃ reply later, left = reply :: later ∧ UInt64.ofNat n = reply.id := by
  obtain ⟨hparsing, hcase⟩ := hfollows.reads h hstack
  have hlength := h.length
  rw [hparsing, hkind, Continuation.parts] at hlength
  refine ⟨hlength, ?_⟩
  rcases hcase with ⟨parser, hmore⟩ | ⟨reply, later, w, tail, hleft, hpart, hcomplete⟩
  · rw [hread] at hmore
    cases hmore
  · rw [hread, Reading.complete.injEq] at hcomplete
    rw [hkind, ← hcomplete.1] at hpart
    obtain rfl : n = reply.id.toNat := by simpa [Reply.part, eq_comm] using hpart
    exact ⟨reply, later, hleft, UInt64.ofNat_toNat⟩

theorem call_inj {a b : Reply} {calls : List Call} (hcalls : calls.length ≤ 2 ^ 64)
    (ha : a.answers calls = true) (hb : b.answers calls = true) (hid : a.id = b.id) :
    a.call = b.call :=
  ofNat_inj (Nat.lt_of_lt_of_le (Reply.lt_of_answers ha) hcalls)
    (Nat.lt_of_lt_of_le (Reply.lt_of_answers hb) hcalls) hid

/-- A later response waits for its call while the header of another one is read. -/
theorem Owing.later_header {servers : InterfaceDefinition} {replies : List Reply} {s : Side}
    (h : s.Owing servers replies) (hdistinct : (replies.map Reply.call).Nodup)
    {operation : ParseOperation} {stack : List Frame} (hstack : s.stack = .start operation :: stack)
    (hkind : operation.onResult = .response) {n : Nat} {rest : List UInt8}
    (hread : s.reading operation = .complete (.integer n) rest) {k : Nat} {reply : Reply}
    (hreply : replies[k]? = some reply) (hk : (s.history.parsed.length + 2) / 3 ≤ k)
    (hanswers : reply.answers s.history.calls = true) : UInt64.ofNat n ≠ reply.id := by
  obtain ⟨done, left, more, rfl, hposition⟩ := h.follows.position
  obtain ⟨hlength, other, later, rfl, hid⟩ :=
    hposition.header h.follows hstack hkind hread
  have hother : other.answers s.history.calls = true :=
    (hposition.answers (h.fed trivial) hstack hkind hread rfl).1
  rw [hid]
  intro hsame
  have hfirst : ((done ++ other :: later).map Reply.call)[done.length]? = some other.call := by
    rw [List.getElem?_map, List.getElem?_append_right (Nat.le_refl _), Nat.sub_self]
    rfl
  have hsecond : ((done ++ other :: later).map Reply.call)[k]? = some other.call := by
    rw [List.getElem?_map, hreply, Option.map_some,
      call_inj h.follows.calls hother hanswers hsame]
  have hindex := (List.getElem?_inj (by simp) hdistinct).mp (hfirst.trans hsecond.symm)
  omega

/-- What has begun to arrive was awaited before, or is so from this read on. -/
theorem Owing.awaits_before {s s' : Side} {servers : InterfaceDefinition} {replies : List Reply}
    {event : Event} (h : s.Owing servers replies) (hoffered : s.Offered replies event)
    (hrecorded : s.Recorded event s') {k : Nat} {reply : Reply} (hreply : replies[k]? = some reply)
    (hk : (s.history.parsed.length + 1) / 3 ≤ k)
    (hbegun : (Reply.stream (replies.take k)).length < s'.history.received.length) :
    s.awaits reply = true := by
  rcases hrecorded.received with hsame | ⟨index, bytes, rfl, hnext⟩
  · exact h.owed k reply hreply hk (hsame ▸ hbegun)
  · refine hoffered.2 reply (List.mem_iff_getElem?.mpr
      ⟨k - (s.history.parsed.length + 1) / 3, ?_⟩)
    have hcount : k < Cuts.begun Reply.size replies (s.history.received ++ bytes).length := by
      rw [Cuts.lt_begun_iff, Reply.total_size, ← hnext]
      exact ⟨(List.getElem?_eq_some_iff.mp hreply).1, hbegun⟩
    rw [List.getElem?_drop, Nat.add_sub_cancel' hk, List.getElem?_take_of_lt hcount, hreply]

theorem Owing.books_step {clients servers : InterfaceDefinition} {replies : List Reply}
    {s s' : Side} {event : Event} (h : s.Owing servers replies)
    (hoffered : s.Offered replies event)
    (hmoved : Moved clients servers s event s') : s.books.Step s'.books := by
  have hregular := h.follows.regular
  refine hregular.calm.moved_books hmoved fun name arguments hcall => ?_
  subst hcall
  exact hregular.books.fresh hoffered

theorem Owing.owed_step {clients servers : InterfaceDefinition} {replies : List Reply}
    {s s' : Side} {event : Event} (h : s.Owing servers replies)
    (hdistinct : (replies.map Reply.call).Nodup) (hoffered : s.Offered replies event)
    (hmoved : Moved clients servers s event s') {k : Nat} {reply : Reply}
    (hreply : replies[k]? = some reply) (hk : (s'.history.parsed.length + 1) / 3 ≤ k)
    (hbegun : (Reply.stream (replies.take k)).length < s'.history.received.length) :
    s'.awaits reply = true := by
  have hrecorded := hmoved.recorded
  have hparsed : (s.history.parsed.length + 1) / 3 ≤ k := by
    rcases hrecorded.parsed with hsame | ⟨_, _, _, _, _, _, _, hnext⟩
    · rwa [← hsame]
    · rw [hnext, List.length_append] at hk
      omega
  have hawaits := h.awaits_before hoffered hrecorded hreply hparsed hbegun
  rw [awaits, Bool.and_eq_true] at hawaits ⊢
  refine ⟨?_, isPending_iff.mpr ((h.books_step hoffered hmoved).keeps (isPending_iff.mp hawaits.2)
    fun n hheader => ?_)⟩
  · rcases hrecorded.calls with hsame | ⟨name, arguments, call, -, hnext⟩
    · rw [hsame]
      exact hawaits.1
    · rw [hnext]
      exact Reply.answers_append hawaits.1 _
  · change s'.history.parsed = s.history.parsed ++ [⟨.response, .integer n⟩] at hheader
    rcases hrecorded.parsed with hsame | ⟨operation, stack, v, rest, rfl, hstack, hreads, hnext⟩
    · rw [hsame] at hheader
      simp at hheader
    · rw [hnext, List.append_cancel_left_eq, List.singleton_inj, Parsed.mk.injEq] at hheader
      obtain ⟨hkind, rfl⟩ := hheader
      rw [hnext, List.length_append, List.length_singleton] at hk
      exact h.later_header hdistinct hstack hkind hreads hreply hk hawaits.1

theorem Owing.moved {clients servers : InterfaceDefinition} {replies : List Reply} {s s' : Side}
    {event : Event} (h : s.Owing servers replies) (hdistinct : (replies.map Reply.call).Nodup)
    (hoffered : s.Offered replies event) (hmoved : Moved clients servers s event s')
    (hregular : s'.Regular servers) : s'.Owing servers replies :=
  ⟨h.follows.moved hmoved hregular (h.fed hoffered),
    fun _ _ => h.owed_step hdistinct hoffered hmoved⟩

omit [Platform] in
theorem Position.done_le {s : Side} {done left : List Reply} {more : List UInt8}
    (h : s.Position done left more) :
    done.length ≤ Cuts.ended Reply.size (done ++ left) s.history.received.length := by
  rw [Cuts.le_ended_iff (by simp), List.take_left' rfl, Reply.total_size]
  exact h.before.length_le

omit [Platform] in
theorem Position.due_eq {s : Side} {done left : List Reply} {more : List UInt8}
    (h : s.Position done left more) :
    s.books.due (done ++ left) s.history.received.length =
      ((done ++ left).take (Cuts.ended Reply.size (done ++ left) s.history.received.length)).drop
        done.length := by
  rw [Books.due, show s.books.parsed = s.history.parsed from rfl, h.results, List.length_map]

/-- Nothing is due when the frames that parse have gone. -/
theorem Owing.no_due {servers : InterfaceDefinition} {replies : List Reply} {s : Side}
    (h : s.Owing servers replies) (hrests : s.Rests) :
    s.books.due replies s.history.received.length = [] := by
  obtain ⟨done, left, more, rfl, hposition⟩ := h.follows.position
  rw [hposition.due_eq, List.drop_eq_nil_iff, List.length_take]
  by_contra hlt
  have hended := Cuts.ended_le_length Reply.size (done ++ left) s.history.received.length
  cases left with
  | nil =>
    rw [List.append_nil] at hended hlt
    omega
  | cons next later =>
    have htake : (done ++ next :: later).take (done.length + 1) = done ++ [next] := by
      rw [List.append_cons, List.take_left' (by simp)]
    have hcount : done.length + 1 ≤
        Cuts.ended Reply.size (done ++ next :: later) s.history.received.length := by omega
    rw [Cuts.le_ended_iff (by simp), htake, Reply.total_size] at hcount
    obtain ⟨hreads, hexpected⟩ := h.follows.drained hposition hrests hcount
    have hparsing : s.parsing = none := by
      rw [parsing, hrests.active, hreads]
      rfl
    have hlength := hposition.length
    rw [hparsing, Continuation.parts] at hlength
    have hnext : (done ++ next :: later)[done.length]? = some next := by
      rw [List.getElem?_append_right (Nat.le_refl _), Nat.sub_self]
      rfl
    have hawaits := h.owed done.length next hnext (by omega) (by
      have hsplit : Reply.stream (done ++ [next]) = Reply.stream done ++ next.bytes := by
        rw [Reply.stream, List.flatMap_append, List.flatMap_singleton]
        rfl
      rw [hsplit, Reply.bytes, messageHeader_eq] at hcount
      rw [List.take_left' rfl]
      simp only [List.length_append, List.length_cons] at hcount
      omega)
    -- nobody is there to whom the next response could belong
    rw [awaits, Bool.and_eq_true, isPending_iff] at hawaits
    obtain ⟨e, he, -⟩ := hawaits.2
    rw [show s.books.pending = s.expectedResponses from rfl, hexpected] at he
    cases he

end Side

end Warpcoil
