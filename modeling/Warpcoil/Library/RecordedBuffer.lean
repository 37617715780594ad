import Mathlib.Data.List.Basic
import Mathlib.Data.List.Nodup

/-! A buffer of fixed size that is written at given offsets and records every position it
writes, and what follows from writing it from the front to the end. -/
namespace RecordedBuffer
variable {β : Type*}

structure Buffer (β : Type*) where
  contents : List β
  written : List Nat := []
deriving DecidableEq, Repr

/-- A write that does not fit is refused. -/
def Buffer.write (buffer : Buffer β) (offset : Nat) (data : List β) : Option (Buffer β) :=
  if offset + data.length ≤ buffer.contents.length then
    some { contents := buffer.contents.take offset ++ data ++
             buffer.contents.drop (offset + data.length),
           written := buffer.written ++ List.range' offset data.length }
  else none

/-- The buffer of `size` elements has been written once from its front, with `front`. -/
structure Filled (buffer : Buffer β) (size : Nat) (front : List β) : Prop where
  length : buffer.contents.length = size
  contents : front <+: buffer.contents
  written : buffer.written = List.range front.length

theorem Filled.empty {buffer : Buffer β} (h : buffer.written = []) :
    Filled buffer buffer.contents.length [] :=
  ⟨rfl, List.nil_prefix, h⟩

theorem Filled.length_le {buffer : Buffer β} {size : Nat} {front : List β}
    (h : Filled buffer size front) : front.length ≤ size :=
  h.length ▸ h.contents.length_le

/-- Going on where the last write ended. -/
theorem Filled.write {buffer : Buffer β} {size : Nat} {front data : List β}
    (h : Filled buffer size front) (hsize : front.length + data.length ≤ size) :
    ∃ buffer', buffer.write front.length data = some buffer' ∧
      Filled buffer' size (front ++ data) := by
  obtain ⟨rest, hrest⟩ := h.contents
  have hlength : front.length + rest.length = size := by
    rw [← h.length, ← hrest, List.length_append]
  refine ⟨_, if_pos (h.length ▸ hsize), ?_, ?_, ?_⟩
  · dsimp only
    rw [← hrest, List.take_left', List.length_append, List.length_append, List.length_drop,
      List.length_append]
    · omega
    · rfl
  · dsimp only
    rw [← hrest, List.take_left' rfl]
    exact List.prefix_append _ _
  · dsimp only
    rw [h.written, List.length_append, List.range_eq_range', List.range_eq_range',
      ← List.range'_append_1, Nat.zero_add]

/-- A buffer that has been filled has every element written once, and nothing else. -/
theorem Filled.full {buffer : Buffer β} {front : List β}
    (h : Filled buffer front.length front) :
    buffer.contents = front ∧ buffer.written.length = buffer.contents.length ∧
      ∀ i, i < buffer.contents.length → buffer.written.count i = 1 := by
  have hcontents : buffer.contents = front := (h.contents.eq_of_length h.length.symm).symm
  refine ⟨hcontents, ?_, fun i hi => ?_⟩
  · rw [h.written, List.length_range, hcontents]
  · rw [h.written, List.count_eq_one_of_mem List.nodup_range]
    rw [List.mem_range, ← hcontents]
    exact hi

/-! Writes that belong behind each other, some of which go to the front of the buffer instead. -/

structure Piece (β : Type*) where
  astray : Bool
  data : List β

def writeAll (at_ : Nat) : List (Piece β) → Buffer β → Option (Buffer β)
  | [], buffer => some buffer
  | piece :: pieces, buffer =>
    (buffer.write (if piece.astray then 0 else at_) piece.data).bind
      (writeAll (at_ + piece.data.length) pieces)

/-- The positions that they write. -/
def positions (at_ : Nat) : List (Piece β) → List Nat
  | [] => []
  | piece :: pieces =>
    List.range' (if piece.astray then 0 else at_) piece.data.length ++
      positions (at_ + piece.data.length) pieces

/-- `data` has been written at `at_`, all of it and nothing else. -/
structure Places (buffer buffer' : Buffer β) (at_ : Nat) (data : List β) : Prop where
  contents : buffer'.contents =
    buffer.contents.take at_ ++ data ++ buffer.contents.drop (at_ + data.length)
  written : ∃ more, buffer'.written = buffer.written ++ more ∧
    ∀ i, i ∈ more ↔ at_ ≤ i ∧ i < at_ + data.length

/-- Nothing that is written goes astray. -/
def Settled (pieces : List (Piece β)) : Prop :=
  ∀ piece ∈ pieces, piece.astray = true → piece.data = []

/-- Nothing does, or only what belongs to the front of the buffer anyway. -/
def InPlace (at_ : Nat) (pieces : List (Piece β)) : Prop :=
  Settled pieces ∨ at_ = 0 ∧ ∃ before piece after, pieces = before ++ piece :: after ∧
    (∀ other ∈ before, other.data = []) ∧ Settled after

theorem Places.nil (buffer : Buffer β) (at_ : Nat) : Places buffer buffer at_ [] := by
  refine ⟨?_, [], (List.append_nil _).symm, fun i => ?_⟩
  · rw [List.append_nil, List.length_nil, Nat.add_zero, List.take_append_drop]
  · constructor
    · intro hi
      cases hi
    · rintro ⟨hlow, hhigh⟩
      rw [List.length_nil] at hhigh
      omega

theorem Places.length {buffer buffer' : Buffer β} {at_ : Nat} {data : List β}
    (h : Places buffer buffer' at_ data) (hsize : at_ + data.length ≤ buffer.contents.length) :
    buffer'.contents.length = buffer.contents.length := by
  rw [h.contents, List.length_append, List.length_append, List.length_take, List.length_drop]
  omega

/-- What has been placed can be told from the buffers. -/
theorem Places.data_eq {buffer buffer' : Buffer β} {at_ : Nat} {data data' : List β}
    (h : Places buffer buffer' at_ data) (h' : Places buffer buffer' at_ data') :
    data = data' := by
  obtain ⟨more, hmore, hmem⟩ := h.written
  obtain ⟨more', hmore', hmem'⟩ := h'.written
  obtain rfl := List.append_cancel_left (hmore.symm.trans hmore')
  have hiff (i : Nat) := (hmem i).symm.trans (hmem' i)
  have hlength : data.length = data'.length := by
    have hfirst := hiff (at_ + data.length)
    have hsecond := hiff (at_ + data'.length)
    omega
  have hcontents := h.contents.symm.trans h'.contents
  rw [hlength] at hcontents
  exact List.append_cancel_left (List.append_cancel_right hcontents)

theorem write_places {buffer : Buffer β} {at_ : Nat} {data : List β}
    (hsize : at_ + data.length ≤ buffer.contents.length) :
    ∃ buffer', buffer.write at_ data = some buffer' ∧ Places buffer buffer' at_ data ∧
      buffer'.written = buffer.written ++ List.range' at_ data.length := by
  refine ⟨_, if_pos hsize, ⟨rfl, _, rfl, fun i => ?_⟩, rfl⟩
  rw [List.mem_range'_1]

theorem write_nil (buffer : Buffer β) : buffer.write 0 [] = some buffer := by
  simp [Buffer.write]

theorem Places.append {buffer middle last : Buffer β} {at_ : Nat} {data more : List β}
    (h : Places buffer middle at_ data) (h' : Places middle last (at_ + data.length) more)
    (hsize : at_ + data.length ≤ buffer.contents.length) :
    Places buffer last at_ (data ++ more) := by
  obtain ⟨first, hfirst, hfirst'⟩ := h.written
  obtain ⟨second, hsecond, hsecond'⟩ := h'.written
  have hfront : (buffer.contents.take at_ ++ data).length = at_ + data.length := by
    rw [List.length_append, List.length_take, Nat.min_eq_left (by omega)]
  refine ⟨?_, first ++ second, ?_, fun i => ?_⟩
  · rw [h'.contents, h.contents, List.take_left' hfront, ← hfront, List.drop_append, hfront,
      Nat.add_sub_cancel_left, List.drop_of_length_le (by omega), List.nil_append, List.drop_drop,
      List.length_append, Nat.add_assoc, List.append_assoc, List.append_assoc, List.append_assoc,
      List.append_assoc]
  · rw [hsecond, hfirst, List.append_assoc]
  · rw [List.mem_append, hfirst', hsecond', List.length_append]
    omega

theorem writeAll_append (at_ : Nat) (xs ys : List (Piece β)) (buffer : Buffer β) :
    writeAll at_ (xs ++ ys) buffer = (writeAll at_ xs buffer).bind
      (writeAll (at_ + (xs.flatMap Piece.data).length) ys) := by
  induction xs generalizing at_ buffer with
  | nil => rfl
  | cons piece pieces ih =>
    rw [List.cons_append, writeAll, writeAll, Option.bind_assoc, List.flatMap_cons,
      List.length_append, ← Nat.add_assoc]
    congr 1
    funext middle
    exact ih _ _

/-- What fits into the buffer is written somewhere. -/
theorem writeAll_written {at_ : Nat} {pieces : List (Piece β)} {buffer : Buffer β}
    (hsize : at_ + (pieces.flatMap Piece.data).length ≤ buffer.contents.length) :
    ∃ buffer', writeAll at_ pieces buffer = some buffer' ∧
      buffer'.written = buffer.written ++ positions at_ pieces := by
  induction pieces generalizing at_ buffer with
  | nil => exact ⟨buffer, rfl, (List.append_nil _).symm⟩
  | cons piece pieces ih =>
    rw [List.flatMap_cons, List.length_append] at hsize
    have hfits : (if piece.astray then 0 else at_) + piece.data.length ≤
        buffer.contents.length := by
      split_ifs <;> omega
    obtain ⟨middle, hmiddle, hplaces, hwritten⟩ := write_places hfits
    have hlength := hplaces.length hfits
    obtain ⟨last, hlast, hrest⟩ := @ih (at_ + piece.data.length) middle (by omega)
    refine ⟨last, ?_, ?_⟩
    · rw [writeAll, hmiddle, Option.bind_some, hlast]
    · rw [hrest, hwritten, positions, List.append_assoc]

theorem Settled.writeAll {at_ : Nat} {pieces : List (Piece β)} (h : Settled pieces)
    {buffer : Buffer β}
    (hsize : at_ + (pieces.flatMap Piece.data).length ≤ buffer.contents.length) :
    ∃ buffer', RecordedBuffer.writeAll at_ pieces buffer = some buffer' ∧
      Places buffer buffer' at_ (pieces.flatMap Piece.data) := by
  induction pieces generalizing at_ buffer with
  | nil => exact ⟨buffer, rfl, .nil buffer at_⟩
  | cons piece pieces ih =>
    rw [List.flatMap_cons, List.length_append] at hsize
    obtain ⟨middle, hmiddle, hplaces⟩ : ∃ middle,
        buffer.write (if piece.astray then 0 else at_) piece.data = some middle ∧
          Places buffer middle at_ piece.data := by
      by_cases hastray : piece.astray = true
      · have hnil := h piece List.mem_cons_self hastray
        rw [if_pos hastray, hnil, write_nil]
        exact ⟨buffer, rfl, .nil buffer at_⟩
      · rw [if_neg hastray]
        obtain ⟨middle, hmiddle, hplaces, -⟩ :=
          @write_places β buffer at_ piece.data (by omega)
        exact ⟨middle, hmiddle, hplaces⟩
    have hlength := hplaces.length (by omega)
    obtain ⟨last, hlast, hrest⟩ := @ih (at_ + piece.data.length)
      (fun other hother => h other (List.mem_cons_of_mem _ hother)) middle (by omega)
    refine ⟨last, ?_, ?_⟩
    · rw [RecordedBuffer.writeAll, hmiddle, Option.bind_some, hlast]
    · rw [List.flatMap_cons]
      exact hplaces.append hrest (by omega)

/-- The position is that of one of the pieces. -/
theorem mem_positions {at_ i : Nat} {pieces : List (Piece β)} (h : i ∈ positions at_ pieces) :
    ∃ before piece after, pieces = before ++ piece :: after ∧
      (if piece.astray then 0 else at_ + (before.flatMap Piece.data).length) ≤ i ∧
      i < (if piece.astray then 0 else at_ + (before.flatMap Piece.data).length) +
        piece.data.length := by
  induction pieces generalizing at_ with
  | nil => cases h
  | cons piece pieces ih =>
    rcases List.mem_append.mp h with hfirst | hrest
    · rw [List.mem_range'_1] at hfirst
      exact ⟨[], piece, pieces, rfl, hfirst⟩
    · obtain ⟨before, other, after, rfl, hi⟩ := ih hrest
      refine ⟨piece :: before, other, after, rfl, ?_⟩
      rwa [List.flatMap_cons, List.length_append, ← Nat.add_assoc]

theorem mem_positions_astray {at_ : Nat} {pieces : List (Piece β)} {piece : Piece β}
    (h : piece ∈ pieces) (hastray : piece.astray = true) (hne : piece.data ≠ []) :
    0 ∈ positions at_ pieces := by
  induction pieces generalizing at_ with
  | nil => cases h
  | cons first pieces ih =>
    rcases List.mem_cons.mp h with rfl | hrest
    · refine List.mem_append_left _ ?_
      rw [if_pos hastray, List.mem_range'_1]
      exact ⟨Nat.le_refl 0, (Nat.zero_add _).symm ▸ List.length_pos_iff.mpr hne⟩
    · exact List.mem_append_right _ (ih hrest)

/-- There is a last piece that goes astray. -/
theorem exists_last_astray {pieces : List (Piece β)} (h : ¬ Settled pieces) :
    ∃ before piece after, pieces = before ++ piece :: after ∧ piece.astray = true ∧
      piece.data ≠ [] ∧ Settled after := by
  induction pieces with
  | nil => exact (h nofun).elim
  | cons piece pieces ih =>
    by_cases hrest : Settled pieces
    · refine ⟨[], piece, pieces, rfl, ?_, ?_, hrest⟩
      · by_contra hastray
        refine h fun other hother hother' => ?_
        rcases List.mem_cons.mp hother with rfl | hmem
        · exact (hastray hother').elim
        · exact hrest other hmem hother'
      · intro hnil
        refine h fun other hother hother' => ?_
        rcases List.mem_cons.mp hother with rfl | hmem
        · exact hnil
        · exact hrest other hmem hother'
    · obtain ⟨before, other, after, rfl, hother⟩ := ih hrest
      exact ⟨piece :: before, other, after, rfl, hother⟩

/-- Whether the writes amount to one write of all the data is decided by what goes astray. -/
theorem writeAll_places_iff {at_ : Nat} {pieces : List (Piece β)} {buffer buffer' : Buffer β}
    (hsize : at_ + (pieces.flatMap Piece.data).length ≤ buffer.contents.length)
    (hwrite : writeAll at_ pieces buffer = some buffer') :
    Places buffer buffer' at_ (pieces.flatMap Piece.data) ↔ InPlace at_ pieces := by
  constructor
  · intro hplaces
    by_cases hsettled : Settled pieces
    · exact .inl hsettled
    obtain ⟨before, piece, after, rfl, hastray, hne, hafter⟩ := exists_last_astray hsettled
    obtain ⟨buffer'', hwrite', hwritten⟩ := writeAll_written hsize
    obtain rfl := Option.some.inj (hwrite.symm.trans hwrite')
    obtain ⟨more, hmore, hmem⟩ := hplaces.written
    obtain rfl := List.append_cancel_left (hmore.symm.trans hwritten)
    have hpos := List.length_pos_iff.mpr hne
    have hzero : at_ = 0 := by
      have hfront := (hmem 0).mp (mem_positions_astray (by simp) hastray hne)
      omega
    subst hzero
    refine .inr ⟨rfl, before, piece, after, rfl, ?_, hafter⟩
    -- the last position of the piece is written by a piece that covers all before it
    have hlast := (hmem ((before.flatMap Piece.data).length + piece.data.length - 1)).mpr (by
      rw [List.flatMap_append, List.flatMap_cons, List.length_append, List.length_append]
      omega)
    obtain ⟨front, other, back, heq, hlow, hhigh⟩ := mem_positions hlast
    have hnone : (before.flatMap Piece.data).length = 0 := by
      rcases List.append_eq_append_iff.mp heq with ⟨middle, hfront, hback⟩ | ⟨middle, hfront, hback⟩
      · cases middle with
        | nil =>
          obtain ⟨rfl, -⟩ := List.cons.inj hback
          rw [if_pos hastray] at hhigh
          omega
        | cons first middle =>
          obtain ⟨rfl, rfl⟩ := List.cons.inj hback
          rw [hfront, List.flatMap_append, List.flatMap_cons, List.length_append,
            List.length_append] at hlow
          split_ifs at hlow hhigh with hother
          · rw [hafter other (by simp) hother, List.length_nil] at hhigh
            omega
          · rw [Nat.zero_add] at hlow
            omega
      · cases middle with
        | nil =>
          obtain ⟨rfl, -⟩ := List.cons.inj hback
          rw [if_pos hastray] at hhigh
          omega
        | cons first middle =>
          obtain ⟨rfl, rfl⟩ := List.cons.inj hback
          have hlength := congrArg (fun xs => (xs.flatMap Piece.data).length) hfront
          simp only [List.flatMap_append, List.flatMap_cons, List.length_append] at hlength
          split_ifs at hhigh
          · omega
          · rw [Nat.zero_add] at hhigh
            omega
    intro other hother
    exact List.flatMap_eq_nil_iff.mp (List.length_eq_zero_iff.mp hnone) other hother
  · rintro (hsettled | ⟨rfl, before, piece, after, rfl, hbefore, hafter⟩)
    · obtain ⟨buffer'', hwrite', hplaces⟩ := hsettled.writeAll hsize
      obtain rfl := Option.some.inj (hwrite.symm.trans hwrite')
      exact hplaces
    · have hnone : before.flatMap Piece.data = [] := List.flatMap_eq_nil_iff.mpr hbefore
      rw [List.flatMap_append, hnone, List.nil_append, List.flatMap_cons, List.length_append,
        Nat.zero_add] at hsize
      have hsettled : Settled before := fun other hother _ => hbefore other hother
      have hempty : 0 + (before.flatMap Piece.data).length ≤ buffer.contents.length := by
        rw [hnone]
        exact Nat.zero_le _
      obtain ⟨first, hfirst, hnothing⟩ := hsettled.writeAll hempty
      have hfirst' : first.contents.length = buffer.contents.length :=
        hnothing.length (by rw [hnone]; exact Nat.zero_le _)
      obtain ⟨middle, hmiddle, hplaces, -⟩ := @write_places β first 0 piece.data (by omega)
      have hmiddle' := hplaces.length (by omega)
      obtain ⟨last, hlast, hrest⟩ := @Settled.writeAll β piece.data.length after hafter middle
        (by omega)
      have hall : writeAll 0 (before ++ piece :: after) buffer = some last := by
        rw [writeAll_append, hfirst, Option.bind_some, hnone, List.length_nil, Nat.add_zero,
          writeAll, ite_self, hmiddle, Option.bind_some, Nat.zero_add, hlast]
      obtain rfl := Option.some.inj (hwrite.symm.trans hall)
      rw [List.flatMap_append, List.flatMap_cons]
      refine hnothing.append ?_ (by rw [hnone]; exact Nat.zero_le _)
      rw [hnone, List.length_nil, Nat.add_zero]
      refine hplaces.append ?_ (by omega)
      rw [Nat.zero_add]
      exact hrest

end RecordedBuffer
