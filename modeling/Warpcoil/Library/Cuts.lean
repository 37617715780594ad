import Mathlib.Data.List.Induction
import Mathlib.Data.List.Nodup
import Mathlib.Algebra.BigOperators.Group.List.Basic
import Mathlib.Algebra.GroupWithZero.Nat

/-! A sequence of items of different sizes, laid end to end and received in pieces that need
not end where an item does. -/
namespace Cuts
variable {α : Type*} (size : α → Nat)

def total (items : List α) : Nat := (items.map size).sum

/-- How many items end within the first `n` units. -/
def ended : List α → Nat → Nat
  | [], _ => 0
  | item :: items, n => if size item ≤ n then ended items (n - size item) + 1 else 0

/-- How many items begin within them. -/
def begun : List α → Nat → Nat
  | [], _ => 0
  | item :: items, n => if n = 0 then 0 else begun items (n - size item) + 1

/-- The items that end behind the first `m` units and within the first `n`. -/
def batch (items : List α) (m n : Nat) : List α :=
  (items.take (ended size items n)).drop (ended size items m)

/-- What each of the pieces completes, when `m` units were received before. -/
def batches (items : List α) : Nat → List Nat → List (List α)
  | _, [] => []
  | m, piece :: pieces => batch size items m (m + piece) :: batches items (m + piece) pieces

variable {size}

@[simp] theorem total_nil : total size [] = 0 := rfl

@[simp] theorem total_cons (item : α) (items : List α) :
    total size (item :: items) = size item + total size items := by
  rw [total, total, List.map_cons, List.sum_cons]

theorem total_append (items more : List α) :
    total size (items ++ more) = total size items + total size more := by
  rw [total, total, total, List.map_append, List.sum_append]

theorem total_take_le (size : α → Nat) (items : List α) {i j : Nat} (h : i ≤ j) :
    total size (items.take i) ≤ total size (items.take j) := by
  have hsplit := List.take_append_drop i (items.take j)
  rw [List.take_take, Nat.min_eq_left h] at hsplit
  rw [← hsplit, total_append]
  exact Nat.le_add_right _ _

theorem le_ended_iff {items : List α} {k n : Nat} (hk : k ≤ items.length) :
    k ≤ ended size items n ↔ total size (items.take k) ≤ n := by
  induction items generalizing k n with
  | nil =>
    obtain rfl : k = 0 := Nat.le_zero.mp hk
    simp
  | cons item items ih =>
    cases k with
    | zero => simp
    | succ k =>
      have hk' : k ≤ items.length := by simpa using hk
      have hrest := ih (n := n - size item) hk'
      rw [ended, List.take_succ_cons, total_cons]
      split_ifs with hfits
      · rw [Nat.add_le_add_iff_right, hrest]
        omega
      · omega

theorem lt_begun_iff {items : List α} {k n : Nat} :
    k < begun size items n ↔ k < items.length ∧ total size (items.take k) < n := by
  induction items generalizing k n with
  | nil => simp [begun]
  | cons item items ih =>
    rw [begun, List.length_cons]
    split_ifs with hzero
    · simp [hzero]
    · cases k with
      | zero => simp [Nat.pos_of_ne_zero hzero]
      | succ k =>
        rw [Nat.add_lt_add_iff_right, ih, List.take_succ_cons, total_cons]
        omega

variable (size) in
theorem ended_le_length (items : List α) (n : Nat) : ended size items n ≤ items.length := by
  induction items generalizing n with
  | nil => exact Nat.le_refl _
  | cons item items ih =>
    have hrest := ih (n - size item)
    rw [ended, List.length_cons]
    split_ifs <;> omega

variable (size) in
theorem ended_mono (items : List α) {m n : Nat} (h : m ≤ n) :
    ended size items m ≤ ended size items n := by
  have hlength := ended_le_length size items m
  have htotal := (le_ended_iff hlength).mp (Nat.le_refl _)
  exact (le_ended_iff hlength).mpr (Nat.le_trans htotal h)

theorem batch_append {items : List α} {l m n : Nat} (hlm : l ≤ m) (hmn : m ≤ n) :
    batch size items l m ++ batch size items m n = batch size items l n := by
  have hl := ended_mono size items hlm
  have hm := ended_mono size items hmn
  have htake : items.take (ended size items m) =
      (items.take (ended size items n)).take (ended size items m) := by
    rw [List.take_take, Nat.min_eq_left hm]
  rw [batch, batch, batch, htake]
  generalize items.take (ended size items n) = received
  obtain ⟨d, hd⟩ := Nat.exists_eq_add_of_le hl
  rw [List.drop_take, hd, Nat.add_sub_cancel_left, ← List.drop_drop, List.take_append_drop]

theorem batches_append (items : List α) (m : Nat) (pieces more : List Nat) :
    batches size items m (pieces ++ more) =
      batches size items m pieces ++ batches size items (m + pieces.sum) more := by
  induction pieces generalizing m with
  | nil => rfl
  | cons piece pieces ih =>
    rw [List.cons_append, batches, batches, ih, List.sum_cons, List.cons_append, Nat.add_assoc]

/-- The pieces complete the items in order. -/
theorem flatten_batches (items : List α) (m : Nat) (pieces : List Nat) :
    (batches size items m pieces).flatten = batch size items m (m + pieces.sum) := by
  induction pieces generalizing m with
  | nil => simp [batches, batch]
  | cons piece pieces ih =>
    rw [batches, List.flatten_cons, ih, List.sum_cons, ← Nat.add_assoc]
    exact batch_append (by omega) (by omega)

theorem reverse_eq_self_iff {items : List α} (h : items.Nodup) :
    items.reverse = items ↔ items.length ≤ 1 := by
  constructor
  · intro hreverse
    cases items with
    | nil => exact Nat.zero_le _
    | cons item items =>
      -- the first item is also the last one
      cases items using List.reverseRecOn with
      | nil => exact Nat.le_refl _
      | append_singleton rest last =>
        rw [← List.cons_append, List.reverse_append, List.reverse_singleton, List.singleton_append,
          List.cons_append, List.cons.injEq] at hreverse
        rw [hreverse.1] at h
        simp at h
  · intro hlength
    match items, hlength with
    | [], _ => rfl
    | [_], _ => rfl

/-- Batches that are taken in reverse leave the order alone only when they have one item. -/
theorem flatMap_reverse_eq_flatten_iff {batches : List (List α)} (h : batches.flatten.Nodup) :
    batches.flatMap List.reverse = batches.flatten ↔ ∀ batch ∈ batches, batch.length ≤ 1 := by
  induction batches with
  | nil => simp
  | cons batch batches ih =>
    rw [List.flatten_cons, List.nodup_append] at h
    rw [List.flatMap_cons, List.flatten_cons, List.forall_mem_cons, ← reverse_eq_self_iff h.1,
      ← ih h.2.1]
    constructor
    · intro heq
      exact List.append_inj heq (List.length_reverse)
    · rintro ⟨hbatch, hrest⟩
      rw [hbatch, hrest]

end Cuts
