import Mathlib.Data.List.Basic
import Mathlib.Tactic.Ring

/-! Unsigned integers as byte lists of a fixed width, most significant byte first. -/
namespace BigEndian

def ofBytes (bs : List UInt8) : Nat :=
  bs.foldl (fun n b => n * 256 + b.toNat) 0

def toBytes : Nat → Nat → List UInt8
  | 0, _ => []
  | w+1, n => UInt8.ofNat (n >>> (8 * w)) :: toBytes w n

@[simp] theorem toBytes_length (w n : Nat) : (toBytes w n).length = w := by
  induction w with
  | zero => rfl
  | succ w ih => simp [toBytes, ih]

@[simp] theorem ofBytes_nil : ofBytes [] = 0 := rfl

theorem ofBytes_append_singleton (bs : List UInt8) (b : UInt8) :
    ofBytes (bs ++ [b]) = ofBytes bs * 256 + b.toNat := by
  simp [ofBytes, List.foldl_append]

theorem foldl_offset (bs : List UInt8) (n : Nat) :
    bs.foldl (fun n b => n * 256 + b.toNat) n = n * 256 ^ bs.length + ofBytes bs := by
  induction bs generalizing n with
  | nil => simp
  | cons b bs ih =>
    simp only [ofBytes, List.foldl_cons, List.length_cons]
    rw [ih (n * 256 + b.toNat), ih (0 * 256 + b.toNat)]
    ring

theorem ofBytes_cons (b : UInt8) (bs : List UInt8) :
    ofBytes (b :: bs) = b.toNat * 256 ^ bs.length + ofBytes bs := by
  have h := foldl_offset bs b.toNat
  simpa [ofBytes] using h

theorem ofBytes_lt (bs : List UInt8) : ofBytes bs < 256 ^ bs.length := by
  induction bs with
  | nil => simp
  | cons b bs ih =>
    have hb : b.toNat + 1 ≤ 256 := b.toNat_lt
    rw [ofBytes_cons, List.length_cons]
    calc
      b.toNat * 256 ^ bs.length + ofBytes bs < (b.toNat + 1) * 256 ^ bs.length := by
        rw [Nat.add_mul, Nat.one_mul]; omega
      _ ≤ 256 * 256 ^ bs.length := Nat.mul_le_mul_right _ hb
      _ = 256 ^ (bs.length + 1) := by ring

theorem shiftRight_eight_mul (n w : Nat) : n >>> (8 * w) = n / 256 ^ w := by
  rw [Nat.shiftRight_eq_div_pow, Nat.pow_mul]

theorem ofBytes_toBytes_mod (w n : Nat) : ofBytes (toBytes w n) = n % 256 ^ w := by
  induction w with
  | zero => simp [toBytes, Nat.mod_one]
  | succ w ih =>
    rw [toBytes, ofBytes_cons, ih, toBytes_length, shiftRight_eight_mul, UInt8.toNat_ofNat']
    have h := Nat.mod_mul (x := n) (a := 256 ^ w) (b := 256)
    rw [← Nat.pow_succ] at h
    rw [h]
    ring

/-- A number that fits the width survives the trip through its bytes. -/
theorem ofBytes_toBytes (w n : Nat) (h : n < 256 ^ w) : ofBytes (toBytes w n) = n := by
  rw [ofBytes_toBytes_mod, Nat.mod_eq_of_lt h]

theorem toBytes_add_mul (w k n : Nat) : toBytes w (k * 256 ^ w + n) = toBytes w n := by
  induction w generalizing k with
  | zero => rfl
  | succ w ih =>
    have hk : k * 256 ^ (w + 1) + n = (k * 256) * 256 ^ w + n := by ring
    simp only [toBytes]
    rw [hk, ih (k * 256), shiftRight_eight_mul, shiftRight_eight_mul, Nat.add_comm,
      Nat.add_mul_div_right _ _ (Nat.pow_pos (by decide))]
    congr 1
    apply UInt8.toNat_inj.mp
    simp [UInt8.toNat_ofNat']

theorem toBytes_mod (w n : Nat) : toBytes w (n % 256 ^ w) = toBytes w n := by
  have h := toBytes_add_mul w (n / 256 ^ w) (n % 256 ^ w)
  rw [Nat.div_add_mod'] at h
  exact h.symm

/-- A number in two parts, the upper one first. -/
theorem toBytes_add (v w n : Nat) :
    toBytes (v + w) n = toBytes v (n / 256 ^ w) ++ toBytes w n := by
  induction v with
  | zero => simp [toBytes]
  | succ v ih =>
    rw [Nat.add_right_comm, toBytes, toBytes, ih, shiftRight_eight_mul, shiftRight_eight_mul,
      Nat.div_div_eq_div_mul, ← Nat.pow_add, Nat.add_comm w v]
    rfl

/-- Every byte list is the encoding of the number it denotes. -/
theorem toBytes_ofBytes (bs : List UInt8) : toBytes bs.length (ofBytes bs) = bs := by
  induction bs with
  | nil => rfl
  | cons b bs ih =>
    have hlt := ofBytes_lt bs
    rw [List.length_cons, toBytes, ofBytes_cons, toBytes_add_mul, ih, shiftRight_eight_mul,
      Nat.add_comm, Nat.add_mul_div_right _ _ (Nat.pow_pos (by decide)), Nat.div_eq_of_lt hlt]
    simp

end BigEndian
