import Warpcoil.Types

/-! Values of the generated C++ types, and what the code takes from `utf8/checked.h` and
from the standard library's containers. -/
namespace Warpcoil

inductive Value where
  | integer (n : Nat)
  | utf8 (text : List UInt8)
  | vector (elements : List Value)
  | variant (index : Nat) (element : Value)
  | tuple (elements : List Value)
  | struct (elements : List Value)
deriving Repr

mutual
def Value.decEq : (a b : Value) → Decidable (a = b)
  | .integer m, .integer n => decidable_of_iff (m = n) (by simp)
  | .utf8 s, .utf8 t => decidable_of_iff (s = t) (by simp)
  | .vector as, .vector bs =>
    have := Value.decEqs as bs
    decidable_of_iff (as = bs) (by simp)
  | .variant i a, .variant j b =>
    have := Value.decEq a b
    decidable_of_iff (i = j ∧ a = b) (by simp)
  | .tuple as, .tuple bs =>
    have := Value.decEqs as bs
    decidable_of_iff (as = bs) (by simp)
  | .struct as, .struct bs =>
    have := Value.decEqs as bs
    decidable_of_iff (as = bs) (by simp)
  | .integer _, .utf8 _ | .integer _, .vector _ | .integer _, .variant _ _
  | .integer _, .tuple _ | .integer _, .struct _ | .utf8 _, .integer _
  | .utf8 _, .vector _ | .utf8 _, .variant _ _ | .utf8 _, .tuple _ | .utf8 _, .struct _
  | .vector _, .integer _ | .vector _, .utf8 _ | .vector _, .variant _ _
  | .vector _, .tuple _ | .vector _, .struct _ | .variant _ _, .integer _
  | .variant _ _, .utf8 _ | .variant _ _, .vector _ | .variant _ _, .tuple _
  | .variant _ _, .struct _ | .tuple _, .integer _ | .tuple _, .utf8 _
  | .tuple _, .vector _ | .tuple _, .variant _ _ | .tuple _, .struct _
  | .struct _, .integer _ | .struct _, .utf8 _ | .struct _, .vector _
  | .struct _, .variant _ _ | .struct _, .tuple _ => isFalse (by simp)
def Value.decEqs : (as bs : List Value) → Decidable (as = bs)
  | [], [] => isTrue rfl
  | a::as, b::bs =>
    have := Value.decEq a b
    have := Value.decEqs as bs
    decidable_of_iff (a = b ∧ as = bs) (by simp)
  | [], _::_ | _::_, [] => isFalse (by simp)
end

instance : DecidableEq Value := Value.decEq

/-- `utf8::is_valid` and the `max_size()` of `std::string` and of `std::vector<T>`. -/
class Platform where
  isValid : List UInt8 → Bool
  stringMaxSize : Nat
  vectorMaxSize : CppType → Nat
  isValid_ascii : ∀ text : List UInt8, (∀ b ∈ text, b < 128) → isValid text = true
  stringMaxSize_ge : 255 ≤ stringMaxSize

theorem Platform.isValid_nil [Platform] : Platform.isValid [] = true :=
  Platform.isValid_ascii [] (by simp)

mutual
/-- `v` is an object of the type `generate_type` names for `t`. -/
def Value.fits [Platform] : Ty → Value → Bool
  | .integer range, .integer n => decide (n < 256 ^ (findSuitableUintCppType range).sizeof)
  | .utf8 _, .utf8 text => decide (text.length ≤ Platform.stringMaxSize)
  | .vector _ element, .vector vs =>
    decide (vs.length ≤ Platform.vectorMaxSize (generateType element)) &&
      vs.all (Value.fits element)
  | .variant elements, .variant i v => Value.fitsCase elements i v
  | .tuple elements, .tuple vs => Value.fitsAll elements vs
  | .struct elements, .struct vs => Value.fitsElements elements vs
  | _, _ => false
def Value.fitsCase [Platform] : List Ty → Nat → Value → Bool
  | t::_, 0, v => Value.fits t v
  | _::ts, i+1, v => Value.fitsCase ts i v
  | [], _, _ => false
def Value.fitsAll [Platform] : List Ty → List Value → Bool
  | [], [] => true
  | t::ts, v::vs => Value.fits t v && Value.fitsAll ts vs
  | _, _ => false
def Value.fitsElements [Platform] : List (Ty × Identifier) → List Value → Bool
  | [], [] => true
  | (t,_)::ts, v::vs => Value.fits t v && Value.fitsElements ts vs
  | _, _ => false
end

/-- The checks of `utf8/checked.h`: no overlong form, no surrogate, nothing above
`U+10FFFF`, no truncated sequence. -/
def utf8Valid : List UInt8 → Bool
  | [] => true
  | a :: rest =>
    if a < 0x80 then utf8Valid rest
    else match rest with
      | [] => false
      | b :: rest =>
        if b < 0x80 ∨ 0xc0 ≤ b then false
        else if 0xc2 ≤ a ∧ a < 0xe0 then utf8Valid rest
        else match rest with
          | [] => false
          | c :: rest =>
            if c < 0x80 ∨ 0xc0 ≤ c then false
            else if 0xe0 ≤ a ∧ a < 0xf0 then
              (a ≠ 0xe0 ∨ 0xa0 ≤ b) && (a ≠ 0xed ∨ b < 0xa0) && utf8Valid rest
            else match rest with
              | [] => false
              | d :: rest =>
                if d < 0x80 ∨ 0xc0 ≤ d then false
                else (0xf0 ≤ a ∧ a < 0xf5) && (a ≠ 0xf0 ∨ 0x90 ≤ b) &&
                  (a ≠ 0xf4 ∨ b < 0x90) && utf8Valid rest

theorem utf8Valid_ascii (text : List UInt8) (h : ∀ b ∈ text, b < 128) :
    utf8Valid text = true := by
  induction text with
  | nil => rfl
  | cons a rest ih =>
    have ha : a < 0x80 := h a (by simp)
    rw [utf8Valid.eq_def]
    simp only [if_pos ha]
    exact ih fun b hb => h b (by simp [hb])

/-- A platform with 64-bit sizes. -/
@[reducible] def Platform.reference : Platform where
  isValid := utf8Valid
  stringMaxSize := 2 ^ 62
  vectorMaxSize := fun _ => 2 ^ 60
  isValid_ascii := utf8Valid_ascii
  stringMaxSize_ge := by decide

end Warpcoil
