import Mathlib
import Drafting.Scalar.Exact
import Drafting.Text.Box

/-!
Lengths: scalars that are not negative.

Rounded arithmetic keeps little of what exact arithmetic knows, but enough for coordinates that only
grow.  `Lengths` collects it; nothing is said of scalars that are negative or not numbers at all.

* `Lengths`: what adding and comparing lengths guarantees, rounded or not.
* `SignedScalar`: ordinary numbers are negative or not, rounded or not.
* `Scalar.le_maximum`, `Lengths.le_maximum`: the largest of a list is not below the value it starts
  from, and in exact arithmetic not below the others.
* `Setting.MeasuresLengths`: the room that texts take is given by lengths.
-/

namespace Drafting

/-- What adding and comparing lengths guarantees, rounded or not. -/
class Lengths (α : Type) [Scalar α] : Prop where
  le_refl {x : α} : 0 ≤ x → x ≤ x
  zero_le_zero : (0 : α) ≤ 0
  le_of_lt {x y : α} : x < y → x ≤ y
  not_le_of_lt {x y : α} : x < y → ¬ y ≤ x
  not_lt_of_le {x y : α} : x ≤ y → ¬ y < x
  le_trans {x y z : α} : x ≤ y → y ≤ z → x ≤ z
  lt_of_lt_of_le {x y z : α} : x < y → y ≤ z → x < z
  le_add {x y : α} : 0 ≤ x → 0 ≤ y → x ≤ x + y
  add_le_add_right {x y z : α} : 0 ≤ x → x ≤ y → 0 ≤ z → x + z ≤ y + z
  le_max_left {x : α} (y : α) : 0 ≤ x → x ≤ max x y
  half_nonneg {x : α} : 0 ≤ x → 0 ≤ Scalar.half x
  twice_nonneg {x : α} : 0 ≤ x → 0 ≤ 2 * x

instance : Lengths Rat where
  le_refl _ := Rat.le_refl
  zero_le_zero := Rat.le_refl
  le_of_lt h := Rat.le_of_lt h
  not_le_of_lt h := Rat.not_le.mpr h
  not_lt_of_le h := Rat.not_lt.mpr h
  le_trans h h' := Rat.le_trans h h'
  lt_of_lt_of_le h h' := lt_of_lt_of_le h h'
  le_add {x y} _ hy := by linarith
  add_le_add_right _ h _ := by linarith
  le_max_left y _ := le_max_left _ y
  half_nonneg h := by simp only [Scalar.half]; linarith
  twice_nonneg h := by linarith

/-- Ordinary numbers are negative or not. -/
class SignedScalar (α : Type) [Scalar α] : Prop where
  not_nonneg_iff {x : α} : Scalar.isFinite x = true → (¬ 0 ≤ x ↔ x < 0)

instance : SignedScalar Rat where
  not_nonneg_iff _ := Rat.not_le

/-- In exact arithmetic the largest of a list is above all of them. -/
lemma Scalar.le_maximum (start : Rat) (xs : List Rat) :
    start ≤ Scalar.maximum start xs ∧ ∀ x ∈ xs, x ≤ Scalar.maximum start xs := by
  induction xs generalizing start with
  | nil => exact ⟨le_refl _, by simp⟩
  | cons y xs ih =>
      obtain ⟨hstart, hall⟩ := ih (max start y)
      refine ⟨le_trans (le_max_left _ _) hstart, fun x hx => ?_⟩
      rcases List.mem_cons.mp hx with rfl | hx
      · exact le_trans (le_max_right _ _) hstart
      · exact hall x hx

variable {α : Type} [Scalar α] [Lengths α]

namespace Lengths

lemma add_nonneg {x y : α} (hx : 0 ≤ x) (hy : 0 ≤ y) : 0 ≤ x + y := le_trans hx (le_add hx hy)

lemma max_nonneg {x : α} (y : α) (hx : 0 ≤ x) : 0 ≤ max x y := le_trans hx (le_max_left y hx)

/-- The largest of a list is not below the value it starts from. -/
lemma le_maximum {start : α} (h : 0 ≤ start) (xs : List α) : start ≤ Scalar.maximum start xs := by
  rw [Scalar.maximum]
  induction xs generalizing start with
  | nil => exact le_refl h
  | cons x xs ih => exact le_trans (le_max_left x h) (ih (max_nonneg x h))

end Lengths

/-! ### Texts -/

omit [Lengths α] in
/-- The room that texts take is given by lengths. -/
def Setting.MeasuresLengths (s : Setting α) : Prop :=
  ∀ text style, 0 ≤ (s.measure text style).width ∧ 0 ≤ (s.measure text style).height

lemma Setting.MeasuresLengths.measured {s : Setting α} (h : s.MeasuresLengths) (text : String)
    (style : TextStyle) (limit : Option α) :
    0 ≤ (s.measured text style limit).size.width ∧
      0 ≤ (s.measured text style limit).size.height := by
  simp only [Setting.measured, Setting.sizeOf]
  split
  · exact ⟨Lengths.zero_le_zero, Lengths.zero_le_zero⟩
  · exact h _ _

end Drafting
