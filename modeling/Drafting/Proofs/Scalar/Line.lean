import Mathlib
import Drafting.Proofs.Binary.Single

/-!
Scalars on a line.

What is computed by comparing coordinates, and by taking the larger or the smaller of two, depends
on their order only.  A scalar that is a number stands for a point of a line, and the order of
scalars is that of the points.  Nothing else is asked for, so nothing is rounded, and two zeros of
different sign are the same point.

* `Scalar.IsNumber`: a scalar can be compared.
* `LinearScalar`: the points that scalars stand for; `instLinearScalarRat` and
  `Binary32.instLinearScalar` say that exact coordinates and those of 32 bits have them.
-/

namespace Drafting

/-- A scalar that can be compared, if only with itself. -/
def Scalar.IsNumber {α : Type} [Scalar α] (x : α) : Prop := x ≤ x

open Scalar

/-- Scalars that are numbers stand for points of a line, and comparing them is
comparing the points. -/
class LinearScalar (α : Type) [Scalar α] where
  /-- The point that a scalar stands for. -/
  point : α → ℚ
  le_iff {x y : α} : x ≤ y ↔ IsNumber x ∧ IsNumber y ∧ point x ≤ point y
  lt_iff {x y : α} : x < y ↔ IsNumber x ∧ IsNumber y ∧ point x < point y
  beq_iff {x y : α} : (x == y) = true ↔ IsNumber x ∧ IsNumber y ∧ point x = point y
  max_eq {x y : α} : IsNumber x → IsNumber y →
    IsNumber (max x y) ∧ point (max x y) = max (point x) (point y)
  min_eq {x y : α} : IsNumber x → IsNumber y →
    IsNumber (min x y) ∧ point (min x y) = min (point x) (point y)

open LinearScalar

section Numbers

variable {α : Type} [Scalar α] [LinearScalar α] {x y : α}

namespace Scalar.IsNumber

lemma le_iff (hx : IsNumber x) (hy : IsNumber y) : x ≤ y ↔ point x ≤ point y := by
  rw [LinearScalar.le_iff, and_iff_right hx, and_iff_right hy]

lemma lt_iff (hx : IsNumber x) (hy : IsNumber y) : x < y ↔ point x < point y := by
  rw [LinearScalar.lt_iff, and_iff_right hx, and_iff_right hy]

lemma beq_iff (hx : IsNumber x) (hy : IsNumber y) : (x == y) = true ↔ point x = point y := by
  rw [LinearScalar.beq_iff, and_iff_right hx, and_iff_right hy]

end Scalar.IsNumber

/-- What is compared is a number. -/
lemma LinearScalar.isNumber_of_le (h : x ≤ y) : IsNumber x ∧ IsNumber y :=
  ⟨(LinearScalar.le_iff.mp h).1, (LinearScalar.le_iff.mp h).2.1⟩

lemma LinearScalar.isNumber_of_lt (h : x < y) : IsNumber x ∧ IsNumber y :=
  ⟨(LinearScalar.lt_iff.mp h).1, (LinearScalar.lt_iff.mp h).2.1⟩

end Numbers

lemma Scalar.isNumber_rat (x : Rat) : IsNumber x := Rat.le_refl

instance instLinearScalarRat : LinearScalar Rat where
  point x := x
  le_iff := by simp [isNumber_rat]
  lt_iff := by simp [isNumber_rat]
  beq_iff {x y} := by
    change decide (x = y) = true ↔ _
    simp [isNumber_rat]
  max_eq _ _ := ⟨isNumber_rat _, rfl⟩
  min_eq _ _ := ⟨isNumber_rat _, rfl⟩

/-- In exact arithmetic equality is what it seems to be. -/
lemma LinearScalar.beq_rat {x y : Rat} : (Scalar.toBEq.beq x y) = true ↔ x = y := by
  rw [LinearScalar.beq_iff]
  exact ⟨fun h => h.2.2, fun h => ⟨isNumber_rat _, isNumber_rat _, h⟩⟩

namespace Binary32

lemma isNumber_iff {x : Float32} : Scalar.IsNumber x ↔ Binary32.IsNumber x := by
  change x ≤ x ↔ _
  rw [Binary32.le_iff]
  simp

/-- Numbers that are equal count for the same, whatever their signs. -/
lemma beq_iff {x y : Float32} :
    (x == y) = true ↔ Binary32.IsNumber x ∧ Binary32.IsNumber y ∧ count x = count y := by
  change (Float.Model.UnpackedFloat.compare x.toModel.unpack y.toModel.unpack ==
    some Ordering.eq) = true ↔ _
  by_cases h : Binary32.IsNumber x ∧ Binary32.IsNumber y
  · simp [compare_of_isNumber h.1 h.2, h.1, h.2]
  · simp [compare_of_not_isNumber h]
    tauto

lemma not_lt_iff {x y : Float32} (hx : Binary32.IsNumber x) (hy : Binary32.IsNumber y) :
    ¬ x < y ↔ count y ≤ count x := by
  rw [Binary32.lt_iff]
  simp [hx, hy]

lemma max_of_isNumber {x y : Float32} (hx : Binary32.IsNumber x) (hy : Binary32.IsNumber y) :
    Binary32.IsNumber (Binary32.max x y) ∧ count (Binary32.max x y) = count x ⊔ count y := by
  rw [Binary32.max, if_neg fun hnan => isNaN_iff.mp hnan hx,
    if_neg fun hnan => isNaN_iff.mp hnan hy]
  split
  · next hlt => exact ⟨hy, (sup_of_le_right (Binary32.lt_iff.mp hlt).2.2.le).symm⟩
  · next hlt => exact ⟨hx, (sup_of_le_left ((not_lt_iff hx hy).mp hlt)).symm⟩

lemma min_of_isNumber {x y : Float32} (hx : Binary32.IsNumber x) (hy : Binary32.IsNumber y) :
    Binary32.IsNumber (Binary32.min x y) ∧ count (Binary32.min x y) = count x ⊓ count y := by
  rw [Binary32.min, if_neg fun hnan => isNaN_iff.mp hnan hx,
    if_neg fun hnan => isNaN_iff.mp hnan hy]
  split
  · next hlt => exact ⟨hy, (inf_of_le_right (Binary32.lt_iff.mp hlt).2.2.le).symm⟩
  · next hlt => exact ⟨hx, (inf_of_le_left ((not_lt_iff hy hx).mp hlt)).symm⟩

instance instLinearScalar : LinearScalar Float32 where
  point x := count x
  le_iff {x y} := by
    simp only [isNumber_iff, Int.cast_le]
    exact Binary32.le_iff
  lt_iff {x y} := by
    simp only [isNumber_iff, Int.cast_lt]
    exact Binary32.lt_iff
  beq_iff {x y} := by
    simp only [isNumber_iff, Int.cast_inj]
    exact Binary32.beq_iff
  max_eq {x y} hx hy := by
    simp only [isNumber_iff, ← Int.cast_max, Int.cast_inj] at hx hy ⊢
    exact max_of_isNumber hx hy
  min_eq {x y} hx hy := by
    simp only [isNumber_iff, ← Int.cast_min, Int.cast_inj] at hx hy ⊢
    exact min_of_isNumber hx hy

end Binary32

end Drafting
