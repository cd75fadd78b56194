import Mathlib
import Drafting.Geometry.Orient
import Drafting.Scalar.Exact

/-!
Boxes with exact coordinates.

* `Bounds.Apart`, `Bounds.overlaps_eq_false_iff`: boxes without common interior points.
* `Bounds.Clear`, `Bounds.clear_around_zero_iff`: boxes that do not even touch; a point outside of a
  box.
* `Bounds.Encloses`, `Bounds.contains_eq_true_iff`: a box inside another one.
* `Bounds.EnclosesLeft`: the same but for the right side.
* `Bounds.Encloses.apart`, `Bounds.Encloses.clear`: what is apart from a box, or clear of it, is
  so from everything inside.
* `Bounds.encloses_foldl_merge`: a box around several boxes.
* `Bounds.encloses_around_center`: what is not larger than a box lies in it around its center.
* Moving boxes, and exchanging their axes, changes none of this.
-/

namespace Drafting.Bounds

variable {a b c : Bounds Rat}

/-- One box ends before the other one begins, along one axis. -/
def Apart (a b : Bounds Rat) : Prop :=
  a.maxX ≤ b.minX ∨ b.maxX ≤ a.minX ∨ a.maxY ≤ b.minY ∨ b.maxY ≤ a.minY

/-- One box ends strictly before the other one begins, along one axis. -/
def Clear (a b : Bounds Rat) : Prop :=
  a.maxX < b.minX ∨ b.maxX < a.minX ∨ a.maxY < b.minY ∨ b.maxY < a.minY

/-- The second box lies in the first one, sides included. -/
structure Encloses (a b : Bounds Rat) : Prop where
  minX : a.minX ≤ b.minX
  maxX : b.maxX ≤ a.maxX
  minY : a.minY ≤ b.minY
  maxY : b.maxY ≤ a.maxY

/-- The second box lies in the first one, sides included, but for its right side. -/
structure EnclosesLeft (a b : Bounds Rat) : Prop where
  minX : a.minX ≤ b.minX
  minY : a.minY ≤ b.minY
  maxY : b.maxY ≤ a.maxY

lemma overlaps_eq_false_iff : a.overlaps b = false ↔ a.Apart b := by
  simp only [overlaps, Apart, Bool.and_eq_false_iff, decide_eq_false_iff_not, not_lt]
  tauto

lemma contains_eq_true_iff : a.contains b = true ↔ a.Encloses b := by
  simp only [contains, Bool.and_eq_true, decide_eq_true_eq]
  exact ⟨fun h => ⟨h.1.1.1, h.1.1.2, h.1.2, h.2⟩, fun h =>
    ⟨⟨⟨h.minX, h.maxX⟩, h.minY⟩, h.maxY⟩⟩

lemma Apart.symm (h : a.Apart b) : b.Apart a := by
  rcases h with h | h | h | h
  · exact Or.inr (Or.inl h)
  · exact Or.inl h
  · exact Or.inr (Or.inr (Or.inr h))
  · exact Or.inr (Or.inr (Or.inl h))

lemma Clear.symm (h : a.Clear b) : b.Clear a := by
  rcases h with h | h | h | h
  · exact Or.inr (Or.inl h)
  · exact Or.inl h
  · exact Or.inr (Or.inr (Or.inr h))
  · exact Or.inr (Or.inr (Or.inl h))

lemma Clear.apart (h : a.Clear b) : a.Apart b :=
  h.imp le_of_lt (Or.imp le_of_lt (Or.imp le_of_lt le_of_lt))

lemma Encloses.refl (a : Bounds Rat) : a.Encloses a := ⟨le_refl _, le_refl _, le_refl _, le_refl _⟩

lemma Encloses.trans (h : a.Encloses b) (h' : b.Encloses c) : a.Encloses c :=
  ⟨h.minX.trans h'.minX, h'.maxX.trans h.maxX, h.minY.trans h'.minY, h'.maxY.trans h.maxY⟩

lemma Encloses.trans_left (h : a.Encloses b) (h' : b.EnclosesLeft c) : a.EnclosesLeft c :=
  ⟨h.minX.trans h'.minX, h.minY.trans h'.minY, h'.maxY.trans h.maxY⟩

/-- What is apart from a box is apart from everything inside it. -/
lemma Encloses.apart (h : a.Encloses b) (hac : a.Apart c) : b.Apart c := by
  rcases hac with hac | hac | hac | hac
  · exact Or.inl (h.maxX.trans hac)
  · exact Or.inr (Or.inl (hac.trans h.minX))
  · exact Or.inr (Or.inr (Or.inl (h.maxY.trans hac)))
  · exact Or.inr (Or.inr (Or.inr (hac.trans h.minY)))

/-- What is clear of a box is clear of everything inside it. -/
lemma Encloses.clear (h : a.Encloses b) (hac : a.Clear c) : b.Clear c := by
  rcases hac with hac | hac | hac | hac
  · exact Or.inl (h.maxX.trans_lt hac)
  · exact Or.inr (Or.inl (hac.trans_le h.minX))
  · exact Or.inr (Or.inr (Or.inl (h.maxY.trans_lt hac)))
  · exact Or.inr (Or.inr (Or.inr (hac.trans_le h.minY)))

/-! ### Points -/

/-- A point is a box without extent. -/
lemma around_zero (p : Point Rat) : around p Size.zero = ⟨p.x, p.y, p.x, p.y⟩ := by
  simp [around, Scalar.half, Size.zero]

/-- A point is clear of a box when it lies neither in it nor on a side of it. -/
lemma clear_around_zero_iff {p : Point Rat} :
    (around p Size.zero).Clear b ↔ b.containsPoint p = false := by
  simp only [around_zero, Clear, containsPoint, Bool.and_eq_false_iff, decide_eq_false_iff_not,
    not_le]
  tauto

/-! ### Boxes around several boxes -/

lemma encloses_merge_left (a b : Bounds Rat) : (a.merge b).Encloses a :=
  ⟨min_le_left _ _, le_max_left _ _, min_le_left _ _, le_max_left _ _⟩

lemma encloses_merge_right (a b : Bounds Rat) : (a.merge b).Encloses b :=
  ⟨min_le_right _ _, le_max_right _ _, min_le_right _ _, le_max_right _ _⟩

lemma encloses_foldl_merge (start : Bounds Rat) (boxes : List (Bounds Rat)) :
    (boxes.foldl merge start).Encloses start ∧
    ∀ b ∈ boxes, (boxes.foldl merge start).Encloses b := by
  induction boxes generalizing start with
  | nil => exact ⟨Encloses.refl start, by simp⟩
  | cons first boxes ih =>
      obtain ⟨hstart, hall⟩ := ih (start.merge first)
      rw [List.foldl_cons]
      refine ⟨hstart.trans (encloses_merge_left _ _), fun b hb => ?_⟩
      rcases List.mem_cons.mp hb with rfl | hb
      · exact hstart.trans (encloses_merge_right _ _)
      · exact hall b hb

/-- What is not larger than a box lies in it when it has the same center. -/
lemma encloses_around_center {size : Size Rat} (hwidth : size.width ≤ a.width)
    (hheight : size.height ≤ a.height) : a.Encloses (around a.center size) := by
  simp only [width, height] at hwidth hheight
  constructor <;> simp only [around, center, Scalar.half] <;> linarith

/-! ### Moving boxes -/

lemma apart_translate (v : Point Rat) : (a.translate v).Apart (b.translate v) ↔ a.Apart b := by
  simp only [Apart, translate, add_le_add_iff_right]

lemma clear_translate (v : Point Rat) : (a.translate v).Clear (b.translate v) ↔ a.Clear b := by
  simp only [Clear, translate, add_lt_add_iff_right]

lemma around_add (p v : Point Rat) (size : Size Rat) :
    around (p.add v) size = (around p size).translate v := by
  simp only [around, Point.add, translate, mk.injEq]
  refine ⟨?_, ?_, ?_, ?_⟩ <;> ring

lemma encloses_translate (v : Point Rat) :
    (a.translate v).Encloses (b.translate v) ↔ a.Encloses b := by
  constructor
  · rintro ⟨h₁, h₂, h₃, h₄⟩
    exact ⟨le_of_add_le_add_right h₁, le_of_add_le_add_right h₂, le_of_add_le_add_right h₃,
      le_of_add_le_add_right h₄⟩
  · rintro ⟨h₁, h₂, h₃, h₄⟩
    exact ⟨add_le_add_left h₁ _, add_le_add_left h₂ _, add_le_add_left h₃ _, add_le_add_left h₄ _⟩

lemma EnclosesLeft.translate (h : a.EnclosesLeft b) (v : Point Rat) :
    (a.translate v).EnclosesLeft (b.translate v) :=
  ⟨add_le_add_left h.minX _, add_le_add_left h.minY _, add_le_add_left h.maxY _⟩

@[simp] lemma width_translate (v : Point Rat) : (a.translate v).width = a.width := by
  simp only [width, translate]
  ring

@[simp] lemma height_translate (v : Point Rat) : (a.translate v).height = a.height := by
  simp only [height, translate]
  ring

/-! ### Exchanging the axes -/

lemma apart_orient (d : Direction) : (a.orient d).Apart (b.orient d) ↔ a.Apart b := by
  cases d with
  | topToBottom => exact Iff.rfl
  | leftToRight =>
      simp only [Apart, orient, swap]
      tauto

lemma clear_orient (d : Direction) : (a.orient d).Clear (b.orient d) ↔ a.Clear b := by
  cases d with
  | topToBottom => exact Iff.rfl
  | leftToRight =>
      simp only [Clear, orient, swap]
      tauto

lemma around_zero_orient (d : Direction) (p : Point Rat) :
    around (p.orient d) Size.zero = (around p Size.zero).orient d := by
  cases d <;> rfl

lemma encloses_orient (d : Direction) : (a.orient d).Encloses (b.orient d) ↔ a.Encloses b := by
  cases d with
  | topToBottom => exact Iff.rfl
  | leftToRight =>
      exact ⟨fun h => ⟨h.minY, h.maxY, h.minX, h.maxX⟩, fun h => ⟨h.minY, h.maxY, h.minX, h.maxX⟩⟩

end Drafting.Bounds
