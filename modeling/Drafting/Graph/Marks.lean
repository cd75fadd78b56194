/-!
Marks on numbered vertices.

A search marks each vertex it enters.  It ends because marking a new vertex
leaves fewer without a mark.
-/

namespace Drafting.Graph.Marks

/-- Marking a vertex that had no mark leaves fewer without one. -/
theorem count_mark_lt {marks : Array Bool} {v : Nat} (h : marks[v]? = some false) :
    (marks.setIfInBounds v true).count false < marks.count false := by
  obtain ⟨hv, hf⟩ := Array.getElem?_eq_some_iff.1 h
  have hpos : 0 < marks.count false := Array.count_pos_iff.2 (Array.mem_of_getElem hf)
  rw [Array.setIfInBounds, dif_pos hv, Array.count_set hv, hf]
  show marks.count false - 1 + 0 < marks.count false
  omega

end Drafting.Graph.Marks
