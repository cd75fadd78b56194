import Mathlib
import Drafting.Proofs.Graph.Spacing

/-!
Where a node is moved within its rank.

A node may go as far as the nearest node that stays permits, with the room of those between.  So the
places it can have on the way to a wish are bounded by one limit, and the wish or the limit is the
closest of them.

* `Cell.Keeps`: the same nodes, of which those that stay are where they were.
* `Cell.leftLimit_le`, `Cell.le_rightLimit`: wherever the others make room, a node is within its
  limits.
* `Cell.keeps_pushLeft`, `Cell.keeps_pushRight`: within its limits, a node pushes none that stay.
* `Cell.isLeast_max`, `Cell.isGreatest_min`: the place that a limit leaves for a wish.
* `Cell.shiftTo_comes_closest`: a node is moved as close to a wish as it can be.
-/

namespace Drafting.Graph.Cell

variable {spacing : Rat}

/-- The same nodes, of which those that stay are where they were. -/
def Keeps (cells others : List (Cell Rat)) : Prop :=
  List.Forall₂ (fun c d => d.extent = c.extent ∧ d.fixed = c.fixed ∧ (c.fixed = true → d.x = c.x))
    cells others

lemma Keeps.refl (cells : List (Cell Rat)) : Keeps cells cells :=
  List.forall₂_same.mpr fun _ _ => ⟨rfl, rfl, fun _ => rfl⟩

/-- A node that does not stay may be elsewhere. -/
lemma Keeps.cons_move {c : Cell Rat} (hfree : c.fixed = false) (x : Rat)
    {cells others : List (Cell Rat)} (h : Keeps cells others) :
    Keeps (c :: cells) ({ c with x := x } :: others) :=
  List.Forall₂.cons ⟨rfl, rfl, fun hfixed => absurd (hfixed.symm.trans hfree) (by simp)⟩ h

lemma Keeps.append {left left' right right' : List (Cell Rat)} (hleft : Keeps left left')
    (hright : Keeps right right') : Keeps (left.reverse ++ right) (left'.reverse ++ right') :=
  List.rel_append (List.rel_reverse hleft) hright

/-- The same node is found at the same position. -/
lemma Keeps.getElem_eq {cells others : List (Cell Rat)} (h : Keeps cells others) {i : Nat}
    (hi : i < cells.length) (hi' : i < others.length) :
    others[i] = { cells[i] with x := others[i].x } := by
  obtain ⟨hextent, hfixed, -⟩ : others[i].extent = cells[i].extent ∧
      others[i].fixed = cells[i].fixed ∧ (cells[i].fixed = true → others[i].x = cells[i].x) :=
    h.get hi hi'
  simp only [← hextent, ← hfixed]

/-- A rank seen from one of its nodes. -/
lemma around_eq {cells : List (Cell Rat)} {i : Nat} (hi : i < cells.length) :
    (cells.take i).reverse.reverse ++ cells[i] :: cells.drop (i + 1) = cells := by
  rw [List.reverse_reverse, ← List.drop_eq_getElem_cons hi, List.take_append_drop]

/-! ### Limits -/

section Limits

variable {left right others : List (Cell Rat)} {x needed limit : Rat} {extent : Extent Rat}

/-- Wherever the nodes on the left are, the node is not to the left of its limit. -/
lemma leftLimit_le (hkeeps : Keeps left others)
    (hspaced : ((x, extent) :: others.map span).IsChain fun p q => KeepsDistance spacing q p)
    (hlimit : leftLimit spacing extent needed left = some limit) : limit ≤ x + needed := by
  induction hkeeps generalizing x extent needed with
  | nil => simp [leftLimit] at hlimit
  | @cons c d left others hcd _ ih =>
      obtain ⟨hextent, -, hx⟩ := hcd
      obtain ⟨hroom, hrest⟩ := List.isChain_cons_cons.mp hspaced
      simp only [KeepsDistance, span, hextent] at hroom hrest
      simp only [leftLimit] at hlimit
      split at hlimit
      · next hfixed =>
          rw [hx hfixed] at hroom
          have := Option.some.inj hlimit
          linarith
      · have := ih hrest hlimit
        linarith

/-- Wherever the nodes on the right are, the node is not to the right of its limit. -/
lemma le_rightLimit (hkeeps : Keeps right others)
    (hspaced : ((x, extent) :: others.map span).IsChain (KeepsDistance spacing))
    (hlimit : rightLimit spacing extent needed right = some limit) : x ≤ limit + needed := by
  induction hkeeps generalizing x extent needed with
  | nil => simp [rightLimit] at hlimit
  | @cons c d right others hcd _ ih =>
      obtain ⟨hextent, -, hx⟩ := hcd
      obtain ⟨hroom, hrest⟩ := List.isChain_cons_cons.mp hspaced
      simp only [KeepsDistance, span, hextent] at hroom hrest
      simp only [rightLimit] at hlimit
      split at hlimit
      · next hfixed =>
          rw [hx hfixed] at hroom
          have := Option.some.inj hlimit
          linarith
      · have := ih hrest hlimit
        linarith

/-- A node that is not to the left of its limit pushes none that stay. -/
lemma keeps_pushLeft
    (hlimit : ∀ limit, leftLimit spacing extent needed left = some limit → limit ≤ x + needed) :
    Keeps left (pushLeft spacing x extent left) := by
  induction left generalizing x needed extent with
  | nil => exact Keeps.refl []
  | cons c left ih =>
      simp only [leftLimit] at hlimit
      rw [pushLeft]
      split
      · exact Keeps.refl _
      · next hroom =>
          split at hlimit
          · have := hlimit _ rfl
            exact absurd (by linarith) hroom
          · next hfree =>
              set room := separation spacing c.extent extent
              have hrest : ∀ limit, leftLimit spacing c.extent (needed + room) left = some limit →
                  limit ≤ x - room + (needed + room) := by
                intro limit h
                have := hlimit limit h
                linarith
              exact Keeps.cons_move (by simpa using hfree) _ (ih hrest)

/-- A node that is not to the right of its limit pushes none that stay. -/
lemma keeps_pushRight
    (hlimit : ∀ limit, rightLimit spacing extent needed right = some limit → x ≤ limit + needed) :
    Keeps right (pushRight spacing x extent right) := by
  induction right generalizing x needed extent with
  | nil => exact Keeps.refl []
  | cons c right ih =>
      simp only [rightLimit] at hlimit
      rw [pushRight]
      split
      · exact Keeps.refl _
      · next hroom =>
          split at hlimit
          · have := hlimit _ rfl
            exact absurd (by linarith) hroom
          · next hfree =>
              set room := separation spacing extent c.extent
              have hrest : ∀ limit, rightLimit spacing c.extent (needed + room) right = some limit →
                  x + room ≤ limit + (needed + room) := by
                intro limit h
                have := hlimit limit h
                linarith
              exact Keeps.cons_move (by simpa using hfree) _ (ih hrest)

end Limits

/-! ### The closest place -/

section Closest

variable {wish x : Rat} {limit? : Option Rat}

/-- Of the places from a wish on that a limit before them leaves, the wish or
the limit is the first. -/
lemma isLeast_max {β : Type} [LinearOrder β] (wish : β) (limit? : Option β) :
    IsLeast {x | wish ≤ x ∧ ∀ limit ∈ limit?, limit ≤ x} ((limit?.map (max wish)).getD wish) := by
  cases limit? with
  | none => exact ⟨⟨le_refl wish, by simp⟩, fun x hx => hx.1⟩
  | some limit =>
      refine ⟨⟨le_max_left wish limit, fun l hl => ?_⟩, fun x hx => max_le hx.1 (hx.2 limit rfl)⟩
      exact Option.some.inj hl ▸ le_max_right wish limit

lemma isGreatest_min (wish : Rat) (limit? : Option Rat) :
    IsGreatest {x | x ≤ wish ∧ ∀ limit ∈ limit?, x ≤ limit} ((limit?.map (min wish)).getD wish) :=
  @isLeast_max Ratᵒᵈ _ wish limit?

/-- The first place to the right of a wish is the closest of all that a limit on the left leaves. -/
lemma abs_sub_lt_of_isLeast (h : IsLeast {x | wish ≤ x ∧ ∀ limit ∈ limit?, limit ≤ x} x) {y : Rat}
    (hy : ∀ limit ∈ limit?, limit ≤ y) (hne : y ≠ x) : |x - wish| < |y - wish| := by
  rcases le_or_gt wish y with hwish | hwish
  · have hlt : x < y := lt_of_le_of_ne (h.2 ⟨hwish, hy⟩) hne.symm
    rw [abs_of_nonneg (sub_nonneg.mpr h.1.1), abs_of_nonneg (sub_nonneg.mpr hwish)]
    linarith
  · -- the limit is to the left of the wish, which is then the first place
    have heq : x = wish :=
      le_antisymm (h.2 ⟨le_refl wish, fun limit hl => (hy limit hl).trans hwish.le⟩) h.1.1
    rw [heq, sub_self, abs_zero]
    exact abs_pos.mpr (sub_ne_zero.mpr hwish.ne)

/-- The last place to the left of a wish is the closest of all that a limit on the right leaves. -/
lemma abs_sub_lt_of_isGreatest (h : IsGreatest {x | x ≤ wish ∧ ∀ limit ∈ limit?, x ≤ limit} x)
    {y : Rat} (hy : ∀ limit ∈ limit?, y ≤ limit) (hne : y ≠ x) : |x - wish| < |y - wish| := by
  rcases le_or_gt y wish with hwish | hwish
  · have hlt : y < x := lt_of_le_of_ne (h.2 ⟨hwish, hy⟩) hne
    rw [abs_of_nonpos (sub_nonpos.mpr h.1.1), abs_of_nonpos (sub_nonpos.mpr hwish)]
    linarith
  · have heq : x = wish :=
      le_antisymm h.1.1 (h.2 ⟨le_refl wish, fun limit hl => hwish.le.trans (hy limit hl)⟩)
    rw [heq, sub_self, abs_zero]
    exact abs_pos.mpr (sub_ne_zero.mpr hwish.ne')

end Closest

/-! ### Moving a node -/

section Moving

variable {left right : List (Cell Rat)} {c : Cell Rat} {wish : Rat}

/-- What those on the left that stay leave to a node. -/
lemma leftLimit_le_of_spaced {others right' : List (Cell Rat)} (hkeeps : Keeps left others)
    {x : Rat} (hspaced : Spaced spacing (others.reverse ++ { c with x := x } :: right')) :
    ∀ limit ∈ leftLimit spacing c.extent 0 left, limit ≤ x := by
  intro limit hlimit
  simpa using leftLimit_le hkeeps (spaced_split.mp hspaced).1 hlimit

/-- What those on the right that stay leave to a node. -/
lemma le_rightLimit_of_spaced {others left' : List (Cell Rat)} (hkeeps : Keeps right others)
    {x : Rat} (hspaced : Spaced spacing (left'.reverse ++ { c with x := x } :: others)) :
    ∀ limit ∈ rightLimit spacing c.extent 0 right, x ≤ limit := by
  intro limit hlimit
  simpa using le_rightLimit hkeeps (spaced_split.mp hspaced).2 hlimit

lemma moveTo_of_lt (h : Spaced spacing (left.reverse ++ c :: right)) (hwish : wish < c.x) {x : Rat}
    (hx : x = ((leftLimit spacing c.extent 0 left).map (max wish)).getD wish) :
    moveTo spacing left c right wish =
      (pushLeft spacing x c.extent left).reverse ++ { c with x := x } :: right := by
  have hle : x ≤ c.x := by
    rw [hx]
    exact (isLeast_max wish _).2 ⟨hwish.le, leftLimit_le_of_spaced (Keeps.refl left) h⟩
  simp only [moveTo, if_pos hwish, ← hx, min_eq_left hle]

lemma moveTo_of_gt (h : Spaced spacing (left.reverse ++ c :: right)) (hwish : c.x < wish) {x : Rat}
    (hx : x = ((rightLimit spacing c.extent 0 right).map (min wish)).getD wish) :
    moveTo spacing left c right wish =
      left.reverse ++ { c with x := x } :: pushRight spacing x c.extent right := by
  have hle : c.x ≤ x := by
    rw [hx]
    exact (isGreatest_min wish _).2 ⟨hwish.le, le_rightLimit_of_spaced (Keeps.refl right) h⟩
  simp only [moveTo, if_neg hwish.asymm, if_pos hwish, ← hx, max_eq_left hle]

/-- A node is moved, others make room, and no place it could be given is closer to the wish. -/
lemma exists_moveTo (h : Spaced spacing (left.reverse ++ c :: right)) (wish : Rat) :
    ∃ left' x right',
      moveTo spacing left c right wish = left'.reverse ++ { c with x := x } :: right' ∧
      Keeps left left' ∧ Keeps right right' ∧
      ∀ others y others', Keeps left others → Keeps right others' →
        Spaced spacing (others.reverse ++ { c with x := y } :: others') → y ≠ x →
        |x - wish| < |y - wish| := by
  rcases lt_trichotomy wish c.x with hwish | hwish | hwish
  · have hleast := isLeast_max wish (leftLimit spacing c.extent 0 left)
    refine ⟨_, _, _, moveTo_of_lt h hwish rfl, ?_, Keeps.refl right, ?_⟩
    · exact keeps_pushLeft fun limit hlimit => (hleast.1.2 limit hlimit).trans_eq (add_zero _).symm
    · exact fun others y others' hkeeps _ hspaced =>
        abs_sub_lt_of_isLeast hleast (leftLimit_le_of_spaced hkeeps hspaced)
  · refine ⟨left, c.x, right, ?_, Keeps.refl left, Keeps.refl right, fun _ y _ _ _ _ hne => ?_⟩
    · simp only [moveTo, hwish, lt_irrefl, if_false]
    · rw [hwish, sub_self, abs_zero]
      exact abs_pos.mpr (sub_ne_zero.mpr hne)
  · have hgreatest := isGreatest_min wish (rightLimit spacing c.extent 0 right)
    refine ⟨_, _, _, moveTo_of_gt h hwish rfl, Keeps.refl left, ?_, ?_⟩
    · exact keeps_pushRight fun limit hlimit =>
        (hgreatest.1.2 limit hlimit).trans_eq (add_zero _).symm
    · exact fun others y others' _ hkeeps hspaced =>
        abs_sub_lt_of_isGreatest hgreatest (le_rightLimit_of_spaced hkeeps hspaced)

end Moving

/-- **A node of a rank is moved as close to a wish as it can be, and those that stay are
not moved.**  The nodes keep their distances, and wherever else the nodes that do not stay
could be, with all distances kept, the moved one would be farther from the wish, unless it
were at the same place. -/
theorem shiftTo_comes_closest {cells : List (Cell Rat)} (h : Spaced spacing cells) {i : Nat}
    {c : Cell Rat} (hc : cells[i]? = some c) (hfree : c.fixed = false) (wish : Rat) :
    Spaced spacing (shiftTo spacing cells i wish) ∧ Keeps cells (shiftTo spacing cells i wish) ∧
      ∃ d, (shiftTo spacing cells i wish)[i]? = some d ∧
        ∀ others, Keeps cells others → Spaced spacing others → ∀ e, others[i]? = some e →
          e.x ≠ d.x → |d.x - wish| < |e.x - wish| := by
  obtain ⟨hi, rfl⟩ := List.getElem?_eq_some_iff.mp hc
  obtain ⟨left, x, right, hmove, hleft, hright, hclosest⟩ :=
    exists_moveTo ((around_eq hi).symm ▸ h) wish
  have hshift :
      shiftTo spacing cells i wish = left.reverse ++ { cells[i] with x := x } :: right := by
    rw [shiftTo, List.drop_eq_getElem_cons hi]
    exact hmove
  have hlength : left.reverse.length = i := by
    rw [List.length_reverse, ← hleft.length_eq, List.length_reverse, List.length_take_of_le hi.le]
  refine ⟨spaced_shiftTo h i wish, ?_, { cells[i] with x := x }, ?_, ?_⟩
  · have hkeeps := hleft.append (hright.cons_move hfree x)
    rwa [around_eq hi, ← hshift] at hkeeps
  · rw [hshift, List.getElem?_append_right hlength.le, hlength, Nat.sub_self]
    rfl
  · intro others hkeeps hspaced e he
    obtain ⟨hi', rfl⟩ := List.getElem?_eq_some_iff.mp he
    refine hclosest (others.take i).reverse others[i].x (others.drop (i + 1)) ?_ ?_ ?_
    · exact List.rel_reverse (List.forall₂_take i hkeeps)
    · exact List.forall₂_drop (i + 1) hkeeps
    · rwa [← hkeeps.getElem_eq hi hi', around_eq hi']

/-- A node that is drawn to the left pushes another one, until that is as close as it can be to the
first one, which stays. -/
theorem shiftTo_stops_behind_a_node_that_stays :
    let cells : List (Cell Rat) := [⟨5, ⟨5, 5⟩, true⟩, ⟨35, ⟨5, 5⟩, false⟩, ⟨75, ⟨5, 5⟩, false⟩]
    Spaced 10 cells ∧
      shiftTo 10 cells 2 (-100) = [⟨5, ⟨5, 5⟩, true⟩, ⟨25, ⟨5, 5⟩, false⟩, ⟨45, ⟨5, 5⟩, false⟩] ∧
      ∀ others, Keeps cells others → Spaced 10 others → ∀ e, others[2]? = some e → e.x ≠ 45 →
        |(45 : Rat) - (-100)| < |e.x - (-100)| := by
  intro cells
  have hspaced : Spaced 10 cells := by
    simp only [Spaced, cells, List.map_cons, List.map_nil, span, List.isChain_cons_cons,
      KeepsDistance]
    exact ⟨by decide +kernel, by decide +kernel, List.isChain_singleton _⟩
  have hshift : shiftTo 10 cells 2 (-100) =
      [⟨5, ⟨5, 5⟩, true⟩, ⟨25, ⟨5, 5⟩, false⟩, ⟨45, ⟨5, 5⟩, false⟩] := by decide +kernel
  have hlast : cells[2]? = some ⟨75, ⟨5, 5⟩, false⟩ := rfl
  obtain ⟨-, -, d, hd, hclosest⟩ := shiftTo_comes_closest hspaced hlast rfl (-100)
  rw [hshift] at hd
  obtain rfl := Option.some.inj hd
  exact ⟨hspaced, hshift, hclosest⟩

end Drafting.Graph.Cell
