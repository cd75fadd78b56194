import Mathlib
import Drafting.Graph.Placement
import Drafting.Scalar.Exact
import Drafting.Proofs.Arrays
import Drafting.Proofs.Graph.Ordering

/-!
Distances along the ranks.

* `KeepsDistance`: one node is far enough to the right of another.
* `Cell.Spaced`, `Cell.spaced_shiftTo`: moving a node of a rank, others making room, keeps all
  distances.
* `Placement.SpacedAt`: the nodes of a rank keep their distances; packing establishes this and
  relaxation keeps it.
* `Placement.spaced_along`: so it holds of the coordinates that are kept.
-/

namespace Drafting.Graph

/-- The second of two nodes, given by their centers and extents, is far enough to the right of the
first. -/
def KeepsDistance (spacing : Rat) (p q : Rat × Extent Rat) : Prop :=
  p.1 + separation spacing p.2 q.2 ≤ q.1

/-! ### Moving a node within its rank -/

namespace Cell

variable {spacing : Rat}

/-- The center and the extent of a node. -/
def span (c : Cell Rat) : Rat × Extent Rat := (c.x, c.extent)

/-- The nodes of a rank keep their distances. -/
def Spaced (spacing : Rat) (cells : List (Cell Rat)) : Prop :=
  (cells.map span).IsChain (KeepsDistance spacing)

/-- Nodes on the left make room; they are listed with the nearest first. -/
lemma isChain_pushLeft {left : List (Cell Rat)}
    (h : (left.map span).IsChain fun p q => KeepsDistance spacing q p) (x : Rat)
    (extent : Extent Rat) :
    ((x, extent) :: (pushLeft spacing x extent left).map span).IsChain fun p q =>
    KeepsDistance spacing q p := by
  induction left generalizing x extent with
  | nil => exact List.isChain_singleton _
  | cons c left ih =>
      rw [pushLeft]
      split
      next hroom =>
        refine List.isChain_cons_cons.mpr ⟨?_, h⟩
        simp only [KeepsDistance, span]
        linarith
      next =>
        refine List.isChain_cons_cons.mpr ⟨?_, ih h.tail _ _⟩
        simp only [KeepsDistance, span]
        linarith

/-- Nodes on the right make room. -/
lemma isChain_pushRight {right : List (Cell Rat)}
    (h : (right.map span).IsChain (KeepsDistance spacing)) (x : Rat) (extent : Extent Rat) :
    ((x, extent) :: (pushRight spacing x extent right).map span).IsChain
      (KeepsDistance spacing) := by
  induction right generalizing x extent with
  | nil => exact List.isChain_singleton _
  | cons c right ih =>
      rw [pushRight]
      split
      next hroom => exact List.isChain_cons_cons.mpr ⟨hroom, h⟩
      next => exact List.isChain_cons_cons.mpr ⟨le_refl _, ih h.tail _ _⟩

lemma extent_pushLeft (x : Rat) (extent : Extent Rat) (left : List (Cell Rat)) :
    (pushLeft spacing x extent left).map Cell.extent = left.map Cell.extent := by
  induction left generalizing x extent with
  | nil => rfl
  | cons c left ih =>
      rw [pushLeft]
      split
      · rfl
      · rw [List.map_cons, ih, List.map_cons]

lemma extent_pushRight (x : Rat) (extent : Extent Rat) (right : List (Cell Rat)) :
    (pushRight spacing x extent right).map Cell.extent = right.map Cell.extent := by
  induction right generalizing x extent with
  | nil => rfl
  | cons c right ih =>
      rw [pushRight]
      split
      · rfl
      · rw [List.map_cons, ih, List.map_cons]

/-- The nodes up to one of a rank, and those from it on. -/
lemma spaced_split {left right : List (Cell Rat)} {c : Cell Rat} :
    Spaced spacing (left.reverse ++ c :: right) ↔
      ((c :: left).map span).IsChain (fun p q => KeepsDistance spacing q p) ∧
        ((c :: right).map span).IsChain (KeepsDistance spacing) := by
  rw [Spaced, List.map_append, List.map_cons, List.isChain_split, ← List.isChain_reverse]
  simp [List.map_reverse]

/-- Moving a node keeps the distances, wherever it is moved. -/
lemma spaced_moveTo {left right : List (Cell Rat)} {c : Cell Rat}
    (h : Spaced spacing (left.reverse ++ c :: right)) (wish : Rat) :
    Spaced spacing (moveTo spacing left c right wish) := by
  obtain ⟨hleft, hright⟩ := spaced_split.mp h
  rw [moveTo]
  split
  · -- the node moves to the left, so those on its right have more room than before
    refine spaced_split.mpr ⟨isChain_pushLeft hleft.tail _ _, ?_⟩
    cases right with
    | nil => exact List.isChain_singleton _
    | cons d right =>
        simp only [List.map_cons, List.isChain_cons_cons] at hright ⊢
        refine ⟨?_, hright.2⟩
        refine le_trans (add_le_add_left ?_ _) hright.1
        exact min_le_right _ _
  · split
    · refine spaced_split.mpr ⟨?_, isChain_pushRight hright.tail _ _⟩
      cases left with
      | nil => exact List.isChain_singleton _
      | cons d left =>
          simp only [List.map_cons, List.isChain_cons_cons] at hleft ⊢
          refine ⟨le_trans hleft.1 ?_, hleft.2⟩
          exact le_max_right _ _
    · exact h

lemma extent_moveTo (left right : List (Cell Rat)) (c : Cell Rat) (wish : Rat) :
    (moveTo spacing left c right wish).map Cell.extent =
      (left.reverse ++ c :: right).map Cell.extent := by
  rw [moveTo]
  split
  · simp [extent_pushLeft]
  · split
    · simp [extent_pushRight]
    · rfl

/-- **Moving a node of a rank keeps the distances.** -/
lemma spaced_shiftTo {cells : List (Cell Rat)} (h : Spaced spacing cells) (i : Nat) (wish : Rat) :
    Spaced spacing (shiftTo spacing cells i wish) := by
  rw [shiftTo]
  split
  · exact h
  · next c right hdrop =>
      refine spaced_moveTo ?_ wish
      rwa [List.reverse_reverse, ← hdrop, List.take_append_drop]

lemma extent_shiftTo (cells : List (Cell Rat)) (i : Nat) (wish : Rat) :
    (shiftTo spacing cells i wish).map Cell.extent = cells.map Cell.extent := by
  rw [shiftTo]
  split
  · rfl
  · next c right hdrop => rw [extent_moveTo, List.reverse_reverse, ← hdrop, List.take_append_drop]

lemma span_fix (cells : List (Cell Rat)) (i : Nat) : (fix cells i).map span = cells.map span := by
  refine List.ext_getElem (by simp [fix]) fun j hj _ => ?_
  simp only [fix, List.getElem_map, List.getElem_modify]
  split <;> rfl

lemma extent_eq (cells : List (Cell Rat)) :
    cells.map Cell.extent = (cells.map span).map Prod.snd := by
  rw [List.map_map]
  rfl

end Cell

/-! ### All ranks -/

namespace Placement

variable {g : Layering Rat} {layers : Layers} {spacing : Rat} {xs : Array Rat}

/-- The centers and extents of nodes. -/
def spans (g : Layering Rat) (xs : Array Rat) (layer : List Nat) : List (Rat × Extent Rat) :=
  layer.map fun v => (xs.getD v 0, extentOf g v)

/-- The nodes of a rank keep their distances. -/
def SpacedAt (g : Layering Rat) (spacing : Rat) (xs : Array Rat) (layer : List Nat) : Prop :=
  (spans g xs layer).IsChain (KeepsDistance spacing)

/-- The nodes of every rank keep their distances. -/
structure Spaced (g : Layering Rat) (spacing : Rat) (layers : Layers) (xs : Array Rat) : Prop where
  size : xs.size = g.nodes.size
  layer : ∀ layer ∈ layers, SpacedAt g spacing xs layer

/-- The centers of a rank are those that its nodes have. -/
lemma spans_congr {ys : Array Rat} {layer : List Nat} (h : ∀ v ∈ layer, ys.getD v 0 = xs.getD v 0) :
    spans g ys layer = spans g xs layer :=
  List.map_congr_left fun v hv => by rw [h v hv]

/-- Entering the coordinates of one rank leaves the others as they are. -/
lemma Spaced.enter (hf : Layers.ByRank g layers) (hx : Spaced g spacing layers xs)
    {layer : List Nat} (hlayer : layer ∈ layers) {ys : Array Rat} (hsize : ys.size = xs.size)
    (hkeep : ∀ w, w ∉ layer → ys.getD w 0 = xs.getD w 0) (hspaced : SpacedAt g spacing ys layer) :
    Spaced g spacing layers ys := by
  refine ⟨hsize.trans hx.size, fun other hother => ?_⟩
  by_cases heq : other = layer
  · rwa [heq]
  · have hsame : ∀ v ∈ other, ys.getD v 0 = xs.getD v 0 :=
      fun v hv => hkeep v fun hv' => heq (hf.eq_of_mem hother hlayer hv hv')
    rw [SpacedAt, spans_congr hsame]
    exact hx.layer other hother

/-! ### Packing -/

/-- Where a node is packed, given the one packed before it. -/
def nextX (spacing : Rat) (extent : Extent Rat) : Option (Rat × Extent Rat) → Rat
  | none => extent.before
  | some (x, before) => x + separation spacing before extent

lemma packFrom_cons (previous : Option (Rat × Extent Rat)) (v : Nat) (layer : List Nat) :
    packFrom g spacing previous xs (v :: layer) =
      packFrom g spacing (some (nextX spacing (extentOf g v) previous, extentOf g v))
        (xs.setIfInBounds v (nextX spacing (extentOf g v) previous)) layer := by
  cases previous <;> rfl

/-- Packing a rank puts each node behind the one before it. -/
lemma packFrom_spec (g : Layering Rat) (spacing : Rat) {layer : List Nat} (hnodup : layer.Nodup)
    (hlt : ∀ v ∈ layer, v < xs.size) (previous : Option (Rat × Extent Rat)) :
    (packFrom g spacing previous xs layer).size = xs.size ∧
      (∀ w, w ∉ layer → (packFrom g spacing previous xs layer).getD w 0 = xs.getD w 0) ∧
      (previous.toList ++ spans g (packFrom g spacing previous xs layer) layer).IsChain
        (KeepsDistance spacing) := by
  induction layer generalizing previous xs with
  | nil =>
      refine ⟨rfl, fun _ _ => rfl, ?_⟩
      cases previous with
      | none => exact List.isChain_nil
      | some p => exact List.isChain_singleton p
  | cons v layer ih =>
      rw [List.nodup_cons] at hnodup
      rw [packFrom_cons]
      set x := nextX spacing (extentOf g v) previous with hx
      have hlt' : ∀ w ∈ layer, w < (xs.setIfInBounds v x).size := by
        intro w hw
        rw [Array.size_setIfInBounds]
        exact hlt w (by simp [hw])
      obtain ⟨hsize, hkeep, hchain⟩ := ih hnodup.2 hlt' (some (x, extentOf g v))
      set ys := packFrom g spacing (some (x, extentOf g v)) (xs.setIfInBounds v x) layer
      have hown : ys.getD v 0 = x := by
        rw [hkeep v hnodup.1, getD_setIfInBounds_self (hlt v (by simp))]
      refine ⟨by rw [hsize, Array.size_setIfInBounds], fun w hw => ?_, ?_⟩
      · rw [List.mem_cons, not_or] at hw
        rw [hkeep w hw.2, getD_setIfInBounds_ne (Ne.symm hw.1)]
      · have hspans : spans g ys (v :: layer) = (x, extentOf g v) :: spans g ys layer := by
          rw [spans, List.map_cons, hown]
          rfl
        rw [hspans]
        cases previous with
        | none => exact hchain
        | some p => exact List.isChain_cons_cons.mpr ⟨le_of_eq hx.symm, hchain⟩

/-- Packing ranks one after the other spaces those that are packed. -/
lemma foldl_packFrom (spacing : Rat) (hf : Layers.ByRank g layers) {todo : Layers}
    (htodo : todo ⊆ layers) (hsize : xs.size = g.nodes.size) :
    (todo.foldl (fun xs layer => packFrom g spacing none xs layer) xs).size = g.nodes.size ∧
      ∀ layer ∈ layers, (layer ∈ todo ∨ SpacedAt g spacing xs layer) →
        SpacedAt g spacing (todo.foldl (fun xs layer => packFrom g spacing none xs layer) xs)
          layer := by
  induction todo generalizing xs with
  | nil => exact ⟨hsize, fun layer _ h => h.resolve_left (by simp)⟩
  | cons first todo ih =>
      have hfirst : first ∈ layers := htodo (by simp)
      have hlt : ∀ v ∈ first, v < xs.size := fun v hv => hsize ▸ hf.lt_of_mem hfirst hv
      obtain ⟨hsize', hkeep, hchain⟩ := packFrom_spec g spacing (hf.nodup first hfirst) hlt none
      obtain ⟨hend, hall⟩ := ih (fun l hl => htodo (by simp [hl])) (hsize'.trans hsize)
      refine ⟨hend, fun layer hlayer h => hall layer hlayer ?_⟩
      by_cases heq : layer = first
      · rw [heq]
        exact Or.inr hchain
      · refine h.imp (fun hmem => (List.mem_cons.mp hmem).resolve_left heq) fun hspaced => ?_
        have hsame : ∀ v ∈ layer, (packFrom g spacing none xs first).getD v 0 = xs.getD v 0 :=
          fun v hv => hkeep v fun hv' => heq (hf.eq_of_mem hlayer hfirst hv hv')
        rwa [SpacedAt, spans_congr hsame]

/-- Packed nodes keep their distances. -/
lemma spaced_pack (hf : Layers.ByRank g layers) :
    Spaced g spacing layers (pack g layers spacing) := by
  have hstart : (Array.replicate g.nodes.size (0 : Rat)).size = g.nodes.size := Array.size_replicate
  obtain ⟨hsize, hall⟩ := foldl_packFrom spacing hf (List.Subset.refl layers) hstart
  exact ⟨hsize, fun layer hlayer => hall layer hlayer (Or.inl hlayer)⟩

/-! ### Relaxation -/

/-- Moving a node toward its neighbours keeps the distances. -/
lemma settleNode_spec {cells : List (Cell Rat)} (h : Cell.Spaced spacing cells)
    (neighbours : Array (List Nat)) (layer : Array Nat) (i : Nat) :
    Cell.Spaced spacing (settleNode spacing neighbours xs layer cells i) ∧
      (settleNode spacing neighbours xs layer cells i).map Cell.extent = cells.map Cell.extent := by
  simp only [settleNode, Cell.Spaced, Cell.extent_eq, Cell.span_fix]
  split
  · exact ⟨h, rfl⟩
  · rw [← Cell.extent_eq, ← Cell.extent_eq, Cell.extent_shiftTo]
    exact ⟨Cell.spaced_shiftTo h i _, rfl⟩

lemma foldl_settleNode_spec (xs : Array Rat) {cells : List (Cell Rat)}
    (h : Cell.Spaced spacing cells) (neighbours : Array (List Nat)) (layer : Array Nat)
    (positions : List Nat) :
    Cell.Spaced spacing (positions.foldl (settleNode spacing neighbours xs layer) cells) ∧
      (positions.foldl (settleNode spacing neighbours xs layer) cells).map Cell.extent =
        cells.map Cell.extent := by
  induction positions generalizing cells with
  | nil => exact ⟨h, rfl⟩
  | cons i positions ih =>
      obtain ⟨hspaced, hextent⟩ := settleNode_spec h neighbours layer i
      obtain ⟨hend, hextent'⟩ := ih hspaced
      exact ⟨hend, hextent'.trans hextent⟩

lemma enterCells_eq (layer : List Nat) (cells : List (Cell Rat)) :
    enterCells xs layer cells =
      ((layer.zip cells).map fun e => (e.1, e.2.x)).foldl
        (fun xs e => xs.setIfInBounds e.1 e.2) xs := by
  rw [List.foldl_map]
  rfl

lemma size_enterCells (layer : List Nat) (cells : List (Cell Rat)) :
    (enterCells xs layer cells).size = xs.size := by
  rw [enterCells_eq, size_foldl_set]

lemma getD_enterCells_of_notMem {layer : List Nat} (cells : List (Cell Rat)) {w : Nat}
    (hw : w ∉ layer) :
    (enterCells xs layer cells).getD w 0 = xs.getD w 0 := by
  rw [enterCells_eq, getD_foldl_set_of_notMem]
  exact fun h => hw ((map_fst_map_zip_sublist _ _ _).subset h)

/-- The coordinates that are entered are found at the nodes. -/
lemma spans_enterCells {layer : List Nat} (hnodup : layer.Nodup) (hlt : ∀ v ∈ layer, v < xs.size)
    {cells : List (Cell Rat)} (hextent : cells.map Cell.extent = layer.map (extentOf g)) :
    spans g (enterCells xs layer cells) layer = cells.map Cell.span := by
  have hlength : cells.length = layer.length := by simpa using congrArg List.length hextent
  refine List.ext_getElem (by simp [spans, hlength]) fun i hi hi' => ?_
  rw [spans, List.length_map] at hi
  rw [List.length_map] at hi'
  have hmem : (layer[i], cells[i].x) ∈ (layer.zip cells).map fun e => (e.1, e.2.x) := by
    refine List.mem_map.mpr ⟨(layer[i], cells[i]), ?_, rfl⟩
    exact List.mem_iff_getElem.mpr ⟨i, by simpa using ⟨hi, hi'⟩, List.getElem_zip⟩
  have hkeys : (((layer.zip cells).map fun e => (e.1, e.2.x)).map Prod.fst).Nodup :=
    (map_fst_map_zip_sublist _ _ _).nodup hnodup
  have hx : (enterCells xs layer cells).getD layer[i] 0 = cells[i].x := by
    rw [enterCells_eq, getD_foldl_set hkeys hmem (hlt _ (List.getElem_mem hi))]
  have he : cells[i].extent = extentOf g layer[i] := by
    have := List.getElem_of_eq hextent (by simpa using hi')
    simpa using this
  simp only [spans, List.getElem_map, hx, Cell.span, he]

/-- Adjusting a rank to its neighbours keeps all distances. -/
lemma Spaced.relaxLayer (hf : Layers.ByRank g layers) (hx : Spaced g spacing layers xs)
    (degree : Nat → Nat) (neighbours : Array (List Nat)) {layer : List Nat}
    (hlayer : layer ∈ layers) :
    Spaced g spacing layers (relaxLayer g spacing degree neighbours xs layer) := by
  rw [Placement.relaxLayer]
  have hcells : Cell.Spaced spacing
      (layer.map fun v => (⟨xs.getD v 0, extentOf g v, false⟩ : Cell Rat)) := by
    rw [Cell.Spaced, List.map_map]
    exact hx.layer layer hlayer
  obtain ⟨hspaced, hextent⟩ :=
    foldl_settleNode_spec xs hcells neighbours layer.toArray (priority g degree layer)
  rw [List.map_map] at hextent
  have hlt : ∀ v ∈ layer, v < xs.size := fun v hv => hx.size ▸ hf.lt_of_mem hlayer hv
  refine hx.enter hf hlayer (size_enterCells _ _) (fun w hw => getD_enterCells_of_notMem _ hw) ?_
  rw [SpacedAt, spans_enterCells (hf.nodup layer hlayer) hlt hextent]
  exact hspaced

lemma Spaced.foldl_relaxLayer (hf : Layers.ByRank g layers) (hx : Spaced g spacing layers xs)
    (degree : Nat → Nat) (neighbours : Array (List Nat)) {todo : Layers} (htodo : todo ⊆ layers) :
    Spaced g spacing layers (todo.foldl (Placement.relaxLayer g spacing degree neighbours) xs) := by
  induction todo generalizing xs with
  | nil => exact hx
  | cons layer todo ih =>
      exact ih (hx.relaxLayer hf degree neighbours (htodo (by simp))) fun l hl =>
        htodo (by simp [hl])

/-- Relaxation keeps all distances. -/
lemma Spaced.relax (hf : Layers.ByRank g layers) (hx : Spaced g spacing layers xs)
    (degree : Nat → Nat) (predecessors successors : Array (List Nat)) (passes : Nat) (down : Bool) :
    Spaced g spacing layers (Placement.relax g layers spacing degree predecessors successors passes
      down xs) := by
  induction passes generalizing down xs with
  | zero => exact hx
  | succ passes ih =>
      refine ih ?_ _
      cases down with
      | true => exact hx.foldl_relaxLayer hf degree predecessors fun l hl => List.mem_of_mem_drop hl
      | false =>
          exact hx.foldl_relaxLayer hf degree successors fun l hl =>
            List.mem_reverse.mp (List.mem_of_mem_drop hl)

/-- Moving all nodes by the same amount keeps all distances. -/
lemma Spaced.alignLeft (hf : Layers.ByRank g layers) (hx : Spaced g spacing layers xs) :
    Spaced g spacing layers (Placement.alignLeft g xs) := by
  rw [Placement.alignLeft]
  split
  · exact hx
  · next left _ =>
      split
      · refine ⟨by rw [Array.size_map, hx.size], fun layer hlayer => ?_⟩
        have hspans : spans g (xs.map (· - left)) layer =
            (spans g xs layer).map fun p => (p.1 - left, p.2) := by
          rw [spans, spans, List.map_map]
          refine List.map_congr_left fun v hv => ?_
          have hv' : v < xs.size := hx.size ▸ hf.lt_of_mem hlayer hv
          simp [hv']
        rw [SpacedAt, hspans]
        refine List.isChain_map_of_isChain _ ?_ (hx.layer layer hlayer)
        intro p q hpq
        simp only [KeepsDistance] at hpq ⊢
        linarith
      · exact hx

/-- **The nodes of every rank keep their distances.** -/
lemma spaced_along (hf : Layers.ByRank g layers) (spacing : Rat) (passes : Nat) :
    Spaced g spacing layers (along g layers spacing passes) :=
  ((spaced_pack hf).relax hf _ _ _ passes true).alignLeft hf

end Placement

end Drafting.Graph
