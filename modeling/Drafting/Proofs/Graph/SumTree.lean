import Mathlib
import Drafting.Graph.Ordering
import Drafting.Proofs.Arrays
import Drafting.Proofs.Pairs

/-!
The tree of sums that counts crossings.

The tree lies in an array, the root first.  Ends are entered at the leaves; each node of the tree
holds how many ends were entered at the leaves below it.  On the way from a leaf to the root, the
right neighbours of left children together hold the ends that were entered further right.

* `Layers.climb?`, `Layers.enter?`, `Layers.layerCrossings?`: the same functions, which fail where
  an entry outside of the tree would be used; where they do not fail they agree with those that do
  not look (`Layers.layerCrossings_eq_of_layerCrossings?`).
* `Layers.Counts`: what the entries of a tree hold, level by level.
* `Layers.Counts.climb`: one end is entered; `Layers.Counts.foldlM_enter`: one after the other.
* `Layers.layerCrossings?_eq`: the tree counts the crossings of each pair of nodes of a rank.
-/

namespace Drafting.Graph.Layers

/-! ### Accesses within bounds -/

/-- Adds one to an entry of a tree, which fails if there is no such entry. -/
def increment? (tree : Array Nat) (i : Nat) : Option (Array Nat) :=
  if i < tree.size then some (tree.modify i (· + 1)) else none

/-- What a node adds to the count: the entry of its right neighbour if it is a left child. -/
def beside? (tree : Array Nat) (index : Nat) : Option Nat :=
  if index % 2 = 1 then tree[index + 1]? else some 0

/-- As `climb`, but no entry outside of the tree may be used. -/
def climb? (tree : Array Nat) (count index : Nat) : Option (Array Nat × Nat) :=
  if index = 0 then some (tree, count)
  else
    (beside? tree index).bind fun more =>
      (increment? tree ((index - 1) / 2)).bind fun tree =>
        climb? tree (count + more) ((index - 1) / 2)
termination_by index
decreasing_by omega

/-- As `enter`, but no entry outside of the tree may be used. -/
def enter? (leaves : Nat) (state : Array Nat × Nat) (position : Nat) : Option (Array Nat × Nat) :=
  (increment? state.1 (position + (leaves - 1))).bind fun tree =>
    climb? tree state.2 (position + (leaves - 1))

lemma increment?_eq_some_iff {tree next : Array Nat} {i : Nat} :
    increment? tree i = some next ↔ i < tree.size ∧ tree.modify i (· + 1) = next := by
  rw [increment?]
  split <;> simp_all

lemma beside?_eq_some {tree : Array Nat} {index more : Nat} (h : beside? tree index = some more) :
    (if index % 2 = 1 then tree.getD (index + 1) 0 else 0) = more := by
  rw [beside?] at h
  split at h
  · next hodd => rw [if_pos hodd, Array.getD_eq_getD_getElem?, h, Option.getD_some]
  · next heven =>
      rw [if_neg heven]
      exact Option.some.inj h

/-- Where no access is out of bounds, the bounds need not be looked at. -/
lemma climb_eq_of_climb? {tree : Array Nat} {count index : Nat} {result : Array Nat × Nat}
    (h : climb? tree count index = some result) : climb tree count index = result := by
  induction index using Nat.strong_induction_on generalizing tree count with
  | _ index ih =>
      rw [climb?] at h
      rw [climb]
      split
      · next hzero => exact Option.some.inj (by rwa [if_pos hzero] at h)
      · next hpos =>
          rw [if_neg hpos] at h
          obtain ⟨more, hmore, h⟩ := Option.bind_eq_some_iff.mp h
          obtain ⟨next, hnext, h⟩ := Option.bind_eq_some_iff.mp h
          obtain ⟨-, rfl⟩ := increment?_eq_some_iff.mp hnext
          rw [← ih _ (by omega) h, ← beside?_eq_some hmore]
          split <;> rfl

lemma enter_eq_of_enter? {leaves position : Nat} {state result : Array Nat × Nat}
    (h : enter? leaves state position = some result) : enter leaves state position = result := by
  obtain ⟨tree, htree, h⟩ := Option.bind_eq_some_iff.mp h
  obtain ⟨-, rfl⟩ := increment?_eq_some_iff.mp htree
  exact climb_eq_of_climb? h

lemma foldl_enter_eq_of_foldlM {leaves : Nat} {ends : List Nat} {state result : Array Nat × Nat}
    (h : ends.foldlM (enter? leaves) state = some result) :
    ends.foldl (enter leaves) state = result := by
  induction ends generalizing state with
  | nil => exact Option.some.inj h
  | cons position ends ih =>
      obtain ⟨next, hnext, h⟩ := Option.bind_eq_some_iff.mp h
      rw [List.foldl_cons, enter_eq_of_enter? hnext]
      exact ih h

/-! ### What the tree counts -/

/-- The entries of a tree down to a level count nodes of that level, and above it the
parents.  Nodes are numbered from one on, level by level, so the parent of `h` is `h / 2`,
and `h` has the index `h - 1`. -/
def Counts (tree : Array Nat) : Nat → List Nat → Prop
  | 0, nodes => tree.getD 0 0 = nodes.length
  | level + 1, nodes =>
    (∀ h, 2 ^ (level + 1) ≤ h → h < 2 * 2 ^ (level + 1) → tree.getD (h - 1) 0 = nodes.count h) ∧
      Counts tree level (nodes.map (· / 2))

lemma Counts.congr {tree tree' : Array Nat} {level : Nat} {nodes : List Nat}
    (h : Counts tree level nodes)
    (heq : ∀ i, i + 1 < 2 * 2 ^ level → tree'.getD i 0 = tree.getD i 0) :
    Counts tree' level nodes := by
  induction level generalizing nodes with
  | zero => exact (heq 0 (by norm_num)).trans h
  | succ level ih =>
      refine ⟨fun k hk hk' => ?_, ih h.2 fun i hi => heq i (by omega)⟩
      have hpos : 0 < 2 ^ level := by positivity
      rw [heq _ (by omega), h.1 k hk hk']

lemma counts_empty (size level : Nat) : Counts (Array.replicate size 0) level [] := by
  have hzero : ∀ i, (Array.replicate size 0).getD i 0 = 0 := by
    intro i
    rw [Array.getD_eq_getD_getElem?, Array.getElem?_replicate]
    split <;> rfl
  induction level with
  | zero => exact hzero 0
  | succ level ih => exact ⟨fun h _ _ => hzero _, ih⟩

/-- The nodes to the right of one on its level are the right neighbour of a left child, and the
children of the nodes to the right of its parent. -/
lemma countP_lt (h : Nat) (nodes : List Nat) :
    nodes.countP (h < ·) = (if h % 2 = 0 then nodes.count (h + 1) else 0) +
      (nodes.map (· / 2)).countP (h / 2 < ·) := by
  induction nodes with
  | nil => simp
  | cons q nodes ih =>
      rw [List.countP_cons, List.map_cons, List.countP_cons, List.count_cons, ih]
      simp only [decide_eq_true_eq, beq_iff_eq]
      split_ifs <;> omega

/-- A left child has the nodes at its right neighbour beside it, and a right child has none. -/
lemma Counts.beside {level : Nat} {tree : Array Nat} {nodes : List Nat}
    (hcounts : Counts tree (level + 1) nodes)
    (hsize : 2 * 2 ^ (level + 1) ≤ tree.size + 1) {h : Nat}
    (hlow : 2 ^ (level + 1) ≤ h) (hhigh : h < 2 * 2 ^ (level + 1)) :
    beside? (tree.modify (h - 1) (· + 1)) (h - 1) =
      some (if h % 2 = 0 then nodes.count (h + 1) else 0) := by
  rw [beside?]
  by_cases heven : h % 2 = 0
  · have hodd : (h - 1) % 2 = 1 := by omega
    have hlt : h < tree.size := by omega
    have hentry := hcounts.1 (h + 1) (by omega) (by omega)
    rw [Nat.add_sub_cancel, Array.getD_eq_getD_getElem?, Array.getElem?_eq_getElem hlt,
      Option.getD_some] at hentry
    rw [if_pos heven, if_pos hodd, show h - 1 + 1 = h by omega, Array.getElem?_modify,
      if_neg (by omega), Array.getElem?_eq_getElem hlt, hentry]
  · rw [if_neg heven, if_neg (by omega)]

/-- **Climbing enters a node into its level and its parents into those above**, and counts the nodes
entered before that stand to its right. -/
lemma Counts.climb {level : Nat} {tree : Array Nat} {nodes : List Nat}
    (hcounts : Counts tree level nodes) (hsize : 2 * 2 ^ level ≤ tree.size + 1) {h : Nat}
    (hlow : 2 ^ level ≤ h) (hhigh : h < 2 * 2 ^ level)
    (hnodes : ∀ q ∈ nodes, q < 2 * 2 ^ level) (count : Nat) :
    ∃ next, climb? (tree.modify (h - 1) (· + 1)) count (h - 1) =
        some (next, count + nodes.countP (h < ·)) ∧
      next.size = tree.size ∧ Counts next level (h :: nodes) ∧
      ∀ i, h ≤ i → next.getD i 0 = tree.getD i 0 := by
  induction level generalizing tree nodes h count with
  | zero =>
      obtain rfl : h = 1 := by omega
      have hnone : nodes.countP (1 < ·) = 0 := by
        rw [List.countP_eq_zero]
        intro q hq
        have := hnodes q hq
        simp only [decide_eq_true_eq]
        omega
      refine ⟨tree.modify 0 (· + 1), ?_, Array.size_modify, ?_, fun i hi => ?_⟩
      · rw [climb?, if_pos rfl, hnone]
        rfl
      · rw [Counts, getD_modify_of_lt (by omega), if_pos rfl, hcounts, List.length_cons]
      · rw [getD_modify_of_lt (by omega), if_neg (by omega)]
  | succ level ih =>
      have hpos : 0 < 2 ^ level := by positivity
      have hindex : h - 1 < tree.size := by omega
      have hparent : (h - 1 - 1) / 2 = h / 2 - 1 := by omega
      set entered := tree.modify (h - 1) (· + 1) with hentered
      have hsame : ∀ i, i ≠ h - 1 → entered.getD i 0 = tree.getD i 0 := by
        intro i hi
        rw [hentered, getD_modify_of_lt hindex, if_neg (Ne.symm hi)]
      have hsize' : entered.size = tree.size := Array.size_modify
      have habove : Counts entered level (nodes.map (· / 2)) :=
        hcounts.2.congr fun i hi => hsame i (by omega)
      obtain ⟨next, hnext, hsizenext, hcountsnext, hkeep⟩ :=
        ih habove (by omega) (by omega : 2 ^ level ≤ h / 2) (by omega) (fun q hq => by
          obtain ⟨p, hp, rfl⟩ := List.mem_map.mp hq
          have := hnodes p hp
          omega) (count + if h % 2 = 0 then nodes.count (h + 1) else 0)
      refine ⟨next, ?_, hsizenext.trans hsize', ⟨fun k hk hk' => ?_, hcountsnext⟩, fun i hi => ?_⟩
      · rw [climb?, if_neg (by omega), hcounts.beside hsize hlow hhigh, Option.bind_some, hparent,
          increment?_eq_some_iff.mpr ⟨by omega, rfl⟩, Option.bind_some, hnext, countP_lt h nodes,
          Nat.add_assoc]
      · rw [hkeep _ (by omega), hentered, getD_modify_of_lt hindex, List.count_cons,
          hcounts.1 k hk hk']
        simp only [beq_iff_eq]
        split_ifs <;> omega
      · rw [hkeep i (by omega), hsame i (by omega)]

/-! ### Entering ends -/

section Entering

variable {height : Nat} {tree : Array Nat}

/-- The leaf of an end, and above it the parents, are entered; it crosses the ends entered before
that are further right. -/
lemma Counts.enter {ends : List Nat} (hcounts : Counts tree height (ends.map (2 ^ height + ·)))
    (hsize : tree.size + 1 = 2 * 2 ^ height) (hends : ∀ q ∈ ends, q < 2 ^ height) {position : Nat}
    (hposition : position < 2 ^ height) (count : Nat) :
    ∃ next, enter? (2 ^ height) (tree, count) position =
        some (next, count + ends.countP (position < ·)) ∧
      next.size + 1 = 2 * 2 ^ height ∧
      Counts next height ((position :: ends).map (2 ^ height + ·)) := by
  have hindex : position + (2 ^ height - 1) = 2 ^ height + position - 1 := by omega
  obtain ⟨next, hnext, hsizenext, hcountsnext, -⟩ :=
    hcounts.climb hsize.ge (by omega : 2 ^ height ≤ 2 ^ height + position) (by omega)
      (fun q hq => by
        obtain ⟨p, hp, rfl⟩ := List.mem_map.mp hq
        have := hends p hp
        omega) count
  have hlt : 2 ^ height + position - 1 < tree.size := by omega
  have hcount : (ends.map (2 ^ height + ·)).countP (2 ^ height + position < ·) =
      ends.countP (position < ·) := by
    rw [List.countP_map]
    exact List.countP_congr fun q _ => by simp
  refine ⟨next, ?_, by omega, hcountsnext⟩
  rw [enter?, hindex, increment?_eq_some_iff.mpr ⟨hlt, rfl⟩, Option.bind_some, hnext, hcount]

/-- Ends that are entered one after the other cross those before them that are further right. -/
lemma Counts.foldlM_enter {done todo : List Nat}
    (hcounts : Counts tree height (done.map (2 ^ height + ·)))
    (hsize : tree.size + 1 = 2 * 2 ^ height) (hdone : ∀ q ∈ done, q < 2 ^ height)
    (htodo : ∀ q ∈ todo, q < 2 ^ height) (count : Nat) :
    ∃ next, todo.foldlM (enter? (2 ^ height)) (tree, count) =
      some (next, count + sumBetween (fun x y => if y < x then 1 else 0) done todo +
        countPairs (fun x y => y < x) todo) := by
  induction todo generalizing tree done count with
  | nil => exact ⟨tree, by simp [sumBetween, countPairs, sumPairs]⟩
  | cons position todo ih =>
      rw [List.forall_mem_cons] at htodo
      obtain ⟨next, hnext, hsizenext, hcountsnext⟩ :=
        hcounts.enter hsize hdone htodo.1 count
      obtain ⟨last, hlast⟩ := ih hcountsnext hsizenext
        (List.forall_mem_cons.mpr ⟨htodo.1, hdone⟩) htodo.2 (count + done.countP (position < ·))
      refine ⟨last, ?_⟩
      rw [List.foldlM_cons, hnext, Option.bind_eq_bind, Option.bind_some, hlast, sumBetween_cons,
        sumBetween_cons_right, countPairs, countPairs, sumPairs, sum_map_ite (position < ·)]
      congr 2
      ring

end Entering

lemma exists_leavesFor (size : Nat) :
    ∃ height, leavesFor size = 2 ^ height ∧ size ≤ 2 ^ height := by
  rw [leavesFor]
  split
  · next hle => exact ⟨0, rfl, hle⟩
  · exact ⟨_, Nat.one_shiftLeft _, Nat.le_of_pred_lt Nat.lt_log2_self⟩

/-! ### Two ranks -/

/-- As `layerCrossings`, but no entry outside of the tree may be used. -/
def layerCrossings? (successors : Array (List Nat)) (positions : Array Nat) (north : List Nat)
    (southSize : Nat) : Option Nat :=
  if southSize = 0 then some 0
  else
    let leaves := leavesFor southSize
    ((endsOf successors positions north).foldlM (enter? leaves)
      (Array.replicate (2 * leaves - 1) 0, 0)).map (·.2)

lemma layerCrossings_eq_of_layerCrossings? {successors : Array (List Nat)} {positions : Array Nat}
    {north : List Nat} {southSize count : Nat}
    (h : layerCrossings? successors positions north southSize = some count) :
    layerCrossings successors positions north southSize = count := by
  rw [layerCrossings?] at h
  rw [layerCrossings]
  split
  · next hzero => exact Option.some.inj (by rwa [if_pos hzero] at h)
  · next hpos =>
      rw [if_neg hpos] at h
      obtain ⟨result, hresult, rfl⟩ := Option.map_eq_some_iff.mp h
      exact congrArg Prod.snd (foldl_enter_eq_of_foldlM hresult)

/-- The crossings of the segments from a rank in one direction, for each pair of its nodes. -/
def rankCrossings (neighbours : Array (List Nat)) (positions : Array Nat)
    (layer : List Nat) : Nat :=
  sumPairs (fun v w => pairCrossings positions (neighbours.getD v []) (neighbours.getD w [])) layer

lemma pairCrossings_eq (positions : Array Nat) (xs ys : List Nat) :
    pairCrossings positions xs ys = sumBetween (fun x y => if y < x then 1 else 0)
      (xs.map (positions.getD · 0)) (ys.map (positions.getD · 0)) := by
  rw [sumBetween_map]
  induction xs with
  | nil => rfl
  | cons x xs ih =>
      rw [sumBetween_cons, sum_map_ite, ← ih]
      rfl

/-- Of the ends of a rank those of different nodes cross. -/
lemma countPairs_endsOf (successors : Array (List Nat)) (positions : Array Nat) (north : List Nat) :
    countPairs (fun x y => y < x) (endsOf successors positions north) =
      rankCrossings successors positions north := by
  have hwithin : ∀ xs : List Nat,
      sumPairs (fun x y => if y < x then 1 else 0)
        (xs.mergeSort fun i j => decide (i ≤ j)) = 0 := by
    intro xs
    refine sumPairs_eq_zero ((List.pairwise_mergeSort' (· ≤ ·) xs).imp fun h => ?_)
    exact if_neg h.not_gt
  rw [countPairs, endsOf, sumPairs_flatMap]
  simp only [hwithin, List.map_const', List.sum_replicate, smul_zero, Nat.zero_add]
  refine sumPairs_congr (List.pairwise_of_forall fun v w => ?_)
  rw [pairCrossings_eq]
  exact sumBetween_perm (List.mergeSort_perm _ _) (List.mergeSort_perm _ _)

/-- **The tree counts the crossings between two ranks**, and no entry outside of it is used. -/
lemma layerCrossings?_eq {successors : Array (List Nat)} {positions : Array Nat} {north : List Nat}
    {southSize : Nat}
    (hends : ∀ v ∈ north, ∀ w ∈ successors.getD v [], positions.getD w 0 < southSize) :
    layerCrossings? successors positions north southSize =
      some (rankCrossings successors positions north) := by
  have hlt : ∀ q ∈ endsOf successors positions north, q < southSize := by
    intro q hq
    obtain ⟨v, hv, hq⟩ := List.mem_flatMap.mp hq
    obtain ⟨w, hw, rfl⟩ := List.mem_map.mp (List.mem_mergeSort.mp hq)
    exact hends v hv w hw
  rw [← countPairs_endsOf, layerCrossings?]
  split
  · next hzero =>
      have hnone : endsOf successors positions north = [] :=
        List.eq_nil_iff_forall_not_mem.mpr fun q hq => by
          have := hlt q hq
          omega
      rw [hnone]
      rfl
  · obtain ⟨height, hleaves, hle⟩ := exists_leavesFor southSize
    have hpos : 0 < 2 ^ height := by positivity
    have hsize : (Array.replicate (2 * 2 ^ height - 1) 0).size + 1 = 2 * 2 ^ height := by
      rw [Array.size_replicate]
      omega
    have hstart : Counts (Array.replicate (2 * 2 ^ height - 1) 0) height
        (([] : List Nat).map (2 ^ height + ·)) := counts_empty _ height
    obtain ⟨last, hlast⟩ := hstart.foldlM_enter hsize (by simp)
      (fun q hq => (hlt q hq).trans_le hle) 0
    simp only [hleaves, hlast, Option.map_some]
    simp [sumBetween]

end Drafting.Graph.Layers
