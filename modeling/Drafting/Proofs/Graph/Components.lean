import Mathlib
import Drafting.Graph.Component
import Drafting.Proofs.Graph.Scopes
import Drafting.Proofs.Pairs

/-!
The connected parts of a scope.

Every member is labelled with the first member of its part, and joining two parts replaces the
larger label by the smaller one.

* `Component.Labelled`: every label is the label of itself, and is not larger than the member.
* `Component.label_source_eq_target`: the ends of an edge have the same label.
* `Component.mem_ofScope`: the parts are given by the labels that label themselves.
* `Component.source_mem`, `Component.target_mem`: an edge runs within its part.
* `Component.exists_of_member`, `Component.flatMap_edges_perm`: nothing is left out, and
  every edge is in one part.
* `Component.pairwise_disjoint`: no member is in two parts.
-/

namespace Drafting.Graph.Component

/-! ### Labels -/

/-- The label of a member. -/
def label (labels : Array Nat) (v : Nat) : Nat := labels.getD v v

/-- Every label is the label of itself. -/
structure Labelled (count : Nat) (labels : Array Nat) : Prop where
  size : labels.size = count
  le : ∀ v, label labels v ≤ v
  idem : ∀ v, label labels (label labels v) = label labels v

lemma label_of_size_le {labels : Array Nat} {v : Nat} (hv : labels.size ≤ v) :
    label labels v = v := by
  rw [label, Array.getD_eq_getD_getElem?, Array.getElem?_eq_none hv, Option.getD_none]

/-- What joining two parts does to a label. -/
def merged (a b : Nat) (l : Nat) : Nat := if l = max a b then min a b else l

lemma merged_le (a b l : Nat) : merged a b l ≤ l := by
  rw [merged]
  split <;> omega

lemma merged_left (a b : Nat) : merged a b a = min a b := by
  rw [merged]
  split <;> omega

lemma merged_right (a b : Nat) : merged a b b = min a b := by
  rw [merged]
  split <;> omega

lemma label_join_of_lt {labels : Array Nat} {v w u : Nat} (hu : u < labels.size) :
    label (join labels v w) u = merged (label labels v) (label labels w) (label labels u) := by
  rw [label, join, Array.getD_eq_getD_getElem?, Array.getElem?_map]
  simp [label, merged, hu]

lemma Labelled.join {count : Nat} {labels : Array Nat} (h : Labelled count labels) (v w : Nat) :
    Labelled count (join labels v w) := by
  have hsize : (Component.join labels v w).size = count := by simp [Component.join, h.size]
  have hlabel : ∀ u, u < count → label (Component.join labels v w) u =
      merged (label labels v) (label labels w) (label labels u) :=
    fun u hu => label_join_of_lt (by rwa [h.size])
  refine ⟨hsize, fun u => ?_, fun u => ?_⟩
  · by_cases hu : u < count
    · rw [hlabel u hu]
      exact (merged_le _ _ _).trans (h.le u)
    · rw [label_of_size_le (by omega)]
  · by_cases hu : u < count
    · have hle := h.le u
      have hlev := h.le v
      have hlew := h.le w
      have hmerged := merged_le (label labels v) (label labels w) (label labels u)
      rw [hlabel u hu, hlabel _ (by omega)]
      -- the smaller label is a label as well, so it is not changed
      by_cases hmax : label labels u = max (label labels v) (label labels w)
      · have hmin : merged (label labels v) (label labels w) (label labels u) =
            min (label labels v) (label labels w) := by rw [merged, if_pos hmax]
        rw [hmin]
        rcases min_choice (label labels v) (label labels w) with heq | heq
        · rw [heq, h.idem, merged_left, heq]
        · rw [heq, h.idem, merged_right, heq]
      · have hkeep : merged (label labels v) (label labels w) (label labels u) =
            label labels u := by
          rw [merged, if_neg hmax]
        rw [hkeep, h.idem, hkeep]
    · have hself : label (Component.join labels v w) u = u := label_of_size_le (by omega)
      rw [hself, hself]

/-- Parts that are joined stay joined. -/
lemma label_join_eq {labels : Array Nat} {v w a b : Nat} (ha : a < labels.size)
    (hb : b < labels.size) (h : label labels a = label labels b) :
    label (join labels v w) a = label (join labels v w) b := by
  rw [label_join_of_lt ha, label_join_of_lt hb, h]

lemma label_join_ends {labels : Array Nat} {v w : Nat} (hv : v < labels.size)
    (hw : w < labels.size) :
    label (join labels v w) v = label (join labels v w) w := by
  rw [label_join_of_lt hv, label_join_of_lt hw, merged_left, merged_right]

/-- Joining along edges: labels stay labels, ends of edges get the same label, and equal labels stay
equal. -/
lemma labelled_foldl {count : Nat} {edges : List ScopeEdge}
    (hedges : ∀ e ∈ edges, e.source < count ∧ e.target < count) {labels : Array Nat}
    (h : Labelled count labels) :
    Labelled count (edges.foldl (fun labels e => join labels e.source e.target) labels) ∧
      (∀ e ∈ edges,
        label (edges.foldl (fun labels e => join labels e.source e.target) labels) e.source =
          label (edges.foldl (fun labels e => join labels e.source e.target) labels) e.target) ∧
      ∀ a < count, ∀ b < count, label labels a = label labels b →
        label (edges.foldl (fun labels e => join labels e.source e.target) labels) a =
          label (edges.foldl (fun labels e => join labels e.source e.target) labels) b := by
  induction edges generalizing labels with
  | nil => exact ⟨h, by simp, fun _ _ _ _ heq => heq⟩
  | cons e edges ih =>
      obtain ⟨hs, ht⟩ := hedges e (by simp)
      obtain ⟨hend, hall, hkeep⟩ :=
        ih (fun f hf => hedges f (by simp [hf])) (h.join e.source e.target)
      have hsize : labels.size = count := h.size
      refine ⟨hend, fun f hf => ?_, fun a ha b hb heq => ?_⟩
      · rcases List.mem_cons.mp hf with rfl | hf
        · exact hkeep _ hs _ ht (label_join_ends (by omega) (by omega))
        · exact hall f hf
      · exact hkeep a ha b hb (label_join_eq (by omega) (by omega) heq)

/-- At first every member is labelled with itself. -/
lemma label_range (count v : Nat) : label (Array.range count) v = v := by
  by_cases hv : v < count
  · simp [label, hv]
  · exact label_of_size_le (by simpa using hv)

lemma labelled_range (count : Nat) : Labelled count (Array.range count) :=
  ⟨by simp, fun v => by rw [label_range], fun v => by rw [label_range, label_range]⟩

section Scope

variable {s : Scope}

/-- The labels of a scope. -/
def labelsOf (s : Scope) : Array Nat := labels s.members.length s.edges

lemma labelled_labelsOf (hs : s.WellFormed) : Labelled s.members.length (labelsOf s) :=
  (labelled_foldl hs (labelled_range _)).1

/-- The ends of an edge are in the same part. -/
lemma label_source_eq_target (hs : s.WellFormed) {e : ScopeEdge} (he : e ∈ s.edges) :
    label (labelsOf s) e.source = label (labelsOf s) e.target :=
  (labelled_foldl hs (labelled_range _)).2.1 e he

/-! ### Parts -/

/-- The part of the members with a label. -/
def withLabel (s : Scope) (root : Nat) : Component :=
  { members := (List.range s.members.length).filter fun v => label (labelsOf s) v == root
    edges := s.edges.filter fun e => label (labelsOf s) e.source == root }

lemma ofScope_eq_map (s : Scope) : ofScope s =
    ((List.range s.members.length).filter fun v => label (labelsOf s) v == v).map (withLabel s) :=
  rfl

/-- The parts of a scope are given by the labels that label themselves. -/
lemma mem_ofScope {c : Component} : c ∈ ofScope s ↔
    ∃ root < s.members.length, label (labelsOf s) root = root ∧
      c.members = (List.range s.members.length).filter (fun v => label (labelsOf s) v == root) ∧
      c.edges = s.edges.filter fun e => label (labelsOf s) e.source == root := by
  simp only [ofScope, List.mem_map, List.mem_filter, List.mem_range]
  constructor
  · rintro ⟨root, ⟨hlt, hroot⟩, rfl⟩
    exact ⟨root, hlt, by simpa [label, labelsOf] using hroot, rfl, rfl⟩
  · rintro ⟨root, hlt, hroot, hmembers, hedges⟩
    refine ⟨root, ⟨hlt, by simpa [label, labelsOf] using hroot⟩, ?_⟩
    obtain ⟨members, edges⟩ := c
    simp only at hmembers hedges
    rw [hmembers, hedges]
    rfl

variable {c : Component}

/-- A part consists of the members with one label, and of the edges that leave them. -/
lemma exists_root (hc : c ∈ ofScope s) : ∃ root < s.members.length,
    label (labelsOf s) root = root ∧
      c.members = (List.range s.members.length).filter (fun v => label (labelsOf s) v == root) ∧
      c.edges = s.edges.filter fun e => label (labelsOf s) e.source == root := by
  rwa [mem_ofScope] at hc

/-- The members of a part are in ascending order, none twice. -/
lemma nodup_of_mem_ofScope (hc : c ∈ ofScope s) : c.members.Nodup := by
  obtain ⟨root, -, -, hmembers, -⟩ := exists_root hc
  rw [hmembers]
  exact List.nodup_range.filter _

/-- A part has a member. -/
lemma members_ne_nil (hc : c ∈ ofScope s) : c.members ≠ [] := by
  obtain ⟨root, hlt, hroot, hmembers, -⟩ := exists_root hc
  refine List.ne_nil_of_mem (a := root) ?_
  rw [hmembers, List.mem_filter, List.mem_range, beq_iff_eq]
  exact ⟨hlt, hroot⟩

lemma lt_of_mem (hc : c ∈ ofScope s) {v : Nat} (hv : v ∈ c.members) : v < s.members.length := by
  obtain ⟨root, -, -, hmembers, -⟩ := exists_root hc
  rw [hmembers, List.mem_filter, List.mem_range] at hv
  exact hv.1

lemma mem_edges_of_mem (hc : c ∈ ofScope s) {e : ScopeEdge} (he : e ∈ c.edges) : e ∈ s.edges := by
  obtain ⟨root, -, -, -, hedges⟩ := exists_root hc
  rw [hedges] at he
  exact List.mem_of_mem_filter he

/-- An edge of a part leaves one of its members. -/
lemma source_mem (hs : s.WellFormed) (hc : c ∈ ofScope s) {e : ScopeEdge} (he : e ∈ c.edges) :
    e.source ∈ c.members := by
  have hlt := (hs e (mem_edges_of_mem hc he)).1
  obtain ⟨root, -, -, hmembers, hedges⟩ := exists_root hc
  rw [hedges, List.mem_filter] at he
  rw [hmembers, List.mem_filter, List.mem_range]
  exact ⟨hlt, he.2⟩

/-- An edge of a part enters one of its members. -/
lemma target_mem (hs : s.WellFormed) (hc : c ∈ ofScope s) {e : ScopeEdge} (he : e ∈ c.edges) :
    e.target ∈ c.members := by
  have hedge := mem_edges_of_mem hc he
  obtain ⟨root, -, -, hmembers, hedges⟩ := exists_root hc
  rw [hedges, List.mem_filter] at he
  rw [hmembers, List.mem_filter, List.mem_range, ← label_source_eq_target hs hedge]
  exact ⟨(hs e hedge).2, he.2⟩

/-- Every member of a scope is in a part. -/
lemma exists_of_member (hs : s.WellFormed) {v : Nat} (hv : v < s.members.length) :
    ∃ c ∈ ofScope s, v ∈ c.members := by
  have hl := labelled_labelsOf hs
  refine ⟨⟨_, _⟩, mem_ofScope.mpr ⟨label (labelsOf s) v, lt_of_le_of_lt (hl.le v) hv, hl.idem v,
    rfl, rfl⟩, ?_⟩
  simpa using hv

/-- Every edge of a scope is in one part. -/
lemma flatMap_edges_perm (hs : s.WellFormed) : ((ofScope s).flatMap (·.edges)).Perm s.edges := by
  have hl := labelled_labelsOf hs
  have hroots : ∀ e ∈ s.edges, label (labelsOf s) e.source ∈
      (List.range s.members.length).filter fun v => label (labelsOf s) v == v := by
    intro e he
    rw [List.mem_filter, List.mem_range, beq_iff_eq]
    exact ⟨(hl.le e.source).trans_lt (hs e he).1, hl.idem e.source⟩
  rw [ofScope_eq_map, List.flatMap_map]
  exact flatMap_filter_perm (List.nodup_range.filter _) hroots

/-- No member is in two parts. -/
lemma pairwise_disjoint (s : Scope) :
    (ofScope s).Pairwise fun c d => c.members.Disjoint d.members := by
  rw [ofScope]
  refine List.pairwise_map.mpr ?_
  have hroots := (List.nodup_range (n := s.members.length)).filter fun v =>
    (labels s.members.length s.edges).getD v v == v
  refine hroots.imp fun hne v hv hw => ?_
  simp only [List.mem_filter, beq_iff_eq] at hv hw
  exact hne (hv.2.symm.trans hw.2)

end Scope

end Drafting.Graph.Component
