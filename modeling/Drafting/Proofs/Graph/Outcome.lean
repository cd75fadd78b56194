import Mathlib
import Drafting.Drawing
import Drafting.Scalar.Exact
import Drafting.Proofs.Graph.Places

/-!
When a graph gets a drawing.

* `Containment.nestings`, `Containment.isGreatest_depth`: how many clusters lie in each other.
* `Layout.ofContainment_eq_ok`: however faulty a graph is, it is laid out once the limits are
  checked.
* `Diagram.layout_graph_fails_only_on_limits`: a graph gets no drawing exactly when it exceeds a
  limit.
-/

namespace Drafting.Graph

namespace Clusters

variable {parents : Array (Option Nat)}

/-- Clusters each of which lies in the next one are the first clusters that are met outward. -/
lemma isPrefix_outward (ha : Acyclic parents) (hr : InRange parents) {k : Nat} {chain : List Nat}
    (hk : k < parents.size) (h : (k :: chain).IsChain (LiesIn parents)) :
    k :: chain <+: outward parents (some k) := by
  induction chain generalizing k with
  | nil =>
      rw [outward_some ha hr hk]
      exact List.prefix_append [k] _
  | cons d chain ih =>
      rw [List.isChain_cons_cons] at h
      have hd : d < parents.size := hr k d h.1
      rw [outward_some ha hr hk, h.1]
      exact (List.prefix_cons_inj k).mpr (ih hd h.2)

/-- Each of the clusters that are met outward lies in the next one. -/
lemma isChain_outward (ha : Acyclic parents) (hr : InRange parents) {k : Nat}
    (hk : k < parents.size) :
    (outward parents (some k)).IsChain (LiesIn parents) := by
  generalize hn : depth parents k = n
  induction n generalizing k with
  | zero =>
      rw [depth, outward_some ha hr hk] at hn
      simp at hn
  | succ n ih =>
      rw [outward_some ha hr hk]
      cases hparent : parents.getD k none with
      | none =>
          rw [outward_none]
          exact List.isChain_singleton k
      | some d =>
          have hlies : LiesIn parents k d := hparent
          have hd : d < parents.size := hr k d hlies
          have hdepth : depth parents d = n := by
            rw [depth_eq_succ ha hr hlies] at hn
            omega
          have hrest := ih hd hdepth
          rw [outward_some ha hr hd] at hrest ⊢
          exact List.isChain_cons_cons.mpr ⟨hlies, hrest⟩

end Clusters

namespace Containment

variable {α : Type} {c : Containment α}

/-- The numbers of clusters that lie in each other, the next one around the one before. -/
def nestings (c : Containment α) : Set Nat :=
  {n | ∃ chain : List Nat, (∀ k ∈ chain, k < c.clusters.length) ∧
    chain.IsChain (Clusters.LiesIn c.clusterParent) ∧
    chain.length = n}

lemma depth_le_foldl_max (depth : Nat → Nat) (ks : List Nat) (start : Nat) :
    start ≤ ks.foldl (fun d i => max d (depth i)) start ∧
      ∀ k ∈ ks, depth k ≤ ks.foldl (fun d i => max d (depth i)) start := by
  induction ks generalizing start with
  | nil => simp
  | cons k ks ih =>
      obtain ⟨hstart, hall⟩ := ih (max start (depth k))
      refine ⟨le_trans (le_max_left _ _) hstart, fun j hj => ?_⟩
      rcases List.mem_cons.mp hj with rfl | hj
      · exact le_trans (le_max_right _ _) hstart
      · exact hall j hj

lemma foldl_max_cases (depth : Nat → Nat) (ks : List Nat) (start : Nat) :
    ks.foldl (fun d i => max d (depth i)) start = start ∨
      ∃ k ∈ ks, ks.foldl (fun d i => max d (depth i)) start = depth k := by
  induction ks generalizing start with
  | nil => exact Or.inl rfl
  | cons k ks ih =>
      rw [List.foldl_cons]
      rcases ih (max start (depth k)) with h | ⟨j, hj, h⟩
      · rcases max_choice start (depth k) with hmax | hmax
        · exact Or.inl (h.trans hmax)
        · exact Or.inr ⟨k, by simp, h.trans hmax⟩
      · exact Or.inr ⟨j, by simp [hj], h⟩

/-- The depth of a graph is the largest number of clusters that lie in each other. -/
lemma isGreatest_depth (h : c.Sound) : IsGreatest c.nestings c.depth := by
  refine ⟨?_, ?_⟩
  · rcases foldl_max_cases (Clusters.depth c.clusterParent)
      (List.range c.clusterParent.size) 0 with h0 | ⟨k, hk, hd⟩
    · exact ⟨[], by simp, List.isChain_nil, h0.symm⟩
    · rw [List.mem_range] at hk
      refine ⟨Clusters.outward c.clusterParent (some k), fun d hd => ?_,
        Clusters.isChain_outward h.acyclic h.parents hk, hd.symm⟩
      rw [← h.size_clusterParent]
      exact Clusters.lt_size_of_mem_outward h.acyclic h.parents hk hd
  · rintro n ⟨chain, hlt, hchain, rfl⟩
    cases chain with
    | nil => exact Nat.zero_le _
    | cons k chain =>
        have hk : k < c.clusterParent.size := h.size_clusterParent ▸ hlt k (by simp)
        have hdepth := (Clusters.isPrefix_outward h.acyclic h.parents hk hchain).length_le
        have hle := (depth_le_foldl_max (Clusters.depth c.clusterParent)
          (List.range c.clusterParent.size) 0).2 k
          (List.mem_range.mpr hk)
        exact le_trans hdepth hle

end Containment

namespace Layout

variable {α : Type} [Scalar α]

/-- Edges are drawn when each of those with both ends has a way. -/
lemma edgesFrom_eq_ok (config : GraphConfig α) (p : Placed α) {index : Nat}
    {edges : List (Edge × Option (MeasuredText α) × Ends)}
    (h : ∀ j e label source target, edges[j]? = some (e, label, ⟨some source, some target⟩) →
      (p.edge? (index + j)).isSome) :
    ∃ drawn, edgesFrom config p index edges = .ok drawn := by
  induction edges generalizing index with
  | nil => exact ⟨[], rfl⟩
  | cons first edges ih =>
      obtain ⟨e, label, source, target⟩ := first
      have hline : ∃ line, Line.ofEnds config p index ⟨source, target⟩ = .ok line := by
        cases source with
        | none => exact ⟨_, rfl⟩
        | some n =>
            cases target with
            | none => exact ⟨_, rfl⟩
            | some k =>
                obtain ⟨way, hway⟩ := Option.isSome_iff_exists.mp (h 0 e label n k rfl)
                rw [Nat.add_zero] at hway
                simp only [Line.ofEnds, hway]
                exact ⟨_, rfl⟩
      have hrest : ∀ j e label source target,
          edges[j]? = some (e, label, ⟨some source, some target⟩) →
          (p.edge? (index + 1 + j)).isSome := by
        intro j e label source target hj
        have hsome := h (j + 1) e label source target hj
        rwa [Nat.add_comm j 1, ← Nat.add_assoc] at hsome
      obtain ⟨line, hline⟩ := hline
      obtain ⟨drawn, hdrawn⟩ := ih hrest
      refine ⟨edge config.direction index e label line :: drawn, ?_⟩
      rw [edgesFrom, hline, hdrawn]
      rfl

/-- **However faulty a graph is, it is laid out.** -/
lemma ofContainment_eq_ok (s : Setting α) (m : Model α) {c : Containment α} (hc : c.Sound) :
    ∃ l, ofContainment s m c = .ok l := by
  set shapes := (Measures.ofModel s c m).shapes s.config.graph c m with hshapes
  obtain ⟨i, hok, hsettled⟩ := Interiors.ofScopes_eq_ok s.config.graph shapes hc
  have hrouted : ∀ j e label source target,
      (m.edges.zip ((Measures.ofModel s c m).edges.zip c.ends))[j]? =
        some (e, label, ⟨some source, some target⟩) →
      ((Placed.ofInteriors c c.orderedScopes i).edge? (0 + j)).isSome := by
    intro j e label source target hj
    rw [List.getElem?_zip_eq_some, List.getElem?_zip_eq_some] at hj
    have hends : c.ends[j]? = some ⟨some source, some target⟩ := hj.2.2
    -- the edge runs in the innermost scope around both ends
    obtain ⟨scopeEdge, hmem, rfl⟩ := hc.exists_scopeEdge hends
    have hcontainer := hc.isContainer_common source target
    obtain ⟨_, _, hscope⟩ := (hsettled _ hcontainer).scope
    obtain ⟨r, hr, hedge⟩ := ScopeLayout.exists_routed (c.wellFormed_scopeOf _) hscope hmem
    have hlt : r.edge < c.ends.length := hedge ▸ (List.getElem?_eq_some_iff.mp hends).1
    have hsome := (Placed.housed_ofInteriors hc i hcontainer).edges r hr hlt
    rwa [Nat.zero_add, ← hedge]
  obtain ⟨drawn, hdrawn⟩ :=
    edgesFrom_eq_ok s.config.graph (Placed.ofInteriors c c.orderedScopes i) hrouted
  simp only [ofContainment, ← hshapes, hok, hdrawn, bind, Except.bind]
  exact ⟨_, rfl⟩

end Layout

end Drafting.Graph

namespace Drafting.Diagram

open Drafting.Graph

variable {α : Type} [Scalar α]

/-- The drawing of a graph that is laid out. -/
def ofLayout (s : Setting α) (title caption : Option String) (m : Graph.Model α)
    (l : Graph.Layout α) : Drawing α :=
  let sheet := Sheet.around s s.config.graph.diagramPadding title caption l.contentBounds
  ⟨.graph (l.translate sheet.offset), sheet.title, sheet.caption, sheet.bounds,
    Graph.Layout.diagnostics m⟩

/-- The layout of a graph fails when clusters are nested too deeply, and only then. -/
lemma layoutGraph_eq (s : Setting α) (title caption : Option String) {m : Graph.Model α}
    {l : Graph.Layout α} (hl : Layout.ofContainment s m (Containment.ofModel m) = .ok l) :
    layoutGraph s title caption m =
      if s.config.limits.maxNestingDepth < (Containment.ofModel m).depth then
        .error (.nestingLimit (Containment.ofModel m).depth s.config.limits.maxNestingDepth)
      else .ok (ofLayout s title caption m l) := by
  by_cases hdepth : s.config.limits.maxNestingDepth < (Containment.ofModel m).depth
  · simp only [layoutGraph, Layout.ofModel, Containment.build, if_pos hdepth, bind, Except.bind]
  · simp only [layoutGraph, Layout.ofModel, Containment.build, if_neg hdepth, hl, bind, Except.bind]
    rfl

/-- The layout of a graph under a valid configuration. -/
lemma layout_graph_eq {s : Setting α} (hvalid : s.config.validate = .ok ())
    (title caption : Option String) {m : Graph.Model α} {l : Graph.Layout α}
    (hl : Layout.ofContainment s m (Containment.ofModel m) = .ok l) :
    layout s ⟨title, caption, .graph m⟩ =
      if s.config.limits.maxElements < m.elementCount then
        .error (.sizeLimit m.elementCount s.config.limits.maxElements)
      else if s.config.limits.maxNestingDepth < (Containment.ofModel m).depth then
        .error (.nestingLimit (Containment.ofModel m).depth s.config.limits.maxNestingDepth)
      else .ok (ofLayout s title caption m l) := by
  rw [layout, hvalid, ← layoutGraph_eq s title caption hl]
  rfl

/-- A drawing of a graph is the graph laid out, moved to its place on the sheet. -/
lemma of_layout_graph {s : Setting α} {title caption : Option String} {m : Graph.Model α}
    {drawing : Drawing α} (h : layout s ⟨title, caption, .graph m⟩ = .ok drawing) :
    s.config.validate = .ok () ∧
      ∃ l, Layout.ofContainment s m (Containment.ofModel m) = .ok l ∧
        drawing = ofLayout s title caption m l := by
  have hvalid : s.config.validate = .ok () := by
    rw [layout] at h
    split at h
    · cases h
    · assumption
  obtain ⟨l, hl⟩ := Layout.ofContainment_eq_ok s m (Containment.sound_ofModel m)
  rw [layout_graph_eq hvalid title caption hl] at h
  split at h
  · cases h
  · split at h
    · cases h
    · exact ⟨hvalid, l, hl, (Except.ok.inj h).symm⟩

/-- What is read off the drawing of a graph is read off a drawing that the graph gets. -/
lemma exists_drawing_of_read {β : Type} {s : Setting α} {d : Diagram α} {read : Graph.Layout α → β}
    {x : β} (h : ((layout s d).toOption.bind (·.graph?)).map read = some x) :
    ∃ drawing l, layout s d = .ok drawing ∧ drawing.graph? = some l ∧ read l = x := by
  cases hresult : layout s d with
  | error failure => simp [hresult, Except.toOption] at h
  | ok drawing =>
      rw [hresult, Except.toOption, Option.bind_some] at h
      obtain ⟨l, hl, hread⟩ := Option.map_eq_some_iff.mp h
      exact ⟨drawing, l, rfl, hl, hread⟩

/-- **A graph gets no drawing exactly when it exceeds a limit.**  Whatever cycles, repeated names,
dangling references and lengths a graph has: under a valid configuration its layout fails if it has
too many elements, and else if too many clusters lie in each other once repeated clusters are
dropped and cycles are cut, and in no other case. -/
theorem layout_graph_fails_only_on_limits (s : Setting α) (hvalid : s.config.validate = .ok ())
    (title caption : Option String) (m : Graph.Model α) :
    ∃ depth, IsGreatest (Containment.ofModel m).nestings depth ∧
      (∀ failure, layout s ⟨title, caption, .graph m⟩ = .error failure ↔
        (s.config.limits.maxElements < m.elementCount ∧
          failure = .sizeLimit m.elementCount s.config.limits.maxElements) ∨
        (m.elementCount ≤ s.config.limits.maxElements ∧ s.config.limits.maxNestingDepth < depth ∧
          failure = .nestingLimit depth s.config.limits.maxNestingDepth)) ∧
      ((∃ drawing, layout s ⟨title, caption, .graph m⟩ = .ok drawing) ↔
        m.elementCount ≤ s.config.limits.maxElements ∧
        depth ≤ s.config.limits.maxNestingDepth) := by
  refine ⟨(Containment.ofModel m).depth, Containment.isGreatest_depth (Containment.sound_ofModel m),
    ?_⟩
  obtain ⟨l, hl⟩ := Layout.ofContainment_eq_ok s m (Containment.sound_ofModel m)
  rw [layout_graph_eq hvalid title caption hl]
  by_cases hsize : s.config.limits.maxElements < m.elementCount
  · rw [if_pos hsize]
    refine ⟨fun failure => ?_, ?_⟩
    · simp [hsize, Nat.not_le.mpr hsize, eq_comm]
    · simp [Nat.not_le.mpr hsize]
  · rw [if_neg hsize]
    by_cases hdepth : s.config.limits.maxNestingDepth < (Containment.ofModel m).depth
    · rw [if_pos hdepth]
      refine ⟨fun failure => ?_, ?_⟩
      · simp [hsize, hdepth, Nat.not_lt.mp hsize, eq_comm]
      · simp [Nat.not_le.mpr hdepth]
    · rw [if_neg hdepth]
      refine ⟨fun failure => ?_, ?_⟩
      · simp [hsize, hdepth]
      · simp [Nat.not_lt.mp hsize, Nat.not_lt.mp hdepth]

/-- Two clusters that lie in each other, a node that is declared twice, parallel edges, a loop and a
dangling edge: the graph gets a drawing. -/
theorem faulty_graph_gets_a_drawing :
    let s : Setting Rat := ⟨.standard, fun _ _ => ⟨10, 5⟩⟩
    let m : Graph.Model Rat :=
      { nodes := [{ id := "a", parent := some "p" }, { id := "b", parent := some "q" },
        { id := "a" }]
        edges := [{ source := "a", target := "b" }, { source := "b", target := "a" },
          { source := "b", target := "b" },
          { source := "a", target := "z" }]
        clusters := [{ id := "p", parent := some "q" }, { id := "q", parent := some "p" }] }
    s.config.validate = .ok () ∧ ∃ drawing, layout s ⟨none, none, .graph m⟩ = .ok drawing := by
  intro s m
  have hvalid : s.config.validate = .ok () := by cbv
  obtain ⟨depth, hdepth, -, hdrawing⟩ := layout_graph_fails_only_on_limits s hvalid none none m
  have hle : depth ≤ 64 := by
    rw [hdepth.unique (Containment.isGreatest_depth (Containment.sound_ofModel m))]
    cbv
  exact ⟨hvalid, hdrawing.mpr ⟨by cbv, hle⟩⟩

end Drafting.Diagram
