import Mathlib
import Drafting.Graph.Framing
import Drafting.Proofs.Graph.ScopeLayouts

/-!
Interiors of clusters.

Scopes are laid out from the innermost outward.  When a scope is laid out the frames of its clusters
are known, and they do not change afterwards.

* `Interiors.Settled`: a scope is laid out with the frames as they are, and its own frame is around
  it.
* `Interiors.Settled.enter`: what one more scope leaves settled.
* `Interiors.ofScopes_eq_ok`: in the end every scope is settled.
-/

namespace Drafting.Graph

namespace Containment

variable {α : Type} {c : Containment α}

/-- A cluster is nested one level more deeply than the scope it belongs to. -/
lemma Sound.level_some (h : c.Sound) {k : Nat} (hk : k < c.clusterParent.size) :
    c.level (some k) = c.level (c.clusterParent.getD k none) + 1 := by
  cases hparent : c.clusterParent.getD k none with
  | none =>
      have houtward : Clusters.outward c.clusterParent (some k) = [k] := by
        rw [Clusters.outward_some h.acyclic h.parents hk, hparent, Clusters.outward_none]
      exact congrArg List.length houtward
  | some d => exact Clusters.depth_eq_succ h.acyclic h.parents hparent

lemma Sound.level_of_mem (h : c.Sound) {container : Option Nat} {k : Nat}
    (hk : Member.cluster k ∈ (c.scopeOf container).members) :
    c.level (some k) = c.level container + 1 := by
  obtain ⟨hdeclared, hcontainer⟩ := mem_members.mp hk
  rw [h.level_some hdeclared, ← hcontainer]
  rfl

lemma scopeIndex_injective : Function.Injective scopeIndex := by
  intro x y h
  cases x <;> cases y <;> simp_all [scopeIndex]

lemma scopeIndex_lt {container : Option Nat} (h : c.IsContainer container) :
    scopeIndex container < c.clusterParent.size + 1 := by
  cases container with
  | none => exact Nat.succ_pos _
  | some k => exact Nat.succ_lt_succ (h k rfl)

end Containment

namespace Interiors

variable {α : Type} [Scalar α] {config : GraphConfig α} {shapes : Shapes α} {c : Containment α}
    {i : Interiors α}

/-- The sizes of the members of a scope. -/
def sizes (shapes : Shapes α) (i : Interiors α) (s : Scope) : Array (Size α) :=
  (s.members.map (i.memberSize shapes)).toArray

/-- There is room for every scope and every frame. -/
structure Sized (c : Containment α) (i : Interiors α) : Prop where
  scopes : i.scopes.size = c.clusterParent.size + 1
  frames : i.frames.size = c.clusterParent.size

/-- A scope is laid out with the frames of its clusters as they are, and its own frame is around
it. -/
structure Settled (config : GraphConfig α) (shapes : Shapes α) (c : Containment α) (i : Interiors α)
    (container : Option Nat) : Prop where
  scope : ∃ named after, ScopeLayout.ofScope config (c.scopeOf container)
    (i.sizes shapes (c.scopeOf container))
    shapes.edges named = .ok (i.scope container, after)
  frame : ∀ k, container = some k → i.frame k =
    Frame.around config.direction config.clusterPadding (shapes.heads.getD k Size.zero)
      (i.scope container).size

/-! ### One more scope -/

lemma scope_enter_self (hi : i.Sized c) {container : Option Nat} (h : c.IsContainer container)
    (l : ScopeLayout α) (named : Nat) :
    (i.enter config shapes container l named).scope container = l :=
  getD_setIfInBounds_self (by rw [hi.scopes]; exact Containment.scopeIndex_lt h) _ _

lemma scope_enter_ne {x container : Option Nat} (h : container ≠ x) (l : ScopeLayout α)
    (named : Nat) :
    (i.enter config shapes container l named).scope x = i.scope x :=
  getD_setIfInBounds_ne (Containment.scopeIndex_injective.ne h) _ _ _

lemma frame_enter_self (hi : i.Sized c) {k : Nat} (h : k < c.clusterParent.size) (l : ScopeLayout α)
    (named : Nat) :
    (i.enter config shapes (some k) l named).frame k =
      Frame.around config.direction config.clusterPadding (shapes.heads.getD k Size.zero) l.size :=
  getD_setIfInBounds_self (by rw [hi.frames]; exact h) _ _

lemma frame_enter_ne {container : Option Nat} {k : Nat} (h : container ≠ some k) (l : ScopeLayout α)
    (named : Nat) :
    (i.enter config shapes container l named).frame k = i.frame k := by
  cases container with
  | none => rfl
  | some j => exact getD_setIfInBounds_ne (fun hjk => h (congrArg some hjk)) _ _ _

lemma sized_empty (hc : c.Sound) : (Interiors.empty c.clusters.length : Interiors α).Sized c := by
  constructor <;> simp [Interiors.empty, hc.size_clusterParent]

lemma Sized.enter (hi : i.Sized c) (container : Option Nat) (l : ScopeLayout α) (named : Nat) :
    (i.enter config shapes container l named).Sized c := by
  refine ⟨by simp [Interiors.enter, hi.scopes], ?_⟩
  cases container with
  | none => exact hi.frames
  | some k => simp [Interiors.enter, hi.frames]

/-- The sizes of members are as before when the frame that is entered is not among them. -/
lemma sizes_enter {s : Scope} {container : Option Nat}
    (h : ∀ k, Member.cluster k ∈ s.members → container ≠ some k) (l : ScopeLayout α) (named : Nat) :
    (i.enter config shapes container l named).sizes shapes s = i.sizes shapes s := by
  rw [sizes, sizes, List.map_congr_left]
  intro m hm
  cases m with
  | node n => rfl
  | cluster k => rw [memberSize, memberSize, frame_enter_ne (h k hm)]

/-- A settled scope stays settled when another one is entered that is not the interior of one of its
clusters. -/
lemma Settled.enter {x container : Option Nat} (hx : Settled config shapes c i x)
    (hne : container ≠ x) (h : ∀ k, Member.cluster k ∈ (c.scopeOf x).members → container ≠ some k)
    (l : ScopeLayout α) (named : Nat) :
    Settled config shapes c (i.enter config shapes container l named) x := by
  obtain ⟨before, after, hok⟩ := hx.scope
  refine ⟨⟨before, after, ?_⟩, ?_⟩
  · rw [sizes_enter h, scope_enter_ne hne, hok]
  · rintro k rfl
    rw [scope_enter_ne hne, frame_enter_ne hne, hx.frame k rfl]

/-- The scope that is entered is settled. -/
lemma settled_enter (hc : c.Sound) (hi : i.Sized c) {container : Option Nat}
    (h : c.IsContainer container) {l : ScopeLayout α} {after : Nat}
    (hok : ScopeLayout.ofScope config (c.scopeOf container)
      (i.sizes shapes (c.scopeOf container)) shapes.edges i.named = .ok (l, after)) :
    Settled config shapes c (i.enter config shapes container l after) container := by
  -- a cluster is not a member of its own interior
  have hself : ∀ k, Member.cluster k ∈ (c.scopeOf container).members → container ≠ some k := by
    rintro k hk rfl
    have hlevel := hc.level_of_mem hk
    omega
  refine ⟨⟨i.named, after, ?_⟩, ?_⟩
  · rw [sizes_enter hself, scope_enter_self hi h, hok]
  · rintro k rfl
    rw [scope_enter_self hi h, frame_enter_self hi (h k rfl)]

/-! ### All scopes -/

/-- Laying out further scopes settles them, and leaves settled what is. -/
lemma layAll_eq_ok (hc : c.Sound) {before todo : List (Option Nat)}
    (horder : before ++ todo = c.order) (hi : i.Sized c)
    (hsettled : ∀ x ∈ before, Settled config shapes c i x) :
    ∃ j, layAll config shapes (todo.map c.scopeOf) i = .ok j ∧
    ∀ x ∈ c.order, Settled config shapes c j x := by
  induction todo generalizing before i with
  | nil =>
      rw [List.append_nil] at horder
      exact ⟨i, rfl, horder ▸ hsettled⟩
  | cons container todo ih =>
      have hcontainer : c.IsContainer container := by
        rw [← hc.mem_order, ← horder]
        simp
      obtain ⟨parts, after, -, hok⟩ :=
        ScopeLayout.ofScope_eq_ok config (i.sizes shapes (c.scopeOf container))
        shapes.edges (c.wellFormed_scopeOf container) i.named
      set l := ScopeLayout.ofParts config (i.sizes shapes (c.scopeOf container)) parts
      have hnext : ∀ x ∈ before ++ [container],
          Settled config shapes c (i.enter config shapes container l after) x := by
        intro x hx
        rcases List.mem_append.mp hx with hbefore | hx
        · have hsplit := hc.nodup_order
          have hsorted := hc.pairwise_order
          rw [← horder, List.nodup_append] at hsplit
          rw [← horder, List.pairwise_append] at hsorted
          refine (hsettled x hbefore).enter ?_ ?_ l after
          · rintro rfl
            exact hsplit.2.2 container hbefore container (by simp) rfl
          · -- the interiors of the clusters of a scope come before it
            rintro k hk rfl
            exact hsorted.2.2 x hbefore (some k) (by simp) k rfl hk
        · rw [List.mem_singleton.mp hx]
          exact settled_enter hc hi hcontainer hok
      obtain ⟨j, hj, hall⟩ := ih (by rw [← horder]; simp) (hi.enter container l after) hnext
      refine ⟨j, ?_, hall⟩
      rw [List.map_cons, layAll]
      simp only [sizes] at hok
      simp only [hok]
      exact hj

/-- **Every scope is laid out**, with the final frames of its clusters. -/
lemma ofScopes_eq_ok (config : GraphConfig α) (shapes : Shapes α) (hc : c.Sound) :
    ∃ i, ofScopes config shapes c.clusters.length c.orderedScopes = .ok i ∧
      ∀ container, c.IsContainer container → Settled config shapes c i container := by
  have hnone : ∀ x ∈ ([] : List (Option Nat)),
      Settled config shapes c (Interiors.empty c.clusters.length) x := by simp
  obtain ⟨i, hok, hall⟩ := layAll_eq_ok hc (List.nil_append _) (sized_empty hc) hnone
  refine ⟨i, ?_, fun container h => hall container (hc.mem_order.mpr h)⟩
  rw [ofScopes, Containment.orderedScopes_eq]
  exact hok

/-- In all that is laid out every scope is settled. -/
lemma settled_of_ok {config : GraphConfig α} {shapes : Shapes α} {i : Interiors α} (hc : c.Sound)
    (h : ofScopes config shapes c.clusters.length c.orderedScopes = .ok i) :
    ∀ container, c.IsContainer container → Settled config shapes c i container := by
  obtain ⟨j, hj, hsettled⟩ := ofScopes_eq_ok config shapes hc
  obtain rfl : i = j := Except.ok.inj (h.symm.trans hj)
  exact hsettled

end Interiors

end Drafting.Graph
