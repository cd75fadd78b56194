import Mathlib
import Drafting.Proofs.Graph.Interiors

/-!
Which element lies in which cluster, directly or not.

* `Containment.LiesIn`: an element lies directly in a cluster.
* `Containment.surrounding`: the number of clusters around an element, which grows inward.
* `Containment.Sound.inward`: what holds of a scope when it holds inside its clusters holds of every
  scope.
* `Containment.Sound.unrelated_induction`: what holds of elements of the same scope, and is
  inherited from a cluster by what lies in it, holds of any two elements neither of which lies in
  the other.
-/

namespace Drafting.Graph.Containment

variable {α : Type} {c : Containment α}

/-- An element lies directly in a cluster. -/
def LiesIn (c : Containment α) (m n : Member) : Prop :=
  ∃ k, n = .cluster k ∧ c.containerOf m = some k

/-- The number of clusters around an element. -/
def surrounding (c : Containment α) (m : Member) : Nat := c.level (c.containerOf m)

/-- The cluster that an element lies in is declared. -/
lemma Sound.isContainer_containerOf (h : c.Sound) (m : Member) :
    c.IsContainer (c.containerOf m) := by
  intro k hk
  cases m with
  | node n => exact h.clusters n k hk
  | cluster j => exact h.parents j k hk

/-- There is one more cluster around an element than around the cluster it lies in. -/
lemma Sound.surrounding_of_liesIn (h : c.Sound) {m n : Member} (hmn : c.LiesIn m n) :
    c.surrounding m = c.surrounding n + 1 := by
  obtain ⟨k, rfl, hk⟩ := hmn
  rw [surrounding, hk, h.level_some (h.isContainer_containerOf m k hk)]
  rfl

lemma Sound.surrounding_lt (h : c.Sound) {m n : Member} (hmn : Relation.TransGen c.LiesIn m n) :
    c.surrounding n < c.surrounding m := by
  induction hmn with
  | single hstep =>
      have := h.surrounding_of_liesIn hstep
      omega
  | tail _ hstep ih =>
      have := h.surrounding_of_liesIn hstep
      omega

/-- An element that lies in a cluster, with no cluster between, lies in it directly. -/
lemma Sound.liesIn_of_transGen (h : c.Sound) {m n : Member} (hmn : Relation.TransGen c.LiesIn m n)
    (hlevel : c.surrounding m ≤ c.surrounding n + 1) : c.LiesIn m n := by
  obtain ⟨x, hmx, hxn⟩ := Relation.TransGen.head'_iff.mp hmn
  rcases Relation.reflTransGen_iff_eq_or_transGen.mp hxn with heq | hxn
  · rwa [heq]
  · have hlt := h.surrounding_lt hxn
    have hsucc := h.surrounding_of_liesIn hmx
    omega

lemma level_le (c : Containment α) (x : Option Nat) : c.level x ≤ c.clusterParent.size := by
  cases x with
  | none => exact Nat.zero_le _
  | some k => exact Clusters.length_outwardFrom_le _ _ _

/-- What holds of a scope when it holds inside its clusters holds of every scope. -/
lemma Sound.inward (h : c.Sound) {P : Option Nat → Prop}
    (hstep : ∀ x, c.IsContainer x → (∀ k, Member.cluster k ∈ (c.scopeOf x).members → P (some k)) →
      P x)
    {x : Option Nat} (hx : c.IsContainer x) : P x := by
  -- scopes are nested no more deeply than there are clusters
  generalize hn : c.clusterParent.size - c.level x = n
  induction n using Nat.strong_induction_on generalizing x with
  | _ n ih =>
    refine hstep x hx fun k hk => ?_
    have hlevel := h.level_of_mem hk
    have hle := c.level_le (some k)
    have hdeclared := (mem_members.mp hk).1
    refine ih (c.clusterParent.size - c.level (some k)) (by omega) ?_ rfl
    intro j hj
    rw [← Option.some.inj hj]
    exact hdeclared

/-- Two elements neither of which lies in the other. -/
structure Unrelated (c : Containment α) (m n : Member) : Prop where
  ne : m ≠ n
  left : ¬ Relation.TransGen c.LiesIn m n
  right : ¬ Relation.TransGen c.LiesIn n m

lemma Unrelated.symm {m n : Member} (h : c.Unrelated m n) :
    c.Unrelated n m := ⟨h.ne.symm, h.right, h.left⟩

/-- **Unrelated elements.**  A symmetric relation that holds of different elements of the same
scope, and is inherited from a cluster by what lies in it, holds of any two unrelated elements. -/
lemma Sound.unrelated_induction (h : c.Sound) {R : Member → Member → Prop}
    (hsymm : ∀ m n, R m n → R n m)
    (hscope : ∀ m n, c.Declares m → c.Declares n → m ≠ n → c.containerOf m = c.containerOf n →
      R m n)
    (hinherit : ∀ m n n', c.LiesIn n n' → c.Declares n → R m n' → R m n) {m n : Member}
    (hm : c.Declares m) (hn : c.Declares n) (hmn : c.Unrelated m n) : R m n := by
  generalize hs : c.surrounding m + c.surrounding n = s
  induction s using Nat.strong_induction_on generalizing m n with
  | _ s ih =>
    -- the element with more clusters around it gives way to the cluster it lies in
    have key : ∀ {m n : Member}, c.Declares m → c.Declares n → c.Unrelated m n →
        c.surrounding m + c.surrounding n = s → c.surrounding m ≤ c.surrounding n → R m n := by
      intro m n hm hn hmn hs hle
      by_cases heq : c.containerOf m = c.containerOf n
      · exact hscope m n hm hn hmn.ne heq
      cases hcontainer : c.containerOf n with
      | none =>
          have hzero : c.surrounding n = 0 := by
            rw [surrounding, hcontainer]
            rfl
          have hlevel : c.surrounding m = 0 := by omega
          cases hm' : c.containerOf m with
          | none => exact absurd (hm'.trans hcontainer.symm) heq
          | some k =>
              have hlies : c.LiesIn m (.cluster k) := ⟨k, rfl, hm'⟩
              have := h.surrounding_of_liesIn hlies
              omega
      | some k =>
          have hlies : c.LiesIn n (.cluster k) := ⟨k, rfl, hcontainer⟩
          have hsucc := h.surrounding_of_liesIn hlies
          have hdeclared : c.Declares (.cluster k) := h.isContainer_containerOf n k hcontainer
          refine hinherit m n _ hlies hn (ih _ ?_ hm hdeclared ⟨?_, ?_, ?_⟩ rfl)
          · omega
          · rintro rfl
            exact hmn.right (Relation.TransGen.single hlies)
          · intro hinside
            obtain ⟨j, hj, hmj⟩ := h.liesIn_of_transGen hinside (by omega)
            obtain rfl := Member.cluster.inj hj
            exact heq (hmj.trans hcontainer.symm)
          · exact fun hinside => hmn.right (Relation.TransGen.head hlies hinside)
    rcases Nat.le_total (c.surrounding m) (c.surrounding n) with hle | hle
    · exact key hm hn hmn hs hle
    · exact hsymm _ _ (key hn hm hmn.symm (by omega) hle)

end Drafting.Graph.Containment
