import Mathlib
import Drafting.Proofs.Graph.Nesting

/-!
The depth-first walk through nested clusters.

The walk enters the clusters of a container one after the other, and leaves the container last.
Without cycles it reaches every cluster from the whole diagram, and along two different ways none.

* `Clusters.DirectlyIn`: a cluster lies directly in a container, which may be the whole diagram.
* `Clusters.reflTransGen_none`: without cycles everything lies in the whole diagram.
* `Clusters.mem_inwardFrom`, `Clusters.nodup_inwardFrom`: the walk leaves what lies
  in its start, each once.
* `Clusters.pairwise_inwardFrom`: it leaves what lies in a container before the container.
-/

namespace Drafting.Graph.Clusters

open Relation

variable {parents : Array (Option Nat)}

/-- A cluster lies directly in a container. -/
def DirectlyIn (parents : Array (Option Nat)) (x y : Option Nat) : Prop :=
  ∃ c, x = some c ∧ c < parents.size ∧ parents.getD c none = y

lemma mem_directlyIn {c : Nat} {container : Option Nat} :
    c ∈ directlyIn parents container ↔ DirectlyIn parents (some c) container := by
  simp [directlyIn, DirectlyIn]

lemma nodup_directlyIn (parents : Array (Option Nat)) (container : Option Nat) :
    (directlyIn parents container).Nodup :=
  List.nodup_reverse.mpr (List.nodup_range.filter _)

lemma rightUnique_directlyIn (parents : Array (Option Nat)) :
    Relator.RightUnique (DirectlyIn parents) := by
  rintro x y z ⟨c, rfl, -, rfl⟩ ⟨d, hd, -, rfl⟩
  rw [Option.some.inj hd]

lemma length_outwardFrom_le (parents : Array (Option Nat)) (fuel : Nat) (x : Option Nat) :
    (outwardFrom parents fuel x).length ≤ fuel := by
  induction fuel generalizing x with
  | zero => simp [outwardFrom]
  | succ fuel ih =>
      cases x with
      | none => simp [outwardFrom]
      | some c => simpa [outwardFrom] using ih _

/-! ### What the walk leaves -/

lemma of_mem_inwardFrom {fuel : Nat} {x container : Option Nat}
    (h : x ∈ inwardFrom parents fuel container) :
    ReflTransGen (DirectlyIn parents) x container := by
  induction fuel generalizing container with
  | zero => rw [List.mem_singleton.mp h]
  | succ fuel ih =>
      rcases List.mem_append.mp h with h | h
      · obtain ⟨c, hc, hx⟩ := List.mem_flatMap.mp h
        exact (ih hx).tail (mem_directlyIn.mp hc)
      · rw [List.mem_singleton.mp h]

section Acyclic

variable (ha : Acyclic parents) (hr : InRange parents)
include ha hr

/-- What lies in a container has one cluster more around it. -/
lemma length_outward_of_directlyIn {x y : Option Nat} (h : DirectlyIn parents x y) :
    (outward parents x).length = (outward parents y).length + 1 := by
  obtain ⟨c, rfl, hc, rfl⟩ := h
  rw [outward_some ha hr hc, List.length_cons]

lemma length_outward_le {x y : Option Nat} (h : ReflTransGen (DirectlyIn parents) x y) :
    (outward parents y).length ≤ (outward parents x).length := by
  induction h with
  | refl => exact Nat.le_refl _
  | tail _ hyz ih =>
      have hlength := length_outward_of_directlyIn ha hr hyz
      omega

/-- Everything lies in the whole diagram. -/
lemma reflTransGen_none {x : Option Nat} (hx : ∀ c, x = some c → c < parents.size) :
    ReflTransGen (DirectlyIn parents) x none := by
  generalize hn : (outward parents x).length = n
  induction n generalizing x with
  | zero =>
      cases x with
      | none => exact ReflTransGen.refl
      | some c =>
          rw [outward_some ha hr (hx c rfl)] at hn
          simp at hn
  | succ n ih =>
      cases x with
      | none => exact ReflTransGen.refl
      | some c =>
          have hstep : DirectlyIn parents (some c) (parents.getD c none) := ⟨c, rfl, hx c rfl, rfl⟩
          have hlength := length_outward_of_directlyIn ha hr hstep
          exact ReflTransGen.head hstep (ih (fun d hd => hr c d hd) (by omega))

/-- **The walk leaves what lies in its start**, if it may go inward far enough. -/
lemma mem_inwardFrom {fuel : Nat} {x container : Option Nat}
    (hfuel : parents.size ≤ fuel + (outward parents container).length) :
    x ∈ inwardFrom parents fuel container ↔ ReflTransGen (DirectlyIn parents) x container := by
  refine ⟨of_mem_inwardFrom, fun h => ?_⟩
  induction fuel generalizing container with
  | zero =>
      rcases ReflTransGen.cases_tail h with rfl | ⟨y, -, hy⟩
      · exact List.mem_singleton_self _
      · -- so many clusters are around the container that none can lie in it
        have hlength := length_outward_of_directlyIn ha hr hy
        have hle := length_outwardFrom_le parents parents.size y
        rw [← outward] at hle
        omega
  | succ fuel ih =>
      rw [inwardFrom, List.mem_append]
      rcases ReflTransGen.cases_tail h with rfl | ⟨y, hxy, hy⟩
      · exact Or.inr (List.mem_singleton_self _)
      · have hlength := length_outward_of_directlyIn ha hr hy
        have hmem := ih (by omega) hxy
        obtain ⟨c, rfl, -⟩ := id hy
        exact Or.inl (List.mem_flatMap.mpr ⟨c, mem_directlyIn.mpr hy, hmem⟩)

/-! ### The order in which it leaves -/

/-- Clusters of a container have nothing in common. -/
lemma eq_of_common {c d : Nat} {x y : Option Nat} (hc : DirectlyIn parents (some c) y)
    (hd : DirectlyIn parents (some d) y) (hxc : ReflTransGen (DirectlyIn parents) x (some c))
    (hxd : ReflTransGen (DirectlyIn parents) x (some d)) : c = d := by
  have key : ∀ {c d : Nat}, DirectlyIn parents (some c) y → DirectlyIn parents (some d) y →
      ReflTransGen (DirectlyIn parents) (some c) (some d) → c = d := by
    intro c d hc hd hcd
    rcases ReflTransGen.cases_head hcd with heq | ⟨z, hcz, hzd⟩
    · exact Option.some.inj heq
    · obtain rfl := rightUnique_directlyIn parents hc hcz
      have hle := length_outward_le ha hr hzd
      have hlength := length_outward_of_directlyIn ha hr hd
      omega
  rcases ReflTransGen.total_of_right_unique (rightUnique_directlyIn parents) hxc hxd with h | h
  · exact key hc hd h
  · exact (key hd hc h).symm

/-- A container does not lie in what lies in it. -/
lemma not_directlyIn_of_reflTransGen {x y : Option Nat}
    (h : ReflTransGen (DirectlyIn parents) x y) :
    ¬ DirectlyIn parents y x := by
  intro hyx
  have hle := length_outward_le ha hr h
  have hlength := length_outward_of_directlyIn ha hr hyx
  omega

/-- **The walk leaves nothing twice.** -/
lemma nodup_inwardFrom (fuel : Nat) (container : Option Nat) :
    (inwardFrom parents fuel container).Nodup := by
  induction fuel generalizing container with
  | zero => exact List.nodup_singleton _
  | succ fuel ih =>
      rw [inwardFrom, List.nodup_append]
      refine ⟨List.nodup_flatMap.mpr ⟨fun c _ => ih (some c), ?_⟩, List.nodup_singleton _, ?_⟩
      · refine (nodup_directlyIn parents container).imp_of_mem
          fun {c d} hc hd hne x hxc hxd => hne ?_
        exact eq_of_common ha hr (mem_directlyIn.mp hc) (mem_directlyIn.mp hd)
          (of_mem_inwardFrom hxc) (of_mem_inwardFrom hxd)
      · intro x hx y hy hxy
        rw [List.mem_singleton.mp hy] at hxy
        subst hxy
        obtain ⟨c, hc, hx⟩ := List.mem_flatMap.mp hx
        exact not_directlyIn_of_reflTransGen ha hr (of_mem_inwardFrom hx) (mem_directlyIn.mp hc)

/-- **The walk leaves a container after what lies in it.** -/
lemma pairwise_inwardFrom (fuel : Nat) (container : Option Nat) :
    (inwardFrom parents fuel container).Pairwise fun x y => ¬ DirectlyIn parents y x := by
  induction fuel generalizing container with
  | zero => exact List.pairwise_singleton _ _
  | succ fuel ih =>
      rw [inwardFrom, List.pairwise_append]
      refine ⟨List.pairwise_flatMap.mpr ⟨fun c _ => ih (some c), ?_⟩,
        List.pairwise_singleton _ _, ?_⟩
      · refine (nodup_directlyIn parents container).imp_of_mem
          fun {c d} hc hd hne x hx y hy hyx => hne ?_
        exact eq_of_common ha hr (mem_directlyIn.mp hc) (mem_directlyIn.mp hd)
          ((of_mem_inwardFrom hx).head hyx) (of_mem_inwardFrom hy)
      · intro x hx y hy
        rw [List.mem_singleton.mp hy]
        obtain ⟨c, hc, hx⟩ := List.mem_flatMap.mp hx
        exact not_directlyIn_of_reflTransGen ha hr
          ((of_mem_inwardFrom hx).tail (mem_directlyIn.mp hc))

end Acyclic

end Drafting.Graph.Clusters
