import Mathlib
import Drafting.Declared

/-!
Declarations that count.

* `Declared.nodup_firsts`, `Declared.map_firsts`: no name counts twice, and each counts where it
  stands first.
* `Declared.repeated`, `Declared.map_repeats`: the names that stand earlier as well.
* `Declared.firsts_eq`: a declaration counts where its name stands for the first time.
* `Declared.indexOf?_firsts_isNone`: a name is not found exactly if it is not declared.
* `Declared.firsts_map`, `Declared.repeats_map`, `Declared.indexOf?_map`: what counts, what is a
  repeat and where a name is found depend on the names only.
-/

namespace Drafting.Declared

variable {β : Type} {name : β → String}

lemma notMem_firstsAfter {seen : List String} {xs : List β} {id : String} (h : id ∈ seen) :
    id ∉ (firstsAfter name seen xs).map name := by
  induction xs generalizing seen with
  | nil => simp [firstsAfter]
  | cons x xs ih =>
      rw [firstsAfter]
      split
      · exact ih h
      · next hx =>
          rw [List.map_cons, List.mem_cons, not_or]
          refine ⟨?_, ih (List.mem_cons_of_mem _ h)⟩
          rintro rfl
          exact hx (by simpa using h)

lemma nodup_firstsAfter (name : β → String) (seen : List String) (xs : List β) :
    ((firstsAfter name seen xs).map name).Nodup := by
  induction xs generalizing seen with
  | nil => simp [firstsAfter]
  | cons x xs ih =>
      rw [firstsAfter]
      split
      · exact ih seen
      · rw [List.map_cons, List.nodup_cons]
        exact ⟨notMem_firstsAfter (by simp), ih _⟩

/-- No name counts twice. -/
lemma nodup_firsts (name : β → String) (xs : List β) : ((firsts name xs).map name).Nodup :=
  nodup_firstsAfter name [] xs

lemma map_firstsAfter (name : β → String) (seen : List String) (xs : List β) :
    (firstsAfter name seen xs).map name =
      ((xs.map name).filter fun id => !seen.contains id).eraseDups := by
  induction xs generalizing seen with
  | nil => rfl
  | cons x xs ih =>
      rw [firstsAfter, List.map_cons, List.filter_cons]
      split
      · next hx => rw [ih, if_neg (by simpa using hx)]
      · next hx =>
          rw [if_pos (by simpa using hx), List.map_cons, ih, List.eraseDups_cons,
            List.filter_filter]
          congr 3
          funext id
          rw [List.contains_cons, Bool.not_or]

/-- Each name counts where it stands first. -/
lemma map_firsts (name : β → String) (xs : List β) :
    (firsts name xs).map name = (xs.map name).eraseDups := by
  rw [firsts, map_firstsAfter]
  simp

lemma firstsAfter_of_nodup {seen : List String} {xs : List β} (h : (xs.map name).Nodup)
    (hseen : ∀ x ∈ xs, name x ∉ seen) : firstsAfter name seen xs = xs := by
  induction xs generalizing seen with
  | nil => rfl
  | cons x xs ih =>
      rw [List.map_cons, List.nodup_cons] at h
      rw [List.forall_mem_cons] at hseen
      rw [firstsAfter, if_neg (by simpa using hseen.1), ih h.2]
      intro y hy
      rw [List.mem_cons, not_or]
      refine ⟨fun heq => h.1 ?_, hseen.2 y hy⟩
      exact heq ▸ List.mem_map_of_mem hy

/-- Where no name is repeated, all declarations count. -/
lemma firsts_of_nodup {xs : List β} (h : (xs.map name).Nodup) : firsts name xs = xs :=
  firstsAfter_of_nodup h fun _ _ => List.not_mem_nil

lemma indexOf?_isNone {xs : List β} {id : String} :
    (indexOf? name xs id).isNone = true ↔ id ∉ xs.map name := by
  rw [indexOf?, Option.isNone_iff_eq_none, List.findIdx?_eq_none_iff, List.mem_map]
  simp

/-- Where no name is repeated, a declaration is found by its name. -/
lemma indexOf?_getElem {xs : List β} (h : (xs.map name).Nodup) {i : Nat} (hi : i < xs.length) :
    indexOf? name xs (name xs[i]) = some i := by
  rw [indexOf?, List.findIdx?_eq_some_iff_getElem]
  refine ⟨hi, beq_self_eq_true _, fun j hj => ?_⟩
  have hne := List.pairwise_iff_getElem.mp (List.nodup_iff_pairwise_ne.mp h) j i
    (by rw [List.length_map]; omega) (by rwa [List.length_map]) hj
  simpa using hne

/-- A name is not found exactly if it is not declared. -/
lemma indexOf?_firsts_isNone {xs : List β} {id : String} :
    (indexOf? name (firsts name xs) id).isNone = true ↔ id ∉ xs.map name := by
  rw [indexOf?_isNone, map_firsts, List.mem_eraseDups]

/-! ### Repeated names -/

lemma length_repeatsAfter (name : β → String) (seen : List String) (xs : List β) :
    (repeatsAfter name seen xs).length + (firstsAfter name seen xs).length = xs.length := by
  induction xs generalizing seen with
  | nil => rfl
  | cons x xs ih =>
      rw [repeatsAfter, firstsAfter, List.length_cons]
      split
      · rw [List.length_cons, ← ih seen]
        omega
      · rw [List.length_cons, ← ih (name x :: seen)]
        omega

/-- A declaration counts or is a repeat. -/
lemma length_repeats (name : β → String) (xs : List β) :
    (repeats name xs).length + (firsts name xs).length = xs.length :=
  length_repeatsAfter name [] xs

/-- The names of a list that stand earlier in it as well. -/
def repeated (ids : List String) : List String :=
  (ids.zipIdx.filter fun entry => entry.1 ∈ ids.take entry.2).map Prod.fst

/-- The names that were seen before a list are those in front of it. -/
lemma map_repeatsAfter {seen front : List String} (h : ∀ id, id ∈ seen ↔ id ∈ front) (xs : List β) :
    (repeatsAfter name seen xs).map name =
      (((xs.map name).zipIdx front.length).filter fun entry =>
        entry.1 ∈ (front ++ xs.map name).take entry.2).map Prod.fst := by
  induction xs generalizing seen front with
  | nil => rfl
  | cons x xs ih =>
      rw [repeatsAfter, List.map_cons, List.zipIdx_cons, List.filter_cons]
      simp only [List.take_left', decide_eq_true_eq, ← h, List.contains_iff_mem]
      have hrest := fun seen (h : ∀ id, id ∈ seen ↔ id ∈ front ++ [name x]) => ih h
      simp only [List.length_append, List.length_singleton, List.append_assoc,
        List.singleton_append] at hrest
      split
      · next hx =>
          rw [List.map_cons, List.map_cons, hrest seen]
          simp only [List.mem_append, List.mem_singleton, ← h]
          rintro id
          refine ⟨Or.inl, ?_⟩
          rintro (hid | rfl)
          · exact hid
          · exact hx
      · refine hrest (name x :: seen) fun id => ?_
        rw [List.mem_cons, List.mem_append, List.mem_singleton, h]
        exact or_comm

/-- Repeats are the declarations whose name stands earlier as well. -/
lemma map_repeats (name : β → String) (xs : List β) :
    (repeats name xs).map name = repeated (xs.map name) :=
  map_repeatsAfter (fun _ => Iff.rfl) xs

lemma repeated_eq_nil_iff {ids : List String} : repeated ids = [] ↔ ids.Nodup := by
  rw [repeated, List.map_eq_nil_iff, List.filter_eq_nil_iff, List.nodup_iff_pairwise_ne,
    List.pairwise_iff_getElem]
  simp only [decide_eq_true_eq, Prod.forall, List.mk_mem_zipIdx_iff_getElem?,
    List.mem_take_iff_getElem]
  constructor
  · intro h i j hi hj hij heq
    exact h _ j (List.getElem?_eq_getElem hj) ⟨i, by omega, heq⟩
  · rintro h id j hj ⟨i, hi, heq⟩
    obtain ⟨hlt, rfl⟩ := List.getElem?_eq_some_iff.mp hj
    exact h i j (by omega) hlt (by omega) heq

/-! ### Positions of declarations -/

lemma firstsAfter_eq {seen front : List String} (h : ∀ id, id ∈ seen ↔ id ∈ front) (xs : List β) :
    firstsAfter name seen xs = ((xs.zipIdx front.length).filter fun entry =>
      name entry.1 ∉ (front ++ xs.map name).take entry.2).map Prod.fst := by
  induction xs generalizing seen front with
  | nil => rfl
  | cons x xs ih =>
      rw [firstsAfter, List.zipIdx_cons, List.filter_cons]
      simp only [List.map_cons, List.take_left', decide_eq_true_eq, ← h, List.contains_iff_mem]
      have hrest := fun seen (h : ∀ id, id ∈ seen ↔ id ∈ front ++ [name x]) => ih h
      simp only [List.length_append, List.length_singleton, List.append_assoc,
        List.singleton_append] at hrest
      split
      · next hx =>
          refine hrest seen fun id => ?_
          rw [List.mem_append, List.mem_singleton, ← h]
          exact ⟨Or.inl, fun hid => hid.elim (fun hid => hid) fun heq => heq ▸ hx⟩
      · rw [List.map_cons, hrest (name x :: seen)]
        intro id
        rw [List.mem_cons, List.mem_append, List.mem_singleton, h]
        exact or_comm

/-- A declaration counts where its name stands for the first time. -/
lemma firsts_eq (xs : List β) :
    firsts name xs = (xs.zipIdx.filter fun entry =>
      name entry.1 ∉ (xs.take entry.2).map name).map Prod.fst := by
  have hnone : ∀ id : String, id ∈ [] ↔ id ∈ [] := fun _ => Iff.rfl
  rw [firsts, firstsAfter_eq hnone]
  simp only [List.nil_append, List.length_nil, List.map_take]

/-! ### Other declarations of the same names -/

section Map

variable {f : β → β}

lemma firstsAfter_map (h : ∀ x, name (f x) = name x) (seen : List String) (xs : List β) :
    firstsAfter name seen (xs.map f) = (firstsAfter name seen xs).map f := by
  induction xs generalizing seen with
  | nil => rfl
  | cons x xs ih =>
      rw [List.map_cons, firstsAfter, firstsAfter, h]
      split
      · exact ih seen
      · rw [List.map_cons, ih]

/-- Which declarations count depends on the names only. -/
lemma firsts_map (h : ∀ x, name (f x) = name x) (xs : List β) :
    firsts name (xs.map f) = (firsts name xs).map f :=
  firstsAfter_map h [] xs

lemma repeatsAfter_map (h : ∀ x, name (f x) = name x) (seen : List String) (xs : List β) :
    repeatsAfter name seen (xs.map f) = (repeatsAfter name seen xs).map f := by
  induction xs generalizing seen with
  | nil => rfl
  | cons x xs ih =>
      rw [List.map_cons, repeatsAfter, repeatsAfter, h]
      split
      · rw [List.map_cons, ih]
      · exact ih _

lemma repeats_map (h : ∀ x, name (f x) = name x) (xs : List β) :
    repeats name (xs.map f) = (repeats name xs).map f :=
  repeatsAfter_map h [] xs

lemma indexOf?_map (h : ∀ x, name (f x) = name x) (xs : List β) (id : String) :
    indexOf? name (xs.map f) id = indexOf? name xs id := by
  rw [indexOf?, indexOf?, List.findIdx?_map]
  congr 1
  funext x
  rw [Function.comp_apply, h]

end Map

lemma mem_of_mem_firstsAfter {seen : List String} {xs : List β} {x : β}
    (hx : x ∈ firstsAfter name seen xs) : x ∈ xs := by
  induction xs generalizing seen with
  | nil => exact hx
  | cons y xs ih =>
      rw [firstsAfter] at hx
      split at hx
      · exact List.mem_cons_of_mem y (ih hx)
      · rcases List.mem_cons.mp hx with rfl | hx
        · exact List.mem_cons_self
        · exact List.mem_cons_of_mem y (ih hx)

/-- Nothing counts that is not declared. -/
lemma mem_of_mem_firsts {xs : List β} {x : β} (hx : x ∈ firsts name xs) : x ∈ xs :=
  mem_of_mem_firstsAfter hx

end Drafting.Declared
