import Mathlib
import Drafting.Diagnostic

/-!
What diagnostics are about.

* `Diagnostic.subjects`: the elements that the faults of a category are about, one for each fault.
* `Diagnostic.eq_nil_iff_subjects`: there are no faults if there are none of any category.
* `Diagnostic.perm_replicates`: faults counted by what they are about.
-/

namespace Drafting.Diagnostic

open scoped List

variable {α β : Type}

/-- What the faults of a category are about, one entry for each fault. -/
def subjects (kind : Kind) (ds : List (Diagnostic α)) : List (Option Ident) :=
  (ds.filter fun d => d.kind = kind).map (·.subject)

@[simp]
lemma subjects_nil (kind : Kind) : subjects kind ([] : List (Diagnostic α)) = [] := rfl

@[simp]
lemma subjects_append (kind : Kind) (ds es : List (Diagnostic α)) :
    subjects kind (ds ++ es) = subjects kind ds ++ subjects kind es := by
  simp [subjects]

/-- Faults that are all of one category. -/
lemma subjects_of_kind {ds : List (Diagnostic α)} {own : Kind} (h : ∀ d ∈ ds, d.kind = own)
    (kind : Kind) : subjects kind ds = if own = kind then ds.map (·.subject) else [] := by
  rw [subjects]
  split
  · next heq => rw [List.filter_eq_self.mpr fun d hd => by simp [h d hd, heq]]
  · next hne => rw [List.filter_eq_nil_iff.mpr fun d hd => by simp [h d hd, hne], List.map_nil]

lemma subjects_map {f : β → Diagnostic α} (own : Kind) (h : ∀ x, (f x).kind = own) (kind : Kind)
    (xs : List β) :
    subjects kind (xs.map f) = if own = kind then xs.map fun x => (f x).subject else [] := by
  rw [subjects_of_kind (List.forall_mem_map.mpr fun x _ => h x), List.map_map]
  rfl

/-- Faults that are all of one category, with several for each entry of a list. -/
lemma subjects_flatMap {γ : Type} {f : β → γ → Diagnostic α} (own : Kind)
    (h : ∀ x y, (f x y).kind = own) (kind : Kind) (xs : List β) (g : β → List γ) :
    subjects kind (xs.flatMap fun x => (g x).map (f x)) =
      if own = kind then xs.flatMap fun x => (g x).map fun y => (f x y).subject else [] := by
  have hkind : ∀ d ∈ xs.flatMap fun x => (g x).map (f x), d.kind = own := by
    intro d hd
    obtain ⟨x, _, hx⟩ := List.mem_flatMap.mp hd
    obtain ⟨y, _, rfl⟩ := List.mem_map.mp hx
    exact h x y
  rw [subjects_of_kind hkind, List.map_flatMap]
  simp only [List.map_map]
  rfl

lemma mem_subjects {kind : Kind} {ds : List (Diagnostic α)} {subject : Option Ident} :
    subject ∈ subjects kind ds ↔ ∃ d ∈ ds, d.kind = kind ∧ d.subject = subject := by
  simp [subjects, and_assoc]

/-- There are no faults if there are none of any category. -/
lemma eq_nil_iff_subjects {ds : List (Diagnostic α)} : ds = [] ↔ ∀ kind, subjects kind ds = [] := by
  refine ⟨fun h kind => by rw [h, subjects_nil], fun h => ?_⟩
  rw [List.eq_nil_iff_forall_not_mem]
  intro d hd
  have hmem : d.subject ∈ subjects d.kind ds := mem_subjects.mpr ⟨d, hd, rfl, rfl⟩
  rw [h] at hmem
  exact absurd hmem List.not_mem_nil

/-! ### Faults counted by what they are about -/

lemma eq_nil_iff_of_perm {xs ys : List β} (h : xs ~ ys) : xs = [] ↔ ys = [] := by
  rw [← List.perm_nil, h.congr_left, List.perm_nil]

lemma count_replicates {ids : List Ident} (hids : ids.Nodup) (count : Ident → Nat) {id : Ident}
    (hid : id ∈ ids) :
    (ids.flatMap fun id => List.replicate (count id) (some id)).count (some id) = count id := by
  induction ids with
  | nil => exact absurd hid List.not_mem_nil
  | cons first ids ih =>
      rw [List.nodup_cons] at hids
      rw [List.flatMap_cons, List.count_append, List.count_replicate]
      rcases List.mem_cons.mp hid with rfl | hid
      · have hrest : some id ∉ ids.flatMap fun id => List.replicate (count id) (some id) := by
          simpa [List.mem_replicate] using fun h : id ∈ ids => absurd h hids.1
        rw [if_pos (beq_self_eq_true _), List.count_eq_zero.mpr hrest, Nat.add_zero]
      · have hne : first ≠ id := fun heq => hids.1 (heq ▸ hid)
        rw [if_neg (by simpa using hne), ih hids.2 hid, Nat.zero_add]

/-- Faults with the right number for each name, in some order. -/
lemma perm_replicates {ids : List Ident} (hids : ids.Nodup) {count : Ident → Nat}
    {xs : List (Option Ident)} (hcount : ∀ id ∈ ids, xs.count (some id) = count id)
    (hmem : ∀ x ∈ xs, ∃ id ∈ ids, x = some id) :
    xs ~ ids.flatMap fun id => List.replicate (count id) (some id) := by
  rw [List.perm_iff_count]
  intro x
  by_cases hx : ∃ id ∈ ids, x = some id
  · obtain ⟨id, hid, rfl⟩ := hx
    rw [hcount id hid, count_replicates hids count hid]
  · rw [List.count_eq_zero.mpr fun h => hx (hmem x h), List.count_eq_zero.mpr]
    intro h
    obtain ⟨id, hid, h⟩ := List.mem_flatMap.mp h
    exact hx ⟨id, hid, (List.mem_replicate.mp h).2⟩

end Drafting.Diagnostic
