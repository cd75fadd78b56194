import Mathlib
import Drafting.Draw.Stroke
import Drafting.Proofs.Sorting

/-!
The order of commands that were collected in layers.

Commands are sorted by their layers, and the sort is stable.  So the commands of a drawing are those
of the bottom layer as they were collected, then those of the next layer, and so on.

* `Layered.commands_eq`: commands are those of each layer in turn.
* `Layered.filter_commands`, `Layered.commands_of_layer`: leaving out commands does not change the
  order of the others, and those of one layer are in the order in which they were collected.
* `onLayer_box`, `depicting_box` and the like: what a stroke leaves in a layer, and for a role.
-/

namespace Drafting.Draw

/-! ### Layers -/

lemma Layer.map_level_all : Layer.all.map Layer.level = List.range 8 := by decide

lemma Layer.level_lt (layer : Layer) : layer.level < 8 := by cases layer <;> decide

lemma Layer.level_inj {layer layer' : Layer} : layer.level = layer'.level ↔ layer = layer' := by
  cases layer <;> cases layer' <;> decide

namespace Layered

variable {α : Type}

/-- The commands of one layer, in the order in which they were collected. -/
def onLayer (layer : Layer) (items : Layered α) : List (Command α) :=
  (items.filter fun item => item.1 = layer).map (·.2)

/-- **Commands are those of each layer in turn.** -/
lemma commands_eq (items : Layered α) :
    items.commands = Layer.all.flatMap fun layer => items.onLayer layer := by
  have hpieces := filter_lt_of_pairwise (fun item : Layer × Command α => item.1.level)
    (pairwise_mergeSort_key (fun item => item.1.level) items) 8
  simp only [filter_mergeSort, Layer.level_lt, decide_true, List.filter_true] at hpieces
  rw [commands, hpieces, ← Layer.map_level_all, List.flatMap_map, List.map_flatMap]
  simp only [Layer.level_inj]
  rfl

@[simp] lemma onLayer_nil (layer : Layer) : onLayer layer ([] : Layered α) = [] := rfl

@[simp] lemma onLayer_append (layer : Layer) (items items' : Layered α) :
    onLayer layer (items ++ items') = items.onLayer layer ++ items'.onLayer layer := by
  simp [onLayer]

@[simp] lemma onLayer_flatMap {β : Type} (layer : Layer) (xs : List β) (f : β → Layered α) :
    onLayer layer (xs.flatMap f) = xs.flatMap fun x => (f x).onLayer layer := by
  simp [onLayer, List.filter_flatMap, List.map_flatMap]

/-- What depicts one kind of thing. -/
def depicting (role : Role) (items : Layered α) : Layered α :=
  items.filter fun item => item.2.role = role

@[simp] lemma depicting_nil (role : Role) : depicting role ([] : Layered α) = [] := rfl

@[simp] lemma depicting_append (role : Role) (items items' : Layered α) :
    depicting role (items ++ items') = items.depicting role ++ items'.depicting role :=
  List.filter_append ..

@[simp] lemma depicting_flatMap {β : Type} (role : Role) (xs : List β) (f : β → Layered α) :
    depicting role (xs.flatMap f) = xs.flatMap fun x => (f x).depicting role :=
  List.filter_flatMap

/-- Leaving out commands does not change the order of the others. -/
lemma filter_commands (items : Layered α) (role : Role) :
    (items.commands.filter fun c => c.role = role) = (items.depicting role).commands := by
  rw [commands_eq, commands_eq, List.filter_flatMap]
  refine List.flatMap_congr fun layer _ => ?_
  simp only [onLayer, depicting, List.filter_map, List.filter_filter, Function.comp_def,
    Bool.and_comm]

/-- Commands of one layer keep their order. -/
lemma commands_of_layer {items : Layered α} {layer : Layer} (h : ∀ item ∈ items, item.1 = layer) :
    items.commands = items.map (·.2) := by
  have hsorted : items.Pairwise fun a b => decide (a.1.level ≤ b.1.level) := by
    refine List.pairwise_of_forall_mem_list fun a ha b hb => ?_
    simp [h a ha, h b hb]
  rw [commands, List.mergeSort_of_pairwise hsorted]

end Layered

/-! ### Strokes -/

lemma flatMap_nil_fun {β γ : Type} (xs : List β) : (xs.flatMap fun _ => ([] : List γ)) = [] :=
  List.flatMap_eq_nil_iff.mpr fun _ _ => rfl

lemma flatMap_ite_singleton {β γ : Type} (p : β → Prop) [DecidablePred p] (f : β → γ)
    (xs : List β) :
    (xs.flatMap fun x => if p x then [f x] else []) = (xs.filter p).map f := by
  induction xs with
  | nil => rfl
  | cons x xs ih => by_cases hx : p x <;> simp [hx, ih]

section Strokes

variable {α : Type} (layer : Layer)

@[simp] lemma onLayer_box (own : Layer) (role : Role) (b : Bounds α) :
    (box own role b).onLayer layer = if own = layer then [.rectangle b role] else [] := by
  by_cases h : own = layer <;> simp [box, Layered.onLayer, h]

@[simp] lemma onLayer_arrow (role : Role) (line : Line) (points : List (Point α)) :
    (arrow role line points).onLayer layer =
      if .arrow = layer ∧ 2 ≤ points.length then [.polyline points role line.arrow line.dashed]
      else [] := by
  rw [arrow]
  split
  next hfew => simp [hfew]
  next hmany => by_cases h : .arrow = layer <;> simp [Layered.onLayer, h, Nat.not_lt.mp hmany]

/-- The texts that are written: those that are not empty, around the centers of their boxes. -/
def written [Scalar α] (role : Role) (style : TextStyle) (texts : List (TextBox α)) :
    List (Command α) :=
  (texts.filter fun t => t.content ≠ "").map fun t =>
    .text t.bounds.center .middle t.content style role

@[simp] lemma onLayer_label [Scalar α] (role : Role) (style : TextStyle) (t : TextBox α) :
    (label role style t).onLayer layer = if .text = layer then written role style [t] else [] := by
  rw [label]
  split
  next hempty =>
    rw [String.isEmpty_iff] at hempty
    simp [written, hempty]
  next hsome =>
    rw [String.isEmpty_iff] at hsome
    by_cases h : .text = layer <;> simp [Layered.onLayer, written, h, hsome]

lemma flatMap_written [Scalar α] {β : Type} (role : Role) (style : TextStyle) (xs : List β)
    (f : β → List (TextBox α)) :
    (xs.flatMap fun x => written role style (f x)) = written role style (xs.flatMap f) := by
  simp [written, List.filter_flatMap, List.map_flatMap]

@[simp] lemma onLayer_label? [Scalar α] (role : Role) (style : TextStyle) (t : Option (TextBox α)) :
    (label? role style t).onLayer layer =
      if .text = layer then written role style t.toList else [] := by
  cases t with
  | none => simp [label?, written]
  | some t => simp [label?]

end Strokes

/-! ### Roles -/

section Roles

variable {α : Type} (wanted : Role)

lemma depicting_of_role {items : Layered α} {role : Role} (h : ∀ item ∈ items, item.2.role = role) :
    items.depicting wanted = if role = wanted then items else [] := by
  split
  next heq => exact List.filter_eq_self.mpr fun item hitem => by simpa [heq] using h item hitem
  next hne =>
    exact List.filter_eq_nil_iff.mpr fun item hitem => by simpa [h item hitem] using hne

@[simp] lemma depicting_box (layer : Layer) (role : Role) (b : Bounds α) :
    (box layer role b).depicting wanted = if role = wanted then box layer role b else [] :=
  depicting_of_role wanted (by simp [box, Command.role])

@[simp] lemma depicting_segment (layer : Layer) (role : Role) (line : Line) (p q : Point α) :
    (segment layer role line p q).depicting wanted =
      if role = wanted then segment layer role line p q else [] :=
  depicting_of_role wanted (by simp [segment, Command.role])

@[simp] lemma depicting_arrow (role : Role) (line : Line) (points : List (Point α)) :
    (arrow role line points).depicting wanted =
      if role = wanted then arrow role line points else [] :=
  depicting_of_role wanted (by rw [arrow]; split <;> simp [Command.role])

@[simp] lemma depicting_outline (layer : Layer) (role : Role) (segments : List (Segment α)) :
    (outline layer role segments).depicting wanted =
      if role = wanted then outline layer role segments else [] :=
  depicting_of_role wanted (by simp [outline, Command.role])

@[simp] lemma depicting_label [Scalar α] (role : Role) (style : TextStyle) (t : TextBox α) :
    (label role style t).depicting wanted = if role = wanted then label role style t else [] :=
  depicting_of_role wanted (by rw [label]; split <;> simp [Command.role])

@[simp] lemma depicting_label? [Scalar α] (role : Role) (style : TextStyle)
    (t : Option (TextBox α)) :
    (label? role style t).depicting wanted = if role = wanted then label? role style t else [] := by
  cases t with
  | none => simp [label?, Layered.depicting]
  | some t => simp [label?]

end Roles

end Drafting.Draw
