import Mathlib
import Drafting.Proofs.Sequence.Coverage
import Drafting.Proofs.Sequence.Matching
import Drafting.Proofs.Sequence.Slots

/-!
What columns reserve room for.

The room of a column is computed before anything is drawn, and what is drawn beside the lifeline
lies in it: the header, the bars, loops, notes, and stubs that lead away.  Only a stub that
leads to the lifeline can stick out.  It is drawn from the left side of a bar, but its room is
counted from the lifeline.

* `Columns.barReach_le_reachOf`, `Columns.covers_barExtent`, `Columns.covers_slotExtent`: what is
  reserved.
* `Assembly.attachX_cases`: where an arrow meets a lifeline.
* `Assembly.holds_header`, `Assembly.holds_bar`, `Assembly.holds_loop`, `Assembly.holds_outgoing`,
  `Assembly.holds_incoming`, `Assembly.holds_note`: how far is drawn.
* `Layout.Reserves`, `Assembly.reserves_layout`: columns have room for what is drawn beside them.
* `Diagram.columns_reserve_all_but_incoming_stubs`: so it is in every drawing.
* `Diagram.incoming_stub_sticks_out`: a stub outside of the room of its column.
-/

namespace Drafting

/-- A reach that is at least another one on both sides. -/
def Extent.Covers (e f : Extent Rat) : Prop := f.before ≤ e.before ∧ f.after ≤ e.after

lemma Extent.covers_cover_left (e f : Extent Rat) : (e.cover f).Covers e :=
  ⟨le_max_left _ _, le_max_left _ _⟩

lemma Extent.covers_cover_right (e f : Extent Rat) : (e.cover f).Covers f :=
  ⟨le_max_right _ _, le_max_right _ _⟩

lemma Extent.Covers.trans {e f g : Extent Rat} (h : e.Covers f) (h' : f.Covers g) : e.Covers g :=
  ⟨h'.1.trans h.1, h'.2.trans h.2⟩

end Drafting

namespace Drafting.Sequence

/-! ### What is reserved -/

namespace Columns

variable {s : Setting Rat} {roster : Roster Rat} {k : Nat}

/-- How far a bar of a depth reaches to the right of its lifeline. -/
def barReach (s : Setting Rat) (depth : Nat) : Rat :=
  Scalar.half s.config.sequence.activationWidth +
    Scalar.ofNat depth * s.config.sequence.activationIndent

/-- A bar is moved to the right for each bar below it. -/
lemma half_le_barReach (hindent : 0 ≤ s.config.sequence.activationIndent) (depth : Nat) :
    Scalar.half s.config.sequence.activationWidth ≤ barReach s depth :=
  le_add_of_nonneg_right (mul_nonneg (Nat.cast_nonneg depth) hindent)

lemma size_reachOf (s : Setting Rat) (count : Nat) (activations : Array (Activation Rat)) :
    (reachOf s count activations).size = count := by
  rw [reachOf, ← Array.foldl_toList, size_foldl fun _ _ => Array.size_modify, Array.size_replicate]

/-- The reach of a column is at least that of each of its bars. -/
lemma barReach_le_reachOf {count : Nat} {activations : Array (Activation Rat)} {x : Activation Rat}
    (hx : x ∈ activations) {r : Rat} (hr : (reachOf s count activations)[x.column]? = some r) :
    barReach s x.depth ≤ r := by
  rw [reachOf, ← Array.foldl_toList] at hr
  exact forall_foldl_modify_of_mem (p := Activation.column)
    (f := fun a v => max v (barReach s a.depth)) (P := fun v => barReach s x.depth ≤ v)
    (fun _ _ _ hle => hle.trans (le_max_left _ _)) (Array.mem_toList_iff.mpr hx)
    (fun _ => le_max_right _ _) _ _ hr

lemma reachOf_nonneg {count : Nat} {activations : Array (Activation Rat)} {r : Rat}
    (hr : (reachOf s count activations)[k]? = some r) : 0 ≤ r := by
  rw [reachOf, ← Array.foldl_toList] at hr
  refine forall_foldl_modify (p := Activation.column)
    (f := fun a v => max v (barReach s a.depth)) (P := fun v => 0 ≤ v)
    (fun _ _ _ hle => hle.trans (le_max_left _ _)) (fun v hv => ?_) r hr
  rw [Array.getElem?_replicate] at hv
  split at hv
  · exact (Option.some.inj hv).le
  · cases hv

/-- A column reserves room for its header and its bars. -/
lemma covers_barExtent {c : Column Rat} (hc : roster[k]? = some c) {reach : Array Rat} {r : Rat}
    (hr : reach[k]? = some r) (slots : List (Slot Rat)) {e : Drafting.Extent Rat}
    (he : (extentsOf s roster reach slots)[k]? = some e) : e.Covers (barExtent s c.header r) := by
  refine forall_foldl_modify (p := Prod.fst) (f := fun entry v => v.cover entry.2)
    (P := fun v => v.Covers (barExtent s c.header r))
    (fun _ _ v hv => (v.covers_cover_left _).trans hv) (fun v hv => ?_) e he
  have hzip : (roster.zip reach.toList)[k]? = some (c, r) :=
    List.getElem?_zip_eq_some.mpr ⟨hc, Array.getElem?_toList.trans hr⟩
  rw [List.getElem?_toArray, List.getElem?_map, hzip, Option.map_some, Option.some.injEq] at hv
  rw [← hv]
  exact ⟨le_refl _, le_refl _⟩

/-- A column reserves room for what is drawn beside it. -/
lemma covers_slotExtent {slots : List (Slot Rat)} {slot : Slot Rat} (hslot : slot ∈ slots)
    {reach : Array Rat} {f : Drafting.Extent Rat} (hf : slotExtent? s reach slot = some (k, f))
    {e : Drafting.Extent Rat} (he : (extentsOf s roster reach slots)[k]? = some e) : e.Covers f :=
  forall_foldl_modify_of_mem (p := Prod.fst)
    (f := fun (entry : Nat × Drafting.Extent Rat) (v : Drafting.Extent Rat) => v.cover entry.2)
    (P := fun v => v.Covers f) (x := (k, f)) (fun _ _ v hv => (v.covers_cover_left _).trans hv)
    (List.mem_filterMap.mpr ⟨slot, hslot, hf⟩) (fun v => v.covers_cover_right f) _ e he

end Columns

/-- A range has a box in it, horizontally. -/
def ColumnRange.Holds (r : ColumnRange Rat) (b : Bounds Rat) : Prop :=
  r.minX ≤ b.minX ∧ b.maxX ≤ r.maxX

lemma ColumnRange.Holds.of_encloses {r : ColumnRange Rat} {b c : Bounds Rat} (h : r.Holds b)
    (hencloses : b.Encloses c) : r.Holds c :=
  ⟨h.1.trans hencloses.minX, hencloses.maxX.trans h.2⟩

lemma ColumnRange.Holds.mono {r q : ColumnRange Rat} {b : Bounds Rat} (h : r.Holds b)
    (hmin : q.minX ≤ r.minX) (hmax : r.maxX ≤ q.maxX) : q.Holds b :=
  ⟨hmin.trans h.1, h.2.trans hmax⟩

namespace Assembly

variable {a : Assembly Rat} {k : Nat}

/-- How far the bars of a column reach to the right. -/
def reach (a : Assembly Rat) (k : Nat) : Rat := a.columns.reach.getD k 0

/-- The room of a column extends as far as given from its lifeline. -/
def Reserved (a : Assembly Rat) (k : Nat) (f : Drafting.Extent Rat) : Prop :=
  (a.columns.range k).minX ≤ a.columns.center k - f.before ∧
    a.columns.center k + f.after ≤ (a.columns.range k).maxX

lemma Reserved.holds {f : Drafting.Extent Rat} (h : a.Reserved k f) {r : ColumnRange Rat}
    {b : Bounds Rat} (hb : r.Holds b) (hmin : a.columns.center k - f.before ≤ r.minX)
    (hmax : r.maxX ≤ a.columns.center k + f.after) : (a.columns.range k).Holds b :=
  hb.mono (h.1.trans hmin) (hmax.trans h.2)

lemma Reserved.of_covers {e f : Drafting.Extent Rat} (h : a.Reserved k e) (hcovers : e.Covers f) :
    a.Reserved k f :=
  ⟨h.1.trans (sub_le_sub_left hcovers.1 _), (add_le_add_right hcovers.2 _).trans h.2⟩

section Room

variable (ha : a.columns = Columns.ofTimeline a.setting a.roster a.timeline)

include ha

lemma reach_eq :
    a.columns.reach = Columns.reachOf a.setting a.roster.length a.timeline.activations := by
  rw [ha]
  rfl

lemma exists_extent (hk : k < a.roster.length) :
    ∃ e, (Columns.extentsOf a.setting a.roster a.columns.reach a.timeline.slots)[k]? = some e ∧
      a.Reserved k e := by
  have hextents : a.columns.extents =
      Columns.extentsOf a.setting a.roster a.columns.reach a.timeline.slots := by rw [ha]; rfl
  have hsize : k < a.columns.extents.size := by
    rw [hextents, reach_eq ha, Columns.size_extentsOf]
    exact hk
  rw [← hextents]
  refine ⟨_, Array.getElem?_eq_getElem hsize, ?_⟩
  rw [Reserved, Columns.range, Array.getD_eq_getD_getElem?, Array.getElem?_eq_getElem hsize,
    Option.getD_some]
  exact ⟨le_refl _, le_refl _⟩

lemma getElem?_reach (hk : k < a.roster.length) : a.columns.reach[k]? = some (a.reach k) := by
  have hsize : k < a.columns.reach.size := by
    rw [reach_eq ha, Columns.size_reachOf]
    exact hk
  rw [reach, Array.getD_eq_getD_getElem?, Array.getElem?_eq_getElem hsize, Option.getD_some]

lemma reach_nonneg (hk : k < a.roster.length) : 0 ≤ a.reach k := by
  have hreach := getElem?_reach ha hk
  rw [reach_eq ha] at hreach
  exact Columns.reachOf_nonneg hreach

/-- **A column has room for what it reserves.** -/
lemma reserved_of_slot (hk : k < a.roster.length) {slot : Slot Rat}
    (hslot : slot ∈ a.timeline.slots) {f : Drafting.Extent Rat}
    (hf : Columns.slotExtent? a.setting a.columns.reach slot = some (k, f)) : a.Reserved k f := by
  obtain ⟨e, he, hreserved⟩ := exists_extent ha hk
  exact hreserved.of_covers (Columns.covers_slotExtent hslot hf he)

/-- A column has room for its header. -/
lemma reserved_header {c : Column Rat} (hc : a.roster[k]? = some c) :
    a.Reserved k (Extent.symmetric c.header.width) := by
  have hk := (List.getElem?_eq_some_iff.mp hc).1
  obtain ⟨e, he, hreserved⟩ := exists_extent ha hk
  refine hreserved.of_covers
    ((Columns.covers_barExtent hc (getElem?_reach ha hk) _ he).trans ?_)
  rw [Columns.barExtent]
  split
  · exact Extent.covers_cover_left _ _
  · exact ⟨le_refl _, le_refl _⟩

/-- A column has room for its bars. -/
lemma reserved_bars (hwidth : 0 < a.distances.activationWidth)
    (hindent : 0 ≤ a.distances.activationIndent) {x : Activation Rat}
    (hx : x ∈ a.timeline.activations) (hk : x.column < a.roster.length) :
    Columns.barReach a.setting x.depth ≤ a.reach x.column ∧
      a.Reserved x.column ⟨Scalar.half a.distances.activationWidth, a.reach x.column⟩ := by
  have hreach := getElem?_reach ha hk
  obtain ⟨e, he, hreserved⟩ := exists_extent ha hk
  have hcovers := Columns.covers_barExtent (List.getElem?_eq_getElem hk) hreach _ he
  rw [reach_eq ha] at hreach
  have hle := Columns.barReach_le_reachOf hx hreach
  refine ⟨hle, hreserved.of_covers (hcovers.trans ?_)⟩
  have hpositive : 0 < Columns.barReach a.setting x.depth := by
    refine lt_of_lt_of_le ?_ (Columns.half_le_barReach hindent x.depth)
    exact half_pos hwidth
  rw [Columns.barExtent, if_pos (hpositive.trans_le hle)]
  exact Extent.covers_cover_right _ _

/-- The reach of a column lies in its room, with or without bars. -/
lemma reach_le_range {c : Column Rat} (hc : a.roster[k]? = some c) (hheader : 0 ≤ c.header.width) :
    a.columns.center k + a.reach k ≤ (a.columns.range k).maxX := by
  have hk := (List.getElem?_eq_some_iff.mp hc).1
  obtain ⟨e, he, hreserved⟩ := exists_extent ha hk
  have hcovers := Columns.covers_barExtent hc (getElem?_reach ha hk) _ he
  rw [Columns.barExtent] at hcovers
  split at hcovers
  · exact (hreserved.of_covers (hcovers.trans (Extent.covers_cover_right _ _))).2
  · next hnone =>
      have hafter := (reserved_header ha hc).2
      simp only [Extent.symmetric, Scalar.half] at hafter
      linarith [not_lt.mp hnone]

end Room

/-! ### Where arrows meet lifelines -/

/-- The deepest of some bars is one of them. -/
lemma of_foldl_deeper {α : Type} {gs : List (ActivationGeometry α)}
    {best : Option (ActivationGeometry α)} {g : ActivationGeometry α}
    (h : gs.foldl deeper best = some g) : best = some g ∨ g ∈ gs := by
  induction gs generalizing best with
  | nil => exact .inl h
  | cons first gs ih =>
      rcases ih h with hdeeper | hmem
      · simp only [deeper] at hdeeper
        split at hdeeper
        · split at hdeeper
          · exact .inr (Option.some.inj hdeeper ▸ List.mem_cons_self)
          · exact .inl hdeeper
        · exact .inr (Option.some.inj hdeeper ▸ List.mem_cons_self)
      · exact .inr (List.mem_cons_of_mem _ hmem)

/-- An arrow meets the lifeline itself or a side of one of the bars at its height. -/
lemma attachX_cases (a : Assembly Rat) (k : Nat) (y : Rat) (right : Bool) :
    a.attachX a.bars k y right = a.columns.center k ∨
      ∃ x ∈ a.timeline.activations, x.column = k ∧ (a.activation x).bounds.minY ≤ y ∧
        y ≤ (a.activation x).bounds.maxY ∧ a.attachX a.bars k y right =
          if right then (a.activation x).bounds.maxX else (a.activation x).bounds.minX := by
  rw [attachX]
  dsimp only
  split
  · next g hg =>
      obtain hnone | hmem := of_foldl_deeper hg
      · cases hnone
      · simp only [bars, List.mem_map, List.mem_filter, Bool.and_eq_true, beq_iff_eq,
          decide_eq_true_eq] at hmem
        obtain ⟨_, ⟨⟨x, hx, rfl⟩, ⟨hcolumn, htop⟩, hbottom⟩, rfl⟩ := hmem
        exact .inr ⟨x, Array.mem_toList_iff.mp hx, hcolumn, htop, hbottom, rfl⟩
  · exact .inl rfl

section Sides

variable (ha : a.columns = Columns.ofTimeline a.setting a.roster a.timeline)
  (hsides : a.distances.SensibleSides)

include ha hsides

/-- A bar begins half its width before its lifeline or later, ends behind it, and does not exceed
the reach of its column. -/
lemma activation_sides {x : Activation Rat} (hx : x ∈ a.timeline.activations)
    (hk : x.column < a.roster.length) :
    let b := (a.activation x).bounds
    a.columns.center x.column - Scalar.half a.distances.activationWidth ≤ b.minX ∧
      b.minX ≤ b.maxX ∧ a.columns.center x.column ≤ b.maxX ∧
      b.maxX ≤ a.columns.center x.column + a.reach x.column := by
  have hwidth := hsides.activationWidth
  obtain ⟨hle, -⟩ := reserved_bars ha hwidth hsides.activationIndent hx hk
  have hhalf := Columns.half_le_barReach (s := a.setting) hsides.activationIndent x.depth
  simp only [Columns.barReach, Scalar.half] at hle hhalf
  simp only [activation, Bounds.ofCorner, distances, Scalar.half] at hwidth ⊢
  refine ⟨?_, ?_, ?_, ?_⟩ <;> linarith

variable (hk : k < a.roster.length)

include hk

/-- On the right an arrow meets a lifeline within the reach of its bars. -/
lemma attachX_right (y : Rat) :
    a.columns.center k ≤ a.attachX a.bars k y true ∧
      a.attachX a.bars k y true ≤ a.columns.center k + a.reach k := by
  obtain hcenter | ⟨x, hx, rfl, -, -, hattach⟩ := attachX_cases a k y true
  · rw [hcenter]
    exact ⟨le_refl _, le_add_of_nonneg_right (reach_nonneg ha hk)⟩
  · obtain ⟨-, -, hcenter, hreach⟩ := activation_sides ha hsides hx hk
    rw [hattach, if_pos rfl]
    exact ⟨hcenter, hreach⟩

/-- On the left an arrow meets a lifeline half the width of a bar before it or later, and not before
it if no bar at its height begins there. -/
lemma attachX_left (y : Rat) :
    a.columns.center k - Scalar.half a.distances.activationWidth ≤ a.attachX a.bars k y false ∧
      a.attachX a.bars k y false ≤ a.columns.center k + a.reach k ∧
      ((∀ x ∈ a.timeline.activations, x.column = k → (a.activation x).bounds.minY ≤ y →
        y ≤ (a.activation x).bounds.maxY → a.columns.center k ≤ (a.activation x).bounds.minX) →
        a.columns.center k ≤ a.attachX a.bars k y false) := by
  have hwidth := half_pos hsides.activationWidth
  obtain hcenter | ⟨x, hx, rfl, htop, hbottom, hattach⟩ := attachX_cases a k y false
  · rw [hcenter]
    exact ⟨sub_le_self _ hwidth.le, le_add_of_nonneg_right (reach_nonneg ha hk), fun _ => le_refl _⟩
  · obtain ⟨hleft, hsize, -, hreach⟩ := activation_sides ha hsides hx hk
    rw [hattach, if_neg Bool.false_ne_true]
    exact ⟨hleft, hsize.trans hreach, fun hbars => hbars x hx rfl htop hbottom⟩

end Sides

/-! ### How far is drawn -/

/-- A message lies in a range if its points and its text do. -/
lemma message_boxes {g : MessageGeometry Rat} {r : ColumnRange Rat}
    (hpoints : ∀ p ∈ g.points, r.minX ≤ p.x ∧ p.x ≤ r.maxX)
    (hlabel : ∀ text ∈ g.label, r.Holds text.bounds) :
    ∀ b ∈ (EventShape.message g).boxes, r.Holds b := by
  simp only [EventShape.boxes, List.forall_mem_append, List.forall_mem_map, Bounds.around_zero]
  exact ⟨hpoints, fun text htext => hlabel text (Option.mem_toList.mp htext)⟩

/-- A stub with its text between its ends. -/
lemma stub_boxes (hpadding : 0 ≤ a.distances.messageLabelPadding)
    (hstub : 0 ≤ a.distances.stubLength) {kind : MessageKind} (hkind : kind ≠ .selfMessage)
    (style : MessageStyle) (label : Option (MeasuredText Rat)) (x y : Rat) :
    let stop := x + Columns.stubLength a.setting label
    let points : List (Point Rat) := [⟨x, y⟩, ⟨stop, y⟩]
    ∀ b ∈ (EventShape.message ⟨kind, style, points,
      label.map (a.messageLabel points y kind)⟩).boxes, (⟨x, stop⟩ : ColumnRange Rat).Holds b := by
  intro stop points
  have hlength : 0 ≤ Columns.stubLength a.setting label := hstub.trans (le_max_left _ _)
  have hstop : x ≤ stop := le_add_of_nonneg_right hlength
  refine message_boxes ?_ fun text htext => ?_
  · simp only [points, List.forall_mem_cons]
    exact ⟨⟨le_refl _, hstop⟩, ⟨hstop, le_refl _⟩, fun _ h => absurd h List.not_mem_nil⟩
  · obtain ⟨measured, rfl, rfl⟩ := Option.map_eq_some_iff.mp htext
    have hwidth : measured.size.width + 2 * a.distances.messageLabelPadding ≤
        Columns.stubLength a.setting (some measured) := le_max_right _ _
    have hplace : a.messageLabel points y kind measured = measured.placeAt
        ⟨Scalar.half (x + stop) - Scalar.half measured.size.width,
          y - a.distances.messageLabelPadding - measured.size.height⟩ := by
      cases kind with
      | selfMessage => exact absurd rfl hkind
      | _ => rfl
    rw [hplace]
    simp only [ColumnRange.Holds, MeasuredText.placeAt, Bounds.ofCorner, Scalar.half, stop]
    constructor <;> linarith

/-- A note beside a lifeline or over it lies where its column reserves room. -/
lemma noteSides_within (hgap : 0 ≤ a.distances.noteGap) (hreach : 0 ≤ a.reach k) {n : NoteSlot Rat}
    {f : Drafting.Extent Rat} (hf : Columns.noteExtent? a.setting a.columns.reach n = some (k, f)) :
    a.columns.center k - f.before ≤ (a.noteSides n).1 ∧
      (a.noteSides n).2 ≤ a.columns.center k + f.after := by
  rw [Columns.noteExtent?] at hf
  rw [noteSides]
  cases hanchor : n.anchor with
  | leftOf column =>
      simp only [hanchor, Option.some.injEq, Prod.mk.injEq] at hf
      obtain ⟨rfl, rfl⟩ := hf
      simp only [distances] at hgap ⊢
      constructor <;> linarith
  | rightOf column =>
      simp only [hanchor, Option.some.injEq, Prod.mk.injEq] at hf
      obtain ⟨rfl, rfl⟩ := hf
      simp only [distances] at hgap ⊢
      simp only [reach] at hreach
      constructor <;> linarith
  | spanning first last =>
      simp only [hanchor] at hf
      split at hf
      · next heq =>
          simp only [Option.some.injEq, Prod.mk.injEq] at hf
          obtain ⟨rfl, rfl⟩ := hf
          subst heq
          simp only [ne_eq, not_true_eq_false, false_and, if_false, Extent.symmetric, Scalar.half]
          constructor <;> linarith
      · cases hf
  | across => simp [hanchor] at hf

/-- **A column has room for its header.** -/
lemma holds_header (ha : a.columns = Columns.ofTimeline a.setting a.roster a.timeline)
    {c : Column Rat} (hc : a.roster[k]? = some c) (delays : List (Rat × Rat)) :
    (a.columns.range k).Holds (a.participant delays k c).header := by
  obtain ⟨hmin, hmax⟩ := reserved_header ha hc
  simp only [Extent.symmetric, Scalar.half] at hmin hmax
  simp only [participant]
  split <;> simp only [ColumnRange.Holds, Bounds.around, Bounds.ofCorner, Scalar.half] <;>
    constructor <;> linarith

/-- **A column has room for its bars.** -/
lemma holds_bar (ha : a.columns = Columns.ofTimeline a.setting a.roster a.timeline)
    (hsides : a.distances.SensibleSides) {x : Activation Rat} (hx : x ∈ a.timeline.activations)
    (hk : x.column < a.roster.length) :
    (a.columns.range x.column).Holds (a.activation x).bounds := by
  obtain ⟨hleft, -, -, hright⟩ := activation_sides ha hsides hx hk
  obtain ⟨-, hmin, hmax⟩ := reserved_bars ha hsides.activationWidth hsides.activationIndent hx hk
  exact ⟨hmin.trans hleft, hright.trans hmax⟩

section Messages

variable (ha : a.columns = Columns.ofTimeline a.setting a.roster a.timeline)
  (hsides : a.distances.SensibleSides) (hpadding : 0 ≤ a.distances.messageLabelPadding)
  (hk : k < a.roster.length) {slot : Slot Rat} (hslot : slot ∈ a.timeline.slots)

include ha hsides hpadding hk hslot

/-- **A column has room for the loops of its participant.** -/
lemma holds_loop {y : Rat} {style : MessageStyle} {target : Option Nat}
    {label : Option (MeasuredText Rat)} (index : Nat)
    (hkind : slot.kind = .message ⟨.selfMessage, style, some k, target, label⟩) :
    ∀ b ∈ (EventShape.message (a.message a.bars index y
      ⟨.selfMessage, style, some k, target, label⟩)).boxes, (a.columns.range k).Holds b := by
  have hroom := reserved_of_slot ha hk hslot (f := ⟨0, a.reach k + max
    a.distances.selfMessageWidth (a.distances.messageLabelPadding + MeasuredText.widthOf label)⟩)
    (by simp only [Columns.slotExtent?, hkind]; rfl)
  set width := max a.distances.selfMessageWidth
    (a.distances.messageLabelPadding + MeasuredText.widthOf label)
  have hloop : a.distances.selfMessageWidth ≤ width := le_max_left _ _
  have htext : a.distances.messageLabelPadding + MeasuredText.widthOf label ≤ width :=
    le_max_right _ _
  have hwidth : 0 ≤ a.distances.selfMessageWidth := hsides.selfMessageWidth
  -- the loop begins and ends within the reach of the bars
  set start := a.attachX a.bars k y true with hstart
  set stop := a.attachX a.bars k (y + a.distances.selfMessageHeight) true with hstop
  obtain ⟨hstartMin, hstartMax⟩ := hstart ▸ attachX_right ha hsides hk y
  obtain ⟨hstopMin, hstopMax⟩ :=
    hstop ▸ attachX_right ha hsides hk (y + a.distances.selfMessageHeight)
  have hfarMin := le_max_left start stop
  have hfarMax : max start stop ≤ a.columns.center k + a.reach k := max_le hstartMax hstopMax
  have hboxes : ∀ b ∈ (EventShape.message (a.message a.bars index y
      ⟨.selfMessage, style, some k, target, label⟩)).boxes,
      (⟨a.columns.center k, a.columns.center k + (a.reach k + width)⟩ :
        ColumnRange Rat).Holds b := by
    refine message_boxes ?_ fun text hmem => ?_
    · simp only [message, messagePoints, ← hstart, ← hstop, List.forall_mem_cons]
      refine ⟨⟨?_, ?_⟩, ⟨?_, ?_⟩, ⟨?_, ?_⟩, ⟨?_, ?_⟩, fun _ h => absurd h List.not_mem_nil⟩ <;>
        linarith
    · obtain ⟨measured, rfl, rfl⟩ := Option.map_eq_some_iff.mp hmem
      simp only [MeasuredText.widthOf] at htext
      simp only [ColumnRange.Holds, messageLabel, messagePoints, ← hstart, List.head?_cons,
        Option.getD_some, MeasuredText.placeAt, Bounds.ofCorner]
      constructor <;> linarith
  exact fun b hb => hroom.holds (hboxes b hb) (sub_zero _).le (le_refl _)

/-- **A column has room for the stubs that lead away from it.** -/
lemma holds_outgoing {kind : MessageKind} (hstub : kind = .lost ∨ kind = .unresolved) {y : Rat}
    {style : MessageStyle} {label : Option (MeasuredText Rat)} (index : Nat)
    (hkind : slot.kind = .message ⟨kind, style, some k, none, label⟩) :
    ∀ b ∈ (EventShape.message (a.message a.bars index y
      ⟨kind, style, some k, none, label⟩)).boxes, (a.columns.range k).Holds b := by
  have hroom := reserved_of_slot ha hk hslot
    (f := ⟨0, a.reach k + Columns.stubLength a.setting label⟩)
    (by simp only [Columns.slotExtent?, hkind]; rcases hstub with rfl | rfl <;> rfl)
  obtain ⟨hstart, hreach⟩ := attachX_right ha hsides hk y
  have hboxes := stub_boxes hpadding hsides.stubLength
    (show kind ≠ .selfMessage by rcases hstub with rfl | rfl <;> decide) style label
    (a.attachX a.bars k y true) y
  intro b hb
  refine hroom.holds (hboxes b ?_) ?_ ?_
  · rcases hstub with rfl | rfl <;> exact hb
  · simpa using hstart
  · dsimp only
    linarith

/-- **A stub that leads to a column sticks out of its room by no more than half the width of a
bar,** and not at all if no bar at its height begins before the lifeline. -/
lemma holds_incoming {c : Column Rat} (hc : a.roster[k]? = some c) (hheader : 0 ≤ c.header.width)
    {y : Rat} {style : MessageStyle} {label : Option (MeasuredText Rat)} (index : Nat)
    (hkind : slot.kind = .message ⟨.unresolved, style, none, some k, label⟩) :
    ∀ b ∈ (EventShape.message (a.message a.bars index y
      ⟨.unresolved, style, none, some k, label⟩)).boxes,
      b.maxX ≤ (a.columns.range k).maxX ∧
      (a.columns.range k).minX - Scalar.half a.distances.activationWidth ≤ b.minX ∧
      ((∀ x ∈ a.timeline.activations, x.column = k → (a.activation x).bounds.minY ≤ y →
        y ≤ (a.activation x).bounds.maxY → a.columns.center k ≤ (a.activation x).bounds.minX) →
        (a.columns.range k).Holds b) := by
  obtain ⟨hroom, -⟩ := reserved_of_slot ha hk hslot
    (f := ⟨Columns.stubLength a.setting label, 0⟩)
    (by simp only [Columns.slotExtent?, hkind]; rfl)
  have hreach := reach_le_range ha hc hheader
  obtain ⟨hleft, hright, hbars⟩ := attachX_left ha hsides hk y
  set stop := a.attachX a.bars k y false with hstop
  set stub := Columns.stubLength a.setting label with hstub
  have hboxes := stub_boxes hpadding hsides.stubLength
    (by decide : MessageKind.unresolved ≠ .selfMessage) style label (stop - stub) y
  rw [← hstub, sub_add_cancel] at hboxes
  intro b hb
  obtain ⟨hmin, hmax⟩ := hboxes b hb
  dsimp only at hroom hmin hmax
  have hmaxX : b.maxX ≤ (a.columns.range k).maxX := hmax.trans (hright.trans hreach)
  refine ⟨hmaxX, by linarith, fun hnone => ⟨?_, hmaxX⟩⟩
  linarith [hbars hnone]

omit hpadding in
/-- **A column has room for the notes beside it and over it.** -/
lemma holds_note {n : NoteSlot Rat} (hkind : slot.kind = .note n) (hfits : slot.kind.NoteFits)
    (hwidth : 0 ≤ n.size.width) {f : Drafting.Extent Rat}
    (hf : Columns.noteExtent? a.setting a.columns.reach n = some (k, f)) (y : Rat) :
    ∀ b ∈ (EventShape.note (a.note y n)).boxes, (a.columns.range k).Holds b := by
  have hroom := reserved_of_slot ha hk hslot (f := f)
    (by simp only [Columns.slotExtent?, hkind]; exact hf)
  obtain ⟨hleft, hright⟩ := noteSides_within hsides.noteGap (reach_nonneg ha hk) hf
  have hsize := width_le_noteSides (a := a) n
  rw [hkind] at hfits
  have hordered : (a.noteSides n).1 ≤ (a.noteSides n).2 := by linarith
  have hnote : (a.columns.range k).Holds (a.note y n).bounds :=
    ⟨hroom.1.trans (le_min hleft (hleft.trans hordered)),
      (max_le (hordered.trans hright) hright).trans hroom.2⟩
  have hlabel := note_encloses_label (a := a) hfits y
  simp only [EventShape.boxes, List.forall_mem_cons]
  exact ⟨hnote, hnote.of_encloses hlabel, fun _ h => absurd h List.not_mem_nil⟩

end Messages

end Assembly

/-! ### Events beside lifelines -/

/-- An event that is drawn beside a lifeline or over it alone: a message to oneself, to nobody or to
somebody unknown, and a note that names nobody else. -/
def Event.Beside (m : Model) (id : Ident) : Event → Prop
  | .message msg => msg.source = id ∧ ∀ target ∈ msg.target, target = id ∨ target ∉ m.names
  | .note n => n.placement = .leftOf id ∨ n.placement = .rightOf id ∨
      n.placement = .spanning id none ∨ n.placement = .spanning id (some id)
  | _ => False

/-- A message from somebody unknown. -/
def Event.Incoming (m : Model) (id : Ident) : Event → Prop
  | .message msg => msg.source ∉ m.names ∧ msg.target = some id
  | _ => False

namespace Timeline

variable {α : Type} [Scalar α] (s : Setting α) (roster : Roster α) {m : Model} {i : Nat}

/-- What a message becomes. -/
lemma slot_of_message {msg : Message} (h : m.events[i]? = some (.message msg)) :
    ∃ y label, (ofModel s roster m).slots[i]? = some ⟨y, true, .message
      ⟨State.messageKind msg (roster.columnOf? msg.source) (msg.target.bind roster.columnOf?),
        msg.style, roster.columnOf? msg.source, msg.target.bind roster.columnOf?, label⟩⟩ := by
  refine ⟨_, _, (exists_slot s roster h).trans (congrArg some (settle_eq_self ?_ _))⟩
  rfl

/-- What a note becomes. -/
lemma slot_of_note {n : Note} (h : m.events[i]? = some (.note n)) :
    ∃ y label, (ofModel s roster m).slots[i]? = some ⟨y, true, .note
      ⟨State.noteAnchor roster n.placement, label,
        ⟨label.size.width + 2 * s.config.sequence.notePadding,
          label.size.height + 2 * s.config.sequence.notePadding⟩⟩⟩ ∧
      label = s.measured n.text s.config.styles.note none := by
  refine ⟨_, _, (exists_slot s roster h).trans (congrArg some (settle_eq_self ?_ _)), ?_⟩
  · rfl
  · rfl

end Timeline

/-! ### Diagrams -/

/-- Columns have room for what is drawn beside their lifelines.  Only stubs that lead to a lifeline
may stick out, by a given overhang, where a bar begins before it. -/
structure Layout.Reserves (m : Model) (overhang : Rat) (l : Layout Rat) : Prop where
  names : (l.participants.map (·.id)).Perm m.names
  events : l.events.length = m.events.length
  header : ∀ p ∈ l.participants, p.range.Holds p.header
  bars : ∀ p ∈ l.participants, ∀ g ∈ l.activations, g.participant = p.id → p.range.Holds g.bounds
  beside : ∀ p ∈ l.participants, ∀ x ∈ m.events.zip l.events, x.1.Beside m p.id →
    ∀ b ∈ x.2.shape.boxes, p.range.Holds b
  incoming : ∀ p ∈ l.participants, ∀ x ∈ m.events.zip l.events, x.1.Incoming m p.id →
    ∀ b ∈ x.2.shape.boxes, b.maxX ≤ p.range.maxX ∧ p.range.minX - overhang ≤ b.minX ∧
      ((∀ g ∈ l.activations, g.participant = p.id → g.bounds.minY ≤ x.2.y →
        x.2.y ≤ g.bounds.maxY → p.centerX ≤ g.bounds.minX) → p.range.Holds b)

namespace Assembly

variable {s : Setting Rat} {m : Model} {k : Nat}

/-- The participants of a drawing with their columns. -/
lemma of_mem_participants {p : ParticipantGeometry Rat}
    (h : p ∈ (ofModel s m).layout.participants) :
    ∃ k c, (Roster.ofModel s m)[k]? = some c ∧ (Roster.ofModel s m).columnOf? c.id = some k ∧
      p = (ofModel s m).participant (ofModel s m).timeline.delays k c := by
  obtain ⟨k, hk, rfl⟩ := List.mem_mapIdx.mp h
  exact ⟨k, _, List.getElem?_eq_getElem hk, Declared.indexOf?_getElem (nodup_roster s m) hk, rfl⟩

/-- The bars of a drawing with their columns. -/
lemma column_of_mem_activations {x : Activation Rat}
    (hx : x ∈ (ofModel s m).timeline.activations) {id : Ident}
    (hid : (Roster.ofModel s m).columnOf? id = some k) :
    x.column < (Roster.ofModel s m).length ∧
      (((ofModel s m).activation x).participant = id ↔ x.column = k) := by
  obtain ⟨p, hp, hactivations⟩ := Timeline.follows_ofModel s m
  obtain ⟨j, hj⟩ := Array.mem_iff_getElem?.mp (hactivations ▸ hx)
  obtain ⟨i, -, -, owner, -, hentry⟩ := hp.cases_entry hj
  have hcolumn : (Roster.ofModel s m).columnOf? owner = some x.column :=
    hentry.elim (·.2.column) (·.2.2.column)
  have hlt := State.columnOf?_lt hcolumn
  have hname : ((ofModel s m).activation x).participant = (Roster.ofModel s m)[x.column].id := by
    simp only [activation]
    rw [show (ofModel s m).roster[x.column]? = _ from List.getElem?_eq_getElem hlt]
    rfl
  have hown := Declared.indexOf?_getElem (nodup_roster s m) hlt
  refine ⟨hlt, hname ▸ ⟨fun heq => ?_, fun heq => ?_⟩⟩
  · exact Option.some.inj (hown.symm.trans ((congrArg _ heq).trans hid))
  · exact State.eq_of_columnOf? hid (heq ▸ hown)

/-- What is drawn for an event of a diagram. -/
lemma of_mem_zip {x : Event × EventGeometry Rat}
    (h : x ∈ m.events.zip (ofModel s m).layout.events) :
    ∃ i slot, m.events[i]? = some x.1 ∧ (ofModel s m).timeline.slots[i]? = some slot ∧
      x.2 = (ofModel s m).event (ofModel s m).bars i slot := by
  obtain ⟨i, hi⟩ := List.mem_iff_getElem?.mp h
  obtain ⟨hevent, hdrawn⟩ := List.getElem?_zip_eq_some.mp hi
  rw [layout, List.getElem?_mapIdx, Option.map_eq_some_iff] at hdrawn
  obtain ⟨slot, hslot, heq⟩ := hdrawn
  exact ⟨i, slot, hevent, hslot, heq.symm⟩

section Columns

variable (hvalid : s.config.validate = .ok ()) (ht : s.MeasuresLengths) {id : Ident}
  (hid : (Roster.ofModel s m).columnOf? id = some k) {i : Nat} {slot : Slot Rat}
  (hslot : (ofModel s m).timeline.slots[i]? = some slot)

include hvalid hid hslot

/-- A column has room for the messages beside it. -/
lemma holds_message {msg : Message} (hevent : m.events[i]? = some (.message msg))
    (hbeside : (Event.message msg).Beside m id) :
    ∀ b ∈ ((ofModel s m).event (ofModel s m).bars i slot).shape.boxes,
      ((ofModel s m).columns.range k).Holds b := by
  have hsides := Config.sensible_sides hvalid
  have hpadding := (Config.sensible_sequence hvalid).messageLabelPadding
  have hk := State.columnOf?_lt hid
  obtain ⟨rfl, htarget⟩ := hbeside
  obtain ⟨y, label, hmessage⟩ := Timeline.slot_of_message s (Roster.ofModel s m) hevent
  obtain rfl := Option.some.inj (hslot.symm.trans hmessage)
  have hmem := List.mem_of_getElem? hslot
  rw [hid] at hmem ⊢
  -- the message is lost, comes back, or goes to somebody unknown
  cases htgt : msg.target with
  | none =>
      simp only [State.messageKind, htgt, Option.bind_none] at hmem ⊢
      exact holds_outgoing (a := ofModel s m) rfl hsides hpadding hk hmem (.inl rfl) i rfl
  | some other =>
      obtain rfl | hunknown := htarget other htgt
      · simp only [State.messageKind, htgt, Option.bind_some, hid, Message.isSelf,
          beq_self_eq_true, if_true] at hmem ⊢
        exact holds_loop (a := ofModel s m) rfl hsides hpadding hk hmem i rfl
      · have hnone : (Roster.ofModel s m).columnOf? other = none :=
          Option.isNone_iff_eq_none.mp (columnOf?_isNone.mpr hunknown)
        simp only [State.messageKind, htgt, Option.bind_some, hnone] at hmem ⊢
        exact holds_outgoing (a := ofModel s m) rfl hsides hpadding hk hmem (.inr rfl) i rfl

include ht

/-- A column has room for the notes beside it. -/
lemma holds_notes {n : Note} (hevent : m.events[i]? = some (.note n))
    (hbeside : (Event.note n).Beside m id) :
    ∀ b ∈ ((ofModel s m).event (ofModel s m).bars i slot).shape.boxes,
      ((ofModel s m).columns.range k).Holds b := by
  have hs := Config.sensible_sequence hvalid
  have hk := State.columnOf?_lt hid
  obtain ⟨y, label, hnote, hlabel⟩ := Timeline.slot_of_note s (Roster.ofModel s m) hevent
  obtain rfl := Option.some.inj (hslot.symm.trans hnote)
  have hmem := List.mem_of_getElem? hslot
  have hwidth : 0 ≤ label.size.width + 2 * s.config.sequence.notePadding :=
    add_nonneg (hlabel ▸ (ht.measured _ _ _).1) (Lengths.twice_nonneg hs.notePadding)
  have hroom : ∃ f, Columns.noteExtent? s (ofModel s m).columns.reach
      ⟨State.noteAnchor (Roster.ofModel s m) n.placement, label,
        ⟨label.size.width + 2 * s.config.sequence.notePadding,
          label.size.height + 2 * s.config.sequence.notePadding⟩⟩ = some (k, f) := by
    obtain hplace | hplace | hplace | hplace := hbeside <;>
      simp [hplace, State.noteAnchor, hid, Columns.noteExtent?]
  obtain ⟨f, hf⟩ := hroom
  exact holds_note (a := ofModel s m) rfl (Config.sensible_sides hvalid) hk hmem rfl
    (Timeline.notes_fit hs _ m _ hmem) hwidth hf y

/-- A column has room for the messages from somebody unknown, but for half the width of a bar. -/
lemma holds_unknown {c : Column Rat} (hc : (Roster.ofModel s m)[k]? = some c) {msg : Message}
    (hevent : m.events[i]? = some (.message msg)) (hincoming : (Event.message msg).Incoming m id) :
    let a := ofModel s m
    ∀ b ∈ (a.event a.bars i slot).shape.boxes, b.maxX ≤ (a.columns.range k).maxX ∧
      (a.columns.range k).minX - Scalar.half s.config.sequence.activationWidth ≤ b.minX ∧
      ((∀ x ∈ a.timeline.activations, x.column = k → (a.activation x).bounds.minY ≤ slot.y →
        slot.y ≤ (a.activation x).bounds.maxY → a.columns.center k ≤ (a.activation x).bounds.minX) →
        (a.columns.range k).Holds b) := by
  have hs := Config.sensible_sequence hvalid
  obtain ⟨hunknown, htarget⟩ := hincoming
  have hnone : (Roster.ofModel s m).columnOf? msg.source = none :=
    Option.isNone_iff_eq_none.mp (columnOf?_isNone.mpr hunknown)
  obtain ⟨y, label, hmessage⟩ := Timeline.slot_of_message s (Roster.ofModel s m) hevent
  obtain rfl := Option.some.inj (hslot.symm.trans hmessage)
  have hmem := List.mem_of_getElem? hslot
  simp only [State.messageKind, hnone, htarget, Option.bind_some, hid] at hmem ⊢
  exact holds_incoming (a := ofModel s m) rfl (Config.sensible_sides hvalid) hs.messageLabelPadding
    (State.columnOf?_lt hid) hmem hc (Roster.header_nonneg hs ht (List.mem_of_getElem? hc)).1 i rfl

end Columns

lemma map_id_participants (s : Setting Rat) (m : Model) :
    (ofModel s m).layout.participants.map (·.id) = (Roster.ofModel s m).map Column.id := by
  refine List.ext_getElem? fun i => ?_
  simp only [layout, List.getElem?_map, List.getElem?_mapIdx, Option.map_map]
  rfl

/-- **The columns of a diagram have room for what is drawn beside them.** -/
lemma reserves_layout (hvalid : s.config.validate = .ok ()) (ht : s.MeasuresLengths) (m : Model) :
    (ofModel s m).layout.Reserves m (Scalar.half s.config.sequence.activationWidth) := by
  have hsides : (ofModel s m).distances.SensibleSides := Config.sensible_sides hvalid
  refine ⟨?_, ?_, fun p hp => ?_, fun p hp g hg hname => ?_, fun p hp x hx hbeside => ?_,
    fun p hp x hx hincoming => ?_⟩
  · rw [map_id_participants]
    exact map_id_roster_perm s m
  · rw [layout, List.length_mapIdx]
    exact Timeline.length_slots s _ m
  all_goals obtain ⟨k, c, hc, hid, rfl⟩ := of_mem_participants hp
  · exact holds_header rfl hc _
  · obtain ⟨x, hx, rfl⟩ := mem_activations.mp hg
    obtain ⟨hlt, howner⟩ := column_of_mem_activations hx hid
    obtain rfl := howner.mp hname
    exact holds_bar rfl hsides hx hlt
  · obtain ⟨i, slot, hevent, hslot, hdrawn⟩ := of_mem_zip hx
    rw [hdrawn]
    cases hkind : x.1 with
    | message msg =>
        rw [hkind] at hevent hbeside
        exact holds_message hvalid hid hslot hevent hbeside
    | note n =>
        rw [hkind] at hevent hbeside
        exact holds_notes hvalid ht hid hslot hevent hbeside
    | _ => exact absurd hbeside (by rw [hkind]; exact not_false)
  · obtain ⟨i, slot, hevent, hslot, hdrawn⟩ := of_mem_zip hx
    rw [hdrawn]
    cases hkind : x.1 with
    | message msg =>
        rw [hkind] at hevent hincoming
        intro b hb
        obtain ⟨hmax, hmin, hholds⟩ := holds_unknown hvalid ht hid hslot hc hevent hincoming b hb
        refine ⟨hmax, hmin, fun hbars => hholds fun y hy hcolumn => hbars _ ?_ ?_⟩
        · exact mem_activations.mpr ⟨y, hy, rfl⟩
        · exact (column_of_mem_activations hy hid).2.mpr hcolumn
    | _ => exact absurd hincoming (by rw [hkind]; exact not_false)

end Assembly

lemma holds_translate {r : ColumnRange Rat} {b : Bounds Rat} (v : Point Rat) :
    (r.translate v).Holds (b.translate v) ↔ r.Holds b := by
  simp only [ColumnRange.Holds, ColumnRange.translate, Bounds.translate, add_le_add_iff_right]

lemma Layout.Reserves.translate {m : Model} {overhang : Rat} {l : Layout Rat}
    (h : l.Reserves m overhang) (v : Point Rat) : (l.translate v).Reserves m overhang := by
  have hzip : ∀ P : Event × EventGeometry Rat → Prop,
      (∀ x ∈ m.events.zip l.events, P (x.1, x.2.translate v)) →
        ∀ x ∈ m.events.zip (l.translate v).events, P x := by
    intro P hP
    rw [Layout.translate, List.zip_map_right, List.forall_mem_map]
    exact hP
  constructor
  · simpa [Layout.translate, Function.comp_def, ParticipantGeometry.translate] using h.names
  · rw [Layout.translate, List.length_map]
    exact h.events
  · rw [Layout.translate, List.forall_mem_map]
    exact fun p hp => (holds_translate v).mpr (h.header p hp)
  · simp only [Layout.translate, List.forall_mem_map]
    exact fun p hp g hg hname => (holds_translate v).mpr (h.bars p hp g hg hname)
  · rw [show (l.translate v).participants = l.participants.map (·.translate v) from rfl,
      List.forall_mem_map]
    refine fun p hp => hzip _ fun x hx hbeside => ?_
    rw [EventGeometry.translate, eventBoxes_translate, List.forall_mem_map]
    exact fun b hb => (holds_translate v).mpr (h.beside p hp x hx hbeside b hb)
  · rw [show (l.translate v).participants = l.participants.map (·.translate v) from rfl,
      List.forall_mem_map]
    refine fun p hp => hzip _ fun x hx hincoming => ?_
    rw [EventGeometry.translate, eventBoxes_translate, List.forall_mem_map]
    intro b hb
    obtain ⟨hmax, hmin, hholds⟩ := h.incoming p hp x hx hincoming b hb
    simp only [Layout.translate, List.forall_mem_map]
    refine ⟨add_le_add_left hmax _, ?_, fun hbars => (holds_translate v).mpr (hholds ?_)⟩
    · simp only [ParticipantGeometry.translate, ColumnRange.translate, Bounds.translate]
      linarith
    · intro g hg hname htop hbottom
      exact le_of_add_le_add_right (hbars g hg hname (add_le_add_left htop _)
        (add_le_add_left hbottom _))

end Drafting.Sequence

namespace Drafting.Diagram

open Drafting.Sequence

/-- **Columns reserve room for what is drawn beside their lifelines.**  The room of a column has in
it the header and the bars, the messages to oneself, to nobody and to somebody unknown, and the
notes beside the lifeline and over it alone.  A message from somebody unknown may stick out to the
left, by no more than half the width of a bar, and only where a bar begins before the lifeline. -/
theorem columns_reserve_all_but_incoming_stubs {s : Setting Rat} (ht : s.MeasuresLengths)
    {title caption : Option String} {m : Sequence.Model} {drawing : Drawing Rat}
    (h : layout s ⟨title, caption, .sequence m⟩ = .ok drawing) :
    ∃ l, drawing.sequence? = some l ∧
      l.Reserves m (Scalar.half s.config.sequence.activationWidth) := by
  obtain ⟨hvalid, l, hl, hdrawn, -⟩ := of_layout_sequence h
  obtain rfl := Layout.eq_layout hl
  exact ⟨_, hdrawn, (Assembly.reserves_layout hvalid ht m).translate _⟩

/-- A call from outside, in which a participant sends a message to itself. -/
def call : Sequence.Model :=
  { participants := [{ id := "A" }]
    events := [.activate "A", .message { source := "X", target := some "A" },
      .message { source := "A", target := some "A", label := some "again" }, .deactivate "A"] }

/-- The column of the participant has room for the message to itself. -/
theorem column_reserves_the_loop_of_a_call :
    let s : Setting Rat := ⟨.standard, fun _ _ => ⟨10, 5⟩⟩
    s.MeasuresLengths ∧
      ∃ (drawing : Drawing Rat) (l : Sequence.Layout Rat) (p : ParticipantGeometry Rat)
          (e : EventGeometry Rat),
        layout s ⟨none, none, .sequence call⟩ = .ok drawing ∧ drawing.sequence? = some l ∧
        p ∈ l.participants ∧ p.id = "A" ∧ l.events[2]? = some e ∧
        ∀ b ∈ e.shape.boxes, p.range.Holds b := by
  intro s
  have hlengths : s.MeasuresLengths := fun _ _ =>
    (by decide : (0 : Rat) ≤ 10 ∧ (0 : Rat) ≤ 5)
  obtain ⟨drawing, hlayout⟩ := exists_layout_sequence (s := s) (m := call) (by cbv) hlengths none
    none (by decide) (by decide)
  obtain ⟨l, hl, hreserves⟩ := columns_reserve_all_but_incoming_stubs hlengths hlayout
  obtain ⟨p, hp, hid⟩ := List.mem_map.mp
    (hreserves.names.mem_iff.mpr (by decide : "A" ∈ call.names))
  have hlt : 2 < l.events.length := by
    rw [hreserves.events]
    decide
  have hevent := List.getElem?_eq_getElem hlt
  refine ⟨hlengths, drawing, l, p, _, hlayout, hl, hp, hid, hevent, ?_⟩
  refine hreserves.beside p hp
    (.message { source := "A", target := some "A", label := some "again" },
    l.events[2]) (List.mem_of_getElem? (List.getElem?_zip_eq_some.mpr ⟨rfl, hevent⟩)) ?_
  rw [hid]
  exact ⟨rfl, fun target htarget => .inl (Option.some.inj htarget).symm⟩

/-- How far the boxes of an event stick out of the room of a participant to the left. -/
def overhangs? (s : Setting Rat) (d : Diagram Rat) (id : Ident) (i : Nat) : Option (List Rat) := do
  let drawing ← (layout s d).toOption
  let l ← drawing.sequence?
  let p ← l.participant? id
  let e ← l.events[i]?
  return e.shape.boxes.map fun b => p.range.minX - b.minX

/-- **A message from somebody unknown can stick out of the room of its column.**  It ends at the
left side of a bar, half the width of the bar before the lifeline. -/
theorem incoming_stub_sticks_out :
    let s : Setting Rat := ⟨.standard, fun _ _ => ⟨10, 5⟩⟩
    s.config.validate = .ok () ∧ s.MeasuresLengths ∧
      ∃ (drawing : Drawing Rat) (l : Sequence.Layout Rat) (p : ParticipantGeometry Rat)
          (e : EventGeometry Rat),
        layout s ⟨none, none, .sequence call⟩ = .ok drawing ∧ drawing.sequence? = some l ∧
        p ∈ l.participants ∧ p.id = "A" ∧ l.events[1]? = some e ∧
        (Event.message { source := "X", target := some "A" }).Incoming call p.id ∧
        ∃ b ∈ e.shape.boxes, b.minX = p.range.minX - 5 := by
  intro s
  have hlengths : s.MeasuresLengths := fun _ _ =>
    (by decide : (0 : Rat) ≤ 10 ∧ (0 : Rat) ≤ 5)
  have hvalid : s.config.validate = .ok () := by cbv
  have hover : overhangs? s ⟨none, none, .sequence call⟩ "A" 1 = some [5, -35] := by cbv
  obtain ⟨drawing, hlayout⟩ := exists_layout_sequence (m := call) hvalid hlengths none none
    (by decide) (by decide)
  simp only [overhangs?, hlayout, Except.toOption, Option.bind_eq_bind, Option.bind_some,
    Option.bind_eq_some_iff, Option.pure_def, Option.some.injEq] at hover
  obtain ⟨l, hl, p, hp, e, he, hboxes⟩ := hover
  have hid : p.id = "A" := by simpa using List.find?_some hp
  obtain ⟨b, hb, hout⟩ := List.mem_map.mp (hboxes ▸ List.mem_cons_self)
  refine ⟨hvalid, hlengths, drawing, l, p, e, hlayout, hl, List.mem_of_find?_eq_some hp, hid, he,
    ?_, b, hb, by linarith⟩
  rw [hid]
  exact ⟨by decide, rfl⟩

end Drafting.Diagram
