import Mathlib
import Drafting.Proofs.Sequence.Coverage
import Drafting.Proofs.Sequence.Extents

/-!
Frames in frames.

A frame is as wide as its own columns and texts demand, and then it is widened around the frames
directly in it, which have been widened before.  So it keeps an indent to each of them, and as many
indents to a frame further in as there are levels between them.

* `Assembly.blockRanges_of_parent`: a frame keeps an indent to the frames directly in it.
* `Timeline.Nests.indent_le`: and an indent for each level to those further in.
* `FramesNest`, `Layout.framesNest_ofModel`: frames contain what is nested in them and are
  otherwise apart.
* `Diagram.block_frames_nest`: so it is in every drawing.
-/

namespace Drafting.Sequence

open Mark (stack openStarts)

/-! ### Sides -/

namespace Assembly

variable {a : Assembly Rat}

/-- A frame keeps an indent to the frames directly in it. -/
lemma blockRanges_of_parent {index i j : Nat} {spans : List (BlockSpan Rat)} {b : BlockSpan Rat}
    {outer inner : Rat × Rat} (hij : i < j) (hb : spans[j]? = some b)
    (hparent : b.parent = some (index + i)) (houter : (a.blockRanges index spans)[i]? = some outer)
    (hinner : (a.blockRanges index spans)[j]? = some inner) :
    outer.1 + a.distances.blockIndent ≤ inner.1 ∧ inner.2 + a.distances.blockIndent ≤ outer.2 := by
  induction spans generalizing index i j with
  | nil => simp at hb
  | cons span spans ih =>
      obtain ⟨j, rfl⟩ := Nat.exists_eq_add_of_le' (Nat.zero_lt_of_lt hij)
      rw [blockRanges, List.getElem?_cons_succ] at hinner
      rw [List.getElem?_cons_succ] at hb
      cases i with
      | zero =>
          rw [blockRanges, List.getElem?_cons_zero] at houter
          obtain rfl := Option.some.inj houter
          refine (foldl_widen _ _ _).2 inner (List.mem_map.mpr ⟨(b, inner), ?_, rfl⟩)
          refine List.mem_filter.mpr ⟨List.mem_of_getElem? (i := j) ?_, by simp [hparent]⟩
          rw [List.getElem?_zip_eq_some]
          exact ⟨hb, hinner⟩
      | succ i =>
          rw [blockRanges, List.getElem?_cons_succ] at houter
          have hnext : b.parent = some (index + 1 + i) := by
            rw [hparent, show index + (i + 1) = index + 1 + i by omega]
          exact ih (Nat.lt_of_succ_lt_succ hij) hb hnext houter hinner

/-- The sides of the frames of a timeline. -/
def ranges (a : Assembly Rat) : List (Rat × Rat) := a.blockRanges 0 a.timeline.blocks.toList

/-- A block with the sides of its frame. -/
def HasRange (a : Assembly Rat) (b : BlockSpan Rat) (range : Rat × Rat) : Prop :=
  ∃ k : Nat, a.timeline.blocks[k]? = some b ∧ a.ranges[k]? = some range

lemma exists_range {k : Nat} {b : BlockSpan Rat} (h : a.timeline.blocks[k]? = some b) :
    ∃ range, a.ranges[k]? = some range := by
  have hk := (Array.getElem?_eq_some_iff.mp h).1
  refine ⟨_, List.getElem?_eq_getElem ?_⟩
  rwa [ranges, length_blockRanges, Array.length_toList]

/-- The frames that are drawn. -/
lemma getElem?_blocks {k : Nat} {g : BlockGeometry Rat} (h : a.blocks[k]? = some g) :
    ∃ b range, a.timeline.blocks[k]? = some b ∧ a.ranges[k]? = some range ∧
      g = a.block b range := by
  rw [blocks, List.getElem?_map, Option.map_eq_some_iff] at h
  obtain ⟨⟨b, range⟩, hentry, rfl⟩ := h
  rw [List.getElem?_zip_eq_some, Array.getElem?_toList] at hentry
  exact ⟨b, range, hentry.1, hentry.2, rfl⟩

end Assembly

section Indents

variable {t : Timeline Rat} {roster : Roster Rat} {events : List Event}

/-- Blocks are listed in the order of their starts. -/
lemma Timeline.Nests.startEvent_lt (h : t.Nests roster events) {i j : Nat} {b later : BlockSpan Rat}
    (hij : i < j) (hb : t.blocks[i]? = some b) (hlater : t.blocks[j]? = some later) :
    b.startEvent < later.startEvent := by
  have hsorted : (t.blocks.toList.map (·.startEvent)).Pairwise (· < ·) := by
    rw [h.starts]
    exact List.pairwise_lt_range.sublist List.filter_sublist
  obtain ⟨hi, rfl⟩ := Array.getElem?_eq_some_iff.mp hb
  obtain ⟨hj, rfl⟩ := Array.getElem?_eq_some_iff.mp hlater
  have hlt := List.pairwise_iff_getElem.mp (List.pairwise_map.mp hsorted) i j
    (by rwa [Array.length_toList]) (by rwa [Array.length_toList]) hij
  simpa only [Array.getElem_toList] using hlt

variable {a : Assembly Rat} {outer inner : BlockSpan Rat} {wide range : Rat × Rat}

/-- The block around a block, with its frame. -/
lemma Timeline.Nests.exists_around (h : a.timeline.Nests roster events)
    (hinner : a.HasRange inner range) {i : Nat}
    (hhead : (stack Event.blockMark events inner.startEvent).head? = some i) :
    ∃ outer wide, a.HasRange outer wide ∧ outer.startEvent = i ∧
      wide.1 + a.distances.blockIndent ≤ range.1 ∧
      range.2 + a.distances.blockIndent ≤ wide.2 := by
  obtain ⟨j, hj, hrange⟩ := hinner
  have hparent := h.parent inner (Array.mem_of_getElem? hj)
  rw [Mark.getLast?_openStarts, hhead, Option.map_some, Option.map_eq_some_iff] at hparent
  obtain ⟨k, hk, hstart⟩ := hparent
  obtain ⟨outer, houter, rfl⟩ := Option.map_eq_some_iff.mp hstart
  obtain ⟨wide, hwide⟩ := Assembly.exists_range houter
  have hkj : k < j := by
    rcases Nat.lt_trichotomy k j with hlt | rfl | hlt
    · exact hlt
    · obtain rfl := Option.some.inj (hj.symm.trans houter)
      exact absurd (Mark.lt_of_mem_stack (List.mem_of_head? hhead)).1 (lt_irrefl _)
    · exact absurd (Mark.lt_of_mem_stack (List.mem_of_head? hhead)).1
        (lt_asymm (h.startEvent_lt hlt hj houter))
  refine ⟨outer, wide, ⟨k, houter, hwide⟩, rfl, ?_⟩
  exact Assembly.blockRanges_of_parent hkj (by rwa [Array.getElem?_toList])
    (by rw [hk, Nat.zero_add]) hwide hrange

/-- Blocks with the same start are the same. -/
lemma Timeline.Nests.range_eq (h : a.timeline.Nests roster events) (houter : a.HasRange outer wide)
    (hinner : a.HasRange inner range) (hstart : outer.startEvent = inner.startEvent) :
    wide = range := by
  obtain ⟨i, hi, hwide⟩ := houter
  obtain ⟨j, hj, hrange⟩ := hinner
  rcases Nat.lt_trichotomy i j with hlt | rfl | hlt
  · exact absurd hstart (h.startEvent_lt hlt hi hj).ne
  · exact Option.some.inj (hwide.symm.trans hrange)
  · exact absurd hstart (h.startEvent_lt hlt hj hi).ne'

/-- **A frame keeps an indent for each level to the frames in it.**  By induction on how far out it
lies: from the block around the inner one it is a level less. -/
lemma Timeline.Nests.indent_le (h : a.timeline.Nests roster events) {levels : Nat}
    (houter : a.HasRange outer wide) (hinner : a.HasRange inner range)
    (hstack : (stack Event.blockMark events inner.startEvent)[levels]? = some outer.startEvent) :
    wide.1 + (levels + 1 : Nat) * a.distances.blockIndent ≤ range.1 ∧
      range.2 + (levels + 1 : Nat) * a.distances.blockIndent ≤ wide.2 := by
  induction levels generalizing inner range with
  | zero =>
      rw [← List.head?_eq_getElem?] at hstack
      obtain ⟨around, wide', haround, hstart, hsides⟩ := h.exists_around hinner hstack
      obtain rfl := h.range_eq haround houter hstart
      simpa only [Nat.zero_add, Nat.cast_one, one_mul] using hsides
  | succ levels ih =>
      cases htop : stack Event.blockMark events inner.startEvent with
      | nil => simp [htop] at hstack
      | cons top rest =>
          obtain ⟨around, wide', haround, hstart, hleft, hright⟩ :=
            h.exists_around hinner (i := top) (by rw [htop, List.head?_cons])
          rw [htop, List.getElem?_cons_succ, Mark.stack_cons htop, ← hstart] at hstack
          obtain ⟨hleft', hright'⟩ := ih haround hstack
          rw [Nat.cast_succ]
          exact ⟨by linarith, by linarith⟩

end Indents

/-! ### Frames -/

/-- The frames of the blocks of a diagram lie in each other as the blocks do. -/
structure FramesNest (frames : List (BlockGeometry Rat)) (events : List Event) (indent : Rat) :
    Prop where
  /-- A frame contains the frames of the blocks nested in its block, with an indent for each level
  at both sides and with room above and below. -/
  nested : ∀ outer ∈ frames, ∀ inner ∈ frames,
    outer.startEvent ∈ openStarts Event.blockMark events inner.startEvent →
      outer.depth < inner.depth ∧ outer.bounds.Encloses inner.bounds ∧
      outer.bounds.minX + (inner.depth - outer.depth : Nat) * indent ≤ inner.bounds.minX ∧
      inner.bounds.maxX + (inner.depth - outer.depth : Nat) * indent ≤ outer.bounds.maxX ∧
      outer.bounds.minY < inner.bounds.minY ∧ inner.bounds.maxY < outer.bounds.maxY
  /-- A frame contains the texts of its operator and of its guard. -/
  texts : ∀ g ∈ frames, g.bounds.Encloses g.tab.bounds ∧
    ∀ label, g.label = some label → g.bounds.Encloses label.bounds
  /-- Sections follow each other strictly between the top and the bottom. -/
  sections : ∀ g ∈ frames,
    (g.bounds.minY :: (g.sections.map (·.y) ++ [g.bounds.maxY])).Pairwise (· < ·)
  /-- A frame lies wholly above that of a later block which is not nested in its block. -/
  apart : frames.Pairwise fun g later =>
    g.startEvent ∉ openStarts Event.blockMark events later.startEvent →
      g.bounds.maxY < later.bounds.minY

lemma FramesNest.translate {frames : List (BlockGeometry Rat)} {events : List Event} {indent : Rat}
    (h : FramesNest frames events indent) (v : Point Rat) :
    FramesNest (frames.map (·.translate v)) events indent where
  nested := by
    rw [List.forall_mem_map]
    intro outer houter
    rw [List.forall_mem_map]
    intro inner hinner hopen
    obtain ⟨hdepth, hencloses, hleft, hright, htop, hbottom⟩ :=
      h.nested outer houter inner hinner hopen
    refine ⟨hdepth, (Bounds.encloses_translate v).mpr hencloses, ?_, ?_, ?_, ?_⟩ <;>
      simp only [BlockGeometry.translate, Bounds.translate] <;> linarith
  texts := by
    rw [List.forall_mem_map]
    intro g hg
    obtain ⟨htab, hlabel⟩ := h.texts g hg
    refine ⟨(Bounds.encloses_translate v).mpr htab, fun label heq => ?_⟩
    obtain ⟨text, htext, rfl⟩ := Option.map_eq_some_iff.mp heq
    exact (Bounds.encloses_translate v).mpr (hlabel text htext)
  sections := by
    rw [List.forall_mem_map]
    intro g hg
    have hmoved : (g.translate v).bounds.minY :: ((g.translate v).sections.map (·.y) ++
        [(g.translate v).bounds.maxY]) =
        (g.bounds.minY :: (g.sections.map (·.y) ++ [g.bounds.maxY])).map (· + v.y) := by
      simp [BlockGeometry.translate, Bounds.translate, SectionGeometry.translate]
    rw [hmoved, List.pairwise_map]
    exact (h.sections g hg).imp fun hlt => add_lt_add_left hlt _
  apart := by
    rw [List.pairwise_map]
    exact h.apart.imp fun hapart hopen => add_lt_add_left (hapart hopen) _

namespace Assembly

variable {a : Assembly Rat} {roster : Roster Rat} {events : List Event} {c : Nat → Rat}

/-- A frame is not narrower than nothing. -/
lemma needed_nonneg (hpadding : 0 ≤ a.distances.blockPadding) {b : BlockSpan Rat}
    (hfits : b.FitsAbove a.setting b.bottom) : 0 ≤ a.needed b := by
  have htab := hfits.tab
  have hlabel := hfits.label
  rw [needed]
  cases htext : b.label with
  | none => linarith
  | some text =>
      rw [htext] at hlabel
      simp only [MeasuredText.widthOf] at hlabel
      dsimp only
      linarith

/-- The frame of a block has the sides that were computed for it. -/
lemma block_bounds_eq {b : BlockSpan Rat} {range : Rat × Rat} (hrange : range.1 ≤ range.2)
    (hspan : b.top ≤ b.bottom) :
    (a.block b range).bounds = ⟨range.1, b.top, range.2, b.bottom⟩ := by
  simp only [block, Bounds.ofCorners, min_eq_left hrange, max_eq_right hrange, min_eq_left hspan,
    max_eq_right hspan]

/-- A block is as wide as its texts need. -/
lemma needed_le_range {k : Nat} {b : BlockSpan Rat} {range : Rat × Rat}
    (hb : a.timeline.blocks[k]? = some b) (hrange : a.ranges[k]? = some range) :
    range.1 + a.needed b ≤ range.2 := by
  refine needed_le_blockRanges 0 a.timeline.blocks.toList (b, range) ?_
  refine List.mem_of_getElem? (i := k) ?_
  rw [List.getElem?_zip_eq_some, Array.getElem?_toList]
  exact ⟨hb, hrange⟩

/-- A block is as many levels deeper than one around it as there are open starts between them. -/
lemma depth_eq_of_stack (hnests : a.timeline.Nests roster events) {outer inner : BlockSpan Rat}
    (houter : outer ∈ a.timeline.blocks) (hinner : inner ∈ a.timeline.blocks) {levels : Nat}
    (hlevels : (stack Event.blockMark events inner.startEvent)[levels]? = some outer.startEvent) :
    inner.depth = outer.depth + (levels + 1) := by
  rw [hnests.depth inner hinner, hnests.depth outer houter, Mark.length_openStarts,
    Mark.length_openStarts]
  exact Mark.length_stack hlevels

section Drawn

variable (hpadding : 0 ≤ a.distances.blockPadding)
  (hfits : ∀ b ∈ a.timeline.blocks, b.FitsAbove a.setting b.bottom)
  (hfollows : a.timeline.Follows events.length c)

include hpadding hfits hfollows

/-- The frame of a block has its heights and the sides that were computed for it. -/
lemma bounds_block {k : Nat} {b : BlockSpan Rat} {range : Rat × Rat}
    (hb : a.timeline.blocks[k]? = some b) (hrange : a.ranges[k]? = some range) :
    (a.block b range).bounds = ⟨range.1, b.top, range.2, b.bottom⟩ := by
  have hmem := Array.mem_of_getElem? hb
  have hwide := needed_le_range hb hrange
  have hneeded := needed_nonneg hpadding (hfits b hmem)
  have hspan := (List.pairwise_cons.mp (hfollows.parts b hmem)).1 b.bottom (by simp)
  exact block_bounds_eq (by linarith) hspan.le

/-- The frame of a block contains those of the blocks nested in it. -/
lemma nested_blocks (hindent : 0 ≤ a.distances.blockIndent)
    (hnests : a.timeline.Nests roster events) {g g' : BlockGeometry Rat} (hg : g ∈ a.blocks)
    (hg' : g' ∈ a.blocks) (hopen : g.startEvent ∈ openStarts Event.blockMark events g'.startEvent) :
    g.depth < g'.depth ∧ g.bounds.Encloses g'.bounds ∧
      g.bounds.minX + (g'.depth - g.depth : Nat) * a.distances.blockIndent ≤ g'.bounds.minX ∧
      g'.bounds.maxX + (g'.depth - g.depth : Nat) * a.distances.blockIndent ≤ g.bounds.maxX ∧
      g.bounds.minY < g'.bounds.minY ∧ g'.bounds.maxY < g.bounds.maxY := by
  obtain ⟨i, hi⟩ := List.mem_iff_getElem?.mp hg
  obtain ⟨j, hj⟩ := List.mem_iff_getElem?.mp hg'
  obtain ⟨outer, wide, houter, hwide, rfl⟩ := getElem?_blocks hi
  obtain ⟨inner, range, hinner, hrange, rfl⟩ := getElem?_blocks hj
  rw [bounds_block hpadding hfits hfollows houter hwide,
    bounds_block hpadding hfits hfollows hinner hrange]
  have houter' := Array.mem_of_getElem? houter
  have hinner' := Array.mem_of_getElem? hinner
  obtain ⟨htop, hbottom⟩ := hfollows.surrounds hnests houter' hinner' hopen
  rw [Timeline.mem_openStarts_iff] at hopen
  obtain ⟨levels, hlevels⟩ := List.mem_iff_getElem?.mp hopen
  have hdepth := depth_eq_of_stack hnests houter' hinner' hlevels
  obtain ⟨hleft, hright⟩ := hnests.indent_le ⟨i, houter, hwide⟩ ⟨j, hinner, hrange⟩ hlevels
  have hlevel : (a.block inner range).depth - (a.block outer wide).depth = levels + 1 := by
    change inner.depth - outer.depth = levels + 1
    omega
  have hmargin : (0 : Rat) ≤ (levels + 1 : Nat) * a.distances.blockIndent :=
    mul_nonneg (Nat.cast_nonneg _) hindent
  rw [hlevel]
  refine ⟨?_, ⟨?_, ?_, htop.le, hbottom.le⟩, hleft, hright, htop, hbottom⟩
  · change outer.depth < inner.depth
    omega
  · exact (le_add_of_nonneg_right hmargin).trans hleft
  · exact (le_add_of_nonneg_right hmargin).trans hright

/-- **The frames that are drawn nest.** -/
lemma framesNest_blocks (hindent : 0 ≤ a.distances.blockIndent)
    (hnests : a.timeline.Nests roster events) :
    FramesNest a.blocks events a.distances.blockIndent := by
  constructor
  case nested =>
    exact fun g hg g' hg' => nested_blocks hpadding hfits hfollows hindent hnests hg hg'
  case texts =>
    intro g hg
    obtain ⟨k, hk⟩ := List.mem_iff_getElem?.mp hg
    obtain ⟨b, range, hb, hrange, rfl⟩ := getElem?_blocks hk
    have hboxes := block_encloses_boxes hpadding (hfits b (Array.mem_of_getElem? hb))
      (needed_le_range hb hrange)
    refine ⟨hboxes _ (List.mem_cons_of_mem _ List.mem_cons_self), fun label hlabel => ?_⟩
    refine hboxes _ (List.mem_cons_of_mem _ (List.mem_cons_of_mem _ ?_))
    rw [hlabel]
    exact List.mem_singleton_self _
  case sections =>
    intro g hg
    obtain ⟨k, hk⟩ := List.mem_iff_getElem?.mp hg
    obtain ⟨b, range, hb, hrange, rfl⟩ := getElem?_blocks hk
    have hparts := hfollows.parts b (Array.mem_of_getElem? hb)
    rw [bounds_block hpadding hfits hfollows hb hrange]
    simpa only [block, List.map_map, Function.comp_def] using hparts
  case apart =>
    rw [List.pairwise_iff_getElem]
    intro i j hi hj hij hopen
    obtain ⟨b, range, hb, hrange, heq⟩ := getElem?_blocks (List.getElem?_eq_getElem hi)
    obtain ⟨later, range', hlater, hrange', heq'⟩ := getElem?_blocks (List.getElem?_eq_getElem hj)
    rw [heq, heq'] at hopen ⊢
    rw [bounds_block hpadding hfits hfollows hb hrange,
      bounds_block hpadding hfits hfollows hlater hrange']
    exact hfollows.above_of_not_open hnests (Array.mem_of_getElem? hb)
      (Array.mem_of_getElem? hlater) (hnests.startEvent_lt hij hb hlater) hopen

end Drawn

end Assembly

/-- **The frames of a diagram that is laid out nest.** -/
lemma Layout.framesNest_ofModel {s : Setting Rat} (hvalid : s.config.validate = .ok ())
    (ht : s.MeasuresLengths) {m : Model} {l : Layout Rat} {diagnostics : List (Diagnostic Rat)}
    (h : ofModel s m = .ok (l, diagnostics)) :
    FramesNest l.blocks m.events s.config.sequence.blockIndent := by
  have hs := Config.sensible_sequence hvalid
  obtain ⟨t, hbuild, hassemble, -⟩ := of_ofModel h
  obtain ⟨rfl, -⟩ := Timeline.build_eq_ok_iff.mp hbuild
  obtain ⟨c, hfollows⟩ := Timeline.blocks_follow hs ht (Roster.ofModel s m) m
  rw [assemble] at hassemble
  dsimp only at hassemble
  split at hassemble
  · cases hassemble
  · obtain rfl := Except.ok.inj hassemble
    exact Assembly.framesNest_blocks
      (a := ⟨s, Roster.ofModel s m, Timeline.ofModel s (Roster.ofModel s m) m, _⟩)
      (Config.paddings_nonneg hvalid).2 (fun b hb => Timeline.blocks_fit hs ht _ m hb) hfollows
      (Config.blockIndent_nonneg hvalid) (Timeline.nests_ofModel s _ m)

end Drafting.Sequence

namespace Drafting.Diagram

open Drafting.Sequence

/-- **The frames of blocks nest.**  In the drawing of a sequence diagram the frame of a block
contains those of the blocks nested in it, an indent for each level apart at the sides and strictly
apart at the top and the bottom; it contains its own texts, and its sections follow each other
strictly inside.  Blocks that are not nested in each other share no height. -/
theorem block_frames_nest {s : Setting Rat} (ht : s.MeasuresLengths)
    {title caption : Option String} {m : Sequence.Model} {drawing : Drawing Rat}
    (h : layout s ⟨title, caption, .sequence m⟩ = .ok drawing) :
    ∃ l, drawing.sequence? = some l ∧
      FramesNest l.blocks m.events s.config.sequence.blockIndent := by
  obtain ⟨hvalid, l, hl, hdrawn, -⟩ := of_layout_sequence h
  exact ⟨_, hdrawn, (Sequence.Layout.framesNest_ofModel hvalid ht hl).translate _⟩

/-- A block with a section and a block in it, and a block after it that is never closed. -/
theorem frames_of_a_nested_choice :
    let s : Setting Rat := ⟨.standard, fun _ _ => ⟨10, 5⟩⟩
    let m : Sequence.Model :=
      { participants := [{ id := "A" }, { id := "B" }]
        events := [.blockStart { kind := "alt" }, .blockStart { kind := "opt" },
          .message { source := "A", target := some "B" }, .blockEnd, .blockSection none, .blockEnd,
          .blockStart { kind := "loop" }] }
    s.MeasuresLengths ∧
      ∃ drawing l, layout s ⟨none, none, .sequence m⟩ = .ok drawing ∧ drawing.sequence? = some l ∧
        l.blocks.map (fun g => (g.depth, g.bounds, g.sections.map (·.y))) =
          [(0, ⟨25, 65, 127, 225⟩, [201]), (1, ⟨33, 109, 119, 177⟩, []),
            (0, ⟨20, 249, 132, 293⟩, [])] ∧
        FramesNest l.blocks m.events 8 := by
  intro s m
  have hlengths : s.MeasuresLengths := fun _ _ => (by decide : (0 : Rat) ≤ 10 ∧ (0 : Rat) ≤ 5)
  have hread : ((layout s ⟨none, none, .sequence m⟩).toOption.bind (·.sequence?)).map
      (fun l => l.blocks.map fun g => (g.depth, g.bounds, g.sections.map (·.y))) =
        some [(0, ⟨25, 65, 127, 225⟩, [201]), (1, ⟨33, 109, 119, 177⟩, []),
          (0, ⟨20, 249, 132, 293⟩, [])] := by cbv
  obtain ⟨drawing, hlayout⟩ := exists_layout_sequence (s := s) (m := m) (by cbv) hlengths none none
    (by cbv) (by cbv)
  obtain ⟨l, hl, hframes⟩ := block_frames_nest hlengths hlayout
  refine ⟨hlengths, drawing, l, hlayout, hl, ?_, hframes⟩
  rw [hlayout] at hread
  simpa [Except.toOption, hl] using hread

end Drafting.Diagram
