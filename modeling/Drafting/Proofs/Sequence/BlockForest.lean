import Mathlib
import Drafting.Proofs.Sequence.Blocks

/-!
The blocks of a timeline are the forest that their starts and ends describe.

* `Event.references`: the columns that an event refers to.
* `Timeline.Nests`: blocks follow the events of a diagram.
* `Timeline.nests_ofModel`: so it is in every timeline.
* `Model.isGreatest_nestingDepth`: the depth that is checked before the walk is the one it reaches.
* `Diagram.blocks_form_forest`: so it is in every drawing, whose blocks are nested less deeply than
  the limit.
-/

namespace Drafting.Sequence

open Mark (stack sets Pairs openStarts)

variable {α : Type}

/-! ### References -/

/-- The columns that an event refers to.  A note over all columns, or one that names somebody
unknown, refers to the first and the last. -/
def Event.references (roster : Roster α) : Event → List Nat
  | .note n =>
    if n.placement = .across ∨ ∃ id ∈ n.placement.participants, roster.columnOf? id = none then
      if roster.length = 0 then [] else [0, roster.length - 1]
    else n.placement.participants.filterMap roster.columnOf?
  | event => event.participants.filterMap roster.columnOf?

/-- A note touches the columns it refers to. -/
lemma mem_columns_noteAnchor (roster : Roster α) (placement : NotePlacement) (column : Nat) :
    column ∈ State.NoteAnchor.columns roster.length (State.noteAnchor roster placement) ↔
      column ∈ (Event.note ⟨placement, ""⟩).references roster := by
  cases placement with
  | leftOf id =>
      cases hid : roster.columnOf? id <;>
        simp [State.noteAnchor, State.NoteAnchor.columns, Event.references,
          NotePlacement.participants, hid]
  | rightOf id =>
      cases hid : roster.columnOf? id <;>
        simp [State.noteAnchor, State.NoteAnchor.columns, Event.references,
          NotePlacement.participants, hid]
  | spanning id other =>
      have hends : ∀ a b : Nat, column = min a b ∨ column = max a b ↔ column = a ∨ column = b := by
        intro a b
        omega
      cases hid : roster.columnOf? id with
      | none =>
          cases other <;> simp [State.noteAnchor, State.NoteAnchor.columns, Event.references,
            NotePlacement.participants, hid]
      | some a =>
          cases other with
          | none =>
              simp [State.noteAnchor, State.NoteAnchor.columns, Event.references,
                NotePlacement.participants, hid]
          | some other =>
              cases hother : roster.columnOf? other <;>
                simp [State.noteAnchor, State.NoteAnchor.columns, Event.references,
                  NotePlacement.participants, hid, hother, hends]
  | across => simp [State.noteAnchor, State.NoteAnchor.columns, Event.references]

/-- The innermost block takes up the columns that an event refers to. -/
lemma mem_touched (roster : Roster α) (event : Event) (column : Nat) :
    column ∈ event.touched roster ↔ column ∈ event.references roster := by
  cases event with
  | note n => exact mem_columns_noteAnchor roster n.placement column
  | message m =>
      obtain ⟨source, target, label, style⟩ := m
      cases target <;>
        simp [Event.touched, Event.references, Event.participants, eq_comm]
  | activate id => simp [Event.touched, Event.references, Event.participants, eq_comm]
  | deactivate id => simp [Event.touched, Event.references, Event.participants, eq_comm]
  | _ => rfl

/-! ### The forest in a timeline -/

namespace Timeline

/-- Blocks follow the events of a diagram. -/
structure Nests (t : Timeline α) (roster : Roster α) (events : List Event) : Prop where
  /-- There is one block for each start, in the order of the starts. -/
  starts : t.blocks.toList.map (·.startEvent) =
    (List.range events.length).filter fun i => sets Event.blockMark events i = some .start
  /-- A block is closed by the end that matches its start. -/
  ends : ∀ b ∈ t.blocks, ∀ j,
    b.endEvent = some j ↔ Pairs Event.blockMark events b.startEvent j
  /-- An end closes the innermost block that is open. -/
  closes : ∀ i j, events[j]? = some .blockEnd →
    (openStarts Event.blockMark events j).getLast? = some i →
      ∃ b ∈ t.blocks, b.startEvent = i ∧ b.endEvent = some j
  /-- A block lies in the innermost block that is open at its start. -/
  parent : ∀ b ∈ t.blocks, b.parent.map (fun k => t.blocks[k]?.map (·.startEvent)) =
    (openStarts Event.blockMark events b.startEvent).getLast?.map some
  /-- A block is as deep as there are blocks around it. -/
  depth : ∀ b ∈ t.blocks, b.depth = (openStarts Event.blockMark events b.startEvent).length
  /-- Blocks are nested in a block as deeply as the deepest of them lies. -/
  height : ∀ b ∈ t.blocks, IsGreatest
    {d | d = 0 ∨ ∃ inner ∈ t.blocks,
      b.startEvent ∈ openStarts Event.blockMark events inner.startEvent ∧
        inner.depth = b.depth + d} b.subtreeDepth
  /-- A block spans the columns that the events in it refer to. -/
  columns : ∀ b ∈ t.blocks, Hull.Around b.columns
    {c | ∃ e event, events[e]? = some event ∧
      b.startEvent ∈ openStarts Event.blockMark events e ∧ c ∈ event.references roster}

variable {roster : Roster α} {events : List Event} {t : Timeline α} {F : Forest}

lemma mem_openStarts_iff {f : Event → Option Mark} {i n : Nat} :
    i ∈ openStarts f events n ↔ i ∈ stack f events n := by
  rw [Mark.openStarts_eq, List.mem_reverse]

section Tracked

variable (h : F.Tracks roster events events.length 0 events.length)
  (hblocks : F.blocks = t.blocks.map BlockSpan.outline)

include h hblocks

/-- Each start has its block. -/
lemma exists_block {i : Nat} (hi : sets Event.blockMark events i = some .start) :
    ∃ b, t.blocks[blockNumber events i]? = some b ∧
      b.outline.BegunBy events events.length i ∧
      Covers roster events i events.length b.outline.cover := by
  have hlt : i < events.length := by
    obtain ⟨event, hevent, -⟩ := Option.bind_eq_some_iff.mp hi
    exact (List.getElem?_eq_some_iff.mp hevent).1
  obtain ⟨o, ho, hbegun, hcovers⟩ := h.blocks i hlt hi
  rw [hblocks, Array.getElem?_map, Option.map_eq_some_iff] at ho
  obtain ⟨b, hb, rfl⟩ := ho
  exact ⟨b, hb, hbegun, hcovers List.not_mem_nil⟩

/-- Each block has its start. -/
lemma of_mem_blocks {b : BlockSpan α} (hb : b ∈ t.blocks) :
    sets Event.blockMark events b.startEvent = some .start ∧
      b.outline.BegunBy events events.length b.startEvent ∧
      Covers roster events b.startEvent events.length b.outline.cover := by
  obtain ⟨k, hk⟩ := Array.mem_iff_getElem?.mp hb
  have hlt : k < blockNumber events events.length := by
    have hsize := congrArg Array.size hblocks
    rw [h.size, Array.size_map] at hsize
    exact hsize ▸ (Array.getElem?_eq_some_iff.mp hk).1
  obtain ⟨i, hi, hmark, rfl⟩ := exists_of_lt_count hlt
  obtain ⟨b', hb', hbegun, hcovers⟩ := exists_block h hblocks hmark
  cases hk.symm.trans hb'
  obtain rfl : b.startEvent = i := hbegun.startEvent
  exact ⟨hmark, hbegun, hcovers⟩

lemma map_startEvent : t.blocks.toList.map (·.startEvent) =
    (List.range events.length).filter fun i => sets Event.blockMark events i = some .start := by
  have hsize : t.blocks.size = blockNumber events events.length := by
    rw [← h.size, hblocks, Array.size_map]
  refine List.ext_getElem? fun k => ?_
  rw [List.getElem?_map, Array.getElem?_toList]
  by_cases hk : k < blockNumber events events.length
  · obtain ⟨i, hi, hmark, rfl⟩ := exists_of_lt_count hk
    obtain ⟨b, hb, hbegun, -⟩ := exists_block h hblocks hmark
    rw [show Nat.count _ i = blockNumber events i from rfl, hb, blockNumber,
      getElem?_filter_range hi hmark]
    exact congrArg some hbegun.startEvent
  · rw [Nat.not_lt] at hk
    rw [Array.getElem?_eq_none (hsize ▸ hk), List.getElem?_eq_none]
    · rfl
    · rwa [length_filter_range]

lemma parent_eq {b : BlockSpan α} (hb : b ∈ t.blocks) :
    b.parent.map (fun k => t.blocks[k]?.map (·.startEvent)) =
      (openStarts Event.blockMark events b.startEvent).getLast?.map some := by
  obtain ⟨-, hbegun, -⟩ := of_mem_blocks h hblocks hb
  rw [Mark.getLast?_openStarts, show b.parent = _ from hbegun.parent]
  cases houter : (stack Event.blockMark events b.startEvent).head? with
  | none => rfl
  | some outer =>
      obtain ⟨-, hmark⟩ := Mark.lt_of_mem_stack (List.mem_of_head? houter)
      obtain ⟨p, hp, hbegun', -⟩ := exists_block h hblocks hmark
      simp only [Option.map_some, hp]
      exact congrArg (fun i => some (some i)) hbegun'.startEvent

/-- The depths of blocks in a block are those of their starts. -/
lemma depths_eq {b : BlockSpan α} (hb : b ∈ t.blocks) :
    {d | d = 0 ∨ ∃ inner ∈ t.blocks,
      b.startEvent ∈ openStarts Event.blockMark events inner.startEvent ∧
        inner.depth = b.depth + d} = depthsIn events b.startEvent events.length := by
  obtain ⟨-, hbegun, -⟩ := of_mem_blocks h hblocks hb
  ext d
  simp only [depthsIn, Set.mem_ofPred_eq, mem_openStarts_iff]
  refine or_congr_right ⟨?_, ?_⟩
  · rintro ⟨inner, hinner, hmem, hdepth⟩
    obtain ⟨hmark, hbegun', -⟩ := of_mem_blocks h hblocks hinner
    obtain ⟨event, hevent, -⟩ := Option.bind_eq_some_iff.mp hmark
    refine ⟨inner.startEvent, (List.getElem?_eq_some_iff.mp hevent).1, hmem, hmark, ?_⟩
    rw [← hbegun'.depth, ← hbegun.depth]
    exact hdepth
  · rintro ⟨i, -, hmem, hmark, hdepth⟩
    obtain ⟨inner, hinner, hbegun', -⟩ := exists_block h hblocks hmark
    have hstart : inner.startEvent = i := hbegun'.startEvent
    refine ⟨inner, Array.mem_of_getElem? hinner, hstart ▸ hmem, ?_⟩
    rw [← hbegun'.depth, ← hbegun.depth] at hdepth
    exact hdepth

omit h hblocks in
/-- The columns touched in a block are those that the events in it refer to. -/
lemma touchedIn_eq (i : Nat) : touchedIn roster events i events.length =
    {c | ∃ e event, events[e]? = some event ∧ i ∈ openStarts Event.blockMark events e ∧
      c ∈ event.references roster} := by
  ext column
  simp only [touchedIn, Set.mem_ofPred_eq, mem_openStarts_iff, mem_touched]
  constructor
  · rintro ⟨e, -, hmem, event, hevent, hcolumn⟩
    exact ⟨e, event, hevent, hmem, hcolumn⟩
  · rintro ⟨e, event, hevent, hmem, hcolumn⟩
    exact ⟨e, (List.getElem?_eq_some_iff.mp hevent).1, hmem, event, hevent, hcolumn⟩

/-- **A forest that tracks the events nests its blocks as they say.** -/
lemma nests_of_tracks : t.Nests roster events where
  starts := map_startEvent h hblocks
  ends b hb j := by
    obtain ⟨-, hbegun, -⟩ := of_mem_blocks h hblocks hb
    refine (hbegun.endEvent j).trans (and_iff_right_iff_imp.mpr fun hpairs => ?_)
    obtain ⟨event, hevent, -⟩ := Option.bind_eq_some_iff.mp hpairs.stop
    exact (List.getElem?_eq_some_iff.mp hevent).1
  closes i j hevent hlast := by
    rw [Mark.getLast?_openStarts] at hlast
    have hpairs : Pairs Event.blockMark events i j := by
      refine Mark.pairs_iff_head?.mpr ⟨?_, hlast⟩
      rw [sets, hevent]
      rfl
    obtain ⟨b, hb, hbegun, -⟩ := exists_block h hblocks hpairs.start
    exact ⟨b, Array.mem_of_getElem? hb, hbegun.startEvent,
      (hbegun.endEvent j).mpr ⟨(List.getElem?_eq_some_iff.mp hevent).1, hpairs⟩⟩
  parent b hb := parent_eq h hblocks hb
  depth b hb := by
    obtain ⟨-, hbegun, -⟩ := of_mem_blocks h hblocks hb
    rw [Mark.length_openStarts]
    exact hbegun.depth
  height b hb := by
    obtain ⟨-, -, hcovers⟩ := of_mem_blocks h hblocks hb
    rw [depths_eq h hblocks hb]
    exact hcovers.depth
  columns b hb := by
    obtain ⟨-, -, hcovers⟩ := of_mem_blocks h hblocks hb
    rw [← touchedIn_eq]
    exact hcovers.columns

end Tracked

/-- **Blocks follow the events of a diagram.** -/
lemma nests_ofModel [Scalar α] (s : Setting α) (roster : Roster α) (m : Model) :
    (ofModel s roster m).Nests roster m.events :=
  nests_of_tracks (Forest.tracks_finish s roster m.events) rfl

/-- A block has its start among the events. -/
lemma Nests.sets_startEvent (h : t.Nests roster events) {b : BlockSpan α} (hb : b ∈ t.blocks) :
    b.startEvent < events.length ∧ sets Event.blockMark events b.startEvent = some .start := by
  have hmem : b.startEvent ∈ t.blocks.toList.map (·.startEvent) :=
    List.mem_map_of_mem (Array.mem_toList_iff.mpr hb)
  rwa [h.starts, List.mem_filter, List.mem_range, decide_eq_true_eq] at hmem

end Timeline

/-! ### The depth that is checked -/

/-- The depths that are reached by the blocks opened from an event on. -/
def depthsFrom (events : List Event) (n : Nat) : Set Nat :=
  {d | ∃ i, n ≤ i ∧ sets Event.blockMark events i = some .start ∧
    d = (stack Event.blockMark events i).length + 1}

lemma depthsFrom_of_start {events : List Event} {n : Nat}
    (h : sets Event.blockMark events n = some .start) :
    depthsFrom events n =
      {(stack Event.blockMark events n).length + 1} ∪ depthsFrom events (n + 1) := by
  ext d
  simp only [depthsFrom, Set.mem_ofPred_eq, Set.mem_union, Set.mem_singleton_iff]
  constructor
  · rintro ⟨i, hi, hmark, hd⟩
    rcases Nat.eq_or_lt_of_le hi with rfl | hi
    · exact Or.inl hd
    · exact Or.inr ⟨i, hi, hmark, hd⟩
  · rintro (hd | ⟨i, hi, hmark, hd⟩)
    · exact ⟨n, le_rfl, h, hd⟩
    · exact ⟨i, Nat.le_of_succ_le hi, hmark, hd⟩

lemma depthsFrom_of_not {events : List Event} {n : Nat}
    (h : sets Event.blockMark events n ≠ some .start) :
    depthsFrom events n = depthsFrom events (n + 1) := by
  ext d
  simp only [depthsFrom, Set.mem_ofPred_eq]
  constructor
  · rintro ⟨i, hi, hmark, hd⟩
    rcases Nat.eq_or_lt_of_le hi with rfl | hi
    · exact absurd hmark h
    · exact ⟨i, hi, hmark, hd⟩
  · rintro ⟨i, hi, hrest⟩
    exact ⟨i, Nat.le_of_succ_le hi, hrest⟩

/-- The greatest depth from an event on, when some blocks are open before it. -/
lemma isGreatest_nestingFrom {events rest : List Event} {n : Nat} (hrest : events.drop n = rest)
    (deepest : Nat) :
    IsGreatest ({deepest} ∪ depthsFrom events n)
      (nestingFrom (stack Event.blockMark events n).length deepest rest) := by
  induction rest generalizing n deepest with
  | nil =>
      refine ⟨Or.inl rfl, ?_⟩
      rintro d (rfl | ⟨i, hi, hmark, -⟩)
      · exact le_rfl
      · rw [sets, List.getElem?_eq_none ((List.drop_eq_nil_iff.mp hrest).trans hi)] at hmark
        cases hmark
  | cons event rest ih =>
      have hsets : sets Event.blockMark events n = event.blockMark := by
        rw [sets, ← List.head?_drop, hrest, List.head?_cons, Option.bind_some]
      have hnext : events.drop (n + 1) = rest := by
        rw [← List.tail_drop, hrest, List.tail_cons]
      cases event with
      | blockStart b =>
          have hgreatest := ih hnext
            (max deepest ((stack Event.blockMark events n).length + 1))
          rw [Mark.stack_of_start hsets, List.length_cons] at hgreatest
          rw [depthsFrom_of_start hsets, nestingFrom, ← Set.union_assoc]
          refine ⟨?_, ?_⟩
          · rcases hgreatest.1 with heq | hmem
            · rw [show _ = max _ _ from heq]
              rcases max_choice deepest ((stack Event.blockMark events n).length + 1) with
                hmax | hmax
              · exact Or.inl (Or.inl hmax)
              · exact Or.inl (Or.inr hmax)
            · exact Or.inr hmem
          · rintro d ((rfl | rfl) | hd)
            · exact le_trans (le_max_left _ _) (hgreatest.2 (Or.inl rfl))
            · exact le_trans (le_max_right _ _) (hgreatest.2 (Or.inl rfl))
            · exact hgreatest.2 (Or.inr hd)
      | blockEnd =>
          have hgreatest := ih hnext deepest
          rw [Mark.stack_of_stop hsets, List.length_tail] at hgreatest
          rw [depthsFrom_of_not (by simp [hsets, Event.blockMark])]
          exact hgreatest
      | _ =>
          have hgreatest := ih hnext deepest
          rw [Mark.stack_of_none hsets] at hgreatest
          rw [depthsFrom_of_not (by simp [hsets, Event.blockMark])]
          exact hgreatest

/-- **The depth that is checked is one more than that of the deepest block.** -/
lemma Timeline.Nests.isGreatest_nestingDepth {t : Timeline α} {roster : Roster α} {m : Model}
    (h : t.Nests roster m.events) :
    IsGreatest {d | d = 0 ∨ ∃ b ∈ t.blocks, d = b.depth + 1} m.nestingDepth := by
  have hdepths : {d | d = 0 ∨ ∃ b ∈ t.blocks, d = b.depth + 1} =
      {0} ∪ depthsFrom m.events 0 := by
    ext d
    simp only [depthsFrom, Set.mem_ofPred_eq, Set.mem_union, Set.mem_singleton_iff, Nat.zero_le,
      true_and]
    refine or_congr_right ⟨?_, ?_⟩
    · rintro ⟨b, hb, hd⟩
      refine ⟨b.startEvent, (h.sets_startEvent hb).2, ?_⟩
      rw [hd, h.depth b hb, Mark.length_openStarts]
    · rintro ⟨i, hmark, hd⟩
      obtain ⟨event, hevent, -⟩ := Option.bind_eq_some_iff.mp hmark
      have hmem : i ∈ t.blocks.toList.map (·.startEvent) := by
        rw [h.starts, List.mem_filter, List.mem_range, decide_eq_true_eq]
        exact ⟨(List.getElem?_eq_some_iff.mp hevent).1, hmark⟩
      obtain ⟨b, hb, rfl⟩ := List.mem_map.mp hmem
      have hb' := Array.mem_toList_iff.mp hb
      exact ⟨b, hb', by rw [hd, h.depth b hb', Mark.length_openStarts]⟩
  rw [hdepths]
  exact isGreatest_nestingFrom List.drop_zero 0

/-! ### Drawings -/

section Drawings

variable [Scalar α]

/-- The depths of blocks and the events that open and close them. -/
def Layout.nesting (l : Layout α) : List (Nat × Nat × Option Nat) :=
  l.blocks.map fun g => (g.depth, g.startEvent, g.endEvent)

lemma length_blockRanges (a : Assembly α) (index : Nat) (spans : List (BlockSpan α)) :
    (a.blockRanges index spans).length = spans.length := by
  induction spans generalizing index with
  | nil => rfl
  | cons span spans ih => rw [Assembly.blockRanges, List.length_cons, List.length_cons, ih]

/-- Blocks are drawn with their depths and events. -/
lemma Layout.nesting_of_assemble {s : Setting α} {roster : Roster α} {t : Timeline α}
    {c : Columns α} {l : Layout α} (h : assemble s roster t c = .ok l) :
    l.nesting = t.blocks.toList.map fun b => (b.depth, b.startEvent, b.endEvent) := by
  rw [assemble] at h
  dsimp only at h
  split at h
  · cases h
  · obtain rfl := Except.ok.inj h
    have hfst := List.map_fst_zip (length_blockRanges ⟨s, roster, t, c⟩ 0 t.blocks.toList).ge
    have hkeys := congrArg (List.map fun b : BlockSpan α =>
      (b.depth, b.startEvent, b.endEvent)) hfst
    rw [List.map_map] at hkeys
    rw [nesting, Assembly.blocks, List.map_map, ← hkeys]
    rfl

/-- A diagram that is laid out has passed the check of its depth. -/
lemma Layout.nestingDepth_le {s : Setting α} {m : Model} {l : Layout α}
    {diagnostics : List (Diagnostic α)} (h : ofModel s m = .ok (l, diagnostics)) :
    m.nestingDepth ≤ s.config.limits.maxNestingDepth := by
  rw [ofModel] at h
  dsimp only at h
  split at h
  · cases h
  · next hdepth => exact Nat.le_of_not_lt hdepth

lemma Layout.nesting_translate (l : Layout α) (v : Point α) :
    (l.translate v).nesting = l.nesting := by
  simp only [nesting, translate, List.map_map]
  rfl

end Drawings

end Drafting.Sequence

namespace Drafting.Diagram

open Drafting.Sequence

/-- **The blocks of a sequence diagram form the forest that its events describe.**  They follow the
starts and ends in the timeline of every diagram, the depth that is checked is one more than that of
the deepest, and in a drawing every block is nested less deeply than the limit. -/
theorem blocks_form_forest {α : Type} [Scalar α] (s : Setting α) (m : Sequence.Model) :
    let roster := Roster.ofModel s m
    let t := Timeline.ofModel s roster m
    t.Nests roster m.events ∧
      IsGreatest {d | d = 0 ∨ ∃ b ∈ t.blocks, d = b.depth + 1} m.nestingDepth ∧
      ∀ title caption drawing, layout s ⟨title, caption, .sequence m⟩ = .ok drawing →
        ∃ l, drawing.sequence? = some l ∧
          l.nesting = t.blocks.toList.map (fun b => (b.depth, b.startEvent, b.endEvent)) ∧
          ∀ g ∈ l.blocks, g.depth < s.config.limits.maxNestingDepth := by
  intro roster t
  have hnests := Timeline.nests_ofModel s roster m
  have hgreatest := hnests.isGreatest_nestingDepth
  refine ⟨hnests, hgreatest, fun title caption drawing h => ?_⟩
  obtain ⟨-, l, hl, hsequence, -⟩ := of_layout_sequence h
  obtain ⟨_, hbuild, hassemble, -⟩ := Layout.of_ofModel hl
  obtain rfl := (Timeline.build_eq_ok_iff.mp hbuild).1
  have hnesting := Layout.nesting_of_assemble hassemble
  refine ⟨_, hsequence, (Layout.nesting_translate l _).trans hnesting, fun g hg => ?_⟩
  -- a drawn block is a block of the timeline
  have hmem := List.mem_map_of_mem (f := fun g => (g.depth, g.startEvent, g.endEvent)) hg
  rw [show List.map _ _ = _ from (Layout.nesting_translate l _).trans hnesting] at hmem
  obtain ⟨b, hb, hkey⟩ := List.mem_map.mp hmem
  have hdepth : b.depth = g.depth := congrArg Prod.fst hkey
  calc g.depth
    _ < b.depth + 1 := by omega
    _ ≤ m.nestingDepth := hgreatest.2 (Or.inr ⟨b, Array.mem_toList_iff.mp hb, rfl⟩)
    _ ≤ s.config.limits.maxNestingDepth := Layout.nestingDepth_le hl

/-- A block in a block that is never closed. -/
theorem blocks_of_an_open_choice :
    let s : Setting Rat := ⟨.standard, fun _ _ => ⟨10, 5⟩⟩
    let m : Sequence.Model :=
      { participants := [{ id := "A" }, { id := "B" }]
        events := [.blockStart { kind := "alt" }, .blockStart { kind := "opt" },
          .message { source := "B", target := none }, .blockEnd, .activate "A"] }
    ∃ drawing l, layout s ⟨none, none, .sequence m⟩ = .ok drawing ∧
      drawing.sequence? = some l ∧ l.nesting = [(0, 0, none), (1, 1, some 3)] ∧
      ∀ g ∈ l.blocks, g.depth < 64 := by
  intro s m
  have hvalid : s.config.validate = .ok () := by cbv
  have hlengths : s.MeasuresLengths := fun _ _ =>
    (by decide : (0 : Rat) ≤ 10 ∧ (0 : Rat) ≤ 5)
  obtain ⟨drawing, hlayout⟩ := exists_layout_sequence hvalid hlengths none none (m := m)
    (by decide) (by decide)
  obtain ⟨-, -, hdrawn⟩ := blocks_form_forest s m
  obtain ⟨l, hl, hnesting, hdepth⟩ := hdrawn none none drawing hlayout
  refine ⟨drawing, l, hlayout, hl, hnesting.trans ?_, hdepth⟩
  cbv

end Drafting.Diagram
