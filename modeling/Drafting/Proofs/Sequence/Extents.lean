import Mathlib
import Drafting.Proofs.Sequence.BlockForest
import Drafting.Proofs.Sequence.Frames

/-!
How far down blocks reach.

A block begins in the row of its start, its sections begin in the rows of their events, and it ends
in the row of its end.  Every row lies below all that was drawn before, so what happens later lies
lower.  Texts and columns have no part in this, and what is left without them changes in four ways.

* `Extents`, `Extents.Step`: the heights of blocks and what an event can do to them.
* `State.step_extents`: every event does one of these things.
* `Extents.Follows`, `Extents.Follows.step`: heights agree with where the cursor was.
* `Extents.getElem?_closeAll`: what is still open ends from the inside out.
* `Timeline.blocks_follow`: the heights of the blocks of a diagram agree with its rows.
* `Timeline.Follows.surrounds`, `Timeline.Follows.above_of_not_open`: a block begins and ends
  strictly within those around it, and it lies wholly above those that begin after it.
-/

namespace Drafting.Sequence

open Mark (stack sets Pairs openStarts)

/-! ### Heights -/

/-- A block without its texts and columns. -/
structure Extent where
  /-- Where it begins. -/
  top : Rat
  /-- Where it ends. -/
  bottom : Rat
  /-- Where its further sections begin. -/
  parts : List Rat
  /-- How many blocks are around it. -/
  depth : Nat
  /-- The event that opens it. -/
  startEvent : Nat
  /-- The event that closes it. -/
  endEvent : Option Nat

/-- The extent of a block. -/
def BlockSpan.extent (b : BlockSpan Rat) : Extent :=
  ⟨b.top, b.bottom, b.sections.map (·.y), b.depth, b.startEvent, b.endEvent⟩

/-- The heights of the blocks of a diagram. -/
structure Extents where
  /-- The lowest point reached. -/
  cursor : Rat
  /-- The open blocks, the innermost first. -/
  opened : List Nat
  /-- All blocks so far. -/
  blocks : Array Extent

namespace Extents

/-- The cursor moves. -/
def moveTo (E : Extents) (y : Rat) : Extents := { E with cursor := y }

/-- A block is opened. -/
def start (E : Extents) (index : Nat) (top bottom : Rat) : Extents :=
  { E with
    opened := E.blocks.size :: E.opened
    blocks := E.blocks.push ⟨top, bottom, [], E.opened.length, index, none⟩ }

/-- The innermost open block gets a section. -/
def part (E : Extents) (y : Rat) : Extents :=
  match E.opened with
  | [] => E
  | k :: _ => { E with blocks := E.blocks.modify k fun b => { b with parts := b.parts ++ [y] } }

/-- The innermost open block is closed. -/
def close (E : Extents) (y : Rat) (endEvent : Option Nat) : Extents :=
  match E.opened with
  | [] => E
  | k :: rest =>
    { E with
      opened := rest
      blocks := E.blocks.modify k fun b => { b with bottom := y, endEvent := endEvent } }

/-- All open blocks are closed, each a spacing below the one in it. -/
def closeAll (e : Rat) (E : Extents) : Extents :=
  E.opened.foldl (fun E _ => (E.moveTo (E.cursor + e)).close (E.cursor + e) none) E

/-- What an event with a given index can do.  A row lies below the cursor, which moves to the row or
below it. -/
inductive Step (index : Nat) (E : Extents) : Extents → Prop
  /-- It does not concern blocks. -/
  | pass {z : Rat} (hz : E.cursor ≤ z) : Step index E (E.moveTo z)
  /-- It opens a block. -/
  | start {y bottom z : Rat} (hy : E.cursor < y) (hz : y ≤ z) :
      Step index E ((E.start index y bottom).moveTo z)
  /-- It begins a section. -/
  | part {y z : Rat} (hy : E.cursor < y) (hz : y ≤ z) : Step index E ((E.part y).moveTo z)
  /-- It closes a block. -/
  | close {y z : Rat} (hy : E.cursor < y) (hz : y ≤ z) :
      Step index E ((E.close y (some index)).moveTo z)

lemma Step.cursor_le {index : Nat} {E E' : Extents} (h : Step index E E') :
    E.cursor ≤ E'.cursor := by
  cases h with
  | pass hz => exact hz
  | start hy hz => exact hy.le.trans hz
  | part hy hz => exact hy.le.trans hz
  | close hy hz => exact hy.le.trans hz

end Extents

/-! ### The walk -/

namespace State

/-- The heights of the blocks so far. -/
def extents (st : State Rat) : Extents := ⟨st.cursor, st.openBlocks, st.blocks.map BlockSpan.extent⟩

/-- What does not concern heights may change. -/
lemma extent_modify (blocks : Array (BlockSpan Rat)) (k : Nat) {f : BlockSpan Rat → BlockSpan Rat}
    (hf : ∀ b, (f b).extent = b.extent) :
    (blocks.modify k f).map BlockSpan.extent = blocks.map BlockSpan.extent := by
  refine Array.ext (by simp) fun i hi _ => ?_
  simp only [Array.getElem_map, Array.getElem_modify]
  split
  · exact hf _
  · rfl

lemma extents_touchAll (st : State Rat) (columns : List Nat) :
    (st.touchAll columns).extents = st.extents := by
  rw [touchAll]
  induction columns generalizing st with
  | nil => rfl
  | cons column columns ih =>
      rw [List.foldl_cons, ih, touch]
      split
      · rfl
      · simp only [extents]
        rw [extent_modify]
        exact fun _ => rfl

lemma extents_closeBlock (st : State Rat) (y : Rat) (endEvent : Option Nat) :
    (st.closeBlock y endEvent).2.extents = st.extents.close y endEvent := by
  have hmodify : ∀ k, (st.blocks.modify k fun b =>
      { b with bottom := y, endEvent := endEvent }).map BlockSpan.extent =
      (st.blocks.map BlockSpan.extent).modify k fun b =>
        { b with bottom := y, endEvent := endEvent } :=
    map_modify (fun _ => by rfl) st.blocks
  rw [closeBlock, Extents.close, show st.extents.opened = st.openBlocks from rfl]
  cases st.openBlocks with
  | nil => rfl
  | cons k rest =>
      refine congrArg (Extents.mk _ rest) ((?_ : Array.map _ _ = _).trans (hmodify k))
      dsimp only
      split
      · rfl
      · split
        · rfl
        · exact extent_modify _ _ fun _ => by rfl

variable {s : Setting Rat} {st : State Rat}

/-- Closing an activation moves the cursor only. -/
lemma extents_closeActivation (st : State Rat) (activation : Nat) (floor : Rat)
    (endEvent : Option Nat) :
    ∃ z, st.cursor ≤ z ∧
      (st.closeActivation s activation floor endEvent).2.extents = st.extents.moveTo z := by
  rw [closeActivation]
  split
  · exact ⟨st.cursor, le_refl _, rfl⟩
  · exact ⟨_, le_max_left _ _, rfl⟩

lemma extents_deactivate (st : State Rat) (roster : Roster Rat) (index : Nat) (id : Ident) :
    ∃ z, st.cursor ≤ z ∧ (st.deactivate s roster index id).1.extents = st.extents.moveTo z := by
  rw [deactivate]
  split
  · exact ⟨st.cursor, le_refl _, rfl⟩
  · next column _ =>
      have htouch : (st.touch column).extents = st.extents := extents_touchAll st [column]
      have hclose : ∀ (base : State Rat) (activation : Nat) (floor : Rat),
          base.extents = (st.touch column).extents → ∃ z, st.cursor ≤ z ∧
            (base.closeActivation s activation floor (some index)).2.extents =
              st.extents.moveTo z := by
        intro base activation floor hbase
        rw [← htouch, ← hbase, show st.cursor = base.cursor from
          congrArg Extents.cursor (hbase.trans htouch).symm]
        exact extents_closeActivation base activation floor _
      dsimp only
      split
      · exact ⟨st.cursor, le_refl _, htouch⟩
      · refine hclose _ _ _ ?_
        split <;> rfl

lemma extents_closeActivations (st : State Rat) :
    ∃ z, st.cursor ≤ z ∧ (st.closeActivations s).extents = st.extents.moveTo z := by
  have hfold : ∀ {β : Type} (f : State Rat → β → State Rat),
      (∀ st x, ∃ z, st.cursor ≤ z ∧ (f st x).extents = st.extents.moveTo z) →
      ∀ (xs : List β) (st : State Rat),
        ∃ z, st.cursor ≤ z ∧ (xs.foldl f st).extents = st.extents.moveTo z := by
    intro β f hf xs
    induction xs with
    | nil => exact fun st => ⟨st.cursor, le_refl _, rfl⟩
    | cons x xs ih =>
        intro st
        obtain ⟨y, hy, hfirst⟩ := hf st x
        obtain ⟨z, hz, hrest⟩ := ih (f st x)
        rw [show (f st x).cursor = y from congrArg Extents.cursor hfirst] at hz
        rw [hfirst] at hrest
        exact ⟨z, hy.trans hz, hrest⟩
  rw [closeActivations, ← Array.foldl_toList]
  exact hfold _ (fun st stack => hfold _ (fun st activation =>
    extents_closeActivation st activation _ none) stack st) _ st

lemma extents_closeBlocks (st : State Rat) :
    (st.closeBlocks s).extents = st.extents.closeAll s.config.sequence.eventSpacing := by
  rw [closeBlocks, Extents.closeAll, show st.extents.opened = st.openBlocks from rfl]
  generalize st.openBlocks = opened
  induction opened generalizing st with
  | nil => rfl
  | cons k opened ih =>
      rw [List.foldl_cons, ih, extents_closeBlock, List.foldl_cons]
      rfl

/-- **At the end the cursor moves down and all that is open is closed.** -/
lemma extents_finish (st : State Rat) :
    ∃ z, st.cursor ≤ z ∧ (st.finish s).extents =
      (st.extents.moveTo z).closeAll s.config.sequence.eventSpacing := by
  rw [finish, extents_closeBlocks]
  obtain ⟨z, hz, hextents⟩ := extents_closeActivations (s := s)
    { st with
      pending := []
      activations := st.pending.foldl
        (fun as a => as.modify a fun x => { x with startY := st.cursor }) st.activations }
  exact ⟨z, hz, by rw [hextents]; rfl⟩

/-! ### What events do to the heights -/

variable (hs : s.config.sequence.Sensible) (ht : s.MeasuresLengths) (roster : Roster Rat)
  (index : Nat)

include hs

/-- A row that needs no negative room moves the cursor down. -/
lemma extents_placeRow {st' : State Rat} {above below : Rat} (habove : 0 ≤ above)
    (hbelow : 0 ≤ below) (target : Option Nat) (hsame : st'.extents = st.extents) :
    Extents.Step index st.extents (st'.placeRow s roster index above below target).2.extents := by
  obtain ⟨hy, hz⟩ := placeRow_spec hs st' roster index habove below target
  rw [show st'.cursor = st.extents.cursor from congrArg Extents.cursor hsame] at hy
  have hmoved : (st'.placeRow s roster index above below target).2.extents =
      st'.extents.moveTo (st'.placeRow s roster index above below target).2.cursor := rfl
  rw [hmoved, hsame]
  exact .pass (by linarith)

/-- The head of a block opens it. -/
lemma extents_blockStart (st : State Rat) (header : BlockHeader) :
    Extents.Step index st.extents (st.blockStart s roster index header).1.extents := by
  simp only [blockStart]
  set head := max (max s.config.sequence.blockHeaderHeight _) (MeasuredText.heightOf _)
  have hhead : 0 ≤ head := Lengths.max_nonneg _ (Lengths.max_nonneg _ hs.blockHeaderHeight)
  obtain ⟨hy, hz⟩ := placeRow_spec hs st roster index (le_refl 0) head none
  have hstart : Extents.Step index st.extents ((st.extents.start index
      (st.placeRow s roster index 0 head none).1
      ((st.placeRow s roster index 0 head none).1 + head)).moveTo _) :=
    .start hy ((le_add_of_nonneg_right hhead).trans hz)
  refine (congrArg (Extents.Step index st.extents) ?_).mpr hstart
  simp only [extents, Extents.start, Extents.moveTo, placeRow, Array.map_push, Array.size_map]
  rfl

include ht in
/-- A section goes to the innermost open block. -/
lemma extents_blockSection (st : State Rat) (text : Option String) :
    Extents.Step index st.extents (st.blockSection s roster index text).1.extents := by
  rw [blockSection]
  split
  · exact .pass (z := st.cursor) (le_refl _)
  · next k rest hopen =>
      obtain ⟨hy, hz⟩ := placeRow_spec hs st roster index (le_refl 0)
        (MeasuredText.heightOf (bandLabel s text)) none
      have hpart : Extents.Step index st.extents _ :=
        .part hy ((le_add_of_nonneg_right (heightOf_bandLabel_nonneg ht text)).trans hz)
      refine (congrArg (Extents.Step index st.extents) ?_).mpr hpart
      have hmodify : ∀ (y : Rat) (label : Option (MeasuredText Rat)),
          (st.blocks.modify k fun b =>
            { b with sections := b.sections ++ [⟨y, label⟩] }).map BlockSpan.extent =
          (st.blocks.map BlockSpan.extent).modify k fun b => { b with parts := b.parts ++ [y] } :=
        fun _ _ => map_modify (fun b => by simp [BlockSpan.extent]) st.blocks k
      simp only [extents, placeRow, Extents.part, Extents.moveTo, hopen, hmodify]

/-- An end closes the innermost open block. -/
lemma extents_blockEnd (st : State Rat) :
    Extents.Step index st.extents (st.blockEnd s roster index).1.extents := by
  rw [blockEnd]
  split
  · exact .pass (z := st.cursor) (le_refl _)
  · obtain ⟨hy, hz⟩ := placeRow_spec hs st roster index (le_refl 0) 0 none
    rw [add_zero] at hz
    have hclose : Extents.Step index st.extents _ := .close hy hz
    refine (congrArg (Extents.Step index st.extents) ?_).mpr hclose
    dsimp only
    rw [extents_closeBlock, Extents.close, Extents.close]
    cases hopen : st.openBlocks <;> simp [extents, placeRow, Extents.moveTo, hopen]

include ht in
/-- **Every event does one of four things to the heights of blocks.** -/
lemma step_extents (st : State Rat) (event : Event) :
    Extents.Step index st.extents (st.step s roster index event).state.extents := by
  cases event with
  | message m =>
      obtain ⟨columns, above, below, target, habove, hbelow, hrow⟩ :=
        exists_placeRow_message hs ht roster index st m
      have hstep := extents_placeRow hs roster index habove hbelow target
        (extents_touchAll st columns)
      rwa [← hrow] at hstep
  | activate id =>
      simp only [step, activate]
      split
      · exact .pass (z := st.cursor) (le_refl _)
      · next column _ =>
          have htouch : (st.touch column).extents = st.extents := extents_touchAll st [column]
          exact (congrArg (Extents.Step index st.extents) htouch).mpr
            (.pass (z := st.cursor) (le_refl _))
  | deactivate id =>
      obtain ⟨z, hz, hextents⟩ := extents_deactivate (s := s) st roster index id
      exact (congrArg (Extents.Step index st.extents) hextents).mpr (.pass hz)
  | note n =>
      exact extents_placeRow hs roster index (le_refl _)
        (add_nonneg (ht.measured _ _ _).2 (Lengths.twice_nonneg hs.notePadding)) _
        (extents_touchAll st _)
  | divider text =>
      exact extents_placeRow hs roster index (half_dividerHeight_nonneg hs _)
        (half_dividerHeight_nonneg hs _) none rfl
  | delay text =>
      exact extents_placeRow hs roster index (le_refl _) (Lengths.max_nonneg _ hs.delayHeight) none
        rfl
  | blockStart header => exact extents_blockStart hs roster index st header
  | blockSection text => exact extents_blockSection hs ht roster index st text
  | blockEnd => exact extents_blockEnd hs roster index st

end State

/-! ### Heights and the cursor -/

/-- A block lies where its events are, after the first `n` of them.  The cursor stands at `c j`
before event `j`; nothing of an open block lies below it yet. -/
structure Extent.Follows (c : Nat → Rat) (n : Nat) (b : Extent) : Prop where
  above : c b.startEvent < b.top
  below : b.top ≤ c (b.startEvent + 1)
  parts : (b.top :: b.parts).Pairwise (· < ·)
  reached : ∀ y ∈ b.top :: b.parts, y ≤ c (b.endEvent.getD n)
  ended : ∀ j, b.endEvent = some j → c j < b.bottom ∧ b.bottom ≤ c (j + 1)

lemma Extent.Follows.succ {c : Nat → Rat} {n : Nat} {b : Extent} (h : b.Follows c n)
    (hc : c n ≤ c (n + 1)) : b.Follows c (n + 1) := by
  refine ⟨h.above, h.below, h.parts, fun y hy => (h.reached y hy).trans ?_, h.ended⟩
  cases b.endEvent with
  | none => exact hc
  | some j => exact le_refl _

namespace Extents

/-- All blocks lie where their events are.  Those without an end are open, and each of them has
those around it under it in the stack. -/
structure Follows (c : Nat → Rat) (n : Nat) (E : Extents) : Prop where
  cursor : E.cursor = c n
  blocks : ∀ (k : Nat) (b : Extent), E.blocks[k]? = some b → b.Follows c n
  opened : ∀ t k : Nat, E.opened[t]? = some k → ∃ b, E.blocks[k]? = some b ∧ b.endEvent = none ∧
    b.depth + (t + 1) = E.opened.length
  nodup : E.opened.Nodup
  unclosed : ∀ (k : Nat) (b : Extent), E.blocks[k]? = some b → b.endEvent = none → k ∈ E.opened

namespace Follows

variable {c : Nat → Rat} {n : Nat} {E : Extents} {y : Rat}

/-- A block that is open has its entry. -/
lemma lt_size (h : Follows c n E) {k : Nat} (hk : k ∈ E.opened) : k < E.blocks.size := by
  obtain ⟨t, ht⟩ := List.mem_iff_getElem?.mp hk
  obtain ⟨b, hb, -⟩ := h.opened t k ht
  exact (Array.getElem?_eq_some_iff.mp hb).1

lemma pass (h : Follows c n E) (hc : c n ≤ c (n + 1)) : Follows c (n + 1) (E.moveTo (c (n + 1))) :=
  ⟨rfl, fun k b hb => (h.blocks k b hb).succ hc, h.opened, h.nodup, h.unclosed⟩

lemma start (h : Follows c n E) (hy : c n < y) (hz : y ≤ c (n + 1)) (bottom : Rat) :
    Follows c (n + 1) ((E.start n y bottom).moveTo (c (n + 1))) := by
  have hc : c n ≤ c (n + 1) := hy.le.trans hz
  have hfresh : E.blocks.size ∉ E.opened := fun hmem => lt_irrefl _ (h.lt_size hmem)
  refine ⟨rfl, fun k b hb => ?_, fun t k hk => ?_, ?_, fun k b hb hend => ?_⟩
  · change (E.blocks.push _)[k]? = some b at hb
    rw [Array.getElem?_push] at hb
    split at hb
    · obtain rfl := Option.some.inj hb
      exact ⟨hy, hz, List.pairwise_singleton _ _, by simpa using hz, fun j hj => by cases hj⟩
    · exact (h.blocks k b hb).succ hc
  · change (E.blocks.size :: E.opened)[t]? = some k at hk
    change ∃ b, (E.blocks.push _)[k]? = some b ∧ _ ∧ b.depth + (t + 1) = E.opened.length + 1
    cases t with
    | zero =>
        obtain rfl := Option.some.inj hk
        exact ⟨_, Array.getElem?_push_size, rfl, rfl⟩
    | succ t =>
        rw [List.getElem?_cons_succ] at hk
        obtain ⟨b, hb, hend, hdepth⟩ := h.opened t k hk
        refine ⟨b, ?_, hend, by omega⟩
        rw [Array.getElem?_push, if_neg (Array.getElem?_eq_some_iff.mp hb).1.ne, hb]
  · exact List.nodup_cons.mpr ⟨hfresh, h.nodup⟩
  · change (E.blocks.push _)[k]? = some b at hb
    change k ∈ E.blocks.size :: E.opened
    rw [Array.getElem?_push] at hb
    split at hb
    · next hk => exact hk ▸ List.mem_cons_self
    · exact List.mem_cons_of_mem _ (h.unclosed k b hb hend)

lemma part (h : Follows c n E) (hy : c n < y) (hz : y ≤ c (n + 1)) :
    Follows c (n + 1) ((E.part y).moveTo (c (n + 1))) := by
  have hc : c n ≤ c (n + 1) := hy.le.trans hz
  rw [Extents.part]
  split
  · exact h.pass hc
  · next k rest hopen =>
      obtain ⟨b₀, hb₀, hend₀, -⟩ := h.opened 0 k (by rw [hopen]; rfl)
      refine ⟨rfl, fun i b hb => ?_, fun t i hi => ?_, h.nodup, fun i b hb hend => ?_⟩
      · obtain ⟨-, hb⟩ | ⟨rfl, old, hold, rfl⟩ := of_getElem?_modify hb
        · exact (h.blocks i b hb).succ hc
        obtain rfl := Option.some.inj (hold.symm.trans hb₀)
        have hfollows := h.blocks k old hold
        -- all of an open block lies above the cursor, and the new section below it
        have habove : ∀ z ∈ old.top :: old.parts, z < y := by
          intro z hmem
          have hreached := hfollows.reached z hmem
          rw [hend₀, Option.getD_none] at hreached
          exact hreached.trans_lt hy
        refine ⟨hfollows.above, hfollows.below, ?_, ?_, hfollows.ended⟩
        · change ((old.top :: old.parts) ++ [y]).Pairwise (· < ·)
          exact List.pairwise_append.mpr ⟨hfollows.parts, List.pairwise_singleton _ _,
            fun z hmem w hw => List.mem_singleton.mp hw ▸ habove z hmem⟩
        · change ∀ z ∈ (old.top :: old.parts) ++ [y], z ≤ c (old.endEvent.getD (n + 1))
          rw [List.forall_mem_append, List.forall_mem_singleton, hend₀, Option.getD_none]
          exact ⟨fun z hmem => (habove z hmem).le.trans hz, hz⟩
      · obtain ⟨b, hb, hend, hdepth⟩ := h.opened t i hi
        change ∃ b, (E.blocks.modify k _)[i]? = some b ∧ _
        rw [Array.getElem?_modify, hb]
        split
        · exact ⟨_, rfl, hend, hdepth⟩
        · exact ⟨b, rfl, hend, hdepth⟩
      · obtain ⟨-, hb⟩ | ⟨rfl, old, hold, rfl⟩ := of_getElem?_modify hb
        · exact h.unclosed i b hb hend
        · exact h.unclosed k old hold hend

lemma close (h : Follows c n E) (hy : c n < y) (hz : y ≤ c (n + 1)) :
    Follows c (n + 1) ((E.close y (some n)).moveTo (c (n + 1))) := by
  have hc : c n ≤ c (n + 1) := hy.le.trans hz
  rw [Extents.close]
  split
  · exact h.pass hc
  · next k rest hopen =>
      obtain ⟨b₀, hb₀, hend₀, -⟩ := h.opened 0 k (by rw [hopen]; rfl)
      have hnodup := h.nodup
      rw [hopen, List.nodup_cons] at hnodup
      refine ⟨rfl, fun i b hb => ?_, fun t i hi => ?_, hnodup.2, fun i b hb hend => ?_⟩
      · obtain ⟨-, hb⟩ | ⟨rfl, old, hold, rfl⟩ := of_getElem?_modify hb
        · exact (h.blocks i b hb).succ hc
        obtain rfl := Option.some.inj (hold.symm.trans hb₀)
        have hfollows := h.blocks k old hold
        refine ⟨hfollows.above, hfollows.below, hfollows.parts, ?_, fun j hj => ?_⟩
        · have hreached := hfollows.reached
          rwa [hend₀] at hreached
        · obtain rfl := Option.some.inj hj
          exact ⟨hy, hz⟩
      · change rest[t]? = some i at hi
        change ∃ b, (E.blocks.modify k _)[i]? = some b ∧ _ ∧ b.depth + (t + 1) = rest.length
        obtain ⟨b, hb, hend, hdepth⟩ := h.opened (t + 1) i (by rw [hopen]; exact hi)
        have hne : k ≠ i := fun hki => hnodup.1 (hki ▸ List.mem_of_getElem? hi)
        rw [hopen, List.length_cons] at hdepth
        refine ⟨b, ?_, hend, by omega⟩
        rw [Array.getElem?_modify, if_neg hne, hb]
      · obtain ⟨hne, hb⟩ | ⟨rfl, old, hold, rfl⟩ := of_getElem?_modify hb
        · have hmem := h.unclosed i b hb hend
          rw [hopen, List.mem_cons] at hmem
          exact hmem.resolve_left (Ne.symm hne)
        · cases hend

/-- **Every step keeps blocks where their events are.** -/
lemma step {E' : Extents} (h : Follows c n E) (hstep : Step n E E') (hc : E'.cursor = c (n + 1)) :
    Follows c (n + 1) E' := by
  have hcursor := h.cursor
  cases hstep with
  | @pass z hz =>
      obtain rfl : z = c (n + 1) := hc
      exact h.pass (hcursor ▸ hz)
  | @start y bottom z hy hz =>
      obtain rfl : z = c (n + 1) := hc
      exact h.start (hcursor ▸ hy) hz bottom
  | @part y z hy hz =>
      obtain rfl : z = c (n + 1) := hc
      exact h.part (hcursor ▸ hy) hz
  | @close y z hy hz =>
      obtain rfl : z = c (n + 1) := hc
      exact h.close (hcursor ▸ hy) hz

end Follows

/-! ### The end of the walk -/

lemma closeAll_of_cons {e : Rat} {E : Extents} {k : Nat} {rest : List Nat}
    (h : E.opened = k :: rest) : E.closeAll e =
      closeAll e ⟨E.cursor + e, rest, E.blocks.modify k fun b =>
        { b with bottom := E.cursor + e, endEvent := none }⟩ := by
  rw [closeAll, h, List.foldl_cons, closeAll]
  simp only [close, moveTo, h]

/-- **What is still open ends from the inside out, each block a spacing below the one in it.** -/
lemma getElem?_closeAll {e : Rat} {E : Extents} (hnodup : E.opened.Nodup) (i : Nat) :
    (E.closeAll e).blocks[i]? = E.blocks[i]?.map fun b =>
      if i ∈ E.opened then
        { b with bottom := E.cursor + (E.opened.idxOf i + 1) * e, endEvent := none }
      else b := by
  obtain ⟨cursor, opened, blocks⟩ := E
  induction opened generalizing cursor blocks with
  | nil => simp [closeAll]
  | cons k rest ih =>
      obtain ⟨hk, hrest⟩ := List.nodup_cons.mp hnodup
      rw [closeAll_of_cons rfl, ih _ _ hrest, Array.getElem?_modify]
      by_cases hik : k = i
      · subst hik
        simp [hk, Option.map_map, Function.comp_def]
      · simp only [if_neg hik, List.mem_cons, Ne.symm hik, false_or,
          List.idxOf_cons_ne rest hik, Nat.cast_succ]
        refine congrArg (fun f => Option.map f _) (funext fun b => ?_)
        rw [show cursor + e + ((rest.idxOf i : Rat) + 1) * e =
          cursor + ((rest.idxOf i : Rat) + 1 + 1) * e by ring]

/-- A block at the end of the walk: its sections are strictly between its top and its bottom, and if
it has no end it ends below all events, the more so the further out it is. -/
structure Follows.Ends (c : Nat → Rat) (z e : Rat) (count : Nat) (b : Extent) : Prop where
  above : c b.startEvent < b.top
  below : b.top ≤ c (b.startEvent + 1)
  parts : (b.top :: (b.parts ++ [b.bottom])).Pairwise (· < ·)
  ended : ∀ j, b.endEvent = some j → c j < b.bottom ∧ b.bottom ≤ c (j + 1)
  unended : b.endEvent = none → b.depth < count ∧ b.bottom = z + (count - b.depth) * e

/-- **Closing what is open leaves blocks where their events are.** -/
lemma Follows.ends {c : Nat → Rat} {n : Nat} {E : Extents} (h : Follows c n E) {z e : Rat}
    (hz : c n ≤ z) (he : 0 < e) {i : Nat} {b : Extent}
    (hb : ((E.moveTo z).closeAll e).blocks[i]? = some b) : Ends c z e E.opened.length b := by
  rw [getElem?_closeAll (E := E.moveTo z) h.nodup] at hb
  obtain ⟨old, hold, rfl⟩ := Option.map_eq_some_iff.mp hb
  have hfollows := h.blocks i old hold
  -- the bottom is below all that is in the block
  have hparts : ∀ bottom, c (old.endEvent.getD n) < bottom →
      (old.top :: (old.parts ++ [bottom])).Pairwise (· < ·) := by
    intro bottom hbottom
    rw [← List.cons_append]
    refine List.pairwise_append.mpr ⟨hfollows.parts, List.pairwise_singleton _ _, ?_⟩
    intro y hy w hw
    exact List.mem_singleton.mp hw ▸ (hfollows.reached y hy).trans_lt hbottom
  split
  · next hmem =>
      change i ∈ E.opened at hmem
      change Ends c z e _ { old with bottom := z + (E.opened.idxOf i + 1) * e, endEvent := none }
      obtain ⟨b', hb', hend, hdepth⟩ := h.opened (E.opened.idxOf i) i
        (List.getElem?_idxOf hmem)
      obtain rfl := Option.some.inj (hold.symm.trans hb')
      have hcount : ((E.opened.idxOf i : Rat) + 1) = E.opened.length - old.depth := by
        rw [← hdepth]
        push_cast
        ring
      have hpositive : (0 : Rat) < E.opened.idxOf i + 1 := by positivity
      refine ⟨hfollows.above, hfollows.below, hparts _ ?_, (fun j hj => by cases hj), fun _ => ?_⟩
      · rw [hend, Option.getD_none]
        exact hz.trans_lt (lt_add_of_pos_right _ (mul_pos hpositive he))
      · exact ⟨by dsimp only; omega, by dsimp only; rw [hcount]⟩
  · next hmem =>
      have hsome : old.endEvent ≠ none := fun hend => hmem (h.unclosed i old hold hend)
      obtain ⟨j, hj⟩ := Option.ne_none_iff_exists'.mp hsome
      refine ⟨hfollows.above, hfollows.below, hparts _ ?_, hfollows.ended, fun hend => ?_⟩
      · rw [hj, Option.getD_some]
        exact (hfollows.ended j hj).1
      · cases hj.symm.trans hend

end Extents

/-! ### Timelines -/

namespace State

section After

variable (s : Setting Rat) (roster : Roster Rat) (events : List Event)

/-- The state after the first events. -/
def after (n : Nat) : State Rat := ((start roster).run s roster 0 (events.take n)).1

variable {s roster events}

lemma run_concat (st : State Rat) (index : Nat) (event : Event) :
    (st.run s roster index (events ++ [event])).1 =
      ((st.run s roster index events).1.step s roster (index + events.length) event).state := by
  induction events generalizing st index with
  | nil => rfl
  | cons first rest ih =>
      simp only [List.cons_append, run, ih, List.length_cons]
      rw [show index + 1 + rest.length = index + (rest.length + 1) by omega]

lemma after_succ {n : Nat} {event : Event} (h : events[n]? = some event) :
    after s roster events (n + 1) = ((after s roster events n).step s roster n event).state := by
  have hn : n ≤ events.length := (List.getElem?_eq_some_iff.mp h).1.le
  rw [after, List.take_add_one, h, Option.toList_some, run_concat, List.length_take,
    Nat.min_eq_left hn, Nat.zero_add, after]

variable (hs : s.config.sequence.Sensible) (ht : s.MeasuresLengths)

include hs ht

/-- The cursor never moves up. -/
lemma monotone_cursor_after : Monotone fun n => (after s roster events n).cursor := by
  refine monotone_nat_of_le_succ fun n => ?_
  cases hevent : events[n]? with
  | none =>
      have hn : events.length ≤ n := List.getElem?_eq_none_iff.mp hevent
      rw [after, after, List.take_of_length_le hn, List.take_of_length_le (by omega)]
  | some event =>
      rw [after_succ hevent]
      exact (step_extents hs ht roster n _ event).cursor_le

/-- **Blocks lie where their events are.** -/
lemma follows_after {n : Nat} (hn : n ≤ events.length) :
    Extents.Follows (fun n => (after s roster events n).cursor) n
      (after s roster events n).extents := by
  induction n with
  | zero =>
      refine ⟨rfl, fun k b hb => ?_, fun t k hk => ?_, List.nodup_nil, fun k b hb => ?_⟩
      · simp [after, run, start, extents] at hb
      · simp [after, run, start, extents] at hk
      · simp [after, run, start, extents] at hb
  | succ n ih =>
      have hevent := List.getElem?_eq_getElem hn
      have hstep := step_extents hs ht roster n (after s roster events n) events[n]
      rw [← after_succ hevent] at hstep
      exact (ih (Nat.le_of_succ_le hn)).step hstep rfl

end After

end State

namespace Timeline

/-- The blocks of a timeline lie where the events are, with the cursor at `c j` before event `j`;
there are `n` events. -/
structure Follows (t : Timeline Rat) (n : Nat) (c : Nat → Rat) : Prop where
  mono : Monotone c
  above : ∀ b ∈ t.blocks, c b.startEvent < b.top
  below : ∀ b ∈ t.blocks, b.top ≤ c (b.startEvent + 1)
  parts : ∀ b ∈ t.blocks, (b.top :: (b.sections.map (·.y) ++ [b.bottom])).Pairwise (· < ·)
  ended : ∀ b ∈ t.blocks, ∀ j, b.endEvent = some j → c j < b.bottom ∧ b.bottom ≤ c (j + 1)
  unended : ∀ b ∈ t.blocks, b.endEvent = none → c n < b.bottom
  inward : ∀ b ∈ t.blocks, ∀ inner ∈ t.blocks, b.endEvent = none → inner.endEvent = none →
    b.depth < inner.depth → inner.bottom < b.bottom

variable {s : Setting Rat} (hs : s.config.sequence.Sensible) (ht : s.MeasuresLengths)

include hs ht in
/-- **The blocks of every timeline lie where the events are.** -/
lemma blocks_follow (roster : Roster Rat) (m : Model) :
    ∃ c, (ofModel s roster m).Follows m.events.length c := by
  have he : 0 < s.config.sequence.eventSpacing := hs.eventSpacing.2
  have hafter : State.after s roster m.events m.events.length =
      ((State.start roster).run s roster 0 m.events).1 := by
    rw [State.after, List.take_length]
  have hfollows : Extents.Follows (fun n => (State.after s roster m.events n).cursor)
      m.events.length (State.after s roster m.events m.events.length).extents :=
    State.follows_after hs ht (le_refl _)
  rw [hafter] at hfollows
  set st := ((State.start roster).run s roster 0 m.events).1
  obtain ⟨z, hz, hfinish⟩ := State.extents_finish (s := s) st
  have hcursor : (State.after s roster m.events m.events.length).cursor ≤ z := hafter ▸ hz
  have hends : ∀ b ∈ (ofModel s roster m).blocks, Extents.Follows.Ends
      (fun n => (State.after s roster m.events n).cursor) z s.config.sequence.eventSpacing
      st.extents.opened.length b.extent := by
    intro b hb
    obtain ⟨i, hi⟩ := Array.mem_iff_getElem?.mp hb
    refine hfollows.ends hcursor he (i := i) ?_
    rw [← hfinish]
    change (Array.map BlockSpan.extent (ofModel s roster m).blocks)[i]? = _
    rw [Array.getElem?_map, hi, Option.map_some]
  refine ⟨fun n => (State.after s roster m.events n).cursor, State.monotone_cursor_after hs ht,
    fun b hb => (hends b hb).above, fun b hb => (hends b hb).below, fun b hb => (hends b hb).parts,
    fun b hb => (hends b hb).ended, fun b hb hend => ?_, fun b hb inner hinner hend hend' hlt => ?_⟩
  · obtain ⟨hdepth, hbottom⟩ := (hends b hb).unended hend
    have hpositive : (0 : Rat) < st.extents.opened.length - b.extent.depth :=
      sub_pos.mpr (Nat.cast_lt.mpr hdepth)
    rw [show b.bottom = _ from hbottom]
    exact hcursor.trans_lt (lt_add_of_pos_right _ (mul_pos hpositive he))
  · obtain ⟨-, hbottom⟩ := (hends b hb).unended hend
    obtain ⟨-, hinner⟩ := (hends inner hinner).unended hend'
    have hdeeper : (b.extent.depth : Rat) < inner.extent.depth := Nat.cast_lt.mpr hlt
    rw [show b.bottom = _ from hbottom, show inner.bottom = _ from hinner]
    have hcloser : (st.extents.opened.length - inner.extent.depth : Rat) <
        st.extents.opened.length - b.extent.depth := by linarith
    linarith [mul_lt_mul_of_pos_right hcloser he]

variable {t : Timeline Rat} {roster : Roster Rat} {events : List Event} {c : Nat → Rat}
  {b later : BlockSpan Rat}

/-- **A block surrounds those that begin in it.** -/
lemma Follows.surrounds (h : t.Follows events.length c) (hnests : t.Nests roster events)
    (hb : b ∈ t.blocks) (hlater : later ∈ t.blocks)
    (hopen : b.startEvent ∈ openStarts Event.blockMark events later.startEvent) :
    b.top < later.top ∧ later.bottom < b.bottom := by
  have hdepth := hnests.depth later hlater
  rw [mem_openStarts_iff] at hopen
  obtain ⟨hlt, -⟩ := Mark.lt_of_mem_stack hopen
  obtain ⟨-, hstart⟩ := hnests.sets_startEvent hlater
  refine ⟨?_, ?_⟩
  · calc b.top
      _ ≤ c (b.startEvent + 1) := h.below b hb
      _ ≤ c later.startEvent := h.mono hlt
      _ < later.top := h.above later hlater
  · cases hend : b.endEvent with
    | some j =>
        -- what begins in a block that is closed is closed before it
        obtain ⟨l, hl, hpairs⟩ :=
          ((hnests.ends b hb j).mp hend).exists_of_mem_stack hstart hopen
        calc later.bottom
          _ ≤ c (l + 1) := (h.ended later hlater l ((hnests.ends later hlater l).mpr hpairs)).2
          _ ≤ c j := h.mono hl
          _ < b.bottom := (h.ended b hb j hend).1
    | none =>
        cases hend' : later.endEvent with
        | some l =>
            have hl : l < events.length := by
              obtain ⟨event, hevent, -⟩ :=
                Option.bind_eq_some_iff.mp ((hnests.ends later hlater l).mp hend').stop
              exact (List.getElem?_eq_some_iff.mp hevent).1
            calc later.bottom
              _ ≤ c (l + 1) := (h.ended later hlater l hend').2
              _ ≤ c events.length := h.mono hl
              _ < b.bottom := h.unended b hb hend
        | none =>
            refine h.inward b hb later hlater hend hend' ?_
            obtain ⟨k, hk⟩ := List.mem_iff_getElem?.mp hopen
            rw [hdepth, hnests.depth b hb, Mark.length_openStarts, Mark.length_openStarts,
              Mark.length_stack hk]
            omega

/-- **A block lies above those that begin after it.** -/
lemma Follows.above_of_not_open (h : t.Follows events.length c) (hnests : t.Nests roster events)
    (hb : b ∈ t.blocks) (hlater : later ∈ t.blocks) (hlt : b.startEvent < later.startEvent)
    (hopen : b.startEvent ∉ openStarts Event.blockMark events later.startEvent) :
    b.bottom < later.top := by
  obtain ⟨-, hstart⟩ := hnests.sets_startEvent hb
  have hclosed : ∃ j < later.startEvent, Pairs Event.blockMark events b.startEvent j := by
    simpa [Mark.mem_openStarts, hlt, hstart] using hopen
  obtain ⟨j, hj, hpairs⟩ := hclosed
  calc b.bottom
    _ ≤ c (j + 1) := (h.ended b hb j ((hnests.ends b hb j).mpr hpairs)).2
    _ ≤ c later.startEvent := h.mono hj
    _ < later.top := h.above later hlater

end Timeline

end Drafting.Sequence
