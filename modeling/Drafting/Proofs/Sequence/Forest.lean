import Mathlib
import Drafting.Proofs.Sequence.Faults
import Drafting.Proofs.Sequence.Pairing

/-!
The forest of blocks.

A block is opened inside those that are open and closed before them.  While it is open it
takes up the columns of the events in it, and when it is closed the block around it takes up
what it covers.  Texts and heights have no part in this, and what is left without them is a
forest that three changes build.

* `Hull.Around`: the smallest range around columns.
* `Forest`, `Forest.touch`, `Forest.start`, `Forest.close`: the blocks and the changes.
* `State.forest_step`, `State.forest_finish`: an event makes one of these changes, and at the end of
  the walk all that is open is closed.
-/

namespace Drafting.Sequence

open Mark (stack sets Pairs)

/-! ### Ranges of columns -/

namespace Hull

/-- The smallest range around columns; there is none around no columns. -/
def Around (hull : Option Hull) (columns : Set Nat) : Prop :=
  match hull with
  | none => columns = ∅
  | some (first, last) => IsLeast columns first ∧ IsGreatest columns last

variable {h k : Option Hull} {S : Set Nat}

lemma Around.insert (hS : Around h S) (column : Nat) :
    Around (Hull.insert h column) (S ∪ {column}) := by
  cases h with
  | none =>
      obtain rfl : S = ∅ := hS
      rw [Set.empty_union]
      exact ⟨isLeast_singleton, isGreatest_singleton⟩
  | some hull => exact ⟨hS.1.union isLeast_singleton, hS.2.union isGreatest_singleton⟩

lemma Around.foldl_insert (hS : Around h S) (columns : List Nat) :
    Around (columns.foldl Hull.insert h) (S ∪ {c | c ∈ columns}) := by
  induction columns generalizing h S with
  | nil => simpa using hS
  | cons column columns ih =>
      have hset : S ∪ {c | c ∈ column :: columns} = S ∪ {column} ∪ {c | c ∈ columns} := by
        ext c
        simp only [Set.mem_union, Set.mem_ofPred_eq, List.mem_cons, Set.mem_singleton_iff, or_assoc]
      rw [hset]
      exact ih (hS.insert column)

lemma union_none (h : Option Hull) : Hull.union h none = h := by
  cases h <;> rfl

/-- A column may be added before or after ranges are joined. -/
lemma union_insert (h k : Option Hull) (column : Nat) :
    Hull.union h (Hull.insert k column) = Hull.insert (Hull.union h k) column := by
  cases h with
  | none => cases k <;> rfl
  | some h =>
      cases k with
      | none => rfl
      | some k => simp only [Hull.union, Hull.insert, min_assoc, max_assoc]

lemma union_foldl_insert (h k : Option Hull) (columns : List Nat) :
    Hull.union h (columns.foldl Hull.insert k) = columns.foldl Hull.insert (Hull.union h k) := by
  induction columns generalizing k with
  | nil => rfl
  | cons column columns ih => rw [List.foldl_cons, ih, union_insert, List.foldl_cons]

end Hull

/-! ### The forest -/

/-- A block without its texts and heights. -/
structure Outline where
  /-- How many blocks are around it. -/
  depth : Nat
  /-- The block around it. -/
  parent : Option Nat
  /-- The columns that its events touch. -/
  columns : Option Hull
  /-- How deeply blocks are nested in it. -/
  subtreeDepth : Nat
  /-- The event that opens it. -/
  startEvent : Nat
  /-- The event that closes it. -/
  endEvent : Option Nat

/-- The outline of a block. -/
def BlockSpan.outline {α : Type} (b : BlockSpan α) : Outline :=
  ⟨b.depth, b.parent, b.columns, b.subtreeDepth, b.startEvent, b.endEvent⟩

/-- The blocks of a diagram. -/
structure Forest where
  /-- The open blocks, the innermost first. -/
  opened : List Nat
  /-- All blocks so far. -/
  blocks : Array Outline

/-- A block that takes up what a block in it covers. -/
def Outline.absorb (outer inner : Outline) : Outline :=
  { outer with
    subtreeDepth := max outer.subtreeDepth (inner.subtreeDepth + 1)
    columns := Hull.union outer.columns inner.columns }

namespace Forest

/-- The innermost open block is extended to columns. -/
def touch (F : Forest) (columns : List Nat) : Forest :=
  match F.opened with
  | [] => F
  | k :: _ =>
    { F with
      blocks := F.blocks.modify k fun b =>
        { b with columns := columns.foldl Hull.insert b.columns } }

/-- A block is opened. -/
def start (F : Forest) (index : Nat) : Forest :=
  { opened := F.blocks.size :: F.opened
    blocks := F.blocks.push ⟨F.opened.length, F.opened.head?, none, 0, index, none⟩ }

/-- The innermost open block is closed. -/
def close (F : Forest) (endEvent : Option Nat) : Forest :=
  match F.opened with
  | [] => F
  | k :: rest =>
    let blocks := F.blocks.modify k fun b => { b with endEvent := endEvent }
    { opened := rest
      blocks :=
        match F.blocks[k]? with
        | none => blocks
        | some b =>
          match b.parent with
          | none => blocks
          | some parent => blocks.modify parent fun p => p.absorb b }

@[simp]
lemma touch_nil (F : Forest) : F.touch [] = F := by
  rw [touch]
  split
  · rfl
  · have hsame : ∀ (blocks : Array Outline) (k : Nat), blocks.modify k (fun b => b) = blocks := by
      intro blocks k
      simp [Array.ext_iff, Array.getElem_modify]
    rw [show (fun b : Outline => { b with columns := [].foldl Hull.insert b.columns }) =
      fun b => b from rfl, hsame]

lemma touch_touch (F : Forest) (column : Nat) (columns : List Nat) :
    (F.touch [column]).touch columns = F.touch (column :: columns) := by
  obtain ⟨opened, blocks⟩ := F
  cases opened with
  | nil => rfl
  | cons k rest =>
      simp only [touch, mk.injEq, true_and]
      refine Array.ext (by simp) fun i hi _ => ?_
      simp only [Array.getElem_modify]
      split <;> rfl

end Forest

/-! ### The walk builds the forest -/

/-- The columns that an event makes the innermost block take up. -/
def Event.touched {α : Type} (roster : Roster α) : Event → List Nat
  | .message m => (roster.columnOf? m.source).toList ++ (m.target.bind roster.columnOf?).toList
  | .activate id => (roster.columnOf? id).toList
  | .deactivate id => (roster.columnOf? id).toList
  | .note n => State.NoteAnchor.columns roster.length (State.noteAnchor roster n.placement)
  | _ => []

/-- What an event does to the forest. -/
def Forest.step {α : Type} (roster : Roster α) (F : Forest) (index : Nat) : Event → Forest
  | .blockStart _ => F.start index
  | .blockEnd => F.close (some index)
  | event => F.touch (event.touched roster)

namespace State

variable {α : Type}

/-- The forest of the blocks so far. -/
def forest (st : State α) : Forest := ⟨st.openBlocks, st.blocks.map BlockSpan.outline⟩

lemma forest_touch (st : State α) (column : Nat) :
    (st.touch column).forest = st.forest.touch [column] := by
  obtain ⟨_, _, _, _, openBlocks, _, blocks⟩ := st
  cases openBlocks with
  | nil => rfl
  | cons k rest =>
      have hmodify : (blocks.modify k fun b =>
          { b with columns := Hull.insert b.columns column }).map BlockSpan.outline =
          (blocks.map BlockSpan.outline).modify k fun b =>
            { b with columns := Hull.insert b.columns column } :=
        map_modify (fun _ => by rfl) blocks k
      exact congrArg (Forest.mk _) hmodify

lemma forest_touchAll (st : State α) (columns : List Nat) :
    (st.touchAll columns).forest = st.forest.touch columns := by
  rw [touchAll]
  induction columns generalizing st with
  | nil => rw [Forest.touch_nil, List.foldl_nil]
  | cons column columns ih => rw [List.foldl_cons, ih, forest_touch, Forest.touch_touch]

lemma forest_closeBlock (st : State α) (bottom : α) (endEvent : Option Nat) :
    (st.closeBlock bottom endEvent).2.forest = st.forest.close endEvent := by
  have hmodify : ∀ k, (st.blocks.modify k fun b =>
      { b with bottom := bottom, endEvent := endEvent }).map BlockSpan.outline =
      (st.blocks.map BlockSpan.outline).modify k fun b => { b with endEvent := endEvent } :=
    map_modify (fun _ => by rfl) st.blocks
  rw [closeBlock, Forest.close, show st.forest.opened = st.openBlocks from rfl]
  cases st.openBlocks with
  | nil => rfl
  | cons k rest =>
      simp only [forest, Array.getElem?_map]
      refine congrArg (Forest.mk rest) ?_
      cases st.blocks[k]? with
      | none => exact hmodify k
      | some b =>
          rw [Option.map_some]
          cases hparent : b.parent with
          | none => simpa only [BlockSpan.outline, hparent] using hmodify k
          | some parent =>
              have habsorb : ∀ blocks : Array (BlockSpan α), (blocks.modify parent fun p =>
                  { p with
                    subtreeDepth := max p.subtreeDepth (b.subtreeDepth + 1)
                    columns := Hull.union p.columns b.columns }).map BlockSpan.outline =
                  (blocks.map BlockSpan.outline).modify parent fun p => p.absorb b.outline :=
                fun blocks => map_modify (fun _ => by rfl) blocks parent
              simp only [hparent, show b.outline.parent = some parent from hparent]
              rw [habsorb, hmodify]

variable [Scalar α] {s : Setting α} {roster : Roster α}

lemma forest_closeActivation (st : State α) (activation : Nat) (floor : α)
    (endEvent : Option Nat) :
    (st.closeActivation s activation floor endEvent).2.forest = st.forest := by
  rw [closeActivation]
  split <;> rfl

lemma forest_deactivate (st : State α) (index : Nat) (id : Ident) :
    (st.deactivate s roster index id).1.forest =
      st.forest.touch (roster.columnOf? id).toList := by
  rw [deactivate]
  cases roster.columnOf? id with
  | none => exact (Forest.touch_nil _).symm
  | some column =>
      rw [Option.toList_some, ← forest_touch]
      dsimp only
      split
      · rfl
      · rw [forest_closeActivation]
        split <;> rfl

/-- **What an event does to the forest.** -/
lemma forest_step (st : State α) (index : Nat) (event : Event) :
    (st.step s roster index event).state.forest = st.forest.step roster index event := by
  cases event with
  | message m => exact forest_touchAll st _
  | activate id =>
      simp only [step, activate, Forest.step, Event.touched]
      cases roster.columnOf? id with
      | none => exact (Forest.touch_nil _).symm
      | some column => exact forest_touch st column
  | deactivate id => exact forest_deactivate st index id
  | note n => exact forest_touchAll st _
  | divider text => exact (Forest.touch_nil _).symm
  | delay text => exact (Forest.touch_nil _).symm
  | blockStart b =>
      simp only [step, blockStart, Forest.step, Forest.start, forest, placeRow, Array.map_push,
        Array.size_map]
      rfl
  | blockSection text =>
      refine Eq.trans ?_ (Forest.touch_nil _).symm
      simp only [step, blockSection]
      split
      · rfl
      · next k rest _ =>
          have hsame : ∀ (blocks : Array Outline), blocks.modify k (fun b => b) = blocks := by
            intro blocks
            simp [Array.ext_iff, Array.getElem_modify]
          have hmodify : ∀ (blocks : Array (BlockSpan α)) (part : Section α),
              (blocks.modify k fun b => { b with sections := b.sections ++ [part] }).map
                BlockSpan.outline = blocks.map BlockSpan.outline :=
            fun blocks _ => (map_modify (fun _ => by rfl) blocks k).trans (hsame _)
          exact congrArg (Forest.mk _) (hmodify _ _)
  | blockEnd =>
      simp only [step, blockEnd, Forest.step]
      split
      · next hopen => rw [Forest.close, show st.forest.opened = [] from hopen]
      · exact forest_closeBlock _ _ _

/-- **At the end of the walk all that is open is closed.** -/
lemma forest_finish (st : State α) :
    (st.finish s).forest = st.forest.opened.foldl (fun F _ => F.close none) st.forest := by
  have hcolumn : ∀ (stack : List Nat) (st : State α),
      (stack.foldl (fun st activation => (st.closeActivation s activation st.cursor none).2)
        st).forest = st.forest := by
    intro stack
    induction stack with
    | nil => exact fun st => rfl
    | cons activation stack ih =>
        intro st
        rw [List.foldl_cons, ih, forest_closeActivation]
  have hcolumns : ∀ st : State α, (st.closeActivations s).forest = st.forest := by
    intro st
    rw [closeActivations, ← Array.foldl_toList]
    generalize st.running.toList = columns
    induction columns generalizing st with
    | nil => rfl
    | cons column columns ih => rw [List.foldl_cons, ih, hcolumn]
  have hblocks : ∀ (opened : List Nat) (st : State α),
      (opened.foldl (fun st _ =>
        ({ st with cursor := st.cursor + s.config.sequence.eventSpacing }.closeBlock
          (st.cursor + s.config.sequence.eventSpacing) none).2) st).forest =
      opened.foldl (fun F _ => F.close none) st.forest := by
    intro opened
    induction opened with
    | nil => exact fun st => rfl
    | cons k opened ih =>
        intro st
        rw [List.foldl_cons, ih, forest_closeBlock, List.foldl_cons]
        rfl
  have hclosed : ∀ st : State α, (st.closeBlocks s).forest =
      st.forest.opened.foldl (fun F _ => F.close none) st.forest :=
    fun st => hblocks st.openBlocks st
  rw [finish, hclosed, hcolumns]
  rfl

end State

end Drafting.Sequence
