import Mathlib
import Drafting.Proofs.Sequence.Activations
import Drafting.Proofs.Sequence.Forest

/-!
What the forest of blocks holds.

A block that is open covers what its events touch, but it has taken up only what is not in a block
that is still open inside it.  What it would cover if all inner blocks were closed at once is
therefore what is kept from event to event.

* `blockNumber`: the number of the block that an event opens.
* `Covers`: a block covers the columns that the events in it touch, and as deep as
  blocks are nested in it.
* `Forest.Tracks`: the forest after a number of events.
* `Forest.Tracks.step`, `Forest.Tracks.closeAll`: each event keeps this, and so does the end of the
  walk.
* `Forest.tracks_finish`: the forest when all blocks are closed.
-/

namespace Drafting.Sequence

open Mark (stack sets Pairs)

variable {α : Type}

/-! ### What a block covers -/

section Covers

variable (roster : Roster α) (events : List Event)

/-- The number of the block that an event opens. -/
def blockNumber (n : Nat) : Nat :=
  Nat.count (fun i => sets Event.blockMark events i = some .start) n

/-- The columns touched in a block by the first events. -/
def touchedIn (i n : Nat) : Set Nat :=
  {c | ∃ e < n, i ∈ stack Event.blockMark events e ∧
    ∃ event, events[e]? = some event ∧ c ∈ event.touched roster}

/-- How deep the blocks lie in a block that the first events open. -/
def depthsIn (i n : Nat) : Set Nat :=
  {d | d = 0 ∨ ∃ e < n, i ∈ stack Event.blockMark events e ∧
    sets Event.blockMark events e = some .start ∧
    (stack Event.blockMark events e).length = (stack Event.blockMark events i).length + d}

/-- The columns of a block, and how deeply blocks are nested in it. -/
structure Cover where
  columns : Option Hull
  depth : Nat

/-- A block covers all that happens in it. -/
structure Covers (i n : Nat) (c : Cover) : Prop where
  columns : Hull.Around c.columns (touchedIn roster events i n)
  depth : IsGreatest (depthsIn events i n) c.depth

end Covers

/-- What a block takes up so far. -/
def Outline.cover (b : Outline) : Cover := ⟨b.columns, b.subtreeDepth⟩

namespace Cover

/-- Columns are touched in a block. -/
def touch (columns : List Nat) (c : Cover) : Cover := ⟨columns.foldl Hull.insert c.columns, c.depth⟩

/-- A block is opened in a block, at some depth. -/
def deepen (d : Nat) (c : Cover) : Cover := ⟨c.columns, max c.depth d⟩

/-- What a block covers together with the block in it. -/
def join (c : Cover) : Option Cover → Cover
  | none => c
  | some inner => ⟨Hull.union c.columns inner.columns, max c.depth (inner.depth + 1)⟩

lemma join_touch (c inner : Cover) (columns : List Nat) :
    c.join (some (inner.touch columns)) = (c.join (some inner)).touch columns := by
  simp only [join, touch, Hull.union_foldl_insert]

lemma join_deepen (c inner : Cover) (d : Nat) :
    c.join (some (inner.deepen d)) = (c.join (some inner)).deepen (d + 1) := by
  simp only [join, deepen, mk.injEq, true_and]
  omega

lemma join_empty (c : Cover) : c.join (some ⟨none, 0⟩) = c.deepen 1 := by
  simp only [join, deepen, Hull.union_none]

end Cover

section Steps

variable {roster : Roster α} {events : List Event} {i n : Nat} {c : Cover}

lemma touchedIn_succ (roster : Roster α) (events : List Event) (i n : Nat) :
    touchedIn roster events i (n + 1) = touchedIn roster events i n ∪
      {c | i ∈ stack Event.blockMark events n ∧
        ∃ event, events[n]? = some event ∧ c ∈ event.touched roster} := by
  ext column
  simp only [touchedIn, Nat.exists_lt_succ_right, Set.mem_ofPred_eq, Set.mem_union]

lemma depthsIn_succ (events : List Event) (i n : Nat) :
    depthsIn events i (n + 1) = depthsIn events i n ∪
      {d | i ∈ stack Event.blockMark events n ∧ sets Event.blockMark events n = some .start ∧
        (stack Event.blockMark events n).length =
          (stack Event.blockMark events i).length + d} := by
  ext d
  simp only [depthsIn, Nat.exists_lt_succ_right, Set.mem_ofPred_eq, Set.mem_union, or_assoc]

/-- What happens outside a block does not count. -/
lemma Covers.outside (h : Covers roster events i n c)
    (hi : i ∉ stack Event.blockMark events n) : Covers roster events i (n + 1) c := by
  constructor
  · rw [touchedIn_succ]
    simpa [hi] using h.columns
  · rw [depthsIn_succ]
    simpa [hi] using h.depth

/-- An event in a block touches its columns. -/
lemma Covers.touch {event : Event} (h : Covers roster events i n c)
    (hi : i ∈ stack Event.blockMark events n) (hevent : events[n]? = some event)
    (hstart : sets Event.blockMark events n ≠ some .start) :
    Covers roster events i (n + 1) (c.touch (event.touched roster)) := by
  constructor
  · rw [touchedIn_succ]
    simpa [hi, hevent, Cover.touch] using h.columns.foldl_insert (event.touched roster)
  · rw [depthsIn_succ]
    simpa [hstart, Cover.touch] using h.depth

/-- A block that is opened in a block may lie deeper than others. -/
lemma Covers.deepen {event : Event} {k : Nat} (h : Covers roster events i n c)
    (hk : (stack Event.blockMark events n)[k]? = some i) (hevent : events[n]? = some event)
    (hstart : sets Event.blockMark events n = some .start) (htouched : event.touched roster = []) :
    Covers roster events i (n + 1) (c.deepen (k + 1)) := by
  have hdepth : {d | i ∈ stack Event.blockMark events n ∧
      sets Event.blockMark events n = some .start ∧ (stack Event.blockMark events n).length =
        (stack Event.blockMark events i).length + d} = {k + 1} := by
    ext d
    simp only [List.mem_of_getElem? hk, hstart, Mark.length_stack hk, true_and,
      Set.mem_ofPred_eq, Set.mem_singleton_iff]
    omega
  constructor
  · rw [touchedIn_succ]
    simpa [hevent, htouched, Cover.deepen] using h.columns
  · rw [depthsIn_succ, hdepth]
    exact h.depth.union isGreatest_singleton

/-- A block that has just been opened covers nothing. -/
lemma covers_new (roster : Roster α) (events : List Event) (n : Nat) :
    Covers roster events n (n + 1) ⟨none, 0⟩ := by
  have hnone : ∀ e < n + 1, n ∉ stack Event.blockMark events e := by
    intro e he hmem
    have := (Mark.lt_of_mem_stack hmem).1
    omega
  constructor
  · refine Set.eq_empty_iff_forall_notMem.mpr ?_
    rintro column ⟨e, he, hmem, -⟩
    exact hnone e he hmem
  · refine ⟨Or.inl rfl, ?_⟩
    rintro d (rfl | ⟨e, he, hmem, -⟩)
    · exact le_rfl
    · exact absurd hmem (hnone e he)

end Steps

/-! ### Open blocks -/

/-- Each open block covers what happens in it, once the open blocks in it are joined to it.  They
are listed from the inside out. -/
def Covered (roster : Roster α) (events : List Event) (n : Nat) (blocks : Array Outline) :
    Option Cover → List Nat → Prop
  | _, [] => True
  | inner, i :: rest => ∃ b, blocks[blockNumber events i]? = some b ∧
      Covers roster events i n (b.cover.join inner) ∧
      Covered roster events n blocks (some (b.cover.join inner)) rest

/-- A change that goes outward from block to block. -/
lemma Covered.map {roster : Roster α} {events : List Event} {n n' : Nat}
    {blocks blocks' : Array Outline} {T : Nat → Cover → Cover}
    (hjoin : ∀ (c inner : Cover) k, c.join (some (T k inner)) = T (k + 1) (c.join (some inner)))
    {opened : List Nat} {inner inner' : Option Cover} {k : Nat}
    (h : Covered roster events n blocks inner opened)
    (hfirst : ∀ c : Cover, c.join inner' = T k (c.join inner))
    (hblocks : ∀ i ∈ opened, blocks'[blockNumber events i]? = blocks[blockNumber events i]?)
    (hcovers : ∀ j i c, opened[j]? = some i → Covers roster events i n c →
      Covers roster events i n' (T (k + j) c)) :
    Covered roster events n' blocks' inner' opened := by
  induction opened generalizing inner inner' k with
  | nil => trivial
  | cons i rest ih =>
      obtain ⟨b, hb, hi, hrest⟩ := h
      refine ⟨b, (hblocks i List.mem_cons_self).trans hb, ?_, ?_⟩
      · rw [hfirst]
        exact hcovers 0 i _ rfl hi
      · refine ih hrest (k := k + 1) (fun c => ?_)
          (fun j hj => hblocks j (List.mem_cons_of_mem i hj)) fun j i' c hj hc => ?_
        · rw [hfirst, hjoin]
        · have hnext := hcovers (j + 1) i' c hj hc
          rwa [show k + 1 + j = k + (j + 1) by omega]

/-! ### All blocks -/

/-- A block that an event opens, when the ends among the first events are known. -/
structure Outline.BegunBy (events : List Event) (e i : Nat) (b : Outline) : Prop where
  startEvent : b.startEvent = i
  depth : b.depth = (stack Event.blockMark events i).length
  parent : b.parent = (stack Event.blockMark events i).head?.map (blockNumber events)
  endEvent : ∀ j, b.endEvent = some j ↔ j < e ∧ Pairs Event.blockMark events i j

/-- An event that does not end a block leaves its end as it is. -/
lemma Outline.BegunBy.succ {events : List Event} {e i : Nat} {b : Outline}
    (h : b.BegunBy events e i) (hnot : ¬ Pairs Event.blockMark events i e) :
    b.BegunBy events (e + 1) i :=
  ⟨h.startEvent, h.depth, h.parent, Mark.eq_some_iff_succ h.endEvent hnot⟩

/-- The forest after the first `n` events.  The blocks that were open before event `m` are still
open, and the ends among the first `e` events are known. -/
structure Forest.Tracks (roster : Roster α) (events : List Event) (n m e : Nat) (F : Forest) :
    Prop where
  size : F.blocks.size = blockNumber events n
  opened : F.opened = (stack Event.blockMark events m).map (blockNumber events)
  still : stack Event.blockMark events m ⊆ stack Event.blockMark events n
  blocks : ∀ i < n, sets Event.blockMark events i = some .start →
    ∃ b, F.blocks[blockNumber events i]? = some b ∧ b.BegunBy events e i ∧
      (i ∉ stack Event.blockMark events m → Covers roster events i n b.cover)
  covered : Covered roster events n F.blocks none (stack Event.blockMark events m)

section Numbers

variable {events : List Event} {i j n : Nat}

lemma blockNumber_succ (h : sets Event.blockMark events n = some .start) :
    blockNumber events (n + 1) = blockNumber events n + 1 := by
  rw [blockNumber, Nat.count_succ, if_pos h, blockNumber]

lemma blockNumber_succ_of_not (h : sets Event.blockMark events n ≠ some .start) :
    blockNumber events (n + 1) = blockNumber events n := by
  rw [blockNumber, Nat.count_succ, if_neg h, blockNumber, Nat.add_zero]

lemma blockNumber_inj (hi : sets Event.blockMark events i = some .start)
    (hj : sets Event.blockMark events j = some .start)
    (h : blockNumber events i = blockNumber events j) : i = j :=
  Nat.count_injective hi hj h

end Numbers

namespace Forest

variable {roster : Roster α} {events : List Event} {n m e : Nat} {F : Forest}

/-- Touching columns changes the innermost block. -/
lemma getElem?_touch (F : Forest) (columns : List Nat) (j : Nat) :
    (F.touch columns).blocks[j]? = F.blocks[j]?.map fun b =>
      if F.opened.head? = some j then
        { b with columns := columns.foldl Hull.insert b.columns }
      else b := by
  rw [touch]
  split
  · next hopened => simp [hopened]
  · next k rest hopened =>
      simp only [Array.getElem?_modify, hopened, List.head?_cons, Option.some.injEq]
      split
      · rfl
      · rw [Option.map_id']

/-- Closing a block changes it and the block around it. -/
lemma getElem?_close {k : Nat} {rest : List Nat} {b : Outline} (hopened : F.opened = k :: rest)
    (hb : F.blocks[k]? = some b) (endEvent : Option Nat) (j : Nat) :
    (F.close endEvent).blocks[j]? = (F.blocks[j]?.map fun x =>
      if k = j then { x with endEvent := endEvent } else x).map fun x =>
        if b.parent = some j then x.absorb b else x := by
  have hmodify : (F.blocks.modify k fun x => { x with endEvent := endEvent })[j]? =
      F.blocks[j]?.map fun x => if k = j then { x with endEvent := endEvent } else x := by
    rw [Array.getElem?_modify]
    split
    · rfl
    · rw [Option.map_id']
  simp only [close, hopened, hb]
  cases b.parent with
  | none =>
      simp only [reduceCtorEq, if_false, Option.map_id']
      exact hmodify
  | some parent =>
      simp only [Array.getElem?_modify, hmodify, Option.some.injEq]
      split
      · rfl
      · rw [Option.map_id']

namespace Tracks

section Rules

variable (h : F.Tracks roster events n m e)

include h

/-- An event that opens no block and touches no column. -/
lemma skip {event : Event} (hevent : events[n]? = some event)
    (hstart : sets Event.blockMark events n ≠ some .start)
    (htouched : event.touched roster = []) {m' : Nat}
    (hstack : stack Event.blockMark events m' = stack Event.blockMark events m)
    (hstill : stack Event.blockMark events m' ⊆ stack Event.blockMark events (n + 1)) :
    F.Tracks roster events (n + 1) m' e := by
  have hcovers : ∀ i c, Covers roster events i n c → Covers roster events i (n + 1) c := by
    intro i c hc
    by_cases hi : i ∈ stack Event.blockMark events n
    · have htouch := hc.touch hi hevent hstart
      rwa [htouched] at htouch
    · exact hc.outside hi
  refine ⟨?_, ?_, hstill, ?_, ?_⟩
  · rw [blockNumber_succ_of_not hstart, h.size]
  · rw [hstack, h.opened]
  · intro i hi hmark
    rcases Nat.lt_succ_iff_lt_or_eq.mp hi with hi | rfl
    · obtain ⟨b, hb, hbegun, hclosed⟩ := h.blocks i hi hmark
      exact ⟨b, hb, hbegun, fun hnot => hcovers i _ (hclosed (hstack ▸ hnot))⟩
    · exact absurd hmark hstart
  · rw [hstack]
    exact h.covered.map (T := fun _ c => c) (fun _ _ _ => rfl) (k := 0) (fun _ => rfl)
      (fun _ _ => rfl) fun _ i c _ hc => hcovers i c hc

/-- Further ends are known. -/
lemma ends {e' : Nat}
    (hends : ∀ b i, Outline.BegunBy events e i b → b.BegunBy events e' i) :
    F.Tracks roster events n m e' := by
  refine ⟨h.size, h.opened, h.still, fun i hi hmark => ?_, h.covered⟩
  obtain ⟨b, hb, hbegun, hclosed⟩ := h.blocks i hi hmark
  exact ⟨b, hb, hends b i hbegun, hclosed⟩

/-- The block on top of the stack, with what it covers. -/
lemma exists_innermost {i : Nat} {rest : List Nat}
    (hstack : stack Event.blockMark events m = i :: rest) :
    ∃ b, F.blocks[blockNumber events i]? = some b ∧ b.BegunBy events e i ∧
      Covers roster events i n b.cover ∧
      Covered roster events n F.blocks (some b.cover) rest := by
  have hcovered := h.covered
  rw [hstack] at hcovered
  obtain ⟨b, hb, hcovers, hrest⟩ := hcovered
  obtain ⟨hi, hmark⟩ := Mark.lt_of_mem_stack (h.still (hstack ▸ List.mem_cons_self))
  obtain ⟨b', hb', hbegun, -⟩ := h.blocks i hi hmark
  cases hb.symm.trans hb'
  exact ⟨b, hb, hbegun, hcovers, hrest⟩

/-- Closing the innermost block, event by event: the block around it is the
next one on the stack. -/
lemma getElem?_close_of_stack {i i' : Nat} {rest : List Nat} {b : Outline}
    (hstack : stack Event.blockMark events m = i :: rest)
    (hb : F.blocks[blockNumber events i]? = some b) (hbegun : b.BegunBy events e i)
    (hi' : sets Event.blockMark events i' = some .start) (endEvent : Option Nat) :
    (F.close endEvent).blocks[blockNumber events i']? =
      F.blocks[blockNumber events i']?.map fun x =>
        if i = i' then { x with endEvent := endEvent }
        else if rest.head? = some i' then x.absorb b else x := by
  have hmarks : ∀ j ∈ i :: rest, sets Event.blockMark events j = some .start :=
    fun j hj => (Mark.lt_of_mem_stack (hstack ▸ hj)).2
  have hopened : F.opened = blockNumber events i :: rest.map (blockNumber events) := by
    rw [h.opened, hstack, List.map_cons]
  have hparent : b.parent = some (blockNumber events i') ↔ rest.head? = some i' := by
    rw [hbegun.parent, ← Mark.stack_cons hstack, Option.map_eq_some_iff]
    constructor
    · rintro ⟨outer, houter, hnumber⟩
      have hmem : outer ∈ i :: rest := List.mem_cons_of_mem i (List.mem_of_head? houter)
      rw [houter, blockNumber_inj (hmarks outer hmem) hi' hnumber]
    · exact fun houter => ⟨i', houter, rfl⟩
  have hnumber : blockNumber events i = blockNumber events i' ↔ i = i' :=
    ⟨blockNumber_inj (hmarks i List.mem_cons_self) hi', fun heq => heq ▸ rfl⟩
  have hne : i = i' → rest.head? ≠ some i' := by
    rintro rfl houter
    exact lt_irrefl i (Mark.lt_of_stack_cons hstack (List.mem_of_head? houter))
  rw [getElem?_close hopened hb, Option.map_map]
  congr 1
  funext x
  simp only [Function.comp_apply, hnumber, hparent]
  by_cases heq : i = i'
  · rw [if_pos heq, if_pos heq, if_neg (hne heq)]
  · rw [if_neg heq, if_neg heq]

/-- The innermost block is closed. -/
lemma close {i : Nat} {rest : List Nat} {e' : Nat} {endEvent : Option Nat}
    (hstack : stack Event.blockMark events m = i :: rest)
    (hend : ∀ j, endEvent = some j ↔ j < e' ∧ Pairs Event.blockMark events i j)
    (hends : ∀ b i', i' ≠ i → Outline.BegunBy events e i' b → b.BegunBy events e' i') :
    (F.close endEvent).Tracks roster events n i e' := by
  have hrest := Mark.stack_cons hstack
  obtain ⟨b, hb, hbegun, hcovers, hcovered⟩ := h.exists_innermost hstack
  have hentry := fun i' (hi' : sets Event.blockMark events i' = some .start) =>
    h.getElem?_close_of_stack hstack hb hbegun hi' endEvent
  have hmarks : ∀ i' ∈ rest, sets Event.blockMark events i' = some .start :=
    fun i' hi' => (Mark.lt_of_mem_stack (hrest ▸ hi')).2
  refine ⟨?_, ?_, ?_, fun i' hi' hmark => ?_, ?_⟩
  · have hopened : F.opened = blockNumber events i :: rest.map (blockNumber events) := by
      rw [h.opened, hstack, List.map_cons]
    rw [← h.size]
    exact size_eq_of_getElem? fun j =>
      (getElem?_close hopened hb endEvent j).trans (Option.map_map _ _ _)
  · rw [Forest.close, h.opened, hstack, List.map_cons, hrest]
  · rw [← hrest]
    exact fun i' hi' => h.still (hstack ▸ List.mem_cons_of_mem i hi')
  · obtain ⟨x, hx, hbegun', hclosed⟩ := h.blocks i' hi' hmark
    rw [hentry i' hmark, hx, Option.map_some]
    refine ⟨_, rfl, ?_⟩
    by_cases heq : i = i'
    · subst heq
      cases hb.symm.trans hx
      rw [if_pos rfl]
      exact ⟨⟨hbegun.startEvent, hbegun.depth, hbegun.parent, hend⟩, fun _ => hcovers⟩
    · have hbegun'' := hends x i' (Ne.symm heq) hbegun'
      rw [if_neg heq]
      constructor
      · split
        · exact ⟨hbegun''.startEvent, hbegun''.depth, hbegun''.parent, hbegun''.endEvent⟩
        · exact hbegun''
      · intro hnot
        rw [← hrest] at hnot
        rw [if_neg fun houter => hnot (List.mem_of_head? houter)]
        refine hclosed ?_
        rw [hstack, List.mem_cons, not_or]
        exact ⟨Ne.symm heq, hnot⟩
  · rw [← hrest]
    cases rest with
    | nil => trivial
    | cons outer rest =>
        obtain ⟨x, hx, hcovers', hcovered'⟩ := hcovered
        have hne : i ≠ outer := (Mark.lt_of_stack_cons hstack List.mem_cons_self).ne'
        refine ⟨x.absorb b, ?_, hcovers', hcovered'.map (T := fun _ c => c) (k := 0)
          (fun _ _ _ => rfl) (fun _ => rfl) (fun i' hi' => ?_) fun _ _ _ _ hc => hc⟩
        · rw [hentry outer (hmarks outer List.mem_cons_self), hx, Option.map_some, if_neg hne,
            List.head?_cons, if_pos rfl]
        · have hmem := List.mem_cons_of_mem outer hi'
          have hne' : i ≠ i' := (Mark.lt_of_stack_cons hstack hmem).ne'
          have houter : outer ≠ i' := (Mark.lt_of_stack_cons hrest.symm hi').ne'
          rw [hentry i' (hmarks i' hmem)]
          simp only [if_neg hne', List.head?_cons, Option.some.injEq, if_neg houter, Option.map_id']

end Rules

/-- Columns are touched in the innermost block. -/
lemma touch {event : Event} (h : F.Tracks roster events n n n) (hevent : events[n]? = some event)
    (hnone : sets Event.blockMark events n = none) :
    (F.touch (event.touched roster)).Tracks roster events (n + 1) (n + 1) (n + 1) := by
  have hstack := Mark.stack_of_none hnone
  have hnot : ∀ i, ¬ Pairs Event.blockMark events i n := by
    intro i hpairs
    cases hnone.symm.trans hpairs.stop
  have hentry : ∀ i, sets Event.blockMark events i = some .start →
      (F.touch (event.touched roster)).blocks[blockNumber events i]? =
        F.blocks[blockNumber events i]?.map fun b =>
          if (stack Event.blockMark events n).head? = some i then
            { b with columns := (event.touched roster).foldl Hull.insert b.columns }
          else b := by
    intro i hi
    have hhead : F.opened.head? = some (blockNumber events i) ↔
        (stack Event.blockMark events n).head? = some i := by
      rw [h.opened, List.head?_map, Option.map_eq_some_iff]
      constructor
      · rintro ⟨top, htop, hnumber⟩
        rw [htop, blockNumber_inj (Mark.lt_of_mem_stack (List.mem_of_head? htop)).2 hi hnumber]
      · exact fun htop => ⟨i, htop, rfl⟩
    simp only [getElem?_touch, hhead]
  refine ⟨?_, ?_, List.Subset.refl _, fun i hi hmark => ?_, ?_⟩
  · rw [size_eq_of_getElem? fun j => getElem?_touch F _ j, h.size,
      blockNumber_succ_of_not (by simp [hnone])]
  · rw [hstack, ← h.opened, Forest.touch]
    split <;> rfl
  · rcases Nat.lt_succ_iff_lt_or_eq.mp hi with hi | rfl
    · obtain ⟨b, hb, hbegun, hclosed⟩ := h.blocks i hi hmark
      have hbegun' := hbegun.succ (hnot i)
      rw [hentry i hmark, hb, Option.map_some]
      refine ⟨_, rfl, ?_, fun hi' => ?_⟩
      · split
        · exact ⟨hbegun'.startEvent, hbegun'.depth, hbegun'.parent, hbegun'.endEvent⟩
        · exact hbegun'
      · rw [hstack] at hi'
        rw [if_neg fun htop => hi' (List.mem_of_head? htop)]
        exact (hclosed hi').outside hi'
    · cases hnone.symm.trans hmark
  · have hcovers : ∀ i c, i ∈ stack Event.blockMark events n → Covers roster events i n c →
        Covers roster events i (n + 1) (c.touch (event.touched roster)) :=
      fun i c hi hc => hc.touch hi hevent (by simp [hnone])
    rw [hstack]
    cases htop : stack Event.blockMark events n with
    | nil => trivial
    | cons top rest =>
        obtain ⟨b, hb, -, hc, hcovered⟩ := h.exists_innermost htop
        have hmarks : ∀ i ∈ top :: rest, sets Event.blockMark events i = some .start :=
          fun i hi => (Mark.lt_of_mem_stack (htop ▸ hi)).2
        refine ⟨{ b with columns := (event.touched roster).foldl Hull.insert b.columns }, ?_,
          hcovers top _ (htop ▸ List.mem_cons_self) hc,
          hcovered.map (T := fun _ c => c.touch (event.touched roster)) (k := 0)
            (fun c inner _ => c.join_touch inner _) (fun c => c.join_touch b.cover _)
            (fun i hi => ?_) fun k i c hk hc => ?_⟩
        · rw [hentry top (hmarks top List.mem_cons_self), hb, htop, Option.map_some,
            List.head?_cons, if_pos rfl]
        · have hne : top ≠ i := (Mark.lt_of_stack_cons htop hi).ne'
          rw [hentry i (hmarks i (List.mem_cons_of_mem top hi))]
          simp only [htop, List.head?_cons, Option.some.injEq, if_neg hne, Option.map_id']
        · exact hcovers i c (htop ▸ List.mem_cons_of_mem top (List.mem_of_getElem? hk)) hc

/-- A block is opened. -/
lemma start {event : Event} (h : F.Tracks roster events n n n) (hevent : events[n]? = some event)
    (hstart : sets Event.blockMark events n = some .start) (htouched : event.touched roster = []) :
    (F.start n).Tracks roster events (n + 1) (n + 1) (n + 1) := by
  have hnot : ∀ i, ¬ Pairs Event.blockMark events i n := by
    intro i hpairs
    cases hstart.symm.trans hpairs.stop
  have hstack := Mark.stack_of_start hstart
  refine ⟨?_, ?_, List.Subset.refl _, fun i hi hmark => ?_, ?_⟩
  · rw [Forest.start, Array.size_push, h.size, blockNumber_succ hstart]
  · rw [Forest.start, h.size, h.opened, hstack, List.map_cons]
  · rcases Nat.lt_succ_iff_lt_or_eq.mp hi with hi | rfl
    · obtain ⟨b, hb, hbegun, hclosed⟩ := h.blocks i hi hmark
      refine ⟨b, ?_, hbegun.succ (hnot i), fun hi' => ?_⟩
      · rw [Forest.start, Array.getElem?_push, if_neg, hb]
        rw [h.size]
        exact (Nat.count_strict_mono hmark hi).ne
      · rw [hstack, List.mem_cons, not_or] at hi'
        exact (hclosed hi'.2).outside hi'.2
    · refine ⟨⟨F.opened.length, F.opened.head?, none, 0, i, none⟩, ?_, ⟨rfl, ?_, ?_, fun j => ?_⟩,
        fun hi' => ?_⟩
      · rw [Forest.start, ← h.size, Array.getElem?_push_size]
      · rw [h.opened, List.length_map]
      · rw [h.opened, List.head?_map]
      · constructor
        · intro hnone
          cases hnone
        · rintro ⟨hj, hpairs⟩
          have := hpairs.lt
          omega
      · rw [hstack] at hi'
        exact absurd List.mem_cons_self hi'
  · rw [hstack]
    refine ⟨⟨F.opened.length, F.opened.head?, none, 0, n, none⟩, ?_,
      covers_new roster events n, ?_⟩
    · rw [Forest.start, ← h.size, Array.getElem?_push_size]
    · refine h.covered.map (T := fun k c => c.deepen (k + 1)) (k := 0)
        (fun c inner k => c.join_deepen inner (k + 1)) (fun c => c.join_empty) (fun i hi => ?_)
        fun k i c hk hc => ?_
      · obtain ⟨hi, hmark⟩ := Mark.lt_of_mem_stack hi
        rw [Forest.start, Array.getElem?_push, if_neg]
        rw [h.size]
        exact (Nat.count_strict_mono hmark hi).ne
      · rw [Nat.zero_add]
        exact hc.deepen hk hevent hstart htouched

/-- An end closes the innermost block, if one is open. -/
lemma stop {event : Event} (h : F.Tracks roster events n n n) (hevent : events[n]? = some event)
    (hstop : sets Event.blockMark events n = some .stop) (htouched : event.touched roster = []) :
    (F.close (some n)).Tracks roster events (n + 1) (n + 1) (n + 1) := by
  have hstack := Mark.stack_of_stop hstop
  have hquiet : sets Event.blockMark events n ≠ some .start := by simp [hstop]
  cases htop : stack Event.blockMark events n with
  | nil =>
      rw [htop, List.tail_nil] at hstack
      have hnot : ∀ i, ¬ Pairs Event.blockMark events i n := by
        intro i hpairs
        have hhead := (Mark.pairs_iff_head?.mp hpairs).2
        rw [htop] at hhead
        cases hhead
      have hclose : F.close (some n) = F := by
        rw [Forest.close, h.opened, htop, List.map_nil]
      rw [hclose]
      exact (h.ends fun b i hbegun => hbegun.succ (hnot i)).skip hevent hquiet htouched
        (hstack.trans htop.symm) (List.Subset.refl _)
  | cons i rest =>
      rw [htop, List.tail_cons] at hstack
      obtain ⟨-, -, hnot⟩ := Mark.mem_stack.mp (htop ▸ List.mem_cons_self)
      have hpairs : ∀ i', Pairs Event.blockMark events i' n ↔ i' = i := by
        intro i'
        rw [Mark.pairs_iff_head?, htop, List.head?_cons, Option.some.injEq]
        exact ⟨fun hi => hi.2.symm, fun hi => ⟨hstop, hi.symm⟩⟩
      have hclosed : (F.close (some n)).Tracks roster events n i (n + 1) := by
        refine h.close htop (fun j => ?_) fun b i' hne hbegun =>
          hbegun.succ fun hpair => hne ((hpairs i').mp hpair)
        rw [Option.some.injEq, Nat.lt_succ_iff_lt_or_eq]
        constructor
        · rintro rfl
          exact ⟨Or.inr rfl, (hpairs i).mpr rfl⟩
        · rintro ⟨hj | rfl, hpair⟩
          · exact absurd hpair (hnot j hj)
          · rfl
      exact hclosed.skip hevent hquiet htouched (hstack.trans (Mark.stack_cons htop))
        (List.Subset.refl _)

/-- At the end of the walk all that is open is closed. -/
lemma closeAll (h : F.Tracks roster events n m n) :
    (F.opened.foldl (fun F _ => F.close none) F).Tracks roster events n 0 n := by
  generalize hopened : F.opened = opened
  induction opened generalizing F m with
  | nil =>
      rw [h.opened, List.map_eq_nil_iff] at hopened
      rw [List.foldl_nil]
      refine ⟨h.size, ?_, by simp [stack], ?_, trivial⟩
      · rw [h.opened, hopened]
        rfl
      · intro i hi hmark
        obtain ⟨b, hb, hbegun, hclosed⟩ := h.blocks i hi hmark
        exact ⟨b, hb, hbegun, fun _ => hclosed (by simp [hopened])⟩
  | cons k rest ih =>
      have hmap := h.opened.symm.trans hopened
      obtain ⟨i, below, hstack, -, hbelow⟩ := List.map_eq_cons_iff.mp hmap
      obtain ⟨-, -, hnot⟩ := Mark.mem_stack.mp (h.still (hstack ▸ List.mem_cons_self))
      have hclosed : (F.close none).Tracks roster events n i n := by
        refine h.close hstack (fun j => ?_) fun _ _ _ hbegun => hbegun
        constructor
        · intro hnone
          cases hnone
        · exact fun hj => absurd hj.2 (hnot j hj.1)
      refine ih hclosed ?_
      rw [hclosed.opened, ← Mark.stack_cons hstack, hbelow]

/-- **Each event keeps the forest in line.** -/
lemma step {event : Event} (h : F.Tracks roster events n n n) (hevent : events[n]? = some event) :
    (F.step roster n event).Tracks roster events (n + 1) (n + 1) (n + 1) := by
  have hsets : sets Event.blockMark events n = event.blockMark := by
    rw [sets, hevent, Option.bind_some]
  cases event with
  | blockStart b => exact h.start hevent hsets rfl
  | blockEnd => exact h.stop hevent hsets rfl
  | _ => exact h.touch hevent hsets

end Tracks

/-- The forest before the first event. -/
lemma tracks_start [Scalar α] (roster : Roster α) (events : List Event) :
    (State.start roster).forest.Tracks roster events 0 0 0 where
  size := by simp [State.forest, State.start, blockNumber]
  opened := rfl
  still := List.Subset.refl _
  blocks i hi := absurd hi (Nat.not_lt_zero i)
  covered := trivial

/-- **The forest at the end of the walk.** -/
lemma tracks_finish [Scalar α] (s : Setting α) (roster : Roster α) (events : List Event) :
    (((State.start roster).run s roster 0 events).1.finish s).forest.Tracks roster events
      events.length 0 events.length := by
  have hrun := State.run_events_induction (s := s) roster events
    (P := fun done st => st.forest.Tracks roster events done.length done.length done.length)
    (fun done st event hevent h => by
      rw [List.length_append, List.length_singleton, State.forest_step]
      exact h.step hevent)
    (tracks_start roster events)
  rw [State.length_slots_run] at hrun
  rw [State.forest_finish]
  exact hrun.closeAll

end Forest

end Drafting.Sequence
