import Mathlib
import Drafting.Proofs.Arrays
import Drafting.Proofs.Sequence.Progress

/-!
When activations take place.

Without its heights an activation is a column, a depth and the events that open and close it.  The
open activations of a column are closed in the reverse of the order in which they are opened, and an
activation that does not start with a message to its column waits for the next row.

* `Period.Nests`: an activation is opened while another one of the same column is open.
* `Period.Waits`: an activation waits for a row.
* `Progress.Stacked`: which activations are open, which of them wait, and how deep they are.
* `Progress.Stacked.step`: every event keeps this.
-/

namespace Drafting.Sequence

variable {α : Type}

/-! ### Periods -/

/-- An activation that was opened by an event, without its heights. -/
structure Period where
  /-- The column of the participant. -/
  column : Nat
  /-- How many activations of the participant were open before. -/
  depth : Nat
  /-- The event that opens it. -/
  start : Nat
  /-- The event that closes it. -/
  stop : Option Nat
deriving Repr, DecidableEq

/-- The period of an activation; the note of an end without an activation has none. -/
def Activation.period? (a : Activation α) : Option Period :=
  a.startEvent.map fun start => ⟨a.column, a.depth, start, a.endEvent⟩

/-- The receiver of the latest row among slots, if that is a message. -/
def Slot.receiver? (slots : List (Slot α)) : Option Nat :=
  (slots.filter (·.isRow)).getLast?.bind (·.kind.target?)

namespace Period

/-- An activation is opened while another one of the same column is open. -/
def Nests (outer inner : Period) : Prop :=
  outer.column = inner.column ∧ outer.start < inner.start ∧
    ∀ event ∈ outer.stop, inner.start < event

/-- An activation still waits for a row when an event comes: it was opened before, no row was placed
since, and the latest row is not a message to its column. -/
def Waits (a : Period) (slots : List (Slot α)) (event : Nat) : Prop :=
  a.start < event ∧ (∀ slot ∈ (slots.take event).drop a.start, slot.isRow = false) ∧
    Slot.receiver? (slots.take event) ≠ some a.column

instance (outer inner : Period) : Decidable (outer.Nests inner) :=
  inferInstanceAs (Decidable (_ ∧ _))

instance (a : Period) (slots : List (Slot α)) (event : Nat) : Decidable (a.Waits slots event) :=
  inferInstanceAs (Decidable (_ ∧ _))

/-- The events of an activation are in order and among the first ones. -/
structure Before (a : Period) (count : Nat) : Prop where
  start : a.start < count
  stop : ∀ event ∈ a.stop, a.start < event ∧ event < count

lemma Before.succ {a : Period} {count : Nat} (h : a.Before count) : a.Before (count + 1) :=
  ⟨Nat.lt_succ_of_lt h.start, fun event hevent =>
    ⟨(h.stop event hevent).1, Nat.lt_succ_of_lt (h.stop event hevent).2⟩⟩

end Period

/-! ### Waiting -/

namespace Slot

lemma receiver?_append_row (slots : List (Slot α)) {slot : Slot α} (h : slot.isRow = true) :
    receiver? (slots ++ [slot]) = slot.kind.target? := by
  simp [receiver?, h]

/-- Events without rows do not change the latest row. -/
lemma receiver?_append_of_quiet (slots : List (Slot α)) {quiet : List (Slot α)}
    (h : ∀ slot ∈ quiet, slot.isRow = false) : receiver? (slots ++ quiet) = receiver? slots := by
  have hnone : quiet.filter (·.isRow) = [] := List.filter_eq_nil_iff.mpr fun slot hslot => by
    simp [h slot hslot]
  rw [receiver?, List.filter_append, hnone, List.append_nil, receiver?]

lemma receiver?_append_quiet (slots : List (Slot α)) {slot : Slot α} (h : slot.isRow = false) :
    receiver? (slots ++ [slot]) = receiver? slots :=
  receiver?_append_of_quiet slots (by simpa using h)

end Slot

namespace Period

variable {a b : Period} {slots : List (Slot α)} {slot : Slot α} {event : Nat}

/-- Whether an activation waits when an event comes depends on the events before it. -/
lemma waits_append (h : event ≤ slots.length) (more : List (Slot α)) :
    a.Waits (slots ++ more) event ↔ a.Waits slots event := by
  rw [Waits, Waits, List.take_append_of_le_length h]

/-- Nothing waits after a row. -/
lemma not_waits_row (hrow : slot.isRow = true) (h : a.start < slots.length) :
    ¬ a.Waits (slots ++ [slot]) (slots.length + 1) := by
  rintro ⟨-, hquiet, -⟩
  rw [List.take_of_length_le (by simp), List.drop_append_of_le_length h.le] at hquiet
  have hquiet := hquiet slot (by simp)
  simp [hrow] at hquiet

/-- An event without a row leaves those waiting that waited before. -/
lemma waits_quiet_iff (hquiet : slot.isRow = false) (h : a.start < slots.length) :
    a.Waits (slots ++ [slot]) (slots.length + 1) ↔ a.Waits slots slots.length := by
  rw [Waits, Waits, List.take_of_length_le (by simp), List.take_length,
    Slot.receiver?_append_quiet slots hquiet, List.drop_append_of_le_length h.le,
    List.forall_mem_append, List.forall_mem_singleton]
  simp only [h, h.trans (Nat.lt_succ_self _), hquiet, and_true]

/-- An activation waits after it is opened unless the latest row is a message to its column. -/
lemma waits_opened_iff (hquiet : slot.isRow = false) (h : a.start = slots.length) :
    a.Waits (slots ++ [slot]) (slots.length + 1) ↔ Slot.receiver? slots ≠ some a.column := by
  rw [Waits, List.take_of_length_le (by simp), Slot.receiver?_append_quiet slots hquiet, h]
  simp [hquiet]

/-- What waits at an event waited at the events before it. -/
lemma Waits.of_le (h : a.Waits slots event) {earlier : Nat} (hle : earlier ≤ event)
    (hstart : a.start < earlier) : a.Waits slots earlier := by
  obtain ⟨hlt, hquiet, hreceiver⟩ := h
  have htake : slots.take event = slots.take earlier ++ (slots.take event).drop earlier := by
    conv_lhs => rw [← List.take_append_drop earlier (slots.take event)]
    rw [List.take_take, Nat.min_eq_left hle]
  refine ⟨hstart, fun slot hslot => ?_, ?_⟩
  · refine hquiet slot ((List.Sublist.drop ?_ a.start).mem hslot)
    exact htake ▸ List.sublist_append_left _ _
  · have hrest : ∀ slot ∈ (slots.take event).drop earlier, slot.isRow = false := fun slot hslot =>
      hquiet slot ((List.drop_sublist_drop_left _ hstart.le).mem hslot)
    rwa [htake, Slot.receiver?_append_of_quiet _ hrest] at hreceiver

/-- What is opened while an activation waits waits as well. -/
lemma Waits.nested (h : a.Waits slots event) (hnests : a.Nests b) (hstart : b.start < event) :
    b.Waits slots event := by
  obtain ⟨-, hquiet, hreceiver⟩ := h
  refine ⟨hstart, fun slot hslot => ?_, hnests.1 ▸ hreceiver⟩
  exact hquiet slot ((List.drop_sublist_drop_left _ hnests.2.1.le).mem hslot)

end Period

/-! ### The periods of a walk -/

namespace Progress

/-- The period of the activation at a position. -/
def period? (p : Progress α) (i : Nat) : Option Period := p.activations[i]?.bind Activation.period?

lemma lt_size {p : Progress α} {i : Nat} {a : Period} (h : p.period? i = some a) :
    i < p.activations.size := by
  obtain ⟨x, hx, -⟩ := Option.bind_eq_some_iff.mp h
  exact (Array.getElem?_eq_some_iff.mp hx).1

@[simp]
lemma period?_place (p : Progress α) (y bottom : α) (target : Option Nat) (i : Nat) :
    (p.place y bottom target).period? i = p.period? i := by
  rw [period?, period?, place, getElem?_begun, Option.bind_map]
  rfl

lemma period?_size (p : Progress α) : p.period? p.activations.size = none := by
  rw [period?, Array.getElem?_size]
  rfl

lemma period?_opened_eq_some_iff {p : Progress α} {index column i : Nat} {a : Period} :
    (p.opened index column).period? i = some a ↔
      i = p.activations.size ∧ a = ⟨column, (p.running.getD column []).length, index, none⟩ ∨
        p.period? i = some a := by
  have hperiod : (p.opened index column).period? i = if i = p.activations.size then
      some ⟨column, (p.running.getD column []).length, index, none⟩ else p.period? i := by
    rw [period?, opened, Array.getElem?_push]
    split <;> rfl
  rw [hperiod]
  split
  · next hi => simp [hi, period?_size, eq_comm]
  · next hi => simp [hi]

@[simp]
lemma period?_strayEnd (p : Progress α) (index column i : Nat) :
    (p.strayEnd index column).period? i = p.period? i := by
  rw [period?, period?, strayEnd, Array.getElem?_push]
  split
  · next hi => rw [hi, Array.getElem?_size]; rfl
  · rfl

lemma period?_closed_eq_some_iff [Scalar α] {s : Setting α} {p : Progress α} {index column k : Nat}
    {rest : List Nat} {c : Period} (hc : p.period? k = some c) {i : Nat} {a : Period} :
    (p.closed s index column k rest).period? i = some a ↔
      i = k ∧ a = { c with stop := some index } ∨ i ≠ k ∧ p.period? i = some a := by
  rw [period?, closed, getElem?_ended, popped, getElem?_roused]
  by_cases hk : k = i
  · subst hk
    obtain ⟨x, hx, hxc⟩ := Option.bind_eq_some_iff.mp hc
    obtain ⟨start, hstart, rfl⟩ := Option.map_eq_some_iff.mp hxc
    simp [hx, Activation.period?, hstart, eq_comm]
  · simp [hk, Ne.symm hk, period?]

end Progress

/-! ### The open activations -/

/-- Which activations are open after some events, which of them wait, and how deep they are. -/
structure Progress.Stacked (count : Nat) (slots : List (Slot α)) (p : Progress α) : Prop where
  size : p.running.size = count
  receiver : p.lastRow.bind (·.target) = Slot.receiver? slots
  before : ∀ i a, p.period? i = some a → a.Before slots.length
  starts : ∀ i j a b, p.period? i = some a → p.period? j = some b → i < j → a.start < b.start
  running : ∀ c i, i ∈ p.running.getD c [] ↔
    ∃ a, p.period? i = some a ∧ a.stop = none ∧ a.column = c
  latest : ∀ c, (p.running.getD c []).Pairwise (· > ·)
  depth : ∀ c, ∀ i ∈ p.running.getD c [], ∀ a, p.period? i = some a →
    a.depth < (p.running.getD c []).length
  nested : ∀ i j a b, p.period? i = some a → p.period? j = some b → a.Nests b →
    a.depth < b.depth ∧ (b.stop = none → a.stop = none)
  waiting : ∀ i, i ∈ p.pending ↔
    ∃ a, p.period? i = some a ∧ a.stop = none ∧ a.Waits slots slots.length
  nodup : p.pending.Nodup

namespace Progress.Stacked

variable {count : Nat} {slots : List (Slot α)} {slot : Slot α} {p : Progress α} {i j : Nat}
  {a b : Period}

/-- An activation comes before those that are opened later. -/
lemma lt_of_nests (h : Stacked count slots p) (ha : p.period? i = some a)
    (hb : p.period? j = some b) (hnests : a.Nests b) : i < j := by
  rcases Nat.lt_trichotomy i j with hij | rfl | hij
  · exact hij
  · obtain rfl := Option.some.inj (ha.symm.trans hb)
    exact absurd hnests.2.1 (Nat.lt_irrefl _)
  · exact absurd (h.starts j i b a hb ha hij) (Nat.not_lt.mpr hnests.2.1.le)

/-- Of two open activations of a column the later one is nested in the earlier one. -/
lemma nests_of_lt (h : Stacked count slots p) (ha : p.period? i = some a)
    (hb : p.period? j = some b) (hcolumn : a.column = b.column) (hopen : a.stop = none)
    (hij : i < j) : a.Nests b :=
  ⟨hcolumn, h.starts i j a b ha hb hij, by simp [hopen]⟩

/-- What is nested in an activation that waits waits as well, or was closed while the other one
waited. -/
lemma waits_of_nests (h : Stacked count slots p) (ha : p.period? i = some a)
    (hb : p.period? j = some b) (hnests : a.Nests b) (hi : i ∈ p.pending) :
    j ∈ p.pending ∨ ∃ event ∈ b.stop, a.Waits slots event := by
  obtain ⟨a', ha', -, hwaits⟩ := (h.waiting i).mp hi
  obtain rfl := Option.some.inj (ha.symm.trans ha')
  have hbefore := h.before j b hb
  cases hstop : b.stop with
  | none => exact .inl ((h.waiting j).mpr ⟨b, hb, hstop, hwaits.nested hnests hbefore.start⟩)
  | some event =>
      obtain ⟨hlt, hevent⟩ := hbefore.stop event hstop
      exact .inr ⟨event, rfl, hwaits.of_le hevent.le (hnests.2.1.trans hlt)⟩

lemma mem_stack_iff (h : Stacked count slots p) {c : Nat} {stack : List Nat}
    (hc : p.running.toList[c]? = some stack) :
    i ∈ stack ↔ ∃ a, p.period? i = some a ∧ a.stop = none ∧ a.column = c := by
  rw [← h.running, Array.getD_eq_getD_getElem?, ← Array.getElem?_toList, hc, Option.getD_some]

/-- The activations in the columns are those that are open. -/
lemma mem_open_iff (h : Stacked count slots p) :
    i ∈ p.running.toList.flatten ↔ ∃ a, p.period? i = some a ∧ a.stop = none := by
  rw [List.mem_flatten]
  constructor
  · rintro ⟨stack, hstack, hi⟩
    obtain ⟨c, hc⟩ := List.mem_iff_getElem?.mp hstack
    obtain ⟨a, ha, hopen, -⟩ := (h.mem_stack_iff hc).mp hi
    exact ⟨a, ha, hopen⟩
  · rintro ⟨a, ha, hopen⟩
    have hi := (h.running a.column i).mpr ⟨a, ha, hopen, rfl⟩
    rw [Array.getD_eq_getD_getElem?, ← Array.getElem?_toList] at hi
    cases hc : p.running.toList[a.column]? with
    | none => rw [hc] at hi; exact absurd hi List.not_mem_nil
    | some stack => rw [hc] at hi; exact ⟨stack, List.mem_of_getElem? hc, hi⟩

/-- Column by column and the latest first, no activation comes before one that is nested in it. -/
lemma pairwise_open (h : Stacked count slots p) :
    p.running.toList.flatten.Pairwise fun k l =>
      ∀ a b, p.period? k = some a → p.period? l = some b → ¬ a.Nests b := by
  refine List.pairwise_flatten.mpr ⟨?_, ?_⟩
  · intro stack hstack
    obtain ⟨c, hc⟩ := List.mem_iff_getElem?.mp hstack
    have hlatest := h.latest c
    rw [Array.getD_eq_getD_getElem?, ← Array.getElem?_toList, hc, Option.getD_some] at hlatest
    refine hlatest.imp fun hlt a b ha hb hnests => ?_
    exact absurd (h.lt_of_nests ha hb hnests) (Nat.not_lt.mpr (Nat.le_of_lt hlt))
  · refine List.pairwise_iff_getElem.mpr fun c c' hc hc' hlt k hk l hl a b ha hb hnests => ?_
    obtain ⟨a', ha', -, hcolumn⟩ := (h.mem_stack_iff (List.getElem?_eq_getElem hc)).mp hk
    obtain ⟨b', hb', -, hcolumn'⟩ := (h.mem_stack_iff (List.getElem?_eq_getElem hc')).mp hl
    obtain rfl := Option.some.inj (ha.symm.trans ha')
    obtain rfl := Option.some.inj (hb.symm.trans hb')
    exact absurd (hcolumn.symm.trans (hnests.1.trans hcolumn')) hlt.ne

/-- A row ends all waiting. -/
lemma place (h : Stacked count slots p) (hrow : slot.isRow = true) (y bottom : α) :
    Stacked count (slots ++ [slot]) (p.place y bottom slot.kind.target?) where
  size := h.size
  receiver := (Slot.receiver?_append_row slots hrow).symm
  before i a ha := by
    rw [period?_place] at ha
    rw [List.length_append]
    exact (h.before i a ha).succ
  starts := by simp only [period?_place]; exact h.starts
  running := by simp only [period?_place]; exact h.running
  latest := h.latest
  depth := by simp only [period?_place]; exact h.depth
  nested := by simp only [period?_place]; exact h.nested
  waiting i := by
    simp only [period?_place]
    refine ⟨fun hi => absurd hi List.not_mem_nil, ?_⟩
    rintro ⟨a, ha, -, hwaits⟩
    rw [List.length_append] at hwaits
    exact absurd hwaits (Period.not_waits_row hrow (h.before i a ha).start)
  nodup := List.nodup_nil

/-- An event without a row that opens and closes nothing changes nothing. -/
lemma quiet (h : Stacked count slots p) (hquiet : slot.isRow = false) :
    Stacked count (slots ++ [slot]) p where
  size := h.size
  receiver := h.receiver.trans (Slot.receiver?_append_quiet slots hquiet).symm
  before i a ha := by
    rw [List.length_append]
    exact (h.before i a ha).succ
  starts := h.starts
  running := h.running
  latest := h.latest
  depth := h.depth
  nested := h.nested
  waiting i := by
    rw [h.waiting, List.length_append]
    refine exists_congr fun a => and_congr_right fun ha => and_congr_right fun _ => ?_
    exact (Period.waits_quiet_iff hquiet (h.before i a ha).start).symm
  nodup := h.nodup

/-- The note of an end without an activation has no period. -/
lemma strayEnd (h : Stacked count slots p) (index column : Nat) :
    Stacked count slots (p.strayEnd index column) where
  size := h.size
  receiver := h.receiver
  before := by simp only [period?_strayEnd]; exact h.before
  starts := by simp only [period?_strayEnd]; exact h.starts
  running := by simp only [period?_strayEnd]; exact h.running
  latest := h.latest
  depth := by simp only [period?_strayEnd]; exact h.depth
  nested := by simp only [period?_strayEnd]; exact h.nested
  waiting := by simp only [period?_strayEnd]; exact h.waiting
  nodup := h.nodup

/-- The latest row is a message to a column if one was received there. -/
lemma received_eq_none_iff (h : Stacked count slots p) (column : Nat) :
    p.received column = none ↔ Slot.receiver? slots ≠ some column := by
  rw [← h.receiver, received]
  cases p.lastRow with
  | none => simp
  | some row => simp

/-! ### Opening -/

/-- What is closed does not contain what is opened later. -/
lemma stop_eq_none_of_nests (h : Stacked count slots p) (ha : p.period? i = some a)
    (hnests : a.Nests b) (hstart : slots.length ≤ b.start) : a.stop = none := by
  rw [Option.eq_none_iff_forall_not_mem]
  intro event hevent
  have hlt := hnests.2.2 event hevent
  exact absurd ((h.before i a ha).stop event hevent).2 (by omega)

lemma getD_running_opened (h : Stacked count slots p) {column : Nat} (hcolumn : column < count)
    (index c : Nat) : (p.opened index column).running.getD c [] =
      if column = c then p.activations.size :: p.running.getD c [] else p.running.getD c [] :=
  getD_modify_of_lt (h.size ▸ hcolumn) _ c []

lemma mem_pending_opened_iff (h : Stacked count slots p) (index column : Nat) :
    i ∈ (p.opened index column).pending ↔
      i ∈ p.pending ∨ i = p.activations.size ∧ Slot.receiver? slots ≠ some column := by
  rw [← h.received_eq_none_iff, Progress.opened]
  cases p.received column <;> simp

/-- The next activation is not among the open ones. -/
lemma size_notMem (h : Stacked count slots p) (c : Nat) :
    p.activations.size ∉ p.running.getD c [] ∧ p.activations.size ∉ p.pending := by
  refine ⟨fun hmem => ?_, fun hmem => ?_⟩
  · obtain ⟨a, ha, -⟩ := (h.running c _).mp hmem
    exact absurd (lt_size ha) (Nat.lt_irrefl _)
  · obtain ⟨a, ha, -⟩ := (h.waiting _).mp hmem
    exact absurd (lt_size ha) (Nat.lt_irrefl _)

/-- An activation that is opened comes on top of the open ones of its column. -/
lemma opened (h : Stacked count slots p) (hquiet : slot.isRow = false) {column : Nat}
    (hcolumn : column < count) :
    Stacked count (slots ++ [slot]) (p.opened slots.length column) where
  size := Array.size_modify.trans h.size
  receiver := (h.quiet hquiet).receiver
  before i a ha := by
    rcases period?_opened_eq_some_iff.mp ha with ⟨-, rfl⟩ | ha
    · exact ⟨by simp, by simp⟩
    · exact (h.quiet hquiet).before i a ha
  starts i j a b ha hb hij := by
    rcases period?_opened_eq_some_iff.mp ha with ⟨rfl, -⟩ | ha
    · rcases period?_opened_eq_some_iff.mp hb with ⟨rfl, -⟩ | hb
      · exact absurd hij (Nat.lt_irrefl _)
      · exact absurd (lt_size hb) (Nat.not_lt.mpr hij.le)
    · rcases period?_opened_eq_some_iff.mp hb with ⟨-, rfl⟩ | hb
      · exact (h.before i a ha).start
      · exact h.starts i j a b ha hb hij
  running c i := by
    simp only [period?_opened_eq_some_iff, h.getD_running_opened hcolumn, or_and_right, exists_or,
      ← h.running]
    split
    · next hc => simp [hc]
    · next hc => simp [hc]
  latest c := by
    rw [h.getD_running_opened hcolumn]
    split
    · refine List.pairwise_cons.mpr ⟨fun i hi => ?_, h.latest c⟩
      obtain ⟨a, ha, -⟩ := (h.running c i).mp hi
      exact lt_size ha
    · exact h.latest c
  depth c i hi a ha := by
    rw [h.getD_running_opened hcolumn] at hi ⊢
    rcases period?_opened_eq_some_iff.mp ha with ⟨rfl, rfl⟩ | ha
    · split_ifs at hi ⊢ with hc
      · simp [hc]
      · exact absurd hi (h.size_notMem c).1
    · split_ifs at hi ⊢ with hc
      · rcases List.mem_cons.mp hi with rfl | hi
        · exact absurd (lt_size ha) (Nat.lt_irrefl _)
        · exact Nat.lt_succ_of_lt (h.depth c i hi a ha)
      · exact h.depth c i hi a ha
  nested i j a b ha hb hnests := by
    rcases period?_opened_eq_some_iff.mp ha with ⟨-, rfl⟩ | ha
    · rcases period?_opened_eq_some_iff.mp hb with ⟨-, rfl⟩ | hb
      · exact absurd hnests.2.1 (Nat.lt_irrefl _)
      · exact absurd hnests.2.1 (Nat.not_lt.mpr (h.before j b hb).start.le)
    · rcases period?_opened_eq_some_iff.mp hb with ⟨-, rfl⟩ | hb
      · have hopen := h.stop_eq_none_of_nests ha hnests (Nat.le_refl _)
        have hi := (h.running column i).mpr ⟨a, ha, hopen, hnests.1⟩
        exact ⟨h.depth column i hi a ha, fun _ => hopen⟩
      · exact h.nested i j a b ha hb hnests
  waiting i := by
    have hlength : (slots ++ [slot]).length = slots.length + 1 := by simp
    rw [h.mem_pending_opened_iff, (h.quiet hquiet).waiting, or_comm]
    simp only [period?_opened_eq_some_iff, or_and_right, exists_or]
    refine or_congr ?_ Iff.rfl
    simp only [and_assoc, exists_and_left, exists_eq_left, true_and, hlength]
    rw [Period.waits_opened_iff hquiet rfl]
  nodup := by
    rw [Progress.opened]
    dsimp only
    split
    · exact h.nodup.append (List.nodup_singleton _)
        (List.disjoint_singleton.mpr (h.size_notMem column).2)
    · exact h.nodup

/-! ### Closing -/

section Closing

variable {column k : Nat} {rest : List Nat} {c : Period}

/-- The open activations of a column come before the latest one. -/
lemma lt_of_mem_rest (h : Stacked count slots p) (hstack : p.running.getD column [] = k :: rest)
    (hi : i ∈ rest) : i < k := by
  have hlatest := h.latest column
  rw [hstack] at hlatest
  exact (List.pairwise_cons.mp hlatest).1 i hi

/-- They are less deep than the number of them. -/
lemma depth_lt_of_mem_rest (h : Stacked count slots p)
    (hstack : p.running.getD column [] = k :: rest)
    (hi : i ∈ rest) (ha : p.period? i = some a) : a.depth < rest.length := by
  obtain ⟨a', ha', hopen, hcolumn⟩ := (h.running column i).mp (by simp [hstack, hi])
  obtain ⟨c, hc, -, hcolumn'⟩ := (h.running column k).mp (by simp [hstack])
  obtain rfl := Option.some.inj (ha.symm.trans ha')
  have hnests := h.nests_of_lt ha hc (hcolumn.trans hcolumn'.symm) hopen
    (h.lt_of_mem_rest hstack hi)
  have hlt := (h.nested i k a c ha hc hnests).1
  have hdepth := h.depth column k (by simp [hstack]) c hc
  rw [hstack, List.length_cons] at hdepth
  omega

/-- What is nested in the latest open activation of a column is closed. -/
lemma stop_ne_none_of_nests (h : Stacked count slots p)
    (hstack : p.running.getD column [] = k :: rest)
    (hc : p.period? k = some c) (hb : p.period? j = some b) (hnests : c.Nests b) :
    b.stop ≠ none := by
  intro hopen
  obtain ⟨c', hc', -, hcolumn⟩ := (h.running column k).mp (by simp [hstack])
  obtain rfl := Option.some.inj (hc.symm.trans hc')
  have hj := (h.running column j).mpr ⟨b, hb, hopen, hnests.1.symm.trans hcolumn⟩
  have hlt := h.lt_of_nests hc hb hnests
  rcases List.mem_cons.mp (hstack ▸ hj) with rfl | hj
  · exact absurd hlt (Nat.lt_irrefl _)
  · exact absurd (h.lt_of_mem_rest hstack hj) (Nat.not_lt.mpr hlt.le)

variable [Scalar α] {s : Setting α}

lemma getD_running_closed (h : Stacked count slots p) (hcolumn : column < count) (index d : Nat) :
    (p.closed s index column k rest).running.getD d [] =
      if column = d then rest else p.running.getD d [] := by
  rw [running_closed, getD_modify_of_lt (h.size ▸ hcolumn)]

lemma mem_running_closed_iff (h : Stacked count slots p) (hcolumn : column < count)
    (hstack : p.running.getD column [] = k :: rest) (index d : Nat) :
    i ∈ (p.closed s index column k rest).running.getD d [] ↔ i ≠ k ∧ i ∈ p.running.getD d [] := by
  rw [h.getD_running_closed hcolumn]
  split
  · next hd =>
      rw [← hd, hstack, List.mem_cons]
      exact ⟨fun hi => ⟨(h.lt_of_mem_rest hstack hi).ne, .inr hi⟩, fun hi => hi.2.resolve_left hi.1⟩
  · next hd =>
      refine ⟨fun hi => ⟨?_, hi⟩, fun hi => hi.2⟩
      rintro rfl
      obtain ⟨a, ha, -, hcolumn⟩ := (h.running column i).mp (by simp [hstack])
      obtain ⟨a', ha', -, hcolumn'⟩ := (h.running d i).mp hi
      obtain rfl := Option.some.inj (ha.symm.trans ha')
      exact hd (hcolumn.symm.trans hcolumn')

/-- The latest activation of a column is the only one that is closed. -/
lemma closed (h : Stacked count slots p) (hquiet : slot.isRow = false) (hcolumn : column < count)
    (hstack : p.running.getD column [] = k :: rest) :
    Stacked count (slots ++ [slot]) (p.closed s slots.length column k rest) := by
  obtain ⟨c, hc, hopen, -⟩ := (h.running column k).mp (by simp [hstack])
  have hnext := h.quiet hquiet
  have hstill : ∀ i (P : Period → Prop),
      (∃ a, (p.closed s slots.length column k rest).period? i = some a ∧ a.stop = none ∧ P a) ↔
        i ≠ k ∧ ∃ a, p.period? i = some a ∧ a.stop = none ∧ P a := by
    intro i P
    simp only [period?_closed_eq_some_iff hc, or_and_right, exists_or, and_assoc, exists_and_left]
    simp
  constructor
  case size => rw [running_closed, Array.size_modify, h.size]
  case receiver => rw [lastRow_closed, hnext.receiver]
  case before =>
    intro i a ha
    rcases (period?_closed_eq_some_iff hc).mp ha with ⟨-, rfl⟩ | ⟨-, ha⟩
    · have hstart := (h.before k c hc).start
      exact ⟨(hnext.before k c hc).start, by simpa using hstart⟩
    · exact hnext.before i a ha
  case starts =>
    intro i j a b ha hb hij
    rcases (period?_closed_eq_some_iff hc).mp ha with ⟨rfl, rfl⟩ | ⟨-, ha'⟩
    · rcases (period?_closed_eq_some_iff hc).mp hb with ⟨rfl, -⟩ | ⟨-, hb'⟩
      · exact absurd hij (Nat.lt_irrefl _)
      · exact h.starts i j c b hc hb' hij
    · rcases (period?_closed_eq_some_iff hc).mp hb with ⟨rfl, rfl⟩ | ⟨-, hb'⟩
      · exact h.starts i j a c ha' hc hij
      · exact h.starts i j a b ha' hb' hij
  case running =>
    intro d i
    rw [hstill, ← h.running, h.mem_running_closed_iff hcolumn hstack]
  case latest =>
    intro d
    rw [h.getD_running_closed hcolumn]
    split
    · have hlatest := h.latest column
      rw [hstack] at hlatest
      exact (List.pairwise_cons.mp hlatest).2
    · exact h.latest d
  case depth =>
    intro d i hi a ha
    obtain ⟨hne, hi'⟩ := (h.mem_running_closed_iff hcolumn hstack _ d).mp hi
    have ha' := (((period?_closed_eq_some_iff hc).mp ha).resolve_left fun hk => hne hk.1).2
    rw [h.getD_running_closed hcolumn] at hi ⊢
    split_ifs at hi ⊢ with hd
    · exact h.depth_lt_of_mem_rest hstack hi ha'
    · exact h.depth d i hi' a ha'
  case nested =>
    intro i j a b ha hb hnests
    rcases (period?_closed_eq_some_iff hc).mp ha with ⟨rfl, rfl⟩ | ⟨-, ha'⟩
    · have hnests' : c.Nests b := ⟨hnests.1, hnests.2.1, by simp [hopen]⟩
      rcases (period?_closed_eq_some_iff hc).mp hb with ⟨rfl, rfl⟩ | ⟨-, hb'⟩
      · exact absurd hnests.2.1 (Nat.lt_irrefl _)
      · exact ⟨(h.nested i j c b hc hb' hnests').1,
          fun hstop => absurd hstop (h.stop_ne_none_of_nests hstack hc hb' hnests')⟩
    · rcases (period?_closed_eq_some_iff hc).mp hb with ⟨rfl, rfl⟩ | ⟨-, hb'⟩
      · exact ⟨(h.nested i j a c ha' hc hnests).1, by simp⟩
      · exact h.nested i j a b ha' hb' hnests
  case waiting =>
    intro i
    rw [pending_closed, h.nodup.mem_erase_iff, hnext.waiting, hstill]
  case nodup =>
    rw [pending_closed]
    exact h.nodup.erase k

end Closing

/-! ### The walk -/

/-- At the start nothing is open. -/
lemma start [Scalar α] (roster : Roster α) :
    Stacked roster.length [] (State.start roster).progress := by
  have hperiod : ∀ i, (State.start roster).progress.period? i = none := fun i => rfl
  have hrunning : ∀ c, (State.start roster).progress.running.getD c [] = [] := by
    intro c
    change (Array.replicate roster.length ([] : List Nat)).getD c [] = []
    rw [Array.getD_eq_getD_getElem?, Array.getElem?_replicate]
    split <;> rfl
  have hpending : (State.start roster).progress.pending = [] := rfl
  refine ⟨Array.size_replicate, rfl, ?_, ?_, ?_, ?_, ?_, ?_, ?_, List.nodup_nil⟩
  all_goals simp [hperiod, hrunning, hpending]

/-- **Every event keeps the open activations in order.** -/
lemma step [Scalar α] {s : Setting α} {p' : Progress α} (h : Stacked count slots p)
    (hstep : Step s count slots.length p slot p') : Stacked count (slots ++ [slot]) p' := by
  cases hstep with
  | row => exact h.place rfl _ _
  | nothing => exact h.quiet rfl
  | opens hcolumn => exact h.opened rfl hcolumn
  | strayEnds => exact (h.quiet rfl).strayEnd _ _
  | closes hcolumn hrunning => exact h.closed rfl hcolumn hrunning

end Progress.Stacked

end Drafting.Sequence
