import Mathlib
import Drafting.Proofs.Sequence.Outcome
import Drafting.Proofs.Sequence.Periods

/-!
Activation bars and the bars nested in them.

A bar is drawn from where its activation begins to where it ends.  An activation that waits
for a row begins with that row, but it begins where the walk is when it is closed before.
So an inner activation can begin and end while the outer one still waits, and then its bar
lies above the outer one.

* `Progress.Bars`: where the bars are after some events.
* `Progress.Bars.step`: every event keeps this.
* `Progress.endY_foldl_ended`: ending what is still open, the latest first, encloses what is nested.
* `Timeline.nested_bars_enclosed_unless_waiting`: in exact arithmetic a nested bar lies within the
  outer one exactly if it was not closed while the outer one waited.
* `Timeline.nested_bar_above_the_outer_one`: a nested bar that lies above the outer one.
-/

namespace Drafting.Sequence

variable {slots : List (Slot Rat)} {slot : Slot Rat} {s : Setting Rat}

namespace Progress

variable {p : Progress Rat} {count i j k : Nat} {x y : Activation Rat} {a b : Period}

/-! ### Ends -/

/-- A bar has its least height. -/
lemma add_minHeight_le_endOf (p : Progress Rat) (k : Nat) (x : Activation Rat) (floor : Rat) :
    x.startY + s.config.sequence.activationMinHeight ≤ p.endOf s k x floor := le_max_right _ _

/-- A bar ends below all that come later and lie deeper in its column. -/
lemma endY_le_endOf (floor : Rat) (hy : p.activations[j]? = some y) (hkj : k < j)
    (hcolumn : x.column = y.column) (hdepth : x.depth < y.depth) :
    y.endY ≤ p.endOf s k x floor := by
  refine le_trans ((Scalar.le_maximum floor _).2 y.endY ?_) (le_max_left _ _)
  refine List.mem_map.mpr ⟨y, List.mem_filter.mpr ⟨?_, by simp [hcolumn, hdepth]⟩, rfl⟩
  refine List.mem_iff_getElem?.mpr ⟨j - (k + 1), ?_⟩
  rw [List.getElem?_drop, Nat.add_sub_cancel' hkj, Array.getElem?_toList, hy]

/-! ### The bars of a walk -/

/-- An activation of the walk and its period. -/
def At (p : Progress Rat) (i : Nat) (x : Activation Rat) (a : Period) : Prop :=
  p.activations[i]? = some x ∧ x.period? = some a

lemma At.period (h : p.At i x a) : p.period? i = some a := by
  rw [period?, h.1, Option.bind_some, h.2]

lemma At.column (h : p.At i x a) : x.column = a.column ∧ x.depth = a.depth := by
  obtain ⟨start, -, rfl⟩ := Option.map_eq_some_iff.mp h.2
  exact ⟨rfl, rfl⟩

/-- The second activation was closed while the first one waited for a row. -/
def Missed (slots : List (Slot Rat)) (a b : Period) : Prop := ∃ event ∈ b.stop, a.Waits slots event

lemma top_mono {height height' : Rat} (h : height ≤ height') (i : Nat) (x : Activation Rat) :
    p.top height i x ≤ p.top height' i x := by
  rw [top, top]
  split
  · exact h
  · exact le_refl _

lemma missed_append (hb : b.Before slots.length) (more : List (Slot Rat)) :
    Missed (slots ++ more) a b ↔ Missed slots a b := by
  refine exists_congr fun event => and_congr_right fun hevent => ?_
  exact Period.waits_append (hb.stop event hevent).2.le more

/-- Where the bars are after some events; those that wait count as if they began at the
cursor.  What is nested lies within the outer bar if it was not closed while that one waited,
and above it if it was. -/
structure Bars (slots : List (Slot Rat)) (p : Progress Rat) : Prop where
  row : ∀ row ∈ p.lastRow, row.y ≤ p.cursor
  begun : ∀ i x a, p.At i x a → a.stop = none → i ∉ p.pending → ∃ row ∈ p.lastRow, x.startY ≤ row.y
  within : ∀ i j x y a b, p.At i x a → p.At j y b → a.Nests b → ¬ Missed slots a b →
    p.top p.cursor i x ≤ p.top p.cursor j y
  above : ∀ i j x y a b, p.At i x a → p.At j y b → a.Nests b → Missed slots a b →
    y.startY < y.endY ∧ y.endY ≤ p.top p.cursor i x
  ends : ∀ i j x y a b, p.At i x a → p.At j y b → a.Nests b → a.stop ≠ none → y.endY ≤ x.endY

namespace Bars

/-- Wherever those that wait begin, no open bar begins below. -/
lemma top_le (h : Bars slots p) {height : Rat} (hheight : p.cursor ≤ height) (hx : p.At i x a)
    (hopen : a.stop = none) : p.top height i x ≤ height := by
  rw [top]
  split
  · exact le_refl _
  · next hi =>
      obtain ⟨row, hrow, hle⟩ := h.begun i x a hx hopen hi
      exact hle.trans ((h.row row hrow).trans hheight)

/-- What is closed does not wait. -/
lemma notMem_pending (hstacked : Stacked count slots p) (hx : p.At i x a)
    (hclosed : a.stop ≠ none) :
    i ∉ p.pending := by
  intro hi
  obtain ⟨a', ha', hopen, -⟩ := (hstacked.waiting i).mp hi
  obtain rfl := Option.some.inj (hx.period.symm.trans ha')
  exact hclosed hopen

/-- Wherever those that wait begin, a nested bar does not begin above the outer one, if it was not
missed. -/
lemma within_at (h : Bars slots p) (hstacked : Stacked count slots p) {height : Rat}
    (hheight : p.cursor ≤ height) (hx : p.At i x a) (hy : p.At j y b) (hnests : a.Nests b)
    (hmissed : ¬ Missed slots a b) : p.top height i x ≤ p.top height j y := by
  have hle := h.within i j x y a b hx hy hnests hmissed
  by_cases hi : i ∈ p.pending
  · have hj := (hstacked.waits_of_nests hx.period hy.period hnests hi).resolve_right hmissed
    rw [top, top, if_pos hi, if_pos hj]
  · rw [top, if_neg hi] at hle ⊢
    exact hle.trans (top_mono hheight j y)

/-- A nested bar that was missed lies above the outer one, wherever that begins. -/
lemma above_at (h : Bars slots p) (hstacked : Stacked count slots p) {height : Rat}
    (hheight : p.cursor ≤ height) (hx : p.At i x a) (hy : p.At j y b) (hnests : a.Nests b)
    (hmissed : Missed slots a b) :
    p.top height j y < y.endY ∧ y.endY ≤ p.top height i x := by
  obtain ⟨hlt, hle⟩ := h.above i j x y a b hx hy hnests hmissed
  refine ⟨?_, hle.trans (top_mono hheight i x)⟩
  obtain ⟨event, hevent, -⟩ := hmissed
  have hclosed : b.stop ≠ none := Option.ne_none_iff_exists'.mpr ⟨event, hevent⟩
  rwa [top, if_neg (notMem_pending hstacked hy hclosed)]

/-- An event without a row that opens and closes nothing changes nothing. -/
lemma quiet (h : Bars slots p) (hstacked : Stacked count slots p) : Bars (slots ++ [slot]) p where
  row := h.row
  begun := h.begun
  within i j x y a b hx hy hnests hmissed := by
    rw [missed_append (hstacked.before j b hy.period)] at hmissed
    exact h.within i j x y a b hx hy hnests hmissed
  above i j x y a b hx hy hnests hmissed := by
    rw [missed_append (hstacked.before j b hy.period)] at hmissed
    exact h.above i j x y a b hx hy hnests hmissed
  ends := h.ends

/-- The note of an end without an activation is no bar. -/
lemma strayEnd (h : Bars slots p) (index column : Nat) : Bars slots (p.strayEnd index column) := by
  have hat : ∀ {i x a}, (p.strayEnd index column).At i x a → p.At i x a := by
    rintro i x a ⟨hx, ha⟩
    rw [Progress.strayEnd, Array.getElem?_push] at hx
    split at hx
    · obtain rfl := Option.some.inj hx
      cases ha
    · exact ⟨hx, ha⟩
  exact ⟨h.row, fun i x a hx => h.begun i x a (hat hx),
    fun i j x y a b hx hy => h.within i j x y a b (hat hx) (hat hy),
    fun i j x y a b hx hy => h.above i j x y a b (hat hx) (hat hy),
    fun i j x y a b hx hy => h.ends i j x y a b (hat hx) (hat hy)⟩

/-- With a row all that wait begin at the same height. -/
lemma place (h : Bars slots p) (hstacked : Stacked count slots p) {height bottom : Rat}
    (hheight : p.cursor ≤ height) (hbottom : height ≤ bottom) (target : Option Nat) :
    Bars (slots ++ [slot]) (p.place height bottom target) := by
  have hat : ∀ {i x' a}, (p.place height bottom target).At i x' a →
      ∃ x, p.At i x a ∧ x' = { x with startY := p.top height i x } := by
    rintro i x' a ⟨hx', ha⟩
    rw [Progress.place, getElem?_begun, Option.map_eq_some_iff] at hx'
    obtain ⟨x, hx, rfl⟩ := hx'
    exact ⟨x, ⟨hx, ha⟩, rfl⟩
  have htop : ∀ y i x, (p.place height bottom target).top y i x = x.startY := fun y i x =>
    if_neg List.not_mem_nil
  constructor
  case row =>
    rintro row hrow
    obtain rfl := Option.some.inj hrow
    exact hbottom
  case begun =>
    intro i x' a hx' hopen _
    obtain ⟨x, hx, rfl⟩ := hat hx'
    exact ⟨⟨height, target⟩, rfl, h.top_le hheight hx hopen⟩
  case within =>
    intro i j x' y' a b hx' hy' hnests hmissed
    obtain ⟨x, hx, rfl⟩ := hat hx'
    obtain ⟨y, hy, rfl⟩ := hat hy'
    rw [missed_append (hstacked.before j b hy.period)] at hmissed
    rw [htop, htop]
    exact h.within_at hstacked hheight hx hy hnests hmissed
  case above =>
    intro i j x' y' a b hx' hy' hnests hmissed
    obtain ⟨x, hx, rfl⟩ := hat hx'
    obtain ⟨y, hy, rfl⟩ := hat hy'
    rw [missed_append (hstacked.before j b hy.period)] at hmissed
    rw [htop]
    exact h.above_at hstacked hheight hx hy hnests hmissed
  case ends =>
    intro i j x' y' a b hx' hy' hnests hclosed
    obtain ⟨x, hx, rfl⟩ := hat hx'
    obtain ⟨y, hy, rfl⟩ := hat hy'
    exact h.ends i j x y a b hx hy hnests hclosed

lemma exists_of_received {column : Nat} {y : Rat} (h : p.received column = some y) :
    ∃ row ∈ p.lastRow, row.y = y := by
  obtain ⟨row, hrow, hy⟩ := Option.bind_eq_some_iff.mp h
  rw [Option.ite_none_right_eq_some] at hy
  exact ⟨row, hrow, Option.some.inj hy.2⟩

/-- What is open in a column does not begin below an activation that is opened there. -/
lemma top_le_received (h : Bars slots p) (hstacked : Stacked count slots p) (hx : p.At i x a)
    (hopen : a.stop = none) : p.top p.cursor i x ≤ (p.received a.column).getD p.cursor := by
  cases hreceived : p.received a.column with
  | none => exact h.top_le (le_refl _) hx hopen
  | some y =>
      have hi : i ∉ p.pending := by
        intro hi
        obtain ⟨a', ha', -, -, -, hreceiver⟩ := (hstacked.waiting i).mp hi
        obtain rfl := Option.some.inj (hx.period.symm.trans ha')
        rw [List.take_length, ← hstacked.received_eq_none_iff, hreceived] at hreceiver
        cases hreceiver
      obtain ⟨row, hrow, hle⟩ := h.begun i x a hx hopen hi
      obtain ⟨row', hrow', rfl⟩ := exists_of_received hreceived
      obtain rfl := Option.mem_unique hrow hrow'
      rwa [top, if_neg hi]

lemma at_opened {index column : Nat} (hx : (p.opened index column).At i x a) :
    p.At i x a ∨ i = p.activations.size ∧ a.stop = none ∧ a.column = column ∧
      x.startY = (p.received column).getD p.cursor := by
  obtain ⟨hx, ha⟩ := hx
  rw [Progress.opened, Array.getElem?_push] at hx
  split at hx
  · next hi =>
      obtain rfl := Option.some.inj hx
      obtain rfl := Option.some.inj ha
      exact .inr ⟨hi, rfl, rfl, rfl⟩
  · exact .inl ⟨hx, ha⟩

lemma top_opened (hx : p.At i x a) (index column : Nat) :
    (p.opened index column).top p.cursor i x = p.top p.cursor i x := by
  have hne := (lt_size hx.period).ne
  rw [top, top, Progress.opened]
  cases p.received column <;> simp [hne]

lemma top_opened_size (hstacked : Stacked count slots p) {index column : Nat}
    (hstart : x.startY = (p.received column).getD p.cursor) :
    (p.opened index column).top p.cursor p.activations.size x =
      (p.received column).getD p.cursor := by
  rw [top, Progress.opened]
  cases hreceived : p.received column with
  | none => simp
  | some y => simp [(hstacked.size_notMem column).2, hstart, hreceived]

/-- An activation that is opened does not begin above those that are open in its column. -/
lemma opened (h : Bars slots p) (hstacked : Stacked count slots p) (hquiet : slot.isRow = false)
    {column : Nat} (hcolumn : column < count) :
    Bars (slots ++ [slot]) (p.opened slots.length column) := by
  have hnext := hstacked.opened hquiet hcolumn
  -- nothing is nested in the new one yet, and what it is nested in is open
  have hpair : ∀ {i j x y a b}, (p.opened slots.length column).At i x a →
      (p.opened slots.length column).At j y b → a.Nests b →
      p.At i x a ∧ (p.At j y b ∨ a.stop = none ∧ b.stop = none ∧
        p.top p.cursor i x ≤ (p.opened slots.length column).top p.cursor j y) := by
    intro i j x y a b hx hy hnests
    have hij := hnext.lt_of_nests hx.period hy.period hnests
    have hj := lt_size hy.period
    rw [Progress.opened, Array.size_push] at hj
    have hx' := (at_opened hx).resolve_right fun hi => by omega
    refine ⟨hx', (at_opened hy).imp_right ?_⟩
    rintro ⟨rfl, hstop, hac, hstart⟩
    have hopen := (hnext.nested i _ a b hx.period hy.period hnests).2 hstop
    refine ⟨hopen, hstop, ?_⟩
    rw [top_opened_size hstacked hstart, ← hac, ← hnests.1]
    exact h.top_le_received hstacked hx' hopen
  constructor
  case row => exact h.row
  case begun =>
    intro i x a hx hopen hi
    rw [hstacked.mem_pending_opened_iff, not_or] at hi
    rcases at_opened hx with hx | ⟨rfl, -, -, hstart⟩
    · exact h.begun i x a hx hopen hi.1
    · cases hreceived : p.received column with
      | none => exact absurd ⟨rfl, (hstacked.received_eq_none_iff column).mp hreceived⟩ hi.2
      | some y =>
          obtain ⟨row, hrow, rfl⟩ := exists_of_received hreceived
          rw [hreceived] at hstart
          exact ⟨row, hrow, hstart.le⟩
  case within =>
    intro i j x y a b hx hy hnests hmissed
    obtain ⟨hx', hy' | ⟨-, -, hle⟩⟩ := hpair hx hy hnests
    · rw [missed_append (hstacked.before j b hy'.period)] at hmissed
      calc (p.opened slots.length column).top p.cursor i x
          = p.top p.cursor i x := top_opened hx' _ _
        _ ≤ p.top p.cursor j y := h.within i j x y a b hx' hy' hnests hmissed
        _ = (p.opened slots.length column).top p.cursor j y := (top_opened hy' _ _).symm
    · exact (top_opened hx' _ _).trans_le hle
  case above =>
    intro i j x y a b hx hy hnests hmissed
    obtain ⟨hx', hy' | ⟨-, hstop, -⟩⟩ := hpair hx hy hnests
    · rw [missed_append (hstacked.before j b hy'.period)] at hmissed
      exact (h.above i j x y a b hx' hy' hnests hmissed).imp_right fun hle =>
        hle.trans_eq (top_opened hx' _ _).symm
    · obtain ⟨event, hevent, -⟩ := hmissed
      rw [hstop] at hevent
      cases hevent
  case ends =>
    intro i j x y a b hx hy hnests hclosed
    obtain ⟨hx', hy' | ⟨hopen, -, -⟩⟩ := hpair hx hy hnests
    · exact h.ends i j x y a b hx' hy' hnests hclosed
    · exact absurd hopen hclosed

/-- A bar that is closed has its least height and encloses those that are deeper in its column, and
the walk goes on below it. -/
lemma exists_closed {z : Activation Rat} {c : Period} (hz : p.At k z c) (index column : Nat)
    (rest : List Nat) :
    ∃ stop, (p.closed s index column k rest).cursor = max p.cursor stop ∧
      p.top p.cursor k z + s.config.sequence.activationMinHeight ≤ stop ∧
      (∀ j y b, p.At j y b → k < j → c.column = b.column → c.depth < b.depth → y.endY ≤ stop) ∧
      ∀ i x a, (p.closed s index column k rest).At i x a → i ≠ k ∧ p.At i x a ∨
        i = k ∧ a = { c with stop := some index } ∧ x.startY = p.top p.cursor k z ∧
          x.endY = stop := by
  set q := (p.roused k).popped column rest with hq
  set w : Activation Rat := { z with startY := p.top p.cursor k z } with hw
  have hlookup : ∀ i, q.activations[i]? = if k = i then
      p.activations[i]?.map fun x => { x with startY := p.top p.cursor i x }
      else p.activations[i]? :=
    fun i => getElem?_roused p k i
  have hroused : q.activations[k]? = some w := by
    rw [hlookup, if_pos rfl, hz.1, Option.map_some]
  refine ⟨q.endOf s k w p.floor, ?_, add_minHeight_le_endOf q k w p.floor, ?_, ?_⟩
  · rw [Progress.closed, ← hq, ended]
    simp only [hroused]
    rw [show q.cursor = p.cursor from cursor_roused p k]
  · intro j y b hy hkj hcolumn hdepth
    refine endY_le_endOf p.floor ?_ hkj ?_ ?_
    · rw [hlookup, if_neg hkj.ne, hy.1]
    · exact hz.column.1.trans (hcolumn.trans hy.column.1.symm)
    · rw [hy.column.2]
      exact hz.column.2.trans_lt hdepth
  · rintro i x a ⟨hx, ha⟩
    rw [Progress.closed, ← hq, getElem?_ended] at hx
    split at hx
    · next hk =>
        subst hk
        rw [hroused] at hx
        obtain rfl := Option.some.inj hx
        refine .inr ⟨rfl, ?_, rfl, rfl⟩
        obtain ⟨start, hstart, rfl⟩ := Option.map_eq_some_iff.mp hz.2
        rw [Activation.period?, Option.map_eq_some_iff] at ha
        obtain ⟨start', hstart', rfl⟩ := ha
        obtain rfl := Option.some.inj (hstart.symm.trans hstart')
        rfl
    · next hk =>
        rw [hlookup, if_neg hk] at hx
        exact .inl ⟨Ne.symm hk, hx, ha⟩

/-- Two nested activations after one was closed: it is neither of them, or the outer
one, or the inner one. -/
lemma nested_closed (slot : Slot Rat) (hstacked : Stacked count slots p) {column : Nat}
    {rest : List Nat} {c : Period} (hstack : p.running.getD column [] = k :: rest)
    (hc : p.period? k = some c) {q : Progress Rat}
    (hat : ∀ i x a, q.At i x a → i ≠ k ∧ p.At i x a ∨
      i = k ∧ a = { c with stop := some slots.length })
    (hx : q.At i x a) (hy : q.At j y b) (hnests : a.Nests b) :
    (i ≠ k ∧ j ≠ k ∧ p.At i x a ∧ p.At j y b ∧
      (Missed (slots ++ [slot]) a b ↔ Missed slots a b)) ∨
    (i = k ∧ j ≠ k ∧ p.At j y b ∧ c.Nests b ∧
      (Missed (slots ++ [slot]) a b ↔ Missed slots c b)) ∨
    (i ≠ k ∧ j = k ∧ p.At i x a ∧ a.Nests c ∧ a.stop = none ∧ ¬ Missed slots a c ∧
      (Missed (slots ++ [slot]) a b ↔ i ∈ p.pending)) := by
  obtain ⟨c', hc', hopen, -⟩ := (hstacked.running column k).mp (by simp [hstack])
  obtain rfl := Option.some.inj (hc.symm.trans hc')
  rcases hat i x a hx with ⟨hi, hx'⟩ | ⟨rfl, rfl⟩
  · rcases hat j y b hy with ⟨hj, hy'⟩ | ⟨rfl, rfl⟩
    · exact .inl ⟨hi, hj, hx', hy', missed_append (hstacked.before j b hy'.period) _⟩
    · -- what is around the closed one is open
      have hstop := (hstacked.nested i j a c hx'.period hc hnests).2 hopen
      refine .inr (.inr ⟨hi, rfl, hx', hnests, hstop, by simp [Missed, hopen], ?_⟩)
      rw [hstacked.waiting]
      simp [Missed, Period.waits_append (le_refl _), hx'.period, hstop]
  · rcases hat j y b hy with ⟨hj, hy'⟩ | ⟨rfl, rfl⟩
    · exact .inr (.inl ⟨rfl, hj, hy', ⟨hnests.1, hnests.2.1, by simp [hopen]⟩,
        missed_append (hstacked.before j b hy'.period) _⟩)
    · exact absurd hnests.2.1 (Nat.lt_irrefl _)

/-- The latest activation of a column is closed: it encloses what is nested in it, and lies above
those around it that still wait. -/
lemma closed (h : Bars slots p) (hstacked : Stacked count slots p) {column : Nat} {rest : List Nat}
    (hstack : p.running.getD column [] = k :: rest)
    (hheight : 0 < s.config.sequence.activationMinHeight) :
    Bars (slots ++ [slot]) (p.closed s slots.length column k rest) := by
  obtain ⟨c, hc, -⟩ := (hstacked.running column k).mp (by simp [hstack])
  obtain ⟨z, hz⟩ : ∃ z, p.At k z c := Option.bind_eq_some_iff.mp hc
  obtain ⟨stop, hcursor, hleast, hdeeper, hat⟩ := exists_closed (s := s) hz slots.length column rest
  have hpending :
      ∀ i, i ∈ (p.closed s slots.length column k rest).pending ↔ i ≠ k ∧ i ∈ p.pending := by
    intro i
    rw [pending_closed, hstacked.nodup.mem_erase_iff]
  have hlastRow : (p.closed s slots.length column k rest).lastRow = p.lastRow := lastRow_closed ..
  set q := p.closed s slots.length column k rest
  have hbelow : p.cursor ≤ q.cursor := hcursor ▸ le_max_left _ _
  have htop : ∀ y i x, i ≠ k → q.top y i x = p.top y i x := by
    intro y i x hi
    simp only [top, hpending, hi, ne_eq, not_false_eq_true, true_and]
  have hself : ∀ {x a}, q.At k x a →
      (∀ y, q.top y k x = p.top p.cursor k z) ∧ x.startY = p.top p.cursor k z ∧ x.endY = stop := by
    intro x a hx
    obtain ⟨-, -, hstart, hend⟩ := (hat k x a hx).resolve_left fun hk => hk.1 rfl
    exact ⟨fun y => by simp [top, hpending, hstart], hstart, hend⟩
  have hpair := fun {i j x y a b} (hx : q.At i x a) (hy : q.At j y b) =>
    nested_closed slot hstacked hstack hc
      (fun i x a hx => (hat i x a hx).imp_right fun hk => ⟨hk.1, hk.2.1⟩) hx hy
  constructor
  case row => exact fun row hrow => (h.row row (hlastRow ▸ hrow)).trans hbelow
  case begun =>
    intro i x a hx hstop hi
    rcases hat i x a hx with ⟨hne, hx⟩ | ⟨-, rfl, -⟩
    · rw [hlastRow]
      exact h.begun i x a hx hstop fun hmem => hi ((hpending i).mpr ⟨hne, hmem⟩)
    · cases hstop
  case within =>
    intro i j x y a b hx hy hnests hmissed
    rcases hpair hx hy hnests with ⟨hi, hj, hx', hy', hsame⟩ | ⟨rfl, hj, hy', hnests', hsame⟩ |
      ⟨hi, rfl, hx', hnests', -, hopen, hwaits⟩
    · rw [htop _ i x hi, htop _ j y hj]
      exact h.within_at hstacked hbelow hx' hy' hnests (hsame.not.mp hmissed)
    · rw [(hself hx).1, htop _ j y hj]
      exact (h.within i j z y c b hz hy' hnests' (hsame.not.mp hmissed)).trans (top_mono hbelow j y)
    · have hle := h.within i j x z a c hx' hz hnests' hopen
      rw [(hself hy).1, htop _ i x hi]
      rw [top, if_neg (hwaits.not.mp hmissed)] at hle ⊢
      exact hle
  case above =>
    intro i j x y a b hx hy hnests hmissed
    rcases hpair hx hy hnests with ⟨hi, -, hx', hy', hsame⟩ | ⟨rfl, -, hy', hnests', hsame⟩ |
      ⟨hi, rfl, -, -, -, -, hwaits⟩
    · obtain ⟨hlt, hle⟩ := h.above i j x y a b hx' hy' hnests (hsame.mp hmissed)
      rw [htop _ i x hi]
      exact ⟨hlt, hle.trans (top_mono hbelow i x)⟩
    · rw [(hself hx).1]
      exact h.above i j z y c b hz hy' hnests' (hsame.mp hmissed)
    · obtain ⟨-, hstart, hend⟩ := hself hy
      rw [htop _ i x hi, top, if_pos (hwaits.mp hmissed), hstart, hend, hcursor]
      exact ⟨by linarith, le_max_right _ _⟩
  case ends =>
    intro i j x y a b hx hy hnests hclosed
    rcases hpair hx hy hnests with ⟨-, -, hx', hy', -⟩ | ⟨rfl, -, hy', hnests', -⟩ |
      ⟨-, rfl, -, -, hopen, -⟩
    · exact h.ends i j x y a b hx' hy' hnests hclosed
    · rw [(hself hx).2.2]
      exact hdeeper j y b hy' (hstacked.lt_of_nests hc hy'.period hnests') hnests'.1
        (hstacked.nested i j c b hc hy'.period hnests').1
    · exact absurd hopen hclosed

/-- At the start there are no bars. -/
lemma start (roster : Roster Rat) : Bars [] (State.start roster).progress := by
  have hat : ∀ i x a, ¬ (State.start roster).progress.At i x a := by
    rintro i x a ⟨hx, -⟩
    cases hx
  exact ⟨by simp [State.start, State.progress], fun i x a hx => absurd hx (hat i x a),
    fun i j x y a b hx => absurd hx (hat i x a), fun i j x y a b hx => absurd hx (hat i x a),
    fun i j x y a b hx => absurd hx (hat i x a)⟩

/-- **Every event keeps the bars in place.** -/
lemma step (hs : s.config.sequence.Sensible) {p' : Progress Rat} (h : Bars slots p)
    (hstacked : Stacked count slots p) (hstep : Step s count slots.length p slot p') :
    Bars (slots ++ [slot]) p' := by
  have hspacing : 0 < s.config.sequence.eventSpacing := hs.eventSpacing.2
  cases hstep with
  | row habove hbelow =>
      exact h.place hstacked (by linarith) (by linarith) _
  | nothing => exact h.quiet hstacked
  | opens hcolumn => exact h.opened hstacked rfl hcolumn
  | strayEnds => exact (h.quiet hstacked).strayEnd _ _
  | closes _ hrunning => exact h.closed hstacked hrunning hs.activationMinHeight.2

end Bars

/-! ### The end of the walk -/

/-- Ending activations leaves the others, and of those it ends it changes the ends. -/
lemma exists_of_foldl_ended {ks : List Nat} {x' : Activation Rat}
    (h : (ks.foldl (fun q k => q.ended s k q.cursor none) p).activations[i]? = some x') :
    ∃ x, p.activations[i]? = some x ∧ (i ∉ ks → x' = x) ∧
      (i ∈ ks → x' = { x with endY := x'.endY, endEvent := none }) := by
  induction ks generalizing p with
  | nil => exact ⟨x', h, fun _ => rfl, fun hi => absurd hi List.not_mem_nil⟩
  | cons k ks ih =>
      obtain ⟨w, hw, hsame, hended⟩ := ih h
      rw [getElem?_ended] at hw
      split at hw
      · next hk =>
          obtain ⟨x, hx, rfl⟩ := Option.map_eq_some_iff.mp hw
          refine ⟨x, hx, fun hi => absurd (hk ▸ List.mem_cons_self) hi, fun _ => ?_⟩
          by_cases hi : i ∈ ks
          · exact hended hi
          · rw [hsame hi]
      · next hk =>
          refine ⟨w, hw, fun hi => hsame fun hmem => hi (List.mem_cons_of_mem _ hmem), fun hi => ?_⟩
          exact hended ((List.mem_cons.mp hi).resolve_left (Ne.symm hk))

/-- Ending activations, those nested in others first, lets every one enclose
what is nested in it. -/
lemma endY_foldl_ended {R : Nat → Nat → Prop} {ks : List Nat} (hks : ks.Pairwise fun k l => ¬ R k l)
    (hdeeper : ∀ i j x y, R i j → p.activations[i]? = some x → p.activations[j]? = some y →
      i < j ∧ x.column = y.column ∧ x.depth < y.depth)
    (hdone : ∀ i j x y, R i j → p.activations[i]? = some x → p.activations[j]? = some y →
      i ∉ ks → j ∉ ks ∧ y.endY ≤ x.endY) {x y : Activation Rat} (hnests : R i j)
    (hx : (ks.foldl (fun q k => q.ended s k q.cursor none) p).activations[i]? = some x)
    (hy : (ks.foldl (fun q k => q.ended s k q.cursor none) p).activations[j]? = some y) :
    y.endY ≤ x.endY := by
  induction ks generalizing p with
  | nil => exact (hdone i j x y hnests hx hy List.not_mem_nil).2
  | cons k ks ih =>
      obtain ⟨hk, hks⟩ := List.pairwise_cons.mp hks
      have hended : ∀ {i x}, (p.ended s k p.cursor none).activations[i]? = some x →
          ∃ w, p.activations[i]? = some w ∧ w.column = x.column ∧ w.depth = x.depth ∧
            (i = k → x.endY = p.endOf s k w p.cursor) ∧ (i ≠ k → x.endY = w.endY) := by
        intro i x hx
        rw [getElem?_ended] at hx
        split at hx
        · next hi =>
            obtain ⟨w, hw, rfl⟩ := Option.map_eq_some_iff.mp hx
            exact ⟨w, hw, rfl, rfl, fun _ => rfl, fun hne => absurd hi.symm hne⟩
        · next hi => exact ⟨x, hx, rfl, rfl, fun hik => absurd hik.symm hi, fun _ => rfl⟩
      refine ih hks (fun i j x y hnests hx hy => ?_) (fun i j x y hnests hx hy hi => ?_) hx hy
      · obtain ⟨w, hw, hcolumn, hdepth, -⟩ := hended hx
        obtain ⟨v, hv, hcolumn', hdepth', -⟩ := hended hy
        rw [← hcolumn, ← hcolumn', ← hdepth, ← hdepth']
        exact hdeeper i j w v hnests hw hv
      · obtain ⟨w, hw, -, -, hsame, hother⟩ := hended hx
        obtain ⟨v, hv, -, -, -, hother'⟩ := hended hy
        obtain ⟨hij, hcolumn, hdepth⟩ := hdeeper i j w v hnests hw hv
        by_cases hik : i = k
        · subst hik
          refine ⟨fun hj => hk j hj hnests, ?_⟩
          rw [hother' hij.ne', hsame rfl]
          exact endY_le_endOf p.cursor hv hij hcolumn hdepth
        · obtain ⟨hj, hle⟩ := hdone i j w v hnests hw hv (by simp [hik, hi])
          rw [List.mem_cons, not_or] at hj
          rw [hother' hj.1, hother hik]
          exact ⟨hj.2, hle⟩

/-- After the last event bars begin where they would begin, and keep their periods. -/
lemma exists_of_finished (hstacked : Stacked count slots p) {x' : Activation Rat}
    (h : (p.finished s).activations[i]? = some x') (ha : x'.period? = some a) :
    ∃ x, p.At i x a ∧ x'.startY = p.top p.cursor i x ∧ (a.stop ≠ none → x'.endY = x.endY) := by
  obtain ⟨w, hw, hsame, hended⟩ := exists_of_foldl_ended h
  obtain ⟨x, hx, rfl⟩ := Option.map_eq_some_iff.mp ((getElem?_begun p p.cursor i).symm.trans hw)
  by_cases hi : i ∈ p.running.toList.flatten
  · obtain ⟨c, hc, hopen⟩ := hstacked.mem_open_iff.mp hi
    rw [period?, hx, Option.bind_some] at hc
    obtain ⟨start, hstart, rfl⟩ := Option.map_eq_some_iff.mp hc
    have hperiod : x'.period? = x.period? := by
      rw [hended hi, Activation.period?, Activation.period?, show x.endEvent = none from hopen]
    refine ⟨x, ⟨hx, hperiod ▸ ha⟩, by rw [hended hi], fun hstop => absurd ?_ hstop⟩
    rw [hperiod, hc] at ha
    exact Option.some.inj ha ▸ hopen
  · rw [hsame hi] at ha ⊢
    exact ⟨x, ⟨hx, ha⟩, rfl, fun _ => rfl⟩

/-- After the last event every bar ends below those that are nested in it. -/
lemma endY_finished (hstacked : Stacked count slots p) (h : Bars slots p) {x' y' : Activation Rat}
    (hx' : (p.finished s).activations[i]? = some x')
    (hy' : (p.finished s).activations[j]? = some y')
    (ha : x'.period? = some a) (hb : y'.period? = some b) (hnests : a.Nests b) :
    y'.endY ≤ x'.endY := by
  obtain ⟨x, hx, -⟩ := exists_of_finished hstacked hx' ha
  obtain ⟨y, hy, -⟩ := exists_of_finished hstacked hy' hb
  have hbegun : ∀ {i z}, (p.begun p.cursor)[i]? = some z → ∀ a, p.period? i = some a →
      ∃ x, p.At i x a ∧ z.column = a.column ∧ z.depth = a.depth ∧ z.endY = x.endY := by
    intro i z hz a ha
    obtain ⟨x, hx, rfl⟩ := Option.map_eq_some_iff.mp ((getElem?_begun p p.cursor i).symm.trans hz)
    have hat : p.At i x a := ⟨hx, by rwa [period?, hx, Option.bind_some] at ha⟩
    exact ⟨x, hat, hat.column.1, hat.column.2, rfl⟩
  refine endY_foldl_ended (R := fun i j => ∃ a b, p.period? i = some a ∧ p.period? j = some b ∧
    a.Nests b) ?_ ?_ ?_ ⟨a, b, hx.period, hy.period, hnests⟩ hx' hy'
  · refine hstacked.pairwise_open.imp ?_
    rintro k l hkl ⟨a, b, ha, hb, hnests⟩
    exact hkl a b ha hb hnests
  · rintro i j z w ⟨a, b, ha, hb, hnests⟩ hz hw
    obtain ⟨-, -, hcolumn, hdepth, -⟩ := hbegun hz a ha
    obtain ⟨-, -, hcolumn', hdepth', -⟩ := hbegun hw b hb
    rw [hcolumn, hcolumn', hdepth, hdepth']
    exact ⟨hstacked.lt_of_nests ha hb hnests, hnests.1, (hstacked.nested i j a b ha hb hnests).1⟩
  · rintro i j z w ⟨a, b, ha, hb, hnests⟩ hz hw hi
    obtain ⟨x, hx, -, -, hend⟩ := hbegun hz a ha
    obtain ⟨y, hy, -, -, hend'⟩ := hbegun hw b hb
    -- what is not open any more was closed by an event, and what is nested in it before
    have hclosed : a.stop ≠ none := fun hstop => hi (hstacked.mem_open_iff.mpr ⟨a, ha, hstop⟩)
    refine ⟨fun hj => ?_, by rw [hend, hend']; exact h.ends i j x y a b hx hy hnests hclosed⟩
    obtain ⟨b', hb', hstop⟩ := hstacked.mem_open_iff.mp hj
    obtain rfl := Option.some.inj (hb.symm.trans hb')
    exact hclosed ((hstacked.nested i j a b ha hb hnests).2 hstop)

end Progress

/-! ### Finished bars -/

namespace Timeline

/-- Where activations begin and end does not change which of them wait. -/
lemma waits_map_settle (activations : Array (Activation Rat)) (slots : List (Slot Rat)) (a : Period)
    (event : Nat) : a.Waits (slots.map (settle activations)) event ↔ a.Waits slots event := by
  have hsettle : ∀ slot, (settle activations slot).isRow = slot.isRow ∧
      (settle activations slot).kind = slot.kind := by
    intro slot
    rw [settle]
    split <;> exact ⟨rfl, rfl⟩
  have hreceiver : ∀ slots, Slot.receiver? (slots.map (settle activations)) =
      Slot.receiver? slots := by
    intro slots
    simp only [Slot.receiver?, List.filter_map, List.getLast?_map, Option.bind_map,
      Function.comp_def, hsettle]
  rw [Period.Waits, Period.Waits, ← List.map_take, ← List.map_drop, hreceiver]
  simp only [List.forall_mem_map, hsettle]

/-- The bars of a finished timeline come from a walk over its events. -/
lemma exists_bars (hs : s.config.sequence.Sensible) (ht : s.MeasuresLengths) (roster : Roster Rat)
    (m : Model) :
    ∃ slots p, Progress.Stacked roster.length slots p ∧ Progress.Bars slots p ∧
      (ofModel s roster m).activations = (p.finished s).activations ∧
      ∀ a event, Period.Waits a (ofModel s roster m).slots event ↔ a.Waits slots event := by
  have hrun := State.run_induction hs ht roster
    (P := fun slots p => Progress.Stacked roster.length slots p ∧ Progress.Bars slots p)
    (fun slots p slot p' h hstep => ⟨h.1.step hstep, h.2.step hs h.1 hstep⟩) m.events
    ⟨Progress.Stacked.start roster, Progress.Bars.start roster⟩
  rw [List.nil_append, List.length_nil] at hrun
  exact ⟨_, _, hrun.1, hrun.2, State.activations_finish _, waits_map_settle _ _⟩

/-- **A nested bar lies within the outer one exactly if it was not closed while the outer one still
waited for a row.**  Coordinates are exact.  If it was, it lies above the outer one. -/
theorem nested_bars_enclosed_unless_waiting {s : Setting Rat} (hvalid : s.config.validate = .ok ())
    (ht : s.MeasuresLengths) (m : Model) :
    ∃ t, build s (Roster.ofModel s m) m = .ok t ∧
      ∀ outer ∈ t.activations, ∀ inner ∈ t.activations,
      ∀ a ∈ outer.period?, ∀ b ∈ inner.period?, a.Nests b →
        ((outer.startY ≤ inner.startY ∧ inner.endY ≤ outer.endY) ↔
          ∀ event ∈ b.stop, ¬ a.Waits t.slots event) ∧
        ((∃ event ∈ b.stop, a.Waits t.slots event) → inner.endY ≤ outer.startY) := by
  have hs := Config.sensible_sequence hvalid
  have hspacing : 0 < s.config.sequence.eventSpacing := hs.eventSpacing.2
  refine ⟨_, build_eq_ok hs ht _ m fun y _ _ => by linarith, ?_⟩
  intro outer houter inner hinner a ha b hb hnests
  obtain ⟨slots, p, hstacked, hbars, hactivations, hwaits⟩ :=
    exists_bars hs ht (Roster.ofModel s m) m
  rw [hactivations] at houter hinner
  obtain ⟨i, hi⟩ := Array.mem_iff_getElem?.mp houter
  obtain ⟨j, hj⟩ := Array.mem_iff_getElem?.mp hinner
  obtain ⟨x, hx, hstart, -⟩ := Progress.exists_of_finished hstacked hi ha
  obtain ⟨y, hy, hstart', hend⟩ := Progress.exists_of_finished hstacked hj hb
  have hends := Progress.endY_finished hstacked hbars hi hj ha hb hnests
  simp only [hwaits]
  by_cases hmissed : Progress.Missed slots a b
  · obtain ⟨hlt, hle⟩ := hbars.above_at hstacked (le_refl _) hx hy hnests hmissed
    obtain ⟨event, hevent, hwaiting⟩ := id hmissed
    rw [← hend (Option.ne_none_iff_exists'.mpr ⟨event, hevent⟩), ← hstart] at hle
    rw [← hend (Option.ne_none_iff_exists'.mpr ⟨event, hevent⟩), ← hstart'] at hlt
    refine ⟨⟨fun henclosed => ?_, fun hnone => absurd hwaiting (hnone event hevent)⟩, fun _ => hle⟩
    linarith [henclosed.1]
  · have hle := hbars.within i j x y a b hx hy hnests hmissed
    rw [← hstart, ← hstart'] at hle
    refine ⟨⟨fun _ event hevent hwaiting => hmissed ⟨event, hevent, hwaiting⟩,
      fun _ => ⟨hle, hends⟩⟩, fun h => absurd h hmissed⟩

/-- A participant that is called twice before it returns has one bar within the other. -/
theorem bar_within_the_bar_of_a_call :
    let s : Setting Rat := ⟨.standard, fun _ _ => ⟨10, 5⟩⟩
    let m : Model :=
      { participants := [{ id := "A" }, { id := "B" }]
        events := [.message { source := "A", target := some "B" }, .activate "B", .activate "B",
          .deactivate "B", .deactivate "B"] }
    s.config.validate = .ok () ∧ s.MeasuresLengths ∧
      ∃ t, build s (Roster.ofModel s m) m = .ok t ∧
        ∃ outer ∈ t.activations, ∃ inner ∈ t.activations,
          (∃ a ∈ outer.period?, ∃ b ∈ inner.period?, a.Nests b ∧ b.stop = some 3) ∧
          outer.startY ≤ inner.startY ∧ inner.endY ≤ outer.endY := by
  intro s m
  have hvalid : s.config.validate = .ok () := by cbv
  have hlengths : s.MeasuresLengths := fun _ _ =>
    (by decide : (0 : Rat) ≤ 10 ∧ (0 : Rat) ≤ 5)
  obtain ⟨t, hbuild, hbars⟩ := nested_bars_enclosed_unless_waiting hvalid hlengths m
  have hactivations : (ofModel s (Roster.ofModel s m) m).activations =
      #[⟨1, 0, 45, 53, some 1, some 4⟩, ⟨1, 1, 45, 53, some 2, some 3⟩] := by cbv
  have hreceiver : Slot.receiver? ((ofModel s (Roster.ofModel s m) m).slots.take 3) = some 1 := by
    cbv
  rw [(build_eq_ok_iff.mp hbuild).1] at hactivations hreceiver
  have houter : ⟨1, 0, 45, 53, some 1, some 4⟩ ∈ t.activations := by simp [hactivations]
  have hinner : ⟨1, 1, 45, 53, some 2, some 3⟩ ∈ t.activations := by simp [hactivations]
  refine ⟨hvalid, hlengths, t, hbuild, _, houter, _, hinner,
    ⟨_, rfl, _, rfl, by decide, rfl⟩, ?_⟩
  refine (hbars _ houter _ hinner _ rfl _ rfl (by decide)).1.mpr fun event hevent hwaits => ?_
  obtain rfl := Option.some.inj hevent
  exact hwaits.2.2 hreceiver

/-- **A nested bar can lie above the outer one.**  The inner activation is opened and closed before
the first row, and the outer one begins with that row. -/
theorem nested_bar_above_the_outer_one :
    let s : Setting Rat := ⟨.standard, fun _ _ => ⟨10, 5⟩⟩
    let m : Model :=
      { participants := [{ id := "A" }, { id := "B" }]
        events := [.activate "A", .activate "A", .deactivate "A",
          .message { source := "A", target := some "B" }, .deactivate "A"] }
    s.config.validate = .ok () ∧ s.MeasuresLengths ∧
      ∃ t, build s (Roster.ofModel s m) m = .ok t ∧
        ∃ outer ∈ t.activations, ∃ inner ∈ t.activations,
          (∃ a ∈ outer.period?, ∃ b ∈ inner.period?, a.Nests b) ∧
          ¬ (outer.startY ≤ inner.startY ∧ inner.endY ≤ outer.endY) := by
  intro s m
  have hvalid : s.config.validate = .ok () := by cbv
  have hlengths : s.MeasuresLengths := fun _ _ =>
    (by decide : (0 : Rat) ≤ 10 ∧ (0 : Rat) ≤ 5)
  have hs := Config.sensible_sequence hvalid
  have hspacing : 0 < s.config.sequence.eventSpacing := hs.eventSpacing.2
  have hactivations : (ofModel s (Roster.ofModel s m) m).activations =
      #[⟨0, 0, 53, 61, some 0, some 4⟩, ⟨0, 1, 21, 29, some 1, some 2⟩] := by cbv
  refine ⟨hvalid, hlengths, _, build_eq_ok hs hlengths _ m fun y _ _ => by linarith,
    ⟨0, 0, 53, 61, some 0, some 4⟩, by simp [hactivations],
    ⟨0, 1, 21, 29, some 1, some 2⟩, by simp [hactivations], ⟨_, rfl, _, rfl, by decide⟩, ?_⟩
  norm_num

end Timeline

end Drafting.Sequence
