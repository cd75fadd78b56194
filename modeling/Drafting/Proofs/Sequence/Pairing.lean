import Mathlib
import Drafting.Proofs.Sequence.Brackets

/-!
Which stop ends which start.

The entries of a list may set marks.  A stop ends the start before it that leaves only
matched marks in between, and a start that finds no such stop stays open.  Entries that set
no mark have no part in this.

* `Mark.Pairs`, `Mark.openStarts`: a start with the stop that ends it, and the starts that are open
  before an entry.
* `Mark.stack`: the open starts, kept entry by entry.
* `Mark.getElem?_stack`: a start is in the stack under as many as are open above it.
* `Mark.pairs_iff_head?`, `Mark.openStarts_eq`: a stop ends the top of the stack, and the
  stack holds what is open.
* `Mark.pairs_iff_rank`: only the marks count, not the entries between them.
-/

namespace Drafting.Sequence.Mark

open scoped List

variable {β : Type} (f : β → Option Mark) (xs : List β)

/-- The mark that an entry sets. -/
def sets (i : Nat) : Option Mark := xs[i]?.bind f

/-- The marks strictly between two entries. -/
def between (i j : Nat) : List Mark := ((xs.take j).drop (i + 1)).filterMap f

/-- A start and the stop that ends it: the marks between them are matched. -/
structure Pairs (i j : Nat) : Prop where
  lt : i < j
  start : sets f xs i = some start
  stop : sets f xs j = some stop
  matched : Matched (between f xs i j)

instance decidableMatched (w : List Mark) : Decidable (Matched w) :=
  decidable_of_iff _ matched_iff.symm

instance decidablePairs (i j : Nat) : Decidable (Pairs f xs i j) :=
  decidable_of_iff (i < j ∧ sets f xs i = some start ∧ sets f xs j = some stop ∧
      Matched (between f xs i j))
    ⟨fun h => ⟨h.1, h.2.1, h.2.2.1, h.2.2.2⟩, fun h => ⟨h.lt, h.start, h.stop, h.matched⟩⟩

/-- The starts before an entry that no stop before it ends, in their order. -/
def openStarts (n : Nat) : List Nat :=
  (List.range n).filter fun i => sets f xs i = some start ∧ ∀ j < n, ¬ Pairs f xs i j

/-- The starts that are open before an entry, the latest first. -/
def stack : Nat → List Nat
  | 0 => []
  | n + 1 =>
    match sets f xs n with
    | none => stack n
    | some start => n :: stack n
    | some stop => (stack n).tail

variable {f xs} {i j n : Nat}

/-! ### The stack -/

lemma stack_of_none (h : sets f xs n = none) : stack f xs (n + 1) = stack f xs n := by
  simp only [stack, h]

lemma stack_of_start (h : sets f xs n = some start) : stack f xs (n + 1) = n :: stack f xs n := by
  simp only [stack, h]

lemma stack_of_stop (h : sets f xs n = some stop) : stack f xs (n + 1) = (stack f xs n).tail := by
  simp only [stack, h]

lemma between_succ (h : i < n) :
    between f xs i (n + 1) = between f xs i n ++ (sets f xs n).toList := by
  rw [between, between, sets, List.take_add_one, List.drop_append, List.filterMap_append]
  congr 1
  cases hn : xs[n]? with
  | none => simp
  | some x =>
      have hlength : (xs.take n).length = n := by
        rw [List.length_take, Nat.min_eq_left (List.getElem?_eq_some_iff.mp hn).1.le]
      rw [hlength, Nat.sub_eq_zero_of_le h]
      cases hx : f x <;> simp [hx]

lemma between_self (n : Nat) : between f xs n (n + 1) = [] := by
  rw [between, List.drop_eq_nil_of_le (List.length_take_le _ _), List.filterMap_nil]

/-- What a further mark leaves over. -/
lemma loose_append_singleton (w : List Mark) (mark : Mark) :
    looseStops (w ++ [mark]) = looseStops w + (looseStops [mark] - looseStarts w) ∧
      looseStarts (w ++ [mark]) = looseStarts w - looseStops [mark] + looseStarts [mark] := by
  have hstops := looseStops_append_sub 0 w [mark]
  have hstarts := openAfter_append 0 w [mark]
  simp only [openAfter, Nat.zero_sub, Nat.zero_add, Nat.sub_zero] at hstops hstarts
  exact ⟨hstops, hstarts⟩

/-- What an entry with a mark leaves over after an earlier one. -/
lemma loose_between_succ {mark : Mark} (hn : sets f xs n = some mark) (hi : i < n) :
    looseStops (between f xs i (n + 1)) =
        looseStops (between f xs i n) + (looseStops [mark] - looseStarts (between f xs i n)) ∧
      looseStarts (between f xs i (n + 1)) =
        looseStarts (between f xs i n) - looseStops [mark] + looseStarts [mark] := by
  rw [between_succ hi, hn]
  exact loose_append_singleton _ mark

/-- An entry without a mark is not between any two. -/
lemma between_succ_of_none (hn : sets f xs n = none) (hi : i < n) :
    between f xs i (n + 1) = between f xs i n := by
  rw [between_succ hi, hn, Option.toList_none, List.append_nil]

/-- **A start is in the stack under as many starts as are open above it.** -/
lemma getElem?_stack {k : Nat} :
    (stack f xs n)[k]? = some i ↔ i < n ∧ sets f xs i = some start ∧
      looseStops (between f xs i n) = 0 ∧ looseStarts (between f xs i n) = k := by
  induction n generalizing k with
  | zero => simp [stack]
  | succ n ih =>
      rw [Nat.lt_succ_iff_lt_or_eq]
      cases hn : sets f xs n with
      | none =>
          rw [stack_of_none hn, ih]
          constructor
          · rintro ⟨hi, h⟩
            rw [between_succ_of_none hn hi]
            exact ⟨Or.inl hi, h⟩
          · rintro ⟨hi | rfl, hstart, h⟩
            · rw [between_succ_of_none hn hi] at h
              exact ⟨hi, hstart, h⟩
            · cases hn.symm.trans hstart
      | some mark =>
          have hloose := fun i (hi : i < n) => loose_between_succ hn hi
          cases mark with
          | start =>
              rw [stack_of_start hn]
              simp only [looseStops, looseStarts, if_true] at hloose
              cases k with
              | zero =>
                  -- the new start is on top, and every other one has it above
                  rw [List.getElem?_cons_zero, Option.some.injEq]
                  constructor
                  · rintro rfl
                    simp [hn, between_self, looseStops, looseStarts]
                  · rintro ⟨hi | rfl, -, -, h⟩
                    · have := (hloose i hi).2
                      omega
                    · rfl
              | succ k =>
                  rw [List.getElem?_cons_succ, ih]
                  constructor
                  · rintro ⟨hi, hstart, h⟩
                    have := hloose i hi
                    exact ⟨Or.inl hi, hstart, by omega, by omega⟩
                  · rintro ⟨hi | rfl, hstart, h⟩
                    · have := hloose i hi
                      exact ⟨hi, hstart, by omega, by omega⟩
                    · simp [between_self, looseStarts] at h
          | stop =>
              rw [stack_of_stop hn, List.getElem?_tail, ih]
              simp only [looseStops, looseStarts] at hloose
              constructor
              · rintro ⟨hi, hstart, h⟩
                have := hloose i hi
                exact ⟨Or.inl hi, hstart, by omega, by omega⟩
              · rintro ⟨hi | rfl, hstart, h⟩
                · have := hloose i hi
                  exact ⟨hi, hstart, by omega, by omega⟩
                · cases hn.symm.trans hstart

/-- **A stop ends the top of the stack.** -/
lemma pairs_iff_head? :
    Pairs f xs i j ↔ sets f xs j = some stop ∧ (stack f xs j).head? = some i := by
  rw [List.head?_eq_getElem?, getElem?_stack, ← matched_iff]
  exact ⟨fun h => ⟨h.stop, h.lt, h.start, h.matched⟩, fun h => ⟨h.2.1, h.2.2.1, h.1, h.2.2.2⟩⟩

lemma lt_of_mem_stack (h : i ∈ stack f xs n) : i < n ∧ sets f xs i = some start := by
  obtain ⟨k, hk⟩ := List.mem_iff_getElem?.mp h
  obtain ⟨hi, hstart, -⟩ := getElem?_stack.mp hk
  exact ⟨hi, hstart⟩

lemma stack_pairwise (n : Nat) : (stack f xs n).Pairwise (· > ·) := by
  induction n with
  | zero => exact .nil
  | succ n ih =>
      cases hn : sets f xs n with
      | none => rwa [stack_of_none hn]
      | some mark =>
          cases mark with
          | start =>
              rw [stack_of_start hn]
              exact .cons (fun i hi => (lt_of_mem_stack hi).1) ih
          | stop =>
              rw [stack_of_stop hn]
              exact ih.sublist (List.tail_sublist _)

/-- What lies under a start is earlier. -/
lemma lt_of_stack_cons {rest : List Nat} (h : stack f xs n = i :: rest) (hj : j ∈ rest) :
    j < i := by
  have hpairwise : (stack f xs n).Pairwise (· > ·) := stack_pairwise n
  rw [h, List.pairwise_cons] at hpairwise
  exact hpairwise.1 j hj

/-- Only the top is not under the top. -/
lemma mem_tail_stack :
    i ∈ (stack f xs n).tail ↔ i ∈ stack f xs n ∧ (stack f xs n).head? ≠ some i := by
  cases hstack : stack f xs n with
  | nil => simp
  | cons top rest =>
      rw [List.tail_cons, List.mem_cons, List.head?_cons, Ne, Option.some.injEq]
      constructor
      · exact fun hi => ⟨Or.inr hi, (lt_of_stack_cons hstack hi).ne'⟩
      · rintro ⟨rfl | hi, hne⟩
        · exact absurd rfl hne
        · exact hi

/-- The stack holds the starts that no stop has ended. -/
lemma mem_stack :
    i ∈ stack f xs n ↔ i < n ∧ sets f xs i = some start ∧ ∀ j < n, ¬ Pairs f xs i j := by
  induction n with
  | zero => simp [stack]
  | succ n ih =>
      rw [Nat.forall_lt_succ_right, Nat.lt_succ_iff_lt_or_eq]
      cases hn : sets f xs n with
      | none =>
          have hpairs : ¬ Pairs f xs i n := fun h => by cases hn.symm.trans h.stop
          rw [stack_of_none hn, ih]
          constructor
          · exact fun h => ⟨Or.inl h.1, h.2.1, h.2.2, hpairs⟩
          · rintro ⟨hi | rfl, hstart, h, -⟩
            · exact ⟨hi, hstart, h⟩
            · cases hn.symm.trans hstart
      | some mark =>
          cases mark with
          | start =>
              have hpairs : ¬ Pairs f xs i n := fun h => by cases hn.symm.trans h.stop
              rw [stack_of_start hn, List.mem_cons, ih]
              constructor
              · rintro (rfl | h)
                · exact ⟨Or.inr rfl, hn, fun j hj h => absurd h.lt (by omega), hpairs⟩
                · exact ⟨Or.inl h.1, h.2.1, h.2.2, hpairs⟩
              · rintro ⟨hi | rfl, hstart, h, -⟩
                · exact Or.inr ⟨hi, hstart, h⟩
                · exact Or.inl rfl
          | stop =>
              rw [stack_of_stop hn, pairs_iff_head?, mem_tail_stack, ih]
              constructor
              · rintro ⟨⟨hi, hstart, h⟩, hne⟩
                exact ⟨Or.inl hi, hstart, h, fun hpairs => hne hpairs.2⟩
              · rintro ⟨hi | rfl, hstart, h, hne⟩
                · exact ⟨⟨hi, hstart, h⟩, fun htop => hne ⟨hn, htop⟩⟩
                · cases hn.symm.trans hstart

lemma mem_openStarts :
    i ∈ openStarts f xs n ↔ i < n ∧ sets f xs i = some start ∧ ∀ j < n, ¬ Pairs f xs i j := by
  rw [openStarts, List.mem_filter, List.mem_range, decide_eq_true_eq]

/-- An entry that does not end a start leaves its known end as it is. -/
lemma eq_some_iff_succ {stop : Option Nat} (h : ∀ j, stop = some j ↔ j < n ∧ Pairs f xs i j)
    (hnot : ¬ Pairs f xs i n) (j : Nat) : stop = some j ↔ j < n + 1 ∧ Pairs f xs i j := by
  rw [h, Nat.lt_succ_iff_lt_or_eq]
  constructor
  · exact fun hj => ⟨Or.inl hj.1, hj.2⟩
  · rintro ⟨hj | rfl, hpairs⟩
    · exact ⟨hj, hpairs⟩
    · exact absurd hpairs hnot

/-- **The stack holds what is open, the latest first.** -/
lemma openStarts_eq (n : Nat) : openStarts f xs n = (stack f xs n).reverse := by
  have hopen : (openStarts f xs n).Pairwise (· < ·) :=
    List.pairwise_lt_range.sublist List.filter_sublist
  have hstack : (stack f xs n).reverse.Pairwise (· < ·) :=
    List.pairwise_reverse.mpr (stack_pairwise n)
  refine List.Perm.eq_of_pairwise' hopen hstack ?_
  rw [List.perm_ext_iff_of_nodup (hopen.imp fun h => h.ne) (hstack.imp fun h => h.ne)]
  intro i
  rw [mem_openStarts, List.mem_reverse, mem_stack]

lemma length_openStarts (n : Nat) : (openStarts f xs n).length = (stack f xs n).length := by
  rw [openStarts_eq, List.length_reverse]

lemma getLast?_openStarts (n : Nat) : (openStarts f xs n).getLast? = (stack f xs n).head? := by
  rw [openStarts_eq, List.getLast?_reverse]

/-- Under a start lies what was open before it. -/
lemma stack_cons {rest : List Nat} (h : stack f xs n = i :: rest) : rest = stack f xs i := by
  induction n using Nat.strong_induction_on generalizing i rest with
  | _ n ih =>
      cases n with
      | zero => cases h
      | succ n =>
          cases hn : sets f xs n with
          | none => exact ih n n.lt_succ_self (stack_of_none hn ▸ h)
          | some mark =>
              cases mark with
              | start =>
                  rw [stack_of_start hn, List.cons.injEq] at h
                  exact h.1 ▸ h.2.symm
              | stop =>
                  rw [stack_of_stop hn] at h
                  cases hstack : stack f xs n with
                  | nil => simp [hstack] at h
                  | cons top below =>
                      have htop := (lt_of_mem_stack (hstack ▸ List.mem_cons_self)).1
                      rw [hstack, List.tail_cons, ih n n.lt_succ_self hstack] at h
                      exact ih top (htop.trans n.lt_succ_self) h

lemma drop_stack {k : Nat} (h : (stack f xs n)[k]? = some i) :
    (stack f xs n).drop (k + 1) = stack f xs i := by
  induction k generalizing n with
  | zero =>
      cases hstack : stack f xs n with
      | nil => simp [hstack] at h
      | cons top below =>
          rw [hstack, List.getElem?_cons_zero, Option.some.injEq] at h
          rw [List.drop_succ_cons, List.drop_zero, stack_cons hstack, h]
  | succ k ih =>
      cases hstack : stack f xs n with
      | nil => simp [hstack] at h
      | cons top below =>
          rw [hstack, List.getElem?_cons_succ, stack_cons hstack] at h
          rw [List.drop_succ_cons, stack_cons hstack, ih h]

/-- What is opened under a start is ended before it. -/
lemma Pairs.exists_of_mem_stack {k : Nat} (h : Pairs f xs i j) (hk : sets f xs k = some .start)
    (hi : i ∈ stack f xs k) : ∃ l < j, Pairs f xs k l := by
  obtain ⟨hik, -, hopen⟩ := mem_stack.mp hi
  obtain ⟨hstop, hhead⟩ := pairs_iff_head?.mp h
  have hkj : k < j := by
    rcases Nat.lt_trichotomy k j with hlt | rfl | hlt
    · exact hlt
    · cases hk.symm.trans hstop
    · exact absurd h (hopen j hlt)
  -- nothing that is open at the stop is later than the start it ends
  have hnot : k ∉ stack f xs j := by
    intro hmem
    cases hstack : stack f xs j with
    | nil => simp [hstack] at hmem
    | cons top rest =>
        rw [hstack] at hhead hmem
        obtain rfl := Option.some.inj hhead
        rcases List.mem_cons.mp hmem with rfl | hmem
        · exact lt_irrefl _ hik
        · exact lt_asymm hik (lt_of_stack_cons hstack hmem)
  simpa [mem_stack, hkj, hk] using hnot

/-- A start has as many under it as were open before it. -/
lemma length_stack {k : Nat} (h : (stack f xs n)[k]? = some i) :
    (stack f xs n).length = (stack f xs i).length + (k + 1) := by
  have hk := (List.getElem?_eq_some_iff.mp h).1
  rw [← drop_stack h, List.length_drop]
  omega

/-! ### Only marks count -/

variable (f xs) in
/-- How many marks are set before an entry. -/
def rank (i : Nat) : Nat := ((xs.take i).filterMap f).length

lemma rank_le (h : i ≤ j) : rank f xs i ≤ rank f xs j :=
  ((List.take_sublist_take_left h).filterMap f).length_le

lemma filterMap_take_succ {mark : Mark} (h : sets f xs i = some mark) :
    (xs.take (i + 1)).filterMap f = (xs.take i).filterMap f ++ [mark] := by
  rw [sets, Option.bind_eq_some_iff] at h
  obtain ⟨x, hx, hmark⟩ := h
  rw [List.take_add_one, hx, List.filterMap_append]
  simp [hmark]

lemma rank_succ {mark : Mark} (h : sets f xs i = some mark) :
    rank f xs (i + 1) = rank f xs i + 1 := by
  rw [rank, filterMap_take_succ h, List.length_append]
  rfl

/-- The marks of a list are those before an entry and those from it on. -/
lemma filterMap_split (f : β → Option Mark) (xs : List β) (i : Nat) :
    xs.filterMap f = (xs.take i).filterMap f ++ (xs.drop i).filterMap f := by
  rw [← List.filterMap_append, List.take_append_drop]

lemma take_rank (i : Nat) : (xs.filterMap f).take (rank f xs i) = (xs.take i).filterMap f := by
  rw [filterMap_split f xs i]
  exact List.take_left

lemma sets_rank {mark : Mark} (h : sets f xs i = some mark) :
    sets some (xs.filterMap f) (rank f xs i) = some mark := by
  have hget : (xs.filterMap f)[rank f xs i]? = some mark := by
    rw [← List.getElem?_take_of_lt (Nat.lt_add_one _), ← rank_succ h, take_rank,
      filterMap_take_succ h]
    exact List.getElem?_concat_length
  rw [sets, hget]
  rfl

lemma between_rank {mark : Mark} (h : sets f xs i = some mark) (hij : i < j) :
    between some (xs.filterMap f) (rank f xs i) (rank f xs j) = between f xs i j := by
  have hrank : rank f xs i + 1 = (((xs.take j).take (i + 1)).filterMap f).length := by
    rw [List.take_take, Nat.min_eq_left hij, ← rank_succ h, rank]
  rw [between, between, List.filterMap_some, take_rank, hrank,
    filterMap_split f (xs.take j) (i + 1)]
  exact List.drop_left

/-- **Entries that set no mark never affect which stop ends which start.** -/
lemma pairs_iff_rank :
    Pairs f xs i j ↔ i < j ∧ sets f xs i = some start ∧ sets f xs j = some stop ∧
      Pairs some (xs.filterMap f) (rank f xs i) (rank f xs j) := by
  constructor
  · intro h
    have hlt : rank f xs i < rank f xs j := by
      calc rank f xs i
        _ < rank f xs (i + 1) := (rank_succ h.start).symm ▸ Nat.lt_add_one _
        _ ≤ rank f xs j := rank_le h.lt
    exact ⟨h.lt, h.start, h.stop, hlt, sets_rank h.start, sets_rank h.stop,
      (between_rank h.start h.lt).symm ▸ h.matched⟩
  · rintro ⟨hlt, hstart, hstop, h⟩
    exact ⟨hlt, hstart, hstop, between_rank hstart hlt ▸ h.matched⟩

end Drafting.Sequence.Mark
