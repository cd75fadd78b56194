import Mathlib
import Drafting.Proofs.Sequence.Reports

/-!
The order of the columns of a sequence diagram.

The columns are sorted by wished positions only, and the sort keeps the order of declaration
where wishes decide nothing.

* `Model.DeclaresFirst`: the first declaration of a name, with its position.
* `Participant.Outranks`, `Precedes`: what puts one participant to the left of another.
* `Model.precedes_of_sublist`: the sort puts no participant to the left of one that precedes it.
* `columnOf?_eq_some_iff`: a name is found at the column that carries it.
* `columns_follow_wishes_and_declarations`: the columns of every diagram.
-/

namespace Drafting.Sequence

open scoped List

/-! ### Declarations -/

/-- The participant declared at a position is the first of its name. -/
def Model.DeclaresFirst (m : Model) (i : Nat) (p : Participant) : Prop :=
  m.participants[i]? = some p ∧ p.id ∉ (m.participants.take i).map Participant.id

/-- The first declarations with their positions. -/
def Model.firstDeclarations (m : Model) : List (Participant × Nat) :=
  m.participants.zipIdx.filter fun entry =>
    entry.1.id ∉ (m.participants.take entry.2).map Participant.id

namespace Model

variable {m : Model} {i j : Nat} {p q : Participant}

lemma map_firstDeclarations (m : Model) :
    m.firstDeclarations.map Prod.fst = m.distinctParticipants :=
  (Declared.firsts_eq m.participants).symm

lemma mem_firstDeclarations : (p, i) ∈ m.firstDeclarations ↔ m.DeclaresFirst i p := by
  rw [firstDeclarations, List.mem_filter, List.mk_mem_zipIdx_iff_getElem?, decide_eq_true_eq]
  rfl

lemma mem_ordered : p ∈ m.ordered ↔ ∃ i, m.DeclaresFirst i p := by
  rw [m.ordered_perm.mem_iff, ← map_firstDeclarations, List.mem_map]
  constructor
  · rintro ⟨⟨p, i⟩, hmem, rfl⟩
    exact ⟨i, mem_firstDeclarations.mp hmem⟩
  · rintro ⟨i, h⟩
    exact ⟨(p, i), mem_firstDeclarations.mpr h, rfl⟩

/-- First declarations stand in the order of their positions. -/
lemma DeclaresFirst.sublist (hp : m.DeclaresFirst i p) (hq : m.DeclaresFirst j q) (hij : i < j) :
    [p, q] <+ m.distinctParticipants := by
  have hsorted : m.firstDeclarations.Pairwise fun x y => x.2 < y.2 := by
    refine List.Pairwise.sublist List.filter_sublist (List.pairwise_iff_getElem.mpr ?_)
    intro a b ha hb hab
    simpa using hab
  have hpairs : m.firstDeclarations.Pairwise fun x y => [x.1, y.1] <+ m.distinctParticipants := by
    refine List.pairwise_iff_forall_sublist.mpr fun {x y} hxy => ?_
    rw [← map_firstDeclarations]
    exact hxy.map Prod.fst
  have hne : (p, i) ≠ (q, j) := fun heq => hij.ne (congrArg Prod.snd heq)
  obtain h | h := or_of_pairwise (hsorted.and hpairs) (mem_firstDeclarations.mpr hp)
    (mem_firstDeclarations.mpr hq) hne
  · exact h.2
  · exact absurd h.1 hij.not_gt

/-- A name is declared first at one position. -/
lemma DeclaresFirst.index_eq (hp : m.DeclaresFirst i p) (hq : m.DeclaresFirst j q)
    (hid : p.id = q.id) : i = j := by
  have hle : ∀ {i j : Nat} {p q : Participant}, m.DeclaresFirst i p → m.DeclaresFirst j q →
      p.id = q.id → j ≤ i := by
    intro i j p q hp hq hid
    by_contra! hlt
    refine hq.2 (hid ▸ List.mem_map_of_mem ?_)
    obtain ⟨hi, rfl⟩ := List.getElem?_eq_some_iff.mp hp.1
    exact List.mem_take_iff_getElem.mpr ⟨i, by omega, rfl⟩
  exact le_antisymm (hle hq hp hid.symm) (hle hp hq hid)

end Model

/-! ### Wishes -/

namespace Participant

/-- A wished position comes before none and before a larger one. -/
def Outranks (p q : Participant) : Prop :=
  p.order.isSome ∧ q.order = none ∨ ∃ a ∈ p.order, ∃ b ∈ q.order, a < b

variable {p q : Participant}

lemma mayPrecede_iff : p.mayPrecede q = true ↔ p.Outranks q ∨ p.order = q.order := by
  rw [mayPrecede, Outranks]
  cases p.order <;> cases q.order <;> simp [le_iff_lt_or_eq]

lemma mayPrecede_trans (p q r : Participant) (h : p.mayPrecede q = true)
    (h' : q.mayPrecede r = true) : p.mayPrecede r = true := by
  rw [mayPrecede] at *
  cases hp : p.order <;> cases hq : q.order <;> cases hr : r.order <;> simp_all
  omega

lemma mayPrecede_total (p q : Participant) : (p.mayPrecede q || q.mayPrecede p) = true := by
  rw [mayPrecede, mayPrecede]
  cases p.order <;> cases q.order <;> simp
  omega

lemma Outranks.order_ne (h : p.Outranks q) : p.order ≠ q.order := by
  intro heq
  obtain ⟨hp, hq⟩ | ⟨a, ha, b, hb, hab⟩ := h
  · simp [heq, hq] at hp
  · exact hab.ne (Option.mem_unique ha (heq ▸ hb))

lemma Outranks.asymm (h : p.Outranks q) : ¬ q.Outranks p := by
  rw [Outranks] at *
  cases hp : p.order <;> cases hq : q.order <;> simp_all
  exact h.le

end Participant

/-! ### The order of the columns -/

/-- Of two declarations with their positions, the first is the one whose column is further left: it
is so by the wishes, or if these decide nothing, by the positions. -/
def Precedes (i : Nat) (p : Participant) (j : Nat) (q : Participant) : Prop :=
  p.Outranks q ∨ p.order = q.order ∧ i < j

lemma Precedes.asymm {i j : Nat} {p q : Participant} (h : Precedes i p j q) :
    ¬ Precedes j q i p := by
  rintro (h' | ⟨heq', hlt'⟩)
  · obtain h | ⟨heq, -⟩ := h
    · exact h.asymm h'
    · exact h'.order_ne heq.symm
  · obtain h | ⟨-, hlt⟩ := h
    · exact h.order_ne heq'.symm
    · exact hlt.asymm hlt'

namespace Model

variable {m : Model} {i j : Nat} {p q : Participant}

lemma nodup_ordered (m : Model) : m.ordered.Nodup :=
  List.Nodup.of_map Participant.id m.nodup_ids_ordered

/-- Of two participants in columns, the first precedes the second. -/
lemma precedes_of_sublist (h : [p, q] <+ m.ordered) (hp : m.DeclaresFirst i p)
    (hq : m.DeclaresFirst j q) : Precedes i p j q := by
  have hsorted : m.ordered.Pairwise fun p q => p.mayPrecede q = true :=
    List.pairwise_mergeSort Participant.mayPrecede_trans Participant.mayPrecede_total _
  have hlt := idxOf_lt_of_sublist m.nodup_ordered h
  obtain houtranks | horder := Participant.mayPrecede_iff.mp
    (List.pairwise_iff_forall_sublist.mp hsorted h)
  · exact Or.inl houtranks
  refine Or.inr ⟨horder, ?_⟩
  rcases Nat.lt_trichotomy i j with hij | rfl | hji
  · exact hij
  · obtain rfl : p = q := Option.some.inj (hp.1.symm.trans hq.1)
    exact absurd hlt (lt_irrefl _)
  · -- the sort is stable, so the earlier declaration would stand further left
    have hswap : [q, p] <+ m.ordered :=
      List.pair_sublist_mergeSort Participant.mayPrecede_trans Participant.mayPrecede_total
        (Participant.mayPrecede_iff.mpr (Or.inr horder.symm)) (hq.sublist hp hji)
    exact absurd (idxOf_lt_of_sublist m.nodup_ordered hswap) hlt.asymm

end Model

section Roster

variable {α : Type} [Scalar α] {s : Setting α} {m : Model} {i j k l : Nat} {p q : Participant}

/-- A name is found at a column exactly if the column carries it. -/
lemma columnOf?_eq_some_iff {id : Ident} :
    (Roster.ofModel s m).columnOf? id = some k ↔
      (Roster.ofModel s m)[k]?.map Column.id = some id := by
  rw [Roster.columnOf?]
  constructor
  · intro h
    obtain ⟨hk, hid, -⟩ := List.findIdx?_eq_some_iff_getElem.mp h
    rw [List.getElem?_eq_getElem hk, Option.map_some, beq_iff_eq.mp hid]
  · intro h
    obtain ⟨c, hc, rfl⟩ := Option.map_eq_some_iff.mp h
    obtain ⟨hk, rfl⟩ := List.getElem?_eq_some_iff.mp hc
    exact Declared.indexOf?_getElem (nodup_roster s m) hk

/-- The column of a first declaration. -/
lemma getElem?_ordered (hp : m.DeclaresFirst i p)
    (hk : (Roster.ofModel s m).columnOf? p.id = some k) : m.ordered[k]? = some p := by
  rw [columnOf?_eq_some_iff, ← List.getElem?_map, map_id_roster, List.getElem?_map] at hk
  obtain ⟨q, hq, hid⟩ := Option.map_eq_some_iff.mp hk
  rw [hq, m.eq_of_id_eq (List.mem_of_getElem? hq) (Model.mem_ordered.mpr ⟨i, hp⟩) hid]

/-- **Columns stand in the order of the wishes and declarations.** -/
lemma lt_iff_precedes (hp : m.DeclaresFirst i p) (hq : m.DeclaresFirst j q)
    (hk : (Roster.ofModel s m).columnOf? p.id = some k)
    (hl : (Roster.ofModel s m).columnOf? q.id = some l) : k < l ↔ Precedes i p j q := by
  have hlt : ∀ {i j k l : Nat} {p q : Participant}, m.DeclaresFirst i p → m.DeclaresFirst j q →
      m.ordered[k]? = some p → m.ordered[l]? = some q → k < l → Precedes i p j q := by
    intro i j k l p q hp hq hk hl hkl
    obtain ⟨hk', rfl⟩ := List.getElem?_eq_some_iff.mp hk
    obtain ⟨hl', rfl⟩ := List.getElem?_eq_some_iff.mp hl
    have hpairs : m.ordered.Pairwise fun p q => [p, q] <+ m.ordered :=
      List.pairwise_iff_forall_sublist.mpr fun h => h
    exact Model.precedes_of_sublist (List.pairwise_iff_getElem.mp hpairs k l hk' hl' hkl)
      hp hq
  have hk' := getElem?_ordered hp hk
  have hl' := getElem?_ordered hq hl
  refine ⟨hlt hp hq hk' hl', fun h => ?_⟩
  rcases Nat.lt_trichotomy k l with hkl | rfl | hlk
  · exact hkl
  · obtain rfl : p = q := Option.some.inj (hk'.symm.trans hl')
    obtain rfl : i = j := hp.index_eq hq rfl
    exact absurd h h.asymm
  · exact absurd h (hlt hq hp hl' hk' hlk).asymm

end Roster

variable {α : Type} [Scalar α]

/-- **Every name has one column, that of its first declaration, and the columns are in the order of
the wishes.**  The column of a name is found exactly where it stands, and names that are not
declared have none.  One participant stands to the left of another exactly if it has a wished
position and the other has none or a larger one, or if wishes decide nothing and it was declared
earlier; where nobody has a wish, the columns are in the order of declaration. -/
theorem columns_follow_wishes_and_declarations (s : Setting α) (m : Model) :
    let roster := Roster.ofModel s m
    (roster.map Column.id).Nodup ∧
      (∀ c, c ∈ roster ↔ ∃ i p, m.DeclaresFirst i p ∧ c = Roster.column s m.events.length p) ∧
      (∀ id k, roster.columnOf? id = some k ↔ roster[k]?.map Column.id = some id) ∧
      (∀ id, roster.columnOf? id = none ↔ id ∉ m.participants.map Participant.id) ∧
      ∀ i p j q k l, m.DeclaresFirst i p → m.DeclaresFirst j q →
        roster.columnOf? p.id = some k → roster.columnOf? q.id = some l →
        (k < l ↔ Precedes i p j q) ∧
          ((∀ h r, m.DeclaresFirst h r → r.order = none) → (k < l ↔ i < j)) := by
  intro roster
  refine ⟨nodup_roster s m, fun c => ?_, fun _ _ => columnOf?_eq_some_iff, fun id => ?_, ?_⟩
  · simp only [roster, Roster.ofModel, List.mem_map, Model.mem_ordered]
    constructor
    · rintro ⟨p, ⟨i, hp⟩, rfl⟩
      exact ⟨i, p, hp, rfl⟩
    · rintro ⟨i, p, hp, rfl⟩
      exact ⟨p, ⟨i, hp⟩, rfl⟩
  · rw [← Option.isNone_iff_eq_none, columnOf?_isNone, Model.mem_names, List.mem_map]
  · intro i p j q k l hp hq hk hl
    have hprecedes := lt_iff_precedes hp hq hk hl
    refine ⟨hprecedes, fun hnone => ?_⟩
    rw [hprecedes, Precedes, hnone i p hp, hnone j q hq]
    simp [Participant.Outranks, hnone i p hp]

/-- Wished positions come first, ties and the others in the order of declaration. -/
example :
    Model.ordered ⟨[{ id := "free" }, { id := "late", order := some 20 },
      { id := "early", order := some (-10) }, { id := "tie", order := some (-10) },
      { id := "free", order := some (-30) }], []⟩ =
      [{ id := "early", order := some (-10) }, { id := "tie", order := some (-10) },
        { id := "late", order := some 20 }, { id := "free" }] := by
  cbv

end Drafting.Sequence
