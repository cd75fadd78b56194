import Mathlib
import Drafting.Proofs.Scalar.Line
import Drafting.Sequence.Assemble

/-!
The pieces of a lifeline.

A lifeline is cut into pieces from its top to its bottom, dotted ones where it crosses a delay and
solid ones between.  The pieces are found by comparing heights only, so they are those of the points
that the heights stand for, and what holds of exact heights holds of rounded ones.

* `Stacked`: delays that follow each other downward.
* `Cut`: what the pieces down to a height are; `Cut.cons_dotted`, `Cut.cons_solid` and
  `cut_lifelineFrom` say how they are found.
* `Tiles`: the pieces of a lifeline; `tiles_lifeline_rat` for exact heights.
* `lifelineFrom_onLine`: the pieces depend on the points of heights only.
* `lifeline_is_tiled_by_delays`: the pieces of every lifeline.
-/

namespace Drafting.Sequence

open Scalar LinearScalar

variable {α : Type} [Scalar α]

/-- Delays that are not empty and follow each other downward; they may touch. -/
structure Stacked (delays : List (α × α)) : Prop where
  /-- No delay is empty. -/
  nonempty : ∀ d ∈ delays, d.1 < d.2
  /-- Each ends before the later ones begin. -/
  apart : delays.Pairwise fun d e => d.2 ≤ e.1

/-- Pieces that cover a lifeline, dotted where it crosses a delay. -/
structure Tiles (delays : List (α × α)) (start stop : α) (pieces : List (LifelineSegment α)) :
    Prop where
  /-- The first piece begins at the top. -/
  first : ∃ p, pieces.head? = some p ∧ (p.startY == start) = true
  /-- The last piece ends at the bottom. -/
  last : ∃ p, pieces.getLast? = some p ∧ (p.endY == stop) = true
  /-- Each piece begins where the one before it ends. -/
  joined : pieces.IsChain fun p q => (p.endY == q.startY) = true
  /-- No piece of a lifeline that has a length is empty. -/
  positive : start < stop → ∀ p ∈ pieces, p.startY < p.endY
  /-- A lifeline without a length is one piece without a length. -/
  single : (start == stop) = true → ∃ p, pieces = [p] ∧ (p.startY == p.endY) = true
  /-- A dotted piece lies within a delay. -/
  within : ∀ p ∈ pieces, p.dotted = true → ∃ d ∈ delays, d.1 ≤ p.startY ∧ p.endY ≤ d.2
  /-- A solid piece crosses no delay. -/
  clear : ∀ p ∈ pieces, p.dotted = false → ∀ d ∈ delays, d.2 ≤ p.startY ∨ p.endY ≤ d.1
  /-- Two solid pieces do not follow each other. -/
  alternate : pieces.IsChain fun p q => p.dotted = true ∨ q.dotted = true

/-! ### Delays that are passed over -/

/-- Delays above and below the rest of a lifeline do not cut it. -/
lemma lifelineFrom_of_forall {x stop cursor : α} {delays : List (α × α)}
    (h : ∀ d ∈ delays, d.2 ≤ cursor ∨ stop ≤ d.1) :
    lifelineFrom x stop cursor delays = ([], cursor) := by
  induction delays with
  | nil => rfl
  | cons d delays ih =>
      rw [List.forall_mem_cons] at h
      rw [lifelineFrom, if_pos h.1, ih h.2]

/-! ### Exact heights -/

section Exact

variable {delays : List (Rat × Rat)} {d : Rat × Rat} {pieces : List (LifelineSegment Rat)}
  {x a b stop reached : Rat}

/-- Pieces that lead from one height to another without a gap. -/
def Joined : Rat → List (LifelineSegment Rat) → Rat → Prop
  | a, [], b => a = b
  | a, p :: pieces, b => p.startY = a ∧ Joined p.endY pieces b

lemma Joined.concat (h : Joined a pieces b) {p : LifelineSegment Rat} (hp : p.startY = b) :
    Joined a (pieces ++ [p]) p.endY := by
  induction pieces generalizing a with
  | nil => exact ⟨hp.trans h.symm, rfl⟩
  | cons q pieces ih => exact ⟨h.1, ih h.2⟩

lemma Joined.head? (h : Joined a pieces b) (hne : pieces ≠ []) :
    ∃ p, pieces.head? = some p ∧ p.startY = a := by
  cases pieces with
  | nil => exact absurd rfl hne
  | cons p pieces => exact ⟨p, rfl, h.1⟩

lemma Joined.getLast? (h : Joined a pieces b) (hne : pieces ≠ []) :
    ∃ p, pieces.getLast? = some p ∧ p.endY = b := by
  induction pieces generalizing a with
  | nil => exact absurd rfl hne
  | cons p pieces ih =>
      cases pieces with
      | nil => exact ⟨p, rfl, h.2⟩
      | cons q pieces =>
          rw [List.getLast?_cons_cons]
          exact ih h.2 (List.cons_ne_nil _ _)

lemma Joined.isChain (h : Joined a pieces b) : pieces.IsChain fun p q => p.endY = q.startY := by
  induction pieces generalizing a with
  | nil => exact List.isChain_nil
  | cons p pieces ih =>
      cases pieces with
      | nil => exact List.isChain_singleton _
      | cons q pieces => exact List.isChain_cons_cons.mpr ⟨h.2.1.symm, ih h.2⟩

/-- Pieces of a positive length lie between the heights that they lead from and to. -/
lemma Joined.between (h : Joined a pieces b) (hpositive : ∀ p ∈ pieces, p.startY < p.endY) :
    a ≤ b ∧ ∀ p ∈ pieces, a ≤ p.startY ∧ p.endY ≤ b := by
  induction pieces generalizing a with
  | nil => exact ⟨h.le, by simp⟩
  | cons p pieces ih =>
      rw [List.forall_mem_cons] at hpositive ⊢
      obtain ⟨hle, hall⟩ := ih h.2 hpositive.2
      have hp := h.1
      refine ⟨by linarith, ⟨hp.ge, hle⟩, fun q hq => ?_⟩
      have hq := hall q hq
      exact ⟨by linarith, hq.2⟩

/-- The pieces of a lifeline between two heights, the second of which is where the last delay
that counts was left. -/
structure Cut (delays : List (Rat × Rat)) (stop a : Rat) (pieces : List (LifelineSegment Rat))
    (reached : Rat) : Prop where
  joined : Joined a pieces reached
  le_stop : reached ≤ stop
  positive : ∀ p ∈ pieces, p.startY < p.endY
  within : ∀ p ∈ pieces, p.dotted = true → ∃ d ∈ delays, d.1 ≤ p.startY ∧ p.endY ≤ d.2
  clear : ∀ p ∈ pieces, p.dotted = false → ∀ d ∈ delays, d.2 ≤ p.startY ∨ p.endY ≤ d.1
  /-- What is left of the lifeline crosses no delay. -/
  rest : reached < stop → ∀ d ∈ delays, d.2 ≤ reached ∨ stop ≤ d.1
  alternate : pieces.IsChain fun p q => p.dotted = true ∨ q.dotted = true
  last : ∀ p, pieces.getLast? = some p → p.dotted = true

/-- Nothing is cut from a lifeline that crosses no delay. -/
lemma Cut.nil (ha : a ≤ stop) (h : a < stop → ∀ d ∈ delays, d.2 ≤ a ∨ stop ≤ d.1) :
    Cut delays stop a [] a := by
  constructor
  case joined => exact rfl
  case le_stop => exact ha
  case rest => exact h
  all_goals simp

/-- A delay that ends above a height, or begins below the bottom, changes nothing from there on. -/
lemma Cut.cons_skipped (h : Cut delays stop a pieces reached) (hd : d.2 ≤ a ∨ stop ≤ d.1) :
    Cut (d :: delays) stop a pieces reached := by
  obtain ⟨hle, hbetween⟩ := h.joined.between h.positive
  have hstop := h.le_stop
  constructor
  case joined => exact h.joined
  case le_stop => exact hstop
  case positive => exact h.positive
  case within =>
    intro p hp hdotted
    obtain ⟨e, he, hwithin⟩ := h.within p hp hdotted
    exact ⟨e, List.mem_cons_of_mem _ he, hwithin⟩
  case clear =>
    intro p hp hsolid
    have hp' := hbetween p hp
    refine List.forall_mem_cons.mpr ⟨hd.imp ?_ ?_, h.clear p hp hsolid⟩
    · intro hd
      linarith
    · intro hd
      linarith
  case rest =>
    intro hreached
    refine List.forall_mem_cons.mpr ⟨hd.imp_left ?_, h.rest hreached⟩
    intro hd
    linarith
  case alternate => exact h.alternate
  case last => exact h.last

/-- A dotted piece before those that follow: it ends where the delay does, or at the bottom. -/
lemma Cut.cons_dotted (h : Cut delays stop b pieces reached) (hab : a < b) (htop : d.1 ≤ a)
    (hbottom : b ≤ d.2) (hend : d.2 ≤ b ∨ stop ≤ b) :
    Cut (d :: delays) stop a (⟨x, a, b, true⟩ :: pieces) reached := by
  obtain ⟨hle, hbetween⟩ := h.joined.between h.positive
  have hstop := h.le_stop
  constructor
  case joined => exact ⟨rfl, h.joined⟩
  case le_stop => exact hstop
  case positive => exact List.forall_mem_cons.mpr ⟨hab, h.positive⟩
  case within =>
    refine List.forall_mem_cons.mpr ⟨fun _ => ⟨d, List.mem_cons_self, htop, hbottom⟩, ?_⟩
    intro p hp hdotted
    obtain ⟨e, he, hwithin⟩ := h.within p hp hdotted
    exact ⟨e, List.mem_cons_of_mem _ he, hwithin⟩
  case clear =>
    refine List.forall_mem_cons.mpr ⟨fun hsolid => absurd hsolid (by simp), fun p hp hsolid => ?_⟩
    have hp' := hbetween p hp
    have hpositive := h.positive p hp
    refine List.forall_mem_cons.mpr ⟨Or.inl ?_, h.clear p hp hsolid⟩
    -- there are pieces below the delay, so it ends above the bottom
    rcases hend with hend | hend <;> linarith
  case rest =>
    intro hreached
    refine List.forall_mem_cons.mpr ⟨Or.inl ?_, h.rest hreached⟩
    rcases hend with hend | hend <;> linarith
  case alternate => exact h.alternate.cons fun _ _ => Or.inl rfl
  case last =>
    cases pieces with
    | nil => simp
    | cons p pieces => exact fun q hq => h.last q (List.getLast?_cons_cons ▸ hq)

/-- A solid piece before a dotted one. -/
lemma Cut.cons_solid {p : LifelineSegment Rat} (h : Cut delays stop b (p :: pieces) reached)
    (hp : p.dotted = true) (hab : a < b) (hclear : ∀ d ∈ delays, d.2 ≤ a ∨ b ≤ d.1) :
    Cut delays stop a (⟨x, a, b, false⟩ :: p :: pieces) reached := by
  constructor
  case joined => exact ⟨rfl, h.joined⟩
  case le_stop => exact h.le_stop
  case positive => exact List.forall_mem_cons.mpr ⟨hab, h.positive⟩
  case within =>
    exact List.forall_mem_cons.mpr ⟨fun hdotted => absurd hdotted (by simp), h.within⟩
  case clear => exact List.forall_mem_cons.mpr ⟨fun _ => hclear, h.clear⟩
  case rest => exact h.rest
  case alternate => exact List.isChain_cons_cons.mpr ⟨Or.inr hp, h.alternate⟩
  case last => exact fun q hq => h.last q (List.getLast?_cons_cons ▸ hq)

/-- **The pieces around the delays that are left.** -/
lemma cut_lifelineFrom (h : Stacked delays) (x : Rat) (ha : a < stop) :
    Cut delays stop a (lifelineFrom x stop a delays).1 (lifelineFrom x stop a delays).2 := by
  induction delays generalizing a with
  | nil => exact Cut.nil ha.le (by simp)
  | cons d delays ih =>
      obtain ⟨top, bottom⟩ := d
      obtain ⟨hnonempty, hapart⟩ := h
      rw [List.forall_mem_cons] at hnonempty
      rw [List.pairwise_cons] at hapart
      have hrest : Stacked delays := ⟨hnonempty.2, hapart.2⟩
      have hbelow : ∀ e ∈ delays, bottom ≤ e.1 := hapart.1
      rw [lifelineFrom]
      split
      · next hskip => exact (ih hrest ha).cons_skipped hskip
      · next hskip =>
          rw [not_or, not_le, not_le] at hskip
          have hband : top < bottom := hnonempty.1
          have hbelow' : Cut delays stop (min bottom stop)
              (lifelineFrom x stop (min bottom stop) delays).1
              (lifelineFrom x stop (min bottom stop) delays).2 := by
            rcases lt_or_ge bottom stop with hlt | hge
            · rw [min_eq_left hlt.le]
              exact ih hrest hlt
            · -- the delay reaches the bottom, and the others are below it
              rw [min_eq_right hge, lifelineFrom_of_forall fun e he =>
                Or.inr (hge.trans (hbelow e he))]
              exact Cut.nil le_rfl fun hlt => absurd hlt (lt_irrefl _)
          have hend : bottom ≤ min bottom stop ∨ stop ≤ min bottom stop := by
            rcases min_choice bottom stop with hmin | hmin
            · exact Or.inl hmin.ge
            · exact Or.inr hmin.ge
          have hdotted : Cut ((top, bottom) :: delays) stop (max top a)
              (⟨x, max top a, min bottom stop, true⟩ ::
                (lifelineFrom x stop (min bottom stop) delays).1)
              (lifelineFrom x stop (min bottom stop) delays).2 := by
            refine hbelow'.cons_dotted ?_ (le_max_left top a) (min_le_left bottom stop) hend
            exact max_lt (lt_min hband hskip.2) (lt_min hskip.1 ha)
          dsimp only
          split
          · next hgap =>
              have htop : a < top := (lt_max_iff.mp hgap).resolve_right (lt_irrefl a)
              have hmax : max top a = top := max_eq_left htop.le
              refine hdotted.cons_solid rfl hgap (List.forall_mem_cons.mpr ⟨Or.inr hmax.le, ?_⟩)
              exact fun e he => Or.inr (hmax.le.trans (hband.le.trans (hbelow e he)))
          · next hgap =>
              have hmax : max top a = a := le_antisymm (not_lt.mp hgap) (le_max_right top a)
              rw [hmax] at hdotted ⊢
              exact hdotted

/-- Pieces that lead from the top to the bottom of a lifeline. -/
lemma Joined.tiles (h : Joined a pieces stop) (hlt : a < stop)
    (hpositive : ∀ p ∈ pieces, p.startY < p.endY)
    (hwithin : ∀ p ∈ pieces, p.dotted = true → ∃ d ∈ delays, d.1 ≤ p.startY ∧ p.endY ≤ d.2)
    (hclear : ∀ p ∈ pieces, p.dotted = false → ∀ d ∈ delays, d.2 ≤ p.startY ∨ p.endY ≤ d.1)
    (halternate : pieces.IsChain fun p q => p.dotted = true ∨ q.dotted = true) :
    Tiles delays a stop pieces := by
  have hne : pieces ≠ [] := by
    rintro rfl
    exact hlt.ne h
  obtain ⟨first, hhead, hfirst⟩ := h.head? hne
  obtain ⟨last, hgetLast, hlast⟩ := h.getLast? hne
  constructor
  case first => exact ⟨first, hhead, beq_rat.mpr hfirst⟩
  case last => exact ⟨last, hgetLast, beq_rat.mpr hlast⟩
  case joined => exact h.isChain.imp fun _ _ => beq_rat.mpr
  case positive => exact fun _ => hpositive
  case single => exact fun heq => absurd (beq_rat.mp heq) hlt.ne
  case within => exact hwithin
  case clear => exact hclear
  case alternate => exact halternate

/-- The pieces of a lifeline that has a length. -/
lemma tiles_lifeline_of_lt (h : Stacked delays) (x : Rat) (hlt : a < stop) :
    Tiles delays a stop (lifeline delays x a stop) := by
  have hcut := cut_lifelineFrom h x hlt
  rw [lifeline]
  generalize lifelineFrom x stop a delays = found at hcut ⊢
  obtain ⟨pieces, reached⟩ := found
  dsimp only at hcut ⊢
  split
  · next hmore =>
      have hreached : reached < stop := by
        rcases hmore with hreached | hempty
        · exact hreached
        · obtain rfl := List.isEmpty_iff.mp hempty
          obtain rfl : a = reached := hcut.joined
          exact hlt
      refine (hcut.joined.concat (p := ⟨x, reached, stop, false⟩) rfl).tiles hlt ?_ ?_ ?_ ?_
      · exact List.forall_mem_append.mpr ⟨hcut.positive, List.forall_mem_singleton.mpr hreached⟩
      · exact List.forall_mem_append.mpr ⟨hcut.within, by simp⟩
      · refine List.forall_mem_append.mpr ⟨hcut.clear, List.forall_mem_singleton.mpr fun _ => ?_⟩
        exact hcut.rest hreached
      · refine hcut.alternate.append (List.isChain_singleton _) fun p hp _ _ => Or.inl ?_
        exact hcut.last p hp
  · next hmore =>
      rw [not_or, not_lt] at hmore
      obtain rfl := le_antisymm hcut.le_stop hmore.1
      exact hcut.joined.tiles hlt hcut.positive hcut.within hcut.clear hcut.alternate

/-- A lifeline without a length lies in one delay at most. -/
lemma lifelineFrom_self (h : Stacked delays) (x stop : Rat) :
    ((∀ d ∈ delays, d.2 ≤ stop ∨ stop ≤ d.1) ∧ lifelineFrom x stop stop delays = ([], stop)) ∨
      (∃ d ∈ delays, d.1 ≤ stop ∧ stop ≤ d.2) ∧
        lifelineFrom x stop stop delays = ([⟨x, stop, stop, true⟩], stop) := by
  by_cases hall : ∀ d ∈ delays, d.2 ≤ stop ∨ stop ≤ d.1
  · exact Or.inl ⟨hall, lifelineFrom_of_forall hall⟩
  · refine Or.inr ?_
    induction delays with
    | nil => exact absurd (by simp) hall
    | cons d delays ih =>
        obtain ⟨hnonempty, hapart⟩ := h
        rw [List.forall_mem_cons] at hnonempty
        rw [List.pairwise_cons] at hapart
        rw [lifelineFrom]
        split
        · next hskip =>
            have hall' : ¬ ∀ d ∈ delays, d.2 ≤ stop ∨ stop ≤ d.1 := fun hrest =>
              hall (List.forall_mem_cons.mpr ⟨hskip, hrest⟩)
            obtain ⟨⟨e, he, haround⟩, heq⟩ := ih ⟨hnonempty.2, hapart.2⟩ hall'
            exact ⟨⟨e, List.mem_cons_of_mem _ he, haround⟩, heq⟩
        · next hskip =>
            rw [not_or, not_le, not_le] at hskip
            refine ⟨⟨d, List.mem_cons_self, hskip.2.le, hskip.1.le⟩, ?_⟩
            have hbelow : ∀ e ∈ delays, e.2 ≤ stop ∨ stop ≤ e.1 := fun e he =>
              Or.inr (hskip.1.le.trans (hapart.1 e he))
            have htop : max d.1 stop = stop := max_eq_right hskip.2.le
            have hbottom : min d.2 stop = stop := min_eq_right hskip.1.le
            dsimp only
            rw [htop, hbottom, if_neg (lt_irrefl stop), lifelineFrom_of_forall hbelow]

/-- The one piece of a lifeline without a length. -/
lemma tiles_lifeline_self (h : Stacked delays) (x stop : Rat) :
    Tiles delays stop stop (lifeline delays x stop stop) := by
  obtain ⟨dotted, heq, hdotted, hsolid⟩ : ∃ dotted,
      lifeline delays x stop stop = [⟨x, stop, stop, dotted⟩] ∧
        (dotted = true → ∃ d ∈ delays, d.1 ≤ stop ∧ stop ≤ d.2) ∧
        (dotted = false → ∀ d ∈ delays, d.2 ≤ stop ∨ stop ≤ d.1) := by
    rcases lifelineFrom_self h x stop with ⟨hclear, heq⟩ | ⟨hwithin, heq⟩
    · exact ⟨false, by simp [lifeline, heq], by simp, fun _ => hclear⟩
    · exact ⟨true, by simp [lifeline, heq], fun _ => hwithin, by simp⟩
  rw [heq]
  constructor
  case first => exact ⟨_, rfl, beq_rat.mpr rfl⟩
  case last => exact ⟨_, rfl, beq_rat.mpr rfl⟩
  case joined => exact List.isChain_singleton _
  case positive => exact fun hlt => absurd hlt (lt_irrefl _)
  case single => exact fun _ => ⟨_, rfl, beq_rat.mpr rfl⟩
  case within => simpa using hdotted
  case clear => simpa using hsolid
  case alternate => exact List.isChain_singleton _

/-- **The pieces of a lifeline in exact arithmetic.** -/
lemma tiles_lifeline_rat (h : Stacked delays) (x : Rat) (hle : a ≤ stop) :
    Tiles delays a stop (lifeline delays x a stop) := by
  rcases hle.eq_or_lt with rfl | hlt
  · exact tiles_lifeline_self h x a
  · exact tiles_lifeline_of_lt h x hlt

end Exact

/-! ### Heights as points -/

section Points

variable [LinearScalar α] {delays : List (α × α)} {x start stop cursor : α}
  {pieces : List (LifelineSegment α)}

/-- A piece with its heights as points. -/
def LifelineSegment.onLine (p : LifelineSegment α) : LifelineSegment Rat :=
  ⟨point p.x, point p.startY, point p.endY, p.dotted⟩

/-- Pieces begin and end at numbers. -/
def AreNumbers (pieces : List (LifelineSegment α)) : Prop :=
  ∀ p ∈ pieces, IsNumber p.startY ∧ IsNumber p.endY

/-- **The pieces of a lifeline depend on the points of heights only.** -/
lemma lifelineFrom_onLine (hdelays : ∀ d ∈ delays, IsNumber d.1 ∧ IsNumber d.2) (x : α)
    (hstop : IsNumber stop) (hcursor : IsNumber cursor) :
    lifelineFrom (point x) (point stop) (point cursor) (delays.map (Prod.map point point)) =
        ((lifelineFrom x stop cursor delays).1.map (·.onLine),
          point (lifelineFrom x stop cursor delays).2) ∧
      IsNumber (lifelineFrom x stop cursor delays).2 ∧
      AreNumbers (lifelineFrom x stop cursor delays).1 := by
  induction delays generalizing cursor with
  | nil => exact ⟨rfl, hcursor, by simp [lifelineFrom, AreNumbers]⟩
  | cons d delays ih =>
      obtain ⟨top, bottom⟩ := d
      rw [List.forall_mem_cons] at hdelays
      obtain ⟨⟨htop, hbottom⟩, hdelays⟩ := hdelays
      have hskip : bottom ≤ cursor ∨ stop ≤ top ↔
          point bottom ≤ point cursor ∨ point stop ≤ point top :=
        or_congr (hbottom.le_iff hcursor) (hstop.le_iff htop)
      obtain ⟨hmax, htop'⟩ := max_eq htop hcursor
      obtain ⟨hmin, hbottom'⟩ := min_eq hbottom hstop
      have hgap := hcursor.lt_iff hmax
      rw [htop'] at hgap
      rw [List.map_cons, Prod.map_apply, lifelineFrom, lifelineFrom]
      by_cases h : bottom ≤ cursor ∨ stop ≤ top
      · rw [if_pos h, if_pos (hskip.mp h)]
        exact ih hdelays hcursor
      · obtain ⟨heq, hreached, hpieces⟩ := ih hdelays hmin
        rw [hbottom'] at heq
        rw [if_neg h, if_neg (mt hskip.mpr h)]
        dsimp only
        rw [heq]
        have hdotted : ∀ p ∈ (⟨x, max top cursor, min bottom stop, true⟩ : LifelineSegment α) ::
            (lifelineFrom x stop (min bottom stop) delays).1, IsNumber p.startY ∧ IsNumber p.endY :=
          List.forall_mem_cons.mpr ⟨⟨hmax, hmin⟩, hpieces⟩
        by_cases hcut : cursor < max top cursor
        · rw [if_pos hcut, if_pos (hgap.mp hcut)]
          refine ⟨?_, hreached, List.forall_mem_cons.mpr ⟨⟨hcursor, hmax⟩, hdotted⟩⟩
          simp only [List.map_cons, LifelineSegment.onLine, htop', hbottom']
        · rw [if_neg hcut, if_neg (mt hgap.mpr hcut)]
          refine ⟨?_, hreached, hdotted⟩
          simp only [List.map_cons, LifelineSegment.onLine, htop', hbottom']

/-- So do the pieces of a whole lifeline. -/
lemma lifeline_onLine (hdelays : ∀ d ∈ delays, IsNumber d.1 ∧ IsNumber d.2) (x : α)
    (hstart : IsNumber start) (hstop : IsNumber stop) :
    lifeline (delays.map (Prod.map point point)) (point x) (point start) (point stop) =
        (lifeline delays x start stop).map (·.onLine) ∧
      AreNumbers (lifeline delays x start stop) := by
  obtain ⟨heq, hreached, hpieces⟩ := lifelineFrom_onLine hdelays x hstop hstart
  rw [lifeline, heq, lifeline]
  dsimp only
  have hmore := hreached.lt_iff hstop
  simp only [List.isEmpty_map]
  by_cases h : (lifelineFrom x stop start delays).2 < stop ∨
      (lifelineFrom x stop start delays).1.isEmpty = true
  · rw [if_pos h, if_pos (h.imp_left hmore.mp), List.map_append]
    exact ⟨rfl, List.forall_mem_append.mpr
      ⟨hpieces, List.forall_mem_singleton.mpr ⟨hreached, hstop⟩⟩⟩
  · rw [if_neg h, if_neg (mt (Or.imp_left hmore.mpr) h)]
    exact ⟨rfl, hpieces⟩

/-- Pieces that cover a lifeline of points cover one of heights. -/
lemma Tiles.of_onLine (h : Tiles (delays.map (Prod.map point point)) (point start) (point stop)
      (pieces.map (·.onLine)))
    (hdelays : ∀ d ∈ delays, IsNumber d.1 ∧ IsNumber d.2) (hstart : IsNumber start)
    (hstop : IsNumber stop) (hpieces : AreNumbers pieces) : Tiles delays start stop pieces := by
  constructor
  case first =>
    obtain ⟨q, hq, heq⟩ := h.first
    rw [List.head?_map, Option.map_eq_some_iff] at hq
    obtain ⟨p, hp, rfl⟩ := hq
    have hnumber := (hpieces p (List.mem_of_head? hp)).1
    exact ⟨p, hp, (hnumber.beq_iff hstart).mpr (beq_rat.mp heq)⟩
  case last =>
    obtain ⟨q, hq, heq⟩ := h.last
    rw [List.getLast?_map, Option.map_eq_some_iff] at hq
    obtain ⟨p, hp, rfl⟩ := hq
    have hnumber := (hpieces p (List.mem_of_getLast? hp)).2
    exact ⟨p, hp, (hnumber.beq_iff hstop).mpr (beq_rat.mp heq)⟩
  case joined =>
    refine ((List.isChain_map _).mp h.joined).imp_of_mem_imp fun p q hp hq heq => ?_
    exact ((hpieces p hp).2.beq_iff (hpieces q hq).1).mpr (beq_rat.mp heq)
  case positive =>
    intro hlt p hp
    have hlt' := h.positive ((hstart.lt_iff hstop).mp hlt) p.onLine (List.mem_map_of_mem hp)
    exact ((hpieces p hp).1.lt_iff (hpieces p hp).2).mpr hlt'
  case single =>
    intro heq
    obtain ⟨q, hq, hlength⟩ := h.single (beq_rat.mpr ((hstart.beq_iff hstop).mp heq))
    obtain ⟨p, rfl, rfl⟩ := List.map_eq_singleton_iff.mp hq
    have hnumber := hpieces p List.mem_cons_self
    exact ⟨p, rfl, (hnumber.1.beq_iff hnumber.2).mpr (beq_rat.mp hlength)⟩
  case within =>
    intro p hp hdotted
    obtain ⟨e, he, hstart, hend⟩ := h.within p.onLine (List.mem_map_of_mem hp) hdotted
    obtain ⟨d, hd, rfl⟩ := List.mem_map.mp he
    exact ⟨d, hd, ((hdelays d hd).1.le_iff (hpieces p hp).1).mpr hstart,
      ((hpieces p hp).2.le_iff (hdelays d hd).2).mpr hend⟩
  case clear =>
    intro p hp hsolid d hd
    have hclear := h.clear p.onLine (List.mem_map_of_mem hp) hsolid _ (List.mem_map_of_mem hd)
    exact hclear.imp ((hdelays d hd).2.le_iff (hpieces p hp).1).mpr
      ((hpieces p hp).2.le_iff (hdelays d hd).1).mpr
  case alternate => exact (List.isChain_map LifelineSegment.onLine).mp h.alternate

/-- A height on a piece lies in a delay exactly if the piece is dotted. -/
lemma Tiles.dotted_iff (h : Tiles delays start stop pieces) {p : LifelineSegment α}
    (hp : p ∈ pieces) {y : α} (habove : p.startY < y) (hbelow : y < p.endY) :
    p.dotted = true ↔ ∃ d ∈ delays, d.1 ≤ y ∧ y ≤ d.2 := by
  rw [LinearScalar.lt_iff] at habove hbelow
  obtain ⟨hstartY, hy, habove⟩ := habove
  obtain ⟨-, hendY, hbelow⟩ := hbelow
  constructor
  · intro hdotted
    obtain ⟨d, hd, htop, hbottom⟩ := h.within p hp hdotted
    rw [LinearScalar.le_iff] at htop hbottom
    refine ⟨d, hd, (htop.1.le_iff hy).mpr ?_, (hy.le_iff hbottom.2.1).mpr ?_⟩
    · exact htop.2.2.trans habove.le
    · exact hbelow.le.trans hbottom.2.2
  · rintro ⟨d, hd, htop, hbottom⟩
    rw [LinearScalar.le_iff] at htop hbottom
    by_contra hsolid
    rcases h.clear p hp (Bool.eq_false_iff.mpr hsolid) d hd with hover | hunder
    · rw [LinearScalar.le_iff] at hover
      exact absurd (hbottom.2.2.trans hover.2.2) (not_le.mpr habove)
    · rw [LinearScalar.le_iff] at hunder
      exact absurd (hunder.2.2.trans htop.2.2) (not_le.mpr hbelow)

/-- **A lifeline is tiled by its delays.**  From its top to its bottom it is cut into pieces without
a gap and without an overlap, none of them empty; a piece is dotted exactly where the lifeline
crosses a delay, and two solid pieces never follow each other.  A lifeline without a length is a
single piece without a length.  Whatever is compared is a number, so nothing is asked of other
scalars, and no rounding is involved. -/
theorem lifeline_is_tiled_by_delays (h : Stacked delays) (x : α) (hle : start ≤ stop) :
    Tiles delays start stop (lifeline delays x start stop) ∧
      ∀ p ∈ lifeline delays x start stop, ∀ y, p.startY < y → y < p.endY →
        (p.dotted = true ↔ ∃ d ∈ delays, d.1 ≤ y ∧ y ≤ d.2) := by
  have hdelays : ∀ d ∈ delays, IsNumber d.1 ∧ IsNumber d.2 := fun d hd =>
    isNumber_of_lt (h.nonempty d hd)
  obtain ⟨hstart, hstop⟩ := isNumber_of_le hle
  obtain ⟨heq, hpieces⟩ := lifeline_onLine hdelays x hstart hstop
  have hstacked : Stacked (delays.map (Prod.map point point)) := by
    constructor
    case nonempty =>
      refine List.forall_mem_map.mpr fun d hd => ?_
      exact ((hdelays d hd).1.lt_iff (hdelays d hd).2).mp (h.nonempty d hd)
    case apart =>
      refine List.pairwise_map.mpr (h.apart.imp_of_mem fun {d e} hd he hde => ?_)
      exact ((hdelays d hd).2.le_iff (hdelays e he).1).mp hde
  have htiles := tiles_lifeline_rat hstacked (point x) ((hstart.le_iff hstop).mp hle)
  rw [heq] at htiles
  have hlifeline := htiles.of_onLine hdelays hstart hstop hpieces
  exact ⟨hlifeline, fun p hp y habove hbelow => hlifeline.dotted_iff hp habove hbelow⟩

end Points

/-- A lifeline of 32 bits that begins in a delay, touches two at once, and ends in one. -/
theorem lifeline_through_delays :
    let delays : List (Float32 × Float32) := [(0, 5), (10, 20), (20, 30), (50, 60), (70, 80)]
    Stacked delays ∧ (15 : Float32) ≤ 55 ∧
      lifeline delays 7.5 15 55 = [⟨7.5, 15, 20, true⟩, ⟨7.5, 20, 30, true⟩, ⟨7.5, 30, 50, false⟩,
        ⟨7.5, 50, 55, true⟩] ∧
      Tiles delays 15 55 (lifeline delays 7.5 15 55) := by
  intro delays
  have hstacked : Stacked delays := ⟨by decide +kernel, by decide +kernel⟩
  have hle : (15 : Float32) ≤ 55 := by decide +kernel
  exact ⟨hstacked, hle, by decide +kernel, (lifeline_is_tiled_by_delays hstacked 7.5 hle).1⟩

end Drafting.Sequence
