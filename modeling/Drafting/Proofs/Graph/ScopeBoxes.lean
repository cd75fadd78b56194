import Mathlib
import Drafting.Proofs.Graph.ComponentWays

/-!
The boxes of the members of a scope, and the ways of its edges.

Parts are placed one behind the other, each with its box at the cursor.

* `ScopeLayout.Packed`: the members and edges placed so far are clear of each other
  and end before the cursor.
* `ScopeLayout.Packed.add`: this is so after one more part.
* `ScopeLayout.Fitted`: members have the sizes they were given, are clear of each other and of the
  edges between ranks, and all lie in the room of the scope.
* `ScopeLayout.fitted_of_layout`: the members and edges of every scope are placed so.
-/

namespace Drafting.Graph.ScopeLayout

open Drafting.Graph.Component (NonnegSizes)

variable {config : GraphConfig Rat} {sizes : Array (Size Rat)} {shapes : Array (EdgeShape Rat)}
    {c : Component}
  {l : ComponentLayout Rat} {p : Progress Rat} {placed : List Nat}

/-- The box of a member. -/
def boxIn (members : Array (PlacedMember Rat)) (v : Nat) : Bounds Rat :=
  (members.getD v ⟨Bounds.zero, 0, 0⟩).bounds

/-- A box has the size that a member was given. -/
structure Sized (sizes : Array (Size Rat)) (v : Nat) (b : Bounds Rat) : Prop where
  width : b.width = (Component.sizeOf sizes v).width
  height : b.height = (Component.sizeOf sizes v).height

/-- The room that the parts placed so far take. -/
def room (config : GraphConfig Rat) (p : Progress Rat) : Bounds Rat :=
  ⟨0, 0, p.cursor - config.componentGap, p.height⟩

/-- The members placed so far have their sizes, are clear of each other and of the edges between
ranks, and all end before the cursor. -/
structure Packed (config : GraphConfig Rat) (sizes : Array (Size Rat)) (placed : List Nat)
    (p : Progress Rat) :
    Prop where
  size : p.members.size = sizes.size
  cursor : 0 ≤ p.cursor
  height : 0 ≤ p.height
  sized : ∀ v ∈ placed, Sized sizes v (boxIn p.members v)
  within : ∀ v ∈ placed, (room config p).Encloses (boxIn p.members v)
  clear : ∀ v ∈ placed, ∀ w ∈ placed, v ≠ w → (boxIn p.members v).Clear (boxIn p.members w)
  edges : ∀ e ∈ p.edges, e.Within (room config p)
  avoids : ∀ e ∈ p.edges, e.kind = .normal → ∀ v ∈ placed, e.Avoids (boxIn p.members v)

/-! ### One more part -/

/-- The members of other parts stay where they are. -/
lemma boxIn_add_of_notMem {v : Nat} (hv : v ∉ c.members) :
    boxIn (p.add config c l).members v = boxIn p.members v := by
  rw [boxIn, boxIn, getD_members_add_of_notMem hv]

/-- The members of the part are moved with it. -/
lemma boxIn_add (hnodup : c.members.Nodup) {v : Nat} {m : PlacedMember Rat}
    (hm : (v, m) ∈ c.members.zip l.members) (hv : v < p.members.size) :
    boxIn (p.add config c l).members v = m.bounds.translate (p.offset l) := by
  rw [boxIn, getD_members_add hnodup hm hv]
  rfl

/-- A member of a part is placed. -/
lemma exists_mem_zip (hl : Component.Fitted sizes c l) {v : Nat} (hv : v ∈ c.members) :
    ∃ m, (v, m) ∈ c.members.zip l.members := by
  obtain ⟨i, hi, rfl⟩ := List.getElem_of_mem hv
  have hi' : i < l.members.length := hl.length ▸ hi
  exact ⟨l.members[i], List.mem_iff_getElem.mpr ⟨i, by simpa using ⟨hi, hi'⟩, List.getElem_zip⟩⟩

/-- The box of a part is not turned inside out. -/
lemma nonneg_bounds (hsizes : NonnegSizes sizes) (hl : Component.Fitted sizes c l)
    (hne : c.members ≠ []) :
    0 ≤ l.bounds.width ∧ 0 ≤ l.bounds.height := by
  obtain ⟨v, hv⟩ := List.exists_mem_of_ne_nil _ hne
  obtain ⟨m, hm⟩ := exists_mem_zip hl hv
  have hencloses := hl.encloses m (List.of_mem_zip hm).2
  have hwidth := hl.width v m hm
  have hheight := hl.height v m hm
  obtain ⟨hw, hh⟩ := Component.sizeOf_nonneg hsizes v
  have hminX := hencloses.minX
  have hmaxX := hencloses.maxX
  have hminY := hencloses.minY
  have hmaxY := hencloses.maxY
  simp only [Bounds.width, Bounds.height] at *
  constructor <;> linarith

/-- Two members of a part are clear of each other. -/
lemma clear_of_mem_zip (hl : Component.Fitted sizes c l) {v w : Nat} {m n : PlacedMember Rat}
    (hm : (v, m) ∈ c.members.zip l.members) (hn : (w, n) ∈ c.members.zip l.members) (hvw : v ≠ w) :
    m.bounds.Clear n.bounds := by
  have hpairwise : (c.members.zip l.members).Pairwise fun a b => a.2.bounds.Clear b.2.bounds := by
    have hsnd : (c.members.zip l.members).map Prod.snd = l.members :=
      List.map_snd_zip (by rw [hl.length])
    have hclear := hl.clear
    rw [← hsnd, List.pairwise_map] at hclear
    exact hclear
  have hne : (v, m) ≠ (w, n) := fun heq => hvw (congrArg Prod.fst heq)
  rcases or_of_pairwise hpairwise hm hn hne with h | h
  · exact h
  · exact h.symm

/-- One more part takes more room. -/
lemma encloses_room (hconfig : config.Sensible) (hwidth : 0 ≤ l.bounds.width) :
    (room config (p.add config c l)).Encloses (room config p) := by
  have hgap := hconfig.componentGap
  refine ⟨le_refl _, ?_, le_refl _, le_max_left _ _⟩
  simp only [room, Progress.add]
  linarith

/-- The room holds the part that was placed last. -/
lemma encloses_part (hcursor : 0 ≤ p.cursor) :
    (room config (p.add config c l)).Encloses (l.bounds.translate (p.offset l)) := by
  refine ⟨?_, ?_, ?_, le_trans ?_ (le_max_right _ _)⟩ <;>
    simp only [room, Progress.add, Bounds.translate, Progress.offset, Bounds.width,
      Bounds.height] <;>
    linarith

/-- A part is placed beyond those before it, with the gap between. -/
lemma clear_part (hconfig : config.Sensible) (p : Progress Rat) (l : ComponentLayout Rat) :
    (room config p).Clear (l.bounds.translate (p.offset l)) := by
  have hgap := hconfig.componentGap
  left
  simp only [room, Bounds.translate, Progress.offset]
  linarith

section Add

variable (h : Packed config sizes placed p) (hl : Component.Fitted sizes c l)
  (hnodup : c.members.Nodup) (hlt : ∀ v ∈ c.members, v < sizes.size)

include h

/-- The members placed before stay in the room they had. -/
lemma Packed.room_encloses (hdisjoint : placed.Disjoint c.members) {v : Nat} (hv : v ∈ placed) :
    (room config p).Encloses (boxIn (p.add config c l).members v) := by
  rw [boxIn_add_of_notMem (hdisjoint hv)]
  exact h.within v hv

include hl hnodup hlt

/-- A member of the part has its box in it, moved with the part. -/
lemma Packed.exists_boxIn_add {v : Nat} (hv : v ∈ c.members) :
    ∃ m, (v, m) ∈ c.members.zip l.members ∧
      boxIn (p.add config c l).members v = m.bounds.translate (p.offset l) := by
  obtain ⟨m, hm⟩ := exists_mem_zip hl hv
  exact ⟨m, hm, boxIn_add hnodup hm (h.size ▸ hlt v hv)⟩

/-- The members of the part lie in its box. -/
lemma Packed.part_encloses {v : Nat} (hv : v ∈ c.members) :
    (l.bounds.translate (p.offset l)).Encloses (boxIn (p.add config c l).members v) := by
  obtain ⟨m, hm, hbox⟩ := h.exists_boxIn_add hl hnodup hlt hv
  rw [hbox, Bounds.encloses_translate]
  exact hl.encloses m (List.of_mem_zip hm).2

/-- The members of the part are clear of those placed before. -/
lemma Packed.clear_boxIn_add (hconfig : config.Sensible) (hdisjoint : placed.Disjoint c.members)
    {v w : Nat} (hv : v ∈ placed) (hw : w ∈ c.members) :
    (boxIn (p.add config c l).members v).Clear (boxIn (p.add config c l).members w) :=
  ((h.part_encloses hl hnodup hlt hw).clear
    ((h.room_encloses hdisjoint hv).clear (clear_part hconfig p l)).symm).symm

/-- **One more part**: it is placed beyond the cursor, and the cursor beyond it. -/
lemma Packed.add (hconfig : config.Sensible) (hsizes : NonnegSizes sizes)
    (hrouted : Component.Routed l) (hne : c.members ≠ []) (hdisjoint : placed.Disjoint c.members) :
    Packed config sizes (placed ++ c.members) (p.add config c l) := by
  have hwidth := (nonneg_bounds hsizes hl hne).1
  have hroom : (room config (p.add config c l)).Encloses (room config p) :=
    encloses_room hconfig hwidth
  have hpart : (room config (p.add config c l)).Encloses (l.bounds.translate (p.offset l)) :=
    encloses_part h.cursor
  have hclear := clear_part hconfig p l
  have hold : ∀ v ∈ placed, boxIn (p.add config c l).members v = boxIn p.members v :=
    fun v hv => boxIn_add_of_notMem (hdisjoint hv)
  constructor
  case size => rw [size_members_add, h.size]
  case cursor => exact add_nonneg h.cursor (add_nonneg hwidth hconfig.componentGap.le)
  case height => exact le_trans h.height (le_max_left _ _)
  case sized =>
    intro v hv
    rcases List.mem_append.mp hv with hv | hv
    · rw [hold v hv]
      exact h.sized v hv
    · obtain ⟨m, hm, hbox⟩ := h.exists_boxIn_add hl hnodup hlt hv
      rw [hbox]
      exact ⟨by rw [Bounds.width_translate, hl.width v m hm], by
        rw [Bounds.height_translate, hl.height v m hm]⟩
  case within =>
    intro v hv
    rcases List.mem_append.mp hv with hv | hv
    · exact hroom.trans (h.room_encloses hdisjoint hv)
    · exact hpart.trans (h.part_encloses hl hnodup hlt hv)
  case clear =>
    intro v hv w hw hvw
    rcases List.mem_append.mp hv with hv | hv
    · rcases List.mem_append.mp hw with hw | hw
      · rw [hold v hv, hold w hw]
        exact h.clear v hv w hw hvw
      · exact h.clear_boxIn_add hl hnodup hlt hconfig hdisjoint hv hw
    · rcases List.mem_append.mp hw with hw | hw
      · exact (h.clear_boxIn_add hl hnodup hlt hconfig hdisjoint hw hv).symm
      · obtain ⟨m, hm, hbox⟩ := h.exists_boxIn_add hl hnodup hlt hv
        obtain ⟨n, hn, hbox'⟩ := h.exists_boxIn_add hl hnodup hlt hw
        rw [hbox, hbox', Bounds.clear_translate]
        exact clear_of_mem_zip hl hm hn hvw
  case edges =>
    intro e he
    rcases List.mem_append.mp he with he | he
    · exact (h.edges e he).mono hroom
    · obtain ⟨w, hw, rfl⟩ := List.mem_map.mp he
      exact ((hrouted.within w hw).translate _).mono hpart
  case avoids =>
    intro e he hkind v hv
    rcases List.mem_append.mp he with he | he
    · rcases List.mem_append.mp hv with hv | hv
      · rw [hold v hv]
        exact h.avoids e he hkind v hv
      · exact ((h.edges e he).avoids hclear).mono (h.part_encloses hl hnodup hlt hv)
    · obtain ⟨w, hw, rfl⟩ := List.mem_map.mp he
      rcases List.mem_append.mp hv with hv | hv
      · exact (((hrouted.within w hw).translate _).avoids hclear.symm).mono
          (h.room_encloses hdisjoint hv)
      · obtain ⟨m, hm, hbox⟩ := h.exists_boxIn_add hl hnodup hlt hv
        rw [hbox]
        exact (hrouted.avoids w hw hkind m (List.of_mem_zip hm).2).translate _

end Add

/-! ### All parts -/

/-- Parts are placed clear of each other. -/
lemma Packed.addAll (hconfig : config.Sensible) (hsizes : NonnegSizes sizes)
    {parts : List (Component × ComponentLayout Rat)} (h : Packed config sizes placed p)
    (hparts : ∀ part ∈ parts, Component.Fitted sizes part.1 part.2 ∧ Component.Routed part.2 ∧
      part.1.members.Nodup ∧ part.1.members ≠ [] ∧ ∀ v ∈ part.1.members, v < sizes.size)
    (hpairwise : parts.Pairwise fun a b => a.1.members.Disjoint b.1.members)
    (hdisjoint : ∀ part ∈ parts, placed.Disjoint part.1.members) :
    Packed config sizes (placed ++ parts.flatMap (·.1.members)) (p.addAll config parts) := by
  induction parts generalizing p placed with
  | nil =>
      rw [List.flatMap_nil, List.append_nil]
      exact h
  | cons part parts ih =>
      obtain ⟨hl, hrouted, hnodup, hne, hlt⟩ := hparts part (by simp)
      rw [List.pairwise_cons] at hpairwise
      have hnext := h.add hl hnodup hlt hconfig hsizes hrouted hne (hdisjoint part (by simp))
      have hrest := ih hnext (fun q hq => hparts q (by simp [hq])) hpairwise.2 fun q hq =>
        List.disjoint_append_left.mpr ⟨hdisjoint q (by simp [hq]), hpairwise.1 q hq⟩
      rw [List.flatMap_cons, ← List.append_assoc]
      exact hrest

lemma packed_start (config : GraphConfig Rat) (sizes : Array (Size Rat)) :
    Packed config sizes [] (Progress.start sizes) := by
  refine ⟨by simp [Progress.start], le_refl _, le_refl _, ?_, ?_, ?_, ?_, ?_⟩ <;>
    simp [Progress.start]

/-- Members have the sizes they were given, are clear of each other and of the edges between ranks,
and all lie in the room of the scope. -/
structure Fitted (s : Scope) (sizes : Array (Size Rat)) (l : ScopeLayout Rat) : Prop where
  size : l.members.size = s.members.length
  width : 0 ≤ l.size.width
  height : 0 ≤ l.size.height
  sized : ∀ v < s.members.length, Sized sizes v (boxIn l.members v)
  within : ∀ v < s.members.length,
    (Bounds.ofCorner Point.origin l.size).Encloses (boxIn l.members v)
  clear : ∀ v < s.members.length, ∀ w < s.members.length, v ≠ w →
    (boxIn l.members v).Clear (boxIn l.members w)
  edges : ∀ e ∈ l.edges, e.Within (Bounds.ofCorner Point.origin l.size)
  avoids : ∀ e ∈ l.edges, e.kind = .normal → ∀ v < s.members.length, e.Avoids (boxIn l.members v)

variable {s : Scope}

/-- A scope takes the room of its parts. -/
lemma room_eq (config : GraphConfig Rat) (sizes : Array (Size Rat))
    {parts : List (Component × ComponentLayout Rat)} (h : parts.isEmpty = false) :
    Bounds.ofCorner Point.origin (ofParts config sizes parts).size =
      room config ((Progress.start sizes).addAll config parts) := by
  simp [ofParts, h, Bounds.ofCorner, Point.origin, room]

/-- **The members of a scope are placed clear of each other and of the edges between ranks.** -/
lemma fitted_of_layout (hconfig : config.Sensible) (hs : s.WellFormed) (hsizes : NonnegSizes sizes)
    (hsize : sizes.size = s.members.length) {named after : Nat} {l : ScopeLayout Rat}
    (h : ofScope config s sizes shapes named = .ok (l, after)) : Fitted s sizes l := by
  obtain ⟨parts, hparts, rfl⟩ := exists_parts hs h
  have hmem : ∀ part ∈ parts, part.1 ∈ Component.ofScope s := fun _ => hparts.mem_ofScope
  have hpacked : Packed config sizes ([] ++ parts.flatMap (·.1.members))
      ((Progress.start sizes).addAll config parts) := by
    refine (packed_start config sizes).addAll hconfig hsizes (fun part hpart => ?_)
      hparts.pairwise_disjoint (by simp)
    obtain ⟨_, _, hlayout⟩ := hparts.layouts part hpart
    exact ⟨Component.fitted_of_layout hconfig hsizes hs (hmem part hpart) hlayout,
      Component.routed_of_layout hconfig hsizes hs (hmem part hpart) hlayout,
      Component.nodup_of_mem_ofScope (hmem part hpart),
      Component.members_ne_nil (hmem part hpart),
      fun v hv => hsize ▸ Component.lt_of_mem (hmem part hpart) hv⟩
  -- every member of the scope is in one of the parts
  have hall : ∀ v < s.members.length, v ∈ [] ++ parts.flatMap (·.1.members) := by
    intro v hv
    obtain ⟨c, hc, hvc⟩ := Component.exists_of_member hs hv
    obtain ⟨part, hpart, rfl⟩ := hparts.exists_part hc
    exact List.mem_flatMap.mpr ⟨part, hpart, hvc⟩
  cases hnone : parts.isEmpty with
  | true =>
      obtain rfl := List.isEmpty_iff.mp hnone
      have hempty : ∀ v, ¬ v < s.members.length := fun v hv => List.not_mem_nil (hall v hv)
      have hnoedge : ∀ e, e ∉ (ofParts config sizes []).edges :=
        fun e he => List.not_mem_nil (mem_edges_ofParts.mp he)
      exact ⟨hpacked.size.trans hsize, le_refl _, le_refl _, fun v hv => absurd hv (hempty v),
        fun v hv => absurd hv (hempty v), fun v hv => absurd hv (hempty v),
        fun e he => absurd he (hnoedge e), fun e he => absurd he (hnoedge e)⟩
  | false =>
      have hroom := room_eq config sizes hnone
      obtain ⟨part, hpart⟩ := List.exists_mem_of_ne_nil _ (List.isEmpty_eq_false_iff.mp hnone)
      obtain ⟨v, hv⟩ := List.exists_mem_of_ne_nil _ (Component.members_ne_nil (hmem part hpart))
      have hv := hall v (Component.lt_of_mem (hmem part hpart) hv)
      refine ⟨hpacked.size.trans hsize, ?_, hpacked.height, fun v hv => hpacked.sized v (hall v hv),
        fun v hv => hroom ▸ hpacked.within v (hall v hv),
        fun v hv w hw => hpacked.clear v (hall v hv) w (hall w hw),
        fun e he => hroom ▸ hpacked.edges e (mem_edges_ofParts.mp he),
        fun e he hkind v hv => hpacked.avoids e (mem_edges_ofParts.mp he) hkind v (hall v hv)⟩
      -- the room is at least as wide as a member
      have hwidth : (ofParts config sizes parts).size.width =
          (room config ((Progress.start sizes).addAll config parts)).maxX := by
        rw [← hroom]
        exact (zero_add _).symm
      have hmin := (hpacked.within v hv).minX
      have hmax := (hpacked.within v hv).maxX
      have hnonneg := (Component.sizeOf_nonneg hsizes v).1
      rw [← (hpacked.sized v hv).width, Bounds.width] at hnonneg
      rw [hwidth]
      have hzero : (room config ((Progress.start sizes).addAll config parts)).minX = 0 := rfl
      linarith

end Drafting.Graph.ScopeLayout
