import Mathlib
import Drafting.Proofs.Digraph.Paths

/-!
What a depth-first search finds.

The vertices on the stack will be left from the top downward, after those left already; `leaving`
lists all vertices entered so far in this order, the last one to be left first.  A step of the
search keeps this list or puts a new vertex into it, so whatever stands before something else stays
there.

* `Searching`: what holds between two steps.  An arc that has been followed points forward in
  `leaving`, or backward if it was found to lead back to the stack, and in this case arcs that do
  not lead back connect its target with its source.
* `Searching.leave`, `Searching.consume`, `Searching.enter`: the steps of the search keep it.
* `searching_searchAll`: what holds in the end.
-/

namespace Drafting.Graph.Digraph

open scoped List

variable {g : Digraph}

/-! ### The state of a search -/

/-- The vertices entered so far; the last one to be left comes first. -/
def leaving (found : Found) (frames : List Frame) : List Nat :=
  (frames.map Prod.fst).reverse ++ found.finished

/-- An arc that a vertex on the stack has still to follow. -/
def Pending (frames : List Frame) (i : Nat) : Prop := ∃ frame ∈ frames, ∃ w, (i, w) ∈ frame.2

/-- An arc that has been followed. -/
structure Followed (g : Digraph) (found : Found) (frames : List Frame) (i : Nat) (a : Arc) :
    Prop where
  arc : g.arcs[i]? = some a
  entered : a.source ∈ leaving found frames
  done : ¬ Pending frames i

/-- An arc that has been followed and does not lead back connects two vertices. -/
def Link (g : Digraph) (found : Found) (frames : List Frame) (v w : Nat) : Prop :=
  ∃ i a, Followed g found frames i a ∧ i ∉ found.back ∧ a.source = v ∧ a.target = w

/-- What holds between two steps of a search. -/
structure Searching (g : Digraph) (found : Found) (frames : List Frame) : Prop where
  nodup : (leaving found frames).Nodup
  size : found.visited.size = g.size
  visited : ∀ v, found.visited[v]? = some true ↔ v ∈ leaving found frames
  rest : ∀ frame ∈ frames, frame.2 <:+ g.outgoing frame.1
  linked : (frames.map Prod.fst).IsChain fun w v => Link g found frames v w
  forward : ∀ i a, Followed g found frames i a → i ∉ found.back → a.source ≠ a.target →
    [a.source, a.target] <+ leaving found frames
  backward : ∀ i a, Followed g found frames i a → i ∈ found.back →
    [a.target, a.source] <+ leaving found frames
  closes : ∀ i ∈ found.back, ∃ a, Followed g found frames i a ∧ a.source ≠ a.target ∧
    Relation.ReflTransGen (Link g found frames) a.target a.source

/-- What a step does to arcs that have been followed: they stay so, and do not lead back if they did
not. -/
structure Advances (g : Digraph) (found : Found) (frames : List Frame) (found' : Found)
    (frames' : List Frame) :
    Prop where
  leaving : leaving found frames <+ leaving found' frames'
  followed : ∀ i a, Followed g found frames i a → Followed g found' frames' i a
  back : ∀ i a, Followed g found frames i a → i ∈ found'.back → i ∈ found.back

variable {found found' : Found} {frames frames' : List Frame}

lemma Advances.link (h : Advances g found frames found' frames') {v w : Nat}
    (hl : Link g found frames v w) :
    Link g found' frames' v w := by
  obtain ⟨i, a, hf, hb, hs, ht⟩ := hl
  exact ⟨i, a, h.followed i a hf, fun hi => hb (h.back i a hf hi), hs, ht⟩

lemma Advances.reach (h : Advances g found frames found' frames') {v w : Nat}
    (hl : Relation.ReflTransGen (Link g found frames) v w) :
    Relation.ReflTransGen (Link g found' frames') v w :=
  Relation.ReflTransGen.mono (fun _ _ => h.link) _ _ hl

/-- An arc found to lead back keeps the connection from its target to its source. -/
lemma Advances.closes (h : Advances g found frames found' frames') {i : Nat} {a : Arc}
    (hc : Followed g found frames i a ∧ a.source ≠ a.target ∧
      Relation.ReflTransGen (Link g found frames) a.target a.source) :
    ∃ a, Followed g found' frames' i a ∧ a.source ≠ a.target ∧
      Relation.ReflTransGen (Link g found' frames') a.target a.source :=
  ⟨a, h.followed i a hc.1, hc.2.1, h.reach hc.2.2⟩

/-- In a chain each entry leads to the first. -/
lemma reach_of_isChain {R : Nat → Nat → Prop} {stack : List Nat} {v : Nat}
    (h : (v :: stack).IsChain fun w v => R v w) {u : Nat} (hu : u ∈ stack) :
    Relation.ReflTransGen R u v := by
  induction stack generalizing v with
  | nil => simp at hu
  | cons x stack ih =>
      rw [List.isChain_cons_cons] at h
      rcases List.mem_cons.mp hu with rfl | hu
      · exact Relation.ReflTransGen.single h.1
      · exact (ih h.2 hu).tail h.1

/-! ### New vertices -/

/-- Marking a new vertex as visited. -/
lemma visited_mark {marks : Array Bool} {seen seen' : List Nat} {w : Nat}
    (h : ∀ v, marks[v]? = some true ↔ v ∈ seen) (hw : marks[w]? = some false)
    (hseen : ∀ v, v ∈ seen' ↔ v = w ∨ v ∈ seen) (v : Nat) :
    (marks.setIfInBounds w true)[v]? = some true ↔ v ∈ seen' := by
  obtain ⟨hlt, -⟩ := Array.getElem?_eq_some_iff.mp hw
  rw [hseen, ← h, Array.getElem?_setIfInBounds]
  by_cases hv : w = v
  · subst hv
    simp [hlt]
  · simp [hv, Ne.symm hv]

/-- A vertex without a mark has not been entered. -/
lemma Searching.not_mem_leaving (h : Searching g found frames) {w : Nat}
    (hw : found.visited[w]? = some false) :
    w ∉ leaving found frames := by
  rw [← h.visited, hw]
  simp

/-- An arc that has been followed leaves no vertex that has not been entered. -/
lemma Followed.not_mem_outgoing {i u w : Nat} {a : Arc} (hf : Followed g found frames i a)
    (hw : w ∉ leaving found frames) : (i, u) ∉ g.outgoing w := by
  intro hu
  obtain ⟨b, hb, hbs, -⟩ := mem_outgoing.mp hu
  obtain rfl : a = b := Option.some.inj (hf.arc.symm.trans hb)
  exact hw (hbs ▸ hf.entered)

/-! ### Arcs of the vertex on top -/

section Top

variable {v w arc : Nat} {more : List (Nat × Nat)} {rest : List Frame}

/-- The next arc has still to be followed. -/
lemma pending_next : Pending ((v, (arc, w) :: more) :: rest) arc :=
  ⟨(v, (arc, w) :: more), by simp, w, by simp⟩

/-- What is still to be followed after the next arc was so before. -/
lemma Pending.of_consume {i : Nat} (h : Pending ((v, more) :: rest) i) :
    Pending ((v, (arc, w) :: more) :: rest) i := by
  obtain ⟨frame, hframe, u, hu⟩ := h
  rcases List.mem_cons.mp hframe with rfl | hframe
  · exact ⟨(v, (arc, w) :: more), by simp, u, by simp [hu]⟩
  · exact ⟨frame, by simp [hframe], u, hu⟩

/-- The arcs that are left without the next one are the last of their vertices. -/
lemma Searching.rest_consume (h : Searching g found ((v, (arc, w) :: more) :: rest)) :
    ∀ frame ∈ (v, more) :: rest, frame.2 <:+ g.outgoing frame.1 := by
  intro frame hframe
  rcases List.mem_cons.mp hframe with rfl | hframe
  · exact (List.suffix_cons _ _).trans (h.rest (v, (arc, w) :: more) (by simp))
  · exact h.rest frame (by simp [hframe])

/-- The next arc of the vertex on top leaves that vertex. -/
lemma Searching.next_arc (h : Searching g found ((v, (arc, w) :: more) :: rest)) :
    ∃ a, g.arcs[arc]? = some a ∧ a.source = v ∧ a.target = w := by
  have hsuffix : (arc, w) :: more <:+ g.outgoing v := h.rest (v, (arc, w) :: more) (by simp)
  exact mem_outgoing.mp (hsuffix.subset (by simp))

/-- Arcs of different vertices on the stack are different, and so are those of one vertex; so the
next arc is nowhere else. -/
lemma Searching.next_not_pending (h : Searching g found ((v, (arc, w) :: more) :: rest)) :
    ¬ Pending ((v, more) :: rest) arc := by
  obtain ⟨a, harc, hs, -⟩ := h.next_arc
  rintro ⟨frame, hframe, u, hu⟩
  rcases List.mem_cons.mp hframe with rfl | hframe
  · have hn := (h.rest (v, (arc, w) :: more) (by simp)).sublist.map Prod.fst |>.nodup
      (nodup_outgoing g v)
    rw [List.map_cons, List.nodup_cons] at hn
    exact hn.1 (List.mem_map.mpr ⟨(arc, u), hu, rfl⟩)
  · obtain ⟨b, hb, hbs, -⟩ := mem_outgoing.mp ((h.rest frame (by simp [hframe])).subset hu)
    obtain rfl : a = b := by rw [harc] at hb; exact Option.some.inj hb
    have hn := (List.nodup_append.mp h.nodup).1
    rw [List.nodup_reverse, List.map_cons, List.nodup_cons] at hn
    exact hn.1 (List.mem_map.mpr ⟨frame, hframe, by rw [← hbs, hs]⟩)

/-- The next arc has not been found to lead back. -/
lemma Searching.next_not_mem_back (h : Searching g found ((v, (arc, w) :: more) :: rest)) :
    arc ∉ found.back := by
  intro hi
  obtain ⟨a, hf, -⟩ := h.closes arc hi
  exact hf.done pending_next

/-- After the next arc is taken, the arcs that have been followed are those before and this one. -/
lemma followed_of_consume
    (h : leaving found' ((v, more) :: rest) = leaving found ((v, (arc, w) :: more) :: rest))
      {i : Nat} {a : Arc} (hf : Followed g found' ((v, more) :: rest) i a) :
    i = arc ∨ Followed g found ((v, (arc, w) :: more) :: rest) i a := by
  by_cases hi : i = arc
  · exact Or.inl hi
  · refine Or.inr ⟨hf.arc, h ▸ hf.entered, ?_⟩
    rintro ⟨frame, hframe, u, hu⟩
    rcases List.mem_cons.mp hframe with rfl | hframe
    · rcases List.mem_cons.mp hu with hu | hu
      · exact hi (Prod.mk.inj hu).1
      · exact hf.done ⟨(v, more), by simp, u, hu⟩
    · exact hf.done ⟨frame, by simp [hframe], u, hu⟩

/-- Taking the next arc advances the search, whether the arc is found to lead back or not. -/
lemma Searching.advances_consume (h : Searching g found ((v, (arc, w) :: more) :: rest))
    (hfin : found'.finished = found.finished)
    (hback : found'.back = found.back ∨ found'.back = arc :: found.back) :
    Advances g found ((v, (arc, w) :: more) :: rest) found' ((v, more) :: rest) := by
  have hleaving : leaving found' ((v, more) :: rest) =
      leaving found ((v, (arc, w) :: more) :: rest) := by
    simp [leaving, hfin]
  refine ⟨by rw [hleaving], fun i a hf => ⟨hf.arc, hleaving ▸ hf.entered, fun hp => ?_⟩,
    fun i a hf hi => ?_⟩
  · exact hf.done hp.of_consume
  · have hne : i ≠ arc := by
      rintro rfl
      exact hf.done pending_next
    rcases hback with hback | hback
    · rwa [hback] at hi
    · rw [hback, List.mem_cons] at hi
      exact hi.resolve_left hne

/-- From every vertex on the stack one leads to the vertex on top. -/
lemma Searching.reach_top (h : Searching g found ((v, (arc, w) :: more) :: rest)) {u : Nat}
    (hu : u ∈ rest.map Prod.fst) :
    Relation.ReflTransGen (Link g found ((v, (arc, w) :: more) :: rest)) u v := by
  have hchain := h.linked
  rw [List.map_cons] at hchain
  exact reach_of_isChain hchain hu

/-- A vertex on the stack stands before the vertex on top. -/
lemma sublist_leaving_of_mem_stack {u : Nat} (hu : u ∈ rest.map Prod.fst) :
    [u, v] <+ leaving found ((v, more) :: rest) := by
  have hstack : [u] <+ (rest.map Prod.fst).reverse := by simpa using hu
  have htop : [v] <+ [v] := List.Sublist.refl _
  simpa [leaving] using (hstack.append htop).trans (List.sublist_append_left _ found.finished)

/-- The vertex on top stands before those that have been left. -/
lemma sublist_leaving_of_mem_finished {u : Nat} (hu : u ∈ found.finished) :
    [v, u] <+ leaving found ((v, more) :: rest) := by
  have htop : [v] <+ (rest.map Prod.fst).reverse ++ [v] := List.sublist_append_right _ _
  have hleft : [u] <+ found.finished := by simpa using hu
  simpa [leaving] using htop.append hleft

/-! ### Steps -/

/-- Leaving the vertex on top: nothing about followed arcs changes. -/
lemma Searching.leave (h : Searching g found ((v, []) :: rest)) :
    Searching g { found with finished := v :: found.finished } rest := by
  have hleaving : leaving { found with finished := v :: found.finished } rest =
    leaving found ((v, []) :: rest) := by
    simp [leaving]
  have hpending : ∀ i, Pending rest i ↔ Pending ((v, []) :: rest) i := by
    intro i
    simp [Pending]
  have hfollowed : ∀ i a, Followed g { found with finished := v :: found.finished } rest i a ↔
      Followed g found ((v, []) :: rest) i a := by
    intro i a
    exact ⟨fun hf => ⟨hf.arc, hleaving ▸ hf.entered, fun hp => hf.done ((hpending i).mpr hp)⟩,
      fun hf => ⟨hf.arc, hleaving ▸ hf.entered, fun hp => hf.done ((hpending i).mp hp)⟩⟩
  have hadv : Advances g found ((v, []) :: rest)
      { found with finished := v :: found.finished } rest :=
    ⟨by rw [hleaving], fun i a => (hfollowed i a).mpr, fun _ _ _ hi => hi⟩
  refine ⟨hleaving ▸ h.nodup, h.size, fun u => hleaving ▸ h.visited u,
    fun frame hframe => h.rest frame (by simp [hframe]), ?_, ?_, ?_, ?_⟩
  · have hchain := h.linked
    rw [List.map_cons] at hchain
    exact hchain.tail.imp fun _ _ => hadv.link
  · intro i a hf
    rw [hleaving]
    exact h.forward i a ((hfollowed i a).mp hf)
  · intro i a hf
    rw [hleaving]
    exact h.backward i a ((hfollowed i a).mp hf)
  · intro i hi
    obtain ⟨a, ha⟩ := h.closes i hi
    exact hadv.closes ha

/-- Taking an arc that enters no new vertex: a loop, an arc to a vertex that has been left, or an
arc back to the stack. -/
lemma Searching.consume (h : Searching g found ((v, (arc, w) :: more) :: rest)) (back : List Nat)
    (hcase : w = v ∧ back = found.back ∨ w ∈ found.finished ∧ back = found.back ∨
      (w ≠ v ∧ w ∈ rest.map Prod.fst) ∧ back = arc :: found.back) :
    Searching g { found with back := back } ((v, more) :: rest) := by
  have hadv : Advances g found ((v, (arc, w) :: more) :: rest) { found with back := back }
    ((v, more) :: rest) :=
    h.advances_consume rfl (by rcases hcase with ⟨-, h⟩ | ⟨-, h⟩ | ⟨-, h⟩ <;> simp [h])
  have hleaving : leaving { found with back := back } ((v, more) :: rest) =
      leaving found ((v, (arc, w) :: more) :: rest) := by
    simp [leaving]
  obtain ⟨b, hb, hbs, hbt⟩ := h.next_arc
  have hnew : Followed g { found with back := back } ((v, more) :: rest) arc b :=
    ⟨hb, by simp [leaving, hbs], h.next_not_pending⟩
  have harc : arc ∉ found.back := h.next_not_mem_back
  refine ⟨hleaving ▸ h.nodup, h.size, fun u => hleaving ▸ h.visited u, ?_, ?_, ?_, ?_, ?_⟩
  · exact h.rest_consume
  · have hchain := h.linked
    rw [List.map_cons] at hchain ⊢
    exact hchain.imp fun _ _ => hadv.link
  · intro i a hf hi hne
    rcases followed_of_consume hleaving hf with rfl | hf'
    · obtain rfl : a = b := Option.some.inj (hf.arc.symm.trans hb)
      rcases hcase with ⟨hw, -⟩ | ⟨hw, -⟩ | ⟨-, hback⟩
      · exact absurd (by rw [hbs, hbt, hw]) hne
      · rw [hbs, hbt]
        exact @sublist_leaving_of_mem_finished { found with back := back } _ _ _ _ hw
      · exact absurd (by simp [hback]) hi
    · rw [hleaving]
      refine h.forward i a hf' (fun hib => hi ?_) hne
      rcases hcase with ⟨-, h⟩ | ⟨-, h⟩ | ⟨-, h⟩ <;> simp [h, hib]
  · intro i a hf hi
    rcases followed_of_consume hleaving hf with rfl | hf'
    · obtain rfl : a = b := Option.some.inj (hf.arc.symm.trans hb)
      rcases hcase with ⟨-, hback⟩ | ⟨-, hback⟩ | ⟨⟨-, hw⟩, -⟩
      · exact absurd (hback ▸ hi) harc
      · exact absurd (hback ▸ hi) harc
      · rw [hbs, hbt]
        exact sublist_leaving_of_mem_stack hw
    · rw [hleaving]
      exact h.backward i a hf' (hadv.back i a hf' hi)
  · intro i hi
    by_cases hia : i = arc
    · subst hia
      rcases hcase with ⟨-, hback⟩ | ⟨-, hback⟩ | ⟨⟨hne, hw⟩, -⟩
      · exact absurd (hback ▸ hi) harc
      · exact absurd (hback ▸ hi) harc
      · refine ⟨b, hnew, by rw [hbs, hbt]; exact hne.symm, ?_⟩
        rw [hbs, hbt]
        exact hadv.reach (h.reach_top hw)
    · have hib : i ∈ found.back := by
        rcases hcase with ⟨-, hback⟩ | ⟨-, hback⟩ | ⟨-, hback⟩
        · exact hback ▸ hi
        · exact hback ▸ hi
        · have hi' : i ∈ arc :: found.back := hback ▸ hi
          exact (List.mem_cons.mp hi').resolve_left hia
      obtain ⟨a, ha⟩ := h.closes i hib
      exact hadv.closes ha

/-- A new vertex that is entered will be left right before the vertex on top. -/
lemma leaving_enter {visited : Array Bool} {out : List (Nat × Nat)} :
    leaving { found with visited := visited } ((w, out) :: (v, more) :: rest) =
      (rest.map Prod.fst).reverse ++ ([v, w] ++ found.finished) := by
  simp [leaving]

/-- Besides the vertices entered before there is the new one. -/
lemma leaving_enter_perm {visited : Array Bool} {out : List (Nat × Nat)} :
    leaving { found with visited := visited } ((w, out) :: (v, more) :: rest) ~
      w :: leaving found ((v, more) :: rest) := by
  have hswap : [v, w] ++ found.finished ~ w :: ([v] ++ found.finished) := List.Perm.swap _ _ _
  rw [leaving_enter]
  simpa [leaving] using (hswap.append_left (rest.map Prod.fst).reverse).trans List.perm_middle

/-- An arc followed before a new vertex is entered leaves another vertex, so it is not among the
arcs of the new one. -/
lemma Searching.advances_enter (h : Searching g found ((v, (arc, w) :: more) :: rest))
    (hw : found.visited[w]? = some false) {visited : Array Bool} :
    Advances g found ((v, (arc, w) :: more) :: rest) { found with visited := visited }
      ((w, g.outgoing w) :: (v, more) :: rest) := by
  refine ⟨?_, fun i a hf => ⟨hf.arc, ?_, ?_⟩, fun _ _ _ hi => hi⟩
  · rw [leaving_enter]
    simp [leaving]
  · exact leaving_enter_perm.mem_iff.mpr (List.mem_cons_of_mem _ hf.entered)
  · rintro ⟨frame, hframe, u, hu⟩
    rcases List.mem_cons.mp hframe with rfl | hframe
    · exact hf.not_mem_outgoing (h.not_mem_leaving hw) hu
    · exact hf.done (Pending.of_consume ⟨frame, hframe, u, hu⟩)

/-- After a new vertex is entered, the arcs that have been followed are those before and the one
that led to it. -/
lemma followed_of_enter {visited : Array Bool} {i : Nat} {a : Arc}
    (hf : Followed g { found with visited := visited } ((w, g.outgoing w) :: (v, more) :: rest)
      i a) :
    i = arc ∨ Followed g found ((v, (arc, w) :: more) :: rest) i a := by
  rcases List.mem_cons.mp (leaving_enter_perm.mem_iff.mp hf.entered) with hsource | hentered
  · exact absurd ⟨(w, g.outgoing w), by simp, a.target,
      mem_outgoing.mpr ⟨a, hf.arc, hsource, rfl⟩⟩ hf.done
  · have hrest : Followed g found ((v, more) :: rest) i a := by
      refine ⟨hf.arc, hentered, fun ⟨frame, hframe, u, hu⟩ => hf.done ?_⟩
      exact ⟨frame, List.mem_cons_of_mem _ hframe, u, hu⟩
    exact followed_of_consume rfl hrest

/-- The arc that leads to a new vertex has been followed once the vertex is entered. -/
lemma Searching.followed_enter (h : Searching g found ((v, (arc, w) :: more) :: rest))
    (hw : found.visited[w]? = some false) {visited : Array Bool} :
    ∃ b, Followed g { found with visited := visited } ((w, g.outgoing w) :: (v, more) :: rest)
      arc b ∧ b.source = v ∧ b.target = w := by
  obtain ⟨b, hb, hbs, hbt⟩ := h.next_arc
  refine ⟨b, ⟨hb, leaving_enter_perm.mem_iff.mpr (List.mem_cons_of_mem _ ?_), ?_⟩, hbs, hbt⟩
  · simp [leaving, hbs]
  · rintro ⟨frame, hframe, u, hu⟩
    rcases List.mem_cons.mp hframe with rfl | hframe
    · obtain ⟨c, hc, hcs, -⟩ := mem_outgoing.mp hu
      obtain rfl : b = c := Option.some.inj (hb.symm.trans hc)
      refine h.not_mem_leaving hw ?_
      rw [← hcs, hbs]
      simp [leaving]
    · exact h.next_not_pending ⟨frame, hframe, u, hu⟩

/-- Entering a new vertex puts it right after the vertex on top. -/
lemma Searching.enter (h : Searching g found ((v, (arc, w) :: more) :: rest))
    (hw : found.visited[w]? = some false) :
    Searching g { found with visited := found.visited.setIfInBounds w true }
      ((w, g.outgoing w) :: (v, more) :: rest) := by
  set found' : Found := { found with visited := found.visited.setIfInBounds w true }
  set frames' : List Frame := (w, g.outgoing w) :: (v, more) :: rest
  have hadv : Advances g found ((v, (arc, w) :: more) :: rest) found' frames' :=
    h.advances_enter hw
  have hperm : leaving found' frames' ~ w :: leaving found ((v, (arc, w) :: more) :: rest) :=
    leaving_enter_perm
  obtain ⟨b, hb, hbs, hbt⟩ : ∃ b, Followed g found' frames' arc b ∧ b.source = v ∧ b.target = w :=
    h.followed_enter hw
  have hnew : ∀ i a, Followed g found' frames' i a →
      i = arc ∨ Followed g found ((v, (arc, w) :: more) :: rest) i a :=
    fun _ _ => followed_of_enter
  refine ⟨?_, ?_, ?_, ?_, ?_, ?_, ?_, ?_⟩
  · exact hperm.nodup_iff.mpr (List.nodup_cons.mpr ⟨h.not_mem_leaving hw, h.nodup⟩)
  · simpa [found'] using h.size
  · exact visited_mark h.visited hw fun u => hperm.mem_iff.trans List.mem_cons
  · intro frame hframe
    rcases List.mem_cons.mp hframe with rfl | hframe
    · exact List.suffix_refl _
    · exact h.rest_consume frame hframe
  · have hchain := h.linked
    rw [List.map_cons] at hchain
    rw [List.map_cons, List.map_cons, List.isChain_cons_cons]
    exact ⟨⟨arc, b, hb, h.next_not_mem_back, hbs, hbt⟩, hchain.imp fun _ _ => hadv.link⟩
  · intro i a hf hi hne
    rcases hnew i a hf with rfl | hf'
    · obtain rfl : a = b := Option.some.inj (hf.arc.symm.trans hb.arc)
      rw [hbs, hbt, leaving_enter]
      exact (List.sublist_append_left [v, w] _).trans (List.sublist_append_right _ _)
    · exact (h.forward i a hf' hi hne).trans hadv.leaving
  · intro i a hf hi
    rcases hnew i a hf with rfl | hf'
    · exact absurd hi h.next_not_mem_back
    · exact (h.backward i a hf' hi).trans hadv.leaving
  · intro i hi
    obtain ⟨a, ha⟩ := h.closes i hi
    exact hadv.closes ha

end Top

/-! ### Runs -/

/-- A vertex that is not on the stack and has been visited has been left. -/
lemma Searching.mem_finished (h : Searching g found frames) {w : Nat}
    (hw : found.visited[w]? = some true) (hstack : w ∉ frames.map Prod.fst) :
    w ∈ found.finished := by
  have hmem := (h.visited w).mp hw
  rw [leaving, List.mem_append, List.mem_reverse] at hmem
  exact hmem.resolve_left hstack

/-- A search keeps what holds between its steps until the stack is empty. -/
lemma Searching.search (hg : g.WellFormed) (h : Searching g found frames) :
    Searching g (Digraph.search g found frames) [] := by
  fun_induction Digraph.search g found frames with
  | case1 found => exact h
  | case2 found v rest ih => exact ih h.leave
  | case3 found v arc more rest ih => exact ih (h.consume found.back (Or.inl ⟨rfl, rfl⟩))
  | case4 found v arc w more rest hne hany ih =>
      refine ih (h.consume (arc :: found.back) (Or.inr (Or.inr ⟨⟨hne, ?_⟩, rfl⟩)))
      obtain ⟨frame, hframe, hw⟩ := List.any_eq_true.mp hany
      exact List.mem_map.mpr ⟨frame, hframe, by simpa using hw⟩
  | case5 found v arc w more rest hne hany hnew ih => exact ih (h.enter hnew)
  | case6 found v arc w more rest hne hany hold ih =>
      refine ih (h.consume found.back (Or.inr (Or.inl ⟨?_, rfl⟩)))
      -- the target is a vertex of the graph, so it has been visited
      obtain ⟨a, ha, -, hat⟩ := h.next_arc
      have hlt : w < found.visited.size := by
        rw [h.size, ← hat]
        exact (hg a (List.mem_of_getElem? ha)).2
      have hvisited : found.visited[w]? = some true := by
        rw [Array.getElem?_eq_getElem hlt] at hold ⊢
        simpa using hold
      refine h.mem_finished hvisited fun hw => ?_
      obtain ⟨frame, hframe, hframew⟩ := List.mem_map.mp hw
      rcases List.mem_cons.mp hframe with rfl | hframe
      · exact hne hframew.symm
      · exact hany (List.any_eq_true.mpr ⟨frame, hframe, by simpa using hframew⟩)

/-- A search keeps the order of the vertices it had entered. -/
lemma leaving_sublist_search (g : Digraph) (found : Found) (frames : List Frame) :
    leaving found frames <+ (Digraph.search g found frames).finished := by
  fun_induction Digraph.search g found frames with
  | case1 found => simp [leaving]
  | case2 found v rest ih => simpa [leaving] using ih
  | case3 found v arc more rest ih => simpa [leaving] using ih
  | case4 found v arc w more rest hne hany ih => simpa [leaving] using ih
  | case5 found v arc w more rest hne hany hnew ih =>
      refine List.Sublist.trans ?_ ih
      simp only [leaving, List.map_cons, List.reverse_cons, List.append_assoc]
      exact (List.Sublist.refl _).append
        ((List.Sublist.refl [v]).append (List.sublist_append_right [w] found.finished))
  | case6 found v arc w more rest hne hany hold ih => simpa [leaving] using ih

/-- Starting at a new vertex. -/
lemma Searching.start (h : Searching g found []) {v : Nat} (hv : found.visited[v]? = some false) :
    Searching g { found with visited := found.visited.setIfInBounds v true }
      [(v, g.outgoing v)] := by
  set found' : Found := { found with visited := found.visited.setIfInBounds v true } with hfound'
  have hold : leaving found [] = found.finished := rfl
  have hnew : leaving found' [(v, g.outgoing v)] = v :: found.finished := rfl
  have hv_new := h.not_mem_leaving hv
  have hfollowed : ∀ i a, Followed g found' [(v, g.outgoing v)] i a ↔ Followed g found [] i a := by
    intro i a
    constructor
    · intro hf
      refine ⟨hf.arc, ?_, by simp [Pending]⟩
      rcases List.mem_cons.mp (hnew ▸ hf.entered) with hsource | hentered
      · exact absurd ⟨(v, g.outgoing v), by simp, a.target,
          mem_outgoing.mpr ⟨a, hf.arc, hsource, rfl⟩⟩ hf.done
      · exact hentered
    · intro hf
      refine ⟨hf.arc, List.mem_cons_of_mem v hf.entered, ?_⟩
      rintro ⟨frame, hframe, u, hu⟩
      obtain rfl := List.mem_singleton.mp hframe
      exact hf.not_mem_outgoing hv_new hu
  have hsub : leaving found [] <+ leaving found' [(v, g.outgoing v)] := by
    rw [hold, hnew]
    exact List.sublist_cons_self _ _
  have hadv : Advances g found [] found' [(v, g.outgoing v)] :=
    ⟨hsub, fun i a => (hfollowed i a).mpr, fun _ _ _ hi => hi⟩
  refine ⟨?_, ?_, ?_, ?_, by simp, ?_, ?_, ?_⟩
  · rw [hnew]
    exact List.nodup_cons.mpr ⟨hv_new, h.nodup⟩
  · simpa [hfound'] using h.size
  · exact visited_mark h.visited hv fun u => by rw [hnew, hold, List.mem_cons]
  · intro frame hframe
    obtain rfl := List.mem_singleton.mp hframe
    exact List.suffix_refl _
  · intro i a hf hi hne
    exact (h.forward i a ((hfollowed i a).mp hf) hi hne).trans hsub
  · intro i a hf hi
    exact (h.backward i a ((hfollowed i a).mp hf) hi).trans hsub
  · intro i hi
    obtain ⟨a, ha⟩ := h.closes i hi
    exact hadv.closes ha

/-- Searching from one more vertex: the vertex is left in the end, and so are those left before. -/
lemma Searching.searchFrom (hg : g.WellFormed) (h : Searching g found []) {v : Nat}
    (hv : v < g.size) :
    Searching g (searchFrom g found v) [] ∧ v ∈ (Digraph.searchFrom g found v).finished ∧
      found.finished ⊆ (Digraph.searchFrom g found v).finished := by
  rw [Digraph.searchFrom]
  split
  next hnew =>
    have hsub := leaving_sublist_search g
      { found with visited := found.visited.setIfInBounds v true }
      [(v, g.outgoing v)]
    exact ⟨(h.start hnew).search hg, hsub.subset (by simp [leaving]),
      fun u hu => hsub.subset (by simp [leaving, hu])⟩
  next hold =>
    have hlt : v < found.visited.size := h.size ▸ hv
    have hvisited : found.visited[v]? = some true := by
      rw [Array.getElem?_eq_getElem hlt] at hold ⊢
      simpa using hold
    exact ⟨h, h.mem_finished hvisited (by simp), List.Subset.refl _⟩

/-- Searching from the vertices of a list in turn: all of them are left in the end. -/
lemma Searching.foldl_searchFrom (hg : g.WellFormed) {vs : List Nat} (hvs : ∀ v ∈ vs, v < g.size)
    (h : Searching g found []) :
    Searching g (vs.foldl (Digraph.searchFrom g) found) [] ∧
      (∀ v ∈ vs, v ∈ (vs.foldl (Digraph.searchFrom g) found).finished) ∧
      found.finished ⊆ (vs.foldl (Digraph.searchFrom g) found).finished := by
  induction vs generalizing found with
  | nil => exact ⟨h, by simp, List.Subset.refl _⟩
  | cons v vs ih =>
      obtain ⟨h', hv, hsub⟩ := h.searchFrom hg (hvs v (by simp))
      obtain ⟨hend, hall, hsub'⟩ := ih (fun u hu => hvs u (by simp [hu])) h'
      refine ⟨hend, fun u hu => ?_, List.Subset.trans hsub hsub'⟩
      rcases List.mem_cons.mp hu with rfl | hu
      · exact hsub' hv
      · exact hall u hu

/-- Nothing has been searched yet. -/
lemma searching_initial (g : Digraph) : Searching g ⟨Array.replicate g.size false, [], []⟩ [] := by
  refine ⟨by simp [leaving], by simp, fun v => ?_, by simp, by simp, ?_, ?_, by simp⟩
  · rw [Array.getElem?_replicate]
    split <;> simp [leaving]
  · intro i a hf
    exact absurd hf.entered (by simp [leaving])
  · intro i a hf
    exact absurd hf.entered (by simp [leaving])

/-- What holds after a search from every vertex. -/
lemma searching_searchAll (hg : g.WellFormed) :
    Searching g g.searchAll [] ∧ ∀ v < g.size, v ∈ g.searchAll.finished := by
  have hrange : ∀ v ∈ List.range g.size, v < g.size := fun v hv => List.mem_range.mp hv
  obtain ⟨h, hall, -⟩ := (searching_initial g).foldl_searchFrom hg hrange
  exact ⟨h, fun v hv => hall v (List.mem_range.mpr hv)⟩

end Drafting.Graph.Digraph
