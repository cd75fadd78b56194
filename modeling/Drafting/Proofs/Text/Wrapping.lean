import Mathlib
import Drafting.Proofs.Text.Words
import Drafting.Scalar.Exact

/-!
Lines that are filled one after the other.

Each line is its words with single spaces between them.  A line grows word by word, so whatever it
begins with was found to fit, and it ends where the next word was found not to.  Whether longer
texts are wider is never asked, so all this holds of every measure.

* `Filled`: words divided into lines, each filled before the next one begins;
  `exists_filled_wrapWords` says that the words of a paragraph are divided so.
* `Wraps`: what the lines of a paragraph are, in terms of texts only.
* `wrap_fills_lines_without_loss`: every paragraph gets such lines.
* `wrap_of_wrapped_lines`: lines that are wrapped again stay as they are.
-/

namespace Drafting.Text

/-! ### Filling lines -/

section Fill

variable {fits : String → Bool} {line ws : List String} {groups : List (List String)}

/-- Whatever words a line begins with were found to fit, a single word apart. -/
def Accepted (fits : String → Bool) (line : List String) : Prop :=
  ∀ u, u <+: line → 2 ≤ u.length → fits (spaced u) = true

/-- A single word stands on its line whether it fits or not. -/
lemma accepted_singleton (fits : String → Bool) (word : String) : Accepted fits [word] := by
  intro u hu hlength
  have hle := hu.length_le
  rw [List.length_singleton] at hle
  omega

lemma Accepted.concat (h : Accepted fits line) {word : String}
    (hlonger : fits (spaced (line ++ [word])) = true) : Accepted fits (line ++ [word]) := by
  intro u hu hlength
  rcases List.prefix_concat_iff.mp hu with rfl | hu
  · exact hlonger
  · exact h u hu hlength

/-- Words divided into lines, each of which is filled before the next one begins. -/
structure Filled (fits : String → Bool) (ws : List String)
    (groups : List (List String)) : Prop where
  /-- There is a line. -/
  ne_nil : groups ≠ []
  /-- No word is lost, and their order stays. -/
  flatten : groups.flatten = ws
  /-- Every line was found to fit, word by word. -/
  accepted : ∀ g ∈ groups, Accepted fits g
  /-- The first word of a line was found not to fit on the line before. -/
  full : groups.IsChain fun g next =>
    ∃ word, next.head? = some word ∧ fits (spaced g ++ " " ++ word) = false

/-- **Words are added to a line as long as it fits.**  The first line begins with the
words that were on it. -/
lemma exists_filled_fill (hline : line ≠ []) (haccepted : Accepted fits line) (ws : List String) :
    ∃ more groups, fill fits (spaced line) ws = ((line ++ more) :: groups).map spaced ∧
      Filled fits (line ++ ws) ((line ++ more) :: groups) := by
  induction ws generalizing line with
  | nil => exact ⟨[], [], by simp [fill], by simp, by simp, by simpa using haccepted, by simp⟩
  | cons word ws ih =>
      rw [fill]
      cases hlonger : fits (spaced line ++ " " ++ word) with
      | true =>
          rw [if_pos rfl]
          rw [← spaced_append_singleton hline] at hlonger ⊢
          obtain ⟨more, groups, heq, hfilled⟩ := ih (by simp) (haccepted.concat hlonger)
          rw [List.append_assoc] at heq hfilled
          exact ⟨word :: more, groups, heq, by rwa [List.append_assoc] at hfilled⟩
      | false =>
          rw [if_neg Bool.false_ne_true]
          obtain ⟨more, groups, heq, hfilled⟩ :=
            ih (List.cons_ne_nil word []) (accepted_singleton fits word)
          refine ⟨[], ([word] ++ more) :: groups, ?_, ?_⟩
          · rw [List.append_nil, List.map_cons, ← heq]
            rfl
          · rw [List.append_nil]
            constructor
            case ne_nil => exact List.cons_ne_nil _ _
            case flatten => rw [List.flatten_cons, hfilled.flatten, List.singleton_append]
            case accepted => exact List.forall_mem_cons.mpr ⟨haccepted, hfilled.accepted⟩
            case full => exact List.isChain_cons_cons.mpr ⟨⟨word, rfl, hlonger⟩, hfilled.full⟩

/-- The words of a paragraph are divided into filled lines. -/
lemma exists_filled_wrapWords (fits : String → Bool) (ws : List String) :
    ∃ groups, wrapWords fits ws = groups.map spaced ∧ Filled fits ws groups := by
  cases ws with
  | nil => exact ⟨[[]], rfl, by simp, rfl, by simp [Accepted], by simp⟩
  | cons word ws =>
      obtain ⟨more, groups, heq, hfilled⟩ :=
        exists_filled_fill (List.cons_ne_nil word []) (accepted_singleton fits word) ws
      exact ⟨_, heq, hfilled⟩

/-- Words that fit together with those before them stay on the line. -/
lemma fill_of_accepted (hline : line ≠ []) (h : Accepted fits (line ++ ws)) :
    fill fits (spaced line) ws = [spaced (line ++ ws)] := by
  induction ws generalizing line with
  | nil => rw [fill, List.append_nil]
  | cons word ws ih =>
      rw [← List.singleton_append, ← List.append_assoc] at h ⊢
      have hlength : 2 ≤ (line ++ [word]).length := by
        have := List.length_pos_iff.mpr hline
        rw [List.length_append, List.length_singleton]
        omega
      rw [List.singleton_append, fill, ← spaced_append_singleton hline,
        if_pos (h _ (List.prefix_append _ _) hlength)]
      exact ih (by simp) h

/-- **A filled line is filled the same way again.** -/
lemma Accepted.wrapWords_eq (h : Accepted fits line) : wrapWords fits line = [spaced line] := by
  cases line with
  | nil => rfl
  | cons word rest =>
      have hline : [word] ≠ [] := List.cons_ne_nil word []
      exact fill_of_accepted hline h

end Fill

/-! ### Paragraphs -/

/-- The lines of a paragraph; `fits` tells which texts are narrow enough. -/
structure Wraps (fits : String → Prop) (paragraph : String) (pieces : List String) : Prop where
  /-- There is a line. -/
  ne_nil : pieces ≠ []
  /-- The words of the lines are those of the paragraph. -/
  lossless : pieces.flatMap (fun line => words line.toList) = words paragraph.toList
  /-- The words of a line are separated by single spaces, and there is nothing else on it. -/
  single : ∀ line ∈ pieces, line = spaced (words line.toList)
  /-- A line of two words or more fits. -/
  narrow : ∀ line ∈ pieces, 2 ≤ (words line.toList).length → fits line
  /-- The first word of a line does not fit on the line before. -/
  full : pieces.IsChain fun line next =>
    ∃ word, (words next.toList).head? = some word ∧ ¬ fits (line ++ " " ++ word)

/-- Filled lines, written down. -/
lemma Filled.wraps {fits : String → Bool} {paragraph : String} {groups : List (List String)}
    (h : Filled fits (words paragraph.toList) groups) :
    Wraps (fits · = true) paragraph (groups.map spaced) := by
  have hword : ∀ g ∈ groups, ∀ w ∈ g, IsWord w := fun g hg w hw =>
    isWord_of_mem_words (h.flatten ▸ List.mem_flatten.mpr ⟨g, hg, hw⟩)
  have hread : ∀ g ∈ groups, words (spaced g).toList = g := fun g hg => words_spaced (hword g hg)
  constructor
  case ne_nil => simpa using h.ne_nil
  case lossless =>
    rw [List.flatMap_map, List.flatMap_congr hread, List.flatMap_id', h.flatten]
  case single =>
    refine List.forall_mem_map.mpr fun g hg => ?_
    rw [hread g hg]
  case narrow =>
    refine List.forall_mem_map.mpr fun g hg hlength => ?_
    rw [hread g hg] at hlength
    exact h.accepted g hg g (List.prefix_refl g) hlength
  case full =>
    rw [List.isChain_map]
    refine h.full.imp_of_mem_imp fun g next _ hnext hfull => ?_
    obtain ⟨word, hhead, hwide⟩ := hfull
    exact ⟨word, by rw [hread next hnext, hhead], by simp [hwide]⟩

/-! ### Texts -/

section Wrap

variable {α : Type} [Scalar α] (measure : Measurer α) (style : TextStyle) (width : α)
  (text : String)

lemma wrap_some : wrap measure style (some width) text = (splitLines text.toList).flatMap
    fun paragraph => wrapWords (fitsIn measure style width) (words paragraph) := rfl

/-- Each paragraph has lines of its own. -/
lemma wraps_wrapWords (paragraph : List Char) :
    Wraps (fun t => (measure t style).width ≤ width) (String.ofList paragraph)
      (wrapWords (fitsIn measure style width) (words paragraph)) := by
  obtain ⟨groups, heq, hfilled⟩ :=
    exists_filled_wrapWords (fitsIn measure style width) (words paragraph)
  rw [← String.toList_ofList (l := paragraph)] at hfilled
  have hwraps := hfilled.wraps
  simp only [fitsIn, decide_eq_true_eq] at hwraps
  rwa [heq]

/-- Every line of a text is a filled one. -/
lemma exists_accepted_of_mem_wrap {line : String}
    (h : line ∈ wrap measure style (some width) text) :
    ∃ g, line = spaced g ∧ Accepted (fitsIn measure style width) g ∧ ∀ w ∈ g, IsWord w := by
  rw [wrap_some, List.mem_flatMap] at h
  obtain ⟨paragraph, -, hline⟩ := h
  obtain ⟨groups, heq, hfilled⟩ :=
    exists_filled_wrapWords (fitsIn measure style width) (words paragraph)
  rw [heq, List.mem_map] at hline
  obtain ⟨g, hg, rfl⟩ := hline
  refine ⟨g, rfl, hfilled.accepted g hg, fun w hw => isWord_of_mem_words (s := paragraph) ?_⟩
  exact hfilled.flatten ▸ List.mem_flatten.mpr ⟨g, hg, hw⟩

lemma newline_notMem_of_mem_wrap {limit : Option α} {line : String}
    (h : line ∈ wrap measure style limit text) : '\n' ∉ line.toList := by
  cases limit with
  | none =>
      obtain ⟨piece, hpiece, rfl⟩ := List.mem_map.mp h
      rw [String.toList_ofList]
      exact newline_notMem_of_mem_splitLines hpiece
  | some width =>
      obtain ⟨g, rfl, -, hword⟩ := exists_accepted_of_mem_wrap measure style width text h
      exact newline_notMem_spaced hword

/-- **Wrapping loses nothing and fills each line.**  Without a limit the lines are the paragraphs,
which hold no line breaks and make up the text.  With a limit each paragraph gets lines of its own,
at least one: its words in order, separated by single spaces; two words or more stand on a line only
if they fit, and the first word of a line would not have fitted on the line before. -/
theorem wrap_fills_lines_without_loss :
    (∃ parts : List (List String), parts.flatten = wrap measure style (some width) text ∧
      List.Forall₂ (Wraps fun t => (measure t style).width ≤ width)
        (wrap measure style none text) parts) ∧
      (wrap measure style (some width) text).flatMap (fun line => words line.toList) =
        words text.toList ∧
      (∀ limit, ∀ line ∈ wrap measure style limit text, '\n' ∉ line.toList) ∧
      joinLines (wrap measure style none text) = text := by
  refine ⟨⟨_, (List.flatMap_def ..).symm, ?_⟩, ?_,
    fun _ _ => newline_notMem_of_mem_wrap measure style text, joinLines_lines text⟩
  · change List.Forall₂ _ ((splitLines text.toList).map String.ofList) _
    rw [List.forall₂_map_left_iff, List.forall₂_map_right_iff, List.forall₂_same]
    exact fun paragraph _ => wraps_wrapWords measure style width paragraph
  · rw [wrap_some, List.flatMap_assoc, ← words_splitLines]
    refine List.flatMap_congr fun paragraph _ => ?_
    rw [(wraps_wrapWords measure style width paragraph).lossless, String.toList_ofList]

/-- A blank before the first word, two between words, an empty paragraph and a
word that does not fit. -/
example : wrap (FixedWidth.of (1 : Rat) 1).measure { size := 1 } (some 5)
      " a  bb ccc\n\nddddddd e" =
    ["a bb", "ccc", "", "ddddddd", "e"] := by decide +kernel

/-- **Lines that are wrapped again stay as they are.** -/
theorem wrap_of_wrapped_lines :
    wrap measure style (some width) (joinLines (wrap measure style (some width) text)) =
      wrap measure style (some width) text := by
  have hne : wrap measure style (some width) text ≠ [] := by
    obtain ⟨paragraph, rest, hpieces⟩ := List.exists_cons_of_ne_nil (splitLines_ne_nil text.toList)
    rw [wrap_some, hpieces, List.flatMap_cons]
    exact List.append_ne_nil_of_left_ne_nil (wraps_wrapWords measure style width paragraph).ne_nil _
  have hbreak := fun line (h : line ∈ wrap measure style (some width) text) =>
    newline_notMem_of_mem_wrap measure style text h
  rw [wrap_some measure style width (joinLines _), splitLines_joinLines hbreak hne,
    List.flatMap_map]
  -- each line is a paragraph now, and was accepted word by word
  have hagain : ∀ line ∈ wrap measure style (some width) text,
      wrapWords (fitsIn measure style width) (words line.toList) = [line] := by
    intro line hline
    obtain ⟨g, rfl, haccepted, hword⟩ := exists_accepted_of_mem_wrap measure style width text hline
    rw [words_spaced hword, haccepted.wrapWords_eq]
  rw [List.flatMap_congr hagain, List.flatMap_singleton']

end Wrap

end Drafting.Text
