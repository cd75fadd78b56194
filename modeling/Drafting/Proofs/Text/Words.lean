import Mathlib
import Drafting.Text.Wrap

/-!
The lines and the words of a text.

Lines are the pieces between line breaks, words those pieces between blanks that are not empty.  A
text is taken apart at a separator without loss, so lines that are joined are found again, and so
are words that are written with single spaces between them.

* `splitLines_eq`, `splitWords_eq`: lines and words as pieces between separators.
* `joinLines_lines`, `splitLines_joinLines`: joining lines and splitting a text undo each other.
* `splitWords_append_cons`, `words_splitLines`: the words of a text are those of its parts.
* `IsWord`, `spaced`, `words_spaced`: words with single spaces between them.
-/

namespace Drafting.Text

/-- No piece between separators holds one. -/
lemma eq_false_of_mem_splitOnP {β : Type} {p : β → Bool} {xs piece : List β}
    (h : piece ∈ xs.splitOnP p) : ∀ x ∈ piece, p x = false := by
  induction xs generalizing piece with
  | nil =>
      rw [List.splitOnP_nil, List.mem_singleton] at h
      simp [h]
  | cons y ys ih =>
      rw [List.splitOnP_cons_eq_if_modifyHead] at h
      split at h
      · rcases List.mem_cons.mp h with rfl | h
        · simp
        · exact ih h
      · next hy =>
          obtain ⟨first, rest, hpieces⟩ := List.exists_cons_of_ne_nil (List.splitOnP_ne_nil p ys)
          rw [hpieces, List.modifyHead_cons] at h
          rw [hpieces] at ih
          rcases List.mem_cons.mp h with rfl | h
          · refine List.forall_mem_cons.mpr ⟨by simpa using hy, ih List.mem_cons_self⟩
          · exact ih (List.mem_cons_of_mem _ h)

/-! ### Lines -/

lemma splitLines_eq (s : List Char) : splitLines s = s.splitOn '\n' := by
  induction s with
  | nil => rfl
  | cons c rest ih =>
      rw [splitLines, ih, List.splitOn_cons_eq_if_modifyHead]
      simp only [beq_iff_eq]
      obtain ⟨line, lines, hpieces⟩ := List.exists_cons_of_ne_nil (List.splitOn_ne_nil '\n' rest)
      rw [hpieces, List.modifyHead_cons]

lemma splitLines_ne_nil (s : List Char) : splitLines s ≠ [] := by
  rw [splitLines_eq]
  exact List.splitOn_ne_nil _ _

/-- A line holds no line break. -/
lemma newline_notMem_of_mem_splitLines {s line : List Char} (h : line ∈ splitLines s) :
    '\n' ∉ line := by
  rw [splitLines_eq, List.splitOn_eq_splitOnP] at h
  intro hmem
  simpa using eq_false_of_mem_splitOnP h '\n' hmem

lemma intercalate_splitLines (s : List Char) : ['\n'].intercalate (splitLines s) = s := by
  rw [splitLines_eq, List.intercalate_splitOn]

lemma toList_joinLines (pieces : List String) :
    (joinLines pieces).toList = ['\n'].intercalate (pieces.map String.toList) :=
  String.toList_intercalate

/-- **A text is its lines joined.** -/
lemma joinLines_lines (text : String) : joinLines (lines text) = text := by
  rw [← String.toList_inj, toList_joinLines, lines, List.map_map]
  simpa [Function.comp_def] using intercalate_splitLines text.toList

/-- **Lines that are joined are the lines of the result.** -/
lemma splitLines_joinLines {pieces : List String} (h : ∀ l ∈ pieces, '\n' ∉ l.toList)
    (hne : pieces ≠ []) : splitLines (joinLines pieces).toList = pieces.map String.toList := by
  rw [toList_joinLines, splitLines_eq]
  exact List.splitOn_intercalate _ (by simpa using h) (by simpa using hne)

/-! ### Words -/

lemma splitWords_eq (s : List Char) :
    splitWords s = (s.splitOnP isBlank).filter (! ·.isEmpty) := by
  induction s with
  | nil => rfl
  | cons c rest ih =>
      rw [splitWords.eq_def, List.splitOnP_cons_eq_if_modifyHead]
      dsimp only
      split
      · rw [List.filter_cons_of_neg (by simp), ih]
      · cases rest with
        | nil => rfl
        | cons d rest =>
            obtain ⟨first, others, hpieces⟩ :=
              List.exists_cons_of_ne_nil (List.splitOnP_ne_nil isBlank rest)
            rw [List.splitOnP_cons_eq_if_modifyHead, hpieces] at ih ⊢
            dsimp only
            split
            · next hd =>
                rw [if_pos hd] at ih
                rw [ih]
                simp
            · next hd =>
                rw [if_neg hd] at ih
                rw [ih]
                simp

/-- **A text is taken apart at a blank without loss of words.** -/
lemma splitWords_append_cons {c : Char} (hc : isBlank c = true) (s t : List Char) :
    splitWords (s ++ c :: t) = splitWords s ++ splitWords t := by
  rw [splitWords_eq, splitWords_eq, splitWords_eq, List.splitOnP_append_cons _ _ hc,
    List.filter_append]

/-- The words of pieces with a blank between them. -/
lemma splitWords_intercalate {c : Char} (hc : isBlank c = true) (pieces : List (List Char)) :
    splitWords ([c].intercalate pieces) = pieces.flatMap splitWords := by
  induction pieces with
  | nil => rfl
  | cons piece pieces ih =>
      cases pieces with
      | nil => simp
      | cons next pieces =>
          rw [List.intercalate_cons_cons, List.append_assoc, List.singleton_append,
            splitWords_append_cons hc, ih, List.flatMap_cons (x := piece)]

/-- The words of a text are those of its lines. -/
lemma words_splitLines (s : List Char) : (splitLines s).flatMap words = words s := by
  conv_rhs => rw [words, ← intercalate_splitLines s, splitWords_intercalate rfl]
  rw [List.map_flatMap]
  rfl

/-- A text that is not empty and holds no blank. -/
def IsWord (word : String) : Prop := word ≠ "" ∧ ∀ c ∈ word.toList, isBlank c = false

lemma isWord_of_mem_words {s : List Char} {word : String} (h : word ∈ words s) : IsWord word := by
  obtain ⟨piece, hpiece, rfl⟩ := List.mem_map.mp h
  rw [splitWords_eq, List.mem_filter] at hpiece
  refine ⟨?_, ?_⟩
  · simpa using hpiece.2
  · simpa using eq_false_of_mem_splitOnP hpiece.1

lemma IsWord.splitWords_toList {word : String} (h : IsWord word) :
    splitWords word.toList = [word.toList] := by
  rw [splitWords_eq, List.splitOnP_eq_singleton h.2, List.filter_cons_of_pos]
  · rfl
  · simpa using h.1

/-! ### Words on a line -/

/-- Words with single spaces between them. -/
def spaced (ws : List String) : String := " ".intercalate ws

lemma toList_spaced (ws : List String) :
    (spaced ws).toList = [' '].intercalate (ws.map String.toList) := String.toList_intercalate

lemma spaced_append_singleton {ws : List String} (h : ws ≠ []) (word : String) :
    spaced (ws ++ [word]) = spaced ws ++ " " ++ word := by
  rw [spaced, String.intercalate_append_of_ne_nil h (List.cons_ne_nil _ _),
    String.intercalate_singleton]
  rfl

/-- **Words with single spaces between them are the words of the line.** -/
lemma words_spaced {ws : List String} (h : ∀ w ∈ ws, IsWord w) : words (spaced ws).toList = ws := by
  rw [words, toList_spaced, splitWords_intercalate rfl, List.flatMap_map,
    List.flatMap_congr fun w hw => (h w hw).splitWords_toList]
  simp [← List.map_eq_flatMap]

/-- Words have no line break in them, nor between them. -/
lemma newline_notMem_spaced {ws : List String} (h : ∀ w ∈ ws, IsWord w) :
    '\n' ∉ (spaced ws).toList := by
  rw [toList_spaced]
  induction ws with
  | nil => simp
  | cons w ws ih =>
      rw [List.forall_mem_cons] at h
      have hw : '\n' ∉ w.toList := fun hmem => absurd (h.1.2 _ hmem) (by decide)
      cases ws with
      | nil => simpa using hw
      | cons next ws =>
          rw [List.map_cons, List.map_cons, List.intercalate_cons_cons, ← List.map_cons,
            List.mem_append, List.mem_append, not_or, not_or]
          exact ⟨⟨hw, by decide⟩, ih h.2⟩

end Drafting.Text
