import Drafting.Text.Blank
import Drafting.Text.Measure

/-!
Wrapping text into lines.

A line break in the text always starts a line.  Within a paragraph words are added to the current
line as long as it fits; a word that is too wide for every line stands on a line of its own.

* `Text.words`: the maximal runs without blanks.
* `Text.fill`: the lines of one paragraph.
* `Text.wrap`: the lines of a text.
-/

namespace Drafting.Text

/-- The maximal runs of characters that are not blank. -/
def splitWords : List Char → List (List Char)
  | [] => []
  | c :: rest =>
    if isBlank c then splitWords rest
    else
      match rest with
      | [] => [[c]]
      | d :: _ =>
        if isBlank d then [c] :: splitWords rest
        else
          match splitWords rest with
          | [] => [[c]]
          | word :: words => (c :: word) :: words

/-- The words of a text. -/
def words (text : List Char) : List String := (splitWords text).map String.ofList

/-- Adds words to a line as long as it fits; the lines that result. -/
def fill (fits : String → Bool) (line : String) : List String → List String
  | [] => [line]
  | word :: rest =>
    let longer := line ++ " " ++ word
    if fits longer then fill fits longer rest else line :: fill fits word rest

/-- The lines of one paragraph; a paragraph without words is an empty line. -/
def wrapWords (fits : String → Bool) : List String → List String
  | [] => [""]
  | word :: rest => fill fits word rest

variable {α : Type} [Scalar α]

/-- Whether a text is at most as wide as a limit. -/
def fitsIn (measure : Measurer α) (style : TextStyle) (width : α) (text : String) : Bool :=
  decide ((measure text style).width ≤ width)

/-- Splits a text into lines that are, where words permit, at most as wide as a limit. -/
def wrapTo (measure : Measurer α) (style : TextStyle) (width : α) (text : String) : List String :=
  (splitLines text.toList).flatMap fun paragraph =>
    wrapWords (fitsIn measure style width) (words paragraph)

/-- The lines of a text; only line breaks count when there is no limit. -/
def wrap (measure : Measurer α) (style : TextStyle) (limit : Option α) (text : String) :
    List String :=
  match limit with
  | none => lines text
  | some width => wrapTo measure style width text

end Drafting.Text
