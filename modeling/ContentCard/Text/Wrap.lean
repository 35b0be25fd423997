import ContentCard.Number.Binary
import ContentCard.Text.Blank

/-!
Breaking text into lines, character by character.

A paragraph is filled greedily: a character that would pass the greatest width starts a new line
unless the line is still empty, and a blank in that place is dropped.
-/

namespace ContentCard.Text

/-- The parts of a text between its line feeds; an empty text is one empty part. -/
def paragraphs : List Char → List (List Char)
  | [] => [[]]
  | c :: rest =>
    if c = '\n' then [] :: paragraphs rest
    else
      match paragraphs rest with
      | [] => [[c]]
      | p :: ps => (c :: p) :: ps

/-- Rounding in the sum of the widths breaks no line. -/
def tolerance : Float32 := 0.01

/-- The lines of a paragraph, given the reversed line so far and its width. -/
def wrapFrom (advance : Char → Float32) (limit : Float32) (line : List Char) (width : Float32) :
    List Char → List (List Char)
  | [] => [line.reverse]
  | c :: rest =>
    if limit + tolerance < width + advance c ∧ line ≠ [] then
      if isBlank c then line.reverse :: wrapFrom advance limit [] 0 rest
      else line.reverse :: wrapFrom advance limit [c] (0 + advance c) rest
    else wrapFrom advance limit (c :: line) (width + advance c) rest

/-- The lines of a text; without a limit only its line feeds break it. -/
def wrap (advance : Char → Float32) (limit : Option Float32) (text : List Char) :
    List (List Char) :=
  match limit with
  | none => paragraphs text
  | some limit => (paragraphs text).flatMap (wrapFrom advance limit [] 0)

/-- Keeps the first lines of a text; the last one kept shows by an ellipsis that more follow. -/
def limitLines (limit : Option Nat) (lines : List (List Char)) : List (List Char) :=
  match limit with
  | none => lines
  | some n =>
    if lines.length ≤ n then lines
    else
      match (lines.take n).reverse with
      | [] => []
      | last :: before => ((last ++ ['…']) :: before).reverse

end ContentCard.Text
