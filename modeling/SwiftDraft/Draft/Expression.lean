import SwiftDraft.Text.Word
import SwiftDraft.Text.Literal

/-!
# Expressions

A Python expression becomes a Swift one by replacing words. Nothing is parsed: words are replaced
inside string literals too, and precedence is left alone.
-/

namespace SwiftDraft.Draft

open Text

/-- The maximal runs of word characters and of other characters, in order. -/
def runs (s : Text) : List Text := s.splitBy fun a b => isWord a == isWord b

/-- Replaces every whole word equal to `word`. -/
def replaceWord (word replacement : String) (s : Text) : Text :=
  (runs s).flatMap fun run => if run = word.toList then replacement.toList else run

/-- Replaces `is`, blanks and `not` by one operator. -/
def joinIsNot : List Text → List Text
  | a :: gap :: b :: rest =>
    if a = "is".toList ∧ gap.all isBlank ∧ b = "not".toList then "!=".toList :: joinIsNot rest
    else a :: joinIsNot (gap :: b :: rest)
  | rs => rs

def replaceIsNot (s : Text) : Text := (joinIsNot (runs s)).flatten

/-- Replaces `not` and the blanks after it by the prefix operator. -/
def tightenNot : List Text → List Text
  | a :: gap :: rest =>
    if a = "not".toList then "!".toList :: trimStart gap :: tightenNot rest
    else a :: tightenNot (gap :: rest)
  | [a] => [if a = "not".toList then "!".toList else a]
  | [] => []

def replaceNot (s : Text) : Text := (tightenNot (runs s)).flatten

/-- The Swift expression for a Python one: eight replacements, one after the other. -/
def expression (e : Text) : Text :=
  replaceIsNot (trim e)
    |> replaceWord "is" "=="
    |> replaceWord "None" "nil"
    |> replaceWord "True" "true"
    |> replaceWord "False" "false"
    |> replaceWord "and" "&&"
    |> replaceWord "or" "||"
    |> replaceNot

/-- What stands between the parentheses of `range(…)`. -/
def rangeArguments? (e : Text) : Option (List Text) :=
  match after? "range(" e with
  | none => none
  | some rest =>
    if rest.getLast? = some ')' ∧ '\n' ∉ rest then some (splitTopLevel rest.dropLast) else none

/-- What a `for` loop runs over: `range` with one or two arguments is a half-open Swift range. -/
def iterable (e : Text) : Text :=
  match rangeArguments? (trim e) with
  | some [stop] => "0..<".toList ++ expression stop
  | some [start, stop] => expression start ++ "..<".toList ++ expression stop
  | _ => expression e

end SwiftDraft.Draft
