/-
Splitting a text at a character.

`splitAll` cuts at every occurrence and keeps empty parts, so there is
one part more than there are cuts, and joining the parts with the
character gives the text back.
-/

namespace LiveDoc

/-- The parts between the occurrences of a character. -/
def splitAll (c : Char) : List Char → List (List Char)
  | [] => [[]]
  | d :: cs =>
    if d = c then [] :: splitAll c cs
    else
      match splitAll c cs with
      | [] => [[d]]
      | part :: parts => (d :: part) :: parts

/-- The parts of a string. -/
def splitText (c : Char) (s : String) : List String :=
  (splitAll c s.toList).map String.ofList

/-- The part after the last occurrence of a character. -/
def lastPart (c : Char) (s : String) : String :=
  (splitText c s).getLastD s

/-- The first line of a text; an empty text has none. A carriage return
before the line feed belongs to the line end. -/
def firstLine? (s : String) : Option String :=
  let cs := s.toList
  let line := cs.takeWhile (· ≠ '\n')
  if cs.isEmpty then none
  else if line.length < cs.length ∧ line.getLast? = some '\r' then
    some (String.ofList line.dropLast)
  else some (String.ofList line)

end LiveDoc
