/-
The tokens of a JSON text.

A text is cut into punctuation, strings, numbers and the three words of
the grammar; blanks lie between. Numbers and words are maximal runs of
their characters, judged as a whole afterwards: since no two values may
stand side by side, cutting `1-2` or `nullx` as one bad token refuses
exactly the texts that the grammar refuses.
-/
import LiveDoc.Json.Literal
import LiveDoc.Text.Quoted

namespace LiveDoc.Json

-- ==================================================== tokens

/-- A token of a JSON text. -/
inductive Token
  | openArray
  | closeArray
  | openObject
  | closeObject
  | comma
  | colon
  | null
  | bool (b : Bool)
  | number (n : Number)
  | str (s : String)
  deriving DecidableEq

namespace Token

/-- The characters that may stand between tokens. -/
def isBlank (c : Char) : Bool :=
  c == ' ' || c == '\t' || c == '\n' || c == '\r'

/-- The characters that numbers consist of. -/
def isNumberChar (c : Char) : Bool :=
  c.isDigit || c == '-' || c == '+' || c == '.' || c == 'e' || c == 'E'

/-- The token of a punctuation character. -/
def ofPunctuation? : Char → Option Token
  | '[' => some .openArray
  | ']' => some .closeArray
  | '{' => some .openObject
  | '}' => some .closeObject
  | ',' => some .comma
  | ':' => some .colon
  | _ => none

/-- The token of a word. -/
def ofWord? (cs : List Char) : Option Token :=
  if cs = ['n', 'u', 'l', 'l'] then some .null
  else if cs = ['t', 'r', 'u', 'e'] then some (.bool true)
  else if cs = ['f', 'a', 'l', 's', 'e'] then some (.bool false)
  else none

/-- What is left of a text is no longer than the text, so scanning comes to an
end. -/
theorem length_dropWhile_le (p : Char → Bool) (cs : List Char) :
    (cs.dropWhile p).length ≤ cs.length := by
  induction cs with
  | nil => simp
  | cons c cs ih =>
    rw [List.dropWhile_cons]
    split
    · exact Nat.le_succ_of_le ih
    · exact Nat.le_refl _

/-- The tokens of a text, or nothing where a character starts none. -/
def scan : List Char → Option (List Token)
  | [] => some []
  | c :: cs =>
    if isBlank c then scan cs
    else if c = '"' then
      match _h : Quoted.decode cs with
      | none => none
      | some (text, rest) => (scan rest).map (.str (String.ofList text) :: ·)
    else if c = '-' ∨ c.isDigit then
      match Number.read? (c :: cs.takeWhile isNumberChar) with
      | none => none
      | some n => (scan (cs.dropWhile isNumberChar)).map (.number n :: ·)
    else if c.isAlpha then
      match ofWord? (c :: cs.takeWhile Char.isAlpha) with
      | none => none
      | some t => (scan (cs.dropWhile Char.isAlpha)).map (t :: ·)
    else
      match ofPunctuation? c with
      | none => none
      | some t => (scan cs).map (t :: ·)
  termination_by cs => cs.length
  decreasing_by
    all_goals simp only [List.length_cons]
    · omega
    · have := Quoted.length_of_decodeFrom _h
      omega
    · have := length_dropWhile_le isNumberChar cs
      omega
    · have := length_dropWhile_le Char.isAlpha cs
      omega
    · omega

end Token

end LiveDoc.Json
