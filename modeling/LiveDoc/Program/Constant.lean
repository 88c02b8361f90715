/-
Constants of a program.

A constant is a document value with its numbers decided: 64-bit integers
stay integers, all other numbers are doubles. Hand-written programs may
also hold a NaN or an infinity, which no document can.
-/
import LiveDoc.Binary64.Text
import LiveDoc.Json.Basic
import LiveDoc.Text.Quoted

namespace LiveDoc

/-- A literal value of a program. -/
inductive Constant
  | null
  | bool (b : Bool)
  | int (i : Int64)
  | float (x : Binary64)
  | str (s : String)
  | list (items : List Constant)
  | dict (entries : List (String × Constant))

namespace Constant

/-- The constant that a number is. -/
def ofNumber : Json.Number → Constant
  | .int i => .int i
  | n => .float n.toBinary64

mutual

/-- The constant that a document is. -/
def ofJson : Json → Constant
  | .null => .null
  | .bool b => .bool b
  | .number n => ofNumber n
  | .str s => .str s
  | .array items => .list (ofJsonAll items)
  | .object fields => .dict (ofJsonFields fields)

/-- The constants of a list of documents. -/
def ofJsonAll : List Json → List Constant
  | [] => []
  | j :: js => ofJson j :: ofJsonAll js

/-- The constants of a field list. -/
def ofJsonFields : List (String × Json) → List (String × Constant)
  | [] => []
  | (k, j) :: fs => (k, ofJson j) :: ofJsonFields fs

end

/-- The constant is a list or a dict, so every holder needs a copy. -/
def isMutable : Constant → Bool
  | .list _ => true
  | .dict _ => true
  | _ => false

-- ==================================================== text

/-- The text of a truth value. -/
def boolText (b : Bool) : String := if b then "true" else "false"

mutual

/-- The text of a constant: JSON with one blank after commas and colons. -/
def text : Constant → String
  | .null => "null"
  | .bool b => boolText b
  | .int i => Numeral.ofInt i.toInt
  | .float x => x.text
  | .str s => Quoted.quote s
  | .list [] => "[]"
  | .list (c :: cs) => "[" ++ text c ++ textTail cs ++ "]"
  | .dict [] => "\x7b\x7d"
  | .dict ((k, c) :: es) =>
    "\x7b" ++ (Quoted.quote k ++ ": " ++ text c) ++ textFields es ++ "\x7d"

/-- The texts of further items, each after a comma. -/
def textTail : List Constant → String
  | [] => ""
  | c :: cs => ", " ++ text c ++ textTail cs

/-- The texts of further entries, each after a comma. -/
def textFields : List (String × Constant) → String
  | [] => ""
  | (k, c) :: es => ", " ++ (Quoted.quote k ++ ": " ++ text c) ++ textFields es

end

end Constant

end LiveDoc
