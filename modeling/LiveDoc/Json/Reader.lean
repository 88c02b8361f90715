/-
Reading JSON documents.

The grammar is read by a machine that takes one token at a time and
keeps a stack of the containers that are still open. A container is on
the stack exactly while its end is awaited, so the nesting limit is a
bound on the height of the stack, and reading a text is a fold over its
tokens: no recursion bound is needed.

A name that an object repeats keeps its first place and takes its last
value.
-/
import LiveDoc.Json.Token

namespace LiveDoc.Json

/-- A container whose end has not been read, with a value due in it. -/
inductive Frame
  | array (items : List Json)
  | object (fields : Entries Json) (key : String)

/-- What a reader has read and what may come next. The items of an open
array stand in reverse. -/
inductive Reader
  /-- a value must come -/
  | value (stack : List Frame)
  /-- an array was opened: its first item or its end -/
  | arrayStart (stack : List Frame)
  /-- an item was read: a comma or the end of the array -/
  | afterItem (items : List Json) (stack : List Frame)
  /-- an object was opened: its first name or its end -/
  | objectStart (stack : List Frame)
  /-- a comma was read in an object: a name -/
  | name (fields : Entries Json) (stack : List Frame)
  /-- a name was read: its colon -/
  | colon (fields : Entries Json) (key : String) (stack : List Frame)
  /-- a field was read: a comma or the end of the object -/
  | afterField (fields : Entries Json) (stack : List Frame)
  /-- the document is complete -/
  | finished (document : Json)

namespace Reader

/-- The most containers that may be open at once. -/
def nestingLimit : Nat := 127

/-- Hand a complete value to the innermost open container. -/
def deliver (v : Json) : List Frame → Reader
  | [] => .finished v
  | .array items :: stack => .afterItem (v :: items) stack
  | .object fields key :: stack => .afterField (Entries.put fields key v) stack

/-- Take the first token of a value. -/
def beginValue (stack : List Frame) : Token → Option Reader
  | .null => some (deliver .null stack)
  | .bool b => some (deliver (.bool b) stack)
  | .number n => some (deliver (.number n) stack)
  | .str s => some (deliver (.str s) stack)
  | .openArray => if stack.length < nestingLimit then some (.arrayStart stack) else none
  | .openObject => if stack.length < nestingLimit then some (.objectStart stack) else none
  | _ => none

/-- Take one token. -/
def step : Reader → Token → Option Reader
  | .value stack, t => beginValue stack t
  | .arrayStart stack, .closeArray => some (deliver (.array []) stack)
  | .arrayStart stack, t => beginValue (.array [] :: stack) t
  | .afterItem items stack, .comma => some (.value (.array items :: stack))
  | .afterItem items stack, .closeArray => some (deliver (.array items.reverse) stack)
  | .objectStart stack, .closeObject => some (deliver (.object []) stack)
  | .objectStart stack, .str key => some (.colon [] key stack)
  | .name fields stack, .str key => some (.colon fields key stack)
  | .colon fields key stack, .colon => some (.value (.object fields key :: stack))
  | .afterField fields stack, .comma => some (.name fields stack)
  | .afterField fields stack, .closeObject => some (deliver (.object fields) stack)
  | _, _ => none

/-- Take tokens one after the other. -/
def run : Reader → List Token → Option Reader
  | r, [] => some r
  | r, t :: ts => (step r t).bind (run · ts)

/-- The document of a reader that is done. -/
def document? : Reader → Option Json
  | .finished j => some j
  | _ => none

end Reader

/-- The document that a list of tokens forms. -/
def ofTokens? (ts : List Token) : Option Json :=
  (Reader.run (.value []) ts).bind Reader.document?

/-- The document that a text holds. -/
def parse? (text : String) : Option Json :=
  (Token.scan text.toList).bind ofTokens?

end LiveDoc.Json
