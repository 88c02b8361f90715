/-
Identifiers: the names a document may give to classes and attributes.

An ASCII letter or underscore, then any number of ASCII letters, digits
and underscores.
-/

namespace LiveDoc

namespace Identifier

/-- The character may open an identifier. -/
def opens (c : Char) : Bool := c.isAlpha || c == '_'

/-- The character may follow in an identifier. -/
def follows (c : Char) : Bool := c.isAlphanum || c == '_'

/-- The characters form an identifier. -/
def accepts : List Char → Bool
  | [] => false
  | c :: cs => opens c && cs.all follows

end Identifier

/-- The text is an identifier. -/
def isIdentifier (s : String) : Bool :=
  Identifier.accepts s.toList

end LiveDoc
