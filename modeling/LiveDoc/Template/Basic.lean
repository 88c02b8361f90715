/-
Format templates.

A template is literal text with placeholders. A placeholder names a
value, says which of its two texts to show, and may lay the text out:
fill, alignment, width, precision, and a numeric style.

The source is kept beside the segments because listings show templates
as they were written; the segments alone decide what is rendered.
-/

namespace LiveDoc

/-- Which of a value's two texts a placeholder shows. -/
inductive Template.Conversion
  | str
  | repr
  deriving DecidableEq

/-- Where a text stands in its width. -/
inductive Template.Align
  | left
  | right
  | center
  deriving DecidableEq

/-- The numeric style of a placeholder's value. -/
inductive Template.Style
  /-- its text -/
  | text
  /-- a whole number -/
  | whole
  /-- a number with fixed places -/
  | fixed
  deriving DecidableEq

/-- The layout of one placeholder. -/
structure Template.Layout where
  fill : Char := ' '
  align : Option Template.Align := none
  width : Nat := 0
  precision : Option Nat := none
  style : Option Template.Style := none
  deriving DecidableEq

/-- A placeholder. -/
structure Template.Field where
  name : String
  conversion : Template.Conversion := .str
  layout : Template.Layout := {}
  deriving DecidableEq

/-- A part of a template. -/
inductive Template.Segment
  | literal (text : String)
  | field (f : Template.Field)
  deriving DecidableEq

/-- A format template. -/
structure Template where
  source : String
  segments : List Template.Segment
  deriving DecidableEq

namespace Template

/-- The names that segments refer to, in order of appearance. -/
def namesIn : List Segment → List String
  | [] => []
  | .literal _ :: rest => namesIn rest
  | .field f :: rest => f.name :: namesIn rest

/-- The names that the placeholders refer to, in order of appearance. -/
def fieldNames (t : Template) : List String :=
  namesIn t.segments

/-- The character that stands for an alignment. -/
def Align.char : Align → Char
  | .left => '<'
  | .right => '>'
  | .center => '^'

/-- The alignment that a character stands for. -/
def Align.ofChar? : Char → Option Align
  | '<' => some .left
  | '>' => some .right
  | '^' => some .center
  | _ => none

/-- The letter that stands for a style. -/
def Style.char : Style → Char
  | .text => 's'
  | .whole => 'd'
  | .fixed => 'f'

/-- The style that a letter stands for. -/
def Style.ofChar? : Char → Option Style
  | 's' => some .text
  | 'd' => some .whole
  | 'f' => some .fixed
  | _ => none

/-- An alignment is read back from its sign. -/
theorem Align.ofChar?_char (a : Align) : ofChar? a.char = some a := by
  cases a <;> rfl

/-- A style is read back from its letter. -/
theorem Style.ofChar?_char (n : Style) : ofChar? n.char = some n := by
  cases n <;> rfl

end Template

-- ==================================================== faults

/-- What can be wrong with a template. -/
inductive TemplateError
  | singleBrace
  | nestedField
  | unclosedField
  | unknownConversion (text : String)
  | unnamedField
  | invalidName (name : String)
  | invalidWidth (layout : String)
  | missingPrecision (layout : String)
  | invalidPrecision (layout : String)
  | unknownStyle (letter : Char)
  | trailingText (layout : String)
  deriving DecidableEq

/-- The text of a template fault. -/
def TemplateError.message : TemplateError → String
  | .singleBrace => "single '\x7d' encountered"
  | .nestedField => "nested replacement fields are not supported"
  | .unclosedField => "unmatched '\x7b'"
  | .unknownConversion text => s!"unknown conversion '!{text}'"
  | .unnamedField => "positional fields are not supported"
  | .invalidName name => s!"invalid field name '{name}'"
  | .invalidWidth layout => s!"invalid width in '{layout}'"
  | .missingPrecision layout => s!"format specifier missing precision in '{layout}'"
  | .invalidPrecision layout => s!"invalid precision in '{layout}'"
  | .unknownStyle letter => s!"unknown format code '{letter}'"
  | .trailingText layout => s!"invalid format specifier '{layout}'"

end LiveDoc
