/-
Reading templates.

A doubled brace is a literal brace; a single opening brace starts a
placeholder that runs to the next closing brace and may hold no opening
one. The two readers below, one for the text outside placeholders and one
for the text inside, walk the source together and hand it to each other,
so both are structural in what is left of it.

Inside a placeholder the first colon ends the head and starts the layout,
and the first exclamation mark of the head starts the conversion.
-/
import LiveDoc.Template.Basic
import LiveDoc.Text.Alphanumeric
import LiveDoc.Text.Numeral

namespace LiveDoc.Template

-- ==================================================== layouts

/-- Widths and precisions fit in 64 bits. -/
def sizeLimit : Nat := Nat.pow 2 64

/-- Take the alignment that opens a layout. A second character that
aligns makes the first one the fill, whatever it is. -/
def Layout.takeAlign : List Char → Char × Option Align × List Char
  | f :: a :: cs =>
    match Align.ofChar? a with
    | some align => (f, some align, cs)
    | none =>
      match Align.ofChar? f with
      | some align => (' ', some align, a :: cs)
      | none => (' ', none, f :: a :: cs)
  | [a] =>
    match Align.ofChar? a with
    | some align => (' ', some align, [])
    | none => (' ', none, [a])
  | [] => (' ', none, [])

/-- Take the width: digits, or none for 0. -/
def Layout.takeWidth (text : String) (cs : List Char) : Except TemplateError (Nat × List Char) :=
  let width := Numeral.value (cs.takeWhile Char.isDigit)
  if width < sizeLimit then .ok (width, cs.dropWhile Char.isDigit)
  else .error (.invalidWidth text)

/-- Take the precision: a point and at least one digit. -/
def Layout.takePrecision (text : String) :
    List Char → Except TemplateError (Option Nat × List Char)
  | '.' :: cs =>
    let ds := cs.takeWhile Char.isDigit
    if ds.isEmpty then .error (.missingPrecision text)
    else if Numeral.value ds < sizeLimit then
      .ok (some (Numeral.value ds), cs.dropWhile Char.isDigit)
    else .error (.invalidPrecision text)
  | cs => .ok (none, cs)

/-- Take the style letter, which must end the layout. -/
def Layout.takeStyle (text : String) : List Char → Except TemplateError (Option Style)
  | [] => .ok none
  | c :: cs =>
    match Style.ofChar? c with
    | none => .error (.unknownStyle c)
    | some n => if cs.isEmpty then .ok (some n) else .error (.trailingText text)

/-- The layout that a text describes. -/
def Layout.parse (cs : List Char) : Except TemplateError Layout := do
  let text := String.ofList cs
  let (fill, align, cs) := takeAlign cs
  let (width, cs) ← takeWidth text cs
  let (precision, cs) ← takePrecision text cs
  let style ← takeStyle text cs
  return { fill, align, width, precision, style }

-- ==================================================== placeholders

/-- The part before the first `c`, and the part after it if there is
one. -/
def splitAtFirst (c : Char) : List Char → List Char × Option (List Char)
  | [] => ([], none)
  | d :: cs =>
    if d = c then ([], some cs)
    else (d :: (splitAtFirst c cs).1, (splitAtFirst c cs).2)

/-- The character may stand in the name of a placeholder. -/
def isNameChar (c : Char) : Bool := isAlphanumeric c || c == '_'

/-- The conversion that a placeholder asks for. -/
def Conversion.parse : Option (List Char) → Except TemplateError Conversion
  | none => .ok .str
  | some ['r'] => .ok .repr
  | some ['s'] => .ok .str
  | some other => .error (.unknownConversion (String.ofList other))

/-- The placeholder with the given text between its braces. -/
def Field.parse (body : List Char) : Except TemplateError Field := do
  let (head, layout) := splitAtFirst ':' body
  let (name, conversion) := splitAtFirst '!' head
  let conversion ← Conversion.parse conversion
  if name.isEmpty then throw .unnamedField
  if !name.all isNameChar then throw (.invalidName (String.ofList name))
  let layout ← match layout with
    | some text => Layout.parse text
    | none => pure {}
  return { name := String.ofList name, conversion, layout }

-- ==================================================== templates

/-- A literal, given in reverse, before further segments; an empty one
is left out. -/
def flush (literal : List Char) (rest : List Segment) : List Segment :=
  if literal.isEmpty then rest else .literal (String.ofList literal.reverse) :: rest

mutual

/-- Read outside placeholders; `literal` is the text read so far, in
reverse. -/
def readLiteral (literal : List Char) : List Char → Except TemplateError (List Segment)
  | [] => .ok (flush literal [])
  | '{' :: '{' :: cs => readLiteral ('{' :: literal) cs
  | '}' :: '}' :: cs => readLiteral ('}' :: literal) cs
  | '}' :: _ => .error .singleBrace
  | '{' :: cs => readField literal [] cs
  | c :: cs => readLiteral (c :: literal) cs

/-- Read inside a placeholder; `body` is the text read since its opening
brace, in reverse, and `literal` the one before that brace. -/
def readField (literal body : List Char) : List Char → Except TemplateError (List Segment)
  | [] => .error .unclosedField
  | c :: cs =>
    if c = '}' then do
      let field ← Field.parse body.reverse
      let rest ← readLiteral [] cs
      return flush literal (.field field :: rest)
    else if c = '{' then .error .nestedField
    else readField literal (c :: body) cs

end

/-- The template with the given source. -/
def parse (source : String) : Except TemplateError Template := do
  let segments ← readLiteral [] source.toList
  return { source, segments }

/-- The source of the template that shows a class name and the quoted
values of attributes: `Name(a=…, b=…)`. -/
def callSource (names : List String) : String :=
  let parts := names.map fun n => n ++ "=\x7b" ++ n ++ "!r\x7d"
  "\x7bclass_name\x7d(" ++ ", ".intercalate parts ++ ")"

/-- The template of `callSource`. Names that no placeholder can have
leave it without segments. -/
def ofNames (names : List String) : Template :=
  match parse (callSource names) with
  | .ok t => t
  | .error _ => { source := callSource names, segments := [] }

end LiveDoc.Template
