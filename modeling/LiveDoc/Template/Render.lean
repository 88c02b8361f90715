/-
Rendering templates.

What a template needs to know of a value is its two texts and, for
numbers, its value as a double; `View` packs the three. How names get
values is the caller's: `render` asks for each placeholder's name, in
order, in whatever monad the caller looks names up.
-/
import LiveDoc.Template.Basic
import LiveDoc.Binary64.Text

namespace LiveDoc.Template

/-- How templates see values. -/
structure View (α : Type) where
  str : α → String
  repr : α → String
  number : α → Option Binary64

/-- Pad a text to the width of a layout. An odd remainder around a
centred text goes to its right. -/
def Layout.pad (layout : Layout) (numeric : Bool) (text : String) : String :=
  let missing := layout.width - text.length
  let fill (n : Nat) : String := String.ofList (List.replicate n layout.fill)
  match layout.align.getD (if numeric then .right else .left) with
  | .left => text ++ fill missing
  | .right => fill missing ++ text
  | .center => fill (missing / 2) ++ text ++ fill (missing - missing / 2)

/-- Cut a text to a precision. -/
def cut (text : String) : Option Nat → String
  | none => text
  | some n => String.ofList (text.toList.take n)

/-- The text of a placeholder for a value. A number shown as a whole
number or with fixed places, or shown plainly, stands to the right. -/
def Field.render {α : Type} (view : View α) (f : Field) (v : α) : String :=
  let number := match f.conversion with
    | .str => view.number v
    | .repr => none
  match f.layout.style, number with
  | some .whole, some x => f.layout.pad true (Numeral.ofInt x.toInt64.toInt)
  | some .fixed, some x => f.layout.pad true (x.fixed (f.layout.precision.getD 6))
  | style, _ =>
    let text := match f.conversion with
      | .str => view.str v
      | .repr => view.repr v
    f.layout.pad (number.isSome && style.isNone) (cut text f.layout.precision)

/-- The text of segments, with values from `resolve`. -/
def renderSegments {α : Type} {m : Type → Type} [Monad m] (view : View α)
    (resolve : String → m α) : List Segment → m String
  | [] => pure ""
  | .literal text :: rest => do
    let tail ← renderSegments view resolve rest
    pure (text ++ tail)
  | .field f :: rest => do
    let v ← resolve f.name
    let tail ← renderSegments view resolve rest
    pure (f.render view v ++ tail)

/-- The text of a template, with values from `resolve`. -/
def render {α : Type} {m : Type → Type} [Monad m] (view : View α) (resolve : String → m α)
    (t : Template) : m String :=
  renderSegments view resolve t.segments

end LiveDoc.Template
