/-
Configuration.

There is one item, the list of suffixes that are tried for a document.
Items are set and read by their key in the document that the configuration
is written as. What is read back from that document takes the place of the
configuration only when it is a non-empty list of suffixes; a refused value
leaves the configuration as it was.
-/
import LiveDoc.Binary64.Text
import LiveDoc.Json.Basic
import LiveDoc.Text.Printable

namespace LiveDoc

/-- What can be wrong with a list of suffixes. -/
inductive SuffixFault
  | missing
  | notList (found : Json)
  | notText (found : Json)
  | empty
  | notSuffix (text : String)

/-- Why a configuration item was not set or read. -/
inductive ConfigError
  | unknown (key : String)
  | obsolete (key reason : String)
  | invalidValue (key : String) (fault : SuffixFault)

-- ==================================================== texts

/-- The text of a double in a description: its shortest digits, a tie
going to the even one, with a signed exponent when the number has more
than 16 digits before the point or more than four zeros after it, and
with a place after the point otherwise. -/
def Binary64.Finite.described (x : Binary64.Finite) : String :=
  let d := x.shortest .even
  let ds := Numeral.digits d.digits
  let power := ds.length + d.exponent - 1
  let body :=
    if -5 ≤ power ∧ power ≤ 15 then
      if 0 ≤ d.exponent then d.plain ++ ".0" else d.plain
    else
      let fraction := if ds.length = 1 then [] else '.' :: ds.drop 1
      let mark := if 0 ≤ power then ['e', '+'] else ['e']
      String.ofList (ds.take 1 ++ fraction ++ mark) ++ Numeral.ofInt power
  Binary64.sign x.negative ++ body

/-- How an unexpected document is described. -/
def Json.described : Json → String
  | .null => "null"
  | .bool b => if b then "boolean \x60true\x60" else "boolean \x60false\x60"
  | .number (.int i) => "integer \x60" ++ Numeral.ofInt i.toInt ++ "\x60"
  | .number (.large n) => "integer \x60" ++ Numeral.ofNat n.toNat ++ "\x60"
  | .number (.float x) => "floating point \x60" ++ x.described ++ "\x60"
  | .str s => "string " ++ shownText s
  | .array _ => "sequence"
  | .object _ => "map"

/-- The text of a suffix fault. -/
def SuffixFault.message : SuffixFault → String
  | .missing => "missing field \x60JSONSuffixes\x60"
  | .notList found => "invalid type: " ++ found.described ++ ", expected a sequence"
  | .notText found => "invalid type: " ++ found.described ++ ", expected a string"
  | .empty => "at least one suffix is required"
  | .notSuffix text => s!"'{text}' is not a file suffix"

/-- The text of a configuration error. -/
def ConfigError.message : ConfigError → String
  | .unknown key => s!"Unknown Configuration Item : {key}"
  | .obsolete key reason => s!"Obsolete Configuration Item : {key} ({reason})"
  | .invalidValue key fault => s!"Invalid value for {key} : " ++ fault.message

-- ==================================================== the store

/-- A configuration. -/
structure Configuration where
  /-- the suffixes tried in order for every search root -/
  suffixes : List String := [".json"]
  deriving DecidableEq

namespace Configuration

instance : Inhabited Configuration := ⟨{}⟩

/-- The key of the suffixes. -/
def suffixesKey : String := "JSONSuffixes"

/-- Keys that used to exist, with what replaced them. -/
def obsoleteKeys : Entries String :=
  [("AllDictionariesAsClasses",
    "classes are detected automatically; use __classes__ to declare them explicitly")]

/-- Only the key of the suffixes is known. -/
def checkKey (key : String) : Except ConfigError Unit :=
  match obsoleteKeys.find? key with
  | some reason => .error (.obsolete key reason)
  | none => if key = suffixesKey then .ok () else .error (.unknown key)

/-- The text is a suffix: something without a slash. -/
def isSuffix (s : String) : Bool := s ≠ "" && !s.toList.contains '/'

/-- The list can stand as suffixes. -/
def checkSuffixes (suffixes : List String) : Except SuffixFault Unit :=
  if suffixes.isEmpty then .error .empty
  else
    match suffixes.find? fun s => !isSuffix s with
    | some bad => .error (.notSuffix bad)
    | none => .ok ()

/-- The text that a list item is. -/
def readText : Json → Except SuffixFault String
  | .str s => .ok s
  | other => .error (.notText other)

/-- The texts that a document lists. -/
def readTexts : Json → Except SuffixFault (List String)
  | .array items => items.mapM readText
  | other => .error (.notList other)

/-- The document that a configuration is written as. -/
def toDocument (c : Configuration) : Entries Json :=
  [(suffixesKey, .array (c.suffixes.map Json.str))]

/-- The configuration that a document holds, unchecked. Other items of the
document do not matter. -/
def ofDocument (document : Entries Json) : Except SuffixFault Configuration :=
  match document.find? suffixesKey with
  | none => .error .missing
  | some value => do
    let suffixes ← readTexts value
    return { suffixes }

/-- The value of an item. -/
def get (c : Configuration) (key : String) : Except ConfigError Json := do
  checkKey key
  match c.toDocument.find? key with
  | some value => return value
  | none => throw (.unknown key)

/-- The configuration with an item set: the item is put into the document of
the configuration, and what is read back is checked. -/
def set (c : Configuration) (key : String) (value : Json) : Except ConfigError Configuration := do
  checkKey key
  let updated ← (ofDocument (c.toDocument.put key value)).mapError (.invalidValue key)
  (checkSuffixes updated.suffixes).mapError (.invalidValue suffixesKey)
  return updated

/-- Set an item in place. A refused value changes nothing. -/
def assign (c : Configuration) (key : String) (value : Json) :
    Except ConfigError Unit × Configuration :=
  match c.set key value with
  | .ok updated => (.ok (), updated)
  | .error e => (.error e, c)

end Configuration

end LiveDoc
