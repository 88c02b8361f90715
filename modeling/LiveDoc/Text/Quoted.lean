/-
Quoted text, as JSON writes and reads it.

`encode` writes one form of each text: the two characters that must be
escaped, the five control characters with a short escape, every other
control character as `\u00xx`, and all else as it is. `decode` reads any
form that the grammar allows, up to the closing quote, and returns what
follows it. A code above U+FFFF is written as two escaped surrogates; the
reader carries the first of a pair until the second arrives and refuses a
surrogate without its partner.
-/

namespace LiveDoc.Quoted

-- ==================================================== writing

/-- A hexadecimal digit in lower case. -/
def hexDigit (n : Nat) : Char :=
  if n % 16 < 10 then Char.ofNat (48 + n % 16) else Char.ofNat (87 + n % 16)

/-- The written form of one character. -/
def escape (c : Char) : List Char :=
  if c = '"' then ['\\', '"']
  else if c = '\\' then ['\\', '\\']
  else if c = '\x08' then ['\\', 'b']
  else if c = '\x0c' then ['\\', 'f']
  else if c = '\n' then ['\\', 'n']
  else if c = '\r' then ['\\', 'r']
  else if c = '\t' then ['\\', 't']
  else if c.toNat < 32 then
    ['\\', 'u', '0', '0', hexDigit (c.toNat / 16), hexDigit c.toNat]
  else [c]

/-- The written form of a text, without the quotes around it. -/
def encode : List Char → List Char
  | [] => []
  | c :: cs => escape c ++ encode cs

/-- A text between double quotes. -/
def quote (s : String) : String :=
  String.ofList ('"' :: encode s.toList ++ ['"'])

-- ==================================================== reading

/-- The value of a hexadecimal digit in either case. -/
def hexValue? (c : Char) : Option Nat :=
  if '0' ≤ c ∧ c ≤ '9' then some (c.toNat - 48)
  else if 'a' ≤ c ∧ c ≤ 'f' then some (c.toNat - 87)
  else if 'A' ≤ c ∧ c ≤ 'F' then some (c.toNat - 55)
  else none

/-- The code unit that four hexadecimal digits stand for. -/
def unit? (a b c d : Char) : Option Nat := do
  let a ← hexValue? a
  let b ← hexValue? b
  let c ← hexValue? c
  let d ← hexValue? d
  return ((a * 16 + b) * 16 + c) * 16 + d

/-- The unit opens a surrogate pair. -/
def isHighSurrogate (u : Nat) : Bool := 0xD800 ≤ u && u < 0xDC00

/-- The unit closes a surrogate pair. -/
def isLowSurrogate (u : Nat) : Bool := 0xDC00 ≤ u && u < 0xE000

/-- The character that a surrogate pair stands for. -/
def joinSurrogates (high low : Nat) : Char :=
  Char.ofNat (0x10000 + (high - 0xD800) * 0x400 + (low - 0xDC00))

/-- The character behind a one-letter escape. -/
def unescape? : Char → Option Char
  | '"' => some '"'
  | '\\' => some '\\'
  | '/' => some '/'
  | 'b' => some '\x08'
  | 'f' => some '\x0c'
  | 'n' => some '\n'
  | 'r' => some '\r'
  | 't' => some '\t'
  | _ => none

/-- Read a text up to its closing quote. `high` is the first half of a
surrogate pair whose second half must come next. -/
def decodeFrom (high : Option Nat) : List Char → Option (List Char × List Char)
  | [] => none
  | '\\' :: 'u' :: a :: b :: c :: d :: cs =>
    match unit? a b c d, high with
    | none, _ => none
    | some u, some h =>
      if isLowSurrogate u then
        (decodeFrom none cs).map fun r => (joinSurrogates h u :: r.1, r.2)
      else none
    | some u, none =>
      if isHighSurrogate u then decodeFrom (some u) cs
      else if isLowSurrogate u then none
      else (decodeFrom none cs).map fun r => (Char.ofNat u :: r.1, r.2)
  | '\\' :: e :: cs =>
    match unescape? e, high with
    | some c, none => (decodeFrom none cs).map fun r => (c :: r.1, r.2)
    | _, _ => none
  | c :: cs =>
    if high.isSome then none
    else if c = '"' then some ([], cs)
    else if c = '\\' then none
    else if c.toNat < 32 then none
    else (decodeFrom none cs).map fun r => (c :: r.1, r.2)

/-- Read a text that starts just after its opening quote: its characters
and what follows the closing quote. -/
def decode (cs : List Char) : Option (List Char × List Char) :=
  decodeFrom none cs

/-- What is left after a text is shorter than what was read. -/
theorem length_of_decodeFrom {high : Option Nat} {cs text rest : List Char}
    (h : decodeFrom high cs = some (text, rest)) : rest.length < cs.length := by
  have tail {c : Char} {cs : List Char} (h : rest.length < cs.length) :
      rest.length < (c :: cs).length := Nat.lt_succ_of_lt h
  fun_induction decodeFrom high cs generalizing text with
  | case5 _ _ _ _ _ _ _ _ ih =>
    exact tail (tail (tail (tail (tail (tail (ih h))))))
  | _ => grind [Option.map_eq_some_iff]

end LiveDoc.Quoted
