/-
Literals read back.

A text between quotes and a whole number in decimal notation are the two
kinds of literals that take work to read. Each is followed by whatever the
document goes on with, so each lemma is about a literal with a rest behind
it: reading takes the literal and leaves the rest.

For a quoted text this is said of one character at a time. What is written
for a character is read as that character, in whichever of the three forms
it was written, and never ends the text (`decodeFrom_escape`). For a number
it is a matter of where its digits stop; the rest must begin with nothing
that numbers are made of (`scan_signed`).
-/
import LiveDoc.Json.Reader
import Mathlib.Data.List.Basic
import Mathlib.Data.List.TakeWhile

namespace LiveDoc

-- ==================================================== quoted texts

namespace Quoted

/-- A hexadecimal digit that was written is read as what it stands for. -/
theorem hexValue?_hexDigit (n : Nat) : hexValue? (hexDigit n) = some (n % 16) := by
  have h : n % 16 < 16 := Nat.mod_lt _ (by decide)
  unfold hexDigit
  generalize n % 16 = k at h
  revert h
  revert k
  decide

/-- The code unit of a control character, as it is written. -/
theorem unit?_control {n : Nat} (h : n < 32) :
    unit? '0' '0' (hexDigit (n / 16)) (hexDigit n) = some n := by
  have hzero : hexValue? '0' = some 0 := by decide
  unfold unit?
  rw [hzero, hexValue?_hexDigit, hexValue?_hexDigit]
  show some _ = some n
  congr 1
  omega

/-- What is written for a character is read as that character. -/
theorem decodeFrom_escape (c : Char) (rest : List Char) :
    decodeFrom none (escape c ++ rest)
      = (decodeFrom none rest).map fun r => (c :: r.1, r.2) := by
  unfold escape
  by_cases hquote : c = '"'
  · subst hquote
    simp [decodeFrom, unescape?]
  by_cases hbackslash : c = '\\'
  · subst hbackslash
    simp [decodeFrom, unescape?]
  by_cases hbackspace : c = '\x08'
  · subst hbackspace
    simp [decodeFrom, unescape?]
  by_cases hfeed : c = '\x0c'
  · subst hfeed
    simp [decodeFrom, unescape?]
  by_cases hline : c = '\n'
  · subst hline
    simp [decodeFrom, unescape?]
  by_cases hreturn : c = '\r'
  · subst hreturn
    simp [decodeFrom, unescape?]
  by_cases htab : c = '\t'
  · subst htab
    simp [decodeFrom, unescape?]
  rw [if_neg hquote, if_neg hbackslash, if_neg hbackspace, if_neg hfeed, if_neg hline,
    if_neg hreturn, if_neg htab]
  by_cases hcontrol : c.toNat < 32
  · -- a control character without a short form is written by its code
    have hhigh : isHighSurrogate c.toNat = false := by
      unfold isHighSurrogate
      rw [Bool.and_eq_false_iff, decide_eq_false_iff_not]
      omega
    have hlow : isLowSurrogate c.toNat = false := by
      unfold isLowSurrogate
      rw [Bool.and_eq_false_iff, decide_eq_false_iff_not]
      omega
    simp [hcontrol, decodeFrom, unit?_control hcontrol, hhigh, hlow]
  · rw [if_neg hcontrol, List.singleton_append, decodeFrom]
    · simp [hquote, hbackslash, hcontrol]
    all_goals
      intros
      contradiction

/-- A text that was written between quotes is read as it was. -/
theorem decode_encode (cs rest : List Char) :
    decode (encode cs ++ '"' :: rest) = some (cs, rest) := by
  unfold decode
  induction cs with
  | nil => simp [encode, decodeFrom]
  | cons c cs ih =>
    rw [encode, List.append_assoc, decodeFrom_escape, ih]
    rfl

end Quoted

-- ==================================================== whole numbers

namespace Numeral

/-- A numeral without a further digit in front has no leading zero. -/
theorem head?_digits_ne {n : Nat} (h : 0 < n) : (digits n).head? ≠ some '0' := by
  induction n using Nat.strongRecOn with
  | _ n ih =>
    rcases Nat.lt_or_ge n 10 with hlt | hge
    · rw [digits_of_lt hlt, List.head?_cons]
      intro hzero
      have hvalue := digitValue_digit n
      rw [Option.some.inj hzero, Nat.mod_eq_of_lt hlt] at hvalue
      have hnone : digitValue '0' = 0 := by decide
      omega
    · have htenth : 0 < n / 10 := by omega
      rw [digits_of_le hge, List.head?_append_of_ne_nil _ (digits_ne_nil _)]
      exact ih (n / 10) (by omega) htenth

end Numeral

namespace Json

open Numeral

/-- All of a numeral is digits, and no zero leads it. -/
theorem whole_digits (n : Nat) :
    (digits n).takeWhile Char.isDigit = digits n ∧ (digits n).dropWhile Char.isDigit = []
      ∧ ((digits n).isEmpty
        || (decide ((digits n).length > 1) && (digits n).head? == some '0')) = false := by
  have hall : ∀ c ∈ digits n, c.isDigit = true := List.all_eq_true.1 (all_isDigit_digits n)
  refine ⟨List.takeWhile_eq_self_iff.2 hall, List.dropWhile_eq_nil_iff.2 hall, ?_⟩
  rw [Bool.or_eq_false_iff]
  constructor
  · rw [List.isEmpty_eq_false_iff]
    exact digits_ne_nil n
  · by_cases hzero : 0 < n
    · simp [head?_digits_ne hzero]
    · obtain rfl : n = 0 := by omega
      simp [digits_of_lt]

/-- So it is a literal of these digits. -/
theorem Literal.ofChars?_digits (n : Nat) :
    ofChars? (digits n) = some ⟨false, digits n, [], none⟩ := by
  obtain ⟨htake, hdrop, hwhole⟩ := whole_digits n
  unfold ofChars?
  split
  case h_1 negative cs heq =>
    split at heq
    case h_1 cs' hcs =>
      have hminus : '-'.isDigit = true := by
        apply List.all_eq_true.1 (all_isDigit_digits n)
        rw [hcs]
        exact List.mem_cons_self
      cases hminus
    case h_2 =>
      cases heq
      simp only [htake, hdrop, hwhole, Bool.false_eq_true, if_false]
      rfl

/-- And so it is behind a minus. -/
theorem Literal.ofChars?_minus_digits (n : Nat) :
    ofChars? ('-' :: digits n) = some ⟨true, digits n, [], none⟩ := by
  obtain ⟨htake, hdrop, hwhole⟩ := whole_digits n
  unfold ofChars?
  simp only [htake, hdrop, hwhole, Bool.false_eq_true, if_false]
  rfl

/-- A numeral of a 64-bit integer, with its sign, is that integer. -/
theorem Literal.integer?_digits (i : Int64) :
    integer? ⟨decide (i.toInt < 0), digits i.toInt.natAbs, [], none⟩ = some (.int i) := by
  have hlower : -(2 ^ 63 : Int) ≤ i.toInt := Int64.le_toInt i
  have hupper : i.toInt < (2 ^ 63 : Int) := Int64.toInt_lt i
  have hpow : Nat.pow 2 63 = 2 ^ 63 := rfl
  unfold integer?
  dsimp only
  rw [value_digits, if_neg (by decide)]
  by_cases hnegative : i.toInt < 0
  · have habs : -(i.toInt.natAbs : Int) = i.toInt := by omega
    have hne : i.toInt.natAbs ≠ 0 := by omega
    have hle : i.toInt.natAbs ≤ Nat.pow 2 63 := by omega
    rw [if_pos (decide_eq_true hnegative), if_neg hne, if_pos hle, habs, Int64.ofInt_toInt]
  · have habs : (i.toInt.natAbs : Int) = i.toInt := by omega
    have hlt : i.toInt.natAbs < Nat.pow 2 63 := by omega
    rw [if_neg (mt of_decide_eq_true hnegative), if_pos hlt, habs, Int64.ofInt_toInt]

/-- The text of a 64-bit integer is read as that integer. -/
theorem Number.read?_signed (i : Int64) : read? (signed i.toInt) = some (.int i) := by
  have hliteral : Literal.ofChars? (signed i.toInt)
      = some ⟨decide (i.toInt < 0), digits i.toInt.natAbs, [], none⟩ := by
    unfold signed
    by_cases hnegative : i.toInt < 0
    · rw [if_pos hnegative, decide_eq_true hnegative, Literal.ofChars?_minus_digits]
    · rw [if_neg hnegative, decide_eq_false hnegative, Literal.ofChars?_digits]
  unfold read?
  rw [hliteral, Option.bind_some, Literal.number?, Literal.integer?_digits, Option.some_or]

end Json

-- ==================================================== tokens

namespace Json.Token

/-- Neither a number nor a word goes on with the text. -/
def Stops (cs : List Char) : Prop :=
  ∀ c, cs.head? = some c → isNumberChar c = false ∧ c.isAlpha = false

/-- The end of the text stops everything. -/
theorem stops_nil : Stops [] := fun c hc => by cases hc

/-- So does a character that neither goes on with. -/
theorem stops_cons {c : Char} (hc : isNumberChar c = false ∧ c.isAlpha = false) (cs : List Char) :
    Stops (c :: cs) := by
  intro d hd
  cases hd
  exact hc

/-- A run of characters of one kind ends where the text stops. -/
theorem takeWhile_append {p : Char → Bool} {run rest : List Char} (hrun : ∀ c ∈ run, p c = true)
    (hrest : ∀ c, rest.head? = some c → p c = false) :
    (run ++ rest).takeWhile p = run ∧ (run ++ rest).dropWhile p = rest := by
  have hnone : rest.takeWhile p = [] ∧ rest.dropWhile p = rest := by
    cases rest with
    | nil => exact ⟨rfl, rfl⟩
    | cons c cs => simp [hrest c rfl]
  rw [List.takeWhile_append_of_pos hrun, List.dropWhile_append_of_pos hrun, hnone.1, hnone.2]
  exact ⟨List.append_nil run, rfl⟩

variable (rest : List Char)

theorem scan_nil : scan [] = some [] := by rw [scan]

theorem scan_blank : scan (' ' :: rest) = scan rest := by
  rw [scan, if_pos (by decide)]

/-- A bracket, a comma or a colon is a token by itself. -/
theorem scan_punctuation {c : Char} {t : Token} (h : ofPunctuation? c = some t) :
    scan (c :: rest) = (scan rest).map (t :: ·) := by
  unfold ofPunctuation? at h
  split at h <;> cases h <;>
    rw [scan, if_neg (by decide), if_neg (by decide), if_neg (by decide), if_neg (by decide)] <;>
    rfl

/-- A quoted text is one token, whatever is quoted. -/
theorem scan_quoted (s : String) :
    scan ('"' :: (Quoted.encode s.toList ++ '"' :: rest)) = (scan rest).map (.str s :: ·) := by
  rw [scan, if_neg (by decide), if_pos rfl]
  split
  case h_1 hnone =>
    rw [Quoted.decode_encode] at hnone
    cases hnone
  case h_2 text rest' hsome =>
    rw [Quoted.decode_encode] at hsome
    cases hsome
    rw [String.ofList_toList]

/-- A word ends where its letters do. -/
theorem scan_word {c : Char} {cs : List Char} {t : Token} (h : ofWord? (c :: cs) = some t)
    (hfirst : isBlank c = false ∧ c ≠ '"' ∧ ¬ (c = '-' ∨ c.isDigit = true))
    (hletters : (c :: cs).all Char.isAlpha = true) (hrest : Stops rest) :
    scan (c :: (cs ++ rest)) = (scan rest).map (t :: ·) := by
  obtain ⟨hblank, hquote, hnumber⟩ := hfirst
  obtain ⟨hc, hcs⟩ := List.forall_mem_cons.1 (List.all_eq_true.1 hletters)
  obtain ⟨htake, hdrop⟩ := takeWhile_append hcs fun d hd => (hrest d hd).2
  rw [scan, if_neg (Bool.eq_false_iff.1 hblank), if_neg hquote, if_neg hnumber, if_pos hc, htake,
    hdrop, h]

/-- The characters of a whole number. -/
theorem signed_chars (n : Int) :
    ∃ c cs, Numeral.signed n = c :: cs ∧ (c = '-' ∨ c.isDigit = true)
      ∧ ∀ d ∈ cs, isNumberChar d = true := by
  have hdigits : ∀ d ∈ Numeral.digits n.natAbs, d.isDigit = true :=
    List.all_eq_true.1 (Numeral.all_isDigit_digits _)
  have hnumber : ∀ d : Char, d.isDigit = true → isNumberChar d = true := by
    intro d hd
    simp [isNumberChar, hd]
  unfold Numeral.signed
  split
  · exact ⟨'-', _, rfl, .inl rfl, fun d hd => hnumber d (hdigits d hd)⟩
  · obtain ⟨c, cs, heq⟩ := List.exists_cons_of_ne_nil (Numeral.digits_ne_nil n.natAbs)
    rw [heq] at hdigits ⊢
    obtain ⟨hc, hcs⟩ := List.forall_mem_cons.1 hdigits
    exact ⟨c, cs, rfl, .inr hc, fun d hd => hnumber d (hcs d hd)⟩

/-- A whole number is one token, read up to where its digits stop. -/
theorem scan_signed (i : Int64) (hrest : Stops rest) :
    scan (Numeral.signed i.toInt ++ rest) = (scan rest).map (.number (.int i) :: ·) := by
  have hliteral := Number.read?_signed i
  obtain ⟨c, cs, hsigned, hfirst, hcs⟩ := signed_chars i.toInt
  obtain ⟨htake, hdrop⟩ := takeWhile_append hcs fun d hd => (hrest d hd).1
  have hblank : ¬ isBlank c = true := by
    intro hblank
    have hother : c = ' ' ∨ c = '\t' ∨ c = '\n' ∨ c = '\r' := by
      simpa [isBlank, or_assoc] using hblank
    rcases hother with rfl | rfl | rfl | rfl <;> simp at hfirst
  have hquote : c ≠ '"' := by
    rintro rfl
    simp at hfirst
  rw [hsigned] at hliteral ⊢
  rw [List.cons_append, scan, if_neg hblank, if_neg hquote, if_pos hfirst, htake, hdrop, hliteral]

end Json.Token

end LiveDoc
