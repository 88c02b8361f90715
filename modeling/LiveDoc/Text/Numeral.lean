/-
Positional decimal notation of natural and whole numbers.

`digits n` is the one numeral of `n` that has no leading zero, and
`value` reads any run of digits. The two are written here rather than
borrowed from the core printers because every number this library shows
goes through them: `value_digits` is what makes "the text of a number
reads back" provable wherever a number is shown.
-/

namespace LiveDoc.Numeral

-- ==================================================== single digits

/-- The numeral of a number below ten; larger numbers are cut to their
last digit. -/
def digit (n : Nat) : Char :=
  Char.ofNat (48 + n % 10)

/-- The number a decimal digit stands for. -/
def digitValue (c : Char) : Nat :=
  c.toNat - 48

/-- A digit that is written is one that is read. -/
theorem isDigit_digit (n : Nat) : (digit n).isDigit = true := by
  have h : n % 10 < 10 := Nat.mod_lt _ (by decide)
  unfold digit
  generalize n % 10 = k at h
  revert h
  revert k
  decide

/-- Reading a digit gives what was written. -/
theorem digitValue_digit (n : Nat) : digitValue (digit n) = n % 10 := by
  have h : n % 10 < 10 := Nat.mod_lt _ (by decide)
  unfold digit digitValue
  generalize n % 10 = k at h
  revert h
  revert k
  decide

-- ==================================================== whole numerals

/-- The numeral of `n` before further digits. -/
def digitsBefore (n : Nat) (rest : List Char) : List Char :=
  if n < 10 then digit n :: rest else digitsBefore (n / 10) (digit n :: rest)
  termination_by n

/-- The numeral of `n`, most significant digit first. -/
def digits (n : Nat) : List Char := digitsBefore n []

/-- The number a run of digits stands for; the empty run stands for 0. -/
def value (ds : List Char) : Nat :=
  ds.foldl (fun n c => n * 10 + digitValue c) 0

theorem digitsBefore_of_lt {n : Nat} (h : n < 10) (rest : List Char) :
    digitsBefore n rest = digit n :: rest := by
  rw [digitsBefore, if_pos h]

theorem digitsBefore_of_le {n : Nat} (h : 10 ≤ n) (rest : List Char) :
    digitsBefore n rest = digitsBefore (n / 10) (digit n :: rest) := by
  rw [digitsBefore, if_neg (by omega)]

/-- The digits already written stay behind those still to come. -/
theorem digitsBefore_eq_append (n : Nat) (rest : List Char) :
    digitsBefore n rest = digits n ++ rest := by
  induction n using Nat.strongRecOn generalizing rest with
  | _ n ih =>
    unfold digits
    rcases Nat.lt_or_ge n 10 with h | h
    · rw [digitsBefore_of_lt h, digitsBefore_of_lt h]
      rfl
    · have hlt : n / 10 < n := by omega
      rw [digitsBefore_of_le h, digitsBefore_of_le h, ih (n / 10) hlt (digit n :: rest),
        ih (n / 10) hlt [digit n]]
      simp

/-- A numeral of one digit. -/
theorem digits_of_lt {n : Nat} (h : n < 10) : digits n = [digit n] :=
  digitsBefore_of_lt h []

/-- A longer numeral is that of the tenth part and one more digit. -/
theorem digits_of_le {n : Nat} (h : 10 ≤ n) : digits n = digits (n / 10) ++ [digit n] := by
  rw [digits, digitsBefore_of_le h, digitsBefore_eq_append]

/-- Reading goes on where the digits in front have been read. -/
theorem value_append (cs ds : List Char) :
    value (cs ++ ds) = ds.foldl (fun n c => n * 10 + digitValue c) (value cs) :=
  List.foldl_append

/-- One more digit makes a number ten times as large, and adds its own value. -/
theorem value_append_singleton (ds : List Char) (c : Char) :
    value (ds ++ [c]) = value ds * 10 + digitValue c :=
  value_append ds [c]

/-- A numeral reads back as its number. -/
theorem value_digits (n : Nat) : value (digits n) = n := by
  induction n using Nat.strongRecOn with
  | _ n ih =>
    rcases Nat.lt_or_ge n 10 with h | h
    · simp [digits_of_lt h, value, digitValue_digit, Nat.mod_eq_of_lt h]
    · rw [digits_of_le h, value_append_singleton, ih (n / 10) (by omega), digitValue_digit]
      omega

/-- A numeral is digits throughout. -/
theorem all_isDigit_digits (n : Nat) : (digits n).all Char.isDigit = true := by
  induction n using Nat.strongRecOn with
  | _ n ih =>
    rcases Nat.lt_or_ge n 10 with h | h
    · simp [digits_of_lt h, isDigit_digit]
    · simp [digits_of_le h, isDigit_digit, ih (n / 10) (by omega)]

/-- Zero has a digit, too. -/
theorem digits_ne_nil (n : Nat) : digits n ≠ [] := by
  rcases Nat.lt_or_ge n 10 with h | h
  · simp [digits_of_lt h]
  · simp [digits_of_le h]

-- ==================================================== signed numerals

/-- A whole number as a sign, when it is negative, and a numeral. -/
def signed (n : Int) : List Char :=
  if n < 0 then '-' :: digits n.natAbs else digits n.natAbs

/-- The text of a natural number. -/
def ofNat (n : Nat) : String :=
  String.ofList (digits n)

/-- The text of a whole number. -/
def ofInt (n : Int) : String :=
  String.ofList (signed n)

/-- A numeral widened to at least `width` places by leading zeros. -/
def padded (width n : Nat) : String :=
  let ds := digits n
  String.ofList (List.replicate (width - ds.length) '0' ++ ds)

end LiveDoc.Numeral
