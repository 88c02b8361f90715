/-
The kind of a value in its text.

The exact text of a value tells its kind (`kindOfText`): texts, lists, dicts
and classes open with a character of their own, null and the truth values are
words, numbers are digits, and those with a point are doubles. The exception
is a double that is shown as an integer is (`Binary64.TakenFor`). So two
things of different kinds have one text only if one is such a double and the
other the integer.

The argument is the same for values, constants and bounds, and is made once
(`TellsKind.text_eq_iff`), for any type that has doubles and integers in it.
Instances are left out: their text is that of a template, which may be
anything. The lines of a listing show constants and bounds behind a text that
does not depend on them, so they are told apart as these are.
-/
import LiveDoc.Program.Listing
import LiveDoc.Proofs.NumberText
import LiveDoc.Proofs.RoundTrip

namespace LiveDoc

-- ==================================================== the kind that a text tells

/-- The kind that can be read off an exact text. -/
def kindOfText (text : String) : String :=
  if text.toList.all fun c => c.isDigit || c == '-' then "int"
  else if text.toList.all Json.Token.isNumberChar then "float"
  else
    match text.toList with
    | ['n', 'a', 'n'] => "float"
    | ['i', 'n', 'f'] => "float"
    | ['-', 'i', 'n', 'f'] => "float"
    | 'n' :: _ => "null"
    | '"' :: _ => "str"
    | '[' :: _ => "list"
    | '{' :: _ => "dict"
    | '<' :: _ => "class"
    | _ => "bool"

/-- Digits, with or without a sign, tell an integer. -/
theorem kindOfText_sign_append (negative : Bool) (n : Nat) :
    kindOfText (Binary64.sign negative ++ Numeral.ofNat n) = "int" :=
  if_pos (List.all_eq_true.2 fun _ hc => Numeral.mem_sign_append hc)

/-- The text of an integer is of this form. -/
theorem kindOfText_ofInt (i : Int) : kindOfText (Numeral.ofInt i) = "int" := by
  rw [Numeral.ofInt_eq]
  exact kindOfText_sign_append _ _

/-- Doubles are told but for the whole ones without a point. -/
theorem Binary64.kindOfText_text (x : Binary64) :
    kindOfText x.text = "float" ∨ kindOfText x.text = "int" := by
  cases x with
  | nan => exact .inl (by decide)
  | infinite negative => cases negative <;> exact .inl (by decide)
  | finite x =>
    by_cases hx : x.ShownWhole
    · rw [Finite.text_of_shownWhole hx]
      exact .inr (kindOfText_sign_append _ _)
    · obtain ⟨hnumeric, hpoint⟩ := Finite.numeric_text hx
      refine .inl ?_
      have hnot : ¬ (Binary64.finite x).text.toList.all (fun c => c.isDigit || c == '-') = true :=
        fun hall => by cases List.all_eq_true.1 hall '.' hpoint
      unfold kindOfText
      rw [if_neg hnot, if_pos (List.all_eq_true.2 hnumeric)]

/-- A text that opens with a character of its own tells its kind. -/
theorem kindOfText_opening {c : Char} {kind text : String} (htext : text.toList.head? = some c)
    (h : (c, kind) ∈ [('"', "str"), ('[', "list"), ('{', "dict"), ('<', "class")]) :
    kindOfText text = kind := by
  obtain ⟨cs, hcs⟩ := List.head?_eq_some_iff.1 htext
  unfold kindOfText
  rw [hcs]
  simp only [List.mem_cons, Prod.mk.injEq, List.not_mem_nil, or_false] at h
  rcases h with ⟨rfl, rfl⟩ | ⟨rfl, rfl⟩ | ⟨rfl, rfl⟩ | ⟨rfl, rfl⟩ <;> rfl

/-- The text shows something of the kind: it tells the kind, but for doubles
that look like an integer. -/
structure TellsKind {α : Type} (float : Binary64 → α) (int : Int64 → α) (a : α)
    (kind text : String) : Prop where
  tells : kindOfText text = kind ∨ kind = "float" ∧ kindOfText text = "int"
  exists_float : kind = "float" → ∃ x, a = float x
  exists_int : kind = "int" → ∃ i, a = int i
  text_float : ∀ x, a = float x → text = x.text
  text_int : ∀ i, a = int i → text = Numeral.ofInt i.toInt

/-- One is a double that is shown as an integer is, and the other is that
integer. -/
def Confused {α : Type} (float : Binary64 → α) (int : Int64 → α) (a b : α) : Prop :=
  ∃ x i, x.TakenFor i.toInt ∧ (a = float x ∧ b = int i ∨ a = int i ∧ b = float x)

namespace TellsKind

variable {α : Type} {float : Binary64 → α} {int : Int64 → α} {a b : α}
  {kind kind' text text' : String}

/-- A double shows its kind, or else that of an integer. -/
theorem of_float (hfloat : Function.Injective float) (hne : ∀ x i, float x ≠ int i)
    (x : Binary64) : TellsKind float int (float x) "float" x.text where
  tells := x.kindOfText_text.imp_right fun h => ⟨rfl, h⟩
  exists_float _ := ⟨x, rfl⟩
  exists_int h := absurd h (by decide)
  text_float _ h := congrArg Binary64.text (hfloat h)
  text_int i h := absurd h (hne x i)

/-- An integer always shows its kind. -/
theorem of_int (hint : Function.Injective int) (hne : ∀ x i, float x ≠ int i) (i : Int64) :
    TellsKind float int (int i) "int" (Numeral.ofInt i.toInt) where
  tells := .inl (kindOfText_ofInt _)
  exists_float h := absurd h (by decide)
  exists_int _ := ⟨i, rfl⟩
  text_float x h := absurd h.symm (hne x i)
  text_int _ h := congrArg (fun i => Numeral.ofInt i.toInt) (hint h)

/-- What is no number only has to show its kind. -/
theorem of_other (hkind : kind ≠ "float" ∧ kind ≠ "int") (htells : kindOfText text = kind)
    (hother : ∀ x i, a ≠ float x ∧ a ≠ int i) : TellsKind float int a kind text where
  tells := .inl htells
  exists_float h := absurd h hkind.1
  exists_int h := absurd h hkind.2
  text_float x h := absurd h (hother x 0).1
  text_int i h := absurd h (hother .nan i).2

/-- Things of different kinds have one text only where a double is shown as an
integer is. -/
theorem text_eq_iff (ha : TellsKind float int a kind text) (hb : TellsKind float int b kind' text')
    (hne : kind ≠ kind') : text = text' ↔ Confused float int a b := by
  constructor
  · intro heq
    -- One text tells one kind, so one of the two is a double that does not
    -- show its own, and the other is what it shows.
    have hnumbers : kind = "float" ∧ kind' = "int" ∨ kind = "int" ∧ kind' = "float" := by
      have ha' := ha.tells
      have hb' := hb.tells
      rw [← heq] at hb'
      rcases ha' with ha' | ⟨hfloat, ha'⟩ <;> rcases hb' with hb' | ⟨hfloat', hb'⟩
      · exact absurd (ha'.symm.trans hb') hne
      · exact .inr ⟨ha'.symm.trans hb', hfloat'⟩
      · exact .inl ⟨hfloat, hb'.symm.trans ha'⟩
      · exact absurd (hfloat.trans hfloat'.symm) hne
    rcases hnumbers with ⟨hfloat, hint⟩ | ⟨hint, hfloat⟩
    · obtain ⟨x, hx⟩ := ha.exists_float hfloat
      obtain ⟨i, hi⟩ := hb.exists_int hint
      rw [ha.text_float x hx, hb.text_int i hi, Binary64.text_eq_ofInt_iff] at heq
      exact ⟨x, i, heq, .inl ⟨hx, hi⟩⟩
    · obtain ⟨x, hx⟩ := hb.exists_float hfloat
      obtain ⟨i, hi⟩ := ha.exists_int hint
      rw [ha.text_int i hi, hb.text_float x hx, eq_comm, Binary64.text_eq_ofInt_iff] at heq
      exact ⟨x, i, heq, .inr ⟨hi, hx⟩⟩
  · rintro ⟨x, i, htaken, ⟨hx, hi⟩ | ⟨hi, hx⟩⟩
    · rw [ha.text_float x hx, hb.text_int i hi]
      exact Binary64.text_eq_ofInt_iff.2 htaken
    · rw [ha.text_int i hi, hb.text_float x hx]
      exact (Binary64.text_eq_ofInt_iff.2 htaken).symm

end TellsKind

-- ==================================================== values, constants and bounds

/-- The kind of a constant is that of its value. -/
def Constant.kindName : Constant → String
  | .null => "null"
  | .bool _ => "bool"
  | .int _ => "int"
  | .float _ => "float"
  | .str _ => "str"
  | .list _ => "list"
  | .dict _ => "dict"

/-- The kind of a bound. -/
def Bound.kindName : Bound → String
  | .int _ => "int"
  | .float _ => "float"

theorem kindOfText_bool (b : Bool) : kindOfText (Constant.boolText b) = "bool" := by
  cases b <;> decide

/-- A quoted text opens with a quote, whatever it holds. -/
theorem kindOfText_quote (s : String) : kindOfText (Quoted.quote s) = "str" :=
  kindOfText_opening (c := '"') (by simp [Quoted.quote]) (by simp)

/-- The exact text of a value tells its kind. Only instances show themselves as
they like. -/
theorem Value.tellsKind {v : Value} (hv : ∀ i, v ≠ .inst i) (h : Heap) :
    TellsKind Value.float Value.int v v.kindName (v.reprText h) := by
  -- a walk may take a step at least, so that no text is the limit's
  obtain ⟨k, hk⟩ : ∃ k, h.walkLimit = k + 1 := ⟨_, rfl⟩
  have hne : ∀ x i, Value.float x ≠ .int i := by simp
  unfold reprText
  rw [hk]
  cases v with
  | null =>
    refine .of_other (by simp [kindName]) ?_ (by simp)
    rw [Heap.textWithin]
    decide
  | bool b =>
    refine .of_other (by simp [kindName]) ?_ (by simp)
    rw [Heap.textWithin]
    exact kindOfText_bool b
  | int i =>
    rw [Heap.textWithin]
    exact .of_int (fun _ _ => Value.int.inj) hne i
  | float x =>
    rw [Heap.textWithin]
    exact .of_float (fun _ _ => Value.float.inj) hne x
  | str s =>
    refine .of_other (by simp [kindName]) ?_ (by simp)
    rw [Heap.textWithin]
    exact kindOfText_quote s
  | list r =>
    refine .of_other (by simp [kindName]) ?_ (by simp)
    rw [Heap.textWithin]
    exact kindOfText_opening (c := '[') (by simp) (by simp [kindName])
  | dict r =>
    refine .of_other (by simp [kindName]) ?_ (by simp)
    rw [Heap.textWithin]
    exact kindOfText_opening (c := '{') (by simp) (by simp [kindName])
  | cls c =>
    refine .of_other (by simp [kindName]) ?_ (by simp)
    rw [Heap.textWithin]
    have hfirst : c.text.toList.head? = some '<' := by
      unfold Class.text
      simp only [String.toList_append, List.append_assoc]
      rfl
    exact kindOfText_opening hfirst (by simp [kindName])
  | inst i => exact absurd rfl (hv i)

/-- So does the text of a constant, -/
theorem Constant.tellsKind (c : Constant) :
    TellsKind Constant.float Constant.int c c.kindName c.text := by
  have hne : ∀ x i, Constant.float x ≠ .int i := by simp
  cases c with
  | null =>
    refine .of_other (by simp [kindName]) ?_ (by simp)
    rw [text]
    decide
  | bool b =>
    refine .of_other (by simp [kindName]) ?_ (by simp)
    rw [text]
    exact kindOfText_bool b
  | int i =>
    rw [text]
    exact .of_int (fun _ _ => Constant.int.inj) hne i
  | float x =>
    rw [text]
    exact .of_float (fun _ _ => Constant.float.inj) hne x
  | str s =>
    refine .of_other (by simp [kindName]) ?_ (by simp)
    rw [text]
    exact kindOfText_quote s
  | list cs =>
    refine .of_other (by simp [kindName]) ?_ (by simp)
    rw [text_list]
    exact kindOfText_opening (c := '[') (by simp) (by simp [kindName])
  | dict es =>
    refine .of_other (by simp [kindName]) ?_ (by simp)
    rw [text_dict]
    exact kindOfText_opening (c := '{') (by simp) (by simp [kindName])

/-- and that of a bound. -/
theorem Bound.tellsKind (b : Bound) : TellsKind Bound.float Bound.int b b.kindName b.text := by
  have hne : ∀ x i, Bound.float x ≠ .int i := by simp
  cases b with
  | int i => exact .of_int (fun _ _ => Bound.int.inj) hne i
  | float x => exact .of_float (fun _ _ => Bound.float.inj) hne x

-- ==================================================== lines of a listing

/-- No number has a blank in its text. -/
theorem Binary64.blank_notMem_text (x : Binary64) : ' ' ∉ x.text.toList := by
  cases x with
  | nan => decide
  | infinite negative => cases negative <;> decide
  | finite x =>
    intro hblank
    by_cases hx : x.ShownWhole
    · rw [Finite.text_of_shownWhole hx] at hblank
      cases Numeral.mem_sign_append hblank
    · cases (Finite.numeric_text hx).1 ' ' hblank

/-- So the blank between the ends of a range is the only one. -/
theorem Bound.blank_notMem_text (b : Bound) : ' ' ∉ b.text.toList := by
  cases b with
  | int i =>
    intro hblank
    rw [text, Numeral.ofInt_eq] at hblank
    cases Numeral.mem_sign_append hblank
  | float x => exact x.blank_notMem_text

/-- No text of a constant is that of a default that is copied. -/
theorem Constant.text_ne_fresh (c d : Constant) : c.text ≠ "null -> fresh " ++ d.text := by
  intro heq
  have hnull : kindOfText ("null -> fresh " ++ d.text) = "null" := by
    unfold kindOfText
    rw [String.toList_append]
    rfl
  have htells := c.tellsKind.tells
  rw [heq, hnull] at htells
  cases c with
  | null =>
    rw [text, ← String.toList_inj, String.toList_append] at heq
    cases heq
  | _ => simp [kindName] at htells

namespace Program

/-- What the line of a parameter shows of its default. -/
def Default.text : Default → String
  | .value c => c.text
  | .fresh c => "null -> fresh " ++ c.text

/-- The line of a parameter ends in what it shows of the default. -/
theorem Param.line_eq (p : Param) :
    p.line = "   |   Param " ++ p.name ++ " = " ++ p.default.text := by
  obtain ⟨name, c | c⟩ := p
  · rfl
  · simp only [line, Default.text, String.append_assoc]
    rfl

/-- What is shown tells a default that is copied from one that is shared, so
the constants are shown alike as well. -/
theorem Default.constant_text_eq {d e : Default} (h : d.text = e.text) :
    d.constant.text = e.constant.text := by
  cases d with
  | value c =>
    cases e with
    | value c' => exact h
    | fresh c' => exact absurd h (c.text_ne_fresh c')
  | fresh c =>
    cases e with
    | value c' => exact absurd h.symm (c'.text_ne_fresh c)
    | fresh c' => exact (String.append_right_inj _).1 h

variable {c d : Constant}

/-- Lines for two attributes of one name are told apart by the constants. -/
theorem Item.lines_eq_iff (number : Nat) (name : String) :
    Item.lines number (.moduleAttribute name c) = Item.lines number (.moduleAttribute name d)
      ↔ c.text = d.text := by
  simp [Item.lines]

/-- And so are lines for a class attribute in one place of a class. -/
theorem ClassDef.lines_eq_iff (k : ClassDef) (name : String) (earlier later : Entries Constant) :
    ClassDef.lines { k with classAttributes := earlier ++ (name, c) :: later }
        = ClassDef.lines { k with classAttributes := earlier ++ (name, d) :: later }
      ↔ c.text = d.text := by
  simp [ClassDef.lines]

/-- Equal lines of parameters of one name show equal constants. -/
theorem Param.text_eq_of_line_eq {p q : Param} (hname : p.name = q.name) (hline : p.line = q.line) :
    p.default.constant.text = q.default.constant.text := by
  rw [line_eq, line_eq, hname, String.append_right_inj] at hline
  exact Default.constant_text_eq hline

end Program

open Program (checkText)

/-- The line of a range shows its ends. -/
theorem Bound.between_line_iff {a b a' b' : Bound} :
    checkText (.inRange (.between a b)) = checkText (.inRange (.between a' b'))
      ↔ a.text = a'.text ∧ b.text = b'.text := by
  have hblank : (" " : String).toList = [' '] := rfl
  rw [checkText, checkText, ← String.toList_inj]
  simp only [String.toList_append, hblank, List.append_assoc, List.singleton_append,
    List.append_cancel_left_eq]
  rw [List.append_cons_inj_of_notMem a.blank_notMem_text b.blank_notMem_text, String.toList_inj,
    String.toList_inj]
  exact and_congr_right fun _ => and_iff_right rfl

/-- A range with one end shows that end and a word for the side that it is open
on. -/
theorem Bound.atLeast_line_iff {a b : Bound} :
    checkText (.inRange (.atLeast a)) = checkText (.inRange (.atLeast b)) ↔ a.text = b.text := by
  simp [checkText]

theorem Bound.atMost_line_iff {a b : Bound} :
    checkText (.inRange (.atMost a)) = checkText (.inRange (.atMost b)) ↔ a.text = b.text := by
  simp [checkText]

/-- The text of a number tells its kind, but for one kind of double. Whole
doubles below 10^16 are shown with `.0`, those from there on with their
shortest digits alone, all others with a point. So a double has the text of an
integer exactly if it is whole, at least 10^16, and those digits are the
integer's; and values, constants and bounds of different kinds, instances
apart, have one text only if they are such a double and that integer. The same
is true of the lines of a listing that show them in one place. -/
theorem Value.text_tells_kind (h h' : Heap) :
    (∀ (x : Binary64) (i : Int64),
        (Value.float x).reprText h = (Value.int i).reprText h' ↔ x.TakenFor i.toInt)
      ∧ (∀ x : Binary64.Finite, x.isIntegral = true → x.magnitude < 10 ^ 16 * Binary64.one →
        (Value.float (.finite x)).reprText h
          = Binary64.sign x.negative ++ Numeral.ofNat (x.magnitude / Binary64.one) ++ ".0")
      ∧ (∀ v w : Value, (∀ i, v ≠ .inst i) → (∀ i, w ≠ .inst i) → v.kindName ≠ w.kindName →
        (v.reprText h = w.reprText h' ↔ Confused Value.float Value.int v w))
      ∧ (∀ c d : Constant, c.kindName ≠ d.kindName →
        (c.text = d.text ↔ Confused Constant.float Constant.int c d)
          ∧ (∀ number name, Program.Item.lines number (.moduleAttribute name c)
              = Program.Item.lines number (.moduleAttribute name d)
            ↔ Confused Constant.float Constant.int c d)
          ∧ (∀ (k : Program.ClassDef) name earlier later,
            Program.ClassDef.lines { k with classAttributes := earlier ++ (name, c) :: later }
                = Program.ClassDef.lines { k with classAttributes := earlier ++ (name, d) :: later }
              ↔ Confused Constant.float Constant.int c d)
          ∧ ∀ p q : Program.Param, p.name = q.name → p.default.constant = c →
            q.default.constant = d → p.line = q.line → Confused Constant.float Constant.int c d)
      ∧ ∀ a b : Bound, a.kindName ≠ b.kindName →
        (a.text = b.text ↔ Confused Bound.float Bound.int a b)
          ∧ (checkText (.inRange (.atLeast a)) = checkText (.inRange (.atLeast b))
            ↔ Confused Bound.float Bound.int a b)
          ∧ (checkText (.inRange (.atMost a)) = checkText (.inRange (.atMost b))
            ↔ Confused Bound.float Bound.int a b)
          ∧ ∀ e e' : Bound,
            (checkText (.inRange (.between a e))
                = checkText (.inRange (.between b e'))
              ↔ Confused Bound.float Bound.int a b ∧ e.text = e'.text)
            ∧ (checkText (.inRange (.between e a))
                = checkText (.inRange (.between e' b))
              ↔ e.text = e'.text ∧ Confused Bound.float Bound.int a b) := by
  have hfloat : ∀ x, (Value.float x).reprText h = x.text := fun x => by
    rw [reprText, Heap.textWithin]
  have hint : ∀ i, (Value.int i).reprText h' = Numeral.ofInt i.toInt := fun i => by
    rw [reprText, Heap.textWithin]
  refine ⟨fun x i => ?_, fun x hx hless => ?_, fun v w hv hw hne => ?_,
    fun c d hne => ?_, fun a b hne => ?_⟩
  · rw [hfloat, hint]
    exact Binary64.text_eq_ofInt_iff
  · rw [hfloat]
    exact Binary64.Finite.text_of_isModestIntegral
      (Binary64.Finite.isModestIntegral_iff.2 ⟨hx, hless⟩)
  · exact (Value.tellsKind hv h).text_eq_iff (Value.tellsKind hw h') hne
  · have htext := c.tellsKind.text_eq_iff d.tellsKind hne
    refine ⟨htext, fun number name => (Program.Item.lines_eq_iff number name).trans htext,
      fun k name earlier later => (k.lines_eq_iff name earlier later).trans htext, ?_⟩
    -- the lines of a parameter agree only if its defaults have one text
    rintro p q hname rfl rfl hline
    exact htext.1 (Program.Param.text_eq_of_line_eq hname hline)
  · have htext := a.tellsKind.text_eq_iff b.tellsKind hne
    refine ⟨htext, Bound.atLeast_line_iff.trans htext,
      Bound.atMost_line_iff.trans htext, fun e e' => ⟨?_, ?_⟩⟩
    · exact Bound.between_line_iff.trans (and_congr_left' htext)
    · exact Bound.between_line_iff.trans (and_congr_right' htext)

namespace Sample

/-- The double 3. -/
def three : Binary64.Finite where
  negative := false
  significand := 3 * 2 ^ 51
  scale := 1023
  significand_lt := by decide
  scale_le := by decide
  full := by decide

/-- The double 10^16. -/
def tenToSixteen : Binary64.Finite where
  negative := false
  significand := 5 * 10 ^ 15
  scale := 1075
  significand_lt := by decide
  scale_le := by decide
  full := by decide

end Sample

/-- The double 3 is not shown as the integer 3 is, neither as a value nor as a
constant in a listing, nor as the end of a range. -/
theorem Value.three_tells_kind :
    (Value.float (.finite Sample.three)).reprText .empty ≠ (Value.int 3).reprText .empty
      ∧ (Value.float (.finite Sample.three)).reprText .empty = "3.0"
      ∧ (Constant.float (.finite Sample.three)).text ≠ (Constant.int 3).text
      ∧ (Bound.float (.finite Sample.three)).text ≠ (Bound.int 3).text := by
  obtain ⟨-, hpoint, hvalues, hconstants, hbounds⟩ := text_tells_kind .empty .empty
  have hless : Sample.three.magnitude < 10 ^ 16 * Binary64.one := by decide +kernel
  have hnot : ∀ i, ¬ (Binary64.finite Sample.three).TakenFor i := by
    rintro i ⟨f, hf, hwhole, -⟩
    cases hf
    exact absurd hwhole.2 (Nat.not_le.2 hless)
  have hconfused : ∀ {α : Type} {float : Binary64 → α} {int : Int64 → α},
      Function.Injective float → (∀ x i, float x ≠ int i) →
      ¬ Confused float int (float (.finite Sample.three)) (int 3) := by
    rintro α float int hinj hne ⟨x, i, htaken, ⟨hx, -⟩ | ⟨hi, -⟩⟩
    · exact hnot _ (hinj hx ▸ htaken)
    · exact hne _ _ hi
  refine ⟨?_, (hpoint Sample.three (by decide +kernel) hless).trans (by decide +kernel),
    ?_, ?_⟩
  · rw [Ne, hvalues _ _ (by simp) (by simp) (by simp [kindName])]
    exact hconfused (fun _ _ => Value.float.inj) (by simp)
  · rw [Ne, (hconstants _ _ (by simp [Constant.kindName])).1]
    exact hconfused (fun _ _ => Constant.float.inj) (by simp)
  · rw [Ne, (hbounds _ _ (by simp [Bound.kindName])).1]
    exact hconfused (fun _ _ => Bound.float.inj) (by simp)

/-- The double 10^16 is shown as the integer 10^16 is, everywhere. -/
theorem Value.large_double_shown_as_int :
    Sample.tenToSixteen.isIntegral = true
      ∧ (Value.float (.finite Sample.tenToSixteen)).reprText .empty
        = (Value.int 10000000000000000).reprText .empty
      ∧ (Constant.float (.finite Sample.tenToSixteen)).text
        = (Constant.int 10000000000000000).text
      ∧ (Bound.float (.finite Sample.tenToSixteen)).text
        = (Bound.int 10000000000000000).text := by
  decide +kernel

end LiveDoc
