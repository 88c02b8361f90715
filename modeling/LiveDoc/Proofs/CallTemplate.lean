/-
The template of a class without one of its own.

Such a class shows its name and the quoted values of its attributes,
`Name(a=…, b=…)`. Attributes have identifiers for names, and no
identifier holds a character that means something in a template, so the
source of this template is read as it was put together
(`segments_ofNames`): the class name, then a label and a value for each of
the attributes, in their order.

A label may begin with what the template says before it, a bracket or a
comma. So reading goes on from one attribute to the next with the text that
is left over (`readLiteral_part`), and all of them are one induction
(`readLiteral_parts`).
-/
import LiveDoc.Identifier
import LiveDoc.Proofs.Traversal
import LiveDoc.Template.Reader

namespace LiveDoc

open Traversal

-- ==================================================== identifiers

namespace Identifier

/-- The characters of identifiers are ASCII. -/
theorem lt_of_follows {c : Char} (h : follows c = true) : c.toNat < 0x80 := by
  unfold follows at h
  rw [Bool.or_eq_true] at h
  rcases h with h | h
  · have hranges : ((decide (c.val ≥ 'A'.val ∧ c.val ≤ 'Z'.val)
        || (decide (c.val ≥ 'a'.val) && decide (c.val ≤ 'z'.val)))
        || (decide (c.val ≥ '0'.val) && decide (c.val ≤ '9'.val))) = true := h
    simp only [Bool.or_eq_true, Bool.and_eq_true, decide_eq_true_eq, ge_iff_le,
      UInt32.le_iff_toNat_le] at hranges
    change ((65 ≤ c.toNat ∧ c.toNat ≤ 90) ∨ (97 ≤ c.toNat ∧ c.toNat ≤ 122))
      ∨ (48 ≤ c.toNat ∧ c.toNat ≤ 57) at hranges
    omega
  · rw [eq_of_beq h]
    decide

/-- They may stand in placeholders. -/
theorem isNameChar_of_follows {c : Char} (h : follows c = true) :
    Template.isNameChar c = true := by
  unfold Template.isNameChar
  rw [isAlphanumeric_of_ascii (lt_of_follows h)]
  exact h

theorem ne_of_follows {c : Char} (h : follows c = true) {d : Char} (hd : follows d = false) :
    c ≠ d := by
  intro heq
  rw [heq, hd] at h
  cases h

end Identifier

/-- Every character of an identifier may follow in one, and there is
one. -/
theorem follows_of_isIdentifier {s : String} (h : isIdentifier s = true) :
    s.toList ≠ [] ∧ ∀ c ∈ s.toList, Identifier.follows c = true := by
  unfold isIdentifier at h
  cases hs : s.toList with
  | nil =>
    rw [hs] at h
    cases h
  | cons c cs =>
    rw [hs, Identifier.accepts, Bool.and_eq_true] at h
    refine ⟨List.cons_ne_nil c cs, List.forall_mem_cons.2 ⟨?_, List.all_eq_true.1 h.2⟩⟩
    have hc := h.1
    unfold Identifier.opens at hc
    unfold Identifier.follows Char.isAlphanum
    rw [Bool.or_eq_true] at hc ⊢
    rcases hc with hc | hc
    · exact .inl (by simp [hc])
    · exact .inr hc

/-- They mean nothing in a template. -/
theorem plain_of_isIdentifier {s : String} (h : isIdentifier s = true) :
    ∀ c ∈ s.toList, c ≠ '{' ∧ c ≠ '}' := by
  intro c hc
  have hfollows := (follows_of_isIdentifier h).2 c hc
  exact ⟨Identifier.ne_of_follows hfollows (by decide),
    Identifier.ne_of_follows hfollows (by decide)⟩

namespace Template

-- ==================================================== reading text

/-- Text without braces is read as it stands. -/
theorem readLiteral_append {text : List Char} (htext : ∀ c ∈ text, c ≠ '{' ∧ c ≠ '}')
    (literal cs : List Char) :
    readLiteral literal (text ++ cs) = readLiteral (text.reverse ++ literal) cs := by
  induction text generalizing literal with
  | nil => rfl
  | cons c text ih =>
    obtain ⟨⟨hopen, hclose⟩, htext⟩ := List.forall_mem_cons.1 htext
    have hstep : readLiteral literal (c :: (text ++ cs))
        = readLiteral (c :: literal) (text ++ cs) := by
      rw [readLiteral]
      · exact fun _ heq _ => hopen heq
      · exact fun _ heq _ => hclose heq
      · exact fun heq => hclose heq
      · exact fun heq => hopen heq
    rw [List.cons_append, hstep, ih htext, List.reverse_cons, List.append_assoc]
    rfl

/-- Inside a placeholder text without braces is collected. -/
theorem readField_append {text : List Char} (htext : ∀ c ∈ text, c ≠ '{' ∧ c ≠ '}')
    (literal body cs : List Char) :
    readField literal body (text ++ '}' :: cs)
      = (Field.parse (body.reverse ++ text) >>= fun field =>
          readLiteral [] cs >>= fun rest => .ok (flush literal (.field field :: rest))) := by
  induction text generalizing body with
  | nil =>
    rw [List.nil_append, List.append_nil, readField, if_pos rfl]
    rfl
  | cons c text ih =>
    obtain ⟨⟨hopen, hclose⟩, htext⟩ := List.forall_mem_cons.1 htext
    rw [List.cons_append, readField, if_neg hclose, if_neg hopen, ih htext, List.reverse_cons,
      List.append_assoc]
    rfl

/-- A placeholder that is not empty does not start with a second brace, so
what stands before it is all of the literal. -/
theorem readLiteral_field {text : List Char} (hne : text ≠ [])
    (htext : ∀ c ∈ text, c ≠ '{' ∧ c ≠ '}') (literal cs : List Char) :
    readLiteral literal ('{' :: (text ++ '}' :: cs))
      = (Field.parse text >>= fun field =>
          readLiteral [] cs >>= fun rest => .ok (flush literal (.field field :: rest))) := by
  have hopen : readLiteral literal ('{' :: (text ++ '}' :: cs))
      = readField literal [] (text ++ '}' :: cs) := by
    cases text with
    | nil => exact absurd rfl hne
    | cons c text =>
      have hc := (htext c List.mem_cons_self).1
      rw [List.cons_append, readLiteral]
      intro cs' heq
      exact hc (List.cons.inj heq).1
  rw [hopen, readField_append htext, List.reverse_nil, List.nil_append]

-- ==================================================== the call template

theorem splitAtFirst_of_notMem {c : Char} {cs : List Char} (h : c ∉ cs) :
    splitAtFirst c cs = (cs, none) := by
  induction cs with
  | nil => rfl
  | cons d cs ih =>
    have hd : d ≠ c := fun heq => h (heq ▸ List.mem_cons_self)
    rw [splitAtFirst, if_neg hd, ih (fun hc => h (List.mem_cons_of_mem _ hc))]

theorem splitAtFirst_append {c : Char} {cs : List Char} (h : c ∉ cs) (ds : List Char) :
    splitAtFirst c (cs ++ c :: ds) = (cs, some ds) := by
  induction cs with
  | nil => rw [List.nil_append, splitAtFirst, if_pos rfl]
  | cons d cs ih =>
    have hd : d ≠ c := fun heq => h (heq ▸ List.mem_cons_self)
    rw [List.cons_append, splitAtFirst, if_neg hd, ih (fun hc => h (List.mem_cons_of_mem _ hc))]

/-- The placeholder for the quoted value of an attribute. -/
theorem parse_quoted {name : String} (h : isIdentifier name = true) :
    Field.parse (name.toList ++ ['!', 'r']) = .ok { name, conversion := .repr } := by
  obtain ⟨hne, hfollows⟩ := follows_of_isIdentifier h
  have hcolon : ':' ∉ name.toList ++ ['!', 'r'] := by
    intro hmem
    rcases List.mem_append.1 hmem with hmem | hmem
    · exact Identifier.ne_of_follows (hfollows _ hmem) (by decide) rfl
    · simp at hmem
  have hmark : '!' ∉ name.toList := by
    intro hmem
    exact Identifier.ne_of_follows (hfollows _ hmem) (by decide) rfl
  have hall : name.toList.all isNameChar = true :=
    List.all_eq_true.2 fun c hc => Identifier.isNameChar_of_follows (hfollows c hc)
  have hempty : name.toList.isEmpty = false := by simpa using hne
  unfold Field.parse
  rw [splitAtFirst_of_notMem hcolon]
  dsimp only
  rw [splitAtFirst_append hmark]
  dsimp only
  rw [hall, hempty]
  simp [Conversion.parse]

/-- One attribute of the call template. -/
def part (name : String) : List Char := name.toList ++ '=' :: '{' :: (name.toList ++ ['!', 'r', '}'])

/-- What the call template shows of an attribute. -/
def quoted (name : String) : Field := { name, conversion := .repr }

/-- A label and the value. -/
def labelled (lead name : String) : List Segment :=
  [.literal (lead ++ name ++ "="), .field (quoted name)]

/-- The segments of the call template. -/
def callSegments : List String → List Segment
  | [] => [.field { name := "class_name" }, .literal "()"]
  | name :: names =>
    .field { name := "class_name" } :: (labelled "(" name
      ++ (names.flatMap (labelled ", ") ++ [.literal ")"]))

/-- An attribute is read as its label, together with what was read before,
and its value. -/
theorem readLiteral_part {name : String} (hname : isIdentifier name = true) (lead : String)
    (cs : List Char) :
    readLiteral lead.toList.reverse (part name ++ cs)
      = (readLiteral [] cs >>= fun rest => .ok (labelled lead name ++ rest)) := by
  have hplain := plain_of_isIdentifier hname
  have hbody : ∀ c ∈ name.toList ++ ['!', 'r'], c ≠ '{' ∧ c ≠ '}' := by
    intro c hc
    rcases List.mem_append.1 hc with hc | hc
    · exact hplain c hc
    · rcases List.mem_pair.1 hc with rfl | rfl <;> decide
  have hlabel : ∀ c ∈ name.toList ++ ['='], c ≠ '{' ∧ c ≠ '}' := by
    intro c hc
    rcases List.mem_append.1 hc with hc | hc
    · exact hplain c hc
    · rw [List.mem_singleton] at hc
      rw [hc]
      decide
  have hsplit : part name ++ cs
      = (name.toList ++ ['=']) ++ '{' :: ((name.toList ++ ['!', 'r']) ++ '}' :: cs) := by
    unfold part
    simp
  have hread : (name.toList ++ ['=']).reverse ++ lead.toList.reverse
      = (lead ++ name ++ "=").toList.reverse := by
    simp
  have hflush : ∀ rest, flush (lead ++ name ++ "=").toList.reverse rest
      = .literal (lead ++ name ++ "=") :: rest := by
    intro rest
    unfold flush
    rw [if_neg (by simp), List.reverse_reverse, String.ofList_toList]
  rw [hsplit, readLiteral_append hlabel, hread, readLiteral_field (by simp) hbody,
    parse_quoted hname, ok_bind]
  simp only [hflush]
  rfl

/-- The attributes of the call template, with the bracket that closes it. -/
theorem readLiteral_parts {name : String} (hname : isIdentifier name = true)
    {names : List String} (hnames : ∀ n ∈ names, isIdentifier n = true) (lead : String) :
    readLiteral lead.toList.reverse
        (", ".toList.intercalate ((name :: names).map part) ++ [')'])
      = .ok (labelled lead name ++ (names.flatMap (labelled ", ") ++ [.literal ")"])) := by
  induction names generalizing name lead with
  | nil =>
    rw [List.map_singleton, List.intercalate_singleton, readLiteral_part hname]
    rfl
  | cons name' names ih =>
    obtain ⟨hname', hnames⟩ := List.forall_mem_cons.1 hnames
    have hcomma : ∀ c ∈ ", ".toList, c ≠ '{' ∧ c ≠ '}' := by simp
    have hrest := ih hname' hnames ", "
    rw [List.map_cons] at hrest
    rw [List.map_cons, List.map_cons, List.intercalate_cons_cons, List.append_assoc,
      List.append_assoc, readLiteral_part hname, readLiteral_append hcomma, List.append_nil, hrest,
      List.flatMap_cons, List.append_assoc]
    rfl

theorem toList_callSource (names : List String) :
    (callSource names).toList
      = '{' :: ("class_name".toList
        ++ '}' :: ('(' :: (", ".toList.intercalate (names.map part) ++ [')']))) := by
  have hparts : (names.map fun n => n ++ "=\x7b" ++ n ++ "!r\x7d").map String.toList
      = names.map part := by
    rw [List.map_map]
    refine List.map_congr_left fun n _ => ?_
    simp [part]
  unfold callSource
  rw [String.toList_append, String.toList_append, String.toList_intercalate, hparts]
  simp

/-- The call template is read as it was put together. -/
theorem segments_ofNames {names : List String} (hnames : ∀ n ∈ names, isIdentifier n = true) :
    (ofNames names).segments = callSegments names := by
  have hclass : Field.parse "class_name".toList = .ok { name := "class_name" } := by decide
  have hplain : ∀ c ∈ "class_name".toList, c ≠ '{' ∧ c ≠ '}' :=
    plain_of_isIdentifier (by decide)
  have hread : readLiteral [] (callSource names).toList = .ok (callSegments names) := by
    rw [toList_callSource, readLiteral_field (by decide) hplain, hclass, ok_bind]
    cases names with
    | nil => rfl
    | cons name names =>
      obtain ⟨hname, hnames⟩ := List.forall_mem_cons.1 hnames
      have hbracket : ∀ c ∈ ['('], c ≠ '{' ∧ c ≠ '}' := by simp
      have hparts := (readLiteral_append hbracket [] _).trans (readLiteral_parts hname hnames "(")
      rw [List.singleton_append] at hparts
      rw [hparts]
      rfl
  unfold ofNames parse
  rw [hread]
  rfl

theorem namesIn_labelled (lead : String) (names : List String) (rest : List Segment) :
    namesIn (names.flatMap (labelled lead) ++ rest) = names ++ namesIn rest := by
  induction names with
  | nil => rfl
  | cons name names ih =>
    rw [List.flatMap_cons, List.append_assoc]
    exact congrArg (name :: ·) ih

/-- The template of a class without one of its own names the class name
and the attributes. -/
theorem fieldNames_ofNames {names : List String} (hnames : ∀ n ∈ names, isIdentifier n = true) :
    (ofNames names).fieldNames = "class_name" :: names := by
  unfold fieldNames
  rw [segments_ofNames hnames]
  cases names with
  | nil => rfl
  | cons name names =>
    show "class_name" :: name :: namesIn (names.flatMap (labelled ", ") ++ [.literal ")"]) = _
    rw [namesIn_labelled]
    simp [namesIn]

end Template

end LiveDoc
