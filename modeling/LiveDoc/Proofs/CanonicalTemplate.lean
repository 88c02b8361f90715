/-
The canonical source of a template.

Many sources are read as the same segments: a conversion may be left out,
a layout may stay empty, zeros may lead a width. One of them is
canonical (`canonicalText`): it doubles every brace of a literal and
writes every placeholder out. What makes a list of segments one that a
source can be read as is said by `Normal`, without reading anything.

# Reading gives normal segments

The reader flushes a literal only before a placeholder or at the end, and
only if there is something to flush; so literals are never empty and never
meet. A placeholder's text holds no brace, since an opening one is refused
and a closing one ends it, which is why no fill is a brace. The two
readers are followed together (`normal_of_readLiteral`).

# Reading the canonical source gives the segments back

Layouts come apart from the left, part by part, and each part must stop
where the next begins: no digit opens what follows a number, and nothing
that follows the alignment can be taken for one. Then placeholders: no
colon and no exclamation mark stands in a name, so the first of each is
the one that was written. Then segments: a doubled brace is taken before
anything else is considered, so what follows a literal never changes what
the literal is read as (`readLiteral_escape`).
-/
import LiveDoc.Proofs.CallTemplate
import Mathlib.Data.List.Chain

namespace LiveDoc.Template

open Traversal

-- ==================================================== normal segments

/-- A layout that can be written down: the fill is no brace, and is blank
unless the text is aligned; sizes fit in 64 bits. -/
structure Layout.Normal (l : Layout) : Prop where
  fill : l.fill ≠ '{' ∧ l.fill ≠ '}'
  fillBlank : l.align = none → l.fill = ' '
  width : l.width < Nat.pow 2 64
  precision : ∀ n, l.precision = some n → n < Nat.pow 2 64

/-- A placeholder that can be written down. -/
structure Field.Normal (f : Field) : Prop where
  named : f.name ≠ ""
  letters : ∀ c ∈ f.name.toList, isAlphanumeric c = true ∨ c = '_'
  layout : f.layout.Normal

/-- A segment that can be written down. -/
def Segment.Normal : Segment → Prop
  | .literal text => text ≠ ""
  | .field f => f.Normal

def Segment.isLiteral : Segment → Bool
  | .literal _ => true
  | .field _ => false

/-- Segments that can be written down and of which no two that meet are
literals. -/
structure Normal (segments : List Segment) : Prop where
  parts : ∀ s ∈ segments, s.Normal
  apart : segments.IsChain fun s t => ¬ (s.isLiteral = true ∧ t.isLiteral = true)

/-- A literal may be put before the segments. -/
def AdmitLiteral : List Segment → Prop
  | .literal _ :: _ => False
  | _ => True

theorem Normal.nil : Normal [] where
  parts s hs := by cases hs
  apart := .nil

/-- A literal has to be followed by a placeholder or by nothing. -/
theorem normal_literal_cons {text : String} {rest : List Segment} :
    Normal (.literal text :: rest) ↔ text ≠ "" ∧ AdmitLiteral rest ∧ Normal rest := by
  constructor
  · intro h
    obtain ⟨htext, hparts⟩ := List.forall_mem_cons.1 h.parts
    refine ⟨htext, ?_, hparts, h.apart.tail⟩
    cases rest with
    | nil => trivial
    | cons s rest =>
      cases s with
      | field f => trivial
      | literal next => exact (List.isChain_cons_cons.1 h.apart).1 ⟨rfl, rfl⟩
  · intro h
    obtain ⟨htext, hfree, hrest⟩ := h
    refine ⟨List.forall_mem_cons.2 ⟨htext, hrest.parts⟩, ?_⟩
    cases rest with
    | nil => exact .singleton _
    | cons s rest =>
      cases s with
      | literal next => exact absurd hfree id
      | field f => exact List.isChain_cons_cons.2 ⟨fun hboth => (by cases hboth.2), hrest.apart⟩

/-- A placeholder may be followed by anything. -/
theorem normal_field_cons {f : Field} {rest : List Segment} :
    Normal (.field f :: rest) ↔ f.Normal ∧ Normal rest := by
  constructor
  · intro h
    obtain ⟨hf, hparts⟩ := List.forall_mem_cons.1 h.parts
    exact ⟨hf, hparts, h.apart.tail⟩
  · intro h
    obtain ⟨hf, hrest⟩ := h
    refine ⟨List.forall_mem_cons.2 ⟨hf, hrest.parts⟩, ?_⟩
    cases rest with
    | nil => exact .singleton _
    | cons s rest => exact List.isChain_cons_cons.2 ⟨fun hboth => (by cases hboth.1), hrest.apart⟩

/-- Flushing keeps segments normal that admit a literal. -/
theorem normal_flush {rest : List Segment} (hfree : AdmitLiteral rest) (hrest : Normal rest)
    (literal : List Char) : Normal (flush literal rest) := by
  unfold flush
  split
  case isTrue => exact hrest
  case isFalse hliteral =>
    refine normal_literal_cons.2 ⟨?_, hfree, hrest⟩
    intro hempty
    have hchars : literal.reverse = [] := String.ofList_eq_empty_iff.1 hempty
    exact hliteral (by simpa using hchars)

-- ==================================================== what layouts are read as

/-- The fill comes from the text or is blank; without alignment it is
blank. -/
theorem Layout.takeAlign_fill (cs : List Char) :
    ((takeAlign cs).1 ∈ cs ∨ (takeAlign cs).1 = ' ')
      ∧ ((takeAlign cs).2.1 = none → (takeAlign cs).1 = ' ') := by
  unfold takeAlign
  split
  · split
    · exact ⟨.inl List.mem_cons_self, fun h => (by cases h)⟩
    · split <;> exact ⟨.inr rfl, fun _ => rfl⟩
  · split <;> exact ⟨.inr rfl, fun _ => rfl⟩
  · exact ⟨.inr rfl, fun _ => rfl⟩

/-- A width that is read fits, -/
theorem Layout.takeWidth_ok {text : String} {cs rest : List Char} {width : Nat}
    (h : takeWidth text cs = .ok (width, rest)) : width < Nat.pow 2 64 := by
  unfold takeWidth at h
  dsimp only at h
  split at h
  case isTrue hwidth =>
    cases h
    exact hwidth
  case isFalse => cases h

/-- and so does a precision. -/
theorem Layout.takePrecision_ok {text : String} {cs rest : List Char} {precision : Option Nat}
    (h : takePrecision text cs = .ok (precision, rest)) :
    ∀ n, precision = some n → n < Nat.pow 2 64 := by
  intro n hn
  unfold takePrecision at h
  split at h
  case h_1 =>
    obtain ⟨-, h⟩ := ite_error_eq_ok.1 h
    split at h
    case isTrue hprecision =>
      cases h
      cases hn
      exact hprecision
    case isFalse => cases h
  case h_2 =>
    cases h
    cases hn

/-- The layout of a text without braces is normal. -/
theorem Layout.normal_of_parse {cs : List Char} (hcs : ∀ c ∈ cs, c ≠ '{' ∧ c ≠ '}') {l : Layout}
    (h : parse cs = .ok l) : l.Normal := by
  obtain ⟨hfill, hblank⟩ := takeAlign_fill cs
  obtain ⟨⟨width, afterWidth⟩, hwidth, h⟩ := bind_eq_ok.1 h
  obtain ⟨⟨precision, afterPrecision⟩, hprecision, h⟩ := bind_eq_ok.1 h
  obtain ⟨style, -, h⟩ := bind_eq_ok.1 h
  cases h
  refine ⟨?_, hblank, takeWidth_ok hwidth, takePrecision_ok hprecision⟩
  rcases hfill with hmem | hspace
  · exact hcs _ hmem
  · show (takeAlign cs).1 ≠ '{' ∧ (takeAlign cs).1 ≠ '}'
    rw [hspace]
    decide

-- ==================================================== what placeholders are read as

/-- Splitting makes up no character. -/
theorem splitAtFirst_subset (c : Char) (cs : List Char) :
    (∀ d ∈ (splitAtFirst c cs).1, d ∈ cs)
      ∧ ∀ rest, (splitAtFirst c cs).2 = some rest → ∀ d ∈ rest, d ∈ cs := by
  induction cs with
  | nil => exact ⟨fun d hd => hd, fun rest h => (by cases h)⟩
  | cons e cs ih =>
    rw [splitAtFirst]
    split
    case isTrue =>
      refine ⟨fun d hd => (by cases hd), ?_⟩
      intro rest h d hd
      cases h
      exact List.mem_cons_of_mem _ hd
    case isFalse =>
      obtain ⟨hfirst, hsecond⟩ := ih
      constructor
      · intro d hd
        rcases List.mem_cons.1 hd with rfl | hd
        · exact List.mem_cons_self
        · exact List.mem_cons_of_mem _ (hfirst d hd)
      · intro rest h d hd
        exact List.mem_cons_of_mem _ (hsecond rest h d hd)

theorem isNameChar_iff {c : Char} : isNameChar c = true ↔ isAlphanumeric c = true ∨ c = '_' := by
  unfold isNameChar
  rw [Bool.or_eq_true, beq_iff_eq]

/-- The layout of a placeholder without one is normal. -/
theorem Layout.normal_default : Layout.Normal {} where
  fill := by decide
  fillBlank _ := rfl
  width := by decide
  precision n hn := by cases hn

/-- The placeholder of a text without braces is normal. -/
theorem Field.normal_of_parse {body : List Char} (hbody : ∀ c ∈ body, c ≠ '{' ∧ c ≠ '}')
    {f : Field} (h : parse body = .ok f) : f.Normal := by
  obtain ⟨-, hlayout⟩ := splitAtFirst_subset ':' body
  obtain ⟨conversion, -, h⟩ := bind_eq_ok.1 h
  obtain ⟨hnamed, h⟩ := ite_error_eq_ok.1 h
  obtain ⟨hletters, h⟩ := ite_error_eq_ok.1 h
  have hlayoutNormal : ∀ layout : Layout, layout.Normal →
      Except.ok (ε := TemplateError)
          { name := String.ofList (splitAtFirst '!' (splitAtFirst ':' body).1).1,
            conversion, layout }
        = .ok f → f.Normal := by
    intro layout hnormal heq
    cases heq
    rw [Bool.not_eq_true', Bool.not_eq_false, List.all_eq_true] at hletters
    refine ⟨?_, ?_, hnormal⟩
    · intro hempty
      exact hnamed (List.isEmpty_iff.2 (String.ofList_eq_empty_iff.1 hempty))
    · intro c hc
      rw [String.toList_ofList] at hc
      exact isNameChar_iff.1 (hletters c hc)
  dsimp only at h
  split at h
  case h_1 text htext =>
    obtain ⟨layout, hparse, h⟩ := bind_eq_ok.1 h
    have hplain : ∀ c ∈ text, c ≠ '{' ∧ c ≠ '}' := fun c hc => hbody c (hlayout text htext c hc)
    exact hlayoutNormal layout (Layout.normal_of_parse hplain hparse) h
  case h_2 => exact hlayoutNormal {} Layout.normal_default h

-- ==================================================== what sources are read as

/-- Whatever is read is normal, outside placeholders and inside them. -/
theorem normal_of_readLiteral (literal cs : List Char) {segments : List Segment}
    (h : readLiteral literal cs = .ok segments) : Normal segments := by
  -- inside a placeholder the text read so far is the one to keep free of braces
  refine (readLiteral.mutual_induct
    (fun literal cs => ∀ segments, readLiteral literal cs = .ok segments → Normal segments)
    (fun literal body cs => (∀ c ∈ body, c ≠ '{' ∧ c ≠ '}') →
      ∀ segments, readField literal body cs = .ok segments → Normal segments)
    ?_ ?_ ?_ ?_ ?_ ?_ ?_ ?_ ?_ ?_).1 literal cs segments h
  -- outside: the end, two doubled braces, a lone brace, a placeholder, any other character
  · intro literal segments h
    cases h
    have hfree : AdmitLiteral [] := trivial
    exact normal_flush hfree .nil literal
  · intro literal cs ih segments h
    exact ih segments h
  · intro literal cs ih segments h
    exact ih segments h
  · intro literal cs hlone segments h
    rw [readLiteral] at h
    · cases h
    · exact hlone
  · intro literal cs hsingle ih segments h
    rw [readLiteral] at h
    · exact ih (fun c hc => (by cases hc)) segments h
    · exact hsingle
  · intro literal c cs hopens hcloses hclose hopen ih segments h
    rw [readLiteral] at h
    · exact ih segments h
    all_goals assumption
  -- inside: the end, the closing brace, an opening brace, any other character
  · intro literal body hbody segments h
    cases h
  · intro literal body cs ih hbody segments h
    rw [readField, if_pos rfl] at h
    obtain ⟨f, hf, h⟩ := bind_eq_ok.1 h
    obtain ⟨rest, hrest, h⟩ := bind_eq_ok.1 h
    cases h
    have hnormal : f.Normal :=
      Field.normal_of_parse (fun c hc => hbody c (List.mem_reverse.1 hc)) hf
    have hfree : AdmitLiteral (.field f :: rest) := trivial
    exact normal_flush hfree (normal_field_cons.2 ⟨hnormal, ih rest hrest⟩) literal
  · intro literal body cs hne hbody segments h
    rw [readField, if_neg hne, if_pos rfl] at h
    cases h
  · intro literal body c cs hclose hopen ih hbody segments h
    rw [readField, if_neg hclose, if_neg hopen] at h
    exact ih (List.forall_mem_cons.2 ⟨⟨hopen, hclose⟩, hbody⟩) segments h

-- ==================================================== the canonical source

/-- The letter of a conversion. -/
def Conversion.char : Conversion → Char
  | .repr => 'r'
  | .str => 's'

/-- A width, which is left out when there is none. -/
def Layout.canonicalWidth (n : Nat) : List Char := if n = 0 then [] else Numeral.digits n

def Layout.canonicalPrecision : Option Nat → List Char
  | none => []
  | some n => '.' :: Numeral.digits n

def Layout.canonicalStyle : Option Style → List Char
  | none => []
  | some style => [style.char]

/-- What stands in a layout after the alignment. -/
def Layout.canonicalSizes (l : Layout) : List Char :=
  canonicalWidth l.width ++ (canonicalPrecision l.precision ++ canonicalStyle l.style)

def Layout.canonical (l : Layout) : List Char :=
  match l.align with
  | none => l.canonicalSizes
  | some align => l.fill :: align.char :: l.canonicalSizes

/-- What stands between the braces of a placeholder. -/
def Field.canonical (f : Field) : List Char :=
  f.name.toList ++ '!' :: f.conversion.char :: ':' :: f.layout.canonical

/-- A text with every brace doubled. -/
def escape : List Char → List Char
  | [] => []
  | c :: cs => if c = '{' ∨ c = '}' then c :: c :: escape cs else c :: escape cs

def Segment.canonical : Segment → List Char
  | .literal text => escape text.toList
  | .field f => '{' :: (f.canonical ++ ['}'])

/-- The canonical source of segments. -/
def canonicalText (segments : List Segment) : String :=
  String.ofList (segments.flatMap Segment.canonical)

-- ==================================================== reading canonical layouts

/-- The text opens with no digit, so a number before it ends there. -/
def NoDigit : List Char → Prop
  | [] => True
  | c :: _ => c.isDigit = false

/-- A run of digits is cut off where no digit follows. -/
theorem cut_digits {ds : List Char} (hds : ds.all Char.isDigit = true) {rest : List Char}
    (hrest : NoDigit rest) :
    (ds ++ rest).takeWhile Char.isDigit = ds ∧ (ds ++ rest).dropWhile Char.isDigit = rest := by
  have hall : ∀ d ∈ ds, d.isDigit = true := List.all_eq_true.1 hds
  have hend : rest.takeWhile Char.isDigit = [] ∧ rest.dropWhile Char.isDigit = rest := by
    cases rest with
    | nil => exact ⟨rfl, rfl⟩
    | cons c rest =>
      have hc : ¬ c.isDigit = true := Bool.eq_false_iff.1 hrest
      exact ⟨List.takeWhile_cons_of_neg hc, List.dropWhile_cons_of_neg hc⟩
  rw [List.takeWhile_append_of_pos hall, List.dropWhile_append_of_pos hall, hend.1, hend.2,
    List.append_nil]
  exact ⟨rfl, rfl⟩

/-- A width ends where the style begins. -/
theorem noDigit_canonicalStyle (style : Option Style) : NoDigit (Layout.canonicalStyle style) := by
  rcases style with _ | ⟨_ | _ | _⟩
  · trivial
  all_goals rfl

/-- What follows a width opens with a point, a letter or not at all. -/
theorem noDigit_after_width (precision : Option Nat) (style : Option Style) :
    NoDigit (Layout.canonicalPrecision precision ++ Layout.canonicalStyle style) := by
  cases precision with
  | none => exact noDigit_canonicalStyle style
  | some n => rfl

/-- A width is read back from its digits, and zero from none. -/
theorem Layout.takeWidth_canonical (text : String) {n : Nat} (hn : n < Nat.pow 2 64)
    {rest : List Char} (hrest : NoDigit rest) :
    takeWidth text (canonicalWidth n ++ rest) = .ok (n, rest) := by
  have hdigits : (canonicalWidth n).all Char.isDigit = true
      ∧ Numeral.value (canonicalWidth n) = n := by
    unfold canonicalWidth
    split
    case isTrue hzero => exact ⟨rfl, hzero.symm⟩
    case isFalse => exact ⟨Numeral.all_isDigit_digits n, Numeral.value_digits n⟩
  obtain ⟨hall, hvalue⟩ := hdigits
  obtain ⟨htake, hdrop⟩ := cut_digits hall hrest
  have hlimit : n < sizeLimit := hn
  unfold takeWidth
  rw [htake, hdrop, hvalue]
  exact if_pos hlimit

/-- A precision is read back from behind its point. -/
theorem Layout.takePrecision_canonical (text : String) {precision : Option Nat}
    (hprecision : ∀ n, precision = some n → n < Nat.pow 2 64) (style : Option Style) :
    takePrecision text (canonicalPrecision precision ++ canonicalStyle style)
      = .ok (precision, canonicalStyle style) := by
  cases precision with
  | none =>
    rcases style with _ | ⟨_ | _ | _⟩ <;> rfl
  | some n =>
    obtain ⟨htake, hdrop⟩ :=
      cut_digits (Numeral.all_isDigit_digits n) (noDigit_canonicalStyle style)
    have hsome : ¬ (Numeral.digits n).isEmpty = true := by simpa using Numeral.digits_ne_nil n
    have hlimit : n < sizeLimit := hprecision n rfl
    rw [canonicalPrecision, List.cons_append, takePrecision, htake, hdrop, Numeral.value_digits,
      if_neg hsome, if_pos hlimit]

theorem Layout.takeStyle_canonical (text : String) (style : Option Style) :
    takeStyle text (canonicalStyle style) = .ok style := by
  cases style with
  | none => rfl
  | some style =>
    rw [canonicalStyle, takeStyle, Style.ofChar?_char]
    rfl

/-- Where nothing aligns, nothing is taken. -/
theorem Layout.takeAlign_of_none {cs : List Char} (h : ∀ c ∈ cs, Align.ofChar? c = none) :
    takeAlign cs = (' ', none, cs) := by
  rcases cs with _ | ⟨c, _ | ⟨d, cs⟩⟩
  · rfl
  · rw [takeAlign, h c (by simp)]
  · rw [takeAlign, h d (by simp), h c (by simp)]

/-- What may stand in a layout after the alignment. -/
theorem Layout.mem_canonicalSizes {l : Layout} {c : Char} (hc : c ∈ l.canonicalSizes) :
    c.isDigit = true ∨ c = '.' ∨ ∃ style : Style, c = style.char := by
  have hdigits : ∀ n, ∀ d ∈ Numeral.digits n, d.isDigit = true := fun n =>
    List.all_eq_true.1 (Numeral.all_isDigit_digits n)
  rcases List.mem_append.1 hc with hc | hc
  · unfold canonicalWidth at hc
    split at hc
    case isTrue => cases hc
    case isFalse => exact .inl (hdigits _ c hc)
  rcases List.mem_append.1 hc with hc | hc
  · cases hprecision : l.precision with
    | none =>
      rw [hprecision] at hc
      cases hc
    | some n =>
      rw [hprecision] at hc
      rcases List.mem_cons.1 hc with hpoint | hc
      · exact .inr (.inl hpoint)
      · exact .inl (hdigits n c hc)
  · cases hstyle : l.style with
    | none =>
      rw [hstyle] at hc
      cases hc
    | some style =>
      rw [hstyle] at hc
      exact .inr (.inr ⟨style, List.mem_singleton.1 hc⟩)

/-- No sign of alignment could be taken for a digit of the width. -/
theorem not_isDigit_of_align {c : Char} (h : Align.ofChar? c ≠ none) : c.isDigit = false := by
  unfold Align.ofChar? at h
  split at h
  · rfl
  · rfl
  · rfl
  · exact absurd rfl h

/-- None of it aligns, and none of it is a brace. -/
theorem Layout.canonicalSizes_plain {l : Layout} {c : Char} (hc : c ∈ l.canonicalSizes) :
    Align.ofChar? c = none ∧ c ≠ '{' ∧ c ≠ '}' := by
  rcases mem_canonicalSizes hc with hdigit | rfl | ⟨style, rfl⟩
  · have hne : ∀ d : Char, d.isDigit = false → c ≠ d := by
      intro d hd heq
      rw [heq, hd] at hdigit
      cases hdigit
    refine ⟨?_, hne _ (by decide), hne _ (by decide)⟩
    by_contra halign
    rw [not_isDigit_of_align halign] at hdigit
    cases hdigit
  · decide
  · cases style <;> decide

/-- A canonical layout is read back. -/
theorem Layout.parse_canonical {l : Layout} (hl : l.Normal) : parse l.canonical = .ok l := by
  have hsizes : ∀ text : String, ∀ fill align,
      (takeWidth text l.canonicalSizes >>= fun width =>
        takePrecision text width.2 >>= fun precision =>
        takeStyle text precision.2 >>= fun style =>
        .ok (⟨fill, align, width.1, precision.1, style⟩ : Layout))
        = .ok ⟨fill, align, l.width, l.precision, l.style⟩ := by
    intro text fill align
    unfold canonicalSizes
    rw [takeWidth_canonical text hl.width (noDigit_after_width _ _), ok_bind,
      takePrecision_canonical text hl.precision, ok_bind, takeStyle_canonical, ok_bind]
  have halign : takeAlign l.canonical = (l.fill, l.align, l.canonicalSizes) := by
    unfold canonical
    cases h : l.align with
    | none =>
      rw [hl.fillBlank h]
      exact takeAlign_of_none fun c hc => (canonicalSizes_plain hc).1
    | some align =>
      dsimp only
      rw [takeAlign, Align.ofChar?_char]
  unfold parse
  rw [halign]
  exact hsizes _ l.fill l.align

-- ==================================================== reading canonical placeholders

/-- No character of a name means anything in a placeholder. -/
theorem ne_of_isNameChar {c d : Char} (hc : isNameChar c = true) (hd : isNameChar d = false) :
    c ≠ d := by
  intro heq
  rw [heq, hd] at hc
  cases hc

/-- A layout has no braces, so a placeholder ends at the first one. -/
theorem Layout.canonical_plain {l : Layout} (hl : l.Normal) :
    ∀ c ∈ l.canonical, c ≠ '{' ∧ c ≠ '}' := by
  intro c hc
  unfold canonical at hc
  split at hc
  case h_1 => exact (canonicalSizes_plain hc).2
  case h_2 align halign =>
    rcases List.mem_cons.1 hc with rfl | hc
    · exact hl.fill
    rcases List.mem_cons.1 hc with rfl | hc
    · cases align <;> decide
    · exact (canonicalSizes_plain hc).2

theorem Field.isNameChar_name {f : Field} (hf : f.Normal) :
    ∀ c ∈ f.name.toList, isNameChar c = true :=
  fun c hc => isNameChar_iff.2 (hf.letters c hc)

/-- Neither has a placeholder, its own braces apart. -/
theorem Field.canonical_plain {f : Field} (hf : f.Normal) :
    ∀ c ∈ f.canonical, c ≠ '{' ∧ c ≠ '}' := by
  intro c hc
  rcases List.mem_append.1 hc with hc | hc
  · have hname := isNameChar_name hf c hc
    exact ⟨ne_of_isNameChar hname (by decide), ne_of_isNameChar hname (by decide)⟩
  rcases List.mem_cons.1 hc with rfl | hc
  · decide
  rcases List.mem_cons.1 hc with rfl | hc
  · cases f.conversion <;> decide
  rcases List.mem_cons.1 hc with rfl | hc
  · decide
  · exact Layout.canonical_plain hf.layout c hc

/-- A canonical placeholder is read back. -/
theorem Field.parse_canonical {f : Field} (hf : f.Normal) : parse f.canonical = .ok f := by
  have hname := isNameChar_name hf
  have hmark : '!' ∉ f.name.toList := fun hmem =>
    ne_of_isNameChar (hname _ hmem) (by decide) rfl
  have hcolon : ':' ∉ f.name.toList ++ ['!', f.conversion.char] := by
    intro hmem
    rcases List.mem_append.1 hmem with hmem | hmem
    · exact ne_of_isNameChar (hname _ hmem) (by decide) rfl
    · revert hmem
      cases f.conversion <;> decide
  have hsplit : f.canonical
      = f.name.toList ++ ['!', f.conversion.char] ++ ':' :: f.layout.canonical := by
    unfold canonical
    simp
  have hconversion : Conversion.parse (some [f.conversion.char]) = .ok f.conversion := by
    cases f.conversion <;> rfl
  have hsome : f.name.toList.isEmpty = false := by
    simpa using hf.named
  have hall : f.name.toList.all isNameChar = true := List.all_eq_true.2 hname
  unfold parse
  rw [hsplit, splitAtFirst_append hcolon]
  dsimp only
  rw [splitAtFirst_append hmark]
  dsimp only
  rw [hconversion, hsome, hall, Layout.parse_canonical hf.layout, String.ofList_toList]
  rfl

-- ==================================================== reading canonical sources

/-- An escaped text is read as the text, whatever follows it. -/
theorem readLiteral_escape (text literal cs : List Char) :
    readLiteral literal (escape text ++ cs) = readLiteral (text.reverse ++ literal) cs := by
  induction text generalizing literal with
  | nil => rfl
  | cons c text ih =>
    have hstep : readLiteral literal (escape (c :: text) ++ cs)
        = readLiteral (c :: literal) (escape text ++ cs) := by
      rw [escape]
      split
      case isTrue hbrace =>
        rcases hbrace with rfl | rfl
        · rw [List.cons_append, List.cons_append, readLiteral]
        · rw [List.cons_append, List.cons_append, readLiteral]
      case isFalse hplain =>
        have hc : ∀ d ∈ [c], d ≠ '{' ∧ d ≠ '}' := by
          intro d hd
          rw [List.mem_singleton.1 hd]
          exact not_or.1 hplain
        exact readLiteral_append hc literal (escape text ++ cs)
    rw [hstep, ih, List.reverse_cons, List.append_assoc]
    rfl

/-- Canonical segments are read back, after a literal if they admit one. -/
theorem readLiteral_canonical {segments : List Segment} (h : Normal segments) {literal : List Char}
    (hliteral : literal = [] ∨ AdmitLiteral segments) :
    readLiteral literal (segments.flatMap Segment.canonical) = .ok (flush literal segments) := by
  induction segments generalizing literal with
  | nil => rfl
  | cons segment rest ih =>
    rw [List.flatMap_cons]
    cases segment with
    | literal text =>
      obtain ⟨htext, hfree, hrest⟩ := normal_literal_cons.1 h
      have hnone : literal = [] := hliteral.resolve_right id
      have hne : ¬ text.toList.reverse.isEmpty = true := by simpa using htext
      rw [hnone, Segment.canonical, readLiteral_escape, List.append_nil, ih hrest (.inr hfree)]
      unfold flush
      rw [if_neg hne, if_pos List.isEmpty_nil, List.reverse_reverse, String.ofList_toList]
    | field f =>
      obtain ⟨hf, hrest⟩ := normal_field_cons.1 h
      have hne : f.canonical ≠ [] := by simp [Field.canonical]
      have hshape : Segment.canonical (.field f) ++ rest.flatMap Segment.canonical
          = '{' :: (f.canonical ++ '}' :: rest.flatMap Segment.canonical) := by
        simp [Segment.canonical]
      rw [hshape, readLiteral_field hne (Field.canonical_plain hf), Field.parse_canonical hf,
        ok_bind, ih hrest (.inl rfl), ok_bind]
      rfl

-- ==================================================== the round trip

/-- Every source that is read is read as normal segments, and every normal
segments are what their canonical source is read as. -/
theorem normal_segments_round_trip :
    (∀ source t, parse source = .ok t → Normal t.segments)
      ∧ ∀ segments, Normal segments →
          parse (canonicalText segments) = .ok { source := canonicalText segments, segments } := by
  constructor
  · intro source t h
    obtain ⟨segments, hread, h⟩ := bind_eq_ok.1 h
    cases h
    exact normal_of_readLiteral [] source.toList hread
  · intro segments h
    have hread := readLiteral_canonical h (.inl rfl)
    unfold parse canonicalText
    rw [String.toList_ofList, hread]
    rfl

/-- Placeholders between braces: a fill that means something elsewhere, and
the greatest width beside a letter. -/
def braced : List Segment := [
  .literal "\x7b",
  .field ⟨"größe", .repr, ⟨':', some .center, 12, some 3, some .text⟩⟩,
  .field ⟨"_2", .str, ⟨' ', none, 18446744073709551615, none, some .whole⟩⟩,
  .literal "\x7d!:"]

theorem normal_braced : Normal braced := by
  have hall : ∀ name ∈ ["größe", "_2"], name.toList.all isNameChar = true := by decide +kernel
  have hletters : ∀ name ∈ ["größe", "_2"], ∀ c ∈ name.toList, isAlphanumeric c = true ∨ c = '_' :=
    fun name hname c hc => isNameChar_iff.1 (List.all_eq_true.1 (hall name hname) c hc)
  have hsize : Field.Normal ⟨"größe", .repr, ⟨':', some .center, 12, some 3, some .text⟩⟩ := by
    refine ⟨by decide, hletters _ (by simp), by decide, fun h => (by cases h), by decide, ?_⟩
    intro n hn
    cases hn
    decide
  have htwo : Field.Normal
      ⟨"_2", .str, ⟨' ', none, 18446744073709551615, none, some .whole⟩⟩ :=
    ⟨by decide, hletters _ (by simp), by decide, fun _ => rfl, by decide, fun n hn => (by cases hn)⟩
  have hend : Normal [.literal "\x7d!:"] := normal_literal_cons.2 ⟨by decide, trivial, .nil⟩
  exact normal_literal_cons.2 ⟨by decide, trivial,
    normal_field_cons.2 ⟨hsize, normal_field_cons.2 ⟨htwo, hend⟩⟩⟩

/-- Leading zeros and a conversion left out are read as normal segments, and
the segments above are read back from their canonical source. -/
theorem braced_round_trip :
    (parse "\x7b\x7b\x7bn:0>012.3f\x7d" = .ok ⟨"\x7b\x7b\x7bn:0>012.3f\x7d",
        [.literal "\x7b", .field ⟨"n", .str, ⟨'0', some .right, 12, some 3, some .fixed⟩⟩]⟩
      ∧ Normal [.literal "\x7b", .field ⟨"n", .str, ⟨'0', some .right, 12, some 3, some .fixed⟩⟩])
    ∧ Normal braced
    ∧ canonicalText braced
        = "\x7b\x7b\x7bgröße!r::^12.3s\x7d\x7b_2!s:18446744073709551615d\x7d\x7d\x7d!:"
    ∧ parse (canonicalText braced) = .ok ⟨canonicalText braced, braced⟩ := by
  have hread : parse "\x7b\x7b\x7bn:0>012.3f\x7d" = .ok ⟨"\x7b\x7b\x7bn:0>012.3f\x7d",
      [.literal "\x7b", .field ⟨"n", .str, ⟨'0', some .right, 12, some 3, some .fixed⟩⟩]⟩ := by
    rfl
  refine ⟨⟨hread, normal_segments_round_trip.1 _ _ hread⟩, normal_braced, ?_,
    normal_segments_round_trip.2 braced normal_braced⟩
  decide +kernel

end LiveDoc.Template
