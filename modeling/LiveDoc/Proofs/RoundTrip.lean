/-
The exact text of data reads back.

Data is what documents hold: null, truth values, 64-bit integers, texts,
lists and dicts, nested no deeper than a document may be (`Heap.Data`). Its
exact text is a document, and the value of that document is the same data
(`Value.reads_back`).

Between the value and the text stands a document (`Heap.ShownAs`), found by
induction on the value: the value is that of the document, and the text of
the value is the document's, so all that is left is said of documents
alone. Reading goes in two steps, and each is followed along the document.
The text is cut into the tokens of the document (`scan_text`), whatever
comes behind, as long as no number and no word goes on there. The tokens
take the reader to the document (`run_tokens`), wherever it stands in the
containers that are open, as long as there are not too many of them.
-/
import LiveDoc.Live.ToJson
import LiveDoc.Proofs.Literals
import LiveDoc.Proofs.Places
import LiveDoc.Proofs.Walks

namespace LiveDoc

-- ==================================================== documents

namespace Json

mutual

/-- All numbers of the document are 64-bit integers. -/
def Integral : Json → Prop
  | .number n => ∃ i, n = .int i
  | .array items => IntegralAll items
  | .object fields => IntegralFields fields
  | _ => True

/-- So they are in a list of documents. -/
def IntegralAll : List Json → Prop
  | [] => True
  | j :: js => Integral j ∧ IntegralAll js

/-- So they are in a field list. -/
def IntegralFields : List (String × Json) → Prop
  | [] => True
  | (_, j) :: fs => Integral j ∧ IntegralFields fs

end

mutual

/-- The tokens of a document. -/
def tokens : Json → List Token
  | .null => [.null]
  | .bool b => [.bool b]
  | .number n => [.number n]
  | .str s => [.str s]
  | .array [] => [.openArray, .closeArray]
  | .array (j :: js) => .openArray :: (tokens j ++ (itemTokens js ++ [.closeArray]))
  | .object [] => [.openObject, .closeObject]
  | .object ((k, j) :: fs) =>
    .openObject :: .str k :: .colon :: (tokens j ++ (fieldTokens fs ++ [.closeObject]))

/-- The tokens of further items, each after a comma. -/
def itemTokens : List Json → List Token
  | [] => []
  | j :: js => .comma :: (tokens j ++ itemTokens js)

/-- The tokens of further fields, each after a comma. -/
def fieldTokens : List (String × Json) → List Token
  | [] => []
  | (k, j) :: fs => .comma :: .str k :: .colon :: (tokens j ++ fieldTokens fs)

end

-- ==================================================== from the text to the tokens

section

open Constant (ofJson ofJsonAll ofJsonFields text textTail textFields)
open Token (Stops scan scan_word scan_punctuation scan_blank scan_quoted scan_signed stops_cons)

/-- What comes behind the first item of an array stops it. -/
theorem stops_textTail (cs : List Constant) (rest : List Char) :
    Stops ((textTail cs).toList ++ ']' :: rest) := by
  cases cs with
  | nil => simpa [textTail] using stops_cons (by decide) rest
  | cons c cs => simpa [textTail] using stops_cons (by decide) _

/-- What comes behind the first field of an object stops it. -/
theorem stops_textFields (es : Entries Constant) (rest : List Char) :
    Stops ((textFields es).toList ++ '}' :: rest) := by
  cases es with
  | nil => simpa [textFields] using stops_cons (by decide) rest
  | cons e es =>
    obtain ⟨k, c⟩ := e
    simpa [textFields] using stops_cons (by decide) _

/-- A name and its colon. -/
theorem scan_name (k : String) (rest : List Char) :
    scan ((Quoted.quote k).toList ++ ':' :: ' ' :: rest)
      = (scan rest).map fun ts => .str k :: .colon :: ts := by
  have hquote : (Quoted.quote k).toList ++ ':' :: ' ' :: rest
      = '"' :: (Quoted.encode k.toList ++ '"' :: (':' :: ' ' :: rest)) := by
    simp [Quoted.quote]
  rw [hquote, scan_quoted, scan_punctuation _ (t := .colon) rfl, scan_blank, Option.map_map]
  rfl

mutual

/-- The text of a document is cut into its tokens, and what is behind into
whatever it is. -/
theorem scan_text : (j : Json) → j.Integral → (rest : List Char) → Stops rest →
    scan ((text (ofJson j)).toList ++ rest) = (scan rest).map (tokens j ++ ·)
  | .null, _, rest, hrest => scan_word rest rfl (by decide) rfl hrest
  | .bool true, _, rest, hrest => scan_word rest rfl (by decide) rfl hrest
  | .bool false, _, rest, hrest => scan_word rest rfl (by decide) rfl hrest
  | .number n, hj, rest, hrest => by
    obtain ⟨i, rfl⟩ := hj
    have htext : (text (ofJson (.number (.int i)))).toList = Numeral.signed i.toInt := by
      simp [ofJson, Constant.ofNumber, text, Numeral.ofInt]
    rw [htext, scan_signed _ i hrest]
    rfl
  | .str s, _, rest, _ => by
    have htext : (text (ofJson (.str s))).toList ++ rest
        = '"' :: (Quoted.encode s.toList ++ '"' :: rest) := by
      simp [ofJson, text, Quoted.quote]
    rw [htext, scan_quoted]
    rfl
  | .array [], _, rest, _ => by
    have htext : (text (ofJson (.array []))).toList ++ rest = '[' :: ']' :: rest := by
      simp [ofJson, ofJsonAll, text]
    rw [htext, scan_punctuation _ (t := .openArray) rfl,
      scan_punctuation _ (t := .closeArray) rfl, Option.map_map]
    rfl
  -- behind an item stands a comma or a bracket, so a number ends there
  | .array (j :: js), hj, rest, _ => by
    have htext : (text (ofJson (.array (j :: js)))).toList ++ rest
        = '[' :: ((text (ofJson j)).toList ++ ((textTail (ofJsonAll js)).toList ++ ']' :: rest)) := by
      simp [ofJson, ofJsonAll, text]
    rw [htext, scan_punctuation _ (t := .openArray) rfl, scan_text j hj.1 _ (stops_textTail _ rest),
      scan_textTail js hj.2, Option.map_map, Option.map_map]
    refine congrArg (fun f => (scan rest).map f) (funext fun ts => ?_)
    simp [tokens]
  | .object [], _, rest, _ => by
    have htext : (text (ofJson (.object []))).toList ++ rest = '{' :: '}' :: rest := by
      simp [ofJson, ofJsonFields, text]
    rw [htext, scan_punctuation _ (t := .openObject) rfl,
      scan_punctuation _ (t := .closeObject) rfl, Option.map_map]
    rfl
  | .object ((k, j) :: fs), hj, rest, _ => by
    have htext : (text (ofJson (.object ((k, j) :: fs)))).toList ++ rest
        = '{' :: ((Quoted.quote k).toList ++ ':' :: ' ' :: ((text (ofJson j)).toList
          ++ ((textFields (ofJsonFields fs)).toList ++ '}' :: rest))) := by
      simp [ofJson, ofJsonFields, text]
    rw [htext, scan_punctuation _ (t := .openObject) rfl, scan_name,
      scan_text j hj.1 _ (stops_textFields _ rest), scan_textFields fs hj.2, Option.map_map,
      Option.map_map, Option.map_map]
    refine congrArg (fun f => (scan rest).map f) (funext fun ts => ?_)
    simp [tokens]

theorem scan_textTail : (js : List Json) → IntegralAll js → (rest : List Char) →
    scan ((textTail (ofJsonAll js)).toList ++ ']' :: rest)
      = (scan rest).map (itemTokens js ++ .closeArray :: ·)
  | [], _, rest => scan_punctuation rest (t := .closeArray) rfl
  | j :: js, hjs, rest => by
    have htext : (textTail (ofJsonAll (j :: js))).toList ++ ']' :: rest
        = ',' :: ' ' :: ((text (ofJson j)).toList
          ++ ((textTail (ofJsonAll js)).toList ++ ']' :: rest)) := by
      simp [ofJsonAll, textTail]
    rw [htext, scan_punctuation _ (t := .comma) rfl, scan_blank,
      scan_text j hjs.1 _ (stops_textTail _ rest), scan_textTail js hjs.2, Option.map_map,
      Option.map_map]
    refine congrArg (fun f => (scan rest).map f) (funext fun ts => ?_)
    simp [itemTokens]

theorem scan_textFields : (fs : List (String × Json)) → IntegralFields fs → (rest : List Char) →
    scan ((textFields (ofJsonFields fs)).toList ++ '}' :: rest)
      = (scan rest).map (fieldTokens fs ++ .closeObject :: ·)
  | [], _, rest => scan_punctuation rest (t := .closeObject) rfl
  | (k, j) :: fs, hfs, rest => by
    have htext : (textFields (ofJsonFields ((k, j) :: fs))).toList ++ '}' :: rest
        = ',' :: ' ' :: ((Quoted.quote k).toList ++ ':' :: ' ' :: ((text (ofJson j)).toList
          ++ ((textFields (ofJsonFields fs)).toList ++ '}' :: rest))) := by
      simp [ofJsonFields, textFields]
    rw [htext, scan_punctuation _ (t := .comma) rfl, scan_blank, scan_name,
      scan_text j hfs.1 _ (stops_textFields _ rest), scan_textFields fs hfs.2, Option.map_map,
      Option.map_map, Option.map_map]
    refine congrArg (fun f => (scan rest).map f) (funext fun ts => ?_)
    simp [fieldTokens]

end

end

-- ==================================================== from the tokens to the document

namespace Reader

/-- A value can begin where the first item of an array is due: its first
token does not close anything. -/
theorem run_arrayStart (j : Json) (stack : List Frame) (ts : List Token) :
    run (.arrayStart stack) (tokens j ++ ts)
      = run (.value (.array [] :: stack)) (tokens j ++ ts) := by
  have hfirst : ∃ t rest, tokens j = t :: rest ∧ t ≠ .closeArray := by
    cases j with
    | array items => cases items <;> exact ⟨_, _, rfl, by simp⟩
    | object fields =>
      cases fields with
      | nil => exact ⟨_, _, rfl, by simp⟩
      | cons f fs => exact ⟨_, _, rfl, by simp⟩
    | _ => exact ⟨_, _, rfl, by simp⟩
  obtain ⟨t, rest, heq, hopen⟩ := hfirst
  rw [heq, List.cons_append, run, run]
  cases t with
  | closeArray => exact absurd rfl hopen
  | _ => rfl

mutual

/-- The tokens of a document take a reader that waits for a value to the
one that was handed the document. -/
theorem run_tokens : (j : Json) → j.DistinctKeys → (stack : List Frame) → (ts : List Token) →
    stack.length + j.depth ≤ nestingLimit →
    run (.value stack) (tokens j ++ ts) = run (deliver j stack) ts
  | .null, _, _, _, _ => rfl
  | .bool _, _, _, _, _ => rfl
  | .number _, _, _, _, _ => rfl
  | .str _, _, _, _, _ => rfl
  | .array [], _, stack, ts, hdepth => by
    have hroom : stack.length < nestingLimit := by
      simp only [depth] at hdepth
      omega
    rw [tokens, List.cons_append, run, step, beginValue, if_pos hroom]
    rfl
  | .array (j :: js), hj, stack, ts, hdepth => by
    simp only [depth, depthAll] at hdepth
    have hroom : stack.length < nestingLimit := by omega
    -- the first item is read one level deeper; the limit leaves room for it
    have hfirst : (Frame.array [] :: stack).length + j.depth ≤ nestingLimit := by
      simp only [List.length_cons]
      omega
    have hitems := run_itemTokens js hj.2 [j] stack ts (by omega)
    rw [tokens, List.cons_append, run, step, beginValue, if_pos hroom, Option.bind_some,
      List.append_assoc, run_arrayStart, run_tokens j hj.1 _ _ hfirst, List.append_assoc]
    exact hitems
  | .object [], _, stack, ts, hdepth => by
    have hroom : stack.length < nestingLimit := by
      simp only [depth] at hdepth
      omega
    rw [tokens, List.cons_append, run, step, beginValue, if_pos hroom]
    rfl
  | .object ((k, j) :: fs), hj, stack, ts, hdepth => by
    simp only [depth, depthFields] at hdepth
    have hroom : stack.length < nestingLimit := by omega
    have hfirst : (Frame.object [] k :: stack).length + j.depth ≤ nestingLimit := by
      simp only [List.length_cons]
      omega
    have hfields := run_fieldTokens fs hj.2.2 [(k, j)] stack ts hj.1 (by omega)
    rw [tokens, List.cons_append, run, step, beginValue, if_pos hroom, Option.bind_some]
    show run (.value (.object [] k :: stack)) (tokens j ++ _ ++ ts) = _
    rw [List.append_assoc, run_tokens j hj.2.1 _ _ hfirst, List.append_assoc]
    exact hfields

/-- The tokens of further items add them to an open array. -/
theorem run_itemTokens : (js : List Json) → DistinctKeysAll js → (items : List Json) →
    (stack : List Frame) → (ts : List Token) →
    stack.length + (depthAll js + 1) ≤ nestingLimit →
    run (.afterItem items stack) (itemTokens js ++ .closeArray :: ts)
      = run (deliver (.array (items.reverse ++ js)) stack) ts
  | [], _, items, stack, ts, _ => by
    rw [List.append_nil]
    rfl
  | j :: js, hjs, items, stack, ts, hdepth => by
    simp only [depthAll] at hdepth
    have hfirst : (Frame.array items :: stack).length + j.depth ≤ nestingLimit := by
      simp only [List.length_cons]
      omega
    have hitems := run_itemTokens js hjs.2 (j :: items) stack ts (by omega)
    rw [List.reverse_cons, List.append_assoc] at hitems
    rw [itemTokens, List.cons_append]
    show run (.value (.array items :: stack)) (tokens j ++ itemTokens js ++ _) = _
    rw [List.append_assoc, run_tokens j hjs.1 _ _ hfirst]
    exact hitems

/-- The tokens of further fields add them to an open object that has none
of their names. -/
theorem run_fieldTokens : (fs : Entries Json) → DistinctKeysFields fs →
    (fields : Entries Json) → (stack : List Frame) → (ts : List Token) →
    (Entries.keys (fields ++ fs)).Nodup →
    stack.length + (depthFields fs + 1) ≤ nestingLimit →
    run (.afterField fields stack) (fieldTokens fs ++ .closeObject :: ts)
      = run (deliver (.object (fields ++ fs)) stack) ts
  | [], _, fields, stack, ts, _, _ => by
    rw [List.append_nil]
    rfl
  | (k, j) :: fs, hfs, fields, stack, ts, hnodup, hdepth => by
    simp only [depthFields] at hdepth
    have hfirst : (Frame.object fields k :: stack).length + j.depth ≤ nestingLimit := by
      simp only [List.length_cons]
      omega
    have hnew : k ∉ Entries.keys fields := by
      unfold Entries.keys at hnodup ⊢
      rw [List.map_append, List.nodup_append] at hnodup
      intro hmem
      exact hnodup.2.2 k hmem k List.mem_cons_self rfl
    have hsplit : (fields ++ [(k, j)]) ++ fs = fields ++ (k, j) :: fs := List.append_assoc ..
    have hfields := run_fieldTokens fs hfs.2 (fields ++ [(k, j)]) stack ts (by rwa [hsplit])
      (by omega)
    rw [hsplit] at hfields
    rw [fieldTokens, List.cons_append]
    show run (.value (.object fields k :: stack)) (tokens j ++ fieldTokens fs ++ _) = _
    rw [List.append_assoc, run_tokens j hfs.1 _ _ hfirst, deliver, Entries.put_of_notMem hnew]
    exact hfields

end

end Reader

/-- The text of a document is read as the document. -/
theorem parse?_text {j : Json} (hintegral : j.Integral) (hdistinct : j.DistinctKeys)
    (hdepth : j.depth ≤ Reader.nestingLimit) :
    parse? (Constant.text (.ofJson j)) = some j := by
  have hscan := scan_text j hintegral [] Token.stops_nil
  rw [List.append_nil, Token.scan_nil, Option.map_some] at hscan
  have hrun := Reader.run_tokens j hdistinct [] [] (by simpa using hdepth)
  unfold parse?
  rw [hscan, Option.bind_some]
  unfold ofTokens?
  rw [hrun]
  rfl

end Json

-- ==================================================== data

namespace Heap

/-- The value is data: made of null, truth values, integers, texts, lists
and dicts, with at most `n` lists and dicts one in another. -/
inductive Data (h : Heap) : Nat → Value → Prop
  | null {n : Nat} : Data h n .null
  | bool {n : Nat} (b : Bool) : Data h n (.bool b)
  | int {n : Nat} (i : Int64) : Data h n (.int i)
  | str {n : Nat} (s : String) : Data h n (.str s)
  | list {n : Nat} {r : Ref} {vs : List Value} (place : h.objects[r]? = some (.list vs))
      (items : ∀ v ∈ vs, Data h n v) : Data h (n + 1) (.list r)
  | dict {n : Nat} {r : Ref} {t : Table Value} (place : h.objects[r]? = some (.table t))
      (entries : ∀ e ∈ t.entries, Data h n e.2) : Data h (n + 1) (.dict r)

variable {h : Heap} {n : Nat} {v : Value}

/-- The value is that of a document, and so is its text. -/
structure ShownAs (h : Heap) (n : Nat) (v : Value) (j : Json) : Prop where
  integral : j.Integral
  distinct : j.DistinctKeys
  depth : j.depth ≤ n
  denotes : h.Denotes v (.ofJson j)
  text : h.textWithin n .repr v = (Constant.ofJson j).text

/-- Showing data takes one step for each level. -/
theorem Data.ends (hv : h.Data n v) : h.Ends n .repr v := by
  induction hv with
  | null => exact .single rfl
  | bool b => exact .single rfl
  | int i => exact .single rfl
  | str s => exact .single rfl
  | @list n r vs place items ih =>
    refine .composite fun p hp => ?_
    obtain ⟨v, hv, rfl⟩ := List.mem_map.1 hp
    unfold Heap.items at hv
    rw [place] at hv
    exact ih v hv
  | @dict n r t place entries ih =>
    refine .composite fun p hp => ?_
    obtain ⟨e, he, rfl⟩ := List.mem_map.1 hp
    unfold Heap.table at he
    rw [place] at he
    exact ih e he

end Heap

namespace Constant

theorem intercalate_text (c : Constant) (cs : List Constant) :
    ", ".intercalate ((c :: cs).map text) = text c ++ textTail cs := by
  induction cs generalizing c with
  | nil => simp [textTail]
  | cons d cs ih =>
    have hrest := ih d
    rw [List.map_cons] at hrest
    rw [List.map_cons, List.map_cons, String.intercalate_cons_cons, hrest, textTail]
    simp [String.append_assoc]

/-- The text of a list: the texts of its items between commas. -/
theorem text_list (cs : List Constant) :
    text (.list cs) = "[" ++ ", ".intercalate (cs.map text) ++ "]" := by
  cases cs with
  | nil => simp [text]
  | cons c cs =>
    rw [intercalate_text, text]
    simp [String.append_assoc]

/-- The text of an entry. -/
def entryText (e : String × Constant) : String := Quoted.quote e.1 ++ ": " ++ text e.2

theorem intercalate_entryText (e : String × Constant) (es : Entries Constant) :
    ", ".intercalate ((e :: es).map entryText) = entryText e ++ textFields es := by
  induction es generalizing e with
  | nil => simp [textFields]
  | cons f es ih =>
    have hrest := ih f
    rw [List.map_cons] at hrest
    rw [List.map_cons, List.map_cons, String.intercalate_cons_cons, hrest, textFields]
    simp [entryText, String.append_assoc]

/-- The text of a dict: the texts of its entries between commas. -/
theorem text_dict (es : Entries Constant) :
    text (.dict es) = "\x7b" ++ ", ".intercalate (es.map entryText) ++ "\x7d" := by
  cases es with
  | nil => simp [text]
  | cons e es =>
    rw [intercalate_entryText, text]
    simp [entryText, String.append_assoc]

end Constant

namespace Heap

open Constant (ofJsonAll ofJsonFields)
open Json (IntegralAll IntegralFields DistinctKeysAll DistinctKeysFields depthAll depthFields)

variable {h : Heap} {n : Nat} {v : Value}

/-- Values that are those of documents are those of a list of documents. -/
theorem exists_shownAs_items {vs : List Value} (hvs : ∀ v ∈ vs, ∃ j, h.ShownAs n v j) :
    ∃ js, IntegralAll js ∧ DistinctKeysAll js ∧ depthAll js ≤ n ∧ h.DenotesAll vs (ofJsonAll js)
      ∧ vs.map (h.textWithin n .repr) = (ofJsonAll js).map Constant.text := by
  induction vs with
  | nil => exact ⟨[], trivial, trivial, Nat.zero_le n, .nil, rfl⟩
  | cons v vs ih =>
    obtain ⟨⟨j, hj⟩, hrest⟩ := List.forall_mem_cons.1 hvs
    obtain ⟨js, hintegral, hdistinct, hdepth, hdenotes, htext⟩ := ih hrest
    refine ⟨j :: js, ⟨hj.integral, hintegral⟩, ⟨hj.distinct, hdistinct⟩,
      Nat.max_le.2 ⟨hj.depth, hdepth⟩, .cons hj.denotes hdenotes, ?_⟩
    rw [List.map_cons, hj.text, htext]
    rfl

/-- So are named values, under the same names. -/
theorem exists_shownAs_entries {es : Entries Value} (hes : ∀ e ∈ es, ∃ j, h.ShownAs n e.2 j) :
    ∃ fs, IntegralFields fs ∧ DistinctKeysFields fs ∧ depthFields fs ≤ n
      ∧ h.DenotesEntries es (ofJsonFields fs) ∧ Entries.keys fs = es.keys
      ∧ es.map (fun e => Quoted.quote e.1 ++ ": " ++ h.textWithin n .repr e.2)
        = (ofJsonFields fs).map Constant.entryText := by
  induction es with
  | nil => exact ⟨[], trivial, trivial, Nat.zero_le n, .nil, rfl, rfl⟩
  | cons e es ih =>
    obtain ⟨⟨j, hj⟩, hrest⟩ := List.forall_mem_cons.1 hes
    obtain ⟨fs, hintegral, hdistinct, hdepth, hdenotes, hkeys, htext⟩ := ih hrest
    refine ⟨(e.1, j) :: fs, ⟨hj.integral, hintegral⟩, ⟨hj.distinct, hdistinct⟩,
      Nat.max_le.2 ⟨hj.depth, hdepth⟩, .cons hj.denotes hdenotes, congrArg (e.1 :: ·) hkeys, ?_⟩
    rw [List.map_cons, hj.text, htext]
    rfl

/-- Data is the value of a document, and its text the document's. -/
theorem Data.exists_shownAs (hv : h.Data n v) : ∃ j, h.ShownAs n v j := by
  induction hv with
  | null => exact ⟨.null, trivial, trivial, Nat.zero_le _, .null, by rw [textWithin]; rfl⟩
  | bool b => exact ⟨.bool b, trivial, trivial, Nat.zero_le _, .bool b, by rw [textWithin]; rfl⟩
  | int i =>
    refine ⟨.number (.int i), ⟨i, rfl⟩, trivial, Nat.zero_le _, .int i, ?_⟩
    rw [textWithin]
    rfl
  | str s => exact ⟨.str s, trivial, trivial, Nat.zero_le _, .str s, by rw [textWithin]; rfl⟩
  | @list n r vs place _ ih =>
    obtain ⟨js, hintegral, hdistinct, hdepth, hdenotes, htext⟩ := exists_shownAs_items ih
    have hitems : h.items r = vs := by
      unfold items
      rw [place]
    refine ⟨.array js, hintegral, hdistinct, Nat.succ_le_succ hdepth, .list place hdenotes, ?_⟩
    rw [textWithin, hitems, htext, ← Constant.text_list]
    rfl
  | @dict n r t place _ ih =>
    obtain ⟨fs, hintegral, hdistinct, hdepth, hdenotes, hkeys, htext⟩ := exists_shownAs_entries ih
    have htable : h.table r = t := by
      unfold table
      rw [place]
    -- the table repeats no key, and so neither does the object
    have hnodup : (Entries.keys fs).Nodup := hkeys ▸ t.nodup
    refine ⟨.object fs, hintegral, ⟨hnodup, hdistinct⟩, Nat.succ_le_succ hdepth,
      .dict (by rw [Table.ofList_entries, place]) hdenotes, ?_⟩
    rw [textWithin, htable, htext, ← Constant.text_dict]
    rfl

end Heap

/-- The exact text of data, nested no deeper than documents may be, is a
document. The value that is made of it, in any heap, is the same data: both
are the value of that document. -/
theorem Value.reads_back {h : Heap} {v : Value} (hv : h.Data Json.Reader.nestingLimit v) :
    ∃ j, Json.parse? (v.reprText h) = some j ∧ h.Denotes v (.ofJson j)
      ∧ ∀ h', (Value.ofJson j h').2.Denotes (Value.ofJson j h').1 (.ofJson j) := by
  obtain ⟨j, hj⟩ := hv.exists_shownAs
  have htext : v.reprText h = (Constant.ofJson j).text := hv.ends.text_eq.trans hj.text
  refine ⟨j, ?_, hj.denotes, fun h' => ?_⟩
  · rw [htext]
    exact Json.parse?_text hj.integral hj.distinct hj.depth
  · obtain ⟨-, -, hdenotes⟩ := (Constant.ofJson j).materialize_made h'
    exact hdenotes

namespace Sample

/-- A list in a dict, with the least integer, and texts that must be
escaped. -/
def nested : Heap :=
  ⟨#[.list [.int Int64.minValue, .str "\"\\\n\x01", .null],
    .table (.ofList [("k", .list 0), ("", .bool true)])]⟩

theorem data_nested : nested.Data Json.Reader.nestingLimit (.dict 1) := by
  refine .dict (n := 126) rfl fun e he => ?_
  have hentries : e = ("k", .list 0) ∨ e = ("", .bool true) := by
    simpa using (show e ∈ [("k", Value.list 0), ("", .bool true)] from he)
  rcases hentries with rfl | rfl
  · refine .list (n := 125) rfl fun v hv => ?_
    have hitems : v = .int Int64.minValue ∨ v = .str "\"\\\n\x01" ∨ v = .null := by
      simpa using hv
    rcases hitems with rfl | rfl | rfl
    · exact .int _
    · exact .str _
    · exact .null
  · exact .bool true

end Sample

/-- The text of nested data, and that it reads back. -/
theorem Value.nested_reads_back :
    (Value.dict 1).reprText Sample.nested
        = "\x7b\"k\": [-9223372036854775808, \"\\\"\\\\\\n\\u0001\", null], \"\": true\x7d"
      ∧ ∃ j, Json.parse? ((Value.dict 1).reprText Sample.nested) = some j
        ∧ Sample.nested.Denotes (.dict 1) (.ofJson j)
        ∧ ∀ h', (Value.ofJson j h').2.Denotes (Value.ofJson j h').1 (.ofJson j) :=
  ⟨by decide +kernel, reads_back Sample.data_nested⟩

end LiveDoc
