/-
# Written explanations

A list of explanations in JSON, or an object around it: which blanks stand between its parts
is all that differs from writer to writer (`Layout`).

* `Serialises` — the texts that are explanations in JSON, on one line, indented or otherwise.
* `Layout.exists_text` — each of them has a layout.
* `Layout.Text.parse` — **written explanations are read back**, in any layout.
-/

import Workbench.Index.Explanation
import Workbench.Proofs.Json.Compact
import Workbench.Proofs.Json.Reading

namespace Workbench.Index

open Workbench.Json Workbench.Json.Reader

/-! ### Explanations as values -/

/-- An explanation as it is written. -/
def Explanation.value (e : Explanation) : Value :=
  .object [("file_path", .string e.path), ("explanation", .string e.text)]

/-- An explanation as it is read: the fields are in order. -/
def Explanation.sorted (e : Explanation) : Value :=
  .object [("explanation", .string e.text), ("file_path", .string e.path)]

/-- A list of explanations. -/
def explanationsValue (explanations : List Explanation) : Value :=
  .array (explanations.map Explanation.value)

/-- An object around a list of explanations. -/
def explanationsObject (explanations : List Explanation) : Value :=
  .object [("relevant_file_explanations", explanationsValue explanations)]

variable {e : Explanation} {es explanations : List Explanation} {rest s t : List Char}
  {fuel depth : Nat}

/-! ### Decoding -/

theorem decode_sorted (e : Explanation) : Explanation.shape.decode true e.sorted = .ok e := by
  simp [Explanation.shape, Explanation.sorted, Shape.decode, Shape.setNamed, Shape.missing?,
    Decode.text, Except.map]

theorem decodeList_sorted (explanations : List Explanation) :
    decodeList (.array (explanations.map Explanation.sorted)) = .ok explanations := by
  rw [decodeList, Decode.list, List.mapM_map]
  induction explanations with
  | nil => rfl
  | cons e es ih => simp [decode_sorted, ih]

theorem decodeReply_list (explanations : List Explanation) :
    decodeReply (.array (explanations.map Explanation.sorted)) = .ok explanations :=
  decodeList_sorted explanations

theorem decodeReply_wrapped (explanations : List Explanation) :
    decodeReply (.object [("relevant_file_explanations",
      .array (explanations.map Explanation.sorted))]) = .ok explanations := by
  simp [decodeReply, wrapped, Shape.decode, Shape.setNamed, Shape.missing?, decodeList_sorted]

/-! ### Layouts -/

/-- Blanks between the parts of a value. -/
abbrev Blanks :=
  { gap : List Char // ∀ c ∈ gap, isBlank c = true }

/-- No blanks. -/
def noBlanks : Blanks :=
  ⟨[], List.forall_mem_nil _⟩

/-- The blanks in written explanations. -/
structure Layout where
  /-- After a colon. -/
  space : Blanks
  /-- Before the first explanation. -/
  first : Blanks
  /-- Before another explanation. -/
  next : Blanks
  /-- Before the bracket that closes the list. -/
  last : Blanks
  /-- Before the path in an explanation. -/
  path : Blanks
  /-- Before the text in an explanation. -/
  text : Blanks
  /-- Before the brace that closes an explanation. -/
  close : Blanks

/-- A text in quotes, and what follows it. -/
def quoteThen (text : String) (rest : List Char) : List Char :=
  '"' :: (text.toList.flatMap Writer.escape ++ '"' :: rest)

theorem quote_append (text : String) (rest : List Char) :
    Writer.quote text ++ rest = quoteThen text rest := by
  simp [Writer.quote, quoteThen]

namespace Layout

/-- A written explanation, and what follows it. -/
def entryThen (l : Layout) (e : Explanation) (rest : List Char) : List Char :=
  '\x7b' :: (l.path.val ++ quoteThen "file_path" (':' :: (l.space.val ++ quoteThen e.path (',' ::
    (l.text.val ++ quoteThen "explanation" (':' :: (l.space.val ++ quoteThen e.text
      (l.close.val ++ '\x7d' :: rest))))))))

/-- The written explanations after the first one, and what follows them. -/
def moreThen (l : Layout) (rest : List Char) : List Explanation → List Char
  | [] => rest
  | e :: es => ',' :: (l.next.val ++ l.entryThen e (l.moreThen rest es))

/-- A written list of explanations, and what follows it. -/
def listThen (l : Layout) (e : Explanation) (es : List Explanation) (rest : List Char) :
    List Char :=
  '[' :: (l.first.val ++ l.entryThen e (l.moreThen (l.last.val ++ ']' :: rest) es))

/-- A written object around a list of explanations, with blanks before and after what it holds,
and what follows it. -/
def wrappedThen (l : Layout) (opening closing : Blanks) (e : Explanation)
    (es : List Explanation) (rest : List Char) : List Char :=
  '\x7b' :: (opening.val ++ quoteThen "relevant_file_explanations" (':' :: (l.space.val ++
    l.listThen e es (closing.val ++ '\x7d' :: rest))))

/-- The text of a layout: a list of explanations, or an object around it. -/
inductive Text (l : Layout) (e : Explanation) (es : List Explanation) : List Char → Prop where
  | list : Text l e es (l.listThen e es [])
  | wrapped (opening closing : Blanks) : Text l e es (l.wrappedThen opening closing e es [])

end Layout

/-- A text is a list of explanations in JSON, or an object around it: on one line, indented or
in any other layout. -/
inductive Serialises : List Explanation → String → Prop where
  | compact (explanations : List Explanation) :
      Serialises explanations (explanationsValue explanations).compact
  | pretty (explanations : List Explanation) :
      Serialises explanations (explanationsValue explanations).pretty
  | wrappedCompact (explanations : List Explanation) :
      Serialises explanations (explanationsObject explanations).compact
  | wrappedPretty (explanations : List Explanation) :
      Serialises explanations (explanationsObject explanations).pretty
  | layout {l : Layout} {e : Explanation} {es : List Explanation} {written : String} :
      l.Text e es written.toList → Serialises (e :: es) written

namespace Layout

/-! ### Written explanations have layouts -/

/-- All on one line. -/
def dense : Layout :=
  ⟨noBlanks, noBlanks, noBlanks, noBlanks, noBlanks, noBlanks, noBlanks⟩

/-- A new line that is indented. -/
def line (level : Nat) : Blanks where
  val := Writer.newline level
  property := by
    intro c mem
    rcases List.mem_cons.mp mem with rfl | mem
    · rfl
    · rw [(List.mem_replicate.mp mem).2]
      rfl

/-- Lines that are indented from a level on. -/
def indented (level : Nat) : Layout where
  space := ⟨[' '], List.all_eq_true.mp rfl⟩
  first := line (level + 1)
  next := line (level + 1)
  last := line level
  path := line (level + 2)
  text := line (level + 2)
  close := line (level + 1)

variable {l : Layout}

theorem join_append {write : Explanation → List Char}
    (hwrite : ∀ e rest, write e ++ rest = l.entryThen e rest) (e : Explanation)
    (es : List Explanation) (rest : List Char) :
    Writer.join (',' :: l.next.val) ((e :: es).map write) ++ rest =
      l.entryThen e (l.moreThen rest es) := by
  induction es generalizing e with
  | nil => exact hwrite e rest
  | cons next es ih =>
      have hnext := ih next
      rw [List.map_cons] at hnext
      rw [List.map_cons, List.map_cons, Writer.join, List.append_assoc, List.append_assoc, hnext,
        hwrite]
      · rfl
      · simp

theorem compact_value (e : Explanation) (rest : List Char) :
    Writer.compact e.value ++ rest = dense.entryThen e rest := by
  simp [Explanation.value, Writer.compact, Writer.compactFields, Writer.join, entryThen, dense,
    noBlanks, ← quote_append]

theorem indented_value (level : Nat) (e : Explanation) (rest : List Char) :
    Writer.indented (level + 1) e.value ++ rest = (indented level).entryThen e rest := by
  simp [Explanation.value, Writer.indented, Writer.indentedFields, Writer.block, Writer.join,
    Writer.compact, entryThen, indented, line, ← quote_append]

theorem indentedItems_map (level : Nat) (values : List Value) :
    Writer.indentedItems level values = values.map (Writer.indented level) := by
  induction values with
  | nil => rfl
  | cons v values ih => rw [Writer.indentedItems, ih, List.map_cons]

theorem compact_explanations (e : Explanation) (es : List Explanation) (rest : List Char) :
    Writer.compact (explanationsValue (e :: es)) ++ rest = dense.listThen e es rest := by
  have hjoin := join_append compact_value e es (']' :: rest)
  rw [listThen]
  simp only [explanationsValue, Writer.compact, compactItems_eq_map, List.map_map, List.cons_append,
    List.append_assoc]
  exact congrArg ('[' :: ·) hjoin

theorem indented_explanations (level : Nat) (e : Explanation) (es : List Explanation)
    (rest : List Char) :
    Writer.indented level (explanationsValue (e :: es)) ++ rest =
      (indented level).listThen e es rest := by
  have hjoin := join_append (indented_value level) e es
    ((indented level).last.val ++ ']' :: rest)
  rw [listThen, ← hjoin]
  simp only [explanationsValue, Writer.indented, indentedItems_map, List.map_map, List.map_cons,
    Writer.block, List.cons_append, List.append_assoc]
  rfl

theorem compact_object (e : Explanation) (es : List Explanation) :
    Writer.compact (explanationsObject (e :: es)) =
      dense.wrappedThen noBlanks noBlanks e es [] := by
  simp only [explanationsObject, Writer.compact, Writer.compactFields, Writer.join, wrappedThen,
    ← compact_explanations, ← quote_append]
  simp [dense, noBlanks]

theorem indented_object (e : Explanation) (es : List Explanation) :
    Writer.indented 0 (explanationsObject (e :: es)) =
      (indented 1).wrappedThen (line 1) (line 0) e es [] := by
  simp only [explanationsObject, Writer.indented, Writer.indentedFields, Writer.block, Writer.join,
    wrappedThen, ← indented_explanations, ← quote_append]
  simp [indented, line]

/-- Explanations in JSON have a layout. -/
theorem exists_text {written : String} (h : Serialises (e :: es) written) :
    ∃ l : Layout, l.Text e es written.toList := by
  cases h with
  | compact =>
      refine ⟨dense, ?_⟩
      rw [Value.compact, String.toList_ofList, ← List.append_nil (Writer.compact _),
        compact_explanations]
      exact .list
  | pretty =>
      refine ⟨indented 0, ?_⟩
      rw [Value.pretty, String.toList_ofList, ← List.append_nil (Writer.indented _ _),
        indented_explanations]
      exact .list
  | wrappedCompact =>
      refine ⟨dense, ?_⟩
      rw [Value.compact, String.toList_ofList, compact_object]
      exact .wrapped ..
  | wrappedPretty =>
      refine ⟨indented 1, ?_⟩
      rw [Value.pretty, String.toList_ofList, indented_object]
      exact .wrapped ..
  | layout h => exact ⟨_, h⟩

/-! ### Reading what was written -/

theorem skipBlanks_blanks (gap : Blanks) (s : List Char) :
    skipBlanks (gap.val ++ s) = skipBlanks s := by
  rw [skipBlanks, List.dropWhile_append_of_pos gap.property]
  rfl

theorem value_quoteThen (gap : Blanks) (fuel depth : Nat) (text : String) (t : List Char) :
    value true (fuel + 1) depth (gap.val ++ quoteThen text t) = .ok (.string text, t) := by
  rw [value_eq_ok_iff, skipBlanks_blanks]
  exact .string (string_quote text t)

/-- A field with a text is read, and the fields after it. -/
theorem fields_quoteThen {first : Bool} {known fs : List (String × Value)} {name text : String}
    (hnext : NextField first (skipBlanks s) true
      (name.toList.flatMap Writer.escape ++ '"' :: ':' :: (l.space.val ++ quoteThen text t)))
    (hmore : fields true false (fuel + 1) depth (Value.insert name (.string text) known) t =
      .ok (fs, rest)) :
    fields true first (fuel + 2) depth known s = .ok (fs, rest) :=
  fields_eq_ok_iff.mpr (.inr ⟨_, name, _, l.space.val ++ quoteThen text t, .string text, t, hnext,
    string_quote name _, rfl, value_quoteThen l.space _ _ _ _, hmore⟩)

/-- **A written explanation is read back**, with its fields in order. -/
theorem value_entryThen (hfuel : 4 ≤ fuel) (hdepth : 1 < depth) (e : Explanation)
    (rest : List Char) : value true fuel depth (l.entryThen e rest) = .ok (e.sorted, rest) := by
  obtain ⟨fuel, rfl⟩ : ∃ fewer, fuel = fewer + 4 := ⟨fuel - 4, by omega⟩
  have hsorted : Value.insert "explanation" (.string e.text)
      (Value.insert "file_path" (.string e.path) []) =
        [("explanation", .string e.text), ("file_path", .string e.path)] := by
    simp [Value.insert, show "explanation" < "file_path" by decide]
  have hclose : fields true false (fuel + 1) (depth - 1)
      [("explanation", .string e.text), ("file_path", .string e.path)]
      (l.close.val ++ '\x7d' :: rest) =
        .ok ([("explanation", .string e.text), ("file_path", .string e.path)], rest) := by
    rw [fields_eq_ok_iff, skipBlanks_blanks]
    exact .inl ⟨_, .close, rfl, rfl⟩
  have htext : fields true false (fuel + 2) (depth - 1)
      (Value.insert "file_path" (.string e.path) [])
      (',' :: (l.text.val ++ quoteThen "explanation" (':' :: (l.space.val ++ quoteThen e.text
        (l.close.val ++ '\x7d' :: rest))))) =
        .ok ([("explanation", .string e.text), ("file_path", .string e.path)], rest) :=
    fields_quoteThen (.comma (skipBlanks_blanks l.text _)) (hsorted ▸ hclose)
  have hpath : fields true true (fuel + 3) (depth - 1) []
      (l.path.val ++ quoteThen "file_path" (':' :: (l.space.val ++ quoteThen e.path (',' ::
        (l.text.val ++ quoteThen "explanation" (':' :: (l.space.val ++ quoteThen e.text
          (l.close.val ++ '\x7d' :: rest)))))))) =
        .ok ([("explanation", .string e.text), ("file_path", .string e.path)], rest) := by
    refine fields_quoteThen (l := l) ?_ htext
    rw [skipBlanks_blanks]
    exact .first
  exact value_eq_ok_iff.mpr (.object (fun _ => hdepth) hpath)

/-- The explanations after the first one are read back. -/
theorem items_moreThen (hfuel : es.length + 5 ≤ fuel) (hdepth : 1 < depth) (rest : List Char) :
    items true false fuel depth (l.moreThen (l.last.val ++ ']' :: rest) es) =
      .ok (es.map Explanation.sorted, rest) := by
  induction es generalizing fuel with
  | nil =>
      obtain ⟨fuel, rfl⟩ : ∃ fewer, fuel = fewer + 1 := ⟨fuel - 1, by omega⟩
      rw [moreThen, items_eq_ok_iff, skipBlanks_blanks]
      exact .inl ⟨_, .close, rfl, rfl⟩
  | cons e es ih =>
      rw [List.length_cons] at hfuel
      obtain ⟨fuel, rfl⟩ : ∃ fewer, fuel = fewer + 1 := ⟨fuel - 1, by omega⟩
      have hentry := value_entryThen (l := l) (by omega : 4 ≤ fuel) hdepth e
        (l.moreThen (l.last.val ++ ']' :: rest) es)
      exact items_eq_ok_iff.mpr (.inr ⟨_, _, _, _,
        .comma (skipBlanks_blanks l.next _) (by decide), hentry, ih (by omega), rfl⟩)

/-- **A written list of explanations is read back.** -/
theorem value_listThen (gap : Blanks) (hfuel : es.length + 7 ≤ fuel) (hdepth : 2 < depth)
    (e : Explanation) (rest : List Char) :
    value true fuel depth (gap.val ++ l.listThen e es rest) =
      .ok (.array ((e :: es).map Explanation.sorted), rest) := by
  obtain ⟨fuel, rfl⟩ : ∃ fewer, fuel = fewer + 2 := ⟨fuel - 2, by omega⟩
  have hentry := value_entryThen (l := l) (by omega : 4 ≤ fuel) (by omega : 1 < depth - 1) e
    (l.moreThen (l.last.val ++ ']' :: rest) es)
  have hmore := items_moreThen (l := l) (by omega : es.length + 5 ≤ fuel)
    (by omega : 1 < depth - 1) rest
  rw [value_eq_ok_iff, skipBlanks_blanks]
  refine .array (fun _ => by omega)
    (items_eq_ok_iff.mpr (.inr ⟨_, _, _, _, ?_, hentry, hmore, rfl⟩))
  rw [skipBlanks_blanks]
  exact .first (by decide)

theorem value_wrappedThen (opening closing : Blanks) (hfuel : es.length + 9 ≤ fuel)
    (hdepth : 3 < depth) (e : Explanation) (rest : List Char) :
    value true fuel depth (l.wrappedThen opening closing e es rest) =
      .ok (.object [("relevant_file_explanations",
        .array ((e :: es).map Explanation.sorted))], rest) := by
  obtain ⟨fuel, rfl⟩ : ∃ fewer, fuel = fewer + 2 := ⟨fuel - 2, by omega⟩
  have hlist := value_listThen (l := l) l.space (by omega : es.length + 7 ≤ fuel)
    (by omega : 2 < depth - 1) e (closing.val ++ '\x7d' :: rest)
  refine value_eq_ok_iff.mpr (.object (fun _ => by omega) (fields_eq_ok_iff.mpr (.inr
    ⟨_, "relevant_file_explanations", ':' :: (l.space.val ++ l.listThen e es
      (closing.val ++ '\x7d' :: rest)), _, _, _, ?_, string_quote _ _, rfl, hlist, ?_⟩)))
  · rw [skipBlanks_blanks]
    exact .first
  · obtain ⟨fuel, rfl⟩ : ∃ fewer, fuel = fewer + 1 := ⟨fuel - 1, by omega⟩
    rw [fields_eq_ok_iff, skipBlanks_blanks]
    exact .inl ⟨_, .close, rfl, rfl⟩

theorem length_le_moreThen (l : Layout) (rest : List Char) (es : List Explanation) :
    es.length ≤ (l.moreThen rest es).length := by
  induction es with
  | nil => simp
  | cons e es ih =>
      simp only [moreThen, entryThen, quoteThen, List.length_cons, List.length_append]
      omega

theorem length_le_listThen (l : Layout) (e : Explanation) (es : List Explanation)
    (rest : List Char) : es.length + 10 ≤ (l.listThen e es rest).length := by
  have := length_le_moreThen l (l.last.val ++ ']' :: rest) es
  simp only [listThen, entryThen, quoteThen, List.length_cons, List.length_append]
  omega

/-- **Written explanations are read back.** -/
theorem Text.parse (h : Text l e es s) :
    ∃ v, Value.parse (String.ofList s) = .ok v ∧ decodeReply v = .ok (e :: es) := by
  have hlength : es.length + 10 ≤ s.length := by
    cases h with
    | list => exact length_le_listThen l e es []
    | wrapped opening closing =>
        have := length_le_listThen l e es (closing.val ++ ['\x7d'])
        simp only [wrappedThen, quoteThen, List.length_cons, List.length_append]
        omega
  have hfuel : es.length + 9 ≤ fuelFor s := by
    rw [fuelFor]
    omega
  cases h with
  | list =>
      refine ⟨_, Value.parse_eq_ok_iff.mpr ⟨[], ?_, rfl⟩, decodeReply_list (e :: es)⟩
      rw [String.toList_ofList]
      exact value_listThen noBlanks (by omega) (by decide) e []
  | wrapped opening closing =>
      refine ⟨_, Value.parse_eq_ok_iff.mpr ⟨[], ?_, rfl⟩, decodeReply_wrapped (e :: es)⟩
      rw [String.toList_ofList]
      exact value_wrappedThen opening closing hfuel (by decide) e []

/-! ### The ends of what was written -/

theorem entryThen_append (l : Layout) (e : Explanation) (s t : List Char) :
    l.entryThen e (s ++ t) = l.entryThen e s ++ t := by
  simp [entryThen, quoteThen]

theorem moreThen_append (l : Layout) (s t : List Char) (es : List Explanation) :
    l.moreThen (s ++ t) es = l.moreThen s es ++ t := by
  induction es with
  | nil => rfl
  | cons e es ih => simp [moreThen, ih, entryThen_append]

theorem listThen_eq (l : Layout) (e : Explanation) (es : List Explanation) (rest : List Char) :
    l.listThen e es rest =
      '[' :: (l.first.val ++ l.entryThen e (l.moreThen l.last.val es) ++ ']' :: rest) := by
  rw [listThen, moreThen_append, entryThen_append, List.append_assoc]

/-- Written explanations stand in brackets. -/
theorem Text.exists_ends (h : Text l e es s) : ∃ first middle last,
    s = first :: middle ++ [last] ∧ (first = '[' ∨ first = '\x7b') ∧
      (last = ']' ∨ last = '\x7d') := by
  cases h with
  | list => exact ⟨'[', _, ']', listThen_eq l e es [], .inl rfl, .inl rfl⟩
  | wrapped opening closing =>
      refine ⟨'\x7b', opening.val ++ quoteThen "relevant_file_explanations" (':' ::
        (l.space.val ++ l.listThen e es closing.val)), '\x7d', ?_, .inr rfl, .inr rfl⟩
      simp [wrappedThen, listThen_eq, quoteThen]

end Layout

end Workbench.Index
