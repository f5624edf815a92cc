/-
# Replies that hold explanations

A generator answers with a list of explanations in JSON, or an object around it, bare or in
a fenced block. A reply is searched for a block before it is read as JSON, and the search
knows nothing of strings: a fence in an explanation or a path counts like any other.

* `fenceCount` — the fences in explanations.
* `Layout.Text.quiet` — what a written list holds after its first fence begins inside a
  string, so no explanation is read from it.
* `explanationsOf_serialised` — **which replies give the explanations that they hold**: a bare
  one with one fence in them at most, one in a block with none; all others are faults.
-/

import Workbench.Proofs.Index.Fencing
import Workbench.Proofs.Index.Layouts
import Workbench.Proofs.Json.Wordless
import Workbench.Proofs.Text.Trimming

namespace Workbench.Index

open Workbench.Json Workbench.Json.Reader

/-- The fences in the paths and texts of explanations. -/
def fenceCount : List Explanation → Nat
  | [] => 0
  | e :: es => fences e.path.toList + fences e.text.toList + fenceCount es

variable {e : Explanation} {es explanations : List Explanation}
  {s t front gap block before after rest : List Char} {name text : String} {c : Char}

/-! ### Blanks and fences -/

theorem Blanks.not_mem (gap : Blanks) : '\x60' ∉ gap.val :=
  fun mem => absurd (gap.property _ mem) (by decide)

theorem not_mem_of_isTextBlank (h : ∀ c ∈ gap, Text.isBlank c = true) : '\x60' ∉ gap :=
  fun mem => absurd (h _ mem) (by decide)

theorem fences_quoteThen (text : String) (t : List Char) :
    fences (quoteThen text t) = fences text.toList + fences t := by
  rw [quoteThen, fences_cons_of_ne (by decide), fences_glue (by decide), fences_flatMap]

namespace Layout

variable {l : Layout}

theorem fences_field (gap : Blanks) (hname : fences name.toList = 0) (t : List Char) :
    fences (gap.val ++ quoteThen name (':' :: (l.space.val ++ t))) = fences t := by
  rw [fences_append gap.not_mem, fences_quoteThen, hname, Nat.zero_add,
    fences_cons_of_ne (by decide), fences_append l.space.not_mem]

theorem fences_entryThen (e : Explanation) (rest : List Char) :
    fences (l.entryThen e rest) =
      fences e.path.toList + fences e.text.toList + fences rest := by
  rw [entryThen, fences_cons_of_ne (by decide), fences_field l.path (by decide),
    fences_quoteThen, fences_cons_of_ne (by decide), fences_field l.text (by decide),
    fences_quoteThen, fences_append l.close.not_mem, fences_cons_of_ne (by decide),
    Nat.add_assoc]

theorem fences_moreThen (es : List Explanation) (rest : List Char) :
    fences (l.moreThen rest es) = fenceCount es + fences rest := by
  induction es with
  | nil => simp [moreThen, fenceCount]
  | cons e es ih =>
      rw [moreThen, fences_cons_of_ne (by decide), fences_append l.next.not_mem,
        fences_entryThen, ih, fenceCount, Nat.add_assoc _ (fenceCount es)]

theorem fences_listThen (e : Explanation) (es : List Explanation) (rest : List Char) :
    fences (l.listThen e es rest) = fenceCount (e :: es) + fences rest := by
  rw [listThen, fences_cons_of_ne (by decide), fences_append l.first.not_mem, fences_entryThen,
    fences_moreThen, fences_append l.last.not_mem, fences_cons_of_ne (by decide), fenceCount,
    Nat.add_assoc _ (fenceCount es)]

/-- **The fences of a written list** are those of its explanations. -/
theorem Text.fences_eq (h : Text l e es s) : fences s = fenceCount (e :: es) := by
  cases h with
  | list => rw [fences_listThen, fences, Nat.add_zero]
  | wrapped opening closing =>
      rw [wrappedThen, fences_cons_of_ne (by decide), fences_field opening (by decide),
        fences_listThen, fences_append closing.not_mem, fences_cons_of_ne (by decide),
        fences, Nat.add_zero]

end Layout

/-! ### After the first fence -/

/-- No string can be read after the first fence of a text. -/
def Quiet (s : List Char) : Prop :=
  ∀ before after, splitAtFence s = some (before, after) → Silent after

theorem quiet_nil : Quiet [] := fun _ _ h => by cases h

theorem Quiet.append (h : Quiet s) (hfront : '\x60' ∉ front) : Quiet (front ++ s) := by
  intro before after hsplit
  rw [splitAtFence_append hfront] at hsplit
  obtain ⟨⟨b, a⟩, hs, heq⟩ := Option.map_eq_some_iff.mp hsplit
  obtain ⟨-, rfl⟩ := Prod.mk.inj heq
  exact h _ _ hs

theorem Quiet.cons (h : Quiet s) (hc : c ≠ '\x60') : Quiet (c :: s) :=
  h.append (show '\x60' ∉ [c] by simpa using hc.symm)

theorem silent_escape (c : Char) (h : Silent s) : Silent (Writer.escape c ++ s) := by
  unfold Writer.escape
  split_ifs with hquote hslash
  case neg =>
    exact (silent_cons_iff (isPlain_iff.mpr ⟨hslash, hquote⟩)).mpr h
  all_goals exact silent_slash _

/-- What is left of a string is silent, if its end is followed by nothing that goes on. -/
theorem silent_flatMap (cs : List Char) (h : Stuck t) :
    Silent (cs.flatMap Writer.escape ++ '"' :: t) := by
  induction cs with
  | nil => exact silent_quote_iff.mpr h
  | cons c cs ih =>
      rw [List.flatMap_cons, List.append_assoc]
      exact silent_escape c ih

/-- A fence in a string leaves the rest of the string after it. -/
theorem Quiet.quoteThen (h : Quiet t) (text : String)
    (hstuck : fences text.toList = 0 ∨ Stuck t) : Quiet (quoteThen text t) := by
  refine Quiet.cons ?_ (by decide)
  intro before after hsplit
  rw [splitAtFence_glue (by decide), splitAtFence_flatMap] at hsplit
  cases htext : splitAtFence text.toList with
  | some parts =>
      rw [htext] at hsplit
      obtain ⟨-, rfl⟩ := Prod.mk.inj (Option.some.inj hsplit)
      refine silent_flatMap _ (hstuck.resolve_left fun hnone => ?_)
      rw [splitAtFence_eq_none_iff.mpr hnone] at htext
      cases htext
  | none =>
      rw [htext] at hsplit
      obtain ⟨⟨b, a⟩, ht, heq⟩ := Option.map_eq_some_iff.mp hsplit
      obtain ⟨-, rfl⟩ := Prod.mk.inj heq
      exact h _ _ ht

/-- When the opening quote of a string is read as a closing one, nothing goes on after it if
the string begins with a letter. -/
theorem stuck_quoteThen (c : Char) (hname : (name.toList.flatMap Writer.escape).head? = some c)
    (hc : isBlank c = false ∧ c ≠ ',' ∧ c ≠ ']' ∧ c ≠ '\x7d' ∧ c ≠ ':') :
    Stuck (quoteThen name t) := by
  obtain ⟨cs, hname⟩ := List.head?_eq_some_iff.mp hname
  refine stuck_quote fun d u heq => ?_
  rw [hname] at heq
  obtain ⟨rfl, -⟩ := List.cons.inj heq
  exact hc

theorem stuck_blanks (gap : Blanks) (h : Stuck s) : Stuck (gap.val ++ s) :=
  stuck_append h fun c mem => isPlain_of_isBlank (gap.property c mem)

namespace Layout

variable {l : Layout}

theorem quiet_field (gap : Blanks) (name : String) (hname : fences name.toList = 0)
    (h : Quiet t) : Quiet (gap.val ++ quoteThen name (':' :: (l.space.val ++ t))) := by
  have hvalue : Quiet (':' :: (l.space.val ++ t)) :=
    (h.append l.space.not_mem).cons (by decide)
  exact (hvalue.quoteThen name (.inl hname)).append gap.not_mem

theorem stuck_entryThen (e : Explanation) (rest : List Char) : Stuck (l.entryThen e rest) := by
  have hname : Stuck (quoteThen "file_path" (':' :: (l.space.val ++ quoteThen e.path (',' ::
      (l.text.val ++ quoteThen "explanation" (':' :: (l.space.val ++ quoteThen e.text
        (l.close.val ++ '\x7d' :: rest)))))))) := stuck_quoteThen 'f' (by decide) (by decide)
  exact stuck_cons (stuck_blanks l.path hname) (by decide)

theorem stuck_moreThen (h : Stuck rest) (es : List Explanation) : Stuck (l.moreThen rest es) := by
  cases es with
  | nil => exact h
  | cons e es => exact stuck_cons (stuck_blanks l.next (stuck_entryThen e _)) (by decide)

theorem quiet_entryThen (hstuck : Stuck rest) (h : Quiet rest) (e : Explanation) :
    Quiet (l.entryThen e rest) := by
  have hclose : Quiet (l.close.val ++ '\x7d' :: rest) :=
    (h.cons (by decide)).append l.close.not_mem
  have hstop : Stuck (l.close.val ++ '\x7d' :: rest) :=
    stuck_blanks l.close (stuck_cons hstuck (by decide))
  have hnext := quiet_field (l := l) l.text "explanation" (by decide)
    (hclose.quoteThen e.text (.inr hstop))
  have hname : Stuck (quoteThen "explanation" (':' :: (l.space.val ++ quoteThen e.text
      (l.close.val ++ '\x7d' :: rest)))) := stuck_quoteThen 'e' (by decide) (by decide)
  have hpath : Quiet (quoteThen e.path (',' :: (l.text.val ++ quoteThen "explanation" (':' ::
      (l.space.val ++ quoteThen e.text (l.close.val ++ '\x7d' :: rest)))))) :=
    (hnext.cons (by decide)).quoteThen e.path
      (.inr (stuck_cons (stuck_blanks l.text hname) (by decide)))
  exact (quiet_field l.path _ (by decide) hpath).cons (by decide)

theorem quiet_moreThen (hstuck : Stuck rest) (h : Quiet rest) (es : List Explanation) :
    Quiet (l.moreThen rest es) := by
  induction es with
  | nil => exact h
  | cons e es ih =>
      have hentry := quiet_entryThen (l := l) (stuck_moreThen hstuck es) ih e
      exact (hentry.append l.next.not_mem).cons (by decide)

theorem quiet_listThen (hstuck : Stuck rest) (h : Quiet rest) (e : Explanation)
    (es : List Explanation) : Quiet (l.listThen e es rest) := by
  have hend : Stuck (l.last.val ++ ']' :: rest) :=
    stuck_blanks l.last (stuck_cons hstuck (by decide))
  have hmore := quiet_moreThen (l := l) hend ((h.cons (by decide)).append l.last.not_mem) es
  have hentry := quiet_entryThen (l := l) (stuck_moreThen hend es) hmore e
  exact (hentry.append l.first.not_mem).cons (by decide)

/-- **After the first fence of a written list** no string can be read, whatever plain
characters stand after the list. -/
theorem Text.quiet (h : Text l e es s) (hplain : ∀ c ∈ gap, isPlain c = true)
    (hgap : '\x60' ∉ gap) : Quiet (s ++ gap) := by
  have hstuck : Stuck gap := by
    simpa using stuck_append stuck_nil hplain
  have hquiet : Quiet gap := by
    simpa using quiet_nil.append hgap
  cases h with
  | list =>
      have hlist := quiet_listThen (l := l) hstuck hquiet e es
      rwa [show l.listThen e es [] ++ gap = l.listThen e es gap by simp [listThen_eq]]
  | wrapped opening closing =>
      have hstop : Stuck (closing.val ++ '\x7d' :: gap) :=
        stuck_blanks closing (stuck_cons hstuck (by decide))
      have hlist := quiet_listThen (l := l) hstop
        ((hquiet.cons (by decide)).append closing.not_mem) e es
      have hall := (quiet_field (l := l) opening "relevant_file_explanations" (by decide)
        hlist).cons (c := '\x7b') (by decide)
      simpa [wrappedThen, listThen_eq, quoteThen] using hall

end Layout

/-! ### What is read from a part -/

/-- No explanation is read from a value without strings and fields, or from a string. -/
theorem decodeReply_wordless {v : Value} (h : Wordless v ∨ ∃ s, v = .string s)
    {found : List Explanation} (hok : decodeReply v = .ok found) : found = [] := by
  have hitem {item : Value} (hw : Wordless item) {e : Explanation} :
      Explanation.shape.decode true item ≠ .ok e := by
    intro hdecode
    cases hw with
    | null => cases hdecode
    | bool => cases hdecode
    | number => cases hdecode
    | object => cases hdecode
    | @array vs hvs =>
        rcases vs with _ | ⟨first, vs⟩
        · cases hdecode
        · have hfirst := hvs first (.head _)
          cases hfirst <;> cases hdecode
  rcases h with hw | ⟨s, rfl⟩
  · cases hw with
    | null => cases hok
    | bool => cases hok
    | number => cases hok
    | object => cases hok
    | @array vs hvs =>
        rcases vs with _ | ⟨first, vs⟩
        · simpa [decodeReply, decodeList, Decode.list] using hok.symm
        · simp only [decodeReply, decodeList, Decode.list, List.mapM_cons,
            Attempt.bind_eq_ok_iff] at hok
          obtain ⟨e, hfirst, -⟩ := hok
          exact absurd hfirst (hitem (hvs first (.head _)))
  · cases hok

theorem explanationsOf_eq_ok_iff {reply : String} :
    explanationsOf reply = .ok explanations ↔ explanations ≠ [] ∧
      ∃ v, Value.parse (replyBody reply) = .ok v ∧ decodeReply v = .ok explanations := by
  unfold explanationsOf
  cases hparse : Value.parse (replyBody reply) with
  | error fault => simp
  | ok v =>
      cases hdecode : decodeReply v with
      | error fault => simp [hdecode]
      | ok found =>
          cases found with
          | nil => simp +contextual [hdecode]
          | cons first others =>
              simp only [Except.ok.injEq, hdecode, exists_eq_left']
              refine ⟨fun heq => ⟨heq ▸ List.cons_ne_nil _ _, heq⟩, fun h => h.2⟩

theorem toOption_eq_none {α β : Type} {result : Except α β} (h : ∀ x, result ≠ .ok x) :
    result.toOption = none := by
  cases result with
  | error => rfl
  | ok x => exact absurd rfl (h x)

theorem isPlain_of_isTextBlank (hc : Text.isBlank c = true) : isPlain c = true :=
  isPlain_of rfl rfl hc

theorem isPlain_of_isTagLetter (hc : isTagLetter c = true) : isPlain c = true :=
  isPlain_of rfl rfl hc

/-- The block of a text in which no string can be read after its first fence. -/
theorem Quiet.silent_block (h : Quiet s) (hblock : fencedBlock? s = some block) : Silent block := by
  obtain ⟨before, after, rest, hsplit, hend⟩ := fencedBlock?_eq_some_iff.mp hblock
  have hafter := silent_dropWhile (fun _ => isPlain_of_isTagLetter) (h before after hsplit)
  refine hafter.of_isPrefix ?_
  rw [eq_of_splitAtFence hend, List.append_assoc]
  exact List.prefix_append ..

theorem silent_trim (h : Silent s) : Silent (Text.trim (String.ofList s)).toList := by
  have hprefix := Text.trim_isPrefix (String.ofList s)
  rw [String.toList_ofList] at hprefix
  exact (silent_dropWhile (fun _ => isPlain_of_isTextBlank) h).of_isPrefix hprefix

/-- No explanation is read from a silent text. -/
theorem explanationsOf_silent {reply body : String} (hbody : replyBody reply = body)
    (h : Silent body.toList) : (explanationsOf reply).toOption = none := by
  refine toOption_eq_none fun found hok => ?_
  obtain ⟨hne, v, hparse, hdecode⟩ := explanationsOf_eq_ok_iff.mp hok
  rw [hbody] at hparse
  exact hne (decodeReply_wordless (Value.parse_silent hparse h) hdecode)

/-! ### Replies -/

/-- What stands around explanations in a reply: blanks, and around a block what is said before
and after it, and its language tag. -/
structure Frame where
  before : String
  tag : String
  opening : String
  closing : String
  after : String
  plain_before : '\x60' ∉ before.toList
  letter_tag : ∀ c ∈ tag.toList, isTagLetter c = true
  blank_opening : ∀ c ∈ opening.toList, Text.isBlank c = true
  blank_closing : ∀ c ∈ closing.toList, Text.isBlank c = true

namespace Frame

/-- A reply without a block. -/
def bare (f : Frame) (written : String) : String :=
  f.opening ++ written ++ f.closing

/-- A reply with a block. -/
def fenced (f : Frame) (written : String) : String :=
  f.before ++ "```" ++ f.tag ++ f.opening ++ written ++ f.closing ++ "```" ++ f.after

theorem toList_bare (f : Frame) (written : String) :
    (f.bare written).toList = f.opening.toList ++ (written.toList ++ f.closing.toList) := by
  simp [bare]

theorem toList_fenced (f : Frame) (written : String) :
    (f.fenced written).toList = f.before.toList ++ (fence ++ (f.tag.toList ++ (f.opening.toList ++
      (written.toList ++ (f.closing.toList ++ (fence ++ f.after.toList)))))) := by
  simp [fenced, fence]

theorem isTagLetter_eq_false_of_isBlank (hc : Text.isBlank c = true) : isTagLetter c = false := by
  rw [← Bool.not_eq_true]
  intro hletter
  simp only [isTagLetter, Text.isBlank, Char.le_def, UInt32.le_iff_toNat_le, Bool.or_eq_true,
    Bool.and_eq_true, decide_eq_true_eq, beq_iff_eq] at hc hletter
  change (97 ≤ c.toNat ∧ c.toNat ≤ 122 ∨ 65 ≤ c.toNat ∧ c.toNat ≤ 90) at hletter
  omega

theorem dropWhile_tag (f : Frame) {first : Char} (hfirst : isTagLetter first = false)
    (s : List Char) :
    (f.tag.toList ++ (f.opening.toList ++ first :: s)).dropWhile isTagLetter =
      f.opening.toList ++ first :: s := by
  rw [List.dropWhile_append_of_pos f.letter_tag]
  cases hopening : f.opening.toList with
  | nil => rw [List.nil_append, List.dropWhile_cons_of_neg (by simp [hfirst])]
  | cons c opening =>
      have hc := isTagLetter_eq_false_of_isBlank (f.blank_opening c (by simp [hopening]))
      rw [List.cons_append, List.dropWhile_cons_of_neg (by simp [hc])]

end Frame

namespace Layout

variable {l : Layout} {written reply body : String}

/-- Blanks around written explanations are trimmed. -/
theorem Text.trim_eq (h : Text l e es written.toList) (f : Frame) :
    Text.trim (String.ofList (f.opening.toList ++ (written.toList ++ f.closing.toList))) =
      written := by
  obtain ⟨first, middle, last, heq, hfirst, hlast⟩ := h.exists_ends
  rw [← String.toList_inj, ← List.append_assoc, heq]
  refine Text.toList_trim_of_ends f.blank_opening f.blank_closing ?_ ?_
  · rcases hfirst with rfl | rfl <;> decide
  · rcases hlast with rfl | rfl <;> decide

theorem Text.explanationsOf_eq (h : Text l e es written.toList)
    (hbody : replyBody reply = written) : explanationsOf reply = .ok (e :: es) := by
  obtain ⟨v, hparse, hdecode⟩ := h.parse
  rw [String.ofList_toList, ← hbody] at hparse
  exact explanationsOf_eq_ok_iff.mpr ⟨List.cons_ne_nil _ _, v, hparse, hdecode⟩

/-- **A bare reply** gives the explanations that it holds if there is one fence in them at
most. -/
theorem Text.toOption_bare (h : Text l e es written.toList) (f : Frame) :
    (explanationsOf (f.bare written)).toOption =
      if fenceCount (e :: es) ≤ 1 then some (e :: es) else none := by
  have hopening := not_mem_of_isTextBlank f.blank_opening
  have hclosing := not_mem_of_isTextBlank f.blank_closing
  have hfences : fences (f.bare written).toList = fenceCount (e :: es) := by
    rw [f.toList_bare, fences_append hopening, fences_append_right _ hclosing, h.fences_eq]
  split_ifs with hfew
  · have hblock := fencedBlock?_eq_none_iff.mpr (hfences ▸ hfew)
    have hbody : replyBody (f.bare written) = written := by
      have htrim := h.trim_eq f
      rw [← f.toList_bare, String.ofList_toList] at htrim
      rw [replyBody, hblock]
      exact htrim
    rw [h.explanationsOf_eq hbody]
    rfl
  · obtain ⟨block, hblock⟩ := Option.ne_none_iff_exists'.mp
      (mt fencedBlock?_eq_none_iff.mp (hfences ▸ hfew))
    have hbody : replyBody (f.bare written) = Text.trim (String.ofList block) := by
      rw [replyBody, hblock]
    have hquiet : Quiet (f.bare written).toList := by
      rw [f.toList_bare]
      exact (h.quiet (fun c mem => isPlain_of_isTextBlank (f.blank_closing c mem)) hclosing).append
        hopening
    exact explanationsOf_silent hbody (silent_trim (hquiet.silent_block hblock))

/-- A number does not begin with a bracket. -/
theorem ne_number_of_bracket {first : Char} {v : Value} (hparse : Value.parse body = .ok v)
    (hbody : body.toList <+: first :: s) (hfirst : first = '[' ∨ first = '\x7b') (n : Number) :
    v ≠ .number n := by
  rintro rfl
  obtain ⟨rest, hvalue, -⟩ := Value.parse_eq_ok_iff.mp hparse
  have hread := value_eq_ok_iff.mp hvalue
  rcases List.prefix_cons_iff.mp hbody with hnil | ⟨t, ht, -⟩
  · rw [hnil] at hread
    exact hread.ne_nil rfl
  · rw [ht] at hread
    rcases hfirst with rfl | rfl
    · cases (hread : ValueRead _ _ _ ('[' :: t) _ _) with
      | number hdigit => cases hdigit
    · cases (hread : ValueRead _ _ _ ('\x7b' :: t) _ _) with
      | number hdigit => cases hdigit

/-- What stands before a fence in written explanations is no value. -/
theorem Text.parse_part (h : Text l e es written.toList)
    (hcut : written.toList = before ++ fence ++ after) (hbody : body.toList <+: before)
    (v : Value) : Value.parse body ≠ .ok v := by
  intro hparse
  obtain ⟨first, middle, last, heq, hfirst, -⟩ := h.exists_ends
  have hwhole : body.toList <+: first :: (middle ++ [last]) := by
    rw [← List.cons_append, ← heq, hcut, List.append_assoc]
    exact hbody.trans (List.prefix_append ..)
  have hno := ne_number_of_bracket hparse hwhole hfirst
  obtain ⟨other, hother⟩ := hbody
  obtain ⟨w, hwhole, -⟩ := h.parse
  have hsplit : String.ofList written.toList = body ++ String.ofList (other ++ fence ++ after) := by
    rw [← String.toList_inj]
    simp [hcut, ← hother]
  rw [hsplit] at hwhole
  obtain ⟨-, hblank⟩ := Value.parse_of_parse_append hparse hno hwhole
  rw [String.toList_ofList, skipBlanks, List.dropWhile_eq_nil_iff] at hblank
  exact absurd (hblank '\x60' (by simp [fence])) (by decide)

/-- What a block holds before a fence in written explanations begins with a bracket, and is not
trimmed there. -/
theorem Text.trim_part (h : Text l e es written.toList) (f : Frame)
    (hcut : written.toList = before ++ fence ++ after) :
    (Text.trim (String.ofList (f.opening.toList ++ before))).toList <+: before := by
  obtain ⟨first, middle, last, heq, hfirst, -⟩ := h.exists_ends
  have hstart : before.dropWhile Text.isBlank = before := by
    cases before with
    | nil => rfl
    | cons c before =>
        obtain rfl : first = c := by
          rw [hcut] at heq
          simpa using (congrArg List.head? heq).symm
        exact List.dropWhile_cons_of_neg (by rcases hfirst with rfl | rfl <;> decide)
  have hprefix := Text.trim_isPrefix (String.ofList (f.opening.toList ++ before))
  rwa [String.toList_ofList, List.dropWhile_append_of_pos f.blank_opening, hstart] at hprefix

/-- The block of a reply begins after the language tag, and ends with what was written or at the
first fence in it. -/
theorem Text.fencedBlock?_eq (h : Text l e es written.toList) (f : Frame) :
    fencedBlock? (f.fenced written).toList = some (f.opening.toList ++
      match splitAtFence written.toList with
      | some (before, _) => before
      | none => written.toList ++ f.closing.toList) := by
  obtain ⟨first, middle, last, heq, hfirst, hlast⟩ := h.exists_ends
  have hletter : isTagLetter first = false := by
    rcases hfirst with rfl | rfl <;> decide
  have hbacktick : last ≠ '\x60' := by
    rcases hlast with rfl | rfl <;> decide
  have hdrop := f.dropWhile_tag hletter (middle ++ [last] ++
    (f.closing.toList ++ (fence ++ f.after.toList)))
  rw [← List.cons_append, ← List.cons_append, ← heq] at hdrop
  have hends := splitAtFence_concat_append hbacktick (first :: middle)
    (f.closing.toList ++ (fence ++ f.after.toList))
  rw [← heq, splitAtFence_append (not_mem_of_isTextBlank f.blank_closing), splitAtFence_fence]
    at hends
  have hsplit : splitAtFence (f.fenced written).toList = some (f.before.toList, f.tag.toList ++
      (f.opening.toList ++ (written.toList ++ (f.closing.toList ++
        (fence ++ f.after.toList))))) := by
    rw [f.toList_fenced, splitAtFence_append f.plain_before, splitAtFence_fence]
    simp
  simp only [fencedBlock?, hsplit, Option.bind_eq_bind, Option.bind_some, hdrop, hends,
    splitAtFence_append (not_mem_of_isTextBlank f.blank_opening)]
  cases splitAtFence written.toList <;> simp

/-- **A reply with a block** gives the explanations that the block holds if there is no fence
in them. -/
theorem Text.toOption_fenced (h : Text l e es written.toList) (f : Frame) :
    (explanationsOf (f.fenced written)).toOption =
      if fenceCount (e :: es) = 0 then some (e :: es) else none := by
  have hblock := h.fencedBlock?_eq f
  cases hsplit : splitAtFence written.toList with
  | none =>
      rw [hsplit] at hblock
      have hbody : replyBody (f.fenced written) = written := by
        rw [replyBody, hblock]
        exact h.trim_eq f
      rw [h.explanationsOf_eq hbody, if_pos (h.fences_eq ▸ splitAtFence_eq_none_iff.mp hsplit)]
      rfl
  | some parts =>
      obtain ⟨before, after⟩ := parts
      rw [hsplit] at hblock
      have hcut := eq_of_splitAtFence hsplit
      have hbody : replyBody (f.fenced written) =
          Text.trim (String.ofList (f.opening.toList ++ before)) := by
        rw [replyBody, hblock]
      have hmany : fenceCount (e :: es) ≠ 0 := by
        rw [← h.fences_eq, fences_of_splitAtFence hsplit]
        omega
      rw [if_neg hmany]
      refine toOption_eq_none fun found hok => ?_
      obtain ⟨-, v, hparse, -⟩ := explanationsOf_eq_ok_iff.mp hok
      exact h.parse_part hcut (hbody ▸ h.trim_part f hcut) v hparse

end Layout

/-- **Which replies give the explanations that they hold**, as a list or an object around it, in
any layout: a bare reply does if there is one fence in the explanations at most, one with a
block if there is none. All others are faults. -/
theorem explanationsOf_serialised {written : String} (hne : explanations ≠ [])
    (h : Serialises explanations written) (f : Frame) :
    (explanationsOf (f.bare written)).toOption =
        (if fenceCount explanations ≤ 1 then some explanations else none) ∧
      (explanationsOf (f.fenced written)).toOption =
        if fenceCount explanations = 0 then some explanations else none := by
  obtain ⟨e, es, rfl⟩ := List.exists_cons_of_ne_nil hne
  obtain ⟨l, htext⟩ := Layout.exists_text h
  exact ⟨htext.toOption_bare f, htext.toOption_fenced f⟩

/-- A line of words, a block, and nothing after it. -/
def jsonFrame : Frame where
  before := "Here:\n"
  tag := "json"
  opening := "\n"
  closing := "\n"
  after := ""
  plain_before := by decide
  letter_tag := List.all_eq_true.mp rfl
  blank_opening := List.all_eq_true.mp rfl
  blank_closing := List.all_eq_true.mp rfl

/-- An explanation of how a block is opened. -/
def oneFence : List Explanation :=
  [⟨"a.md", "opens a block with ```"⟩]

theorem explanationsOf_serialised_oneFence :
    oneFence ≠ [] ∧ Serialises oneFence (explanationsValue oneFence).compact ∧
      (explanationsOf (jsonFrame.bare (explanationsValue oneFence).compact)).toOption =
        some oneFence ∧
      (explanationsOf (jsonFrame.fenced (explanationsValue oneFence).compact)).toOption = none := by
  have hne : oneFence ≠ [] := by decide
  have hwritten : Serialises oneFence (explanationsValue oneFence).compact := .compact _
  have hbare : fenceCount oneFence ≤ 1 := by decide
  have hfenced : fenceCount oneFence ≠ 0 := by decide
  have h := explanationsOf_serialised hne hwritten jsonFrame
  rw [if_pos hbare, if_neg hfenced] at h
  exact ⟨hne, hwritten, h⟩

/-- An explanation that quotes code. -/
def twoFences : List Explanation :=
  [⟨"a.py", "use ```x``` here"⟩]

/-- A bare list with one explanation, which is not accepted. -/
theorem explanationsOf_twoFences :
    twoFences ≠ [] ∧ Serialises twoFences (explanationsValue twoFences).compact ∧
      (explanationsOf (explanationsValue twoFences).compact).toOption = none :=
  ⟨by decide, .compact _, by decide +kernel⟩

end Workbench.Index
