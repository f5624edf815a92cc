/-
# What a prompt shows

A prompt shows hits as JSON between two fences, after the query and before an example that is
fenced too. Neither the query nor the hits are searched for fences of their own, and a fence in
them counts like any other: then what stands between the first two fences of the prompt is
something else.

* `between?` — what stands between the first two fences of a text.
* `Recovers` — that is JSON which decodes to the hits.
* `recovers_iff` — **which prompts give their hits back**: those without a fence in the query,
  the labels and the texts; or else the query alone decides, and it has to spell the hits out.
-/

import Workbench.Proofs.Index.Replies
import Workbench.Proofs.Json.Compact
import Workbench.Proofs.Json.Remaining

namespace Workbench.Index

open Workbench.Json Workbench.Json.Reader

variable {query : String} {k : Nat} {hit : Hit} {hits : List Hit}
  {s before after rest block : List Char}

/-- What stands between the first two fences of a text. -/
def between? (s : List Char) : Option (List Char) := do
  let (_, after) ← splitAtFence s
  let (block, _) ← splitAtFence after
  return block

/-- A hit as data: its label and its text. -/
def Hit.entry (hit : Hit) : Value :=
  .ofFields [("file_path", .string hit.label), ("code_snippet", .string hit.text)]

/-- What stands between the first two fences of a text is JSON, and it decodes to exactly the
hits, in order. -/
def Recovers (hits : List Hit) (s : List Char) : Prop :=
  ∃ block, between? s = some block ∧
    Value.parse (String.ofList block) = .ok (.array (hits.map Hit.entry))

/-- No fence is in the label and the text of a hit. -/
def Hit.Fenceless (hit : Hit) : Prop :=
  fences hit.label.toList = 0 ∧ fences hit.text.toList = 0

instance (hit : Hit) : Decidable hit.Fenceless :=
  inferInstanceAs (Decidable (_ ∧ _))

theorem recovers_of_between (h : between? s = some block) :
    Recovers hits s ↔ Value.parse (String.ofList block) = .ok (.array (hits.map Hit.entry)) := by
  simp [Recovers, h]

/-! ### The listing -/

/-- The fields of a hit in the order in which they are written. -/
def Hit.written (hit : Hit) : Value :=
  .object [("file_path", .string hit.label), ("code_snippet", .string hit.text)]

theorem Hit.textual_written (hit : Hit) : Textual 1 hit.written := by
  refine .object fun f mem => ?_
  simp only [List.mem_cons, List.not_mem_nil, or_false] at mem
  rcases mem with rfl | rfl <;> exact .string ..

theorem ordered_written (hits : List Hit) :
    (Value.array (hits.map Hit.written)).ordered = .array (hits.map Hit.entry) := by
  have hitems : Value.orderedItems (hits.map Hit.written) = hits.map Hit.entry := by
    induction hits with
    | nil => rfl
    | cons hit hits ih =>
        rw [List.map_cons, Value.orderedItems, ih]
        rfl
  rw [Value.ordered, hitems]

/-- A listed hit, and what follows it. -/
theorem promptEntry_append (hit : Hit) (rest : List Char) :
    promptEntry hit ++ rest = '\x7b' :: quoteThen "file_path" (':' :: quoteThen hit.label (',' ::
      quoteThen "code_snippet" (':' :: quoteThen hit.text ('\x7d' :: rest)))) := by
  have hpath : "\x7b\"file_path\":".toList = '\x7b' :: (Writer.quote "file_path" ++ [':']) := by
    decide
  have htext : ",\"code_snippet\":".toList = ',' :: (Writer.quote "code_snippet" ++ [':']) := by
    decide
  unfold promptEntry
  simp only [hpath, htext, ← quote_append, List.append_assoc, List.cons_append, List.nil_append]

theorem compact_written (hits : List Hit) :
    Writer.compact (.array (hits.map Hit.written)) = promptListing hits := by
  have hentry (hit : Hit) : Writer.compact hit.written = promptEntry hit := by
    rw [← List.append_nil (promptEntry hit), promptEntry_append]
    simp only [Hit.written, Writer.compact, Writer.compactFields, Writer.join, ← quote_append,
      List.append_assoc, List.cons_append, List.nil_append]
  rw [Writer.compact, compactItems_eq_map, List.map_map, promptListing]
  congr 3
  exact List.map_congr_left fun hit _ => hentry hit

/-- **The listing of hits is read back.** -/
theorem parse_promptListing (hits : List Hit) :
    Value.parse (String.ofList (promptListing hits)) = .ok (.array (hits.map Hit.entry)) := by
  have htext : Textual 2 (.array (hits.map Hit.written)) :=
    .array (List.forall_mem_map.mpr fun hit _ => hit.textual_written)
  have hparse := Value.parse_compact htext (by decide)
  rwa [Value.compact, compact_written, ordered_written] at hparse

theorem fences_promptEntry (hit : Hit) (rest : List Char) :
    fences (promptEntry hit ++ rest) =
      fences hit.label.toList + fences hit.text.toList + fences rest := by
  rw [promptEntry_append]
  simp only [fences_quoteThen, fences_cons_of_ne (show ':' ≠ '\x60' by decide),
    fences_cons_of_ne (show ',' ≠ '\x60' by decide),
    fences_cons_of_ne (show '\x7b' ≠ '\x60' by decide),
    fences_cons_of_ne (show '\x7d' ≠ '\x60' by decide)]
  rw [show fences "file_path".toList = 0 by decide, show fences "code_snippet".toList = 0 by decide]
  omega

/-- **The fences of the listing** are those of the hits. -/
theorem fences_promptListing_eq_zero_iff :
    fences (promptListing hits) = 0 ↔ ∀ hit ∈ hits, hit.Fenceless := by
  have hcommas (hits : List Hit) : fences (commas (hits.map promptEntry) ++ [']']) = 0 ↔
      ∀ hit ∈ hits, hit.Fenceless := by
    induction hits with
    | nil => simp [commas, fences]
    | cons hit hits ih =>
        rw [commas] at ih
        rw [List.map_cons, commas, List.flatMap_cons, List.cons_append, List.cons_append,
          fences_cons_of_ne (by decide), List.append_assoc, fences_promptEntry,
          List.forall_mem_cons, ← ih, Hit.Fenceless]
        omega
  rw [promptListing, List.cons_append, fences_cons_of_ne (by decide)]
  cases hits with
  | nil => simp [Writer.join, fences]
  | cons hit hits =>
      rw [List.map_cons, join_cons, List.append_assoc, fences_promptEntry, List.forall_mem_cons,
        ← hcommas hits, Hit.Fenceless]
      omega

/-- What stands before a fence in the listing is no value. -/
theorem parse_promptListing_part (hcut : splitAtFence (promptListing hits) = some (before, after))
    (v : Value) : Value.parse (String.ofList before) ≠ .ok v := by
  intro hparse
  have heq := eq_of_splitAtFence hcut
  have hprefix : (String.ofList before).toList <+:
      '[' :: (Writer.join [','] (hits.map promptEntry) ++ [']']) := by
    rw [String.toList_ofList, ← List.cons_append, ← promptListing, heq, List.append_assoc]
    exact List.prefix_append ..
  have hno := Layout.ne_number_of_bracket hparse hprefix (.inl rfl)
  have hwhole := parse_promptListing hits
  rw [heq, List.append_assoc, String.ofList_append] at hwhole
  obtain ⟨-, hblank⟩ := Value.parse_of_parse_append hparse hno hwhole
  rw [String.toList_ofList, skipBlanks, List.dropWhile_eq_nil_iff] at hblank
  exact absurd (hblank '\x60' (by simp [fence])) (by decide)

/-! ### The first two fences of a prompt -/

/-- What a prompt says before the query. -/
def beforeQuery : List Char :=
  "Given a search term ".toList

/-- What a prompt says between the query and the hits. -/
def afterQuery (k : Nat) : List Char :=
  ", a vector database performing similarity search of embeddings between the search term and code snippets of files and functions/methods in the project returned ".toList ++
    (toString k).toList ++
    " relevant documents. For each document, provide a description explaining why the search term is relevant to the code retrieved from the database. Below is a list of the filepaths and their corresponding code snippets in JSON format:\n".toList

theorem toList_promptFor (query : String) (k : Nat) (hits : List Hit) :
    (promptFor query k hits).toList = beforeQuery ++ (query.toList ++
      (afterQuery k ++ (fence ++ (promptListing hits ++ (fence ++ promptClosing))))) := by
  unfold promptFor promptOpening beforeQuery afterQuery
  simp only [String.toList_ofList, String.toList_append, List.append_assoc]

theorem not_mem_beforeQuery : '\x60' ∉ beforeQuery := by
  decide

/-- A text that is given by its characters, and ends with some of them. -/
theorem exists_toList_ofList {cs ending : List Char} (hending : ending <:+ cs)
    (hcs : '\x60' ∉ cs) :
    ∃ words, '\x60' ∉ words ∧ (String.ofList cs).toList = words ++ ending := by
  obtain ⟨words, rfl⟩ := hending
  exact ⟨words, fun mem => hcs (List.mem_append_left _ mem), String.toList_ofList⟩

set_option maxRecDepth 4000 in
/-- The words between the query and the hits begin with a comma, and no bracket closes their last
line. -/
theorem exists_afterQuery (k : Nat) :
    ∃ words, '\x60' ∉ words ∧ afterQuery k = ',' :: (words ++ [':', '\n']) := by
  have hdigits : '\x60' ∉ Nat.toDigits 10 k := fun mem =>
    absurd (Nat.isDigit_of_mem_toDigits (by decide) (by decide) mem) (by decide)
  have hopening : ∃ words, '\x60' ∉ words ∧
      ", a vector database performing similarity search of embeddings between the search term and code snippets of files and functions/methods in the project returned ".toList =
        ',' :: words :=
    ⟨_, by decide, String.toList_ofList⟩
  have hclosing : ∃ words, '\x60' ∉ words ∧
      " relevant documents. For each document, provide a description explaining why the search term is relevant to the code retrieved from the database. Below is a list of the filepaths and their corresponding code snippets in JSON format:\n".toList =
        words ++ [':', '\n'] :=
    exists_toList_ofList (by decide) (by decide)
  obtain ⟨opening, hno, hopening⟩ := hopening
  obtain ⟨closing, hnone, hclosing⟩ := hclosing
  refine ⟨opening ++ ((toString k).toList ++ closing), by simp [hno, hdigits, hnone], ?_⟩
  unfold afterQuery
  simp only [hopening, hclosing, List.append_assoc, List.cons_append]

/-- **The first fence of a text and the words after it** is that of the text, if it has one. -/
theorem splitAtFence_afterQuery (k : Nat) (s t : List Char) :
    splitAtFence (s ++ (afterQuery k ++ t)) =
      match splitAtFence s with
      | some (before, after) => some (before, after ++ (afterQuery k ++ t))
      | none => (splitAtFence t).map fun (before, after) =>
          (s ++ (afterQuery k ++ before), after) := by
  obtain ⟨words, hwords, heq⟩ := exists_afterQuery k
  have hquiet : '\x60' ∉ words ++ [':', '\n'] := by simpa using hwords
  rw [heq, List.cons_append, splitAtFence_glue (by decide), splitAtFence_append hquiet]
  cases splitAtFence s with
  | none => simp [Function.comp_def]
  | some parts => rfl

/-- Without a fence in the query, the block begins with the listing, and ends with it or at the
first fence in it. -/
theorem between?_of_fenceless (hquery : fences query.toList = 0) (k : Nat) (hits : List Hit) :
    between? (promptFor query k hits).toList =
      some (match splitAtFence (promptListing hits) with
        | some (before, _) => before
        | none => promptListing hits) := by
  have hopening : splitAtFence (promptFor query k hits).toList =
      some (beforeQuery ++ (query.toList ++ (afterQuery k ++ [])),
        promptListing hits ++ (fence ++ promptClosing)) := by
    rw [toList_promptFor, splitAtFence_append not_mem_beforeQuery, splitAtFence_afterQuery,
      splitAtFence_eq_none_iff.mpr hquery, splitAtFence_fence]
    rfl
  have hclosing : splitAtFence (promptListing hits ++ (fence ++ promptClosing)) =
      match splitAtFence (promptListing hits) with
      | some (before, after) => some (before, after ++ (fence ++ promptClosing))
      | none => some (promptListing hits, promptClosing) := by
    rw [promptListing, splitAtFence_concat_append (by decide), splitAtFence_fence]
    cases splitAtFence _ with
    | none => simp
    | some parts => rfl
  rw [between?, hopening]
  simp only [Option.bind_eq_bind, Option.bind_some, hclosing]
  cases splitAtFence (promptListing hits) with
  | none => rfl
  | some parts => rfl

/-- With one fence in the query, the block ends where the listing begins. -/
theorem between?_of_one (hquery : splitAtFence query.toList = some (before, after))
    (hone : splitAtFence after = none) (k : Nat) (hits : List Hit) :
    between? (promptFor query k hits).toList = some (after ++ afterQuery k) := by
  rw [between?, toList_promptFor, splitAtFence_append not_mem_beforeQuery,
    splitAtFence_afterQuery, hquery]
  simp only [Option.map_some, Option.bind_eq_bind, Option.bind_some]
  rw [splitAtFence_afterQuery, hone, splitAtFence_fence]
  simp

/-- With two fences in the query, the block is one of the query. -/
theorem between?_of_two (hblock : between? query.toList = some block) (k : Nat)
    (hits : List Hit) : between? (promptFor query k hits).toList = some block := by
  obtain ⟨⟨before, after⟩, hquery, hrest⟩ := Option.bind_eq_some_iff.mp hblock
  obtain ⟨⟨inner, tail⟩, hinner, heq⟩ := Option.bind_eq_some_iff.mp hrest
  obtain rfl : inner = block := by simpa using heq
  rw [between?, toList_promptFor, splitAtFence_append not_mem_beforeQuery,
    splitAtFence_afterQuery, hquery]
  simp only [Option.map_some, Option.bind_eq_bind, Option.bind_some]
  rw [splitAtFence_afterQuery, hinner]
  rfl

/-! ### Which hits are recovered -/

theorem recovers_of_fenceless (hquery : fences query.toList = 0)
    (hhits : ∀ hit ∈ hits, hit.Fenceless) (k : Nat) :
    Recovers hits (promptFor query k hits).toList := by
  have hlisting := splitAtFence_eq_none_iff.mpr (fences_promptListing_eq_zero_iff.mpr hhits)
  have hblock := between?_of_fenceless hquery k hits
  rw [hlisting] at hblock
  exact ⟨_, hblock, parse_promptListing hits⟩

/-- **A fence in a hit** ends the block inside the hits. -/
theorem not_recovers_of_hits (hquery : fences query.toList = 0)
    (hhits : ¬ ∀ hit ∈ hits, hit.Fenceless) (k : Nat) :
    ¬ Recovers hits (promptFor query k hits).toList := by
  have hlisting := mt (fences_promptListing_eq_zero_iff.mp ∘ splitAtFence_eq_none_iff.mp) hhits
  obtain ⟨⟨before, after⟩, hcut⟩ := Option.ne_none_iff_exists'.mp hlisting
  have hblock := between?_of_fenceless hquery k hits
  rw [hcut] at hblock
  rw [recovers_of_between hblock]
  exact parse_promptListing_part hcut _

/-- **One fence in the query** opens a block that ends with the words before the hits. -/
theorem not_recovers_of_one (hquery : splitAtFence query.toList = some (before, after))
    (hone : splitAtFence after = none) (k : Nat) :
    ¬ Recovers hits (promptFor query k hits).toList := by
  rw [recovers_of_between (between?_of_one hquery hone k hits)]
  intro hparse
  obtain ⟨front, gap, hlist, hgap⟩ := Value.exists_of_parse_array hparse
  obtain ⟨words, -, hwords⟩ := exists_afterQuery k
  have hblank : ∀ c ∈ gap, isBlank c = true := List.dropWhile_eq_nil_iff.mp hgap
  -- The last two characters are a colon and a newline, and no bracket has only blanks after it.
  have hends : '\n' :: ':' :: (after ++ ',' :: words).reverse =
      gap.reverse ++ ']' :: front.reverse := by
    have := congrArg List.reverse hlist
    simpa [hwords] using this
  rcases hreverse : gap.reverse with _ | ⟨c, _ | ⟨d, more⟩⟩
  · simp [hreverse] at hends
  · simp [hreverse] at hends
  · have hd : isBlank d = true := hblank d (List.mem_reverse.mp (by simp [hreverse]))
    obtain rfl : ':' = d := by
      rw [hreverse] at hends
      exact (List.cons.inj (List.cons.inj hends).2).1
    cases hd

/-- **Which prompts give their hits back**: those without a fence in the query and the hits, and
those whose query has the hits between its own first two fences. -/
theorem recovers_iff (query : String) (k : Nat) (hits : List Hit) :
    Recovers hits (promptFor query k hits).toList ↔
      (fences query.toList = 0 ∧ ∀ hit ∈ hits, hit.Fenceless) ∨ Recovers hits query.toList := by
  cases hquery : splitAtFence query.toList with
  | none =>
      have hnone := splitAtFence_eq_none_iff.mp hquery
      have hown : ¬ Recovers hits query.toList := by simp [Recovers, between?, hquery]
      by_cases hhits : ∀ hit ∈ hits, hit.Fenceless
      · exact iff_of_true (recovers_of_fenceless hnone hhits k) (.inl ⟨hnone, hhits⟩)
      · simp [hhits, hown, not_recovers_of_hits hnone hhits k]
  | some parts =>
      obtain ⟨before, after⟩ := parts
      have hsome : fences query.toList ≠ 0 := by
        rw [fences_of_splitAtFence hquery]
        omega
      cases hafter : splitAtFence after with
      | none =>
          have hown : ¬ Recovers hits query.toList := by simp [Recovers, between?, hquery, hafter]
          simp [hsome, hown, not_recovers_of_one hquery hafter k]
      | some inner =>
          have hblock : between? query.toList = some inner.1 := by simp [between?, hquery, hafter]
          simp [hsome, recovers_of_between hblock,
            recovers_of_between (between?_of_two hblock k hits)]

/-- A hit in a document that shows a block of code. -/
def fencedHit : Hit :=
  ⟨"a.md", none, .file, 0, "```\nx\n```\n", .zero⟩

/-- It is not recovered from a prompt: the block ends inside its text. -/
theorem fencedHit_not_recovered :
    ¬ Recovers [fencedHit] (promptFor "q" 1 [fencedHit]).toList :=
  not_recovers_of_hits (by decide) (by decide) 1

end Workbench.Index
