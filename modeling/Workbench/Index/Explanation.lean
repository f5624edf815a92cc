/-
# Explanations

Why search hits match a query, in the words of a generator. All hits are explained
by one reply, which must name the paths of the hits and no others; a path that is
explained twice keeps its first explanation.

* `promptFor` — what the generator is asked.
* `explanationsOf` — the explanations that a reply holds: a list, or an object around
  one, bare or between code fences.
* `align` — the explanations in the order of the hits.
* `explain` — all of it.
-/

import Workbench.Index.Fault
import Workbench.Json.Decode
import Workbench.Code.Unit

namespace Workbench.Index

open Workbench.Json Workbench.Service Workbench.Text Workbench.Vector

/-- A search hit. -/
structure Hit where
  path : String
  name : Option String
  kind : Code.UnitKind
  index : Nat
  text : String
  score : Single
  deriving DecidableEq, Repr

/-- How a hit is named: by its path, and after a colon its name if it is a definition. -/
def Hit.label (hit : Hit) : String :=
  match hit.name with
  | some name => hit.path ++ ":" ++ name
  | none => hit.path

/-- Why what a path names is relevant. -/
structure Explanation where
  path : String
  text : String
  deriving DecidableEq, Repr

/-- What a generator is told to be. -/
def systemPrompt : String :=
  "You explain code search results to a software engineer. Respond with JSON only."

/-- What encloses a block of code in a text. -/
def fence : List Char :=
  ['\x60', '\x60', '\x60']

/-- A hit as a prompt shows it. -/
def promptEntry (hit : Hit) : List Char :=
  "\x7b\"file_path\":".toList ++ Writer.quote hit.label ++ ",\"code_snippet\":".toList ++
    Writer.quote hit.text ++ ['\x7d']

/-- The hits as a prompt shows them. -/
def promptListing (hits : List Hit) : List Char :=
  '[' :: Writer.join [','] (hits.map promptEntry) ++ [']']

/-- What a prompt says before the hits. -/
def promptOpening (query : String) (k : Nat) : List Char :=
  ("Given a search term " ++ query ++
    ", a vector database performing similarity search of embeddings between the search term and code snippets of files and functions/methods in the project returned " ++
    toString k ++
    " relevant documents. For each document, provide a description explaining why the search term is relevant to the code retrieved from the database. Below is a list of the filepaths and their corresponding code snippets in JSON format:\n").toList

/-- What a prompt says after the hits. -/
def promptClosing : List Char :=
  "\n\nOnly respond with your result as a list of JSON with the \"file_path\" key and the \"explanation\" key for your corresponding explanation. An example of the format is below:\n".toList ++
    fence ++
    "[\x7b\"file_path\": \"filepath1/file1.py\", \"explanation\": \"This file contains the keyword \\\"UIButton\\\" from the search term\"\x7d]".toList ++
    fence

/-- What a generator is asked about hits. -/
def promptFor (query : String) (k : Nat) (hits : List Hit) : String :=
  String.ofList (promptOpening query k ++ fence ++ promptListing hits ++ fence ++ promptClosing)

/-! ### Reading a reply -/

/-- What stands before and after the first fence of a text. -/
def splitAtFence : List Char → Option (List Char × List Char)
  | [] => none
  | c :: rest =>
      if fence.isPrefixOf (c :: rest) then some ([], (c :: rest).drop fence.length)
      else (splitAtFence rest).map fun (before, after) => (c :: before, after)

/-- A letter of a language tag. -/
def isTagLetter (c : Char) : Bool :=
  ('a' ≤ c && c ≤ 'z') || ('A' ≤ c && c ≤ 'Z')

/-- What the first block of code in a text holds, after its language tag. -/
def fencedBlock? (reply : List Char) : Option (List Char) := do
  let (_, after) ← splitAtFence reply
  let (block, _) ← splitAtFence (after.dropWhile isTagLetter)
  return block

/-- The part of a reply that holds the explanations. -/
def replyBody (reply : String) : String :=
  trim (match fencedBlock? reply.toList with
    | some block => String.ofList block
    | none => reply)

/-- How an explanation is read. -/
def Explanation.shape : Shape Explanation where
  name := "RelevantFile"
  blank := ⟨"", ""⟩
  fields := [
    ⟨"file_path", true, fun v e => (Decode.text v).map fun x => { e with path := x }⟩,
    ⟨"explanation", true, fun v e => (Decode.text v).map fun x => { e with text := x }⟩]

/-- How a list of explanations is read. -/
def decodeList : Value → Except Json.Fault (List Explanation) :=
  Decode.list (Explanation.shape.decode true)

/-- How an object around a list of explanations is read. -/
def wrapped : Shape (List Explanation) where
  name := "RelevantFileExplanations"
  blank := []
  fields := [⟨"relevant_file_explanations", true, fun v _ => decodeList v⟩]

/-- Explanations from a value: a list, or an object around one. -/
def decodeReply (v : Value) : Except Json.Fault (List Explanation) :=
  match v with
  | .array _ => decodeList v
  | _ => wrapped.decode true v

/-- The explanations that a reply holds, at least one. -/
def explanationsOf (reply : String) : Except ExplanationFault (List Explanation) :=
  match Value.parse (replyBody reply) with
  | .error e => .error (.unreadable e.message reply)
  | .ok v =>
      match decodeReply v with
      | .error f => .error (.unreadable f.message reply)
      | .ok [] => .error (.unreadable "no explanations returned" reply)
      | .ok (first :: rest) => .ok (first :: rest)

/-! ### Explanations of hits -/

/-- The members of a list in the order in which they first appear. -/
def firsts : List String → List String
  | [] => []
  | s :: rest => s :: (firsts rest).filter (· != s)

/-- The first explanation of a path. -/
def textFor? (path : String) (explanations : List Explanation) : Option String :=
  (explanations.find? (·.path == path)).map (·.text)

/-- Explanations in the order of the labels they explain: exactly one for each. -/
def align (explanations : List Explanation) (labels : List String) :
    Except ExplanationFault (List Explanation) :=
  match explanations.find? fun e => !labels.contains e.path with
  | some e => .error (.unknownPath e.path)
  | none =>
      match (firsts labels).filter fun l => (textFor? l explanations).isNone with
      | [] => .ok ((firsts labels).filterMap fun l => (textFor? l explanations).map (⟨l, ·⟩))
      | missing => .error (.unexplained missing)

/-- Explains hits; no hits need no explanation. -/
def explain {σ : Type} (generate : Generator σ) (query : String) (k : Nat) (hits : List Hit)
    (state : σ) : Except ExplanationFault (List Explanation) × σ :=
  if hits = [] then (.ok [], state)
  else match generate systemPrompt (promptFor query k hits) state with
    | (.error chain, state) => (.error (.service chain), state)
    | (.ok reply, state) =>
        (explanationsOf reply >>= fun explanations => align explanations (hits.map (·.label)), state)

/-- The written form of explanations. -/
def explanationsText (explanations : List Explanation) : String :=
  Value.pretty (.array (explanations.map fun e =>
    .object [("file_path", .string e.path), ("explanation", .string e.text)]))

end Workbench.Index
