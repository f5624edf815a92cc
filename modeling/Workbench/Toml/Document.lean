/-
# TOML documents

Reads a TOML 1.0 document as a JSON object. A table may be given piece by piece,
but each name once: a table that has had its own heading is complete, one made by
dotted names only grows by dotted names in the same place, and what stands in
braces or square brackets is closed.

* `Node` — a table under construction.
* `parse?` — the object that a document is; none if it is not well formed.
-/

import Workbench.Toml.Scalar

namespace Workbench.Toml

open Workbench.Json

/-- A part of a document under construction. A table is `implied` when only names
below it gave rise to it, and `dotted` when those were dotted names. -/
inductive Node where
  | leaf (value : Value)
  | table (implied dotted : Bool) (entries : List (String × Node))
  | tables (items : List (List (String × Node)))

namespace Node

mutual

/-- The value of a part. -/
def value : Node → Value
  | leaf v => v
  | table _ _ entries => .object (fields entries)
  | tables items => .array (objects items)

/-- The fields of entries. -/
def fields : List (String × Node) → List (String × Value)
  | [] => []
  | (name, node) :: rest => Value.insert name (value node) (fields rest)

/-- The objects of an array of tables. -/
def objects : List (List (String × Node)) → List Value
  | [] => []
  | entries :: rest => .object (fields entries) :: objects rest

end

/-- The entry of a name. -/
def find? (name : String) (entries : List (String × Node)) : Option Node :=
  (entries.find? (·.1 == name)).map (·.2)

/-- The entries with one put in the place of its name, or at the end. -/
def put (name : String) (node : Node) : List (String × Node) → List (String × Node)
  | [] => [(name, node)]
  | (other, old) :: rest =>
      if other = name then (name, node) :: rest else (other, old) :: put name node rest

/-- The entries without the one of a name. -/
def erase (name : String) (entries : List (String × Node)) : List (String × Node) :=
  entries.filter (·.1 != name)

/-- Changes the entries at the end of a path of names, making tables on the way.
`change` is told whether the table it changes was made by dotted names. -/
def descend (dotted : Bool) (change : Bool → List (String × Node) → Option (List (String × Node))) :
    List String → Bool → List (String × Node) → Option (List (String × Node))
  | [], wasDotted, entries => change wasDotted entries
  | name :: path, _, entries =>
      match find? name entries with
      | none => do
          let inner ← descend dotted change path dotted []
          return put name (table true dotted inner) entries
      | some (leaf _) => none
      | some (table implied wasDotted inner) =>
          if dotted && !implied then none
          else do
            let inner ← descend dotted change path wasDotted inner
            return put name (table implied wasDotted inner) entries
      | some (tables items) =>
          match items.getLast? with
          | none => none
          | some last => do
              let last ← descend dotted change path false last
              return put name (tables (items.dropLast ++ [last])) entries

/-- Adds a value under a dotted name. -/
def assign (path : List String) (name : String) (node : Node) (entries : List (String × Node)) :
    Option (List (String × Node)) :=
  descend true (fun wasDotted inner =>
    if wasDotted == path.isEmpty then none
    else if (find? name inner).isSome then none
    else some (inner ++ [(name, node)])) path false entries

end Node

/-! ### Values -/

/-- A character of a bare name. -/
def isBare (c : Char) : Bool :=
  c.isAlphanum || c == '_' || c == '-'

/-- Reads a name, bare or quoted. -/
def name? (s : List Char) : Option (String × List Char) :=
  match s with
  | '"' :: rest => (basic? (s.length + 1) [] rest).map fun (cs, r) => (String.ofList cs, r)
  | '\'' :: rest => (literal? rest).map fun (cs, r) => (String.ofList cs, r)
  | _ =>
      match s.takeWhile isBare with
      | [] => none
      | cs => some (String.ofList cs, s.drop cs.length)

/-- Reads names with dots between them, and the blanks around them. -/
def path? : Nat → List Char → Option (List String × List Char)
  | 0, _ => none
  | fuel + 1, s => do
      let (name, rest) ← name? (skipBlanks s)
      match skipBlanks rest with
      | '.' :: more => do
          let (names, rest) ← path? fuel more
          return (name :: names, rest)
      | rest => return ([name], rest)

/-- How deep values and names may be nested. -/
def depthLimit : Nat := 80

/-- What is left after a word. -/
def word? (word : List Char) (s : List Char) : Option (List Char) :=
  if word.isPrefixOf s then some (s.drop word.length) else none

mutual

/-- Reads a value. -/
def value? : Nat → Nat → List Char → Option (Value × List Char)
  | 0, _, _ => none
  | fuel + 1, depth, s =>
      match s with
      | [] => none
      | c :: rest =>
          if c = '"' ∨ c = '\'' then (string? s).map fun (t, r) => (.string t, r)
          else if c = '[' then
            if depth + 1 < depthLimit then
              (array? fuel (depth + 1) rest).map fun (items, r) => (.array items, r)
            else none
          else if c = '\x7b' then
            if depth + 1 < depthLimit then
              match skipBlanks rest with
              | '\x7d' :: after => some (.object [], after)
              | body =>
                  (inline? fuel (depth + 1) [] body).map fun (entries, r) =>
                    (.object (Node.fields entries), r)
            else none
          else if c = 't' then
            (word? ['t', 'r', 'u', 'e'] s).map fun r => (.bool true, r)
          else if c = 'f' then
            (word? ['f', 'a', 'l', 's', 'e'] s).map fun r => (.bool false, r)
          else number? s

/-- Reads the items of an array after its opening bracket. -/
def array? : Nat → Nat → List Char → Option (List Value × List Char)
  | 0, _, _ => none
  | fuel + 1, depth, s =>
      match skipLines (s.length + 1) s with
      | ']' :: rest => some ([], rest)
      | body => do
          let (item, rest) ← value? fuel depth body
          match skipLines (rest.length + 1) rest with
          | ',' :: rest => do
              let (items, rest) ← array? fuel depth rest
              return (item :: items, rest)
          | ']' :: rest => return ([item], rest)
          | _ => none

/-- Reads the entries of a table in braces after its opening brace. -/
def inline? : Nat → Nat → List (String × Node) → List Char → Option (List (String × Node) × List Char)
  | 0, _, _, _ => none
  | fuel + 1, depth, entries, s => do
      let (path, rest) ← path? (s.length + 1) s
      match rest with
      | '=' :: rest => do
          if depthLimit ≤ path.length then none
          let (v, rest) ← value? fuel depth (skipBlanks rest)
          let entries ← Node.assign path.dropLast (path.getLastD "") (.leaf v) entries
          match skipBlanks rest with
          | ',' :: rest => inline? fuel depth entries rest
          | '\x7d' :: rest => return (entries, rest)
          | _ => none
      | _ => none

end

/-! ### Documents -/

/-- A document under construction: what is complete, and the table whose heading
came last, with its path and whether it is an item of an array of tables. -/
structure Draft where
  root : List (String × Node)
  path : List String
  isItem : Bool
  current : List (String × Node)

namespace Draft

/-- Puts the current table where its heading says. -/
def close (d : Draft) : Option (List (String × Node)) :=
  match d.path.getLast? with
  | none => some d.current
  | some name =>
      Node.descend false (fun _ entries =>
        if d.isItem then
          match Node.find? name entries with
          | none => some (entries ++ [(name, .tables [d.current])])
          | some (.tables items) => some (Node.put name (.tables (items ++ [d.current])) entries)
          | some _ => none
        else
          match Node.find? name entries with
          | none => some (entries ++ [(name, .table false false d.current)])
          | some (.table true _ _) => some (Node.put name (.table false false d.current) entries)
          | some _ => none) d.path.dropLast false d.root

/-- The entries a table already has when its heading comes: only an implied one
that no dotted name made may get a heading. -/
def openTable (path : List String) (root : List (String × Node)) : Option Draft := do
  let name ← path.getLast?
  let root ← Node.descend false (fun _ entries => some entries) path.dropLast false root
  let found ← lookup path.dropLast root
  match Node.find? name found with
  | none => return ⟨root, path, false, []⟩
  | some (.table true false entries) => do
      let root ← Node.descend false (fun _ es => some (Node.erase name es)) path.dropLast false root
      return ⟨root, path, false, entries⟩
  | some _ => none
where
  /-- The entries at the end of a path. -/
  lookup : List String → List (String × Node) → Option (List (String × Node))
    | [], entries => some entries
    | name :: path, entries =>
        match Node.find? name entries with
        | some (.table _ _ inner) => lookup path inner
        | some (.tables items) => do lookup path (← items.getLast?)
        | _ => none

/-- Starts a new item of an array of tables. -/
def openItem (path : List String) (root : List (String × Node)) : Option Draft := do
  let name ← path.getLast?
  let root ← Node.descend false (fun _ entries =>
    match Node.find? name entries with
    | none => some entries
    | some (.tables _) => some entries
    | some _ => none) path.dropLast false root
  return ⟨root, path, true, []⟩

/-- Reads what is left of a document, line by line. -/
def lines : Nat → Draft → List Char → Option Draft
  | 0, _, _ => none
  | fuel + 1, d, s =>
      match skipBlanks s with
      | [] => some d
      | '[' :: '[' :: rest => do
          let (path, rest) ← path? (rest.length + 1) rest
          match rest with
          | ']' :: ']' :: rest => do
              if depthLimit ≤ path.length then none
              let d ← openItem path (← d.close)
              lines fuel d (← lineEnd? rest)
          | _ => none
      | '[' :: rest => do
          let (path, rest) ← path? (rest.length + 1) rest
          match rest with
          | ']' :: rest => do
              if depthLimit ≤ path.length then none
              let d ← openTable path (← d.close)
              lines fuel d (← lineEnd? rest)
          | _ => none
      | body =>
          match lineEnd? body with
          | some rest => lines fuel d rest
          | none => do
              let (path, rest) ← path? (body.length + 1) body
              match rest with
              | '=' :: rest => do
                  if depthLimit ≤ path.length then none
                  let (v, rest) ← value? (2 * rest.length + 2) 0 (skipBlanks rest)
                  let current ← Node.assign path.dropLast (path.getLastD "") (.leaf v) d.current
                  lines fuel { d with current := current } (← lineEnd? rest)
              | _ => none

end Draft

/-- The object that a document is. A byte order mark in front does not count. -/
def parse? (text : String) : Option Value := do
  let s := match text.toList with
    | '\uFEFF' :: rest => rest
    | s => s
  let d ← Draft.lines (s.length + 1) ⟨[], [], false, []⟩ s
  return .object (Node.fields (← d.close))

end Workbench.Toml
