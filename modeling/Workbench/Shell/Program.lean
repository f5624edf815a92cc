/-
# Programs

What a shell finds under the name of a command that is none of its own: utilities, and
commands that run other commands.

* `utility?` — a utility.
* `runner?` — a command that runs commands.
-/

import Workbench.Shell.Stream
import Workbench.Shell.FileUtility
import Workbench.Shell.Search
import Workbench.Shell.LineUtility
import Workbench.Shell.PatternUtility
import Workbench.Digest.Sha1
import Workbench.Digest.Sha256

namespace Workbench.Shell

open Workbench.Text Workbench.Files

/-! ### Utilities about the system -/

/-- Shows variables. -/
def printenv : Utility := fun g =>
  match g.arguments with
  | [] => g.tells (ofLines (g.bindings.map fun (name, value) => name ++ "=" ++ value))
  | names =>
      let found := names.filterMap fun name => g.bindings.lookup name
      { g.tells (ofLines found) with status := if found.length = names.length then 0 else 1 }

/-- Shows texts again and again, as many as a reader may want. -/
def yes : Utility := fun g =>
  let line := if g.arguments = [] then "y" else " ".intercalate g.arguments
  g.tells (ofLines (List.replicate 4096 line))

/-- Waits; nothing can be seen of it. -/
def sleep : Utility := fun g =>
  match g.arguments with
  | [] => g.isMisused "missing operand" 1
  | times =>
      match times.find? fun t => !t.toList.all (fun c => c.isDigit || ['.', 's', 'm', 'h'].contains c) with
      | some t => g.isMisused ("invalid time interval '" ++ t ++ "'") 1
      | none => g.tells ""

/-- Numbers the lines of inputs that are not empty. -/
def nl : Utility := fun g =>
  let o := Options.read ["b", "w", "s", "n"] g.arguments
  let isAll := o.value? ["b"] = some "a"
  let number (n : Nat) : List String → List String
    | [] => []
    | lines => (lines.foldl (fun (n, done) line =>
        if line != "" || isAll then
          (n + 1, (aligned 6 n ++ "\t" ++ line) :: done)
        else (n, "       " :: done)) (n, [])).2.reverse
  g.onAll o.operands plainComplaint 1 fun text => ofLines (number 1 (linesOf text))

/-- The value of an expression of three words, as text, and its status. -/
def expr : Utility := fun g =>
  let answer (text : String) : Done :=
    { g.tells (text ++ "\n") with status := if text = "" || text = "0" then 1 else 0 }
  let truth (holds : Bool) : Done := answer (if holds then "1" else "0")
  match g.arguments with
  | [] => g.isMisused "missing operand" 2
  | [text] => answer text
  | ["length", text] => answer (toString text.length)
  | [a, operator, b] =>
      let numbers? : Option (Int × Int) := do return (← a.toInt?, ← b.toInt?)
      let compare (byNumber : Int → Int → Bool) (byText : String → String → Bool) : Done :=
        match numbers? with
        | some (x, y) => truth (byNumber x y)
        | none => truth (byText a b)
      let compute (f : Int → Int → Int) : Done :=
        match numbers? with
        | some (x, y) => answer (toString (f x y))
        | none => g.fails "non-integer argument" 2
      let divide (f : Int → Int → Int) : Done :=
        if b.toInt? = some 0 then g.fails "division by zero" 2 else compute f
      match operator with
      | "+" => compute (· + ·)
      | "-" => compute (· - ·)
      | "*" => compute (· * ·)
      | "/" => divide Int.tdiv
      | "%" => divide Int.tmod
      | "=" => compare (· == ·) (· == ·)
      | "!=" => compare (· != ·) (· != ·)
      | "<" => compare (fun x y => x < y) (fun x y => decide (x < y))
      | "<=" => compare (fun x y => x ≤ y) (fun x y => decide (x ≤ y))
      | ">" => compare (fun x y => y < x) (fun x y => decide (y < x))
      | ">=" => compare (fun x y => y ≤ x) (fun x y => decide (y ≤ x))
      | "|" => answer (if a = "" || a = "0" then b else a)
      | "&" => answer (if a = "" || a = "0" || b = "" || b = "0" then "0" else a)
      | ":" =>
          match Regex.ofText? false b with
          | some r =>
              match (Regex.inOrder .atStart r).find? false a.toList.toArray 0 with
              | some (_, n, groups) =>
                  match groups.lookup 1 with
                  | some (i, j) => answer (String.ofList ((a.toList.take j).drop i))
                  | none => answer (toString n)
              | none => truth false
          | none => g.fails "Invalid regular expression" 2
      | _ => g.fails "syntax error" 2
  | _ => g.fails "syntax error" 2

/-- The utilities by their names. -/
def utilities : List (String × Utility) := [
  ("cat", cat), ("head", head), ("tail", tail), ("wc", wc), ("sort", sort), ("uniq", uniq),
  ("tr", tr), ("cut", cut), ("paste", paste), ("seq", seq), ("rev", rev), ("tac", tac),
  ("basename", basename), ("dirname", dirname), ("sed", sed), ("grep", grep), ("egrep", grep),
  ("fgrep", grep), ("ls", ls), ("find", find), ("rm", rm), ("mkdir", mkdir), ("rmdir", rmdir),
  ("touch", touch), ("mv", mv), ("cp", cp), ("ln", ln), ("chmod", chmod), ("readlink", readlink),
  ("realpath", readlink), ("tee", tee), ("sha1sum", digests Digest.Sha1.digest),
  ("sha256sum", digests Digest.Sha256.digest), ("printenv", printenv), ("yes", yes), ("sleep", sleep),
  ("nl", nl), ("expr", expr), ("echo", echo),
  ("tty", fun g => { g.tells "not a tty\n" with status := 1 }),
  ("whoami", fun g => g.tells "root\n"), ("uname", fun g => g.tells "Linux\n"),
  ("sync", fun g => g.tells ""), ("true", fun g => g.tells ""),
  ("false", fun g => { g.tells "" with status := 1 })]

/-- The name of a utility without the directory in which utilities lie. -/
def bareName (name : String) : String :=
  match name.splitOn "/" with
  | ["", "bin", bare] => bare
  | ["", "usr", "bin", bare] => bare
  | _ => name

/-- A utility. -/
def utility? (name : String) : Option Utility :=
  utilities.lookup (bareName name)

/-! ### Commands that run commands -/

/-- What a command that runs commands is given: how a text is run as a script that is told
of in this way, how a command is run, with functions or without them, and how something is
run as a shell of its own. -/
structure Runners where
  script : String → String → Run Unit
  command : Bool → List String → Run Unit
  shell : Run Unit → Run Unit

/-- Names of commands that run commands. -/
def runnerNames : List String :=
  ["xargs", "env", "timeout", "nohup", "nice", "bash", "sh", "find", "which"]

/-- A name is one of a program. -/
def isProgram (name : String) : Bool :=
  (utility? name).isSome || runnerNames.contains (bareName name)

/-- Words of the shell language. -/
def keywords : List String :=
  ["if", "then", "else", "elif", "fi", "for", "while", "until", "do", "done", "case", "esac", "in",
    "function", "time", "\x7b", "\x7d", "!", "[[", "]]"]

/-- The place of a program: under its own name if it has a path, else where utilities lie. -/
def placeOf (name : String) : String :=
  if name.toList.contains '/' then name else "/usr/bin/" ++ name

/-- Tells what names of commands stand for, shortly or in words. -/
def tellTypes (run : String → Run Unit) (isShort : Bool) (names : List String) : Run Unit := do
  setStatus 0
  for name in names do
    let m ← get
    if keywords.contains name then
      put (if isShort then name ++ "\n" else name ++ " is a shell keyword\n")
    else if (m.functions.lookup name).isSome then
      put (if isShort then name ++ "\n" else name ++ " is a function\n")
    else if (builtin? run name).isSome then
      put (if isShort then name ++ "\n" else name ++ " is a shell builtin\n")
    else if isProgram name then
      put (if isShort then placeOf name ++ "\n" else name ++ " is " ++ placeOf name ++ "\n")
    else if isShort then setStatus 1
    else failing ("type: " ++ name ++ ": not found") 1

/-- The arguments that an input holds: words, some in quotes, or texts between marks. -/
def argumentsIn (mark : Option Char) (text : String) : List String :=
  match mark with
  | some c =>
      match (text.splitOn (String.singleton c)).reverse with
      | "" :: rest => rest.reverse
      | parts => parts.reverse
  | none => wordsOf none false [] text.toList
where
  /-- The words of a text; `here` is the one that is read, in reverse. -/
  wordsOf (quote : Option Char) (isOpen : Bool) (here : List Char) : List Char → List String
    | [] => if isOpen then [String.ofList here.reverse] else []
    | '\\' :: d :: rest =>
        if quote = none then wordsOf none true (d :: here) rest
        else wordsOf quote true ('\\' :: here) (d :: rest)
    | c :: rest =>
        match quote with
        | some q => if c = q then wordsOf none true here rest else wordsOf quote true (c :: here) rest
        | none =>
            if c = '\'' || c = '"' then wordsOf (some c) true here rest
            else if c = ' ' || c = '\t' || c = '\n' then
              if isOpen then String.ofList here.reverse :: wordsOf none false [] rest
              else wordsOf none false [] rest
            else wordsOf none true (c :: here) rest
  termination_by text => text.length

/-- Lists of so many texts. -/
def inGroups (n : Nat) : Nat → List String → List (List String)
  | 0, _ => []
  | _, [] => []
  | fuel + 1, texts => texts.take n :: inGroups n fuel (texts.drop n)

/-- Runs commands with arguments that the input holds. -/
def xargs (runners : Runners) (arguments : List String) : Run Unit := do
  let valued := ["n", "I", "d", "L", "P"]
  let isValued (a : String) : Bool := a.length = 2 && valued.contains (String.ofList (a.toList.drop 1))
  let flags := flagsOf isValued arguments
  let o := Options.read valued flags
  let command := match arguments.drop flags.length with
    | [] => ["echo"]
    | words => words
  let m ← get
  let text := String.ofList (m.input 0)
  set (m.leave 0 [])
  let mark : Option Char :=
    if o.has ["0"] then some '\x00'
    else if o.has ["I"] then some '\n'
    else (o.value? ["d"]).bind fun d => if d = "\\n" then some '\n' else d.toList.head?
  let found := argumentsIn mark text
  let calls := match o.value? ["I"] with
    | some place => found.map fun (a : String) => command.map fun (w : String) => String.intercalate a (w.splitOn place)
    | none =>
        match o.number? ["n", "L"] with
        | some n => (inGroups (max n 1) found.length found).map (command ++ ·)
        | none => if found = [] && o.has ["r"] then [] else [command ++ found]
  let mut failed := 0
  for call in calls do
    if isProgram (call.headD "") || (utility? (call.headD "")).isSome then
      runners.command false call
      let status := (← get).status
      if status != 0 then failed := if status = 255 then 124 else 123
    else
      modify (·.write 2 ("xargs: " ++ call.headD "" ++ ": No such file or directory\n"))
      failed := 127
      break
  setStatus failed
where
  /-- The options at the start of arguments, with their values. -/
  flagsOf (isValued : String → Bool) : List String → List String
    | a :: b :: rest =>
        if isValued a then a :: b :: flagsOf isValued rest
        else if a.startsWith "-" then a :: flagsOf isValued (b :: rest)
        else []
    | [a] => if a.startsWith "-" then [a] else []
    | [] => []

/-- Runs a program under the name of another one. -/
def runUnder (runners : Runners) (name : String) (words : List String) : Run Unit := do
  match words with
  | [] => return
  | program :: _ =>
      if isProgram program || program.toList.contains '/' || program = "printf" || program = "test" ||
          program = "pwd" then runners.command false words
      else
        let what := if name = "timeout" || name = "nohup" then "failed to run command " else ""
        modify (·.write 2 (name ++ ": " ++ what ++ "'" ++ program ++ "': No such file or directory\n"))
        setStatus 127

/-- Runs a program with other variables, or shows them. -/
def env (runners : Runners) (arguments : List String) : Run Unit := do
  let given := arguments.takeWhile fun a => a = "-i" || a = "-" || (assignment? a).isSome
  let before ← get
  if given.any fun a => a = "-i" || a = "-" then modify fun m => { m with exported := [] }
  for a in given do
    match assignment? a with
    | some (name, _, value) => modify fun m =>
        { m.set name value with exported := name :: m.exported.filter (· != name) }
    | none => pure ()
  let act : Run Unit := match arguments.drop given.length with
    | [] => runners.command false ["printenv"]
    | words => runUnder runners "env" words
  ending act fun m => { m with bindings := before.bindings, exported := before.exported }

/-- Looks for files and runs a command on what is found, on each or on all of it. -/
def findAndRun (runners : Runners) (arguments : List String) : Run Unit := do
  let tests := arguments.takeWhile fun a => a != "-exec"
  let words := ((arguments.drop tests.length).drop 1).takeWhile fun a => a != ";" && a != "+"
  let isTogether := (arguments.drop (tests.length + 1 + words.length)).head? = some "+"
  let m ← get
  let d := find { name := "find", arguments := tests, input := "", tree := m.tree }
  let found := linesOf (String.join ((d.written.filter fun w => !w.1).map (·.2)))
  for (isError, text) in d.written do
    if isError then modify (·.write 2 text)
  if isTogether then
    if found != [] then
      runners.command false (words.flatMap fun w => if w = "\x7b\x7d" then found else [w])
  else
    for path in found do
      runners.command false (words.map fun w => path.intercalate (w.splitOn "\x7b\x7d"))
  setStatus d.status

/-- Runs another shell: on a text, on a file, or on its input. -/
def runShell (runners : Runners) (name : String) (arguments : List String) : Run Unit := do
  let arguments := arguments.flatMap fun a =>
    match a.toList with
    | '-' :: c :: letters =>
        if a.startsWith "--" then [] else
        let others := (c :: letters).filter (· != 'c')
        (if others = [] then [] else [String.ofList ('-' :: others)]) ++
          if (c :: letters).contains 'c' then ["-c"] else []
    | _ => [a]
  let flags := arguments.takeWhile fun a => a.startsWith "-" && a != "-c"
  let start (name script : String) (rest : List String) : Run Unit := do
    setAll flags
    modify fun m => { m with
      name, script, arguments := rest, line := 1, status := 0, depth := 0, loops := 0, functions := []
      bindings := m.bindings.filter fun v => m.exported.contains v.1 }
  match arguments.drop flags.length with
  | "-c" :: text :: rest => runners.shell do
      start (rest.headD name) name (rest.drop 1)
      runners.script "-c: " text
  | ["-c"] => do
      modify (·.write 2 (name ++ ": -c: option requires an argument\n"))
      setStatus 2
  | path :: rest =>
      match contentAt (← get).tree path with
      | .ok text => runners.shell do
          start path path rest
          runners.script "" text
      | .error fault => do
          modify (·.write 2 (name ++ ": " ++ path ++ ": " ++ faultText fault ++ "\n"))
          setStatus (if fault = .missing then 127 else 126)
  | [] => runners.shell do
      let m ← get
      set (m.leave 0 [])
      start name name []
      runners.script "" (String.ofList (m.input 0))

/-- A command that runs commands. -/
def runner? (runners : Runners) (name : String) : Option (List String → Run Unit) :=
  match bareName name with
  | "command" => some fun
      | "-v" :: names => tellTypes (runners.script "") true names
      | "-V" :: names => tellTypes (runners.script "") false names
      | "-p" :: words => runners.command false words
      | words => runners.command false words
  | "builtin" => some fun
      | [] => setStatus 0
      | name :: words =>
          match builtin? (runners.script "") name with
          | some act => act words
          | none => failing ("builtin: " ++ name ++ ": not a shell builtin") 1
  | "type" => some (tellTypes (runners.script "") false)
  | "source" => some (source "source")
  | "." => some (source ".")
  | "xargs" => some (xargs runners)
  | "env" => some (env runners)
  | "nohup" => some (runUnder runners "nohup")
  | "nice" => some fun
      | "-n" :: _ :: words => runUnder runners "nice" words
      | words => runUnder runners "nice" words
  | "timeout" => some fun words => runUnder runners "timeout" (words.drop 1)
  | "which" => some fun names => do
      put (ofLines ((names.filter isProgram).map placeOf))
      setStatus (if names.all isProgram then 0 else 1)
  | "bash" => some (runShell runners "bash")
  | "sh" => some (runShell runners "sh")
  | "find" => some fun arguments =>
      if arguments.contains "-exec" then findAndRun runners arguments
      else do
        let m ← get
        carryOut (find { name := "find", arguments, input := "", tree := m.tree })
  | _ => none
where
  /-- Runs the commands of a file in the shell. -/
  source (command : String) : List String → Run Unit
    | [] => do
      complain (command ++ ": filename argument required")
      showUse (command ++ ": usage: " ++ command ++ " filename [arguments]")
    | path :: rest => do
        let before ← get
        match contentAt before.tree path with
        | .error fault => failing (path ++ ": " ++ faultText fault) 1
        | .ok text => do
            set { before with
              script := path, depth := before.depth + 1, line := 1, status := 0
              arguments := if rest = [] then before.arguments else rest }
            let r ← caught (runners.script "" text)
            modify fun m => { m with
              script := before.script, depth := before.depth
              arguments := if rest = [] then m.arguments else before.arguments }
            match r with
            | .error (.return status) => setStatus status
            | .error flow => throw flow
            | .ok () => return

/-- Runs a file that can be executed, or tells why there is none. -/
def runFile (runners : Runners) (path : String) (arguments : List String) : Run Unit := do
  match (← get).tree.stat (pathOf path) with
  | .error .missing => failing (path ++ ": No such file or directory") 127
  | .error fault => failing (path ++ ": " ++ faultText fault) 126
  | .ok (.file mode _) =>
      if mode &&& 0o111 = 0 then failing (path ++ ": Permission denied") 126
      else runShell runners "bash" (path :: arguments)
  | .ok _ => failing (path ++ ": Is a directory") 126

end Workbench.Shell
