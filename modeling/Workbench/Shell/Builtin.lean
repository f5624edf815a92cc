/-
# Commands of the shell itself

What changes the state of the shell: its variables, its options, its directory, and how
it ends.

* `builtin?` — a command of the shell.
-/

import Workbench.Shell.Condition
import Workbench.Shell.Expansion
import Workbench.Shell.Printing

namespace Workbench.Shell

open Workbench.Text Workbench.Files

/-- Runs something, and tells how it ended instead of ending with it. -/
def caught (act : Run Unit) : Run (Except Flow Unit) :=
  ExceptT.mk fun m =>
    let (r, m) := act.run m
    (.ok r, m)

/-- Says what is wrong, and sets the status. -/
def failing (text : String) (status : Nat) : Run Unit := do
  complain text
  setStatus status

/-- Says how a command is to be used. -/
def showUse (text : String) : Run Unit := do
  modify (·.write 2 (text ++ "\n"))
  setStatus 2

/-! ### Directories -/

/-- Goes to a directory. -/
def changeDirectory (arguments : List String) : Run Unit := do
  let m ← get
  let operands := arguments.filter fun a => a != "--" && a != "-P" && a != "-L"
  let (variable_, goal?) : String × Option String := match operands with
    | [] => ("HOME", m.value? "HOME")
    | "" :: _ => ("", some ".")
    | "-" :: _ => ("OLDPWD", m.value? "OLDPWD")
    | path :: _ => ("", some path)
  if 1 < operands.length then failing "cd: too many arguments" 1
  else match goal? with
  | none => failing ("cd: " ++ variable_ ++ " not set") 1
  | some goal =>
    let here := (m.value? "PWD").getD "/"
    match m.tree.find true (pathOf goal) with
    | .ok ⟨place, some (.directory _)⟩ =>
        let written := if goal.startsWith "/" then goal else here ++ "/" ++ goal
        let logical := (Path.cancel (Path.names written)).getD []
        let text := Path.text logical
        set { (m.set "OLDPWD" here).set "PWD" text with tree := { m.tree with here := place }, status := 0 }
        if arguments = ["-"] then put (text ++ "\n")
    | .ok ⟨_, some _⟩ => failing ("cd: " ++ goal ++ ": Not a directory") 1
    | .ok ⟨_, none⟩ => failing ("cd: " ++ goal ++ ": No such file or directory") 1
    | .error fault => failing ("cd: " ++ goal ++ ": " ++ (fault.message.splitOn " (os error").headD "") 1

/-! ### Variables -/

/-- A text is a name of a variable. -/
def isName (text : String) : Bool :=
  match text.toList with
  | c :: rest => startsName c && rest.all isNameChar
  | [] => false

/-- The name and the value that a text assigns, and whether the value is added to. -/
def assignment? (text : String) : Option (String × Bool × String) :=
  let s := text.toList
  let name := s.takeWhile isNameChar
  if !isName (String.ofList name) then none
  else match s.drop name.length with
    | '=' :: value => some (String.ofList name, false, String.ofList value)
    | '+' :: '=' :: value => some (String.ofList name, true, String.ofList value)
    | _ => none

/-- Gives a variable a value, or adds to the one that it has. -/
def assignTo (name : String) (isAdded : Bool) (value : String) : Run Unit := do
  if (← get).fixed.contains name then
    complain (name ++ ": readonly variable")
    throw (.exit 1)
  modify fun m => m.set name (if isAdded then (m.value? name).getD "" ++ value else value)

/-- Declares variables; in a function they can be of its own, and they can be exported. -/
def declare (command : String) (isOwn isExported : Bool) (arguments : List String) : Run Unit := do
  setStatus 0
  for a in arguments do
    if a.startsWith "-" then continue
    let (name, value?) := match assignment? a with
      | some (name, isAdded, value) => (name, some (isAdded, value))
      | none => (a, none)
    if !isName name then
      failing (command ++ ": \x60" ++ a ++ "': not a valid identifier") 1
      continue
    if isOwn then
      modify fun m =>
        match m.outer with
        | names :: rest =>
            let m := if names.any (·.1 == name) then m
              else { m with outer := ((name, m.bindings.lookup name) :: names) :: rest }
            if value?.isNone then m.unset name else m
        | [] => m
    if isExported then
      modify fun m => { m with exported := name :: m.exported.filter (· != name) }
    match value? with
    | some (isAdded, value) => assignTo name isAdded value
    | none => pure ()
    if command = "readonly" || arguments.contains "-r" then
      modify fun m => { m with fixed := name :: m.fixed }

/-- Shows the variables that programs see. -/
def showExported : Run Unit := do
  let m ← get
  setStatus 0
  let lines := m.exported.map fun name =>
    match m.bindings.lookup name with
    | some value => "declare -x " ++ name ++ "=\"" ++ value ++ "\"\n"
    | none => "declare -x " ++ name ++ "\n"
  put (String.join (lines.mergeSort fun a b => decide (a ≤ b)))

/-! ### Options -/

/-- The letter of an option that has a long name. -/
def optionLetter (name : String) : String :=
  (([("errexit", "e"), ("nounset", "u"), ("xtrace", "x"), ("noglob", "f"), ("verbose", "v"),
    ("noexec", "n"), ("allexport", "a")] : List (String × String)).lookup name).getD name

/-- The long names of options. -/
def optionNames : List String :=
  ["errexit", "nounset", "xtrace", "noglob", "verbose", "noexec", "allexport", "pipefail", "posix",
    "noclobber", "hashall", "monitor", "notify", "physical", "braceexpand", "errtrace", "functrace",
    "histexpand", "history", "ignoreeof", "keyword", "nolog", "onecmd", "privileged", "emacs", "vi",
    "interactive-comments"]

/-- Sets or unsets an option. -/
def setOption (isSet : Bool) (option : String) : Run Unit :=
  modify fun m =>
    let others := m.options.filter (· != option)
    { m with options := if isSet then option :: others else others }

/-- Sets options and arguments. -/
def setAll : List String → Run Unit
  | [] => setStatus 0
  | "--" :: rest => modify fun m => { m with arguments := rest, status := 0 }
  | "-o" :: name :: rest => do
      if optionNames.contains name then
        setOption true (optionLetter name)
        setAll rest
      else failing ("set: " ++ name ++ ": invalid option name") 2
  | "+o" :: name :: rest => do setOption false (optionLetter name); setAll rest
  | a :: rest => do
      match a.toList with
      | '-' :: letters => do
          for c in letters.filter (· != 'o') do setOption true (String.singleton c)
          if letters.contains 'o' then
            match rest with
            | name :: rest' => do
                setOption true (optionLetter name)
                modify fun m => { m with status := 0 }
                if rest' != [] then modify fun m => { m with arguments := rest' }
            | [] => setStatus 0
          else setAll rest
      | '+' :: letters => do
          for c in letters do setOption false (String.singleton c)
          setAll rest
      | _ => modify fun m => { m with arguments := a :: rest, status := 0 }

/-! ### Reading -/

/-- A line without the backslashes that keep the next character from having a meaning, and
whether it goes on with the next line. -/
def readLine (isRaw : Bool) : List Char → List Char × List Char × Bool
  | [] => ([], [], false)
  | '\n' :: rest => ([], rest, true)
  | '\\' :: c :: rest =>
      if isRaw then
        if c = '\n' then (['\\'], rest, true)
        else
          let (line, rest, isEnded) := readLine isRaw rest
          ('\\' :: c :: line, rest, isEnded)
      else
        let (line, rest, isEnded) := readLine isRaw rest
        ((if c = '\n' then line else c :: line), rest, isEnded)
  | c :: rest =>
      let (line, rest, isEnded) := readLine isRaw rest
      (c :: line, rest, isEnded)

/-- Gives names the fields of a line; the last one takes the rest. -/
def giveFields (separators : List Char) : List String → List Char → Run Unit
  | [], _ => return
  | [name], s =>
      let isBlank (c : Char) : Bool := separators.contains c && [' ', '\t', '\n'].contains c
      let text := ((s.dropWhile isBlank).reverse.dropWhile isBlank).reverse
      modify (·.set name (String.ofList text))
  | name :: rest, s => do
      let isBlank (c : Char) : Bool := separators.contains c && [' ', '\t', '\n'].contains c
      let s := s.dropWhile isBlank
      let field := s.takeWhile fun c => !separators.contains c
      modify (·.set name (String.ofList field))
      let after := (s.drop field.length).dropWhile isBlank
      let after := match after with
        | c :: more => if separators.contains c && s.drop field.length = after then more else after
        | [] => []
      giveFields separators rest after

/-- Reads a line of the input into variables. -/
def readInto (arguments : List String) : Run Unit := do
  let isRaw := arguments.any fun a => a.startsWith "-" && a.toList.contains 'r'
  let names := withoutOptions arguments
  let m ← get
  let (line, rest, isEnded) := readLine isRaw (m.input 0)
  set (m.leave 0 rest)
  if names = [] then modify (·.set "REPLY" (String.ofList line))
  else giveFields m.separators names line
  setStatus (if isEnded then 0 else 1)
where
  /-- Arguments without options and the values of those that take one. -/
  withoutOptions : List String → List String
    | [] => []
    | a :: rest =>
        if a.startsWith "-" then
          if ['p', 'n', 't', 'd', 'u'].any fun c => a.toList.getLast? = some c then withoutOptions (rest.drop 1)
          else withoutOptions rest
        else a :: withoutOptions rest
  termination_by arguments => arguments.length

/-! ### Ending -/

/-- The status that an argument names. -/
def statusOf (text : String) : Option Nat :=
  text.toInt?.map fun n => (n % 256).toNat

/-- Ends the shell or a function with the status that an argument names. -/
def endWith (command : String) (flow : Nat → Flow) (arguments : List String) : Run Unit := do
  match arguments with
  | [] => throw (flow (← get).status)
  | a :: _ =>
      match statusOf a with
      | some status => throw (flow status)
      | none => do
          complain (command ++ ": " ++ a ++ ": numeric argument required")
          throw (flow 2)

/-- The signals that have names. -/
def signals : List (String × Nat) := [
  ("EXIT", 0), ("HUP", 1), ("INT", 2), ("QUIT", 3), ("ABRT", 6), ("KILL", 9), ("USR1", 10),
  ("SEGV", 11), ("USR2", 12), ("PIPE", 13), ("ALRM", 14), ("TERM", 15), ("CHLD", 17),
  ("CONT", 18), ("STOP", 19)]

/-- The number of a signal. -/
def signalOf (text : String) : Option Nat :=
  let name := if text.startsWith "SIG" then String.ofList (text.toList.drop 3) else text
  signals.lookup (name.map Char.toUpper) <|> text.toNat?

/-- The name of a signal. -/
def signalName (n : Nat) : String :=
  ((signals.find? (·.2 == n)).map (·.1)).getD (toString n)

/-- Sets what is to be done on signals. -/
def setTraps (arguments : List String) : Run Unit := do
  setStatus 0
  match arguments with
  | [action] => if action != "-p" && action != "-l" then
      showUse "trap: usage: trap [-lp] [[arg] signal_spec ...]"
  | action :: names =>
      for name in names do
        match signalOf name with
        | none => failing ("trap: " ++ name ++ ": invalid signal specification") 1
        | some n =>
            let key := signalName n
            modify fun m =>
              let others := m.traps.filter (·.1 != key)
              { m with traps := if action = "-" then others else (key, action) :: others }
  | [] => return

/-- Sends a signal to the shell, or does what is to be done on it. -/
def signal (run : String → Run Unit) (n : Nat) : Run Unit := do
  setStatus 0
  match (← get).traps.lookup (signalName n) with
  | some action => if n = 9 then throw (.killed n) else if action = "" then return else do
      let status := (← get).status
      run action
      setStatus status
  | none => if n = 0 || n = 17 || n = 18 then return else throw (.killed n)

/-- Sends signals. -/
def kill (run : String → Run Unit) (arguments : List String) : Run Unit := do
  let send (name : String) (targets : List String) : Run Unit := do
    match signalOf name with
    | none => failing ("kill: " ++ name ++ ": invalid signal specification") 1
    | some n =>
        for target in targets do
          if target = Machine.processNumber then signal run n
          else if target.toInt?.isSome then
            failing ("kill: (" ++ target ++ ") - No such process") 1
          else failing ("kill: " ++ target ++ ": arguments must be process or job IDs") 1
  match arguments with
  | [] => showUse "kill: usage: kill [-s sigspec | -n signum | -sigspec] pid | jobspec ... or kill -l [sigspec]"
  | "-s" :: name :: targets => send name targets
  | "-n" :: name :: targets => send name targets
  | "--" :: targets => send "TERM" targets
  | a :: targets =>
      match a.toList with
      | '-' :: name => send (String.ofList name) targets
      | _ => send "TERM" (a :: targets)

/-- Leaves loops, or goes on with them. -/
def leaveLoops (command : String) (flow : Nat → Flow) (arguments : List String) : Run Unit := do
  if (← get).loops = 0 then
    failing (command ++ ": only meaningful in a \x60for', \x60while', or \x60until' loop") 0
  else
    setStatus 0
    throw (flow (min ((arguments.head?.bind String.toNat?).getD 1) (← get).loops - 1))

/-- Writes what a utility writes, and takes over what it does. -/
def carryOut (d : Done) : Run Unit := do
  modify fun m =>
    let m := if d.readsInput then m.leave 0 [] else m
    { m with tree := { d.tree with here := m.tree.here }, status := d.status }
  for (isError, text) in d.written do
    modify (·.write (if isError then 2 else 1) text)

/-- Asks a question of `test`. -/
def askTest (command : String) (arguments : List String) : Run Unit := do
  match Condition.test (← get) (arguments.length + 1) arguments with
  | .ok answer => setStatus (if answer then 0 else 1)
  | .error text => failing (command ++ ": " ++ text) 2

/-- Writes arguments in a format. -/
def printf (arguments : List String) : Run Unit := do
  let isPlain := arguments.head? = some "--"
  let (goal, arguments) := match arguments with
    | "-v" :: name :: rest => (some name, rest)
    | "--" :: rest => (none, rest)
    | _ => (none, arguments)
  let use := "printf: usage: printf [-v var] format [arguments]"
  match arguments with
  | [] => showUse use
  | format :: rest =>
      if format.startsWith "-" && format != "-" && !isPlain then
        complain ("printf: " ++ String.ofList (format.toList.take 2) ++ ": invalid option")
        showUse use
        return
      let s := format.toList
      let d := printAll (rest.length + 1) (controls (s.length + 1) s) { rest }
      setStatus (if d.complaints = [] then 0 else 1)
      match goal with
      | some name => modify (·.set name (String.ofList d.text))
      | none => put (String.ofList d.text)
      for text in d.complaints do complain text

/-- A command of the shell; `run` runs a script in the shell. -/
def builtin? (run : String → Run Unit) (name : String) : Option (List String → Run Unit) :=
  match name with
  | ":" => some fun _ => setStatus 0
  | "true" => some fun _ => setStatus 0
  | "false" => some fun _ => setStatus 1
  | "cd" => some changeDirectory
  | "pwd" => some fun arguments => do
      setStatus 0
      let m ← get
      put ((if arguments.contains "-P" then seen (Path.text m.tree.here) else (m.value? "PWD").getD "/") ++ "\n")
  | "exit" => some (endWith "exit" .exit)
  | "return" => some fun arguments => do
      if (← get).depth = 0 then
        failing "return: can only \x60return' from a function or sourced script" 2
      else endWith "return" .return arguments
  | "break" => some (leaveLoops "break" .break)
  | "continue" => some (leaveLoops "continue" .continue)
  | "set" => some setAll
  | "shift" => some fun arguments => modify fun m =>
      let n := (arguments.head?.bind String.toNat?).getD 1
      if m.arguments.length < n then { m with status := 1 }
      else { m with arguments := m.arguments.drop n, status := 0 }
  | "unset" => some fun arguments => do
      setStatus 0
      for a in arguments do
        modify fun m =>
          if arguments.contains "-f" || (m.value? a).isNone then
            { m.unset a with functions := m.functions.filter (·.1 != a) }
          else m.unset a
  | "export" => some fun arguments =>
      if arguments = [] || arguments = ["-p"] then showExported else declare "export" false true arguments
  | "readonly" => some (declare "readonly" false false)
  | "declare" => some fun arguments => do
      declare "declare" ((← get).depth != 0) (arguments.contains "-x") arguments
  | "typeset" => some fun arguments => do
      declare "typeset" ((← get).depth != 0) (arguments.contains "-x") arguments
  | "local" => some fun arguments => do
      if (← get).depth = 0 then failing "local: can only be used in a function" 1
      else declare "local" true false arguments
  | "read" => some readInto
  | "eval" => some fun arguments => do
      setStatus 0
      run (" ".intercalate arguments)
  | "trap" => some setTraps
  | "kill" => some (kill run)
  | "test" => some (askTest "test")
  | "[" => some fun arguments => do
      if arguments.getLast? = some "]" then askTest "[" arguments.dropLast
      else failing "[: missing \x60]'" 2
  | "let" => some fun arguments => if arguments = [] then failing "let: expression expected" 1 else do
      let mut last := 0
      for a in arguments do last ← compute a
      setStatus (if last = 0 then 1 else 0)
  | "printf" => some printf
  | "echo" => some fun arguments => do
      carryOut (echo { name := "echo", arguments, input := "", tree := (← get).tree })
  | "shopt" => some fun
      | "-s" :: names => do
          for n in names do setOption true n
          setStatus 0
      | "-u" :: names => do
          for n in names do setOption false n
          setStatus 0
      | _ => setStatus 0
  | "umask" => some fun arguments => do
      setStatus 0
      if arguments = [] then put "0022\n"
  | _ =>
      if ["wait", "jobs", "hash", "ulimit", "alias", "unalias", "times", "disown",
          "bg", "enable", "bind"].contains name then some fun _ => setStatus 0
      else none

end Workbench.Shell
