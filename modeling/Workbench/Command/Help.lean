/-
# Help

What is told of the program and of each of its commands: what it does, how it is
written, and its arguments and options in columns.
-/

import Workbench.Command.Option

namespace Workbench.Command

/-- A text with blanks after it, up to a width. -/
def padded (width : Nat) (text : String) : String :=
  text ++ String.ofList (List.replicate (width - text.length) ' ')

/-- How the values of an option are shown. -/
def OptionForm.valuesText (o : OptionForm) : String :=
  String.join (o.values.map fun v => " <" ++ v ++ ">")

/-- An option as it is written in full. -/
def OptionForm.spelling (o : OptionForm) : String :=
  (match o.long, o.short with
    | some long, _ => "--" ++ long
    | none, some c => "-" ++ String.singleton c
    | none, none => "") ++
    o.valuesText ++ if o.isRepeatable && o.values = [] then "..." else ""

/-- An option with its short form, in a column. -/
def OptionForm.column (o : OptionForm) : String :=
  match o.long, o.short with
  | some _, some c => "  -" ++ String.singleton c ++ ", " ++ o.spelling
  | some _, none => "      " ++ o.spelling
  | none, _ => "  " ++ o.spelling

/-- What is told of an option. -/
def OptionForm.told (o : OptionForm) : String :=
  " ".intercalate <| [o.about, (o.default.map fun d => "[default: " ++ d ++ "]").getD ""].filter
    (· != "")

/-- What an option is ordered by among those of its rank. -/
def OptionForm.orderKey (o : OptionForm) : String :=
  match o.short, o.long with
  | some c, _ => String.ofList [c.toLower, if c.isLower then '0' else '1']
  | none, some long => long
  | none, none => o.name

/-- Options in the order in which they are told. -/
def orderedOptions (options : List OptionForm) : List OptionForm :=
  options.mergeSort fun a b =>
    a.rank < b.rank || (a.rank == b.rank && decide (a.orderKey ≤ b.orderKey))

/-- The lines for options. -/
def optionLines (options : List OptionForm) : List String :=
  let longest := options.foldl (fun n o => max n o.spelling.length) 0
  (orderedOptions options).map fun o => padded (longest + 8) o.column ++ o.told

/-- How the argument of a command is shown. -/
def argumentText : String × Bool → String
  | (name, true) => "<" ++ name ++ ">"
  | (name, false) => "[" ++ name ++ "]"

/-- What is told of a command. -/
def CommandForm.help (c : CommandForm) : String :=
  let argument := c.argument.map argumentText
  "\n".intercalate <|
    [c.about, "",
      "Usage: " ++ programName ++ " " ++ c.name ++ " [OPTIONS]" ++
        (argument.map (" " ++ ·)).getD "", ""] ++
    (argument.map fun text => ["Arguments:", "  " ++ text ++ "  ", ""]).getD [] ++
    ["Options:"] ++ optionLines (c.options ++ generalOptions) ++ [""]

/-- What is told of the program. -/
def programHelp : String :=
  let commands := CommandForm.all.map (fun c => (c.name, c.about)) ++
    [("help", "Print this message or the help of the given subcommand(s)")]
  let longest := commands.foldl (fun n c => max n c.1.length) 0
  "\n".intercalate <|
    [programAbout, "", "Usage: " ++ programName ++ " [OPTIONS] <COMMAND>", "", "Commands:"] ++
    commands.map (fun (name, about) => "  " ++ padded (longest + 2) name ++ about) ++
    ["", "Options:"] ++ optionLines (generalOptions ++ [versionOption]) ++ [""]

end Workbench.Command
