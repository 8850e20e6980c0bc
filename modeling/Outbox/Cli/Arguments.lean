/-!
# Command-line arguments

There are three commands: `diff` and `patch` with two files each, and `plan` with one file and up
to three options. The switch `-v` may stand anywhere and any number of times. An option takes its
value after an equals sign or from the next argument, which then must not look like a switch, and
is given once at most. After `--` everything is a file.

File names are not empty.

`Command` models `Commands`, and `Command.read?` the parser that is derived for `Cli`.
-/

namespace Outbox.Cli

/-- What to do. -/
inductive Command where
  | diff (old new : String)
  | patch (data patches : String)
  | plan (queue : String) (remote config checkpoint : Option String)
  deriving DecidableEq, Repr

/-- An argument that asks for more log output. -/
def isVerbose (arg : String) : Bool :=
  arg == "--verbose" ||
    match arg.toList with
    | '-' :: 'v' :: rest => rest.all (· == 'v')
    | _ => false

/-- An argument that begins with a hyphen and is not the hyphen alone. -/
def isSwitch (arg : String) : Bool :=
  match arg.toList with
  | '-' :: _ :: _ => true
  | _ => false

/-- What the arguments of a command say. -/
structure Operands where
  files : List String
  options : List (String × String)
  deriving DecidableEq, Repr

namespace Operands

/-- Nothing has been said. -/
def empty : Operands := ⟨[], []⟩

/-- Adds a file. -/
def addFile (o : Operands) (file : String) : Operands := { o with files := o.files ++ [file] }

/-- Sets an option, unless it has been set. -/
def setOption? (o : Operands) (name value : String) : Option Operands :=
  if (o.options.lookup name).isSome then none
  else some { o with options := o.options ++ [(name, value)] }

/-- Splits an option at its first equals sign. -/
def splitOption (arg : String) : String × Option String :=
  let cs := arg.toList
  match cs.dropWhile (· != '=') with
  | [] => (arg, none)
  | _ :: value => (String.ofList (cs.takeWhile (· != '=')), some (String.ofList value))

/-- Reads the arguments of a command that has the given options. -/
def read? (names : List String) (o : Operands) : List String → Option Operands
  | [] => some o
  | arg :: rest =>
    if arg = "--" then some (rest.foldl addFile o)
    else if isVerbose arg then read? names o rest
    else if isSwitch arg then
      match splitOption arg with
      | (name, some value) =>
        if names.contains name then do
          let o ← o.setOption? name value
          read? names o rest
        else none
      | (name, none) =>
        if names.contains name then
          match rest with
          | value :: rest =>
            if isSwitch value then none
            else do
              let o ← o.setOption? name value
              read? names o rest
          | [] => none
        else none
    else read? names (o.addFile arg) rest

end Operands

/-- The options of `plan`. -/
def planOptions : List String := ["--remote", "--config", "--checkpoint"]

/-- The command with its operands, if they are what it needs. -/
def Command.ofOperands? (name : String) (o : Operands) : Option Command :=
  let remote := o.options.lookup "--remote"
  let config := o.options.lookup "--config"
  if o.files.contains "" || remote == some "" || config == some "" then none
  else
    match name, o.files with
    | "diff", [old, new] => some (.diff old new)
    | "patch", [data, patches] => some (.patch data patches)
    | "plan", [queue] => some (.plan queue remote config (o.options.lookup "--checkpoint"))
    | _, _ => none

/-- Reads the arguments; there is no command if they are not used as they should be. -/
def Command.read? : List String → Option Command
  | [] => none
  | arg :: rest =>
    if isVerbose arg then Command.read? rest
    else if arg = "diff" ∨ arg = "patch" then do
      Command.ofOperands? arg (← Operands.read? [] .empty rest)
    else if arg = "plan" then do
      Command.ofOperands? arg (← Operands.read? planOptions .empty rest)
    else none

/-- The files that a command reads, in this order. -/
def Command.files : Command → List String
  | .diff old new => [old, new]
  | .patch data patches => [data, patches]
  | .plan queue remote config _ => queue :: remote.toList ++ config.toList

end Outbox.Cli
