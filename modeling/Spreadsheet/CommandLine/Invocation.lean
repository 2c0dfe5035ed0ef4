/-! # Invocations
An **invocation** is what the arguments of the command ask for: the version, or a subcommand with
its files and flags. Flags may stand anywhere after the subcommand, short ones also in a cluster,
each at most once; after a double hyphen nothing is a flag. A file has a name that is not empty. -/

namespace Spreadsheet.CommandLine

/-- What the command is asked to do. -/
inductive Invocation where
  /-- Tell the version. -/
  | version
  /-- Evaluate every cell of a sheet file. -/
  | calculate (file : String) (verbose json : Bool)
  /-- Check sheet files. -/
  | validate (files : List String)
  /-- Explain one cell of a sheet file. -/
  | audit (file cell : String)
  deriving Repr, DecidableEq

/-- A choice that an argument makes. -/
inductive Flag where
  /-- Show each evaluated cell. -/
  | verbose
  /-- Print the snapshot instead of a grid. -/
  | json
  deriving Repr, DecidableEq

namespace Flag

/-- The flag with a long name. -/
def ofName? (name : List Char) : Option Flag :=
  if name = "verbose".toList then some verbose
  else if name = "json".toList then some json
  else none

/-- The flag with a short name. -/
def ofLetter? (c : Char) : Option Flag := if c = 'v' then some verbose else none

/-- The flags that one argument stands for; `none` if the argument is no flag, and an inner `none`
if it looks like one and is not known. -/
def ofArgument (arg : String) : Option (Option (List Flag)) :=
  match arg.toList with
  | '-' :: '-' :: name => some ((ofName? name).map ([·]))
  | '-' :: c :: more => some ((c :: more).mapM ofLetter?)
  | _ => none

end Flag

/-- The flags and the other arguments among arguments; `none` if a flag is not known. -/
def separate : List String → Option (List Flag × List String)
  | [] => some ([], [])
  | arg :: rest =>
    if arg = "--" then some ([], rest)
    else do
      let (flags, others) ← separate rest
      match Flag.ofArgument arg with
      | none => return (flags, arg :: others)
      | some known => return ((← known) ++ flags, others)

namespace Invocation

/-- The files that an invocation reads, in order. -/
def files : Invocation → List String
  | version => []
  | calculate file _ _ | audit file _ => [file]
  | validate files => files

/-- What arguments ask for; `none` if they are not understood. -/
def ofArguments? (args : List String) : Option Invocation :=
  match args with
  | [] => none
  | first :: rest =>
    if first = "--version" ∨ "-V".toList.isPrefixOf first.toList then some version
    else do
      let (flags, others) ← separate rest
      match first, others with
      | "calculate", [file] =>
        if file ≠ "" ∧ flags.Nodup then
          some (calculate file (flags.contains .verbose) (flags.contains .json))
        else none
      | "validate", file :: more =>
        if "" ∉ file :: more ∧ flags = [] then some (validate (file :: more)) else none
      | "audit", [file, cell] =>
        if file ≠ "" ∧ flags = [] then some (audit file cell) else none
      | _, _ => none

end Invocation

end Spreadsheet.CommandLine
