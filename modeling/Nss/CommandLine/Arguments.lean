/-
# Arguments of the command line

Options can be given in long form, `--name value` or `--name=value`, and most of them by one letter,
`-n value`, `-nvalue` or `-n=value`; letters of options without value can be written together.  Behind
`--` everything is an input.  Arguments are read from the left, and the first mistake, or the first
question for help or for the version, ends the reading.
-/
import Nss.Session

namespace Nss

/-- What the command line asks for. -/
structure Arguments where
  inputs : List String
  list : Option String
  output : Option String
  includeDirs : List String
  debug : Bool
  directory : Bool
  disasm : Bool
  verbose : Nat
deriving DecidableEq, Repr, Inhabited

/-- Why there are no arguments to work with. -/
inductive ArgumentStop where
  /-- An option is unknown, lacks its value, has one that it does not take, or is given twice, or no
  input is given. -/
  | misuse
  | help
  | version
deriving DecidableEq, Repr, Inhabited

/-- An option. -/
inductive Flag where
  | list
  | output
  | includeDir
  | debug
  | directory
  | disasm
  | verbose
  | help
  | version
deriving DecidableEq, Repr, Inhabited

namespace Flag

/-- The option with a long name. -/
def ofName? : String → Option Flag
  | "list" => some list
  | "output" => some output
  | "include" => some includeDir
  | "debug" => some debug
  | "directory" => some directory
  | "disasm" => some disasm
  | "verbose" => some verbose
  | "help" => some help
  | "version" => some version
  | _ => none

/-- The option with a letter. -/
def ofLetter? : Char → Option Flag
  | 'l' => some list
  | 'o' => some output
  | 'i' => some includeDir
  | 'g' => some debug
  | 'd' => some directory
  | 'v' => some verbose
  | 'h' => some help
  | 'V' => some version
  | _ => none

/-- Whether an option takes a value. -/
def takesValue : Flag → Bool
  | list | output | includeDir => true
  | _ => false

end Flag

namespace Arguments

/-- Nothing asked for. -/
def none : Arguments := ⟨[], .none, .none, [], false, false, false, 0⟩

/-- Sets an option without value. -/
def setFlag (a : Arguments) : Flag → Except ArgumentStop Arguments
  | .debug => if a.debug then .error .misuse else .ok { a with debug := true }
  | .directory => if a.directory then .error .misuse else .ok { a with directory := true }
  | .disasm => if a.disasm then .error .misuse else .ok { a with disasm := true }
  | .verbose => .ok { a with verbose := a.verbose + 1 }
  | .help => .error .help
  | .version => .error .version
  | .list | .output | .includeDir => .error .misuse

/-- Sets an option with its value, which cannot be empty. -/
def setValue (a : Arguments) (flag : Flag) (value : String) : Except ArgumentStop Arguments :=
  if value = "" then .error .misuse
  else match flag with
    | .list => if a.list.isSome then .error .misuse else .ok { a with list := some value }
    | .output => if a.output.isSome then .error .misuse else .ok { a with output := some value }
    | .includeDir => .ok { a with includeDirs := a.includeDirs ++ [value] }
    | _ => .error .misuse

/-- Adds an input, which cannot be empty. -/
def addInput (a : Arguments) (input : String) : Except ArgumentStop Arguments :=
  if input = "" then .error .misuse else .ok { a with inputs := a.inputs ++ [input] }

/-- Adds inputs. -/
def addInputs (a : Arguments) (inputs : List String) : Except ArgumentStop Arguments :=
  inputs.foldlM addInput a

/-- What is left to do once an argument is read. -/
inductive Step where
  | done (a : Arguments)
  /-- The next argument is the value of an option. -/
  | awaits (a : Arguments) (flag : Flag)

/-- Reads options given by letters. -/
def readLetters (a : Arguments) : List Char → Except ArgumentStop Step
  | [] => .ok (.done a)
  | c :: rest =>
    match Flag.ofLetter? c with
    | .none => .error .misuse
    | some flag =>
      if flag.takesValue then
        match rest with
        | [] => .ok (.awaits a flag)
        | '=' :: value => .done <$> a.setValue flag (String.ofList value)
        | value => .done <$> a.setValue flag (String.ofList value)
      else do readLetters (← a.setFlag flag) rest

/-- Reads an option given by its name, and its value if one follows after `=`. -/
def readName (a : Arguments) (cs : List Char) : Except ArgumentStop Step :=
  let name := cs.takeWhile (· ≠ '=')
  match Flag.ofName? (String.ofList name), cs.drop name.length with
  | .none, _ => .error .misuse
  | some flag, '=' :: value =>
    if flag.takesValue then .done <$> a.setValue flag (String.ofList value) else .error .misuse
  | some flag, _ => if flag.takesValue then .ok (.awaits a flag) else .done <$> a.setFlag flag

/-- Whether an argument is taken for an option, so that it cannot be a value that stands alone. -/
def looksLikeOption (arg : String) : Bool :=
  match arg.toList with
  | '-' :: _ :: _ => true
  | _ => false

/-- Reads arguments one after the other. -/
def readAll (a : Arguments) : List String → Except ArgumentStop Arguments
  | [] => .ok a
  | arg :: rest => do
    match arg.toList with
    | ['-', '-'] => a.addInputs rest
    | '-' :: '-' :: name => goOn (← a.readName name) rest
    | '-' :: c :: letters => goOn (← a.readLetters (c :: letters)) rest
    | _ => (← a.addInput arg).readAll rest
where
  /-- Goes on behind an option, whose value may come first. -/
  goOn (step : Step) (rest : List String) : Except ArgumentStop Arguments :=
    match step, rest with
    | .done a, rest => a.readAll rest
    | .awaits _ _, [] => .error .misuse
    | .awaits a flag, value :: rest => do
      if looksLikeOption value then throw .misuse
      (← a.setValue flag value).readAll rest

/-- Reads the command line.  Without a list file there must be an input. -/
def read (args : List String) : Except ArgumentStop Arguments := do
  let a ← none.readAll args
  if a.inputs.isEmpty ∧ a.list.isNone then throw .misuse
  return a

end Arguments
end Nss
