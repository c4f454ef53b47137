import PascalSyntax.Limits
import PascalSyntax.Text.Numeral

/-!
# Options

Arguments are taken from left to right, and the first that is at fault ends the
reading.

The value of an option may stand in the same argument, after an equals sign, or
be the next argument.  A fault in a value of the second kind, or in the name of
the file, comes to light only when the argument after it has been recognised: an
argument that is not known at all is refused before it.
-/

namespace PascalSyntax

inductive Emit where
  | tokens
  | tree
deriving DecidableEq, Repr

namespace Emit

def name : Emit → String
  | tokens => "tokens"
  | tree => "ast"

def ofName? (text : String) : Option Emit :=
  [tokens, tree].find? (·.name = text)

end Emit

/-- How much the command logs: a level includes those before it. -/
inductive LogLevel where
  | warn
  | info
  | debug
  | trace
deriving DecidableEq, Repr

namespace LogLevel

def rank : LogLevel → Nat
  | warn => 0
  | info => 1
  | debug => 2
  | trace => 3

def name : LogLevel → String
  | warn => "WARN"
  | info => "INFO"
  | debug => "DEBUG"
  | trace => "TRACE"

end LogLevel

structure Options where
  file : String
  emit : Emit := .tokens
  noColor : Bool := false
  limits : Limits := .standard
  verbose : Nat := 0
deriving DecidableEq, Repr

namespace Options

/-- The greatest count of verbose flags; more of them change nothing. -/
def maxVerbose : Nat := 255

def logLevel (o : Options) : LogLevel :=
  match o.verbose with
  | 0 => .warn
  | 1 => .info
  | 2 => .debug
  | _ => .trace

/-- Colour is used on a terminal only, and not where it is refused. -/
def useColor (o : Options) (onTerminal : Bool) : Bool :=
  onTerminal && !o.noColor

/-- Why arguments give no options.  A request for help or for the version is one
such reason. -/
inductive Refusal where
  | displayHelp
  | displayVersion
  | unknownArgument
  | invalidValue
  | valueValidation
  | tooManyValues
  | argumentConflict
  | missingRequiredArgument
deriving DecidableEq, Repr

inductive Valued where
  | emit
  | maxDepth
  | maxTokens
deriving DecidableEq, Repr

inductive Flag where
  | noColor
  | verbose
  | help
  | version
deriving DecidableEq, Repr

def Valued.ofLong? : String → Option Valued
  | "emit" => some .emit
  | "max-depth" => some .maxDepth
  | "max-tokens" => some .maxTokens
  | _ => none

def Flag.ofLong? : String → Option Flag
  | "no-color" => some .noColor
  | "verbose" => some .verbose
  | "help" => some .help
  | "version" => some .version
  | _ => none

def Flag.ofShort? : Char → Option Flag
  | 'v' => some .verbose
  | 'h' => some .help
  | 'V' => some .version
  | _ => none

/-- What is still open after an argument. -/
inductive Pending where
  | nothing
  /-- The value of an option. -/
  | value (option : Valued)
  /-- A fault that comes to light once the next argument has been recognised. -/
  | fault (refusal : Refusal)
deriving DecidableEq, Repr

structure Gathered where
  file : Option String := none
  emit : Option Emit := none
  noColor : Bool := false
  maxDepth : Option Nat := none
  maxTokens : Option Nat := none
  verbose : Nat := 0
  pending : Pending := .nothing
  /-- Whether the options have ended, so that the arguments from here on are
  names of files. -/
  optionsEnded : Bool := false
deriving DecidableEq, Repr

namespace Gathered

/-- Brings to light what is open, once an argument has been recognised or there
are no more. -/
def settle (g : Gathered) : Except Refusal Gathered :=
  match g.pending with
  | .nothing => .ok g
  | .value _ => .error .invalidValue
  | .fault refusal => .error refusal

/-- A number as the value of an option that has none yet. -/
def number (present : Option Nat) (text : String) : Except Refusal Nat :=
  match present, Numeral.unsigned? text.toList with
  | some _, _ => .error .argumentConflict
  | none, none => .error .valueValidation
  | none, some n => .ok n

def set (g : Gathered) (option : Valued) (text : String) : Except Refusal Gathered :=
  match option with
  | .emit =>
    match g.emit, Emit.ofName? text with
    | some _, _ => .error .argumentConflict
    | none, none => .error .invalidValue
    | none, some emit => .ok { g with emit := some emit }
  | .maxDepth => do
    let n ← number g.maxDepth text
    return { g with maxDepth := some n }
  | .maxTokens => do
    let n ← number g.maxTokens text
    return { g with maxTokens := some n }

def raise (g : Gathered) (flag : Flag) : Except Refusal Gathered := do
  let g ← g.settle
  match flag with
  | .noColor => if g.noColor then .error .argumentConflict else .ok { g with noColor := true }
  | .verbose => .ok { g with verbose := min (g.verbose + 1) maxVerbose }
  | .help => .error .displayHelp
  | .version => .error .displayVersion

def takeLetters (g : Gathered) : List Char → Except Refusal Gathered
  | [] => .ok g
  | letter :: others =>
    match Flag.ofShort? letter with
    | none => .error .unknownArgument
    | some flag => do
      let g ← g.raise flag
      g.takeLetters others

/-- Takes a long option: its name and, if there is an equals sign, what follows
that. -/
def takeLong (g : Gathered) (name : String) (value : Option String) : Except Refusal Gathered :=
  match Valued.ofLong? name, Flag.ofLong? name, value with
  | some option, _, some text => do
    let g ← g.settle
    g.set option text
  | some option, _, none => do
    let g ← g.settle
    return { g with pending := .value option }
  | none, some _, some _ => .error .tooManyValues
  | none, some flag, none => g.raise flag
  | none, none, _ => .error .unknownArgument

def takeFile (g : Gathered) (name : String) : Except Refusal Gathered :=
  match g.file with
  | some _ => .error .unknownArgument
  | none => do
    let g ← g.settle
    let pending := if name = "" then .fault .invalidValue else .nothing
    return { g with file := some name, pending }

/-- Takes an argument that is no option: the value that is open, or the name of
the file. -/
def takePlain (g : Gathered) (text : String) : Except Refusal Gathered :=
  match g.pending with
  | .value option =>
    match g.set option text with
    | .ok g => .ok { g with pending := .nothing }
    | .error refusal => .ok { g with pending := .fault refusal }
  | _ => g.takeFile text

/-- Ends the options.  A value that is open cannot come any more. -/
def endOptions (g : Gathered) : Gathered :=
  match g.pending with
  | .value _ => { g with optionsEnded := true, pending := .fault .invalidValue }
  | _ => { g with optionsEnded := true }

def take (g : Gathered) (argument : String) : Except Refusal Gathered :=
  if g.optionsEnded then
    g.takeFile argument
  else
    match argument.toList with
    | ['-', '-'] => .ok g.endOptions
    | '-' :: '-' :: text =>
      let name := String.ofList (text.takeWhile (· ≠ '='))
      match text.dropWhile (· ≠ '=') with
      | _ :: value => g.takeLong name (some (String.ofList value))
      | [] => g.takeLong name none
    | '-' :: letter :: letters => g.takeLetters (letter :: letters)
    | _ => g.takePlain argument

/-- The options that all arguments give; what was not given has its standard
value. -/
def finish (g : Gathered) : Except Refusal Options := do
  let g ← g.settle
  match g.file with
  | none => .error .missingRequiredArgument
  | some file =>
    .ok {
      file
      emit := g.emit.getD .tokens
      noColor := g.noColor
      limits :=
        { maxDepth := g.maxDepth.getD Limits.standard.maxDepth
          maxTokens := g.maxTokens.getD Limits.standard.maxTokens }
      verbose := g.verbose }

end Gathered

def ofArguments (arguments : List String) : Except Refusal Options := do
  let g ← arguments.foldlM Gathered.take {}
  g.finish

end Options
end PascalSyntax
