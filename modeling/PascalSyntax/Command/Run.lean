import PascalSyntax.Command.Folder
import PascalSyntax.Command.Options
import PascalSyntax.Command.Sink
import PascalSyntax.Listing.Tokens
import PascalSyntax.Listing.TreePrinter
import PascalSyntax.Program.FrontEnd

/-!
# One run of the command

A run works on the contents of one file.  Its output goes to a sink, and nothing
is written before the source has been read as far as it is asked for: a run
writes all, as much as there is room for, or nothing.
-/

namespace PascalSyntax

inductive Event where
  | sourceRead (file : String) (bytes : Nat)
  | tokenized (count : Nat)
  | routineMet (heading : Routine.Heading)
  | programRead (program : Program)

namespace Event

/-- The level from which on an event is logged. -/
def level : Event → LogLevel
  | sourceRead _ _ => .info
  | tokenized _ => .debug
  | routineMet _ => .trace
  | programRead _ => .debug

def text : Event → String
  | sourceRead file bytes => s!"read source file={file} bytes={bytes}"
  | tokenized count => s!"tokenized source count={count}"
  | routineMet heading =>
    s!"parsing routine routine={heading.name.name} is_function={heading.isFunction}"
  | programRead p =>
    let routines := p.routines.length
    let statements := p.body.statements.length
    s!"parsed program program={p.name.name} routines={routines} statements={statements}"

/-- The line of an event.  The name of its level is five characters wide. -/
def line (e : Event) : String :=
  let name := e.level.name
  String.ofList (List.replicate (5 - name.length) ' ') ++ name ++ " " ++ e.text

end Event

inductive RunError where
  | read (file : String) (error : ReadError)
  | frontEnd (error : FrontEndError)
  /-- The output did not fit. -/
  | write

namespace RunError

def message : RunError → String
  | read file error => s!"could not read '{file}': {error.message}"
  | frontEnd error => error.message
  | write => "could not write output: failed to write whole buffer"

end RunError

/-- What a run leaves behind: its output, its events in order, and its error if
it failed. -/
structure Run where
  output : ByteArray
  events : List Event
  error : Option RunError

namespace Run

/-- What prints the text that a source is asked for, or the error in it; and
what was to be told on the way. -/
def rendering (options : Options) (palette : Palette) (source : String) :
    List Event × Except FrontEndError Printer :=
  match tokenize options.limits.maxTokens source with
  | .error e => ([], .error (.lexical e))
  | .ok tokens =>
    let counted := Event.tokenized tokens.length
    match options.emit with
    | .tokens => ([counted], .ok (Token.print palette tokens))
    | .tree =>
      let (headings, parsed) := Program.trace options.limits.maxDepth tokens
      let met := headings.map Event.routineMet
      match parsed with
      | .error e => (counted :: met, .error (.syntactic e))
      | .ok p => (counted :: met ++ [.programRead p], .ok (p.print palette))

def ofSource (options : Options) (palette : Palette) (room : Option Nat) (source : String) : Run :=
  let begun := Event.sourceRead options.file source.utf8ByteSize
  match rendering options palette source with
  | (events, .error e) => ⟨.empty, begun :: events, some (.frontEnd e)⟩
  | (events, .ok print) =>
    let (sink, fits) := print { room }
    ⟨sink.taken, begun :: events, if fits then none else some .write⟩

def ofContents (options : Options) (palette : Palette) (room : Option Nat)
    (contents : Except ReadError ByteArray) : Run :=
  match contents with
  | .error e => ⟨.empty, [], some (.read options.file e)⟩
  | .ok bytes =>
    match String.fromUTF8? bytes with
    | none => ⟨.empty, [], some (.read options.file .notText)⟩
    | some source => ofSource options palette room source

def log (run : Run) (level : LogLevel) : List String :=
  (run.events.filter (·.level.rank ≤ level.rank)).map Event.line

end Run
end PascalSyntax
