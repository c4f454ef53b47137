import PascalSyntax.Command.Run

/-!
# The command

The command reads one source file and prints the listing of its tokens or the
outline of its program.
-/

namespace PascalSyntax

def usage : String :=
  "Tokenize or parse a Pascal source file.\n\n" ++
  "Usage: pascal-syntax [OPTIONS] <FILE>\n\n" ++
  "Options:\n" ++
  "      --emit <EMIT>              What to print: tokens or ast\n" ++
  "      --no-color                 Never color the output\n" ++
  "      --max-depth <MAX_DEPTH>    Maximum nesting depth of statements and expressions\n" ++
  "      --max-tokens <MAX_TOKENS>  Maximum number of tokens in the source\n" ++
  "  -v, --verbose...               Log more (-v info, -vv debug, -vvv trace)\n" ++
  "  -h, --help                     Print help\n" ++
  "  -V, --version                  Print version\n"

def Options.Refusal.message : Options.Refusal → String
  | .displayHelp => usage
  | .displayVersion => "pascal-syntax 0.1.0\n"
  | .unknownArgument => "error: unexpected argument found\n"
  | .invalidValue => "error: a value is missing or invalid\n"
  | .valueValidation => "error: a value is no number of the right size\n"
  | .tooManyValues => "error: a value for an option that has none\n"
  | .argumentConflict => "error: an option cannot be used multiple times\n"
  | .missingRequiredArgument =>
    "error: the following required arguments were not provided: <FILE>\n"

/-- Whether a refusal only asks for something to be shown. -/
def Options.Refusal.isRequest : Options.Refusal → Bool
  | .displayHelp => true
  | .displayVersion => true
  | _ => false

/-- The failure that the system reports for a file.  The system refuses to read
a folder, and to open what stands below a file; the first has the code 21. -/
def ReadError.ofSystem : IO.Error → ReadError
  | .noFileOrDirectory .. => .notFound
  | .inappropriateType _ code _ => if code = 21 then .isFolder else .notFolder
  | e => .other (toString e)

def readFile (path : String) : IO (Except ReadError ByteArray) := do
  try
    return .ok (← IO.FS.readBinFile path)
  catch e =>
    return .error (ReadError.ofSystem e)

/-- Runs the command with some options; the result is its exit code. -/
def runCommand (options : Options) : IO UInt32 := do
  let out ← IO.getStdout
  let err ← IO.getStderr
  let palette : Palette := { enabled := options.useColor (← out.isTty) }
  let run := Run.ofContents options palette none (← readFile options.file)
  for line in run.log options.logLevel do
    err.putStrLn line
  out.write run.output
  out.flush
  match run.error with
  | none => return 0
  | some e =>
    err.putStrLn s!"Error: {options.file}: {e.message}"
    return 1

end PascalSyntax

def main (args : List String) : IO UInt32 := do
  match PascalSyntax.Options.ofArguments args with
  | .ok options => PascalSyntax.runCommand options
  | .error refusal =>
    if refusal.isRequest then
      (← IO.getStdout).putStr refusal.message
      return 0
    else
      (← IO.getStderr).putStr refusal.message
      return 2
