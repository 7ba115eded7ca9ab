import LispSession.Options
import LispSession.SelfCheck
import LispSession.Session
import LispSession.Text.Typed
/-!
# The program

The program parses its options, checks itself, opens its sources and runs a session over them.  Everything it reads is
given and everything it writes is returned, so that the outer layer only has to carry bytes.
-/
namespace LispSession

/-- How a console puts it that a backspace would cut a character in two. -/
def cutCharacter : String := "assertion failed: self.is_char_boundary(new_len)"

/-- A console at the end of a pipe: every line that is text loses its line end, and its backspaces do their work. -/
def pipedEvent (line : List UInt8) : ConsoleEvent :=
  let line := match line.reverse with
    | 10 :: 13 :: rest => rest.reverse
    | 10 :: rest => rest.reverse
    | _ => line
  match decodeUtf8? line with
  | none => .failure invalidUtf8
  | some typed =>
    match typedLine? typed with
    | some text => .line (String.ofList text)
    | none => .collapse cutCharacter

/-- A console at the end of a pipe, which shows no prompts. -/
def pipedConsole (bytes : List UInt8) : Source :=
  let (lines, rest) := splitLines 10 bytes
  .console ((lines ++ (if rest.isEmpty then [] else [rest])).map pipedEvent) none

/-- How the program ends. -/
inductive ProgramEnd where
  | badOptions (error : OptionError)
  | checkFailed (failure : CheckFailure)
  | cannotOpen (name : String)
  | finished

/-- The exit code. -/
def ProgramEnd.code : ProgramEnd → UInt8
  | .badOptions .displayHelp => 0
  | .badOptions _ => 2
  | .checkFailed _ | .cannotOpen _ => 1
  | .finished => 0

/-- The whole text of a write that nothing can refuse. -/
def Writing.whole (stream : Stream) (text : String) : Writing := ⟨stream, text, text.utf8ByteSize⟩

/-- Run a session over sources, without colours; everything written, first write first. -/
def runSources (options : Options) (sources : List Source) : List Writing :=
  let interpreter := Interpreter.start options.scriptArgs defaultDepthLimit
  let session := Session.start sources interpreter interpreter.globals .healthy .healthy
  let session := { session with traceDepth := options.logDepth, colours := false }
  let (session, _) := session.run ⟨.standard, .standard⟩
  session.transcript ++ [.whole .err options.signOff]

/-- Run the program: how it ends and what it writes.  `openFile` gives the source a file holds, if it can be opened. -/
def runProgram (args : List String) (openFile : String → Option Source) (input : List UInt8) :
    ProgramEnd × List Writing :=
  match Options.parse args with
  | .error error => (.badOptions error, [])
  | .ok options =>
    let cases := components printerCases (evaluatorCases options.scriptArgs defaultDepthLimit)
    let (log, failure) := selfCheck options.logTests false "" cases
    let log := [Writing.whole .err log]
    match failure with
    | some failure => (.checkFailed failure, log)
    | none =>
      let ready := if options.logTests then "All tests passed... lisp-rs interpreter operational\n" else ""
      let log := log ++ [.whole .err ready]
      let run (file : Option Source) : ProgramEnd × List Writing :=
        (.finished, log ++ runSources options (options.sources file (pipedConsole input)))
      match options.file? with
      | none => run none
      | some name =>
        match openFile name with
        | some file => run (some file)
        | none => (.cannotOpen name, log)

end LispSession
