import LispSession.Program
/-!
# Command line

The outer layer: it reads the file and the console, runs the program on their bytes and writes what comes of it.
-/
namespace LispSession

/-- Everything that is left on a stream. -/
partial def readToEnd (stream : IO.FS.Stream) (sofar : ByteArray) : IO ByteArray := do
  let piece ← stream.read 65536
  if piece.isEmpty then return sofar else readToEnd stream (sofar ++ piece)

/-- The bytes of an open file, and the text of the failure that cut the reading short. -/
def readHandle (handle : IO.FS.Handle) : IO (List UInt8 × Option String) := do
  try
    let bytes ← handle.readBinToEnd
    return (bytes.toList, none)
  catch e =>
    return ([], some (toString e))

/-- The source a file holds, if it can be opened. -/
def openSource (name : String) : IO (Option Source) := do
  try
    let handle ← IO.FS.Handle.mk name .read
    let (bytes, failure) ← readHandle handle
    return some (.file name bytes failure)
  catch _ =>
    return none

/-- Write to the streams in order. -/
def writeAll (writings : List Writing) : IO Unit := do
  let stdout ← IO.getStdout
  let stderr ← IO.getStderr
  for w in writings do
    match w.stream with
    | .out => stdout.putStr w.text
    | .err => stderr.putStr w.text
  stdout.flush

/-- What is said when the program cannot start. -/
def excuse : ProgramEnd → String
  | .badOptions .displayHelp => "usage: [-i] [-c CODE] [--log-tests] [--log-conts[=DEPTH]] [FILE [ARGS]]\n"
  | .badOptions _ => "error: the arguments cannot be understood; see --help\n"
  | .checkFailed failure => "error: " ++ failure.message ++ "\n"
  | .cannotOpen name => "error: Could not open " ++ name ++ "\n"
  | .finished => ""

end LispSession

open LispSession

def main (args : List String) : IO UInt32 := do
  let options := Options.parse args
  let file ← match options with
    | .ok { program := name :: _, .. } => openSource name
    | _ => pure none
  let input ← match options with
    | .ok o => if o.isInteractive then readToEnd (← IO.getStdin) .empty else pure .empty
    | .error _ => pure .empty
  let (finish, writings) := runProgram args (fun _ => file) input.toList
  writeAll writings
  (← IO.getStderr).putStr (excuse finish)
  return finish.code.toUInt32
