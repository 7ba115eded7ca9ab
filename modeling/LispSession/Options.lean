import LispSession.Source
/-!
# Command-line options

Arguments are taken from left to right up to the first that is no option; that one is the file to run, and all after it
belong to the script.  Short options can be written in one cluster; `-c` takes the rest of its cluster as its value, or
else the next argument.  A value that comes in an argument of its own is only looked at when the next option is, or at
the end.
-/
namespace LispSession

/-- Why arguments are not accepted. -/
inductive OptionError where
  | displayHelp
  | invalidValue
  | argumentConflict
  | tooManyValues
  | valueValidation
  deriving DecidableEq, Repr

/-- What a session is asked to do. -/
structure Options where
  interactive : Bool := false
  code : Option String := none
  logTests : Bool := false
  logDepth : Nat := 0
  program : List String := []
  deriving DecidableEq, Repr

namespace Options

/-- The file to run. -/
def file? (o : Options) : Option String := o.program.head?

/-- The arguments of the script. -/
def scriptArgs (o : Options) : List String := o.program.drop 1

/-- A session without a file is interactive. -/
def isInteractive (o : Options) : Bool := o.interactive || o.program.isEmpty

/-- The sources in the order in which they are run: the file, the code, the console. -/
def sources (o : Options) (file : Option Source) (console : Source) : List Source :=
  file.toList ++ o.code.toList.map .code ++ (if o.isInteractive then [console] else [])

/-- What is said at the end of an interactive session. -/
def signOff (o : Options) : String := if o.isInteractive then "\nBye. Have a nice day :)\n" else ""

end Options

/-! ## Arguments -/

/-- The options that have a long name. -/
inductive LongOption where
  | interactive | code | logTests | logDepth | help
  deriving DecidableEq, Repr

def LongOption.ofName? : String → Option LongOption
  | "interactive" => some .interactive
  | "code" => some .code
  | "log-tests" => some .logTests
  | "log-conts" => some .logDepth
  | "help" => some .help
  | _ => none

/-- What an argument looks like. -/
inductive Argument where
  | escape
  | long (option : LongOption) (value : Option String)
  | cluster (letters : List Char)
  | word

/-- A long option and its value, which stands after the first `=`. -/
def longArgument? (cs : List Char) : Option Argument :=
  let name := String.ofList (cs.takeWhile (· != '='))
  let value := match cs.dropWhile (· != '=') with
    | _ :: value => some (String.ofList value)
    | [] => none
  (LongOption.ofName? name).map (.long · value)

/-- What an argument looks like; a row of letters is a cluster only if every one of them is an option. -/
def Argument.ofString (arg : String) : Argument :=
  match arg.toList with
  | ['-', '-'] => .escape
  | '-' :: '-' :: cs => (longArgument? cs).getD .word
  | '-' :: c :: cs =>
    if (c :: cs).all fun c => c == 'i' || c == 'c' || c == 'h' then .cluster (c :: cs) else .word
  | _ => .word

/-- An unsigned number of 64 bits in decimal, with an optional plus sign. -/
def word64? (text : String) : Option Nat :=
  let digits := match text.toList with
    | '+' :: cs => cs
    | cs => cs
  if digits.isEmpty || !digits.all Char.isDigit then none
  else
    let n := digits.foldl (fun n c => n * 10 + (c.toNat - '0'.toNat)) 0
    if n < 0x10000000000000000 then some n else none

/-! ## Parsing -/

/-- The value of an option that is under way: still to come, or there but not looked at. -/
inductive PendingValue where
  | missing
  | present (text : String)

/-- The options seen so far. -/
structure OptionState where
  interactive : Bool := false
  code : Option String := none
  logTests : Bool := false
  logDepth : Option Nat := none
  pending : Option PendingValue := none

namespace OptionState

/-- Set the code, which may be done once. -/
def setCode (s : OptionState) (code : String) : Except OptionError OptionState :=
  if s.code.isSome then .error .argumentConflict else .ok { s with code := some code }

/-- Look at the value that is under way. -/
def settle (s : OptionState) : Except OptionError OptionState :=
  match s.pending with
  | none => .ok s
  | some .missing => .error .invalidValue
  | some (.present code) => { s with pending := none }.setCode code

def setInteractive (s : OptionState) : Except OptionError OptionState := do
  let s ← s.settle
  if s.interactive then .error .argumentConflict else .ok { s with interactive := true }

def setLogTests (s : OptionState) : Except OptionError OptionState := do
  let s ← s.settle
  if s.logTests then .error .argumentConflict else .ok { s with logTests := true }

/-- Set how many links a trace shows: two unless something else is said. -/
def setLogDepth (s : OptionState) (value : Option String) : Except OptionError OptionState := do
  let s ← s.settle
  if s.logDepth.isSome then .error .argumentConflict
  else
    match value with
    | none => .ok { s with logDepth := some 2 }
    | some text =>
      match word64? text with
      | some depth => .ok { s with logDepth := some depth }
      | none => .error .valueValidation

/-- Wait for a value in the next argument. -/
def awaitCode (s : OptionState) : Except OptionError OptionState := do
  let s ← s.settle
  return { s with pending := some .missing }

def long (s : OptionState) : LongOption → Option String → Except OptionError OptionState
  | .interactive, none => s.setInteractive
  | .logTests, none => s.setLogTests
  | .help, none => do
    let _ ← s.settle
    .error .displayHelp
  | .interactive, some _ | .logTests, some _ | .help, some _ => .error .tooManyValues
  | .code, none => s.awaitCode
  | .code, some code => do (← s.settle).setCode code
  | .logDepth, value => s.setLogDepth value

def cluster (s : OptionState) : List Char → Except OptionError OptionState
  | [] => .ok s
  | 'i' :: cs => do (← s.setInteractive).cluster cs
  | 'c' :: cs => if cs.isEmpty then s.awaitCode else do (← s.settle).setCode (String.ofList cs)
  | _ :: _ => do
    let _ ← s.settle
    .error .displayHelp

/-- The options, once the file and its arguments are known. -/
def finish (s : OptionState) (program : List String) : Except OptionError Options := do
  let s ← s.settle
  return ⟨s.interactive, s.code, s.logTests, s.logDepth.getD 0, program⟩

/-- Whether the next word is the value of an option. -/
def awaitsValue (s : OptionState) : Bool :=
  match s.pending with
  | some .missing => true
  | _ => false

def parse (s : OptionState) : List String → Except OptionError Options
  | [] => s.finish []
  | arg :: later =>
    match Argument.ofString arg with
    | .escape => s.finish later
    | .long option value => do (← s.long option value).parse later
    | .cluster letters => do (← s.cluster letters).parse later
    | .word =>
      if s.awaitsValue then parse { s with pending := some (.present arg) } later
      else s.finish (arg :: later)

end OptionState

/-- The options that the arguments spell. -/
def Options.parse (args : List String) : Except OptionError Options := OptionState.parse {} args

end LispSession
