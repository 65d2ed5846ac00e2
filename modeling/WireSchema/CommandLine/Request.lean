import WireSchema.CommandLine.Argument
import WireSchema.Run

/-
  The command line as a whole.

  Arguments are taken from left to right.  A double dash ends
  the flags: all that follows it is plain.  The first plain
  argument is the schema.  A double dash is never a value: a
  flag that it is attached to, as in `-o--`, is given without
  one.  This too is a rule of `argparse` from before 3.11.10
  and 3.12.3.

  Key definitions include:
    * `Request`
    * `Given`
    * `Request.parse`
    * `FileSystem.answer`
-/

namespace WireSchema

------------------------------------------------------------
-- Requests
------------------------------------------------------------

/- What a command line asks for. -/
inductive Request where
  | help
  | run (options : RunOptions) (asJson : Bool)
deriving Repr, DecidableEq, Inhabited

/- What the arguments so far have given. -/
structure Given where
  schema : Option String := none
  output : Option Destination := none
  constants : Option Destination := none
  definitions : Option Destination := none
  bases : Option String := none
  asJson : Bool := false
  extras : List String := []
deriving Repr, DecidableEq, Inhabited

/- The mark that ends the flags. -/
def endMark : String :=
  "--"

/- The destination that a value names. -/
def Destination.ofValue
    (value : String) :
    Destination :=
  if value == endMark then
    .nowhere
  else
    .file (Path.parse value)

/- The module that a value names.  Without a value it is written
   as an empty list. -/
def basesOfValue
    (value : String) :
    String :=
  if value == endMark then "[]" else value

namespace Given

/- Takes arguments that have no place. -/
def takeExtras
    (given : Given)
    (texts : List String) :
    Given :=
  { given with extras := given.extras ++ texts }

/- Takes a plain argument. -/
def takePlain
    (given : Given)
    (text : String) :
    Given :=
  match given.schema with
  | none => { given with schema := some text }
  | some _ => given.takeExtras [text]

/- Takes the value of a flag.  A later value takes the place of
   an earlier one. -/
def takeValue
    (given : Given)
    (flag : Flag)
    (value : String) :
    Given :=
  match flag with
  | .output =>
      { given with output := some (.ofValue value) }
  | .constants =>
      { given with constants := some (.ofValue value) }
  | .definitions =>
      { given with definitions := some (.ofValue value) }
  | .bases =>
      { given with bases := some (basesOfValue value) }
  | .json => given
  | .help => given

end Given

namespace Request

------------------------------------------------------------
-- Reading Arguments
------------------------------------------------------------

/- Takes the plain arguments after the last flag, and those
   after the end mark.  The mark itself is dropped if it stands
   beside the schema. -/
def takeRest
    (given : Given)
    (plains : List String)
    (afterMark : Option (List String)) :
    Given :=
  let marked :=
    match afterMark with
    | none => []
    | some texts => endMark :: texts
  match given.schema, plains, afterMark with
  | none, [], some (text :: texts) =>
      (given.takePlain text).takeExtras texts
  | none, [text], some texts =>
      (given.takePlain text).takeExtras texts
  | _, plains, _ =>
      (plains.foldl Given.takePlain given).takeExtras marked

/- Checks the letters after the help flag, which are taken for
   more short flags.  `hasValue` says whether a plain argument
   follows. -/
def checkHelp
    (hasValue : Bool) :
    List Char → Except UsageFault Unit
  | [] => .ok ()
  | ['o'] =>
      if hasValue then .ok ()
      else .error (.missingValue .output)
  | 'o' :: _ => .ok ()
  | 'h' :: rest => checkHelp hasValue rest
  | value =>
      .error (.unusedValue .help (String.ofList value))

/- Checks what is attached to a name of the help flag.  Only
   the short name can have more flags after it, with or without
   an equals sign between. -/
def checkAttached
    (hasValue isShort : Bool)
    (value : List Char) :
    Except UsageFault Unit :=
  if isShort && !value.isEmpty then
    checkHelp hasValue value
  else
    .error (.unusedValue .help (String.ofList value))

/- Whether the next argument can be a value. -/
def hasValue
    (arguments : List Argument) :
    Bool :=
  (arguments.head?.map Argument.isPlain).getD false

/- Reads arguments up to the end mark; nothing if help is asked
   for. -/
def readArguments
    (afterMark : Option (List String)) :
    Given → List Argument → Except UsageFault (Option Given)
  | given, [] => .ok (some (takeRest given [] afterMark))
  | given, .plain text :: rest =>
      if rest.all Argument.isPlain then
        .ok (some (takeRest given
          (text :: rest.map Argument.text) afterMark))
      else
        readArguments afterMark (given.takePlain text) rest
  | given, .unknown text :: rest =>
      readArguments afterMark
        (given.takeExtras [text]) rest
  | given, .flagged .json attached :: rest =>
      match attached with
      | .nothing =>
          readArguments afterMark { given with asJson := true }
            rest
      | .afterEquals _ value =>
          .error (.unusedValue .json (String.ofList value))
      | .joined value =>
          .error (.unusedValue .json (String.ofList value))
  | _, .flagged .help attached :: rest =>
      match attached with
      | .nothing => .ok none
      | .afterEquals isShort value =>
          (checkAttached (hasValue rest) isShort value).map
            fun _ => none
      | .joined value =>
          (checkAttached (hasValue rest) true value).map
            fun _ => none
  | given, .flagged flag .nothing :: .plain value :: rest =>
      readArguments afterMark (given.takeValue flag value) rest
  | _, .flagged flag .nothing :: _ => .error (.missingValue flag)
  | given, .flagged flag (.afterEquals _ value) :: rest =>
      readArguments afterMark
        (given.takeValue flag (String.ofList value)) rest
  | given, .flagged flag (.joined value) :: rest =>
      readArguments afterMark
        (given.takeValue flag (String.ofList value)) rest

/- The arguments before the end mark, and those after it. -/
def splitAtMark :
    List String → List String × Option (List String)
  | [] => ([], none)
  | text :: texts =>
      if text == endMark then
        ([], some texts)
      else
        let (before, afterMark) := splitAtMark texts
        (text :: before, afterMark)

------------------------------------------------------------
-- Completing Requests
------------------------------------------------------------

/- The labels of what must be given and is not. -/
def missingLabels
    (given : Given) :
    List String :=
  (if given.schema.isNone then ["schema"] else []) ++
    (if given.output.isNone then [Flag.label .output] else [])

/- The request that has been given. -/
def ofGiven
    (given : Given) :
    Except UsageFault Request :=
  match given.schema, given.output with
  | some schema, some output =>
      if given.extras.isEmpty then
        .ok (.run
          { schema := Path.parse schema
            output := output
            constants := given.constants
            definitions := given.definitions
            basesModule :=
              given.bases.getD defaultBasesModule
            skippedTags := Shape.builtinTags }
          given.asJson)
      else
        .error (.unrecognized given.extras)
  | _, _ => .error (.missingArguments (missingLabels given))

/- Reads a command line. -/
def parse
    (texts : List String) :
    Except UsageFault Request := do
  let (before, afterMark) := splitAtMark texts
  let arguments ← before.mapM Argument.parse
  match ← readArguments afterMark {} arguments with
  | none => return .help
  | some given => ofGiven given

end Request

------------------------------------------------------------
-- Answers
------------------------------------------------------------

/- What a command line leads to.  Help is shown outside. -/
inductive Answer where
  | help
  | refused (fault : UsageFault)
  | failed (fault : RunFault)
  | done (outcome : Outcome)
deriving Repr, DecidableEq

/- Answers a command line. -/
def FileSystem.answer
    (system : FileSystem)
    (process : Nat)
    (texts : List String) :
    FileSystem × Answer :=
  match Request.parse texts with
  | .error fault => (system, .refused fault)
  | .ok .help => (system, .help)
  | .ok (.run options asJson) =>
      match system.run process options with
      | (system, .error fault) => (system, .failed fault)
      | (system, .ok diagnostics) =>
          (system, .done (.ofDiagnostics asJson diagnostics))

end WireSchema
