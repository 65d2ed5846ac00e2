import WireSchema.Text.Decimal
import WireSchema.Text.Edit
import WireSchema.Text.Quoted

/-
  Arguments of the command line, each by itself.

  A long flag may be shortened as long as only one flag starts
  that way.  A value follows a flag as the next argument, after
  an equals sign, or directly after a short flag.

  The rules are those of `argparse` as it was before the
  releases 3.11.10 and 3.12.3.  From these on, `-o--` gives the
  path `--`, `-hx` calls for help, and the `o` of `-h=o` is no
  flag but a value that is refused.

  Key definitions include:
    * `Flag`
    * `UsageFault`
    * `Argument`
    * `Argument.parse`
-/

namespace WireSchema

------------------------------------------------------------
-- Flags
------------------------------------------------------------

/- The flags of the command line. -/
inductive Flag where
  | help
  | output
  | constants
  | definitions
  | bases
  | json
deriving Repr, DecidableEq, Inhabited

namespace Flag

/- All flags, in the order in which they are listed. -/
def all : List Flag :=
  [.help, .output, .constants, .definitions, .bases, .json]

/- The letter of a short flag. -/
def letter? :
    Flag → Option Char
  | .help => some 'h'
  | .output => some 'o'
  | _ => none

/- The long name of a flag. -/
def longName :
    Flag → String
  | .help => "--help"
  | .output => "--output"
  | .constants => "--constants"
  | .definitions => "--emit-json"
  | .bases => "--runtime-module"
  | .json => "--json"

/- The short name of a flag. -/
def shortName?
    (flag : Flag) :
    Option String :=
  flag.letter?.map fun letter => String.ofList ['-', letter]

/- All names of a flag. -/
def names
    (flag : Flag) :
    List String :=
  flag.shortName?.toList ++ [flag.longName]

/- The names of a flag in one text. -/
def label
    (flag : Flag) :
    String :=
  "/".intercalate flag.names

/- The flag of a full name. -/
def ofName?
    (name : String) :
    Option Flag :=
  all.find? fun flag => flag.names.contains name

/- The flag of a letter. -/
def ofLetter?
    (letter : Char) :
    Option Flag :=
  all.find? fun flag => flag.letter? == some letter

/- The flags whose long name starts in a given way. -/
def startingWith
    (start : List Char) :
    List Flag :=
  all.filter fun flag =>
    (Text.afterStart start flag.longName.toList).isSome

end Flag

------------------------------------------------------------
-- Faults
------------------------------------------------------------

/- Why a command line is refused. -/
inductive UsageFault where
  | ambiguous (argument : String) (flags : List Flag)
  | missingValue (flag : Flag)
  | unusedValue (flag : Flag) (value : String)
  | missingArguments (labels : List String)
  | unrecognized (arguments : List String)
deriving Repr, DecidableEq, Inhabited

namespace UsageFault

/- What is said of a fault. -/
def message :
    UsageFault → String
  | .ambiguous argument flags =>
      "ambiguous option: " ++ argument ++ " could match " ++
        ", ".intercalate (flags.map Flag.longName)
  | .missingValue flag =>
      "argument " ++ flag.label ++ ": expected one argument"
  | .unusedValue flag value =>
      "argument " ++ flag.label ++
        ": ignored explicit argument " ++ Text.quoted value
  | .missingArguments labels =>
      "the following arguments are required: " ++
        ", ".intercalate labels
  | .unrecognized arguments =>
      "unrecognized arguments: " ++ " ".intercalate arguments

end UsageFault

------------------------------------------------------------
-- Arguments
------------------------------------------------------------

/- A value within the argument of its flag: none, one after an
   equals sign, which follows a short or a long name, or one
   directly after a short name. -/
inductive Attached where
  | nothing
  | afterEquals (isShort : Bool) (value : List Char)
  | joined (value : List Char)
deriving Repr, DecidableEq, Inhabited

/- What an argument is, by itself. -/
inductive Argument where
  | plain (text : String)
  | unknown (text : String)
  | flagged (flag : Flag) (attached : Attached)
deriving Repr, DecidableEq, Inhabited

namespace Argument

/- Digits and nothing else, but at least one. -/
def isNumeral
    (cs : List Char) :
    Bool :=
  !cs.isEmpty && cs.all Text.isDecimal

/- A negative number.  A line end may follow it. -/
def isNegativeNumber :
    List Char → Bool
  | '-' :: rest =>
      let digits :=
        if rest.getLast? == some '\n' then rest.dropLast
        else rest
      let fraction := digits.dropWhile Text.isDecimal
      isNumeral digits ||
        match fraction with
        | '.' :: decimals => isNumeral decimals
        | _ => false
  | _ => false

/- The parts of a text around its first equals sign.  A short
   name has two characters. -/
def splitEquals
    (cs : List Char) :
    List Char × Attached :=
  let name := cs.takeWhile (· != '=')
  match cs.dropWhile (· != '=') with
  | _ :: value =>
      (name, .afterEquals (name.length == 2) value)
  | [] => (cs, .nothing)

/- An argument with a dash that is no flag. -/
def withoutFlag
    (text : String) :
    Argument :=
  if isNegativeNumber text.toList ||
      text.toList.contains ' ' then
    .plain text
  else
    .unknown text

/- An argument with two dashes that is no full name. -/
def ofLong
    (text : String) :
    Except UsageFault Argument :=
  let (start, attached) := splitEquals text.toList
  match Flag.startingWith start with
  | [] => .ok (withoutFlag text)
  | [flag] => .ok (.flagged flag attached)
  | flags => .error (.ambiguous text flags)

/- An argument with one dash that is no full name. -/
def ofShort
    (text : String)
    (letter : Char)
    (value : List Char) :
    Argument :=
  match Flag.ofLetter? letter with
  | some flag => .flagged flag (.joined value)
  | none => withoutFlag text

/- Reads an argument. -/
def parse
    (text : String) :
    Except UsageFault Argument :=
  let (name, attached) := splitEquals text.toList
  match Flag.ofName? text,
      Flag.ofName? (String.ofList name) with
  | some flag, _ => .ok (.flagged flag .nothing)
  | none, some flag => .ok (.flagged flag attached)
  | none, none =>
      match text.toList with
      | '-' :: '-' :: _ => ofLong text
      | '-' :: letter :: value =>
          .ok (ofShort text letter value)
      | _ => .ok (.plain text)

/- Whether an argument has no part in a flag. -/
def isPlain :
    Argument → Bool
  | .plain _ => true
  | _ => false

/- The text of an argument without a flag. -/
def text :
    Argument → String
  | .plain text => text
  | .unknown text => text
  | .flagged flag _ => flag.longName

end Argument

end WireSchema
