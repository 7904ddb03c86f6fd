import InCircuit.Programmer
import InCircuit.Session

/-!
# Command-line arguments

The arguments select one command and its options. Short options can be clustered, and a value can
follow its option, be attached to it, or stand after an equals sign. A value that follows must not
look like an option. No option but the one for verbosity may be repeated.
-/
namespace InCircuit

inductive Setting where
  | verbose
  | programmer
  | family
  | traceCommands
  | output
  | offset
  | size
  | eeprom
  | input
  | bulk
  | noVerify
deriving DecidableEq

namespace Setting

def long : Setting → String
  | verbose => "verbose"
  | programmer => "programmer"
  | family => "family"
  | traceCommands => "trace-commands"
  | output => "output"
  | offset => "offset"
  | size => "size"
  | eeprom => "eeprom"
  | input => "input"
  | bulk => "bulk"
  | noVerify => "no-verify"

def short? : Setting → Option Char
  | verbose => some 'v'
  | programmer => some 'p'
  | family => some 'f'
  | output => some 'o'
  | input => some 'i'
  | _ => none

def takesValue : Setting → Bool
  | verbose | eeprom | bulk | noVerify => false
  | _ => true

end Setting

inductive Verb where
  | identify
  | read
  | write
  | erase
  | verify
  | listProgrammers
  | listDevices
deriving DecidableEq

namespace Verb

def ofName? : String → Option Verb
  | "id" | "probe" => some identify
  | "read" => some read
  | "write" => some write
  | "erase" => some erase
  | "verify" => some verify
  | "list-programmers" => some listProgrammers
  | "list-devices" => some listDevices
  | _ => none

def session : List Setting := [.verbose, .programmer, .family, .traceCommands]

def settings : Verb → List Setting
  | identify => session
  | read => session ++ [.output, .offset, .size, .eeprom]
  | write => session ++ [.input, .bulk, .noVerify, .eeprom]
  | erase => session ++ [.bulk]
  | verify => session ++ [.input]
  | listProgrammers | listDevices => [.verbose]

end Verb

abbrev Given := Setting × List Char

namespace Arguments

/-- Whether an argument can be the value of the option before it. A lone dash can. -/
def isValue : List Char → Bool
  | ['-'] => true
  | '-' :: _ => false
  | _ => true

/-- The options in a cluster of short ones, and the one, if any, that still wants its value. -/
def cluster? (allowed : List Setting) : List Char → Option (List Given × Option Setting)
  | [] => some ([], none)
  | c :: rest =>
    match allowed.find? (·.short? == some c) with
    | none => none
    | some s =>
      if s.takesValue then
        match rest with
        | [] => some ([], some s)
        | '=' :: value => some ([(s, value)], none)
        | value => some ([(s, value)], none)
      else (cluster? allowed rest).map fun (given, pending) => ((s, []) :: given, pending)

/-- The options in one argument, and the one, if any, that wants the next argument. -/
def argument? (allowed : List Setting) : List Char → Option (List Given × Option Setting)
  | '-' :: '-' :: text =>
    let (name, value?) := Text.cut '=' text
    match allowed.find? (·.long == String.ofList name) with
    | none => none
    | some s =>
      match s.takesValue, value? with
      | true, some value => some ([(s, value)], none)
      | true, none => some ([], some s)
      | false, none => some ([(s, [])], none)
      | false, some _ => none
  | '-' :: c :: rest => cluster? allowed (c :: rest)
  | _ => none

/-- The options in a list of arguments, which must hold nothing else. Two dashes may end the
list. -/
def options? (allowed : List Setting) : List (List Char) → Option (List Given)
  | [] => some []
  | [['-', '-']] => some []
  | text :: rest =>
    match argument? allowed text with
    | none => none
    | some (given, none) => (options? allowed rest).map (given ++ ·)
    | some (given, some s) =>
      match rest with
      | value :: rest =>
        if isValue value then (options? allowed rest).map (given ++ (s, value) :: ·) else none
      | [] => none

/-- The arguments before the name of the command, the name, and the arguments after it. Only
options come before it. -/
def splitAtVerb : List (List Char) → List (List Char) × Option (List Char) × List (List Char)
  | [] => ([], none, [])
  | text :: rest =>
    if text = ['-', '-'] then ([], none, [])
    else if isValue text then ([], some text, rest)
    else
      let (before, verb?, after) := splitAtVerb rest
      (text :: before, verb?, after)

/-- A number below `2 ^ 32`, hexadecimal after `0x`. -/
def number? : List Char → Option Nat
  | '0' :: 'x' :: digits | '0' :: 'X' :: digits => Text.ofUnsigned? 16 UInt32.size digits
  | digits => Text.ofUnsigned? 10 UInt32.size digits

end Arguments

structure SessionOptions where
  programmer : ProgrammerSpec
  series : Series
  trace? : Option Nat

inductive Action where
  | identify
  | read (output : String) (offset size : Nat) (eeprom : Bool)
  | write (input : String) (mode : EraseMode) (verify eeprom : Bool)
  | erase (mode : EraseMode)
  | verify (input : String)

inductive Request where
  | session (options : SessionOptions) (action : Action)
  | listProgrammers
  | listDevices

structure Invocation where
  verbose : Nat
  request : Request

namespace Invocation

open Arguments

/-- No option is given twice, verbosity apart. -/
def noRepeats : List Given → Bool
  | [] => true
  | (s, _) :: rest => (s == .verbose || ! rest.any (·.1 == s)) && noRepeats rest

def value? (given : List Given) (s : Setting) : Option (List Char) :=
  (given.find? (·.1 == s)).map (·.2)

def has (given : List Given) (s : Setting) : Bool := given.any (·.1 == s)

def valueOr {α : Type} (given : List Given) (s : Setting) (default : α)
    (parse : List Char → Option α) : Option α :=
  match value? given s with
  | none => some default
  | some text => parse text

def path? (given : List Given) (s : Setting) : Option String := do
  let text ← value? given s
  if text.isEmpty then none else some (String.ofList text)

def sessionOptions? (given : List Given) : Option SessionOptions := do
  let spec ← value? given .programmer
  let programmer ← (ProgrammerSpec.parse? (String.ofList spec)).toOption
  let series ← valueOr given .family .pic18F fun text => Series.ofName? (String.ofList text)
  let trace? ← valueOr given .traceCommands none fun text =>
    (Text.ofUnsigned? 10 UInt64.size text).map some
  return { programmer, series, trace? }

def eraseMode (given : List Given) : EraseMode := if has given .bulk then .bulk else .pages

def request? (verb : Verb) (given : List Given) : Option Request :=
  match verb with
  | .listProgrammers => some .listProgrammers
  | .listDevices => some .listDevices
  | .identify => do return .session (← sessionOptions? given) .identify
  | .erase => do return .session (← sessionOptions? given) (.erase (eraseMode given))
  | .verify => do
    let options ← sessionOptions? given
    return .session options (.verify (← path? given .input))
  | .read => do
    let options ← sessionOptions? given
    let output ← path? given .output
    let offset ← valueOr given .offset 0 number?
    let size ← valueOr given .size 0 number?
    return .session options (.read output offset size (has given .eeprom))
  | .write => do
    let options ← sessionOptions? given
    let input ← path? given .input
    return .session options
      (.write input (eraseMode given) (! has given .noVerify) (has given .eeprom))

def verbosity (given : List Given) : Nat := min 255 (given.countP (·.1 == .verbose))

/-- What the arguments ask for, or nothing if they cannot be understood. Verbosity asked for
after the name of the command overrides the one before it. -/
def ofArguments? (arguments : List String) : Option Invocation := do
  let (before, name?, after) := splitAtVerb (arguments.map String.toList)
  let outer ← options? [.verbose] before
  let verb ← Verb.ofName? (String.ofList (← name?))
  let given ← options? verb.settings after
  if noRepeats given then
    let request ← request? verb given
    let inner := verbosity given
    return { verbose := if inner = 0 then verbosity outer else inner, request }
  else none

end Invocation

end InCircuit
