/-
PatternPool.CommandLine.Arguments — what a command line asks for.

A command line is a verb with options before and after it. An option is written
with two dashes; its value comes after an equals sign or as the next argument,
which then must not look like an option itself. Before the verb only the log
format may be given, after it also the options of the verb. On either side of
the verb each option comes once at most; the log format after the verb counts
more than the one before.

Arguments are read from left to right. Asking for help or for the version ends
the reading with that, whatever follows, and anything amiss before it ends the
reading too: then the command line asks for nothing.
-/
import PatternPool.Text.Decimal

namespace PatternPool.CommandLine

/-! ## 1. Requests -/

/-- How events are logged. -/
inductive LogFormat where
  /-- For people. -/
  | pretty
  /-- One JSON object a line. -/
  | json
deriving DecidableEq, Repr

/-- What is to be done with a configuration. -/
inductive Command where
  /-- Draw values from a datasource; without a seed, from any. -/
  | sample (config datasource : String) (count : Nat) (seed? : Option UInt64)
  /-- List the values of a datasource. -/
  | list (config datasource : String)
  /-- Report on all datasources. -/
  | check (config : String)
deriving DecidableEq, Repr

/-- What a command line asks for. -/
inductive Request where
  | run (log : LogFormat) (command : Command)
  /-- The name and number of the program. -/
  | version
  /-- A summary of how the program is used. -/
  | help
deriving DecidableEq, Repr

/-! ## 2. Options -/

/-- The options there are. -/
inductive Key where
  | logFormat
  | config
  | datasource
  | count
  | seed
deriving DecidableEq, Repr

/-- The verbs there are. -/
inductive Verb where
  | sample
  | list
  | check
deriving DecidableEq, Repr

/-- How an option is written, without its dashes. -/
def Key.name : Key → String
  | .logFormat => "log-format"
  | .config => "config"
  | .datasource => "datasource"
  | .count => "count"
  | .seed => "seed"

/-- How a verb is written. -/
def Verb.name : Verb → String
  | .sample => "sample"
  | .list => "list"
  | .check => "check"

/-- The verb that is written so. -/
def Verb.ofName? (s : String) : Option Verb :=
  [Verb.sample, .list, .check].find? (·.name = s)

/-- The options that may be given after a verb, or before there is one. -/
def keysOf : Option Verb → List Key
  | none => [.logFormat]
  | some .sample => [.logFormat, .config, .datasource, .count, .seed]
  | some .list => [.logFormat, .config, .datasource]
  | some .check => [.logFormat, .config]

/-- The log format that is written so. -/
def LogFormat.ofName? (s : String) : Option LogFormat :=
  if s = "pretty" then some .pretty else if s = "json" then some .json else none

/-- A count below `2 ^ 64`: digits, perhaps after a plus. -/
def count? (s : String) : Option Nat :=
  let digits :=
    match s.toList with
    | '+' :: digits => digits
    | digits => digits
  let value := Text.Decimal.ofDigits 10 digits
  if digits ≠ [] ∧ digits.all Char.isDigit ∧ value < 2 ^ 64 then some value else none

/-- Whether an option may have the value. -/
def Key.admits : Key → String → Bool
  | .logFormat, s => (LogFormat.ofName? s).isSome
  | .config, s => s ≠ ""
  | .datasource, _ => true
  | .count, s | .seed, s => (count? s).isSome

/-- Options with their values. -/
abbrev Given := List (Key × String)

/-- Adds an option that has not been given yet and may have the value. -/
def Given.add? (given : Given) (key : Key) (value : String) : Option Given :=
  if (given.lookup key).isNone && key.admits value then some ((key, value) :: given) else none

/-! ## 3. Arguments -/

/-- The form of an argument. -/
inductive Form where
  /-- Two dashes and a name, with the value after an equals sign if there is one. -/
  | long (name : String) (value? : Option String)
  /-- One dash and letters. -/
  | short (letter : Char)
  /-- Two dashes alone: no options come after it. -/
  | closing
  | plain
deriving DecidableEq, Repr

/-- The form that an argument has. -/
def Form.ofArgument (s : String) : Form :=
  match s.toList with
  | ['-', '-'] => .closing
  | '-' :: '-' :: cs =>
    let (name, rest) := cs.span (· ≠ '=')
    match rest with
    | _ :: value => .long (.ofList name) (some (.ofList value))
    | [] => .long (.ofList name) none
  | '-' :: letter :: _ => .short letter
  | _ => .plain

/-- What the options of a verb amount to, those from before it apart. -/
def conclude (verb : Verb) (before given : Given) : Option Request := do
  let log ← LogFormat.ofName?
    (((given.lookup .logFormat) <|> before.lookup .logFormat).getD "pretty")
  let config ← given.lookup .config
  match verb with
  | .sample =>
    let datasource ← given.lookup .datasource
    let count ← count? ((given.lookup .count).getD "1")
    let seed? := (given.lookup .seed).bind count? |>.map UInt64.ofNat
    return .run log (.sample config datasource count seed?)
  | .list => return .run log (.list config (← given.lookup .datasource))
  | .check => return .run log (.check config)

/-- What asking for help about the given words amounts to. -/
def helpOn : List String → Option Request
  | [] => some .help
  | [word] => if word = "help" || (Verb.ofName? word).isSome then some .help else none
  | _ => none

/-- Reads the arguments that are left; before a verb has come, `before` stays empty. -/
def readFrom (verb? : Option Verb) (before given : Given) : List String → Option Request
  | [] => verb?.bind fun verb => conclude verb before given
  | arg :: rest =>
    match Form.ofArgument arg with
    | .long name value? => do
      if value? = none && name = "help" then return .help
      if value? = none && name = "version" && verb?.isNone then return .version
      let key ← (keysOf verb?).find? (·.name = name)
      match value?, rest with
      | some value, rest => readFrom verb? before (← given.add? key value) rest
      | none, value :: rest =>
        if Form.ofArgument value = .plain then
          readFrom verb? before (← given.add? key value) rest
        else none
      | none, [] => none
    | .short letter =>
      if letter = 'h' then some .help
      else if letter = 'V' && verb?.isNone then some .version
      else none
    | .closing =>
      if rest = [] then verb?.bind fun verb => conclude verb before given else none
    | .plain =>
      if verb?.isSome then none
      else if arg = "help" then helpOn rest
      else do readFrom (some (← Verb.ofName? arg)) given [] rest

/-- What a command line asks for, if it asks for something. -/
def Request.ofArguments? (args : List String) : Option Request :=
  readFrom none [] [] args

end PatternPool.CommandLine
