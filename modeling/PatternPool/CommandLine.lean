/-
PatternPool.CommandLine — what the commands do.

A command reads a configuration, builds its registry, and draws, lists or
reports. It prints everything or nothing: the lines are put out only once all of
them are there. The report alone can be printed and fail nevertheless, when it
finds dangling references.

Reading is seen through a view of the files, and a command without a seed is
given one, so what a command does is a function.
-/
import PatternPool.CommandLine.Arguments
import PatternPool.Config.Toml
import PatternPool.Json.Printer
import PatternPool.Report

namespace PatternPool.CommandLine

/-! ## 1. Failures and outcomes -/

/-- Why a command fails. -/
inductive Failure where
  /-- The configuration file cannot be read. -/
  | unreadable (fault : ReadFault)
  /-- It is no configuration. -/
  | invalidConfig
  /-- Building the registry or drawing fails. -/
  | error (e : Error)
  /-- There are so many dangling references. -/
  | dangling (count : Nat)
deriving DecidableEq, Repr

/-- The wording of a failure. -/
def Failure.message : Failure → String
  | .unreadable fault => "io error: " ++ fault.message
  | .invalidConfig => "invalid configuration"
  | .error e => e.message
  | .dangling count => toString count ++ " dangling reference(s)"

/-- What a command comes to. -/
structure Outcome where
  /-- The lines it prints. -/
  lines : List String
  /-- What it warns about, in order. -/
  warnings : List Warning
  /-- Why it fails, if it does. -/
  failure? : Option Failure
deriving DecidableEq, Repr

/-- The text that is printed. -/
def Outcome.output (o : Outcome) : String :=
  String.join (o.lines.map (· ++ "\n"))

/-- The exit code: one if the command fails. -/
def Outcome.exitCode (o : Outcome) : Nat :=
  if o.failure?.isSome then 1 else 0

/-! ## 2. Configurations -/

/-- The directory that a configuration's files are looked up from: the one it lies in. -/
def baseOf (config : String) : String :=
  .ofList ((Path.parent? config.toList).getD [])

/-- Reads a configuration file. -/
def readConfig (files : FileView) (config : String) : Except Failure Config := do
  let text ← (files.text config).mapError .unreadable
  match Config.ofTomlText? text with
  | some c => return c
  | none => throw .invalidConfig

/-- Reads a configuration file and builds its registry, with the warnings given on the way. -/
def load (files : FileView) (config : String) : List Warning × Except Failure Registry :=
  match readConfig files config with
  | .error f => ([], .error f)
  | .ok c =>
    let (warnings, result) := c.build (baseOf config)
    (warnings, result.mapError .error)

/-! ## 3. Commands -/

/-- The configuration file of a command. -/
def Command.config : Command → String
  | .sample config _ _ _ => config
  | .list config _ => config
  | .check config => config

/-- What a draw gives in the end, begun with nothing loaded. -/
def result {α : Type} (source : Random.Source) (act : Draw α) : Except Failure α :=
  match act { source } with
  | .ok a _ => .ok a
  | .error e _ => .error (.error e)

/-- A source for what needs no random words. -/
def noSource : Random.Source := .ofWords []

/-- The outcome of lines that are all there or not. -/
def allOrNothing : Except Failure (List String) → Outcome
  | .ok lines => ⟨lines, [], none⟩
  | .error f => ⟨[], [], some f⟩

/-- Prints the summary and warns about the dangling references. -/
def report (setting : Setting) : Outcome :=
  match result noSource setting.summarize with
  | .error f => ⟨[], [], some f⟩
  | .ok summaries =>
    let dangling := setting.registry.dangling
    { lines := summaries.map Summary.line
      warnings := dangling.map Warning.dangling
      failure? := if dangling = [] then none else some (.dangling dangling.length) }

/-- Carries out a command on a registry; `entropy` is the seed of a command without one. -/
def Command.perform (setting : Setting) (entropy : UInt64) : Command → Outcome
  | .sample _ datasource count seed? =>
    allOrNothing
      (result (.ofSeed (seed?.getD entropy)) (setting.randomMany datasource count))
  | .list _ datasource => allOrNothing (result noSource (setting.iterate datasource))
  | .check _ => report setting

/-- Carries out a command, the reading of its configuration included. -/
def Command.run (command : Command) (files : FileView) (entropy : UInt64) : Outcome :=
  match load files command.config with
  | (warnings, .error f) => ⟨[], warnings, some f⟩
  | (warnings, .ok registry) =>
    let outcome := command.perform ⟨registry, files⟩ entropy
    { outcome with warnings := warnings ++ outcome.warnings }

/-! ## 4. Logging -/

/-- What a warning says, apart from what it is about. -/
def warningMessage : Warning → String
  | .replaced _ => "duplicate datasource replaces earlier definition"
  | .dangling _ => "reference to unknown datasource"

/-- What a warning is about. -/
def warningFields : Warning → List (String × Json)
  | .replaced name => [("datasource", .text name)]
  | .dangling d =>
    [("datasource", .text d.datasource), ("expression", .nat d.rule), ("offset", .nat d.offset),
      ("target", .text d.target)]

/-- A warning as a document. -/
def warningJson (w : Warning) : Json :=
  .record (("message", .text (warningMessage w)) :: warningFields w)

/-- The documents that are logged for an outcome; none in the format for people. -/
def Outcome.loggedJson (o : Outcome) : LogFormat → List Json
  | .json => o.warnings.map warningJson
  | .pretty => []

/-- The line that a warning makes in the log. -/
def logLine (log : LogFormat) (w : Warning) : String :=
  match log with
  | .json =>
    .ofList (Json.record [("level", .text "WARN"), ("fields", warningJson w)]).render
  | .pretty =>
    " WARN " ++ warningMessage w ++ String.join ((warningFields w).map fun (key, value) =>
      " " ++ key ++ "=" ++ (value.text?.getD (.ofList value.render)))

/-- The name and number of the program. -/
def versionText : String := "datamask 0.1.0"

/-- How the program is used. -/
def helpText : String :=
  "\n".intercalate [
    "Datamask sample generator",
    "",
    "Usage: datamask [--log-format <pretty|json>] <COMMAND>",
    "",
    "Commands:",
    "  sample --config <FILE> --datasource <NAME> [--count <COUNT>] [--seed <SEED>]",
    "  list   --config <FILE> --datasource <NAME>",
    "  check  --config <FILE>"]

end PatternPool.CommandLine
