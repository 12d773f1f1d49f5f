/-
PatternPool.Main — the program.

The files that a command may need are those its configuration mentions. They
are read beforehand, so that the command itself sees them through a view that
does not change under it.
-/
import PatternPool.CommandLine

namespace PatternPool

/-- The number of a system error, which some operations report negated. -/
def errorNumber (code : UInt32) : Nat :=
  (if code < 0x80000000 then code else -code).toNat

/-- The reason that the system gave for not reading a file. -/
def faultOfSystem (e : IO.Error) : ReadFault :=
  match e with
  | .noFileOrDirectory _ _ _ | .noSuchThing _ _ _ => .notFound
  | .inappropriateType _ code _ | .resourceExhausted _ code _ | .invalidArgument _ code _ =>
    match errorNumber code with
    | 20 => .notDirectory
    | 21 => .isDirectory
    | 36 => .nameTooLong
    | _ => .other (toString e)
  | e => .other (toString e)

/-- Reads a file. -/
def readBytes (path : String) : IO (Except ReadFault (List UInt8)) := do
  if path.contains '\x00' then return .error .nulInName
  try return .ok (← IO.FS.readBinFile path).toList
  catch e => return .error (faultOfSystem e)

/-- The view of files that have been read; all others are missing. -/
def viewOf (contents : List (String × Except ReadFault (List UInt8))) : FileView := fun path =>
  (contents.lookup path).getD (.error .notFound)

/-- Reads what a command may need. -/
def gather (command : CommandLine.Command) : IO FileView := do
  let config := command.config
  let first := (config, ← readBytes config)
  let paths :=
    match CommandLine.readConfig (viewOf [first]) config with
    | .ok c => c.paths (CommandLine.baseOf config)
    | .error _ => []
  return viewOf (first :: (← paths.mapM fun path => do return (path, ← readBytes path)))

/-- A seed that nobody chose. -/
def freshSeed : IO UInt64 := do
  return (← IO.getRandomBytes 8).foldl (fun n b => n * 256 + b.toUInt64) 0

end PatternPool

open PatternPool in
/-- Does what the command line asks for; exits with two if it asks for nothing. -/
def main (args : List String) : IO UInt32 := do
  match CommandLine.Request.ofArguments? args with
  | none =>
    IO.eprintln CommandLine.helpText
    return 2
  | some .version =>
    IO.println CommandLine.versionText
    return 0
  | some .help =>
    IO.println CommandLine.helpText
    return 0
  | some (.run log command) =>
    let outcome := command.run (← gather command) (← freshSeed)
    for warning in outcome.warnings do
      IO.eprintln (CommandLine.logLine log warning)
    IO.print outcome.output
    if let some failure := outcome.failure? then
      IO.eprintln ("Error: " ++ failure.message)
    return UInt32.ofNat outcome.exitCode
