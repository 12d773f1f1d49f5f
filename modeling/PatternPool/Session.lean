/-
PatternPool.Session — a registry in use.

A session holds what outlives a single operation: the registry, the disk, one
source of random words with the calls made on it, and the value lists loaded so
far. A step asks something of it or changes the disk. What a step leaves behind
is kept also when it fails.

Some steps draw with a generator of their own, made from a seed. They load lists
like any other and leave the session's source alone.
-/
import PatternPool.Disk
import PatternPool.Report

namespace PatternPool

/-! ## 1. Steps and answers -/

/-- What can be asked of a session. -/
inductive Step where
  | names
  | size
  | options
  | has (name : String)
  | get (name : String)
  /-- Some draws from a datasource. -/
  | random (name : String) (times : Nat)
  /-- A draw from a datasource with a generator of its own. -/
  | sample (name : String) (seed : UInt64)
  | iterate (name : String)
  /-- How many values an enumerated datasource has. -/
  | count (name : String)
  /-- One value of an enumerated datasource by its place. -/
  | valueAt (name : String) (index : Nat)
  | rules (name : String)
  | file (name : String)
  /-- A draw from the values of an enumerated datasource. -/
  | drawValue (name : String)
  /-- A draw from a rule compiled for the purpose. -/
  | execute (raw owner : String) (index : Nat)
  | token (t : Token)
  | write (path : String) (entry : Entry)
  | remove (path : String)
  | summary
  | dangling
  /-- Some draws from a datasource with a generator of their own. -/
  | batch (name : String) (count : Nat) (seed : UInt64)
deriving DecidableEq, Repr

/-- Why a step has no answer. -/
inductive StepFault where
  | error (e : Error)
  /-- The step is for enumerated datasources, and this is none. -/
  | notEnumerated
deriving DecidableEq, Repr

/-- What a step is answered with. -/
inductive Answer where
  /-- Nothing is to be told. -/
  | done
  | count (n : Nat)
  | size (n : Nat)
  | flag (b : Bool)
  | options (o : Options)
  /-- A datasource's name, and whether it is enumerated. -/
  | datasource (name : String) (isEnumerated : Bool)
  | text (s : String)
  | text? (s? : Option String)
  | texts (ss : List String)
  | rules (rs : List Rule)
  | file? (f? : Option ValueFile)
  | dangling (ds : List Dangling)
  /-- How several draws ended, and all calls of the session. -/
  | draws (results : List (Except Error String)) (calls : Calls)
  /-- How a draw ended, and all calls of the session. -/
  | drawn (result : Except Error String) (calls : Calls)
  /-- How a rule's draw ended, at which depth, and all calls of the session. -/
  | executed (result : Except Error String) (depth : Nat) (calls : Calls)
  /-- There is no answer. -/
  | failed (fault : StepFault)

/-! ## 2. The session -/

/-- What outlives a step. -/
structure Session where
  registry : Registry
  disk : Disk
  /-- Where the next random words come from. -/
  source : Random.Source
  /-- The calls made on it. -/
  calls : Calls := {}
  /-- The lists loaded. -/
  loaded : Loaded := []

namespace Session

/-- The setting of the next draw. -/
def setting (s : Session) : Setting := ⟨s.registry, s.disk.read⟩

/-- The state that the next draw starts from. -/
def drawState (s : Session) : DrawState :=
  { source := s.source, calls := s.calls, loaded := s.loaded }

/-- Keeps what a draw left behind. -/
def absorb (s : Session) (d : DrawState) : Session :=
  { s with source := d.source, calls := d.calls, loaded := d.loaded }

/-- Runs a draw on the session's source; also gives the depth it ended at. -/
def run {α : Type} (s : Session) (act : Draw α) : Except Error α × Nat × Session :=
  match act s.drawState with
  | .ok a d => (.ok a, d.depth, s.absorb d)
  | .error e d => (.error e, d.depth, s.absorb d)

/-- Runs a draw on a generator made from a seed. -/
def runSeeded {α : Type} (s : Session) (seed : UInt64) (act : Draw α) :
    Except Error α × Session :=
  match act { source := .ofSeed seed, loaded := s.loaded } with
  | .ok a d => (.ok a, { s with loaded := d.loaded })
  | .error e d => (.error e, { s with loaded := d.loaded })

/-- The answer to a step that fails as a whole. -/
def conclude {α : Type} (answer : α → Answer) : Except Error α → Answer
  | .ok a => answer a
  | .error e => .failed (.error e)

/-- Answers a step with what a draw gives. -/
def ask {α : Type} (s : Session) (act : Draw α) (answer : α → Answer) : Answer × Session :=
  let (result, _, s) := s.run act
  (conclude answer result, s)

/-- Answers a step with what a draw on a generator of its own gives. -/
def askSeeded {α : Type} (s : Session) (seed : UInt64) (act : Draw α) (answer : α → Answer) :
    Answer × Session :=
  let (result, s) := s.runSeeded seed act
  (conclude answer result, s)

/-- Answers a step that is for enumerated datasources. -/
def withEnumerated (s : Session) (name : String) (step : Enumerated → Answer × Session) :
    Answer × Session :=
  match s.registry.get name with
  | .error e => (.failed (.error e), s)
  | .ok d =>
    match d.enumerated? with
    | some e => step e
    | none => (.failed .notEnumerated, s)

/-- Draws so many times, onto the results before, the latest first. -/
def drawOnto (name : String) :
    Nat → List (Except Error String) → Session → List (Except Error String) × Session
  | 0, results, s => (results.reverse, s)
  | times + 1, results, s =>
    let (result, _, s) := s.run (s.setting.random name)
    drawOnto name times (result :: results) s

/-! ## 3. Steps -/

/-- Takes a step. -/
def step (s : Session) : Step → Answer × Session
  | .names => (.texts s.registry.names, s)
  | .size => (.size s.registry.size, s)
  | .options => (.options s.registry.options, s)
  | .has name => (.flag (s.registry.has name), s)
  | .get name =>
    (conclude (fun d => .datasource d.name d.enumerated?.isSome) (s.registry.get name), s)
  | .random name times =>
    let (results, s) := drawOnto name times [] s
    (.draws results s.calls, s)
  | .sample name seed => s.askSeeded seed (s.setting.random name) .text
  | .iterate name => s.ask (s.setting.iterate name) .texts
  | .count name =>
    s.withEnumerated name fun e => s.ask (e.values s.disk.read) fun vs => .count vs.length
  | .valueAt name index =>
    s.withEnumerated name fun e => s.ask (e.values s.disk.read) fun vs => .text? vs[index]?
  | .rules name => s.withEnumerated name fun e => (.rules e.rules, s)
  | .file name => s.withEnumerated name fun e => (.file? e.file?, s)
  | .drawValue name =>
    s.withEnumerated name fun e =>
      let (result, _, s) := s.run (e.drawValue s.disk.read)
      (.drawn result s.calls, s)
  | .execute raw owner index =>
    match Rule.compile raw owner index with
    | .error e => (.failed (.error e), s)
    | .ok r =>
      let (result, depth, s) := s.run (s.setting.execute r)
      (.executed result depth s.calls, s)
  | .token t =>
    let (result, _, s) := s.run (s.setting.executeToken t)
    (.drawn result s.calls, s)
  | .write path entry => (.done, { s with disk := s.disk.write path entry })
  | .remove path => (.done, { s with disk := s.disk.remove path })
  | .summary => s.ask s.setting.summarize fun ss => .texts (ss.map Summary.line)
  | .dangling => (.dangling s.registry.dangling, s)
  | .batch name count seed => s.askSeeded seed (s.setting.randomMany name count) .texts

/-- Takes steps one after the other, onto the answers before, the latest first. -/
def stepOnto : List Step → List Answer → Session → List Answer × Session
  | [], answers, s => (answers.reverse, s)
  | step :: steps, answers, s =>
    let (answer, s) := s.step step
    stepOnto steps (answer :: answers) s

/-- Takes steps one after the other. -/
def steps (s : Session) (steps : List Step) : List Answer × Session :=
  stepOnto steps [] s

end Session
end PatternPool
