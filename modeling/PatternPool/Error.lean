/-
PatternPool.Error — everything that can go wrong, by cause.

An error says what went wrong and where; the wording is one function,
`Error.message`, and no decision anywhere depends on it. Four families occur:
rules that do not scan, definitions that contradict themselves, files that do
not load, and draws that meet a reference they cannot follow.
-/
import PatternPool.Rule.Scanner

namespace PatternPool

/-- Why the bytes of a file, or its text, cannot be had. -/
inductive ReadFault where
  /-- Nothing is there. -/
  | notFound
  /-- A directory is there. -/
  | isDirectory
  /-- Something on the way to it is no directory. -/
  | notDirectory
  /-- The path or one of its parts is longer than paths may be. -/
  | nameTooLong
  /-- The path holds a character that no path may hold. -/
  | nulInName
  /-- A text was wanted and the bytes are not UTF-8. -/
  | notUtf8
  /-- Some other failure, in the words of the system. -/
  | other (description : String)
deriving DecidableEq, Repr

/-- The wording of a read fault. -/
def ReadFault.message : ReadFault → String
  | .notFound => "No such file or directory (os error 2)"
  | .isDirectory => "Is a directory (os error 21)"
  | .notDirectory => "Not a directory (os error 20)"
  | .nameTooLong => "File name too long (os error 36)"
  | .nulInName => "file name contained an unexpected NUL byte"
  | .notUtf8 => "stream did not contain valid UTF-8"
  | .other description => description

/-- Why a reference gives no value. -/
inductive ResolutionFault where
  /-- The datasource it names is not registered. -/
  | missing (target : String)
  /-- The datasource it names has nothing to draw from. -/
  | emptyTarget (target : String)
  /-- It names its owner, which has no list of values. -/
  | ownerNotEnumerated (owner : String)
  /-- It names its owner, whose list of values is empty. -/
  | ownerEmpty (owner : String)
deriving DecidableEq, Repr

/-- The wording for a name under which nothing is registered. -/
def unknownMessage (name : String) : String :=
  "datasource '" ++ name ++ "' does not exist"

/-- The wording of a resolution fault. -/
def ResolutionFault.message : ResolutionFault → String
  | .missing target => unknownMessage target
  | .emptyTarget target => "referenced datasource '" ++ target ++ "' has no values to draw from"
  | .ownerNotEnumerated owner =>
    "self reference to '" ++ owner ++ "' requires an enumerated datasource"
  | .ownerEmpty owner => "self reference to '" ++ owner ++ "' requires a non-empty value list"

/-- Why a definition or a registration is refused. -/
inductive DefinitionFault where
  /-- Both a list of values and a file are given. -/
  | valuesAndFile
  /-- A format is given and no file. -/
  | formatWithoutFile
  /-- The name is blank. -/
  | blankName
  /-- The name is taken, and names have to be unique. -/
  | duplicateName
deriving DecidableEq, Repr

/-- The wording of a definition fault. -/
def DefinitionFault.message : DefinitionFault → String
  | .valuesAndFile => "'values' and 'file' cannot both be set"
  | .formatWithoutFile => "'format' requires 'file'"
  | .blankName => "datasource name must not be empty"
  | .duplicateName => "datasource is defined more than once"

/-- The errors of rules, datasources and draws. -/
inductive Error where
  /-- A rule does not scan; the site is where. -/
  | parse (site : Site) (problem : ScanProblem)
  /-- Nothing is registered under the name. -/
  | unknownDatasource (name : String)
  /-- The reference at the site gives no value. -/
  | resolution (site : Site) (fault : ResolutionFault)
  /-- The datasource's file cannot be read. -/
  | unreadable (datasource path : String) (fault : ReadFault)
  /-- The datasource's file is no JSON array. -/
  | invalidJson (datasource path : String)
  /-- The array in the datasource's file holds something other than a string. -/
  | nonStringElement (datasource path : String) (index : Nat)
  /-- A line of the datasource's file, counted from one, is not UTF-8. -/
  | invalidLine (datasource path : String) (line : Nat)
  /-- The datasource has nothing to draw from. -/
  | emptyDatasource (datasource : String)
  /-- The reference at the site would nest draws deeper than allowed. -/
  | recursionLimit (site : Site) (target : String) (limit : Nat)
  /-- A definition or registration is refused. -/
  | invalidDefinition (datasource : String) (fault : DefinitionFault)
  /-- The depth limit is zero. -/
  | zeroDepthLimit
deriving DecidableEq, Repr

/-- How a site is quoted in messages. -/
def Site.describe (s : Site) : String :=
  "datasource '" ++ s.owner ++ "', expression #" ++ toString s.rule ++ ", offset "
    ++ toString s.offset

/-- The wording of an error. -/
def Error.message : Error → String
  | .parse site problem => site.describe ++ ": parse error: " ++ problem.message
  | .unknownDatasource name => unknownMessage name
  | .resolution site fault => site.describe ++ ": resolution error: " ++ fault.message
  | .unreadable datasource path fault =>
    "datasource '" ++ datasource ++ "': cannot read '" ++ path ++ "': " ++ fault.message
  | .invalidJson datasource path =>
    "datasource '" ++ datasource ++ "': invalid json in '" ++ path ++ "'"
  | .nonStringElement datasource path index =>
    "datasource '" ++ datasource ++ "': element " ++ toString index ++ " of '" ++ path
      ++ "' is not a string"
  | .invalidLine datasource path line =>
    "datasource '" ++ datasource ++ "': line " ++ toString line ++ " of '" ++ path
      ++ "' is not valid utf-8"
  | .emptyDatasource datasource => "datasource '" ++ datasource ++ "' has no values to draw from"
  | .recursionLimit site target limit =>
    site.describe ++ ": reference to '" ++ target ++ "' exceeds depth limit of " ++ toString limit
      ++ " (reference cycle?)"
  | .invalidDefinition datasource fault =>
    "datasource '" ++ datasource ++ "': invalid definition: " ++ fault.message
  | .zeroDepthLimit => "invalid context options: max_depth must be at least 1"

end PatternPool
