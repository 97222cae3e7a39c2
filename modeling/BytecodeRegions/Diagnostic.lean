import BytecodeRegions.Json

/-!
# Diagnostics

A diagnostic is a finding about a method in a form that can be handed on: what was found, how grave
it is, at which instruction, which other instructions take part, and evidence for machines.

## Main definitions

* `Severity`, `Location`, `Diagnostic`: the parts of a finding.
* `Diagnostic.json`: the finding as a value; what is empty is left out.
* `Diagnostic.gccText`: the finding in one line for people.
-/

namespace BytecodeRegions

/-- How grave a finding is. -/
inductive Severity where
  /-- The method is refused. -/
  | error
  /-- The method is suspicious. -/
  | warning
  /-- A remark. -/
  | information
deriving DecidableEq, Repr

namespace Severity

/-- The word for a severity. -/
def name : Severity → String
  | error => "error"
  | warning => "warning"
  | information => "information"

/-- The severity with a given word. -/
def ofName? (s : String) : Option Severity :=
  [error, warning, information].find? (·.name == s)

/-- Why a word that is no severity is refused. -/
def unknownMessage (s : String) : String :=
  Text.quoted s ++ " is not a valid DiagnosticSeverity"

end Severity

/-- An instruction of a named method; a negative position stands for the method as a whole. -/
structure Location where
  /-- The name of the method, empty if it is not known. -/
  method : String := ""
  /-- The position of the instruction. -/
  position : Int := -1
deriving DecidableEq, Repr

/-- What a method without a name is called. -/
def methodOrDefault (name : String) : String :=
  if name.isEmpty then "<method>" else name

/-- The location as written. -/
def Location.text (l : Location) : String :=
  if l.position < 0 then methodOrDefault l.method
  else methodOrDefault l.method ++ "@" ++ Text.decimal l.position

/-- A finding about a method. -/
structure Diagnostic where
  /-- An identifier of what was found. -/
  errorId : String
  /-- What was found, in words. -/
  message : String
  /-- How grave it is. -/
  severity : Severity
  /-- The instruction to blame. -/
  location : Location
  /-- The code of the finding. -/
  code : String := ""
  /-- Other instructions that take part. -/
  secondary : List Location := []
  /-- Evidence by key. -/
  evidence : List (String × Json) := []

namespace Diagnostic

/-- The members of the finding as a value. -/
def members (d : Diagnostic) : List (String × Json) :=
  [("method", .str d.location.method), ("position", .int d.location.position),
    ("severity", .str d.severity.name), ("message", .str d.message), ("errorId", .str d.errorId),
    ("code", .str d.code)] ++
  (if d.secondary.isEmpty then []
    else [("secondary", .arr (d.secondary.map fun l => .int l.position))]) ++
  (if d.evidence.isEmpty then [] else [("evidence", .obj d.evidence)])

/-- The finding as a value. -/
def json (d : Diagnostic) : Json :=
  .obj d.members

/-- The finding as a value in one line of text. -/
def jsonText (d : Diagnostic) : String :=
  d.json.text

/-- The finding in one line for people. -/
def gccText (d : Diagnostic) : String :=
  d.location.text ++ ": " ++ d.severity.name ++ ": " ++ d.message ++ " [" ++ d.errorId ++ "]"

end Diagnostic

end BytecodeRegions
