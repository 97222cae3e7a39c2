/-!
# What is on offer

The parts of the program and the names that each one offers, in the order in which they are loaded.

## Main definitions

* `Manifest`: the name and version of the program and its parts.
* `Manifest.exports`: all names on offer, in order.
-/

namespace BytecodeRegions

/-- A part of the program with the names it offers. -/
structure Part where
  /-- The name of the part. -/
  name : String
  /-- The names it offers. -/
  names : List String
deriving DecidableEq, Repr

/-- What the program is and offers. -/
structure Manifest where
  /-- The name of the program. -/
  package : String
  /-- The version. -/
  version : String
  /-- The parts in the order in which they are loaded. -/
  parts : List Part
  /-- The names that belong to no part. -/
  own : List String
deriving DecidableEq, Repr

namespace Manifest

/-- The names of the parts in alphabetical order. -/
def submodules (m : Manifest) : List String :=
  (m.parts.map Part.name).mergeSort fun a b => decide (a ≤ b)

/-- All names on offer: those of every part with the part's own name after them, then the rest. -/
def exports (m : Manifest) : List String :=
  m.parts.flatMap (fun p => p.names ++ [p.name]) ++ m.own

end Manifest

/-- What this program is and offers. -/
def manifest : Manifest where
  package := "jsr_subroutines"
  version := "0.1.0"
  parts := [
    ⟨"errors", ["ErrorCode", "ErrorCodes", "StructuralCodeConstraintError",
      "SharedInstructionError", "MissingRetError", "MultipleRetError", "RetSlotMismatchError",
      "ProtectedSubroutineError", "RecursiveSubroutineCallError", "InvalidSubroutineEntryError",
      "AssertionViolatedError", "ListingError"]⟩,
    ⟨"diagnostics", ["Diagnostic", "DiagnosticSeverity", "BytecodeLocation"]⟩,
    ⟨"instructions", ["OpKind", "Opcode", "OPCODES", "opcode", "Instruction", "InstructionHandle",
      "InstructionList", "ExceptionHandler", "MethodCode"]⟩,
    ⟨"listing", ["parse_listing", "format_listing"]⟩,
    ⟨"successors", ["successors_of"]⟩,
    ⟨"recursion", ["check_no_recursive_calls"]⟩,
    ⟨"subroutines", ["SubroutineConfig", "Subroutine", "Subroutines", "build_subroutines",
      "check_subroutines", "subroutine_summary"]⟩]
  own := ["list_submodules", "package_info", "__version__"]

end BytecodeRegions
