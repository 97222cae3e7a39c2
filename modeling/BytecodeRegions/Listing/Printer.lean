import BytecodeRegions.Method
import BytecodeRegions.Text.Blank

/-!
# Writing a method as a listing

Every position that is a target, or an end or entry of a handler, gets the label `L` and its number
in a column of eight; all targets are written as labels. The handler declarations follow the
instructions.

## Main definitions

* `targeted`: the positions that need a label.
* `instructionText`: an instruction as a statement.
* `format`: the listing of a method.
-/

namespace BytecodeRegions.Listing

/-- The positions that the handlers and jumps of a method name. -/
def targeted (m : Method) : List Nat :=
  (m.body.code.toList.filter (·.opcode.hasTarget)).flatMap
      (fun i => i.target?.toList ++ i.casePositions) ++
    m.handlers.flatMap fun x => [x.start.position, x.stop.position, x.entry.position]

/-- The label of a position. -/
def labelText (p : Nat) : String :=
  "L" ++ Text.decimalNat p

/-- The label of a target. -/
def linkText : Link → String
  | .free p => "L" ++ Text.decimal p
  | .bound p => labelText p

/-- The words of an instruction as a statement. -/
def instructionWords (i : Instruction Link) : List String :=
  i.name ::
    if i.isSwitch then
      (i.caseKeys.zip i.caseTargets).map (fun (k, t) => Text.decimal k ++ ":" ++ linkText t) ++
        i.target.toList.map (fun t => "default:" ++ linkText t)
    else if i.opcode.hasTarget then i.target.toList.map linkText
    else i.operandTexts

/-- An instruction as a statement. -/
def instructionText (i : Instruction Link) : String :=
  " ".intercalate (instructionWords i)

/-- The width of the column of labels. -/
def labelColumn : Nat := 8

/-- The line of an instruction, with its label if it has one. -/
def instructionLine (labelled : Bool) (p : Nat) (i : Instruction Link) : String :=
  let label := if labelled then (labelText p).toList ++ [':'] else []
  String.ofList (Text.trimEnd (label.rightpad labelColumn ' ' ++ (instructionText i).toList))

/-- The line of a handler. -/
def handlerLine (x : Handler) : String :=
  ".catch " ++ x.typeText ++ " from " ++ labelText x.start.position ++ " to " ++
    labelText x.stop.position ++ " using " ++ labelText x.entry.position

/-- The lines of the listing of a method. -/
def formatLines (m : Method) : List String :=
  let ts := targeted m
  m.body.code.toList.zipIdx.map (fun (i, p) => instructionLine (ts.contains p) p i) ++
    m.handlers.map handlerLine

/-- The listing of a method. -/
def format (m : Method) : String :=
  "\n".intercalate (formatLines m) ++ "\n"

end BytecodeRegions.Listing
