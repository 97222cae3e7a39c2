import BytecodeRegions.Region

/-!
# Diagrams of calls

Which region calls which, and from where, as a graph in the DOT language: a node for every region,
and an edge for every region and each subroutine that it calls, with the positions of the calls.

## Main definitions

* `Diagram`: nodes and edges.
* `Diagram.quotedTitle`: a title as a quoted string of the DOT language.
* `Diagram.text`: the graph in the DOT language.
-/

namespace BytecodeRegions

namespace Diagram

/-- How a subroutine keeps and uses its return address. -/
structure Exit where
  /-- The slot of the return address. -/
  slot : Option Int
  /-- The position of the `ret`. -/
  ret : Nat
deriving DecidableEq, Repr

/-- A region in a diagram; the top level has no exit. -/
structure Node where
  /-- The region. -/
  region : RegionRef
  /-- What it is called. -/
  label : String
  /-- The number of its instructions. -/
  size : Nat
  /-- How it is left. -/
  exit : Option Exit
deriving DecidableEq, Repr

/-- Calls from one region to one subroutine. -/
structure Edge where
  /-- The region that calls. -/
  caller : RegionRef
  /-- What it is called. -/
  callerLabel : String
  /-- The subroutine that is called. -/
  callee : RegionRef
  /-- What it is called. -/
  calleeLabel : String
  /-- The positions of the calls, in ascending order. -/
  sites : List Nat
deriving DecidableEq, Repr

end Diagram

/-- Which region calls which, and from where. -/
structure Diagram where
  /-- The regions. -/
  nodes : List Diagram.Node
  /-- The calls between them. -/
  edges : List Diagram.Edge
deriving DecidableEq, Repr

namespace Diagram

/-- The node of a region in the DOT language. -/
def Node.text (n : Node) : String :=
  let count := "\\n" ++ Text.decimalNat n.size ++ " instr"
  "  \"" ++ n.label ++ "\" [label=\"" ++
    match n.exit with
    | none =>
      "top-level" ++ count ++ "\", style=filled, fillcolor=\"#ccffcc\", shape=invhouse];"
    | some e =>
      n.label ++ "\\nslot " ++ Region.slotText e.slot ++ ", ret @" ++ Text.decimalNat e.ret ++
        count ++ "\", style=filled, fillcolor=\"#ddeeff\"];"

/-- The edge between two regions in the DOT language. -/
def Edge.text (e : Edge) : String :=
  "  \"" ++ e.callerLabel ++ "\" -> \"" ++ e.calleeLabel ++ "\" [label=\"jsr " ++
    ",".intercalate (e.sites.map Text.decimalNat) ++ "\"];"

/-- A character of a title, with a backslash in front of a quote. -/
def titleChar (c : Char) : List Char :=
  if c = '"' then ['\\', '"'] else [c]

/-- The characters of a title between double quotes. -/
def quotedTitle (title : List Char) : List Char :=
  '"' :: title.flatMap titleChar ++ ['"']

/-- The line of a title. -/
def titleLine (title : String) : String :=
  "  label=" ++ String.ofList (quotedTitle title.toList) ++ ";"

/-- The lines for a title: an empty one is left out. -/
def titleLines (title : Option String) : List String :=
  ((title.filter (!·.isEmpty)).map titleLine).toList

/-- The lines of the graph in the DOT language. -/
def lines (d : Diagram) (title : Option String) : List String :=
  ["digraph Subroutines \x7b", "  rankdir=TB;"] ++ titleLines title ++
    ["  node [shape=box, fontname=\"Helvetica\", fontsize=10];"] ++ d.nodes.map Node.text ++
    d.edges.map Edge.text ++ ["\x7d"]

/-- The graph in the DOT language. -/
def text (d : Diagram) (title : Option String) : String :=
  "\n".intercalate (d.lines title)

end Diagram

end BytecodeRegions
