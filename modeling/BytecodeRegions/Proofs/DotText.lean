import BytecodeRegions.Diagram
import BytecodeRegions.Proofs.Text.Decimal
import Mathlib.Data.List.Basic

/-!
# Reading diagrams back

A diagram in the DOT language has one line for each node and one for each edge. Quotes part a line:
in the line of a node, the label stands between the first two quotes and its attributes follow; in
the line of an edge, an arrow follows instead, and then the other label. Labels and numbers have
neither quotes nor line feeds, so nodes and edges are read off the text as they were, and no other
line is taken for one of them.

## Main definitions

* `Diagram.writtenNodes`, `Diagram.writtenEdges`: the nodes and edges that a text has.
* `Diagram.Legible`: a label without quotes and line feeds.

## Main results

* `Diagram.splitOn_text`: the lines of a diagram.
* `Diagram.writtenNodes_text`, `Diagram.writtenEdges_text`: what is read off a diagram.
-/

namespace BytecodeRegions

namespace Diagram

/-- The label of the node that a line stands for, if it stands for one. -/
def nodeLabel? (line : List Char) : Option String :=
  match line.splitOn '"' with
  | indent :: label :: next :: _ =>
    if indent = "  ".toList ∧ next = " [label=".toList then some (.ofList label) else none
  | _ => none

/-- An edge as it is written: two labels and the numbers between them. -/
structure WrittenEdge where
  /-- The label of the region that calls. -/
  caller : String
  /-- The label of the region that is called. -/
  callee : String
  /-- The positions of the calls. -/
  sites : List String
deriving DecidableEq, Repr

/-- The edge that a line stands for, if it stands for one. -/
def writtenEdge? (line : List Char) : Option WrittenEdge :=
  match line.splitOn '"' with
  | indent :: caller :: arrow :: callee :: _ :: label :: _ =>
    if indent = "  ".toList ∧ arrow = " -> ".toList then
      some ⟨.ofList caller, .ofList callee,
        ((label.drop "jsr ".length).splitOn ',').map String.ofList⟩
    else none
  | _ => none

/-- The labels of the nodes in a text, line by line. -/
def writtenNodes (text : String) : List String :=
  (text.toList.splitOn '\n').filterMap nodeLabel?

/-- The edges in a text, line by line. -/
def writtenEdges (text : String) : List WrittenEdge :=
  (text.toList.splitOn '\n').filterMap writtenEdge?

/-- An edge as it is written. -/
def Edge.written (e : Edge) : WrittenEdge :=
  ⟨e.callerLabel, e.calleeLabel, e.sites.map Text.decimalNat⟩

/-- A label without quotes and line feeds. -/
def Legible (label : String) : Prop :=
  '"' ∉ label.toList ∧ '\n' ∉ label.toList

variable {a b : List Char} {n : Node} {e : Edge} {d : Diagram} {title : Option String}

theorem splitOn_quote (ha : '"' ∉ a) : (a ++ '"' :: b).splitOn '"' = a :: b.splitOn '"' := by
  have hfree : ∀ c ∈ a, (c == '"') = false := fun c hc => beq_false_of_ne fun heq => ha (heq ▸ hc)
  exact List.splitOnP_append_cons_of_forall_mem hfree '"' (beq_self_eq_true '"') b

theorem notMem_decimalNat {c : Char} (hc : c.isDigit = false) (k : Nat) :
    c ∉ (Text.decimalNat k).toList := by
  intro hmem
  rw [Text.isDigit_of_mem_decimalNat hmem] at hc
  cases hc

/-- Numbers are parted by single characters, so they can be told apart. -/
theorem splitOn_comma_sites (he : e.sites ≠ []) :
    (",".intercalate (e.sites.map Text.decimalNat)).toList.splitOn ',' =
      e.sites.map fun p => (Text.decimalNat p).toList := by
  rw [String.toList_intercalate, List.map_map]
  refine List.splitOn_intercalate ',' (fun l hl => ?_) (by simpa using he)
  obtain ⟨p, -, rfl⟩ := List.mem_map.1 hl
  exact notMem_decimalNat rfl p

theorem notMem_sites {c : Char} (hc : c.isDigit = false) (hcomma : c ≠ ',') (ps : List Nat) :
    c ∉ (",".intercalate (ps.map Text.decimalNat)).toList := by
  induction ps with
  | nil => simp
  | cons p ps ih =>
    cases ps with
    | nil => simpa using notMem_decimalNat hc p
    | cons q ps =>
      rw [List.map_cons] at ih
      rw [List.map_cons, List.map_cons, String.intercalate_cons_cons]
      simp only [String.toList_append, List.mem_append, not_or]
      exact ⟨⟨notMem_decimalNat hc p, by simpa using hcomma⟩, ih⟩

/-! ### The line of a node -/

theorem exists_toList_nodeText (n : Node) : ∃ rest, n.text.toList = "  ".toList ++ '"' ::
    (n.label.toList ++ '"' :: (" [label=".toList ++ '"' :: rest)) := by
  simp [Node.text]

theorem exists_splitOn_nodeText (hn : Legible n.label) : ∃ rest, n.text.toList.splitOn '"' =
    "  ".toList :: n.label.toList :: " [label=".toList :: rest := by
  obtain ⟨rest, htext⟩ := exists_toList_nodeText n
  rw [htext, splitOn_quote (by decide), splitOn_quote hn.1, splitOn_quote (by decide)]
  exact ⟨_, rfl⟩

theorem nodeLabel?_nodeText (hn : Legible n.label) : nodeLabel? n.text.toList = some n.label := by
  obtain ⟨rest, hparts⟩ := exists_splitOn_nodeText hn
  simp only [nodeLabel?, hparts, and_self, if_true, String.ofList_toList]

theorem writtenEdge?_nodeText (hn : Legible n.label) : writtenEdge? n.text.toList = none := by
  obtain ⟨rest, hparts⟩ := exists_splitOn_nodeText hn
  have harrow : " [label=".toList ≠ " -> ".toList := by decide
  rw [writtenEdge?, hparts]
  split
  · next heq =>
    obtain ⟨-, -, rfl, -⟩ := by simpa using heq
    exact if_neg fun h => harrow h.2
  · rfl

/-! ### The line of an edge -/

theorem toList_edgeText (e : Edge) : e.text.toList = "  ".toList ++ '"' ::
    (e.callerLabel.toList ++ '"' :: (" -> ".toList ++ '"' :: (e.calleeLabel.toList ++ '"' ::
      (" [label=".toList ++ '"' :: (("jsr ".toList ++
        (",".intercalate (e.sites.map Text.decimalNat)).toList) ++ '"' :: "];".toList))))) := by
  simp [Edge.text]

theorem splitOn_edgeText (hcaller : Legible e.callerLabel) (hcallee : Legible e.calleeLabel) :
    e.text.toList.splitOn '"' = ["  ".toList, e.callerLabel.toList, " -> ".toList,
      e.calleeLabel.toList, " [label=".toList, "jsr ".toList ++
        (",".intercalate (e.sites.map Text.decimalNat)).toList, "];".toList] := by
  have hsites : '"' ∉ "jsr ".toList ++ (",".intercalate (e.sites.map Text.decimalNat)).toList := by
    rw [List.mem_append, not_or]
    exact ⟨by decide, notMem_sites rfl (by decide) e.sites⟩
  rw [toList_edgeText, splitOn_quote (by decide), splitOn_quote hcaller.1,
    splitOn_quote (by decide), splitOn_quote hcallee.1, splitOn_quote (by decide),
    splitOn_quote hsites]
  rfl

theorem writtenEdge?_edgeText (hcaller : Legible e.callerLabel) (hcallee : Legible e.calleeLabel)
    (hsites : e.sites ≠ []) : writtenEdge? e.text.toList = some e.written := by
  simp only [writtenEdge?, splitOn_edgeText hcaller hcallee, and_self, if_true]
  have hdrop : ("jsr ".toList ++ (",".intercalate (e.sites.map Text.decimalNat)).toList).drop
      "jsr ".length = (",".intercalate (e.sites.map Text.decimalNat)).toList := rfl
  rw [hdrop, splitOn_comma_sites hsites, List.map_map, Edge.written, String.ofList_toList,
    String.ofList_toList]
  simp only [Function.comp_def, String.ofList_toList]

theorem nodeLabel?_edgeText (hcaller : Legible e.callerLabel) (hcallee : Legible e.calleeLabel) :
    nodeLabel? e.text.toList = none := by
  have harrow : " -> ".toList ≠ " [label=".toList := by decide
  rw [nodeLabel?, splitOn_edgeText hcaller hcallee]
  exact if_neg fun h => harrow h.2

/-! ### The line of a title -/

theorem exists_splitOn_titleLine (s : String) :
    ∃ rest, (titleLine s).toList.splitOn '"' = "  label=".toList :: rest := by
  have hline : (titleLine s).toList =
      "  label=".toList ++ '"' :: (s.toList.flatMap titleChar ++ "\";".toList) := by
    simp [titleLine, quotedTitle]
  rw [hline, splitOn_quote (by decide)]
  exact ⟨_, rfl⟩

/-- A line that has more than an indent in front of its first quote is read as nothing. -/
theorem unread_of_splitOn {line indent : List Char} {rest : List (List Char)}
    (hparts : line.splitOn '"' = indent :: rest) (hindent : indent ≠ "  ".toList) :
    nodeLabel? line = none ∧ writtenEdge? line = none := by
  constructor
  · rw [nodeLabel?, hparts]
    split
    · next heq => exact if_neg fun h => hindent ((List.cons.inj heq).1.trans h.1)
    · rfl
  · rw [writtenEdge?, hparts]
    split
    · next heq => exact if_neg fun h => hindent ((List.cons.inj heq).1.trans h.1)
    · rfl

theorem titleLine_unread (s : String) :
    nodeLabel? (titleLine s).toList = none ∧ writtenEdge? (titleLine s).toList = none := by
  obtain ⟨rest, hparts⟩ := exists_splitOn_titleLine s
  exact unread_of_splitOn hparts (by decide)

/-! ### Lines without line feeds -/

theorem lineFeed_notMem_slotText (s : Option Int) : '\n' ∉ (Region.slotText s).toList := by
  cases s with
  | none => decide
  | some z =>
    cases z with
    | ofNat k => exact notMem_decimalNat rfl k
    | negSucc k =>
      simp only [Region.slotText, Option.elim_some, Text.decimal, String.toList_append,
        List.mem_append, not_or]
      exact ⟨by decide, notMem_decimalNat rfl _⟩

theorem lineFeed_notMem_nodeText (hn : Legible n.label) : '\n' ∉ n.text.toList := by
  have hsize := notMem_decimalNat (c := '\n') rfl n.size
  cases hexit : n.exit with
  | none => simp [Node.text, hexit, hn.2, hsize]
  | some x =>
    have hret := notMem_decimalNat (c := '\n') rfl x.ret
    have hslot := lineFeed_notMem_slotText x.slot
    simp [Node.text, hexit, hn.2, hsize, hret, hslot]

theorem lineFeed_notMem_edgeText (hcaller : Legible e.callerLabel)
    (hcallee : Legible e.calleeLabel) : '\n' ∉ e.text.toList := by
  have hsites := notMem_sites (c := '\n') rfl (by decide) e.sites
  rw [toList_edgeText]
  simp only [List.mem_append, List.mem_cons, hcaller.2, hcallee.2, hsites]
  decide

theorem lineFeed_notMem_titleLine {s : String} (hs : '\n' ∉ s.toList) :
    '\n' ∉ (titleLine s).toList := by
  have htitle : '\n' ∉ s.toList.flatMap titleChar := by
    rw [List.mem_flatMap]
    rintro ⟨c, hc, hmem⟩
    rw [titleChar] at hmem
    split at hmem
    · revert hmem
      decide
    · exact hs (List.mem_singleton.1 hmem ▸ hc)
  simp [titleLine, quotedTitle, htitle]

/-! ### Whole diagrams -/

/-- All labels of a diagram are legible. -/
structure LegibleLabels (d : Diagram) : Prop where
  node : ∀ n ∈ d.nodes, Legible n.label
  caller : ∀ e ∈ d.edges, Legible e.callerLabel
  callee : ∀ e ∈ d.edges, Legible e.calleeLabel

/-- A diagram whose labels are legible has the lines that it is put together from, unless its title
takes several lines. -/
theorem splitOn_text (hd : d.LegibleLabels) (htitle : ∀ s ∈ title, '\n' ∉ s.toList) :
    (d.text title).toList.splitOn '\n' = (d.lines title).map String.toList := by
  rw [text, String.toList_intercalate]
  refine List.splitOn_intercalate '\n' (fun l hl => ?_) (by simp [lines])
  obtain ⟨line, hline, rfl⟩ := List.mem_map.1 hl
  simp only [lines, List.mem_append, List.mem_cons, List.not_mem_nil, or_false, List.mem_map]
    at hline
  rcases hline with (((((rfl | rfl) | hline) | rfl) | ⟨n, hn, rfl⟩) | ⟨e, he, rfl⟩) | rfl
  · decide
  · decide
  · simp only [titleLines, Option.mem_toList, Option.map_eq_some_iff,
      Option.filter_eq_some_iff] at hline
    obtain ⟨s, ⟨hs, -⟩, rfl⟩ := hline
    exact lineFeed_notMem_titleLine (htitle s hs)
  · decide
  · exact lineFeed_notMem_nodeText (hd.node n hn)
  · exact lineFeed_notMem_edgeText (hd.caller e he) (hd.callee e he)
  · decide

/-- What takes nothing from the frame and the title takes all it reads from nodes and edges. -/
theorem filterMap_lines {β : Type} {read? : List Char → Option β}
    (hframe : ∀ line ∈ ["digraph Subroutines \x7b", "  rankdir=TB;",
      "  node [shape=box, fontname=\"Helvetica\", fontsize=10];", "\x7d"],
      read? line.toList = none) (htitle : ∀ s, read? (titleLine s).toList = none) :
    ((d.lines title).map String.toList).filterMap read? =
      (d.nodes.map Node.text ++ d.edges.map Edge.text).filterMap fun line => read? line.toList := by
  have htitles : (titleLines title).filterMap (fun line => read? line.toList) = [] := by
    rw [List.filterMap_eq_nil_iff]
    intro line hline
    obtain ⟨s, -, rfl⟩ := Option.map_eq_some_iff.1 (Option.mem_toList.1 hline)
    exact htitle s
  simp only [List.forall_mem_cons, List.not_mem_nil, false_imp_iff, implies_true, and_true]
    at hframe
  obtain ⟨hopen, hrank, hstyle, hclose⟩ := hframe
  rw [List.filterMap_map]
  simp only [lines, Function.comp_def, List.filterMap_append, htitles, List.filterMap_cons,
    List.filterMap_nil, hopen, hrank, hstyle, hclose, List.nil_append, List.append_nil]

/-- The nodes that are read off a diagram are its own. -/
theorem writtenNodes_text (hd : d.LegibleLabels) (htitle : ∀ s ∈ title, '\n' ∉ s.toList) :
    writtenNodes (d.text title) = d.nodes.map Node.label := by
  have hnodes : (d.nodes.map Node.text).filterMap (fun line => nodeLabel? line.toList) =
      d.nodes.map Node.label := by
    rw [List.filterMap_map, ← List.filterMap_eq_map]
    refine List.filterMap_congr fun n hn => ?_
    rw [Function.comp_apply, nodeLabel?_nodeText (hd.node n hn)]
    rfl
  have hedges : (d.edges.map Edge.text).filterMap (fun line => nodeLabel? line.toList) = [] := by
    rw [List.filterMap_map, List.filterMap_eq_nil_iff]
    intro e he
    rw [Function.comp_apply, nodeLabel?_edgeText (hd.caller e he) (hd.callee e he)]
  rw [writtenNodes, splitOn_text hd htitle,
    filterMap_lines (by decide) fun s => (titleLine_unread s).1, List.filterMap_append, hnodes,
    hedges, List.append_nil]

/-- The edges that are read off a diagram are its own. -/
theorem writtenEdges_text (hd : d.LegibleLabels) (hsites : ∀ e ∈ d.edges, e.sites ≠ [])
    (htitle : ∀ s ∈ title, '\n' ∉ s.toList) :
    writtenEdges (d.text title) = d.edges.map Edge.written := by
  have hnodes : (d.nodes.map Node.text).filterMap (fun line => writtenEdge? line.toList) = [] := by
    rw [List.filterMap_map, List.filterMap_eq_nil_iff]
    intro n hn
    rw [Function.comp_apply, writtenEdge?_nodeText (hd.node n hn)]
  have hedges : (d.edges.map Edge.text).filterMap (fun line => writtenEdge? line.toList) =
      d.edges.map Edge.written := by
    rw [List.filterMap_map, ← List.filterMap_eq_map]
    refine List.filterMap_congr fun e he => ?_
    rw [Function.comp_apply, writtenEdge?_edgeText (hd.caller e he) (hd.callee e he) (hsites e he)]
    rfl
  rw [writtenEdges, splitOn_text hd htitle,
    filterMap_lines (by decide) fun s => (titleLine_unread s).2, List.filterMap_append, hnodes,
    hedges, List.nil_append]

end Diagram

end BytecodeRegions
