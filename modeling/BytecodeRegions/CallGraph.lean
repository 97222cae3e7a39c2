import BytecodeRegions.Reach

/-!
# Call graphs

Who calls whom among the subroutines of a table, seen from one region, the root. Subroutines are
named by the positions of their leaders. The root may be the top level or a subroutine itself.

Nesting depth is found by peeling: the subroutines that call nothing make the first layer, those
that call only peeled ones the next, and so on; the number of its layer is the length of the longest
chain of calls from a subroutine. What is never peeled reaches a circle of calls.

A clash is a chain of calls on which a slot is taken twice. The search descends into the callees in
ascending order, and each descent takes a slot that was free, so it ends on every graph.

## Main definitions

* `CallGraph`: the callees of the root and of every subroutine.
* `CallGraph.reachable`: the subroutines that the root calls, directly or not.
* `CallGraph.depth?`: the length of the longest chain of calls from the root.
* `Clash`, `CallGraph.clash?`: the first chain of calls that takes a slot twice.
-/

namespace BytecodeRegions

/-- Who calls whom. -/
structure CallGraph where
  /-- The subroutines that the root calls. -/
  root : List Nat
  /-- The subroutines with those that they call. -/
  subs : List (Nat × List Nat)
deriving DecidableEq, Repr

namespace CallGraph

/-- The subroutines. -/
def leaders (g : CallGraph) : List Nat :=
  g.subs.map Prod.fst

/-- The subroutines that a subroutine calls. -/
def callees (g : CallGraph) (p : Nat) : List Nat :=
  (g.subs.lookup p).getD []

/-- The subroutines that the root calls, directly or not. -/
def reachable (g : CallGraph) : List Nat :=
  reach g.callees g.leaders g.root

/-- Whether a subroutine with given callees calls none of `rest`. -/
def callsNoneOf (rest : List (Nat × List Nat)) (s : Nat × List Nat) : Bool :=
  s.2.all fun c => rest.all fun r => r.1 != c

/-- The subroutines of `rest` that call none of `rest`. -/
def peelable (rest : List (Nat × List Nat)) : List (Nat × List Nat) :=
  rest.filter (callsNoneOf rest)

/-- The subroutines of `rest` that call some of `rest`. -/
def unpeeled (rest : List (Nat × List Nat)) : List (Nat × List Nat) :=
  rest.filter fun s => !callsNoneOf rest s

/-- As long as something can be peeled, peeling leaves less. -/
theorem length_unpeeled_lt {rest : List (Nat × List Nat)} (h : peelable rest ≠ []) :
    (unpeeled rest).length < rest.length := by
  obtain ⟨s, hs⟩ := List.exists_mem_of_ne_nil _ h
  have hs := List.mem_filter.1 hs
  exact List.length_filter_lt_length_iff_exists.2 ⟨s, hs.1, by simp [hs.2]⟩

/-- The layers of `rest`, those that call none of the rest first; circles are left out. -/
def layers (rest : List (Nat × List Nat)) : List (List Nat) :=
  if _h : peelable rest = [] then []
  else (peelable rest).map Prod.fst :: layers (unpeeled rest)
termination_by rest.length
decreasing_by exact length_unpeeled_lt _h

/-- The number of the layer that a subroutine is in. -/
def layerOf? (ls : List (List Nat)) (p : Nat) : Option Nat :=
  ls.findIdx? (·.contains p)

/-- The length of the longest chain of calls from the root, unless the root reaches a circle. -/
def depth? (g : CallGraph) : Option Nat :=
  let ls := layers g.subs
  (g.root.mapM (layerOf? ls)).map fun hs => (hs.map (· + 1)).foldl max 0

end CallGraph

/-- A chain of calls whose last call takes a slot that the chain holds already. -/
structure Clash where
  /-- The subroutines on the chain, the last one first, without the one that is called. -/
  path : List Nat
  /-- The subroutine that is called. -/
  callee : Nat
deriving DecidableEq, Repr

namespace CallGraph

/-- Searches for a clash: `free` are the slots not taken, `path` the chain so far, the last
subroutine first, and `queue` the callees to look at. -/
def clashFrom (g : CallGraph) (slot : Nat → Nat) :
    (free path queue : List Nat) → Option Clash
  | _, _, [] => none
  | free, path, c :: queue =>
    if slot c ∈ free then
      g.clashFrom slot (free.erase (slot c)) (c :: path) (g.callees c) <|>
        g.clashFrom slot free path queue
    else some ⟨path, c⟩
termination_by free _ queue => (free.length, queue.length)
decreasing_by
  · have := List.length_erase_of_mem ‹slot c ∈ free›
    have := List.length_pos_of_mem ‹slot c ∈ free›
    exact Prod.Lex.left _ _ (by omega)
  · exact Prod.Lex.right _ (by simp)

/-- The first chain of calls from the root that takes a slot twice, where callees are gone through
in the order of the graph. -/
def clash? (g : CallGraph) (slot : Nat → Nat) : Option Clash :=
  g.clashFrom slot (g.leaders.map slot).eraseDups [] g.root

end CallGraph

/-- The subroutine on the chain that holds the slot of the called one. -/
def Clash.holder? (slot : Nat → Nat) (x : Clash) : Option Nat :=
  x.path.find? fun p => slot p == slot x.callee

end BytecodeRegions
