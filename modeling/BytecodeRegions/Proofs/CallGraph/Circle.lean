import BytecodeRegions.Proofs.CallGraph.Depth
import Mathlib.Logic.Relation

/-!
# Circles of calls

Chains of calls get arbitrarily long in one way only: the root reaches a subroutine that calls
itself, directly or through others. One direction goes round the circle as often as it takes, the
other finds a subroutine twice on a chain that is longer than there are subroutines.

## Main definitions

* `CallGraph.Circular`: the root reaches a circle of calls.

## Main results

* `CallGraph.depth?_eq_none_iff_circular`: there is no nesting depth exactly when there is a circle.
-/

namespace BytecodeRegions

namespace CallGraph

open Relation

variable {g : CallGraph} {p c n : Nat} {path : List Nat}

/-- One subroutine of the graph calls another. -/
def Calls (g : CallGraph) (p c : Nat) : Prop :=
  c ∈ g.callees p

/-- The root reaches a subroutine that calls itself, directly or through others. -/
def Circular (g : CallGraph) : Prop :=
  ∃ c ∈ g.root, ∃ p, ReflTransGen g.Calls c p ∧ TransGen g.Calls p p

theorem Chain.mem_leaders (hg : g.WellFormed) (hpath : g.Chain path) :
    ∀ p ∈ path, p ∈ g.leaders := by
  induction hpath with
  | nil => simp
  | @cons c path _ hc ih =>
    refine List.forall_mem_cons.2 ⟨?_, ih⟩
    cases path with
    | nil => exact hg.root_mem c hc
    | cons p path => exact hg.callees_mem p c hc

theorem Chain.exists_reaches (hpath : g.Chain (p :: path)) :
    ∃ c ∈ g.root, ReflTransGen g.Calls c p := by
  induction path generalizing p with
  | nil =>
    cases hpath with
    | cons _ hp => exact ⟨p, hp, .refl⟩
  | cons q path ih =>
    cases hpath with
    | cons hpath hp =>
      obtain ⟨c, hc, hcq⟩ := ih hpath
      exact ⟨c, hc, hcq.tail hp⟩

/-- Along a chain, an earlier subroutine calls a later one, directly or through others. -/
theorem Chain.transGen {between : List Nat} (hpath : g.Chain (c :: (between ++ p :: path))) :
    TransGen g.Calls p c := by
  induction between generalizing c with
  | nil =>
    cases hpath with
    | cons _ hc => exact .single hc
  | cons q between ih =>
    cases hpath with
    | cons hpath hc => exact (ih hpath).tail hc

/-- A chain that meets a subroutine twice goes round a circle. -/
theorem Chain.circular (hpath : g.Chain path) (hdup : ¬path.Nodup) : g.Circular := by
  induction hpath with
  | nil => exact absurd List.nodup_nil hdup
  | @cons c path hpath hc ih =>
    by_cases hmem : c ∈ path
    · obtain ⟨between, rest, rfl⟩ := List.append_of_mem hmem
      obtain ⟨r, hr, hrc⟩ := (hpath.cons hc).exists_reaches
      exact ⟨r, hr, c, hrc, (hpath.cons hc).transGen⟩
    · exact ih fun hnodup => hdup (List.nodup_cons.2 ⟨hmem, hnodup⟩)

theorem Deep.of_transGen (hpc : TransGen g.Calls p c) (hc : g.Deep n c) : g.Deep (n + 1) p := by
  induction hpc using TransGen.head_induction_on with
  | single h => exact ⟨c, h, hc⟩
  | head h _ ih => exact Deep.of_succ ⟨_, h, ih⟩

theorem Deep.of_reflTransGen (hpc : ReflTransGen g.Calls p c) (hc : g.Deep n c) : g.Deep n p := by
  induction hpc using ReflTransGen.head_induction_on with
  | refl => exact hc
  | head h _ ih => exact Deep.of_succ ⟨_, h, ih⟩

/-- Going round a circle, calls never come to an end. -/
theorem deep_of_circle (hp : TransGen g.Calls p p) (n : Nat) : g.Deep n p := by
  induction n with
  | zero => trivial
  | succ n ih => exact ih.of_transGen hp

/-- There is no nesting depth exactly when the root reaches a circle of calls. -/
theorem depth?_eq_none_iff_circular (hg : g.WellFormed) : g.depth? = none ↔ g.Circular := by
  rw [depth?_eq_none_iff hg]
  constructor
  · intro hlong
    obtain ⟨path, hpath, hlen⟩ := hlong (g.leaders.length + 1)
    refine hpath.circular fun hnodup => ?_
    have hle := hnodup.length_le_of_subset fun p hp => hpath.mem_leaders hg p hp
    omega
  · rintro ⟨c, hc, p, hcp, hpp⟩ n
    cases n with
    | zero => exact ⟨[], .nil, rfl⟩
    | succ n => exact exists_chain_succ_iff.2 ⟨c, hc, (deep_of_circle hpp n).of_reflTransGen hcp⟩

end CallGraph

end BytecodeRegions
