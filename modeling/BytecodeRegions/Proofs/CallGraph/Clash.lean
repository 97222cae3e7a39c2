import BytecodeRegions.Proofs.Ascending
import BytecodeRegions.Proofs.CallGraph.Depth

/-!
# Chains of calls that take a slot twice

The search for a clash goes down the calls in the order of the graph and keeps the slots that are
still free. It finds a clash exactly when some chain of calls takes a slot twice; what it finds is
such a chain, no shorter part of which does, and among those chains it is the first in
lexicographic order.

## Main definitions

* `CallGraph.Clashes`: the last call of a chain is the first to take a slot again.
* `CallGraph.Extends`: the chains that the search looks at from a given state.
* `CallGraph.Searching`: what the search keeps true of its state.

## Main results

* `CallGraph.clash?_eq_none_iff`: there is no clash exactly when no chain takes a slot twice.
* `CallGraph.clashes_of_clash?_eq_some`: a clash that is found is one.
* `CallGraph.lex_of_clash?_eq_some`: and it is the first one.
-/

namespace BytecodeRegions

namespace CallGraph

variable {g : CallGraph} {slot : Nat → Nat} {c : Nat} {free path queue chain : List Nat}

/-- The last call of a chain takes a slot that the chain holds already, and no call before it
does. -/
def Clashes (slot : Nat → Nat) : List Nat → Prop
  | [] => False
  | c :: path => (path.map slot).Nodup ∧ slot c ∈ path.map slot

theorem Clashes.not_nodup (h : Clashes slot chain) : ¬(chain.map slot).Nodup := by
  cases chain with
  | nil => exact h.elim
  | cons c path =>
    rw [List.map_cons, List.nodup_cons]
    exact fun hnodup => hnodup.1 h.2

/-- The chains that go on from `path` with a call of `queue`. -/
inductive Extends (g : CallGraph) (path queue : List Nat) : List Nat → Prop
  | call {c : Nat} (hc : c ∈ queue) : Extends g path queue (c :: path)
  | next {c p : Nat} {chain : List Nat} (hchain : Extends g path queue (p :: chain))
      (hc : c ∈ g.callees p) : Extends g path queue (c :: p :: chain)

theorem Extends.exists_append (h : g.Extends path queue chain) :
    ∃ more, ∃ c ∈ queue, chain = more ++ c :: path := by
  induction h with
  | call hc => exact ⟨[], _, hc, rfl⟩
  | @next c p chain _ _ ih =>
    obtain ⟨more, c', hc', heq⟩ := ih
    exact ⟨c :: more, c', hc', by rw [heq, List.cons_append]⟩

/-- A chain goes on with the first of the queue and nothing else, or from the first of the queue, or
with another one of the queue. -/
theorem Extends.cons_cases (h : g.Extends path (c :: queue) chain) :
    chain = c :: path ∨ g.Extends (c :: path) (g.callees c) chain ∨ g.Extends path queue chain := by
  induction h with
  | call hc =>
    rcases List.mem_cons.1 hc with rfl | hc
    · exact .inl rfl
    · exact .inr (.inr (.call hc))
  | next _ hc ih =>
    rcases ih with heq | h | h
    · cases heq
      exact .inr (.inl (.call hc))
    · exact .inr (.inl (h.next hc))
    · exact .inr (.inr (h.next hc))

theorem Extends.of_callees (hc : c ∈ queue) (h : g.Extends (c :: path) (g.callees c) chain) :
    g.Extends path queue chain := by
  induction h with
  | call hc' => exact .next (.call hc) hc'
  | next _ hc' ih => exact ih.next hc'

theorem Extends.of_tail (h : g.Extends path queue chain) : g.Extends path (c :: queue) chain := by
  induction h with
  | call hc => exact .call (List.mem_cons_of_mem c hc)
  | next _ hc ih => exact ih.next hc

theorem chain_iff_extends : g.Chain chain ↔ chain = [] ∨ g.Extends [] g.root chain := by
  constructor
  · intro h
    induction h with
    | nil => exact .inl rfl
    | @cons c path _ hc ih =>
      rcases ih with rfl | ih
      · exact .inr (.call hc)
      · obtain ⟨more, c', -, rfl⟩ := ih.exists_append
        cases more with
        | nil => exact .inr (ih.next hc)
        | cons p more => exact .inr (ih.next hc)
  · rintro (rfl | h)
    · exact .nil
    · induction h with
      | call hc => exact Chain.nil.cons hc
      | next _ hc ih => exact ih.cons hc

/-! ### The state of the search -/

/-- What the search keeps true of its state: the free slots are those that the chain so far does not
hold. -/
structure Searching (g : CallGraph) (slot : Nat → Nat) (free path queue : List Nat) : Prop where
  /-- No slot is free twice. -/
  nodup_free : free.Nodup
  /-- The slots that are not free are those on the chain. -/
  free_iff : ∀ c ∈ g.leaders, slot c ∈ free ↔ slot c ∉ path.map slot
  /-- Only subroutines of the graph are looked at. -/
  queue_mem : ∀ c ∈ queue, c ∈ g.leaders
  /-- The chain so far takes no slot twice. -/
  nodup_path : (path.map slot).Nodup

theorem Searching.start (hg : g.WellFormed) :
    g.Searching slot (g.leaders.map slot).eraseDups [] g.root where
  nodup_free := nodup_eraseDups _
  free_iff c hc := by
    rw [List.mem_eraseDups]
    exact iff_of_true (List.mem_map_of_mem hc) List.not_mem_nil
  queue_mem := hg.root_mem
  nodup_path := List.nodup_nil

theorem Searching.skip (h : g.Searching slot free path (c :: queue)) :
    g.Searching slot free path queue :=
  { h with queue_mem := fun c' hc' => h.queue_mem c' (List.mem_cons_of_mem c hc') }

theorem Searching.descend (hg : g.WellFormed) (h : g.Searching slot free path (c :: queue))
    (hc : slot c ∈ free) :
    g.Searching slot (free.erase (slot c)) (c :: path) (g.callees c) where
  nodup_free := h.nodup_free.erase (slot c)
  free_iff c' hc' := by
    rw [h.nodup_free.mem_erase_iff, h.free_iff c' hc', List.map_cons, List.mem_cons, not_or]
  queue_mem := hg.callees_mem c
  nodup_path := by
    rw [List.map_cons, List.nodup_cons]
    exact ⟨(h.free_iff c (h.queue_mem c List.mem_cons_self)).1 hc, h.nodup_path⟩

theorem Searching.clashes (h : g.Searching slot free path (c :: queue)) (hc : slot c ∉ free) :
    Clashes slot (c :: path) := by
  refine ⟨h.nodup_path, ?_⟩
  by_contra hnot
  exact hc ((h.free_iff c (h.queue_mem c List.mem_cons_self)).2 hnot)

/-! ### What the search finds -/

theorem nodup_of_clashFrom_eq_none (hg : g.WellFormed) (h : g.Searching slot free path queue)
    (hnone : g.clashFrom slot free path queue = none) (hchain : g.Extends path queue chain) :
    (chain.map slot).Nodup := by
  fun_induction clashFrom g slot free path queue with
  | case1 free path =>
    obtain ⟨_, _, hc, -⟩ := hchain.exists_append
    cases hc
  | case2 free path c queue hc ihdown ihnext =>
    rw [Option.orElse_eq_orElse, Option.orElse_eq_or, Option.or_eq_none_iff] at hnone
    rcases hchain.cons_cases with rfl | hdown | hnext
    · exact (h.descend hg hc).nodup_path
    · exact ihdown (h.descend hg hc) hnone.1 hdown
    · exact ihnext h.skip hnone.2 hnext
  | case3 free path c queue hc => cases hnone

theorem clashes_of_clashFrom_eq_some (hg : g.WellFormed) (h : g.Searching slot free path queue)
    {x : Clash} (hx : g.clashFrom slot free path queue = some x) :
    g.Extends path queue (x.callee :: x.path) ∧ Clashes slot (x.callee :: x.path) := by
  fun_induction clashFrom g slot free path queue with
  | case1 free path => cases hx
  | case2 free path c queue hc ihdown ihnext =>
    rw [Option.orElse_eq_orElse, Option.orElse_eq_or, Option.or_eq_some_iff] at hx
    rcases hx with hx | ⟨-, hx⟩
    · obtain ⟨hext, hclash⟩ := ihdown (h.descend hg hc) hx
      exact ⟨hext.of_callees List.mem_cons_self, hclash⟩
    · obtain ⟨hext, hclash⟩ := ihnext h.skip hx
      exact ⟨hext.of_tail, hclash⟩
  | case3 free path c queue hc =>
    cases hx
    exact ⟨.call List.mem_cons_self, h.clashes hc⟩

/-- Callees come in ascending order. -/
structure Sorted (g : CallGraph) : Prop where
  /-- So do those of the root. -/
  root : g.root.Pairwise (· < ·)
  /-- So do those of every subroutine. -/
  callees : ∀ p, (g.callees p).Pairwise (· < ·)

private theorem lex_of_extends (hlt : ∀ c' ∈ queue, c < c') (hchain : g.Extends path queue chain)
    (more : List Nat) : List.Lex (· < ·) (more ++ c :: path).reverse chain.reverse := by
  obtain ⟨more', c', hc', rfl⟩ := hchain.exists_append
  simp only [List.reverse_append, List.reverse_cons, List.append_assoc]
  exact List.append_left_lt (List.Lex.rel (hlt c' hc'))

private theorem Clashes.not_extends (hclash : Clashes slot (c :: path))
    (hchain : g.Extends (c :: path) queue chain) : ¬Clashes slot chain := by
  intro h
  obtain ⟨more, c', -, rfl⟩ := hchain.exists_append
  -- the part of the chain in front of its last call holds the clash already
  obtain ⟨a, before, hbefore, heq⟩ :
      ∃ a before, c :: path <:+ before ∧ more ++ c' :: c :: path = a :: before := by
    cases more with
    | nil => exact ⟨c', c :: path, List.suffix_rfl, rfl⟩
    | cons a more => exact ⟨a, more ++ c' :: c :: path, ⟨more ++ [c'], by simp⟩, rfl⟩
  rw [heq] at h
  exact hclash.not_nodup (h.1.sublist (hbefore.sublist.map slot))

/-- The clash that the search finds comes before every other one. -/
theorem lex_of_clashFrom_eq_some (hg : g.WellFormed) (hsorted : g.Sorted)
    (h : g.Searching slot free path queue) (hqueue : queue.Pairwise (· < ·)) {x : Clash}
    (hx : g.clashFrom slot free path queue = some x) (hchain : g.Extends path queue chain)
    (hclash : Clashes slot chain) (hne : chain ≠ x.callee :: x.path) :
    List.Lex (· < ·) (x.callee :: x.path).reverse chain.reverse := by
  fun_induction clashFrom g slot free path queue with
  | case1 free path => cases hx
  | case2 free path c queue hc ihdown ihnext =>
    obtain ⟨hlt, hqueue⟩ := List.pairwise_cons.1 hqueue
    rw [Option.orElse_eq_orElse, Option.orElse_eq_or, Option.or_eq_some_iff] at hx
    rcases hx with hx | ⟨hnone, hx⟩
    · rcases hchain.cons_cases with rfl | hdown | hnext
      · have hnodup := (h.descend hg hc).nodup_path
        rw [List.map_cons, List.nodup_cons] at hnodup
        exact absurd hclash.2 hnodup.1
      · exact ihdown (h.descend hg hc) (hsorted.callees c) hx hdown
      · obtain ⟨hext, -⟩ := clashes_of_clashFrom_eq_some hg (h.descend hg hc) hx
        obtain ⟨more, c', -, heq⟩ := hext.exists_append
        rw [heq, List.append_cons]
        exact lex_of_extends hlt hnext (more ++ [c'])
    · rcases hchain.cons_cases with rfl | hdown | hnext
      · have hnodup := (h.descend hg hc).nodup_path
        rw [List.map_cons, List.nodup_cons] at hnodup
        exact absurd hclash.2 hnodup.1
      · have hnodup := nodup_of_clashFrom_eq_none hg (h.descend hg hc) hnone hdown
        exact absurd hnodup hclash.not_nodup
      · exact ihnext h.skip hqueue hx hnext
  | case3 free path c queue hc =>
    cases hx
    obtain ⟨hlt, -⟩ := List.pairwise_cons.1 hqueue
    rcases hchain.cons_cases with rfl | hdown | hnext
    · exact absurd rfl hne
    · exact absurd hclash ((h.clashes hc).not_extends hdown)
    · exact lex_of_extends hlt hnext []

/-! ### The whole search -/

/-- There is no clash exactly when no chain of calls takes a slot twice. -/
theorem clash?_eq_none_iff (hg : g.WellFormed) :
    g.clash? slot = none ↔ ∀ chain, g.Chain chain → (chain.map slot).Nodup := by
  constructor
  · intro hnone chain hchain
    rcases chain_iff_extends.1 hchain with rfl | hchain
    · exact List.nodup_nil
    · exact nodup_of_clashFrom_eq_none hg (.start hg) hnone hchain
  · intro hnodup
    cases hx : g.clash? slot with
    | none => rfl
    | some x =>
      obtain ⟨hext, hclash⟩ := clashes_of_clashFrom_eq_some hg (.start hg) hx
      exact absurd (hnodup _ (chain_iff_extends.2 (.inr hext))) hclash.not_nodup

/-- A clash that is found is a chain of calls whose last one is the first to take a slot again. -/
theorem clashes_of_clash?_eq_some (hg : g.WellFormed) {x : Clash} (hx : g.clash? slot = some x) :
    g.Chain (x.callee :: x.path) ∧ Clashes slot (x.callee :: x.path) := by
  obtain ⟨hext, hclash⟩ := clashes_of_clashFrom_eq_some hg (.start hg) hx
  exact ⟨chain_iff_extends.2 (.inr hext), hclash⟩

/-- A clash that is found comes before all others in lexicographic order. -/
theorem lex_of_clash?_eq_some (hg : g.WellFormed) (hsorted : g.Sorted) {x : Clash}
    (hx : g.clash? slot = some x) (hchain : g.Chain chain) (hclash : Clashes slot chain)
    (hne : chain ≠ x.callee :: x.path) :
    List.Lex (· < ·) (x.callee :: x.path).reverse chain.reverse := by
  rcases chain_iff_extends.1 hchain with rfl | hchain
  · exact hclash.elim
  · exact lex_of_clashFrom_eq_some hg hsorted (.start hg) hsorted.root hx hchain hclash hne

end CallGraph

end BytecodeRegions
