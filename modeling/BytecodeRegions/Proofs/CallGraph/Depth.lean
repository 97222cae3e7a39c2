import BytecodeRegions.CallGraph
import Mathlib.Data.List.Nodup

/-!
# Chains of calls and nesting depth

A chain of calls is built one call at a time from the root of a call graph. The layers of a graph
put a subroutine into layer `k` exactly when its longest chain of further calls has length `k`, so
the nesting depth is the length of the longest chain from the root, and it is missing exactly when
chains get arbitrarily long.

## Main definitions

* `CallGraph.WellFormed`: subroutines are listed once, and only listed ones are called.
* `CallGraph.Chain`: the chains of calls from the root.
* `CallGraph.Deep`: chains of a given number of further calls.

## Main results

* `CallGraph.layerOf?_eq_some_iff`: what a layer holds.
* `CallGraph.chain_of_depth?_eq_some`, `CallGraph.depth?_eq_none_iff`: what the nesting depth is,
  and when there is none.
-/

namespace BytecodeRegions

namespace CallGraph

variable {g : CallGraph} {p c n : Nat}

/-- Subroutines are listed once, and only listed ones are called. -/
structure WellFormed (g : CallGraph) : Prop where
  /-- No subroutine is listed twice. -/
  nodup : g.leaders.Nodup
  /-- The root calls subroutines of the graph. -/
  root_mem : ∀ c ∈ g.root, c ∈ g.leaders
  /-- Subroutines call subroutines of the graph. -/
  callees_mem : ∀ p, ∀ c ∈ g.callees p, c ∈ g.leaders

/-- What is called at the end of a chain, the last call of which comes first. -/
def calledAfter (g : CallGraph) : List Nat → List Nat
  | [] => g.root
  | p :: _ => g.callees p

/-- The chains of calls from the root, the last call first. -/
inductive Chain (g : CallGraph) : List Nat → Prop
  | nil : Chain g []
  | cons {c : Nat} {path : List Nat} (hpath : Chain g path) (hc : c ∈ g.calledAfter path) :
      Chain g (c :: path)

/-- There is a chain of `n` further calls from a subroutine. -/
def Deep (g : CallGraph) : Nat → Nat → Prop
  | 0, _ => True
  | n + 1, p => ∃ c ∈ g.callees p, g.Deep n c

theorem Deep.of_succ (h : g.Deep (n + 1) p) : g.Deep n p := by
  induction n generalizing p with
  | zero => trivial
  | succ n ih =>
    obtain ⟨c, hc, hdeep⟩ := h
    exact ⟨c, hc, ih hdeep⟩

theorem Deep.mono {k : Nat} (h : g.Deep n p) (hk : k ≤ n) : g.Deep k p := by
  induction hk with
  | refl => exact h
  | step _ ih => exact ih h.of_succ

/-- Further calls make a chain longer. -/
theorem Chain.exists_longer {path : List Nat} (hpath : g.Chain (c :: path)) (hc : g.Deep n c) :
    ∃ longer, g.Chain longer ∧ longer.length = n + (path.length + 1) := by
  induction n generalizing c path with
  | zero => exact ⟨c :: path, hpath, by rw [Nat.zero_add, List.length_cons]⟩
  | succ n ih =>
    obtain ⟨c', hc', hdeep⟩ := hc
    obtain ⟨longer, hlonger, hlen⟩ := ih (hpath.cons hc') hdeep
    exact ⟨longer, hlonger, by rw [hlen, List.length_cons]; omega⟩

/-- Read from its first call on, a chain is a chain of further calls. -/
theorem Chain.exists_deep {path : List Nat} (hpath : g.Chain (c :: path)) (hc : g.Deep n c) :
    ∃ c' ∈ g.root, g.Deep (n + path.length) c' := by
  induction path generalizing c n with
  | nil =>
    cases hpath with
    | cons _ hroot => exact ⟨c, hroot, hc⟩
  | cons p path ih =>
    cases hpath with
    | cons hpath hcall =>
      have hp : g.Deep (n + 1) p := ⟨c, hcall, hc⟩
      rw [List.length_cons, Nat.add_comm path.length 1, ← Nat.add_assoc]
      exact ih hpath hp

/-- There is a chain of `n + 1` calls from the root exactly when the root calls a subroutine with a
chain of `n` further calls. -/
theorem exists_chain_succ_iff :
    (∃ path, g.Chain path ∧ path.length = n + 1) ↔ ∃ c ∈ g.root, g.Deep n c := by
  constructor
  · rintro ⟨path, hpath, hlen⟩
    cases hpath with
    | nil => cases hlen
    | @cons c path hpath hc =>
      obtain rfl : path.length = n := by simpa only [List.length_cons, Nat.add_left_inj] using hlen
      simpa only [Nat.zero_add] using (hpath.cons hc).exists_deep (n := 0) trivial
  · rintro ⟨c, hc, hdeep⟩
    exact (Chain.nil.cons hc).exists_longer hdeep

/-! ### Layers -/

private theorem lookup_of_mem {subs : List (Nat × List Nat)} (hnodup : (subs.map Prod.fst).Nodup)
    {s : Nat × List Nat} (hs : s ∈ subs) : subs.lookup s.1 = some s.2 := by
  induction subs with
  | nil => cases hs
  | cons a subs ih =>
    rw [List.map_cons, List.nodup_cons] at hnodup
    rcases List.mem_cons.1 hs with rfl | hs
    · exact List.lookup_cons_self
    · have hne : (s.1 == a.1) = false := by
        rw [beq_eq_false_iff_ne]
        exact fun heq => hnodup.1 (heq ▸ List.mem_map_of_mem hs)
      rw [List.lookup_cons, hne]
      exact ih hnodup.2 hs

theorem callees_of_mem (hg : g.WellFormed) {s : Nat × List Nat} (hs : s ∈ g.subs) :
    g.callees s.1 = s.2 := by
  rw [callees, lookup_of_mem hg.nodup hs, Option.getD_some]

variable {rest : List (Nat × List Nat)}

theorem callsNoneOf_iff {s : Nat × List Nat} :
    callsNoneOf rest s = true ↔ ∀ c ∈ s.2, ∀ r ∈ rest, r.1 ≠ c := by
  simp only [callsNoneOf, List.all_eq_true, bne_iff_ne]

/-- While the rest are the subroutines with `n` further calls, those that call some of the rest are
the ones with `n + 1`. -/
theorem deep_succ_iff (hg : g.WellFormed) (hrest : ∀ s, s ∈ rest ↔ s ∈ g.subs ∧ g.Deep n s.1)
    {s : Nat × List Nat} (hs : s ∈ g.subs) :
    g.Deep (n + 1) s.1 ↔ callsNoneOf rest s = false := by
  rw [← Bool.not_eq_true, callsNoneOf_iff, Deep, callees_of_mem hg hs]
  push Not
  refine exists_congr fun c => and_congr_right fun hc => ?_
  constructor
  · intro hdeep
    have hmem : c ∈ g.leaders := hg.callees_mem s.1 c (callees_of_mem hg hs ▸ hc)
    obtain ⟨r, hr, rfl⟩ := List.mem_map.1 hmem
    exact ⟨r, (hrest r).2 ⟨hr, hdeep⟩, rfl⟩
  · rintro ⟨r, hr, rfl⟩
    exact ((hrest r).1 hr).2

private theorem deep_of_peelable_eq_nil (hg : g.WellFormed)
    (hrest : ∀ s, s ∈ rest ↔ s ∈ g.subs ∧ g.Deep n s.1) (hnil : peelable rest = [])
    {s : Nat × List Nat} (hs : s ∈ rest) (k : Nat) : g.Deep (n + k) s.1 := by
  induction k generalizing s with
  | zero => exact ((hrest s).1 hs).2
  | succ k ih =>
    have hcalls : ¬callsNoneOf rest s = true := List.filter_eq_nil_iff.1 hnil s hs
    rw [callsNoneOf_iff] at hcalls
    push Not at hcalls
    obtain ⟨c, hc, r, hr, rfl⟩ := hcalls
    exact ⟨r.1, callees_of_mem hg ((hrest s).1 hs).1 ▸ hc, ih hr⟩

/-- The layers of the subroutines with `n` further calls: layer `k` holds those with exactly
`n + k`. -/
theorem mem_layers_iff (hg : g.WellFormed) (hrest : ∀ s, s ∈ rest ↔ s ∈ g.subs ∧ g.Deep n s.1)
    (k : Nat) : (∃ layer, (layers rest)[k]? = some layer ∧ p ∈ layer) ↔
      p ∈ g.leaders ∧ g.Deep (n + k) p ∧ ¬g.Deep (n + k + 1) p := by
  fun_induction layers rest generalizing n k with
  | case1 rest hnil =>
    constructor
    · rintro ⟨layer, hlayer, -⟩
      cases hlayer
    · rintro ⟨hp, hdeep, hnot⟩
      obtain ⟨s, hs, rfl⟩ := List.mem_map.1 hp
      have hmem : s ∈ rest := (hrest s).2 ⟨hs, hdeep.mono (Nat.le_add_right n k)⟩
      exact absurd (deep_of_peelable_eq_nil hg hrest hnil hmem (k + 1)) hnot
  | case2 rest hne ih =>
    cases k with
    | zero =>
      simp only [List.getElem?_cons_zero, Option.some.injEq, exists_eq_left', List.mem_map,
        peelable, List.mem_filter, Nat.add_zero]
      constructor
      · rintro ⟨s, ⟨hs, hnone⟩, rfl⟩
        obtain ⟨hsub, hdeep⟩ := (hrest s).1 hs
        refine ⟨List.mem_map_of_mem hsub, hdeep, fun hsucc => ?_⟩
        rw [deep_succ_iff hg hrest hsub, hnone] at hsucc
        cases hsucc
      · rintro ⟨hp, hdeep, hnot⟩
        obtain ⟨s, hs, rfl⟩ := List.mem_map.1 hp
        rw [deep_succ_iff hg hrest hs, Bool.not_eq_false] at hnot
        exact ⟨s, ⟨(hrest s).2 ⟨hs, hdeep⟩, hnot⟩, rfl⟩
    | succ k =>
      have hunpeeled : ∀ s, s ∈ unpeeled rest ↔ s ∈ g.subs ∧ g.Deep (n + 1) s.1 := by
        intro s
        rw [unpeeled, List.mem_filter, Bool.not_eq_true']
        constructor
        · rintro ⟨hs, hsome⟩
          have hsub := ((hrest s).1 hs).1
          exact ⟨hsub, (deep_succ_iff hg hrest hsub).2 hsome⟩
        · rintro ⟨hs, hdeep⟩
          exact ⟨(hrest s).2 ⟨hs, hdeep.of_succ⟩, (deep_succ_iff hg hrest hs).1 hdeep⟩
      rw [List.getElem?_cons_succ, ih hunpeeled k, Nat.add_assoc n 1 k, Nat.add_comm 1 k]

/-- A subroutine is in layer `k` when its longest chain of further calls has length `k`. -/
theorem layerOf?_eq_some_iff (hg : g.WellFormed) {k : Nat} : layerOf? (layers g.subs) p = some k ↔
    p ∈ g.leaders ∧ g.Deep k p ∧ ¬g.Deep (k + 1) p := by
  have hrest (s : Nat × List Nat) : s ∈ g.subs ↔ s ∈ g.subs ∧ g.Deep 0 s.1 :=
    (and_iff_left trivial).symm
  have hlayer (i : Nat) := mem_layers_iff (p := p) hg hrest i
  simp only [Nat.zero_add] at hlayer
  rw [← hlayer k, layerOf?, List.findIdx?_eq_some_iff_getElem]
  constructor
  · rintro ⟨hk, hmem, -⟩
    exact ⟨_, List.getElem?_eq_getElem hk, List.contains_iff_mem.1 hmem⟩
  · rintro ⟨layer, hk, hmem⟩
    obtain ⟨hlt, rfl⟩ := List.getElem?_eq_some_iff.1 hk
    refine ⟨hlt, List.contains_iff_mem.2 hmem, fun j hj hp => ?_⟩
    -- no subroutine is in two layers: its chains do not end in both
    have hin : ∃ layer, (layers g.subs)[j]? = some layer ∧ p ∈ layer :=
      ⟨_, List.getElem?_eq_getElem (Nat.lt_trans hj hlt), List.contains_iff_mem.1 hp⟩
    have hdeep : g.Deep k p := ((hlayer k).1 ⟨_, hk, hmem⟩).2.1
    exact ((hlayer j).1 hin).2.2 (hdeep.mono hj)

/-- A subroutine is in no layer when it has arbitrarily long chains of further calls. -/
theorem layerOf?_eq_none_iff (hg : g.WellFormed) (hp : p ∈ g.leaders) :
    layerOf? (layers g.subs) p = none ↔ ∀ k, g.Deep k p := by
  rw [Option.eq_none_iff_forall_ne_some]
  constructor
  · intro hnone k
    induction k with
    | zero => trivial
    | succ k ih =>
      by_contra hnot
      exact hnone k ((layerOf?_eq_some_iff hg).2 ⟨hp, ih, hnot⟩)
  · intro hdeep k hk
    exact ((layerOf?_eq_some_iff hg).1 hk).2.2 (hdeep (k + 1))

/-! ### Nesting depth -/

private theorem map_of_mapM {f : Nat → Option Nat} {l hs : List Nat} (h : l.mapM f = some hs) :
    l.map f = hs.map some := by
  induction l generalizing hs with
  | nil => cases h; rfl
  | cons a l ih =>
    rw [List.mapM_cons] at h
    obtain ⟨b, hb, h⟩ := Option.bind_eq_some_iff.1 h
    obtain ⟨bs, hbs, h⟩ := Option.bind_eq_some_iff.1 h
    cases h
    rw [List.map_cons, List.map_cons, hb, ih hbs]

private theorem exists_of_mapM_eq_none {f : Nat → Option Nat} {l : List Nat}
    (h : l.mapM f = none) : ∃ a ∈ l, f a = none := by
  induction l with
  | nil => cases h
  | cons a l ih =>
    cases ha : f a with
    | none => exact ⟨a, List.mem_cons_self, ha⟩
    | some b =>
      cases hl : l.mapM f with
      | none =>
        obtain ⟨a', ha', hnone⟩ := ih hl
        exact ⟨a', List.mem_cons_of_mem a ha', hnone⟩
      | some bs =>
        rw [List.mapM_cons, ha, hl] at h
        cases h

private theorem foldl_max_spec (l : List Nat) (a : Nat) :
    (l.foldl max a = a ∨ l.foldl max a ∈ l) ∧ a ≤ l.foldl max a ∧ ∀ b ∈ l, b ≤ l.foldl max a := by
  induction l generalizing a with
  | nil => exact ⟨.inl rfl, Nat.le_refl a, by simp⟩
  | cons b l ih =>
    obtain ⟨hmem, hmax, hall⟩ := ih (max a b)
    rw [List.foldl_cons]
    refine ⟨?_, Nat.le_trans (Nat.le_max_left a b) hmax,
      List.forall_mem_cons.2 ⟨Nat.le_trans (Nat.le_max_right a b) hmax, hall⟩⟩
    rcases hmem with hmem | hmem
    · rw [hmem]
      rcases Nat.le_total a b with hab | hab
      · exact .inr (by rw [Nat.max_eq_right hab]; exact List.mem_cons_self)
      · exact .inl (Nat.max_eq_left hab)
    · exact .inr (List.mem_cons_of_mem b hmem)

/-- If there is a nesting depth, it is the length of the longest chain of calls. -/
theorem chain_of_depth?_eq_some (hg : g.WellFormed) {d : Nat} (hd : g.depth? = some d) :
    (∃ path, g.Chain path ∧ path.length = d) ∧ ∀ path, g.Chain path → path.length ≤ d := by
  obtain ⟨hs, hmap, hd⟩ := Option.map_eq_some_iff.1 hd
  have hlayers := map_of_mapM hmap
  obtain ⟨hmem, -, hall⟩ := foldl_max_spec (hs.map (· + 1)) 0
  rw [hd] at hmem hall
  constructor
  · rcases hmem with rfl | hmem
    · exact ⟨[], .nil, rfl⟩
    · obtain ⟨k, hk, rfl⟩ := List.mem_map.1 hmem
      have hsome : some k ∈ g.root.map (layerOf? (layers g.subs)) :=
        hlayers ▸ List.mem_map_of_mem hk
      obtain ⟨c, hc, hlayer⟩ := List.mem_map.1 hsome
      exact exists_chain_succ_iff.2 ⟨c, hc, ((layerOf?_eq_some_iff hg).1 hlayer).2.1⟩
  · intro path hpath
    cases hlen : path.length with
    | zero => exact Nat.zero_le d
    | succ n =>
      obtain ⟨c, hc, hdeep⟩ := exists_chain_succ_iff.1 ⟨path, hpath, hlen⟩
      have hsome : layerOf? (layers g.subs) c ∈ hs.map some := hlayers ▸ List.mem_map_of_mem hc
      obtain ⟨k, hk, hlayer⟩ := List.mem_map.1 hsome
      have hnot := ((layerOf?_eq_some_iff hg).1 hlayer.symm).2.2
      have hnk : n ≤ k := by
        by_contra hlt
        exact hnot (hdeep.mono (by omega))
      have hkd := hall (k + 1) (List.mem_map_of_mem hk)
      omega

/-- There is no nesting depth exactly when there are arbitrarily long chains of calls. -/
theorem depth?_eq_none_iff (hg : g.WellFormed) :
    g.depth? = none ↔ ∀ n, ∃ path, g.Chain path ∧ path.length = n := by
  constructor
  · intro hnone n
    obtain ⟨c, hc, hlayer⟩ := exists_of_mapM_eq_none (Option.map_eq_none_iff.1 hnone)
    have hdeep := (layerOf?_eq_none_iff hg (hg.root_mem c hc)).1 hlayer
    cases n with
    | zero => exact ⟨[], .nil, rfl⟩
    | succ n => exact exists_chain_succ_iff.2 ⟨c, hc, hdeep n⟩
  · intro hlong
    cases hd : g.depth? with
    | none => rfl
    | some d =>
      obtain ⟨path, hpath, hlen⟩ := hlong (d + 1)
      have hle := (chain_of_depth?_eq_some hg hd).2 path hpath
      omega

end CallGraph

end BytecodeRegions
