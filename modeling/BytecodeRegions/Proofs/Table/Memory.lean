import BytecodeRegions.Table.Report
import Mathlib.Data.List.Find

/-!
# What a table remembers

Questions to a table may leave answers behind in its regions. A table is *coherent* when every
answer it remembers is the one that would be computed anew. On a coherent table a question yields
what a plain function of the table computes, whatever is remembered, and leaves a coherent table
that differs in what it remembers only.

## Main definitions

* `Table.forget`: the table with nothing remembered.
* `Table.graphOf`, `Table.recursiveOf`, `Table.depthOf`: plain answers.
* `Table.Coherent`: what is remembered is right.
* `Query.Yields`: a question gives a given answer and changes at most what is remembered.

## Main results

* `Query.yields_callees`, `Query.yields_graph`, `Query.yields_depth`, `Query.yields_statistics`,
  `Query.yields_checkRecursion`: what these questions yield.
-/

namespace BytecodeRegions

/-- The region with nothing remembered. -/
def Region.forget (r : Region) : Region :=
  { r with memo := {} }

/-- The slots that a region accesses itself, once it is finished. -/
def Region.accessedOf (r : Region) : Except Fault (List Nat) :=
  if r.ret.isNone && !r.isTop then .error (.misuse .unfinished) else .ok r.accessedSlots

namespace Table

variable {t t' : Table} {r : Region} {ref : RegionRef}

/-- The table with nothing remembered. -/
def forget (t : Table) : Table :=
  { t with top := t.top.forget, subs := t.subs.map Region.forget,
           loose := t.loose.map Region.forget }

/-- The call graph seen from a region. -/
def graphOf (t : Table) (r : Region) : Except Fault CallGraph := do
  let root ← (t.calleesOf r).mapError .misuse
  let subs ← t.leaders.mapM fun p =>
    return (p, ← (t.calleesOf (t.region (.sub p))).mapError .misuse)
  return { root, subs }

/-- The slots that a region and all it calls, directly or not, access. -/
def recursiveOf (t : Table) (r : Region) : Except Fault (List Nat) := do
  let own ← r.accessedOf
  let g ← t.graphOf r
  let called ← g.reachable.mapM fun p => (t.region (.sub p)).accessedOf
  return Region.ascending (own ++ called.flatten)

/-- The length of the longest chain of calls from a region. -/
def depthOf (t : Table) (ref : RegionRef) : Except Fault Nat := do
  let g ← t.graphOf (t.region (if (t.region ref).members.isEmpty then .top else ref))
  g.depth?.elim (.error .endless) .ok

/-- The figures of a table. -/
def statisticsOf (t : Table) : Except Fault Statistics := do
  let maxDepth ← t.depthOf .top
  return { method := t.method.name
           instructions := t.method.body.size
           reachable := t.ownedCount
           subroutines := t.subs.length
           topLevel := t.top.size
           perSubroutine := t.subs.map fun r => (r.entry.position, r.size)
           maxDepth }

/-- The verdict on the chains of calls from a region. -/
def recursionOf (t : Table) (ref : RegionRef) (method : String) : Except Fault Unit := do
  let g ← t.graphOf (t.region ref)
  match g.clash? t.retSlot with
  | some x => .error (.violation (t.clashViolation ref method x))
  | none => .ok ()

/-! ### Forgetting -/

theorem forget_leaders (t : Table) : t.forget.leaders = t.leaders := by
  simp [leaders, forget, Region.forget, Function.comp_def]

theorem forget_sub? (t : Table) (p : Nat) : t.forget.sub? p = (t.sub? p).map Region.forget := by
  simp only [sub?, forget, List.find?_map]
  rfl

theorem forget_region (t : Table) (ref : RegionRef) :
    t.forget.region ref = (t.region ref).forget := by
  cases ref with
  | top => rfl
  | sub p =>
    simp only [region, forget_sub?]
    cases t.sub? p <;> rfl
  | loose i =>
    simp only [region, forget, List.getElem?_map]
    cases t.loose[i]? <;> rfl

theorem forget_getSubroutine (t : Table) : t.forget.getSubroutine = t.getSubroutine := by
  funext h
  simp only [getSubroutine, forget_sub?, Option.isSome_map]
  rfl

theorem forget_calleesOf (t : Table) (r : Region) :
    t.forget.calleesOf r.forget = t.calleesOf r := by
  simp only [calleesOf, forget_getSubroutine]
  rfl

/-- Tables that differ in what they remember only have the same call graphs. -/
theorem forget_graphOf (t : Table) (r : Region) : t.forget.graphOf r.forget = t.graphOf r := by
  simp only [graphOf, forget_calleesOf, forget_leaders, forget_region]

theorem forget_recursiveOf (t : Table) (r : Region) :
    t.forget.recursiveOf r.forget = t.recursiveOf r := by
  simp only [recursiveOf, forget_graphOf, forget_region]
  rfl

theorem forget_depthOf (t : Table) (ref : RegionRef) : t.forget.depthOf ref = t.depthOf ref := by
  simp only [depthOf, forget_region, forget_graphOf]
  rfl

theorem calleesOf_congr (ht : t'.forget = t.forget) (ref : RegionRef) :
    t'.calleesOf (t'.region ref) = t.calleesOf (t.region ref) := by
  rw [← forget_calleesOf, ← forget_region, ht, forget_region, forget_calleesOf]

theorem forget_retSlot (t : Table) : t.forget.retSlot = t.retSlot := by
  funext p
  rw [retSlot, forget_region]
  rfl

theorem retSlot_congr (ht : t'.forget = t.forget) : t'.retSlot = t.retSlot := by
  rw [← forget_retSlot, ht, forget_retSlot]

theorem forget_clashViolation (t : Table) : t.forget.clashViolation = t.clashViolation := by
  funext ref method x
  simp only [clashViolation, forget_region, forget_retSlot]
  rfl

theorem clashViolation_congr (ht : t'.forget = t.forget) :
    t'.clashViolation = t.clashViolation := by
  rw [← forget_clashViolation, ht, forget_clashViolation]

/-! ### Coherence -/

/-- What a region remembers is what the table would compute. -/
structure RemembersRight (t : Table) (r : Region) : Prop where
  /-- The slots of the region. -/
  accessed : ∀ a, r.memo.accessed = some a → r.accessedOf = .ok a
  /-- The slots of the region and of all it calls. -/
  recursive : ∀ a, r.memo.recursive = some a → t.recursiveOf r = .ok a
  /-- What the region calls. -/
  callees : ∀ cs, r.memo.callees = some cs → t.calleesOf r = .ok cs

/-- Whatever is remembered is right. -/
def Coherent (t : Table) : Prop :=
  ∀ ref, t.RemembersRight (t.region ref)

/-- A table that remembers nothing is coherent. -/
theorem coherent_forget (t : Table) : t.forget.Coherent := by
  intro ref
  rw [forget_region]
  constructor <;> rintro _ ⟨⟩

/-- The table with other things remembered about one region. -/
def memorize (t : Table) (ref : RegionRef) (f : Memo → Memo) : Table :=
  t.modify ref fun r => { r with memo := f r.memo }

theorem sub?_modify {f : Region → Region} {p : Nat} (q : Nat)
    (hf : ∀ r ∈ t.subs, r.entry.position = p → (f r).entry.position = r.entry.position) :
    (t.modify (.sub p) f).sub? q =
      (t.sub? q).map fun r => if r.entry.position = p then f r else r := by
  simp only [sub?, modify, List.find?_map]
  congr 1
  refine List.find?_congr fun r hr => ?_
  simp only [Function.comp_apply]
  split
  · next hp => rw [hf r hr hp]
  · rfl

/-- The name of a subroutine stands for a region with that entry. -/
theorem exists_sub?_eq_some {p : Nat} (hp : p ∈ t.leaders) :
    ∃ r, t.sub? p = some r ∧ r.entry.position = p := by
  obtain ⟨r, hr, rfl⟩ := List.mem_map.1 hp
  have hsome : (t.sub? r.entry.position).isSome = true :=
    List.find?_isSome.2 ⟨r, hr, beq_self_eq_true _⟩
  obtain ⟨r', hr'⟩ := Option.isSome_iff_exists.1 hsome
  have hposition := List.find?_some hr'
  exact ⟨r', hr', eq_of_beq hposition⟩

/-- A subroutine that is put in the place of another one with the same entry is there. -/
theorem region_modify_sub {p : Nat} (hp : p ∈ t.leaders) (hr : r.entry.position = p) :
    (t.modify (.sub p) fun _ => r).region (.sub p) = r := by
  obtain ⟨r', hr', hposition⟩ := exists_sub?_eq_some hp
  have hsub : (t.modify (.sub p) fun _ => r).sub? p = some r := by
    rw [sub?_modify p fun _ _ h => hr.trans h.symm, hr', Option.map_some, if_pos hposition]
  rw [region, hsub, Option.getD_some]

/-- Changing a region without its entry changes it or nothing, whatever name the region is seen
by. -/
theorem region_modify_cases {f : Region → Region}
    (hf : ∀ r, r.entry.position = (t.region ref).entry.position →
      (f r).entry.position = r.entry.position) (ref' : RegionRef) :
    (t.modify ref f).region ref' = t.region ref' ∨
      (t.modify ref f).region ref' = f (t.region ref) ∧ t.region ref' = t.region ref := by
  cases ref with
  | top =>
    cases ref' with
    | top => exact .inr ⟨rfl, rfl⟩
    | sub q =>
      cases hq : t.sub? q with
      | none =>
        refine .inr ⟨?_, by simp only [region, hq]; rfl⟩
        exact congrArg (Option.getD · _) hq
      | some r =>
        refine .inl (Eq.trans (b := r) ?_ (by rw [region, hq]; rfl))
        exact congrArg (Option.getD · _) hq
    | loose j =>
      cases hj : t.loose[j]? with
      | none =>
        refine .inr ⟨?_, by simp only [region, hj]; rfl⟩
        exact congrArg (Option.getD · _) hj
      | some r =>
        refine .inl (Eq.trans (b := r) ?_ (by rw [region, hj]; rfl))
        exact congrArg (Option.getD · _) hj
  | sub p =>
    cases ref' with
    | top => exact .inl rfl
    | loose j => exact .inl rfl
    | sub q =>
      have hkeep (r : Region) (hr : r ∈ t.subs) (hp : r.entry.position = p) :
          (f r).entry.position = r.entry.position := by
        obtain ⟨r', hr', hposition⟩ := exists_sub?_eq_some (List.mem_map.2 ⟨r, hr, hp⟩)
        refine hf r ?_
        rw [region, hr', Option.getD_some, hposition, hp]
      simp only [region, sub?_modify q hkeep]
      cases hq : t.sub? q with
      | none => exact .inl rfl
      | some r =>
        have hr := List.find?_some hq
        simp only [Option.map_some, Option.getD_some]
        split
        · next hp =>
          obtain rfl : p = q := hp.symm.trans (eq_of_beq hr)
          exact .inr (by rw [hq]; exact ⟨rfl, rfl⟩)
        · exact .inl rfl
  | loose i =>
    cases ref' with
    | top => exact .inl rfl
    | sub q => exact .inl rfl
    | loose j =>
      simp only [region, modify, List.getElem?_modify]
      cases hj : t.loose[j]? with
      | none => exact .inl rfl
      | some r =>
        simp only [Option.map_eq_map, Option.map_some, Option.getD_some]
        split
        · next hij =>
          obtain rfl := hij
          exact .inr (by rw [hj]; exact ⟨rfl, rfl⟩)
        · exact .inl rfl

/-- Remembering changes the region it is about or nothing, whatever name the region is seen by. -/
theorem region_memorize_cases (t : Table) (ref ref' : RegionRef) (f : Memo → Memo) :
    (t.memorize ref f).region ref' = t.region ref' ∨
      (t.memorize ref f).region ref' = { t.region ref with memo := f (t.region ref).memo } ∧
        t.region ref' = t.region ref :=
  region_modify_cases (f := fun r => { r with memo := f r.memo }) (fun _ _ => rfl) ref'

theorem forget_memorize (t : Table) (ref : RegionRef) (f : Memo → Memo) :
    (t.memorize ref f).forget = t.forget := by
  cases ref with
  | top => rfl
  | sub p =>
    simp only [memorize, modify, forget, List.map_map]
    congr 2
    funext r
    simp only [Function.comp_apply]
    split <;> rfl
  | loose i =>
    simp only [memorize, modify, forget]
    congr 1
    refine List.ext_getElem? fun j => ?_
    simp only [List.getElem?_map, List.getElem?_modify, Option.map_eq_map, Option.map_map]
    congr 1
    funext r
    simp only [Function.comp_apply]
    split <;> rfl

/-- Being right depends on the table only up to what it remembers. -/
theorem RemembersRight.congr (h : t.RemembersRight r) (ht : t'.forget = t.forget) :
    t'.RemembersRight r where
  accessed := h.accessed
  recursive a ha := by
    rw [← forget_recursiveOf, ht, forget_recursiveOf]
    exact h.recursive a ha
  callees cs hcs := by
    rw [← forget_calleesOf, ht, forget_calleesOf]
    exact h.callees cs hcs

/-- Remembering something that is right keeps a table coherent. -/
theorem Coherent.memorize {f : Memo → Memo} (ht : t.Coherent)
    (hf : t.RemembersRight { t.region ref with memo := f (t.region ref).memo }) :
    (t.memorize ref f).Coherent := by
  intro ref'
  rcases region_memorize_cases t ref ref' f with h | ⟨h, -⟩
  · rw [h]
    exact (ht ref').congr (forget_memorize t ref f)
  · rw [h]
    exact hf.congr (forget_memorize t ref f)

end Table

/-! ### Questions, step by step -/

namespace Query

variable {α β : Type} {t : Table} {ref : RegionRef} {q : Query α} {k : α → Query β} {a : α}
  {e : Fault} {v : Except Fault α} {w : α → Except Fault β}

/-- A question to a table gives an answer and leaves a coherent table that differs in what it
remembers only. -/
def Yields (q : Query α) (t : Table) (v : Except Fault α) : Prop :=
  ∃ t' : Table, q t = (v, t') ∧ t'.Coherent ∧ t'.forget = t.forget

theorem yields_pure (ht : t.Coherent) : (pure a : Query α).Yields t (.ok a) :=
  ⟨t, rfl, ht, rfl⟩

theorem yields_throw (ht : t.Coherent) : (throw e : Query α).Yields t (.error e) :=
  ⟨t, rfl, ht, rfl⟩

theorem yields_ofMisuse (ht : t.Coherent) (x : Except Misuse α) :
    (ofMisuse x).Yields t (x.mapError .misuse) := by
  cases x with
  | ok a => exact yields_pure ht
  | error m => exact yields_throw ht

theorem yields_region_bind {k : Region → Query β} {w : Except Fault β}
    (h : (k (t.region ref)).Yields t w) : (region ref >>= k).Yields t w :=
  h

theorem yields_remembers_bind {k : Bool → Query β} {w : Except Fault β}
    (h : (k (t.isSealed && t.settings.remember)).Yields t w) : (remembers >>= k).Yields t w :=
  h

theorem yields_get_bind {k : Table → Query β} {w : Except Fault β} (h : (k t).Yields t w) :
    (get >>= k).Yields t w :=
  h

/-- One question after another: the second one is asked of a table that differs in what it remembers
only. -/
theorem Yields.bind (h : q.Yields t v)
    (hk : ∀ a, v = .ok a → ∀ t' : Table, t'.Coherent → t'.forget = t.forget →
      (k a).Yields t' (w a)) : (q >>= k).Yields t (v >>= w) := by
  obtain ⟨t', hq, ht', hforget⟩ := h
  have hbind : (q >>= k) t = ExceptT.bindCont k v t' := by
    change (ExceptT.bindCont k (q t).1) (q t).2 = _
    rw [hq]
  cases v with
  | error e => exact ⟨t', hbind, ht', hforget⟩
  | ok a =>
    obtain ⟨t'', hka, ht'', hforget'⟩ := hk a rfl t' ht' hforget
    exact ⟨t'', hbind.trans hka, ht'', hforget'.trans hforget⟩

theorem yields_mapM {l : List α} (ht : t.Coherent)
    (hk : ∀ a, ∀ t' : Table, t'.Coherent → t'.forget = t.forget → (k a).Yields t' (w a)) :
    (l.mapM k).Yields t (l.mapM w) := by
  induction l generalizing t with
  | nil => exact yields_pure ht
  | cons a l ih =>
    rw [List.mapM_cons, List.mapM_cons]
    refine (hk a t ht rfl).bind fun b _ t' ht' hforget => ?_
    refine Yields.bind (ih ht' fun a t'' ht'' h => hk a t'' ht'' (h.trans hforget)) ?_
    intro bs _ t'' ht'' _
    exact yields_pure ht''

/-- An answer that is remembered, or computed and then remembered, is the computed one. -/
theorem yields_remembered {find : Memo → Option α} {store : α → Memo → Memo} {compute : Query α}
    (ht : t.Coherent) (hfind : ∀ a, find (t.region ref).memo = some a → v = .ok a)
    (hcompute : compute.Yields t v)
    (hstore : ∀ a, v = .ok a → ∀ t' : Table, t'.Coherent → t'.forget = t.forget →
      t'.RemembersRight { t'.region ref with memo := store a (t'.region ref).memo }) :
    (remembered ref find store compute).Yields t v := by
  refine yields_remembers_bind ?_
  split
  · refine yields_region_bind ?_
    split
    · next a ha =>
      rw [hfind a ha]
      exact yields_pure ht
    · obtain ⟨t', hq, ht', hforget⟩ := hcompute.bind (w := .ok) fun a ha t' ht' hforget =>
        (⟨t'.memorize ref (store a), rfl, ht'.memorize (hstore a ha t' ht' hforget),
          Table.forget_memorize t' ref (store a)⟩ : Yields _ t' _)
      rw [show v >>= Except.ok = v by cases v <;> rfl] at hq
      exact ⟨t', hq, ht', hforget⟩
  · exact hcompute

/-! ### Answers -/

/-- What a region calls itself. -/
theorem yields_callees (ht : t.Coherent) (ref : RegionRef) :
    (callees ref).Yields t ((t.calleesOf (t.region ref)).mapError .misuse) := by
  refine yields_remembered ht (fun cs hcs => ?_) (yields_ofMisuse ht _)
    fun cs hcs t' ht' hforget => ?_
  · rw [(ht ref).callees cs hcs]
    rfl
  · refine ⟨(ht' ref).accessed, (ht' ref).recursive, fun cs' hcs' => ?_⟩
    cases hcs'
    cases hc : t.calleesOf (t.region ref) with
    | error m => rw [hc] at hcs; cases hcs
    | ok cs'' =>
      rw [hc] at hcs
      cases hcs
      exact (Table.calleesOf_congr hforget ref).trans hc

/-- The call graph seen from a region. -/
theorem yields_graph (ht : t.Coherent) (ref : RegionRef) :
    (graph ref).Yields t (t.graphOf (t.region ref)) := by
  refine (yields_callees ht ref).bind fun root _ t₁ ht₁ hforget => ?_
  refine yields_get_bind ?_
  rw [← Table.forget_leaders t, ← hforget, Table.forget_leaders]
  refine Yields.bind (yields_mapM ht₁ fun p t₂ ht₂ hforget₂ => ?_) fun _ _ _ ht₂ _ =>
    yields_pure ht₂
  rw [← Table.calleesOf_congr (hforget₂.trans hforget)]
  exact (yields_callees ht₂ (.sub p)).bind fun _ _ _ ht₃ _ => yields_pure ht₃

/-- The length of the longest chain of calls from a region. -/
theorem yields_depth (ht : t.Coherent) (ref : RegionRef) :
    (depth ref).Yields t (t.depthOf ref) := by
  refine yields_region_bind ?_
  refine (yields_graph ht _).bind fun g _ t' ht' _ => ?_
  cases g.depth? with
  | none => exact yields_throw ht'
  | some d => exact yields_pure ht'

/-- The figures of a table. -/
theorem yields_statistics (ht : t.Coherent) : statistics.Yields t t.statisticsOf :=
  yields_get_bind ((yields_depth ht .top).bind fun _ _ _ ht' _ => yields_pure ht')

/-- The verdict on the chains of calls from a region. -/
theorem yields_checkRecursion (ht : t.Coherent) (ref : RegionRef) (method : String) :
    (checkRecursion ref method).Yields t (t.recursionOf ref method) := by
  refine (yields_graph ht ref).bind fun g _ t' ht' hforget => yields_get_bind ?_
  rw [Table.retSlot_congr hforget]
  cases hx : g.clash? t.retSlot with
  | none => exact yields_pure ht'
  | some x =>
    rw [Table.clashViolation_congr hforget]
    exact yields_throw ht'

end Query

end BytecodeRegions
