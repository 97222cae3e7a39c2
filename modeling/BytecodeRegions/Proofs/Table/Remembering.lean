import BytecodeRegions.Proofs.Acceptance
import BytecodeRegions.Proofs.Table.Questions

/-!
# Remembering changes no answer

A table may be told to remember answers or not, and what it remembers at some moment depends on
which questions it was asked before and in which order. None of this can be told from its answers.
Two tables of one partition, with whatever settings and whatever right things remembered, answer a
question alike and are then still two such tables. This is followed through the steps of a question
and then through a series of questions.

## Main definitions

* `Table.bare`: what a table is apart from its settings and from what it remembers.
* `Table.Alike`: two tables of one partition that remember only what is right.
* `Query.Steady`: tables that are alike answer a question alike and stay alike.
* `Table.answers`: the answers to a series of questions.
* `Table.MemoryFresh`: whatever is remembered is what a table without memories answers.

## Main results

* `Question.steady_ask`: every question is steady.
* `Table.memory_invisible`: remembering changes no answer, and what is remembered is never stale.
-/

namespace BytecodeRegions

namespace Table

variable {t t' : Table}

/-- The partition of a table: nothing remembered, and no mark of how the table is asked. -/
def bare (t : Table) : Table :=
  { t.forget with settings := {}, isSealed := false }

/-- Two tables of one partition that remember only what is right. They may remember different
things, have different settings, and one of them may be sealed and the other not. -/
structure Alike (t t' : Table) : Prop where
  bare_eq : t.bare = t'.bare
  left : t.Coherent
  right : t'.Coherent

theorem Alike.symm (h : t.Alike t') : t'.Alike t :=
  ⟨h.bare_eq.symm, h.right, h.left⟩

/-- A table that remembers other right things is still like the other one. -/
theorem Alike.remember {u : Table} (h : t.Alike t') (hu : u.forget = t.forget)
    (hcoherent : u.Coherent) : u.Alike t' where
  bare_eq := by
    rw [bare, hu]
    exact h.bare_eq
  left := hcoherent
  right := h.right

theorem bare_region (t : Table) (ref : RegionRef) : t.bare.region ref = (t.region ref).forget :=
  forget_region t ref

theorem bare_leaders (t : Table) : t.bare.leaders = t.leaders :=
  forget_leaders t

theorem bare_regions (t : Table) : t.bare.regions = t.regions := by
  rw [regions, bare_leaders, regions]

theorem bare_calleesOf (t : Table) (r : Region) : t.bare.calleesOf r.forget = t.calleesOf r :=
  forget_calleesOf t r

theorem bare_graphOf (t : Table) (r : Region) : t.bare.graphOf r.forget = t.graphOf r := by
  simp only [graphOf, bare_calleesOf, bare_leaders, bare_region]

theorem bare_recursiveOf (t : Table) (r : Region) :
    t.bare.recursiveOf r.forget = t.recursiveOf r := by
  simp only [recursiveOf, bare_graphOf, bare_region]
  rfl

theorem bare_depthOf (t : Table) (ref : RegionRef) : t.bare.depthOf ref = t.depthOf ref := by
  simp only [depthOf, bare_region, bare_graphOf]
  rfl

theorem bare_statisticsOf (t : Table) : t.bare.statisticsOf = t.statisticsOf := by
  have hsizes : t.bare.subs.map (fun r => (r.entry.position, r.size)) =
      t.subs.map fun r => (r.entry.position, r.size) := List.map_map ..
  have hlength : t.bare.subs.length = t.subs.length := List.length_map _
  simp only [statisticsOf, bare_depthOf, hsizes, hlength]
  rfl

end Table

/-! ### Questions, step by step -/

namespace Query

variable {α β : Type} {q : Query α} {k : α → Query β}

/-- Tables that are alike answer a question alike, and a table that was asked is like it was. -/
def Steady (q : Query α) : Prop :=
  ∀ t t' : Table, t.Alike t' → (q t).1 = (q t').1 ∧ (q t).2.Alike t'

theorem steady_pure (a : α) : (pure a : Query α).Steady :=
  fun _ _ h => ⟨rfl, h⟩

theorem steady_throw (e : Fault) : (throw e : Query α).Steady :=
  fun _ _ h => ⟨rfl, h⟩

/-- Asking both of two tables that are alike leaves them alike. -/
theorem Steady.alike {t t' : Table} (hq : q.Steady) (h : t.Alike t') :
    (q t).2.Alike (q t').2 :=
  (hq t' _ (hq t t' h).2.symm).2.symm

theorem Steady.bind (hq : q.Steady) (hk : ∀ a, (k a).Steady) : (q >>= k).Steady := by
  intro t t' h
  obtain ⟨hanswer, hafter⟩ := hq t t' h
  have hboth := hq.alike h
  change (ExceptT.bindCont k (q t).1 (q t).2).1 = (ExceptT.bindCont k (q t').1 (q t').2).1 ∧
    (ExceptT.bindCont k (q t).1 (q t).2).2.Alike t'
  rw [← hanswer]
  cases (q t).1 with
  | ok a => exact ⟨(hk a _ _ hboth).1, (hk a _ _ hafter).2⟩
  | error e => exact ⟨rfl, hafter⟩

theorem steady_mapM {l : List α} (hk : ∀ a, (k a).Steady) : (l.mapM k).Steady := by
  induction l with
  | nil => exact steady_pure []
  | cons a l ih =>
    rw [List.mapM_cons]
    exact (hk a).bind fun b => ih.bind fun bs => steady_pure (b :: bs)

/-- A step that reads a region is steady if it does not look at what the region remembers. -/
theorem steady_region_bind {ref : RegionRef} {k : Region → Query β}
    (hforget : ∀ r, k r.forget = k r) (hk : ∀ r, (k r).Steady) : (region ref >>= k).Steady := by
  intro t t' h
  change (k (t.region ref) t).1 = (k (t'.region ref) t').1 ∧ (k (t.region ref) t).2.Alike t'
  rw [← hforget (t.region ref), ← hforget (t'.region ref), ← Table.bare_region, h.bare_eq,
    Table.bare_region, hforget]
  exact hk _ t t' h

/-- A step that reads the table is steady if it looks at the partition only. -/
theorem steady_get_bind {k : Table → Query β} (hbare : ∀ t, k t.bare = k t)
    (hk : ∀ t, (k t).Steady) : (get >>= k).Steady := by
  intro t t' h
  change (k t t).1 = (k t' t').1 ∧ (k t t).2.Alike t'
  rw [← hbare t, ← hbare t', h.bare_eq, hbare]
  exact hk t' t t' h

theorem steady_ofMisuse (x : Except Misuse α) : (ofMisuse x).Steady := by
  cases x with
  | ok a => exact steady_pure a
  | error m => exact steady_throw (.misuse m)

/-- A question that yields what can be computed from the partition is steady. -/
theorem steady_of_yields {v : Table → Except Fault α}
    (hyields : ∀ t : Table, t.Coherent → q.Yields t (v t)) (hbare : ∀ t, v t.bare = v t) :
    q.Steady := by
  intro t t' h
  obtain ⟨u, hu, hcoherent, hforget⟩ := hyields t h.left
  rw [hu, (hyields t' h.right).fst, ← hbare t, h.bare_eq, hbare]
  exact ⟨rfl, h.remember hforget hcoherent⟩

/-! ### Every question is steady -/

theorem steady_accessed (ref : RegionRef) : (accessed ref).Steady :=
  steady_of_yields (fun _ ht => yields_accessed ht ref) fun t => by
    rw [Table.bare_region]
    rfl

theorem steady_recursive (ref : RegionRef) : (recursive ref).Steady :=
  steady_of_yields (fun _ ht => yields_recursive ht ref) fun t => by
    rw [Table.bare_region, Table.bare_recursiveOf]

theorem steady_callees (ref : RegionRef) : (callees ref).Steady :=
  steady_of_yields (fun _ ht => yields_callees ht ref) fun t => by
    rw [Table.bare_region, Table.bare_calleesOf]

theorem steady_depth (ref : RegionRef) : (depth ref).Steady :=
  steady_of_yields (fun _ ht => yields_depth ht ref) fun t => t.bare_depthOf ref

theorem steady_statistics : statistics.Steady :=
  steady_of_yields (fun _ ht => yields_statistics ht) Table.bare_statisticsOf

theorem steady_slotList (slots : List Nat) : (slotList slots).Steady := by
  rw [slotList]
  split
  · exact steady_pure _
  · exact steady_throw .unwritable

theorem steady_describe (ref : RegionRef) : (describe ref).Steady := by
  refine steady_region_bind (fun _ => rfl) fun r => ?_
  dsimp only
  split
  · refine (steady_accessed ref).bind fun own => (steady_slotList own).bind fun _ => ?_
    refine (steady_recursive ref).bind fun all => (steady_slotList all).bind fun _ => ?_
    exact steady_pure _
  · exact steady_pure _

theorem steady_node (ref : RegionRef) : (node ref).Steady := by
  refine steady_region_bind (fun _ => rfl) fun r => ?_
  dsimp only
  split
  · exact steady_pure _
  · exact (steady_ofMisuse _).bind fun _ => steady_pure _

theorem steady_edges (ref : RegionRef) : (edges ref).Steady := by
  refine steady_region_bind (fun _ => rfl) fun r => (steady_callees ref).bind fun cs => ?_
  refine steady_mapM fun p => steady_region_bind (fun _ => rfl) fun callee => ?_
  exact (steady_ofMisuse _).bind fun _ => steady_pure _

theorem steady_dot (title : Option String) : (dot title).Steady := by
  have hdiagram : diagram.Steady := by
    refine steady_get_bind (fun t => by rw [Table.bare_regions]) fun t => ?_
    exact (steady_mapM steady_node).bind fun _ => (steady_mapM steady_edges).bind fun _ =>
      steady_pure _
  exact hdiagram.bind fun _ => steady_pure _

theorem steady_summaryLine (ref : RegionRef) : (summaryLine ref).Steady := by
  refine steady_region_bind (fun _ => rfl) fun r => (steady_callees ref).bind fun cs => ?_
  refine (steady_mapM fun p => steady_region_bind (fun _ => rfl) fun _ => steady_pure _).bind
    fun labels => ?_
  dsimp only
  split
  · exact steady_pure _
  · refine (steady_ofMisuse _).bind fun _ => (steady_ofMisuse _).bind fun ret => ?_
    exact (steady_accessed ref).bind fun slots => (steady_slotList slots).bind fun _ =>
      steady_pure _

theorem steady_summary : summary.Steady := by
  refine steady_statistics.bind fun s => steady_get_bind (fun t => by rw [Table.bare_regions])
    fun t => ?_
  exact (steady_mapM steady_summaryLine).bind fun _ => steady_pure _

end Query

/-- Whatever is asked, tables that are alike answer alike. -/
theorem Question.steady_ask (q : Question) : q.ask.Steady := by
  cases q with
  | accessed r => exact (Query.steady_accessed r).bind fun _ => Query.steady_pure _
  | recursive r => exact (Query.steady_recursive r).bind fun _ => Query.steady_pure _
  | callees r => exact (Query.steady_callees r).bind fun _ => Query.steady_pure _
  | describe r => exact (Query.steady_describe r).bind fun _ => Query.steady_pure _
  | depth r => exact (Query.steady_depth r).bind fun _ => Query.steady_pure _
  | statistics => exact Query.steady_statistics.bind fun _ => Query.steady_pure _
  | dot title => exact (Query.steady_dot title).bind fun _ => Query.steady_pure _
  | summary => exact Query.steady_summary.bind fun _ => Query.steady_pure _

/-! ### One question after another -/

namespace Table

/-- The answers to a series of questions, each asked of the table that the one before has left. -/
def answers (t : Table) : List Question → List (Except Fault Answer)
  | [] => []
  | q :: qs => (q.ask t).1 :: answers (q.ask t).2 qs

/-- Whatever is remembered about a region is what is answered where nothing is remembered. -/
structure MemoryFresh (t : Table) : Prop where
  /-- The slots of a region. -/
  accessed : ∀ r slots, (t.region r).memo.accessed = some slots →
    (Query.accessed r t.forget).1 = .ok slots
  /-- The slots of a region and of all it calls. -/
  recursive : ∀ r slots, (t.region r).memo.recursive = some slots →
    (Query.recursive r t.forget).1 = .ok slots
  /-- What a region calls. -/
  callees : ∀ r ps, (t.region r).memo.callees = some ps → (Query.callees r t.forget).1 = .ok ps

variable {t t' : Table} {m : Method} {settings settings' : Settings}

theorem Coherent.memoryFresh (ht : t.Coherent) : t.MemoryFresh where
  accessed r slots h := by
    rw [(Query.yields_accessed t.coherent_forget r).fst, forget_region]
    exact (ht r).accessed slots h
  recursive r slots h := by
    rw [(Query.yields_recursive t.coherent_forget r).fst, forget_region, forget_recursiveOf]
    exact (ht r).recursive slots h
  callees r ps h := by
    rw [(Query.yields_callees t.coherent_forget r).fst, forget_region, forget_calleesOf,
      (ht r).callees ps h]
    rfl

theorem Alike.answers_eq (h : t.Alike t') (qs : List Question) : t.answers qs = t'.answers qs := by
  induction qs generalizing t t' with
  | nil => rfl
  | cons q qs ih =>
    have hanswer := (q.steady_ask t t' h).1
    rw [answers, answers, hanswer, ih (q.steady_ask.alike h)]

/-- A series of questions leaves a table like the one that was never asked. -/
theorem Alike.after (h : t.Alike t') (qs : List Question) : (t.after qs).Alike t' := by
  induction qs generalizing t with
  | nil => exact h
  | cons q qs ih => exact ih (q.steady_ask t t' h).2

/-- Tables of one method are alike, whatever their settings. -/
theorem alike_of_build (ht : build m settings = .ok t) (ht' : build m settings' = .ok t') :
    t.Alike t' := by
  obtain ⟨-, hcoherent, hforget⟩ := finished_of_build_eq_ok ht
  obtain ⟨-, hcoherent', hforget'⟩ := finished_of_build_eq_ok ht'
  refine ⟨?_, hcoherent, hcoherent'⟩
  rw [bare, bare, hforget, hforget']
  rfl

/-- A method that gets a table gets one whatever the settings, so whether or not answers are to be
remembered. The two tables give the same answers, one by one, to every series of questions, failures
included; a question has the same answer after any series of questions as at first; and after any
series of questions whatever is remembered is what would be computed with nothing remembered. -/
theorem memory_invisible (ht : build m settings = .ok t) (settings' : Settings) :
    ∃ t', build m settings' = .ok t' ∧
      ∀ qs : List Question, t.answers qs = t'.answers qs ∧
        (∀ q : Question, (q.ask (t.after qs)).1 = (q.ask t).1) ∧ (t.after qs).MemoryFresh := by
  have hm := (Method.exists_build_eq_ok_iff m settings).1 ⟨t, ht⟩
  obtain ⟨t', ht'⟩ := (Method.exists_build_eq_ok_iff m settings').2 hm
  have hboth : t.Alike t' := alike_of_build ht ht'
  have hself : t.Alike t := alike_of_build ht ht
  refine ⟨t', ht', fun qs => ⟨hboth.answers_eq qs, fun q => ?_, (hself.after qs).left.memoryFresh⟩⟩
  exact (q.steady_ask _ _ (hself.after qs)).1

/-- Two nested subroutines, with answers remembered and not: the slots of the outer one are
remembered once they were asked for, and yet nobody can tell. -/
theorem memory_invisible_nested : ∃ t, build (.nested 2) {} = .ok t ∧
    ((t.after [.recursive (.sub 4)]).region (.sub 4)).memo.recursive = some [1, 2] ∧
      ∃ t', build (.nested 2) { remember := false } = .ok t' ∧
        ∀ qs : List Question, t.answers qs = t'.answers qs ∧
          (∀ q : Question, (q.ask (t.after qs)).1 = (q.ask t).1) ∧ (t.after qs).MemoryFresh := by
  have heval : (build (.nested 2) {}).toOption.map
      (fun t => ((t.after [.recursive (.sub 4)]).region (.sub 4)).memo.recursive) =
    some (some [1, 2]) := by cbv
  cases ht : build (.nested 2) {} with
  | error f => rw [ht] at heval; cases heval
  | ok t =>
    rw [ht] at heval
    exact ⟨t, rfl, Option.some.inj heval, memory_invisible ht _⟩

end Table

end BytecodeRegions
