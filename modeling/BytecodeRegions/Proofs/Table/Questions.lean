import BytecodeRegions.Proofs.Table.Regions

/-!
# Questions that always have an answer

A table whose regions are built has an answer to every question about them. Each question is a
program that asks others, so the answers are followed through its steps: a step finds the table
built, leaves it built, and hands on an answer with some property. The one question that may stay
without an answer is the nesting depth of a region that reaches a circle of calls.

## Main definitions

* `Query.Gives`: on a table that is built, a question has an answer with a given property.
* `Method.sites`, `Method.edge`: the calls of a subroutine in a region, and the edge for them.
* `Question`, `Question.ask`: the questions as data, so that they can be asked one after another.
* `Table.after`: a table after a series of questions.

## Main results

* `Question.yields`: what comes of a question.
* `Table.FullyBuilt.after`: a series of questions leaves a table built.
-/

namespace BytecodeRegions

/-- A slot is read or written by an instruction of the method. -/
def Method.Accesses (m : Method) (s : Nat) : Prop :=
  ∃ i ∈ m.body.code, s ∈ i.accessedSlots

theorem Table.recursiveOf_congr {t t' : Table} (ht : t'.forget = t.forget) (ref : RegionRef) :
    t'.recursiveOf (t'.region ref) = t.recursiveOf (t.region ref) := by
  rw [← forget_recursiveOf, ← forget_region, ht, forget_region, forget_recursiveOf]

theorem Table.accessedOf_congr {t t' : Table} (ht : t'.forget = t.forget) (ref : RegionRef) :
    (t'.region ref).accessedOf = (t.region ref).accessedOf := by
  change (t'.region ref).forget.accessedOf = (t.region ref).forget.accessedOf
  rw [← forget_region, ht, forget_region]

namespace Query

variable {t : Table} {ref : RegionRef}

/-- The slots that a region accesses itself. -/
theorem yields_accessed (ht : t.Coherent) (ref : RegionRef) :
    (accessed ref).Yields t (t.region ref).accessedOf := by
  refine yields_region_bind ?_
  rw [Region.accessedOf]
  split
  · exact yields_throw ht
  · next hfinished =>
    have hok : (t.region ref).accessedOf = .ok (t.region ref).accessedSlots := if_neg hfinished
    refine yields_remembered ht (fun a ha => ?_) (yields_region_bind (yields_pure ht))
      fun a ha t' ht' hforget => ?_
    · rw [← hok, (ht ref).accessed a ha]
    · refine ⟨fun a' ha' => ?_, (ht' ref).recursive, (ht' ref).callees⟩
      cases ha'
      exact (Table.accessedOf_congr hforget ref).trans (hok.trans ha)

/-- The slots that a region and all it calls access. -/
theorem yields_recursive (ht : t.Coherent) (ref : RegionRef) :
    (recursive ref).Yields t (t.recursiveOf (t.region ref)) := by
  refine yields_remembered ht (fun a ha => (ht ref).recursive a ha) ?_ fun a ha t' ht' hforget => ?_
  · refine (yields_accessed ht ref).bind fun own _ t₁ ht₁ hforget₁ => ?_
    rw [← Table.forget_graphOf, ← Table.forget_region, ← hforget₁, Table.forget_region,
      Table.forget_graphOf]
    refine (yields_graph ht₁ ref).bind fun g _ t₂ ht₂ hforget₂ => ?_
    refine (yields_mapM ht₂ fun p t₃ ht₃ hforget₃ => ?_).bind fun _ _ _ ht₃ _ => yields_pure ht₃
    rw [← Table.accessedOf_congr ((hforget₃.trans hforget₂).trans hforget₁)]
    exact yields_accessed ht₃ (.sub p)
  · refine ⟨(ht' ref).accessed, fun a' ha' => ?_, (ht' ref).callees⟩
    cases ha'
    exact (Table.recursiveOf_congr hforget ref).trans ha

/-! ### Answers through the steps of a question -/

variable {α β : Type} {m : Method} {q : Query α} {k : α → Query β} {P : α → Prop} {Q : β → Prop}
  {a : α} {r : RegionRef}

/-- On every table that is built for a method, a question has an answer with a given property. -/
def Gives (m : Method) (q : Query α) (P : α → Prop) : Prop :=
  ∀ t : Table, t.FullyBuilt m → ∃ a, q.Yields t (.ok a) ∧ P a

theorem gives_pure (ha : P a) : (pure a : Query α).Gives m P :=
  fun _ ht => ⟨a, yields_pure ht.coherent, ha⟩

theorem Gives.weaken {P' : α → Prop} (hq : q.Gives m P) (hP : ∀ a, P a → P' a) :
    q.Gives m P' := by
  intro t ht
  obtain ⟨a, hyields, ha⟩ := hq t ht
  exact ⟨a, hyields, hP a ha⟩

theorem Gives.bind (hq : q.Gives m P) (hk : ∀ a, P a → (k a).Gives m Q) :
    (q >>= k).Gives m Q := by
  intro t ht
  obtain ⟨a, ⟨t', hqt, ht', hforget⟩, ha⟩ := hq t ht
  obtain ⟨b, ⟨t'', hkt, ht'', hforget'⟩, hb⟩ := hk a ha t' (ht.congr ht' hforget)
  refine ⟨b, ⟨t'', ?_, ht'', hforget'.trans hforget⟩, hb⟩
  have hbind : (q >>= k) t = ExceptT.bindCont k (.ok a) t' := by
    change (ExceptT.bindCont k (q t).1) (q t).2 = _
    rw [hqt]
  exact hbind.trans hkt

theorem gives_mapM {l : List α} (hk : ∀ a ∈ l, (k a).Gives m Q) :
    (l.mapM k).Gives m fun bs => ∀ b ∈ bs, Q b := by
  induction l with
  | nil => exact gives_pure fun b hb => absurd hb List.not_mem_nil
  | cons a l ih =>
    rw [List.mapM_cons]
    refine (hk a List.mem_cons_self).bind fun b hb => ?_
    refine (ih fun a' ha' => hk a' (List.mem_cons_of_mem a ha')).bind fun bs hbs => ?_
    exact gives_pure (List.forall_mem_cons.2 ⟨hb, hbs⟩)

theorem gives_mapM_map {γ : Type} {l : List α} {f : β → γ} {g : α → γ}
    (hk : ∀ a ∈ l, (k a).Gives m fun b => f b = g a) :
    (l.mapM k).Gives m fun bs => bs.map f = l.map g := by
  induction l with
  | nil => exact gives_pure rfl
  | cons a l ih =>
    rw [List.mapM_cons]
    refine (hk a List.mem_cons_self).bind fun b hb => ?_
    refine (ih fun a' ha' => hk a' (List.mem_cons_of_mem a ha')).bind fun bs hbs => ?_
    exact gives_pure (by rw [List.map_cons, List.map_cons, hb, hbs])

theorem gives_get : (get : Query Table).Gives m fun t => t.FullyBuilt m :=
  fun t ht => ⟨t, ⟨t, rfl, ht.coherent, rfl⟩, ht⟩

/-- A region by its name is that region of some table that is built. -/
theorem gives_region (r : RegionRef) :
    (region r).Gives m fun x => ∃ t : Table, t.FullyBuilt m ∧ t.region r = x :=
  fun t ht => ⟨t.region r, ⟨t, rfl, ht.coherent, rfl⟩, t, ht, rfl⟩

theorem gives_ofMisuse {x : Except Misuse α} (hx : x = .ok a) :
    (ofMisuse x).Gives m fun _ => True :=
  hx ▸ gives_pure trivial

end Query

/-! ### Questions about regions -/

namespace Method

/-- The positions of the calls of the subroutine at `p` that are places of a region. -/
def sites (m : Method) (r : RegionRef) (p : Nat) : List Nat :=
  (((m.callsOf p).filterMap m.body.handle?).filter (· ∈ m.membersOf r)).map Handle.position

/-- The edge between a region and the subroutine at `p`. -/
def edge (m : Method) (r : RegionRef) (p : Nat) : Diagram.Edge where
  caller := r
  callerLabel := (m.note r).label
  callee := .sub p
  calleeLabel := (m.note (.sub p)).label
  sites := m.sites r p

/-- The edges of the diagram of a method. -/
def edges (m : Method) : List Diagram.Edge :=
  m.regionRefs.flatMap fun r => (m.calleesFrom r).map (m.edge r)

end Method

namespace Table.FullyBuilt

variable {t : Table} {m : Method} {r : RegionRef} {p : Nat} {l : Handle}

theorem accessedOf_eq (ht : t.FullyBuilt m) (hr : m.IsRegion r) :
    (t.region r).accessedOf = .ok (t.region r).accessedSlots := by
  refine if_neg ?_
  cases r with
  | top =>
    have htop : (t.region .top).isTop = true :=
      congrArg Region.isTop (ht.forget_region_eq .top)
    rw [htop, Bool.not_true, Bool.and_false]
    exact Bool.false_ne_true
  | sub p =>
    obtain ⟨l, hl, rfl⟩ := hr
    obtain ⟨ret, s, hret, -⟩ := ht.exists_ret hl
    rw [hret, Option.isNone_some, Bool.false_and]
    exact Bool.false_ne_true
  | loose i => exact hr.elim

/-- The slots of a region are slots of instructions of the method. -/
theorem accesses_of_mem (ht : t.FullyBuilt m) (hr : m.IsRegion r) :
    ∀ s ∈ (t.region r).accessedSlots, m.Accesses s := by
  intro s hs
  rw [Region.accessedSlots, Region.mem_ascending_iff, ht.members_eq hr] at hs
  obtain ⟨h, hh, hslot⟩ := List.mem_flatMap.1 hs
  have hbody := Method.body_eq_of_mem_extent ((Method.mem_membersOf_iff hr).1 hh)
  exact ⟨h.instruction, Array.mem_of_getElem? (Handle.getElem?_position hbody), hslot⟩

/-- The slots of a region and of all it calls are those of its members and of the members of the
subroutines that it calls, directly or not. -/
theorem recursiveOf_eq (ht : t.FullyBuilt m) (hr : m.IsRegion r) : t.recursiveOf (t.region r) =
    .ok (Region.ascending ((t.region r).accessedSlots ++
      ((m.callGraph r).reachable.map fun p => (t.region (.sub p)).accessedSlots).flatten)) := by
  have hcalled := mapM_eq_ok (l := (m.callGraph r).reachable) fun p hp =>
    ht.accessedOf_eq (Method.isRegion_of_mem_reachable hr hp)
  rw [recursiveOf, ht.accessedOf_eq hr, ht.graphOf_eq hr]
  simp only [bind, Except.bind, hcalled]
  rfl

theorem exists_recursiveOf_eq (ht : t.FullyBuilt m) (hr : m.IsRegion r) :
    ∃ slots, t.recursiveOf (t.region r) = .ok slots ∧ ∀ s ∈ slots, m.Accesses s := by
  refine ⟨_, ht.recursiveOf_eq hr, fun s hs => ?_⟩
  rw [Region.mem_ascending_iff, List.mem_append] at hs
  rcases hs with hs | hs
  · exact ht.accesses_of_mem hr s hs
  · obtain ⟨slots, hslots, hs⟩ := List.mem_flatten.1 hs
    obtain ⟨p, hp, rfl⟩ := List.mem_map.1 hslots
    exact ht.accesses_of_mem (Method.isRegion_of_mem_reachable hr hp) s hs

theorem isTop_iff (ht : t.FullyBuilt m) (hr : m.IsRegion r) :
    (t.region r).isTop = true ↔ r = .top := by
  cases r with
  | top => exact iff_of_true (congrArg Region.isTop (ht.forget_region_eq .top)) rfl
  | sub p =>
    obtain ⟨l, hl, rfl⟩ := hr
    rw [ht.isTop_sub hl]
    exact iff_of_false Bool.false_ne_true nofun
  | loose i => exact hr.elim

theorem exists_leavingRet (ht : t.FullyBuilt m) (hr : m.IsRegion r)
    (htop : ¬(t.region r).isTop = true) : ∃ ret, (t.region r).leavingRet = .ok ret := by
  rw [ht.isTop_iff hr] at htop
  cases r with
  | top => exact absurd rfl htop
  | sub p =>
    obtain ⟨l, hl, rfl⟩ := hr
    obtain ⟨ret, s, -, hret, -⟩ := ht.exists_ret hl
    exact ⟨ret, hret⟩
  | loose i => exact hr.elim

theorem label_eq (ht : t.FullyBuilt m) (hr : m.IsRegion r) :
    (t.region r).label = (m.note r).label := by
  have hnote : (t.region r).forget.note = m.note r := by
    rw [ht.forget_region_eq, settledStage, note_region_stage hr]
  exact congrArg RegionNote.label hnote

/-- The calls that are attached to a subroutine and that a region has are found in order. -/
theorem callSites_eq {t' : Table} (ht : t.FullyBuilt m) (ht' : t'.FullyBuilt m)
    (hr : m.IsRegion r) (hp : m.IsRegion (.sub p)) :
    Query.callSites (t.region r) (t'.region (.sub p)) = .ok (m.sites r p) := by
  obtain ⟨l, hl, rfl⟩ := hp
  have hcontains : (t.region r).contains = fun h => decide (h ∈ m.membersOf r) := by
    funext h
    rw [Region.contains, ht.members_eq hr]
  rw [Query.callSites, ht'.entering_eq hl, hcontains]
  refine congrArg Except.ok ?_
  rw [Region.byPosition_of_pairwise ((m.pairwise_callersList l).filter _)]
  rfl

theorem exists_entering (htop : ¬(t.region r).isTop = true) :
    ∃ calls, (t.region r).entering = .ok calls :=
  ⟨_, if_neg htop⟩

end Table.FullyBuilt

namespace Query

variable {m : Method} {r : RegionRef}

theorem gives_callees (hr : m.IsRegion r) :
    (callees r).Gives m fun cs => ∀ p ∈ cs, m.IsRegion (.sub p) :=
  fun _ ht => ⟨_, ht.yields_callees hr, fun _ hp => Method.isRegion_of_mem_calleesFrom hr hp⟩

theorem gives_accessed (hr : m.IsRegion r) :
    (accessed r).Gives m fun slots => ∀ s ∈ slots, m.Accesses s := by
  intro t ht
  have h := yields_accessed ht.coherent r
  rw [ht.accessedOf_eq hr] at h
  exact ⟨_, h, ht.accesses_of_mem hr⟩

theorem gives_recursive (hr : m.IsRegion r) :
    (recursive r).Gives m fun slots => ∀ s ∈ slots, m.Accesses s := by
  intro t ht
  have h := yields_recursive ht.coherent r
  obtain ⟨slots, hslots, haccesses⟩ := ht.exists_recursiveOf_eq hr
  rw [hslots] at h
  exact ⟨slots, h, haccesses⟩

section Texts

variable (hw : ∀ s, m.Accesses s → Text.isWritable s = true)

include hw

theorem gives_slotList {slots : List Nat} (hslots : ∀ s ∈ slots, m.Accesses s) :
    (slotList slots).Gives m fun _ => True := by
  have hall : slots.all Text.isWritable = true :=
    List.all_eq_true.2 fun s hs => hw s (hslots s hs)
  rw [slotList, if_pos hall]
  exact gives_pure trivial

theorem gives_describe (hr : m.IsRegion r) : (describe r).Gives m fun _ => True := by
  refine (gives_region r).bind fun x hx => ?_
  dsimp only
  split
  · refine (gives_accessed hr).bind fun own hown => ?_
    refine (gives_slotList hw hown).bind fun _ _ => ?_
    refine (gives_recursive hr).bind fun all hall => ?_
    exact (gives_slotList hw hall).bind fun _ _ => gives_pure trivial
  · exact gives_pure trivial

theorem gives_summaryLine (hr : m.IsRegion r) : (summaryLine r).Gives m fun _ => True := by
  refine (gives_region r).bind ?_
  rintro _ ⟨t, ht, rfl⟩
  refine (gives_callees hr).bind fun cs hcs => ?_
  refine (gives_mapM (Q := fun _ => True) fun p _ =>
    (gives_region (.sub p)).bind fun _ _ => gives_pure trivial).bind fun labels _ => ?_
  dsimp only
  split
  · exact gives_pure trivial
  · next htop =>
    obtain ⟨calls, hcalls⟩ := Table.FullyBuilt.exists_entering htop
    obtain ⟨ret, hret⟩ := ht.exists_leavingRet hr htop
    refine (gives_ofMisuse hcalls).bind fun _ _ => (gives_ofMisuse hret).bind fun _ _ => ?_
    refine (gives_accessed hr).bind fun slots hslots => ?_
    exact (gives_slotList hw hslots).bind fun _ _ => gives_pure trivial

end Texts

theorem gives_node (hr : m.IsRegion r) :
    (node r).Gives m fun n => (n.region, n.label) = (r, (m.note r).label) := by
  refine (gives_region r).bind ?_
  rintro _ ⟨t, ht, rfl⟩
  rw [← ht.label_eq hr]
  dsimp only
  split
  · exact gives_pure rfl
  · next htop =>
    obtain ⟨ret, hret⟩ := ht.exists_leavingRet hr htop
    exact (gives_ofMisuse hret).bind fun _ _ => gives_pure rfl

theorem gives_edges (hr : m.IsRegion r) :
    (edges r).Gives m fun es => es = (m.calleesFrom r).map (m.edge r) := by
  refine (gives_region r).bind ?_
  rintro _ ⟨t, ht, rfl⟩
  have hcallees : (callees r).Gives m (· = m.calleesFrom r) :=
    fun _ ht => ⟨_, ht.yields_callees hr, rfl⟩
  refine hcallees.bind ?_
  rintro _ rfl
  refine (gives_mapM_map (f := id) (g := m.edge r) fun p hp => ?_).weaken fun es hes => ?_
  · have hregion := Method.isRegion_of_mem_calleesFrom hr hp
    refine (gives_region (.sub p)).bind ?_
    rintro _ ⟨t', ht', rfl⟩
    rw [ht.callSites_eq ht' hr hregion, ht.label_eq hr, ht'.label_eq hregion]
    exact gives_pure rfl
  · rwa [List.map_id] at hes

/-- The diagram of a table has a node for each region, and the edges of the method. -/
theorem gives_diagram : diagram.Gives m fun d =>
    d.nodes.map (fun n => (n.region, n.label)) = m.regionRefs.map (fun r => (r, (m.note r).label)) ∧
      d.edges = m.edges := by
  refine gives_get.bind fun t ht => ?_
  have hregion (r : RegionRef) (hr : r ∈ t.regions) : m.IsRegion r := ht.mem_regions_iff.1 hr
  refine (gives_mapM_map fun r hr => gives_node (hregion r hr)).bind fun nodes hnodes => ?_
  refine (gives_mapM_map (f := id) fun r hr => gives_edges (hregion r hr)).bind
    fun edges hedges => gives_pure ⟨?_, ?_⟩
  · rw [hnodes, ht.regions_eq]
  · rw [List.map_id] at hedges
    rw [hedges, ht.regions_eq, Method.edges, List.flatMap]

theorem gives_dot (title : Option String) : (dot title).Gives m fun _ => True :=
  gives_diagram.bind fun _ _ => gives_pure trivial

end Query

/-! ### Nesting depth -/

theorem Table.FullyBuilt.members_ne_nil {t : Table} {m : Method} {r : RegionRef}
    (ht : t.FullyBuilt m) (hr : m.IsRegion r) : (t.region r).members ≠ [] := by
  rw [ht.members_eq hr]
  cases r with
  | top => exact List.ne_nil_of_mem ((Method.mem_membersOf_iff hr).2 m.first_mem_extent)
  | sub p =>
    obtain ⟨l, hl, rfl⟩ := hr
    have hmem := Method.leader_mem_extent hl.body_eq
    exact List.ne_nil_of_mem ((Method.mem_membersOf_iff hl.isRegion).2 hmem)
  | loose i => exact hr.elim

theorem Table.FullyBuilt.depthOf_eq {t : Table} {m : Method} {r : RegionRef}
    (ht : t.FullyBuilt m) (hr : m.IsRegion r) :
    t.depthOf r = (m.callGraph r).depth?.elim (.error .endless) .ok := by
  rw [depthOf, if_neg (by simpa using ht.members_ne_nil hr), ht.graphOf_eq hr]
  rfl

/-- Where slots on chains of calls are distinct, the top level reaches no circle. -/
theorem Method.SlotsDistinct.not_circular {m : Method} (hslots : m.SlotsDistinct) :
    ¬(m.callGraph .top).Circular := by
  have hwf := Method.wellFormed_callGraph m.isRegion_top
  rw [← CallGraph.depth?_eq_none_iff_circular hwf, CallGraph.depth?_eq_none_iff hwf]
  intro hlong
  obtain ⟨ps, hps, hlen⟩ := hlong (m.leaderHandles.length + 1)
  obtain ⟨path, hpath, rfl⟩ := Method.chain_callGraph_iff.1 hps
  have hle := hslots.length_le hpath
  rw [List.length_map] at hlen
  omega

namespace Query

variable {m : Method} {r : RegionRef}

theorem yields_depth_of_circular {t : Table} (ht : t.FullyBuilt m) (hr : m.IsRegion r)
    (hcircle : (m.callGraph r).Circular) : (depth r).Yields t (.error .endless) := by
  have h := yields_depth ht.coherent r
  rw [← CallGraph.depth?_eq_none_iff_circular (Method.wellFormed_callGraph hr)] at hcircle
  rwa [ht.depthOf_eq hr, hcircle] at h

theorem gives_depth (hr : m.IsRegion r) (hcircle : ¬(m.callGraph r).Circular) :
    (depth r).Gives m fun _ => True := by
  intro t ht
  have h := yields_depth ht.coherent r
  rw [← CallGraph.depth?_eq_none_iff_circular (Method.wellFormed_callGraph hr)] at hcircle
  obtain ⟨d, hd⟩ := Option.ne_none_iff_exists'.1 hcircle
  rw [ht.depthOf_eq hr, hd] at h
  exact ⟨d, h, trivial⟩

theorem gives_statistics (hslots : m.SlotsDistinct) : statistics.Gives m fun _ => True := by
  refine gives_get.bind fun t _ => ?_
  exact (gives_depth m.isRegion_top hslots.not_circular).bind fun _ _ => gives_pure trivial

theorem gives_summary (hw : ∀ s, m.Accesses s → Text.isWritable s = true)
    (hslots : m.SlotsDistinct) : summary.Gives m fun _ => True := by
  refine (gives_statistics hslots).bind fun _ _ => gives_get.bind fun t ht => ?_
  have hregion (r : RegionRef) (hr : r ∈ t.regions) : m.IsRegion r := ht.mem_regions_iff.1 hr
  refine (gives_mapM fun r hr => gives_summaryLine hw (hregion r hr)).bind fun _ _ => ?_
  exact gives_pure trivial

end Query

/-! ### One question after another -/

/-- What can be asked about a table and its regions, other than plain reads. -/
inductive Question where
  /-- The slots that a region accesses itself. -/
  | accessed (r : RegionRef)
  /-- The slots that a region and all it calls access. -/
  | recursive (r : RegionRef)
  /-- The subroutines that a region calls. -/
  | callees (r : RegionRef)
  /-- A region in several lines. -/
  | describe (r : RegionRef)
  /-- The length of the longest chain of calls from a region. -/
  | depth (r : RegionRef)
  /-- The figures of the table. -/
  | statistics
  /-- The diagram of calls in the DOT language. -/
  | dot (title : Option String)
  /-- Figures and regions, line by line. -/
  | summary
deriving DecidableEq, Repr

/-- An answer to a question. -/
inductive Answer where
  /-- Slots or leaders. -/
  | numbers (ns : List Nat)
  /-- A depth. -/
  | number (n : Nat)
  /-- A text. -/
  | text (s : String)
  /-- Figures. -/
  | figures (s : Statistics)
deriving DecidableEq, Repr

namespace Question

/-- Asks a question. -/
def ask : Question → Query Answer
  | accessed r => return .numbers (← Query.accessed r)
  | recursive r => return .numbers (← Query.recursive r)
  | callees r => return .numbers (← Query.callees r)
  | describe r => return .text (← Query.describe r)
  | depth r => return .number (← Query.depth r)
  | statistics => return .figures (← Query.statistics)
  | dot title => return .text (← Query.dot title)
  | summary => return .text (← Query.summary)

/-- The region that a question is about, if it is about one. -/
def region? : Question → Option RegionRef
  | accessed r | recursive r | callees r | describe r | depth r => some r
  | statistics | dot _ | summary => none

/-- A question is about the table or about one of its regions. -/
def IsAbout (q : Question) (t : Table) : Prop :=
  ∀ r ∈ q.region?, r ∈ t.regions

variable {t : Table} {m : Method}

/-- On the table of a method whose slots can be written, every question has an answer, but for the
depth of a region that reaches a circle of calls. -/
theorem yields (ht : t.FullyBuilt m) (hslots : m.SlotsDistinct)
    (hw : ∀ s, m.Accesses s → Text.isWritable s = true) (q : Question) (hq : q.IsAbout t) :
    (∃ a, q.ask.Yields t (.ok a)) ∧ (∀ r, q = .depth r → ¬t.ReachesCircle r) ∨
      q.ask.Yields t (.error .endless) ∧ ∃ r, q = .depth r ∧ t.ReachesCircle r := by
  have hregion (r : RegionRef) (hr : q.region? = some r) : m.IsRegion r :=
    ht.mem_regions_iff.1 (hq r hr)
  have hanswer {α : Type} {k : Query α} {P : α → Prop} (f : α → Answer) (hk : k.Gives m P) :
      ∃ a, (k >>= fun a => pure (f a)).Yields t (.ok a) := by
    obtain ⟨a, hyields, -⟩ :=
      (hk.bind fun a _ => Query.gives_pure (a := f a) (P := fun _ => True) trivial) t ht
    exact ⟨a, hyields⟩
  cases q with
  | accessed r => exact .inl ⟨hanswer _ (Query.gives_accessed (hregion r rfl)), nofun⟩
  | recursive r => exact .inl ⟨hanswer _ (Query.gives_recursive (hregion r rfl)), nofun⟩
  | callees r => exact .inl ⟨hanswer _ (Query.gives_callees (hregion r rfl)), nofun⟩
  | describe r => exact .inl ⟨hanswer _ (Query.gives_describe hw (hregion r rfl)), nofun⟩
  | statistics => exact .inl ⟨hanswer _ (Query.gives_statistics hslots), nofun⟩
  | dot title => exact .inl ⟨hanswer _ (Query.gives_dot title), nofun⟩
  | summary => exact .inl ⟨hanswer _ (Query.gives_summary hw hslots), nofun⟩
  | depth r =>
    have hr : m.IsRegion r := hregion r rfl
    have hcircle := ht.reachesCircle_iff_circular hr
    by_cases h : (m.callGraph r).Circular
    · refine .inr ⟨?_, r, rfl, hcircle.2 h⟩
      exact (Query.yields_depth_of_circular ht hr h).bind (w := fun n => .ok (.number n))
        fun _ _ _ ht' _ => Query.yields_pure ht'
    · refine .inl ⟨hanswer _ (Query.gives_depth hr h), ?_⟩
      rintro _ ⟨⟩
      exact fun hr => h (hcircle.1 hr)

end Question

/-- A table after a series of questions. -/
def Table.after (t : Table) (qs : List Question) : Table :=
  qs.foldl (fun t q => (q.ask t).2) t

/-- A series of questions changes a table in what it remembers only. -/
theorem Table.FullyBuilt.after {t : Table} {m : Method} (ht : t.FullyBuilt m)
    (hslots : m.SlotsDistinct) (hw : ∀ s, m.Accesses s → Text.isWritable s = true)
    {qs : List Question} (hqs : ∀ q ∈ qs, q.IsAbout t) :
    (t.after qs).FullyBuilt m ∧ (t.after qs).forget = t.forget := by
  induction qs generalizing t with
  | nil => exact ⟨ht, rfl⟩
  | cons q qs ih =>
    obtain ⟨hq, hqs⟩ := List.forall_mem_cons.1 hqs
    obtain ⟨v, t', hask, hcoherent, hforget⟩ : ∃ v, q.ask.Yields t v := by
      rcases q.yields ht hslots hw hq with ⟨⟨a, h⟩, -⟩ | ⟨h, -⟩
      · exact ⟨_, h⟩
      · exact ⟨_, h⟩
    have ht' := ht.congr hcoherent hforget
    have hafter : t.after (q :: qs) = t'.after qs := by
      rw [Table.after, List.foldl_cons, hask]
      rfl
    have hregions : t'.regions = t.regions := by rw [ht'.regions_eq, ht.regions_eq]
    obtain ⟨hbuilt, hsame⟩ := ih ht' fun q' hq' r hr => hregions ▸ hqs q' hq' r hr
    rw [hafter]
    exact ⟨hbuilt, hsame.trans hforget⟩

end BytecodeRegions
