import BytecodeRegions.Proofs.Structure
import Mathlib.Data.List.Nodup

/-!
# Evidence against a method

Each rule of the structural constraint has its evidence: which places, regions and handler a
violation names when the rule is the first one that is broken. Where several places would do, the
evidence is the first of them, by the order of regions, handlers and positions, so a method has
one piece of evidence at most for each rule.

## Main definitions

* `RegionRef.Before`: the order of regions.
* `Method.LowestLeader`: the first leader with a property.
* `Method.EntryEvidence`, `Method.SharingEvidence`, `Method.ReturnEvidence`,
  `Method.ProtectionEvidence`, `Method.ClashEvidence`: what a violation shows, rule by rule.
* `Method.Refuted`: a violation shows the first rule that is broken.
-/

namespace BytecodeRegions

/-- The top level comes before all subroutines, and these are in the order of their leaders. -/
inductive RegionRef.Before : RegionRef → RegionRef → Prop
  | top_sub (p : Nat) : Before .top (.sub p)
  | sub_sub {p q : Nat} (hpq : p < q) : Before (.sub p) (.sub q)

/-- Numbers are the positions of some places, in ascending order. -/
def ListsPositions (ps : List Nat) (S : Set Handle) : Prop :=
  ps.Pairwise (· < ·) ∧ ∀ p, p ∈ ps ↔ ∃ h ∈ S, h.position = p

namespace Method

/-- A region as it is named in evidence: by its label and the slot that its leader stores to. -/
def note (m : Method) : RegionRef → RegionNote
  | .sub p =>
    ⟨"sub@" ++ Text.decimalNat p,
      ((m.body.handle? p).bind fun l => l.instruction.slot).map Int.ofNat⟩
  | _ => ⟨"top-level", none⟩

/-- The calls of the subroutine of a leader. -/
def callersOf (m : Method) (l : Handle) : Set Handle :=
  {j | j.body = m.body ∧ j.instruction.isJsr = true ∧ j.target? = some l}

/-- The places of subroutines that a handler covers. -/
def protectedBy (m : Method) (x : Handler) : Set Handle :=
  {h | h ∈ x.covered ∧ ∃ l, m.IsLeader l ∧ h ∈ m.extent (.sub l.position)}

/-- No handler covers a place of a subroutine. -/
def HandlersClear (m : Method) : Prop :=
  ∀ x ∈ m.handlers, m.protectedBy x = ∅

/-- A chain of calls that takes a slot twice, the last call being the first to do so. -/
def ClashChain (m : Method) : List Handle → Prop
  | [] => False
  | l :: path => m.CallChain (l :: path) ∧ (path.map fun k => k.instruction.slot).Nodup ∧
      l.instruction.slot ∈ path.map fun k => k.instruction.slot

/-- The first leader with a property. -/
structure LowestLeader (m : Method) (P : Handle → Prop) (l : Handle) : Prop where
  isLeader : m.IsLeader l
  holds : P l
  lowest : ∀ l', m.IsLeader l' → P l' → l.position ≤ l'.position

/-- The first leader at which no subroutine can start, with all its calls. -/
structure EntryEvidence (m : Method) (v : Violation) (l : Handle) : Prop where
  leader : m.LowestLeader (fun l => ¬m.ValidEntry l) l
  rule : v.rule = .invalidEntry
  instructions : ∃ calls, v.instructions = l.position :: calls ∧
    ListsPositions calls (m.callersOf l)
  regions : v.regions = []

/-- The first region `s` that meets an earlier one, the first place `h` that it shares, and the
earlier region `r` that has it. -/
structure SharingEvidence (m : Method) (v : Violation) (r s : RegionRef) (h : Handle) : Prop where
  earlier : m.IsRegion r
  later : m.IsRegion s
  before : r.Before s
  shared : h ∈ m.extent r ∩ m.extent s
  first_region : ∀ r' s', m.IsRegion r' → m.IsRegion s' → r'.Before s' → s'.Before s →
    m.extent r' ∩ m.extent s' = ∅
  first_place : ∀ r', m.IsRegion r' → r'.Before s → ∀ k ∈ m.extent r' ∩ m.extent s,
    h.position ≤ k.position
  only_region : ∀ r', m.IsRegion r' → r'.Before s → h ∈ m.extent r' → r' = r
  rule : v.rule = .sharedInstruction
  instructions : v.instructions = [h.position]
  regions : v.regions = [m.note r, m.note s]

/-- How the subroutine of a leader does not return as it should: it does not return at all, or at
several places, or by another slot. -/
structure ReturnFault (m : Method) (v : Violation) (l : Handle) : Prop where
  rets : v.rule = .missingRet ∧ m.retsOf l = ∅ ∧ v.instructions = [l.position] ∨
    v.rule = .multipleRet ∧ 2 ≤ v.instructions.length ∧
      ListsPositions v.instructions (m.retsOf l) ∨
    v.rule = .retSlotMismatch ∧ ∃ ret : Handle, m.retsOf l = {ret} ∧
      ret.instruction.slot ≠ l.instruction.slot ∧ v.instructions = [ret.position, l.position]
  regions : v.regions = [m.note (.sub l.position)]

/-- The first leader whose subroutine does not return as it should, and how it does not. -/
structure ReturnEvidence (m : Method) (v : Violation) (l : Handle) : Prop where
  leader : m.LowestLeader (fun l => ¬m.ReturnsOnce l) l
  fault : m.ReturnFault v l

/-- The first handler `x` that covers a place of a subroutine, the first such place `h`, and the
leader `l` of its subroutine. -/
structure ProtectionEvidence (m : Method) (v : Violation) (x : Handler) (h l : Handle) : Prop where
  isLeader : m.IsLeader l
  mem_extent : h ∈ m.extent (.sub l.position)
  mem_covered : h ∈ x.covered
  first_handler : ∃ earlier later, m.handlers = earlier ++ x :: later ∧
    ∀ y ∈ earlier, m.protectedBy y = ∅
  first_place : ∀ k ∈ m.protectedBy x, h.position ≤ k.position
  rule : v.rule = .protectedSubroutine
  instructions : v.instructions = [h.position]
  regions : v.regions = [m.note (.sub l.position)]
  handler : v.handler = some x

/-- The first chain of calls that takes a slot twice, in the lexicographic order of leaders from the
top level on: `l` is called at its end, and `holder` on the chain has the slot already. The evidence
names their `ret` instructions and the callee, the holder and the caller, nothing twice. -/
structure ClashEvidence (m : Method) (v : Violation) (l holder : Handle) (path : List Handle) :
    Prop where
  clash : m.ClashChain (l :: path)
  holder_mem : holder ∈ path
  holder_slot : holder.instruction.slot = l.instruction.slot
  first_chain : ∀ chain, m.ClashChain chain → chain ≠ l :: path →
    List.Lex (· < ·) ((l :: path).reverse.map Handle.position) (chain.reverse.map Handle.position)
  rule : v.rule = .recursiveCall
  instructions : ∃ ret ∈ m.retsOf l, ∃ ret' ∈ m.retsOf holder,
    v.instructions = [ret.position, ret'.position].eraseDups
  regions : v.regions =
    [.sub l.position, .sub holder.position, .ofChain path].eraseDups.map m.note

/-- A violation with the evidence for the first rule that a method breaks. -/
inductive Refuted (m : Method) (v : Violation) : Prop
  | entry {l : Handle} (he : m.EntryEvidence v l)
  | sharing {r s : RegionRef} {h : Handle} (hentries : m.EntriesValid)
      (he : m.SharingEvidence v r s h)
  | returning {l : Handle} (hentries : m.EntriesValid) (hregions : m.RegionsDisjoint)
      (he : m.ReturnEvidence v l)
  | protection {x : Handler} {h l : Handle} (hentries : m.EntriesValid)
      (hregions : m.RegionsDisjoint) (hreturns : m.SubroutinesReturn)
      (he : m.ProtectionEvidence v x h l)
  | clash {l holder : Handle} {path : List Handle} (hentries : m.EntriesValid)
      (hregions : m.RegionsDisjoint) (hreturns : m.SubroutinesReturn)
      (hhandlers : m.HandlersClear) (he : m.ClashEvidence v l holder path)

/-! ### Evidence refutes -/

section Refutation

variable {m : Method} {v : Violation} {r s : RegionRef} {x : Handler} {h l holder : Handle}
  {path : List Handle}

theorem EntryEvidence.not_entriesValid (he : m.EntryEvidence v l) : ¬m.EntriesValid :=
  fun hentries => he.leader.holds (hentries l he.leader.isLeader)

theorem SharingEvidence.not_regionsDisjoint (he : m.SharingEvidence v r s h) :
    ¬m.RegionsDisjoint := by
  intro hregions
  have hne : r ≠ s := by
    rintro rfl
    cases he.before with
    | sub_sub hlt => exact Nat.lt_irrefl _ hlt
  exact Set.notMem_empty h (hregions r s he.earlier he.later hne ▸ he.shared)

theorem ReturnEvidence.not_subroutinesReturn (he : m.ReturnEvidence v l) : ¬m.SubroutinesReturn :=
  fun hreturns => he.leader.holds (hreturns l he.leader.isLeader)

theorem ProtectionEvidence.not_handlersClear (he : m.ProtectionEvidence v x h l) :
    ¬m.HandlersClear := by
  intro hhandlers
  obtain ⟨earlier, later, heq, -⟩ := he.first_handler
  have hx : x ∈ m.handlers := heq ▸ List.mem_append_right _ List.mem_cons_self
  have hempty := hhandlers x hx
  exact Set.notMem_empty h (hempty ▸ ⟨he.mem_covered, l, he.isLeader, he.mem_extent⟩)

theorem ClashEvidence.not_slotsDistinct (he : m.ClashEvidence v l holder path) :
    ¬m.SlotsDistinct :=
  fun hslots => (List.nodup_cons.1 (hslots _ he.clash.1)).1 he.clash.2.2

end Refutation

end Method

end BytecodeRegions
