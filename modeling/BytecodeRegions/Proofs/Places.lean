import BytecodeRegions.Flow
import BytecodeRegions.Method
import BytecodeRegions.Reach

/-!
# Places of a body

A handle is determined by its body and its position, so what is said about positions of one body
and what is said about its handles are two readings of the same facts. This module moves between
the two: look-up by position, successors, reachability, targets of jumps, and the places that a
handler covers.

## Main results

* `Body.mem_filterMap_handle?_iff`: the handles of a list of positions.
* `Handle.reaches_iff`: reachability between handles is reachability between positions of a body.
* `Handle.exists_target?_of_isJsr`: every call has a place to go.
* `Handle.mem_walkTo_iff`: walking from one place to a later one passes exactly those in between.
-/

namespace BytecodeRegions

namespace Handle

theorem eq_of_position {h k : Handle} (hbody : h.body = k.body)
    (hposition : h.position = k.position) : h = k := by
  cases h
  cases k
  simp_all only

theorem position_lt {b : Body} {h : Handle} (hb : h.body = b) : h.position < b.size :=
  hb ▸ h.inside

theorem getElem?_position {b : Body} {h : Handle} (hb : h.body = b) :
    b.code[h.position]? = some h.instruction := by
  subst hb
  exact Array.getElem?_eq_getElem h.inside

end Handle

namespace Body

variable {b : Body} {p : Nat} {ps : List Nat} {h : Handle}

theorem handle?_of_lt (hp : p < b.size) : b.handle? p = some ⟨b, p, hp⟩ :=
  dif_pos hp

theorem handle?_eq_some_iff : b.handle? p = some h ↔ h.body = b ∧ h.position = p := by
  constructor
  · intro hh
    simp only [handle?] at hh
    split at hh
    · cases hh
      exact ⟨rfl, rfl⟩
    · cases hh
  · rintro ⟨rfl, rfl⟩
    exact handle?_of_lt h.inside

/-- Only a position of the body has successors. -/
theorem lt_of_mem_successors {q : Nat} (hq : q ∈ b.successors p) : p < b.size := by
  rcases Nat.lt_or_ge p b.size with hp | hp
  · exact hp
  · rw [successors, Array.getElem?_eq_none hp] at hq
    cases hq

@[simp] theorem mem_positions_iff : p ∈ b.positions ↔ p < b.size :=
  List.mem_range

theorem owns_iff : b.owns h = true ↔ h.body = b :=
  decide_eq_true_iff

/-- The handles of a list of positions are those that have one of the positions. -/
theorem mem_filterMap_handle?_iff : h ∈ ps.filterMap b.handle? ↔ h.body = b ∧ h.position ∈ ps := by
  simp only [List.mem_filterMap, handle?_eq_some_iff]
  constructor
  · rintro ⟨p, hp, hb, rfl⟩
    exact ⟨hb, hp⟩
  · rintro ⟨hb, hp⟩
    exact ⟨h.position, hp, hb, rfl⟩

/-- Looking up positions of the body and reading them off again changes nothing. -/
theorem map_position_filterMap_handle? (hps : ∀ p ∈ ps, p < b.size) :
    (ps.filterMap b.handle?).map Handle.position = ps := by
  induction ps with
  | nil => rfl
  | cons p ps ih =>
    have hp : p < b.size := hps p List.mem_cons_self
    rw [List.filterMap_cons_some (handle?_of_lt hp), List.map_cons,
      ih fun q hq => hps q (List.mem_cons_of_mem p hq)]

theorem nodup_filterMap_handle? (hps : ∀ p ∈ ps, p < b.size) (hnodup : ps.Nodup) :
    (ps.filterMap b.handle?).Nodup := by
  rw [← map_position_filterMap_handle? hps, List.Nodup, List.pairwise_map] at hnodup
  exact hnodup.imp fun hne heq => hne (congrArg Handle.position heq)

end Body

namespace Handle

variable {h k l : Handle}

/-! ### Successors -/

theorem mem_successors_iff :
    k ∈ h.successors ↔ k.body = h.body ∧ k.position ∈ h.body.successors h.position :=
  Body.mem_filterMap_handle?_iff

theorem successors_eq (h : Handle) :
    h.body.successors h.position = h.body.successorsOf h.position h.instruction := by
  rw [Body.successors, getElem?_position rfl, Option.elim_some]

theorem next?_eq_some_iff : h.next? = some k ↔ k.body = h.body ∧ k.position = h.position + 1 :=
  Body.handle?_eq_some_iff

private theorem mem_following_iff {b : Body} {p q : Nat} :
    q ∈ b.following p ↔ q = p + 1 ∧ p + 1 < b.size := by
  simp only [Body.following]
  split <;> simp_all

/-- A call goes on at the place after it, if there is one. -/
theorem mem_successors_of_isJsr (hj : h.instruction.isJsr = true) :
    k ∈ h.successors ↔ h.next? = some k := by
  have hkind : h.instruction.kind = .jsr := eq_of_beq hj
  rw [mem_successors_iff, next?_eq_some_iff, successors_eq, Body.successorsOf, hkind,
    mem_following_iff]
  refine and_congr_right fun hb => and_iff_left_of_imp fun hk => ?_
  exact hk ▸ position_lt hb

/-- Nothing follows a `ret` inside its region. -/
theorem successors_of_isRet (hr : h.instruction.isRet = true) : h.successors = [] := by
  have hkind : h.instruction.kind = .ret := eq_of_beq hr
  rw [successors, successors_eq, Body.successorsOf, hkind, List.filterMap_nil]

/-- Reachability between handles is reachability between positions of their body. -/
theorem reaches_iff : Reaches Handle.successors h k ↔
    k.body = h.body ∧ Reaches h.body.successors h.position k.position := by
  constructor
  · intro hk
    induction hk with
    | refl => exact ⟨rfl, .refl _⟩
    | @tail _ j _ hmem ih =>
      obtain ⟨hb, hp⟩ := mem_successors_iff.1 hmem
      rw [ih.1] at hb hp
      exact ⟨hb, .tail ih.2 hp⟩
  · rintro ⟨hb, hr⟩
    have key : ∀ {p q : Nat}, Reaches h.body.successors p q → p = h.position →
        ∀ j : Handle, j.body = h.body → j.position = q → Reaches Handle.successors h j := by
      intro p q hpq hp
      induction hpq with
      | refl =>
        intro j hj hq
        obtain rfl : j = h := eq_of_position hj (hq.trans hp)
        exact .refl j
      | @tail i q hpi hiq ih =>
        intro j hj hq
        have hi : i < h.body.size := Body.lt_of_mem_successors hiq
        refine .tail (ih ⟨h.body, i, hi⟩ rfl rfl) (mem_successors_iff.2 ⟨hj, ?_⟩)
        exact hq ▸ hiq
    exact key hr rfl k hb rfl

/-! ### Targets -/

theorem target?_eq_some_iff :
    h.target? = some l ↔ l.body = h.body ∧ h.instruction.target? = some l.position := by
  simp only [target?, Option.bind_eq_some_iff, Body.handle?_eq_some_iff]
  constructor
  · rintro ⟨p, hp, hb, rfl⟩
    exact ⟨hb, hp⟩
  · rintro ⟨hb, hp⟩
    exact ⟨l.position, hp, hb, rfl⟩

/-- Every call has a place of its own body to go to. -/
theorem exists_target?_of_isJsr (hj : h.instruction.isJsr = true) : ∃ l, h.target? = some l := by
  have hmem : h.instruction ∈ h.body.code := Array.mem_of_getElem? (getElem?_position rfl)
  have hop : h.instruction.opcode.hasTarget = true := by
    have hkind : h.instruction.opcode.kind = .jsr := eq_of_beq hj
    rw [Opcode.hasTarget, hkind]
    rfl
  obtain ⟨t, ht, p, hp, rfl⟩ := (h.body.jumps _ hmem hop).1
  refine ⟨⟨h.body, p, hp⟩, target?_eq_some_iff.2 ⟨rfl, ?_⟩⟩
  rw [Instruction.target?, ht]
  rfl

/-! ### Walking along a body -/

/-- A walk stays in its body and does not go back. -/
theorem le_of_mem_walkTo {last : Handle} (hk : k ∈ h.walkTo last) :
    k.body = h.body ∧ h.position ≤ k.position := by
  fun_induction walkTo h last with
  | case1 h ih =>
    rw [List.mem_cons] at hk
    rcases hk with rfl | hk
    · exact ⟨rfl, Nat.le_refl _⟩
    · split at hk
      · cases hk
      · next hne =>
        split at hk
        · cases hk
        · next j hj =>
          obtain ⟨hjb, hjp⟩ := next?_eq_some_iff.1 hj
          obtain ⟨hkb, hkp⟩ := ih j hj hk
          exact ⟨hkb.trans hjb, by omega⟩

/-- The places of a walk are in the order of their positions. -/
theorem pairwise_walkTo (h last : Handle) :
    (h.walkTo last).Pairwise fun a b => a.position < b.position := by
  fun_induction walkTo h last with
  | case1 h ih =>
    split
    · exact List.pairwise_singleton _ _
    · next hne =>
      split
      · exact List.pairwise_singleton _ _
      · next j hj =>
        refine List.pairwise_cons.2 ⟨fun k hk => ?_, ih j hj⟩
        obtain ⟨-, hjp⟩ := next?_eq_some_iff.1 hj
        have hjk := (le_of_mem_walkTo hk).2
        omega

/-- A walk to a later place of the same body passes exactly the places in between. -/
theorem mem_walkTo_iff {last : Handle} (hb : last.body = h.body)
    (hle : h.position ≤ last.position) : k ∈ h.walkTo last ↔
      k.body = h.body ∧ h.position ≤ k.position ∧ k.position ≤ last.position := by
  fun_induction walkTo h last with
  | case1 h ih =>
    rw [List.mem_cons]
    split
    · next heq =>
      subst heq
      simp only [List.not_mem_nil, or_false]
      refine ⟨fun hk => hk ▸ ⟨rfl, Nat.le_refl _, Nat.le_refl _⟩, ?_⟩
      rintro ⟨hkb, hhk, hkh⟩
      exact eq_of_position hkb (Nat.le_antisymm hkh hhk)
    · next hne =>
      have hlt : h.position < last.position :=
        Nat.lt_of_le_of_ne hle fun hp => hne (eq_of_position hb.symm hp)
      have hsize : h.position + 1 < h.body.size := Nat.lt_of_le_of_lt hlt (position_lt hb)
      have hj : h.next? = some ⟨h.body, h.position + 1, hsize⟩ := Body.handle?_of_lt hsize
      split
      · next hnone => rw [hj] at hnone; cases hnone
      · next j hj' =>
        obtain rfl : j = ⟨h.body, h.position + 1, hsize⟩ :=
          Option.some.inj (hj'.symm.trans hj)
        rw [ih _ hj hb hlt]
        constructor
        · rintro (rfl | ⟨hkb, hhk, hkl⟩)
          · exact ⟨rfl, Nat.le_refl _, hle⟩
          · exact ⟨hkb, Nat.le_of_succ_le hhk, hkl⟩
        · rintro ⟨hkb, hhk, hkl⟩
          rcases Nat.eq_or_lt_of_le hhk with heq | hlt'
          · exact .inl (eq_of_position hkb heq.symm)
          · exact .inr ⟨hkb, hlt', hkl⟩

end Handle

end BytecodeRegions
