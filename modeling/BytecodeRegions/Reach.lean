/-!
# Reachability in a finite graph

The points that can be reached from given roots by any number of steps, inside a finite list of
points. The search keeps the points that are not reached yet: each step either takes a point
out of that list or drops one from the queue, so it ends on every graph, cyclic or not.

## Main definitions

* `Reaches next`: the relation "by any number of steps".
* `reach next points roots`: those of the given points that are found from the roots.

## Main results

* `mem_reach_iff`: where steps do not leave the points, the search finds exactly what is reached
  from a root.
-/

namespace BytecodeRegions

variable {α : Type}

/-- Getting from one point to another by any number of steps. -/
inductive Reaches (next : α → List α) : α → α → Prop where
  /-- By no step at all. -/
  | refl (a : α) : Reaches next a a
  /-- By a step after others. -/
  | tail {a b c : α} (hab : Reaches next a b) (hbc : c ∈ next b) : Reaches next a c

namespace Reaches

variable {next : α → List α} {a b c : α}

/-- One step. -/
theorem single (h : b ∈ next a) : Reaches next a b :=
  .tail (.refl a) h

/-- Steps can be put one after another. -/
theorem trans (hab : Reaches next a b) (hbc : Reaches next b c) : Reaches next a c := by
  induction hbc with
  | refl => exact hab
  | tail _ h ih => exact .tail ih h

/-- A step can be put in front. -/
theorem head (hab : b ∈ next a) (hbc : Reaches next b c) : Reaches next a c :=
  (single hab).trans hbc

/-- Whatever is reached is the start itself or reached from the end of a first step. -/
theorem cases_head (hac : Reaches next a c) : a = c ∨ ∃ b ∈ next a, Reaches next b c := by
  induction hac with
  | refl => exact .inl rfl
  | tail _ h ih =>
    rcases ih with rfl | ⟨b, hb, hbc⟩
    · exact .inr ⟨_, h, .refl _⟩
    · exact .inr ⟨b, hb, .tail hbc h⟩

/-- A set that steps do not leave is not left by any number of them. -/
theorem closed {P : α → Prop} (hP : ∀ a b, P a → b ∈ next a → P b) (h : Reaches next a b)
    (ha : P a) : P b := by
  induction h with
  | refl => exact ha
  | tail _ h ih => exact hP _ _ ih h

end Reaches

variable [DecidableEq α]

/-- The search: `rest` are the points not reached yet, `queue` those to look at, and `seen` those
reached, most recent first. -/
def reachLoop (next : α → List α) : (rest queue seen : List α) → List α
  | _, [], seen => seen
  | rest, a :: queue, seen =>
    if a ∈ rest then reachLoop next (rest.erase a) (queue ++ next a) (a :: seen)
    else reachLoop next rest queue seen
termination_by rest queue => (rest.length, queue.length)
decreasing_by
  · have := List.length_erase_of_mem ‹a ∈ rest›
    have := List.length_pos_of_mem ‹a ∈ rest›
    exact Prod.Lex.left _ _ (by omega)
  · exact Prod.Lex.right _ (by simp)

/-- Those of the given points that are found from the roots. -/
def reach (next : α → List α) (points roots : List α) : List α :=
  reachLoop next points roots []

/-- What the search finds was seen before or is reached from the queue. -/
theorem mem_of_mem_reachLoop {next : α → List α} {rest queue seen : List α} {x : α}
    (hx : x ∈ reachLoop next rest queue seen) : x ∈ seen ∨ ∃ q ∈ queue, Reaches next q x := by
  fun_induction reachLoop next rest queue seen with
  | case1 => exact .inl hx
  | case2 rest a queue seen ha ih =>
    rcases ih hx with h | ⟨q, hq, hqx⟩
    · rcases List.mem_cons.1 h with rfl | h
      · exact .inr ⟨x, by simp, .refl x⟩
      · exact .inl h
    · rcases List.mem_append.1 hq with hq | hq
      · exact .inr ⟨q, by simp [hq], hqx⟩
      · exact .inr ⟨a, by simp, .head hq hqx⟩
  | case3 rest a queue seen ha ih =>
    rcases ih hx with h | ⟨q, hq, hqx⟩
    · exact .inl h
    · exact .inr ⟨q, by simp [hq], hqx⟩

/-- The search keeps what was seen. -/
theorem subset_reachLoop {next : α → List α} {rest queue seen : List α} {x : α} (hx : x ∈ seen) :
    x ∈ reachLoop next rest queue seen := by
  fun_induction reachLoop next rest queue seen with
  | case1 => exact hx
  | case2 _ _ _ _ _ ih => exact ih (by simp [hx])
  | case3 _ _ _ _ _ ih => exact ih hx

/-- If every point is either left or seen, and the steps from what was seen lead to what was seen or
queued, then the search finds the whole queue, and no step leads out of what it finds. -/
theorem closed_reachLoop {next : α → List α} {points rest queue seen : List α}
    (hnext : ∀ a ∈ points, ∀ b ∈ next a, b ∈ points) (hqueue : ∀ q ∈ queue, q ∈ points)
    (hseen : ∀ s ∈ seen, s ∈ points) (hsplit : ∀ p ∈ points, p ∈ rest ∨ p ∈ seen)
    (hstep : ∀ s ∈ seen, ∀ b ∈ next s, b ∈ seen ∨ b ∈ queue) :
    (∀ q ∈ queue, q ∈ reachLoop next rest queue seen) ∧
      ∀ a ∈ reachLoop next rest queue seen, ∀ b ∈ next a, b ∈ reachLoop next rest queue seen := by
  fun_induction reachLoop next rest queue seen with
  | case1 rest seen => exact ⟨by simp, fun a ha b hb => (hstep a ha b hb).resolve_right (by simp)⟩
  | case2 rest a queue seen ha ih =>
    have hap : a ∈ points := hqueue a (by simp)
    obtain ⟨hfound, hclosed⟩ := ih
      (fun q hq => (List.mem_append.1 hq).elim (fun h => hqueue q (by simp [h])) (hnext a hap q))
      (fun s hs => (List.mem_cons.1 hs).elim (fun h => h ▸ hap) (hseen s))
      (fun p hp => by
        by_cases hpa : p = a
        · exact .inr (by simp [hpa])
        · exact (hsplit p hp).imp (List.mem_erase_of_ne hpa).2 (List.mem_cons_of_mem a))
      (fun s hs b hb => by
        rcases List.mem_cons.1 hs with rfl | hs
        · exact .inr (by simp [hb])
        · rcases hstep s hs b hb with h | h
          · exact .inl (by simp [h])
          · rcases List.mem_cons.1 h with rfl | h
            · exact .inl (by simp)
            · exact .inr (by simp [h]))
    refine ⟨fun q hq => ?_, hclosed⟩
    rcases List.mem_cons.1 hq with rfl | hq
    · exact subset_reachLoop (by simp)
    · exact hfound q (by simp [hq])
  | case3 rest a queue seen ha ih =>
    have haseen : a ∈ seen := (hsplit a (hqueue a (by simp))).resolve_left ha
    obtain ⟨hfound, hclosed⟩ := ih (fun q hq => hqueue q (by simp [hq])) hseen hsplit
      (fun s hs b hb => by
        rcases hstep s hs b hb with h | h
        · exact .inl h
        · rcases List.mem_cons.1 h with rfl | h
          · exact .inl haseen
          · exact .inr h)
    refine ⟨fun q hq => ?_, hclosed⟩
    rcases List.mem_cons.1 hq with rfl | hq
    · exact subset_reachLoop haseen
    · exact hfound q hq

/-- Where steps do not leave the points, the search finds exactly what is reached from a root. -/
theorem mem_reach_iff {next : α → List α} {points roots : List α}
    (hnext : ∀ a ∈ points, ∀ b ∈ next a, b ∈ points) (hroots : ∀ r ∈ roots, r ∈ points) {x : α} :
    x ∈ reach next points roots ↔ ∃ r ∈ roots, Reaches next r x := by
  constructor
  · intro hx
    exact (mem_of_mem_reachLoop hx).resolve_left (by simp)
  · rintro ⟨r, hr, hrx⟩
    have hclosed : (∀ q ∈ roots, q ∈ reachLoop next points roots []) ∧
        ∀ a ∈ reachLoop next points roots [], ∀ b ∈ next a, b ∈ reachLoop next points roots [] :=
      closed_reachLoop hnext hroots (by simp) (fun p hp => .inl hp) (by simp)
    exact hrx.closed (fun a b ha hb => hclosed.2 a ha b hb) (hclosed.1 r hr)

end BytecodeRegions
