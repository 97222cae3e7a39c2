import BytecodeRegions.Proofs.Listing.Meaning

/-!
# Handler declarations that make sense

A handler declaration stands for a handler if its three tokens stand for positions of the listing
and the range does not end before it starts. All tokens are resolved before any position is looked
at, and an overlong integer is noticed only if it is the first token that stands for no position.

## Main definitions

* `ClauseFits`: a handler declaration stands for a handler.
* `ClauseOverflows`: its first token that stands for no position is an overlong integer.

## Main results

* `exists_addClause_of_fits`, `addClause_of_overflows`, `addClause_of_not_fits`: what becomes of one
  handler declaration.
* `exists_foldlM_of_fits`: handler declarations that stand for handlers are all added.
-/

namespace BytecodeRegions.Listing

variable {is : List Item} {ls : Labels} {token : String} {z : Int}

/-- A handler declaration has a type and three position tokens. -/
def IsClause (c : Clause) (type start stop entry : String) : Prop :=
  c.operands = [type, "from", start, "to", stop, "using", entry]

/-- A handler declaration stands for a handler: its three tokens stand for positions of the listing,
and the range does not end before it starts. -/
def ClauseFits (is : List Item) (c : Clause) : Prop :=
  ∃ type start stop entry, IsClause c type start stop entry ∧
    ∃ s e h, Resolves is start s ∧ Resolves is stop e ∧ Resolves is entry h ∧
      (∀ z ∈ [s, e, h], InRange (ops is).length z) ∧ s ≤ e

/-- The first token of a handler declaration that stands for no position is an overlong integer. -/
def ClauseOverflows (is : List Item) (c : Clause) : Prop :=
  ∃ type start stop entry, IsClause c type start stop entry ∧
    ∃ before token after, [start, stop, entry] = before ++ token :: after ∧
      (∀ t ∈ before, ∃ z, Resolves is t z) ∧ Overlong token

section Clauses

variable {m : Method} {c : Clause} {type start stop entry : String}

theorem clauseParts_eq_some_iff : clauseParts c.operands = some (type, start, stop, entry) ↔
    IsClause c type start stop entry := by
  rw [clauseParts.eq_def, IsClause]
  split
  · next type' w₁ start' w₂ stop' w₃ entry' hoperands =>
    rw [hoperands]
    split
    · next hwords =>
      obtain ⟨rfl, rfl, rfl⟩ := hwords
      simp
    · next hwords =>
      refine iff_of_false nofun fun h => hwords ?_
      simp only [List.cons.injEq] at h
      exact ⟨h.2.1, h.2.2.2.1, h.2.2.2.2.2.1⟩
  · next hshort => exact iff_of_false nofun fun h => hshort _ _ _ _ _ _ _ h

/-- A token of a handler declaration stands for a position, or is overlong, or is to blame. -/
theorem clausePosition_cases (hls : LabelsOf is ls) (line : Nat) (token : String) :
    (∃ z, Resolves is token z) ∨ Overlong token ∨
      ∃ name, clausePosition ls line token = .error (.atLine line (.undefinedLabel name)) := by
  cases hposition : position ls token with
  | ok z => exact .inl ⟨z, (position_eq_ok_iff hls).1 hposition⟩
  | error e =>
    rcases position_error hposition with hlong | ⟨name, rfl⟩
    · exact .inr (.inl hlong)
    · refine .inr (.inr ⟨name, ?_⟩)
      rw [clausePosition, hposition]
      rfl

theorem clausePosition_of_resolves (hls : LabelsOf is ls) (line : Nat)
    (h : Resolves is token z) : clausePosition ls line token = .ok z :=
  mapError_eq_ok_iff.2 ((position_eq_ok_iff hls).2 h)

/-- The first token that is refused decides for a handler declaration. -/
theorem addClause_of_mapM_error (hc : IsClause c type start stop entry) {f : Failure}
    (h : [start, stop, entry].mapM (clausePosition ls c.line) = .error f) :
    addClause ls m c = .error f := by
  rw [addClause, clauseParts_eq_some_iff.2 hc]
  simp only [List.mapM_cons, List.mapM_nil, bind_eq_error_iff] at h
  refine bind_eq_error_iff.2 ?_
  rcases h with hstart | ⟨s, hstart, (hstop | ⟨e, hstop, hrest⟩) | ⟨_, _, hnone⟩⟩
  · exact .inl hstart
  · exact .inr ⟨s, hstart, bind_eq_error_iff.2 (.inl hstop)⟩
  · refine .inr ⟨s, hstart, bind_eq_error_iff.2 (.inr ⟨e, hstop, bind_eq_error_iff.2 (.inl ?_)⟩)⟩
    rcases hrest with (hentry | ⟨_, _, hnone | ⟨_, _, hnone⟩⟩) | ⟨_, _, hnone⟩
    · exact hentry
    all_goals cases hnone
  · cases hnone

/-- An overlong integer as the first token without a position is a failure of its own. -/
theorem addClause_of_overflows (hls : LabelsOf is ls) (h : ClauseOverflows is c) :
    ∃ count, addClause ls m c = .error (.numeral count) := by
  obtain ⟨type, start, stop, entry, hc, before, token, after, hsplit, hbefore, hlong⟩ := h
  obtain ⟨count, hcount⟩ : ∃ count, position ls token = .error (.tooLong count) :=
    exists_position_of_overlong hlong
  refine ⟨count, addClause_of_mapM_error hc ?_⟩
  rw [hsplit]
  refine mapM_eq_error (fun t ht => ?_) ?_
  · exact (hbefore t ht).imp fun z hz => clausePosition_of_resolves hls c.line hz
  · rw [clausePosition, hcount]
    rfl

theorem firstOutside_eq_none_iff {n : Nat} {zs : List Int} :
    firstOutside n zs = none ↔ ∀ z ∈ zs, InRange n z := by
  simp [firstOutside, InRange]

theorem addHandler_position {p q r : Nat} (hp : p < m.body.size) (hq : q < m.body.size)
    (hr : r < m.body.size) (t : Option String) :
    m.addHandler (.position p) (.position q) (.position r) t =
      m.withHandler <$> Handler.make ⟨m.body, p, hp⟩ ⟨m.body, q, hq⟩ ⟨m.body, r, hr⟩ t := by
  rw [Method.addHandler, Method.handlerFor, resolve_position hp, resolve_position hq,
    resolve_position hr]
  rfl

section Resolved

variable {s e h : Int} (hls : LabelsOf is ls) (hc : IsClause c type start stop entry)
  (hs : Resolves is start s) (he : Resolves is stop e) (hh : Resolves is entry h)

include hls hc hs he hh

theorem addClause_of_outside {p : Int} (hp : firstOutside m.body.size [s, e, h] = some p) :
    addClause ls m c = .error (.atLine c.line (.handlerOutside p m.body.size)) := by
  rw [addClause, clauseParts_eq_some_iff.2 hc]
  refine bind_eq_error_iff.2 (.inr ⟨s, clausePosition_of_resolves hls c.line hs, ?_⟩)
  refine bind_eq_error_iff.2 (.inr ⟨e, clausePosition_of_resolves hls c.line he, ?_⟩)
  refine bind_eq_error_iff.2 (.inr ⟨h, clausePosition_of_resolves hls c.line hh, ?_⟩)
  rw [hp]
  rfl

/-- Positions of the body make a handler unless they are in the wrong order. -/
theorem addClause_of_inRange (hin : ∀ z ∈ [s, e, h], InRange m.body.size z) :
    (s ≤ e ∧ ∃ x, addClause ls m c = .ok (m.withHandler x)) ∨
      ¬s ≤ e ∧ ∃ p q,
        addClause ls m c = .error (.atLine c.line (.handlerRefused (.reversed p q))) := by
  have hinside := firstOutside_eq_none_iff.2 hin
  simp only [List.forall_mem_cons, InRange] at hin
  obtain ⟨⟨hs₀, hs₁⟩, ⟨he₀, he₁⟩, ⟨hh₀, hh₁⟩, -⟩ := hin
  lift s to Nat using hs₀
  lift e to Nat using he₀
  lift h to Nat using hh₀
  have hs₂ : s < m.body.size := by omega
  have he₂ : e < m.body.size := by omega
  have hh₂ : h < m.body.size := by omega
  obtain ⟨t, hadd⟩ : ∃ t, addClause ls m c = (m.withHandler <$>
      Handler.make ⟨m.body, s, hs₂⟩ ⟨m.body, e, he₂⟩ ⟨m.body, h, hh₂⟩ t).mapError
        fun r => .atLine c.line (.handlerRefused r) := by
    refine ⟨if type = "all" then none else some type, ?_⟩
    rw [← addHandler_position, addClause, clauseParts_eq_some_iff.2 hc]
    dsimp only
    rw [clausePosition_of_resolves hls c.line hs, clausePosition_of_resolves hls c.line he,
      clausePosition_of_resolves hls c.line hh]
    simp only [bind, Except.bind, hinside]
  rw [hadd, Handler.make]
  split
  · next hle => exact .inl ⟨Int.ofNat_le.2 hle, _, rfl⟩
  · next hgt => exact .inr ⟨fun hle => hgt (Int.ofNat_le.1 hle), s, e, rfl⟩

end Resolved

/-- A handler declaration that stands for a handler adds it. -/
theorem exists_addClause_of_fits (hls : LabelsOf is ls) (hsize : m.body.size = (ops is).length)
    (h : ClauseFits is c) : ∃ x, addClause ls m c = .ok (m.withHandler x) := by
  obtain ⟨type, start, stop, entry, hc, s, e, h, hs, he, hh, hin, hle⟩ := h
  rw [← hsize] at hin
  rcases addClause_of_inRange hls hc hs he hh hin with ⟨-, hok⟩ | ⟨hgt, -⟩
  · exact hok
  · exact absurd hle hgt

/-- Any other handler declaration is to blame, and no place outside the body is looked up. -/
theorem addClause_of_not_fits (hls : LabelsOf is ls) (hsize : m.body.size = (ops is).length)
    (hfits : ¬ClauseFits is c) (hover : ¬ClauseOverflows is c) :
    ∃ cause, addClause ls m c = .error (.atLine c.line cause) ∧
      cause ≠ .handlerRefused .outside := by
  by_cases hshape : ∃ type start stop entry, IsClause c type start stop entry
  · obtain ⟨type, start, stop, entry, hc⟩ := hshape
    rcases forall_or_first (fun t => ∃ z, Resolves is t z) [start, stop, entry] with
      hall | ⟨before, token, after, hsplit, hbefore, htoken⟩
    · simp only [List.forall_mem_cons] at hall
      obtain ⟨⟨s, hs⟩, ⟨e, he⟩, ⟨h, hh⟩, -⟩ := hall
      cases hinside : firstOutside m.body.size [s, e, h] with
      | some p => exact ⟨_, addClause_of_outside hls hc hs he hh hinside, nofun⟩
      | none =>
        have hin := firstOutside_eq_none_iff.1 hinside
        rcases addClause_of_inRange hls hc hs he hh hin with ⟨hle, -⟩ | ⟨-, p, q, herror⟩
        · rw [hsize] at hin
          exact absurd ⟨type, start, stop, entry, hc, s, e, h, hs, he, hh, hin, hle⟩ hfits
        · exact ⟨_, herror, nofun⟩
    · rcases clausePosition_cases hls c.line token with hz | hlong | ⟨name, hname⟩
      · exact absurd hz htoken
      · exact absurd ⟨type, start, stop, entry, hc, before, token, after, hsplit, hbefore, hlong⟩
          hover
      · refine ⟨.undefinedLabel name, addClause_of_mapM_error hc ?_, nofun⟩
        rw [hsplit]
        refine mapM_eq_error (fun t ht => ?_) hname
        exact (hbefore t ht).imp fun z hz => clausePosition_of_resolves hls c.line hz
  · refine ⟨.handlerForm, ?_, nofun⟩
    rw [addClause]
    split
    · next hparts => exact absurd ⟨_, _, _, _, clauseParts_eq_some_iff.1 hparts⟩ hshape
    · rfl

/-- Handler declarations that stand for handlers add them, one after another. -/
theorem exists_foldlM_of_fits {cs : List Clause} (hls : LabelsOf is ls)
    (hsize : m.body.size = (ops is).length) (hcs : ∀ c ∈ cs, ClauseFits is c) :
    ∃ m', cs.foldlM (addClause ls) m = .ok m' ∧ m'.body = m.body := by
  induction cs generalizing m with
  | nil => exact ⟨m, rfl, rfl⟩
  | cons c cs ih =>
    obtain ⟨hc, hcs⟩ := List.forall_mem_cons.1 hcs
    obtain ⟨x, hx⟩ := exists_addClause_of_fits hls hsize hc
    obtain ⟨m', hm', hbody⟩ := ih (m := m.withHandler x) hsize hcs
    refine ⟨m', ?_, hbody⟩
    rw [List.foldlM_cons, hx]
    exact hm'

end Clauses

end BytecodeRegions.Listing
