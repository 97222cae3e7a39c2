import BytecodeRegions.Proofs.Listing.Reread

/-!
# Writing a method and reading it again

A method that was read from a listing is given back when it is written and read again, exactly if
none of its instructions ends in a word that ends in an information separator. The separators U+001C
to U+001F are characters of operands, but at the end of a line they are padding and are lost.

The method that is read is another one: its body has a stamp of its own. It is alike in its name, in
what its instructions are and in its handlers.

## Main definitions

* `Instruction.Alike`, `Handler.Alike`, `Method.Alike`: equal up to the identity of the body.

## Main results

* `exists_parse_format`: a listing without separators at the ends of lines is read back.
* `endsPlainly_of_parse_format`: what is read from a listing that was written ends plainly.
* `parse_format_iff`: a method is given back exactly if its instructions end plainly.
-/

namespace BytecodeRegions

/-- Two instructions do the same, with the same targets. -/
structure Instruction.Alike (i j : Instruction Link) : Prop where
  opcode : i.opcode = j.opcode
  slot : i.slot = j.slot
  target : i.target? = j.target?
  caseTargets : i.casePositions = j.casePositions
  keys : i.keys = j.keys
  operands : i.operands = j.operands

/-- Two handlers have the same positions and type. -/
structure Handler.Alike (x y : Handler) : Prop where
  start : x.start.position = y.start.position
  stop : x.stop.position = y.stop.position
  entry : x.entry.position = y.entry.position
  catchType : x.catchType = y.catchType

/-- Two methods have the same name, the same instructions and the same handlers. -/
structure Method.Alike (m m' : Method) : Prop where
  name : m.name = m'.name
  instructions : List.Forall₂ Instruction.Alike m.body.code.toList m'.body.code.toList
  handlers : List.Forall₂ Handler.Alike m.handlers m'.handlers

theorem Instruction.Alike.refl (i : Instruction Link) : i.Alike i :=
  ⟨rfl, rfl, rfl, rfl, rfl, rfl⟩

/-! ### Linking again -/

theorem Instruction.map_map {τ σ ρ : Type} (i : Instruction τ) (f : τ → σ) (g : σ → ρ) :
    (i.map f).map g = i.map (g ∘ f) := by
  simp [Instruction.map]

namespace Body

theorem linked_map_target {i : Instruction Link} {n : Nat} (hi : i.Listable)
    (hjumps : i.JumpsBelow n) : linked (i.map Link.target) = i := by
  have hbound {l : Link} (hl : l.IsBelow n) : l.target.link = l := by
    obtain ⟨p, -, rfl⟩ := hl
    rfl
  rw [linked]
  split
  · next hjump =>
    obtain ⟨⟨l, hl, hbelow⟩, hcases⟩ := hjumps hjump
    rw [Instruction.map_map]
    refine Instruction.map_eq_self (fun t ht => ?_) fun t ht => hbound (hcases t ht)
    obtain rfl : l = t := Option.some.inj (hl.symm.trans ht)
    exact hbound hbelow
  · next hjump =>
    have htarget := hi.target (Bool.not_eq_true _ ▸ hjump)
    have hcases : i.caseTargets = [] := by
      refine Listing.caseTargets_eq_nil fun hkind => hjump ?_
      rw [Instruction.kind] at hkind
      simp [Instruction.map, Opcode.hasTarget, hkind, Kind.hasTarget]
    rw [Instruction.map_map]
    exact Instruction.map_eq_self (by simp [htarget]) (by simp [hcases])

theorem targetError?_target {l : Link} {n owner : Nat} {op : Opcode} (hl : l.IsBelow n) :
    targetError? n owner op l.target = none := by
  obtain ⟨p, hp, rfl⟩ := hl
  exact if_pos ⟨Int.natCast_nonneg p, Int.ofNat_lt.2 hp⟩

/-- The jumps of a body can be linked again. -/
theorem linkError?_map_target {is : List (Instruction Link)}
    (hjumps : ∀ i ∈ is, i.JumpsBelow is.length) :
    linkError? (is.map (Instruction.map Link.target)) = none := by
  refine List.findSome?_eq_none_iff.2 ?_
  rintro ⟨j, owner⟩ hj
  obtain ⟨i, hi, rfl⟩ := List.mem_map.1 (List.fst_mem_of_mem_zipIdx hj)
  dsimp only
  rw [List.length_map, instructionError?]
  split
  · next hjump =>
    obtain ⟨⟨l, hl, hbelow⟩, hcases⟩ := hjumps i hi hjump
    have htarget : (i.map Link.target).target = some l.target := congrArg (Option.map _) hl
    rw [htarget]
    refine List.findSome?_eq_none_iff.2 (List.forall_mem_cons.2 ⟨targetError?_target hbelow, ?_⟩)
    intro t ht
    obtain ⟨k, hk, rfl⟩ := List.mem_map.1 ht
    exact targetError?_target (hcases k hk)
  · rfl

theorem exists_ofInstructions {is : List (Instruction Target)} (h : linkError? is = none)
    (stamp : Nat) : ∃ b, ofInstructions stamp is = .ok b ∧ b.code = (is.map linked).toArray := by
  rw [ofInstructions]
  split
  · next herror => cases h.symm.trans herror
  · exact ⟨_, rfl, rfl⟩

end Body

namespace Listing

variable {m : Method} {ls : Labels}

/-! ### Instructions -/

theorem mem_targeted_of_jump {i : Instruction Link} (hi : i ∈ m.body.code)
    (hjump : i.opcode.hasTarget = true) {p : Nat} (hp : p ∈ i.target? ∨ p ∈ i.casePositions) :
    p ∈ targeted m := by
  refine List.mem_append_left _ (List.mem_flatMap.2 ⟨i, ?_, ?_⟩)
  · exact List.mem_filter.2 ⟨Array.mem_toList_iff.2 hi, hjump⟩
  · rw [List.mem_append, Option.mem_toList]
    exact hp

/-- The labels of the targets of a method are found. -/
theorem reaches_of_mem (hls : Labelled (targeted m) m.body.size ls) {i : Instruction Link}
    (hi : i ∈ m.body.code) : Reaches ls i := by
  intro hjump
  obtain ⟨⟨l, hl, p, hp, rfl⟩, hcases⟩ := m.body.jumps i hi hjump
  refine ⟨⟨_, hl, p, rfl, hls.lookup (mem_targeted_of_jump hi hjump (.inl ?_)) hp⟩, ?_⟩
  · rw [Instruction.target?, Option.mem_def.1 hl]
    rfl
  · intro t ht
    obtain ⟨q, hq, rfl⟩ := hcases t ht
    refine ⟨q, rfl, hls.lookup (mem_targeted_of_jump hi hjump (.inr ?_)) hq⟩
    exact List.mem_filterMap.2 ⟨_, ht, rfl⟩

/-- The instructions of a listing make up the body they were written for. -/
theorem exists_body_statements (hm : m.Listable) (hls : Labelled (targeted m) m.body.size ls)
    (stamp : Nat) : ∃ b, body stamp ls (ops (items (statements m))) = .ok b ∧
      b.code = m.body.code := by
  have hread : (ops (items (statements m))).mapM (instruction ls) =
      .ok (m.body.code.toList.map (Instruction.map Link.target)) := by
    have hmem : ∀ i ∈ m.body.code.toList, i.Listable ∧ Reaches ls i := fun i hi =>
      have hi := Array.mem_toList_iff.1 hi
      ⟨hm.instructions i hi, reaches_of_mem hls hi⟩
    refine mapM_of_forall₂ (List.forall₂_map_right_iff.2 (List.Forall₂.flip ?_))
    refine ((List.forall₂_and_left _ _).2 ⟨hmem, forall₂_ops_statements m⟩).imp ?_
    exact fun i o h => instruction_arguments h.1.1 h.1.2 h.2.1 h.2.2
  have hjumps : ∀ i ∈ m.body.code.toList, i.JumpsBelow m.body.code.toList.length := fun i hi =>
    m.body.jumps i (Array.mem_toList_iff.1 hi)
  obtain ⟨b, hb, hcode⟩ := Body.exists_ofInstructions (Body.linkError?_map_target hjumps) stamp
  refine ⟨b, ?_, ?_⟩
  · rw [body, hread]
    exact mapError_eq_ok_iff.2 hb
  · rw [hcode, List.map_map, List.map_congr_left (g := id), List.map_id]
    intro i hi
    have hi := Array.mem_toList_iff.1 hi
    exact Body.linked_map_target (hm.instructions i hi) (m.body.jumps i hi)

/-! ### Handlers -/

theorem clausePosition_labelText {line p : Nat} (hp : ls.lookup (labelText p) = some p) :
    clausePosition ls line (labelText p) = .ok (p : Int) := by
  rw [clausePosition, position, integer?_labelText, hp]
  rfl

theorem resolve_position {p : Nat} (hp : p < m.body.size) :
    m.resolve (.position p) = .ok ⟨m.body, p, hp⟩ := by
  have hnonneg : ¬(p : Int) < 0 := by omega
  rw [Method.resolve]
  simp [hnonneg, Body.handle?, hp]

theorem catchType_typeText {x : Handler} {n : Nat} (hx : x.Listable n) :
    (if x.typeText = "all" then none else some x.typeText) = x.catchType := by
  rw [Handler.typeText]
  cases ht : x.catchType with
  | none => rfl
  | some t =>
    obtain ⟨hall, hne, -⟩ := hx.type t ht
    have hempty : t.isEmpty = false := by
      rw [← Bool.not_eq_true, String.isEmpty_iff]
      rintro rfl
      exact hne rfl
    simp [hempty, hall]

/-- The positions of a handler have labels that are found. -/
def Found (ls : Labels) (x : Handler) : Prop :=
  ∀ p ∈ [x.start.position, x.stop.position, x.entry.position], ls.lookup (labelText p) = some p

/-- The words of a handler are read as a handler that is alike. -/
theorem addClause_handlerWords {x : Handler} {c : Clause} (hx : x.Listable m.body.size)
    (hfound : Found ls x) (hc : c.operands = handlerWords x) :
    ∃ y, addClause ls m c = .ok (m.withHandler y) ∧ y.Alike x := by
  obtain ⟨hstart, hstop, hentry⟩ : _ ∧ _ ∧ _ := by simpa [Found] using hfound
  have hinside : firstOutside m.body.size
      [(x.start.position : Int), x.stop.position, x.entry.position] = none := by
    simp [firstOutside, hx.start, hx.stop, hx.entry]
  refine ⟨⟨⟨m.body, _, hx.start⟩, ⟨m.body, _, hx.stop⟩, ⟨m.body, _, hx.entry⟩, x.catchType,
    x.ordered⟩, ?_, rfl, rfl, rfl, rfl⟩
  have hparts : clauseParts c.operands = some (x.typeText, labelText x.start.position,
      labelText x.stop.position, labelText x.entry.position) := by
    rw [hc]
    rfl
  rw [addClause, hparts]
  refine bind_eq_ok_iff.2 ⟨_, clausePosition_labelText hstart, ?_⟩
  refine bind_eq_ok_iff.2 ⟨_, clausePosition_labelText hstop, ?_⟩
  refine bind_eq_ok_iff.2 ⟨_, clausePosition_labelText hentry, ?_⟩
  rw [hinside, catchType_typeText hx]
  refine mapError_eq_ok_iff.2 ?_
  rw [Method.addHandler, Method.handlerFor, resolve_position hx.start, resolve_position hx.stop,
    resolve_position hx.entry]
  have hmake : Handler.make ⟨m.body, _, hx.start⟩ ⟨m.body, _, hx.stop⟩ ⟨m.body, _, hx.entry⟩
      x.catchType = .ok ⟨⟨m.body, _, hx.start⟩, ⟨m.body, _, hx.stop⟩, ⟨m.body, _, hx.entry⟩,
        x.catchType, x.ordered⟩ :=
    dif_pos x.ordered
  exact congrArg (m.withHandler <$> ·) hmake

/-- Handler declarations are read one after another. -/
theorem exists_foldlM_addClause {xs : List Handler} {cs : List Clause}
    (hcs : List.Forall₂ (fun x c => c.operands = handlerWords x) xs cs)
    (hxs : ∀ x ∈ xs, x.Listable m.body.size ∧ Found ls x) :
    ∃ ys, cs.foldlM (addClause ls) m = .ok { m with handlers := m.handlers ++ ys } ∧
      List.Forall₂ Handler.Alike ys xs := by
  induction hcs generalizing m with
  | nil => exact ⟨[], by rw [List.append_nil]; rfl, .nil⟩
  | cons hc _ ih =>
    obtain ⟨⟨hx, hfound⟩, hxs⟩ := List.forall_mem_cons.1 hxs
    obtain ⟨y, hadd, hy⟩ := addClause_handlerWords hx hfound hc
    obtain ⟨ys, hrun, hys⟩ := ih (m := m.withHandler y) hxs
    refine ⟨y :: ys, ?_, .cons hy hys⟩
    rw [List.foldlM_cons, hadd]
    refine hrun.trans ?_
    simp [Method.withHandler]

theorem found_of_mem (hm : m.Listable) (hls : Labelled (targeted m) m.body.size ls) {x : Handler}
    (hx : x ∈ m.handlers) : Found ls x := by
  have hlist := hm.handlers x hx
  have hmem : ∀ p ∈ [x.start.position, x.stop.position, x.entry.position], p ∈ targeted m :=
    fun p hp => List.mem_append_right _ (List.mem_flatMap.2 ⟨x, hx, hp⟩)
  have hlt : ∀ p ∈ [x.start.position, x.stop.position, x.entry.position], p < m.body.size := by
    simp [hlist.start, hlist.stop, hlist.entry]
  exact fun p hp => hls.lookup (hmem p hp) (hlt p hp)

/-! ### Methods -/

/-- A listing without separators at the ends of its lines is read back, instruction by
instruction. -/
theorem exists_parse_format_code (hm : m.Listable) (hend : ∀ i ∈ m.body.code, i.EndsPlainly)
    (stamp : Nat) : ∃ m', parse stamp (format m) m.name = .ok m' ∧ m'.name = m.name ∧
      m'.body.code = m.body.code ∧ List.Forall₂ Handler.Alike m'.handlers m.handlers := by
  obtain ⟨ls, hlabels, hls⟩ := exists_labels_statements m
  obtain ⟨b, hbody, hcode⟩ := exists_body_statements hm hls stamp
  have hsize : b.size = m.body.size := congrArg Array.size hcode
  have hpos : 0 < b.size := hsize ▸ m.nonempty
  have hhandlers : ∀ x ∈ m.handlers, x.Listable b.size ∧ Found ls x := by
    rw [hsize]
    exact fun x hx => ⟨hm.handlers x hx, found_of_mem hm hls hx⟩
  obtain ⟨ys, hfold, hys⟩ := exists_foldlM_addClause (m := ⟨m.name, b, [], hpos⟩)
    (forall₂_clauses_statements m) hhandlers
  refine ⟨⟨m.name, b, ys, hpos⟩, ?_, rfl, hcode, hys⟩
  have hops : (ops (items (statements m))).isEmpty = false := by
    rw [List.isEmpty_eq_false_iff, ← List.length_pos_iff,
      ← (forall₂_ops_statements m).length_eq]
    exact m.nonempty
  have hmake : Method.make? m.name b = some ⟨m.name, b, [], hpos⟩ := dif_pos hpos
  refine bind_eq_ok_iff.2 ⟨_, read_format hm hend, bind_eq_ok_iff.2 ⟨ls, hlabels, ?_⟩⟩
  rw [hops]
  refine bind_eq_ok_iff.2 ⟨b, hbody, ?_⟩
  rw [hmake]
  exact hfold

/-- A listing without separators at the ends of its lines is read back. -/
theorem exists_parse_format (hm : m.Listable) (hend : ∀ i ∈ m.body.code, i.EndsPlainly)
    (stamp : Nat) : ∃ m', parse stamp (format m) m.name = .ok m' ∧ m'.Alike m := by
  obtain ⟨m', hparse, hname, hcode, hhandlers⟩ := exists_parse_format_code hm hend stamp
  refine ⟨m', hparse, hname, ?_, hhandlers⟩
  rw [hcode]
  exact List.forall₂_same.2 fun i _ => .refl i

theorem eq_of_operand {token w : String} (h : operand token = .ok (.word w)) : token = w := by
  rw [operand] at h
  cases hint : integer? token with
  | none =>
    rw [hint] at h
    cases h
    rfl
  | some r =>
    rw [hint] at h
    cases r <;> cases h

/-- The last operand of an instruction, if it is a word, was the last one written. -/
theorem getLast?_operands_of_encode {code : Opcode} {o : Op} {i : Instruction Target}
    (h : encode ls code o = .ok i) {w : String} (hw : i.operands.getLast? = some (.word w)) :
    o.operands.getLast? = some w := by
  have hoperands {slot target : Option Int} {cases keys : List Int} {as : List Operand}
      (hmake : make code slot target cases keys as = .ok i) : as.getLast? = some (.word w) := by
    obtain ⟨-, -, -, -, has, -⟩ := make_eq_ok_iff.1 hmake
    rwa [← has]
  cases encodes_of_encode h with
  | jump _ _ _ hmake => cases hoperands hmake
  | switch _ _ _ _ hmake => cases hoperands hmake
  | increment _ _ _ _ _ hmake => cases hoperands hmake
  | implicit _ hmake => cases hoperands hmake
  | explicit _ _ _ _ hmake => cases hoperands hmake
  | other as _ _ has hmake =>
    obtain ⟨token, htoken, hread⟩ :=
      exists_getLast?_of_forall₂ (forall₂_of_mapM has) (hoperands hmake)
    rw [htoken, eq_of_operand hread]

/-- No operand of a listing that was written ends a line in a separator. -/
theorem endsPlainly_of_parse_format (hm : m.Listable) {stamp : Nat} {name : String} {m' : Method}
    (h : parse stamp (format m) name = .ok m') : ∀ j ∈ m'.body.code, j.EndsPlainly := by
  intro j hj a ha
  cases a with
  | number n => exact trivial
  | word w =>
  intro c hc
  obtain ⟨is, ls, his, hbody, -⟩ := of_parse h
  obtain ⟨o, ho, i, code, hencode, rfl⟩ := exists_op_of_mem_body hbody hj
  have hlast : o.operands.getLast? = some w := by
    refine getLast?_operands_of_encode hencode ?_
    rw [← Option.mem_def.1 ha, Body.linked]
    split <;> rfl
  obtain ⟨l, hl, st, hform, hnone | hsame⟩ := exists_form_of_mem_read his (mem_of_mem_ops ho)
  · rw [Item.operands] at hnone
    rw [hnone] at hlast
    cases hlast
  · rw [Item.operands] at hsame
    -- the line is one that was printed, so it has no comment and no padding at its end
    rw [linesOf_format hm] at hl
    obtain ⟨k, hk, rfl⟩ := List.mem_map.1 hl
    have hcomment : ';' ∉ k.toList :=
      (isLine_of_mem_formatLines hm hk).notMem (by decide) (by decide)
    have hpadding := isPadding_of_lineForm hform hcomment (isPadding_of_mem_formatLines hk)
      (hsame ▸ hlast) c hc
    intro hseparator
    simp [Text.isPadding, hseparator] at hpadding

/-- A method that was read is given back by writing and reading it, exactly if no instruction ends
in a word that ends in an information separator. -/
theorem parse_format_iff {stamp : Nat} {text name : String} (h : parse stamp text name = .ok m)
    (stamp' : Nat) : (∃ m', parse stamp' (format m) m.name = .ok m' ∧ m'.Alike m) ↔
      ∀ i ∈ m.body.code, i.EndsPlainly := by
  have hm := listable_of_parse h
  refine ⟨?_, fun hend => exists_parse_format hm hend stamp'⟩
  rintro ⟨m', hparse, halike⟩ i hi
  obtain ⟨j, hj, hji⟩ := exists_of_forall₂ halike.instructions (Array.mem_toList_iff.2 hi)
  have hend := endsPlainly_of_parse_format hm hparse j (Array.mem_toList_iff.1 hj)
  rwa [Instruction.EndsPlainly, hji.operands] at hend

/-- A listing with a call, a switch and a handler. -/
def callingText : String :=
  "go: jsr sub\n ldc x\n lookupswitch 5:go -7:out default:out\nout: return\n" ++
    "sub: astore_1\n ret 1\n.catch java/lang/Exception from go to sub using out"

/-- A listing with a word that ends in U+001C. -/
def separatorText : String :=
  "ldc x\x1c"

/-- A call, a switch and a handler come back; a word that ends in U+001C does not. -/
theorem parse_format_separator :
    (∃ m, parse 0 callingText "f" = .ok m ∧
      ∃ m', parse 1 (format m) m.name = .ok m' ∧ m'.Alike m) ∧
    ∃ m, parse 0 separatorText "f" = .ok m ∧
      ¬∃ m', parse 1 (format m) m.name = .ok m' ∧ m'.Alike m := by
  constructor
  · obtain ⟨m, hm, hend⟩ := exists_of_any (x := parse 0 callingText "f")
      (p := fun m => decide (∀ i ∈ m.body.code, i.EndsPlainly)) (by decide +kernel)
    exact ⟨m, hm, (parse_format_iff hm 1).2 (of_decide_eq_true hend)⟩
  · obtain ⟨m, hm, hend⟩ := exists_of_any (x := parse 0 separatorText "f")
      (p := fun m => decide (¬∀ i ∈ m.body.code, i.EndsPlainly)) (by decide +kernel)
    exact ⟨m, hm, fun h => of_decide_eq_true hend ((parse_format_iff hm 1).1 h)⟩

end Listing

end BytecodeRegions
