import BytecodeRegions.Proofs.Listing.RoundTrip
import BytecodeRegions.Proofs.Listing.Tokens

/-!
# Instructions that make sense

An instruction makes sense on its own if its operands are those that its mnemonic asks for, whether
or not its targets are positions of the listing. Instructions that make sense on their own make a
body exactly if their targets are.

## Main definitions

* `Assembles`: an instruction makes sense on its own and has given targets.
* `InRange`: the positions of a listing.

## Main results

* `exists_instruction_of_assembles`, `exists_assembles_of_instruction`: what becomes of one
  instruction.
* `exists_body_of_inRange`, `body_of_outside`, `body_of_senseless`: what becomes of all
  instructions.
-/

namespace BytecodeRegions.Listing

variable {is : List Item} {ls : Labels} {z : Int}

/-! ### Instructions -/

/-- An operand is a key and a label, parted by its first colon. -/
structure Splits (operand key label : String) : Prop where
  text : operand = key ++ ":" ++ label
  key : ':' ∉ key.toList
  label : label ≠ ""

/-- The operand of a switch is an integer key with a target. -/
def IsCase (is : List Item) (operand : String) (z : Int) : Prop :=
  ∃ key label k, Splits operand key label ∧ key ≠ "default" ∧ Writes key k ∧ Resolves is label z

/-- The operand of a switch is its default. -/
def IsDefault (is : List Item) (operand : String) (z : Int) : Prop :=
  ∃ label, Splits operand "default" label ∧ Resolves is label z

/-- An instruction makes sense on its own and has given targets, the default of a switch first. -/
inductive Assembles (is : List Item) (o : Op) : List Int → Prop
  /-- A jump has one target. -/
  | jump {code : Opcode} {t : String} {z : Int} (hname : Opcode.ofName? o.name = some code)
      (hkind : code.kind = .jsr ∨ code.kind = .goto ∨ code.kind = .branch)
      (hoperands : o.operands = [t]) (hz : Resolves is t z) : Assembles is o [z]
  /-- A switch has cases and, among them, one default. -/
  | switch {code : Opcode} {d : String} {z : Int} {before after : List String} {zs zs' : List Int}
      (hname : Opcode.ofName? o.name = some code) (hkind : code.kind = .switch)
      (hoperands : o.operands = before ++ d :: after) (hd : IsDefault is d z)
      (hbefore : List.Forall₂ (IsCase is) before zs)
      (hafter : List.Forall₂ (IsCase is) after zs') : Assembles is o (z :: (zs ++ zs'))
  /-- An increment has a slot and a number. -/
  | increment {code : Opcode} {s n : String} {slot : Nat} {z : Int}
      (hname : Opcode.ofName? o.name = some code) (hkind : code.kind = .iinc)
      (hoperands : o.operands = [s, n]) (hslot : Writes s slot) (hz : Writes n z) :
      Assembles is o []
  /-- A mnemonic that names its slot has no operand. -/
  | implicit {code : Opcode} (hname : Opcode.ofName? o.name = some code)
      (hslot : code.implicitSlot ≠ none) (hoperands : o.operands = []) : Assembles is o []
  /-- Any other access has a slot. -/
  | explicit {code : Opcode} {s : String} {slot : Nat} (hname : Opcode.ofName? o.name = some code)
      (hkind : code.kind = .load ∨ code.kind = .store ∨ code.kind = .ret)
      (himplicit : code.implicitSlot = none) (hoperands : o.operands = [s])
      (hslot : Writes s slot) : Assembles is o []
  /-- Anything else has numbers and words. -/
  | other {code : Opcode} (hname : Opcode.ofName? o.name = some code)
      (hkind : code.kind = .methodReturn ∨ code.kind = .athrow ∨ code.kind = .other)
      (hoperands : ∀ a ∈ o.operands, ¬Overlong a) : Assembles is o []

theorem splitCase_eq_some_iff {operand key label : String} :
    splitCase operand = some (key, label) ↔ Splits operand key label := by
  constructor
  · intro h
    simp only [splitCase] at h
    split at h
    · next x c rest hdrop =>
      obtain ⟨rfl, rfl⟩ := Prod.mk.inj (Option.some.inj h)
      have hx : (x != ':') = false := by
        have hhead := List.head?_dropWhile_not (· != ':') operand.toList
        rw [hdrop] at hhead
        exact hhead
      obtain rfl : x = ':' := bne_eq_false_iff_eq.1 hx
      have hsplit : operand.toList = operand.toList.takeWhile (· != ':') ++ ':' :: c :: rest := by
        rw [← hdrop, List.takeWhile_append_dropWhile]
      refine ⟨String.toList_inj.1 ?_, fun hmem => ?_, fun hnil => ?_⟩
      · simp only [String.toList_append, String.toList_ofList, List.append_assoc]
        exact hsplit
      · rw [String.toList_ofList] at hmem
        exact absurd (List.mem_takeWhile_imp hmem) (by simp)
      · have htext := congrArg String.toList hnil
        rw [String.toList_ofList] at htext
        cases htext
    · cases h
  · rintro ⟨rfl, hkey, hlabel⟩
    exact splitCase_append hkey fun hnil => hlabel (String.toList_inj.1 hnil)

theorem add_eq_ok_iff (hls : LabelsOf is ls) {cs cs' : Cases} {a : String} :
    cs.add ls a = .ok cs' ↔
      (cs.default? = none ∧ ∃ z, IsDefault is a z ∧ cs' = { cs with default? := some z }) ∨
      ∃ key label k z, Splits a key label ∧ key ≠ "default" ∧ Writes key k ∧ Resolves is label z ∧
        cs' = { cs with keys := cs.keys ++ [k], targets := cs.targets ++ [z] } := by
  constructor
  · intro h
    rw [Cases.add] at h
    split at h
    · next key label hsplit =>
      rw [splitCase_eq_some_iff] at hsplit
      split at h
      · next hkey =>
        subst hkey
        split at h
        · cases h
        · next hnone =>
          obtain ⟨z, hz, h⟩ := bind_eq_ok_iff.1 h
          cases h
          refine .inl ⟨by simpa using hnone, z, ⟨label, hsplit, ?_⟩, rfl⟩
          exact (position_eq_ok_iff hls).1 hz
      · next hkey =>
        obtain ⟨k, hk, h⟩ := bind_eq_ok_iff.1 h
        obtain ⟨z, hz, h⟩ := bind_eq_ok_iff.1 h
        cases h
        exact .inr ⟨key, label, k, z, hsplit, hkey, integer_eq_ok_iff.1 hk,
          (position_eq_ok_iff hls).1 hz, rfl⟩
    · cases h
  · rintro (⟨hnone, z, ⟨label, hsplit, hz⟩, rfl⟩ | ⟨key, label, k, z, hsplit, hkey, hk, hz, rfl⟩)
    · rw [Cases.add, splitCase_eq_some_iff.2 hsplit]
      simp only [hnone, Option.isSome_none, (position_eq_ok_iff hls).2 hz]
      rfl
    · rw [Cases.add, splitCase_eq_some_iff.2 hsplit]
      simp only [hkey, integer_eq_ok_iff.2 hk, (position_eq_ok_iff hls).2 hz]
      rfl

/-- The cases of a switch are read one by one. -/
theorem exists_foldlM_cases (hls : LabelsOf is ls) {as : List String} {zs : List Int}
    (has : List.Forall₂ (IsCase is) as zs) (cs : Cases) : ∃ ks, ks.length = zs.length ∧
      as.foldlM (Cases.add ls) cs =
        .ok { cs with keys := cs.keys ++ ks, targets := cs.targets ++ zs } := by
  induction has generalizing cs with
  | nil => exact ⟨[], rfl, by rw [List.append_nil, List.append_nil]; rfl⟩
  | @cons a z as zs ha _ ih =>
    obtain ⟨key, label, k, hsplit, hkey, hk, hz⟩ := ha
    have hadd : cs.add ls a = .ok _ :=
      (add_eq_ok_iff hls).2 (.inr ⟨key, label, k, z, hsplit, hkey, hk, hz, rfl⟩)
    obtain ⟨ks, hlen, hrest⟩ := ih { cs with keys := cs.keys ++ [k], targets := cs.targets ++ [z] }
    refine ⟨k :: ks, by rw [List.length_cons, List.length_cons, hlen], ?_⟩
    rw [List.foldlM_cons, hadd]
    change as.foldlM (Cases.add ls) _ = _
    rw [hrest]
    simp only [List.append_assoc, List.singleton_append]

/-- Operands that are read as cases are cases, but for one default where none was read before. -/
theorem cases_of_foldlM (hls : LabelsOf is ls) {as : List String} {cs cs' : Cases}
    (h : as.foldlM (Cases.add ls) cs = .ok cs') :
    (cs'.default? = cs.default? ∧ ∃ zs, List.Forall₂ (IsCase is) as zs) ∨
      cs.default? = none ∧ ∃ before d after z zs zs', as = before ++ d :: after ∧ IsDefault is d z ∧
        List.Forall₂ (IsCase is) before zs ∧ List.Forall₂ (IsCase is) after zs' := by
  induction as generalizing cs with
  | nil =>
    cases h
    exact .inl ⟨rfl, [], .nil⟩
  | cons a as ih =>
    rw [List.foldlM_cons] at h
    obtain ⟨cs₁, hadd, h⟩ := bind_eq_ok_iff.1 h
    rcases (add_eq_ok_iff hls).1 hadd with
      ⟨hnone, z, hz, rfl⟩ | ⟨key, label, k, z, hsplit, hkey, hk, hz, rfl⟩
    · rcases ih h with ⟨-, zs, hzs⟩ | ⟨hsome, -⟩
      · exact .inr ⟨hnone, [], a, as, z, [], zs, rfl, hz, .nil, hzs⟩
      · cases hsome
    · have hcase : IsCase is a z := ⟨key, label, k, hsplit, hkey, hk, hz⟩
      rcases ih h with
        ⟨hsame, zs, hzs⟩ | ⟨hnone, before, d, after, y, zs, zs', rfl, hd, hbefore, hafter⟩
      · exact .inl ⟨hsame, z :: zs, .cons hcase hzs⟩
      · exact .inr ⟨hnone, a :: before, d, after, y, z :: zs, zs', rfl, hd, .cons hcase hbefore,
          hafter⟩

/-- One default among cases makes a switch. -/
theorem exists_switch (hls : LabelsOf is ls) {before after : List String} {d : String}
    {zs zs' : List Int} (hbefore : List.Forall₂ (IsCase is) before zs) (hd : IsDefault is d z)
    (hafter : List.Forall₂ (IsCase is) after zs') : ∃ ks, ks.length = (zs ++ zs').length ∧
      (before ++ d :: after).foldlM (Cases.add ls) {} =
        .ok { keys := ks, targets := zs ++ zs', default? := some z } := by
  obtain ⟨ks, hks, hfront⟩ := exists_foldlM_cases hls hbefore {}
  have hadd : Cases.add ls { keys := ks, targets := zs } d =
      .ok { keys := ks, targets := zs, default? := some z } :=
    (add_eq_ok_iff hls).2 (.inl ⟨rfl, z, hd, rfl⟩)
  obtain ⟨ks', hks', hback⟩ := exists_foldlM_cases hls hafter
    { keys := ks, targets := zs, default? := some z }
  refine ⟨ks ++ ks', by rw [List.length_append, List.length_append, hks, hks'], ?_⟩
  rw [List.foldlM_append, hfront]
  change (d :: after).foldlM (Cases.add ls) { keys := ks, targets := zs } = _
  rw [List.foldlM_cons, hadd]
  exact hback

/-- The targets of an instruction are given ones, the default of a switch first. -/
structure HasTargets (i : Instruction Target) (zs : List Int) : Prop where
  target : i.target = zs.head?.map .position
  cases : i.caseTargets = zs.tail.map .position
  jumps : i.opcode.hasTarget = true ↔ zs ≠ []

/-- Parts that fit make an instruction. -/
theorem exists_make {code : Opcode} {slot : Option Int} (target : Option Int)
    {targets keys : List Int} (operands : List Operand) {s : Option Nat}
    (hs : s.isSome = code.accessesLocal)
    (hslot : slot = none ∧ s = code.implicitSlot ∨ ∃ n : Nat, slot = some (n : Int) ∧ s = some n)
    (htargets : targets ≠ [] → code.kind = .switch) (hkeys : keys.length = targets.length) :
    ∃ i, make code slot target targets keys operands = .ok i ∧ i.opcode = code ∧
      i.target = target.map .position ∧ i.caseTargets = targets.map .position := by
  refine ⟨⟨code, s, target.map .position, targets.map .position, keys, operands, hs, ?_, ?_⟩,
    make_eq_ok_iff.2 ⟨rfl, rfl, rfl, rfl, rfl, hslot⟩, rfl, rfl, rfl⟩
  · exact fun h => htargets fun hnil => h (by rw [hnil]; rfl)
  · exact .inr (by rw [List.length_map, hkeys])

/-- Only an overlong integer is no operand. -/
theorem exists_operand_iff {a : String} : (∃ x, operand a = .ok x) ↔ ¬Overlong a := by
  rw [operand]
  rcases writes_or_overlong_or_isWord a with ⟨z, hz⟩ | hlong | hword
  · rw [integer?_eq_ok_iff.2 hz]
    refine iff_of_true ⟨.number z, rfl⟩ fun hlong => ?_
    obtain ⟨count, hcount⟩ := exists_integer?_of_overlong hlong
    cases (integer?_eq_ok_iff.2 hz).symm.trans hcount
  · obtain ⟨count, hcount⟩ := exists_integer?_of_overlong hlong
    rw [hcount]
    refine iff_of_false ?_ fun h => h hlong
    rintro ⟨x, hx⟩
    cases hx
  · rw [integer?_eq_none_iff.2 hword]
    refine iff_of_true ⟨.word a, rfl⟩ ?_
    rintro ⟨n, hn, -⟩
    exact hword ⟨n, hn⟩

section Encoding

variable {code : Opcode} {o : Op} {i : Instruction Target} {zs : List Int}

/-- What is read comes of parts that fit, with the given targets. -/
private theorem exists_of_encode (slot : Option Int) (keys : List Int) (operands : List Operand)
    {s : Option Nat} (hname : Opcode.ofName? o.name = some code)
    (hencode : encode ls code o = make code slot zs.head? zs.tail keys operands)
    (hs : s.isSome = code.accessesLocal)
    (hslot : slot = none ∧ s = code.implicitSlot ∨ ∃ n : Nat, slot = some (n : Int) ∧ s = some n)
    (htargets : zs.tail ≠ [] → code.kind = .switch) (hkeys : keys.length = zs.tail.length)
    (hjumps : code.hasTarget = true ↔ zs ≠ []) :
    ∃ i, instruction ls o = .ok i ∧ HasTargets i zs := by
  obtain ⟨i, hmake, rfl, htarget, hcases⟩ := exists_make zs.head? operands hs hslot htargets hkeys
  refine ⟨i, ?_, htarget, hcases, hjumps⟩
  simp only [instruction, hname]
  exact mapError_eq_ok_iff.2 (hencode.trans hmake)

/-- An instruction that makes sense on its own is read, with its targets. -/
theorem exists_instruction_of_assembles (hls : LabelsOf is ls) (h : Assembles is o zs) :
    ∃ i, instruction ls o = .ok i ∧ HasTargets i zs := by
  cases h with
  | @jump code t z hname hkind hoperands hz =>
    have hposition := (position_eq_ok_iff hls).2 hz
    have hnone : code.implicitSlot = none := by
      refine Opcode.implicitSlot_eq_none ?_ ?_ <;> grind
    refine exists_of_encode none [] [] (s := none) hname ?_ ?_ (.inl ⟨rfl, hnone.symm⟩)
      (absurd rfl) rfl ?_
    all_goals rcases hkind with hkind | hkind | hkind
    all_goals simp [encode, hkind, hoperands, hposition, Opcode.accessesLocal, Kind.accessesLocal,
      Opcode.hasTarget, Kind.hasTarget, bind, Except.bind]
  | @switch code d z before after zs zs' hname hkind hoperands hd hbefore hafter =>
    obtain ⟨ks, hks, hcases⟩ := exists_switch hls hbefore hd hafter
    have hnone : code.implicitSlot = none :=
      Opcode.implicitSlot_eq_none (by simp [hkind]) (by simp [hkind])
    refine exists_of_encode none ks [] (s := none) hname ?_ ?_ (.inl ⟨rfl, hnone.symm⟩)
      (fun _ => hkind) hks ?_
    · simp only [encode, hkind, switch, hoperands, hcases]
      rfl
    · simp [Opcode.accessesLocal, hkind, Kind.accessesLocal]
    · simp [Opcode.hasTarget, hkind, Kind.hasTarget]
  | @increment code s n slot z hname hkind hoperands hslot hz =>
    refine exists_of_encode (some slot) [] [.number z] (s := some slot) hname ?_ ?_
      (.inr ⟨slot, rfl, rfl⟩) (absurd rfl) rfl ?_
    · simp only [encode, hkind, hoperands, integer_eq_ok_iff.2 hslot, integer_eq_ok_iff.2 hz]
      rfl
    · simp [Opcode.accessesLocal, hkind, Kind.accessesLocal]
    · simp [Opcode.hasTarget, hkind, Kind.hasTarget]
  | @implicit code hname hslot hoperands =>
    obtain ⟨slot, hslot⟩ := Option.ne_none_iff_exists'.1 hslot
    have hkind : code.kind = .load ∨ code.kind = .store := by
      by_contra hkind
      rw [not_or] at hkind
      cases (Opcode.implicitSlot_eq_none hkind.1 hkind.2).symm.trans hslot
    refine exists_of_encode none [] [] (s := code.implicitSlot) hname ?_ ?_ (.inl ⟨rfl, rfl⟩)
      (absurd rfl) rfl ?_
    all_goals rcases hkind with hkind | hkind
    all_goals simp [encode, hkind, hoperands, hslot, Opcode.accessesLocal, Kind.accessesLocal,
      Opcode.hasTarget, Kind.hasTarget]
  | @explicit code s slot hname hkind himplicit hoperands hslot =>
    have hinteger : integer .slot s = .ok (slot : Int) := integer_eq_ok_iff.2 hslot
    refine exists_of_encode (some slot) [] [] (s := some slot) hname ?_ ?_ (.inr ⟨slot, rfl, rfl⟩)
      (absurd rfl) rfl ?_
    all_goals rcases hkind with hkind | hkind | hkind
    all_goals simp [encode, hkind, hoperands, himplicit, hinteger, Opcode.accessesLocal,
      Kind.accessesLocal, Opcode.hasTarget, Kind.hasTarget, bind, Except.bind]
  | @other code hname hkind hoperands =>
    obtain ⟨as, has⟩ := exists_mapM_eq_ok fun a ha => exists_operand_iff.2 (hoperands a ha)
    have hnone : code.implicitSlot = none := by
      refine Opcode.implicitSlot_eq_none ?_ ?_ <;> grind
    refine exists_of_encode none [] as (s := none) hname ?_ ?_
      (.inl ⟨rfl, hnone.symm⟩) (absurd rfl) rfl ?_
    all_goals rcases hkind with hkind | hkind | hkind
    all_goals simp [encode, hkind, has, Opcode.accessesLocal, Kind.accessesLocal,
      Opcode.hasTarget, Kind.hasTarget, bind, Except.bind]

/-- A slot that is given is not negative. -/
private theorem exists_slot_of_make {slot : Int} {target : Option Int} {targets keys : List Int}
    {operands : List Operand} (h : make code (some slot) target targets keys operands = .ok i) :
    ∃ n : Nat, slot = n := by
  obtain ⟨-, -, -, -, -, hnone | ⟨n, hn, -⟩⟩ := make_eq_ok_iff.1 h
  · cases hnone.1
  · exact ⟨n, Option.some.inj hn⟩

/-- An instruction that is read makes sense on its own. -/
theorem exists_assembles_of_instruction (hls : LabelsOf is ls) (h : instruction ls o = .ok i) :
    ∃ zs, Assembles is o zs := by
  obtain ⟨code, hname, h⟩ := encode_of_instruction h
  rw [encode] at h
  split at h
  case h_1 hk | h_2 hk | h_3 hk =>
    split at h
    · next t hoperands =>
      obtain ⟨z, hz, -⟩ := bind_eq_ok_iff.1 h
      exact ⟨_, .jump hname (by simp [hk]) hoperands ((position_eq_ok_iff hls).1 hz)⟩
    · cases h
  case h_4 hk =>
    rw [switch] at h
    obtain ⟨cs, hcs, h⟩ := bind_eq_ok_iff.1 h
    rcases cases_of_foldlM hls hcs with
      ⟨hnone, -⟩ | ⟨-, before, d, after, z, zs, zs', hoperands, hd, hbefore, hafter⟩
    · rw [hnone] at h
      cases h
    · exact ⟨_, .switch hname hk hoperands hd hbefore hafter⟩
  case h_5 hk =>
    split at h
    · next s n hoperands =>
      obtain ⟨slot, hs, h⟩ := bind_eq_ok_iff.1 h
      obtain ⟨z, hz, h⟩ := bind_eq_ok_iff.1 h
      obtain ⟨slot, rfl⟩ := exists_slot_of_make h
      exact ⟨_, .increment hname hk hoperands (integer_eq_ok_iff.1 hs) (integer_eq_ok_iff.1 hz)⟩
    · cases h
  case h_6 hk | h_7 hk | h_8 hk =>
    split at h
    · next hslot hoperands => exact ⟨_, .implicit hname (by simp [hslot]) hoperands⟩
    · cases h
    · next s hslot hoperands =>
      obtain ⟨slot, hs, h⟩ := bind_eq_ok_iff.1 h
      obtain ⟨slot, rfl⟩ := exists_slot_of_make h
      exact ⟨_, .explicit hname (by simp [hk]) hslot hoperands (integer_eq_ok_iff.1 hs)⟩
    · cases h
  case h_9 hk | h_10 hk | h_11 hk =>
    obtain ⟨as, has, -⟩ := bind_eq_ok_iff.1 h
    refine ⟨_, .other hname (by simp [hk]) fun a ha => exists_operand_iff.1 ?_⟩
    obtain ⟨x, -, hx⟩ := exists_of_forall₂ (forall₂_of_mapM has).flip ha
    exact ⟨x, hx⟩

end Encoding

section Refusals

variable {code : Opcode} {o : Op} (r : Handler.Refusal)

theorem integer?_ne_refused (token : String) :
    integer? token ≠ some (.error (.handlerRefused r)) := by
  intro h
  obtain ⟨n, -, h⟩ := Option.map_eq_some_iff.1 h
  split at h <;> cases h

theorem integer_ne_refused (role : Role) (token : String) :
    integer role token ≠ .error (.handlerRefused r) := by
  intro h
  rw [integer] at h
  cases hinteger : integer? token with
  | none =>
    rw [hinteger] at h
    cases h
  | some x =>
    rw [hinteger] at h
    exact integer?_ne_refused r token (hinteger.trans (congrArg some h))

theorem operand_ne_refused (token : String) : operand token ≠ .error (.handlerRefused r) := by
  intro h
  rw [operand] at h
  cases hinteger : integer? token with
  | none =>
    rw [hinteger] at h
    cases h
  | some x =>
    rw [hinteger] at h
    cases x with
    | ok z => cases h
    | error e =>
      cases h
      exact integer?_ne_refused r token hinteger

theorem position_ne_refused (token : String) : position ls token ≠ .error (.handlerRefused r) := by
  intro h
  rcases position_error h with hlong | ⟨name, hname⟩
  · obtain ⟨count, hcount⟩ : ∃ count, position ls token = .error (.tooLong count) :=
      exists_position_of_overlong hlong
    cases h.symm.trans hcount
  · cases hname

theorem make_ne_refused (slot target : Option Int) (targets keys : List Int)
    (operands : List Operand) :
    make code slot target targets keys operands ≠ .error (.handlerRefused r) := by
  rw [make]
  cases Instruction.make code slot (target.map Target.position) (targets.map Target.position) keys
    operands <;> exact nofun

theorem add_ne_refused (cs : Cases) (a : String) : cs.add ls a ≠ .error (.handlerRefused r) := by
  rw [Cases.add]
  split
  · split
    · split
      · intro h
        cases h
      · exact bind_ne_error (position_ne_refused r _) fun _ => ok_ne_error
    · exact bind_ne_error (integer_ne_refused r _ _) fun _ =>
        bind_ne_error (position_ne_refused r _) fun _ => ok_ne_error
  · intro h
    cases h

/-- No instruction is blamed for a handler. -/
theorem encode_ne_refused : encode ls code o ≠ .error (.handlerRefused r) := by
  rw [encode]
  split
  case h_1 | h_2 | h_3 =>
    split
    · exact bind_ne_error (position_ne_refused r _) fun _ => make_ne_refused r _ _ _ _ _
    · intro h
      cases h
  case h_4 =>
    refine bind_ne_error (foldlM_ne_error (add_ne_refused r) _) fun cs => ?_
    split
    · exact make_ne_refused r _ _ _ _ _
    · intro h
      cases h
  case h_5 =>
    split
    · exact bind_ne_error (integer_ne_refused r _ _) fun _ =>
        bind_ne_error (integer_ne_refused r _ _) fun _ => make_ne_refused r _ _ _ _ _
    · intro h
      cases h
  case h_6 | h_7 | h_8 =>
    split
    · exact make_ne_refused r _ _ _ _ _
    · intro h
      cases h
    · exact bind_ne_error (integer_ne_refused r _ _) fun _ => make_ne_refused r _ _ _ _ _
    · intro h
      cases h
  case h_9 | h_10 | h_11 =>
    exact bind_ne_error (mapM_ne_error (operand_ne_refused r)) fun _ => make_ne_refused r _ _ _ _ _

end Refusals

/-- An instruction that is not read is to blame itself. -/
theorem instruction_error {o : Op} {f : Failure} (h : instruction ls o = .error f) :
    ∃ cause, f = .atLine o.line cause ∧ ∀ r, cause ≠ .handlerRefused r := by
  rw [instruction] at h
  split at h
  · cases h
    exact ⟨_, rfl, fun r h => by cases h⟩
  · next code _ =>
    cases hencode : encode ls code o with
    | ok i =>
      rw [hencode] at h
      cases h
    | error cause =>
      rw [hencode] at h
      cases h
      exact ⟨cause, rfl, fun r hr => encode_ne_refused r (hr ▸ hencode)⟩

/-! ### Targets -/

/-- A position of a listing with `n` instructions. -/
def InRange (n : Nat) (z : Int) : Prop :=
  0 ≤ z ∧ z < n

section Bodies

variable {os : List Op} {o : Op} {zs : List Int}

theorem instructionError?_eq_none_iff {i : Instruction Target} (h : HasTargets i zs)
    (n owner : Nat) :
    Body.instructionError? n owner i = none ↔ ∀ z ∈ zs, InRange n z := by
  rw [Body.instructionError?]
  cases zs with
  | nil =>
    have hjump : ¬i.opcode.hasTarget = true := fun hjump => h.jumps.1 hjump rfl
    rw [if_neg hjump]
    simp
  | cons z zs =>
    have hone (p : Int) : Body.targetError? n owner i.opcode (.position p) = none ↔
        InRange n p := by
      simp [Body.targetError?, InRange]
    rw [if_pos (h.jumps.2 (List.cons_ne_nil z zs)), h.target, h.cases]
    change (((z :: zs).map Target.position).findSome? _) = none ↔ _
    rw [List.findSome?_eq_none_iff, List.forall_mem_map]
    exact forall₂_congr fun p _ => hone p

theorem exists_instruction (hls : LabelsOf is ls) (h : ∃ zs, Assembles is o zs) :
    ∃ i, instruction ls o = .ok i := by
  obtain ⟨zs, hzs⟩ := h
  obtain ⟨i, hi, -⟩ := exists_instruction_of_assembles hls hzs
  exact ⟨i, hi⟩

/-- Instructions that make sense on their own, with targets in the listing, make a body. -/
theorem exists_body_of_inRange (hls : LabelsOf is ls) (stamp : Nat)
    (h : ∀ o ∈ os, ∃ zs, Assembles is o zs ∧ ∀ z ∈ zs, InRange os.length z) :
    ∃ b, body stamp ls os = .ok b ∧ b.size = os.length := by
  have hsense (o : Op) (ho : o ∈ os) : ∃ zs, Assembles is o zs := (h o ho).imp fun _ => And.left
  obtain ⟨js, hjs⟩ := exists_mapM_eq_ok fun o ho => exists_instruction hls (hsense o ho)
  have hread := forall₂_of_mapM hjs
  have hlink : Body.linkError? js = none := by
    refine List.findSome?_eq_none_iff.2 ?_
    rintro ⟨j, owner⟩ hj
    obtain ⟨o, ho, hoj⟩ := exists_of_forall₂ hread (List.fst_mem_of_mem_zipIdx hj)
    obtain ⟨zs, hzs, hin⟩ := h o ho
    obtain ⟨i, hi, htargets⟩ := exists_instruction_of_assembles hls hzs
    obtain rfl : i = j := Except.ok.inj (hi.symm.trans hoj)
    rw [← hread.length_eq]
    exact (instructionError?_eq_none_iff htargets _ _).2 hin
  obtain ⟨b, hb, hcode⟩ := Body.exists_ofInstructions hlink stamp
  refine ⟨b, ?_, ?_⟩
  · rw [body, hjs]
    exact mapError_eq_ok_iff.2 hb
  · rw [Body.size, hcode, hread.length_eq]
    simp

/-- Instructions that make sense on their own make no body if a target is not in the listing. -/
theorem body_of_outside (hls : LabelsOf is ls) (stamp : Nat)
    (h : ∀ o ∈ os, ∃ zs, Assembles is o zs) (ho : o ∈ os) (hzs : Assembles is o zs) (hz : z ∈ zs)
    (hout : ¬InRange os.length z) :
    ∃ e, body stamp ls os = .error (.overall (.unlinked e)) := by
  obtain ⟨js, hjs⟩ := exists_mapM_eq_ok fun o ho => exists_instruction hls (h o ho)
  have hread := forall₂_of_mapM hjs
  obtain ⟨i, hi, htargets⟩ := exists_instruction_of_assembles hls hzs
  obtain ⟨j, hj, hoj⟩ := exists_of_forall₂ hread.flip ho
  obtain rfl : i = j := Except.ok.inj (hi.symm.trans hoj)
  obtain ⟨owner, howner⟩ := List.mem_iff_getElem?.1 hj
  have hmem : (i, owner) ∈ js.zipIdx := List.mem_zipIdx_iff_getElem?.2 howner
  have hlink : Body.linkError? js ≠ none := by
    intro hnone
    have hi := List.findSome?_eq_none_iff.1 hnone _ hmem
    rw [← hread.length_eq] at hi
    exact hout ((instructionError?_eq_none_iff htargets _ _).1 hi z hz)
  obtain ⟨e, he⟩ := Option.ne_none_iff_exists'.1 hlink
  refine ⟨e, ?_⟩
  rw [body, hjs]
  change (Body.ofInstructions stamp js).mapError _ = _
  rw [Body.ofInstructions]
  split
  · next e' he' =>
    obtain rfl : e = e' := Option.some.inj (he.symm.trans he')
    rfl
  · next hnone => cases he.symm.trans hnone

/-- The first instruction that makes no sense on its own is to blame. -/
theorem body_of_senseless (hls : LabelsOf is ls) (stamp : Nat) {before after : List Op}
    (hbefore : ∀ o ∈ before, ∃ zs, Assembles is o zs) (ho : ¬∃ zs, Assembles is o zs) :
    ∃ cause, body stamp ls (before ++ o :: after) = .error (.atLine o.line cause) ∧
      ∀ r, cause ≠ .handlerRefused r := by
  cases hi : instruction ls o with
  | ok i => exact absurd (exists_assembles_of_instruction hls hi) ho
  | error f =>
    obtain ⟨cause, rfl, hcause⟩ := instruction_error hi
    refine ⟨cause, ?_, hcause⟩
    rw [body, mapM_eq_error (fun o ho => exists_instruction hls (hbefore o ho)) hi]
    rfl

end Bodies

end BytecodeRegions.Listing
