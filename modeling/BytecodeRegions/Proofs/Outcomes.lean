import Mathlib.Data.List.Forall2

/-!
# Outcomes of steps

Operations that may fail are put together from steps. What is known of each step that succeeds gives
what is known of the whole, and the other way round.

## Main results

* `bind_eq_ok_iff`, `bind_eq_error_iff`: one step after another.
* `mapM_eq_ok`, `mapM_eq_error`, `forall₂_of_mapM`, `mapM_of_forall₂`, `exists_mapM_eq_ok`: one step
  for each of a list.
* `foldlM_invariant`: what every step keeps is kept.
* `bind_ne_error`, `foldlM_ne_error`, `mapM_ne_error`: what no step fails with, the whole does not
  fail with.
-/

namespace BytecodeRegions

variable {α β σ ε ε' : Type}

theorem bind_eq_ok_iff {x : Except ε α} {k : α → Except ε β} {b : β} :
    (x >>= k) = .ok b ↔ ∃ a, x = .ok a ∧ k a = .ok b := by
  cases x with
  | error e => exact iff_of_false nofun fun ⟨a, ha, _⟩ => nomatch ha
  | ok a => exact ⟨fun h => ⟨a, rfl, h⟩, fun ⟨a', ha', h⟩ => Except.ok.inj ha' ▸ h⟩

theorem bind_eq_error_iff {x : Except ε α} {k : α → Except ε β} {e : ε} :
    (x >>= k) = .error e ↔ x = .error e ∨ ∃ a, x = .ok a ∧ k a = .error e := by
  cases x with
  | error e' =>
    refine ⟨fun h => .inl (congrArg _ (Except.error.inj h)), ?_⟩
    rintro (h | ⟨a, ha, -⟩)
    · exact congrArg _ (Except.error.inj h)
    · cases ha
  | ok a =>
    refine ⟨fun h => .inr ⟨a, rfl, h⟩, ?_⟩
    rintro (h | ⟨a', ha', h⟩)
    · cases h
    · exact Except.ok.inj ha' ▸ h

theorem ok_ne_error {a : α} {e : ε} : (.ok a : Except ε α) ≠ .error e :=
  nofun

theorem bind_ne_error {x : Except ε α} {k : α → Except ε β} {e : ε} (hx : x ≠ .error e)
    (hk : ∀ a, k a ≠ .error e) : (x >>= k) ≠ .error e := by
  intro h
  rcases bind_eq_error_iff.1 h with h | ⟨a, -, h⟩
  · exact hx h
  · exact hk a h

theorem mapError_eq_ok_iff {x : Except ε α} {f : ε → ε'} {a : α} :
    x.mapError f = .ok a ↔ x = .ok a := by
  cases x with
  | error e => exact iff_of_false nofun nofun
  | ok b => exact ⟨fun h => congrArg _ (Except.ok.inj h), fun h => congrArg _ (Except.ok.inj h)⟩

theorem mapError_eq_error_iff {x : Except ε α} {f : ε → ε'} {e' : ε'} :
    x.mapError f = .error e' ↔ ∃ e, x = .error e ∧ f e = e' := by
  cases x with
  | error e =>
    refine ⟨fun h => ⟨e, rfl, Except.error.inj h⟩, ?_⟩
    rintro ⟨e, h, rfl⟩
    exact congrArg (Except.mapError f) h
  | ok a =>
    refine iff_of_false nofun ?_
    rintro ⟨e, h, -⟩
    cases h

theorem exists_of_any {x : Except ε α} {p : α → Bool} (h : x.toOption.any p = true) :
    ∃ a, x = .ok a ∧ p a = true := by
  cases x with
  | error e => cases h
  | ok a => exact ⟨a, rfl, h⟩

section Lists

variable {f : α → Except ε β} {g : α → β} {l front back : List α} {a : α} {e : ε}

theorem mapM_eq_ok (h : ∀ a ∈ l, f a = .ok (g a)) : l.mapM f = .ok (l.map g) := by
  induction l with
  | nil => rfl
  | cons a l ih =>
    rw [List.mapM_cons, h a List.mem_cons_self, ih fun b hb => h b (List.mem_cons_of_mem a hb)]
    rfl

theorem forall₂_of_mapM {bs : List β} (h : l.mapM f = .ok bs) :
    List.Forall₂ (fun a b => f a = .ok b) l bs := by
  induction l generalizing bs with
  | nil =>
    cases h
    exact .nil
  | cons a l ih =>
    rw [List.mapM_cons] at h
    obtain ⟨b, hb, h⟩ := bind_eq_ok_iff.1 h
    obtain ⟨bs, hbs, h⟩ := bind_eq_ok_iff.1 h
    cases h
    exact .cons hb (ih hbs)

theorem mapM_of_forall₂ {bs : List β} (h : List.Forall₂ (fun a b => f a = .ok b) l bs) :
    l.mapM f = .ok bs := by
  induction h with
  | nil => rfl
  | cons hfirst _ ih =>
    rw [List.mapM_cons, hfirst, ih]
    rfl

theorem exists_mapM_eq_ok (h : ∀ a ∈ l, ∃ b, f a = .ok b) : ∃ bs, l.mapM f = .ok bs := by
  induction l with
  | nil => exact ⟨[], rfl⟩
  | cons a l ih =>
    obtain ⟨⟨b, hb⟩, hl⟩ := List.forall_mem_cons.1 h
    obtain ⟨bs, hbs⟩ := ih hl
    exact ⟨b :: bs, mapM_of_forall₂ (.cons hb (forall₂_of_mapM hbs))⟩

/-- The first failure of a list is that of the list. -/
theorem mapM_eq_error (hfront : ∀ a ∈ front, ∃ b, f a = .ok b) (ha : f a = .error e) :
    (front ++ a :: back).mapM f = .error e := by
  obtain ⟨bs, hbs⟩ := exists_mapM_eq_ok hfront
  rw [List.mapM_append, hbs]
  change (a :: back).mapM f >>= _ = _
  rw [List.mapM_cons, ha]
  rfl

theorem exists_of_forall₂ {R : α → β → Prop} {bs : List β} {b : β} (h : List.Forall₂ R l bs)
    (hb : b ∈ bs) : ∃ a ∈ l, R a b := by
  induction h with
  | nil => cases hb
  | cons hfirst _ ih =>
    rcases List.mem_cons.1 hb with rfl | hb
    · exact ⟨_, List.mem_cons_self, hfirst⟩
    · obtain ⟨a, ha, hab⟩ := ih hb
      exact ⟨a, List.mem_cons_of_mem _ ha, hab⟩

theorem exists_getLast?_of_forall₂ {R : α → β → Prop} {bs : List β} {b : β}
    (h : List.Forall₂ R l bs) (hb : bs.getLast? = some b) : ∃ a, l.getLast? = some a ∧ R a b := by
  rw [← List.forall₂_reverse_iff] at h
  rw [List.getLast?_eq_head?_reverse] at hb
  obtain ⟨bs', hbs'⟩ := List.head?_eq_some_iff.1 hb
  rw [hbs', List.forall₂_cons_right_iff] at h
  obtain ⟨a, as, hab, -, has⟩ := h
  exact ⟨a, by rw [List.getLast?_eq_head?_reverse, has, List.head?_cons], hab⟩

/-- What every step over a list keeps, the whole keeps. -/
theorem foldlM_invariant {step : σ → α → Except ε σ} {P : σ → Prop}
    (hstep : ∀ a ∈ l, ∀ s s', P s → step s a = .ok s' → P s') {s s' : σ} (hs : P s)
    (h : l.foldlM step s = .ok s') : P s' := by
  induction l generalizing s with
  | nil =>
    cases h
    exact hs
  | cons a l ih =>
    rw [List.foldlM_cons] at h
    obtain ⟨t, ht, h⟩ := bind_eq_ok_iff.1 h
    exact ih (fun b hb => hstep b (List.mem_cons_of_mem a hb))
      (hstep a List.mem_cons_self s t hs ht) h

/-- What no step fails with, the whole does not fail with. -/
theorem foldlM_ne_error {step : σ → α → Except ε σ} (hstep : ∀ s a, step s a ≠ .error e) (s : σ) :
    l.foldlM step s ≠ .error e := by
  induction l generalizing s with
  | nil => exact ok_ne_error
  | cons a l ih => exact bind_ne_error (hstep s a) ih

theorem mapM_ne_error (hf : ∀ a, f a ≠ .error e) : l.mapM f ≠ .error e := by
  induction l with
  | nil => exact ok_ne_error
  | cons a l ih =>
    rw [List.mapM_cons]
    exact bind_ne_error (hf a) fun b => bind_ne_error ih fun _ => ok_ne_error

/-- Either all of a list have a property, or there is a first one that has not. -/
theorem forall_or_first (P : α → Prop) (l : List α) : (∀ a ∈ l, P a) ∨
    ∃ front a back, l = front ++ a :: back ∧ (∀ b ∈ front, P b) ∧ ¬P a := by
  induction l with
  | nil => exact .inl nofun
  | cons a l ih =>
    by_cases ha : P a
    · rcases ih with hall | ⟨front, b, back, rfl, hfront, hb⟩
      · exact .inl (List.forall_mem_cons.2 ⟨ha, hall⟩)
      · exact .inr ⟨a :: front, b, back, rfl, List.forall_mem_cons.2 ⟨ha, hfront⟩, hb⟩
    · exact .inr ⟨[], a, l, rfl, nofun, ha⟩

end Lists

end BytecodeRegions
