import CertKeeper.Error
import Mathlib.Data.List.Perm.Basic

/-!
# Results

A sequence of computations that may fail has a result if each of them has one. `FailsWith` says for which
causes a computation may fail.
-/

namespace CertKeeper

variable {ε ε' α β : Type}

theorem ok_bind (a : α) (f : α → Except ε β) :
  Except.ok a >>= f = f a
  := rfl

theorem bind_eq_ok {x : Except ε α} {f : α → Except ε β} {b : β} :
  x >>= f = .ok b ↔ ∃ a, x = .ok a ∧ f a = .ok b
  := by
  cases x with
  | error e =>
    constructor
    · intro h
      cases h
    · rintro ⟨a, h, -⟩
      cases h
  | ok a =>
    constructor
    · intro h
      exact ⟨a, rfl, h⟩
    · rintro ⟨a', h, h'⟩
      cases h
      apply h'

theorem mapError_eq_ok {f : ε → ε'} {x : Except ε α} {a : α} :
  x.mapError f = .ok a ↔ x = .ok a
  := by
  cases x with
  | error e =>
    constructor
    · intro h
      cases h
    · intro h
      cases h
  | ok a' =>
    constructor
    · intro h
      cases h
      rfl
    · intro h
      cases h
      rfl

theorem forM_eq_ok {l : List α} {f : α → Except ε Unit} :
  l.forM f = .ok () ↔ ∀ a ∈ l, f a = .ok ()
  := by
  induction l with
  | nil =>
    simp only [List.not_mem_nil, false_imp_iff, implies_true, iff_true]
    rfl
  | cons a l ih =>
    rw [List.forall_mem_cons, ← ih]
    apply bind_eq_ok.trans
    constructor
    · rintro ⟨_, ha, hl⟩
      exact ⟨ha, hl⟩
    · rintro ⟨ha, hl⟩
      exact ⟨(), ha, hl⟩

/-- What is made of a list is made of its members one by one. -/
theorem forall₂_of_mapM {l : List α} {f : α → Except ε β} {r : List β} (h : l.mapM f = .ok r) :
  List.Forall₂ (fun a b => f a = .ok b) l r
  := by
  induction l generalizing r with
  | nil =>
    cases h
    apply List.Forall₂.nil
  | cons a l ih =>
    rw [List.mapM_cons, bind_eq_ok] at h
    obtain ⟨b, ha, h⟩ := h
    obtain ⟨bs, hl, h⟩ := bind_eq_ok.mp h
    cases h
    exact .cons ha (ih hl)

/-- What is made of a list comes from its members, and something comes from each of them. -/
theorem mapM_eq_ok {l : List α} {f : α → Except ε β} {r : List β} (h : l.mapM f = .ok r) :
  (∀ b ∈ r, ∃ a ∈ l, f a = .ok b) ∧ ∀ a ∈ l, ∃ b ∈ r, f a = .ok b
  := by
  have hall := forall₂_of_mapM h
  clear h
  induction hall with
  | nil => simp
  | cons ha _ ih =>
    simp only [List.mem_cons, exists_eq_or_imp, forall_eq_or_imp]
    refine ⟨⟨.inl ha, ?_⟩, .inl ha, ?_⟩
    · intro b hb
      exact .inr (ih.1 b hb)
    · intro a ha
      exact .inr (ih.2 a ha)

/-- Something is made of a list if it is made of each of its members. -/
theorem exists_mapM {l : List α} {f : α → Except ε β} (h : ∀ a ∈ l, ∃ b, f a = .ok b) :
  ∃ r, l.mapM f = .ok r
  := by
  induction l with
  | nil => exact ⟨[], rfl⟩
  | cons a l ih =>
    obtain ⟨b, hb⟩ := h a List.mem_cons_self
    obtain ⟨r, hr⟩ := ih (fun a' ha' => h a' (List.mem_cons_of_mem _ ha'))
    refine ⟨b :: r, ?_⟩
    rw [List.mapM_cons]
    apply bind_eq_ok.mpr
    refine ⟨b, hb, bind_eq_ok.mpr ⟨r, hr, rfl⟩⟩

/-- What is made of the members of a list one by one is made of the list. -/
theorem mapM_of_forall₂ {l : List α} {f : α → Except ε β} {r : List β}
    (h : List.Forall₂ (fun a b => f a = .ok b) l r) :
  l.mapM f = .ok r
  := by
  induction h with
  | nil => rfl
  | cons ha _ ih =>
    rw [List.mapM_cons, ha, ih]
    rfl

/-- What is made of a list is made of its members in any order. -/
theorem exists_mapM_of_perm {l l' : List α} (hperm : l.Perm l') {f : α → Except ε β} {r : List β}
    (h : l.mapM f = .ok r) :
  ∃ r', l'.mapM f = .ok r' ∧ r.Perm r'
  := by
  obtain ⟨r', hall, hr⟩ := List.perm_comp_forall₂ hperm.symm (forall₂_of_mapM h)
  exact ⟨r', mapM_of_forall₂ hall, hr.symm⟩

/-! ### Causes -/

/-- A computation that fails does so for such a cause. -/
def FailsWith (cause : ε → Prop) (x : Except ε α) : Prop := ∀ e, x = .error e → cause e

theorem failsWith_ok {cause : ε → Prop} (a : α) :
  FailsWith cause (.ok a)
  := by
  intro e h
  cases h

theorem failsWith_error {cause : ε → Prop} {e : ε} (he : cause e) :
  FailsWith cause (.error e : Except ε α)
  := by
  intro e' h
  cases h
  apply he

theorem FailsWith.bind {cause : ε → Prop} {x : Except ε α} {f : α → Except ε β}
    (hx : FailsWith cause x) (hf : ∀ a, FailsWith cause (f a)) :
  FailsWith cause (x >>= f)
  := by
  cases x with
  | error e => apply failsWith_error (hx e rfl)
  | ok a => apply hf a

theorem FailsWith.mapError {cause : ε → Prop} {cause' : ε' → Prop} {x : Except ε α} (hx : FailsWith cause x)
    {f : ε → ε'} (hf : ∀ e, cause e → cause' (f e)) :
  FailsWith cause' (x.mapError f)
  := by
  cases x with
  | error e => exact failsWith_error (hf e (hx e rfl))
  | ok a => apply failsWith_ok

end CertKeeper
