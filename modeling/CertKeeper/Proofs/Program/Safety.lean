import CertKeeper.Program

/-!
# Safety of programs

The `Surroundings` of a program say how each operation may be answered, and in which state
that may leave them. `Program.Safe` says that a program keeps an invariant and ends in its
postcondition however it is answered. It goes through sequencing (`safe_bind`) and over to
surroundings that are simulated (`Safe.simulate`), and for surroundings that leave no choice it
speaks of `Program.run` (`Safe.run`). `Program.AtMost` says which operations a program asks for, and how
often at most. Such a program has to be safe in surroundings that answer these (`Safe.refine`).

`Program.Met` collects what is met while programs of a kind are begun over and over, each
at any time after the one before. An invariant that every such program keeps holds
throughout (`Met.keeps`). `Program.Yields` says what a program may come to when it is carried out
to its end.
-/

namespace CertKeeper

/-- How an operation may be answered, and in which state that may leave the surroundings. -/
abbrev Surroundings {Op : Type} (Answer : Op → Type) (σ : Type) :=
  σ → (op : Op) → Answer op → σ → Prop

namespace Program

variable {Op : Type} {Answer : Op → Type} {α β σ : Type}
variable {step : Surroundings Answer σ} {keep : σ → Prop}

/-- However it is answered, the program is in a state with `keep` after each operation, and
ends with `post`. -/
def Safe (step : Surroundings Answer σ) (keep : σ → Prop) :
    Program Answer α → (α → σ → Prop) → σ → Prop
  | done a, post, s => post a s
  | ask op next, post, s =>
    ∀ answer s', step s op answer s' → keep s' ∧ (next answer).Safe step keep post s'

@[simp]
theorem safe_done (a : α) (post : α → σ → Prop) (s : σ) :
  (done a : Program Answer α).Safe step keep post s ↔ post a s
  := Iff.rfl

/-- A sequence is safe if its first part is, with the safety of the second part as the
postcondition. -/
theorem safe_bind (p : Program Answer α) (f : α → Program Answer β) (post : β → σ → Prop) (s : σ) :
  (p.bind f).Safe step keep post s
    ↔ p.Safe step keep (fun a s' => (f a).Safe step keep post s') s
  := by
  induction p generalizing s with
  | done a => rfl
  | ask op next ih => simp only [ask_bind, Safe, ih]

/-- A postcondition may be weakened in the states that come later than the first one. -/
theorem Safe.imp (later : σ → σ → Prop) (refl : ∀ s, later s s)
    (trans : ∀ {s₁ s₂ s₃}, later s₁ s₂ → later s₂ s₃ → later s₁ s₃)
    (step_later : ∀ {s op answer s'}, step s op answer s' → later s s')
    {p : Program Answer α} {post post' : α → σ → Prop} {s : σ} (h : p.Safe step keep post s)
    (hpost : ∀ a s', later s s' → post a s' → post' a s') :
  p.Safe step keep post' s
  := by
  induction p generalizing s with
  | done a => apply hpost a s (refl s) h
  | ask op next ih =>
    intro answer s' hs
    obtain ⟨hkeep, hnext⟩ := h answer s' hs
    constructor
    · apply hkeep
    · apply ih answer hnext
      intro a s'' hlater
      apply hpost a s'' (trans (step_later hs) hlater)

/-- A postcondition may be weakened. -/
theorem Safe.mono {p : Program Answer α} {post post' : α → σ → Prop} {s : σ}
    (h : p.Safe step keep post s) (hpost : ∀ a s', post a s' → post' a s') :
  p.Safe step keep post' s
  := by
  apply Safe.imp (fun _ _ => True) (fun _ => trivial) (fun _ _ => trivial)
    (fun _ => trivial) h
  intro a s' _
  apply hpost

/-- An invariant may be weakened. -/
theorem Safe.keep_mono {keep' : σ → Prop} {p : Program Answer α} {post : α → σ → Prop} {s : σ}
    (h : p.Safe step keep post s) (hkeep : ∀ s', keep s' → keep' s') :
  p.Safe step keep' post s
  := by
  induction p generalizing s with
  | done a => apply h
  | ask op next ih =>
    intro answer s' hstep
    obtain ⟨hs', hnext⟩ := h answer s' hstep
    exact ⟨hkeep s' hs', ih answer hnext⟩

/-- An invariant that holds at the beginning holds at the end. -/
theorem Safe.keeps {p : Program Answer α} {post : α → σ → Prop} {s : σ}
    (h : p.Safe step keep post s) (hs : keep s) :
  p.Safe step keep (fun a s' => keep s' ∧ post a s') s
  := by
  induction p generalizing s with
  | done a => exact ⟨hs, h⟩
  | ask op next ih =>
    intro answer s' hstep
    obtain ⟨hkeep, hnext⟩ := h answer s' hstep
    constructor
    · apply hkeep
    · apply ih answer hnext hkeep

/-- A program ends with both of two things that it is known to end with. -/
theorem Safe.and {keep' : σ → Prop} {p : Program Answer α} {post post' : α → σ → Prop} {s : σ}
    (h : p.Safe step keep post s) (h' : p.Safe step keep' post' s) :
  p.Safe step keep (fun a s' => post a s' ∧ post' a s') s
  := by
  induction p generalizing s with
  | done a => exact ⟨h, h'⟩
  | ask op next ih =>
    intro answer s' hstep
    obtain ⟨hkeep, hnext⟩ := h answer s' hstep
    obtain ⟨-, hnext'⟩ := h' answer s' hstep
    exact ⟨hkeep, ih answer hnext hnext'⟩

/-- Every program keeps what all steps keep. -/
theorem safe_of_step (hstep : ∀ {s op answer s'}, keep s → step s op answer s' → keep s')
    (p : Program Answer α) {s : σ} (hs : keep s) :
  p.Safe step keep (fun _ s' => keep s') s
  := by
  induction p generalizing s with
  | done a => apply hs
  | ask op next ih =>
    intro answer s' hanswer
    exact ⟨hstep hs hanswer, ih answer (hstep hs hanswer)⟩

/-- A program that is safe in surroundings is safe in others of which each step can be followed by
one of them. -/
theorem Safe.simulate {τ : Type} {step' : Surroundings Answer τ} {follows : σ → τ → Prop}
    (hstep : ∀ {s t op answer t'}, keep s → follows s t → step' t op answer t' →
      ∃ s', step s op answer s' ∧ follows s' t')
    {p : Program Answer α} {post : α → σ → Prop} {s : σ} {t : τ} (hs : keep s) (ht : follows s t)
    (h : p.Safe step keep post s) :
  p.Safe step' (fun _ => True) (fun a t' => ∃ s', keep s' ∧ follows s' t' ∧ post a s') t
  := by
  induction p generalizing s t with
  | done a => exact ⟨s, hs, ht, h⟩
  | ask op next ih =>
    intro answer t' hanswer
    obtain ⟨s', hs', ht'⟩ := hstep hs ht hanswer
    obtain ⟨hkeep, hnext⟩ := h answer s' hs'
    exact ⟨trivial, ih answer hkeep ht' hnext⟩

/-- The surroundings that answer as `handle` does. -/
def handled (handle : (op : Op) → σ → Answer op × σ) : Surroundings Answer σ :=
  fun s op answer s' => handle op s = (answer, s')

/-- In surroundings that leave no choice, a safe program ends with its postcondition. -/
theorem Safe.run {handle : (op : Op) → σ → Answer op × σ} {p : Program Answer α}
    {post : α → σ → Prop} {s : σ} (h : p.Safe (handled handle) keep post s) :
  post (p.run handle s).1 (p.run handle s).2
  := by
  induction p generalizing s with
  | done a => apply h
  | ask op next ih =>
    obtain ⟨-, hnext⟩ := h _ _ rfl
    apply ih _ hnext

/-- A program is safe if its only run ends with the postcondition. -/
theorem safe_of_run {handle : (op : Op) → σ → Answer op × σ} {p : Program Answer α}
    {post : α → σ → Prop} {s : σ} (h : post (p.run handle s).1 (p.run handle s).2) :
  p.Safe (handled handle) (fun _ => True) post s
  := by
  induction p generalizing s with
  | done a => apply h
  | ask op next ih =>
    intro answer s' hs
    rw [run, show handle op s = (answer, s') from hs] at h
    exact ⟨trivial, ih answer h⟩

/-! ### Programs that ask for some operations only -/

/-- Whatever it is told, the program asks for allowed operations only, and at most a number of times for
counted ones. -/
inductive AtMost (allowed counted : Op → Prop) : Nat → Program Answer α → Prop where
  | done {n : Nat} {a : α} : AtMost allowed counted n (done a)
  | free {n : Nat} {op : Op} {next : Answer op → Program Answer α} : allowed op → ¬ counted op →
      (∀ answer, AtMost allowed counted n (next answer)) → AtMost allowed counted n (ask op next)
  | counted {n : Nat} {op : Op} {next : Answer op → Program Answer α} : allowed op →
      (∀ answer, AtMost allowed counted n (next answer)) → AtMost allowed counted (n + 1) (ask op next)

namespace AtMost

variable {allowed allowed' counted : Op → Prop} {m n : Nat} {p : Program Answer α}

/-- More may be allowed. -/
theorem weaken (h : p.AtMost allowed counted n) (hallowed : ∀ op, allowed op → allowed' op) :
  p.AtMost allowed' counted n
  := by
  induction h with
  | done => exact .done
  | free hop hfree _ ih => exact .free (hallowed _ hop) hfree ih
  | counted hop _ ih => exact .counted (hallowed _ hop) ih

theorem add (h : p.AtMost allowed counted n) (m : Nat) :
  p.AtMost allowed counted (n + m)
  := by
  induction h with
  | done => exact .done
  | free hop hfree _ ih => exact .free hop hfree ih
  | @counted n op next hop _ ih =>
    rw [Nat.add_right_comm]
    exact .counted hop ih

/-- The operations of a sequence are those of its parts. -/
theorem bind {f : α → Program Answer β} (hp : p.AtMost allowed counted m)
    (hf : ∀ a, (f a).AtMost allowed counted n) :
  (p.bind f).AtMost allowed counted (n + m)
  := by
  induction hp with
  | done => exact (hf _).add _
  | free hop hfree _ ih => exact .free hop hfree ih
  | counted hop _ ih => exact .counted hop ih

/-- A number that only counted operations raise, by one each, is raised by no more than the number of
these. -/
theorem run_le {handle : (op : Op) → σ → Answer op × σ} {number : σ → Nat}
    (hfree : ∀ op s, ¬ counted op → number (handle op s).2 = number s)
    (hcounted : ∀ op s, number s ≤ number (handle op s).2 ∧ number (handle op s).2 ≤ number s + 1)
    (h : p.AtMost allowed counted n) (s : σ) :
  number s ≤ number (p.run handle s).2 ∧ number (p.run handle s).2 ≤ number s + n
  := by
  induction h generalizing s with
  | done => exact ⟨Nat.le_refl _, Nat.le_add_right _ _⟩
  | @free n op next _ hop _ ih =>
    have hnext := ih (handle op s).1 (handle op s).2
    rw [hfree op s hop] at hnext
    apply hnext
  | @counted n op next _ _ ih =>
    have hnext := ih (handle op s).1 (handle op s).2
    have hstep := hcounted op s
    simp only [run]
    omega

end AtMost

/-- A program is safe in surroundings that answer its operations like some in which it is safe, and
keeps what these answers keep. -/
theorem Safe.refine {step' : Surroundings Answer σ} {keep' : σ → Prop} {allowed counted : Op → Prop}
    {n : Nat}
    (hstep : ∀ {s op answer s'}, allowed op → keep' s → step' s op answer s' →
      step s op answer s' ∧ keep' s')
    {p : Program Answer α} {post : α → σ → Prop} {s : σ} (hp : p.AtMost allowed counted n)
    (hs : keep' s) (h : p.Safe step keep post s) :
  p.Safe step' (fun s' => keep s' ∧ keep' s') post s
  := by
  induction hp generalizing s with
  | done => apply h
  | free hop _ _ ih =>
    intro answer s' hanswer
    obtain ⟨hanswer', hs'⟩ := hstep hop hs hanswer
    obtain ⟨hkeep, hnext⟩ := h answer s' hanswer'
    exact ⟨⟨hkeep, hs'⟩, ih answer hs' hnext⟩
  | counted hop _ ih =>
    intro answer s' hanswer
    obtain ⟨hanswer', hs'⟩ := hstep hop hs hanswer
    obtain ⟨hkeep, hnext⟩ := h answer s' hanswer'
    exact ⟨⟨hkeep, hs'⟩, ih answer hs' hnext⟩

/-! ### Programs that are begun over and over -/

/-- What is left of a program, and the state, while programs of a kind are begun over and
over from a first state. A program may be left before it has ended. -/
inductive Met (step : Surroundings Answer σ) (begun : Program Answer α → Prop) (first : σ) :
    Program Answer α → σ → Prop where
  | start {p : Program Answer α} : begun p → Met step begun first p first
  | answered {op : Op} {next : Answer op → Program Answer α} {s s' : σ} {answer : Answer op} :
    Met step begun first (ask op next) s → step s op answer s' →
      Met step begun first (next answer) s'
  | again {p q : Program Answer α} {s : σ} :
    Met step begun first p s → begun q → Met step begun first q s

/-- An invariant of the first state that every program keeps holds throughout. -/
theorem Met.keeps {begun : Program Answer α → Prop} {first s : σ} {p : Program Answer α}
    (h : Met step begun first p s) (hfirst : keep first)
    (hsafe : ∀ p s, begun p → keep s → p.Safe step keep (fun _ _ => True) s) :
  keep s
  := by
  have key : keep s ∧ p.Safe step keep (fun _ _ => True) s := by
    induction h with
    | start hp => exact ⟨hfirst, hsafe _ _ hp hfirst⟩
    | answered _ hs ih => apply ih.2 _ _ hs
    | again _ hq ih => exact ⟨ih.1, hsafe _ _ hq ih.1⟩
  apply key.1

/-! ### Programs that are carried out to their end -/

/-- A program may end with a result in a state. -/
inductive Yields (step : Surroundings Answer σ) : Program Answer α → σ → α → σ → Prop where
  | done {a : α} {s : σ} : Yields step (done a) s a s
  | ask {op : Op} {next : Answer op → Program Answer α} {answer : Answer op} {s s' s'' : σ} {a : α} :
    step s op answer s' → Yields step (next answer) s' a s'' → Yields step (ask op next) s a s''

/-- What a safe program comes to has the postcondition. -/
theorem Safe.of_yields {p : Program Answer α} {post : α → σ → Prop} {s s' : σ} {a : α}
    (h : p.Safe step keep post s) (hyields : Yields step p s a s') :
  post a s'
  := by
  induction hyields with
  | done => apply h
  | ask hstep _ ih => apply ih (h _ _ hstep).2

/-- A program comes to something if every operation is answered. -/
theorem exists_yields (hanswered : ∀ s op, ∃ answer s', step s op answer s') (p : Program Answer α)
    (s : σ) :
  ∃ a s', Yields step p s a s'
  := by
  induction p generalizing s with
  | done a => exact ⟨a, s, .done⟩
  | ask op next ih =>
    obtain ⟨answer, s', hstep⟩ := hanswered s op
    obtain ⟨a, s'', hyields⟩ := ih answer s'
    exact ⟨a, s'', .ask hstep hyields⟩

/-- What a program comes to in surroundings that leave no choice, it also comes to in others that
allow each step. -/
theorem yields_of_run {τ : Type} {handle : (op : Op) → τ → Answer op × τ} {follows : σ → τ → Prop}
    (hstep : ∀ {s t op}, follows s t →
      ∃ s', step s op (handle op t).1 s' ∧ follows s' (handle op t).2)
    (p : Program Answer α) {s : σ} {t : τ} (ht : follows s t) :
  ∃ s', Yields step p s (p.run handle t).1 s' ∧ follows s' (p.run handle t).2
  := by
  induction p generalizing s t with
  | done a => exact ⟨s, .done, ht⟩
  | ask op next ih =>
    obtain ⟨s₁, hanswer, ht₁⟩ := @hstep s t op ht
    obtain ⟨s₂, hyields, ht₂⟩ := ih _ ht₁
    exact ⟨s₂, .ask hanswer hyields, ht₂⟩

end Program

end CertKeeper
