import CertKeeper.Proofs.Program.Safety

/-!
# Transcripts of programs

A transcript holds what a program asked for and what it was told, the latest exchange first.
`Program.Comes` says which program is left of another one after a transcript, and in which state of
the surroundings. What is left is the business of the program alone: it is what a program comes to in
surroundings that only take the minutes (`Comes.safe`). `Program.Throughout` speaks of each operation
together with what the program will make of its answer, so it can say what a program does about an
answer (`Comes.throughout`).
-/

namespace CertKeeper.Program

variable {Op : Type} {Answer : Op → Type} {α β σ : Type}

/-- An operation with the answer that it was given. -/
abbrev Exchange {Op : Type} (Answer : Op → Type) := (op : Op) × Answer op

/-- After the exchanges of a transcript, `q` is left of a program, and the surroundings are in a
state. -/
inductive Comes (step : Surroundings Answer σ) (p : Program Answer α) (s : σ) :
    List (Exchange Answer) → Program Answer α → σ → Prop where
  | start : Comes step p s [] p s
  | answered {past : List (Exchange Answer)} {op : Op} {next : Answer op → Program Answer α}
    {answer : Answer op} {s' s'' : σ} :
    Comes step p s past (ask op next) s' → step s' op answer s'' →
      Comes step p s (⟨op, answer⟩ :: past) (next answer) s''

/-- The surroundings that give any answer and write it down. -/
def minutes : Surroundings Answer (List (Exchange Answer)) :=
  fun past op answer past' => past' = ⟨op, answer⟩ :: past

variable {step : Surroundings Answer σ} {p q : Program Answer α} {s s' : σ}
variable {past : List (Exchange Answer)}

/-- What holds of a program however it is answered holds of what is left of it. -/
theorem Comes.safe {keep : List (Exchange Answer) → Prop} {post : α → List (Exchange Answer) → Prop}
    (h : Comes step p s past q s') (hp : p.Safe minutes keep post []) :
  q.Safe minutes keep post past
  := by
  induction h with
  | start => apply hp
  | answered _ _ ih => apply (ih _ _ rfl).2

/-- A run of a program is a run of what is left of it. -/
theorem Comes.run {handle : (op : Op) → σ → Answer op × σ}
    (h : Comes (handled handle) p s past q s') :
  p.run handle s = q.run handle s'
  := by
  induction h with
  | start => rfl
  | answered _ hanswer ih =>
    rw [ih, Program.run, show handle _ _ = _ from hanswer]

/-- However it is answered, each operation that the program asks for after a transcript is asked for
with a continuation that has `good`, and the program ends with `post`. -/
def Throughout (good : List (Exchange Answer) → (op : Op) → (Answer op → Program Answer α) → Prop) :
    Program Answer α → (α → List (Exchange Answer) → Prop) → List (Exchange Answer) → Prop
  | done a, post, past => post a past
  | ask op next, post, past =>
    good past op next ∧ ∀ answer, (next answer).Throughout good post (⟨op, answer⟩ :: past)

variable {good : List (Exchange Answer) → (op : Op) → (Answer op → Program Answer α) → Prop}
variable {good' : List (Exchange Answer) → (op : Op) → (Answer op → Program Answer β) → Prop}

/-- In a sequence the second part goes on from the transcript of the first one. -/
theorem Throughout.bind {f : α → Program Answer β} {post : β → List (Exchange Answer) → Prop}
    (hgood : ∀ past op next, good past op next →
      good' past op (fun answer => (next answer).bind f))
    (h : p.Throughout good (fun a past' => (f a).Throughout good' post past') past) :
  (p.bind f).Throughout good' post past
  := by
  induction p generalizing past with
  | done a => apply h
  | ask op next ih =>
    constructor
    · apply hgood _ _ _ h.1
    · intro answer
      apply ih answer (h.2 answer)

/-- A postcondition may be weakened. -/
theorem Throughout.mono {post post' : α → List (Exchange Answer) → Prop}
    (h : p.Throughout good post past) (hpost : ∀ a past', post a past' → post' a past') :
  p.Throughout good post' past
  := by
  induction p generalizing past with
  | done a => apply hpost _ _ h
  | ask op next ih =>
    constructor
    · apply h.1
    · intro answer
      apply ih answer (h.2 answer)

/-- What holds throughout a program holds of what it asks for after a transcript. -/
theorem Comes.throughout {op : Op} {next : Answer op → Program Answer α}
    {post : α → List (Exchange Answer) → Prop} (h : Comes step p s past (ask op next) s')
    (hp : p.Throughout good post []) :
  good past op next
  := by
  have hleft : ∀ {past q s'}, Comes step p s past q s' → q.Throughout good post past := by
    intro past q s' h
    induction h with
    | start => apply hp
    | answered _ _ ih => apply ih.2
  apply (hleft h).1

end CertKeeper.Program
