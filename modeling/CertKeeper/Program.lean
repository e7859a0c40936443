/-!
# Programs over operations

A `Program Answer α` is a computation that asks for operations and ends with a result of
type `α`. The operations are the terms of a type `Op`, and an operation `op` is answered
by a term of `Answer op`. A program says nothing about how its operations are carried
out. `Program.run` carries them out on a state, and `Program.expand` replaces each of
them by a program over other operations. Both go through sequencing (`run_bind`,
`expand_bind`), and running an expanded program is running the program on the expanded
operations (`run_expand`).
-/

namespace CertKeeper

/-- A computation that asks for operations and ends with a result. -/
inductive Program {Op : Type} (Answer : Op → Type) (α : Type) : Type where
  | done (result : α)
  | ask (op : Op) (next : Answer op → Program Answer α)

namespace Program

variable {Op Op' : Type} {Answer : Op → Type} {Answer' : Op' → Type} {α β σ : Type}

/-- The program `p` followed by the program of its result. -/
def bind : Program Answer α → (α → Program Answer β) → Program Answer β
  | done a, f => f a
  | ask op next, f => ask op (fun answer => (next answer).bind f)

instance : Monad (Program Answer) where
  pure := done
  bind := bind

@[simp]
theorem pure_eq_done (a : α) :
  (pure a : Program Answer α) = done a
  := rfl

@[simp]
theorem bind_eq_bind (p : Program Answer α) (f : α → Program Answer β) :
  p >>= f = p.bind f
  := rfl

@[simp]
theorem done_bind (a : α) (f : α → Program Answer β) :
  (done a).bind f = f a
  := rfl

@[simp]
theorem ask_bind (op : Op) (next : Answer op → Program Answer α) (f : α → Program Answer β) :
  (ask op next).bind f = ask op (fun answer => (next answer).bind f)
  := rfl

theorem bind_done (p : Program Answer α) :
  p.bind done = p
  := by
  induction p with
  | done a => rfl
  | ask op next ih => simp [ih]

theorem bind_assoc {γ : Type} (p : Program Answer α) (f : α → Program Answer β)
    (g : β → Program Answer γ) :
  (p.bind f).bind g = p.bind (fun a => (f a).bind g)
  := by
  induction p with
  | done a => rfl
  | ask op next ih => simp [ih]

instance : LawfulMonad (Program Answer) :=
  LawfulMonad.mk' (Program Answer) bind_done (fun _ _ => rfl) bind_assoc

/-- The program that asks for one operation and answers what it is told. -/
def perform (op : Op) : Program Answer (Answer op) := ask op done

/-- Carry the operations of a program out, one after the other, on a state. -/
def run (handle : (op : Op) → σ → Answer op × σ) : Program Answer α → σ → α × σ
  | done a, s => (a, s)
  | ask op next, s => (next (handle op s).1).run handle (handle op s).2

/-- Replace each operation of a program by a program over other operations. -/
def expand (f : (op : Op) → Program Answer' (Answer op)) : Program Answer α → Program Answer' α
  | done a => done a
  | ask op next => (f op).bind (fun answer => (next answer).expand f)

theorem run_bind (handle : (op : Op) → σ → Answer op × σ) (p : Program Answer α)
    (f : α → Program Answer β) (s : σ) :
  (p.bind f).run handle s = (f (p.run handle s).1).run handle (p.run handle s).2
  := by
  induction p generalizing s with
  | done a => rfl
  | ask op next ih => simp [run, ih]

theorem expand_bind (f : (op : Op) → Program Answer' (Answer op)) (p : Program Answer α)
    (g : α → Program Answer β) :
  (p.bind g).expand f = (p.expand f).bind (fun a => (g a).expand f)
  := by
  induction p with
  | done a => rfl
  | ask op next ih => simp [expand, ih, bind_assoc]

/-- Running an expanded program carries each operation out as its expansion. -/
theorem run_expand (f : (op : Op) → Program Answer' (Answer op))
    (handle : (op : Op') → σ → Answer' op × σ) (p : Program Answer α) (s : σ) :
  (p.expand f).run handle s = p.run (fun op s => (f op).run handle s) s
  := by
  induction p generalizing s with
  | done a => rfl
  | ask op next ih => simp [expand, run, run_bind, ih]

end Program

end CertKeeper
