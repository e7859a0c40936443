import CertKeeper.Yaml.Scalar.Style

/-!
# Moving through a text

Where a cursor comes to after some characters: after characters of one line it is as many columns
further (`Cursor.advance_line`), after a line break it is at the start of the next line
(`Cursor.advance_break`), and in general at the `endLine` and the `endColumn` of what it has passed
(`Cursor.advance_append`). A line starts `Leading` if it has a character after its spaces that neither
separates words nor begins a comment.
-/

namespace CertKeeper.Yaml

variable {c : Char} {cs rest : List Char} {line column : Nat}

theorem isBreak_of_isSeparator_eq_false (h : isSeparator c = false) :
  isBreak c = false
  := (Bool.or_eq_false_iff.mp h).2

/-- The character is neither a separator nor the sign of a comment. -/
def Solid (c : Char) : Prop := isSeparator c = false ∧ c ≠ '#'

/-- What is left of a text is a line without its first spaces, or nothing is left. -/
inductive Leading : Nat → List Char → Prop where
  | none : Leading 0 []
  | some {column : Nat} {c : Char} {rest : List Char} : Solid c → Leading column (c :: rest)

theorem Leading.head (h : Leading column rest) :
  ∀ c ∈ rest.head?, isSeparator c = false
  := by
  cases h with
  | none => simp
  | some hc => simpa using hc.1

/-! ### Spaces -/

namespace Scalar

theorem length_spaces (n : Nat) :
  (spaces n).length = n
  := List.length_replicate

theorem eq_of_mem_spaces {n : Nat} (hc : c ∈ spaces n) :
  c = ' '
  := List.eq_of_mem_replicate hc

theorem isBreak_space {n : Nat} :
  ∀ c ∈ spaces n, isBreak c = false
  := by
  intro c hc
  obtain rfl := eq_of_mem_spaces hc
  rfl

theorem isSeparator_space {n : Nat} :
  ∀ c ∈ spaces n, isSeparator c = true
  := by
  intro c hc
  obtain rfl := eq_of_mem_spaces hc
  rfl

end Scalar

/-! ### Passing characters -/

namespace Cursor

/-- The line after some characters. -/
def lineAfter (line : Nat) : List Char → Nat
  | [] => line
  | c :: cs => lineAfter (if isBreak c then line + 1 else line) cs

/-- The column after some characters. -/
def columnAfter (column : Nat) : List Char → Nat
  | [] => column
  | c :: cs => columnAfter (if isBreak c then 0 else column + 1) cs

theorem advance_append (cs rest : List Char) (line column : Nat) :
  advance cs.length ⟨cs ++ rest, line, column⟩ = ⟨rest, lineAfter line cs, columnAfter column cs⟩
  := by
  induction cs generalizing line column with
  | nil => rfl
  | cons c cs ih =>
    rw [List.length_cons, List.cons_append, advance]
    dsimp only
    split
    · rename_i hbreak
      rw [ih, lineAfter, columnAfter, if_pos hbreak, if_pos hbreak]
    · rename_i hbreak
      rw [ih, lineAfter, columnAfter, if_neg hbreak, if_neg hbreak]

theorem lineAfter_line (h : ∀ c ∈ cs, isBreak c = false) (line : Nat) :
  lineAfter line cs = line
  := by
  induction cs with
  | nil => rfl
  | cons c cs ih =>
    obtain ⟨hc, hcs⟩ := List.forall_mem_cons.mp h
    rw [lineAfter, hc]
    apply ih hcs

theorem columnAfter_line (h : ∀ c ∈ cs, isBreak c = false) (column : Nat) :
  columnAfter column cs = column + cs.length
  := by
  induction cs generalizing column with
  | nil => rfl
  | cons c cs ih =>
    obtain ⟨hc, hcs⟩ := List.forall_mem_cons.mp h
    rw [columnAfter, hc, if_neg (by simp), ih hcs, List.length_cons]
    omega

theorem columnAfter_append (column : Nat) (cs ds : List Char) :
  columnAfter column (cs ++ ds) = columnAfter (columnAfter column cs) ds
  := by
  induction cs generalizing column with
  | nil => rfl
  | cons c cs ih => apply ih

/-- After line breaks a line starts. -/
theorem columnAfter_breaks (h : ∀ c ∈ cs, isBreak c) (hne : cs ≠ []) (column : Nat) :
  columnAfter column cs = 0
  := by
  induction cs generalizing column with
  | nil => exact absurd rfl hne
  | cons c cs ih =>
    obtain ⟨hc, hcs⟩ := List.forall_mem_cons.mp h
    rw [columnAfter, if_pos hc]
    cases cs with
    | nil => rfl
    | cons d ds => apply ih hcs (List.cons_ne_nil _ _)

/-- Characters of one line are passed column by column. -/
theorem advance_line (h : ∀ c ∈ cs, isBreak c = false) (rest : List Char) (line column : Nat) :
  advance cs.length ⟨cs ++ rest, line, column⟩ = ⟨rest, line, column + cs.length⟩
  := by
  rw [advance_append, lineAfter_line h, columnAfter_line h]

theorem advance_one (h : isBreak c = false) (rest : List Char) (line column : Nat) :
  advance 1 ⟨c :: rest, line, column⟩ = ⟨rest, line, column + 1⟩
  := by
  simp [advance, h]

/-- A line break is followed by a new line. -/
theorem advance_break (h : isBreak c) (rest : List Char) (line column : Nat) :
  advance 1 ⟨c :: rest, line, column⟩ = ⟨rest, line + 1, 0⟩
  := by
  simp [advance, h]

theorem columnAfter_spaces (n column : Nat) :
  columnAfter column (Scalar.spaces n) = column + n
  := by
  rw [columnAfter_line Scalar.isBreak_space, Scalar.length_spaces]

/-- After a line break and spaces a cursor is in the column of their number. -/
theorem columnAfter_newLine (n column : Nat) :
  columnAfter column ('\n' :: Scalar.spaces n) = n
  := (columnAfter_spaces n 0).trans (Nat.zero_add n)

theorem lineAfter_newLine (n line : Nat) :
  lineAfter line ('\n' :: Scalar.spaces n) = line + 1
  := lineAfter_line Scalar.isBreak_space (line + 1)

theorem advance_spaces (n : Nat) (rest : List Char) (line column : Nat) :
  advance n ⟨Scalar.spaces n ++ rest, line, column⟩ = ⟨rest, line, column + n⟩
  := by
  have hline := advance_line (@Scalar.isBreak_space n) rest line column
  rwa [Scalar.length_spaces] at hline

end Cursor

end CertKeeper.Yaml
