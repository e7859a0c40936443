import CertKeeper.Proofs.Text.Hexadecimal
import CertKeeper.Proofs.Yaml.Scalar.Plain
import CertKeeper.Yaml.Scalar.Quoted

/-!
# Reading back quoted scalars

What stands between quotes is read piece by piece, so a text is read back if its first characters are
(`ReadsFirst`, `reader_write`). Every text in double quotes is read back (`quotedScalar_double`), since
each character that is not written as it is has an escape (`escapes`). A text in single quotes is read
back if no spaces stand beside its line breaks and none of them is a line feed (`quotedScalar_single`), as
only spaces beside breaks are dropped and only line feeds are folded.
-/

namespace CertKeeper.Yaml

variable {c d : Char} {cs rest : List Char}

theorem not_isSeparator_of_ne (hprintable : isPrintable c) (hbreak : isBreak c = false) (hspace : c ≠ ' ') :
  isSeparator c = false
  := by
  apply Bool.eq_false_iff.mpr
  intro hsep
  apply hspace
  apply Scalar.isSeparator_of_isPrintable hprintable hbreak hsep

/-- A text has other characters behind its first spaces. -/
theorem exists_spaces (cs : List Char) :
  ∃ n ds, cs = Scalar.spaces n ++ ds ∧ ds.head? ≠ some ' '
  := by
  induction cs with
  | nil => exact ⟨0, [], rfl, by simp⟩
  | cons c cs ih =>
    by_cases hc : c = ' '
    · obtain ⟨n, ds, hsplit, hds⟩ := ih
      exact ⟨n + 1, ds, by rw [hc, hsplit]; rfl, hds⟩
    · exact ⟨0, c :: cs, rfl, by simpa using hc⟩

/-! ### Escapes -/

theorem charOfCode?_toNat (c : Char) :
  charOfCode? c.toNat = some c
  := by
  rw [charOfCode?, if_pos (show c.toNat.isValidChar from c.valid), Char.ofNat_toNat]

/-- The digits of a character stand for it. -/
theorem coded?_padded {width : Nat} (h : c.toNat < 16 ^ width) (rest : List Char) :
  coded? width (Hexadecimal.padded width c.toNat ++ rest) = some (c, 1 + width)
  := by
  have htake : (Hexadecimal.padded width c.toNat ++ rest).take width = Hexadecimal.padded width c.toNat := by
    apply List.take_left' (Hexadecimal.length_padded _ _)
  dsimp only [coded?]
  rw [htake, Hexadecimal.length_padded, Hexadecimal.value?_padded h]
  show ((if width = width then some () else none) >>= _) = _
  rw [if_pos rfl]
  show (charOfCode? c.toNat).bind _ = _
  rw [charOfCode?_toNat]
  rfl

/-- What an escape looks like, and that it is read as the character that it was written for. -/
structure Escapes (c : Char) (body : List Char) : Prop where
  written : Scalar.escape c = '\\' :: body
  read : ∀ rest, escape? (body ++ rest) = some (c, body.length)
  ascii : ∀ d ∈ body, 0x22 ≤ d.toNat ∧ d.toNat ≤ 0x7A

theorem not_isBreak_of_ascii (h : 0x22 ≤ c.toNat ∧ c.toNat ≤ 0x7A) :
  isBreak c = false
  := by
  apply Bool.eq_false_iff.mpr
  intro hbreak
  simp only [isBreak, Bool.or_eq_true, decide_eq_true_eq] at hbreak
  rcases hbreak with (rfl | rfl) | rfl <;> revert h <;> decide

/-- The characters of an escape do not end a line. -/
theorem Escapes.line {body : List Char} (h : Escapes c body) :
  (∀ d ∈ '\\' :: body, isBreak d = false) ∧ ∀ rest, atBreak (body ++ rest) = false
  := by
  have hbody : ∀ d ∈ body, isBreak d = false := fun d hd => not_isBreak_of_ascii (h.ascii d hd)
  constructor
  · intro d hd
    rcases List.mem_cons.mp hd with rfl | hd
    · rfl
    · apply hbody d hd
  · intro rest
    cases body with
    | nil => cases h.read []
    | cons d body => apply hbody d List.mem_cons_self

/-- A character may be written with the digits of its code. -/
theorem escapes_of_code {mark : Char} {width : Nat}
    (hwritten : Scalar.escape c = '\\' :: mark :: Hexadecimal.padded width c.toNat)
    (hread : ∀ rest, escape? (mark :: rest) = coded? width rest)
    (hmark : 0x22 ≤ mark.toNat ∧ mark.toNat ≤ 0x7A) (h : c.toNat < 16 ^ width) :
  Escapes c (mark :: Hexadecimal.padded width c.toNat)
  := by
  refine ⟨hwritten, ?_, ?_⟩
  · intro rest
    rw [List.cons_append, hread, coded?_padded h, List.length_cons, Hexadecimal.length_padded, Nat.add_comm]
  · intro d hd
    rcases List.mem_cons.mp hd with rfl | hd
    · apply hmark
    · obtain ⟨hlow, hhigh⟩ := Hexadecimal.toNat_of_mem_padded hd
      omega

/-- Every character has an escape. -/
theorem escapes (c : Char) :
  ∃ body, Escapes c body
  := by
  have hone : ∀ {mark : Char}, Scalar.escape c = ['\\', mark] →
      (∀ rest, escape? (mark :: rest) = some (c, 1)) →
      0x22 ≤ mark.toNat ∧ mark.toNat ≤ 0x7A → ∃ body, Escapes c body := by
    intro mark hwritten hread hmark
    refine ⟨[mark], hwritten, hread, ?_⟩
    rintro d hd
    obtain rfl := List.mem_singleton.mp hd
    apply hmark
  have hcode : Scalar.escape c = (if c.toNat < 0x100 then "\\x".toList ++ Hexadecimal.padded 2 c.toNat
      else if c.toNat < 0x10000 then "\\u".toList ++ Hexadecimal.padded 4 c.toNat
      else "\\U".toList ++ Hexadecimal.padded 8 c.toNat) → ∃ body, Escapes c body := by
    intro hwritten
    split at hwritten
    · rename_i h
      exact ⟨_, escapes_of_code hwritten (fun _ => rfl) (by decide) h⟩
    · split at hwritten
      · rename_i h
        exact ⟨_, escapes_of_code hwritten (fun _ => rfl) (by decide) h⟩
      · have hlt : c.toNat < 16 ^ 8 := c.val.toNat_lt
        exact ⟨_, escapes_of_code hwritten (fun _ => rfl) (by decide) hlt⟩
  -- Some characters have an escape of their own.
  unfold Scalar.escape at hcode
  split at hcode
  all_goals first
    | exact hone rfl (fun _ => rfl) (by decide)
    | exact hcode rfl

/-! ### Piece by piece -/

/-- A reader of what stands between quotes, which goes on with the text that it has read so far. -/
abbrev QuotedReader := Nat → List Char → Cursor → Except Fault (List Char × Cursor)

section Pieces

variable {reader : QuotedReader} {write : List Char → List Char} {kept ds gap : List Char}
  {n line column : Nat} {text : List Char}

/-- The first characters of a text are read at once, and what is written for the others is left. -/
def ReadsFirst (reader : QuotedReader) (write : List Char → List Char) (rest kept ds : List Char) : Prop :=
  ∃ written, written ≠ [] ∧ write (kept ++ ds) = written ++ write ds
    ∧ ∀ (n : Nat) (text : List Char) (line column : Nat), 0 < column → ∃ line' column', 0 < column'
      ∧ reader (n + 1) text ⟨written ++ (write ds ++ rest), line, column⟩
        = reader n (text ++ kept) ⟨write ds ++ rest, line', column'⟩

/-- A text is read as it was written if the first characters of all texts of its sort are. -/
theorem reader_write {ok : List Char → Prop} {after : List Char}
    (hend : ∀ (n : Nat) (text : List Char) (line column : Nat), ∃ column',
      reader (n + 1) text ⟨write [] ++ rest, line, column⟩ = .ok (text, ⟨after, line, column'⟩))
    (hfirst : ∀ cs, ok cs → cs ≠ [] →
      ∃ kept ds, cs = kept ++ ds ∧ kept ≠ [] ∧ ok ds ∧ ReadsFirst reader write rest kept ds)
    (hcs : ok cs) (hpos : 0 < column) (hn : (write cs).length < n) :
  ∃ line' column', reader n text ⟨write cs ++ rest, line, column⟩ = .ok (text ++ cs, ⟨after, line', column'⟩)
  := by
  induction hlength : cs.length using Nat.strongRecOn generalizing cs n text line column with
  | _ length ih =>
    obtain ⟨n, rfl⟩ := Nat.exists_eq_add_one.mpr (Nat.zero_lt_of_lt hn)
    by_cases hne : cs = []
    · subst hne
      obtain ⟨column', hread⟩ := hend n text line column
      exact ⟨line, column', by rw [hread, List.append_nil]⟩
    · obtain ⟨kept, ds, rfl, hkept, hds, written, hwritten, hwrite, hread⟩ := hfirst cs hcs hne
      have hfewer := List.length_pos_iff.mpr hkept
      have hless := List.length_pos_iff.mpr hwritten
      rw [List.length_append] at hlength
      rw [hwrite, List.length_append] at hn
      obtain ⟨line₁, column₁, hpos₁, hstep⟩ := hread n text line column hpos
      obtain ⟨line₂, column₂, hlast⟩ := @ih ds.length (by omega) _ n line₁ column₁ (text ++ kept) hds hpos₁
        (by omega) rfl
      refine ⟨line₂, column₂, ?_⟩
      rw [hwrite, List.append_assoc, hstep, hlast, List.append_assoc]

/-- Separators are read together, and folded. -/
def FoldsGaps (reader : QuotedReader) : Prop :=
  ∀ {n line column : Nat} {text gap rest : List Char}, (∀ c ∈ gap, isSeparator c = true) → gap ≠ [] →
    rest.takeWhile isSeparator = [] → 0 < Cursor.columnAfter column gap →
    reader (n + 1) text ⟨gap ++ rest, line, column⟩
      = reader n (text ++ foldGap gap) ⟨rest, Cursor.lineAfter line gap, Cursor.columnAfter column gap⟩

theorem readsFirst_gap (hreader : FoldsGaps reader) (hwrite : write (kept ++ ds) = gap ++ write ds)
    (hgap : ∀ c ∈ gap, isSeparator c = true) (hne : gap ≠ []) (hfold : foldGap gap = kept)
    (hrest : (write ds ++ rest).takeWhile isSeparator = [])
    (hcolumn : ∀ column, 0 < column → 0 < Cursor.columnAfter column gap) :
  ReadsFirst reader write rest kept ds
  := by
  refine ⟨gap, hne, hwrite, ?_⟩
  intro n text line column hpos
  refine ⟨Cursor.lineAfter line gap, Cursor.columnAfter column gap, hcolumn column hpos, ?_⟩
  rw [← hfold]
  apply hreader hgap hne hrest (hcolumn column hpos)

theorem readsFirst_spaces {j : Nat} (hreader : FoldsGaps reader)
    (hwrite : write (Scalar.spaces (j + 1) ++ ds) = Scalar.spaces (j + 1) ++ write ds)
    (hrest : (write ds ++ rest).takeWhile isSeparator = []) :
  ReadsFirst reader write rest (Scalar.spaces (j + 1)) ds
  := by
  apply readsFirst_gap hreader hwrite Scalar.isSeparator_space (List.cons_ne_nil _ _) (foldGap_spaces _) hrest
  intro column hpos
  rw [Cursor.columnAfter_spaces]
  omega

theorem readsFirst_char {written : List Char} (hne : written ≠ [])
    (hwrite : write (c :: ds) = written ++ write ds)
    (hread : ∀ {n line column : Nat} {text more : List Char}, ∃ column', column < column' ∧
      reader (n + 1) text ⟨written ++ more, line, column⟩ = reader n (text ++ [c]) ⟨more, line, column'⟩) :
  ReadsFirst reader write rest [c] ds
  := by
  refine ⟨written, hne, hwrite, ?_⟩
  intro n text line column hpos
  obtain ⟨column', hcolumn, hstep⟩ := hread
  exact ⟨line, column', Nat.lt_trans hpos hcolumn, hstep⟩

/-- Separators inside quotes are passed, unless the next line starts right after them. -/
theorem quotedGap_eq (hgap : ∀ c ∈ gap, isSeparator c = true) (hrest : rest.takeWhile isSeparator = [])
    (hpos : 0 < Cursor.columnAfter column gap) :
  quotedGap ⟨gap ++ rest, line, column⟩
    = .ok (gap, ⟨rest, Cursor.lineAfter line gap, Cursor.columnAfter column gap⟩)
  := by
  have htake := takeWhile_separators hgap hrest
  simp only [quotedGap, Cursor.takeWhile, Cursor.skipWhile, htake, Cursor.advance_append]
  rw [not_atDocumentBoundary hpos]
  rfl

end Pieces

variable {n line column : Nat} {text : List Char}

/-! ### Double quotes -/

namespace Scalar

/-- A character as it is written in double quotes. -/
def doubled (c : Char) : List Char := if needsEscape c then escape c else [c]

/-- In double quotes a character that needs no escape is a space or no separator. -/
theorem of_not_needsEscape (h : needsEscape c = false) :
  isPrintable c ∧ isBreak c = false ∧ c ≠ '"' ∧ c ≠ '\\'
  := by
  simpa [needsEscape, and_assoc] using h

/-- After the text of a character there is no separator, unless the character is a space. -/
theorem takeWhile_doubled (hhead : cs.head? ≠ some ' ') (rest : List Char) :
  (cs.flatMap doubled ++ '"' :: rest).takeWhile isSeparator = []
  := by
  have hquote : isSeparator '"' = false := by decide
  have hbackslash : isSeparator '\\' = false := by decide
  cases cs with
  | nil => simp [hquote]
  | cons c cs =>
    rw [List.flatMap_cons, doubled]
    split
    · obtain ⟨body, hbody⟩ := escapes c
      simp [hbody.written, hbackslash]
    · rename_i h
      obtain ⟨hprintable, hbreak, -, -⟩ := of_not_needsEscape (by simpa using h)
      have hsep := not_isSeparator_of_ne hprintable hbreak (by simpa using hhead)
      simp [hsep]

theorem flatMap_doubled_spaces (n : Nat) :
  (spaces n).flatMap doubled = spaces n
  := by
  have hspace : doubled ' ' = [' '] := by decide
  induction n with
  | zero => rfl
  | succ n ih =>
    show (' ' :: spaces n).flatMap doubled = ' ' :: spaces n
    rw [List.flatMap_cons, hspace, ih]
    rfl

end Scalar

open Scalar (doubled)

theorem doubleFrom_char (hsep : isSeparator c = false) (hquote : c ≠ '"') (hbackslash : c ≠ '\\') :
  doubleFrom (n + 1) text ⟨c :: rest, line, column⟩ = doubleFrom n (text ++ [c]) ⟨rest, line, column + 1⟩
  := by
  rw [← Cursor.advance_one (isBreak_of_isSeparator_eq_false hsep), doubleFrom]
  split
  all_goals rename_i h
  · cases h
  · exact absurd (List.cons.inj h).1 hquote
  · exact absurd (List.cons.inj h).1 hbackslash
  · obtain ⟨rfl, -⟩ := List.cons.inj h
    rw [hsep]
    rfl

theorem doubleFrom_escape {body : List Char} (h : Escapes c body) :
  doubleFrom (n + 1) text ⟨'\\' :: (body ++ rest), line, column⟩
    = doubleFrom n (text ++ [c]) ⟨rest, line, column + (1 + body.length)⟩
  := by
  obtain ⟨hline, hbreak⟩ := h.line
  have hadvance := Cursor.advance_line hline rest line column
  rw [List.cons_append, List.length_cons, Nat.add_comm] at hadvance
  simp only [doubleFrom, hbreak, h.read, hadvance, Bool.false_eq_true, if_false]

theorem doubleFrom_gap :
  FoldsGaps doubleFrom
  := by
  intro n line column text gap rest hgap hne hrest hpos
  have hpassed := @quotedGap_eq rest gap line column hgap hrest hpos
  obtain ⟨d, ds, rfl⟩ := List.exists_cons_of_ne_nil hne
  have hd := hgap d List.mem_cons_self
  rw [doubleFrom]
  split
  all_goals rename_i h
  · cases h
  · obtain ⟨rfl, -⟩ := List.cons.inj h
    cases hd
  · obtain ⟨rfl, -⟩ := List.cons.inj h
    cases hd
  · obtain ⟨rfl, -⟩ := List.cons.inj h
    rw [hd, if_pos rfl, hpassed]
    rfl

/-- In double quotes all characters are read as they were written. -/
theorem readsFirst_double (hne : cs ≠ []) (rest : List Char) :
  ∃ kept ds, cs = kept ++ ds ∧ kept ≠ [] ∧ ReadsFirst doubleFrom (List.flatMap doubled) ('"' :: rest) kept ds
  := by
  obtain ⟨j, ds, rfl, hds⟩ := exists_spaces cs
  cases j with
  | succ j =>
    refine ⟨_, ds, rfl, List.cons_ne_nil _ _, ?_⟩
    apply readsFirst_spaces doubleFrom_gap _ (Scalar.takeWhile_doubled hds rest)
    rw [List.flatMap_append, Scalar.flatMap_doubled_spaces]
  | zero =>
    obtain ⟨c, ds, rfl⟩ := List.exists_cons_of_ne_nil hne
    refine ⟨[c], ds, rfl, List.cons_ne_nil _ _, ?_⟩
    by_cases hescape : Scalar.needsEscape c = true
    · obtain ⟨body, hbody⟩ := escapes c
      apply readsFirst_char (List.cons_ne_nil '\\' body)
      · rw [List.flatMap_cons, doubled, if_pos hescape, hbody.written]
      · exact ⟨_, by omega, doubleFrom_escape hbody⟩
    · have hplain : Scalar.needsEscape c = false := by simpa using hescape
      obtain ⟨hprintable, hbreak, hquote, hbackslash⟩ := Scalar.of_not_needsEscape hplain
      have hsep := not_isSeparator_of_ne hprintable hbreak (by simpa using hds)
      apply readsFirst_char (List.cons_ne_nil c [])
      · rw [List.flatMap_cons, doubled, if_neg hescape]
      · exact ⟨_, Nat.lt_succ_self _, doubleFrom_char hsep hquote hbackslash⟩

/-! ### Lines of a text -/

namespace Scalar

variable {indent : Nat} {write : Char → List Char} {p q : Char → Bool} {bs ds : List Char}

theorem indentLines_char (h : isBreak c = false) (fresh : Bool) (cs : List Char) :
  indentLines indent write fresh (c :: cs)
    = (if fresh then spaces indent else []) ++ (write c ++ indentLines indent write false cs)
  := by
  rw [indentLines, h, if_neg (by simp), List.append_assoc]

/-- Line breaks are written as they are, and a line starts after them. -/
theorem indentLines_breaks (hbs : ∀ b ∈ bs, isBreak b = true) (hne : bs ≠ []) (fresh : Bool)
    (ds : List Char) :
  indentLines indent write fresh (bs ++ ds) = bs ++ indentLines indent write true ds
  := by
  induction bs generalizing fresh with
  | nil => exact absurd rfl hne
  | cons b bs ih =>
    obtain ⟨hb, hbs'⟩ := List.forall_mem_cons.mp hbs
    rw [List.cons_append, indentLines, if_pos hb]
    cases bs with
    | nil => rfl
    | cons b' bs => rw [ih hbs' (List.cons_ne_nil _ _)]; rfl

theorem hasPair_append (h : hasPair p q (cs ++ ds) = false) :
  hasPair p q ds = false
  := by
  induction cs with
  | nil => apply h
  | cons c cs ih =>
    apply ih
    rw [List.cons_append] at h
    cases hcs : cs ++ ds with
    | nil => rfl
    | cons d es =>
      rw [hcs, hasPair, Bool.or_eq_false_iff] at h
      apply h.2

/-- Two neighbours do not have the properties of a pair that a text does not have. -/
theorem of_not_hasPair (h : hasPair p q (cs ++ c :: d :: ds) = false) (hc : p c = true) :
  q d = false
  := by
  have hpair := hasPair_append h
  rw [hasPair, hc, Bool.true_and, Bool.or_eq_false_iff] at hpair
  apply hpair.1

/-- A text has other characters behind its first line breaks. -/
theorem exists_breaks (cs : List Char) :
  ∃ bs ds, cs = bs ++ ds ∧ (∀ b ∈ bs, isBreak b = true) ∧ ∀ d ∈ ds.head?, isBreak d = false
  := by
  induction cs with
  | nil => exact ⟨[], [], rfl, by simp, by simp⟩
  | cons c cs ih =>
    by_cases hc : isBreak c = true
    · obtain ⟨bs, ds, rfl, hbs, hds⟩ := ih
      exact ⟨c :: bs, ds, rfl, List.forall_mem_cons.mpr ⟨hc, hbs⟩, hds⟩
    · exact ⟨[], c :: cs, rfl, by simp, by simpa using hc⟩

/-! ### Single quotes -/

/-- A character as it is written in single quotes. -/
def singled (c : Char) : List Char := if c = '\'' then ['\'', '\''] else [c]

/-- What is written between single quotes. -/
def singleBody (indent : Nat) (cs : List Char) : List Char :=
  indentLines indent singled false cs ++ (if cs.getLast?.any isBreak then spaces indent else [])

theorem singleBody_char (h : isBreak c = false) (cs : List Char) :
  singleBody indent (c :: cs) = singled c ++ singleBody indent cs
  := by
  have hlast : (c :: cs).getLast?.any isBreak = cs.getLast?.any isBreak := by
    rw [List.getLast?_cons]
    cases cs.getLast? <;> simp [h]
  rw [singleBody, indentLines_char h, hlast, if_neg (by simp), List.nil_append, List.append_assoc]
  rfl

theorem singleBody_spaces (n : Nat) (cs : List Char) :
  singleBody indent (spaces n ++ cs) = spaces n ++ singleBody indent cs
  := by
  have hspace : isBreak ' ' = false := by decide
  induction n with
  | zero => rfl
  | succ n ih =>
    show singleBody indent (' ' :: (spaces n ++ cs)) = ' ' :: (spaces n ++ singleBody indent cs)
    rw [singleBody_char hspace, ih]
    rfl

theorem singleBody_breaks (hbs : ∀ b ∈ bs, isBreak b = true) (hne : bs ≠ [])
    (hds : ∀ d ∈ ds.head?, isBreak d = false) :
  singleBody indent (bs ++ ds) = bs ++ (spaces indent ++ singleBody indent ds)
  := by
  cases ds with
  | nil =>
    have hlast : bs.getLast?.any isBreak = true := by
      rw [List.getLast?_eq_some_getLast hne]
      simpa using hbs _ (List.getLast_mem hne)
    rw [singleBody, indentLines_breaks hbs hne, List.append_nil, hlast, if_pos rfl]
    simp [singleBody, indentLines]
  | cons d ds =>
    have hd := hds d rfl
    have hlast : (bs ++ d :: ds).getLast? = (d :: ds).getLast? := by
      rw [List.getLast?_append, List.getLast?_cons]
      rfl
    rw [singleBody, indentLines_breaks hbs hne, indentLines_char hd, hlast, if_pos rfl, singleBody,
      indentLines_char hd]
    simp

theorem takeWhile_singleBody (hhead : ∀ c ∈ cs.head?, isSeparator c = false) (rest : List Char) :
  (singleBody indent cs ++ '\'' :: rest).takeWhile isSeparator = []
  := by
  have hquote : isSeparator '\'' = false := by decide
  cases cs with
  | nil => simp [singleBody, indentLines, hquote]
  | cons c cs =>
    have hc := hhead c rfl
    rw [singleBody_char (isBreak_of_isSeparator_eq_false hc), singled]
    split
    · simp [hquote]
    · simp [hc]

end Scalar

open Scalar (singled singleBody)

theorem singleFrom_char (hsep : isSeparator c = false) (hquote : c ≠ '\'') :
  singleFrom (n + 1) text ⟨c :: rest, line, column⟩ = singleFrom n (text ++ [c]) ⟨rest, line, column + 1⟩
  := by
  rw [← Cursor.advance_one (isBreak_of_isSeparator_eq_false hsep), singleFrom]
  split
  all_goals rename_i h
  · cases h
  · exact absurd (List.cons.inj h).1 hquote
  · exact absurd (List.cons.inj h).1 hquote
  · obtain ⟨rfl, -⟩ := List.cons.inj h
    rw [hsep]
    rfl

theorem singleFrom_quote :
  singleFrom (n + 1) text ⟨'\'' :: '\'' :: rest, line, column⟩
    = singleFrom n (text ++ ['\'']) ⟨rest, line, column + 2⟩
  := rfl

theorem singleFrom_end (hrest : rest.head? ≠ some '\'') :
  singleFrom (n + 1) text ⟨'\'' :: rest, line, column⟩ = .ok (text, ⟨rest, line, column + 1⟩)
  := by
  rw [singleFrom]
  split
  all_goals rename_i h
  · cases h
  · obtain ⟨-, rfl⟩ := List.cons.inj h
    exact absurd rfl hrest
  · rfl
  · rename_i hquote
    exact absurd (List.cons.inj h).1.symm hquote

theorem singleFrom_gap :
  FoldsGaps singleFrom
  := by
  intro n line column text gap rest hgap hne hrest hpos
  have hpassed := @quotedGap_eq rest gap line column hgap hrest hpos
  obtain ⟨d, ds, rfl⟩ := List.exists_cons_of_ne_nil hne
  have hd := hgap d List.mem_cons_self
  have hquote : d ≠ '\'' := by
    rintro rfl
    cases hd
  rw [singleFrom]
  split
  all_goals rename_i h
  · cases h
  · exact absurd (List.cons.inj h).1 hquote
  · exact absurd (List.cons.inj h).1 hquote
  · obtain ⟨rfl, -⟩ := List.cons.inj h
    rw [hd, if_pos rfl, hpassed]
    rfl

/-- Line breaks that are no line feeds are kept, and the spaces after them are dropped. -/
theorem foldGap_breaks {bs : List Char} (hbs : ∀ b ∈ bs, isBreak b = true) (hfeed : '\n' ∉ bs) (hne : bs ≠ [])
    (indent : Nat) :
  foldGap (bs ++ Scalar.spaces indent) = bs
  := by
  have hfilter : (bs ++ Scalar.spaces indent).filter isBreak = bs := by
    rw [List.filter_append, List.filter_eq_self.mpr hbs, List.filter_eq_nil_iff.mpr, List.append_nil]
    intro c hc
    simp [Scalar.isBreak_space c hc]
  obtain ⟨b, bs, rfl⟩ := List.exists_cons_of_ne_nil hne
  have hb : b ≠ '\n' := fun he => hfeed (he ▸ List.mem_cons_self)
  have hany : (b :: bs ++ Scalar.spaces indent).any isBreak = true := by
    simp [hbs b List.mem_cons_self]
  rw [foldGap, hany, if_pos rfl, hfilter]
  unfold foldBreaks
  split
  all_goals rename_i h
  · cases h
  · exact absurd (List.cons.inj h).1 hb
  · exact absurd (List.cons.inj h).1 hb
  · rfl

theorem Scalar.allowsSingle_append {ds : List Char} (h : Scalar.allowsSingle (cs ++ ds)) :
  Scalar.allowsSingle ds
  := by
  simp only [Scalar.allowsSingle, Bool.and_eq_true, Bool.not_eq_true', List.all_append] at h ⊢
  obtain ⟨⟨⟨-, hprintable⟩, hspaces⟩, hbreaks⟩ := h
  exact ⟨⟨hprintable, Scalar.hasPair_append hspaces⟩, Scalar.hasPair_append hbreaks⟩

/-- Behind a run of spaces or of line breaks there is no separator in a text in single quotes. -/
theorem Scalar.not_isSeparator_of_allowsSingle {ds : List Char} (h : Scalar.allowsSingle (cs ++ c :: ds))
    (hother : ∀ d ∈ ds.head?, (isBreak c = true ∧ isBreak d = false) ∨ (c = ' ' ∧ d ≠ ' ')) :
  ∀ d ∈ ds.head?, isSeparator d = false
  := by
  intro d hd
  obtain ⟨es, rfl⟩ : ∃ es, ds = d :: es := List.head?_eq_some_iff.mp hd
  simp only [Scalar.allowsSingle, Bool.and_eq_true, Bool.not_eq_true', List.all_eq_true] at h
  obtain ⟨⟨hprintable, hspaces⟩, hbreaks⟩ := h
  have hprint := hprintable d (by simp)
  rcases hother d rfl with ⟨hc, hbreak⟩ | ⟨rfl, hspace⟩
  · have hspace := Scalar.of_not_hasPair hbreaks hc
    apply not_isSeparator_of_ne hprint hbreak (by simpa [Scalar.isSpace] using hspace)
  · have hbreak := Scalar.of_not_hasPair hspaces rfl
    apply not_isSeparator_of_ne hprint hbreak hspace

theorem readsFirst_breaks {indent : Nat} {bs ds : List Char} (hindent : 0 < indent)
    (hbs : ∀ b ∈ bs, isBreak b = true) (hfeed : '\n' ∉ bs) (hne : bs ≠ [])
    (hds : ∀ d ∈ ds.head?, isSeparator d = false) (rest : List Char) :
  ReadsFirst singleFrom (singleBody indent) ('\'' :: rest) bs ds
  := by
  have hseparators : ∀ b ∈ bs ++ Scalar.spaces indent, isSeparator b = true := by
    intro b hb
    rcases List.mem_append.mp hb with hb | hb
    · rw [isSeparator, hbs b hb, Bool.or_true]
    · apply Scalar.isSeparator_space b hb
  apply readsFirst_gap singleFrom_gap _ hseparators (by simp [hne]) (foldGap_breaks hbs hfeed hne indent)
    (Scalar.takeWhile_singleBody hds rest)
  · intro column _
    rwa [Cursor.columnAfter_append, Cursor.columnAfter_breaks hbs hne, Cursor.columnAfter_spaces,
      Nat.zero_add]
  · rw [Scalar.singleBody_breaks hbs hne (fun d hd => isBreak_of_isSeparator_eq_false (hds d hd)),
      List.append_assoc]

theorem readsFirst_singled {indent : Nat} {ds : List Char} (hsep : isSeparator c = false) (rest : List Char) :
  ReadsFirst singleFrom (singleBody indent) rest [c] ds
  := by
  have hwritten := @Scalar.singleBody_char c indent (isBreak_of_isSeparator_eq_false hsep) ds
  by_cases hquote : c = '\''
  · subst hquote
    apply readsFirst_char (List.cons_ne_nil _ _) hwritten
    exact ⟨_, Nat.lt_add_of_pos_right (by decide), singleFrom_quote⟩
  · rw [singled, if_neg hquote] at hwritten
    apply readsFirst_char (List.cons_ne_nil _ _) hwritten
    exact ⟨_, Nat.lt_succ_self _, singleFrom_char hsep hquote⟩

/-- A text that can be written in single quotes and has no line feeds is read as it was written. -/
theorem readsFirst_single {indent : Nat} (hindent : 0 < indent) (hcs : Scalar.allowsSingle cs)
    (hfeed : '\n' ∉ cs) (hne : cs ≠ []) (rest : List Char) :
  ∃ kept ds, cs = kept ++ ds ∧ kept ≠ [] ∧ ReadsFirst singleFrom (singleBody indent) ('\'' :: rest) kept ds
  := by
  obtain ⟨c, cs, rfl⟩ := List.exists_cons_of_ne_nil hne
  by_cases hbreak : isBreak c = true
  · obtain ⟨bs, ds, hsplit, hbs, hds⟩ := Scalar.exists_breaks (c :: cs)
    have hbsne : bs ≠ [] := by
      rintro rfl
      rw [List.nil_append] at hsplit
      subst hsplit
      rw [hds c rfl] at hbreak
      cases hbreak
    have hhead : ∀ d ∈ ds.head?, isSeparator d = false := by
      have hlast := List.dropLast_concat_getLast hbsne
      rw [hsplit, ← hlast, List.append_assoc] at hcs
      apply Scalar.not_isSeparator_of_allowsSingle hcs
      exact fun d hd => .inl ⟨hbs _ (List.getLast_mem hbsne), hds d hd⟩
    have hfeed' : '\n' ∉ bs := fun h => hfeed (hsplit ▸ List.mem_append_left _ h)
    exact ⟨bs, ds, hsplit, hbsne, readsFirst_breaks hindent hbs hfeed' hbsne hhead rest⟩
  obtain ⟨j, ds, hsplit, hds⟩ := exists_spaces (c :: cs)
  cases j with
  | zero =>
    have hspace : c ≠ ' ' := by
      rintro rfl
      rw [← show ' ' :: cs = ds from hsplit] at hds
      exact hds rfl
    have hprintable : isPrintable c := by
      simp only [Scalar.allowsSingle, Bool.and_eq_true, List.all_cons] at hcs
      exact hcs.1.1.1
    have hsep := not_isSeparator_of_ne hprintable (by simpa using hbreak) hspace
    exact ⟨[c], cs, rfl, List.cons_ne_nil _ _, readsFirst_singled hsep _⟩
  | succ j =>
    have hhead : ∀ d ∈ ds.head?, isSeparator d = false := by
      have hlast : Scalar.spaces (j + 1) ++ ds = Scalar.spaces j ++ ' ' :: ds := by
        simp [Scalar.spaces, List.replicate_succ']
      rw [hsplit, hlast] at hcs
      apply Scalar.not_isSeparator_of_allowsSingle hcs
      intro d hd
      refine .inr ⟨rfl, ?_⟩
      rintro rfl
      exact hds hd
    refine ⟨_, ds, hsplit, List.cons_ne_nil _ _, ?_⟩
    exact readsFirst_spaces singleFrom_gap (Scalar.singleBody_spaces _ _)
      (Scalar.takeWhile_singleBody hhead rest)

/-! ### Quoted scalars -/

/-- Every text is read back from double quotes. -/
theorem quotedScalar_double (cs rest : List Char) (line column : Nat) :
  ∃ line' column', quotedScalar '"' ⟨cs.flatMap doubled ++ '"' :: rest, line, column + 1⟩
    = .ok (cs, ⟨rest, line', column'⟩)
  := by
  have hlength : (cs.flatMap doubled).length < (cs.flatMap doubled ++ '"' :: rest).length + 1 := by
    rw [List.length_append]
    omega
  apply @reader_write cs ('"' :: rest) doubleFrom (List.flatMap doubled) _ line (column + 1) []
    (fun _ => True) rest
  · exact fun n text line column => ⟨_, rfl⟩
  · intro cs _ hne
    obtain ⟨kept, ds, hsplit, hkept, hfirst⟩ := readsFirst_double hne rest
    exact ⟨kept, ds, hsplit, hkept, trivial, hfirst⟩
  · trivial
  · apply Nat.succ_pos
  · exact hlength

/-- A text that can be written in single quotes is read back from them. -/
theorem quotedScalar_single {indent : Nat} (hindent : 0 < indent) (hcs : Scalar.allowsSingle cs)
    (hfeed : '\n' ∉ cs) (hrest : rest.head? ≠ some '\'') (line column : Nat) :
  ∃ line' column', quotedScalar '\'' ⟨singleBody indent cs ++ '\'' :: rest, line, column + 1⟩
    = .ok (cs, ⟨rest, line', column'⟩)
  := by
  have hlength : (singleBody indent cs).length < (singleBody indent cs ++ '\'' :: rest).length + 1 := by
    rw [List.length_append]
    omega
  apply @reader_write cs ('\'' :: rest) singleFrom (singleBody indent) _ line (column + 1) []
    (fun cs => Scalar.allowsSingle cs ∧ '\n' ∉ cs) rest
  · exact fun n text line column => ⟨_, singleFrom_end hrest⟩
  · intro cs ⟨hcs, hfeed⟩ hne
    obtain ⟨kept, ds, rfl, hkept, hfirst⟩ := readsFirst_single hindent hcs hfeed hne rest
    have hfeed' : '\n' ∉ ds := fun h => hfeed (List.mem_append_right _ h)
    exact ⟨kept, ds, rfl, hkept, ⟨Scalar.allowsSingle_append hcs, hfeed'⟩, hfirst⟩
  · exact ⟨hcs, hfeed⟩
  · apply Nat.succ_pos
  · exact hlength

end CertKeeper.Yaml
