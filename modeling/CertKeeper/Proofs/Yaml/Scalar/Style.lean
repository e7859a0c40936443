import CertKeeper.Proofs.Yaml.Scalar.Block
import CertKeeper.Yaml.Write

/-!
# What is written for a text

The style of a text and what it says about the text (`Scalar.style_cases`), and how the last line of
a scalar ends.
-/

namespace CertKeeper.Yaml

variable {c : Char} {cs rest : List Char} {indent : Nat} {text : String}

/-! ### Styles -/

namespace Scalar

/-- A text has the style that is allowed for it. -/
theorem style_cases (text : String) :
  (style text = .plain ∧ allowsPlain text.toList ∧ looksUntyped text = false)
    ∨ (style text = .single ∧ allowsSingle text.toList ∧ '\n' ∉ text.toList)
    ∨ style text = .double
    ∨ (style text = .literal ∧ allowsLiteral text.toList ∧ '\n' ∈ text.toList)
  := by
  rw [style]
  split
  · rename_i hfeed
    split
    · rename_i hliteral
      exact .inr (.inr (.inr ⟨rfl, hliteral, by simpa using hfeed⟩))
    · exact .inr (.inr (.inl rfl))
  · rename_i hfeed
    split
    · rename_i hplain
      rw [Bool.and_eq_true, Bool.not_eq_true'] at hplain
      exact .inl ⟨rfl, hplain.2, hplain.1⟩
    · split
      · rename_i hsingle
        exact .inr (.inl ⟨rfl, hsingle, by simpa using hfeed⟩)
      · exact .inr (.inr (.inl rfl))

theorem ne_nil_of_not_looksUntyped (h : looksUntyped text = false) :
  text.toList ≠ []
  := by
  intro hnil
  rw [String.toList_eq_nil_iff.mp hnil] at h
  revert h
  decide

/-- A text that is written without quotes is not empty and no word for nothing. -/
theorem of_style_eq_plain (h : style text = .plain) :
  text ≠ "" ∧ Document.isNullWord text = false
  := by
  obtain ⟨-, -, huntyped⟩ | ⟨h', -⟩ | h' | ⟨h', -⟩ := style_cases text
  · simp only [looksUntyped, Bool.or_eq_false_iff] at huntyped
    obtain ⟨⟨⟨hkeyword, -⟩, -⟩, -⟩ := huntyped
    simp only [isKeyword, List.contains_cons, Bool.or_eq_false_iff, beq_eq_false_iff_ne] at hkeyword
    simp [Document.isNullWord, hkeyword]
  all_goals simp [h'] at h

end Scalar

/-! ### Letters -/

theorem ne_of_isAlpha {c d : Char} (h : c.isAlpha = true) (hd : d.isAlpha = false) :
  c ≠ d
  := by
  rintro rfl
  rw [h] at hd
  cases hd

theorem not_isSeparator_of_isAlpha (h : c.isAlpha = true) :
  isSeparator c = false
  := by
  have hspace := ne_of_isAlpha h (d := ' ') (by decide)
  have htab := ne_of_isAlpha h (d := '\t') (by decide)
  have hfeed := ne_of_isAlpha h (d := '\n') (by decide)
  have hline := ne_of_isAlpha h (d := '\u2028') (by decide)
  have hparagraph := ne_of_isAlpha h (d := '\u2029') (by decide)
  simp [isSeparator, isSpaceOrTab, isBreak, hspace, htab, hfeed, hline, hparagraph]

theorem isPrintable_of_ascii (h : 0x22 ≤ c.toNat ∧ c.toNat ≤ 0x7A) :
  isPrintable c
  := by
  simp only [isPrintable, Bool.or_eq_true, Bool.and_eq_true, decide_eq_true_eq]
  omega

theorem isPrintable_of_isAlpha (h : c.isAlpha = true) :
  isPrintable c
  := by
  apply isPrintable_of_ascii
  rcases (Bool.or_eq_true _ _).mp h with h | h
  · have hbounds : 0x41 ≤ c.toNat ∧ c.toNat ≤ 0x5A := of_decide_eq_true h
    omega
  · obtain ⟨hlow, hhigh⟩ := (Bool.and_eq_true _ _).mp h
    have hbounds : 0x61 ≤ c.toNat ∧ c.toNat ≤ 0x7A := ⟨of_decide_eq_true hlow, of_decide_eq_true hhigh⟩
    omega

namespace Scalar

theorem hasIndicator_of_letters (c : Char) (h : ∀ d ∈ cs, d.isAlpha = true) :
  hasIndicator c cs = false
  := by
  induction cs generalizing c with
  | nil => rfl
  | cons d cs ih =>
    obtain ⟨hd, hcs⟩ := List.forall_mem_cons.mp h
    have hcolon := ne_of_isAlpha hd (d := ':') (by decide)
    have hcomment := ne_of_isAlpha hd (d := '#') (by decide)
    simp [hasIndicator, hcolon, hcomment, ih d hcs]

/-- A text of letters can be written without quotes. -/
theorem allowsPlain_of_letters (h : ∀ c ∈ cs, c.isAlpha = true) :
  allowsPlain cs
  := by
  have hspace : ∀ c ∈ cs, isSpace c = false := by
    intro c hc
    simpa [isSpace] using ne_of_isAlpha (h c hc) (d := ' ') (by decide)
  have hbreak : ∀ c ∈ cs, isBreak c = false := fun c hc =>
    isBreak_of_isSeparator_eq_false (not_isSeparator_of_isAlpha (h c hc))
  have hprintable : ∀ c ∈ cs, isPrintable c = true := fun c hc => isPrintable_of_isAlpha (h c hc)
  have hstart : startsWithIndicator cs = false := by
    cases cs with
    | nil => rfl
    | cons c cs =>
      have hne : ∀ d, d.isAlpha = false → c ≠ d := fun d => ne_of_isAlpha (h c List.mem_cons_self)
      have hnot : ∀ s : String, s.toList.all (fun d => !d.isAlpha) = true → s.contains c = false := by
        intro s hs
        rw [String.contains_char_eq, decide_eq_false_iff_not]
        intro hc
        have hletter := List.all_eq_true.mp hs c hc
        rw [h c List.mem_cons_self] at hletter
        cases hletter
      have hminus := hne '-' (by decide)
      have hdot := hne '.' (by decide)
      rw [startsWithIndicator, hnot _ (by decide), hnot _ (by decide)]
      simp [List.isPrefixOf, hminus.symm, hdot.symm]
  have htail : ∀ c ∈ cs.tail, c.isAlpha = true := fun c hc => h c (List.mem_of_mem_tail hc)
  have hhead : cs.head?.any isSpace = false := by
    cases cs with
    | nil => rfl
    | cons c cs => exact hspace c List.mem_cons_self
  have hlast : cs.getLast?.any isSpace = false := by
    cases hlast : cs.getLast? with
    | none => rfl
    | some c => exact hspace c (List.mem_of_getLast? hlast)
  rw [allowsPlain, List.all_eq_true.mpr hprintable, List.any_eq_false.mpr (by simpa using hbreak), hhead,
    hlast, hstart, hasIndicator_of_letters _ htail]
  rfl

/-- A text of letters is written without quotes, unless it might be taken for another value. -/
theorem style_of_letters (h : ∀ c ∈ text.toList, c.isAlpha = true) (huntyped : looksUntyped text = false) :
  style text = .plain
  := by
  have hfeed : text.toList.contains '\n' = false := by
    rw [List.contains_eq_mem, decide_eq_false_iff_not]
    intro hmem
    exact ne_of_isAlpha (h _ hmem) (by decide) rfl
  rw [style]
  simp only [hfeed, huntyped, allowsPlain_of_letters h]
  rfl

end Scalar

/-! ### The ends of lines -/

theorem endLine_concat (h : isBreak c = false) (cs : List Char) :
  endLine (cs ++ [c]) = cs ++ [c] ++ ['\n']
  := by
  simp [endLine, h]

theorem endLine_plain (h : Scalar.allowsPlain cs) :
  endLine cs = cs ++ ['\n']
  := by
  simp only [Scalar.allowsPlain, Bool.and_eq_true, Bool.not_eq_true', List.any_eq_false] at h
  obtain ⟨⟨⟨⟨⟨-, hbreak⟩, -⟩, -⟩, -⟩, -⟩ := h
  rw [endLine, if_neg]
  cases hlast : cs.getLast? with
  | none => simp
  | some c => simpa using hbreak c (List.mem_of_getLast? hlast)

theorem Scalar.single_eq (indent : Nat) (cs : List Char) :
  Scalar.single indent cs = '\'' :: Scalar.singleBody indent cs ++ ['\'']
  := by
  simp only [Scalar.single, Scalar.singleBody, List.cons_append, List.append_assoc]
  rfl

theorem endLine_single (indent : Nat) (cs : List Char) :
  endLine (Scalar.single indent cs) = '\'' :: (Scalar.singleBody indent cs ++ '\'' :: ['\n'])
  := by
  have hquote : isBreak '\'' = false := by decide
  rw [Scalar.single_eq, endLine_concat hquote]
  simp

theorem endLine_double (cs : List Char) :
  endLine (Scalar.double cs) = '"' :: (cs.flatMap Scalar.doubled ++ '"' :: ['\n'])
  := by
  have hquote : isBreak '"' = false := by decide
  have hdouble : Scalar.double cs = '"' :: cs.flatMap Scalar.doubled ++ ['"'] := rfl
  rw [hdouble, endLine_concat hquote]
  simp

/-- The lines of a text end as the text ends. -/
theorem Scalar.getLast?_indentLines (indent : Nat) (fresh : Bool) (cs : List Char) :
  (Scalar.indentLines indent Scalar.verbatim fresh cs).getLast? = cs.getLast?
  := by
  induction cs generalizing fresh with
  | nil => rfl
  | cons c cs ih =>
    rw [Scalar.indentLines]
    split
    · rw [List.getLast?_cons, List.getLast?_cons, ih]
    · rw [List.getLast?_append, ih, List.getLast?_cons]
      cases cs.getLast? <;> simp [Scalar.verbatim]

theorem endLine_literal (hne : cs ≠ []) :
  endLine (Scalar.literal indent cs)
    = Scalar.literalHeader cs
      ++ '\n' :: (Scalar.indentLines indent Scalar.verbatim true cs ++ Scalar.closing cs)
  := by
  obtain ⟨c, hc⟩ := Option.isSome_iff_exists.mp (List.getLast?_isSome.mpr hne)
  have hlines : (Scalar.indentLines indent Scalar.verbatim true cs).getLast? = some c := by
    rw [Scalar.getLast?_indentLines, hc]
  have hliteral : Scalar.literal indent cs
      = Scalar.literalHeader cs ++ '\n' :: Scalar.indentLines indent Scalar.verbatim true cs := rfl
  have hlast : (Scalar.literal indent cs).getLast? = cs.getLast? := by
    rw [hliteral, List.getLast?_append, List.getLast?_cons, hlines, hc]
    rfl
  rw [endLine, hlast, Scalar.closing]
  split <;> simp [hliteral]

/-! ### Printable characters -/

/-- Only characters that may be read are printable, and no line break but the line feed is read as another
character. -/
theorem isAllowed_of_isPrintable (h : isPrintable c) :
  isAllowed c ∧ c ≠ '\r' ∧ c ≠ '\u0085' ∧ c ≠ '\ufeff'
  := by
  refine ⟨?_, ?_, ?_, ?_⟩
  · simp only [isPrintable, isAllowed, Bool.or_eq_true, Bool.and_eq_true, decide_eq_true_eq] at h ⊢
    omega
  all_goals
    rintro rfl
    revert h
    decide

theorem all_spaces (n : Nat) :
  (Scalar.spaces n).all isPrintable
  := by
  rw [List.all_eq_true]
  intro c hc
  obtain rfl := Scalar.eq_of_mem_spaces hc
  rfl

namespace Scalar

theorem all_indentLines {write : Char → List Char} (hwrite : ∀ c ∈ cs, (write c).all isPrintable)
    (hcs : cs.all isPrintable) (fresh : Bool) :
  (indentLines indent write fresh cs).all isPrintable
  := by
  induction cs generalizing fresh with
  | nil => rfl
  | cons c cs ih =>
    obtain ⟨hwriteHead, hwriteTail⟩ := List.forall_mem_cons.mp hwrite
    rw [List.all_cons, Bool.and_eq_true] at hcs
    obtain ⟨hc, hcs'⟩ := hcs
    rw [indentLines]
    split
    · rw [List.all_cons, hc, ih hwriteTail hcs', Bool.and_self]
    · rw [List.all_append, List.all_append, hwriteHead, ih hwriteTail hcs', Bool.and_true, Bool.and_true]
      split
      · apply all_spaces
      · rfl

theorem all_singled (h : isPrintable c) :
  (singled c).all isPrintable
  := by
  rw [singled]
  split
  · rfl
  · simpa using h

theorem all_singleBody (h : cs.all isPrintable) :
  (singleBody indent cs).all isPrintable
  := by
  rw [singleBody, List.all_append, Bool.and_eq_true]
  constructor
  · apply all_indentLines _ h
    exact fun c hc => all_singled (List.all_eq_true.mp h c hc)
  · split
    · apply all_spaces
    · rfl

theorem all_doubled (c : Char) :
  (doubled c).all isPrintable
  := by
  rw [doubled]
  split
  · obtain ⟨body, hbody⟩ := escapes c
    rw [hbody.written, List.all_cons, Bool.and_eq_true, List.all_eq_true]
    exact ⟨rfl, fun d hd => isPrintable_of_ascii (hbody.ascii d hd)⟩
  · rename_i hescape
    obtain ⟨hprintable, -⟩ := of_not_needsEscape (c := c) (by simpa using hescape)
    simpa using hprintable

theorem all_literalHeader (cs : List Char) :
  (literalHeader cs).all isPrintable
  := by
  rw [literalHeader_eq, List.all_cons, List.all_append]
  cases cs.head?.any (fun c => isSpace c || isBreak c) <;> cases Chomping.of cs <;> rfl

/-- All that is written for a text is printable. -/
theorem all_write (indent : Nat) (text : String) :
  (write indent text).all isPrintable
  := by
  rw [write]
  obtain ⟨hstyle, hplain, -⟩ | ⟨hstyle, hsingle, -⟩ | hstyle | ⟨hstyle, hliteral, -⟩ := style_cases text
  all_goals rw [hstyle]; dsimp only
  · simp only [allowsPlain, Bool.and_eq_true] at hplain
    exact hplain.1.1.1.1.1
  · simp only [allowsSingle, Bool.and_eq_true] at hsingle
    have hbody := @all_singleBody text.toList indent hsingle.1.1
    have hquote : isPrintable '\'' = true := rfl
    rw [single_eq]
    simp only [List.all_append, List.all_cons, hbody, hquote, List.all_nil, Bool.and_self]
  · have hbody : (text.toList.flatMap doubled).all isPrintable := by
      rw [List.all_flatMap, List.all_eq_true]
      exact fun c _ => all_doubled c
    have hquote : isPrintable '"' = true := rfl
    show ('"' :: text.toList.flatMap doubled ++ ['"']).all isPrintable
    simp only [List.all_append, List.all_cons, hbody, hquote, List.all_nil, Bool.and_self]
  · simp only [allowsLiteral, Bool.and_eq_true] at hliteral
    have hprintable := hliteral.1.1
    have hlines := @all_indentLines text.toList indent verbatim
      (fun c hc => by simpa [verbatim] using List.all_eq_true.mp hprintable c hc) hprintable true
    have hfeed : isPrintable '\n' = true := rfl
    show (literalHeader text.toList ++ '\n' :: indentLines indent verbatim true text.toList).all isPrintable
    simp only [List.all_append, List.all_cons, all_literalHeader, hlines, hfeed, Bool.and_self]

end Scalar

theorem all_endLine (h : cs.all isPrintable) :
  (endLine cs).all isPrintable
  := by
  rw [endLine]
  split
  · apply h
  · rw [List.all_append, h]
    rfl

end CertKeeper.Yaml
