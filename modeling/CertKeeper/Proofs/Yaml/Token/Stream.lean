import CertKeeper.Proofs.Yaml.Scalar.Style
import CertKeeper.Yaml.Token.Stream

/-!
# Cutting block texts into tokens

How the tokens of a block text are read one after another. A stream `Leads` to a later one if the same
tokens are read from both, so a text is cut by a chain of steps: over a gap (`leads_newLine`), over the
end of a block (`leads_blockEnd`), over a key and its colon (`leads_key`), over the dash of an entry
(`leads_dash`) and over a scalar in any style (`leads_scalar`). All of them start `unkeyed`, outside of
brackets and with no key under way.
-/

namespace CertKeeper.Yaml

namespace Stream

variable {s s' s'' : Stream} {c : Cursor} {ts : List Token} {indent next : Int} {outer : List Int}
  {allowed : Bool} {rest more : List Char} {line column k n : Nat}

/-- Pass a gap and close the blocks that end with it. -/
def arrive (s : Stream) : Except Fault Stream := do
  let s ← (skipGap (s.cursor.rest.length + 1) s).refreshKeys
  return s.unroll s.cursor.column

/-- Go on after a gap. -/
def resume (n : Nat) (s : Stream) : Except Fault (List Token) :=
  match s.cursor.rest with
  | [] => do
    let s ← s.leaveBlocks
    return s.tokens.reverse
  | ch :: rest => do readAll n (← s.readToken ch rest)

theorem readAll_succ (n : Nat) (s : Stream) :
  readAll (n + 1) s = s.arrive >>= resume n
  := by
  rw [readAll, arrive]
  cases (skipGap (s.cursor.rest.length + 1) s).refreshKeys <;> rfl

/-! ### One stream after another -/

/-- The same tokens are read from both streams. -/
def Leads (s s' : Stream) : Prop :=
  ∀ n, s.cursor.rest.length < n → ∃ n', s'.cursor.rest.length < n' ∧ readAll n s = readAll n' s'

theorem Leads.trans (h : Leads s s') (h' : Leads s' s'') :
  Leads s s''
  := by
  intro n hn
  obtain ⟨m, hm, hread⟩ := h n hn
  obtain ⟨l, hl, hread'⟩ := h' m hm
  exact ⟨l, hl, hread.trans hread'⟩

/-- Streams lead to each other if they arrive at the same place. -/
theorem Leads.of_arrive (h : s.arrive = s'.arrive) (hlength : s'.cursor.rest.length ≤ s.cursor.rest.length) :
  Leads s s'
  := by
  intro n hn
  obtain ⟨n, rfl⟩ := Nat.exists_eq_add_one.mpr (Nat.zero_lt_of_lt hn)
  exact ⟨n + 1, Nat.lt_of_le_of_lt hlength hn, by rw [readAll_succ, readAll_succ, h]⟩

/-- A stream leads to what is left of it after a token. -/
theorem Leads.of_token {ch : Char} (harrive : s.arrive = .ok s') (hrest : s'.cursor.rest = ch :: rest)
    (hread : s'.readToken ch rest = .ok s'') (hlength : s''.cursor.rest.length < s.cursor.rest.length) :
  Leads s s''
  := by
  intro n hn
  obtain ⟨n, rfl⟩ := Nat.exists_eq_add_one.mpr (Nat.zero_lt_of_lt hn)
  refine ⟨n, by omega, ?_⟩
  rw [readAll_succ, harrive]
  show resume n s' = _
  rw [resume, hrest]
  dsimp only
  rw [hread]
  rfl

/-! ### Gaps -/

/-- A token may start a text: the text begins neither with a separator nor with a comment. -/
def Starts (rest : List Char) : Prop := ∀ ch ∈ rest.head?, Solid ch

theorem starts_of_solid {ch : Char} (h : Solid ch) (rest : List Char) :
  Starts (ch :: rest)
  := by
  intro d hd
  obtain rfl : ch = d := Option.some.inj hd
  exact h

theorem starts_of_leading (h : Leading k rest) :
  Starts rest
  := by
  cases h with
  | none => exact fun _ hch => nomatch hch
  | some hc => simpa [Starts] using hc

theorem Starts.not_blank (h : Starts rest) :
  ∀ ch ∈ rest.head?, ch ≠ ' ' ∧ ch ≠ '\t' ∧ isBreak ch = false ∧ ch ≠ '#'
  := by
  intro ch hch
  obtain ⟨hsep, hcomment⟩ := h ch hch
  refine ⟨?_, ?_, isBreak_of_isSeparator_eq_false hsep, hcomment⟩ <;> rintro rfl <;> cases hsep

/-- Where a token starts, there is no gap behind the first spaces. -/
theorem skipGap_spaces (hrest : Starts rest) (hcursor : s.cursor = ⟨Scalar.spaces k ++ rest, line, column⟩) :
  skipGap (n + 1) s = s.moveTo ⟨rest, line, column + k⟩
  := by
  have hspace : ∀ tabs : Bool, (Scalar.spaces k ++ rest).takeWhile (fun ch => ch = ' ' || (tabs && ch = '\t'))
      = Scalar.spaces k := by
    intro tabs
    rw [List.takeWhile_append_of_pos]
    · cases rest with
      | nil => simp
      | cons ch rest =>
        obtain ⟨hspace, htab, -, -⟩ := hrest.not_blank ch rfl
        simp [hspace, htab]
    · intro c hc
      simp [Scalar.eq_of_mem_spaces hc]
  have hcomment : Cursor.skipComment ⟨rest, line, column + k⟩ = ⟨rest, line, column + k⟩ := by
    rw [Cursor.skipComment, if_neg]
    intro hch
    exact (hrest.not_blank '#' hch).2.2.2 rfl
  have hbreak : atBreak rest = false := by
    cases rest with
    | nil => rfl
    | cons ch rest => exact (hrest.not_blank ch rfl).2.2.1
  rw [skipGap]
  simp only [hcursor, Cursor.skipWhile, hspace, Scalar.length_spaces, Cursor.advance_spaces, hcomment]
  rw [if_neg]
  show ¬atBreak rest = true
  simp [hbreak]

/-- Where a token starts, there is no gap. -/
theorem skipGap_self (h : Starts s.cursor.rest) :
  skipGap (n + 1) s = s
  := @skipGap_spaces s s.cursor.rest s.cursor.line s.cursor.column 0 n h rfl

/-- A line break and the spaces of the next line are passed, and a key may start after them. -/
theorem skipGap_newLine (hrest : Starts rest) (hflow : s.inFlow = false)
    (hcursor : s.cursor = ⟨'\n' :: (Scalar.spaces k ++ rest), line, column⟩) :
  skipGap (n + 2) s = (s.allowKey true).moveTo ⟨rest, line + 1, k⟩
  := by
  have hspace : ∀ tabs : Bool, ('\n' :: (Scalar.spaces k ++ rest)).takeWhile
      (fun ch => ch = ' ' || (tabs && ch = '\t')) = [] := by
    intro tabs
    simp
  have hmove : s.moveTo ⟨'\n' :: (Scalar.spaces k ++ rest), line, column⟩ = s := by rw [← hcursor]; rfl
  have hcomment : Cursor.skipComment ⟨'\n' :: (Scalar.spaces k ++ rest), line, column⟩
      = ⟨'\n' :: (Scalar.spaces k ++ rest), line, column⟩ := rfl
  rw [skipGap]
  simp only [hcursor, Cursor.skipWhile, hspace, List.length_nil, Cursor.advance, hcomment, hmove]
  rw [if_pos (show atBreak ('\n' :: (Scalar.spaces k ++ rest)) = true from rfl), hflow, Bool.not_false,
    Bool.or_true]
  have hnext : ((s.skip 1).allowKey true).cursor = ⟨Scalar.spaces k ++ rest, line + 1, 0⟩ := by
    rw [allowKey, skip, moveTo, hcursor]
    rfl
  rw [skipGap_spaces hrest hnext, Nat.zero_add]
  rfl

/-! ### Blocks -/

/-- A stream outside of brackets with no key under way. -/
def unkeyed (c : Cursor) (tokens : List Token) (indent : Int) (outer : List Int) (allowed : Bool) : Stream :=
  { cursor := c, tokens := tokens, count := tokens.length, indent := indent, outer := outer,
    keyAllowed := allowed }

theorem arrive_unkeyed {c' : Cursor} {allowed' : Bool}
    (h : skipGap (c.rest.length + 1) (unkeyed c ts indent outer allowed)
      = unkeyed c' ts indent outer allowed') :
  (unkeyed c ts indent outer allowed).arrive
    = .ok ((unkeyed c' ts indent outer allowed').closeBlocks c'.column)
  := by
  rw [arrive, show (unkeyed c ts indent outer allowed).cursor.rest.length = c.rest.length from rfl, h]
  rfl

/-- A token starts at the place, or nothing is left. -/
theorem arrive_starts (h : Starts rest) :
  (unkeyed ⟨rest, line, column⟩ ts indent outer allowed).arrive
    = .ok ((unkeyed ⟨rest, line, column⟩ ts indent outer allowed).closeBlocks column)
  := by
  apply arrive_unkeyed
  apply skipGap_self
  apply h

theorem closeBlocks_self (h : s.indent ≤ column) :
  s.closeBlocks column = s
  := by
  have hnone : (s.indent :: s.outer).takeWhile (fun indent => (column : Int) < indent) = [] := by
    simp [h]
  rw [closeBlocks, hnone]
  rfl

/-- A block that is indented further is closed before those around it. -/
theorem closeBlocks_cons {before : Int} (h : before < indent) :
  (unkeyed c ts indent (next :: outer) allowed).closeBlocks before
    = (unkeyed c (.blockEnd :: ts) next outer allowed).closeBlocks before
  := by
  have hcons : (indent :: next :: outer).takeWhile (fun indent => before < indent)
      = indent :: (next :: outer).takeWhile (fun indent => before < indent) := by
    simp [h]
  simp only [closeBlocks, unkeyed]
  rw [hcons]
  generalize (next :: outer).takeWhile (fun indent => before < indent) = deeper
  have htokens : ∀ l : List Int, List.map (fun _ => Token.blockEnd) l ++ .blockEnd :: ts
      = .blockEnd :: (List.map (fun _ => Token.blockEnd) l ++ ts) := by
    intro l
    induction l with
    | nil => rfl
    | cons _ l ih => rw [List.map_cons, List.cons_append, List.cons_append, ih]
  rw [htokens]
  simp only [List.length_cons, List.map_cons, List.drop_succ_cons, List.cons_append, Nat.add_assoc,
    Nat.add_comm 1]

/-- Spaces lead to the token after them. -/
theorem leads_spaces (h : Starts rest) :
  Leads (unkeyed ⟨Scalar.spaces k ++ rest, line, column⟩ ts indent outer allowed)
    (unkeyed ⟨rest, line, column + k⟩ ts indent outer allowed)
  := by
  apply Leads.of_arrive
  · rw [arrive_starts h]
    apply arrive_unkeyed
    apply skipGap_spaces h rfl
  · simp [unkeyed]

/-- The end of a line leads to the token that starts the next one. -/
theorem leads_newLine (h : Starts rest) :
  Leads (unkeyed ⟨'\n' :: (Scalar.spaces k ++ rest), line, column⟩ ts indent outer allowed)
    (unkeyed ⟨rest, line + 1, k⟩ ts indent outer true)
  := by
  apply Leads.of_arrive
  · rw [arrive_starts h]
    apply arrive_unkeyed
    apply skipGap_newLine h rfl rfl
  · simp only [unkeyed, List.length_append, List.length_cons]
    omega

/-- A block ends before a line that is not indented as far. -/
theorem leads_blockEnd (h : Starts rest) (hk : (k : Int) < indent) :
  Leads (unkeyed ⟨rest, line, k⟩ ts indent (next :: outer) allowed)
    (unkeyed ⟨rest, line, k⟩ (.blockEnd :: ts) next outer allowed)
  := by
  apply Leads.of_arrive
  · rw [arrive_starts h, arrive_starts h, closeBlocks_cons hk]
  · exact Nat.le_refl _

/-- At its end a text leaves the outermost block. -/
theorem readAll_end (hn : 0 < n) :
  readAll n (unkeyed ⟨[], line, 0⟩ ts 0 [-1] allowed) = .ok (.blockEnd :: ts).reverse
  := by
  obtain ⟨n, rfl⟩ := Nat.exists_eq_add_one.mpr hn
  rw [readAll_succ, arrive_starts (starts_of_leading .none)]
  rfl

/-! ### Keys and entries -/

/-- A token at a column opens a block there, unless that block is open already. -/
inductive Opens (start : Token) (column : Nat) : List Token → Int → List Int → List Token → List Int → Prop
  | opened {ts : List Token} {outer : List Int} : Opens start column ts column outer ts outer
  | opens {ts : List Token} {indent : Int} {outer : List Int} : indent < column →
      Opens start column ts indent outer (start :: ts) (indent :: outer)

theorem Opens.le {start : Token} {ts' : List Token} {outer' : List Int}
    (h : Opens start column ts indent outer ts' outer') :
  indent ≤ column
  := by
  cases h with
  | opened => exact Int.le_refl _
  | opens h => exact Int.le_of_lt h

/-- The characters that begin other tokens than plain scalars. -/
def indicators : List Char := "#,[]\x7b\x7d&*!|>'\"%@\x60".toList

/-- A character may begin a plain scalar if it does not begin another token. -/
structure BeginsPlain (ch : Char) (rest : List Char) : Prop where
  separator : isSeparator ch = false
  indicator : ch ∉ indicators
  followed : ch = '-' ∨ ch = '?' ∨ ch = ':' → atSeparator rest = false

theorem startsPlain_of_beginsPlain {ch : Char} (h : BeginsPlain ch rest) :
  startsPlain false ch rest = true
  := by
  obtain ⟨hsep, hindicator, hfollowed⟩ := h
  have hall : ",[]\x7b\x7d#&*!|>'\"%@\x60".toList.all (fun d => decide (d ∈ indicators)) = true := by decide
  have hother : ",[]\x7b\x7d#&*!|>'\"%@\x60".contains ch = false := by
    rw [String.contains_char_eq, decide_eq_false_iff_not]
    intro hch
    apply hindicator
    simpa using List.all_eq_true.mp hall ch hch
  rw [startsPlain, hsep, hother]
  split
  · rename_i hch
    have hnext := hfollowed (.inl hch)
    cases rest with
    | nil => rfl
    | cons d rest =>
      have hd : isSpaceOrTab d = false := (Bool.or_eq_false_iff.mp hnext).1
      simp [hd]
  · split
    · rename_i hch
      simp [hfollowed (.inr (by simpa using hch))]
    · rfl

theorem readToken_plain {ch : Char} (hflow : s.inFlow = false)
    (hboundary : s.cursor.atDocumentBoundary = false) (h : BeginsPlain ch rest) :
  s.readToken ch rest = s.plain
  := by
  have hstarts := startsPlain_of_beginsPlain h
  obtain ⟨-, hindicator, hfollowed⟩ := h
  obtain ⟨hminus, hdots⟩ := Bool.or_eq_false_iff.mp hboundary
  have hne : ∀ d ∈ indicators, ch ≠ d := by
    rintro d hd rfl
    exact hindicator hd
  have hseparator : ∀ d, d = '-' ∨ d = '?' ∨ d = ':' → (decide (ch = d) && atSeparator rest) = false := by
    intro d hd
    by_cases hch : ch = d
    · rw [hfollowed (hch ▸ hd), Bool.and_false]
    · rw [decide_eq_false hch, Bool.false_and]
  have hpercent := hne '%' (by decide)
  have hbar := hne '|' (by decide)
  have hangle := hne '>' (by decide)
  have hdash := hseparator '-' (.inl rfl)
  have hquestion := hseparator '?' (.inr (.inl rfl))
  have hcolon := hseparator ':' (.inr (.inr rfl))
  rw [readToken, decide_eq_false hpercent, Bool.and_false, hminus, hdots]
  · simp only [Bool.false_eq_true, if_false, hflow, Bool.false_or, hdash, hquestion, hcolon, hbar, hangle,
      decide_false, Bool.false_and, hstarts, if_true]
  -- No other character begins a token.
  all_goals exact hne _ (by decide)

/-- Behind the start of a line, a colon before a separator is that of a value. -/
theorem readToken_colon (hpos : 0 < s.cursor.column) (hrest : atSeparator rest) :
  s.readToken ':' rest = s.colon
  := by
  obtain ⟨hminus, hdots⟩ := Bool.or_eq_false_iff.mp (not_atDocumentBoundary hpos)
  simp [readToken, hminus, hdots, hrest]

/-- The text of a key that is written without quotes. -/
structure IsKey (name : String) : Prop where
  letters : ∀ c ∈ name.toList, c.isAlpha = true
  short : name.toList.length ≤ keyBound
  typed : looksUntyped name = false

namespace IsKey

variable {name : String}

theorem ne_nil (h : IsKey name) :
  name.toList ≠ []
  := Scalar.ne_nil_of_not_looksUntyped h.typed

theorem plain (h : IsKey name) :
  Scalar.style name = .plain
  := Scalar.style_of_letters h.letters h.typed

theorem word (h : IsKey name) :
  Word name.toList
  := by
  refine ⟨h.ne_nil, fun c hc => not_isSeparator_of_isAlpha (h.letters c hc), ?_⟩
  intro hlast
  exact ne_of_isAlpha (h.letters ':' (List.mem_of_getLast? hlast)) (by decide) rfl

theorem head (h : IsKey name) :
  ∃ c cs, name.toList = c :: cs ∧ c.isAlpha = true
  := by
  obtain ⟨c, cs, hcs⟩ := List.exists_cons_of_ne_nil h.ne_nil
  exact ⟨c, cs, hcs, h.letters c (hcs ▸ List.mem_cons_self)⟩

theorem starts (h : IsKey name) (rest : List Char) :
  Leading k (name.toList ++ rest)
  := by
  obtain ⟨c, cs, hcs, hc⟩ := h.head
  rw [hcs]
  exact .some ⟨not_isSeparator_of_isAlpha hc, ne_of_isAlpha hc (by decide)⟩

end IsKey

/-- A letter begins a plain scalar. -/
theorem beginsPlain_of_isAlpha {ch : Char} (h : ch.isAlpha = true) (rest : List Char) :
  BeginsPlain ch rest
  := by
  refine ⟨not_isSeparator_of_isAlpha h, ?_, ?_⟩
  · intro hindicator
    have hall : indicators.all (fun d => !d.isAlpha) = true := by decide
    have hnot := List.all_eq_true.mp hall ch hindicator
    rw [h] at hnot
    cases hnot
  · rintro (rfl | rfl | rfl) <;> cases h

/-- A line that begins with a key bounds no document. -/
theorem IsKey.not_atDocumentBoundary {name : String} (h : IsKey name) (rest : List Char) (line column : Nat) :
  Cursor.atDocumentBoundary ⟨name.toList ++ rest, line, column⟩ = false
  := by
  obtain ⟨ch, cs, hcs, hch⟩ := h.head
  have hminus := ne_of_isAlpha hch (d := '-') (by decide)
  have hdot := ne_of_isAlpha hch (d := '.') (by decide)
  rw [hcs]
  simp [Cursor.atDocumentBoundary, Cursor.atBoundary, hminus.symm, hdot.symm]

/-- A stream in which the last token may be a key. -/
def keyed (c : Cursor) (t : Token) (tokens : List Token) (indent : Int) (outer : List Int)
    (key : KeyStart) : Stream :=
  { unkeyed c (t :: tokens) indent outer false with key := some key }

theorem arrive_keyed {t : Token} {key : KeyStart} (hrest : Starts rest) (hindent : indent ≤ column)
    (hline : key.line = line) (hshort : column ≤ key.column + keyBound) :
  (keyed ⟨rest, line, column⟩ t ts indent outer key).arrive
    = .ok (keyed ⟨rest, line, column⟩ t ts indent outer key)
  := by
  have hkey : KeyStart.refresh ⟨rest, line, column⟩ (some key) = .ok (some key) := by
    rw [KeyStart.refresh, if_neg]
    simp [hline, hshort]
  have hblocks : (keyed ⟨rest, line, column⟩ t ts indent outer key).closeBlocks column
      = keyed ⟨rest, line, column⟩ t ts indent outer key := closeBlocks_self hindent
  rw [arrive, skipGap_self hrest, refreshKeys]
  show (KeyStart.refresh ⟨rest, line, column⟩ (some key) >>= _) >>= _ = _
  rw [hkey]
  exact congrArg Except.ok hblocks

/-- The colon after a key stands behind the tokens of the key. -/
theorem colon_keyed {t : Token} {required : Bool} {ts' : List Token} {outer' : List Int} {line₁ : Nat}
    (h : Opens .blockMapping k ts indent outer ts' outer') :
  (keyed ⟨':' :: rest, line, column⟩ t ts indent outer ⟨required, ts.length, line₁, k⟩).colon
    = .ok (unkeyed ⟨rest, line, column + 1⟩ (.value :: t :: .key :: ts') k outer' false)
  := by
  have hkey :
      (keyed ⟨':' :: rest, line, column⟩ t ts indent outer ⟨required, ts.length, line₁, k⟩).insert ts.length .key
      = { keyed ⟨':' :: rest, line, column⟩ t ts indent outer ⟨required, ts.length, line₁, k⟩ with
          tokens := t :: .key :: ts, count := ts.length + 2 } := by
    have hlater : ts.length + 1 - ts.length = 1 := by omega
    simp only [insert, keyed, unkeyed, List.length_cons, hlater, List.take_succ_cons, List.take_zero,
      List.drop_succ_cons, List.drop_zero]
    rfl
  have hlater : ts.length + 2 - ts.length = 2 := by omega
  apply congrArg Except.ok
  show push (skip (allowKey
    { roll (insert _ ts.length .key) k ts.length .blockMapping with key := none } false) 1) .value = _
  rw [hkey, roll]
  cases h with
  | opened =>
    simp [keyed, unkeyed, inFlow, allowKey, skip, moveTo, push, Cursor.advance, isBreak]
  | opens h =>
    simp [keyed, unkeyed, inFlow, insert, hlater, h, allowKey, skip, moveTo, push, Cursor.advance, isBreak]

/-- A key is read up to its colon. -/
theorem plain_key {name : String} {body : List Char} (hname : IsKey name) (hbody : atSeparator body) :
  (unkeyed ⟨name.toList ++ ':' :: body, line, k⟩ ts indent outer true).plain
    = .ok (keyed ⟨':' :: body, line, k + name.toList.length⟩ (.scalar true name) ts indent outer
      ⟨decide (indent = k), ts.length, line, k⟩)
  := by
  have hcomment : name.toList.head? ≠ some '#' := by
    obtain ⟨ch, cs, hcs, hch⟩ := hname.head
    rw [hcs]
    rintro ⟨⟩
    cases hch
  show (plainScalar false (indent + 1).toNat ⟨name.toList ++ ':' :: body, line, k⟩ >>= _) = _
  rw [plainScalar_key hname.word hcomment (hname.not_atDocumentBoundary _ _ _) hbody]
  show Except.ok _ = _
  rw [String.ofList_toList]
  rfl

/-- A key at the start of a line leads to what is behind its colon. -/
theorem leads_key {name : String} {body : List Char} {ts' : List Token} {outer' : List Int}
    (hname : IsKey name) (hbody : atSeparator body) (h : Opens .blockMapping k ts indent outer ts' outer') :
  Leads (unkeyed ⟨name.toList ++ ':' :: body, line, k⟩ ts indent outer true)
    (unkeyed ⟨body, line, k + name.toList.length + 1⟩ (.value :: .scalar true name :: .key :: ts') k
      outer' false)
  := by
  have hindent := h.le
  have hshort := hname.short
  have hlength := List.length_pos_iff.mpr hname.ne_nil
  have hstarts := starts_of_leading (hname.starts (k := k) (':' :: body))
  have hcolon : Starts (':' :: body) := starts_of_solid ⟨rfl, by decide⟩ body
  obtain ⟨c, cs, hcs, hc⟩ := hname.head
  apply Leads.trans
  · apply Leads.of_token ((arrive_starts hstarts).trans (congrArg Except.ok (closeBlocks_self hindent)))
    · show name.toList ++ ':' :: body = c :: (cs ++ ':' :: body)
      rw [hcs]
      rfl
    · rw [readToken_plain rfl (hname.not_atDocumentBoundary _ _ _) (beginsPlain_of_isAlpha hc _)]
      exact plain_key hname hbody
    · show (':' :: body).length < (name.toList ++ ':' :: body).length
      rw [List.length_append]
      omega
  · have hpos : 0 < k + name.toList.length := by omega
    have harrive : (keyed ⟨':' :: body, line, k + name.toList.length⟩ (.scalar true name) ts indent outer
        ⟨decide (indent = k), ts.length, line, k⟩).arrive = .ok _ :=
      arrive_keyed hcolon (by omega) rfl (show k + name.toList.length ≤ k + keyBound by omega)
    apply Leads.of_token harrive rfl
    · rw [readToken_colon hpos hbody, colon_keyed h]
    · exact Nat.lt_succ_self _

theorem openBlock_unkeyed {start : Token} {ts' : List Token} {outer' : List Int}
    (h : Opens start k ts indent outer ts' outer') :
  (unkeyed ⟨rest, line, k⟩ ts indent outer true).openBlock start
    = .ok (unkeyed ⟨rest, line, k⟩ ts' k outer' true)
  := by
  show Except.ok (roll _ k ts.length start) = _
  cases h with
  | opened => simp [roll, unkeyed]
  | opens h => simp [roll, unkeyed, inFlow, insert, h]

/-- The dash of an entry at the start of a line leads to what stands behind it. -/
theorem leads_dash {ts' : List Token} {outer' : List Int} (hrest : Starts rest)
    (h : Opens .blockSequence k ts indent outer ts' outer') :
  Leads (unkeyed ⟨'-' :: ' ' :: rest, line, k⟩ ts indent outer true)
    (unkeyed ⟨rest, line, k + 2⟩ (.blockEntry :: ts') k outer' true)
  := by
  have hstarts : Starts ('-' :: ' ' :: rest) := starts_of_solid ⟨rfl, by decide⟩ _
  have hread : (unkeyed ⟨'-' :: ' ' :: rest, line, k⟩ ts indent outer true).dash
      = .ok (unkeyed ⟨Scalar.spaces 1 ++ rest, line, k + 1⟩ (.blockEntry :: ts') k outer' true) := by
    rw [dash, openBlock_unkeyed h]
    rfl
  apply Leads.trans
  · apply Leads.of_token ((arrive_starts hstarts).trans (congrArg Except.ok (closeBlocks_self h.le))) rfl
    · have hnone : Cursor.atDocumentBoundary ⟨'-' :: ' ' :: rest, line, k⟩ = false := by
        simp [Cursor.atDocumentBoundary, Cursor.atBoundary]
      obtain ⟨hminus, hdots⟩ := Bool.or_eq_false_iff.mp hnone
      rw [← hread]
      simp [readToken, unkeyed, hminus, hdots, atSeparator, isSeparator, isSpaceOrTab]
    · simp [unkeyed, Scalar.spaces]
  · apply leads_spaces hrest

/-! ### Values -/

/-- A scalar is read at a place behind the start of a line. -/
theorem leads_value {ch : Char} {t : Token} (hstarts : Starts (ch :: rest)) (hpos : 0 < column)
    (hindent : indent ≤ column)
    (hread : Cursor.atDocumentBoundary ⟨ch :: rest, line, column⟩ = false →
      (unkeyed ⟨ch :: rest, line, column⟩ ts indent outer false).readToken ch rest
        = .ok (unkeyed c (t :: ts) indent outer allowed))
    (hlength : c.rest.length < (ch :: rest).length) :
  Leads (unkeyed ⟨ch :: rest, line, column⟩ ts indent outer false) (unkeyed c (t :: ts) indent outer allowed)
  := Leads.of_token ((arrive_starts hstarts).trans (congrArg Except.ok (closeBlocks_self hindent))) rfl
    (hread (not_atDocumentBoundary hpos)) hlength

/-- A text that can be written without quotes begins a plain scalar. -/
theorem beginsPlain_of_allowsPlain {ch : Char} {cs : List Char} (h : Scalar.allowsPlain (ch :: cs))
    (rest : List Char) :
  BeginsPlain ch (cs ++ rest)
  := by
  obtain ⟨hwords, -⟩ := Scalar.words_of_allowsPlain (List.cons_ne_nil ch cs) h
  simp only [Scalar.allowsPlain, Bool.and_eq_true, Bool.not_eq_true'] at h
  obtain ⟨⟨-, hstart⟩, -⟩ := h
  simp only [Scalar.startsWithIndicator, Bool.or_eq_false_iff, String.contains_char_eq] at hstart
  obtain ⟨⟨⟨hindicator, hfollowed⟩, -⟩, -⟩ := hstart
  refine ⟨?_, of_decide_eq_false hindicator, ?_⟩
  · obtain ⟨d, ds, hsplit, hd⟩ := hwords.head
    obtain ⟨rfl, -⟩ := List.cons.inj hsplit
    exact hd
  · intro hch
    have hmem : ch ∈ "?:-".toList := by
      rcases hch with rfl | rfl | rfl <;> decide
    rw [decide_eq_true hmem, Bool.true_and] at hfollowed
    cases cs with
    | nil => cases hfollowed
    | cons d ds => exact hfollowed

/-- A plain scalar is read with the end of its line. -/
theorem leads_plain {cs : List Char} (hne : cs ≠ []) (hplain : Scalar.allowsPlain cs) (hpos : 0 < column)
    (hindent : (k : Int) ≤ indent) (hcolumn : indent < column) (hrest : Leading k rest) :
  Leads (unkeyed ⟨cs ++ ('\n' :: Scalar.spaces k ++ rest), line, column⟩ ts indent outer false)
    (unkeyed ⟨rest, line + 1, k⟩ (.scalar true (String.ofList cs) :: ts) indent outer true)
  := by
  obtain ⟨hwords, hcomment⟩ := Scalar.words_of_allowsPlain hne hplain
  have hread := @plainScalar_words cs rest (indent + 1).toNat line column k hwords hcomment (by omega) hpos
    (by omega) hrest
  obtain ⟨ch, cs, rfl⟩ := List.exists_cons_of_ne_nil hne
  have hbegins := beginsPlain_of_allowsPlain hplain ('\n' :: Scalar.spaces k ++ rest)
  have hstarts : Starts (ch :: (cs ++ ('\n' :: Scalar.spaces k ++ rest))) :=
    starts_of_solid ⟨hbegins.separator, fun h => hcomment (congrArg some h)⟩ _
  apply leads_value hstarts hpos (Int.le_of_lt hcolumn)
  · intro hboundary
    rw [readToken_plain rfl hboundary hbegins]
    show (plainScalar false (indent + 1).toNat ⟨ch :: cs ++ ('\n' :: Scalar.spaces k ++ rest), line, column⟩
      >>= _) = _
    rw [hread]
    rfl
  · simp only [List.length_append, List.length_cons]
    omega

theorem readToken_quote {quote : Char} (hquote : quote = '\'' ∨ quote = '"')
    (hboundary : s.cursor.atDocumentBoundary = false) :
  s.readToken quote rest = s.quoted quote
  := by
  obtain ⟨hminus, hdots⟩ := Bool.or_eq_false_iff.mp hboundary
  rcases hquote with rfl | rfl <;> simp [readToken, hminus, hdots]

theorem readToken_bar (hflow : s.inFlow = false) (hboundary : s.cursor.atDocumentBoundary = false) :
  s.readToken '|' rest = s.block false
  := by
  obtain ⟨hminus, hdots⟩ := Bool.or_eq_false_iff.mp hboundary
  simp [readToken, hminus, hdots, hflow]

/-- A quoted scalar is read with the end of its line. -/
theorem leads_quoted {quote : Char} {cs body : List Char} {line₁ column₁ : Nat}
    (hquote : quote = '\'' ∨ quote = '"')
    (hread : quotedScalar quote ⟨body ++ '\n' :: (Scalar.spaces k ++ rest), line, column + 1⟩
      = .ok (cs, ⟨'\n' :: (Scalar.spaces k ++ rest), line₁, column₁⟩))
    (hpos : 0 < column) (hindent : indent ≤ column) (hrest : Leading k rest) :
  Leads (unkeyed ⟨quote :: (body ++ '\n' :: (Scalar.spaces k ++ rest)), line, column⟩ ts indent outer false)
    (unkeyed ⟨rest, line₁ + 1, k⟩ (.scalar false (String.ofList cs) :: ts) indent outer true)
  := by
  have hsolid : Solid quote := by
    rcases hquote with rfl | rfl <;> exact ⟨rfl, by decide⟩
  have hstarts : Starts (quote :: (body ++ '\n' :: (Scalar.spaces k ++ rest))) := starts_of_solid hsolid _
  have hadvance := Cursor.advance_one (isBreak_of_isSeparator_eq_false hsolid.1)
    (body ++ '\n' :: (Scalar.spaces k ++ rest)) line column
  have hvalue : Leads
      (unkeyed ⟨quote :: (body ++ '\n' :: (Scalar.spaces k ++ rest)), line, column⟩ ts indent outer false)
      (unkeyed ⟨'\n' :: (Scalar.spaces k ++ rest), line₁, column₁⟩ (.scalar false (String.ofList cs) :: ts)
        indent outer false) := by
    apply leads_value hstarts hpos hindent
    · intro hboundary
      rw [readToken_quote hquote hboundary]
      show (quotedScalar quote
        (Cursor.advance 1 ⟨quote :: (body ++ '\n' :: (Scalar.spaces k ++ rest)), line, column⟩) >>= _) = _
      rw [hadvance, hread]
      rfl
    · simp only [List.length_append, List.length_cons]
      omega
  exact hvalue.trans (leads_newLine (starts_of_leading hrest))

/-- A literal block is read with the spaces of the next line. -/
theorem leads_literal {cs : List Char} (hcs : Scalar.allowsLiteral cs) (hne : cs ≠ []) (hpos : 0 < column)
    {outer' : Nat} (hk : k ≤ outer') (hcolumn : outer' ≤ column) (hrest : Leading k rest) :
  ∃ line', Leads
    (unkeyed ⟨Scalar.literalHeader cs ++ '\n' :: (Scalar.indentLines (outer' + 2) Scalar.verbatim true cs
      ++ (Scalar.closing cs ++ (Scalar.spaces k ++ rest))), line, column⟩ ts outer' outer false)
    (unkeyed ⟨rest, line', k⟩ (.scalar false (String.ofList cs) :: ts) outer' outer true)
  := by
  obtain ⟨line', hread⟩ := @blockScalar_literal cs rest line (column + 1) k outer' hcs hne hk hrest
  refine ⟨line', ?_⟩
  have hheader : Scalar.literalHeader cs = '|' :: (Scalar.literalHeader cs).tail := by
    rw [literalHeader_eq, List.tail_cons]
  rw [hheader, List.cons_append]
  have hlength : rest.length < ((Scalar.literalHeader cs).tail ++ '\n' :: (Scalar.indentLines (outer' + 2)
      Scalar.verbatim true cs ++ (Scalar.closing cs ++ (Scalar.spaces k ++ rest)))).length := by
    simp only [List.length_append, List.length_cons]
    omega
  generalize (Scalar.literalHeader cs).tail
    ++ '\n' :: (Scalar.indentLines (outer' + 2) Scalar.verbatim true cs
    ++ (Scalar.closing cs ++ (Scalar.spaces k ++ rest))) = body at hread hlength
  have hstarts : Starts ('|' :: body) := starts_of_solid ⟨rfl, by decide⟩ body
  apply leads_value hstarts hpos (by omega)
  · intro hboundary
    rw [readToken_bar rfl hboundary]
    show (blockScalar false outer' (Cursor.advance 1 ⟨'|' :: body, line, column⟩) >>= _) = _
    rw [Cursor.advance_one rfl, hread]
    rfl
  · exact Nat.lt_succ_of_lt hlength

/-- The text of a scalar starts with a token. -/
theorem starts_scalar (indent : Nat) (text : String) (rest : List Char) :
  Starts (endLine (Scalar.write indent text) ++ rest)
  := by
  rw [Scalar.write]
  obtain ⟨hstyle, hplain, huntyped⟩ | ⟨hstyle, -⟩ | hstyle | ⟨hstyle, -, hfeed⟩ := Scalar.style_cases text
  all_goals rw [hstyle]; dsimp only
  · obtain ⟨hwords, hcomment⟩ :=
      Scalar.words_of_allowsPlain (Scalar.ne_nil_of_not_looksUntyped huntyped) hplain
    obtain ⟨c, cs, hcs, hc⟩ := hwords.head
    rw [hcs] at hcomment
    rw [endLine_plain hplain, hcs]
    exact starts_of_solid ⟨hc, fun h => hcomment (congrArg some h)⟩ _
  · rw [endLine_single]
    exact starts_of_solid ⟨rfl, by decide⟩ _
  · rw [endLine_double]
    exact starts_of_solid ⟨rfl, by decide⟩ _
  · rw [endLine_literal (List.ne_nil_of_mem hfeed), literalHeader_eq]
    exact starts_of_solid ⟨rfl, by decide⟩ _

/-- A scalar in any style is read together with the end of its line. -/
theorem leads_scalar {m : Nat} (text : String) (hk : k ≤ m) (hcolumn : m < column) (hrest : Leading k rest) :
  ∃ line', Leads
    (unkeyed ⟨endLine (Scalar.write (m + 2) text) ++ (Scalar.spaces k ++ rest), line, column⟩ ts m outer
      false)
    (unkeyed ⟨rest, line', k⟩ (.scalar (Scalar.style text = .plain) text :: ts) m outer true)
  := by
  have hpos : 0 < column := by omega
  have hindent : (m : Int) ≤ column := by omega
  rw [Scalar.write]
  obtain ⟨hstyle, hplain, huntyped⟩ | ⟨hstyle, hsingle, hfeed⟩ | hstyle | ⟨hstyle, hliteral, hfeed⟩ :=
    Scalar.style_cases text
  all_goals rw [hstyle]; dsimp only
  · have hread := @leads_plain ts m outer rest line column k text.toList
      (Scalar.ne_nil_of_not_looksUntyped huntyped) hplain hpos (by omega) (by omega) hrest
    rw [String.ofList_toList] at hread
    rw [endLine_plain hplain, List.append_assoc]
    exact ⟨line + 1, hread⟩
  · obtain ⟨line₁, column₁, hread⟩ := @quotedScalar_single text.toList ('\n' :: (Scalar.spaces k ++ rest))
      (m + 2) (Nat.succ_pos _) hsingle hfeed (by simp) line column
    rw [List.append_cons] at hread
    have hleads := @leads_quoted ts m outer rest line column k '\'' text.toList _ line₁ column₁
      (.inl rfl) hread hpos hindent hrest
    rw [String.ofList_toList] at hleads
    refine ⟨line₁ + 1, ?_⟩
    rw [endLine_single]
    simpa using hleads
  · obtain ⟨line₁, column₁, hread⟩ :=
      quotedScalar_double text.toList ('\n' :: (Scalar.spaces k ++ rest)) line column
    rw [List.append_cons] at hread
    have hleads := @leads_quoted ts m outer rest line column k '"' text.toList _ line₁ column₁
      (.inr rfl) hread hpos hindent hrest
    rw [String.ofList_toList] at hleads
    refine ⟨line₁ + 1, ?_⟩
    rw [endLine_double]
    simpa using hleads
  · obtain ⟨line', hread⟩ := @leads_literal ts outer rest line column k text.toList hliteral
      (List.ne_nil_of_mem hfeed) hpos m hk (Nat.le_of_lt hcolumn) hrest
    rw [String.ofList_toList] at hread
    rw [endLine_literal (List.ne_nil_of_mem hfeed), List.append_assoc, List.cons_append, List.append_assoc]
    exact ⟨line', hread⟩

end Stream

end CertKeeper.Yaml
