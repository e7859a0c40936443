import CertKeeper.Encoding.Pem
import CertKeeper.Proofs.Encoding.Base64

/-!
# Reading blocks

A text that is made of blocks is read as these blocks (`Pem.blocks_join`). The markers of
blocks begin with a dash, and neither a tag nor the data of a block has one, so that the
search for a marker stops at the marker that was written (`Pem.splitAt?_append`). The data
has no empty line, which would end the headers of a block.
-/

namespace CertKeeper.Pem

/-! ### Searching for markers -/

/-- A marker is found where it is continued. -/
theorem scan_marker (marker more seen rest : List Char) (h : more ≠ []) :
  scan marker more seen (more ++ rest)
    = some (((more.reverse ++ seen).drop marker.length).reverse, rest)
  := by
  induction more generalizing seen with
  | nil => exact absurd rfl h
  | cons m more ih =>
    rw [List.cons_append, scan]
    simp only [if_true]
    cases more with
    | nil => rfl
    | cons m' more =>
      simp only [List.isEmpty_cons, Bool.false_eq_true, if_false]
      rw [ih _ (by simp)]
      simp

/-- The search passes over characters that do not start the marker. -/
theorem scan_append {m : Char} {marker pre : List Char} (h : ∀ c ∈ pre, c ≠ m)
    (seen rest : List Char) :
  scan (m :: marker) (m :: marker) seen (pre ++ rest)
    = scan (m :: marker) (m :: marker) (pre.reverse ++ seen) rest
  := by
  induction pre generalizing seen with
  | nil => rfl
  | cons c pre ih =>
    have hc : c ≠ m := h c (by simp)
    rw [List.cons_append, scan]
    simp only [if_neg hc]
    rw [ih (fun c' hc' => h c' (by simp [hc']))]
    simp

/-- A marker is found after characters that do not start it. -/
theorem splitAt?_append (marker : String) {m : Char} {more : List Char} (pre : List Char)
    (hmarker : marker.toList = m :: more) (h : ∀ c ∈ pre, c ≠ m) (rest : List Char) :
  splitAt? marker (pre ++ (marker.toList ++ rest)) = some (pre, rest)
  := by
  rw [splitAt?, hmarker, scan_append h, scan_marker _ _ _ _ (by simp),
    List.drop_left' (List.length_reverse), List.append_nil, List.reverse_reverse]

/-- A marker is not found among characters that do not start it. -/
theorem splitAt?_eq_none {m : Char} {more cs : List Char} (marker : String)
    (hmarker : marker.toList = m :: more) (h : ∀ c ∈ cs, c ≠ m) :
  splitAt? marker cs = none
  := by
  rw [splitAt?, hmarker, ← List.append_nil cs, scan_append h]
  rfl

/-! ### The data of a block -/

/-- The data of a block as it stands in a text. -/
def wrapped (content : Octets) : List Char :=
  if content.isEmpty then [] else wrap 63 64 (Base64.encode content)

theorem mem_wrap {width room : Nat} {cs : List Char} {c : Char} (h : c ∈ wrap width room cs) :
  c = '\n' ∨ c ∈ cs
  := by
  induction cs generalizing room with
  | nil =>
    simp only [wrap, List.mem_singleton] at h
    exact .inl h
  | cons c' rest ih =>
    cases room with
    | zero =>
      simp only [wrap, List.mem_cons] at h
      rcases h with rfl | rfl | h
      · exact .inl rfl
      · exact .inr List.mem_cons_self
      · rcases ih h with rfl | h
        · exact .inl rfl
        · exact .inr (List.mem_cons_of_mem _ h)
    | succ room =>
      simp only [wrap, List.mem_cons] at h
      rcases h with rfl | h
      · exact .inr List.mem_cons_self
      · rcases ih h with rfl | h
        · exact .inl rfl
        · exact .inr (List.mem_cons_of_mem _ h)

/-- Without the ends of lines the characters are there as they were. -/
theorem filter_wrap {width room : Nat} {cs : List Char} (h : ∀ c ∈ cs, isBlank c = false) :
  (wrap width room cs).filter (fun c => !isBlank c) = cs
  := by
  induction cs generalizing room with
  | nil =>
    simp only [wrap]
    rfl
  | cons c rest ih =>
    have hc : isBlank c = false := h c (by simp)
    have hrest : ∀ {room}, (wrap width room rest).filter (fun c => !isBlank c) = rest :=
      ih (fun c' hc' => h c' (by simp [hc']))
    cases room with
    | zero =>
      rw [wrap, List.filter_cons_of_neg (by decide), List.filter_cons_of_pos (by simp [hc]), hrest]
    | succ room => rw [wrap, List.filter_cons_of_pos (by simp [hc]), hrest]

/-- There is no empty line. -/
theorem scan_wrap {width room : Nat} {cs : List Char} (hcs : ∀ c ∈ cs, c ≠ '\n')
    (seen : List Char) :
  scan ['\n', '\n'] ['\n', '\n'] seen (wrap width room cs) = none
  := by
  induction cs generalizing room seen with
  | nil => simp [wrap, scan]
  | cons c rest ih =>
    have hc : c ≠ '\n' := hcs c (by simp)
    have hrest : ∀ room seen, scan ['\n', '\n'] ['\n', '\n'] seen (wrap width room rest) = none :=
      fun room seen => ih (fun c' hc' => hcs c' (by simp [hc'])) seen
    cases room with
    | zero => simp [wrap, scan, hc, hrest]
    | succ room => simp [wrap, scan, hc, hrest]

theorem mem_wrapped {content : Octets} {c : Char} (h : c ∈ wrapped content) :
  c = '\n' ∨ Base64.Symbolic c
  := by
  unfold wrapped at h
  split at h
  · cases h
  · rcases mem_wrap h with rfl | h
    · exact .inl rfl
    · exact .inr (Base64.symbolic_of_mem_encode h)

theorem ne_dash_of_mem_wrapped {content : Octets} {c : Char} (h : c ∈ wrapped content) :
  c ≠ '-'
  := by
  rcases mem_wrapped h with rfl | h
  · decide
  · apply h.ne_dash

/-- The data of a block is read as its octets. -/
theorem decode?_wrapped (content : Octets) :
  Base64.decode? ((wrapped content).filter (fun c => !isBlank c)) = some content
  := by
  unfold wrapped
  split
  · rename_i h
    rw [List.isEmpty_iff.mp h]
    rfl
  · rw [filter_wrap (fun c hc => (Base64.symbolic_of_mem_encode hc).isBlank_eq_false)]
    apply Base64.decode?_encode

theorem headersAndData_wrapped (content : Octets) :
  headersAndData (wrapped content) = ([], wrapped content)
  := by
  have hlines : splitAt? "\n\n" (wrapped content) = none := by
    unfold wrapped
    split
    · rfl
    · apply scan_wrap
      intro c hc hline
      subst hline
      exact absurd (Base64.symbolic_of_mem_encode hc).isBlank_eq_false (by decide)
  have hreturns : splitAt? "\x0d\n\x0d\n" (wrapped content) = none := by
    apply splitAt?_eq_none "\x0d\n\x0d\n" (m := '\x0d') rfl
    intro c hc hreturn
    subst hreturn
    rcases mem_wrapped hc with h | h
    · exact absurd h (by decide)
    · exact absurd h.isBlank_eq_false (by decide)
  rw [headersAndData, hlines, hreturns]
  rfl

/-! ### Blocks -/

/-- The tag can stand in a marker. -/
def Block.Tagged (b : Block) : Prop := b.tag ≠ "" ∧ ∀ c ∈ b.tag.toList, c ≠ '-'

/-- What stands between the marker at the start of a block and the end of the block. -/
theorem toList_encode (b : Block) :
  (encode b).toList
    = "-----BEGIN ".toList ++ (b.tag.toList ++ ("-----".toList ++ ('\n' ::
        (wrapped b.content ++ ("-----END ".toList ++ (b.tag.toList ++ ("-----".toList ++ ['\n'])))))))
  := by
  have hopen : "-----\n".toList = "-----".toList ++ ['\n'] := rfl
  delta encode
  simp only [String.toList_append, String.toList_ofList, hopen, List.append_assoc,
    List.singleton_append]
  rfl

theorem skipSpace_cons {c : Char} (cs : List Char)
    (h : (c = ' ' || c = '\t' || c = '\n' || c = '\x0d') = false) :
  skipSpace (c :: cs) = c :: cs
  := by
  rw [skipSpace, List.dropWhile_cons_of_neg]
  simpa using h

/-- The data of a block does not begin with space. -/
theorem skipSpace_wrapped (content : Octets) (rest : List Char) :
  skipSpace ('\n' :: (wrapped content ++ '-' :: rest)) = wrapped content ++ '-' :: rest
  := by
  rw [skipSpace, List.dropWhile_cons_of_pos (by decide), ← skipSpace]
  unfold wrapped
  split
  · apply skipSpace_cons
    decide
  · rename_i hcontent
    have hne := Base64.encode_ne_nil content (by simpa using hcontent)
    obtain ⟨c, cs, hencode⟩ := List.exists_cons_of_ne_nil hne
    rw [hencode, wrap, List.cons_append]
    apply skipSpace_cons
    have hmem : c ∈ Base64.encode content := by simp [hencode]
    have hblank := (Base64.symbolic_of_mem_encode hmem).isBlank_eq_false
    have hspace : ∀ c' ∈ [' ', '\t', '\n', '\x0d'], c ≠ c' := by
      intro c' hc' hsame
      subst hsame
      simp only [List.mem_cons, List.not_mem_nil, or_false] at hc'
      rcases hc' with rfl | rfl | rfl | rfl <;> exact absurd hblank (by decide)
    simp only [List.mem_cons, List.not_mem_nil, or_false, forall_eq_or_imp, forall_eq] at hspace
    simp [hspace]

/-- The parts of a block that stands at the start of a text. -/
theorem firstParts?_encode {b : Block} (h : b.Tagged) (rest : List Char) :
  firstParts? ((encode b).toList ++ rest)
    = some (⟨b.tag.toList, [], wrapped b.content, b.tag.toList⟩, skipSpace rest)
  := by
  have hbegin := splitAt?_append "-----BEGIN " (m := '-') [] rfl (by simp)
  have htag := splitAt?_append "-----" (m := '-') b.tag.toList rfl h.2
  have hdata := splitAt?_append "-----END " (m := '-') (wrapped b.content) rfl
    (fun c hc => ne_dash_of_mem_wrapped hc)
  have hskip : ∀ more, skipSpace ('\n' :: (wrapped b.content ++ ("-----END ".toList ++ more)))
      = wrapped b.content ++ ("-----END ".toList ++ more) := fun more => skipSpace_wrapped _ _
  rw [toList_encode]
  simp only [List.nil_append] at hbegin
  simp only [firstParts?, List.append_assoc, List.cons_append, Option.bind_eq_bind, hbegin,
    Option.bind_some, htag, hskip, hdata, headersAndData_wrapped, List.nil_append]
  rw [skipSpace, List.dropWhile_cons_of_pos (by decide), ← skipSpace]
  rfl

/-- The parts of a block are sound. -/
theorem block?_encode {b : Block} (h : b.Tagged) :
  block? ⟨b.tag.toList, [], wrapped b.content, b.tag.toList⟩ = some b
  := by
  have hne : b.tag.toList.isEmpty = false := by
    simpa using h.1
  simp only [block?, hne, Bool.or_self, ne_eq, not_true_eq_false, decide_false,
    Bool.false_eq_true, if_false, lines, List.any_nil, decode?_wrapped, Option.map_some,
    String.ofList_toList]

/-- The first block of a text that begins with a block is that block. -/
theorem first_encode_append {b : Block} (h : b.Tagged) (rest : String) :
  first (encode b ++ rest) = some b
  := by
  rw [first, String.toList_append, firstParts?_encode h]
  apply block?_encode h

theorem first_encode {b : Block} (h : b.Tagged) :
  first (encode b) = some b
  := by
  have := first_encode_append h ""
  rwa [String.append_empty] at this

theorem allParts_nil :
  allParts [] = []
  := by
  rw [allParts]
  rfl

/-- The parts of the blocks that a text is made of. -/
theorem allParts_join {bs : List Block} (h : ∀ b ∈ bs, b.Tagged) :
  allParts (String.join (bs.map encode)).toList
    = bs.map (fun b => ⟨b.tag.toList, [], wrapped b.content, b.tag.toList⟩)
  := by
  induction bs with
  | nil => apply allParts_nil
  | cons b bs ih =>
    have hskip : skipSpace (String.join (bs.map encode)).toList
        = (String.join (bs.map encode)).toList := by
      cases bs with
      | nil => rfl
      | cons b' bs =>
        rw [List.map_cons, String.join_cons, String.toList_append, toList_encode]
        apply skipSpace_cons
        decide
    rw [List.map_cons, String.join_cons, String.toList_append, allParts]
    split
    · rename_i hnone
      rw [firstParts?_encode (h b (by simp))] at hnone
      cases hnone
    · rename_i parts rest hsome
      rw [firstParts?_encode (h b (by simp)), hskip] at hsome
      cases hsome
      rw [ih (fun b' hb' => h b' (by simp [hb'])), List.map_cons]

/-- A text that is made of blocks is read as these blocks. -/
theorem blocks_join (bs : List Block) (h : ∀ b ∈ bs, b.Tagged) :
  blocks (String.join (bs.map encode)) = some bs
  := by
  rw [blocks, allParts_join h]
  induction bs with
  | nil => rfl
  | cons b bs ih =>
    rw [List.map_cons, List.mapM_cons, block?_encode (h b (by simp)),
      ih (fun b' hb' => h b' (by simp [hb']))]
    rfl

end CertKeeper.Pem
