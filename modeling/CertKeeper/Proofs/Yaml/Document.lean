import CertKeeper.Proofs.Yaml.Token.Stream

/-!
# Cutting written documents into tokens

The text of a document is cut into the `tokens` of the document, if the document is a mapping of
`Record`s or a list of such mappings (`ofText_write`). Each field of a mapping leads to the next one
(`leads_fields`), and each item of a list to the next one (`leads_items`).
-/

namespace CertKeeper.Yaml

open Document (text list map)
open CertKeeper.Yaml.Stream

/-! ### Records -/

/-- The fields of a mapping with names for its keys. -/
def entries (fields : List (String × Document)) : List (Document × Document) :=
  fields.map (fun field => (text field.1, field.2))

/-- A text, or a mapping of records down to a depth whose keys need no quotes. -/
inductive Record : Nat → Document → Prop
  | text {depth : Nat} (s : String) : Record depth (text s)
  | map {depth : Nat} {fields : List (String × Document)} : fields ≠ [] → (∀ field ∈ fields, IsKey field.1) →
      (∀ field ∈ fields, Record depth field.2) → Record (depth + 1) (map (entries fields))

mutual

/-- The tokens of a document. -/
def tokens : Document → List Token
  | text s => [.scalar (Scalar.style s = .plain) s]
  | list items => .blockSequence :: itemTokens items ++ [.blockEnd]
  | map fields => .blockMapping :: fieldTokens fields ++ [.blockEnd]
  | _ => []

/-- The tokens of the items of a list. -/
def itemTokens : List Document → List Token
  | [] => []
  | item :: items => .blockEntry :: tokens item ++ itemTokens items

/-- The tokens of the fields of a mapping. -/
def fieldTokens : List (Document × Document) → List Token
  | [] => []
  | (key, value) :: fields => .key :: tokens key ++ .value :: tokens value ++ fieldTokens fields

end

/-! ### The text of a field -/

/-- What is written behind the colon of a key. -/
def writeValue (indent : Nat) : Document → List Char
  | list (item :: items) => '\n' :: Scalar.spaces indent ++ writeItems indent (item :: items)
  | map (field :: fields) => '\n' :: Scalar.spaces (indent + 2) ++ writeFields (indent + 2) (field :: fields)
  | d => ' ' :: endLine ((scalarText? (indent + 2) d).getD [])

theorem writeFields_cons (indent : Nat) (key value : Document) (fields : List (Document × Document)) :
  writeFields indent ((key, value) :: fields)
    = keyText key ++ ':' :: writeValue indent value
      ++ (if fields.isEmpty then [] else Scalar.spaces indent ++ writeFields indent fields)
  := by
  cases value with
  | list items => cases items <;> rw [writeFields, writeValue] <;> simp
  | map fields => cases fields <;> rw [writeFields, writeValue] <;> simp
  | _ => rw [writeFields, writeValue] <;> simp

theorem atSeparator_writeValue (indent : Nat) (d : Document) (rest : List Char) :
  atSeparator (writeValue indent d ++ rest)
  := by
  unfold writeValue
  split <;> rfl

theorem keyText_of_isKey {name : String} (h : IsKey name) :
  keyText (text name) = name.toList
  := by
  rw [keyText, Scalar.writeKey, h.plain]

theorem tokens_of_isKey {name : String} (h : IsKey name) :
  tokens (text name) = [.scalar true name]
  := by
  rw [tokens, h.plain]
  rfl

/-! ### Records -/

variable {ts ts' : List Token} {indent : Int} {outer outer' : List Int} {rest : List Char}
  {line column depth k m n : Nat} {d : Document}

/-- The value of a key is read together with the end of its line. -/
def LeadsBehindKey (d : Document) : Prop :=
  ∀ {ts : List Token} {outer : List Int} {rest : List Char} {line column k m : Nat},
    k ≤ m → m < column → Leading k rest →
      ∃ line', Leads (unkeyed ⟨writeValue m d ++ (Scalar.spaces k ++ rest), line, column⟩ ts m outer false)
        (unkeyed ⟨rest, line', k⟩ ((tokens d).reverse ++ ts) m outer true)

theorem leadsBehindKey_text (s : String) :
  LeadsBehindKey (text s)
  := by
  intro ts outer rest line column k m hk hcolumn hrest
  obtain ⟨line', hscalar⟩ := @leads_scalar ts outer rest line (column + 1) k m s hk (by omega) hrest
  have hspace := @leads_spaces ts m outer false _ line column 1
    (starts_scalar (m + 2) s (Scalar.spaces k ++ rest))
  exact ⟨line', hspace.trans hscalar⟩

/-- The lines of a mapping start with its first key. -/
theorem writeFields_leading {fields : List (String × Document)} (hne : fields ≠ [])
    (hkeys : ∀ field ∈ fields, IsKey field.1) (m : Nat) (rest : List Char) :
  Leading k (writeFields m (entries fields) ++ rest)
  := by
  obtain ⟨⟨name, value⟩, fields, rfl⟩ := List.exists_cons_of_ne_nil hne
  have hname : IsKey name := hkeys (name, value) List.mem_cons_self
  show Leading k (writeFields m ((text name, value) :: entries fields) ++ rest)
  rw [writeFields_cons, keyText_of_isKey hname, List.append_assoc, List.append_assoc]
  apply hname.starts

/-- The fields of a mapping are read one after another. -/
theorem leads_fields {fields : List (String × Document)} (hne : fields ≠ [])
    (hkeys : ∀ field ∈ fields, IsKey field.1)
    (hvalues : ∀ field ∈ fields, LeadsBehindKey field.2) (hk : k ≤ m) (hrest : Leading k rest)
    (hopens : Opens .blockMapping m ts indent outer ts' outer') :
  ∃ line', Leads
    (unkeyed ⟨writeFields m (entries fields) ++ (Scalar.spaces k ++ rest), line, m⟩ ts indent outer true)
    (unkeyed ⟨rest, line', k⟩ ((fieldTokens (entries fields)).reverse ++ ts') m outer' true)
  := by
  induction fields generalizing ts ts' indent outer outer' line with
  | nil => exact absurd rfl hne
  | cons field fields ih =>
    obtain ⟨name, value⟩ := field
    obtain ⟨hname, hkeys'⟩ := List.forall_mem_cons.mp hkeys
    obtain ⟨hvalue, hvalues'⟩ := List.forall_mem_cons.mp hvalues
    dsimp only at hname hvalue
    -- The rest is another field of the mapping, or what stands behind the mapping.
    have hkey : ∀ {more : List Char} {next : Nat}, next ≤ m → Leading next more →
        ∃ line', Leads
          (unkeyed ⟨name.toList ++ ':' :: (writeValue m value ++ (Scalar.spaces next ++ more)), line, m⟩ ts indent
            outer true)
          (unkeyed ⟨more, line', next⟩ ((tokens value).reverse ++ .value :: .scalar true name :: .key :: ts') m
            outer' true) := by
      intro more next hnext hmore
      have hbody := atSeparator_writeValue m value (Scalar.spaces next ++ more)
      have hlength := List.length_pos_iff.mpr hname.ne_nil
      obtain ⟨line', hread⟩ := @hvalue _ _ _ line (m + name.toList.length + 1) _ _ hnext (by omega) hmore
      exact ⟨line', (leads_key hname hbody hopens).trans hread⟩
    have htokens : (fieldTokens (entries ((name, value) :: fields))).reverse
        = (fieldTokens (entries fields)).reverse
          ++ ((tokens value).reverse ++ [.value, .scalar true name, .key]) := by
      show (fieldTokens ((text name, value) :: entries fields)).reverse = _
      rw [fieldTokens, tokens_of_isKey hname]
      simp
    have hwritten : writeFields m (entries ((name, value) :: fields))
        = name.toList ++ ':' :: writeValue m value
        ++ (if (entries fields).isEmpty then [] else Scalar.spaces m ++ writeFields m (entries fields)) := by
      rw [← keyText_of_isKey hname]
      apply writeFields_cons
    rw [htokens, hwritten]
    cases fields with
    | nil =>
      obtain ⟨line', hread⟩ := hkey hk hrest
      refine ⟨line', ?_⟩
      simpa [entries, fieldTokens] using hread
    | cons field fields =>
      have hnext := writeFields_leading (k := m) (List.cons_ne_nil field fields) hkeys' m
        (Scalar.spaces k ++ rest)
      obtain ⟨line₁, hread⟩ := hkey (Nat.le_refl m) hnext
      obtain ⟨line₂, hmore⟩ := @ih _ _ _ _ _ line₁ (List.cons_ne_nil field fields) hkeys' hvalues' .opened
      refine ⟨line₂, ?_⟩
      have hleads := hread.trans hmore
      rw [if_neg (by simp [entries])]
      simpa using hleads

/-- A mapping that starts a block is read with the end of the block. -/
theorem leads_mapping {fields : List (String × Document)} (hne : fields ≠ [])
    (hkeys : ∀ field ∈ fields, IsKey field.1)
    (hvalues : ∀ field ∈ fields, LeadsBehindKey field.2) (hindent : indent < m) (hk : k < m)
    (hrest : Leading k rest) :
  ∃ line', Leads
    (unkeyed ⟨writeFields m (entries fields) ++ (Scalar.spaces k ++ rest), line, m⟩ ts indent outer true)
    (unkeyed ⟨rest, line', k⟩ ((tokens (map (entries fields))).reverse ++ ts) indent outer true)
  := by
  obtain ⟨line', hread⟩ := @leads_fields ts _ indent outer _ rest line k m fields hne hkeys hvalues
    (Nat.le_of_lt hk) hrest (.opens hindent)
  have hend := @leads_blockEnd ((fieldTokens (entries fields)).reverse ++ .blockMapping :: ts) m indent
    outer true rest line' k (starts_of_leading hrest) (by omega)
  refine ⟨line', ?_⟩
  simpa [tokens] using hread.trans hend

theorem Record.leadsBehindKey (h : Record depth d) :
  LeadsBehindKey d
  := by
  induction h with
  | text s => apply leadsBehindKey_text
  | @map depth fields hne hkeys _ ih =>
    intro ts outer rest line column k m hk hcolumn hrest
    have hstarts := writeFields_leading (k := m + 2) hne hkeys (m + 2) (Scalar.spaces k ++ rest)
    have hline := @leads_newLine ts m outer false _ line column (m + 2) (starts_of_leading hstarts)
    obtain ⟨line', hread⟩ := @leads_mapping ts m outer rest (line + 1) k (m + 2) fields hne hkeys ih
      (by omega) (by omega) hrest
    refine ⟨line', ?_⟩
    have hwritten : writeValue m (.map (entries fields))
        = '\n' :: Scalar.spaces (m + 2) ++ writeFields (m + 2) (entries fields) := by
      obtain ⟨field, fields, rfl⟩ := List.exists_cons_of_ne_nil hne
      rfl
    rw [hwritten]
    simpa using hline.trans hread

/-! ### Lists -/

/-- A mapping of records. -/
def IsMapping (depth : Nat) (d : Document) : Prop := ∃ fields, d = map fields ∧ Record (depth + 1) d

theorem IsMapping.exists_fields (h : IsMapping depth d) :
  ∃ fields, d = map (entries fields) ∧ fields ≠ [] ∧ (∀ field ∈ fields, IsKey field.1)
    ∧ ∀ field ∈ fields, Record depth field.2
  := by
  obtain ⟨_, rfl, hrecord⟩ := h
  cases hrecord with
  | @map _ fields hne hkeys hvalues => exact ⟨fields, rfl, hne, hkeys, hvalues⟩

theorem writeBlock_entries {fields : List (String × Document)} (hne : fields ≠ []) (m : Nat) :
  writeBlock m (map (entries fields)) = writeFields m (entries fields)
  := by
  obtain ⟨field, fields, rfl⟩ := List.exists_cons_of_ne_nil hne
  rw [entries, List.map_cons, writeBlock]

theorem writeItems_cons (m : Nat) (item : Document) (items : List Document) :
  writeItems m (item :: items) = '-' :: ' ' :: (writeBlock (m + 2) item
    ++ (if items.isEmpty then [] else Scalar.spaces m ++ writeItems m items))
  := by
  rw [writeItems]
  rfl

/-- The items of a list are read one after another. -/
theorem leads_items {items : List Document} (hne : items ≠ []) (hitems : ∀ item ∈ items, IsMapping depth item)
    (hk : k ≤ m) (hrest : Leading k rest) (hopens : Opens .blockSequence m ts indent outer ts' outer') :
  ∃ line', Leads (unkeyed ⟨writeItems m items ++ (Scalar.spaces k ++ rest), line, m⟩ ts indent outer true)
    (unkeyed ⟨rest, line', k⟩ ((itemTokens items).reverse ++ ts') m outer' true)
  := by
  induction items generalizing ts ts' indent outer outer' line with
  | nil => exact absurd rfl hne
  | cons item items ih =>
    obtain ⟨hitem, hitems'⟩ := List.forall_mem_cons.mp hitems
    obtain ⟨fields, hsplit, hfields, hkeys, hvalues⟩ := hitem.exists_fields
    have hbehind : ∀ field ∈ fields, LeadsBehindKey field.2 :=
      fun field hfield => (hvalues field hfield).leadsBehindKey
    -- The rest is another item of the list, or what stands behind the list.
    have hread : ∀ {more : List Char} {next : Nat}, next ≤ m → Leading next more →
        ∃ line', Leads
          (unkeyed ⟨'-' :: ' ' :: (writeFields (m + 2) (entries fields) ++ (Scalar.spaces next ++ more)), line, m⟩
            ts indent outer true)
          (unkeyed ⟨more, line', next⟩ ((tokens item).reverse ++ .blockEntry :: ts') m outer' true) := by
      intro more next hnext hmore
      have hstarts := writeFields_leading (k := m + 2) hfields hkeys (m + 2) (Scalar.spaces next ++ more)
      have hdash := @leads_dash ts indent outer _ line m ts' outer' (starts_of_leading hstarts) hopens
      obtain ⟨line', hmapping⟩ := @leads_mapping (.blockEntry :: ts') m outer' more line next
        (m + 2) fields hfields hkeys hbehind (by omega) (by omega) hmore
      rw [← hsplit] at hmapping
      exact ⟨line', hdash.trans hmapping⟩
    rw [writeItems_cons, hsplit, writeBlock_entries hfields, ← hsplit]
    cases items with
    | nil =>
      obtain ⟨line', hlast⟩ := hread hk hrest
      refine ⟨line', ?_⟩
      simpa [itemTokens] using hlast
    | cons next items =>
      have hdash : ∀ more, Leading m (writeItems m (next :: items) ++ more) := by
        intro more
        rw [writeItems_cons]
        exact .some ⟨rfl, by decide⟩
      obtain ⟨line₁, hfirst⟩ := hread (Nat.le_refl m) (hdash (Scalar.spaces k ++ rest))
      obtain ⟨line₂, hmore⟩ := @ih _ _ _ _ _ line₁ (List.cons_ne_nil next items) hitems' .opened
      have hleads := hfirst.trans hmore
      refine ⟨line₂, ?_⟩
      rw [itemTokens]
      simpa using hleads

/-! ### Whole texts -/

/-- A mapping of records, or a list of some such mappings. -/
inductive IsBlock (depth : Nat) : Document → Prop
  | mapping {d : Document} : IsMapping depth d → IsBlock depth d
  | items {items : List Document} : items ≠ [] → (∀ item ∈ items, IsMapping depth item) →
      IsBlock depth (list items)

/-- The tokens of a block are read from its text. -/
theorem readAll_block (h : IsBlock depth d) (hn : (writeBlock 0 d).length < n) :
  readAll n (unkeyed ⟨writeBlock 0 d, 0, 0⟩ [] (-1) [] true) = .ok (tokens d)
  := by
  have hend : ∀ {start : Token} {body : List Token} {text : List Char} {line' : Nat}, text.length < n →
      Leads (unkeyed ⟨text ++ (Scalar.spaces 0 ++ []), 0, 0⟩ [] (-1) [] true)
        (unkeyed ⟨[], line', 0⟩ (body.reverse ++ [start]) 0 [-1] true) →
      readAll n (unkeyed ⟨text, 0, 0⟩ [] (-1) [] true) = .ok (start :: body ++ [.blockEnd]) := by
    intro start body text line' hlength hleads
    rw [show text ++ (Scalar.spaces 0 ++ []) = text from List.append_nil text] at hleads
    obtain ⟨n', hn', hread⟩ := hleads n hlength
    rw [hread, readAll_end (Nat.zero_lt_of_lt hn')]
    simp
  cases h with
  | mapping h =>
    obtain ⟨fields, rfl, hne, hkeys, hvalues⟩ := h.exists_fields
    rw [writeBlock_entries hne] at hn ⊢
    obtain ⟨line', hleads⟩ := @leads_fields [] _ (-1) [] _ [] 0 0 0 fields hne hkeys
      (fun field hfield => (hvalues field hfield).leadsBehindKey) (Nat.le_refl 0) .none (.opens (by decide))
    rw [tokens]
    exact hend hn hleads
  | @items items hne hitems =>
    have hwritten : writeBlock 0 (list items) = writeItems 0 items := by
      obtain ⟨item, items, rfl⟩ := List.exists_cons_of_ne_nil hne
      rw [writeBlock]
    rw [hwritten] at hn ⊢
    obtain ⟨line', hleads⟩ := @leads_items [] _ (-1) [] _ [] 0 depth 0 0 items hne hitems
      (Nat.le_refl 0) .none (.opens (by decide))
    rw [tokens]
    exact hend hn hleads

/-! ### Characters -/

theorem all_key {name : String} (h : IsKey name) :
  name.toList.all isPrintable
  := by
  have hwrite := Scalar.all_write 0 name
  rwa [Scalar.write, h.plain] at hwrite

theorem all_writeFields {fields : List (String × Document)} (hkeys : ∀ field ∈ fields, IsKey field.1)
    (hvalues : ∀ field ∈ fields, ∀ m, (writeValue m field.2).all isPrintable) (m : Nat) :
  (writeFields m (entries fields)).all isPrintable
  := by
  induction fields with
  | nil => rfl
  | cons field fields ih =>
    obtain ⟨name, value⟩ := field
    obtain ⟨hname, hkeys'⟩ := List.forall_mem_cons.mp hkeys
    obtain ⟨hvalue, hvalues'⟩ := List.forall_mem_cons.mp hvalues
    have hcolon : isPrintable ':' = true := rfl
    show (writeFields m ((text name, value) :: entries fields)).all isPrintable
    rw [writeFields_cons, keyText_of_isKey hname, List.all_append, List.all_append, List.all_cons,
      all_key hname, hvalue m, hcolon, Bool.and_self, Bool.and_self, Bool.true_and]
    split
    · rfl
    · rw [List.all_append, all_spaces, ih hkeys' hvalues', Bool.and_self]

theorem Record.all_writeValue (h : Record depth d) (m : Nat) :
  (writeValue m d).all isPrintable
  := by
  induction h generalizing m with
  | text s =>
    have hline := all_endLine (Scalar.all_write (m + 2) s)
    show (' ' :: endLine (Scalar.write (m + 2) s)).all isPrintable
    rw [List.all_cons, hline]
    rfl
  | @map depth fields hne hkeys _ ih =>
    have hfields := all_writeFields hkeys ih (m + 2)
    obtain ⟨field, fields, rfl⟩ := List.exists_cons_of_ne_nil hne
    show ('\n' :: Scalar.spaces (m + 2) ++ writeFields (m + 2) (entries (field :: fields))).all isPrintable
    rw [List.all_append, List.all_cons, all_spaces, hfields]
    rfl

theorem IsMapping.all_writeBlock (h : IsMapping depth d) (m : Nat) :
  (writeBlock m d).all isPrintable
  := by
  obtain ⟨fields, rfl, hne, hkeys, hvalues⟩ := h.exists_fields
  rw [writeBlock_entries hne]
  exact all_writeFields hkeys (fun field hfield => (hvalues field hfield).all_writeValue) m

/-- All characters of the text of a block are printable. -/
theorem IsBlock.all_writeBlock (h : IsBlock depth d) :
  (writeBlock 0 d).all isPrintable
  := by
  cases h with
  | mapping h => apply h.all_writeBlock
  | @items items hne hitems =>
    obtain ⟨item, items, rfl⟩ := List.exists_cons_of_ne_nil hne
    rw [writeBlock]
    clear hne
    generalize item :: items = items' at hitems ⊢
    induction items' with
    | nil => rfl
    | cons item items ih =>
      obtain ⟨hitem, hitems'⟩ := List.forall_mem_cons.mp hitems
      have hdash : isPrintable '-' = true := rfl
      have hspace : isPrintable ' ' = true := rfl
      rw [writeItems_cons, List.all_cons, List.all_cons, List.all_append, hitem.all_writeBlock, hdash, hspace,
        Bool.true_and, Bool.true_and, Bool.true_and]
      split
      · rfl
      · rw [List.all_append, all_spaces, ih hitems', Bool.and_self]

theorem unifyBreaks_eq_self {cs : List Char} (h : ∀ c ∈ cs, c ≠ '\r' ∧ c ≠ '\u0085') :
  unifyBreaks cs = cs
  := by
  induction cs with
  | nil => rfl
  | cons c cs ih =>
    obtain ⟨⟨hreturn, hnext⟩, hcs⟩ := List.forall_mem_cons.mp h
    rw [unifyBreaks, ih hcs]
    · exact fun _ hc => absurd hc hreturn
    · exact hreturn
    · exact hnext

/-- The text of a block is cut into the tokens of the block. -/
theorem ofText_write (h : IsBlock depth d) :
  Token.ofText (write d) = .ok (tokens d)
  := by
  have hprintable := List.all_eq_true.mp h.all_writeBlock
  have hallowed := fun c hc => isAllowed_of_isPrintable (hprintable c hc)
  have hunified : unifyBreaks (writeBlock 0 d) = writeBlock 0 d :=
    unifyBreaks_eq_self (fun c hc => ⟨(hallowed c hc).2.1, (hallowed c hc).2.2.1⟩)
  have hmark : (writeBlock 0 d).head? ≠ some '\ufeff' := by
    intro hhead
    exact (hallowed _ (List.mem_of_head? hhead)).2.2.2 rfl
  rw [Token.ofText, write, String.toList_ofList,
    if_pos (List.all_eq_true.mpr (fun c hc => (hallowed c hc).1)), hunified]
  dsimp only
  rw [if_neg hmark]
  exact readAll_block h (Nat.lt_add_of_pos_right (by decide))

end CertKeeper.Yaml
