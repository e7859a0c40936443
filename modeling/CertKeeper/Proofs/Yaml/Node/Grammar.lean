import CertKeeper.Proofs.Program.Result
import CertKeeper.Proofs.Yaml.Document
import CertKeeper.Yaml.Node.Grammar

/-!
# From the tokens of a document to its nodes

The tokens of a block are read as the nodes of the document that they are the tokens of
(`ofTokens_block`). A part of a document is read from its tokens, and what follows them is left
(`Grammar.Reads`, `Grammar.run_blockFields`, `Grammar.run_blockItems`).
-/

namespace CertKeeper.Yaml

open Document (text list map)

mutual

/-- The node of a document. -/
def nodeOf : Document → Node
  | text s => .scalar (Scalar.style s = .plain) none s
  | list items => .list (itemNodes items)
  | map fields => .map (fieldNodes fields)
  | _ => Grammar.empty

/-- The nodes of the items of a list. -/
def itemNodes : List Document → List Node
  | [] => []
  | item :: items => nodeOf item :: itemNodes items

/-- The nodes of the fields of a mapping. -/
def fieldNodes : List (Document × Document) → List (Node × Node)
  | [] => []
  | (key, value) :: fields => (nodeOf key, nodeOf value) :: fieldNodes fields

end

/-- The source with other tokens. -/
def Source.holding (s : Source) (ts : List Token) : Source := { s with tokens := ts }

variable {s : Source} {ts rest : List Token} {fields : List (String × Document)} {items : List Document}
  {d : Document} {depth n : Nat} {block indentless : Bool}

namespace Grammar

/-! ### Parts of a block -/

theorem run_node_scalar (isPlain : Bool) (text : String) :
  (node block indentless (n + 1)).run (s.holding (.scalar isPlain text :: ts))
    = .ok (.scalar isPlain none text, s.holding ts)
  := by
  rw [node]
  rfl

theorem run_node_mapping {nodes : List (Node × Node)}
    (h : (blockFields n).run (s.holding ts) = .ok (nodes, s.holding rest)) :
  (node true indentless (n + 1)).run (s.holding (.blockMapping :: ts)) = .ok (.map nodes, s.holding rest)
  := by
  rw [node]
  show ((blockFields n).run (s.holding ts) >>= _) = _
  rw [h]
  rfl

theorem run_node_sequence {nodes : List Node}
    (h : (blockItems n).run (s.holding ts) = .ok (nodes, s.holding rest)) :
  (node true indentless (n + 1)).run (s.holding (.blockSequence :: ts)) = .ok (.list nodes, s.holding rest)
  := by
  rw [node]
  show ((blockItems n).run (s.holding ts) >>= _) = _
  rw [h]
  rfl

/-- A node is not left out before a token that does not end it. -/
theorem run_nodeUnless {ends : List Token} {next : Node} {s' : Source}
    (hends : ts.head?.any ends.contains = false)
    (h : (node block indentless n).run (s.holding ts) = .ok (next, s')) :
  (nodeUnless ends block indentless (n + 1)).run (s.holding ts) = .ok (next, s')
  := by
  have hfollows : (follows ends).run (s.holding ts) = .ok (false, s.holding ts) := by
    rw [← hends]
    rfl
  rw [nodeUnless, StateT.run_bind, hfollows]
  exact h

theorem run_blockFields_end :
  (blockFields (n + 1)).run (s.holding (.blockEnd :: ts)) = .ok ([], s.holding ts)
  := by
  rw [blockFields]
  rfl

theorem run_blockFields_key {key value : Node} {nodes : List (Node × Node)} {ts' ts'' : List Token}
    (hkey : (nodeUnless [.key, .value, .blockEnd] true true n).run (s.holding ts)
      = .ok (key, s.holding (.value :: ts')))
    (hvalue : (nodeUnless [.key, .value, .blockEnd] true true n).run (s.holding ts')
      = .ok (value, s.holding ts''))
    (hmore : (blockFields n).run (s.holding ts'') = .ok (nodes, s.holding rest)) :
  (blockFields (n + 1)).run (s.holding (.key :: ts)) = .ok ((key, value) :: nodes, s.holding rest)
  := by
  rw [blockFields]
  show ((nodeUnless [.key, .value, .blockEnd] true true n).run (s.holding ts) >>= _) = _
  rw [hkey]
  show ((nodeUnless [.key, .value, .blockEnd] true true n).run (s.holding ts') >>= _) = _
  rw [hvalue]
  show ((blockFields n).run (s.holding ts'') >>= _) = _
  rw [hmore]
  rfl

theorem run_blockItems_end :
  (blockItems (n + 1)).run (s.holding (.blockEnd :: ts)) = .ok ([], s.holding ts)
  := by
  rw [blockItems]
  rfl

theorem run_blockItems_entry {next : Node} {nodes : List Node} {ts' : List Token}
    (hitem : (nodeUnless [.blockEntry, .blockEnd] true false n).run (s.holding ts)
      = .ok (next, s.holding ts'))
    (hmore : (blockItems n).run (s.holding ts') = .ok (nodes, s.holding rest)) :
  (blockItems (n + 1)).run (s.holding (.blockEntry :: ts)) = .ok (next :: nodes, s.holding rest)
  := by
  rw [blockItems]
  show ((nodeUnless [.blockEntry, .blockEnd] true false n).run (s.holding ts) >>= _) = _
  rw [hitem]
  show ((blockItems n).run (s.holding ts') >>= _) = _
  rw [hmore]
  rfl

/-! ### Records -/

/-- A document is read from its tokens, and what follows them is left. -/
def Reads (d : Document) : Prop :=
  ∀ {s : Source} {rest : List Token} {n : Nat} {indentless : Bool}, (tokens d).length ≤ n →
    (node true indentless n).run (s.holding (tokens d ++ rest)) = .ok (nodeOf d, s.holding rest)

theorem reads_text (s : String) :
  Reads (text s)
  := by
  intro source rest n indentless hn
  obtain ⟨n, rfl⟩ := Nat.exists_eq_add_one.mpr (Nat.lt_of_lt_of_le (by simp [tokens]) hn)
  rw [nodeOf, tokens]
  exact run_node_scalar _ _

/-- The tokens that end a part of a block. -/
def partEnds : List Token := [.blockEntry, .key, .value, .blockEnd]

/-- The tokens of a record do not begin with one that ends a part. -/
theorem head_tokens (h : Record depth d) :
  ∃ t ts, tokens d = t :: ts ∧ t ∉ partEnds
  := by
  cases h with
  | text s => exact ⟨_, _, by rw [tokens], by simp [partEnds]⟩
  | map _ _ _ => exact ⟨_, _, by rw [tokens]; rfl, by decide⟩

/-- A record is read as a part of a block. -/
theorem run_part {ends : List Token} (hends : ends ⊆ partEnds) (h : Record depth d) (hreads : Reads d)
    (hn : (tokens d).length ≤ n) :
  (nodeUnless ends true indentless (n + 1)).run (s.holding (tokens d ++ rest))
    = .ok (nodeOf d, s.holding rest)
  := by
  obtain ⟨t, ts, hts, ht⟩ := head_tokens h
  apply run_nodeUnless
  · rw [hts]
    simpa using fun hmem => ht (hends hmem)
  · exact hreads hn

/-- The fields of a mapping are read up to the end of its block. -/
theorem run_blockFields (hvalues : ∀ field ∈ fields, Record depth field.2)
    (hreads : ∀ field ∈ fields, Reads field.2) (hn : (fieldTokens (entries fields)).length < n) :
  (blockFields n).run (s.holding (fieldTokens (entries fields) ++ .blockEnd :: rest))
    = .ok (fieldNodes (entries fields), s.holding rest)
  := by
  induction fields generalizing n with
  | nil =>
    obtain ⟨n, rfl⟩ := Nat.exists_eq_add_one.mpr (Nat.zero_lt_of_lt hn)
    exact run_blockFields_end
  | cons field fields ih =>
    obtain ⟨name, value⟩ := field
    obtain ⟨hvalue, hvalues'⟩ := List.forall_mem_cons.mp hvalues
    obtain ⟨hread, hreads'⟩ := List.forall_mem_cons.mp hreads
    have htokens : fieldTokens (entries ((name, value) :: fields))
        = .key :: (tokens (text name) ++ .value :: (tokens value ++ fieldTokens (entries fields))) := by
      show fieldTokens ((text name, value) :: entries fields) = _
      rw [fieldTokens]
      simp
    have hkeyLength : (tokens (text name)).length = 1 := by simp [tokens]
    rw [htokens] at hn ⊢
    simp only [List.length_cons, List.length_append, hkeyLength] at hn
    obtain ⟨n, rfl⟩ : ∃ m, n = m + 2 := ⟨n - 2, by omega⟩
    simp only [List.cons_append, List.append_assoc]
    have hends : [Token.key, .value, .blockEnd] ⊆ partEnds := by decide
    exact run_blockFields_key (run_part hends (@Record.text 0 name) (reads_text name) (by omega))
      (run_part hends hvalue hread (by omega)) (ih hvalues' hreads' (by omega))

theorem reads_of_record (h : Record depth d) :
  Reads d
  := by
  induction h with
  | text s => apply reads_text
  | @map depth fields hne hkeys hvalues ih =>
    intro s rest n indentless hn
    rw [tokens, List.length_append, List.length_cons, List.length_singleton] at hn
    obtain ⟨n, rfl⟩ := Nat.exists_eq_add_one.mpr (Nat.zero_lt_of_lt hn)
    rw [nodeOf, tokens, List.append_assoc, List.cons_append]
    exact run_node_mapping (run_blockFields hvalues ih (by omega))

/-- The items of a list are read up to the end of its block. -/
theorem run_blockItems (hitems : ∀ item ∈ items, Record depth item) (hn : (itemTokens items).length < n) :
  (blockItems n).run (s.holding (itemTokens items ++ .blockEnd :: rest))
    = .ok (itemNodes items, s.holding rest)
  := by
  induction items generalizing n with
  | nil =>
    obtain ⟨n, rfl⟩ := Nat.exists_eq_add_one.mpr (Nat.zero_lt_of_lt hn)
    exact run_blockItems_end
  | cons item items ih =>
    obtain ⟨hitem, hitems'⟩ := List.forall_mem_cons.mp hitems
    have hends : [Token.blockEntry, .blockEnd] ⊆ partEnds := by decide
    rw [itemTokens] at hn ⊢
    simp only [List.cons_append, List.length_cons, List.length_append] at hn
    obtain ⟨n, rfl⟩ : ∃ m, n = m + 2 := ⟨n - 2, by omega⟩
    rw [List.cons_append, List.cons_append, List.append_assoc]
    exact run_blockItems_entry (run_part hends hitem (reads_of_record hitem) (by omega))
      (ih hitems' (by omega))

/-! ### Whole documents -/

/-- The block of a document is read as its root. -/
theorem run_node_block (h : IsBlock depth d) (hn : (tokens d).length ≤ n) :
  (node true false n).run (s.holding (tokens d ++ rest)) = .ok (nodeOf d, s.holding rest)
  := by
  cases h with
  | mapping h =>
    obtain ⟨_, -, hrecord⟩ := h
    exact reads_of_record hrecord hn
  | @items items hne hitems =>
    have hrecords : ∀ item ∈ items, Record (depth + 1) item := by
      intro item hitem
      obtain ⟨_, -, hrecord⟩ := hitems item hitem
      exact hrecord
    rw [tokens, List.length_append, List.length_cons, List.length_singleton] at hn
    obtain ⟨n, rfl⟩ := Nat.exists_eq_add_one.mpr (Nat.zero_lt_of_lt hn)
    rw [nodeOf, tokens, List.append_assoc, List.cons_append]
    exact run_node_sequence (run_blockItems hrecords (by omega))

theorem run_directives {t : Token} (ht : startsDocument t = false) :
  (directives false (n + 1)).run { tokens := t :: ts }
    = .ok ((), { tokens := t :: ts, handles := defaultHandles })
  := by
  rw [directives]
  cases t with
  | version => cases ht
  | tagPrefix => cases ht
  | _ => rfl

theorem run_documentEnd :
  (documentEnd (n + 1)).run (s.holding []) = .ok ((), s.holding [])
  := by
  rw [documentEnd]
  rfl

/-- The tokens of a block are read as one document. -/
theorem run_document (h : IsBlock depth d) (hn : (tokens d).length ≤ n) :
  (document n).run { tokens := tokens d } = .ok (nodeOf d, { tokens := [], handles := defaultHandles })
  := by
  obtain ⟨t, ts, hts, ht⟩ : ∃ t ts, tokens d = t :: ts ∧ startsDocument t = false := by
    cases h with
    | mapping h =>
      obtain ⟨_, rfl, -⟩ := h
      exact ⟨_, _, by rw [tokens]; rfl, rfl⟩
    | items _ _ => exact ⟨_, _, by rw [tokens]; rfl, rfl⟩
  have hpeek : ∀ handles, peek.run { tokens := tokens d, handles := handles }
      = .ok (some t, { tokens := tokens d, handles := handles }) := by
    intro handles
    rw [hts]
    rfl
  obtain ⟨n, rfl⟩ : ∃ m, n = m + 1 := by
    apply Nat.exists_eq_add_one.mpr
    rw [hts] at hn
    exact Nat.zero_lt_of_lt hn
  have hdirectives := @run_directives ts n t ht
  rw [← hts] at hdirectives
  have hnode := @run_node_block { tokens := [], handles := defaultHandles } [] d depth (n + 1) h hn
  rw [List.append_nil] at hnode
  rw [document, StateT.run_bind]
  refine bind_eq_ok.mpr ⟨_, hpeek [], ?_⟩
  simp only [Option.any_some, ht, StateT.run_bind]
  refine bind_eq_ok.mpr ⟨_, hdirectives, bind_eq_ok.mpr ⟨_, hpeek defaultHandles, ?_⟩⟩
  simp only [Bool.false_eq_true, if_false, Option.isNone_some, StateT.run_bind]
  exact bind_eq_ok.mpr ⟨_, hnode, bind_eq_ok.mpr ⟨_, run_documentEnd, rfl⟩⟩

end Grammar

/-- The tokens of a block are those of one document. -/
theorem ofTokens_block (h : IsBlock depth d) :
  Graph.ofTokens (tokens d) = .ok ⟨nodeOf d, [], []⟩
  := by
  have hrun := @Grammar.run_document d depth (4 * (tokens d).length + 4) h (by omega)
  rw [Graph.ofTokens, hrun]
  rfl

end CertKeeper.Yaml
