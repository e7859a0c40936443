import CertKeeper.Proofs.Definition.Record
import CertKeeper.Proofs.Yaml.Node.Grammar
import CertKeeper.Yaml.Read

/-!
# Reading back what was written

A document that is a mapping of records or a list of such mappings is read back from its text
(`read_write`). The texts in it that are written without quotes come back as plain ones, and no such
text is empty or a word for nothing (`Scalar.of_style_eq_plain`).
-/

namespace CertKeeper.Yaml

open Document (text list map unquote unquoteItems unquoteFields)

variable {g : Graph} {d : Document} {depth n : Nat}

/-- The text is written without quotes. -/
def isUnquoted (s : String) : Bool := Scalar.style s = .plain

theorem unfold_text (s : String) (hn : 0 < n) :
  g.unfold n (nodeOf (text s)) = unquote isUnquoted (text s)
  := by
  obtain ⟨n, rfl⟩ := Nat.exists_eq_add_one.mpr hn
  rw [nodeOf, unquote]
  rfl

theorem unfold_fields {fields : List (String × Document)}
    (h : ∀ field ∈ fields, g.unfold n (nodeOf field.2) = unquote isUnquoted field.2)
    (hn : 0 < n) :
  (fieldNodes (entries fields)).map (fun field => (g.unfold n field.1, g.unfold n field.2))
    = unquoteFields isUnquoted (entries fields)
  := by
  induction fields with
  | nil => rfl
  | cons field fields ih =>
    obtain ⟨name, value⟩ := field
    obtain ⟨hvalue, h'⟩ := List.forall_mem_cons.mp h
    show (fieldNodes ((text name, value) :: entries fields)).map _
      = unquoteFields isUnquoted ((text name, value) :: entries fields)
    rw [fieldNodes, unquoteFields, List.map_cons, ih h', unfold_text name hn, hvalue]

/-- The nodes of a record are unfolded to the record without some quotes. -/
theorem Record.unfold_nodeOf (h : Record depth d) (hn : depth < n) :
  g.unfold n (nodeOf d) = unquote isUnquoted d
  := by
  induction h generalizing n with
  | text s => exact unfold_text s (Nat.zero_lt_of_lt hn)
  | @map depth fields hne hkeys hvalues ih =>
    obtain ⟨n, rfl⟩ := Nat.exists_eq_add_one.mpr (Nat.zero_lt_of_lt hn)
    have hdeeper : depth < n := Nat.lt_of_succ_lt_succ hn
    rw [nodeOf, unquote]
    exact congrArg Document.map (unfold_fields (fun field hfield => ih field hfield hdeeper)
      (Nat.zero_lt_of_lt hdeeper))

theorem IsBlock.unfold_nodeOf (h : IsBlock depth d) (hn : depth + 2 < n) :
  g.unfold n (nodeOf d) = unquote isUnquoted d
  := by
  cases h with
  | mapping h =>
    obtain ⟨_, -, hrecord⟩ := h
    exact hrecord.unfold_nodeOf (Nat.lt_of_succ_lt hn)
  | @items items hne hitems =>
    obtain ⟨n, rfl⟩ := Nat.exists_eq_add_one.mpr (Nat.zero_lt_of_lt hn)
    have hdeeper : depth + 1 < n := Nat.lt_of_succ_lt_succ hn
    rw [nodeOf, unquote]
    apply congrArg list
    clear hne
    induction items with
    | nil => rfl
    | cons item items ih =>
      obtain ⟨hitem, hitems'⟩ := List.forall_mem_cons.mp hitems
      obtain ⟨_, -, hrecord⟩ := hitem
      rw [itemNodes, unquoteItems, List.map_cons, ih hitems', hrecord.unfold_nodeOf hdeeper]

/-- A block is read back from its text, without the quotes that were not written. -/
theorem read_write (h : IsBlock depth d) (hn : depth + 2 < n) :
  read n (write d) = .ok (unquote isUnquoted d)
  := by
  have hroot : (nodeOf d).isEmpty = false := by
    cases h with
    | mapping h =>
      obtain ⟨_, rfl, -⟩ := h
      rw [nodeOf]
      rfl
    | items _ _ =>
      rw [nodeOf]
      rfl
  rw [read, ofText_write h]
  show (Graph.ofTokens (tokens d) >>= _) = _
  rw [ofTokens_block h]
  show Except.ok (if (nodeOf d).isEmpty then _ else _) = _
  rw [hroot, if_neg (by simp), h.unfold_nodeOf hn]

/-- A list without items is read back, too. -/
theorem read_write_nil (hn : 0 < n) :
  read n (write (list [])) = .ok (list [])
  := by
  obtain ⟨n, rfl⟩ := Nat.exists_eq_add_one.mpr hn
  have hwritten : (write (list [])).toList = ['[', ']', '\n'] := by
    rw [write, String.toList_ofList, writeBlock]
    · rfl
    all_goals simp
  have htokens : Token.ofText (write (list [])) = .ok [.flowSequence, .flowSequenceEnd] := by
    rw [Token.ofText, hwritten]
    rfl
  rw [read, htokens]
  rfl

end CertKeeper.Yaml
