import CertKeeper.Encoding.Base64
import CertKeeper.Text.Blank

/-!
# Blocks of encoded octets

A text may hold blocks of octets in base 64, each between a line `-----BEGIN tag-----`
and a line `-----END tag-----`. `Pem.blocks` reads all blocks of a text and skips what is
between them, and `Pem.first` reads the first one. A block that does not end is not read.
Every other block has to be sound: its two tags are equal and not empty, its lines before
an empty line have the form of headers, and its octets are in base 64. `Pem.encode`
writes a block with 64 characters on a line.
-/

namespace CertKeeper.Pem

/-- Octets under a tag. -/
structure Block where
  tag : String
  content : Octets
  deriving DecidableEq

/-- Look for the marker of which `left` is still to come, and split the text there. A
character that does not continue the marker cannot start it either. -/
def scan (marker left seen : List Char) : List Char → Option (List Char × List Char)
  | [] => none
  | c :: rest =>
    match left with
    | [] => none
    | m :: more =>
      if c = m then
        if more.isEmpty then
          some (((c :: seen).drop marker.length).reverse, rest)
        else
          scan marker more (c :: seen) rest
      else
        scan marker marker (c :: seen) rest

/-- What stands before a marker and what stands after it. -/
def splitAt? (marker : String) (cs : List Char) : Option (List Char × List Char) :=
  scan marker.toList marker.toList [] cs

theorem scan_length_lt {marker left seen cs : List Char} {p : List Char × List Char}
    (h : scan marker left seen cs = some p) :
  p.2.length < cs.length
  := by
  induction cs generalizing left seen with
  | nil => simp [scan] at h
  | cons c rest ih =>
    unfold scan at h
    split at h
    · simp at h
    · split at h
      · split at h
        · obtain rfl := Option.some.inj h
          simp
        · exact Nat.lt_succ_of_lt (ih h)
      · exact Nat.lt_succ_of_lt (ih h)

/-- The text after leading spaces and ends of lines. -/
def skipSpace (cs : List Char) : List Char :=
  cs.dropWhile (fun c => c = ' ' || c = '\t' || c = '\n' || c = '\x0d')

/-- The parts of a block. -/
structure Parts where
  openTag : List Char
  headers : List Char
  data : List Char
  closeTag : List Char

/-- The lines of headers of the body of a block, and its data. -/
def headersAndData (body : List Char) : List Char × List Char :=
  match splitAt? "\n\n" body with
  | some (headers, data) => (headers, data)
  | none => (splitAt? "\x0d\n\x0d\n" body).getD ([], body)

/-- The parts of the first block of a text, and the text after it. -/
def firstParts? (cs : List Char) : Option (Parts × List Char) := do
  let (_, cs) ← splitAt? "-----BEGIN " cs
  let (openTag, cs) ← splitAt? "-----" cs
  let (body, cs) ← splitAt? "-----END " (skipSpace cs)
  let (closeTag, cs) ← splitAt? "-----" cs
  let (headers, data) := headersAndData body
  return (⟨openTag, headers, data, closeTag⟩, skipSpace cs)

theorem skipSpace_length_le (cs : List Char) :
  (skipSpace cs).length ≤ cs.length
  := (List.dropWhile_sublist _).length_le

theorem firstParts?_length_lt {cs : List Char} {p : Parts × List Char}
    (h : firstParts? cs = some p) :
  p.2.length < cs.length
  := by
  simp only [firstParts?, splitAt?, Option.bind_eq_bind, Option.bind_eq_some_iff] at h
  obtain ⟨p₁, h₁, p₂, h₂, p₃, h₃, p₄, h₄, h₅⟩ := h
  obtain rfl := Option.some.inj h₅
  have l₁ := scan_length_lt h₁
  have l₂ := scan_length_lt h₂
  have l₃ := scan_length_lt h₃
  have l₄ := scan_length_lt h₄
  have s₂ := skipSpace_length_le p₂.2
  have s₄ := skipSpace_length_le p₄.2
  simp only at *
  omega

/-- The parts of all blocks of a text. -/
def allParts (cs : List Char) : List Parts :=
  match _h : firstParts? cs with
  | none => []
  | some (parts, rest) => parts :: allParts rest
termination_by cs.length
decreasing_by exact firstParts?_length_lt _h

/-- The lines of a text, without the ends of the lines. -/
def lines : List Char → List (List Char)
  | [] => []
  | c :: rest =>
    if c = '\n' then
      [] :: lines rest
    else
      match lines rest with
      | [] => [[c]]
      | line :: more => (c :: line) :: more

/-- The block of its parts, if they are sound. -/
def block? (parts : Parts) : Option Block :=
  if parts.openTag.isEmpty || parts.closeTag.isEmpty || parts.openTag ≠ parts.closeTag then
    none
  else if (lines parts.headers).any (fun line => !line.contains ':') then
    none
  else
    (Base64.decode? (parts.data.filter (fun c => !isBlank c))).map
      (fun content => ⟨String.ofList parts.openTag, content⟩)

/-- All blocks of a text. -/
def blocks (text : String) : Option (List Block) := (allParts text.toList).mapM block?

/-- The first block of a text. -/
def first (text : String) : Option Block := do
  let (parts, _) ← firstParts? text.toList
  block? parts

/-- The characters in lines of `width + 1` characters, each followed by the end of a
line, where `room` characters still fit on the line. -/
def wrap (width : Nat) : (room : Nat) → List Char → List Char
  | _, [] => ['\n']
  | room + 1, c :: rest => c :: wrap width room rest
  | 0, c :: rest => '\n' :: c :: wrap width width rest

/-- The text of a block. -/
def encode (b : Block) : String :=
  "-----BEGIN " ++ b.tag ++ "-----\n"
    ++ String.ofList (if b.content.isEmpty then [] else wrap 63 64 (Base64.encode b.content))
    ++ "-----END " ++ b.tag ++ "-----\n"

end CertKeeper.Pem
