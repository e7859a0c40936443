import CertKeeper.Text.Decimal
import CertKeeper.Text.Hexadecimal

/-!
# Socket addresses

An address of a host and a port. `SocketAddress.read?` reads texts such as `127.0.0.1:80`
and `[::1]:80`, and `IpAddress.text` writes the address of a host: the longest run of two
or more zero groups is left out, and an address that stands for one of four numbers shows
these.
-/

namespace CertKeeper.CommandLine

/-- The address of a host: four numbers below 256, or eight below 65536. -/
inductive IpAddress where
  | v4 (a b c d : Nat)
  | v6 (groups : List Nat)
  deriving DecidableEq

/-- A host and a port. -/
structure SocketAddress where
  ip : IpAddress
  port : Nat
  deriving DecidableEq

namespace IpAddress

/-- The text of four numbers. -/
def quadText (a b c d : Nat) : String := ".".intercalate ([a, b, c, d].map Decimal.text)

/-- The digits of a group, without zeros in front. -/
def groupText (n : Nat) : String :=
  let digits := (Hexadecimal.padded 4 n).map Char.toLower
  let significant := digits.dropWhile (· = '0')
  String.ofList (if significant.isEmpty then ['0'] else significant)

/-- The texts of groups with colons between them. -/
def groupsText (groups : List Nat) : String := ":".intercalate (groups.map groupText)

/-- The longest run of zeros and its start, the first one if there are more of them. -/
def zeroRun (groups : List Nat) : Nat × Nat :=
  let runs := (List.range groups.length).map
    (fun start => (start, ((groups.drop start).takeWhile (· = 0)).length))
  runs.foldl (fun best run => if best.2 < run.2 then run else best) (0, 0)

/-- The text of an address. -/
def text : IpAddress → String
  | v4 a b c d => quadText a b c d
  | v6 [0, 0, 0, 0, 0, 0xffff, high, low] =>
    "::ffff:" ++ quadText (high / 256) (high % 256) (low / 256) (low % 256)
  | v6 groups =>
    let (start, length) := zeroRun groups
    if 1 < length then
      groupsText (groups.take start) ++ "::" ++ groupsText (groups.drop (start + length))
    else groupsText groups

end IpAddress

namespace SocketAddress

/-- A reader of a part of a text. -/
abbrev Reader (α : Type) := StateT (List Char) Option α

/-- Pass a character. -/
def expect (c : Char) : Reader Unit := do
  match ← get with
  | d :: rest => if c = d then set rest else failure
  | [] => failure

/-- The value of digits of a base. -/
def digitsValue (base : Nat) (digits : List Char) : Nat :=
  digits.foldl (fun value c => base * value + (Hexadecimal.digitValue? c).getD 0) 0

/-- A number below a bound. It may have a limited number of digits, and zeros in front of
it only where they are allowed. -/
def number (base bound : Nat) (maxDigits : Option Nat) (zeros : Bool) : Reader Nat := do
  let cs ← get
  let digits := cs.takeWhile (fun c => (Hexadecimal.digitValue? c).any (· < base))
  let value := digitsValue base digits
  guard (!digits.isEmpty && value < bound && !maxDigits.any (· < digits.length))
  guard (zeros || digits.head? ≠ some '0' || digits.length = 1)
  set (cs.drop digits.length)
  return value

/-- A number below 256. -/
def octet : Reader Nat := number 10 256 (some 3) false

/-- Four numbers with points between them. -/
def quad : Reader (Nat × Nat × Nat × Nat) := do
  let a ← octet
  expect '.'
  let b ← octet
  expect '.'
  let c ← octet
  expect '.'
  let d ← octet
  return (a, b, c, d)

/-- Pass the colon that stands before all groups but the first one. -/
def separator (first : Bool) : Reader Unit := if first then pure () else expect ':'

/-- At most `room` groups with colons between them, and whether the last two of them were
written as four numbers. -/
def groups (first : Bool) : Nat → Reader (List Nat × Bool)
  | 0 => pure ([], false)
  | room + 1 => do
    let four ← if room = 0 then pure none else attempt (separator first *> quad)
    match four with
    | some (a, b, c, d) => return ([256 * a + b, 256 * c + d], true)
    | none =>
      match ← attempt (separator first *> number 16 65536 (some 4) true) with
      | none => return ([], false)
      | some group =>
        let (more, four) ← groups false room
        return (group :: more, four)
where
  /-- What a reader reads, if it succeeds. -/
  attempt {α : Type} (reader : Reader α) : Reader (Option α) :=
    (do return some (← reader)) <|> pure none

/-- An address of eight groups, some of which may be left out. -/
def eightGroups : Reader (List Nat) := do
  let (head, four) ← groups true 8
  if head.length = 8 then return head
  guard !four
  expect ':'
  expect ':'
  let (tail, _) ← groups true (7 - head.length)
  return head ++ List.replicate (8 - head.length - tail.length) 0 ++ tail

/-- A colon and a port. -/
def portNumber : Reader Nat := do
  expect ':'
  number 10 65536 none true

/-- Pass the number of a scope, if there is one. -/
def scope : Reader Unit :=
  (do
    expect '%'
    let _ ← number 10 (Nat.pow 2 32) none true) <|> pure ()

/-- Four numbers and a port. -/
def read4 : Reader SocketAddress := do
  let (a, b, c, d) ← quad
  return ⟨.v4 a b c d, ← portNumber⟩

/-- Eight groups in brackets, perhaps with a scope, and a port. -/
def read6 : Reader SocketAddress := do
  expect '['
  let groups ← eightGroups
  scope
  expect ']'
  return ⟨.v6 groups, ← portNumber⟩

/-- The address of a text. -/
def read? (text : String) : Option SocketAddress :=
  match (read4 <|> read6).run text.toList with
  | some (address, []) => some address
  | _ => none

end SocketAddress

end CertKeeper.CommandLine
