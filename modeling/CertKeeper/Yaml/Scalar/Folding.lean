import CertKeeper.Yaml.Cursor

/-!
# Folded lines

The separators between two words of an unbroken text are kept. If the words are on
different lines, their line breaks are folded: one break is a space, and of more the first
one is dropped. A break that is not a line feed is always kept.
-/

namespace CertKeeper.Yaml

/-- The text for line breaks between words. -/
def foldBreaks : List Char → List Char
  | [] => []
  | '\n' :: [] => [' ']
  | '\n' :: more => more
  | breaks => breaks

/-- The text for separators between words. -/
def foldGap (gap : List Char) : List Char :=
  if gap.any isBreak then foldBreaks (gap.filter isBreak) else gap

end CertKeeper.Yaml
