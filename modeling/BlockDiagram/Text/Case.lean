/-!
# Letter case

Keywords are ASCII, and no character outside ASCII has a letter of one of them as its other case,
so folding the ASCII letters decides every comparison with a keyword.
-/

namespace BlockDiagram.Text

/-- A text with its ASCII capitals made small. -/
def lowered (s : String) : String := String.ofList (s.toList.map Char.toLower)

/-- A text with its small ASCII letters made capital. -/
def raised (s : String) : String := String.ofList (s.toList.map Char.toUpper)

/-- A text with its first letter made capital. -/
def capitalized (s : String) : String :=
  match s.toList with
  | [] => ""
  | c :: rest => String.ofList (c.toUpper :: rest)

end BlockDiagram.Text
