import BlockDiagram.Assistant
import BlockDiagram.Text.Blank

/-!
# Settings

What an installation chooses: the layout options of new diagrams, how many diagrams are kept,
whether an edit lays out anew, how files are written, and the assistant.
-/

namespace BlockDiagram

/-- The choices of an installation. -/
structure Settings where
  direction : Value
  nodeSpacing : Value
  rankSpacing : Value
  marginX : Value
  marginY : Value
  capacity : Int
  relayout : Bool
  extension : String
  withHeader : Bool
  assistantAddress : Value
  assistantModel : Value
  assistantKey : Value
  assistantTimeout : Value
deriving Repr

namespace Settings

/-- The choices where none are made. -/
def standard : Settings :=
  { direction := .text "LR"
    nodeSpacing := .int 70
    rankSpacing := .int 100
    marginX := .int 20
    marginY := .int 20
    capacity := 128
    relayout := true
    extension := "tf"
    withHeader := false
    assistantAddress := .text ""
    assistantModel := .text "gpt-4o"
    assistantKey := .text ""
    assistantTimeout := Assistant.defaultTimeout }

/-- Whether a text switches something on; without a text the default decides. -/
def flag (given : Option String) (default : Bool) : Bool :=
  match given with
  | some s => ["1", "true", "yes", "on"].contains (Text.lowered (Text.trimmed s))
  | none => default

/-- The layout options of new diagrams. -/
def options (s : Settings) : Except Error Options :=
  match s.direction with
  | .text direction =>
    match Direction.ofText? direction with
    | some direction => .ok ⟨direction, s.nodeSpacing, s.rankSpacing, s.marginX, s.marginY⟩
    | none => .error (.defect .badValue)
  | _ => .error (.defect .absentOperation)

/-- The assistant, if an address is chosen. -/
def assistant (s : Settings) : Except Error (Option Assistant) :=
  if s.assistantAddress.isTruthy then
    (Assistant.make s.assistantAddress s.assistantModel (s.assistantKey.orElse .null)
      Assistant.defaultTemperature s.assistantTimeout).map some
  else .ok none

end Settings

end BlockDiagram
