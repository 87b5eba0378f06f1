import BundlePlan.Markup.Basic

/-!
# Console messages

A message on the console starts with a sign that tells its tone, in the style of that tone.
Texts that come from outside have to be escaped before they go into a message.
-/

namespace BundlePlan.Markup

/-- The styles of text on the console. -/
inductive TextStyle where
  | info
  | success
  | warning
  | error
  | highlight
  deriving DecidableEq, Repr

/-- The name of a style in its tags. -/
def TextStyle.name : TextStyle → String
  | info => "info"
  | success => "success"
  | warning => "warning"
  | error => "error"
  | highlight => "highlight"

/-- A text between the tags of a style. -/
def styled (style : TextStyle) (text : String) : String :=
  s!"[{style.name}]{text}[/{style.name}]"

/-- The tones of a message. -/
inductive Tone where
  /-- Something worth knowing. -/
  | info
  /-- Something went well. -/
  | success
  /-- Something may not be as expected. -/
  | warning
  /-- Something went wrong. -/
  | error
  /-- Something is being done. -/
  | action
  deriving DecidableEq, Repr

/-- The style of a tone. -/
def Tone.style : Tone → TextStyle
  | info | action => .info
  | success => .success
  | warning => .warning
  | error => .error

/-- The sign of a tone. -/
def Tone.sign : Tone → String
  | info => "ℹ"
  | success => "✓"
  | warning => "⚠"
  | error => "✗"
  | action => "→"

/-- A message in a tone. -/
def message (tone : Tone) (text : String) : String :=
  styled tone.style tone.sign ++ " " ++ text

/-- A name that matters. -/
def highlight (text : String) : String := styled .highlight text

/-- A message that is shown while something is being done. -/
def progress (text : String) : String := styled .info text

end BundlePlan.Markup
