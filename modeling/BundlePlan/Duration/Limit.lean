import BundlePlan.Duration.Parse
import BundlePlan.Duration.Seconds

/-!
# Durations as limits

A duration that limits something must not be negative. `Duration.limitSeconds` reads one and
gives it in seconds.
-/

namespace BundlePlan.Duration

/-- Why a text is no limit. -/
inductive LimitError where
  /-- The text is not a duration. -/
  | unreadable (cause : ParseError)
  /-- The duration is negative. -/
  | negative
  deriving DecidableEq, Repr

/-- The wording of an error about the value of a named parameter. -/
def LimitError.message (name value : String) (e : LimitError) : String :=
  let cause := match e with
    | unreadable cause => cause.message value
    | negative => s!"{Text.quoted value} is negative"
  s!"{name} duration is not valid: {cause}"

/-- The seconds of the limit that a text denotes. -/
def limitSeconds (text : String) : Except LimitError String :=
  match parse text with
  | .error e => .error (.unreadable e)
  | .ok d => if d.microseconds < 0 then .error .negative else .ok d.secondsText

end BundlePlan.Duration
