import BundlePlan.Command.Words

/-!
# Argument vectors

A command that a container runs is a nonempty list of words.
-/

namespace BundlePlan.Command

/-- Why a text is no command. -/
inductive ArgvError where
  /-- The text cannot be split into words. -/
  | unsplittable (cause : WordError)
  /-- The text has no words. -/
  | empty
  deriving DecidableEq, Repr

/-- The wording of an error. -/
def ArgvError.message (e : ArgvError) : String :=
  let cause := match e with
    | unsplittable cause => cause.message
    | empty => "it is empty"
  s!"gather_command is not valid: {cause}"

/-- The words of a command line that has at least one. -/
def argv (line : String) : Except ArgvError (List String) :=
  match words line with
  | .error e => .error (.unsplittable e)
  | .ok [] => .error .empty
  | .ok ws => .ok ws

end BundlePlan.Command
