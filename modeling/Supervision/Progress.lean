import Supervision.Text.Character

/-!
# Progress

What is reported of a long operation. A report may have a message and the part of the whole, in
percent, that it adds; the end is reported once. Reports through a cancelled operation are dropped,
its end is not.
-/

namespace Supervision

inductive Progress
  | report (message : Option String) (increment : Option Nat)
  | finish
  deriving DecidableEq, Repr

namespace Progress

/-- What a cancelled operation still reports. -/
def passes (cancelled : Bool) : Progress → Bool
  | .report .. => !cancelled
  | .finish => true

/-- A line of a log. -/
structure Line where
  message : String
  fields : List (String × String)
  deriving DecidableEq, Repr

/-- The line that a report is logged as, under a title. -/
def line (title : String) : Progress → Line
  | .report message increment =>
    ⟨message.getD "", [("title", title), ("increment", toString (increment.getD 0))]⟩
  | .finish => ⟨"done", [("title", title)]⟩

/-- The text that shows a reporter that logs under a title. -/
def logText (title : String) : String :=
  s!"TracingProgress \x7b title: {Text.Quoted.render title} \x7d"

/-- What is done with an operation that reports: through the operation, or to the reporter
itself. -/
inductive Action
  | through (p : Progress)
  | direct (p : Progress)
  | cancel
  deriving DecidableEq, Repr

/-- What a reporter gets of the actions on an operation. -/
def received (cancelled : Bool) : List Action → List Progress
  | [] => []
  | .cancel :: rest => received true rest
  | .direct p :: rest => p :: received cancelled rest
  | .through p :: rest =>
    if p.passes cancelled then p :: received cancelled rest else received cancelled rest

/-- What is left when the reporter has no use for an end. -/
def reportsOnly (ps : List Progress) : List Progress :=
  ps.filter (fun p => p ≠ .finish)

/-- The percentage after each report, starting from one, and the line that shows it. -/
def percentLines (percent : Nat) : List Progress → List String
  | [] => []
  | .finish :: rest => percentLines percent rest
  | .report message increment :: rest =>
    let now := percent + increment.getD 0
    let digits := toString now
    let padded := String.ofList (List.replicate (3 - digits.length) ' ') ++ digits
    let shown := match message with
      | some m => s!"[{padded}%] {m}"
      | none => s!"[{padded}%]"
    shown :: percentLines now rest

end Progress

end Supervision
