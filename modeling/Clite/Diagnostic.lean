import Clite.Log
import Clite.Position
import Clite.Text.Quoted

/-!
# Diagnostics and the reporter

A reporter keeps the diagnostics reported since it was last cleared, in order, and hands each of them on to its
listener.  What the listener has received is never taken back: clearing empties the log alone.
-/

namespace Clite

/-- An error message, with the place it speaks of when there is one. -/
structure Diagnostic where
  message : String
  position : Option Position
  deriving DecidableEq, Repr

/-- `error: message at line:column` -/
def Diagnostic.text (d : Diagnostic) : String :=
  "error: " ++ d.message ++
    match d.position with
    | none => ""
    | some p => " at " ++ p.text

/-- A count with its noun: `1 error`, `2 errors`. -/
def counted (count : Nat) (noun : String) : String :=
  toString count ++ " " ++ noun ++ if count = 1 then "" else "s"

structure Reporter where
  /-- the diagnostics since the last `clear` -/
  log : Log Diagnostic
  /-- all that the listener has received -/
  delivered : Log Diagnostic
  deriving DecidableEq, Repr

namespace Reporter

/-- A reporter with nothing logged, for a listener that has already received `delivered`. -/
def onto (delivered : Log Diagnostic) : Reporter := ⟨.empty, delivered⟩

def empty : Reporter := onto .empty

def report (r : Reporter) (d : Diagnostic) : Reporter := ⟨r.log.push d, r.delivered.push d⟩

def error (r : Reporter) (message : String) (position : Option Position) : Reporter :=
  r.report ⟨message, position⟩

def clear (r : Reporter) : Reporter := onto r.delivered

def diagnostics (r : Reporter) : List Diagnostic := r.log.toList

def count (r : Reporter) : Nat := r.log.size

/-- `no errors`, or how many. -/
def summaryOf (count : Nat) : String := if count = 0 then "no errors" else counted count "error"

def summary (r : Reporter) : String := summaryOf r.count

@[simp] theorem diagnostics_onto (d : Log Diagnostic) : (onto d).diagnostics = [] := rfl

@[simp] theorem diagnostics_report (r : Reporter) (d : Diagnostic) :
    (r.report d).diagnostics = r.diagnostics ++ [d] := by
  simp [diagnostics, report]

theorem length_diagnostics (r : Reporter) : r.diagnostics.length = r.count := r.log.length_toList

end Reporter

/-! ### The contents of a reporter, spelled out -/

/-- Fields between braces behind a name. -/
private def record (name : String) (fields : List (String × String)) (ending : String) : String :=
  name ++ " \x7b " ++ ", ".intercalate (fields.map fun f => f.1 ++ ": " ++ f.2) ++ ending ++ " \x7d"

def Position.inspect (p : Position) : String :=
  record "Position"
    [("offset", toString p.offset), ("line", toString p.line.toNat), ("column", toString p.column.toNat)] ""

def Diagnostic.inspect (d : Diagnostic) : String :=
  let place := match d.position with
    | none => "None"
    | some p => "Some(" ++ p.inspect ++ ")"
  record "Diagnostic" [("message", Text.quotedText d.message), ("position", place)] ""

/-- Names the log and leaves the listener out. -/
def Reporter.inspect (r : Reporter) : String :=
  record "ErrorReporter"
    [("diagnostics", "[" ++ ", ".intercalate (r.diagnostics.map Diagnostic.inspect) ++ "]")] ", .."

end Clite
