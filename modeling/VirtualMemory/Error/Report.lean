import VirtualMemory.Error.Code

/-!
# Error reports

An error type states for each of its values a `Report`: the condition that arose and, if another
error led to it, that error's report. Code, name and both texts are read off the report, so every
error type shares one numbering and one format.
-/
namespace VirtualMemory

/-- One condition of a subsystem. -/
structure Condition where
  subsystem : UInt8
  number : UInt8
  label : String
  description : String
  deriving DecidableEq, Repr

inductive Report where
  | plain (condition : Condition)
  | caused (condition : Condition) (cause : Report)
  deriving DecidableEq, Repr

namespace Report

def condition : Report → Condition
  | plain c => c
  | caused c _ => c

def code (r : Report) : ErrorCode := .ofParts r.condition.subsystem r.condition.number

def description (r : Report) : String := r.condition.description

/-- Code and description, each cause in parentheses after its effect. -/
def render : Report → String
  | plain c => (ErrorCode.ofParts c.subsystem c.number).render ++ ": " ++ c.description
  | caused c cause =>
    (ErrorCode.ofParts c.subsystem c.number).render ++ ": " ++ c.description ++
      " (" ++ cause.render ++ ")"

/-- The labels alone, each cause as the argument of its effect. -/
def outline : Report → String
  | plain c => c.label
  | caused c cause => c.label ++ "(" ++ cause.outline ++ ")"

/-- Causes appear in the text only: no report hands one out as an error of its own. -/
def source (_ : Report) : Option Report := none

end Report

/-- Error types of one subsystem. -/
class Reportable (ε : Type) where
  subsystem : UInt8
  report : ε → Report

end VirtualMemory
