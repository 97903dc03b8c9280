/-
# The journal of a parse

While it works the parser notes what happens: tokens taken from the source and
consumed, faults reported, constructs entered. The diagnostics of a parse are
the faults in its journal, and log lines are its events in words, filtered by
level, without the times and places that a logger puts in front of them.

Key definitions: `Event`, `faultsIn`, `consumedIn`, `Level`, `Event.text`,
`logLines`.
-/
import BantamJava.Fault.Basic

namespace BantamJava

/-- Something that happened during a parse. -/
inductive Event where
  /-- The source delivered a token. -/
  | delivered (token : Token)
  /-- The parser consumed a token. -/
  | consumed (token : Token)
  /-- A fault became a diagnostic. -/
  | reported (fault : Fault)
  | enteredClass (name : String)
  | enteredMethod (name : String)
  /-- Recovery starts to skip the `else` of an `if` that was dropped. -/
  | skippingElse
  /-- The parse of a whole program starts. -/
  | started
  /-- It has ended, with so many classes and diagnostics. -/
  | finished (classes diagnostics : Nat)
deriving DecidableEq, Inhabited

/-- The fault that an event reports, if it does. -/
def Event.fault? : Event → Option Fault
  | .reported f => some f
  | _ => none

/-- The faults reported in a journal, in order. -/
def faultsIn (events : List Event) : List Fault :=
  events.filterMap Event.fault?

@[simp] theorem faultsIn_nil : faultsIn [] = [] := rfl

@[simp] theorem faultsIn_append (xs ys : List Event) :
    faultsIn (xs ++ ys) = faultsIn xs ++ faultsIn ys :=
  List.filterMap_append

@[simp] theorem faultsIn_cons (e : Event) (es : List Event) :
    faultsIn (e :: es) = e.fault?.toList ++ faultsIn es := by
  cases h : e.fault? <;> simp [faultsIn, h]

/-- The token that an event consumes, if it does. -/
def Event.consumed? : Event → Option Token
  | .consumed t => some t
  | _ => none

/-- The tokens consumed in a journal, in order. -/
def consumedIn (events : List Event) : List Token :=
  events.filterMap Event.consumed?

@[simp] theorem consumedIn_nil : consumedIn [] = [] := rfl

@[simp] theorem consumedIn_append (xs ys : List Event) :
    consumedIn (xs ++ ys) = consumedIn xs ++ consumedIn ys :=
  List.filterMap_append

@[simp] theorem consumedIn_cons (e : Event) (es : List Event) :
    consumedIn (e :: es) = e.consumed?.toList ++ consumedIn es := by
  cases h : e.consumed? <;> simp [consumedIn, h]

/-- How much detail a log shows. -/
inductive Level where
  | error | info | debug | trace
deriving DecidableEq, Inhabited

namespace Level

/-- The rank of a level: a log at some level shows all lower ones too. -/
def rank : Level → Nat
  | .error => 0
  | .info => 1
  | .debug => 2
  | .trace => 3

/-- The level's name at the head of a log line. -/
def text : Level → String
  | .error => "ERROR"
  | .info => "INFO"
  | .debug => "DEBUG"
  | .trace => "TRACE"

end Level

namespace Event

/-- The level of an event. -/
def level : Event → Level
  | .delivered _ | .consumed _ => .trace
  | .reported _ | .enteredClass _ | .enteredMethod _ | .skippingElse => .debug
  | .started | .finished _ _ => .info

/-- An event in words. -/
def text (file : String) : Event → String
  | .delivered t => "token " ++ t.text
  | .consumed t => "consumed " ++ t.text
  | .reported f => file ++ ": " ++ f.text
  | .enteredClass name => "Entering class " ++ name
  | .enteredMethod name => "Entering method " ++ name
  | .skippingElse => file ++ ": skipping else branch of a dropped if"
  | .started => "Parsing " ++ file
  | .finished classes diagnostics =>
    "Parsed " ++ file ++ ": " ++ toString classes ++ " classes, " ++ toString diagnostics
      ++ " diagnostics"

end Event

/-- The log lines of a journal up to the given level. -/
def logLines (level : Level) (file : String) (events : List Event) : List String :=
  (events.filter fun e => decide (e.level.rank ≤ level.rank)).map fun e =>
    e.level.text ++ " " ++ e.text file

end BantamJava
