/-! Messages about what the interpreter does, in the order in which they arise. -/
namespace Mission

inductive Level
  | warn
  | info
  | debug
deriving DecidableEq, Repr

namespace Level

def name : Level → String
  | warn => "WARN"
  | info => "INFO"
  | debug => "DEBUG"

/-- A smaller rank is more severe. -/
def rank : Level → Nat
  | warn => 0
  | info => 1
  | debug => 2

end Level

structure Message where
  level : Level
  text : String
deriving DecidableEq, Repr

structure Log where
  latestFirst : List Message := []
deriving DecidableEq, Repr, Inhabited

namespace Log

/-- The messages in the order in which they arose. -/
def messages (log : Log) : List Message :=
  log.latestFirst.reverse

def push (log : Log) (m : Message) : Log :=
  ⟨m :: log.latestFirst⟩

@[simp] theorem messages_push (log : Log) (m : Message) :
    (log.push m).messages = log.messages ++ [m] := by
  simp [messages, push]

/-- The messages of a level or more severe, each behind the name of its level. -/
def lines (log : Log) (least : Level) : List String :=
  log.messages.filterMap fun m =>
    if m.level.rank ≤ least.rank then some (m.level.name ++ " " ++ m.text) else none

end Log

end Mission
