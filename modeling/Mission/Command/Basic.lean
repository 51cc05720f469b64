import Mission.Command.Assignment
import Mission.Condition.Basic

/-! The commands of a script. A command holds the names it was written with and, once it has been
checked, the accessors of those names. -/
namespace Mission

/-- A name of a command and its accessor. -/
structure Slot where
  name : String
  accessor : Option Accessor := none

namespace Slot

def make (text : String) : Slot :=
  { name := Text.trim text }

def clear (s : Slot) : Slot :=
  { s with accessor := none }

def bind (name : String) (a : Accessor) (s : Slot) : Slot :=
  if s.name = name then { s with accessor := some a } else s

def rename (old new : String) (s : Slot) : Slot :=
  { name := Name.replace s.name old new, accessor := s.accessor.map (Accessor.rename old new) }

/-- Gives every slot of that name its accessor, and tells whether there is one. -/
def bindAll (slots : List Slot) (name : String) (a : Accessor) : List Slot × Bool :=
  (slots.map (bind name a), slots.any fun s => s.name = name)

def accessors (slots : List Slot) : List Accessor :=
  slots.flatMap fun s => s.accessor.toList

def names (slots : List Slot) : List String :=
  slots.map Slot.name

end Slot

/-- Writes the current values of names to a report file. -/
structure Report where
  subscriber : String
  slots : List Slot

namespace Report

def make (subscriber : String) (items : List String) : Report :=
  { subscriber := Text.trim subscriber, slots := items.map Slot.make }

def text (c : Report) : String :=
  c.slots.foldl (fun text slot => s!"{text} {slot.name}") s!"Report {c.subscriber}"

end Report

/-- Moves spacecraft forward until a Parameter reaches a value. The command is checked like any other,
but running it does nothing. -/
structure Propagate where
  propagator : String
  spacecraft : List String
  /-- The Parameter and the value at which to stop. -/
  stop : Option (Slot × Slot) := none

namespace Propagate

def make (propagator : String) (spacecraft : List String) (stop : Option (String × String)) :
    Propagate :=
  { propagator := Text.trim propagator
    spacecraft := spacecraft.map Text.trim
    stop := stop.map fun (parameter, value) => (Slot.make parameter, Slot.make value) }

def slots (c : Propagate) : List Slot :=
  match c.stop with
  | some (parameter, value) => [parameter, value]
  | none => []

def mapStop (f : Slot → Slot) (c : Propagate) : Propagate :=
  { c with stop := c.stop.map fun (parameter, value) => (f parameter, f value) }

def text (c : Propagate) : String :=
  let sats := ", ".intercalate c.spacecraft
  let stop :=
    match c.stop with
    | some (parameter, value) => s!" \x7b{parameter.name} = {value.name}\x7d"
    | none => ""
  s!"Propagate {c.propagator}({sats}){stop}"

end Propagate

/-- Calls a user function. -/
structure Call where
  function : String
  inputs : List Slot
  outputs : List Slot

namespace Call

def make (function : String) (inputs outputs : List String) : Call :=
  { function := Text.trim function
    inputs := inputs.map Slot.make
    outputs := outputs.map Slot.make }

def slots (c : Call) : List Slot :=
  c.inputs ++ c.outputs

def mapSlots (f : Slot → Slot) (c : Call) : Call :=
  { c with inputs := c.inputs.map f, outputs := c.outputs.map f }

def text (c : Call) : String :=
  let inputs := ", ".intercalate (Slot.names c.inputs)
  let outputs := ", ".intercalate (Slot.names c.outputs)
  if c.outputs.isEmpty then s!"{c.function}({inputs})" else s!"[{outputs}] = {c.function}({inputs})"

end Call

inductive BranchKind
  /-- Runs its body once if the conditions hold, and otherwise the other commands. -/
  | ifThen
  /-- Runs its body as long as the conditions hold. -/
  | whileLoop
deriving DecidableEq, Repr

def BranchKind.name : BranchKind → String
  | .ifThen => "If"
  | .whileLoop => "While"

/-- A command, with the line of the script it stands on if that is known. -/
inductive Command
  | assignment (a : Assignment) (line : Option Nat)
  | branch (kind : BranchKind) (chain : Chain) (body otherwise : List Command) (line : Option Nat)
  | report (c : Report) (line : Option Nat)
  | propagate (c : Propagate) (line : Option Nat)
  | call (c : Call) (line : Option Nat)

namespace Command

instance : Inhabited Command := ⟨report ⟨"", []⟩ none⟩

def line : Command → Option Nat
  | assignment _ line | branch _ _ _ _ line | report _ line | propagate _ line | call _ line => line

/-- The keyword of the command. -/
def typeName : Command → String
  | assignment _ _ => "Assignment"
  | branch kind _ _ _ _ => kind.name
  | report _ _ => "Report"
  | propagate _ _ => "Propagate"
  | call _ _ => "CallFunction"

/-- The text of the command, without the commands inside it. -/
def text : Command → String
  | assignment a _ => a.text
  | branch kind chain _ _ _ => s!"{kind.name} {chain.text}"
  | report c _ => c.text
  | propagate c _ => c.text
  | call c _ => c.text

/-- The names that need an accessor, without those of the commands inside. -/
def names : Command → List String
  | assignment a _ => a.names
  | branch _ chain _ _ _ => chain.names
  | report c _ => Slot.names c.slots
  | propagate c _ => Accessor.union [] (Slot.names c.slots)
  | call c _ => Accessor.union [] ((Slot.names c.slots).filter fun name => !name.isEmpty)

/-- Gives a name of the command its accessor, and tells whether the command uses that name. For an
assignment this concerns the right-hand side. -/
def bind (name : String) (a : Accessor) : Command → Command × Bool
  | assignment c line =>
    let (c, bound) := c.bindSource name a
    (assignment c line, bound)
  | branch kind chain body otherwise line =>
    let (chain, bound) := chain.bind name a
    (branch kind chain body otherwise line, bound)
  | report c line =>
    let (slots, bound) := Slot.bindAll c.slots name a
    (report { c with slots } line, bound)
  | propagate c line =>
    (propagate (c.mapStop (Slot.bind name a)) line, (Slot.bindAll c.slots name a).2)
  | call c line => (call (c.mapSlots (Slot.bind name a)) line, (Slot.bindAll c.slots name a).2)

/-- Takes all accessors away. The commands inside keep theirs. -/
def clear : Command → Command
  | assignment c line => assignment c.clear line
  | branch kind chain body otherwise line => branch kind chain.clear body otherwise line
  | report c line => report { c with slots := c.slots.map Slot.clear } line
  | propagate c line => propagate (c.mapStop Slot.clear) line
  | call c line => call (c.mapSlots Slot.clear) line

def accessors : Command → List Accessor
  | assignment c _ => c.accessors
  | branch _ chain _ _ _ => chain.accessors
  | report c _ => Slot.accessors c.slots
  | propagate c _ => Slot.accessors c.slots
  | call c _ => Slot.accessors c.slots

/-- Whether an accessor stands for a system Parameter with a dotted name. -/
def isSystemParameter (a : Accessor) : Bool :=
  a.kind = .parameter && !(DottedName.parse a.description).field.isEmpty

/-- The objects that the command names by type. -/
def namedReferences : Command → List (ObjectType × String)
  | report c _ => [(.subscriber, c.subscriber)]
  | propagate c _ => (.propSetup, c.propagator) :: c.spacecraft.map fun name => (.spacecraft, name)
  | _ => []

/-- The objects that must exist for the command: those it names by type, then its system Parameters,
each once. -/
def references (c : Command) : List (ObjectType × String) :=
  let parameters := (c.accessors.filter isSystemParameter).map fun a =>
    (ObjectType.parameter, a.description)
  parameters.foldl (fun refs entry => if refs.contains entry then refs else refs ++ [entry])
    c.namedReferences

mutual

/-- Follows a rename in the command and in the commands inside it. The names of functions stay. -/
def rename (old new : String) : Command → Command
  | assignment c line => assignment (c.rename old new) line
  | branch kind chain body otherwise line =>
    branch kind (chain.rename old new) (renameAll old new body) (renameAll old new otherwise) line
  | report c line =>
    report
      { subscriber := Name.replace c.subscriber old new
        slots := c.slots.map (Slot.rename old new) }
      line
  | propagate c line =>
    let c := c.mapStop (Slot.rename old new)
    propagate
      { c with
        propagator := Name.replace c.propagator old new
        spacecraft := c.spacecraft.map fun name => Name.replace name old new }
      line
  | call c line => call (c.mapSlots (Slot.rename old new)) line

def renameAll (old new : String) : List Command → List Command
  | [] => []
  | c :: rest => rename old new c :: renameAll old new rest

end

/-- Appends to the commands that run when the conditions do not hold. A loop has none. -/
def addOtherwise (c : Command) : Command → Except CommandError Command
  | branch .ifThen chain body otherwise line =>
    .ok (branch .ifThen chain body (otherwise ++ [c]) line)
  | branch .whileLoop _ _ _ _ => .error .elseInLoop
  | other => .ok other

end Command

/-- A user function as it is written: formal arguments, local objects and a body. -/
structure FunctionDeclaration where
  name : String
  inputs : List String
  outputs : List String
  locals : List Assembly := []
  body : List Command := []

/-- A user function. Its local objects are values, but the parts that they own are objects of the
registry, which others may hold as well. -/
structure UserFunction where
  name : String
  inputs : List String
  outputs : List String
  locals : List Entry := []
  body : List Command := []

end Mission
