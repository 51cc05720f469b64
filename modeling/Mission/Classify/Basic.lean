import Mission.Accessor.Basic
import Mission.Classify.Error
import Mission.Classify.Phrase
import Mission.Parameter.Create

/-! Classification: from a text in a script to a bound accessor. The form of the text is settled by
`Phrase`; here its names are looked up. A dotted name may create a system Parameter in the local
store; nothing else is ever created. -/
namespace Mission

/-- Policy for texts that can be read in more than one way. -/
structure ClassifyOptions where
  /-- Whether `owner.name` is a system Parameter rather than a property, if it can be both. -/
  parametersFirst : Bool := true
  /-- Whether an unknown identifier is taken as text rather than refused. -/
  createDefaultString : Bool := true
deriving DecidableEq, Repr

namespace ClassifyOptions

/-- The policy for array indices. -/
def index : ClassifyOptions :=
  { parametersFirst := false, createDefaultString := false }

end ClassifyOptions

namespace Classify

/-- A property of an object, or of its part that the dependency names. -/
def property? (r : Registry) (description : String) (owner : ObjectId) (parts : DottedName) :
    Option Accessor :=
  let ref : PropertyRef :=
    PropertyRef.bind ⟨parts.owner, parts.dependency, parts.field, none⟩ r owner
  if ref.target.isSome then some (.property description ref) else none

/-- A property of the solar system, or of the body that the first part of the dependency names. -/
def solarSystemProperty (r : Registry) (description : String) (system : ObjectId)
    (parts : DottedName) : Except ClassifyError Accessor :=
  let body := String.ofList (parts.dependency.toList.takeWhile (· ≠ '.'))
  if !body.isEmpty && (r.findOwned system body).isNone then .error (.bodyNotFound body)
  else
    let ref : PropertyRef := PropertyRef.bind ⟨parts.owner, body, parts.field, none⟩ r system
    if ref.target.isSome then .ok (.property description ref)
    else
      .error (.object (.undefinedProperty (if body.isEmpty then parts.owner else body) parts.field))

/-- The system Parameter of a dotted name. -/
def parameter (kinds : ParameterKinds) (description : String) (parts : DottedName) :
    Step ClassifyError Accessor := do
  let id ← Step.mapError (.parameter description)
    (Parameter.create kinds parts.field description parts.owner parts.dependency)
  return .ofObject (← get).registry description id

/-- A property of the owner, and otherwise a Parameter if one has not been tried before and the field
is the name of a Parameter type. -/
def propertyThenParameter (kinds : ParameterKinds) (description : String) (parts : DottedName)
    (owner : Option ObjectId) (tried : Bool) : Step ClassifyError Accessor := do
  match owner with
  | none => parameter kinds description parts
  | some owner =>
    match property? (← get).registry description owner parts with
    | some a => return a
    | none =>
      if tried || !Table.contains kinds parts.field then throw (.noValidField description)
      else parameter kinds description parts

/-- A dotted name with an ordinary owner, or with none. Names with two dots are Parameters, except on
burns, whose fields come first. With one dot the options decide. -/
def onOwner (kinds : ParameterKinds) (options : ClassifyOptions) (description : String)
    (parts : DottedName) (owner : Option ObjectId) : Step ClassifyError Accessor := do
  let w ← get
  let isBurn := owner.any fun id => (w.registry.object id).isOfType .burn
  let manyDots : Bool := 1 < DottedName.dots description
  let parameterFirst := if manyDots then !isBurn else options.parametersFirst
  if !parameterFirst then propertyThenParameter kinds description parts owner false
  else if manyDots || owner.isNone then parameter kinds description parts
  else
    fun w =>
      match parameter kinds description parts w with
      | (.ok a, w) => (.ok a, w)
      | (.error _, w) => propertyThenParameter kinds description parts owner true w

/-- A dotted name. On the solar system, force models, propagator setups and coordinate systems it is
always a property. -/
def dotted (kinds : ParameterKinds) (options : ClassifyOptions) (description : String) :
    Step ClassifyError Accessor := do
  let w ← get
  let parts := DottedName.parse description
  match w.find? parts.owner with
  | none => onOwner kinds options description parts none
  | some owner =>
    let ownerType := (w.registry.object owner).objectType
    match ownerType with
    | .solarSystem => solarSystemProperty w.registry description owner parts
    | .forceModel | .propSetup | .coordinateSystem =>
      match property? w.registry description owner parts with
      | some a => return a
      | none => throw (.ownedFieldNotFound description parts.owner ownerType)
    | _ => onOwner kinds options description parts (some owner)

/-- A bare identifier: an object in scope, then a truth word, then a flag word. -/
def bare (w : Workspace) (options : ClassifyOptions) (description : String) :
    Except ClassifyError Accessor :=
  match w.find? description with
  | some id => .ok (.ofObject w.registry description id)
  | none =>
    match Literal.boolean? description, Literal.onOff? description with
    | some flag, _ => .ok (.boolean description flag)
    | none, some flag => .ok (.onOff description flag)
    | none, none =>
      if options.createDefaultString then .ok (.string description description)
      else .error (.undefinedObject description)

/-- The array that an array element refers to. -/
def arrayOf (w : Workspace) (name : String) : Except ClassifyError ObjectId :=
  match w.find? name with
  | none => .error (.arrayNotFound name)
  | some id => if (w.registry.object id).isArray then .ok id else .error (.notAnArray name)

/-- A text that is neither a literal nor an array element. -/
def identifier (kinds : ParameterKinds) (options : ClassifyOptions) (description : String) :
    Step ClassifyError Accessor := do
  if description.toList.contains '.' then dotted kinds options description
  else
    let w ← get
    bare w options description

/-- Appends to the log that an accessor was made. -/
def noteCreated (a : Accessor) : Step ClassifyError Accessor := do
  Step.note .debug s!"Created {a.kind.name} wrapper for \"{a.description}\""
  return a

/-- Gives a phrase its meaning in the workspace. The array of an element is looked up first, then its
indices get their meaning, and the element comes last. -/
def resolve (kinds : ParameterKinds) (options : ClassifyOptions) :
    Phrase → Step ClassifyError Accessor
  | .literal a => noteCreated a
  | .malformed e => throw (.parse e)
  | .element description name row column => do
    let w ← get
    let array ← arrayOf w name
    let row ← resolve kinds .index row
    let column ← resolve kinds .index column
    let w ← get
    noteCreated ((Accessor.element description name none row column).bind w.registry array).1
  | .identifier description => do
    let a ← identifier kinds options description
    noteCreated a

end Classify

/-- Gives a text its meaning in the workspace. -/
def classify (kinds : ParameterKinds) (options : ClassifyOptions) (text : String) :
    Step ClassifyError Accessor :=
  Classify.resolve kinds options (Phrase.parse text)

end Mission
