import Mission.Workspace

/-! Finding and creating system Parameters. A Parameter is created under its full dotted name in the
local store, the first time it is asked for. Its owner need not exist yet. -/
namespace Mission.Parameter

/-- The system Parameter of a type for an owner, unbound where the workspace has no such object. A
known owner must be of the type that the Parameter type asks for. -/
def describe (w : Workspace) (kind : ParameterKind) (name owner dependency : String) :
    Except ObjectError SystemParameter :=
  let ownerId := w.find? owner
  if ownerId.any fun id => !(w.registry.object id).isOfType kind.ownerType then
    .error (.wrongOwnerType name owner kind.ownerType)
  else
    let dependency :=
      if dependency.isEmpty then kind.dependency.defaultName.getD "" else dependency
    .ok
      { kind
        ownerName := owner
        dependency
        owner := ownerId
        dependencyObject := if dependency.isEmpty then none else w.find? dependency }

/-- The Parameter called `name`: the one in scope if there is one, and otherwise a new one. -/
def create (kinds : ParameterKinds) (typeName name owner dependency : String) :
    Step ObjectError ObjectId := do
  let w ← get
  if let some existing := w.findOfType? name .parameter then
    return existing
  let some kind := Table.get? kinds typeName
    | throw (.unknownParameterType typeName)
  let p ← describe w kind name owner dependency
  if w.scope.store.contains name then
    throw (.duplicateName name)
  let (id, registry) := w.registry.push
    { object := { name, typeName, objectType := .parameter, content := .parameter p } }
  let store := { w.scope.store with objects := w.scope.store.objects.insert name id }
  set { w with registry, scope := { w.scope with store } }
  Step.note .debug s!"Created {typeName} Parameter \"{name}\""
  return id

/-- The Parameter that a dotted description names. -/
def createFrom (kinds : ParameterKinds) (description : String) : Step ObjectError ObjectId :=
  let parts := DottedName.parse description
  create kinds parts.field description parts.owner parts.dependency

/-- Binds one Parameter of the local store that has no owner yet, as far as its owner and dependency
are in scope. Gives its name if the owner is still missing. -/
def bindOne (w : Workspace) (id : ObjectId) : Workspace × Option String :=
  let o := w.registry.object id
  match o.content with
  | .parameter p =>
    if p.owner.isSome then (w, none)
    else
      let owner := w.find? p.ownerName
      let dependency := if p.dependency.isEmpty then none else w.find? p.dependency
      let bound := { o with content := .parameter (p.bind owner dependency) }
      ({ w with registry := w.registry.setObject id bound },
        if owner.isNone then some o.name else none)
  | _ => (w, none)

/-- Binds the Parameters of the local store that were created before their owners, and gives the
names of those whose owner is still missing. -/
def bindAll (w : Workspace) : Workspace × List String :=
  w.scope.store.objects.values.foldl
    (fun (w, missing) id =>
      let (w, name) := bindOne w id
      (w, missing ++ name.toList))
    (w, [])

end Mission.Parameter
