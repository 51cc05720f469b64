import Mission.Checking.Command

/-! The final pass over the objects of a script, after its commands have been checked. Parameters are
bound to owners that were created after them, references between objects are checked, and a coordinate
system without axes gets the default ones. -/
namespace Mission.Checker

/-- The references of an object and of its parts. -/
def objectReferences (r : Registry) (id : ObjectId) : List (ObjectType × String) :=
  (r.object id).references ++ (r.owned id).flatMap fun part => (r.object part).references

/-- The errors in the references of an object. -/
def referenceErrors (w : Workspace) (id : ObjectId) : List CommandError :=
  let o := w.registry.object id
  let referencedIn := s!"{o.typeName} \"{o.name}\""
  (objectReferences w.registry id).filterMap fun (t, name) =>
    match checkReference w.registry (w.scope.store.find? w.registry name) t name referencedIn with
    | .ok () => none
    | .error e => some e

/-- A libration point needs two different bodies. -/
def bodyErrors (o : Object) : List CommandError :=
  if o.typeName ≠ "LibrationPoint" then []
  else
    match o.get "Primary", o.get "Secondary" with
    | .ok (.object primary), .ok (.object secondary) =>
      if !primary.isEmpty && primary = secondary then [.identicalBodies o.name primary] else []
    | _, _ => []

/-- Gives a coordinate system that has no axis system the default one. -/
def defaultAxes (ck : Checker) (id : ObjectId) (w : Workspace) : List CommandError × Workspace :=
  let o := w.registry.object id
  if o.objectType ≠ .coordinateSystem || w.registry.hasAxisSystem id then ([], w)
  else
    let axisType := ck.settings.defaultAxisType
    match Catalog.axisSystem axisType with
    | .error e => ([.object e], w)
    | .ok axes =>
      let w := w.note .warn
        s!"CoordinateSystem \"{o.name}\" has no AxisSystem, so {axisType} is used"
      let registry := w.registry.replaceOwned id .axisSystem axes
      match (registry.object id).set "Axes" (.string axisType) with
      | .ok o => ([], { w with registry := registry.setObject id o })
      | .error e => ([.object e], { w with registry })

/-- Checks an object of the store. -/
def checkObject (ck : Checker) (id : ObjectId) (w : Workspace) : List CommandError × Workspace :=
  let errors := referenceErrors w id ++ bodyErrors (w.registry.object id)
  let (axisErrors, w) := ck.defaultAxes id w
  (errors ++ axisErrors, w)

/-- Checks objects in order and handles the errors of each. -/
def checkObjects (ck : Checker) :
    List ObjectId → (valid : Bool) → CheckState → Except ValidationError Bool × CheckState
  | [], valid, s => (.ok valid, s)
  | id :: rest, valid, s =>
    let (errors, workspace) := ck.checkObject id s.workspace
    match ck.handleAll errors valid { s with workspace } with
    | (.error e, s) => (.error e, s)
    | (.ok valid, s) => ck.checkObjects rest valid s

/-- The final pass over the store of the workspace. The result is `false` if an error was collected. -/
def finalPass (ck : Checker) (s : CheckState) : Except ValidationError Bool × CheckState :=
  let before := s.errors.length
  let (workspace, missing) := Parameter.bindAll s.workspace
  let unresolved := missing.map fun name =>
    CommandError.object (.parameterOwnerMissing name (DottedName.parse name).owner)
  match ck.handleAll unresolved true { s with workspace } with
  | (.error e, s) => (.error e, s)
  | (.ok valid, s) =>
    let ids := s.workspace.scope.store.objects.values
    match ck.checkObjects ids valid s with
    | (.error e, s) => (.error e, s)
    | (.ok valid, s) =>
      let text := s!"Final pass checked {ids.length} object(s), {s.errors.length - before} error(s)"
      (.ok valid, { s with workspace := s.workspace.note .info text })

end Mission.Checker
