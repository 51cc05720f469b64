import Mission.Checking.Basic

/-! Checking commands. All names of a command are classified and bound, and the objects it refers to
must exist. A command loses its accessors first, so it can be checked again after the objects have
changed. -/
namespace Mission.Checker

/-- Classifies a name of a command. -/
def accessorOf (ck : Checker) (options : ClassifyOptions) (name referencedIn : String) :
    Step CommandError Accessor :=
  fun w =>
    match classify ck.kinds options name w with
    | (.ok a, w) =>
      if ck.settings.warnOnDefaultString && a.kind = .string && !Literal.isQuoted name
          && !Literal.isBraced name then
        (.ok a, w.note .warn
          s!"\"{name}\" in \"{referencedIn}\" is not an object and is treated as a string")
      else (.ok a, w)
    | (.error (.undefinedObject name), w) => (.error (.undefinedObject name referencedIn), w)
    | (.error e, w) => (.error (.classify e), w)

/-- Gives the coordinate system of an assignment to its `Axes` the axis system of that type. -/
def attachAxes (a : Assignment) : Step CommandError Unit := do
  let parts := DottedName.parse a.lhs
  if parts.field ≠ "Axes" || !parts.dependency.isEmpty || a.isEquation then
    return
  let w ← get
  match w.findOfType? parts.owner .coordinateSystem with
  | none => return
  | some id => do
    let axisType := Literal.unquote a.rhs
    let axes ← CommandError.liftObject (Catalog.axisSystem axisType)
    let system ← CommandError.liftObject ((w.registry.object id).set "Axes" (.string axisType))
    set { w with registry := (w.registry.setObject id system).replaceOwned id .axisSystem axes }
    Step.note .debug s!"Attached {axisType} axes to \"{system.name}\""

/-- The policy for the target of an assignment. It is a field to be written, unless it is a settable
Parameter with a dependency. -/
def targetOptions (ck : Checker) (lhs : String) : ClassifyOptions :=
  { parametersFirst :=
      1 < DottedName.dots lhs && ck.kinds.isSettable (DottedName.parse lhs).field
    createDefaultString := false }

/-- Classifies a name of the right-hand side for a target of the given type. A bare word for a file
name is text. -/
def sourceAccessor (ck : Checker) (targetType : DataType) (name referencedIn : String) :
    Step CommandError Accessor := do
  let options : ClassifyOptions :=
    { parametersFirst := ck.kinds.describes name
      createDefaultString := targetType ≠ .real }
  let w ← get
  if targetType = .filename && !Literal.isQuoted name && (w.find? name).isNone then
    ck.accessorOf options s!"'{name}'" referencedIn
  else ck.accessorOf options name referencedIn

/-- Binds names of the right-hand side in order. A leaf that shares the accessor of the target is
passed over. -/
def bindSources (ck : Checker) (targetType : DataType) (referencedIn : String) :
    List String → Edit Assignment Unit
  | [] => return
  | name :: rest => do
    let a ← Edit.subject
    if !(a.isEquation && name = a.lhs && !name.toList.contains '.') then
      let accessor ← Edit.step (ck.sourceAccessor targetType name referencedIn)
      let (a, bound) := a.bindSource name accessor
      if !bound then throw (.bindingFailed "RHS" name)
      Edit.replace a
    ck.bindSources targetType referencedIn rest

/-- Binds both sides of an assignment and checks that they fit. -/
def checkAssignment (ck : Checker) : Edit Assignment Unit := do
  let a ← Edit.subject
  let text := a.text
  let (a, _) ← Edit.step (a.build ck.functions.keys)
  Edit.replace a
  let target ← Edit.step (ck.accessorOf (ck.targetOptions a.lhs) a.lhs text)
  if target.kind.isLiteral then throw (.bindingFailed "LHS" a.lhs)
  let targetType := target.dataType (← Edit.workspace).registry
  if (targetType = .string || targetType = .stringArray) && Literal.hasUnbalancedQuote a.rhs then
    throw (.missingEndQuote text)
  let (names, a) ← a.sourceNames
  Edit.replace (a.bindTarget target)
  ck.bindSources targetType text names
  let a ← Edit.subject
  if a.isEquation then
    CommandError.liftMath (a.equation.validate (← Edit.workspace).registry)
  Edit.step (attachAxes a)

/-- Binds names of a command in order. -/
def bindNames (ck : Checker) (options : ClassifyOptions) (referencedIn : String) :
    List String → Edit Command Unit
  | [] => return
  | name :: rest => do
    let accessor ← Edit.step (ck.accessorOf options name referencedIn)
    let (c, bound) := (← Edit.subject).bind name accessor
    if !bound then throw (.unknownName c.typeName name)
    Edit.replace c
    ck.bindNames options referencedIn rest

def bindCommand (ck : Checker) (parametersFirst : Bool) : Edit Command Unit := do
  let c ← Edit.subject
  ck.bindNames { parametersFirst, createDefaultString := false } c.text c.names

/-- Checks that the called function exists and takes that many arguments. -/
def checkCall (ck : Checker) (c : Call) : Except CommandError Unit :=
  match ck.functions.get? c.function with
  | none => .error (.undefinedFunction c.function)
  | some f =>
    if f.inputs.length ≠ c.inputs.length then
      .error (.functionArgumentCount f.name "input" f.inputs.length c.inputs.length)
    else if f.outputs.length ≠ c.outputs.length then
      .error (.functionArgumentCount f.name "output" f.outputs.length c.outputs.length)
    else .ok ()

/-- Checks that a system Parameter has a known type and an owner. -/
def checkParameter (ck : Checker) (w : Workspace) (name : String) : Except CommandError Unit :=
  let parts := DottedName.parse name
  if !Table.contains ck.kinds parts.field then .error (.object (.unknownParameterType parts.field))
  else if (w.find? parts.owner).isNone then .error (.undefinedObject parts.owner name)
  else .ok ()

/-- Checks that an object exists and is of the type that is expected of it. -/
def checkReference (r : Registry) (found : Option ObjectId) (t : ObjectType)
    (name referencedIn : String) : Except CommandError Unit :=
  match found with
  | none => .error (.undefinedReference t name referencedIn)
  | some id =>
    if (r.object id).isOfType t then .ok () else .error (.wrongReferenceType t name referencedIn)

/-- Checks the objects that a command refers to, in order. -/
def checkReferences (ck : Checker) (w : Workspace) (referencedIn : String) :
    List (ObjectType × String) → Except CommandError Unit
  | [] => .ok ()
  | (t, name) :: rest => do
    if t = .parameter then ck.checkParameter w name
    else checkReference w.registry (w.find? name) t name referencedIn
    ck.checkReferences w referencedIn rest

/-- Checks a command without the commands inside it. If objects are not managed, it only loses its
accessors. -/
def check (ck : Checker) : Edit Command Unit := do
  let c := (← Edit.subject).clear
  Edit.replace c
  if ck.settings.manage = .unmanaged then
    return
  match c with
  | .assignment a line => Edit.within a (Command.assignment · line) ck.checkAssignment
  | .call call _ => do
    ck.checkCall call
    ck.bindCommand false
  | _ => ck.bindCommand true
  let c ← Edit.subject
  ck.checkReferences (← Edit.workspace) s!"{c.typeName} command" c.references

/-- Checks a command without the commands inside it, and handles its error. -/
def validateOne (ck : Checker) (c : Command) (s : CheckState) :
    Except ValidationError Bool × Command × CheckState :=
  match ck.check (c, s.workspace) with
  | (.ok (), (c, workspace)) => (.ok true, c, { s with workspace })
  | (.error e, (c, workspace)) =>
    let (result, s) := ck.handle e c.text c.line { s with workspace }
    (result, c, s)

/-- Puts checked commands inside a command. -/
def withInner (body otherwise : List Command) : Command → Command
  | .branch kind chain _ _ line => .branch kind chain body otherwise line
  | c => c

mutual

/-- Checks a command and then the commands inside it. The result is `false` if an error was
collected. -/
def validate (ck : Checker) :
    Command → CheckState → Except ValidationError Bool × Command × CheckState
  | .branch kind chain body otherwise line, s =>
    match ck.validateOne (.branch kind chain body otherwise line) s with
    | (.error e, c, s) => (.error e, c, s)
    | (.ok valid, c, s) =>
      match ck.validateEach body valid s with
      | (.error e, body, s) => (.error e, withInner body otherwise c, s)
      | (.ok valid, body, s) =>
        let (result, otherwise, s) := ck.validateEach otherwise valid s
        (result, withInner body otherwise c, s)
  | .assignment a line, s => ck.validateOne (.assignment a line) s
  | .report c line, s => ck.validateOne (.report c line) s
  | .propagate c line, s => ck.validateOne (.propagate c line) s
  | .call c line, s => ck.validateOne (.call c line) s

/-- Checks commands in order. After an error that ends the check the rest stay as they are. -/
def validateEach (ck : Checker) :
    List Command → (valid : Bool) → CheckState →
      Except ValidationError Bool × List Command × CheckState
  | [], valid, s => (.ok valid, [], s)
  | c :: rest, valid, s =>
    match ck.validate c s with
    | (.error e, c, s) => (.error e, c :: rest, s)
    | (.ok fine, c, s) =>
      let (result, rest, s) := ck.validateEach rest (valid && fine) s
      (result, c :: rest, s)

end

/-- Checks a sequence of commands. -/
def validateAll (ck : Checker) (commands : List Command) (s : CheckState) :
    Except ValidationError Bool × List Command × CheckState :=
  let before := s.errors.length
  match ck.validateEach commands true s with
  | (.error e, commands, s) => (.error e, commands, s)
  | (.ok valid, commands, s) =>
    let text := s!"Validated {commands.length} command(s), {s.errors.length - before} error(s)"
    (.ok valid, commands, { s with workspace := s.workspace.note .info text })

end Mission.Checker
