import EntityQuery.Draft.Basic
import EntityQuery.Navigation

/-! # Eager loading

Loading a navigation chain joins the table of each related entity that is not loaded yet, and hangs
its shape under the object it belongs to. Steps that are loaded already are walked through.

A chain that fails halfway leaves the steps before the failure loaded. An alias that was taken for
the failing step stays taken. -/

namespace EntityQuery
set_option autoImplicit false

namespace Shape

/-- The object that the next step of a chain belongs to: the shape itself, or the element of a
collection. -/
def owner? : Shape → Option (ObjectOf Shape)
  | .object o => some o
  | .collection (.object o) _ _ => some o
  | _ => none

/-- Replaces the object that the next step belongs to. -/
def withOwner (s : Shape) (o : ObjectOf Shape) : Shape :=
  match s with
  | .collection _ c f => .collection (.object o) c f
  | _ => .object o

def keyOf (o : ObjectOf Shape) (key : String) : Except CompileError Sql.Expr :=
  match (o.members.lookup key).bind scalar? with
  | some e => .ok e
  | none => .error (.unknownMember key)

end Shape

namespace Draft

/-- The predicate of a step, with its parameter bound to the related object. -/
def stepPredicate (d : Draft) (env : Env) (related : Shape) :
    Option Lambda → Except CompileError (Option Sql.Expr)
  | none => .ok none
  | some f => do
    let s ← d.scopeOf env f related
    return some (← s.predicate f)

/-- A navigation that is to be joined. -/
structure Link where
  many : Bool
  target : Entity
  association : Association

/-- What is known about a step before anything is changed: whether it leads to a collection, and
what is to be joined for it, if that has not been done. -/
def inspect (env : Env) (owner : ObjectOf Shape) (step : NavigationStep) (below : Bool) :
    Except CompileError (Bool × Option Link) :=
  match owner.entity with
  | none =>
    match owner.members.lookup step.property with
    | none => .error (.unknownMember step.property)
    | some (.scalar _) => .error (.unsupported (.notNavigation step.property))
    | some s => .ok (s.isCollection, none)
  | some name => do
    let entity ← env.entity name
    match entity.property? step.property with
    | none => .error (.unknownProperty name step.property)
    | some p =>
      let many := p.kind == .collection
      if !p.kind.isNavigation then .error (.unsupported (.notNavigation step.property))
      else if Entries.has step.property owner.members then .ok (many, none)
      else if many && below then .error (.notProvided (.nestedCollection step.property))
      else
        match p.association, p.target with
        | some association, some target => do
          let target ← env.entity target
          .ok (many, some { many, target, association })
        | _, _ => .error (.unsupported (.noAssociation name step.property))

/-- The shape of a related object. -/
def relatedShape (many : Bool) (element : ObjectOf Shape) (condition filter : Option Sql.Expr) :
    Shape :=
  if many then .collection (.object element) condition filter
  else .object { element with condition, filter }

/-- The join condition of a step: equal keys, and what the step asks for besides. -/
def linkCondition (ownerKey relatedKey : Sql.Expr) (condition filter : Option Sql.Expr) :
    Sql.Expr :=
  (condition.toList ++ filter.toList).foldl (fun e more => Sql.Expr.andAlso (some e) more)
    (.compare .eq ownerKey relatedKey)

/-- Joins the table of a related entity, visible under `label`, and gives the shape to hang under
the owner. -/
def attach (d : Draft) (env : Env) (owner : ObjectOf Shape) (step : NavigationStep) (link : Link)
    (label : String) : Except CompileError (Draft × Shape) := do
  let element := ObjectOf.ofEntity link.target label
  let ownerKey ← Shape.keyOf owner link.association.thisKey
  let relatedKey ← Shape.keyOf element link.association.otherKey
  let condition ← d.stepPredicate env (.object element) step.condition
  let filter ← d.stepPredicate env (.object element) step.filter
  let join : Sql.Join :=
    { kind := .left
      source := .table link.target.table label
      on := linkCondition ownerKey relatedKey condition filter }
  return ({ d with sources := d.sources.join join },
    relatedShape link.many element condition filter)

/-- Takes one step from its owner. The draft is given back also on failure, because an alias may
have been taken. On success there are the owner with the member in place, the member, and whether
the step leads to a collection. -/
def takeStep (d : Draft) (env : Env) (owner : ObjectOf Shape) (step : NavigationStep)
    (below : Bool) : Draft × Except CompileError (ObjectOf Shape × Shape × Bool) :=
  match inspect env owner step below with
  | .error e => (d, .error e)
  | .ok (many, none) =>
    match owner.members.lookup step.property with
    | some member => (d, .ok (owner, member, many))
    | none => (d, .error (.unknownMember step.property))
  | .ok (many, some link) =>
    let (label, aliases) := d.aliases.reserve link.target.table
    let d := { d with aliases }
    match d.attach env owner step link label with
    | .error e => (d, .error e)
    | .ok (d, member) => (d, .ok (owner.withMember step.property member, member, many))

/-- Takes the steps of a chain, starting at `shape`. The shape and the draft are given back also on
failure, with everything done before it. -/
def walk (env : Env) : List NavigationStep → Bool → Shape → Draft →
    Shape × Draft × Option CompileError
  | [], _, shape, d => (shape, d, none)
  | step :: steps, below, shape, d =>
    match shape.owner? with
    | none => (shape, d, some (.unsupported (.notNavigation step.property)))
    | some owner =>
      match d.takeStep env owner step below with
      | (d, .error e) => (shape, d, some e)
      | (d, .ok (owner, member, many)) =>
        let (member, d, failure) := walk env steps (below || many) member d
        (shape.withOwner (owner.withMember step.property member), d, failure)

/-- Loads a navigation chain. The draft is given back also on failure, with what was done. -/
def load (d : Draft) (env : Env) (chain : NavigationChain) : Draft × Option CompileError :=
  if env.settings.navigationDepth < chain.length then
    (d, some (.tooDeep env.settings.navigationDepth))
  else
    let (result, d, failure) := walk env chain.steps false d.result d
    ({ d with result }, failure)

end Draft

end EntityQuery
