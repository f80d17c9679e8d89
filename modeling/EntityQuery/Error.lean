import EntityQuery.Sql.Text

/-! # Compile errors

An error names its cause; `CompileError.message` is the one place where causes become words. -/

namespace EntityQuery
set_option autoImplicit false

/-- What a query cannot ask for. -/
inductive Unsupported where
  | missingArgument (function : Sql.AggregateFunction)
  | recordAsScalar
  | notScalar (path : String)
  | notRooted (path : String)
  | nullAgainstNull
  | orderAgainstNull (op : Sql.Comparator)
  | collectionKey (path : String)
  | duplicateMember (name : String)
  | includeAfter (path stage : String)
  | afterAggregate (operator : String)
  | noGroupKeys
  | notNavigation (property : String)
  | noAssociation (entity property : String)
deriving DecidableEq

/-- What a query may ask for but is not provided. -/
inductive NotProvided where
  | overCollections (operation : String)
  | nestedCollection (property : String)
deriving DecidableEq

/-- Why a query does not compile. -/
inductive CompileError where
  | unsupported (cause : Unsupported)
  | notProvided (cause : NotProvided)
  | unknownEntity (name : String)
  | unknownProperty (entity property : String)
  | unknownMember (member : String)
  | unboundParam (name : String)
  | aliasOutOfScope (label : String)
  | arity (expected got : Nat)
  | tooDeep (limit : Nat)
deriving DecidableEq

/-- The words for an unsupported request. -/
def Unsupported.reason : Unsupported → String
  | .missingArgument f => f.sqlName ++ " requires an argument"
  | .recordAsScalar => "record construction is not a scalar expression"
  | .notScalar p => "'" ++ p ++ "' is not a scalar member"
  | .notRooted p => "member access '" ++ p ++ "' is not rooted at a parameter"
  | .nullAgainstNull => "comparison between two NULL constants"
  | .orderAgainstNull o => "ordering comparison '" ++ o.symbol ++ "' against NULL"
  | .collectionKey p => "collection '" ++ p ++ "' cannot be a group key"
  | .duplicateMember n => "duplicate projected member '" ++ n ++ "'"
  | .includeAfter p s => "Include of '" ++ p ++ "' after " ++ s
  | .afterAggregate o => o ++ " after an aggregate"
  | .noGroupKeys => "GroupBy without key selectors"
  | .notNavigation p => p ++ " is not navigation property"
  | .noAssociation e p => "navigation '" ++ e ++ "." ++ p ++ "' has no association"

/-- The words for a request that is not provided. -/
def NotProvided.reason : NotProvided → String
  | .overCollections o => o ++ " over a result with included collections"
  | .nestedCollection p => "including collection '" ++ p ++ "' below another collection"

/-- The text of an error. -/
def CompileError.message : CompileError → String
  | .unsupported c => "Unsupported operation: " ++ c.reason
  | .notProvided c => "Not yet implemented: " ++ c.reason
  | .unknownEntity n => "Unknown entity '" ++ n ++ "'"
  | .unknownProperty e p => "Entity '" ++ e ++ "' has no property '" ++ p ++ "'"
  | .unknownMember m => "Member '" ++ m ++ "' is not exposed by the bound object model"
  | .unboundParam n => "Parameter '" ++ n ++ "' is not bound in the current scope"
  | .aliasOutOfScope a => "Table alias '" ++ a ++ "' is not in scope"
  | .arity e g =>
    "Lambda expects " ++ toString e ++ " parameter(s) but declares " ++ toString g
  | .tooDeep l => "Nesting exceeds the configured limit of " ++ toString l

end EntityQuery
