import ContentTypes.Name

/-!
# Conflicts and errors

A `Conflict` says which two item definitions cannot stand in one effective type and why. An `Error`
is the cause of a refused request, with the names involved. `Conflict.message` and `Error.message`
give the wording, and nothing else depends on it.
-/

namespace ContentTypes

/-- Two definitions that exclude each other. `declaring` is the type of the definition that was to be
added, `existing` that of the one already there. -/
inductive Conflict where
  /-- The definitions share a name and one of them is auto-created. -/
  | autoCreated (name declaring existing : Name)
  /-- Two properties share name, type and multiplicity. -/
  | property (name declaring existing : Name)
  /-- Two child nodes share a name. -/
  | childNode (name declaring existing : Name)
  /-- Two residual properties agree in type, multiplicity and on-parent-version action. -/
  | residualProperty (declaring existing : Name)
  /-- Two residual child nodes agree in required and default types. -/
  | residualChildNode (declaring existing : Name)
deriving DecidableEq

/-- An argument that no store could answer. -/
inductive BadArgument where
  /-- A declaration has the empty name. -/
  | unnamedDeclaration
  /-- An item definition of `declaration` names another declaring type. -/
  | foreignItem (item declaration declaring : Name)
  /-- No name was requested. -/
  | noNames
  /-- A requested name is empty. -/
  | emptyName
  /-- A refusal that was stated elsewhere. -/
  | stated (text : String)
deriving DecidableEq

/-- Why a request was refused. -/
inductive Error where
  | badArgument (cause : BadArgument)
  | noSuchType (name : Name)
  | conflict (c : Conflict)
  /-- The item to add is read-only. -/
  | protectedItem (name : Name)
  /-- The item to add is created by the repository alone. -/
  | autoCreatedItem (name : Name)
  | mandatoryRemoval (name : Name)
  | protectedRemoval (name : Name)
  /-- No child node definition fits. -/
  | noMatchingDefinition (name : Name)
  | mixinAsPrimaryType (name : Name)
  /-- Looking up the child failed on a type that the effective type refers to. -/
  | inconsistentType (name : Name) (source : Error)
  | inheritanceCycle (name : Name)
  | inheritanceTooDeep (name : Name)
deriving DecidableEq

/-- The wording of a conflict between two definitions of one name. -/
def Conflict.namedMessage (kind reason : String) (name declaring existing : Name) : String :=
  s!"the {kind} for '{name}' in node type '{declaring}' conflicts with the one of node type " ++
    s!"'{existing}': {reason}"

/-- The wording of a conflict between two residual definitions. -/
def Conflict.residualMessage (kind reason : String) (declaring existing : Name) : String :=
  s!"a {kind} in node type '{declaring}' conflicts with node type '{existing}': {reason}"

def Conflict.message : Conflict → String
  | .autoCreated name declaring existing =>
    namedMessage "item definition" "name collision with auto-create definition"
      name declaring existing
  | .property name declaring existing =>
    namedMessage "property definition"
      "ambiguous property definition, they must differ in required type or cardinality"
      name declaring existing
  | .childNode name declaring existing =>
    namedMessage "child node definition" "ambiguous child node definition, name must differ"
      name declaring existing
  | .residualProperty declaring existing =>
    residualMessage "property definition" "ambiguous residual property definition" declaring existing
  | .residualChildNode declaring existing =>
    residualMessage "child node definition" "ambiguous residual child node definition"
      declaring existing

def BadArgument.message : BadArgument → String
  | .unnamedDeclaration => "node type declaration without a name"
  | .foreignItem item declaration declaring =>
    s!"item definition '{item}' of node type '{declaration}' claims declaring type '{declaring}'"
  | .noNames => "at least one node type name is required"
  | .emptyName => "node type names must not be empty"
  | .stated text => text

/-- Marks a text as that of a violated constraint. -/
def Error.violation (text : String) : String := s!"constraint violation: {text}"

/-- The wording of an error. All but bad arguments and unknown types violate a constraint. -/
def Error.message : Error → String
  | .badArgument cause => s!"invalid argument: {cause.message}"
  | .noSuchType name => s!"no such node type: '{name}'"
  | .conflict c => violation c.message
  | .protectedItem name => violation s!"'{name}' is protected"
  | .autoCreatedItem name => violation s!"'{name}' is auto-created and can not be manually added"
  | .mandatoryRemoval name => violation s!"can't remove mandatory item '{name}'"
  | .protectedRemoval name => violation s!"can't remove protected item '{name}'"
  | .noMatchingDefinition name =>
    violation s!"no matching child node definition found for '{name}'"
  | .mixinAsPrimaryType name =>
    violation s!"'{name}' is a mixin and can not be used as primary node type"
  | .inconsistentType name _ =>
    violation s!"internal error: inconsistent node type while adding '{name}'"
  | .inheritanceCycle name => violation s!"node type '{name}' inherits from itself"
  | .inheritanceTooDeep name => violation s!"supertype chain of node type '{name}' is too deep"

end ContentTypes
