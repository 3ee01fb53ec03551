import NonoCedarPdp.Cedar

/-!
Cedar's schemas, as far as `nono.cedarschema` uses them: entity types with their parents'
types and their attributes, actions with what they apply to and their context. Entities
and requests conform to a schema or they do not; `SchemaSpec` is what the crate is relied
on for.
-/
namespace NonoCedarPdp.Cedar

inductive AttributeType
  | string
  | long
  | set (element : AttributeType)
  deriving DecidableEq, Repr

def AttributeType.admits : AttributeType → RestrictedExpression → Bool
  | .string, .string _ => true
  | .long, .long _ => true
  | .set element, .set elements => elements.all element.admits
  | _, _ => false

structure Attribute where
  name : String
  type : AttributeType
  required : Bool
  deriving DecidableEq, Repr

structure EntityType where
  name : String
  /-- The types its parents are of. -/
  memberOf : List String
  attributes : List Attribute
  deriving DecidableEq, Repr

structure ActionType where
  uid : EntityUid
  principals : List String
  resources : List String
  context : List Attribute
  deriving DecidableEq, Repr

structure SchemaSource where
  entityTypes : List EntityType
  actions : List ActionType
  deriving DecidableEq, Repr

/-! ## Conformance -/

/-- One member for each name, each declared and of its type, and none missing. -/
def Fits (declared : List Attribute)
    (pairs : List (String × RestrictedExpression)) : Prop :=
  (pairs.map Prod.fst).Nodup ∧
    (∀ pair ∈ pairs, ∃ a ∈ declared, a.name = pair.1 ∧ a.type.admits pair.2 = true) ∧
    ∀ a ∈ declared, a.required = true → a.name ∈ pairs.map Prod.fst

instance (declared : List Attribute) (pairs : List (String × RestrictedExpression)) :
    Decidable (Fits declared pairs) :=
  inferInstanceAs (Decidable (_ ∧ _ ∧ _))

def Entity.Conforms (source : SchemaSource) (e : Entity) : Prop :=
  ∃ t ∈ source.entityTypes, t.name = e.uid.typeName ∧ Fits t.attributes e.attrs ∧
    ∀ parent ∈ e.parents, parent.typeName ∈ t.memberOf

instance (source : SchemaSource) (e : Entity) : Decidable (e.Conforms source) :=
  inferInstanceAs (Decidable (∃ t ∈ source.entityTypes, _))

def Entities.Conforms (source : SchemaSource) (entities : List Entity) : Prop :=
  (entities.map Entity.uid).Nodup ∧ ∀ e ∈ entities, e.Conforms source

instance (source : SchemaSource) (entities : List Entity) :
    Decidable (Entities.Conforms source entities) :=
  inferInstanceAs (Decidable (_ ∧ _))

/-- The action applies to the types of the principal and the resource, with that
context. -/
def Request.Conforms (source : SchemaSource) (request : Request) : Prop :=
  ∃ a ∈ source.actions,
    a.uid = request.action ∧ request.principal.typeName ∈ a.principals ∧
    request.resource.typeName ∈ a.resources ∧ Fits a.context request.context.pairs

instance (source : SchemaSource) (request : Request) :
    Decidable (request.Conforms source) :=
  inferInstanceAs (Decidable (∃ a ∈ source.actions, _))

/-- What the crate is relied on for where `schema` is what it makes of `source`: it
accepts what conforms, and outside the schema it asks for distinct names only. -/
structure SchemaSpec {Schema β : Type} (crate : Crate Schema β) (schema : Schema)
    (source : SchemaSource) : Prop where
  entity : ∀ uid attrs, (attrs.map Prod.fst).Nodup → crate.entityError uid attrs = none
  context : ∀ pairs, (pairs.map Prod.fst).Nodup → crate.contextError pairs = none
  entities : ∀ es, Entities.Conforms source es → crate.entitiesError schema es = none
  request : ∀ r, r.Conforms source → crate.requestError schema r = none

end NonoCedarPdp.Cedar
