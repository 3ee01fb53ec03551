import Mathlib.Data.List.Nodup

/-!
The `cedar-policy` crate as the daemon uses it. A constructor returns what it was
given; whether it accepts it is the crate's decision, and so are parsing,
validation and authorization. What is relied on of policies and sets is stated with
the operations. Policy bodies stay abstract.
-/
namespace NonoCedarPdp.Cedar

inductive Effect
  | permit
  | forbid
  deriving DecidableEq, Repr

inductive RestrictedExpression
  | string (value : String)
  | set (elements : List RestrictedExpression)
  | long (value : Int)

structure EntityUid where
  typeName : String
  id : String
  deriving DecidableEq, Repr

structure Entity where
  uid : EntityUid
  attrs : List (String × RestrictedExpression)
  parents : List EntityUid

structure Entities where
  entities : List Entity

structure Context where
  pairs : List (String × RestrictedExpression)

structure Request where
  principal : EntityUid
  action : EntityUid
  resource : EntityUid
  context : Context

structure Policy (β : Type) where
  id : String
  effect : Effect
  annotations : List (String × String)
  body : β

/-- A set of policies, each under an id of its own. -/
structure PolicySet (β : Type) where
  policies : List (Policy β)
  distinct : (policies.map Policy.id).Nodup

inductive Verdict
  | allow
  | deny
  deriving DecidableEq, Repr

structure AuthorizationError where
  policyId : String
  text : String
  deriving DecidableEq, Repr

/-- `reason` and `errors` come in whatever order the crate iterates in. -/
structure Response where
  decision : Verdict
  reason : List String
  errors : List AuthorizationError
  deriving DecidableEq, Repr

namespace PolicySet
variable {β : Type}

def new : PolicySet β := ⟨[], List.nodup_nil⟩

def ids (set : PolicySet β) : List String := set.policies.map Policy.id

@[simp] theorem policies_new : (new : PolicySet β).policies = [] := rfl

theorem eq_of_policies {set set' : PolicySet β} (h : set.policies = set'.policies) :
    set = set' := by
  cases set
  cases set'
  cases h
  rfl

end PolicySet

/-- `Policy::annotation`, `Policy::new_id`, `PolicySet::add` and `num_of_policies`. A set
takes a policy unless its id is taken, with whatever message it then refuses it. -/
structure PolicySets (β : Type) where
  annotation : Policy β → String → Option String
  newId : Policy β → String → Policy β
  add : PolicySet β → Policy β → Except String (PolicySet β)
  numOfPolicies : PolicySet β → Nat
  annotation_eq : ∀ p key, annotation p key = p.annotations.lookup key
  newId_eq : ∀ p id, newId p id = { p with id }
  add_eq_ok_iff : ∀ set p after,
    add set p = .ok after ↔ after.policies = set.policies ++ [p]
  numOfPolicies_eq : ∀ set, numOfPolicies set = set.policies.length

structure Crate (Schema β : Type) extends PolicySets β where
  uidFromStr : String → Except String EntityUid
  entityError : EntityUid → List (String × RestrictedExpression) → Option String
  entitiesError : Schema → List Entity → Option String
  contextError : List (String × RestrictedExpression) → Option String
  requestError : Schema → Request → Option String
  parsePolicies : String → Except String (List (Policy β))
  validationErrors : Schema → PolicySet β → List String
  isAuthorized : Request → PolicySet β → Entities → Response

variable {Schema β : Type} (crate : Crate Schema β)

def accept {α : Type} (error : Option String) (value : α) : Except String α :=
  match error with
  | none => .ok value
  | some e => .error e

def Entity.new (uid : EntityUid) (attrs : List (String × RestrictedExpression))
    (parents : List EntityUid) : Except String Entity :=
  accept (crate.entityError uid attrs) ⟨uid, attrs, parents⟩

def Entities.fromEntities (entities : List Entity) (schema : Schema) :
    Except String Entities :=
  accept (crate.entitiesError schema entities) ⟨entities⟩

def Context.fromPairs (pairs : List (String × RestrictedExpression)) :
    Except String Context :=
  accept (crate.contextError pairs) ⟨pairs⟩

def Request.new (principal action resource : EntityUid) (context : Context)
    (schema : Schema) : Except String Request :=
  accept (crate.requestError schema ⟨principal, action, resource, context⟩)
    ⟨principal, action, resource, context⟩

namespace PolicySets
variable {β : Type}

/-- Refuses an id that is already taken. -/
def addFresh (set : PolicySet β) (p : Policy β) : Except String (PolicySet β) :=
  if taken : p.id ∈ set.ids then
    .error ("duplicate template or policy id `" ++ p.id ++ "`")
  else
    .ok ⟨set.policies ++ [p], by
      rw [List.map_append, List.nodup_append]
      refine ⟨set.distinct, List.nodup_singleton _, ?_⟩
      rintro a ha b hb rfl
      exact taken (List.mem_singleton.mp hb ▸ ha)⟩

theorem addFresh_eq_ok_iff (set : PolicySet β) (p : Policy β) (after : PolicySet β) :
    addFresh set p = .ok after ↔ after.policies = set.policies ++ [p] := by
  rw [addFresh]
  split
  · next taken =>
    refine iff_of_false (by simp) fun h => ?_
    have distinct := after.distinct
    rw [h, List.map_append, List.nodup_append] at distinct
    exact distinct.2.2 _ taken _ List.mem_cons_self rfl
  · constructor
    · intro h
      rw [← Except.ok.inj h]
    · intro h
      rw [Except.ok.injEq]
      exact PolicySet.eq_of_policies h.symm

/-- Policies and sets without a storage of their own. -/
def plain : PolicySets β where
  annotation p key := p.annotations.lookup key
  newId p id := { p with id }
  add := addFresh
  numOfPolicies set := set.policies.length
  annotation_eq _ _ := rfl
  newId_eq _ _ := rfl
  add_eq_ok_iff := addFresh_eq_ok_iff
  numOfPolicies_eq _ := rfl

end PolicySets

end NonoCedarPdp.Cedar
