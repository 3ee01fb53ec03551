import NonoCedarPdp.Cedar
import Mathlib.Data.List.Nodup

/-!
Cedar's authorization rule. A request is allowed when some `permit` is satisfied
and no `forbid` is; a policy whose evaluation errors is skipped and listed; the
reasons are the policies that determine the decision. `authorize` is that rule as
a function, and `AuthorizerSpec` is what the crate's authorizer is relied on for.
-/
namespace NonoCedarPdp.Cedar

inductive Outcome
  | satisfied
  | unsatisfied
  | error (text : String)
  deriving DecidableEq, Repr

/-- What each policy makes of each request. -/
abbrev Semantics (β : Type) := Policy β → Request → Entities → Outcome

section Rule
variable {Schema β : Type} (outcome : Semantics β) (policies : List (Policy β))
  (request : Request) (entities : Entities)

def Satisfied (effect : Effect) (p : Policy β) : Prop :=
  p.effect = effect ∧ outcome p request entities = .satisfied

instance (effect : Effect) :
    DecidablePred (Satisfied outcome request entities (β := β) effect) :=
  fun p => inferInstanceAs
    (Decidable (p.effect = effect ∧ outcome p request entities = .satisfied))

def Errs (p : Policy β) : Prop := ∃ text, outcome p request entities = .error text

def errorOf (p : Policy β) : Option AuthorizationError :=
  match outcome p request entities with
  | .error text => some ⟨p.id, text⟩
  | _ => none

def satisfiedIds (effect : Effect) : List String :=
  (policies.filter fun p => Satisfied outcome request entities effect p).map Policy.id

/-- The policies that determine the decision: the satisfied permits of an allow,
the satisfied forbids of a deny. -/
def determining : List String :=
  if satisfiedIds outcome policies request entities .permit ≠ [] ∧
      satisfiedIds outcome policies request entities .forbid = [] then
    satisfiedIds outcome policies request entities .permit
  else satisfiedIds outcome policies request entities .forbid

def authorize : Response where
  decision :=
    if satisfiedIds outcome policies request entities .permit ≠ [] ∧
        satisfiedIds outcome policies request entities .forbid = [] then .allow
    else .deny
  reason := determining outcome policies request entities
  errors := policies.filterMap (errorOf outcome request entities)

end Rule

section Spec
variable {Schema β : Type}

structure AuthorizerSpec (crate : Crate Schema β) (outcome : Semantics β) : Prop where
  decision_iff : ∀ request set entities,
    (crate.isAuthorized request set entities).decision = .allow ↔
      (∃ p ∈ set.policies, Satisfied outcome request entities .permit p) ∧
        ∀ p ∈ set.policies, ¬ Satisfied outcome request entities .forbid p
  errors_iff : ∀ request set entities id,
    id ∈ (crate.isAuthorized request set entities).errors.map
      AuthorizationError.policyId ↔
      ∃ p ∈ set.policies, p.id = id ∧ Errs outcome request entities p
  reason_perm : ∀ request set entities,
    (crate.isAuthorized request set entities).reason.Perm
      (determining outcome set.policies request entities)

variable {outcome : Semantics β} {policies : List (Policy β)} {request : Request}
  {entities : Entities}

theorem satisfiedIds_eq_nil_iff {effect : Effect} :
    satisfiedIds outcome policies request entities effect = [] ↔
      ∀ p ∈ policies, ¬ Satisfied outcome request entities effect p := by
  simp [satisfiedIds, List.filter_eq_nil_iff]

theorem satisfiedIds_ne_nil_iff {effect : Effect} :
    satisfiedIds outcome policies request entities effect ≠ [] ↔
      ∃ p ∈ policies, Satisfied outcome request entities effect p := by
  rw [Ne, satisfiedIds_eq_nil_iff]
  simp

theorem errorOf_eq_some_iff {p : Policy β} :
    (∃ e, errorOf outcome request entities p = some e) ↔
      Errs outcome request entities p := by
  cases h : outcome p request entities <;> simp [errorOf, Errs, h]

theorem policyId_errorOf {p : Policy β} {e : AuthorizationError}
    (h : errorOf outcome request entities p = some e) : e.policyId = p.id := by
  rw [errorOf] at h
  split at h
  · cases h; rfl
  · cases h

theorem authorize_errors_iff {id : String} :
    id ∈ (authorize outcome policies request entities).errors.map
      AuthorizationError.policyId ↔
      ∃ p ∈ policies, p.id = id ∧ Errs outcome request entities p := by
  simp only [authorize, List.mem_map, List.mem_filterMap]
  constructor
  · intro ⟨e, ⟨p, mem, found⟩, same⟩
    exact ⟨p, mem, (policyId_errorOf found).symm.trans same,
      errorOf_eq_some_iff.mp ⟨e, found⟩⟩
  · intro ⟨p, mem, same, errs⟩
    obtain ⟨e, found⟩ := errorOf_eq_some_iff.mpr errs
    exact ⟨e, ⟨p, mem, found⟩, (policyId_errorOf found).trans same⟩

theorem authorize_decision_iff :
    (authorize outcome policies request entities).decision = .allow ↔
      (∃ p ∈ policies, Satisfied outcome request entities .permit p) ∧
        ∀ p ∈ policies, ¬ Satisfied outcome request entities .forbid p := by
  rw [← satisfiedIds_ne_nil_iff, ← satisfiedIds_eq_nil_iff]
  by_cases h : satisfiedIds outcome policies request entities .permit ≠ [] ∧
      satisfiedIds outcome policies request entities .forbid = []
  · simp [authorize, h]
  · simp [authorize, h]

/-- A crate that authorizes by the rule meets the specification. -/
theorem authorizerSpec_authorize {crate : Crate Schema β}
    (h : crate.isAuthorized = fun request set entities =>
      authorize outcome set.policies request entities) :
        AuthorizerSpec crate outcome where
  decision_iff request set entities := by rw [h]; exact authorize_decision_iff
  errors_iff request set entities id := by rw [h]; exact authorize_errors_iff
  reason_perm request set entities := by rw [h]; rfl

theorem mem_ids_of_determining {id : String}
    (h : id ∈ determining outcome policies request entities) :
    id ∈ policies.map Policy.id := by
  have listed {effect : Effect}
      (mem : id ∈ satisfiedIds outcome policies request entities effect) :
      id ∈ policies.map Policy.id := by
    obtain ⟨p, kept, rfl⟩ := List.mem_map.mp mem
    exact List.mem_map_of_mem (List.mem_filter.mp kept).1
  rw [determining] at h
  split at h
  · exact listed h
  · exact listed h

theorem determining_ne_nil_of_allow
    (permitted : ∃ p ∈ policies, Satisfied outcome request entities .permit p)
    (unopposed : ∀ p ∈ policies, ¬ Satisfied outcome request entities .forbid p) :
    determining outcome policies request entities ≠ [] := by
  have both := And.intro (satisfiedIds_ne_nil_iff.mpr permitted)
    (satisfiedIds_eq_nil_iff.mpr unopposed)
  rw [determining, if_pos both]
  exact both.1

end Spec

/-! ## Policies without conditions -/

/-- Reads `Type::"id"` where the id needs no escape. -/
def readUid (text : String) : Except String EntityUid :=
  let typeName := text.toList.takeWhile (· ≠ '"')
  let id := (text.toList.drop (typeName.length + 1)).takeWhile (· ≠ '"')
  if '\\' ∈ id then .error "unexpected escape"
  else .ok ⟨String.ofList (typeName.take (typeName.length - 2)), String.ofList id⟩

def readLine (ordinal : Nat) (line : List Char) : Except String (Policy Unit) :=
  if line = "permit (principal, action, resource);".toList then
    .ok ⟨"policy" ++ toString ordinal, .permit, [], ()⟩
  else if line = "forbid (principal, action, resource);".toList then
    .ok ⟨"policy" ++ toString ordinal, .forbid, [], ()⟩
  else .error "unexpected token"

def readLines : Nat → List (List Char) → Except String (List (Policy Unit))
  | _, [] => .ok []
  | ordinal, line :: rest =>
      if line = [] then readLines ordinal rest
      else do
        let p ← readLine ordinal line
        let rest ← readLines (ordinal + 1) rest
        pure (p :: rest)

/-- Cedar on policies without scope or conditions, one a line, and schemas that accept
every request. -/
def unconditional : Crate Unit Unit where
  toPolicySets := .plain
  uidFromStr := readUid
  entityError _ _ := none
  entitiesError _ _ := none
  contextError _ := none
  requestError _ _ := none
  parsePolicies text := readLines 0 (text.toList.splitOn '\n')
  validationErrors _ _ := []
  isAuthorized request set entities :=
    authorize (fun _ _ _ => .satisfied) set.policies request entities

end NonoCedarPdp.Cedar
