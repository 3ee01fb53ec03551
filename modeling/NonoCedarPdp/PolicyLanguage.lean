import NonoCedarPdp.Authorizer
import NonoCedarPdp.Lib.Glob

/-!
Cedar's policy language, as far as the shipped policies use it: scopes, `when` and
`unless`, equality, `in`, `like`, `contains` and the connectives, which stop at the first
operand that decides them. Evaluation fails on an operand of the wrong type and on an
entity or attribute that is not there.
-/
namespace NonoCedarPdp.Cedar

inductive Value
  | bool (b : Bool)
  | entity (uid : EntityUid)
  | data (value : RestrictedExpression)

inductive Expr
  | string (text : String)
  | uid (uid : EntityUid)
  | principal
  | action
  | resource
  | attr (e : Expr) (name : String)
  | eq (a b : Expr)
  | isIn (a b : Expr)
  | like (e : Expr) (pattern : Glob.Pattern Char)
  | contains (set element : Expr)
  | and (a b : Expr)
  | or (a b : Expr)
  | not (e : Expr)

/-! ## Values -/

mutual

/-- Sets are equal when each holds the elements of the other. -/
def RestrictedExpression.same : RestrictedExpression → RestrictedExpression → Bool
  | .string a, .string b => decide (a = b)
  | .long a, .long b => decide (a = b)
  | .set as, .set bs =>
      RestrictedExpression.subset as bs && bs.all (RestrictedExpression.memberOf as)
  | _, _ => false

def RestrictedExpression.subset :
    List RestrictedExpression → List RestrictedExpression → Bool
  | [], _ => true
  | a :: as, bs =>
      bs.any (RestrictedExpression.same a) && RestrictedExpression.subset as bs

def RestrictedExpression.memberOf :
    List RestrictedExpression → RestrictedExpression → Bool
  | [], _ => false
  | a :: as, b => RestrictedExpression.same a b || RestrictedExpression.memberOf as b

end

def Value.same : Value → Value → Bool
  | .bool a, .bool b => decide (a = b)
  | .entity a, .entity b => decide (a = b)
  | .data a, .data b => a.same b
  | _, _ => false

/-! ## The entity hierarchy -/

namespace Entities

def find (entities : Entities) (uid : EntityUid) : Option Entity :=
  entities.entities.find? fun e => e.uid = uid

def parentsOf (entities : Entities) (uid : EntityUid) : List EntityUid :=
  ((entities.find uid).map Entity.parents).getD []

/-- Descendant or self, over at most `depth` parents. -/
def within (entities : Entities) : Nat → EntityUid → EntityUid → Bool
  | 0, a, b => decide (a = b)
  | depth + 1, a, b =>
      decide (a = b) || (entities.parentsOf a).any fun parent =>
        entities.within depth parent b

/-- A chain of parents that does not repeat has no more members than the slice. -/
def isIn (entities : Entities) (a b : EntityUid) : Bool :=
  entities.within entities.entities.length a b

end Entities

/-! ## Evaluation -/

def typeError : Except String Value := .error "type error"

def evaluate (request : Request) (entities : Entities) : Expr → Except String Value
  | .string text => .ok (.data (.string text))
  | .uid uid => .ok (.entity uid)
  | .principal => .ok (.entity request.principal)
  | .action => .ok (.entity request.action)
  | .resource => .ok (.entity request.resource)
  | .attr e name => do
      match ← evaluate request entities e with
      | .entity uid =>
          match (entities.find uid).map fun found => found.attrs.lookup name with
          | some (some value) => .ok (.data value)
          | some none => .error "attribute not found"
          | none => .error "entity does not exist"
      | _ => typeError
  | .eq a b => do
      let va ← evaluate request entities a
      let vb ← evaluate request entities b
      .ok (.bool (va.same vb))
  | .isIn a b => do
      match ← evaluate request entities a, ← evaluate request entities b with
      | .entity ua, .entity ub => .ok (.bool (entities.isIn ua ub))
      | _, _ => typeError
  | .like e pattern => do
      match ← evaluate request entities e with
      | .data (.string text) => .ok (.bool (Glob.accepts pattern text.toList))
      | _ => typeError
  | .contains set element => do
      match ← evaluate request entities set, ← evaluate request entities element with
      | .data (.set elements), .data value =>
          .ok (.bool (RestrictedExpression.memberOf elements value))
      | _, _ => typeError
  | .and a b => do
      match ← evaluate request entities a with
      | .bool false => .ok (.bool false)
      | .bool true =>
          match ← evaluate request entities b with
          | .bool v => .ok (.bool v)
          | _ => typeError
      | _ => typeError
  | .or a b => do
      match ← evaluate request entities a with
      | .bool true => .ok (.bool true)
      | .bool false =>
          match ← evaluate request entities b with
          | .bool v => .ok (.bool v)
          | _ => typeError
      | _ => typeError
  | .not e => do
      match ← evaluate request entities e with
      | .bool v => .ok (.bool !v)
      | _ => typeError

/-! ## Policies -/

inductive Scope
  | any
  | eq (uid : EntityUid)
  | isIn (uid : EntityUid)
  deriving DecidableEq, Repr

/-- `when` the expression holds, or `unless` it does. -/
structure Condition where
  negated : Bool
  expr : Expr

/-- A policy but for its effect and annotations. -/
structure Clauses where
  principal : Scope
  action : Scope
  resource : Scope
  conditions : List Condition

def Scope.admits (scope : Scope) (entities : Entities) (uid : EntityUid) : Bool :=
  match scope with
  | .any => true
  | .eq other => decide (uid = other)
  | .isIn other => entities.isIn uid other

def Condition.evaluate (c : Condition) (request : Request) (entities : Entities) :
    Except String Value :=
  Cedar.evaluate request entities (if c.negated then .not c.expr else c.expr)

/-- The first condition that does not hold decides. -/
def conditionsOutcome (request : Request) (entities : Entities) : List Condition → Outcome
  | [] => .satisfied
  | c :: rest =>
      match c.evaluate request entities with
      | .ok (.bool true) => conditionsOutcome request entities rest
      | .ok (.bool false) => .unsatisfied
      | .ok _ => .error "type error"
      | .error e => .error e

def Clauses.outcome (c : Clauses) (request : Request) (entities : Entities) : Outcome :=
  if c.principal.admits entities request.principal ∧
      c.action.admits entities request.action ∧
      c.resource.admits entities request.resource then
    conditionsOutcome request entities c.conditions
  else .unsatisfied

/-- What the crate is relied on for where a policy is one of this language: `denote` is
the body it parses the clauses to. -/
structure LanguageSpec {Schema β : Type} (crate : Crate Schema β) (outcome : Semantics β)
    (denote : Clauses → β) : Prop where
  authorizer : AuthorizerSpec crate outcome
  clauses : ∀ p c, p.body = denote c → ∀ request entities,
    outcome p request entities = c.outcome request entities

/-! ## Expressions that come to a truth value -/

section Truth
variable {request : Request} {entities : Entities} {a b e : Expr} {x y : Bool}

def Holds (request : Request) (entities : Entities) (e : Expr) (x : Bool) : Prop :=
  evaluate request entities e = .ok (.bool x)

theorem Holds.and (ha : Holds request entities a x) (hb : Holds request entities b y) :
    Holds request entities (.and a b) (x && y) := by
  rw [Holds, evaluate, ha]
  cases x with
  | false => rfl
  | true =>
      simp only [Bind.bind, Except.bind, Bool.true_and]
      rw [hb]

theorem Holds.or (ha : Holds request entities a x) (hb : Holds request entities b y) :
    Holds request entities (.or a b) (x || y) := by
  rw [Holds, evaluate, ha]
  cases x with
  | true => rfl
  | false =>
      simp only [Bind.bind, Except.bind, Bool.false_or]
      rw [hb]

theorem Holds.not (he : Holds request entities e x) :
    Holds request entities (.not e) (!x) := by
  rw [Holds, evaluate, he]
  rfl

/-- A disjunction of several, associated to the left as it is parsed. -/
def anyOf (first : Expr) (rest : List Expr) : Expr := rest.foldl .or first

theorem Holds.unique {z : Bool} (hx : Holds request entities e x)
    (hz : Holds request entities e z) : x = z := by
  cases hx.symm.trans hz
  rfl

theorem Holds.true_iff (hx : Holds request entities e x) :
    Holds request entities e true ↔ x = true := by
  constructor
  · exact fun yes => hx.unique yes
  · exact fun yes => yes ▸ hx

/-- A disjunction comes to a truth value when its parts do, and holds when one of them
holds. -/
theorem holds_anyOf {rest : List Expr} (first : Holds request entities e x)
    (each : ∀ r ∈ rest, ∃ y, Holds request entities r y) :
    ∃ z, Holds request entities (anyOf e rest) z ∧
      (z = true ↔ x = true ∨ ∃ r ∈ rest, Holds request entities r true) := by
  induction rest generalizing e x with
  | nil => exact ⟨x, first, by simp⟩
  | cons r rest ih =>
      obtain ⟨y, next⟩ := each r List.mem_cons_self
      obtain ⟨z, whole, iff⟩ :=
        ih (first.or next) fun r mem => each r (List.mem_cons_of_mem _ mem)
      refine ⟨z, whole, iff.trans ?_⟩
      rw [Bool.or_eq_true, ← next.true_iff, List.exists_mem_cons_iff, or_assoc]

theorem conditionsOutcome_of_holds {rest : List Condition} {negated : Bool}
    (he : Holds request entities e x) :
    conditionsOutcome request entities (⟨negated, e⟩ :: rest) =
      if x = negated then .unsatisfied else conditionsOutcome request entities rest := by
  have judged : Condition.evaluate ⟨negated, e⟩ request entities =
      .ok (.bool (x != negated)) := by
    cases negated with
    | false => exact (Bool.bne_false x).symm ▸ he
    | true => exact (Bool.bne_true x).symm ▸ he.not
  rw [conditionsOutcome, judged]
  cases x <;> cases negated <;> rfl

/-- A policy of one condition is satisfied when its scope admits the request and the
condition comes out as it asks, and does not fail. -/
theorem Clauses.outcome_of_holds {c : Clauses} {negated : Bool}
    (single : c.conditions = [⟨negated, e⟩]) (he : Holds request entities e x) :
      c.outcome request entities =
      if (c.principal.admits entities request.principal ∧
        c.action.admits entities request.action ∧
        c.resource.admits entities request.resource) ∧ x ≠ negated then .satisfied
      else .unsatisfied := by
  rw [outcome, single, conditionsOutcome_of_holds he]
  by_cases admitted : c.principal.admits entities request.principal ∧
      c.action.admits entities request.action ∧
      c.resource.admits entities request.resource
  · by_cases same : x = negated <;> simp [admitted, same, conditionsOutcome]
  · simp [admitted]

theorem Clauses.outcome_satisfied_iff {c : Clauses} {negated : Bool}
    (single : c.conditions = [⟨negated, e⟩]) (he : Holds request entities e x) :
      c.outcome request entities = .satisfied ↔
      (c.principal.admits entities request.principal ∧
        c.action.admits entities request.action ∧
        c.resource.admits entities request.resource) ∧ x ≠ negated := by
  rw [outcome_of_holds single he]
  constructor
  · intro satisfied
    by_contra refused
    rw [if_neg refused] at satisfied
    cases satisfied
  · exact fun admitted => if_pos admitted

theorem Clauses.outcome_ne_error {c : Clauses} {negated : Bool}
    (single : c.conditions = [⟨negated, e⟩]) (he : Holds request entities e x)
    (text : String) : c.outcome request entities ≠ .error text := by
  rw [outcome_of_holds single he]
  split <;> simp

theorem Clauses.admits_of_satisfied {c : Clauses}
    (h : c.outcome request entities = .satisfied) :
    c.principal.admits entities request.principal ∧
    c.action.admits entities request.action ∧
      c.resource.admits entities request.resource := by
  rw [outcome] at h
  split at h
  · assumption
  · cases h

end Truth

end NonoCedarPdp.Cedar
