import NonoCedarPdp.ArgvTailLint
import NonoCedarPdp.GitPack

/-!
The lints over policies of the language of the pack: what the policies mean is what their
JSON form means, so what the lints promise of the JSON holds of the decisions. The shipped
policies draw no lint.
-/
namespace NonoCedarPdp.Cedar

/-! ## The JSON form of the language -/

def Expr.toEst : Expr → Est.Expr
  | .string text => .value (.string text)
  | .uid id => .value (.entity id)
  | .principal => .var .principal
  | .action => .var .action
  | .resource => .var .resource
  | .attr e name => .getAttr e.toEst name
  | .eq a b => .binary .eq a.toEst b.toEst
  | .isIn a b => .binary .isIn a.toEst b.toEst
  | .like e pattern => .like e.toEst pattern
  | .contains set element => .binary .contains set.toEst element.toEst
  | .and a b => .binary .and a.toEst b.toEst
  | .or a b => .binary .or a.toEst b.toEst
  | .not e => .unary .not e.toEst

def Scope.toEst : Scope → Est.Scope
  | .any => .all
  | .eq uid => .eq uid
  | .isIn uid => .isIn uid

def Condition.toEst (c : Condition) : Est.Condition := ⟨c.negated, c.expr.toEst⟩

def Policy.toEst (p : Policy Clauses) : Est.Policy where
  effect := p.effect
  principal := p.body.principal.toEst
  action := p.body.action.toEst
  resource := p.body.resource.toEst
  conditions := p.body.conditions.map Condition.toEst
  annotations := p.annotations.map fun (key, text) => (key, some text)

/-! ## Values and requests -/

/-- A value of the language; a set is told from the others by its elements. -/
abbrev EstValue := Est.Value (List RestrictedExpression)

def RestrictedExpression.toEst : RestrictedExpression → EstValue
  | .string text => .string text
  | .long n => .long n
  | .set elements => .other elements

def Value.toEst : Value → EstValue
  | .bool b => .bool b
  | .entity uid => .entity uid
  | .data value => value.toEst

def Value.ofEst : EstValue → Value
  | .bool b => .bool b
  | .long n => .data (.long n)
  | .string text => .data (.string text)
  | .entity uid => .entity uid
  | .other elements => .data (.set elements)

@[simp] theorem Value.ofEst_toEst (v : Value) : ofEst v.toEst = v := by
  cases v with
  | data value => cases value <;> rfl
  | _ => rfl

theorem Value.same_string_iff {text : String} {v : Value} :
    (Value.data (.string text)).same v = true ↔ v = .data (.string text) := by
  cases v with
  | data value => cases value <;> simp [Value.same, RestrictedExpression.same, eq_comm]
  | _ => simp [Value.same]

theorem Value.string_same_iff {text : String} {v : Value} :
    v.same (.data (.string text)) = true ↔ v = .data (.string text) := by
  cases v with
  | data value => cases value <;> simp [Value.same, RestrictedExpression.same]
  | _ => simp [Value.same]

/-- What the operators of the language make of values; it has no others. -/
def estOperators (entities : Entities) : Est.Operators (List RestrictedExpression) where
  equal a b := (Value.ofEst a).same (Value.ofEst b)
  equal_string text v := by
    rw [show Value.ofEst (.string text) = .data (.string text) from rfl,
      Value.same_string_iff]
    cases v <;> simp [Value.ofEst]
  string_equal v text := by
    rw [show Value.ofEst (.string text) = .data (.string text) from rfl,
      Value.string_same_iff]
    cases v <;> simp [Value.ofEst]
  unary _ _ := Est.typeError
  binary op a b :=
    match op, Value.ofEst a, Value.ofEst b with
    | .isIn, .entity ua, .entity ub => .ok (.bool (entities.isIn ua ub))
    | .contains, .data (.set elements), .data value =>
        .ok (.bool (RestrictedExpression.memberOf elements value))
    | _, _, _ => Est.typeError
  isType _ _ := Est.typeError
  field _ _ := Est.typeError
  hasField _ _ := Est.typeError
  set _ := .other []
  record _ := .other []
  call _ _ := Est.typeError

def Entity.estAttrs (e : Entity) : List (String × EstValue) :=
  e.attrs.map fun (name, value) => (name, value.toEst)

/-- A request and its entities, whatever the context comes to. An `argv_tail` among the
other attributes stands behind the one that is asked for. -/
def estEnv (context : EstValue) (request : Request) (entities : Entities) :
    Est.Env (List RestrictedExpression) where
  operators := estOperators entities
  principal := request.principal
  action := request.action
  resource := request.resource
  context
  others := ((entities.find request.resource).map Entity.estAttrs).getD []
  attrs uid := (entities.find uid).map Entity.estAttrs

/-- The request is about a resource with that `argv_tail`. -/
def Tail (request : Request) (entities : Entities) (tail : String) : Prop :=
  ∃ found, entities.find request.resource = some found ∧
    found.attrs.lookup "argv_tail" = some (.string tail)

section Simulation
variable {context : EstValue} {request : Request} {entities : Entities} {tail : String}

theorem Entity.lookup_estAttrs (e : Entity) (name : String) :
    e.estAttrs.lookup name = (e.attrs.lookup name).map RestrictedExpression.toEst := by
  rw [estAttrs]
  induction e.attrs with
  | nil => rfl
  | cons field rest ih =>
      rw [List.map_cons, List.lookup_cons, List.lookup_cons, ih]
      split <;> rfl

/-- Every entity has the attributes it had. -/
theorem lookup_attrsOf (asked : Tail request entities tail) (uid : EntityUid)
    (name : String) :
    ((estEnv context request entities).attrsOf tail uid).map (List.lookup name) =
      (entities.find uid).map fun found =>
        (found.attrs.lookup name).map RestrictedExpression.toEst := by
  have others : ((estEnv context request entities).attrs uid).map (List.lookup name) =
      (entities.find uid).map fun found =>
        (found.attrs.lookup name).map RestrictedExpression.toEst := by
    rw [estEnv, Option.map_map]
    exact Option.map_congr fun found _ => found.lookup_estAttrs name
  rw [Est.Env.attrsOf]
  split
  · next same =>
    obtain ⟨found, there, isTail⟩ := asked
    obtain rfl : uid = request.resource := same
    simp only [estEnv, there, Option.map_some, Option.getD_some, List.lookup_cons]
    split
    · next isName =>
      rw [eq_of_beq isName, isTail]
      rfl
    · rw [found.lookup_estAttrs]
  · exact others

theorem getAttr_toEst (asked : Tail request entities tail) (v : Value) (name : String) :
    (estEnv context request entities).getAttr tail v.toEst name =
      (match v with
        | .entity uid =>
            match (entities.find uid).map fun found => found.attrs.lookup name with
            | some (some value) => .ok (.data value)
            | some none => .error "attribute not found"
            | none => .error "entity does not exist"
        | _ => typeError : Except String Value).map Value.toEst := by
  cases v with
  | bool b => rfl
  | data value =>
      cases value with
      | set elements => rfl
      | string text => rfl
      | long n => rfl
  | entity uid =>
      have looked := @lookup_attrsOf context request entities tail asked uid name
      simp only [Value.toEst, Est.Env.getAttr]
      cases attrs : (estEnv context request entities).attrsOf tail uid with
      | none =>
          cases there : entities.find uid with
          | none => rfl
          | some found => simp [attrs, there] at looked
      | some fields =>
          cases there : entities.find uid with
          | none => simp [attrs, there] at looked
          | some found =>
              simp only [attrs, there, Option.map_some, Option.some.injEq] at looked
              simp only [looked, Option.map_some]
              cases found.attrs.lookup name <;> rfl

theorem asBool_toEst (v : Value) : v.toEst.asBool =
    match v with
    | .bool b => .ok b
    | _ => .error "type error" := by
  cases v with
  | data value => cases value <;> rfl
  | _ => rfl

/-- Evaluation in sequence: where what follows agrees on every value, so does the
whole. -/
theorem bind_toEst {r : Except String Value} {f : Value → Except String Value}
    {g : EstValue → Except String EstValue}
    (agree : ∀ v, g v.toEst = (f v).map Value.toEst) :
    (r.map Value.toEst >>= g) = (r >>= f).map Value.toEst := by
  cases r with
  | error text => rfl
  | ok v => exact agree v

/-- The second operand of a connective has to come to a truth value. -/
theorem operand_toEst (r : Except String Value) :
    (do .ok (.bool (← (← r.map Value.toEst).asBool)) : Except String EstValue) =
      (do
        match ← r with
        | .bool v => .ok (.bool v)
        | _ => typeError : Except String Value).map Value.toEst := by
  apply bind_toEst
  intro v
  rw [asBool_toEst]
  cases v <;> rfl

/-- An expression comes to what its JSON form comes to. -/
theorem evaluate_toEst (asked : Tail request entities tail) (e : Expr) :
    Est.evaluate (estEnv context request entities) tail e.toEst =
      (evaluate request entities e).map Value.toEst := by
  induction e with
  | string | uid | principal | action | resource => rfl
  | attr e name ih =>
      rw [Expr.toEst, Est.evaluate, ih, evaluate]
      exact bind_toEst fun v => getAttr_toEst asked v name
  | eq a b iha ihb =>
      rw [Expr.toEst, Est.evaluate, iha, ihb, evaluate]
      refine bind_toEst fun va => bind_toEst fun vb => ?_
      simp only [estEnv, estOperators, Value.ofEst_toEst]
      rfl
  | isIn a b iha ihb =>
      rw [Expr.toEst, Est.evaluate.eq_def]
      simp only [iha, ihb, evaluate]
      refine bind_toEst fun va => bind_toEst fun vb => ?_
      simp only [estEnv, estOperators, Value.ofEst_toEst]
      cases va <;> cases vb <;> rfl
  | like e pattern ih =>
      rw [Expr.toEst, Est.evaluate, ih, evaluate]
      refine bind_toEst fun v => ?_
      cases v with
      | data value => cases value <;> rfl
      | bool | entity => rfl
  | contains set element ihs ihe =>
      rw [Expr.toEst, Est.evaluate.eq_def]
      simp only [ihs, ihe, evaluate]
      refine bind_toEst fun vs => bind_toEst fun ve => ?_
      simp only [estEnv, estOperators, Value.ofEst_toEst]
      cases vs with
      | data value => cases value <;> cases ve <;> rfl
      | bool | entity => cases ve <;> rfl
  | and a b iha ihb =>
      rw [Expr.toEst, Est.evaluate, iha, ihb, evaluate]
      refine bind_toEst fun va => ?_
      cases va with
      | bool x =>
          cases x with
          | false => rfl
          | true => exact operand_toEst (evaluate request entities b)
      | data value => cases value <;> rfl
      | entity => rfl
  | or a b iha ihb =>
      rw [Expr.toEst, Est.evaluate, iha, ihb, evaluate]
      refine bind_toEst fun va => ?_
      cases va with
      | bool x =>
          cases x with
          | true => rfl
          | false => exact operand_toEst (evaluate request entities b)
      | data value => cases value <;> rfl
      | entity => rfl
  | not e ih =>
      rw [Expr.toEst, Est.evaluate, ih, evaluate]
      refine bind_toEst fun v => ?_
      rw [asBool_toEst]
      cases v <;> rfl

theorem map_eq_true_iff {r : Except String Value} :
    r.map Value.toEst = .ok (.bool true) ↔ r = .ok (.bool true) := by
  cases r with
  | error text => simp [Except.map]
  | ok v =>
      cases v with
      | data value =>
          cases value <;> simp [Except.map, Value.toEst, RestrictedExpression.toEst]
      | _ => simp [Except.map, Value.toEst]

theorem Scope.expr_toEst (scope : Scope) {v : Est.Var} {id : EntityUid}
    (var : (estEnv context request entities).var v = .entity id) :
    Est.evaluate (estEnv context request entities) tail (scope.toEst.expr v) =
      .ok (.bool true) ↔
      scope.admits entities id = true := by
  cases scope with
  | any => simp [toEst, Est.Scope.expr, Est.evaluate, Est.Literal.value, admits]
  | eq other =>
      rw [toEst, Est.Scope.expr, Est.evaluate, Est.evaluate, Est.evaluate, var]
      simp [Bind.bind, Except.bind, Est.Literal.value, estEnv, estOperators,
        Value.ofEst, Value.same, admits]
  | isIn other =>
      rw [toEst, Est.Scope.expr, Est.evaluate.eq_def]
      simp only [Est.evaluate, var]
      simp [Bind.bind, Except.bind, Est.Literal.value, estEnv, estOperators,
        Value.ofEst, admits]

theorem Condition.expr_toEst (asked : Tail request entities tail) (c : Condition) :
    Est.evaluate (estEnv context request entities) tail c.toEst.expr = .ok (.bool true) ↔
      c.evaluate request entities = .ok (.bool true) := by
  have isExpr : c.toEst.expr = (if c.negated then Expr.not c.expr else c.expr).toEst := by
    cases negated : c.negated <;> simp [toEst, Est.Condition.expr, negated, Expr.toEst]
  rw [isExpr, evaluate_toEst asked, map_eq_true_iff, Condition.evaluate]

theorem conditionsOutcome_satisfied_iff {conditions : List Condition} :
    conditionsOutcome request entities conditions = .satisfied ↔
      ∀ c ∈ conditions, c.evaluate request entities = .ok (.bool true) := by
  induction conditions with
  | nil => simp [conditionsOutcome]
  | cons c rest ih =>
      rw [conditionsOutcome, List.forall_mem_cons, ← ih]
      split
      · next holds => simp [holds]
      · next fails => simp [fails]
      · next v notTrue notFalse fails => simpa [fails] using fun same => absurd same notTrue
      · next text fails => simp [fails]

/-- A policy is satisfied where its JSON form is. -/
theorem satisfied_toEst_iff (asked : Tail request entities tail) (p : Policy Clauses) :
    p.toEst.Satisfied (estEnv context request entities) tail ↔
      p.body.outcome request entities = .satisfied := by
  have scopes : (p.body.principal.admits entities request.principal ∧
      p.body.action.admits entities request.action ∧
      p.body.resource.admits entities request.resource) ↔ ∀ e ∈ p.toEst.scopes,
        Est.evaluate (estEnv context request entities) tail e = .ok (.bool true) := by
    simp only [Est.Policy.scopes, List.forall_mem_cons, Policy.toEst]
    rw [Scope.expr_toEst _ rfl, Scope.expr_toEst _ rfl, Scope.expr_toEst _ rfl]
    simp [estEnv]
  have conditions : conditionsOutcome request entities p.body.conditions = .satisfied ↔
      ∀ e ∈ p.toEst.conditions.map Est.Condition.expr,
        Est.evaluate (estEnv context request entities) tail e = .ok (.bool true) := by
    rw [conditionsOutcome_satisfied_iff, Policy.toEst, List.map_map, List.forall_mem_map]
    exact forall₂_congr fun c _ => (c.expr_toEst asked).symm
  rw [Est.Policy.Satisfied, Est.Policy.exprs, List.forall_mem_append,
    ← scopes, ← conditions, Clauses.outcome]
  split
  · next admitted => simp [admitted]
  · next refused => simp [refused]

end Simulation

/-! ## Policies that draw no lint -/

/-- A permit whose tests on `argv_tail` are pinned and stand in positive places is
satisfied by what it names, or whatever the tail is. -/
theorem named_or_any_of_satisfied {context : EstValue} {request : Request}
    {entities : Entities} {tail : String} {p : Policy Clauses}
    (asked : Tail request entities tail) (unlinted : p.toEst.Unlinted)
    (positive : ∀ c ∈ p.toEst.conditions,
      Est.Positive (estEnv context request entities) c.expr)
    (satisfied : p.body.outcome request entities = .satisfied) :
    p.toEst.Names tail ∨ ∀ other,
      p.toEst.Satisfied (estEnv context request entities) other := by
  obtain any | named := (unlinted.names_iff _).mpr (unlinted.widens_of_positive positive)
  · exact .inr any
  · exact .inl (named tail ((satisfied_toEst_iff asked p).mpr satisfied))

def clausesJson (p : Policy Clauses) : Except String Est.Json := .ok p.toEst.toJson

theorem lintPolicy_eq_nil_iff {p : Policy Clauses} : lintPolicy clausesJson p = [] ↔
    (p.effect = .permit → ∀ c ∈ p.body.conditions, c.expr.toEst.unpinned = 0) ∧
      ∀ c ∈ p.body.conditions, c.expr.toEst.pathLiterals = [] := by
  have reads : unpinnedArgvTailReads p.toEst.toJson = 0 ↔
      ∀ c ∈ p.body.conditions, c.expr.toEst.unpinned = 0 := by
    rw [Est.unpinnedArgvTailReads_toJson, Est.foldr_add_eq_zero_iff, Policy.toEst,
      List.forall_mem_map]
    rfl
  have literals : argsMembershipPathLiterals p.toEst.toJson = [] ↔
      ∀ c ∈ p.body.conditions, c.expr.toEst.pathLiterals = [] := by
    rw [Est.argsMembershipPathLiterals_toJson, List.flatMap_eq_nil_iff, Policy.toEst,
      List.forall_mem_map]
    rfl
  rw [← reads, ← literals, lintPolicy, clausesJson]
  simp [Nat.pos_iff_ne_zero]

theorem shipped_draws_no_lint : lintArgMatching clausesJson shippedSet = [] := by
  rw [lintArgMatching, List.flatMap_eq_nil_iff]
  intro p mem
  rw [lintPolicy_eq_nil_iff]
  revert p
  decide

/-! ## The shipped permit -/

section ShippedPermit
open Est
variable {X : Type} {env : Env X} {tail : String}

/-- A test of the tail for a literal or a pattern. -/
inductive TailTest : Cedar.Expr → Prop
  | eq (text : String) : TailTest (.eq argvTailText (.string text))
  | like (pattern : Glob.Pattern Char) : TailTest (.like argvTailText pattern)

theorem TailTest.positive {e : Cedar.Expr} (test : TailTest e) (env : Env X)
    (tail : String) :
    Positive env e.toEst ∧ unmatched env tail e.toEst = .ok (.bool false) := by
  cases test with
  | eq text => exact ⟨.compared text, rfl⟩
  | like pattern => exact ⟨.like pattern, rfl⟩

theorem TailTest.combination {e : Cedar.Expr} (test : TailTest e) :
    Combination e.toEst := by
  cases test with
  | eq text => exact .compared (.inl rfl) (tailFree_value _)
  | like pattern => exact .like pattern

theorem combination_anyOf {first : Cedar.Expr} {rest : List Cedar.Expr}
    (head : Combination first.toEst) (tests : ∀ e ∈ rest, TailTest e) :
      Combination (anyOf first rest).toEst := by
  induction rest generalizing first with
  | nil => exact head
  | cons e rest ih =>
      obtain ⟨test, tests⟩ := List.forall_mem_cons.mp tests
      exact ih (.or head test.combination) tests

theorem positive_anyOf {first : Cedar.Expr} {rest : List Cedar.Expr}
    (head : Positive env first.toEst ∧ unmatched env tail first.toEst = .ok (.bool false))
    (tests : ∀ e ∈ rest, TailTest e) : Positive env (anyOf first rest).toEst ∧
      unmatched env tail (anyOf first rest).toEst = .ok (.bool false) := by
  induction rest generalizing first with
  | nil => exact head
  | cons e rest ih =>
      obtain ⟨test, tests⟩ := List.forall_mem_cons.mp tests
      obtain ⟨positive, refused⟩ := test.positive env tail
      refine ih ⟨.or head.1 positive, ?_⟩ tests
      rw [Expr.toEst, unmatched, head.2, refused]
      rfl

theorem tailTest_otherReadOnlyTails : ∀ e ∈ otherReadOnlyTails, TailTest e := by
  simp only [otherReadOnlyTails, List.forall_mem_cons, List.not_mem_nil, false_implies,
    implies_true, and_true]
  exact ⟨.like _, .eq _, .like _, .eq _, .like _, .eq _, .like _⟩

theorem tailFree_commandName (name : String) :
    TailFree (Cedar.Expr.eq commandName (.string name)).toEst := by
  have read : TailFree commandName.toEst := by
    refine tailFree_iff.mpr ⟨rfl, fun child mem => ?_⟩
    obtain rfl := List.mem_singleton.mp mem
    exact tailFree_var .resource
  exact tailFree_pair rfl rfl read (tailFree_value _)

theorem gitReadOnly_unlinted : (gitReadOnlyPolicy id).toEst.Unlinted := by
  have shipped : gitReadOnlyPolicy id ∈ shippedSet.policies := by
    simp [shippedSet, shippedPolicies]
  have json : clausesJson (gitReadOnlyPolicy id) =
      .ok (gitReadOnlyPolicy id).toEst.toJson := rfl
  refine unlinted_of_quiet shipped json rfl (fun c mem => ?_) (fun lint drawn => ?_)
  · obtain rfl := List.mem_singleton.mp mem
    exact .and (.other (tailFree_commandName "git"))
      (combination_anyOf (TailTest.eq "status").combination tailTest_otherReadOnlyTails)
  · rw [shipped_draws_no_lint] at drawn
    cases drawn

variable {q : PolicyQuery} {request : Request} {entities : Entities}
  {command rule : String} {args : List String} {pid : UInt32}

theorem tail_of_built (built : BuiltFor q request entities)
    (target : q.target = .command command args rule pid) :
      Tail request entities (argvTail args) := by
  refine ⟨⟨(uidsOf q).resource, resourceAttrs q, []⟩, built.find_resource, ?_⟩
  rw [resourceAttrs, target]
  rfl

/-- The shipped permit is satisfied by nothing that its literals and patterns do not
name. -/
theorem gitReadOnly_names (built : BuiltFor q request entities)
    (target : q.target = .command command args rule pid)
    (satisfied : gitReadOnly.outcome request entities = .satisfied) :
    (gitReadOnlyPolicy id).toEst.Names (argvTail args) := by
  have asked := tail_of_built built target
  let env := estEnv (.bool true) request entities
  have free := tailFree_commandName "git"
  have truth (tail : String) :
      Est.evaluate env tail (Cedar.Expr.eq commandName (.string "git")).toEst =
      .ok (.bool (decide (command = "git"))) := by
    rw [free.evaluate_eq tail (argvTail args), evaluate_toEst asked,
      holds_commandName built target "git"]
    rfl
  have tests (tail : String) := positive_anyOf ((TailTest.eq "status").positive env tail)
    tailTest_otherReadOnlyTails
  have positive : ∀ c ∈ (gitReadOnlyPolicy id).toEst.conditions, Positive env c.expr := by
    intro c mem
    obtain rfl := List.mem_singleton.mp mem
    exact .and (.other free (truth "")) (tests "").1
  have refused (tail : String) :
      ¬ (gitReadOnlyPolicy id).toEst.SatisfiedUnmatched env tail := by
    intro yes
    have whole := yes _ (List.mem_append_right _ List.mem_cons_self)
    have left : Est.unmatched env tail (Cedar.Expr.eq commandName (.string "git")).toEst = _ :=
      free.unmatched_eq.trans (truth tail)
    rw [show Est.Condition.expr _ = .binary .and _ _ from rfl, unmatched, left,
      (tests tail).2] at whole
    cases launched : decide (command = "git") <;> rw [launched] at whole <;> cases whole
  obtain named | any :=
    named_or_any_of_satisfied asked gitReadOnly_unlinted positive satisfied
  · exact named
  · obtain ⟨away, -, asUnmatched⟩ := gitReadOnly_unlinted.exists_unnamed env
    exact absurd (asUnmatched.mp (any away)) (refused away)

end ShippedPermit

end NonoCedarPdp.Cedar
