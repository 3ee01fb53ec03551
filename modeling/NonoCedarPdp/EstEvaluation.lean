import NonoCedarPdp.LintReading

/-!
What an expression comes to, as the value of `resource.argv_tail` varies and every other
attribute stays. Variables, attributes, the connectives, `if`, equality and `like` are the
language's own; what the other operators make of their operands is left open. An
expression that does not read `argv_tail` comes to the same at every value of it.
-/
namespace NonoCedarPdp.Cedar.Est

/-- Sets, records and the values of extensions are whatever the crate makes them. -/
inductive Value (X : Type)
  | bool (b : Bool)
  | long (n : Int)
  | string (text : String)
  | entity (uid : EntityUid)
  | other (x : X)
  deriving DecidableEq

/-- What the operators make of values. A string equals itself and no other value. -/
structure Operators (X : Type) where
  equal : Value X → Value X → Bool
  equal_string : ∀ text v, equal (.string text) v = true ↔ v = .string text
  string_equal : ∀ v text, equal v (.string text) = true ↔ v = .string text
  unary : Unary → Value X → Except String (Value X)
  binary : Binary → Value X → Value X → Except String (Value X)
  isType : String → Value X → Except String Bool
  field : X → String → Except String (Value X)
  hasField : X → String → Except String Bool
  set : List (Value X) → Value X
  record : List (String × Value X) → Value X
  call : ExtensionFunction → List (Value X) → Except String (Value X)

/-- A request and its entities but for the `argv_tail` of the resource. -/
structure Env (X : Type) where
  operators : Operators X
  principal : EntityUid
  action : EntityUid
  resource : EntityUid
  context : Value X
  /-- The other attributes of the resource. -/
  others : List (String × Value X)
  attrs : EntityUid → Option (List (String × Value X))

variable {X : Type}

def Env.attrsOf (env : Env X) (tail : String) (uid : EntityUid) :
    Option (List (String × Value X)) :=
  if uid = env.resource then some (("argv_tail", .string tail) :: env.others)
    else env.attrs uid

def Literal.value : Literal → Value X
  | .bool b => .bool b
  | .long n => .long n
  | .string text => .string text
  | .entity uid => .entity uid

def Env.var (env : Env X) : Var → Value X
  | .principal => .entity env.principal
  | .action => .entity env.action
  | .resource => .entity env.resource
  | .context => env.context

def typeError {α : Type} : Except String α := .error "type error"

def Value.asBool : Value X → Except String Bool
  | .bool b => .ok b
  | _ => typeError

def Env.getAttr (env : Env X) (tail : String) (v : Value X) (attr : String) :
    Except String (Value X) :=
  match v with
  | .entity uid =>
      match env.attrsOf tail uid with
      | none => .error "entity does not exist"
      | some attrs =>
          match attrs.lookup attr with
          | none => .error "attribute not found"
          | some found => .ok found
  | .other x => env.operators.field x attr
  | _ => typeError

def Env.hasAttr (env : Env X) (tail : String) (v : Value X) (attr : String) :
    Except String Bool :=
  match v with
  | .entity uid => .ok (((env.attrsOf tail uid).bind (List.lookup attr)).isSome)
  | .other x => env.operators.hasField x attr
  | _ => typeError

mutual

def evaluate (env : Env X) (tail : String) : Expr → Except String (Value X)
  | .value literal => .ok literal.value
  | .var v => .ok (env.var v)
  | .unary .not arg => do
      let b ← (← evaluate env tail arg).asBool
      .ok (.bool !b)
  | .unary op arg => do env.operators.unary op (← evaluate env tail arg)
  | .binary .and left right => do
      if ← (← evaluate env tail left).asBool then
        .ok (.bool (← (← evaluate env tail right).asBool))
      else .ok (.bool false)
  | .binary .or left right => do
      if ← (← evaluate env tail left).asBool then .ok (.bool true)
      else .ok (.bool (← (← evaluate env tail right).asBool))
  | .binary .eq left right => do
      let l ← evaluate env tail left
      let r ← evaluate env tail right
      .ok (.bool (env.operators.equal l r))
  | .binary .notEq left right => do
      let l ← evaluate env tail left
      let r ← evaluate env tail right
      .ok (.bool !(env.operators.equal l r))
  | .binary op left right => do
      let l ← evaluate env tail left
      let r ← evaluate env tail right
      env.operators.binary op l r
  | .getAttr left attr => do env.getAttr tail (← evaluate env tail left) attr
  | .hasAttr left attr =>
      do .ok (.bool (← env.hasAttr tail (← evaluate env tail left) attr))
  | .like left pattern => do
      match ← evaluate env tail left with
      | .string text => .ok (.bool (Glob.accepts pattern text.toList))
      | _ => typeError
  | .is left entityType => do
      .ok (.bool (← env.operators.isType entityType (← evaluate env tail left)))
  | .isIn left entityType ancestor => do
      let l ← evaluate env tail left
      if ← env.operators.isType entityType l then
        env.operators.binary .isIn l (← evaluate env tail ancestor)
      else .ok (.bool false)
  | .ite condition consequent alternative => do
      if ← (← evaluate env tail condition).asBool then evaluate env tail consequent
      else evaluate env tail alternative
  | .set elements => do .ok (env.operators.set (← evaluateAll env tail elements))
  | .record fields => do .ok (env.operators.record (← evaluateFields env tail fields))
  | .call function args => do env.operators.call function (← evaluateAll env tail args)

def evaluateAll (env : Env X) (tail : String) : List Expr → Except String (List (Value X))
  | [] => .ok []
  | e :: rest => do
      let v ← evaluate env tail e
      .ok (v :: (← evaluateAll env tail rest))

def evaluateFields (env : Env X) (tail : String) :
    List (String × Expr) → Except String (List (String × Value X))
  | [] => .ok []
  | (key, e) :: rest => do
      let v ← evaluate env tail e
      .ok ((key, v) :: (← evaluateFields env tail rest))

end

/-! ## Policies -/

def Scope.expr (v : Var) : Scope → Expr
  | .all => .value (.bool true)
  | .eq uid => .binary .eq (.var v) (.value (.entity uid))
  | .isIn uid => .binary .isIn (.var v) (.value (.entity uid))
  | .isInAny uids =>
      .binary .isIn (.var v) (.set (uids.map fun uid => .value (.entity uid)))
  | .is entityType => .is (.var v) entityType
  | .isIsIn entityType uid => .isIn (.var v) entityType (.value (.entity uid))

def Condition.expr (c : Condition) : Expr :=
  if c.negated then .unary .not c.body else c.body

def Policy.scopes (p : Policy) : List Expr :=
  [p.principal.expr .principal, p.action.expr .action, p.resource.expr .resource]

def Policy.exprs (p : Policy) : List Expr := p.scopes ++ p.conditions.map Condition.expr

/-- The scope and every condition come to true; a failure satisfies nothing. -/
def Policy.Satisfied (p : Policy) (env : Env X) (tail : String) : Prop :=
  ∀ e ∈ p.exprs, evaluate env tail e = .ok (.bool true)

/-! ## Expressions that do not read `argv_tail` -/

/-- No part of the expression accesses an attribute `argv_tail`. -/
def TailFree (e : Expr) : Prop := ∀ part, Within part e → part.isAttr "argv_tail" = false

theorem TailFree.child {e child : Expr} (h : TailFree e) (mem : child ∈ e.children) :
    TailFree child :=
  fun part within => h part (.deeper mem within)

variable {env : Env X}

theorem getAttr_other {attr : String} (other : attr ≠ "argv_tail") (v : Value X)
    (tail tail' : String) : env.getAttr tail v attr = env.getAttr tail' v attr := by
  cases v with
  | entity uid =>
      by_cases resource : uid = env.resource
      · simp [Env.getAttr, Env.attrsOf, resource, List.lookup_cons, beq_false_of_ne other]
      · simp [Env.getAttr, Env.attrsOf, resource]
  | _ => rfl

theorem hasAttr_any (v : Value X) (attr : String) (tail tail' : String) :
    env.hasAttr tail v attr = env.hasAttr tail' v attr := by
  cases v with
  | entity uid =>
      simp only [Env.hasAttr, Env.attrsOf]
      split
      · by_cases same : attr = "argv_tail"
        · simp [same]
        · simp [List.lookup_cons, beq_false_of_ne same]
      · rfl
  | _ => rfl

theorem evaluateAll_congr {es : List Expr} {tail tail' : String}
    (h : ∀ e ∈ es, evaluate env tail e = evaluate env tail' e) :
    evaluateAll env tail es = evaluateAll env tail' es := by
  induction es with
  | nil => rw [evaluateAll, evaluateAll]
  | cons e rest ih =>
      rw [evaluateAll, evaluateAll, h e List.mem_cons_self,
        ih fun e' mem => h e' (List.mem_cons_of_mem e mem)]

theorem evaluateFields_congr {fields : List (String × Expr)} {tail tail' : String}
    (h : ∀ e ∈ fields.map Prod.snd, evaluate env tail e = evaluate env tail' e) :
    evaluateFields env tail fields = evaluateFields env tail' fields := by
  induction fields with
  | nil => rw [evaluateFields, evaluateFields]
  | cons f rest ih =>
      obtain ⟨key, e⟩ := f
      rw [evaluateFields, evaluateFields, h e List.mem_cons_self,
        ih fun e' mem => h e' (List.mem_cons_of_mem e mem)]

/-- The value of an expression that does not read `argv_tail` is the same at every value
of it. -/
theorem TailFree.evaluate_eq {e : Expr} (free : TailFree e) (tail tail' : String) :
    evaluate env tail e = evaluate env tail' e := by
  induction e using Expr.induction with
  | step e ih =>
      have same {child : Expr} (mem : child ∈ e.children) :
          evaluate env tail child = evaluate env tail' child :=
            ih child mem (free.child mem)
      cases e with
      | value literal | var v => rw [evaluate, evaluate]
      | unary op arg =>
          have arg_same := same List.mem_cons_self
          cases op <;> simp only [evaluate, arg_same]
      | binary op left right =>
          have left_same := @same left (by simp [Expr.children])
          have right_same := @same right (by simp [Expr.children])
          cases op <;> simp only [evaluate, left_same, right_same]
      | getAttr left attr =>
          have left_same := same List.mem_cons_self
          have other : attr ≠ "argv_tail" := by
            rintro rfl
            exact absurd (free _ .here) (by simp [Expr.isAttr])
          simp only [evaluate, left_same,
            fun v => @getAttr_other X env attr other v tail tail']
      | hasAttr left attr =>
          have left_same := same List.mem_cons_self
          simp only [evaluate, left_same, fun v => @hasAttr_any X env v attr tail tail']
      | like left pattern | is left entityType =>
          have left_same := same List.mem_cons_self
          simp only [evaluate, left_same]
      | isIn left entityType ancestor =>
          have left_same := @same left (by simp [Expr.children])
          have ancestor_same := @same ancestor (by simp [Expr.children])
          simp only [evaluate, left_same, ancestor_same]
      | ite condition consequent alternative =>
          have condition_same := @same condition (by simp [Expr.children])
          have consequent_same := @same consequent (by simp [Expr.children])
          have alternative_same := @same alternative (by simp [Expr.children])
          simp only [evaluate, condition_same, consequent_same, alternative_same]
      | set elements | call f elements =>
          have all_same : evaluateAll env tail elements =
              evaluateAll env tail' elements :=
            evaluateAll_congr fun e mem => same mem
          rw [evaluate, evaluate, all_same]
      | record fields =>
          have all_same : evaluateFields env tail fields =
              evaluateFields env tail' fields :=
            evaluateFields_congr fun e mem => same mem
          rw [evaluate, evaluate, all_same]

end NonoCedarPdp.Cedar.Est
