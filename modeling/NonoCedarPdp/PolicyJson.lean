import NonoCedarPdp.Cedar
import NonoCedarPdp.Lib.Glob
import NonoCedarPdp.Lib.JsonReader

/-!
Policies in the JSON form that `Policy::to_json` of the crate gives them, with every form
of expression there is. One key of an object names the form, and the members under it
are the operands.
-/
namespace NonoCedarPdp.Cedar.Est

abbrev Json := JsonText.Value

inductive Literal
  | bool (b : Bool)
  | long (n : Int)
  | string (text : String)
  | entity (uid : EntityUid)
  deriving DecidableEq

inductive Var
  | principal
  | action
  | resource
  | context
  deriving DecidableEq

inductive Unary
  | not
  | neg
  | isEmpty
  deriving DecidableEq

inductive Binary
  | eq
  | notEq
  | isIn
  | less
  | lessEq
  | greater
  | greaterEq
  | and
  | or
  | add
  | sub
  | mul
  | contains
  | containsAll
  | containsAny
  | getTag
  | hasTag
  deriving DecidableEq

def Var.name : Var → String
  | .principal => "principal"
  | .action => "action"
  | .resource => "resource"
  | .context => "context"

def Unary.key : Unary → String
  | .not => "!"
  | .neg => "neg"
  | .isEmpty => "isEmpty"

def Binary.key : Binary → String
  | .eq => "=="
  | .notEq => "!="
  | .isIn => "in"
  | .less => "<"
  | .lessEq => "<="
  | .greater => ">"
  | .greaterEq => ">="
  | .and => "&&"
  | .or => "||"
  | .add => "+"
  | .sub => "-"
  | .mul => "*"
  | .contains => "contains"
  | .containsAll => "containsAll"
  | .containsAny => "containsAny"
  | .getTag => "getTag"
  | .hasTag => "hasTag"

/-- The keys that name the other forms. -/
def formKeys : List String :=
  ["Value", "Var", "Slot", "Unknown", "!", "neg", "isEmpty", "==", "!=", "in", "<",
    "<=", ">", ">=", "&&", "||", "+", "-", "*", "contains", "containsAll", "containsAny",
    "getTag", "hasTag", ".", "has",
    "like", "is", "if-then-else", "Set", "Record"]

/-- A function of an extension is called under its own name, which names no other form. -/
structure ExtensionFunction where
  name : String
  plain : name ∉ formKeys

inductive Expr
  | value (literal : Literal)
  | var (v : Var)
  | unary (op : Unary) (arg : Expr)
  | binary (op : Binary) (left right : Expr)
  | getAttr (left : Expr) (attr : String)
  | hasAttr (left : Expr) (attr : String)
  | like (left : Expr) (pattern : Glob.Pattern Char)
  | is (left : Expr) (entityType : String)
  | isIn (left : Expr) (entityType : String) (ancestor : Expr)
  | ite (condition consequent alternative : Expr)
  | set (elements : List Expr)
  | record (fields : List (String × Expr))
  | call (function : ExtensionFunction) (args : List Expr)

def entityJson (uid : EntityUid) : Json :=
  .object [("type", .string uid.typeName), ("id", .string uid.id)]

def Literal.toJson : Literal → Json
  | .bool b => .bool b
  | .long n => .number (toString n).toList
  | .string text => .string text
  | .entity uid => .object [("__entity", entityJson uid)]

def elementJson : Glob.Element Char → Json
  | .letter c => .object [("Literal", .string (String.singleton c))]
  | .star => .string "Wildcard"

def patternJson (pattern : Glob.Pattern Char) : Json := .array (pattern.map elementJson)

/-- The object under the key of a form. -/
def form (key : String) (operands : Json) : Json := .object [(key, operands)]

mutual

def Expr.toJson : Expr → Json
  | .value literal => form "Value" literal.toJson
  | .var v => form "Var" (.string v.name)
  | .unary op arg => form op.key (.object [("arg", arg.toJson)])
  | .binary op left right =>
      form op.key (.object [("left", left.toJson), ("right", right.toJson)])
  | .getAttr left attr =>
      form "." (.object [("left", left.toJson), ("attr", .string attr)])
  | .hasAttr left attr =>
      form "has" (.object [("left", left.toJson), ("attr", .string attr)])
  | .like left pattern =>
      form "like" (.object [("left", left.toJson), ("pattern", patternJson pattern)])
  | .is left entityType =>
      form "is" (.object [("left", left.toJson), ("entity_type", .string entityType)])
  | .isIn left entityType ancestor =>
      form "is" (.object
        [("left", left.toJson), ("entity_type", .string entityType),
          ("in", ancestor.toJson)])
  | .ite condition consequent alternative =>
      form "if-then-else" (.object [("if", condition.toJson), ("then", consequent.toJson),
        ("else", alternative.toJson)])
  | .set elements => form "Set" (.array (elementsJson elements))
  | .record fields => form "Record" (.object (fieldsJson fields))
  | .call function args => form function.name (.array (elementsJson args))

def elementsJson : List Expr → List Json
  | [] => []
  | e :: rest => e.toJson :: elementsJson rest

def fieldsJson : List (String × Expr) → List (String × Json)
  | [] => []
  | (key, e) :: rest => (key, e.toJson) :: fieldsJson rest

end

/-! ## Parts of an expression -/

def Expr.children : Expr → List Expr
  | .value _ | .var _ => []
  | .unary _ arg => [arg]
  | .binary _ left right => [left, right]
  | .getAttr left _ | .hasAttr left _ | .like left _ | .is left _ => [left]
  | .isIn left _ ancestor => [left, ancestor]
  | .ite condition consequent alternative => [condition, consequent, alternative]
  | .set elements => elements
  | .record fields => fields.map Prod.snd
  | .call _ args => args

/-- A part of an expression, at any nesting, the expression included. -/
inductive Within (part : Expr) : Expr → Prop
  | here : Within part part
  | deeper {e child : Expr} (mem : child ∈ e.children)
      (inside : Within part child) : Within part e

theorem within_iff {part e : Expr} :
    Within part e ↔ part = e ∨ ∃ child ∈ e.children, Within part child := by
  constructor
  · intro within
    cases within with
    | here => exact .inl rfl
    | deeper mem inside => exact .inr ⟨_, mem, inside⟩
  · rintro (rfl | ⟨child, mem, inside⟩)
    · exact .here
    · exact .deeper mem inside

theorem Expr.sizeOf_child {e child : Expr} (mem : child ∈ e.children) :
    sizeOf child < sizeOf e := by
  cases e with
  | value _ | var _ => cases mem
  | set elements | call _ elements =>
      have inside := List.sizeOf_lt_of_mem (show child ∈ elements from mem)
      simp only [Expr.set.sizeOf_spec, Expr.call.sizeOf_spec]
      omega
  | record fields =>
      obtain ⟨field, inFields, rfl⟩ := List.mem_map.mp mem
      have inside := List.sizeOf_lt_of_mem inFields
      obtain ⟨key, e⟩ := field
      simp only [Expr.record.sizeOf_spec, Prod.mk.sizeOf_spec] at inside ⊢
      omega
  | _ =>
      simp only [Expr.children, List.mem_cons, List.not_mem_nil, or_false] at mem
      obtain rfl | rfl | rfl := mem <;> simp <;> omega

/-- What holds of an expression when it holds of its parts holds of every expression. -/
theorem Expr.induction {P : Expr → Prop}
    (step : ∀ e, (∀ child ∈ e.children, P child) → P e) (e : Expr) : P e :=
  step e fun child _ => Expr.induction step child
termination_by sizeOf e
decreasing_by exact Expr.sizeOf_child ‹_›

/-! ## Policies -/

inductive Scope
  | all
  | eq (uid : EntityUid)
  | isIn (uid : EntityUid)
  | isInAny (uids : List EntityUid)
  | is (entityType : String)
  | isIsIn (entityType : String) (uid : EntityUid)

/-- `when` the body holds, or `unless` it does. -/
structure Condition where
  negated : Bool
  body : Expr

structure Policy where
  effect : Effect
  principal : Scope
  action : Scope
  resource : Scope
  conditions : List Condition
  annotations : List (String × Option String)

def effectName : Effect → String
  | .permit => "permit"
  | .forbid => "forbid"

def Scope.toJson : Scope → Json
  | .all => .object [("op", .string "All")]
  | .eq uid => .object [("op", .string "=="), ("entity", entityJson uid)]
  | .isIn uid => .object [("op", .string "in"), ("entity", entityJson uid)]
  | .isInAny uids =>
      .object [("op", .string "in"), ("entities", .array (uids.map entityJson))]
  | .is entityType => .object [("op", .string "is"), ("entity_type", .string entityType)]
  | .isIsIn entityType uid =>
      .object [("op", .string "is"), ("entity_type", .string entityType),
        ("in", .object [("entity", entityJson uid)])]

def Condition.toJson (c : Condition) : Json :=
  .object [("kind", .string (if c.negated then "unless" else "when")),
    ("body", c.body.toJson)]

def annotationsJson (annotations : List (String × Option String)) : Json :=
  .object (annotations.map fun a => (a.1, JsonText.Value.nullable .string a.2))

/-- No annotations are left out. -/
def Policy.toJson (p : Policy) : Json :=
  .object ([("effect", .string (effectName p.effect)), ("principal", p.principal.toJson),
      ("action", p.action.toJson), ("resource", p.resource.toJson),
      ("conditions", .array (p.conditions.map Condition.toJson))] ++
    if p.annotations = [] then [] else [("annotations", annotationsJson p.annotations)])

end NonoCedarPdp.Cedar.Est
