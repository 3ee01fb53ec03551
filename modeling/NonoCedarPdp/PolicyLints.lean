import NonoCedarPdp.PolicyJson

/-!
The lints of argument matching (`cedar/engine.rs`). Both walk the JSON form of a policy,
whatever it holds. Over the JSON of an expression a walk comes to what a recursion over
the expression itself does.
-/
namespace JsonText.Value

def asArray : Value → Option (List Value)
  | .array elements => some elements
  | _ => none

theorem sizeOf_get {value found : Value} {key : String} (h : value.get key = some found) :
    sizeOf found < sizeOf value := by
  cases value with
  | object members =>
      have mem : (key, found) ∈ members := by
        rw [get] at h
        induction members with
        | nil => cases h
        | cons m rest ih =>
            obtain ⟨k, v⟩ := m
            rw [List.lookup_cons] at h
            split at h
            · next same =>
              cases h
              rw [beq_iff_eq] at same
              exact same ▸ List.mem_cons_self
            · exact List.mem_cons_of_mem _ (ih h)
      have inside := List.sizeOf_lt_of_mem mem
      simp only [Prod.mk.sizeOf_spec, object.sizeOf_spec] at inside ⊢
      omega
  | _ => cases h

end JsonText.Value

namespace NonoCedarPdp
open Cedar Cedar.Est RustText

/-- An access to an attribute of that name, whatever it is accessed on. -/
def isAttr (name : String) (node : Json) : Bool :=
  ((node.get ".").bind (·.get "attr")).bind JsonText.Value.asString == some name

def isArgvTail : Json → Bool := isAttr "argv_tail"

def isArgsAttr : Json → Bool := isAttr "args"

/-! ## Unpinned reads of `argv_tail` -/

def isWildcard (element : Json) : Bool := element.asString == some "Wildcard"

def pinsAToken (pattern : Json) : Bool :=
  match pattern.asArray with
  | none => false
  | some elements =>
      match elements.findIdx? isWildcard with
      | none => true
      | some 0 => false
      | some (before + 1) =>
          (elements[before]?.bind (·.get "Literal")).bind JsonText.Value.asString == some " "

/-- What a `like` over `argv_tail` counts for. -/
def likeRead (node : Json) : Option Nat := do
  let like ← node.get "like"
  let left ← like.get "left"
  if isArgvTail left then some (if (like.get "pattern").any pinsAToken then 0 else 1) else none

/-- The other sides of an equality one side of which is `argv_tail`. -/
def equalitySides (node : Json) : Option (List Json) := do
  let equality ← node.get "=="
  let sides := [equality.get "left", equality.get "right"].filterMap id
  if sides.any isArgvTail then some (sides.filter fun side => !isArgvTail side) else none

theorem sizeOf_equalitySides {node side : Json} {sides : List Json}
    (h : equalitySides node = some sides) (mem : side ∈ sides) :
      sizeOf side < sizeOf node := by
  simp only [equalitySides, Option.bind_eq_bind, Option.bind_eq_some_iff] at h
  obtain ⟨equality, found, rest⟩ := h
  split at rest
  · cases rest
    obtain ⟨there, -⟩ := List.mem_filter.mp mem
    obtain ⟨read, listed, same⟩ := List.mem_filterMap.mp there
    have inner : sizeOf side < sizeOf equality := by
      simp only [List.mem_cons, List.not_mem_nil, or_false] at listed
      obtain rfl | rfl := listed
      · exact JsonText.Value.sizeOf_get same
      · exact JsonText.Value.sizeOf_get same
    exact Nat.lt_trans inner (JsonText.Value.sizeOf_get found)
  · cases rest

def unpinnedWalk (node : Json) : Nat :=
  match node with
  | .object members =>
      match likeRead (.object members) with
      | some count => count
      | none =>
          match _found : equalitySides (.object members) with
          | some sides =>
              (sides.attach.map fun side => unpinnedWalk side.1).foldr (· + ·) 0
          | none =>
              if isArgvTail (.object members) then 1
              else (members.attach.map fun m => unpinnedWalk m.1.2).foldr (· + ·) 0
  | .array items => (items.attach.map fun item => unpinnedWalk item.1).foldr (· + ·) 0
  | _ => 0
termination_by sizeOf node
decreasing_by
  · exact sizeOf_equalitySides _found side.2
  · have inside := List.sizeOf_lt_of_mem m.2
    have part : sizeOf m.1.2 < sizeOf m.1 := by
      obtain ⟨⟨key, value⟩, mem⟩ := m
      simp only [Prod.mk.sizeOf_spec]
      omega
    simp only [JsonText.Value.object.sizeOf_spec]
    omega
  · have inside := List.sizeOf_lt_of_mem item.2
    simp only [JsonText.Value.array.sizeOf_spec]
    omega

def unpinnedArgvTailReads (json : Json) : Nat := unpinnedWalk json

/-! ## Path literals in membership tests of `args` -/

def stringLiterals (node : Json) : List String :=
  ((node.get "Value").bind JsonText.Value.asString).toList ++
    match _found : (node.get "Set").bind JsonText.Value.asArray with
    | some items => (items.attach.map fun item => stringLiterals item.1).flatten
    | none => []
termination_by sizeOf node
decreasing_by
  obtain ⟨set, there, isArray⟩ := Option.bind_eq_some_iff.mp _found
  have inside := List.sizeOf_lt_of_mem item.2
  have smaller := JsonText.Value.sizeOf_get there
  cases set with
  | array elements =>
      cases isArray
      simp only [JsonText.Value.array.sizeOf_spec] at smaller
      omega
  | _ => cases isArray

/-- What one member of an object is reported for, its own members apart. -/
def memberLiterals (key : String) (value : Json) : List String :=
  if key ∈ ["contains", "containsAny", "containsAll"] then
    match value.get "left", value.get "right" with
    | some left, some right =>
        if isArgsAttr left then
          (stringLiterals right).filter fun literal => '/' ∈ literal.toList
        else []
    | _, _ => []
  else []

def pathLiteralWalk (node : Json) : List String :=
  match node with
  | .object members =>
      (members.attach.map fun m =>
        memberLiterals m.1.1 m.1.2 ++ pathLiteralWalk m.1.2).flatten
  | .array items => (items.attach.map fun item => pathLiteralWalk item.1).flatten
  | _ => []
termination_by sizeOf node
decreasing_by
  · have inside := List.sizeOf_lt_of_mem m.2
    have part : sizeOf m.1.2 < sizeOf m.1 := by
      obtain ⟨⟨key, value⟩, mem⟩ := m
      simp only [Prod.mk.sizeOf_spec]
      omega
    simp only [JsonText.Value.object.sizeOf_spec]
    omega
  · have inside := List.sizeOf_lt_of_mem item.2
    simp only [JsonText.Value.array.sizeOf_spec]
    omega

def argsMembershipPathLiterals (json : Json) : List String := pathLiteralWalk json

/-! ## The lints -/

inductive Lint
  | unpinnedArgvTail (policy : String)
  | argsPathLiteral (policy literal : String)
  deriving DecidableEq

def Lint.policy : Lint → String
  | .unpinnedArgvTail policy | .argsPathLiteral policy _ => policy

def Lint.text (tables : UnicodeTables) : Lint → String
  | .unpinnedArgvTail policy =>
      "policy " ++ policy ++ " is a permit whose resource.argv_tail test does not pin " ++
        "a whole token; a glob that starts with a wildcard over-matches text inside a " ++
        "single argument, and one that stops mid-token (like \"diff*\") also matches " ++
        "a longer subcommand (difftool), so either belongs in forbid only — anchor " ++
        "the pattern and end it at the separating space (like \"status *\"), or " ++
        "compare it exactly (== \"status\"), and use resource.args.contains(..) for " ++
        "flags"
  | .argsPathLiteral policy literal =>
      "policy " ++ policy ++ " tests resource.args membership against " ++
        debugStr tables literal ++ ", which contains a path separator; args[0] is an " ++
        "absolute per-run shim path that no literal can match, so if this is meant to " ++
        "pin the program it never matches — match resource.command instead (harmless " ++
        "if it really is a path argument)"

section Lints
variable {β : Type} (toJson : Cedar.Policy β → Except String Json)

/-- A policy the crate gives no JSON for is passed over. -/
def lintPolicy (p : Cedar.Policy β) : List Lint :=
  match toJson p with
  | .error _ => []
  | .ok json =>
      (if p.effect = .permit ∧ 0 < unpinnedArgvTailReads json
        then [.unpinnedArgvTail p.id] else []) ++
        (argsMembershipPathLiterals json).map (.argsPathLiteral p.id)

def lintArgMatching (set : PolicySet β) : List Lint :=
  set.policies.flatMap (lintPolicy toJson)

end Lints

end NonoCedarPdp
