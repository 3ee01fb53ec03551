import NonoCedarPdp.PolicyLints

/-!
What the lints read off a policy. Over the JSON of an expression each walk comes to a
recursion over the expression itself, and over the JSON of a policy to that recursion over
its conditions: scopes, annotations and record keys add nothing.
-/
namespace NonoCedarPdp.Cedar.Est

def Binary.isMembership : Binary → Bool
  | .contains | .containsAny | .containsAll => true
  | _ => false

/-- A pattern that ends its first literal where a token ends, or has no star at all. -/
def pins (pattern : Glob.Pattern Char) : Bool :=
  Glob.starFree pattern || (Glob.stem pattern).getLast? == some ' '

def isPath (text : String) : Bool := '/' ∈ text.toList

namespace Expr

def isAttr (name : String) : Expr → Bool
  | .getAttr _ attr => attr == name
  | _ => false

mutual

/-- How many reads of `argv_tail` pin no token. -/
def unpinned : Expr → Nat
  | .value _ | .var _ => 0
  | .unary _ arg => arg.unpinned
  | .binary op left right =>
      (if op = .eq ∧ left.isAttr "argv_tail" then 0 else left.unpinned) +
        if op = .eq ∧ right.isAttr "argv_tail" then 0 else right.unpinned
  | .getAttr left attr => if attr = "argv_tail" then 1 else left.unpinned
  | .hasAttr left _ => left.unpinned
  | .like left pattern =>
      if left.isAttr "argv_tail" then if pins pattern then 0 else 1 else left.unpinned
  | .is left _ => left.unpinned
  | .isIn left _ ancestor => left.unpinned + ancestor.unpinned
  | .ite condition consequent alternative =>
      condition.unpinned + (consequent.unpinned + alternative.unpinned)
  | .set elements => unpinnedAll elements
  | .record fields => unpinnedFields fields
  | .call _ args => unpinnedAll args

def unpinnedAll : List Expr → Nat
  | [] => 0
  | e :: rest => e.unpinned + unpinnedAll rest

def unpinnedFields : List (String × Expr) → Nat
  | [] => 0
  | (_, e) :: rest => e.unpinned + unpinnedFields rest

end

mutual

/-- The strings of a literal, or of a set of them. -/
def literals : Expr → List String
  | .value (.string text) => [text]
  | .set elements => literalsAll elements
  | _ => []

def literalsAll : List Expr → List String
  | [] => []
  | e :: rest => e.literals ++ literalsAll rest

end

mutual

/-- The path literals that a membership test has on the right of an `args`. -/
def pathLiterals : Expr → List String
  | .value _ | .var _ => []
  | .unary _ arg => arg.pathLiterals
  | .binary op left right =>
      (if op.isMembership ∧ left.isAttr "args"
        then right.literals.filter isPath else []) ++
        (left.pathLiterals ++ right.pathLiterals)
  | .getAttr left _ | .hasAttr left _ | .like left _ | .is left _ => left.pathLiterals
  | .isIn left _ ancestor => left.pathLiterals ++ ancestor.pathLiterals
  | .ite condition consequent alternative =>
      condition.pathLiterals ++ (consequent.pathLiterals ++ alternative.pathLiterals)
  | .set elements => pathLiteralsAll elements
  | .record fields => pathLiteralsFields fields
  | .call _ args => pathLiteralsAll args

def pathLiteralsAll : List Expr → List String
  | [] => []
  | e :: rest => e.pathLiterals ++ pathLiteralsAll rest

def pathLiteralsFields : List (String × Expr) → List String
  | [] => []
  | (_, e) :: rest => e.pathLiterals ++ pathLiteralsFields rest

end

end Expr

/-! ## The JSON of an expression -/

theorem get_form (key k : String) (operands : Json) :
    (form key operands).get k = if k = key then some operands else none := by
  rw [form, JsonText.Value.get, List.lookup_cons]
  by_cases same : k = key
  · rw [if_pos same, same, beq_self_eq_true]
  · rw [if_neg same, beq_false_of_ne same]
    rfl

theorem ExtensionFunction.ne (f : ExtensionFunction) {key : String} (h : key ∈ formKeys) :
    key ≠ f.name :=
  fun same => f.plain (same ▸ h)

/-- Under a key that names no form stand at most the arguments of a call. -/
theorem array_of_get {e : Expr} {key : String} {found : Json}
    (h : e.toJson.get key = some found) (plain : key ∉ formKeys) :
      ∃ items, found = .array items := by
  have other {form : String} (named : form ∈ formKeys) : key ≠ form :=
    fun same => plain (same ▸ named)
  cases e with
  | call f args =>
      rw [Expr.toJson, get_form] at h
      split at h
      · cases h; exact ⟨_, rfl⟩
      · cases h
  | unary op arg =>
      rw [Expr.toJson, get_form, if_neg (other (by cases op <;> decide))] at h
      cases h
  | binary op left right =>
      rw [Expr.toJson, get_form, if_neg (other (by cases op <;> decide))] at h
      cases h
  | _ =>
      rw [Expr.toJson, get_form, if_neg (other (by decide))] at h
      cases h

@[simp] theorem isAttr_toJson (name : String) (e : Expr) :
  isAttr name e.toJson = e.isAttr name := by
  cases e with
  | getAttr left attr =>
      rw [isAttr, Expr.toJson, get_form, if_pos rfl]
      simp [JsonText.Value.get, List.lookup_cons, Expr.isAttr]
  | call f args =>
      rw [isAttr, Expr.toJson, get_form, if_neg (f.ne (by decide))]
      rfl
  | unary op arg =>
      rw [isAttr, Expr.toJson, get_form, if_neg (by cases op <;> decide)]
      rfl
  | binary op left right =>
      rw [isAttr, Expr.toJson, get_form, if_neg (by cases op <;> decide)]
      rfl
  | _ =>
      rw [isAttr, Expr.toJson, get_form, if_neg (by decide)]
      rfl

/-! ## Unpinned reads -/

theorem findIdx_patternJson (pattern : Glob.Pattern Char) :
    (pattern.map elementJson).findIdx? isWildcard =
      if Glob.starFree pattern then none else some (Glob.stem pattern).length := by
  induction pattern with
  | nil => rfl
  | cons e pattern ih =>
      cases e with
      | star => rfl
      | letter c =>
          have letter : isWildcard (elementJson (.letter c)) = false := rfl
          rw [List.map_cons, List.findIdx?_cons, letter, ih, Glob.starFree, Glob.stem]
          cases Glob.starFree pattern <;> rfl

theorem getElem_patternJson {pattern : Glob.Pattern Char} {i : Nat}
    (h : i < (Glob.stem pattern).length) :
    (pattern.map elementJson)[i]? = ((Glob.stem pattern)[i]?).map fun c =>
      elementJson (.letter c) := by
  induction pattern generalizing i with
  | nil => exact absurd h (Nat.not_lt_zero i)
  | cons e pattern ih =>
      cases e with
      | star => exact absurd h (Nat.not_lt_zero i)
      | letter c =>
          cases i with
          | zero => rfl
          | succ i => exact ih (Nat.lt_of_succ_lt_succ h)

theorem singleton_eq_space (c : Char) :
    (some (String.singleton c) == some " ") = (some c == some ' ') := by
  have space : " " = String.singleton ' ' := rfl
  rw [Bool.eq_iff_iff, beq_iff_eq, beq_iff_eq, Option.some.injEq,
    Option.some.injEq, space]
  constructor
  · intro same
    have chars : [c] = [' '] := by simpa using congrArg String.toList same
    exact (List.cons.inj chars).1
  · rintro rfl
    rfl

theorem pinsAToken_patternJson (pattern : Glob.Pattern Char) :
    pinsAToken (patternJson pattern) = pins pattern := by
  have found := findIdx_patternJson pattern
  rw [pinsAToken, patternJson, JsonText.Value.asArray, pins]
  cases free : Glob.starFree pattern with
  | true =>
      rw [free, if_pos rfl] at found
      simp only [found, Bool.true_or]
  | false =>
      rw [free, if_neg Bool.false_ne_true] at found
      simp only [found, Bool.false_or]
      cases long : (Glob.stem pattern).length with
      | zero => simp [List.length_eq_zero_iff.mp long]
      | succ before =>
          have last : (Glob.stem pattern).getLast? = (Glob.stem pattern)[before]? := by
            rw [List.getLast?_eq_getElem?, long, Nat.add_sub_cancel]
          have inside : before < (Glob.stem pattern).length := by omega
          simp only [getElem_patternJson inside, last, List.getElem?_eq_getElem inside,
            Option.map_some, Option.bind_some]
          exact singleton_eq_space _

theorem unpinnedWalk_array (items : List Json) :
    unpinnedWalk (.array items) = (items.map unpinnedWalk).foldr (· + ·) 0 := by
  rw [unpinnedWalk]
  simp

theorem unpinnedWalk_string (text : String) : unpinnedWalk (.string text) = 0 := by
  simp [unpinnedWalk]

theorem unpinnedWalk_object {members : List (String × Json)}
    (like : likeRead (.object members) = none)
    (equality : equalitySides (.object members) = none)
    (access : isArgvTail (.object members) = false) :
    unpinnedWalk (.object members) =
      (members.map fun m => unpinnedWalk m.2).foldr (· + ·) 0 := by
  rw [unpinnedWalk]
  split
  · next found => exact absurd (like.symm.trans found) (by simp)
  · split
    · next found => exact absurd (equality.symm.trans found) (by simp)
    · rw [access, if_neg Bool.false_ne_true]
      have values := List.attach_map_val (l := members) (f := fun m => unpinnedWalk m.2)
      exact congrArg (List.foldr (· + ·) 0) values

/-- An object without the keys the walk looks for adds up what its members come to. -/
theorem unpinnedWalk_plain {members : List (String × Json)}
    (plain : ∀ key ∈ ["like", "==", "."], members.lookup key = none) :
    unpinnedWalk (.object members) =
      (members.map fun m => unpinnedWalk m.2).foldr (· + ·) 0 := by
  have absent {key : String} (mem : key ∈ ["like", "==", "."]) :
      (JsonText.Value.object members).get key = none := plain key mem
  apply unpinnedWalk_object
  · rw [likeRead, absent (by decide)]
    rfl
  · rw [equalitySides, absent (by decide)]
    rfl
  · rw [isArgvTail, isAttr, absent (by decide)]
    rfl

theorem unpinnedWalk_form {key : String} (h : key ∉ ["like", "==", "."])
    (operands : Json) : unpinnedWalk (form key operands) = unpinnedWalk operands := by
  rw [form, unpinnedWalk_plain]
  · simp
  · intro other mem
    have differ : other ≠ key := fun same => h (same ▸ mem)
    rw [List.lookup_cons, beq_false_of_ne differ]
    rfl

theorem unpinnedWalk_access (left : Json) (attr : String) :
    unpinnedWalk (form "." (.object [("left", left), ("attr", .string attr)])) =
      if attr = "argv_tail" then 1 else unpinnedWalk left := by
  have access : isArgvTail (form "." (.object [("left", left), ("attr", .string attr)])) =
      (attr == "argv_tail") := by
    rw [isArgvTail, isAttr, get_form, if_pos rfl]
    simp [JsonText.Value.get, List.lookup_cons]
  have operands : unpinnedWalk (.object [("left", left), ("attr", .string attr)]) =
      unpinnedWalk left := by
    rw [unpinnedWalk_plain (by simp [List.lookup_cons])]
    simp [unpinnedWalk_string]
  by_cases tail : attr = "argv_tail"
  · rw [if_pos tail, form, unpinnedWalk]
    rw [tail, form] at access
    simp [likeRead, equalitySides, JsonText.Value.get, List.lookup_cons, tail, access]
  · rw [if_neg tail, ← operands, form, unpinnedWalk_object]
    · simp
    · simp [likeRead, JsonText.Value.get, List.lookup_cons]
    · simp [equalitySides, JsonText.Value.get, List.lookup_cons]
    · rw [← form, access, beq_false_of_ne tail]

theorem unpinnedWalk_like (left pattern : Json) :
    unpinnedWalk (form "like" (.object [("left", left), ("pattern", pattern)])) =
      if isArgvTail left then if pinsAToken pattern then 0 else 1
      else unpinnedWalk left + unpinnedWalk pattern := by
  have read : likeRead (form "like" (.object [("left", left), ("pattern", pattern)])) =
      if isArgvTail left then some (if pinsAToken pattern then 0 else 1) else none := by
    simp [likeRead, form, JsonText.Value.get, List.lookup_cons]
  have operands : unpinnedWalk (.object [("left", left), ("pattern", pattern)]) =
      unpinnedWalk left + unpinnedWalk pattern := by
    rw [unpinnedWalk_plain (by simp [List.lookup_cons])]
    simp
  cases tail : isArgvTail left with
  | true =>
      rw [tail, if_pos rfl, form] at read
      rw [if_pos rfl, form, unpinnedWalk]
      simp only [read]
  | false =>
      rw [tail, if_neg Bool.false_ne_true, form] at read
      rw [if_neg Bool.false_ne_true, ← operands, form, unpinnedWalk_object read]
      · simp
      · simp [equalitySides, JsonText.Value.get, List.lookup_cons]
      · simp [isArgvTail, isAttr, JsonText.Value.get, List.lookup_cons]

theorem unpinnedWalk_equality (left right : Json) :
    unpinnedWalk (form "==" (.object [("left", left), ("right", right)])) =
      (if isArgvTail left then 0 else unpinnedWalk left) +
        if isArgvTail right then 0 else unpinnedWalk right := by
  have sides : equalitySides (form "==" (.object [("left", left), ("right", right)])) =
      if isArgvTail left || isArgvTail right then
        some ([left, right].filter fun side => !isArgvTail side)
      else none := by
    simp [equalitySides, form, JsonText.Value.get, List.lookup_cons]
  have likeless :
      likeRead (form "==" (.object [("left", left), ("right", right)])) = none := by
    simp [likeRead, form, JsonText.Value.get, List.lookup_cons]
  have operands : unpinnedWalk (.object [("left", left), ("right", right)]) =
      unpinnedWalk left + unpinnedWalk right := by
    rw [unpinnedWalk_plain (by simp [List.lookup_cons])]
    simp
  cases tail : isArgvTail left || isArgvTail right with
  | true =>
      rw [tail, if_pos rfl, form] at sides
      have others : ([left, right].filter fun side => !isArgvTail side).map unpinnedWalk =
          (if isArgvTail left then [] else [unpinnedWalk left]) ++
            if isArgvTail right then [] else [unpinnedWalk right] := by
        cases hl : isArgvTail left <;> cases hr : isArgvTail right
          <;> simp [List.filter, hl, hr]
      rw [form, unpinnedWalk]
      split
      · next found => exact absurd (likeless.symm.trans found) (by simp)
      · split
        · next found =>
          obtain rfl := Option.some.inj (sides.symm.trans found)
          rw [List.attach_map_val (f := unpinnedWalk), others]
          cases isArgvTail left <;> cases isArgvTail right <;> simp
        · next found => exact absurd (sides.symm.trans found) (by simp)
  | false =>
      rw [tail, if_neg Bool.false_ne_true, form] at sides
      rw [form] at likeless
      obtain ⟨notLeft, notRight⟩ := Bool.or_eq_false_iff.mp tail
      rw [notLeft, notRight, if_neg Bool.false_ne_true, if_neg Bool.false_ne_true,
        ← operands, form, unpinnedWalk_object likeless sides]
      · simp
      · simp [isArgvTail, isAttr, JsonText.Value.get, List.lookup_cons]

theorem pathLiteralWalk_array (items : List Json) :
    pathLiteralWalk (.array items) = (items.map pathLiteralWalk).flatten := by
  rw [pathLiteralWalk, List.attach_map_val (f := pathLiteralWalk)]

theorem pathLiteralWalk_string (text : String) : pathLiteralWalk (.string text) = [] := by
  simp [pathLiteralWalk]

theorem pathLiteralWalk_object (members : List (String × Json)) :
    pathLiteralWalk (.object members) =
    (members.map fun m => memberLiterals m.1 m.2 ++ pathLiteralWalk m.2).flatten := by
  have values := List.attach_map_val (l := members)
    (f := fun m => memberLiterals m.1 m.2 ++ pathLiteralWalk m.2)
  rw [pathLiteralWalk]
  exact congrArg List.flatten values

theorem memberLiterals_of_ne {key : String} {value : Json}
    (h : key ∉ ["contains", "containsAny", "containsAll"]) :
      memberLiterals key value = [] := by
  rw [memberLiterals, if_neg h]

theorem pathLiteralWalk_plain {members : List (String × Json)}
    (plain : ∀ m ∈ members, m.1 ∉ ["contains", "containsAny", "containsAll"]) :
    pathLiteralWalk (.object members) =
      (members.map fun m => pathLiteralWalk m.2).flatten := by
  rw [pathLiteralWalk_object]
  congr 1
  refine List.map_congr_left fun m mem => ?_
  rw [memberLiterals_of_ne (plain m mem), List.nil_append]

theorem pathLiteralWalk_form (key : String) (operands : Json) :
    pathLiteralWalk (form key operands) =
      memberLiterals key operands ++ pathLiteralWalk operands := by
  rw [form, pathLiteralWalk_object]
  simp

/-! ## JSON without tests -/

/-- The keys under which a walk looks for a test. -/
def testKeys : List String :=
  ["like", "==", ".", "contains", "containsAny", "containsAll"]

/-- JSON in which neither walk finds a test. -/
inductive Inert : Json → Prop
  | null : Inert .null
  | bool (b : Bool) : Inert (.bool b)
  | number (digits : List Char) : Inert (.number digits)
  | string (text : String) : Inert (.string text)
  | array {items : List Json} (each : ∀ item ∈ items, Inert item) : Inert (.array items)
  | object {members : List (String × Json)} (plain : ∀ m ∈ members, m.1 ∉ testKeys)
      (each : ∀ m ∈ members, Inert m.2) : Inert (.object members)

theorem foldr_add_eq_zero_iff {α : Type} {f : α → Nat} {xs : List α} :
    (xs.map f).foldr (· + ·) 0 = 0 ↔ ∀ x ∈ xs, f x = 0 := by
  induction xs with
  | nil => simp
  | cons x xs ih =>
      rw [List.map_cons, List.foldr_cons, Nat.add_eq_zero_iff, ih, List.forall_mem_cons]

theorem Inert.unpinned {node : Json} (h : Inert node) : unpinnedWalk node = 0 := by
  induction h with
  | null | bool | number => simp [unpinnedWalk]
  | string text => exact unpinnedWalk_string text
  | array each ih =>
      rw [unpinnedWalk_array]
      exact foldr_add_eq_zero_iff.mpr ih
  | @object members plain each ih =>
      have absent : ∀ key ∈ ["like", "==", "."], members.lookup key = none := by
        intro key test
        rw [List.lookup_eq_none_iff]
        intro m mem
        have tests : ["like", "==", "."] ⊆ testKeys := by decide
        exact bne_iff_ne.mpr fun same => plain m mem (same ▸ tests test)
      rw [unpinnedWalk_plain absent]
      exact foldr_add_eq_zero_iff.mpr ih

theorem Inert.pathLiterals {node : Json} (h : Inert node) :
    pathLiteralWalk node = [] := by
  induction h with
  | null | bool | number => simp [pathLiteralWalk]
  | string text => exact pathLiteralWalk_string text
  | array each ih =>
      rw [pathLiteralWalk_array, List.flatten_eq_nil_iff]
      exact List.forall_mem_map.mpr ih
  | object plain each ih =>
      have tests : ["contains", "containsAny", "containsAll"] ⊆ testKeys := by decide
      rw [pathLiteralWalk_plain fun m mem test => plain m mem (tests test),
        List.flatten_eq_nil_iff]
      exact List.forall_mem_map.mpr ih

theorem inert_entityJson (uid : EntityUid) : Inert (entityJson uid) := by
  apply Inert.object
  · simp [testKeys]
  · simp [Inert.string]

theorem inert_literal (l : Literal) : Inert l.toJson := by
  cases l with
  | bool b => exact .bool b
  | long n => exact .number _
  | string text => exact .string text
  | entity uid => exact .object (by simp [testKeys]) (by simp [inert_entityJson])

theorem inert_pattern (pattern : Glob.Pattern Char) : Inert (patternJson pattern) := by
  refine .array (List.forall_mem_map.mpr fun e _ => ?_)
  cases e with
  | star => exact .string _
  | letter c => exact .object (by simp [testKeys]) (by simp [Inert.string])

theorem inert_scope (scope : Scope) : Inert scope.toJson := by
  cases scope with
  | isInAny uids =>
      have listed : Inert (.array (uids.map entityJson)) :=
        .array (List.forall_mem_map.mpr fun uid _ => inert_entityJson uid)
      exact .object (by simp [testKeys]) (by simp [Inert.string, listed])
  | isIsIn entityType uid =>
      have inner : Inert (.object [("entity", entityJson uid)]) :=
        .object (by simp [testKeys]) (by simp [inert_entityJson])
      exact .object (by simp [testKeys]) (by simp [Inert.string, inner])
  | _ => exact .object (by simp [testKeys]) (by simp [Inert.string, inert_entityJson])

theorem inert_nullable (text : Option String) :
    Inert (JsonText.Value.nullable .string text) := by
  cases text with
  | none => exact .null
  | some text => exact .string text

/-! ## What the walks find in an expression -/

theorem get_fieldsJson {fields : List (String × Expr)} {key : String} {found : Json}
    (h : (JsonText.Value.object (fieldsJson fields)).get key = some found) :
    ∃ e : Expr, found = e.toJson := by
  rw [JsonText.Value.get] at h
  induction fields with
  | nil => cases h
  | cons f rest ih =>
      obtain ⟨k, e⟩ := f
      rw [fieldsJson, List.lookup_cons] at h
      split at h
      · cases h
        exact ⟨e, rfl⟩
      · exact ih h

theorem isArgvTail_of_plain {e : Expr} {key : String} {found : Json}
    (plain : key ∉ formKeys) (h : e.toJson.get key = some found) :
      isArgvTail found = false := by
  obtain ⟨items, rfl⟩ := array_of_get h plain
  rfl

/-- A member of a record hides no test: its JSON has one key, and that names a form. -/
theorem unpinnedWalk_fieldsJson (fields : List (String × Expr)) :
    unpinnedWalk (.object (fieldsJson fields)) =
      ((fieldsJson fields).map fun m => unpinnedWalk m.2).foldr (· + ·) 0 := by
  apply unpinnedWalk_object
  · rw [likeRead]
    cases read : (JsonText.Value.object (fieldsJson fields)).get "like" with
    | none => rfl
    | some like =>
        obtain ⟨e, rfl⟩ := get_fieldsJson read
        cases there : e.toJson.get "left" with
        | none => simp [there]
        | some found => simp [there, isArgvTail_of_plain (by decide) there]
  · rw [equalitySides]
    cases read : (JsonText.Value.object (fieldsJson fields)).get "==" with
    | none => rfl
    | some equality =>
        obtain ⟨e, rfl⟩ := get_fieldsJson read
        have others :
            ([e.toJson.get "left", e.toJson.get "right"].filterMap id).any isArgvTail =
            false := by
          rw [List.any_eq_false]
          intro side mem
          obtain ⟨there, listed, same⟩ := List.mem_filterMap.mp mem
          simp only [List.mem_cons, List.not_mem_nil, or_false] at listed
          obtain rfl | rfl := listed
          · simp [isArgvTail_of_plain (by decide) same]
          · simp [isArgvTail_of_plain (by decide) same]
        simp only [Option.bind_eq_bind, Option.bind_some, others,
          Bool.false_eq_true, if_false]
  · rw [isArgvTail, isAttr]
    cases read : (JsonText.Value.object (fieldsJson fields)).get "." with
    | none => rfl
    | some access =>
        obtain ⟨e, rfl⟩ := get_fieldsJson read
        cases there : e.toJson.get "attr" with
        | none => simp [there]
        | some found =>
            obtain ⟨items, rfl⟩ := array_of_get there (by decide)
            simp [there, JsonText.Value.asString]

mutual

theorem unpinnedWalk_toJson (e : Expr) : unpinnedWalk e.toJson = e.unpinned := by
  cases e with
  | value literal =>
      rw [Expr.toJson, unpinnedWalk_form (by decide), (inert_literal literal).unpinned,
        Expr.unpinned]
  | var v =>
      rw [Expr.toJson, unpinnedWalk_form (by decide), unpinnedWalk_string, Expr.unpinned]
  | unary op arg =>
      have ih := unpinnedWalk_toJson arg
      rw [Expr.toJson, unpinnedWalk_form (by cases op <;> decide),
        unpinnedWalk_plain (by simp [List.lookup_cons]), Expr.unpinned]
      simp [ih]
  | binary op left right =>
      have ihl := unpinnedWalk_toJson left
      have ihr := unpinnedWalk_toJson right
      rw [Expr.toJson, Expr.unpinned]
      by_cases equality : op = .eq
      · subst equality
        rw [Binary.key, unpinnedWalk_equality, ihl, ihr]
        simp [isArgvTail]
      · rw [unpinnedWalk_form (by cases op <;> simp_all [Binary.key]),
          unpinnedWalk_plain (by simp [List.lookup_cons])]
        simp [equality, ihl, ihr]
  | getAttr left attr =>
      rw [Expr.toJson, unpinnedWalk_access, unpinnedWalk_toJson left, Expr.unpinned]
  | hasAttr left attr =>
      have ih := unpinnedWalk_toJson left
      rw [Expr.toJson, unpinnedWalk_form (by decide),
        unpinnedWalk_plain (by simp [List.lookup_cons]), Expr.unpinned]
      simp [ih, unpinnedWalk_string]
  | like left pattern =>
      have ih := unpinnedWalk_toJson left
      rw [Expr.toJson, unpinnedWalk_like, Expr.unpinned, pinsAToken_patternJson, ih,
        (inert_pattern pattern).unpinned]
      simp [isArgvTail]
  | is left entityType =>
      have ih := unpinnedWalk_toJson left
      rw [Expr.toJson, unpinnedWalk_form (by decide),
        unpinnedWalk_plain (by simp [List.lookup_cons]), Expr.unpinned]
      simp [ih, unpinnedWalk_string]
  | isIn left entityType ancestor =>
      have ihl := unpinnedWalk_toJson left
      have iha := unpinnedWalk_toJson ancestor
      rw [Expr.toJson, unpinnedWalk_form (by decide),
        unpinnedWalk_plain (by simp [List.lookup_cons]), Expr.unpinned]
      simp [ihl, iha, unpinnedWalk_string]
  | ite condition consequent alternative =>
      have ihc := unpinnedWalk_toJson condition
      have iht := unpinnedWalk_toJson consequent
      have ihe := unpinnedWalk_toJson alternative
      rw [Expr.toJson, unpinnedWalk_form (by decide),
        unpinnedWalk_plain (by simp [List.lookup_cons]), Expr.unpinned]
      simp [ihc, iht, ihe]
  | set elements =>
      rw [Expr.toJson, unpinnedWalk_form (by decide), unpinnedWalk_array,
        unpinnedWalk_elements elements, Expr.unpinned]
  | record fields =>
      rw [Expr.toJson, unpinnedWalk_form (by decide), unpinnedWalk_fieldsJson,
        unpinnedWalk_fields fields, Expr.unpinned]
  | call f args =>
      have named : f.name ∉ ["like", "==", "."] := by
        intro mem
        have forms : ["like", "==", "."] ⊆ formKeys := by decide
        exact f.plain (forms mem)
      rw [Expr.toJson, unpinnedWalk_form named, unpinnedWalk_array,
        unpinnedWalk_elements args, Expr.unpinned]

theorem unpinnedWalk_elements (es : List Expr) :
    ((elementsJson es).map unpinnedWalk).foldr (· + ·) 0 = Expr.unpinnedAll es := by
  cases es with
  | nil => rfl
  | cons e rest =>
      rw [elementsJson, List.map_cons, List.foldr_cons, unpinnedWalk_toJson e,
        unpinnedWalk_elements rest, Expr.unpinnedAll]

theorem unpinnedWalk_fields (fields : List (String × Expr)) :
    ((fieldsJson fields).map fun m => unpinnedWalk m.2).foldr (· + ·) 0 =
      Expr.unpinnedFields fields := by
  cases fields with
  | nil => rfl
  | cons f rest =>
      obtain ⟨key, e⟩ := f
      rw [fieldsJson, List.map_cons, List.foldr_cons, unpinnedWalk_toJson e,
        unpinnedWalk_fields rest, Expr.unpinnedFields]

end

/-! ## Path literals -/

theorem stringLiterals_eq (node : Json) : stringLiterals node =
    ((node.get "Value").bind JsonText.Value.asString).toList ++
      match (node.get "Set").bind JsonText.Value.asArray with
      | some items => (items.map stringLiterals).flatten
      | none => [] := by
  rw [stringLiterals]
  split
  · next items found =>
    rw [found, List.attach_map_val (f := stringLiterals)]
  · next found => rw [found]

mutual

theorem stringLiterals_toJson (e : Expr) : stringLiterals e.toJson = e.literals := by
  have other {key : String} {operands : Json} (value : "Value" ≠ key)
      (set : "Set" ≠ key) : stringLiterals (form key operands) = [] := by
    rw [stringLiterals_eq, get_form, get_form, if_neg value, if_neg set]
    rfl
  cases e with
  | value literal =>
      rw [Expr.toJson, stringLiterals_eq, get_form, get_form, if_pos rfl,
        if_neg (by decide)]
      cases literal <;> rfl
  | set elements =>
      rw [Expr.toJson, stringLiterals_eq, get_form, get_form,
        if_neg (by decide), if_pos rfl, Expr.literals]
      exact stringLiterals_elements elements
  | call f args => exact other (f.ne (by decide)) (f.ne (by decide))
  | unary op arg => exact other (by cases op <;> decide) (by cases op <;> decide)
  | binary op left right => exact other (by cases op <;> decide) (by cases op <;> decide)
  | _ => exact other (by decide) (by decide)

theorem stringLiterals_elements (es : List Expr) :
    ((elementsJson es).map stringLiterals).flatten = Expr.literalsAll es := by
  cases es with
  | nil => rfl
  | cons e rest =>
      rw [elementsJson, List.map_cons, List.flatten_cons, stringLiterals_toJson e,
        stringLiterals_elements rest, Expr.literalsAll]

end

/-- A record key is no operator: what stands under it has no two operands. -/
theorem memberLiterals_toJson (key : String) (e : Expr) :
    memberLiterals key e.toJson = [] := by
  rw [memberLiterals]
  split
  · cases left : e.toJson.get "left" with
    | none => rfl
    | some l =>
        cases right : e.toJson.get "right" with
        | none => rfl
        | some r =>
            obtain ⟨items, rfl⟩ := array_of_get left (by decide)
            rfl
  · rfl

theorem memberLiterals_membership {op : Binary} (h : op.isMembership = true)
    (left right : Expr) :
    memberLiterals op.key (.object [("left", left.toJson), ("right", right.toJson)]) =
      if left.isAttr "args" then right.literals.filter isPath else [] := by
  have named : op.key ∈ ["contains", "containsAny", "containsAll"] := by
    cases op <;> simp_all [Binary.isMembership, Binary.key]
  have onLeft :
      (JsonText.Value.object [("left", left.toJson), ("right", right.toJson)]).get "left" =
      some left.toJson := by simp [JsonText.Value.get]
  have onRight :
      (JsonText.Value.object [("left", left.toJson), ("right", right.toJson)]).get "right" =
      some right.toJson := by simp [JsonText.Value.get, List.lookup_cons]
  rw [memberLiterals, if_pos named, onLeft, onRight]
  simp only [isArgsAttr, isAttr_toJson, stringLiterals_toJson]
  rfl

mutual

theorem pathLiteralWalk_toJson (e : Expr) :
    pathLiteralWalk e.toJson = e.pathLiterals := by
  have other {key : String} (operands : Json)
      (h : key ∉ ["contains", "containsAny", "containsAll"]) :
      pathLiteralWalk (form key operands) = pathLiteralWalk operands := by
    rw [pathLiteralWalk_form, memberLiterals_of_ne h, List.nil_append]
  cases e with
  | value literal =>
      rw [Expr.toJson, other _ (by decide), (inert_literal literal).pathLiterals,
        Expr.pathLiterals]
  | var v =>
      rw [Expr.toJson, other _ (by decide), pathLiteralWalk_string, Expr.pathLiterals]
  | unary op arg =>
      have ih := pathLiteralWalk_toJson arg
      rw [Expr.toJson, other _ (by cases op <;> decide), pathLiteralWalk_plain (by simp),
        Expr.pathLiterals]
      simp [ih]
  | binary op left right =>
      have ihl := pathLiteralWalk_toJson left
      have ihr := pathLiteralWalk_toJson right
      rw [Expr.toJson, pathLiteralWalk_form, pathLiteralWalk_plain (by simp),
        Expr.pathLiterals]
      cases membership : op.isMembership with
      | true =>
          rw [memberLiterals_membership membership]
          simp [ihl, ihr]
      | false =>
          rw [memberLiterals_of_ne (by cases op
            <;> simp_all [Binary.isMembership, Binary.key])]
          simp [ihl, ihr]
  | getAttr left attr | hasAttr left attr | is left attr =>
      have ih := pathLiteralWalk_toJson left
      rw [Expr.toJson, other _ (by decide), pathLiteralWalk_plain (by simp),
        Expr.pathLiterals]
      simp [ih, pathLiteralWalk_string]
  | like left pattern =>
      have ih := pathLiteralWalk_toJson left
      rw [Expr.toJson, other _ (by decide), pathLiteralWalk_plain (by simp),
        Expr.pathLiterals]
      simp [ih, (inert_pattern pattern).pathLiterals]
  | isIn left entityType ancestor =>
      have ihl := pathLiteralWalk_toJson left
      have iha := pathLiteralWalk_toJson ancestor
      rw [Expr.toJson, other _ (by decide), pathLiteralWalk_plain (by simp),
        Expr.pathLiterals]
      simp [ihl, iha, pathLiteralWalk_string]
  | ite condition consequent alternative =>
      have ihc := pathLiteralWalk_toJson condition
      have iht := pathLiteralWalk_toJson consequent
      have ihe := pathLiteralWalk_toJson alternative
      rw [Expr.toJson, other _ (by decide), pathLiteralWalk_plain (by simp),
        Expr.pathLiterals]
      simp [ihc, iht, ihe]
  | set elements =>
      rw [Expr.toJson, other _ (by decide), pathLiteralWalk_array,
        pathLiteralWalk_elements elements, Expr.pathLiterals]
  | record fields =>
      rw [Expr.toJson, other _ (by decide), pathLiteralWalk_object,
        pathLiteralWalk_fields fields, Expr.pathLiterals]
  | call f args =>
      have named : f.name ∉ ["contains", "containsAny", "containsAll"] := by
        intro mem
        have forms : ["contains", "containsAny", "containsAll"] ⊆ formKeys := by decide
        exact f.plain (forms mem)
      rw [Expr.toJson, other _ named, pathLiteralWalk_array,
        pathLiteralWalk_elements args, Expr.pathLiterals]

theorem pathLiteralWalk_elements (es : List Expr) :
    ((elementsJson es).map pathLiteralWalk).flatten = Expr.pathLiteralsAll es := by
  cases es with
  | nil => rfl
  | cons e rest =>
      rw [elementsJson, List.map_cons, List.flatten_cons, pathLiteralWalk_toJson e,
        pathLiteralWalk_elements rest, Expr.pathLiteralsAll]

theorem pathLiteralWalk_fields (fields : List (String × Expr)) :
    ((fieldsJson fields).map fun m =>
      memberLiterals m.1 m.2 ++ pathLiteralWalk m.2).flatten =
      Expr.pathLiteralsFields fields := by
  cases fields with
  | nil => rfl
  | cons f rest =>
      obtain ⟨key, e⟩ := f
      rw [fieldsJson, List.map_cons, List.flatten_cons, memberLiterals_toJson,
        pathLiteralWalk_toJson e, pathLiteralWalk_fields rest, Expr.pathLiteralsFields,
        List.nil_append]

end

/-! ## The JSON of a policy -/

/-- What stands under an annotation has no members. -/
theorem get_annotationsJson {annotations : List (String × Option String)} {key k : String}
    {found : Json} (h : (annotationsJson annotations).get key = some found) :
      found.get k = none := by
  rw [annotationsJson, JsonText.Value.get] at h
  induction annotations with
  | nil => cases h
  | cons a rest ih =>
      obtain ⟨name, text⟩ := a
      rw [List.map_cons, List.lookup_cons] at h
      split at h
      · cases h
        cases text <;> rfl
      · exact ih h

theorem unpinnedWalk_annotations (annotations : List (String × Option String)) :
    unpinnedWalk (annotationsJson annotations) = 0 := by
  have like : likeRead (annotationsJson annotations) = none := by
    rw [likeRead]
    cases read : (annotationsJson annotations).get "like" with
    | none => rfl
    | some found => simp [get_annotationsJson read]
  have equality : equalitySides (annotationsJson annotations) = none := by
    rw [equalitySides]
    cases read : (annotationsJson annotations).get "==" with
    | none => rfl
    | some found => simp [get_annotationsJson read]
  have access : isArgvTail (annotationsJson annotations) = false := by
    rw [isArgvTail, isAttr]
    cases read : (annotationsJson annotations).get "." with
    | none => rfl
    | some found => simp [get_annotationsJson read]
  rw [annotationsJson] at like equality access
  rw [annotationsJson, unpinnedWalk_object like equality access, List.map_map]
  clear like equality access
  induction annotations with
  | nil => rfl
  | cons a rest ih =>
      have here := (inert_nullable a.2).unpinned
      simp only [List.map_cons, List.foldr_cons, Function.comp, here,
        Nat.zero_add] at ih ⊢
      exact ih

theorem pathLiteralWalk_annotations (annotations : List (String × Option String)) :
    pathLiteralWalk (annotationsJson annotations) = [] := by
  have here (key : String) (text : Option String) :
      memberLiterals key (JsonText.Value.nullable .string text) ++
        pathLiteralWalk (JsonText.Value.nullable .string text) = [] := by
    rw [memberLiterals, (inert_nullable text).pathLiterals]
    cases text <;> split <;> simp [JsonText.Value.nullable, JsonText.Value.get]
  rw [annotationsJson, pathLiteralWalk_object, List.map_map]
  induction annotations with
  | nil => rfl
  | cons a rest ih =>
      simp only [List.map_cons, List.flatten_cons, Function.comp, here,
        List.nil_append] at ih ⊢
      exact ih

theorem unpinnedWalk_condition (c : Condition) :
    unpinnedWalk c.toJson = c.body.unpinned := by
  rw [Condition.toJson, unpinnedWalk_plain (by simp [List.lookup_cons])]
  simp [unpinnedWalk_string, unpinnedWalk_toJson]

theorem pathLiteralWalk_condition (c : Condition) :
    pathLiteralWalk c.toJson = c.body.pathLiterals := by
  rw [Condition.toJson, pathLiteralWalk_plain (by simp)]
  simp [pathLiteralWalk_string, pathLiteralWalk_toJson]

/-- The reads that pin no token are those of the conditions. -/
theorem unpinnedArgvTailReads_toJson (p : Policy) :
    unpinnedArgvTailReads p.toJson =
      (p.conditions.map fun c => c.body.unpinned).foldr (· + ·) 0 := by
  have conditions : ((p.conditions.map Condition.toJson).map unpinnedWalk) =
      p.conditions.map fun c => c.body.unpinned := by
    rw [List.map_map]
    exact List.map_congr_left fun c _ => unpinnedWalk_condition c
  rw [unpinnedArgvTailReads, Policy.toJson, unpinnedWalk_plain]
  · split
    · simp [unpinnedWalk_string, (inert_scope _).unpinned, unpinnedWalk_array, conditions]
    · simp [unpinnedWalk_string, (inert_scope _).unpinned, unpinnedWalk_array, conditions,
        unpinnedWalk_annotations]
  · split <;> simp [List.lookup_cons]

theorem argsMembershipPathLiterals_toJson (p : Policy) :
    argsMembershipPathLiterals p.toJson = p.conditions.flatMap fun c =>
      c.body.pathLiterals := by
  have conditions : ((p.conditions.map Condition.toJson).map pathLiteralWalk) =
      p.conditions.map fun c => c.body.pathLiterals := by
    rw [List.map_map]
    exact List.map_congr_left fun c _ => pathLiteralWalk_condition c
  rw [argsMembershipPathLiterals, Policy.toJson, pathLiteralWalk_plain]
  · split
    · simp [pathLiteralWalk_string, (inert_scope _).pathLiterals,
        pathLiteralWalk_array, conditions, List.flatMap]
    · simp [pathLiteralWalk_string, (inert_scope _).pathLiterals,
        pathLiteralWalk_array, conditions, pathLiteralWalk_annotations, List.flatMap]
  · split <;> simp

end NonoCedarPdp.Cedar.Est
