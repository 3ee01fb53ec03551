import NonoCedarPdp.LintReading

/-!
The lint of path literals in membership tests of `resource.args`. It reports the path
literals on the right of an `args`, at any nesting; a test with `resource.args` on the
right alone goes unreported, unless its literals are named on the other side of another
test.
-/
namespace NonoCedarPdp.Cedar.Est

/-! ## What is reported -/

theorem mem_pathLiteralsAll {es : List Expr} {text : String} :
    text ∈ Expr.pathLiteralsAll es ↔ ∃ e ∈ es, text ∈ e.pathLiterals := by
  induction es with
  | nil => simp [Expr.pathLiteralsAll]
  | cons e rest ih => simp [Expr.pathLiteralsAll, ih]

theorem mem_pathLiteralsFields {fields : List (String × Expr)} {text : String} :
    text ∈ Expr.pathLiteralsFields fields ↔
      ∃ e ∈ fields.map Prod.snd, text ∈ e.pathLiterals := by
  induction fields with
  | nil => simp [Expr.pathLiteralsFields]
  | cons f rest ih => simp [Expr.pathLiteralsFields, ih]

/-- A membership test with an `args` on the left and the text among the literals on the
right. -/
structure NamesOnRight (text : String) (op : Binary) (left right : Expr) : Prop where
  membership : op.isMembership = true
  args : left.isAttr "args" = true
  literal : text ∈ right.literals

theorem mem_pathLiterals_step {e : Expr} {text : String} : text ∈ e.pathLiterals ↔
    (∃ op left right, e = .binary op left right ∧ NamesOnRight text op left right ∧
      isPath text = true) ∨ ∃ child ∈ e.children, text ∈ child.pathLiterals := by
  cases e with
  | binary op left right =>
      have own : text ∈
          (if op.isMembership ∧ left.isAttr "args" then right.literals.filter isPath
            else []) ↔ NamesOnRight text op left right ∧ isPath text = true := by
        by_cases test : op.isMembership = true ∧ left.isAttr "args" = true
        · rw [if_pos test, List.mem_filter]
          exact and_congr_left'
            ⟨fun literal => ⟨test.1, test.2, literal⟩, NamesOnRight.literal⟩
        · rw [if_neg test]
          exact iff_of_false List.not_mem_nil fun named =>
            test ⟨named.1.membership, named.1.args⟩
      rw [Expr.pathLiterals, List.mem_append, own]
      simp [Expr.children]
  | set elements | call _ elements =>
      rw [Expr.pathLiterals, mem_pathLiteralsAll]
      simp [Expr.children]
  | record fields =>
      rw [Expr.pathLiterals, mem_pathLiteralsFields]
      simp [Expr.children]
  | _ => simp [Expr.pathLiterals, Expr.children]

/-- The literals read off an expression are the path literals on the right of an `args`,
wherever the test stands. -/
theorem mem_pathLiterals_iff {e : Expr} {text : String} : text ∈ e.pathLiterals ↔
    ∃ op left right, Within (.binary op left right) e ∧ NamesOnRight text op left right ∧
      isPath text = true := by
  induction e using Expr.induction with
  | step e ih =>
      rw [mem_pathLiterals_step]
      constructor
      · intro found
        obtain ⟨op, left, right, rfl, named⟩ | ⟨child, mem, inside⟩ := found
        · exact ⟨op, left, right, .here, named⟩
        · obtain ⟨op, left, right, within, named⟩ := (ih child mem).mp inside
          exact ⟨op, left, right, .deeper mem within, named⟩
      · intro found
        obtain ⟨op, left, right, within, named⟩ := found
        cases within with
        | here => exact .inl ⟨op, left, right, rfl, named⟩
        | deeper mem inside =>
            exact .inr ⟨_, mem, (ih _ mem).mpr ⟨op, left, right, inside, named⟩⟩

def resourceArgs : Expr := .getAttr (.var .resource) "args"

/-- A string literal, or a set of string literals, and the texts it holds. -/
inductive StringOperand : Expr → List String → Prop
  | literal (text : String) : StringOperand (.value (.string text)) [text]
  | set (texts : List String) :
      StringOperand (.set (texts.map fun text => .value (.string text))) texts

theorem StringOperand.mem_literals {e : Expr} {texts : List String}
    (h : StringOperand e texts) {text : String} : text ∈ e.literals ↔ text ∈ texts := by
  cases h with
  | literal literal => rw [Expr.literals]
  | set =>
      rw [Expr.literals]
      induction texts with
      | nil => simp [Expr.literalsAll]
      | cons first rest ih => simp [Expr.literalsAll, Expr.literals, ih]

section Lints
variable {β : Type} {toJson : Cedar.Policy β → Except String Json} {set : PolicySet β}
  {p : Cedar.Policy β} {est : Policy}

/-- The lints that name a policy are its own. -/
theorem mem_lintArgMatching_iff (mem : p ∈ set.policies) {lint : Lint}
    (named : lint.policy = p.id) :
    lint ∈ lintArgMatching toJson set ↔ lint ∈ lintPolicy toJson p := by
  rw [lintArgMatching, List.mem_flatMap]
  constructor
  · intro found
    obtain ⟨q, inSet, own⟩ := found
    have owner : lint.policy = q.id := by
      rw [lintPolicy] at own
      split at own
      · cases own
      · rw [List.mem_append, List.mem_map] at own
        obtain unpinned | ⟨literal, -, rfl⟩ := own
        · split at unpinned
          · rw [List.mem_singleton.mp unpinned, Lint.policy]
          · cases unpinned
        · rfl
    have same : q = p :=
      List.inj_on_of_nodup_map set.distinct inSet mem (owner.symm.trans named)
    exact same ▸ own
  · exact fun own => ⟨p, mem, own⟩

theorem pathLiteral_reported_iff (mem : p ∈ set.policies)
    (json : toJson p = .ok est.toJson) {text : String} :
      .argsPathLiteral p.id text ∈ lintArgMatching toJson set ↔
      ∃ c ∈ est.conditions, ∃ op left right, Within (.binary op left right) c.body ∧
        NamesOnRight text op left right ∧ isPath text = true := by
  rw [mem_lintArgMatching_iff mem rfl, lintPolicy, json]
  simp only [← mem_pathLiterals_iff, ← List.mem_flatMap,
    ← argsMembershipPathLiterals_toJson, List.mem_append, List.mem_map,
    Lint.argsPathLiteral.injEq, true_and, exists_eq_right]
  constructor
  · intro reported
    obtain unpinned | literal := reported
    · split at unpinned
      · cases List.mem_singleton.mp unpinned
      · cases unpinned
    · exact literal
  · exact .inr

/-- A membership test between `resource.args` and string literals, on either side. -/
def ArgsTest (op : Binary) (left right : Expr) (texts : List String) : Prop :=
  op.isMembership = true ∧
    (left = resourceArgs ∧ StringOperand right texts ∨
      right = resourceArgs ∧ StringOperand left texts)

/-- Every path literal that a policy tests against `resource.args`, on whichever side, is
reported exactly where each one in front of a `resource.args` stands behind an `args`
too. -/
theorem path_literals_reported_iff {β : Type}
    (toJson : Cedar.Policy β → Except String Json) (set : PolicySet β)
    (p : Cedar.Policy β) (est : Policy) (mem : p ∈ set.policies)
    (json : toJson p = .ok est.toJson) :
    (∀ c ∈ est.conditions, ∀ op left right texts, Within (.binary op left right) c.body →
        ArgsTest op left right texts → ∀ text ∈ texts, isPath text = true →
          .argsPathLiteral p.id text ∈ lintArgMatching toJson set) ↔
      ∀ c ∈ est.conditions, ∀ op left texts,
        Within (.binary op left resourceArgs) c.body →
        op.isMembership = true → StringOperand left texts →
        ∀ text ∈ texts, isPath text = true →
          ∃ c' ∈ est.conditions, ∃ op' left' right',
            Within (.binary op' left' right') c'.body ∧
            NamesOnRight text op' left' right' := by
  simp only [pathLiteral_reported_iff mem json]
  constructor
  · intro all c inPolicy op left texts within membership literals text listed path
    obtain ⟨c', inPolicy', op', left', right', within', named, -⟩ :=
      all c inPolicy op left resourceArgs texts within
        ⟨membership, .inr ⟨rfl, literals⟩⟩ text listed path
    exact ⟨c', inPolicy', op', left', right', within', named⟩
  · intro mirrored c inPolicy op left right texts within test text listed path
    obtain ⟨membership, ⟨rfl, literals⟩ | ⟨rfl, literals⟩⟩ := test
    · have args : resourceArgs.isAttr "args" = true := rfl
      exact ⟨c, inPolicy, op, resourceArgs, right, within,
        ⟨membership, args, literals.mem_literals.mpr listed⟩, path⟩
    · obtain ⟨c', inPolicy', op', left', right', within', named⟩ :=
        mirrored c inPolicy op left texts within membership literals text listed path
      exact ⟨c', inPolicy', op', left', right', within', named, path⟩

end Lints

/-! ## One policy -/

/-- A crate whose policies are their JSON form. -/
def bodyJson (p : Cedar.Policy Policy) : Except String Json := .ok p.body.toJson

def onePolicy (p : Cedar.Policy Policy) : PolicySet Policy :=
  ⟨[p], List.nodup_singleton _⟩

/-- `forbid (principal, action == Nono::Action::"launchCommand", resource)
when { body };` -/
def shellForbid (body : Expr) : Cedar.Policy Policy where
  id := "any-shim"
  effect := .forbid
  annotations := [("id", "any-shim")]
  body :=
    { effect := .forbid
      principal := .all
      action := .eq ⟨"Nono::Action", "launchCommand"⟩
      resource := .all
      conditions := [⟨false, body⟩]
      annotations := [("id", some "any-shim")] }

/-- `["/bin/sh", "--force"].containsAny(resource.args)` -/
def mirroredTest : Expr :=
  .binary .containsAny
    (.set (["/bin/sh", "--force"].map fun text => .value (.string text))) resourceArgs

/-- `resource.args.containsAny(["/bin/sh", "--force"])` -/
def plainTest : Expr :=
  .binary .containsAny resourceArgs
    (.set (["/bin/sh", "--force"].map fun text => .value (.string text)))

theorem mirrored_test_unreported :
    ArgsTest .containsAny
      (.set (["/bin/sh", "--force"].map fun text => .value (.string text)))
        resourceArgs ["/bin/sh", "--force"] ∧
      Within mirroredTest mirroredTest ∧ isPath "/bin/sh" = true ∧
      lintArgMatching bodyJson (onePolicy (shellForbid mirroredTest)) = [] := by
  have literals :
      argsMembershipPathLiterals (shellForbid mirroredTest).body.toJson = [] := by
    rw [argsMembershipPathLiterals_toJson]
    rfl
  refine ⟨⟨rfl, .inr ⟨rfl, .set _⟩⟩, .here, by decide, ?_⟩
  simp only [lintArgMatching, onePolicy, List.flatMap_cons, List.flatMap_nil,
    List.append_nil, lintPolicy, bodyJson, literals, List.map_nil]
  rfl

theorem not_within_resourceArgs {op : Binary} {left right : Expr} :
    ¬ Within (.binary op left right) resourceArgs := by
  intro within
  obtain same | ⟨child, mem, inside⟩ := within_iff.mp within
  · cases same
  · obtain rfl := List.mem_singleton.mp mem
    obtain same | ⟨child, mem, -⟩ := within_iff.mp inside
    · cases same
    · cases mem

theorem StringOperand.not_within {e : Expr} {texts : List String}
    (h : StringOperand e texts) {op : Binary} {left right : Expr} :
      ¬ Within (.binary op left right) e := by
  intro within
  cases h with
  | literal text =>
      obtain same | ⟨child, mem, -⟩ := within_iff.mp within
      · cases same
      · cases mem
  | set =>
      obtain same | ⟨child, mem, inside⟩ := within_iff.mp within
      · cases same
      · obtain ⟨text, -, rfl⟩ := List.mem_map.mp mem
        obtain same | ⟨child, mem, -⟩ := within_iff.mp inside
        · cases same
        · cases mem

theorem path_literals_reported_plain :
    .argsPathLiteral "any-shim" "/bin/sh" ∈
      lintArgMatching bodyJson (onePolicy (shellForbid plainTest)) := by
  have unmirrored : ∀ c ∈ (shellForbid plainTest).body.conditions, ∀ op left texts,
      Within (.binary op left resourceArgs) c.body → op.isMembership = true →
      StringOperand left texts →
        ∀ text ∈ texts, isPath text = true →
          ∃ c' ∈ (shellForbid plainTest).body.conditions, ∃ op' left' right',
            Within (.binary op' left' right') c'.body ∧
            NamesOnRight text op' left' right' := by
    intro c inPolicy op left texts within membership literals
    obtain rfl := List.mem_singleton.mp inPolicy
    obtain same | ⟨child, mem, inside⟩ := within_iff.mp within
    · cases same
    · have operands : child = resourceArgs ∨
          child = .set
            (["/bin/sh", "--force"].map fun text => .value (.string text)) := by
        simpa [plainTest, shellForbid, Expr.children] using mem
      obtain rfl | rfl := operands
      · exact absurd inside not_within_resourceArgs
      · exact absurd inside (StringOperand.set _).not_within
  have reported :=
    (path_literals_reported_iff bodyJson (onePolicy (shellForbid plainTest)) (shellForbid
      plainTest) (shellForbid plainTest).body List.mem_cons_self rfl).mpr unmirrored
  exact reported _ List.mem_cons_self _ _ _ _ .here
    ⟨rfl, .inl ⟨rfl, .set _⟩⟩ "/bin/sh" (by simp) (by decide)

end NonoCedarPdp.Cedar.Est
