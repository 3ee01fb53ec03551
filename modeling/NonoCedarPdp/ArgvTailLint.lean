import NonoCedarPdp.ArgsLint
import NonoCedarPdp.EstEvaluation

/-!
The lint of `argv_tail` tests in a permit. It accepts a test that pins a token wherever
the test stands, under a negation too. So an unlinted permit names what it approves only
where its tests widen it: where answering every test with false either satisfies nothing
or satisfies what every `argv_tail` satisfies.
-/
namespace NonoCedarPdp.Cedar.Est

def resourceTail : Expr := .getAttr (.var .resource) "argv_tail"

/-- A combination of tests on `resource.argv_tail` and of conditions that do not read
it. -/
inductive Combination : Expr → Prop
  | other {e : Expr} (free : TailFree e) : Combination e
  | compared {op : Binary} {e : Expr} (test : op = .eq ∨ op = .notEq)
      (free : TailFree e) : Combination (.binary op resourceTail e)
  | comparedWith {op : Binary} {e : Expr} (test : op = .eq ∨ op = .notEq)
      (free : TailFree e) : Combination (.binary op e resourceTail)
  | like (pattern : Glob.Pattern Char) : Combination (.like resourceTail pattern)
  | not {e : Expr} (inner : Combination e) : Combination (.unary .not e)
  | and {a b : Expr} (left : Combination a) (right : Combination b) :
      Combination (.binary .and a b)
  | or {a b : Expr} (left : Combination a) (right : Combination b) :
      Combination (.binary .or a b)
  | ite {c a b : Expr} (condition : Combination c) (consequent : Combination a)
      (alternative : Combination b) : Combination (.ite c a b)

/-! ## Tests -/

inductive Test
  | compare (other : Expr)
  | like (pattern : Glob.Pattern Char)

/-- The tests on `argv_tail` that a combination is made of. -/
def Expr.tests : Expr → List Test
  | .unary _ arg => arg.tests
  | .binary op left right =>
      if op = .eq ∧ left.isAttr "argv_tail" then [.compare right]
      else if op = .eq ∧ right.isAttr "argv_tail" then [.compare left]
      else left.tests ++ right.tests
  | .like left pattern => if left.isAttr "argv_tail" then [.like pattern] else left.tests
  | .ite condition consequent alternative =>
      condition.tests ++ (consequent.tests ++ alternative.tests)
  | _ => []

/-- What a test names: the literal it compares with, the word of a pattern without a star,
or everything behind the text in front of the first star, which ends in a space. -/
def Test.Names (tail : String) : Test → Prop
  | .compare other => other = .value (.string tail)
  | .like pattern =>
      if Glob.starFree pattern then tail.toList = Glob.stem pattern
      else Glob.stem pattern <+: tail.toList ∧ (Glob.stem pattern).getLast? = some ' '

/-- A literal or a pattern of the policy names the string. -/
def Policy.Names (p : Policy) (tail : String) : Prop :=
  ∃ c ∈ p.conditions, ∃ test ∈ c.body.tests, test.Names tail

section Evaluation
variable {X : Type} (env : Env X) (tail : String)

def Test.Matches : Test → Prop
  | .compare other => evaluate env tail other = .ok (.string tail)
  | .like pattern => Glob.accepts pattern tail.toList = true

/-- What an expression comes to when every test on `argv_tail` is answered with false. -/
def unmatched : Expr → Except String (Value X)
  | .unary .not arg => do
      let b ← (← unmatched arg).asBool
      .ok (.bool !b)
  | .binary .and left right => do
      if ← (← unmatched left).asBool then .ok (.bool (← (← unmatched right).asBool))
      else .ok (.bool false)
  | .binary .or left right => do
      if ← (← unmatched left).asBool then .ok (.bool true)
      else .ok (.bool (← (← unmatched right).asBool))
  | .binary .eq left right =>
      if left.isAttr "argv_tail" then do
        let _ ← evaluate env tail right
        .ok (.bool false)
      else if right.isAttr "argv_tail" then do
        let _ ← evaluate env tail left
        .ok (.bool false)
      else evaluate env tail (.binary .eq left right)
  | .like left pattern =>
      if left.isAttr "argv_tail" then .ok (.bool false)
      else evaluate env tail (.like left pattern)
  | .ite condition consequent alternative => do
      if ← (← unmatched condition).asBool then unmatched consequent
        else unmatched alternative
  | e => evaluate env tail e

/-- The policy is satisfied with every test on `argv_tail` answered with false. -/
def Policy.SatisfiedUnmatched (p : Policy) : Prop :=
  ∀ e ∈ p.exprs, unmatched env tail e = .ok (.bool true)

/-- What an expression other than a string literal comes to, where the policy compares
`argv_tail` with it. -/
def Policy.Computes (p : Policy) : Prop :=
  ∃ c ∈ p.conditions, ∃ other, .compare other ∈ c.body.tests ∧
    (∀ text, other ≠ .value (.string text)) ∧ evaluate env tail other = .ok (.string tail)

end Evaluation

section Lemmas
variable {X : Type} {env : Env X} {tail tail' : String}

theorem TailFree.not_isAttr {e : Expr} (free : TailFree e) :
    e.isAttr "argv_tail" = false := free e .here

theorem TailFree.tests_eq {e : Expr} (free : TailFree e) : e.tests = [] := by
  induction e using Expr.induction with
  | step e ih =>
      have below {child : Expr} (mem : child ∈ e.children) : child.tests = [] :=
        ih child mem (free.child mem)
      have unread {child : Expr} (mem : child ∈ e.children) :
          child.isAttr "argv_tail" = false :=
        (free.child mem).not_isAttr
      cases e with
      | unary op arg => rw [Expr.tests, below List.mem_cons_self]
      | binary op left right =>
          have onLeft : left ∈ (Expr.binary op left right).children := by
            simp [Expr.children]
          have onRight : right ∈ (Expr.binary op left right).children := by
            simp [Expr.children]
          simp [Expr.tests, unread onLeft, unread onRight, below onLeft, below onRight]
      | like left pattern =>
          have onLeft : left ∈ (Expr.like left pattern).children := by
            simp [Expr.children]
          simp [Expr.tests, unread onLeft, below onLeft]
      | ite condition consequent alternative =>
          simp [Expr.tests, @below condition (by simp [Expr.children]),
            @below consequent (by simp [Expr.children]),
            @below alternative (by simp [Expr.children])]
      | _ => rfl

theorem unpinnedAll_eq_zero {es : List Expr} (h : ∀ e ∈ es, e.unpinned = 0) :
    Expr.unpinnedAll es = 0 := by
  induction es with
  | nil => rw [Expr.unpinnedAll]
  | cons e rest ih =>
      rw [Expr.unpinnedAll, h e List.mem_cons_self,
        ih fun e' mem => h e' (List.mem_cons_of_mem e mem)]

theorem unpinnedFields_eq_zero {fields : List (String × Expr)}
    (h : ∀ e ∈ fields.map Prod.snd, e.unpinned = 0) : Expr.unpinnedFields fields = 0 := by
  induction fields with
  | nil => rw [Expr.unpinnedFields]
  | cons f rest ih =>
      obtain ⟨key, e⟩ := f
      rw [Expr.unpinnedFields, h e List.mem_cons_self,
        ih fun e' mem => h e' (List.mem_cons_of_mem e mem)]

theorem TailFree.unpinned_eq {e : Expr} (free : TailFree e) : e.unpinned = 0 := by
  induction e using Expr.induction with
  | step e ih =>
      have below {child : Expr} (mem : child ∈ e.children) : child.unpinned = 0 :=
        ih child mem (free.child mem)
      cases e with
      | value literal | var v => rw [Expr.unpinned]
      | unary op arg | hasAttr arg attr | is arg attr =>
          rw [Expr.unpinned, below List.mem_cons_self]
      | binary op left right =>
          simp [Expr.unpinned, @below left (by simp [Expr.children]),
            @below right (by simp [Expr.children])]
      | getAttr left attr =>
          have other : attr ≠ "argv_tail" := by
            rintro rfl
            exact absurd free.not_isAttr (by simp [Expr.isAttr])
          rw [Expr.unpinned, if_neg other, below List.mem_cons_self]
      | like left pattern =>
          have onLeft : left ∈ (Expr.like left pattern).children := List.mem_cons_self
          have unread := (free.child onLeft).not_isAttr
          rw [Expr.unpinned, unread, if_neg Bool.false_ne_true, below List.mem_cons_self]
      | isIn left entityType ancestor =>
          rw [Expr.unpinned, @below left (by simp [Expr.children]),
            @below ancestor (by simp [Expr.children])]
      | ite condition consequent alternative =>
          rw [Expr.unpinned, @below condition (by simp [Expr.children]),
            @below consequent (by simp [Expr.children]),
            @below alternative (by simp [Expr.children])]
      | set elements | call f elements =>
          rw [Expr.unpinned]
          exact unpinnedAll_eq_zero fun e mem => below mem
      | record fields =>
          rw [Expr.unpinned]
          exact unpinnedFields_eq_zero fun e mem => below mem

theorem TailFree.unmatched_eq {e : Expr} (free : TailFree e) :
    unmatched env tail e = evaluate env tail e := by
  induction e using Expr.induction with
  | step e ih =>
      have below {child : Expr} (mem : child ∈ e.children) :
          unmatched env tail child = evaluate env tail child :=
            ih child mem (free.child mem)
      have unread {child : Expr} (mem : child ∈ e.children) :
          child.isAttr "argv_tail" = false :=
        (free.child mem).not_isAttr
      cases e with
      | unary op arg =>
          have arg_same := @below arg (by simp [Expr.children])
          cases op <;> simp only [unmatched, evaluate, arg_same]
      | binary op left right =>
          have onLeft : left ∈ (Expr.binary op left right).children := by
            simp [Expr.children]
          have onRight : right ∈ (Expr.binary op left right).children := by
            simp [Expr.children]
          have left_same := below onLeft
          have right_same := below onRight
          cases op <;> simp only [unmatched, evaluate, left_same, right_same,
            unread onLeft, unread onRight, Bool.false_eq_true, if_false]
      | like left pattern =>
          have onLeft : left ∈ (Expr.like left pattern).children := by
            simp [Expr.children]
          simp only [unmatched, unread onLeft, Bool.false_eq_true, if_false]
      | ite condition consequent alternative =>
          have condition_same := @below condition (by simp [Expr.children])
          have consequent_same := @below consequent (by simp [Expr.children])
          have alternative_same := @below alternative (by simp [Expr.children])
          simp only [unmatched, evaluate, condition_same, consequent_same,
            alternative_same]
      | _ => rw [unmatched] <;> simp

/-! ## A combination by its tests -/

@[simp] theorem isAttr_resourceTail : resourceTail.isAttr "argv_tail" = true := rfl

theorem evaluate_resourceTail : evaluate env tail resourceTail = .ok (.string tail) := by
  simp [resourceTail, evaluate, Env.var, Env.getAttr, Env.attrsOf, Bind.bind, Except.bind]

/-- Where no test matches, an unlinted combination comes to what it does when every test
is answered with false. -/
theorem Combination.evaluate_eq {e : Expr} (shape : Combination e)
    (unlinted : e.unpinned = 0) (apart : ∀ test ∈ e.tests, ¬ test.Matches env tail) :
      evaluate env tail e = unmatched env tail e := by
  induction shape with
  | other free => exact free.unmatched_eq.symm
  | @compared op e test free =>
      obtain rfl | rfl := test
      · have differs := apart (.compare e) (by simp [Expr.tests])
        simp only [evaluate, evaluate_resourceTail, unmatched]
        simp only [isAttr_resourceTail, if_true]
        cases value : evaluate env tail e with
        | error text => rfl
        | ok v =>
            have unequal : env.operators.equal (.string tail) v = false := by
              rw [← Bool.not_eq_true, env.operators.equal_string]
              rintro rfl
              exact differs value
            simp [Bind.bind, Except.bind, unequal]
      · simp [Expr.unpinned, resourceTail] at unlinted
  | @comparedWith op e test free =>
      obtain rfl | rfl := test
      · have differs := apart (.compare e)
          (by simp [Expr.tests, free.not_isAttr])
        simp only [evaluate, evaluate_resourceTail, unmatched]
        simp only [free.not_isAttr, isAttr_resourceTail, if_true,
          Bool.false_eq_true, if_false]
        cases value : evaluate env tail e with
        | error text => rfl
        | ok v =>
            have unequal : env.operators.equal v (.string tail) = false := by
              rw [← Bool.not_eq_true, env.operators.string_equal]
              rintro rfl
              exact differs value
            simp [Bind.bind, Except.bind, unequal]
      · simp [Expr.unpinned, resourceTail] at unlinted
  | like pattern =>
      have misses := apart (.like pattern) (by simp [Expr.tests])
      have refused : Glob.accepts pattern tail.toList = false := by
        simpa [Test.Matches] using misses
      simp only [evaluate, evaluate_resourceTail, unmatched]
      simp [Bind.bind, Except.bind, refused]
  | not inner ih =>
      have inner_same := ih (by simpa [Expr.unpinned] using unlinted)
        fun test mem => apart test (by simpa [Expr.tests] using mem)
      simp only [evaluate, unmatched, inner_same]
  | and left right ihl ihr | or left right ihl ihr =>
      obtain ⟨quietLeft, quietRight⟩ : _ ∧ _ := by simpa [Expr.unpinned] using unlinted
      have left_same :=
        ihl quietLeft fun test mem => apart test (by simp [Expr.tests, mem])
      have right_same :=
        ihr quietRight fun test mem => apart test (by simp [Expr.tests, mem])
      simp only [evaluate, unmatched, left_same, right_same]
  | ite condition consequent alternative ihc iha ihb =>
      obtain ⟨quiet, quietThen, quietElse⟩ : _ ∧ _ ∧ _ := by
        simpa [Expr.unpinned] using unlinted
      have condition_same :=
        ihc quiet fun test mem => apart test (by simp [Expr.tests, mem])
      have consequent_same :=
        iha quietThen fun test mem => apart test (by simp [Expr.tests, mem])
      have alternative_same :=
        ihb quietElse fun test mem => apart test (by simp [Expr.tests, mem])
      simp only [evaluate, unmatched, condition_same, consequent_same, alternative_same]

theorem Combination.unmatched_any {e : Expr} (shape : Combination e)
    (unlinted : e.unpinned = 0) (tail tail' : String) :
      unmatched env tail e = unmatched env tail' e := by
  induction shape with
  | other free => rw [free.unmatched_eq, free.unmatched_eq, free.evaluate_eq tail tail']
  | @compared op e test free =>
      obtain rfl | rfl := test
      · simp only [unmatched, free.evaluate_eq tail tail', isAttr_resourceTail, if_true]
      · simp [Expr.unpinned, resourceTail] at unlinted
  | @comparedWith op e test free =>
      obtain rfl | rfl := test
      · simp only [unmatched, free.evaluate_eq tail tail', free.not_isAttr,
          isAttr_resourceTail, if_true, Bool.false_eq_true, if_false]
      · simp [Expr.unpinned, resourceTail] at unlinted
  | like pattern => simp only [unmatched, isAttr_resourceTail, if_true]
  | not inner ih =>
      have inner_same := ih (by simpa [Expr.unpinned] using unlinted)
      simp only [unmatched, inner_same]
  | and left right ihl ihr | or left right ihl ihr =>
      obtain ⟨quietLeft, quietRight⟩ : _ ∧ _ := by simpa [Expr.unpinned] using unlinted
      simp only [unmatched, ihl quietLeft, ihr quietRight]
  | ite condition consequent alternative ihc iha ihb =>
      obtain ⟨quiet, quietThen, quietElse⟩ : _ ∧ _ ∧ _ := by
        simpa [Expr.unpinned] using unlinted
      simp only [unmatched, ihc quiet, iha quietThen, ihb quietElse]

/-- The patterns of an unlinted expression pin a token. -/
theorem pins_of_unpinned {e : Expr} (unlinted : e.unpinned = 0)
    {pattern : Glob.Pattern Char} (mem : .like pattern ∈ e.tests) :
      pins pattern = true := by
  induction e using Expr.induction with
  | step e ih =>
      cases e with
      | unary op arg =>
          exact ih arg (by simp [Expr.children]) (by simpa [Expr.unpinned] using unlinted)
            (by simpa [Expr.tests] using mem)
      | binary op left right =>
          rw [Expr.unpinned] at unlinted
          rw [Expr.tests] at mem
          by_cases onLeft : op = .eq ∧ left.isAttr "argv_tail" = true
          · rw [if_pos onLeft] at mem
            cases List.mem_singleton.mp mem
          · by_cases onRight : op = .eq ∧ right.isAttr "argv_tail" = true
            · rw [if_neg onLeft, if_pos onRight] at mem
              cases List.mem_singleton.mp mem
            · rw [if_neg onLeft, if_neg onRight] at unlinted mem
              obtain ⟨quietLeft, quietRight⟩ := Nat.add_eq_zero_iff.mp unlinted
              obtain inLeft | inRight := List.mem_append.mp mem
              · exact ih left (by simp [Expr.children]) quietLeft inLeft
              · exact ih right (by simp [Expr.children]) quietRight inRight
      | like left other =>
          rw [Expr.unpinned] at unlinted
          rw [Expr.tests] at mem
          by_cases read : left.isAttr "argv_tail" = true
          · rw [if_pos read] at unlinted mem
            cases List.mem_singleton.mp mem
            by_contra loose
            rw [if_neg loose] at unlinted
            cases unlinted
          · rw [if_neg read] at unlinted mem
            exact ih left (by simp [Expr.children]) unlinted mem
      | ite condition consequent alternative =>
          obtain ⟨quiet, quietThen, quietElse⟩ : _ ∧ _ ∧ _ := by
            simpa [Expr.unpinned] using unlinted
          simp only [Expr.tests, List.mem_append] at mem
          obtain inCondition | inThen | inElse := mem
          · exact ih condition (by simp [Expr.children]) quiet inCondition
          · exact ih consequent (by simp [Expr.children]) quietThen inThen
          · exact ih alternative (by simp [Expr.children]) quietElse inElse
      | _ => cases mem

theorem Combination.free_of_compare {e : Expr} (shape : Combination e) {other : Expr}
    (mem : .compare other ∈ e.tests) : TailFree other := by
  induction shape with
  | other free =>
      rw [free.tests_eq] at mem
      cases mem
  | @compared op e test free =>
      obtain rfl | rfl := test
      · simp only [Expr.tests, isAttr_resourceTail, and_self, if_true, List.mem_singleton,
          Test.compare.injEq] at mem
        exact mem ▸ free
      · simp [Expr.tests, resourceTail, free.tests_eq] at mem
  | @comparedWith op e test free =>
      obtain rfl | rfl := test
      · have compared : other = e := by
          simpa [Expr.tests, free.not_isAttr] using mem
        exact compared ▸ free
      · simp [Expr.tests, resourceTail, free.tests_eq] at mem
  | like pattern => simp [Expr.tests] at mem
  | not inner ih => exact ih (by simpa [Expr.tests] using mem)
  | and left right ihl ihr | or left right ihl ihr =>
      rw [Expr.tests, if_neg (by simp), if_neg (by simp), List.mem_append] at mem
      exact mem.elim ihl ihr
  | ite condition consequent alternative ihc iha ihb =>
      simp only [Expr.tests, List.mem_append] at mem
      exact mem.elim ihc fun rest => rest.elim iha ihb

/-! ## Strings that no test matches -/

def longWord (n : Nat) : String := String.ofList (List.replicate n 'a')

theorem toList_longWord (n : Nat) : (longWord n).toList = List.replicate n 'a' := by
  rw [longWord, String.toList_ofList]

/-- One value is too short for all but finitely many words. -/
theorem exists_longWord_ne (r : Except String (Value X)) :
    ∃ n, ∀ m ≥ n, r ≠ .ok (.string (longWord m)) := by
  cases r with
  | error text => exact ⟨0, fun m _ same => nomatch same⟩
  | ok v =>
      cases v with
      | string text =>
          refine ⟨text.toList.length + 1, fun m long same => ?_⟩
          obtain rfl : text = longWord m := by simpa using same
          rw [toList_longWord, List.length_replicate] at long
          omega
      | _ => exact ⟨0, fun m _ same => nomatch same⟩

/-- No stem that ends in a space is in front of a word. -/
theorem getLast?_of_prefix_longWord {stem : List Char} {m : Nat}
    (front : stem <+: (longWord m).toList) : stem.getLast? ≠ some ' ' := by
  intro spaced
  have space : ' ' ∈ (longWord m).toList := front.subset (List.mem_of_getLast? spaced)
  rw [toList_longWord] at space
  exact absurd (List.eq_of_mem_replicate space) (by decide)

theorem Test.apart_from {test : Test}
    (free : ∀ other, test = .compare other → TailFree other)
    (pinned : ∀ pattern, test = .like pattern → pins pattern = true) (env : Env X) :
    ∃ n, ∀ m ≥ n, ¬ test.Matches env (longWord m) ∧ ¬ test.Names (longWord m) := by
  cases test with
  | compare other =>
      obtain ⟨n, differs⟩ := exists_longWord_ne (evaluate env "" other)
      refine ⟨n, fun m long =>
        ⟨fun holds => differs m long ?_, fun names => differs m long ?_⟩⟩
      · exact ((free other rfl).evaluate_eq "" _).trans holds
      · obtain rfl : other = .value (.string (longWord m)) := names
        rw [evaluate]
        rfl
  | like pattern =>
      refine ⟨(Glob.stem pattern).length + 1, fun m long => ?_⟩
      have unequal : (longWord m).toList ≠ Glob.stem pattern := by
        intro whole
        have lengths := congrArg List.length whole
        rw [toList_longWord, List.length_replicate] at lengths
        omega
      constructor
      · intro accepted
        obtain starless | spaced : Glob.starFree pattern = true ∨
            (Glob.stem pattern).getLast? = some ' ' := by
          simpa [pins] using pinned pattern rfl
        · exact unequal (Glob.eq_stem_of_starFree starless accepted)
        · exact getLast?_of_prefix_longWord (Glob.stem_prefix accepted) spaced
      · intro names
        rw [Test.Names] at names
        split at names
        · exact unequal names
        · exact getLast?_of_prefix_longWord names.1 names.2

theorem exists_apart {tests : List Test}
    (free : ∀ other, .compare other ∈ tests → TailFree other)
    (pinned : ∀ pattern, .like pattern ∈ tests → pins pattern = true) (env : Env X) :
    ∃ n, ∀ m ≥ n, ∀ test ∈ tests,
      ¬ test.Matches env (longWord m) ∧ ¬ test.Names (longWord m) := by
  induction tests with
  | nil => exact ⟨0, fun _ _ test mem => nomatch mem⟩
  | cons test rest ih =>
      obtain ⟨n, others⟩ := ih (fun other mem => free other (List.mem_cons_of_mem _ mem))
        fun pattern mem => pinned pattern (List.mem_cons_of_mem _ mem)
      obtain ⟨k, this⟩ :=
        Test.apart_from (fun other same => free other (same ▸ List.mem_cons_self))
          (fun pattern same => pinned pattern (same ▸ List.mem_cons_self)) env
      refine ⟨max n k, fun m long found mem => ?_⟩
      obtain rfl | inRest := List.mem_cons.mp mem
      · exact this m (by omega)
      · exact others m (by omega) found inRest

/-- A test that matches names the string, or computed it. -/
theorem Test.names_or_computes {test : Test}
    (pinned : ∀ pattern, test = .like pattern → pins pattern = true)
    (h : test.Matches env tail) :
    test.Names tail ∨ ∃ other, test = .compare other ∧ ∀ text,
      other ≠ .value (.string text) := by
  cases test with
  | compare other =>
      by_cases literal : ∃ text, other = .value (.string text)
      · obtain ⟨text, rfl⟩ := literal
        have value : text = tail := by
          simpa [Test.Matches, evaluate, Literal.value] using h
        exact .inl (value ▸ rfl)
      · exact .inr ⟨other, rfl, not_exists.mp literal⟩
  | like pattern =>
      left
      rw [Test.Names]
      split
      · next starless => exact Glob.eq_stem_of_starFree starless h
      · next starred =>
        have spaced : (Glob.stem pattern).getLast? = some ' ' := by
          simpa [pins, starred] using pinned pattern rfl
        exact ⟨Glob.stem_prefix h, spaced⟩

end Lemmas

/-! ## Permits without a lint -/

theorem tailFree_iff {e : Expr} :
    TailFree e ↔ e.isAttr "argv_tail" = false ∧ ∀ child ∈ e.children, TailFree child := by
  constructor
  · exact fun free => ⟨free.not_isAttr, fun child mem => free.child mem⟩
  · intro parts part within
    cases within with
    | here => exact parts.1
    | deeper mem inside => exact parts.2 _ mem part inside

theorem tailFree_value (literal : Literal) : TailFree (.value literal) :=
  tailFree_iff.mpr ⟨rfl, fun _ mem => nomatch mem⟩

theorem tailFree_var (v : Var) : TailFree (.var v) :=
  tailFree_iff.mpr ⟨rfl, fun _ mem => nomatch mem⟩

theorem tailFree_pair {e a b : Expr} (unread : e.isAttr "argv_tail" = false)
    (parts : e.children = [a, b]) (first : TailFree a) (second : TailFree b) :
      TailFree e := by
  refine tailFree_iff.mpr ⟨unread, fun child mem => ?_⟩
  rw [parts] at mem
  obtain rfl | rfl : child = a ∨ child = b := by simpa using mem
  · exact first
  · exact second

theorem tailFree_scope (v : Var) (scope : Scope) : TailFree (scope.expr v) := by
  cases scope with
  | all => exact tailFree_value _
  | eq uid | isIn uid => exact tailFree_pair rfl rfl (tailFree_var v) (tailFree_value _)
  | isInAny uids =>
      have entities : TailFree (.set (uids.map fun uid => .value (.entity uid))) := by
        refine tailFree_iff.mpr ⟨rfl, fun child mem => ?_⟩
        obtain ⟨uid, -, rfl⟩ := List.mem_map.mp mem
        exact tailFree_value _
      exact tailFree_pair rfl rfl (tailFree_var v) entities
  | is entityType =>
      refine tailFree_iff.mpr ⟨rfl, fun child mem => ?_⟩
      obtain rfl := List.mem_singleton.mp mem
      exact tailFree_var v
  | isIsIn entityType uid =>
      exact tailFree_pair rfl rfl (tailFree_var v) (tailFree_value _)

theorem Policy.tailFree_scopes (p : Policy) {e : Expr} (mem : e ∈ p.scopes) :
    TailFree e := by
  simp only [scopes, List.mem_cons, List.not_mem_nil, or_false] at mem
  obtain rfl | rfl | rfl := mem
  · exact tailFree_scope _ _
  · exact tailFree_scope _ _
  · exact tailFree_scope _ _

theorem Condition.tests_expr (c : Condition) : c.expr.tests = c.body.tests := by
  rw [expr]
  split
  · rw [Expr.tests]
  · rfl

theorem Condition.unpinned_expr (c : Condition) : c.expr.unpinned = c.body.unpinned := by
  rw [expr]
  split
  · rw [Expr.unpinned]
  · rfl

theorem Condition.combination_expr {c : Condition} (h : Combination c.body) :
    Combination c.expr := by
  rw [expr]
  split
  · exact .not h
  · exact h

/-- A permit of the kind the lint is about, with nothing for the lint to report. -/
structure Policy.Unlinted (p : Policy) : Prop where
  shape : ∀ c ∈ p.conditions, Combination c.body
  quiet : ∀ c ∈ p.conditions, c.body.unpinned = 0

section Policies
variable {X : Type} {env : Env X} {tail : String} {p : Policy}

theorem Policy.Unlinted.expr (h : p.Unlinted) {e : Expr} (mem : e ∈ p.exprs) :
    Combination e ∧ e.unpinned = 0 ∧
    (TailFree e ∨ ∃ c ∈ p.conditions, e.tests = c.body.tests) := by
  obtain inScope | inConditions := List.mem_append.mp mem
  · have free := p.tailFree_scopes inScope
    exact ⟨.other free, free.unpinned_eq, .inl free⟩
  · obtain ⟨c, inPolicy, rfl⟩ := List.mem_map.mp inConditions
    exact ⟨Condition.combination_expr (h.shape c inPolicy),
      c.unpinned_expr.trans (h.quiet c inPolicy), .inr ⟨c, inPolicy, c.tests_expr⟩⟩

/-- Where no test of the policy matches, it is satisfied as if every test were answered
with false. -/
theorem Policy.Unlinted.satisfied_iff (h : p.Unlinted)
    (apart : ∀ c ∈ p.conditions, ∀ test ∈ c.body.tests, ¬ test.Matches env tail) :
    p.Satisfied env tail ↔ p.SatisfiedUnmatched env tail := by
  have same {e : Expr} (mem : e ∈ p.exprs) :
      evaluate env tail e = unmatched env tail e := by
    obtain ⟨shape, quiet, free | ⟨c, inPolicy, tests⟩⟩ := h.expr mem
    · exact free.unmatched_eq.symm
    · exact shape.evaluate_eq quiet (tests ▸ apart c inPolicy)
  exact forall₂_congr fun e mem => by rw [same mem]

theorem Policy.Unlinted.unmatched_any (h : p.Unlinted) (tail tail' : String) :
    p.SatisfiedUnmatched env tail ↔ p.SatisfiedUnmatched env tail' := by
  refine forall₂_congr fun e mem => ?_
  obtain ⟨shape, quiet, -⟩ := h.expr mem
  rw [shape.unmatched_any quiet tail tail']

/-- What no literal and no pattern names satisfies an unlinted permit as if every test
were answered with false, computed comparands apart. -/
theorem Policy.Unlinted.satisfied_unnamed (h : p.Unlinted) (unnamed : ¬ p.Names tail)
    (uncomputed : ¬ p.Computes env tail) :
      p.Satisfied env tail ↔ p.SatisfiedUnmatched env tail := by
  refine h.satisfied_iff fun c inPolicy test mem holds => ?_
  have pinned : ∀ pattern, test = .like pattern → pins pattern = true :=
    fun pattern same => pins_of_unpinned (h.quiet c inPolicy) (same ▸ mem)
  obtain names | ⟨other, rfl, computed⟩ := test.names_or_computes pinned holds
  · exact unnamed ⟨c, inPolicy, test, mem, names⟩
  · exact uncomputed ⟨c, inPolicy, other, mem, computed, holds⟩

/-- Some string is named by no test and computed by no comparand. -/
theorem Policy.Unlinted.exists_unnamed (h : p.Unlinted) (env : Env X) :
    ∃ tail, ¬ p.Names tail ∧ (p.Satisfied env tail ↔ p.SatisfiedUnmatched env tail) := by
  have free : ∀ other, .compare other ∈ p.conditions.flatMap (·.body.tests) →
      TailFree other := by
    intro other mem
    obtain ⟨c, inPolicy, listed⟩ := List.mem_flatMap.mp mem
    exact (h.shape c inPolicy).free_of_compare listed
  have pinned : ∀ pattern, .like pattern ∈ p.conditions.flatMap (·.body.tests) →
      pins pattern = true := by
    intro pattern mem
    obtain ⟨c, inPolicy, listed⟩ := List.mem_flatMap.mp mem
    exact pins_of_unpinned (h.quiet c inPolicy) listed
  obtain ⟨n, apart⟩ := exists_apart free pinned env
  have each {c : Condition} {test : Test} (inPolicy : c ∈ p.conditions)
      (mem : test ∈ c.body.tests) :=
    apart n (Nat.le_refl n) test (List.mem_flatMap.mpr ⟨c, inPolicy, mem⟩)
  refine ⟨longWord n, ?_,
    h.satisfied_iff fun c inPolicy test mem => (each inPolicy mem).1⟩
  intro named
  obtain ⟨c, inPolicy, test, mem, names⟩ := named
  exact (each inPolicy mem).2 names

/-- The tests of a permit only widen it: answering all of them with false satisfies
nothing, or every string satisfies it. What only a computed comparand names satisfies
nothing then. -/
structure Policy.Widens (p : Policy) (env : Env X) : Prop where
  unmatched : ∀ tail, p.SatisfiedUnmatched env tail → ∀ tail', p.Satisfied env tail'
  computed : ∀ tail, ¬ p.SatisfiedUnmatched env tail → p.Computes env tail →
    ¬ p.Names tail → ¬ p.Satisfied env tail

theorem Policy.Unlinted.names_iff (h : p.Unlinted) (env : Env X) :
    ((∀ tail, p.Satisfied env tail) ∨ ∀ tail, p.Satisfied env tail → p.Names tail) ↔
      p.Widens env := by
  obtain ⟨away, unnamed, asUnmatched⟩ := h.exists_unnamed env
  constructor
  · intro sound
    refine ⟨fun tail unmatched => ?_, fun tail refused _ nameless satisfied => ?_⟩
    · obtain every | named := sound
      · exact every
      · have satisfied := asUnmatched.mpr ((h.unmatched_any tail away).mp unmatched)
        exact absurd (named away satisfied) unnamed
    · obtain every | named := sound
      · exact refused ((h.unmatched_any away tail).mp (asUnmatched.mp (every away)))
      · exact nameless (named tail satisfied)
  · intro widens
    by_cases base : p.SatisfiedUnmatched env away
    · exact .inl (widens.unmatched away base)
    · refine .inr fun tail satisfied => ?_
      have refused : ¬ p.SatisfiedUnmatched env tail := fun unmatched =>
        base ((h.unmatched_any tail away).mp unmatched)
      by_contra nameless
      by_cases computes : p.Computes env tail
      · exact widens.computed tail refused computes nameless satisfied
      · exact refused ((h.satisfied_unnamed nameless computes).mp satisfied)

/-- Tests in positive places, next to conditions that come to a truth value. -/
inductive Positive (env : Env X) : Expr → Prop
  | other {e : Expr} (free : TailFree e) {b : Bool}
      (truth : evaluate env "" e = .ok (.bool b)) : Positive env e
  | compared (text : String) :
      Positive env (.binary .eq resourceTail (.value (.string text)))
  | like (pattern : Glob.Pattern Char) : Positive env (.like resourceTail pattern)
  | and {a b : Expr} (left : Positive env a) (right : Positive env b) :
      Positive env (.binary .and a b)
  | or {a b : Expr} (left : Positive env a) (right : Positive env b) :
      Positive env (.binary .or a b)

/-- In a positive place a test that matches only makes an expression true. -/
theorem Positive.le {e : Expr} (h : Positive env e) (tail : String) :
    ∃ base b, unmatched env tail e = .ok (.bool base) ∧
      evaluate env tail e = .ok (.bool b) ∧
      (base = true → b = true) := by
  induction h with
  | other free truth =>
      have same := (free.evaluate_eq tail "").trans truth
      exact ⟨_, _, free.unmatched_eq.trans same, same, id⟩
  | compared text =>
      refine ⟨false, _, ?_, by rw [evaluate, evaluate_resourceTail, evaluate]; rfl, nofun⟩
      rw [unmatched, isAttr_resourceTail, if_pos rfl, evaluate]
      rfl
  | like pattern =>
      refine ⟨false, _, ?_, by rw [evaluate, evaluate_resourceTail]; rfl, nofun⟩
      rw [unmatched, isAttr_resourceTail, if_pos rfl]
  | and left right ihl ihr =>
      obtain ⟨base, b, baseLeft, onLeft, le⟩ := ihl
      obtain ⟨base', b', baseRight, onRight, le'⟩ := ihr
      refine ⟨base && base', b && b', ?_, ?_, ?_⟩
      · rw [unmatched, baseLeft, baseRight]
        cases base <;> rfl
      · rw [evaluate, onLeft, onRight]
        cases b <;> rfl
      · simp only [Bool.and_eq_true]
        exact fun both => ⟨le both.1, le' both.2⟩
  | or left right ihl ihr =>
      obtain ⟨base, b, baseLeft, onLeft, le⟩ := ihl
      obtain ⟨base', b', baseRight, onRight, le'⟩ := ihr
      refine ⟨base || base', b || b', ?_, ?_, ?_⟩
      · rw [unmatched, baseLeft, baseRight]
        cases base <;> rfl
      · rw [evaluate, onLeft, onRight]
        cases b <;> rfl
      · simp only [Bool.or_eq_true]
        exact fun either => either.imp le le'

theorem Positive.literal_of_compare {e : Expr} (h : Positive env e) {other : Expr}
    (mem : .compare other ∈ e.tests) : ∃ text, other = .value (.string text) := by
  induction h with
  | other free truth =>
      rw [free.tests_eq] at mem
      cases mem
  | compared text => exact ⟨text, by simpa [Expr.tests] using mem⟩
  | like pattern => simp [Expr.tests] at mem
  | and left right ihl ihr | or left right ihl ihr =>
      rw [Expr.tests, if_neg (by simp), if_neg (by simp), List.mem_append] at mem
      exact mem.elim ihl ihr

/-- A permit whose tests all stand in positive places only widens by them. -/
theorem Policy.Unlinted.widens_of_positive (h : p.Unlinted)
    (positive : ∀ c ∈ p.conditions, Positive env c.expr) : p.Widens env := by
  constructor
  · intro tail unmatched tail' e mem
    obtain inScope | inConditions := List.mem_append.mp mem
    · have base := (h.unmatched_any tail tail').mp unmatched e mem
      exact (p.tailFree_scopes inScope).unmatched_eq.symm.trans base
    · obtain ⟨c, inPolicy, rfl⟩ := List.mem_map.mp inConditions
      have base := (h.unmatched_any tail tail').mp unmatched _ mem
      obtain ⟨x, b, unmatched', value, le⟩ := (positive c inPolicy).le tail'
      rw [unmatched'] at base
      rw [value, le (Value.bool.inj (Except.ok.inj base))]
  · intro tail _ computes
    obtain ⟨c, inPolicy, other, mem, computed, -⟩ := computes
    obtain ⟨text, literal⟩ :=
      (positive c inPolicy).literal_of_compare (c.tests_expr ▸ mem)
    exact absurd literal (computed text)

end Policies

theorem unlinted_of_quiet {β : Type} {toJson : Cedar.Policy β → Except String Json}
    {set : PolicySet β} {p : Cedar.Policy β} {est : Policy} (mem : p ∈ set.policies)
    (json : toJson p = .ok est.toJson) (permit : p.effect = .permit)
    (shape : ∀ c ∈ est.conditions, Combination c.body)
    (quiet : ∀ lint ∈ lintArgMatching toJson set, lint.policy ≠ p.id) : est.Unlinted := by
  have none_read : (est.conditions.map fun c => c.body.unpinned).foldr (· + ·) 0 = 0 := by
    by_contra reads
    have unpinned : 0 < unpinnedArgvTailReads est.toJson := by
      rw [unpinnedArgvTailReads_toJson]
      omega
    refine quiet (.unpinnedArgvTail p.id) ?_ rfl
    rw [mem_lintArgMatching_iff mem rfl, lintPolicy, json]
    simp [permit, unpinned]
  exact ⟨shape, foldr_add_eq_zero_iff.mp none_read⟩

/-- An unlinted permit is satisfied by every `argv_tail`, or only by those its literals
and patterns name, whatever the other attributes are, exactly where its tests only widen
it. -/
theorem unlinted_permit_iff {β X : Type} (toJson : Cedar.Policy β → Except String Json)
    (set : PolicySet β) (p : Cedar.Policy β) (est : Policy) (mem : p ∈ set.policies)
    (json : toJson p = .ok est.toJson) (permit : p.effect = .permit)
    (shape : ∀ c ∈ est.conditions, Combination c.body)
    (quiet : ∀ lint ∈ lintArgMatching toJson set, lint.policy ≠ p.id) :
    (∀ env : Env X, (∀ tail, est.Satisfied env tail) ∨ ∀ tail, est.Satisfied env tail →
      est.Names tail) ↔
      ∀ env : Env X, est.Widens env :=
  forall_congr' fun env => (unlinted_of_quiet mem json permit shape quiet).names_iff env

/-! ## Two permits -/

/-- `permit (principal, action == Nono::Action::"launchCommand", resource)
when { body };` -/
def launchPermit (body : Expr) : Cedar.Policy Policy where
  id := "git-pinned"
  effect := .permit
  annotations := [("id", "git-pinned")]
  body :=
    { effect := .permit
      principal := .all
      action := .eq ⟨"Nono::Action", "launchCommand"⟩
      resource := .all
      conditions := [⟨false, body⟩]
      annotations := [("id", some "git-pinned")] }

/-- `!(resource.argv_tail == "push")` -/
def notPush : Expr := .unary .not (.binary .eq resourceTail (.value (.string "push")))

/-- `resource.argv_tail == "status" || resource.argv_tail like "status *"` -/
def statusOnly : Expr :=
  .binary .or (.binary .eq resourceTail (.value (.string "status")))
    (.like resourceTail (Glob.word "status ".toList ++ [.star]))

/-- The operators over plain values: sets and records are not told apart. -/
def plainOperators : Operators Unit where
  equal a b := decide (a = b)
  equal_string text v := by
    rw [decide_eq_true_iff]
    exact eq_comm
  string_equal v text := by rw [decide_eq_true_iff]
  unary _ _ := typeError
  binary _ _ _ := typeError
  isType _ _ := typeError
  field _ _ := typeError
  hasField _ _ := typeError
  set _ := .other ()
  record _ := .other ()
  call _ _ := typeError

def gitLaunch : Env Unit where
  operators := plainOperators
  principal := ⟨"Nono::Agent", "claude-code"⟩
  action := ⟨"Nono::Action", "launchCommand"⟩
  resource := ⟨"Nono::Command", "r-1"⟩
  context := .other ()
  others := [("command", .string "git")]
  attrs _ := none

theorem satisfied_launchPermit_iff (body : Expr) (tail : String) :
    (launchPermit body).body.Satisfied gitLaunch tail ↔
      evaluate gitLaunch tail body = .ok (.bool true) := by
  simp [Policy.Satisfied, Policy.exprs, Policy.scopes, launchPermit, Scope.expr,
    Condition.expr, evaluate, Env.var, gitLaunch, plainOperators, Literal.value,
    Bind.bind, Except.bind]

theorem lint_launchPermit {body : Expr} (quiet : body.unpinned = 0)
    (plain : body.pathLiterals = []) :
    lintArgMatching bodyJson (onePolicy (launchPermit body)) = [] := by
  have reads : unpinnedArgvTailReads (launchPermit body).body.toJson = 0 := by
    rw [unpinnedArgvTailReads_toJson]
    simp [launchPermit, quiet]
  have literals : argsMembershipPathLiterals (launchPermit body).body.toJson = [] := by
    rw [argsMembershipPathLiterals_toJson]
    simp [launchPermit, plain]
  simp [lintArgMatching, onePolicy, lintPolicy, bodyJson, reads, literals]

theorem negated_pin_unlinted :
    (∀ c ∈ (launchPermit notPush).body.conditions, Combination c.body) ∧
      lintArgMatching bodyJson (onePolicy (launchPermit notPush)) = [] ∧
      ¬ ((∀ tail, (launchPermit notPush).body.Satisfied gitLaunch tail) ∨
        ∀ tail, (launchPermit notPush).body.Satisfied gitLaunch tail →
          (launchPermit notPush).body.Names tail) := by
  have answer (tail : String) :
      evaluate gitLaunch tail notPush = .ok (.bool !(tail == "push")) := by
    rw [notPush, evaluate, evaluate, evaluate_resourceTail]
    simp [evaluate, gitLaunch, plainOperators, Literal.value, Value.asBool,
      Bind.bind, Except.bind, Bool.beq_eq_decide_eq]
  refine ⟨fun c mem => ?_, lint_launchPermit (by decide) (by decide), ?_⟩
  · obtain rfl := List.mem_singleton.mp mem
    exact .not (.compared (.inl rfl) (tailFree_value _))
  · rintro (every | named)
    · have pushed := (satisfied_launchPermit_iff notPush "push").mp (every "push")
      rw [answer] at pushed
      cases pushed
    · have committed : (launchPermit notPush).body.Satisfied gitLaunch "commit" := by
        rw [satisfied_launchPermit_iff, answer]
        rfl
      obtain ⟨c, mem, test, inTests, names⟩ := named "commit" committed
      obtain rfl := List.mem_singleton.mp mem
      obtain rfl : test = .compare (.value (.string "push")) := by
        simpa [notPush, Expr.tests] using inTests
      simp [Test.Names] at names

theorem unlinted_permit_iff_status :
    (∀ tail, (launchPermit statusOnly).body.Satisfied gitLaunch tail) ∨
      ∀ tail, (launchPermit statusOnly).body.Satisfied gitLaunch tail →
        (launchPermit statusOnly).body.Names tail := by
  have shape : ∀ c ∈ (launchPermit statusOnly).body.conditions, Combination c.body := by
    intro c mem
    obtain rfl := List.mem_singleton.mp mem
    exact .or (.compared (.inl rfl) (tailFree_value _)) (.like _)
  have quiet : lintArgMatching bodyJson (onePolicy (launchPermit statusOnly)) = [] :=
    lint_launchPermit (by decide) (by decide)
  have unlinted : (launchPermit statusOnly).body.Unlinted := by
    refine ⟨shape, fun c mem => ?_⟩
    obtain rfl := List.mem_singleton.mp mem
    decide
  have positive (env : Env Unit) : ∀ c ∈ (launchPermit statusOnly).body.conditions,
      Positive env c.expr := by
    intro c mem
    obtain rfl := List.mem_singleton.mp mem
    exact .or (.compared _) (.like _)
  refine (unlinted_permit_iff bodyJson (onePolicy (launchPermit statusOnly))
    (launchPermit statusOnly) (launchPermit statusOnly).body List.mem_cons_self rfl
      rfl shape ?_).mpr
    (fun env => unlinted.widens_of_positive (positive env)) gitLaunch
  rw [quiet]
  exact fun lint mem => nomatch mem

end NonoCedarPdp.Cedar.Est
