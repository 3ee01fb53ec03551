import NonoCedarPdp.Baseline
import Mathlib.Data.List.TakeWhile

/-!
The git pack, `policies/10-git.cedar`. Its permit looks at the first token of the joined
tail, so it fixes the subcommand only as far as the second argument is one token; its
flag forbid sees a flag wherever it stands in the arguments.
-/
namespace NonoCedarPdp
open Cedar Engine

def readOnlySubcommands : List String := ["status", "diff", "log", "show"]

def historyRewriteFlags : List String := ["--force", "--force-with-lease", "--hard"]

/-- The flags that are looked for in the joined tail. -/
def codeExecutingFlags : List String :=
  ["--config-env", "--exec-path", "--upload-pack", "--receive-pack"]

/-! ## The first token of the tail -/

def firstToken (text : List Char) : List Char := text.takeWhile (· ≠ ' ')

theorem firstToken_of_solid {w : List Char} (solid : ' ' ∉ w) : firstToken w = w := by
  rw [firstToken, List.takeWhile_eq_self_iff]
  intro c mem
  have differ : c ≠ ' ' := fun space => solid (space ▸ mem)
  simpa using differ

theorem firstToken_append (w rest : List Char) :
    firstToken (w ++ ' ' :: rest) = firstToken w := by
  induction w with
  | nil => simp [firstToken]
  | cons c w ih =>
      by_cases space : c = ' '
      · simp [firstToken, space]
      · simpa [firstToken, space] using ih

theorem firstToken_eq_iff {w text : List Char} (solid : ' ' ∉ w) :
    firstToken text = w ↔ text = w ∨ w ++ [' '] <+: text := by
  constructor
  · intro first
    have whole : w ++ text.dropWhile (· ≠ ' ') = text := by
      rw [← first]
      exact List.takeWhile_append_dropWhile
    cases rest : text.dropWhile (· ≠ ' ') with
    | nil =>
        rw [rest, List.append_nil] at whole
        exact .inl whole.symm
    | cons c tail =>
        have space : c = ' ' := by
          have left : text.dropWhile (· ≠ ' ') ≠ [] := rest ▸ List.cons_ne_nil c tail
          have head := List.head_dropWhile_not (· ≠ ' ') left
          simp only [rest, List.head_cons] at head
          simpa using head
        rw [rest, space] at whole
        refine .inr ⟨tail, ?_⟩
        rw [← whole, List.append_assoc]
        rfl
  · intro h
    cases h with
    | inl same => rw [same, firstToken_of_solid solid]
    | inr front =>
        obtain ⟨rest, whole⟩ := front
        rw [← whole, List.append_assoc]
        exact (firstToken_append w rest).trans (firstToken_of_solid solid)

theorem toList_argvTail (args : List String) : (argvTail args).toList =
    [' '].intercalate ((args.drop 1).map String.toList) := by
  rw [argvTail, String.toList_intercalate]
  rfl

/-- The tail starts with the second argument, and goes on with a space if at all. -/
theorem argvTail_of_second {args : List String} {second : String}
    (h : args[1]? = some second) : (argvTail args).toList = second.toList ∨
      ∃ rest, (argvTail args).toList = second.toList ++ ' ' :: rest := by
  rw [toList_argvTail]
  match args, h with
  | [_, _], rfl => exact .inl (by simp [List.intercalate])
  | _ :: _ :: third :: more, rfl =>
      refine .inr ⟨[' '].intercalate ((third :: more).map String.toList), ?_⟩
      simp [List.intercalate]

theorem firstToken_argvTail {args : List String} {second : String}
    (h : args[1]? = some second) :
    firstToken (argvTail args).toList = firstToken second.toList := by
  cases argvTail_of_second h with
  | inl whole => rw [whole]
  | inr more =>
      obtain ⟨rest, whole⟩ := more
      rw [whole, firstToken_append]

theorem second_of_firstToken {args : List String}
    (h : firstToken (argvTail args).toList ≠ []) :
    ∃ second, args[1]? = some second := by
  match args, h with
  | [], h => exact absurd rfl h
  | [_], h => exact absurd rfl h
  | _ :: second :: _, _ => exact ⟨second, rfl⟩

/-! ## An argument is part of the tail -/

theorem infix_intercalate {α : Type} {l : List α} {lists : List (List α)} (sep : List α)
    (mem : l ∈ lists) : l <:+: sep.intercalate lists := by
  induction lists with
  | nil => cases mem
  | cons first rest ih =>
      cases rest with
      | nil =>
          rw [List.mem_singleton.mp mem]
          simp [List.intercalate]
      | cons next more =>
          have whole : sep.intercalate (first :: next :: more) =
              first ++ (sep ++ sep.intercalate (next :: more)) := by
            simp [List.intercalate]
          rw [whole]
          cases List.mem_cons.mp mem with
          | inl here => exact here ▸ (List.prefix_append first _).isInfix
          | inr later =>
              have inRest := (ih later).trans (List.suffix_append sep _).isInfix
              exact inRest.trans (List.suffix_append first _).isInfix

theorem infix_argvTail {args : List String} {i : Nat} {arg : String} (later : 1 ≤ i)
    (h : args[i]? = some arg) : arg.toList <:+: (argvTail args).toList := by
  rw [toList_argvTail]
  apply infix_intercalate
  apply List.mem_map_of_mem
  have moved : (args.drop 1)[i - 1]? = some arg := by
    rw [List.getElem?_drop, Nat.add_sub_cancel' later, h]
  exact List.mem_of_getElem? moved

/-! ## What each policy makes of a command -/

section Command
variable {q : PolicyQuery} {request : Request} {entities : Entities}
  {command rule : String} {args : List String} {pid : UInt32}

theorem subcommand_iff {sub : String} (solid : ' ' ∉ sub.toList) (text : String) :
    text = sub ∨
    Glob.accepts (Glob.word (sub.toList ++ [' ']) ++ [.star]) text.toList = true ↔
      firstToken text.toList = sub.toList := by
  rw [Glob.accepts_front_iff, firstToken_eq_iff solid, String.toList_inj]

variable (built : BuiltFor q request entities)
  (target : q.target = .command command args rule pid)
include built target

/-- The permit's condition asks for the first token of the tail. -/
theorem gitReadOnly_holds :
    ∃ x, Holds request entities (.and (.eq commandName (.string "git"))
      (anyOf (.eq argvTailText (.string "status")) otherReadOnlyTails)) x ∧
    (x = true ↔ command = "git" ∧
      ∃ sub ∈ readOnlySubcommands, firstToken (argvTail args).toList = sub.toList) := by
  have bare := holds_argvTail_eq built target
  have further := holds_argvTail_like built target
  have each : ∀ r ∈ otherReadOnlyTails, ∃ y, Holds request entities r y := by
    simp only [otherReadOnlyTails, List.forall_mem_cons, List.not_mem_nil, false_implies,
      implies_true, and_true]
    exact ⟨⟨_, further _⟩, ⟨_, bare _⟩, ⟨_, further _⟩, ⟨_, bare _⟩,
      ⟨_, further _⟩, ⟨_, bare _⟩, ⟨_, further _⟩⟩
  obtain ⟨z, some, iff⟩ := holds_anyOf (bare "status") each
  refine ⟨decide (command = "git") && z,
    (holds_commandName built target "git").and some, ?_⟩
  have status : likeText "status *" =
      Glob.word ("status".toList ++ [' ']) ++ [.star] := by decide
  have diff : likeText "diff *" = Glob.word ("diff".toList ++ [' ']) ++ [.star] := by
    decide
  have log : likeText "log *" = Glob.word ("log".toList ++ [' ']) ++ [.star] := by decide
  have shown : likeText "show *" = Glob.word ("show".toList ++ [' ']) ++ [.star] := by
    decide
  have token (sub : String) (solid : ' ' ∉ sub.toList) :=
    subcommand_iff solid (argvTail args)
  rw [Bool.and_eq_true, decide_eq_true_eq, iff, otherReadOnlyTails, readOnlySubcommands]
  simp only [List.exists_mem_cons_iff, List.not_mem_nil, false_and,
    exists_false, or_false, (bare _).true_iff, (further _).true_iff, decide_eq_true_eq,
    status, diff, log, shown]
  rw [← token "status" (by decide), ← token "diff" (by decide), ← token "log" (by decide),
    ← token "show" (by decide)]
  simp only [or_assoc]

/-- The flag forbid's condition asks for `-c` anywhere and for the others in the tail. -/
theorem noCodeExecutingGitFlags_holds : ∃ x, Holds request entities
      (.and (.eq commandName (.string "git"))
        (anyOf (.contains argsSet (.string "-c")) codeExecutingTails)) x ∧
    (x = true ↔ command = "git" ∧
      ("-c" ∈ args ∨ ∃ flag ∈ codeExecutingFlags,
        flag.toList <:+: (argvTail args).toList)) := by
  have inTail := holds_argvTail_like built target
  have each : ∀ r ∈ codeExecutingTails, ∃ y, Holds request entities r y := by
    simp only [codeExecutingTails, List.forall_mem_cons, List.not_mem_nil, false_implies,
      implies_true, and_true]
    exact ⟨⟨_, inTail _⟩, ⟨_, inTail _⟩, ⟨_, inTail _⟩, ⟨_, inTail _⟩⟩
  obtain ⟨z, some, iff⟩ := holds_anyOf (holds_argsSet built target "-c") each
  refine ⟨decide (command = "git") && z,
    (holds_commandName built target "git").and some, ?_⟩
  have config : likeText "*--config-env*" =
      .star :: (Glob.word "--config-env".toList ++ [.star]) := by
    decide
  have exec : likeText "*--exec-path*" =
      .star :: (Glob.word "--exec-path".toList ++ [.star]) := by
    decide
  have upload : likeText "*--upload-pack*" =
      .star :: (Glob.word "--upload-pack".toList ++ [.star]) := by
    decide
  have receive : likeText "*--receive-pack*" =
      .star :: (Glob.word "--receive-pack".toList ++ [.star]) := by decide
  rw [Bool.and_eq_true, decide_eq_true_eq, iff, codeExecutingTails, codeExecutingFlags]
  simp only [List.exists_mem_cons_iff, List.not_mem_nil, false_and,
    exists_false, or_false, (inTail _).true_iff, decide_eq_true_eq, config, exec, upload,
    receive, Glob.accepts_inside_iff]

theorem noHistoryRewrites_holds : ∃ x, Holds request entities
      (anyOf (.contains argsSet (.string "--force")) otherHistoryRewrites) x ∧
    (x = true ↔ ∃ flag ∈ historyRewriteFlags, flag ∈ args) := by
  have inArgs := holds_argsSet built target
  have each : ∀ r ∈ otherHistoryRewrites, ∃ y, Holds request entities r y := by
    simp only [otherHistoryRewrites, List.forall_mem_cons, List.not_mem_nil,
      false_implies, implies_true, and_true]
    exact ⟨⟨_, inArgs _⟩, ⟨_, inArgs _⟩⟩
  obtain ⟨z, whole, iff⟩ := holds_anyOf (inArgs "--force") each
  refine ⟨z, whole, ?_⟩
  rw [iff, otherHistoryRewrites, historyRewriteFlags]
  simp only [List.exists_mem_cons_iff, List.not_mem_nil, false_and,
    exists_false, or_false, (inArgs _).true_iff, decide_eq_true_eq]

theorem gitReadOnly_satisfied_iff : gitReadOnly.outcome request entities = .satisfied ↔
    q.agent = "claude-code" ∧ command = "git" ∧
      ∃ sub ∈ readOnlySubcommands, firstToken (argvTail args).toList = sub.toList := by
  obtain ⟨x, condition, iff⟩ := gitReadOnly_holds built target
  rw [Clauses.outcome_satisfied_iff rfl condition, ← iff]
  simp [gitReadOnly, Scope.admits, built.isIn_agent, built.launches target]

theorem noHistoryRewrites_satisfied_iff :
    noHistoryRewrites.outcome request entities = .satisfied ↔
    ∃ flag ∈ historyRewriteFlags, flag ∈ args := by
  obtain ⟨x, condition, iff⟩ := noHistoryRewrites_holds built target
  rw [Clauses.outcome_satisfied_iff rfl condition, ← iff]
  simp [noHistoryRewrites, Scope.admits, built.launches target]

theorem noCodeExecutingGitFlags_satisfied_iff :
    noCodeExecutingGitFlags.outcome request entities = .satisfied ↔ command = "git" ∧
      ("-c" ∈ args ∨ ∃ flag ∈ codeExecutingFlags,
        flag.toList <:+: (argvTail args).toList) := by
  obtain ⟨x, condition, iff⟩ := noCodeExecutingGitFlags_holds built target
  rw [Clauses.outcome_satisfied_iff rfl condition, ← iff]
  simp [noCodeExecutingGitFlags, Scope.admits, built.launches target]

/-- No policy of the pack fails on a command. -/
theorem shipped_never_errs : ∀ c ∈ [sessionLaunchesOnly, noUnknownAgents, gitReadOnly,
    noHistoryRewrites, noCodeExecutingGitFlags],
      ∀ text, c.outcome request entities ≠ .error text := by
  intro c shipped text
  obtain ⟨_, git, -⟩ := gitReadOnly_holds built target
  obtain ⟨_, history, -⟩ := noHistoryRewrites_holds built target
  obtain ⟨_, flags, -⟩ := noCodeExecutingGitFlags_holds built target
  simp only [List.mem_cons, List.not_mem_nil, or_false] at shipped
  obtain rfl | rfl | rfl | rfl | rfl := shipped
  · exact Clauses.outcome_ne_error rfl (sessionLaunchesOnly_holds built) text
  · exact Clauses.outcome_ne_error rfl (noUnknownAgents_holds built) text
  · exact Clauses.outcome_ne_error rfl git text
  · exact Clauses.outcome_ne_error rfl history text
  · exact Clauses.outcome_ne_error rfl flags text

end Command

/-! ## The pack -/

section Pack
variable {Schema β : Type} {x : Externals Schema β} {outcome : Semantics β}
  {denote : Clauses → β} {q : PolicyQuery} {request : Request} {entities : Entities}

theorem gitReadOnly_of_allow (spec : LanguageSpec x.crate outcome denote)
    {policies : List (Policy β)}
    (only : ∀ p ∈ policies, p.effect = .permit → p.body = denote gitReadOnly)
    (allow : FailClosedAllow outcome policies request entities) :
    gitReadOnly.outcome request entities = .satisfied := by
  obtain ⟨p, mem, permit, satisfied⟩ := allow.1
  rw [← spec.clauses p gitReadOnly (only p mem permit), satisfied]

/-- The permit is for launches only. -/
theorem command_of_gitReadOnly (built : BuiltFor q request entities)
    (satisfied : gitReadOnly.outcome request entities = .satisfied) :
    ∃ command args rule pid, q.target = .command command args rule pid := by
  have scope := Clauses.admits_of_satisfied satisfied
  have launch : request.action = launchCommand := by
    simpa [gitReadOnly, Scope.admits] using scope.2.1
  rw [built.action_eq_launchCommand, PolicyQuery.actionName] at launch
  cases target : q.target with
  | command command args rule pid => exact ⟨command, args, rule, pid, rfl⟩
  | endpoint =>
      rw [target] at launch
      have other : "httpRequest" = "launchCommand" := launch
      exact absurd other (by decide)

theorem permit_of_shipped {p : Policy β} (mem : p ∈ shippedPolicies denote)
    (permit : p.effect = .permit) : p.body = denote gitReadOnly := by
  simp only [shippedPolicies, List.mem_cons, List.not_mem_nil, or_false] at mem
  obtain rfl | rfl | rfl | rfl | rfl := mem
  · cases permit
  · cases permit
  · rfl
  · cases permit
  · cases permit

/-- Exactly what the pack allows of a command. -/
theorem pack_allows_iff (spec : LanguageSpec x.crate outcome denote)
    {command rule : String} {args : List String} {pid : UInt32}
    (built : BuiltFor q request entities)
    (target : q.target = .command command args rule pid) :
    FailClosedAllow outcome (shippedPolicies denote) request entities ↔
      (q.agent = "claude-code" ∧ command = "git" ∧
        ∃ sub ∈ readOnlySubcommands, firstToken (argvTail args).toList = sub.toList) ∧
      q.caller = "session" ∧ (¬ ∃ flag ∈ historyRewriteFlags, flag ∈ args) ∧
      ¬ ("-c" ∈ args ∨ ∃ flag ∈ codeExecutingFlags,
        flag.toList <:+: (argvTail args).toList) := by
  have means (p : Policy β) (c : Clauses) (body : p.body = denote c) :=
    spec.clauses p c body request entities
  have session := means (sessionLaunchesOnlyPolicy denote) sessionLaunchesOnly rfl
  have known := means (noUnknownAgentsPolicy denote) noUnknownAgents rfl
  have permit := means (gitReadOnlyPolicy denote) gitReadOnly rfl
  have history := means (noHistoryRewritesPolicy denote) noHistoryRewrites rfl
  have flags := means (noCodeExecutingGitFlagsPolicy denote) noCodeExecutingGitFlags rfl
  have clean : ∀ p ∈ shippedPolicies denote, ¬ Errs outcome request entities p := by
    have never := shipped_never_errs built target
    simp only [List.forall_mem_cons, List.not_mem_nil, false_implies, implies_true,
      and_true] at never
    simp only [shippedPolicies, List.forall_mem_cons, List.not_mem_nil,
      false_implies, implies_true, and_true, Errs, session, known, permit, history,
      flags, not_exists]
    exact never
  have permits :
      (∃ p ∈ shippedPolicies denote, Satisfied outcome request entities .permit p) ↔
      gitReadOnly.outcome request entities = .satisfied := by
    simp only [shippedPolicies, List.exists_mem_cons_iff, List.not_mem_nil,
      false_and, exists_false, or_false, Satisfied, permit]
    simp [sessionLaunchesOnlyPolicy, noUnknownAgentsPolicy, gitReadOnlyPolicy,
      noHistoryRewritesPolicy, noCodeExecutingGitFlagsPolicy]
  have opposes :
      (∀ p ∈ shippedPolicies denote, ¬ Satisfied outcome request entities .forbid p) ↔
      ¬ sessionLaunchesOnly.outcome request entities = .satisfied ∧
        ¬ noUnknownAgents.outcome request entities = .satisfied ∧
        ¬ noHistoryRewrites.outcome request entities = .satisfied ∧
        ¬ noCodeExecutingGitFlags.outcome request entities = .satisfied := by
    simp only [shippedPolicies, List.forall_mem_cons, List.not_mem_nil,
      false_implies, implies_true, and_true, Satisfied, session, known, history, flags]
    simp [sessionLaunchesOnlyPolicy, noUnknownAgentsPolicy, gitReadOnlyPolicy,
      noHistoryRewritesPolicy, noCodeExecutingGitFlagsPolicy]
  rw [FailClosedAllow, permits, opposes, gitReadOnly_satisfied_iff built target,
    sessionLaunchesOnly_satisfied_iff built, noUnknownAgents_satisfied_iff built,
    noHistoryRewrites_satisfied_iff built target,
    noCodeExecutingGitFlags_satisfied_iff built target,
    actionName_command target]
  constructor
  · intro h
    obtain ⟨git, ⟨direct, -, kept, plain⟩, -⟩ := h
    exact ⟨git, by simpa using direct, kept, fun flag => plain ⟨git.2.1, flag⟩⟩
  · intro h
    obtain ⟨git, direct, kept, plain⟩ := h
    have agentKnown : q.agent ≠ "unknown" := by
      rw [git.1]
      decide
    exact ⟨git, ⟨fun chained => chained.2 direct, agentKnown, kept,
      fun flag => plain flag.2⟩, clean⟩

/-- An allowed query is a command that the permit is satisfied of. -/
theorem permitted_of_allow (spec : LanguageSpec x.crate outcome denote)
    (grammar : UidGrammar x.crate) {engine : Engine Schema β}
    (only : ∀ p ∈ engine.current.set.policies, p.effect = .permit →
      p.body = denote gitReadOnly)
    {evalUs : Nat} (allowed : (engine.evaluate x q evalUs).1.allow = true) :
    ∃ request entities, BuiltFor q request entities ∧
      FailClosedAllow outcome engine.current.set.policies request entities ∧
      gitReadOnly.outcome request entities = .satisfied := by
  obtain ⟨request, entities, built, allow⟩ := built_of_allow spec grammar allowed
  exact ⟨request, entities, built, allow, gitReadOnly_of_allow spec only allow⟩

end Pack

/-! ## The subcommand -/

structure GitLaunch (q : PolicyQuery) (command : String) (args : List String) : Prop where
  action : q.actionName = "launchCommand"
  command : command = "git"
  caller : q.caller = "session"
  agent : q.agent = "claude-code"
  second : 2 ≤ args.length

structure PinnedSubcommand (q : PolicyQuery) (command : String)
    (args : List String) : Prop extends GitLaunch q command args where
  subcommand : ∃ sub ∈ readOnlySubcommands, args[1]? = some sub

theorem firstToken_ne_nil {sub : String} (known : sub ∈ readOnlySubcommands) :
    sub.toList ≠ [] := by
  revert sub
  decide

theorem solid_subcommand {sub : String} (known : sub ∈ readOnlySubcommands) :
    ' ' ∉ sub.toList := by
  revert sub
  decide

/-- Whatever the pack allows is a git launch, and its second argument is a subcommand
exactly when it is one token. -/
theorem subcommand_pinned_iff {Schema β : Type} (x : Externals Schema β)
    (outcome : Semantics β) (denote : Clauses → β)
    (spec : LanguageSpec x.crate outcome denote) (grammar : UidGrammar x.crate)
    (engine : Engine Schema β)
    (pack : engine.current.set.policies = shippedPolicies denote) (q : PolicyQuery)
    (evalUs : Nat) (allowed : (engine.evaluate x q evalUs).1.allow = true) :
    ∃ command args rule pid, q.target = .command command args rule pid ∧
      GitLaunch q command args ∧
      (PinnedSubcommand q command args ↔
        ∀ second, args[1]? = some second → ' ' ∉ second.toList) := by
  have only : ∀ p ∈ engine.current.set.policies, p.effect = .permit →
      p.body = denote gitReadOnly := by
    rw [pack]
    exact fun p => permit_of_shipped
  obtain ⟨request, entities, built, allow, permitted⟩ :=
    permitted_of_allow spec grammar only allowed
  obtain ⟨command, args, rule, pid, target⟩ := command_of_gitReadOnly built permitted
  rw [pack, pack_allows_iff spec built target] at allow
  obtain ⟨⟨agent, git, sub, known, token⟩, caller, -, -⟩ := allow
  obtain ⟨second, found⟩ := second_of_firstToken (token ▸ firstToken_ne_nil known)
  rw [firstToken_argvTail found] at token
  have launch : GitLaunch q command args := by
    refine ⟨actionName_command target, git, caller, agent, ?_⟩
    have bound := (List.getElem?_eq_some_iff.mp found).1
    omega
  refine ⟨command, args, rule, pid, target, launch, ?_⟩
  constructor
  · intro pinned other same
    obtain ⟨named, listed, here⟩ := pinned.subcommand
    cases here.symm.trans same
    exact solid_subcommand listed
  · intro solid
    have whole : second.toList = sub.toList :=
      (firstToken_of_solid (solid second found)).symm.trans token
    exact ⟨launch, sub, known, String.toList_inj.mp whole ▸ found⟩

/-! ## The pack at work -/

def shippedSet : PolicySet Clauses := ⟨shippedPolicies id, by decide⟩

def launchQuery (args : List String) : PolicyQuery :=
  { statusQuery with target := .command "git" args "git" 42 }

theorem shippedSet_allows_iff (args : List String) (evalUs : Nat) :
    ((packEngine shippedSet).evaluate packExternals (launchQuery args) evalUs).1.allow = true ↔
      (∃ sub ∈ readOnlySubcommands, firstToken (argvTail args).toList = sub.toList) ∧
      (¬ ∃ flag ∈ historyRewriteFlags, flag ∈ args) ∧
      ¬ ("-c" ∈ args ∨ ∃ flag ∈ codeExecutingFlags,
        flag.toList <:+: (argvTail args).toList) := by
  have policies : shippedSet.policies = shippedPolicies id := rfl
  rw [packEngine_allows_iff shippedSet rfl, policies,
    pack_allows_iff languageSpec_packExternals (builtFor_pack (launchQuery args)) rfl]
  simp [launchQuery, statusQuery]

theorem shippedSet_allows_bare :
    ((packEngine shippedSet).evaluate packExternals
      (launchQuery ["/tmp/shims/git", "status"]) 7).1.allow = true := by
  rw [shippedSet_allows_iff]
  refine ⟨⟨"status", by decide, by decide⟩, by decide, ?_⟩
  simp only [codeExecutingFlags, List.exists_mem_cons_iff]
  decide

theorem subcommand_pinned_iff_small :
    GitLaunch (launchQuery ["/tmp/shims/git", "status"]) "git"
      ["/tmp/shims/git", "status"] ∧
      PinnedSubcommand (launchQuery ["/tmp/shims/git", "status"]) "git"
        ["/tmp/shims/git", "status"] := by
  obtain ⟨_, _, _, _, target, launch, iff⟩ :=
    subcommand_pinned_iff packExternals languageOutcome id
      languageSpec_packExternals uidGrammar_packExternals (packEngine shippedSet) rfl
      (launchQuery ["/tmp/shims/git", "status"]) 7 shippedSet_allows_bare
  cases target
  refine ⟨launch, iff.mpr ?_⟩
  intro second found
  cases found
  decide

/-- One argument that begins with a subcommand and goes on behind a space is allowed. -/
theorem longer_argument_allowed :
    ((packEngine shippedSet).evaluate packExternals
      (launchQuery ["/tmp/shims/git", "status x"])
        7).1.allow = true ∧
      ¬ PinnedSubcommand (launchQuery ["/tmp/shims/git", "status x"]) "git"
        ["/tmp/shims/git", "status x"] := by
  constructor
  · rw [shippedSet_allows_iff]
    refine ⟨⟨"status", by decide, by decide⟩, by decide, ?_⟩
    simp only [codeExecutingFlags, List.exists_mem_cons_iff]
    decide
  · intro pinned
    obtain ⟨sub, known, found⟩ := pinned.subcommand
    cases found
    exact absurd known (by decide)

/-! ## The layers -/

/-- A flag that has git execute a command, in its own argument or inside one. -/
def CarriesCodeFlag (args : List String) : Prop :=
  "-c" ∈ args ∨ ∃ i arg flag, 1 ≤ i ∧ args[i]? = some arg ∧ flag ∈ codeExecutingFlags ∧
    flag.toList <:+: arg.toList

theorem head_firstToken {text : List Char} {c : Char} (solid : c ≠ ' ')
    (head : text.head? = some c) : (firstToken text).head? = some c := by
  cases text with
  | nil => cases head
  | cons d rest =>
      cases head
      simp [firstToken, solid]

section Layers
variable {Schema β : Type} {x : Externals Schema β} {outcome : Semantics β}
  {denote : Clauses → β} (spec : LanguageSpec x.crate outcome denote)
  (grammar : UidGrammar x.crate) {engine : Engine Schema β} {q : PolicyQuery}
  {args : List String} {rule : String} {pid : UInt32}
  (target : q.target = .command "git" args rule pid) (evalUs : Nat)

include spec grammar target in
theorem denied_of_codeFlag
    (forbids : Forbids engine.current.set (denote noCodeExecutingGitFlags))
    (carries : CarriesCodeFlag args) : (engine.evaluate x q evalUs).1.allow = false := by
  by_contra open_
  obtain ⟨request, entities, built, allow⟩ :=
    built_of_allow spec grammar (Bool.not_eq_false _ ▸ open_)
  refine not_satisfied_of_forbids spec forbids allow ?_
  refine (noCodeExecutingGitFlags_satisfied_iff built target).mpr ⟨rfl, ?_⟩
  cases carries with
  | inl own => exact .inl own
  | inr inside =>
      obtain ⟨i, arg, flag, later, found, listed, part⟩ := inside
      exact .inr ⟨flag, listed, part.trans (infix_argvTail later found)⟩

include spec grammar target in
/-- The permit wants a subcommand first, and no subcommand begins with a dash. -/
theorem denied_of_dash (only : ∀ p ∈ engine.current.set.policies, p.effect = .permit →
      p.body = denote gitReadOnly) {second : String} (found : args[1]? = some second)
    (dash : second.toList.head? = some '-') :
      (engine.evaluate x q evalUs).1.allow = false := by
  by_contra open_
  obtain ⟨request, entities, built, -, permitted⟩ :=
    permitted_of_allow spec grammar only (Bool.not_eq_false _ ▸ open_)
  obtain ⟨-, -, sub, known, token⟩ :=
    (gitReadOnly_satisfied_iff built target).mp permitted
  have front := head_firstToken (by decide) dash
  rw [← firstToken_argvTail found, token] at front
  have noDash : ∀ sub ∈ readOnlySubcommands, sub.toList.head? ≠ some '-' := by decide
  exact noDash sub known front

end Layers

/-- The flag forbid refuses a code-executing flag in any set, and without it the permit
refuses a flag in the subcommand's place. -/
theorem layers_hold_alone {Schema β : Type} (x : Externals Schema β)
    (outcome : Semantics β) (denote : Clauses → β)
    (spec : LanguageSpec x.crate outcome denote) (grammar : UidGrammar x.crate) :
    (∀ (engine : Engine Schema β) (q : PolicyQuery) (args : List String) (rule : String)
        (pid : UInt32) (evalUs : Nat),
      Forbids engine.current.set (denote noCodeExecutingGitFlags) →
      q.target = .command "git" args rule pid → CarriesCodeFlag args →
        (engine.evaluate x q evalUs).1.allow = false) ∧
    (∀ (engine : Engine Schema β) (q : PolicyQuery) (args : List String) (rule : String)
        (pid : UInt32) (second : String) (evalUs : Nat),
      engine.current.set.policies = (shippedPolicies denote).filter
        (fun p => p.id ≠ "10-git:no-code-executing-git-flags") →
      q.target = .command "git" args rule pid → args[1]? = some second →
        second.toList.head? = some '-' →
        (engine.evaluate x q evalUs).1.allow = false) := by
  constructor
  · intro engine q args rule pid evalUs forbids target carries
    exact denied_of_codeFlag spec grammar target evalUs forbids carries
  · intro engine q args rule pid second evalUs without target found dash
    have only : ∀ p ∈ engine.current.set.policies, p.effect = .permit →
        p.body = denote gitReadOnly := by
      rw [without]
      exact fun p mem => permit_of_shipped (List.mem_filter.mp mem).1
    exact denied_of_dash spec grammar target evalUs only found dash

/-- A permit for everything beside the flag forbid. -/
def openFlagSet : PolicySet Clauses :=
  ⟨[⟨"99-open:0", .permit, [], permitAll⟩, noCodeExecutingGitFlagsPolicy id], by decide⟩

def permitOnlySet : PolicySet Clauses :=
  ⟨(shippedPolicies id).filter (fun p =>
    p.id ≠ "10-git:no-code-executing-git-flags"), by decide⟩

/-- The configuration flag in front of the subcommand, against each layer alone. -/
theorem layers_hold_alone_small :
    ((packEngine openFlagSet).evaluate packExternals
        (launchQuery ["/tmp/shims/git", "-c", "core.fsmonitor=x", "status"]) 7).1.allow = false ∧
      ((packEngine permitOnlySet).evaluate packExternals
        (launchQuery ["/tmp/shims/git", "-c", "core.fsmonitor=x", "status"]) 7).1.allow =
          false := by
  have layers :=
    layers_hold_alone packExternals languageOutcome id languageSpec_packExternals
      uidGrammar_packExternals
  constructor
  · exact layers.1 (packEngine openFlagSet) _ _ _ _ 7
      ⟨_, List.mem_cons_of_mem _ List.mem_cons_self, rfl, rfl⟩ rfl (.inl (by decide))
  · exact layers.2 (packEngine permitOnlySet) _ _ _ _ "-c" 7 rfl rfl rfl (by decide)

end NonoCedarPdp
