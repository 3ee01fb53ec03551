import NonoCedarPdp.Engine
import NonoCedarPdp.EntityIds
import NonoCedarPdp.PolicyLanguage

/-!
The policies the daemon ships with, `policies/00-baseline.cedar` and
`policies/10-git.cedar`, and what each makes of a request the daemon built.
-/
namespace NonoCedarPdp
open Cedar

def launchCommand : EntityUid := ⟨"Nono::Action", "launchCommand"⟩

/-! ## `00-baseline.cedar` -/

def sessionLaunchesOnly : Clauses where
  principal := .any
  action := .eq launchCommand
  resource := .any
  conditions := [⟨true, .eq .principal (.uid ⟨"Nono::Caller", "session"⟩)⟩]

def noUnknownAgents : Clauses where
  principal := .any
  action := .any
  resource := .any
  conditions := [⟨false, .isIn .principal (.uid ⟨"Nono::Agent", "unknown"⟩)⟩]

/-! ## `10-git.cedar` -/

def commandName : Expr := .attr .resource "command"

def argsSet : Expr := .attr .resource "args"

def argvTailText : Expr := .attr .resource "argv_tail"

/-- `*` is a star in a `like` pattern. -/
def likeText (text : String) : Glob.Pattern Char :=
  text.toList.map fun c => if c = '*' then .star else .letter c

/-- What the permit asks of the tail besides `== "status"`. -/
def otherReadOnlyTails : List Expr :=
  [.like argvTailText (likeText "status *"),
    .eq argvTailText (.string "diff"), .like argvTailText (likeText "diff *"),
    .eq argvTailText (.string "log"), .like argvTailText (likeText "log *"),
    .eq argvTailText (.string "show"), .like argvTailText (likeText "show *")]

def gitReadOnly : Clauses where
  principal := .isIn ⟨"Nono::Agent", "claude-code"⟩
  action := .eq launchCommand
  resource := .any
  conditions := [⟨false, .and (.eq commandName (.string "git"))
    (anyOf (.eq argvTailText (.string "status")) otherReadOnlyTails)⟩]

def otherHistoryRewrites : List Expr :=
  [.contains argsSet (.string "--force-with-lease"), .contains argsSet (.string "--hard")]

def noHistoryRewrites : Clauses where
  principal := .any
  action := .eq launchCommand
  resource := .any
  conditions :=
    [⟨false, anyOf (.contains argsSet (.string "--force")) otherHistoryRewrites⟩]

/-- The flags that take their value in one argument with them. -/
def codeExecutingTails : List Expr :=
  [.like argvTailText (likeText "*--config-env*"),
    .like argvTailText (likeText "*--exec-path*"),
    .like argvTailText (likeText "*--upload-pack*"),
    .like argvTailText (likeText "*--receive-pack*")]

def noCodeExecutingGitFlags : Clauses where
  principal := .any
  action := .eq launchCommand
  resource := .any
  conditions := [⟨false, .and (.eq commandName (.string "git"))
    (anyOf (.contains argsSet (.string "-c")) codeExecutingTails)⟩]

section Pack
variable {β : Type} (denote : Clauses → β)

def sessionLaunchesOnlyPolicy : Policy β :=
  ⟨"00-baseline:session-launches-only", .forbid, [("id", "session-launches-only")],
    denote sessionLaunchesOnly⟩

def noUnknownAgentsPolicy : Policy β :=
  ⟨"00-baseline:no-unknown-agents", .forbid, [("id", "no-unknown-agents")],
    denote noUnknownAgents⟩

def gitReadOnlyPolicy : Policy β :=
  ⟨"10-git:git-read-only", .permit, [("id", "git-read-only")], denote gitReadOnly⟩

def noHistoryRewritesPolicy : Policy β :=
  ⟨"10-git:no-history-rewrites", .forbid, [("id", "no-history-rewrites")],
    denote noHistoryRewrites⟩

def noCodeExecutingGitFlagsPolicy : Policy β :=
  ⟨"10-git:no-code-executing-git-flags", .forbid, [("id", "no-code-executing-git-flags")],
    denote noCodeExecutingGitFlags⟩

/-- The pack as it is loaded, with the file's name in front of each id. -/
def shippedPolicies : List (Policy β) :=
  [sessionLaunchesOnlyPolicy denote, noUnknownAgentsPolicy denote,
    gitReadOnlyPolicy denote, noHistoryRewritesPolicy denote,
    noCodeExecutingGitFlagsPolicy denote]

end Pack

/-! ## Requests the daemon built -/

section Built
variable {q : PolicyQuery} {request : Request} {entities : Entities}

/-- A request over the slice of a query, with the query's action. -/
structure BuiltFor (q : PolicyQuery) (request : Request)
    (entities : Entities) : Prop where
  principal : request.principal = (uidsOf q).caller
  resource : request.resource = (uidsOf q).resource
  action : request.action = ⟨"Nono::Action", q.actionName⟩
  entities : entities.entities = slice (uidsOf q) q

theorem builtFor_of_build {Schema β : Type} {crate : Crate Schema β}
    (grammar : UidGrammar crate) {schema : Schema}
    (h : build crate q schema = .ok (request, entities)) :
    BuiltFor q request entities := by
  obtain ⟨principal, resource, whole⟩ := uids_of_build grammar h
  obtain ⟨-, -, action, -⟩ := slice_of_build h
  rw [actionText_eq] at action
  exact ⟨principal, resource, uid_of_uidText grammar (by decide) action, whole⟩

theorem BuiltFor.find_resource (built : BuiltFor q request entities) :
    entities.find request.resource = some ⟨(uidsOf q).resource, resourceAttrs q, []⟩ := by
  rw [Entities.find, built.entities, built.resource]
  obtain type | type := resourceType_cases q <;> simp [slice, uidsOf, type]

theorem BuiltFor.attr (built : BuiltFor q request entities) {name : String}
    {value : RestrictedExpression} (found : (resourceAttrs q).lookup name = some value) :
    evaluate request entities (.attr .resource name) = .ok (.data value) := by
  simp only [evaluate, Bind.bind, Except.bind, built.find_resource,
    Option.map_some, found]

/-- The principal is in its own agent and in no other. -/
theorem BuiltFor.isIn_agent (built : BuiltFor q request entities) (agent : String) :
    entities.isIn request.principal ⟨"Nono::Agent", agent⟩ =
      decide (q.agent = agent) := by
  have session : entities.parentsOf ⟨"Nono::Session", q.sessionId⟩ =
      [⟨"Nono::Agent", q.agent⟩] := by
    simp [Entities.parentsOf, Entities.find, built.entities, slice, uidsOf]
  have caller : entities.parentsOf ⟨"Nono::Caller", q.caller⟩ =
      [⟨"Nono::Session", q.sessionId⟩] := by
    simp [Entities.parentsOf, Entities.find, built.entities, slice, uidsOf]
  have top : entities.parentsOf ⟨"Nono::Agent", q.agent⟩ = [] := by
    simp [Entities.parentsOf, Entities.find, built.entities, slice, uidsOf]
  have size : entities.entities.length = 4 := by rw [built.entities]; rfl
  rw [Entities.isIn, size, built.principal, uidsOf]
  simp [Entities.within, caller, session, top]

/-- An action is not in any other entity, so `action ==` is a test of its id. -/
theorem BuiltFor.action_eq_launchCommand (built : BuiltFor q request entities) :
    request.action = launchCommand ↔ q.actionName = "launchCommand" := by
  rw [built.action, launchCommand, EntityUid.mk.injEq]
  simp

/-! ## What the conditions see of a command -/

theorem memberOf_map_string (args : List String) (text : String) :
    RestrictedExpression.memberOf (args.map .string) (.string text) =
      decide (text ∈ args) := by
  induction args with
  | nil => simp [RestrictedExpression.memberOf]
  | cons arg args ih =>
      simp [RestrictedExpression.memberOf, RestrictedExpression.same, ih, eq_comm]

variable {command rule : String} {args : List String} {pid : UInt32}

section Command
variable (built : BuiltFor q request entities)
  (target : q.target = .command command args rule pid)
include built target

theorem evaluate_commandName :
    evaluate request entities commandName = .ok (.data (.string command)) :=
  built.attr (by rw [resourceAttrs, target]; rfl)

theorem evaluate_argsSet :
    evaluate request entities argsSet = .ok (.data (.set (args.map .string))) :=
  built.attr (by rw [resourceAttrs, target]; rfl)

theorem evaluate_argvTailText :
    evaluate request entities argvTailText = .ok (.data (.string (argvTail args))) :=
  built.attr (by rw [resourceAttrs, target]; rfl)

theorem holds_commandName (name : String) :
    Holds request entities (.eq commandName (.string name))
      (decide (command = name)) := by
  rw [Holds, evaluate, evaluate_commandName built target]
  rfl

theorem holds_argvTail_eq (text : String) :
    Holds request entities (.eq argvTailText (.string text))
      (decide (argvTail args = text)) := by
  rw [Holds, evaluate, evaluate_argvTailText built target]
  rfl

theorem holds_argvTail_like (pattern : Glob.Pattern Char) :
    Holds request entities (.like argvTailText pattern)
      (Glob.accepts pattern (argvTail args).toList) := by
  rw [Holds, evaluate, evaluate_argvTailText built target]
  rfl

theorem holds_argsSet (text : String) :
    Holds request entities (.contains argsSet (.string text)) (decide (text ∈ args)) := by
  rw [Holds, evaluate, evaluate_argsSet built target]
  simp only [Bind.bind, Except.bind, evaluate, memberOf_map_string]

end Command

end Built

end NonoCedarPdp
