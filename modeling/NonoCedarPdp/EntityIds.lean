import NonoCedarPdp.Entities
import NonoCedarPdp.Lib.QuotedLiteral

/-!
The entity ids of a built request. An id is spliced into the text of a uid and read back
by the crate's grammar; escaping makes that a round trip, so every entity of the slice
carries the id it was built for and no text can name another entity.
-/
namespace NonoCedarPdp
open Cedar RustText QuotedLiteral

/-! ## The grammar of entity uids -/

def isIdentifier (name : List Char) : Bool :=
  !name.isEmpty && name.all fun c => c.isAlphanum || c == '_'

/-- Identifiers with `::` between them. -/
inductive TypePath : List Char → Prop
  | name {name : List Char} (identifier : isIdentifier name = true) : TypePath name
  | scope {name path : List Char} (identifier : isIdentifier name = true)
      (rest : TypePath path) : TypePath (name ++ ':' :: ':' :: path)

/-- A type path, `::`, and a string literal whose body stands for the id. -/
structure UidLiteral (text : String) (uid : EntityUid) : Prop where
  path : TypePath uid.typeName.toList
  literal : ∃ body, Body body uid.id.toList ∧
    text.toList = uid.typeName.toList ++ ':' :: ':' :: '"' :: (body ++ ['"'])

/-- What the crate's reader of uids is relied on for: it accepts uid literals only, and
returns what they denote. -/
def UidGrammar {Schema β : Type} (crate : Crate Schema β) : Prop :=
  ∀ text uid, crate.uidFromStr text = .ok uid → UidLiteral text uid

theorem no_quote_of_isIdentifier {name : List Char} (h : isIdentifier name = true) :
    '"' ∉ name := by
  intro mem
  have letters := (Bool.and_eq_true _ _ ▸ h).2
  exact absurd (List.all_eq_true.mp letters _ mem) (by decide)

theorem TypePath.no_quote {path : List Char} (h : TypePath path) : '"' ∉ path := by
  induction h with
  | name identifier => exact no_quote_of_isIdentifier identifier
  | scope identifier _ ih => simp [no_quote_of_isIdentifier identifier, ih]

/-- Two texts that agree agree before and behind their first quote. -/
theorem split_at_first {a a' b b' : List Char} {c : Char} (fresh : c ∉ a)
    (fresh' : c ∉ a') (same : a ++ c :: b = a' ++ c :: b') : a = a' ∧ b = b' := by
  induction a generalizing a' with
  | nil =>
      cases a' with
      | nil => exact ⟨rfl, (List.cons.inj same).2⟩
      | cons d a' =>
          obtain ⟨rfl, -⟩ := List.cons.inj same
          exact absurd List.mem_cons_self fresh'
  | cons d a ih =>
      cases a' with
      | nil =>
          obtain ⟨rfl, -⟩ := List.cons.inj same
          exact absurd List.mem_cons_self fresh
      | cons d' a' =>
          obtain ⟨rfl, rest⟩ := List.cons.inj same
          obtain ⟨rfl, rfl⟩ := ih (fun mem => fresh (List.mem_cons_of_mem _ mem))
            (fun mem => fresh' (List.mem_cons_of_mem _ mem)) rest
          exact ⟨rfl, rfl⟩

/-! ## The round trip -/

theorem toList_replaceChar (old : Char) (new s : String) :
    (replaceChar old new s).toList =
      s.toList.flatMap fun c => if c = old then new.toList else [c] := by
  rw [replaceChar, String.toList_join, List.flatMap_map]
  congr 1
  funext c
  split <;> simp

/-- The two replacements come to one pass. -/
theorem toList_escape (raw : String) : (escape raw).toList = escapeText raw.toList := by
  rw [escape, toList_replaceChar, toList_replaceChar, List.flatMap_assoc, escapeText]
  congr 1
  funext c
  by_cases backslash : c = '\\'
  · subst backslash
    rfl
  · rw [if_neg backslash, escapeChar, if_neg backslash]
    simp

theorem toList_uidText (typeName id : String) : (uidText typeName id).toList =
    ("Nono::" ++ typeName).toList ++ ':' :: ':' :: '"' ::
      (escapeText id.toList ++ ['"']) := by
  simp [uidText, toList_escape]

/-- The literal built for an id closes at its last quote. -/
theorem uidText_closes (typeName id : String) :
    ∃ opened, (uidText typeName id).toList =
      ("Nono::" ++ typeName).toList ++ ':' :: ':' :: '"' :: opened ∧
      splitAtQuote opened = some (escapeText id.toList, []) :=
  ⟨_, toList_uidText typeName id, splitAtQuote_escapeText id.toList []⟩

/-- The crate reads the uid of an id back as that id. -/
theorem uid_of_uidText {Schema β : Type} {crate : Crate Schema β}
    (grammar : UidGrammar crate) {typeName id : String} {u : EntityUid}
    (plain : '"' ∉ ("Nono::" ++ typeName).toList)
    (read : uid crate (uidText typeName id) = .ok u) :
      u = ⟨"Nono::" ++ typeName, id⟩ := by
  rw [uid] at read
  cases accepted : crate.uidFromStr (uidText typeName id) with
  | error e => rw [accepted] at read; cases read
  | ok v =>
      rw [accepted] at read
      cases read
      obtain ⟨path, body, denotes, text⟩ := grammar _ _ accepted
      have before {p : List Char} (b : List Char) :
          p ++ ':' :: ':' :: '"' :: b = (p ++ [':', ':']) ++ '"' :: b := by
        simp
      rw [toList_uidText, before, before] at text
      obtain ⟨types, bodies⟩ :=
        split_at_first (by simpa using plain) (by simpa using path.no_quote) text
      have type : ("Nono::" ++ typeName).toList = u.typeName.toList :=
        List.append_cancel_right types
      have source : escapeText id.toList = body := List.append_cancel_right bodies
      have value : u.id.toList = id.toList := Body.unique (source ▸ denotes)
      obtain ⟨_, _⟩ := u
      rw [EntityUid.mk.injEq]
      exact ⟨(String.toList_inj.mp type).symm, String.toList_inj.mp value⟩

/-! ## What a built request holds -/

def resourceType (q : PolicyQuery) : String :=
  match q.target with
  | .command .. => "Command"
  | .endpoint .. => "HttpEndpoint"

def resourceAttrs (q : PolicyQuery) : List (String × RestrictedExpression) :=
  match q.target with
  | .command command args _ _ =>
      [("command", .string command),
        ("args", .set (args.map .string)),
        ("argv_tail", .string (argvTail args)),
        ("arg_count", .long args.length)]
  | .endpoint routeId upstream method path _ _ =>
      [("route_id", .string routeId),
        ("upstream", .string upstream),
        ("method", .string method),
        ("path", .string path)]

def contextPairs (q : PolicyQuery) : List (String × RestrictedExpression) :=
  (match q.target with
  | .command _ _ interceptRule childPid =>
      [("backend", .string q.backend),
        ("intercept_rule", .string interceptRule),
        ("caller_kind", .string q.callerKind.asStr),
        ("child_pid", .long childPid.toNat),
        ("session_id", .string q.sessionId)]
  | .endpoint _ _ _ _ ruleLabel _ =>
      [("backend", .string q.backend),
        ("rule_label", .string ruleLabel)]) ++
    (q.reason.map fun reason => ("reason", RestrictedExpression.string reason)).toList

def actionText (q : PolicyQuery) : String := "Nono::Action::\"" ++ q.actionName ++ "\""

theorem actionText_eq (q : PolicyQuery) :
    actionText q = uidText "Action" q.actionName := by
  change "Nono::Action::\"" ++ q.actionName ++ "\"" = uidText "Action" q.actionName
  rw [PolicyQuery.actionName]
  cases q.target with
  | command => exact (by decide +kernel :
      "Nono::Action::\"" ++ "launchCommand" ++ "\"" = uidText "Action" "launchCommand")
  | endpoint => exact (by decide +kernel :
      "Nono::Action::\"" ++ "httpRequest" ++ "\"" = uidText "Action" "httpRequest")

theorem resourceType_cases (q : PolicyQuery) :
    resourceType q = "Command" ∨ resourceType q = "HttpEndpoint" := by
  rw [resourceType]
  cases q.target with
  | command => exact .inl rfl
  | endpoint => exact .inr rfl

/-- The uids of a slice: agent, session, caller, resource. -/
structure SliceUids where
  agent : EntityUid
  session : EntityUid
  caller : EntityUid
  resource : EntityUid

def slice (uids : SliceUids) (q : PolicyQuery) : List Entity :=
  [⟨uids.agent, [], []⟩, ⟨uids.session, [], [uids.agent]⟩,
    ⟨uids.caller, [], [uids.session]⟩, ⟨uids.resource, resourceAttrs q, []⟩]

/-- What each uid of a slice was read from. -/
structure ReadFrom {Schema β : Type} (crate : Crate Schema β) (q : PolicyQuery)
    (uids : SliceUids) : Prop where
  agent : uid crate (uidText "Agent" q.agent) = .ok uids.agent
  session : uid crate (uidText "Session" q.sessionId) = .ok uids.session
  caller : uid crate (uidText "Caller" q.caller) = .ok uids.caller
  resource : uid crate (uidText (resourceType q) q.requestId) = .ok uids.resource

section Build
variable {Schema β : Type} {crate : Crate Schema β} {schema : Schema} {q : PolicyQuery}
  {request : Request} {entities : Entities}

/-- The construction without its arms: what differs by target is the resource's type and
attributes, the action and the context. -/
theorem build_eq (q : PolicyQuery) (schema : Schema) : build crate q schema = (do
    let agentUid ← uid crate (uidText "Agent" q.agent)
    let sessionUid ← uid crate (uidText "Session" q.sessionId)
    let callerUid ← uid crate (uidText "Caller" q.caller)
    let resourceUid ← uid crate (uidText (resourceType q) q.requestId)
    let resource ← (Entity.new crate resourceUid (resourceAttrs q)
        []).mapError entityFailure
    let action ← uid crate (actionText q)
    let entities ← (Entities.fromEntities crate
      [⟨agentUid, [], []⟩, ⟨sessionUid, [], [agentUid]⟩,
        ⟨callerUid, [], [sessionUid]⟩, resource]
      schema).mapError entityFailure
    let context ← (Context.fromPairs crate (contextPairs q)).mapError fun e =>
        .context (controlEscape e)
    let request ← (Request.new crate callerUid action resourceUid context schema).mapError
      fun e => .request (controlEscape e)
    pure (request, entities)) := by
  obtain ⟨agent, sessionId, caller, callerKind, requestId, backend, reason, target⟩ := q
  rw [build]
  cases target with
  | command | endpoint => rfl

/-- A query reaches the construction through its four ids, its kind, the attributes and
the context. -/
theorem build_congr {q q' : PolicyQuery} (agent : q.agent = q'.agent)
    (session : q.sessionId = q'.sessionId) (caller : q.caller = q'.caller)
    (requestId : q.requestId = q'.requestId) (type : resourceType q = resourceType q')
    (action : actionText q = actionText q') (attrs : resourceAttrs q = resourceAttrs q')
    (context : contextPairs q = contextPairs q') (schema : Schema) :
    build crate q schema = build crate q' schema := by
  rw [build_eq, build_eq, agent, session, caller, requestId, type, action, attrs, context]

theorem bind_eq_ok {ε α γ : Type} {x : Except ε α} {f : α → Except ε γ} {r : γ}
    (h : x >>= f = .ok r) : ∃ a, x = .ok a ∧ f a = .ok r := by
  cases x with
  | error e => cases h
  | ok a => exact ⟨a, rfl, h⟩

theorem accept_eq_ok {ε α : Type} {f : String → ε} {error : Option String} {value r : α}
    (h : (accept error value).mapError f = .ok r) : value = r := by
  cases error with
  | none => exact Except.ok.inj h
  | some e => cases h

/-- The principal is the caller, the resource is the request, and the slice is the four
entities with the target's attributes. -/
theorem slice_of_build (h : build crate q schema = .ok (request, entities)) :
    ∃ uids, ReadFrom crate q uids ∧ uid crate (actionText q) = .ok request.action ∧
      request.principal = uids.caller ∧ request.resource = uids.resource ∧
      request.context = ⟨contextPairs q⟩ ∧ entities.entities = slice uids q := by
  rw [build_eq] at h
  obtain ⟨agent, readAgent, h⟩ := bind_eq_ok h
  obtain ⟨session, readSession, h⟩ := bind_eq_ok h
  obtain ⟨caller, readCaller, h⟩ := bind_eq_ok h
  obtain ⟨resource, readResource, h⟩ := bind_eq_ok h
  obtain ⟨resourceEntity, made, h⟩ := bind_eq_ok h
  obtain ⟨action, readAction, h⟩ := bind_eq_ok h
  obtain ⟨entities', collected, h⟩ := bind_eq_ok h
  obtain ⟨context, paired, h⟩ := bind_eq_ok h
  obtain ⟨request', asked, h⟩ := bind_eq_ok h
  cases h
  cases accept_eq_ok made
  cases accept_eq_ok collected
  cases accept_eq_ok paired
  cases accept_eq_ok asked
  exact ⟨⟨agent, session, caller, resource⟩,
    ⟨readAgent, readSession, readCaller, readResource⟩, readAction, rfl, rfl, rfl, rfl⟩

theorem no_quote_resourceType (q : PolicyQuery) :
    '"' ∉ ("Nono::" ++ resourceType q).toList := by
  obtain type | type := resourceType_cases q
  · rw [type]
    decide
  · rw [type]
    decide

def uidsOf (q : PolicyQuery) : SliceUids where
  agent := ⟨"Nono::Agent", q.agent⟩
  session := ⟨"Nono::Session", q.sessionId⟩
  caller := ⟨"Nono::Caller", q.caller⟩
  resource := ⟨"Nono::" ++ resourceType q, q.requestId⟩

/-- Every uid of a built slice is the id it was built for, under its type. -/
theorem uids_of_build (grammar : UidGrammar crate)
    (h : build crate q schema = .ok (request, entities)) :
    request.principal = (uidsOf q).caller ∧ request.resource = (uidsOf q).resource ∧
      entities.entities = slice (uidsOf q) q := by
  obtain ⟨⟨agent, session, caller, resource⟩, read, -, principal, asked, -, entities⟩ :=
    slice_of_build h
  have agentUid := uid_of_uidText grammar (by decide) read.agent
  have sessionUid := uid_of_uidText grammar (by decide) read.session
  have callerUid := uid_of_uidText grammar (by decide) read.caller
  have resourceUid := uid_of_uidText grammar (no_quote_resourceType q) read.resource
  dsimp only at agentUid sessionUid callerUid resourceUid
  subst agentUid sessionUid callerUid resourceUid
  exact ⟨principal, asked, entities⟩

end Build

/-- The uid of the entity at a position of the slice. -/
def uidAt (entities : Entities) (i : Nat) : Option EntityUid :=
  (entities.entities.map Entity.uid)[i]?

/-- No id breaks out of its literal: the slice is the chain of caller, session and agent
and the resource, each under the id it was built for, and other ids make other uids. -/
theorem no_break_out {Schema β : Type} (crate : Crate Schema β)
    (grammar : UidGrammar crate) (schema schema' : Schema) (q q' : PolicyQuery)
    (request request' : Request) (entities entities' : Entities)
    (built : build crate q schema = .ok (request, entities))
    (built' : build crate q' schema' = .ok (request', entities')) :
    (request.principal = ⟨"Nono::Caller", q.caller⟩ ∧
      request.resource = ⟨"Nono::" ++ resourceType q, q.requestId⟩ ∧
      entities.entities =
        [⟨⟨"Nono::Agent", q.agent⟩, [], []⟩,
          ⟨⟨"Nono::Session", q.sessionId⟩, [], [⟨"Nono::Agent", q.agent⟩]⟩,
          ⟨⟨"Nono::Caller", q.caller⟩, [], [⟨"Nono::Session", q.sessionId⟩]⟩,
          ⟨⟨"Nono::" ++ resourceType q, q.requestId⟩, resourceAttrs q, []⟩]) ∧
    (∀ typeName id, (typeName, id) ∈ [("Agent", q.agent), ("Session", q.sessionId),
        ("Caller", q.caller), (resourceType q, q.requestId)] →
      ∃ opened, (uidText typeName id).toList =
          ("Nono::" ++ typeName).toList ++ ':' :: ':' :: '"' :: opened ∧
        splitAtQuote opened = some (escapeText id.toList, [])) ∧
    (q.agent ≠ q'.agent → uidAt entities 0 ≠ uidAt entities' 0) ∧
    (q.sessionId ≠ q'.sessionId → uidAt entities 1 ≠ uidAt entities' 1) ∧
    (q.caller ≠ q'.caller → request.principal ≠ request'.principal) ∧
    (q.requestId ≠ q'.requestId → request.resource ≠ request'.resource) := by
  obtain ⟨principal, resource, whole⟩ := uids_of_build grammar built
  obtain ⟨principal', resource', whole'⟩ := uids_of_build grammar built'
  refine ⟨⟨principal, resource, whole⟩, fun typeName id _ => uidText_closes typeName id,
    ?_, ?_, ?_, ?_⟩
  · intro differ same
    simp only [uidAt, whole, whole', slice, uidsOf] at same
    exact differ (by simpa using same)
  · intro differ same
    simp only [uidAt, whole, whole', slice, uidsOf] at same
    exact differ (by simpa using same)
  · intro differ same
    rw [principal, principal', uidsOf, uidsOf] at same
    exact differ (EntityUid.mk.inj same).2
  · intro differ same
    rw [resource, resource', uidsOf, uidsOf] at same
    exact differ (EntityUid.mk.inj same).2

/-! ## A reader of uids -/

def schemaPaths : List String :=
  ["Nono::Agent", "Nono::Session", "Nono::Caller", "Nono::Command", "Nono::HttpEndpoint",
    "Nono::Action"]

/-- Reads the uids of the schema's types. -/
def readUidLiteral (text : String) : Except String EntityUid :=
  match schemaPaths.find? fun path => (path ++ "::\"").toList.isPrefixOf text.toList with
  | none => .error "unknown type"
  | some path =>
      match splitAtQuote (text.toList.drop (path ++ "::\"").toList.length) with
      | some (body, []) =>
          match unescape body with
          | some id => .ok ⟨path, String.ofList id⟩
          | none => .error "unexpected escape"
      | _ => .error "unexpected end of input"

theorem typePath_of_schema {path : String} (known : path ∈ schemaPaths) :
    TypePath path.toList := by
  have nono (name : String) (identifier : isIdentifier name.toList = true) :
      TypePath ("Nono::" ++ name).toList := by
    have whole : ("Nono::" ++ name).toList =
        "Nono".toList ++ ':' :: ':' :: name.toList := by simp
    rw [whole]
    exact .scope (by decide) (.name identifier)
  simp only [schemaPaths, List.mem_cons, List.not_mem_nil, or_false] at known
  obtain rfl | rfl | rfl | rfl | rfl | rfl := known
  · exact nono "Agent" (by decide)
  · exact nono "Session" (by decide)
  · exact nono "Caller" (by decide)
  · exact nono "Command" (by decide)
  · exact nono "HttpEndpoint" (by decide)
  · exact nono "Action" (by decide)

theorem uidLiteral_of_read {text : String} {u : EntityUid}
    (h : readUidLiteral text = .ok u) : UidLiteral text u := by
  rw [readUidLiteral] at h
  split at h
  · cases h
  · next path found =>
    split at h
    · next body opened =>
      split at h
      · next id read =>
        cases h
        have front : (path ++ "::\"").toList <+: text.toList :=
          List.isPrefixOf_iff_prefix.mp (by simpa using List.find?_some found)
        have whole := List.prefix_iff_eq_append.mp front
        refine ⟨typePath_of_schema (List.mem_of_find?_eq_some found), body, ?_, ?_⟩
        · simpa using body_of_unescape read
        · rw [← whole, eq_of_splitAtQuote opened]
          simp
      · cases h
    · cases h

/-- The path in front of a literal is the one it was built with. -/
theorem find_schemaPath {path : String} (known : path ∈ schemaPaths)
    {text rest : List Char} (whole : text = (path ++ "::\"").toList ++ rest) :
    schemaPaths.find? (fun p => (p ++ "::\"").toList.isPrefixOf text) = some path := by
  cases first : schemaPaths.find? (fun p => (p ++ "::\"").toList.isPrefixOf text) with
  | none =>
      have refused := List.find?_eq_none.mp first _ known
      rw [whole, List.isPrefixOf_iff_prefix] at refused
      exact absurd (List.prefix_append _ _) refused
  | some found =>
      have front : (found ++ "::\"").toList <+: text :=
        List.isPrefixOf_iff_prefix.mp (by simpa using List.find?_some first)
      have noQuote := (typePath_of_schema (List.mem_of_find?_eq_some first)).no_quote
      have noQuote' := (typePath_of_schema known).no_quote
      have split := List.prefix_iff_eq_append.mp front
      have before (p : String) (b : List Char) :
          (p ++ "::\"").toList ++ b = (p.toList ++ [':', ':']) ++ '"' :: b := by simp
      rw [whole, before, before] at split
      obtain ⟨same, -⟩ :=
        split_at_first (by simpa using noQuote) (by simpa using noQuote') split
      rw [String.toList_inj.mp (List.append_cancel_right same)]

/-- The reader accepts every uid the daemon builds. -/
theorem readUidLiteral_uidText {typeName : String}
    (known : "Nono::" ++ typeName ∈ schemaPaths) (id : String) :
      readUidLiteral (uidText typeName id) = .ok ⟨"Nono::" ++ typeName, id⟩ := by
  have text : (uidText typeName id).toList =
      ("Nono::" ++ typeName ++ "::\"").toList ++ (escapeText id.toList ++ ['"']) := by
    rw [toList_uidText]
    simp
  have opened : splitAtQuote (escapeText id.toList ++ ['"']) =
      some (escapeText id.toList, []) :=
    splitAtQuote_escapeText id.toList []
  rw [readUidLiteral, find_schemaPath known text]
  simp only [text, List.drop_left, opened, unescape_escapeText, String.ofList_toList]

/-- Cedar with this reader, on schemas that accept every request. -/
def literalCrate {β : Type} (isAuthorized : Request → PolicySet β → Entities → Response) :
    Crate Unit β where
  toPolicySets := .plain
  uidFromStr := readUidLiteral
  entityError _ _ := none
  entitiesError _ _ := none
  contextError _ := none
  requestError _ _ := none
  parsePolicies _ := .error "unexpected token"
  validationErrors _ _ := []
  isAuthorized

theorem uidGrammar_literalCrate {β : Type}
    (isAuthorized : Request → PolicySet β → Entities → Response) :
    UidGrammar (literalCrate isAuthorized) :=
  fun _ _ read => uidLiteral_of_read read

theorem build_literalCrate {β : Type}
    (isAuthorized : Request → PolicySet β → Entities → Response) (q : PolicyQuery) :
      build (literalCrate isAuthorized) q () =
      .ok (⟨(uidsOf q).caller, ⟨"Nono::Action", q.actionName⟩, (uidsOf q).resource,
        ⟨contextPairs q⟩⟩, ⟨slice (uidsOf q) q⟩) := by
  have read {typeName : String} (known : "Nono::" ++ typeName ∈ schemaPaths)
      (id : String) :
      uid (literalCrate isAuthorized) (uidText typeName id) =
        .ok ⟨"Nono::" ++ typeName, id⟩ := by
    simp only [uid, literalCrate, readUidLiteral_uidText known, Except.mapError]
  have resource : "Nono::" ++ resourceType q ∈ schemaPaths := by
    obtain type | type := resourceType_cases q
    · rw [type]
      decide
    · rw [type]
      decide
  rw [build_eq, actionText_eq, read (by decide), read (by decide), read (by decide),
    read resource, read (by decide)]
  rfl

def breakOutQuery (caller : String) : PolicyQuery where
  agent := "claude-code"
  sessionId := "s-1"
  caller := caller
  callerKind := .command
  requestId := "r-1"
  backend := "cedar"
  reason := none
  target := .command "git" ["shim", "status"] "ask" 7

def denyAll (_ : Request) (_ : PolicySet Unit) (_ : Entities) : Response :=
  ⟨.deny, [], []⟩

def breakOut : String := "make\" in Nono::Caller::\"session"

/-- A caller that tries to close the literal and name another is read back as that
text. -/
theorem no_break_out_small : ∃ request entities request' entities',
    build (literalCrate denyAll) (breakOutQuery breakOut) () = .ok (request, entities) ∧
      build (literalCrate denyAll) (breakOutQuery "session") () =
        .ok (request', entities') ∧
      request.principal = ⟨"Nono::Caller", breakOut⟩ ∧
      request.principal ≠ request'.principal := by
  have built := build_literalCrate denyAll (breakOutQuery breakOut)
  have built' := build_literalCrate denyAll (breakOutQuery "session")
  have facts := no_break_out (literalCrate denyAll) (uidGrammar_literalCrate _) () ()
    (breakOutQuery breakOut) (breakOutQuery "session") _ _ _ _ built built'
  exact ⟨_, _, _, _, built, built', facts.1.1, facts.2.2.2.2.1 (by decide)⟩

end NonoCedarPdp
