import NonoCedarPdp.EngineVerdict
import NonoCedarPdp.EntitySpelling
import NonoCedarPdp.PolicySchema

/-!
The schema in `nono.cedarschema` against the slices that `cedar/entities.rs` builds. Every
slice conforms to it, so the schema refuses no query: whether the policies are asked rests
on the path of an endpoint and on how the ids are spelled.
-/
namespace NonoCedarPdp
open Cedar Engine RustText

/-! ## `nono.cedarschema` -/

def commandType : EntityType where
  name := "Nono::Command"
  memberOf := []
  attributes :=
    [⟨"command", .string, true⟩, ⟨"args", .set .string, true⟩,
      ⟨"argv_tail", .string, true⟩, ⟨"arg_count", .long, true⟩]

def httpEndpointType : EntityType where
  name := "Nono::HttpEndpoint"
  memberOf := []
  attributes :=
    [⟨"route_id", .string, true⟩, ⟨"upstream", .string, true⟩, ⟨"method", .string, true⟩,
      ⟨"path", .string, true⟩]

def launchCommandAction : ActionType where
  uid := ⟨"Nono::Action", "launchCommand"⟩
  principals := ["Nono::Caller"]
  resources := ["Nono::Command"]
  context :=
    [⟨"backend", .string, true⟩, ⟨"intercept_rule", .string, true⟩,
      ⟨"caller_kind", .string, true⟩, ⟨"reason", .string, false⟩,
      ⟨"child_pid", .long, true⟩, ⟨"session_id", .string, true⟩]

def httpRequestAction : ActionType where
  uid := ⟨"Nono::Action", "httpRequest"⟩
  principals := ["Nono::Caller"]
  resources := ["Nono::HttpEndpoint"]
  context := [⟨"backend", .string, true⟩, ⟨"rule_label", .string, true⟩,
    ⟨"reason", .string, false⟩]

def schemaSrc : SchemaSource where
  entityTypes :=
    [⟨"Nono::Agent", [], []⟩, ⟨"Nono::Session", ["Nono::Agent"], []⟩,
      ⟨"Nono::Caller", ["Nono::Session"], []⟩, commandType, httpEndpointType]
  actions := [launchCommandAction, httpRequestAction]

/-! ## What a slice is made of -/

theorem nodup_resourceAttrs (q : PolicyQuery) :
    ((resourceAttrs q).map Prod.fst).Nodup := by
  rw [resourceAttrs]
  cases q.target with
  | command => simp
  | endpoint => simp

theorem nodup_contextPairs (q : PolicyQuery) : ((contextPairs q).map Prod.fst).Nodup := by
  rw [contextPairs]
  cases q.target with
  | command => cases q.reason <;> simp
  | endpoint => cases q.reason <;> simp

theorem conforms_resource (q : PolicyQuery) :
    Entity.Conforms schemaSrc ⟨(uidsOf q).resource, resourceAttrs q, []⟩ := by
  have names := nodup_resourceAttrs q
  cases target : q.target with
  | command command args rule pid =>
      have attrs : Fits commandType.attributes (resourceAttrs q) := by
        refine ⟨names, ?_, ?_⟩
        · simp [resourceAttrs, target, commandType, AttributeType.admits]
        · simp [resourceAttrs, target, commandType]
      exact ⟨commandType, by simp [schemaSrc], by simp [uidsOf, resourceType,
        target, commandType], attrs, by simp⟩
  | endpoint route upstream method path label pid =>
      have attrs : Fits httpEndpointType.attributes (resourceAttrs q) := by
        refine ⟨names, ?_, ?_⟩
        · simp [resourceAttrs, target, httpEndpointType, AttributeType.admits]
        · simp [resourceAttrs, target, httpEndpointType]
      exact ⟨httpEndpointType, by simp [schemaSrc],
        by simp [uidsOf, resourceType, target, httpEndpointType], attrs, by simp⟩

theorem conforms_slice (q : PolicyQuery) :
    Entities.Conforms schemaSrc (slice (uidsOf q) q) := by
  have plain : Fits [] [] := by decide
  refine ⟨?_, ?_⟩
  · obtain type | type := resourceType_cases q <;> simp [slice, uidsOf, type]
  · simp only [slice, List.forall_mem_cons, List.not_mem_nil, false_implies,
      implies_true, and_true]
    refine ⟨?_, ?_, ?_, conforms_resource q⟩
    · exact ⟨⟨"Nono::Agent", [], []⟩, by simp [schemaSrc], rfl, plain, by simp⟩
    · exact ⟨⟨"Nono::Session", ["Nono::Agent"], []⟩, by simp [schemaSrc], rfl,
        plain, by simp [uidsOf]⟩
    · exact ⟨⟨"Nono::Caller", ["Nono::Session"], []⟩, by simp [schemaSrc], rfl,
        plain, by simp [uidsOf]⟩

theorem fits_contextPairs_command {q : PolicyQuery} {command rule : String}
    {args : List String} {pid : UInt32}
    (target : q.target = .command command args rule pid) :
    Fits launchCommandAction.context (contextPairs q) := by
  refine ⟨nodup_contextPairs q, ?_, ?_⟩
  · cases reason : q.reason <;>
      simp [contextPairs, target, reason, launchCommandAction, AttributeType.admits]
  · simp [contextPairs, target, launchCommandAction]

theorem fits_contextPairs_endpoint {q : PolicyQuery}
    {route upstream method path label : String} {pid : UInt32}
    (target : q.target = .endpoint route upstream method path label pid) :
    Fits httpRequestAction.context (contextPairs q) := by
  refine ⟨nodup_contextPairs q, ?_, ?_⟩
  · cases reason : q.reason <;>
      simp [contextPairs, target, reason, httpRequestAction, AttributeType.admits]
  · simp [contextPairs, target, httpRequestAction]

/-- The request the daemon makes for a query. -/
def requestFor (q : PolicyQuery) : Request :=
  ⟨(uidsOf q).caller, ⟨"Nono::Action", q.actionName⟩, (uidsOf q).resource,
    ⟨contextPairs q⟩⟩

theorem conforms_requestFor (q : PolicyQuery) : (requestFor q).Conforms schemaSrc := by
  cases target : q.target with
  | command command args rule pid =>
      refine ⟨launchCommandAction, by simp [schemaSrc], ?_, ?_, ?_,
        fits_contextPairs_command target⟩
      · simp [requestFor, PolicyQuery.actionName, target, launchCommandAction]
      · simp [requestFor, uidsOf, launchCommandAction]
      · simp [requestFor, uidsOf, resourceType, target, launchCommandAction]
  | endpoint route upstream method path label pid =>
      refine ⟨httpRequestAction, by simp [schemaSrc], ?_, ?_, ?_,
        fits_contextPairs_endpoint target⟩
      · simp [requestFor, PolicyQuery.actionName, target, httpRequestAction]
      · simp [requestFor, uidsOf, httpRequestAction]
      · simp [requestFor, uidsOf, resourceType, target, httpRequestAction]

/-! ## Which queries are asked -/

section Asked
variable {Schema β : Type} {crate : Crate Schema β} {schema : Schema} {q : PolicyQuery}

theorem uidsOf_of_readFrom (grammar : UidGrammar crate) {uids : SliceUids}
    (read : ReadFrom crate q uids) : uids = uidsOf q := by
  obtain ⟨agent, session, caller, resource⟩ := uids
  have agentUid := uid_of_uidText grammar (by decide) read.agent
  have sessionUid := uid_of_uidText grammar (by decide) read.session
  have callerUid := uid_of_uidText grammar (by decide) read.caller
  have resourceUid := uid_of_uidText grammar (no_quote_resourceType q) read.resource
  dsimp only at agentUid sessionUid callerUid resourceUid
  subst agentUid sessionUid callerUid resourceUid
  rfl

/-- Once the uids are read, nothing of the slice is refused. -/
theorem build_of_readFrom (grammar : UidGrammar crate)
    (spec : SchemaSpec crate schema schemaSrc) (read : ReadFrom crate q (uidsOf q))
    {action : EntityUid} (readAction : uid crate (actionText q) = .ok action) :
    build crate q schema = .ok (requestFor q, ⟨slice (uidsOf q) q⟩) := by
  have named : action = ⟨"Nono::Action", q.actionName⟩ := by
    rw [actionText_eq] at readAction
    exact uid_of_uidText grammar (by decide) readAction
  have resource :=
    spec.entity (uidsOf q).resource (resourceAttrs q) (nodup_resourceAttrs q)
  have entities := spec.entities _ (conforms_slice q)
  have context := spec.context _ (nodup_contextPairs q)
  have request := spec.request _ (conforms_requestFor q)
  subst named
  rw [slice] at entities
  rw [requestFor] at request
  rw [build_eq, read.agent, read.session, read.caller, read.resource, readAction]
  simp only [Bind.bind, Except.bind, Entity.new, Entities.fromEntities,
    Context.fromPairs, Request.new, resource, entities, context, request, accept,
    Except.mapError]
  rfl

theorem build_eq_ok_iff {tables : UnicodeTables} (grammar : DisplayGrammar tables crate)
    (spec : SchemaSpec crate schema schemaSrc) {pair : Request × Entities} :
    build crate q schema = .ok pair ↔
      (∀ id ∈ queryIds q, Spellable tables id) ∧
      pair = (requestFor q, ⟨slice (uidsOf q) q⟩) := by
  have whole (spelled : ∀ id ∈ queryIds q, Spellable tables id) :
      build crate q schema = .ok (requestFor q, ⟨slice (uidsOf q) q⟩) := by
    obtain ⟨uids, read⟩ := (readFrom_iff grammar).mpr spelled
    obtain ⟨action, readAction⟩ := readAction_of_grammar grammar q
    obtain rfl := uidsOf_of_readFrom grammar.uidGrammar read
    exact build_of_readFrom grammar.uidGrammar spec read readAction
  constructor
  · intro built
    obtain ⟨uids, read, -⟩ := slice_of_build built
    have spelled := (readFrom_iff grammar).mp ⟨uids, read⟩
    exact ⟨spelled, Except.ok.inj (built.symm.trans (whole spelled))⟩
  · rintro ⟨spelled, rfl⟩
    exact whole spelled

end Asked

/-- The policies are asked about a query exactly when the path of an endpoint is
unambiguous and its ids are spelled as uids display them; and whatever is built conforms
to the schema. -/
theorem consulted_iff {Schema β : Type} (x : Externals Schema β)
    (grammar : DisplayGrammar x.tables x.crate) (engine : Engine Schema β)
    (spec : SchemaSpec x.crate engine.schema schemaSrc) (q : PolicyQuery) :
    ((∃ response, engine.consulted x q = some response) ↔
      pathAmbiguity q = none ∧ ∀ id ∈ queryIds q, Spellable x.tables id) ∧
    ∀ request entities, build x.crate q engine.schema = .ok (request, entities) →
      request.Conforms schemaSrc ∧ Entities.Conforms schemaSrc entities.entities := by
  constructor
  · rw [consulted_eq]
    constructor
    · rintro ⟨response, answered⟩
      obtain ⟨pair, passed, -⟩ := Option.map_eq_some_iff.mp answered
      obtain ⟨clear, built⟩ := (asked_eq_some_iff x).mp passed
      exact ⟨clear, ((build_eq_ok_iff grammar spec).mp built).1⟩
    · rintro ⟨clear, spelled⟩
      have built : build x.crate q engine.schema =
          .ok (requestFor q, ⟨slice (uidsOf q) q⟩) :=
        (build_eq_ok_iff grammar spec).mpr ⟨spelled, rfl⟩
      rw [(asked_eq_some_iff x).mpr ⟨clear, built⟩]
      exact ⟨_, rfl⟩
  · intro request entities built
    obtain ⟨-, same⟩ := (build_eq_ok_iff grammar spec).mp built
    cases same
    exact ⟨conforms_requestFor q, conforms_slice q⟩

/-! ## A crate that checks -/

def refusedUnless (conforms : Prop) [Decidable conforms] (message : String) :
    Option String :=
  if conforms then none else some message

theorem refusedUnless_of {conforms : Prop} [Decidable conforms] (holds : conforms)
    (message : String) : refusedUnless conforms message = none := if_pos holds

/-- Cedar with the reader of displayed uids, and the schema checked. -/
def schemaCrate {β : Type} (isAuthorized : Request → PolicySet β → Entities → Response) :
    Crate Unit β :=
  { displayCrate asciiTables isAuthorized with
    entityError := fun _ attrs => refusedUnless (attrs.map Prod.fst).Nodup "duplicate key"
    contextError := fun pairs => refusedUnless (pairs.map Prod.fst).Nodup "duplicate key"
    entitiesError := fun _ entities =>
      refusedUnless (Entities.Conforms schemaSrc entities)
        "entity does not conform to the schema"
    requestError := fun _ request =>
      refusedUnless (request.Conforms schemaSrc)
        "request does not conform to the schema" }

theorem schemaSpec_schemaCrate {β : Type}
    (isAuthorized : Request → PolicySet β → Entities → Response) :
    SchemaSpec (schemaCrate isAuthorized) () schemaSrc where
  entity _ _ distinct := refusedUnless_of distinct _
  context _ distinct := refusedUnless_of distinct _
  entities _ conforms := refusedUnless_of conforms _
  request _ conforms := refusedUnless_of conforms _

theorem displayGrammar_schemaCrate {β : Type}
    (isAuthorized : Request → PolicySet β → Entities → Response) :
    DisplayGrammar asciiTables (schemaCrate isAuthorized) :=
  ⟨(displayGrammar_displayCrate asciiTables isAuthorized).accepts,
    (displayGrammar_displayCrate asciiTables isAuthorized).reads⟩

/-- The crate refuses a resource without its attributes. -/
example : (schemaCrate denyAll).entitiesError () [⟨⟨"Nono::Command", "r-1"⟩, [], []⟩] ≠
    none := by
  decide

def schemaExternals : Externals Unit Unit :=
  { smallExternals with crate := schemaCrate denyAll }

theorem consulted_iff_small :
    (∃ response, smallEngine.consulted schemaExternals (breakOutQuery breakOut) =
      some response) ∧
      ¬ ∃ response, smallEngine.consulted schemaExternals (breakOutQuery "it\x27s") =
        some response := by
  have iff := fun q =>
      (consulted_iff schemaExternals (displayGrammar_schemaCrate denyAll) smallEngine
    (schemaSpec_schemaCrate denyAll) q).1
  constructor
  · refine (iff (breakOutQuery breakOut)).mpr ⟨rfl, ?_⟩
    simp only [queryIds, breakOutQuery, List.forall_mem_cons]
    refine ⟨spellable_of_ascii _ ?_, spellable_of_ascii _ ?_, spellable_of_ascii _ ?_,
      spellable_of_ascii _ ?_, by simp⟩
    all_goals decide
  · intro asked
    obtain ⟨-, all⟩ := (iff (breakOutQuery "it\x27s")).mp asked
    exact (all "it\x27s" (by decide)).noApostrophe (by decide)

end NonoCedarPdp
