import NonoCedarPdp.Baseline

/-!
The agent a rejected line names. The scrape looks the escaped backend up, a decided
request the backend as sent: the two lines agree exactly where the table gives both
spellings one agent.
-/
namespace NonoCedarPdp
open RustText

/-- The agent a key stands for, the fallback of a missing entry included. -/
inductive AgentOf (config : Config) (key : String) : String → Prop
  | entry {agent : String} (h : config.agents.lookup key = some agent) :
      AgentOf config key agent
  | missing (h : config.agents.lookup key = none) : AgentOf config key unknownAgent

theorem agentOf_iff {config : Config} {key agent : String} :
    AgentOf config key agent ↔ config.agentFor key = agent := by
  constructor
  · intro names
    cases names with
    | entry h => simp [Config.agentFor, h]
    | missing h => simp [Config.agentFor, h]
  · rintro rfl
    cases h : config.agents.lookup key with
    | none =>
        have fallback : config.agentFor key = unknownAgent := by simp [Config.agentFor, h]
        exact fallback ▸ .missing h
    | some agent =>
        have found : config.agentFor key = agent := by simp [Config.agentFor, h]
        exact found ▸ .entry h

theorem controlEscape_plain {text : String} (h : ∀ c ∈ text.toList, isControl c = false) :
    controlEscape text = text := by
  rw [controlEscape, if_neg]
  simpa using h

theorem agent_scrapeContext {serde : SerdeJson} {body : List UInt8} {config : Config}
    {fields : List (String × JsonValue)} {backend : String}
    (read : serde.value body = some (.object fields))
    (sent : fields.lookup "backend" = some (.string backend)) :
    (scrapeContext serde body config).agent =
      some (config.agentFor (controlEscape backend)) := by
  simp [scrapeContext, read, JsonValue.get, sent, JsonValue.asStr]

theorem agent_of_parse {serde : SerdeJson} {body : List UInt8} {config : Config}
    {q : PolicyQuery} (parsed : parse serde body config = .ok q) :
      q.agent = config.agentFor q.backend := by
  obtain ⟨envelope, -, backend, agent⟩ := envelope_of_parse parsed
  rw [agent, backend]

/-- The member occurs once among the fields. -/
def SentOnce (fields : List (String × JsonValue)) (key : String)
    (value : JsonValue) : Prop :=
  ∃ before after, fields = before ++ (key, value) :: after ∧
    key ∉ before.map Prod.fst ∧ key ∉ after.map Prod.fst

theorem SentOnce.lookup {fields : List (String × JsonValue)} {key : String}
    {value : JsonValue} (h : SentOnce fields key value) :
      fields.lookup key = some value := by
  obtain ⟨before, after, rfl, fresh, -⟩ := h
  induction before with
  | nil => exact List.lookup_cons_self
  | cons field before ih =>
      have other : (key == field.1) = false := by
        apply beq_false_of_ne
        rintro rfl
        exact fresh List.mem_cons_self
      rw [List.cons_append, List.lookup_cons, other]
      exact ih fun mem => fresh (List.mem_cons_of_mem _ mem)

/-- A rejected line names the agent of the backend as sent, which is the agent of any
query with that backend, exactly when the backend is plain or the table gives its
escaped spelling the same agent. -/
theorem scraped_agent_iff (serde : SerdeJson) (body : List UInt8) (config : Config)
    (fields : List (String × JsonValue)) (backend : String)
    (read : serde.value body = some (.object fields))
    (sent : SentOnce fields "backend" (.string backend)) :
    ((scrapeContext serde body config).agent = some (config.agentFor backend) ∧
      ∀ other q, parse serde other config = .ok q → q.backend = backend →
        (scrapeContext serde body config).agent = some q.agent) ↔
    ((∃ c ∈ backend.toList, isControl c = true) →
      ∃ agent, AgentOf config backend agent ∧
        AgentOf config (controlEscape backend) agent) := by
  rw [agent_scrapeContext read sent.lookup]
  constructor
  · rintro ⟨same, -⟩ -
    exact ⟨config.agentFor backend, agentOf_iff.mpr rfl,
      agentOf_iff.mpr (Option.some.inj same)⟩
  · intro agree
    have same : config.agentFor (controlEscape backend) = config.agentFor backend := by
      by_cases control : ∃ c ∈ backend.toList, isControl c = true
      · obtain ⟨agent, raw, escaped⟩ := agree control
        rw [agentOf_iff.mp raw, agentOf_iff.mp escaped]
      · rw [controlEscape_plain]
        intro c mem
        simpa using fun isControl => control ⟨c, mem, isControl⟩
    refine ⟨congrArg some same, fun other q parsed named => ?_⟩
    rw [same, agent_of_parse parsed, named]

/-! ## A backend with a tab -/

/-- A request the daemon does not evaluate, of a backend whose name ends in a tab. -/
def tabBody : String :=
  "\x7b\"backend\":\"cedar\\t\",\"request\":\x7b\"capability_type\":\"file\"\x7d\x7d"

def tabFields : List (String × JsonValue) :=
  [("backend", .string "cedar\t"),
    ("request", .object [("capability_type", .string "file")])]

def tabSerde : SerdeJson :=
  readsTable [(Utf8.encode tabBody, ⟨"cedar\t", .unsupported⟩, .object tabFields)]

theorem value_tabSerde :
    tabSerde.value (Utf8.encode tabBody) = some (.object tabFields) := by
  simp only [tabSerde, readsTable, List.lookup_cons_self, Option.map_some]

theorem sentOnce_tabFields : SentOnce tabFields "backend" (.string "cedar\t") :=
  ⟨[], _, rfl, by simp, by simp⟩

theorem controlEscape_tab : controlEscape "cedar\t" = "cedar\\u\x7b0009\x7d" := by
  decide +kernel

def tabConfig : Config := ⟨[("cedar\t", "claude-code")]⟩

/-- The table names the backend; the rejected line says `unknown`. -/
theorem scraped_agent_is_unknown :
    tabSerde.value (Utf8.encode tabBody) = some (.object tabFields) ∧
      SentOnce tabFields "backend" (.string "cedar\t") ∧
      tabConfig.agentFor "cedar\t" = "claude-code" ∧
      (scrapeContext tabSerde (Utf8.encode tabBody) tabConfig).agent =
        some "unknown" := by
  refine ⟨value_tabSerde, sentOnce_tabFields, rfl, ?_⟩
  rw [agent_scrapeContext value_tabSerde sentOnce_tabFields.lookup, controlEscape_tab]
  rfl

/-- A table with an entry for either spelling. -/
def bothSpellings : Config :=
  ⟨[("cedar\t", "claude-code"), ("cedar\\u\x7b0009\x7d", "claude-code")]⟩

theorem scraped_agent_bothSpellings :
    (scrapeContext tabSerde (Utf8.encode tabBody) bothSpellings).agent =
      some (bothSpellings.agentFor "cedar\t") := by
  refine ((scraped_agent_iff tabSerde (Utf8.encode tabBody) bothSpellings
    tabFields "cedar\t" value_tabSerde sentOnce_tabFields).mpr fun _ =>
      ⟨"claude-code", ?_, ?_⟩).1
  · exact .entry rfl
  · rw [controlEscape_tab]
    exact .entry rfl

end NonoCedarPdp
