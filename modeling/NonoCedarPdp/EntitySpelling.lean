import NonoCedarPdp.Engine
import NonoCedarPdp.EntityIds
import NonoCedarPdp.Lib.EscapeDebug

/-!
Which ids make uids. The crate reads a uid only from the text it displays as, where
`str::escape_debug` escapes the id. The daemon's own escape writes that text for the ids
`escape_debug` keeps, and a query with any other id is refused.
-/
namespace NonoCedarPdp
open Cedar RustText QuotedLiteral

def displayUid (tables : UnicodeTables) (u : EntityUid) : String :=
  u.typeName ++ "::\"" ++ strEscapeDebug tables u.id ++ "\""

/-- The reader of uids is the inverse of their display, on the schema's types at least. -/
structure DisplayGrammar {Schema β : Type} (tables : UnicodeTables)
    (crate : Crate Schema β) : Prop where
  accepts : ∀ text u, crate.uidFromStr text = .ok u →
    TypePath u.typeName.toList ∧ text = displayUid tables u
  reads : ∀ u, u.typeName ∈ schemaPaths → crate.uidFromStr (displayUid tables u) = .ok u

/-- No apostrophe, nothing unprintable, and no grapheme extender in front. -/
structure Spellable (tables : UnicodeTables) (id : String) : Prop where
  noApostrophe : apostrophe ∉ id.toList
  printable : ∀ c ∈ id.toList, tables.printable c = true
  front : ∀ c ∈ id.toList.head?, tables.graphemeExtend c = false

theorem toList_displayUid (tables : UnicodeTables) (u : EntityUid) :
    (displayUid tables u).toList =
    u.typeName.toList ++ ':' :: ':' :: '"' ::
      (escapeDebugFrom tables true u.id.toList ++ ['"']) := by
  simp [displayUid, strEscapeDebug]

theorem keptFrom_false_iff {tables : UnicodeTables} {text : List Char} :
    KeptFrom tables false text ↔
      apostrophe ∉ text ∧ ∀ c ∈ text, tables.printable c = true := by
  induction text with
  | nil => simp [KeptFrom]
  | cons c text ih =>
      rw [KeptFrom, ih, Kept, List.mem_cons, not_or, List.forall_mem_cons, ne_comm]
      constructor
      · rintro ⟨⟨other, printable, -⟩, others, printables⟩
        exact ⟨⟨other, others⟩, printable, printables⟩
      · rintro ⟨⟨other, others⟩, printable, printables⟩
        exact ⟨⟨other, printable, by simp⟩, others, printables⟩

theorem keptFrom_iff_spellable {tables : UnicodeTables} {id : String} :
    KeptFrom tables true id.toList ↔ Spellable tables id := by
  cases text : id.toList with
  | nil => exact iff_of_true trivial ⟨by simp [text], by simp [text], by simp [text]⟩
  | cons c rest =>
      rw [KeptFrom, keptFrom_false_iff, Kept]
      constructor
      · rintro ⟨⟨other, printable, front⟩, others, printables⟩
        refine ⟨?_, ?_, ?_⟩
        · simpa [text, not_or] using ⟨Ne.symm other, others⟩
        · simpa [text] using ⟨printable, printables⟩
        · simpa [text] using front
      · rintro ⟨others, printables, front⟩
        rw [text, List.mem_cons, not_or] at others
        rw [text, List.forall_mem_cons] at printables
        exact ⟨⟨Ne.symm others.1, printables.1, fun _ => front c (by simp [text])⟩,
          others.2, printables.2⟩

theorem spellable_of_ascii (tables : UnicodeTables) {id : String}
    (plain : id.toList.all fun c => 0x20 ≤ c.toNat ∧ c.toNat < 0x7f ∧ c ≠ apostrophe) :
    Spellable tables id := by
  have kept (c : Char) (mem : c ∈ id.toList) : Kept tables true c := by
    obtain ⟨low, high, other⟩ := of_decide_eq_true (List.all_eq_true.mp plain c mem)
    exact kept_ascii low high other
  exact ⟨fun mem => (kept _ mem).1 rfl, fun c mem => (kept c mem).2.1,
    fun c head => (kept c (List.mem_of_mem_head? head)).2.2 rfl⟩

/-- The text built for an id is the one its uid displays as, for the spellable ids
only. -/
theorem uidText_eq_displayUid_iff {tables : UnicodeTables} {typeName id : String} :
    uidText typeName id = displayUid tables ⟨"Nono::" ++ typeName, id⟩ ↔
      Spellable tables id := by
  rw [← String.toList_inj, toList_uidText, toList_displayUid, ← keptFrom_iff_spellable,
    ← escapeText_eq_escapeDebugFrom_iff]
  simp

section Grammar
variable {Schema β : Type} {crate : Crate Schema β} {tables : UnicodeTables}
  {q : PolicyQuery}

theorem DisplayGrammar.uidGrammar (grammar : DisplayGrammar tables crate) :
    UidGrammar crate := by
  intro text u read
  obtain ⟨path, rfl⟩ := grammar.accepts text u read
  exact ⟨path, _, body_escapeDebugFrom tables true u.id.toList,
    toList_displayUid tables u⟩

theorem uidFromStr_of_uid {text : String} {u : EntityUid} (h : uid crate text = .ok u) :
    crate.uidFromStr text = .ok u := by
  rw [uid] at h
  cases read : crate.uidFromStr text with
  | error e => rw [read] at h; cases h
  | ok v =>
      rw [read] at h
      cases h
      rfl

theorem uid_uidText_iff (grammar : DisplayGrammar tables crate) {typeName : String}
    (known : "Nono::" ++ typeName ∈ schemaPaths) (id : String) :
    (∃ u, uid crate (uidText typeName id) = .ok u) ↔ Spellable tables id := by
  rw [← uidText_eq_displayUid_iff]
  constructor
  · rintro ⟨u, read⟩
    obtain rfl :=
      uid_of_uidText grammar.uidGrammar (typePath_of_schema known).no_quote read
    exact (grammar.accepts _ _ (uidFromStr_of_uid read)).2
  · intro display
    refine ⟨⟨"Nono::" ++ typeName, id⟩, ?_⟩
    rw [uid, display, grammar.reads _ known]
    rfl

theorem known_resourceType (q : PolicyQuery) :
    "Nono::" ++ resourceType q ∈ schemaPaths := by
  obtain type | type := resourceType_cases q
  · rw [type]
    decide
  · rw [type]
    decide

def queryIds (q : PolicyQuery) : List String :=
  [q.agent, q.sessionId, q.caller, q.requestId]

theorem readFrom_iff (grammar : DisplayGrammar tables crate) :
    (∃ uids, ReadFrom crate q uids) ↔ ∀ id ∈ queryIds q, Spellable tables id := by
  have agent : (∃ u, uid crate (uidText "Agent" q.agent) = .ok u) ↔ _ :=
    uid_uidText_iff grammar (by decide) q.agent
  have session : (∃ u, uid crate (uidText "Session" q.sessionId) = .ok u) ↔ _ :=
    uid_uidText_iff grammar (by decide) q.sessionId
  have caller : (∃ u, uid crate (uidText "Caller" q.caller) = .ok u) ↔ _ :=
    uid_uidText_iff grammar (by decide) q.caller
  have resource := uid_uidText_iff grammar (known_resourceType q) q.requestId
  simp only [queryIds, List.forall_mem_cons, List.not_mem_nil, false_implies,
    implies_true, and_true, ← agent, ← session, ← caller, ← resource]
  constructor
  · rintro ⟨uids, read⟩
    exact ⟨⟨_, read.agent⟩, ⟨_, read.session⟩, ⟨_, read.caller⟩, _, read.resource⟩
  · rintro ⟨⟨a, readAgent⟩, ⟨s, readSession⟩, ⟨c, readCaller⟩, r, readResource⟩
    exact ⟨⟨a, s, c, r⟩, readAgent, readSession, readCaller, readResource⟩

/-! ## Refused queries -/

theorem uid_cases (crate : Crate Schema β) (text : String) :
    (∃ u, uid crate text = .ok u) ∨
    ∃ refused message, uid crate text = .error (.uid refused message) := by
  rw [uid]
  cases crate.uidFromStr text with
  | ok u => exact .inl ⟨u, rfl⟩
  | error e => exact .inr ⟨_, _, rfl⟩

/-- A build that reads a uid fails on one, when it does so with every uid that can be
read. -/
theorem refused_uid_bind {γ : Type} {text : String}
    {rest : EntityUid → Except BuildError γ} (refuses : ∀ u, uid crate text = .ok u →
      ∃ refused message, rest u = .error (.uid refused message)) :
    ∃ refused message, uid crate text >>= rest = .error (.uid refused message) := by
  obtain ⟨u, read⟩ | ⟨refused, message, failed⟩ := uid_cases crate text
  · rw [read]
    exact refuses u read
  · rw [failed]
    exact ⟨refused, message, rfl⟩

/-- A step with a failure of its own fails with no other. -/
theorem mapError_bind_ne {ε α γ : Type} {x : Except ε α} {f : ε → BuildError}
    {rest : α → Except BuildError γ} {failure : BuildError}
    (own : ∀ source, f source ≠ failure) (fine : ∀ a, rest a ≠ .error failure) :
      x.mapError f >>= rest ≠ .error failure := by
  cases x with
  | error source => exact fun same => own source (Except.error.inj same)
  | ok a => exact fine a

/-- Once the four ids are read, what fails is not a uid. -/
theorem not_uid_of_readFrom {uids : SliceUids} (read : ReadFrom crate q uids)
    {action : EntityUid} (readAction : uid crate (actionText q) = .ok action)
    (schema : Schema) {refused message : String} :
      build crate q schema ≠ .error (.uid refused message) := by
  rw [build_eq, read.agent, read.session, read.caller, read.resource, readAction]
  refine mapError_bind_ne (by simp [entityFailure]) fun resource => ?_
  refine mapError_bind_ne (by simp [entityFailure]) fun entities => ?_
  refine mapError_bind_ne (by simp) fun context => ?_
  refine mapError_bind_ne (by simp) fun request made => ?_
  cases made

theorem uid_of_not_readFrom (missing : ¬ ∃ uids, ReadFrom crate q uids)
    (schema : Schema) :
    ∃ refused message, build crate q schema = .error (.uid refused message) := by
  rw [build_eq]
  refine refused_uid_bind fun agent readAgent => ?_
  refine refused_uid_bind fun session readSession => ?_
  refine refused_uid_bind fun caller readCaller => ?_
  refine refused_uid_bind fun resource readResource => ?_
  exact absurd
    ⟨⟨agent, session, caller, resource⟩, readAgent, readSession, readCaller, readResource⟩
    missing

theorem readAction_of_grammar (grammar : DisplayGrammar tables crate) (q : PolicyQuery) :
    ∃ action, uid crate (actionText q) = .ok action := by
  rw [actionText_eq]
  refine (uid_uidText_iff grammar (by decide) q.actionName).mpr
    (spellable_of_ascii tables ?_)
  rw [PolicyQuery.actionName]
  cases q.target with
  | command =>
      show "launchCommand".toList.all _ = true
      decide
  | endpoint =>
      show "httpRequest".toList.all _ = true
      decide

end Grammar

/-- The four uids of a query are read, and the build fails on no uid, exactly when each of
its ids is one `escape_debug` keeps: printable, without an apostrophe, and without a
grapheme extender in front. -/
theorem uids_built_iff {Schema β : Type} (tables : UnicodeTables) (crate : Crate Schema β)
    (grammar : DisplayGrammar tables crate) (q : PolicyQuery) :
    ((∃ uids, ReadFrom crate q uids) ↔ ∀ id ∈ queryIds q, Spellable tables id) ∧
      ∀ schema, (∀ refused message,
        build crate q schema ≠ .error (.uid refused message)) ↔
        ∀ id ∈ queryIds q, Spellable tables id := by
  refine ⟨readFrom_iff grammar, fun schema => ?_⟩
  rw [← readFrom_iff grammar]
  constructor
  · intro never
    by_contra missing
    obtain ⟨refused, message, failed⟩ := uid_of_not_readFrom missing schema
    exact never refused message failed
  · rintro ⟨uids, read⟩ refused message
    obtain ⟨action, readAction⟩ := readAction_of_grammar grammar q
    exact not_uid_of_readFrom read readAction schema

/-! ## A reader of displayed uids -/

def readDisplay (tables : UnicodeTables) (text : String) : Except String EntityUid :=
  match schemaPaths.find? fun path => (path ++ "::\"").toList.isPrefixOf text.toList with
  | none => .error "unknown type"
  | some path =>
      match readEscaped none
        (text.toList.drop (path ++ "::\"").toList.length).dropLast with
      | none => .error "unexpected escape"
      | some id =>
          if displayUid tables ⟨path, String.ofList id⟩ = text then
            .ok ⟨path, String.ofList id⟩
          else .error "not in normal form"

/-- Cedar with this reader, on schemas that accept every request. -/
def displayCrate {β : Type} (tables : UnicodeTables)
    (isAuthorized : Request → PolicySet β → Entities → Response) : Crate Unit β :=
  { literalCrate isAuthorized with uidFromStr := readDisplay tables }

theorem displayGrammar_displayCrate {β : Type} (tables : UnicodeTables)
    (isAuthorized : Request → PolicySet β → Entities → Response) :
    DisplayGrammar tables (displayCrate tables isAuthorized) where
  accepts := by
    intro text u read
    change readDisplay tables text = .ok u at read
    rw [readDisplay] at read
    split at read
    · cases read
    · next path found =>
      split at read
      · cases read
      · split at read
        · next display =>
          cases read
          exact ⟨typePath_of_schema (List.mem_of_find?_eq_some found), display.symm⟩
        · cases read
  reads := by
    intro u known
    change readDisplay tables (displayUid tables u) = .ok u
    have whole : (displayUid tables u).toList =
        (u.typeName ++ "::\"").toList ++
          (escapeDebugFrom tables true u.id.toList ++ ['"']) := by
      rw [toList_displayUid]
      simp
    rw [readDisplay, find_schemaPath known whole]
    simp only [whole, List.drop_left, List.dropLast_concat, readEscaped_escapeDebugFrom,
      String.ofList_toList, if_true]

/-- Quotes are no obstacle. -/
theorem uids_built_iff_quotes : ∃ uids,
    ReadFrom (displayCrate asciiTables denyAll) (breakOutQuery breakOut) uids := by
  have grammar := displayGrammar_displayCrate asciiTables denyAll
  refine (uids_built_iff asciiTables _ grammar (breakOutQuery breakOut)).1.mpr ?_
  simp only [queryIds, breakOutQuery, List.forall_mem_cons]
  refine ⟨spellable_of_ascii _ ?_, spellable_of_ascii _ ?_, spellable_of_ascii _ ?_,
    spellable_of_ascii _ ?_, by simp⟩
  all_goals decide

/-- A printable caller with an apostrophe, which no uid is built for. -/
theorem apostrophe_refused :
    DisplayGrammar asciiTables (displayCrate asciiTables denyAll) ∧
      (∀ id ∈ queryIds (breakOutQuery "it\x27s"), ∀ c ∈ id.toList,
        asciiTables.printable c = true ∧ isControl c = false) ∧
      (¬ ∃ uids, ReadFrom (displayCrate asciiTables denyAll)
        (breakOutQuery "it\x27s") uids) ∧
      ∃ refused message,
        build (displayCrate asciiTables denyAll) (breakOutQuery "it\x27s") () =
        .error (.uid refused message) := by
  have grammar := displayGrammar_displayCrate asciiTables denyAll
  have missing :
      ¬ ∃ uids, ReadFrom (displayCrate asciiTables denyAll)
        (breakOutQuery "it\x27s") uids := by
    rw [readFrom_iff grammar]
    intro all
    exact (all "it\x27s" (by decide)).noApostrophe (by decide)
  have printable :
      (queryIds (breakOutQuery "it\x27s")).all fun id => id.toList.all fun c =>
      asciiTables.printable c = true ∧ isControl c = false := by decide
  refine ⟨grammar, fun id mem c inId => ?_, missing, uid_of_not_readFrom missing ()⟩
  exact of_decide_eq_true
    (List.all_eq_true.mp (List.all_eq_true.mp printable id mem) c inId)

end NonoCedarPdp
