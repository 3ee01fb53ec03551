import NonoCedarPdp.AuditLines
import NonoCedarPdp.Lib.JsonLine
import NonoCedarPdp.LogFile
import NonoCedarPdp.TrailHistory
import NonoCedarPdp.TrailText

/-!
The trail as its reader finds it. A program that takes the file line by line, and skips
what is no record, recovers every completed record, in order, and nothing that was not
handed to `append`, whatever writes were torn and however often the daemon was restarted.
-/
namespace NonoCedarPdp
open LineFile JsonText

def readLine (line : List UInt8) : Option TrailRecord :=
  (Utf8.decode? line).bind fun text =>
    (JsonText.parse text.toList).bind TrailRecord.ofValue

def readTrail (bytes : List UInt8) : List TrailRecord := (lines bytes).filterMap readLine

/-- The record's kind is that of its type. -/
def TrailRecord.Labelled : TrailRecord → Prop
  | .decision record => record.kind = "decision"
  | .policySet record => record.kind = "policy-set"

/-! ## One line -/

/-- A line that is read as the record, and as nothing when it is cut short. -/
structure Legible (line : List UInt8) (r : TrailRecord) : Prop where
  unbroken : newline ∉ line
  reads : readLine line = some r
  torn : ∀ k, k < line.length → readLine (line.take k) = none

theorem compact_toJson (r : TrailRecord) : Compact maxDepth r.toValue r.toJson := by
  have text : Compact (126 + 2) r.toValue r.toJson := by
    rw [toJson_eq]
    exact Compact.object fun m mem => compact_member r mem
  exact text

theorem legible_toJson {r : TrailRecord} (labelled : r.Labelled) :
    Legible (Utf8.encode r.toJson) r where
  unbroken mem :=
    (compact_toJson r).unbroken
      ((Utf8.mem_encode_ascii (by decide) r.toJson.toList).mp mem)
  reads := by
    have back : TrailRecord.ofValue r.toValue = some r := by
      apply ofValue_toValue
      cases r with
      | decision | policySet => exact labelled
    rw [readLine, Utf8.decode?_encode, Option.bind_some,
      parse_compact_text (compact_toJson r), Option.bind_some, back]
  torn k short := by
    cases decoded : Utf8.decode? ((Utf8.encode r.toJson).take k) with
    | none => rw [readLine, decoded, Option.bind_none]
    | some text =>
        have bytes := Utf8.decode?_eq_some_iff.mp decoded
        obtain ⟨behind, whole⟩ : text.toList <+: r.toJson.toList :=
          Utf8.toList_prefix_of_encode (bytes ▸ List.take_prefix k _)
        have some_left : behind ≠ [] := by
          rintro rfl
          rw [List.append_nil, String.toList_inj] at whole
          have length := congrArg List.length bytes
          rw [whole, List.length_take] at length
          omega
        rw [readLine, decoded, Option.bind_some,
          parse_cut_object (compact_toJson r) whole.symm some_left, Option.bind_none]

/-! ## Files -/

theorem readLine_nil : readLine [] = none := by
  have empty : Utf8.decode? [] = some "" := Utf8.decode?_encode ""
  rw [readLine, empty]
  rfl

theorem readTrail_append {bytes : List UInt8} (whole : ¬ EndsMidLine bytes)
    (more : List UInt8) :
    readTrail (bytes ++ more) = readTrail bytes ++ readTrail more := by
  rw [readTrail, lines_append whole, List.filterMap_append]
  rfl

/-- A newline ends a line or adds an empty one, which is no record. -/
theorem readTrail_append_newline (bytes more : List UInt8) :
    readTrail (bytes ++ newline :: more) = readTrail bytes ++ readTrail more := by
  have skipped : (if EndsMidLine bytes then [] else [[]]).filterMap readLine = [] := by
    split
    · rfl
    · rw [List.filterMap_cons_none readLine_nil, List.filterMap_nil]
  rw [readTrail, lines_append_newline, List.filterMap_append,
    List.filterMap_append, skipped]
  rfl

section
variable {line : List UInt8} {r : TrailRecord}

/-- The front of a line and its newline holds the record when it holds the whole line. -/
theorem readTrail_take (legible : Legible line r) (k : Nat) :
    readTrail ((line ++ [newline]).take k) = if line.length ≤ k then [r] else [] := by
  by_cases all : line.length ≤ k
  · have whole : lines ((line ++ [newline]).take k) = [line] := by
      rw [List.take_append, List.take_of_length_le all]
      cases k - line.length with
      | succ n =>
          rw [List.take_of_length_le (by simp)]
          exact lines_line legible.unbroken
      | zero =>
          have nonempty : line ≠ [] := by
            rintro rfl
            have reads := legible.reads
            rw [readLine_nil] at reads
            cases reads
          rw [List.take_zero, List.append_nil]
          exact lines_of_no_newline legible.unbroken nonempty
    rw [readTrail, whole, if_pos all, List.filterMap_cons_some legible.reads,
      List.filterMap_nil]
  · have short : k < line.length := Nat.lt_of_not_le all
    have torn := legible.torn k short
    rw [if_neg all, List.take_append_of_le_length (Nat.le_of_lt short), readTrail]
    cases front : line.take k with
    | nil => rfl
    | cons b rest =>
        have unbroken : newline ∉ b :: rest := by
          rw [← front]
          exact fun mem => legible.unbroken (List.mem_of_mem_take mem)
        rw [lines_of_no_newline unbroken (List.cons_ne_nil b rest), ← front,
          List.filterMap_cons_none torn, List.filterMap_nil]

/-- What is written of a record's buffer is read as the record or as nothing, behind what
the file was read as before. -/
theorem readTrail_buffer {σ : Type} [ByteSink σ] {sink : Sink σ} {bytes : List UInt8}
    (legible : Legible line r)
    (marked : EndsMidLine bytes → sink.unterminated = true) (k : Nat) :
    ∃ found, (found = [] ∨ found = [r]) ∧
      readTrail (bytes ++ (sink.buffer line).take k) = readTrail bytes ++ found ∧
      ((sink.buffer line).length ≤ k → found = [r]) := by
  have front (j : Nat) : readTrail ((line ++ [newline]).take j) = [] ∨
      readTrail ((line ++ [newline]).take j) = [r] := by
    rw [readTrail_take legible]
    split
    · exact .inr rfl
    · exact .inl rfl
  cases flag : sink.unterminated with
  | false =>
      have whole : ¬ EndsMidLine bytes := by
        intro broken
        have mark := marked broken
        rw [flag] at mark
        cases mark
      have buffer : sink.buffer line = line ++ [newline] := by simp [Sink.buffer, flag]
      refine ⟨_, front k, by rw [buffer, readTrail_append whole], fun all => ?_⟩
      rw [buffer, List.length_append, List.length_singleton] at all
      rw [readTrail_take legible, if_pos (by omega)]
  | true =>
      have buffer : sink.buffer line = newline :: (line ++ [newline]) := by
        simp [Sink.buffer, flag]
      cases k with
      | zero =>
          refine ⟨[], .inl rfl, by simp, fun all => ?_⟩
          rw [buffer] at all
          simp at all
      | succ k =>
          refine ⟨_, front k, ?_, fun all => ?_⟩
          · rw [buffer, List.take_succ_cons, readTrail_append_newline]
          · rw [buffer, List.length_cons, List.length_append,
              List.length_singleton] at all
            rw [readTrail_take legible, if_pos (by omega)]

end

/-! ## Writes that fail -/

section Writes
variable {σ : Type} [ByteSink σ] [LawfulByteSink σ]
open LawfulByteSink

/-- What the file is read as, behind what it was read as at first: every completed record
and no record that was not attempted, in order. -/
structure Sink.Recovers (sink : Sink σ)
    (earlier completed attempted : List TrailRecord) : Prop where
  marked : EndsMidLine (contents sink.bytes) → sink.unterminated = true
  recovered : ∃ found, readTrail (contents sink.bytes) = earlier ++ found ∧
    completed.Sublist found ∧ found.Sublist attempted

theorem Sink.recovers_write {sink : Sink σ}
    {earlier completed attempted : List TrailRecord}
    (recovers : sink.Recovers earlier completed attempted) {line : List UInt8}
    {r : TrailRecord} (legible : Legible line r)
    (spared : ¬ (EndsMidLine (contents sink.bytes) ∧ sink.RollsBack line)) :
    (sink.write line).2.Recovers earlier
      (completed ++ if (sink.write line).1.written then [r] else [])
        (attempted ++ [r]) := by
  have intact : sink.Intact [] := ⟨.nil _, recovers.marked⟩
  refine ⟨(Sink.intact_write intact line spared).2, ?_⟩
  obtain ⟨found, read, held, known⟩ := recovers.recovered
  cases sink.write_left line with
  | wrote written bytes flag =>
      obtain ⟨next, -, read', all⟩ :=
        readTrail_buffer legible recovers.marked (sink.buffer line).length
      obtain rfl := all (Nat.le_refl _)
      rw [List.take_length, read, List.append_assoc] at read'
      rw [bytes, written, if_pos rfl]
      exact ⟨found ++ [r], read', held.append (.refl _), known.append (.refl _)⟩
  | rolledBack written rolls bytes flag =>
      rw [bytes, written]
      refine ⟨found, read, ?_, known.trans (List.sublist_append_left _ _)⟩
      simpa using held
  | torn written k bytes flag =>
      obtain ⟨next, one, read', -⟩ := readTrail_buffer legible recovers.marked k
      rw [read, List.append_assoc] at read'
      rw [bytes, written]
      refine ⟨found ++ next, read', ?_, ?_⟩
      · simpa using held.trans (List.sublist_append_left found next)
      · obtain rfl | rfl := one
        · simpa using known.trans (List.sublist_append_left attempted [r])
        · exact known.append (.refl _)

end Writes

/-! ## A daemon that is restarted -/

/-- The log of the running daemon, and the records of all daemons so far: those whose
physical write returned `Ok`, and those handed to `append`. -/
structure TrailLife where
  log : AuditLog MemorySink
  completed : List TrailRecord
  attempted : List TrailRecord

/-- A restart may find that it can write the file but not read it. -/
inductive TrailEvent
  | append (call : AppendCall)
  | restart (readable : Bool)

namespace TrailLife

def bytes (s : TrailLife) : List UInt8 := s.log.sink.bytes.bytes

/-- The log on a file that is opened as it is. -/
def opened (bytes : List UInt8) (readable : Bool) : AuditLog MemorySink :=
  .withSink ⟨bytes, .none⟩ (LogFile.unterminated bytes readable)

def start (bytes : List UInt8) (readable : Bool) : TrailLife :=
  ⟨opened bytes readable, [], []⟩

/-- A restart opens the file as the last daemon left it. -/
def step (s : TrailLife) : TrailEvent → TrailLife
  | .append call =>
      let met := Recorded.meet ⟨s.log, []⟩ call.faults
      { log := met.append AuditLog.toJsonLine call.record
        completed := s.completed ++
          if (met.sink.append (AuditLog.toJsonLine call.record)).1.written
            then [call.record] else []
        attempted := s.attempted ++ [call.record] }
  | .restart readable => { s with log := opened s.bytes readable }

/-- No failed write is rolled back onto a broken line, and no broken file is opened that
cannot be read. -/
def Spared (s : TrailLife) : TrailEvent → Prop
  | .append call =>
      call.record.Labelled ∧
        ¬ (EndsMidLine s.bytes ∧ Recorded.FailsAndRollsBack AuditLog.toJsonLine call)
  | .restart readable => EndsMidLine s.bytes → readable = true

theorem recovers_opened {bytes : List UInt8} {readable : Bool}
    {earlier completed attempted : List TrailRecord}
    (told : EndsMidLine bytes → readable = true)
    (recovered : ∃ found, readTrail bytes = earlier ++ found ∧
      completed.Sublist found ∧ found.Sublist attempted) :
    (opened bytes readable).sink.Recovers earlier completed attempted :=
  ⟨fun broken => (LogFile.unterminated_of_endsMidLine broken readable).trans
    (told broken), recovered⟩

theorem recovers_step {s : TrailLife} {earlier : List TrailRecord} {event : TrailEvent}
    (recovers : s.log.sink.Recovers earlier s.completed s.attempted)
    (spared : s.Spared event) :
    (s.step event).log.sink.Recovers earlier (s.step event).completed
      (s.step event).attempted := by
  cases event with
  | restart readable => exact recovers_opened spared recovers.recovered
  | append call =>
      obtain ⟨labelled, unbroken⟩ := spared
      have met : (Recorded.meet ⟨s.log, []⟩ call.faults).sink.Recovers earlier s.completed
          s.attempted := ⟨recovers.marked, recovers.recovered⟩
      exact Sink.recovers_write met (legible_toJson labelled) fun ⟨broken, rolls⟩ =>
        unbroken ⟨broken, Recorded.rollsBack_meet rfl rolls⟩

end TrailLife

open Transition in
/-- Over any number of daemons, torn writes and rollbacks, as long as no failed write is
rolled back onto a broken line and no daemon opens a broken file that it cannot read:
reading the file line by line gives what was read from it at first, then every completed
record in order, and no record that was not attempted. -/
theorem trail_is_recovered (bytes : List UInt8) (readable : Bool)
    (told : EndsMidLine bytes → readable = true) (events : List TrailEvent)
    (s : TrailLife) (run : Run (total TrailLife.step) TrailLife.Spared
      (TrailLife.start bytes readable) events s) :
    ∃ recovered, readTrail s.bytes = readTrail bytes ++ recovered ∧
      s.completed.Sublist recovered ∧ recovered.Sublist s.attempted := by
  have recovers : s.log.sink.Recovers (readTrail bytes) s.completed s.attempted := by
    apply run.invariant (I := fun s =>
      s.log.sink.Recovers (readTrail bytes) s.completed s.attempted)
    · intro s event t recovers spared taken
      obtain rfl := total_eq_some_iff.mp taken
      exact TrailLife.recovers_step recovers spared
    · exact TrailLife.recovers_opened told
        ⟨[], (List.append_nil _).symm, .refl _, .refl _⟩
  exact recovers.recovered

/-- A whole file that cannot be read, a torn write, a restart that reads the torn file,
and a record that completes. -/
theorem trail_is_recovered_small :
    ∃ recovered,
      readTrail (((TrailLife.start (Utf8.encode "abc\n") false).step
        (.append tornCall)).step (.restart true) |>.step (.append healthyCall)).bytes =
          readTrail (Utf8.encode "abc\n") ++ recovered ∧
          [refusalRecord].Sublist recovered := by
  have whole : EndsMidLine (Utf8.encode "abc\n") → false = true :=
    fun broken => absurd broken (by decide)
  have first : (TrailLife.start (Utf8.encode "abc\n") false).Spared (.append tornCall) :=
    ⟨rfl, fun bad => absurd bad.2.2.2.2 (by decide)⟩
  have second : ((TrailLife.start (Utf8.encode "abc\n") false).step
      (.append tornCall)).Spared (.restart true) := fun _ => rfl
  have last : (((TrailLife.start (Utf8.encode "abc\n") false).step
      (.append tornCall)).step (.restart true)).Spared (.append healthyCall) :=
    ⟨rfl, fun bad => absurd bad.2.2.1 (by decide)⟩
  obtain ⟨recovered, read, completed, -⟩ :=
    trail_is_recovered (Utf8.encode "abc\n") false whole
      ([] ++ [.append tornCall] ++ [.restart true] ++ [.append healthyCall]) _
      (.snoc (.snoc (.snoc .nil first rfl) second rfl) last rfl)
  exact ⟨recovered, read, completed⟩

/-! ## The file of a serving daemon -/

/-- On a sink that fails nowhere every labelled record is completed. -/
structure Sink.Whole (sink : Sink MemorySink) (records : List TrailRecord) : Prop where
  marked : EndsMidLine sink.bytes.bytes → sink.unterminated = true
  faultless : sink.bytes.faults = .none
  reads : readTrail sink.bytes.bytes = records

theorem Sink.whole_append {sink : Sink MemorySink} {records : List TrailRecord}
    (whole : sink.Whole records) {r : TrailRecord} (labelled : r.Labelled) :
    (sink.append (AuditLog.toJsonLine r)).2.Whole (records ++ [r]) := by
  obtain ⟨⟨bytes, faults⟩, unterminated, lastSize⟩ := sink
  obtain rfl : faults = .none := whole.faultless
  have legible := legible_toJson labelled
  obtain ⟨next, -, read, all⟩ := @readTrail_buffer _ _ _ _
    ⟨(⟨bytes, .none⟩ : MemorySink), unterminated, lastSize⟩ _ legible whole.marked
    (Sink.buffer ⟨(⟨bytes, .none⟩ : MemorySink), unterminated, lastSize⟩
      (Utf8.encode r.toJson)).length
  obtain rfl := all (Nat.le_refl _)
  rw [List.take_length, whole.reads] at read
  refine ⟨fun broken => ?_, rfl, read⟩
  exact absurd broken (Sink.not_endsMidLine_buffer (σ := MemorySink)
    ⟨⟨bytes, .none⟩, unterminated, lastSize⟩ (Utf8.encode r.toJson))

/-- Behind a broken line that is not marked, the record is fused with it, and the line is
then closed. -/
theorem Sink.whole_fused (bytes : List UInt8) (r : TrailRecord) :
    (Sink.append ⟨(⟨bytes, .none⟩ : MemorySink), false, none⟩
      (AuditLog.toJsonLine r)).2.Whole
      (readTrail (bytes ++ (Utf8.encode r.toJson ++ [newline]))) := by
  refine ⟨fun broken => ?_, rfl, rfl⟩
  exact absurd broken (Sink.not_endsMidLine_buffer (σ := MemorySink)
    ⟨⟨bytes, .none⟩, false, none⟩ (Utf8.encode r.toJson))

namespace Serving
variable {Schema β : Type} {x : Externals Schema β} {euid : UInt32}

/-- A step appends a labelled record or leaves the log alone. -/
theorem audit_step {σ : Type} [ByteSink σ] {serialize : AuditLog.Serialize}
    (s : Serving Schema β σ) (a : ServingStep) :
    (s.step x serialize euid a).daemon.audit = s.daemon.audit ∨
      ∃ r : TrailRecord, r.Labelled ∧
        (s.step x serialize euid a).daemon.audit = s.daemon.audit.append serialize r := by
  have adopted (outcome : PolicySetOutcome) (ts : String) :
      ∃ r : TrailRecord, r.Labelled ∧
      (s.adoptNothing serialize outcome ts).daemon.audit =
        s.daemon.audit.append serialize r :=
    ⟨.policySet (AuditLog.policySetRecord ts s.daemon.engine.snapshot.generation
      s.daemon.atRisk outcome), rfl, rfl⟩
  have moved := s.moved_step x serialize euid a
  generalize s.step x serialize euid a = after at moved
  cases moved with
  | disabled | evaluated | trusted | swapped | published => exact .inl rfl
  | @decided handler p ts waiting =>
      exact .inr ⟨.decision
        (AuditLog.decidedRecord x.tables ts p.query p.decision p.userAgent),
        rfl, rfl⟩
  | rejected ts context reason userAgent =>
      exact .inr ⟨.decision (AuditLog.rejectedRecord ts context (.deny reason) userAgent),
        rfl, rfl⟩
  | refused ts idle refuses => exact .inr (adopted _ ts)
  | failed ts judged fails => exact .inr (adopted _ ts)
  | announced ts owing =>
      let loaded := s.daemon.engine.snapshot
      exact .inr ⟨.policySet
        (AuditLog.policySetRecord ts loaded.generation s.daemon.atRisk
          (.loaded loaded.contentHash loaded.files)), rfl, rfl⟩

open Transition in
/-- From a file that holds whole records on, every further record of the trail is held
too. -/
theorem whole_run {s t : Serving Schema β MemorySink} {steps : List ServingStep}
    {held : List TrailRecord}
    (run : Run (total (step x AuditLog.toJsonLine euid)) Always s steps t)
    (whole : s.daemon.audit.sink.Whole held) :
    ∃ later, t.daemon.audit.attempted = s.daemon.audit.attempted ++ later ∧
      t.daemon.audit.sink.Whole (held ++ later) := by
  apply run.invariant (I := fun t => ∃ later,
    t.daemon.audit.attempted = s.daemon.audit.attempted ++ later ∧
      t.daemon.audit.sink.Whole (held ++ later))
  · rintro t a u ⟨later, attempted, whole⟩ _ taken
    obtain rfl := total_eq_some_iff.mp taken
    obtain same | ⟨r, labelled, appended⟩ := audit_step t a
    · rw [same]
      exact ⟨later, attempted, whole⟩
    · rw [appended]
      refine ⟨later ++ [r], ?_, ?_⟩
      · rw [AuditLog.attempted_append, attempted, List.append_assoc]
      · rw [← List.append_assoc]
        exact Sink.whole_append whole labelled
  · exact ⟨[], (List.append_nil _).symm, (List.append_nil held).symm ▸ whole⟩

open Transition in
/-- With any number of handlers, reloads and interleavings, on a file that takes every
write: reading the file line by line gives what was read from it at startup and then
exactly the entries of the trail. Only where the file ended in a broken line and could not
be read is the first entry fused with that line. -/
theorem trail_reads_back (engine : Engine Schema β) (made : engine.Made x)
    (config : Config) (bytes : List UInt8) (readable atRisk : Bool) (ts : String)
    (steps : List ServingStep) (s : Serving Schema β MemorySink)
    (run : Run (total (step x AuditLog.toJsonLine euid)) Always
      (start AuditLog.toJsonLine engine config ⟨bytes, .none⟩
        (LogFile.unterminated bytes readable) atRisk ts) steps s) :
    ((EndsMidLine bytes → readable = true) →
      readTrail s.daemon.audit.sink.bytes.bytes =
        readTrail bytes ++ s.entries.map TrailEntry.line) ∧
    (EndsMidLine bytes → readable = false →
      ∃ first later, s.entries.map TrailEntry.line = first :: later ∧
        readTrail s.daemon.audit.sink.bytes.bytes =
          readTrail (bytes ++ (Utf8.encode first.toJson ++ [newline])) ++ later) := by
  have trail := (chronicle_run made run).trail
  let first : TrailRecord := .policySet (AuditLog.policySetRecord ts
    engine.snapshot.generation atRisk
    (.loaded engine.snapshot.contentHash engine.snapshot.files))
  refine ⟨fun told => ?_, fun broken blind => ?_⟩
  · have opened : (TrailLife.opened bytes readable).sink.Whole (readTrail bytes) :=
      ⟨fun broken => (LogFile.unterminated_of_endsMidLine broken readable).trans
        (told broken),
        rfl, rfl⟩
    obtain ⟨later, attempted, whole⟩ :=
      whole_run run (Sink.whole_append opened (r := first) rfl)
    rw [whole.reads, ← trail, attempted, List.append_assoc]
    rfl
  · have unmarked : LogFile.unterminated bytes readable = false :=
      (LogFile.unterminated_of_endsMidLine broken readable).trans blind
    rw [unmarked] at run
    obtain ⟨later, attempted, whole⟩ := whole_run run (Sink.whole_fused bytes first)
    exact ⟨first, later, trail.symm.trans attempted, whole.reads⟩

open Transition in
theorem trail_reads_back_small :
    ∃ (engine : Engine Unit Unit) (s : Serving Unit Unit MemorySink),
      Engine.bootstrap smallExternals smallView () smallDir 0 = .ok engine ∧
        readTrail s.daemon.audit.sink.bytes.bytes =
          readTrail (Utf8.encode "abc") ++ s.entries.map TrailEntry.line := by
  obtain ⟨engine, started⟩ := Engine.bootstrap_small
  refine ⟨engine, _, started,
    (trail_reads_back engine (.bootstrap smallView () smallDir 0 started)
      ⟨[("cedar", "claude-code")]⟩ (Utf8.encode "abc") true false "1970-01-01T00:00:00Z"
    smallOvertaking _ (Run.of_foldl (step smallExternals AuditLog.toJsonLine 501) _ _)).1
      fun _ => rfl⟩

end Serving

end NonoCedarPdp
