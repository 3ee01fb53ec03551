import NonoCedarPdp.Audit
import NonoCedarPdp.Lib.Transition

/-!
Line integrity of the trail over a sink in memory whose writes, size queries and
truncations fail as they please. Every completed record stands on a line of its
own, unless a failed write is rolled back onto a line that an earlier write left
broken: the mark of that line is then lost, and the next record is fused with it.
-/
namespace NonoCedarPdp
open LineFile

structure MemorySink where
  bytes : List UInt8
  faults : Faults
  deriving DecidableEq, Repr

instance : ByteSink MemorySink where
  append s buf :=
    match s.faults.takes with
    | none => (true, { s with bytes := s.bytes ++ buf })
    | some n => (false, { s with bytes := s.bytes ++ buf.take n })
  size s :=
    (if s.faults.answersSize then some s.bytes.length else none,
      { s with faults := s.faults.sized })
  truncate s len :=
    if s.faults.truncates then (true, { s with bytes := setLen s.bytes len })
      else (false, s)

instance : LawfulByteSink MemorySink where
  contents := MemorySink.bytes
  Rest := Unit
  rest _ := ()
  append_spec s buf := by
    refine ⟨rfl, ?_⟩
    cases takes : s.faults.takes with
    | none => exact ⟨buf.length, by simp [ByteSink.append, takes], fun _ => Nat.le_refl _⟩
    | some n =>
        exact ⟨n, by simp [ByteSink.append, takes], by simp [ByteSink.append, takes]⟩
  size_spec s := by
    refine ⟨rfl, rfl, fun n found => ?_⟩
    cases answers : s.faults.answersSize with
    | true => simpa [ByteSink.size, answers, eq_comm] using found
    | false => simp [ByteSink.size, answers] at found
  truncate_spec s len := by
    refine ⟨rfl, ?_⟩
    cases truncates : s.faults.truncates <;> simp [ByteSink.truncate, truncates]

/-! ## One write -/

section Writes
variable {σ : Type} [ByteSink σ] [LawfulByteSink σ]
open LawfulByteSink

/-- The completed lines stand in the file, and a broken last line is marked. -/
def Sink.Intact (sink : Sink σ) (completed : List (List UInt8)) : Prop :=
  StandIn (contents sink.bytes) completed ∧
    (EndsMidLine (contents sink.bytes) → sink.unterminated = true)

/-- A buffer behind intact lines adds a line, if a broken last line is marked. -/
theorem Sink.standIn_buffer {τ : Type} {sink : Sink τ} {bytes : List UInt8}
    {completed : List (List UInt8)} (stands : StandIn bytes completed)
    (marked : EndsMidLine bytes → sink.unterminated = true) (line : List UInt8) :
    StandIn (bytes ++ sink.buffer line) (completed ++ [line]) := by
  cases flag : sink.unterminated with
  | true => simpa [Sink.buffer, flag] using stands.close_write line
  | false =>
      have atLineStart : ¬ EndsMidLine bytes := by
        intro broken
        have mark := marked broken
        rw [flag] at mark
        cases mark
      simpa [Sink.buffer, flag] using stands.write atLineStart line

theorem Sink.not_endsMidLine_buffer (sink : Sink σ) (line : List UInt8) :
    ¬ EndsMidLine (contents sink.bytes ++ sink.buffer line) := by
  have shape : contents sink.bytes ++ sink.buffer line =
      (contents sink.bytes ++ ((if sink.unterminated then [newline] else []) ++ line)) ++
        [newline] := by
    simp [Sink.buffer]
  rw [shape]
  exact not_endsMidLine_newline _

/-- A write keeps the file intact unless it is rolled back onto a broken line. -/
theorem Sink.intact_write {sink : Sink σ} {completed : List (List UInt8)}
    (intact : sink.Intact completed) (line : List UInt8)
    (spared : ¬ (EndsMidLine (contents sink.bytes) ∧ sink.RollsBack line)) :
    (sink.write line).2.Intact
      (completed ++ if (sink.write line).1.written then [line] else []) := by
  cases sink.write_left line with
  | wrote written bytes flag =>
      rw [Sink.Intact, bytes, flag, written]
      exact ⟨Sink.standIn_buffer intact.1 intact.2 line, fun broken =>
        absurd broken (sink.not_endsMidLine_buffer line)⟩
  | rolledBack written rolls bytes flag =>
      rw [Sink.Intact, bytes, flag, written]
      refine ⟨by simpa using intact.1, fun broken => ?_⟩
      exact absurd ⟨broken, rolls⟩ spared
  | torn written k bytes flag =>
      rw [Sink.Intact, bytes, flag, written]
      refine ⟨?_, fun _ => rfl⟩
      simpa using intact.1.append ((sink.buffer line).take k)

end Writes

/-! ## Runs -/

/-- One call of `append`, and the faults it meets. -/
structure AppendCall where
  record : TrailRecord
  faults : Faults

/-- The log, and the lines whose physical write returned `Ok`, in call order. -/
structure Recorded where
  log : AuditLog MemorySink
  completed : List (List UInt8)

namespace Recorded

/-- A file as `LogFile::open` finds it, the last byte read. -/
def start (bytes : List UInt8) : Recorded :=
  ⟨.withSink ⟨bytes, .none⟩ (decide (EndsMidLine bytes)), []⟩

def bytes (s : Recorded) : List UInt8 := s.log.sink.bytes.bytes

def meet (s : Recorded) (faults : Faults) : AuditLog MemorySink :=
  { s.log with sink := { s.log.sink with bytes := { s.log.sink.bytes with faults } } }

def step (serialize : AuditLog.Serialize) (s : Recorded) (call : AppendCall) : Recorded :=
  let log := s.meet call.faults
  let line := serialize call.record
  { log := log.append serialize call.record
    completed := s.completed ++ if (log.sink.append line).1.written
      then line.toList else [] }

/-- The record serializes, its write fails, the size before it was read and the
truncation to that size succeeds. -/
def FailsAndRollsBack (serialize : AuditLog.Serialize) (call : AppendCall) : Prop :=
  (serialize call.record).isSome ∧ call.faults.takes.isSome ∧
    call.faults.answersSize = true ∧ call.faults.truncates = true

/-- The step does not roll a failed write back onto a broken line. -/
def Spares (serialize : AuditLog.Serialize) (s : Recorded) (call : AppendCall) : Prop :=
  ¬ (EndsMidLine s.bytes ∧ FailsAndRollsBack serialize call)

theorem rollsBack_meet {s : Recorded} {serialize : AuditLog.Serialize} {call : AppendCall}
    {line : List UInt8} (serialized : serialize call.record = some line)
    (rolls : (s.meet call.faults).sink.RollsBack line) :
      FailsAndRollsBack serialize call := by
  obtain ⟨failed, len, sized, truncated⟩ := rolls
  refine ⟨by simp [serialized], ?_, ?_, ?_⟩
  · cases takes : call.faults.takes with
    | none => simp [ByteSink.append, ByteSink.size, meet, Faults.sized, takes] at failed
    | some n => rfl
  · by_contra unanswered
    simp [ByteSink.size, meet, unanswered] at sized
  · cases takes : call.faults.takes <;> cases truncates : call.faults.truncates <;>
      simp [ByteSink.append, ByteSink.size, ByteSink.truncate, meet, Faults.sized, takes,
        truncates] at truncated ⊢

theorem intact_step {serialize : AuditLog.Serialize} {s : Recorded} {call : AppendCall}
    (intact : s.log.sink.Intact s.completed) (spared : Spares serialize s call) :
    (step serialize s call).log.sink.Intact (step serialize s call).completed := by
  have met : (s.meet call.faults).sink.Intact s.completed := intact
  cases serialized : serialize call.record with
  | none => simpa [step, AuditLog.append, Sink.append, serialized] using met
  | some line =>
      have kept := Sink.intact_write met line fun ⟨broken, rolls⟩ =>
        spared ⟨broken, rollsBack_meet serialized rolls⟩
      simpa [step, AuditLog.append, Sink.append, serialized, Sink.reattach,
        ByteSink.reattach] using kept

theorem intact_start (bytes : List UInt8) :
    (start bytes).log.sink.Intact (start bytes).completed :=
  ⟨.nil bytes, fun broken => decide_eq_true broken⟩

end Recorded

open Transition in
/-- In a run that never rolls a failed write back onto a broken line, every completed
record stands as a line of its own, in call order. -/
theorem completed_records_stand (serialize : AuditLog.Serialize) (bytes : List UInt8)
    (calls : List AppendCall) (s : Recorded)
    (run : Run (total (Recorded.step serialize)) (Recorded.Spares serialize)
      (Recorded.start bytes) calls s) : StandIn s.bytes s.completed := by
  have intact : s.log.sink.Intact s.completed := by
    apply run.invariant (I := fun s => s.log.sink.Intact s.completed)
    · intro s call t intact spared taken
      obtain rfl := total_eq_some_iff.mp taken
      exact Recorded.intact_step intact spared
    · exact Recorded.intact_start bytes
  exact intact.1

def tornCall : AppendCall := ⟨refusalRecord, ⟨[], some 5, false⟩⟩

def healthyCall : AppendCall := ⟨refusalRecord, .none⟩

/-- On a torn file: a write that is cut after five bytes and cannot be rolled back,
then one that completes. -/
theorem completed_record_stands_behind_torn_lines :
    let torn := Recorded.step AuditLog.toJsonLine
        (Recorded.start (Utf8.encode "abc")) tornCall
    let s := Recorded.step AuditLog.toJsonLine torn healthyCall
    StandIn s.bytes s.completed := by
  intro torn s
  have first : Recorded.Spares AuditLog.toJsonLine
      (Recorded.start (Utf8.encode "abc")) tornCall :=
    fun bad => absurd bad.2.2.2.2 (by decide)
  have second : Recorded.Spares AuditLog.toJsonLine torn healthyCall :=
    fun bad => absurd bad.2.2.1 (by decide)
  exact completed_records_stand AuditLog.toJsonLine (Utf8.encode "abc")
    ([] ++ [tornCall] ++ [healthyCall]) s (.snoc (.snoc .nil first rfl) second rfl)

/-- A write on a torn file fails and is rolled back; the next record is fused with the
torn bytes. -/
theorem rolled_back_write_loses_the_torn_line :
    ∃ calls s, Transition.Run (Transition.total (Recorded.step AuditLog.toJsonLine))
      Transition.Always (Recorded.start (Utf8.encode "abc")) calls s ∧
        ¬ StandIn s.bytes s.completed := by
  refine ⟨[] ++ [⟨refusalRecord, ⟨[], some 5, true⟩⟩] ++ [healthyCall], _,
    .snoc (.snoc .nil trivial rfl) trivial rfl, fun stands => ?_⟩
  obtain first | twice := standIn_singleton stands
  · exact absurd first (by decide +kernel)
  · exact absurd twice (by decide +kernel)

end NonoCedarPdp
