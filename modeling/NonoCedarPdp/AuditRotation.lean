import NonoCedarPdp.Lib.Transition
import NonoCedarPdp.LogFile

/-!
Rotation of the trail. Between records anything may rename, unlink, replace or
grow files; a record goes to the file the configured path names, or to the inode
held before when that one cannot be reached, and to no other.
-/
namespace NonoCedarPdp
open LineFile

namespace Fs

theorem sound_openCreate {fs : Fs} (sound : fs.Sound) (p : Path) :
    (fs.openCreate p).2.Sound := by
  rw [openCreate]
  cases found : fs.names p with
  | some i => exact sound
  | none =>
      refine ⟨fun {q i} named => ?_, fun {i} beyond => ?_⟩
      · by_cases same : q = p
        · subst same
          obtain rfl : fs.next = i := by simpa using named
          exact Nat.lt_succ_self fs.next
        · have before := sound.named (by simpa [same] using named)
          exact Nat.lt_succ_of_lt before
      · have past : fs.next + 1 ≤ i := beyond
        have other : i ≠ fs.next := by omega
        simpa [other] using sound.unallocated (by omega : fs.next ≤ i)

theorem data_openCreate {fs : Fs} (sound : fs.Sound) (p : Path) (j : Nat) :
    (fs.openCreate p).2.data j = fs.data j := by
  rw [openCreate]
  cases fs.names p with
  | some i => rfl
  | none =>
      by_cases fresh : j = fs.next
      · subst fresh
        simpa using (sound.unallocated (Nat.le_refl _)).symm
      · simp [fresh]

theorem next_openCreate (fs : Fs) (p : Path) : fs.next ≤ (fs.openCreate p).2.next := by
  rw [openCreate]
  cases fs.names p <;> simp

end Fs

namespace LogFile

/-- An open changes no bytes; when it succeeds, the handle is on the inode the path
names. -/
theorem openAt_spec {p : Path} {fs : Fs} (sound : fs.Sound) (faults : OpenFaults) :
    (openAt p fs faults).2.Sound ∧ fs.next ≤ (openAt p fs faults).2.next ∧
      (∀ j, (openAt p fs faults).2.data j = fs.data j) ∧
      ∀ log unterminated, (openAt p fs faults).1 = some (log, unterminated) →
        log.path = p ∧ log.inode = log.file ∧
        (openAt p fs faults).2.names p = some log.file := by
  obtain failed | ⟨opened, result, handle⟩ := openAt_cases p fs faults
  · rw [failed]
    exact ⟨sound, Nat.le_refl _, fun _ => rfl, by simp⟩
  · rw [result]
    refine ⟨Fs.sound_openCreate sound p, Fs.next_openCreate fs p,
      Fs.data_openCreate sound p, ?_⟩
    intro log unterminated found
    rw [handle log unterminated found]
    exact ⟨rfl, rfl, Fs.names_openCreate fs p⟩

end LogFile

namespace Mounted

/-- The handle is on an allocated inode, the one whose identity it remembers. -/
structure Held (s : Mounted) : Prop where
  sound : s.fs.Sound
  identified : s.log.inode = s.log.file
  allocated : s.log.file < s.fs.next

/-- The configured path could be inspected and no longer names the held inode. -/
def Detached (s : Mounted) : Prop :=
  s.stillAttached = .ok false ∨ s.stillAttached = .error .notFound

/-- The check succeeds, and so does the reopen where there is one. -/
def Reattaches (s : Mounted) : Prop :=
  s.stillAttached = .ok true ∨
    (s.Detached ∧ (LogFile.openAt s.log.path s.fs s.opens).1.isSome)

/-- The path cannot be inspected for a reason other than its absence, or the reopen
fails. -/
def KeepsHandle (s : Mounted) : Prop :=
  (∃ kind, s.stillAttached = .error kind ∧ kind ≠ .notFound) ∨
    (s.Detached ∧ (LogFile.openAt s.log.path s.fs s.opens).1 = none)

/-- What reattaching leaves, in the two cases. -/
inductive Reattached (s : Mounted) (after : Mounted) : Prop
  | named (reattaches : s.Reattaches)
      (names : after.fs.names after.log.path = some after.log.file)
  | kept (keeps : s.KeepsHandle) (log : after.log = s.log)

theorem reopen_spec {s : Mounted} (held : s.Held) (detached : s.Detached) :
    s.Reattached s.reopen.2 ∧ s.reopen.2.Held ∧ s.reopen.2.log.path = s.log.path ∧
      (∀ j, s.reopen.2.fs.data j = s.fs.data j) ∧ s.reopen.2.writes = s.writes := by
  obtain ⟨sound, grown, data, found⟩ :=
    LogFile.openAt_spec held.sound s.opens (p := s.log.path)
  rw [reopen]
  cases opened : LogFile.openAt s.log.path s.fs s.opens with
  | mk result fs =>
      rw [opened] at sound grown data found
      cases result with
      | none =>
          refine ⟨.kept (.inr ⟨detached, by rw [opened]⟩) rfl, ?_, rfl, data, rfl⟩
          exact ⟨sound, held.identified, Nat.lt_of_lt_of_le held.allocated grown⟩
      | some pair =>
          obtain ⟨path, same, names⟩ := found pair.1 pair.2 rfl
          have onPath : fs.names pair.1.path = some pair.1.file := by
            rw [path]; exact names
          refine ⟨.named (.inr ⟨detached, by rw [opened]; rfl⟩) onPath, ?_,
            path, data, rfl⟩
          exact ⟨sound, same, sound.named names⟩

theorem reattach_spec {s : Mounted} (held : s.Held) :
    s.Reattached s.reattach.2 ∧ s.reattach.2.Held ∧ s.reattach.2.log.path = s.log.path ∧
      (∀ j, s.reattach.2.fs.data j = s.fs.data j) ∧ s.reattach.2.writes = s.writes := by
  have kept : s.Held ∧ s.log.path = s.log.path ∧ (∀ j, s.fs.data j = s.fs.data j) ∧
      s.writes = s.writes := ⟨held, rfl, fun _ => rfl, rfl⟩
  rw [reattach]
  cases checked : s.stillAttached with
  | ok same =>
      cases same with
      | true =>
          have names : s.fs.names s.log.path = some s.log.file := by
            rw [stillAttached] at checked
            split at checked
            · split at checked
              · cases checked
              · next i found =>
                have same : i = s.log.inode := by simpa using checked
                rw [found, same, held.identified]
            · cases checked
          exact ⟨.named (.inl checked) names, kept⟩
      | false => exact reopen_spec held (.inl checked)
  | error kind =>
      by_cases absent : kind = .notFound
      · subst absent
        exact reopen_spec held (.inr checked)
      · have keeps : s.KeepsHandle := .inl ⟨kind, checked, absent⟩
        cases kind with
        | notFound => exact absurd rfl absent
        | notADirectory => exact ⟨.kept keeps rfl, kept⟩
        | other => exact ⟨.kept keeps rfl, kept⟩

/-- With equal surroundings only the bytes of the held inode can differ. -/
theorem eq_of_surroundings {s t : Mounted} (same : t.surroundings = s.surroundings) :
    t.log = s.log ∧ t.fs.names = s.fs.names ∧ t.fs.next = s.fs.next ∧
      ∀ j, j ≠ s.log.file → t.fs.data j = s.fs.data j := by
  have log : t.log = s.log := congrArg Surroundings.log same
  refine ⟨log, congrArg Surroundings.names same, congrArg Surroundings.next same,
    fun j other => ?_⟩
  have others := congrFun (congrArg Surroundings.others same) j
  simpa [surroundings, log, other] using others

end Mounted

/-! ## One record -/

/-- What was written: the record on its line, behind a newline where a line was broken. -/
def Sink.recordBytes {σ : Type} [ByteSink σ] (sink : Sink σ)
    (line : List UInt8) : List UInt8 :=
  sink.reattach.buffer line

/-- After reattaching, a write leaves the names alone, adds bytes to the held inode
only, and leaves the handle where it was. -/
theorem Mounted.write_effect {sink : Sink Mounted} (held : sink.bytes.Held)
    (line : List UInt8) : (sink.write line).2.bytes.Held ∧
      (sink.write line).2.bytes.log = sink.bytes.log ∧
      (sink.write line).2.bytes.fs.names = sink.bytes.fs.names ∧
      (∀ j, j ≠ sink.bytes.log.file →
        (sink.write line).2.bytes.fs.data j = sink.bytes.fs.data j) ∧
      (∃ more, (sink.write line).2.bytes.fs.data sink.bytes.log.file =
        sink.bytes.fs.data sink.bytes.log.file ++ more) ∧
      ((sink.write line).1.written = true →
        (sink.write line).2.bytes.fs.data sink.bytes.log.file =
          sink.bytes.fs.data sink.bytes.log.file ++ sink.buffer line) := by
  obtain ⟨log, names, next, others⟩ := Mounted.eq_of_surroundings (sink.rest_write line)
  have contents (s : Mounted) : LawfulByteSink.contents s = s.fs.data s.log.file := rfl
  have added : (∃ more, (sink.write line).2.bytes.fs.data sink.bytes.log.file =
        sink.bytes.fs.data sink.bytes.log.file ++ more) ∧
      ((sink.write line).1.written = true →
        (sink.write line).2.bytes.fs.data sink.bytes.log.file =
          sink.bytes.fs.data sink.bytes.log.file ++ sink.buffer line) := by
    cases sink.write_left line with
    | wrote written bytes flag =>
        rw [contents, contents, log] at bytes
        exact ⟨⟨_, bytes⟩, fun _ => bytes⟩
    | rolledBack written rolls bytes flag =>
        rw [contents, contents, log] at bytes
        exact ⟨⟨[], by simpa using bytes⟩, by simp [written]⟩
    | torn written k bytes flag =>
        rw [contents, contents, log] at bytes
        exact ⟨⟨_, bytes⟩, by simp [written]⟩
  refine ⟨⟨⟨?_, ?_⟩, ?_, ?_⟩, log, names, others, added⟩
  · intro p i named
    rw [names] at named
    rw [next]
    exact held.sound.named named
  · intro i beyond
    rw [next] at beyond
    have other : i ≠ sink.bytes.log.file := by
      have := held.allocated
      omega
    rw [others i other]
    exact held.sound.unallocated beyond
  · rw [log]
    exact held.identified
  · rw [log, next]
    exact held.allocated

/-- Where a record goes. -/
structure RecordEffect (s : Sink Mounted) (line : List UInt8) : Prop where
  toNamed : s.bytes.Reattaches → (s.append (some line)).1.written = true →
    ∃ i, (s.append (some line)).2.bytes.fs.names s.bytes.log.path = some i ∧
      (s.append (some line)).2.bytes.fs.data i = s.bytes.fs.data i ++ s.recordBytes line ∧
      ∀ j, j ≠ i → (s.append (some line)).2.bytes.fs.data j = s.bytes.fs.data j
  toHeld : s.bytes.KeepsHandle → (s.append (some line)).1.written = true →
    (s.append (some line)).2.bytes.fs.data s.bytes.log.file =
        s.bytes.fs.data s.bytes.log.file ++ s.recordBytes line ∧
      ∀ j, j ≠ s.bytes.log.file →
        (s.append (some line)).2.bytes.fs.data j = s.bytes.fs.data j
  nowhereElse : ∀ j, (s.append (some line)).2.bytes.fs.data j ≠ s.bytes.fs.data j →
    (s.bytes.Reattaches ∧
      (s.append (some line)).2.bytes.fs.names s.bytes.log.path = some j) ∨
      (s.bytes.KeepsHandle ∧ j = s.bytes.log.file)
  keeps : ∀ j, s.bytes.fs.data j <+: (s.append (some line)).2.bytes.fs.data j

theorem Mounted.not_reattaches_of_keeps {s : Mounted} (keeps : s.KeepsHandle) :
    ¬ s.Reattaches := by
  intro reattaches
  obtain ⟨kind, checked, present⟩ | ⟨detached, failed⟩ := keeps
  · obtain attached | ⟨detached | detached, -⟩ := reattaches
    · rw [checked] at attached; cases attached
    · rw [checked] at detached; cases detached
    · rw [checked] at detached
      exact present (Except.error.inj detached)
  · obtain attached | ⟨-, opened⟩ := reattaches
    · obtain other | absent := detached
      · rw [attached] at other; cases other
      · rw [attached] at absent; cases absent
    · rw [failed] at opened
      cases opened

theorem Sink.bytes_reattach (s : Sink Mounted) :
    s.reattach.bytes = s.bytes.reattach.2 := by
  have same : ByteSink.reattach s.bytes = s.bytes.reattach := rfl
  rw [Sink.reattach]
  rw [same]
  cases s.bytes.reattach with
  | mk outcome bytes => cases outcome <;> rfl

theorem recordEffect {s : Sink Mounted} (held : s.bytes.Held) (line : List UInt8) :
    RecordEffect s line ∧ (s.append (some line)).2.bytes.Held ∧
      (s.append (some line)).2.bytes.log.path = s.bytes.log.path := by
  obtain ⟨outcome, held', path, data, -⟩ := Mounted.reattach_spec held
  rw [← Sink.bytes_reattach] at outcome held' path data
  obtain ⟨heldAfter, log, names, others, ⟨more, grown⟩, whole⟩ :=
    Mounted.write_effect held' line
  have appended : s.append (some line) = s.reattach.write line := rfl
  rw [data] at grown whole
  have elsewhere (j : Nat) (other : j ≠ s.reattach.bytes.log.file) :
      (s.append (some line)).2.bytes.fs.data j = s.bytes.fs.data j := by
    rw [appended, others j other, data]
  have namesAfter :
      (s.append (some line)).2.bytes.fs.names = s.reattach.bytes.fs.names := by
    rw [appended, names]
  refine ⟨⟨?_, ?_, ?_, ?_⟩, heldAfter, ?_⟩
  · intro reattaches written
    cases outcome with
    | named _ onPath =>
        refine ⟨s.reattach.bytes.log.file, ?_, whole written, elsewhere⟩
        rw [namesAfter, ← path]
        exact onPath
    | kept keeps _ => exact absurd reattaches (Mounted.not_reattaches_of_keeps keeps)
  · intro keeps written
    cases outcome with
    | named reattaches _ =>
        exact absurd reattaches (Mounted.not_reattaches_of_keeps keeps)
    | kept _ same =>
        rw [same] at whole elsewhere
        exact ⟨whole written, elsewhere⟩
  · intro j changed
    have here : j = s.reattach.bytes.log.file := by
      by_contra other
      exact changed (elsewhere j other)
    cases outcome with
    | named reattaches onPath =>
        left
        refine ⟨reattaches, ?_⟩
        rw [namesAfter, here, ← path]
        exact onPath
    | kept keeps same =>
        right
        exact ⟨keeps, here.trans (congrArg LogFile.file same)⟩
  · intro j
    by_cases here : j = s.reattach.bytes.log.file
    · subst here
      exact ⟨more, grown.symm⟩
    · exact ⟨[], by rw [List.append_nil, elsewhere j here]⟩
  · rw [appended, log, path]

/-! ## Runs -/

/-- A call of `append` with what goes wrong in it, or anything that happens to the
file system between calls. -/
inductive TrailStep
  | record (record : TrailRecord) (inspects : Bool) (opens : OpenFaults) (writes : Faults)
  | external (fs : Fs)

namespace AuditLog

def fs (log : AuditLog Mounted) : Fs := log.sink.bytes.fs

def meet (log : AuditLog Mounted) (inspects : Bool) (opens : OpenFaults) (writes : Faults) :
    AuditLog Mounted :=
  { log with sink := { log.sink with bytes := { log.sink.bytes with inspects, opens, writes } } }

def mount (log : AuditLog Mounted) (fs : Fs) : AuditLog Mounted :=
  { log with sink := { log.sink with bytes := { log.sink.bytes with fs } } }

def trailStep (serialize : Serialize) (log : AuditLog Mounted) :
    TrailStep → AuditLog Mounted
  | .record record inspects opens writes =>
      (log.meet inspects opens writes).append serialize record
  | .external fs => log.mount fs

/-- External steps rename, unlink, replace and grow, and shrink no file. -/
def Permitted (log : AuditLog Mounted) : TrailStep → Prop
  | .record .. => True
  | .external fs => fs.Sound ∧ log.fs.next ≤ fs.next ∧ ∀ j, log.fs.data j <+: fs.data j

theorem held_openAt {p : Path} {fs : Fs} (sound : fs.Sound) {opens : OpenFaults}
    {log : AuditLog Mounted} (opened : AuditLog.openAt p fs opens = some log) :
    log.sink.bytes.Held ∧ log.sink.bytes.log.path = p := by
  obtain ⟨sound', -, -, found⟩ := LogFile.openAt_spec sound opens (p := p)
  rw [AuditLog.openAt] at opened
  cases result : LogFile.openAt p fs opens with
  | mk handle fs' =>
      rw [result] at sound' found opened
      cases handle with
      | none => cases opened
      | some pair =>
          obtain ⟨path, same, names⟩ := found pair.1 pair.2 rfl
          cases opened
          exact ⟨⟨sound', same, sound'.named names⟩, path⟩

theorem held_step (serialize : Serialize) {log : AuditLog Mounted} {step : TrailStep}
    (held : log.sink.bytes.Held) (permitted : log.Permitted step) :
    (log.trailStep serialize step).sink.bytes.Held ∧
      (log.trailStep serialize step).sink.bytes.log.path = log.sink.bytes.log.path ∧
      ∀ j, log.fs.data j <+: (log.trailStep serialize step).fs.data j := by
  cases step with
  | external fs =>
      obtain ⟨sound, grown, data⟩ := permitted
      exact ⟨⟨sound, held.identified, Nat.lt_of_lt_of_le held.allocated grown⟩, rfl, data⟩
  | record record inspects opens writes =>
      have met : (log.meet inspects opens writes).sink.bytes.Held :=
        ⟨held.sound, held.identified, held.allocated⟩
      cases serialized : serialize record with
      | none =>
          have same : (log.trailStep serialize
              (.record record inspects opens writes)).sink =
              (log.meet inspects opens writes).sink := by
            simp [trailStep, AuditLog.append, Sink.append, serialized]
          simp only [AuditLog.fs]
          rw [same]
          exact ⟨met, rfl, fun j => List.prefix_refl _⟩
      | some line =>
          have written :
              (log.trailStep serialize (.record record inspects opens writes)).sink =
              ((log.meet inspects opens writes).sink.append (some line)).2 := by
            simp [trailStep, AuditLog.append, serialized]
          obtain ⟨effect, held', path⟩ := recordEffect met line
          simp only [AuditLog.fs]
          rw [written]
          exact ⟨held', path, effect.keeps⟩

end AuditLog

open Transition AuditLog in
/-- In every run a record goes where the configured path points, or to the inode held
before when that one cannot be reached; nothing else changes, and every file keeps
the bytes it had. -/
theorem rotation_keeps_every_record (serialize : Serialize) (p : Path) (fs₀ : Fs)
    (sound : fs₀.Sound) (opens₀ : OpenFaults) (log₀ : AuditLog Mounted)
    (opened : AuditLog.openAt p fs₀ opens₀ = some log₀) (steps : List TrailStep)
    (log : AuditLog Mounted)
    (run : Run (total (trailStep serialize)) Permitted log₀ steps log) :
    log.sink.bytes.log.path = p ∧
      (∀ record inspects opens writes line, serialize record = some line →
        (log.trailStep serialize (.record record inspects opens writes)).sink =
            ((log.meet inspects opens writes).sink.append (some line)).2 ∧
          RecordEffect (log.meet inspects opens writes).sink line) ∧
      ∀ more log', Run (total (trailStep serialize)) Permitted log more log' →
        ∀ j, log.fs.data j <+: log'.fs.data j := by
  have reached : log.sink.bytes.Held ∧ log.sink.bytes.log.path = p := by
    apply run.invariant
      (I := fun log => log.sink.bytes.Held ∧ log.sink.bytes.log.path = p)
    · intro s step t ⟨held, path⟩ permitted taken
      obtain rfl := total_eq_some_iff.mp taken
      obtain ⟨held', path', -⟩ := held_step serialize held permitted
      exact ⟨held', path'.trans path⟩
    · exact held_openAt sound opened
  refine ⟨reached.2, ?_, ?_⟩
  · intro record inspects opens writes line serialized
    have met : (log.meet inspects opens writes).sink.bytes.Held :=
      ⟨reached.1.sound, reached.1.identified, reached.1.allocated⟩
    exact ⟨by simp [trailStep, AuditLog.append, serialized], (recordEffect met line).1⟩
  · intro more log' onward
    have kept : log'.sink.bytes.Held ∧ ∀ j, log.fs.data j <+: log'.fs.data j := by
      apply onward.invariant
        (I := fun log' => log'.sink.bytes.Held ∧ ∀ j, log.fs.data j <+: log'.fs.data j)
      · intro s step t ⟨held, data⟩ permitted taken
        obtain rfl := total_eq_some_iff.mp taken
        obtain ⟨held', -, grown⟩ := held_step serialize held permitted
        exact ⟨held', fun j => (data j).trans (grown j)⟩
      · exact ⟨reached.1, fun j => List.prefix_refl _⟩
    exact kept.2

def logPath : Path := ⟨true, [.normal (Utf8.encode "decisions.jsonl")]⟩

/-- A file system with one empty file, under the given name. -/
def oneFile (p : Path) : Fs where
  names q := if q = p then some 0 else none
  data _ := []
  next := 1

theorem sound_oneFile (p : Path) : (oneFile p).Sound := by
  refine ⟨fun {q i} named => ?_, fun _ => rfl⟩
  have first : q = p ∧ 0 = i := by simpa [oneFile] using named
  rw [← first.2]
  exact Nat.one_pos

def openedLog : AuditLog Mounted :=
  .withSink ⟨oneFile logPath, ⟨logPath, 0, 0⟩, true, .none, .none⟩ false

/-- The file was renamed away: the record goes to a fresh file under the configured
path. -/
theorem record_after_rename :
    RecordEffect
      (((openedLog.mount (oneFile (logPath.push []))).meet true .none .none).sink)
      (Utf8.encode refusalRecord.toJson) := by
  have permitted : openedLog.Permitted (.external (oneFile (logPath.push []))) :=
    ⟨sound_oneFile _, Nat.le_refl _, fun _ => List.prefix_refl _⟩
  have contract :=
    rotation_keeps_every_record AuditLog.toJsonLine logPath (oneFile logPath)
      (sound_oneFile logPath) .none openedLog rfl
        ([] ++ [.external (oneFile (logPath.push []))])
      _ (.snoc .nil permitted rfl)
  exact (contract.2.1 refusalRecord true .none .none _ rfl).2

end NonoCedarPdp
