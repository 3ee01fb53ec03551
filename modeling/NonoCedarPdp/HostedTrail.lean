import NonoCedarPdp.AuditSeal
import NonoCedarPdp.TrailReading

/-!
The trail on a host that other users share: handlers and reloads append to a file whose
writes fail as they please, and in between other users do what the host lets them, with
the files they have open.
-/
namespace NonoCedarPdp
open LineFile UnixFs Transition

/-- A `LogFile` on a host: the file of its handle, the path it was opened at, what goes
wrong in the next append, and what opening the path again would come to. -/
structure HostedLog (I : Type) where
  host : HostMachine I
  cwd : Place I OsString
  path : Path
  file : I
  faults : Faults
  reopening : Option (I × HostMachine I × Bool)

namespace HostedLog
variable {I : Type}

def held (s : HostedLog I) : Option (List UInt8) :=
  (s.host.fs.inode s.file).bind Inode.content

def contents (s : HostedLog I) : List UInt8 := s.held.getD []

theorem contents_of_held {s : HostedLog I} {bytes : List UInt8}
    (holds : s.held = some bytes) : s.contents = bytes := by
  rw [contents, holds]
  rfl

variable [DecidableEq I]

def rewrite (f : List UInt8 → List UInt8) (s : HostedLog I) : HostedLog I :=
  { s with host := { s.host with fs := s.host.fs.modify s.file (mapContent f) } }

noncomputable def stillAttached (s : HostedLog I) : Except IoErrorKind Bool :=
  match locate s.host.fs s.cwd s.path with
  | .ok place => .ok (decide (s.host.fs.here place = s.file))
  | .error e => .error e.kind

def reopen (s : HostedLog I) : Reattach × HostedLog I :=
  match s.reopening with
  | some (file, host, endsMidLine) => (.reopened endsMidLine, { s with file, host })
  | none => (.unchanged, s)

noncomputable def reattach (s : HostedLog I) : Reattach × HostedLog I :=
  match s.stillAttached with
  | .ok true => (.unchanged, s)
  | .ok false => s.reopen
  | .error .notFound => s.reopen
  | .error _ => (.unchanged, s)

theorem held_rewrite {s : HostedLog I} {bytes : List UInt8} (holds : s.held = some bytes)
    (f : List UInt8 → List UInt8) : (s.rewrite f).held = some (f bytes) := by
  obtain ⟨n, there, content⟩ := Option.bind_eq_some_iff.mp holds
  have after : (s.rewrite f).host.fs.inode s.file = some (mapContent f n) := by
    simp [rewrite, Fs.modify, there]
  rw [held]
  show ((s.rewrite f).host.fs.inode s.file).bind Inode.content = _
  rw [after, mapContent, content]
  rfl

end HostedLog

section Sinks
variable {I : Type} [DecidableEq I]

noncomputable instance : ByteSink (HostedLog I) where
  append s buf :=
    match s.held, s.faults.takes with
    | none, _ => (false, s)
    | some _, none => (true, s.rewrite (· ++ buf))
    | some _, some k => (false, s.rewrite (· ++ buf.take k))
  size s :=
    (if s.faults.answersSize then s.held.map List.length else none,
      { s with faults := s.faults.sized })
  truncate s len :=
    match s.held with
    | none => (false, s)
    | some _ =>
        if s.faults.truncates then (true, s.rewrite (setLen · len)) else (false, s)
  reattach := HostedLog.reattach

noncomputable instance : LawfulByteSink (HostedLog I) where
  contents := HostedLog.contents
  Rest := Unit
  rest _ := ()
  append_spec s buf := by
    refine ⟨rfl, ?_⟩
    cases holds : s.held with
    | none =>
        exact ⟨0, by simp [ByteSink.append, holds], by simp [ByteSink.append, holds]⟩
    | some bytes =>
        rw [HostedLog.contents_of_held holds]
        cases takes : s.faults.takes with
        | none =>
            refine ⟨buf.length, ?_, fun _ => Nat.le_refl _⟩
            simp only [ByteSink.append, holds, takes, List.take_length]
            exact HostedLog.contents_of_held (HostedLog.held_rewrite holds _)
        | some k =>
            refine ⟨k, ?_, by simp [ByteSink.append, holds, takes]⟩
            simp only [ByteSink.append, holds, takes]
            exact HostedLog.contents_of_held (HostedLog.held_rewrite holds _)
  size_spec s := by
    refine ⟨rfl, rfl, fun n found => ?_⟩
    cases answers : s.faults.answersSize with
    | false => simp [ByteSink.size, answers] at found
    | true =>
        simp only [ByteSink.size, answers, ↓reduceIte, Option.map_eq_some_iff] at found
        obtain ⟨bytes, holds, rfl⟩ := found
        rw [HostedLog.contents_of_held holds]
  truncate_spec s len := by
    refine ⟨rfl, ?_⟩
    cases holds : s.held with
    | none => simp [ByteSink.truncate, holds]
    | some bytes =>
        cases truncates : s.faults.truncates with
        | false => simp [ByteSink.truncate, holds, truncates]
        | true =>
            simp only [ByteSink.truncate, holds, truncates, ↓reduceIte]
            rw [HostedLog.contents_of_held (HostedLog.held_rewrite holds _),
              HostedLog.contents_of_held holds]

end Sinks

theorem Sink.Recovers.of_contents {σ : Type} [ByteSink σ] [LawfulByteSink σ]
    {sink sink' : Sink σ} {earlier completed attempted : List TrailRecord}
    (recovers : sink.Recovers earlier completed attempted)
    (same : LawfulByteSink.contents sink'.bytes = LawfulByteSink.contents sink.bytes)
    (flag : sink'.unterminated = sink.unterminated) :
      sink'.Recovers earlier completed attempted := by
  refine ⟨fun broken => ?_, ?_⟩
  · rw [flag]
    exact recovers.marked (same ▸ broken)
  · rw [same]
    exact recovers.recovered

/-- What the operations of a sink keep, a write keeps. -/
theorem Sink.write_keeps {σ : Type} [ByteSink σ] {P : σ → Prop}
    (append : ∀ s buf, P s → P (ByteSink.append s buf).2)
    (size : ∀ s, P s → P (ByteSink.size s).2)
    (truncate : ∀ s len, P s → P (ByteSink.truncate s len).2)
    {sink : Sink σ} (line : List UInt8)
    (before : P sink.bytes) : P (sink.write line).2.bytes := by
  have appended := append _ (sink.buffer line) (size _ before)
  simp only [Sink.write]
  apply size
  split
  · exact appended
  · cases len : (ByteSink.size sink.bytes).1 with
    | none => exact appended
    | some n => exact truncate _ n appended

/-! ## The log stays attached -/

section Attached
variable {I : Type} [DecidableEq I] {euid : UInt32} {place : Place I OsString} {i : I}
  {bytes : List UInt8} {s : HostedLog I}

/-- The path leads to the handle's file, which is sealed, and which nobody else has open
for writing. -/
structure Attached (euid : UInt32) (place : Place I OsString) (i : I) (bytes : List UInt8)
    (s : HostedLog I) : Prop where
  path : s.path = pathOf place
  file : s.file = i
  here : s.host.fs.here place = i
  sealing : ∃ n, Sealed s.host.fs euid place bytes n
  unheld : ¬ s.host.Holds (Foreign euid) .write i

omit [DecidableEq I] in
theorem Attached.held (attached : Attached euid place i bytes s) :
    s.held = some bytes := by
  obtain ⟨n, sealing⟩ := attached.sealing
  rw [HostedLog.held, attached.file, ← attached.here, sealing.anchored.held]
  exact sealing.content

theorem Attached.rewrite (attached : Attached euid place i bytes s)
    (f : List UInt8 → List UInt8) : Attached euid place i (f bytes) (s.rewrite f) := by
  obtain ⟨n, sealing⟩ := attached.sealing
  refine ⟨attached.path, attached.file, (here_of_root rfl place).trans attached.here, ?_,
    attached.unheld⟩
  show ∃ n, Sealed (s.host.fs.modify s.file (mapContent f)) euid place (f bytes) n
  rw [attached.file, ← attached.here]
  exact sealing.rewrite f

/-- The handle is never opened again. -/
theorem Attached.reattach (attached : Attached euid place i bytes s) :
    ByteSink.reattach s = (.unchanged, s) := by
  obtain ⟨n, sealing⟩ := attached.sealing
  have plain := Inode.target_eq_none_of_content (Option.isSome_of_eq_some sealing.content)
  have found : locate s.host.fs s.cwd s.path = .ok place := by
    rw [attached.path]
    exact locate_pathOf (sealing.anchored.chain plain)
  have still : s.stillAttached = .ok true := by
    rw [HostedLog.stillAttached, found]
    exact congrArg Except.ok (decide_eq_true (attached.here.trans attached.file.symm))
  show s.reattach = _
  rw [HostedLog.reattach, still]

theorem Attached.write {sink : Sink (HostedLog I)}
    (attached : Attached euid place i bytes sink.bytes) (line : List UInt8) :
      ∃ bytes', Attached euid place i bytes' (sink.write line).2.bytes := by
  apply Sink.write_keeps (P := fun s => ∃ bytes', Attached euid place i bytes' s) _ _ _
    line ⟨bytes, attached⟩
  · rintro s buf ⟨bytes', attached⟩
    cases takes : s.faults.takes with
    | none =>
        simp only [ByteSink.append, attached.held, takes]
        exact ⟨_, attached.rewrite _⟩
    | some k =>
        simp only [ByteSink.append, attached.held, takes]
        exact ⟨_, attached.rewrite _⟩
  · rintro s ⟨bytes', attached⟩
    exact ⟨bytes', { attached with }⟩
  · rintro s len ⟨bytes', attached⟩
    cases truncates : s.faults.truncates with
    | false =>
        simp only [ByteSink.truncate, attached.held, truncates,
          Bool.false_eq_true, ↓reduceIte]
        exact ⟨bytes', attached⟩
    | true =>
        simp only [ByteSink.truncate, attached.held, truncates, ↓reduceIte]
        exact ⟨_, attached.rewrite _⟩

/-- One record, on a log that is attached. -/
theorem Attached.append {sink : Sink (HostedLog I)}
    (attached : Attached euid place i bytes sink.bytes)
    {earlier completed attempted : List TrailRecord}
    (recovers : sink.Recovers earlier completed attempted) {r : TrailRecord}
    (labelled : r.Labelled)
    (spared : ¬ (EndsMidLine sink.bytes.contents ∧ ∃ line, sink.RollsBack line)) :
    (∃ bytes', Attached euid place i bytes'
      (sink.append (AuditLog.toJsonLine r)).2.bytes) ∧
      (sink.append (AuditLog.toJsonLine r)).2.Recovers earlier
        (completed ++ if (sink.append (AuditLog.toJsonLine r)).1.written then [r] else [])
        (attempted ++ [r]) := by
  have same : sink.reattach = sink := by
    rw [Sink.reattach, attached.reattach]
  have written : sink.append (AuditLog.toJsonLine r) =
      sink.write (Utf8.encode r.toJson) := by
    show sink.reattach.write _ = _
    rw [same]
  rw [written]
  exact ⟨attached.write _, Sink.recovers_write recovers (legible_toJson labelled)
    fun bad => spared ⟨bad.1, _, bad.2⟩⟩

/-- A call of another user. -/
theorem Attached.call {a : Syscall I OsString (List UInt8)} {host : HostMachine I}
    (attached : Attached euid place i bytes s) (by_foreign : Foreign euid a.user)
    (taken : s.host.call a = some host) :
      Attached euid place i bytes { s with host } := by
  obtain ⟨n, sealing⟩ := attached.sealing
  obtain ⟨⟨bytes', n', sealing', same⟩, stay⟩ := sealing.call by_foreign taken
  rw [attached.here] at same stay
  obtain rfl := same attached.unheld
  have here := here_of_root (Machine.root_call taken) place
  exact ⟨attached.path, attached.file, here.trans attached.here, ⟨n', sealing'⟩,
    fun holds => attached.unheld (stay .write holds)⟩

theorem Attached.not_rollsBack {sink : Sink (HostedLog I)}
    (attached : Attached euid place i bytes sink.bytes)
    (healthy : sink.bytes.faults = .none) (line : List UInt8) :
      ¬ sink.RollsBack line := by
  rintro ⟨failed, -⟩
  have holds : (ByteSink.size sink.bytes).2.held = some bytes := attached.held
  have takes : (ByteSink.size sink.bytes).2.faults.takes = none := by
    show sink.bytes.faults.takes = none
    rw [healthy]
    rfl
  simp only [ByteSink.append, holds, takes] at failed
  cases failed

end Attached

/-! ## The daemon and its log among other users -/

/-- The daemon, and the records of its own whose writes were completed. -/
structure HostedTrail (I Schema β : Type) where
  serving : Serving Schema β (HostedLog I)
  completed : List TrailRecord

inductive HostedTrailStep (I : Type)
  | act (a : Syscall I OsString (List UInt8))
  | meet (faults : Faults) (reopening : Option (I × HostMachine I × Bool))
  | serve (step : ServingStep)

section System
variable {I Schema β : Type} [DecidableEq I]

/-- The records that a step handed to `append` and whose writes returned `Ok`. -/
noncomputable def completedBy (before after : AuditLog (HostedLog I)) :
    List TrailRecord :=
  (after.attempted.drop before.attempted.length).filter fun r =>
    (before.sink.append (AuditLog.toJsonLine r)).1.written

def Serving.onLog (f : HostedLog I → HostedLog I) (s : Serving Schema β (HostedLog I)) :
    Serving Schema β (HostedLog I) :=
  let audit := s.daemon.state.audit
  { s with
    daemon :=
      { s.daemon with
        state :=
          { s.daemon.state with
            audit := { audit with sink := { audit.sink with bytes := f audit.sink.bytes } } } } }

namespace HostedTrail

def sink (s : HostedTrail I Schema β) : Sink (HostedLog I) := s.serving.daemon.audit.sink

/-- The daemon has opened its log, to read it too or only to write it, and recorded the
bootstrap load. -/
noncomputable def start (engine : Engine Schema β) (config : Config) (log : HostedLog I)
    (readable atRisk : Bool) (ts : String) : HostedTrail I Schema β :=
  let unterminated := LogFile.unterminated log.contents readable
  let serving :=
    Serving.start AuditLog.toJsonLine engine config log unterminated atRisk ts
  ⟨serving, completedBy (.withSink log unterminated) serving.daemon.audit⟩

variable (x : Externals Schema β) (euid : UInt32)

noncomputable def step (s : HostedTrail I Schema β) :
    HostedTrailStep I → Option (HostedTrail I Schema β)
  | .act a => (s.sink.bytes.host.call a).map fun host =>
      { s with serving := s.serving.onLog ({ · with host }) }
  | .meet faults reopening =>
      some { s with serving := s.serving.onLog ({ · with faults, reopening }) }
  | .serve step =>
      let serving := s.serving.step x AuditLog.toJsonLine euid step
      some ⟨serving, s.completed ++
        completedBy s.serving.daemon.audit serving.daemon.audit⟩

/-- Other users act, and no failed write is rolled back onto a broken line. -/
def Spared (s : HostedTrail I Schema β) : HostedTrailStep I → Prop
  | .act a => Foreign euid a.user
  | .meet .. => True
  | .serve _ => ¬ (EndsMidLine s.sink.bytes.contents ∧ ∃ line, s.sink.RollsBack line)

variable {x euid} {engine : Engine Schema β} {place : Place I OsString} {i : I}
  {earlier : List TrailRecord} {s t : HostedTrail I Schema β}

/-! ## What every step preserves -/

variable (x euid engine place i earlier) in
structure Kept (s : HostedTrail I Schema β) : Prop where
  attached : ∃ bytes, Attached euid place i bytes s.sink.bytes
  recovers : s.sink.Recovers earlier s.completed s.serving.daemon.audit.attempted
  told : s.serving.Chronicle x euid engine

theorem completedBy_self (log : AuditLog (HostedLog I)) : completedBy log log = [] := by
  simp [completedBy]

theorem completedBy_append (log : AuditLog (HostedLog I)) (r : TrailRecord) :
    completedBy log (log.append AuditLog.toJsonLine r) =
      if (log.sink.append (AuditLog.toJsonLine r)).1.written then [r] else [] := by
  simp [completedBy, List.filter_cons]

theorem kept_serve (kept : s.Kept x euid engine place i earlier) {a : ServingStep}
    (spared : ¬ (EndsMidLine s.sink.bytes.contents ∧ ∃ line, s.sink.RollsBack line))
    (taken : s.step x euid (.serve a) = some t) :
      t.Kept x euid engine place i earlier := by
  obtain ⟨bytes, attached⟩ := kept.attached
  cases taken
  have told : (s.serving.step x AuditLog.toJsonLine euid a).Chronicle x euid engine :=
    Serving.chronicle_step kept.told a
  obtain same | ⟨r, labelled, appended⟩ :=
    @Serving.audit_step _ _ x euid _ _ AuditLog.toJsonLine s.serving a
  · refine ⟨⟨bytes, ?_⟩, ?_, told⟩
    · rw [sink, same]
      exact attached
    · rw [sink, same, completedBy_self, List.append_nil]
      exact kept.recovers
  · obtain ⟨stays, recovers⟩ := attached.append kept.recovers labelled spared
    refine ⟨?_, ?_, told⟩
    · rw [sink, appended]
      exact stays
    · rw [sink, appended, completedBy_append, AuditLog.attempted_append]
      exact recovers

theorem kept_step (kept : s.Kept x euid engine place i earlier) {a : HostedTrailStep I}
    (spared : s.Spared euid a) (taken : s.step x euid a = some t) :
    t.Kept x euid engine place i earlier := by
  obtain ⟨bytes, attached⟩ := kept.attached
  cases a with
  | act a =>
      obtain ⟨host, called, rfl⟩ := Option.map_eq_some_iff.mp taken
      have attached' : Attached euid place i bytes { s.sink.bytes with host } :=
        attached.call spared called
      have unread : LawfulByteSink.contents { s.sink.bytes with host } =
          LawfulByteSink.contents s.sink.bytes :=
        (HostedLog.contents_of_held attached'.held).trans
          (HostedLog.contents_of_held attached.held).symm
      exact ⟨⟨bytes, attached'⟩, kept.recovers.of_contents unread rfl, { kept.told with }⟩
  | meet faults reopening =>
      cases taken
      exact ⟨⟨bytes, { attached with }⟩, kept.recovers.of_contents rfl rfl, { kept.told with }⟩
  | serve a => exact kept_serve kept spared taken

theorem kept_start {log : HostedLog I} {bytes : List UInt8} (made : engine.Made x)
    (attached : Attached euid place i bytes log) (healthy : log.faults = .none)
    (config : Config) {readable : Bool} (told : EndsMidLine bytes → readable = true)
    (atRisk : Bool) (ts : String) :
    (start engine config log readable atRisk ts).Kept x euid engine place i
      (readTrail bytes) := by
  have contents := HostedLog.contents_of_held attached.held
  have opened :
      (AuditLog.withSink log (LogFile.unterminated log.contents readable)).sink.Recovers
      (readTrail bytes) [] [] := by
    refine ⟨fun broken => ?_, [], ?_, .refl _, .refl _⟩
    · have broken' : EndsMidLine log.contents := broken
      exact (LogFile.unterminated_of_endsMidLine broken' readable).trans
        (told (contents ▸ broken'))
    · rw [List.append_nil, ← contents]
      rfl
  have attached' : Attached euid place i bytes
      (AuditLog.withSink log (LogFile.unterminated log.contents readable)).sink.bytes :=
        attached
  obtain ⟨stays, recovers⟩ :=
    attached'.append opened
      (r := .policySet (AuditLog.policySetRecord ts engine.current.generation atRisk
        (.loaded engine.current.contentHash engine.current.files))) rfl
      fun ⟨_, line, rolls⟩ => attached'.not_rollsBack healthy line rolls
  rw [← completedBy_append] at recovers
  exact ⟨stays, recovers, Serving.chronicle_start made config log _ atRisk ts⟩

end HostedTrail
end System

/-- The log of a daemon that has opened it. -/
def HostedLog.opened {I : Type} [DecidableEq I] (m : HostMachine I)
    (cwd : Place I OsString) (path : Path) (euid : UInt32) (i : I) : HostedLog I :=
  ⟨openLog m euid i, cwd, path, i, .none, none⟩

end NonoCedarPdp
