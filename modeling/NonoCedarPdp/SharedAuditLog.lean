import NonoCedarPdp.AuditLines
import NonoCedarPdp.LogFile

/-!
Several processes with an audit log on one path: the daemon, and each `check --audit`.
An append is several system calls, and the calls of different processes interleave. What
a process remembers between its calls, the size it may cut back to and whether the last
line is broken, says nothing of the others: a rollback may remove a record another
process completed, and a record may be fused with a line another process left broken.
-/
namespace NonoCedarPdp
open LineFile

/-- Where a process stands in an append. -/
inductive AppendPhase
  | idle
  | attached (line : List UInt8)
  | sized (line : List UInt8) (sizeBefore : Option Nat)
  | failed (sizeBefore : Option Nat)
  | closing
  deriving DecidableEq, Repr

/-- One process: its sink, whose file is shared, and its phase. -/
structure LogProcess where
  sink : Sink LogFile
  phase : AppendPhase

structure SharedLog (ι : Type) where
  fs : Fs
  processes : ι → Option LogProcess

/-- One call of a process, with what goes wrong in it. -/
inductive LogCall
  | openLog (opens : OpenFaults)
  | reattach (record : TrailRecord) (inspects : Bool) (opens : OpenFaults)
  | size (answers : Bool)
  | write (takes : Option Nat)
  | rollBack (truncates : Bool)
  | lastSize (answers : Bool)

namespace SharedLog
variable {ι : Type} [DecidableEq ι]

def put (s : SharedLog ι) (i : ι) (fs : Fs) (process : LogProcess) : SharedLog ι :=
  { fs, processes := Function.update s.processes i (some process) }

/-- The sink of a process, mounted on the shared file system. -/
def mounted (s : SharedLog ι) (sink : Sink LogFile) (inspects : Bool) (opens : OpenFaults)
    (writes : Faults) : Sink Mounted :=
  ⟨⟨s.fs, sink.bytes, inspects, opens, writes⟩, sink.unterminated, sink.lastSize⟩

/-- The call as `AuditLog::append` makes it, in its order; `none` out of order. -/
def step (p : Path) (serialize : AuditLog.Serialize) (s : SharedLog ι)
    (label : ι × LogCall) : Option (SharedLog ι) :=
  match s.processes label.1, label.2 with
  | none, .openLog opens =>
      match LogFile.openAt p s.fs opens with
      | (some (log, unterminated), fs) =>
          some (s.put label.1 fs ⟨⟨log, unterminated, none⟩, .idle⟩)
      | (none, fs) => some { s with fs }
  | some ⟨sink, .idle⟩, .reattach record inspects opens =>
      match serialize record with
      | none => some s
      | some line =>
          let after := (s.mounted sink inspects opens .none).reattach
          some (s.put label.1 after.bytes.fs
            ⟨⟨after.bytes.log, after.unterminated, after.lastSize⟩, .attached line⟩)
  | some ⟨sink, .attached line⟩, .size answers =>
      let sized := ByteSink.size (s.mounted sink true .none ⟨[answers], none, true⟩).bytes
      some (s.put label.1 sized.2.fs ⟨sink, .sized line sized.1⟩)
  | some ⟨sink, .sized line sizeBefore⟩, .write takes =>
      let appended :=
        ByteSink.append (s.mounted sink true .none ⟨[], takes, true⟩).bytes
          (sink.buffer line)
      some (s.put label.1 appended.2.fs
        (if appended.1 then ⟨{ sink with unterminated := false }, .closing⟩
        else ⟨sink, .failed sizeBefore⟩))
  | some ⟨sink, .failed sizeBefore⟩, .rollBack truncates =>
      let cut := Sink.rollBack
          (s.mounted sink true .none ⟨[], none, truncates⟩).bytes sizeBefore
      some (s.put label.1 cut.2.fs ⟨{ sink with unterminated := !cut.1 }, .closing⟩)
  | some ⟨sink, .closing⟩, .lastSize answers =>
      let sized := ByteSink.size (s.mounted sink true .none ⟨[answers], none, true⟩).bytes
      some (s.put label.1 sized.2.fs ⟨{ sink with lastSize := sized.1 }, .idle⟩)
  | _, _ => none

/-- The bytes of the file at the path. -/
def bytes (p : Path) (s : SharedLog ι) : List UInt8 := s.fs.bytesAt p

/-- Every open handle is on the file at the path. -/
def Attached (p : Path) (s : SharedLog ι) : Prop :=
  ∀ i process, s.processes i = some process →
    process.sink.bytes.path = p ∧ process.sink.bytes.inode = process.sink.bytes.file ∧
      s.fs.names p = some process.sink.bytes.file

/-- The line a call completes: a write that takes its whole buffer. -/
def completes (s : SharedLog ι) (label : ι × LogCall) : Option (List UInt8) :=
  match s.processes label.1, label.2 with
  | some ⟨_, .sized line _⟩, .write none => some line
  | _, _ => none

/-- The length a call cuts the file to: a rollback that truncates. -/
def cutsTo (s : SharedLog ι) (label : ι × LogCall) : Option Nat :=
  match s.processes label.1, label.2 with
  | some ⟨_, .failed sizeBefore⟩, .rollBack true => sizeBefore
  | _, _ => none

/-- What a call does to the file. -/
inductive Effect (p : Path) (s : SharedLog ι) (label : ι × LogCall)
    (after : List UInt8) : Prop
  | same (kept : after = s.bytes p) (incomplete : s.completes label = none)
      (uncut : s.cutsTo label = none)
  | torn (more : List UInt8) (grown : after = s.bytes p ++ more)
      (incomplete : s.completes label = none) (uncut : s.cutsTo label = none)
  | wrote (sink : Sink LogFile) (line : List UInt8) (sizeBefore : Option Nat)
      (process : s.processes label.1 = some ⟨sink, .sized line sizeBefore⟩)
      (call : label.2 = .write none) (grown : after = s.bytes p ++ sink.buffer line)
  | cut (sink : Sink LogFile) (len : Nat)
      (process : s.processes label.1 = some ⟨sink, .failed (some len)⟩)
      (call : label.2 = .rollBack true) (shrunk : after = setLen (s.bytes p) len)

variable {p : Path} {s : SharedLog ι}

omit [DecidableEq ι] in
theorem Effect.of_write {label : ι × LogCall} {after : List UInt8}
    (h : s.Effect p label after) {sink : Sink LogFile} {line : List UInt8}
    {sizeBefore : Option Nat}
    (process : s.processes label.1 = some ⟨sink, .sized line sizeBefore⟩)
    (call : label.2 = .write none) : after = s.bytes p ++ sink.buffer line := by
  have completes : s.completes label = some line := by
    simp only [completes, process, call]
  cases h with
  | same _ incomplete | torn _ _ incomplete => cases completes.symm.trans incomplete
  | wrote _ _ _ process' _ grown =>
      cases process.symm.trans process'
      exact grown
  | cut _ _ process' => cases process.symm.trans process'

omit [DecidableEq ι] in
theorem Effect.of_rollBack {label : ι × LogCall} {after : List UInt8}
    (h : s.Effect p label after) {sink : Sink LogFile} {len : Nat}
    (process : s.processes label.1 = some ⟨sink, .failed (some len)⟩)
    (call : label.2 = .rollBack true) : after = setLen (s.bytes p) len := by
  have cuts : s.cutsTo label = some len := by simp only [cutsTo, process, call]
  cases h with
  | same _ _ uncut | torn _ _ _ uncut => cases cuts.symm.trans uncut
  | wrote _ _ _ process' => cases process.symm.trans process'
  | cut _ _ process' _ shrunk =>
      cases process.symm.trans process'
      exact shrunk

/-- A call on the mounted sink of a process leaves every handle on the file, and the
file with what the sink holds. -/
theorem attached_put (h : s.Attached p) {i : ι} {process : LogProcess}
    (found : s.processes i = some process) {inspects : Bool} {opens : OpenFaults}
    {writes : Faults} {after : Mounted}
    (around : after.surroundings =
      (s.mounted process.sink inspects opens writes).bytes.surroundings)
    {next : LogProcess} (handle : next.sink.bytes = process.sink.bytes) :
    (s.put i after.fs next).Attached p ∧
    (s.put i after.fs next).bytes p = after.contents := by
  have names : after.fs.names = s.fs.names := congrArg Mounted.Surroundings.names around
  have log : after.log = process.sink.bytes := congrArg Mounted.Surroundings.log around
  obtain ⟨path, inode, named⟩ := h i process found
  constructor
  · intro j other there
    by_cases same : j = i
    · subst same
      have isNext : next = other := by simpa [put] using there
      rw [← isNext, handle]
      exact ⟨path, inode, (congrFun names p).trans named⟩
    · have before : s.processes j = some other := by simpa [put, same] using there
      obtain ⟨path', inode', named'⟩ := h j other before
      exact ⟨path', inode', (congrFun names p).trans named'⟩
  · have there : (s.put i after.fs next).fs.names p = some process.sink.bytes.file :=
      (congrFun names p).trans named
    simp only [bytes, Fs.bytesAt, there]
    simp only [put, Mounted.contents, log]

omit [DecidableEq ι] in
theorem contents_mounted {sink : Sink LogFile}
    (named : s.fs.names p = some sink.bytes.file) (inspects : Bool) (opens : OpenFaults)
    (writes : Faults) :
    (s.mounted sink inspects opens writes).bytes.contents = s.bytes p := by
  simp only [bytes, Fs.bytesAt, named]
  rfl

omit [DecidableEq ι] in
/-- While the path names the file, there is nothing to reattach to. -/
theorem reattach_mounted (h : s.Attached p) {i : ι} {process : LogProcess}
    (found : s.processes i = some process) (inspects : Bool) (opens : OpenFaults)
    (writes : Faults) : (s.mounted process.sink inspects opens writes).reattach =
      s.mounted process.sink inspects opens writes := by
  obtain ⟨path, inode, named⟩ := h i process found
  have unchanged :
      ByteSink.reattach (s.mounted process.sink inspects opens writes).bytes =
      (.unchanged, (s.mounted process.sink inspects opens writes).bytes) := by
    cases inspects with
    | true =>
        simp [ByteSink.reattach, Mounted.reattach, Mounted.stillAttached, mounted,
          path, named, inode]
    | false => simp [ByteSink.reattach, Mounted.reattach, Mounted.stillAttached, mounted]
  rw [Sink.reattach, unchanged]

theorem openLog_attached (h : s.Attached p) {i : ι} {opens : OpenFaults}
    {after : SharedLog ι} (closed : s.processes i = none) {serialize : AuditLog.Serialize}
    (taken : s.step p serialize (i, .openLog opens) = some after) :
    after.Attached p ∧ after.bytes p = s.bytes p := by
  have step : s.step p serialize (i, .openLog opens) =
      match LogFile.openAt p s.fs opens with
      | (some (log, unterminated), fs) =>
          some (s.put i fs ⟨⟨log, unterminated, none⟩, .idle⟩)
      | (none, fs) => some { s with fs } := by
    simp only [SharedLog.step, closed]
  rw [step] at taken
  have kept (j : ι) (process : LogProcess) (there : s.processes j = some process) :
      process.sink.bytes.path = p ∧ process.sink.bytes.inode = process.sink.bytes.file ∧
        (s.fs.openCreate p).2.names p = some process.sink.bytes.file := by
    obtain ⟨path, inode, named⟩ := h j process there
    rw [Fs.openCreate_of_named named]
    exact ⟨path, inode, named⟩
  obtain failed | ⟨opened, result, handle⟩ := LogFile.openAt_cases p s.fs opens
  · rw [failed] at taken
    obtain rfl : s = after := Option.some.inj taken
    exact ⟨h, rfl⟩
  · rw [result] at taken
    cases opened with
    | none =>
        obtain rfl : { s with fs := (s.fs.openCreate p).2 } = after :=
          Option.some.inj taken
        exact ⟨kept, Fs.bytesAt_openCreate s.fs p⟩
    | some pair =>
        obtain ⟨log, unterminated⟩ := pair
        obtain rfl := Option.some.inj taken
        refine ⟨fun j process there => ?_, Fs.bytesAt_openCreate s.fs p⟩
        by_cases same : j = i
        · subst same
          have isNew : ⟨⟨log, unterminated, none⟩, .idle⟩ = process := by
            simpa [put] using there
          rw [← isNew, handle log unterminated rfl]
          exact ⟨rfl, rfl, Fs.names_openCreate s.fs p⟩
        · exact kept j process (by simpa [put, same] using there)

/-- Asking for the size changes nothing in the file. -/
theorem effect_size (h : s.Attached p) {i : ι} {process : LogProcess}
    (found : s.processes i = some process) (answers : Bool) {call : LogCall}
    (incomplete : s.completes (i, call) = none) (uncut : s.cutsTo (i, call) = none)
    {next : LogProcess} (handle : next.sink.bytes = process.sink.bytes) :
    let sized :=
      ByteSink.size (s.mounted process.sink true .none ⟨[answers], none, true⟩).bytes
    (s.put i sized.2.fs next).Attached p ∧
      s.Effect p (i, call) ((s.put i sized.2.fs next).bytes p) := by
  intro sized
  have spec := LawfulByteSink.size_spec
    (s.mounted process.sink true .none ⟨[answers], none, true⟩).bytes
  obtain ⟨attached, bytes⟩ := attached_put h found spec.1 handle
  refine ⟨attached, .same ?_ incomplete uncut⟩
  exact bytes.trans (spec.2.1.trans (contents_mounted (h i _ found).2.2 _ _ _))

/-- Looking for the file changes nothing in it. -/
theorem effect_reattach (h : s.Attached p) {i : ι} {sink : Sink LogFile}
    (found : s.processes i = some ⟨sink, .idle⟩) (record : TrailRecord) (inspects : Bool)
    (opens : OpenFaults) (line : List UInt8) :
    let after := (s.mounted sink inspects opens .none).reattach
    let next : LogProcess :=
      ⟨⟨after.bytes.log, after.unterminated, after.lastSize⟩, .attached line⟩
    (s.put i after.bytes.fs next).Attached p ∧
      s.Effect p (i, .reattach record inspects opens)
        ((s.put i after.bytes.fs next).bytes p) := by
  rw [reattach_mounted h found]
  let looked := (s.mounted sink inspects opens .none).bytes
  have around : looked.surroundings = looked.surroundings := rfl
  have handle : (⟨sink, .attached line⟩ : LogProcess).sink.bytes = sink.bytes := rfl
  obtain ⟨attached, bytes⟩ := attached_put h found around handle
  refine ⟨attached, .same (bytes.trans (contents_mounted (h i _ found).2.2 _ _ _)) ?_ ?_⟩
  · simp only [completes, found]
  · simp only [cutsTo, found]

theorem effect_write (h : s.Attached p) {i : ι} {sink : Sink LogFile} {line : List UInt8}
    {sizeBefore : Option Nat}
    (found : s.processes i = some ⟨sink, .sized line sizeBefore⟩) (takes : Option Nat)
    {next : LogProcess} (handle : next.sink.bytes = sink.bytes) :
    let appended :=
      ByteSink.append (s.mounted sink true .none ⟨[], takes, true⟩).bytes
        (sink.buffer line)
    (s.put i appended.2.fs next).Attached p ∧
      s.Effect p (i, .write takes) ((s.put i appended.2.fs next).bytes p) := by
  intro appended
  have spec :=
    LawfulByteSink.append_spec (s.mounted sink true .none ⟨[], takes, true⟩).bytes
      (sink.buffer line)
  obtain ⟨attached, bytes⟩ := attached_put h found spec.1 handle
  have contents := contents_mounted (h i _ found).2.2 true .none ⟨[], takes, true⟩
  refine ⟨attached, ?_⟩
  rw [bytes]
  cases takes with
  | none =>
      apply Effect.wrote sink line sizeBefore found rfl
      rw [← contents]
      exact Mounted.contents_setContents _ _
  | some n =>
      apply Effect.torn ((sink.buffer line).take n)
      · rw [← contents]
        exact Mounted.contents_setContents _ _
      · simp only [completes, found]
      · simp only [cutsTo, found]

theorem effect_rollBack (h : s.Attached p) {i : ι} {sink : Sink LogFile}
    {sizeBefore : Option Nat} (found : s.processes i = some ⟨sink, .failed sizeBefore⟩)
    (truncates : Bool) {next : LogProcess} (handle : next.sink.bytes = sink.bytes) :
    let cut := Sink.rollBack
        (s.mounted sink true .none ⟨[], none, truncates⟩).bytes sizeBefore
    (s.put i cut.2.fs next).Attached p ∧
      s.Effect p (i, .rollBack truncates) ((s.put i cut.2.fs next).bytes p) := by
  intro cut
  have unfinished : s.completes (i, .rollBack truncates) = none := by
    simp only [completes, found]
  have contents := contents_mounted (h i _ found).2.2 true .none ⟨[], none, truncates⟩
  cases sizeBefore with
  | none =>
      have around : cut.2.surroundings =
          (s.mounted sink true .none ⟨[], none, truncates⟩).bytes.surroundings := rfl
      obtain ⟨attached, bytes⟩ := attached_put h found around handle
      refine ⟨attached, .same (bytes.trans contents) unfinished ?_⟩
      cases truncates <;> simp only [cutsTo, found]
  | some len =>
      have spec := LawfulByteSink.truncate_spec
        (s.mounted sink true .none ⟨[], none, truncates⟩).bytes len
      obtain ⟨attached, bytes⟩ := attached_put h found spec.1 handle
      refine ⟨attached, ?_⟩
      rw [show (s.put i cut.2.fs next).bytes p = _ from bytes]
      cases truncates with
      | true =>
          apply Effect.cut sink len found rfl
          rw [← contents]
          exact Mounted.contents_setContents _ _
      | false => exact .same contents unfinished (by simp only [cutsTo, found])

/-- What one call does, to the handles and to the file. -/
theorem step_effect (h : s.Attached p) {serialize : AuditLog.Serialize}
    {label : ι × LogCall} {after : SharedLog ι}
    (taken : s.step p serialize label = some after) :
    after.Attached p ∧ s.Effect p label (after.bytes p) := by
  obtain ⟨i, call⟩ := label
  cases found : s.processes i with
  | none =>
      cases call with
      | openLog opens =>
          obtain ⟨attached, same⟩ := openLog_attached h found taken
          exact ⟨attached,
            .same same (by simp only [completes, found]) (by simp only [cutsTo, found])⟩
      | _ => simp [SharedLog.step, found] at taken
  | some process =>
      obtain ⟨sink, phase⟩ := process
      cases phase with
      | idle =>
          cases call with
          | reattach record inspects opens =>
              simp only [SharedLog.step, found] at taken
              cases serialized : serialize record with
              | none =>
                  rw [serialized] at taken
                  obtain rfl := Option.some.inj taken
                  exact ⟨h, .same rfl (by simp only [completes, found])
                    (by simp only [cutsTo, found])⟩
              | some line =>
                  rw [serialized] at taken
                  obtain rfl := Option.some.inj taken
                  exact effect_reattach h found record inspects opens line
          | _ => simp [SharedLog.step, found] at taken
      | attached line =>
          cases call with
          | size answers =>
              simp only [SharedLog.step, found] at taken
              obtain rfl := Option.some.inj taken
              exact effect_size h found answers (by simp only [completes, found])
                (by simp only [cutsTo, found]) rfl
          | _ => simp [SharedLog.step, found] at taken
      | sized line sizeBefore =>
          cases call with
          | write takes =>
              simp only [SharedLog.step, found] at taken
              obtain rfl := Option.some.inj taken
              exact effect_write h found takes (by split <;> rfl)
          | _ => simp [SharedLog.step, found] at taken
      | failed sizeBefore =>
          cases call with
          | rollBack truncates =>
              simp only [SharedLog.step, found] at taken
              obtain rfl := Option.some.inj taken
              exact effect_rollBack h found truncates rfl
          | _ => simp [SharedLog.step, found] at taken
      | closing =>
          cases call with
          | lastSize answers =>
              simp only [SharedLog.step, found] at taken
              obtain rfl := Option.some.inj taken
              exact effect_size h found answers (by simp only [completes, found])
                (by simp only [cutsTo, found]) rfl
          | _ => simp [SharedLog.step, found] at taken

/-! ## An append no other call interrupts -/

section Uninterrupted
open Transition
variable {serialize : AuditLog.Serialize} {i : ι} {line : List UInt8}

/-- The process with the sink, on the file system the sink is mounted on. -/
def hold (s : SharedLog ι) (i : ι) (sink : Sink Mounted) (phase : AppendPhase) :
    SharedLog ι :=
  s.put i sink.bytes.fs ⟨⟨sink.bytes.log, sink.unterminated, sink.lastSize⟩, phase⟩

/-- The calls of one append, which rolls back where its write fails. -/
def callsOf (record : TrailRecord) (inspects : Bool) (opens : OpenFaults)
    (writes : Faults) : List LogCall :=
  [.reattach record inspects opens, .size writes.answersSize, .write writes.takes] ++
    (if writes.takes.isSome then [.rollBack writes.truncates] else []) ++
      [.lastSize writes.sized.answersSize]

@[simp] theorem processes_hold (s : SharedLog ι) (i : ι) (sink : Sink Mounted)
  (phase : AppendPhase) :
    (s.hold i sink phase).processes i =
      some ⟨⟨sink.bytes.log, sink.unterminated, sink.lastSize⟩, phase⟩ := by
  simp [hold, put]

@[simp] theorem put_hold (s : SharedLog ι) (i : ι) (sink : Sink Mounted)
  (phase : AppendPhase)
    (fs : Fs) (process : LogProcess) :
      (s.hold i sink phase).put i fs process = s.put i fs process := by
  simp [hold, put]

/-- Looking at the file and opening it again does not depend on how writes will fail. -/
theorem reattach_writes (sink : Sink Mounted) (writes : Faults) :
    ({ sink with bytes := { sink.bytes with writes } } : Sink Mounted).reattach =
      { sink.reattach with bytes := { sink.reattach.bytes with writes } } := by
  have sameLook : ({ sink.bytes with writes } : Mounted).stillAttached =
      sink.bytes.stillAttached := rfl
  have reopened : ({ sink.bytes with writes } : Mounted).reopen =
      (sink.bytes.reopen.1, { sink.bytes.reopen.2 with writes }) := by
    simp only [Mounted.reopen]
    split <;> rfl
  have reattached : ByteSink.reattach ({ sink.bytes with writes } : Mounted) =
      ((ByteSink.reattach sink.bytes).1,
        { (ByteSink.reattach sink.bytes).2 with writes }) := by
    simp only [ByteSink.reattach, Mounted.reattach, sameLook, reopened]
    split <;> rfl
  simp only [Sink.reattach, reattached]
  obtain ⟨result, bytes⟩ := ByteSink.reattach sink.bytes
  cases result <;> rfl

theorem step_reattach {sink : Sink LogFile} (found : s.processes i = some ⟨sink, .idle⟩)
    {record : TrailRecord} (serialized : serialize record = some line) (inspects : Bool)
    (opens : OpenFaults) (writes : Faults) :
    s.step p serialize (i, .reattach record inspects opens) =
      some (s.hold i (s.mounted sink inspects opens writes).reattach
        (.attached line)) := by
  have reattached : (s.mounted sink inspects opens writes).reattach = _ :=
    reattach_writes (s.mounted sink inspects opens .none) writes
  simp only [step, found, serialized, hold, reattached]

theorem step_size
    (sink : Sink Mounted) : (s.hold i sink (.attached line)).step p serialize
    (i, .size sink.bytes.writes.answersSize) =
      let (sizeBefore, bytes) := ByteSink.size sink.bytes
      some (s.hold i { sink with bytes } (.sized line sizeBefore)) := by
  simp only [step, processes_hold, put_hold]
  rfl

theorem step_write (sink : Sink Mounted) (sizeBefore : Option Nat) :
    (s.hold i sink (.sized line sizeBefore)).step p serialize
      (i, .write sink.bytes.writes.takes) =
      let (written, bytes) := ByteSink.append sink.bytes (sink.buffer line)
      some (if written then s.hold i { sink with bytes, unterminated := false } .closing
        else s.hold i { sink with bytes } (.failed sizeBefore)) := by
  simp only [step, processes_hold, put_hold]
  cases takes : sink.bytes.writes.takes with
  | none =>
      simp only [ByteSink.append, takes]
      rfl
  | some n =>
      simp only [ByteSink.append, takes]
      rfl

theorem step_rollBack (sink : Sink Mounted) (sizeBefore : Option Nat) :
    (s.hold i sink (.failed sizeBefore)).step p serialize
      (i, .rollBack sink.bytes.writes.truncates) =
      let (whole, bytes) := Sink.rollBack sink.bytes sizeBefore
      some (s.hold i { sink with bytes, unterminated := !whole } .closing) := by
  simp only [step, processes_hold, put_hold]
  cases sizeBefore with
  | none => rfl
  | some len =>
      cases truncates : sink.bytes.writes.truncates <;>
        simp only [Sink.rollBack, ByteSink.truncate, truncates] <;> rfl

theorem step_lastSize (sink : Sink Mounted) : (s.hold i sink .closing).step p serialize
    (i, .lastSize sink.bytes.writes.answersSize) =
      let (lastSize, bytes) := ByteSink.size sink.bytes
      some (s.hold i { sink with bytes, lastSize } .idle) := by
  simp only [step, processes_hold, put_hold]
  rfl

/-- The sink after the write of an append, and the rollback where it failed. -/
def wrote (sink : Sink Mounted) (line : List UInt8) (sizeBefore : Option Nat) : Sink Mounted :=
  let (written, bytes) := ByteSink.append sink.bytes (sink.buffer line)
  let (whole, bytes) := if written then (true, bytes) else Sink.rollBack bytes sizeBefore
  { sink with bytes, unterminated := !whole }

theorem write_eq (sink : Sink Mounted) (line : List UInt8) : (sink.write line).2 =
    let (sizeBefore, bytes) := ByteSink.size sink.bytes
    let after := wrote { sink with bytes } line sizeBefore
    { after with
      bytes := (ByteSink.size after.bytes).2
      lastSize := (ByteSink.size after.bytes).1 } :=
  rfl

theorem writes_wrote (sink : Sink Mounted) (line : List UInt8) (sizeBefore : Option Nat) :
    (wrote sink line sizeBefore).bytes.writes = sink.bytes.writes := by
  cases takes : sink.bytes.writes.takes with
  | none => simp [wrote, ByteSink.append, takes, Mounted.setContents]
  | some n =>
      cases sizeBefore with
      | none => simp [wrote, ByteSink.append, takes, Mounted.setContents, Sink.rollBack]
      | some len =>
          cases truncates : sink.bytes.writes.truncates <;>
            simp [wrote, ByteSink.append, takes, Mounted.setContents, Sink.rollBack,
              ByteSink.truncate, truncates]

theorem run_one {t : SharedLog ι} {label : ι × LogCall}
    (taken : s.step p serialize label = some t) :
    Run (step p serialize) Always s [label] t :=
  .snoc .nil trivial taken

theorem run_write (sink : Sink Mounted) (sizeBefore : Option Nat) :
    Run (step p serialize) Always (s.hold i sink (.sized line sizeBefore))
      ((i, .write sink.bytes.writes.takes) ::
        if sink.bytes.writes.takes.isSome
          then [(i, .rollBack sink.bytes.writes.truncates)] else [])
      (s.hold i (wrote sink line sizeBefore) .closing) := by
  have first := run_one (@step_write ι _ p s serialize i line sink sizeBefore)
  cases takes : sink.bytes.writes.takes with
  | none =>
      simp only [wrote, ByteSink.append, takes, if_true] at first ⊢
      exact first
  | some n =>
      simp only [wrote, ByteSink.append, takes] at first ⊢
      let torn := sink.bytes.setContents
          (sink.bytes.contents ++ (sink.buffer line).take n)
      exact first.append (run_one (step_rollBack { sink with bytes := torn } sizeBefore))

/-- The calls a process makes for one append come to `AuditLog::append`, where no other
process calls between them. -/
theorem run_of_uninterrupted_append {sink : Sink LogFile}
    (found : s.processes i = some ⟨sink, .idle⟩) {record : TrailRecord}
    (serialized : serialize record = some line) (inspects : Bool) (opens : OpenFaults)
    (writes : Faults) :
    Run (step p serialize) Always s ((callsOf record inspects opens writes).map (i, ·))
      (s.hold i ((s.mounted sink inspects opens writes).append (some line)).2 .idle) := by
  have looked := run_one (step_reattach (p := p) found serialized inspects opens writes)
  have faults : (s.mounted sink inspects opens writes).reattach.bytes.writes = writes :=
    congrArg (·.bytes.writes)
      (reattach_writes (s.mounted sink inspects opens writes) writes)
  rw [Sink.append]
  generalize (s.mounted sink inspects opens writes).reattach = mounted at looked faults ⊢
  subst faults
  let sized : Sink Mounted := { mounted with bytes := (ByteSink.size mounted.bytes).2 }
  let after := wrote sized line (ByteSink.size mounted.bytes).1
  have asked := looked.append (run_one (step_size mounted))
  have written := asked.append (run_write sized (ByteSink.size mounted.bytes).1)
  have closed := written.append (run_one (step_lastSize after))
  have left : after.bytes.writes = mounted.bytes.writes.sized := writes_wrote _ _ _
  have calls : (callsOf record inspects opens mounted.bytes.writes).map (i, ·) =
      [(i, .reattach record inspects opens)] ++ [(i, .size mounted.bytes.writes.answersSize)] ++
        ((i, .write mounted.bytes.writes.takes) ::
          if mounted.bytes.writes.takes.isSome then [(i, .rollBack mounted.bytes.writes.truncates)]
          else []) ++ [(i, .lastSize after.bytes.writes.answersSize)] := by
    rw [left]
    cases takes : mounted.bytes.writes.takes <;> simp [callsOf, takes]
  rw [calls, write_eq]
  exact closed

end Uninterrupted

end SharedLog

/-! ## Runs -/

/-- The shared file, the lines whose physical write completed, in that order, and where
the last of them ends. -/
structure SharedTrail (ι : Type) where
  shared : SharedLog ι
  completed : List (List UInt8)
  lastEnd : Nat

namespace SharedTrail
variable {ι : Type} [DecidableEq ι]

def start (fs : Fs) : SharedTrail ι := ⟨⟨fs, fun _ => none⟩, [], 0⟩

def bytes (p : Path) (s : SharedTrail ι) : List UInt8 := s.shared.bytes p

def step (p : Path) (serialize : AuditLog.Serialize) (s : SharedTrail ι)
    (label : ι × LogCall) : Option (SharedTrail ι) :=
  (s.shared.step p serialize label).map fun after =>
    match s.shared.completes label with
    | none => { s with shared := after }
    | some line => ⟨after, s.completed ++ [line], (after.bytes p).length⟩

/-- The call completes a record behind a broken line that its process does not know of,
or cuts the file back to before the end of a completed record. -/
def damages (p : Path) (s : SharedTrail ι) (label : ι × LogCall) : Bool :=
  match s.shared.processes label.1, label.2 with
  | some ⟨sink, .sized _ _⟩, .write none =>
      decide (EndsMidLine (s.bytes p)) && !sink.unterminated
  | some ⟨_, .failed (some len)⟩, .rollBack true => decide (len < s.lastEnd)
  | _, _ => false

def Spares (p : Path) (s : SharedTrail ι) (label : ι × LogCall) : Prop :=
  s.damages p label = false

instance (p : Path) (s : SharedTrail ι) (label : ι × LogCall) :
    Decidable (s.Spares p label) :=
  inferInstanceAs (Decidable (s.damages p label = false))

/-- The completed lines stand in the file, up to the end of the last one. -/
structure Intact (p : Path) (s : SharedTrail ι) : Prop where
  attached : s.shared.Attached p
  within : s.lastEnd ≤ (s.bytes p).length
  stands : StandIn ((s.bytes p).take s.lastEnd) s.completed

variable {p : Path} {serialize : AuditLog.Serialize} {s t : SharedTrail ι}
  {label : ι × LogCall}

omit [DecidableEq ι] in
theorem Intact.stand (h : s.Intact p) : StandIn (s.bytes p) s.completed := by
  have whole := h.stands.append ((s.bytes p).drop s.lastEnd)
  rwa [List.take_append_drop] at whole

omit [DecidableEq ι] in
theorem intact_start (fs : Fs) : (start fs : SharedTrail ι).Intact p where
  attached i process found := by cases found
  within := Nat.zero_le _
  stands := .nil _

omit [DecidableEq ι] in
/-- Bytes added at the end leave the lines where they are. -/
theorem Intact.grown (h : s.Intact p) {after : SharedLog ι} (attached : after.Attached p)
    {more : List UInt8} (bytes : after.bytes p = s.bytes p ++ more) :
    ({ s with shared := after } : SharedTrail ι).Intact p where
  attached := attached
  within := by
    have longer : (s.bytes p).length ≤ (after.bytes p).length := by
      rw [bytes, List.length_append]
      exact Nat.le_add_right _ _
    exact Nat.le_trans h.within longer
  stands := by
    have same : (after.bytes p).take s.lastEnd = (s.bytes p).take s.lastEnd := by
      rw [bytes, List.take_append_of_le_length h.within]
    exact same.symm ▸ h.stands

/-- A call that does no damage keeps every completed record, byte for byte. -/
theorem intact_step (h : s.Intact p) (spared : s.Spares p label)
    (taken : s.step p serialize label = some t) :
    t.Intact p ∧ s.lastEnd ≤ t.lastEnd ∧
      (t.bytes p).take s.lastEnd = (s.bytes p).take s.lastEnd := by
  obtain ⟨after, moved, rfl⟩ := Option.map_eq_some_iff.mp taken
  obtain ⟨attached, effect⟩ := SharedLog.step_effect h.attached moved
  cases effect with
  | same kept incomplete uncut =>
      have grown : after.bytes p = s.bytes p ++ [] := kept.trans (List.append_nil _).symm
      rw [incomplete]
      exact ⟨h.grown attached grown, Nat.le_refl _, congrArg (List.take _) kept⟩
  | torn more grown incomplete uncut =>
      rw [incomplete]
      refine ⟨h.grown attached grown, Nat.le_refl _, ?_⟩
      exact (congrArg (List.take _) grown).trans (List.take_append_of_le_length h.within)
  | wrote sink line sizeBefore process call grown =>
      have completes : s.shared.completes label = some line := by
        simp only [SharedLog.completes, process, call]
      have marked : EndsMidLine (s.bytes p) → sink.unterminated = true := by
        intro broken
        simpa [Spares, damages, process, call, broken] using spared
      have stands := Sink.standIn_buffer h.stand marked line
      rw [completes]
      refine ⟨⟨attached, Nat.le_refl _, ?_⟩, ?_, ?_⟩
      · simp only [bytes, List.take_length]
        rw [grown]
        exact stands
      · simp only [grown, List.length_append]
        exact Nat.le_trans h.within (Nat.le_add_right _ _)
      · exact (congrArg (List.take _) grown).trans
          (List.take_append_of_le_length h.within)
  | cut sink len process call shrunk =>
      have incomplete : s.shared.completes label = none := by
        simp only [SharedLog.completes, process, call]
      have kept : s.lastEnd ≤ len := by
        simpa [Spares, damages, process, call] using spared
      have same : (after.bytes p).take s.lastEnd = (s.bytes p).take s.lastEnd :=
        (congrArg (List.take _) shrunk).trans (take_setLen h.within kept)
      rw [incomplete]
      refine ⟨⟨attached, ?_, same.symm ▸ h.stands⟩, Nat.le_refl _, same⟩
      have longEnough : s.lastEnd ≤ (setLen (s.shared.bytes p) len).length :=
        le_length_setLen kept
      rw [← shrunk] at longEnough
      exact longEnough

/-- A call that does damage changes a completed record, or completes one behind a broken
line. -/
theorem damage_shows (h : s.Intact p) (damage : s.damages p label = true)
    (taken : s.step p serialize label = some t) :
    (t.bytes p).take s.lastEnd ≠ (s.bytes p).take s.lastEnd ∨
      ∃ line, t.completed = s.completed ++ [line] ∧ EndsMidLine (s.bytes p) ∧
        t.bytes p = s.bytes p ++ (line ++ [newline]) := by
  obtain ⟨after, moved, rfl⟩ := Option.map_eq_some_iff.mp taken
  obtain ⟨-, effect⟩ := SharedLog.step_effect h.attached moved
  rw [damages] at damage
  split at damage
  · next sink line sizeBefore process call =>
    right
    simp only [Bool.and_eq_true, decide_eq_true_eq, Bool.not_eq_true'] at damage
    obtain ⟨broken, unmarked⟩ := damage
    have completes : s.shared.completes label = some line := by
      simp only [SharedLog.completes, process, call]
    have grown := effect.of_write process call
    simp only [Sink.buffer, unmarked] at grown
    rw [completes]
    exact ⟨line, rfl, broken, grown⟩
  · next sink len process call =>
    left
    have short : len < s.lastEnd := of_decide_eq_true damage
    have incomplete : s.shared.completes label = none := by
      simp only [SharedLog.completes, process, call]
    have shrunk := effect.of_rollBack process call
    rw [incomplete]
    intro same
    have within : s.lastEnd ≤ (s.shared.bytes p).length := h.within
    have lengths := congrArg List.length same
    simp only [bytes, shrunk, setLen, List.length_take, List.length_append,
      List.length_replicate] at lengths
    omega
  · cases damage

end SharedTrail

open Transition in
/-- In a run none of whose calls does damage, each record whose write completed stands on
a line of its own, and whatever the processes do next, its bytes stay as they are. -/
theorem shared_records_stand {ι : Type} [DecidableEq ι] (p : Path)
    (serialize : AuditLog.Serialize) (fs : Fs) (labels : List (ι × LogCall))
    (s : SharedTrail ι) (run : Run (SharedTrail.step p serialize) (SharedTrail.Spares p)
      (.start fs) labels s) :
    StandIn (s.bytes p) s.completed ∧
      ∀ later t, Run (SharedTrail.step p serialize) (SharedTrail.Spares p) s later t →
        (t.bytes p).take s.lastEnd = (s.bytes p).take s.lastEnd := by
  have intact : s.Intact p := by
    apply run.invariant (I := fun s => s.Intact p)
    · exact fun s label t intact spared taken =>
        (SharedTrail.intact_step intact spared taken).1
    · exact SharedTrail.intact_start fs
  refine ⟨intact.stand, fun later t further => ?_⟩
  have kept : t.Intact p ∧ s.lastEnd ≤ t.lastEnd ∧
      (t.bytes p).take s.lastEnd = (s.bytes p).take s.lastEnd := by
    apply further.invariant (I := fun t => t.Intact p ∧ s.lastEnd ≤ t.lastEnd ∧
      (t.bytes p).take s.lastEnd = (s.bytes p).take s.lastEnd)
    · rintro u label v ⟨intact, order, same⟩ spared taken
      obtain ⟨intact', order', same'⟩ := SharedTrail.intact_step intact spared taken
      refine ⟨intact', Nat.le_trans order order', ?_⟩
      have shorter := congrArg (List.take s.lastEnd) same'
      rw [List.take_take, List.take_take, Nat.min_eq_left order] at shorter
      exact shorter.trans same
    · exact ⟨intact, Nat.le_refl _, rfl⟩
  exact kept.2.2

/-! ## The daemon and a check -/

inductive Writer
  | serve
  | check
  deriving DecidableEq, Repr

def trailPath : Path := ⟨true, [.normal (Utf8.encode "decisions.jsonl")]⟩

def trailFs : Fs where
  names q := if q = trailPath then some 0 else none
  data _ := []
  next := 1

/-- The calls of an append, with what happens between the size query and the rest of
it. -/
def appendCalls (w : Writer) (between rest : List (Writer × LogCall)) :
    List (Writer × LogCall) :=
  (w, .reattach refusalRecord true .none) :: (w, .size true) :: (between ++ rest)

def completedAppend (w : Writer) : List (Writer × LogCall) :=
  appendCalls w [] [(w, .write none), (w, .lastSize true)]

def bothOpen : List (Writer × LogCall) :=
  [(.serve, .openLog .none), (.check, .openLog .none)]

/-- The daemon asks for the size, the check appends a record, the daemon's write is cut
after five bytes and rolled back. -/
def overtakenRollback : List (Writer × LogCall) :=
  bothOpen ++ appendCalls .serve (completedAppend .check)
    [(.serve, .write (some 5)), (.serve, .rollBack true), (.serve, .lastSize true)]

open Transition in
/-- The rollback removes the record of the check. -/
theorem rollback_removes_record :
    ∃ s, Run (SharedTrail.step trailPath AuditLog.toJsonLine) Always (.start trailFs)
      overtakenRollback s ∧ s.bytes trailPath = [] ∧
        s.completed = [Utf8.encode refusalRecord.toJson] ∧
        ¬ StandIn (s.bytes trailPath) s.completed := by
  have ends : (overtakenRollback.foldlM
      (guarded (SharedTrail.step trailPath AuditLog.toJsonLine) Always)
        (.start trailFs)).map (fun s => (s.bytes trailPath, s.completed)) =
          some ([], [Utf8.encode refusalRecord.toJson]) := by
    decide +kernel
  obtain ⟨s, executed, result⟩ := Option.map_eq_some_iff.mp ends
  obtain ⟨empty, completed⟩ := Prod.mk.inj result
  refine ⟨s, Run.of_foldlM executed, empty, completed, ?_⟩
  rw [empty, completed]
  intro stands
  obtain first | twice := standIn_singleton stands
  · exact absurd first.length_le (by simp)
  · exact absurd twice (by simp)

/-- A rollback before the check appends, and an append of either process. -/
def alternating : List (Writer × LogCall) :=
  bothOpen ++ appendCalls .serve []
      [(.serve, .write (some 5)), (.serve, .rollBack true), (.serve, .lastSize true)] ++
    completedAppend .check ++ completedAppend .serve

open Transition in
theorem alternating_records_stand :
    ∃ s, Run (SharedTrail.step trailPath AuditLog.toJsonLine)
      (SharedTrail.Spares trailPath)
      (.start trailFs) alternating s ∧ s.completed.length = 2 ∧
        StandIn (s.bytes trailPath) s.completed := by
  have ends : (alternating.foldlM
      (guarded (SharedTrail.step trailPath AuditLog.toJsonLine) (SharedTrail.Spares
        trailPath)) (.start trailFs)).map (fun s => s.completed.length) =
        some 2 := by
    decide +kernel
  obtain ⟨s, executed, two⟩ := Option.map_eq_some_iff.mp ends
  have run : Run (SharedTrail.step trailPath AuditLog.toJsonLine)
      (SharedTrail.Spares trailPath)
      (.start trailFs) alternating s := Run.of_foldlM executed
  exact ⟨s, run, two,
    (shared_records_stand trailPath AuditLog.toJsonLine trailFs alternating s run).1⟩

end NonoCedarPdp
