import NonoCedarPdp.Audit

/-!
The production sink (`LogFile` in `audit.rs`): an append handle on an inode of a
file system of names and inodes, and the path it was opened at. File modes are
left out.
-/
namespace NonoCedarPdp
open LineFile

structure Fs where
  names : Path → Option Nat
  data : Nat → List UInt8
  next : Nat

namespace Fs

/-- Only allocated inodes have names and bytes. -/
structure Sound (fs : Fs) : Prop where
  named : ∀ {p i}, fs.names p = some i → i < fs.next
  unallocated : ∀ {i}, fs.next ≤ i → fs.data i = []

def setData (fs : Fs) (i : Nat) (bytes : List UInt8) : Fs :=
  { fs with data := Function.update fs.data i bytes }

/-- `open` with `O_CREAT`: the inode the path names, or a fresh one. -/
def openCreate (fs : Fs) (p : Path) : Nat × Fs :=
  match fs.names p with
  | some i => (i, fs)
  | none =>
      (fs.next,
        { names := Function.update fs.names p (some fs.next)
          data := Function.update fs.data fs.next []
          next := fs.next + 1 })

/-- What a reader of the path finds; a missing file reads as an empty one. -/
def bytesAt (fs : Fs) (p : Path) : List UInt8 :=
  match fs.names p with
  | none => []
  | some i => fs.data i

theorem names_openCreate (fs : Fs) (p : Path) :
    (fs.openCreate p).2.names p = some (fs.openCreate p).1 := by
  rw [openCreate]
  cases found : fs.names p <;> simp [found]

theorem openCreate_of_named {fs : Fs} {p : Path} {i : Nat} (named : fs.names p = some i) :
    fs.openCreate p = (i, fs) := by
  simp only [openCreate, named]

@[simp] theorem bytesAt_openCreate (fs : Fs) (p : Path) :
    (fs.openCreate p).2.bytesAt p = fs.bytesAt p := by
  cases found : fs.names p with
  | none => simp [bytesAt, openCreate, found]
  | some i => rw [openCreate_of_named found]

end Fs

/-- The calls of `LogFile::open` that succeed. -/
structure OpenFaults where
  createsDir : Bool
  opensRead : Bool
  opensWrite : Bool
  readsLast : Bool
  readsMetadata : Bool
  deriving DecidableEq, Repr

def OpenFaults.none : OpenFaults := ⟨true, true, true, true, true⟩

structure LogFile where
  path : Path
  file : Nat
  inode : Nat
  deriving DecidableEq, Repr

namespace LogFile

/-- The handle, and whether it can be read from. -/
def openHandle (fs : Fs) (p : Path) (faults : OpenFaults) : Option ((Nat × Fs) × Bool) :=
  if faults.opensRead then some (fs.openCreate p, true)
  else if faults.opensWrite then some (fs.openCreate p, false)
  else none

def endsMidLine (bytes : List UInt8) (readable : Bool) : Option Bool :=
  if bytes = [] then some false
  else if readable then some (decide (EndsMidLine bytes))
  else none

/-- What `LogFile::open` takes the end for; a file that cannot be read counts as ending
whole. -/
def unterminated (bytes : List UInt8) (readable : Bool) : Bool :=
  (endsMidLine bytes readable).getD false

theorem unterminated_of_endsMidLine {bytes : List UInt8} (broken : EndsMidLine bytes)
    (readable : Bool) : unterminated bytes readable = readable := by
  have nonempty : bytes ≠ [] := by
    rintro rfl
    obtain ⟨last, ends, -⟩ := broken
    cases ends
  rw [unterminated, endsMidLine, if_neg nonempty]
  cases readable with
  | true => exact decide_eq_true broken
  | false => rfl

/-- `LogFile::open`: the log and whether the file it found ends mid-record. -/
def openAt (p : Path) (fs : Fs) (faults : OpenFaults) : Option (LogFile × Bool) × Fs :=
  if faults.createsDir = false then (none, fs)
  else
    match openHandle fs p faults with
    | none => (none, fs)
    | some ((file, fs), readable) =>
        let endsMidLine := unterminated (fs.data file) (readable && faults.readsLast)
        if faults.readsMetadata then (some (⟨p, file, file⟩, endsMidLine), fs)
        else (none, fs)

/-- An open fails before it touches the file system, or opens the file at the path,
a fresh one where there is none. -/
theorem openAt_cases (p : Path) (fs : Fs) (faults : OpenFaults) :
    openAt p fs faults = (none, fs) ∨
      ∃ opened, openAt p fs faults = (opened, (fs.openCreate p).2) ∧
        ∀ log unterminated, opened = some (log, unterminated) →
          log = ⟨p, (fs.openCreate p).1, (fs.openCreate p).1⟩ := by
  by_cases dir : faults.createsDir = false
  · exact .inl (by simp only [openAt, if_pos dir])
  · cases handle : openHandle fs p faults with
    | none => exact .inl (by simp only [openAt, if_neg dir, handle])
    | some found =>
        obtain ⟨readable, rfl⟩ : ∃ readable, found = (fs.openCreate p, readable) := by
          rw [openHandle] at handle
          split at handle
          · exact ⟨true, (Option.some.inj handle).symm⟩
          · split at handle
            · exact ⟨false, (Option.some.inj handle).symm⟩
            · cases handle
        simp only [openAt, if_neg dir, handle]
        cases metadata : faults.readsMetadata with
        | false => exact .inr ⟨none, rfl, by simp⟩
        | true =>
            refine .inr ⟨_, rfl, fun log unterminated found => ?_⟩
            exact (Prod.mk.inj (Option.some.inj found)).1.symm

end LogFile

/-- The log file, the file system it is on and what goes wrong in the next append. -/
structure Mounted where
  fs : Fs
  log : LogFile
  inspects : Bool
  opens : OpenFaults
  writes : Faults

namespace Mounted

def stillAttached (s : Mounted) : Except IoErrorKind Bool :=
  if s.inspects then
    match s.fs.names s.log.path with
    | none => .error .notFound
    | some i => .ok (decide (i = s.log.inode))
  else .error .other

def reopen (s : Mounted) : Reattach × Mounted :=
  match LogFile.openAt s.log.path s.fs s.opens with
  | (some (log, endsMidLine), fs) => (.reopened endsMidLine, { s with fs, log })
  | (none, fs) => (.unchanged, { s with fs })

def reattach (s : Mounted) : Reattach × Mounted :=
  match s.stillAttached with
  | .ok true => (.unchanged, s)
  | .ok false => s.reopen
  | .error .notFound => s.reopen
  | .error _ => (.unchanged, s)

def contents (s : Mounted) : List UInt8 := s.fs.data s.log.file

def setContents (s : Mounted) (bytes : List UInt8) : Mounted :=
  { s with fs := s.fs.setData s.log.file bytes }

end Mounted

instance : ByteSink Mounted where
  append s buf :=
    match s.writes.takes with
    | none => (true, s.setContents (s.contents ++ buf))
    | some n => (false, s.setContents (s.contents ++ buf.take n))
  size s :=
    (if s.writes.answersSize then some s.contents.length else none,
      { s with writes := s.writes.sized })
  truncate s len :=
    if s.writes.truncates then (true, s.setContents (setLen s.contents len))
      else (false, s)
  reattach := Mounted.reattach

namespace Mounted

@[simp] theorem contents_setContents (s : Mounted) (bytes : List UInt8) :
    (s.setContents bytes).contents = bytes := by
  simp [setContents, contents, Fs.setData]

/-- The part of the state that writes leave alone: the handle, the names, and the
bytes of every inode but the one written to. -/
structure Surroundings where
  log : LogFile
  names : Path → Option Nat
  next : Nat
  others : Nat → List UInt8

def surroundings (s : Mounted) : Surroundings where
  log := s.log
  names := s.fs.names
  next := s.fs.next
  others := Function.update s.fs.data s.log.file []

@[simp] theorem surroundings_setContents (s : Mounted) (bytes : List UInt8) :
    (s.setContents bytes).surroundings = s.surroundings := by
  simp [surroundings, setContents, Fs.setData]

end Mounted

instance : LawfulByteSink Mounted where
  contents := Mounted.contents
  Rest := Mounted.Surroundings
  rest := Mounted.surroundings
  append_spec s buf := by
    cases takes : s.writes.takes with
    | none =>
        refine ⟨by simp [ByteSink.append, takes], buf.length, ?_, fun _ => Nat.le_refl _⟩
        simp [ByteSink.append, takes]
    | some n =>
        refine ⟨by simp [ByteSink.append, takes], n, ?_, ?_⟩
        · simp [ByteSink.append, takes]
        · simp [ByteSink.append, takes]
  size_spec s := by
    refine ⟨rfl, rfl, fun n found => ?_⟩
    cases answers : s.writes.answersSize with
    | true => simpa [ByteSink.size, answers, eq_comm] using found
    | false => simp [ByteSink.size, answers] at found
  truncate_spec s len := by
    cases truncates : s.writes.truncates <;> simp [ByteSink.truncate, truncates]

/-- `AuditLog::open`. -/
def AuditLog.openAt (p : Path) (fs : Fs) (faults : OpenFaults) :
    Option (AuditLog Mounted) :=
  match LogFile.openAt p fs faults with
  | (some (log, unterminated), fs) =>
      some (.withSink ⟨fs, log, true, .none, .none⟩ unterminated)
  | (none, _) => none

end NonoCedarPdp
