import NonoCedarPdp.Lib.UnixDescriptors
import NonoCedarPdp.StartupCheck

/-!
The audit log against other local users, from the check (`isolation.rs`) through the open
(`LogFile::open` and `tighten_permissions` in `audit.rs`) to every write of the daemon's.
Others may have opened a log that was not tight yet, and keep it open.
-/
namespace NonoCedarPdp
open UnixFs Transition

/-- The host with the files that its users have open. -/
abbrev HostMachine (I : Type) := Machine I OsString (List UInt8)

/-- What happens around the log once it is open: somebody acts, or the daemon writes to
its handle (`append` and `truncate` of `LogFile`). -/
inductive LogTurn (I : Type)
  | act (a : Syscall I OsString (List UInt8))
  | append (buf : List UInt8)
  | truncate (len : Nat)

/-- `write_all` and `set_len` on the handle. -/
def LogTurn.onBytes {I : Type} : LogTurn I → List UInt8 → List UInt8
  | .act _, bytes => bytes
  | .append buf, bytes => bytes ++ buf
  | .truncate len, bytes => bytes.take len ++ List.replicate (len - bytes.length) 0

section Log
variable {I : Type} [DecidableEq I]

/-- `tighten_permissions`: only the owner of a file narrows its mode. -/
def tightenPermissions (fs : HostFs I) (euid : UInt32) (i : I) : HostFs I :=
  match fs.inode i with
  | none => fs
  | some n =>
      -- Anything beyond owner read/write: group, other, or the execute bit.
      if n.mode &&& 0o7777 &&& 0o177 = 0 then fs
      else (act fs ⟨euid, .chmod i 0o600⟩).getD fs

def mapContent (f : List UInt8 → List UInt8) (n : Inode I OsString (List UInt8)) :
    Inode I OsString (List UInt8) :=
  match n.content with
  | some bytes => { n with node := .file (f bytes) }
  | none => n

/-- `LogFile::open` on a file that is there. Only its tightening changes anything: the
handle of the open before it is on the same file. -/
def openLog (m : HostMachine I) (euid : UInt32) (i : I) : HostMachine I :=
  { m with fs := tightenPermissions m.fs euid i }

def logTurn (i : I) (m : HostMachine I) : LogTurn I → Option (HostMachine I)
  | .act a => m.call a
  | turn => some { m with fs := m.fs.modify i (mapContent turn.onBytes) }

/-- The users who act are other local users. -/
def ByOthers (euid : UInt32) (_ : HostMachine I) : LogTurn I → Prop
  | .act a => Foreign euid a.user
  | _ => True

/-- What the turns make of what the log held when it was opened. -/
def written (opened : List UInt8) (turns : List (LogTurn I)) : List UInt8 :=
  turns.foldl (fun bytes turn => turn.onBytes bytes) opened

variable {fs : HostFs I} {m m' : HostMachine I} {cwd place : Place I OsString}
  {euid : UInt32} {i : I} {n : Inode I OsString (List UInt8)} {bytes : List UInt8}

/-! ## The open -/

omit [DecidableEq I] in
/-- What is accepted at a resolved path is anchored there. -/
theorem anchored_of_check {policyDir : Path} {base : Option Path} {warnings : List String}
    (accepted : check (view fs cwd) policyDir (pathOf place) base euid = .ok warnings)
    (chain : Chain fs place) (held : fs.inode (fs.here place) = some n) :
    Anchored (Foreign euid) fs place n := by
  obtain ⟨-, walked, owned, -⟩ := check_eq_ok_iff.mp accepted
  have stays (base : Option Path) :
      absolutize (view fs cwd) (pathOf place) base = pathOf place := by
    rw [absolutize_absolute (view fs cwd) rfl base,
      absolutize_of_locate (locate_pathOf chain)]
  rw [stays] at walked owned
  have metadata : (view fs cwd).metadata (pathOf place) = .ok (inodeMetadata n) :=
    metadata_view_eq_ok_iff.mpr ⟨n, (inodeAt_pathOf_iff chain).mpr held, rfl⟩
  refine ⟨held, ?_, ?_⟩
  · rw [← foreignOwner_eq_none_iff_not_foreign]
    simp only [refuseAForeignOwnedAuditLog, metadata, inodeMetadata] at owned
    split at owned
    · cases owned
    · assumption
  · intro entry rest same
    subst same
    have guarded := (refuseOnUntrustedAncestors_pathOf_iff chain).mp walked
    obtain ⟨-, m, child, -⟩ := chain
    exact ⟨guarded, (Fs.child_eq_some_iff.mp child).1⟩

omit [DecidableEq I] in
theorem file_of_sameKind {n' : Inode I OsString (List UInt8)} (kind : SameKind n n')
    (content : n.content = some bytes) : ∃ later, n'.content = some later := by
  rw [← Option.isSome_iff_exists, kind.2.1, content]
  rfl

/-- Until the open, other users leave the log where it is, and what it holds unless its
mode or an open file lets them write. -/
theorem anchored_meanwhile {calls : List (Syscall I OsString (List UInt8))}
    (anchored : Anchored (Foreign euid) m.fs place n) (content : n.content = some bytes)
    (run : Run Machine.call (Machine.ByUsers (Foreign euid)) m calls m') :
    m'.fs.here place = m.fs.here place ∧ ∃ n' opened,
      Anchored (Foreign euid) m'.fs place n' ∧ n'.owner = n.owner ∧
      n'.content = some opened ∧
      (¬ Loose n.mode → ¬ m.Holds (Foreign euid) .write (m.fs.here place) →
        opened = bytes) ∧
      ∀ access, m'.Holds (Foreign euid) access (m.fs.here place) →
        m.Holds (Foreign euid) access (m.fs.here place) ∨ Grants n.mode access := by
  obtain ⟨root, n', anchored', owner, -, kind, node, held⟩ := anchored.calls run
  obtain ⟨opened, content'⟩ := file_of_sameKind kind content
  refine ⟨here_of_root root place, n', opened, anchored', owner, content', ?_, held⟩
  intro tight unheld
  rw [Inode.content, node tight unheld] at content'
  exact Option.some.inj (content'.symm.trans content)

/-! ## After the open -/

/-- The daemon's own file at the end of a guarded chain, with nothing in its mode for
others. -/
structure Sealed (fs : HostFs I) (euid : UInt32) (place : Place I OsString)
    (bytes : List UInt8) (n : Inode I OsString (List UInt8)) : Prop where
  anchored : Anchored (Foreign euid) fs place n
  owner : n.owner = euid
  mode : n.mode &&& 0o077 = 0
  content : n.content = some bytes

omit [DecidableEq I] in
theorem Sealed.tight (sealing : Sealed fs euid place bytes n) :
    ¬ Exposed n.mode ∧ ¬ Loose n.mode := by
  apply tight_of_looseKeyAccess
  rw [looseKeyAccess_eq_none_iff, UInt32.and_assoc]
  exact sealing.mode

omit [DecidableEq I] in
theorem entries_eq_none_of_content (content : n.content = some bytes) :
    n.entries = none := by
  cases node : n.node <;> simp_all [Inode.content, Inode.entries]

theorem sealed_tighten (anchored : Anchored (Foreign euid) fs place n)
    (owner : n.owner = euid) (content : n.content = some bytes) :
    ∃ n', Sealed (tightenPermissions fs euid (fs.here place)) euid place bytes n' := by
  have plain := entries_eq_none_of_content content
  by_cases tight : n.mode &&& 0o7777 &&& 0o177 = 0
  · refine ⟨n, ?_, owner, ?_, content⟩
    · simpa only [tightenPermissions, anchored.held, if_pos tight] using anchored
    · have part : (0o7777 : UInt32) &&& 0o177 &&& 0o077 = 0o077 := by decide
      rw [← part, ← UInt32.and_assoc, ← UInt32.and_assoc, tight, UInt32.zero_and]
  · have owns : Owns fs euid (fs.here place) := ⟨n, anchored.held, owner⟩
    have taken : act fs ⟨euid, .chmod (fs.here place) 0o600⟩ =
        some (fs.modify (fs.here place) ({ · with mode := 0o600 })) := if_pos owns
    have narrow : (0o600 : UInt32) &&& 0o077 = 0 := by decide
    refine ⟨{ n with mode := 0o600 }, ?_, owner, narrow, content⟩
    simp only [tightenPermissions, anchored.held, if_neg tight, taken, Option.getD_some]
    exact anchored.modify plain plain rfl

theorem here_logTurn {turn : LogTurn I} (taken : logTurn i m turn = some m') :
    m'.fs.here place = m.fs.here place := by
  apply here_of_root
  cases turn with
  | act a => exact Machine.root_call taken
  | append buf | truncate len =>
      cases taken
      rfl

/-- A write to the handle changes what the seal keeps and nothing else. -/
theorem Sealed.rewrite (f : List UInt8 → List UInt8)
    (sealing : Sealed fs euid place bytes n) :
    ∃ n', Sealed (fs.modify (fs.here place) (mapContent f)) euid place (f bytes) n' := by
  have mapped : mapContent f n = { n with node := .file (f bytes) } := by
    rw [mapContent, sealing.content]
  have plain := entries_eq_none_of_content sealing.content
  have after : (mapContent f n).entries = none := by
    rw [mapped]
    rfl
  refine ⟨mapContent f n, sealing.anchored.modify plain after (by rw [mapped]), ?_, ?_, ?_⟩
  · rw [mapped]
    exact sealing.owner
  · rw [mapped]
    exact sealing.mode
  · rw [mapped]
    rfl

omit [DecidableEq I] in
theorem Sealed.grants_none (sealing : Sealed fs euid place bytes n) (access : Access) :
    ¬ Grants n.mode access := by
  cases access with
  | read => exact sealing.tight.1
  | write => exact sealing.tight.2

/-- Others do not open the file any more, and leave what it holds if none has it open for
writing. -/
theorem Sealed.call {a : Syscall I OsString (List UInt8)}
    (by_foreign : Foreign euid a.user) (taken : m.call a = some m')
    (sealing : Sealed m.fs euid place bytes n) :
    (∃ bytes' n', Sealed m'.fs euid place bytes' n' ∧
      (¬ m.Holds (Foreign euid) .write (m.fs.here place) → bytes' = bytes)) ∧
    ∀ access, m'.Holds (Foreign euid) access (m.fs.here place) →
      m.Holds (Foreign euid) access (m.fs.here place) := by
  obtain ⟨n', anchored, owner, mode, kind, node⟩ := sealing.anchored.call by_foreign taken
  obtain ⟨bytes', content⟩ := file_of_sameKind kind sealing.content
  refine ⟨⟨bytes', n', ⟨anchored, owner.trans sealing.owner, mode ▸ sealing.mode,
    content⟩, ?_⟩, ?_⟩
  · intro unheld
    rw [Inode.content, node sealing.tight.2 unheld] at content
    exact Option.some.inj (content.symm.trans sealing.content)
  · intro access holds
    exact (sealing.anchored.holds by_foreign taken holds).resolve_right
      (sealing.grants_none access)

/-- No turn opens the seal, and where no other user has the file open for writing only the
daemon's turns change what it keeps. -/
theorem Sealed.turn {turn : LogTurn I} (meets : ByOthers euid m turn)
    (taken : logTurn (m.fs.here place) m turn = some m')
    (sealing : Sealed m.fs euid place bytes n) :
    (∃ bytes' n', Sealed m'.fs euid place bytes' n' ∧
      (¬ m.Holds (Foreign euid) .write (m.fs.here place) → bytes' = turn.onBytes bytes)) ∧
    ∀ access, m'.Holds (Foreign euid) access (m.fs.here place) →
      m.Holds (Foreign euid) access (m.fs.here place) := by
  cases turn with
  | act a => exact sealing.call meets taken
  | append buf | truncate len =>
      cases taken
      obtain ⟨n', sealing'⟩ := sealing.rewrite _
      exact ⟨⟨_, n', sealing', fun _ => rfl⟩, fun _ holds => holds⟩

theorem Sealed.run {turns : List (LogTurn I)}
    (run : Run (logTurn (m.fs.here place)) (ByOthers euid) m turns m')
    (sealing : Sealed m.fs euid place bytes n) :
    m'.fs.here place = m.fs.here place ∧
      (∃ held n', Sealed m'.fs euid place held n' ∧
        (¬ m.Holds (Foreign euid) .write (m.fs.here place) →
          held = written bytes turns)) ∧
      ∀ access, m'.Holds (Foreign euid) access (m.fs.here place) →
        m.Holds (Foreign euid) access (m.fs.here place) := by
  induction run with
  | nil => exact ⟨rfl, ⟨bytes, n, sealing, fun _ => rfl⟩, fun _ holds => holds⟩
  | @snoc turns t u turn before meets taken ih =>
      obtain ⟨here, ⟨held, n', sealing', wrote⟩, stay⟩ := ih
      have there := (here_logTurn taken).trans here
      rw [← here] at taken
      obtain ⟨⟨held', n'', sealing'', wrote'⟩, stay'⟩ := sealing'.turn meets taken
      rw [here] at wrote' stay'
      refine ⟨there, ⟨held', n'', sealing'', fun unheld => ?_⟩, fun access holds => ?_⟩
      · rw [wrote' fun holds => unheld (stay .write holds), wrote unheld,
          written, written, List.foldl_append, List.foldl_cons, List.foldl_nil]
      · exact stay access (stay' access holds)

theorem root_tightenPermissions : (tightenPermissions fs euid i).root = fs.root := by
  rw [tightenPermissions]
  cases fs.inode i with
  | none => rfl
  | some n =>
      by_cases tight : n.mode &&& 0o7777 &&& 0o177 = 0
      · simp only [if_pos tight]
      · simp only [if_neg tight]
        cases narrowed : act fs ⟨euid, .chmod i 0o600⟩ with
        | none => rfl
        | some t => exact (perform_keeps narrowed).1

theorem exists_foreign (euid : UInt32) : ∃ user, Foreign euid user := by
  by_cases same : euid = 1
  · exact ⟨2, by simp [Foreign, same]⟩
  · exact ⟨1, Ne.symm same, by decide⟩

omit [DecidableEq I] in
/-- The path leads to what is sealed. -/
theorem Sealed.fileAt (sealing : Sealed fs euid place bytes n)
    (here : fs.here place = i) : FileAt fs cwd (pathOf place) i bytes := by
  have plain := Inode.target_eq_none_of_content (Option.isSome_of_eq_some sealing.content)
  exact ⟨place, n, locate_pathOf (sealing.anchored.chain plain), here,
    here ▸ sealing.anchored.held, sealing.content⟩

omit [DecidableEq I] in
/-- Nobody else may open it. -/
theorem Sealed.closed (sealing : Sealed fs euid place bytes n) (here : fs.here place = i)
    {user : UInt32} (foreign : Foreign euid user) (access : Access) :
    ¬ MayOpen fs user access i := fun may =>
  sealing.grants_none access (sealing.anchored.grants foreign (here ▸ may))

/-- From the check to the open: the log is where it was accepted, whoever of the others
has it open could get at it at the check, and the open seals what it then holds. -/
theorem sealed_of_check {policyDir auditLog : Path} {base : Option Path}
    {warnings : List String} {calls : List (Syscall I OsString (List UInt8))}
    (accepted : check (view m.fs cwd) policyDir auditLog base euid = .ok warnings)
    (stands : (view m.fs cwd).canonicalize auditLog = .ok auditLog)
    (file : FileAt m.fs cwd auditLog i bytes) (ours : Owns m.fs 0 i → euid = 0)
    (meanwhile : Run Machine.call (Machine.ByUsers (Foreign euid)) m calls m') :
    ∃ place opened n, auditLog = pathOf place ∧
      FileAt m'.fs cwd auditLog i opened ∧
      (¬ m.Reaches (Foreign euid) .write i → opened = bytes) ∧
      (∀ access, m'.Holds (Foreign euid) access i → m.Reaches (Foreign euid) access i) ∧
      (openLog m' euid i).fs.here place = i ∧
      Sealed (openLog m' euid i).fs euid place opened n := by
  obtain ⟨place, n, found, rfl, held, content⟩ := file
  obtain ⟨there, found', rfl⟩ := canonicalize_view_eq_ok_iff.mp stands
  obtain rfl : place = there := Except.ok.inj (found.symm.trans found')
  have anchored := anchored_of_check accepted (chain_of_locate found) held
  have owner : n.owner = euid := by
    by_contra other
    have roots : n.owner = 0 := by
      by_contra foreign
      exact anchored.owner ⟨other, foreign⟩
    exact other (roots.trans (ours ⟨n, held, roots⟩).symm)
  have granted (access : Access) (grants : Grants n.mode access) :
      m.Reaches (Foreign euid) access (m.fs.here place) := by
    obtain ⟨user, foreign⟩ := exists_foreign euid
    exact .inr ⟨user, foreign, n, held, Option.isSome_of_eq_some content, .inr grants⟩
  obtain ⟨here, n', opened, anchored', owner', content', unchanged, holds⟩ :=
    anchored_meanwhile anchored content meanwhile
  obtain ⟨k, sealing⟩ := sealed_tighten anchored' (owner'.trans owner) content'
  rw [here] at sealing
  refine ⟨place, opened, k, rfl, ?_, ?_, ?_, ?_, sealing⟩
  · have plain := Inode.target_eq_none_of_content (Option.isSome_of_eq_some content')
    exact ⟨place, n', locate_pathOf (anchored'.chain plain), here,
      here ▸ anchored'.held, content'⟩
  · intro apart
    exact unchanged (fun loose => apart (granted .write loose)) fun held =>
      apart (.inl held)
  · exact fun access held => (holds access held).elim .inl (granted access)
  · exact (here_of_root root_tightenPermissions place).trans here

end Log

/-- The small host, on which nobody has a file open. -/
def smallMachine : HostMachine Nat := ⟨smallStateHost, []⟩

/-- Another user opens the log that everybody may read. -/
def smallReader : Syscall Nat OsString (List UInt8) := ⟨1001, .acquire 4 .read⟩

def smallReadMachine : HostMachine Nat := ⟨smallStateHost, [⟨1001, 4, .read⟩]⟩

theorem call_smallReader : smallMachine.call smallReader = some smallReadMachine := by
  have may : MayOpen smallStateHost 1001 .read 4 := by decide +kernel
  show (if MayOpen smallStateHost 1001 .read 4 then some smallReadMachine else none) = _
  exact if_pos may

theorem not_reaches_small : ¬ smallMachine.Reaches (Foreign 1000) .write 4 := by
  rintro (⟨d, mem, -⟩ | ⟨user, foreign, n, held, -, allowed⟩)
  · cases mem
  · cases held
    exact allowed.elim foreign.1.symm (by decide)

theorem not_holds_small : ¬ smallReadMachine.Holds (Foreign 1000) .write 4 := by
  rintro ⟨d, mem, -, -, writes⟩
  obtain rfl := List.mem_singleton.mp mem
  cases writes

theorem check_small_log : ∃ base warnings,
    check (view smallStateHost smallDirPlace) smallDir (pathOf smallLogPlace) base 1000 =
      .ok warnings := by
  obtain ⟨resolved, atRisk, accepted⟩ := startup_small
  obtain ⟨resolves, warnings, checked, -⟩ := startup_eq_ok_iff.mp accepted
  obtain ⟨policyPlace, found, dir, log, -⟩ := resolveStatePaths_view resolves
  obtain rfl := Except.ok.inj (locate_small_dir.symm.trans found)
  rw [resolveExistingPrefix, absolutize_of_locate locate_small_log] at log
  obtain ⟨warned, checkedDirs, -⟩ := checkStatePaths_eq_ok_iff.mp checked
  rw [dir, log] at checkedDirs
  exact ⟨_, warned, checkedDirs⟩

theorem stands_small_log : (view smallStateHost smallDirPlace).canonicalize
    (pathOf smallLogPlace) = .ok (pathOf smallLogPlace) :=
  canonicalize_view_eq_ok_iff.mpr
    ⟨_, locate_pathOf (chain_of_locate locate_small_log), rfl⟩

theorem fileAt_small_log :
    FileAt smallStateHost smallDirPlace (pathOf smallLogPlace) 4 [] :=
  ⟨_, _, locate_pathOf (chain_of_locate locate_small_log), rfl, rfl, rfl⟩

end NonoCedarPdp
