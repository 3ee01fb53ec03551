import NonoCedarPdp.Filesystem
import NonoCedarPdp.Lib.UnixFs

/-!
The file system a Unix kernel keeps, as its system calls show it to the daemon. The
view keeps the promises a view makes: a canonical path is the chain its resolution
ends at.
-/
namespace NonoCedarPdp
open UnixFs

abbrev HostFs (I : Type) := UnixFs.Fs I OsString (List UInt8)

/-- A `.` stands in front of a relative path only, where it leads nowhere else. -/
def Component.step : Component → Option (Step OsString)
  | .curDir => none
  | .parentDir => some .up
  | .normal name => some (.down name)

def Path.steps (p : Path) : List (Step OsString) := p.components.filterMap Component.step

def ioError : Failure → IoError
  | .missing => ⟨.notFound, "No such file or directory (os error 2)"⟩
  | .notDirectory => ⟨.notADirectory, "Not a directory (os error 20)"⟩
  | .loop => ⟨.other, "Too many levels of symbolic links (os error 40)"⟩

def pathOf {I : Type} (place : Place I OsString) : Path :=
  ⟨true, (names place).map .normal⟩

section View
variable {I : Type} (fs : HostFs I) (cwd : Place I OsString)

open Classical in
/-- The place a path leads to, from the root or from the working directory. -/
noncomputable def locate (p : Path) : Except IoError (Place I OsString) :=
  if p = .empty then .error (ioError .missing)
  else if p.absolute then (resolve fs [] p.steps).mapError ioError
  else if Chain fs cwd then (resolve fs cwd p.steps).mapError ioError
  else .error (ioError .missing)

noncomputable def inodeAt (p : Path) : Except IoError (Inode I OsString
    (List UInt8)) := do
  let place ← locate fs cwd p
  match fs.inode (fs.here place) with
  | some n => .ok n
  | none => .error (ioError .missing)

def inodeMetadata (n : Inode I OsString (List UInt8)) : Metadata :=
  ⟨n.owner, n.mode, n.entries.isSome, n.content.isSome⟩

def inodeListing (n : Inode I OsString (List UInt8)) :
    Except IoError (List (Except IoError OsString)) :=
  match n.entries with
  | some entries => .ok (entries.map fun entry => .ok entry.1)
  | none => .error (ioError .notDirectory)

def inodeText (n : Inode I OsString (List UInt8)) : Except IoError String :=
  match n.content with
  | none => .error ⟨.other, "Is a directory (os error 21)"⟩
  | some bytes =>
      match Utf8.decode? bytes with
      | some text => .ok text
      | none => .error ⟨.other, "stream did not contain valid UTF-8"⟩

/-- What stands in a directory under a name is a symbolic link. -/
def LinkEntry (dir : Path) (name : OsString) : Prop :=
  ∃ place i n, locate fs cwd dir = .ok place ∧
    fs.child (fs.here place) name = some (i, n) ∧
    n.target.isSome = true

variable {fs cwd}

theorem steps_pushAll (p : Path) (names : List OsString) :
    (p.pushAll names).steps = p.steps ++ downs names := by
  have plain : (names.map Component.normal).filterMap Component.step = downs names := by
    induction names with
    | nil => rfl
    | cons name names ih => simpa [downs, Component.step] using ih
  rw [Path.steps, Path.pushAll, List.filterMap_append, plain, Path.steps]

theorem pushAll_ne_empty {p : Path} (h : p ≠ .empty) (names : List OsString) :
    p.pushAll names ≠ .empty := by
  intro same
  obtain ⟨absolute, components⟩ := p
  simp only [Path.pushAll, Path.empty, Path.mk.injEq, List.append_eq_nil_iff] at same
  exact h (by rw [same.1, same.2.1, Path.empty])

theorem locate_absolute {p : Path} (h : p.absolute = true) :
    locate fs cwd p = (resolve fs [] p.steps).mapError ioError := by
  have nonempty : p ≠ .empty := by
    rintro rfl
    cases h
  rw [locate, if_neg nonempty, if_pos h]

theorem locate_relative {p : Path} (h : p.absolute = false) (nonempty : p ≠ .empty)
    (chain : Chain fs cwd) :
      locate fs cwd p = (resolve fs cwd p.steps).mapError ioError := by
  rw [locate, if_neg nonempty, h, if_neg Bool.false_ne_true, if_pos chain]

theorem locate_pushAll {p : Path} (h : p ≠ .empty) (names : List OsString) :
    locate fs cwd (p.pushAll names) =
      (locate fs cwd p).bind fun place =>
        (resolve fs place (downs names)).mapError ioError := by
  have absolute : (p.pushAll names).absolute = p.absolute := rfl
  have through (start : Place I OsString) :
      (resolve fs start (p.steps ++ downs names)).mapError ioError =
        ((resolve fs start p.steps).mapError ioError).bind fun place =>
          (resolve fs place (downs names)).mapError ioError := by
    rw [resolve_append]
    cases resolve fs start p.steps <;> rfl
  rw [locate, locate, if_neg (pushAll_ne_empty h names), if_neg h, absolute,
    steps_pushAll]
  split
  · exact through []
  · split
    · exact through cwd
    · rfl

theorem chain_of_locate {p : Path} {place : Place I OsString}
    (h : locate fs cwd p = .ok place) : Chain fs place := by
  have ends (start : Place I OsString) (chain : Chain fs start)
      (found : (resolve fs start p.steps).mapError ioError = .ok place) :
        Chain fs place := by
    cases there : resolve fs start p.steps with
    | error e => rw [there] at found; cases found
    | ok reached =>
        rw [there] at found
        cases found
        exact chain.resolve there
  rw [locate] at h
  split at h
  · cases h
  · split at h
    · exact ends [] trivial h
    · split at h
      · next chain => exact ends cwd chain h
      · cases h

theorem pathOf_ne_empty (place : Place I OsString) : pathOf place ≠ .empty := by
  simp [pathOf, Path.empty]

theorem steps_pathOf (place : Place I OsString) :
    (pathOf place).steps = downs (names place) := by
  have h := steps_pushAll ⟨true, []⟩ (names place)
  simpa [Path.pushAll, Path.steps, pathOf] using h

/-- The path of a chain leads to it. -/
theorem locate_pathOf {place : Place I OsString} (chain : Chain fs place) :
    locate fs cwd (pathOf place) = .ok place := by
  rw [locate_absolute rfl, steps_pathOf, resolve_names chain]
  rfl

theorem locate_canonical {p : Path} {place : Place I OsString}
    (h : locate fs cwd p = .ok place) (names : List OsString) :
    locate fs cwd ((pathOf place).pushAll names) = locate fs cwd (p.pushAll names) := by
  have nonempty : p ≠ .empty := by
    rintro rfl
    simp [locate] at h
  rw [locate_pushAll (pathOf_ne_empty place), locate_pushAll nonempty, h,
    locate_pathOf (chain_of_locate h)]

theorem locate_join {p : Path} (chain : Chain fs cwd) (relative : p.absolute = false)
    (nonempty : p ≠ .empty) (names : List OsString) :
    locate fs cwd (((pathOf cwd).join p).pushAll names) =
      locate fs cwd (p.pushAll names) := by
  have whole : (pathOf cwd).join p =
      ⟨true, (pathOf cwd).components ++ p.components.filter (· ≠ .curDir)⟩ := by
    rw [Path.join, relative, if_neg Bool.false_ne_true, if_neg (pathOf_ne_empty cwd)]
    rfl
  have dots (components : List Component) :
      (components.filter (· ≠ .curDir)).filterMap Component.step =
        components.filterMap Component.step := by
    induction components with
    | nil => rfl
    | cons c components ih =>
        cases c with
        | curDir => exact ih
        | parentDir | normal name => simpa [Component.step] using ih
  have steps : ((pathOf cwd).join p).steps = downs (UnixFs.names cwd) ++ p.steps := by
    rw [whole, Path.steps, List.filterMap_append, dots, ← steps_pathOf]
    rfl
  have same : locate fs cwd ((pathOf cwd).join p) = locate fs cwd p := by
    rw [locate_relative relative nonempty chain, locate_absolute (by rw [whole]), steps,
      resolve_append, resolve_names chain]
    rfl
  have joined : (pathOf cwd).join p ≠ .empty := by simp [whole, Path.empty]
  rw [locate_pushAll joined, locate_pushAll nonempty, same]

variable (fs cwd)

open Classical in
/-- The system calls of a process whose working directory is `cwd`. -/
noncomputable def view : FsView where
  metadata p := (inodeAt fs cwd p).map inodeMetadata
  canonicalize p := (locate fs cwd p).map pathOf
  currentDir := if Chain fs cwd then .ok (pathOf cwd) else .error (ioError .missing)
  readDir p := (inodeAt fs cwd p).bind inodeListing
  readToString p := (inodeAt fs cwd p).bind inodeText
  canonical_resolves := by
    intro p r h names
    cases found : locate fs cwd p with
    | error e => rw [found] at h; cases h
    | ok place =>
        rw [found] at h
        cases h
        simp only [inodeAt, locate_canonical found, and_self]
  relative_resolves := by
    intro here h p relative nonempty names
    split at h
    · next chain =>
      cases h
      simp only [inodeAt, locate_join chain relative nonempty, and_self]
    · cases h
  empty_missing := by
    intro entries h
    simp only [inodeAt, locate, if_true] at h
    cases h

/-! ## What the calls say -/

variable {fs cwd} {place : Place I OsString} {p : Path}

theorem inodeAt_eq_ok_iff {n : Inode I OsString (List UInt8)} :
    inodeAt fs cwd p = .ok n ↔
      ∃ place, locate fs cwd p = .ok place ∧ fs.inode (fs.here place) = some n := by
  rw [inodeAt]
  cases locate fs cwd p with
  | error e => simp [Bind.bind, Except.bind]
  | ok place =>
      cases held : fs.inode (fs.here place) <;> simp [Bind.bind, Except.bind, held]

theorem metadata_view_eq_ok_iff {metadata : Metadata} :
    (view fs cwd).metadata p = .ok metadata ↔
      ∃ n, inodeAt fs cwd p = .ok n ∧ inodeMetadata n = metadata := by
  show (inodeAt fs cwd p).map inodeMetadata = .ok metadata ↔ _
  cases inodeAt fs cwd p <;> simp [Except.map]

theorem canonicalize_view_eq_ok_iff {r : Path} :
    (view fs cwd).canonicalize p = .ok r ↔
      ∃ place, locate fs cwd p = .ok place ∧ pathOf place = r := by
  show (locate fs cwd p).map pathOf = .ok r ↔ _
  cases locate fs cwd p <;> simp [Except.map]

theorem readDir_view_eq_ok_iff {entries : List (Except IoError OsString)} :
    (view fs cwd).readDir p = .ok entries ↔
      ∃ n l, inodeAt fs cwd p = .ok n ∧ n.entries = some l ∧
      l.map (fun entry => .ok entry.1) = entries := by
  show (inodeAt fs cwd p).bind inodeListing = .ok entries ↔ _
  cases inodeAt fs cwd p with
  | error e => simp [Except.bind]
  | ok n => cases dir : n.entries <;> simp [Except.bind, inodeListing, dir]

/-! ## Paths of places -/

theorem parent_pathOf (entry : OsString × I) :
    (pathOf (entry :: place)).parent = some (pathOf place) := by
  simp [pathOf, names, Path.parent]

theorem push_pathOf (name : OsString) (i : I) :
    (pathOf place).push name = pathOf ((name, i) :: place) := by
  simp [pathOf, names, Path.push]

theorem locate_push_canonical (found : locate fs cwd p = .ok place) (name : OsString) :
    locate fs cwd ((pathOf place).push name) = locate fs cwd (p.push name) := by
  simpa [Path.pushAll, Path.push] using locate_canonical found [name]

theorem prefix_pathOf_iff {components : List Component} :
    components <+: (pathOf place).components ↔
      ∃ rest, rest <:+ place ∧ components = (pathOf rest).components := by
  induction place with
  | nil => simp [pathOf, names]
  | cons entry place ih =>
      have whole : (pathOf (entry :: place)).components =
          (pathOf place).components ++ [.normal entry.1] := by simp [pathOf, names]
      rw [whole, List.prefix_concat_iff, ih]
      constructor
      · rintro (rfl | ⟨rest, suffix, rfl⟩)
        · exact ⟨_, List.suffix_refl _, whole.symm⟩
        · exact ⟨rest, suffix.trans (List.suffix_cons _ _), rfl⟩
      · rintro ⟨rest, suffix, rfl⟩
        obtain rfl | shorter := List.suffix_cons_iff.mp suffix
        · exact .inl whole
        · exact .inr ⟨rest, shorter, rfl⟩

end View

end NonoCedarPdp
