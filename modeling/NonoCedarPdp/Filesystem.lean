import NonoCedarPdp.Lib.RustText
import Mathlib.Data.List.Lex

/-!
Paths by their components, with the methods of `std::path` the daemon calls, and
the file system as one moment shows it. A view carries the facts of path resolution
that the checks lean on: a path and its canonical form name the same tree, a
relative path is resolved from the current directory, and the empty path names
nothing.
-/
namespace NonoCedarPdp
open RustText

abbrev OsString := List UInt8

inductive Component
  | curDir
  | parentDir
  | normal (name : OsString)
  deriving DecidableEq, Repr

structure Path where
  absolute : Bool
  components : List Component
  deriving DecidableEq, Repr

/-- `rsplit_file_at_dot` of the standard library: what is before and after the last
dot. -/
def rsplitFileAtDot (file : OsString) : Option OsString × Option OsString :=
  if file = ['.'.toUInt8, '.'.toUInt8] then (some file, none)
  else if '.'.toUInt8 ∈ file then
    let after := (file.reverse.takeWhile (· ≠ '.'.toUInt8)).reverse
    let before := file.take (file.length - after.length - 1)
    if before = [] then (some file, none) else (some before, some after)
  else (none, some file)

namespace Component

def text : Component → String
  | .curDir => "."
  | .parentDir => ".."
  | .normal name => fromUtf8Lossy name

/-- The order of `std::path::Component`. -/
def le : Component → Component → Bool
  | .curDir, _ => true
  | .parentDir, .curDir => false
  | .parentDir, _ => true
  | .normal a, .normal b => decide (a ≤ b)
  | .normal _, _ => false

end Component

namespace Path

def empty : Path := ⟨false, []⟩

def push (p : Path) (name : OsString) : Path :=
  { p with components := p.components ++ [.normal name] }

def pushAll (p : Path) (names : List OsString) : Path :=
  { p with components := p.components ++ names.map .normal }

def join (p other : Path) : Path :=
  if other.absolute then other
  else if p = empty then other
  else { p with components := p.components ++ other.components.filter (· ≠ .curDir) }

def fileName (p : Path) : Option OsString :=
  match p.components.getLast? with
  | some (.normal name) => some name
  | _ => none

def parent (p : Path) : Option Path :=
  if p.components = [] then none else some { p with components := p.components.dropLast }

def extension (p : Path) : Option OsString :=
  p.fileName.bind fun name =>
    let (before, after) := rsplitFileAtDot name
    before.bind fun _ => after

def fileStem (p : Path) : Option OsString :=
  p.fileName.bind fun name =>
    let (before, after) := rsplitFileAtDot name
    before <|> after

def display (p : Path) : String :=
  (if p.absolute then "/" else "") ++ "/".intercalate (p.components.map Component.text)

def startsWith (p base : Path) : Bool :=
  if base.absolute = p.absolute then base.components.isPrefixOf p.components
  else base = empty

def leComponents : List Component → List Component → Bool
  | [], _ => true
  | _ :: _, [] => false
  | a :: as, b :: bs => if a = b then leComponents as bs else a.le b

/-- The order `Vec<PathBuf>::sort` sorts by: component after component. -/
def le (p q : Path) : Bool :=
  if p.absolute = q.absolute then leComponents p.components q.components
  else if p.absolute then decide (q ≠ empty)
  else decide (p = empty)

@[simp] theorem fileName_push (p : Path) (name : OsString) :
  (p.push name).fileName = some name := by
  simp [push, fileName]

@[simp] theorem absolute_push (p : Path) (name : OsString) :
    (p.push name).absolute = p.absolute := rfl

theorem pushAll_cons (p : Path) (name : OsString) (names : List OsString) :
    p.pushAll (name :: names) = (p.push name).pushAll names := by
  simp [pushAll, push]

/-- A path that has a file name is its parent with the name pushed. -/
theorem eq_push_of_fileName {p q : Path} {name : OsString} (hn : p.fileName = some name)
    (hq : p.parent = some q) : p = q.push name := by
  obtain ⟨absolute, components⟩ := p
  simp only [parent] at hq
  split at hq
  · cases hq
  · next nonempty =>
    cases hq
    have last : components.getLast? = some (.normal name) := by
      simp only [fileName] at hn
      split at hn
      · next found => rw [found, Option.some.inj hn]
      · cases hn
    simp only [push, Path.mk.injEq, true_and]
    exact (List.dropLast_append_getLast? _ last).symm

end Path

inductive IoErrorKind
  | notFound
  | notADirectory
  | other
  deriving DecidableEq, Repr

structure IoError where
  kind : IoErrorKind
  text : String
  deriving DecidableEq, Repr

structure Metadata where
  uid : UInt32
  mode : UInt32
  isDir : Bool
  isFile : Bool
  deriving DecidableEq, Repr

/-- The file system as system calls show it at one moment. -/
structure FsView where
  metadata : Path → Except IoError Metadata
  canonicalize : Path → Except IoError Path
  currentDir : Except IoError Path
  readDir : Path → Except IoError (List (Except IoError OsString))
  readToString : Path → Except IoError String
  canonical_resolves : ∀ {p r : Path}, canonicalize p = .ok r → ∀ names : List OsString,
    metadata (r.pushAll names) = metadata (p.pushAll names) ∧
      readDir (r.pushAll names) = readDir (p.pushAll names)
  relative_resolves : ∀ {cwd : Path}, currentDir = .ok cwd →
    ∀ p : Path, p.absolute = false → p ≠ .empty → ∀ names : List OsString,
      metadata ((cwd.join p).pushAll names) = metadata (p.pushAll names) ∧
        readDir ((cwd.join p).pushAll names) = readDir (p.pushAll names)
  empty_missing : ∀ entries, readDir .empty ≠ .ok entries

def FsView.isFile (fs : FsView) (p : Path) : Bool :=
  match fs.metadata p with
  | .ok metadata => metadata.isFile
  | .error _ => false

/-- The entries of a listing carry the path they were listed under. -/
def FsView.listing (fs : FsView) (dir : Path) :
    Except IoError (List (Except IoError Path)) :=
  (fs.readDir dir).map fun entries => entries.map fun entry => entry.map dir.push

end NonoCedarPdp
