import Mathlib.Data.List.Basic
import Mathlib.Data.Option.Basic

/-!
A Unix file system: inodes with an owner and a mode, directories, regular files and
symbolic links, and the resolution of a path. Resolution follows links without a limit
on their number; a path whose links never end has no place.
-/
namespace UnixFs

inductive Step (Name : Type)
  | up
  | down (name : Name)
  deriving DecidableEq, Repr

structure Target (Name : Type) where
  absolute : Bool
  steps : List (Step Name)
  deriving DecidableEq, Repr

inductive Node (I Name C : Type)
  | directory (entries : List (Name × I))
  | file (content : C)
  | symlink (target : Target Name)
  deriving DecidableEq, Repr

structure Inode (I Name C : Type) where
  owner : UInt32
  mode : UInt32
  node : Node I Name C
  deriving DecidableEq, Repr

structure Fs (I Name C : Type) where
  root : I
  inode : I → Option (Inode I Name C)

/-- Where a resolution stands: the entries taken from the root, the last one first. -/
abbrev Place (I Name : Type) := List (Name × I)

inductive Failure
  | missing
  | notDirectory
  | loop
  deriving DecidableEq, Repr

variable {I Name C : Type}

namespace Inode

def entries (n : Inode I Name C) : Option (List (Name × I)) :=
  match n.node with
  | .directory entries => some entries
  | _ => none

def target (n : Inode I Name C) : Option (Target Name) :=
  match n.node with
  | .symlink target => some target
  | _ => none

def content (n : Inode I Name C) : Option C :=
  match n.node with
  | .file content => some content
  | _ => none

theorem target_eq_none_of_entries {n : Inode I Name C} {entries : List (Name × I)}
    (h : n.entries = some entries) : n.target = none := by
  cases node : n.node <;> simp_all [Inode.entries, target]

theorem target_eq_none_of_content {n : Inode I Name C} (h : n.content.isSome = true) :
    n.target = none := by
  cases node : n.node <;> simp_all [content, target]

theorem content_eq_none_of_entries {n : Inode I Name C} {entries : List (Name × I)}
    (h : n.entries = some entries) : n.content = none := by
  cases node : n.node <;> simp_all [Inode.entries, content]

end Inode

variable [DecidableEq Name] (fs : Fs I Name C)

namespace Fs

def here : Place I Name → I
  | [] => fs.root
  | (_, i) :: _ => i

def entries (i : I) : Option (List (Name × I)) := (fs.inode i).bind Inode.entries

def lookup (i : I) (name : Name) : Option I := (fs.entries i).bind (List.lookup name)

/-- The entry of a directory under a name, with what it denotes. -/
def child (i : I) (name : Name) : Option (I × Inode I Name C) :=
  (fs.lookup i name).bind fun j => (fs.inode j).map (j, ·)

/-- One step of a resolution: the place it leads to, and the steps a link puts in front
of what is left. -/
def next (place : Place I Name) (step : Step Name) :
    Except Failure (Place I Name × List (Step Name)) :=
  match fs.entries (fs.here place), step with
  | none, _ => .error .notDirectory
  | some _, .up => .ok (place.tail, [])
  | some _, .down name =>
      match fs.child (fs.here place) name with
      | none => .error .missing
      | some (i, n) =>
          match n.target with
          | none => .ok ((name, i) :: place, [])
          | some target => .ok (if target.absolute then [] else place, target.steps)

end Fs

/-- A resolution that comes to an end. -/
inductive Walk : Place I Name → List (Step Name) → Except Failure (Place I Name) → Prop
  | done {place : Place I Name} : Walk place [] (.ok place)
  | stop {place : Place I Name} {step : Step Name} {rest : List (Step Name)} {e : Failure}
      (refused : fs.next place step = .error e) : Walk place (step :: rest) (.error e)
  | move {place place' : Place I Name} {step : Step Name}
      {rest inserted : List (Step Name)} {r : Except Failure (Place I Name)}
      (moved : fs.next place step = .ok (place', inserted))
      (further : Walk place' (inserted ++ rest) r) : Walk place (step :: rest) r

variable {fs} {place place' : Place I Name} {steps more : List (Step Name)}
  {r r' : Except Failure (Place I Name)}

theorem Walk.unique (h : Walk fs place steps r)
    (h' : Walk fs place steps r') : r = r' := by
  induction h with
  | done => cases h'; rfl
  | stop refused =>
      cases h' with
      | stop refused' => rw [refused] at refused'; cases refused'; rfl
      | move moved _ => rw [refused] at moved; cases moved
  | move moved _ ih =>
      cases h' with
      | stop refused => rw [moved] at refused; cases refused
      | move moved' further' =>
          rw [moved] at moved'
          cases moved'
          exact ih further'

theorem Walk.append (h : Walk fs place steps (.ok place')) (h' : Walk fs place' more r) :
    Walk fs place (steps ++ more) r := by
  generalize ends : Except.ok place' = r' at h
  induction h with
  | done => cases ends; exact h'
  | stop _ => cases ends
  | move moved _ ih =>
      apply Walk.move moved
      simpa using ih ends

theorem Walk.append_error {e : Failure} (h : Walk fs place steps (.error e)) :
    Walk fs place (steps ++ more) (.error e) := by
  generalize ends : Except.error e = r' at h
  induction h with
  | done => cases ends
  | stop refused => cases ends; exact .stop refused
  | move moved _ ih =>
      apply Walk.move moved
      simpa using ih ends

/-- A resolution of a concatenated path resolves its first part first. -/
theorem Walk.split (h : Walk fs place (steps ++ more) r) :
    (∃ mid, Walk fs place steps (.ok mid) ∧ Walk fs mid more r) ∨
      ∃ e, Walk fs place steps (.error e) ∧ r = .error e := by
  generalize whole : steps ++ more = all at h
  induction h generalizing steps with
  | done =>
      obtain ⟨rfl, rfl⟩ := List.append_eq_nil_iff.mp whole
      exact .inl ⟨_, .done, .done⟩
  | stop refused =>
      cases steps with
      | nil =>
          cases whole
          exact .inl ⟨_, .done, .stop refused⟩
      | cons step steps =>
          cases whole
          exact .inr ⟨_, .stop refused, rfl⟩
  | @move _ _ _ rest inserted _ moved further ih =>
      cases steps with
      | nil =>
          cases whole
          exact .inl ⟨_, .done, .move moved further⟩
      | cons step steps =>
          cases whole
          have parts := ih (List.append_assoc inserted steps more)
          exact parts.imp (fun ⟨mid, first, second⟩ => ⟨mid, .move moved first, second⟩)
            fun ⟨e, first, same⟩ => ⟨e, .move moved first, same⟩

variable (fs) in
open Classical in
/-- What resolution comes to. Without an end it is a loop. -/
noncomputable def resolve (place : Place I Name) (steps : List (Step Name)) :
    Except Failure (Place I Name) :=
  if h : ∃ r, Walk fs place steps r then h.choose else .error .loop

theorem resolve_of_walk (h : Walk fs place steps r) : resolve fs place steps = r := by
  have ends : ∃ r, Walk fs place steps r := ⟨r, h⟩
  rw [resolve, dif_pos ends]
  exact ends.choose_spec.unique h

theorem walk_of_resolve (h : resolve fs place steps = .ok place') :
    Walk fs place steps (.ok place') := by
  rw [resolve] at h
  split at h
  · next ends => exact h ▸ ends.choose_spec
  · cases h

theorem resolve_of_endless (h : ∀ r, ¬ Walk fs place steps r) :
    resolve fs place steps = .error .loop := by
  rw [resolve, dif_neg]
  exact fun ⟨r, ends⟩ => h r ends

@[simp] theorem resolve_nil : resolve fs place [] = .ok place := resolve_of_walk .done

theorem resolve_append :
    resolve fs place (steps ++ more) =
      (resolve fs place steps).bind (resolve fs · more) := by
  by_cases first : ∃ r, Walk fs place steps r
  · obtain ⟨r, first⟩ := first
    rw [resolve_of_walk first]
    cases r with
    | error e => exact resolve_of_walk first.append_error
    | ok mid =>
        by_cases second : ∃ r, Walk fs mid more r
        · obtain ⟨r, second⟩ := second
          exact (resolve_of_walk (first.append second)).trans
            (resolve_of_walk second).symm
        · rw [Except.bind, resolve_of_endless (not_exists.mp second)]
          apply resolve_of_endless
          intro r whole
          obtain ⟨mid', first', second'⟩ | ⟨e, first', -⟩ := whole.split
          · cases first.unique first'
            exact second ⟨r, second'⟩
          · cases first.unique first'
  · rw [resolve_of_endless (not_exists.mp first)]
    apply resolve_of_endless
    intro r whole
    obtain ⟨mid, first', -⟩ | ⟨e, first', -⟩ := whole.split
    · exact first ⟨_, first'⟩
    · exact first ⟨_, first'⟩

theorem resolve_cons {step : Step Name} :
    resolve fs place (step :: steps) =
      (fs.next place step).bind fun (p, inserted) =>
        resolve fs p (inserted ++ steps) := by
  cases moved : fs.next place step with
  | error e => exact resolve_of_walk (.stop moved)
  | ok there =>
      obtain ⟨p, inserted⟩ := there
      by_cases further : ∃ r, Walk fs p (inserted ++ steps) r
      · obtain ⟨r, further⟩ := further
        exact (resolve_of_walk (.move moved further)).trans (resolve_of_walk further).symm
      · refine (resolve_of_endless fun r whole => ?_).trans
          (resolve_of_endless (not_exists.mp further)).symm
        cases whole with
        | stop refused => rw [moved] at refused; cases refused
        | move moved' further' =>
            rw [moved] at moved'
            cases moved'
            exact further ⟨r, further'⟩

variable (fs) in
/-- Resolution in at most `fuel` steps. -/
def resolveWithin :
    Nat → Place I Name → List (Step Name) → Option (Except Failure (Place I Name))
  | _, place, [] => some (.ok place)
  | 0, _, _ :: _ => none
  | fuel + 1, place, step :: rest =>
      match fs.next place step with
      | .error e => some (.error e)
      | .ok (place', inserted) => resolveWithin fuel place' (inserted ++ rest)

theorem resolve_of_within (fuel : Nat) (h : resolveWithin fs fuel place steps = some r) :
    resolve fs place steps = r := by
  induction fuel generalizing place steps with
  | zero =>
      cases steps with
      | nil => cases h; exact resolve_nil
      | cons step rest => cases h
  | succ fuel ih =>
      cases steps with
      | nil => cases h; exact resolve_nil
      | cons step rest =>
          simp only [resolveWithin] at h
          rw [resolve_cons]
          cases moved : fs.next place step with
          | error e => rw [moved] at h; cases h; rfl
          | ok there => rw [moved] at h; exact ih h

/-! ## Chains: places reached without a link -/

variable (fs) in
/-- Every entry of the place is what its directory holds under its name, and no link. -/
def Chain : Place I Name → Prop
  | [] => True
  | (name, i) :: rest =>
      Chain rest ∧ ∃ n, fs.child (fs.here rest) name = some (i, n) ∧ n.target = none

def names (place : Place I Name) : List Name := (place.map Prod.fst).reverse

def downs (names : List Name) : List (Step Name) := names.map .down

omit [DecidableEq Name] in
theorem Fs.entries_eq_some_iff {i : I} {l : List (Name × I)} :
    fs.entries i = some l ↔ ∃ n, fs.inode i = some n ∧ n.entries = some l :=
  Option.bind_eq_some_iff

theorem Fs.entries_of_child {i j : I} {name : Name} {n : Inode I Name C}
    (h : fs.child i name = some (j, n)) : ∃ entries, fs.entries i = some entries := by
  cases entries : fs.entries i with
  | none => simp [child, lookup, entries] at h
  | some found => exact ⟨found, rfl⟩

theorem Fs.next_down {name : Name} {i : I} {n : Inode I Name C}
    (h : fs.child (fs.here place) name = some (i, n)) (plain : n.target = none) :
    fs.next place (.down name) = .ok ((name, i) :: place, []) := by
  obtain ⟨entries, found⟩ := fs.entries_of_child h
  simp [next, found, h, plain]

theorem Fs.next_cases {step : Step Name} {inserted : List (Step Name)}
    (moved : fs.next place step = .ok (place', inserted)) :
    (step = .up ∧ place' = place.tail ∧ inserted = []) ∨
      ∃ name i n, step = .down name ∧ fs.child (fs.here place) name = some (i, n) ∧
        ((n.target = none ∧ place' = (name, i) :: place ∧ inserted = []) ∨
          ∃ target, n.target = some target ∧ inserted = target.steps ∧
            place' = if target.absolute then [] else place) := by
  cases dir : fs.entries (fs.here place) with
  | none =>
      simp only [next, dir] at moved
      cases moved
  | some entries =>
      cases step with
      | up =>
          simp only [next, dir] at moved
          cases moved
          exact .inl ⟨rfl, rfl, rfl⟩
      | down name =>
          cases child : fs.child (fs.here place) name with
          | none =>
              simp only [next, dir, child] at moved
              cases moved
          | some found =>
              obtain ⟨i, n⟩ := found
              refine .inr ⟨name, i, n, rfl, child, ?_⟩
              cases link : n.target with
              | none =>
                  simp only [next, dir, child, link] at moved
                  cases moved
                  exact .inl ⟨rfl, rfl, rfl⟩
              | some target =>
                  simp only [next, dir, child, link] at moved
                  cases moved
                  exact .inr ⟨target, rfl, rfl, rfl⟩

theorem Chain.tail (chain : Chain fs place) : Chain fs place.tail := by
  cases place with
  | nil => exact chain
  | cons entry rest => exact chain.1

theorem Chain.next {step : Step Name} {inserted : List (Step Name)}
    (chain : Chain fs place) (moved : fs.next place step = .ok (place', inserted)) :
      Chain fs place' := by
  obtain ⟨-, rfl, -⟩ | ⟨name, i, n, -, child, ⟨plain, rfl, -⟩ | ⟨target, -, -, rfl⟩⟩ :=
    Fs.next_cases moved
  · exact chain.tail
  · exact ⟨chain, n, child, plain⟩
  · split
    · trivial
    · exact chain

/-- Resolution ends at a chain. -/
theorem Chain.resolve (chain : Chain fs place)
    (h : UnixFs.resolve fs place steps = .ok place') : Chain fs place' := by
  have walk := walk_of_resolve h
  generalize ends : Except.ok place' = r at walk
  induction walk with
  | done => cases ends; exact chain
  | stop _ => cases ends
  | move moved further ih =>
      exact ih (chain.next moved) (ends ▸ resolve_of_walk further) ends

theorem Chain.suffix {rest : Place I Name} (chain : Chain fs place)
    (suffix : rest <:+ place) : Chain fs rest := by
  induction place with
  | nil =>
      obtain rfl := List.suffix_nil.mp suffix
      exact chain
  | cons entry place ih =>
      obtain rfl | shorter := List.suffix_cons_iff.mp suffix
      · exact chain
      · exact ih chain.1 shorter

/-- What stands above the last entry of a chain are directories. -/
theorem Chain.directories {entry : Name × I} (chain : Chain fs (entry :: place))
    {rest : Place I Name} (suffix : rest <:+ place) :
      ∃ l, fs.entries (fs.here rest) = some l := by
  induction place generalizing entry with
  | nil =>
      obtain rfl := List.suffix_nil.mp suffix
      obtain ⟨-, n, child, -⟩ := chain
      exact Fs.entries_of_child child
  | cons above place ih =>
      obtain rfl | shorter := List.suffix_cons_iff.mp suffix
      · obtain ⟨-, n, child, -⟩ := chain
        exact Fs.entries_of_child child
      · exact ih chain.1 shorter

/-- The names of a chain lead back to it. -/
theorem resolve_names (chain : Chain fs place) :
    resolve fs [] (downs (names place)) = .ok place := by
  induction place with
  | nil => exact resolve_nil
  | cons entry rest ih =>
      obtain ⟨name, i⟩ := entry
      obtain ⟨below, n, child, plain⟩ := chain
      have path : downs (names ((name, i) :: rest)) =
          downs (names rest) ++ [.down name] := by
        simp [downs, names]
      rw [path, resolve_append, ih below, Except.bind, resolve_cons,
        Fs.next_down child plain]
      exact resolve_nil

/-! ## The directories a resolution looks into -/

variable (fs) in
/-- The directories in which entries are looked up, in order, up to the first name that
is not there. That is where an open with create makes its file, if no step is left. -/
inductive Visits : Place I Name → List (Step Name) → List I → Prop
  | done {place : Place I Name} : Visits place [] []
  | missing {place : Place I Name} {step : Step Name} {rest : List (Step Name)}
      (refused : fs.next place step = .error .missing) :
        Visits place (step :: rest) [fs.here place]
  | blocked {place : Place I Name} {step : Step Name} {rest : List (Step Name)}
      (refused : fs.next place step = .error .notDirectory) :
        Visits place (step :: rest) []
  | move {place place' : Place I Name} {step : Step Name}
      {rest inserted : List (Step Name)} {visited : List I}
      (moved : fs.next place step = .ok (place', inserted))
      (further : Visits place' (inserted ++ rest) visited) :
      Visits place (step :: rest) (fs.here place :: visited)

variable (fs) in
/-- The inodes above a place, from the root down. -/
def above : Place I Name → List I
  | [] => []
  | _ :: rest => above rest ++ [fs.here rest]

/-- Along the names of a chain a resolution looks into the chain's own directories. -/
theorem visits_names {visited : List I} (chain : Chain fs place)
    (further : Visits fs place more visited) :
    Visits fs [] (downs (names place) ++ more) (above fs place ++ visited) := by
  induction place generalizing more visited with
  | nil => exact further
  | cons entry rest ih =>
      obtain ⟨name, i⟩ := entry
      obtain ⟨below, n, child, plain⟩ := chain
      have steps : downs (names ((name, i) :: rest)) ++ more =
          downs (names rest) ++ .down name :: more := by
        simp [downs, names]
      have dirs : above fs ((name, i) :: rest) ++ visited =
          above fs rest ++ fs.here rest :: visited := by
        simp [above]
      rw [steps, dirs]
      exact ih below (.move (Fs.next_down child plain) further)

end UnixFs
