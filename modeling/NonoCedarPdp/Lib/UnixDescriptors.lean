import NonoCedarPdp.Lib.UnixPermission

/-!
Open files. What a user may do to a file is judged when it is opened and holds for the
descriptor from then on, whatever becomes of the mode, and a descriptor can be passed on.
A file whose mode gives others nothing is never opened by them again, so whoever of them
has it open later had it open all along.
-/
namespace UnixFs

inductive Access
  | read
  | write
  deriving DecidableEq, Repr

/-- An open file in the hands of a user. One that is open for both is two of them. -/
structure Descriptor (I : Type) where
  user : UInt32
  file : I
  access : Access
  deriving DecidableEq, Repr

structure Machine (I Name C : Type) where
  fs : Fs I Name C
  descriptors : List (Descriptor I)

/-- What is asked of the machine, by name or through a descriptor. -/
inductive Request (I Name C : Type)
  | operate (operation : Operation I Name C)
  | acquire (i : I) (access : Access)
  | overwrite (i : I) (content : C)
  | pass (i : I) (access : Access) (receiver : UInt32)
  | release (i : I) (access : Access)

structure Syscall (I Name C : Type) where
  user : UInt32
  request : Request I Name C

variable {I Name C : Type} [DecidableEq Name]

def Grants (mode : UInt32) : Access → Prop
  | .read => Exposed mode
  | .write => Loose mode

instance (mode : UInt32) : (access : Access) → Decidable (Grants mode access)
  | .read => inferInstanceAs (Decidable (Exposed mode))
  | .write => inferInstanceAs (Decidable (Loose mode))

/-- The user may open the file. -/
def MayOpen (fs : Fs I Name C) (user : UInt32) (access : Access) (i : I) : Prop :=
  ∃ n ∈ fs.inode i, n.content.isSome ∧ (n.owner = user ∨ Grants n.mode access)

instance (fs : Fs I Name C) (user : UInt32) (access : Access) (i : I) :
    Decidable (MayOpen fs user access i) :=
  inferInstanceAs (Decidable (∃ n ∈ fs.inode i,
    n.content.isSome ∧ (n.owner = user ∨ Grants n.mode access)))

namespace Machine

/-- One of these users has the file open. -/
def Holds (users : UInt32 → Prop) (m : Machine I Name C) (access : Access)
    (i : I) : Prop :=
  ∃ d ∈ m.descriptors, users d.user ∧ d.file = i ∧ d.access = access

/-- One of these users has the file open or may open it. -/
def Reaches (users : UInt32 → Prop) (m : Machine I Name C) (access : Access)
    (i : I) : Prop :=
  Holds users m access i ∨ ∃ user, users user ∧ MayOpen m.fs user access i

def ByUsers (users : UInt32 → Prop) (_ : Machine I Name C)
    (a : Syscall I Name C) : Prop :=
  users a.user

variable [DecidableEq I]

/-- What becomes of the machine, or `none` where the call is refused. -/
def call (m : Machine I Name C) (a : Syscall I Name C) : Option (Machine I Name C) :=
  match a.request with
  | .operate operation => (perform m.fs a.user operation).map fun fs => { m with fs }
  | .acquire i access =>
      if MayOpen m.fs a.user access i then
        some { m with descriptors := ⟨a.user, i, access⟩ :: m.descriptors }
      else none
  | .overwrite i content =>
      if ⟨a.user, i, .write⟩ ∈ m.descriptors ∧ ∃ n ∈ m.fs.inode i, n.content.isSome then
        some { m with fs := m.fs.modify i ({ · with node := .file content }) }
      else none
  | .pass i access receiver =>
      if ⟨a.user, i, access⟩ ∈ m.descriptors then
        some { m with descriptors := ⟨receiver, i, access⟩ :: m.descriptors }
      else none
  | .release i access =>
      some { m with descriptors := m.descriptors.erase ⟨a.user, i, access⟩ }

/-! ## Who has a file open -/

variable {users : UInt32 → Prop} {m m' : Machine I Name C} {a : Syscall I Name C}
  {access : Access} {i : I}

/-- A descriptor comes from an open that was permitted, or from another one. -/
theorem holds_of_call (by_users : users a.user) (taken : m.call a = some m')
    (holds : Holds users m' access i) :
    Holds users m access i ∨ MayOpen m.fs a.user access i := by
  obtain ⟨user, request⟩ := a
  obtain ⟨d, mem, ofUsers, rfl, rfl⟩ := holds
  cases request with
  | operate operation =>
      obtain ⟨fs, -, rfl⟩ := Option.map_eq_some_iff.mp taken
      exact .inl ⟨d, mem, ofUsers, rfl, rfl⟩
  | acquire j access =>
      simp only [call, Option.ite_none_right_eq_some, Option.some.injEq] at taken
      obtain ⟨permitted, rfl⟩ := taken
      cases List.mem_cons.mp mem with
      | inl new =>
          subst new
          exact .inr permitted
      | inr old => exact .inl ⟨d, old, ofUsers, rfl, rfl⟩
  | overwrite j content =>
      simp only [call, Option.ite_none_right_eq_some, Option.some.injEq] at taken
      obtain ⟨-, rfl⟩ := taken
      exact .inl ⟨d, mem, ofUsers, rfl, rfl⟩
  | pass j access receiver =>
      simp only [call, Option.ite_none_right_eq_some, Option.some.injEq] at taken
      obtain ⟨held, rfl⟩ := taken
      cases List.mem_cons.mp mem with
      | inl new =>
          subst new
          exact .inl ⟨_, held, by_users, rfl, rfl⟩
      | inr old => exact .inl ⟨d, old, ofUsers, rfl, rfl⟩
  | release j access =>
      cases taken
      exact .inl ⟨d, List.mem_of_mem_erase mem, ofUsers, rfl, rfl⟩

theorem root_call (taken : m.call a = some m') : m'.fs.root = m.fs.root := by
  obtain ⟨user, request⟩ := a
  cases request with
  | operate operation =>
      obtain ⟨fs, performed, rfl⟩ := Option.map_eq_some_iff.mp taken
      exact (perform_keeps performed).1
  | acquire j access | overwrite j content | pass j access receiver =>
      simp only [call, Option.ite_none_right_eq_some, Option.some.injEq] at taken
      obtain ⟨-, rfl⟩ := taken
      rfl
  | release j access =>
      cases taken
      rfl

end Machine

/-! ## What stands at the end of a guarded chain -/

section Anchored
open Machine
variable [DecidableEq I] {foreign : UInt32 → Prop} {fs : Fs I Name C}
  {m m' : Machine I Name C} {a : Syscall I Name C} {place : Place I Name}
  {n : Inode I Name C}

/-- New content for a file, the named one or another. -/
theorem Anchored.overwrite {j : I} {other : Inode I Name C}
    (there : fs.inode j = some other) (isFile : other.content.isSome) (content : C)
    (anchored : Anchored foreign fs place n) :
    ∃ n', Anchored foreign (fs.modify j ({ · with node := .file content })) place n' ∧
      n'.owner = n.owner ∧ n'.mode = n.mode ∧ SameKind n n' ∧
      (fs.here place ≠ j → n'.node = n.node) := by
  have plain : other.entries = none := by
    cases entries : other.entries with
    | none => rfl
    | some l =>
        rw [Inode.content_eq_none_of_entries entries] at isFile
        cases isFile
  by_cases here : fs.here place = j
  · subst here
    obtain rfl := Option.some.inj (anchored.held.symm.trans there)
    exact ⟨_, anchored.modify plain rfl rfl, rfl, rfl, sameKind_file isFile content,
      fun apart => absurd rfl apart⟩
  · refine ⟨n, ⟨?_, anchored.owner, fun entry rest same => ?_⟩, rfl, rfl, ⟨rfl, rfl, rfl⟩,
      fun _ => rfl⟩
    · have stays : (fs.modify j ({ · with node := .file content })).here place =
          fs.here place :=
        here_of_root rfl place
      rw [stays]
      simp [Fs.modify, here, anchored.held]
    · obtain ⟨guarded, found⟩ := anchored.way entry rest same
      refine ⟨guarded.modify there plain rfl, ?_⟩
      rw [lookup_modify there plain rfl, here_of_root rfl rest]
      exact found

/-- A call of a foreign user leaves the place, and the owner, mode and kind of its inode,
and what it holds where no foreign user may write it or has it open. -/
theorem Anchored.call (by_foreign : foreign a.user) (taken : m.call a = some m')
    (anchored : Anchored foreign m.fs place n) :
    ∃ n', Anchored foreign m'.fs place n' ∧ n'.owner = n.owner ∧ n'.mode = n.mode ∧
      SameKind n n' ∧
      (¬ Loose n.mode → ¬ Holds foreign m .write (m.fs.here place) →
        n'.node = n.node) := by
  obtain ⟨user, request⟩ := a
  cases request with
  | operate operation =>
      obtain ⟨fs, performed, rfl⟩ := Option.map_eq_some_iff.mp taken
      obtain ⟨n', anchored', owner, mode, node, kind⟩ :=
        Anchored.act (a := ⟨user, operation⟩) by_foreign performed anchored
      exact ⟨n', anchored', owner, mode, kind, fun tight _ => node tight⟩
  | acquire j access | pass j access receiver =>
      simp only [Machine.call, Option.ite_none_right_eq_some, Option.some.injEq] at taken
      obtain ⟨-, rfl⟩ := taken
      exact ⟨n, anchored, rfl, rfl, ⟨rfl, rfl, rfl⟩, fun _ _ => rfl⟩
  | overwrite j content =>
      simp only [Machine.call, Option.ite_none_right_eq_some, Option.some.injEq] at taken
      obtain ⟨⟨held, other, there, isFile⟩, rfl⟩ := taken
      obtain ⟨n', anchored', owner, mode, kind, node⟩ :=
        anchored.overwrite there isFile content
      refine ⟨n', anchored', owner, mode, kind,
        fun _ unheld => node fun here => unheld ?_⟩
      exact ⟨_, held, by_foreign, here.symm, rfl⟩
  | release j access =>
      cases taken
      exact ⟨n, anchored, rfl, rfl, ⟨rfl, rfl, rfl⟩, fun _ _ => rfl⟩

omit [DecidableEq I] in
theorem Anchored.grants (anchored : Anchored foreign fs place n) {user : UInt32}
    (by_foreign : foreign user) {access : Access}
    (may : MayOpen fs user access (fs.here place)) : Grants n.mode access := by
  obtain ⟨k, held, -, allowed⟩ := may
  obtain rfl := Option.some.inj (anchored.held.symm.trans held)
  exact allowed.resolve_left fun same => anchored.owner (same ▸ by_foreign)

/-- Whoever has the file open had it open before, or its mode lets others open it. -/
theorem Anchored.holds (by_foreign : foreign a.user) (taken : m.call a = some m')
    (anchored : Anchored foreign m.fs place n) {access : Access}
    (holds : Holds foreign m' access (m.fs.here place)) :
    Holds foreign m access (m.fs.here place) ∨ Grants n.mode access :=
  (holds_of_call by_foreign taken holds).imp_right (anchored.grants by_foreign)

open Transition in
theorem Anchored.calls {calls : List (Syscall I Name C)}
    (run : Run Machine.call (ByUsers foreign) m calls m')
    (anchored : Anchored foreign m.fs place n) :
    m'.fs.root = m.fs.root ∧ ∃ n', Anchored foreign m'.fs place n' ∧ n'.owner = n.owner ∧
      n'.mode = n.mode ∧ SameKind n n' ∧
      (¬ Loose n.mode → ¬ Holds foreign m .write (m.fs.here place) → n'.node = n.node) ∧
      ∀ access, Holds foreign m' access (m.fs.here place) →
        Holds foreign m access (m.fs.here place) ∨ Grants n.mode access := by
  induction run with
  | nil =>
      exact ⟨rfl, n, anchored, rfl, rfl, ⟨rfl, rfl, rfl⟩, fun _ _ => rfl, fun _ => .inl⟩
  | @snoc _ t u a _ by_foreign taken ih =>
      obtain ⟨root, n', anchored', owner, mode, kind, node, held⟩ := ih
      obtain ⟨n'', anchored'', owner', mode', kind', node'⟩ :=
        anchored'.call by_foreign taken
      have here : t.fs.here place = m.fs.here place := here_of_root root place
      refine ⟨(root_call taken).trans root, n'', anchored'', owner'.trans owner,
        mode'.trans mode, kind.trans kind', fun tight unheld => ?_,
        fun access holds => ?_⟩
      · have still : ¬ Holds foreign t .write (t.fs.here place) := fun holds =>
          (held .write (here ▸ holds)).elim unheld tight
        exact (node' (mode ▸ tight) still).trans (node tight unheld)
      · rw [← here] at holds
        cases anchored'.holds by_foreign taken holds with
        | inl before => exact held access (here ▸ before)
        | inr grants => exact .inr (mode ▸ grants)

end Anchored

end UnixFs
