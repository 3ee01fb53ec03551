import NonoCedarPdp.Lib.Transition
import NonoCedarPdp.Lib.UnixFs

/-!
What users without privileges may do to a Unix file system. An inode that one user owns
keeps its owner and its mode under everything the others do, keeps what it holds when
only its owner may write it, and a sticky directory keeps the entries the others do not
own. So a chain of such directories stands through every run of the others.
-/
namespace UnixFs

def Sticky (mode : UInt32) : Prop := mode &&& 0o1000 ≠ 0

/-- Writable by the group or by everyone. -/
def Loose (mode : UInt32) : Prop := mode &&& 0o022 ≠ 0

/-- Readable by the group or by everyone. -/
def Exposed (mode : UInt32) : Prop := mode &&& 0o044 ≠ 0

instance : DecidablePred Sticky :=
  fun mode => inferInstanceAs (Decidable (mode &&& 0o1000 ≠ 0))

instance : DecidablePred Loose :=
  fun mode => inferInstanceAs (Decidable (mode &&& 0o022 ≠ 0))

instance : DecidablePred Exposed :=
  fun mode => inferInstanceAs (Decidable (mode &&& 0o044 ≠ 0))

inductive Operation (I Name C : Type)
  | create (directory : I) (name : Name) (fresh : I) (mode : UInt32)
      (node : Node I Name C)
  | link (directory : I) (name : Name) (i : I)
  | unlink (directory : I) (name : Name)
  | rename (source : I) (name : Name) (destination : I) (name' : Name)
  | chmod (i : I) (mode : UInt32)
  | write (i : I) (content : C)

structure Action (I Name C : Type) where
  user : UInt32
  operation : Operation I Name C

variable {I Name C : Type} [DecidableEq Name]

namespace Fs
variable [DecidableEq I]

def modify (fs : Fs I Name C) (i : I) (f : Inode I Name C → Inode I Name C) :
    Fs I Name C :=
  { fs with inode := fun j => if j = i then (fs.inode j).map f else fs.inode j }

def put (fs : Fs I Name C) (i : I) (n : Inode I Name C) : Fs I Name C :=
  { fs with inode := fun j => if j = i then some n else fs.inode j }

def addEntry (fs : Fs I Name C) (directory : I) (name : Name) (i : I) : Fs I Name C :=
  fs.modify directory fun n =>
    { n with node := .directory (n.entries.getD [] ++ [(name, i)]) }

def removeEntry (fs : Fs I Name C) (directory : I) (name : Name) : Fs I Name C :=
  fs.modify directory fun n =>
    { n with node := .directory ((n.entries.getD []).filter (·.1 ≠ name)) }

end Fs

section Rules
variable [DecidableEq I] (fs : Fs I Name C) (user : UInt32)

def Owns (i : I) : Prop := ∃ n ∈ fs.inode i, n.owner = user

def MayChange (directory : I) : Prop :=
  ∃ n ∈ fs.inode directory, n.entries.isSome ∧ (n.owner = user ∨ Loose n.mode)

def MayRemove (directory i : I) : Prop :=
  MayChange fs user directory ∧
    ∀ n ∈ fs.inode directory, Sticky n.mode → n.owner = user ∨ Owns fs user i

def MayWrite (i : I) : Prop :=
  ∃ n ∈ fs.inode i, n.content.isSome ∧ (n.owner = user ∨ Loose n.mode)

def MayRead (i : I) : Prop :=
  ∃ n ∈ fs.inode i, n.content.isSome ∧ (n.owner = user ∨ Exposed n.mode)

instance (i : I) : Decidable (Owns fs user i) :=
  inferInstanceAs (Decidable (∃ n ∈ fs.inode i, n.owner = user))

instance (directory : I) : Decidable (MayChange fs user directory) :=
  inferInstanceAs (Decidable (∃ n ∈ fs.inode directory,
    n.entries.isSome ∧ (n.owner = user ∨ Loose n.mode)))

instance (directory i : I) : Decidable (MayRemove fs user directory i) :=
  inferInstanceAs (Decidable (MayChange fs user directory ∧
    ∀ n ∈ fs.inode directory, Sticky n.mode → n.owner = user ∨ Owns fs user i))

instance (i : I) : Decidable (MayWrite fs user i) :=
  inferInstanceAs (Decidable (∃ n ∈ fs.inode i,
    n.content.isSome ∧ (n.owner = user ∨ Loose n.mode)))

/-- What `user` makes of the file system, or `none` where the permissions refuse. -/
def perform : Operation I Name C → Option (Fs I Name C)
  | .create directory name fresh mode node =>
      let made : Inode I Name C := ⟨user, mode, node⟩
      if MayChange fs user directory ∧ fs.lookup directory name = none ∧
          (fs.inode fresh).isNone ∧ made.entries.getD [] = [] then
        some ((fs.put fresh made).addEntry directory name fresh)
      else none
  | .link directory name i =>
      if MayChange fs user directory ∧ fs.lookup directory name = none ∧
          (∃ n ∈ fs.inode i, n.entries = none) then
        some (fs.addEntry directory name i)
      else none
  | .unlink directory name =>
      match fs.lookup directory name with
      | none => none
      | some i =>
          if MayRemove fs user directory i ∧ (fs.entries i).getD [] = [] then
            some (fs.removeEntry directory name)
          else none
  | .rename source name destination name' =>
      match fs.lookup source name with
      | none => none
      | some i =>
          -- An entry that is already there is replaced.
          if MayRemove fs user source i ∧ MayChange fs user destination ∧
              (∀ j ∈ fs.lookup destination name', MayRemove fs user destination j) then
            some (((fs.removeEntry source name).removeEntry destination name').addEntry
              destination name' i)
          else none
  | .chmod i mode => if Owns fs user i then some (fs.modify i ({ · with mode })) else none
  | .write i content =>
      if MayWrite fs user i then some
        (fs.modify i ({ · with node := .file content })) else none

end Rules

def act [DecidableEq I] (fs : Fs I Name C) (a : Action I Name C) : Option (Fs I Name C) :=
  perform fs a.user a.operation

/-! ## What an operation leaves alone -/

/-- What is left of an inode for a user who does not own it. `owned` are the inodes
that user does own. -/
structure Keeps (owned : I → Prop) (n n' : Inode I Name C) : Prop where
  owner : n'.owner = n.owner
  mode : n'.mode = n.mode
  node : ¬ Loose n.mode → n'.node = n.node
  entries : ∀ l, n.entries = some l → ∃ l', n'.entries = some l' ∧
    (Sticky n.mode → ∀ name j, l.lookup name = some j → ¬ owned j →
      l'.lookup name = some j)

def KeepsOthers (owned : I → Prop) (user : UInt32) (fs fs' : Fs I Name C) : Prop :=
  fs'.root = fs.root ∧ ∀ i n, fs.inode i = some n → n.owner ≠ user →
    ∃ n', fs'.inode i = some n' ∧ Keeps owned n n'

variable {owned : I → Prop} {user : UInt32} {fs fs' fs'' : Fs I Name C}

theorem lookup_append_of_some {l more : List (Name × I)} {name : Name} {j : I}
    (h : l.lookup name = some j) : (l ++ more).lookup name = some j := by
  rw [List.lookup_append, h]
  rfl

theorem lookup_filter_ne {l : List (Name × I)} {name other : Name} (h : other ≠ name) :
    (l.filter (·.1 ≠ name)).lookup other = l.lookup other := by
  induction l with
  | nil => rfl
  | cons entry l ih =>
      obtain ⟨found, i⟩ := entry
      by_cases gone : found = name
      · rw [List.filter_cons_of_neg (by simp [gone]), List.lookup_cons,
          beq_false_of_ne (gone ▸ h : other ≠ found)]
        exact ih
      · rw [List.filter_cons_of_pos (by simp [gone]), List.lookup_cons,
          List.lookup_cons, ih]

theorem lookup_eq_of_inode {fs : Fs I Name C} {d : I} {n : Inode I Name C} {name : Name}
    (held : fs.inode d = some n) :
      fs.lookup d name = (n.entries.getD []).lookup name := by
  cases entries : n.entries <;> simp [Fs.lookup, Fs.entries, held, entries]

theorem lookup_of_mem {fs : Fs I Name C} {d : I} {n : Inode I Name C}
    {l : List (Name × I)} {entry : Name × I} (held : fs.inode d = some n)
    (dir : n.entries = some l) (mem : entry ∈ l) :
    ∃ i, fs.lookup d entry.1 = some i := by
  rw [← Option.ne_none_iff_exists', lookup_eq_of_inode held, dir]
  intro absent
  have other := List.lookup_eq_none_iff.mp absent entry mem
  simp at other

theorem mem_of_lookup {fs : Fs I Name C} {d i : I} {n : Inode I Name C}
    {l : List (Name × I)} {name : Name} (held : fs.inode d = some n)
    (dir : n.entries = some l) (found : fs.lookup d name = some i) : (name, i) ∈ l := by
  rw [lookup_eq_of_inode held, dir] at found
  obtain ⟨before, after, rfl, -⟩ := List.lookup_eq_some_iff.mp found
  exact List.mem_append_right _ List.mem_cons_self

theorem Keeps.refl (n : Inode I Name C) : Keeps owned n n where
  owner := rfl
  mode := rfl
  node _ := rfl
  entries l h := ⟨l, h, fun _ _ _ found _ => found⟩

theorem Keeps.trans {n n' n'' : Inode I Name C} (h : Keeps owned n n')
    (h' : Keeps owned n' n'') : Keeps owned n n'' where
  owner := h'.owner.trans h.owner
  mode := h'.mode.trans h.mode
  node tight := (h'.node (h.mode ▸ tight)).trans (h.node tight)
  entries l held := by
    obtain ⟨l', held', sticks⟩ := h.entries l held
    obtain ⟨l'', held'', sticks'⟩ := h'.entries l' held'
    refine ⟨l'', held'', fun sticky name j found others => ?_⟩
    exact sticks' (h.mode ▸ sticky) name j (sticks sticky name j found others) others

theorem KeepsOthers.trans (h : KeepsOthers owned user fs fs')
    (h' : KeepsOthers owned user fs' fs'') : KeepsOthers owned user fs fs'' := by
  refine ⟨h'.1.trans h.1, fun i n held others => ?_⟩
  obtain ⟨n', held', kept⟩ := h.2 i n held others
  obtain ⟨n'', held'', kept'⟩ := h'.2 i n' held' (kept.owner ▸ others)
  exact ⟨n'', held'', kept.trans kept'⟩

variable [DecidableEq I]

theorem keepsOthers_modify {i : I} {f : Inode I Name C → Inode I Name C}
    (h : ∀ n, fs.inode i = some n → n.owner ≠ user → Keeps owned n (f n)) :
    KeepsOthers owned user fs (fs.modify i f) := by
  refine ⟨rfl, fun j n held others => ?_⟩
  by_cases same : j = i
  · subst same
    exact ⟨f n, by simp [Fs.modify, held], h n held others⟩
  · exact ⟨n, by simp [Fs.modify, same, held], .refl n⟩

theorem keepsOthers_put {i : I} {n : Inode I Name C} (fresh : (fs.inode i).isNone) :
    KeepsOthers owned user fs (fs.put i n) := by
  refine ⟨rfl, fun j m held _ => ?_⟩
  have other : j ≠ i := by
    rintro rfl
    simp [held] at fresh
  exact ⟨m, by simp [Fs.put, other, held], .refl m⟩

theorem keepsOthers_addEntry {d i : I} {name : Name}
    (writable : ∀ n, fs.inode d = some n → n.owner = user ∨ Loose n.mode) :
    KeepsOthers owned user fs (fs.addEntry d name i) := by
  apply keepsOthers_modify
  intro n held others
  have loose := (writable n held).resolve_left others
  refine ⟨rfl, rfl, fun tight => absurd loose tight, fun l entries => ⟨_, rfl, ?_⟩⟩
  intro _ other j found _
  simpa [entries] using lookup_append_of_some found

theorem keepsOthers_removeEntry {d : I} {name : Name}
    (writable : ∀ n, fs.inode d = some n → n.owner = user ∨ Loose n.mode)
    (sticky : ∀ n, fs.inode d = some n → Sticky n.mode →
      n.owner = user ∨ ∀ j, fs.lookup d name = some j → owned j) :
    KeepsOthers owned user fs (fs.removeEntry d name) := by
  apply keepsOthers_modify
  intro n held others
  have loose := (writable n held).resolve_left others
  refine ⟨rfl, rfl, fun tight => absurd loose tight, fun l entries => ⟨_, rfl, ?_⟩⟩
  intro sticks other j found others'
  have mine := (sticky n held sticks).resolve_left others
  have kept : other ≠ name := by
    rintro rfl
    exact others' (mine j (by simp [Fs.lookup, Fs.entries, held, entries, found]))
  simpa [entries, found] using lookup_filter_ne (l := l) kept

omit [DecidableEq Name] [DecidableEq I] in
theorem MayChange.writable {d : I} (h : MayChange fs user d) :
    ∀ n, fs.inode d = some n → n.owner = user ∨ Loose n.mode := by
  intro n held
  obtain ⟨m, held', -, writable⟩ := h
  cases held.symm.trans held'
  exact writable

omit [DecidableEq I] in
theorem MayRemove.sticky {d i : I} {name : Name} (h : MayRemove fs user d i)
    (found : fs.lookup d name = some i) :
    ∀ n, fs.inode d = some n → Sticky n.mode →
      n.owner = user ∨ ∀ j, fs.lookup d name = some j → Owns fs user j := by
  intro n held sticks
  refine (h.2 n held sticks).imp_right fun owns j found' => ?_
  cases found.symm.trans found'
  exact owns

/-- The second removal of a rename is judged on the directory as it was before the
first. -/
theorem removeEntry_writable {s d : I} {name : Name}
    (writable : ∀ n, fs.inode d = some n → n.owner = user ∨ Loose n.mode) :
    ∀ n, (fs.removeEntry s name).inode d = some n → n.owner = user ∨ Loose n.mode := by
  intro n held
  by_cases same : d = s
  · simp only [Fs.removeEntry, Fs.modify, if_pos same, Option.map_eq_some_iff] at held
    obtain ⟨m, held', rfl⟩ := held
    exact writable m held'
  · exact writable n (by simpa [Fs.removeEntry, Fs.modify, same] using held)

theorem lookup_of_removeEntry {s d j : I} {name name' : Name}
    (h : (fs.removeEntry s name).lookup d name' = some j) :
      fs.lookup d name' = some j := by
  by_cases same : d = s
  · subst same
    cases held : fs.inode d with
    | none => simp [Fs.lookup, Fs.entries, Fs.removeEntry, Fs.modify, held] at h
    | some n =>
        have left : (fs.removeEntry d name).lookup d name' =
            ((n.entries.getD []).filter (·.1 ≠ name)).lookup name' := by
          simp [Fs.lookup, Fs.entries, Fs.removeEntry, Fs.modify, held, Inode.entries]
        rw [left] at h
        rw [lookup_eq_of_inode held]
        by_cases gone : name' = name
        · have absent :
              ((n.entries.getD []).filter (·.1 ≠ name)).lookup name' = none := by
            rw [List.lookup_eq_none_iff]
            intro entry mem
            have kept : entry.1 ≠ name := of_decide_eq_true (List.mem_filter.mp mem).2
            exact bne_iff_ne.mpr fun same => kept (same.symm.trans gone)
          rw [absent] at h
          cases h
        · rw [lookup_filter_ne gone] at h
          exact h
  · simpa [Fs.lookup, Fs.entries, Fs.removeEntry, Fs.modify, same] using h

theorem removeEntry_sticky {s d : I} {name name' : Name}
    (sticky : ∀ n, fs.inode d = some n → Sticky n.mode →
      n.owner = user ∨ ∀ j, fs.lookup d name' = some j → owned j) :
    ∀ n, (fs.removeEntry s name).inode d = some n → Sticky n.mode →
      n.owner = user ∨ ∀ j, (fs.removeEntry s name).lookup d name' = some j → owned j := by
  intro n held sticks
  have before : ∃ m, fs.inode d = some m ∧ m.owner = n.owner ∧ m.mode = n.mode := by
    by_cases same : d = s
    · simp only [Fs.removeEntry, Fs.modify, if_pos same, Option.map_eq_some_iff] at held
      obtain ⟨m, held', rfl⟩ := held
      exact ⟨m, held', rfl, rfl⟩
    · exact ⟨n, by simpa [Fs.removeEntry, Fs.modify, same] using held, rfl, rfl⟩
  obtain ⟨m, held', owner, mode⟩ := before
  have judged := sticky m held' (mode ▸ sticks)
  exact judged.imp (owner.symm.trans ·) fun owns j found =>
    owns j (lookup_of_removeEntry found)

/-- Whatever a user does, what others own is kept. -/
theorem perform_keeps {operation : Operation I Name C}
    (h : perform fs user operation = some fs') :
    KeepsOthers (Owns fs user) user fs fs' := by
  cases operation with
  | create directory name fresh mode node =>
      simp only [perform, Option.ite_none_right_eq_some, Option.some.injEq] at h
      obtain ⟨⟨change, -, free, -⟩, rfl⟩ := h
      refine (keepsOthers_put free).trans (keepsOthers_addEntry fun n held => ?_)
      by_cases same : directory = fresh
      · simp only [Fs.put, if_pos same] at held
        cases held
        exact .inl rfl
      · exact change.writable n (by simpa [Fs.put, same] using held)
  | link directory name i =>
      simp only [perform, Option.ite_none_right_eq_some, Option.some.injEq] at h
      obtain ⟨allowed, rfl⟩ := h
      exact keepsOthers_addEntry allowed.1.writable
  | unlink directory name =>
      simp only [perform] at h
      split at h
      · cases h
      · next i found =>
        simp only [Option.ite_none_right_eq_some, Option.some.injEq] at h
        obtain ⟨allowed, rfl⟩ := h
        exact keepsOthers_removeEntry allowed.1.1.writable (allowed.1.sticky found)
  | rename source name destination name' =>
      simp only [perform] at h
      split at h
      · cases h
      · next i found =>
        simp only [Option.ite_none_right_eq_some, Option.some.injEq] at h
        obtain ⟨⟨takes, change, replaces⟩, rfl⟩ := h
        have sticky : ∀ n, fs.inode destination = some n → Sticky n.mode →
            n.owner = user ∨ ∀ j, fs.lookup destination name' = some j →
            Owns fs user j := by
          intro n held sticks
          cases target : fs.lookup destination name' with
          | none => exact .inr fun j found' => nomatch found'
          | some j => exact target ▸ (replaces j target).sticky target n held sticks
        refine .trans (keepsOthers_removeEntry takes.1.writable (takes.sticky found)) ?_
        refine .trans (keepsOthers_removeEntry (removeEntry_writable change.writable)
          (removeEntry_sticky sticky)) ?_
        exact keepsOthers_addEntry
          (removeEntry_writable (removeEntry_writable change.writable))
  | chmod i mode =>
      simp only [perform, Option.ite_none_right_eq_some, Option.some.injEq] at h
      obtain ⟨owns, rfl⟩ := h
      refine keepsOthers_modify fun n held others => ?_
      obtain ⟨m, held', mine⟩ := owns
      cases held.symm.trans held'
      exact absurd mine others
  | write i content =>
      simp only [perform, Option.ite_none_right_eq_some, Option.some.injEq] at h
      obtain ⟨allowed, rfl⟩ := h
      refine keepsOthers_modify fun n held others => ?_
      obtain ⟨m, held', isFile, writable⟩ := allowed
      cases held.symm.trans held'
      refine ⟨rfl, rfl, fun tight => absurd (writable.resolve_left others) tight, ?_⟩
      intro l entries
      simp [Inode.content_eq_none_of_entries entries] at isFile

/-! ## What an operation leaves of every inode -/

/-- Two inodes are of one kind: directories, files, or links to one target. -/
def SameKind (n n' : Inode I Name C) : Prop :=
  n'.entries.isSome = n.entries.isSome ∧ n'.content.isSome = n.content.isSome ∧
  n'.target = n.target

omit [DecidableEq Name] [DecidableEq I] in
theorem sameKind_directory {n : Inode I Name C} (dir : n.entries.isSome = true)
    (l : List (Name × I)) : SameKind n { n with node := .directory l } := by
  cases node : n.node <;> simp_all [SameKind, Inode.entries, Inode.content, Inode.target]

omit [DecidableEq Name] [DecidableEq I] in
theorem sameKind_file {n : Inode I Name C} (file : n.content.isSome = true)
    (content : C) : SameKind n { n with node := .file content } := by
  cases node : n.node <;> simp_all [SameKind, Inode.entries, Inode.content, Inode.target]

omit [DecidableEq Name] [DecidableEq I] in
theorem SameKind.trans {n n' n'' : Inode I Name C} (h : SameKind n n')
    (h' : SameKind n' n'') : SameKind n n'' :=
  ⟨h'.1.trans h.1, h'.2.1.trans h.2.1, h'.2.2.trans h.2.2⟩

def KeepsKinds (fs fs' : Fs I Name C) : Prop :=
  ∀ i n, fs.inode i = some n → ∃ n', fs'.inode i = some n' ∧ SameKind n n'

omit [DecidableEq Name] [DecidableEq I] in
theorem KeepsKinds.trans (h : KeepsKinds fs fs') (h' : KeepsKinds fs' fs'') :
    KeepsKinds fs fs'' := by
  intro i n held
  obtain ⟨n', held', same⟩ := h i n held
  obtain ⟨n'', held'', same'⟩ := h' i n' held'
  exact ⟨n'', held'', same.trans same'⟩

omit [DecidableEq Name] in
theorem keepsKinds_modify {i : I} {f : Inode I Name C → Inode I Name C}
    (h : ∀ n, fs.inode i = some n → SameKind n (f n)) :
      KeepsKinds fs (fs.modify i f) := by
  intro j n held
  by_cases same : j = i
  · subst same
    exact ⟨f n, by simp [Fs.modify, held], h n held⟩
  · exact ⟨n, by simp [Fs.modify, same, held], rfl, rfl, rfl⟩

omit [DecidableEq Name] in
theorem keepsKinds_put {i : I} {n : Inode I Name C} (fresh : (fs.inode i).isNone) :
    KeepsKinds fs (fs.put i n) := by
  intro j m held
  have other : j ≠ i := by
    rintro rfl
    simp [held] at fresh
  exact ⟨m, by simp [Fs.put, other, held], rfl, rfl, rfl⟩

omit [DecidableEq Name] [DecidableEq I] in
/-- A directory stays one where every inode keeps its kind. -/
theorem KeepsKinds.directory (h : KeepsKinds fs fs') {d : I}
    (change : MayChange fs user d) :
      ∀ n, fs'.inode d = some n → n.entries.isSome = true := by
  intro n held
  obtain ⟨m, there, dir, -⟩ := change
  obtain ⟨n', held', same, -⟩ := h d m there
  cases held.symm.trans held'
  exact same.trans dir

/-- No operation makes something else of an inode that is there. -/
theorem perform_keepsKinds {operation : Operation I Name C}
    (h : perform fs user operation = some fs') : KeepsKinds fs fs' := by
  cases operation with
  | create directory name fresh mode node =>
      simp only [perform, Option.ite_none_right_eq_some, Option.some.injEq] at h
      obtain ⟨⟨change, -, free, -⟩, rfl⟩ := h
      have put : KeepsKinds fs (fs.put fresh ⟨user, mode, node⟩) := keepsKinds_put free
      exact put.trans (keepsKinds_modify fun n held =>
        sameKind_directory (put.directory change n held) _)
  | link directory name i =>
      simp only [perform, Option.ite_none_right_eq_some, Option.some.injEq] at h
      obtain ⟨⟨⟨m, there, dir, -⟩, -⟩, rfl⟩ := h
      refine keepsKinds_modify fun n held => sameKind_directory ?_ _
      cases held.symm.trans there
      exact dir
  | unlink directory name =>
      simp only [perform] at h
      split at h
      · cases h
      · simp only [Option.ite_none_right_eq_some, Option.some.injEq] at h
        obtain ⟨⟨⟨⟨m, there, dir, -⟩, -⟩, -⟩, rfl⟩ := h
        refine keepsKinds_modify fun n held => sameKind_directory ?_ _
        cases held.symm.trans there
        exact dir
  | rename source name destination name' =>
      simp only [perform] at h
      split at h
      · cases h
      · simp only [Option.ite_none_right_eq_some, Option.some.injEq] at h
        obtain ⟨⟨takes, change, -⟩, rfl⟩ := h
        have removed : KeepsKinds fs (fs.removeEntry source name) := by
          refine keepsKinds_modify fun n held => sameKind_directory ?_ _
          obtain ⟨m, there, dir, -⟩ := takes.1
          cases held.symm.trans there
          exact dir
        have replaced :=
          removed.trans (keepsKinds_modify (i := destination) (f := fun n =>
            { n with node := .directory ((n.entries.getD []).filter (·.1 ≠ name')) })
            fun n held => sameKind_directory (removed.directory change n held) _)
        exact replaced.trans (keepsKinds_modify fun n held =>
          sameKind_directory (replaced.directory change n held) _)
  | chmod i mode =>
      simp only [perform, Option.ite_none_right_eq_some, Option.some.injEq] at h
      obtain ⟨-, rfl⟩ := h
      exact keepsKinds_modify fun n held => ⟨rfl, rfl, rfl⟩
  | write i content =>
      simp only [perform, Option.ite_none_right_eq_some, Option.some.injEq] at h
      obtain ⟨⟨m, there, isFile, -⟩, rfl⟩ := h
      refine keepsKinds_modify fun n held => sameKind_file ?_ content
      cases held.symm.trans there
      exact isFile

/-! ## Chains that stand -/

/-- A directory in which no foreign user can take away an entry that no foreign user
owns. -/
structure SafeDirectory (foreign : UInt32 → Prop) (n : Inode I Name C) : Prop where
  directory : ∃ l, n.entries = some l
  owner : ¬ foreign n.owner
  mode : Sticky n.mode ∨ ¬ Loose n.mode

/-- Every directory on the way to the place, the place included, is a safe one. -/
def Guarded (foreign : UInt32 → Prop) (fs : Fs I Name C) : Place I Name → Prop
  | [] => ∃ n, fs.inode fs.root = some n ∧ SafeDirectory foreign n
  | (name, i) :: rest =>
      Guarded foreign fs rest ∧
        ∃ n, fs.child (fs.here rest) name = some (i, n) ∧ SafeDirectory foreign n

def ByForeign (foreign : UInt32 → Prop) (_ : Fs I Name C) (a : Action I Name C) : Prop :=
  foreign a.user

variable {foreign : UInt32 → Prop} {place : Place I Name}
  {actions : List (Action I Name C)}

omit [DecidableEq I] in
theorem Fs.child_eq_some_iff {d i : I} {name : Name} {n : Inode I Name C} :
    fs.child d name = some (i, n) ↔ fs.lookup d name = some i ∧ fs.inode i = some n := by
  simp only [child, Option.bind_eq_some_iff, Option.map_eq_some_iff, Prod.mk.injEq]
  constructor
  · rintro ⟨j, found, m, held, rfl, rfl⟩
    exact ⟨found, held⟩
  · intro h
    exact ⟨i, h.1, n, h.2, rfl, rfl⟩

omit [DecidableEq I] in
theorem Guarded.here (h : Guarded foreign fs place) :
    ∃ n, fs.inode (fs.here place) = some n ∧ SafeDirectory foreign n := by
  cases place with
  | nil => exact h
  | cons entry rest =>
      obtain ⟨-, n, child, safe⟩ := h
      exact ⟨n, (Fs.child_eq_some_iff.mp child).2, safe⟩

omit [DecidableEq I] in
theorem Guarded.chain (h : Guarded foreign fs place) : Chain fs place := by
  induction place with
  | nil => trivial
  | cons entry rest ih =>
      obtain ⟨below, n, child, safe⟩ := h
      obtain ⟨l, entries⟩ := safe.directory
      exact ⟨ih below, n, child, Inode.target_eq_none_of_entries entries⟩

omit [DecidableEq I] in
/-- Guarding is a matter of each directory on the way. -/
theorem guarded_iff : Guarded foreign fs place ↔ Chain fs place ∧ ∀ rest, rest <:+ place →
    ∃ n, fs.inode (fs.here rest) = some n ∧ SafeDirectory foreign n := by
  constructor
  · intro h
    refine ⟨h.chain, fun rest suffix => ?_⟩
    induction place with
    | nil =>
        obtain rfl := List.suffix_nil.mp suffix
        exact h
    | cons entry place ih =>
        obtain rfl | shorter := List.suffix_cons_iff.mp suffix
        · exact h.here
        · exact ih h.1 shorter
  · intro ⟨chain, safe⟩
    induction place with
    | nil => exact safe [] (List.suffix_refl _)
    | cons entry place ih =>
        obtain ⟨name, i⟩ := entry
        obtain ⟨below, n, child, -⟩ := chain
        obtain ⟨m, held, safe'⟩ := safe _ (List.suffix_refl _)
        cases (Fs.child_eq_some_iff.mp child).2.symm.trans held
        refine ⟨ih below fun rest suffix => ?_, n, child, safe'⟩
        exact safe rest (suffix.trans (List.suffix_cons _ _))

omit [DecidableEq I] in
theorem SafeDirectory.keeps {n n' : Inode I Name C} (h : SafeDirectory foreign n)
    (kept : Keeps owned n n') : SafeDirectory foreign n' where
  directory := by
    obtain ⟨l, entries⟩ := h.directory
    obtain ⟨l', entries', -⟩ := kept.entries l entries
    exact ⟨l', entries'⟩
  owner := kept.owner ▸ h.owner
  mode := kept.mode ▸ h.mode

/-- A safe directory keeps its entries that no foreign user owns. -/
theorem lookup_act {d i : I} {name : Name} {n m : Inode I Name C} {a : Action I Name C}
    (by_foreign : foreign a.user) (h : act fs a = some fs') (held : fs.inode d = some n)
    (safe : SafeDirectory foreign n) (found : fs.lookup d name = some i)
    (entry : fs.inode i = some m) (trusted : ¬ foreign m.owner) :
      fs'.lookup d name = some i := by
  have others {k : Inode I Name C} (own : ¬ foreign k.owner) : k.owner ≠ a.user :=
    fun same => own (same ▸ by_foreign)
  obtain ⟨-, keeps⟩ := perform_keeps h
  obtain ⟨n', held', kept⟩ := keeps d n held (others safe.owner)
  obtain ⟨l, entries⟩ := safe.directory
  obtain ⟨l', entries', sticks⟩ := kept.entries l entries
  have listed : l.lookup name = some i := by
    simpa [Fs.lookup, Fs.entries, held, entries] using found
  have listed' : l'.lookup name = some i := by
    obtain sticky | tight := safe.mode
    · refine sticks sticky name i listed fun mine => ?_
      obtain ⟨k, held'', owns⟩ := mine
      cases entry.symm.trans held''
      exact others trusted owns
    · have same : n'.entries = n.entries := by
        rw [Inode.entries, Inode.entries, kept.node tight]
      cases entries'.symm.trans (same.trans entries)
      exact listed
  simpa [Fs.lookup, Fs.entries, held', entries'] using listed'

theorem Guarded.act {a : Action I Name C} (by_foreign : foreign a.user)
    (h : UnixFs.act fs a = some fs') (guarded : Guarded foreign fs place) :
    Guarded foreign fs' place := by
  obtain ⟨root, keeps⟩ := perform_keeps h
  have others {k : Inode I Name C} (safe : SafeDirectory foreign k) : k.owner ≠ a.user :=
    fun same => safe.owner (same ▸ by_foreign)
  induction place with
  | nil =>
      obtain ⟨n, held, safe⟩ := guarded
      obtain ⟨n', held', kept⟩ := keeps fs.root n held (others safe)
      exact ⟨n', root ▸ held', safe.keeps kept⟩
  | cons entry rest ih =>
      obtain ⟨name, i⟩ := entry
      obtain ⟨below, n, child, safe⟩ := guarded
      obtain ⟨found, held⟩ := Fs.child_eq_some_iff.mp child
      obtain ⟨d, dir, safeDir⟩ := below.here
      obtain ⟨n', held', kept⟩ := keeps i n held (others safe)
      have here : fs'.here rest = fs.here rest := by cases rest <;> simp [Fs.here, root]
      have found' := lookup_act by_foreign h dir safeDir found held safe.owner
      exact ⟨ih below, n', Fs.child_eq_some_iff.mpr ⟨here ▸ found', held'⟩,
        safe.keeps kept⟩

open Transition in
/-- A guarded chain stands through every run of foreign users. -/
theorem Guarded.run (run : Run UnixFs.act (ByForeign foreign) fs actions fs')
    (guarded : Guarded foreign fs place) : Guarded foreign fs' place :=
  run.invariant (I := fun t => Guarded foreign t place)
    (fun _ _ _ held by_foreign taken => Guarded.act by_foreign taken held) guarded

open Transition in
theorem root_run (run : Run UnixFs.act (ByForeign foreign) fs actions fs') :
    fs'.root = fs.root :=
  run.invariant (I := fun t => t.root = fs.root)
    (fun _ _ _ same _ taken => (perform_keeps taken).1.trans same) rfl

open Transition in
/-- Through every run of foreign users, an inode that none of them owns keeps its owner
and mode, and keeps what it holds where its mode is tight. -/
theorem inode_run (run : Run UnixFs.act (ByForeign foreign) fs actions fs') {i : I}
    {n : Inode I Name C} (held : fs.inode i = some n) (trusted : ¬ foreign n.owner) :
    ∃ n', fs'.inode i = some n' ∧ n'.owner = n.owner ∧ n'.mode = n.mode ∧
      (¬ Loose n.mode → n'.node = n.node) := by
  refine run.invariant (I := fun t => ∃ n', t.inode i = some n' ∧ n'.owner = n.owner ∧
    n'.mode = n.mode ∧ (¬ Loose n.mode → n'.node = n.node))
    (fun t a u now by_foreign taken => ?_) ⟨n, held, rfl, rfl, fun _ => rfl⟩
  obtain ⟨n', held', owner, mode, node⟩ := now
  have others : n'.owner ≠ a.user := fun same => trusted (owner ▸ same ▸ by_foreign)
  obtain ⟨n'', held'', kept⟩ := (perform_keeps taken).2 i n' held' others
  refine ⟨n'', held'', kept.owner.trans owner, kept.mode.trans mode, fun tight => ?_⟩
  exact (kept.node (mode ▸ tight)).trans (node tight)

open Transition in
/-- Through every run of foreign users, the directory at the end of a guarded chain keeps
its entries that none of them owns. -/
theorem Guarded.lookup_run (run : Run UnixFs.act (ByForeign foreign) fs actions fs')
    (guarded : Guarded foreign fs place) {name : Name} {i : I} {n : Inode I Name C}
    (child : fs.child (fs.here place) name = some (i, n)) (trusted : ¬ foreign n.owner) :
    fs'.lookup (fs'.here place) name = some i := by
  obtain ⟨found, held⟩ := Fs.child_eq_some_iff.mp child
  have stands : Guarded foreign fs' place ∧ fs'.lookup (fs'.here place) name = some i ∧
      ∃ m, fs'.inode i = some m ∧ m.owner = n.owner := by
    refine run.invariant (I := fun t => Guarded foreign t place ∧
      t.lookup (t.here place) name = some i ∧ ∃ m, t.inode i = some m ∧ m.owner = n.owner)
      (fun t a u now by_foreign taken => ?_) ⟨guarded, found, n, held, rfl⟩
    obtain ⟨guards, there, m, holds, owner⟩ := now
    obtain ⟨d, dir, safe⟩ := guards.here
    obtain ⟨root, keeps⟩ := perform_keeps taken
    have trusted' : ¬ foreign m.owner := owner ▸ trusted
    have others : m.owner ≠ a.user := fun same => trusted' (same ▸ by_foreign)
    obtain ⟨m', holds', kept⟩ := keeps i m holds others
    have here : u.here place = t.here place := by cases place <;> simp [Fs.here, root]
    have there' := lookup_act by_foreign taken dir safe there holds trusted'
    exact ⟨guards.act by_foreign taken, here ▸ there', m', holds', kept.owner.trans owner⟩
  exact stands.2.1

/-! ## What stands at the end of a guarded chain -/

/-- The inode a place names, which no foreign user owns and which a guarded chain leads
to. -/
structure Anchored (foreign : UInt32 → Prop) (fs : Fs I Name C) (place : Place I Name)
    (n : Inode I Name C) : Prop where
  held : fs.inode (fs.here place) = some n
  owner : ¬ foreign n.owner
  way : ∀ entry rest, place = entry :: rest →
    Guarded foreign fs rest ∧ fs.lookup (fs.here rest) entry.1 = some entry.2

variable {n : Inode I Name C}

omit [DecidableEq I] [DecidableEq Name] in
theorem here_of_root {fs' : Fs I Name C} (root : fs'.root = fs.root)
    (place : Place I Name) : fs'.here place = fs.here place := by
  cases place with
  | nil => exact root
  | cons entry rest => rfl

omit [DecidableEq I] in
theorem Anchored.chain (anchored : Anchored foreign fs place n)
    (plain : n.target = none) : Chain fs place := by
  cases place with
  | nil => trivial
  | cons entry rest =>
      obtain ⟨guarded, found⟩ := anchored.way entry rest rfl
      exact ⟨guarded.chain, n, Fs.child_eq_some_iff.mpr ⟨found, anchored.held⟩, plain⟩

/-- An action of a foreign user leaves the place, and the owner, mode and kind of its
inode. -/
theorem Anchored.act {a : Action I Name C} (by_foreign : foreign a.user)
    (taken : UnixFs.act fs a = some fs') (anchored : Anchored foreign fs place n) :
    ∃ n', Anchored foreign fs' place n' ∧ n'.owner = n.owner ∧ n'.mode = n.mode ∧
      (¬ Loose n.mode → n'.node = n.node) ∧ SameKind n n' := by
  obtain ⟨root, keeps⟩ := perform_keeps taken
  have others : n.owner ≠ a.user := fun same => anchored.owner (same ▸ by_foreign)
  obtain ⟨n', held', kept⟩ := keeps _ n anchored.held others
  obtain ⟨m, there, kind⟩ := perform_keepsKinds taken _ n anchored.held
  obtain rfl : n' = m := Option.some.inj (held'.symm.trans there)
  refine ⟨n', ⟨?_, kept.owner ▸ anchored.owner, ?_⟩, kept.owner, kept.mode,
    kept.node, kind⟩
  · rw [here_of_root root place]
    exact held'
  · intro entry rest same
    subst same
    obtain ⟨guarded, found⟩ := anchored.way entry rest rfl
    obtain ⟨d, dir, safe⟩ := guarded.here
    rw [here_of_root root rest]
    exact ⟨guarded.act by_foreign taken,
      lookup_act by_foreign taken dir safe found anchored.held anchored.owner⟩

/-- A change to an inode that is no directory leaves every directory as it was. -/
theorem lookup_modify {i d : I} {name : Name} {f : Inode I Name C → Inode I Name C}
    (held : fs.inode i = some n) (plain : n.entries = none)
    (other : (f n).entries = none) :
    (fs.modify i f).lookup d name = fs.lookup d name := by
  by_cases same : d = i
  · subst same
    simp [Fs.lookup, Fs.entries, Fs.modify, held, plain, other]
  · simp [Fs.lookup, Fs.entries, Fs.modify, same]

theorem Guarded.modify {i : I} {f : Inode I Name C → Inode I Name C}
    (held : fs.inode i = some n) (plain : n.entries = none) (other : (f n).entries = none)
    (guarded : Guarded foreign fs place) : Guarded foreign (fs.modify i f) place := by
  have stays {j : I} {m : Inode I Name C} (there : fs.inode j = some m)
      (safe : SafeDirectory foreign m) : (fs.modify i f).inode j = some m := by
    have apart : j ≠ i := by
      rintro rfl
      obtain ⟨l, entries⟩ := safe.directory
      cases held.symm.trans there
      cases plain.symm.trans entries
    simp [Fs.modify, apart, there]
  induction place with
  | nil =>
      obtain ⟨m, there, safe⟩ := guarded
      exact ⟨m, stays there safe, safe⟩
  | cons entry rest ih =>
      obtain ⟨below, m, child, safe⟩ := guarded
      obtain ⟨found, there⟩ := Fs.child_eq_some_iff.mp child
      refine ⟨ih below, m, Fs.child_eq_some_iff.mpr ⟨?_, stays there safe⟩, safe⟩
      rw [lookup_modify held plain other, here_of_root rfl rest]
      exact found

/-- A change to the named file itself leaves its place. -/
theorem Anchored.modify {f : Inode I Name C → Inode I Name C} (plain : n.entries = none)
    (other : (f n).entries = none) (owner : (f n).owner = n.owner)
    (anchored : Anchored foreign fs place n) :
    Anchored foreign (fs.modify (fs.here place) f) place (f n) where
  held := by
    have stays : (fs.modify (fs.here place) f).here place = fs.here place :=
      here_of_root rfl place
    rw [stays]
    simp [Fs.modify, anchored.held]
  owner := owner ▸ anchored.owner
  way entry rest same := by
    subst same
    obtain ⟨guarded, found⟩ := anchored.way entry rest rfl
    refine ⟨guarded.modify anchored.held plain other, ?_⟩
    rw [lookup_modify anchored.held plain other, here_of_root rfl rest]
    exact found

omit [DecidableEq Name] [DecidableEq I] in
/-- Nobody but the owner reads or writes an inode whose mode gives nobody else
anything. -/
theorem not_mayRead_of_tight {i : I} {n : Inode I Name C} (held : fs.inode i = some n)
    (others : n.owner ≠ user) (tight : ¬ Exposed n.mode) : ¬ MayRead fs user i := by
  rintro ⟨m, held', -, allowed⟩
  cases held.symm.trans held'
  exact allowed.elim others tight

omit [DecidableEq Name] [DecidableEq I] in
theorem not_mayWrite_of_tight {i : I} {n : Inode I Name C} (held : fs.inode i = some n)
    (others : n.owner ≠ user) (tight : ¬ Loose n.mode) : ¬ MayWrite fs user i := by
  rintro ⟨m, held', -, allowed⟩
  cases held.symm.trans held'
  exact allowed.elim others tight

end UnixFs
