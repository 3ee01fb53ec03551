import NonoCedarPdp.IsolationSoundness

/-!
Policy files behind symbolic links. The check judges the file a link leads to, and the
directories above the policy directory; the directories a link leads through are never
looked at, so a policy is reached through trusted directories exactly when the walk
would have accepted them.
-/
namespace NonoCedarPdp
open UnixFs Transition

section Links
variable {I : Type} (fs : HostFs I) (cwd : Place I OsString) (euid : UInt32)

/-- A path whose file nobody else can rewrite, below directories in which nobody else
can put another one in its place. -/
def TrustedThroughChain (p : Path) : Prop :=
  ∃ entry place n, locate fs cwd p = .ok (entry :: place) ∧ fs.inode entry.2 = some n ∧
    n.content.isSome = true ∧ ¬ Foreign euid n.owner ∧ ¬ Loose n.mode ∧
      Guarded (Foreign euid) fs place

/-- The ancestor walk would accept the canonical path of every link the loader reads
through. -/
def LinksWalked (policyDir : Path) : Prop :=
  ∀ name, Loadable (view fs cwd) policyDir name → LinkEntry fs cwd policyDir name →
    ∀ r, (view fs cwd).canonicalize (policyDir.push name) = .ok r →
      refuseOnUntrustedAncestors (view fs cwd) "policy file"
        "ancestor of the policy file" r euid = .ok ()

variable {fs cwd euid} {place : Place I OsString} {dir p : Path} {name : OsString}

theorem isFile_of_skipReason {view : FsView} (h : policyFileSkipReason view p = none) :
    view.isFile p = true := by
  simp only [policyFileSkipReason] at h
  split at h
  · cases h
  · split at h
    · cases h
    · split at h
      · assumption
      · cases h

theorem Loadable.canonical (loadable : Loadable (view fs cwd) dir name)
    (found : locate fs cwd dir = .ok place) :
      Loadable (view fs cwd) (pathOf place) name := by
  obtain ⟨⟨entries, listed, mem⟩, cedar, loads⟩ := loadable
  have root := locate_canonical found []
  have same : inodeAt fs cwd ((pathOf place).push name) =
      inodeAt fs cwd (dir.push name) := by
    rw [inodeAt, inodeAt, locate_push_canonical found]
  have metadata : (view fs cwd).metadata ((pathOf place).push name) =
      (view fs cwd).metadata (dir.push name) := congrArg (Except.map inodeMetadata) same
  refine ⟨⟨entries, ?_, mem⟩, by simpa [Path.extension] using cedar, ?_⟩
  · have listing : inodeAt fs cwd (pathOf place) = inodeAt fs cwd dir := by
      simp only [Path.pushAll, List.map_nil, List.append_nil] at root
      rw [inodeAt, inodeAt, root]
    exact (congrArg (Except.bind · inodeListing) listing).trans listed
  · rw [isLoadablePolicyFile, policyFileSkipReason_congr (by simp) metadata]
    exact loads

/-- What a passed check says of every entry the loader reads. -/
theorem file_of_loadable
    (accepted : refuseUntrustedPolicyDirAs (view fs cwd) dir euid = .ok ())
    (found : locate fs cwd dir = .ok place) (loadable : Loadable (view fs cwd) dir name) :
    ∃ entry above n, locate fs cwd (dir.push name) = .ok (entry :: above) ∧
      fs.inode entry.2 = some n ∧ n.content.isSome = true ∧ ¬ Foreign euid n.owner ∧
        ¬ Loose n.mode := by
  obtain ⟨guarded, -, trusted⟩ := (refuseUntrustedPolicyDirAs_view_iff found).mp accepted
  have loads := loadable.canonical found
  obtain ⟨n, held, owner, tight⟩ := trustedFile_view_iff.mp (trusted name loads)
  obtain ⟨there, reached, inode⟩ := inodeAt_eq_ok_iff.mp held
  have isFile := isFile_of_skipReason (Option.isNone_iff_eq_none.mp loads.2.2)
  have content : n.content.isSome = true := by
    rw [FsView.isFile, metadata_view_eq_ok_iff.mpr ⟨n, held, rfl⟩] at isFile
    exact isFile
  rw [locate_push_canonical found] at reached
  cases there with
  | nil =>
      obtain ⟨root, heldRoot, safe⟩ := (guarded_iff.mp guarded).2 [] (List.nil_suffix)
      cases inode.symm.trans heldRoot
      obtain ⟨l, isDir⟩ := safe.directory
      simp [Inode.content_eq_none_of_entries isDir] at content
  | cons entry above => exact ⟨entry, above, n, reached, inode, content, owner, tight⟩

theorem locate_of_loadable (loadable : Loadable (view fs cwd) dir name) :
    ∃ place, locate fs cwd dir = .ok place := by
  obtain ⟨⟨entries, listed, -⟩, -⟩ := loadable
  obtain ⟨n, l, held, -⟩ := readDir_view_eq_ok_iff.mp listed
  obtain ⟨place, found, -⟩ := inodeAt_eq_ok_iff.mp held
  exact ⟨place, found⟩

/-- An entry that is no link is reached through the directory's own chain. -/
theorem locate_plain {i : I} {n : Inode I OsString (List UInt8)}
    (found : locate fs cwd dir = .ok place)
    (child : fs.child (fs.here place) name = some (i, n)) (plain : n.target = none) :
      locate fs cwd (dir.push name) = .ok ((name, i) :: place) := by
  have longer : Chain fs ((name, i) :: place) := ⟨chain_of_locate found, n, child, plain⟩
  rw [← locate_push_canonical found, push_pathOf name i]
  exact locate_pathOf longer

theorem child_of_locate_push {there : Place I OsString}
    (found : locate fs cwd dir = .ok place)
    (reached : locate fs cwd (dir.push name) = .ok there) :
    ∃ i n, fs.child (fs.here place) name = some (i, n) := by
  have steps : locate fs cwd ((pathOf place).pushAll [name]) = _ :=
    locate_pushAll (pathOf_ne_empty place) [name]
  rw [locate_pathOf (chain_of_locate found)] at steps
  have whole : (pathOf place).pushAll [name] = (pathOf place).push name := by
    simp [Path.pushAll, Path.push]
  rw [whole, locate_push_canonical found, reached, Except.bind, downs,
    List.map_cons, List.map_nil, resolve_cons] at steps
  cases moved : fs.next place (.down name) with
  | error e => rw [moved] at steps; cases steps
  | ok next =>
      obtain ⟨⟨⟩, -⟩ | ⟨_, i, n, same, child, -⟩ := Fs.next_cases moved
      cases same
      exact ⟨i, n, child⟩

end Links

def linkedName : OsString := Utf8.encode "99-linked.cedar"

theorem loadable_linked : Loadable (view smallHost []) smallPolicyDir linkedName := by
  have held : inodeAt smallHost [] (smallPolicyDir.push linkedName) = .ok
      ⟨1000, 0o600, .file (Utf8.encode "forbid (principal, action, resource);")⟩ :=
    inodeAt_eq_ok_iff.mpr ⟨_, locate_small_linked, rfl⟩
  have isFile : (view smallHost []).isFile (smallPolicyDir.push linkedName) = true := by
    rw [FsView.isFile, metadata_view_eq_ok_iff.mpr ⟨_, held, rfl⟩]
    rfl
  refine ⟨⟨_, readDir_view_eq_ok_iff.mpr
    ⟨_, _, (inodeAt_pathOf_iff guarded_small.chain).mpr rfl, rfl,
      rfl⟩, by decide +kernel⟩,
    by decide +kernel, ?_⟩
  have name : (smallPolicyDir.push linkedName).fileName.bind Utf8.decode? =
      some "99-linked.cedar" := by
    decide +kernel
  simp only [isLoadablePolicyFile, policyFileSkipReason, name, isFile, if_true]
  decide +kernel

theorem not_trusted_linked :
    ¬ TrustedThroughChain smallHost [] 1000 (smallPolicyDir.push linkedName) := by
  rintro ⟨entry, place, n, found, -, -, -, -, guarded⟩
  cases locate_small_linked.symm.trans found
  obtain ⟨m, held, safe⟩ := guarded.here
  cases held
  exact safe.owner (by simp [Foreign])

def smallUnlink : Action Nat OsString (List UInt8) :=
  ⟨1001, .unlink 5 (Utf8.encode "linked.cedar")⟩

def smallPlant : Action Nat OsString (List UInt8) :=
  ⟨1001, .create 5 (Utf8.encode "linked.cedar") 9 0o600
    (.file (Utf8.encode "permit (principal, action, resource);"))⟩

def smallUnlinked : HostFs Nat := smallHost.removeEntry 5 (Utf8.encode "linked.cedar")

def smallPlanted : HostFs Nat :=
  (smallUnlinked.put 9
    ⟨1001, 0o600, .file (Utf8.encode "permit (principal, action, resource);")⟩).addEntry
    5 (Utf8.encode "linked.cedar") 9

theorem act_smallUnlink : act smallHost smallUnlink = some smallUnlinked := by
  have found : smallHost.lookup 5 (Utf8.encode "linked.cedar") = some 6 := by
    decide +kernel
  simp only [act, perform, smallUnlink, found]
  exact if_pos (by decide +kernel)

theorem act_smallPlant : act smallUnlinked smallPlant = some smallPlanted := by
  simp only [act, perform, smallPlant]
  exact if_pos (by decide +kernel)

theorem readToString_smallPlanted :
    (view smallPlanted []).readToString (smallPolicyDir.push linkedName) =
      .ok "permit (principal, action, resource);" := by
  have found : resolve smallPlanted [] (smallPolicyDir.push linkedName).steps =
      .ok [(Utf8.encode "linked.cedar", 9), (Utf8.encode "shared", 5)] :=
    resolve_of_within 5 (by decide +kernel)
  have place : locate smallPlanted [] (smallPolicyDir.push linkedName) =
      .ok [(Utf8.encode "linked.cedar", 9), (Utf8.encode "shared", 5)] := by
    rw [locate_absolute rfl, found]
    rfl
  have held : inodeAt smallPlanted [] (smallPolicyDir.push linkedName) = .ok
      ⟨1001, 0o600, .file (Utf8.encode "permit (principal, action, resource);")⟩ :=
    inodeAt_eq_ok_iff.mpr ⟨_, place, rfl⟩
  show (inodeAt smallPlanted [] _).bind inodeText = _
  rw [held]
  decide +kernel

end NonoCedarPdp
