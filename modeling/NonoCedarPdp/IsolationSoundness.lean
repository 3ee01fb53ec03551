import NonoCedarPdp.Lib.UnixPermission
import NonoCedarPdp.TrustCheck
import NonoCedarPdp.UnixView
import NonoCedarPdp.WatcherRun

/-!
The trust check against the permissions of a Unix kernel. The check on a canonical
directory accepts exactly the guarded chains that end at a tight directory of trusted
files, so no run of other local users moves the chain, the listing or a regular policy
file. A policy behind a symbolic link is reached through a chain the check never walks.
-/
namespace NonoCedarPdp
open UnixFs Transition

/-- A local user other than the daemon's and root. -/
def Foreign (euid user : UInt32) : Prop := user ≠ euid ∧ user ≠ 0

theorem foreignOwner_eq_none_iff_not_foreign {owner euid : UInt32} :
    foreignOwner owner euid = none ↔ ¬ Foreign euid owner := by
  rw [foreignOwner_eq_none_iff, Foreign]
  by_cases own : owner = euid <;> simp [own]

theorem looseWriters_masked (mode : UInt32) :
    looseWriters (mode &&& 0o7777) = none ↔ ¬ Loose mode := by
  rw [looseWriters_eq_none_iff, (permission_bits mode).1, Loose, not_not]

theorem looseAncestorWriters_masked (mode : UInt32) :
    looseAncestorWriters (mode &&& 0o7777) = none ↔ Sticky mode ∨ ¬ Loose mode := by
  rw [looseAncestorWriters_eq_none_iff, (permission_bits mode).1,
    (permission_bits mode).2, Sticky, Loose, not_not]

section View
variable {I : Type} {fs : HostFs I} {cwd place : Place I OsString} {p : Path}
  {euid : UInt32}

theorem trustedFile_view_iff : TrustedFile (view fs cwd) euid p ↔
    ∃ n, inodeAt fs cwd p = .ok n ∧ ¬ Foreign euid n.owner ∧ ¬ Loose n.mode := by
  simp only [TrustedFile, metadata_view_eq_ok_iff]
  constructor
  · rintro ⟨_, ⟨n, held, rfl⟩, owner, mode⟩
    exact ⟨n, held, foreignOwner_eq_none_iff_not_foreign.mp owner,
      (looseWriters_masked _).mp mode⟩
  · rintro ⟨n, held, owner, mode⟩
    exact ⟨_, ⟨n, held, rfl⟩, foreignOwner_eq_none_iff_not_foreign.mpr owner,
      (looseWriters_masked _).mpr mode⟩

/-! ## The walk over a canonical path -/

theorem acceptedAncestor_pathOf_iff (chain : Chain fs place)
    {n : Inode I OsString (List UInt8)} {l : List (OsString × I)}
    (held : fs.inode (fs.here place) = some n) (dir : n.entries = some l) :
    AcceptedAncestor (view fs cwd) euid (pathOf place) ↔
      SafeDirectory (Foreign euid) n := by
  have found : (view fs cwd).metadata (pathOf place) = .ok (inodeMetadata n) :=
    metadata_view_eq_ok_iff.mpr
      ⟨n, inodeAt_eq_ok_iff.mpr ⟨place, locate_pathOf chain, held⟩, rfl⟩
  rw [AcceptedAncestor, found]
  show (n.entries.isSome = true → _ ∧ _) ↔ _
  rw [dir, inodeMetadata, foreignOwner_eq_none_iff_not_foreign,
    looseAncestorWriters_masked]
  constructor
  · intro judged
    obtain ⟨owner, mode⟩ := judged rfl
    exact ⟨⟨l, dir⟩, owner, mode⟩
  · exact fun safe _ => ⟨safe.owner, safe.mode⟩

/-- The ancestor walk over a canonical path accepts the guarded chains. -/
theorem refuseOnUntrustedAncestors_pathOf_iff {what ancestorWhat : String}
    {entry : OsString × I} (chain : Chain fs (entry :: place)) :
    refuseOnUntrustedAncestors (view fs cwd) what ancestorWhat
      (pathOf (entry :: place)) euid =
      .ok () ↔ Guarded (Foreign euid) fs place := by
  have walked : refuseOnUntrustedAncestors (view fs cwd) what ancestorWhat
      (pathOf (entry :: place))
      euid = .ok () ↔ ∀ rest, rest <:+ place →
      AcceptedAncestor (view fs cwd) euid (pathOf rest) := by
    rw [refuseOnUntrustedAncestors, parent_pathOf, walkAncestors_ok_iff]
    constructor
    · intro all rest suffix
      exact all _ (prefix_pathOf_iff.mpr ⟨rest, suffix, rfl⟩) (pathOf_ne_empty rest)
    · intro all components isPrefix _
      obtain ⟨rest, suffix, rfl⟩ := prefix_pathOf_iff.mp isPrefix
      exact all rest suffix
  rw [walked, guarded_iff]
  constructor
  · intro all
    refine ⟨chain.1, fun rest suffix => ?_⟩
    obtain ⟨l, entries⟩ := chain.directories suffix
    obtain ⟨n, held, dir⟩ := Fs.entries_eq_some_iff.mp entries
    exact ⟨n, held, (acceptedAncestor_pathOf_iff (chain.1.suffix suffix) held dir).mp
      (all rest suffix)⟩
  · intro ⟨_, all⟩ rest suffix
    obtain ⟨n, held, safe⟩ := all rest suffix
    obtain ⟨l, dir⟩ := safe.directory
    exact (acceptedAncestor_pathOf_iff (chain.1.suffix suffix) held dir).mpr safe

/-! ## The check on a directory -/

theorem locate_joinedPath (found : locate fs cwd p = .ok place) :
    locate fs cwd (joinedPath (view fs cwd) p none) = .ok place := by
  by_cases absolute : p.absolute = true
  · rw [joinedPath, if_pos absolute]
    exact found
  · have relative : p.absolute = false := by simpa using absolute
    have nonempty : p ≠ .empty := by
      rintro rfl
      simp [locate] at found
    by_cases chain : Chain fs cwd
    · have here : (view fs cwd).currentDir = .ok (pathOf cwd) := if_pos chain
      have joined := locate_join chain relative nonempty []
      rw [joinedPath, if_neg absolute, here]
      simpa [Path.pushAll, found] using joined
    · rw [locate, if_neg nonempty, if_neg absolute, if_neg chain] at found
      cases found

/-- A path that resolves is absolutized to the chain it resolves to. -/
theorem absolutize_of_locate (found : locate fs cwd p = .ok place) :
    absolutize (view fs cwd) p none = pathOf place := by
  have canonical :
      (view fs cwd).canonicalize (joinedPath (view fs cwd) p none) = .ok (pathOf place) :=
    canonicalize_view_eq_ok_iff.mpr ⟨place, locate_joinedPath found, rfl⟩
  rw [absolutize, resolveExisting, canonical]
  simp [Path.pushAll]

/-- A name of a directory that the loader loads through. -/
def Loadable (fs : FsView) (dir : Path) (name : OsString) : Prop :=
  (∃ entries, fs.readDir dir = .ok entries ∧ .ok name ∈ entries) ∧
    (dir.push name).extension = some cedarExtension ∧
      isLoadablePolicyFile fs (dir.push name) = true

theorem inodeAt_pathOf_iff (chain : Chain fs place) {n : Inode I OsString (List UInt8)} :
    inodeAt fs cwd (pathOf place) = .ok n ↔ fs.inode (fs.here place) = some n := by
  rw [inodeAt_eq_ok_iff, locate_pathOf chain]
  simp

theorem inodeAt_push {name : OsString} {i : I} {n : Inode I OsString (List UInt8)}
    (chain : Chain fs place) (child : fs.child (fs.here place) name = some (i, n))
    (plain : n.target = none) : inodeAt fs cwd ((pathOf place).push name) = .ok n := by
  have longer : Chain fs ((name, i) :: place) := ⟨chain, n, child, plain⟩
  rw [push_pathOf name i]
  exact (inodeAt_pathOf_iff longer).mpr (Fs.child_eq_some_iff.mp child).2

/-- A guarded chain is one the walk accepts, with a safe directory at its end. -/
theorem guarded_iff_walk (chain : Chain fs place) {what ancestorWhat : String} :
    Guarded (Foreign euid) fs place ↔
      refuseOnUntrustedAncestors (view fs cwd) what ancestorWhat (pathOf place) euid = .ok () ∧
        ∃ n, fs.inode (fs.here place) = some n ∧ SafeDirectory (Foreign euid) n := by
  cases place with
  | nil =>
      have top : (pathOf ([] : Place I OsString)).parent = none := rfl
      rw [refuseOnUntrustedAncestors, top, walkAncestors]
      simp [Guarded, Fs.here]
  | cons entry place =>
      rw [refuseOnUntrustedAncestors_pathOf_iff chain]
      constructor
      · exact fun guarded => ⟨guarded.1, guarded.here⟩
      · intro accepted
        obtain ⟨above, n, held, safe⟩ := accepted
        obtain ⟨-, m, child, -⟩ := chain
        cases (Fs.child_eq_some_iff.mp child).2.symm.trans held
        exact ⟨above, n, child, safe⟩

theorem entries_trusted_iff {n : Inode I OsString (List UInt8)} {l : List (OsString × I)}
    (chain : Chain fs place) (held : fs.inode (fs.here place) = some n)
    (dir : n.entries = some l) :
    (∃ entries, (view fs cwd).listing (pathOf place) = .ok entries ∧
      refuseUntrustedEntries (view fs cwd) (pathOf place) euid entries = .ok ()) ↔
      ∀ name, Loadable (view fs cwd) (pathOf place) name →
        TrustedFile (view fs cwd) euid ((pathOf place).push name) := by
  have listed : (view fs cwd).readDir (pathOf place) =
      .ok (l.map fun entry => .ok entry.1) :=
    readDir_view_eq_ok_iff.mpr ⟨n, l, (inodeAt_pathOf_iff chain).mpr held, dir, rfl⟩
  constructor
  · rintro ⟨entries, found, accepted⟩ name ⟨⟨found', listed', mem⟩, cedar, loadable⟩
    obtain ⟨found, listed'', rfl⟩ := listing_eq_ok_iff.mp found
    cases listed'.symm.trans listed''
    obtain ⟨q, same, judged⟩ := refuseUntrustedEntries_ok_iff.mp accepted _
      (List.mem_map_of_mem mem)
    cases same
    exact judged cedar (Option.isNone_iff_eq_none.mp loadable)
  · intro all
    refine ⟨_, listing_eq_ok_iff.mpr ⟨_, listed, rfl⟩,
      refuseUntrustedEntries_ok_iff.mpr ?_⟩
    intro entry mem
    obtain ⟨found, inListing, rfl⟩ := List.mem_map.mp mem
    obtain ⟨e, -, rfl⟩ := List.mem_map.mp inListing
    refine ⟨_, rfl, fun cedar loadable => all e.1 ⟨⟨_, listed, inListing⟩, cedar, ?_⟩⟩
    exact Option.isNone_iff_eq_none.mpr loadable

/-- What the check accepts: a guarded chain to a tight directory of trusted policy
files. -/
theorem refuseUntrustedPolicyDirAs_view_iff (found : locate fs cwd p = .ok place) :
    refuseUntrustedPolicyDirAs (view fs cwd) p euid = .ok () ↔
      Guarded (Foreign euid) fs place ∧
        (∃ n, fs.inode (fs.here place) = some n ∧ ¬ Loose n.mode) ∧
        ∀ name, Loadable (view fs cwd) (pathOf place) name →
          TrustedFile (view fs cwd) euid ((pathOf place).push name) := by
  have chain := chain_of_locate found
  rw [refuseUntrustedPolicyDirAs_ok_iff, absolutize_of_locate found, trustedFile_view_iff]
  simp only [inodeAt_pathOf_iff chain]
  constructor
  · rintro ⟨⟨n, held, owner, tight⟩, ⟨entries, listed, accepted⟩, walked⟩
    obtain ⟨names, listed', -⟩ := listing_eq_ok_iff.mp listed
    obtain ⟨m, l, held', dir, -⟩ := readDir_view_eq_ok_iff.mp listed'
    cases held.symm.trans ((inodeAt_pathOf_iff chain).mp held')
    have safe : SafeDirectory (Foreign euid) n := ⟨⟨l, dir⟩, owner, .inr tight⟩
    refine ⟨(guarded_iff_walk chain).mpr ⟨walked, n, held, safe⟩, ⟨n, held, tight⟩, ?_⟩
    exact (entries_trusted_iff chain held dir).mp ⟨entries, listed, accepted⟩
  · rintro ⟨guarded, ⟨n, held, tight⟩, trusted⟩
    obtain ⟨walked, m, held', safe⟩ := (guarded_iff_walk chain).mp guarded
    cases held.symm.trans held'
    obtain ⟨l, dir⟩ := safe.directory
    exact ⟨⟨n, held, safe.owner, tight⟩,
      (entries_trusted_iff chain held dir).mpr trusted, walked⟩

end View

/-! ## A small host -/

/-- `/tmp/policies` with a regular policy file and a link to `/shared/linked.cedar`, whose
directory belongs to somebody else. -/
def smallHost : HostFs Nat where
  root := 0
  inode
    | 0 => some ⟨0, 0o755, .directory [(Utf8.encode "tmp", 1), (Utf8.encode "shared", 5)]⟩
    | 1 => some ⟨0, 0o1777, .directory [(Utf8.encode "policies", 2)]⟩
    | 2 => some ⟨1000, 0o700,
        .directory [(Utf8.encode "00-baseline.cedar", 3),
          (Utf8.encode "99-linked.cedar", 4)]⟩
    | 3 => some ⟨1000, 0o600, .file (Utf8.encode "forbid (principal, action, resource);")⟩
    | 4 => some ⟨1000, 0o777,
        .symlink ⟨true,
          [.down (Utf8.encode "shared"), .down (Utf8.encode "linked.cedar")]⟩⟩
    | 5 => some ⟨1001, 0o755, .directory [(Utf8.encode "linked.cedar", 6)]⟩
    | 6 => some ⟨1000, 0o600, .file (Utf8.encode "forbid (principal, action, resource);")⟩
    | _ => none

def smallPolicyPlace : Place Nat OsString :=
  [(Utf8.encode "policies", 2), (Utf8.encode "tmp", 1)]

def smallPolicyDir : Path := pathOf smallPolicyPlace

theorem guarded_small : Guarded (Foreign 1000) smallHost smallPolicyPlace := by
  refine ⟨⟨⟨_, rfl, ⟨_, rfl⟩, by simp [Foreign], by decide⟩, _, rfl,
    ⟨_, rfl⟩, by simp [Foreign], by decide⟩, _, rfl,
      ⟨_, rfl⟩, by simp [Foreign], by decide⟩

theorem locate_small : locate smallHost [] smallPolicyDir = .ok smallPolicyPlace :=
  locate_pathOf guarded_small.chain

def smallLinkedPlace : Place Nat OsString :=
  [(Utf8.encode "linked.cedar", 6), (Utf8.encode "shared", 5)]

theorem locate_small_linked :
    locate smallHost [] (smallPolicyDir.push (Utf8.encode "99-linked.cedar")) =
      .ok smallLinkedPlace := by
  have found : resolve smallHost []
      (smallPolicyDir.push (Utf8.encode "99-linked.cedar")).steps =
        .ok smallLinkedPlace :=
    resolve_of_within 5 (by decide +kernel)
  rw [locate_absolute rfl, found]
  rfl

theorem accepted_small :
    refuseUntrustedPolicyDirAs (view smallHost []) smallPolicyDir 1000 = .ok () := by
  refine (refuseUntrustedPolicyDirAs_view_iff locate_small).mpr
    ⟨guarded_small, ⟨_, rfl, by decide⟩, ?_⟩
  rintro name ⟨⟨entries, listed, mem⟩, -⟩
  obtain ⟨n, l, held, dir, rfl⟩ := readDir_view_eq_ok_iff.mp listed
  cases (inodeAt_pathOf_iff guarded_small.chain).mp held
  cases dir
  simp only [List.map_cons, List.map_nil, List.mem_cons, Except.ok.injEq,
    List.not_mem_nil, or_false] at mem
  rw [trustedFile_view_iff]
  obtain rfl | rfl := mem
  · refine ⟨_,
      inodeAt_push (i := 3) guarded_small.chain rfl rfl, by simp [Foreign], by decide⟩
  · refine ⟨_,
      inodeAt_eq_ok_iff.mpr ⟨_, locate_small_linked, rfl⟩, by simp [Foreign], by decide⟩

/-! ## Runs of other local users -/

/-- The entry of a directory under a name is a regular file itself, not a link to one. -/
def RegularEntry {I : Type} (fs : HostFs I) (cwd : Place I OsString) (dir : Path)
    (name : OsString) : Prop :=
  ∃ place i n, locate fs cwd dir = .ok place ∧
    fs.child (fs.here place) name = some (i, n) ∧
    n.content.isSome = true

structure PoliciesKept {I : Type} (fs fs' : HostFs I) (cwd : Place I OsString)
    (policyDir : Path) : Prop where
  listing : (view fs' cwd).readDir policyDir = (view fs cwd).readDir policyDir
  /-- The same directories from the root down, each under the same owner and mode. -/
  chain : ∃ place,
    locate fs cwd policyDir = .ok place ∧ locate fs' cwd policyDir = .ok place ∧
    ∀ rest, rest <:+ place → fs'.here rest = fs.here rest ∧
      ∃ n n', fs.inode (fs.here rest) = some n ∧ fs'.inode (fs.here rest) = some n' ∧
        n'.owner = n.owner ∧ n'.mode = n.mode
  /-- Owner, mode and bytes. -/
  files : ∀ name, Loadable (view fs cwd) policyDir name →
    RegularEntry fs cwd policyDir name → RegularEntry fs' cwd policyDir name ∧
      inodeAt fs' cwd (policyDir.push name) = inodeAt fs cwd (policyDir.push name)

section Runs
variable {I : Type} [DecidableEq I] {fs fs' : HostFs I} {cwd place : Place I OsString}
  {euid : UInt32} {actions : List (Action I OsString (List UInt8))}

theorem policiesKept_of_run (guarded : Guarded (Foreign euid) fs place)
    (tight : ∃ n, fs.inode (fs.here place) = some n ∧ ¬ Loose n.mode)
    (trusted : ∀ name, Loadable (view fs cwd) (pathOf place) name →
      TrustedFile (view fs cwd) euid ((pathOf place).push name))
    (run : Run act (ByForeign (Foreign euid)) fs actions fs') :
    PoliciesKept fs fs' cwd (pathOf place) := by
  have guarded' := guarded.run run
  have chain := guarded.chain
  have chain' := guarded'.chain
  have here (rest : Place I OsString) : fs'.here rest = fs.here rest := by
    cases rest <;> simp [Fs.here, root_run run]
  obtain ⟨n, held, tight⟩ := tight
  obtain ⟨m, held', safe⟩ := guarded.here
  cases held.symm.trans held'
  obtain ⟨n', after, -, -, node⟩ := inode_run run held safe.owner
  have entries : n'.entries = n.entries := by
    rw [Inode.entries, Inode.entries, node tight]
  have lookup (name : OsString) :
      fs'.lookup (fs'.here place) name = fs.lookup (fs.here place) name := by
    rw [here place, lookup_eq_of_inode held, lookup_eq_of_inode after, entries]
  refine ⟨?_, ⟨place, locate_pathOf chain, locate_pathOf chain',
    fun rest suffix => ⟨here rest, ?_⟩⟩, ?_⟩
  · show (inodeAt fs' cwd _).bind inodeListing = (inodeAt fs cwd _).bind inodeListing
    rw [(inodeAt_pathOf_iff chain).mpr held,
      (inodeAt_pathOf_iff chain').mpr (here place ▸ after)]
    simp only [Except.bind, inodeListing, entries]
  · obtain ⟨k, heldThere, safeThere⟩ := (guarded_iff.mp guarded).2 rest suffix
    obtain ⟨k', afterThere, owner, mode, -⟩ := inode_run run heldThere safeThere.owner
    exact ⟨k, k', heldThere, afterThere, owner, mode⟩
  · rintro name loadable ⟨there, i, k, found, child, regular⟩
    cases (locate_pathOf chain).symm.trans found
    obtain ⟨inDir, heldFile⟩ := Fs.child_eq_some_iff.mp child
    have plain := Inode.target_eq_none_of_content regular
    obtain ⟨k', same, owner, tightFile⟩ := trustedFile_view_iff.mp (trusted name loadable)
    cases same.symm.trans (inodeAt_push chain child plain)
    obtain ⟨k', after', owner', mode', node'⟩ := inode_run run heldFile owner
    have whole : k' = k := by
      obtain ⟨o', m', contents'⟩ := k'
      obtain ⟨o, m, contents⟩ := k
      exact (Inode.mk.injEq ..).mpr ⟨owner', mode', node' tightFile⟩
    have child' : fs'.child (fs'.here place) name = some (i, k) :=
      Fs.child_eq_some_iff.mpr ⟨(lookup name).trans inDir, whole ▸ after'⟩
    refine ⟨⟨place, i, k, locate_pathOf chain', child', regular⟩, ?_⟩
    rw [inodeAt_push chain child plain, inodeAt_push chain' child' plain]

/-- Where the check accepts a canonical policy directory, no run of other local users
changes the listing, the chain of directories or a regular policy file. -/
theorem isolation_sound {I : Type} [DecidableEq I] (fs fs' : HostFs I)
    (cwd : Place I OsString) (policyDir : Path) (euid : UInt32)
    (actions : List (Action I OsString (List UInt8)))
    (canonical : (view fs cwd).canonicalize policyDir = .ok policyDir)
    (accepted : refuseUntrustedPolicyDirAs (view fs cwd) policyDir euid = .ok ())
    (run : Run act (ByForeign (Foreign euid)) fs actions fs') :
    PoliciesKept fs fs' cwd policyDir := by
  obtain ⟨place, found, same⟩ := canonicalize_view_eq_ok_iff.mp canonical
  obtain ⟨guarded, tight, trusted⟩ :=
    (refuseUntrustedPolicyDirAs_view_iff found).mp accepted
  exact same ▸ policiesKept_of_run guarded tight trusted run

end Runs

/-- Another user leaves a file of theirs beside the policy directory. -/
def smallIntrusion : Action Nat OsString (List UInt8) :=
  ⟨1001, .create 1 (Utf8.encode "note") 9 0o644 (.file [])⟩

theorem isolation_sound_small :
    ∃ after, act smallHost smallIntrusion = some after ∧
      PoliciesKept smallHost after [] smallPolicyDir := by
  have taken : act smallHost smallIntrusion =
      some ((smallHost.put 9 ⟨1001, 0o644, .file []⟩).addEntry 1
        (Utf8.encode "note") 9) := by
    simp only [act, smallIntrusion, perform]
    exact if_pos (by decide +kernel)
  refine ⟨_, taken, ?_⟩
  exact isolation_sound smallHost _ [] smallPolicyDir 1000 [smallIntrusion]
    (canonicalize_view_eq_ok_iff.mpr ⟨_, locate_small, rfl⟩) accepted_small
    (.snoc .nil (by simp [ByForeign, Foreign, smallIntrusion]) taken)

end NonoCedarPdp
