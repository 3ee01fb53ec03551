import NonoCedarPdp.IsolationSoundness

/-!
The ancestor walk as a rule on paths: it lets a path pass exactly when every directory
above it is one in which nobody but the daemon's user and root can rename an entry.
-/
namespace NonoCedarPdp
open UnixFs

/-- `ancestor` is `p` without its last components, one of them at least. -/
def ProperAncestor (ancestor p : Path) : Prop :=
  ancestor.absolute = p.absolute ∧
    ∃ below, below ≠ [] ∧ p.components = ancestor.components ++ below

/-- A directory of the daemon's user or root, sticky unless its owner alone writes it. -/
def Unrenamable (euid : UInt32) (metadata : Metadata) : Prop :=
  metadata.isDir = true ∧ (metadata.uid = euid ∨ metadata.uid = 0) ∧
    (Sticky metadata.mode ∨ ¬ Loose metadata.mode)

/-- Absent, present and not a directory, or a directory that holds its entries in
place. -/
def Passable (fs : FsView) (euid : UInt32) (ancestor : Path) : Prop :=
  (∃ source, fs.metadata ancestor = .error source ∧ source.kind = .notFound) ∨
    ∃ metadata, fs.metadata ancestor = .ok metadata ∧
      (metadata.isDir = false ∨ Unrenamable euid metadata)

theorem properAncestor_iff_of_parent {ancestor p q : Path} (up : p.parent = some q) :
    ProperAncestor ancestor p ↔
      ancestor.absolute = q.absolute ∧ ancestor.components <+: q.components := by
  rw [Path.parent] at up
  split at up
  · cases up
  · next nonempty =>
    cases up
    refine and_congr_right fun _ => ?_
    constructor
    · rintro ⟨below, more, whole⟩
      exact ⟨below.dropLast, by rw [whole, List.dropLast_append_of_ne_nil more]⟩
    · rintro ⟨between, whole⟩
      refine ⟨between ++ [p.components.getLast nonempty], by simp, ?_⟩
      rw [← List.append_assoc, whole, List.dropLast_append_getLast]

theorem not_properAncestor_of_top {ancestor p : Path} (top : p.parent = none) :
    ¬ ProperAncestor ancestor p := by
  rintro ⟨-, below, more, whole⟩
  rw [Path.parent] at top
  split at top
  · next empty =>
    rw [empty, eq_comm, List.append_eq_nil_iff] at whole
    exact more whole.2
  · cases top

theorem acceptedAncestor_iff_passable {fs : FsView} {euid : UInt32} {ancestor : Path} :
    AcceptedAncestor fs euid ancestor ↔ Passable fs euid ancestor := by
  rw [AcceptedAncestor, Passable]
  cases fs.metadata ancestor with
  | error source => simp
  | ok metadata =>
      simp only [foreignOwner_eq_none_iff, looseAncestorWriters_masked, Unrenamable]
      cases dir : metadata.isDir <;> simp [dir]

/-- The walk up from an absolute path, of any depth, passes exactly when every proper
ancestor does: none is skipped, and no layout that obeys the rule is refused. -/
theorem ancestor_walk_exact (fs : FsView) (what ancestorWhat : String) (p : Path)
    (euid : UInt32) (absolute : p.absolute = true) :
    refuseOnUntrustedAncestors fs what ancestorWhat p euid = .ok () ↔
      ∀ ancestor, ProperAncestor ancestor p → Passable fs euid ancestor := by
  rw [refuseOnUntrustedAncestors]
  cases up : p.parent with
  | none =>
      rw [walkAncestors]
      exact iff_of_true rfl fun ancestor proper =>
        absurd proper (not_properAncestor_of_top up)
  | some q =>
      have kept : q.absolute = true := by
        rw [Path.parent] at up
        split at up
        · cases up
        · cases up
          exact absolute
      rw [walkAncestors_ok_iff]
      constructor
      · intro all ancestor proper
        obtain ⟨same, shorter⟩ := (properAncestor_iff_of_parent up).mp proper
        have here : (⟨q.absolute, ancestor.components⟩ : Path) = ancestor := by
          rw [← same]
        have judged := all ancestor.components shorter (by simp [kept, Path.empty])
        exact acceptedAncestor_iff_passable.mp (here ▸ judged)
      · intro all components shorter _
        exact acceptedAncestor_iff_passable.mpr
          (all _ ((properAncestor_iff_of_parent up).mpr ⟨rfl, shorter⟩))

/-- Below a root-owned `/tmp` that is writable by everyone and sticky. -/
theorem ancestor_walk_exact_below_tmp :
    refuseOnUntrustedAncestors (view smallHost []) "policy directory"
      "ancestor of the policy directory" smallPolicyDir 1000 = .ok () := by
  refine (ancestor_walk_exact (view smallHost []) _ _ smallPolicyDir 1000 rfl).mpr ?_
  intro ancestor proper
  obtain ⟨same, shorter⟩ := (properAncestor_iff_of_parent (parent_pathOf _)).mp proper
  obtain ⟨rest, suffix, components⟩ := prefix_pathOf_iff.mp shorter
  obtain ⟨_, _⟩ := ancestor
  cases same
  cases components
  have inChain : rest <:+ smallPolicyPlace := suffix.trans (List.suffix_cons _ _)
  obtain ⟨n, held, safe⟩ := (guarded_iff.mp guarded_small).2 rest inChain
  obtain ⟨l, dir⟩ := safe.directory
  have chain := guarded_small.chain.suffix inChain
  exact acceptedAncestor_iff_passable.mp
    ((acceptedAncestor_pathOf_iff chain held dir).mpr safe)

end NonoCedarPdp
