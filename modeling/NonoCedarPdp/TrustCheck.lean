import NonoCedarPdp.Isolation
import Mathlib.Data.List.Induction

/-!
What a passed trust check says. Every part of the check is equivalent to a condition on
the owner and mode of each path it looks at.
-/
namespace NonoCedarPdp
open RustText

/-- Owned by the daemon's user or root, and writable by its owner alone. -/
def TrustedFile (fs : FsView) (euid : UInt32) (p : Path) : Prop :=
  ∃ metadata, fs.metadata p = .ok metadata ∧ foreignOwner metadata.uid euid = none ∧
    looseWriters (metadata.mode &&& 0o7777) = none

/-- A path the ancestor walk passes over: not there, not a directory, or a directory of
the daemon's user or root in which nobody else can rename their entries. -/
def AcceptedAncestor (fs : FsView) (euid : UInt32) (p : Path) : Prop :=
  match fs.metadata p with
  | .ok metadata => metadata.isDir = true → foreignOwner metadata.uid euid = none ∧
      looseAncestorWriters (metadata.mode &&& 0o7777) = none
  | .error source => source.kind = .notFound

/-! ## The rules -/

theorem judgeComponent_ok_iff {what : String} {p : Path} {facts : ComponentFacts}
    {euid : UInt32} : judgeComponent what p facts euid = .ok () ↔
      foreignOwner facts.ownerUid euid = none ∧ looseWriters facts.mode = none := by
  rw [judgeComponent]
  cases foreignOwner facts.ownerUid euid with
  | some owner => simp
  | none => cases looseWriters facts.mode <;> simp

theorem judgeAncestor_ok_iff {what ancestorWhat : String} {p ancestor : Path}
    {facts : ComponentFacts} {euid : UInt32} :
    judgeAncestor what ancestorWhat p ancestor facts euid = .ok () ↔
      (facts.isDir = true →
        foreignOwner facts.ownerUid euid = none ∧
        looseAncestorWriters facts.mode = none) := by
  rw [judgeAncestor]
  cases facts.isDir with
  | false => simp
  | true =>
      cases foreignOwner facts.ownerUid euid with
      | some owner => simp
      | none => cases looseAncestorWriters facts.mode <;> simp

theorem foreignOwner_eq_none_iff {owner euid : UInt32} :
    foreignOwner owner euid = none ↔ owner = euid ∨ owner = 0 := by
  rw [foreignOwner]
  by_cases own : owner = euid <;> by_cases root : owner = 0 <;> simp [own, root]

theorem looseWriters_eq_none_iff {mode : UInt32} :
    looseWriters mode = none ↔ mode &&& 0o022 = 0 := by
  have bits : (0o022 : UInt32) = 0o020 ||| 0o002 := by decide
  have both : mode &&& 0o022 = mode &&& 0o020 ||| mode &&& 0o002 := by
    rw [bits, ← UInt32.toBitVec_inj]
    exact BitVec.and_or_distrib_left
  rw [both, UInt32.or_eq_zero_iff, looseWriters]
  by_cases group : mode &&& 0o020 = 0 <;> by_cases world : mode &&& 0o002 = 0 <;>
    simp [group, world]

theorem looseAncestorWriters_eq_none_iff {mode : UInt32} :
    looseAncestorWriters mode = none ↔ mode &&& 0o1000 ≠ 0 ∨ mode &&& 0o022 = 0 := by
  rw [looseAncestorWriters]
  by_cases sticky : mode &&& 0o1000 = 0
  · simp [sticky, looseWriters_eq_none_iff]
  · simp [sticky]

/-- The mask of `ComponentFacts::of` leaves the bits the rules look at. -/
theorem permission_bits (mode : UInt32) :
    (mode &&& 0o7777) &&& 0o022 = mode &&& 0o022 ∧
      (mode &&& 0o7777) &&& 0o1000 = mode &&& 0o1000 := by
  rw [UInt32.and_assoc, UInt32.and_assoc]
  exact ⟨rfl, rfl⟩

/-! ## The check -/

theorem policyFileSkipReason_congr {fs : FsView} {p q : Path}
    (name : p.fileName = q.fileName) (metadata : fs.metadata p = fs.metadata q) :
    policyFileSkipReason fs p = policyFileSkipReason fs q := by
  unfold policyFileSkipReason FsView.isFile
  rw [name, metadata]

section Check
variable {fs : FsView} {euid : UInt32}

theorem refuseIfUntrusted_ok_iff {what : String} {p : Path} :
    refuseIfUntrusted fs what p euid = .ok () ↔ TrustedFile fs euid p := by
  unfold refuseIfUntrusted TrustedFile
  cases fs.metadata p with
  | error source => simp
  | ok metadata => simp [judgeComponent_ok_iff, ComponentFacts.of]

theorem bind_ok_iff {ε α : Type} {x : Except ε Unit} {y : Except ε α} {r : α} :
    (do x; y) = .ok r ↔ x = .ok () ∧ y = .ok r := by
  cases x <;> simp [Bind.bind, Except.bind]

theorem listing_eq_ok_iff {dir : Path} {entries : List (Except IoError Path)} :
    fs.listing dir = .ok entries ↔ ∃ found, fs.readDir dir = .ok found ∧
      found.map (fun entry => entry.map dir.push) = entries := by
  rw [FsView.listing]
  cases fs.readDir dir <;> simp [Except.map]

/-- A listing is accepted when it could be read and every entry the loader loads is
trusted. -/
theorem refuseUntrustedEntries_ok_iff {dir : Path}
    {entries : List (Except IoError Path)} :
    refuseUntrustedEntries fs dir euid entries = .ok () ↔
      ∀ entry ∈ entries, ∃ p, entry = .ok p ∧ (p.extension = some cedarExtension →
        policyFileSkipReason fs p = none → TrustedFile fs euid p) := by
  induction entries with
  | nil => simp [refuseUntrustedEntries]
  | cons entry rest ih =>
      rw [List.forall_mem_cons, ← ih]
      cases entry with
      | error source => simp [refuseUntrustedEntries]
      | ok p =>
          have here : (∃ q, (Except.ok p : Except IoError Path) = .ok q ∧
              (q.extension = some cedarExtension → policyFileSkipReason fs q = none →
                TrustedFile fs euid q)) ↔
              (p.extension = some cedarExtension → policyFileSkipReason fs p = none →
                TrustedFile fs euid p) := by simp
          rw [here, refuseUntrustedEntries]
          by_cases cedar : p.extension = some cedarExtension
          · cases skip : policyFileSkipReason fs p with
            | some reason => simp [cedar, isLoadablePolicyFile, skip]
            | none =>
                simp only [cedar, isLoadablePolicyFile, skip, Option.isNone_none, ne_eq,
                  not_true_eq_false, if_false, Bool.true_eq_false,
                  forall_const, bind_ok_iff,
                  refuseIfUntrusted_ok_iff]
          · simp [cedar]

/-- An accepted listing trusts every entry the loader loads. -/
theorem trusted_of_refuseUntrustedEntries {dir : Path}
    {entries : List (Except IoError Path)}
    (h : refuseUntrustedEntries fs dir euid entries = .ok ()) {p : Path}
    (mem : .ok p ∈ entries) (cedar : p.extension = some cedarExtension)
    (loadable : policyFileSkipReason fs p = none) :
    refuseIfUntrusted fs "policy file" p euid = .ok () := by
  obtain ⟨q, same, judged⟩ := refuseUntrustedEntries_ok_iff.mp h _ mem
  cases same
  exact refuseIfUntrusted_ok_iff.mpr (judged cedar loadable)

theorem walkAncestors_some {what ancestorWhat : String} {p ancestor : Path}
    (nonempty : ancestor ≠ .empty) :
    walkAncestors fs what ancestorWhat p euid (some ancestor) = .ok () ↔
      AcceptedAncestor fs euid ancestor ∧
        walkAncestors fs what ancestorWhat p euid ancestor.parent = .ok () := by
  rw [walkAncestors, if_neg nonempty, AcceptedAncestor]
  cases fs.metadata ancestor with
  | ok metadata => simp only [bind_ok_iff, judgeAncestor_ok_iff, ComponentFacts.of]
  | error source => by_cases missing : source.kind = .notFound <;> simp [missing]

/-- The walk accepts a path when it accepts each of the path's prefixes. -/
theorem walkAncestors_ok_iff {what ancestorWhat : String} {p ancestor : Path} :
    walkAncestors fs what ancestorWhat p euid (some ancestor) = .ok () ↔
      ∀ components, components <+: ancestor.components →
        (⟨ancestor.absolute, components⟩ : Path) ≠ .empty →
          AcceptedAncestor fs euid ⟨ancestor.absolute, components⟩ := by
  obtain ⟨absolute, components⟩ := ancestor
  induction components using List.reverseRecOn with
  | nil =>
      by_cases nonempty : (⟨absolute, []⟩ : Path) = .empty
      · rw [walkAncestors, if_pos nonempty]
        simp [nonempty]
      · have top : (⟨absolute, []⟩ : Path).parent = none := rfl
        rw [walkAncestors_some nonempty, top, walkAncestors]
        simp [nonempty]
  | append_singleton components c ih =>
      have nonempty : (⟨absolute, components ++ [c]⟩ : Path) ≠ .empty := by
        simp [Path.empty]
      have up : (⟨absolute, components ++ [c]⟩ : Path).parent =
          some ⟨absolute, components⟩ := by
        simp [Path.parent]
      rw [walkAncestors_some nonempty, up, ih]
      constructor
      · intro ⟨here, above⟩ prefixes isPrefix proper
        obtain rfl | shorter := List.prefix_concat_iff.mp isPrefix
        · exact here
        · exact above prefixes shorter proper
      · intro all
        refine ⟨all _ (List.prefix_refl _) nonempty, fun prefixes shorter proper => ?_⟩
        exact all prefixes (shorter.trans (List.prefix_append _ _)) proper

theorem refuseUntrustedPolicyDirAs_ok_iff {dir : Path} :
    refuseUntrustedPolicyDirAs fs dir euid = .ok () ↔
      TrustedFile fs euid (absolutize fs dir none) ∧
        (∃ entries, fs.listing (absolutize fs dir none) = .ok entries ∧
          refuseUntrustedEntries fs (absolutize fs dir none) euid entries = .ok ()) ∧
        refuseOnUntrustedAncestors fs "policy directory"
          "ancestor of the policy directory" (absolutize fs dir none) euid = .ok () := by
  rw [refuseUntrustedPolicyDirAs]
  cases fs.listing (absolutize fs dir none) with
  | error source => simp [bind_ok_iff]
  | ok entries => simp [bind_ok_iff, refuseIfUntrusted_ok_iff]

end Check

end NonoCedarPdp
