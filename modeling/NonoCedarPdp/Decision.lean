import NonoCedarPdp.Cedar
import NonoCedarPdp.Query
import Mathlib.Data.List.Sort

/-!
The decision type (`decision.rs`) and the reply it becomes on the wire.
-/
namespace NonoCedarPdp

inductive WebhookResponse
  | allow
  | deny (reason : String)
  deriving DecidableEq, Repr

structure Decision where
  allow : Bool
  matched : List String
  reason : String
  evalUs : Nat
  deriving DecidableEq, Repr

namespace Decision

def deny (reason : String) : Decision where
  allow := false
  matched := []
  reason := controlEscape reason
  evalUs := 0

/-- Fails closed on evaluation errors: a policy that errored may be a `forbid` the
authorizer skipped. -/
def fromResponse (response : Cedar.Response) (evalUs : Nat) : Decision :=
  let matched := response.reason.mergeSort
  let errors := response.errors.map fun e => e.text
  if errors ≠ [] then
    { allow := false
      matched
      reason := controlEscape
        ("cedar evaluation errors, failing closed: " ++ "; ".intercalate errors)
      evalUs }
  else
    match response.decision with
    | .allow =>
        { allow := true
          matched
          reason := controlEscape ("permitted by " ++ ", ".intercalate matched)
          evalUs }
    | .deny =>
        { allow := false
          matched
          reason :=
            if matched = [] then "no policy permitted this request (default deny)"
            else controlEscape ("denied by " ++ ", ".intercalate matched)
          evalUs }

def toWire (d : Decision) : WebhookResponse :=
  if d.allow then .allow else .deny d.reason

@[simp] theorem allow_deny (reason : String) : (deny reason).allow = false := rfl

@[simp] theorem matched_deny (reason : String) : (deny reason).matched = [] := rfl

@[simp] theorem matched_fromResponse (response : Cedar.Response) (evalUs : Nat) :
    (fromResponse response evalUs).matched = response.reason.mergeSort := by
  obtain ⟨verdict, reason, errors⟩ := response
  by_cases clean : errors = []
  · cases verdict <;> simp [fromResponse, clean]
  · simp [fromResponse, clean]

theorem allow_fromResponse (response : Cedar.Response) (evalUs : Nat) :
    (fromResponse response evalUs).allow = true ↔
      response.decision = .allow ∧ response.errors = [] := by
  obtain ⟨verdict, reason, errors⟩ := response
  by_cases clean : errors = []
  · cases verdict <;> simp [fromResponse, clean]
  · simp [fromResponse, clean]

theorem mergeSort_eq_of_perm {ids ids' : List String} (h : ids.Perm ids') :
    ids.mergeSort = ids'.mergeSort := by
  have sorted (l : List String) : l.mergeSort.Pairwise (· ≤ ·) := by
    have pairs : l.mergeSort.Pairwise fun a b => decide (a ≤ b) = true :=
      List.pairwise_mergeSort (fun a b c => by simpa using String.le_trans)
        (fun a b => by simpa using String.le_total a b) l
    simpa using pairs
  apply List.Perm.eq_of_pairwise (fun a b _ _ => String.le_antisymm)
    (sorted ids) (sorted ids')
  exact (List.mergeSort_perm _ _).trans (h.trans (List.mergeSort_perm _ _).symm)

theorem toWire_eq_allow_iff (d : Decision) : d.toWire = .allow ↔ d.allow = true := by
  cases h : d.allow <;> simp [toWire, h]

end Decision

end NonoCedarPdp
