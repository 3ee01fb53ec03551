import NonoCedarPdp.Authorizer
import NonoCedarPdp.Engine

/-!
Evaluation against a strict fail-closed reference: an errored policy counts as a
satisfied `forbid`, whatever its effect. Cedar alone skips such a policy.
-/
namespace NonoCedarPdp
open Cedar

namespace Engine
variable {Schema β : Type} (x : Externals Schema β)

/-- What the authorizer is asked, once the guard and the construction let the query
through. -/
def asked (schema : Schema) (q : PolicyQuery) : Option (Request × Entities) :=
  match pathAmbiguity q, build x.crate q schema with
  | none, .ok pair => some pair
  | _, _ => none

/-- The strict reference. -/
def FailClosedAllow (outcome : Semantics β) (policies : List (Policy β))
    (request : Request) (entities : Entities) : Prop :=
  (∃ p ∈ policies, Satisfied outcome request entities .permit p) ∧
    (∀ p ∈ policies, ¬ Satisfied outcome request entities .forbid p) ∧
    ∀ p ∈ policies, ¬ Errs outcome request entities p

theorem asked_eq_some_iff {schema : Schema} {q : PolicyQuery}
    {pair : Request × Entities} :
    asked x schema q = some pair ↔
      pathAmbiguity q = none ∧ build x.crate q schema = .ok pair := by
  rw [asked]
  cases pathAmbiguity q with
  | some found => simp
  | none => cases build x.crate q schema <;> simp

theorem consulted_eq (engine : Engine Schema β) (q : PolicyQuery) :
    engine.consulted x q = (asked x engine.schema q).map fun pair =>
      x.crate.isAuthorized pair.1 engine.current.set pair.2 := by
  unfold consulted asked
  cases pathAmbiguity q with
  | some found => rfl
  | none => cases build x.crate q engine.schema <;> rfl

section Reference
variable {outcome : Semantics β} (spec : AuthorizerSpec x.crate outcome)
include spec

theorem errors_eq_nil_iff {request : Request} {set : PolicySet β} {entities : Entities} :
    (x.crate.isAuthorized request set entities).errors = [] ↔
      ∀ p ∈ set.policies, ¬ Errs outcome request entities p := by
  have listed := spec.errors_iff request set entities
  rw [← List.map_eq_nil_iff (f := AuthorizationError.policyId),
    List.eq_nil_iff_forall_not_mem]
  constructor
  · intro none p mem errs
    exact none p.id ((listed p.id).mpr ⟨p, mem, rfl, errs⟩)
  · intro clean id mem
    obtain ⟨p, inSet, -, errs⟩ := (listed id).mp mem
    exact clean p inSet errs

theorem evaluate_allow_iff_reference {engine : Engine Schema β} {q : PolicyQuery}
    {evalUs : Nat} : (engine.evaluate x q evalUs).1.allow = true ↔
      ∃ pair, asked x engine.schema q = some pair ∧
        FailClosedAllow outcome engine.current.set.policies pair.1 pair.2 := by
  rw [evaluate_allow_iff, consulted_eq]
  constructor
  · intro ⟨response, consulted, verdict, clean⟩
    obtain ⟨pair, passed, rfl⟩ := Option.map_eq_some_iff.mp consulted
    have ⟨permitted, unopposed⟩ := (spec.decision_iff pair.1 _ pair.2).mp verdict
    exact ⟨pair, passed, permitted, unopposed, (errors_eq_nil_iff x spec).mp clean⟩
  · intro ⟨pair, passed, permitted, unopposed, clean⟩
    refine ⟨_, Option.map_eq_some_iff.mpr ⟨pair, passed, rfl⟩, ?_,
      (errors_eq_nil_iff x spec).mpr clean⟩
    exact (spec.decision_iff pair.1 _ pair.2).mpr ⟨permitted, unopposed⟩

theorem matched_evaluate (engine : Engine Schema β) (q : PolicyQuery) (evalUs : Nat) :
    (engine.evaluate x q evalUs).1.matched =
      match asked x engine.schema q with
      | none => []
      | some pair =>
          (determining outcome engine.current.set.policies pair.1 pair.2).mergeSort := by
  cases passed : asked x engine.schema q with
  | none =>
      have unasked : engine.consulted x q = none := by rw [consulted_eq, passed]; rfl
      obtain ⟨reason, denied⟩ := evaluate_of_not_consulted x unasked evalUs
      rw [denied]
      rfl
  | some pair =>
      have answered : engine.consulted x q =
          some (x.crate.isAuthorized pair.1 engine.current.set pair.2) := by
        rw [consulted_eq, passed]
        rfl
      rw [evaluate_of_consulted x answered, Decision.matched_fromResponse]
      exact Decision.mergeSort_eq_of_perm (spec.reason_perm _ _ _)

end Reference

/-- The policies of the larger set oppose or fail whatever the smaller set refuses. -/
theorem failClosedAllow_of_cons {outcome : Semantics β}
    {policies larger : List (Policy β)} {extra : Policy β} {request : Request}
    {entities : Entities} (added : larger.Perm (extra :: policies))
    (adverse : extra.effect = .forbid ∨ Errs outcome request entities extra)
    (allowed : FailClosedAllow outcome larger request entities) :
    FailClosedAllow outcome policies request entities := by
  obtain ⟨⟨p, mem, permit⟩, unopposed, clean⟩ := allowed
  have kept {r : Policy β} (h : r ∈ policies) : r ∈ larger :=
    added.mem_iff.mpr (List.mem_cons_of_mem extra h)
  refine ⟨⟨p, ?_, permit⟩, fun r h => unopposed r (kept h), fun r h => clean r (kept h)⟩
  obtain rfl | old := List.mem_cons.mp (added.mem_iff.mp mem)
  · obtain forbids | errs := adverse
    · rw [permit.1] at forbids
      cases forbids
    · exact absurd errs (clean p mem)
  · exact old

/-- Evaluation is the fail-closed reference, `matched` names the determining policies
in order, and a further forbid or failing policy never turns a deny into an allow. -/
theorem evaluate_fails_closed (outcome : Semantics β)
    (spec : AuthorizerSpec x.crate outcome) (engine : Engine Schema β) (q : PolicyQuery)
    (evalUs : Nat) : ((engine.evaluate x q evalUs).1.allow = true ↔
      pathAmbiguity q = none ∧ ∃ request entities,
        build x.crate q engine.schema = .ok (request, entities) ∧
          FailClosedAllow outcome engine.current.set.policies request entities) ∧
    ((engine.evaluate x q evalUs).1.matched =
      match asked x engine.schema q with
      | none => []
      | some pair =>
          (determining outcome engine.current.set.policies pair.1 pair.2).mergeSort) ∧
    ((engine.evaluate x q evalUs).1.allow = true →
      (engine.evaluate x q evalUs).1.matched ≠ []) ∧
    ∀ (larger : Engine Schema β) (extra : Policy β) (evalUs' : Nat),
      larger.schema = engine.schema →
      larger.current.set.policies.Perm (extra :: engine.current.set.policies) →
      (extra.effect = .forbid ∨ ∀ request entities,
        build x.crate q engine.schema = .ok (request, entities) →
          Errs outcome request entities extra) →
      (engine.evaluate x q evalUs).1.allow = false →
      (larger.evaluate x q evalUs').1.allow = false := by
  refine ⟨?_, matched_evaluate x spec engine q evalUs, ?_, ?_⟩
  · rw [evaluate_allow_iff_reference x spec]
    constructor
    · intro ⟨⟨request, entities⟩, passed, allowed⟩
      have ⟨unambiguous, built⟩ := (asked_eq_some_iff x).mp passed
      exact ⟨unambiguous, request, entities, built, allowed⟩
    · intro ⟨unambiguous, request, entities, built, allowed⟩
      exact ⟨(request, entities), (asked_eq_some_iff x).mpr ⟨unambiguous, built⟩, allowed⟩
  · intro allow
    obtain ⟨pair, passed, permitted, unopposed, -⟩ :=
      (evaluate_allow_iff_reference x spec).mp allow
    have named := determining_ne_nil_of_allow permitted unopposed
    rw [matched_evaluate x spec, passed]
    intro empty
    apply named
    exact List.perm_nil.mp (empty ▸ (List.mergeSort_perm _ _).symm)
  · intro larger extra evalUs' sameSchema added adverse denied
    by_contra allow
    obtain ⟨pair, passed, allowed⟩ :=
      (evaluate_allow_iff_reference x spec).mp (Bool.not_eq_false _ ▸ allow)
    rw [sameSchema] at passed
    have built := ((asked_eq_some_iff x).mp passed).2
    have smaller :=
      failClosedAllow_of_cons added (adverse.imp_right fun errs => errs _ _ built) allowed
    have allow' : (engine.evaluate x q evalUs).1.allow = true :=
      (evaluate_allow_iff_reference x spec).mpr ⟨pair, passed, smaller⟩
    rw [denied] at allow'
    cases allow'

theorem evaluate_fails_closed_small :
    AuthorizerSpec smallExternals.crate (fun _ _ _ => .satisfied) ∧
      ((smallEngine.evaluate smallExternals (endpointQuery "/repos/foo") 7).1.allow = true ↔
        pathAmbiguity (endpointQuery "/repos/foo") = none ∧ ∃ request entities,
          build smallExternals.crate (endpointQuery "/repos/foo") () =
            .ok (request, entities) ∧
            FailClosedAllow
              (fun _ _ _ => .satisfied) smallEngine.current.set.policies request
              entities) := by
  have spec : AuthorizerSpec smallExternals.crate (fun _ _ _ => .satisfied) :=
    authorizerSpec_authorize rfl
  exact ⟨spec,
    (evaluate_fails_closed smallExternals _ spec smallEngine
      (endpointQuery "/repos/foo") 7).1⟩

end Engine

end NonoCedarPdp
