import NonoCedarPdp.EngineReload

/-!
What a load makes of a directory listing: it succeeds exactly on listings all of
whose policies make it into the set, each once, and the order of the listing does
not matter.
-/
namespace NonoCedarPdp
open RustText

/-! ## The order of the files -/

namespace Component

theorem le_total (a b : Component) : (a.le b || b.le a) = true := by
  cases a with
  | curDir => rfl
  | parentDir => cases b <;> rfl
  | normal name =>
      cases b with
      | curDir => rfl
      | parentDir => rfl
      | normal other => simpa [Component.le] using List.le_total name other

theorem le_trans {a b c : Component} (hab : a.le b = true) (hbc : b.le c = true) :
    a.le c = true := by
  cases a with
  | curDir => rfl
  | parentDir =>
      cases b with
      | curDir => simp [Component.le] at hab
      | parentDir => exact hbc
      | normal other =>
          cases c with
          | curDir => simp [Component.le] at hbc
          | parentDir => rfl
          | normal third => rfl
  | normal name =>
      cases b with
      | curDir => cases hab
      | parentDir => cases hab
      | normal other =>
          cases c with
          | curDir => cases hbc
          | parentDir => cases hbc
          | normal third =>
              simp only [Component.le, decide_eq_true_eq] at hab hbc ⊢
              exact List.le_trans hab hbc

theorem le_antisymm {a b : Component} (hab : a.le b = true)
    (hba : b.le a = true) : a = b := by
  cases a with
  | curDir =>
      cases b with
      | curDir => rfl
      | parentDir => simp [Component.le] at hba
      | normal other => simp [Component.le] at hba
  | parentDir =>
      cases b with
      | curDir => simp [Component.le] at hab
      | parentDir => rfl
      | normal other => simp [Component.le] at hba
  | normal name =>
      cases b with
      | curDir => cases hab
      | parentDir => cases hab
      | normal other =>
          simp only [Component.le, decide_eq_true_eq] at hab hba
          rw [List.le_antisymm hab hba]

end Component

namespace Path

theorem leComponents_total (as bs : List Component) :
    (leComponents as bs || leComponents bs as) = true := by
  induction as generalizing bs with
  | nil => rfl
  | cons a as ih =>
      cases bs with
      | nil => rfl
      | cons b bs =>
          by_cases same : a = b
          · simpa [leComponents, same] using ih bs
          · simpa [leComponents, same, Ne.symm same] using Component.le_total a b

theorem leComponents_antisymm {as bs : List Component} (hab : leComponents as bs = true)
    (hba : leComponents bs as = true) : as = bs := by
  induction as generalizing bs with
  | nil =>
      cases bs with
      | nil => rfl
      | cons b bs => cases hba
  | cons a as ih =>
      cases bs with
      | nil => cases hab
      | cons b bs =>
          by_cases same : a = b
          · simp only [leComponents, same, if_true] at hab hba
            rw [same, ih hab hba]
          · simp only [leComponents, if_neg same, if_neg (Ne.symm same)] at hab hba
            exact absurd (Component.le_antisymm hab hba) same

theorem leComponents_nil_right {as : List Component} :
    leComponents as [] = true ↔ as = [] := by
  cases as <;> simp [leComponents]

theorem leComponents_trans {as bs cs : List Component} (hab : leComponents as bs = true)
    (hbc : leComponents bs cs = true) : leComponents as cs = true := by
  induction as generalizing bs cs with
  | nil => rfl
  | cons a as ih =>
      cases bs with
      | nil => cases hab
      | cons b bs =>
          cases cs with
          | nil => cases hbc
          | cons c cs =>
              simp only [leComponents] at hab hbc ⊢
              by_cases first : a = b
              · subst first
                by_cases second : a = c
                · subst second
                  simp only [if_true] at hab hbc ⊢
                  exact ih hab hbc
                · simpa only [if_neg second] using hbc
              · rw [if_neg first] at hab
                by_cases second : b = c
                · subst second
                  rw [if_neg first]
                  exact hab
                · rw [if_neg second] at hbc
                  have third : a ≠ c := by
                    rintro rfl
                    exact first (Component.le_antisymm hab hbc)
                  rw [if_neg third]
                  exact Component.le_trans hab hbc

theorem le_total (p q : Path) : (p.le q || q.le p) = true := by
  obtain ⟨absP, ps⟩ := p
  obtain ⟨absQ, qs⟩ := q
  cases absP <;> cases absQ
  · exact leComponents_total ps qs
  · simp [Path.le, Path.empty]
  · simp [Path.le, Path.empty]
  · exact leComponents_total ps qs

theorem le_antisymm {p q : Path} (hpq : p.le q = true) (hqp : q.le p = true) : p = q := by
  obtain ⟨absP, ps⟩ := p
  obtain ⟨absQ, qs⟩ := q
  cases absP <;> cases absQ
  · exact congrArg (Path.mk false) (leComponents_antisymm hpq hqp)
  · simp [Path.le, Path.empty] at hpq hqp
    exact absurd hpq hqp
  · simp [Path.le, Path.empty] at hpq hqp
    exact absurd hqp hpq
  · exact congrArg (Path.mk true) (leComponents_antisymm hpq hqp)

theorem le_trans {p q r : Path} (hpq : p.le q = true) (hqr : q.le r = true) :
    p.le r = true := by
  obtain ⟨absP, ps⟩ := p
  obtain ⟨absQ, qs⟩ := q
  obtain ⟨absR, rs⟩ := r
  cases absP <;> cases absQ <;> cases absR
  case false.false.false => exact leComponents_trans hpq hqr
  case true.true.true => exact leComponents_trans hpq hqr
  all_goals
    simp only [Path.le, Path.empty] at hpq hqr ⊢
    simp at hpq hqr ⊢
    grind [leComponents, leComponents_nil_right]

/-- Sorting forgets the order of what is sorted. -/
theorem mergeSort_eq_of_perm {ps qs : List Path} (h : ps.Perm qs) :
    ps.mergeSort Path.le = qs.mergeSort Path.le := by
  have trans : ∀ p q r : Path, p.le q = true → q.le r = true → p.le r = true :=
    fun _ _ _ => Path.le_trans
  have same : (ps.mergeSort Path.le).Perm (qs.mergeSort Path.le) :=
    (List.mergeSort_perm ps Path.le).trans (h.trans (List.mergeSort_perm qs Path.le).symm)
  have inOrder (l : List Path) :
      (l.mergeSort Path.le).Pairwise fun p q => p.le q = true :=
    List.pairwise_mergeSort trans Path.le_total l
  exact same.eq_of_pairwise (fun _ _ _ _ => Path.le_antisymm) (inOrder ps) (inOrder qs)

end Path

/-! ## The files to load -/

structure PolicyFile (fs : FsView) (p : Path) : Prop where
  isCedar : p.extension = some cedarExtension
  named : ∃ name, p.fileName.bind Utf8.decode? = some name ∧
    startsWithChar name '.' = false ∧ startsWithChar name '#' = false
  regular : fs.isFile p = true

theorem loadable_iff {fs : FsView} {p : Path} :
    PolicyFile fs p ↔
      p.extension = some cedarExtension ∧ policyFileSkipReason fs p = none := by
  constructor
  · rintro ⟨isCedar, ⟨name, hname, dot, hash⟩, regular⟩
    simp [policyFileSkipReason, isCedar, hname, dot, hash, regular]
  · rintro ⟨isCedar, kept⟩
    rw [policyFileSkipReason] at kept
    cases hname : p.fileName.bind Utf8.decode? with
    | none => simp [hname] at kept
    | some name =>
        simp only [hname] at kept
        split at kept
        · cases kept
        · next plain =>
          split at kept
          · next regular =>
            refine ⟨isCedar, ⟨name, hname, ?_, ?_⟩, regular⟩
            · simpa using fun dot => plain (Or.inl dot)
            · simpa using fun hash => plain (Or.inr hash)
          · cases kept

instance (fs : FsView) : DecidablePred (PolicyFile fs) := fun _ =>
  decidable_of_iff _ loadable_iff.symm

/-- The policy files of a listing, in the order listed. -/
def loadable (fs : FsView) (listing : List (Except IoError Path)) : List Path :=
  (listing.filterMap Except.toOption).filter (PolicyFile fs ·)

theorem mem_loadable {fs : FsView} {listing : List (Except IoError Path)} {p : Path} :
    p ∈ loadable fs listing ↔ .ok p ∈ listing ∧ PolicyFile fs p := by
  rw [loadable, List.mem_filter, List.mem_filterMap, decide_eq_true_eq]
  refine and_congr_left fun _ => ⟨?_, fun mem => ⟨_, mem, rfl⟩⟩
  rintro ⟨entry, mem, isPath⟩
  cases entry with
  | error source => cases isPath
  | ok q => exact Option.some.inj isPath ▸ mem

theorem loadable_perm (fs : FsView) {listing other : List (Except IoError Path)}
    (h : listing.Perm other) : (loadable fs listing).Perm (loadable fs other) :=
  (h.filterMap _).filter _

theorem classify_eq_ok_iff {fs : FsView} {dir : Path}
    {listing : List (Except IoError Path)} {entries : List Path} :
      classify fs dir listing = .ok entries ↔
      (∀ source, .error source ∉ listing) ∧ entries = loadable fs listing := by
  induction listing generalizing entries with
  | nil => simp [classify, loadable, eq_comm]
  | cons entry rest ih =>
      cases entry with
      | error source =>
          exact iff_of_false (by simp [classify]) fun h => h.1 source List.mem_cons_self
      | ok p =>
          have others : (∀ source, Except.error source ∉ Except.ok p :: rest) ↔
              ∀ source, (Except.error source : Except IoError Path) ∉ rest := by simp
          rw [others]
          by_cases load : PolicyFile fs p
          · have kept : loadable fs (.ok p :: rest) = p :: loadable fs rest := by
              simp [loadable, Except.toOption, load]
            have step : classify fs dir (.ok p :: rest) =
                (classify fs dir rest).map (p :: ·) := by
              obtain ⟨isCedar, keep⟩ := loadable_iff.mp load
              simp [classify, isCedar, keep]
            rw [step, kept]
            cases tail : classify fs dir rest with
            | error e =>
                have fails : ¬ ∀ source, Except.error source ∉ rest := by
                  intro clean
                  rw [ih.mpr ⟨clean, rfl⟩] at tail
                  cases tail
                simp [Except.map, fails]
            | ok files =>
                obtain ⟨clean, rfl⟩ := ih.mp tail
                simp [Except.map, clean, eq_comm]
          · have dropped : loadable fs (.ok p :: rest) = loadable fs rest := by
              simp [loadable, Except.toOption, load]
            have step : classify fs dir (.ok p :: rest) = classify fs dir rest := by
              by_cases isCedar : p.extension = some cedarExtension
              · cases skip : policyFileSkipReason fs p with
                | none => exact absurd (loadable_iff.mpr ⟨isCedar, skip⟩) load
                | some reason => simp [classify, isCedar, skip]
              · simp [classify, isCedar]
            rw [step, dropped, ih]

/-! ## The policies of the files -/

variable {Schema β : Type} (x : Externals Schema β)

def numbered (stem : String) (ordinal : Nat) (parsed : List (Cedar.Policy β)) :
    List (Cedar.Policy β) :=
  (parsed.zipIdx ordinal).map fun entry =>
    x.crate.newId entry.1 (policyId x stem entry.2 entry.1)

theorem addPolicies_eq_ok_iff {path : Path} {stem : String} {ordinal : Nat}
    {parsed : List (Cedar.Policy β)} {set after : Cedar.PolicySet β} :
    addPolicies x path stem ordinal parsed set = .ok after ↔
      after.policies = set.policies ++ numbered x stem ordinal parsed := by
  induction parsed generalizing ordinal set with
  | nil =>
      rw [addPolicies, Except.ok.injEq]
      constructor
      · rintro rfl
        exact (List.append_nil _).symm
      · intro h
        exact (Cedar.PolicySet.eq_of_policies (h.trans (List.append_nil _))).symm
  | cons p rest ih =>
      have split : numbered x stem ordinal (p :: rest) =
          x.crate.newId p (policyId x stem ordinal p) ::
            numbered x stem (ordinal + 1) rest := rfl
      rw [addPolicies, split]
      cases added : x.crate.add set (x.crate.newId p (policyId x stem ordinal p)) with
      | error message =>
          refine iff_of_false (by simp) fun h => ?_
          -- the policies up to this one have ids of their own, so it could be added
          have distinct := after.distinct
          rw [h, List.append_cons, List.map_append, List.nodup_append] at distinct
          have fits : x.crate.add set (x.crate.newId p (policyId x stem ordinal p)) =
              .ok ⟨_, distinct.1⟩ :=
            (x.crate.add_eq_ok_iff _ _ _).mpr rfl
          rw [added] at fits
          cases fits
      | ok next =>
          have grown := (x.crate.add_eq_ok_iff _ _ _).mp added
          simp only [ih, grown, List.append_assoc, List.singleton_append]

/-- The file reads as UTF-8 and its text parses. -/
def Parses (fs : FsView) (p : Path) : Prop :=
  ∃ text parsed, fs.readToString p = .ok text ∧ x.crate.parsePolicies text = .ok parsed

/-- The static policies of a file, under the ids the load gives them. -/
def policiesOf (fs : FsView) (p : Path) : List (Cedar.Policy β) :=
  match fs.readToString p with
  | .error _ => []
  | .ok text =>
      match x.crate.parsePolicies text with
      | .error _ => []
      | .ok parsed => numbered x ((p.fileStem.map fromUtf8Lossy).getD "policy") 0 parsed

def digested (fs : FsView) (digest : ContentDigest) (p : Path) : ContentDigest :=
  match fs.readToString p with
  | .error _ => digest
  | .ok text => digest.file (p.fileName.getD []) text

theorem loadFile_eq_ok_iff {fs : FsView} {set after : Cedar.PolicySet β}
    {digest fed : ContentDigest} {p : Path} :
    loadFile x fs (set, digest) p = .ok (after, fed) ↔
      Parses x fs p ∧ after.policies = set.policies ++ policiesOf x fs p ∧
        fed = digested fs digest p := by
  cases read : fs.readToString p with
  | error source => simp [loadFile, read, Parses]
  | ok text =>
      cases parses : x.crate.parsePolicies text with
      | error message => simp [loadFile, read, parses, Parses]
      | ok parsed =>
          have goes : Parses x fs p := ⟨text, parsed, read, parses⟩
          simp only [policiesOf, digested, read, parses, ← @addPolicies_eq_ok_iff _ β x p]
          simp only [loadFile, read, parses, goes, true_and]
          cases addPolicies x p ((p.fileStem.map fromUtf8Lossy).getD "policy") 0
            parsed set with
          | error e => simp [Except.map]
          | ok grown => simp [Except.map, eq_comm]

theorem foldlM_loadFile_eq_ok_iff {fs : FsView} {paths : List Path}
    {set after : Cedar.PolicySet β} {digest fed : ContentDigest} :
    paths.foldlM (loadFile x fs) (set, digest) = .ok (after, fed) ↔
      (∀ p ∈ paths, Parses x fs p) ∧
        after.policies = set.policies ++ paths.flatMap (policiesOf x fs) ∧
        fed = paths.foldl (digested fs) digest := by
  induction paths generalizing set digest with
  | nil =>
      simp only [List.foldlM_nil, pure, Except.pure, Except.ok.injEq, Prod.mk.injEq]
      constructor
      · rintro ⟨rfl, rfl⟩
        simp
      · rintro ⟨-, same, rfl⟩
        refine ⟨(Cedar.PolicySet.eq_of_policies ?_).symm, rfl⟩
        simpa using same
  | cons p rest ih =>
      rw [List.foldlM_cons]
      constructor
      · intro h
        cases step : loadFile x fs (set, digest) p with
        | error e =>
            rw [step] at h
            cases h
        | ok mid =>
            rw [step] at h
            obtain ⟨parses, grown, fedOne⟩ := (loadFile_eq_ok_iff x).mp step
            obtain ⟨others, grownRest, fedRest⟩ := ih.mp h
            refine ⟨by simpa [parses] using others, ?_, ?_⟩
            · rw [grownRest, grown, List.append_assoc, List.flatMap_cons]
            · rw [fedRest, fedOne, List.foldl_cons]
      · rintro ⟨all, grown, rfl⟩
        have distinct := after.distinct
        rw [grown, List.flatMap_cons, ← List.append_assoc, List.map_append,
          List.nodup_append] at distinct
        have step : loadFile x fs (set, digest) p =
            .ok (⟨set.policies ++ policiesOf x fs p, distinct.1⟩, digested fs digest p) :=
          (loadFile_eq_ok_iff x).mpr ⟨all p List.mem_cons_self, rfl, rfl⟩
        rw [step]
        refine ih.mpr ⟨fun q mem => all q (List.mem_cons_of_mem p mem), ?_, rfl⟩
        rw [grown, List.flatMap_cons, List.append_assoc]

/-! ## The whole load -/

/-- The files of a listing in the order they are read. -/
def loadOrder (fs : FsView) (listing : List (Except IoError Path)) : List Path :=
  (loadable fs listing).mergeSort Path.le

theorem loadOrder_perm (fs : FsView) (listing : List (Except IoError Path)) :
    (loadOrder fs listing).Perm (loadable fs listing) :=
  List.mergeSort_perm _ _

theorem checked_eq_ok_iff {set : Cedar.PolicySet β} {schema : Schema} {source : Path}
    {generation : UInt64} {files : List Path} {contentHash : String} {now : Nat}
    {loaded : LoadedPolicies β} :
    checked x set schema source generation files contentHash now = .ok loaded ↔
      Accepted x schema loaded ∧ loaded = ⟨set, generation, now, files, contentHash⟩ := by
  refine ⟨checked_eq_ok x, ?_⟩
  rintro ⟨⟨nonempty, valid⟩, rfl⟩
  rw [checked, if_neg nonempty, valid]

theorem loadEntries_eq_ok_iff {fs : FsView} {dir : Path}
    {listing : List (Except IoError Path)} {schema : Schema} {generation : UInt64}
    {now : Nat} {loaded : LoadedPolicies β} :
    loadEntries x fs dir listing schema generation now = .ok loaded ↔
      (∀ source, .error source ∉ listing) ∧ (∀ p ∈ loadOrder fs listing, Parses x fs p) ∧
        Accepted x schema loaded ∧
        loaded.set.policies = (loadOrder fs listing).flatMap (policiesOf x fs) ∧
        loaded = { loaded with
          generation, loadedAt := now, files := loadOrder fs listing
          contentHash :=
            ((loadOrder fs listing).foldl (digested fs) .new).finish x.sha256 } := by
  constructor
  · intro h
    cases classified : classify fs dir listing with
    | error e =>
        simp only [loadEntries, classified] at h
        cases h
    | ok entries =>
        obtain ⟨clean, rfl⟩ := classify_eq_ok_iff.mp classified
        cases read : (loadOrder fs listing).foldlM (loadFile x fs) (.new, .new) with
        | error e =>
            simp only [loadOrder] at read
            simp only [loadEntries, classified, read] at h
            cases h
        | ok state =>
            obtain ⟨parses, policies, fed⟩ := (foldlM_loadFile_eq_ok_iff x).mp read
            simp only [loadOrder] at read
            simp only [loadEntries, classified, read] at h
            obtain ⟨accepted, rfl⟩ := checked_eq_ok x h
            exact ⟨clean, parses, accepted, policies, by rw [fed]; rfl⟩
  · rintro ⟨clean, parses, accepted, policies, same⟩
    have classified : classify fs dir listing = .ok (loadable fs listing) :=
      classify_eq_ok_iff.mpr ⟨clean, rfl⟩
    have read : (loadOrder fs listing).foldlM (loadFile x fs) (.new, .new) =
        .ok (loaded.set, (loadOrder fs listing).foldl (digested fs) .new) :=
      (foldlM_loadFile_eq_ok_iff x).mpr ⟨parses, policies, rfl⟩
    simp only [loadOrder] at read
    simp only [loadEntries, classified, read]
    exact (checked_eq_ok_iff x).mpr ⟨accepted, same⟩

/-- A load reads neither the clock nor the generation it is given. -/
theorem loadDir_anytime {fs : FsView} {dir : Path} {schema : Schema} {generation : UInt64}
    {now : Nat} {loaded : LoadedPolicies β}
    (h : loadDir x fs dir schema generation now = .ok loaded) (generation' : UInt64)
    (now' : Nat) : loadDir x fs dir schema generation' now' =
      .ok { loaded with generation := generation', loadedAt := now' } := by
  cases listed : fs.listing dir with
  | error source =>
      simp only [loadDir, listed] at h
      cases h
  | ok listing =>
      simp only [loadDir, listed] at h ⊢
      obtain ⟨clean, parses, ⟨nonempty, valid⟩, policies, same⟩ :=
        (loadEntries_eq_ok_iff x).mp h
      refine (loadEntries_eq_ok_iff x).mpr
        ⟨clean, parses, ⟨nonempty, valid⟩, policies, ?_⟩
      rw [same]

theorem toOption_eq_some_iff {ε α : Type} {r : Except ε α} {a : α} :
    r.toOption = some a ↔ r = .ok a := by
  cases r <;> simp [Except.toOption]

/-- A load takes every policy of every loadable file or fails, and the order in
which the directory lists its entries decides nothing. -/
theorem loadEntries_contract (fs : FsView) (dir : Path)
    (listing : List (Except IoError Path)) (schema : Schema)
    (generation : UInt64) (now : Nat) :
    ((∃ loaded, loadEntries x fs dir listing schema generation now = .ok loaded) ↔
      (∀ source, .error source ∉ listing) ∧
        (∀ p, .ok p ∈ listing → PolicyFile fs p → Parses x fs p) ∧
        (((loadable fs listing).flatMap (policiesOf x fs)).map Cedar.Policy.id).Nodup ∧
        (loadable fs listing).flatMap (policiesOf x fs) ≠ [] ∧
        ∀ set : Cedar.PolicySet β,
          set.policies = (loadOrder fs listing).flatMap (policiesOf x fs) →
            x.crate.validationErrors schema set = []) ∧
    (∀ loaded, loadEntries x fs dir listing schema generation now = .ok loaded →
      loaded.set.policies.Perm ((loadable fs listing).flatMap (policiesOf x fs)) ∧
        loaded.files.Perm (loadable fs listing)) ∧
    ∀ other, other.Perm listing →
      (loadEntries x fs dir other schema generation now).toOption =
        (loadEntries x fs dir listing schema generation now).toOption := by
  have order := loadOrder_perm fs listing
  have policies := order.flatMap_right (policiesOf x fs)
  refine ⟨⟨?_, ?_⟩, ?_, ?_⟩
  · rintro ⟨loaded, h⟩
    obtain ⟨clean, parses, accepted, same, -⟩ := (loadEntries_eq_ok_iff x).mp h
    have perm := same ▸ policies
    refine ⟨clean, fun p mem load => ?_, ?_, ?_, fun set hset => ?_⟩
    · exact parses p (order.mem_iff.mpr (mem_loadable.mpr ⟨mem, load⟩))
    · exact (perm.map Cedar.Policy.id).nodup_iff.mp loaded.set.distinct
    · intro empty
      rw [empty] at perm
      apply accepted.nonempty
      rw [x.crate.numOfPolicies_eq, perm.eq_nil]
      rfl
    · obtain rfl := Cedar.PolicySet.eq_of_policies (hset.trans same.symm)
      exact accepted.valid
  · rintro ⟨clean, parses, distinct, nonempty, valid⟩
    let set : Cedar.PolicySet β :=
      ⟨_, (policies.map Cedar.Policy.id).nodup_iff.mpr distinct⟩
    refine ⟨⟨set, generation, now, loadOrder fs listing, _⟩,
      (loadEntries_eq_ok_iff x).mpr
        ⟨clean, fun p mem => ?_, ⟨?_, valid set rfl⟩, rfl, rfl⟩⟩
    · obtain ⟨listed, load⟩ := mem_loadable.mp (order.mem_iff.mp mem)
      exact parses p listed load
    · intro empty
      have none : (loadOrder fs listing).flatMap (policiesOf x fs) = [] :=
        List.length_eq_zero_iff.mp ((x.crate.numOfPolicies_eq set).symm.trans empty)
      rw [none] at policies
      exact nonempty policies.symm.eq_nil
  · intro loaded h
    obtain ⟨-, -, -, same, rest⟩ := (loadEntries_eq_ok_iff x).mp h
    have files : loaded.files = loadOrder fs listing := congrArg LoadedPolicies.files rest
    exact ⟨same ▸ policies, files ▸ order⟩
  · intro other perm
    have sameOrder : loadOrder fs other = loadOrder fs listing :=
      Path.mergeSort_eq_of_perm (loadable_perm fs perm)
    have sameLoads (loaded : LoadedPolicies β) :
        loadEntries x fs dir other schema generation now = .ok loaded ↔
          loadEntries x fs dir listing schema generation now = .ok loaded := by
      simp only [loadEntries_eq_ok_iff, sameOrder, perm.mem_iff]
    apply Option.ext
    intro loaded
    simp only [toOption_eq_some_iff, sameLoads]

end NonoCedarPdp
