import NonoCedarPdp.Engine

/-!
The trust check on the policy directory (`isolation.rs`), the one that runs at
startup and again before every reload. The checks on the audit log and on the TLS
key, and the advisory warnings, are left out.
-/
namespace NonoCedarPdp
open RustText

inductive IsolationError
  | writable (what : String) (path : Path) (mode who : String)
  | writableAncestor (what : String) (path ancestor : Path) (mode who : String)
  | foreignOwner (what : String) (path : Path) (owner euid : UInt32)
  | io (what : String) (path : Path) (source : IoError)
  deriving DecidableEq, Repr

def IsolationError.text : IsolationError → String
  | .writable what path mode who =>
      what ++ " " ++ path.display ++ " is " ++ who ++ "-writable (mode " ++ mode ++
        ") — another local user could add or rewrite a policy and decide this " ++
        "daemon's approvals, so it " ++
        "refuses to serve. Fix with `chmod go-w " ++ path.display ++
        "` (a user-private group counts: this process cannot tell one from a shared " ++
        "group) — but review the contents first: tightening the mode does not undo " ++
        "content added or modified while the path was writable by others. This says " ++
        "nothing about a sandboxed agent, which runs as the same user as this daemon " ++
        "and is bounded only by its nono profile's write grants"
  | .writableAncestor what path ancestor mode who =>
      what ++ " " ++ path.display ++ " has a " ++ who ++
        "-writable non-sticky ancestor " ++
        ancestor.display ++ " (mode " ++ mode ++
          ") — another local user could rename entries in " ++
        "that ancestor and substitute the whole tree below it, redirecting what this " ++
        "daemon reads " ++
        "and writes there no matter how tight the " ++ what ++
        "'s own mode is, so it refuses to " ++
        "serve. Fix with `chmod go-w " ++ ancestor.display ++
        "`, or set the sticky bit (`chmod " ++
        "+t " ++ ancestor.display ++
        "`) if the directory is deliberately shared: sticky stops others renaming or " ++
        "unlinking entries they do not own, which is why /tmp-style 1777 directories " ++
        "are exempt here (and why sticky does not exempt the policy directory itself, " ++
        "where creating a new *.cedar file is the attack). This says nothing about a " ++
        "sandboxed agent, which runs as the same user as this daemon and is bounded " ++
        "only by its nono profile's write grants"
  | .foreignOwner what path owner euid =>
      what ++ " " ++ path.display ++ " is owned by uid " ++ toString owner ++
        ", which is neither " ++
        "this daemon's user (uid " ++ toString euid ++
        ") nor root — an owner can loosen, rename or rewrite a path at will, so a " ++
        "mode that looks tight proves nothing about who controls it (a component " ++
        "another local user pre-created under a /tmp-style sticky ancestor passes " ++
        "every mode test this way: sticky stops renames of entries you do not own, " ++
        "not creation), and the daemon refuses to serve. Recreate the path under a " ++
        "directory this user owns, or have root take ownership of it. This says " ++
        "nothing about a sandboxed agent, which runs as the same user as this daemon " ++
        "and is bounded only by its nono profile's write grants"
  | .io what path source =>
      "checking " ++ what ++ " " ++ path.display ++ ": " ++ source.text ++ " — " ++
        "refusing to serve without knowing who else can reach it"

structure ComponentFacts where
  ownerUid : UInt32
  mode : UInt32
  isDir : Bool
  deriving DecidableEq, Repr

def ComponentFacts.of (metadata : Metadata) : ComponentFacts :=
  ⟨metadata.uid, metadata.mode &&& 0o7777, metadata.isDir⟩

def foreignOwner (ownerUid euid : UInt32) : Option UInt32 :=
  if ownerUid ≠ euid ∧ ownerUid ≠ 0 then some ownerUid else none

def looseWriters (mode : UInt32) : Option String :=
  match decide (mode &&& 0o020 ≠ 0), decide (mode &&& 0o002 ≠ 0) with
  | true, true => some "group- and world"
  | true, false => some "group"
  | false, true => some "world"
  | false, false => none

/-- On an ancestor the sticky bit is a mitigation. -/
def looseAncestorWriters (mode : UInt32) : Option String :=
  if mode &&& 0o1000 ≠ 0 then none else looseWriters mode

def formatMode (mode : UInt32) : String := paddedOctal mode.toNat

/-- Ownership first: a foreign owner can undo any mode. -/
def judgeComponent (what : String) (path : Path) (facts : ComponentFacts)
    (euid : UInt32) : Except IsolationError Unit :=
  match foreignOwner facts.ownerUid euid with
  | some owner => .error (.foreignOwner what path owner euid)
  | none =>
      match looseWriters facts.mode with
      | some who => .error (.writable what path (formatMode facts.mode) who)
      | none => .ok ()

def judgeAncestor (what ancestorWhat : String) (path ancestor : Path)
    (facts : ComponentFacts) (euid : UInt32) : Except IsolationError Unit :=
  if facts.isDir = false then .ok ()
  else
    match foreignOwner facts.ownerUid euid with
    | some owner => .error (.foreignOwner ancestorWhat ancestor owner euid)
    | none =>
        match looseAncestorWriters facts.mode with
        | some who =>
            .error (.writableAncestor what path ancestor (formatMode facts.mode) who)
        | none => .ok ()

theorem Path.length_parent {p q : Path} (h : p.parent = some q) :
    q.components.length < p.components.length := by
  rw [Path.parent] at h
  split at h
  · cases h
  · next nonempty =>
    cases h
    have := List.length_pos_iff.mpr nonempty
    simp only [List.length_dropLast]
    omega

section Checks
variable (fs : FsView)

def refuseIfUntrusted (what : String) (path : Path) (euid : UInt32) :
    Except IsolationError Unit :=
  match fs.metadata path with
  | .error source => .error (.io what path source)
  | .ok metadata => judgeComponent what path (.of metadata) euid

/-- The ancestors from `current` up. One that does not exist is passed over. -/
def walkAncestors (what ancestorWhat : String) (path : Path) (euid : UInt32)
    (current : Option Path) : Except IsolationError Unit :=
  match current with
  | none => .ok ()
  | some ancestor =>
      if ancestor = .empty then .ok ()
      else
        match fs.metadata ancestor with
        | .ok metadata => do
            judgeAncestor what ancestorWhat path ancestor (.of metadata) euid
            walkAncestors what ancestorWhat path euid ancestor.parent
        | .error source =>
            if source.kind = .notFound then
              walkAncestors what ancestorWhat path euid ancestor.parent
            else .error (.io ancestorWhat ancestor source)
termination_by match current with
  | none => 0
  | some ancestor => ancestor.components.length + 1
decreasing_by
  all_goals
    cases up : ancestor.parent with
    | none => simp
    | some q => exact Nat.succ_lt_succ (Path.length_parent up)

def refuseOnUntrustedAncestors (what ancestorWhat : String) (path : Path)
    (euid : UInt32) : Except IsolationError Unit :=
  walkAncestors fs what ancestorWhat path euid path.parent

/-- The loop of `absolutize`: `rest` holds the names taken off `joined` so far. -/
def resolveExisting (joined head : Path) (rest : List OsString) : Path :=
  match fs.canonicalize head with
  | .ok resolved => resolved.pushAll rest
  | .error _ =>
      match head.fileName, _up : head.parent with
      | some name, some parent =>
          if parent = .empty then joined else resolveExisting joined parent (name :: rest)
      | _, _ => joined
termination_by head.components.length
decreasing_by exact Path.length_parent _up

def joinedPath (path : Path) (cwd : Option Path) : Path :=
  if path.absolute then path
  else
    match cwd with
    | some cwd => cwd.join path
    | none =>
        match fs.currentDir with
        | .ok cwd => cwd.join path
        | .error _ => path

def absolutize (path : Path) (cwd : Option Path) : Path :=
  let joined := joinedPath fs path cwd
  resolveExisting fs joined joined []

def resolveExistingPrefix (path : Path) : Path := absolutize fs path none

/-- Every entry the loader would load, in listing order. -/
def refuseUntrustedEntries (policyDir : Path) (euid : UInt32) :
    List (Except IoError Path) → Except IsolationError Unit
  | [] => .ok ()
  | .error source :: _ => .error (.io "policy directory" policyDir source)
  | .ok path :: rest =>
      if path.extension ≠ some cedarExtension then
        refuseUntrustedEntries policyDir euid rest
      else if isLoadablePolicyFile fs path = false then
        refuseUntrustedEntries policyDir euid rest
      else do
        refuseIfUntrusted fs "policy file" path euid
        refuseUntrustedEntries policyDir euid rest

def refuseUntrustedPolicyDirAs (policyDir : Path) (euid : UInt32) :
    Except IsolationError Unit := do
  let policyDir := absolutize fs policyDir none
  refuseIfUntrusted fs "policy directory" policyDir euid
  match fs.listing policyDir with
  | .error source => .error (.io "policy directory" policyDir source)
  | .ok entries =>
      refuseUntrustedEntries fs policyDir euid entries
      refuseOnUntrustedAncestors fs "policy directory"
        "ancestor of the policy directory" policyDir euid

end Checks

end NonoCedarPdp
