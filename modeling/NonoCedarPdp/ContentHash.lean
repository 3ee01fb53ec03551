import NonoCedarPdp.Lib.Framing
import NonoCedarPdp.PolicyLoading

/-!
The provenance digest. The bytes it hashes determine the files it was fed, so the
hash of a load stands for its files, up to a collision of SHA-256.
-/
namespace NonoCedarPdp
open RustText

/-! ## The length prefix -/

/-- A number below `b ^ k` is determined by its `k` lowest digits in base `b`. -/
theorem eq_of_digits {b k m n : Nat} (hm : m < b ^ k) (hn : n < b ^ k)
    (digits : ∀ i < k, m / b ^ i % b = n / b ^ i % b) : m = n := by
  induction k generalizing m n with
  | zero =>
      rw [Nat.pow_zero] at hm hn
      omega
  | succ k ih =>
      have first : m % b = n % b := by simpa using digits 0 (Nat.succ_pos k)
      have rest : m / b = n / b := by
        apply ih
        · exact Nat.div_lt_of_lt_mul (by rwa [Nat.pow_succ'] at hm)
        · exact Nat.div_lt_of_lt_mul (by rwa [Nat.pow_succ'] at hn)
        · intro i hi
          have digit := digits (i + 1) (by omega)
          rwa [Nat.pow_succ', ← Nat.div_div_eq_div_mul, ← Nat.div_div_eq_div_mul] at digit
      rw [← Nat.div_add_mod m b, first, rest, Nat.div_add_mod]

theorem toLeBytes_injective : Function.Injective toLeBytes := by
  intro m n same
  apply UInt64.toNat_inj.mp
  have width : (2 : Nat) ^ 64 = 256 ^ 8 := by decide
  apply eq_of_digits (width ▸ m.toNat_lt) (width ▸ n.toNat_lt)
  intro i hi
  have byte := congrArg (fun l : List UInt8 => l[i]?.map UInt8.toNat) same
  have shift : 2 ^ (8 * i % 64) = 256 ^ i := by
    rw [Nat.mod_eq_of_lt (by omega), Nat.pow_mul]
  simpa [toLeBytes, hi, Nat.shiftRight_eq_div_pow, shift] using byte

theorem selfDelimiting_length :
    Framing.SelfDelimiting {n | n < 2 ^ 64} fun n : Nat => toLeBytes n.toUInt64 := by
  apply Framing.selfDelimiting_of_length (n := 8)
  · intro n
    simp [toLeBytes]
  · intro m hm n hn same
    have mod := congrArg UInt64.toNat (toLeBytes_injective same)
    simp only [Nat.toUInt64_eq, UInt64.toNat_ofNat'] at mod
    rwa [Nat.mod_eq_of_lt hm, Nat.mod_eq_of_lt hn] at mod

/-! ## The stream of frames -/

/-- A file name and what the file holds, both short enough for their length prefix. -/
def Framed (file : OsString × String) : Prop :=
  file.1.length < 2 ^ 64 ∧ (Utf8.encode file.2).length < 2 ^ 64

instance : DecidablePred Framed := fun file =>
  inferInstanceAs
    (Decidable (file.1.length < 2 ^ 64 ∧ (Utf8.encode file.2).length < 2 ^ 64))

namespace ContentDigest

def frame (file : OsString × String) : List UInt8 :=
  Framing.lengthPrefixed (fun n => toLeBytes n.toUInt64) file.1 ++
    Framing.lengthPrefixed (fun n => toLeBytes n.toUInt64) (Utf8.encode file.2)

/-- The digest after all of `files`, in order. -/
def ofFiles (files : List (OsString × String)) : ContentDigest :=
  files.foldl (fun digest file => digest.file file.1 file.2) new

theorem fed_ofFiles (files : List (OsString × String)) :
    (ofFiles files).fed = files.flatMap frame := by
  have grow (digest : ContentDigest) :
      (files.foldl (fun digest file => digest.file file.1 file.2) digest).fed =
        digest.fed ++ files.flatMap frame := by
    induction files generalizing digest with
    | nil => exact (List.append_nil _).symm
    | cons file rest ih =>
        rw [List.foldl_cons, ih]
        simp [ContentDigest.file, frame, Framing.lengthPrefixed]
  exact grow new

theorem selfDelimiting_frame : Framing.SelfDelimiting {file | Framed file} frame := by
  have prefixed := selfDelimiting_length.lengthPrefixed
  exact prefixed.prod (prefixed.comp fun _ _ => Utf8.encode_injective)

theorem frame_ne_nil (file : OsString × String) : frame file ≠ [] := by
  have long : (frame file).length ≥ 8 := by
    simp [frame, Framing.lengthPrefixed, toLeBytes]
  intro empty
  rw [empty] at long
  cases long

theorem fed_ofFiles_injOn :
    Set.InjOn (fun files => (ofFiles files).fed)
      {files | ∀ file ∈ files, Framed file} := by
  intro files h others h' same
  simp only [fed_ofFiles] at same
  exact selfDelimiting_frame.flatMap_injOn (fun file _ => frame_ne_nil file) h h' same

/-! ## The hash as text -/

theorem lowerHex_two (n : Fin 256) :
    (lowerHex 2 n).toList = [Nat.digitChar (n / 16), Nat.digitChar (n % 16)] := by
  revert n
  decide +kernel

theorem digitChar_injOn {m n : Nat} (hm : m < 16) (hn : n < 16)
    (same : Nat.digitChar m = Nat.digitChar n) : m = n := by
  have all : ∀ a b : Fin 16, Nat.digitChar a = Nat.digitChar b → a = b := by decide
  exact congrArg Fin.val (all ⟨m, hm⟩ ⟨n, hn⟩ same)

theorem selfDelimiting_hexByte :
    Framing.SelfDelimiting Set.univ fun b : UInt8 => (lowerHex 2 b.toNat).toList := by
  have hex (b : UInt8) := lowerHex_two ⟨b.toNat, b.toNat_lt⟩
  apply Framing.selfDelimiting_of_length (n := 2)
  · intro b
    rw [hex b]
    rfl
  · intro b _ c _ same
    have digits := (hex b).symm.trans (same.trans (hex c))
    obtain ⟨high, low⟩ := List.cons.inj digits
    have hb := b.toNat_lt
    have hc := c.toNat_lt
    have sixteens : b.toNat / 16 = c.toNat / 16 :=
      digitChar_injOn (by omega) (by omega) high
    have ones : b.toNat % 16 = c.toNat % 16 :=
      digitChar_injOn (by omega) (by omega) (List.cons.inj low).1
    apply UInt8.toNat_inj.mp
    omega

theorem sha256_eq_of_finish {sha256 : List UInt8 → List UInt8}
    {digest other : ContentDigest} (same : digest.finish sha256 = other.finish sha256) :
    sha256 digest.fed = sha256 other.fed := by
  have text := congrArg String.toList same
  simp only [finish, String.toList_append, String.toList_join,
    List.append_cancel_left_eq] at text
  have nonempty (b : UInt8) : (lowerHex 2 b.toNat).toList ≠ [] := by
    rw [lowerHex_two ⟨b.toNat, b.toNat_lt⟩]
    exact List.cons_ne_nil _ _
  apply selfDelimiting_hexByte.flatMap_injOn (fun b _ => nonempty b)
    (fun _ _ => Set.mem_univ _) (fun _ _ => Set.mem_univ _)
  simpa [List.flatMap_map] using text

end ContentDigest

/-! ## The files of a load -/

/-- The files as a view of the file system shows them: their names and their contents. -/
def FileTexts (fs : FsView) (paths : List Path)
    (files : List (OsString × String)) : Prop :=
  List.Forall₂
    (fun p file => p.fileName = some file.1 ∧ fs.readToString p = .ok file.2) paths files

theorem foldl_digested {fs : FsView} {paths : List Path}
    {files : List (OsString × String)} (h : FileTexts fs paths files)
    (digest : ContentDigest) : paths.foldl (digested fs) digest =
      files.foldl (fun digest file => digest.file file.1 file.2) digest := by
  induction h generalizing digest with
  | nil => rfl
  | cons file _ ih =>
      rw [List.foldl_cons, List.foldl_cons, ih]
      simp [digested, file.1, file.2]

theorem exists_fileTexts {fs : FsView} {paths : List Path}
    (h : ∀ p ∈ paths, ∃ name text,
      p.fileName = some name ∧ fs.readToString p = .ok text) :
    ∃ files, FileTexts fs paths files := by
  induction paths with
  | nil => exact ⟨[], .nil⟩
  | cons p rest ih =>
      obtain ⟨name, text, named, read⟩ := h p List.mem_cons_self
      obtain ⟨files, others⟩ := ih fun q mem => h q (List.mem_cons_of_mem p mem)
      exact ⟨(name, text) :: files, .cons ⟨named, read⟩ others⟩

/-- A view shows one text under a path. -/
theorem FileTexts.unique {fs : FsView} {paths : List Path}
    {files files' : List (OsString × String)} (texts : FileTexts fs paths files)
    (texts' : FileTexts fs paths files') : files = files' := by
  induction texts generalizing files' with
  | nil =>
      cases texts'
      rfl
  | @cons p file paths files shown _ ih =>
      cases texts' with
      | @cons _ file' _ rest shown' others' =>
          have name : file.1 = file'.1 := Option.some.inj (shown.1.symm.trans shown'.1)
          have text : file.2 = file'.2 := Except.ok.inj (shown.2.symm.trans shown'.2)
          rw [Prod.ext name text, ih others']

variable {Schema β : Type} (x : Externals Schema β)

/-- The hash of a load is that of the files it loaded. -/
theorem fileTexts_of_loadDir {fs : FsView} {dir : Path} {schema : Schema}
    {generation : UInt64} {now : Nat} {loaded : LoadedPolicies β}
    (h : loadDir x fs dir schema generation now = .ok loaded) :
    ∃ files, FileTexts fs loaded.files files ∧
      loaded.contentHash = (ContentDigest.ofFiles files).finish x.sha256 := by
  cases listed : fs.listing dir with
  | error source =>
      simp only [loadDir, listed] at h
      cases h
  | ok listing =>
      simp only [loadDir, listed] at h
      obtain ⟨-, parses, -, -, same⟩ := (loadEntries_eq_ok_iff x).mp h
      have order : loaded.files = loadOrder fs listing :=
        congrArg LoadedPolicies.files same
      have hash := congrArg LoadedPolicies.contentHash same
      have all_read : ∀ p ∈ loadOrder fs listing, ∃ name text, p.fileName = some name ∧
          fs.readToString p = .ok text := by
        intro p mem
        obtain ⟨text, parsed, read, -⟩ := parses p mem
        obtain ⟨-, load⟩ := mem_loadable.mp ((loadOrder_perm fs listing).mem_iff.mp mem)
        obtain ⟨name, decoded, -⟩ := load.named
        obtain ⟨bytes, named, -⟩ := Option.bind_eq_some_iff.mp decoded
        exact ⟨bytes, text, named, read⟩
      obtain ⟨files, holds⟩ := exists_fileTexts all_read
      refine ⟨files, order ▸ holds, hash.trans ?_⟩
      rw [foldl_digested holds]
      rfl

theorem contentHash_of_fileTexts {fs : FsView} {dir : Path} {schema : Schema}
    {generation : UInt64} {now : Nat} {loaded : LoadedPolicies β}
    {files : List (OsString × String)}
    (h : loadDir x fs dir schema generation now = .ok loaded)
    (texts : FileTexts fs loaded.files files) :
    loaded.contentHash = (ContentDigest.ofFiles files).finish x.sha256 := by
  obtain ⟨files', texts', hash⟩ := fileTexts_of_loadDir x h
  rw [hash, texts.unique texts']

/-- Two inputs that a hash function takes to one value. -/
def Collides (sha256 : List UInt8 → List UInt8) (fed other : List UInt8) : Prop :=
  fed ≠ other ∧ sha256 fed = sha256 other

/-- What is hashed determines the files, so loads of one content hash hold the same
files, or their two streams collide. -/
theorem contentHash_framing :
    (∀ files others : List (OsString × String), (∀ file ∈ files, Framed file) →
      (∀ file ∈ others, Framed file) →
      (ContentDigest.ofFiles files).fed = (ContentDigest.ofFiles others).fed →
      files = others) ∧
    ∀ {fs fs' : FsView} {dir dir' : Path} {schema schema' : Schema}
      {generation generation' : UInt64} {now now' : Nat}
      {loaded loaded' : LoadedPolicies β},
      loadDir x fs dir schema generation now = .ok loaded →
      loadDir x fs' dir' schema' generation' now' = .ok loaded' →
      loaded.contentHash = loaded'.contentHash →
      ∃ files files', FileTexts fs loaded.files files ∧
        FileTexts fs' loaded'.files files' ∧
        ((∀ file ∈ files, Framed file) → (∀ file ∈ files', Framed file) →
          ¬ Collides x.sha256 (ContentDigest.ofFiles files).fed
            (ContentDigest.ofFiles files').fed →
          files = files') := by
  refine ⟨fun files others h h' => ContentDigest.fed_ofFiles_injOn h h', ?_⟩
  intro fs fs' dir dir' schema schema' generation generation' now now' loaded
    loaded' h h' same
  obtain ⟨files, holds, hash⟩ := fileTexts_of_loadDir x h
  obtain ⟨files', holds', hash'⟩ := fileTexts_of_loadDir x h'
  refine ⟨files, files', holds, holds', fun framed framed' noCollision => ?_⟩
  apply ContentDigest.fed_ofFiles_injOn framed framed'
  by_contra different
  rw [hash, hash'] at same
  exact noCollision ⟨different, ContentDigest.sha256_eq_of_finish same⟩

/-- A directory that lists its files in order is loaded as it is listed. -/
theorem loadDir_of_sorted {fs : FsView} {dir : Path}
    {listing : List (Except IoError Path)} {files : List Path}
    (listed : fs.listing dir = .ok listing)
    (classified : classify fs dir listing = .ok files)
    (sorted : files.Pairwise fun p q => Path.le p q) (schema : Schema)
    (generation : UInt64) (now : Nat) :
    loadDir x fs dir schema generation now =
      match files.foldlM (loadFile x fs) (.new, .new) with
      | .error e => .error e
      | .ok (set, digest) =>
          checked x set schema dir generation files (digest.finish x.sha256) now := by
  have entries := List.mergeSort_of_pairwise sorted
  rcases loaded : files.foldlM (loadFile x fs) (.new, .new) with e | ⟨set, digest⟩ <;>
    simp only [loadDir, listed, loadEntries, classified, entries, loaded]

def otherDir : Path := ⟨true, [.normal (Utf8.encode "other")]⟩

/-- A directory of the root with both files. -/
abbrev bothView (dir : OsString) : FsView := filesView dir [baseFile, denyFile]

def bothPaths (dir : OsString) : List Path :=
  [⟨true, [.normal dir, .normal baseFile.1]⟩, ⟨true, [.normal dir, .normal denyFile.1]⟩]

theorem loadDir_both (dir : OsString) (generation : UInt64) (now : Nat)
    {result : Except PolicyLoadError (LoadedPolicies Unit)}
    (loads : loadDir smallExternals (bothView dir) ⟨true, [.normal dir]⟩
      () generation now =
      result)
    (files : result.toOption.map LoadedPolicies.files = some (bothPaths dir)) :
    ∃ loaded, loadDir smallExternals (bothView dir) ⟨true, [.normal dir]⟩
      () generation now =
        .ok loaded ∧
      FileTexts (bothView dir) loaded.files [baseFile, denyFile] := by
  obtain ⟨loaded, found, files⟩ := Option.map_eq_some_iff.mp files
  have different : denyFile.1 ≠ baseFile.1 := by decide
  refine ⟨loaded, loads.trans (toOption_eq_some_iff.mp found), ?_⟩
  rw [files]
  refine .cons ⟨rfl, ?_⟩ (.cons ⟨rfl, ?_⟩ .nil)
  · simp [bothView, filesView]
  · simp [bothView, filesView, List.find?, different]

/-- Two directories with the same two files. -/
theorem contentHash_framing_small :
    ∃ first second : LoadedPolicies Unit,
      loadDir smallExternals (bothView (Utf8.encode "policies")) smallDir () 1 0 = .ok first ∧
        loadDir smallExternals (bothView (Utf8.encode "other")) otherDir () 2 0 = .ok second ∧
        ∃ files, FileTexts (bothView (Utf8.encode "policies")) first.files files ∧
          FileTexts (bothView (Utf8.encode "other")) second.files files := by
  obtain ⟨first, loads, texts⟩ := loadDir_both (Utf8.encode "policies") 1 0
    (loadDir_of_sorted smallExternals rfl rfl (by decide) () 1 0) (by decide +kernel)
  obtain ⟨second, loads', texts'⟩ := loadDir_both (Utf8.encode "other") 2 0
    (loadDir_of_sorted smallExternals rfl rfl (by decide) () 2 0) (by decide +kernel)
  have framed : ∀ file ∈ [baseFile, denyFile], Framed file := by decide +kernel
  have hash : first.contentHash = second.contentHash := by
    rw [contentHash_of_fileTexts smallExternals loads texts,
      contentHash_of_fileTexts smallExternals loads' texts']
  obtain ⟨files, files', shown, shown', same⟩ :=
    (contentHash_framing smallExternals).2 loads loads' hash
  obtain rfl := shown.unique texts
  obtain rfl := shown'.unique texts'
  have one := same framed framed fun collides => collides.1 rfl
  exact ⟨first, second, loads, loads', _, shown, one ▸ shown'⟩

end NonoCedarPdp
