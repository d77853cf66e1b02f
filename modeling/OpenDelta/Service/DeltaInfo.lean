import OpenDelta.Service.Config
import OpenDelta.Data.FileStore

/-!
# `DeltaInfo.java`

A delta as its JSON describes it: the ZIP it starts from, the update and the
signature delta, the ZIP it leads to. `org.json` is not part of the repository;
`Json` is what the code uses of it, `none` being a `JSONException`.
-/

namespace OpenDelta.Service

/-- The methods of `org.json` the code calls. -/
structure Json where
  Object : Type
  parse : String → Option Object
  keys : Object → List String
  getInt : Object → String → Option Int
  getLong : Object → String → Option Int64
  getString : Object → String → Option String
  getJSONObject : Object → String → Option Object
  /-- The objects of an array; `none` when an element is none. -/
  getJSONArray : Object → String → Option (List (Option Object))

structure FileSizeMD5 where
  size : Int64
  md5 : String
  deriving DecidableEq, Repr

/-- `FileUpdate`; `tag` is the path the file is already stored at. -/
structure FileUpdate where
  name : String
  tag : Option String
  update : FileSizeMD5
  applied : FileSizeMD5
  deriving DecidableEq, Repr

structure FileFull where
  name : String
  tag : Option String
  official : FileSizeMD5
  store : FileSizeMD5
  storeSigned : FileSizeMD5
  deriving DecidableEq, Repr

structure DeltaInfo where
  version : Int
  input : FileFull
  update : FileUpdate
  signature : FileUpdate
  out : FileFull
  revoked : Bool
  deriving DecidableEq, Repr

variable (J : Json)

def FileSizeMD5.parse (object : J.Object) (suffix : Option String) : Option FileSizeMD5 := do
  let ending := (suffix.map ("_" ++ ·)).getD ""
  let size ← J.getLong object ("size" ++ ending)
  let md5 ← J.getString object ("md5" ++ ending)
  return { size, md5 }

def FileUpdate.parse (object : J.Object) : Option FileUpdate := do
  let name ← J.getString object "name"
  let update ← FileSizeMD5.parse J object none
  let applied ← FileSizeMD5.parse J object (some "applied")
  return { name, tag := none, update, applied }

def FileFull.parse (object : J.Object) : Option FileFull := do
  let name ← J.getString object "name"
  let official ← FileSizeMD5.parse J object (some "official")
  let store ← FileSizeMD5.parse J object (some "store")
  let storeSigned ← FileSizeMD5.parse J object (some "store_signed")
  return { name, tag := none, official, store, storeSigned }

/-- The constructor on a decoded document; `none` is one of the exceptions its
caller catches. -/
def DeltaInfo.parse (text : String) (revoked : Bool) : Option DeltaInfo := do
  let object ← J.parse text
  let version ← J.getInt object "version"
  let input ← FileFull.parse J (← J.getJSONObject object "in")
  let update ← FileUpdate.parse J (← J.getJSONObject object "update")
  let signature ← FileUpdate.parse J (← J.getJSONObject object "signature")
  let out ← FileFull.parse J (← J.getJSONObject object "out")
  return { version, input, update, signature, out, revoked }

/-! ## Matching files -/

inductive UpdateKind where
  | update | applied
  deriving DecidableEq, Repr

inductive FullKind where
  | official | store | storeSigned
  deriving DecidableEq, Repr

/-- `File.length()`. -/
def fileLength (bytes : Bytes) : Int64 := Int64.ofNat bytes.length

/-- The first of some sizes and MD5s that the bytes have; by size alone when
`checkMD5` is off. -/
def matchSizes {κ : Type} (md5 : Bytes → String) (checkMD5 : Bool) (bytes : Bytes) :
    List (κ × FileSizeMD5) → Option κ
  | [] => none
  | (kind, wanted) :: rest =>
    if fileLength bytes = wanted.size ∧ (checkMD5 = false ∨ wanted.md5 = md5 bytes) then some kind
    else matchSizes md5 checkMD5 bytes rest

def FileUpdate.sizes (f : FileUpdate) : List (UpdateKind × FileSizeMD5) :=
  [(.update, f.update), (.applied, f.applied)]

def FileFull.sizes (f : FileFull) : List (FullKind × FileSizeMD5) :=
  [(.official, f.official), (.store, f.store), (.storeSigned, f.storeSigned)]

/-- `FileUpdate.match`. -/
def FileUpdate.matchFile (md5 : Bytes → String) (files : FileStore) (f : FileUpdate) (path : String)
    (checkMD5 : Bool) : Option UpdateKind :=
  (files.read path).bind fun bytes => matchSizes md5 checkMD5 bytes f.sizes

/-- `FileFull.match`. -/
def FileFull.matchFile (md5 : Bytes → String) (files : FileStore) (f : FileFull) (path : String)
    (checkMD5 : Bool) : Option FullKind :=
  (files.read path).bind fun bytes => matchSizes md5 checkMD5 bytes f.sizes

/-- Whether a match with `checkMD5` computes an MD5: some size fits. -/
def computesMD5 {κ : Type} (files : FileStore) (path : String) (sizes : List (κ × FileSizeMD5)) : Bool :=
  match files.read path with
  | none => false
  | some bytes => sizes.any fun (_, wanted) => fileLength bytes = wanted.size

/-- `isSignedFile`. -/
def FileFull.isSignedFile (files : FileStore) (f : FileFull) (path : String) : Bool :=
  match files.read path with
  | none => false
  | some bytes => fileLength bytes = f.storeSigned.size

/-- A match has the wanted size and, when checked, the wanted MD5. -/
theorem matchSizes_some {κ : Type} {md5 : Bytes → String} {checkMD5 : Bool} {bytes : Bytes} {kind : κ} :
    ∀ {sizes : List (κ × FileSizeMD5)}, matchSizes md5 checkMD5 bytes sizes = some kind →
      ∃ wanted, (kind, wanted) ∈ sizes ∧ fileLength bytes = wanted.size ∧
        (checkMD5 = false ∨ wanted.md5 = md5 bytes)
  | [], found => nomatch found
  | (kind', wanted) :: rest, found => by
    rw [matchSizes] at found
    split at found
    · rename_i here
      cases found
      exact ⟨wanted, List.mem_cons_self .., here⟩
    · obtain ⟨wanted', member, fits⟩ := matchSizes_some found
      exact ⟨wanted', List.mem_cons_of_mem _ member, fits⟩

/-- The MD5s a full ZIP may have. -/
def FileFull.published (f : FileFull) : List String := [f.official.md5, f.store.md5, f.storeSigned.md5]

/-- A matching file holds bytes with one of the published MD5s. -/
theorem FileFull.matchFile_md5 {md5 : Bytes → String} {files : FileStore} {f : FileFull} {path : String}
    {kind : FullKind} (found : f.matchFile md5 files path true = some kind) :
    ∃ bytes, files.read path = some bytes ∧ md5 bytes ∈ f.published := by
  obtain ⟨bytes, read, found⟩ := Option.bind_eq_some_iff.mp found
  obtain ⟨wanted, member, -, fits⟩ := matchSizes_some found
  refine ⟨bytes, read, ?_⟩
  simp only [FileFull.sizes, List.mem_cons, Prod.mk.injEq, List.not_mem_nil, or_false] at member
  rcases fits with off | fits
  · cases off
  · rw [← fits, FileFull.published]
    rcases member with ⟨-, rfl⟩ | ⟨-, rfl⟩ | ⟨-, rfl⟩ <;> simp

end OpenDelta.Service
