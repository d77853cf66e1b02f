import OpenDelta.Server.Releases
import OpenDelta.Server.SignApk
import OpenDelta.Service.Relay

/-!
# The published deltas

The deltas between releases as the service reads them. With the delta files on
the storage, the updates lead from the store form of one release to that of the
newest one.
-/

namespace OpenDelta.Service
open Server (Release Link Linked signWholeOutputFile)

variable {H : Server.Host} {E : Env}

/-! ## What is published -/

/-- A size and an MD5, as the service reads what the script writes. -/
def measured (H : Server.Host) (bytes : Bytes) : FileSizeMD5 := ⟨fileLength bytes, H.md5sum bytes⟩

def fullOf (r : Release H) : FileFull where
  name := r.name
  tag := none
  official := measured H r.official
  store := measured H r.store
  storeSigned := measured H r.signed

/-- What the delta file from a release to the next one says. -/
def infoOf (r r' : Release H) (update sign : Bytes) : DeltaInfo where
  version := 1
  input := fullOf r
  update := { name := r.base ++ ".update", tag := none, update := measured H update, applied := measured H r'.store }
  signature := { name := r.base ++ ".sign", tag := none, update := measured H sign, applied := measured H r'.signed }
  out := fullOf r'
  revoked := false

/-- What the service has agrees with the programs of the script: the same
`zipadjust` and MD5, and the decoder of `xdelta3`. `MinSignAPK` makes a signature
block of its input. -/
structure Agrees (H : Server.Host) (E : Env) (block : Bytes → Bytes) : Prop where
  zipadjust : ∀ zip, H.zipadjust zip = (Zip.zipadjust E.zlib zip true).toOption
  minSignAPK : ∀ zip, H.minSignAPK zip = (signWholeOutputFile zip (block zip)).toOption
  md5 : H.md5sum = E.md5
  dedelta : ∀ source target patch, H.xdelta3 source target = some patch → E.dedelta source patch = .ok target

/-- The JSON parser reads the delta file between two releases as it was written. -/
def Readable (E : Env) (publish : Server.Folder) (r r' : Release H) : Prop :=
  ∀ update sign, Link H publish r r' update sign →
    DeltaInfo.parse E.json (E.decode (r.deltaTo r' update sign).bytes) false = some (infoOf r r' update sign)

/-- The deltas read from the published files between some releases, whatever the
service has noted down about their files. -/
inductive Listed (E : Env) (publish : Server.Folder) : List (Release H) → List DeltaInfo → Prop where
  | last (r : Release H) : Listed E publish [r] []
  | link {r r' : Release H} {releases : List (Release H)} {d : DeltaInfo} {ds : List DeltaInfo} {bytes : Bytes}
      (file : publish.read (r.base ++ ".delta") = some bytes)
      (parsed : (DeltaInfo.parse E.json (E.decode bytes) false).map DeltaInfo.untagged = some d.untagged)
      (rest : Listed E publish (r' :: releases) ds) : Listed E publish (r :: r' :: releases) (d :: ds)

/-- The delta files of a build are on the storage, with the MD5s they should have. -/
structure Downloaded (E : Env) (files : FileStore) (deltas : List DeltaInfo) (last : DeltaInfo) : Prop where
  updates : ∀ d ∈ deltas, hasUpdate E files d.update = true
  signature : E.config.applySignature = true → hasUpdate E files last.signature = true

/-- No file of the storage has the MD5 of another file that is published. -/
def Uncollided (E : Env) (files : FileStore) (publish : Server.Folder) : Prop :=
  ∀ path name bytes published, files.read path = some bytes → publish.read name = some published →
    E.md5 bytes = E.md5 published → bytes = published

/-- The names of a folder lead to different files, but for upper and lower case. -/
def TellsApart (files : FileStore) (folder : String) : Prop :=
  ∀ a b, files.resolve (folder ++ a) = files.resolve (folder ++ b) → a.toLower = b.toLower

/-! ## The names -/

theorem toLower_toList (text : String) : text.toLower.toList = text.toList.map Char.toLower := String.toList_map

/-- A name that starts like those of builds is that of no temporary file. -/
theorem TellsApart.omni {files : FileStore} (apart : TellsApart files E.config.getPathBase) {name : String}
    {rest : List Char} (omni : name.toList = "omni-".toList ++ rest) (k : Nat) :
    files.resolve (E.config.getPathBase ++ name) ≠ files.resolve (tempFiles E k) := by
  intro same
  have lower := congrArg (fun text : String => text.toList.head?) (apart _ _ same)
  have start : (List.map Char.toLower ("omni-".toList ++ rest)).head? = some 'o' := rfl
  simp only [toLower_toList, omni, start] at lower
  split at lower
  · exact absurd lower (by decide)
  · exact absurd lower (by decide)

theorem base_omni (r : Release H) (extension : String) :
    ∃ rest, (r.base ++ extension).toList = "omni-".toList ++ rest := by
  obtain ⟨middle, base, -⟩ := Server.fileMatch_cut r.matched
  exact ⟨middle ++ extension.toList, by rw [String.toList_append, Release.base, base, List.append_assoc]⟩

theorem name_omni (r : Release H) : ∃ rest, r.name.toList = "omni-".toList ++ rest := by
  obtain ⟨rest, omni⟩ := base_omni r ".zip"
  obtain ⟨-, -, cut⟩ := Server.fileMatch_cut r.matched
  exact ⟨rest, by rw [cut]; exact omni⟩

/-- The name of a delta file is that of no ZIP. -/
theorem TellsApart.zip {files : FileStore} (apart : TellsApart files E.config.getPathBase) (base : String)
    {extension : String} (member : extension ∈ Server.extensions) (r : Release H) :
    files.resolve (E.config.getPathBase ++ (base ++ extension)) ≠ files.resolve (E.config.getPathBase ++ r.name) := by
  intro same
  obtain ⟨-, -, cut⟩ := Server.fileMatch_cut r.matched
  have ends := congrArg (fun text : String => text.toList.getLast?) (apart _ _ same)
  rw [cut] at ends
  simp only [toLower_toList, String.toList_append, List.map_append, List.getLast?_append] at ends
  simp only [Server.extensions, List.mem_cons, List.not_mem_nil, or_false] at member
  -- Both end in a letter of their extension.
  rcases member with rfl | rfl | rfl
  · exact absurd ends (by simp)
  · exact absurd ends (by simp)
  · exact absurd ends (by simp)

/-! ## The chain of deltas -/

variable {block : Bytes → Bytes} {publish : Server.Folder}

/-- The service can follow a link. -/
def Follows (E : Env) (publish : Server.Folder) (r r' : Release H) : Prop :=
  Linked H publish r r' ∧ Readable E publish r r'

theorem follows_of {releases : List (Release H)} (links : releases.IsChain (Linked H publish))
    (readable : releases.IsChain (Readable E publish)) : releases.IsChain (Follows E publish) := by
  induction releases with
  | nil => exact .nil
  | cons r releases ih =>
    rw [List.isChain_cons] at links readable ⊢
    exact ⟨fun r' next => ⟨links.1 r' next, readable.1 r' next⟩, ih links.2 readable.2⟩

/-- A listed delta is that of its link. -/
theorem Follows.listed {r r' : Release H} {bytes : Bytes} {d : DeltaInfo} (follows : Follows E publish r r')
    (file : publish.read (r.base ++ ".delta") = some bytes)
    (parsed : (DeltaInfo.parse E.json (E.decode bytes) false).map DeltaInfo.untagged = some d.untagged) :
    ∃ update sign, Link H publish r r' update sign ∧ d.untagged = infoOf r r' update sign := by
  obtain ⟨⟨update, sign, link⟩, readable⟩ := follows
  rw [link.deltaFile, Option.some.injEq] at file
  rw [← file, readable update sign link, Option.map_some, Option.some.injEq] at parsed
  exact ⟨update, sign, link, parsed.symm⟩

/-- A delta file with the MD5 it should have is the published one. -/
theorem hasUpdate_read {files : FileStore} (uncollided : Uncollided E files publish) {f : FileUpdate}
    {published : Bytes} (file : publish.read f.name = some published) (md5 : f.update.md5 = E.md5 published)
    (has : hasUpdate E files f = true) : files.read (E.config.getPathBase ++ f.name) = some published := by
  rw [hasUpdate, decide_eq_true_eq] at has
  obtain ⟨bytes, read, found⟩ := Option.bind_eq_some_iff.mp has
  obtain ⟨wanted, member, -, fits⟩ := matchSizes_some found
  simp only [FileUpdate.sizes, List.mem_cons, Prod.mk.injEq, List.not_mem_nil, or_false] at member
  rcases member with ⟨-, rfl⟩ | ⟨other, -⟩
  · rcases fits with off | fits
    · cases off
    · rw [read, uncollided _ _ _ _ read file (fits.symm.trans md5)]
  · cases other

/-- Bytes that are measured are matched, with MD5s or without. -/
theorem matchSizes_measured {κ : Type} {kind : κ} {md5 : Bytes → String} (same : H.md5sum = md5) (checkMD5 : Bool)
    (bytes : Bytes) (rest : List (κ × FileSizeMD5)) :
    matchSizes md5 checkMD5 bytes ((kind, measured H bytes) :: rest) = some kind := by
  rw [matchSizes, if_pos ⟨rfl, .inr (congrFun same bytes)⟩]

theorem hasUpdate_measured {H : Server.Host} {E : Env} (same : H.md5sum = E.md5) {files : FileStore} {f : FileUpdate}
    {bytes : Bytes} (measures : f.update = measured H bytes)
    (read : files.read (E.config.getPathBase ++ f.name) = some bytes) : hasUpdate E files f = true := by
  rw [hasUpdate, FileUpdate.matchFile, read, Option.bind_some, FileUpdate.sizes, measures, matchSizes_measured same]
  rfl

/-- **The updates lead from store form to store form.** -/
theorem patched_updates (agrees : Agrees H E block) {files : FileStore} (uncollided : Uncollided E files publish)
    {r : Release H} {releases : List (Release H)} {deltas : List DeltaInfo}
    (links : (r :: releases).IsChain (Follows E publish)) (listed : Listed E publish (r :: releases) deltas)
    (downloaded : ∀ d ∈ deltas, hasUpdate E files d.update = true) :
    ∃ newest, (r :: releases).getLast? = some newest ∧
      patched E files r.store (deltas.map (updateStep E)) = some newest.store := by
  induction releases generalizing r deltas with
  | nil =>
    cases listed
    exact ⟨r, rfl, rfl⟩
  | cons r' releases ih =>
    cases listed with
    | @link _ _ _ d ds bytes file parsed rest =>
      rw [List.isChain_cons_cons] at links
      obtain ⟨follows, links⟩ := links
      obtain ⟨update, sign, link, info⟩ := follows.listed file parsed
      rw [List.forall_mem_cons] at downloaded
      obtain ⟨newest, isNewest, makes⟩ := ih links rest downloaded.2
      refine ⟨newest, by rw [List.getLast?_cons_cons, isNewest], ?_⟩
      have name : d.update.name = r.base ++ ".update" := congrArg (fun d => d.update.name) info
      have md5 : d.update.update.md5 = E.md5 update :=
        (congrArg (fun d => d.update.update.md5) info).trans (congrFun agrees.md5 update)
      have read := hasUpdate_read uncollided (name ▸ link.updateFile) md5 downloaded.1
      rw [List.map_cons, patched, updateStep, PatchStep.makes, read]
      simp only [Option.bind_some, agrees.dedelta _ _ _ link.updates]
      exact makes

theorem listed_update {releases : List (Release H)} {deltas : List DeltaInfo}
    (links : releases.IsChain (Follows E publish)) (listed : Listed E publish releases deltas) :
    ∀ d ∈ deltas, ∃ r : Release H, d.update.name = r.base ++ ".update" := by
  induction listed with
  | last r => simp
  | link file parsed rest ih =>
    rw [List.isChain_cons_cons] at links
    obtain ⟨follows, links⟩ := links
    obtain ⟨update, sign, link, info⟩ := follows.listed file parsed
    rw [List.forall_mem_cons]
    exact ⟨⟨_, congrArg (fun d => d.update.name) info⟩, ih links⟩

theorem listed_first {r : Release H} {releases : List (Release H)} {deltas : List DeltaInfo} {first : DeltaInfo}
    (links : (r :: releases).IsChain (Follows E publish)) (listed : Listed E publish (r :: releases) deltas)
    (isFirst : deltas.head? = some first) : first.input = fullOf r := by
  cases listed with
  | last => cases isFirst
  | link file parsed rest =>
    cases isFirst
    rw [List.isChain_cons_cons] at links
    obtain ⟨update, sign, link, info⟩ := links.1.listed file parsed
    exact congrArg (fun d => d.input) info

/-- The last delta is that of the link to the newest release. -/
theorem listed_last {r newest : Release H} {releases : List (Release H)}
    {deltas : List DeltaInfo} {last : DeltaInfo} (links : (r :: releases).IsChain (Follows E publish))
    (listed : Listed E publish (r :: releases) deltas) (isLast : deltas.getLast? = some last)
    (isNewest : (r :: releases).getLast? = some newest) :
    ∃ previous update sign, Link H publish previous newest update sign ∧
      last.untagged = infoOf previous newest update sign := by
  induction releases generalizing r deltas with
  | nil =>
    cases listed
    cases isLast
  | cons r' releases ih =>
    cases listed with
    | @link _ _ _ d ds bytes file parsed rest =>
      rw [List.isChain_cons_cons] at links
      obtain ⟨follows, links⟩ := links
      rw [List.getLast?_cons_cons] at isNewest
      cases releases with
      | nil =>
        cases rest
        cases isLast
        cases isNewest
        exact ⟨r, follows.listed file parsed⟩
      | cons r'' releases =>
        cases ds with
        | nil => cases rest
        | cons d' ds =>
          rw [List.getLast?_cons_cons] at isLast
          exact ih links rest isLast isNewest

end OpenDelta.Service
