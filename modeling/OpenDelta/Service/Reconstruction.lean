import Mathlib.Data.List.Nodup
import OpenDelta.Service.Links

/-!
# Reconstruction

What the service makes of what `opendelta.sh` publishes. It guesses from a size
which form its initial file has, brings it to the store form, and applies delta
by delta until it has the newest release.
-/

namespace OpenDelta.Service
open Zip
open Server (Release Released Link Linked Rereadable signWholeOutputFile)

variable {H : Server.Host} {E : Env} {block : Bytes → Bytes} {publish : Server.Folder}

/-! ## The initial file -/

/-- A file in one of the three forms of a release. -/
inductive FormOf (r : Release H) : Bytes → Prop where
  | official : FormOf r r.official
  | store : FormOf r r.store
  | signed : FormOf r r.signed

theorem fileLength_add_ne (bytes longer : Bytes) {more : Nat} (length : longer.length = bytes.length + more)
    (positive : 0 < more) (short : more ≤ 0xffff) : fileLength longer ≠ fileLength bytes := by
  intro same
  have values := congrArg (fun n : Int64 => n.toBitVec.toNat) same
  have bits : ∀ n, (Int64.ofNat n).toBitVec.toNat = n % 2 ^ 64 := fun n => BitVec.toNat_ofNat ..
  simp only [fileLength, bits, length] at values
  omega

theorem except_ok {ε α : Type} {result : Except ε α} {a : α} (some : result.toOption = some a) : result = .ok a := by
  cases result with
  | error e => cases some
  | ok b =>
    cases some
    rfl

/-- **What is taken for the store form is the store form**: the official file is
compared first, and the signed one is longer. -/
theorem matchFile_store {files : FileStore} (agrees : Agrees H E block) {r : Release H} {path : String}
    {checkMD5 : Bool} {bytes : Bytes} (form : FormOf r bytes) (read : files.read path = some bytes)
    (found : (fullOf r).matchFile E.md5 files path checkMD5 = some .store) : bytes = r.store := by
  rw [FileFull.matchFile, read, Option.bind_some, FileFull.sizes] at found
  cases form with
  | official =>
    rw [fullOf, matchSizes_measured agrees.md5] at found
    cases found
  | store => rfl
  | signed =>
    obtain ⟨wanted, member, size, -⟩ := matchSizes_some found
    have store : wanted = measured H r.store := by
      simpa [fullOf] using member
    have signs := r.signs
    rw [agrees.minSignAPK] at signs
    have length := Server.signWholeOutputFile_length (except_ok signs)
    obtain ⟨-, -, short, -, -⟩ := Server.signWholeOutputFile_ok (except_ok signs)
    rw [store] at size
    exact absurd size (fileLength_add_ne _ _ length (by simp [Server.totalSize]) short)

/-- The file that needs no processing matches the store form. -/
theorem findInitialFile_store {files : FileStore} {first : DeltaInfo} {flashFilename file : String}
    (found : findInitialFile E files first flashFilename = (some file, false)) :
    ∃ checkMD5, first.input.matchFile E.md5 files file checkMD5 = some .store := by
  rw [findInitialFile] at found
  split at found
  · rename_i kind expected
    simp only [Prod.mk.injEq, Option.some.injEq, decide_eq_false_iff_not, not_not] at found
    obtain ⟨rfl, rfl⟩ := found
    rcases Option.or_eq_some_iff.mp expected with bySize | ⟨-, byMD5⟩
    · split at bySize
      · exact ⟨false, bySize⟩
      · cases bySize
    · exact ⟨true, byMD5⟩
  · split at found
    · cases found
    · simp only [Prod.mk.injEq, Option.some.injEq, decide_eq_false_iff_not, not_not] at found
      obtain ⟨rfl, store⟩ := found
      exact ⟨false, store⟩

/-- What a build leaves of a release. -/
def resultOf (E : Env) (r : Release H) : Bytes := if E.config.applySignature then r.signed else r.store

/-- **The steps make the newest release** of any form of the release they start from. -/
theorem patched_patchSteps (agrees : Agrees H E block) {files : FileStore}
    (uncollided : Uncollided E files publish) {r newest : Release H} {releases : List (Release H)}
    {deltas : List DeltaInfo} {last : DeltaInfo} (links : (r :: releases).IsChain (Follows E publish))
    (listed : Listed E publish (r :: releases) deltas) (isLast : deltas.getLast? = some last)
    (isNewest : (r :: releases).getLast? = some newest) (downloaded : Downloaded E files deltas last)
    {needsProcessing : Bool} {input : Bytes}
    (starts : (if needsProcessing then (Zip.zipadjust E.zlib input true).toOption else some input) = some r.store) :
    patched E files input (patchSteps E deltas last needsProcessing) = some (resultOf E newest) := by
  obtain ⟨newest', isNewest', makes⟩ := patched_updates agrees uncollided links listed downloaded.updates
  cases isNewest.symm.trans isNewest'
  obtain ⟨previous, update, sign, link, info⟩ := listed_last links listed isLast isNewest
  have begun : patched E files input (if needsProcessing then [.adjust] else []) = some r.store := by
    cases needsProcessing with
    | false => exact starts
    | true => simpa [patched, PatchStep.makes] using starts
  rw [patchSteps, patched_append, begun, Option.bind_some, patched_append, makes, Option.bind_some, signatureSteps, resultOf]
  cases signed : E.config.applySignature with
  | false => rfl
  | true =>
    have name : last.signature.name = previous.base ++ ".sign" := congrArg (fun d => d.signature.name) info
    have md5 : last.signature.update.md5 = E.md5 sign :=
      (congrArg (fun d => d.signature.update.md5) info).trans (congrFun agrees.md5 sign)
    have read := hasUpdate_read uncollided (name ▸ link.signFile) md5 (downloaded.signature signed)
    simp only [if_true, patched, PatchStep.makes, read, Option.bind_some, agrees.dedelta _ _ _ link.signs]
    rfl

/-- **The initial file has the store form**, once it is processed where it needs it. -/
theorem processed_store (agrees : Agrees H E block) {files : FileStore} {r : Release H} {first : DeltaInfo}
    (starts : first.input = fullOf r) (declared : DeclaredAll E.zlib r.official true) {flashFilename file : String}
    {needsProcessing : Bool} {input : Bytes}
    (found : findInitialFile E files first flashFilename = (some file, needsProcessing))
    (read : files.read file = some input) (form : FormOf r input)
    (rereadable : needsProcessing = true → input ≠ r.official → Rereadable r.store input) :
    (if needsProcessing then (Zip.zipadjust E.zlib input true).toOption else some input) = some r.store := by
  cases needsProcessing with
  | false =>
    obtain ⟨checkMD5, store⟩ := findInitialFile_store found
    rw [starts] at store
    exact congrArg some (matchFile_store agrees form read store)
  | true =>
    have adjusted := r.adjusted
    rw [agrees.zipadjust] at adjusted
    by_cases official : input = r.official
    · rw [official]
      exact adjusted
    have origin : input = r.store ∨ signWholeOutputFile r.store (block r.store) = .ok input := by
      cases form with
      | official => exact absurd rfl official
      | store => exact .inl rfl
      | signed =>
        have signs := r.signs
        rw [agrees.minSignAPK] at signs
        exact .inr (except_ok signs)
    rw [Server.zipadjust_rereads (except_ok adjusted) declared origin (rereadable rfl official)]
    rfl

/-! ## The build -/

variable (H) in
/-- A build: releases that the script has published, the deltas from one of them
to the newest one, and a file in one of its forms that `findInitialFile` selects,
which is neither a temporary file nor the result. -/
structure Selection where
  E : Env
  block : Bytes → Bytes
  folders : Server.Folders
  before : List (Release H)
  release : Release H
  rest : List (Release H)
  newest : Release H
  deltas : List DeltaInfo
  first : DeltaInfo
  last : DeltaInfo
  w : World
  flashFilename : String
  file : String
  needsProcessing : Bool
  input : Bytes
  released : Released H folders (before ++ release :: rest)
  isNewest : (release :: rest).getLast? = some newest
  agrees : Agrees H E block
  readable : (release :: rest).IsChain (Readable E folders.publish)
  declared : DeclaredAll E.zlib release.official true
  listed : Listed E folders.publish (release :: rest) deltas
  isFirst : deltas.head? = some first
  isLast : deltas.getLast? = some last
  downloaded : Downloaded E w.files deltas last
  uncollided : Uncollided E w.files folders.publish
  apart : TellsApart w.files E.config.getPathBase
  found : findInitialFile E w.files first flashFilename = (some file, needsProcessing)
  read : w.files.read file = some input
  form : FormOf release input
  fileApart : ReadApart E w.files last file

namespace Selection

def result (x : Selection H) : Native × World := applyPatches x.E x.deltas x.last (some x.file) x.needsProcessing x.w

/-- The build leaves the newest release, and it is accepted. -/
structure Reconstructed (x : Selection H) : Prop where
  done : x.result.1 = .done
  content : x.result.2.files.read (patchTarget x.E x.last) = some (resultOf x.E x.newest)
  accepted : (x.last.out.matchFile x.E.md5 x.result.2.files (patchTarget x.E x.last) true).isSome = true

end Selection

/-- A form that is measured is accepted. -/
theorem matchFile_form (same : H.md5sum = E.md5) {files : FileStore} {r : Release H} {path : String} {bytes : Bytes}
    (form : FormOf r bytes) (read : files.read path = some bytes) :
    ((fullOf r).matchFile E.md5 files path true).isSome = true := by
  rw [FileFull.matchFile, read, Option.bind_some, FileFull.sizes, fullOf]
  have here : ∀ kind (rest : List (FullKind × FileSizeMD5)),
      (matchSizes E.md5 true bytes ((kind, measured H bytes) :: rest)).isSome = true := fun kind rest => by
    rw [matchSizes_measured same]
    rfl
  have later : ∀ (entry : FullKind × FileSizeMD5) rest, (matchSizes E.md5 true bytes rest).isSome = true →
      (matchSizes E.md5 true bytes (entry :: rest)).isSome = true := by
    intro entry rest some
    rw [matchSizes]
    split
    · rfl
    · exact some
  cases form with
  | official => exact here ..
  | store => exact later _ _ (here ..)
  | signed => exact later _ _ (later _ _ (here ..))

/-- The folder tells the result from the temporary files. -/
theorem pathsApart_of {files : FileStore} (apart : TellsApart files E.config.getPathBase) {last : DeltaInfo}
    {newest : Release H} (out : last.out.name = newest.name) : PathsApart E files last := by
  obtain ⟨rest, omni⟩ := name_omni newest
  have result : ∀ k, files.resolve (patchTarget E last) ≠ files.resolve (tempFiles E k) := by
    intro k
    rw [patchTarget, out]
    exact apart.omni omni k
  refine ⟨fun same => ?_, result 0, result 1⟩
  have lower := congrArg String.toList (apart "temp1" "temp2" same)
  rw [toLower_toList, toLower_toList] at lower
  exact absurd lower (by decide)

/-- It tells the delta files from both. -/
theorem patchSteps_apart {files : FileStore} (apart : TellsApart files E.config.getPathBase)
    {releases : List (Release H)} {deltas : List DeltaInfo} {last : DeltaInfo} {previous newest : Release H}
    {update sign : Bytes} (links : releases.IsChain (Follows E publish)) (listed : Listed E publish releases deltas)
    (info : last.untagged = infoOf previous newest update sign) (needsProcessing : Bool) :
    DeltasApart E files last (patchSteps E deltas last needsProcessing) := by
  have out : last.out.name = newest.name := congrArg (fun d => d.out.name) info
  have named : ∀ (r : Release H) (extension : String), extension ∈ Server.extensions →
      ReadApart E files last (E.config.getPathBase ++ (r.base ++ extension)) := by
    intro r extension member
    obtain ⟨rest, omni⟩ := base_omni r extension
    refine ⟨?_, apart.omni omni⟩
    rw [patchTarget, out]
    exact apart.zip r.base member newest
  intro delta member
  rw [patchSteps, List.mem_append, List.mem_append] at member
  rcases member with adjusts | updates | signs
  · split at adjusts
    · simp at adjusts
    · cases adjusts
  · obtain ⟨d, inside, same⟩ := List.mem_map.mp updates
    obtain ⟨r, name⟩ := listed_update links listed d inside
    cases same
    rw [name]
    exact named r ".update" (by decide)
  · rw [signatureSteps] at signs
    split at signs
    · have name : last.signature.name = previous.base ++ ".sign" := congrArg (fun d => d.signature.name) info
      cases List.mem_singleton.mp signs
      rw [name]
      exact named previous ".sign" (by decide)
    · cases signs

namespace Selection

variable (x : Selection H)

theorem follows : (x.release :: x.rest).IsChain (Follows x.E x.folders.publish) :=
  follows_of x.released.releases.links.right_of_append x.readable

/-- **A build reconstructs the newest release** from any form of an older one, as
long as `zipadjust` can read back the form where it is to be processed. -/
theorem reconstructed (rereadable : x.needsProcessing = true → x.input ≠ x.release.official →
    Rereadable x.release.store x.input) : x.Reconstructed := by
  obtain ⟨previous, update, sign, link, info⟩ := listed_last x.follows x.listed x.isLast x.isNewest
  have out : x.last.out = fullOf x.newest := congrArg (fun d => d.out) info
  have makes := patched_patchSteps x.agrees x.uncollided x.follows x.listed x.isLast x.isNewest x.downloaded
    (processed_store x.agrees (listed_first x.follows x.listed x.isFirst) x.declared x.found x.read x.form rereadable)
  have nonempty : x.deltas ≠ [] := by
    intro none
    have isLast := x.isLast
    rw [none] at isLast
    cases isLast
  obtain ⟨done, written⟩ := applyPatches_makes nonempty x.read makes
    (pathsApart_of x.apart (congrArg (fun out => out.name) out))
    (patchSteps_apart x.apart x.follows x.listed info _) x.fileApart
  refine ⟨done, written, ?_⟩
  rw [out]
  refine matchFile_form x.agrees.md5 ?_ written
  rw [resultOf]
  split
  · exact .signed
  · exact .store

end Selection

/-! ## A build of two releases -/

/-- A ZIP with another content. -/
def newestRecord : Record := { sampleRecord with data := [43], dataLength := rfl }

def newestZip : Bytes := layout [newestRecord] (closeFooter sampleZip.footer [newestRecord])

/-- `sampleZip` with disk numbers that look like an EOCD signature. -/
def misleadingZip : ZipFile :=
  { sampleZip with
    footer :=
      { sampleZip.footer with diskNumber := 0x4b50, diskNumberCentralDirectory := 0x0605, lengthComment := 4 }
    comment := [0, 0, 0, 0]
    signature := rfl
    offset := sampleZip.offset
    commentLength := rfl }

def misleadingStore : Bytes := layout [sampleRecord] (closeFooter misleadingZip.footer [sampleRecord])

def signedBy (block store : Bytes) : Bytes := withComment store (Server.archiveComment block)

def formMD5s : List (Bytes × String) :=
  [(sampleZip.bytes, "a52ed25ffc7416b0a77abc88ad6bbf65"), (sampleOutput, "22ef2d07f377a0b48a41bb4c32f3aec2"),
    (signedBy [1, 2, 3] sampleOutput, "d5fc51bc905dd4d141a231a0306d6e4c"),
    (newestZip, "4c860dfeb878b5f9dd84234047ff8f2d"),
    (signedBy [1, 2, 3] newestZip, "c3b0747835be49d909057c1ec17232e4"),
    (misleadingZip.bytes, "3109759cf5de016eb1118a032ed8e89a"), (misleadingStore, "3f7486f379470c98850143b0242ac441"),
    (signedBy [1, 2, 3] misleadingStore, "9c487dfa7d1fb421a6fa4a0538bf5d11")]

/-- The programs, with a signature block of three bytes and deltas that are the
target itself. -/
def toolHost : Server.Host where
  precedes a b := decide (a < b)
  md5sum bytes := (formMD5s.lookup bytes).getD ""
  zipadjust zip := (Zip.zipadjust storedBlock.zlib zip true).toOption
  minSignAPK zip := (signWholeOutputFile zip [1, 2, 3]).toOption
  xdelta3 _ target := some target

set_option maxRecDepth 4000

def olderRelease : Release toolHost where
  name := "omni-a.zip"
  official := sampleZip.bytes
  store := sampleOutput
  signed := signedBy [1, 2, 3] sampleOutput
  matched := by decide
  adjusted := by
    simp only [toolHost, sampleZip_run]
    rfl
  signs := by decide

def misleadingRelease : Release toolHost where
  name := "omni-a.zip"
  official := misleadingZip.bytes
  store := misleadingStore
  signed := signedBy [1, 2, 3] misleadingStore
  matched := by decide
  adjusted := by decide
  signs := by decide

def newestRelease : Release toolHost where
  name := "omni-b.zip"
  official := newestZip
  store := newestZip
  signed := signedBy [1, 2, 3] newestZip
  matched := by decide
  adjusted := by decide
  signs := by decide

/-- A parser that knows one text. -/
def Json.knowing (text : String) (document : Document) : Json :=
  { Json.of [] with parse := fun s => if s = text then some document else none }

theorem DeltaInfo.parse_knowing {text : String} {d : DeltaInfo} (plain : d.Plain) (revoked : Bool) :
    DeltaInfo.parse (Json.knowing text d.document) text revoked = some { d with revoked } := by
  have known : (Json.of [d.document]).parse (String.ofList d.document.render) = some d.document := by
    simp [Json.of]
  have parsed := DeltaInfo.parse_document known plain revoked
  have knowing : (Json.knowing text d.document).parse text = some d.document := if_pos rfl
  unfold DeltaInfo.parse at parsed ⊢
  rw [known] at parsed
  rw [knowing]
  exact parsed

theorem utf8_decode (text : String) : String.fromUTF8? ⟨text.toUTF8.data.toList.toArray⟩ = some text := by
  rw [Array.toArray_toList]
  exact dif_pos text.isValidUTF8

section Pair

variable (a b : Release toolHost)

/-- The service, with a parser for the delta file from `a` to `b`. -/
def pairEnv : Env where
  config := { sampleConfig with applySignature := true }
  server _ := none
  decode bytes := (String.fromUTF8? ⟨bytes.toArray⟩).getD ""
  json := Json.knowing (TextLines.unlines (a.deltaTo b b.store b.signed).lines) (infoOf a b b.store b.signed).document
  md5 := toolHost.md5sum
  zlib := storedBlock.zlib
  dedelta _ delta := .ok delta
  externalStorage := .empty
  secondaryStorages := []
  downloadSizeUnknown := "unknown"
  dailyAlarm := false

def firstFolders : Server.Folders :=
  (Server.process toolHost (fun _ => .works) { current := [(a.name, a.official)], last := [], publish := [] }).2

def pairFolders : Server.Folders :=
  (Server.process toolHost (fun _ => .works) { firstFolders a with current := [(b.name, b.official)] }).2

/-- The downloaded files, and a form of `a` in its place. -/
def pairWorld (input : Bytes) : World :=
  .idle
    [("/sd/OpenDelta/omni-a.zip", input), ("/sd/OpenDelta/omni-a.update", b.store),
      ("/sd/OpenDelta/omni-a.sign", b.signed)]

variable {a b}

theorem pair_released (aName : a.name = "omni-a.zip") (bName : b.name = "omni-b.zip") :
    Released toolHost (pairFolders a b) [a, b] := by
  have aHolds : Server.Holds toolHost [(a.name, a.official)] a := .alone (by rw [aName]; decide)
  have bHolds : Server.Holds toolHost [(b.name, b.official)] b := .alone (by rw [bName]; decide)
  have first : Released toolHost (firstFolders a) [a] := .first _ rfl aHolds
  refine .next (fun _ => .works) [(b.name, b.official)] first ?_ bHolds ?_
  · intro r' member
    rw [List.mem_singleton.mp member, aName, bName]
    decide
  · intro last isLast
    cases isLast
    obtain ⟨r, isLast, holds⟩ := first.releases.newest
    cases isLast
    exact Server.not_stepFails bHolds.content holds.content rfl rfl

theorem pair_link (aName : a.name = "omni-a.zip") (bName : b.name = "omni-b.zip") :
    Link toolHost (pairFolders a b).publish a b b.store b.signed := by
  have links := (pair_released aName bName).releases.links
  rw [List.isChain_pair] at links
  obtain ⟨update, sign, link⟩ := links
  cases link.updates
  cases link.signs
  exact link

theorem pair_readable : Readable (pairEnv a b) (pairFolders a b).publish a b := by
  intro update sign link
  cases link.updates
  cases link.signs
  have decoded : (pairEnv a b).decode (a.deltaTo b b.store b.signed).bytes =
      TextLines.unlines (a.deltaTo b b.store b.signed).lines := congrArg (·.getD "") (utf8_decode _)
  rw [decoded]
  exact DeltaInfo.parse_knowing ⟨rfl, rfl, rfl, rfl⟩ false

theorem lookup_mem {table : List (Bytes × String)} {bytes : Bytes} {md5 : String}
    (found : table.lookup bytes = some md5) : (bytes, md5) ∈ table := by
  obtain ⟨before, after, rfl, -⟩ := List.lookup_eq_some_iff.mp found
  simp

/-- Of the bytes in the table, different ones have different MD5s. -/
theorem formMD5s_inj {bytes other : Bytes} (known : (formMD5s.lookup bytes).isSome = true)
    (same : toolHost.md5sum bytes = toolHost.md5sum other) : bytes = other := by
  have distinct : (formMD5s.map Prod.snd).Nodup := by decide
  have nonempty : "" ∉ formMD5s.map Prod.snd := by decide
  obtain ⟨md5, found⟩ := Option.isSome_iff_exists.mp known
  have member := lookup_mem found
  have sum : toolHost.md5sum other = md5 := by
    rw [← same]
    exact congrArg (·.getD "") found
  cases found' : formMD5s.lookup other with
  | none =>
    have none : toolHost.md5sum other = "" := congrArg (·.getD "") found'
    rw [none] at sum
    rw [sum] at nonempty
    exact absurd (List.mem_map_of_mem member) nonempty
  | some md5' =>
    have some : toolHost.md5sum other = md5' := congrArg (·.getD "") found'
    rw [some] at sum
    have member' := lookup_mem found'
    rw [sum] at member'
    exact congrArg Prod.fst (List.inj_on_of_nodup_map distinct member member' rfl)

theorem pair_files {input : Bytes} {path : String} {bytes : Bytes}
    (read : (pairWorld b input).files.read path = some bytes) : bytes = input ∨ bytes = b.store ∨ bytes = b.signed := by
  have found : [("/sd/OpenDelta/omni-a.zip", input), ("/sd/OpenDelta/omni-a.update", b.store),
      ("/sd/OpenDelta/omni-a.sign", b.signed)].lookup path = some bytes := read
  obtain ⟨before, after, split, -⟩ := List.lookup_eq_some_iff.mp found
  have member : (path, bytes) ∈ [("/sd/OpenDelta/omni-a.zip", input), ("/sd/OpenDelta/omni-a.update", b.store),
      ("/sd/OpenDelta/omni-a.sign", b.signed)] := by
    rw [split]
    simp
  simp only [List.mem_cons, Prod.mk.injEq, List.not_mem_nil, or_false] at member
  rcases member with ⟨-, same⟩ | ⟨-, same⟩ | ⟨-, same⟩
  · exact .inl same
  · exact .inr (.inl same)
  · exact .inr (.inr same)

/-- The build from a form of `a`, whose other files are known. -/
def pairSelection {a b : Release toolHost} (aName : a.name = "omni-a.zip") (bName : b.name = "omni-b.zip") {input : Bytes}
    (form : FormOf a input) (declared : DeclaredAll storedBlock.zlib a.official true)
    (known : ∀ bytes ∈ [input, b.store, b.signed], (formMD5s.lookup bytes).isSome = true)
    (found : findInitialFile (pairEnv a b) (pairWorld b input).files (infoOf a b b.store b.signed) "" =
      (some "/sd/OpenDelta/omni-a.zip", true)) : Selection toolHost where
  E := pairEnv a b
  block _ := [1, 2, 3]
  folders := pairFolders a b
  before := []
  release := a
  rest := [b]
  newest := b
  deltas := [infoOf a b b.store b.signed]
  first := infoOf a b b.store b.signed
  last := infoOf a b b.store b.signed
  w := pairWorld b input
  flashFilename := ""
  file := "/sd/OpenDelta/omni-a.zip"
  needsProcessing := true
  input
  released := pair_released aName bName
  isNewest := rfl
  agrees := ⟨fun _ => rfl, fun _ => rfl, rfl, fun _ _ _ made => congrArg Except.ok (Option.some.inj made).symm⟩
  readable := List.isChain_pair.mpr pair_readable
  declared
  listed := by
    have link := pair_link aName bName
    refine .link link.deltaFile ?_ (.last b)
    rw [pair_readable _ _ link]
    rfl
  isFirst := rfl
  isLast := rfl
  downloaded := by
    have base : a.base = "omni-a" := by
      rw [Release.base, aName]
      decide
    have updateFile : (pairWorld b input).files.read
        ((pairEnv a b).config.getPathBase ++ (infoOf a b b.store b.signed).update.name) = some b.store := by
      rw [infoOf, base]
      rfl
    have signFile : (pairWorld b input).files.read
        ((pairEnv a b).config.getPathBase ++ (infoOf a b b.store b.signed).signature.name) = some b.signed := by
      rw [infoOf, base]
      rfl
    refine ⟨fun d member => ?_, fun _ => hasUpdate_measured rfl rfl signFile⟩
    rw [List.mem_singleton.mp member]
    exact hasUpdate_measured rfl rfl updateFile
  uncollided := by
    intro path name bytes published read _ same
    refine formMD5s_inj (known bytes ?_) same
    simpa using pair_files read
  apart := by
    intro name other same
    rw [(String.append_right_inj _).mp same]
  found
  read := rfl
  form
  fileApart := by
    refine ⟨?_, fun k => ?_⟩
    · show "/sd/OpenDelta/omni-a.zip" ≠ "/sd/OpenDelta/" ++ b.name
      rw [bName]
      decide
    · show "/sd/OpenDelta/omni-a.zip" ≠ "/sd/OpenDelta/" ++ if k = 0 then "temp1" else "temp2"
      split <;> decide

end Pair

theorem sampleZip_declaredAll : DeclaredAll storedBlock.zlib sampleZip.bytes true :=
  sampleZip.declaredAll _ sampleZip_last (by decide) (by decide) sampleZip_declared

/-- The signed form of the older release is rebuilt. -/
def olderSelection : Selection toolHost :=
  pairSelection (a := olderRelease) (b := newestRelease) rfl rfl .signed sampleZip_declaredAll
    (by decide) (by decide)

/-- Its signed form is read back. -/
theorem reconstructed_older : olderSelection.Reconstructed :=
  olderSelection.reconstructed fun _ _ => ⟨by decide, by decide⟩

theorem misleadingZip_declared : DeclaredAll storedBlock.zlib misleadingZip.bytes true := by
  intro footer entries rest found directory e member
  have search : findFooter misleadingZip.bytes (searchLength (UInt32.ofNat misleadingZip.bytes.length)) =
      .ok (some misleadingZip.footer) := by decide
  rw [search] at found
  cases found
  rw [misleadingZip.directoryOf_eq (by decide)] at directory
  cases List.mem_singleton.mp ((directory_initial misleadingZip.ends directory.symm).subset member)
  rintro - w run
  have data : entryData storedBlock.zlib misleadingZip.bytes true sampleEntry.header = .ok [42] := by decide
  rw [data] at run
  cases run
  rfl

def misleadingSelection : Selection toolHost :=
  pairSelection (a := misleadingRelease) (b := newestRelease) rfl rfl .signed misleadingZip_declared
    (by decide) (by decide)

/-- Its signed form is not read back: the search stops at the disk numbers. -/
theorem misleading_unreconstructed : ¬ misleadingSelection.Reconstructed := by
  intro reconstructed
  have stops : misleadingSelection.result.1 = .failed := by decide
  exact absurd (stops.symm.trans reconstructed.done) (by decide)

end OpenDelta.Service
