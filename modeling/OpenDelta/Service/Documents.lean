import OpenDelta.Service.Routes
import OpenDelta.Zip.Inflation

/-!
# A server of documents

An `Env` made from what a server publishes: JSON documents, other files, and the
MD5s and deltas of the files involved. A delta that is published reads back as
it is.
-/

namespace OpenDelta.Service

/-! ## JSON -/

inductive Scalar where
  | str (s : String)
  | num (n : Int)
  deriving DecidableEq

/-- Values as deep as build lists and deltas are. -/
inductive Value where
  | scalar (s : Scalar)
  | fields (fs : List (String × Scalar))
  | rows (rs : List (List (String × Scalar)))
  deriving DecidableEq

abbrev Document := List (String × Value)

def quoted (s : String) : List Char := '"' :: (s.toList ++ ['"'])

def Scalar.render : Scalar → List Char
  | .str s => quoted s
  | .num n => (toString n).toList

def commaSeparated : List (List Char) → List Char
  | [] => []
  | [s] => s
  | s :: ss => s ++ (',' :: commaSeparated ss)

def renderFields (fs : List (String × Scalar)) : List Char :=
  '\x7b' :: (commaSeparated (fs.map fun (k, v) => quoted k ++ (':' :: v.render)) ++ ['\x7d'])

def Value.render : Value → List Char
  | .scalar s => s.render
  | .fields fs => renderFields fs
  | .rows rs => '[' :: (commaSeparated (rs.map renderFields) ++ [']'])

def Document.render (d : Document) : List Char :=
  '\x7b' :: (commaSeparated (d.map fun (k, v) => quoted k ++ (':' :: v.render)) ++ ['\x7d'])

def asDocument (fs : List (String × Scalar)) : Document := fs.map fun (k, v) => (k, .scalar v)

/-- A parser that knows some documents. -/
def Json.of (documents : List Document) : Json where
  Object := Document
  parse s := documents.find? fun d => d.render = s.toList
  keys d := d.map (·.1)
  getInt d k := match d.lookup k with | some (.scalar (.num n)) => some n | _ => none
  getLong d k := match d.lookup k with | some (.scalar (.num n)) => some (Int64.ofInt n) | _ => none
  getString d k := match d.lookup k with | some (.scalar (.str s)) => some s | _ => none
  getJSONObject d k := match d.lookup k with | some (.fields fs) => some (asDocument fs) | _ => none
  getJSONArray d k := match d.lookup k with | some (.rows rs) => some (rs.map (some ∘ asDocument)) | _ => none

/-- Whether a document is plain is checked character by character. -/
instance (d : Document) : Decidable (∀ c ∈ d.render, c.toNat < 128) :=
  decidable_of_iff (d.render.all fun c => decide (c.toNat < 128)) (by simp)

/-! ## The documents of deltas and builds -/

def FileSizeMD5.fields (f : FileSizeMD5) (ending : String) : List (String × Scalar) :=
  [("size" ++ ending, .num f.size.toInt), ("md5" ++ ending, .str f.md5)]

def FileUpdate.fields (f : FileUpdate) : List (String × Scalar) :=
  ("name", .str f.name) :: (f.update.fields "" ++ f.applied.fields "_applied")

def FileFull.fields (f : FileFull) : List (String × Scalar) :=
  ("name", .str f.name) ::
    (f.official.fields "_official" ++ f.store.fields "_store" ++ f.storeSigned.fields "_store_signed")

def DeltaInfo.document (d : DeltaInfo) : Document :=
  [("version", .scalar (.num d.version)), ("in", .fields d.input.fields), ("update", .fields d.update.fields),
    ("signature", .fields d.signature.fields), ("out", .fields d.out.fields)]

/-- The list of builds of a device. -/
def buildList (device : String) (builds : List String) : Document :=
  [("./" ++ device, .rows (builds.map fun name => [("filename", .str name)]))]

def ascii (s : List Char) : Bytes := s.map fun c => UInt8.ofNat c.toNat

def unascii (bs : Bytes) : String := String.ofList (bs.map fun b => Char.ofNat b.toNat)

theorem unascii_ascii {s : List Char} (plain : ∀ c ∈ s, c.toNat < 128) : unascii (ascii s) = String.ofList s := by
  have each : ∀ c ∈ s, Char.ofNat (UInt8.ofNat c.toNat).toNat = c := by
    intro c member
    have small := plain c member
    rw [show (UInt8.ofNat c.toNat).toNat = c.toNat by simp; omega, Char.ofNat_toNat]
  rw [unascii, ascii, List.map_map]
  exact congrArg String.ofList ((List.map_congr_left each).trans (List.map_id' s))

theorem FileUpdate.parse_fields (documents : List Document) (f : FileUpdate) (untagged : f.tag = none) :
    FileUpdate.parse (Json.of documents) (asDocument f.fields) = some f := by
  obtain ⟨name, tag, update, applied⟩ := f
  subst untagged
  simp [FileUpdate.parse, FileSizeMD5.parse, Json.of, asDocument, FileUpdate.fields, FileSizeMD5.fields,
    List.lookup_cons]

theorem FileFull.parse_fields (documents : List Document) (f : FileFull) (untagged : f.tag = none) :
    FileFull.parse (Json.of documents) (asDocument f.fields) = some f := by
  obtain ⟨name, tag, official, store, storeSigned⟩ := f
  subst untagged
  simp [FileFull.parse, FileSizeMD5.parse, Json.of, asDocument, FileFull.fields, FileSizeMD5.fields,
    List.lookup_cons]

/-- A delta that nothing is noted down about. -/
def DeltaInfo.Plain (d : DeltaInfo) : Prop :=
  d.input.tag = none ∧ d.update.tag = none ∧ d.signature.tag = none ∧ d.out.tag = none

/-- **A delta reads back from its document.** -/
theorem DeltaInfo.parse_document {documents : List Document} {text : String} {d : DeltaInfo}
    (known : (Json.of documents).parse text = some d.document) (plain : d.Plain) (revoked : Bool) :
    DeltaInfo.parse (Json.of documents) text revoked = some { d with revoked } := by
  have version : (Json.of documents).getInt d.document "version" = some d.version := rfl
  have input : (Json.of documents).getJSONObject d.document "in" = some (asDocument d.input.fields) := rfl
  have update : (Json.of documents).getJSONObject d.document "update" = some (asDocument d.update.fields) := rfl
  have signature : (Json.of documents).getJSONObject d.document "signature" = some (asDocument d.signature.fields) := rfl
  have out : (Json.of documents).getJSONObject d.document "out" = some (asDocument d.out.fields) := rfl
  obtain ⟨inputPlain, updatePlain, signaturePlain, outPlain⟩ := plain
  unfold DeltaInfo.parse
  refine Option.bind_eq_some_iff.mpr ⟨_, known, Option.bind_eq_some_iff.mpr ⟨_, version, ?_⟩⟩
  refine Option.bind_eq_some_iff.mpr ⟨_, input, Option.bind_eq_some_iff.mpr ⟨_, FileFull.parse_fields _ _ inputPlain, ?_⟩⟩
  refine Option.bind_eq_some_iff.mpr ⟨_, update, Option.bind_eq_some_iff.mpr ⟨_, FileUpdate.parse_fields _ _ updatePlain, ?_⟩⟩
  refine Option.bind_eq_some_iff.mpr ⟨_, signature, Option.bind_eq_some_iff.mpr ⟨_, FileUpdate.parse_fields _ _ signaturePlain, ?_⟩⟩
  exact Option.bind_eq_some_iff.mpr ⟨_, out, Option.bind_eq_some_iff.mpr ⟨_, FileFull.parse_fields _ _ outPlain, rfl⟩⟩

/-! ## The server -/

def HttpResponse.of (bytes : Bytes) : HttpResponse :=
  { statusCode := 200, contentLength := Int64.ofNat bytes.length, chunks := [bytes], complete := true }

/-- What a server publishes: deltas and the build list as documents, anything
else as bytes, by URL; MD5s, and what a delta makes of a source. -/
structure Published where
  config : Config
  documents : List (String × Document)
  files : List (String × Bytes)
  md5s : List (Bytes × String)
  deltas : List ((Bytes × Bytes) × Bytes)

/-- A compression nothing decodes with. -/
def noInflation : Zip.Inflation where
  run _ := none
  used_pos := nofun
  used_le := nofun
  extend := nofun

def Published.pages (P : Published) : List (String × Bytes) :=
  P.documents.map (fun (url, document) => (url, ascii document.render)) ++ P.files

def Published.env (P : Published) : Env where
  config := P.config
  server url := (P.pages.lookup url).map HttpResponse.of
  decode := unascii
  json := Json.of (P.documents.map (·.2))
  md5 bytes := (P.md5s.lookup bytes).getD ""
  zlib := noInflation.zlib
  dedelta source delta :=
    match P.deltas.lookup (source, delta) with
    | some out => .ok out
    | none => .error []
  externalStorage := .empty
  secondaryStorages := []
  downloadSizeUnknown := "unknown"
  dailyAlarm := false

theorem HttpResponse.of_intLength {bytes : Bytes} (short : bytes.length < 1024 * 1024) :
    (HttpResponse.of bytes).intLength.toInt = bytes.length := by
  simp only [HttpResponse.intLength, HttpResponse.of, Int32.toInt_toInt64, Int64.toInt_toInt32]
  rw [Int64.toInt_ofNat_of_lt (by omega), Int.bmod_eq_of_le (by omega) (by omega)]

theorem HttpResponse.of_body (bytes : Bytes) : (HttpResponse.of bytes).body = bytes := by
  cases bytes with
  | nil => rfl
  | cons b bytes => simp [HttpResponse.body, HttpResponse.of]

theorem downloadUrlMemory_of {E : Env} {url : String} {bytes : Bytes}
    (served : E.server url = some (.of bytes)) (short : bytes.length < 1024 * 1024) :
    downloadUrlMemory E url = some bytes := by
  have length := HttpResponse.of_intLength short
  have fits : 0 ≤ (HttpResponse.of bytes).intLength ∧ (HttpResponse.of bytes).intLength < 1024 * 1024 := by
    rw [Int64.le_iff_toInt_le, Int64.lt_iff_toInt_lt, length]
    exact ⟨Int.natCast_nonneg _, Int.ofNat_lt.mpr short⟩
  simp only [downloadUrlMemory, served]
  rw [if_neg (fun bad => bad rfl), if_pos fits, length, HttpResponse.of_body, Int.toNat_natCast, if_pos (Nat.le_refl _),
    List.take_length]

theorem downloadUrlMemoryAsString_of {E : Env} {url : String} {bytes : Bytes}
    (served : E.server url = some (.of bytes)) (short : bytes.length < 1024 * 1024) :
    downloadUrlMemoryAsString E url = some (E.decode bytes) := by
  have fits : (HttpResponse.of bytes).contentLength ≤ 2147483647 ∧ (HttpResponse.of bytes).complete = true := by
    refine ⟨?_, rfl⟩
    rw [Int64.le_iff_toInt_le, HttpResponse.of, Int64.toInt_ofNat_of_lt (by omega)]
    show (bytes.length : Int) ≤ 2147483647
    omega
  simp only [downloadUrlMemoryAsString, served]
  rw [if_neg (fun bad => bad rfl), if_pos fits, HttpResponse.of_body]

namespace Published

variable {P : Published}

/-- A document that is served and read back. -/
structure Lists (P : Published) (url : String) (d : Document) : Prop where
  page : P.documents.lookup url = some d
  known : (P.documents.map (·.2)).find? (fun d' => d'.render = d.render) = some d
  plain : ∀ c ∈ d.render, c.toNat < 128
  short : d.render.length < 1024 * 1024

theorem Lists.served {url : String} {d : Document} (lists : Lists P url d) :
    P.env.server url = some (.of (ascii d.render)) := by
  have page : ∀ documents : List (String × Document), documents.lookup url = some d →
      (documents.map fun (url, document) => (url, ascii document.render)).lookup url = some (ascii d.render) := by
    intro documents found
    induction documents with
    | nil => cases found
    | cons first rest ih =>
      obtain ⟨url', d'⟩ := first
      rw [List.map_cons, List.lookup_cons]
      rw [List.lookup_cons] at found
      split at found
      · cases found
        rfl
      · exact ih found
  simp only [env, pages, List.lookup_append, page _ lists.page, Option.some_or, Option.map_some]

theorem Lists.short_bytes {url : String} {d : Document} (lists : Lists P url d) :
    (ascii d.render).length < 1024 * 1024 := by
  rw [ascii, List.length_map]
  exact lists.short

theorem Lists.parse {url : String} {d : Document} (lists : Lists P url d) :
    P.env.json.parse (P.env.decode (ascii d.render)) = some d := by
  have text : P.env.decode (ascii d.render) = String.ofList d.render := unascii_ascii lists.plain
  rw [text]
  refine Eq.trans ?_ lists.known
  simp only [env, Json.of, String.toList_ofList]

theorem Lists.readDelta {url : String} {d : DeltaInfo} (lists : Lists P url d.document) (plain : d.Plain)
    (revoked : Bool) : readDelta P.env url revoked = some { d with revoked } := by
  have nonempty : ascii d.document.render ≠ [] := nofun
  rw [Service.readDelta, downloadUrlMemory_of lists.served lists.short_bytes, Option.bind_some, if_neg nonempty]
  exact DeltaInfo.parse_document lists.parse plain revoked

theorem readDelta_none {url : String} (unlisted : P.pages.lookup url = none) (revoked : Bool) :
    Service.readDelta P.env url revoked = none := by
  have unserved : P.env.server url = none := by
    simp only [env, unlisted, Option.map_none]
  simp only [Service.readDelta, downloadUrlMemory, unserved, Option.bind_none]

theorem fetchDelta_eq {url : String} {d : DeltaInfo} (lists : Lists P url d.document) (plain : d.Plain) :
    fetchDelta P.env url = some { d with revoked := false } := by
  rw [fetchDelta, lists.readDelta plain, Option.some_or]

theorem fetchDelta_revoked {url : String} {d : DeltaInfo} (unlisted : P.pages.lookup url = none)
    (lists : Lists P (JavaString.replace url ".delta" ".delta_revoked") d.document) (plain : d.Plain) :
    fetchDelta P.env url = some { d with revoked := true } := by
  rw [fetchDelta, readDelta_none unlisted, Option.none_or, lists.readDelta plain]

theorem fetchDelta_none {url : String} (unlisted : P.pages.lookup url = none)
    (unlisted' : P.pages.lookup (JavaString.replace url ".delta" ".delta_revoked") = none) :
    fetchDelta P.env url = none := by
  rw [fetchDelta, readDelta_none unlisted, readDelta_none unlisted', Option.none_or]

/-- A chain of one delta. -/
theorem fetched_one (P : Published) (url : String) (d : DeltaInfo)
    (start : deltaUrl P.env P.config.filenameBase = url) (lists : Lists P url d.document) (plain : d.Plain)
    (unrevoked : d.revoked = false)
    (ended : P.pages.lookup (deltaUrl P.env (JavaString.replace d.out.name ".zip" "")) = none)
    (ended' : P.pages.lookup (JavaString.replace (deltaUrl P.env (JavaString.replace d.out.name ".zip" "")) ".delta"
      ".delta_revoked") = none) :
    fetched P.env 2 = some [d] := by
  have found : fetchDelta P.env (deltaUrl P.env P.env.config.filenameBase) = some d := by
    rw [show P.env.config.filenameBase = P.config.filenameBase from rfl, start, fetchDelta_eq lists plain, ← unrevoked]
  exact Service.fetched_one found (fetchDelta_none ended ended')

/-- A chain of one delta that is revoked. -/
theorem fetched_revoked (P : Published) (url : String) (d : DeltaInfo)
    (start : deltaUrl P.env P.config.filenameBase = url) (unlisted : P.pages.lookup url = none)
    (lists : Lists P (JavaString.replace url ".delta" ".delta_revoked") d.document) (plain : d.Plain)
    (ended : P.pages.lookup (deltaUrl P.env (JavaString.replace d.out.name ".zip" "")) = none)
    (ended' : P.pages.lookup (JavaString.replace (deltaUrl P.env (JavaString.replace d.out.name ".zip" "")) ".delta"
      ".delta_revoked") = none) :
    fetched P.env 2 = some [{ d with revoked := true }] := by
  have found : fetchDelta P.env (deltaUrl P.env P.env.config.filenameBase) = some { d with revoked := true } := by
    rw [show P.env.config.filenameBase = P.config.filenameBase from rfl, start, fetchDelta_revoked unlisted lists plain]
  exact Service.fetched_one found (fetchDelta_none ended ended')

/-- The newest of the builds a server lists. -/
theorem Lists.newest (P : Published) (builds : List String) {name : String}
    (lists : Lists P P.config.urlBaseJson (buildList P.config.device builds))
    (last : ((builds.filter (JavaString.endsWith · ".zip")).map JavaString.getName).getLast? = some name) :
    getNewestFullBuild P.env = .ok name := by
  have nonempty : P.env.decode (ascii (buildList P.config.device builds).render) ≠ "" := by
    rw [show P.env.decode _ = String.ofList _ from unascii_ascii lists.plain]
    intro empty
    have chars := congrArg String.toList empty
    rw [String.toList_ofList] at chars
    cases chars
  have names : buildNames P.env (P.env.decode (ascii (buildList P.config.device builds).render)) =
      some ((builds.filter (JavaString.endsWith · ".zip")).map JavaString.getName) := by
    have strings : ∀ names : List String, (names.map fun name => some (asDocument [("filename", Scalar.str name)])).mapM
        (fun build => do P.env.json.getString (← build) "filename") = some names := by
      intro names
      induction names with
      | nil => rfl
      | cons name names ih => simp only [List.map_cons, List.mapM_cons, ih]; rfl
    have rows : P.env.json.getJSONArray (buildList P.config.device builds) ("./" ++ P.config.device) =
        some (builds.map fun name => some (asDocument [("filename", Scalar.str name)])) := by
      simp [env, Json.of, buildList]
    have keys : (P.env.json.keys (buildList P.config.device builds)).filter (· = "./" ++ P.env.config.device) =
        ["./" ++ P.config.device] := by
      simp [env, Json.of, buildList]
    have files : (["./" ++ P.config.device].mapM fun key => do
        (← P.env.json.getJSONArray (buildList P.config.device builds) key).mapM fun build => do
          P.env.json.getString (← build) "filename") = some [builds] := by
      rw [List.mapM_cons, rows]
      exact Option.bind_eq_some_iff.mpr ⟨_, strings builds, rfl⟩
    unfold buildNames
    refine Option.bind_eq_some_iff.mpr ⟨_, lists.parse, ?_⟩
    rw [keys]
    refine Option.bind_eq_some_iff.mpr ⟨_, files, ?_⟩
    rw [List.flatten_singleton]
    rfl
  simp only [getNewestFullBuild]
  rw [show P.env.config.urlBaseJson = P.config.urlBaseJson from rfl,
    downloadUrlMemoryAsString_of lists.served lists.short_bytes]
  simp only [if_neg nonempty, names, Option.bind_some, last]

end Published

/-! ## Surroundings -/

/-- A service that has not run yet, on a storage with some files. -/
def World.idle (files : List (String × Bytes)) : World where
  prefs :=
    { readyFilename := none, latestFullName := none, latestDeltaName := none, downloadSize := none
      deltaSignature := false, initialFile := none, lastCheckTime := 0, lastSnoozeTime := 0
      snoozeUpdate := none, secureMode := none }
  state := .none
  files := { resolve := id, content := fun file => files.lookup file }
  failedUpdateCount := 0
  updateRunning := false
  networkReads := 0
  spaceReads := 0
  stopReads := 0
  trace := []

/-- A network that stays up, free space, and nobody who stops a run. -/
def Conditions.calm : Conditions where
  networkState _ := true
  freeSpace _ := some 100000000
  stopRequest := none
  now := 0

/-- A device on build `omni-a`. -/
def sampleConfig : Config where
  version := "a"
  device := "find7"
  filenameBase := "omni-a"
  filenameBasePrefix := "omni-"
  externalStorage := "/sd"
  pathBaseName := "OpenDelta"
  urlBaseDelta := "d/"
  urlBaseUpdate := "u/"
  urlBaseFull := "f/"
  urlBaseJson := "j"
  applySignature := false
  injectSignatureEnable := true
  injectSignatureKeys := "keys"
  secureModeEnable := true
  secureModeDefault := true

/-- The delta from `omni-a` to `omni-b`. The ZIPs in store form are the bytes 1
and 3, the delta is the byte 2. -/
def sampleDelta : DeltaInfo where
  version := 1
  input :=
    { name := "omni-a.zip", tag := none, official := ⟨7, ""⟩
      store := ⟨1, "55a54008ad1ba589aa210d2629c1df41"⟩, storeSigned := ⟨8, ""⟩ }
  update :=
    { name := "omni-a.update", tag := none, update := ⟨1, "9e688c58a5487b8eaf69c9e1005ad0bf"⟩
      applied := ⟨1, "8666683506aacd900bbd5a74ac4edf68"⟩ }
  signature := { name := "omni-a.sign", tag := none, update := ⟨9, ""⟩, applied := ⟨9, ""⟩ }
  out :=
    { name := "omni-b.zip", tag := none, official := ⟨7, ""⟩
      store := ⟨1, "8666683506aacd900bbd5a74ac4edf68"⟩, storeSigned := ⟨8, ""⟩ }
  revoked := false

/-- A server with some deltas, by URL, and some builds and files. -/
def sampleServer (deltas : List (String × DeltaInfo)) (builds : List String) (files : List (String × Bytes)) :
    Published where
  config := sampleConfig
  documents := ("j", buildList "find7" builds) :: deltas.map fun (url, d) => (url, d.document)
  files
  md5s :=
    [([1], "55a54008ad1ba589aa210d2629c1df41"), ([2], "9e688c58a5487b8eaf69c9e1005ad0bf"),
      ([3], "8666683506aacd900bbd5a74ac4edf68"), ([4], "ec7f7e7bb43742ce868145f71d37b53c")]
  deltas := [(([1], [2]), [3])]

/-- A server whose chain leads to its newest build. -/
def currentServer : Published :=
  sampleServer [("d/omni-a.delta", sampleDelta)] ["omni-b.zip"] [("u/omni-a.update", [2])]

def currentWorld : World := .idle [("/sd/OpenDelta/omni-a.zip", [1])]

theorem currentServer_newest : getNewestFullBuild currentServer.env = .ok "omni-b.zip" :=
  Published.Lists.newest currentServer ["omni-b.zip"] ⟨rfl, rfl, by decide, by decide⟩
    (by decide)

set_option maxRecDepth 4000

theorem currentServer_fetched : fetched currentServer.env 2 = some [sampleDelta] :=
  Published.fetched_one currentServer "d/omni-a.delta" sampleDelta (by decide)
    ⟨rfl, by decide, by decide, by decide⟩ ⟨rfl, rfl, rfl, rfl⟩ rfl (by decide)
    (by decide)

/-- A device where secure mode is on. -/
def securedConfig : Config := { sampleConfig with applySignature := true }

/-- The delta to a build with a signature, which turns the byte 3 into 7. -/
def signedDelta (name : String) : DeltaInfo :=
  { sampleDelta with
    signature :=
      { name := "omni-a.sign", tag := none, update := ⟨1, "06eca1b437c7904cc3ce6546c8110110"⟩
        applied := ⟨1, "89e74e640b8c46257a29de0616794d5d"⟩ }
    out := { sampleDelta.out with name, storeSigned := ⟨1, "89e74e640b8c46257a29de0616794d5d"⟩ } }

def signedServer (name : String) : Published :=
  { sampleServer [("d/omni-a.delta", signedDelta name)] [name] [("u/omni-a.update", [2]), ("u/omni-a.sign", [6])] with
    config := securedConfig
    md5s :=
      [([1], "55a54008ad1ba589aa210d2629c1df41"), ([2], "9e688c58a5487b8eaf69c9e1005ad0bf"),
        ([3], "8666683506aacd900bbd5a74ac4edf68"), ([6], "06eca1b437c7904cc3ce6546c8110110"),
        ([7], "89e74e640b8c46257a29de0616794d5d")]
    deltas := [(([1], [2]), [3]), (([3], [6]), [7])] }

theorem signedServer_newest : getNewestFullBuild (signedServer "omni-b.zip").env = .ok "omni-b.zip" :=
  Published.Lists.newest (signedServer "omni-b.zip") ["omni-b.zip"]
    ⟨rfl, rfl, by decide, by decide⟩ (by decide)

theorem signedServer_fetched : fetched (signedServer "omni-b.zip").env 2 = some [signedDelta "omni-b.zip"] :=
  Published.fetched_one (signedServer "omni-b.zip") "d/omni-a.delta" (signedDelta "omni-b.zip") (by decide)
    ⟨rfl, by decide, by decide, by decide⟩ ⟨rfl, rfl, rfl, rfl⟩ rfl (by decide)
    (by decide)

end OpenDelta.Service
