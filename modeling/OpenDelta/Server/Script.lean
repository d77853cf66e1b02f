import OpenDelta.Data.ByteFile
import OpenDelta.Data.TextLines

/-!
# `opendelta.sh`

One run of the script over the build it finds in `$PATH_CURRENT` and the one it
keeps in `$PATH_LAST`. How the external programs end is its surroundings'
choice, step by step. The buffer sizes given to `xdelta3` are left out.
-/

namespace OpenDelta.Server

/-! ## Folders -/

/-- The files of a folder that a pattern like `*` matches. -/
abbrev Folder := List (String × Bytes)

namespace Folder

def read (folder : Folder) (name : String) : Option Bytes :=
  (folder.find? fun file => file.1 = name).map Prod.snd

/-- A file with these contents, in the place of any other of its name. -/
def put (folder : Folder) (name : String) (bytes : Bytes) : Folder :=
  (name, bytes) :: folder.filter fun file => file.1 ≠ name

/-- `cp` of one file; one that does not exist is not copied. -/
def copy (folder : Folder) (name : String) (file : Option Bytes) : Folder :=
  match file with
  | none => folder
  | some bytes => folder.put name bytes

/-- `cp out/* folder/.` -/
def copyAll (folder out : Folder) : Folder := out.foldl (fun folder file => folder.put file.1 file.2) folder

end Folder

/-- What surrounds the script: the order in which `ls` lists names, and the
programs it calls, as what they write from what they read. -/
structure Host where
  precedes : String → String → Bool
  md5sum : Bytes → String
  zipadjust : Bytes → Option Bytes
  minSignAPK : Bytes → Option Bytes
  xdelta3 : Bytes → Bytes → Option Bytes

/-! ## Names, sizes and MD5s -/

/-- `FILE_MATCH`. -/
def fileMatch (name : String) : Bool :=
  "omni-".toList.isPrefixOf name.toList && ".zip".toList.isSuffixOf (name.toList.drop 5)

/-- The name that is listed first. -/
def first (precedes : String → String → Bool) : List String → Option String
  | [] => none
  | name :: names =>
    match first precedes names with
    | none => some name
    | some other => some (if precedes name other then name else other)

/-- The first word of an unquoted text. -/
def firstWord (text : String) : String :=
  String.ofList (text.toList.takeWhile fun c => c ≠ ' ' ∧ c ≠ '\t' ∧ c ≠ '\n')

/-- `$(getFileName $(ls -1 folder/$FILE_MATCH))`, `none` being the empty text. -/
def fileIn (H : Host) (folder : Folder) : Option String :=
  (first H.precedes ((folder.map Prod.fst).filter fileMatch)).map firstWord

/-- `${1%.*}`: the text up to its last dot. -/
def getFileNameNoExt (name : String) : String :=
  match name.toList.reverse.dropWhile (· ≠ '.') with
  | [] => name
  | _ :: front => String.ofList front.reverse

/-- Without the file, `md5sum` prints nothing to the script. -/
def getFileMD5 (H : Host) : Option Bytes → String
  | none => ""
  | some bytes => H.md5sum bytes

/-- Without the file, `stat` prints nothing to the script. -/
def getFileSize : Option Bytes → String
  | none => ""
  | some bytes => toString bytes.length

/-! ## The external steps -/

inductive Step where
  | adjustCurrent | adjustLast | signCurrent | signLast | update | sign
  deriving DecidableEq, Repr

/-- `main` of `zipadjust_run.c` with `--decompress`: the output file it leaves and
its exit status, whatever `zipadjust` returned. -/
def zipadjustMain (H : Host) (input : Option Bytes) : Option Bytes × Nat := (input.bind H.zipadjust, 0)

/-- `MinSignAPK.main`. The output is open, and so empty, when the ZIP is refused,
and the exception is only printed. -/
def minSignAPKMain (H : Host) (inFile : Option Bytes) : Option Bytes × Nat :=
  (inFile.map fun zip => (H.minSignAPK zip).getD [], 0)

def xdelta3Main (H : Host) (source target : Option Bytes) : Option Bytes × Nat :=
  match source.bind fun source => target.bind (H.xdelta3 source) with
  | none => (none, 1)
  | some patch => (some patch, 0)

/-- How a step fares: its program does what it can with its input, or fails,
leaving this at its output path and this exit status. -/
inductive Fate where
  | works
  | fails (left : Option Bytes) (status : Nat)

/-- The file and the status of a step whose program would end like this. -/
def Fate.ends (fate : Fate) (main : Option Bytes × Nat) : Option Bytes × Nat :=
  match fate with
  | works => main
  | fails left status => (left, status)

/-- The files of `work` and `out` that the steps write. -/
structure Work where
  current : Option Bytes
  last : Option Bytes
  currentSigned : Option Bytes
  lastSigned : Option Bytes
  update : Option Bytes
  sign : Option Bytes
  deriving DecidableEq

/-- The six steps, from the two builds. No exit status is looked at. -/
def work (H : Host) (fate : Step → Fate) (current last : Option Bytes) : Work :=
  let currentStore := ((fate .adjustCurrent).ends (zipadjustMain H current)).1
  let lastStore := ((fate .adjustLast).ends (zipadjustMain H last)).1
  let currentSigned := ((fate .signCurrent).ends (minSignAPKMain H currentStore)).1
  let lastSigned := ((fate .signLast).ends (minSignAPKMain H lastStore)).1
  let update := ((fate .update).ends (xdelta3Main H lastStore currentStore)).1
  let sign := ((fate .sign).ends (xdelta3Main H currentStore currentSigned)).1
  { current := currentStore, last := lastStore, currentSigned, lastSigned, update, sign }

/-! ## The delta file -/

/-- The variables the `.delta` is written from. -/
structure Delta where
  fileLast : String
  fileLastBase : String
  fileCurrent : String
  sizeLastStore : String
  sizeLastStoreSigned : String
  sizeLast : String
  md5LastStore : String
  md5LastStoreSigned : String
  md5Last : String
  sizeUpdate : String
  md5Update : String
  sizeSign : String
  md5Sign : String
  sizeCurrentStore : String
  sizeCurrentStoreSigned : String
  sizeCurrent : String
  md5CurrentStore : String
  md5CurrentStoreSigned : String
  md5Current : String

def Delta.lines (d : Delta) : List String :=
  [ "\x7b",
    "  \"version\": 1,",
    "  \"in\": \x7b",
    "      \"name\": \"" ++ d.fileLast ++ "\",",
    "      \"size_store\": " ++ d.sizeLastStore ++ ",",
    "      \"size_store_signed\": " ++ d.sizeLastStoreSigned ++ ",",
    "      \"size_official\": " ++ d.sizeLast ++ ",",
    "      \"md5_store\": \"" ++ d.md5LastStore ++ "\",",
    "      \"md5_store_signed\": \"" ++ d.md5LastStoreSigned ++ "\",",
    "      \"md5_official\": \"" ++ d.md5Last ++ "\"",
    "  \x7d,",
    "  \"update\": \x7b",
    "      \"name\": \"" ++ d.fileLastBase ++ ".update\",",
    "      \"size\": " ++ d.sizeUpdate ++ ",",
    "      \"size_applied\": " ++ d.sizeCurrentStore ++ ",",
    "      \"md5\": \"" ++ d.md5Update ++ "\",",
    "      \"md5_applied\": \"" ++ d.md5CurrentStore ++ "\"",
    "  \x7d,",
    "  \"signature\": \x7b",
    "      \"name\": \"" ++ d.fileLastBase ++ ".sign\",",
    "      \"size\": " ++ d.sizeSign ++ ",",
    "      \"size_applied\": " ++ d.sizeCurrentStoreSigned ++ ",",
    "      \"md5\": \"" ++ d.md5Sign ++ "\",",
    "      \"md5_applied\": \"" ++ d.md5CurrentStoreSigned ++ "\"",
    "  \x7d,",
    "  \"out\": \x7b",
    "      \"name\": \"" ++ d.fileCurrent ++ "\",",
    "      \"size_store\": " ++ d.sizeCurrentStore ++ ",",
    "      \"size_store_signed\": " ++ d.sizeCurrentStoreSigned ++ ",",
    "      \"size_official\": " ++ d.sizeCurrent ++ ",",
    "      \"md5_store\": \"" ++ d.md5CurrentStore ++ "\",",
    "      \"md5_store_signed\": \"" ++ d.md5CurrentStoreSigned ++ "\",",
    "      \"md5_official\": \"" ++ d.md5Current ++ "\"",
    "  \x7d",
    "\x7d" ]

/-- The variables after the steps. -/
def delta (H : Host) (fileCurrent fileLast : String) (current last : Option Bytes) (w : Work) : Delta where
  fileLast
  fileLastBase := getFileNameNoExt fileLast
  fileCurrent
  sizeLastStore := getFileSize w.last
  sizeLastStoreSigned := getFileSize w.lastSigned
  sizeLast := getFileSize last
  md5LastStore := getFileMD5 H w.last
  md5LastStoreSigned := getFileMD5 H w.lastSigned
  md5Last := getFileMD5 H last
  sizeUpdate := getFileSize w.update
  md5Update := getFileMD5 H w.update
  sizeSign := getFileSize w.sign
  md5Sign := getFileMD5 H w.sign
  sizeCurrentStore := getFileSize w.current
  sizeCurrentStoreSigned := getFileSize w.currentSigned
  sizeCurrent := getFileSize current
  md5CurrentStore := getFileMD5 H w.current
  md5CurrentStoreSigned := getFileMD5 H w.currentSigned
  md5Current := getFileMD5 H current

/-- What `echo` writes to the `.delta`, the text in UTF-8. -/
def Delta.bytes (d : Delta) : Bytes := (TextLines.unlines d.lines).toUTF8.data.toList

/-- The folder `out` at the end. -/
def outFolder (base : String) (w : Work) (d : Delta) : Folder :=
  ((Folder.copy [] (base ++ ".update") w.update).copy (base ++ ".sign") w.sign).put (base ++ ".delta") d.bytes

/-! ## The process -/

/-- The folders that stay: `$PATH_CURRENT`, `$PATH_LAST` and `publish/$DEVICE`. -/
structure Folders where
  current : Folder
  last : Folder
  publish : Folder

/-- The script: its exit status, and the folders after it. -/
def process (H : Host) (fate : Step → Fate) (s : Folders) : Nat × Folders :=
  match fileIn H s.current, fileIn H s.last with
  | none, _ => (1, s)
  | some fileCurrent, none =>
    (0, { s with last := s.last.copy fileCurrent (s.current.read fileCurrent) })
  | some fileCurrent, some fileLast =>
    if fileLast = fileCurrent then (1, s)
    else
      let w := work H fate (s.current.read fileCurrent) (s.last.read fileLast)
      let d := delta H fileCurrent fileLast (s.current.read fileCurrent) (s.last.read fileLast) w
      let out := outFolder (getFileNameNoExt fileLast) w d
      (0, { s with
            publish := s.publish.copyAll out
            last := Folder.copy [] fileCurrent (s.current.read fileCurrent) })

end OpenDelta.Server
