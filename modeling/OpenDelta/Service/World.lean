import OpenDelta.Service.DeltaInfo
import OpenDelta.Zip.Adjust

/-!
# The service and its surroundings

`Env` is what a run of the service finds unchanged: configuration, servers,
storage trees and the libraries it calls. `Conditions` is what can change while
it runs, as the answers to its successive questions. `World` is what it changes
itself; `trace` lists, in order, the steps the outside can tell apart.
-/

namespace OpenDelta.Service

/-- A response. `chunks` is how the body arrives, read by read; without
`complete` it breaks off with an exception, of the connection or of the file it
is written to. -/
structure HttpResponse where
  statusCode : Nat
  contentLength : Int64
  chunks : List Bytes
  complete : Bool

/-- A directory as `listFiles` returns it, entry by entry, by absolute path. -/
inductive Directory where
  | empty
  | file (path : String) (rest : Directory)
  | directory (path : String) (inside : Directory) (rest : Directory)

namespace Directory

/-- The regular files of the directory itself. -/
def files : Directory → List String
  | empty => []
  | file path rest => path :: rest.files
  | directory _ _ rest => rest.files

/-- The regular files of its subdirectories, each with its own files first. -/
def inner : Directory → List String
  | empty => []
  | file _ rest => rest.inner
  | directory _ inside rest => inside.files ++ inside.inner ++ rest.inner

/-- All regular files in the order a search visits them. -/
def scan (d : Directory) : List String := d.files ++ d.inner

end Directory

/-- What surrounds the service. The MD5 is in the form the code compares, and
`dedelta` is the native decoder on a source and a delta: the output, or the
output it leaves behind when it fails. -/
structure Env where
  config : Config
  server : String → Option HttpResponse
  decode : Bytes → String
  json : Json
  md5 : Bytes → String
  zlib : Zip.Zlib
  dedelta : Bytes → Bytes → Except Bytes Bytes
  externalStorage : Directory
  secondaryStorages : List Directory
  downloadSizeUnknown : String
  dailyAlarm : Bool

/-- What changes around a run: the answers to the `n`-th look at the network
state and at the free space (`none` is an exception), and the look at
`stopDownload` from which on a stop request has arrived. -/
structure Conditions where
  networkState : Nat → Bool
  freeSpace : Nat → Option Int64
  stopRequest : Option Nat
  now : Int64

def Conditions.stopDownload (C : Conditions) (n : Nat) : Bool :=
  match C.stopRequest with
  | none => false
  | some arrival => decide (arrival ≤ n)

/-- Steps of a run that its surroundings notice: a file name stored as ready,
with the contents of that file; a request whose body goes to a file; the start
of `downloadFiles` and of `applyPatches`; a notification. -/
inductive Event where
  | ready (file : String) (content : Option Bytes)
  | transfer (url : String) (file : String)
  | downloadFiles
  | applyPatches
  | notification
  | errorNotification
  deriving DecidableEq

structure World where
  prefs : Prefs
  state : ServiceState
  files : FileStore
  failedUpdateCount : Nat
  updateRunning : Bool
  networkReads : Nat
  spaceReads : Nat
  stopReads : Nat
  trace : List Event

namespace World

/-- `updateState`; the broadcast's extras are left out. -/
def updateState (w : World) (state : ServiceState) : World := { w with state }

def emit (w : World) (event : Event) : World := { w with trace := w.trace ++ [event] }

def setPrefs (w : World) (prefs : Prefs) : World := { w with prefs }

/-- `PREF_DOWNLOAD_SIZE` is stored. -/
def setDownloadSize (w : World) (text : String) : World :=
  w.setPrefs { w.prefs with downloadSize := some text }

/-- `PREF_READY_FILENAME_NAME` is stored. -/
def setReady (w : World) (file : String) : World :=
  (w.setPrefs { w.prefs with readyFilename := some file }).emit (.ready file (w.files.read file))

/-- A progress listener for MD5s reports from its first call on. -/
def digesting (w : World) (computes : Bool) (state : ServiceState) : World :=
  if computes then w.updateState state else w

/-- One look at the network state. -/
def lookAtNetwork (w : World) : World := { w with networkReads := w.networkReads + 1 }

/-- The network state is looked at unless the user wants the download. -/
def lookUnless (force : Bool) (w : World) : World := if force then w else w.lookAtNetwork

def lookAtStop (w : World) : World := { w with stopReads := w.stopReads + 1 }

def lookAtSpace (w : World) : World := { w with spaceReads := w.spaceReads + 1 }

end World

end OpenDelta.Service
