import OpenDelta.Data.JavaString

/-!
# Configuration, preferences and states

`Config.java` with the resources and properties it reads, the shared
preferences of the update service, and the values of its `state`.
-/

namespace OpenDelta.Service

/-- What `Config` holds. -/
structure Config where
  version : String
  device : String
  filenameBase : String
  filenameBasePrefix : String
  externalStorage : String
  pathBaseName : String
  urlBaseDelta : String
  urlBaseUpdate : String
  urlBaseFull : String
  urlBaseJson : String
  applySignature : Bool
  injectSignatureEnable : Bool
  injectSignatureKeys : String
  secureModeEnable : Bool
  secureModeDefault : Bool

/-- The preferences; `none` is `null`, or the default of `secure_mode`. -/
structure Prefs where
  readyFilename : Option String
  latestFullName : Option String
  latestDeltaName : Option String
  downloadSize : Option String
  deltaSignature : Bool
  initialFile : Option String
  lastCheckTime : Int64
  lastSnoozeTime : Int64
  snoozeUpdate : Option String
  secureMode : Option Bool

namespace Config

def getPathBase (c : Config) : String := c.externalStorage ++ "/" ++ c.pathBaseName ++ "/"

def getPathFlashAfterUpdate (c : Config) : String := c.getPathBase ++ "FlashAfterUpdate" ++ "/"

def getInjectSignatureKeys (c : Config) : String := c.injectSignatureKeys

def getSecureModeEnable (c : Config) : Bool :=
  c.applySignature && c.injectSignatureEnable && c.secureModeEnable

def getSecureModeDefault (c : Config) : Bool := c.secureModeDefault && c.getSecureModeEnable

def getSecureModeCurrent (c : Config) (prefs : Prefs) : Bool :=
  c.getSecureModeEnable && prefs.secureMode.getD c.getSecureModeDefault

/-- With full secure mode the signature depends on the setting, otherwise on the
configuration only. -/
def getInjectSignatureEnable (c : Config) (prefs : Prefs) : Bool :=
  if c.getSecureModeEnable then c.getSecureModeCurrent prefs else c.injectSignatureEnable

/-- In secure mode the signature keys are injected. -/
theorem getInjectSignatureEnable_of_secure {c : Config} {prefs : Prefs}
    (secure : c.getSecureModeCurrent prefs = true) : c.getInjectSignatureEnable prefs = true := by
  have enabled : c.getSecureModeEnable = true := by
    rw [getSecureModeCurrent, Bool.and_eq_true] at secure
    exact secure.1
  rw [getInjectSignatureEnable, if_pos enabled, secure]

end Config

/-- The values of `state`. -/
inductive ServiceState where
  | none | checking | checkingMd5 | searching | searchingMd5 | downloading
  | applying | applyingPatch | applyingMd5 | ready | build
  | errorDiskSpace | errorUnknown | errorUnofficial | errorDownload | errorConnection
  deriving DecidableEq, Repr

namespace ServiceState

def isProgressState : ServiceState → Bool
  | downloading | searching | searchingMd5 | checking | checkingMd5 | applying | applyingMd5
  | applyingPatch => true
  | _ => false

def isErrorState : ServiceState → Bool
  | errorDownload | errorDiskSpace | errorUnknown | errorUnofficial | errorConnection => true
  | _ => false

end ServiceState

/-- `clearState`. -/
def Prefs.clearState (p : Prefs) : Prefs :=
  { p with
    latestFullName := none
    latestDeltaName := none
    readyFilename := none
    downloadSize := none
    deltaSignature := false
    initialFile := none }

end OpenDelta.Service
