import OpenDelta.Service.World

/-!
# Downloads

The download methods of `UpdateService`. A request that fails with an exception
has the response `none`; every such exception is caught where it occurs.
-/

namespace OpenDelta.Service
open JavaString

variable (E : Env) (C : Conditions)

/-- `(int) getContentLength()`. -/
def HttpResponse.intLength (r : HttpResponse) : Int64 := r.contentLength.toInt32.toInt64

/-- What reading until the first empty read yields. -/
def HttpResponse.body (r : HttpResponse) : Bytes := (r.chunks.takeWhile (· ≠ [])).flatten

/-- `downloadUrlMemory`. -/
def downloadUrlMemory (url : String) : Option Bytes :=
  match E.server url with
  | none => none
  | some response =>
    if response.statusCode ≠ 200 then none
    else if 0 ≤ response.intLength ∧ response.intLength < 1024 * 1024 then
      let len := response.intLength.toInt.toNat
      if len ≤ response.body.length then some (response.body.take len) else none
    else none

/-- `downloadUrlMemoryAsString`. -/
def downloadUrlMemoryAsString (url : String) : Option String :=
  match E.server url with
  | none => none
  | some response =>
    if response.statusCode ≠ 200 then none
    else if response.contentLength ≤ 2147483647 ∧ response.complete then some (E.decode response.body)
    else none

/-- `getUrlDownloadSize`. -/
def getUrlDownloadSize (url : String) : Int64 :=
  match E.server url with
  | none => 0
  | some response => if response.statusCode ≠ 200 then 0 else response.contentLength

/-- What a file download has received: whether it went through, the bytes
written, and the looks at `stopDownload` so far. -/
structure Received where
  ok : Bool
  bytes : Bytes
  stopReads : Nat

/-- The loop that copies a body to a file. -/
def receive (complete : Bool) : List Bytes → Nat → Bytes → Received
  | [], n, got => { ok := complete, bytes := got, stopReads := n }
  | [] :: _, n, got => { ok := true, bytes := got, stopReads := n }
  | chunk :: rest, n, got =>
    if C.stopDownload n then { ok := false, bytes := got, stopReads := n + 1 }
    else receive complete rest (n + 1) (got ++ chunk)

/-- The part that `downloadUrlFile` and `downloadUrlFileUnknownSize` share: the
body to the file, then the MD5 of the bytes received. -/
def receiveFile (response : HttpResponse) (path matchMD5 : String) (w : World) : Bool × World :=
  if 0 < response.intLength ∧ response.intLength < 4 * 1024 * 1024 * 1024 then
    let received := receive C response.complete response.chunks w.stopReads []
    (received.ok && E.md5 received.bytes == matchMD5,
      { w with files := w.files.write path received.bytes, stopReads := received.stopReads })
  else (false, w)

/-- `downloadUrlFile`, which is never called without an MD5. -/
def downloadUrlFile (url path matchMD5 : String) (w : World) : Bool × World :=
  let w := { w with files := w.files.delete path }
  match E.server url with
  | none => (false, w)
  | some response =>
    if response.statusCode ≠ 200 then (false, w) else receiveFile E C response path matchMD5 w

/-- `downloadUrlFileUnknownSize`. Whatever happens, its `finally` reports the
download as done. -/
def downloadUrlFileUnknownSize (url path matchMD5 : String) (w : World) : Bool × World :=
  let w := { w with files := w.files.delete path }.updateState .downloading
  let result :=
    match E.server url with
    | none => (false, w)
    | some response =>
      if response.statusCode ≠ 200 then (false, w)
      else
        let w' := w.lookAtSpace
        match C.freeSpace w.spaceReads with
        | none => (false, w')
        | some freeSpace =>
          if freeSpace < response.intLength then (false, w'.updateState .errorDiskSpace)
          else receiveFile E C response path matchMD5 w'
  (result.1, result.2.updateState .downloading)

/-- `downloadDeltaFile`; `force` spares the look at the network. -/
def downloadDeltaFile (urlBase name : String) (tag : Option String) (matchMD5 : String) (force : Bool)
    (w : World) : Bool × World :=
  match tag with
  | some _ => (true, w)
  | none =>
    let w' := w.lookUnless force
    if force || C.networkState w.networkReads then
      let fn := E.config.getPathBase ++ name
      let result := downloadUrlFile E C (urlBase ++ name) fn matchMD5 (w'.emit (.transfer (urlBase ++ name) fn))
      if result.1 then (true, result.2)
      else
        let w := { result.2 with files := result.2.files.delete fn }
        if C.stopDownload w.stopReads then (false, w.lookAtStop)
        else (false, w.lookAtStop.updateState .errorDownload)
    else (false, w')

/-- `downloadFullBuild`. -/
def downloadFullBuild (url md5Sum imageName : String) (w : World) : World :=
  let fn := E.config.getPathBase ++ imageName
  let result := downloadUrlFileUnknownSize E C url fn md5Sum (w.emit (.transfer url fn))
  if result.1 then result.2.setReady fn
  else
    let w := { result.2 with files := result.2.files.delete fn }
    if C.stopDownload w.stopReads then w.lookAtStop else w.lookAtStop.updateState .errorDownload

/-! ## The `.md5sum` of a full build -/

/-- `getLatestFullMd5Sum`. -/
def getLatestFullMd5Sum (latestFullFetch : String) : Option String :=
  (downloadUrlMemoryAsString E (latestFullFetch ++ ".md5sum")).bind firstField

/-- `checkFullBuildMd5Sum`. -/
def checkFullBuildMd5Sum (files : FileStore) (url fn : String) : Bool :=
  match getLatestFullMd5Sum E url, files.read fn with
  | some md5Part, some bytes => md5Part == E.md5 bytes
  | _, _ => false

/-- The look at the file reports progress once the `.md5sum` is there. -/
def checkFullBuildDigests (url : String) : Bool := (getLatestFullMd5Sum E url).isSome

end OpenDelta.Service
