import OpenDelta.Data.LittleEndian
import OpenDelta.Data.ByteFile

/-!
# The packed headers of `zipadjust.c`

`local_header_t`, `central_header_t` and `central_footer_t` with their fields
in file order; all are little-endian and packed, so `encode` is the struct's
memory image and `decode` reads it back.
-/

namespace OpenDelta.Zip
open LittleEndian

def magicLocalHeader : UInt32 := 0x04034b50
def magicCentralHeader : UInt32 := 0x02014b50
def magicCentralFooter : UInt32 := 0x06054b50

/-- `local_header_t`; the file name and the extra field follow it. -/
structure LocalHeader where
  signature : UInt32
  extractVersion : UInt16
  flags : UInt16
  compressionMethod : UInt16
  lastModifiedTime : UInt16
  lastModifiedDate : UInt16
  crc32 : UInt32
  sizeCompressed : UInt32
  sizeUncompressed : UInt32
  lengthFilename : UInt16
  lengthExtra : UInt16
  deriving DecidableEq, Repr

/-- `central_header_t`; the file name, the extra field and the comment follow it. -/
structure CentralHeader where
  signature : UInt32
  versionMade : UInt16
  versionNeeded : UInt16
  flags : UInt16
  compressionMethod : UInt16
  lastModifiedTime : UInt16
  lastModifiedDate : UInt16
  crc32 : UInt32
  sizeCompressed : UInt32
  sizeUncompressed : UInt32
  lengthFilename : UInt16
  lengthExtra : UInt16
  lengthComment : UInt16
  diskStart : UInt16
  attrInternal : UInt16
  attrExternal : UInt32
  offset : UInt32
  deriving DecidableEq, Repr

/-- `central_footer_t`; the archive comment follows it. -/
structure CentralFooter where
  signature : UInt32
  diskNumber : UInt16
  diskNumberCentralDirectory : UInt16
  centralDirectoryEntriesThisDisk : UInt16
  centralDirectoryEntriesTotal : UInt16
  centralDirectorySize : UInt32
  centralDirectoryOffset : UInt32
  lengthComment : UInt16
  deriving DecidableEq, Repr

/-- `sizeof(local_header_t)`, `sizeof(central_header_t)`, `sizeof(central_footer_t)`. -/
def sizeofLocalHeader : Nat := 30
def sizeofCentralHeader : Nat := 46
def sizeofCentralFooter : Nat := 22

namespace LocalHeader

def encode (h : LocalHeader) : Bytes :=
  bytes32 h.signature ++ (bytes16 h.extractVersion ++ (bytes16 h.flags ++
  (bytes16 h.compressionMethod ++ (bytes16 h.lastModifiedTime ++ (bytes16 h.lastModifiedDate ++
  (bytes32 h.crc32 ++ (bytes32 h.sizeCompressed ++ (bytes32 h.sizeUncompressed ++
  (bytes16 h.lengthFilename ++ bytes16 h.lengthExtra)))))))))

def decode (bs : Bytes) : LocalHeader :=
  let (signature, bs) := split32 bs
  let (extractVersion, bs) := split16 bs
  let (flags, bs) := split16 bs
  let (compressionMethod, bs) := split16 bs
  let (lastModifiedTime, bs) := split16 bs
  let (lastModifiedDate, bs) := split16 bs
  let (crc32, bs) := split32 bs
  let (sizeCompressed, bs) := split32 bs
  let (sizeUncompressed, bs) := split32 bs
  let (lengthFilename, bs) := split16 bs
  let (lengthExtra, _) := split16 bs
  { signature, extractVersion, flags, compressionMethod, lastModifiedTime, lastModifiedDate, crc32,
    sizeCompressed, sizeUncompressed, lengthFilename, lengthExtra }

@[simp] theorem encode_length (h : LocalHeader) : h.encode.length = 30 := by
  simp [encode]

@[simp] theorem decode_encode (h : LocalHeader) : decode h.encode = h := by
  simp [decode, encode]

end LocalHeader

namespace CentralHeader

def encode (h : CentralHeader) : Bytes :=
  bytes32 h.signature ++ (bytes16 h.versionMade ++ (bytes16 h.versionNeeded ++ (bytes16 h.flags ++
  (bytes16 h.compressionMethod ++ (bytes16 h.lastModifiedTime ++ (bytes16 h.lastModifiedDate ++
  (bytes32 h.crc32 ++ (bytes32 h.sizeCompressed ++ (bytes32 h.sizeUncompressed ++
  (bytes16 h.lengthFilename ++ (bytes16 h.lengthExtra ++ (bytes16 h.lengthComment ++
  (bytes16 h.diskStart ++ (bytes16 h.attrInternal ++ (bytes32 h.attrExternal ++
  bytes32 h.offset)))))))))))))))

def decode (bs : Bytes) : CentralHeader :=
  let (signature, bs) := split32 bs
  let (versionMade, bs) := split16 bs
  let (versionNeeded, bs) := split16 bs
  let (flags, bs) := split16 bs
  let (compressionMethod, bs) := split16 bs
  let (lastModifiedTime, bs) := split16 bs
  let (lastModifiedDate, bs) := split16 bs
  let (crc32, bs) := split32 bs
  let (sizeCompressed, bs) := split32 bs
  let (sizeUncompressed, bs) := split32 bs
  let (lengthFilename, bs) := split16 bs
  let (lengthExtra, bs) := split16 bs
  let (lengthComment, bs) := split16 bs
  let (diskStart, bs) := split16 bs
  let (attrInternal, bs) := split16 bs
  let (attrExternal, bs) := split32 bs
  let (offset, _) := split32 bs
  { signature, versionMade, versionNeeded, flags, compressionMethod, lastModifiedTime,
    lastModifiedDate, crc32, sizeCompressed, sizeUncompressed, lengthFilename, lengthExtra,
    lengthComment, diskStart, attrInternal, attrExternal, offset }

@[simp] theorem encode_length (h : CentralHeader) : h.encode.length = 46 := by
  simp [encode]

@[simp] theorem decode_encode (h : CentralHeader) : decode h.encode = h := by
  simp [decode, encode]

/-- Every 46 bytes are the image of a header. -/
theorem encode_decode {bs : Bytes} (len : bs.length = 46) : (decode bs).encode = bs := by
  simp (disch := simp only [split16_rest_length, split32_rest_length]; omega) only [decode, encode, split16_join, split32_join, split32_last]
  exact split32_join (by omega)

end CentralHeader

namespace CentralFooter

def encode (f : CentralFooter) : Bytes :=
  bytes32 f.signature ++ (bytes16 f.diskNumber ++ (bytes16 f.diskNumberCentralDirectory ++
  (bytes16 f.centralDirectoryEntriesThisDisk ++ (bytes16 f.centralDirectoryEntriesTotal ++
  (bytes32 f.centralDirectorySize ++ (bytes32 f.centralDirectoryOffset ++
  bytes16 f.lengthComment))))))

def decode (bs : Bytes) : CentralFooter :=
  let (signature, bs) := split32 bs
  let (diskNumber, bs) := split16 bs
  let (diskNumberCentralDirectory, bs) := split16 bs
  let (centralDirectoryEntriesThisDisk, bs) := split16 bs
  let (centralDirectoryEntriesTotal, bs) := split16 bs
  let (centralDirectorySize, bs) := split32 bs
  let (centralDirectoryOffset, bs) := split32 bs
  let (lengthComment, _) := split16 bs
  { signature, diskNumber, diskNumberCentralDirectory, centralDirectoryEntriesThisDisk,
    centralDirectoryEntriesTotal, centralDirectorySize, centralDirectoryOffset, lengthComment }

@[simp] theorem encode_length (f : CentralFooter) : f.encode.length = 22 := by
  simp [encode]

@[simp] theorem decode_encode (f : CentralFooter) : decode f.encode = f := by
  simp [decode, encode]

end CentralFooter

end OpenDelta.Zip
