import Mathlib.Data.List.Basic
import Mathlib.Tactic.Common
import Wallace.Bytes

/-!
The raw boot object: the packer `t6040-build-raw-object.py` and the verifier
`t6040-raw-object-verify.py`.

The object is the exact m1n1 image followed by a stream of records without an outer
container: a variable, compressed members, a device tree, a wrapped or compressed
initramfs, and zeros to the end. A Python string is the list of its characters. The
`zlib` and `lzma` decoders, and the compressor of the packer, are parameters. Where the
verifier stores a digest the record keeps the bytes the digest is taken of.
-/

namespace Wallace.ObjModel

open Bytes

/-! ### The format -/

def m1n1Alignment : ℕ := 0x4000

def rawEntryPoint : ℕ := 0x800

def maxObjectSize : ℕ := 256 * 1024 * 1024

def maxCompressedExpansion : ℕ := 1024 * 1024 * 1024

def maxKernelReserve : ℕ := 512 * 1024 * 1024

def maxInitramfsExpanded : ℕ := 128 * 1024 * 1024

def maxDtbSize : ℕ := 2 * 1024 * 1024

def dtbGrowthReserve : ℕ := 6 * m1n1Alignment

def gzipMagic : List UInt8 := [0x1f, 0x8b]

def xzMagic : List UInt8 := [0xfd, 0x37, 0x7a, 0x58, 0x5a, 0x00]

def fdtMagic : List UInt8 := [0xd0, 0x0d, 0xfe, 0xed]

/-- `ARM\x64`. -/
def kernelMagic : List UInt8 := [0x41, 0x52, 0x4d, 0x64]

def extSbMagic : List UInt8 := [0x53, 0xef]

/-- `070701` and `070702`. -/
def cpioMagics : List (List UInt8) :=
  [[0x30, 0x37, 0x30, 0x37, 0x30, 0x31], [0x30, 0x37, 0x30, 0x37, 0x30, 0x32]]

/-- `m1n1_sig`. -/
def signatureMagic : List UInt8 := [0x6d, 0x31, 0x6e, 0x31, 0x5f, 0x73, 0x69, 0x67]

/-- `m1n1_initramfs`. -/
def initramfsMagic : List UInt8 :=
  [0x6d, 0x31, 0x6e, 0x31, 0x5f, 0x69, 0x6e, 0x69, 0x74, 0x72, 0x61, 0x6d, 0x66, 0x73]

/-- `m1n1_logo_256128`. -/
def logoMagic : List UInt8 :=
  [0x6d, 0x31, 0x6e, 0x31, 0x5f, 0x6c, 0x6f, 0x67, 0x6f, 0x5f, 0x32, 0x35, 0x36, 0x31, 0x32,
    0x38]

def logoSize : ℕ := 4 * ((256 * 256) + (128 * 128))

def startsWith (data magic : List UInt8) : Bool := magic.isPrefixOf data

/-- One of the two compressed encodings. -/
def isMember (data : List UInt8) : Bool := startsWith data gzipMagic || startsWith data xzMagic

def isCpio (data : List UInt8) : Bool := cpioMagics.any fun m => startsWith data m

/-! ### The decoders -/

inductive Enc | gzip | xz
  deriving DecidableEq

/-- The encoding of a member, from its magic. -/
def encOf (data : List UInt8) : Enc := if startsWith data gzipMagic then .gzip else .xz

structure Inflated where
  out : List UInt8
  eof : Bool
  /-- The length of `unused_data`. -/
  unused : ℕ

structure Codec where
  /-- A decoder object that is given all the data, and an output limit; `none` is an error of
  the decoder. -/
  inflate : Enc → List UInt8 → ℕ → Option Inflated
  /-- `gzip.compress` at level 9 with no time stamp. -/
  compress : List UInt8 → List UInt8

/-! ### Records -/

inductive Role | terminator | kernel | dtb | initramfs | signature | logo | variable
  deriving DecidableEq

inductive Encoding
  | zero
  | member (e : Enc)
  | raw
  | wrapper
  | signature
  | rgba
  | name (n : List Char)
  deriving DecidableEq

inductive PageSize | unknown | unspecified | k4 | k16 | k64
  deriving DecidableEq

structure Record where
  role : Role
  encoding : Encoding
  offset : ℕ
  size : ℕ
  sha256 : List UInt8
  expandedSize : Option ℕ := none
  expandedSha256 : Option (List UInt8) := none
  runtimeReserve : ℕ := 0
  pageSize : Option PageSize := none
  deriving DecidableEq

/-- The errors of the verifier, with the values in their messages. -/
inductive Fault
  | afterTerminator (offset : ℕ)
  | invalidMember (e : Enc)
  | memberOverLimit (e : Enc)
  | memberTruncated (e : Enc)
  | memberEmpty (e : Enc)
  | kernelZeroSize
  | kernelExceedsHeader (len imageSize : ℕ)
  | kernelReserve (imageSize : ℕ)
  | truncatedFdtHeader
  | expandedFdtSize (total len : ℕ)
  | expandedFdtLimit (total : ℕ)
  | initramfsLimit (len : ℕ)
  | unknownExpanded (head : List UInt8)
  | truncatedFdt (offset : ℕ)
  | invalidFdtSize (total offset : ℕ)
  | fdtLimit (total : ℕ)
  | truncatedWrapper (offset : ℕ)
  | wrapperSize (offset payloadSize : ℕ)
  | wrapperNotCpio (allowFsImage : Bool)
  | wrapperLimit
  | truncatedSignature (offset : ℕ)
  | signatureSize (total offset : ℕ)
  | truncatedLogo (offset : ℕ)
  | unterminatedVariable (offset : ℕ)
  | nonAsciiVariable (offset : ℕ)
  | emptyVariableName (offset : ℕ)
  | duplicateVariable (name : List Char)
  | rawKernel
  | rawCpio
  | unknownPayload (offset : ℕ) (head : List UInt8)
  | parserStopped (offset len : ℕ)
  | objectSize (size limit : ℕ)
  | prefixAlignment (size : ℕ)
  | objectAlignment (size pad : ℕ)
  | noEntryPoint
  | zeroEntryPoint
  | prefixMismatch
  | payloadOrder (roles : List Role)
  | noTerminator
  | noExpected (role : Role)
  | artifactMismatch (role : Role) (actual wanted : List UInt8)
  | bootargsMismatch (actual : Option (List Char)) (wanted : List Char)
  | noExpectedBootargs
  | noBootargs
  deriving DecidableEq

abbrev Check (α : Type) : Type := Except Fault α

def reject {α : Type} (f : Fault) : Check α := .error f

def rejectIf (c : Prop) [Decidable c] (f : Fault) : Check Unit := if c then reject f else pure ()

/-- `image_size` of an arm64 `Image`. -/
def imageSize (data : List UInt8) : ℕ := leNat (sub data 0x10 8)

def isKernel (data : List UInt8) : Prop := 0x3c ≤ data.length ∧ sub data 0x38 4 = kernelMagic

instance (data : List UInt8) : Decidable (isKernel data) :=
  inferInstanceAs (Decidable (_ ∧ _))

/-- From bits 1 and 2 of the flags. -/
def kernelPageSize (data : List UInt8) : PageSize :=
  if isKernel data then
    match leNat (sub data 24 8) / 2 % 4 with
    | 1 => .k4
    | 2 => .k16
    | 3 => .k64
    | _ => .unspecified
  else .unknown

/-- The role of an expanded member, and the memory it needs. -/
def classifyExpanded (data : List UInt8) : Check (Role × ℕ) :=
  if isKernel data then do
    rejectIf (imageSize data = 0) .kernelZeroSize
    rejectIf (imageSize data < data.length) (.kernelExceedsHeader data.length (imageSize data))
    rejectIf (maxKernelReserve < imageSize data) (.kernelReserve (imageSize data))
    pure (.kernel, imageSize data)
  else if startsWith data fdtMagic then do
    rejectIf (data.length < 8) .truncatedFdtHeader
    let total := beNat (sub data 4 4)
    rejectIf (total ≠ data.length) (.expandedFdtSize total data.length)
    rejectIf (maxDtbSize < total) (.expandedFdtLimit total)
    pure (.dtb, total + dtbGrowthReserve)
  else if isCpio data then do
    rejectIf (maxInitramfsExpanded < data.length) (.initramfsLimit data.length)
    pure (.initramfs, data.length)
  else reject (.unknownExpanded (data.take 8))

/-- The expansion of the member at the start of the data, and the length of the member. -/
def decompressMember (codec : Codec) (data : List UInt8) (e : Enc) : Check (List UInt8 × ℕ) :=
  match codec.inflate e data (maxCompressedExpansion + 1) with
  | none => reject (.invalidMember e)
  | some d => do
    rejectIf (maxCompressedExpansion < d.out.length) (.memberOverLimit e)
    rejectIf (d.eof = false) (.memberTruncated e)
    rejectIf (data.length - d.unused = 0) (.memberEmpty e)
    pure (d.out, data.length - d.unused)

/-! ### The stream -/

/-- The dictionary of the variables, newest first. -/
abbrev Vars := List (List Char × List Char)

/-- Decoding as ASCII. -/
def decodeAscii (data : List UInt8) : Option (List Char) :=
  if data.all (·.toNat < 128) then some (data.map fun b => Char.ofNat b.toNat) else none

/-- Encoding as ASCII. -/
def encodeAscii (s : List Char) : Option (List UInt8) :=
  if s.all (·.toNat < 128) then some (s.map fun c => UInt8.ofNat c.toNat) else none

/-- `parse_variable`: the name, the value, and the length of the line. -/
def parseVariable (rest : List UInt8) (offset : ℕ) :
    Check (Option (List Char × List Char × ℕ)) :=
  match (rest.take 65).findIdx? (· = 0x3d) with
  | none => pure none
  | some i =>
    match ((rest.drop (i + 1)).take 1025).findIdx? (· = 0x0a) with
    | none => reject (.unterminatedVariable offset)
    | some j =>
      match decodeAscii (rest.take i), decodeAscii (sub rest (i + 1) j) with
      | some name, some value => do
        rejectIf (name = []) (.emptyVariableName offset)
        pure (some (name, value, i + 1 + j + 1))
      | _, _ => reject (.nonAsciiVariable offset)

def readTerminator (rest : List UInt8) (offset : ℕ) : Check Record := do
  rejectIf (rest.any (· ≠ 0)) (.afterTerminator offset)
  pure { role := .terminator, encoding := .zero, offset, size := rest.length, sha256 := rest }

/-- The record of a member, once it is expanded. -/
def memberRecord (e : Enc) (member expanded : List UInt8) (offset : ℕ) : Check Record := do
  let (role, reserve) ← classifyExpanded expanded
  pure
    { role, encoding := .member e, offset, size := member.length, sha256 := member
      expandedSize := some expanded.length
      expandedSha256 := some expanded
      runtimeReserve := reserve
      pageSize := if role = .kernel then some (kernelPageSize expanded) else none }

def readMember (codec : Codec) (rest : List UInt8) (offset : ℕ) : Check Record := do
  let (expanded, consumed) ← decompressMember codec rest (encOf rest)
  memberRecord (encOf rest) (rest.take consumed) expanded offset

def readFdt (rest : List UInt8) (offset : ℕ) : Check Record := do
  rejectIf (rest.length < 8) (.truncatedFdt offset)
  let total := beNat (sub rest 4 4)
  rejectIf (total < 40 ∨ rest.length < total) (.invalidFdtSize total offset)
  rejectIf (maxDtbSize < total) (.fdtLimit total)
  pure
    { role := .dtb, encoding := .raw, offset, size := total, sha256 := rest.take total
      expandedSize := some total
      expandedSha256 := some (rest.take total)
      runtimeReserve := total + dtbGrowthReserve }

/-- A payload that the wrapper may carry: a cpio archive, or if allowed an ext image. -/
def wrappable (allowFsImage : Bool) (payload : List UInt8) : Prop :=
  isCpio payload ∨ (allowFsImage ∧ 0x440 < payload.length ∧ sub payload 0x438 2 = extSbMagic)

instance (allowFsImage : Bool) (payload : List UInt8) :
    Decidable (wrappable allowFsImage payload) :=
  inferInstanceAs (Decidable (_ ∨ _))

def readWrapper (allowFsImage : Bool) (rest : List UInt8) (offset : ℕ) : Check Record := do
  rejectIf (rest.length < 18) (.truncatedWrapper offset)
  let payloadSize := leNat (sub rest 14 4)
  let total := 18 + payloadSize
  rejectIf (rest.length < total) (.wrapperSize offset payloadSize)
  let payload := sub rest 18 payloadSize
  rejectIf (¬ wrappable allowFsImage payload) (.wrapperNotCpio allowFsImage)
  rejectIf (maxInitramfsExpanded < payloadSize) .wrapperLimit
  pure
    { role := .initramfs, encoding := .wrapper, offset, size := total
      sha256 := rest.take total
      expandedSize := some payloadSize
      expandedSha256 := some payload
      runtimeReserve := payloadSize }

def readSignature (rest : List UInt8) (offset : ℕ) : Check Record := do
  rejectIf (rest.length < 12) (.truncatedSignature offset)
  let total := leNat (sub rest 8 4)
  rejectIf (total < 12 ∨ rest.length < total) (.signatureSize total offset)
  pure
    { role := .signature, encoding := .signature, offset, size := total
      sha256 := rest.take total }

def readLogo (rest : List UInt8) (offset : ℕ) : Check Record := do
  let total := logoMagic.length + logoSize
  rejectIf (rest.length < total) (.truncatedLogo offset)
  pure { role := .logo, encoding := .rgba, offset, size := total, sha256 := rest.take total }

/-- The end of the chain: a variable, or nothing the format knows. -/
def readVariable (rest : List UInt8) (offset : ℕ) (vars : Vars) : Check (Record × Vars) := do
  match ← parseVariable rest offset with
  | some (name, value, len) =>
    rejectIf (name ∈ vars.map Prod.fst) (.duplicateVariable name)
    pure
      ({ role := .variable, encoding := .name name, offset, size := len
         sha256 := rest.take len }, (name, value) :: vars)
  | none =>
    rejectIf (isKernel rest) .rawKernel
    rejectIf (isCpio rest) .rawCpio
    reject (.unknownPayload offset (rest.take 8))

/-- One turn of the loop of `parse_payload_stream`, on what remains at `offset`. -/
def readRecord (codec : Codec) (allowFsImage : Bool) (rest : List UInt8) (offset : ℕ)
    (vars : Vars) : Check (Record × Vars) :=
  if startsWith rest [0, 0, 0, 0] then (·, vars) <$> readTerminator rest offset
  else if isMember rest then (·, vars) <$> readMember codec rest offset
  else if startsWith rest fdtMagic then (·, vars) <$> readFdt rest offset
  else if startsWith rest initramfsMagic then (·, vars) <$> readWrapper allowFsImage rest offset
  else if startsWith rest signatureMagic then (·, vars) <$> readSignature rest offset
  else if startsWith rest logoMagic then (·, vars) <$> readLogo rest offset
  else readVariable rest offset vars

/-- The loop, for at most so many turns; `none` when they do not suffice. -/
def parseLoop (codec : Codec) (allowFsImage : Bool) (data : List UInt8) :
    ℕ → ℕ → List Record → Vars → Option (Check (List Record × Vars))
  | 0, _, _, _ => none
  | fuel + 1, offset, records, vars =>
    if offset < data.length then
      match readRecord codec allowFsImage (data.drop offset) offset vars with
      | .error f => some (.error f)
      | .ok (r, vars) =>
        parseLoop codec allowFsImage data fuel (offset + r.size) (records ++ [r]) vars
    else if offset ≠ data.length then some (.error (.parserStopped offset data.length))
    else some (.ok (records, vars))

/-- `parse_payload_stream`. A turn for each byte is enough for any data. -/
def parsePayloadStream (codec : Codec) (allowFsImage : Bool) (data : List UInt8) (start : ℕ) :
    Check (List Record × Vars) :=
  match parseLoop codec allowFsImage data (data.length + 1) start [] [] with
  | some r => r
  | none => .error (.parserStopped start data.length)

/-! ### The verifier -/

/-- The artifacts an object is compared with. -/
structure Expected where
  kernel : Option (List UInt8) := none
  dtb : Option (List UInt8) := none
  initramfs : Option (List UInt8) := none

def Expected.get (x : Expected) : Role → Option (List UInt8)
  | .kernel => x.kernel
  | .dtb => x.dtb
  | .initramfs => x.initramfs
  | _ => none

def isPayload (r : Record) : Bool := r.role = .kernel || r.role = .dtb || r.role = .initramfs

structure Report where
  objectSize : ℕ
  maxSizePolicy : ℕ
  m1n1Size : ℕ
  vars : Vars
  records : List Record
  payloadBytes : ℕ

/-- The bytes of a record in the object. -/
def bytesOf (object : List UInt8) (r : Record) : List UInt8 := sub object r.offset r.size

def checkArtifact (object : List UInt8) (expected : Expected) (strict : Bool) (r : Record) :
    Check Unit :=
  match expected.get r.role with
  | none => rejectIf strict (.noExpected r.role)
  | some wanted =>
    rejectIf (bytesOf object r ≠ wanted) (.artifactMismatch r.role (bytesOf object r) wanted)

/-- `chosen.bootargs`. -/
def bootargsName : List Char := "chosen.bootargs".toList

/-- The checks of `verify_object` before the stream is parsed. -/
def checkEnvelope (object m1n1 : List UInt8) (limit : ℕ) : Check Unit := do
  rejectIf (limit < object.length) (.objectSize object.length limit)
  rejectIf (m1n1.length % m1n1Alignment ≠ 0) (.prefixAlignment m1n1.length)
  rejectIf (object.length % m1n1Alignment ≠ 0)
    (.objectAlignment object.length (m1n1Alignment - object.length % m1n1Alignment))
  rejectIf (m1n1.length ≤ rawEntryPoint + 4) .noEntryPoint
  rejectIf (sub m1n1 rawEntryPoint 4 = [0, 0, 0, 0]) .zeroEntryPoint
  rejectIf (startsWith object m1n1 = false) .prefixMismatch

/-- The checks of `verify_object` on the parsed stream. -/
def checkStream (object : List UInt8) (expected : Expected) (bootargs : Option (List Char))
    (strict : Bool) (records : List Record) (vars : Vars) : Check Unit := do
  let payload := records.filter isPayload
  rejectIf (payload.map Record.role ≠ [.kernel, .dtb, .initramfs])
    (.payloadOrder (payload.map Record.role))
  rejectIf (¬ ∃ r ∈ records.getLast?, r.role = .terminator ∧ 4 ≤ r.size) .noTerminator
  payload.forM (checkArtifact object expected strict)
  match bootargs with
  | some wanted =>
    rejectIf (vars.lookup bootargsName ≠ some wanted)
      (.bootargsMismatch (vars.lookup bootargsName) wanted)
  | none => rejectIf strict .noExpectedBootargs
  rejectIf (strict ∧ vars.lookup bootargsName = none) .noBootargs

def verifyObject (codec : Codec) (object m1n1 : List UInt8) (expected : Expected)
    (bootargs : Option (List Char)) (strict allowFsImage : Bool) (limit : ℕ) : Check Report := do
  checkEnvelope object m1n1 limit
  let (records, vars) ← parsePayloadStream codec allowFsImage object m1n1.length
  checkStream object expected bootargs strict records vars
  pure
    { objectSize := object.length
      maxSizePolicy := limit
      m1n1Size := m1n1.length
      vars
      records
      payloadBytes := ((records.filter isPayload).map Record.runtimeReserve).sum }

/-! ### The packer -/

inductive BuildFault
  | bootargsCharacter
  | m1n1Alignment (size : ℕ)
  | noEntryPoint
  | notAKernel
  | imageSize (len header : ℕ)
  | noFdtMagic
  | dtbSize
  | wrappedCompressed
  | wrappedTooLong
  | initramfsNotCompressed
  | bootargsNotAscii
  deriving DecidableEq

structure Inputs where
  m1n1 : List UInt8
  kernel : List UInt8
  dtb : List UInt8
  initramfs : List UInt8
  bootargs : List Char
  initrdWrapped : Bool

/-- What the packer writes, and the parts in it. -/
structure Built where
  output : List UInt8
  kernel : List UInt8
  dtb : List UInt8
  initramfs : List UInt8

def failIf (c : Prop) [Decidable c] (f : BuildFault) : Except BuildFault Unit :=
  if c then .error f else pure ()

def kernelMember (codec : Codec) (data : List UInt8) : Except BuildFault (List UInt8) :=
  if isMember data then pure data
  else do
    failIf (¬ isKernel data) .notAKernel
    failIf (imageSize data = 0 ∨ imageSize data < data.length)
      (.imageSize data.length (imageSize data))
    pure (codec.compress data)

/-- The initramfs as it goes into the object. -/
def initramfsMember (data : List UInt8) (wrapped : Bool) : Except BuildFault (List UInt8) :=
  if wrapped then do
    failIf (isMember data) .wrappedCompressed
    failIf (2 ^ 32 ≤ data.length) .wrappedTooLong
    pure (initramfsMagic ++ toLe 4 data.length ++ data)
  else do
    failIf (¬ isMember data) .initramfsNotCompressed
    pure data

def zeros (n : ℕ) : List UInt8 := List.replicate n 0

/-- The zeros up to the next page. -/
def pageAlign (data : List UInt8) : List UInt8 :=
  if data.length % m1n1Alignment ≠ 0 then
    data ++ zeros (m1n1Alignment - data.length % m1n1Alignment)
  else data

def build (codec : Codec) (i : Inputs) : Except BuildFault Built := do
  failIf ('\n' ∈ i.bootargs ∨ '\x00' ∈ i.bootargs) .bootargsCharacter
  failIf (i.m1n1.length % m1n1Alignment ≠ 0) (.m1n1Alignment i.m1n1.length)
  failIf (i.m1n1.length ≤ rawEntryPoint + 4 ∨ sub i.m1n1 rawEntryPoint 4 = [0, 0, 0, 0])
    .noEntryPoint
  let kernel ← kernelMember codec i.kernel
  failIf (i.dtb.length < 8 ∨ startsWith i.dtb fdtMagic = false) .noFdtMagic
  failIf (beNat (sub i.dtb 4 4) ≠ i.dtb.length) .dtbSize
  let initramfs ← initramfsMember i.initramfs i.initrdWrapped
  match encodeAscii (bootargsName ++ ['='] ++ i.bootargs ++ ['\n']) with
  | none => .error .bootargsNotAscii
  | some line =>
    pure
      { output := pageAlign (i.m1n1 ++ line ++ kernel ++ i.dtb ++ initramfs ++ zeros 4)
        kernel, dtb := i.dtb, initramfs }

end Wallace.ObjModel
