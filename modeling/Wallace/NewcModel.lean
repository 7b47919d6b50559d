import Mathlib.Algebra.Order.Ring.Int
import Mathlib.Data.List.Basic
import Mathlib.Tactic.Common
import Wallace.Bytes

/-!
The newc archive: `reproducible-newc.py`, which writes one for a directory tree, and
`parse_newc` of `t6040-verify-alpine-b0.py`, which reads one.

Python strings are lists of characters; `os.fsencode` and `decode` are UTF-8. The reader
works with Python's integers, which may be negative, and with Python's slices, which cut at
the ends of the archive and count negative positions from its end.
-/

namespace Wallace.NewcModel

abbrev Bytes := List UInt8

/-- A Python string. -/
abbrev Str := List Char

/-! ### Trees -/

/-- What `lstat` gives; `st_rdev` by its two parts. -/
structure Stat where
  mode : ℕ
  major : ℕ := 0
  minor : ℕ := 0
  ino : ℕ := 0
  nlink : ℕ := 0
  uid : ℕ := 0
  gid : ℕ := 0
  mtime : ℕ := 0

mutual
/-- A file of any kind, with what reading it or its link gives, or a directory. -/
inductive Node
  | leaf (st : Stat) (content : Bytes)
  | dir (st : Stat) (entries : Forest)

/-- The entries of a directory. -/
inductive Forest
  | nil
  | cons (name : Str) (node : Node) (rest : Forest)
end

def Node.stat : Node → Stat
  | .leaf st _ => st
  | .dir st _ => st

/-- `read_bytes` and `readlink`. -/
def Node.content : Node → Bytes
  | .leaf _ content => content
  | .dir _ _ => []

/-- `stat.S_IFMT`. -/
def fileType (mode : ℕ) : ℕ := mode &&& 0o170000

def isReg (mode : ℕ) : Bool := fileType mode = 0o100000
def isLnk (mode : ℕ) : Bool := fileType mode = 0o120000
def isDir (mode : ℕ) : Bool := fileType mode = 0o040000
def isChr (mode : ℕ) : Bool := fileType mode = 0o020000
def isBlk (mode : ℕ) : Bool := fileType mode = 0o060000
def isFifo (mode : ℕ) : Bool := fileType mode = 0o010000

/-- A name that a directory entry can have. -/
def nameOk (name : Str) : Bool :=
  name ≠ [] ∧ '/' ∉ name ∧ '\x00' ∉ name ∧ name ≠ ['.'] ∧ name ≠ ['.', '.']

def Forest.names : Forest → List Str
  | .nil => []
  | .cons name _ rest => name :: rest.names

mutual
/-- A directory is one, and a file of any type is not. -/
def Node.named : Node → Bool
  | .leaf st _ => !isDir st.mode
  | .dir st entries => isDir st.mode && entries.named

/-- Names are possible and different from each other. -/
def Forest.named : Forest → Bool
  | .nil => true
  | .cons name node rest =>
    nameOk name && !(rest.names.contains name) && node.named && rest.named
end

mutual
/-- A file is a regular file, a symlink, a FIFO or a device node, and a directory one. -/
def Node.wellFormed : Node → Bool
  | .leaf st _ =>
    isReg st.mode || isLnk st.mode || isChr st.mode || isBlk st.mode || isFifo st.mode
  | .dir st entries => isDir st.mode && entries.wellFormed

/-- Names are possible and different from each other. -/
def Forest.wellFormed : Forest → Bool
  | .nil => true
  | .cons name node rest =>
    nameOk name && !(rest.names.contains name) && node.wellFormed && rest.wellFormed
end

/-- A directory tree without sockets and the like. -/
structure Tree where
  stat : Stat
  entries : Forest
  isDir : isDir stat.mode = true
  ok : entries.wellFormed = true

mutual
/-- `root.rglob("*")`, relative to the root, a path by its parts. -/
def Forest.paths : Forest → List (List Str × Node)
  | .nil => []
  | .cons name node rest =>
    ([name], node) :: (node.descendants.map fun q => (name :: q.1, q.2)) ++ rest.paths

def Node.descendants : Node → List (List Str × Node)
  | .leaf _ _ => []
  | .dir _ entries => entries.paths
end

/-! ### The writer -/

/-- `os.fsencode`, and `encode` of a string. -/
def encode (s : Str) : Bytes := s.flatMap String.utf8EncodeChar

/-- `as_posix`. -/
def asPosix (p : List Str) : Str := List.intercalate ['/'] p

/-- The zeros that `pad4` writes: `(-size) & 3` of them. -/
def pad4 (size : ℕ) : Bytes := List.replicate (-(size : ℤ) % 4).toNat 0

/-- `f"{value:08x}".encode()`. -/
def hex8 (v : ℕ) : Bytes :=
  let ds := Nat.toDigits 16 v
  encode (List.replicate (8 - ds.length) '0' ++ ds)

def magic : Bytes := encode "070701".toList

/-- `write_entry`; the assertion on the length of the header fails with a field that needs
more than eight digits. -/
def writeEntry (inode : ℕ) (name : Str) (mode nlink : ℕ) (data : Bytes) (rdev : ℕ × ℕ) :
    Option Bytes :=
  let encodedName := encode name ++ [0]
  let fields :=
    [inode, mode, 0, 0, nlink, 0, data.length, 0, 0, rdev.1, rdev.2, encodedName.length, 0]
  let header := magic ++ fields.flatMap hex8
  if header.length ≠ 110 then none
  else some (header ++ encodedName ++ pad4 (header.length + encodedName.length) ++ data ++
    pad4 data.length)

/-- The branches of `main` on the type of a file: data, `nlink` and `rdev`. -/
def entryOf (n : Node) : Option (Bytes × ℕ × (ℕ × ℕ)) :=
  let mode := n.stat.mode
  let rdev := if isChr mode || isBlk mode then (n.stat.major, n.stat.minor) else (0, 0)
  if isReg mode then some (n.content, 1, rdev)
  else if isLnk mode then some (n.content, 1, rdev)
  else if isDir mode then some ([], 2, rdev)
  else if isChr mode || isBlk mode || isFifo mode then some ([], 1, rdev)
  else none

def trailer : Str := "TRAILER!!!".toList

/-- The loop of `main` and the trailer. -/
def writeAll : ℕ → List (Str × Node) → Option Bytes
  | inode, [] => writeEntry inode trailer 0 1 [] (0, 0)
  | inode, (name, node) :: rest => do
    let (data, nlink, rdev) ← entryOf node
    let entry ← writeEntry inode name node.stat.mode nlink data rdev
    let others ← writeAll (inode + 1) rest
    return entry ++ others

/-- `archive_paths`, with the name each path is archived under: sorted by their bytes. -/
def archivePaths (t : Tree) : List (Str × Node) :=
  (['.'], .dir t.stat t.entries) ::
    (t.entries.paths.mergeSort fun p q => encode (asPosix p.1) ≤ encode (asPosix q.1)).map
      fun p => ('.' :: '/' :: asPosix p.1, p.2)

/-- `main`. -/
def archive (t : Tree) : Option Bytes := writeAll 1 (archivePaths t)

/-! ### The reader -/

/-- An index of a slice, in a sequence of `n`. -/
def clamp (n : ℕ) (x : ℤ) : ℕ := if x < 0 then (x + n).toNat else min x.toNat n

/-- `blob[a:b]`. -/
def pySlice (blob : Bytes) (a b : ℤ) : Bytes :=
  (blob.take (clamp blob.length b)).drop (clamp blob.length a)

/-- `blob[i]`, which may be out of range. -/
def pyIndex (blob : Bytes) (i : ℤ) : Option UInt8 :=
  let j := if i < 0 then i + blob.length else i
  if j < 0 then none else blob[j.toNat]?

def hexVal (b : UInt8) : Option ℕ :=
  if 48 ≤ b ∧ b ≤ 57 then some (b.toNat - 48)
  else if 97 ≤ b ∧ b ≤ 102 then some (b.toNat - 87)
  else if 65 ≤ b ∧ b ≤ 70 then some (b.toNat - 55)
  else none

/-- `int(b, 16)`. What it makes of anything but digits (blanks, a sign, underscores) is
`lenient`. -/
def int16 (lenient : Bytes → Option ℤ) (b : Bytes) : Option ℤ :=
  if b ≠ [] ∧ b.all fun x => (hexVal x).isSome then
    some (b.foldl (fun n x => 16 * n + (hexVal x).getD 0) 0 : ℕ)
  else lenient b

/-- `decode`. -/
def decode (b : Bytes) : Option Str := (String.fromUTF8? b.toByteArray).map String.toList

def aligned (value : ℤ) : ℤ := (value + 3) / 4 * 4

/-- The ways `parse_newc` raises. -/
inductive Err
  | badMagic (offset : ℤ)
  | badField
  | badIndex
  | invalidName (offset : ℤ)
  | badUtf8
  | duplicate (name : Str)
  | trailingData
  deriving DecidableEq

/-- An item of the dictionary that `parse_newc` returns. -/
abbrev Item := Str × ℤ × Bytes

def orRaise {α : Type} (e : Err) : Option α → Except Err α
  | some a => .ok a
  | none => .error e

/-- One turn of the loop, up to the test for the trailer: the item and the next offset. -/
def parseEntry (lenient : Bytes → Option ℤ) (blob : Bytes) (offset : ℤ) :
    Except Err (Item × ℤ) := do
  if pySlice blob offset (offset + 6) ≠ magic then throw (.badMagic offset)
  let fields ← (List.range 13).mapM fun (i : ℕ) => orRaise .badField
    (int16 lenient (pySlice blob (offset + 6 + i * 8) (offset + 14 + i * 8)))
  let mode := fields.getD 1 0
  let size := fields.getD 6 0
  let nameSize := fields.getD 11 0
  let nameStart := offset + 110
  let nameEnd := nameStart + nameSize
  if nameSize < 1 then throw (.invalidName offset)
  let last ← orRaise .badIndex (pyIndex blob (nameEnd - 1))
  if last ≠ 0 then throw (.invalidName offset)
  let name ← orRaise .badUtf8 (decode (pySlice blob nameStart (nameEnd - 1)))
  let dataStart := aligned nameEnd
  let dataEnd := dataStart + size
  return ((name, mode, pySlice blob dataStart dataEnd), aligned dataEnd)

/-- The loop of `parse_newc`, in at most so many turns. -/
def parseLoop (lenient : Bytes → Option ℤ) (blob : Bytes) :
    ℕ → ℤ → List Item → Option (Except Err (List Item))
  | 0, _, _ => none
  | fuel + 1, offset, entries =>
    match parseEntry lenient blob offset with
    | .error e => some (.error e)
    | .ok (item, next) =>
      if item.1 = trailer then
        some (if (pySlice blob next blob.length).any (· ≠ 0) then .error .trailingData
          else .ok entries)
      else if item.1 ∈ entries.map Prod.fst then some (.error (.duplicate item.1))
      else parseLoop lenient blob fuel next (entries ++ [item])

/-- `parse_newc`, in at most `fuel` turns. -/
def parseNewc (lenient : Bytes → Option ℤ) (fuel : ℕ) (blob : Bytes) :
    Option (Except Err (List Item)) :=
  parseLoop lenient blob fuel 0 []

end Wallace.NewcModel
