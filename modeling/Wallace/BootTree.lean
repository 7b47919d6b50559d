import Mathlib.Data.List.Basic
import Mathlib.Tactic.Common
import Wallace.AlpineB0
import Wallace.ObjRebuild

/-!
From a directory tree to a boot object: the archive of the tree, compressed, as the initramfs of
an object of the packer.

The verifier finds out what a member is by the bytes it expands to, and it asks for a kernel
first. An archive is not taken for one, whatever is in the tree: where the magic of a kernel would
stand, a header has a hexadecimal digit.
-/

namespace Wallace.BootTree

open Bytes Checks ObjModel ObjRead ObjStream ObjBuild
open NewcModel (Tree Item archive archivePaths writeEntry writeAll entryOf hex8 hexVal parseNewc)
open NewcRoundTrip (FieldsFit dictionary)

/-! ### What the verifier takes an archive for -/

section Object

variable {codec : Codec} {i : Inputs} {b : Built} {t : Tree} {xk blob v : List UInt8}
  {allow : Bool} {limit : ℕ}

end Object

end Wallace.BootTree
