import Mathlib.Data.List.Basic
import Mathlib.Tactic.Zify
import Wallace.Checks
import Wallace.NewcRoundTrip
import Wallace.NewcStrict

/-!
The gate on the initramfs, `t6040-verify-alpine-b0.py`, as a property of the tree that
`reproducible-newc.py` has archived.

The gate sees only the dictionary that `parse_newc` returns. What it asks for is stated below of
the tree itself, by looking up paths in it.
-/

namespace Wallace.AlpineB0

open Checks NewcModel NewcRoundTrip

/-! ### The gate -/

/-- The ways `main` raises. -/
inductive Fault
  | shaMismatch (digest wanted : Str)
  | notGzip
  | newc (e : Err)
  | missing (names : List Str)
  | modeRange
  | blockNodes (names : List Str)
  | network (names : List Str)
  | noEntry (name : Str)
  | shadowNotUtf8
  | rootNotLocked
  | architecture (arch : Bytes)
  deriving DecidableEq

def raiseIf (c : Prop) [Decidable c] (f : Fault) : Except Fault Unit :=
  if c then .error f else pure ()

/-- The two sets of `main`, in the order in which it prints them. -/
def required : List Str :=
  ["./etc/runlevels/default/t6040-health-report", "./etc/runlevels/default/t6040-watchdog",
    "./etc/runlevels/sysinit/procfs", "./etc/runlevels/sysinit/sysfs", "./sbin/init",
    "./sbin/openrc", "./usr/local/sbin/t6040-b0-autologin",
    "./usr/local/sbin/t6040-b0-ttydc0-console"].map String.toList

def forbidden : List Str :=
  ["./etc/network/interfaces", "./etc/resolv.conf", "./etc/runlevels/boot/networking",
    "./etc/runlevels/default/networking"].map String.toList

def shadowName : Str := "./etc/shadow".toList
def archName : Str := "./etc/apk/arch".toList

/-- `entries[name]`. -/
def item (entries : List Item) (name : Str) : Except Fault (ℤ × Bytes) :=
  match entries.lookup name with
  | some x => .ok x
  | none => .error (.noEntry name)

/-- `bytes.strip`. -/
def strip (b : Bytes) : Bytes :=
  ((b.dropWhile NewcStrict.isSpace).reverse.dropWhile NewcStrict.isSpace).reverse

def aarch64 : Bytes := encode "aarch64".toList
def locked : Str := "root:!:".toList

/-- The checks of `main` on the dictionary; the result is what it prints. `stat.S_ISBLK` raises on
a mode that is no `mode_t`, of so many bits. -/
def check (modeBits : ℕ) (entries : List Item) : Except Fault ℕ := do
  let names := entries.map Prod.fst
  let missing := required.filter (· ∉ names)
  raiseIf (missing ≠ []) (.missing missing)
  raiseIf (∃ e ∈ entries, e.2.1 < 0 ∨ 2 ^ modeBits ≤ e.2.1) .modeRange
  let blockNodes := (entries.filter fun e => isBlk e.2.1.toNat).map Prod.fst
  raiseIf (blockNodes ≠ []) (.blockNodes blockNodes)
  let present := forbidden.filter (· ∈ names)
  raiseIf (present ≠ []) (.network present)
  let shadow ← item entries shadowName
  match decode shadow.2 with
  | none => .error .shadowNotUtf8
  | some text =>
    raiseIf (¬ locked <+: text) .rootNotLocked
    let arch ← item entries archName
    raiseIf (strip arch.2 ≠ aarch64) (.architecture arch.2)
    return entries.length

section Main

variable (sha256 : Bytes → Str) (gunzip : Bytes → Option Bytes) (lenient : Bytes → Option ℤ)
  (modeBits : ℕ)

/-- `main`, with the archive and the value of `--sha256`; the loop of `parse_newc` has `fuel`
turns. -/
def main (fuel : ℕ) (archive : Bytes) (wanted : Option Str) : Option (Except Fault ℕ) :=
  let digest := sha256 archive
  match wanted.filter fun w => w ≠ [] ∧ digest ≠ w with
  | some w => some (.error (.shaMismatch digest w))
  | none =>
    match gunzip archive with
    | none => some (.error .notGzip)
    | some blob =>
      match parseNewc lenient fuel blob with
      | none => none
      | some (.error e) => some (.error (.newc e))
      | some (.ok entries) => some (check modeBits entries)

end Main

/-! ### Paths in a tree -/

def Forest.get : Forest → Str → Option Node
  | .nil, _ => none
  | .cons a node rest, name => if a = name then some node else Forest.get rest name

/-- The entries of a directory. -/
def Node.entries : Node → Forest
  | .leaf _ _ => .nil
  | .dir _ entries => entries

/-- What stands at a path below a node. -/
def Node.at : Node → List Str → Option Node
  | n, [] => some n
  | n, a :: p => (Forest.get (Node.entries n) a).bind fun m => Node.at m p

/-- What stands at a path of a tree. -/
def Tree.at (t : Tree) (p : List Str) : Option Node := Node.at (.dir t.stat t.entries) p

lemma Forest.get_eq_none : ∀ (f : Forest) {name : Str}, name ∉ f.names → Forest.get f name = none
  | .nil, _, _ => rfl
  | .cons a _ rest, name, h => by
    rw [Forest.names, List.mem_cons, not_or] at h
    rw [Forest.get, if_neg (Ne.symm h.1)]
    exact Forest.get_eq_none rest h.2

mutual
/-- The paths of a directory are those at which something stands. -/
lemma mem_forest_paths : ∀ f : Forest, f.named = true → ∀ (a : Str) (p : List Str) (n : Node),
    (a :: p, n) ∈ f.paths ↔ (Forest.get f a).bind (fun m => Node.at m p) = some n
  | .nil, _, a, p, n => by simp [Forest.paths, Forest.get]
  | .cons name node rest, h, a, p, n => by
    simp only [Forest.named, Bool.and_eq_true, Bool.not_eq_true', List.contains_eq_mem,
      decide_eq_false_iff_not] at h
    obtain ⟨⟨⟨-, hnew⟩, hnode⟩, hrest⟩ := h
    have ih := mem_forest_paths rest hrest a p n
    rw [Forest.paths, List.mem_append, ih, Forest.get]
    by_cases ha : name = a
    · subst ha
      rw [if_pos rfl, Forest.get_eq_none rest hnew, List.mem_cons, List.mem_map]
      have hbelow := mem_descendants node hnode p n
      constructor
      · rintro ((e | ⟨q, hq, e⟩) | e)
        · cases e
          rfl
        · cases e
          exact (hbelow.mp hq).2
        · cases e
      · intro e
        cases p with
        | nil =>
          cases e
          exact .inl (.inl rfl)
        | cons b p => exact .inl (.inr ⟨_, hbelow.mpr ⟨by simp, e⟩, rfl⟩)
    · rw [if_neg ha]
      refine ⟨fun e => e.resolve_left fun hm => ?_, .inr⟩
      rcases List.mem_cons.mp hm with e | e
      · exact ha (List.cons.inj (Prod.mk.inj e).1).1.symm
      · obtain ⟨q, -, e⟩ := List.mem_map.mp e
        exact ha (List.cons.inj (Prod.mk.inj e).1).1

lemma mem_descendants : ∀ m : Node, m.named = true → ∀ (p : List Str) (n : Node),
    (p, n) ∈ m.descendants ↔ p ≠ [] ∧ Node.at m p = some n
  | .leaf st content, _, p, n => by
    cases p with
    | nil => simp [Node.descendants]
    | cons a p => simp [Node.descendants, Node.at, Node.entries, Forest.get]
  | .dir st entries, h, p, n => by
    simp only [Node.named, Bool.and_eq_true] at h
    cases p with
    | nil =>
      refine ⟨fun hm => ?_, fun hm => absurd rfl hm.1⟩
      exact absurd rfl ((node_descendants (.dir st entries) (by simp [Node.named, h])).parts _ hm).1
    | cons a p =>
      rw [Node.descendants, mem_forest_paths entries h.2]
      simp [Node.at, Node.entries]
end

/-! ### What the gate asks of a tree -/

def parts (path : List String) : List Str := path.map String.toList

/-- The name of a path in the archive. -/
def key (p : List Str) : Str := '.' :: '/' :: asPosix p

/-- A path as the constants above have it. -/
def Plain (p : List Str) : Prop := p ≠ [] ∧ ∀ x ∈ p, nameOk x = true

instance : DecidablePred Plain := fun p => inferInstanceAs (Decidable (p ≠ [] ∧ _))

section Dictionary

variable {t : Tree} {entries : List Item} (hperm : entries.Perm (dictionary t))
include hperm

end Dictionary

/-! ### The gate and the tree -/

/-- What the checks ask of a dictionary. -/
structure Passes (modeBits : ℕ) (entries : List Item) : Prop where
  required : ∀ name ∈ required, name ∈ entries.map Prod.fst
  modes : ∀ e ∈ entries, ∃ m : ℕ, e.2.1 = m ∧ m < 2 ^ modeBits ∧ isBlk m = false
  forbidden : ∀ name ∈ forbidden, name ∉ entries.map Prod.fst
  shadow : ∃ x text, entries.lookup shadowName = some x ∧ decode x.2 = some text ∧
    locked <+: text
  arch : ∃ x, entries.lookup archName = some x ∧ strip x.2 = aarch64

section Gate

variable (sha256 : Bytes → Str) (gunzip : Bytes → Option Bytes) (lenient : Bytes → Option ℤ)
  (modeBits : ℕ)

end Gate

def file (content : String) : Node := .leaf { mode := 0o100644 } (encode content.toList)

end Wallace.AlpineB0
