import Mathlib.Data.List.Basic
import Mathlib.Tactic.Common
import Wallace.Bytes
import Wallace.Escapes
import Wallace.Shell

/-!
`t6040-sdroot-shutdown`, from the bind mount of the SD card to `poweroff` or `reboot`.

A table lists the mounts with the newest first; `/proc/mounts` has the oldest first. Which
commands fail is up to the environment; a command that has nothing to work on fails as well.
`sync` and the messages change nothing that is read here.
-/

namespace Wallace.ShutdownModel

open Script (Text)

/-! ### The mount table -/

/-- A mounted file system; the source is one field of a line. -/
structure Mount where
  source : Text
  path : Text
  kind : Text
  ro : Bool
  options : Text := []
  source_ne : source ≠ []
  source_word : ∀ x ∈ source, Shell.blank x = false
  path_ne : path ≠ []
  deriving DecidableEq

/-- The mount point as `/proc/mounts` spells it. -/
def Mount.point (m : Mount) : Text := Escapes.mangle m.path

def Mount.flag (m : Mount) : Text := if m.ro then "ro".toList else "rw".toList

/-- The line of `/proc/mounts`. -/
def Mount.line (m : Mount) : Text :=
  m.source ++ ' ' :: (m.point ++ ' ' :: (m.kind ++ ' ' :: (m.flag ++ m.options)))

abbrev Table := List Mount

/-- The lines of `/proc/mounts`. -/
def listing (t : Table) : List Text := t.reverse.map Mount.line

/-- `$2`. -/
def column2 (line : Text) : Text := (Shell.words line).getD 1 []

/-- `awk -v m="$1" '$2 == m { f = 1 } END { exit !f }' /proc/mounts`. -/
def mounted (t : Table) (m : Text) : Bool :=
  (listing t).any fun line => column2 line = Escapes.unescape m

/-! ### State and environment -/

/-- What has been done to the table and to the loop devices. -/
inductive Event
  | mounted (m : Mount)
  | pivoted
  | remounted (m : Mount)
  | unmounted (m : Mount)
  | detached (dev : Text)
  deriving DecidableEq

/-- The commands that may fail are counted, and those that changed something are kept in order. -/
structure St where
  table : Table
  attached : List Text
  ran : ℕ := 0
  log : List Event := []
  deriving DecidableEq

/-- One more command is run. -/
def St.tick (s : St) : St := { s with ran := s.ran + 1 }

def St.note (s : St) (e : Event) : St := { s with log := s.log ++ [e] }

def oldroot : Text := "/oldroot".toList
def oldrootSlash : Text := "/oldroot/".toList
def sd : Text := "/sd".toList
def mntSd : Text := "/mnt/sd".toList
def initramfs : Text := "/run/initramfs".toList

/-- What the script meets. A match of a pattern begins as the pattern does up to its last slash
before the first special character, so those of a pattern below `/oldroot` lie below it. -/
structure Env where
  isPid1 : Bool
  action : Option Text
  loopdev : Option Text
  isBlock : Text → Bool
  glob : Text → List Text
  glob_below : ∀ p, oldrootSlash <+: p → ∀ w ∈ glob p, oldrootSlash <+: w
  ok : ℕ → Bool
  lingers : Bool

/-! ### Commands -/

/-- `command || fail "why"`: the shell that `fail` starts does not return. -/
def command (env : Env) (why : Text) (act : St → Option St) (s : St) : Except (Text × St) St :=
  match if env.ok s.ran then act s.tick else none with
  | some s' => .ok s'
  | none => .error (why, s.tick)

/-- The newest mount at a path goes. -/
def umount (p : Text) (s : St) : Option St :=
  (s.table.find? (·.path = p)).map fun m =>
    { s with table := s.table.eraseP (·.path = p) }.note (.unmounted m)

def setRo (p : Text) : Table → Table
  | [] => []
  | m :: t => if m.path = p then { m with ro := true } :: t else m :: setRo p t

/-- `mount -o remount,ro`, of the newest mount at a path. -/
def remountRo (p : Text) (s : St) : Option St :=
  (s.table.find? (·.path = p)).map fun m =>
    { s with table := setRo p s.table }.note (.remounted { m with ro := true })

/-- Where a path is found after `pivot_root . oldroot` in `/run/initramfs`. -/
def pivoted (p : Text) : Text :=
  if p = initramfs then "/".toList
  else if initramfs ++ ['/'] <+: p then p.drop initramfs.length
  else if p = "/".toList then oldroot
  else oldroot ++ p

lemma pivoted_ne (p : Text) : pivoted p ≠ [] := by
  unfold pivoted
  split_ifs with h1 h2 h3
  · exact List.cons_ne_nil _ _
  · obtain ⟨t, ht⟩ := h2
    rw [← ht, List.append_assoc, List.drop_left]
    exact List.cons_ne_nil _ _
  · exact List.cons_ne_nil _ _
  · exact List.append_ne_nil_of_left_ne_nil (List.cons_ne_nil _ _) _

def Mount.pivot (m : Mount) : Mount := { m with path := pivoted m.path, path_ne := pivoted_ne _ }

/-- The new root has to be a mount point. -/
def pivotRoot (s : St) : Option St :=
  if s.table.any (·.path = initramfs) then
    some ({ s with table := s.table.map Mount.pivot }.note .pivoted)
  else none

def mount (m : Mount) (s : St) : Option St :=
  some ({ s with table := m :: s.table }.note (.mounted m))

def procMount : Mount where
  source := "none".toList
  path := "/proc".toList
  kind := "proc".toList
  ro := false
  source_ne := by decide
  source_word := by simp [Shell.blank]
  path_ne := by decide

def devMount : Mount where
  source := "none".toList
  path := "/dev".toList
  kind := "devtmpfs".toList
  ro := false
  source_ne := by decide
  source_word := by simp [Shell.blank]
  path_ne := by decide

/-- `losetup -d`. A device that is still in use stays until it is free. -/
def losetupD (env : Env) (dev : Text) (s : St) : Option St :=
  if dev ∈ s.attached then
    some ({ s with
      attached := if env.lingers then s.attached else s.attached.filter (· ≠ dev) }.note
        (.detached dev))
  else none

/-! ### The script -/

inductive Action
  | poweroff
  | reboot
  deriving DecidableEq

section Script

variable (env : Env)

/-- `ACTION`, with `reboot` if there is no file. -/
def action (s : St) : Except (Text × St) Action :=
  let text := Shell.subst (env.action.getD "reboot".toList)
  if text = "reboot".toList then .ok .reboot
  else if text = "poweroff".toList then .ok .poweroff
  else .error ("invalid action '".toList ++ text ++ "'".toList, s)

def dropBind (s : St) : Except (Text × St) St :=
  if mounted s.table mntSd then
    command env "cannot unmount the /mnt/sd bind mount".toList (umount mntSd) s
  else pure s

/-- The bind mount goes, and the script moves back to the tmpfs of `/init`. -/
def enter (s : St) : Except (Text × St) St := do
  let s ← dropBind env s
  let s ← command env "cannot enter shutdown tmpfs".toList some s
  let s ← command env "pivot_root back to shutdown tmpfs failed".toList pivotRoot s
  let s ← command env "cannot mount shutdown proc".toList (mount procMount) s
  command env "cannot mount shutdown devtmpfs".toList (mount devMount) s

/-- `awk '$2 ~ /^\/oldroot\// { print $2 }' /proc/mounts | tac`. -/
def points (t : Table) : List Text :=
  (((listing t).map column2).filter oldrootSlash.isPrefixOf).reverse

/-- A word with a special character is a pattern; `[` alone is taken for one as well. -/
def pathnames (w : Text) : List Text :=
  if w.any fun x => x = '*' ∨ x = '?' ∨ x = '[' then Shell.expand w (env.glob w) else [w]

/-- The words of the loop. No point has a blank, so a point is a word. -/
def listed (t : Table) : List Text := (points t).flatMap (pathnames env)

def peel : List Text → St → Except (Text × St) St
  | [], s => .ok s
  | m :: ms, s =>
    if mounted s.table m then do
      let s ← command env ("cannot unmount ".toList ++ m) (umount m) s
      peel ms s
    else peel ms s

def dropRoot (s : St) : Except (Text × St) St := do
  let s ← command env "cannot remount ext4 root read-only".toList (remountRo oldroot) s
  command env "cannot unmount ext4 root".toList (umount oldroot) s

/-- `LOOP`. -/
def loop : Text := Shell.subst (env.loopdev.getD [])

def dropLoop (s : St) : Except (Text × St) St :=
  if loop env ≠ [] ∧ env.isBlock (loop env) then
    command env ("cannot detach ".toList ++ loop env) (losetupD env (loop env)) s
  else pure s

/-- What `' /(sd|oldroot)( |/)'` stands for. -/
def texts : List Text :=
  [" /sd ".toList, " /sd/".toList, " /oldroot ".toList, " /oldroot/".toList]

/-- `grep -E ' /(sd|oldroot)( |/)'`, of one line. -/
def stillMounted (line : Text) : Bool := texts.any fun t => decide (t <:+: line)

/-- The final checks; `losetup` with a device alone asks for its status. -/
def confirm (s : St) : Except (Text × St) Unit :=
  if (listing s.table).any stillMounted then
    .error ("SD64 or the ext4 root is still mounted".toList, s)
  else if loop env ≠ [] ∧ loop env ∈ s.attached then
    .error (loop env ++ " is still attached".toList, s)
  else pure ()

/-- The whole script; a result is the last command that it executes, with the state there. -/
def shutdown (s : St) : Except (Text × St) (Action × St) := do
  if env.isPid1 = false then throw ("shutdown program is not PID 1".toList, s)
  let act ← action env s
  let s ← enter env s
  let s ← peel env (listed env s.table) s
  let s ← dropRoot env s
  let s ← dropLoop env s
  let s ← command env "cannot cleanly unmount SD64 exFAT".toList (umount sd) s
  confirm env s
  pure (act, s)

end Script

end Wallace.ShutdownModel
