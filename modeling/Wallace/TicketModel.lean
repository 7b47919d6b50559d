import Mathlib.Algebra.Order.Ring.Int
import Mathlib.Data.List.DropRight
import Wallace.Bytes
import Wallace.Files

/-!
The ticket store: the `queue` commands of `rig-lease.sh` over `tickets/`, `tickets/done/` and
`tickets/archive/`.

A command is a function of the store, its arguments and the clock. Text is a list of
characters. `set -e` ends a command at a failed assignment or redirection, with exit status
1 and without a word of its own; `die` ends it with a message and, everywhere here, status 2.
What the shell makes of text that is not a number, of unquoted text and of the order of
names is a parameter.
-/

namespace Wallace.TicketModel

open Wallace.Files

/-- A shell word. -/
abbrev Text := List Char

/-- `needs`: a task of its own, or one that takes the rig. -/
inductive Needs | rig | offline
  deriving DecidableEq

inductive State | «open» | proposed | approved | done
  deriving DecidableEq

/-- The pinned hashes; an absent one is the empty text. -/
structure Hashes where
  image : Text
  dtb : Text
  initramfs : Text
  deriving DecidableEq

/-- A command that was executed on a ticket and left a mark on it. -/
inductive Mark
  | approve (by' : Text)
  | ready (reviewer : Text)
  deriving DecidableEq

/-- A ticket. The fields that only a later command writes are absent before it. `history`,
newest first, is not in the file: it records the commands executed on the ticket. -/
structure Ticket where
  seq : Text
  slug : Text
  needs : Needs
  state : State
  track : Text
  priority : Text
  desc : Text
  author : Text
  deps : List Text
  hashes : Option Hashes
  created : ℕ
  runnable : Option Bool := none
  approvedBy : Option Text := none
  approvedAt : Option ℕ := none
  reviewedBy : Option Text := none
  readyAt : Option ℕ := none
  doneAt : Option ℕ := none
  history : List Mark := []
  deriving DecidableEq

/-- `$TICKETS_DIR`, `$TICKETS_DONE` and `$TICKETS_ARCHIVE`. -/
inductive Place | active | done | archive
  deriving DecidableEq

abbrev Store := Tree Place Text Ticket

abbrev File := Path Place Text

def Store.empty : Store := fun _ => ∅

/-- The shell the commands run in: the collating order of `ls`, `sort` and the globs, what an
unquoted text splits and expands into, the ticket files that the unquoted listing of
`queue next` names, and the value of `10#s` where `s` is not a string of digits. -/
structure Shell where
  le : Text → Text → Bool
  collates : Collates le
  words : Text → List Text
  listed : List Text → List File
  arith : Text → Option ℤ

section Commands

variable (sh : Shell)

/-! ### Numbers and names -/

def decimal (s : Text) : ℕ := s.foldl (fun n c => 10 * n + (c.toNat - '0'.toNat)) 0

/-- `$((10#s))`, in 64 bits. -/
def base10 (s : Text) : Option ℤ :=
  if s ≠ [] ∧ s.all Char.isDigit then some (Int.bmod (decimal s) (2 ^ 64)) else sh.arith s

/-- `printf '%03d'`. -/
def pad3 (n : ℤ) : Text :=
  let d := Nat.toDigits 10 n.natAbs
  if n < 0 then '-' :: (List.replicate (2 - d.length) '0' ++ d)
  else List.replicate (3 - d.length) '0' ++ d

/-- `$(printf '%03d' "$((10#s))")` as an argument: an error inside leaves the empty text. -/
def padded (s : Text) : Text := ((base10 sh s).map pad3).getD []

def json : Text := ".json".toList

/-- The glob `*.json`. -/
def isJson (name : Text) : Bool := json.isSuffixOf name && !(['.'].isPrefixOf name)

/-- The glob `$seq-*.json`. -/
def isSeq (seq name : Text) : Bool := (seq ++ ['-']).isPrefixOf name && json.isSuffixOf name

/-- `head -1`, of one line that may hold newlines. -/
def head1 (s : Text) : Text := s.takeWhile (· ≠ '\n')

/-- `$(…)` drops the newlines at the end. -/
def strip (s : Text) : Text := s.rdropWhile (· = '\n')

/-- The path of the ticket, in the active directory or else in `tickets/done`. A name with a
newline in it is cut there, and then need not be the name of a file. -/
def tkFile (s : Store) (seq : Text) : Option File :=
  match list sh.le s .active (isSeq seq) with
  | n :: _ => some ⟨.active, head1 n⟩
  | [] => match list sh.le s .done (isSeq seq) with
    | n :: _ => some ⟨.done, head1 n⟩
    | [] => none

/-- `${b%%-*}` as a number, for the name `b` of a ticket file. -/
def nameNum (b : Text) : Option ℤ := base10 sh (b.takeWhile (· ≠ '-'))

/-- The names that the allocation loops go through. -/
def scanned (s : Store) : List Text :=
  list sh.le s .active isJson ++ list sh.le s .done isJson ++ list sh.le s .archive isJson

/-- The loop of `tk_seqmax` and `tk_block_max`: the largest number that `sel` selects. A name
that is not a number ends it. -/
def scanMax (sel : ℤ → Bool) (s : Store) : Option ℤ :=
  (scanned sh s).foldlM
    (fun m b => (nameNum sh b).map fun n => if sel n ∧ m < n then n else m) 0

def tkSeqmax (s : Store) : Option ℤ := scanMax sh (fun _ => true) s

/-- The highest number already used in `[base, base + 999]`, 0 if none is. -/
def tkBlockMax (base : ℤ) (s : Store) : Option ℤ :=
  scanMax sh (fun n => base ≤ n ∧ n < base + 1000) s

/-- The agents that have a block of their own. -/
inductive Agent | fable | opus | sol | terra | claude | astra
  deriving DecidableEq

def Agent.name : Agent → Text
  | .fable => "fable".toList
  | .opus => "opus".toList
  | .sol => "sol".toList
  | .terra => "terra".toList
  | .claude => "claude".toList
  | .astra => "astra".toList

def Agent.all : List Agent := [.fable, .opus, .sol, .terra, .claude, .astra]

def Agent.base : Agent → ℤ
  | .fable => 1000
  | .opus => 2000
  | .sol => 3000
  | .terra => 4000
  | .claude => 5000
  | .astra => 6000

def tkAgentBase (agent : Text) : Option ℤ :=
  (Agent.all.find? fun a => a.name = agent).map Agent.base

/-- The number `queue add` allocates. -/
def nextSeq (s : Store) (agent : Text) : Option ℤ :=
  match tkAgentBase agent with
  | some base => (tkBlockMax sh base s).map fun bmax => if bmax < base then base else bmax + 1
  | none => (tkSeqmax sh s).map (· + 1)

/-! ### Readiness -/

/-- Every dependency is in `tickets/done`. The list is read unquoted, so that an empty entry
of it disappears. -/
def tkDepsDone (s : Store) (t : Ticket) : Bool :=
  t.deps.all fun dep => dep = [] || !(list sh.le s .done (isSeq dep)).isEmpty

def tkRigReady (s : Store) (t : Ticket) : Bool :=
  t.needs = .rig ∧ t.state = .approved ∧ t.runnable = some true ∧ tkDepsDone sh s t

/-! ### Options -/

/-- `while [ $# -gt 0 ]; do case "$1" in`: an option takes the word after it, and without one
`shift 2` fails; any other word is taken by `other`. -/
def parseOpts {O : Type} (isOpt : Text → Bool) (set : O → Text → Text → O)
    (other : O → Text → O) : O → List Text → Option O
  | o, [] => some o
  | o, [k] => if isOpt k then none else some (other o k)
  | o, k :: v :: rest =>
    if isOpt k then parseOpts isOpt set other (set o k v) rest
    else parseOpts isOpt set other (other o k) (v :: rest)

structure AddOpts where
  needs : Text := "offline".toList
  track : Text := []
  pri : Text := []
  deps : List Text := []
  img : Text := []
  dtb : Text := []
  init : Text := []

def addOptions : List Text :=
  ["--needs", "--track", "--pri", "--priority", "--dep", "--image", "--dtb", "--initramfs"].map
    String.toList

/-- `${2:-0}`. -/
def orZero (v : Text) : Text := if v = [] then ['0'] else v

def AddOpts.set (o : AddOpts) (k v : Text) : AddOpts :=
  if k = "--needs".toList then { o with needs := v }
  else if k = "--track".toList then { o with track := v }
  else if k = "--pri".toList ∨ k = "--priority".toList then { o with pri := v }
  else if k = "--dep".toList then { o with deps := o.deps ++ [padded sh (orZero v)] }
  else if k = "--image".toList then { o with img := v }
  else if k = "--dtb".toList then { o with dtb := v }
  else { o with init := v }

def parseAdd (args : List Text) : Option AddOpts :=
  parseOpts (· ∈ addOptions) (AddOpts.set sh) (fun o _ => o) {} args

structure ApproveOpts where
  by' : Text := "maintainer".toList
  specs : Text := []

def parseApprove (args : List Text) : Option ApproveOpts :=
  parseOpts (· = "--by".toList) (fun o _ v => { o with by' := v })
    (fun o k => { o with specs := o.specs ++ ' ' :: k }) {} args

/-- The reviewer that `queue ready` is given. -/
def parseReady (args : List Text) : Option Text :=
  parseOpts (· = "--reviewed-by".toList) (fun _ _ v => v) (fun o _ => o) [] args

/-! ### The commands -/

/-- The lines the commands print, with what varies in them. -/
inductive Say
  | usage
  | badNeeds
  | added (seq slug : Text) (needs : Needs)
  | approved (n : ℕ) (by' : Text)
  | noSuchTickets (miss : List Text)
  | skipped (skip : List Text)
  | noTicket (seq : Text)
  | notRig (seq : Text)
  | notApproved (seq : Text)
  | notIndependent (seq reviewer : Text)
  | noHashes (seq : Text)
  | incompleteDeps (seq : Text)
  | ready (seq : Text)
  | done (seq : Text)
  deriving DecidableEq

/-- The store after a command, the exit status and what was printed. -/
structure Result where
  store : Store
  code : ℕ
  said : List Say := []

def die (s : Store) (m : Say) : Result := ⟨s, 2, [m]⟩

/-- Ended by `set -e`. -/
def fail (s : Store) : Result := ⟨s, 1, []⟩

/-- The file that `queue add` makes for the number `seq`. -/
def ticketName (seq slug : Text) : Text := seq ++ '-' :: (slug ++ json)

/-- The ticket as `jq -n` builds it. -/
def newTicket (agent slug desc : Text) (o : AddOpts) (needs : Needs) (seq : Text) (now : ℕ) :
    Ticket where
  seq := seq
  slug := slug
  needs := needs
  state := if needs = .rig then .proposed else .open
  track := o.track
  priority := o.pri
  desc := desc
  author := agent
  deps := o.deps
  hashes := if o.img = [] ∧ o.dtb = [] ∧ o.init = [] then none else some ⟨o.img, o.dtb, o.init⟩
  created := now

/-- `[ "$needs" = rig ] || [ "$needs" = offline ] || die`. -/
def parseNeeds (s : Text) : Option Needs :=
  if s = "rig".toList then some .rig else if s = "offline".toList then some .offline else none

/-- `> "$f"`: a slug with a slash in it names a directory that is not there. -/
def create (s : Store) (t : Ticket) : Option Store :=
  if '/' ∈ t.slug then none else some (write s ⟨.active, ticketName t.seq t.slug⟩ t)

def cmdAdd (s : Store) (now : ℕ) (args : List Text) : Result :=
  match args with
  | agent :: slug :: desc :: opts =>
    if agent = [] ∨ slug = [] ∨ desc = [] then die s .usage
    else match parseAdd sh opts with
    | none => fail s
    | some o => match parseNeeds o.needs with
      | none => die s .badNeeds
      | some needs => match nextSeq sh s agent with
        | none => fail s
        | some n => match create s (newTicket agent slug desc o needs (pad3 n) now) with
          | none => fail s
          | some s' => ⟨s', 0, [.added (pad3 n) slug needs]⟩
  | _ => die s .usage

/-- The rewriting of `_approve_one`. -/
def Ticket.approve (t : Ticket) (by' : Text) (now : ℕ) : Ticket :=
  { t with
    state := .approved, runnable := some false, approvedBy := some by', approvedAt := some now,
    history := .approve by' :: t.history }

/-- The variables of the approval loops. -/
structure Tally where
  store : Store
  n : ℕ := 0
  miss : List Text := []
  skip : List Text := []

/-- `_approve_one`. A path that is no file has no `needs`, and is skipped like an offline
ticket. -/
def approveOne (by' : Text) (now : ℕ) (a : Tally) (seq : Text) : Tally :=
  match tkFile sh a.store seq with
  | none => { a with miss := a.miss ++ [seq] }
  | some f => match read a.store f with
    | none => { a with skip := a.skip ++ [seq] }
    | some t =>
      if t.needs = .rig then
        { a with store := write a.store f (t.approve by' now), n := a.n + 1 }
      else { a with skip := a.skip ++ [seq] }

/-- One turn of the loop of `approve all`, for the active file `name`. -/
def approveListed (by' : Text) (now : ℕ) (a : Tally) (name : Text) : Tally :=
  match read a.store ⟨.active, name⟩ with
  | some t => if t.needs = .rig ∧ t.state = .proposed then approveOne sh by' now a t.seq else a
  | none => a

/-- The two sides of `^[0-9]+-[0-9]+$`. -/
def rangeSpec (s : Text) : Option (Text × Text) :=
  let lo := s.takeWhile (· ≠ '-')
  let hi := (s.dropWhile (· ≠ '-')).drop 1
  if '-' ∈ s ∧ lo ≠ [] ∧ hi ≠ [] ∧ lo.all Char.isDigit ∧ hi.all Char.isDigit then some (lo, hi)
  else none

/-- The numbers that a spec other than `all` names, padded. -/
def specSeqs (s : Text) : List Text :=
  match rangeSpec s with
  | some (lo, hi) => match base10 sh lo, base10 sh hi with
    | some l, some h => (List.range (h - l + 1).toNat).map fun i => pad3 (l + i)
    | _, _ => []
  | none => [padded sh s]

def approveSpec (by' : Text) (now : ℕ) (a : Tally) (s : Text) : Tally :=
  if s = "all".toList then
    (list sh.le a.store .active isJson).foldl (approveListed sh by' now) a
  else (specSeqs sh s).foldl (approveOne sh by' now) a

/-- The last test of the command, for tickets that were skipped, is its exit status. -/
def cmdApprove (s : Store) (now : ℕ) (args : List Text) : Result :=
  match parseApprove args with
  | none => fail s
  | some o =>
    if o.specs = [] then die s .usage
    else
      let a := (sh.words o.specs).foldl (approveSpec sh o.by' now) { store := s }
      ⟨a.store, if a.skip = [] then 1 else 0,
        [.approved a.n o.by'] ++ (if a.miss = [] then [] else [.noSuchTickets a.miss]) ++
          if a.skip = [] then [] else [.skipped a.skip]⟩

/-- The rewriting of `queue ready`. -/
def Ticket.ready (t : Ticket) (reviewer : Text) (now : ℕ) : Ticket :=
  { t with
    runnable := some true, reviewedBy := some reviewer, readyAt := some now,
    history := .ready reviewer :: t.history }

/-- The tests of `queue ready` on the ticket it found, the first that fails. -/
def readyRefusal (s : Store) (seq reviewer : Text) (t : Ticket) : Option Say :=
  if t.needs ≠ .rig then some (.notRig seq)
  else if t.state ≠ .approved then some (.notApproved seq)
  else if strip t.author = reviewer then some (.notIndependent seq reviewer)
  else if t.hashes = none then some (.noHashes seq)
  else if ¬tkDepsDone sh s t then some (.incompleteDeps seq)
  else none

def cmdReady (s : Store) (now : ℕ) (args : List Text) : Result :=
  match args with
  | [] => die s .usage
  | arg :: opts =>
    if arg = [] then die s .usage
    else match parseReady opts with
    | none => fail s
    | some reviewer =>
      if reviewer = [] then die s .usage
      else match base10 sh arg with
      | none => fail s
      | some n => match tkFile sh s (pad3 n) with
        | none => die s (.noTicket (pad3 n))
        | some f => match read s f with
          | none => die s (.notRig (pad3 n))
          | some t => match readyRefusal sh s (pad3 n) reviewer t with
            | some m => die s m
            | none => ⟨write s f (t.ready reviewer now), 0, [.ready (pad3 n)]⟩

/-- The ticket that `queue next` prints in rig mode. -/
def cmdNext (s : Store) : Option Ticket :=
  (sh.listed (list sh.le s .active isJson)).findSome? fun f =>
    (read s f).filter (tkRigReady sh s)

/-- The rewriting of `queue done`. -/
def Ticket.complete (t : Ticket) (now : ℕ) : Ticket :=
  { t with state := .done, doneAt := some now }

/-- A file that is in `tickets/done` already is rewritten there, and then `mv` fails. -/
def cmdDone (s : Store) (now : ℕ) (args : List Text) : Result :=
  match args with
  | [] => die s .usage
  | arg :: _ =>
    if arg = [] then die s .usage
    else match base10 sh arg with
    | none => fail s
    | some n => match tkFile sh s (pad3 n) with
      | none => die s (.noTicket (pad3 n))
      | some f => match read s f with
        | none => fail s
        | some t =>
          if f.dir = .done then fail (write s f (t.complete now))
          else ⟨move s f .done (t.complete now), 0, [.done (pad3 n)]⟩

inductive Cmd
  | add (args : List Text)
  | approve (args : List Text)
  | ready (args : List Text)
  | done (args : List Text)

/-- A command and the time it is given. -/
structure Act where
  cmd : Cmd
  now : ℕ

def exec (s : Store) (a : Act) : Result :=
  match a.cmd with
  | .add args => cmdAdd sh s a.now args
  | .approve args => cmdApprove sh s a.now args
  | .ready args => cmdReady sh s a.now args
  | .done args => cmdDone sh s a.now args

/-- A command as a step of the store. -/
def step (s : Store) (a : Act) : Option Store := some (exec sh s a).store

end Commands

end Wallace.TicketModel
