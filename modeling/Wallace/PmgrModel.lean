import Mathlib.Data.Char
import Mathlib.Data.List.Lex
import Mathlib.Tactic.Common
import Wallace.Bytes
import Wallace.Shell
import Wallace.Splitlines

/-!
`t6040-pmgr-variant.py`: variants of the PMGR device tree source that change the topology only.

The source is cut into ordinary text and domain blocks; a mode leaves out the blocks of some
domains and the references to them. The accumulated lines of the splitter are kept as the text
that they are joined to.
-/

namespace Wallace.PmgrModel

open Script (Text)
open Wallace.Splitlines (splitlines)

/-! ### Patterns -/

/-- What follows a literal text. -/
def after (lit t : Text) : Option Text := if lit <+: t then some (t.drop lit.length) else none

/-- `line.rstrip("\n")`. -/
def rstrip (line : Text) : Text := line.rdropWhile (· = '\n')

/-- `[a-z0-9_]`. -/
def labelChar (x : Char) : Bool := ('a' ≤ x ∧ x ≤ 'z') ∨ x.isDigit ∨ x = '_'

/-- `[0-9a-f]`. -/
def hexChar (x : Char) : Bool := x.isDigit ∨ ('a' ≤ x ∧ x ≤ 'f')

def domainHead : Text := "\tps_".toList
def domainMiddle : Text := ": power-controller@".toList
def domainTail : Text := " \x7b".toList
def domainEnd : Text := "\t\x7d;".toList
def controllerHead : Text := "&pmgr".toList
def powerDomainsHead : Text := "\t\tpower-domains = ".toList
def phandleHead : Text := "<&ps_".toList

/-- `DOMAIN_START_RE`, with the label. -/
def domainStart (line : Text) : Option Text := do
  let t ← after domainHead line
  let label := t.takeWhile labelChar
  let t ← after domainMiddle (t.dropWhile labelChar)
  if label ≠ [] ∧ t.takeWhile hexChar ≠ [] ∧ t.dropWhile hexChar = domainTail then some label
  else none

/-- `CONTROLLER_RE`, with the number. -/
def controllerOf (line : Text) : Option ℕ := do
  let t ← after controllerHead line
  match t with
  | x :: tail =>
    if ('0' ≤ x ∧ x ≤ '3') ∧ tail = domainTail then some (x.toNat - '0'.toNat) else none
  | [] => none

/-- `POWER_DOMAINS_RE`, with the second group. -/
def powerDomains (line : Text) : Option Text := do
  let t ← after powerDomainsHead line
  if t.dropWhile (· ≠ ';') = ";\n".toList then some (t.takeWhile (· ≠ ';')) else none

/-- `PHANDLE_RE` at the start of a text, with the label. -/
def phandle (t : Text) : Option Text := do
  let t ← after phandleHead t
  let label := t.takeWhile labelChar
  if label ≠ [] ∧ (t.dropWhile labelChar).head? = some '>' then some label else none

/-- `PHANDLE_RE.findall`. No match has the first character of another in it. -/
def findall : Text → List Text
  | [] => []
  | x :: t =>
    match phandle (x :: t) with
    | some label => label :: findall t
    | none => findall t

/-! ### Classes of domains -/

/-- `re.match("^" + lit + "[0-9]+$", label)`, with what has to follow the digits. -/
def numbered (lit tail label : Text) : Bool :=
  match after lit label with
  | some t => t.takeWhile Char.isDigit ≠ [] ∧ t.dropWhile Char.isDigit = tail
  | none => false

def isCoreInfra (label : Text) : Bool :=
  label = "soc_dpe".toList ∨ numbered "amcc".toList [] label ∨ numbered "dcs_".toList [] label ∨
    numbered "fab".toList "_soc".toList label ∨ "fab_gw_".toList <+: label ∨
    label = "fab_afr".toList

def isCuratedExclusion (label : Text) : Bool :=
  (["ecpu_".toList, "pcpu0_".toList, "pcpu1_".toList].any fun p => decide (p <+: label)) ∨
    label ∈ ["ecpm".toList, "pcpm0".toList, "pcpm1".toList] ∨
    ((after "amcc".toList label).any fun t => t.head?.any Char.isDigit) ∨
    "dcs_".toList <+: label ∨ numbered "fab".toList "_soc".toList label ∨
    "fab_gw_".toList <+: label ∨ label = "fab_afr".toList ∨
    label ∈ ["pms".toList, "afi".toList, "afc".toList, "rom".toList, "sbr".toList]

/-! ### Splitting -/

structure Domain where
  label : Text
  controller : ℕ
  text : Text
  deriving DecidableEq

inductive Part
  | plain (text : Text)
  | domain (d : Domain)
  deriving DecidableEq

def Part.text : Part → Text
  | .plain text => text
  | .domain d => d.text

def Part.domain? : Part → Option Domain
  | .plain _ => none
  | .domain d => some d

/-- `isinstance(part, Domain)`. -/
def domains (parts : List Part) : List Domain := parts.filterMap Part.domain?

/-- Where the splitter is. -/
inductive Place
  | outside (controller : Option ℕ)
  | inside (controller : ℕ) (label : Text)
  deriving DecidableEq

/-- `flush_plain`. -/
def flushPlain (plain : Text) : List Part := if plain = [] then [] else [.plain plain]

/-- Both loops, with the plain text or the block so far and the number of the line. The line that
starts a domain does not end one. -/
def splitLines : Place → Text → ℕ → List Text → Except Text (List Part)
  | .outside _, plain, _, [] => .ok (flushPlain plain)
  | .inside _ label, _, _, [] => .error ("unterminated domain ".toList ++ label)
  | .outside controller, plain, i, line :: lines =>
    match domainStart (rstrip line), (controllerOf (rstrip line)).or controller with
    | none, controller => splitLines (.outside controller) (plain ++ line) (i + 1) lines
    | some _, none =>
      .error ("domain before PMGR controller at line ".toList ++ Shell.decimal (i + 1))
    | some label, some controller =>
      (flushPlain plain ++ ·) <$> splitLines (.inside controller label) line (i + 1) lines
  | .inside controller label, block, i, line :: lines =>
    if rstrip line = domainEnd then
      (.domain ⟨label, controller, block ++ line⟩ :: ·) <$>
        splitLines (.outside (some controller)) [] (i + 1) lines
    else splitLines (.inside controller label) (block ++ line) (i + 1) lines

def splitSource (text : Text) : Except Text (List Part) :=
  splitLines (.outside none) [] 0 (splitlines text)

/-! ### Parents -/

def ref (label : Text) : Text := phandleHead ++ label ++ ">".toList

def refs (labels : List Text) : Text := (", ".toList).intercalate (labels.map ref)

def keptParents (excluded : List Text) (all : Bool) (parents : List Text) : List Text :=
  if all then [] else parents.filter (· ∉ excluded)

/-- One line of a block: what is appended, and whether it counts as changed. -/
def rewriteLine (excluded : List Text) (all : Bool) (line : Text) : List Text × ℕ :=
  match powerDomains line with
  | none => ([line], 0)
  | some body =>
    let parents := findall body
    let kept := keptParents excluded all parents
    if kept = parents then ([line], 0)
    else if kept = [] then ([], 1)
    else ([powerDomainsHead ++ refs kept ++ ";\n".toList], 1)

def rewriteParents (d : Domain) (excluded : List Text) (flattenPmgr1 : Bool) : Text × ℕ :=
  let rewritten := (splitlines d.text).map (rewriteLine excluded (flattenPmgr1 && d.controller = 1))
  ((rewritten.flatMap Prod.fst).flatten, (rewritten.map Prod.snd).sum)

/-! ### Variants -/

inductive Mode
  | raw
  | coreInfraPruned
  | pmgr1ReparentOnly
  | pmgr1PruneOnly
  | curated
  deriving DecidableEq

/-- The domains whose labels are excluded. -/
def Mode.excludes : Mode → Domain → Bool
  | .raw, _ => false
  | .coreInfraPruned, d => isCoreInfra d.label
  | .pmgr1ReparentOnly, _ => false
  | .pmgr1PruneOnly, d => d.controller = 1 && isCuratedExclusion d.label
  | .curated, d => isCuratedExclusion d.label

def Mode.excluded (mode : Mode) (ds : List Domain) : List Text :=
  (ds.filter mode.excludes).map Domain.label

def Mode.flattenPmgr1 (mode : Mode) : Bool := mode = .pmgr1ReparentOnly

/-- `sorted`, of a set. -/
def sortedSet (labels : List Text) : List Text := labels.dedup.mergeSort fun a b => decide (a ≤ b)

structure Summary where
  mode : Mode
  inputDomains : ℕ
  outputDomains : ℕ
  removedDomains : ℕ
  parentLinesChanged : ℕ
  removedLabels : List Text
  deriving DecidableEq

/-- What one part adds to the output, and how many lines were changed. -/
def emit (excluded : List Text) (flattenPmgr1 : Bool) : Part → Text × ℕ
  | .plain text => (text, 0)
  | .domain d => if d.label ∈ excluded then ([], 0) else rewriteParents d excluded flattenPmgr1

def transform (text : Text) (mode : Mode) : Except Text (Text × Summary) := do
  let parts ← splitSource text
  let ds := domains parts
  let excluded := mode.excluded ds
  let keptLabels := (ds.map Domain.label).filter (· ∉ excluded)
  let output := parts.map (emit excluded mode.flattenPmgr1)
  let result := (output.map Prod.fst).flatten
  let dangling := sortedSet ((findall result).filter (· ∉ keptLabels))
  if dangling ≠ [] then
    throw ("dangling PMGR labels: ".toList ++ (", ".toList).intercalate dangling)
  pure (result, {
    mode := mode
    inputDomains := ds.length
    outputDomains := keptLabels.dedup.length
    removedDomains := excluded.dedup.length
    parentLinesChanged := (output.map Prod.snd).sum
    removedLabels := sortedSet excluded })

end Wallace.PmgrModel
