import Mathlib.Data.List.Basic
import Mathlib.Tactic.Common
import Wallace.Bytes
import Wallace.Shell

/-!
The boot arguments in `t6040-image-preflight.sh`.

The last console is found among the pieces that the blanks and the line ends cut; the other two
checks match the whole line, so that they also see the inside of words.
-/

namespace Wallace.BootargsCheck

open Script (Text)

/-- The three kinds of lines that the script prints. -/
inductive Line
  | pass (text : Text)
  | fail (text : Text)
  | warn (text : Text)
  deriving DecidableEq

def Line.isFail : Line → Bool
  | .fail _ => true
  | .pass _ | .warn _ => false

/-- `FAIL`, which `fail` counts. -/
def failures (out : List Line) : ℕ := (out.filter Line.isFail).length

def consoleKey : Text := "console=".toList
def consoleTty0 : Text := "console=tty0".toList
def consoleTtydc0 : Text := "console=ttydc0".toList
def maxcpusKey : Text := "maxcpus=".toList
def maxcpusOne : Text := "maxcpus=1".toList

section Script

variable (bootargs : Text)

/-- `tr ' ' '\n'`. -/
def trBlank (t : Text) : Text := t.map fun x => if x = ' ' then '\n' else x

/-- `printf '%s\n' "$BOOTARGS" | tr ' ' '\n' | grep '^console=' | tail -1`. -/
def lastConsole : Text :=
  let input := trBlank (bootargs ++ ['\n'])
  let found := (Shell.lines input).dropLast.filter consoleKey.isPrefixOf
  Shell.subst (found.getLast?.elim [] (· ++ ['\n']))

def lastIsTty0 : Text := "last console is tty0 (panel keeps /dev/console)".toList
def ttydc0Present : Text := "ttydc0 present (serial logging works)".toList
def maxcpusRespected : Text := "maxcpus=1 (ticket 205 fail-stop limit respected)".toList

def checkConsole : Line :=
  let last := lastConsole bootargs
  if last = consoleTty0 then .pass lastIsTty0
  else if last = [] then .fail "no console= at all".toList
  else .fail ("last console is '".toList ++ last ++
    "'; put console=tty0 last or the keyboard is dead".toList)

def checkTtydc0 : Line :=
  if consoleTtydc0 <:+: bootargs then .pass ttydc0Present
  else .warn "no console=ttydc0 -- no serial log for this boot".toList

def checkMaxcpus : Line :=
  if maxcpusOne <:+: bootargs then .pass maxcpusRespected
  else if maxcpusKey <:+: bootargs then
    .warn "maxcpus>1: ticket 205 kills processes above one core".toList
  else .fail "no maxcpus= -- ticket 205 makes an unbounded core count unsafe".toList

/-- The section on boot arguments: what it prints. -/
def bootargsSection : List Line :=
  if bootargs = [] then []
  else [checkConsole bootargs, checkTtydc0 bootargs, checkMaxcpus bootargs]

end Script

/-! ### What the kernel reads -/

section Kernel

variable (bootargs : Text)

/-- The words that blanks separate. -/
def tokens : List Text := bootargs.splitOn ' '

/-- The last word that begins with a key, which is the one that counts. -/
def lastToken (key : Text) : Option Text := ((tokens bootargs).filter key.isPrefixOf).getLast?

/-- A word for the console `ttydc0`, with or without options. -/
def NamesTtydc0 (w : Text) : Prop := w = consoleTtydc0 ∨ consoleTtydc0 ++ [','] <+: w

/-- The script judges the boot arguments as the kernel reads them. -/
structure Judges : Prop where
  failures : failures (bootargsSection bootargs) = 0 ↔
    lastToken bootargs consoleKey = some consoleTty0 ∧ ∃ w ∈ tokens bootargs, maxcpusKey <+: w
  maxcpus : .pass maxcpusRespected ∈ bootargsSection bootargs ↔
    lastToken bootargs maxcpusKey = some maxcpusOne
  ttydc0 : .pass ttydc0Present ∈ bootargsSection bootargs ↔
    ∃ w ∈ tokens bootargs, NamesTtydc0 w

/-- The pieces that blanks and line ends cut. -/
def pieces : List Text := bootargs.splitOnP fun x => x = ' ' ∨ x = '\n'

/-- The last console that is found when line ends cut too. -/
def lastPiece : Option Text := ((pieces bootargs).filter consoleKey.isPrefixOf).getLast?

/-- Nothing that looks like an argument is inside a word, and no line end matters. -/
structure AsWords : Prop where
  console : (∃ w ∈ tokens bootargs, maxcpusKey <+: w) →
    (lastPiece bootargs = some consoleTty0 ↔ lastToken bootargs consoleKey = some consoleTty0)
  unbounded : (∀ w ∈ tokens bootargs, ¬ maxcpusKey <+: w) → maxcpusKey <:+: bootargs →
    lastPiece bootargs ≠ some consoleTty0
  maxcpus : maxcpusOne <:+: bootargs → lastToken bootargs maxcpusKey = some maxcpusOne
  ttydc0 : consoleTtydc0 <:+: bootargs → ∃ w ∈ tokens bootargs, NamesTtydc0 w

end Kernel

/-! ### Cutting -/

lemma splitOnP_infix (p : Char → Bool) (t : Text) : ∀ w ∈ t.splitOnP p, w <:+: t := by
  -- the first piece is even a prefix, which is what a letter before it needs
  have h : (∀ w ∈ (t.splitOnP p).head?, w <+: t) ∧ ∀ w ∈ t.splitOnP p, w <:+: t := by
    induction t with
    | nil => simp
    | cons x t ih =>
      obtain ⟨y, ys, hys⟩ := List.exists_cons_of_ne_nil (List.splitOnP_ne_nil p t)
      rw [hys] at ih
      rw [List.splitOnP_cons_eq_if_modifyHead, hys]
      split_ifs with hx
      · refine ⟨by simp, fun w hw => ?_⟩
        rcases List.mem_cons.mp hw with rfl | hw
        · exact List.nil_infix
        · exact (ih.2 w hw).trans (List.suffix_cons x t).isInfix
      · have hhead : x :: y <+: x :: t := List.cons_prefix_cons.mpr ⟨rfl, ih.1 y rfl⟩
        refine ⟨?_, fun w hw => ?_⟩
        · rintro w hw
          cases hw
          exact hhead
        · rcases List.mem_cons.mp hw with rfl | hw
          · exact hhead.isInfix
          · exact (ih.2 w (List.mem_cons_of_mem _ hw)).trans (List.suffix_cons x t).isInfix
  exact h.2

lemma infix_of_mem_tokens {bootargs w : Text} (h : w ∈ tokens bootargs) : w <:+: bootargs :=
  splitOnP_infix _ bootargs w h

/-- The lines after `tr` are the pieces. -/
lemma lines_trBlank (bootargs : Text) :
    Shell.lines (trBlank (bootargs ++ ['\n'])) = pieces bootargs ++ [[]] := by
  induction bootargs with
  | nil => decide
  | cons x t ih =>
    unfold Shell.lines trBlank pieces at *
    rw [List.cons_append, List.map_cons, List.splitOn_cons_eq_if_modifyHead, ih,
      List.splitOnP_cons_eq_if_modifyHead]
    by_cases hx : x = ' ' ∨ x = '\n'
    · rw [if_pos (by rcases hx with rfl | rfl <;> decide), if_pos (by simpa using hx)]
      rfl
    · obtain ⟨hblank, hline⟩ := not_or.mp hx
      rw [if_neg hblank, if_neg (by simpa using hline), if_neg (by simpa using hx)]
      obtain ⟨y, ys, hys⟩ := List.exists_cons_of_ne_nil
        (List.splitOnP_ne_nil (fun x => decide (x = ' ' ∨ x = '\n')) t)
      rw [hys]
      rfl

lemma not_newline_of_mem_pieces {bootargs w : Text} (h : w ∈ pieces bootargs) : '\n' ∉ w := by
  refine Shell.not_mem_of_mem_lines (t := trBlank (bootargs ++ ['\n'])) ?_
  rw [lines_trBlank]
  exact List.mem_append_left _ h

lemma subst_line {w : Text} (h : '\n' ∉ w) : Shell.subst (w ++ ['\n']) = w := by
  rw [Shell.subst, List.rdropWhile_concat_pos _ _ _ (by decide)]
  refine List.rdropWhile_eq_self_iff.mpr fun hne hlast => h ?_
  rw [← decide_eq_true_eq.mp hlast]
  exact List.getLast_mem hne

lemma lastConsole_eq (bootargs : Text) : lastConsole bootargs = (lastPiece bootargs).getD [] := by
  rw [lastConsole, lines_trBlank]
  simp only [List.dropLast_concat]
  show Shell.subst ((lastPiece bootargs).elim [] (· ++ ['\n'])) = _
  cases hlast : lastPiece bootargs with
  | none => rfl
  | some w =>
    have hmem := List.mem_of_mem_filter (List.mem_of_getLast? hlast)
    exact subst_line (not_newline_of_mem_pieces hmem)

/-! ### What is printed -/

section Printed

variable {bootargs : Text}

lemma consoleTty0_ne_nil : consoleTty0 ≠ [] := by decide +kernel

/-- The lines that report success are different. -/
lemma passes_ne : maxcpusRespected ≠ lastIsTty0 ∧ maxcpusRespected ≠ ttydc0Present ∧
    ttydc0Present ≠ lastIsTty0 := by decide +kernel

lemma lastConsole_tty0_iff : lastConsole bootargs = consoleTty0 ↔
    lastPiece bootargs = some consoleTty0 := by
  rw [lastConsole_eq]
  cases lastPiece bootargs with
  | none => exact iff_of_false (Ne.symm consoleTty0_ne_nil) (by simp)
  | some w => simp

lemma isFail_checkConsole : (checkConsole bootargs).isFail = false ↔
    lastPiece bootargs = some consoleTty0 := by
  rw [← lastConsole_tty0_iff]
  unfold checkConsole
  simp only
  split_ifs with htty0 hnone <;> simp [Line.isFail, htty0]

lemma isFail_checkTtydc0 : (checkTtydc0 bootargs).isFail = false := by
  unfold checkTtydc0
  split_ifs <;> rfl

lemma isFail_checkMaxcpus : (checkMaxcpus bootargs).isFail = false ↔
    maxcpusKey <:+: bootargs := by
  unfold checkMaxcpus
  split_ifs with hone hkey
  · have hpre : maxcpusKey <+: maxcpusOne := by decide
    exact iff_of_true rfl (hpre.isInfix.trans hone)
  · exact iff_of_true rfl hkey
  · simp [Line.isFail, hkey]

lemma failures_iff (h : bootargs ≠ []) : failures (bootargsSection bootargs) = 0 ↔
    lastPiece bootargs = some consoleTty0 ∧ maxcpusKey <:+: bootargs := by
  rw [bootargsSection, if_neg h, failures, List.length_eq_zero_iff, List.filter_eq_nil_iff,
    ← isFail_checkConsole, ← isFail_checkMaxcpus]
  simp [isFail_checkTtydc0]

lemma maxcpus_pass_iff (h : bootargs ≠ []) :
    .pass maxcpusRespected ∈ bootargsSection bootargs ↔ maxcpusOne <:+: bootargs := by
  have hconsole : .pass maxcpusRespected ≠ checkConsole bootargs := by
    unfold checkConsole
    simp only
    split_ifs <;> simp [passes_ne.1]
  have httydc0 : .pass maxcpusRespected ≠ checkTtydc0 bootargs := by
    unfold checkTtydc0
    split_ifs <;> simp [passes_ne.2.1]
  rw [bootargsSection, if_neg h, List.mem_cons, List.mem_cons, List.mem_singleton]
  simp only [hconsole, httydc0, false_or]
  unfold checkMaxcpus
  split_ifs with hone <;> simp [hone]

lemma ttydc0_pass_iff (h : bootargs ≠ []) :
    .pass ttydc0Present ∈ bootargsSection bootargs ↔ consoleTtydc0 <:+: bootargs := by
  have hconsole : .pass ttydc0Present ≠ checkConsole bootargs := by
    unfold checkConsole
    simp only
    split_ifs <;> simp [passes_ne.2.2]
  have hmaxcpus : .pass ttydc0Present ≠ checkMaxcpus bootargs := by
    unfold checkMaxcpus
    split_ifs <;> simp [Ne.symm passes_ne.2.1]
  rw [bootargsSection, if_neg h, List.mem_cons, List.mem_cons, List.mem_singleton]
  simp only [hconsole, hmaxcpus, false_or, or_false]
  unfold checkTtydc0
  split_ifs with hone <;> simp [hone]

end Printed

/-! ### When it judges right -/

section Words

variable {bootargs : Text}

lemma infix_of_lastToken {key w : Text} (h : lastToken bootargs key = some w) : w <:+: bootargs :=
  infix_of_mem_tokens (List.mem_of_mem_filter (List.mem_of_getLast? h))

lemma infix_of_namesTtydc0 {w : Text} (hw : w ∈ tokens bootargs) (h : NamesTtydc0 w) :
    consoleTtydc0 <:+: bootargs := by
  refine List.IsInfix.trans ?_ (infix_of_mem_tokens hw)
  rcases h with rfl | h
  · exact List.infix_refl _
  · exact ((List.prefix_append _ _).trans h).isInfix

end Words

/-- **The script judges as the kernel reads exactly if** words are all that matters: an argument
that occurs at all is a whole word, or the beginning of one, and line ends do not change which
console is last. -/
theorem judges_iff_asWords (bootargs : Text) (h : bootargs ≠ []) :
    Judges bootargs ↔ AsWords bootargs := by
  have hinfix : (∃ w ∈ tokens bootargs, maxcpusKey <+: w) → maxcpusKey <:+: bootargs := by
    rintro ⟨w, hw, hkey⟩
    exact hkey.isInfix.trans (infix_of_mem_tokens hw)
  constructor
  · rintro ⟨hfail, hmax, htty⟩
    rw [failures_iff h] at hfail
    rw [maxcpus_pass_iff h] at hmax
    rw [ttydc0_pass_iff h] at htty
    refine ⟨fun hw => ?_, fun hno hin hlast => ?_, hmax.mp, htty.mp⟩
    · have hin := hinfix hw
      constructor
      · exact fun hlast => (hfail.mp ⟨hlast, hin⟩).1
      · exact fun hlast => (hfail.mpr ⟨hlast, hw⟩).1
    · obtain ⟨-, w, hw, hkey⟩ := hfail.mp ⟨hlast, hin⟩
      exact hno w hw hkey
  · rintro ⟨hcon, hun, hmax, htty⟩
    refine ⟨?_, ?_, ?_⟩
    · rw [failures_iff h]
      by_cases hw : ∃ w ∈ tokens bootargs, maxcpusKey <+: w
      · rw [hcon hw]
        exact ⟨fun hl => ⟨hl.1, hw⟩, fun hl => ⟨hl.1, hinfix hw⟩⟩
      · refine ⟨fun hl => ?_, fun hl => absurd hl.2 hw⟩
        exact absurd hl.1 (hun (fun w hmem hkey => hw ⟨w, hmem, hkey⟩) hl.2)
    · rw [maxcpus_pass_iff h]
      exact ⟨hmax, infix_of_lastToken⟩
    · rw [ttydc0_pass_iff h]
      refine ⟨htty, ?_⟩
      rintro ⟨w, hw, hnames⟩
      exact infix_of_namesTtydc0 hw hnames

/-- The arguments of a usual boot. -/
theorem judges_usual : Judges "console=ttydc0,115200 maxcpus=1 console=tty0".toList := by
  refine (judges_iff_asWords _ (by decide +kernel)).mpr ⟨fun _ => ?_, fun hno _ => ?_,
    fun _ => ?_, fun _ => ?_⟩
  · decide +kernel
  · exact absurd (by decide +kernel) (hno "maxcpus=1".toList (by decide +kernel))
  · decide +kernel
  · exact ⟨"console=ttydc0,115200".toList, by decide +kernel, .inr (by decide +kernel)⟩

/-- **Sixteen cores pass for one**: the word begins like the argument that is looked for. -/
theorem not_judges_sixteen :
    .pass maxcpusRespected ∈ bootargsSection "console=tty0 maxcpus=16".toList ∧
    lastToken "console=tty0 maxcpus=16".toList maxcpusKey = some "maxcpus=16".toList ∧
    ¬ Judges "console=tty0 maxcpus=16".toList := by
  have hpass : .pass maxcpusRespected ∈ bootargsSection "console=tty0 maxcpus=16".toList := by
    decide +kernel
  have hlast : lastToken "console=tty0 maxcpus=16".toList maxcpusKey =
      some "maxcpus=16".toList := by decide +kernel
  refine ⟨hpass, hlast, fun h => ?_⟩
  have hone := h.maxcpus.mp hpass
  rw [hlast] at hone
  exact absurd hone (by decide +kernel)

end Wallace.BootargsCheck
