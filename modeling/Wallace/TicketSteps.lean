import Mathlib.Data.Char
import Mathlib.Data.List.Lex
import Wallace.TicketModel

/-!
What one `queue` command does to the ticket store.

Every command leaves the store as it was, or writes one file, or moves one; `approve` does
so once for each number it goes through. The lemmas say when and with what contents.
-/

namespace Wallace.TicketSteps

open Wallace.Files Wallace.TicketModel

variable {sh : Shell} {s s' : Store} {now : ℕ}

@[simp]
lemma read_storeEmpty (p : File) : read Store.empty p = none := read_empty p

lemma pad3_ne_nil (n : ℤ) : pad3 n ≠ [] := by
  unfold pad3
  dsimp only
  split
  · exact List.cons_ne_nil _ _
  · exact List.append_ne_nil_of_right_ne_nil _ Nat.toDigits_ne_nil

/-! ### Resolution -/

/-- A path that `tk_file` finds is in the active directory or in `tickets/done`, and in the
latter only if no active name has the number. -/
lemma tkFile_cases {seq : Text} {f : File} (h : tkFile sh s seq = some f) :
    f.dir = .active ∨ f.dir = .done ∧ list sh.le s .active (isSeq seq) = [] := by
  unfold tkFile at h
  split at h
  · cases h
    exact .inl rfl
  · rename_i hnil
    split at h
    · cases h
      exact .inr ⟨rfl, hnil⟩
    · cases h

/-- Two stores with the same files, whatever is in them. -/
def SameNames (s s' : Store) : Prop := ∀ p : File, (read s' p).isSome = (read s p).isSome

lemma tkFile_congr (h : SameNames s s') (seq : Text) : tkFile sh s' seq = tkFile sh s seq := by
  unfold tkFile
  rw [list_congr sh.collates (fun n => h ⟨.active, n⟩),
    list_congr sh.collates (fun n => h ⟨.done, n⟩)]

/-- Rewriting a file changes no names. -/
lemma sameNames_write {f : File} {t : Ticket} (h : read s f = some t) (t' : Ticket) :
    SameNames s (write s f t') := by
  intro p
  rw [read_write]
  split
  · rename_i e
    rw [e, h]
    rfl
  · rfl

/-! ### `queue add` -/

/-- `t` is the ticket that `queue add` makes of its arguments. -/
def Makes (sh : Shell) (s : Store) (now : ℕ) (args : List Text) (t : Ticket) : Prop :=
  ∃ agent slug desc opts o needs n, args = agent :: slug :: desc :: opts ∧
    parseAdd sh opts = some o ∧ nextSeq sh s agent = some n ∧
    t = newTicket agent slug desc o needs (pad3 n) now

lemma cmdAdd_cases (sh : Shell) (s : Store) (now : ℕ) (args : List Text) :
    (cmdAdd sh s now args).store = s ∨
      ∃ t, Makes sh s now args t ∧
        (cmdAdd sh s now args).store = write s ⟨.active, ticketName t.seq t.slug⟩ t := by
  unfold cmdAdd
  split
  · rename_i agent slug desc opts
    split
    · exact .inl rfl
    split
    · exact .inl rfl
    rename_i o ho
    split
    · exact .inl rfl
    rename_i needs hn
    split
    · exact .inl rfl
    rename_i n hseq
    split
    · exact .inl rfl
    · rename_i s' hc
      unfold create at hc
      split at hc
      · cases hc
      · cases hc
        exact .inr ⟨_, ⟨agent, slug, desc, opts, o, needs, n, rfl, ho, hseq, rfl⟩, rfl⟩
  · exact .inl rfl

/-! ### `queue approve` -/

/-- The file that `_approve_one` rewrites for a number, if it rewrites one. -/
def approvable (sh : Shell) (s : Store) (seq : Text) : Option (File × Ticket) :=
  (tkFile sh s seq).bind fun f =>
    ((read s f).filter fun t => t.needs = .rig).map fun t => (f, t)

lemma approvable_eq {seq : Text} {f : File} {t : Ticket} :
    approvable sh s seq = some (f, t) ↔
      tkFile sh s seq = some f ∧ read s f = some t ∧ t.needs = .rig := by
  unfold approvable
  simp only [Option.bind_eq_some_iff, Option.map_eq_some_iff, Option.filter_eq_some_iff,
    Prod.mk.injEq, decide_eq_true_eq]
  constructor
  · rintro ⟨g, hg, u, ⟨hu, hneeds⟩, rfl, rfl⟩
    exact ⟨hg, hu, hneeds⟩
  · rintro ⟨hf, ht, hneeds⟩
    exact ⟨f, hf, t, ⟨ht, hneeds⟩, rfl, rfl⟩

lemma approveOne_cases (by' : Text) (now : ℕ) (a : Tally) (seq : Text) :
    approvable sh a.store seq = none ∧ (approveOne sh by' now a seq).store = a.store ∨
      ∃ f t, approvable sh a.store seq = some (f, t) ∧
        (approveOne sh by' now a seq).store = write a.store f (t.approve by' now) := by
  unfold approveOne
  split
  · rename_i hf
    exact .inl ⟨by simp [approvable, hf], rfl⟩
  · rename_i f hf
    split
    · rename_i ht
      exact .inl ⟨by simp [approvable, hf, ht], rfl⟩
    · rename_i t ht
      split
      · rename_i hneeds
        exact .inr ⟨f, t, approvable_eq.mpr ⟨hf, ht, hneeds⟩, rfl⟩
      · rename_i hneeds
        exact .inl ⟨by simp [approvable, hf, ht, hneeds], rfl⟩

/-- The numbers that an approval of `w` goes through, in a store on the way. -/
inductive Visits (sh : Shell) (s : Store) (w : Text) : Text → Prop
  | listed {name t} (h : read s ⟨.active, name⟩ = some t) : Visits sh s w t.seq
  | named {seq} (hall : w ≠ "all".toList) (h : seq ∈ specSeqs sh w) : Visits sh s w seq

/-- **The rule for `queue approve`**: what every rewriting of a visited ticket keeps, the
command keeps. -/
theorem cmdApprove_rule {P : Store → Prop} {args : List Text} (hs : P s)
    (hstep : ∀ o w s seq f t, parseApprove args = some o → w ∈ sh.words o.specs → P s →
      Visits sh s w seq → approvable sh s seq = some (f, t) → P (write s f (t.approve o.by' now))) :
    P (cmdApprove sh s now args).store := by
  have hone : ∀ o w seq, ∀ a : Tally, parseApprove args = some o → w ∈ sh.words o.specs →
      P a.store → Visits sh a.store w seq → P (approveOne sh o.by' now a seq).store := by
    intro o w seq a ho hw ha hv
    rcases approveOne_cases o.by' now a seq with ⟨-, e⟩ | ⟨f, t, hft, e⟩
    · rw [e]
      exact ha
    · rw [e]
      exact hstep o w a.store seq f t ho hw ha hv hft
  have hspec : ∀ o w, ∀ a : Tally, parseApprove args = some o → w ∈ sh.words o.specs →
      P a.store → P (approveSpec sh o.by' now a w).store := by
    intro o w a ho hw ha
    unfold approveSpec
    split
    · refine List.foldlRecOn (motive := fun a : Tally => P a.store) _ _ ha ?_
      intro a ha name _
      unfold approveListed
      split
      · rename_i t ht
        split
        · exact hone o w _ a ho hw ha (.listed ht)
        · exact ha
      · exact ha
    · rename_i hall
      refine List.foldlRecOn (motive := fun a : Tally => P a.store) _ _ ha ?_
      intro a ha seq hseq
      exact hone o w seq a ho hw ha (.named hall hseq)
  unfold cmdApprove
  split
  · exact hs
  · rename_i o ho
    split
    · exact hs
    · refine List.foldlRecOn (motive := fun a : Tally => P a.store) _ _ hs ?_
      intro a ha w hw
      exact hspec o w a ho hw ha

/-! ### `queue ready` -/

/-- The reviewer, the file and the ticket that a `queue ready` is about. -/
def readyTarget (sh : Shell) (s : Store) (args : List Text) : Option (Text × File × Ticket) :=
  args.head?.bind fun arg => (parseReady args.tail).bind fun reviewer =>
    (base10 sh arg).bind fun n => (tkFile sh s (pad3 n)).bind fun f =>
      (read s f).map fun t => (reviewer, f, t)

lemma cmdReady_cases (sh : Shell) (s : Store) (now : ℕ) (args : List Text) :
    (cmdReady sh s now args).store = s ∨
      ∃ reviewer f t seq, readyTarget sh s args = some (reviewer, f, t) ∧ read s f = some t ∧
        readyRefusal sh s seq reviewer t = none ∧
        (cmdReady sh s now args).store = write s f (t.ready reviewer now) := by
  unfold cmdReady
  split
  · exact .inl rfl
  split
  · exact .inl rfl
  split
  · exact .inl rfl
  rename_i reviewer hr
  split
  · exact .inl rfl
  split
  · exact .inl rfl
  rename_i n hn
  split
  · exact .inl rfl
  rename_i f hf
  split
  · exact .inl rfl
  rename_i t ht
  split
  · exact .inl rfl
  · rename_i hrefuse
    refine .inr ⟨reviewer, f, t, pad3 n, ?_, ht, hrefuse, rfl⟩
    simp [readyTarget, hr, hn, hf, ht]

/-- What a ticket is that `queue ready` does not refuse. -/
lemma readyRefusal_none {seq reviewer : Text} {t : Ticket}
    (h : readyRefusal sh s seq reviewer t = none) :
    t.needs = .rig ∧ t.state = .approved ∧ strip t.author ≠ reviewer ∧ t.hashes ≠ none ∧
      tkDepsDone sh s t = true := by
  unfold readyRefusal at h
  split_ifs at h with hneeds hstate hauthor hhashes hdeps
  exact ⟨not_not.mp hneeds, not_not.mp hstate, hauthor, hhashes, hdeps⟩

/-! ### `queue done` -/

/-- The file and the ticket that a `queue done` is about. -/
def doneTarget (sh : Shell) (s : Store) (args : List Text) : Option (File × Ticket) :=
  args.head?.bind fun arg => (base10 sh arg).bind fun n =>
    (tkFile sh s (pad3 n)).bind fun f => (read s f).map fun t => (f, t)

lemma cmdDone_cases (sh : Shell) (s : Store) (now : ℕ) (args : List Text) :
    (cmdDone sh s now args).store = s ∨
      ∃ f t, doneTarget sh s args = some (f, t) ∧ read s f = some t ∧
        (f.dir = .done ∧ (cmdDone sh s now args).store = write s f (t.complete now) ∨
          (cmdDone sh s now args).store = move s f .done (t.complete now)) := by
  unfold cmdDone
  split
  · exact .inl rfl
  split
  · exact .inl rfl
  split
  · exact .inl rfl
  rename_i n hn
  split
  · exact .inl rfl
  rename_i f hf
  split
  · exact .inl rfl
  rename_i t ht
  refine .inr ⟨f, t, by simp [doneTarget, hn, hf, ht], ht, ?_⟩
  split
  · rename_i hd
    exact .inl ⟨hd, rfl⟩
  · exact .inr rfl

/-! ### A shell -/

/-- The C locale, for file names without blanks and globs: unquoted text splits at spaces,
and what is not a number is an error. -/
def plainShell : Shell where
  le a b := decide (a ≤ b)
  collates := {
    total := fun a b => by simpa using le_total a b
    trans := fun a b c => by simpa using le_trans
    antisymm := fun a b => by simpa using le_antisymm }
  words s := (s.splitOnP (· = ' ')).filter (· ≠ [])
  listed names := names.map fun n => ⟨.active, n⟩
  arith _ := none

/-- The words of a command line. -/
def argv (l : List String) : List Text := l.map String.toList

end Wallace.TicketSteps
