import Wallace.Runs
import Wallace.TicketBlocks
import Wallace.TicketDone

/-!
What the exit status of a `queue` command says about the store.

`add` and `ready` write last and then report 0. `approve` ends in `[ -n "$skip" ] && echo`,
which is a failure whenever nothing was skipped, and `done` on a completed ticket rewrites it
before `mv` refuses to move a file onto itself.
-/

namespace Wallace.TicketAtomic

open Wallace.Files Wallace.Runs Wallace.TicketModel Wallace.TicketSteps
open Wallace.TicketBlocks

variable {sh : Shell} {s s' : Store} {now : ℕ} {by' : Text}

/-! ### Bytes -/

/-- What is in the file of a ticket: all but the record of the commands. -/
def file (t : Ticket) : Ticket := { t with history := [] }

def bytes (s : Store) (p : File) : Option Ticket := (read s p).map file

lemma bytes_write (s : Store) (p q : File) (t : Ticket) :
    bytes (write s p t) q = if q = p then some (file t) else bytes s q := by
  unfold bytes
  rw [read_write]
  split <;> rfl

/-- Byte for byte the same store. -/
def SameBytes (s s' : Store) : Prop := ∀ p, bytes s' p = bytes s p

/-- An approval reads nothing that is not in the file. -/
lemma file_approve {t t' : Ticket} (h : file t' = file t) :
    file (t'.approve by' now) = file (t.approve by' now) := by
  unfold file at h
  unfold file Ticket.approve
  simp only [Ticket.mk.injEq] at h ⊢
  simp [h]

lemma needs_of_file {t t' : Ticket} (h : file t' = file t) : t'.needs = t.needs := by
  simpa only [file] using congrArg Ticket.needs h

lemma state_of_file {t t' : Ticket} (h : file t' = file t) : t'.state = t.state := by
  simpa only [file] using congrArg Ticket.state h

/-! ### The property -/

/-- The ticket that `queue add` is asked to make. -/
def asked (sh : Shell) (s : Store) (now : ℕ) (args : List Text) : Option Ticket :=
  match args with
  | agent :: slug :: desc :: opts =>
    if agent = [] ∨ slug = [] ∨ desc = [] then none
    else (parseAdd sh opts).bind fun o => (parseNeeds o.needs).bind fun needs =>
      (nextSeq sh s agent).map fun n => newTicket agent slug desc o needs (pad3 n) now
  | _ => none

/-- The number of the active file `name`, if that is a proposed rig ticket. -/
def proposedSeq (s : Store) (name : Text) : Option Text :=
  ((read s ⟨.active, name⟩).filter fun t => t.needs = .rig ∧ t.state = .proposed).map Ticket.seq

/-- The numbers that a spec names: with `all`, those of the proposed rig tickets. -/
def named (sh : Shell) (s : Store) (w : Text) : List Text :=
  if w = "all".toList then (list sh.le s .active isJson).filterMap (proposedSeq s)
  else specSeqs sh w

/-- The numbers that an approval names. -/
def numbers (sh : Shell) (s : Store) (o : ApproveOpts) : List Text :=
  (sh.words o.specs).flatMap (named sh s)

/-- In `s'` the change that the command asks for is made, to every ticket that it names. -/
def Applied (sh : Shell) (s s' : Store) (a : Act) : Prop :=
  match a.cmd with
  | .add args => ∃ t, asked sh s a.now args = some t ∧
      bytes s' ⟨.active, ticketName t.seq t.slug⟩ = some (file t)
  | .approve args => ∃ o, parseApprove args = some o ∧ o.specs ≠ [] ∧
      ∀ q ∈ numbers sh s o, ∃ f t, approvable sh s q = some (f, t) ∧
        bytes s' f = some (file (t.approve o.by' a.now))
  | .ready args => args.head? ≠ some [] ∧ ∃ reviewer f t seq, reviewer ≠ [] ∧
      readyTarget sh s args = some (reviewer, f, t) ∧ readyRefusal sh s seq reviewer t = none ∧
      bytes s' f = some (file (t.ready reviewer a.now))
  | .done args => args.head? ≠ some [] ∧ ∃ f t, doneTarget sh s args = some (f, t) ∧
      bytes s' ⟨.done, f.name⟩ = some (file (t.complete a.now))

/-- The command reports what it did: a failure leaves the store byte for byte as it was, and
a change that was made is reported as a success. -/
def Atomic (sh : Shell) (s : Store) (a : Act) : Prop :=
  ((exec sh s a).code ≠ 0 → SameBytes s (exec sh s a).store) ∧
    (Applied sh s (exec sh s a).store a → (exec sh s a).code = 0)

/-- A number that resolves to a file which is not a rig ticket. -/
def Skipped (sh : Shell) (s : Store) (q : Text) : Prop :=
  (tkFile sh s q).isSome ∧ approvable sh s q = none

/-- The commands that report what they do: adds, reviews, completions of tickets that are not
completed, and the approvals that skip one of their numbers, or that miss one and change
nothing. -/
def Truthful (sh : Shell) (s : Store) (a : Act) : Prop :=
  match a.cmd with
  | .approve args => ∀ o ∈ parseApprove args, o.specs ≠ [] →
      (∃ q ∈ numbers sh s o, Skipped sh s q) ∨
        (∃ q ∈ numbers sh s o, tkFile sh s q = none) ∧
          ∀ q ∈ numbers sh s o, ∀ r ∈ approvable sh s q,
            file (r.2.approve o.by' a.now) = file r.2
  | .done args => args.head? ≠ some [] → ∀ r ∈ doneTarget sh s args, r.1.dir ≠ .done
  | _ => True

instance (sh : Shell) (s : Store) (q : Text) : Decidable (Skipped sh s q) :=
  inferInstanceAs (Decidable (_ ∧ _))

instance (sh : Shell) (s : Store) (a : Act) : Decidable (Truthful sh s a) :=
  match a with
  | ⟨.approve args, now⟩ => inferInstanceAs (Decidable (∀ o ∈ parseApprove args, o.specs ≠ [] →
      (∃ q ∈ numbers sh s o, Skipped sh s q) ∨
        (∃ q ∈ numbers sh s o, tkFile sh s q = none) ∧
          ∀ q ∈ numbers sh s o, ∀ r ∈ approvable sh s q,
            file (r.2.approve o.by' now) = file r.2))
  | ⟨.done args, _⟩ => inferInstanceAs
      (Decidable (args.head? ≠ some [] → ∀ r ∈ doneTarget sh s args, r.1.dir ≠ .done))
  | ⟨.add _, _⟩ => isTrue trivial
  | ⟨.ready _, _⟩ => isTrue trivial

/-! ### Names -/

/-- An active file is named after the number and the slug of its ticket, and the number is
one that was allocated. -/
def Numbered (s : Store) : Prop :=
  ∀ (p : File) t, read s p = some t → p.dir = .active →
    (∃ n, 0 ≤ n ∧ t.seq = pad3 n) ∧ p.name = ticketName t.seq t.slug ∧ '/' ∉ t.slug

lemma nextSeq_nonneg {agent : Text} {n : ℤ} (h : nextSeq sh s agent = some n) : 0 ≤ n := by
  unfold nextSeq at h
  split at h
  · rename_i base hbase
    obtain ⟨bmax, hmax, rfl⟩ := Option.map_eq_some_iff.mp h
    have hpos := (scan_fold hmax).1
    unfold tkAgentBase at hbase
    obtain ⟨a, -, rfl⟩ := Option.map_eq_some_iff.mp hbase
    have := (base_pos a).1
    split <;> omega
  · obtain ⟨m, hmax, rfl⟩ := Option.map_eq_some_iff.mp h
    have hpos := (scan_fold hmax).1
    omega

/-- A `queue add` that is not asked for a ticket fails. -/
lemma cmdAdd_of_none {args : List Text} (h : asked sh s now args = none) :
    (cmdAdd sh s now args).code ≠ 0 ∧ (cmdAdd sh s now args).store = s := by
  rcases args with _ | ⟨agent, _ | ⟨slug, _ | ⟨desc, opts⟩⟩⟩
  case cons.cons.cons =>
    simp only [asked] at h
    simp only [cmdAdd]
    split at h
    · rename_i hempty
      rw [if_pos hempty]
      simp [die]
    · rename_i hempty
      rw [if_neg hempty]
      cases ho : parseAdd sh opts with
      | none => simp [fail]
      | some o =>
        cases hneeds : parseNeeds o.needs with
        | none => simp [die, hneeds]
        | some needs =>
          cases hseq : nextSeq sh s agent with
          | none => simp [fail, hneeds]
          | some n => simp [ho, hneeds, hseq] at h
  all_goals simp [cmdAdd, die]

/-- What `queue add` does with the ticket it is asked for. -/
lemma cmdAdd_of_some {args : List Text} {t : Ticket} (h : asked sh s now args = some t) :
    (∃ n, 0 ≤ n ∧ t.seq = pad3 n) ∧
      cmdAdd sh s now args = (match create s t with
        | none => fail s
        | some s' => ⟨s', 0, [.added t.seq t.slug t.needs]⟩) := by
  rcases args with _ | ⟨agent, _ | ⟨slug, _ | ⟨desc, opts⟩⟩⟩
  case cons.cons.cons =>
    simp only [asked] at h
    split at h
    · cases h
    · rename_i hempty
      obtain ⟨o, ho, h⟩ := Option.bind_eq_some_iff.mp h
      obtain ⟨needs, hneeds, h⟩ := Option.bind_eq_some_iff.mp h
      obtain ⟨n, hseq, rfl⟩ := Option.map_eq_some_iff.mp h
      refine ⟨⟨n, nextSeq_nonneg hseq, rfl⟩, ?_⟩
      simp only [cmdAdd, if_neg hempty, ho, hneeds, hseq]
      rfl
  all_goals simp [asked] at h

/-- Rewriting a ticket under its number and slug keeps the names. -/
lemma Numbered.rewrite (h : Numbered s) {f : File} {t t' : Ticket} (ht : read s f = some t)
    (hseq : t'.seq = t.seq) (hslug : t'.slug = t.slug) : Numbered (write s f t') := by
  refine forall_read_write h fun hd => ?_
  rw [hseq, hslug]
  exact h f t ht hd

lemma numbered_step {a : Act} (h : Numbered s) (hs : step sh s a = some s') : Numbered s' := by
  obtain ⟨cmd, now⟩ := a
  cases hs
  cases cmd with
  | add args =>
    simp only [exec]
    cases hask : asked sh s now args with
    | none =>
      rw [(cmdAdd_of_none hask).2]
      exact h
    | some t =>
      obtain ⟨hseq, e⟩ := cmdAdd_of_some hask
      rw [e]
      unfold create
      split_ifs with hslug
      · exact h
      · exact forall_read_write h fun _ => ⟨hseq, rfl, hslug⟩
  | approve args =>
    refine cmdApprove_rule h ?_
    intro o w σ seq f t _ _ hσ _ hft
    exact hσ.rewrite (approvable_eq.mp hft).2.1 rfl rfl
  | ready args =>
    simp only [exec]
    rcases cmdReady_cases sh s now args with e | ⟨reviewer, f, t, seq, -, ht, -, e⟩
    · rw [e]
      exact h
    · rw [e]
      exact h.rewrite ht rfl rfl
  | done args =>
    simp only [exec]
    rcases cmdDone_cases sh s now args with e | ⟨f, t, -, ht, ⟨-, e⟩ | e⟩
    · rw [e]
      exact h
    · rw [e]
      exact h.rewrite ht rfl rfl
    · rw [e]
      exact forall_read_move h fun hd => by cases hd

/-- Every store that the commands reach is numbered. -/
lemma numbered_of_reach (h : Reach (step sh) Any Store.empty s) : Numbered s :=
  h.invariant Numbered (fun p t ht => by simp at ht) fun _ _ _ hi _ hs => numbered_step hi hs

/-- A text that `printf '%03d'` can give, an error included. -/
def IsSeq3 (q : Text) : Prop := q = [] ∨ ∃ n, q = pad3 n

lemma isSeq3_named (hn : Numbered s) {w q : Text} (h : q ∈ named sh s w) : IsSeq3 q := by
  unfold named at h
  split at h
  · obtain ⟨name, -, hq⟩ := List.mem_filterMap.mp h
    obtain ⟨t, ht, rfl⟩ := Option.map_eq_some_iff.mp hq
    obtain ⟨⟨n, -, hseq⟩, -⟩ := hn _ t (Option.filter_eq_some_iff.mp ht).1 rfl
    exact .inr ⟨n, hseq⟩
  · unfold specSeqs at h
    split at h
    · split at h
      · obtain ⟨i, -, rfl⟩ := List.mem_map.mp h
        exact .inr ⟨_, rfl⟩
      · cases h
    · rw [List.mem_singleton.mp h]
      unfold padded
      cases base10 sh w with
      | none => exact .inl rfl
      | some n => exact .inr ⟨n, rfl⟩

lemma dash_notMem_pad3 {n : ℤ} (h : 0 ≤ n) : '-' ∉ pad3 n := fun hd =>
  absurd (pad3_digits h '-' hd) (by decide)

lemma pad3_neg {n : ℤ} (h : n < 0) :
    ∃ l : Text, pad3 n = '-' :: l ∧ ∀ c ∈ l, c.isDigit = true := by
  refine ⟨_, by unfold pad3; rw [if_pos h], fun c hc => ?_⟩
  rcases List.mem_append.mp hc with hc | hc
  · rw [List.eq_of_mem_replicate hc]
    rfl
  · exact Nat.isDigit_of_mem_toDigits (by decide) (by decide) hc

/-- A dash is nowhere in such a text, or at its beginning. -/
lemma dash_cases {q : Text} (h : IsSeq3 q) : '-' ∉ q ∨ ∃ q', q = '-' :: q' := by
  rcases h with rfl | ⟨n, rfl⟩
  · exact .inl List.not_mem_nil
  · by_cases hn : 0 ≤ n
    · exact .inl (dash_notMem_pad3 hn)
    · obtain ⟨l, hl, -⟩ := pad3_neg (lt_of_not_ge hn)
      exact .inr ⟨l, hl⟩

lemma newline_notMem {q : Text} (h : IsSeq3 q) : '\n' ∉ q := by
  rcases h with rfl | ⟨n, rfl⟩
  · exact List.not_mem_nil
  · by_cases hn : 0 ≤ n
    · exact fun hd => absurd (pad3_digits hn _ hd) (by decide)
    · obtain ⟨l, hl, hdig⟩ := pad3_neg (lt_of_not_ge hn)
      rw [hl, List.mem_cons]
      rintro (e | hd)
      · exact absurd e (by decide)
      · exact absurd (hdig _ hd) (by decide)

/-- What a name begins with, and has no newline, its first line begins with. -/
lemma prefix_head1 {q b : Text} (h : q ++ ['-'] <+: b) (hq : '\n' ∉ q) :
    q ++ ['-'] <+: head1 b := by
  obtain ⟨r, rfl⟩ := h
  unfold head1
  rw [List.takeWhile_append_of_pos]
  · exact List.prefix_append _ _
  · intro c hc
    rcases List.mem_append.mp hc with hc | hc
    · exact decide_eq_true fun e => hq (e ▸ hc)
    · rw [List.mem_singleton.mp hc]
      decide

/-- A name is cut at its first dash in one way. -/
lemma cut_unique {u v r r' : Text} (hu : '-' ∉ u) (hv : '-' ∉ v)
    (h : u ++ ('-' :: r) = v ++ '-' :: r') : u = v := by
  have hcut : ∀ {u r : Text}, '-' ∉ u → (u ++ '-' :: r).takeWhile (· ≠ '-') = u := by
    intro u r hu
    rw [List.takeWhile_append_of_pos]
    · simp
    · exact fun c hc => decide_eq_true fun e => hu (e ▸ hc)
  rw [← hcut hu (r := r), h, hcut hv]

/-- The number of a ticket is the only one that resolves to its file. -/
lemma seq_unique (hn : Numbered s) {q name : Text} {t : Ticket} (hq : IsSeq3 q)
    (hf : tkFile sh s q = some ⟨.active, name⟩) (ht : read s ⟨.active, name⟩ = some t) :
    q = t.seq := by
  obtain ⟨⟨m, hm, hseq⟩, hname, -⟩ := hn _ t ht rfl
  -- the glob selects by the text before the first dash, which is before any newline
  have hpre : q ++ ['-'] <+: name := by
    obtain ⟨b, hb, rfl⟩ : ∃ b, isSeq q b = true ∧ head1 b = name := by
      unfold tkFile at hf
      split at hf
      · rename_i b l hl
        cases hf
        exact ⟨b, (mem_list.mp (hl ▸ List.mem_cons_self)).2, rfl⟩
      · split at hf <;> cases hf
    unfold isSeq at hb
    rw [Bool.and_eq_true, List.isPrefixOf_iff_prefix] at hb
    exact prefix_head1 hb.1 (newline_notMem hq)
  obtain ⟨r, hr⟩ := hpre
  change name = ticketName t.seq t.slug at hname
  rw [hname, hseq] at hr
  rw [hseq]
  unfold ticketName at hr
  rw [List.append_assoc] at hr
  rcases dash_cases hq with hd | ⟨q', rfl⟩
  · exact cut_unique hd (dash_notMem_pad3 hm) hr
  · -- a number does not begin with a dash
    have hdash : '-' ∈ pad3 m := by
      obtain ⟨c, l, hp⟩ := List.exists_cons_of_ne_nil (pad3_ne_nil m)
      rw [hp] at hr ⊢
      simp only [List.cons_append, List.cons.injEq] at hr
      exact hr.1 ▸ List.mem_cons_self
    exact absurd hdash (dash_notMem_pad3 hm)

/-! ### The approval loops -/

/-- The loops have gone through the numbers `V`, and began in the store `s`. -/
structure Along (sh : Shell) (by' : Text) (now : ℕ) (s : Store) (V : List Text) (a : Tally) :
    Prop where
  names : SameNames s a.store
  hit : ∀ q ∈ V, ∀ p t, approvable sh s q = some (p, t) →
    bytes a.store p = some (file (t.approve by' now))
  rest : ∀ p, (∀ q ∈ V, ∀ t, approvable sh s q ≠ some (p, t)) → read a.store p = read s p
  skip : a.skip = [] ↔ ∀ q ∈ V, ¬Skipped sh s q
  seqs : ∀ q ∈ V, IsSeq3 q

variable {V : List Text} {a : Tally}

lemma along_start (s : Store) : Along sh by' now s [] { store := s } :=
  ⟨fun _ => rfl, by simp, fun _ _ => rfl, by simp, by simp⟩

/-- A number that was gone through may be counted again. -/
lemma Along.again (h : Along sh by' now s V a) {q : Text} (hq : q ∈ V) :
    Along sh by' now s (V ++ [q]) a := by
  have hmem : ∀ q', q' ∈ V ++ [q] ↔ q' ∈ V := by
    intro q'
    rw [List.mem_append, List.mem_singleton]
    exact ⟨fun h => h.elim id fun e => e ▸ hq, .inl⟩
  exact ⟨h.names, fun q' hq' => h.hit q' ((hmem q').mp hq'),
    fun p hp => h.rest p fun q' hq' => hp q' ((hmem q').mpr hq'),
    h.skip.trans ⟨fun hs q' hq' => hs q' ((hmem q').mp hq'),
      fun hs q' hq' => hs q' ((hmem q').mpr hq')⟩,
    fun q' hq' => h.seqs q' ((hmem q').mp hq')⟩

/-- A file on the way is as it was, or it was approved for one of the numbers. -/
lemma Along.read_cases (h : Along sh by' now s V a) (p : File) :
    read a.store p = read s p ∨
      ∃ q ∈ V, ∃ t t', approvable sh s q = some (p, t) ∧ read a.store p = some t' ∧
        file t' = file (t.approve by' now) := by
  by_cases hp : ∃ q ∈ V, ∃ t, approvable sh s q = some (p, t)
  · obtain ⟨q, hq, t, ht⟩ := hp
    obtain ⟨t', ht', e⟩ := Option.map_eq_some_iff.mp (h.hit q hq p t ht)
    exact .inr ⟨q, hq, t, t', ht, ht', e⟩
  · push Not at hp
    exact .inl (h.rest p hp)

/-- What `_approve_one` finds on the way it finds in `s`, and its rewriting comes to the same
bytes. -/
lemma Along.approvable_some (h : Along sh by' now s V a) {q : Text} {f : File} {t' : Ticket}
    (hft : approvable sh a.store q = some (f, t')) :
    ∃ t, approvable sh s q = some (f, t) ∧
      file (t'.approve by' now) = file (t.approve by' now) := by
  obtain ⟨hf, ht', hneeds⟩ := approvable_eq.mp hft
  rw [tkFile_congr h.names] at hf
  rcases h.read_cases f with e | ⟨q', -, t, u, ht, hu, e⟩
  · exact ⟨t', approvable_eq.mpr ⟨hf, e ▸ ht', hneeds⟩, rfl⟩
  · obtain ⟨-, ht, hrig⟩ := approvable_eq.mp ht
    rw [ht'] at hu
    cases hu
    exact ⟨t, approvable_eq.mpr ⟨hf, ht, hrig⟩, file_approve (t := t.approve by' now) e⟩

lemma Along.approvable_none (h : Along sh by' now s V a) {q : Text}
    (hft : approvable sh a.store q = none) : approvable sh s q = none := by
  by_contra hne
  obtain ⟨⟨f, t⟩, ht⟩ := Option.ne_none_iff_exists'.mp hne
  obtain ⟨hf, ht, hneeds⟩ := approvable_eq.mp ht
  rw [← tkFile_congr h.names] at hf
  have hsome : ∃ t', read a.store f = some t' ∧ t'.needs = .rig := by
    rcases h.read_cases f with e | ⟨q', -, u, t', hu, ht', e⟩
    · exact ⟨t, e ▸ ht, hneeds⟩
    · exact ⟨t', ht', (needs_of_file e).trans (approvable_eq.mp hu).2.2⟩
  obtain ⟨t', ht', hneeds'⟩ := hsome
  rw [approvable_eq.mpr ⟨hf, ht', hneeds'⟩] at hft
  cases hft

/-- What `_approve_one` writes down of a number. -/
lemma approveOne_skip (sh : Shell) (by' : Text) (now : ℕ) (a : Tally) (q : Text) :
    (approveOne sh by' now a q).skip = [] ↔ a.skip = [] ∧ ¬Skipped sh a.store q := by
  unfold approveOne Skipped
  split
  · rename_i hf
    simp [hf]
  · rename_i f hf
    split
    · rename_i ht
      simp [hf, ht, approvable]
    · rename_i t ht
      split
      · rename_i hneeds
        simp [hf, ht, hneeds, approvable]
      · rename_i hneeds
        simp [hf, ht, hneeds, approvable]

lemma Along.skipped_iff (h : Along sh by' now s V a) (q : Text) :
    Skipped sh a.store q ↔ Skipped sh s q := by
  unfold Skipped
  rw [tkFile_congr h.names]
  refine and_congr_right fun _ => ⟨h.approvable_none, fun hnone => ?_⟩
  by_contra hne
  obtain ⟨⟨f, t⟩, ht⟩ := Option.ne_none_iff_exists'.mp hne
  obtain ⟨u, hu, -⟩ := h.approvable_some ht
  rw [hnone] at hu
  cases hu

/-- **One call of `_approve_one`.** -/
lemma along_one (h : Along sh by' now s V a) {q : Text} (hq : IsSeq3 q) :
    Along sh by' now s (V ++ [q]) (approveOne sh by' now a q) := by
  have hskip : (approveOne sh by' now a q).skip = [] ↔ ∀ q' ∈ V ++ [q], ¬Skipped sh s q' := by
    rw [approveOne_skip, h.skip, h.skipped_iff]
    simp [or_imp, forall_and]
  have hseqs : ∀ q' ∈ V ++ [q], IsSeq3 q' := by
    intro q' hq'
    rcases List.mem_append.mp hq' with hq' | hq'
    · exact h.seqs q' hq'
    · exact List.mem_singleton.mp hq' ▸ hq
  rcases approveOne_cases by' now a q with ⟨hnone, e⟩ | ⟨f, t', hft, e⟩
  · have hs := h.approvable_none hnone
    refine ⟨e ▸ h.names, ?_, ?_, hskip, hseqs⟩
    · intro q' hq' p t ht
      rw [e]
      rcases List.mem_append.mp hq' with hq' | hq'
      · exact h.hit q' hq' p t ht
      · rw [List.mem_singleton.mp hq', hs] at ht
        cases ht
    · intro p hp
      rw [e]
      exact h.rest p fun q' hq' => hp q' (List.mem_append_left _ hq')
  · obtain ⟨t, ht, hbytes⟩ := h.approvable_some hft
    have hread := (approvable_eq.mp hft).2.1
    refine ⟨fun p => ?_, ?_, ?_, hskip, hseqs⟩
    · rw [e, sameNames_write hread, h.names]
    · intro q' hq' p u hu
      rw [e, bytes_write]
      split
      · -- the same file for another number is rewritten to the same bytes
        rename_i hp
        have hut : u = t := by
          have hu := (approvable_eq.mp hu).2.1
          rw [hp, (approvable_eq.mp ht).2.1] at hu
          exact (Option.some.inj hu).symm
        rw [hbytes, hut]
      · rename_i hp
        rcases List.mem_append.mp hq' with hq' | hq'
        · exact h.hit q' hq' p u hu
        · rw [List.mem_singleton.mp hq', ht] at hu
          cases hu
          exact absurd rfl hp
    · intro p hp
      have hpf : p ≠ f := fun e => hp q (by simp) t (e ▸ ht)
      rw [e, read_write, if_neg hpf]
      exact h.rest p fun q' hq' => hp q' (List.mem_append_left _ hq')

/-- **One turn of the loop of `approve all`**: a ticket that was approved on the way is
proposed no longer, and its number was gone through. -/
lemma along_listed (h : Along sh by' now s V a) (hn : Numbered s) (name : Text) :
    Along sh by' now s (V ++ (proposedSeq s name).toList) (approveListed sh by' now a name) := by
  rcases h.read_cases ⟨.active, name⟩ with e | ⟨q, hq, t, t', ht, ht', e⟩
  · unfold approveListed proposedSeq
    rw [e]
    cases ht : read s ⟨.active, name⟩ with
    | none => simpa using h
    | some t =>
      dsimp only
      split
      · rename_i hc
        obtain ⟨⟨n, -, hseq⟩, -⟩ := hn _ t ht rfl
        simpa [Option.filter, hc] using along_one h (.inr ⟨n, hseq⟩)
      · rename_i hc
        simpa [Option.filter, hc] using h
  · obtain ⟨hf, hread, -⟩ := approvable_eq.mp ht
    have hstate : t'.state = .approved := state_of_file e
    have hstay : approveListed sh by' now a name = a := by
      unfold approveListed
      rw [ht']
      simp [hstate]
    rw [hstay]
    unfold proposedSeq
    rw [hread]
    by_cases hc : t.needs = .rig ∧ t.state = .proposed
    · have hseq : t.seq ∈ V := seq_unique hn (h.seqs q hq) hf hread ▸ hq
      simpa [Option.filter, hc] using h.again hseq
    · simpa [Option.filter, hc] using h

/-- **The rule for the loops**: what is gone through in the turns is gone through in the loop. -/
lemma along_foldl {α : Type} {f : Tally → α → Tally} {g : α → List Text} {l : List α}
    (hf : ∀ V a, ∀ x ∈ l, Along sh by' now s V a → Along sh by' now s (V ++ g x) (f a x))
    (h : Along sh by' now s V a) : Along sh by' now s (V ++ l.flatMap g) (l.foldl f a) := by
  induction l generalizing V a with
  | nil => simpa using h
  | cons x l ih =>
    rw [List.flatMap_cons, List.foldl_cons, ← List.append_assoc]
    exact ih (fun V a y hy => hf V a y (List.mem_cons_of_mem x hy))
      (hf V a x List.mem_cons_self h)

/-- **One spec.** -/
lemma along_spec (h : Along sh by' now s V a) (hn : Numbered s) (w : Text) :
    Along sh by' now s (V ++ named sh s w) (approveSpec sh by' now a w) := by
  have hseqs : ∀ q ∈ named sh s w, IsSeq3 q := fun q hq => isSeq3_named hn hq
  unfold approveSpec
  unfold named at hseqs ⊢
  split
  · rename_i hall
    rw [if_pos hall] at hseqs
    rw [list_congr sh.collates fun n => h.names ⟨.active, n⟩]
    rw [List.filterMap_eq_flatMap_toList]
    exact along_foldl (fun V a name _ ha => along_listed ha hn name) h
  · rename_i hall
    rw [if_neg hall] at hseqs
    have hfold := along_foldl (g := fun q => [q]) (l := specSeqs sh w)
      (fun V a q hq ha => along_one ha (hseqs q hq)) h
    rwa [List.flatMap_singleton'] at hfold

/-- **The loops of `queue approve`**, over all that it names. -/
lemma along_approve (hn : Numbered s) (o : ApproveOpts) :
    Along sh o.by' now s (numbers sh s o)
      ((sh.words o.specs).foldl (approveSpec sh o.by' now) { store := s }) := by
  have hstart : Along sh o.by' now s [] { store := s } := along_start s
  have hfold := along_foldl (g := named sh s) (l := sh.words o.specs)
    (fun V a w _ ha => along_spec ha hn w) hstart
  rwa [List.nil_append] at hfold

/-- The loops change no bytes exactly if every rewriting comes to the bytes that were there. -/
lemma Along.sameBytes_iff (h : Along sh by' now s V a) :
    SameBytes s a.store ↔
      ∀ q ∈ V, ∀ r ∈ approvable sh s q, file (r.2.approve by' now) = file r.2 := by
  constructor
  · rintro hsame q hq ⟨f, t⟩ hft
    have hnew := h.hit q hq f t hft
    rw [hsame f] at hnew
    unfold bytes at hnew
    rw [(approvable_eq.mp hft).2.1] at hnew
    exact (Option.some.inj hnew).symm
  · intro hall p
    rcases h.read_cases p with e | ⟨q, hq, t, t', hft, ht', e⟩
    · exact congrArg (Option.map file) e
    · unfold bytes
      rw [ht', (approvable_eq.mp hft).2.1, Option.map_some, Option.map_some, e]
      exact congrArg some (hall q hq (p, t) hft)

/-- If nothing is skipped, the loops approve every number that resolves. -/
lemma Along.applied_iff (h : Along sh by' now s V a) (hskip : ∀ q ∈ V, ¬Skipped sh s q) :
    (∀ q ∈ V, ∃ f t, approvable sh s q = some (f, t) ∧
      bytes a.store f = some (file (t.approve by' now))) ↔ ¬∃ q ∈ V, tkFile sh s q = none := by
  constructor
  · rintro hall ⟨q, hq, hnone⟩
    obtain ⟨f, t, hft, -⟩ := hall q hq
    rw [(approvable_eq.mp hft).1] at hnone
    cases hnone
  · intro hmiss q hq
    have hsome : approvable sh s q ≠ none := by
      intro hnone
      refine hskip q hq ⟨?_, hnone⟩
      rw [Option.isSome_iff_ne_none]
      exact fun e => hmiss ⟨q, hq, e⟩
    obtain ⟨⟨f, t⟩, hft⟩ := Option.ne_none_iff_exists'.mp hsome
    exact ⟨f, t, hft, h.hit q hq f t hft⟩

/-! ### Each command -/

lemma atomic_add (hn : Numbered s) (args : List Text) : Atomic sh s ⟨.add args, now⟩ := by
  unfold Atomic Applied
  simp only [exec]
  cases hask : asked sh s now args with
  | none =>
    obtain ⟨-, e⟩ := cmdAdd_of_none hask
    refine ⟨fun _ p => by rw [e], ?_⟩
    rintro ⟨t, ht, -⟩
    cases ht
  | some t =>
    obtain ⟨⟨n, hpos, hseq⟩, e⟩ := cmdAdd_of_some hask
    rw [e]
    unfold create
    split_ifs with hslug
    · -- no file of the store has a slash in its name
      refine ⟨fun _ p => rfl, ?_⟩
      rintro ⟨u, ⟨rfl⟩, hu⟩
      obtain ⟨v, hv, -⟩ := Option.map_eq_some_iff.mp hu
      obtain ⟨⟨m, hm, hvseq⟩, hname, hvslug⟩ := hn _ v hv rfl
      have hname : t.seq ++ '-' :: (t.slug ++ json) = v.seq ++ '-' :: (v.slug ++ json) := hname
      rw [hseq, hvseq] at hname
      have he := cut_unique (dash_notMem_pad3 hpos) (dash_notMem_pad3 hm) hname
      rw [he, List.append_cancel_left_eq, List.cons.injEq, List.append_cancel_right_eq] at hname
      exact absurd (hname.2 ▸ hslug) hvslug
    · exact ⟨fun hc => absurd rfl hc, fun _ => rfl⟩

/-- The store and the status that the loops leave. -/
lemma cmdApprove_tally (sh : Shell) (now : ℕ) (hn : Numbered s) {args : List Text} {o : ApproveOpts}
    (ho : parseApprove args = some o) (hspecs : o.specs ≠ []) :
    ∃ a, Along sh o.by' now s (numbers sh s o) a ∧
      (cmdApprove sh s now args).store = a.store ∧
      (cmdApprove sh s now args).code = if a.skip = [] then 1 else 0 := by
  refine ⟨_, along_approve hn o, ?_, ?_⟩
  · simp only [cmdApprove, ho, if_neg hspecs]
  · simp only [cmdApprove, ho, if_neg hspecs]

lemma atomic_approve (hn : Numbered s) (args : List Text) :
    Atomic sh s ⟨.approve args, now⟩ ↔ Truthful sh s ⟨.approve args, now⟩ := by
  unfold Atomic Applied Truthful
  simp only [exec]
  cases ho : parseApprove args with
  | none => simp [cmdApprove, ho, fail, SameBytes]
  | some o =>
    by_cases hspecs : o.specs = []
    · simp [cmdApprove, ho, hspecs, die, SameBytes]
    · obtain ⟨a, h, hstore, hcode⟩ := cmdApprove_tally sh now hn ho hspecs
      rw [hstore, hcode]
      by_cases hskip : ∃ q ∈ numbers sh s o, Skipped sh s q
      · have hne : a.skip ≠ [] := by
          intro he
          obtain ⟨q, hq, hs⟩ := hskip
          exact h.skip.mp he q hq hs
        rw [if_neg hne]
        refine iff_of_true ⟨fun hc => absurd rfl hc, fun _ => rfl⟩ ?_
        rintro o' ⟨rfl⟩ -
        exact .inl hskip
      · -- nothing is skipped, so the status is 1
        have hnone : ∀ q ∈ numbers sh s o, ¬Skipped sh s q := fun q hq hs => hskip ⟨q, hq, hs⟩
        rw [if_pos (h.skip.mpr hnone), h.sameBytes_iff]
        constructor
        · rintro ⟨hsame, happlied⟩ o' ⟨rfl⟩ -
          refine .inr ⟨?_, hsame one_ne_zero⟩
          by_contra hmiss
          exact absurd (happlied ⟨o, rfl, hspecs, (h.applied_iff hnone).mpr hmiss⟩) one_ne_zero
        · intro hall
          obtain ⟨hmiss, hsame⟩ := (hall o rfl hspecs).resolve_left hskip
          refine ⟨fun _ => hsame, ?_⟩
          rintro ⟨o', ⟨rfl⟩, -, happlied⟩
          exact absurd hmiss ((h.applied_iff hnone).mp happlied)

/-- A `queue ready` that fails leaves the store as it was. -/
lemma cmdReady_fails {args : List Text} (h : (cmdReady sh s now args).code ≠ 0) :
    (cmdReady sh s now args).store = s := by
  unfold cmdReady at h ⊢
  split
  · rfl
  split
  · rfl
  split
  · rfl
  split
  · rfl
  split
  · rfl
  split
  · rfl
  split
  · rfl
  split
  · rfl
  · simp_all

lemma atomic_ready (args : List Text) : Atomic sh s ⟨.ready args, now⟩ := by
  unfold Atomic Applied
  simp only [exec]
  refine ⟨fun hcode => ?_, ?_⟩
  · rw [cmdReady_fails hcode]
    exact fun _ => rfl
  · rintro ⟨hhead, reviewer, f, t, seq, hrev, htarget, hrefuse, -⟩
    unfold readyTarget at htarget
    obtain ⟨arg, harg, htarget⟩ := Option.bind_eq_some_iff.mp htarget
    obtain ⟨opts, rfl⟩ := List.head?_eq_some_iff.mp harg
    obtain ⟨r, hr, htarget⟩ := Option.bind_eq_some_iff.mp htarget
    obtain ⟨n, hn, htarget⟩ := Option.bind_eq_some_iff.mp htarget
    obtain ⟨f', hf, htarget⟩ := Option.bind_eq_some_iff.mp htarget
    obtain ⟨t', ht, e⟩ := Option.map_eq_some_iff.mp htarget
    cases e
    have harg : arg ≠ [] := fun e => hhead (by simp [e])
    have hr : parseReady opts = some reviewer := hr
    have hpass : readyRefusal sh s (pad3 n) reviewer t = none := by
      obtain ⟨h1, h2, h3, h4, h5⟩ := readyRefusal_none hrefuse
      simp [readyRefusal, h1, h2, h3, h4, h5]
    simp [cmdReady, harg, hr, hrev, hn, hf, ht, hpass]

/-- A `queue done` that is about no ticket fails. -/
lemma cmdDone_of_none {args : List Text} (h : doneTarget sh s args = none) :
    (cmdDone sh s now args).store = s := by
  rcases cmdDone_cases sh s now args with e | ⟨f, t, hft, -⟩
  · exact e
  · rw [h] at hft
    cases hft

/-- What `queue done` does with the ticket it is about. -/
lemma cmdDone_of_some (now : ℕ) {args : List Text} {f : File} {t : Ticket}
    (hhead : args.head? ≠ some []) (h : doneTarget sh s args = some (f, t)) :
    (f.dir = .done → (cmdDone sh s now args).code ≠ 0 ∧
        (cmdDone sh s now args).store = write s f (t.complete now)) ∧
      (f.dir ≠ .done → (cmdDone sh s now args).code = 0) := by
  unfold doneTarget at h
  obtain ⟨arg, harg, hnum⟩ := Option.bind_eq_some_iff.mp h
  obtain ⟨opts, rfl⟩ := List.head?_eq_some_iff.mp harg
  obtain ⟨n, hn, hfile⟩ := Option.bind_eq_some_iff.mp hnum
  obtain ⟨f', hf, hread⟩ := Option.bind_eq_some_iff.mp hfile
  obtain ⟨t', ht, e⟩ := Option.map_eq_some_iff.mp hread
  cases e
  have harg : arg ≠ [] := fun e => hhead (by simp [e])
  constructor
  · intro hd
    simp [cmdDone, harg, hn, hf, ht, hd, fail]
  · intro hd
    simp [cmdDone, harg, hn, hf, ht, hd]

lemma atomic_done (args : List Text) :
    Atomic sh s ⟨.done args, now⟩ ↔ Truthful sh s ⟨.done args, now⟩ := by
  unfold Atomic Applied Truthful
  simp only [exec]
  by_cases hhead : args.head? = some []
  · obtain ⟨opts, rfl⟩ := List.head?_eq_some_iff.mp hhead
    simp [cmdDone, die, SameBytes]
  cases h : doneTarget sh s args with
  | none =>
    rw [cmdDone_of_none h]
    simp [SameBytes]
  | some r =>
    obtain ⟨f, t⟩ := r
    obtain ⟨hdone, hother⟩ := cmdDone_of_some now hhead h
    by_cases hd : f.dir = .done
    · -- the rewriting is made, and then reported as a failure
      obtain ⟨hcode, e⟩ := hdone hd
      have hf : (⟨.done, f.name⟩ : File) = f := by rw [← hd]
      have happlied : bytes (cmdDone sh s now args).store ⟨.done, f.name⟩ =
          some (file (t.complete now)) := by
        rw [e, hf, bytes_write, if_pos rfl]
      refine iff_of_false ?_ fun hall => hall hhead (f, t) rfl hd
      exact fun hall => hcode (hall.2 ⟨hhead, f, t, rfl, happlied⟩)
    · refine iff_of_true ⟨fun hc => absurd (hother hd) hc, fun _ => hother hd⟩ ?_
      rintro - r ⟨rfl⟩
      exact hd

/-! ### The commands, in every store -/

/-- **Queue commands report what they do**, in every store that they reach, exactly if they
are truthful: what fails is `queue done` on a completed ticket, and `queue approve` unless it
skips a ticket. -/
theorem atomic_iff_truthful (sh : Shell) (s : Store) (a : Act)
    (h : Reach (step sh) Any Store.empty s) : Atomic sh s a ↔ Truthful sh s a := by
  have hn := numbered_of_reach h
  obtain ⟨cmd, now⟩ := a
  cases cmd with
  | add args => exact iff_of_true (atomic_add hn args) trivial
  | approve args => exact atomic_approve hn args
  | ready args => exact iff_of_true (atomic_ready args) trivial
  | done args => exact atomic_done args

/-- A rig ticket and an offline ticket of `fable`, 1000 and 1001. -/
def twoTickets : List Act :=
  [⟨.add (argv ["fable", "boot", "boot it", "--needs", "rig"]), 1⟩,
    ⟨.add (argv ["fable", "docs", "write it up"]), 2⟩]

/-- An approval of both approves one and skips the other, and succeeds. -/
theorem atomic_iff_truthful_range : ∃ s, Reach (step plainShell) Any Store.empty s ∧
    (exec plainShell s ⟨.approve (argv ["1000-1001"]), 3⟩).code = 0 ∧
      Atomic plainShell s ⟨.approve (argv ["1000-1001"]), 3⟩ := by
  obtain ⟨s, hs, hp⟩ := exists_reach_of_run (step plainShell) Any Store.empty twoTickets
    (fun s => (exec plainShell s ⟨.approve (argv ["1000-1001"]), 3⟩).code = 0 ∧
      Truthful plainShell s ⟨.approve (argv ["1000-1001"]), 3⟩) (by decide +kernel)
  obtain ⟨hcode, hgood⟩ := of_decide_eq_true hp
  exact ⟨s, hs, hcode, (atomic_iff_truthful plainShell s _ hs).mpr hgood⟩

/-- An approval of the one rig ticket approves it and exits with 1; completing it a second
time rewrites it and exits with 1. -/
theorem change_reported_as_failure :
    (∃ s, Reach (step plainShell) Any Store.empty s ∧
      (exec plainShell s ⟨.approve (argv ["1000", "--by", "cj"]), 3⟩).code = 1 ∧
      ¬Atomic plainShell s ⟨.approve (argv ["1000", "--by", "cj"]), 3⟩) ∧
    ∃ s, Reach (step plainShell) Any Store.empty s ∧
      (exec plainShell s ⟨.done (argv ["1000"]), 4⟩).code = 1 ∧
      ¬Atomic plainShell s ⟨.done (argv ["1000"]), 4⟩ := by
  have hrun : ∀ (l : List Act) (a : Act) (p : File),
      (run (step plainShell) Any Store.empty l).any (fun s => (exec plainShell s a).code = 1 ∧
        bytes (exec plainShell s a).store p ≠ bytes s p) = true →
      ∃ s, Reach (step plainShell) Any Store.empty s ∧ (exec plainShell s a).code = 1 ∧
        ¬Atomic plainShell s a := by
    intro l a p h
    obtain ⟨s, hs, hp⟩ := exists_reach_of_run (step plainShell) Any Store.empty l _ h
    obtain ⟨hcode, hne⟩ := of_decide_eq_true hp
    exact ⟨s, hs, hcode, fun hat => hne (hat.1 (by rw [hcode]; exact one_ne_zero) p)⟩
  constructor
  · exact hrun twoTickets _ ⟨.active, "1000-boot.json".toList⟩ (by decide +kernel)
  · exact hrun (twoTickets ++ [⟨.done (argv ["1000"]), 3⟩]) _ ⟨.done, "1000-boot.json".toList⟩
      (by decide +kernel)

end Wallace.TicketAtomic
