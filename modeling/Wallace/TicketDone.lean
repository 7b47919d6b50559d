import Wallace.Runs
import Wallace.TicketSteps

/-!
Completed tickets stay as they are.

`tk_file` falls back from the active directory to `tickets/done`, and the commands that
rewrite what it finds do not look at where it was found. `ready` refuses a completed ticket
by its state; `approve` and `done` do not.
-/

namespace Wallace.TicketDone

open Wallace.Files Wallace.Runs Wallace.TicketModel Wallace.TicketSteps

variable {sh : Shell} {s s' : Store} {now : ℕ}

/-- The command does not reach into `tickets/done`: no number that an approval names resolves
to a rig ticket there, and a completion resolves to an active ticket whose name is not taken
there. -/
def Spares (sh : Shell) (s : Store) (a : Act) : Prop :=
  match a.cmd with
  | .approve args => ∀ o ∈ parseApprove args, ∀ w ∈ sh.words o.specs, w ≠ "all".toList →
      ∀ seq ∈ specSeqs sh w, ∀ r ∈ approvable sh s seq, r.1.dir ≠ .done
  | .done args => ∀ r ∈ doneTarget sh s args,
      r.1.dir ≠ .done ∧ read s ⟨.done, r.1.name⟩ = none
  | _ => True

instance (sh : Shell) (s : Store) (a : Act) : Decidable (Spares sh s a) :=
  match a with
  | ⟨.approve args, _⟩ => inferInstanceAs (Decidable (∀ o ∈ parseApprove args,
      ∀ w ∈ sh.words o.specs, w ≠ "all".toList →
        ∀ seq ∈ specSeqs sh w, ∀ r ∈ approvable sh s seq, r.1.dir ≠ .done))
  | ⟨.done args, _⟩ => inferInstanceAs (Decidable (∀ r ∈ doneTarget sh s args,
      r.1.dir ≠ .done ∧ read s ⟨.done, r.1.name⟩ = none))
  | ⟨.add _, _⟩ => isTrue trivial
  | ⟨.ready _, _⟩ => isTrue trivial

/-! ### Names -/

/-- An active file is named after the number and the slug of its ticket. -/
def Named (s : Store) : Prop :=
  ∀ (p : File) t, read s p = some t → p.dir = .active → p.name = ticketName t.seq t.slug

lemma isSeq_ticketName (seq slug : Text) : isSeq seq (ticketName seq slug) = true := by
  unfold isSeq ticketName
  rw [Bool.and_eq_true, List.isPrefixOf_iff_prefix, List.isSuffixOf_iff_suffix]
  exact ⟨⟨slug ++ json, by simp⟩, ⟨seq ++ '-' :: slug, by simp⟩⟩

/-- The number of an active ticket resolves to an active file. -/
lemma tkFile_active (hn : Named s) {name : Text} {t : Ticket}
    (ht : read s ⟨.active, name⟩ = some t) {f : File} (hf : tkFile sh s t.seq = some f) :
    f.dir = .active := by
  rcases tkFile_cases hf with hd | ⟨-, hnil⟩
  · exact hd
  · have hname : name = ticketName t.seq t.slug := hn ⟨.active, name⟩ t ht rfl
    have hmem : name ∈ list sh.le s .active (isSeq t.seq) :=
      mem_list.mpr ⟨⟨t, ht⟩, hname ▸ isSeq_ticketName t.seq t.slug⟩
    rw [hnil] at hmem
    cases hmem

/-! ### One command -/

/-- The completed tickets of both stores are the same. -/
def SameDone (s s' : Store) : Prop := ∀ name, read s' ⟨.done, name⟩ = read s ⟨.done, name⟩

lemma sameDone_write {f : File} (hf : f.dir ≠ .done) (t : Ticket) : SameDone s (write s f t) := by
  intro name
  have hne : (⟨.done, name⟩ : File) ≠ f := fun e => hf (e ▸ rfl)
  rw [read_write, if_neg hne]

/-- Approvals that spare `tickets/done` rewrite active files only. -/
lemma cmdApprove_spares {args : List Text} (hn : Named s) (hc : Spares sh s ⟨.approve args, now⟩) :
    SameDone s (cmdApprove sh s now args).store ∧ Named (cmdApprove sh s now args).store := by
  refine (cmdApprove_rule (P := fun σ => SameNames s σ ∧ SameDone s σ ∧ Named σ)
    ⟨fun _ => rfl, fun _ => rfl, hn⟩ ?_).2
  intro o w σ seq f t ho hw ⟨hnames, hdone, hnamed⟩ hv hft
  obtain ⟨hf, ht, hneeds⟩ := approvable_eq.mp hft
  have hactive : f.dir ≠ .done := by
    cases hv with
    | listed hname => simp [tkFile_active hnamed hname hf]
    | named hall hseq =>
      -- the number resolves as before the command, and the file there is as it was
      intro hd
      have hf' : tkFile sh s seq = some f := (tkFile_congr hnames seq).symm.trans hf
      have ht' : read s f = some t := by
        obtain ⟨d, name⟩ := f
        cases hd
        rw [← hdone name]
        exact ht
      exact hc o ho w hw hall seq hseq (f, t) (approvable_eq.mpr ⟨hf', ht', hneeds⟩) hd
  refine ⟨fun p => ?_, fun name => ?_, ?_⟩
  · rw [sameNames_write ht, hnames]
  · rw [sameDone_write hactive, hdone]
  · exact forall_read_write hnamed fun hd => hnamed f t ht hd

/-- The invariant: completed tickets have the state of one, and active files their names. -/
structure Settled (s : Store) : Prop where
  done : ∀ name t, read s ⟨.done, name⟩ = some t → t.state = .done
  named : Named s

lemma Settled.of_same (h : Settled s) (hd : SameDone s s') (hn : Named s') : Settled s' :=
  ⟨fun name t ht => h.done name t ((hd name).symm.trans ht), hn⟩

lemma SameDone.keeps (h : SameDone s s') {name : Text} {t : Ticket}
    (ht : read s ⟨.done, name⟩ = some t) : read s' ⟨.done, name⟩ = some t :=
  (h name).trans ht

/-- **What one command preserves.** -/
theorem settled_step {a : Act} (h : Settled s) (hc : Spares sh s a)
    (hs : step sh s a = some s') :
    Settled s' ∧
      ∀ name t, read s ⟨.done, name⟩ = some t → read s' ⟨.done, name⟩ = some t := by
  obtain ⟨cmd, now⟩ := a
  cases hs
  cases cmd with
  | add args =>
    simp only [exec]
    rcases cmdAdd_cases sh s now args with e | ⟨t, -, e⟩
    · rw [e]
      exact ⟨h, fun _ _ => id⟩
    · have hd : SameDone s (write s ⟨.active, ticketName t.seq t.slug⟩ t) :=
        sameDone_write (by simp) t
      rw [e]
      exact ⟨h.of_same hd (forall_read_write h.named fun _ => rfl), fun _ _ => hd.keeps⟩
  | approve args =>
    obtain ⟨hd, hn⟩ := cmdApprove_spares h.named hc
    exact ⟨h.of_same hd hn, fun _ _ => hd.keeps⟩
  | ready args =>
    simp only [exec]
    rcases cmdReady_cases sh s now args with e | ⟨reviewer, f, t, seq, -, ht, hrefuse, e⟩
    · rw [e]
      exact ⟨h, fun _ _ => id⟩
    · -- a completed ticket is not approved, and `ready` refuses it
      have hactive : f.dir ≠ .done := by
        intro hf
        obtain ⟨d, name⟩ := f
        cases hf
        have hstate := (readyRefusal_none hrefuse).2.1
        rw [h.done name t ht] at hstate
        cases hstate
      have hd : SameDone s (write s f (t.ready reviewer now)) := sameDone_write hactive _
      rw [e]
      exact ⟨h.of_same hd (forall_read_write h.named fun hf => h.named f t ht hf),
        fun _ _ => hd.keeps⟩
  | done args =>
    simp only [exec]
    rcases cmdDone_cases sh s now args with e | ⟨f, t, htarget, ht, ⟨hf, -⟩ | e⟩
    · rw [e]
      exact ⟨h, fun _ _ => id⟩
    · exact absurd hf (hc _ htarget).1
    · obtain ⟨hf, hfree⟩ := hc _ htarget
      rw [e]
      refine ⟨⟨fun name u hu => ?_, ?_⟩, fun name u hu => ?_⟩
      · rw [read_move] at hu
        split at hu
        · cases hu
          rfl
        · split at hu
          · cases hu
          · exact h.done name u hu
      · exact forall_read_move h.named fun hd => by cases hd
      · have hne : (⟨.done, name⟩ : File) ≠ ⟨.done, f.name⟩ := by
          rintro ⟨rfl⟩
          rw [hfree] at hu
          cases hu
        have hnf : (⟨.done, name⟩ : File) ≠ f := fun e => hf (e ▸ rfl)
        rw [read_move, if_neg hne, if_neg hnf]
        exact hu

/-! ### Every run -/

/-- **Completion is terminal**: in every run of commands that spare `tickets/done`, a ticket
that is there has the state `done` and stays there unchanged. -/
theorem completed_stays (sh : Shell) (s s' : Store) (name : Text) (t : Ticket)
    (h : Reach (step sh) (Spares sh) Store.empty s) (ht : read s ⟨.done, name⟩ = some t)
    (h' : Reach (step sh) (Spares sh) s s') :
    t.state = .done ∧ read s' ⟨.done, name⟩ = some t := by
  have hempty : Settled Store.empty :=
    ⟨fun name t ht => by simp at ht, fun p t ht => by simp at ht⟩
  have hsettled : Settled s := h.invariant Settled hempty fun s a s' hi hc hs =>
    (settled_step hi hc hs).1
  refine ⟨hsettled.done name t ht, ?_⟩
  refine (h'.invariant (fun s => Settled s ∧ read s ⟨.done, name⟩ = some t) ⟨hsettled, ht⟩ ?_).2
  intro s a s' hi hc hs
  obtain ⟨hset, hkeep⟩ := settled_step hi.1 hc hs
  exact ⟨hset, hkeep name t hi.2⟩

/-- A rig ticket of `fable` with the number 1000, completed. -/
def completedRun : List Act :=
  [⟨.add (argv ["fable", "boot", "boot it", "--needs", "rig"]), 1⟩, ⟨.done (argv ["1000"]), 2⟩]

def completedName : Text := "1000-boot.json".toList

/-- An approval of the active ticket 1001 leaves the completed ticket 1000 alone. -/
theorem completed_stays_approve : ∃ s s' t,
    Reach (step plainShell) (Spares plainShell) Store.empty s ∧
      Reach (step plainShell) (Spares plainShell) s s' ∧
      read s ⟨.done, completedName⟩ = some t ∧
      t.state = .done ∧ read s' ⟨.done, completedName⟩ = some t := by
  obtain ⟨s, hs, hp⟩ := exists_reach_of_run (step plainShell) (Spares plainShell) Store.empty
    completedRun (fun s => (read s ⟨.done, completedName⟩).isSome &&
      (run (step plainShell) (Spares plainShell) s
        [⟨.add (argv ["fable", "smp", "boot all", "--needs", "rig"]), 3⟩,
          ⟨.approve (argv ["1001"]), 4⟩]).isSome) (by decide +kernel)
  rw [Bool.and_eq_true] at hp
  obtain ⟨t, ht⟩ := Option.isSome_iff_exists.mp hp.1
  obtain ⟨s', hs'⟩ := Option.isSome_iff_exists.mp hp.2
  have hr := reach_of_run hs'
  exact ⟨s, s', t, hs, hr, ht, completed_stays plainShell s s' completedName t hs ht hr⟩

/-- A range approval that passes over the number of a completed rig ticket makes it an
approved one again, in `tickets/done`; and completing it twice rewrites it. -/
theorem completed_rewritten :
    (∃ s s' t t', Reach (step plainShell) Any Store.empty s ∧ Reach (step plainShell) Any s s' ∧
      read s ⟨.done, completedName⟩ = some t ∧ read s' ⟨.done, completedName⟩ = some t' ∧
      t.state = .done ∧ t'.state = .approved) ∧
    ∃ s s' t t', Reach (step plainShell) Any Store.empty s ∧ Reach (step plainShell) Any s s' ∧
      read s ⟨.done, completedName⟩ = some t ∧ read s' ⟨.done, completedName⟩ = some t' ∧
      t.doneAt ≠ t'.doneAt := by
  have hrun : ∀ (a : Act) (p : Ticket → Ticket → Bool),
      (run (step plainShell) Any Store.empty completedRun).any (fun s =>
        (read s ⟨.done, completedName⟩).any fun t => (step plainShell s a).any fun s' =>
          (read s' ⟨.done, completedName⟩).any fun t' => p t t') = true →
      ∃ s s' t t', Reach (step plainShell) Any Store.empty s ∧ Reach (step plainShell) Any s s' ∧
        read s ⟨.done, completedName⟩ = some t ∧ read s' ⟨.done, completedName⟩ = some t' ∧
        p t t' = true := by
    intro a p h
    obtain ⟨s, hs, hp⟩ := exists_reach_of_run (step plainShell) Any Store.empty completedRun _ h
    simp only [Option.any_eq_true] at hp
    obtain ⟨t, ht, s', hs', t', ht', hp⟩ := hp
    exact ⟨s, s', t, t', hs, (Reach.refl s).snoc trivial hs', ht, ht', hp⟩
  constructor
  · obtain ⟨s, s', t, t', hs, hs', ht, ht', hp⟩ := hrun ⟨.approve (argv ["999-1001"]), 3⟩
      (fun t t' => t.state = .done ∧ t'.state = .approved) (by decide)
    exact ⟨s, s', t, t', hs, hs', ht, ht', of_decide_eq_true hp⟩
  · obtain ⟨s, s', t, t', hs, hs', ht, ht', hp⟩ := hrun ⟨.done (argv ["1000"]), 3⟩
      (fun t t' => t.doneAt ≠ t'.doneAt) (by decide)
    exact ⟨s, s', t, t', hs, hs', ht, ht', of_decide_eq_true hp⟩

end Wallace.TicketDone
