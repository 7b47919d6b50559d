import Wallace.Runs
import Wallace.TicketSteps

/-!
What `queue next` offers has passed the gate.

`queue next` itself looks at `needs`, `state`, `runnable` and the dependencies; that a
runnable ticket has hashes and was reviewed by another agent since it was last approved is
an invariant of every file of the store.
-/

namespace Wallace.TicketGate

open Wallace.Files Wallace.Runs Wallace.TicketModel Wallace.TicketSteps

variable {sh : Shell} {s s' : Store} {t : Ticket} {now : ℕ}

/-- No approval among the marks. -/
def NoApproval (l : List Mark) : Prop := ∀ m ∈ l, ∀ b, m ≠ .approve b

/-- The ticket was approved. -/
def Approved (t : Ticket) : Prop :=
  ∃ mid b older, t.history = mid ++ .approve b :: older ∧ NoApproval mid

/-- A `ready` that names a reviewer other than the author was executed on the ticket after
its most recent approval. -/
def ReviewedSince (t : Ticket) : Prop :=
  ∃ newer reviewer mid b older,
    t.history = newer ++ .ready reviewer :: (mid ++ .approve b :: older) ∧
      NoApproval newer ∧ NoApproval mid ∧ reviewer ≠ t.author

/-- At least one hash is pinned. -/
def Pinned (t : Ticket) : Prop :=
  ∃ h, t.hashes = some h ∧ (h.image ≠ [] ∨ h.dtb ≠ [] ∨ h.initramfs ≠ [])

/-- The dependency is in `tickets/done`. -/
def DepDone (s : Store) (dep : Text) : Prop :=
  ∃ name c, read s ⟨.done, name⟩ = some c ∧ isSeq dep name = true

/-! ### The invariant -/

/-- What holds of every ticket of the store. -/
structure Gated (t : Ticket) : Prop where
  hashes : t.hashes ≠ none → Pinned t
  approved : t.state = .approved → Approved t
  runnable : t.runnable = some true → t.hashes ≠ none ∧ ReviewedSince t
  deps : [] ∉ t.deps

lemma gated_approve (h : Gated t) (b : Text) : Gated (t.approve b now) where
  hashes := h.hashes
  approved := fun _ => ⟨[], b, t.history, rfl, by simp [NoApproval]⟩
  runnable := fun hr => by simp [Ticket.approve] at hr
  deps := h.deps

lemma gated_ready (h : Gated t) {reviewer : Text} (hstate : t.state = .approved)
    (hhashes : t.hashes ≠ none) (hne : reviewer ≠ t.author) :
    Gated (t.ready reviewer now) := by
  obtain ⟨mid, b, older, e, hmid⟩ := h.approved hstate
  refine ⟨h.hashes, fun _ => ⟨.ready reviewer :: mid, b, older, ?_, ?_⟩, fun _ => ⟨hhashes, ?_⟩,
    h.deps⟩
  · simp [Ticket.ready, e]
  · intro m hm b'
    rcases List.mem_cons.mp hm with rfl | hm
    · simp
    · exact hmid m hm b'
  · exact ⟨[], reviewer, mid, b, older, by simp [Ticket.ready, e], by simp [NoApproval], hmid, hne⟩

lemma gated_complete (h : Gated t) : Gated (t.complete now) where
  hashes := h.hashes
  approved := fun hs => by simp [Ticket.complete] at hs
  runnable := h.runnable
  deps := h.deps

/-! ### The arguments -/

/-- The values that `queue add` is given with `--dep`. -/
def depArgs (opts : List Text) : Option (List Text) :=
  parseOpts (· ∈ addOptions) (fun l k v => if k = "--dep".toList then l ++ [v] else l)
    (fun l _ => l) [] opts

/-- Two option loops that take the same options keep what each of their turns keeps. -/
lemma parseOpts_rel {O O' : Type} {isOpt : Text → Bool} {set : O → Text → Text → O}
    {other : O → Text → O} {set' : O' → Text → Text → O'} {other' : O' → Text → O'}
    (R : O → O' → Prop) (hset : ∀ o o' k v, isOpt k = true → R o o' → R (set o k v) (set' o' k v))
    (hother : ∀ o o' k, R o o' → R (other o k) (other' o' k)) {args : List Text} {o r : O} {o' : O'}
    (h : R o o') (hr : parseOpts isOpt set other o args = some r) :
    ∃ r', parseOpts isOpt set' other' o' args = some r' ∧ R r r' := by
  induction o, args using parseOpts.induct isOpt set other generalizing o' with
  | case1 o =>
    cases hr
    exact ⟨o', rfl, h⟩
  | case2 o k hk => simp [parseOpts, hk] at hr
  | case3 o k hk =>
    simp only [parseOpts, hk] at hr ⊢
    cases hr
    exact ⟨_, rfl, hother o o' k h⟩
  | case4 o k v rest hk ih =>
    simp only [parseOpts, hk] at hr ⊢
    exact ih (hset o o' k v hk h) hr
  | case5 o k v rest hk ih =>
    simp only [parseOpts, hk] at hr ⊢
    exact ih (hother o o' k h) hr

/-- The recorded dependencies are the `--dep` values, padded. -/
lemma parseAdd_deps {opts : List Text} {o : AddOpts} (h : parseAdd sh opts = some o) :
    ∃ l, depArgs opts = some l ∧ o.deps = l.map fun v => padded sh (orZero v) := by
  refine parseOpts_rel
    (fun (o : AddOpts) (l : List Text) => o.deps = l.map fun v => padded sh (orZero v))
    ?_ (fun _ _ _ h => h) rfl h
  intro o l k v hk e
  unfold AddOpts.set
  split_ifs <;> simp_all

/-- What the gate needs of a command. Every `--dep` is a number to the shell; and a reviewer
whose name ends in a newline is not the author of the ticket, since `$(…)` drops that newline
from the author's name before the two are compared. -/
def Careful (sh : Shell) (s : Store) (a : Act) : Prop :=
  match a.cmd with
  | .add args => ∀ l ∈ depArgs (args.drop 3), ∀ v ∈ l, (base10 sh (orZero v)).isSome = true
  | .ready args => ∀ r ∈ readyTarget sh s args,
      ¬(r.1.getLast? = some '\n' ∧ r.2.2.author = r.1)
  | _ => True

lemma gated_makes {args : List Text} (hc : ∀ l ∈ depArgs (args.drop 3), ∀ v ∈ l,
    (base10 sh (orZero v)).isSome = true) (h : Makes sh s now args t) : Gated t := by
  obtain ⟨agent, slug, desc, opts, o, needs, n, rfl, ho, -, rfl⟩ := h
  refine ⟨fun hh => ?_, fun hs => ?_, fun hr => ?_, ?_⟩
  · simp only [newTicket] at hh
    split_ifs at hh with hempty
    · exact absurd rfl hh
    · refine ⟨⟨o.img, o.dtb, o.init⟩, by simp [newTicket, hempty], ?_⟩
      by_contra hn
      push Not at hn
      exact hempty hn
  · simp only [newTicket] at hs
    split at hs <;> cases hs
  · simp [newTicket] at hr
  · obtain ⟨l, hl, e⟩ := parseAdd_deps ho
    intro hmem
    simp only [newTicket] at hmem
    rw [e] at hmem
    obtain ⟨v, hv, hnil⟩ := List.mem_map.mp hmem
    obtain ⟨m, hm⟩ := Option.isSome_iff_exists.mp (hc l hl v hv)
    simp only [padded, hm, Option.map_some, Option.getD_some] at hnil
    exact pad3_ne_nil m hnil

/-- Where the newline does not matter, the comparison is one of names. -/
lemma reviewer_ne {reviewer : Text} (hstrip : strip t.author ≠ reviewer)
    (hc : ¬(reviewer.getLast? = some '\n' ∧ t.author = reviewer)) : reviewer ≠ t.author := by
  rintro rfl
  apply hstrip
  unfold strip
  rw [List.rdropWhile_eq_self_iff]
  intro hne hlast
  refine hc ⟨?_, rfl⟩
  rw [List.getLast?_eq_some_getLast hne]
  simpa using hlast

/-- **What one command preserves.** -/
theorem gated_step {a : Act} (h : ∀ p t, read s p = some t → Gated t) (hc : Careful sh s a)
    (hs : step sh s a = some s') : ∀ p t, read s' p = some t → Gated t := by
  obtain ⟨cmd, now⟩ := a
  cases hs
  cases cmd with
  | add args =>
    rcases cmdAdd_cases sh s now args with e | ⟨t, ht, e⟩
    · simpa only [exec, e] using h
    · simp only [exec, e]
      exact forall_read_write h (gated_makes hc ht)
  | approve args =>
    refine cmdApprove_rule (P := fun s => ∀ p t, read s p = some t → Gated t) h ?_
    intro o w s seq f t _ _ h _ hft
    have ht := (approvable_eq.mp hft).2.1
    exact forall_read_write h (gated_approve (h f t ht) o.by')
  | ready args =>
    rcases cmdReady_cases sh s now args with e | ⟨reviewer, f, t, seq, htarget, ht, hrefuse, e⟩
    · simpa only [exec, e] using h
    · obtain ⟨-, hstate, hstrip, hhashes, -⟩ := readyRefusal_none hrefuse
      have hne := reviewer_ne hstrip (hc _ htarget)
      simp only [exec, e]
      exact forall_read_write h (gated_ready (h f t ht) hstate hhashes hne)
  | done args =>
    rcases cmdDone_cases sh s now args with e | ⟨f, t, -, ht, ⟨-, e⟩ | e⟩
    · simpa only [exec, e] using h
    · simp only [exec, e]
      exact forall_read_write h (gated_complete (h f t ht))
    · simp only [exec, e]
      exact forall_read_move h (gated_complete (h f t ht))

instance (sh : Shell) (s : Store) (a : Act) : Decidable (Careful sh s a) :=
  match a with
  | ⟨.add args, _⟩ => inferInstanceAs (Decidable (∀ l ∈ depArgs (args.drop 3), ∀ v ∈ l,
      (base10 sh (orZero v)).isSome = true))
  | ⟨.ready args, _⟩ => inferInstanceAs (Decidable (∀ r ∈ readyTarget sh s args,
      ¬(r.1.getLast? = some '\n' ∧ r.2.2.author = r.1)))
  | ⟨.approve _, _⟩ => isTrue trivial
  | ⟨.done _, _⟩ => isTrue trivial

/-! ### The offer -/

/-- What `queue next` prints is a ticket of the store that `tk_rig_ready` accepts. -/
lemma cmdNext_eq (h : cmdNext sh s = some t) :
    (∃ f, read s f = some t) ∧ t.needs = .rig ∧ t.state = .approved ∧ t.runnable = some true ∧
      tkDepsDone sh s t = true := by
  obtain ⟨f, -, hf⟩ := List.exists_of_findSome?_eq_some h
  obtain ⟨hread, hready⟩ := Option.filter_eq_some_iff.mp hf
  unfold tkRigReady at hready
  exact ⟨⟨f, hread⟩, of_decide_eq_true hready⟩

lemma depDone_of_tkDepsDone (h : tkDepsDone sh s t = true) (hne : [] ∉ t.deps) :
    ∀ dep ∈ t.deps, DepDone s dep := by
  intro dep hdep
  have hd := List.all_eq_true.mp h dep hdep
  have hdep' : dep ≠ [] := fun e => hne (e ▸ hdep)
  simp only [hdep', decide_false, Bool.false_or, Bool.not_eq_true', List.isEmpty_eq_false_iff]
    at hd
  obtain ⟨name, hname⟩ := List.exists_mem_of_ne_nil _ hd
  obtain ⟨⟨c, hc⟩, hsel⟩ := mem_list.mp hname
  exact ⟨name, c, hc, hsel⟩

/-- Everything the gate promises of an offered ticket. -/
def PassedGate (s : Store) (t : Ticket) : Prop :=
  t.needs = .rig ∧ t.state = .approved ∧ Pinned t ∧ (∀ dep ∈ t.deps, DepDone s dep) ∧
    ReviewedSince t

/-- **An offered ticket has passed the gate**, in every store that commands reach from the
empty one, if their dependencies are numbers and no author reviews under a name that ends
in a newline. -/
theorem offered_passed_gate (sh : Shell) (s : Store) (t : Ticket)
    (h : Reach (step sh) (Careful sh) Store.empty s) (ht : cmdNext sh s = some t) :
    PassedGate s t := by
  have hgated := h.invariant (fun s => ∀ p t, read s p = some t → Gated t)
    (fun p t hp => by simp at hp) fun s a s' hi hc hs => gated_step hi hc hs
  obtain ⟨⟨f, hf⟩, hneeds, hstate, hrun, hdeps⟩ := cmdNext_eq ht
  have hg := hgated f t hf
  obtain ⟨hhashes, hreviewed⟩ := hg.runnable hrun
  exact ⟨hneeds, hstate, hg.hashes hhashes, depDone_of_tkDepsDone hdeps hg.deps, hreviewed⟩

/-- A rig ticket of `author`, approved and then readied by `reviewer`. -/
def reviewRun (author reviewer number : String) (opts : List String) : List Act :=
  [⟨.add (argv ([author, "boot", "boot it", "--needs", "rig", "--image", "5f"] ++ opts)), 1⟩,
    ⟨.approve (argv [number]), 2⟩, ⟨.ready (argv [number, "--reviewed-by", reviewer]), 3⟩]

/-- A ticket that `fable` adds and `opus` reviews is offered. -/
theorem offered_passed_gate_reviewed : ∃ s t,
    Reach (step plainShell) (Careful plainShell) Store.empty s ∧
      cmdNext plainShell s = some t ∧ PassedGate s t := by
  obtain ⟨s, hs, hn⟩ := exists_reach_of_run (step plainShell) (Careful plainShell) Store.empty
    (reviewRun "fable" "opus" "1000" []) (fun s => (cmdNext plainShell s).isSome) (by decide)
  obtain ⟨t, ht⟩ := Option.isSome_iff_exists.mp hn
  exact ⟨s, t, hs, ht, offered_passed_gate plainShell s t hs ht⟩

/-- Without the condition: a mistyped `--dep` is recorded as the empty text and not looked
for, and an author whose name ends in a newline passes as the reviewer of its own ticket. -/
theorem offered_without_gate :
    (∃ s t, Reach (step plainShell) Any Store.empty s ∧ cmdNext plainShell s = some t ∧
      ¬∀ dep ∈ t.deps, DepDone s dep) ∧
    ∃ s t, Reach (step plainShell) Any Store.empty s ∧ cmdNext plainShell s = some t ∧
      ¬ReviewedSince t := by
  constructor
  · obtain ⟨s, hs, hn⟩ := exists_reach_of_run (step plainShell) Any Store.empty
      (reviewRun "fable" "opus" "1000" ["--dep", "x12"])
      (fun s => (cmdNext plainShell s).any (fun t => [] ∈ t.deps) && (s .done).keys.isEmpty)
      (by decide)
    simp only [Bool.and_eq_true, Option.any_eq_true, decide_eq_true_eq, List.isEmpty_iff] at hn
    obtain ⟨⟨t, ht, hdep⟩, hempty⟩ := hn
    refine ⟨s, t, hs, ht, fun h => ?_⟩
    obtain ⟨name, c, hc, -⟩ := h [] hdep
    have hmem : name ∈ (s .done).keys :=
      AList.mem_keys.mp (AList.lookup_isSome.mp (Option.isSome_iff_exists.mpr ⟨c, hc⟩))
    rw [hempty] at hmem
    cases hmem
  · obtain ⟨s, hs, hn⟩ := exists_reach_of_run (step plainShell) Any Store.empty
      (reviewRun "fable\n" "fable\n" "1" [])
      (fun s => (cmdNext plainShell s).any fun t =>
        t.history = [.ready t.author, .approve "maintainer".toList])
      (by decide)
    simp only [Option.any_eq_true, decide_eq_true_eq] at hn
    obtain ⟨t, ht, hh⟩ := hn
    refine ⟨s, t, hs, ht, ?_⟩
    rintro ⟨newer, reviewer, mid, b, older, e, -, -, hne⟩
    have hmem : .ready reviewer ∈ t.history := by simp [e]
    rw [hh] at hmem
    simp at hmem
    exact hne hmem

end Wallace.TicketGate
