import Mathlib.Data.Set.Finite.List
import Mathlib.Order.WellFoundedSet
import Mathlib.Tactic.Common
import Wallace.Checks
import Wallace.History
import Wallace.PciePlan

/-!
The PCIe plan powers parents first.

What one gate emits is closed: it has the rows of everything above its device, each after the rows
above it. So has what several gates emit one after the other.
-/

namespace Wallace.PciePower

open Wallace.PciePlan
open Script (Text)

/-! ### The graph -/

section Graph

variable (pmgr : Pmgr)

/-- The first device is a parent of the second. Device 0 is none. -/
def Parent (a d : ℕ) : Prop :=
  a ≠ 0 ∧ d ≠ 0 ∧ ∃ dev, byId pmgr d = some dev ∧ a ∈ dev.parents

/-- Through any number of parents, at least one. -/
def Ancestor : ℕ → ℕ → Prop := Relation.TransGen (Parent pmgr)

/-- The device is that of the gate or above it. -/
def Reached (d gate : ℕ) : Prop := gate ≠ 0 ∧ Relation.ReflTransGen (Parent pmgr) d gate

/-- Nothing is above itself, and all devices that are referred to are there. -/
structure Sound : Prop where
  acyclic : ∀ d, ¬ Ancestor pmgr d d
  present : ∀ d dev, byId pmgr d = some dev → ∀ a ∈ dev.parents, a ≠ 0 → (byId pmgr a).isSome

/-- The row of a device on a die; virtual devices have none. -/
def RowFor (d die : ℕ) (w : Write) : Prop :=
  d ≠ 0 ∧ ∃ dev, byId pmgr d = some dev ∧ dev.critical = false ∧
    w = ⟨.pmgr, gateSource d dev.name, gateAddress dev die, 4, .rmw, pmgrMask, pmgrActive⟩

/-- What rows must be to power the devices of gates, each an id with a die. -/
structure Powers (gates : List (ℕ × ℕ)) (rows : List Write) : Prop where
  reached : ∀ w ∈ rows, ∃ gate ∈ gates, ∃ d, Reached pmgr d gate.1 ∧ RowFor pmgr d gate.2 w
  complete : ∀ gate ∈ gates, ∀ d, Reached pmgr d gate.1 → ∀ w, RowFor pmgr d gate.2 w → w ∈ rows
  ordered : ∀ before w after, rows = before ++ w :: after → ∀ d die, RowFor pmgr d die w →
    ∀ a, Ancestor pmgr a d → ∀ w', RowFor pmgr a die w' → w' ∈ before

end Graph

section Rows

variable {pmgr : Pmgr}

lemma takeWhile_decimal (n : ℕ) (t : Text) :
    (Shell.decimal n ++ ':' :: t).takeWhile (· ≠ ':') = Shell.decimal n := by
  have hn : ∀ x ∈ Shell.decimal n, (decide (x ≠ ':')) = true := by
    intro x hx
    refine decide_eq_true ?_
    rintro rfl
    exact Shell.not_mem_decimal (by decide) hx
  rw [List.takeWhile_append_of_pos hn, List.takeWhile_cons_of_neg (by decide), List.append_nil]

/-- The source of a row says which device it is for. -/
lemma gateSource_injective {n n' : ℕ} {t t' : Text} (h : gateSource n t = gateSource n' t') :
    n = n' := by
  unfold gateSource at h
  rw [List.append_assoc, List.append_assoc] at h
  have hcut := congrArg (List.takeWhile (· ≠ ':')) (List.append_cancel_left h)
  rw [takeWhile_decimal, takeWhile_decimal] at hcut
  rw [← Shell.number_decimal n, hcut, Shell.number_decimal]

/-- A row says which device it is for, and on which die. -/
lemma RowFor.unique {d die d' die' : ℕ} {w : Write} (h : RowFor pmgr d die w)
    (h' : RowFor pmgr d' die' w) : d = d' ∧ die = die' := by
  obtain ⟨-, dev, hdev, -, hw⟩ := h
  obtain ⟨-, dev', hdev', -, hw'⟩ := h'
  rw [hw] at hw'
  obtain ⟨-, hsource, haddr, -⟩ := Write.mk.inj hw'
  obtain rfl := gateSource_injective hsource
  rw [hdev] at hdev'
  obtain rfl := Option.some.inj hdev'
  unfold gateAddress at haddr
  exact ⟨rfl, by omega⟩

lemma Powers.nil : Powers pmgr [] [] := by
  refine ⟨by simp, by simp, fun before w after h => ?_⟩
  exact absurd h (by simp)

/-- **One after the other.** -/
lemma Powers.append {gates gates' : List (ℕ × ℕ)} {rows rows' : List Write}
    (h : Powers pmgr gates rows) (h' : Powers pmgr gates' rows') :
    Powers pmgr (gates ++ gates') (rows ++ rows') where
  reached := by
    intro w hw
    rcases List.mem_append.mp hw with hw | hw
    · obtain ⟨gate, hgate, hd⟩ := h.reached w hw
      exact ⟨gate, List.mem_append_left _ hgate, hd⟩
    · obtain ⟨gate, hgate, hd⟩ := h'.reached w hw
      exact ⟨gate, List.mem_append_right _ hgate, hd⟩
  complete := by
    intro gate hgate d hd w hw
    rcases List.mem_append.mp hgate with hgate | hgate
    · exact List.mem_append_left _ (h.complete gate hgate d hd w hw)
    · exact List.mem_append_right _ (h'.complete gate hgate d hd w hw)
  ordered := by
    intro before w after hsplit d die hw a ha w' hw'
    rcases History.split_append hsplit with ⟨after', hl⟩ | ⟨before', rfl, hl⟩
    · exact h.ordered before w after' hl d die hw a ha w' hw'
    · exact List.mem_append_right _ (h'.ordered before' w after hl d die hw a ha w' hw')

lemma Powers.flatten {gates : List (ℕ × ℕ)} {parts : List (List Write)}
    (h : List.Forall₂ (fun gate rows => Powers pmgr [gate] rows) gates parts) :
    Powers pmgr gates parts.flatten := by
  induction h with
  | nil => exact .nil
  | cons hp _ ih => exact hp.append ih

/-- Above a device that is not the gate's own there is a parent of the gate. -/
lemma reached_cases {d gate : ℕ} (h : Reached pmgr d gate) :
    d = gate ∨ ∃ a, Parent pmgr a gate ∧ Reached pmgr d a := by
  rcases Relation.ReflTransGen.cases_tail h.2 with heq | ⟨a, hda, hpar⟩
  · exact .inl heq.symm
  · exact .inr ⟨a, hpar, hpar.1, hda⟩

lemma Reached.of_parent {d a gate : ℕ} (hpar : Parent pmgr a gate) (h : Reached pmgr d a) :
    Reached pmgr d gate := ⟨hpar.2.1, h.2.tail hpar⟩

lemma reached_of_ancestor {a gate : ℕ} (h : Ancestor pmgr a gate) :
    ∃ b, Parent pmgr b gate ∧ Reached pmgr a b := by
  obtain ⟨b, hab, hpar⟩ := Relation.TransGen.tail'_iff.mp h
  exact ⟨b, hpar, hpar.1, hab⟩

/-- **A device after its parents.** -/
lemma Powers.own {id die : ℕ} {dev : Device} {above own : List Write} (hid : id ≠ 0)
    (hdev : byId pmgr id = some dev)
    (habove : Powers pmgr ((dev.parents.filter (· ≠ 0)).map fun a => (a, die)) above)
    (hown : ∀ w, w ∈ own ↔ RowFor pmgr id die w) :
    Powers pmgr [(id, die)] (above ++ own) := by
  have hpar : ∀ a, a ∈ dev.parents.filter (· ≠ 0) ↔ Parent pmgr a id := by
    intro a
    rw [List.mem_filter, decide_eq_true_eq]
    constructor
    · exact fun h => ⟨h.2, hid, dev, hdev, h.1⟩
    · rintro ⟨ha, -, dev', hdev', hmem⟩
      rw [hdev] at hdev'
      obtain rfl := Option.some.inj hdev'
      exact ⟨hmem, ha⟩
  have hall : ∀ a, Parent pmgr a id → ∀ d, Reached pmgr d a → ∀ w, RowFor pmgr d die w →
      w ∈ above := by
    intro a ha d hd w hw
    exact habove.complete (a, die) (List.mem_map_of_mem ((hpar a).mpr ha)) d hd w hw
  refine ⟨fun w hw => ⟨(id, die), List.mem_singleton_self _, ?_⟩, fun gate hgate d hd w hw => ?_,
    fun before w after hsplit d die' hw a ha w' hw' => ?_⟩
  · rcases List.mem_append.mp hw with hw | hw
    · obtain ⟨gate, hgate, d, hd, hrow⟩ := habove.reached w hw
      obtain ⟨a, ha, rfl⟩ := List.mem_map.mp hgate
      exact ⟨d, hd.of_parent ((hpar a).mp ha), hrow⟩
    · exact ⟨id, ⟨hid, .refl⟩, (hown w).mp hw⟩
  · obtain rfl := List.mem_singleton.mp hgate
    rcases reached_cases hd with rfl | ⟨a, ha, hda⟩
    · exact List.mem_append_right _ ((hown w).mpr hw)
    · exact List.mem_append_left _ (hall a ha d hda w hw)
  · rcases History.split_append hsplit with ⟨after', hl⟩ | ⟨before', rfl, hl⟩
    · exact habove.ordered before w after' hl d die' hw a ha w' hw'
    · -- the row of the device itself, after everything above it
      have hmem : w ∈ own := by
        rw [hl]
        simp
      obtain ⟨rfl, rfl⟩ := hw.unique ((hown w).mp hmem)
      obtain ⟨b, hb, hab⟩ := reached_of_ancestor ha
      exact List.mem_append_left _ (hall b hb a hab w' hw')

end Rows

/-! ### Parts in order -/

section Parts

lemma inOrder_cons (r : Rows) (l : List Rows) :
    inOrder (r :: l) = r.bind fun rows => (inOrder l).map (rows ++ ·) := by
  unfold inOrder
  rw [List.mapM_cons]
  cases r with
  | error e => rfl
  | ok rows =>
    cases hl : l.mapM id with
    | error e => simp only [id, bind, Except.bind, Except.map]
    | ok parts => simp only [id, bind, Except.bind, Except.map, pure, Except.pure,
        List.flatten_cons]

/-- What is emitted in order is what all parts emit. -/
lemma inOrder_eq_ok_iff {l : List Rows} {rows : List Write} :
    inOrder l = .ok rows ↔ ∃ parts : List (List Write), l = parts.map .ok ∧
      rows = parts.flatten := by
  induction l generalizing rows with
  | nil =>
    constructor
    · intro h
      exact ⟨[], rfl, (Except.ok.inj h).symm⟩
    · rintro ⟨parts, hnil, rfl⟩
      rw [List.map_eq_nil_iff.mp hnil.symm]
      rfl
  | cons r l ih =>
    rw [inOrder_cons]
    constructor
    · intro h
      cases r with
      | error e => cases h
      | ok own =>
        cases hl : inOrder l with
        | error e => rw [hl] at h; cases h
        | ok rest =>
          rw [hl] at h
          obtain rfl := Except.ok.inj h
          obtain ⟨parts, rfl, rfl⟩ := ih.mp hl
          exact ⟨own :: parts, rfl, rfl⟩
    · rintro ⟨parts, hl, rfl⟩
      cases parts with
      | nil => cases hl
      | cons own parts =>
        obtain ⟨rfl, rfl⟩ := List.cons.inj hl
        rw [ih.mpr ⟨parts, rfl, rfl⟩]
        rfl

/-- Parts that each end have one bound for all. -/
lemma inOrder_of_forall {f : ℕ → ℕ → Rows} {G : ℕ → List Write → Prop} {l : List ℕ}
    (h : ∀ x ∈ l, ∃ enough rows, G x rows ∧ ∀ fuel, enough ≤ fuel → f fuel x = .ok rows) :
    ∃ enough parts, List.Forall₂ G l parts ∧
      ∀ fuel, enough ≤ fuel → inOrder (l.map (f fuel)) = .ok parts.flatten := by
  induction l with
  | nil => exact ⟨0, [], .nil, fun _ _ => rfl⟩
  | cons x l ih =>
    obtain ⟨enough, rows, hg, hx⟩ := h x List.mem_cons_self
    obtain ⟨enough', parts, hgs, hl⟩ := ih fun y hy => h y (List.mem_cons_of_mem _ hy)
    refine ⟨max enough enough', rows :: parts, .cons hg hgs, fun fuel hfuel => ?_⟩
    rw [List.map_cons, inOrder_cons, hx fuel (by omega), hl fuel (by omega)]
    rfl

end Parts

/-! ### One gate -/

section Gate

variable {pmgr : Pmgr}

lemma finite_present (pmgr : Pmgr) : {d | (byId pmgr d).isSome}.Finite := by
  refine (List.finite_toSet (pmgr.map Device.id)).subset fun d hd => ?_
  obtain ⟨dev, hdev⟩ := Option.isSome_iff_exists.mp hd
  have hid : dev.id = d := by simpa using List.find?_some hdev
  have hmem : dev ∈ pmgr := List.mem_reverse.mp (List.mem_of_find?_eq_some hdev)
  exact List.mem_map.mpr ⟨dev, hmem, hid⟩

/-- Going up comes to an end. -/
lemma Sound.wellFoundedOn (h : Sound pmgr) :
    {d | (byId pmgr d).isSome}.WellFoundedOn (Ancestor pmgr) := by
  have : IsStrictOrder ℕ (Ancestor pmgr) :=
    { irrefl := h.acyclic
      trans := fun _ _ _ => Relation.TransGen.trans }
  exact (finite_present pmgr).wellFoundedOn

lemma powers_zero (die : ℕ) : Powers pmgr [(0, die)] [] := by
  refine ⟨by simp, fun gate hgate d hd w hw => ?_, fun before w after h => absurd h (by simp)⟩
  obtain rfl := List.mem_singleton.mp hgate
  exact absurd rfl hd.1

/-- The row that a device gets for itself. -/
def ownRows (id : ℕ) (dev : Device) (die : ℕ) : List Write :=
  if dev.critical then [] else
    [⟨.pmgr, gateSource id dev.name, gateAddress dev die, 4, .rmw, pmgrMask, pmgrActive⟩]

lemma mem_ownRows {id die : ℕ} {dev : Device} (hid : id ≠ 0) (hdev : byId pmgr id = some dev)
    (w : Write) : w ∈ ownRows id dev die ↔ RowFor pmgr id die w := by
  unfold ownRows
  constructor
  · intro hw
    split_ifs at hw with hc
    · cases hw
    · exact ⟨hid, dev, hdev, by simpa using hc, List.mem_singleton.mp hw⟩
  · rintro ⟨-, dev', hdev', hc, rfl⟩
    rw [hdev] at hdev'
    obtain rfl := Option.some.inj hdev'
    simp [hc]

lemma enablePmgr_succ {id die fuel : ℕ} {dev : Device} {above : List Write} (hid : id ≠ 0)
    (hdev : byId pmgr id = some dev)
    (habove : inOrder ((dev.parents.filter (· ≠ 0)).map (enablePmgr pmgr die fuel)) = .ok above) :
    enablePmgr pmgr die (fuel + 1) id = .ok (above ++ ownRows id dev die) := by
  rw [enablePmgr, if_neg hid, hdev]
  simp only [habove]
  cases hc : dev.critical <;> simp [ownRows, hc, rmw, add, pmgrMask, pmgrActive, bind, Except.bind,
    pure, Except.pure]

/-- It emits the same rows whenever it may go deep enough, and these power the device. -/
def Ends (pmgr : Pmgr) (die id : ℕ) : Prop :=
  ∃ enough rows, Powers pmgr [(id, die)] rows ∧
    ∀ fuel, enough ≤ fuel → enablePmgr pmgr die fuel id = .ok rows

lemma ends_zero (die : ℕ) : Ends pmgr die 0 := by
  refine ⟨1, [], powers_zero die, fun fuel hfuel => ?_⟩
  obtain ⟨fuel, rfl⟩ := Nat.exists_eq_add_of_le' hfuel
  rw [enablePmgr, if_pos rfl]

/-- One device, if everything above it ends. -/
lemma ends_of_parents {id die : ℕ} {dev : Device} (hid : id ≠ 0) (hdev : byId pmgr id = some dev)
    (h : ∀ a ∈ dev.parents.filter (· ≠ 0), Ends pmgr die a) : Ends pmgr die id := by
  obtain ⟨enough, parts, hparts, hall⟩ := inOrder_of_forall h
  have habove : Powers pmgr ((dev.parents.filter (· ≠ 0)).map fun a => (a, die)) parts.flatten := by
    refine Powers.flatten ?_
    rw [List.forall₂_map_left_iff]
    exact hparts
  refine ⟨enough + 1, _, habove.own hid hdev (mem_ownRows hid hdev), fun fuel hfuel => ?_⟩
  obtain ⟨fuel, rfl⟩ : ∃ n, fuel = n + 1 := ⟨fuel - 1, by omega⟩
  exact enablePmgr_succ hid hdev (hall fuel (by omega))

/-- **`enable_pmgr` ends.** -/
lemma Sound.ends (h : Sound pmgr) (die : ℕ) {id : ℕ} (hid : id ≠ 0 → (byId pmgr id).isSome) :
    Ends pmgr die id := by
  by_cases hzero : id = 0
  · rw [hzero]
    exact ends_zero die
  refine h.wellFoundedOn.induction (hid hzero) fun d hd ih => ?_
  by_cases hd0 : d = 0
  · rw [hd0]
    exact ends_zero die
  obtain ⟨dev, hdev⟩ := Option.isSome_iff_exists.mp hd
  refine ends_of_parents hd0 hdev fun a ha => ?_
  rw [List.mem_filter, decide_eq_true_eq] at ha
  exact ih a (h.present d dev hdev a ha.1 ha.2) (.single ⟨ha.2, hd0, dev, hdev, ha.1⟩)

end Gate

/-! ### The plan -/

/-- The gates of a plan, each with its die. -/
def gates (l : List ℕ) : List (ℕ × ℕ) := l.map fun encoded => (gateId encoded, gateDie encoded)

/-- Every gate is for a device that is there. -/
def GatesPresent (pmgr : Pmgr) (node : Node) : Prop :=
  ∀ encoded ∈ node.clockGates, gateId encoded ≠ 0 → (byId pmgr (gateId encoded)).isSome

/-- What the rows of a plan must be: those of the gates but the last, then those of the controller
up to the clock generator, those of the last gate, and no more of the PMGR. -/
structure Staged (pmgr : Pmgr) (node : Node) (rows : List Write) : Prop where
  powers : Powers pmgr (gates node.clockGates) (rows.filter (·.phase = .pmgr))
  stages : ∃ first controller last rest, rows = first ++ controller ++ last ++ rest ∧
    controllerRows node = .ok controller ∧
    Powers pmgr (gates node.clockGates.dropLast) first ∧
    Powers pmgr (gates node.clockGates.getLast?.toList) last ∧
    (∀ w ∈ first, w.phase = .pmgr) ∧ (∀ w ∈ controller, w.phase = .controller) ∧
    (∀ w ∈ last, w.phase = .pmgr) ∧ ∀ w ∈ rest, w.phase ≠ .pmgr

section Phases

variable {P : Set Phase} {phase : Phase}

/-- If the rows come at all, their phases are among these. -/
def Phases (P : Set Phase) (r : Rows) : Prop := ∀ rows, r = .ok rows → ∀ w ∈ rows, w.phase ∈ P

lemma phases_inOrder {l : List Rows} (h : ∀ r ∈ l, Phases P r) : Phases P (inOrder l) := by
  intro rows hrows w hw
  obtain ⟨parts, rfl, rfl⟩ := inOrder_eq_ok_iff.mp hrows
  obtain ⟨part, hpart, hw⟩ := List.mem_flatten.mp hw
  exact h (.ok part) (List.mem_map_of_mem hpart) part rfl w hw

lemma phases_ok_nil : Phases P (.ok []) := by
  intro rows hrows w hw
  obtain rfl := Except.ok.inj hrows
  cases hw

lemma phases_error {e : Err} : Phases P (.error e) := by
  intro rows hrows
  cases hrows

lemma phases_add (h : phase ∈ P) {source : Text} {address size : ℕ} {operation : Operation}
    {mask value : ℕ} : Phases P (add phase source address size operation mask value) := by
  unfold add
  split_ifs
  · exact phases_error
  · intro rows hrows w hw
    obtain rfl := Except.ok.inj hrows
    rw [List.mem_singleton.mp hw]
    exact h

lemma phases_localParsed (h : phase ∈ P) {source : Text} {base : ℕ} {tunables : List Tunable} :
    Phases P (localParsed phase source base tunables) := by
  refine phases_inOrder fun r hr => ?_
  obtain ⟨t, -, rfl⟩ := List.mem_map.mp hr
  exact phases_add h

lemma phases_localRaw (h : phase ∈ P) {source : Text} {base : ℕ} {raw : List UInt8} :
    Phases P (localRaw phase source base raw) := by
  unfold localRaw
  split_ifs
  · exact phases_error
  · exact phases_localParsed h

lemma phases_map {β : Type} {l : List β} {f : β → Rows} (h : ∀ x, Phases P (f x)) :
    ∀ r ∈ l.map f, Phases P r := by
  intro r hr
  obtain ⟨x, -, rfl⟩ := List.mem_map.mp hr
  exact h x

lemma phases_controllerRows (node : Node) : Phases {.controller} (controllerRows node) := by
  have hc : Phase.controller ∈ ({.controller} : Set Phase) := rfl
  refine phases_inOrder ?_
  simp only [List.forall_mem_cons, List.not_mem_nil, false_imp_iff, implies_true, and_true]
  refine ⟨phases_localParsed hc, phases_add hc, ?_, phases_localParsed hc, phases_localParsed hc⟩
  split
  · exact phases_ok_nil
  · exact phases_localParsed hc

lemma phases_phyRows (node : Node) : Phases {.pmgr}ᶜ (phyRows node) := by
  refine phases_inOrder ?_
  have hc : Phase.controller ∈ ({.pmgr}ᶜ : Set Phase) := by simp
  have hp : Phase.phy ∈ ({.pmgr}ᶜ : Set Phase) := by simp
  simp only [List.forall_mem_cons, List.not_mem_nil, false_imp_iff, implies_true, and_true]
  exact ⟨phases_localParsed hc, phases_add hp, phases_add hp, phases_add hp,
    phases_add hp, phases_localParsed hp, phases_localParsed hp, phases_add hp,
    phases_add hp, phases_add hp, phases_add hp, phases_add hp⟩

lemma phases_portRows (node : Node) (n config : ℕ) (bridge : Bridge) :
    Phases {.pmgr}ᶜ (portRows node n config bridge) := by
  have hp : Phase.port n ∈ ({.pmgr}ᶜ : Set Phase) := by simp
  refine phases_inOrder ?_
  simp only [List.forall_mem_append, List.forall_mem_cons, List.not_mem_nil, false_imp_iff,
    implies_true, and_true]
  refine ⟨⟨⟨⟨⟨⟨phases_add hp, ?_⟩, ?_⟩, ?_⟩, ?_⟩, phases_localRaw hp, phases_add hp, phases_add hp,
    phases_add hp, phases_add hp, phases_add hp, phases_add hp, phases_add hp, phases_add hp,
    phases_add hp, phases_localRaw hp, phases_localRaw hp, phases_localRaw hp, ?_, phases_add hp,
    phases_add hp, phases_add hp, phases_add hp, phases_add hp, phases_add hp, phases_add hp,
    phases_add hp, phases_add hp, phases_add hp, phases_add hp⟩, ?_⟩
  · exact phases_map fun _ => phases_add hp
  · exact phases_map fun _ => phases_add hp
  · exact phases_map fun _ => phases_add hp
  · exact phases_map fun _ => phases_add hp
  · split_ifs
    · exact phases_error
    · exact phases_ok_nil
  · exact phases_map fun _ => phases_add hp

end Phases

lemma Powers.phase {pmgr : Pmgr} {gs : List (ℕ × ℕ)} {rows : List Write}
    (h : Powers pmgr gs rows) : ∀ w ∈ rows, w.phase = .pmgr := by
  intro w hw
  obtain ⟨-, -, -, -, -, -, -, -, rfl⟩ := h.reached w hw
  rfl

/-- Rows that are all of the PMGR, or all not. -/
lemma filter_pmgr {rows : List Write} (h : ∀ w ∈ rows, w.phase = .pmgr) :
    rows.filter (·.phase = .pmgr) = rows :=
  List.filter_eq_self.mpr fun w hw => by simp [h w hw]

lemma filter_not_pmgr {rows : List Write} (h : ∀ w ∈ rows, w.phase ≠ .pmgr) :
    rows.filter (·.phase = .pmgr) = [] :=
  List.filter_eq_nil_iff.mpr fun w hw => by simp [h w hw]

lemma gates_split {l : List ℕ} : gates l = gates l.dropLast ++ gates l.getLast?.toList := by
  rw [gates, gates, gates, ← List.map_append]
  congr 1
  cases l using List.reverseRecOn <;> simp

/-- The parts of a plan, each with its phases. -/
lemma staged_of_parts {pmgr : Pmgr} {node : Node} {first controller last rest : List Write}
    (hfirst : Powers pmgr (gates node.clockGates.dropLast) first)
    (hlast : Powers pmgr (gates node.clockGates.getLast?.toList) last)
    (hcontroller : controllerRows node = .ok controller) (hrest : ∀ w ∈ rest, w.phase ≠ .pmgr) :
    Staged pmgr node (first ++ controller ++ last ++ rest) := by
  have hphase := phases_controllerRows node controller hcontroller
  refine ⟨?_, first, controller, last, rest, rfl, hcontroller, hfirst, hlast, hfirst.phase, hphase,
    hlast.phase, hrest⟩
  have hnot : ∀ w ∈ controller, w.phase ≠ .pmgr := by
    intro w hw
    rw [hphase w hw]
    decide
  rw [List.filter_append, List.filter_append, List.filter_append, filter_pmgr hfirst.phase,
    filter_not_pmgr hnot, filter_pmgr hlast.phase, filter_not_pmgr hrest, List.append_nil,
    List.append_nil, gates_split]
  exact hfirst.append hlast

/-- The gates in order, from some depth on. -/
lemma gates_end {pmgr : Pmgr} (h : Sound pmgr) {l : List ℕ}
    (hl : ∀ encoded ∈ l, gateId encoded ≠ 0 → (byId pmgr (gateId encoded)).isSome) :
    ∃ enough rows, Powers pmgr (gates l) rows ∧
      ∀ fuel, enough ≤ fuel → inOrder (l.map (enableGate pmgr fuel)) = .ok rows := by
  have hends : ∀ encoded ∈ l, ∃ enough rows,
      Powers pmgr [(gateId encoded, gateDie encoded)] rows ∧
        ∀ fuel, enough ≤ fuel → enableGate pmgr fuel encoded = .ok rows :=
    fun encoded hmem => h.ends (gateDie encoded) (hl encoded hmem)
  obtain ⟨enough, parts, hparts, hall⟩ := inOrder_of_forall hends
  refine ⟨enough, parts.flatten, Powers.flatten ?_, hall⟩
  rw [gates, List.forall₂_map_left_iff]
  exact hparts

/-- Bounds for the elements of a list have a bound. -/
lemma exists_bound {G : ℕ → ℕ → Prop} (hmono : ∀ x n m, G x n → n ≤ m → G x m) {l : List ℕ}
    (h : ∀ x ∈ l, ∃ n, G x n) : ∃ n, ∀ x ∈ l, G x n := by
  induction l with
  | nil => exact ⟨0, by simp⟩
  | cons x l ih =>
    obtain ⟨n, hn⟩ := h x List.mem_cons_self
    obtain ⟨m, hm⟩ := ih fun y hy => h y (List.mem_cons_of_mem _ hy)
    refine ⟨max n m, fun y hy => ?_⟩
    rcases List.mem_cons.mp hy with rfl | hy
    · exact hmono y n _ hn (Nat.le_max_left ..)
    · exact hmono y m _ (hm y hy) (Nat.le_max_right ..)

/-- The last gate, from some depth on. -/
lemma lastGate_end {pmgr : Pmgr} {node : Node} (h : Sound pmgr) (hgates : GatesPresent pmgr node) :
    ∃ enough r, (∀ fuel, enough ≤ fuel → lastGate pmgr node fuel = r) ∧
      ∀ rows, r = .ok rows → Powers pmgr (gates node.clockGates.getLast?.toList) rows := by
  cases hlast : node.clockGates.getLast? with
  | none =>
    refine ⟨0, .error .indexError, fun fuel _ => ?_, fun rows hrows => ?_⟩
    · rw [lastGate, hlast]
    · cases hrows
  | some encoded =>
    obtain ⟨enough, rows, hpowers, hall⟩ :=
      h.ends (gateDie encoded) (hgates encoded (List.mem_of_getLast? hlast))
    refine ⟨enough, .ok rows, fun fuel hfuel => ?_, fun rows' hrows => ?_⟩
    · rw [lastGate, hlast]
      exact hall fuel hfuel
    · cases hrows
      exact hpowers

/-- **The plan powers parents first**, for every graph without cycles and all gates. From some
depth on nothing changes: each gate gets its rows, and if there is a plan at all it is staged. -/
theorem emit_staged (pmgr : Pmgr) (node : Node) (h : Sound pmgr) (hgates : GatesPresent pmgr node) :
    ∃ enough,
      (∀ encoded ∈ node.clockGates, ∃ rows, ∀ fuel, enough ≤ fuel →
        enableGate pmgr fuel encoded = .ok rows) ∧
      (∀ fuel, enough ≤ fuel → emit pmgr node fuel = emit pmgr node enough) ∧
      ∀ rows, emit pmgr node enough = .ok rows → Staged pmgr node rows := by
  obtain ⟨m, hm⟩ : ∃ m, ∀ encoded ∈ node.clockGates, ∃ rows, ∀ fuel, m ≤ fuel →
      enableGate pmgr fuel encoded = .ok rows := by
    refine exists_bound ?_ fun encoded hmem => ?_
    · rintro x n m ⟨rows, hall⟩ hle
      exact ⟨rows, fun fuel hfuel => hall fuel (by omega)⟩
    · obtain ⟨n, rows, -, hall⟩ := h.ends (gateDie encoded) (hgates encoded hmem)
      exact ⟨n, rows, hall⟩
  obtain ⟨n, first, hfirst, hn⟩ := gates_end h fun encoded hmem =>
    hgates encoded (List.mem_of_mem_dropLast hmem)
  obtain ⟨k, r, hk, hlast⟩ := lastGate_end h hgates
  have hemit : ∀ fuel, max m (max n k) ≤ fuel → emit pmgr node fuel =
      inOrder [.ok first, controllerRows node, r, phyRows node,
        portRows node 0 (node.reg 0) node.bridges.1,
        portRows node 1 (node.reg 0 + 2 ^ 15) node.bridges.2] := by
    intro fuel hfuel
    rw [emit, firstGates, hn fuel (by omega), hk fuel (by omega)]
  refine ⟨max m (max n k), fun encoded hmem => ?_, fun fuel hfuel => ?_, fun rows hrows => ?_⟩
  · obtain ⟨rows, hall⟩ := hm encoded hmem
    exact ⟨rows, fun fuel hfuel => hall fuel (by omega)⟩
  · rw [hemit fuel hfuel, hemit _ (Nat.le_refl _)]
  · rw [hemit _ (Nat.le_refl _)] at hrows
    obtain ⟨parts, hparts, rfl⟩ := inOrder_eq_ok_iff.mp hrows
    obtain ⟨a, _, rfl, ha, hparts⟩ := List.map_eq_cons_iff.mp hparts.symm
    obtain ⟨controller, _, rfl, hcontroller, hparts⟩ := List.map_eq_cons_iff.mp hparts
    obtain ⟨last, _, rfl, hr, hparts⟩ := List.map_eq_cons_iff.mp hparts
    obtain ⟨phy, _, rfl, hphy, hparts⟩ := List.map_eq_cons_iff.mp hparts
    obtain ⟨port0, _, rfl, hport0, hparts⟩ := List.map_eq_cons_iff.mp hparts
    obtain ⟨port1, _, rfl, hport1, hparts⟩ := List.map_eq_cons_iff.mp hparts
    obtain rfl := List.map_eq_nil_iff.mp hparts
    obtain rfl := Except.ok.inj ha
    have hrest : ∀ w ∈ phy ++ (port0 ++ port1), w.phase ≠ .pmgr := by
      intro w hw
      rcases List.mem_append.mp hw with hw | hw
      · exact phases_phyRows node phy hphy.symm w hw
      rcases List.mem_append.mp hw with hw | hw
      · exact phases_portRows _ _ _ _ port0 hport0.symm w hw
      · exact phases_portRows _ _ _ _ port1 hport1.symm w hw
    have hstaged := staged_of_parts hfirst (hlast last hr.symm) hcontroller.symm hrest
    simpa [List.append_assoc] using hstaged

/-- Three devices, each below the next: the first is virtual. -/
def chain : Pmgr :=
  [⟨1, "V".toList, [2], 0, true⟩, ⟨2, "R".toList, [3], 0x100, false⟩,
    ⟨3, "B".toList, [0], 0x200, false⟩]

/-- A controller without tunables, and its registers. -/
def bareNode (clockGates : List ℕ) : Node where
  compatible := ["apcie,t6040".toList]
  ports := 4
  regs := expectedRegs ++ List.replicate 28 (0, 0)
  clockGates := clockGates
  axi2afTunables := []
  commonTunables := none
  cio3pllcoreTunables := []
  pcieclkgenTunables := []
  phyTunables := []
  phyIpPllTunables := []
  phyIpAuspmaTunables := []
  bridges := (⟨"pci-bridge0".toList, [], [], [], [], 4, 0, 0⟩,
    ⟨"pci-bridge1".toList, [], [], [], [], 1, 0, 2⟩)

lemma parent_chain {a d : ℕ} (h : Parent chain a d) : d < a := by
  obtain ⟨ha, -, dev, hdev, hmem⟩ := h
  have hid : dev.id = d := by simpa using List.find?_some hdev
  have hdevs : dev ∈ chain := List.mem_reverse.mp (List.mem_of_find?_eq_some hdev)
  have hnext : ∀ dev ∈ chain, ∀ a ∈ dev.parents, a ≠ 0 → dev.id < a := by decide
  exact hid ▸ hnext dev hdevs a hmem ha

lemma ancestor_chain {a d : ℕ} (h : Ancestor chain a d) : d < a := by
  induction h with
  | single hpar => exact parent_chain hpar
  | tail _ hpar ih => exact (parent_chain hpar).trans ih

lemma sound_chain : Sound chain where
  acyclic d h := Nat.lt_irrefl d (ancestor_chain h)
  present := by
    intro d dev hdev a ha hne
    have hdevs : dev ∈ chain := List.mem_reverse.mp (List.mem_of_find?_eq_some hdev)
    have hthere : ∀ dev ∈ chain, ∀ a ∈ dev.parents, a ≠ 0 → (byId chain a).isSome := by decide
    exact hthere dev hdevs a ha hne

/-- The row that powers a device of the chain. -/
def chainRow (id : ℕ) (name : String) (address : ℕ) : Write :=
  ⟨.pmgr, gateSource id name.toList, address, 4, .rmw, pmgrMask, pmgrActive⟩

/-- What powers the last two devices. -/
def lastTwo : List Write := [chainRow 3 "B" 0x200, chainRow 2 "R" 0x100]

/-- The last device has nothing above it, and the first no row. -/
lemma enablePmgr_chain (fuel : ℕ) : enablePmgr chain 0 (fuel + 3) 1 = .ok lastTwo ∧
    enablePmgr chain 0 (fuel + 3) 2 = .ok lastTwo := by
  have hlast (fuel : ℕ) : enablePmgr chain 0 (fuel + 1) 3 = .ok [chainRow 3 "B" 0x200] := by
    have hdev : byId chain 3 = some ⟨3, "B".toList, [0], 0x200, false⟩ := by decide
    exact enablePmgr_succ (by decide) hdev rfl
  have hnext (fuel : ℕ) : enablePmgr chain 0 (fuel + 2) 2 = .ok lastTwo := by
    have hdev : byId chain 2 = some ⟨2, "R".toList, [3], 0x100, false⟩ := by decide
    refine enablePmgr_succ (by decide) hdev
      (inOrder_eq_ok_iff.mpr ⟨[[chainRow 3 "B" 0x200]], ?_, rfl⟩)
    exact congrArg (fun r => [r]) (hlast fuel)
  have hfirst : enablePmgr chain 0 (fuel + 3) 1 = .ok (lastTwo ++ []) := by
    have hdev : byId chain 1 = some ⟨1, "V".toList, [2], 0, true⟩ := by decide
    refine enablePmgr_succ (by decide) hdev (inOrder_eq_ok_iff.mpr ⟨[lastTwo], ?_, rfl⟩)
    exact congrArg (fun r => [r]) (hnext fuel)
  exact ⟨hfirst, hnext (fuel + 1)⟩

lemma emit_chain (fuel : ℕ) :
    emit chain (bareNode [1, 2]) (fuel + 3) = emit chain (bareNode [1, 2]) 3 := by
  have hfirst (fuel : ℕ) : firstGates chain (bareNode [1, 2]) (fuel + 3) = inOrder [.ok lastTwo] :=
    congrArg (fun r => inOrder [r]) (enablePmgr_chain fuel).1
  have hlast (fuel : ℕ) : lastGate chain (bareNode [1, 2]) (fuel + 3) = .ok lastTwo :=
    (enablePmgr_chain fuel).2
  rw [emit, emit, hfirst, hlast, hfirst 0, hlast 0]

/-- The plan of the chain for its first two gates: from depth 3 on nothing changes, there is a plan,
and for each gate it powers the last device before the second. -/
theorem emit_staged_chain :
    Sound chain ∧ GatesPresent chain (bareNode [1, 2]) ∧
      ∃ rows, (∀ fuel, emit chain (bareNode [1, 2]) (fuel + 3) = .ok rows) ∧
        rows.filter (·.phase = .pmgr) = lastTwo ++ lastTwo ∧
        Staged chain (bareNode [1, 2]) rows := by
  have hgates : GatesPresent chain (bareNode [1, 2]) := by
    intro encoded hmem _
    rcases List.mem_pair.mp hmem with rfl | rfl
    · decide
    · decide
  have hrun : (emit chain (bareNode [1, 2]) 3).toOption.any (fun rows =>
      rows.filter (·.phase = .pmgr) = lastTwo ++ lastTwo) = true := by decide +kernel
  obtain ⟨rows, hrows, hpmgr⟩ := Checks.exists_ok_of_any hrun
  have hall (fuel : ℕ) : emit chain (bareNode [1, 2]) (fuel + 3) = .ok rows :=
    (emit_chain fuel).trans hrows
  obtain ⟨enough, -, hstable, hstaged⟩ := emit_staged chain (bareNode [1, 2]) sound_chain hgates
  have henough : emit chain (bareNode [1, 2]) enough = .ok rows := by
    rw [← hstable (enough + 3) (Nat.le_add_right _ _), hall]
  exact ⟨sound_chain, hgates, rows, hall, of_decide_eq_true hpmgr, hstaged rows henough⟩

/-- The eight clock gates, without parents; the first one has the id 0. -/
def fromZero : Pmgr := expectedClockGates.zipIdx.map fun p => ⟨p.2, p.1, [], 0x1000 * p.2, false⟩

/-- **Device 0 gets no row**, though it is a clock gate and not virtual. -/
theorem device_zero_not_powered :
    (∃ dev, byId fromZero 0 = some dev ∧ dev.name = "ANS".toList ∧ dev.critical = false) ∧
    ∃ rows, plan fromZero (bareNode (List.range 8)) 1 = .ok rows ∧
      ∀ w ∈ rows, w.phase = .pmgr → w.source ≠ gateSource 0 "ANS".toList := by
  refine ⟨⟨⟨0, "ANS".toList, [], 0, false⟩, by decide +kernel, rfl, rfl⟩, ?_⟩
  have hrun : (plan fromZero (bareNode (List.range 8)) 1).toOption.any (fun rows =>
      rows.all fun w => decide (w.phase = .pmgr → w.source ≠ gateSource 0 "ANS".toList)) =
        true := by decide +kernel
  obtain ⟨rows, hrows, hall⟩ := Checks.exists_ok_of_any hrun
  exact ⟨rows, hrows, fun w hw => of_decide_eq_true (List.all_eq_true.mp hall w hw)⟩

end Wallace.PciePower
