import Wallace.UsbRootModel

/-!
What the selector accepts before it looks at a disk: the identity file and the command line.

The loop over the identity file keeps the keys it has seen in one text, with a bar before,
between and after them. It accepts a file exactly if all its fields are known, no two of them
have the same key and none is empty.
-/

namespace Wallace.UsbRootIdentity

open Shell UsbRootModel
open Script (Text)

/-! ### Checks -/

/-- The script exits with status 1. -/
def Refuses {α : Type} (r : Sel α) : Prop := ∃ why, r = fail why

lemma Refuses.fail {α : Type} (why : String) : Refuses (fail why : Sel α) := ⟨why, rfl⟩

lemma Refuses.bind {α β : Type} {r : Sel α} (h : Refuses r) (f : α → Sel β) :
    Refuses (r >>= f) := by
  obtain ⟨why, rfl⟩ := h
  exact ⟨why, rfl⟩

lemma Refuses.status {α : Type} {r : Sel α} (h : Refuses r) : r.status = 1 := by
  obtain ⟨why, rfl⟩ := h
  rfl

lemma Refuses.stdout {r : Sel Text} (h : Refuses r) : r.stdout = [] := by
  obtain ⟨why, rfl⟩ := h
  rfl

/-- The script goes on as `s` if the condition holds, and exits with status 1 if it does not. -/
def Decides {α : Type} (P : Prop) (r s : Sel α) : Prop := P ∧ r = s ∨ ¬P ∧ Refuses r

section

variable {α β : Type} {P Q : Prop} {r s t : Sel α}

lemma Decides.trans (h : Decides P r s) (h' : Decides Q s t) : Decides (P ∧ Q) r t := by
  rcases h with ⟨hP, rfl⟩ | ⟨hP, hr⟩
  · rcases h' with ⟨hQ, rfl⟩ | ⟨hQ, hr⟩
    · exact .inl ⟨⟨hP, hQ⟩, rfl⟩
    · exact .inr ⟨fun h => hQ h.2, hr⟩
  · exact .inr ⟨fun h => hP h.1, hr⟩

lemma Decides.congr (h : Decides P r s) (hPQ : P ↔ Q) : Decides Q r s := by
  rwa [← propext hPQ]

lemma Decides.bind {a : α} (h : Decides P r (.ok a)) (f : α → Sel β) :
    Decides P (r >>= f) (f a) := by
  rcases h with ⟨hP, rfl⟩ | ⟨hP, hr⟩
  · exact .inl ⟨hP, rfl⟩
  · exact .inr ⟨hP, hr.bind f⟩

lemma Decides.require (c : Prop) [Decidable c] (why : String) :
    Decides c (require c why) (.ok ()) := by
  unfold UsbRootModel.require
  split_ifs with h
  · exact .inl ⟨h, rfl⟩
  · exact .inr ⟨h, .fail why⟩

/-- **A check**, with the rest of the script after it. -/
lemma Decides.check (c : Prop) [Decidable c] (why : String) {f : Unit → Sel α}
    (h : Decides Q (f ()) t) : Decides (c ∧ Q) (UsbRootModel.require c why >>= f) t :=
  ((Decides.require c why).bind f).trans h

lemma Decides.orExit {o : Option α} {f : α → Sel β} {t : Sel β} {Q : α → Prop}
    (h : ∀ a, o = some a → Decides (Q a) (f a) t) :
    Decides (∃ a, o = some a ∧ Q a) (orExit o >>= f) t := by
  cases o with
  | none =>
    refine .inr ⟨?_, .fail _⟩
    rintro ⟨a, ha, -⟩
    cases ha
  | some a =>
    refine (h a rfl).congr ?_
    simp

end

/-! ### Fields -/

/-- The fields of the file: its lines, without those that are passed over. -/
def fieldsOf (l : List Text) : List (Text × Text) :=
  (l.map (readPair '=')).filter fun kv => skipped kv.1 = false

/-- No unknown, duplicate or empty field. -/
structure Clean (kvs : List (Text × Text)) : Prop where
  known : ∀ kv ∈ kvs, ∃ k : Key, k.text = kv.1
  nodup : (kvs.map Prod.fst).Nodup
  filled : ∀ kv ∈ kvs, kv.2 ≠ []

/-- The value of each key, empty if there is no such field. -/
def values (kvs : List (Text × Text)) : Identity := fun k => (kvs.lookup k.text).getD []

lemma Key.mem_all (k : Key) : k ∈ Key.all := by
  cases k <;> decide

lemma Key.text_injective : Function.Injective Key.text := by
  intro k k' h
  have hall : ∀ k ∈ Key.all, ∀ k' ∈ Key.all, k.text = k'.text → k = k' := by decide
  exact hall k (Key.mem_all k) k' (Key.mem_all k') h

/-- No key has a bar in it. -/
lemma Key.bar_not_mem (k : Key) : '|' ∉ k.text := by
  cases k <;> decide

lemma Key.ofText_text (k : Key) : Key.ofText k.text = some k := by
  cases k <;> decide

lemma Key.text_of_ofText {t : Text} {k : Key} (h : Key.ofText t = some k) : k.text = t := by
  have := List.find?_some h
  simpa using this

lemma Clean.bar_not_mem {kvs : List (Text × Text)} (h : Clean kvs) :
    ∀ key ∈ kvs.map Prod.fst, '|' ∉ key := by
  intro key hkey
  obtain ⟨kv, hkv, rfl⟩ := List.mem_map.mp hkey
  obtain ⟨k, hk⟩ := h.known kv hkv
  rw [← hk]
  exact Key.bar_not_mem k

lemma Clean.of_append {kvs kvs' : List (Text × Text)} (h : Clean (kvs ++ kvs')) : Clean kvs where
  known := fun kv hkv => h.known kv (by simp [hkv])
  nodup := by
    have hn := h.nodup
    rw [List.map_append, List.nodup_append] at hn
    exact hn.1
  filled := fun kv hkv => h.filled kv (by simp [hkv])

lemma Clean.concat {kvs : List (Text × Text)} {k : Key} {value : Text} (h : Clean kvs)
    (hnew : k.text ∉ kvs.map Prod.fst) (hvalue : value ≠ []) :
    Clean (kvs ++ [(k.text, value)]) where
  known := by
    intro kv hkv
    rcases List.mem_append.mp hkv with hkv | hkv
    · exact h.known kv hkv
    · rw [List.mem_singleton.mp hkv]
      exact ⟨k, rfl⟩
  nodup := by
    rw [List.map_append, List.nodup_append]
    refine ⟨h.nodup, by simp, ?_⟩
    rintro key hkey _ hlast rfl
    rw [List.map_singleton, List.mem_singleton] at hlast
    rw [hlast] at hkey
    exact hnew hkey
  filled := by
    intro kv hkv
    rcases List.mem_append.mp hkv with hkv | hkv
    · exact h.filled kv hkv
    · rw [List.mem_singleton.mp hkv]
      exact hvalue

lemma values_concat {kvs : List (Text × Text)} {k : Key} (hnew : k.text ∉ kvs.map Prod.fst)
    (value : Text) :
    values (kvs ++ [(k.text, value)]) = Function.update (values kvs) k value := by
  funext k'
  unfold values
  rw [List.lookup_append]
  by_cases hk : k' = k
  · subst hk
    have hnone : kvs.lookup k'.text = none := by
      rw [List.lookup_eq_none_iff]
      intro kv hkv
      rw [bne_iff_ne]
      rintro heq
      exact hnew (heq ▸ List.mem_map_of_mem hkv)
    rw [hnone, Function.update_self]
    simp
  · have hne : ¬k'.text = k.text := fun he => hk (Key.text_injective he)
    have hlast : List.lookup k'.text [(k.text, value)] = none := by
      rw [List.lookup_eq_none_iff]
      simpa using hne
    rw [hlast, Function.update_of_ne hk, Option.or_none]

/-! ### The loop over the lines -/

/-- The state of the loop after the given fields. -/
structure Parsed (kvs : List (Text × Text)) (p : Parse) : Prop where
  clean : Clean kvs
  seen : p.seen = marked '|' (kvs.map Prod.fst)
  id : p.id = values kvs

lemma parsed_init : Parsed [] .init where
  clean := ⟨by simp, by simp, by simp⟩
  seen := rfl
  id := rfl

/-- **One line.** -/
lemma parseLine_cases {kvs : List (Text × Text)} {p : Parse} (h : Parsed kvs p) (line : Text) :
    (∃ p', parseLine p line = .ok p' ∧ Parsed (kvs ++ fieldsOf [line]) p') ∨
    Refuses (parseLine p line) ∧ ¬Clean (kvs ++ fieldsOf [line]) := by
  obtain ⟨key, value, hkv⟩ : ∃ key value, readPair '=' line = (key, value) := ⟨_, _, rfl⟩
  unfold parseLine fieldsOf
  rw [List.map_singleton, hkv]
  simp only
  by_cases hskip : skipped key = true
  · rw [if_pos hskip]
    refine .inl ⟨p, rfl, ?_⟩
    simpa [hskip] using h
  rw [if_neg hskip]
  have hone : [(key, value)].filter (fun kv => decide (skipped kv.1 = false)) = [(key, value)] := by
    simp [hskip]
  rw [hone, h.seen]
  by_cases hknown : ∃ k : Key, k.text = key
  · obtain ⟨k, rfl⟩ := hknown
    have hseen := isInfix_marked_iff (Key.bar_not_mem k) h.clean.bar_not_mem
    by_cases hdup : k.text ∈ kvs.map Prod.fst
    · rw [if_pos (hseen.mpr hdup)]
      refine .inr ⟨.fail _, fun hc => ?_⟩
      have hn := hc.nodup
      rw [List.map_append, List.nodup_append] at hn
      exact hn.2.2 _ hdup k.text (by simp) rfl
    rw [if_neg (mt hseen.mp hdup)]
    by_cases hempty : value = []
    · rw [if_pos hempty]
      refine .inr ⟨.fail _, fun hc => ?_⟩
      exact hc.filled (k.text, value) (by simp) hempty
    rw [if_neg hempty, Key.ofText_text]
    refine .inl ⟨_, rfl, h.clean.concat hdup hempty, ?_, ?_⟩
    · rw [List.map_append, List.map_singleton, marked_concat]
    · rw [values_concat hdup, h.id]
  · -- an unknown key is refused, under one message or another
    refine .inr ⟨?_, fun hc => hknown (hc.known (key, value) (by simp))⟩
    have hnone : Key.ofText key = none := by
      cases hof : Key.ofText key with
      | none => rfl
      | some k => exact absurd ⟨k, Key.text_of_ofText hof⟩ hknown
    rw [hnone]
    split_ifs
    · exact .fail _
    · exact .fail _
    · exact .fail _

lemma fieldsOf_cons (line : Text) (l : List Text) :
    fieldsOf (line :: l) = fieldsOf [line] ++ fieldsOf l := by
  rw [fieldsOf, fieldsOf, fieldsOf, ← List.filter_append, ← List.map_append, List.singleton_append]

/-- **All lines.** -/
theorem parseLines_cases {kvs : List (Text × Text)} {p : Parse} (h : Parsed kvs p)
    (l : List Text) :
    (∃ p', parseLines p l = .ok p' ∧ Parsed (kvs ++ fieldsOf l) p') ∨
    Refuses (parseLines p l) ∧ ¬Clean (kvs ++ fieldsOf l) := by
  induction l generalizing kvs p with
  | nil => exact .inl ⟨p, rfl, by simpa [fieldsOf] using h⟩
  | cons line l ih =>
    rw [fieldsOf_cons, ← List.append_assoc, parseLines]
    rcases parseLine_cases h line with ⟨p', hp, hparsed⟩ | ⟨hfail, hnot⟩
    · rw [hp]
      exact ih hparsed
    · exact .inr ⟨hfail.bind _, fun hc => hnot hc.of_append⟩

lemma parseLines_decides (l : List Text) :
    Decides (Clean (fieldsOf l)) (parseLines .init l)
      (.ok ⟨marked '|' ((fieldsOf l).map Prod.fst), values (fieldsOf l)⟩) := by
  rcases parseLines_cases parsed_init l with ⟨p, hp, hclean, hseen, hid⟩ | ⟨hr, hnot⟩
  · rw [List.nil_append] at hclean hseen hid
    refine .inl ⟨hclean, ?_⟩
    rw [hp, ← hseen, ← hid]
  · exact .inr ⟨hnot, hr⟩

/-! ### The values -/

/-- The values that the selector works with. -/
structure Pinned (id : Identity) : Prop where
  format : id .format = "t6040-usb-root-identity-v1".toList
  removable : id .removable = ['1']
  controller : id .usbController = controller
  uuid : ∀ k ∈ [Key.diskGuid, Key.partuuid, Key.fsuuid], grep isUuid (id k) = true
  usbId : ∀ k ∈ [Key.usbVendor, Key.usbProduct], grep isUsbId (id k) = true
  serial : id .usbSerial ≠ []
  route : grep isNumber (id .usbRoute) = true
  size : ∀ k ∈ [Key.mediaBytes, Key.layoutBytes], grep isNumber (id k) = true ∧ (id k).length ≤ 16
  fits : number (id .layoutBytes) ≤ number (id .mediaBytes)
  whole : number (id .mediaBytes) % 512 = 0

lemma checkIdentity_decides (id : Identity) : Decides (Pinned id) (checkIdentity id) (.ok ()) := by
  unfold checkIdentity
  refine Decides.congr (.check _ _ <| .check _ _ <| .check _ _ <| .check _ _ <| .check _ _ <|
    .check _ _ <| .require _ _) ⟨?_, ?_⟩
  · rintro ⟨⟨h1, h2, h3⟩, h4, h5, h6, h7, h8, h9, h10⟩
    exact ⟨h1, h2, h3, h4, h5, h6, h7, h8, h9, h10⟩
  · rintro ⟨h1, h2, h3, h4, h5, h6, h7, h8, h9, h10⟩
    exact ⟨⟨h1, h2, h3⟩, h4, h5, h6, h7, h8, h9, h10⟩

/-! ### The command line -/

/-- All `root=` tokens are the given one, and `rootfstype=` tokens name ext4. -/
structure RootTokens (partuuid : Text) (l : List Text) : Prop where
  root : ∀ t ∈ l, "root=".toList <+: t → t = rootIs partuuid
  ext4 : ∀ t ∈ l, "rootfstype=".toList <+: t → t = "rootfstype=ext4".toList

lemma RootTokens.cons {partuuid t : Text} {l : List Text} (h : RootTokens partuuid l)
    (hroot : "root=".toList <+: t → t = rootIs partuuid)
    (hext4 : "rootfstype=".toList <+: t → t = "rootfstype=ext4".toList) :
    RootTokens partuuid (t :: l) where
  root := by
    intro u hu
    rcases List.mem_cons.mp hu with rfl | hu
    · exact hroot
    · exact h.root u hu
  ext4 := by
    intro u hu
    rcases List.mem_cons.mp hu with rfl | hu
    · exact hext4
    · exact h.ext4 u hu

lemma RootTokens.of_cons {partuuid t : Text} {l : List Text} (h : RootTokens partuuid (t :: l)) :
    RootTokens partuuid l where
  root := fun u hu => h.root u (by simp [hu])
  ext4 := fun u hu => h.ext4 u (by simp [hu])

/-- The `root=` tokens. -/
def roots (l : List Text) : List Text := l.filter fun t => "root=".toList.isPrefixOf t

lemma root_ne_rootfstype {t : Text} (h : "root=".toList <+: t) : ¬"rootfstype=".toList <+: t := by
  obtain ⟨s, rfl⟩ := h
  rintro ⟨r, hr⟩
  cases hr

/-- **The loop over the tokens** counts the `root=` tokens, if all tokens are as they have to
be. -/
lemma checkTokens_decides (partuuid : Text) (l : List Text) (n : ℕ) :
    Decides (RootTokens partuuid l) (checkTokens partuuid l n) (.ok (n + (roots l).length)) := by
  induction l generalizing n with
  | nil => exact .inl ⟨⟨by simp, by simp⟩, rfl⟩
  | cons t l ih =>
    rw [checkTokens]
    by_cases hroot : "root=".toList <+: t
    · have hcons : roots (t :: l) = t :: roots l :=
        List.filter_cons_of_pos (List.isPrefixOf_iff_prefix.mpr hroot)
      rw [if_pos hroot, hcons, List.length_cons, ← Nat.add_assoc, Nat.add_right_comm]
      split_ifs with ht
      · refine (ih (n + 1)).congr ⟨fun h => h.cons (fun _ => ht) ?_, RootTokens.of_cons⟩
        exact fun h => absurd h (root_ne_rootfstype hroot)
      · exact .inr ⟨fun h => ht (h.root t (by simp) hroot), .fail _⟩
    · have hskip : roots (t :: l) = roots l :=
        List.filter_cons_of_neg (mt List.isPrefixOf_iff_prefix.mp hroot)
      rw [if_neg hroot, hskip]
      split_ifs with hext ht
      · refine (ih n).congr ⟨fun h => h.cons ?_ fun _ => ht, RootTokens.of_cons⟩
        exact fun h => absurd h hroot
      · exact .inr ⟨fun h => ht (h.ext4 t (by simp) hext), .fail _⟩
      · refine (ih n).congr ⟨fun h => h.cons ?_ fun h => absurd h hext, RootTokens.of_cons⟩
        exact fun h => absurd h hroot

lemma rootTokens_iff {partuuid : Text} {l : List Text} :
    RootTokens partuuid l ∧ (roots l).length = 1 ↔
      roots l = [rootIs partuuid] ∧
        ∀ t ∈ l, "rootfstype=".toList <+: t → t = "rootfstype=ext4".toList := by
  constructor
  · rintro ⟨h, hlen⟩
    obtain ⟨t, ht⟩ := List.length_eq_one_iff.mp hlen
    have hmem : t ∈ roots l := by rw [ht]; simp
    obtain ⟨hl, hp⟩ := List.mem_filter.mp hmem
    refine ⟨?_, h.ext4⟩
    rw [ht, h.root t hl (List.isPrefixOf_iff_prefix.mp hp)]
  · rintro ⟨h, hext4⟩
    refine ⟨⟨fun t ht hp => ?_, hext4⟩, by rw [h]; rfl⟩
    have hmem : t ∈ roots l := List.mem_filter.mpr ⟨ht, List.isPrefixOf_iff_prefix.mpr hp⟩
    rw [h] at hmem
    exact List.mem_singleton.mp hmem

/-! ### Ready for the disks -/

/-- The fields of the identity file. -/
def identityFields (env : Env) (identity : Text) : List (Text × Text) :=
  fieldsOf (lines ((env.read identity).getD []))

def identityOf (env : Env) (identity : Text) : Identity := values (identityFields env identity)

/-- The selector gets to the disks. -/
structure Ready (env : Env) (sys identity : Text) : Prop where
  regular : env.kind identity = some .regular
  nolink : env.symlink identity = false
  clean : Clean (identityFields env identity)
  pinned : Pinned (identityOf env identity)
  /-- There is one `root=` token, and it names the pinned partition. -/
  root : roots (tokens env sys) = [rootIs (identityOf env identity .partuuid)]
  ext4 : ∀ t ∈ tokens env sys, "rootfstype=".toList <+: t → t = "rootfstype=ext4".toList
  mountinfo : env.readable (sub sys "../proc/self/mountinfo") = true

lemma Mode.ofText_text (m : Mode) : Mode.ofText m.text = some m := by
  cases m <;> decide

lemma Mode.text_of_ofText {t : Text} {m : Mode} (h : Mode.ofText t = some m) : m.text = t := by
  have := List.find?_some h
  simpa using this

lemma Mode.text_injective {m m' : Mode} (h : m.text = m'.text) : m = m' := by
  have heq := Mode.ofText_text m
  rw [h, Mode.ofText_text] at heq
  exact (Option.some.inj heq).symm

/-- **Before the disks**, the selector goes on or exits with status 1. -/
theorem usbRootSelect_decides (env : Env) (sys devroot identity metadata : Text) (m : Mode) :
    Decides (Ready env sys identity) (usbRootSelect env [sys, devroot, identity, metadata, m.text])
      (Ctx.select ⟨env, sys, devroot, metadata, m, identityOf env identity⟩) := by
  rw [usbRootSelect, Mode.ofText_text]
  simp only
  refine Decides.congr (.check _ _ <| (parseLines_decides _).bind _ |>.trans <|
    (checkIdentity_decides _).bind _ |>.trans <| (checkTokens_decides _ _ _).bind _ |>.trans <|
    .check _ _ <| .check _ _ <| .inl ⟨trivial, rfl⟩) ⟨?_, ?_⟩
  · rintro ⟨⟨h1, h2⟩, h3, h4, h5, h6, h7, -⟩
    rw [Nat.zero_add] at h6
    obtain ⟨hroot, hext4⟩ := rootTokens_iff.mp ⟨h5, h6⟩
    exact ⟨h1, h2, h3, h4, hroot, hext4, h7⟩
  · rintro ⟨h1, h2, h3, h4, hroot, hext4, h7⟩
    obtain ⟨h5, h6⟩ := rootTokens_iff.mpr ⟨hroot, hext4⟩
    rw [← Nat.zero_add (roots (tokens env sys)).length] at h6
    exact ⟨⟨h1, h2⟩, h3, h4, h5, h6, h7, trivial⟩

/-- A mode that there is not. -/
lemma usbRootSelect_mode (env : Env) (sys devroot identity metadata : Text) {mode : Text}
    (h : ∀ m : Mode, mode ≠ m.text) :
    Refuses (usbRootSelect env [sys, devroot, identity, metadata, mode]) := by
  rw [usbRootSelect]
  cases hm : Mode.ofText mode with
  | none => exact .fail _
  | some m => exact absurd (Mode.text_of_ofText hm).symm (h m)

/-- The values of the fields are on one line. -/
lemma newline_not_mem_identityOf (env : Env) (identity : Text) (k : Key) :
    '\n' ∉ identityOf env identity k := by
  unfold identityOf values
  cases hl : (identityFields env identity).lookup k.text with
  | none => simp
  | some v =>
    have hmem : (k.text, v) ∈ identityFields env identity := by
      obtain ⟨l₁, l₂, heq, -⟩ := List.lookup_eq_some_iff.mp hl
      rw [heq]
      simp
    obtain ⟨line, hline, heq⟩ := List.mem_map.mp (List.mem_filter.mp hmem).1
    intro hn
    refine not_mem_of_mem_lines hline (mem_of_mem_readPair (c := '=') ?_)
    rw [heq]
    exact hn

end Wallace.UsbRootIdentity
