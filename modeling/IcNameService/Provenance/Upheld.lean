import IcNameService.Canister.Effects

/-!
# What a message does to a record's provenance

The provenance values of a record describe the target they were written about.  `Attested` says what a
message may do to them: leave them with the target they describe, drop them all, let an announce
write all five anew together with the target, or let an owner write one that no deployer has
announced.

* `Names.OwnerWrite` — everything an owner's write can do, and what it answers.
* `Names.mem_setProvenance`, `Names.setOwnerText_ok` — what the text helpers leave in a record.
* `Record.Attests` — a record carries a provenance value.
* `Upholds` — provenance and target stay together, or the provenance is gone.
* `called_attested`, `resumed_upholds` — every message.
-/

namespace Names

/-! ## Text records -/

lemma mem_sortByKey {text : Text} {e : String × String} : e ∈ sortByKey text ↔ e ∈ text :=
  (List.perm_insertionSort _ text).mem_iff

lemma mem_clearProvenance {text : Text} {e : String × String} :
    e ∈ clearProvenance text ↔ e ∈ text ∧ e.1 ∉ provenanceKeys := by
  simp [clearProvenance]

/-- Writing entries one after the other, each in place of what stood under its key. -/
lemma mem_foldl_replace {e : String × String} : ∀ {l text : Text}, (l.map Prod.fst).Nodup →
    (e ∈ l.foldl (fun text x => text.filter (fun y => y.1 ≠ x.1) ++ [x]) text ↔
      e ∈ l ∨ (e ∈ text ∧ e.1 ∉ l.map Prod.fst)) := by
  intro l
  induction l with
  | nil => simp
  | cons x l ih =>
      intro text hnodup
      rw [List.map_cons, List.nodup_cons] at hnodup
      rw [List.foldl_cons, ih hnodup.2]
      simp only [List.mem_append, List.mem_filter, List.mem_cons, List.not_mem_nil, or_false,
        List.map_cons, decide_eq_true_eq, ne_eq, not_or]
      constructor
      · rintro (hmem | ⟨⟨hmem, hne⟩ | rfl, hnot⟩)
        · exact Or.inl (Or.inr hmem)
        · exact Or.inr ⟨hmem, hne, hnot⟩
        · exact Or.inl (Or.inl rfl)
      · rintro ((rfl | hmem) | ⟨hmem, hne, hnot⟩)
        · exact Or.inr ⟨Or.inr rfl, hnodup.1⟩
        · exact Or.inl hmem
        · exact Or.inr ⟨Or.inl ⟨hmem, hne⟩, hnot⟩

/-- An announce leaves its five values and the other records. -/
theorem mem_setProvenance {text : Text} {p : Provenance} {e : String × String} :
    e ∈ setProvenance text p ↔ e ∈ p.records ∨ (e ∈ text ∧ e.1 ∉ provenanceKeys) := by
  have hnodup : (p.records.map Prod.fst).Nodup := by
    rw [p.keys_records]
    decide
  rw [setProvenance, mem_sortByKey, mem_foldl_replace hnodup, p.keys_records]

/-! ## An owner's write -/

/-- The writer that returns the list is the one that runs on it. -/
lemma setOwnerText_eq (text : Text) (key : String) (value : Option String) :
    setOwnerText text key value =
      (setOwnerTextInPlace text key value).2.map fun _ => (setOwnerTextInPlace text key value).1 := by
  simp only [setOwnerText, setOwnerTextInPlace]
  by_cases hannounce : announceKeys.contains key = true
  · rw [if_pos hannounce, if_pos hannounce]
    rfl
  rw [if_neg hannounce, if_neg hannounce]
  by_cases hlock : (provenanceKeys.contains key && text.any fun e => e.1 = "deployer") = true
  · rw [if_pos hlock, if_pos hlock]
    rfl
  rw [if_neg hlock, if_neg hlock]
  cases value with
  | none => rfl
  | some v =>
      simp only
      split <;> rfl

/-- The owner's own records: those that count for the cap. -/
def owned (text : Text) : ℕ := text.countP fun e => !provenanceKeys.contains e.1

/-- What an owner's write of `value` under `key` leaves of `text`, and what it answers. -/
inductive OwnerWrite (text : Text) (key : String) : Option String → Text → Except String Unit → Prop
  | announceOnly {value : Option String} :
      key ∈ announceKeys →
      OwnerWrite text key value text (.error s!"text key '{key}' is written only by announce")
  | announced {value : Option String} :
      key ∈ provenanceKeys → "deployer" ∈ text.map Prod.fst →
      OwnerWrite text key value text
        (.error s!"text key '{key}' was announced by a deployer; only announce may change it")
  | cleared :
      key ∉ announceKeys → (key ∈ provenanceKeys → "deployer" ∉ text.map Prod.fst) →
      OwnerWrite text key none (text.filter fun e => e.1 ≠ key) (.ok ())
  /-- The removal stands, though the write is refused. -/
  | full {v : String} :
      key ∉ provenanceKeys → maxTextRecords ≤ owned (text.filter fun e => e.1 ≠ key) →
      OwnerWrite text key (some v) (text.filter fun e => e.1 ≠ key)
        (.error "at most 32 text records per name")
  | set {v : String} :
      key ∉ announceKeys → (key ∈ provenanceKeys → "deployer" ∉ text.map Prod.fst) →
      (key ∉ provenanceKeys → owned (text.filter fun e => e.1 ≠ key) < maxTextRecords) →
      OwnerWrite text key (some v) (sortByKey ((text.filter fun e => e.1 ≠ key) ++ [(key, v)]))
        (.ok ())

theorem ownerWrite_of_inPlace {text text' : Text} {key : String} {value : Option String}
    {out : Except String Unit} (h : setOwnerTextInPlace text key value = (text', out)) :
    OwnerWrite text key value text' out := by
  simp only [setOwnerTextInPlace] at h
  by_cases hannounce : announceKeys.contains key = true
  · rw [if_pos hannounce] at h
    cases h
    exact .announceOnly (by simpa using hannounce)
  rw [if_neg hannounce] at h
  have hkey : key ∉ announceKeys := by simpa using hannounce
  have hdeployer : (text.any fun e => e.1 = "deployer") = true ↔ "deployer" ∈ text.map Prod.fst := by
    simp
  by_cases hlock : (provenanceKeys.contains key && text.any fun e => e.1 = "deployer") = true
  · rw [if_pos hlock] at h
    cases h
    rw [Bool.and_eq_true, hdeployer] at hlock
    exact .announced (by simpa using hlock.1) hlock.2
  rw [if_neg hlock] at h
  have hfree : key ∈ provenanceKeys → "deployer" ∉ text.map Prod.fst := fun hmem hd =>
    hlock (by rw [Bool.and_eq_true, hdeployer]; exact ⟨by simpa using hmem, hd⟩)
  cases value with
  | none =>
      cases h
      exact .cleared hkey hfree
  | some v =>
      simp only [← List.countP_eq_length_filter] at h
      split_ifs at h with hcap
      · cases h
        rw [Bool.and_eq_true, decide_eq_true_eq] at hcap
        exact .full (by simpa using hcap.2) hcap.1
      · cases h
        refine .set hkey hfree fun hmem => ?_
        rw [Bool.and_eq_true, decide_eq_true_eq, not_and] at hcap
        exact not_le.mp fun hle => hcap hle (by simpa using hmem)

/-- An accepted write returns the list it leaves. -/
lemma ownerWrite_of_ok {text text' : Text} {key : String} {value : Option String}
    (h : setOwnerText text key value = .ok text') : OwnerWrite text key value text' (.ok ()) := by
  rw [setOwnerText_eq] at h
  cases hw : setOwnerTextInPlace text key value with
  | mk left out =>
      rw [hw] at h
      cases out with
      | error e => cases h
      | ok =>
          cases h
          exact ownerWrite_of_inPlace hw

/-- An owner writes no announce key, and no provenance key of an announced name; the record holds the
value under the key, and what else it held. -/
theorem setOwnerText_ok {text text' : Text} {key : String} {value : Option String}
    (h : setOwnerText text key value = .ok text') :
    key ∉ announceKeys ∧ (key ∈ provenanceKeys → ∀ v, ("deployer", v) ∉ text) ∧
      ∀ e, e ∈ text' ↔ (e.1 = key ∧ value = some e.2) ∨ (e.1 ≠ key ∧ e ∈ text) := by
  have hunlisted : "deployer" ∉ text.map Prod.fst → ∀ v, ("deployer", v) ∉ text :=
    fun hno v hmem => hno (List.mem_map_of_mem hmem)
  cases ownerWrite_of_ok h with
  | cleared hannounce hfree =>
      exact ⟨hannounce, fun hkey => hunlisted (hfree hkey), fun e => by simp [and_comm]⟩
  | @set v hannounce hfree =>
      refine ⟨hannounce, fun hkey => hunlisted (hfree hkey), fun e => ?_⟩
      obtain ⟨k, u⟩ := e
      rw [mem_sortByKey]
      simp only [List.mem_append, List.mem_filter, List.mem_cons, List.not_mem_nil, or_false,
        Prod.mk.injEq, decide_eq_true_eq, ne_eq, Option.some.injEq, eq_comm (a := v)]
      tauto

end Names

/-! ## A record's provenance -/

/-- The record carries the provenance value `v` under `k`. -/
def Record.Attests (r : Record) (k v : String) : Prop := k ∈ Names.provenanceKeys ∧ (k, v) ∈ r.text

namespace State

variable {E : Env} {s s' s'' : State E} {name : String}

/-- A message leaves the provenance under `name` with the target it describes, or none of it. -/
def Upholds (s s' : State E) (name : String) : Prop :=
  ∀ r', s'.records.get name = some r' →
    (∃ r, s.records.get name = some r ∧ r'.target = r.target ∧
      ∀ k v, r'.Attests k v ↔ r.Attests k v) ∨
    ∀ k v, ¬ r'.Attests k v

namespace Upholds

lemma of_eq (h : s'.records = s.records) : Upholds s s' name := fun r' hr' =>
  Or.inl ⟨r', h ▸ hr', rfl, fun _ _ => Iff.rfl⟩

lemma refl (s : State E) (name : String) : Upholds s s name := of_eq rfl

lemma trans (h : Upholds s s' name) (h' : Upholds s' s'' name) : Upholds s s'' name := by
  intro r'' hr''
  rcases h' r'' hr'' with ⟨r', hr', htarget', hsame'⟩ | hnone
  · rcases h r' hr' with ⟨r, hr, htarget, hsame⟩ | hnone
    · exact Or.inl ⟨r, hr, htarget'.trans htarget, fun k v => (hsame' k v).trans (hsame k v)⟩
    · exact Or.inr fun k v hk => hnone k v ((hsame' k v).mp hk)
  · exact Or.inr hnone

/-- Writing a record: another name's, one that says the same of the same target, or one that says
nothing. -/
lemma insert {n : String} {r : Record} (hrecords : s'.records = s.records.insert n r)
    (h : n = name → (∃ old, s.records.get name = some old ∧ r.target = old.target ∧
      ∀ k v, r.Attests k v ↔ old.Attests k v) ∨ ∀ k v, ¬ r.Attests k v) :
    Upholds s s' name := by
  intro r' hr'
  rw [hrecords] at hr'
  rcases OrdMap.get_insert_eq_some.mp hr' with ⟨rfl, rfl⟩ | ⟨-, hr'⟩
  · exact h rfl
  · exact Or.inl ⟨r', hr', rfl, fun _ _ => Iff.rfl⟩

/-- Writing a record without text. -/
lemma insert_bare {n : String} {r : Record} (hrecords : s'.records = s.records.insert n r)
    (h : r.text = []) : Upholds s s' name :=
  insert hrecords fun _ => Or.inr fun k v hk => by
    rw [Record.Attests, h] at hk
    cases hk.2

/-- Rewriting a record without touching its target or text. -/
lemma insert_same {n : String} {r old : Record} (hrecords : s'.records = s.records.insert n r)
    (hget : s.records.get n = some old) (htarget : r.target = old.target)
    (htext : r.text = old.text) : Upholds s s' name := by
  refine insert hrecords ?_
  rintro rfl
  exact Or.inl ⟨old, hget, htarget, fun k v => by rw [Record.Attests, htext, Record.Attests]⟩

lemma discard (s : State E) (name n : String) (r : Record) :
    Upholds s (((s.eraseRecord n).unindex r).certifyRemove n) name := by
  intro r' hr'
  obtain ⟨-, hr'⟩ := OrdMap.get_erase_eq_some.mp hr'
  exact Or.inl ⟨r', hr', rfl, fun _ _ => Iff.rfl⟩

end Upholds

/-! ## What may be written -/

/-- `c` writes `value` under the provenance key of `name`, if it succeeds. -/
inductive Writes (E : Env) (cx : Ctx) (name : String) : Call → String → Option String → Prop
  | announce {a : Announcement} {k v : String} :
      a.name = name → (k, v) ∈ (announced (E := E) cx a).records →
      Writes E cx name (.announce a) k (some v)
  | setText {k : String} {value : Option String} :
      k ∈ Names.provenanceKeys → Writes E cx name (.setText name k value) k value

/-- What a call does to the provenance under `name`. -/
inductive Attested (s s' : State E) (cx : Ctx) (name : String) : Call → Progress → Prop
  | upheld {c : Call} {p : Progress} :
      Upholds s s' name → (p = .done (.ok .unit) → ∀ k v, ¬ Writes E cx name c k v) →
      Attested s s' cx name c p
  /-- A listed deployer names the target, and says all there is to say about it. -/
  | announced {a : Announcement} {q : String × String} {r' : Record} :
      a.name = name → Names.split name = .ok q → s.isDeployer cx.caller = true →
      s'.records.get name = some r' → r'.target = .address a.canister →
      (∀ k v, r'.Attests k v ↔ (k, v) ∈ (State.announced (E := E) cx a).records) →
      Attested s s' cx name (.announce a) (.done (.ok .unit))
  /-- The owner says something of a target that no deployer has announced. -/
  | owned {key : String} {value : Option String} {r r' : Record} :
      key ∈ Names.provenanceKeys → key ∉ Names.announceKeys →
      s.records.get name = some r → (∀ v, ¬ r.Attests "deployer" v) →
      s'.records.get name = some r' → r'.target = r.target →
      (∀ v, r'.Attests key v ↔ value = some v) →
      (∀ k v, k ≠ key → (r'.Attests k v ↔ r.Attests k v)) →
      Attested s s' cx name (.setText name key value) (.done (.ok .unit))

/-! ## Writing a record -/

/-- An announce of the name writes all there is to say. -/
lemma announceRecord_attests (s : State E) (cx : Ctx) (a : Announcement) (owner : Principal)
    (k v : String) : (s.announceRecord cx a owner).Attests k v ↔
      (k, v) ∈ (announced (E := E) cx a).records := by
  simp only [Record.Attests, announceRecord, Names.mem_setProvenance]
  constructor
  · rintro ⟨hk, hmem | ⟨-, hnot⟩⟩
    · exact hmem
    · exact absurd hk hnot
  · intro hmem
    refine ⟨?_, Or.inl hmem⟩
    rw [← (announced (E := E) cx a).keys_records]
    exact List.mem_map.mpr ⟨_, hmem, rfl⟩

/-- A repoint elsewhere drops the provenance. -/
lemma upholds_repoint {n : String} {r old : Record} {target : Target} {now : ℕ}
    (hrecords : s'.records = s.records.insert n (repoint r target now))
    (hget : s.records.get n = some old) (htarget : r.target = old.target)
    (htext : r.text = old.text) : Upholds s s' name := by
  by_cases hmoved : r.target = target
  · refine .insert_same hrecords hget ?_ ?_
    · rw [← htarget, hmoved]
      rfl
    · simp only [repoint, hmoved, ne_eq, not_true_eq_false, if_false, htext]
  · refine .insert hrecords fun _ => Or.inr ?_
    rintro k v ⟨hk, hmem⟩
    simp only [repoint, ne_eq, hmoved, not_false_eq_true, if_true, Names.mem_clearProvenance] at hmem
    exact hmem.2 hk

/-- What an owner may write into the text. -/
lemma attested_retext {cx : Ctx} {n key : String} {value : Option String} {r r' old : Record}
    {text : Names.Text} (hrecords : s'.records = s.records.insert n r')
    (hget : s.records.get n = some old) (htarget : r.target = old.target)
    (htext : r.text = old.text) (hset : Names.setOwnerText r.text key value = .ok text)
    (htarget' : r'.target = r.target) (htext' : r'.text = text) :
    Attested s s' cx name (.setText n key value) (.done (.ok .unit)) := by
  obtain ⟨hannounce, hdeployer, hmem⟩ := Names.setOwnerText_ok hset
  have hother : ∀ k v, k ≠ key → (r'.Attests k v ↔ old.Attests k v) := by
    intro k v hk
    simp only [Record.Attests, htext', hmem, hk, false_and, ne_eq, not_false_eq_true, true_and,
      false_or, htext]
  by_cases hname : n = name
  · subst hname
    by_cases hkey : key ∈ Names.provenanceKeys
    · refine .owned hkey hannounce hget ?_ ?_ (htarget'.trans htarget) ?_ hother
      · rintro v ⟨-, hv⟩
        exact hdeployer hkey v (htext ▸ hv)
      · rw [hrecords, OrdMap.get_insert_self]
      · intro v
        simp only [Record.Attests, hkey, htext', hmem, true_and, ne_eq, not_true_eq_false, false_and,
          or_false]
    · refine .upheld (.insert hrecords fun _ => Or.inl ⟨old, hget, htarget'.trans htarget, ?_⟩) ?_
      · intro k v
        by_cases hk : k = key
        · subst hk
          simp only [Record.Attests, hkey, false_and]
        · exact hother k v hk
      · rintro - k v hw
        cases hw with
        | setText hk => exact hkey hk
  · refine .upheld (.insert hrecords fun heq => absurd heq hname) ?_
    rintro - k v hw
    cases hw
    exact hname rfl

/-! ## Closing -/

lemma wonRecord_text (n : String) (lapsed : Option (Record × ℕ)) (x : Holding) (opening now : ℕ) :
    (wonRecord (E := E) n lapsed x opening now).1.text = [] := by
  cases lapsed <;> rfl

lemma upholds_close {cfg : Config} {n : String} {now : ℕ} {c : Closed}
    (hclose : s.close cfg n now = (s', .ok c)) : Upholds s s' name := by
  obtain ⟨r, outcome, holding, hc⟩ := close_ok hclose
  rw [hc.state_eq]
  have hsettled := (s.sameRecords_settleBids outcome
    (winnerIf outcome (s.lapsedRecord cfg n now).2) holding).records
  refine (Upholds.of_eq hsettled).trans ?_
  suffices hover : Upholds _ (State.handOver _ _ _ _ _ _) name from
    hover.trans (.of_eq (sameRecords_noteProceeds _ _).records)
  cases holding with
  | none => exact .refl _ _
  | some x =>
      rw [handOver_some]
      exact .insert_bare (commitFlat_records _ _ _) (wonRecord_text _ _ _ _ _)

lemma upholds_placeBid {cfg : Config} {n : String} {bidder : Principal} {commitment : Bytes}
    {deposit now : ℕ} {res : Except String (Option ℕ)}
    (hp : s.placeBid cfg n bidder commitment deposit now = (s', res)) : Upholds s s' name := by
  have hfirst : ∀ s₁ : State E, ClosedFirst s cfg n now s₁ → Upholds s s₁ name := by
    intro s₁ hc
    cases hc with
    | running => exact .refl _ _
    | ended hclose => exact upholds_close hclose
  refine placeBid_induction (P := fun x => Upholds s x name) hp (.refl _ _) hfirst ?_
  exact fun _ _ hup => hup.trans (.of_eq rfl)

lemma upholds_settleAll (hn : s.Named) (cfg : Config) (now : ℕ) :
    Upholds s (s.settleAll cfg now).1 name := by
  have key : (s.settleAll cfg now).1.Named ∧ Upholds s (s.settleAll cfg now).1 name := by
    refine settleAll_induction (P := fun s' => s'.Named ∧ Upholds s s' name) ?_ ⟨hn, .refl _ _⟩
    rintro s' n old ⟨hn', hup⟩ hget
    refine ⟨named_invariant.commitFlat (s := s') hn' _ _, ?_⟩
    have hstored : s'.records.get
        (settleRecord E cfg old now).1.name = some old := by
      rw [settleRecord_name, hn' n old hget]
      exact hget
    exact hup.trans (.insert_same (commitFlat_records _ _ _) hstored (by simp) (by simp))
  exact key.2

/-! ## Every message -/

/-- **A call leaves provenance with its target, drops it, or writes it as it may.** -/
theorem called_attested (hn : s.Named) {cx : Ctx} {c : Call} {p : Progress}
    (hc : Called s cx c s' p) : Attested s s' cx name c p := by
  cases hc with
  | refused => exact .upheld (.refl _ _) (by rintro ⟨⟩)
  | administered ha =>
      refine .upheld ?_ ?_
      · cases ha <;> exact .of_eq rfl
      · rintro - k v hw
        cases ha <;> cases hw
  | @announced a _ hdeployer _ _ _ ha =>
      have key : ∀ (q : String × String) (owner : Principal), Names.split a.name = .ok q →
          s'.records = s.records.insert a.name (s.announceRecord cx a owner) →
          Attested s s' cx name (.announce a) (.done (.ok .unit)) := by
        intro q owner hsplit hrecords
        by_cases hname : a.name = name
        · subst hname
          refine .announced rfl hsplit hdeployer ?_ ?_ (s.announceRecord_attests cx a owner)
          · rw [hrecords, OrdMap.get_insert_self]
          · rfl
        · refine .upheld (.insert hrecords fun heq => absurd heq hname) ?_
          rintro - k v hw
          cases hw with
          | announce heq => exact hname heq
      cases ha with
      | fresh hsplit =>
          refine key _ cx.caller hsplit ?_
          rw [commit_records, hn.announceRecord_name]
      | @allowed _ _ h hsplit =>
          refine key _ h.owner hsplit ?_
          rw [commit_records, hn.announceRecord_name]
  | @underHandle _ n _ _ r hsplit _ _ hw =>
      have hrecords : (s.commit r).records = s.records.insert n r := by
        rw [commit_records, hn.scopedWrite_name hw]
      cases hw with
      | create => exact .upheld (.insert_bare hrecords rfl) (by rintro - k v ⟨⟩)
      | repoint hget =>
          exact .upheld (upholds_repoint hrecords hget rfl rfl) (by rintro - k v ⟨⟩)
      | retext hget _ hset => exact attested_retext hrecords hget rfl rfl hset rfl rfl
  | @amended _ n old r hheld ha =>
      have hrecords : (s.commitFlat r (settleRecord E s.config old cx.now).2.2).records =
          s.records.insert n r := by
        rw [commitFlat_records, amendment_name ha, settleRecord_name, hn _ _ hheld.stored]
      cases ha with
      | repoint =>
          exact .upheld (upholds_repoint hrecords hheld.stored (by simp) (by simp))
            (by rintro - k v ⟨⟩)
      | retext _ hset =>
          exact attested_retext hrecords hheld.stored (by simp) (by simp) hset rfl rfl
      | reprice =>
          exact .upheld (.insert_same hrecords hheld.stored (by simp) (by simp))
            (by rintro - k v ⟨⟩)
  | discarded => exact .upheld (.discard s name _ _) (by rintro - k v ⟨⟩)
  | released =>
      rw [release_eq]
      refine .upheld ?_ (by rintro - k v ⟨⟩)
      exact (Upholds.of_eq (sameRecords_paidOut _ _ _).records).trans (.discard _ name _ _)
  | revealed => exact .upheld (.of_eq rfl) (by rintro - k v ⟨⟩)
  | closed hclose => exact .upheld (upholds_close hclose) (by rintro ⟨⟩)
  | pulling => exact .upheld (.of_eq rfl) (by rintro ⟨⟩)
  | withdrawing _ _ ht =>
      obtain ⟨-, credits, rfl, -⟩ := takeCredit_ok ht
      exact .upheld (.of_eq rfl) (by rintro ⟨⟩)
  | funding => exact .upheld (.of_eq rfl) (by rintro ⟨⟩)
  | configuring => exact .upheld (.refl _ _) (by rintro ⟨⟩)

/-- **A reply leaves provenance with its target, or drops it.** -/
theorem resumed_upholds (hn : s.Named) {now : ℕ} {reply : Except Failure ℕ} {p : Pending}
    {pr : Progress} (hr : Resumed s now reply p s' pr) : Upholds s s' name := by
  have hdrop : Upholds s s.dropInFlight name := .of_eq rfl
  cases hr with
  | pullFailed =>
      simp only [State.pullFailed]
      split_ifs <;> exact .of_eq rfl
  | bought => exact hdrop.trans (.insert_bare (bought_records _ _ _ _ _) rfl)
  | @toppedUp c _ r _ _ _ _ _ hpay =>
      obtain ⟨⟨old, y, hseen⟩, -, -⟩ := payable_ok hpay
      have hstored : s.records.get r.name = some old := by
        rw [hseen.name_of_named hn]
        exact hseen.stored
      refine hdrop.trans (.insert_same (commitFlat_records _ _ _) hstored ?_ ?_)
      · simp [hseen.settled]
      · simp [hseen.settled]
  | creditedBack => exact hdrop.trans (.of_eq (addCredit_records _ _ _))
  | placed _ hp =>
      exact hdrop.trans ((upholds_placeBid hp).trans (.of_eq (addCredit_records _ _ _)))
  | bidRefused _ hp =>
      exact hdrop.trans ((upholds_placeBid hp).trans (.of_eq (addCredit_records _ _ _)))
  | paid => exact hdrop
  | payRefused => exact .of_eq (addCredit_records _ _ _)
  | payUnconfirmed => exact .of_eq rfl
  | feeRefused => exact hdrop
  | feeAgreed => exact .of_eq rfl
  | funded => exact hdrop
  | fundRefused => exact .of_eq rfl
  | fundCharged => exact .of_eq rfl
  | fundUnconfirmed => exact .of_eq rfl
  | configRefused => exact .refl _ _
  | configSettled => exact upholds_settleAll hn _ _
  | configured _ _ _ hs' =>
      subst hs'
      split_ifs
      · exact (upholds_settleAll hn _ _).trans (.of_eq rfl)
      · exact .of_eq rfl

end State
