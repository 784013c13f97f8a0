import IcNameService.Provenance.Upheld
import IcNameService.System.Histories

/-!
# Text records and the index, one write at a time

The tag index is written with the records: a commit takes what was stored out of it and puts the new
record in, a discard takes the record out, and nothing else touches it.  Which texts a record may hold
is decided by their three writers and by the sales, which empty them.

* `TextWriters` — a property of texts that every writer of a text keeps.
* `IndexInvariant` — a property of the records and the index that every commit of such a text and every
  discard keeps; `IndexInvariant.stepped` carries it along every message.
* `World.run_texts` — so every text stored in any state reached has the property.
-/

namespace State

variable {E : Env}

/-! ## The two shapes of invariant -/

/-- A property of texts that every writer of a text keeps. -/
structure TextWriters (E : Env) (T : Names.Text → Prop) : Prop where
  empty : T []
  cleared : ∀ {text}, T text → T (Names.clearProvenance text)
  owner : ∀ {text text' key value}, T text → checkText key value = .ok () →
    Names.setOwnerText text key value = .ok text' → T text'
  announced : ∀ {text cx} {a : Announcement}, T text → Names.checkTextValue a.repo = .ok () →
    Names.checkHex "commit" a.commit [20, 32] = .ok () →
    Names.checkHex "module_hash" a.moduleHash [32] = .ok () →
    T (Names.setProvenance text (announced (E := E) cx a))

/-- A property of the records and the tag index that is kept by every commit of a record with a `T`
text, and by every discard. -/
structure IndexInvariant (T : Names.Text → Prop) (P : State E → Prop) : Prop where
  texts : ∀ s name r, P s → s.records.get name = some r → T r.text
  same : ∀ s s', s'.records = s.records → s'.tags = s.tags → P s → P s'
  commit : ∀ s r, P s → T r.text → P (s.commit r)
  discard : ∀ s name old r, P s → s.records.get name = some old → r.name = old.name →
    r.text = old.text → P (((s.eraseRecord name).unindex r).certifyRemove name)

/-! ## The writers that leave the index alone -/

lemma noteTaxCollected_tags (s : State E) (tax : ℕ) : (s.noteTaxCollected tax).tags = s.tags := by
  rw [noteTaxCollected_eq]

lemma addCredit_tags (s : State E) (p : Principal) (n : ℕ) : (s.addCredit p n).tags = s.tags := by
  rw [addCredit_eq]

lemma noteProceeds_tags (s : State E) (n : ℕ) : (s.noteProceeds n).tags = s.tags := by
  simp only [noteProceeds]
  split_ifs
  · rw [noteTaxCollected_tags]
  · rfl

lemma settleBids_tags (s : State E) (outcome : Outcome) (winner : Option Bytes)
    (holding : Option Holding) : (s.settleBids outcome winner holding).state.tags = s.tags :=
  settleBids_induction (P := fun s' => s'.tags = s.tags)
    (fun s' p n h => (addCredit_tags s' p n).trans h) _ _ _ _ ⟨s, 0, 0⟩ rfl

namespace IndexInvariant

variable {T : Names.Text → Prop} {P : State E → Prop} (hT : TextWriters E T)
  (hP : IndexInvariant T P) {s s' : State E}

include hP

lemma addCredit (h : P s) (p : Principal) (n : ℕ) : P (s.addCredit p n) :=
  hP.same s _ (addCredit_records s p n) (addCredit_tags s p n) h

lemma noteHandedOver (h : P s) (name : String) (now : ℕ) : P (s.noteHandedOver name now) :=
  hP.same s _ rfl rfl h

lemma commitFlat (h : P s) {r : Record} (hr : T r.text) (tax : ℕ) : P (s.commitFlat r tax) :=
  hP.commit _ r (hP.same s _ (noteTaxCollected_records s tax) (noteTaxCollected_tags s tax) h) hr

/-- A settlement leaves the text alone. -/
lemma settled (h : P s) {name : String} {old : Record} (hget : s.records.get name = some old)
    (cfg : Config) (now : ℕ) : T (settleRecord E cfg old now).1.text := by
  rw [settleRecord_text]
  exact hP.texts s name old h hget

omit hP in
lemma repointed (hT : TextWriters E T) {r : Record} (hr : T r.text) (target : Target) (now : ℕ) :
    T (repoint r target now).text := by
  simp only [repoint]
  split_ifs
  · exact hT.cleared hr
  · exact hr

include hT

lemma close (h : P s) {cfg : Config} {name : String} {now : ℕ} {c : Closed}
    (hclose : s.close cfg name now = (s', .ok c)) : P s' := by
  obtain ⟨r, outcome, holding, hc⟩ := close_ok hclose
  rw [hc.state_eq]
  have hsettled : P (s.settleBids outcome (winnerIf outcome (s.lapsedRecord cfg name now).2)
      holding).state :=
    hP.same s _ (s.sameRecords_settleBids _ _ _).records (s.settleBids_tags _ _ _) h
  suffices hover : P (State.handOver _ _ _ _ _ _) from
    hP.same _ _ (sameRecords_noteProceeds _ _).records (noteProceeds_tags _ _) hover
  cases holding with
  | none => exact hsettled
  | some x =>
      rw [handOver_some]
      refine hP.commitFlat ?_ ?_ _
      · exact hP.noteHandedOver hsettled _ _
      · rw [wonRecord_text]
        exact hT.empty

lemma closedFirst (h : P s) {cfg : Config} {name : String} {now : ℕ}
    (hc : ClosedFirst s cfg name now s') : P s' := by
  cases hc with
  | running => exact h
  | ended hclose => exact hP.close hT h hclose

lemma placeBid (h : P s) {cfg : Config} {name : String} {bidder : Principal} {commitment : Bytes}
    {deposit now : ℕ} {res : Except String (Option ℕ)}
    (hp : s.placeBid cfg name bidder commitment deposit now = (s', res)) : P s' := by
  refine placeBid_induction hp h (fun _ hc => hP.closedFirst hT h hc) ?_
  exact fun s₁ _ hfirst => hP.same s₁ _ rfl rfl hfirst

omit hT in
lemma settleAll (h : P s) (cfg : Config) (now : ℕ) : P (s.settleAll cfg now).1 := by
  refine settleAll_induction (P := P) (fun s' name old hs' hget => ?_) h
  exact hP.commitFlat hs' (hP.settled hs' hget cfg now) _

/-! ## Every message -/

lemma announcedText (h : P s) {cx : Ctx} {a : Announcement} (owner : Principal)
    (hrepo : Names.checkTextValue a.repo = .ok ())
    (hcommit : Names.checkHex "commit" a.commit [20, 32] = .ok ())
    (hmodule : Names.checkHex "module_hash" a.moduleHash [32] = .ok ()) :
    T (s.announceRecord cx a owner).text := by
  simp only [announceRecord, getRecord]
  cases hget : s.records.get a.name with
  | none => exact hT.announced hT.empty hrepo hcommit hmodule
  | some r => exact hT.announced (hP.texts s _ r h hget) hrepo hcommit hmodule

theorem called (h : P s) {cx : Ctx} {c : Call} {p : Progress} (hc : Called s cx c s' p) :
    P s' := by
  cases hc with
  | refused => exact h
  | administered ha => cases ha <;> exact hP.same s _ rfl rfl h
  | announced _ hrepo hcommit hmodule ha =>
      cases ha with
      | @fresh handle =>
          have hregistered : P { s with handles := s.handles.insert handle ⟨cx.caller, none⟩ } :=
            hP.same s _ rfl rfl h
          exact hP.commit _ _ hregistered (hP.announcedText hT h _ hrepo hcommit hmodule)
      | allowed => exact hP.commit _ _ h (hP.announcedText hT h _ hrepo hcommit hmodule)
  | underHandle _ _ _ hw =>
      refine hP.commit _ _ h ?_
      cases hw with
      | create => exact hT.empty
      | repoint hget => exact repointed hT (hP.texts s _ _ h hget) _ _
      | retext hget hcheck htext => exact hT.owner (hP.texts s _ _ h hget) hcheck htext
  | @amended _ name old r hheld ha =>
      have hsettled := hP.settled h hheld.stored s.config cx.now
      refine hP.commitFlat h ?_ _
      cases ha with
      | repoint => exact repointed hT hsettled _ _
      | retext hcheck htext => exact hT.owner hsettled hcheck htext
      | reprice => exact hsettled
  | discarded _ _ _ hget => exact hP.discard _ _ _ _ h hget rfl rfl
  | @released name old hheld =>
      rw [release_eq]
      refine hP.discard _ _ old _ ?_ ?_ (settleRecord_name _ _ _) (settleRecord_text _ _ _)
      · refine hP.addCredit ?_ _ _
        exact hP.same s _ (noteTaxCollected_records _ _) (noteTaxCollected_tags _ _) h
      · rw [(sameRecords_paidOut _ _ _).records]
        exact hheld.stored
  | revealed => exact hP.same s _ rfl rfl h
  | closed hclose => exact hP.close hT h hclose
  | pulling => exact hP.same s _ rfl rfl h
  | withdrawing _ _ ht =>
      obtain ⟨-, credits, rfl, -⟩ := takeCredit_ok ht
      exact hP.same s _ rfl rfl h
  | funding => exact hP.same s _ rfl rfl h
  | configuring => exact h

theorem resumed (h : P s) {now : ℕ} {reply : Except Failure ℕ} {p : Pending} {pr : Progress}
    (hr : Resumed s now reply p s' pr) : P s' := by
  have hdrop : P s.dropInFlight := hP.same s _ rfl rfl h
  cases hr with
  | pullFailed =>
      simp only [State.pullFailed]
      split_ifs <;> exact hP.same s _ rfl rfl h
  | @bought c block r tax =>
      have hpaid := hP.addCredit hdrop r.owner (satAdd c.before.price r.balance)
      have hnoted := hP.noteHandedOver hpaid c.name now
      exact hP.commitFlat (r := boughtRecord (E := E) c r now) hnoted hT.empty _
  | @toppedUp c block r tax more y y' _ hpay =>
      obtain ⟨⟨old, x, hseen⟩, -⟩ := payable_ok hpay
      refine hP.commitFlat hdrop ?_ _
      change T r.text
      rw [hseen.settled]
      exact hP.settled hdrop hseen.stored _ _
  | creditedBack => exact hP.addCredit hdrop _ _
  | placed _ hp => exact hP.addCredit (hP.placeBid hT hdrop hp) _ _
  | bidRefused _ hp => exact hP.addCredit (hP.placeBid hT hdrop hp) _ _
  | paid => exact hdrop
  | @payRefused _ caller amount =>
      exact hP.same (s.addCredit caller amount) _ rfl rfl (hP.addCredit h _ _)
  | payUnconfirmed => exact hP.same s _ rfl rfl h
  | feeRefused => exact hdrop
  | feeAgreed => exact hP.same s _ rfl rfl h
  | funded => exact hdrop
  | fundRefused => exact hP.same s _ rfl rfl h
  | fundCharged => exact hP.same s _ rfl rfl h
  | fundUnconfirmed => exact hP.same s _ rfl rfl h
  | configRefused => exact h
  | configSettled => exact hP.settleAll h _ _
  | configured _ _ _ hs' =>
      subst hs'
      split_ifs
      · exact hP.same (s.settleAll s.config now).1 _ rfl rfl (hP.settleAll h _ _)
      · exact hP.same s _ rfl rfl h

/-- What every write keeps, every message keeps: an upgrade touches neither the records nor the
index. -/
theorem stepped {w w' : World E} {e : Event} {o : Output} (h : P w.canister)
    (hs : World.Stepped w e w' o) : P w'.canister := by
  cases hs with
  | answered _ hc => exact hP.called hT h hc
  | suspended _ hc => exact hP.called hT h hc
  | resumed _ _ hr => exact hP.resumed hT h hr
  | continued => exact hP.same w.canister _ rfl rfl h
  | upgraded => exact hP.same w.canister _ rfl rfl h

end IndexInvariant

/-- Every stored text has `T`. -/
def AllTexts (T : Names.Text → Prop) (s : State E) : Prop :=
  ∀ name r, s.records.get name = some r → T r.text

lemma allTexts_invariant (T : Names.Text → Prop) :
    IndexInvariant T (AllTexts (E := E) T) where
  texts _ name r h hget := h name r hget
  same s s' hrecords _ h name r hget := h name r (hrecords ▸ hget)
  commit s r h hr name r' hget := by
    rw [commit_records] at hget
    rcases OrdMap.get_insert_eq_some.mp hget with ⟨-, rfl⟩ | ⟨-, hget⟩
    · exact hr
    · exact h name r' hget
  discard s name old r h _ _ _ name' r' hget := by
    obtain ⟨-, hget⟩ := OrdMap.get_erase_eq_some.mp hget
    exact h name' r' hget

end State

namespace World

variable {E : Env} {ok : World E → Event → Prop} {w : World E} {tr : History E}

/-- **What every writer of a text keeps, every stored text has.** -/
theorem run_texts {T : Names.Text → Prop} (hT : State.TextWriters E T)
    (h : Run (machine E) ok init tr w) : w.canister.AllTexts T :=
  run_invariant (I := fun w => w.canister.AllTexts T) rfl (fun name r hget => by cases hget)
    (fun _ _ _ _ hi _ hs => (State.allTexts_invariant T).stepped hT hi hs) h

end World
