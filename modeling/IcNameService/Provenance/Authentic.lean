import IcNameService.Core.Since
import IcNameService.Provenance.Upheld
import IcNameService.System.Histories

/-!
# Announced provenance is the deployer's, and current

What a stored record says about its code, read against the history that led to it.  A name that looks
announced was announced by a principal that was a listed deployer, nothing it says is older or newer
than the last announce, and no provenance value outlives the target it was written about.

* `Announces`, `Wrote`, `Points` — what an entry of a history says about a name.
* `Authentic` — how a record's provenance came about.
* `authentic_step` — one message; `provenance_authentic` — every history.
-/

namespace World

variable {E : Env} {ok : World E → Event → Prop} {w w' : World E} {tr : History E} {name : String}

/-! ## What a history says about a name -/

/-- The entry is a successful announce of `name`. -/
structure Announces (e : Entry (World E) Event Output) (name : String) (cx : Ctx)
    (a : Announcement) : Prop where
  event : e.event = .call cx (.announce a)
  out : e.out = .done (.ok .unit)
  name_eq : a.name = name

/-- The entry is a successful call that wrote `value` under a provenance key of `name`. -/
def Wrote (e : Entry (World E) Event Output) (name key : String) (value : Option String) : Prop :=
  ∃ cx c, e.event = .call cx c ∧ e.out = .done (.ok .unit) ∧ State.Writes E cx name c key value

/-- After the entry, `name` points at `target`. -/
def Points (e : Entry (World E) Event Output) (name : String) (target : Target) : Prop :=
  (e.post.canister.records.get name).map Record.target = some target

/-- An announce reports the deployer. -/
lemma Announces.wrote_deployer {e : Entry (World E) Event Output} {cx : Ctx} {a : Announcement}
    (h : Announces e name cx a) : Wrote e name "deployer" (some (E.toText cx.caller)) :=
  ⟨cx, .announce a, h.event, h.out, .announce h.name_eq (by simp [Names.Provenance.records,
    State.announced])⟩

/-- How a record's provenance came about. -/
structure Authentic (tr : History E) (name : String) (r : Record) : Prop where
  /-- A record that looks announced says what the last announce of its name said, of the address it
  named, and a listed deployer made it. -/
  announced : (∃ k ∈ Names.announceKeys, ∃ v, (k, v) ∈ r.text) →
    Since (fun e => ∀ cx a, ¬ Announces e name cx a)
      (fun e => ∃ cx a, Announces e name cx a ∧ e.pre.canister.isDeployer cx.caller = true ∧
        r.target = .address a.canister ∧
        ∀ k ∈ Names.provenanceKeys, ∀ v,
          (k, v) ∈ r.text ↔ (k, v) ∈ (State.announced (E := E) cx a).records) tr
  /-- The target has not changed since a value was written. -/
  standing : ∀ k ∈ Names.provenanceKeys, ∀ v, (k, v) ∈ r.text →
    Since (fun e => Points e name r.target ∧ ∀ value, ¬ Wrote e name k value)
      (fun e => Points e name r.target ∧ Wrote e name k (some v)) tr
  /-- Nobody announces a flat name. -/
  flatName : Names.isScoped name = false → ∀ k ∈ Names.announceKeys, ∀ v, (k, v) ∉ r.text

lemma announceKeys_subset {k : String} (h : k ∈ Names.announceKeys) : k ∈ Names.provenanceKeys := by
  revert k
  decide

/-- A record that carries no provenance. -/
lemma authentic_of_silent {r : Record} (h : ∀ k v, ¬ r.Attests k v) : Authentic tr name r where
  announced := by
    rintro ⟨k, hk, v, hv⟩
    exact absurd ⟨announceKeys_subset hk, hv⟩ (h k v)
  standing k hk v hv := absurd ⟨hk, hv⟩ (h k v)
  flatName _ k hk v hv := h k v ⟨announceKeys_subset hk, hv⟩

/-! ## One message -/

section

variable {e : Event} {o : Output}

/-- A message that writes no provenance under the name, and upholds what stands there. -/
lemma authentic_upheld (h : ∀ r, w.canister.records.get name = some r → Authentic tr name r)
    (hup : State.Upholds w.canister w'.canister name)
    (hwrote : ∀ k value, ¬ Wrote (⟨w, e, o, w'⟩ : Entry (World E) Event Output) name k value)
    {r' : Record} (hr' : w'.canister.records.get name = some r') :
    Authentic (⟨w, e, o, w'⟩ :: tr) name r' := by
  rcases hup r' hr' with ⟨r, hr, htarget, hsame⟩ | hnone
  · have hold := h r hr
    have hmem : ∀ k ∈ Names.provenanceKeys, ∀ v, (k, v) ∈ r'.text ↔ (k, v) ∈ r.text := by
      intro k hk v
      simpa [Record.Attests, hk] using hsame k v
    refine ⟨?_, ?_, ?_⟩
    · rintro ⟨k, hk, v, hv⟩
      refine .still (fun cx a ha => hwrote _ _ ha.wrote_deployer) ?_
      refine (hold.announced ⟨k, hk, v, (hmem k (announceKeys_subset hk) v).mp hv⟩).mono
        (fun _ he => he) ?_
      rintro x ⟨cx, a, ha, hdeployer, haddress, htext⟩
      exact ⟨cx, a, ha, hdeployer, htarget.trans haddress,
        fun k hk v => (hmem k hk v).trans (htext k hk v)⟩
    · intro k hk v hv
      have hthen := hold.standing k hk v ((hmem k hk v).mp hv)
      rw [← htarget] at hthen
      refine .still ⟨?_, hwrote k⟩ hthen
      rw [Points, hr']
      rfl
    · intro hflat k hk v hv
      exact hold.flatName hflat k hk v ((hmem k (announceKeys_subset hk) v).mp hv)
  · exact authentic_of_silent hnone

/-- **One call** leaves every stored record's provenance accounted for. -/
lemma authentic_called (h : ∀ r, w.canister.records.get name = some r → Authentic tr name r)
    {cx : Ctx} {c : Call} {p : Progress}
    (hc : State.Attested w.canister w'.canister cx name c p)
    (hsuccess : p = .done (.ok .unit) ↔ o = .done (.ok .unit)) {r' : Record}
    (hr' : w'.canister.records.get name = some r') :
    Authentic (⟨w, .call cx c, o, w'⟩ :: tr) name r' := by
  cases hc with
  | upheld hup hwrites =>
      refine authentic_upheld h hup ?_ hr'
      rintro k value ⟨cx', c', heq, hdone, hw⟩
      cases heq
      exact hwrites (hsuccess.mpr hdone) k value hw
  | @announced a q r hname hsplit hdeployer hr htarget htext =>
      obtain rfl := Option.some.inj (hr.symm.trans hr')
      have hentry : Announces (⟨w, .call cx (.announce a), o, w'⟩ : Entry (World E) Event Output)
          name cx a := ⟨rfl, hsuccess.mp rfl, hname⟩
      have hmem : ∀ k ∈ Names.provenanceKeys, ∀ v,
          (k, v) ∈ r.text ↔ (k, v) ∈ (State.announced (E := E) cx a).records := by
        intro k hk v
        simpa [Record.Attests, hk] using htext k v
      refine ⟨fun _ => .here ⟨cx, a, hentry, hdeployer, htarget, hmem⟩, ?_, ?_⟩
      · intro k hk v hv
        refine .here ⟨?_, cx, .announce a, rfl, hsuccess.mp rfl, .announce hname ((hmem k hk v).mp hv)⟩
        rw [Points, hr]
        rfl
      · intro hflat
        rw [Names.isScoped_of_split hsplit] at hflat
        cases hflat
  | @owned key value r r₁ hkey hannounce hr hnot hr₁ htarget hwritten hsame =>
      obtain rfl := Option.some.inj (hr₁.symm.trans hr')
      have hold := h r hr
      -- a name that looked announced would have a deployer, and its provenance would be left alone
      have hunannounced : ∀ k ∈ Names.announceKeys, ∀ v, (k, v) ∉ r.text := by
        intro k hk v hv
        obtain ⟨newer, x, older, -, ⟨cx', a, -, -, -, htext⟩, -⟩ :=
          Since.iff_split.mp (hold.announced ⟨k, hk, v, hv⟩)
        have hmem := (htext "deployer" (by decide) (E.toText cx'.caller)).mpr
          (by simp [Names.Provenance.records, State.announced])
        exact hnot _ ⟨by decide, hmem⟩
      have hstill : ∀ k ∈ Names.announceKeys, ∀ v, (k, v) ∉ r₁.text := by
        intro k hk v hv
        have hne : k ≠ key := by
          rintro rfl
          exact hannounce hk
        exact hunannounced k hk v
          ((hsame k v hne).mp ⟨announceKeys_subset hk, hv⟩).2
      have hpoints : Points (⟨w, .call cx (.setText name key value), o, w'⟩ :
          Entry (World E) Event Output) name r₁.target := by
        rw [Points, hr₁]
        rfl
      refine ⟨?_, ?_, fun _ => hstill⟩
      · rintro ⟨k, hk, v, hv⟩
        exact absurd hv (hstill k hk v)
      · intro k hk v hv
        by_cases hne : k = key
        · subst hne
          have hvalue := (hwritten v).mp ⟨hk, hv⟩
          exact .here ⟨hpoints, cx, _, rfl, hsuccess.mp rfl, hvalue ▸ .setText hk⟩
        · have hthen := hold.standing k hk v ((hsame k v hne).mp ⟨hk, hv⟩).2
          rw [← htarget] at hthen
          refine .still ⟨hpoints, ?_⟩ hthen
          rintro value' ⟨cx', c', heq, -, hw⟩
          cases heq
          cases hw
          exact hne rfl

/-- **One message** leaves every stored record's provenance accounted for. -/
lemma authentic_step (hn : w.canister.Named)
    (h : ∀ r, w.canister.records.get name = some r → Authentic tr name r)
    (hs : Stepped w e w' o) {r' : Record} (hr' : w'.canister.records.get name = some r') :
    Authentic (⟨w, e, o, w'⟩ :: tr) name r' := by
  have hreply : ∀ {now id : ℕ} {r : Except Failure ℕ} {moved : ℤ} {o : Output} (k : String)
      (value : Option String), ¬ Wrote (⟨w, .reply now id r moved, o, w'⟩ :
        Entry (World E) Event Output) name k value := by
    rintro now id r moved o k value ⟨cx, c, heq, -⟩
    cases heq
  cases hs with
  | answered _ hc =>
      refine authentic_called h (State.called_attested hn hc) ?_ hr'
      simp only [Progress.done.injEq, Output.done.injEq]
  | suspended _ hc =>
      refine authentic_called h (State.called_attested hn hc) ?_ hr'
      simp only [reduceCtorEq]
  | resumed _ _ hr => exact authentic_upheld h (State.resumed_upholds hn hr) hreply hr'
  | continued =>
      refine authentic_upheld h ?_ hreply hr'
      exact .of_eq rfl
  | upgraded =>
      refine authentic_upheld h ?_ ?_ hr'
      · exact .of_eq rfl
      · rintro k value ⟨cx, c, heq, -⟩
        cases heq

end

/-! ## Every history -/

/-- **Announced provenance can neither be forged nor go stale.**  In every state a history reaches, a
stored record that carries a deployer or an announce time carries all five provenance values of the
last successful announce of its name, made by a principal that was then a listed deployer, and points
at the address that announce named; the target of any record has not changed since any of its
provenance values was written; and no flat name is announced. -/
theorem provenance_authentic (h : Run (machine E) anyEvent init tr w) {r : Record}
    (hget : w.canister.records.get name = some r) : Authentic tr name r := by
  have key : ∀ r, w.canister.records.get name = some r → Authentic tr name r := by
    refine run_induction (I := fun tr w => ∀ r, w.canister.records.get name = some r →
      Authentic tr name r) rfl ?_ ?_ h
    · intro r hr
      cases hr
    · intro tr w e w' o hrun hi _ hs r' hr'
      exact authentic_step (run_shape hrun).named hi hs hr'
  exact key r hget

end World

namespace Script

/-- What a deployer reports. -/
def report (name repo : String) : Announcement :=
  ⟨name, ⟨[9]⟩, repo, String.ofList (List.replicate 40 'a'), String.ofList (List.replicate 64 'b')⟩

/-- A deployer is listed and announces a name twice; the owner adds a tag in between. -/
def deployed : List Event :=
  [.call (controller 0) (.addDeployer ⟨[6]⟩), .call (caller 6 1) (.announce (report "h/x" "r/1")),
    .call (caller 6 2) (.setText "h/x" "tags" (some "wallet")),
    .call (caller 6 3) (.announce (report "h/x" "r/2"))]

end Script

namespace World

/-- The record of an announced name is accounted for. -/
theorem provenance_authentic_deployed : ∃ (tr : History Env.reference) (w : World Env.reference)
    (r : Record), w.canister.records.get "h/x" = some r ∧ ("repo", "r/2") ∈ r.text ∧
      ("tags", "wallet") ∈ r.text ∧ Authentic tr "h/x" r := by
  obtain ⟨tr, w, hrun, -, hany⟩ := Machine.exists_run_of_exec (machine Env.reference) anyEvent init
    Script.deployed (fun _ w => (w.canister.records.get "h/x").any (fun r =>
      decide (("repo", "r/2") ∈ r.text ∧ ("tags", "wallet") ∈ r.text)) = true)
    (by decide +kernel)
  obtain ⟨r, hget, hr⟩ := (Option.any_eq_true _ _).mp hany
  obtain ⟨hrepo, htags⟩ := of_decide_eq_true hr
  exact ⟨tr, w, r, hget, hrepo, htags, provenance_authentic hrun hget⟩

end World
