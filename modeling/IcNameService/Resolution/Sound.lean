import IcNameService.Canister.Shape
import IcNameService.Core.Lines
import IcNameService.Resolution.Honest

/-!
# What an accepted answer says

The verifier sees certified records and nothing else of the state.  An answer it accepts, whoever made
it up, is a walk of stored records: each record of the chain has the canonical bytes of the one stored
under its name, and with them its target.  What the verifier cannot see is what `follow` refuses a
name for besides: a lapse, and the depth of the chain.

* `canonical_target` — canonical bytes give the target away, as long as it is one line.
* `stored_of_accepted` — an accepted chain is stored, record by record.
* `World.accepted_answers_follow` — and `follow` answers with it exactly when the chain is not too deep
  and meets no lapsed record.
* `World.accepted_answers_differ` — a lapsed name, a deep chain, and a record cut otherwise.
-/

variable {E : Env}

/-! ## Reading a target back -/

namespace Record

/-- The two records certify the same, under one name, with one target. -/
structure Agrees (E : Env) (r r' : Record) : Prop where
  name : r.name = r'.name
  target : r.target = r'.target
  bytes : r.canonical E = r'.canonical E

/-- What follows the target's line. -/
def tail (E : Env) (r : Record) : String :=
  String.join (r.text.map fun e => "text." ++ e.1 ++ "=" ++ e.2 ++ "\n") ++
    (s!"created_ns={r.createdNs}\n" ++ (s!"updated_ns={r.updatedNs}\n" ++
      (s!"changed_hands_ns={r.changedHandsNs}\n" ++
        (flatText r.flat ++ previousText E r.previousTarget))))

/-- The first three lines of the canonical form. -/
lemma canonicalText_lines (r : Record) : r.canonicalText E =
    "name=" ++ (r.name ++ ("\n" ++ ("owner=" ++ (E.toText r.owner ++ ("\n" ++
      ("target=" ++ (targetText E r.target ++ ("\n" ++ r.tail E)))))))) := by
  unfold canonicalText tail
  simp only [String.append_assoc]

lemma targetText_injective (hT : E.TextLaws) : Function.Injective (targetText E) := by
  have hne : ∀ (p : Principal) (n : String), "address:" ++ E.toText p ≠ "alias:" ++ n := by
    intro p n h
    have := congrArg String.toList h
    simp [String.toList_append] at this
  rintro (p | n) (q | m) h
  · rw [hT.injective ((String.append_right_inj _).mp h)]
  · exact absurd h (hne p m)
  · exact absurd h.symm (hne q n)
  · rw [(String.append_right_inj _).mp h]

/-- **Canonical bytes give the target away**, as long as both are one line. -/
theorem canonical_target (hT : E.TextLaws) {r r' : Record} (hname : r.name = r'.name)
    (hr : OneLine (targetText E r.target)) (hr' : OneLine (targetText E r'.target))
    (h : r.canonical E = r'.canonical E) : r.target = r'.target := by
  have htext : r.canonicalText E = r'.canonicalText E := asBytes_injective h
  rw [canonicalText_lines, canonicalText_lines, hname] at htext
  simp only [String.append_right_inj] at htext
  obtain ⟨-, htext⟩ := line_cancel (hT.no_newline _) (hT.no_newline _) htext
  rw [String.append_right_inj] at htext
  exact targetText_injective hT (line_cancel hr hr' htext).1

/-! ## What is one line -/

lemma oneLine_address (hT : E.TextLaws) (p : Principal) : OneLine (targetText E (.address p)) :=
  OneLine.append (by decide) (hT.no_newline p)

lemma oneLine_alias {n : String} (h : OneLine n) : OneLine (targetText E (.alias n)) :=
  OneLine.append (by decide) h

lemma oneLine_of_nameable {name : String} (h : State.Nameable name) : OneLine name := by
  simp only [State.Nameable] at h
  split_ifs at h
  · obtain ⟨p, hp⟩ := h
    exact Names.newline_notMem_of_split hp
  · obtain ⟨-, -, hall⟩ := Names.checkSegment_ok (Names.checkFlat_ok h).1
    exact fun hmem => absurd (hall _ hmem) (by decide)

lemma oneLine_targetText (hT : E.TextLaws) {t : Target} (h : t.Valid) : OneLine (targetText E t) := by
  rcases t with p | dest
  · exact oneLine_address hT p
  · obtain ⟨p, hp⟩ := h dest rfl
    exact oneLine_alias (Names.newline_notMem_of_split hp)

lemma Shaped.nameable {r : Record} (h : r.Shaped) : State.Nameable r.name := by
  rw [State.Nameable]
  split_ifs with hscoped
  · exact (h.plain hscoped).1
  · exact (h.flatName (by simpa using hscoped)).1

lemma Shaped.target_valid {r : Record} (h : r.Shaped) : r.target.Valid := by
  cases hscoped : Names.isScoped r.name with
  | true => exact (h.plain hscoped).2.2.2
  | false =>
      obtain ⟨-, -, htarget, -⟩ := h.flatName hscoped
      exact htarget.valid

end Record

namespace State

variable {s : State E}

/-- A stored name is one `follow` will look at. -/
lemma Shape.nameable (hs : s.Shape) {name : String} {r : Record}
    (hget : s.records.get name = some r) : Nameable name := by
  have hn := hs.named name r hget
  have hr := hs.records name r hget
  rw [← hn]
  simp only [Nameable]
  split_ifs with hscoped
  · exact (hr.plain hscoped).1
  · exact (hr.flatName (by simpa using hscoped)).1

/-! ## Accepted chains are stored -/

/-- **A chain of records with stored bytes, linked by aliases up to an address, is a walk of stored
records.** -/
theorem stored_of_chain (hT : E.TextLaws) (hs : s.Shape) {p : Principal} :
    ∀ {chain : List Record}, (∀ r ∈ chain, ∃ r', s.records.get r.name = some r' ∧
        r'.canonical E = r.canonical E) →
      (chain.IsChain fun r next => r.target = .alias next.name) →
      (∃ r, chain.getLast? = some r ∧ r.target = .address p) →
      ∃ stored name, (∃ r, chain.head? = some r ∧ r.name = name) ∧ s.Resolves name stored p ∧
        List.Forall₂ (Record.Agrees E) chain stored := by
  intro chain
  induction chain with
  | nil =>
      rintro - - ⟨r, hr, -⟩
      cases hr
  | cons r rest ih =>
      intro hleaf hlinks hlast
      obtain ⟨r', hget, hbytes⟩ := hleaf r List.mem_cons_self
      have hname := hs.named _ _ hget
      have hline := Record.oneLine_targetText hT (hs.records _ _ hget).target_valid
      cases rest with
      | nil =>
          obtain ⟨last, hlast, htarget⟩ := hlast
          simp only [List.getLast?_singleton, Option.some.injEq] at hlast
          subst hlast
          have hsame : r'.target = r.target := by
            refine Record.canonical_target hT hname hline ?_ hbytes
            rw [htarget]
            exact Record.oneLine_address hT p
          refine ⟨[r'], r.name, ⟨r, rfl, rfl⟩, .ends hget ?_, ?_⟩
          · simp [Record.pointsTo, hsame, htarget]
          · exact .cons ⟨hname.symm, hsame.symm, hbytes.symm⟩ .nil
      | cons next rest =>
          rw [List.isChain_cons_cons] at hlinks
          obtain ⟨hlink, hlinks⟩ := hlinks
          obtain ⟨stored, name, ⟨first, hfirst, hnext⟩, hwalk, hagree⟩ :=
            ih (fun x hx => hleaf x (List.mem_cons_of_mem _ hx)) hlinks (by simpa using hlast)
          cases hfirst
          -- the next name is stored, so it has no newline, and neither has this alias
          obtain ⟨next', hget', -⟩ := hleaf next (by simp)
          have honeline : OneLine next.name := by
            rw [← hs.named _ _ hget']
            exact Record.oneLine_of_nameable (hs.records _ _ hget').nameable
          have hsame : r'.target = r.target := by
            refine Record.canonical_target hT hname hline ?_ hbytes
            rw [hlink]
            exact Record.oneLine_alias honeline
          refine ⟨r' :: stored, r.name, ⟨r, rfl, rfl⟩, .on hget ?_ hwalk, ?_⟩
          · simp [Record.pointsTo, hsame, hlink, hnext]
          · exact .cons ⟨hname.symm, hsame.symm, hbytes.symm⟩ hagree

/-- A witness with the canister's root reveals stored records only. -/
lemma stored_of_leaf (hC : E.cert.CertLaws) (hB : E.cert.Binding) (hm : s.Mirrored)
    {witness : E.cert.HashTree} {name : String} {v : Bytes}
    (hroot : s.certifiedData = E.cert.digest witness)
    (h : E.cert.lookupPath witness [asBytes "names", asBytes name] = some v) :
    ∃ r, s.records.get name = some r ∧ r.canonical E = v := by
  have hskip : ∃ below, Certify.skipDigest E = E.cert.labeledHash (asBytes "http_expr") below :=
    ⟨_, hC.digest_labeled _ _⟩
  obtain ⟨below, hskip⟩ := hskip
  refine hm.stored (hB (asBytes "http_expr") (asBytes "names") below s.tree witness _ v ?_ ?_ h)
  · exact fun heq => absurd (asBytes_injective heq) (by decide)
  · rw [← hroot, hm.published, Certify.rootHash, hskip]
    rfl

/-- **An accepted answer is stored, record by record.** -/
theorem stored_of_accepted (hC : E.cert.CertLaws) (hB : E.cert.Binding) (hT : E.TextLaws)
    (hs : s.Shape) (hm : s.Mirrored) {name : String} {answer : Resolved E}
    (h : Verifier.Accepted name s.certifiedData answer) :
    ∃ stored, s.Resolves name stored answer.canister ∧
      List.Forall₂ (Record.Agrees E) answer.chain stored := by
  have hleaf : ∀ r ∈ answer.chain, ∃ r', s.records.get r.name = some r' ∧
      r'.canonical E = r.canonical E := by
    intro r hr
    have := h.leaf r hr
    rw [Verifier.canonical_eq] at this
    exact stored_of_leaf hC hB hm h.root this
  obtain ⟨stored, name', ⟨r, hr, hname⟩, hwalk, hagree⟩ :=
    stored_of_chain hT hs hleaf h.links h.last
  obtain ⟨r₀, hr₀, hname₀⟩ := h.first
  rw [hr] at hr₀
  cases hr₀
  rw [hname] at hname₀
  subst hname₀
  exact ⟨stored, hwalk, hagree⟩

end State

namespace World

variable {w : World E} {tr : History E}

/-- **The verifier accepts only stored chains.**  Whatever answer it accepts against the certified data
of a state reached, the chain is record by record a stored one, with the same name, target and
canonical bytes, and it walks from the name asked for to the canister answered; and `follow` answers
with that canister and those stored records exactly when there are at most eight of them and none is
a lapsed flat name at the time. -/
theorem accepted_answers_follow (hC : E.cert.CertLaws) (hB : E.cert.Binding) (hT : E.TextLaws)
    (h : Run (machine E) anyEvent init tr w) {name : String} {answer : Resolved E}
    (hok : Verifier.verify name w.canister.certifiedData answer = .ok ()) :
    ∃ stored, List.Forall₂ (Record.Agrees E) answer.chain stored ∧
      (∀ r ∈ stored, w.canister.records.get r.name = some r) ∧
      ∀ now, w.canister.follow name now = .ok (answer.canister, stored) ↔
        stored.length ≤ Certify.maxAliasDepth ∧
          ∀ r ∈ stored, State.lapsed (E := E) w.canister.config r now = false := by
  have hs := run_shape h
  have hn := hs.named
  obtain ⟨stored, hwalk, hagree⟩ := State.stored_of_accepted hC hB hT hs
    (run_mirrored hC .fresh h) (Verifier.verify_eq_ok.mp hok)
  refine ⟨stored, hagree, fun r hr => hwalk.stored hn hr, fun now => ?_⟩
  obtain ⟨r, rest, -, hget⟩ := hwalk.head_get
  rw [State.follow_eq_ok hn]
  exact ⟨fun h => h.2.2, fun h => ⟨hs.nameable hget, hwalk, h⟩⟩

/-- The answer for a name won over a scoped one is stored, and the theorem says when it is followed. -/
theorem accepted_answers_follow_won : ∃ (w : World Env.reference) (answer : Resolved Env.reference)
    (stored : List Record), answer.chain.length = 2 ∧
      List.Forall₂ (Record.Agrees Env.reference) answer.chain stored ∧
      ∀ now, w.canister.follow "abc" now = .ok (answer.canister, stored) ↔
        stored.length ≤ Certify.maxAliasDepth ∧
          ∀ r ∈ stored, State.lapsed (E := Env.reference) w.canister.config r now = false := by
  obtain ⟨tr, w, hrun, -, hany⟩ := Machine.exists_run_of_exec (machine Env.reference) anyEvent init
    (Script.opening ++ Script.housing ++ Script.winning 1 2 "abc" "h/x" 1000 2000 5)
    (fun _ w => (w.canister.resolve "abc" 26 none).toOption.any (fun a => a.chain.length = 2 ∧
      Verifier.verify "abc" w.canister.certifiedData a = .ok ()) = true)
    (by decide +kernel)
  obtain ⟨answer, -, hanswer⟩ := (Option.any_eq_true _ _).mp hany
  obtain ⟨hlen, hok⟩ := of_decide_eq_true hanswer
  obtain ⟨stored, hagree, -, hfollow⟩ := accepted_answers_follow Reference.certification_certLaws
    Reference.certification_binding Env.reference_textLaws hrun hok
  exact ⟨w, answer, stored, hlen, hagree, hfollow⟩

/-- The verifier accepts the answer, and `follow` does not answer so. -/
def Disputed (w : World Env.reference) (name : String) (now : ℕ) (answer : Resolved Env.reference) :
    Prop :=
  w.now ≤ now ∧ Verifier.verify name w.canister.certifiedData answer = .ok () ∧
    w.canister.follow name now ≠ .ok (answer.canister, answer.chain)

instance (w : World Env.reference) (name : String) (now : ℕ) (answer : Resolved Env.reference) :
    Decidable (Disputed w name now answer) := by
  simp only [Disputed]
  infer_instance

/-- Nine names, each an alias for the next but the last. -/
def deepChain : List Event :=
  .call (Script.caller 5 0) (.registerHandle "h") ::
    [("h/a", "h/b"), ("h/b", "h/c"), ("h/c", "h/d"), ("h/d", "h/e"), ("h/e", "h/f"), ("h/f", "h/g"),
      ("h/g", "h/i"), ("h/i", "h/j")].map
      (fun e => .call (Script.caller 5 0) (.setRecord e.1 (.alias e.2))) ++
    [.call (Script.caller 5 0) (.setRecord "h/j" (.address ⟨[9]⟩))]

/-- **Accepted, and not what `follow` answers**: a flat name that has lapsed since its last write; a
chain of nine; and a record whose text is cut at another `=`. -/
theorem accepted_answers_differ :
    (∃ tr w answer, Run (machine Env.reference) lawful init tr w ∧
      Disputed w "abc" 85 answer ∧ w.canister.resolve "abc" 26 none = .ok answer) ∧
    (∃ tr w answer, Run (machine Env.reference) lawful init tr w ∧
      Disputed w "h/a" 0 answer ∧ answer.chain.length = 9) ∧
    (∃ tr w answer, Run (machine Env.reference) lawful init tr w ∧
      Disputed w "h/x" 0 answer ∧ answer.chain.length = 1) := by
  refine ⟨?_, ?_, ?_⟩
  · obtain ⟨tr, w, hrun, -, hany⟩ := Machine.exists_run_of_exec (machine Env.reference) lawful init
      (Script.opening ++ Script.housing ++
        Script.winning 1 2 "abc" "h/x" Script.cyclePerNs (2 * Script.cyclePerNs) 5)
      (fun _ w => (w.canister.resolve "abc" 26 none).toOption.any (Disputed w "abc" 85) = true)
      (by decide +kernel)
    obtain ⟨answer, hanswer, hdisputed⟩ := (Option.any_eq_true _ _).mp hany
    exact ⟨tr, w, answer, hrun, of_decide_eq_true hdisputed, Except.toOption_eq_some.mp hanswer⟩
  · obtain ⟨tr, w, hrun, -, hdisputed, hlen⟩ := Machine.exists_run_of_exec (machine Env.reference)
      lawful init deepChain
      (fun _ w => Disputed w "h/a" 0 ⟨"h/a", ⟨[9]⟩, w.canister.records.values, none,
        w.canister.witness w.canister.records.keys⟩ ∧ w.canister.records.values.length = 9)
      (by decide +kernel)
    exact ⟨tr, w, _, hrun, hdisputed, hlen⟩
  · obtain ⟨tr, w, hrun, -, hdisputed, hlen⟩ := Machine.exists_run_of_exec (machine Env.reference)
      lawful init
      (Script.housing ++ [.call (Script.caller 5 0) (.setText "h/x" "note" (some "a=b"))])
      (fun _ w => Disputed w "h/x" 0 ⟨"h/x", ⟨[9]⟩,
        w.canister.records.values.map (fun r => { r with text := [("note=a", "b")] }), none,
        w.canister.witness ["h/x"]⟩ ∧ w.canister.records.values.length = 1)
      (by decide +kernel)
    exact ⟨tr, w, _, hrun, hdisputed, by simpa using hlen⟩

end World
