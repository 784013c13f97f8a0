import IcNameService.Canister.Verifier
import IcNameService.External.Reference
import IcNameService.Resolution.Follow
import IcNameService.Resolution.Mirror

/-!
# Every honest answer verifies

What `resolve` answers, the verifier accepts: the witness digests to the published root because its
parts do, it reveals every record of the chain because the tree mirrors the records, and the chain is
a walk from the name asked for.

* `digest_witness`, `lookup_witness` — the merged witness keeps the root and reveals every name.
* `accepted_resolve` — what `resolve` answers in a mirrored state.
* `World.honest_answers_verify` — in every state reached, from a fresh start or an upgrade.
-/

namespace State

variable {E : Env} (hC : E.cert.CertLaws) {s : State E}

include hC

/-- Merging witnesses of one tree keeps its root and what was revealed, and reveals every name. -/
lemma mergedWitness_some (t : E.cert.Tree) : ∀ (names : List String) (m : E.cert.HashTree),
    E.cert.digest m = E.cert.rootHash t → ∃ w, mergedWitness t (some m) names = some w ∧
      E.cert.digest w = E.cert.rootHash t ∧
      (∀ k v, E.cert.lookupPath m [k] = some v → E.cert.lookupPath w [k] = some v) ∧
      ∀ n ∈ names, ∀ v, E.cert.treeGet t (asBytes n) = some v →
        E.cert.lookupPath w [asBytes n] = some v := by
  intro names
  induction names with
  | nil => exact fun m hm => ⟨m, rfl, hm, fun _ _ h => h, by simp⟩
  | cons n names ih =>
      intro m hm
      have hn := hC.digest_witness t (asBytes n)
      have hroot : E.cert.digest (E.cert.mergeHashTrees m (E.cert.witness t (asBytes n))) =
          E.cert.rootHash t := by rw [hC.digest_merge _ _ (hm.trans hn.symm), hm]
      obtain ⟨w, hw, hdigest, hkept, hnames⟩ := ih _ hroot
      refine ⟨w, hw, hdigest, fun k v h => hkept k v ?_, fun n' hn' v h => ?_⟩
      · exact hC.lookup_merge t _ _ _ _ hm hn (Or.inl h)
      · rcases List.mem_cons.mp hn' with rfl | hn'
        · exact hkept _ _ (hC.lookup_merge t _ _ _ _ hm hn (Or.inr (hC.lookup_witness _ _ _ h)))
        · exact hnames n' hn' v h

/-- The witnesses of at least one name, merged. -/
lemma mergedWitness_cons (t : E.cert.Tree) (n : String) (names : List String) :
    ∃ w, mergedWitness t none (n :: names) = some w ∧ E.cert.digest w = E.cert.rootHash t ∧
      ∀ n' ∈ n :: names, ∀ v, E.cert.treeGet t (asBytes n') = some v →
        E.cert.lookupPath w [asBytes n'] = some v := by
  obtain ⟨w, hw, hdigest, hkept, hnames⟩ :=
    mergedWitness_some hC t names (E.cert.witness t (asBytes n)) (hC.digest_witness _ _)
  refine ⟨w, hw, hdigest, fun n' hn' v h => ?_⟩
  rcases List.mem_cons.mp hn' with rfl | hn'
  · exact hkept _ _ (hC.lookup_witness _ _ _ h)
  · exact hnames n' hn' v h

/-- **Any witness digests to the root of the canister.** -/
theorem digest_witness (names : List String) :
    E.cert.digest (s.witness names) = Certify.rootHash E s.tree := by
  simp only [witness, hC.digest_fork, hC.digest_pruned, hC.digest_labeled]
  cases names with
  | nil => simp only [mergedWitness, Option.getD_none, hC.digest_pruned]; rfl
  | cons n names =>
      obtain ⟨w, hw, hdigest, -⟩ := mergedWitness_cons hC s.tree n names
      rw [hw, Option.getD_some, hdigest]
      rfl

/-- **A witness reveals the leaf of every name it is for.** -/
theorem lookup_witness {names : List String} {n : String} (hn : n ∈ names) {v : Bytes}
    (h : E.cert.treeGet s.tree (asBytes n) = some v) :
    E.cert.lookupPath (s.witness names) [asBytes "names", asBytes n] = some v := by
  cases names with
  | nil => cases hn
  | cons n₀ names =>
      obtain ⟨w, hw, -, hnames⟩ := mergedWitness_cons hC s.tree n₀ names
      simp only [witness, hw, Option.getD_some]
      exact (hC.lookup_labeled _ _ _ _).trans (hnames n hn v h)

/-- The witness of the HTTP headers digests to the same root. -/
theorem digest_httpWitness : E.cert.digest s.httpWitness = Certify.rootHash E s.tree := by
  rw [httpWitness, hC.digest_fork, hC.digest_pruned]
  rfl

/-- **What `resolve` answers, the verifier accepts.** -/
theorem accepted_resolve (hn : s.Named) (hm : s.Mirrored) {name : String} {now : ℕ}
    {certificate : Option Bytes} {answer : Resolved E}
    (h : s.resolve name now certificate = .ok answer) :
    Verifier.Accepted name s.certifiedData answer := by
  obtain ⟨⟨p, chain⟩, hfollow, h⟩ := Except.bind_eq_ok.mp h
  cases h
  obtain ⟨-, hwalk, -, -⟩ := (follow_eq_ok hn).mp hfollow
  refine ⟨?_, fun r hr => ?_, rfl, hwalk.first hn, hwalk.links hn, hwalk.last⟩
  · rw [hm.published, digest_witness hC]
  · rw [Verifier.canonical_eq]
    exact lookup_witness hC (List.mem_map_of_mem hr) (hm.leaf (hwalk.stored hn hr))

end State

namespace World

variable {E : Env} {s₀ : State E} {w : World E} {tr : History E}

/-- **Every honest answer verifies.**  In every state reached, from a fresh start or an upgrade, the
certified tree holds one leaf for each record, under its name, with its canonical bytes, and no other;
the verifier accepts whatever `resolve` answers; and the witness of the HTTP headers digests to the
certified data too. -/
theorem honest_answers_verify (hC : E.cert.CertLaws) (h₀ : State.Booted s₀)
    (h : Run (machine E) anyEvent (start s₀) tr w) :
    (∀ k v, E.cert.treeGet w.canister.tree k = some v ↔ ∃ r,
      w.canister.records.get r.name = some r ∧ asBytes r.name = k ∧ r.canonical E = v) ∧
    (∀ name r, w.canister.records.get name = some r → r.name = name) ∧
    (∀ name now certificate answer, w.canister.resolve name now certificate = .ok answer →
      Verifier.verify name w.canister.certifiedData answer = .ok ()) ∧
    E.cert.digest w.canister.httpWitness = w.canister.certifiedData := by
  have hn := run_named h₀ h
  have hm := run_mirrored hC h₀ h
  refine ⟨fun k v => ?_, hn, fun name now certificate answer hresolve => ?_, ?_⟩
  · rw [hm.leaves]
    constructor
    · rintro ⟨name, r, hget, hk, hv⟩
      have hname := hn name r hget
      subst hname
      exact ⟨r, hget, hk, hv⟩
    · rintro ⟨r, hget, hk, hv⟩
      exact ⟨r.name, r, hget, hk, hv⟩
  · exact Verifier.verify_eq_ok.mpr (State.accepted_resolve hC hn hm hresolve)
  · rw [State.digest_httpWitness hC, hm.published]

/-- A flat name is won over a scoped one, and the answer for it verifies. -/
theorem honest_answers_verify_won : ∃ (w : World Env.reference) (answer : Resolved Env.reference),
    w.canister.resolve "abc" 26 none = .ok answer ∧ answer.chain.length = 2 ∧
      Verifier.verify "abc" w.canister.certifiedData answer = .ok () := by
  obtain ⟨tr, w, hrun, -, hany⟩ := Machine.exists_run_of_exec (machine Env.reference) anyEvent init
    (Script.opening ++ Script.housing ++ Script.winning 1 2 "abc" "h/x" 1000 2000 5)
    (fun _ w => (w.canister.resolve "abc" 26 none).toOption.any (fun a => a.chain.length = 2) = true)
    (by decide +kernel)
  obtain ⟨answer, hanswer, hlen⟩ := (Option.any_eq_true _ _).mp hany
  have hresolve : w.canister.resolve "abc" 26 none = .ok answer := Except.toOption_eq_some.mp hanswer
  exact ⟨w, answer, hresolve, of_decide_eq_true hlen, (honest_answers_verify
    Reference.certification_certLaws .fresh hrun).2.2.1 "abc" 26 none answer hresolve⟩

end World
