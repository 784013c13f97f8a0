import Mathlib.Algebra.Order.BigOperators.Group.List
import IcNameService.Books.Account

/-!
# The terms of a revealed bid

A reveal opens a bid in the crate's list and writes the bidder's terms in a list of its own, and a later
commitment or close touches only one of the two.  The invariant that ties them together is about the bids
that are revealed now: each has the one entry of its bidder, written by the reveal that opened it, and a
deposit that covers the bid and the opening balance fixed then.

* `World.FixedAtReveal` — the message that fixed the terms.
* `World.Termed` — the invariant of one auction; `World.run_termed` carries it along every lawful run.
-/

namespace State

variable {E : Env} {s : State E}

/-- A reveal is taken when the deposit covers the bid and one grace period of tax at it. -/
lemma revealed_covers {cfg : Config} {name aliasTo : String} {bidder : Principal} {n now : ℕ}
    {salt : Bytes} {r : Running E} (h : s.revealed cfg name bidder n salt aliasTo now = .ok r) :
    satAdd n (minDeposit E cfg n) ≤
      (((E.auction.bids r.auction).find? fun b => b.bidder = bidder.bytes).map Bid.deposit).getD 0 := by
  simp only [revealed] at h
  split at h
  · cases h
  · obtain ⟨auction, -, h⟩ := Except.bind_eq_ok.mp h
    split_ifs at h with hmax hneed
    cases h
    exact not_lt.mp hneed

section

variable {cfg : Config} {name aliasTo : String} {bidder : Principal} {n now : ℕ} {salt : Bytes}
  {old r : Running E} (hget : s.auctions.get name = some old)
  (hr : s.revealed cfg name bidder n salt aliasTo now = .ok r)

include hget hr

lemma revealed_targets : r.targets = old.targets.filter (fun t => t.1 ≠ bidder.bytes) ++
    [(bidder.bytes, ⟨aliasTo, minDeposit E cfg n⟩)] := by
  obtain ⟨old', hget', -, -, htargets⟩ := revealed_ok hr
  rw [hget] at hget'
  cases hget'
  exact htargets

/-- The entry a reveal writes is the only one of its bidder. -/
lemma revealed_targets_nodup (h : (old.targets.map Prod.fst).Nodup) :
    (r.targets.map Prod.fst).Nodup := by
  rw [revealed_targets hget hr, List.map_append, List.nodup_append]
  refine ⟨h.sublist (List.filter_sublist.map _), by simp, ?_⟩
  intro a ha c hc
  obtain ⟨t, ht, rfl⟩ := List.mem_map.mp ha
  have hne : t.1 ≠ bidder.bytes := by simpa using (List.mem_filter.mp ht).2
  simp only [List.map_cons, List.map_nil, List.mem_singleton] at hc
  rw [hc]
  exact hne

/-- After a reveal a bid is the revealer's, opened and covered by its deposit, or one of the others'. -/
lemma revealed_bids (hV : E.auction.VickreyLaws)
    (hnd : ((E.auction.bids old.auction).map Bid.bidder).Nodup)
    (hfit : ∀ b ∈ E.auction.bids old.auction, b.deposit < u128Max) {b : Bid}
    (hb : b ∈ E.auction.bids r.auction) :
    (b.bidder = bidder.bytes ∧ b.revealed = some n ∧ n + minDeposit E cfg n ≤ b.deposit) ∨
      (b.bidder ≠ bidder.bytes ∧ b ∈ E.auction.bids old.auction) := by
  obtain ⟨old', hget', hreveal, -⟩ := revealed_ok hr
  rw [hget] at hget'
  cases hget'
  have hfind := Keyed.find_eq (nodup_reveal hV hnd hreveal) b hb
  obtain ⟨-, -, hbids⟩ := hV.reveal_ok _ _ _ _ _ _ hreveal
  rw [hbids] at hb
  obtain ⟨b₀, hb₀, rfl⟩ := List.mem_map.mp hb
  split_ifs at hfind ⊢ with hbidder
  · refine Or.inl ⟨hbidder, rfl, ?_⟩
    -- the deposit is below the largest `u128`, so the sum it covers did not saturate
    have hcovers := revealed_covers hr
    have hlt := hfit b₀ hb₀
    simp only [hbidder] at hfind
    rw [hfind, Option.map_some, Option.getD_some, satAdd] at hcovers
    simp only at hcovers ⊢
    omega
  · exact Or.inr ⟨hbidder, hb₀⟩

end

end State

namespace World

variable {E : Env} {tr : History E} {w w' : World E}

/-- The bidder's reveal of `n` fixed these terms, under the config of that moment, and stored them. -/
def FixedAtReveal (tr : History E) (name : String) (bidder : Bytes) (n : ℕ) (terms : Terms) : Prop :=
  ∃ e ∈ tr, ∃ cx salt, e.event = .call cx (.reveal name n salt terms.aliasTo) ∧
    cx.caller.bytes = bidder ∧ terms.openingBalance = minDeposit E e.pre.canister.config n ∧
    ∃ r, e.post.canister.auctions.get name = some r ∧ (bidder, terms) ∈ r.targets

lemma FixedAtReveal.later {name : String} {bidder : Bytes} {n : ℕ} {terms : Terms}
    (h : FixedAtReveal tr name bidder n terms) (e : Entry (World E) Event Output) :
    FixedAtReveal (e :: tr) name bidder n terms := by
  obtain ⟨e', he', hfixed⟩ := h
  exact ⟨e', List.mem_cons_of_mem _ he', hfixed⟩

/-- **The terms of an auction.**  No bidder has two entries, and every revealed bid has one, fixed at its
reveal and covered by its deposit. -/
structure Termed (tr : History E) (name : String) (r : Running E) : Prop where
  nodup : (r.targets.map Prod.fst).Nodup
  revealed : ∀ b ∈ E.auction.bids r.auction, ∀ n, b.revealed = some n →
    ∃ terms, (b.bidder, terms) ∈ r.targets ∧ n + terms.openingBalance ≤ b.deposit ∧
      FixedAtReveal tr name b.bidder n terms

namespace Termed

variable {name : String} {r r' : Running E}

lemma later (h : Termed tr name r) (e : Entry (World E) Event Output) : Termed (e :: tr) name r where
  nodup := h.nodup
  revealed b hb n hn := by
    obtain ⟨terms, hmem, hcover, hfixed⟩ := h.revealed b hb n hn
    exact ⟨terms, hmem, hcover, hfixed.later e⟩

/-- A commitment brings a bid that is not revealed, and leaves the terms. -/
lemma committed (hV : E.auction.VickreyLaws) {bidder sealed : Bytes} {deposit now : ℕ}
    {replaced : Option ℕ}
    (h : Termed tr name r ∨ (E.auction.bids r.auction = [] ∧ r.targets = []))
    (hcommit : E.auction.commit r.auction now bidder sealed deposit = .ok (r'.auction, replaced))
    (htargets : r'.targets = r.targets) : Termed tr name r' := by
  obtain ⟨-, hperm, -⟩ := hV.commit_ok _ _ _ _ _ _ _ hcommit
  refine ⟨?_, fun b hb n hn => ?_⟩
  · rw [htargets]
    rcases h with h | ⟨-, hempty⟩
    · exact h.nodup
    · rw [hempty]
      exact List.nodup_nil
  · rcases List.mem_cons.mp (hperm.mem_iff.mp hb) with rfl | hb
    · cases hn
    · have hold := (List.mem_filter.mp hb).1
      rcases h with h | ⟨hempty, -⟩
      · rw [htargets]
        exact h.revealed b hold n hn
      · rw [hempty] at hold
        cases hold

/-- A reveal writes its bidder's entry in place of an earlier one, and leaves those of the others. -/
lemma afterReveal (hV : E.auction.VickreyLaws) {s : State E} {cx : Ctx} {aliasTo : String} {n : ℕ}
    {salt : Bytes} {old : Running E} {tr' : History E}
    (h : Termed tr name old) (hlater : ∀ {b n terms}, FixedAtReveal tr name b n terms →
      FixedAtReveal tr' name b n terms)
    (hfixed : (cx.caller.bytes, ⟨aliasTo, minDeposit E s.config n⟩) ∈ r'.targets →
      FixedAtReveal tr' name cx.caller.bytes n ⟨aliasTo, minDeposit E s.config n⟩)
    (hget : s.auctions.get name = some old)
    (hnd : ((E.auction.bids old.auction).map Bid.bidder).Nodup)
    (hfit : ∀ b ∈ E.auction.bids old.auction, b.deposit < u128Max)
    (hr : s.revealed s.config name cx.caller n salt aliasTo cx.now = .ok r') :
    Termed tr' name r' := by
  have htargets := State.revealed_targets hget hr
  refine ⟨State.revealed_targets_nodup hget hr h.nodup, fun b hb m hm => ?_⟩
  rcases State.revealed_bids hget hr hV hnd hfit hb with ⟨hmine, hn, hcover⟩ | ⟨hother, hb₀⟩
  · rw [hn] at hm
    cases hm
    have hmem : (cx.caller.bytes, ⟨aliasTo, minDeposit E s.config n⟩) ∈ r'.targets := by
      rw [htargets]
      exact List.mem_append_right _ (List.mem_singleton.mpr rfl)
    rw [hmine]
    exact ⟨_, hmem, hcover, hfixed hmem⟩
  · obtain ⟨terms, hmem, hcover, hold⟩ := h.revealed b hb₀ m hm
    refine ⟨terms, ?_, hcover, hlater hold⟩
    rw [htargets]
    exact List.mem_append_left _ (List.mem_filter.mpr ⟨hmem, by simpa using hother⟩)

end Termed

/-- What one message leaves of the terms of the auctions it leaves. -/
lemma termed_step (hV : E.auction.VickreyLaws) {e : Event} {o : Output} (hb : Balanced w)
    (ht : ∀ name r, w.canister.auctions.get name = some r → Termed tr name r)
    (hs : Stepped w e w' o) {name : String} {r : Running E}
    (hget : w'.canister.auctions.get name = some r) : Termed (⟨w, e, o, w'⟩ :: tr) name r := by
  have hwritten : ∀ {m : Option (Ctx × Call)}, State.AuctionWrite w.canister m name r →
      (∀ cx c, m = some (cx, c) → e = .call cx c) → Termed (⟨w, e, o, w'⟩ :: tr) name r := by
    intro m hw hm
    cases hw with
    | kept hkept => exact (ht name r hkept).later _
    | @committed _ _ r₀ _ _ _ _ _ _ hbase hcommit htargets =>
        refine Termed.later (Termed.committed hV ?_ hcommit htargets) _
        exact hbase.imp_left fun hstored => ht name r₀ hstored
    | @revealed cx _ aliasTo n salt _ hr =>
        obtain ⟨old, hold, -⟩ := State.revealed_ok hr
        refine (ht name old hold).afterReveal hV (fun h => h.later _) (fun hmem => ?_) hold
          (hb.tidy.oneBid name old hold) (fun b hbid => ?_) hr
        · exact ⟨_, List.mem_cons_self, cx, salt, hm _ _ rfl, rfl, rfl, r, hget, hmem⟩
        · -- an escrowed deposit is part of what was ever moved
          have hdeposit : b.deposit ≤ E.auction.escrow old.auction :=
            List.le_sum_of_mem (List.mem_map_of_mem hbid)
          have hescrow := w.canister.escrow_le_escrows hold
          have hvalue := hb.value_le
          have hvolume := hb.volume_lt
          rw [State.value] at hvalue
          omega
  cases hs with
  | answered _ hc =>
      refine hwritten (State.called_auctionWrite hc hget) fun _ _ hm => ?_
      cases hm
      rfl
  | suspended _ hc =>
      refine hwritten (State.called_auctionWrite hc hget) fun _ _ hm => ?_
      cases hm
      rfl
  | resumed _ _ hr =>
      refine hwritten (State.resumed_auctionWrite hV hr hget) fun _ _ hm => ?_
      cases hm
  | continued => exact (ht name r hget).later _
  | upgraded => exact (ht name r hget).later _

/-- **In every state a lawful history reaches, every auction has its terms.** -/
theorem run_termed (hX : E.auction.TaxLaws) (hV : E.auction.VickreyLaws)
    (h : Run (machine E) lawful init tr w) {name : String} {r : Running E}
    (hget : w.canister.auctions.get name = some r) : Termed tr name r := by
  have key : ∀ name r, w.canister.auctions.get name = some r → Termed tr name r := by
    refine run_induction (I := fun tr w => ∀ name r, w.canister.auctions.get name = some r →
      Termed tr name r) rfl ?_ ?_ h
    · intro name r hr
      cases hr
    · intro tr w e w' o hrun hi _ hs name r hr
      exact termed_step hV (run_balanced hX hV hrun) hi hs hr
  exact key name r hget

end World
