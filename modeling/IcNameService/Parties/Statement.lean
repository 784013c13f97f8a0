import IcNameService.Books.Account
import IcNameService.Market.Visible
import IcNameService.Parties.Transfers

/-!
# Statements of account

Every lawful history has a journal: for each message the transfers it may post, from accounts whose owner
asked for them or who owe them.  What an account holds is what the journal has paid to it, less what it
has taken.

* `World.Moves` — the transfers a message may post.
* `World.stepped_posted` — one message posts such transfers.
* `World.statements_add_up` — **every account is the sum of its statement**, and none falls but by a
  transfer its rules allow.
-/

namespace World

open State (CallMoves ReplyMoves)

variable {E : Env} {w w' : World E} {tr : History E}

/-- What a message may move. -/
def Moves (w : World E) : Event → Transfer Account → Prop
  | .call cx c, t => CallMoves w.canister cx c t
  | .reply now id r _, t => ∃ p, w.pending.get id = some p ∧ ReplyMoves w.canister now r p t
  | .upgrade _, _ => False

/-- The transfers are those of one entry of the history. -/
structure Accounts (e : Entry (World E) Event Output) (ts : List (Transfer Account)) : Prop where
  posted : Journal.Posted ts e.pre.canister.holds e.post.canister.holds
  allowed : ∀ t ∈ ts, Moves e.pre e.event t

/-- **One message posts transfers it may post.** -/
lemma stepped_posted (hX : E.auction.TaxLaws) (hV : E.auction.VickreyLaws) (hb : Balanced w)
    {e : Event} {o : Output} (hlaw : lawful w e) (h : Stepped w e w' o) :
    ∃ ts, Accounts ⟨w, e, o, w'⟩ ts := by
  have hvalue := hb.value_le
  have hvolume := hb.volume_lt
  cases h with
  | answered _ hc =>
      obtain ⟨ts, hts, hmoves⟩ := State.called_posted hX hV hb.tidy (by omega) hc
      exact ⟨ts, hts, hmoves⟩
  | suspended _ hc =>
      obtain ⟨ts, hts, hmoves⟩ := State.called_posted hX hV hb.tidy (by omega) hc
      exact ⟨ts, hts, hmoves⟩
  | @resumed now id r moved p s reply _ hget hr =>
      obtain ⟨hmoves, hfit⟩ := hlaw p hget
      have hput := putIn_le hmoves
      have hout := OrdMap.total_erase_add (f := fun _ (p : Pending) => p.outgoing) hget
      rw [outgoing] at hvalue
      obtain ⟨ts, hts, hallowed⟩ := State.resumed_posted hX hV hb.tidy (hb.carried id p hget)
        (by omega) hr
      exact ⟨ts, hts, fun t ht => ⟨p, hget, hallowed t ht⟩⟩
  | @continued now id moved cfg amount _ hget =>
      exact ⟨[], .nil (State.holds_congr rfl rfl rfl rfl), by simp⟩
  | upgraded => exact ⟨[], .nil (State.holds_congr rfl rfl rfl rfl), by simp⟩

/-- **Every account is the sum of its statement.**  Every lawful history has a journal, entry by entry, of
transfers that the messages may post: to a party what the ledger pulled from it or did not pay it, the
price of its name, or a top-up somebody else paid; from a party what it withdraws, its own tax, the price
or forfeit of its own bid, and the price or top-up it paid in for.  What an account holds is what the
journal paid to it, less what it took; and no account ever falls but by such a transfer. -/
theorem statements_add_up (hX : E.auction.TaxLaws) (hV : E.auction.VickreyLaws)
    (h : Run (machine E) lawful init tr w) :
    (∃ journal : List (List (Transfer Account)), List.Forall₂ Accounts tr journal ∧
      ∀ a, w.canister.holds a + Journal.paid journal.flatten a = Journal.received journal.flatten a) ∧
    ∀ e ∈ tr, ∀ a, e.post.canister.holds a < e.pre.canister.holds a →
      ∃ t, Moves e.pre e.event t ∧ t.payer = some a ∧ 0 < t.amount := by
  have hjournal : ∃ journal : List (List (Transfer Account)), List.Forall₂ Accounts tr journal ∧
      ∀ a, w.canister.holds a + Journal.paid journal.flatten a =
        Journal.received journal.flatten a := by
    refine run_induction (I := fun tr w => ∃ journal : List (List (Transfer Account)),
      List.Forall₂ Accounts tr journal ∧ ∀ a, w.canister.holds a + Journal.paid journal.flatten a =
        Journal.received journal.flatten a) rfl ⟨[], .nil, fun a => by cases a <;> rfl⟩ ?_ h
    intro tr w e w' o hr hi hlaw hs
    obtain ⟨journal, haccounts, hsum⟩ := hi
    obtain ⟨ts, hts⟩ := stepped_posted hX hV (run_balanced hX hV hr) hlaw hs
    refine ⟨ts :: journal, .cons hts haccounts, fun a => ?_⟩
    have hposted := hts.posted a
    have hbefore := hsum a
    simp only [List.flatten_cons, Journal.paid_append, Journal.received_append]
    simp only at hposted
    omega
  refine ⟨hjournal, fun e he a hfalls => ?_⟩
  obtain ⟨newer, older, htr⟩ := List.append_of_mem he
  obtain ⟨hr, hlaw, hs, -⟩ := run_entry rfl h htr
  obtain ⟨ts, hts⟩ := stepped_posted hX hV (run_balanced hX hV hr) hlaw hs
  obtain ⟨t, ht, hpayer, hamount⟩ := hts.posted.falls hfalls
  exact ⟨t, hts.allowed t ht, hpayer, hamount⟩

/-- A name is sold, and the seller withdraws two thousand of what the bid and the sale left. -/
theorem statements_add_up_sold : ∃ (tr : History Env.reference) (w : World Env.reference)
    (journal : List (List (Transfer Account))), List.Forall₂ Accounts tr journal ∧
      w.canister.holds (.party ⟨[2]⟩) = 1000 ∧ w.canister.holds (.party ⟨[3]⟩) = 50 ∧
      w.canister.holds (.party ⟨[2]⟩) + Journal.paid journal.flatten (.party ⟨[2]⟩) =
        Journal.received journal.flatten (.party ⟨[2]⟩) := by
  obtain ⟨tr, w, hr, -, hholds⟩ := Machine.exists_run_of_exec (machine Env.reference) lawful init
    (Script.sold ++ [.call (Script.caller 2 28) (.withdraw 2000)])
    (fun _ w => w.canister.holds (.party ⟨[2]⟩) = 1000 ∧ w.canister.holds (.party ⟨[3]⟩) = 50)
    (by decide +kernel)
  obtain ⟨⟨journal, haccounts, hsum⟩, -⟩ :=
    statements_add_up Reference.auction_taxLaws Reference.auction_vickreyLaws hr
  exact ⟨tr, w, journal, haccounts, hholds.1, hholds.2, hsum _⟩

end World
