import IcNameService.External.IcAuction
import IcNameService.External.Reference

/-!
# The ic-auction crate, looking ahead

Two more functions of the crate's `harberger::Params`, read by the queries that tell holders how long a
balance lasts.  Nothing is written by what they say, so no law is asked of them.
-/

/-- What the queries call of ic-auction. -/
structure Forecast where
  /-- `Params::tax_per_year(price)`. -/
  taxPerYear : TaxParams → ℕ → ℕ
  /-- `Params::ns_until_spent(price, balance)`: none when the balance lasts forever. -/
  nsUntilSpent : TaxParams → ℕ → ℕ → Option ℕ

/-- The documented arithmetic: tax is `price * rate` per year, a balance lasts until it is all due. -/
def Reference.forecast : Forecast where
  taxPerYear p price := taxFor price p.rateBps yearNs
  nsUntilSpent p price balance :=
    if price * p.rateBps = 0 then none else some (nsFor price p.rateBps balance)
