import IcNameService.Canister.Resolve

/-!
# The verifier (tools/verify)

A second program, which shares no code with the canister: it rebuilds the certified form of every
record it was given and checks it against the witness.  `verify` runs checks B, C and D on an answer,
given the certified data that check A found in the subnet's certificate.
-/

namespace Verifier

variable (E : Env)

def pushTarget (s : String) : Target → String
  | .address p => s ++ ("target=address:" ++ E.toText p ++ "\n")
  | .alias n => s ++ ("target=alias:" ++ n ++ "\n")

def pushFlat (s : String) : Option Harberger → String
  | none => s
  | some h =>
      let s := s ++ s!"price={h.price}\n"
      let s := s ++ s!"balance={h.balance}\n"
      let s := s ++ s!"settled_ns={h.settledNs}\n"
      s ++ s!"lapsed_ns={h.lapsedNs.getD 0}\n"

def pushPrevious (s : String) : Option Target → String
  | none => s
  | some (.address p) => s ++ ("previous_target=address:" ++ E.toText p ++ "\n")
  | some (.alias n) => s ++ ("previous_target=alias:" ++ n ++ "\n")

/-- The certified leaf format, from names.did. -/
def canonicalText (r : Record) : String :=
  let s := "name=" ++ r.name ++ "\n"
  let s := s ++ ("owner=" ++ E.toText r.owner ++ "\n")
  let s := pushTarget E s r.target
  let s := r.text.foldl (fun s e => s ++ ("text." ++ e.1 ++ "=" ++ e.2 ++ "\n")) s
  let s := s ++ s!"created_ns={r.createdNs}\n"
  let s := s ++ s!"updated_ns={r.updatedNs}\n"
  let s := s ++ s!"changed_hands_ns={r.changedHandsNs}\n"
  pushPrevious E (pushFlat s r.flat) r.previousTarget

def canonical (r : Record) : Bytes := asBytes (canonicalText E r)

/-- Where a verification failed. -/
inductive Step
  | B
  | C
  | D
  deriving DecidableEq, Repr

/-- `Ok`, or the step that failed and why. -/
abbrev Verdict := Except (Step × String) Unit

/-- B. certified_data equals the witness digest. -/
def checkB (certifiedData : E.cert.Hash) (witness : E.cert.HashTree) : Verdict :=
  if certifiedData ≠ E.cert.digest witness then .error (.B, "witness root != certified_data")
  else .ok ()

/-- C. every record in the chain is a leaf of the witness. -/
def checkC (witness : E.cert.HashTree) : List Record → Verdict
  | [] => .ok ()
  | r :: rest =>
      match E.cert.lookupPath witness [asBytes "names", asBytes r.name] with
      | some got =>
          if got = canonical E r then checkC witness rest
          else .error (.C, s!"leaf for {r.name} differs from the returned record")
      | none => .error (.C, s!"no leaf for {r.name} in witness")

/-- Every alias points at the next record. -/
def checkWindows : List Record → Verdict
  | r :: next :: rest =>
      if r.target = .alias next.name then checkWindows (next :: rest)
      else .error (.D, s!"{r.name} does not alias {next.name}")
  | _ => .ok ()

variable {E}

/-- D. the chain is what it claims. -/
def checkD (name : String) (answer : Resolved E) : Verdict :=
  if answer.name ≠ name then .error (.D, s!"answer is for {answer.name} not {name}")
  else
    match answer.chain with
    | [] => .error (.D, "empty chain")
    | first :: rest =>
        if first.name ≠ answer.name then
          .error (.D, s!"chain starts at {first.name} not {answer.name}")
        else do
          checkWindows answer.chain
          let last := (first :: rest).getLast (List.cons_ne_nil first rest)
          if last.target = .address answer.canister then .ok ()
          else .error (.D, s!"last record {last.name} is not the answer's address")

/-- Checks B, C and D on an answer for `name`. -/
def verify (name : String) (certifiedData : E.cert.Hash) (answer : Resolved E) : Verdict := do
  checkB E certifiedData answer.witness
  checkC E answer.witness answer.chain
  checkD name answer

/-! ## What the checks say -/

lemma pushTarget_eq (s : String) (t : Target) :
    pushTarget E s t = s ++ ("target=" ++ Record.targetText E t ++ "\n") := by
  rcases t with p | n
  · change s ++ ("target=" ++ "address:" ++ E.toText p ++ "\n") = _
    rw [@String.append_assoc "target="]
    rfl
  · change s ++ ("target=" ++ "alias:" ++ n ++ "\n") = _
    rw [@String.append_assoc "target="]
    rfl

lemma pushText_eq (l : Names.Text) : ∀ s : String,
    l.foldl (fun s e => s ++ ("text." ++ e.1 ++ "=" ++ e.2 ++ "\n")) s =
      s ++ String.join (l.map fun e => "text." ++ e.1 ++ "=" ++ e.2 ++ "\n") := by
  induction l with
  | nil => intro s; simp
  | cons e l ih =>
      intro s
      rw [List.foldl_cons, ih, List.map_cons, String.join_cons, String.append_assoc]

lemma pushFlat_eq (s : String) : ∀ flat : Option Harberger, pushFlat s flat =
    s ++ Record.flatText flat
  | none => by simp [pushFlat, Record.flatText]
  | some h => by simp only [pushFlat, Record.flatText, String.append_assoc]

lemma pushPrevious_eq (s : String) : ∀ previous : Option Target, pushPrevious E s previous =
    s ++ Record.previousText E previous
  | none => by
      change s = s ++ ""
      rw [String.append_empty]
  | some (.address p) => by
      change s ++ ("previous_target=" ++ "address:" ++ E.toText p ++ "\n") = _
      rw [@String.append_assoc "previous_target="]
      rfl
  | some (.alias n) => by
      change s ++ ("previous_target=" ++ "alias:" ++ n ++ "\n") = _
      rw [@String.append_assoc "previous_target="]
      rfl

lemma three_lines (a b c : String) : "name=" ++ a ++ "\n" ++ ("owner=" ++ b ++ "\n") ++
    ("target=" ++ c ++ "\n") =
      "name=" ++ a ++ "\n" ++ "owner=" ++ b ++ "\n" ++ "target=" ++ c ++ "\n" := by
  rw [← String.append_assoc, ← String.append_assoc, ← String.append_assoc, ← String.append_assoc]

lemma canonicalText_eq (r : Record) : canonicalText E r = r.canonicalText E := by
  simp only [canonicalText]
  rw [pushPrevious_eq, pushFlat_eq, pushText_eq, pushTarget_eq, three_lines]
  unfold Record.canonicalText
  with_reducible rfl

/-- **The two encoders agree on every record.** -/
theorem canonical_eq (r : Record) : canonical E r = r.canonical E := by
  rw [canonical, canonicalText_eq, Record.canonical]

lemma checkC_eq_ok {witness : E.cert.HashTree} : ∀ {chain : List Record},
    checkC E witness chain = .ok () ↔ ∀ r ∈ chain,
      E.cert.lookupPath witness [asBytes "names", asBytes r.name] = some (canonical E r) := by
  intro chain
  induction chain with
  | nil => simp [checkC]
  | cons r rest ih =>
      simp only [checkC, List.forall_mem_cons]
      split
      · rename_i got hgot
        split_ifs with heq
        · simp [hgot, heq, ih]
        · simp [hgot, heq]
      · rename_i hnone
        simp [hnone]

lemma checkWindows_eq_ok : ∀ {chain : List Record}, checkWindows chain = .ok () ↔
    chain.IsChain fun r next => r.target = .alias next.name
  | [] => by simp [checkWindows]
  | [_] => by simp [checkWindows]
  | r :: next :: rest => by
      rw [checkWindows, List.isChain_cons_cons, ← checkWindows_eq_ok]
      split_ifs with h
      · simp [h]
      · simp [h]

/-- What it takes for an answer to be accepted. -/
structure Accepted (name : String) (certifiedData : E.cert.Hash) (answer : Resolved E) : Prop where
  root : certifiedData = E.cert.digest answer.witness
  leaf : ∀ r ∈ answer.chain,
    E.cert.lookupPath answer.witness [asBytes "names", asBytes r.name] = some (canonical E r)
  asked : answer.name = name
  first : ∃ r, answer.chain.head? = some r ∧ r.name = name
  links : answer.chain.IsChain fun r next => r.target = .alias next.name
  last : ∃ r, answer.chain.getLast? = some r ∧ r.target = .address answer.canister

lemma checkD_eq_ok {name : String} {answer : Resolved E} : checkD name answer = .ok () ↔
    answer.name = name ∧ (∃ r, answer.chain.head? = some r ∧ r.name = name) ∧
      (answer.chain.IsChain fun r next => r.target = .alias next.name) ∧
      ∃ r, answer.chain.getLast? = some r ∧ r.target = .address answer.canister := by
  obtain ⟨asked, canister, chain, certificate, witness⟩ := answer
  simp only [checkD]
  split_ifs with hasked
  · simp [hasked]
  · rw [not_not] at hasked
    subst hasked
    cases chain with
    | nil => simp
    | cons first rest =>
        simp only
        split_ifs with hfirst hlast
        · simp [hfirst]
        · rw [not_not] at hfirst
          rw [← checkWindows_eq_ok]
          cases checkWindows (first :: rest) <;>
            simp [bind, Except.bind, hfirst, List.getLast?_eq_some_getLast, hlast]
        · rw [not_not] at hfirst
          rw [← checkWindows_eq_ok]
          cases checkWindows (first :: rest) <;>
            simp [bind, Except.bind, hfirst, List.getLast?_eq_some_getLast, hlast]

/-- **What checks B, C and D establish**, and nothing more. -/
theorem verify_eq_ok {name : String} {certifiedData : E.cert.Hash} {answer : Resolved E} :
    verify name certifiedData answer = .ok () ↔ Accepted name certifiedData answer := by
  have hverify : verify name certifiedData answer = .ok () ↔
      certifiedData = E.cert.digest answer.witness ∧
        checkC E answer.witness answer.chain = .ok () ∧ checkD name answer = .ok () := by
    simp only [verify, checkB]
    split_ifs with hroot
    · simp [hroot, bind, Except.bind]
    · rw [not_not] at hroot
      cases checkC E answer.witness answer.chain <;> simp [hroot, bind, Except.bind]
  rw [hverify, checkC_eq_ok, checkD_eq_ok]
  constructor
  · rintro ⟨hroot, hleaf, hasked, hfirst, hlinks, hlast⟩
    exact ⟨hroot, hleaf, hasked, hfirst, hlinks, hlast⟩
  · rintro ⟨hroot, hleaf, hasked, hfirst, hlinks, hlast⟩
    exact ⟨hroot, hleaf, hasked, hfirst, hlinks, hlast⟩

end Verifier
