import IcNameService.Resolution.Sound
import IcNameService.Directory.Texts

/-!
# The certified form is unambiguous

The canonical form of a record is a list of lines, and no field can hold a newline, so the bytes give
the lines back.  What line is which follows from the grammars: a text line starts like no other line,
a key has no `=`, and the tax state brings four lines or none.

* `Record.lines`, `canonicalText_eq_unlines` — the form, line by line.
* `World.run_storable` — what the canister stores, in any history, has its names, keys and values in
  their grammars.
* `Record.canonical_injective` — two storable records with the same bytes agree in every field, but
  for a lapse at zero, which is written like none.
-/

namespace Record

variable (E : Env)

/-! ## The form as lines -/

def textLine (e : String × String) : String := "text." ++ e.1 ++ "=" ++ e.2

def flatLines : Option Harberger → List String
  | none => []
  | some h =>
      ["price=" ++ h.price.repr, "balance=" ++ h.balance.repr, "settled_ns=" ++ h.settledNs.repr,
        "lapsed_ns=" ++ (h.lapsedNs.getD 0).repr]

def previousLines : Option Target → List String
  | none => []
  | some prev => ["previous_target=" ++ targetText E prev]

/-- The lines of the canonical form. -/
def lines (r : Record) : List String :=
  ("name=" ++ r.name) :: ("owner=" ++ E.toText r.owner) :: ("target=" ++ targetText E r.target) ::
    (r.text.map textLine ++ ("created_ns=" ++ r.createdNs.repr) ::
      ("updated_ns=" ++ r.updatedNs.repr) :: ("changed_hands_ns=" ++ r.changedHandsNs.repr) ::
      (flatLines r.flat ++ previousLines E r.previousTarget))

variable {E}

lemma flatText_eq_unlines (f : Option Harberger) : flatText f = unlines (flatLines f) := by
  cases f with
  | none => rfl
  | some h =>
      simp only [flatLines, unlines_cons, unlines_nil, String.append_empty]
      simp only [flatText, ← String.append_assoc]
      rfl

lemma previousText_eq_unlines (t : Option Target) :
    previousText E t = unlines (previousLines E t) := by
  cases t with
  | none => rfl
  | some prev =>
      rw [previousLines, unlines_cons, unlines_nil, String.append_empty]
      rfl

lemma tail_eq_unlines (r : Record) : r.tail E =
    unlines (r.text.map textLine ++ ("created_ns=" ++ r.createdNs.repr) ::
      ("updated_ns=" ++ r.updatedNs.repr) :: ("changed_hands_ns=" ++ r.changedHandsNs.repr) ::
      (flatLines r.flat ++ previousLines E r.previousTarget)) := by
  have htext : String.join (r.text.map fun e => "text." ++ e.1 ++ "=" ++ e.2 ++ "\n") =
      unlines (r.text.map textLine) := by
    rw [unlines, List.map_map]
    rfl
  simp only [unlines_append, unlines_cons, ← htext, ← flatText_eq_unlines,
    ← previousText_eq_unlines, ← String.append_assoc]
  simp only [tail, ← String.append_assoc]
  rfl

/-- **The canonical form is its lines.** -/
theorem canonicalText_eq_unlines (r : Record) : r.canonicalText E = unlines (r.lines E) := by
  rw [canonicalText_lines, lines, unlines_cons, unlines_cons, unlines_cons, ← tail_eq_unlines]
  simp only [String.append_assoc]

/-! ## What a record may hold -/

/-- A record the canister can store: its names, its text keys and its text values in their grammars.
A value without control characters is one line. -/
structure Storable (r : Record) : Prop where
  name : State.Nameable r.name
  target : r.target.Valid
  previous : ∀ t, r.previousTarget = some t → t.Valid
  keys : ∀ e ∈ r.text, Names.checkTextKey e.1 = .ok ()
  values : ∀ e ∈ r.text, OneLine e.2

lemma textKey_chars {key : String} (h : Names.checkTextKey key = .ok ()) :
    ∀ c ∈ key.toList, Names.isTextKeyChar c = true := by
  simp only [Names.checkTextKey] at h
  split_ifs at h with h₁ h₂
  simpa using h₂

lemma oneLine_of_checkTextValue {value : String} (h : Names.checkTextValue value = .ok ()) :
    OneLine value := by
  simp only [Names.checkTextValue] at h
  split_ifs at h with h₁ h₂
  intro hmem
  exact h₂ (List.any_eq_true.mpr ⟨'\n', hmem, by decide⟩)

lemma oneLine_repr (n : ℕ) : OneLine n.repr := by
  intro hmem
  rw [Nat.toList_repr] at hmem
  exact absurd (Nat.isDigit_of_mem_toDigits (by decide) (by decide) hmem) (by decide)

lemma repr_injective {m n : ℕ} (h : m.repr = n.repr) : m = n := by
  have hlist := congrArg String.toList h
  rw [Nat.toList_repr, Nat.toList_repr] at hlist
  rw [← Nat.ofDigitChars_ten_toDigits (n := m), hlist, Nat.ofDigitChars_ten_toDigits]

namespace Storable

variable {r r' : Record}

/-- No field breaks its line. -/
lemma oneLine (hT : E.TextLaws) (h : r.Storable) : ∀ line ∈ r.lines E, OneLine line := by
  have hword : ∀ {word rest : String}, OneLine word → OneLine rest → OneLine (word ++ rest) :=
    fun hw hr => hw.append hr
  have htext : ∀ line ∈ r.text.map textLine, OneLine line := by
    intro line hline
    obtain ⟨e, he, rfl⟩ := List.mem_map.mp hline
    have hkey : OneLine e.1 := fun hmem =>
      absurd (textKey_chars (h.keys e he) _ hmem) (by decide)
    exact ((hword (by decide) hkey).append (by decide)).append (h.values e he)
  have hflat : ∀ line ∈ flatLines r.flat, OneLine line := by
    intro line hline
    cases hf : r.flat with
    | none =>
        rw [hf] at hline
        cases hline
    | some x =>
        rw [hf] at hline
        simp only [flatLines, List.mem_cons, List.not_mem_nil, or_false] at hline
        rcases hline with rfl | rfl | rfl | rfl <;> exact hword (by decide) (oneLine_repr _)
  have hprevious : ∀ line ∈ previousLines E r.previousTarget, OneLine line := by
    intro line hline
    cases hp : r.previousTarget with
    | none =>
        rw [hp] at hline
        cases hline
    | some t =>
        rw [hp] at hline
        simp only [previousLines, List.mem_singleton] at hline
        subst hline
        exact hword (by decide) (oneLine_targetText hT (h.previous t hp))
  intro line hline
  simp only [lines, List.mem_cons, List.mem_append] at hline
  rcases hline with rfl | rfl | rfl | hline | rfl | rfl | rfl | hline | hline
  · exact hword (by decide) (oneLine_of_nameable h.name)
  · exact hword (by decide) (hT.no_newline _)
  · exact hword (by decide) (oneLine_targetText hT h.target)
  · exact htext line hline
  · exact hword (by decide) (oneLine_repr _)
  · exact hword (by decide) (oneLine_repr _)
  · exact hword (by decide) (oneLine_repr _)
  · exact hflat line hline
  · exact hprevious line hline

end Storable

/-! ## Reading the lines back -/

/-- A text line gives its key and its value away: no key has an `=`. -/
lemma textLine_injective {e e' : String × String} (he : Names.checkTextKey e.1 = .ok ())
    (he' : Names.checkTextKey e'.1 = .ok ()) (h : textLine e = textLine e') : e = e' := by
  have hkey : ∀ {key : String}, Names.checkTextKey key = .ok () → '=' ∉ key.toList :=
    fun hk hmem => absurd (textKey_chars hk _ hmem) (by decide)
  simp only [textLine, String.append_assoc, String.append_right_inj] at h
  have hlist := congrArg String.toList h
  simp only [String.toList_append] at hlist
  obtain ⟨hfirst, hsecond⟩ := List.append_cons_cancel (hkey he) (hkey he') hlist
  exact Prod.ext (String.toList_inj.mp hfirst) (String.toList_inj.mp hsecond)

lemma textLines_injective : ∀ {t t' : Names.Text},
    (∀ e ∈ t, Names.checkTextKey e.1 = .ok ()) → (∀ e ∈ t', Names.checkTextKey e.1 = .ok ()) →
    t.map textLine = t'.map textLine → t = t' := by
  intro t
  induction t with
  | nil =>
      intro t' _ _ h
      exact (List.map_eq_nil_iff.mp h.symm).symm
  | cons e t ih =>
      intro t' ht ht' h
      cases t' with
      | nil => cases h
      | cons e' t' =>
          rw [List.map_cons, List.map_cons, List.cons.injEq] at h
          rw [textLine_injective (ht e List.mem_cons_self) (ht' e' List.mem_cons_self) h.1,
            ih (fun x hx => ht x (List.mem_cons_of_mem _ hx))
              (fun x hx => ht' x (List.mem_cons_of_mem _ hx)) h.2]

/-- A lapse at zero is written like none. -/
def lapseWritten (h : Harberger) : Harberger := { h with lapsedNs := some (h.lapsedNs.getD 0) }

/-- The record as its canonical form has it. -/
def certified (r : Record) : Record := { r with flat := r.flat.map lapseWritten }

/-- The tax state brings four lines or none, and the previous target one or none. -/
lemma lastLines_injective (hT : E.TextLaws) {f f' : Option Harberger} {t t' : Option Target}
    (h : flatLines f ++ previousLines E t = flatLines f' ++ previousLines E t') :
    f.map lapseWritten = f'.map lapseWritten ∧ t = t' := by
  have hflat : ∀ {x x' : Harberger}, flatLines (some x) = flatLines (some x') →
      lapseWritten x = lapseWritten x' := by
    intro x x' hx
    simp only [flatLines, List.cons.injEq, String.append_right_inj, and_true] at hx
    obtain ⟨hprice, hbalance, hsettled, hlapsed⟩ := hx
    simp only [lapseWritten, repr_injective hprice, repr_injective hbalance,
      repr_injective hsettled, repr_injective hlapsed]
  have hprevious : previousLines E t = previousLines E t' → t = t' := by
    intro hx
    cases t with
    | none =>
        cases t' with
        | none => rfl
        | some q => cases hx
    | some p =>
        cases t' with
        | none => cases hx
        | some q =>
            simp only [previousLines, List.cons.injEq, String.append_right_inj, and_true] at hx
            rw [targetText_injective hT hx]
  have hlength : ∀ u : Option Target, (previousLines E u).length ≤ 1 := by
    intro u
    cases u <;> simp [previousLines]
  have hlen := congrArg List.length h
  simp only [List.length_append] at hlen
  have ht := hlength t
  have ht' := hlength t'
  cases f with
  | none =>
      cases f' with
      | none => exact ⟨rfl, hprevious (by simpa [flatLines] using h)⟩
      | some x' =>
          simp only [flatLines, List.length_nil, List.length_cons] at hlen
          omega
  | some x =>
      cases f' with
      | none =>
          simp only [flatLines, List.length_nil, List.length_cons] at hlen
          omega
      | some x' =>
          obtain ⟨hx, ht⟩ := List.append_inj h rfl
          rw [Option.map_some, Option.map_some, hflat hx]
          exact ⟨rfl, hprevious ht⟩

lemma flatLines_lapseWritten (f : Option Harberger) : flatLines (f.map lapseWritten) = flatLines f := by
  cases f <;> rfl

/-- **The certified form is unambiguous**: storable records have the same canonical bytes exactly when
they agree in every field, a lapse at zero being written like none. -/
theorem canonical_injective (hT : E.TextLaws) {r r' : Record} (hr : r.Storable)
    (hr' : r'.Storable) : r.canonical E = r'.canonical E ↔ r.certified = r'.certified := by
  constructor
  · intro h
    have htext : r.canonicalText E = r'.canonicalText E := asBytes_injective h
    rw [canonicalText_eq_unlines, canonicalText_eq_unlines] at htext
    have hlines := unlines_injective (hr.oneLine hT) (hr'.oneLine hT) htext
    simp only [lines, List.cons.injEq, String.append_right_inj] at hlines
    obtain ⟨hname, howner, htarget, hrest⟩ := hlines
    -- every text line starts with a `t`, and the line after them does not
    have htextual : ∀ text : Names.Text, ∀ line ∈ text.map textLine,
        line.toList.head? = some 't' := by
      intro text line hline
      obtain ⟨e, -, rfl⟩ := List.mem_map.mp hline
      simp [textLine]
    obtain ⟨hkeys, hcreated, hrest⟩ := List.append_cons_cancel_of (htextual r.text)
      (htextual r'.text) (by simp) (by simp) hrest
    simp only [List.cons.injEq, String.append_right_inj] at hcreated hrest
    obtain ⟨hupdated, hchanged, hlast⟩ := hrest
    obtain ⟨hflat, hprevious⟩ := lastLines_injective hT hlast
    simp only [certified, hname, hT.injective howner, targetText_injective hT htarget,
      textLines_injective hr.keys hr'.keys hkeys, repr_injective hcreated, repr_injective hupdated,
      repr_injective hchanged, hflat, hprevious]
  · intro h
    have hlines : ∀ x : Record, x.certified.lines E = x.lines E := by
      intro x
      simp only [lines, certified, flatLines_lapseWritten]
    rw [canonical, canonical, canonicalText_eq_unlines, canonicalText_eq_unlines, ← hlines r,
      ← hlines r', h]

/-- A flat record with a text, lapsed at a given time. -/
def lapsedAt (lapsedNs : Option ℕ) : Record :=
  { Record.new "abc" ⟨[2]⟩ (.alias "h/x") 5 with
    text := [("tags", "a,b")]
    flat := some ⟨10, 0, 5, lapsedNs⟩ }

lemma storable_lapsedAt (lapsedNs : Option ℕ) : (lapsedAt lapsedNs).Storable where
  name := by
    rw [show (lapsedAt lapsedNs).name = "abc" from rfl, State.Nameable, if_neg (by decide +kernel)]
    decide +kernel
  target dest h := by
    cases h
    exact ⟨("h", "x"), by decide +kernel⟩
  previous t h := by cases h
  keys e he := by
    rw [List.mem_singleton.mp he]
    decide +kernel
  values e he := by
    rw [List.mem_singleton.mp he]
    decide +kernel

/-- The one thing the bytes do not tell, and a thing they do. -/
theorem canonical_injective_lapsed :
    (lapsedAt none).canonical Env.reference = (lapsedAt (some 0)).canonical Env.reference ∧
      (lapsedAt none).canonical Env.reference ≠ (lapsedAt (some 7)).canonical Env.reference := by
  refine ⟨?_, fun h => ?_⟩
  · exact (canonical_injective Env.reference_textLaws (storable_lapsedAt none)
      (storable_lapsedAt (some 0))).mpr rfl
  · have heq := (canonical_injective Env.reference_textLaws (storable_lapsedAt none)
      (storable_lapsedAt (some 7))).mp h
    exact absurd heq (by decide)

/-! ## What the canister stores -/

/-- Every key is in its grammar, and every value is one line. -/
def CheckedText (text : Names.Text) : Prop :=
  ∀ e ∈ text, Names.checkTextKey e.1 = .ok () ∧ OneLine e.2

lemma oneLine_of_checkHex {what value : String} {lens : List ℕ}
    (h : Names.checkHex what value lens = .ok ()) : OneLine value := by
  simp only [Names.checkHex] at h
  split_ifs at h with h₁ h₂
  have hall : ∀ c ∈ value.toList, Names.isHexChar c = true := by simpa using h₂
  exact fun hmem => absurd (hall _ hmem) (by decide)

/-- The keys the canister writes itself pass the check it makes of its callers' keys. -/
lemma provenanceKeys_checked : ∀ key ∈ Names.provenanceKeys, Names.checkTextKey key = .ok () := by
  decide +kernel

lemma checkedText_announced (hT : E.TextLaws) {cx : Ctx} {a : Announcement}
    (hrepo : Names.checkTextValue a.repo = .ok ())
    (hcommit : Names.checkHex "commit" a.commit [20, 32] = .ok ())
    (hmodule : Names.checkHex "module_hash" a.moduleHash [32] = .ok ()) :
    CheckedText (State.announced (E := E) cx a).records := by
  intro e he
  refine ⟨provenanceKeys_checked _ (List.mem_map_of_mem he), ?_⟩
  simp only [Names.Provenance.records, List.mem_cons, List.not_mem_nil, or_false] at he
  rcases he with rfl | rfl | rfl | rfl | rfl
  · exact oneLine_of_checkTextValue hrepo
  · exact oneLine_of_checkHex hcommit
  · exact oneLine_of_checkHex hmodule
  · exact hT.no_newline _
  · exact oneLine_repr _

lemma checkedText_writers (hT : E.TextLaws) : State.TextWriters E CheckedText where
  empty e he := by cases he
  cleared h e he := h e (Names.mem_clearProvenance.mp he).1
  owner {text text' key value} h hcheck htext e he := by
    obtain ⟨-, -, hiff⟩ := Names.setOwnerText_ok htext
    rcases (hiff _).mp he with ⟨rfl, rfl⟩ | ⟨-, he⟩
    · obtain ⟨_, hkey, hcheck⟩ := Except.bind_eq_ok.mp hcheck
      obtain ⟨_, hvalue, -⟩ := Except.bind_eq_ok.mp hcheck
      exact ⟨hkey, oneLine_of_checkTextValue hvalue⟩
    · exact h e he
  announced h hrepo hcommit hmodule e he := by
    rcases Names.mem_setProvenance.mp he with he | ⟨he, -⟩
    · exact checkedText_announced hT hrepo hcommit hmodule e he
    · exact h e he

/-- Its grammar and its texts make a stored record storable. -/
lemma storable_of_shape {s : State E} (hs : s.Shape) (htexts : s.AllTexts CheckedText)
    {name : String} {r : Record} (hget : s.records.get name = some r) : r.Storable where
  name := (hs.records name r hget).nameable
  target := (hs.records name r hget).target_valid
  previous t ht := by
    cases hscoped : Names.isScoped r.name with
    | true =>
        rw [((hs.records name r hget).plain hscoped).2.2.1] at ht
        cases ht
    | false => exact (((hs.records name r hget).flatName hscoped).2.2.2 t ht).valid
  keys e he := (htexts name r hget e he).1
  values e he := (htexts name r hget e he).2

end Record

namespace World

variable {E : Env}

/-- **What the canister stores is storable**, in any state that any history reaches. -/
theorem run_storable (hT : E.TextLaws) {w : World E} {tr : History E}
    (h : Run (machine E) anyEvent init tr w) {name : String} {r : Record}
    (hget : w.canister.records.get name = some r) : r.Storable :=
  Record.storable_of_shape (run_shape h) (run_texts (Record.checkedText_writers hT) h) hget

end World
