import IcNameService.Directory.Search
import IcNameService.External.Unicode

/-!
# What a search finds

A search puts the query and the description in lowercase, each by itself, and looks for one in the
other.  That finds what is literally there, in any case, unless a `Σ` at an edge of the query reads one
way in the query and another way in the description.

* `Counts` — a search counts a record.
* `Finds` — a query finds every record that has it, in any case, in its name or description.
* `found_of_kept` — a record is found wherever its sigmas keep their form.
* `World.exists_described` — any description the checks admit is stored in some state reached.
* `World.finds_iff_closed` — a query finds everything exactly when no spelling of it that leaves room in
  a description has an open sigma.
-/

namespace Directory

variable (C : Casing) {E : Env} {s : State E}

/-! ## Being counted -/

/-- The page at `offset`, one record long, of a search for `q` without a tag. -/
def page (s : State E) (q : String) (offset : ℕ) : SearchResult :=
  search C.toLowercase s ⟨some q, none, some offset, some 1⟩

/-- A search for `q` counts the record: it is on one of the pages that the total announces. -/
def Counts (s : State E) (q : String) (r : Record) : Prop :=
  ∃ offset < (page C s q 0).total, (page C s q offset).hits = [hit r]

/-- **A stored record is counted exactly when it matches.** -/
theorem counts_iff (h : s.Catalogued) (hs : s.Shape) {name q : String} {r : Record}
    (hget : s.records.get name = some r) :
    Counts C s q r ↔ matchesQ C.toLowercase r (C.toLowercase (trim q)) = true := by
  have hpage : ∀ offset, page C s q offset =
      ⟨(scan C.toLowercase s ⟨some q, none, none, none⟩).length, offset,
        (((scan C.toLowercase s ⟨some q, none, none, none⟩).drop offset).take 1).map hit⟩ :=
    fun offset => h.search_eq_scan hs C.toLowercase _
  have hmem : ∀ {x : Record}, x ∈ scan C.toLowercase s ⟨some q, none, none, none⟩ ↔
      x ∈ s.records.values ∧ matchesQ C.toLowercase x (C.toLowercase (trim q)) = true := by
    intro x
    rw [scan, List.mem_filter]
    simp only [soughtText, soughtTag, carries, Option.getD_some, Option.map_none, Option.filter_none,
      Option.all_none, Bool.true_and]
  constructor
  · rintro ⟨offset, -, hhits⟩
    have hin : hit r ∈ (page C s q offset).hits := hhits ▸ List.mem_singleton_self _
    rw [hpage] at hin
    obtain ⟨x, hx, hhit⟩ := List.mem_map.mp hin
    obtain ⟨hvalue, hmatch⟩ := hmem.mp (List.mem_of_mem_drop (List.mem_of_mem_take hx))
    obtain ⟨name', hget'⟩ := OrdMap.mem_values.mp hvalue
    -- a hit shows the name, and a name has one record
    have hnames : x.name = r.name := congrArg Hit.name hhit
    rw [h.named name' x hget', h.named name r hget] at hnames
    rw [hnames, hget] at hget'
    cases hget'
    exact hmatch
  · intro hmatch
    obtain ⟨i, hi, hri⟩ := List.getElem_of_mem (hmem.mpr ⟨OrdMap.mem_values.mpr ⟨name, hget⟩, hmatch⟩)
    refine ⟨i, ?_, ?_⟩
    · rw [hpage]
      exact hi
    · rw [hpage, List.drop_eq_getElem_cons hi, hri]
      rfl

/-! ## Finding a query -/

/-- `x` is in the name of the record, or in its description. -/
def Shows (r : Record) (x : String) : Prop :=
  contains r.name x = true ∨ ∃ d, Names.textGet r.text "description" = some d ∧ contains d x = true

/-- A match is all in the lowercase of the query and of the description. -/
lemma matchesQ_iff {r : Record} {q : String} : matchesQ C.toLowercase r q = true ↔
    q = "" ∨ contains r.name q = true ∨
      ∃ d, Names.textGet r.text "description" = some d ∧ contains (C.toLowercase d) q = true := by
  rw [matchesQ]
  split_ifs with hq
  · simp only [true_iff]
    exact Or.inl (String.isEmpty_iff.mp hq)
  · have hne : q ≠ "" := fun h => hq (String.isEmpty_iff.mpr h)
    cases Names.textGet r.text "description" <;> simp [hne]

/-- A stored name is made of segment characters and '/'. -/
lemma name_chars {r : Record} (h : r.Shaped) :
    ∀ c ∈ r.name.toList, Names.isSegmentChar c = true ∨ c = '/' := by
  intro c hc
  cases hscoped : Names.isScoped r.name with
  | true =>
      obtain ⟨⟨p, hsplit⟩, -⟩ := h.plain hscoped
      obtain ⟨hname, hhandle, hlabel⟩ :=
        Names.split_ok (show Names.split r.name = .ok (p.1, p.2) from hsplit)
      rw [hname, List.mem_append, List.mem_cons] at hc
      rcases hc with hc | hc | hc
      · exact Or.inl ((Names.checkSegment_ok hhandle).2.2 c hc)
      · exact Or.inr hc
      · exact Or.inl ((Names.checkSegment_ok hlabel).2.2 c hc)
  | false =>
      exact Or.inl ((Names.checkSegment_ok (Names.checkFlat_ok (h.flatName hscoped).1).1).2.2 c hc)

/-- A character that a segment may have is no capital. -/
lemma range_of_segmentChar {c : Char} (h : Names.isSegmentChar c = true) :
    c.toNat < 0x80 ∧ ¬ (0x41 ≤ c.toNat ∧ c.toNat ≤ 0x5a) := by
  simp only [Names.isSegmentChar, Bool.or_eq_true, beq_iff_eq] at h
  rcases h with (hlower | hdigit) | rfl
  · obtain ⟨hfrom, hupto⟩ := (Bool.and_eq_true _ _).mp hlower
    have h₁ : 0x61 ≤ c.toNat := of_decide_eq_true hfrom
    have h₂ : c.toNat ≤ 0x7a := of_decide_eq_true hupto
    omega
  · obtain ⟨hfrom, hupto⟩ := (Bool.and_eq_true _ _).mp hdigit
    have h₁ : 0x30 ≤ c.toNat := of_decide_eq_true hfrom
    have h₂ : c.toNat ≤ 0x39 := of_decide_eq_true hupto
    omega
  · decide

/-- The characters of a stored name are ASCII, and their own lowercase. -/
lemma plain_of_name {r : Record} (h : r.Shaped) :
    ∀ c ∈ r.name.toList, c.toNat < 0x80 ∧ c.toLower = c := by
  intro c hc
  have hrange : c.toNat < 0x80 ∧ ¬ (0x41 ≤ c.toNat ∧ c.toNat ≤ 0x5a) := by
    rcases name_chars h c hc with hseg | rfl
    · exact range_of_segmentChar hseg
    · decide
  have hupper : ¬ (c.val ≥ 'A'.val ∧ c.val ≤ 'Z'.val) :=
    fun hupper => hrange.2 ⟨UInt32.le_iff_toNat_le.mp hupper.1, UInt32.le_iff_toNat_le.mp hupper.2⟩
  exact ⟨hrange.1, dif_neg hupper⟩

/-- The characters of a stored name are their own lowercase. -/
lemma lower_of_name {r : Record} (h : r.Shaped) : ∀ c ∈ r.name.toList, c ≠ 'Σ' ∧ C.lower c = [c] := by
  intro c hc
  obtain ⟨hascii, hlower⟩ := plain_of_name h c hc
  refine ⟨?_, by rw [C.lower_ascii c hascii, hlower]⟩
  rintro rfl
  exact absurd hascii (by decide)

/-- What is in the name matches. -/
lemma contains_toLowercase_of_name {r : Record} (h : r.Shaped) {x : String}
    (hx : contains r.name x = true) : contains r.name (C.toLowercase x) = true := by
  have hsub : ∀ c ∈ x.toList, c ≠ 'Σ' ∧ C.lower c = [c] := fun c hc =>
    lower_of_name C h c ((of_decide_eq_true hx).subset hc)
  rw [Casing.toLowercase, C.lowerIn_eq_self hsub, String.ofList_toList]
  exact hx

/-- **What stands in the description with its sigmas in the form they have by themselves matches.** -/
theorem found_of_kept {r : Record} {x d : String} {u v : List Char}
    (hd : Names.textGet r.text "description" = some d) (hsplit : d.toList = u ++ x.toList ++ v)
    (hkept : C.SigmaKept u.reverse x.toList v) :
    matchesQ C.toLowercase r (C.toLowercase x) = true := by
  refine (matchesQ_iff C).mpr (Or.inr (Or.inr ⟨d, hd, ?_⟩))
  simp only [contains, Casing.toLowercase, String.toList_ofList, decide_eq_true_eq, hsplit]
  exact C.infix_of_kept hkept

end Directory

/-! ## Room in a description -/

namespace Names

lemma checkTextValue_ok {value : String} : checkTextValue value = .ok () ↔
    value.utf8ByteSize ≤ maxTextValue ∧ ∀ c ∈ value.toList, isControl c = false := by
  rw [checkTextValue]
  split_ifs with hlong hcontrol
  · simp [hlong]
  · simp only [false_iff, not_and, not_forall]
    obtain ⟨c, hc, htrue⟩ := List.any_eq_true.mp hcontrol
    exact fun _ => ⟨c, hc, by simp [htrue]⟩
  · simp only [true_iff]
    exact ⟨not_lt.mp hlong, by simpa using hcontrol⟩

/-- The description is a value the check admits. -/
def DescribedText (text : Text) : Prop :=
  ∀ d, ("description", d) ∈ text → checkTextValue d = .ok ()

lemma mem_of_textGet {text : Text} {key v : String} (h : textGet text key = some v) :
    (key, v) ∈ text := by
  simp only [textGet, Option.map_eq_some_iff] at h
  obtain ⟨⟨k, u⟩, hfind, rfl⟩ := h
  have hkey : k = key := by simpa using List.find?_some hfind
  rw [← hkey]
  exact List.mem_of_find?_eq_some hfind

/-- A part of an admitted value leaves room for a letter, unless it is all of it. -/
lemma room_of_part {d x : String} {u v : List Char} (hd : checkTextValue d = .ok ())
    (hsplit : d.toList = u ++ x.toList ++ v) (hpart : u ≠ [] ∨ v ≠ []) :
    checkTextValue (x ++ "a") = .ok () := by
  obtain ⟨hsize, hplain⟩ := checkTextValue_ok.mp hd
  have hd' : d = String.ofList u ++ x ++ String.ofList v := by
    rw [← String.toList_inj, hsplit]
    simp
  have hpos : 0 < (String.ofList u).utf8ByteSize + (String.ofList v).utf8ByteSize := by
    by_contra hzero
    have hu : (String.ofList u).utf8ByteSize = 0 := by omega
    have hv : (String.ofList v).utf8ByteSize = 0 := by omega
    rw [String.utf8ByteSize_eq_zero_iff, ← String.toList_inj, String.toList_ofList] at hu hv
    exact hpart.elim (· hu) (· hv)
  rw [hd', String.utf8ByteSize_append, String.utf8ByteSize_append] at hsize
  refine checkTextValue_ok.mpr ⟨?_, fun c hc => ?_⟩
  · rw [String.utf8ByteSize_append]
    have hone : "a".utf8ByteSize = 1 := by decide
    omega
  · rw [String.toList_append, List.mem_append] at hc
    rcases hc with hc | hc
    · exact hplain c (by rw [hsplit]; simp [hc])
    · obtain rfl : c = 'a' := by simpa using hc
      decide

/-- A letter fits before the text as well as after it. -/
lemma room_before {x : String} (h : checkTextValue (x ++ "a") = .ok ()) :
    checkTextValue ("a" ++ x) = .ok () := by
  obtain ⟨hsize, hplain⟩ := checkTextValue_ok.mp h
  refine checkTextValue_ok.mpr ⟨?_, fun c hc => hplain c ?_⟩
  · rw [String.utf8ByteSize_append] at hsize ⊢
    omega
  · simp only [String.toList_append, List.mem_append] at hc ⊢
    exact hc.symm

end Names

namespace Directory

variable (C : Casing)

/-- **A letter next to an open sigma hides a text in a description that can be stored.** -/
lemma exists_hiding {x : String} (hopen : C.openSigma x.toList = true)
    (hroom : Names.checkTextValue (x ++ "a") = .ok ()) :
    ∃ d, Names.checkTextValue d = .ok () ∧ contains d x = true ∧
      contains (C.toLowercase d) (C.toLowercase x) = false := by
  simp only [contains, Casing.toLowercase, String.toList_ofList, decide_eq_true_eq,
    decide_eq_false_iff_not]
  rw [Casing.openSigma, Bool.or_eq_true] at hopen
  rcases hopen with hopen | hopen
  · refine ⟨"a" ++ x, Names.room_before hroom, ?_, ?_⟩
    · rw [String.toList_append]
      exact (List.suffix_append _ _).isInfix
    · rw [String.toList_append]
      exact C.not_infix_of_openStart hopen
  · refine ⟨x ++ "a", hroom, ?_, ?_⟩
    · rw [String.toList_append]
      exact (List.prefix_append _ _).isInfix
    · rw [String.toList_append]
      exact C.not_infix_of_openEnd hopen

/-- A hidden text does not match: a small sigma is in no name. -/
lemma hidden {r : Record} (h : r.Shaped) {x d : String} (hopen : C.openSigma x.toList = true)
    (hd : Names.textGet r.text "description" = some d)
    (hnot : contains (C.toLowercase d) (C.toLowercase x) = false) :
    ¬ matchesQ C.toLowercase r (C.toLowercase x) = true := by
  have hsigma : 'σ' ∈ (C.toLowercase x).toList ∨ 'ς' ∈ (C.toLowercase x).toList := by
    rw [Casing.toLowercase, String.toList_ofList]
    exact C.sigma_mem_lowerIn (C.sigma_mem_of_openSigma hopen)
  rw [matchesQ_iff]
  rintro (hempty | hname | ⟨d', hd', hin⟩)
  · rw [hempty] at hsigma
    simp at hsigma
  · have hsub := (of_decide_eq_true hname).subset
    rcases hsigma with hmem | hmem
    · exact absurd (plain_of_name h _ (hsub hmem)).1 (by decide)
    · exact absurd (plain_of_name h _ (hsub hmem)).1 (by decide)
  · obtain rfl := Option.some.inj (hd.symm.trans hd')
    rw [hin] at hnot
    cases hnot

end Directory

namespace State

lemma described_writers (E : Env) : TextWriters E Names.DescribedText where
  empty d hd := by cases hd
  cleared h d hd := h d (Names.mem_clearProvenance.mp hd).1
  owner {text text' key value} h hcheck htext d hd := by
    obtain ⟨-, -, hiff⟩ := Names.setOwnerText_ok htext
    rcases (hiff _).mp hd with ⟨-, rfl⟩ | ⟨-, hd⟩
    · obtain ⟨_, -, hcheck⟩ := Except.bind_eq_ok.mp hcheck
      exact (Except.bind_eq_ok.mp hcheck).choose_spec.1
    · exact h d hd
  announced {text cx a} h _ _ _ d hd := by
    rcases Names.mem_setProvenance.mp hd with hd | ⟨hd, -⟩
    · have hkey := List.mem_map_of_mem (f := Prod.fst) hd
      rw [Names.Provenance.keys_records] at hkey
      exact absurd hkey (show "description" ∉ Names.provenanceKeys by decide)
    · exact h d hd

end State

/-! ## Storing a description -/

namespace State

variable {E : Env} (s : State E)

/-- The owner of a handle writes a new name under it. -/
lemma setRecord_new {cx : Ctx} {name : String} {owner p : Principal}
    (hscoped : Names.isScoped name = true) (hauth : s.authorize cx name = .ok owner)
    (hnew : s.getRecord name = none) :
    s.setRecord cx name (.address p) =
      (s.commit (Record.new name owner (.address p) cx.now), .ok ()) := by
  simp [setRecord, hscoped, hauth, hnew, attempt, bind, Except.bind]

/-- The owner of a handle writes a text under a name of it. -/
lemma setText_scoped {cx : Ctx} {name key : String} {value : Option String} {owner : Principal}
    {r : Record} {text : Names.Text} (hscoped : Names.isScoped name = true)
    (hauth : s.authorize cx name = .ok owner) (hget : s.getRecord name = some r)
    (hcheck : checkText key value = .ok ()) (htext : Names.setOwnerText r.text key value = .ok text) :
    s.setText cx name key value =
      (s.commitFlat { r with text := text, updatedNs := cx.now } 0, .ok ()) := by
  simp [setText, textRecord, hscoped, hauth, hget, hcheck, htext, attempt, bind, Except.bind]

end State

namespace World

open State Directory

variable {E : Env}

/-- A call that ends at once goes on a run. -/
lemma run_call {tr : History E} {w : World E} (h : Run (machine E) anyEvent init tr w) (cx : Ctx)
    (c : Call) {s : State E} {reply : Reply} (hnow : w.now ≤ cx.now)
    (hcall : w.canister.call cx c = (s, .done reply)) :
    ∃ tr', Run (machine E) anyEvent init tr' { w with canister := s, now := cx.now } := by
  refine ⟨_, h.snoc (e := .call cx c) (o := .done reply) trivial ?_⟩
  simp only [machine, step, hcall]
  rw [if_neg (not_lt.mpr hnow)]

/-- The owner of the handle "h" may write under it. -/
lemma authorize_housed {s : State E} (h : s.handles.get "h" = some ⟨⟨[5]⟩, none⟩) :
    s.authorize (Script.caller 5 0) "h/x" = .ok ⟨[5]⟩ := by
  have hsplit : Names.split "h/x" = .ok ("h", "x") := by decide +kernel
  have hcaller : callerOf (Script.caller 5 0) = .ok ⟨[5]⟩ := rfl
  simp [authorize, authorizeHandle, hsplit, hcaller, h, bind, Except.bind]

/-- The state after one handle was registered. -/
def housed (E : Env) : State E :=
  { (State.init : State E) with
    handles := (State.init : State E).handles.insert "h" ⟨⟨[5]⟩, none⟩ }

lemma registerHandle_init (E : Env) :
    (State.init : State E).registerHandleCall (Script.caller 5 0) "h" = (housed E, .ok ()) := by
  have hcheck : Names.checkSegment "handle" "h" = .ok () := by decide +kernel
  have hfree : (State.init : State E).handles.contains "h" = false := rfl
  have hcaller : callerOf (Script.caller 5 0) = .ok ⟨[5]⟩ := rfl
  simp [registerHandleCall, State.registerHandle, attempt, hcheck, hfree, hcaller, bind, Except.bind,
    housed]

/-- **Any description the checks admit is stored in some state reached.** -/
theorem exists_described (E : Env) {d : String} (hd : Names.checkTextValue d = .ok ()) :
    ∃ tr w r, Run (machine E) anyEvent init tr w ∧ w.canister.records.get "h/x" = some r ∧
      Names.textGet r.text "description" = some d := by
  have hscoped : Names.isScoped "h/x" = true := by decide
  have hhandle : (housed E).handles.get "h" = some ⟨⟨[5]⟩, none⟩ := OrdMap.get_insert_self _ _ _
  have hset := (housed E).setRecord_new (p := ⟨[9]⟩) hscoped (authorize_housed hhandle) rfl
  set r : Record := Record.new "h/x" ⟨[5]⟩ (.address ⟨[9]⟩) 0 with hr
  have hstored : ((housed E).commit r).getRecord "h/x" = some r := OrdMap.get_insert_self _ _ _
  have hcheck : checkText "description" (some d) = .ok () := by
    have hkey : Names.checkTextKey "description" = .ok () := by decide +kernel
    simp [checkText, hkey, hd, bind, Except.bind]
  have htext : Names.setOwnerText r.text "description" (some d) = .ok [("description", d)] := rfl
  have hwritten := ((housed E).commit r).setText_scoped hscoped (authorize_housed hhandle) hstored
    hcheck htext
  obtain ⟨tr₁, h₁⟩ := run_call .nil (Script.caller 5 0) (.registerHandle "h") (Nat.zero_le _)
    (congrArg finish (registerHandle_init E))
  obtain ⟨tr₂, h₂⟩ := run_call h₁ (Script.caller 5 0) (.setRecord "h/x" (.address ⟨[9]⟩))
    (Nat.zero_le _) (congrArg finish hset)
  obtain ⟨tr₃, h₃⟩ := run_call h₂ (Script.caller 5 0) (.setText "h/x" "description" (some d))
    (Nat.zero_le _) (congrArg finish hwritten)
  exact ⟨tr₃, _, _, h₃, OrdMap.get_insert_self _ _ _, rfl⟩

/-! ## Every query -/

/-- A query finds every record, stored in any state reached, that shows it in any case. -/
def Finds (C : Casing) (E : Env) (q : String) : Prop :=
  ∀ (tr : History E) (w : World E), Run (machine E) anyEvent init tr w →
    ∀ name r, w.canister.records.get name = some r →
      ∀ x, C.toLowercase x = C.toLowercase (trim q) → Shows r x → Counts C w.canister q r

/-- No spelling of the query that leaves room for a letter in a description has an open sigma. -/
def SigmaClosed (C : Casing) (q : String) : Prop :=
  ∀ x, C.toLowercase x = C.toLowercase (trim q) → Names.checkTextValue (x ++ "a") = .ok () →
    C.openSigma x.toList = false

/-- A query without sigmas is closed, whatever else is in it. -/
theorem sigmaClosed_of_no_sigma {C : Casing} {q : String}
    (h : ∀ c ∈ (C.toLowercase (trim q)).toList, c ≠ 'σ' ∧ c ≠ 'ς') : SigmaClosed C q := by
  intro x hx _
  by_contra hopen
  rw [Bool.not_eq_false] at hopen
  rw [← hx, Casing.toLowercase, String.toList_ofList] at h
  rcases C.sigma_mem_lowerIn (C.sigma_mem_of_openSigma hopen) with hmem | hmem
  · exact (h _ hmem).1 rfl
  · exact (h _ hmem).2 rfl

/-- **Closed or not, a query finds every description in which it stands, in any case, with its sigmas in
the form they have by themselves.** -/
theorem run_counts_of_kept {C : Casing} {tr : History E} {w : World E}
    (hr : Run (machine E) anyEvent init tr w) {name q x d : String} {r : Record} {u v : List Char}
    (hget : w.canister.records.get name = some r) (hx : C.toLowercase x = C.toLowercase (trim q))
    (hd : Names.textGet r.text "description" = some d) (hsplit : d.toList = u ++ x.toList ++ v)
    (hkept : C.SigmaKept u.reverse x.toList v) : Counts C w.canister q r := by
  rw [counts_iff C (run_catalogued hr) (run_shape hr) hget, ← hx]
  exact found_of_kept C hd hsplit hkept

/-- **A query finds everything exactly when it is sigma-closed.** -/
theorem finds_iff_closed (C : Casing) (E : Env) (q : String) : Finds C E q ↔ SigmaClosed C q := by
  constructor
  · intro h x hx hroom
    by_contra hopen
    rw [Bool.not_eq_false] at hopen
    obtain ⟨d, hd, hin, hnot⟩ := exists_hiding C hopen hroom
    obtain ⟨tr, w, r, hr, hget, hdesc⟩ := exists_described E hd
    have hcounts := h tr w hr _ r hget x hx (Or.inr ⟨d, hdesc, hin⟩)
    rw [counts_iff C (run_catalogued hr) (run_shape hr) hget, ← hx] at hcounts
    exact hidden C ((run_shape hr).records _ r hget) hopen hdesc hnot hcounts
  · intro hclosed tr w hr name r hget x hx hshows
    rcases hshows with hname | ⟨d, hd, hin⟩
    · have hshaped := (run_shape hr).records name r hget
      rw [counts_iff C (run_catalogued hr) (run_shape hr) hget, ← hx]
      exact (matchesQ_iff C).mpr (Or.inr (Or.inl (contains_toLowercase_of_name C hshaped hname)))
    · obtain ⟨u, v, hsplit⟩ := of_decide_eq_true hin
      refine run_counts_of_kept hr hget hx hd hsplit.symm ?_
      by_cases hpart : u ≠ [] ∨ v ≠ []
      · have hadmitted :=
          run_texts (State.described_writers E) hr name r hget d (Names.mem_of_textGet hd)
        exact C.kept_of_closed (hclosed x hx (Names.room_of_part hadmitted hsplit.symm hpart)) _ _
      · simp only [not_or, not_not] at hpart
        obtain ⟨rfl, rfl⟩ := hpart
        intro p s _
        simp

end World

/-- A description in Greek capitals. -/
def Script.describing : List Event :=
  housing ++ [.call (caller 5 0) (.setText "h/x" "description" (some "ΠΑΣΧΑ"))]

namespace World

open Directory

/-- The first letters of the word are in the description, and a search for them does not count it. -/
theorem final_sigma_hides : ∃ (tr : History Env.reference) (w : World Env.reference) (r : Record),
    Run (machine Env.reference) anyEvent init tr w ∧ tr.reverse.map Entry.event = Script.describing ∧
      w.canister.records.get "h/x" = some r ∧
      Names.textGet r.text "description" = some "ΠΑΣΧΑ" ∧ contains "ΠΑΣΧΑ" (trim "ΠΑΣ") = true ∧
      ¬ Counts Unicode.casing w.canister "ΠΑΣ" r ∧ ¬ Finds Unicode.casing Env.reference "ΠΑΣ" := by
  obtain ⟨tr, w, hr, hevents, hdesc, htotal⟩ := Machine.exists_run_of_exec (machine Env.reference)
    anyEvent init Script.describing
    (fun _ w => ((w.canister.records.get "h/x").bind fun r => Names.textGet r.text "description") =
      some "ΠΑΣΧΑ" ∧ (page Unicode.casing w.canister "ΠΑΣ" 0).total = 0) (by decide +kernel)
  obtain ⟨r, hget, hd⟩ := Option.bind_eq_some_iff.mp hdesc
  have hin : contains "ΠΑΣΧΑ" (trim "ΠΑΣ") = true := by decide +kernel
  have hnot : ¬ Counts Unicode.casing w.canister "ΠΑΣ" r := by
    rintro ⟨offset, hlt, -⟩
    rw [htotal] at hlt
    exact Nat.not_lt_zero _ hlt
  exact ⟨tr, w, r, hr, hevents, hget, hd, hin, hnot,
    fun hfinds => hnot (hfinds tr w hr _ r hget _ rfl (Or.inr ⟨_, hd, hin⟩))⟩

end World
