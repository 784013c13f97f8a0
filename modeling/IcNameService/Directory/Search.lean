import IcNameService.Core.Scans
import IcNameService.Directory.Index

/-!
# Indexed search agrees with a plain scan

The plain scan goes over the records in name order and keeps those that carry the tag and match the
text.  A lookup by tag goes over one range of the index instead, and `tags` counts the runs of its keys.

* `State.Catalogued.contains_key` — the index holds a pair exactly when the stored record has the tag.
* `namesWithTag_eq` — a range scan finds the names of the records with the tag, in name order.
* `tallied_tags` — the runs of the index are the tags in use, with the number of their records.
* `search_eq_scan` — a search is a window of the scan.
* `World.directory_agrees` — all of it, in every state reached.
-/

namespace Directory

variable {E : Env}

/-! ## The plain scan -/

/-- Does the record carry the tag that is asked for, if one is? -/
def carries (tag : Option String) (r : Record) : Bool := tag.all fun t => (tagsOf r).contains t

/-- **The scan.**  The records in name order that carry the tag and match the text. -/
def scan (toLowercase : String → String) (s : State E) (query : SearchQuery) : List Record :=
  s.records.values.filter fun r =>
    carries (soughtTag query) r && matchesQ toLowercase r (soughtText toLowercase query)

/-- The records that carry a tag. -/
def carriers (s : State E) (tag : String) : List Record :=
  s.records.values.filter fun r => (tagsOf r).contains tag

/-! ## Names and keys -/

/-- A name that can be stored has no NUL. -/
lemma noNul_of_shaped {r : Record} (h : r.Shaped) : NoNul r.name := by
  cases hscoped : Names.isScoped r.name with
  | true =>
      obtain ⟨⟨p, hsplit⟩, -⟩ := h.plain hscoped
      obtain ⟨hname, hhandle, hlabel⟩ :=
        Names.split_ok (show Names.split r.name = .ok (p.1, p.2) from hsplit)
      simp only [NoNul, hname, List.mem_append, List.mem_cons, not_or]
      exact ⟨noNul_of_segment hhandle, by decide, noNul_of_segment hlabel⟩
  | false => exact noNul_of_segment (Names.checkFlat_ok (h.flatName hscoped).1).1

/-- A key starts with a tag and a NUL exactly when it is a key of that tag. -/
lemma prefix_key_iff {tag k : String} :
    (key tag "").toList <+: k.toList ↔ ∃ name, k = key tag name := by
  have hpre : (key tag "").toList = tag.toList ++ ['\x00'] := by rw [key_toList, String.toList_empty]
  constructor
  · rintro ⟨rest, hrest⟩
    refine ⟨String.ofList rest, String.toList_inj.mp ?_⟩
    rw [← hrest, hpre, key_toList, String.toList_ofList, List.append_assoc]
    rfl
  · rintro ⟨name, rfl⟩
    refine ⟨name.toList, ?_⟩
    rw [hpre, key_toList, List.append_assoc]
    rfl

/-- What is left of a key of the tag is its name. -/
lemma drop_key (tag name : String) :
    String.ofList ((key tag name).toList.drop (key tag "").toList.length) = name := by
  rw [key_toList, key_toList, String.toList_empty, List.length_append, List.length_singleton,
    ← List.drop_drop, List.drop_left]
  simp

/-- The first piece of a key is its tag. -/
lemma tagOfKey_key {tag name : String} (h : NoNul tag) : tagOfKey (key tag name) = tag := by
  rw [tagOfKey, Names.splitChar, key_toList, List.splitOn_append_cons_self_of_not_mem h]
  simp

lemma lt_of_key_lt {tag name name' : String} (h : key tag name < key tag name') : name < name' := by
  rw [String.lt_iff_toList_lt, key_toList, key_toList] at h
  rw [String.lt_iff_toList_lt]
  refine Scan.lt_of_append_lt_append (p := tag.toList ++ ['\x00']) ?_
  rw [List.append_assoc, List.append_assoc]
  exact h

/-- Counting keys is counting the runs of their tags. -/
lemma map_foldl_countKey : ∀ (l : List String) (out : List TagCount),
    (l.foldl countKey out).map (fun c => (c.tag, c.count)) =
      l.foldl (fun acc k => Scan.countRun acc (tagOfKey k)) (out.map fun c => (c.tag, c.count))
  | [], _ => rfl
  | k :: l, out => by
      rw [List.foldl_cons, List.foldl_cons, map_foldl_countKey l]
      congr 1
      simp only [countKey, Scan.countRun, List.getLast?_map]
      cases out.getLast? with
      | none => simp
      | some last =>
          simp only [Option.map_some]
          by_cases htag : last.tag = tagOfKey k
          · rw [if_pos htag, if_pos htag, List.map_append, List.map_dropLast]
            rfl
          · rw [if_neg htag, if_neg htag, List.map_append]
            rfl

/-! ## One record after the other -/

/-- A search over records is a window of those that match. -/
lemma foldl_consider (toLowercase : String → String) (q : String) (offset limit : ℕ)
    (l : List Record) (acc : ℕ × List Hit) :
    l.foldl (consider toLowercase q offset limit) acc =
      (l.filter fun r => matchesQ toLowercase r q).foldl (Scan.collect hit offset limit) acc := by
  rw [List.foldl_filter]
  refine List.foldl_ext _ _ _ fun acc r _ => ?_
  simp only [consider, Scan.collect]
  cases matchesQ toLowercase r q <;> rfl

/-- A search over the names of stored records is a search over the records. -/
lemma foldl_considerName (toLowercase : String → String) {s : State E} (hn : s.Named) (q : String)
    (offset limit : ℕ) (p : Record → Bool) (acc : ℕ × List Hit) :
    ((s.records.values.filter p).map Record.name).foldl
        (considerName toLowercase s q offset limit) acc =
      (s.records.values.filter p).foldl (consider toLowercase q offset limit) acc := by
  rw [List.foldl_map]
  refine List.foldl_ext _ _ _ fun acc r hr => ?_
  obtain ⟨name, hget⟩ := OrdMap.mem_values.mp (List.mem_filter.mp hr).1
  have hstored : s.getRecord r.name = some r := by
    rw [State.getRecord, hn name r hget]
    exact hget
  simp only [considerName, hstored]

/-! ## A range scan of the index -/

/-- The scan of a range of the keys is a filter of all of them. -/
lemma namesWithTag_eq_filter (s : State E) (tag : String) :
    namesWithTag s tag =
      (s.tags.keys.filter fun k => (key tag "").toList.isPrefixOf k.toList).map
        fun k => String.ofList (k.toList.drop (key tag "").toList.length) := by
  have hle : ∀ k : String, (key tag "").toList.isPrefixOf k.toList = true → key tag "" ≤ k :=
    fun k hk => String.le_iff_toList_le.mpr (Scan.le_of_startsWith (List.isPrefixOf_iff_prefix.mp hk))
  simp only [namesWithTag]
  rw [Scan.takeWhile_eq_filter, List.filter_filter]
  · refine congrArg _ (List.filter_congr fun k _ => ?_)
    simpa using hle k
  · refine (s.tags.keys_sorted.filter _).imp_of_mem fun {a b} ha _ hlt hb => ?_
    have hfrom := (List.mem_filter.mp ha).2
    exact List.isPrefixOf_iff_prefix.mpr
      (Scan.prefix_of_le (String.le_iff_toList_le.mp (by simpa using hfrom))
        (String.le_iff_toList_le.mp hlt.le) (List.isPrefixOf_iff_prefix.mp hb))

lemma mem_namesWithTag {s : State E} {tag name : String} :
    name ∈ namesWithTag s tag ↔ s.tags.contains (key tag name) = true := by
  simp only [namesWithTag_eq_filter, List.mem_map, List.mem_filter, OrdMap.mem_keys,
    List.isPrefixOf_iff_prefix, prefix_key_iff]
  constructor
  · rintro ⟨k, ⟨hk, other, rfl⟩, rfl⟩
    rwa [drop_key]
  · intro h
    exact ⟨key tag name, ⟨h, name, rfl⟩, drop_key tag name⟩

lemma namesWithTag_sorted (s : State E) (tag : String) :
    (namesWithTag s tag).Pairwise (· < ·) := by
  rw [namesWithTag_eq_filter, List.pairwise_map]
  refine (s.tags.keys_sorted.filter _).imp_of_mem fun {a b} ha hb hlt => ?_
  obtain ⟨x, rfl⟩ := prefix_key_iff.mp (List.isPrefixOf_iff_prefix.mp (List.mem_filter.mp ha).2)
  obtain ⟨y, rfl⟩ := prefix_key_iff.mp (List.isPrefixOf_iff_prefix.mp (List.mem_filter.mp hb).2)
  rw [drop_key, drop_key]
  exact lt_of_key_lt hlt

end Directory

namespace State

open Directory

variable {E : Env} {s : State E}

/-- **Any part of the records, in order, has its names in strict order.** -/
lemma Named.names_sorted (hn : s.Named) (p : Record → Bool) :
    ((s.records.values.filter p).map Record.name).Pairwise (· < ·) := by
  have hsub := (List.filter_sublist (p := p) (l := s.records.values)).map Record.name
  rw [hn.map_name_values] at hsub
  exact s.records.keys_sorted.sublist hsub

namespace Catalogued

variable (h : s.Catalogued) (hs : s.Shape)

include h in
/-- The keys of the index are keys of checked tags of stored records. -/
lemma exists_of_contains {k : String} (hk : s.tags.contains k = true) :
    ∃ tag name r, k = key tag name ∧ s.records.get name = some r ∧ tag ∈ tagsOf r ∧
      Names.checkSegment "tag" tag = .ok () := by
  obtain ⟨name, r, hget, tag, htag, rfl⟩ := (h.indexed k).mp hk
  exact ⟨tag, name, r, rfl, hget, htag, segment_of_mem_tagsOf (h.texts name r hget) htag⟩

include h hs

/-- **The index holds the pair of a tag and a name exactly when the stored record has the tag.** -/
theorem contains_key (tag name : String) : s.tags.contains (key tag name) = true ↔
    ∃ r, s.records.get name = some r ∧ tag ∈ tagsOf r := by
  constructor
  · intro hk
    obtain ⟨tag', name', r, hkey, hget, htag, hsegment⟩ := h.exists_of_contains hk
    have hnul := hs.named name' r hget ▸ noNul_of_shaped (hs.records name' r hget)
    have hlist := congrArg String.toList hkey
    rw [key_toList, key_toList] at hlist
    obtain ⟨htags, hnames⟩ :=
      List.append_cons_cancel_single (noNul_of_segment hsegment) hnul hlist
    rw [String.toList_inj] at htags hnames
    subst htags hnames
    exact ⟨r, hget, htag⟩
  · rintro ⟨r, hget, htag⟩
    exact (h.indexed _).mpr ⟨name, r, hget, tag, htag, rfl⟩

/-- **A range scan finds the names of the records with the tag, in name order.** -/
theorem namesWithTag_eq (tag : String) :
    namesWithTag s tag = (carriers s tag).map Record.name := by
  refine (namesWithTag_sorted s tag).eq_of_mem_iff (h.named.names_sorted _) fun name => ?_
  rw [mem_namesWithTag, h.contains_key hs, List.mem_map]
  constructor
  · rintro ⟨r, hget, htag⟩
    refine ⟨r, List.mem_filter.mpr ⟨OrdMap.mem_values.mpr ⟨name, hget⟩, ?_⟩, h.named name r hget⟩
    simpa using htag
  · rintro ⟨r, hr, rfl⟩
    obtain ⟨hvalue, htag⟩ := List.mem_filter.mp hr
    obtain ⟨name, hget⟩ := OrdMap.mem_values.mp hvalue
    refine ⟨r, ?_, by simpa using htag⟩
    rw [h.named name r hget]
    exact hget

/-! ## The runs of the index -/

/-- The tag of a key of the index is its first piece. -/
lemma tagOfKey_eq {k : String} (hk : s.tags.contains k = true) {tag : String} :
    tagOfKey k = tag ↔ (key tag "").toList <+: k.toList := by
  obtain ⟨tag', name', r, rfl, hget, htag, hsegment⟩ := h.exists_of_contains hk
  rw [tagOfKey_key (noNul_of_segment hsegment), prefix_key_iff]
  constructor
  · rintro rfl
    exact ⟨name', rfl⟩
  · rintro ⟨name, hkey⟩
    obtain ⟨r', hget', htag'⟩ := (h.contains_key hs tag name).mp (hkey ▸ hk)
    have hsegment' := segment_of_mem_tagsOf (h.texts name r' hget') htag'
    exact (key_injective (noNul_of_segment hsegment) (noNul_of_segment hsegment') hkey).1

omit hs in
/-- The tags of the keys come in order: NUL is below every character of a tag. -/
lemma tagsOfKeys_sorted : (s.tags.keys.map tagOfKey).Pairwise (· ≤ ·) := by
  rw [List.pairwise_map]
  refine s.tags.keys_sorted.imp_of_mem fun {a b} ha hb hlt => ?_
  obtain ⟨tag, name, -, rfl, -, -, hsegment⟩ := h.exists_of_contains (OrdMap.mem_keys.mp ha)
  obtain ⟨tag', name', -, rfl, -, -, hsegment'⟩ := h.exists_of_contains (OrdMap.mem_keys.mp hb)
  rw [tagOfKey_key (noNul_of_segment hsegment),
    tagOfKey_key (noNul_of_segment hsegment')]
  have hle := String.le_iff_toList_le.mp hlt.le
  rw [key_toList, key_toList] at hle
  exact String.le_iff_toList_le.mpr (Scan.le_of_append_cons_le (nul_lt_of_segment hsegment) hle)

/-- As many keys have a tag as records carry it. -/
lemma count_tagOfKey (tag : String) :
    (s.tags.keys.map tagOfKey).count tag = (carriers s tag).length := by
  rw [← List.length_map (f := Record.name), ← h.namesWithTag_eq hs, namesWithTag_eq_filter,
    List.length_map, List.count_eq_countP, List.countP_map, List.countP_eq_length_filter]
  refine congrArg _ (List.filter_congr fun k hk => ?_)
  rw [Bool.eq_iff_iff, List.isPrefixOf_iff_prefix, ← h.tagOfKey_eq hs (OrdMap.mem_keys.mp hk)]
  simp

/-- **The runs of the index are the tags in use, in order, each with the number of its records.** -/
theorem tags_exact : ((Directory.tags s).map TagCount.tag).Pairwise (· < ·) ∧
    ∀ tag n, ⟨tag, n⟩ ∈ Directory.tags s ↔ n = (carriers s tag).length ∧ 0 < n := by
  have htally := Scan.tallied_foldl h.tagsOfKeys_sorted
  rw [List.foldl_map] at htally
  have hmap := map_foldl_countKey s.tags.keys []
  rw [List.map_nil] at hmap
  rw [← hmap] at htally
  refine ⟨?_, fun tag n => ?_⟩
  · have hsorted := htally.sorted
    rwa [List.map_map] at hsorted
  · rw [← h.count_tagOfKey hs tag, ← htally.exact tag n, List.mem_map]
    constructor
    · intro hmem
      exact ⟨_, hmem, rfl⟩
    · rintro ⟨⟨tag', n'⟩, hmem, heq⟩
      cases heq
      exact hmem

/-! ## A search is a window of the scan -/

/-- **A search counts the scan and returns a window of it.** -/
theorem search_eq_scan (toLowercase : String → String) (query : SearchQuery) :
    search toLowercase s query =
      ⟨(scan toLowercase s query).length, query.offset.getD 0,
        (((scan toLowercase s query).drop (query.offset.getD 0)).take
          (min (max (query.limit.getD defaultLimit) 1) maxLimit)).map hit⟩ := by
  have hfound : ∀ offset limit,
      considerAll toLowercase s (soughtText toLowercase query) offset limit (soughtTag query) =
        ((scan toLowercase s query).length,
          (((scan toLowercase s query).drop offset).take limit).map hit) := by
    intro offset limit
    rw [← Scan.foldl_collect, scan]
    cases soughtTag query with
    | none =>
        rw [considerAll, foldl_consider]
        simp only [carries, Option.all_none, Bool.true_and]
    | some tag =>
        rw [considerAll, h.namesWithTag_eq hs, carriers, foldl_considerName toLowercase h.named,
          foldl_consider, List.filter_filter]
        simp only [carries, Option.all_some, Bool.and_comm]
  simp only [search, hfound]

end Catalogued

end State

/-- Two names under a handle are tagged, and one of them is retagged. -/
def Script.tagging : List Event :=
  housing ++
    [.call (caller 5 0) (.setText "h/x" "tags" (some "deploy,git")),
      .call (caller 5 0) (.setRecord "h/y" (.address ⟨[9]⟩)),
      .call (caller 5 0) (.setText "h/y" "tags" (some "git")),
      .call (caller 5 0) (.setText "h/x" "tags" (some "git,vote"))]

namespace World

open Directory

variable {E : Env} {ok : World E → Event → Prop} {w : World E} {tr : History E}

/-- **The directory agrees with the stored records.**  In every state reached: the index holds exactly
the pairs of a stored name and a tag of its record; `tags` lists each tag in use once, in order, with
the number of records that carry it; and a search has the total of the plain scan, its hits are a window
of the scan, and the pages of any length come one after the other to the scan, each match once, in name
order. -/
theorem directory_agrees (toLowercase : String → String) (h : Run (machine E) ok init tr w) :
    (∀ tag name, w.canister.tags.contains (key tag name) = true ↔
      ∃ r, w.canister.records.get name = some r ∧ tag ∈ tagsOf r) ∧
    (∀ k, w.canister.tags.contains k = true → ∃ tag name, k = key tag name) ∧
    (((tags w.canister).map TagCount.tag).Pairwise (· < ·) ∧
      ∀ tag n, ⟨tag, n⟩ ∈ tags w.canister ↔ n = (carriers w.canister tag).length ∧ 0 < n) ∧
    ∀ query, (search toLowercase w.canister query).total
        = (scan toLowercase w.canister query).length ∧
      (search toLowercase w.canister query).hits
        = (((scan toLowercase w.canister query).drop (query.offset.getD 0)).take
            (min (max (query.limit.getD defaultLimit) 1) maxLimit)).map hit ∧
      ((scan toLowercase w.canister query).map Record.name).Pairwise (· < ·) ∧
      ∀ L, 1 ≤ L → L ≤ maxLimit → ∀ k, (scan toLowercase w.canister query).length ≤ k * L →
        (List.range k).flatMap (fun i => (search toLowercase w.canister
            { query with offset := some (i * L), limit := some L }).hits)
          = (scan toLowercase w.canister query).map hit := by
  have hc := run_catalogued h
  have hs := run_shape h
  refine ⟨hc.contains_key hs, ?_, hc.tags_exact hs, fun query => ⟨?_, ?_, ?_, ?_⟩⟩
  · intro k hk
    obtain ⟨tag, name, -, hkey, -⟩ := hc.exists_of_contains hk
    exact ⟨tag, name, hkey⟩
  · rw [hc.search_eq_scan hs]
  · rw [hc.search_eq_scan hs]
  · exact hc.named.names_sorted _
  · intro L hpos hmax k hk
    have hlimit : min (max L 1) maxLimit = L := by
      rw [max_eq_left hpos, min_eq_left hmax]
    have hscan : ∀ offset limit, scan toLowercase w.canister
        { query with offset := offset, limit := limit } = scan toLowercase w.canister query :=
      fun _ _ => rfl
    simp only [hc.search_eq_scan hs, hscan, Option.getD_some, hlimit]
    rw [← List.map_flatMap, Scan.pages_eq_take, List.take_of_length_le hk]

theorem directory_agrees_tagged : ∃ (tr : History Env.reference) (w : World Env.reference),
    Run (machine Env.reference) anyEvent init tr w ∧ tr.reverse.map Entry.event = Script.tagging ∧
      tags w.canister = [⟨"git", 2⟩, ⟨"vote", 1⟩] ∧
      (search id w.canister ⟨none, some "git", none, none⟩).total
        = (scan id w.canister ⟨none, some "git", none, none⟩).length := by
  obtain ⟨tr, w, hr, hevents, htags⟩ := Machine.exists_run_of_exec (machine Env.reference)
    anyEvent init Script.tagging (fun _ w => tags w.canister = [⟨"git", 2⟩, ⟨"vote", 1⟩])
    (by decide +kernel)
  exact ⟨tr, w, hr, hevents, htags, ((directory_agrees id hr).2.2.2 _).1⟩

end World
