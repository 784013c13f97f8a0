import IcNameService.Serving.Answers

/-!
# What the tag counts count

A page that lists tags with their counts links each to a search.  Both are asked over HTTP and read back
from JSON, in the same state: the count of a tag is the total of its search, and a tag that is not listed
has none.

* `World.tagsAt` — what a client reads of the tags.
* `World.tag_counts_are_totals` — **the counts are the totals.**
-/

namespace Directory

variable {E : Env}

/-- The count listed for a tag, 0 if it is not listed. -/
def listedCount (counts : List TagCount) (tag : String) : ℕ :=
  ((counts.find? fun c => c.tag = tag).map TagCount.count).getD 0

/-- What is listed for a tag is the number of records that carry it. -/
lemma listedCount_tags {s : State E} (hc : s.Catalogued) (hs : s.Shape) (tag : String) :
    listedCount (tags s) tag = (carriers s tag).length := by
  obtain ⟨-, hexact⟩ := hc.tags_exact hs
  rw [listedCount]
  cases hfind : (tags s).find? fun c => c.tag = tag with
  | none =>
      have habsent := List.find?_eq_none.mp hfind
      have hzero : ¬ 0 < (carriers s tag).length := fun hpos =>
        habsent _ ((hexact tag _).mpr ⟨rfl, hpos⟩) (by simp)
      simp only [Option.map_none, Option.getD_none]
      omega
  | some c =>
      have htag : c.tag = tag := by simpa using List.find?_some hfind
      subst htag
      exact ((hexact c.tag c.count).mp (List.mem_of_find?_eq_some hfind)).1

/-- A search by a tag alone scans the records that carry it. -/
lemma scan_tag {toLowercase : String → String} (hempty : toLowercase "" = "") (s : State E)
    {tag sought : String} (hsought : soughtTag ⟨none, some tag, none, none⟩ = some sought) :
    scan toLowercase s ⟨none, some tag, none, none⟩ = carriers s sought := by
  have htext : soughtText toLowercase ⟨none, some tag, none, none⟩ = "" := by
    have htrim : trim "" = "" := by decide +kernel
    rw [soughtText, Option.getD_none, htrim, hempty]
  rw [scan, carriers, hsought, htext]
  refine List.filter_congr fun r _ => ?_
  simp [carries, matchesQ]

end Directory

namespace World

open Gateway

variable {E : Env} {w : World E} {tr : History E} {ok : World E → Event → Prop}
  {toLowercase : String → String} (F : Forecast) (now : ℕ) (dataCertificate : Option Bytes)
  {method : String}

/-- What a client reads of the tags. -/
def tagsAt (toLowercase : String → String) (w : World E) (method url : String) :
    Option (List Directory.TagCount) :=
  (w.canister.readBody now toLowercase F (w.canister.handle now dataCertificate ⟨method, url⟩)).bind
    (Json.asList Directory.TagCount.ofJson)

/-- **The counts are the totals.**  In every state reached, the tags over HTTP are listed once each, in
order, none with a count of 0; and however a client writes a tag into the URL of a search, the total it
reads is the count listed for that tag, 0 if it is not listed. -/
theorem tag_counts_are_totals (hJ : E.JsonLaws) (hempty : toLowercase "" = "")
    (h : Run (machine E) ok init tr w) (hmethod : Reads method) {url : String}
    (hurl : pathOf url = "/api/tags" ∨ pathOf url = "/api/tags/") :
    ∃ counts, tagsAt F now dataCertificate toLowercase w method url = some counts ∧
      (counts.map Directory.TagCount.tag).Pairwise (· < ·) ∧ (∀ c ∈ counts, 0 < c.count) ∧
      ∀ tag sought, Directory.soughtTag ⟨none, some tag, none, none⟩ = some sought →
        ∀ path written fragment, path = "/api/search" ∨ path = "/api/search/" →
          WritesQuery [("tag", tag)] written →
          (searchAt toLowercase F now dataCertificate w method (urlOf path written fragment)).map
            JsonSearch.total = some (Directory.listedCount counts sought) := by
  have hc := run_catalogued h
  have hs := run_shape h
  obtain ⟨hsorted, hexact⟩ := hc.tags_exact hs
  refine ⟨Directory.tags w.canister, ?_, hsorted, fun c hmem => ((hexact c.tag c.count).mp hmem).2, ?_⟩
  · rw [tagsAt, w.canister.handle_tags now dataCertificate hmethod hurl]
    simp only [State.readBody, State.response, State.render, Option.bind_some, hJ.read_back]
    exact Json.asList_map Directory.TagCount.ofJson_json _
  · intro tag sought hsought path written fragment hpath hwritten
    have hfits : Fits ⟨none, some tag, none, none⟩ :=
      ⟨fun n hn => (by cases hn), fun n hn => (by cases hn)⟩
    rw [searchAt_written toLowercase F now dataCertificate hJ h hmethod hpath hfits hwritten fragment,
      Directory.scan_tag hempty w.canister hsought, Directory.listedCount_tags hc hs]
    rfl

/-- Two names carry the tag `git`: it is listed with 2, and that is the total of its search. -/
theorem tag_counts_are_totals_tagged : ∃ (w : World Env.reference) (counts : List Directory.TagCount),
    tagsAt Reference.forecast 0 none id w "GET" "/api/tags" = some counts ∧
      Directory.listedCount counts "git" = 2 ∧
      (searchAt id Reference.forecast 0 none w "GET" "/api/search?tag=git").map JsonSearch.total =
        some 2 := by
  obtain ⟨tr, w, hr, -, htotal⟩ := Machine.exists_run_of_exec (machine Env.reference) anyEvent init
    Script.tagging (fun _ w => (Directory.search id w.canister ⟨none, some "git", none, none⟩).total = 2)
    (by decide +kernel)
  have hroute : pathOf "/api/tags" = "/api/tags" ∨ pathOf "/api/tags" = "/api/tags/" :=
    Or.inl (by decide +kernel)
  obtain ⟨counts, hread, -, -, htotals⟩ := tag_counts_are_totals
    Reference.forecast 0 none Env.reference_jsonLaws (rfl : id "" = "") hr
    (Or.inl rfl : Reads "GET") hroute
  have hurl : urlOf "/api/search" (plainQuery [("tag", "git")]) none = "/api/search?tag=git" := by
    decide +kernel
  have hlisted := htotals "git" "git" (by decide +kernel) "/api/search" _ none (Or.inl rfl)
    (writesQuery_plain (by decide +kernel))
  have hsearch := searchAt_eq id Reference.forecast 0 none Env.reference_jsonLaws w
    (Or.inl rfl : Reads "GET")
    (Or.inl (by decide +kernel : pathOf "/api/search?tag=git" = "/api/search"))
    (by decide +kernel : queryOf "/api/search?tag=git" = some [("tag", "git")])
  have hquery : searchQuery [("tag", "git")] = ⟨none, some "git", none, none⟩ := by decide +kernel
  rw [hquery] at hsearch
  have hcount : (searchAt id Reference.forecast 0 none w "GET" "/api/search?tag=git").map
      JsonSearch.total = some 2 := by
    rw [hsearch, ← htotal]
    rfl
  rw [hurl, hcount] at hlisted
  exact ⟨w, counts, hread, (Option.some.inj hlisted).symm, hcount⟩

end World
