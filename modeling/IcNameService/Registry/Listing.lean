import IcNameService.Canister.Views
import IcNameService.Core.Scans
import IcNameService.Directory.Index
import IcNameService.Registry.Latest

/-!
# Names listed under a handle

`list_names` scans the keys of the records from `<handle>/` on.  What it lists is decided by the accepted
writes of the history: the names of that handle that the latest write of each left pointing somewhere.

* `namesUnder_eq_filter` — the scan of a range of the keys is a filter of all of them.
* `Names.split_of_startsWith` — a valid scoped name that starts with `<handle>/` is one of that handle.
* `World.names_listed` — **the listing, replayed.**
-/

namespace Names

/-- A valid scoped name starts with its own handle and a slash, and with no other text that ends in a
slash: `handle` may be any text at all. -/
lemma split_of_startsWith {name handle : String} {place : Place} (h : split name = .ok place) :
    (handle ++ "/").toList <+: name.toList ↔ place.1 = handle := by
  obtain ⟨hname, hhandle, hlabel⟩ := split_ok (show split name = .ok (place.1, place.2) from h)
  rw [hname]
  constructor
  · rintro ⟨rest, hrest⟩
    rw [String.toList_append, List.append_assoc] at hrest
    obtain ⟨hsame, -⟩ := List.append_cons_cancel_single (slash_notMem_of_checkSegment hhandle)
      (slash_notMem_of_checkSegment hlabel)
      (show handle.toList ++ '/' :: rest = place.1.toList ++ '/' :: place.2.toList from hrest)
    exact (String.toList_inj.mp hsame).symm
  · rintro rfl
    exact ⟨place.2.toList, by simp⟩

end Names

namespace State

variable {E : Env} (s : State E)

/-- The scan of a range of the keys is a filter of all of them. -/
lemma namesUnder_eq_filter (handle : String) :
    s.namesUnder handle =
      s.records.keys.filter fun k => (handle ++ "/").toList.isPrefixOf k.toList := by
  simp only [namesUnder]
  rw [Scan.takeWhile_eq_filter, List.filter_filter]
  · refine List.filter_congr fun k _ => ?_
    simp only [Bool.and_eq_left_iff_imp, decide_eq_true_eq]
    intro hk
    exact String.le_iff_toList_le.mpr (Scan.le_of_startsWith (List.isPrefixOf_iff_prefix.mp hk))
  · refine (s.records.keys_sorted.filter _).imp_of_mem fun {a b} ha _ hlt hb => ?_
    have hfrom := (List.mem_filter.mp ha).2
    exact List.isPrefixOf_iff_prefix.mpr
      (Scan.prefix_of_le (String.le_iff_toList_le.mp (by simpa using hfrom))
        (String.le_iff_toList_le.mp hlt.le) (List.isPrefixOf_iff_prefix.mp hb))

variable {s}

/-- What is listed under a handle: the stored names of that handle. -/
lemma mem_namesUnder (hs : s.Shape) {handle name : String} :
    name ∈ s.namesUnder handle ↔
      (∃ label, Names.split name = .ok (handle, label)) ∧ (s.records.get name).isSome := by
  rw [namesUnder_eq_filter, List.mem_filter, OrdMap.mem_keys, List.isPrefixOf_iff_prefix]
  constructor
  · rintro ⟨hstored, hstarts⟩
    obtain ⟨r, hget⟩ := Option.isSome_iff_exists.mp hstored
    have hscoped : Names.isScoped r.name = true := by
      rw [hs.named name r hget]
      obtain ⟨rest, hrest⟩ := hstarts
      simp [Names.isScoped, ← hrest]
    obtain ⟨⟨place, hsplit⟩, -⟩ := (hs.records name r hget).plain hscoped
    rw [hs.named name r hget] at hsplit
    obtain rfl := (Names.split_of_startsWith hsplit).mp hstarts
    exact ⟨⟨place.2, hsplit⟩, hstored⟩
  · rintro ⟨⟨label, hsplit⟩, hstored⟩
    exact ⟨hstored, (Names.split_of_startsWith hsplit).mpr rfl⟩

end State

namespace World

variable {E : Env} {w : World E} {tr : History E}

/-- **What is listed under a handle is a replay of the history.**  In every history and for any text
given as the handle, `list_names` lists each name once, in order: exactly the valid names of that handle
whose latest accepted write was an `announce` or a `set_record`, not a `delete_record`.  Each has a
record, and the handle's owner owns it. -/
theorem names_listed (h : Run (machine E) anyEvent init tr w) (handle : String) :
    (w.canister.namesUnder handle).Pairwise (· < ·) ∧
    (∀ name, name ∈ w.canister.namesUnder handle ↔
      (∃ label, Names.split name = .ok (handle, label)) ∧ (latestTarget tr name).isSome) ∧
    ∀ name ∈ w.canister.namesUnder handle, ∃ r, w.canister.records.get name = some r ∧
      w.canister.handleOwner handle = some r.owner := by
  have hshape := run_shape h
  refine ⟨?_, fun name => ?_, fun name hname => ?_⟩
  · rw [State.namesUnder_eq_filter]
    exact w.canister.records.keys_sorted.filter _
  · rw [State.mem_namesUnder hshape]
    refine and_congr_right ?_
    rintro ⟨label, hsplit⟩
    rw [← target_eq_latestTarget h hsplit, Option.isSome_map]
  · obtain ⟨⟨label, hsplit⟩, hstored⟩ := (State.mem_namesUnder hshape).mp hname
    obtain ⟨r, hget⟩ := Option.isSome_iff_exists.mp hstored
    obtain ⟨v, hv, howner⟩ := (run_housed h).1 name (handle, label) r hsplit hget
    exact ⟨r, hget, by rw [State.handleOwner, hv, Option.map_some, howner]⟩

end World

namespace Script

/-- Two names under a handle, and one under a handle whose name goes on from it; then the first is
removed. -/
def rehoused : List Event :=
  housing ++
    [.call (caller 5 1) (.setRecord "h/y" (.alias "h/x")),
      .call (caller 6 1) (.registerHandle "h2"),
      .call (caller 6 1) (.setRecord "h2/x" (.address ⟨[9]⟩)),
      .call (caller 5 2) (.deleteRecord "h/x")]

end Script

namespace World

/-- One name is left of the handle, and it is the one whose latest write was not a removal. -/
theorem names_listed_rehoused : ∃ (tr : History Env.reference) (w : World Env.reference),
    Run (machine Env.reference) anyEvent init tr w ∧ tr.reverse.map Entry.event = Script.rehoused ∧
      w.canister.namesUnder "h" = ["h/y"] ∧ (latestTarget tr "h/y").isSome = true ∧
      ¬ (latestTarget tr "h/x").isSome = true := by
  obtain ⟨tr, w, hr, hevents, hlisted⟩ := Machine.exists_run_of_exec (machine Env.reference)
    anyEvent init Script.rehoused (fun _ w => w.canister.namesUnder "h" = ["h/y"])
    (by decide +kernel)
  obtain ⟨-, hnames, -⟩ := names_listed hr "h"
  refine ⟨tr, w, hr, hevents, hlisted, ?_, fun hstored => ?_⟩
  · exact ((hnames "h/y").mp (by simp [hlisted])).2
  · have hmem := (hnames "h/x").mpr ⟨⟨"x", by decide +kernel⟩, hstored⟩
    rw [hlisted] at hmem
    simp at hmem

end World
