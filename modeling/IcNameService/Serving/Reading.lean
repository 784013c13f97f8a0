import IcNameService.Canister.Render

/-!
# Reading the JSON answers

What a client does with the bodies of the JSON routes: take the members out by their keys, and rebuild
the certified form of a record from the strings it was sent.  None of this is in the repository; it is
what the renderings are for, and every rendering is read back.

* `JsonRecord.ofJson`, `JsonResolved.ofJson`, `JsonSearch.ofJson`, `JsonExpiring.ofJson`,
  `Directory.TagCount.ofJson` — the readers, each with its round trip.
* `JsonRecord.canonicalText`, `canonicalText_renderRecord` — **the JSON record has all that the certified
  leaf commits to.**
-/

namespace Json

/-- A string member. -/
def textField (key : String) (v : Json) : Option String := (field key v).bind asString

/-- A pair of strings. -/
def asPair : Json → Option (String × String)
  | arr [str a, str b] => some (a, b)
  | _ => none

@[simp] lemma asString_str (s : String) : asString (str s) = some s := rfl

@[simp] lemma asNumber_num (n : ℕ) : asNumber (num n) = some n := rfl

lemma field_cons_self (k : String) (v : Json) (ms : List (String × Json)) :
    field k (obj ((k, v) :: ms)) = some v := by
  simp [field]

lemma field_cons_ne {k k' : String} (h : k' ≠ k) (v : Json) (ms : List (String × Json)) :
    field k (obj ((k', v) :: ms)) = field k (obj ms) := by
  simp [field, h]

lemma field_nil (k : String) : field k (obj []) = none := rfl

/-- A member that may be null. -/
lemma optional_ofOption {k : String} {v : Json} (o : Option String)
    (h : field k v = some (ofOption o)) : optional asString k v = some o := by
  rw [optional, h]
  cases o <;> rfl

/-- A member that is there, and not null. -/
lemma optional_some {α : Type} {k : String} {v w : Json} (f : Json → Option α)
    (h : field k v = some w) (hnull : w ≠ null) : optional f k v = (f w).map some := by
  rw [optional, h]
  cases w with
  | null => exact absurd rfl hnull
  | _ => rfl

/-- A member that is skipped when there is none. -/
lemma optional_unlessNone {α : Type} {k : String} {f : Json → Option α} {toJson : α → Json}
    (hread : ∀ a, f (toJson a) = some a) (hnull : ∀ a, toJson a ≠ null)
    {v : Json} (o : Option α) (h : field k v = o.map toJson) : optional f k v = some o := by
  cases o with
  | none => rw [optional, h, Option.map_none]
  | some a => rw [optional_some f h (hnull a), hread, Option.map_some]

end Json

open Json

/-- A line of the certified form. -/
def line (key value : String) : String := key ++ value ++ "\n"

/-- A line with a number, as the canister writes it. -/
lemma line_toString (key : String) (n : ℕ) :
    toString key ++ toString n ++ toString "\n" = line key (toString n) := rfl

/-! ## Readers -/

namespace JsonTarget

/-- The variant by its key. -/
def ofJson (v : Json) : Option JsonTarget :=
  match textField "address" v with
  | some s => some (.address s)
  | none => (textField "alias" v).map .alias

lemma ofJson_json (t : JsonTarget) : ofJson t.json = some t := by
  cases t <;> simp [ofJson, json, textField, field]

lemma json_ne_null (t : JsonTarget) : t.json ≠ null := by
  cases t <;> simp [json]

/-- A target as the certified form writes it. -/
def text : JsonTarget → String
  | .address s => "address:" ++ s
  | .alias s => "alias:" ++ s

end JsonTarget

namespace JsonHarberger

def ofJson (v : Json) : Option JsonHarberger := do
  some ⟨← textField "price" v, ← textField "balance" v, ← textField "settled_ns" v,
    ← optional asString "lapsed_ns" v⟩

lemma ofJson_json (h : JsonHarberger) : ofJson h.json = some h := by
  have hlapsed : optional asString "lapsed_ns" h.json = some h.lapsedNs :=
    optional_ofOption _ (by simp [json, field])
  rw [ofJson, hlapsed]
  simp [json, textField, field]

lemma json_ne_null (h : JsonHarberger) : h.json ≠ null := by simp [json]

/-- The four lines of the certified form. -/
def text (h : JsonHarberger) : String :=
  line "price=" h.price ++ line "balance=" h.balance ++ line "settled_ns=" h.settledNs ++
    line "lapsed_ns=" (h.lapsedNs.getD "0")

end JsonHarberger

namespace JsonRecord

def ofJson (v : Json) : Option JsonRecord := do
  some
    { name := ← textField "name" v
      owner := ← textField "owner" v
      target := ← (field "target" v).bind JsonTarget.ofJson
      text := ← (field "text" v).bind (asList asPair)
      createdNs := ← textField "created_ns" v
      updatedNs := ← textField "updated_ns" v
      changedHandsNs := ← textField "changed_hands_ns" v
      flat := ← optional JsonHarberger.ofJson "flat" v
      previousTarget := ← optional JsonTarget.ofJson "previous_target" v }

lemma ofJson_json (r : JsonRecord) : ofJson r.json = some r := by
  have hflat : optional JsonHarberger.ofJson "flat" r.json = some r.flat := by
    refine optional_unlessNone JsonHarberger.ofJson_json JsonHarberger.json_ne_null _ ?_
    obtain ⟨_, _, _, _, _, _, _, flat, previous⟩ := r
    cases flat <;> cases previous <;> simp [json, unlessNone, field]
  have hprevious : optional JsonTarget.ofJson "previous_target" r.json = some r.previousTarget := by
    refine optional_unlessNone JsonTarget.ofJson_json JsonTarget.json_ne_null _ ?_
    obtain ⟨_, _, _, _, _, _, _, flat, previous⟩ := r
    cases flat <;> cases previous <;> simp [json, unlessNone, field]
  have htext : asList asPair (arr (r.text.map fun e => arr [str e.1, str e.2])) = some r.text :=
    asList_map (f := asPair) (fun _ => by rfl) _
  rw [ofJson, hflat, hprevious]
  simp [json, textField, field, htext, JsonTarget.ofJson_json]

/-- The certified form, rebuilt from the strings of an answer. -/
def canonicalText (r : JsonRecord) : String :=
  "name=" ++ r.name ++ "\n" ++
  "owner=" ++ r.owner ++ "\n" ++
  "target=" ++ r.target.text ++ "\n" ++
  String.join (r.text.map fun e => "text." ++ e.1 ++ "=" ++ e.2 ++ "\n") ++
  line "created_ns=" r.createdNs ++
  line "updated_ns=" r.updatedNs ++
  line "changed_hands_ns=" r.changedHandsNs ++
  (r.flat.map JsonHarberger.text).getD "" ++
  (r.previousTarget.map fun t => "previous_target=" ++ t.text ++ "\n").getD ""

end JsonRecord

namespace JsonResolved

def ofJson (v : Json) : Option JsonResolved := do
  some
    { name := ← textField "name" v
      canister := ← textField "canister" v
      chain := ← (field "chain" v).bind (asList JsonRecord.ofJson)
      certificate := ← optional asString "certificate" v
      witness := ← textField "witness" v }

theorem ofJson_json (r : JsonResolved) : ofJson r.json = some r := by
  have hcertificate : optional asString "certificate" r.json = some r.certificate :=
    optional_ofOption _ (by simp [json, field])
  have hchain : asList JsonRecord.ofJson (arr (r.chain.map JsonRecord.json)) = some r.chain :=
    asList_map JsonRecord.ofJson_json _
  rw [ofJson, hcertificate]
  simp [json, textField, field, hchain]

end JsonResolved

namespace JsonHit

def ofJson (v : Json) : Option JsonHit := do
  some
    { name := ← textField "name" v
      target := ← (field "target" v).bind JsonTarget.ofJson
      description := ← optional asString "description" v
      tags := ← (field "tags" v).bind (asList asString)
      repo := ← optional asString "repo" v
      commit := ← optional asString "commit" v
      moduleHash := ← optional asString "module_hash" v
      deployer := ← optional asString "deployer" v
      updatedNs := ← textField "updated_ns" v }

lemma ofJson_json (h : JsonHit) : ofJson h.json = some h := by
  have hdescription : optional asString "description" h.json = some h.description :=
    optional_ofOption _ (by simp [json, field])
  have hrepo : optional asString "repo" h.json = some h.repo :=
    optional_ofOption _ (by simp [json, field])
  have hcommit : optional asString "commit" h.json = some h.commit :=
    optional_ofOption _ (by simp [json, field])
  have hmodule : optional asString "module_hash" h.json = some h.moduleHash :=
    optional_ofOption _ (by simp [json, field])
  have hdeployer : optional asString "deployer" h.json = some h.deployer :=
    optional_ofOption _ (by simp [json, field])
  have htags : asList asString (arr (h.tags.map str)) = some h.tags :=
    asList_map (f := asString) (fun _ => by rfl) _
  rw [ofJson, hdescription, hrepo, hcommit, hmodule, hdeployer]
  simp [json, textField, field, htags, JsonTarget.ofJson_json]

end JsonHit

namespace JsonSearch

def ofJson (v : Json) : Option JsonSearch := do
  some
    { total := ← (field "total" v).bind asNumber
      offset := ← (field "offset" v).bind asNumber
      hits := ← (field "hits" v).bind (asList JsonHit.ofJson) }

theorem ofJson_json (s : JsonSearch) : ofJson s.json = some s := by
  have hhits : asList JsonHit.ofJson (arr (s.hits.map JsonHit.json)) = some s.hits :=
    asList_map JsonHit.ofJson_json _
  simp [ofJson, json, field, hhits]

end JsonSearch

namespace JsonExpiring

def ofJson (v : Json) : Option JsonExpiring := do
  some ⟨← textField "name" v, ← textField "owner" v, ← textField "status" v,
    ← textField "deadline_ns" v, ← textField "balance" v, ← textField "tax_per_year" v⟩

lemma ofJson_json (e : JsonExpiring) : ofJson e.json = some e := by
  simp [ofJson, json, textField, field]

end JsonExpiring

namespace Directory.TagCount

def ofJson (v : Json) : Option TagCount := do
  some ⟨← textField "tag" v, ← (field "count" v).bind asNumber⟩

lemma ofJson_json (t : TagCount) : ofJson t.json = some t := by
  simp [ofJson, json, textField, field]

end Directory.TagCount

/-! ## The certified form of what is rendered -/

namespace Gateway

variable {E : Env}

lemma text_renderTarget (t : Target) : (renderTarget E t).text = Record.targetText E t := by
  cases t <;> rfl

lemma text_renderHarberger (h : Harberger) :
    (renderHarberger h).text = Record.flatText (some h) := by
  have hlapsed : (h.lapsedNs.map fun t => toString t).getD "0" = toString (h.lapsedNs.getD 0) := by
    cases h.lapsedNs <;> rfl
  simp only [renderHarberger, JsonHarberger.text, Record.flatText, line_toString, hlapsed]

lemma text_flat (r : Record) :
    ((renderRecord E r).flat.map JsonHarberger.text).getD "" = Record.flatText r.flat := by
  simp only [renderRecord]
  cases r.flat with
  | none => rfl
  | some h => simp only [Option.map_some, Option.getD_some, text_renderHarberger]

lemma text_previous (r : Record) :
    ((renderRecord E r).previousTarget.map fun t => "previous_target=" ++ t.text ++ "\n").getD "" =
      Record.previousText E r.previousTarget := by
  simp only [renderRecord]
  cases r.previousTarget with
  | none => rfl
  | some t => simp only [Option.map_some, Option.getD_some, text_renderTarget, Record.previousText]

/-- **What is rendered of a record has all that its certified leaf commits to.** -/
theorem canonicalText_renderRecord (r : Record) :
    (renderRecord E r).canonicalText = r.canonicalText E := by
  unfold JsonRecord.canonicalText Record.canonicalText
  simp only [line_toString]
  rw [text_flat, text_previous, show (renderRecord E r).target = renderTarget E r.target from rfl,
    text_renderTarget]
  dsimp only [renderRecord]

end Gateway
