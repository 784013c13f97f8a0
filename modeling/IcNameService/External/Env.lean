import IcNameService.External.IcAuction
import IcNameService.External.Certification
import IcNameService.Core.Json

/-!
# The canister's surroundings

Everything the code calls and does not define: the two crates, `Principal::to_text` of candid, and
the encodings that serde_cbor, serde_json and base64 give.
-/

/-- What is outside the repository. -/
structure Env where
  auction : IcAuction
  cert : IcCertification
  /-- `Principal::to_text`. -/
  toText : Principal → String
  /-- A hash tree as self-describing CBOR. -/
  cborTree : cert.HashTree → Bytes
  /-- A list of texts as self-describing CBOR. -/
  cborTexts : List String → Bytes
  /-- `serde_json::to_string`. -/
  jsonText : Json → String
  /-- `general_purpose::STANDARD.encode`. -/
  base64 : Bytes → String

/-- `Principal::to_text` tells principals apart, and a principal's text has no newline. -/
structure Env.TextLaws (E : Env) : Prop where
  injective : Function.Injective E.toText
  no_newline : ∀ p, '\n' ∉ (E.toText p).toList

/-- What `serde_json` writes is JSON for the value that was written. -/
structure Env.JsonLaws (E : Env) : Prop where
  read_back : ∀ v, Json.parse (E.jsonText v) = some v
