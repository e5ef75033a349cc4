import CommandWords.Proofs.Json.Writer
import CommandWords.Response

/-!
# What a response tells

A response written as JSON is one object and a line end, and a reader of JSON finds in it exactly
what the response holds (`HasMembers`), whether it is indented or not (`render_json`). No two
responses hold the same (`HasMembers.unique`).
-/

namespace CommandWords.Response

/-- What the object of a response has to hold: its members in order, each with the strings of the
response. -/
inductive HasMembers : Response → List (Text × Json) → Prop
  | words {tokens : List Text} :
    HasMembers (.words tokens none) [("tokens".toList, .array (tokens.map .string))]
  | wordsAndSpans {tokens spans : List Text} :
    HasMembers (.words tokens (some spans))
      [("tokens".toList, .array (tokens.map .string)),
        ("spans".toList, .array (spans.map .string))]
  | escaped {value : Text} : HasMembers (.escaped value) [("escaped".toList, .string value)]
  | line {value : Text} : HasMembers (.line value) [("line".toList, .string value)]

theorem exists_hasMembers (response : Response) :
    ∃ members, response.toJson = .object members ∧ response.HasMembers members := by
  cases response with
  | words tokens spans =>
    cases spans with
    | none => exact ⟨_, rfl, .words⟩
    | some spans => exact ⟨_, rfl, .wordsAndSpans⟩
  | escaped value => exact ⟨_, rfl, .escaped⟩
  | line value => exact ⟨_, rfl, .line⟩

theorem map_string_inj {texts texts' : List Text} :
    texts.map Json.string = texts'.map Json.string ↔ texts = texts' :=
  List.map_inj_right fun _ _ => Json.string.inj

/-- What the object holds tells the response. -/
theorem HasMembers.unique {response response' : Response} {members members' : List (Text × Json)}
    (h : response.HasMembers members) (h' : response'.HasMembers members')
    (hm : members = members') : response = response' := by
  cases h <;> cases h' <;> simp_all [map_string_inj]

theorem isNumberFree_toJson (response : Response) :
    Json.IsNumberFree Json.depthLimit response.toJson := by
  obtain ⟨members, hjson, hmembers⟩ := response.exists_hasMembers
  rw [hjson, Json.depthLimit, Json.IsNumberFree]
  cases hmembers <;> simp [Json.IsNumberFree]

/-- The layout of a response that is written as JSON. -/
theorem exists_lays (response : Response) (pretty : Bool) :
    ∃ body, response.render .json pretty = body ++ ['\n'] ∧
      Json.Lays Json.depthLimit body response.toJson := by
  have h := response.isNumberFree_toJson
  cases pretty with
  | true => exact ⟨_, rfl, Json.lays_indented 0 h⟩
  | false => exact ⟨_, rfl, Json.lays_compact h⟩

/-- A response written as JSON is one object, in the text of which nothing but white space depends
on the layout, and a line end. The object is read with the members of the response, and of no other
one; in the compact layout it is printable, so that it takes one line. -/
theorem render_json (response : Response) :
    (∀ pretty, ∃ body members, response.render .json pretty = body ++ ['\n'] ∧
      Json.Written Json.depthLimit body (.object members) ∧
      Json.read (response.render .json pretty) = .ok (.object members) ∧
      response.HasMembers members ∧
      ∀ response' : Response, response'.HasMembers members → response' = response) ∧
    (∃ body, response.render .json false = body ++ ['\n'] ∧ ∀ c ∈ body, 0x20 ≤ c.toNat) ∧
    Json.squeeze false (response.render .json true) =
      Json.squeeze false (response.render .json false) := by
  obtain ⟨members, hjson, hmembers⟩ := response.exists_hasMembers
  have hnewline : Json.IsSpaces ['\n'] := by simp [Json.IsSpaces, Json.isSpace]
  refine ⟨fun pretty => ?_, ?_, ?_⟩
  · obtain ⟨body, hrender, hlays⟩ := response.exists_lays pretty
    have hwritten : Json.Written Json.depthLimit body (.object members) := hjson ▸ hlays.written
    refine ⟨body, members, hrender, hwritten, ?_, hmembers, fun _ h => h.unique hmembers rfl⟩
    rw [hrender]
    exact Json.read_eq_ok_iff.2 ⟨[], body, ['\n'], rfl, Json.isSpaces_nil, hwritten, hnewline⟩
  · exact ⟨response.toJson.compact, rfl, Json.isPrintable_compact response.isNumberFree_toJson⟩
  · obtain ⟨body, hrender, hlays⟩ := response.exists_lays true
    obtain ⟨body', hrender', hlays'⟩ := response.exists_lays false
    rw [hrender, hrender', hlays.squeezes, hlays'.squeezes]

end CommandWords.Response
