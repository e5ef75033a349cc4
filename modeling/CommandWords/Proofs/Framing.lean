import CommandWords.Proofs.Json.Strings
import CommandWords.Proofs.Line.Content
import CommandWords.Request.Execution

/-!
# Cutting the plain formats at their terminators

In the plain formats an item can be told from the next one only if it does not hold the character
that ends it. A response holds no character that is not in its request, but for those that spell
values (`mem_spelling_or_texts_of_execute`), and no terminator is one of these. So if the request
holds no terminator, cutting what is written behind each terminator gives the words of the line,
empty ones included, or else the one value of the response (`Response.HasItems`, `splitOn_render`).
-/

namespace CommandWords

variable {c terminator : Char} {text : Text}

/-- The characters that the spelling of values has beside those of the values. -/
def spellingCharacters : Text := [' ', '\\', Quote.single.char]

theorem mem_escapeChar {d : Char} (h : c ∈ escapeChar d) : c ∈ spellingCharacters ∨ c = d := by
  unfold escapeChar at h
  split_ifs at h with hnewline hsafe
  · simp only [List.mem_cons, List.not_mem_nil, or_false] at h
    rcases h with rfl | rfl | rfl
    · exact .inl (by decide)
    · exact .inr hnewline.symm
    · exact .inl (by decide)
  · exact .inr (List.mem_singleton.1 h)
  · simp only [List.mem_cons, List.not_mem_nil, or_false] at h
    rcases h with rfl | rfl
    · exact .inl (by decide)
    · exact .inr rfl

theorem mem_escape (h : c ∈ escape text) : c ∈ spellingCharacters ∨ c ∈ text := by
  unfold escape at h
  split_ifs at h with hnil
  · obtain rfl : c = Quote.single.char := by simpa [Quote.char] using h
    exact .inl (by decide)
  · obtain ⟨d, hd, hc⟩ := List.mem_flatMap.1 h
    rcases mem_escapeChar hc with hc | rfl
    · exact .inl hc
    · exact .inr hd

theorem mem_join {values : List Text} (h : c ∈ join values) :
    c ∈ spellingCharacters ∨ ∃ value ∈ values, c ∈ value := by
  induction values with
  | nil => cases h
  | cons value values ih =>
    cases values with
    | nil => exact (mem_escape (by simpa [join] using h)).imp_right fun hc => ⟨value, by simp, hc⟩
    | cons next values =>
      have hjoin : join (value :: next :: values) = escape value ++ [' '] ++ join (next :: values) :=
        List.intercalate_cons_cons
      rw [hjoin, List.mem_append, List.mem_append] at h
      rcases h with (h | h) | h
      · exact (mem_escape h).imp_right fun hc => ⟨value, by simp, hc⟩
      · obtain rfl := List.mem_singleton.1 h
        exact .inl (by decide)
      · exact (ih h).imp_right fun ⟨other, hother, hc⟩ => ⟨other, List.mem_cons_of_mem _ hother, hc⟩

namespace Request

/-- The texts that a request holds. -/
def texts : Request → List Text
  | .split line _ => [line]
  | .escape value => [value]
  | .join values => values

variable {request : Request} {response : Response}

/-- A response holds no character that neither its request nor the spelling of values has. -/
theorem mem_spelling_or_texts_of_execute (h : request.execute.result = .ok response) :
    ∀ item ∈ response.items, ∀ c ∈ item,
      c ∈ spellingCharacters ∨ ∃ text ∈ request.texts, c ∈ text := by
  intro item hitem c hc
  cases request with
  | split line raw =>
    obtain ⟨words, hsplit, rfl⟩ := map_eq_ok_iff.1 h
    have hwords : c ∈ words.flatten := List.mem_flatten_of_mem hitem hc
    exact .inr ⟨line, by simp [texts], (keeps_of_split hsplit).sublist.subset hwords⟩
  | escape value =>
    obtain rfl := Except.ok.inj h
    obtain rfl : item = CommandWords.escape value := by simpa [Response.items] using hitem
    exact (mem_escape hc).imp_right fun hc => ⟨value, by simp [texts], hc⟩
  | join values =>
    obtain rfl := Except.ok.inj h
    obtain rfl : item = CommandWords.join values := by simpa [Response.items] using hitem
    exact mem_join hc

theorem not_mem_items_of_execute (h : request.execute.result = .ok response)
    (hs : terminator ∉ spellingCharacters) (ht : ∀ text ∈ request.texts, terminator ∉ text) :
    ∀ item ∈ response.items, terminator ∉ item := by
  intro item hitem hc
  rcases mem_spelling_or_texts_of_execute h item hitem terminator hc with hc | ⟨text, htext, hc⟩
  · exact hs hc
  · exact ht text htext hc

end Request

/-- Items that do not hold the character that ends them are told apart by it, and behind the last one
nothing is left. -/
theorem splitOn_flatMap_terminated {items : List Text} (h : ∀ item ∈ items, terminator ∉ item) :
    (items.flatMap (· ++ [terminator])).splitOn terminator = items ++ [[]] := by
  induction items with
  | nil => exact List.splitOn_nil terminator
  | cons item items ih =>
    rw [List.forall_mem_cons] at h
    rw [List.flatMap_cons, List.append_assoc, List.singleton_append,
      List.splitOn_append_cons_self_of_not_mem h.1, ih h.2, List.cons_append]

/-- What a response has to tell: all words of a line, or the one value. The text behind the words is
not told. -/
inductive Response.HasItems : Response → List Text → Prop
  | words (tokens : List Text) (spans : Option (List Text)) : HasItems (.words tokens spans) tokens
  | escaped (value : Text) : HasItems (.escaped value) [value]
  | line (value : Text) : HasItems (.line value) [value]

theorem Response.hasItems_items (response : Response) : response.HasItems response.items := by
  cases response with
  | words tokens spans => exact .words tokens spans
  | escaped value => exact .escaped value
  | line value => exact .line value

/-- A request without null characters is answered in the `nul` format by a text that, cut behind each
null character, gives the items of the response in order and nothing more; without newlines the same
holds of the `lines` format. -/
theorem splitOn_render {request : Request} {response : Response}
    (h : request.execute.result = .ok response) (pretty : Bool) :
    ∃ items, response.HasItems items ∧
      ((∀ text ∈ request.texts, '\x00' ∉ text) →
        (response.render .nul pretty).splitOn '\x00' = items ++ [[]]) ∧
      ((∀ text ∈ request.texts, '\n' ∉ text) →
        (response.render .lines pretty).splitOn '\n' = items ++ [[]]) := by
  refine ⟨response.items, response.hasItems_items, ?_, ?_⟩
  · intro ht
    exact splitOn_flatMap_terminated (Request.not_mem_items_of_execute h (by decide) ht)
  · intro ht
    exact splitOn_flatMap_terminated (Request.not_mem_items_of_execute h (by decide) ht)

/-- A line with two empty words and one with white space in it, a value to escape, and values to join,
of which one is empty. -/
theorem splitOn_render_eachKind :
    ((Request.split "'' a\\ b\"\"''".toList false).execute.result =
        .ok (.words [[], "a b".toList, []] none) ∧
      '\x00' ∉ "'' a\\ b\"\"''".toList ∧ '\n' ∉ "'' a\\ b\"\"''".toList ∧
      (Response.render (.words [[], "a b".toList, []] none) .nul true).splitOn '\x00' =
        [[], "a b".toList, [], []] ∧
      (Response.render (.words [[], "a b".toList, []] none) .lines true).splitOn '\n' =
        [[], "a b".toList, [], []]) ∧
    ((Request.escape "a\nb".toList).execute.result = .ok (.escaped "a'\n'b".toList) ∧
      '\x00' ∉ "a\nb".toList ∧
      (Response.render (.escaped "a'\n'b".toList) .nul false).splitOn '\x00' =
        ["a'\n'b".toList, []]) ∧
    ((Request.join ["a b".toList, []]).execute.result = .ok (.line "a\\ b ''".toList) ∧
      (∀ text ∈ ["a b".toList, []], '\n' ∉ text) ∧
      (Response.render (.line "a\\ b ''".toList) .lines false).splitOn '\n' =
        ["a\\ b ''".toList, []]) := by
  refine ⟨?_, ?_, ?_⟩
  · have hsplit : split "'' a\\ b\"\"''".toList = .ok [[], "a b".toList, []] := by
      rw [← Automaton.result_run_start]
      rfl
    have h : (Request.split "'' a\\ b\"\"''".toList false).execute.result =
        .ok (.words [[], "a b".toList, []] none) := by
      show (split _).map (Response.words · none) = _
      rw [hsplit]
      rfl
    have hnul : '\x00' ∉ "'' a\\ b\"\"''".toList := by decide
    have hline : '\n' ∉ "'' a\\ b\"\"''".toList := by decide
    obtain ⟨items, ⟨⟩, hcutNul, hcutLines⟩ := splitOn_render h true
    exact ⟨h, hnul, hline, hcutNul (by simpa only [Request.texts, List.forall_mem_singleton]),
      hcutLines (by simpa only [Request.texts, List.forall_mem_singleton])⟩
  · have h : (Request.escape "a\nb".toList).execute.result = .ok (.escaped "a'\n'b".toList) := rfl
    have hnul : '\x00' ∉ "a\nb".toList := by decide
    obtain ⟨items, ⟨⟩, hcut, -⟩ := splitOn_render h false
    exact ⟨h, hnul, hcut (by simpa only [Request.texts, List.forall_mem_singleton])⟩
  · have h : (Request.join ["a b".toList, []]).execute.result = .ok (.line "a\\ b ''".toList) := rfl
    have hline : ∀ text ∈ ["a b".toList, []], '\n' ∉ text := by decide
    obtain ⟨items, ⟨⟩, -, hcut⟩ := splitOn_render h false
    exact ⟨h, hline, hcut hline⟩

end CommandWords
