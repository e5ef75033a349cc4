import CommandWords.Proofs.Json.ValueTruncation
import CommandWords.Proofs.Request.Documents

/-!
# Requests that end too early

A request is an object or an array, so that its text is taken for a request only up to its closing
bracket: what is left of it without the bracket is empty or a faulty JSON text (`parse_truncated`).
The reader of requests reports a fault of the text as soon as it meets it, and a wrong name or field
before the text behind it has been read; in what is left of a request there is neither, wherever the
cut is: before or behind the name of the kind (`readTaggedMembers_of_isCut`), or in a field.
-/

namespace CommandWords.Request

open Json (Fault Numeral Written WrittenWith Listed MemberWritten IsSpaces StringWritten EndsNumber
  MemberCut readValue readScalar readColon readItems nextItem nextKey skipSpace depthLimit)

variable {p text tail spaces : Text} {first : Bool} {kind : Kind} {request : Request} {value : Json}
  {P : Numeral → Prop} {F : Fault → Prop}

/-! ## The name of the kind -/

theorem readKind_of_isCut {name : Text} (hs : IsSpaces spaces) (hw : StringWritten text name)
    (hp : IsCut p (spaces ++ text)) : readKind p = .error (.fault .truncated) := by
  rcases Json.prefix_or_of_isCut_append hp with hstart | ⟨c, cs, rfl, hcut⟩
  · rw [readKind, Json.skipSpace_of_isPrefix hs hstart]
  · obtain ⟨body, rfl, hbody⟩ := hw
    obtain ⟨rfl, hcut'⟩ := isCut_cons_cons_iff.1 hcut
    have hread : readScalar ('"' :: cs) = .error .truncated := by
      show (Json.readChars cs).map _ = _
      rw [Json.readChars_of_isCut hbody hcut']
      rfl
    rw [readKind, Json.skipSpace_append hs, Json.skipSpace_cons (by decide)]
    dsimp only
    rw [if_neg (by decide), if_neg (by decide), hread]

/-- The reader of the name of the kind at a cut through the name or behind it. -/
theorem readKind_of_isCut_append (hs : IsSpaces spaces) (hw : StringWritten text kind.name)
    (htail : EndsNumber tail) (hp : IsCut p (spaces ++ text ++ tail)) :
    readKind p = .error (.fault .truncated) ∨
      ∃ p', readKind p = .ok (kind, p') ∧ p'.length < p.length ∧ IsCut p' tail := by
  rcases isCut_append_iff.1 hp with hcut | ⟨p', rfl, hcut⟩
  · exact .inl (readKind_of_isCut hs hw hcut)
  · have hwritten : Written 0 text (.string kind.name) := by rwa [Written]
    have hends : EndsNumber p' := fun c hc => htail c (hcut.mem_head? hc)
    refine .inr ⟨p', (readKind_eq_ok_iff 0).2 ((Json.reads_readValue 0).complete hs hwritten hends),
      ?_, hcut⟩
    obtain ⟨c, cs, rfl, -⟩ := hwritten.exists_cons
    simp only [List.length_append, List.length_cons]
    omega

/-! ## The members of a tagged object -/

theorem readTaggedMembers_of_error {met : Option Kind} {e : Fault} (h : nextKey first p = .error e) :
    readTaggedMembers met first p = .error (.fault e) := by
  rw [readTaggedMembers, h]

/-- The reader of a tagged object at the name of the kind. -/
theorem readTaggedMembers_kindKey {rest : Text} (h : nextKey first p = .ok (.key kindKey rest)) :
    readTaggedMembers none first p =
      match liftFault (readColon rest) >>= readKind with
      | .error e => .error e
      | .ok (kind, rest) =>
        if rest.length < p.length then readTaggedMembers (some kind) false rest
        else .error (.fault .malformed) := by
  rw [readTaggedMembers, h]
  refine (if_pos rfl).trans ?_
  cases liftFault (readColon rest) >>= readKind <;> rfl

/-- The reader of a tagged object at another member. -/
theorem readTaggedMembers_field {met : Option Kind} {key rest : Text} (hkey : key ≠ kindKey)
    (h : nextKey first p = .ok (.key key rest)) :
    readTaggedMembers met first p =
      match readColon rest >>= readValue (depthLimit - 1) with
      | .error e => .error (.fault e)
      | .ok (value, rest) =>
        if rest.length < p.length then
          (readTaggedMembers met false rest).map fun (kind, members, behind) =>
            (kind, (key, value) :: members, behind)
        else .error (.fault .malformed) := by
  rw [readTaggedMembers, h]
  refine (if_neg hkey).trans ?_
  cases readColon rest >>= readValue (depthLimit - 1) <;> rfl

/-- The name of the kind is the first of the names, or has been met. -/
theorem names_cons_self_eq_singleton {met : Option Kind} {others : List (Text × Json)}
    (h : names met ((kindKey, value) :: others) = [.string kind.name]) :
    met = none ∧ value = .string kind.name ∧ names (some kind) others = [.string kind.name] := by
  rw [names, valuesAt_cons_self] at h
  cases met with
  | some met => simp at h
  | none =>
    obtain ⟨hvalue, hothers⟩ := List.cons.inj h
    exact ⟨rfl, hvalue, by simp [names, hothers]⟩

/-- A tagged object of which at least the closing brace is missing is not read. -/
theorem readTaggedMembers_of_isCut (hF : F .truncated)
    (hP : ∀ n, P n → 300 < n.whole.length → F .malformed) {met : Option Kind}
    {members : List (Text × Json)}
    (h : Listed (MemberWritten (WrittenWith P (depthLimit - 1))) first text members)
    (hnames : names met members = [.string kind.name]) (hp : IsCut p (text ++ ['\x7d'])) :
    ∃ e, readTaggedMembers met first p = .error (.fault e) ∧ F e := by
  have hr := Json.readsCut_readValue hF hP (depthLimit - 1)
  -- By induction on the members before the cut. All names together are one, so that the name of the
  -- kind is either met or still to come, and never met twice.
  induction h generalizing p met with
  | nil hs =>
    have hnil := Json.skipSpace_of_isCut_close hs hp
    exact ⟨_, readTaggedMembers_of_error (by rw [nextKey, hnil]), hF⟩
  | @cons first lead text rest member members hl hw hlisted ih =>
    obtain ⟨key, value⟩ := member
    have hends := hlisted.endsNumber (Json.endsNumber_close (.inr rfl) [])
    rw [List.append_assoc, List.append_assoc] at hp
    by_cases hkey : key = kindKey
    · subst hkey
      obtain ⟨rfl, rfl, hnames'⟩ := names_cons_self_eq_singleton hnames
      cases Json.memberCut_of_isCut hl hw hp with
      | key h => exact ⟨_, readTaggedMembers_of_error h, hF⟩
      | colon h hc =>
        refine ⟨_, ?_, hF⟩
        rw [readTaggedMembers_kindKey h, hc]
        rfl
      | @value rest rest' spaces vtext h hc hlt hs hw hp =>
        have hbind : liftFault (readColon rest) >>= readKind = readKind rest' := by
          rw [hc]
          rfl
        rw [WrittenWith, Written] at hw
        rw [readTaggedMembers_kindKey h, hbind]
        rcases readKind_of_isCut_append hs hw hends hp with hread | ⟨p', hread, hlt', hcut⟩
        · rw [hread]
          exact ⟨_, rfl, hF⟩
        · rw [hread]
          dsimp only
          rw [if_pos (hlt'.trans hlt)]
          exact ih hnames' hcut
    · rw [names_cons_of_ne hkey] at hnames
      cases Json.memberCut_of_isCut hl hw hp with
      | key h => exact ⟨_, readTaggedMembers_of_error h, hF⟩
      | colon h hc =>
        refine ⟨_, ?_, hF⟩
        rw [readTaggedMembers_field hkey h, hc]
        rfl
      | @value rest rest' spaces vtext h hc hlt hs hw hp =>
        have hbind : readColon rest >>= readValue (depthLimit - 1) =
            readValue (depthLimit - 1) rest' := by
          rw [hc]
          rfl
        rw [readTaggedMembers_field hkey h, hbind]
        rcases hr.read_of_isCut hs hw hends hp with
          (⟨e, hread, he⟩ | ⟨found, hread⟩) | ⟨p', hread, hlt', hcut⟩
        · rw [hread]
          exact ⟨e, rfl, he⟩
        · rw [hread]
          dsimp only [List.length_nil]
          rw [if_pos (Nat.zero_lt_of_lt hlt), readTaggedMembers_of_error rfl]
          exact ⟨_, rfl, hF⟩
        · obtain ⟨e, hmembers, he⟩ := ih hnames hcut
          rw [hread]
          dsimp only
          rw [if_pos (hlt'.trans hlt), hmembers]
          exact ⟨e, rfl, he⟩

/-! ## Requests -/

/-- A request of which at least the closing bracket is missing is faulty. -/
theorem readTagged_of_isCut (hF : F .truncated)
    (hP : ∀ n, P n → 300 < n.whole.length → F .malformed) (hs : IsSpaces spaces)
    (hw : WrittenWith P depthLimit text value) (hrep : Represents value request)
    (hp : IsCut p (spaces ++ text)) : ∃ e, readTagged p = .error (.fault e) ∧ F e := by
  rcases Json.prefix_or_of_isCut_append hp with hstart | ⟨c, cs, rfl, hcut⟩
  · refine ⟨_, ?_, hF⟩
    rw [readTagged, Json.skipSpace_of_isPrefix hs hstart]
  cases hrep with
  | object hnames =>
    rw [depthLimit, WrittenWith] at hw
    obtain ⟨body, rfl, hbody⟩ := hw
    obtain ⟨rfl, hcut'⟩ := isCut_cons_cons_iff.1 hcut
    have hskip : skipSpace (spaces ++ '\x7b' :: cs) = '\x7b' :: cs := by
      rw [Json.skipSpace_append hs, Json.skipSpace_cons (by decide)]
    have hmet : names none _ = [.string request.kind.name] := hnames
    obtain ⟨e, hmembers, he⟩ := readTaggedMembers_of_isCut hF hP hbody hmet hcut'
    refine ⟨e, ?_, he⟩
    rw [readTagged_object hskip, hmembers]
    rfl
  | array =>
    rw [depthLimit, WrittenWith] at hw
    obtain ⟨body, rfl, hbody⟩ := hw
    obtain ⟨rfl, hcut'⟩ := isCut_cons_cons_iff.1 hcut
    have hskip : skipSpace (spaces ++ '[' :: cs) = '[' :: cs := by
      rw [Json.skipSpace_append hs, Json.skipSpace_cons (by decide)]
    rw [readTagged_array hskip]
    cases hbody with
    | @cons _ lead text rest _ items hl hname hlisted =>
    rw [List.append_assoc, List.append_assoc] at hcut'
    have hr := Json.readsCut_readValue hF hP (depthLimit - 1)
    have hends := hlisted.endsNumber (Json.endsNumber_close (.inl rfl) [])
    rcases Json.nextItem_of_isCut hl (hr.head hname) hcut' with hnext | ⟨s, hnext, -, -, hcut''⟩
    · rw [hnext]
      exact ⟨_, rfl, hF⟩
    rw [hnext]
    dsimp only
    rw [WrittenWith, Written] at hname
    rcases readKind_of_isCut_append Json.isSpaces_nil hname hends hcut'' with
      hread | ⟨p', hread, -, htail⟩
    · rw [hread]
      exact ⟨_, rfl, hF⟩
    · obtain ⟨e, hitems, he⟩ := Json.readItems_of_isCut hF hr hlisted htail
      refine ⟨e, ?_, he⟩
      rw [hread]
      show (liftFault (readItems (readValue (depthLimit - 1)) false p') >>= _) = _
      rw [hitems]
      rfl

/-- A value that represents a request ends with a bracket. -/
theorem exists_close (hw : Written depthLimit text value) (hrep : Represents value request) :
    ∃ inside close, text = inside ++ [close] ∧ (close = ']' ∨ close = '\x7d') := by
  cases hrep with
  | object =>
    rw [depthLimit, Written] at hw
    obtain ⟨body, rfl, -⟩ := hw
    exact ⟨'\x7b' :: body, '\x7d', rfl, .inr rfl⟩
  | array =>
    rw [depthLimit, Written] at hw
    obtain ⟨body, rfl, -⟩ := hw
    exact ⟨'[' :: body, ']', rfl, .inl rfl⟩

theorem parse_of_all_isBlank (h : p.all isBlank = true) : parse p = .error .empty := by
  rw [parse, if_pos h]
  rfl

theorem parse_of_readTagged_error {e : Error} (h : p.all isBlank = false)
    (hread : readTagged p = .error e) : parse p = .error e := by
  rw [parse, if_neg (by simp [h]), hread]
  rfl

/-- What is left of a request without its closing bracket is never taken for a request: it is empty,
or a faulty JSON text, which ends too early unless the request has a number with more than 300 digits
before its point. -/
theorem parse_truncated (h : parse text = .ok request) :
    ∃ before inside close behind value, text = before ++ (inside ++ [close]) ++ behind ∧
      IsSpaces before ∧ Written depthLimit (inside ++ [close]) value ∧ IsSpaces behind ∧
      (close = ']' ∨ close = '\x7d') ∧
      ∀ p, p <+: before ++ inside →
        (p.all isBlank = true → parse p = .error .empty) ∧
        (p.all isBlank = false → ∃ fault, parse p = .error (.fault fault) ∧
          (WrittenWith (fun n => n.whole.length ≤ 300) depthLimit (inside ++ [close]) value →
            fault = .truncated)) := by
  obtain ⟨value, hread, hrep⟩ := parse_eq_ok_iff_read.1 h
  obtain ⟨before, body, behind, rfl, hbefore, hbody, hbehind⟩ := Json.read_eq_ok_iff.1 hread
  obtain ⟨inside, close, rfl, hclose⟩ := exists_close hbody hrep
  refine ⟨before, inside, close, behind, value, rfl, hbefore, hbody, hbehind, hclose,
    fun p hp => ⟨parse_of_all_isBlank, fun hblank => ?_⟩⟩
  have hcut : IsCut p (before ++ (inside ++ [close])) := by
    obtain ⟨missing, hmissing⟩ := hp
    rw [← List.append_assoc, ← hmissing, List.append_assoc]
    cases missing with
    | nil => exact ⟨close, [], rfl⟩
    | cons c missing => exact ⟨c, missing ++ [close], rfl⟩
  by_cases hshort : WrittenWith (fun n => n.whole.length ≤ 300) depthLimit (inside ++ [close]) value
  · obtain ⟨e, htagged, he⟩ := readTagged_of_isCut (F := (· = Fault.truncated)) rfl
      (fun _ hn hlong => absurd hn (not_le.2 hlong)) hbefore hshort hrep hcut
    exact ⟨e, parse_of_readTagged_error hblank htagged, fun _ => he⟩
  · have hany : WrittenWith (fun _ => True) depthLimit (inside ++ [close]) value := by
      rwa [Json.writtenWith_true]
    obtain ⟨e, htagged, -⟩ := readTagged_of_isCut (F := fun _ => True) trivial
      (fun _ _ _ => trivial) hbefore hany hrep hcut
    exact ⟨e, parse_of_readTagged_error hblank htagged, fun h => absurd h hshort⟩

/-- An array without its closing bracket ends too early, wherever it is cut: in the name of the
kind, behind the comma, behind the backslash. -/
theorem parse_truncated_array :
    parse "[\"escape\",\"\\n\"]".toList = .ok (.escape ['\n']) ∧
    ∀ p, p <+: "[\"escape\",\"\\n\"".toList → p ≠ [] →
      parse p = .error (.fault .truncated) := by
  have hread : Json.read "[\"escape\",\"\\n\"]".toList =
      .ok (.array [.string "escape".toList, .string ['\n']]) := by cbv
  have hparse : parse "[\"escape\",\"\\n\"]".toList = .ok (.escape ['\n']) :=
    parse_eq_ok_iff_read.2 ⟨_, hread, .array .escape⟩
  obtain ⟨before, inside, close, behind, value, htext, hbefore, hbody, hbehind, -, hcut⟩ :=
    parse_truncated hparse
  obtain rfl : value = .array [.string "escape".toList, .string ['\n']] :=
    Json.IsDocument.unique ⟨before, _, behind, htext, hbefore, hbody, hbehind⟩
      (Json.read_eq_ok_iff.1 hread)
  have hbefore' : before = [] := by
    cases before with
    | nil => rfl
    | cons c cs =>
      obtain rfl : '[' = c := (List.cons.inj htext).1
      exact absurd (hbefore '[' List.mem_cons_self) (by decide)
  have hbehind' : behind = [] := by
    rcases List.eq_nil_or_concat behind with hnil | ⟨cs, c, rfl⟩
    · exact hnil
    · rw [List.concat_eq_append, ← List.append_assoc] at htext
      have hlast := congrArg List.getLast? htext
      rw [List.getLast?_concat] at hlast
      obtain rfl : ']' = c := Option.some.inj hlast
      exact absurd (hbehind ']' (by simp)) (by decide)
  obtain rfl : inside = "[\"escape\",\"\\n\"".toList := by
    rw [hbefore', hbehind', List.nil_append, List.append_nil] at htext
    have hdrop := congrArg List.dropLast htext
    rw [List.dropLast_concat] at hdrop
    exact hdrop.symm
  have hshort : WrittenWith (fun n => n.whole.length ≤ 300) depthLimit
      ("[\"escape\",\"\\n\"".toList ++ [close])
      (.array [.string "escape".toList, .string ['\n']]) := by
    rw [depthLimit, Written] at hbody
    obtain ⟨body, htext', hbody⟩ := hbody
    rw [depthLimit, WrittenWith]
    refine ⟨body, htext', ?_⟩
    cases hbody with
    | cons hl hname hrest =>
    cases hrest with
    | cons hl' hvalue hnil =>
    cases hnil with
    | nil hs => exact .cons hl (by rwa [WrittenWith]) (.cons hl' (by rwa [WrittenWith]) (.nil hs))
  refine ⟨hparse, fun p hp hne => ?_⟩
  have hblank : p.all isBlank = false := by
    cases p with
    | nil => exact absurd rfl hne
    | cons c cs =>
      obtain ⟨missing, hmissing⟩ := hp
      obtain rfl : c = '[' := (List.cons.inj hmissing).1
      rfl
  obtain ⟨fault, hfault, htruncated⟩ := (hcut p (by rwa [hbefore'])).2 hblank
  rw [hfault, htruncated hshort]

end CommandWords.Request
