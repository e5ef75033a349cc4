import CommandWords.Proofs.Json.Lists
import CommandWords.Proofs.Json.Truncation

/-!
# Arrays and objects that end too early

A cut through an array or an object goes through what stands before an element, through the element
or through what follows it: `nextItem_of_isCut` for an item, `nextKey_of_isCut` and
`readColon_of_isCut` for the parts of a member. What the reader of values says of a value that is cut
is a parameter (`ReadsCut`); if it takes what is left of the value for a value, nothing stands behind,
and then the closing bracket is missed. So the readers of items and members always fail
(`readItems_of_isCut`, `readMembers_of_isCut`).
-/

namespace CommandWords.Json

variable {p s text tail lead spaces : Text} {first : Bool} {F : Fault → Prop}

/-- A reader that fails with one of the faults `F`, or takes all there is. -/
def Stops {α : Type} (F : Fault → Prop) (found : Except Fault (α × Text)) : Prop :=
  (∃ e, found = .error e ∧ F e) ∨ ∃ x, found = .ok (x, [])

theorem Stops.map {α β : Type} {found : Except Fault (α × Text)} (h : Stops F found) (f : α → β) :
    Stops F (found.map fun (x, behind) => (f x, behind)) := by
  rcases h with ⟨e, rfl, he⟩ | ⟨x, rfl⟩
  · exact .inl ⟨e, rfl, he⟩
  · exact .inr ⟨f x, rfl⟩

/-- A reader of values that takes the texts that `W` describes, and stops at the end of one that is
cut. -/
structure ReadsCut (F : Fault → Prop) (read : Text → Except Fault (Json × Text))
    (W : Text → Json → Prop) : Prop where
  complete : ∀ {spaces text value rest}, IsSpaces spaces → W text value → EndsNumber rest →
    read (spaces ++ text ++ rest) = .ok (value, rest)
  head : ∀ {text value}, W text value → ∃ c cs, text = c :: cs ∧ isSpace c = false ∧ c ≠ ']'
  stops : ∀ {spaces text value p}, IsSpaces spaces → W text value → IsCut p (spaces ++ text) →
    Stops F (read p)

/-- A cut goes through the first part, or right behind it, or leaves something of the second. -/
theorem prefix_or_of_isCut_append (h : IsCut p (s ++ text)) :
    p <+: s ∨ ∃ c cs, p = s ++ c :: cs ∧ IsCut (c :: cs) text := by
  rcases isCut_append_iff.1 h with ⟨c, missing, rfl⟩ | ⟨p', rfl, hp'⟩
  · exact .inl (List.prefix_append p _)
  · cases p' with
    | nil => exact .inl (by simp)
    | cons c cs => exact .inr ⟨c, cs, rfl, hp'⟩

theorem skipSpace_of_isPrefix (hs : IsSpaces spaces) (hp : p <+: spaces) : skipSpace p = [] :=
  skipSpace_eq_nil_iff.2 fun c hc => hs c (hp.subset hc)

/-- Behind the last element, nothing but white space is left without the closing bracket. -/
theorem skipSpace_of_isCut_close {close : Char} (hs : IsSpaces spaces)
    (hp : IsCut p (spaces ++ [close])) : skipSpace p = [] := by
  rcases prefix_or_of_isCut_append hp with hstart | ⟨c, cs, -, hcut⟩
  · exact skipSpace_of_isPrefix hs hstart
  · cases isCut_singleton_iff.1 hcut

/-- Before an element, a list ends too early. -/
theorem next_of_prefix_lead (hl : Lead first lead) (hp : p <+: lead) :
    nextItem first p = .error .truncated ∧ nextKey first p = .error .truncated := by
  have hspaces : skipSpace p = [] →
      nextItem first p = .error .truncated ∧ nextKey first p = .error .truncated := fun hnil => by
    rw [nextItem, nextKey, hnil]
    exact ⟨rfl, rfl⟩
  cases hl with
  | first hs => exact hspaces (skipSpace_of_isPrefix hs hp)
  | @comma before behind hb ha =>
    obtain ⟨missing, hp⟩ := hp
    rcases List.append_eq_append_iff.1 hp with ⟨p', rfl, -⟩ | ⟨p', rfl, hp'⟩
    · exact hspaces (skipSpace_of_isPrefix hb (List.prefix_append p p'))
    · cases p' with
      | nil => exact hspaces (skipSpace_of_isPrefix hb (by simp))
      | cons c p' =>
        obtain ⟨rfl, rfl⟩ := List.cons.inj hp'
        have hnil := skipSpace_of_isPrefix ha (List.prefix_append p' missing)
        rw [nextItem, nextKey, skipSpace_append hb, skipSpace_cons (by decide)]
        dsimp only
        rw [hnil]
        exact ⟨rfl, rfl⟩

variable {read : Text → Except Fault (Json × Text)} {W : Text → Json → Prop}

/-- A reader of values at a cut through a value or behind it. -/
theorem ReadsCut.read_of_isCut (hr : ReadsCut F read W) {value : Json} (hs : IsSpaces spaces)
    (hw : W text value) (htail : EndsNumber tail) (hp : IsCut p (spaces ++ text ++ tail)) :
    Stops F (read p) ∨
      ∃ p', read p = .ok (value, p') ∧ p'.length < p.length ∧ IsCut p' tail := by
  rcases isCut_append_iff.1 hp with hcut | ⟨p', rfl, hcut⟩
  · exact .inl (hr.stops hs hw hcut)
  · have hends : EndsNumber p' := fun c hc => htail c (hcut.mem_head? hc)
    refine .inr ⟨p', hr.complete hs hw hends, ?_, hcut⟩
    obtain ⟨c, cs, rfl, -⟩ := hr.head hw
    simp only [List.length_append, List.length_cons]
    omega

/-! ## Arrays -/

/-- A cut behind the start of a list is a cut before an item or behind its start. -/
theorem nextItem_of_isCut (hl : Lead first lead)
    (hhead : ∃ c cs, text = c :: cs ∧ isSpace c = false ∧ c ≠ ']')
    (hp : IsCut p (lead ++ (text ++ tail))) :
    nextItem first p = .error .truncated ∨
      ∃ rest, nextItem first p = .ok (.item rest) ∧ rest ≠ [] ∧ rest.length ≤ p.length ∧
        IsCut rest (text ++ tail) := by
  rcases prefix_or_of_isCut_append hp with hstart | ⟨c, cs, rfl, hcut⟩
  · exact .inl (next_of_prefix_lead hl hstart).1
  · obtain ⟨d, ds, rfl, hspace, hclose⟩ := hhead
    have hcd : d = c := by simpa using hcut.mem_head? rfl
    subst hcd
    exact .inr ⟨d :: cs, nextItem_append hl hspace hclose cs, by simp, by simp, hcut⟩

theorem readItems_of_nextItem {item : Json} {rest rest' : Text}
    (hnext : nextItem first p = .ok (.item rest)) (hread : read rest = .ok (item, rest'))
    (hlt : rest'.length < p.length) :
    readItems read first p =
      (readItems read false rest').map fun (items, behind) => (item :: items, behind) := by
  rw [readItems, hnext]
  dsimp only
  rw [hread]
  exact if_pos hlt

theorem readItems_of_nextItem_error {rest : Text} {e : Fault}
    (hnext : nextItem first p = .ok (.item rest)) (hread : read rest = .error e) :
    readItems read first p = .error e := by
  rw [readItems, hnext]
  dsimp only
  rw [hread]

theorem readItems_of_error {e : Fault} (h : nextItem first p = .error e) :
    readItems read first p = .error e := by
  rw [readItems, h]

/-- An array of which at least the closing bracket is missing is not read. -/
theorem readItems_of_isCut (hF : F .truncated) (hr : ReadsCut F read W) {items : List Json}
    (h : Listed W first text items) (hp : IsCut p (text ++ [']'])) :
    ∃ e, readItems read first p = .error e ∧ F e := by
  induction h generalizing p with
  | nil hs =>
    have hnil := skipSpace_of_isCut_close hs hp
    exact ⟨_, readItems_of_error (by rw [nextItem, hnil]), hF⟩
  | @cons first lead text rest item items hl hw hlisted ih =>
    rw [List.append_assoc, List.append_assoc] at hp
    rcases nextItem_of_isCut hl (hr.head hw) hp with hnext | ⟨s, hnext, hne, hle, hcut⟩
    · exact ⟨_, readItems_of_error hnext, hF⟩
    have hends := hlisted.endsNumber (endsNumber_close (.inl rfl) [])
    rcases hr.read_of_isCut isSpaces_nil hw hends hcut with
      (⟨e, hread, he⟩ | ⟨value, hread⟩) | ⟨p', hread, hlt, hcut'⟩
    · exact ⟨e, readItems_of_nextItem_error hnext hread, he⟩
    · -- What is left of the item is an item, but nothing stands behind it.
      have hpos := List.length_pos_iff.2 hne
      refine ⟨_, ?_, hF⟩
      rw [readItems_of_nextItem hnext hread (hpos.trans_le hle), readItems_of_error rfl]
      rfl
    · obtain ⟨e, hitems, he⟩ := ih hcut'
      refine ⟨e, ?_, he⟩
      rw [readItems_of_nextItem hnext hread (hlt.trans_le hle), hitems]
      rfl

/-! ## Objects -/

theorem readKey_of_isCut {key : Text} (hk : StringWritten text key) (hp : IsCut p text) :
    readKey p = .error .truncated := by
  obtain ⟨body, rfl, hbody⟩ := hk
  rcases isCut_cons_iff.1 hp with rfl | ⟨p', rfl, hp'⟩
  · rfl
  · rw [readKey, if_pos rfl, readChars_of_isCut hbody hp']
    rfl

/-- A cut through the key of a member or behind it. -/
theorem nextKey_of_isCut {key : Text} (hl : Lead first lead) (hk : StringWritten text key)
    (hp : IsCut p (lead ++ (text ++ tail))) :
    nextKey first p = .error .truncated ∨
      ∃ rest, nextKey first p = .ok (.key key rest) ∧ rest.length < p.length ∧ IsCut rest tail := by
  rcases prefix_or_of_isCut_append hp with hstart | ⟨c, cs, rfl, hcut⟩
  · exact .inl (next_of_prefix_lead hl hstart).2
  rcases isCut_append_iff.1 hcut with hcut' | ⟨rest, hrest, hcut'⟩
  · left
    rw [nextKey_of_lead hl, readKey_of_isCut hk hcut']
    obtain ⟨body, rfl, -⟩ := hk
    simpa [eq_comm] using hcut'.mem_head? rfl
  · refine .inr ⟨rest, ?_, ?_, hcut'⟩
    · exact nextKey_eq_key_iff.2 ⟨lead, text, by rw [hrest, List.append_assoc], hl, hk⟩
    · obtain ⟨body, rfl, -⟩ := hk
      have hlength := congrArg List.length hrest
      simp only [List.length_append, List.length_cons] at hlength ⊢
      omega

/-- A cut before the colon of a member or behind it. -/
theorem readColon_of_isCut (hs : IsSpaces spaces) (hp : IsCut p (spaces ++ ':' :: tail)) :
    readColon p = .error .truncated ∨
      ∃ rest, readColon p = .ok rest ∧ rest.length < p.length ∧ IsCut rest tail := by
  rcases prefix_or_of_isCut_append hp with hstart | ⟨c, rest, rfl, hcut⟩
  · left
    rw [readColon, skipSpace_of_isPrefix hs hstart]
  · obtain ⟨rfl, hcut'⟩ := isCut_cons_cons_iff.1 hcut
    refine .inr ⟨rest, readColon_eq_ok_iff.2 ⟨spaces, rfl, hs⟩, ?_, hcut'⟩
    simp only [List.length_append, List.length_cons]
    omega

/-- A cut through a member or behind it: before the end of its key, before its colon, or in what
stands behind the colon. -/
inductive MemberCut (W : Text → Json → Prop) (first : Bool) (p : Text) (member : Text × Json)
    (tail : Text) : Prop
  | key (h : nextKey first p = .error .truncated)
  | colon {rest : Text} (h : nextKey first p = .ok (.key member.1 rest))
    (hc : readColon rest = .error .truncated)
  | value {rest rest' spaces text : Text} (h : nextKey first p = .ok (.key member.1 rest))
    (hc : readColon rest = .ok rest') (hlt : rest'.length < p.length) (hs : IsSpaces spaces)
    (hw : W text member.2) (hp : IsCut rest' (spaces ++ text ++ tail))

theorem memberCut_of_isCut {member : Text × Json} (hl : Lead first lead)
    (hm : MemberWritten W text member) (hp : IsCut p (lead ++ (text ++ tail))) :
    MemberCut W first p member tail := by
  obtain ⟨ktext, behind, before, vtext, rfl, hk, hbehind, hbefore, hw⟩ := hm
  have htext : ktext ++ behind ++ ':' :: (before ++ vtext) ++ tail =
      ktext ++ (behind ++ ':' :: (before ++ vtext ++ tail)) := by simp
  rw [htext] at hp
  rcases nextKey_of_isCut hl hk hp with hkey | ⟨rest, hkey, hlt, hcut⟩
  · exact .key hkey
  · rcases readColon_of_isCut hbehind hcut with hcolon | ⟨rest', hcolon, hlt', hcut'⟩
    · exact .colon hkey hcolon
    · exact .value hkey hcolon (hlt'.trans hlt) hbefore hw hcut'

theorem readMembers_of_nextKey {key rest rest' : Text} {value : Json}
    (hnext : nextKey first p = .ok (.key key rest))
    (hread : readColon rest >>= read = .ok (value, rest')) (hlt : rest'.length < p.length) :
    readMembers read first p =
      (readMembers read false rest').map fun (members, behind) => ((key, value) :: members, behind) := by
  rw [readMembers, hnext]
  dsimp only
  rw [hread]
  exact if_pos hlt

theorem readMembers_of_nextKey_error {key rest : Text} {e : Fault}
    (hnext : nextKey first p = .ok (.key key rest)) (hread : readColon rest >>= read = .error e) :
    readMembers read first p = .error e := by
  rw [readMembers, hnext]
  dsimp only
  rw [hread]

theorem readMembers_of_error {e : Fault} (h : nextKey first p = .error e) :
    readMembers read first p = .error e := by
  rw [readMembers, h]

/-- An object of which at least the closing brace is missing is not read. -/
theorem readMembers_of_isCut (hF : F .truncated) (hr : ReadsCut F read W)
    {members : List (Text × Json)} (h : Listed (MemberWritten W) first text members)
    (hp : IsCut p (text ++ ['\x7d'])) : ∃ e, readMembers read first p = .error e ∧ F e := by
  induction h generalizing p with
  | nil hs =>
    have hnil := skipSpace_of_isCut_close hs hp
    exact ⟨_, readMembers_of_error (by rw [nextKey, hnil]), hF⟩
  | @cons first lead text rest member members hl hw hlisted ih =>
    rw [List.append_assoc, List.append_assoc] at hp
    cases memberCut_of_isCut hl hw hp with
    | key h => exact ⟨_, readMembers_of_error h, hF⟩
    | @colon rest h hc =>
      have hread : readColon rest >>= read = .error .truncated := by
        rw [hc]
        rfl
      exact ⟨_, readMembers_of_nextKey_error h hread, hF⟩
    | @value rest rest' spaces text h hc hlt hs hw hp =>
      have hbind : readColon rest >>= read = read rest' := by
        rw [hc]
        rfl
      have hends := hlisted.endsNumber (endsNumber_close (.inr rfl) [])
      rcases hr.read_of_isCut hs hw hends hp with
        (⟨e, hread, he⟩ | ⟨value, hread⟩) | ⟨p', hread, hlt', hcut⟩
      · exact ⟨e, readMembers_of_nextKey_error h (hbind.trans hread), he⟩
      · refine ⟨_, ?_, hF⟩
        rw [readMembers_of_nextKey h (hbind.trans hread) (Nat.zero_lt_of_lt hlt),
          readMembers_of_error rfl]
        rfl
      · obtain ⟨e, hmembers, he⟩ := ih hcut
        refine ⟨e, ?_, he⟩
        rw [readMembers_of_nextKey h (hbind.trans hread) (hlt'.trans hlt), hmembers]
        rfl

end CommandWords.Json
