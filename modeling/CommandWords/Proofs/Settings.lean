import CommandWords.Proofs.Session
import CommandWords.Proofs.Toml.Documents

/-!
# Settings from two texts

Settings are written in a text that gives each of them to its key, if it is set, and that may give
other keys strings and truth values (`Settings.WrittenIn`). Such a text is read as these settings
(`parse?_of_writtenIn`), and any settings can be written so (`exists_writtenIn`). Of two such
texts as the files of the user and of the project, the project's goes first, key by key, and a text
that is not accepted is what the error is about, the user's first: `load_overriding`.
-/

namespace CommandWords

/-- The file with a given text. -/
def FileState.ofText (text : Text) : FileState := .contents (String.ofList text).toUTF8

namespace Settings

variable {settings : Settings} {text : Text} {entries : Toml.Entries}

/-- Whether keys with their values give settings: each of the three keys is there with its setting
if that is set, and is not there if it is left open. -/
structure GivenBy (settings : Settings) (entries : Toml.Entries) : Prop where
  format (value : Toml.Value) : ("format".toList, value) ∈ entries ↔
    ∃ format ∈ settings.format, value = .string format.name
  pretty (value : Toml.Value) : ("pretty".toList, value) ∈ entries ↔
    ∃ pretty ∈ settings.pretty, value = .boolean pretty
  log (value : Toml.Value) : ("log".toList, value) ∈ entries ↔
    ∃ log ∈ settings.log, value = .string log

/-- Whether settings are written in a text, besides strings and truth values for other keys. -/
def WrittenIn (settings : Settings) (text : Text) : Prop :=
  ∃ entries, Toml.DocumentWritten text entries ∧ settings.GivenBy entries

/-! ## Reading what is written -/

/-- A key with one value is found, and one without is left open. -/
theorem setting?_eq_some {α : Type} {key : Text} {read : Toml.Value → Option α}
    {setting : Option α} {write : α → Toml.Value} (hn : (entries.map Prod.fst).Nodup)
    (h : ∀ value, (key, value) ∈ entries ↔ ∃ a ∈ setting, value = write a)
    (hread : ∀ a, read (write a) = some a) : setting? key read entries = some setting := by
  unfold setting?
  cases hget : entries.get? key with
  | none =>
    cases setting with
    | none => rfl
    | some a =>
      have hsome := (Toml.Entries.get?_eq_some_iff hn).2 ((h (write a)).2 ⟨a, rfl, rfl⟩)
      cases hget.symm.trans hsome
  | some value =>
    obtain ⟨a, rfl, rfl⟩ := (h value).1 ((Toml.Entries.get?_eq_some_iff hn).1 hget)
    simp [hread]

theorem named?_name (format : Format) : Format.named? format.name = some format := by
  cases format <;> decide

/-- A text in which settings are written is read as these settings. -/
theorem parse?_of_writtenIn (h : settings.WrittenIn text) : parse? text = some settings := by
  obtain ⟨entries, hdocument, hgiven⟩ := h
  have hformat : setting? "format".toList format? entries = some settings.format :=
    setting?_eq_some hdocument.nodup hgiven.format named?_name
  have hpretty : setting? "pretty".toList boolean? entries = some settings.pretty :=
    setting?_eq_some hdocument.nodup hgiven.pretty fun _ => rfl
  have hlog : setting? "log".toList text? entries = some settings.log :=
    setting?_eq_some hdocument.nodup hgiven.log fun _ => rfl
  unfold parse? ofEntries?
  rw [Toml.read_eq_some hdocument, Option.bind_some, hformat, hpretty, hlog]
  rfl

theorem ofFile_ofText (text : Text) :
    ofFile (.ofText text) = (parse? text).elim (.error (.malformed text)) (.ok ∘ some) := by
  have hdecode : decodeText? (String.ofList text).toUTF8 = some text := by
    rw [decodeText?_toUTF8, String.toList_ofList]
  simp only [ofFile, FileState.ofText, hdecode]
  cases parse? text <;> rfl

section

variable {userFile projectFile : FileState} {first second : Option Settings} {error : LoadError}

theorem load_of_ok (hu : ofFile userFile = .ok first) (hp : ofFile projectFile = .ok second) :
    load userFile projectFile =
      .ok ((first.getD empty).overriddenBy (second.getD empty)) := by
  rw [load, hu, hp]
  rfl

theorem load_of_user_error (hu : ofFile userFile = .error error) (projectFile : FileState) :
    load userFile projectFile = .error error := by
  rw [load, hu]
  rfl

theorem load_of_project_error (hu : ofFile userFile = .ok first)
    (hp : ofFile projectFile = .error error) : load userFile projectFile = .error error := by
  rw [load, hu, hp]
  rfl

end

/-! ## Writing settings -/

/-- The keys of the settings that are set, with their values. -/
def toEntries (settings : Settings) : Toml.Entries :=
  (settings.format.map fun format => ("format".toList, .string format.name)).toList ++
    (settings.pretty.map fun pretty => ("pretty".toList, .boolean pretty)).toList ++
    (settings.log.map fun log => ("log".toList, .string log)).toList

theorem mem_toEntries {entry : Text × Toml.Value} : entry ∈ settings.toEntries ↔
    (∃ format ∈ settings.format, entry = ("format".toList, .string format.name)) ∨
      (∃ pretty ∈ settings.pretty, entry = ("pretty".toList, .boolean pretty)) ∨
      ∃ log ∈ settings.log, entry = ("log".toList, .string log) := by
  simp only [toEntries, List.mem_append, Option.mem_toList, Option.mem_def, Option.map_eq_some_iff,
    or_assoc, eq_comm (b := entry)]

theorem nodup_toEntries (settings : Settings) : (settings.toEntries.map Prod.fst).Nodup := by
  obtain ⟨format, pretty, log⟩ := settings
  cases format <;> cases pretty <;> cases log <;> simp [toEntries]

theorem givenBy_toEntries (settings : Settings) : settings.GivenBy settings.toEntries := by
  constructor <;> intro value <;> rw [mem_toEntries] <;> simp

/-- Any settings can be written in a text. -/
theorem exists_writtenIn (settings : Settings) : ∃ text, settings.WrittenIn text := by
  have hkey : ∀ key ∈ ["format".toList, "pretty".toList, "log".toList],
      Toml.KeyWritten key key := by
    simp only [List.mem_cons, List.not_mem_nil, or_false, forall_eq_or_imp, forall_eq]
    exact ⟨.bare (by simp) (by simp), .bare (by simp) (by simp), .bare (by simp) (by simp)⟩
  have hstring : ∀ key ∈ ["format".toList, "pretty".toList, "log".toList], ∀ value,
      ∃ line, Toml.LineWritten line (some (key, .string value)) := fun key hk value => by
    obtain ⟨body, hbody⟩ := Toml.exists_basicWritten value
    exact ⟨_, Toml.lineWritten_spaced (hkey key hk) (.string (.basic hbody))⟩
  obtain ⟨text, htext⟩ : ∃ text, Toml.LinesWritten text settings.toEntries := by
    refine Toml.exists_linesWritten fun entry hentry => ?_
    rcases mem_toEntries.1 hentry with ⟨format, -, rfl⟩ | ⟨pretty, -, rfl⟩ | ⟨log, -, rfl⟩
    · exact hstring _ (by simp) _
    · cases pretty with
      | true => exact ⟨_, Toml.lineWritten_spaced (hkey _ (by simp)) .true⟩
      | false => exact ⟨_, Toml.lineWritten_spaced (hkey _ (by simp)) .false⟩
    · exact hstring _ (by simp) _
  exact ⟨text, settings.toEntries, ⟨.inl htext, settings.nodup_toEntries⟩,
    settings.givenBy_toEntries⟩

/-! ## Two files -/

/-- Two texts in which settings are written are loaded as the settings of the project, and those of
the user where the project leaves one open. If the user's text is not accepted, the error is about it,
whatever the project has, and else it is about the project's text if that is not accepted. -/
theorem load_overriding (userText projectText : Text) :
    (∀ user project : Settings, user.WrittenIn userText → project.WrittenIn projectText →
      ∃ settings, load (.ofText userText) (.ofText projectText) = .ok settings ∧
        settings.format = (if project.format.isSome then project.format else user.format) ∧
        settings.pretty = (if project.pretty.isSome then project.pretty else user.pretty) ∧
        settings.log = (if project.log.isSome then project.log else user.log)) ∧
    (parse? userText = none →
      ∀ projectFile, load (.ofText userText) projectFile = .error (.malformed userText)) ∧
    ((parse? userText).isSome → parse? projectText = none →
      load (.ofText userText) (.ofText projectText) = .error (.malformed projectText)) := by
  have hrefused : ∀ text, parse? text = none →
      ofFile (.ofText text) = .error (.malformed text) := by
    intro text h
    rw [ofFile_ofText, h]
    rfl
  have haccepted : ∀ text settings, parse? text = some settings →
      ofFile (.ofText text) = .ok (some settings) := by
    intro text settings h
    rw [ofFile_ofText, h]
    rfl
  have hor : ∀ {α : Type} (a b : Option α), a.or b = if a.isSome then a else b := by
    intro α a b
    cases a <;> rfl
  refine ⟨fun user project hu hp => ?_, fun hu => ?_, fun hu hp => ?_⟩
  · exact ⟨_, load_of_ok (haccepted _ _ (parse?_of_writtenIn hu))
      (haccepted _ _ (parse?_of_writtenIn hp)), hor _ _, hor _ _, hor _ _⟩
  · exact load_of_user_error (hrefused _ hu)
  · obtain ⟨settings, hu⟩ := Option.isSome_iff_exists.1 hu
    exact load_of_project_error (haccepted _ _ hu) (hrefused _ hp)

/-- The user's text has escapes, a comment and a carriage return, and the project's has quotes
around a key and a key of its own. -/
theorem load_overriding_keys :
    (⟨none, some true, some ['\u00e9', '\t']⟩ : Settings).WrittenIn
      "# mine\nlog = \"\\u00e9\\t\"\r\npretty = true".toList ∧
    (⟨some .nul, some false, none⟩ : Settings).WrittenIn
      "level = \"\"\n'pretty' = false\nformat = 'nul'\n".toList ∧
    (∃ settings,
      load (.ofText "# mine\nlog = \"\\u00e9\\t\"\r\npretty = true".toList)
        (.ofText "level = \"\"\n'pretty' = false\nformat = 'nul'\n".toList) = .ok settings ∧
      settings.format = some .nul ∧ settings.pretty = some false ∧
      settings.log = some ['\u00e9', '\t']) ∧
    parse? ['='] = none ∧ load (.ofText ['=']) .directory = .error (.malformed ['=']) ∧
    load (.ofText "# mine\nlog = \"\\u00e9\\t\"\r\npretty = true".toList) (.ofText ['=']) =
      .error (.malformed ['=']) := by
  have hnone : Toml.IsSpaces [] := by simp [Toml.IsSpaces]
  have hbare : ∀ key ∈ ["log".toList, "pretty".toList, "level".toList, "format".toList],
      Toml.KeyWritten key key := by
    simp only [List.mem_cons, List.not_mem_nil, or_false, forall_eq_or_imp, forall_eq]
    exact ⟨.bare (by simp) (by simp), .bare (by simp) (by simp), .bare (by simp) (by simp),
      .bare (by simp) (by simp)⟩
  have hliteral : ∀ value ∈ ["pretty".toList, "nul".toList], Toml.IsLiteral value := by
    simp [Toml.IsLiteral, Toml.IsTextChar]
  have huser : (⟨none, some true, some ['\u00e9', '\t']⟩ : Settings).WrittenIn
      "# mine\nlog = \"\\u00e9\\t\"\r\npretty = true".toList := by
    have hremark : Toml.IsRemark ([] ++ '#' :: " mine".toList) :=
      .comment hnone (by simp [Toml.IsTextChar])
    have hescape : Toml.EscapeWritten ['u', '0', '0', 'e', '9'] '\u00e9' :=
      .number (by decide) (by simp [hexValue?]) (by decide)
    have hvalue : Toml.StringWritten "\"\\u00e9\\t\"".toList ['\u00e9', '\t'] :=
      .basic (.escaped hescape (.escaped (.short (by decide)) .nil))
    have hlog := Toml.lineWritten_spaced (hbare "log".toList (by simp)) (.string hvalue)
    have hpretty := Toml.lineWritten_spaced (hbare "pretty".toList (by simp)) .true
    refine ⟨_, ⟨.inl (.cons (.blank hremark) .lf (.cons hlog .crlf (.last hpretty))),
      by decide⟩, ?_⟩
    constructor <;> intro value <;> simp
  have hproject : (⟨some .nul, some false, none⟩ : Settings).WrittenIn
      "level = \"\"\n'pretty' = false\nformat = 'nul'\n".toList := by
    have hlevel := Toml.lineWritten_spaced (hbare "level".toList (by simp)) (.string (.basic .nil))
    have hpretty := Toml.lineWritten_spaced (.literal (hliteral "pretty".toList (by simp))) .false
    have hformat := Toml.lineWritten_spaced (hbare "format".toList (by simp))
      (.string (.literal (hliteral "nul".toList (by simp))))
    refine ⟨_, ⟨.inl (.cons hlevel .lf (.cons hpretty .lf (.cons hformat .lf
      (.last (.blank (.spaces hnone)))))), by decide⟩, ?_⟩
    constructor <;> intro value <;> simp [Format.name]
  have hrefused : parse? ['='] = none := by
    have hkey : Toml.readKey? ['='] = none := by
      rw [Toml.readKey?, Toml.readKeyParts?.eq_def]
      rfl
    have hstatement : Toml.readStatement ['='] = none := by
      rw [Toml.readStatement, Toml.readKeyValue, hkey]
      · rfl
      · simp
      · simp
    have hskip : Toml.skipLines ['='] = ['='] := Toml.skipLines_of_newline?_none rfl
    have hstatements : Toml.readStatements ['='] = none := by
      rw [Toml.readStatements.eq_def, hskip]
      dsimp only
      rw [hstatement]
    have hread : Toml.read ['='] = none := by
      rw [Toml.read, show Toml.trimMark ['='] = ['='] from rfl, hstatements]
      rfl
    rw [parse?, hread, Option.bind_none]
  have haccepted := parse?_of_writtenIn huser
  obtain ⟨settings, hload, hformat, hpretty, hlog⟩ := (load_overriding _ _).1 _ _ huser hproject
  exact ⟨huser, hproject, ⟨settings, hload, hformat, hpretty, hlog⟩, hrefused,
    (load_overriding ['='] []).2.1 hrefused _,
    (load_overriding _ _).2.2 (by rw [haccepted]; rfl) hrefused⟩

end Settings

end CommandWords
