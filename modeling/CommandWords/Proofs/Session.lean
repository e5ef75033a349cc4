import CommandWords.Proofs.Json.Strings
import CommandWords.Session

/-!
# What decides a run

The settings, the input and the response decide how a run ends, in this order (`Decides`), and what
is logged has no part in it. A run ends as decided (`decides_run`), a decision can be made only once
(`Decides.unique`), and two runs that differ only in what is to be logged are decided alike
(`Decides.of_sameButLog`). The directive in the settings comes from the same files as the settings
that count, so that the files must be compared with that key left out
(`Settings.load_map_withoutLog`). Messages are compared up to the text that they are about, which may
be one that holds the directive.
-/

namespace CommandWords

/-- The key of the log directive. -/
def logKey : Text := "log".toList

theorem decodeText?_toUTF8 (s : String) : decodeText? s.toUTF8 = some s.toList := by
  unfold decodeText? String.fromUTF8?
  exact congrArg (Option.map String.toList) (dif_pos s.isValidUTF8)

/-- The table that a file holds. A file that is not there counts as one without keys. -/
def FileState.entries? : FileState → Option Toml.Entries
  | .absent => some []
  | .unreadable _ => none
  | .contents bytes => (decodeText? bytes).bind Toml.read

/-- Two files that differ at most in the text under the key of the log directive, which may be
missing from either. -/
inductive FileState.SameButLog : FileState → FileState → Prop
  | same (file : FileState) : SameButLog file file
  | tables {file other : FileState} {entries others : Toml.Entries}
    (hf : file.entries? = some entries) (ho : other.entries? = some others)
    (hk : ∀ key, key ≠ logKey → entries.get? key = others.get? key)
    (hl : ∀ value ∈ entries.get? logKey, ∃ text, value = .string text)
    (hl' : ∀ value ∈ others.get? logKey, ∃ text, value = .string text) : SameButLog file other
  | noTables {bytes bytes' : ByteArray} {text text' : Text} (hb : decodeText? bytes = some text)
    (hb' : decodeText? bytes' = some text') (ht : Toml.read text = none)
    (ht' : Toml.read text' = none) : SameButLog (.contents bytes) (.contents bytes')

namespace Settings

/-- Settings but for the log directive. -/
def withoutLog (settings : Settings) : Settings := { settings with log := none }

theorem outputFormat_withoutLog (settings : Settings) :
    settings.withoutLog.outputFormat = settings.outputFormat := rfl

theorem isPretty_withoutLog (settings : Settings) :
    settings.withoutLog.isPretty = settings.isPretty := rfl

theorem setting?_logKey {entries : Toml.Entries}
    (h : ∀ value ∈ entries.get? logKey, ∃ text, value = .string text) :
    ∃ log, setting? logKey text? entries = some log := by
  unfold setting?
  cases hvalue : entries.get? logKey with
  | none => exact ⟨none, rfl⟩
  | some value =>
    obtain ⟨text, rfl⟩ := h value hvalue
    exact ⟨some text, rfl⟩

theorem ofEntries?_map_withoutLog {entries others : Toml.Entries}
    (hk : ∀ key, key ≠ logKey → entries.get? key = others.get? key)
    (hl : ∀ value ∈ entries.get? logKey, ∃ text, value = .string text)
    (hl' : ∀ value ∈ others.get? logKey, ∃ text, value = .string text) :
    (ofEntries? entries).map withoutLog = (ofEntries? others).map withoutLog := by
  have hformat : setting? "format".toList format? entries = setting? "format".toList format? others := by
    rw [setting?, hk _ (by decide), setting?]
  have hpretty : setting? "pretty".toList boolean? entries = setting? "pretty".toList boolean? others := by
    rw [setting?, hk _ (by decide), setting?]
  obtain ⟨log, hlog⟩ := setting?_logKey hl
  obtain ⟨log', hlog'⟩ := setting?_logKey hl'
  have hof : ∀ (entries : Toml.Entries) (log : Option Text),
      setting? logKey text? entries = some log → (ofEntries? entries).map withoutLog = do
        let format ← setting? "format".toList format? entries
        let pretty ← setting? "pretty".toList boolean? entries
        return ⟨format, pretty, none⟩ := by
    intro entries log h
    have h : setting? "log".toList text? entries = some log := h
    unfold ofEntries?
    rw [h]
    cases setting? "format".toList format? entries <;>
      cases setting? "pretty".toList boolean? entries <;> rfl
  rw [hof _ _ hlog, hof _ _ hlog', hformat, hpretty]

/-- The settings of a file that count, if the file can be loaded. -/
def ofFileWithoutLog (file : FileState) : Option Settings :=
  (ofFile file).toOption.map fun settings => (settings.getD empty).withoutLog

/-- A file that holds a table is loaded if the table holds settings. -/
theorem ofFileWithoutLog_of_entries? {file : FileState} {entries : Toml.Entries}
    (h : file.entries? = some entries) :
    ofFileWithoutLog file = (ofEntries? entries).map withoutLog := by
  cases file with
  | absent =>
    obtain rfl := Option.some.inj h
    rfl
  | unreadable => cases h
  | contents bytes =>
    obtain ⟨text, htext, hread⟩ := Option.bind_eq_some_iff.1 h
    simp only [ofFileWithoutLog, ofFile, htext, parse?, hread, Option.bind_some]
    cases ofEntries? entries <;> rfl

theorem ofFileWithoutLog_eq {file other : FileState} (h : file.SameButLog other) :
    ofFileWithoutLog file = ofFileWithoutLog other := by
  cases h with
  | same => rfl
  | tables hf ho hk hl hl' =>
    rw [ofFileWithoutLog_of_entries? hf, ofFileWithoutLog_of_entries? ho,
      ofEntries?_map_withoutLog hk hl hl']
  | noTables hb hb' ht ht' =>
    simp [ofFileWithoutLog, ofFile, hb, hb', parse?, ht, ht', Except.toOption]

theorem load_map_withoutLog (user project : FileState) :
    (load user project).toOption.map withoutLog = do
      let userSettings ← ofFileWithoutLog user
      let projectSettings ← ofFileWithoutLog project
      return userSettings.overriddenBy projectSettings := by
  unfold load ofFileWithoutLog
  cases ofFile user <;> cases ofFile project <;> rfl

section

variable {user project user' project' : FileState}

/-- What is loaded from files that differ only in the log directive differs only in it. -/
theorem load_sameButLog (hu : user.SameButLog user') (hp : project.SameButLog project') :
    (load user project).toOption.map withoutLog = (load user' project').toOption.map withoutLog := by
  rw [load_map_withoutLog, load_map_withoutLog, ofFileWithoutLog_eq hu, ofFileWithoutLog_eq hp]

theorem exists_load_ok (hu : user.SameButLog user') (hp : project.SameButLog project')
    {settings : Settings} (h : load user project = .ok settings) :
    ∃ settings', load user' project' = .ok settings' ∧
      settings'.withoutLog = settings.withoutLog := by
  have hload := load_sameButLog hu hp
  cases h' : load user' project' with
  | error error =>
    rw [h, h'] at hload
    cases hload
  | ok settings' =>
    rw [h, h'] at hload
    exact ⟨settings', rfl, (Option.some.inj hload).symm⟩

/-- If one load fails, so does the other. The errors may be about different texts. -/
theorem exists_load_error (hu : user.SameButLog user') (hp : project.SameButLog project')
    {error : LoadError} (h : load user project = .error error) :
    ∃ error', load user' project' = .error error' := by
  have hload := load_sameButLog hu hp
  cases h' : load user' project' with
  | error error' => exact ⟨error', rfl⟩
  | ok settings =>
    rw [h, h'] at hload
    cases hload

end

end Settings

namespace Session

variable {words : Words} {s t : Surroundings}

/-- How a run ends: the exit code, what is written to the output, and the message beside it, in which
other readers have words of their own. -/
inductive Decides (words : Words) (s : Surroundings) : Nat → Text → Text → Prop
  | settings {error : Settings.LoadError}
    (hs : Settings.load s.userFile s.projectFile = .error error) :
    Decides words s 2 [] ((Failure.settings error).message words)
  | input {settings : Settings} (hs : Settings.load s.userFile s.projectFile = .ok settings)
    (hi : decodeText? s.input = none) : Decides words s 2 [] (Failure.input.message words)
  | request {settings : Settings} {text : Text} {error : Request.Error}
    (hs : Settings.load s.userFile s.projectFile = .ok settings)
    (hi : decodeText? s.input = some text) (hr : Request.parse text = .error error) :
    Decides words s 2 [] ((Failure.request text error).message words)
  | execution {settings : Settings} {text : Text} {request : Request} {error : UnmatchedQuote}
    (hs : Settings.load s.userFile s.projectFile = .ok settings)
    (hi : decodeText? s.input = some text) (hr : Request.parse text = .ok request)
    (he : request.execute.result = .error error) :
    Decides words s 1 [] ((Failure.execution error).message words)
  | response {settings : Settings} {text : Text} {request : Request} {response : Response}
    (hs : Settings.load s.userFile s.projectFile = .ok settings)
    (hi : decodeText? s.input = some text) (hr : Request.parse text = .ok request)
    (he : request.execute.result = .ok response) :
    Decides words s 0 (response.render settings.outputFormat settings.isPretty) []

/-- There is no log directive, neither from outside nor in the settings. -/
structure NoDirective (s : Surroundings) : Prop where
  outside : s.logDirective = none
  inside : ∀ settings, Settings.load s.userFile s.projectFile = .ok settings → settings.log = none

/-- Two runs that differ only in the log directives. -/
structure SameButLog (s t : Surroundings) : Prop where
  userFile : s.userFile.SameButLog t.userFile
  projectFile : s.projectFile.SameButLog t.projectFile
  input : s.input = t.input
  outputWritable : s.outputWritable = t.outputWritable

/-- Every way to fail before the response is written has a message, whatever the words in it. -/
theorem message_ne_nil {failure : Failure} (h : failure ≠ .output) :
    failure.message words ≠ [] := by
  cases failure with
  | output => exact absurd rfl h
  | settings | input | request | execution =>
    exact List.append_ne_nil_of_right_ne_nil _ (List.cons_ne_nil '\n' [])

/-- The message is empty exactly if the run succeeds. -/
theorem Decides.message_eq_nil_iff {exitCode : Nat} {output message : Text}
    (h : Decides words s exitCode output message) : message = [] ↔ exitCode = 0 := by
  cases h with
  | response => simp
  | _ => simp [message_ne_nil]

theorem Decides.output_eq_nil {exitCode : Nat} {output message : Text}
    (h : Decides words s exitCode output message) (hc : exitCode ≠ 0) : output = [] := by
  cases h with
  | response => exact absurd rfl hc
  | _ => rfl

theorem Decides.unique {exitCode exitCode' : Nat} {output output' message message' : Text}
    (h : Decides words s exitCode output message) (h' : Decides words s exitCode' output' message') :
    exitCode = exitCode' ∧ output = output' ∧ message = message' := by
  cases h <;> cases h' <;> simp_all

/-- The log directives decide nothing but the text that a message may be about. -/
theorem Decides.of_sameButLog (h : SameButLog s t) {exitCode : Nat} {output message : Text}
    (hd : Decides words s exitCode output message) :
    ∃ message', Decides words t exitCode output message' := by
  cases hd with
  | settings hs =>
    obtain ⟨error', ht⟩ := Settings.exists_load_error h.userFile h.projectFile hs
    exact ⟨_, .settings ht⟩
  | input hs hi =>
    obtain ⟨settings', ht, -⟩ := Settings.exists_load_ok h.userFile h.projectFile hs
    exact ⟨_, .input ht (h.input ▸ hi)⟩
  | request hs hi hr =>
    obtain ⟨settings', ht, -⟩ := Settings.exists_load_ok h.userFile h.projectFile hs
    exact ⟨_, .request ht (h.input ▸ hi) hr⟩
  | execution hs hi hr he =>
    obtain ⟨settings', ht, -⟩ := Settings.exists_load_ok h.userFile h.projectFile hs
    exact ⟨_, .execution ht (h.input ▸ hi) hr he⟩
  | @response settings text request response hs hi hr he =>
    obtain ⟨settings', ht, hsame⟩ := Settings.exists_load_ok h.userFile h.projectFile hs
    rw [← settings.outputFormat_withoutLog, ← settings.isPretty_withoutLog, ← hsame,
      settings'.outputFormat_withoutLog, settings'.isPretty_withoutLog]
    exact ⟨_, .response ht (h.input ▸ hi) hr he⟩

/-- What is made of the input is decided, whatever has been logged. -/
theorem decides_respond {settings : Settings} (hw : s.outputWritable = true)
    (hs : Settings.load s.userFile s.projectFile = .ok settings) (log : Text) :
    ∃ exitCode output message,
      conclude words log (respond settings s).1 = ⟨exitCode, output, log ++ message⟩ ∧
        Decides words s exitCode output message := by
  unfold respond readRequest
  cases hi : decodeText? s.input with
  | none => exact ⟨_, _, _, rfl, .input hs hi⟩
  | some text =>
    dsimp only
    cases hr : Request.parse text with
    | error error => exact ⟨_, _, _, rfl, .request hs hi hr⟩
    | ok request =>
      simp only [Except.mapError, hw]
      cases he : request.execute.result with
      | error error => exact ⟨_, _, _, rfl, .execution hs hi hr he⟩
      | ok response =>
        exact ⟨_, _, _, by rw [List.append_nil]; rfl, .response hs hi hr he⟩

/-- A run ends as decided. Its message comes behind what is logged. -/
theorem decides_run (hw : s.outputWritable = true) :
    ∃ log message, Decides words s (run words s).exitCode (run words s).output message ∧
      (run words s).errors = log ++ message ∧ (NoDirective s → log = []) := by
  unfold run
  cases hs : Settings.load s.userFile s.projectFile with
  | error error => exact ⟨[], _, .settings hs, rfl, fun _ => rfl⟩
  | ok settings =>
    obtain ⟨exitCode, output, message, hout, hd⟩ :=
      decides_respond hw hs (Log.lines (s.logDirective.or settings.log) (respond settings s).2)
    dsimp only
    rw [hout]
    refine ⟨_, message, hd, rfl, fun h => ?_⟩
    rw [h.outside, h.inside settings hs]
    rfl

/-- If the settings cannot be loaded, the input does not matter. -/
theorem run_input_of_load {error : Settings.LoadError}
    (hs : Settings.load s.userFile s.projectFile = .error error) (input : ByteArray) :
    run words { s with input := input } = run words s := by
  unfold run
  rw [hs]

/-- A run ends as its settings, its input and its response decide, in this order, and what is to be
logged has no part in it. -/
theorem run_decided (words : Words) (hw : s.outputWritable = true) :
    (∃ message, Decides words s (run words s).exitCode (run words s).output message ∧
      (message = [] ↔ (run words s).exitCode = 0) ∧
      ((run words s).exitCode ≠ 0 → (run words s).output = []) ∧
      (NoDirective s → (run words s).errors = message)) ∧
    (∀ error, Settings.load s.userFile s.projectFile = .error error →
      ∀ input, run words { s with input := input } = run words s) ∧
    ∀ t, SameButLog s t →
      (run words t).exitCode = (run words s).exitCode ∧
        (run words t).output = (run words s).output := by
  obtain ⟨log, message, hd, herrors, hquiet⟩ := decides_run hw
  refine ⟨⟨message, hd, hd.message_eq_nil_iff, hd.output_eq_nil, ?_⟩,
    fun error hs input => run_input_of_load hs input, ?_⟩
  · intro h
    rw [herrors, hquiet h, List.nil_append]
  · intro t h
    obtain ⟨_, _, hd', -⟩ := decides_run (h.outputWritable ▸ hw : t.outputWritable = true)
    obtain ⟨_, ht⟩ := hd.of_sameButLog h
    obtain ⟨hcode, hout, -⟩ := hd'.unique ht
    exact ⟨hcode, hout⟩

open Toml in
theorem entries?_logLine : (FileState.contents "log='off'".toUTF8).entries? =
    some [(logKey, .string "off".toList)] := by
  have hkey : readKeyParts? "log='off'".toList = some ([logKey], "='off'".toList) := by
    rw [readKeyParts?]
    rfl
  have hskip : skipLines "log='off'".toList = 'l' :: "og='off'".toList := by
    rw [skipLines]
    rfl
  have hstatement : readStatement ('l' :: "og='off'".toList) =
      some (.pair ([logKey], .string "off".toList), []) := by
    change ((readKey? "log='off'".toList).bind _).bind _ = _
    rw [readKey?, hkey]
    rfl
  have hnil : readStatements [] = some [] := by
    rw [readStatements, skipLines]
    rfl
  have hstatements : readStatements "log='off'".toList =
      some [.pair ([logKey], .string "off".toList)] := by
    rw [readStatements, hskip]
    dsimp only
    rw [hstatement]
    change (readStatements []).map _ = _
    rw [hnil]
    rfl
  rw [FileState.entries?, decodeText?_toUTF8]
  change (readStatements "log='off'".toList).bind _ = _
  rw [hstatements]
  rfl

/-- A directive in the project's file and one from outside, with no file, make no difference. -/
theorem run_withDirectives :
    SameButLog ⟨.absent, .contents "log='off'".toUTF8, none, "[\"escape\",\"a b\"]".toUTF8, true⟩
      ⟨.absent, .absent, some "trace".toList, "[\"escape\",\"a b\"]".toUTF8, true⟩ ∧
    (run .plain ⟨.absent, .absent, some "trace".toList, "[\"escape\",\"a b\"]".toUTF8,
        true⟩).output =
      (run .plain ⟨.absent, .contents "log='off'".toUTF8, none, "[\"escape\",\"a b\"]".toUTF8,
        true⟩).output := by
  have h : SameButLog
      ⟨.absent, .contents "log='off'".toUTF8, none, "[\"escape\",\"a b\"]".toUTF8, true⟩
      ⟨.absent, .absent, some "trace".toList, "[\"escape\",\"a b\"]".toUTF8, true⟩ :=
    { userFile := .same _
      projectFile := .tables entries?_logLine rfl
        (fun key hkey => by simp [Toml.Entries.get?, List.lookup_cons, beq_false_of_ne hkey])
        (fun value hvalue => ⟨_, (Option.some.inj hvalue).symm⟩)
        (fun value hvalue => absurd hvalue (Option.not_mem_none value))
      input := rfl
      outputWritable := rfl }
  exact ⟨h, ((run_decided .plain rfl).2.2 _ h).2⟩

end Session

end CommandWords
