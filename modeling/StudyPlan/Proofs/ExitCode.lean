import StudyPlan.CommandLine.Outcome
import StudyPlan.Proofs.Envelope
import StudyPlan.Proofs.SettingsBytes
import StudyPlan.Proofs.Verdict

/-!
# What the exit code tells

A caller that runs the program looks at the exit code, or reads what was printed, or does
both.  For JSON the two say the same, whatever becomes of the source.  It may be rejected, and
then a form of its own is printed on a path of its own; or it has a report, which is printed
whether it is good or bad.  Either way there is one document with a member `success`, and this
is true exactly if the exit code is 0 (`Outcome.SpeaksJson`).

Then only two things keep the program from printing a document: settings that are there and
cannot be loaded, and a source that is no text.  Both are told by the exit code 1, whatever the
format (`run_eq_failed`).

## What a file holds

A file is text if its bytes are those of a text, and they are those of one text only
(`readSource_eq_ok_iff`).  So it is enough to speak of the bytes of a source.

Of a file with settings it is not asked that it is text.  Settings are loaded from its bytes, or
they are the standard ones because nothing is found at the path (`loadSettings_eq_ok_iff`).
-/

namespace StudyPlan

open Json (Keyed)

/-! ## Success -/

theorem Report.IsVerdictOn.isSuccess_iff {r : Report} {source : String} (h : r.IsVerdictOn source) :
    r.isSuccess = true ↔ ∃ c, Curriculum.ofSource source = .ok c := by
  simp only [← h.parsed]
  cases r <;> simp [isSuccess]

theorem Report.get?_success {r : Report} (h : r.HasKeyedCurriculum) :
    r.envelope.sortKeys.get? "success" = some (.bool r.isSuccess) := by
  rw [(keyed_envelope h).get?_sortKeys]
  rfl

theorem Rejection.keyed_envelope (r : Rejection) : Keyed r.envelope := by
  refine .object (by simp) ?_
  simp [Keyed.bool, Keyed.string]

theorem Rejection.get?_success (r : Rejection) :
    r.envelope.sortKeys.get? "success" = some (.bool false) := by
  rw [r.keyed_envelope.get?_sortKeys]
  rfl

namespace CommandLine

/-! ## Reading -/

theorem fromUTF8?_eq_some_iff {content : ByteArray} {text : String} :
    String.fromUTF8? content = some text ↔ content = text.toUTF8 := by
  constructor
  · intro h
    rw [String.fromUTF8?] at h
    split at h
    · cases h
      rfl
    · cases h
  · rintro rfl
    exact dif_pos text.isValidUTF8

/-- A file with a text in it is read, and nothing else is. -/
theorem readSource_eq_ok_iff {content : FileContent} {source : String} :
    readSource content = .ok source ↔ content = .bytes source.toUTF8 := by
  cases content with
  | absent | directory | unreadable => simp [readSource]
  | bytes content =>
    rw [readSource, FileContent.bytes.injEq, ← fromUTF8?_eq_some_iff]
    cases String.fromUTF8? content <;> simp

/-- Settings are the standard ones where no file with settings is found, and a file that is found
has to hold some. -/
theorem loadSettings_eq_ok_iff {options : Options} {files : String → FileContent}
    {settings : Settings} :
    loadSettings options files = .ok settings ↔
      (settings = {} ∧ ∀ path ∈ options.config, ∃ reason, files path = .absent reason) ∨
        ∃ path ∈ options.config, ∃ content, files path = .bytes content ∧
          Settings.ofBytes? content = some settings := by
  rw [loadSettings]
  cases options.config with
  | none => simp [eq_comm]
  | some path =>
    cases hfile : files path with
    | absent => simp [hfile, eq_comm]
    | directory | unreadable => simp [hfile, settingsOfFile]
    | bytes content => cases hread : Settings.ofBytes? content <;> simp [hfile, settingsOfFile, hread]

/-- A file with a text in it holds the settings that the text gives. -/
theorem loadSettings_toUTF8 {options : Options} {files : String → FileContent} {path text : String}
    (hconfig : path ∈ options.config) (hfile : files path = .bytes text.toUTF8)
    (settings : Settings) :
    loadSettings options files = .ok settings ↔ Settings.ofText text = .ok settings := by
  have hbytes : settingsOfFile (files path) = .ok settings ↔
      Settings.ofText text = .ok settings := by
    rw [hfile, settingsOfFile, Settings.ofBytes?_toUTF8, Settings.ofText]
    cases Settings.ofText? text <;> simp
  rw [loadSettings, Option.mem_def.1 hconfig, ← hbytes]
  simp only [hfile]

/-! ## Printing -/

/-- One JSON document is printed with a newline behind it and nothing else, and its member
`success` tells the exit code. -/
def Outcome.SpeaksJson (o : Outcome) : Prop :=
  ∃ text j success, o.output = text ++ "\n" ∧ Json.ofText? text = some j ∧ Keyed j ∧
    j.get? "success" = some (.bool success) ∧ o.exitCode = if success then 0 else 1

theorem speaksJson_printed (settings : Settings) (source : String) :
    (printed .json settings (analyze settings source)).SpeaksJson := by
  rw [printed]
  cases hresult : (analyze settings source).result with
  | error r =>
    exact ⟨_, _, false, rfl, Json.ofText?_render _ _, r.keyed_envelope.sortKeys, r.get?_success,
      rfl⟩
  | ok report =>
    have hkeyed := Report.hasKeyedCurriculum_of_analyze hresult
    exact ⟨_, _, report.isSuccess, rfl, Json.ofText?_render _ _,
      (Report.keyed_envelope hkeyed).sortKeys, Report.get?_success hkeyed, rfl⟩

theorem exitCode_printed (settings : Settings) (source : String) :
    (printed .json settings (analyze settings source)).exitCode = 0 ↔
      settings.Admits source ∧ ∃ c, Curriculum.ofSource source = .ok c := by
  rw [printed, ← exists_analyze_eq_ok_iff]
  cases hresult : (analyze settings source).result with
  | error r => simp [failed]
  | ok report =>
    have hverdict := Report.isVerdictOn_of_ofOutcome? (analyze_eq_ok_iff.1 hresult).2
    simp [Report.render, ← hverdict.isSuccess_iff]

/-- Settings or a source that cannot be read leave nothing to print. -/
theorem run_eq_failed {options : Options} {files : String → FileContent}
    (h : (∀ settings, loadSettings options files ≠ .ok settings) ∨
      ∀ source : String, files options.file ≠ .bytes source.toUTF8) :
    ∃ f, run options files = failed f := by
  rw [run]
  cases hsettings : loadSettings options files with
  | error f => exact ⟨f, rfl⟩
  | ok settings =>
    cases hsource : readSource (files options.file) with
    | error f => exact ⟨f, by simp⟩
    | ok source =>
      rcases h with h | h
      · exact absurd hsettings (h settings)
      · exact absurd (readSource_eq_ok_iff.1 hsource) (h source)

/-- **The exit code and the printed document tell the same.**  Settings are loaded from the bytes of
a file, and from those of a text as the text gives them; where no file is found they are the
standard ones.  Under the settings that are loaded, both tell of success exactly if they let the
source through and it describes a curriculum. -/
theorem exit_code_tells_success {args : List String} {options : Options}
    (hargs : request? args = some (.analyze options)) (files : String → FileContent) :
    (∀ settings, loadSettings options files = .ok settings ↔
        (settings = {} ∧ ∀ path ∈ options.config, ∃ reason, files path = .absent reason) ∨
          ∃ path ∈ options.config, ∃ content, files path = .bytes content ∧
            Settings.ofBytes? content = some settings) ∧
      (∀ path ∈ options.config, ∀ text : String, files path = .bytes text.toUTF8 →
        ∀ settings, loadSettings options files = .ok settings ↔
          Settings.ofText text = .ok settings) ∧
      (∀ settings source, loadSettings options files = .ok settings →
        files options.file = .bytes source.toUTF8 → options.format = .json →
          (invoke args files).SpeaksJson ∧
            ((invoke args files).exitCode = 0 ↔
              settings.Admits source ∧ ∃ c, Curriculum.ofSource source = .ok c)) ∧
      ((∀ settings, loadSettings options files ≠ .ok settings) ∨
          (∀ source : String, files options.file ≠ .bytes source.toUTF8) →
        (invoke args files).output = "" ∧ (invoke args files).exitCode = 1) := by
  have hinvoke : invoke args files = run options files := by rw [invoke, hargs]
  refine ⟨fun _ => loadSettings_eq_ok_iff, fun path hpath text hfile =>
    loadSettings_toUTF8 hpath hfile, fun settings source hsettings hfile hformat => ?_, fun h => ?_⟩
  · have hrun : run options files = printed .json settings (analyze settings source) := by
      rw [run, hsettings, readSource_eq_ok_iff.2 hfile, hformat]
    rw [hinvoke, hrun]
    exact ⟨speaksJson_printed settings source, exitCode_printed settings source⟩
  · obtain ⟨f, hf⟩ := run_eq_failed h
    rw [hinvoke, hf]
    exact ⟨rfl, rfl⟩

/-- A plan of one empty semester. -/
def bareSemester : String :=
  "Semestre: 1 \x7b\x7d"

/-- There is a file with this plan, one with settings that are no text, and no other file. -/
def onePlan (path : String) : FileContent :=
  if path = "plan.txt" then .bytes bareSemester.toUTF8
  else if path = "stray.json" then .bytes (Json.oneMember "x" [0xFF])
  else .absent missingText

/-- Settings that are not there do no harm, nor does a stray byte in settings, and a plan that is
taken for settings does. -/
theorem exit_code_tells_success_onePlan :
    (invoke ["-c", "none.json", "plan.txt"] onePlan).SpeaksJson ∧
      (invoke ["-c", "none.json", "plan.txt"] onePlan).exitCode = 0 ∧
      (invoke ["-c", "stray.json", "plan.txt"] onePlan).SpeaksJson ∧
      (invoke ["-c", "stray.json", "plan.txt"] onePlan).exitCode = 0 ∧
      (invoke ["-c", "plan.txt", "plan.txt"] onePlan).output = "" ∧
      (invoke ["-c", "plan.txt", "plan.txt"] onePlan).exitCode = 1 := by
  have hrequest : ∀ config ∈ ["none.json", "stray.json", "plan.txt"],
      request? ["-c", config, "plan.txt"] =
        some (.analyze { file := "plan.txt", config := some config }) := by
    decide +kernel
  simp only [List.forall_mem_cons] at hrequest
  obtain ⟨hnone, hstray, hplan, -⟩ := hrequest
  have hparsed : Curriculum.ofSource bareSemester = .ok (.ofEntries [.semester ⟨1, 1, []⟩]) := by
    decide +kernel
  have hrefused : Settings.ofText bareSemester = .error (.settings "Failed to parse config") := by
    decide +kernel
  have hadmits : ({} : Settings).Admits bareSemester ∧
      ∃ c, Curriculum.ofSource bareSemester = .ok c :=
    ⟨⟨by decide, nofun⟩, _, hparsed⟩
  obtain ⟨hloads, -, hprinted, -⟩ := exit_code_tells_success hnone onePlan
  have hstandard := (hloads {}).2 (.inl ⟨rfl, by rintro _ ⟨⟩; exact ⟨_, rfl⟩⟩)
  obtain ⟨hspeaks, hcode⟩ := hprinted _ bareSemester hstandard rfl rfl
  obtain ⟨hloads', -, hprinted', -⟩ := exit_code_tells_success hstray onePlan
  have hsettings := (hloads' {}).2 (.inr ⟨"stray.json", rfl, _, rfl,
    Settings.ofBytes?_ignoring (by decide) (List.forall_mem_singleton.2 (by decide))⟩)
  obtain ⟨hspeaks', hcode'⟩ := hprinted' _ bareSemester hsettings rfl rfl
  obtain ⟨-, htext, -, hfailed⟩ := exit_code_tells_success hplan onePlan
  have hnot : ∀ settings, loadSettings { file := "plan.txt", config := some "plan.txt" } onePlan ≠
      .ok settings := by
    intro settings hloaded
    have hok := (htext "plan.txt" rfl bareSemester rfl settings).1 hloaded
    cases hrefused.symm.trans hok
  exact ⟨hspeaks, hcode.2 hadmits, hspeaks', hcode'.2 hadmits, hfailed (.inl hnot)⟩

end CommandLine
end StudyPlan
