import StrictSchema.Command.Run
import StrictSchema.Proofs.Generation.Requests

/-!
# What a check reports

A check goes over the walks step by step, and what it does with a step is decided by the step alone
(`WalkStep.judge`, `check_cons`): it fails, passes on, or gives a verdict. A check that does not
stop early therefore prints the verdicts on the selected files in the order of the walks and then
the counts (`check_of_sound`), or, where a step is faulty, the verdicts before that step
(`check_append_of_faulty`). The verdict on a file is the one that the other commands come to,
because all of them take the form of the same schema (`FileText.form?`).
-/

namespace StrictSchema

/-! ## Files with schemas -/

namespace FileText

/-- The form of the schema in a file, if the file can be read and holds a schema. -/
def form? (text : FileText) : Option (Option Schema) :=
  text.toOption.bind fun t => (compileText t).toOption

/-- The file can be read and holds a schema with a strict form. -/
def HasForm (text : FileText) : Prop := ∃ r, form? text = some (some r)

instance (text : FileText) : Decidable (HasForm text) :=
  decidable_of_iff ((form? text).join.isSome = true) <| by
    rw [Option.isSome_iff_exists]
    exact exists_congr fun r => Option.join_eq_some_iff

variable {text : FileText} {path : String} {form : Option Schema}

theorem form?_ok (t : String) : form? (.ok t) = (compileText t).toOption := rfl

theorem hasForm_iff (h : form? text = some form) : HasForm text ↔ form.isSome := by
  rw [HasForm, h, Option.isSome_iff_exists]
  exact exists_congr fun r => Option.some_inj

theorem not_hasForm (h : form? text = none) : ¬ HasForm text := by
  rintro ⟨r, hr⟩
  rw [h] at hr
  cases hr

/-- The schema in a file is read, and then its form is the form in the file, or there is neither. -/
theorem schema_cases (text : FileText) (path : String) :
    (∃ s, schema text path = .ok s ∧ form? text = some (compile s)) ∨
      (∃ e, schema text path = .error e) ∧ form? text = none := by
  cases text with
  | error e => exact .inr ⟨⟨_, rfl⟩, rfl⟩
  | ok t =>
    simp only [form?_ok, compileText_eq]
    unfold schema FileText.json Schema.ofJson
    dsimp only [Except.mapError, bind, Except.bind]
    cases Json.read t with
    | error e => exact .inr ⟨⟨_, rfl⟩, rfl⟩
    | ok v =>
      dsimp only
      cases Schema.decode v with
      | error e => exact .inr ⟨⟨_, rfl⟩, rfl⟩
      | ok s => exact .inl ⟨_, rfl, rfl⟩

end FileText

/-! ## Steps -/

namespace WalkStep

variable (settings : CheckSettings)

/-- What a check finds at a step: a fault, nothing, or a verdict. -/
def judge : WalkStep → Except CommandError (Option Verdict)
  | .fault path e => .error (.walking path e)
  | .directory _ => .ok none
  | .link _ => .ok none
  | .file path text =>
    if settings.selects path then
      (FileText.isSupported text path).map fun supported => some ⟨path, supported⟩
    else .ok none

/-- The walk cannot go on, or it is at a selected file that cannot be read or holds no schema. -/
def IsFaulty : WalkStep → Prop
  | .fault _ _ => True
  | .directory _ => False
  | .link _ => False
  | .file path text => settings.selects path ∧ FileText.form? text = none

/-- The verdict on a selected file. -/
def verdict? : WalkStep → Option Verdict
  | .fault _ _ => none
  | .directory _ => none
  | .link _ => none
  | .file path text =>
    if settings.selects path then some ⟨path, decide (FileText.HasForm text)⟩ else none

variable {settings} {step : WalkStep}

theorem judge_of_faulty (h : step.IsFaulty settings) : ∃ e, step.judge settings = .error e := by
  cases step with
  | fault path e => exact ⟨_, rfl⟩
  | directory path => cases h
  | link path => cases h
  | file path text =>
    obtain ⟨selected, formless⟩ := h
    rw [judge, if_pos selected]
    rcases FileText.schema_cases text path with ⟨s, -, found⟩ | ⟨⟨e, he⟩, -⟩
    · rw [formless] at found
      cases found
    · rw [FileText.isSupported, he]
      exact ⟨e, rfl⟩

theorem judge_of_sound (h : ¬ step.IsFaulty settings) :
    step.judge settings = .ok (step.verdict? settings) := by
  cases step with
  | fault path e => exact absurd trivial h
  | directory path => rfl
  | link path => rfl
  | file path text =>
    rw [judge, verdict?]
    split_ifs with selected
    · rcases FileText.schema_cases text path with ⟨s, hs, found⟩ | ⟨-, formless⟩
      · simp only [FileText.hasForm_iff found, Bool.decide_eq_true]
        rw [FileText.isSupported, hs]
        rfl
      · exact absurd ⟨selected, formless⟩ h
    · rfl

end WalkStep

/-- The verdicts on the selected files, in order. -/
def verdictsOn (settings : CheckSettings) (steps : List WalkStep) : List Verdict :=
  steps.filterMap (WalkStep.verdict? settings)

/-! ## Reports -/

section Report

variable {settings : CheckSettings}

/-- All that a check does with a step. -/
theorem check_cons (step : WalkStep) (rest : List WalkStep) :
    check settings (step :: rest) = match step.judge settings with
      | .error e => ⟨[], .failed e⟩
      | .ok none => check settings rest
      | .ok (some v) =>
        if !v.supported && settings.failFast then ⟨[v], .stopped⟩
        else ⟨v :: (check settings rest).verdicts, (check settings rest).ending⟩ := by
  cases step with
  | fault path e => rfl
  | directory path => rfl
  | link path => rfl
  | file path text =>
    rw [check, WalkStep.judge]
    split_ifs with selected
    · cases FileText.isSupported text path <;> rfl
    · rfl

theorem check_cons_of_faulty {step : WalkStep} (h : step.IsFaulty settings)
    (rest : List WalkStep) : ∃ e, check settings (step :: rest) = ⟨[], .failed e⟩ := by
  obtain ⟨e, he⟩ := WalkStep.judge_of_faulty h
  rw [check_cons, he]
  exact ⟨e, rfl⟩

/-- Where no step is faulty, a check that does not stop early goes on with a verdict more for each
selected file. -/
theorem check_append (whole : settings.failFast = false) {before : List WalkStep}
    (sound : ∀ step ∈ before, ¬ step.IsFaulty settings) (rest : List WalkStep) :
    check settings (before ++ rest) =
      ⟨verdictsOn settings before ++ (check settings rest).verdicts,
        (check settings rest).ending⟩ := by
  induction before with
  | nil => rfl
  | cons step before ih =>
    obtain ⟨first, others⟩ := List.forall_mem_cons.1 sound
    rw [List.cons_append, check_cons, WalkStep.judge_of_sound first, ih others, whole, verdictsOn,
      verdictsOn, List.filterMap_cons]
    cases step.verdict? settings with
    | none => rfl
    | some v => simp

theorem check_of_sound (whole : settings.failFast = false) {steps : List WalkStep}
    (sound : ∀ step ∈ steps, ¬ step.IsFaulty settings) :
    check settings steps = ⟨verdictsOn settings steps, .finished⟩ := by
  have := check_append whole sound []
  rwa [List.append_nil, check, List.append_nil] at this

theorem check_append_of_faulty (whole : settings.failFast = false) {before : List WalkStep}
    (sound : ∀ step ∈ before, ¬ step.IsFaulty settings) {step : WalkStep}
    (faulty : step.IsFaulty settings) (after : List WalkStep) :
    ∃ e, check settings (before ++ step :: after) = ⟨verdictsOn settings before, .failed e⟩ := by
  obtain ⟨e, he⟩ := check_cons_of_faulty faulty after
  refine ⟨e, ?_⟩
  rw [check_append whole sound, he, List.append_nil]

end Report

/-! ## Outcomes -/

/-- The lines for verdicts. -/
def linesOf (verdicts : List Verdict) : String := String.join (verdicts.map Verdict.line)

theorem output_outcome (files : FileTree) (report : CheckReport) :
    (report.outcome files).output = report.text := by
  obtain ⟨verdicts, ending⟩ := report
  cases ending <;> rfl

theorem text_eq_linesOf {report : CheckReport} (h : report.ending ≠ .finished) :
    report.text = linesOf report.verdicts := by
  obtain ⟨verdicts, ending⟩ := report
  cases ending with
  | finished => exact absurd rfl h
  | stopped => exact String.append_empty
  | failed e => exact String.append_empty

theorem code_outcome_eq_one {report : CheckReport} (files : FileTree)
    (h : report.ending ≠ .finished) : (report.outcome files).status.code = 1 := by
  obtain ⟨verdicts, ending⟩ := report
  cases ending with
  | finished => exact absurd rfl h
  | stopped => rfl
  | failed e => rfl

/-- The outcome shows each verdict on a line and then how many there are of either kind, and is a
success if all are favourable. -/
structure Outcome.Sums (outcome : Outcome) (verdicts : List Verdict) : Prop where
  output : outcome.output = linesOf verdicts ++
    Text.concat ["\n", toString (verdicts.countP (·.supported)), " supported, ",
      toString (verdicts.countP (!·.supported)), " unsupported\n"]
  code : outcome.status.code = if ∀ v ∈ verdicts, v.supported then 0 else 1

theorem sums_outcome (files : FileTree) (verdicts : List Verdict) :
    (CheckReport.outcome files ⟨verdicts, .finished⟩).Sums verdicts := by
  refine ⟨rfl, ?_⟩
  have allSupported : (CheckReport.mk verdicts .finished).unsupported = 0 ↔
      ∀ v ∈ verdicts, v.supported := by
    rw [CheckReport.unsupported, List.countP_eq_zero]
    simp
  unfold CheckReport.outcome
  simp only [allSupported]
  split_ifs <;> rfl

/-! ## The other commands -/

section Command

variable (settings : Settings) (files : FileTree) (path : String)

theorem readSchema_eq : files.readSchema path = FileText.schema (files.readText path) path := rfl

/-- Compiling a file succeeds exactly if its schema has a form. -/
theorem code_compile : ((Command.compile path none).outcome settings files).status.code =
    if FileText.HasForm (files.readText path) then 0 else 1 := by
  unfold Command.outcome Command.run
  dsimp only
  unfold runCompile
  rw [readSchema_eq]
  rcases FileText.schema_cases (files.readText path) path with ⟨s, hs, found⟩ | ⟨⟨e, he⟩, formless⟩
  · simp only [hs, FileText.hasForm_iff found, bind, Except.bind]
    cases compile s <;> rfl
  · rw [he, if_neg (FileText.not_hasForm formless)]
    rfl

variable {reference : String} {m : ModuleRef}

/-- So does the request for the content of a module. -/
theorem code_request (named : ModuleRef.parse reference = .ok m) (description : Option String)
    (prompt : String) :
    ((Command.request reference description prompt path).outcome settings files).status.code =
      if FileText.HasForm (files.readText path) then 0 else 1 := by
  unfold Command.outcome Command.run
  dsimp only
  unfold runRequest
  rw [readSchema_eq, named]
  rcases FileText.schema_cases (files.readText path) path with ⟨s, hs, found⟩ | ⟨⟨e, he⟩, formless⟩
  · simp only [hs, FileText.hasForm_iff found, Except.mapError, bind, Except.bind]
    cases form : compile s with
    | none =>
      rw [GenerationRequest.forModule_of_compile_eq_none m description prompt settings.generation
        form]
      rfl
    | some r =>
      obtain ⟨request, built, -⟩ :=
        GenerationRequest.exists_forModule_of_compile m description prompt settings.generation form
      rw [built]
      rfl
  · rw [he, if_neg (FileText.not_hasForm formless)]
    rfl

end Command

/-! ## Walks over a tree -/

namespace Entry

/-- A file in a directory is a file at one of its entries. -/
theorem exists_of_mem_stepsInside {start path : String} {text : FileText}
    {entries : List (String × List WalkStep)} (h : .file path text ∈ stepsInside start entries) :
    ∃ name steps, (name, steps) ∈ entries ∧ .file path text ∈ steps := by
  unfold stepsInside at h
  split at h
  · cases List.mem_singleton.1 h
  · obtain ⟨⟨name, steps⟩, found, mem⟩ := List.mem_flatMap.1 h
    exact ⟨name, steps, List.mem_mergeSort.1 found, mem⟩

variable (read : String → FileText)

mutual

theorem text_of_mem_stepsUnder (entry : Entry) (start : String) {path : String} {text : FileText}
    (h : .file path text ∈ entry.stepsUnder read start) : text = read path := by
  cases entry with
  | file content =>
    rw [stepsUnder, List.mem_singleton] at h
    cases h
    rfl
  | directory entries =>
    rw [stepsUnder] at h
    rcases List.mem_cons.1 h with same | inside
    · cases same
    · obtain ⟨name, steps, found, mem⟩ := exists_of_mem_stepsInside inside
      exact text_of_mem_stepsOfEach entries start found mem
termination_by structural entry

theorem text_of_mem_stepsOfEach (entries : List (String × Entry)) (start : String) {name : String}
    {steps : List WalkStep} (found : (name, steps) ∈ stepsOfEach read start entries)
    {path : String} {text : FileText} (h : .file path text ∈ steps) : text = read path := by
  cases entries with
  | nil => cases found
  | cons first rest =>
    obtain ⟨other, entry⟩ := first
    rw [stepsOfEach] at found
    rcases List.mem_cons.1 found with here | later
    · cases here
      exact text_of_mem_stepsUnder entry _ h
    · exact text_of_mem_stepsOfEach rest start later h
termination_by structural entries

end

theorem text_of_mem_stepsBehind (entry : Entry) (start : String) {path : String} {text : FileText}
    (h : .file path text ∈ entry.stepsBehind read start) : text = read path := by
  cases entry with
  | file content => cases h
  | directory entries =>
    obtain ⟨name, steps, found, mem⟩ := exists_of_mem_stepsInside h
    exact text_of_mem_stepsOfEach read entries start found mem

end Entry

theorem FileTree.text_of_mem_walk (files : FileTree) {start path : String} {text : FileText}
    (h : .file path text ∈ files.walk start) : text = files.readText path := by
  unfold walk at h
  split at h
  · split at h
    · rcases List.mem_cons.1 h with same | behind
      · cases same
      · exact Entry.text_of_mem_stepsBehind _ _ _ behind
    · exact Entry.text_of_mem_stepsUnder _ _ _ h
  · cases List.mem_singleton.1 h

/-! ## The whole check -/

section Whole

variable {settings : Settings} (files : FileTree)

theorem checkWalks_sums (whole : settings.check.failFast = false) {walks : List (List WalkStep)}
    (sound : ∀ step ∈ walks.flatten, ¬ step.IsFaulty settings.check) :
    (checkWalks settings files walks).Sums (walks.flatMap (verdictsOn settings.check)) := by
  have verdicts : verdictsOn settings.check walks.flatten =
      walks.flatMap (verdictsOn settings.check) := by
    rw [verdictsOn, List.filterMap_flatten, List.flatMap_def]
    rfl
  rw [checkWalks, check_of_sound whole sound, verdicts]
  exact sums_outcome files _

theorem checkWalks_of_faulty (whole : settings.check.failFast = false)
    {walks : List (List WalkStep)} {before after : List WalkStep} {step : WalkStep}
    (met : walks.flatten = before ++ step :: after)
    (sound : ∀ step ∈ before, ¬ step.IsFaulty settings.check)
    (faulty : step.IsFaulty settings.check) :
    (checkWalks settings files walks).output = linesOf (verdictsOn settings.check before) ∧
      (checkWalks settings files walks).status.code = 1 := by
  obtain ⟨e, report⟩ := check_append_of_faulty whole sound faulty after
  have unfinished : CheckEnd.failed e ≠ .finished := nofun
  rw [checkWalks, met, report, output_outcome]
  exact ⟨text_eq_linesOf unfinished, code_outcome_eq_one files unfinished⟩

/-- A check that does not stop early tells of each file, in the order of the walks, whether its
schema has a form, which is whether the other commands succeed with it. If no step is faulty, the
counts follow and the code says whether all files have one; walks in another order give their
blocks of lines in this order, with the same counts and the same code. If a step is faulty, the
lines before the first such step are all that is printed, and the code is one. -/
theorem check_truthful (whole : settings.check.failFast = false) :
    (∀ walks, (∀ step ∈ walks.flatten, ¬ step.IsFaulty settings.check) →
      (checkWalks settings files walks).Sums (walks.flatMap (verdictsOn settings.check)) ∧
      ∀ others, others.Perm walks →
        (checkWalks settings files others).Sums (others.flatMap (verdictsOn settings.check)) ∧
        (others.map (verdictsOn settings.check)).Perm (walks.map (verdictsOn settings.check)) ∧
        (∀ counted, (others.flatMap (verdictsOn settings.check)).countP counted =
          (walks.flatMap (verdictsOn settings.check)).countP counted) ∧
        (checkWalks settings files others).status.code =
          (checkWalks settings files walks).status.code) ∧
    (∀ walks before step after, walks.flatten = before ++ step :: after →
      (∀ s ∈ before, ¬ s.IsFaulty settings.check) → step.IsFaulty settings.check →
      (checkWalks settings files walks).output = linesOf (verdictsOn settings.check before) ∧
      (checkWalks settings files walks).status.code = 1) ∧
    (∀ paths, (Command.check paths).outcome settings files =
      checkWalks settings files (paths.map files.walk)) ∧
    (∀ start path text, .file path text ∈ files.walk start → text = files.readText path) ∧
    ∀ path,
      ((Command.compile path none).outcome settings files).status.code =
        (if FileText.HasForm (files.readText path) then 0 else 1) ∧
      ∀ reference m description prompt, ModuleRef.parse reference = .ok m →
        ((Command.request reference description prompt path).outcome settings files).status.code =
          if FileText.HasForm (files.readText path) then 0 else 1 := by
  refine ⟨fun walks sound => ⟨checkWalks_sums files whole sound, fun others perm => ?_⟩,
    fun walks before step after met sound faulty =>
      checkWalks_of_faulty files whole met sound faulty,
    fun _ => rfl, fun _ _ _ => files.text_of_mem_walk,
    fun path => ⟨code_compile settings files path, fun _ _ description prompt named =>
      code_request settings files path named description prompt⟩⟩
  have othersSound : ∀ step ∈ others.flatten, ¬ step.IsFaulty settings.check :=
    fun step mem => sound step (perm.flatten.mem_iff.1 mem)
  have verdicts : (others.flatMap (verdictsOn settings.check)).Perm
      (walks.flatMap (verdictsOn settings.check)) := perm.flatMap_right _
  have sums := checkWalks_sums files whole othersSound
  refine ⟨sums, perm.map _, fun counted => verdicts.countP_eq counted, ?_⟩
  rw [sums.code, (checkWalks_sums files whole sound).code]
  simp only [verdicts.mem_iff]

end Whole

/-- A schema with a form. -/
def textSchema : String := "\x7b\"type\": \"string\"\x7d"

/-- A schema without a form. -/
def emptySchema : String := "\x7b\x7d"

/-- Walks over two schemas, a file of another kind, which cannot be read, and what is no file. -/
def mixedWalks : List (List WalkStep) :=
  [[.directory "d.json", .file "a.json" (.ok textSchema), .file "notes.md" (.error .notText)],
    [.link "l.json", .file "b.json" (.ok emptySchema)]]

/-- A file that holds no value. -/
def brokenStep : WalkStep := .file "c.json" (.ok "[")

/-- The files of `mixedWalks`. -/
def mixedFiles : FileTree where
  root := .directory [("a.json", .file (.text textSchema)), ("b.json", .file (.text emptySchema)),
    ("notes.md", .file .binary)]
  working := []

theorem sound_mixedWalks : ∀ step ∈ mixedWalks.flatten, ¬ step.IsFaulty {} := by
  have selected : CheckSettings.selects {} "notes.md" = false := by decide +kernel
  have typed : (FileText.form? (.ok textSchema)).isSome := by decide +kernel
  have untyped : (FileText.form? (.ok emptySchema)).isSome := by decide +kernel
  simp [mixedWalks, WalkStep.IsFaulty, selected, Option.isSome_iff_ne_none.1 typed,
    Option.isSome_iff_ne_none.1 untyped]

theorem faulty_brokenStep : brokenStep.IsFaulty {} := by
  have selected : CheckSettings.selects {} "c.json" = true := by decide +kernel
  have noSchema : (FileText.form? (.ok "[")).isNone := by decide +kernel
  exact ⟨selected, Option.isNone_iff_eq_none.1 noSchema⟩

theorem check_truthful_mixedWalks :
    (checkWalks {} mixedFiles mixedWalks).output =
        "  ✅ a.json\n  ❌ b.json - cannot be used for AI generation\n\n1 supported, 1 unsupported\n" ∧
      (checkWalks {} mixedFiles mixedWalks.reverse).output =
        "  ❌ b.json - cannot be used for AI generation\n  ✅ a.json\n\n1 supported, 1 unsupported\n" ∧
      (checkWalks {} mixedFiles mixedWalks.reverse).status.code = 1 ∧
      (checkWalks {} mixedFiles [mixedWalks.flatten ++ [brokenStep]]).output =
        "  ✅ a.json\n  ❌ b.json - cannot be used for AI generation\n" ∧
      ((Command.compile "a.json" none).outcome {} mixedFiles).status.code = 0 := by
  have whole : ({} : Settings).check.failFast = false := rfl
  obtain ⟨complete, failing, -, -, agree⟩ := check_truthful mixedFiles whole
  obtain ⟨sums, reordered⟩ := complete mixedWalks sound_mixedWalks
  obtain ⟨reversed, -, -, same⟩ := reordered mixedWalks.reverse (List.reverse_perm _)
  obtain ⟨printed, -⟩ := failing [mixedWalks.flatten ++ [brokenStep]] mixedWalks.flatten brokenStep
    [] rfl sound_mixedWalks faulty_brokenStep
  refine ⟨sums.output.trans ?_, reversed.output.trans ?_, reversed.code.trans ?_,
    printed.trans ?_, (agree "a.json").1.trans ?_⟩ <;> decide +kernel

end StrictSchema
