import StrictSchema.Proofs.Command.Check

/-!
# Stopping early

Whether a check stops at the first file without a form changes neither what it finds at a step nor
its exit code. A check that stops early reports what the other reports, up to and with the first
verdict that is not favourable (`check_failFast`), so its output is the beginning of the other's.
-/

namespace StrictSchema

/-- The same settings with or without an early stop. -/
def CheckSettings.withFailFast (settings : CheckSettings) (failFast : Bool) : CheckSettings :=
  { settings with failFast }

/-- The same settings with or without an early stop. -/
def Settings.withFailFast (settings : Settings) (failFast : Bool) : Settings :=
  { settings with check := settings.check.withFailFast failFast }

theorem judge_withFailFast (settings : CheckSettings) (failFast : Bool) (step : WalkStep) :
    step.judge (settings.withFailFast failFast) = step.judge settings := by
  cases step <;> rfl

/-- The two checks report the same if all verdicts are favourable. Otherwise the one that stops
early stops at the first that is not. -/
theorem check_failFast (settings : CheckSettings) (steps : List WalkStep) :
    (∀ v ∈ (check (settings.withFailFast false) steps).verdicts, v.supported) ∧
        check (settings.withFailFast true) steps = check (settings.withFailFast false) steps ∨
      ∃ before v after,
        (check (settings.withFailFast false) steps).verdicts = before ++ v :: after ∧
        (∀ u ∈ before, u.supported) ∧ v.supported = false ∧
        check (settings.withFailFast true) steps = ⟨before ++ [v], .stopped⟩ := by
  induction steps with
  | nil => exact .inl ⟨nofun, rfl⟩
  | cons step rest ih =>
    simp only [check_cons, judge_withFailFast]
    rcases step.judge settings with e | _ | v
    · exact .inl ⟨nofun, rfl⟩
    · exact ih
    · have slow : (settings.withFailFast false).failFast = false := rfl
      have fast : (settings.withFailFast true).failFast = true := rfl
      simp only [slow, fast, Bool.and_false, Bool.and_true, Bool.false_eq_true, if_false]
      cases supported : v.supported with
      | false => exact .inr ⟨[], v, _, rfl, nofun, supported, rfl⟩
      | true =>
        simp only [Bool.not_true, Bool.false_eq_true, if_false]
        rcases ih with ⟨favourable, same⟩ | ⟨before, u, after, found, favourable, bad, stopped⟩
        · exact .inl ⟨List.forall_mem_cons.2 ⟨supported, favourable⟩, by rw [same]⟩
        · refine .inr ⟨v :: before, u, after, by rw [found, List.cons_append],
            List.forall_mem_cons.2 ⟨supported, favourable⟩, bad, ?_⟩
          rw [stopped, List.cons_append]

/-! ## Outputs and codes -/

theorem linesOf_append (before after : List Verdict) :
    linesOf (before ++ after) = linesOf before ++ linesOf after := by
  rw [linesOf, List.map_append, String.join_append]
  rfl

/-- The output of a check begins with the lines for its verdicts. -/
theorem exists_output_outcome (files : FileTree) (report : CheckReport) :
    ∃ rest, (report.outcome files).output = linesOf report.verdicts ++ rest :=
  ⟨_, output_outcome files report⟩

theorem code_outcome_of_unsupported (files : FileTree) {report : CheckReport} {v : Verdict}
    (mem : v ∈ report.verdicts) (bad : v.supported = false) :
    (report.outcome files).status.code = 1 := by
  obtain ⟨verdicts, ending⟩ := report
  cases ending with
  | finished =>
    rw [(sums_outcome files verdicts).code, if_neg]
    intro favourable
    exact Bool.false_ne_true (bad.symm.trans (favourable v mem))
  | stopped => exact code_outcome_eq_one files nofun
  | failed e => exact code_outcome_eq_one files nofun

/-- A list is cut before its first verdict that is not favourable in one way only. -/
theorem cut_unique {before before' after after' : List Verdict} {v v' : Verdict}
    (cut : before ++ v :: after = before' ++ v' :: after') (good : ∀ u ∈ before, u.supported)
    (good' : ∀ u ∈ before', u.supported) (bad : v.supported = false) (bad' : v'.supported = false) :
    before = before' ∧ v = v' := by
  have firsts := congrArg (List.takeWhile (·.supported)) cut
  rw [List.takeWhile_append_of_pos good, List.takeWhile_append_of_pos good',
    List.takeWhile_cons_of_neg (by rw [bad]; exact Bool.false_ne_true),
    List.takeWhile_cons_of_neg (by rw [bad']; exact Bool.false_ne_true), List.append_nil,
    List.append_nil] at firsts
  rw [firsts] at cut
  exact ⟨firsts, (List.cons.inj (List.append_cancel_left cut)).1⟩

/-- The faster of two outcomes has the code of the slower one, whose output begins with a line for
each of the verdicts. Its own output is the beginning of the other's that ends with the first line
that is not favourable, and the whole of it if there is no such line. -/
structure Outcome.IsShortcut (fast slow : Outcome) (verdicts : List Verdict) : Prop where
  code : fast.status.code = slow.status.code
  begins : ∃ rest, slow.output = fast.output ++ rest
  lines : ∃ rest, slow.output = linesOf verdicts ++ rest
  ends : ∀ before v after, verdicts = before ++ v :: after → (∀ u ∈ before, u.supported) →
    v.supported = false → fast.output = linesOf (before ++ [v])
  same : (∀ v ∈ verdicts, v.supported) → fast.output = slow.output

theorem checkWalks_shortcut (settings : Settings) (files : FileTree)
    (walks : List (List WalkStep)) :
    (checkWalks (settings.withFailFast true) files walks).IsShortcut
      (checkWalks (settings.withFailFast false) files walks)
      (check (settings.withFailFast false).check walks.flatten).verdicts := by
  generalize hslow : checkWalks (settings.withFailFast false) files walks = slow
  generalize hfast : checkWalks (settings.withFailFast true) files walks = fast
  generalize hverdicts : (check (settings.withFailFast false).check walks.flatten).verdicts =
    verdicts
  have lines : ∃ rest, slow.output = linesOf verdicts ++ rest := by
    rw [← hslow, ← hverdicts]
    exact exists_output_outcome files _
  rcases check_failFast settings.check walks.flatten with
    ⟨favourable, same⟩ | ⟨before, v, after, found, favourable, bad, stopped⟩
  · have equal : fast = slow := by
      rw [← hslow, ← hfast]
      exact congrArg (CheckReport.outcome files) same
    replace favourable : ∀ v ∈ verdicts, v.supported := hverdicts ▸ favourable
    refine ⟨by rw [equal], ⟨"", by rw [equal, String.append_empty]⟩, lines, ?_,
      fun _ => by rw [equal]⟩
    intro before v after found _ bad
    have mem : v ∈ verdicts := found ▸ List.mem_append_right _ List.mem_cons_self
    exact absurd (bad.symm.trans (favourable v mem)) Bool.false_ne_true
  · have report : fast = CheckReport.outcome files ⟨before ++ [v], .stopped⟩ := by
      rw [← hfast]
      exact congrArg (CheckReport.outcome files) stopped
    have output : fast.output = linesOf (before ++ [v]) := by
      rw [report, output_outcome]
      exact text_eq_linesOf nofun
    replace found : verdicts = before ++ v :: after := hverdicts ▸ found
    have mem : v ∈ verdicts := found ▸ List.mem_append_right _ List.mem_cons_self
    refine ⟨?_, ?_, lines, ?_, ?_⟩
    · have unfinished : CheckEnd.stopped ≠ .finished := nofun
      rw [report, code_outcome_eq_one files unfinished, ← hslow]
      exact (code_outcome_of_unsupported files (hverdicts ▸ mem) bad).symm
    · obtain ⟨rest, hrest⟩ := lines
      refine ⟨linesOf after ++ rest, hrest.trans ?_⟩
      rw [output, found, ← String.append_assoc, ← linesOf_append, List.append_assoc,
        List.singleton_append]
    · intro before' v' after' cut good bad'
      obtain ⟨rfl, rfl⟩ := cut_unique (found.symm.trans cut) favourable good bad bad'
      exact output
    · intro good
      exact absurd (bad.symm.trans (good v mem)) Bool.false_ne_true

/-- A check that stops early is a shortcut to one that does not, whatever walks come across. So it
is as a command, over the walks that start at its paths. -/
theorem failFast_shortcut (settings : Settings) (files : FileTree) :
    (∀ walks,
      (checkWalks (settings.withFailFast true) files walks).IsShortcut
        (checkWalks (settings.withFailFast false) files walks)
        (check (settings.withFailFast false).check walks.flatten).verdicts) ∧
    ∀ paths,
      ((Command.check paths).outcome (settings.withFailFast true) files).IsShortcut
        ((Command.check paths).outcome (settings.withFailFast false) files)
        (check (settings.withFailFast false).check (paths.flatMap files.walk)).verdicts :=
  ⟨checkWalks_shortcut settings files, fun paths =>
    List.flatMap_def ▸ checkWalks_shortcut settings files (paths.map files.walk)⟩

/-- The first two of three steps have verdicts, of which the second is not favourable, and the third
is faulty: only the slower check gets there, and both fail. -/
theorem failFast_shortcut_brokenStep :
    let walks := [mixedWalks.flatten ++ [brokenStep]]
    (checkWalks (Settings.withFailFast {} true) mixedFiles walks).output =
        "  ✅ a.json\n  ❌ b.json - cannot be used for AI generation\n" ∧
      (checkWalks (Settings.withFailFast {} true) mixedFiles walks).status.code = 1 ∧
      (checkWalks (Settings.withFailFast {} false) mixedFiles walks).status.code = 1 := by
  intro walks
  have shortcut := (failFast_shortcut {} mixedFiles).1 walks
  have found : (check (Settings.withFailFast {} false).check walks.flatten).verdicts =
      [⟨"a.json", true⟩] ++ ⟨"b.json", false⟩ :: [] := by decide +kernel
  have printed := shortcut.ends _ _ _ found (List.forall_mem_singleton.2 rfl) rfl
  have slow : (checkWalks (Settings.withFailFast {} false) mixedFiles walks).status.code = 1 := by
    decide +kernel
  exact ⟨printed.trans (by decide +kernel), shortcut.code.trans slow, slow⟩

end StrictSchema
