import MethodHistory.CommandLine.Report
import MethodHistory.Proofs.Run.Consistency
import MethodHistory.Proofs.Settings

/-!
This module contains what a command line ends with that is followed: a status for each run that is
gone through, and for each obstacle to it that is foreseen.
-/

namespace MethodHistory
namespace CommandLine

section

variable {ε ε' α β : Type} {result : Except ε α} {next : α → Except ε β}

theorem exists_of_bind {b : β} (h : (result >>= next) = .ok b)
    : ∃ a, result = .ok a ∧ next a = .ok b := by
  cases result with
  | ok a => exact ⟨a, rfl, h⟩
  | error fault => cases h

theorem error_of_bind {fault : ε} (h : (result >>= next) = .error fault)
    : result = .error fault ∨ ∃ a, result = .ok a ∧ next a = .error fault := by
  cases result with
  | ok a => exact .inr ⟨a, rfl, h⟩
  | error other =>
    cases h
    exact .inl rfl

theorem ok_of_mapError {f : ε → ε'} {a : α} (h : result.mapError f = .ok a) : result = .ok a := by
  cases result with
  | ok b =>
    cases h
    rfl
  | error fault => cases h

theorem error_of_mapError {f : ε → ε'} {fault : ε'} (h : result.mapError f = .error fault)
    : ∃ cause, result = .error cause ∧ f cause = fault := by
  cases result with
  | ok a => cases h
  | error cause =>
    cases h
    exact ⟨cause, rfl, rfl⟩

end

/-! Arguments with values of the right kinds -/

namespace Arguments

variable {arguments next : Arguments}

def IsMeant (arguments : Arguments) : Prop :=
  ∀ x ∈ arguments.settings, ∃ name ∈ Settings.names, x.1 = .ofText name
    ∧ Settings.isMeant name x.2

theorem isMeant_none : none.IsMeant := by
  intro x hx
  cases hx

theorem IsMeant.set (h : arguments.IsMeant) {name : String} {value : Json}
    (hname : name ∈ Settings.names) (hvalue : Settings.isMeant name value)
    : (arguments.set name value).IsMeant := by
  intro x hx
  rcases List.mem_append.1 hx with hx | hx
  . exact h x hx
  . cases List.mem_singleton.1 hx
    exact ⟨name, hname, rfl, hvalue⟩

theorem IsMeant.take (h : arguments.IsMeant) {switch : Switch} {value : String}
    (htake : arguments.take switch value = .ok next) : next.IsMeant := by
  cases switch with
  | help => cases htake
  | verbose =>
    cases htake
    exact h
  | config =>
    cases htake
    exact h
  | limit =>
    rw [Arguments.take] at htake
    split at htake
    next =>
      cases htake
      exact h.set (by decide) rfl
    next => cases htake
  | mode =>
    rw [Arguments.take] at htake
    split at htake
    next =>
      cases htake
      exact h.set (by decide) rfl
    next => cases htake
  | _ =>
    cases htake
    exact h.set (by decide) rfl

theorem IsMeant.takeAll (h : arguments.IsMeant) {switches : List Switch} {value : String}
    (htake : switches.foldlM (fun arguments switch => arguments.take switch value) arguments
      = .ok next)
    : next.IsMeant := by
  induction switches generalizing arguments with
  | nil =>
    cases htake
    exact h
  | cons switch switches ih =>
    rw [List.foldlM_cons] at htake
    obtain ⟨first, hfirst, htake⟩ := exists_of_bind htake
    exact ih (h.take hfirst) htake

def lacksValue (mention : Mention) : Prop :=
  mention.switch.takesValue ∧ mention.value = some "--"

theorem IsMeant.follow (h : arguments.IsMeant) {mention : Mention} (hvalue : ¬lacksValue mention)
    (hfollow : arguments.follow mention = .ok next) : next.IsMeant := by
  rw [Arguments.follow] at hfollow
  split at hfollow
  next => exact h.take hfollow
  next value hsome =>
    split at hfollow
    next htakes =>
      split at hfollow
      next heq => exact absurd ⟨htakes, heq ▸ hsome⟩ hvalue
      next => exact h.take hfollow
    next =>
      split at hfollow
      next => cases hfollow
      next =>
        obtain ⟨switches, -, htake⟩ := exists_of_bind hfollow
        exact h.takeAll htake

theorem IsMeant.place (h : arguments.IsMeant) (text : String) : (arguments.place text).IsMeant := by
  rw [Arguments.place]
  split <;> exact h

theorem IsMeant.read (h : arguments.IsMeant) {words : List Word}
    (hwords : ∀ mention, .option mention ∈ words → ¬lacksValue mention)
    (hread : arguments.read words = .ok next) : next.IsMeant := by
  have htail {word : Word} {words : List Word}
      (hwords : ∀ mention, .option mention ∈ word :: words → ¬lacksValue mention)
      : ∀ mention, .option mention ∈ words → ¬lacksValue mention :=
    fun mention hmem => hwords mention (List.mem_cons_of_mem _ hmem)
  fun_induction Arguments.read arguments words with
  | case1 =>
    cases hread
    exact h
  | case2 arguments text words ih => exact ih h (htail hwords) hread
  | case3 arguments mention _ value words ih =>
    obtain ⟨taken, htake, hread⟩ := exists_of_bind hread
    exact ih taken (h.take htake) (htail (htail hwords)) hread
  | case4 => cases hread
  | case5 arguments mention words _ ih =>
    obtain ⟨followed, hfollow, hread⟩ := exists_of_bind hread
    exact ih followed (h.follow (hwords mention List.mem_cons_self) hfollow) (htail hwords) hread
  | case6 arguments text words _ ih => exact ih (h.place text) (htail (htail hwords)) hread
  | case7 arguments text words _ ih => exact ih h (htail hwords) hread
  | case8 arguments text words _ ih => exact ih (h.place text) (htail (htail hwords)) hread
  | case9 arguments text words _ ih => exact ih h (htail hwords) hread
  | case10 arguments words _ ih => exact ih h (htail hwords) hread
  | case11 arguments text words _ ih => exact ih (h.place text) (htail hwords) hread

/--
Texts among which no option is followed by an equals sign and a separator.
-/
def HaveValues (texts : List String) : Prop :=
  ∀ words, Word.ofTexts texts = .ok words →
    ∀ mention, .option mention ∈ words → ¬lacksValue mention

theorem isMeant_ofTexts {texts : List String} (htexts : HaveValues texts)
    (h : ofTexts texts = .ok arguments) : arguments.IsMeant := by
  rw [ofTexts] at h
  obtain ⟨words, hwords, h⟩ := exists_of_bind h
  obtain ⟨read, hread, h⟩ := exists_of_bind h
  have hread : read.IsMeant := by
    apply isMeant_none.read _ hread
    exact htexts words (ok_of_mapError hwords)
  dsimp only at h
  split at h
  next => cases h
  next =>
    split at h
    next => cases h
    next =>
      cases h
      exact hread

theorem isMeant_of_mem_values (h : arguments.IsMeant) {x : Text.Loose × Json}
    (hx : x ∈ arguments.values)
    : ∃ name ∈ Settings.names, x.1 = .ofText name ∧ Settings.isMeant name x.2 := by
  rcases List.mem_cons.1 hx with rfl | hx
  . exact ⟨"repo", by decide, rfl, rfl⟩
  . exact h x hx

theorem IsMeant.areMeant (h : arguments.IsMeant) : Settings.AreMeant arguments.values := by
  intro x hx name _ hname
  obtain ⟨other, -, heq, hmeant⟩ := isMeant_of_mem_values h hx
  rw [heq] at hname
  cases hname
  exact hmeant

theorem IsMeant.isName (h : arguments.IsMeant) {x : Text.Loose × Json} (hx : x ∈ arguments.values)
    : Settings.isName x.1 := by
  obtain ⟨name, hname, heq, -⟩ := isMeant_of_mem_values h hx
  rw [heq, Settings.isName, Text.Loose.text?_ofText, Option.any_some, List.contains_iff_mem]
  exact hname

end Arguments

/-! Obstacles -/

/--
Why a run is not gone through: for want of settings, of a job to start or of a source, because what
it finds cannot be written, or because it is interrupted or fails.
-/
inductive Obstacle where
  | settings (fault : SettingsFault)
  | output (fault : OutputFault)
  | job (failure : Failure)
  | interrupted
  | mining (failure : Failure)

namespace Obstacle

def isForeseen : Obstacle → Bool
  | settings fault => fault.isOfValue
  | job failure | mining failure => isKnown failure
  | output _ | interrupted => false

def ofOpening : OpeningFault → Obstacle
  | .interrupted => interrupted
  | .failed failure => mining failure

def ofHalt : Halt → Obstacle
  | .interrupted _ => interrupted
  | .unwritten trouble => output (.content trouble)

def ofBreak : Break → Obstacle
  | .refused failure => job failure
  | .interrupted => interrupted
  | .unwritten trouble => output (.content trouble)
  | .failed failure => mining failure

def ofEscape : Escape → Obstacle
  | .settings fault => settings fault
  | .output fault => output fault
  | .failure failure => mining failure

def escape : Obstacle → Escape
  | settings fault => .settings fault
  | output fault => .output fault
  | job failure | mining failure => .failure failure
  | interrupted => .failure .cancelled

end Obstacle

variable (environment : Environment) (arguments : Arguments)

def miningOf (job : Job) (sink : Sink) : Except Obstacle (Outcome Progress) := do
  let project ← job.projectName.mapError fun misuse => .job (.misuse misuse)
  let source ← (environment.connect job.opening).mapError .ofOpening
  let outcome ← (job.run project environment.limits environment.engine source sink).mapError .job
  (environment.halt? outcome).elim (.ok ⟨⟩) fun halt => .error (.ofHalt halt)
  let _ ← outcome.result.mapError .mining
  pure outcome

def whileOpen {α : Type} (path : Option String) (result : Except Obstacle α) : Except Obstacle α :=
  match path, environment.unclosed? with
  | some _, some trouble => .error (.output (.content trouble))
  | _, _ => result

def attempt : Except Obstacle (Outcome Progress) := do
  let (settings, _) ← (settingsOf environment arguments).mapError .settings
  let (path, sink) ← (sinkOf environment settings).mapError .ofEscape
  whileOpen environment path (miningOf environment (jobOf settings) sink)

def endingOf : Except Obstacle (Outcome Progress) → Ending
  | .ok outcome =>
    .status (if outcome.run.phase = .cancelled then Report.interrupted else Report.success)
  | .error .interrupted => .status Report.interrupted
  | .error obstacle =>
    if obstacle.isForeseen then .status Report.failure else .escaped obstacle.escape

variable {environment arguments}

theorem ending_conclude (path : Option String) (mined : Mined)
    : (conclude path mined).ending = endingOf (mined.result.mapError .ofBreak) := by
  rw [conclude]
  cases mined.result with
  | ok outcome => rfl
  | error cause =>
    cases cause with
    | interrupted => rfl
    | unwritten trouble => rfl
    | refused failure | failed failure =>
      dsimp only
      split
      next h => exact (if_pos h).symm
      next h => exact (if_neg h).symm

theorem result_mine (job : Job) (sink : Sink)
    : (mine environment job sink).result.mapError .ofBreak = miningOf environment job sink := by
  rw [mine, miningOf]
  cases job.projectName with
  | error misuse => rfl
  | ok project =>
    dsimp only [Except.mapError, bind, Except.bind]
    cases environment.connect job.opening with
    | error fault => cases fault <;> rfl
    | ok source =>
      dsimp only
      cases job.run project environment.limits environment.engine source sink with
      | error failure => rfl
      | ok outcome =>
        dsimp only
        cases environment.halt? outcome with
        | some halt => cases halt <;> rfl
        | none =>
          dsimp only [Option.elim]
          cases outcome.result <;> rfl

theorem result_close (path : Option String) (mined : Mined)
    : (mined.close environment path).result.mapError .ofBreak
        =
      whileOpen environment path (mined.result.mapError .ofBreak) := by
  rw [Mined.close.eq_def, whileOpen.eq_def]
  cases path with
  | none => rfl
  | some path => cases environment.unclosed? <;> rfl

theorem ending_of_sinkOf {settings : Settings} {escape : Escape}
    (h : sinkOf environment settings = .error escape)
    : endingOf (.error (.ofEscape escape)) = .escaped escape := by
  rw [sinkOf] at h
  split at h
  next =>
    split at h
    next =>
      split at h
      next =>
        cases h
        rfl
      next => cases h
    next =>
      cases h
      rfl
  next => cases h

theorem ending_report {texts : List String} (h : Arguments.ofTexts texts = .ok arguments)
    : (report environment texts).ending = endingOf (attempt environment arguments) := by
  rw [report, h]
  dsimp only
  rw [attempt]
  cases settingsOf environment arguments with
  | error fault =>
    change _ = if fault.isOfValue then _ else _
    dsimp only
    split <;> rfl
  | ok found =>
    obtain ⟨settings, warnings⟩ := found
    change _ = endingOf ((sinkOf environment settings).mapError .ofEscape >>= _)
    dsimp only
    cases hsink : sinkOf environment settings with
    | error escape => exact (ending_of_sinkOf hsink).symm
    | ok opened =>
      change _ = endingOf (whileOpen environment opened.1 _)
      dsimp only
      rw [ending_conclude, result_close, result_mine]

/-! What stands in the way of a run -/

theorem attempt_of_fault {fault : SettingsFault}
    (h : settingsOf environment arguments = .error fault)
    : attempt environment arguments = .error (.settings fault) := by
  rw [attempt, h]
  rfl

theorem eq_of_whileOpen {α : Type} {path : Option String} {result : Except Obstacle α} {a : α}
    (h : whileOpen environment path result = .ok a) : result = .ok a := by
  rw [whileOpen.eq_def] at h
  split at h
  next => cases h
  next => exact h

theorem error_of_whileOpen {α : Type} {path : Option String} {result : Except Obstacle α}
    {obstacle : Obstacle} (h : whileOpen environment path result = .error obstacle)
    : (∃ fault, obstacle = .output fault) ∨ result = .error obstacle := by
  rw [whileOpen.eq_def] at h
  split at h
  next trouble _ _ =>
    cases h
    exact .inl ⟨_, rfl⟩
  next => exact .inr h

theorem phase_of_attempt {outcome : Outcome Progress}
    (h : attempt environment arguments = .ok outcome)
    : outcome.run.phase = .completed ∨ outcome.run.phase = .cancelled := by
  rw [attempt] at h
  obtain ⟨⟨settings, warnings⟩, -, h⟩ := exists_of_bind h
  obtain ⟨⟨path, sink⟩, -, h⟩ := exists_of_bind h
  have h := eq_of_whileOpen h
  rw [miningOf] at h
  obtain ⟨project, -, h⟩ := exists_of_bind h
  obtain ⟨source, -, h⟩ := exists_of_bind h
  obtain ⟨run, hrun, h⟩ := exists_of_bind h
  obtain ⟨_, -, h⟩ := exists_of_bind h
  obtain ⟨tally, htally, h⟩ := exists_of_bind h
  cases h
  have hrun := ok_of_mapError hrun
  have htally := ok_of_mapError htally
  rw [Job.run] at hrun
  split at hrun
  next => cases hrun
  next =>
    cases hrun
    have hcases := Miner.run_cases ((jobOf settings).miner project environment.limits
      environment.engine source)
      (jobOf settings).request (Miner.initial sink .empty false)
    rcases hcases with ⟨hphase, -⟩ | ⟨hphase, -⟩ | ⟨-, failure, hfailure, -⟩
    . exact .inl hphase
    . exact .inr hphase
    . rw [hfailure] at htally
      cases htally

theorem gives_settingsOf (h : arguments.IsMeant)
    (hfile : ∀ path ∈ arguments.config, Settings.IsMeantFile path (environment.settingsFile path))
    : Settings.Gives (·.1.IsTyped) (settingsOf environment arguments) := by
  have hrepository : (.ofText "repo", .text (arguments.repository.getD "")) ∈ arguments.values :=
    List.mem_cons_self
  have hnames (x) (hx : x ∈ arguments.values) : Settings.isName x.1 := h.isName hx
  have hvalidate (found : Settings × List String) (hfound : found.1.IsTyped)
      : Settings.Gives (·.1.IsTyped) (do found.1.validate; pure found) :=
    (Settings.gives_validate hfound).bind fun _ _ => hfound
  rw [settingsOf]
  split
  next path hpath =>
    have hconfig := (Option.filter_eq_some_iff.1 hpath).1
    exact (Settings.gives_ofFile _ (hfile path hconfig) h.areMeant hnames hrepository).bind
      hvalidate
  next =>
    have hsettings := Settings.gives_ofValues environment.token h.areMeant hnames
      (Settings.isSome_lookup hrepository)
    apply Settings.Gives.bind (hsettings.map _) hvalidate
    intro settings h
    exact h

theorem output_of_sinkOf {settings : Settings} (h : settings.IsTyped) {escape : Escape}
    (hsink : sinkOf environment settings = .error escape)
    : ∃ fault, escape = .output fault := by
  rw [sinkOf] at hsink
  split at hsink
  next htrue =>
    rcases Bool.or_eq_true_iff.1 h.output with hnull | htext
    . rw [Settings.eq_null hnull] at htrue
      contradiction
    . obtain ⟨path, hpath⟩ := Settings.exists_text htext
      rw [hpath] at hsink
      dsimp only at hsink
      split at hsink
      next fault _ =>
        cases hsink
        exact ⟨fault, rfl⟩
      next => cases hsink
  next => cases hsink

theorem exists_projectName {settings : Settings} (h : settings.IsTyped)
    : ∃ project, (jobOf settings).projectName = .ok project := by
  obtain ⟨repository, heq⟩ := Settings.exists_text h.repository
  have hopening : (jobOf settings).opening.repository = .text repository := heq
  rw [Job.projectName, hopening]
  split <;> exact ⟨_, rfl⟩

theorem exists_run {settings : Settings} (h : settings.IsTyped) (project : ProjectName)
    (limits : NameLimits) (engine : Engine) (source : Source) (sink : Sink)
    : ∃ outcome, (jobOf settings).run project limits engine source sink = .ok outcome := by
  obtain ⟨mode, heq⟩ := h.mode
  have hmode : (jobOf settings).request.mode = .ok mode := by
    rw [jobOf, heq]
  rw [Job.run, hmode]
  exact ⟨_, rfl⟩

theorem obstacle_of_miningOf {settings : Settings} (h : settings.IsTyped) {sink : Sink}
    {obstacle : Obstacle} (hmining : miningOf environment (jobOf settings) sink = .error obstacle)
    : (∃ fault, obstacle = .output fault) ∨ obstacle = .interrupted
        ∨ ∃ failure, obstacle = .mining failure := by
  rw [miningOf] at hmining
  obtain ⟨project, hproject⟩ := exists_projectName h
  rcases error_of_bind hmining with hnone | ⟨project, -, hmining⟩
  . rw [hproject] at hnone
    cases hnone
  rcases error_of_bind hmining with hsource | ⟨source, -, hmining⟩
  . obtain ⟨fault, -, rfl⟩ := error_of_mapError hsource
    cases fault with
    | interrupted => exact .inr (.inl rfl)
    | failed failure => exact .inr (.inr ⟨failure, rfl⟩)
  obtain ⟨outcome, hrun⟩ := exists_run h project environment.limits environment.engine source sink
  rcases error_of_bind hmining with hnone | ⟨outcome, -, hmining⟩
  . rw [hrun] at hnone
    cases hnone
  rcases error_of_bind hmining with hhalt | ⟨_, -, hmining⟩
  . cases hhalts : environment.halt? outcome with
    | none =>
      rw [hhalts] at hhalt
      cases hhalt
    | some halt =>
      rw [hhalts] at hhalt
      cases hhalt
      cases halt with
      | interrupted emitted => exact .inr (.inl rfl)
      | unwritten trouble => exact .inl ⟨_, rfl⟩
  rcases error_of_bind hmining with hresult | ⟨tally, -, hmining⟩
  . obtain ⟨failure, -, rfl⟩ := error_of_mapError hresult
    exact .inr (.inr ⟨failure, rfl⟩)
  cases hmining

theorem obstacle_of_isTyped {obstacle : Obstacle}
    (h : Settings.Gives (·.1.IsTyped) (settingsOf environment arguments))
    (hattempt : attempt environment arguments = .error obstacle)
    : (∃ fault, obstacle = .settings fault ∧ fault.isOfValue) ∨ (∃ fault, obstacle = .output fault)
        ∨ obstacle = .interrupted ∨ ∃ failure, obstacle = .mining failure := by
  rw [attempt] at hattempt
  rcases error_of_bind hattempt with hsettings | ⟨⟨settings, warnings⟩, hsettings, hattempt⟩
  . obtain ⟨fault, hfault, rfl⟩ := error_of_mapError hsettings
    rw [hfault] at h
    exact .inl ⟨fault, rfl, h⟩
  rw [ok_of_mapError hsettings] at h
  rcases error_of_bind hattempt with hsink | ⟨⟨path, sink⟩, -, hattempt⟩
  . obtain ⟨escape, hescape, rfl⟩ := error_of_mapError hsink
    obtain ⟨fault, rfl⟩ := output_of_sinkOf h hescape
    exact .inr (.inl ⟨fault, rfl⟩)
  rcases error_of_whileOpen hattempt with houtput | hmining
  . exact .inr (.inl houtput)
  . exact .inr (obstacle_of_miningOf h hmining)

/-! Endings -/

theorem endingOf_of_completed {outcome : Outcome Progress} (h : outcome.run.phase = .completed)
    : endingOf (.ok outcome) = .status Report.success := by
  rw [endingOf, h]
  rfl

theorem endingOf_of_cancelled {outcome : Outcome Progress} (h : outcome.run.phase = .cancelled)
    : endingOf (.ok outcome) = .status Report.interrupted := by
  rw [endingOf, if_pos h]

theorem endingOf_of_isForeseen {obstacle : Obstacle} (h : obstacle.isForeseen)
    : endingOf (.error obstacle) = .status Report.failure := by
  rw [endingOf, if_pos h]
  rintro rfl
  contradiction

theorem endingOf_of_not_isForeseen {obstacle : Obstacle} (hne : obstacle ≠ .interrupted)
    (h : obstacle.isForeseen = false)
    : endingOf (.error obstacle) = .escaped obstacle.escape := by
  rw [endingOf, if_neg (by simp [h])]
  exact hne

theorem isForeseen_of_isMeant {texts : List String} (h : Arguments.ofTexts texts = .ok arguments)
    (htexts : Arguments.HaveValues texts)
    (hfile : ∀ path ∈ arguments.config, Settings.IsMeantFile path (environment.settingsFile path))
    (houtput : ∀ fault, attempt environment arguments ≠ .error (.output fault))
    (hmining : ∀ failure, attempt environment arguments = .error (.mining failure) →
      isKnown failure)
    {obstacle : Obstacle} (hattempt : attempt environment arguments = .error obstacle)
    (hne : obstacle ≠ .interrupted) : obstacle.isForeseen := by
  have hsettings := gives_settingsOf (Arguments.isMeant_ofTexts htexts h) hfile
  rcases obstacle_of_isTyped hsettings hattempt with
    ⟨fault, rfl, hvalue⟩ | ⟨fault, rfl⟩ | rfl | ⟨failure, rfl⟩
  . exact hvalue
  . exact absurd hattempt (houtput fault)
  . exact absurd rfl hne
  . exact hmining failure hattempt

/--
A command line that is followed ends with a status, unless an obstacle comes up that is not
foreseen: a fault of settings that is not one of their values, an output that cannot be opened,
written or closed, or a failure that mining is not known for. Values of the right kinds make no such
settings.
-/
theorem report_ends_by_attempt {texts : List String} (h : Arguments.ofTexts texts = .ok arguments)
    : let ending := (report environment texts).ending
      let attempted := attempt environment arguments
      (ending = .status Report.success
          ↔ ∃ outcome, attempted = .ok outcome ∧ outcome.run.phase = .completed)
        ∧ (ending = .status Report.interrupted
          ↔ attempted = .error .interrupted
            ∨ ∃ outcome, attempted = .ok outcome ∧ outcome.run.phase = .cancelled)
        ∧ (ending = .status Report.failure
          ↔ ∃ obstacle, attempted = .error obstacle ∧ obstacle.isForeseen)
        ∧ ((∀ code, ending ≠ .status code)
          ↔ ∃ obstacle, attempted = .error obstacle ∧ obstacle ≠ .interrupted
            ∧ obstacle.isForeseen = false)
        ∧ (Arguments.HaveValues texts →
          (∀ path ∈ arguments.config,
            Settings.IsMeantFile path (environment.settingsFile path)) →
          (∀ fault, attempted ≠ .error (.output fault)) →
          (∀ failure, attempted = .error (.mining failure) → isKnown failure) →
          ∃ code ∈ [Report.success, Report.failure, Report.interrupted],
            ending = .status code) := by
  intro ending attempted
  have hending : ending = endingOf attempted := ending_report h
  have hcodes : Report.success ≠ Report.interrupted ∧ Report.success ≠ Report.failure
      ∧ Report.interrupted ≠ Report.failure := by
    decide
  obtain ⟨hinterrupted, hfailure, hne⟩ := hcodes
  cases hattempt : attempted with
  | ok outcome =>
    rcases phase_of_attempt hattempt with hphase | hphase
    . rw [hending, hattempt, endingOf_of_completed hphase]
      simp [hphase, hinterrupted, hfailure]
    . rw [hending, hattempt, endingOf_of_cancelled hphase]
      simp [hphase, hinterrupted.symm, hne]
  | error obstacle =>
    by_cases hstop : obstacle = .interrupted
    . subst hstop
      rw [hending, hattempt, endingOf]
      simp [Obstacle.isForeseen, hinterrupted.symm, hne]
    by_cases hforeseen : obstacle.isForeseen
    . rw [hending, hattempt, endingOf_of_isForeseen hforeseen]
      simp [hstop, hforeseen, hfailure.symm, hne.symm]
    . rw [Bool.not_eq_true] at hforeseen
      refine ⟨?_, ?_, ?_, ?_, ?_⟩
      . rw [hending, hattempt, endingOf_of_not_isForeseen hstop hforeseen]
        simp
      . rw [hending, hattempt, endingOf_of_not_isForeseen hstop hforeseen]
        simp [hstop]
      . rw [hending, hattempt, endingOf_of_not_isForeseen hstop hforeseen]
        simp [hforeseen]
      . rw [hending, hattempt, endingOf_of_not_isForeseen hstop hforeseen]
        simp [hstop, hforeseen]
      . intro htexts hfile houtput hmining
        rw [← hattempt] at houtput hmining
        exact absurd (isForeseen_of_isMeant h htexts hfile houtput hmining hattempt hstop)
          (by simp [hforeseen])

/-! Command lines of which one sets a limit of no records, and one reads a limit that is a text -/

namespace Sample

def untyped : Environment where
  token := .null
  settingsFile _ := .ok "\x7b\"record_limit\": \"5\"\x7d".toUTF8
  outputFile _ := .ok ""
  limits := Sample.limits
  engine := Sample.engine
  connect _ := .error .interrupted
  halt? _ := none
  unclosed? := none

end Sample

theorem report_ends_with_limit_zero
    : let texts := ["/r", "--limit", "0"]
      Arguments.ofTexts texts = .ok ⟨some "/r", [("record_limit", .whole 0)], none, false, []⟩
        ∧ Arguments.HaveValues texts
        ∧ (report Sample.untyped texts).ending = .status Report.failure
        ∧ ∃ code ∈ [Report.success, Report.failure, Report.interrupted],
          (report Sample.untyped texts).ending = .status code := by
  intro texts
  have h : Arguments.ofTexts texts
      = .ok ⟨some "/r", [("record_limit", .whole 0)], none, false, []⟩ := by
    cbv
  have hwords : Word.ofTexts texts
      = .ok [.plain "/r", .option ⟨.limit, "--limit", none⟩, .plain "0"] := by
    cbv
  have htexts : Arguments.HaveValues texts := by
    intro words heq mention hmention
    cases hwords.symm.trans heq
    simp only [List.mem_cons, List.not_mem_nil, or_false, false_or, reduceCtorEq,
      Word.option.injEq] at hmention
    subst hmention
    rintro ⟨-, hvalue⟩
    cases hvalue
  have hgives : Settings.Gives (fun _ => False)
      (settingsOf Sample.untyped ⟨some "/r", [("record_limit", .whole 0)], none, false, []⟩) := by
    decide +kernel
  obtain ⟨fault, hfault, hvalue⟩ := hgives.exists_fault
  have hattempt := attempt_of_fault hfault
  obtain ⟨-, -, hfailure, -, hstatus⟩ := @report_ends_by_attempt Sample.untyped _ _ h
  refine ⟨h, htexts, hfailure.2 ⟨_, hattempt, hvalue⟩, hstatus htexts ?_ ?_ ?_⟩
  . intro path hpath
    cases hpath
  . intro output heq
    cases hattempt.symm.trans heq
  . intro failure heq
    cases hattempt.symm.trans heq

theorem not_all_reports_end_with_status
    : ¬∀ (environment : Environment) (texts : List String) (arguments : Arguments),
      Arguments.ofTexts texts = .ok arguments →
      ∃ code, (report environment texts).ending = .status code := by
  intro hall
  have h : Arguments.ofTexts ["/r", "--config", "c.json"]
      = .ok ⟨some "/r", [], some "c.json", false, []⟩ := by
    cbv
  have hgives : ¬Settings.Gives (fun _ => True)
      (settingsOf Sample.untyped ⟨some "/r", [], some "c.json", false, []⟩) := by
    decide +kernel
  obtain ⟨fault, hfault, hvalue⟩ := Settings.exists_fault_of_not_gives hgives
  obtain ⟨code, hcode⟩ := hall Sample.untyped _ _ h
  have hescaped := @endingOf_of_not_isForeseen (.settings fault) (by simp) hvalue
  rw [ending_report h, attempt_of_fault hfault, hescaped] at hcode
  cases hcode

end CommandLine
end MethodHistory
