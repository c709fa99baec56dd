import StructuralModel.Command.Execution
import StructuralModel.Proofs.WellFormed

/-! A command looks at the world until its answer is complete, and then delivers all of it to one place. So a command that
fails leaves nothing behind, whatever it failed at. -/

namespace StructuralModel

namespace World

/-- The world after a text has come to a file, or has been printed. -/
def delivered (w : World) (text : String) : Option String → World
  | some path => { w with files := withFile path text w.files }
  | none => { w with printed := w.printed ++ text }

end World

namespace Action

variable {α β : Type}

/-- An action that leaves the world as it is. -/
def Looks (action : Action α) : Prop :=
  ∀ world, (action.run.run world).2 = world

/-- An action that either fails and leaves the world as it is, or delivers a text. -/
def Delivers (output? : Option String) (action : Action Unit) : Prop :=
  ∀ world, (∃ failure, action.run.run world = (.error failure, world)) ∨
    ∃ text, action.run.run world = (.ok (), world.delivered text output?)

/-- A failure skips the next action, and what has been changed stays. -/
theorem run_bind (first : Action α) (next : α → Action β) (world : World) : (first >>= next).run.run world =
    match first.run.run world with
    | (.ok value, after) => (next value).run.run after
    | (.error failure, after) => (.error failure, after) := by
  rw [ExceptT.run_bind, StateT.run_bind]
  rcases first.run.run world with ⟨outcome, after⟩
  cases outcome <;> rfl

namespace Looks

variable {first : Action α}

/-- The next action starts in the same world. -/
theorem run_bind_same (looks : Looks first) (next : α → Action β) (world : World) : (first >>= next).run.run world =
    match (first.run.run world).1 with
    | .ok value => (next value).run.run world
    | .error failure => (.error failure, world) := by
  have same := looks world
  rw [run_bind]
  generalize first.run.run world = result at same ⊢
  obtain ⟨outcome, after⟩ := result
  obtain rfl : after = world := same
  cases outcome <;> rfl

theorem bind {next : α → Action β} (looks : Looks first) (more : ∀ value, Looks (next value)) : Looks (first >>= next) := by
  intro world
  rw [looks.run_bind_same]
  cases (first.run.run world).1 with
  | ok value => exact more value world
  | error failure => rfl

theorem bind_delivers {next : α → Action Unit} {output? : Option String} (looks : Looks first)
    (delivers : ∀ value, Delivers output? (next value)) : Delivers output? (first >>= next) := by
  intro world
  rw [looks.run_bind_same]
  cases (first.run.run world).1 with
  | ok value => exact delivers value world
  | error failure => exact .inl ⟨failure, rfl⟩

theorem pure (value : α) : Looks (Pure.pure value : Action α) := fun _ => rfl

theorem throw (failure : Failure) : Looks (MonadExcept.throw failure : Action α) := fun _ => rfl

theorem get : Looks (MonadState.get : Action World) := fun _ => rfl

/-- What is computed without the world does not change it. -/
theorem lift (computed : Except Failure α) : Looks (liftM computed : Action α) := fun _ => rfl

end Looks

theorem looks_readFile (path : String) : Looks (readFile path) := by
  refine Looks.get.bind fun world => ?_
  cases world.file? path with
  | some content => exact .pure content
  | none => exact .throw _

theorem looks_settingsIn (path : String) : Looks (settingsIn path) := by
  refine Looks.get.bind fun world => ?_
  split
  · refine (looks_readFile path).bind fun text => ?_
    cases Settings.read? text with
    | some settings => exact .pure settings
    | none => exact .throw _
  · exact .throw _

theorem looks_settings (given? : Option String) (userSettings : String) : Looks (settings given? userSettings) := by
  cases given? with
  | some path => exact looks_settingsIn path
  | none =>
    refine Looks.get.bind fun world => ?_
    cases [localSettings, userSettings].find? world.holds with
    | some path => exact looks_settingsIn path
    | none => exact .pure _

theorem delivers_print (text : String) : Delivers none (print text) :=
  fun _ => .inr ⟨text, rfl⟩

/-- Whether a file can be written is known before anything is. -/
theorem run_writeFile (path content : String) (world : World) : (writeFile path content).run.run world =
    if world.accepts path then (.ok (), world.delivered content (some path)) else (.error .missingFile, world) := by
  rw [writeFile, run_bind]
  change (if world.accepts path then _ else _ : Action Unit).run.run world = _
  split <;> rfl

theorem delivers_writeFile (path content : String) : Delivers (some path) (writeFile path content) := by
  intro world
  rw [run_writeFile]
  split
  · exact .inr ⟨content, rfl⟩
  · exact .inl ⟨.missingFile, rfl⟩

theorem delivers_deliver (report : Report) (output? : Option String) : Delivers output? (deliver report output?) := by
  cases output? with
  | some path => exact delivers_writeFile path report.text
  | none => exact delivers_print report.text

/-- All values are computed before the first of them is printed. -/
theorem delivers_answer (session : Session) (request : Request) : Delivers request.output? (answer session request) := by
  cases request with
  | comments output? => exact delivers_deliver _ output?
  | docs output? => exact delivers_deliver _ output?
  | locales => exact delivers_print _
  | eval element feature scope? => exact (Looks.lift _).bind_delivers fun value => delivers_print _
  | evalAll element => exact (Looks.lift _).bind_delivers fun values => delivers_print _

theorem delivers_ofArguments (arguments : Arguments) (userSettings : String) :
    Delivers arguments.request.output? (ofArguments arguments userSettings) :=
  (looks_settings _ _).bind_delivers fun _ =>
    (looks_readFile _).bind_delivers fun _ =>
      (Looks.lift _).bind_delivers fun session => delivers_answer session arguments.request

end Action

namespace Session

/-- The default settings can be used. -/
theorem checkSettings_default : checkSettings {} = .ok () := by
  have evaluation : Settings.checkEvaluation {} = .ok () := rfl
  have report : Settings.checkReport {} = .ok () := by
    rw [Settings.checkReport, if_neg (by decide +kernel)]
  rw [checkSettings, Settings.check, evaluation, report]
  rfl

theorem ofSource_default {source : String} {loaded : LoadedModel} (loads : LoadedModel.ofSource source = .ok loaded)
    (quiet : loaded.warnings = []) : ofSource {} source = .ok ⟨{}, loaded.model, []⟩ := by
  rw [ofSource, checkSettings_default, loads]
  simp [quiet, Except.mapError, bind, Except.bind, pure, Except.pure]

end Session

namespace Arguments

/-- A command that fails changes nothing. One that succeeds changes one file, or prints a text and changes no file. -/
theorem execute_all_or_nothing (arguments : Arguments) (userSettings : String) (world : World) :
    (∀ failure, (arguments.execute userSettings world).1 = .error failure →
      (arguments.execute userSettings world).2 = world) ∧
    ((arguments.execute userSettings world).1 = .ok () →
      ∃ text, (arguments.execute userSettings world).2 = world.delivered text arguments.request.output?) := by
  rcases Action.delivers_ofArguments arguments userSettings world with ⟨failure, failed⟩ | ⟨text, done⟩
  · rw [execute, failed]
    exact ⟨fun _ _ => rfl, nofun⟩
  · rw [execute, done]
    exact ⟨nofun, fun _ => ⟨text, rfl⟩⟩

/-- Once the model is loaded, the answer is all that a command still does. -/
theorem execute_of_loaded {arguments : Arguments} {userSettings source : String} {world : World} {settings : Settings}
    {session : Session}
    (configured : (Action.settings arguments.config? userSettings).run.run world = (.ok settings, world))
    (input : (Action.readFile arguments.input).run.run world = (.ok source, world))
    (opened : Session.ofSource settings source = .ok session) :
    arguments.execute userSettings world = (Action.answer session arguments.request).run.run world := by
  rw [execute, Action.ofArguments, Action.run_bind, configured]
  dsimp only
  rw [Action.run_bind, input]
  dsimp only
  rw [opened]
  rfl

/-- `A` has a value for `a`, and in `b` the name of nothing. -/
def halfValued : String :=
  "part def A \x7b attribute a = true; attribute b = nothing; \x7d"

theorem halfValued_loads (conversions : ConversionTable) : ∃ loaded, LoadedModel.ofSource halfValued = .ok loaded ∧
    loaded.warnings = [] ∧ loaded.model.findNamed? "A" = some 0 ∧
    (Composite.ofElement 0).evaluateAll loaded.model ⟨true, 256, conversions⟩ =
      .error (.unresolvedReference "nothing" "A") := by
  have facts : ((LoadedModel.ofSource halfValued).map fun loaded => (loaded.warnings.length, loaded.model.findNamed? "A",
      (Composite.ofElement 0).evaluateAll loaded.model ⟨true, 256, conversions⟩)) =
      .ok (0, some 0, .error (.unresolvedReference "nothing" "A")) := by cbv
  obtain ⟨loaded, loads, same⟩ := LoadedModel.exists_of_map_ofSource facts
  simp only [Prod.mk.injEq, List.length_eq_zero_iff] at same
  exact ⟨loaded, loads, same⟩

/-- The value of `a` is known when the evaluation of `b` fails, but nothing has been printed of it. -/
theorem execute_halfValued : ∃ failure,
    (execute ⟨"m.txt", none, .evalAll "A"⟩ "user.toml" (.ofFiles [("m.txt", halfValued)])).1 = .error failure ∧
      (execute ⟨"m.txt", none, .evalAll "A"⟩ "user.toml" (.ofFiles [("m.txt", halfValued)])).2 =
        .ofFiles [("m.txt", halfValued)] := by
  obtain ⟨loaded, loads, quiet, found, failing⟩ := halfValued_loads (Settings.environment {}).conversions
  have known : (⟨{}, loaded.model, []⟩ : Session).element "A" = .ok 0 := by
    have simple : QualifiedName.isQualified "A" = false := by cbv
    rw [Session.element, simple]
    simp only [Bool.false_eq_true, if_false, found]
  have evaluated : (⟨{}, loaded.model, []⟩ : Session).evaluateAll "A" =
      .error (.evaluation (.unresolvedReference "nothing" "A")) := by
    rw [Session.evaluateAll, known]
    exact congrArg (Except.mapError Failure.evaluation) failing
  have failed : (execute ⟨"m.txt", none, .evalAll "A"⟩ "user.toml" (.ofFiles [("m.txt", halfValued)])).1 =
      .error (.evaluation (.unresolvedReference "nothing" "A")) := by
    rw [execute_of_loaded rfl rfl (Session.ofSource_default loads quiet), Action.answer, Action.run_bind, evaluated]
    rfl
  exact ⟨_, failed, (execute_all_or_nothing _ _ _).1 _ failed⟩

end Arguments
end StructuralModel
