import Aggregation.Command.Run
import Aggregation.Proofs.CheckedCatalog

/-!
# Runs of commands

A command goes through its phases in order: the configuration, the catalog, the
bindings if they are given, and the compile.  The first phase that fails decides
the error, and then nothing has been printed.  Only a report on a catalog is
printed before its error, which counts the findings in it.
-/

namespace Aggregation

open Result

/-! ## Answers of logged computations -/

namespace LoggedExcept

variable {ε δ α β : Type}

/-- The computation adds the same events to every log, and comes to the same. -/
def Appends (body : LoggedExcept ε α) : Prop :=
  ∀ log, body.run log = (body.collect.1, log ++ body.collect.2)

theorem appends_mk_pure (result : Except ε α) :
    Appends (ExceptT.mk (pure result) : LoggedExcept ε α) :=
  fun log => Prod.ext rfl (List.append_nil log).symm

theorem appends_pure (value : α) : Appends (pure value : LoggedExcept ε α) :=
  appends_mk_pure (.ok value)

theorem appends_throw (error : ε) : Appends (throw error : LoggedExcept ε α) :=
  appends_mk_pure (.error error)

theorem appends_emit (event : Event) :
    Appends (emit event : LoggedExcept ε Unit) :=
  fun _ => rfl

/-- A second part that only appends to the log comes to the same from an empty
one. -/
theorem Appends.collect_bind {body : LoggedExcept ε α}
    {next : α → LoggedExcept ε β} (hnext : ∀ value, (next value).Appends) :
    (body >>= next).collect =
      match body.collect with
      | (.ok value, first) =>
        ((next value).collect.1, first ++ (next value).collect.2)
      | (.error error, first) => (.error error, first) := by
  rw [collect, run_bind, collect]
  rcases body.run [] with ⟨error | value, first⟩
  · rfl
  · exact hnext value first

theorem Appends.bind {body : LoggedExcept ε α} {next : α → LoggedExcept ε β}
    (hbody : body.Appends) (hnext : ∀ value, (next value).Appends) :
    (body >>= next).Appends := by
  intro log
  rw [Appends.collect_bind hnext, run_bind, hbody log]
  rcases body.collect with ⟨error | value, first⟩
  · rfl
  · dsimp only
    rw [hnext value (log ++ first), List.append_assoc]

theorem answer_bind_of_error {body : LoggedExcept ε α} {error : ε}
    (h : body.collect.1 = .error error) (next : α → LoggedExcept ε β) :
    (body >>= next).collect.1 = .error error := by
  rw [collect] at h
  rw [collect, run_bind]
  rcases hrun : body.run [] with ⟨ended | value, first⟩
  · rw [hrun] at h
    cases h
    rfl
  · rw [hrun] at h
    cases h

/-- The answer to a chain of steps is the chain of their answers. -/
theorem answer_bind {body : LoggedExcept ε α} {next : α → LoggedExcept ε β}
    (hnext : ∀ value, (next value).Appends) :
    (body >>= next).collect.1 = body.collect.1 >>= fun value =>
      (next value).collect.1 := by
  rw [Appends.collect_bind hnext]
  rcases body.collect with ⟨error | value, first⟩ <;> rfl

/-- The same computation, with another account of its errors. -/
def relabel (f : ε → δ) (body : LoggedExcept ε α) : LoggedExcept δ α :=
  ExceptT.mk do
    let result ← body.run
    pure (result.mapError f)

theorem collect_relabel (f : ε → δ) (body : LoggedExcept ε α) :
    (relabel f body).collect = (body.collect.1.mapError f, body.collect.2) :=
  rfl

theorem Appends.relabel {body : LoggedExcept ε α} (h : body.Appends)
    (f : ε → δ) :
    (relabel f body).Appends := by
  intro log
  have hrun : (LoggedExcept.relabel f body).run log =
      ((body.run log).1.mapError f, (body.run log).2) := rfl
  rw [hrun, h log, collect_relabel]

theorem appends_forM {items : List α} {step : α → LoggedExcept ε Unit}
    (h : ∀ item, (step item).Appends) : (items.forM step).Appends := by
  induction items with
  | nil => exact appends_pure ()
  | cons item items ih => exact (h item).bind fun _ => ih

theorem appends_foldlM {items : List α} {step : β → α → LoggedExcept ε β}
    (h : ∀ state item, (step state item).Appends) (state : β) :
    (items.foldlM step state).Appends := by
  induction items generalizing state with
  | nil => exact appends_pure state
  | cons item items ih => exact (h state item).bind ih

end LoggedExcept

open LoggedExcept

namespace Catalog

theorem appends_addFile (files : Files) (strict : Bool) (progress : Progress)
    (path : String) : (addFile files strict progress path).Appends := by
  unfold addFile
  cases Definition.loadFile files path with
  | error error =>
      dsimp only
      split
      · exact appends_throw error
      · exact (appends_emit _).bind fun _ => appends_pure _
  | ok definition =>
      dsimp only [insert]
      split
      · exact (appends_emit _).bind fun _ => (appends_emit _).bind fun _ =>
          appends_pure _
      · exact (appends_emit _).bind fun _ => appends_pure _

theorem appends_load (files : Files) (dir : String) (strict : Bool) :
    (load files dir strict).Appends := by
  unfold load
  refine (appends_emit _).bind fun _ => (appends_mk_pure _).bind fun paths => ?_
  refine (appends_foldlM (appends_addFile files strict) {}).bind
    fun progress => ?_
  refine (appends_forM fun issue => appends_emit _).bind fun _ => ?_
  exact (appends_emit _).bind fun _ => appends_pure _

theorem appends_compileDefinition (catalog : Catalog) (definition : Definition)
    (params : Params) :
    (catalog.compileDefinition definition params).Appends := by
  intro log
  exact Prod.ext rfl (List.append_assoc _ _ _)

theorem appends_compileNamed (catalog : Catalog) (name : String)
    (params : Params) :
    (catalog.compileNamed name params).Appends := by
  unfold compileNamed
  split
  · exact appends_throw _
  · exact (appends_compileDefinition catalog _ params).bind fun _ =>
      appends_pure _

end Catalog

theorem Config.exists_level_of_ofJson {text : String} {config : Config}
    (h : ofJson text = .ok config) : ∃ level, config.level = .ok level := by
  unfold ofJson at h
  split at h
  · cases h
  · obtain ⟨_, hcheck, hsame⟩ := bind_eq_ok_iff.mp h
    cases hsame
    unfold check at hcheck
    split at hcheck
    · cases hcheck
    · obtain ⟨level, hlevel, -⟩ := map_eq_ok_iff.mp hcheck
      exact ⟨level, hlevel⟩

namespace Command

/-! ## Phases -/

/-- The configuration at this path loads, and so does the catalog that it
names. -/
structure Boots (files : Files) (path : String) (config : Config)
    (catalog : Catalog) : Prop where
  hconfig : Config.load files path = .ok config
  hcatalog :
    (Catalog.load files config.aggregationsDir config.strictCatalog).collect.1 =
      .ok catalog

/-- The first of the two that does not load. -/
inductive BootFails (files : Files) (path : String) : CommandError → Prop
  | config {error : ConfigError}
      (herror : Config.load files path = .error error) :
      BootFails files path (.config error)
  | catalog {config : Config} {error : CatalogError}
      (hconfig : Config.load files path = .ok config)
      (herror :
        (Catalog.load files config.aggregationsDir
          config.strictCatalog).collect.1 = .error error) :
      BootFails files path (.catalog error)

/-- The bindings at this path, or none if there is no path. -/
def bindings (files : Files) : Option String → Except ParamsError Params
  | some path => Params.load files path
  | none => .ok .empty

/-- The first phase of a compile that fails. -/
inductive CompileFails (files : Files) (path name : String)
    (given : Option String) : CommandError → Prop
  | boot {error : CommandError} (herror : BootFails files path error) :
      CompileFails files path name given error
  | params {config : Config} {catalog : Catalog} {error : ParamsError}
      (hboots : Boots files path config catalog)
      (herror : bindings files given = .error error) :
      CompileFails files path name given (.params error)
  | compile {config : Config} {catalog : Catalog} {params : Params}
      {error : CompileError}
      (hboots : Boots files path config catalog)
      (hparams : bindings files given = .ok params)
      (herror : catalog.compile name params = .error error) :
      CompileFails files path name given (.compile error)

/-- All phases of a compile go well, and come to this pipeline for this
definition. -/
inductive Compiles (files : Files) (path name : String)
    (given : Option String) : Definition → Pipeline → Prop
  | phases {config : Config} {catalog : Catalog} {params : Params}
      {definition : Definition} {pipeline : Pipeline}
      (hboots : Boots files path config catalog)
      (hparams : bindings files given = .ok params)
      (hfound : catalog.get? name = some definition)
      (hcompiled : catalog.compile name params = .ok pipeline) :
      Compiles files path name given definition pipeline

variable {files : Files} {path name : String} {given : Option String}
  {config : Config} {catalog : Catalog} {params : Params}
  {definition : Definition} {pipeline : Pipeline} {error : CommandError}

/-- What boots has a level to log at, as the check of the configuration has read
it before; so no command fails between its configuration and its catalog. -/
theorem Boots.exists_level (h : Boots files path config catalog) :
    ∃ level, config.level = .ok level := by
  have hload := h.hconfig
  unfold Config.load at hload
  split at hload
  · cases hload
  · next text _ =>
      obtain ⟨parsed, hparsed, hplaced⟩ := map_eq_ok_iff.mp hload
      have hsame : config.level = parsed.level := by
        subst hplaced
        cases Path.parent? path <;> rfl
      rw [hsame]
      exact Config.exists_level_of_ofJson hparsed

theorem boots_or_fails (files : Files) (path : String) :
    (∃ config catalog, Boots files path config catalog) ∨
      ∃ error, BootFails files path error := by
  cases hconfig : Config.load files path with
  | error error => exact .inr ⟨_, .config hconfig⟩
  | ok config =>
      cases hcatalog :
          (Catalog.load files config.aggregationsDir
            config.strictCatalog).collect.1 with
      | error error => exact .inr ⟨_, .catalog hconfig hcatalog⟩
      | ok catalog => exact .inl ⟨config, catalog, hconfig, hcatalog⟩

theorem compiles_or_fails (files : Files) (path name : String)
    (given : Option String) :
    (∃ definition pipeline,
        Compiles files path name given definition pipeline) ∨
      ∃ error, CompileFails files path name given error := by
  cases boots_or_fails files path with
  | inr hfails =>
      obtain ⟨error, herror⟩ := hfails
      exact .inr ⟨error, .boot herror⟩
  | inl hboots =>
      obtain ⟨config, catalog, hboots⟩ := hboots
      cases hparams : bindings files given with
      | error error => exact .inr ⟨_, .params hboots hparams⟩
      | ok params =>
          cases hcompiled : catalog.compile name params with
          | error error => exact .inr ⟨_, .compile hboots hparams hcompiled⟩
          | ok pipeline =>
              obtain ⟨definition, hfound⟩ :=
                (derives_of_compile hcompiled).registered
              exact .inl ⟨definition, pipeline,
                .phases hboots hparams hfound hcompiled⟩

/-! ## What the phases come to -/

/-- The part of the boot that depends on the configuration. -/
def loadCatalog (files : Files) (config : Config) :
    LoggedExcept CommandError (Config × Catalog) :=
  relabel .catalog
      (Catalog.load files config.aggregationsDir config.strictCatalog) >>=
    fun catalog => pure (config, catalog)

theorem appends_loadCatalog (files : Files) (config : Config) :
    (loadCatalog files config).Appends :=
  ((Catalog.appends_load files _ _).relabel _).bind fun _ => appends_pure _

theorem boot_eq (files : Files) (path : String) :
    boot files path =
      ExceptT.mk (pure ((Config.load files path).mapError .config)) >>=
        fun config =>
          (emit (.configLoaded path config.aggregationsDir) :
            LoggedExcept CommandError Unit) >>=
              fun _ => loadCatalog files config :=
  rfl

/-- Booting loads the configuration, and then the catalog that it names. -/
theorem answer_boot (files : Files) (path : String) :
    (boot files path).collect.1 =
      (Config.load files path).mapError .config >>= fun config =>
        (Catalog.load files config.aggregationsDir
            config.strictCatalog).collect.1.mapError .catalog >>=
          fun catalog => .ok (config, catalog) := by
  rw [boot_eq, answer_bind]
  · congr 1
    funext config
    rw [answer_bind fun _ => appends_loadCatalog files config]
    exact answer_bind fun _ => appends_pure _
  · intro config
    exact (appends_emit _).bind fun _ => appends_loadCatalog files config

theorem Boots.answer (h : Boots files path config catalog) :
    (boot files path).collect.1 = .ok (config, catalog) := by
  rw [answer_boot, h.hconfig]
  change (Catalog.load files _ _).collect.1.mapError _ >>= _ = _
  rw [h.hcatalog]
  rfl

theorem BootFails.answer (h : BootFails files path error) :
    (boot files path).collect.1 = .error error := by
  rw [answer_boot]
  cases h with
  | config herror =>
      rw [herror]
      rfl
  | catalog hconfig herror =>
      rw [hconfig]
      change (Catalog.load files _ _).collect.1.mapError _ >>= _ = _
      rw [herror]
      rfl

theorem answer_compileNamed (hfound : catalog.get? name = some definition)
    (hcompiled : catalog.compile name params = .ok pipeline) :
    (catalog.compileNamed name params).collect.1 =
      .ok (definition, pipeline) := by
  unfold Catalog.compile Catalog.compileNamed at hcompiled
  unfold Catalog.compileNamed
  rw [hfound] at hcompiled ⊢
  simp only [collect_bind_pure] at hcompiled ⊢
  cases hanswer : (catalog.compileDefinition definition params).collect.1 with
  | error error =>
      rw [hanswer] at hcompiled
      cases hcompiled
  | ok compiled =>
      rw [hanswer] at hcompiled
      cases hcompiled
      rfl

/-- What is printed by a compile, and logged if the configuration says so. -/
def present (config : Config) (name : String) (definition : Definition)
    (pipeline : Pipeline) : LoggedExcept CommandError CommandResult := do
  if config.logPipelines then
    emit (.pipelineListed name pipeline)
  pure (.printed (compiled definition pipeline))

theorem appends_present (config : Config) (name : String)
    (definition : Definition) (pipeline : Pipeline) :
    (present config name definition pipeline).Appends := by
  unfold present
  split
  · exact (appends_emit _).bind fun _ => appends_pure _
  · exact appends_pure _

theorem answer_present (config : Config) (name : String)
    (definition : Definition) (pipeline : Pipeline) :
    (present config name definition pipeline).collect.1 =
      .ok (.printed (compiled definition pipeline)) := by
  unfold present
  split <;> rfl

/-- The part of a compile that depends on the bindings. -/
def compileWith (config : Config) (catalog : Catalog) (name : String)
    (params : Params) :
    LoggedExcept CommandError CommandResult :=
  relabel .compile (catalog.compileNamed name params) >>=
    fun (definition, pipeline) =>
    present config name definition pipeline

theorem appends_compileWith (config : Config) (catalog : Catalog)
    (name : String) (params : Params) :
    (compileWith config catalog name params).Appends :=
  ((Catalog.appends_compileNamed catalog name params).relabel _).bind
    fun (definition, pipeline) =>
      appends_present config name definition pipeline

theorem runCompile_eq (files : Files) (path name : String)
    (given : Option String) :
    runCompile files path name given =
      boot files path >>= fun (config, catalog) =>
        ExceptT.mk (pure ((bindings files given).mapError .params)) >>=
          fun params =>
          compileWith config catalog name params := by
  cases given <;> rfl

theorem answer_runCompile (files : Files) (path name : String)
    (given : Option String) :
    (runCompile files path name given).collect.1 =
      (boot files path).collect.1 >>= fun (_, catalog) =>
        (bindings files given).mapError .params >>= fun params =>
          (catalog.compileNamed name params).collect.1.mapError .compile >>=
            fun (definition, pipeline) =>
              .ok (.printed (compiled definition pipeline)) := by
  rw [runCompile_eq, answer_bind]
  · congr 1
    funext ⟨config, catalog⟩
    dsimp only
    rw [answer_bind fun params =>
      appends_compileWith config catalog name params]
    congr 1
    funext params
    rw [compileWith, answer_bind fun (definition, pipeline) =>
      appends_present config name definition pipeline]
    congr 1
    funext ⟨definition, pipeline⟩
    exact answer_present config name definition pipeline
  · intro (config, catalog)
    exact (appends_mk_pure _).bind (appends_compileWith config catalog name)

theorem Compiles.answer
    (h : Compiles files path name given definition pipeline) :
    (runCompile files path name given).collect.1 =
      .ok (.printed (compiled definition pipeline)) := by
  cases h with
  | @phases config catalog params definition pipeline hboots hparams hfound
      hcompiled =>
      rw [answer_runCompile, hboots.answer, hparams]
      change (catalog.compileNamed name params).collect.1.mapError _ >>= _ = _
      rw [answer_compileNamed hfound hcompiled]
      rfl

theorem CompileFails.answer (h : CompileFails files path name given error) :
    (runCompile files path name given).collect.1 = .error error := by
  rw [answer_runCompile]
  cases h with
  | boot herror =>
      rw [herror.answer]
      rfl
  | params hboots herror =>
      rw [hboots.answer, herror]
      rfl
  | @compile config catalog params error hboots hparams herror =>
      have hnamed :
          (catalog.compileNamed name params).collect.1 = .error error :=
        map_eq_error_iff.mp herror
      rw [hboots.answer, hparams]
      change (catalog.compileNamed name params).collect.1.mapError _ >>= _ = _
      rw [hnamed]
      rfl

/-! ## What commands leave behind -/

theorem run_of_answer (files : Files) (command : Command) :
    (run files command).1 =
      match (attempt files command).collect.1 with
      | .ok result => result
      | .error error => .failed error := by
  unfold run
  rcases (attempt files command).collect with ⟨error | result, events⟩ <;> rfl

/-- No command gets past a configuration or a catalog that does not load. -/
theorem run_of_bootFails {command : Command}
    (h : BootFails files command.configPath error) :
    (run files command).1 = .failed error := by
  have hanswer : (attempt files command).collect.1 = .error error := by
    cases command <;> exact answer_bind_of_error h.answer _
  rw [run_of_answer, hanswer]

/-- What is left behind by a report on a catalog. -/
def reported (catalog : Catalog) : CommandResult :=
  { CommandResult.printed (report catalog) with
    error :=
      if catalog.issues = [] then none
      else some (.catalogInvalid catalog.issues.length) }

theorem runValidate_eq (files : Files) (path : String) :
    runValidate files path =
      boot files path >>= fun (_, catalog) => pure (reported catalog) := by
  unfold runValidate
  congr 1
  funext ⟨config, catalog⟩
  dsimp only [reported]
  cases catalog.issues <;> rfl

theorem run_validate_of_boots (h : Boots files path config catalog) :
    (run files (.validate path)).1 = reported catalog := by
  have hanswer : (runValidate files path).collect.1 =
      (boot files path).collect.1.map fun (_, catalog) => reported catalog := by
    rw [runValidate_eq]
    exact collect_bind_pure _ _
  rw [run_of_answer, attempt, hanswer, h.answer]
  rfl

theorem run_list_of_boots (h : Boots files path config catalog) :
    (run files (.list path)).1 = .printed (listing catalog) := by
  have hanswer : (runList files path).collect.1 =
      (boot files path).collect.1.map fun (_, catalog) =>
        .printed (listing catalog) :=
    collect_bind_pure _ _
  rw [run_of_answer, attempt, hanswer, h.answer]
  rfl

theorem run_compile_of_compiles
    (h : Compiles files path name given definition pipeline) :
    (run files (.compile path name given)).1 =
      .printed (compiled definition pipeline) := by
  rw [run_of_answer, attempt, h.answer]

theorem run_compile_of_fails (h : CompileFails files path name given error) :
    (run files (.compile path name given)).1 = .failed error := by
  rw [run_of_answer, attempt, h.answer]

end Command

namespace CommandResult

/-- The exit status tells success from failure. -/
theorem exitCode_eq_zero_iff {result : CommandResult} :
    result.exitCode = 0 ↔ result.error = none := by
  unfold exitCode
  cases result.error <;> simp

theorem output_printed_ne_empty (json : Json) : (printed json).output ≠ "" := by
  simp [printed]

/-- What either prints one of these values or fails in one of these ways is a
success in the one case, and prints nothing in the other. -/
theorem all_or_nothing {ι : Type} {Succeeds : ι → Prop}
    {Fails : CommandError → Prop} {result : CommandResult} (json : ι → Json)
    (htotal : (∃ i, Succeeds i) ∨ ∃ error, Fails error)
    (hprints : ∀ i, Succeeds i → result = printed (json i))
    (hfails : ∀ error, Fails error → result = failed error) :
    (result.exitCode = 0 ↔ ∃ i, Succeeds i) ∧
      (∀ i, Succeeds i → result.output = (json i).pretty ++ "\n") ∧
      ∀ error, (result.error = some error ↔ Fails error) ∧
        (result.error = some error → result.output = "") := by
  rw [exitCode_eq_zero_iff]
  refine ⟨?_, fun i hi => congrArg output (hprints i hi), fun error => ?_⟩
  · constructor
    · intro hnone
      refine htotal.resolve_right fun ⟨error, herror⟩ => ?_
      rw [hfails error herror] at hnone
      cases hnone
    · rintro ⟨i, hi⟩
      rw [hprints i hi]
      rfl
  · have hcause : result.error = some error → Fails error := by
      intro hsome
      cases htotal with
      | inl hsucceeds =>
          obtain ⟨i, hi⟩ := hsucceeds
          rw [hprints i hi] at hsome
          cases hsome
      | inr hfailing =>
          obtain ⟨other, hother⟩ := hfailing
          rw [hfails other hother] at hsome
          cases hsome
          exact hother
    refine ⟨⟨hcause, fun herror => ?_⟩, fun hsome => ?_⟩
    · rw [hfails error herror]
      rfl
    · rw [hfails error (hcause hsome)]
      rfl

end CommandResult

open Command

/-- A report is printed, whatever is in it, unless there is no catalog to report
on. -/
theorem Command.output_validate_eq_empty_iff {files : Files} {path : String} :
    (run files (.validate path)).1.output = "" ↔
      ∃ error, BootFails files path error := by
  constructor
  · intro houtput
    cases boots_or_fails files path with
    | inl hboots =>
        obtain ⟨config, catalog, hboots⟩ := hboots
        rw [run_validate_of_boots hboots] at houtput
        exact absurd houtput (CommandResult.output_printed_ne_empty _)
    | inr hfails => exact hfails
  · intro hfails
    obtain ⟨error, herror⟩ := hfails
    rw [run_of_bootFails herror]
    rfl

/-- Every command is all or nothing.  If its first phases fail, it prints
nothing and ends with the error of the first of them.  A report is then printed
in any case, and is a success if and only if there are no findings; a listing is
a success; and a compile prints what the library compiles, if the bindings can
be read and it does, and otherwise nothing. -/
theorem command_run (files : Files) (command : Command) :
    let result := (command.run files).1
    match command with
    | .validate path =>
      (result.output = "" ↔ ∃ error, BootFails files path error) ∧
      (∀ error, BootFails files path error → result.error = some error) ∧
      ∀ config catalog, Boots files path config catalog →
        result.output =
          (Json.object
            [("aggregations", .nat catalog.size),
              ("issues",
                .strings (catalog.issues.map Issue.text))]).pretty ++ "\n" ∧
        (result.exitCode = 0 ↔ catalog.issues = []) ∧
        (catalog.issues ≠ [] → ∃ error, result.error = some error ∧
          error = .catalogInvalid catalog.issues.length ∧
          error.code = "AGGC_CLI_CATALOG_INVALID")
    | .list path =>
      (result.exitCode = 0 ↔ ∃ config catalog,
        Boots files path config catalog) ∧
      (∀ config catalog, Boots files path config catalog →
        result.output = (listing catalog).pretty ++ "\n") ∧
      ∀ error, (result.error = some error ↔ BootFails files path error) ∧
        (result.error = some error → result.output = "")
    | .compile path name given =>
      (result.exitCode = 0 ↔
        ∃ definition pipeline,
          Compiles files path name given definition pipeline) ∧
      (∀ definition pipeline,
        Compiles files path name given definition pipeline →
        result.output =
          (Json.object
            [("aggregation", .string definition.name),
              ("collection", .string definition.collection),
              ("pipeline",
                .array (pipeline.map (Document.toJson .relaxed)))]).pretty ++
            "\n") ∧
      ∀ error,
        (result.error = some error ↔
          CompileFails files path name given error) ∧
        (result.error = some error → result.output = "") := by
  intro result
  cases command with
  | validate path =>
      refine ⟨output_validate_eq_empty_iff, fun error herror => ?_,
        fun config catalog hboots => ?_⟩
      · have hresult : result = .failed error := run_of_bootFails herror
        rw [hresult]
        rfl
      · have hresult : result = reported catalog := run_validate_of_boots hboots
        rw [hresult, CommandResult.exitCode_eq_zero_iff]
        refine ⟨rfl, by simp [reported], fun hissues => ?_⟩
        exact ⟨_, if_neg hissues, rfl, rfl⟩
  | list path =>
      have htotal :
          (∃ booted : Config × Catalog, Boots files path booted.1 booted.2) ∨
          ∃ error, BootFails files path error := by
        simpa only [Prod.exists] using boots_or_fails files path
      have hlists :=
        CommandResult.all_or_nothing (fun booted => listing booted.2) htotal
          (fun _ hboots => run_list_of_boots hboots)
          (fun _ herror => run_of_bootFails herror)
      simpa only [Prod.exists, Prod.forall] using hlists
  | compile path name given =>
      have htotal : (∃ phases : Definition × Pipeline,
            Compiles files path name given phases.1 phases.2) ∨
          ∃ error, CompileFails files path name given error := by
        simpa only [Prod.exists] using compiles_or_fails files path name given
      have hcompiles := CommandResult.all_or_nothing
        (fun phases => compiled phases.1 phases.2) htotal
        (fun _ hphases => run_compile_of_compiles hphases)
        (fun _ herror => run_compile_of_fails herror)
      simp only [Prod.exists, Prod.forall] at hcompiles
      exact hcompiles

/-! A configuration beside the directory that it names. -/

def Config.plainText : String := "\x7b\"aggregations_dir\":\"aggs\"\x7d"

def Files.configured : Files :=
  .within (.directory [("aggc.json", .file Config.plainText.toUTF8.data.toList),
    ("aggs", .directory FileTree.mixed)])

theorem Config.ofJson_plainText :
    ofJson plainText = .ok { aggregationsDir := "aggs" } := by
  have htree : JsonText.parse? plainText =
      some (.object [("aggregations_dir", .string "aggs")]) := by cbv
  have hparsed : parse? plainText = some { aggregationsDir := "aggs" } := by
    rw [parse?, htree]
    rfl
  rw [ofJson, hparsed]
  rfl

theorem Config.load_configured :
    load .configured "aggc.json" = .ok { aggregationsDir := "aggs" } := by
  have htext : Files.configured.readText "aggc.json" = .ok plainText :=
    Files.readText_of_find rfl
  rw [load, htext]
  simp only [ofJson_plainText]
  rfl

theorem Catalog.load_configured :
    (load .configured "aggs" false).collect.1 = .ok (.ofList [.orders]) := by
  have hlisting := FileTree.isListing_mixed
  have hlist : Files.configured.list "aggs" = .ok FileTree.mixed := rfl
  obtain ⟨names, hpaths, hascending, hnames⟩ :=
    definitionFiles_of_list hlist hlisting
  obtain ⟨names', hpaths', hascending', hnames'⟩ :=
    definitionFiles_of_list Files.list_mixed hlisting
  obtain rfl := FileTree.names_mixed hascending hnames
  obtain rfl := FileTree.names_mixed hascending' hnames'
  rw [load_congr hpaths hpaths'
    (List.forall_mem_map.mpr fun name hmem => ?_) false]
  · exact load_mixed
  · obtain ⟨bytes, hfile⟩ := (hnames name).mp hmem
    exact Definition.loadFile_join_congr hlist hlisting Files.list_mixed
      hlisting hfile hfile

theorem Command.boots_configured :
    Boots .configured "aggc.json" { aggregationsDir := "aggs" }
      (.ofList [.orders]) :=
  ⟨Config.load_configured, Catalog.load_configured⟩

/-- The one definition is listed and is found to be in order, but it does not
compile without a filter, and then nothing is printed. -/
theorem command_run_configured :
    let listed := (Command.run .configured (.list "aggc.json")).1
    let validated := (Command.run .configured (.validate "aggc.json")).1
    let refused :=
      (Command.run .configured (.compile "aggc.json" "orders" none)).1
    listed.exitCode = 0 ∧
      listed.output = (Json.array [.object [("name", .string "orders"),
        ("collection", .string "sales"), ("stages", .nat 1)]]).pretty ++ "\n" ∧
      validated.exitCode = 0 ∧ refused.output = "" ∧
      refused.error = some (.compile ⟨.mismatch (.unbound "$match"),
        [⟨"orders", 0, some "where", "$match"⟩]⟩) := by
  intro listed validated refused
  have hboots := Command.boots_configured
  obtain ⟨hlists, hlisting, -⟩ := command_run .configured (.list "aggc.json")
  obtain ⟨-, -, hreport⟩ := command_run .configured (.validate "aggc.json")
  obtain ⟨-, -, hfails⟩ :=
    command_run .configured (.compile "aggc.json" "orders" none)
  have hjson :
      listing (.ofList [.orders]) =
        .array
          [.object
            [("name", .string "orders"), ("collection", .string "sales"),
              ("stages", .nat 1)]] := rfl
  have hprinted := hlisting _ _ hboots
  rw [hjson] at hprinted
  have herror := (hfails _).1.mpr (.compile hboots rfl rfl)
  exact ⟨hlists.mpr ⟨_, _, hboots⟩, hprinted, (hreport _ _ hboots).2.1.mpr rfl,
    (hfails _).2 herror, herror⟩

end Aggregation
