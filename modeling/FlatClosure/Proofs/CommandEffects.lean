/-
What commands leave behind.

A command comes to its text, or fails, before it prints or writes anything but the files of
a build. These stand in a new directory among the temporary files. So a command that fails
prints nothing and leaves the working directory as it was, unless the temporary files are
in there, and one that succeeds either prints its text or replaces the content of one file
by it.

* `Request.script_eq`: the two parts of a command, coming to a text and disposing of it.
* `Request.Yields`: the text that a command comes to; `Request.run_prepare_eq_ok_iff`: a
  command that builds nothing has no other way to go on.
* `Request.run_buildExecutable`: a command that builds something and finds no compiler.
* `Ends`, `ends_execute`: the ways in which a command ends.
* `execute_leaves_nothing_behind`: what the folder and the standard output are after each.
-/
import FlatClosure.Command.Basic
import FlatClosure.Proofs.Scripts

namespace FlatClosure.Command

open Folder (AddsIn)

/-! ### Compiling and evaluating -/

section

variable {host : Host} {world : World} {path text : Text} {source : Source} {parsed : Parsed}

lemma asks_loadSource (path : Text) : (loadSource path).Asks Operation.IsQuiet :=
  .bind (Script.Asks.ask trivial fun _ => .done _).mapError fun _ => .done _

lemma run_loadSource_eq_ok_iff :
    ((loadSource path).run host world).1 = .ok source ↔
      ∃ content, world.folder.read path = .ok content ∧ ⟨path, content⟩ = source := by
  simp only [loadSource, Script.run_bind_eq_ok_iff, Script.run_mapError_eq_ok_iff, Script.run_read,
    Script.run_pure, Except.ok.injEq]

lemma compileSource_eq_ok_iff {target : Target} {compiled : Compiled} :
    compileSource source target = .ok compiled ↔ compile source target.name = .ok compiled := by
  rw [compileSource]
  split <;> simp [*]

lemma parseSource_eq_ok_iff : parseSource source = .ok parsed ↔ source.text.parse = .ok parsed :=
  Except.mapError_eq_ok_iff

lemma evaluate_eq_ok_iff :
    evaluate parsed = .ok text ↔ parsed.tree.toProgram.run = .ok text := by
  rw [evaluate]
  split <;> simp [*]

end

namespace Request

variable {r r' : Request} {read : Text → Except FileError Text} {path text text' : Text}
  {host : Host} {world : World}

lemma sourcePath_eq_ok_iff : r.sourcePath = .ok path ↔ r.arguments = [path] ∧ path ≠ [] := by
  rw [sourcePath]
  split
  · simp [*]
  · simp [*]
  · simp_all
  · rename_i given hne heq
    rw [heq]
    constructor
    · rintro ⟨⟩
      exact ⟨rfl, hne⟩
    · rintro ⟨⟨⟩, -⟩
      rfl

lemma asks_compileFile (r : Request) (path : Text) :
    (r.compileFile path).Asks Operation.IsQuiet :=
  .bind (.done _) fun _ => .bind (asks_loadSource path) fun _ => .bind (.done _) fun _ =>
    .bind (Script.asks_log (fun _ => trivial) _) fun _ => .done _

lemma run_compileFile_eq_ok_iff {target : Target} {compiled : Compiled} :
    ((r.compileFile path).run host world).1 = .ok (target, compiled) ↔
      ∃ content, Target.parse r.target = .ok target ∧ world.folder.read path = .ok content ∧
        compile ⟨path, content⟩ target.name = .ok compiled := by
  simp only [compileFile, note, Script.run_bind_eq_ok_iff, Script.run_done, Script.run_log,
    Script.run_pure, Except.mapError_eq_ok_iff, run_loadSource_eq_ok_iff, compileSource_eq_ok_iff,
    Except.ok.injEq]
  constructor
  · rintro ⟨target, htarget, source, ⟨content, hread, rfl⟩, compiled, hcompile, -, -, heq⟩
    cases heq
    exact ⟨content, htarget, hread, hcompile⟩
  · rintro ⟨content, htarget, hread, hcompile⟩
    exact ⟨target, htarget, _, ⟨content, hread, rfl⟩, compiled, hcompile, (), trivial, rfl⟩

/-! ### The text of a command -/

/-- The one argument of the command is the path of a file with this content. -/
structure HasSource (r : Request) (read : Text → Except FileError Text) (path content : Text) :
    Prop where
  arguments_eq : r.arguments = [path]
  path_ne_nil : path ≠ []
  read_eq : read path = .ok content

/-- The text that a command comes to, where `read` gives the content of a file: what a
source is compiled to, a stage of it, or its value. Running and building come to none. -/
inductive Yields (r : Request) (read : Text → Except FileError Text) : Text → Prop where
  | emit {path content : Text} {target : Target} {compiled : Compiled}
      (haction : r.action = .emit) (hsource : r.HasSource read path content)
      (htarget : Target.parse r.target = .ok target)
      (hcompile : compile ⟨path, content⟩ target.name = .ok compiled) :
      Yields r read compiled.output
  | dump {path content shown : Text} {parsed : Parsed}
      (haction : r.action = .dump) (hsource : r.HasSource read path content)
      (hparse : content.parse = .ok parsed) (hstage : showStage r.stage parsed = .ok shown) :
      Yields r read shown
  | eval {path content printed : Text} {parsed : Parsed}
      (haction : r.action = .eval) (hsource : r.HasSource read path content)
      (hparse : content.parse = .ok parsed) (hrun : parsed.tree.toProgram.run = .ok printed) :
      Yields r read printed

/-- Whether the command builds an executable. -/
def Builds (r : Request) : Prop := r.action = .build ∨ r.action = .run

/-- Whether the text of the command goes to a file. -/
def Writes (r : Request) : Prop := r.action = .emit ∧ r.output ≠ []

instance (r : Request) : Decidable r.Builds := inferInstanceAs (Decidable (_ ∨ _))

instance (r : Request) : Decidable r.Writes := inferInstanceAs (Decidable (_ ∧ _))

lemma Yields.not_builds (h : r.Yields read text) : ¬ r.Builds := by
  rintro (hbuilds | hbuilds) <;> cases h with
  | emit haction | dump haction | eval haction => cases hbuilds.symm.trans haction

/-- The first part of the command. It comes to a text, or to the path of what was built. -/
def prepare (r : Request) : Script CommandError Text :=
  match r.action with
  | .run | .build => r.buildExecutable
  | .emit => r.generatedText
  | .dump => r.stageText
  | .eval => r.valueText

/-- The second part of the command. -/
def finish (r : Request) (text : Text) : Script CommandError Unit :=
  match r.action with
  | .run => (Script.start ⟨[text], []⟩).mapError .failed
  | .build => (Script.copy text r.output).mapError .unwritable
  | .emit =>
    if r.output.isEmpty then (Script.print text).mapError .unwritable
    else (Script.write r.output text).mapError .unwritable
  | .dump => do
    let _ ← (Script.print text).attempt
    return ()
  | .eval => (Script.print text).mapError .unwritable

lemma script_eq (r : Request) : r.script = r.prepare >>= r.finish := by
  obtain ⟨action, settings, environment, arguments⟩ := r
  cases action <;> rfl

lemma asks_prepare (h : ¬ r.Builds) : r.prepare.Asks Operation.IsQuiet := by
  rw [prepare]
  cases haction : r.action with
  | run => exact absurd (.inr haction) h
  | build => exact absurd (.inl haction) h
  | emit => exact .bind (.done _) fun path => .bind (r.asks_compileFile path) fun _ => .done _
  | dump | eval =>
      exact .bind (.done _) fun path => .bind (asks_loadSource path) fun _ =>
        .bind (.done _) fun _ => .done _

/-- **The ways to come to a text.** A command that builds nothing comes to the text that it
yields, and to no other one. -/
lemma run_prepare_eq_ok_iff (h : ¬ r.Builds) (host : Host) (world : World) :
    (r.prepare.run host world).1 = .ok text ↔ r.Yields world.folder.read text := by
  rw [prepare]
  cases haction : r.action with
  | run => exact absurd (.inr haction) h
  | build => exact absurd (.inl haction) h
  | emit =>
      simp only [generatedText, Script.run_bind_eq_ok_iff, Script.run_done, sourcePath_eq_ok_iff,
        Prod.exists, run_compileFile_eq_ok_iff, Script.run_pure, Except.ok.injEq]
      constructor
      · rintro ⟨path, ⟨hargs, hne⟩, target, compiled, ⟨content, htarget, hread, hcompile⟩, rfl⟩
        exact .emit haction ⟨hargs, hne, hread⟩ htarget hcompile
      · intro hyields
        cases hyields with
        | emit _ hsource htarget hcompile =>
            exact ⟨_, ⟨hsource.arguments_eq, hsource.path_ne_nil⟩, _, _,
              ⟨_, htarget, hsource.read_eq, hcompile⟩, rfl⟩
        | dump haction' | eval haction' => cases haction.symm.trans haction'
  | dump =>
      simp only [stageText, Script.run_bind_eq_ok_iff, Script.run_done, sourcePath_eq_ok_iff,
        run_loadSource_eq_ok_iff, parseSource_eq_ok_iff]
      constructor
      · rintro ⟨path, ⟨hargs, hne⟩, source, ⟨content, hread, rfl⟩, parsed, hparse, hstage⟩
        exact .dump haction ⟨hargs, hne, hread⟩ hparse hstage
      · intro hyields
        cases hyields with
        | dump _ hsource hparse hstage =>
            exact ⟨_, ⟨hsource.arguments_eq, hsource.path_ne_nil⟩, _,
              ⟨_, hsource.read_eq, rfl⟩, _, hparse, hstage⟩
        | emit haction' | eval haction' => cases haction.symm.trans haction'
  | eval =>
      simp only [valueText, Script.run_bind_eq_ok_iff, Script.run_done, sourcePath_eq_ok_iff,
        run_loadSource_eq_ok_iff, parseSource_eq_ok_iff, evaluate_eq_ok_iff]
      constructor
      · rintro ⟨path, ⟨hargs, hne⟩, source, ⟨content, hread, rfl⟩, parsed, hparse, hrun⟩
        exact .eval haction ⟨hargs, hne, hread⟩ hparse hrun
      · intro hyields
        cases hyields with
        | eval _ hsource hparse hrun =>
            exact ⟨_, ⟨hsource.arguments_eq, hsource.path_ne_nil⟩, _,
              ⟨_, hsource.read_eq, rfl⟩, _, hparse, hrun⟩
        | emit haction' | dump haction' => cases haction.symm.trans haction'

/-- A command comes to one text at most. -/
lemma Yields.unique {folder : Folder} (h : r.Yields folder.read text)
    (h' : r.Yields folder.read text') : text = text' := by
  have hrun := (run_prepare_eq_ok_iff h.not_builds .bare (.start folder)).mpr h
  have hrun' := (run_prepare_eq_ok_iff h.not_builds .bare (.start folder)).mpr h'
  exact Except.ok.inj (hrun.symm.trans hrun')

/-! ### Building without a compiler -/

lemma tempDir_ne_nil (r : Request) : r.tempDir ≠ [] := by
  rw [tempDir]
  split
  · decide
  · decide
  · rename_i hne _
    exact hne

/-- **A command that finds no compiler** fails and prints nothing, and adds at most a
directory to those for temporary files. -/
lemma run_buildExecutable
    (hcompiler : host.programs (NativeCompiler.nameOrDefault r.compiler) = none) (world : World) :
    (∃ e, (r.buildExecutable.run host world).1 = .error e) ∧
    (r.buildExecutable.run host world).2.stdout = world.stdout ∧
    ((r.buildExecutable.run host world).2.folder = world.folder ∨
      AddsIn r.tempDir tempStem world.folder (r.buildExecutable.run host world).2.folder) := by
  rw [buildExecutable, Script.run_bind, Script.run_done]
  cases r.sourcePath with
  | error e => exact ⟨⟨e, rfl⟩, rfl, .inl rfl⟩
  | ok path =>
      dsimp only
      obtain ⟨hfolder, hstdout⟩ := (r.asks_compileFile path).run_quiet host world
      cases hcompile : ((r.compileFile path).run host world).1 with
      | error e =>
          rw [Script.run_bind_of_error hcompile]
          exact ⟨⟨e, rfl⟩, hstdout, .inl hfolder⟩
      | ok out =>
          obtain ⟨target, compiled⟩ := out
          rw [Script.run_bind_of_ok hcompile]
          -- the compiler is missing, so nothing comes after the build
          obtain ⟨⟨e, hbuild⟩, hprinted, hadds⟩ := run_build_of_not_found hcompiler
            r.tempDir_ne_nil target compiled.output ((r.compileFile path).run host world).2
          rw [Script.run_bind_of_error (Script.run_mapError_of_error hbuild), Script.run_mapError]
          rw [hfolder] at hadds
          dsimp only
          exact ⟨⟨_, rfl⟩, hprinted.trans hstdout, hadds⟩

/-! ### The second part -/

lemma run_finish_of_not_writes (hbuilds : ¬ r.Builds) (hwrites : ¬ r.Writes)
    (hroom : host.shown world.stdout text = text) :
    (r.finish text).run host world =
      (.ok (), { world with stdout := world.stdout ++ text }) := by
  have hprint := Script.run_print_of_room hroom
  rw [finish]
  cases haction : r.action with
  | run => exact absurd (.inr haction) hbuilds
  | build => exact absurd (.inl haction) hbuilds
  | emit =>
      have hempty : r.output = [] := of_not_not fun hne => hwrites ⟨haction, hne⟩
      simp [hempty, Script.run_mapError, hprint, Except.mapError]
  | dump => simp [Script.run_bind, Script.run_attempt, hprint, Script.run_pure]
  | eval => simp [Script.run_mapError, hprint, Except.mapError]

lemma run_finish_of_writes (hwrites : r.Writes) :
    (r.finish text).run host world =
      ((world.folder.write r.output text).1.mapError .unwritable,
        { world with folder := (world.folder.write r.output text).2 }) := by
  obtain ⟨haction, hne⟩ := hwrites
  simp [finish, haction, hne, Script.run_mapError, Script.run_write]

/-- The command generates for the same target and the same arguments as another one, and
prints. -/
structure PrintsFor (r' r : Request) : Prop where
  action_eq : r'.action = .emit
  output_eq : r'.output = []
  target_eq : r'.target = r.target
  arguments_eq : r'.arguments = r.arguments

lemma PrintsFor.not_writes (h : r'.PrintsFor r) : ¬ r'.Writes :=
  fun hwrites => hwrites.2 h.output_eq

/-- It comes to the same text as the other one. -/
lemma Yields.of_printsFor (h : r.Yields read text) (haction : r.action = .emit)
    (hprints : r'.PrintsFor r) : r'.Yields read text := by
  cases h with
  | emit _ hsource htarget hcompile =>
      exact .emit hprints.action_eq
        ⟨hprints.arguments_eq.trans hsource.arguments_eq, hsource.path_ne_nil, hsource.read_eq⟩
        (hprints.target_eq ▸ htarget) hcompile
  | dump haction' | eval haction' => cases haction.symm.trans haction'

/-- Each command has a command line that prints for it. -/
lemma exists_printsFor (environment : Environment) (r : Request) :
    ∃ args r', Reading.ofArgs environment args = .request r' ∧ r'.PrintsFor r :=
  ⟨"emit" :: "--target" :: r.target :: "--" :: r.arguments,
    ⟨.emit, [("target", r.target)], environment, r.arguments⟩, rfl, ⟨rfl, rfl, rfl, rfl⟩⟩

/-- The directory for temporary files is not in the working directory. -/
def TempElsewhere (r : Request) (folder : Folder) : Prop :=
  ∀ place, folder.LeadsTo r.tempDir place → ¬ folder.home <+: place

end Request

/-! ### The end of a command -/

/-- Standard output takes all of a text, and every file could have it as its content. -/
structure HasRoom (host : Host) (folder : Folder) (text : Text) : Prop where
  shown_eq : host.shown [] text = text
  fitting_eq : ∀ place, folder.fitting place text = text

lemma Report.ofEnd_error (e : CommandError) {world : World} (h : world.stdout = []) :
    Report.ofEnd (.error e, world) =
      ⟨⟨world.folder, [], world.log ++ [.message e.message]⟩, 1⟩ := by
  rw [Report.ofEnd, h]

/-- How a command can end in a folder, and with which report: it comes to no text, its output
cannot be opened, its text is printed, or its text is written. -/
inductive Ends (r : Request) (folder : Folder) : Report → Prop where
  | failed {after : Folder} {log : List LogEntry}
      (hafter : after = folder ∨ r.Builds ∧ AddsIn r.tempDir tempStem folder after)
      (hnone : ∀ text, ¬ r.Yields folder.read text) : Ends r folder ⟨⟨after, [], log⟩, 1⟩
  | unopened {log : List LogEntry} {reason : FileError.Reason} (hwrites : r.Writes)
      (hopen : folder.openWrite r.output = .error reason) : Ends r folder ⟨⟨folder, [], log⟩, 1⟩
  | printed {log : List LogEntry} {text : Text} (htext : r.Yields folder.read text)
      (hwrites : ¬ r.Writes) : Ends r folder ⟨⟨folder, text, log⟩, 0⟩
  | written {log : List LogEntry} {text : Text} {place : Place}
      (htext : r.Yields folder.read text) (hwrites : r.Writes)
      (hopen : folder.openWrite r.output = .ok place) :
      Ends r folder ⟨⟨folder.put place text, [], log⟩, 0⟩

section

variable {host : Host} {environment : Environment} {args : List Text} {r : Request}
  {folder : Folder}

/-- The end of a command that has come to its text and has printed nothing so far. -/
lemma ends_finish {text : Text} (htext : r.Yields folder.read text)
    (hroom : HasRoom host folder text) (log : List LogEntry) :
    Ends r folder (.ofEnd ((r.finish text).run host ⟨folder, [], log⟩)) := by
  by_cases hwrites : r.Writes
  · rw [Request.run_finish_of_writes hwrites]
    rcases folder.write_cases r.output text with ⟨reason, hopen, heq⟩ | ⟨place, hopen, heq, hok⟩
    · rw [heq]
      exact .unopened hwrites hopen
    · rw [heq, hok.mpr (hroom.fitting_eq place), hroom.fitting_eq]
      exact .written htext hwrites hopen
  · rw [Request.run_finish_of_not_writes htext.not_builds hwrites hroom.shown_eq]
    exact .printed htext hwrites

/-- **How a command ends** that finds no compiler and has room for its text. -/
lemma ends_execute (hr : Reading.ofArgs environment args = .request r)
    (hcompiler : r.Builds → host.programs (NativeCompiler.nameOrDefault r.compiler) = none)
    (hroom : ∀ text, r.Yields folder.read text → HasRoom host folder text) :
    Ends r folder (host.execute environment args folder) := by
  have hexecute : host.execute environment args folder =
      .ofEnd ((r.prepare >>= r.finish).run host (.start folder)) := by
    rw [Host.execute, hr, ← r.script_eq]
  rw [hexecute]
  by_cases hbuilds : r.Builds
  · have hprepare : r.prepare = r.buildExecutable := by
      rcases hbuilds with haction | haction <;> rw [Request.prepare, haction]
    obtain ⟨⟨e, herror⟩, hstdout, hfolder⟩ :=
      Request.run_buildExecutable (hcompiler hbuilds) (.start folder)
    rw [hprepare, Script.run_bind_of_error herror, Report.ofEnd_error e hstdout]
    exact .failed (hfolder.imp_right fun hadds => ⟨hbuilds, hadds⟩)
      fun text htext => htext.not_builds hbuilds
  · have hsame := (Request.asks_prepare hbuilds).run_quiet host (.start folder)
    cases hend : (r.prepare.run host (.start folder)).1 with
    | error e =>
        rw [Script.run_bind_of_error hend, Report.ofEnd_error e hsame.2]
        refine .failed (.inl hsame.1) fun text htext => ?_
        rw [(Request.run_prepare_eq_ok_iff hbuilds host (.start folder)).mpr htext] at hend
        cases hend
    | ok text =>
        have htext := (Request.run_prepare_eq_ok_iff hbuilds host (.start folder)).mp hend
        rw [Script.run_bind_of_ok hend, hsame.eq]
        exact ends_finish htext (hroom text htext) _

/-- A command that comes to a text and has no output prints it. -/
lemma exit_and_stdout_of_yields {text : Text} (hr : Reading.ofArgs environment args = .request r)
    (htext : r.Yields folder.read text) (hwrites : ¬ r.Writes) (hroom : HasRoom host folder text) :
    (host.execute environment args folder).exit = 0 ∧
      (host.execute environment args folder).stdout = text := by
  have hends : Ends r folder (host.execute environment args folder) :=
    ends_execute hr (fun hbuilds => absurd hbuilds htext.not_builds)
      fun text' htext' => htext.unique htext' ▸ hroom
  generalize host.execute environment args folder = report at hends
  cases hends with
  | failed _ hnone => exact absurd htext (hnone text)
  | unopened hwrites' | written _ hwrites' => exact absurd hwrites' hwrites
  | printed htext' => exact ⟨rfl, htext'.unique htext⟩

-- with the temporary files in the working directory, a build leaves its directory there
example :
    let folder := (Folder.emptyAt ["work"]).addFile "a.lam" "f(1)"
    let report := Host.bare.execute [("TMPDIR", ".")] ["build", "a.lam"] folder
    report.exit = 1 ∧ (["work", "lamc-tmp--9999"] : Place) ∈ report.folder.dirs := by
  decide +kernel

-- where room runs out, the output is emptied and the command fails
example :
    let folder := (Folder.emptyAt ["work"]).addFile "a.lam" "f(1)" |>.addFile "out.c" "old"
    let report := Host.bare.execute [] ["emit", "-o", "out.c", "a.lam"]
      { folder with capacity := some 4 }
    report.exit = 1 ∧ report.folder.read "out.c" = .ok [] := by
  decide +kernel

end

end FlatClosure.Command
