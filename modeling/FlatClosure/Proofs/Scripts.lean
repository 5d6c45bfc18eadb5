/-
What scripts can do.

Which operations a script can ask for is read off its text. What each of these operations
keeps, the whole run keeps, whatever the answers are and wherever the script fails.

* `Script.run_bind`, `Script.run_mapError`, `Script.run_attempt`: runs of composed scripts.
* `Script.Asks`: the operations that a script can ask for; `Script.Asks.run`: a relation
  between worlds that these operations keep holds between the beginning and the end.
* `Operation.IsQuiet`, `Script.Asks.run_quiet`: reading and logging change neither the
  folder nor standard output.
* `Operation.ActsIn`, `Script.Asks.run_actsIn`: scripts that write into one directory and
  start programs that do not exist change only what is below this directory.
* `run_build_of_not_found`: without a compiler, building fails and leaves at most a new
  directory among the temporary files.
-/
import FlatClosure.Command.Build
import FlatClosure.Proofs.Folders

namespace FlatClosure.Command

open Folder (IsName LeadsTo SameOff AddsIn)

namespace Script

variable {ε ε' α β : Type} {P : Operation → Prop} {script : Script ε α} {next : α → Script ε β}
  {host : Host} {world : World}

/-! ### Runs of composed scripts -/

lemma run_bind (script : Script ε α) (next : α → Script ε β) (host : Host) (world : World) :
    (script >>= next).run host world =
      match script.run host world with
      | (.ok a, after) => (next a).run host after
      | (.error e, after) => (.error e, after) := by
  induction script generalizing world with
  | done result => cases result <;> rfl
  | ask operation rest ih => exact ih _ _

/-- A composed script comes to a value if both parts do. -/
lemma run_bind_eq_ok_iff {b : β} :
    ((script >>= next).run host world).1 = .ok b ↔
      ∃ a, (script.run host world).1 = .ok a ∧
        ((next a).run host (script.run host world).2).1 = .ok b := by
  rw [run_bind]
  rcases script.run host world with ⟨e | a, after⟩ <;> simp

lemma run_bind_of_ok {a : α} (h : (script.run host world).1 = .ok a) :
    (script >>= next).run host world = (next a).run host (script.run host world).2 := by
  rw [run_bind]
  rcases hrun : script.run host world with ⟨result, after⟩
  rw [hrun] at h
  cases h
  rfl

lemma run_bind_of_error {e : ε} (h : (script.run host world).1 = .error e) :
    (script >>= next).run host world = (.error e, (script.run host world).2) := by
  rw [run_bind]
  rcases hrun : script.run host world with ⟨result, after⟩
  rw [hrun] at h
  cases h
  rfl

lemma run_mapError (f : ε → ε') (script : Script ε α) (host : Host) (world : World) :
    (script.mapError f).run host world =
      ((script.run host world).1.mapError f, (script.run host world).2) := by
  induction script generalizing world with
  | done result => cases result <;> rfl
  | ask operation rest ih => exact ih _ _

lemma run_mapError_eq_ok_iff {f : ε → ε'} {a : α} :
    ((script.mapError f).run host world).1 = .ok a ↔ (script.run host world).1 = .ok a := by
  rw [run_mapError]
  exact Except.mapError_eq_ok_iff

lemma run_mapError_of_error {f : ε → ε'} {e : ε} (h : (script.run host world).1 = .error e) :
    ((script.mapError f).run host world).1 = .error (f e) := by
  rw [run_mapError, h]
  rfl

lemma run_attempt (script : Script ε α) (host : Host) (world : World) :
    (script.attempt : Script ε' (Except ε α)).run host world =
      (.ok (script.run host world).1, (script.run host world).2) := by
  induction script generalizing world with
  | done result => rfl
  | ask operation rest ih => exact ih _ _

lemma run_log (entries : List LogEntry) (host : Host) (world : World) :
    ((log entries : Script ε Unit).run host world).1 = .ok () := by
  induction entries generalizing world with
  | nil => rfl
  | cons entry entries ih => exact ih _

lemma run_done (result : Except ε α) (host : Host) (world : World) :
    (done result).run host world = (result, world) := rfl

lemma run_pure (a : α) (host : Host) (world : World) :
    (pure a : Script ε α).run host world = (.ok a, world) := rfl

lemma run_read (path : Text) (host : Host) (world : World) :
    (read path).run host world = (world.folder.read path, world) := rfl

lemma run_write (path content : Text) (host : Host) (world : World) :
    (write path content).run host world =
      ((world.folder.write path content).1,
        { world with folder := (world.folder.write path content).2 }) := rfl

lemma run_makeTemp (dir stem : Text) (host : Host) (world : World) :
    (makeTemp dir stem).run host world =
      ((world.folder.makeTemp host.drawn dir stem).1,
        { world with folder := (world.folder.makeTemp host.drawn dir stem).2 }) := rfl

lemma run_print (text : Text) (host : Host) (world : World) :
    (print text).run host world =
      (if host.shown world.stdout text = text then .ok ()
        else .error ⟨.writing, "/dev/stdout", .noSpace⟩,
        { world with stdout := world.stdout ++ host.shown world.stdout text }) := rfl

lemma run_print_of_room {text : Text} (h : host.shown world.stdout text = text) :
    (print text).run host world = (.ok (), { world with stdout := world.stdout ++ text }) := by
  rw [run_print, h, if_pos rfl]

lemma run_start_of_none {invocation : NativeCompiler.Invocation}
    (h : host.programs invocation.name = none) (world : World) :
    (start invocation).run host world =
      (.error (NativeCompiler.notFoundMessage invocation.name), world) := by
  have hrun : (start invocation).run host world = (Operation.start invocation).perform host world :=
    rfl
  rw [hrun, Operation.perform, h]
  rfl

/-! ### The operations of a script -/

/-- All operations that the script can ask for, whatever the answers are, have a
property. -/
inductive Asks (P : Operation → Prop) : Script ε α → Prop where
  | done (result : Except ε α) : Asks P (.done result)
  | ask {operation : Operation} {next : operation.Answer → Script ε α} (hop : P operation)
      (hnext : ∀ answer, Asks P (next answer)) : Asks P (.ask operation next)

lemma Asks.bind (h : script.Asks P) (hnext : ∀ a, (next a).Asks P) : (script >>= next).Asks P := by
  induction h with
  | done result =>
      cases result with
      | error e => exact .done _
      | ok a => exact hnext a
  | ask hop _ ih => exact .ask hop ih

lemma Asks.mapError {f : ε → ε'} (h : script.Asks P) : (script.mapError f).Asks P := by
  induction h with
  | done result => cases result <;> exact .done _
  | ask hop _ ih => exact .ask hop ih

lemma asks_log (h : ∀ entry, P (.log entry)) (entries : List LogEntry) :
    (log entries : Script ε Unit).Asks P := by
  induction entries with
  | nil => exact .done _
  | cons entry entries ih => exact .ask (h entry) fun _ => ih

/-- **What each operation keeps, the run keeps.** The worlds before and after a run are
related if those before and after each operation are. -/
theorem Asks.run {R : World → World → Prop} (h : script.Asks P) (hrefl : ∀ w, R w w)
    (htrans : ∀ {a b c}, R a b → R b c → R a c)
    (hstep : ∀ operation w, P operation → R w (operation.perform host w).2) (world : World) :
    R world (script.run host world).2 := by
  induction h generalizing world with
  | done result => exact hrefl world
  | ask hop _ ih => exact htrans (hstep _ world hop) (ih _ _)

end Script

/-! ### Reading and logging -/

/-- Operations that change neither files nor standard output. -/
def Operation.IsQuiet : Operation → Prop
  | read _ | log _ => True
  | _ => False

/-- The worlds differ in their logs at most. -/
def World.SameButLog (before after : World) : Prop :=
  after.folder = before.folder ∧ after.stdout = before.stdout

lemma World.SameButLog.eq {before after : World} (h : before.SameButLog after) :
    after = { before with log := after.log } := by
  rw [← h.1, ← h.2]

lemma Operation.IsQuiet.perform {operation : Operation} (h : operation.IsQuiet) (host : Host)
    (world : World) : world.SameButLog (operation.perform host world).2 := by
  cases operation with
  | read path => exact ⟨rfl, rfl⟩
  | log entry => exact ⟨rfl, rfl⟩
  | write | copy | makeTemp | start | print => exact h.elim

/-- A script that reads and logs changes neither files nor standard output. -/
lemma Script.Asks.run_quiet {ε α : Type} {script : Script ε α}
    (h : script.Asks Operation.IsQuiet) (host : Host) (world : World) :
    world.SameButLog (script.run host world).2 :=
  h.run (fun _ => ⟨rfl, rfl⟩) (fun h h' => ⟨h'.1.trans h.1, h'.2.trans h.2⟩)
    (fun _ w hop => hop.perform host w) world

/-! ### Writing into one directory -/

/-- Operations that write a file of `dir` or start a program that does not exist. -/
inductive Operation.ActsIn (host : Host) (dir : Text) : Operation → Prop where
  | write {name content : Text} (hname : IsName name) :
      ActsIn host dir (.write (Path.join dir name) content)
  | start {invocation : NativeCompiler.Invocation} (hnone : host.programs invocation.name = none) :
      ActsIn host dir (.start invocation)

/-- The worlds differ in their logs and in what stands below a place at most. -/
def World.SameOffBelow (place : Place) (before after : World) : Prop :=
  SameOff (place <+: ·) before.folder after.folder ∧ after.stdout = before.stdout

lemma Operation.ActsIn.perform {operation : Operation} {host : Host} {dir : Text} {place : Place}
    {world : World} (h : operation.ActsIn host dir) (hdir : dir ≠ [])
    (hleads : world.folder.LeadsTo dir place) :
    world.SameOffBelow place (operation.perform host world).2 := by
  cases h with
  | write hname => exact ⟨hleads.sameOff_write_join hdir hname _, rfl⟩
  | start hnone =>
      rw [Operation.perform, hnone]
      exact ⟨.refl _ _, rfl⟩

/-- A script that writes into one directory changes nothing that is not below it. -/
lemma Script.Asks.run_actsIn {ε α : Type} {script : Script ε α} {host : Host} {dir : Text}
    {place : Place} (h : script.Asks (Operation.ActsIn host dir)) (world : World) (hdir : dir ≠ [])
    (hleads : world.folder.LeadsTo dir place) :
    world.SameOffBelow place (script.run host world).2 := by
  -- the path of the directory leads there all the time
  refine h.run (R := fun w w' => w.folder.LeadsTo dir place → w.SameOffBelow place w')
    (fun w _ => ⟨.refl _ _, rfl⟩) (fun h h' hleads => ?_)
    (fun _ w hop hleads => hop.perform hdir hleads) world hleads
  obtain ⟨hsame, hstdout⟩ := h hleads
  obtain ⟨hsame', hstdout'⟩ := h' (hsame.leadsTo hleads)
  exact ⟨hsame.trans hsame', hstdout'.trans hstdout⟩

/-! ### Building without a compiler -/

lemma asks_installation (host : Host) (dir : Text) :
    (Support.installation dir).Asks (Operation.ActsIn host dir) :=
  .bind (.ask (.write ⟨by decide, by decide⟩) fun _ => .done _) fun _ =>
    .bind (.ask (.write ⟨by decide, by decide⟩) fun _ => .done _) fun _ => .done _

lemma isName_sourceName (target : Target) : IsName (sourceName target) := by
  cases target <;> exact ⟨by decide, by decide⟩

section

variable {host : Host} {cc : Text}
  (hcc : host.programs (NativeCompiler.nameOrDefault cc) = none)

include hcc

lemma asks_buildIn (dir : Text) (target : Target) (text : Text) :
    (buildIn cc dir target text).Asks (Operation.ActsIn host dir) :=
  .bind (asks_installation host dir).mapError fun _ =>
    .bind (Script.Asks.ask (.write (isName_sourceName target)) fun _ => .done _).mapError fun _ =>
      .bind (Script.Asks.ask (.start hcc) fun _ => .done _).mapError fun _ => .done _

/-- Whatever can be written, the compiler cannot be started. -/
lemma run_buildIn_ne_ok (dir : Text) (target : Target) (text path : Text) (world : World) :
    ((buildIn cc dir target text).run host world).1 ≠ .ok path := by
  intro h
  rw [buildIn] at h
  obtain ⟨support, -, h⟩ := Script.run_bind_eq_ok_iff.mp h
  obtain ⟨-, -, h⟩ := Script.run_bind_eq_ok_iff.mp h
  obtain ⟨_, hstart, -⟩ := Script.run_bind_eq_ok_iff.mp h
  rw [Script.run_mapError, Script.run_start_of_none hcc] at hstart
  cases hstart

/-- **Building without a compiler** fails and prints nothing. It changes no file, or leaves a
new directory in the one for temporary files. -/
lemma run_build_of_not_found {tempDir : Text} (hdir : tempDir ≠ []) (target : Target) (text : Text)
    (world : World) :
    (∃ e, ((build cc tempDir target text).run host world).1 = .error e) ∧
    ((build cc tempDir target text).run host world).2.stdout = world.stdout ∧
    (((build cc tempDir target text).run host world).2.folder = world.folder ∨
      AddsIn tempDir tempStem world.folder
        ((build cc tempDir target text).run host world).2.folder) := by
  have hstem : IsName tempStem := ⟨by decide, by decide⟩
  rw [build, Script.run_bind, Script.run_mapError, Script.run_makeTemp]
  rcases world.folder.makeTemp_cases host.drawn hdir hstem with
    ⟨e, heq⟩ | ⟨path, made, place, heq, hpath, hleads, hadds⟩
  · rw [heq]
    exact ⟨⟨_, rfl⟩, rfl, .inl rfl⟩
  · rw [heq]
    have hasks := asks_buildIn hcc path target text
    obtain ⟨hsame, hstdout⟩ := hasks.run_actsIn { world with folder := made } hpath hleads
    refine ⟨?_, hstdout, .inr (hadds _ hsame)⟩
    dsimp only [Except.mapError]
    cases hend : ((buildIn cc path target text).run host { world with folder := made }).1 with
    | error e => exact ⟨e, rfl⟩
    | ok executable => exact absurd hend (run_buildIn_ne_ok hcc path target text executable _)

end

end FlatClosure.Command
