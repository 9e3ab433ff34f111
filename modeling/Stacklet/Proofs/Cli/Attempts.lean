import Stacklet.Cli.Session

/-! # What a session attempts

The host of a session is taken as it comes: each thing that it is asked for changes the world in
some way and has some answer. What a session attempted on it, and with what success, is a list in
the order of time. A session that stops at the first failure carries out a list of tasks that can be
written down beforehand.
-/

namespace Stacklet.Cli

/-- What a session may ask of its host, besides complaining. -/
inductive Task where
  | print (text : String)
  | read (path : String)
  | write (path text : String)
  | assemble (source output : String) (echo : Bool)
  | mark (path : String)
  | check (path : String)
  | execute (path : String)
deriving DecidableEq

namespace Task

/-- The kinds of tasks. -/
inductive Kind where
  | print
  | read
  | write
  | assemble
  | mark
  | check
  | execute
deriving DecidableEq

/-- The kind of a task. -/
def kind : Task → Kind
  | print _ => .print
  | read _ => .read
  | write .. => .write
  | assemble .. => .assemble
  | mark _ => .mark
  | check _ => .check
  | execute _ => .execute

end Task

/-- A task that was attempted, with the worlds before and after. -/
structure Attempt (W : Type) where
  before : W
  task : Task
  succeeded : Bool
  after : W

/-- Whether a process was started and succeeded. -/
def endedWell : Except OsError ExitStatus → Bool
  | .ok status => status.succeeded
  | .error _ => false

section

variable {W : Type}

/-- An operation as an attempt at a task. -/
def attemptOf {α : Type} (operation : StateM W α) (task : Task) (succeeds : α → Bool) (world : W) :
    Attempt W :=
  let (answer, after) := operation.run world
  ⟨world, task, succeeds answer, after⟩

/-- An attempt at a task on a host. -/
def Task.attempt (host : Host (StateM W)) (task : Task) : W → Attempt W :=
  match task with
  | print text => attemptOf (host.print text) task (·.isOk)
  | read path => attemptOf (host.readSource path) task (·.isOk)
  | write path text => attemptOf (host.writeFile path text) task (·.isOk)
  | assemble source output echo => attemptOf (host.assemble source output echo) task endedWell
  | mark path => attemptOf (host.markExecutable path) task (·.isOk)
  | check path => attemptOf (host.isFile path) task id
  | execute path => attemptOf (host.execute path) task endedWell

/-- What a session attempts, in order. -/
def Session.attempts (host : Host (StateM W)) : Session → W → List (Attempt W)
  | leave _, _ => []
  | complain text next, world => next.attempts host ((host.complain text).run world).2
  | print text next, world =>
    let (answer, after) := (host.print text).run world
    (Task.print text).attempt host world :: (next answer).attempts host after
  | readSource path next, world =>
    let (answer, after) := (host.readSource path).run world
    (Task.read path).attempt host world :: (next answer).attempts host after
  | writeFile path text next, world =>
    let (answer, after) := (host.writeFile path text).run world
    (Task.write path text).attempt host world :: (next answer).attempts host after
  | assemble source output echo next, world =>
    let (answer, after) := (host.assemble source output echo).run world
    (Task.assemble source output echo).attempt host world :: (next answer).attempts host after
  | markExecutable path next, world =>
    let (answer, after) := (host.markExecutable path).run world
    (Task.mark path).attempt host world :: (next answer).attempts host after
  | isFile path next, world =>
    let (answer, after) := (host.isFile path).run world
    (Task.check path).attempt host world :: (next answer).attempts host after
  | execute path next, world =>
    let (answer, after) := (host.execute path).run world
    (Task.execute path).attempt host world :: (next answer).attempts host after

/-! ## A host that keeps a record -/

/-- An operation that is recorded as an attempt at a task. -/
def recorded {α : Type} (operation : StateM W α) (task : Task) (succeeds : α → Bool) :
    StateM (W × List (Attempt W)) α :=
  fun (world, attempts) =>
    let (answer, after) := operation.run world
    (answer, after, attempts ++ [attemptOf operation task succeeds world])

/-- A host that answers as another one does, and records what it was asked for. -/
def Host.recording (host : Host (StateM W)) : Host (StateM (W × List (Attempt W))) where
  print text := recorded (host.print text) (.print text) (·.isOk)
  complain text := fun (world, attempts) => ((), ((host.complain text).run world).2, attempts)
  readSource path := recorded (host.readSource path) (.read path) (·.isOk)
  writeFile path text := recorded (host.writeFile path text) (.write path text) (·.isOk)
  assemble source output echo :=
    recorded (host.assemble source output echo) (.assemble source output echo) endedWell
  markExecutable path := recorded (host.markExecutable path) (.mark path) (·.isOk)
  isFile path := recorded (host.isFile path) (.check path) id
  execute path := recorded (host.execute path) (.execute path) endedWell

/-- What a session attempts is what such a host records, and the record changes nothing else. -/
theorem Session.run_recording (host : Host (StateM W)) (session : Session) (world : W)
    (earlier : List (Attempt W)) :
    (session.run host.recording).run (world, earlier) =
      (((session.run host).run world).1, ((session.run host).run world).2,
        earlier ++ session.attempts host world) := by
  induction session generalizing world earlier with
  | leave code =>
      rw [attempts, List.append_nil]
      rfl
  | complain text next ih => exact ih _ _
  | _ =>
      rename_i ih
      apply (ih _ _ _).trans
      rw [List.append_assoc]
      rfl

/-! ## Tasks in order -/

@[simp] theorem Task.attempt_before (host : Host (StateM W)) (task : Task) (world : W) :
    (task.attempt host world).before = world := by
  cases task <;> rfl

@[simp] theorem Task.attempt_task (host : Host (StateM W)) (task : Task) (world : W) :
    (task.attempt host world).task = task := by
  cases task <;> rfl

/-- Attempts tasks one after the other until one fails. -/
def attemptAll (host : Host (StateM W)) : List Task → W → List (Attempt W)
  | [], _ => []
  | task :: rest, world =>
    let attempt := task.attempt host world
    attempt :: if attempt.succeeded then attemptAll host rest attempt.after else []

variable {host : Host (StateM W)} {tasks : List Task} {world : W}

theorem attemptAll_singleton (host : Host (StateM W)) (task : Task) (world : W) :
    attemptAll host [task] world = [task.attempt host world] := by
  simp [attemptAll]

/-- An attempt was made because all attempts before were successful, in the world that they left,
and the tasks are attempted in order. -/
theorem attemptAll_eq_append {earlier later : List (Attempt W)} {attempt : Attempt W}
    (h : attemptAll host tasks world = earlier ++ attempt :: later) :
    earlier.map Attempt.task ++ [attempt.task] <+: tasks ∧
      (∀ done ∈ earlier, done.succeeded) ∧
      attempt.before = (earlier.getLast?.map Attempt.after).getD world ∧
      attempt = attempt.task.attempt host attempt.before := by
  induction earlier generalizing tasks world with
  | nil =>
      cases tasks with
      | nil => exact nomatch h
      | cons task rest =>
          obtain ⟨rfl, -⟩ := List.cons.inj h
          simp
  | cons first earlier ih =>
      cases tasks with
      | nil => exact nomatch h
      | cons task rest =>
          obtain ⟨rfl, hrest⟩ := List.cons.inj h
          by_cases hfirst : (task.attempt host world).succeeded
          · rw [if_pos hfirst] at hrest
            obtain ⟨hplanned, hsucceeded, hbefore, hattempt⟩ := ih hrest
            refine ⟨?_, ?_, ?_, hattempt⟩
            · simpa using hplanned
            · simpa [hfirst] using hsucceeded
            · rw [hbefore, List.getLast?_cons]
              cases earlier.getLast? <;> rfl
          · rw [if_neg hfirst] at hrest
            exact absurd hrest (by simp)

/-- Attempts are at the first of the tasks. -/
theorem task_attemptAll_begins (host : Host (StateM W)) (tasks : List Task) (world : W) :
    (attemptAll host tasks world).map Attempt.task <+: tasks := by
  rcases List.eq_nil_or_concat (attemptAll host tasks world) with h | ⟨earlier, attempt, h⟩
  · rw [h]
    exact List.nil_prefix
  · rw [List.concat_eq_append] at h
    rw [h, List.map_append]
    exact (attemptAll_eq_append h).1

/-! ## Sessions that carry out tasks -/

/-- A session attempts tasks until one fails, and leaves with zero just if none did. -/
structure Session.CarriesOut (host : Host (StateM W)) (session : Session) (tasks : List Task)
    (world : W) : Prop where
  attempts_eq : session.attempts host world = attemptAll host tasks world
  code_eq_zero_iff : ((session.run host).run world).1 = 0 ↔
    ∀ attempt ∈ attemptAll host tasks world, attempt.succeeded

/-- A session attempts nothing more and leaves with another code than zero. -/
structure Session.GivesUp (host : Host (StateM W)) (session : Session) (world : W) : Prop where
  attempts_eq : session.attempts host world = []
  code_ne_zero : ((session.run host).run world).1 ≠ 0

namespace Session

variable {session : Session} {task : Task}

theorem carriesOut_leave : CarriesOut host (leave 0) [] world :=
  ⟨rfl, iff_of_true rfl nofun⟩

theorem givesUp_leave {code : UInt8} (h : code ≠ 0) : GivesUp host (leave code) world :=
  ⟨rfl, h⟩

theorem givesUp_fail (message : String) (causes : List String) :
    GivesUp host (fail message causes) world :=
  ⟨rfl, (by decide : (1 : UInt8) ≠ 0)⟩

/-- A session begins with an operation, as an attempt at a task, and goes on with the answer. -/
structure Begins (host : Host (StateM W)) (session : Session) (task : Task) {α : Type}
    (operation : StateM W α) (succeeds : α → Bool) (next : α → Session) : Prop where
  attempt_eq : ∀ world, task.attempt host world = attemptOf operation task succeeds world
  attempts_eq : ∀ world, session.attempts host world = attemptOf operation task succeeds world ::
    (next (operation.run world).1).attempts host (operation.run world).2
  run_eq : ∀ world, (session.run host).run world =
    ((next (operation.run world).1).run host).run (operation.run world).2

theorem begins_print (text : String) (next : Except OsError Unit → Session) :
    Begins host (print text next) (.print text) (host.print text) (·.isOk) next :=
  ⟨fun _ => rfl, fun _ => rfl, fun _ => rfl⟩

theorem begins_readSource (path : String) (next : Except ReadError (List Char) → Session) :
    Begins host (readSource path next) (.read path) (host.readSource path) (·.isOk) next :=
  ⟨fun _ => rfl, fun _ => rfl, fun _ => rfl⟩

theorem begins_writeFile (path text : String) (next : Except OsError Unit → Session) :
    Begins host (writeFile path text next) (.write path text) (host.writeFile path text) (·.isOk)
      next :=
  ⟨fun _ => rfl, fun _ => rfl, fun _ => rfl⟩

theorem begins_assemble (source output : String) (echo : Bool)
    (next : Except OsError ExitStatus → Session) :
    Begins host (assemble source output echo next) (.assemble source output echo)
      (host.assemble source output echo) endedWell next :=
  ⟨fun _ => rfl, fun _ => rfl, fun _ => rfl⟩

theorem begins_markExecutable (path : String) (next : Except OsError Unit → Session) :
    Begins host (markExecutable path next) (.mark path) (host.markExecutable path) (·.isOk) next :=
  ⟨fun _ => rfl, fun _ => rfl, fun _ => rfl⟩

theorem begins_isFile (path : String) (next : Bool → Session) :
    Begins host (isFile path next) (.check path) (host.isFile path) id next :=
  ⟨fun _ => rfl, fun _ => rfl, fun _ => rfl⟩

theorem begins_execute (path : String) (next : Except OsError ExitStatus → Session) :
    Begins host (execute path next) (.execute path) (host.execute path) endedWell next :=
  ⟨fun _ => rfl, fun _ => rfl, fun _ => rfl⟩

variable {α : Type} {operation : StateM W α} {succeeds : α → Bool}

/-- A session that begins with a task carries it out before others, if it goes on with these when
the task succeeds, and gives up when not. -/
theorem Begins.carriesOut {next : α → Session}
    (h : Begins host session task operation succeeds next)
    (hsucceeds : succeeds (operation.run world).1 →
      CarriesOut host (next (operation.run world).1) tasks (operation.run world).2)
    (hfails : ¬ succeeds (operation.run world).1 →
      GivesUp host (next (operation.run world).1) (operation.run world).2) :
    CarriesOut host session (task :: tasks) world := by
  have hafter : (task.attempt host world).after = (operation.run world).2 := by
    rw [h.attempt_eq]
    rfl
  have hsucceeded : (task.attempt host world).succeeded = succeeds (operation.run world).1 := by
    rw [h.attempt_eq]
    rfl
  by_cases hanswer : succeeds (operation.run world).1
  · have hnext := hsucceeds hanswer
    constructor
    · rw [h.attempts_eq, hnext.attempts_eq, attemptAll, hsucceeded, if_pos hanswer, hafter,
        h.attempt_eq]
    · rw [h.run_eq, hnext.code_eq_zero_iff, attemptAll, hsucceeded, if_pos hanswer,
        List.forall_mem_cons, hsucceeded, hafter, and_iff_right hanswer]
  · have hnext := hfails hanswer
    constructor
    · rw [h.attempts_eq, hnext.attempts_eq, attemptAll, hsucceeded, if_neg hanswer, h.attempt_eq]
    · rw [h.run_eq, attemptAll, hsucceeded, if_neg hanswer, List.forall_mem_singleton, hsucceeded]
      exact iff_of_false hnext.code_ne_zero hanswer

/-- A session that gives up after its first task. -/
theorem Begins.of_givesUp {next : α → Session}
    (h : Begins host session task operation succeeds next)
    (hnext : GivesUp host (next (operation.run world).1) (operation.run world).2) :
    session.attempts host world = [task.attempt host world] ∧
      ((session.run host).run world).1 ≠ 0 := by
  rw [h.attempts_eq, h.run_eq, h.attempt_eq, hnext.attempts_eq]
  exact ⟨rfl, hnext.code_ne_zero⟩

/-- The first task is something that works or not. -/
theorem Begins.carriesOut_of_ok {operation : StateM W (Except OsError Unit)}
    {next : Except OsError Unit → Session}
    (h : Begins host session task operation (·.isOk) next)
    (hok : ∀ after, CarriesOut host (next (.ok ())) tasks after)
    (herror : ∀ error after, GivesUp host (next (.error error)) after) :
    CarriesOut host session (task :: tasks) world := by
  apply h.carriesOut
  · intro hanswer
    cases heq : (operation.run world).1 with
    | ok => exact hok _
    | error error =>
        rw [heq] at hanswer
        exact nomatch hanswer
  · intro hanswer
    cases heq : (operation.run world).1 with
    | ok =>
        rw [heq] at hanswer
        exact absurd rfl hanswer
    | error error => exact herror _ _

/-- The first task is to start a process. -/
theorem Begins.carriesOut_of_endedWell {operation : StateM W (Except OsError ExitStatus)}
    {next : Except OsError ExitStatus → Session}
    (h : Begins host session task operation endedWell next)
    (hok : ∀ after, CarriesOut host (next (.ok (.exited 0))) tasks after)
    (hstatus : ∀ status after, ¬ status.succeeded → GivesUp host (next (.ok status)) after)
    (herror : ∀ error after, GivesUp host (next (.error error)) after) :
    CarriesOut host session (task :: tasks) world := by
  apply h.carriesOut
  · intro hanswer
    cases heq : (operation.run world).1 with
    | ok status =>
        rw [heq] at hanswer
        obtain rfl : status = .exited 0 := of_decide_eq_true hanswer
        exact hok _
    | error error =>
        rw [heq] at hanswer
        exact nomatch hanswer
  · intro hanswer
    cases heq : (operation.run world).1 with
    | ok status =>
        rw [heq] at hanswer
        exact hstatus _ _ hanswer
    | error error => exact herror _ _

end Session

end

end Stacklet.Cli
