import Mathlib.Data.List.Nodup
import Stacklet.Proofs.Cli.Attempts
import Stacklet.Proofs.Sandbox.Writing

/-! # All or nothing

A compilation on the command line is a list of tasks that the options and the compiled text
determine. They are attempted in order until one fails, so what was attempted tells what has
succeeded before, and leaving with zero tells that nothing failed.
-/

namespace Stacklet.Cli

namespace Options

/-- The assembly file: the output itself, or a file beside it. -/
def assemblyFile (options : Options) : String :=
  if options.assemblyOnly then options.output else options.output ++ ".asm"

/-- An executable is asked for on the standard output. -/
def IsRefused (options : Options) : Prop :=
  options.output = "-" ∧ options.assemblyOnly = false

instance (options : Options) : Decidable options.IsRefused :=
  inferInstanceAs (Decidable (_ ∧ _))

/-- The tasks to run the executable. -/
def runTasks (options : Options) : List Task :=
  if options.run || options.time then
    [.check options.output, .execute (Session.invocation options.output)]
  else []

/-- The tasks to deliver assembly. -/
def delivery (options : Options) (text : String) : List Task :=
  if options.assemblyOnly then
    if options.output = "-" then [.print text] else [.write options.assemblyFile text]
  else
    [.write options.assemblyFile text,
      .assemble options.assemblyFile options.output options.echo,
      .mark options.output] ++ options.runTasks

/-- The tasks of a compilation, once it is known what the source file compiles to. -/
def plan (options : Options) : (compiled? : Option String) → List Task
  | none => [.read options.input]
  | some text =>
    .read options.input :: if options.IsRefused then [] else options.delivery text

/-- The assembly of the source file, if that can be read and compiled. -/
def compiled? {W : Type} (options : Options) (host : Host (StateM W)) (world : W) :
    Option String :=
  match ((host.readSource options.input).run world).1 with
  | .error _ => none
  | .ok text => (compile text options.frontEnd).result.toOption.map Assembly.render

end Options

section

variable {W : Type} {host : Host (StateM W)} {world : W} {options : Options}

/-- After a process that failed the code to leave with is not zero. -/
theorem ExitStatus.code_ne_zero {status : ExitStatus} (h : ¬ status.succeeded) :
    status.code ≠ 0 := by
  cases status with
  | exited code =>
      intro hcode
      obtain rfl : code = 0 := hcode
      exact h rfl
  | killed signal => exact (by decide : (1 : UInt8) ≠ 0)

namespace Session

theorem givesUp_failBuild (output : String) (error : BuildError) :
    GivesUp host (failBuild output error) world :=
  givesUp_fail _ _

/-- A program is never looked up among the installed commands, since its name has a slash. -/
theorem slash_mem_invocation {path : String} (h : path ≠ "") : '/' ∈ (invocation path).toList := by
  by_cases hslash : '/' ∈ path.toList
  · rw [invocation]
    split
    next => exact String.toList_append ▸ List.mem_append_right _ hslash
    next => exact hslash
  · have hrelative : isAbsolute path = false :=
      decide_eq_false fun hhead => hslash (List.mem_of_head? hhead)
    have hparts : path.toList.splitOn '/' = [path.toList] := List.splitOn_eq_singleton hslash
    have hne : path.toList ≠ [] := fun hnil => h (String.toList_eq_nil_iff.mp hnil)
    have hone : componentCount path = 1 := by
      simp only [componentCount, hparts, hrelative]
      by_cases hdot : path.toList = ['.'] <;> simp [hne, hdot]
    rw [invocation, if_pos ⟨hone, by rw [hrelative]; exact Bool.false_ne_true⟩,
      String.toList_append]
    exact List.mem_append_left _ (by decide)

theorem carriesOut_runOutput (output : String) :
    CarriesOut host (runOutput output) [.check output, .execute (invocation output)] world := by
  apply (begins_isFile _ _).carriesOut
  · intro hfile
    have hfound : ((host.isFile output).run world).1 = true := hfile
    rw [hfound]
    apply (begins_execute _ _).carriesOut_of_endedWell
    · exact fun _ => carriesOut_leave
    · exact fun _ _ hstatus => givesUp_leave (ExitStatus.code_ne_zero hstatus)
    · exact fun _ _ => givesUp_failBuild _ _
  · intro hfile
    have hfound : ((host.isFile output).run world).1 = false := Bool.eq_false_iff.mpr hfile
    rw [hfound]
    exact givesUp_failBuild _ _

theorem carriesOut_buildOutput (options : Options) (source : String) :
    CarriesOut host (buildOutput options source)
      ([.assemble source options.output options.echo, .mark options.output] ++ options.runTasks)
      world := by
  apply (begins_assemble _ _ _ _).carriesOut_of_endedWell
  · intro after
    apply (begins_markExecutable _ _).carriesOut_of_ok
    · intro after
      by_cases hrun : options.run || options.time
      · simp only [Options.runTasks, if_pos hrun]
        exact carriesOut_runOutput _
      · simp only [Options.runTasks, if_neg hrun]
        exact carriesOut_leave
    · exact fun _ _ => givesUp_failBuild _ _
  · intro status after hstatus
    simp only [if_neg hstatus]
    exact givesUp_failBuild _ _
  · exact fun _ _ => givesUp_failBuild _ _

theorem carriesOut_emitTo {path text : String} {next : Session} {tasks : List Task}
    (h : ∀ after, CarriesOut host next tasks after) :
    CarriesOut host (emitTo path text next) (.write path text :: tasks) world :=
  (begins_writeFile _ _ _).carriesOut_of_ok h fun _ _ => givesUp_fail _ _

theorem carriesOut_emit {text : String} {next : Session} {tasks : List Task}
    (h : ∀ after, CarriesOut host next tasks after) :
    CarriesOut host (emit text next) (.print text :: tasks) world :=
  (begins_print _ _).carriesOut_of_ok h fun _ _ => givesUp_fail _ _

theorem carriesOut_deliver (text : String) (h : ¬ options.IsRefused) :
    CarriesOut host (deliver options text) (options.delivery text) world := by
  unfold deliver Options.delivery Options.assemblyFile
  split
  case h_1 honly houtput =>
    rw [if_pos honly, if_pos houtput]
    exact carriesOut_emit fun _ => carriesOut_leave
  case h_2 honly houtput =>
    rw [if_pos honly, if_neg houtput, if_pos honly]
    exact carriesOut_emitTo fun _ => carriesOut_leave
  case h_3 honly houtput => exact absurd ⟨houtput, honly⟩ h
  case h_4 honly houtput =>
    rw [if_neg (by simp [honly]), if_neg (by simp [honly])]
    exact carriesOut_emitTo fun _ => carriesOut_buildOutput _ _

theorem givesUp_deliver (text : String) (h : options.IsRefused) :
    GivesUp host (deliver options text) world := by
  obtain ⟨houtput, honly⟩ := h
  unfold deliver
  rw [houtput, honly]
  exact givesUp_fail _ _

/-- With nothing to deliver a compilation ends after reading. -/
theorem build_of_nothing (h : options.compiled? host world = none ∨ options.IsRefused) :
    (build options).attempts host world = [(Task.read options.input).attempt host world] ∧
      (((build options).run host).run world).1 ≠ 0 := by
  apply (begins_readSource _ _).of_givesUp
  unfold Options.compiled? at h
  cases hanswer : ((host.readSource options.input).run world).1 with
  | error error => exact givesUp_fail _ _
  | ok source =>
      simp only [hanswer] at h
      cases hresult : (compile source options.frontEnd).result with
      | error error =>
          simp only [hresult]
          exact ⟨rfl, (by decide : (1 : UInt8) ≠ 0)⟩
      | ok lines =>
          rw [hresult] at h
          simp only [hresult]
          exact givesUp_deliver _ (h.resolve_left nofun)

/-- With something to deliver it attempts that after reading. -/
theorem carriesOut_build {text : String} (h : options.compiled? host world = some text)
    (hrefused : ¬ options.IsRefused) :
    CarriesOut host (build options) (.read options.input :: options.delivery text) world := by
  unfold Options.compiled? at h
  cases hanswer : ((host.readSource options.input).run world).1 with
  | error =>
      rw [hanswer] at h
      exact nomatch h
  | ok source =>
      simp only [hanswer] at h
      apply (begins_readSource _ _).carriesOut
      · intro _
        rw [hanswer]
        cases hresult : (compile source options.frontEnd).result with
        | error error =>
            rw [hresult] at h
            exact nomatch h
        | ok lines =>
            rw [hresult] at h
            cases h
            simp only [hresult]
            exact carriesOut_deliver _ hrefused
      · intro hread
        rw [hanswer] at hread
        exact absurd rfl hread

/-- What a compilation attempts is what was planned, until something fails. -/
theorem attempts_build (options : Options) (host : Host (StateM W)) (world : W) :
    (build options).attempts host world =
      attemptAll host (options.plan (options.compiled? host world)) world := by
  cases h : options.compiled? host world with
  | none => rw [(build_of_nothing (.inl h)).1, Options.plan, attemptAll_singleton]
  | some text =>
      by_cases hrefused : options.IsRefused
      · rw [(build_of_nothing (.inr hrefused)).1, Options.plan, if_pos hrefused,
          attemptAll_singleton]
      · rw [(carriesOut_build h hrefused).attempts_eq, Options.plan, if_neg hrefused]

/-- It leaves with zero just if there was something to deliver and nothing failed. -/
theorem code_build_eq_zero_iff (options : Options) (host : Host (StateM W)) (world : W) :
    (((build options).run host).run world).1 = 0 ↔
      (options.compiled? host world).isSome ∧ ¬ options.IsRefused ∧
        ∀ attempt ∈ (build options).attempts host world, attempt.succeeded := by
  cases h : options.compiled? host world with
  | none => exact iff_of_false (build_of_nothing (.inl h)).2 fun hall => nomatch hall.1
  | some text =>
      by_cases hrefused : options.IsRefused
      · exact iff_of_false (build_of_nothing (.inr hrefused)).2 fun hall => hall.2.1 hrefused
      · have hbuild := carriesOut_build h hrefused
        rw [hbuild.code_eq_zero_iff, hbuild.attempts_eq]
        simp only [Option.isSome_some, hrefused, not_false_eq_true, true_and]

end Session

/-! ## What is planned -/

/-- Where no kind of task occurs twice, what comes before a task comes before the first of its
kind. -/
theorem eq_takeWhile_of_nodup {tasks earlier : List Task} {task : Task}
    (hnodup : (tasks.map Task.kind).Nodup) (h : earlier ++ [task] <+: tasks) :
    earlier = tasks.takeWhile (·.kind ≠ task.kind) := by
  obtain ⟨later, rfl⟩ := h
  rw [List.map_append, List.map_append, List.map_singleton] at hnodup
  have hearlier : ∀ other ∈ earlier, decide (other.kind ≠ task.kind) := by
    intro other hother
    have hdisjoint := (List.nodup_append.mp (List.nodup_append.mp hnodup).1).2.2
    exact decide_eq_true
      (hdisjoint _ (List.mem_map_of_mem hother) _ (List.mem_singleton_self _))
  rw [List.append_assoc, List.takeWhile_append_of_pos hearlier]
  simp

namespace Options

/-- The plans that there are. -/
theorem plan_cases (options : Options) (compiled? : Option String) :
    (compiled? = none ∨ options.IsRefused) ∧ options.plan compiled? = [.read options.input] ∨
    options.assemblyOnly = true ∧ (∃ text, compiled? = some text ∧
      (options.plan compiled? = [.read options.input, .print text] ∨
        options.plan compiled? = [.read options.input, .write options.assemblyFile text])) ∨
    options.assemblyOnly = false ∧ ∃ text, compiled? = some text ∧ options.output ≠ "-" ∧
      options.plan compiled? =
        [.read options.input, .write options.assemblyFile text,
          .assemble options.assemblyFile options.output options.echo, .mark options.output] ++
        options.runTasks := by
  by_cases hrefused : options.IsRefused
  · left
    cases compiled? with
    | none => exact ⟨.inl rfl, rfl⟩
    | some text => exact ⟨.inr hrefused, by rw [plan, if_pos hrefused]⟩
  · cases compiled? with
    | none => exact .inl ⟨.inl rfl, rfl⟩
    | some text =>
        right
        simp only [plan, if_neg hrefused, delivery]
        by_cases honly : options.assemblyOnly = true
        · left
          rw [if_pos honly]
          by_cases houtput : options.output = "-"
          · exact ⟨honly, text, rfl, .inl (by rw [if_pos houtput])⟩
          · exact ⟨honly, text, rfl, .inr (by rw [if_neg houtput])⟩
        · right
          rw [if_neg honly]
          have hfalse := Bool.eq_false_iff.mpr honly
          exact ⟨hfalse, text, rfl, fun houtput => hrefused ⟨houtput, hfalse⟩, rfl⟩

/-- No kind of task is planned twice. -/
theorem nodup_kind_plan (options : Options) (compiled? : Option String) :
    ((options.plan compiled?).map Task.kind).Nodup := by
  rcases options.plan_cases compiled? with ⟨-, h⟩ | ⟨-, _, -, h | h⟩ | ⟨-, _, -, -, h⟩
  · simp [h]
  · simp [h, Task.kind]
  · simp [h, Task.kind]
  · rw [h, runTasks]
    split <;> simp [Task.kind]

variable {compiled? : Option String}

/-- Only the compiled text is written, and only to the assembly file. -/
theorem of_write_mem_plan {path text : String} (h : .write path text ∈ options.plan compiled?) :
    path = options.assemblyFile ∧ compiled? = some text := by
  rcases options.plan_cases compiled? with
    ⟨-, hplan⟩ | ⟨-, _, rfl, hplan | hplan⟩ | ⟨-, _, rfl, -, hplan⟩
  · simp [hplan] at h
  · simp [hplan] at h
  · simpa [hplan, eq_comm] using h
  · rw [hplan, runTasks] at h
    split at h <;> simpa [eq_comm] using h

/-- With nothing to deliver the source is only read. -/
theorem eq_read_of_mem_plan {task : Task} (h : task ∈ options.plan compiled?)
    (hnothing : compiled? = none ∨ options.IsRefused) : task = .read options.input := by
  rcases options.plan_cases compiled? with
    ⟨-, hplan⟩ | ⟨honly, _, rfl, -⟩ | ⟨-, _, rfl, houtput, -⟩
  · simpa [hplan] using h
  · obtain ⟨-, hrefused⟩ := hnothing.resolve_left nofun
    simp [honly] at hrefused
  · exact absurd (hnothing.resolve_left nofun).1 houtput

/-- Something is started only where the compiled text is to be built. -/
theorem plan_of_started {task : Task} (h : task ∈ options.plan compiled?)
    (hkind : task.kind = .assemble ∨ task.kind = .execute) :
    options.assemblyOnly = false ∧ ∃ text, compiled? = some text ∧
      options.plan compiled? =
        [.read options.input, .write options.assemblyFile text,
          .assemble options.assemblyFile options.output options.echo, .mark options.output] ++
        options.runTasks := by
  rcases options.plan_cases compiled? with
    ⟨-, hplan⟩ | ⟨-, _, rfl, hplan | hplan⟩ | ⟨honly, text, hcompiled, -, hplan⟩
  · rw [hplan, List.mem_singleton] at h
    simp [h, Task.kind] at hkind
  · simp only [hplan, List.mem_cons, List.not_mem_nil, or_false] at h
    rcases h with rfl | rfl <;> simp [Task.kind] at hkind
  · simp only [hplan, List.mem_cons, List.not_mem_nil, or_false] at h
    rcases h with rfl | rfl <;> simp [Task.kind] at hkind
  · exact ⟨honly, text, hcompiled, hplan⟩

/-- For assembly alone nothing is started. -/
theorem kind_ne_of_assemblyOnly {task : Task} (h : task ∈ options.plan compiled?)
    (honly : options.assemblyOnly = true) : task.kind ≠ .assemble ∧ task.kind ≠ .execute := by
  rw [← not_or]
  intro hkind
  rw [(plan_of_started h hkind).1] at honly
  cases honly

/-- The assembler is started right after the compiled text was written. -/
theorem of_assemble_prefix_plan {earlier : List Task} {source output : String} {echo : Bool}
    (h : earlier ++ [.assemble source output echo] <+: options.plan compiled?) :
    source = options.output ++ ".asm" ∧ output = options.output ∧
      ∃ text, compiled? = some text ∧ earlier = [.read options.input, .write source text] := by
  have hearlier := eq_takeWhile_of_nodup (options.nodup_kind_plan compiled?) h
  have hmem := h.subset (List.mem_append_right _ (List.mem_singleton_self _))
  obtain ⟨honly, text, hcompiled, hplan⟩ := plan_of_started hmem (.inl rfl)
  have hassemble : Task.assemble source output echo =
      .assemble options.assemblyFile options.output options.echo := by
    rw [hplan, runTasks] at hmem
    split at hmem <;> simpa using hmem
  cases hassemble
  refine ⟨by simp [assemblyFile, honly], rfl, text, hcompiled, ?_⟩
  rw [hearlier, hplan]
  simp [Task.kind]

/-- A program is run only when asked for, after everything else. -/
theorem of_execute_prefix_plan {earlier : List Task} {path : String}
    (h : earlier ++ [.execute path] <+: options.plan compiled?) :
    (options.run || options.time) ∧ path = Session.invocation options.output ∧
      .assemble (options.output ++ ".asm") options.output options.echo ∈ earlier ∧
      .mark options.output ∈ earlier ∧ .check options.output ∈ earlier := by
  have hearlier := eq_takeWhile_of_nodup (options.nodup_kind_plan compiled?) h
  have hmem := h.subset (List.mem_append_right _ (List.mem_singleton_self _))
  obtain ⟨honly, text, -, hplan⟩ := plan_of_started hmem (.inr rfl)
  rw [hplan, runTasks] at hmem hearlier
  by_cases hrun : options.run || options.time
  · rw [if_pos hrun] at hmem hearlier
    refine ⟨hrun, by simpa using hmem, ?_⟩
    simp [hearlier, Task.kind, assemblyFile, honly]
  · rw [if_neg hrun] at hmem
    simp at hmem

end Options

/-! ## All or nothing -/

theorem nodup_kind_attempts (options : Options) (host : Host (StateM W)) (world : W) :
    (((Session.build options).attempts host world).map (·.task.kind)).Nodup := by
  have hplanned := task_attemptAll_begins host (options.plan (options.compiled? host world))
    world
  rw [← Session.attempts_build] at hplanned
  have hsublist := (hplanned.map Task.kind).sublist
  rw [List.map_map] at hsublist
  exact hsublist.nodup (options.nodup_kind_plan _)

theorem task_mem_plan {attempt : Attempt W}
    (h : attempt ∈ (Session.build options).attempts host world) :
    attempt.task ∈ options.plan (options.compiled? host world) := by
  rw [Session.attempts_build] at h
  exact (task_attemptAll_begins _ _ _).subset (List.mem_map_of_mem h)

/-- The assembler is started when the file beside the output holds the compiled text. -/
theorem of_assemble_attempted {holds : W → String → String → Prop}
    (hwrite : ∀ text before, ((host.writeFile (options.output ++ ".asm") text).run before).1.isOk →
      holds ((host.writeFile (options.output ++ ".asm") text).run before).2
        (options.output ++ ".asm") text)
    {earlier later : List (Attempt W)} {attempt : Attempt W} {source output : String} {echo : Bool}
    (hsplit : (Session.build options).attempts host world = earlier ++ attempt :: later)
    (htask : attempt.task = .assemble source output echo) :
    source = options.output ++ ".asm" ∧ output = options.output ∧
      ∃ text, options.compiled? host world = some text ∧ holds attempt.before source text := by
  rw [Session.attempts_build] at hsplit
  obtain ⟨hplanned, hsucceeded, hbefore, -⟩ := attemptAll_eq_append hsplit
  rw [htask] at hplanned
  obtain ⟨rfl, houtput, text, hcompiled, hearlier⟩ := Options.of_assemble_prefix_plan hplanned
  refine ⟨rfl, houtput, text, hcompiled, ?_⟩
  -- Writing was the last thing before.
  obtain ⟨reading, rest, rfl, -, hrest⟩ := List.map_eq_cons_iff.mp hearlier
  obtain ⟨writing, rest, rfl, hwriting, hrest⟩ := List.map_eq_cons_iff.mp hrest
  obtain rfl := List.map_eq_nil_iff.mp hrest
  have hattempt : writing = (Task.write (options.output ++ ".asm") text).attempt host
      writing.before := by
    rw [← hwriting]
    have hsplit' : attemptAll host (options.plan (options.compiled? host world)) world =
      [reading] ++ writing :: attempt :: later := hsplit
    exact (attemptAll_eq_append hsplit').2.2.2
  have hok : writing.succeeded := hsucceeded writing (by simp)
  rw [hattempt] at hok
  have hafter : attempt.before =
      ((host.writeFile (options.output ++ ".asm") text).run writing.before).2 :=
    hbefore.trans (congrArg Attempt.after hattempt)
  rw [hafter]
  exact hwrite text writing.before hok

/-- Whatever a host answers and does to the world, a compilation is complete or it fails. If writing
a file, where that works, makes it hold the text, then:
- what is attempted is what was planned, until something fails;
- one file at most is written, the assembly file, with the compiled text;
- with nothing to deliver the source is read and that is all;
- for assembly alone nothing is started;
- the assembler is started once at most, when the assembly file beside the output holds the compiled
  text;
- a program is started only if the options ask for it and after the assembler succeeded, the output
  was marked as executable and it was found to be a file;
- the code is zero just if there was something to deliver and nothing that was attempted failed, the
  program itself included. -/
theorem build_all_or_nothing (host : Host (StateM W)) (holds : W → String → String → Prop)
    (options : Options)
    (hwrite : ∀ text before, ((host.writeFile (options.output ++ ".asm") text).run before).1.isOk →
      holds ((host.writeFile (options.output ++ ".asm") text).run before).2
        (options.output ++ ".asm") text)
    (world : W) :
    ∃ code final attempts,
      ((Session.build options).run host).run world = (code, final) ∧
      ((Session.build options).run host.recording).run (world, []) = (code, final, attempts) ∧
      attempts = attemptAll host (options.plan (options.compiled? host world)) world ∧
      (attempts.map (·.task.kind)).count .write ≤ 1 ∧
      (∀ attempt ∈ attempts, ∀ path text, attempt.task = .write path text →
        path = options.assemblyFile ∧ options.compiled? host world = some text) ∧
      (options.compiled? host world = none ∨ options.IsRefused →
        ∀ attempt ∈ attempts, attempt.task = .read options.input) ∧
      (options.assemblyOnly = true → ∀ attempt ∈ attempts,
        attempt.task.kind ≠ .assemble ∧ attempt.task.kind ≠ .execute) ∧
      (attempts.map (·.task.kind)).count .assemble ≤ 1 ∧
      (∀ attempt ∈ attempts, ∀ source output echo, attempt.task = .assemble source output echo →
        source = options.output ++ ".asm" ∧ output = options.output ∧
          ∃ text, options.compiled? host world = some text ∧ holds attempt.before source text) ∧
      (∀ earlier attempt later path, attempts = earlier ++ attempt :: later →
        attempt.task = .execute path →
          (options.run || options.time) ∧ path = Session.invocation options.output ∧
          ∀ task ∈ [.assemble (options.output ++ ".asm") options.output options.echo,
            .mark options.output, .check options.output],
            ∃ done ∈ earlier, done.task = task ∧ done.succeeded) ∧
      (code = 0 ↔ (options.compiled? host world).isSome ∧ ¬ options.IsRefused ∧
        ∀ attempt ∈ attempts, attempt.succeeded) := by
  have hattempts := Session.attempts_build options host world
  refine ⟨_, _, (Session.build options).attempts host world, rfl,
    Session.run_recording host _ world [], hattempts, ?_, ?_, ?_, ?_, ?_, ?_, ?_,
    Session.code_build_eq_zero_iff options host world⟩
  · exact List.nodup_iff_count_le_one.mp (nodup_kind_attempts options host world) _
  · intro attempt hattempt path text htask
    apply Options.of_write_mem_plan
    rw [← htask]
    exact task_mem_plan hattempt
  · exact fun hnothing attempt hattempt =>
      Options.eq_read_of_mem_plan (task_mem_plan hattempt) hnothing
  · exact fun honly attempt hattempt =>
      Options.kind_ne_of_assemblyOnly (task_mem_plan hattempt) honly
  · exact List.nodup_iff_count_le_one.mp (nodup_kind_attempts options host world) _
  · intro attempt hattempt source output echo htask
    obtain ⟨earlier, later, hsplit⟩ := List.append_of_mem hattempt
    exact of_assemble_attempted hwrite hsplit htask
  · intro earlier attempt later path hsplit htask
    rw [hattempts] at hsplit
    obtain ⟨hplanned, hsucceeded, -⟩ := attemptAll_eq_append hsplit
    rw [htask] at hplanned
    obtain ⟨hrun, hpath, hassemble, hmark, hcheck⟩ := Options.of_execute_prefix_plan hplanned
    refine ⟨hrun, hpath, ?_⟩
    intro task htask
    have hdone : task ∈ earlier.map Attempt.task := by
      simp only [List.mem_cons, List.not_mem_nil, or_false] at htask
      rcases htask with rfl | rfl | rfl
      · exact hassemble
      · exact hmark
      · exact hcheck
    obtain ⟨done, hmem, rfl⟩ := List.mem_map.mp hdone
    exact ⟨done, hmem, rfl, hsucceeded done hmem⟩

end

/-- Running a program that was just built, on a machine in memory. -/
theorem build_all_or_nothing_run :
    let options : Options := ⟨"sum.st", .tree, "out", false, true, false, false, false⟩
    let world := Sandbox.World.start [("sum.st", .file "print 1 + 2;".toUTF8 false)] none
    ∃ code final attempts,
      ((Session.build options).run Sandbox.Machine.host.recording).run (world, []) =
        (code, final, attempts) ∧
      (attempts.map (·.task.kind)).count .assemble ≤ 1 := by
  intro options world
  obtain ⟨code, final, attempts, -, hrun, -, -, -, -, -, hcount, -⟩ := build_all_or_nothing
    Sandbox.Machine.host Sandbox.World.Holds options
    (Sandbox.Machine.holds_of_host_writeFile "out") world
  exact ⟨code, final, attempts, hrun, hcount⟩

end Stacklet.Cli
