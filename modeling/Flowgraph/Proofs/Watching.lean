import Flowgraph.Proofs.AllOrNothing

/-!
# What a watched file prints

A watched file is shown when the watching begins and whenever a gathering timer is over.  Each time
it is printed what the main command prints for the files as they are then, but without the options
for the build: the main command takes these options, and nothing that watches asks it for them
(`watch_repeats`).  So watching prints what the main command prints with the same options whenever
these do not change the settings.

The arguments may be read in any way that shares the options like this (`SharesOptions`).
-/

namespace Flowgraph.Console

/-! ## The arguments of the commands -/

/-- The operand stands in front of the others. -/
def Split.behind (s : Split) (operand : String) : Split :=
  { s with operands := operand :: s.operands }

theorem Split.place_behind (s : Split) (operand arg : String) :
    (s.behind operand).place arg = (s.place arg).behind operand := by
  unfold place behind
  dsimp only
  split <;> rfl

theorem Split.placeRest_behind (s : Split) (operand : String) (rest : List String) :
    (s.behind operand).placeRest rest = (s.placeRest rest).behind operand := by
  unfold placeRest behind
  dsimp only
  split <;> rfl

/-- An operand that was read before does not change how arguments are read. -/
theorem split_behind (operand : String) (s : Split) (variadic : Bool) (args : List String) :
    split (s.behind operand) variadic args =
      (split s variadic args).map (·.behind operand) := by
  -- What an argument is taken for depends on the unknown options, and never on the operands.
  fun_induction split s variadic args
  case case1 => rfl
  case case2 s variadic arg rest ends =>
    rw [split, if_pos ends, Split.placeRest_behind]
    rfl
  case case3 s variadic arg rest here taken ih => rw [split, if_neg here, if_pos taken, ← ih]; rfl
  case case4 s variadic arg rest here free named =>
    rw [split, if_neg here, if_neg free, named]
    rfl
  case case5 s variadic arg rest here free flag proper named plain ih =>
    rw [split, if_neg here, if_neg free, named]
    simp only [plain, ← ih]
    rfl
  case case6 s variadic arg here free flag proper named form takes value rest ih =>
    rw [split, if_neg here, if_neg free, named]
    simp only [takes, ← ih]
    rfl
  case case7 s variadic arg here free flag proper named form takes =>
    rw [split, if_neg here, if_neg free, named]
    simp only [takes]
    rfl
  case case8 s variadic arg rest here free unnamed version =>
    rw [split, if_neg here, if_neg free, unnamed]
    dsimp only
    rw [if_pos version]
    rfl
  case case9 s variadic arg rest here free unnamed proper flag value joined ih =>
    rw [split, if_neg here, if_neg free, unnamed]
    dsimp only
    rw [if_neg proper, joined, ← ih]
    rfl
  case case10 s variadic arg rest here free unnamed proper apart ih =>
    rw [split, if_neg here, if_neg free, unnamed]
    dsimp only
    rw [if_neg proper, apart, ← ih, Split.place_behind]

/-- Arguments that ask for a file name it in front of all other operands. -/
theorem Invocation.generate_split {args : List String} {file : String} {flags : Flags}
    (asked : ofArguments args = .generate file flags) :
    ∃ rest, split {} false args = .ok { flags, operands := file :: rest } ∧
      Command.named? file = none := by
  unfold ofArguments at asked
  split at asked
  case h_1 invocation failed =>
    obtain rfl | ⟨reason, rfl⟩ := split_error failed
    · cases asked
    · cases asked
  case h_2 s read =>
    obtain ⟨flags', operands, unknown⟩ := s
    dsimp only at asked
    split at asked
    · cases asked
    · split at asked
      case h_5 tail unnamed left _ =>
        rw [unnamed] at left
        cases left
        cases asked
        exact ⟨tail, read, unnamed⟩
      all_goals cases asked

/-- The name of the command in front of arguments that ask for a file. -/
theorem Invocation.watch_of_generate {args : List String} {file : String} {flags : Flags}
    (asked : ofArguments args = .generate file flags) :
    ofArguments ("watch" :: args) = .watch file flags {} := by
  obtain ⟨rest, read, -⟩ := generate_split asked
  -- the word is no flag and no option, so it becomes the first operand
  have opened : split {} false ("watch" :: args) = split (Split.behind {} "watch") false args := by
    have unnamed : Flag.named? "watch" = none := by decide
    have apart : joined? "watch" = none := by decide +kernel
    have plain : isOption "watch" = false := by decide +kernel
    rw [split, if_neg (by decide), if_neg (by decide), unnamed]
    dsimp only
    rw [if_neg (by decide), apart]
    simp only [Split.place, plain]
    rfl
  rw [ofArguments, opened, split_behind, read]
  rfl

/-- The file alone, without options. -/
theorem Invocation.generate_alone {args : List String} {file : String} {flags : Flags}
    (asked : ofArguments args = .generate file flags) :
    ofArguments ["--", file] = .generate file {} := by
  obtain ⟨rest, -, unnamed⟩ := generate_split asked
  have read : split {} false ["--", file] = .ok { operands := [file] } := rfl
  simp [ofArguments, read, unnamed]

/-- How a reader of arguments shares the options between the main command and the command `watch`,
which declares some of them once more. -/
structure SharesOptions (reads : List String → Invocation) : Prop where
  /-- The main command takes all options that it declares, also behind the name of the other
  command, and leaves none to it. -/
  taken : ∀ args file flags, reads args = .generate file flags →
    reads ("watch" :: args) = .watch file flags {}
  /-- Two dashes end the options. -/
  ended : ∀ args file flags, reads args = .generate file flags →
    reads ["--", file] = .generate file {}

theorem Invocation.sharesOptions : SharesOptions ofArguments where
  taken _ _ _ := watch_of_generate
  ended _ _ _ := generate_alone

/-! ## What is printed -/

/-- What a part adds to the standard output. -/
def Shell.printed {α : Type} (part : Shell α) (w : World) : List String :=
  match part w with
  | .ok _ w' | .error _ w' => outputs (w'.effects.drop w.effects.length)

section Printing

variable {α β : Type} {files files' : FileSystem} {coloured coloured' : Bool} {a : α}
  {past said : List Effect} {part : Shell α}

theorem printed_of_run
    (run : part ⟨files, coloured, past⟩ = .ok a ⟨files', coloured', past ++ said⟩) :
    Shell.printed part ⟨files, coloured, past⟩ = outputs said := by
  rw [Shell.printed, run]
  simp only [List.drop_left]

/-- The part adds the texts to the standard output. -/
def Prints (part : Shell α) (files : FileSystem) (coloured : Bool) (a : α) (texts : List String) :
    Prop :=
  Adds part files coloured a (outputs · = texts)

namespace Prints

theorem of_answers {host : Host} {failed : Prop}
    (answers : Answers host part files coloured a failed) :
    Prints part files coloured a [] :=
  Adds.mono answers fun _ messages => messages.outputs_eq

theorem bind {f : α → Shell β} {b : β} {texts texts' : List String}
    (first : Prints part files coloured a texts) (second : Prints (f a) files coloured b texts') :
    Prints (part >>= f) files coloured b (texts ++ texts') :=
  Adds.bind first second fun _ _ told told' => by rw [outputs_append, told, told']

theorem emit (e : Effect) : Prints (Shell.emit e) files coloured () (outputs [e]) := Adds.emit rfl

theorem pure (a : α) : Prints (Pure.pure a) files coloured a [] := Adds.pure a rfl

theorem printed_eq {texts : List String} (prints : Prints part files coloured a texts)
    (past : List Effect) : Shell.printed part ⟨files, coloured, past⟩ = texts := by
  obtain ⟨said, run, told⟩ := prints past
  rw [printed_of_run run, told]

end Prints

/-- A file that is asked for is printed, unless it cannot be shown or goes to another file. -/
theorem printed_once {host : Host} {args : List String} {file : String} {flags : Flags}
    (asked : host.arguments args = .generate file flags) (here : flags.output = none)
    (files : FileSystem) (coloured : Bool) :
    Shell.printed (run host args) { files, coloured } = (shown? host files file flags).toList := by
  cases shown : shown? host files file flags with
  | none =>
    obtain ⟨code, w, ran, refused⟩ := @run_refuses host files coloured _ _ _ asked shown
    rw [Shell.printed, ran]
    exact refused.silent
  | some text =>
    obtain ⟨w, ran, delivered⟩ := @run_delivers host files coloured _ _ _ _ asked shown
      (by simp [here])
    rw [Delivered, here] at delivered
    rw [Shell.printed, ran]
    exact delivered.1

end Printing

/-! ## Watching -/

variable {host : Host} {files : FileSystem} {coloured : Bool} {file : String}

theorem rebuild_prints (host : Host) (w : Watcher) :
    Prints (rebuild host w) files coloured ()
      (rendered? host files w.file w.settings).toList := by
  unfold rebuild
  refine Prints.bind (.of_answers (say_aside _ _)) (.bind (.of_answers (render_answers _ _ _ _)) ?_)
  cases rendered? host files w.file w.settings with
  | none => exact .pure ()
  | some text => exact .emit _

/-- What is watched, if the file is there. -/
def watched? (host : Host) (files : FileSystem) (file : String) (own : Flags) : Option Watcher :=
  (prepared? host files file own).map fun settings => { file, settings, debug := own.debug }

theorem startWatch_prints (host : Host) (file : String) (own : Flags) :
    Prints (startWatch host file own) files coloured (watched? host files file own)
      (shown? host files file own).toList := by
  unfold startWatch
  refine Prints.bind (.of_answers (prepare_answers _ _ _)) ?_
  rw [watched?, shown?]
  cases prepared? host files file own with
  | none => exact Prints.bind (.emit _) (.pure _)
  | some settings =>
    refine Prints.bind (.of_answers (say_aside _ _)) (.bind (.of_answers (say_aside _ _)) ?_)
    exact Adds.mono ((rebuild_prints host ⟨file, settings, own.debug, none⟩).bind
      (.bind (.emit _) (.pure _))) fun _ told => told.trans (List.append_nil _)

theorem closing_prints {α : Type} (host : Host) (closeError : Option String) (a : α) :
    Prints (do
      Shell.emit .close
      match closeError with
      | none => Shell.emit (.exit 0)
      | some message =>
        Shell.say host .red ("Error: " ++ message ++ "\n")
        Shell.emit (.exit 1)
      return a) files coloured a [] := by
  refine Prints.bind (.emit .close) ?_
  cases closeError with
  | none => exact Prints.bind (.emit (.exit 0)) (.pure _)
  | some message =>
    exact Prints.bind (.of_answers (say_aside _ _)) (.bind (.emit (.exit 1)) (.pure _))

/-- Reacting to an event prints the file if its time has come, and nothing otherwise. -/
theorem Watcher.react_prints (host : Host) (w : Watcher) (event : WatchEvent) :
    ∃ w', w'.file = w.file ∧ w'.settings = w.settings ∧
      Prints (w.react host event) files coloured w'
        (if event = .timeout ∧ w.timer = some true then
          (rendered? host files w.file w.settings).toList
        else []) := by
  cases event with
  | changed =>
    refine ⟨{ w with timer := some true }, rfl, rfl, ?_⟩
    unfold react
    dsimp only
    have starts : Prints (do
        Shell.emit (.startTimer gatherTime)
        return { w with timer := some true }) files coloured { w with timer := some true } [] :=
      Prints.bind (.emit _) (.pure _)
    split
    · exact Prints.bind (.emit (.stopTimer _)) starts
    · exact starts
  | timeout =>
    unfold react
    dsimp only
    by_cases due : w.timer = some true
    · rw [if_pos due, if_pos ⟨rfl, due⟩]
      exact ⟨{ w with timer := some false }, rfl, rfl, Adds.mono
        ((rebuild_prints host w).bind (.pure _)) fun _ told => told.trans (List.append_nil _)⟩
    · rw [if_neg due, if_neg fun both => due both.2]
      exact ⟨w, rfl, rfl, .pure w⟩
  | interrupt closeError =>
    refine ⟨{ w with timer := w.timer.map fun _ => false }, rfl, rfl, ?_⟩
    unfold react
    dsimp only
    refine Prints.bind (.of_answers (say_aside _ _)) ?_
    split
    · exact Prints.bind (.emit (.stopTimer _)) (closing_prints _ _ _)
    · exact closing_prints _ _ _

/-- What happens while a file is watched. -/
inductive Happening where
  /-- The files are changed. -/
  | files (now : FileSystem)
  /-- An event, at a time of day. -/
  | event (time : String) (event : WatchEvent)

/-- A watcher meets what happens. -/
def Watcher.meet (host : Host) (w : Watcher) : Happening → Shell Watcher
  | .files now => do
    modify fun world => { world with files := now }
    return w
  | .event time event => w.react { host with time } event

/-- A watcher meets one happening after the other. -/
def Watcher.session (host : Host) (w : Watcher) (happenings : List Happening) : Shell Watcher :=
  happenings.foldlM (Watcher.meet host) w

theorem Watcher.meet_keeps (host : Host) (w : Watcher) (happening : Happening) (world : World) :
    ∃ w' world', w.meet host happening world = .ok w' world' ∧ w'.file = w.file ∧
      w'.settings = w.settings := by
  cases happening with
  | files now => exact ⟨w, _, rfl, rfl, rfl⟩
  | event time event =>
    obtain ⟨files, coloured, past⟩ := world
    obtain ⟨w', file, settings, prints⟩ := @react_prints files coloured { host with time } w event
    obtain ⟨said, run, -⟩ := prints past
    exact ⟨w', _, run, file, settings⟩

/-- Whatever happens, the watcher goes on, with the file and the settings it began with. -/
theorem Watcher.session_keeps (host : Host) (w : Watcher) (happenings : List Happening)
    (world : World) :
    ∃ w' world', w.session host happenings world = .ok w' world' ∧
      w'.file = w.file ∧ w'.settings = w.settings := by
  induction happenings generalizing w world with
  | nil => exact ⟨w, world, rfl, rfl, rfl⟩
  | cons happening rest ih =>
    obtain ⟨w₁, world₁, run, file, settings⟩ := w.meet_keeps host happening world
    obtain ⟨w', world', runs, file', settings'⟩ := ih w₁ world₁
    refine ⟨w', world', ?_, file'.trans file, settings'.trans settings⟩
    rw [session, List.foldlM_cons, Shell.bind_ok run]
    exact runs

/-! ## Watching and generating once -/

/-- The settings from the settings file that is nearest to a file. -/
def settingsFor (host : Host) (files : FileSystem) (file : String) : Settings :=
  (LoadedSettings.ofDirectory files (Path.resolve host.directory file).parent).settings

/-- Watching a file with the arguments `watching` prints what the arguments `once` print for the
files as they are then: when it begins, whenever a gathering timer is over, and at no other event.
The files may change in any way that leaves the settings. -/
structure Repeats (host : Host) (file : String) (watching once : List String) (files : FileSystem)
    (coloured : Bool) : Prop where
  first : Shell.printed (run host watching) { files, coloured } =
    Shell.printed (run host once) { files, coloured }
  begins : files.has (Path.resolve host.directory file) = true →
    ∃ code w world, run host watching { files, coloured } = .ok (code, some w) world
  again : ∀ code w world, run host watching { files, coloured } = .ok (code, some w) world →
    ∀ happenings, ∃ w' world', w.session host happenings world = .ok w' world' ∧
      (settingsFor host world'.files file = settingsFor host files file → ∀ time event,
        Shell.printed (w'.react { host with time } event) world' =
          if event = .timeout ∧ w'.timer = some true then
            Shell.printed (run host once) { files := world'.files, coloured }
          else [])

variable {flags own : Flags} {args once : List String}

/-- The options change nothing about the settings. -/
def Flags.Keep (flags : Flags) (settings : Settings) : Prop :=
  flags.settings? settings = .ok settings

theorem Flags.keep_none (settings : Settings) : Flags.Keep {} settings := by
  simp [Keep, settings?, pure, Except.pure, bind, Except.bind]

theorem prepared?_of_keep (present : files.has (Path.resolve host.directory file) = true)
    (keep : flags.Keep (settingsFor host files file)) :
    prepared? host files file flags = some (settingsFor host files file) := by
  rw [prepared?, if_pos present]
  exact congrArg Except.toOption keep

/-- With options that keep the settings, a file is rendered under the settings as they are. -/
theorem shown?_of_keep {settings : Settings} (same : settingsFor host files file = settings)
    (keep : flags.Keep settings) :
    shown? host files file flags = rendered? host files file settings := by
  subst same
  by_cases present : files.has (Path.resolve host.directory file) = true
  · rw [shown?, prepared?_of_keep present keep]
    rfl
  · have unread : rendered? host files file (settingsFor host files file) = none := by
      rw [rendered?]
      cases result : generated? host files file (settingsFor host files file) with
      | error error => rfl
      | ok generation => exact absurd (has_of_generated result) present
    rw [unread, shown?, prepared?, if_neg present]
    rfl

/-- Watching a file runs well, whatever the options say.  Those of the main command do not matter to
what is printed. -/
theorem run_of_watch (asked : host.arguments args = .watch file flags own) :
    ∃ code said, run host args { files, coloured } =
        .ok (code, watched? host files file own) ⟨files, coloured && !flags.noColor, said⟩ ∧
      outputs said = (shown? host files file own).toList := by
  obtain ⟨said, run', told⟩ :=
    @startWatch_prints files (coloured && !flags.noColor) host file own []
  refine ⟨exitCodeOf said, said, ?_, told⟩
  rw [run, asked]
  dsimp only
  rw [Shell.bind_ok (applyColour_run flags), Shell.bind_ok run']
  rfl

theorem printed_watch (asked : host.arguments args = .watch file flags own)
    (files : FileSystem) (coloured : Bool) :
    Shell.printed (run host args) { files, coloured } = (shown? host files file own).toList := by
  obtain ⟨code, said, ran, told⟩ := @run_of_watch host files coloured file flags own args asked
  rw [Shell.printed, ran]
  exact told

theorem watched_of_has (present : files.has (Path.resolve host.directory file) = true) :
    watched? host files file {} = some { file, settings := settingsFor host files file } := by
  rw [watched?, prepared?_of_keep present (Flags.keep_none _)]
  rfl

theorem eq_of_watched {w : Watcher} (watched : watched? host files file {} = some w) :
    w = { file, settings := settingsFor host files file } := by
  obtain ⟨settings, prepared, -⟩ := Option.map_eq_some_iff.1 watched
  exact Option.some.inj (watched.symm.trans (watched_of_has (has_of_prepared prepared)))

/-- If no options are left for it, watching repeats what prints the file without options, as long as
the settings stay. -/
theorem Repeats.of_printed {watching : List String}
    (asked : host.arguments watching = .watch file flags {})
    (printed : ∀ now, settingsFor host now file = settingsFor host files file →
      Shell.printed (run host once) { files := now, coloured } =
        (rendered? host now file (settingsFor host files file)).toList) :
    Repeats host file watching once files coloured := by
  obtain ⟨code, said, ran, -⟩ := @run_of_watch host files coloured file flags {} watching asked
  constructor
  case first =>
    rw [printed_watch asked, printed files rfl, shown?_of_keep rfl (Flags.keep_none _)]
  case begins =>
    intro present
    rw [watched_of_has present] at ran
    exact ⟨code, _, _, ran⟩
  case again =>
    intro code' w world ran' happenings
    have watched : watched? host files file {} = some w := by
      injection ran.symm.trans ran' with answer
      exact (Prod.mk.inj answer).2
    obtain ⟨w', world', met, same, settings⟩ := w.session_keeps host happenings world
    refine ⟨w', world', met, fun stays time event => ?_⟩
    -- The watcher has the settings that it began with, which are those of the files now.
    obtain ⟨now, tint, past⟩ := world'
    obtain ⟨w'', -, -, prints⟩ := @Watcher.react_prints now tint { host with time } w' event
    rw [prints.printed_eq past, printed now stays, same, settings, eq_of_watched watched]
    rfl

/-- Watching a file prints what the main command prints for it without options; and with the same
options, if they do not change the settings. -/
theorem watch_repeats (host : Host) (shares : SharesOptions host.arguments)
    (asked : host.arguments args = .generate file flags) (files : FileSystem) (coloured : Bool) :
    Repeats host file ("watch" :: args) ["--", file] files coloured ∧
      (flags.output = none → flags.Keep (settingsFor host files file) →
        Repeats host file ("watch" :: args) args files coloured) := by
  have watching := shares.taken args file flags asked
  have alone := shares.ended args file flags asked
  constructor
  · refine .of_printed watching fun now stays => ?_
    rw [printed_once alone rfl, shown?_of_keep stays (Flags.keep_none _)]
  · intro here keep
    refine .of_printed watching fun now stays => ?_
    rw [printed_once asked here, shown?_of_keep stays keep]

theorem settingsFor_blank : settingsFor blankHost blankFiles "f" = {} := by
  rw [settingsFor, resolve_blank]
  rfl

theorem rendered?_blank (format : OutputFormat) :
    rendered? blankHost blankFiles "f" { format } =
      (Program.format ⟨"f", [], []⟩ format).toOption := by
  simp only [rendered?, generated?, resolve_blank]
  rfl

/-- The format that would have been chosen anyway. -/
theorem watch_repeats_text :
    SharesOptions blankHost.arguments ∧
    blankHost.arguments ["f", "--format", "text"] = .generate "f" { format := some "text" } ∧
    Flags.Keep { format := some "text" } (settingsFor blankHost blankFiles "f") ∧
    Repeats blankHost "f" ["watch", "f", "--format", "text"] ["--", "f"] blankFiles false ∧
    Repeats blankHost "f" ["watch", "f", "--format", "text"] ["f", "--format", "text"]
      blankFiles false := by
  have shares : SharesOptions blankHost.arguments := Invocation.sharesOptions
  have asked : blankHost.arguments ["f", "--format", "text"] =
      .generate "f" { format := some "text" } := by decide +kernel
  have keep : Flags.Keep { format := some "text" } (settingsFor blankHost blankFiles "f") := by
    rw [settingsFor_blank]
    rfl
  have repeats := watch_repeats blankHost shares asked blankFiles false
  exact ⟨shares, asked, keep, repeats.1, repeats.2 rfl keep⟩

/-- Asked for JSON, the main command prints JSON and watching prints text. -/
theorem watch_drops_format :
    blankHost.arguments ["f", "--format", "json"] = .generate "f" { format := some "json" } ∧
    Shell.printed (run blankHost ["f", "--format", "json"]) { files := blankFiles } =
      ["\x7b\n  \"program\": \"f\",\n  \"globals\": [],\n  \"functions\": []\n\x7d\n"] ∧
    Shell.printed (run blankHost ["watch", "f", "--format", "json"]) { files := blankFiles } =
      ["/*--- program: f ---*/\n"] ∧
    ¬ Repeats blankHost "f" ["watch", "f", "--format", "json"] ["f", "--format", "json"]
      blankFiles false := by
  have shares : SharesOptions blankHost.arguments := Invocation.sharesOptions
  have asked : blankHost.arguments ["f", "--format", "json"] =
      .generate "f" { format := some "json" } := by decide +kernel
  have prepared : prepared? blankHost blankFiles "f" { format := some "json" } =
      some { format := .json } := by
    simp only [prepared?, resolve_blank]
    rfl
  have once := @printed_once blankHost _ _ _ asked rfl blankFiles false
  have watching := @printed_watch blankHost _ _ _ _ (shares.taken _ _ _ asked) blankFiles false
  rw [shown?, prepared, Option.bind_eq_bind, Option.bind_some, rendered?_blank] at once
  rw [shown?_of_keep settingsFor_blank (Flags.keep_none _), rendered?_blank] at watching
  refine ⟨asked, once, watching, fun repeats => ?_⟩
  have same := repeats.first
  rw [once, watching] at same
  exact absurd same (by decide)

end Flowgraph.Console
