import Flowgraph.Console.Run
import Mathlib.Data.List.Induction

/-!
# What the parts of a command say

Settling the settings, reading a file and rendering it leave the files and the exit code alone and
write nothing but messages; a part that comes to nothing has said why in an error line.  `Answers`
says so of one part, whatever was done before it.
-/

namespace Flowgraph.Console

/-- The text tells that something went wrong. -/
def IsErrorText (text : String) : Prop :=
  ∃ reason, text = "Error: " ++ reason ++ "\n" ∨ text = "error: " ++ reason ++ "\n"

namespace Effect

/-- The text that went to the standard output. -/
def output? : Effect → Option String
  | .out text => some text
  | _ => none

/-- A message was written, or a parser was asked. -/
def isMessage : Effect → Bool
  | .err _ | .parse .. => true
  | _ => false

/-- An error line was written, coloured or not. -/
def IsErrorLine (e : Effect) (host : Host) : Prop :=
  ∃ text, IsErrorText text ∧ (e = .err text ∨ e = .err (host.paint .red text))

end Effect

/-- The texts that went to the standard output, in order. -/
def outputs (effects : List Effect) : List String := effects.filterMap Effect.output?

@[simp] theorem outputs_append (effects effects' : List Effect) :
    outputs (effects ++ effects') = outputs effects ++ outputs effects' :=
  List.filterMap_append

/-- The exit code that was asked for last counts. -/
theorem exitCodeOf_concat (effects : List Effect) (e : Effect) :
    exitCodeOf (effects ++ [e]) = match e with
      | .exitCode code => code
      | _ => exitCodeOf effects := by
  rw [exitCodeOf, List.foldl_append]
  rfl

/-- The effects are messages; if something `failed`, one of them is an error line. -/
structure Messages (host : Host) (failed : Prop) (said : List Effect) : Prop where
  quiet : ∀ e ∈ said, e.isMessage = true
  error : failed → ∃ e ∈ said, e.IsErrorLine host

namespace Messages

variable {host : Host} {p q : Prop} {said said' : List Effect}

theorem nil : Messages host False [] := ⟨by simp, False.elim⟩

theorem mono (messages : Messages host p said) (only : q → p) : Messages host q said :=
  ⟨messages.quiet, fun failed => messages.error (only failed)⟩

theorem append (first : Messages host p said) (second : Messages host q said') :
    Messages host (p ∨ q) (said ++ said') where
  quiet e member := (List.mem_append.1 member).elim (first.quiet e) (second.quiet e)
  error := by
    rintro (failed | failed)
    · obtain ⟨e, member, line⟩ := first.error failed
      exact ⟨e, List.mem_append_left _ member, line⟩
    · obtain ⟨e, member, line⟩ := second.error failed
      exact ⟨e, List.mem_append_right _ member, line⟩

theorem outputs_eq (messages : Messages host p said) : outputs said = [] := by
  rw [outputs, List.filterMap_eq_nil_iff]
  intro e member
  have quiet := messages.quiet e member
  cases e <;> first | rfl | cases quiet

/-- Messages do not ask for an exit code. -/
theorem exitCodeOf_append (messages : Messages host p said) (past : List Effect) :
    exitCodeOf (past ++ said) = exitCodeOf past := by
  have quiet := messages.quiet
  clear messages
  induction said using List.reverseRecOn with
  | nil => rw [List.append_nil]
  | append_singleton rest e ih =>
    have last := quiet e (by simp)
    rw [← List.append_assoc, exitCodeOf_concat,
      ← ih fun e member => quiet e (List.mem_append_left _ member)]
    cases e <;> first | rfl | cases last

end Messages

theorem Shell.bind_ok {α β : Type} {part : Shell α} {f : α → Shell β} {w w' : World} {a : α}
    (run : part w = .ok a w') : (part >>= f) w = f a w' := by
  simp only [bind, EStateM.bind, run]

/-- With these files the part ends with `a` and leaves the files alone; what it does is added to
what was done before it, and is as `P` says. -/
def Adds {α : Type} (part : Shell α) (files : FileSystem) (coloured : Bool) (a : α)
    (P : List Effect → Prop) : Prop :=
  ∀ past, ∃ said, part ⟨files, coloured, past⟩ = .ok a ⟨files, coloured, past ++ said⟩ ∧ P said

/-- The part does nothing but say messages; if it `failed`, one of them is an error line. -/
def Answers {α : Type} (host : Host) (part : Shell α) (files : FileSystem) (coloured : Bool)
    (a : α) (failed : Prop) : Prop :=
  Adds part files coloured a (Messages host failed)

section Answers

variable {host : Host} {α β : Type} {files : FileSystem} {coloured : Bool} {a : α} {b : β} {p q : Prop}
  {P Q R : List Effect → Prop} {part : Shell α} {f : α → Shell β}

namespace Adds

theorem mono (adds : Adds part files coloured a P) (only : ∀ said, P said → Q said) :
    Adds part files coloured a Q := by
  intro past
  obtain ⟨said, run, told⟩ := adds past
  exact ⟨said, run, only said told⟩

theorem pure (a : α) (nothing : P []) : Adds (Pure.pure a) files coloured a P :=
  fun past => ⟨[], by rw [List.append_nil]; rfl, nothing⟩

theorem bind (first : Adds part files coloured a P) (second : Adds (f a) files coloured b Q)
    (join : ∀ said said', P said → Q said' → R (said ++ said')) :
    Adds (part >>= f) files coloured b R := by
  intro past
  obtain ⟨said, run, told⟩ := first past
  obtain ⟨said', run', told'⟩ := second (past ++ said)
  refine ⟨said ++ said', ?_, join said said' told told'⟩
  rw [Shell.bind_ok run, run', List.append_assoc]

theorem inspect {f : World → Shell β}
    (each : ∀ past, Adds (f ⟨files, coloured, past⟩) files coloured b Q) :
    Adds (get >>= f) files coloured b Q := fun past => each past past

theorem emit {e : Effect} (told : P [e]) : Adds (Shell.emit e) files coloured () P :=
  fun _ => ⟨[e], rfl, told⟩

end Adds

namespace Answers

theorem pure (a : α) : Answers host (Pure.pure a) files coloured a False := Adds.pure a .nil

theorem mono (answers : Answers host part files coloured a p) (only : q → p) :
    Answers host part files coloured a q :=
  Adds.mono answers fun _ messages => messages.mono only

theorem bind (first : Answers host part files coloured a p) (second : Answers host (f a) files coloured b q) :
    Answers host (part >>= f) files coloured b (p ∨ q) :=
  Adds.bind first second fun _ _ => .append

/-- A part that cannot fail goes in front. -/
theorem before (first : Answers host part files coloured a False)
    (second : Answers host (f a) files coloured b q) : Answers host (part >>= f) files coloured b q :=
  (first.bind second).mono .inr

theorem inspect {f : World → Shell β}
    (each : ∀ past, Answers host (f ⟨files, coloured, past⟩) files coloured b q) :
    Answers host (get >>= f) files coloured b q :=
  Adds.inspect each

theorem forM {γ : Type} {f : γ → Shell Unit} (l : List γ)
    (each : ∀ c, Answers host (f c) files coloured () False) :
    Answers host (l.forM f) files coloured () False := by
  induction l with
  | nil => exact .pure ()
  | cons c rest ih => exact (each c).before ih

end Answers

/-! ## Saying -/

theorem emit_answers {e : Effect} (quiet : e.isMessage = true) :
    Answers host (Shell.emit e) files coloured () (e.IsErrorLine host) :=
  Adds.emit ⟨by simp [quiet], fun line => ⟨e, by simp, line⟩⟩

theorem say_answers (colour : Colour) (text : String) :
    Answers host (Shell.say host colour text) files coloured () (colour = .red ∧ IsErrorText text) := by
  refine .inspect fun past => (emit_answers rfl).mono ?_
  rintro ⟨rfl, line⟩
  dsimp only
  split
  · exact ⟨text, line, .inr rfl⟩
  · exact ⟨text, line, .inl rfl⟩

/-- Anything may be said by the way. -/
theorem say_aside (colour : Colour) (text : String) :
    Answers host (Shell.say host colour text) files coloured () False :=
  (say_answers colour text).mono False.elim

/-! ## The parts of a command -/

/-- The settings for a file under some options; `none` if there is no file or an option is wrong. -/
def prepared? (host : Host) (files : FileSystem) (file : String) (flags : Flags) :
    Option Settings :=
  let path := Path.resolve host.directory file
  if files.has path then
    (flags.settings? (LoadedSettings.ofDirectory files path.parent).settings).toOption
  else none

/-- What is generated from a file under some settings. -/
def generated? (host : Host) (files : FileSystem) (file : String) (settings : Settings) :
    Except RunError Generation :=
  let path := Path.resolve host.directory file
  match files.read path with
  | .error error => .error (.file error)
  | .ok source =>
    (Generation.ofText host.parser file source (readOptions settings path)).mapError .generate

/-- The text that a file is rendered as under some settings. -/
def rendered? (host : Host) (files : FileSystem) (file : String) (settings : Settings) :
    Option String := do
  let generation ← (generated? host files file settings).toOption
  (generation.program.format settings.format).toOption

/-- Coming to nothing with an error line. -/
theorem complain_answers {γ : Type} {text : String} (reason : String)
    (same : text = "Error: " ++ reason ++ "\n") :
    Answers host (do Shell.say host .red text; return (none : Option γ)) files coloured none True :=
  ((say_answers _ _).bind (.pure none)).mono fun _ => .inl ⟨rfl, reason, .inl same⟩

theorem settled_answers (settled : Except String Settings) :
    Answers host (match settled with
      | .ok settings => pure (some settings)
      | .error name => do
        Shell.say host .red ("Error: Unknown format \"" ++ name ++ "\" (expected text, dot or json)\n")
        pure none) files coloured settled.toOption (settled.toOption = none) := by
  cases settled with
  | ok settings => exact (Answers.pure _).mono fun absent => nomatch absent
  | error name =>
    exact (complain_answers ("Unknown format \"" ++ name ++ "\" (expected text, dot or json)")
      (String.toList_injective (by simp))).mono fun _ => trivial

theorem settle_answers (path : Path) (flags : Flags) :
    Answers host (settle host path flags) files coloured
      (flags.settings? (LoadedSettings.ofDirectory files path.parent).settings).toOption
      ((flags.settings? (LoadedSettings.ofDirectory files path.parent).settings).toOption =
        none) := by
  refine .inspect fun past => ?_
  dsimp only
  refine .before (.forM _ fun warning => say_aside _ _) ?_
  split
  · split
    · exact .before (say_aside _ _) (settled_answers _)
    · exact settled_answers _
  · exact settled_answers _

theorem prepare_answers (host : Host) (file : String) (flags : Flags) :
    Answers host (prepare host file flags) files coloured (prepared? host files file flags)
      (prepared? host files file flags = none) := by
  refine .inspect fun past => ?_
  unfold prepared?
  dsimp only
  split
  · exact settle_answers _ _
  · exact (complain_answers ("File \"" ++ file ++ "\" does not exist")
      (String.toList_injective (by simp))).mono fun _ => trivial

theorem reportError_answers (path : Path) (file : String) (error : RunError) :
    Answers host (reportError host path file error) files coloured () True := by
  unfold reportError
  split
  · exact (say_answers _ _).mono fun _ => ⟨rfl, _, .inl rfl⟩
  case h_2 place _ =>
    -- The first line is the error line; the frame behind it is said by the way.
    have line := (@say_answers host files coloured .red
      ("Error: " ++ error.message ++ s!" ({file}:{place.line}:{place.column})\n")).mono
      fun _ : True => ⟨rfl, error.message ++ s!" ({file}:{place.line}:{place.column})",
        .inl (String.toList_injective (by simp; rfl))⟩
    refine (line.bind (q := False) ?_).mono .inl
    split
    · refine .inspect fun past => ?_
      split
      · dsimp only
        split
        · exact .pure ()
        · exact (emit_answers rfl).mono False.elim
      · exact .pure ()
    · exact .pure ()

theorem debugInfo_answers (generation : Generation) :
    Answers host (debugInfo host generation) files coloured () False := by
  refine .before (.forM _ fun report => say_aside _ _) (.forM _ fun graph => ?_)
  split
  · exact say_aside _ _
  · exact .pure ()

theorem generate_answers (host : Host) (file : String) (settings : Settings) :
    Answers host (generate host (Path.resolve host.directory file) file settings) files coloured
      (generated? host files file settings) False := by
  refine .inspect fun past => ?_
  unfold generated?
  dsimp only
  cases files.read (Path.resolve host.directory file) with
  | error error => exact .pure _
  | ok source => exact ((emit_answers rfl).mono False.elim).before (.pure _)

theorem formatted_answers (path : Path) (file : String) (formatted : Except Fault String) :
    Answers host (match formatted with
      | .ok text => pure (some text)
      | .error fault => do
        reportError host path file (.generate (.graph fault))
        pure none) files coloured formatted.toOption (formatted.toOption = none) := by
  cases formatted with
  | ok text => exact (Answers.pure _).mono fun absent => nomatch absent
  | error fault =>
    exact ((reportError_answers _ _ _).bind (.pure none)).mono fun _ => .inl trivial

theorem render_answers (host : Host) (file : String) (settings : Settings) (debug : Bool) :
    Answers host (render host file settings debug) files coloured (rendered? host files file settings)
      (rendered? host files file settings = none) := by
  refine (generate_answers host file settings).before ?_
  unfold rendered?
  cases generated? host files file settings with
  | error error =>
    exact ((reportError_answers _ _ _).bind (.pure none)).mono fun _ => .inl trivial
  | ok generation =>
    dsimp only
    split
    · exact (debugInfo_answers generation).before (formatted_answers _ _ _)
    · exact formatted_answers _ _ _

/-! ## A whole run -/

theorem applyColour_run (flags : Flags) :
    applyColour flags { files, coloured } = .ok () ⟨files, coloured && !flags.noColor, []⟩ := by
  unfold applyColour
  cases flags.noColor with
  | true => rw [Bool.not_true, Bool.and_false]; rfl
  | false => rw [Bool.not_false, Bool.and_true]; rfl

/-- The text that a file is shown as under some options. -/
def shown? (host : Host) (files : FileSystem) (file : String) (flags : Flags) : Option String :=
  prepared? host files file flags >>= rendered? host files file

theorem runOnce_fails {file : String} {flags : Flags}
    (nothing : shown? host files file flags = none) (past : List Effect) :
    ∃ said, runOnce host file flags ⟨files, coloured, past⟩ =
        .ok () ⟨files, coloured, past ++ said ++ [.exitCode 1]⟩ ∧ Messages host True said := by
  obtain ⟨said, run, messages⟩ := @prepare_answers files coloured host file flags past
  rw [runOnce, Shell.bind_ok run]
  cases prepared : prepared? host files file flags with
  | none => exact ⟨said, rfl, messages.mono fun _ => prepared⟩
  | some settings =>
    have fails : rendered? host files file settings = none := by
      simpa [shown?, prepared] using nothing
    obtain ⟨said', run', messages'⟩ := @render_answers files coloured host file settings flags.debug
      (past ++ said)
    dsimp only
    rw [Shell.bind_ok run', fails]
    refine ⟨said ++ said', by rw [← List.append_assoc]; rfl, ?_⟩
    exact (messages.append messages').mono fun _ => .inr fails

/-- A file that can be shown is: what is left is to put the text where it is wanted. -/
theorem runOnce_shows {file : String} {flags : Flags} {text : String}
    (shown : shown? host files file flags = some text) (past : List Effect) :
    ∃ said, Messages host False said ∧ runOnce host file flags ⟨files, coloured, past⟩ =
      (match flags.output.filter (· != "") with
      | none => Shell.out text
      | some output => do
        Shell.write (Path.resolve host.directory output) text
        Shell.say host .green ("Wrote " ++ output ++ "\n"))
      ⟨files, coloured, past ++ said⟩ := by
  obtain ⟨settings, prepared, rendered⟩ := Option.bind_eq_some_iff.1 shown
  obtain ⟨said, run, messages⟩ := @prepare_answers files coloured host file flags past
  obtain ⟨said', run', messages'⟩ := @render_answers files coloured host file settings flags.debug
    (past ++ said)
  refine ⟨said ++ said', (messages.append messages').mono False.elim, ?_⟩
  rw [runOnce, Shell.bind_ok run, prepared]
  dsimp only
  rewrite [Shell.bind_ok run', rendered, List.append_assoc]
  rfl

theorem run_of_generate {args : List String} {file : String} {flags : Flags}
    {w : World} (asked : host.arguments args = .generate file flags)
    (ran : runOnce host file flags ⟨files, coloured && !flags.noColor, []⟩ = .ok () w) :
    run host args { files, coloured } = .ok (exitCodeOf w.effects, none) w := by
  rw [run, asked]
  dsimp only
  rw [Shell.bind_ok (applyColour_run flags), Shell.bind_ok ran]
  rfl

end Answers

end Flowgraph.Console
