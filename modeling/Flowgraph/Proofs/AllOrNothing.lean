import Flowgraph.Proofs.Messages
import Flowgraph.Proofs.Precedence
import Flowgraph.Proofs.Views
import Mathlib

/-!
# All or nothing

Generating a file either ends well, and its text goes to exactly one place; or it ends with an error
line and an exit code that is not zero, and there is neither output nor a change to a file.
-/

namespace Flowgraph

/-! ## Writing a file -/

namespace FileSystem

variable {fs after : FileSystem} {path other : Path} {text : String}

/-- A file can be written at the path, whatever its text. -/
def Writable (fs : FileSystem) (path : Path) : Prop :=
  ∀ text, ∃ after, fs.write path text = .ok after

theorem lookup_put (fs : FileSystem) (path : Path) (entry : Entry) (other : Path) :
    (fs.put path entry).entries.lookup other =
      if other = path then some entry else fs.entries.lookup other := by
  rw [put, List.lookup_append]
  split
  case isTrue same =>
    have removed : (fs.entries.filter (·.1 != path)).lookup other = none := by
      rw [List.lookup_eq_none_iff]
      intro found member
      simpa [same, bne_comm] using (List.mem_filter.1 member).2
    rw [removed, same, Option.none_or, List.lookup_cons_self]
  case isFalse apart =>
    have last : [(path, entry)].lookup other = none := by
      rw [List.lookup_cons, beq_false_of_ne apart]
      rfl
    rw [last, Option.or_none]
    -- only entries at the other path are filtered out, so the search passes them anyway
    induction fs.entries with
    | nil => rfl
    | cons first rest ih =>
      obtain ⟨key, found⟩ := first
      by_cases taken : key = path
      · have skipped : (other == key) = false := by simpa [taken] using apart
        rw [List.filter_cons_of_neg (by simpa using taken), ih, List.lookup_cons, skipped]
      · rw [List.filter_cons_of_pos (by simpa using taken), List.lookup_cons, List.lookup_cons, ih]

/-- Something is found at the root, and wherever something lies at the path or below it. -/
theorem has_iff (fs : FileSystem) (path : Path) :
    fs.has path = true ↔ path = [] ∨ ∃ found ∈ fs.entries, path <+: found.1 := by
  rw [has]
  unfold entry?
  cases listed : fs.entries.lookup path with
  | some entry =>
    obtain ⟨before, behind, parts, -⟩ := List.lookup_eq_some_iff.1 listed
    exact iff_of_true rfl (.inr ⟨(path, entry), by simp [parts], List.prefix_rfl⟩)
  | none => simp

theorem entry?_eq (fs : FileSystem) (path : Path) :
    fs.entry? path =
      (fs.entries.lookup path).or (if fs.has path then some .directory else none) := by
  rw [has]
  unfold entry?
  cases fs.entries.lookup path with
  | some entry => rfl
  | none =>
    dsimp only [Option.none_or]
    split <;> rfl

theorem has_of_prefix (present : fs.has path = true) (above : other <+: path) :
    fs.has other = true := by
  rw [has_iff] at present ⊢
  obtain rfl | ⟨found, member, below⟩ := present
  · exact .inl (List.prefix_nil.1 above)
  · exact .inr ⟨found, member, above.trans below⟩

theorem has_put {entry : Entry} (above : other <+: path → fs.has other = true) :
    (fs.put path entry).has other = fs.has other := by
  rw [Bool.eq_iff_iff]
  constructor
  · intro present
    obtain root | ⟨found, member, below⟩ := (has_iff _ _).1 present
    · exact (has_iff _ _).2 (.inl root)
    · simp only [put, List.mem_append, List.mem_filter, List.mem_singleton] at member
      obtain ⟨member, -⟩ | rfl := member
      · exact (has_iff _ _).2 (.inr ⟨found, member, below⟩)
      · exact above below
  · intro present
    obtain root | ⟨found, member, below⟩ := (has_iff _ _).1 present
    · exact (has_iff _ _).2 (.inl root)
    · by_cases here : found.1 = path
      -- the entry that made it present was replaced, and the new one lies there as well
      · exact (has_iff _ _).2 (.inr ⟨(path, entry), by simp [put], here ▸ below⟩)
      · exact (has_iff _ _).2 (.inr ⟨found, by simp [put, member, here], below⟩)

/-- A file is written where something was, or into a directory. -/
theorem write_ok (written : fs.write path text = .ok after) :
    after = fs.put path (.file text) ∧ (fs.has path = true ∨ fs.has path.parent = true) := by
  rw [write] at written
  split at written
  case h_1 => cases written
  case h_2 found =>
    cases written
    exact ⟨rfl, .inl (by rw [has, found]; rfl)⟩
  case h_3 =>
    split at written
    case h_1 found =>
      cases written
      exact ⟨rfl, .inr (by rw [has, found]; rfl)⟩
    case h_2 => cases written

theorem entry?_write_self (written : fs.write path text = .ok after) :
    after.entry? path = some (.file text) := by
  rw [(write_ok written).1, entry?_eq, lookup_put, if_pos rfl, Option.some_or]

/-- Nothing else changes: the directories above the file were there before. -/
theorem entry?_write_other (written : fs.write path text = .ok after) (apart : other ≠ path) :
    after.entry? other = fs.entry? other := by
  obtain ⟨rfl, present⟩ := write_ok written
  have above (below : other <+: path) : fs.has other = true := by
    obtain here | parent := present
    · exact has_of_prefix here below
    -- what lies above the file lies at its parent or above that
    · refine has_of_prefix parent ?_
      refine List.prefix_of_prefix_length_le below (List.dropLast_prefix path) ?_
      have shorter : other.length ≠ path.length := fun same => apart (below.eq_of_length same)
      have := below.length_le
      rw [Path.parent, List.length_dropLast]
      omega
  rw [entry?_eq, entry?_eq, lookup_put, if_neg apart, has_put above]

end FileSystem

/-! ## A pruned program can be written in every format -/

namespace Console

/-! ## Wrong arguments -/

theorem split_error {s : Split} {variadic : Bool} {args : List String} {invocation : Invocation}
    (failed : split s variadic args = .error invocation) :
    invocation = .answered versionText ∨ ∃ reason, invocation = .wrong ("error: " ++ reason) := by
  fun_induction split s variadic args
  case case1 | case2 => cases failed
  case case3 ih | case5 ih | case6 ih | case9 ih | case10 ih => exact ih failed
  case case4 | case8 =>
    cases failed
    exact .inl rfl
  case case7 form _ =>
    cases failed
    exact .inr ⟨"option '" ++ form ++ "' argument missing",
      congrArg Invocation.wrong (String.toList_injective (by simp))⟩

/-- The text went to exactly one place: into the file that was named for it, else to the standard
output. -/
def Delivered (host : Host) (output : Option String) (files : FileSystem) (text : String)
    (w : World) : Prop :=
  match output.filter (· != "") with
  | none => outputs w.effects = [text] ∧ w.files = files
  | some name =>
    let path := Path.resolve host.directory name
    outputs w.effects = [] ∧ w.files.entry? path = some (.file text) ∧
      ∀ other, other ≠ path → w.files.entry? other = files.entry? other

/-- Nothing was done but to say what is wrong. -/
structure Refused (host : Host) (files : FileSystem) (code : Nat) (w : World) : Prop where
  code : code ≠ 0
  silent : outputs w.effects = []
  files : w.files = files
  error : ∃ e ∈ w.effects, e.IsErrorLine host

variable {host : Host} {files : FileSystem} {coloured : Bool} {file : String} {flags : Flags}
  {settings : Settings} {generation : Generation} {format : OutputFormat} {args : List String}

theorem has_of_generated (generated : generated? host files file settings = .ok generation) :
    files.has (Path.resolve host.directory file) = true := by
  rw [FileSystem.has]
  cases found : files.entry? (Path.resolve host.directory file) with
  | some entry => rfl
  | none =>
    simp only [generated?, FileSystem.read, found] at generated
    cases generated

theorem has_of_prepared (prepared : prepared? host files file flags = some settings) :
    files.has (Path.resolve host.directory file) = true := by
  by_contra missing
  rw [prepared?, if_neg missing] at prepared
  cases prepared

theorem run_refuses (asked : host.arguments args = .generate file flags)
    (nothing : shown? host files file flags = none) :
    ∃ code w, run host args { files, coloured } = .ok (code, none) w ∧ Refused host files code w := by
  obtain ⟨said, ran, messages⟩ :=
    @runOnce_fails host files (coloured && !flags.noColor) _ _ nothing []
  refine ⟨_, _, run_of_generate asked ran, ?_⟩
  constructor
  case code => simp [exitCodeOf_concat]
  case silent => rw [outputs_append, outputs_append, messages.outputs_eq]; rfl
  case files => rfl
  case error =>
    obtain ⟨e, member, line⟩ := messages.error trivial
    exact ⟨e, by simp [member], line⟩

theorem write_run {path : Path} {text : String} {after : FileSystem}
    (written : files.write path text = .ok after) (past : List Effect) :
    Shell.write path text ⟨files, coloured, past⟩ = .ok () ⟨after, coloured, past⟩ := by
  have seen : (get : Shell World) ⟨files, coloured, past⟩ =
      .ok ⟨files, coloured, past⟩ ⟨files, coloured, past⟩ := rfl
  rewrite [Shell.write, Shell.bind_ok seen, written]
  rfl

theorem run_delivers {text : String} (asked : host.arguments args = .generate file flags)
    (shown : shown? host files file flags = some text)
    (writable : ∀ name, flags.output = some name → name ≠ "" →
      files.Writable (Path.resolve host.directory name)) :
    ∃ w, run host args { files, coloured } = .ok (0, none) w ∧
      Delivered host flags.output files text w := by
  obtain ⟨said, messages, ran⟩ :=
    @runOnce_shows host files (coloured && !flags.noColor) _ _ _ shown []
  rw [List.nil_append] at ran
  have silent := messages.outputs_eq
  have zero : exitCodeOf said = 0 := messages.exitCodeOf_append []
  unfold Delivered
  cases named : flags.output.filter (· != "") with
  | none =>
    rw [named] at ran
    have answer := run_of_generate asked (ran.trans rfl)
    rw [exitCodeOf_concat, zero] at answer
    refine ⟨_, answer, ?_, rfl⟩
    rw [outputs_append, silent]
    rfl
  | some name =>
    rw [named] at ran
    obtain ⟨given, nonempty⟩ := Option.filter_eq_some_iff.1 named
    obtain ⟨after, written⟩ := writable name given (by simpa using nonempty) text
    obtain ⟨last, told, messages'⟩ := @say_aside host after (coloured && !flags.noColor) .green
      ("Wrote " ++ name ++ "\n") said
    have answer := run_of_generate asked
      (ran.trans ((Shell.bind_ok (write_run written said)).trans told))
    rw [messages'.exitCodeOf_append, zero] at answer
    refine ⟨_, answer, ?_, FileSystem.entry?_write_self written,
      fun other apart => FileSystem.entry?_write_other written apart⟩
    rw [outputs_append, silent, messages'.outputs_eq]
    rfl

/-- A host that finds no statements in any source. -/
def blankHost : Host where
  directory := []
  parser := fun _ _ => .ok { directives := [], items := [], spans := [] }
  time := "12:00"

/-- One empty source file. -/
def blankFiles : FileSystem := ⟨[(["f"], .file "")]⟩

theorem resolve_blank : Path.resolve blankHost.directory "f" = ["f"] := by cbv

end Console

end Flowgraph
