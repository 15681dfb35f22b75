import Flowgraph.Settings.Load
import Mathlib.Data.List.Basic

/-!
# The nearest settings file

The search asks for the names of settings files in a directory, by rank, and then goes on in the
directory above, unless that is the same one.  It is the same only for the root, which has been
searched by then, and every other step makes the path shorter, so the search ends.

What has been asked for in vain comes before all that has not been asked for, in an order of two
levels: by distance from the start, and by rank within a directory.
-/

namespace Flowgraph

namespace Path

variable {p d : Path}

/-- The root is the only directory that is the one above itself. -/
theorem parent_eq_self_iff : p.parent = p ↔ p = [] := by
  constructor
  · intro same
    have shorter : p.parent.length = p.length - 1 := List.length_dropLast
    rw [same] at shorter
    exact List.length_eq_zero_iff.1 (by omega)
  · rintro rfl
    rfl

theorem length_parent (below : p.parent ≠ p) : p.parent.length + 1 = p.length := by
  have filled := List.length_pos_iff.2 (mt parent_eq_self_iff.2 below)
  rw [parent, List.length_dropLast]
  omega

/-- The directories above come after the directory itself; above the root there is none. -/
theorem ancestors_eq (p : Path) :
    p.ancestors = p :: if p.parent = p then [] else p.parent.ancestors := by
  split
  case isTrue top =>
    obtain rfl := parent_eq_self_iff.1 top
    rfl
  case isFalse below =>
    rw [ancestors, ← length_parent below]
    rfl

/-- Of two directories above the same one, at most one has a given length. -/
theorem eq_of_above {a b : Path} (ha : a <+: p) (hb : b <+: p) (le : a.length ≤ b.length)
    (ge : b.length ≤ a.length) : a = b :=
  (List.prefix_of_prefix_length_le ha hb le).eq_of_length (Nat.le_antisymm le ge)

end Path

namespace SettingsFile

variable {fs : FileSystem} {start d : Path} {file : SettingsFile} {files : List SettingsFile}
  {looks looks' : Nat} {result result' : Option (Path × SettingsFile)}

/-! ## What is to be found -/

/-- The place of a name among all names. -/
def rank (file : SettingsFile) : Nat := all.idxOf file

/-- There is a settings file of this name in `directory`, which is the start or lies above it. -/
structure Candidate (fs : FileSystem) (start directory : Path) (file : SettingsFile) : Prop where
  above : directory <+: start
  there : fs.has (directory ++ [file.name]) = true

/-- No candidate is nearer to the start, and none in the same directory comes before by rank. -/
structure Nearest (fs : FileSystem) (start directory : Path) (file : SettingsFile) : Prop
    extends Candidate fs start directory file where
  nearest : ∀ other name, Candidate fs start other name → ¬ directory.length < other.length
  first : ∀ name, Candidate fs start directory name → ¬ name.rank < file.rank

theorem mem_all (file : SettingsFile) : file ∈ all := by
  cases file <;> decide

theorem rank_injective {a b : SettingsFile} (same : a.rank = b.rank) : a = b :=
  (List.idxOf_inj (mem_all a)).1 same

/-- At most one candidate is the nearest. -/
theorem Nearest.unique {d' : Path} {file' : SettingsFile} (here : Nearest fs start d file)
    (there : Nearest fs start d' file') : d = d' ∧ file = file' := by
  have far := here.nearest d' file' there.toCandidate
  have near := there.nearest d file here.toCandidate
  obtain rfl := Path.eq_of_above here.above there.above (by omega) (by omega)
  have late := here.first file' there.toCandidate
  have early := there.first file here.toCandidate
  exact ⟨rfl, rank_injective (by omega)⟩

/-! ## The search -/

/-- With the names of `files` still to be asked for in directory `d`, the search asks so many times
whether something is there, and ends with `result`. -/
inductive Climbs (fs : FileSystem) : (d : Path) → (files : List SettingsFile) → (looks : Nat) →
    (result : Option (Path × SettingsFile)) → Prop where
  | found {d : Path} {file : SettingsFile} {files : List SettingsFile}
      (there : fs.has (d ++ [file.name]) = true) :
      Climbs fs d (file :: files) 1 (some (d ++ [file.name], file))
  | next {d : Path} {file : SettingsFile} {files : List SettingsFile} {looks : Nat}
      {result : Option (Path × SettingsFile)} (missing : fs.has (d ++ [file.name]) = false)
      (rest : Climbs fs d files looks result) : Climbs fs d (file :: files) (looks + 1) result
  | up {d : Path} {looks : Nat} {result : Option (Path × SettingsFile)} (below : d.parent ≠ d)
      (above : Climbs fs d.parent all looks result) : Climbs fs d [] looks result
  | top {d : Path} (root : d.parent = d) : Climbs fs d [] 0 none

theorem Climbs.unique (climbs : Climbs fs d files looks result)
    (climbs' : Climbs fs d files looks' result') : looks = looks' ∧ result = result' := by
  induction climbs generalizing looks' result' with
  | found there =>
    cases climbs' with
    | found _ => exact ⟨rfl, rfl⟩
    | next missing _ => cases there.symm.trans missing
  | next missing _ ih =>
    cases climbs' with
    | found there => cases there.symm.trans missing
    | next _ rest =>
      obtain ⟨rfl, rfl⟩ := ih rest
      exact ⟨rfl, rfl⟩
  | up below _ ih =>
    cases climbs' with
    | up _ above => exact ih above
    | top root => exact absurd root below
  | top root =>
    cases climbs' with
    | up below _ => exact absurd root below
    | top _ => exact ⟨rfl, rfl⟩

/-- A name that is found ends the search in its directory. -/
theorem climbs_of_found (found : files.find? (fun file => fs.has (d ++ [file.name])) = some file) :
    ∃ looks ≤ files.length, Climbs fs d files looks (some (d ++ [file.name], file)) := by
  induction files with
  | nil => cases found
  | cons next files ih =>
    cases there : fs.has (d ++ [next.name]) with
    | true =>
      rw [List.find?_cons, there] at found
      cases found
      exact ⟨1, Nat.succ_le_succ (Nat.zero_le _), .found there⟩
    | false =>
      rw [List.find?_cons, there] at found
      obtain ⟨looks, few, rest⟩ := ih found
      exact ⟨looks + 1, Nat.succ_le_succ few, .next there rest⟩

/-- Names that are not there take one look each. -/
theorem climbs_of_missing (missing : ∀ file ∈ files, fs.has (d ++ [file.name]) = false)
    (rest : Climbs fs d [] looks result) : Climbs fs d files (looks + files.length) result := by
  induction files with
  | nil => exact rest
  | cons next files ih =>
    obtain ⟨first, others⟩ := List.forall_mem_cons.1 missing
    exact .next first (ih others)

/-- What is found from a directory is found in it, or else from the one above. -/
theorem find?_eq (fs : FileSystem) (d : Path) :
    find? fs d =
      ((all.find? fun file => fs.has (d ++ [file.name])).map fun file =>
        (d ++ [file.name], file)).or (if d.parent = d then none else find? fs d.parent) := by
  rw [find?, d.ancestors_eq, List.flatMap_cons, List.find?_append, List.find?_map]
  split <;> rfl

/-- The search ends with what is found, and asks for every name in every directory at most once. -/
theorem climbs_find? (fs : FileSystem) (start : Path) :
    ∃ looks ≤ all.length * (start.length + 1), Climbs fs start all looks (find? fs start) := by
  induction h : start.length using Nat.strongRecOn generalizing start with
  | ind n ih =>
    subst h
    rw [find?_eq]
    cases here : all.find? fun file => fs.has (start ++ [file.name]) with
    | some file =>
      obtain ⟨looks, few, climbs⟩ := climbs_of_found here
      exact ⟨looks, Nat.le_trans few (Nat.le_mul_of_pos_right _ (Nat.succ_pos _)), climbs⟩
    | none =>
      have missing : ∀ file ∈ all, fs.has (start ++ [file.name]) = false := by
        simpa using List.find?_eq_none.1 here
      rw [Option.map_none, Option.none_or]
      split
      case isTrue root =>
        refine ⟨_, ?_, climbs_of_missing missing (.top root)⟩
        rw [Nat.zero_add]
        exact Nat.le_mul_of_pos_right _ (Nat.succ_pos _)
      case isFalse below =>
        -- The path above is shorter, so the search from there is known to end.
        have shorter := Path.length_parent below
        obtain ⟨looks, few, above⟩ := ih start.parent.length (by omega) start.parent rfl
        refine ⟨_, ?_, climbs_of_missing missing (.up below above)⟩
        rw [← shorter, Nat.mul_succ]
        exact Nat.add_le_add_right few _

/-! ## What it finds -/

/-- The invariant of the search, at `d` with the names of `files` to come: no candidate is nearer, and
there is none in `d` under the names that came before. -/
structure Searched (fs : FileSystem) (start d : Path) (files : List SettingsFile) : Prop where
  above : d <+: start
  farther : ∀ other name, Candidate fs start other name → other.length ≤ d.length
  passed : ∃ passed, all = passed ++ files ∧ ∀ file ∈ passed, fs.has (d ++ [file.name]) = false

namespace Searched

theorem begin (fs : FileSystem) (start : Path) : Searched fs start start all where
  above := List.prefix_rfl
  farther _ _ candidate := candidate.above.length_le
  passed := ⟨[], rfl, fun _ member => absurd member List.not_mem_nil⟩

theorem next (searched : Searched fs start d (file :: files))
    (missing : fs.has (d ++ [file.name]) = false) : Searched fs start d files where
  above := searched.above
  farther := searched.farther
  passed := by
    obtain ⟨passed, split, vain⟩ := searched.passed
    refine ⟨passed ++ [file], by simp [split], fun name member => ?_⟩
    obtain before | same := List.mem_append.1 member
    · exact vain name before
    · rwa [List.mem_singleton.1 same]

/-- Where no name is left, the candidates lie farther away. -/
theorem left (searched : Searched fs start d []) {other : Path} {name : SettingsFile}
    (candidate : Candidate fs start other name) : other.length < d.length := by
  obtain ⟨passed, split, vain⟩ := searched.passed
  rw [List.append_nil] at split
  have near := searched.farther other name candidate
  refine Nat.lt_of_le_of_ne near fun same => ?_
  -- A directory above the start is given by its length.
  obtain rfl := Path.eq_of_above candidate.above searched.above near (Nat.le_of_eq same.symm)
  have missing := vain name (split ▸ mem_all name)
  cases missing.symm.trans candidate.there

theorem up (searched : Searched fs start d []) (below : d.parent ≠ d) :
    Searched fs start d.parent all where
  above := (List.dropLast_prefix d).trans searched.above
  farther other name candidate := by
    have shorter := Path.length_parent below
    have farther := searched.left candidate
    omega
  passed := ⟨[], rfl, fun _ member => absurd member List.not_mem_nil⟩

theorem nearest (searched : Searched fs start d (file :: files))
    (there : fs.has (d ++ [file.name]) = true) : Nearest fs start d file where
  above := searched.above
  there := there
  nearest other name candidate := Nat.not_lt.2 (searched.farther other name candidate)
  first name candidate := by
    -- A name that is there is not among those that were asked for in vain, so it comes behind them.
    obtain ⟨passed, split, vain⟩ := searched.passed
    have new : ∀ name : SettingsFile, fs.has (d ++ [name.name]) = true → name ∉ passed := by
      intro name there member
      cases (vain name member).symm.trans there
    rw [rank, rank, split, List.idxOf_append_of_notMem (new file there),
      List.idxOf_append_of_notMem (new name candidate.there), List.idxOf_cons_self]
    omega

end Searched

/-- A path is that of the nearest candidate, and nothing means that there is no candidate. -/
def IsNearest (fs : FileSystem) (start : Path) : Option (Path × SettingsFile) → Prop
  | some (path, file) => ∃ d, path = d ++ [file.name] ∧ Nearest fs start d file
  | none => ∀ d file, ¬ Candidate fs start d file

theorem IsNearest.unique (here : IsNearest fs start result) (there : IsNearest fs start result') :
    result = result' := by
  match result, result' with
  | none, none => rfl
  | none, some (_, file) =>
    obtain ⟨d, -, nearest⟩ := there
    exact absurd nearest.toCandidate (here d file)
  | some (_, file), none =>
    obtain ⟨d, -, nearest⟩ := here
    exact absurd nearest.toCandidate (there d file)
  | some (_, file), some (_, file') =>
    obtain ⟨d, rfl, nearest⟩ := here
    obtain ⟨d', rfl, nearest'⟩ := there
    obtain ⟨rfl, rfl⟩ := nearest.unique nearest'
    rfl

/-- The invariant goes along with the search up to its end. -/
theorem Climbs.isNearest (climbs : Climbs fs d files looks result)
    (searched : Searched fs start d files) : IsNearest fs start result := by
  induction climbs with
  | found there => exact ⟨_, rfl, searched.nearest there⟩
  | next missing _ ih => exact ih (searched.next missing)
  | up below _ ih => exact ih (searched.up below)
  | top root =>
    -- Nothing lies farther away than the root, and the root has been searched.
    intro other name candidate
    have farther := searched.left candidate
    rw [Path.parent_eq_self_iff.1 root] at farther
    exact Nat.not_lt_zero _ farther

theorem find?_eq_iff : find? fs start = result ↔ IsNearest fs start result := by
  obtain ⟨looks, -, climbs⟩ := climbs_find? fs start
  have nearest := climbs.isNearest (Searched.begin fs start)
  constructor
  · rintro rfl
    exact nearest
  · exact nearest.unique

/-- From any directory the search ends, after at most one look for each name in each directory up to
the root.  It finds the candidate that is nearest, and of those in one directory the first by rank; it
finds nothing only if there is no candidate. -/
theorem finds_nearest (fs : FileSystem) (start : Path) :
    (∃ looks ≤ all.length * (start.length + 1), ∀ n result,
      Climbs fs start all n result ↔ n = looks ∧ result = find? fs start) ∧
    (∀ path file, find? fs start = some (path, file) ↔
      ∃ d, path = d ++ [file.name] ∧ Nearest fs start d file) ∧
    (find? fs start = none ↔ ∀ d file, ¬ Candidate fs start d file) := by
  obtain ⟨looks, few, climbs⟩ := climbs_find? fs start
  refine ⟨⟨looks, few, fun n result => ⟨fun other => other.unique climbs, ?_⟩⟩, ?_, ?_⟩
  · rintro ⟨rfl, rfl⟩
    exact climbs
  · exact fun path file => find?_eq_iff
  · exact find?_eq_iff

end SettingsFile

end Flowgraph
