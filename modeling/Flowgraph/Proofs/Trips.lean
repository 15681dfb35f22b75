import Flowgraph.Proofs.Execution
import Flowgraph.Proofs.Loops

/-!
# Executions are trips through the blocks

A trip leads from the start of a numbered block out of the function and collects choices and
fragments on its way.  A statement that is laid out in a graph runs as the trips through its blocks
do.  To follow a loop once more, the loop is laid out again behind the block that leads back to its
header.
-/

namespace Flowgraph

namespace Graph

/-- From the start of a block, or from outside, control gets out of the function past so many blocks,
with these choices and these fragments. -/
inductive Trip (g : Graph) : Nat → Option Nat → List Bool → List String → Prop where
  | out : Trip g 0 none [] []
  | visit {count i : Nat} {lines F : List String} {e : Ending (Option Nat)} {D D' : List Bool}
      {next : Option Nat} (has : g.Has i lines e) (choices : D.length = Fragment.choices lines)
      (leads : e.next? none D.getLast? = some next) (rest : Trip g count next D' F) :
      Trip g (count + 1) (some i) (D ++ D') (lines ++ F)

variable {g : Graph} {c i k n m count : Nat} {P Q : Spot} {s : Statement} {p lines F G : List String}
  {D : List Bool} {e : Ending (Option Nat)} {next : Option Nat} {outcome : Outcome}

theorem Has.goes_trip (has : g.Has i lines (.goes next)) (plain : Fragment.choices lines = 0)
    (rest : g.Trip count next D F) : g.Trip (count + 1) (some i) D (lines ++ F) :=
  .visit has (D := []) plain.symm rfl rest

theorem Has.choice_trip (has : g.Has i lines e) (choice : Bool) (one : Fragment.choices lines = 1)
    (leads : e.next? none (some choice) = some next) (rest : g.Trip count next D F) :
    g.Trip (count + 1) (some i) (choice :: D) (lines ++ F) :=
  .visit has (D := [choice]) one.symm leads rest

/-- A trip that comes to the header of a loop and chooses there. -/
theorem Has.loop_trip {header : List String} {i' k : Nat} (ends : g.Has c p (.goes (some i)))
    (plain : Fragment.choices p = 0) (loops : g.Has i header (.loops (some i') (some k)))
    (one : Fragment.choices header = 1) (choice : Bool)
    (rest : g.Trip count (some (if choice then i' else k)) D F) :
    g.Trip (count + 2) (some c) (choice :: D) (p ++ (header ++ F)) := by
  refine ends.goes_trip plain (loops.choice_trip choice one ?_ rest)
  cases choice <;> rfl

/-- What is left of a trip behind a finished block. -/
theorem Trip.behind (sound : g.Sound) (has : g.Has i lines e) (trip : g.Trip count (some i) D G) :
    ∃ D₁ D₂ F rest next, D = D₁ ++ D₂ ∧ G = lines ++ F ∧ count = rest + 1 ∧
      D₁.length = Fragment.choices lines ∧ e.next? none D₁.getLast? = some next ∧
      g.Trip rest next D₂ F := by
  cases trip with
  | visit has' choices leads rest =>
    obtain ⟨rfl, rfl⟩ := has'.unique sound has
    exact ⟨_, _, _, _, _, rfl, rfl, rfl, choices, leads, rest⟩

theorem Trip.behind_goes (sound : g.Sound) (has : g.Has i lines (.goes next))
    (plain : Fragment.choices lines = 0) (trip : g.Trip count (some i) D G) :
    ∃ F rest, G = lines ++ F ∧ count = rest + 1 ∧ g.Trip rest next D F := by
  obtain ⟨D₁, D₂, F, rest, next', rfl, rfl, rfl, choices, leads, trip⟩ := trip.behind sound has
  obtain rfl : D₁ = [] := List.length_eq_zero_iff.1 (choices.trans plain)
  cases leads
  exact ⟨F, rest, rfl, rfl, trip⟩

theorem Trip.behind_choice (sound : g.Sound) (has : g.Has i lines e)
    (one : Fragment.choices lines = 1) (trip : g.Trip count (some i) D G) :
    ∃ choice D₂ F rest next, D = choice :: D₂ ∧ G = lines ++ F ∧ count = rest + 1 ∧
      e.next? none (some choice) = some next ∧ g.Trip rest next D₂ F := by
  obtain ⟨D₁, D₂, F, rest, next, rfl, rfl, rfl, choices, leads, onward⟩ := trip.behind sound has
  obtain ⟨choice, rfl⟩ := List.length_eq_one_iff.1 (choices.trans one)
  exact ⟨choice, D₂, F, rest, next, rfl, rfl, rfl, leads, onward⟩

/-- What is left of a trip when control leaves a statement at the spot `Q`. -/
def Left (g : Graph) (bound : Nat) (Q : Spot) (D : List Bool) (F : List String) : Outcome → Prop
  | .normal => ∃ q p count, Q = some (q, p) ∧ count ≤ bound ∧ g.Trip count (some q) D (p ++ F)
  | .returned => D = [] ∧ F = []

theorem Left.mono {bound bound' : Nat} (left : g.Left bound Q D F outcome) (le : bound ≤ bound') :
    g.Left bound' Q D F outcome := by
  cases outcome with
  | normal =>
    obtain ⟨q, p, count, out, below, trip⟩ := left
    exact ⟨q, p, count, out, by omega, trip⟩
  | returned => exact left

/-- What is left behind a place where all ways meet again. -/
theorem Left.meet {bound : Nat} (sound : g.Sound) (left : g.Left bound Q D F outcome)
    (meets : g.Joins Q (some k)) (plain : Q.Plain) :
    g.Left bound (some (k, [])) D F outcome := by
  cases outcome with
  | normal =>
    obtain ⟨q, p, count, rfl, below, trip⟩ := left
    obtain ⟨F', rest, text, rfl, trip⟩ := trip.behind_goes sound (meets q p rfl) (plain q p rfl)
    obtain rfl := List.append_cancel_left text
    exact ⟨k, [], rest, rfl, by omega, trip⟩
  | returned => exact left

/-- What is left before such a place. -/
theorem Left.join {bound : Nat} (left : g.Left bound (some (k, [])) D F outcome)
    (meets : g.Joins Q (some k)) (plain : Q.Plain)
    (leaves : outcome = .normal → ∃ q p, Q = some (q, p)) : g.Left (bound + 1) Q D F outcome := by
  cases outcome with
  | normal =>
    obtain ⟨_, _, count, out, below, trip⟩ := left
    cases out
    obtain ⟨q, p, rfl⟩ := leaves rfl
    exact ⟨q, p, count + 1, rfl, by omega, (meets q p rfl).goes_trip (plain q p rfl) trip⟩
  | returned => exact left

/-! ## From executions to trips -/

/-- A statement behind which control goes on is left somewhere. -/
theorem Layout.leaves_of_runs (runs : s.Runs D F .normal) (layout : g.Layout s P Q n m)
    (start : P = some (c, p)) : ∃ q p', Q = some (q, p') := by
  generalize normal : Outcome.normal = outcome at runs
  induction runs generalizing P Q n m c p with
  | simple | thenArm | elseArm | noElse | whileDone | whileAgain | forInit | forDone | forAgain =>
    subst start
    cases layout
    exact ⟨_, _, rfl⟩
  | nil =>
    subst start
    cases layout
    exact ⟨_, _, rfl⟩
  | cons _ _ ih₁ ih₂ =>
    subst start
    cases layout with
    | cons first second =>
      obtain ⟨q, p', out⟩ := ih₁ first rfl rfl
      exact ih₂ second out normal
  | ret | stop | whileReturn | forReturn => cases normal

/-- What is left behind an arm that has run, before its ways meet again. -/
theorem Layout.left_arm {bound : Nat} {D' : List Bool} {F' : List String}
    (layout : g.Layout s (some (n, [])) Q (n + 1) m) (meets : g.Joins Q (some k))
    (runs : s.Runs D F outcome) (left : g.Left bound (some (k, [])) D' F' outcome) :
    g.Left (bound + 1) Q D' F' outcome := by
  refine left.join meets (layout.plain (Spot.plain_start _)) fun normal => ?_
  subst normal
  exact layout.leaves_of_runs runs rfl

/-- What a statement does when it runs is done on a trip through its blocks. -/
theorem Layout.trip_of_runs (runs : s.Runs D F outcome) (layout : g.Layout s P Q n m)
    (start : P = some (c, p)) (plain : P.Plain) {b : Nat} {D' : List Bool} {F' : List String}
    (left : g.Left b Q D' F' outcome) :
    ∃ count, g.Trip count (some c) (D ++ D') (p ++ (F ++ F')) := by
  induction runs generalizing P Q n m c p b D' F' with
  | simple tokens location =>
    subst start
    cases layout
    obtain ⟨q, p', count, out, -, trip⟩ := left
    cases out
    exact ⟨count, by simpa using trip⟩
  | ret tokens location =>
    subst start
    cases layout with
    | ret ends =>
      obtain ⟨rfl, rfl⟩ := left
      have still : Fragment.choices (p ++ Fragment.statement tokens) = 0 := by
        simp [plain _ _ rfl]
      have trip := Trip.visit ends (D := []) still.symm rfl .out
      exact ⟨1, by simpa using trip⟩
  | nil location =>
    subst start
    cases layout
    obtain ⟨q, p', count, out, -, trip⟩ := left
    cases out
    exact ⟨count, trip⟩
  | cons runs₁ runs₂ ih₁ ih₂ =>
    subst start
    cases layout with
    | cons first second =>
      obtain ⟨q, p', rfl⟩ := first.leaves_of_runs runs₁ rfl
      obtain ⟨count, trip⟩ := ih₂ second rfl (first.plain plain) left
      obtain ⟨count', trip⟩ := ih₁ first rfl plain ⟨q, p', count, rfl, Nat.le_refl _, trip⟩
      exact ⟨count', by simpa using trip⟩
  | stop rest location runs ih =>
    subst start
    cases layout with
    | cons first second => exact ih first rfl plain (b := b) left
  | thenArm condition alternate location arm ih =>
    subst start
    cases layout with
    | branch ends consequent meets _ _ =>
      obtain ⟨count, trip⟩ :=
        ih consequent rfl (Spot.plain_start _) (consequent.left_arm meets arm left)
      have one : Fragment.choices (p ++ Fragment.ifHeader condition) = 1 := by
        rw [plain.choices_append, Fragment.choices_ifHeader]
      exact ⟨count + 1, by simpa using ends.choice_trip true one rfl trip⟩
  | elseArm condition consequent location arm ih =>
    subst start
    cases layout with
    | branch ends _ _ alternate meets =>
      obtain ⟨count, trip⟩ :=
        ih alternate rfl (Spot.plain_start _) (alternate.left_arm meets arm left)
      have one : Fragment.choices (p ++ Fragment.ifHeader condition) = 1 := by
        rw [plain.choices_append, Fragment.choices_ifHeader]
      exact ⟨count + 1, by simpa using ends.choice_trip false one rfl trip⟩
  | noElse condition consequent location =>
    subst start
    cases layout with
    | @branch _ _ _ _ _ _ _ m _ _ Q ends _ _ alternate meets =>
      have one : Fragment.choices (p ++ Fragment.ifHeader condition) = 1 := by
        rw [plain.choices_append, Fragment.choices_ifHeader]
      -- The arm that is missing is laid out as one without statements.
      have empty : Q = some (m, []) := by
        cases alternate
        rfl
      obtain ⟨_, _, count, out, -, trip⟩ := left
      cases out
      have trip := (meets _ _ empty).goes_trip rfl trip
      exact ⟨_, by simpa using ends.choice_trip false one rfl trip⟩
  | whileDone condition body location =>
    subst start
    cases layout with
    | whileLoop ends header inside back =>
      obtain ⟨_, _, count, out, -, trip⟩ := left
      cases out
      exact ⟨_, ends.loop_trip (plain _ _ rfl) header (by simp) false trip⟩
  | whileReturn condition location runs ih =>
    subst start
    cases layout with
    | whileLoop ends header inside back =>
      obtain ⟨count, trip⟩ := ih inside rfl (Spot.plain_start _) (b := b) left
      have trip := ends.loop_trip (plain _ _ rfl) header (by simp) true trip
      exact ⟨_, by simpa using trip⟩
  | whileAgain runs again ih₁ ih₂ =>
    subst start
    cases layout with
    | whileLoop ends header inside back =>
      -- The loop that runs again is the same loop, laid out behind the last block of its body.
      obtain ⟨q, p', rfl⟩ := inside.leaves_of_runs runs rfl
      have plain' := inside.plain (Spot.plain_start _)
      obtain ⟨count, trip⟩ := ih₂ (.whileLoop (back q p' rfl) header inside back) rfl plain' left
      obtain ⟨count, trip⟩ := ih₁ inside rfl (Spot.plain_start _)
        ⟨q, p', count, rfl, Nat.le_refl _, trip⟩
      have trip := ends.loop_trip (plain _ _ rfl) header (by simp) true trip
      exact ⟨_, by simpa using trip⟩
  | forInit init runs ih =>
    subst start
    cases layout with
    | forLoop ends header inside meets back =>
      have plain' : Spot.Plain (some (c, p ++ Fragment.clause init)) := by
        simp [Spot.Plain, plain _ _ rfl]
      obtain ⟨count, trip⟩ := ih (.forLoop (by simpa [clauseLines] using ends) header inside meets back)
        rfl plain' left
      exact ⟨count, by simpa using trip⟩
  | forDone condition update body location =>
    subst start
    cases layout with
    | forLoop ends header inside meets back =>
      obtain ⟨_, _, count, out, -, trip⟩ := left
      cases out
      have trip := ends.loop_trip (by simp [plain _ _ rfl]) header (by simp) false trip
      exact ⟨_, by simpa [clauseLines] using trip⟩
  | forReturn condition update location runs ih =>
    subst start
    cases layout with
    | forLoop ends header inside meets back =>
      obtain ⟨count, trip⟩ := ih inside rfl (Spot.plain_start _) (b := b) left
      have trip := ends.loop_trip (by simp [plain _ _ rfl]) header (by simp) true trip
      exact ⟨_, by simpa [clauseLines] using trip⟩
  | @forAgain _ update _ _ _ _ _ _ _ runs again ih₁ ih₂ =>
    subst start
    cases layout with
    | @forLoop _ _ _ _ _ _ _ _ m Q ends header inside meets back =>
      -- Here the same loop is laid out behind the update block, as one without a first clause.
      obtain ⟨count, trip⟩ := ih₂ (p := clauseLines update)
        (.forLoop (by simpa [clauseLines] using back) header inside meets back) rfl
        (by simp [Spot.Plain]) left
      have left' : g.Left count (some (m, [])) _ _ .normal :=
        ⟨m, [], count, rfl, Nat.le_refl _, trip⟩
      obtain ⟨count, trip⟩ :=
        ih₁ inside rfl (Spot.plain_start _) (inside.left_arm meets runs left')
      have trip := ends.loop_trip (by simp [plain _ _ rfl]) header (by simp) true trip
      exact ⟨_, by simpa [clauseLines] using trip⟩

/-! ## From trips to executions -/

/-- What a trip does in the blocks of a statement, the statement does when it runs. -/
def Traces (g : Graph) (s : Statement) (Q : Spot) (bound : Nat) (D : List Bool) (F : List String) :
    Prop :=
  ∃ D₁ D₂ F₁ F₂ outcome, D = D₁ ++ D₂ ∧ F = F₁ ++ F₂ ∧ s.Runs D₁ F₁ outcome ∧
    g.Left bound Q D₂ F₂ outcome

theorem Traces.mono {bound bound' : Nat} (traces : g.Traces s Q bound D F) (le : bound ≤ bound') :
    g.Traces s Q bound' D F := by
  obtain ⟨D₁, D₂, F₁, F₂, outcome, eq, eq', runs, left⟩ := traces
  exact ⟨D₁, D₂, F₁, F₂, outcome, eq, eq', runs, left.mono le⟩

theorem Trip.positive (trip : g.Trip count (some i) D G) : 0 < count := by
  cases trip
  omega

/-- A trip begins with what its first block begins with. -/
theorem Trip.begins (trip : g.Trip count (some i) D G) (begins : g.Begins i p) :
    ∃ F, G = p ++ F := by
  cases trip with
  | @visit _ _ lines F _ _ _ _ has choices leads rest =>
    obtain ⟨h, x, named, core, later, text⟩ := begins
    obtain ⟨h', f, named', core', -⟩ := has
    cases named.symm.trans named'
    cases core.symm.trans core'
    obtain rfl : p ++ later = lines := text
    exact ⟨later ++ F, List.append_assoc ..⟩

/-- What is done after the first choice of a header, the loop does. -/
theorem Layout.runs_of_trip_while {condition : List String} {body : Statement} {l : Option Location}
    (sound : g.Sound) (header : g.Has n (Fragment.whileHeader condition)
      (.loops (some (n + 1)) (some m)))
    (inside : g.Layout body (some (n + 1, [])) Q (n + 2) m) (back : g.Joins Q (some n))
    (trace : ∀ count' D F, count' < count → g.Trip count' (some (n + 1)) D F →
      g.Traces body Q count' D F)
    (again : ∀ c p count' D F, count' < count → g.Has c p (.goes (some n)) →
      Fragment.choices p = 0 → g.Trip count' (some c) D (p ++ F) →
      g.Traces (.whileLoop condition body l) (some (m, [])) count' D F)
    (trip : g.Trip count (some n) D F) :
    g.Traces (.whileLoop condition body l) (some (m, [])) count D F := by
  obtain ⟨choice, D, F, rest, next, rfl, rfl, rfl, leads, trip⟩ :=
    trip.behind_choice sound header (by simp)
  cases choice with
  | false =>
    cases leads
    exact ⟨[false], D, _, F, .normal, rfl, rfl, .whileDone condition body l, m, [], rest, rfl,
      by omega, trip⟩
  | true =>
    cases leads
    obtain ⟨D₁, D₂, F₁, F₂, outcome, rfl, rfl, runs, left⟩ := trace rest D F (by omega) trip
    cases outcome with
    | returned =>
      exact ⟨true :: D₁, D₂, _, F₂, .returned, rfl, by simp, .whileReturn condition l runs, left⟩
    | normal =>
      obtain ⟨q, p, count', rfl, less, trip⟩ := left
      obtain ⟨D₃, D₄, F₃, F₄, outcome, rfl, rfl, runs', left⟩ := again q p count' D₂ F₂ (by omega)
        (back q p rfl) (inside.plain (Spot.plain_start _) q p rfl) trip
      exact ⟨true :: D₁ ++ D₃, D₄, _, F₄, outcome, by simp, by simp, .whileAgain runs runs',
        left.mono (by omega)⟩

/-- The same for a loop with an update. -/
theorem Layout.runs_of_trip_for {condition : List String} {update : Option (List String)}
    {body : Statement} {l : Option Location} (sound : g.Sound)
    (header : g.Has n (Fragment.forHeader condition) (.loops (some (n + 1)) (some (m + 1))))
    (inside : g.Layout body (some (n + 1, [])) Q (n + 2) m) (meets : g.Joins Q (some m))
    (back : g.Has m (clauseLines update) (.goes (some n)))
    (trace : ∀ count' D F, count' < count → g.Trip count' (some (n + 1)) D F →
      g.Traces body Q count' D F)
    (again : ∀ count' D F, count' < count → g.Trip count' (some m) D (clauseLines update ++ F) →
      g.Traces (.forLoop none condition update body l) (some (m + 1, [])) count' D F)
    (trip : g.Trip count (some n) D F) :
    g.Traces (.forLoop none condition update body l) (some (m + 1, [])) count D F := by
  obtain ⟨choice, D, F, rest, next, rfl, rfl, rfl, leads, trip⟩ :=
    trip.behind_choice sound header (by simp)
  cases choice with
  | false =>
    cases leads
    exact ⟨[false], D, _, F, .normal, rfl, rfl, .forDone condition update body l, m + 1, [], rest,
      rfl, by omega, trip⟩
  | true =>
    cases leads
    obtain ⟨D₁, D₂, F₁, F₂, outcome, rfl, rfl, runs, left⟩ := trace rest D F (by omega) trip
    cases outcome with
    | returned =>
      exact ⟨true :: D₁, D₂, _, F₂, .returned, rfl, by simp, .forReturn condition update l runs, left⟩
    | normal =>
      have left := left.meet sound meets (inside.plain (Spot.plain_start _))
      obtain ⟨_, _, count', out, less, trip⟩ := left
      cases out
      obtain ⟨F₂, -, rfl, -⟩ := trip.behind_goes sound back (by simp)
      obtain ⟨D₃, D₄, F₃, F₄, outcome, rfl, rfl, runs', left⟩ := again count' D₂ F₂ (by omega) trip
      exact ⟨true :: D₁ ++ D₃, D₄, _, F₄, outcome, by simp, by simp, .forAgain runs runs',
        left.mono (by omega)⟩

/-- A trip through the blocks of a statement comes from a run of the statement.  The induction is on
the length of the trip, which a loop makes shorter, and on the layout for the parts of the
statement. -/
theorem Layout.runs_of_trip (sound : g.Sound) (bound : Nat) (layout : g.Layout s P Q n m)
    (start : P = some (c, p)) (plain : P.Plain) (below : count ≤ bound)
    (trip : g.Trip count (some c) D (p ++ F)) : g.Traces s Q count D F := by
  induction bound generalizing s P Q n m c p count D F with
  | zero =>
    have := trip.positive
    omega
  | succ bound again =>
    induction layout generalizing c p count D F with
    | skip => cases start
    | @simple tokens l c p n begins =>
      cases start
      obtain ⟨F₂, text⟩ := trip.begins begins
      obtain rfl : F = _ ++ F₂ := List.append_cancel_left (text.trans (List.append_assoc ..))
      refine ⟨[], D, _, F₂, .normal, rfl, rfl, .simple tokens l, c, _, count, rfl, Nat.le_refl _, ?_⟩
      rwa [List.append_assoc]
    | ret ends =>
      cases start
      obtain ⟨D₁, D₂, F₂, rest, next, rfl, text, rfl, choices, leads, trip⟩ := trip.behind sound ends
      obtain rfl := List.append_cancel_left (text.trans (List.append_assoc ..))
      cases leads
      cases trip
      obtain rfl : D₁ = [] := List.length_eq_zero_iff.1 (by simp [choices, plain _ _ rfl])
      exact ⟨[], [], _, [], .returned, rfl, rfl, .ret _ _, rfl, rfl⟩
    | nil =>
      subst start
      exact ⟨[], D, [], F, .normal, rfl, rfl, .nil _, c, p, count, rfl, Nat.le_refl _, trip⟩
    | cons first second ih₁ ih₂ =>
      obtain ⟨D₁, D₂, F₁, F₂, outcome, rfl, rfl, runs, left⟩ := ih₁ start plain below trip
      cases outcome with
      | returned => exact ⟨D₁, D₂, F₁, F₂, .returned, rfl, rfl, .stop _ _ runs, left⟩
      | normal =>
        obtain ⟨q, p', count', out, less, trip⟩ := left
        obtain ⟨D₃, D₄, F₃, F₄, outcome, rfl, rfl, runs', left⟩ :=
          ih₂ out (first.plain plain) (by omega) trip
        exact ⟨D₁ ++ D₃, D₄, F₁ ++ F₃, F₄, outcome, by simp, by simp, .cons runs runs', left.mono less⟩
    | @branch condition a b l c p n m r Q Q' ends consequent meets alternate meets' ih₁ ih₂ =>
      cases start
      have one : Fragment.choices (p ++ Fragment.ifHeader condition) = 1 := by
        rw [plain.choices_append, Fragment.choices_ifHeader]
      obtain ⟨choice, D, F, rest, next, rfl, text, rfl, leads, trip⟩ :=
        trip.behind_choice sound ends one
      obtain rfl := List.append_cancel_left (text.trans (List.append_assoc ..))
      cases choice with
      | true =>
        cases leads
        obtain ⟨D₁, D₂, F₁, F₂, outcome, rfl, rfl, runs, left⟩ :=
          ih₁ rfl (Spot.plain_start _) (by omega) trip
        have left := left.meet sound meets (consequent.plain (Spot.plain_start _))
        exact ⟨true :: D₁, D₂, _, F₂, outcome, rfl, by simp, .thenArm condition b l runs,
          left.mono (by omega)⟩
      | false =>
        cases leads
        obtain ⟨D₁, D₂, F₁, F₂, outcome, rfl, rfl, runs, left⟩ :=
          ih₂ rfl (Spot.plain_start _) (by omega) trip
        have left := left.meet sound meets' (alternate.plain (Spot.plain_start _))
        exact ⟨false :: D₁, D₂, _, F₂, outcome, rfl, by simp, runs.otherwise condition a l,
          left.mono (by omega)⟩
    | @whileLoop condition body l c p n m Q ends header inside back ih =>
      cases start
      obtain ⟨F, rest, text, rfl, onward⟩ := trip.behind_goes sound ends (plain _ _ rfl)
      obtain rfl := List.append_cancel_left text
      have traces : g.Traces (.whileLoop condition body l) (some (m, [])) rest D F := by
        refine Layout.runs_of_trip_while sound header inside back ?_ ?_ onward
        · intro count' D F less trip
          exact ih rfl (Spot.plain_start _) (by omega) trip
        · intro c p count' D F less ends still trip
          have plain' : Spot.Plain (some (c, p)) := by simpa [Spot.Plain] using still
          exact again (.whileLoop ends header inside back) rfl plain' (by omega) trip
      exact traces.mono (by omega)
    | @forLoop init condition update body l c p n m Q ends header inside meets back ih =>
      cases start
      obtain ⟨F, rest, text, rfl, onward⟩ := trip.behind_goes sound ends (by simp [plain _ _ rfl])
      obtain rfl := List.append_cancel_left (text.trans (List.append_assoc ..))
      have traces : g.Traces (.forLoop none condition update body l) (some (m + 1, [])) rest D F := by
        refine Layout.runs_of_trip_for sound header inside meets back ?_ ?_ onward
        · intro count' D F less trip
          exact ih rfl (Spot.plain_start _) (by omega) trip
        · intro count' D F less trip
          have back' : g.Has m (clauseLines update ++ clauseLines none) (.goes (some n)) := by
            simpa [clauseLines] using back
          exact again (.forLoop back' header inside meets back) rfl (by simp [Spot.Plain]) (by omega)
            trip
      obtain ⟨D₁, D₂, F₁, F₂, outcome, rfl, rfl, runs, left⟩ := traces
      exact ⟨D₁, D₂, _, F₂, outcome, rfl, by simp, runs.init init, left.mono (by omega)⟩

end Graph

end Flowgraph
