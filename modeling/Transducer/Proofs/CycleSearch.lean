import Mathlib.Algebra.Order.BigOperators.Group.Finset
import Transducer.Proofs.StateGraph
import Transducer.Proofs.ViewFacts
/-!
# Cycles

The search for a cycle goes down one path at a time. Its grey vertices are those of the path, each
with an edge to the one above it; a black vertex leads to black ones only and lies on no cycle
(`Descending`). An edge back into the path closes a cycle, and when the search is over every vertex is
black. The search is a loop that keeps for each vertex of the path how many edges have been followed
(`Search`); a turn follows an edge, leaves a vertex or takes up a root, so the edges and twice the
vertices bound the turns. Main statement: the word of a survey decides exactly whether there is a
cycle, and a machine found in topological order is found without one (`survey_decides_cycles`).
-/
namespace Transducer

open Relation (ReflTransGen TransGen)

namespace Graph

variable {g : Graph} {colours : List Colour} {path : List (Nat × List Nat)} {v t : Nat}
  {rest : List Nat}

/-! ## What the search knows part way down a path -/

/-- A path with the vertex that was entered from its end, if any. Each vertex has an edge to the one
above it, and its edges are still to be followed, lead to a black vertex or to the one above it. -/
inductive Trail (g : Graph) (colours : List Colour) : Option Nat → List (Nat × List Nat) → Prop
  | nil {above : Option Nat} : Trail g colours above []
  | cons {above : Option Nat} {v : Nat} {rest : List Nat} {path : List (Nat × List Nat)}
      (entered : ∀ w ∈ above, g.Edge v w)
      (ahead : ∀ w ∈ rest, w ∈ g.next v)
      (followed : ∀ w, g.Edge v w → w ∈ rest ∨ colours[w]? = some .black ∨ w ∈ above)
      (below : Trail g colours (some v) path) : Trail g colours above ((v, rest) :: path)

theorem Trail.mono {after : List Colour} {above : Option Nat}
    (black : ∀ w : Nat, colours[w]? = some .black → after[w]? = some .black)
    (trail : g.Trail colours above path) : g.Trail after above path := by
  induction trail with
  | nil => exact .nil
  | cons entered ahead followed _ ih =>
    refine .cons entered ahead ?_ ih
    intro w edge
    cases followed w edge with
    | inl waits => exact Or.inl waits
    | inr done => exact Or.inr (done.imp_left (black w))

/-- The vertex that was entered from the end of a path may become black. -/
theorem Trail.leave (trail : g.Trail colours (some v) path) (black : colours[v]? = some .black) :
    g.Trail colours none path := by
  cases trail with
  | nil => exact .nil
  | cons entered ahead followed below =>
    refine .cons (by simp) ahead ?_ below
    intro w edge
    cases followed w edge with
    | inl waits => exact Or.inl waits
    | inr done =>
      cases done with
      | inl done => exact Or.inr (Or.inl done)
      | inr above =>
        cases above
        exact Or.inr (Or.inl black)

/-- All vertices of a path lead to the one that was entered from its end. -/
theorem Trail.transGen (trail : g.Trail colours (some v) path) :
    ∀ u ∈ path.map Prod.fst, TransGen g.Edge u v := by
  induction path generalizing v with
  | nil => simp
  | cons entry path ih =>
    cases trail with
    | cons entered _ _ below =>
      have edge := entered v rfl
      intro u member
      cases member with
      | head => exact TransGen.single edge
      | tail _ later => exact (ih below u later).tail edge

/-- The grey vertices are those of the path, and black vertices are done with for good. -/
structure Descending (g : Graph) (colours : List Colour) (path : List (Nat × List Nat)) : Prop where
  marks : colours.length = g.size
  distinct : (path.map Prod.fst).Nodup
  grey : ∀ v, colours[v]? = some .grey ↔ v ∈ path.map Prod.fst
  settled : ∀ u w, colours[u]? = some .black → g.Edge u w → colours[w]? = some .black
  clear : ∀ v, colours[v]? = some .black → ¬ TransGen g.Edge v v
  trail : g.Trail colours none path

theorem Descending.reflTransGen_settled (descending : g.Descending colours path) {u w : Nat}
    (black : colours[u]? = some .black) (path : ReflTransGen g.Edge u w) :
    colours[w]? = some .black := by
  induction path with
  | refl => exact black
  | tail _ edge ih => exact descending.settled _ _ ih edge

/-! ## The turns of the search -/

/-- A vertex all of whose edges have been followed becomes black. -/
theorem Descending.blacken (descending : g.Descending colours ((v, []) :: path)) :
    g.Descending (colours.set v .black) path := by
  obtain ⟨marks, distinct, grey, settled, clear, trail⟩ := id descending
  rw [List.map_cons, List.nodup_cons] at distinct
  have here : colours[v]? = some .grey := (grey v).2 List.mem_cons_self
  have inside := (List.getElem?_eq_some_iff.1 here).1
  have keeps (w : Nat) (black : colours[w]? = some .black) :
      (colours.set v .black)[w]? = some .black := by
    rw [getElem?_set_of_lt inside]
    split
    · rfl
    · exact black
  cases trail with
  | cons _ _ followed below =>
    -- No edge is left to be followed and nothing is above, so all edges lead to black vertices.
    have onto (w : Nat) (edge : g.Edge v w) : colours[w]? = some .black := by
      simpa using followed w edge
    have alone : ¬ TransGen g.Edge v v := by
      intro cycle
      obtain ⟨w, edge, back⟩ := TransGen.head'_iff.1 cycle
      have black := descending.reflTransGen_settled (onto w edge) back
      rw [here] at black
      cases black
    refine ⟨by simpa using marks, distinct.2, ?_, ?_, ?_, ?_⟩
    · intro w
      rw [getElem?_set_of_lt inside]
      have before := grey w
      rw [List.map_cons, List.mem_cons] at before
      by_cases same : w = v
      · simp [same, distinct.1]
      · simpa [same] using before
    · intro u w black edge
      refine keeps w ?_
      rw [getElem?_set_of_lt inside] at black
      split at black
      · rename_i same
        exact onto w (same ▸ edge)
      · exact settled u w black edge
    · intro w black
      rw [getElem?_set_of_lt inside] at black
      split at black
      · rename_i same
        exact same ▸ alone
      · exact clear w black
    · refine (below.mono keeps).leave ?_
      rw [getElem?_set_of_lt inside, if_pos rfl]

theorem black_set_grey (white : colours[t]? = some .white) {w : Nat} :
    (colours.set t .grey)[w]? = some .black ↔ colours[w]? = some .black := by
  rw [getElem?_set_of_lt (List.getElem?_eq_some_iff.1 white).1]
  by_cases same : w = t
  · simp [same, white]
  · simp [same]

/-- A white vertex becomes grey when it is put on the path. -/
theorem Descending.darken (descending : g.Descending colours path)
    (white : colours[t]? = some .white) {longer : List (Nat × List Nat)}
    (vertices : longer.map Prod.fst = t :: path.map Prod.fst)
    (trail : g.Trail (colours.set t .grey) none longer) :
    g.Descending (colours.set t .grey) longer := by
  obtain ⟨marks, distinct, grey, settled, clear, _⟩ := descending
  have absent : t ∉ path.map Prod.fst := by
    intro member
    have impossible := (grey t).2 member
    rw [white] at impossible
    cases impossible
  refine ⟨by simpa using marks, vertices ▸ List.nodup_cons.2 ⟨absent, distinct⟩, ?_, ?_, ?_, trail⟩
  · intro w
    rw [getElem?_set_of_lt (List.getElem?_eq_some_iff.1 white).1, vertices, List.mem_cons, ← grey w]
    by_cases same : w = t <;> simp [same]
  · intro u w black edge
    rw [black_set_grey white] at black ⊢
    exact settled u w black edge
  · intro w black
    exact clear w ((black_set_grey white).1 black)

/-- A white vertex at the end of an edge is entered. -/
theorem Descending.enter (descending : g.Descending colours ((v, t :: rest) :: path))
    (white : colours[t]? = some .white) :
    g.Descending (colours.set t .grey) ((t, g.next t) :: (v, rest) :: path) := by
  have inside := (List.getElem?_eq_some_iff.1 white).1
  refine descending.darken white rfl ?_
  cases descending.trail with
  | cons _ ahead followed below =>
    refine .cons (by simp) (fun _ => id) (fun w edge => Or.inl edge.1) ?_
    refine .cons ?_ (fun w waits => ahead w (List.mem_cons_of_mem _ waits)) ?_
      (below.mono fun w => (black_set_grey white).2)
    · intro w above
      cases above
      exact ⟨ahead t List.mem_cons_self, descending.marks ▸ inside⟩
    · intro w edge
      rw [black_set_grey white]
      cases followed w edge with
      | inl waits =>
        cases waits with
        | head => exact Or.inr (Or.inr rfl)
        | tail _ later => exact Or.inl later
      | inr done => exact Or.inr (Or.inl (by simpa using done))

/-- A white root becomes the one vertex of the path. -/
theorem Descending.takeUp (descending : g.Descending colours [])
    (white : colours[t]? = some .white) :
    g.Descending (colours.set t .grey) [(t, g.next t)] :=
  descending.darken white rfl
    (.cons (by simp) (fun _ => id) (fun _ edge => Or.inl edge.1) .nil)

/-- An edge to a grey vertex closes a cycle. -/
theorem Descending.cycle (descending : g.Descending colours ((v, t :: rest) :: path))
    (grey : colours[t]? = some .grey) : TransGen g.Edge v v := by
  have onPath := (descending.grey t).1 grey
  have inside := (List.getElem?_eq_some_iff.1 grey).1
  cases descending.trail with
  | cons _ ahead _ below =>
    have edge : g.Edge v t := ⟨ahead t List.mem_cons_self, descending.marks ▸ inside⟩
    rw [List.map_cons, List.mem_cons] at onPath
    cases onPath with
    | inl same =>
      rw [same] at edge
      exact TransGen.single edge
    | inr later => exact TransGen.head edge (below.transGen t later)

/-- An edge to a black vertex, or to none, is passed over. -/
theorem Descending.skip (descending : g.Descending colours ((v, t :: rest) :: path))
    (white : ¬ colours[t]? = some .white) (grey : ¬ colours[t]? = some .grey) :
    g.Descending colours ((v, rest) :: path) := by
  obtain ⟨marks, distinct, greys, settled, clear, trail⟩ := descending
  refine ⟨marks, distinct, greys, settled, clear, ?_⟩
  cases trail with
  | cons entered ahead followed below =>
    refine .cons entered (fun w waits => ahead w (List.mem_cons_of_mem _ waits)) ?_ below
    intro w edge
    cases followed w edge with
    | inl waits =>
      cases waits with
      | head =>
        have inside : t < colours.length := marks ▸ edge.2
        refine Or.inr (Or.inl ?_)
        rw [List.getElem?_eq_getElem inside] at white grey ⊢
        cases colour : colours[t] <;> simp_all
      | tail _ later => exact Or.inl later
    | inr done => exact Or.inr done

/-! ## The whole search -/

/-- The search stops at cycles only. -/
theorem Descending.exists_cycle (descending : g.Descending colours path)
    (stopped : descend g colours path = none) : ∃ v, TransGen g.Edge v v := by
  fun_induction descend g colours path with
  | case1 => cases stopped
  | case2 colours v path ih => exact ih descending.blacken stopped
  | case3 colours v t rest path white ih => exact ih (descending.enter white) stopped
  | case4 colours v t rest path white grey => exact ⟨v, descending.cycle grey⟩
  | case5 colours v t rest path white grey ih => exact ih (descending.skip white grey) stopped

/-- A search that does not stop gets to the end of its path. -/
theorem Descending.ended (descending : g.Descending colours path) {after : List Colour}
    (ended : descend g colours path = some after) : g.Descending after [] := by
  fun_induction descend g colours path with
  | case1 =>
    cases ended
    exact descending
  | case2 colours v path ih => exact ih descending.blacken ended
  | case3 colours v t rest path white ih => exact ih (descending.enter white) ended
  | case4 => cases ended
  | case5 colours v t rest path white grey ih => exact ih (descending.skip white grey) ended

theorem not_white_set {c : Colour} {u : Nat} (coloured : c ≠ .white)
    (before : ¬ colours[u]? = some .white) : ¬ (colours.set v c)[u]? = some .white := by
  rw [List.getElem?_set]
  by_cases same : v = u
  · rw [if_pos same]
    split <;> simp [coloured]
  · rw [if_neg same]
    exact before

/-- No vertex becomes white again. -/
theorem not_white_of_descend {after : List Colour} {u : Nat}
    (ended : descend g colours path = some after) (before : ¬ colours[u]? = some .white) :
    ¬ after[u]? = some .white := by
  fun_induction descend g colours path with
  | case1 =>
    cases ended
    exact before
  | case2 colours v path ih => exact ih ended (not_white_set (by decide) before)
  | case3 colours v t rest path white ih => exact ih ended (not_white_set (by decide) before)
  | case4 => cases ended
  | case5 colours v t rest path white grey ih => exact ih ended before

theorem Descending.exists_cycle_of_searchAll (descending : g.Descending colours [])
    {roots : List Nat} (stopped : searchAll g colours roots = none) :
    ∃ v, TransGen g.Edge v v := by
  induction roots generalizing colours with
  | nil => cases stopped
  | cons root roots ih =>
    unfold searchAll at stopped
    split at stopped
    · rename_i white
      split at stopped
      · rename_i after ended
        exact ih ((descending.takeUp white).ended ended) stopped
      · rename_i cycle
        exact (descending.takeUp white).exists_cycle cycle
    · exact ih descending stopped

theorem Descending.searchedAll (descending : g.Descending colours []) {roots : List Nat}
    {after : List Colour} (ended : searchAll g colours roots = some after) :
    g.Descending after [] := by
  induction roots generalizing colours with
  | nil =>
    cases ended
    exact descending
  | cons root roots ih =>
    unfold searchAll at ended
    split at ended
    · rename_i white
      split at ended
      · rename_i middle below
        exact ih ((descending.takeUp white).ended below) ended
      · cases ended
    · exact ih descending ended

/-- No root stays white. -/
theorem not_white_of_searchAll {roots : List Nat} {after : List Colour} {u : Nat}
    (ended : searchAll g colours roots = some after)
    (listed : ¬ colours[u]? = some .white ∨ u ∈ roots) : ¬ after[u]? = some .white := by
  induction roots generalizing colours with
  | nil =>
    cases ended
    simpa using listed
  | cons root roots ih =>
    rw [List.mem_cons] at listed
    unfold searchAll at ended
    split at ended
    · rename_i white
      split at ended
      · rename_i middle below
        have inside := (List.getElem?_eq_some_iff.1 white).1
        cases listed with
        | inl before =>
          exact ih ended (Or.inl (not_white_of_descend below (not_white_set (by decide) before)))
        | inr member =>
          cases member with
          | inl here =>
            refine ih ended (Or.inl (not_white_of_descend below ?_))
            simp [getElem?_set_of_lt inside, here]
          | inr later => exact ih ended (Or.inr later)
      · cases ended
    · rename_i passed
      cases listed with
      | inl before => exact ih ended (Or.inl before)
      | inr member =>
        cases member with
        | inl here => exact ih ended (Or.inl (here ▸ passed))
        | inr later => exact ih ended (Or.inr later)

theorem descending_start (g : Graph) : g.Descending (List.replicate g.size .white) [] := by
  refine ⟨List.length_replicate, List.nodup_nil, ?_, ?_, ?_, .nil⟩ <;>
    simp [List.getElem?_replicate]

/-- The search finds a cycle exactly if there is one. -/
theorem hasCycle_iff (g : Graph) : g.hasCycle = true ↔ ∃ v, TransGen g.Edge v v := by
  unfold hasCycle
  rw [Option.isNone_iff_eq_none]
  constructor
  · exact g.descending_start.exists_cycle_of_searchAll
  · intro cycle
    obtain ⟨v, cycle⟩ := cycle
    obtain ⟨_, _, edge⟩ := TransGen.tail'_iff.1 cycle
    refine Option.eq_none_iff_forall_ne_some.2 fun after ended => ?_
    have done := g.descending_start.searchedAll ended
    have seen := not_white_of_searchAll ended (Or.inr (List.mem_range.2 edge.2))
    have grey := done.grey v
    have inside : v < after.length := done.marks ▸ edge.2
    rw [List.getElem?_eq_getElem inside] at seen grey
    -- Neither white nor on the path, the vertex is black and lies on no cycle.
    refine done.clear v ?_ cycle
    rw [List.getElem?_eq_getElem inside]
    cases colour : after[v] <;> simp_all

/-! ## The search as a loop -/

/-- The number of edges, parallel ones counted each. -/
def numEdges (g : Graph) : Nat := ∑ v ∈ Finset.range g.size, (g.next v).length

/-- The colours, the vertices of the path with the number of their edges that have been followed,
the last one first, and the roots that have still to be looked at. -/
structure Search where
  colours : List Colour
  path : List (Nat × Nat)
  roots : List Nat
  deriving DecidableEq, Repr

namespace Search

/-- What a turn of the loop comes to. -/
inductive Outcome where
  | goOn (s : Search)
  | answer (cyclic : Bool)
  deriving DecidableEq, Repr

def start (g : Graph) : Search := ⟨List.replicate g.size .white, [], List.range g.size⟩

/-- One turn of the loop: it follows an edge of the last vertex of the path, leaves that vertex, or
takes up a root. -/
def turn (g : Graph) (s : Search) : Outcome :=
  match s.path with
  | [] =>
    match s.roots with
    | [] => .answer false
    | root :: roots =>
      if s.colours[root]? = some .white then
        .goOn ⟨s.colours.set root .grey, [(root, 0)], roots⟩
      else .goOn ⟨s.colours, [], roots⟩
  | (v, i) :: path =>
    match (g.next v)[i]? with
    | none => .goOn ⟨s.colours.set v .black, path, s.roots⟩
    | some t =>
      if s.colours[t]? = some .white then
        .goOn ⟨s.colours.set t .grey, (t, 0) :: (v, i + 1) :: path, s.roots⟩
      else if s.colours[t]? = some .grey then .answer true
      else .goOn ⟨s.colours, (v, i + 1) :: path, s.roots⟩

/-- The answer of the loop, if it comes within so many turns. -/
def answerWithin? (g : Graph) : Nat → Search → Option Bool
  | 0, _ => none
  | turns + 1, s =>
    match s.turn g with
    | .goOn s => answerWithin? g turns s
    | .answer cyclic => some cyclic

/-! ### What the loop answers -/

/-- A vertex with its edges that have still to be followed. -/
def ahead (g : Graph) (entry : Nat × Nat) : Nat × List Nat :=
  (entry.1, (g.next entry.1).drop entry.2)

/-- The answer of the search from where the loop stands. -/
def verdict (g : Graph) (s : Search) : Bool :=
  match descend g s.colours (s.path.map (ahead g)) with
  | some colours => (searchAll g colours s.roots).isNone
  | none => true

def Outcome.verdict (g : Graph) : Outcome → Bool
  | .goOn s => s.verdict g
  | .answer cyclic => cyclic

theorem verdict_start (g : Graph) : (start g).verdict g = g.hasCycle := by
  simp [verdict, start, descend, hasCycle]

@[simp] theorem ahead_zero (g : Graph) (v : Nat) : ahead g (v, 0) = (v, g.next v) := rfl

@[simp] theorem ahead_succ (g : Graph) (v i : Nat) :
    ahead g (v, i + 1) = (v, (g.next v).drop (i + 1)) := rfl

theorem ahead_of_getElem? {i : Nat} (edge : (g.next v)[i]? = some t) :
    ahead g (v, i) = (v, t :: (g.next v).drop (i + 1)) := by
  obtain ⟨inside, rfl⟩ := List.getElem?_eq_some_iff.1 edge
  exact congrArg (Prod.mk v) (List.drop_eq_getElem_cons inside)

theorem ahead_of_none {i : Nat} (past : (g.next v)[i]? = none) : ahead g (v, i) = (v, []) := by
  simpa [ahead] using past

/-- A turn does not change what the search answers. -/
theorem verdict_turn (g : Graph) (s : Search) : (s.turn g).verdict g = s.verdict g := by
  obtain ⟨colours, path, roots⟩ := s
  cases path with
  | nil =>
    cases roots with
    | nil => simp [turn, Outcome.verdict, verdict, descend, searchAll]
    | cons root roots =>
      by_cases white : colours[root]? = some .white
      · simp only [turn, Outcome.verdict, verdict, descend, searchAll, white, List.map, ahead_zero,
          if_true]
        split <;> simp [*]
      · simp [turn, Outcome.verdict, verdict, descend, searchAll, white]
  | cons entry path =>
    obtain ⟨v, i⟩ := entry
    cases edge : (g.next v)[i]? with
    | none => simp [turn, Outcome.verdict, verdict, descend, edge, ahead_of_none edge]
    | some t =>
      have entry := ahead_of_getElem? edge
      by_cases white : colours[t]? = some .white
      · simp [turn, Outcome.verdict, verdict, descend, edge, entry, white]
      · by_cases grey : colours[t]? = some .grey
        · simp [turn, Outcome.verdict, verdict, descend, edge, entry, grey]
        · simp [turn, Outcome.verdict, verdict, descend, edge, entry, white, grey]

/-! ### How many turns the loop takes -/

/-- The white vertices and their edges. -/
def unvisited (g : Graph) (colours : List Colour) : Nat :=
  ∑ v ∈ Finset.range colours.length,
    if colours[v]? = some .white then (g.next v).length + 1 else 0

/-- What is left to do: vertices to be entered, edges to be followed, vertices to be left and roots
to be looked at. -/
def left (g : Graph) (s : Search) : Nat :=
  unvisited g s.colours
    + s.path.foldr (fun entry below => (ahead g entry).2.length + 1 + below) 0
    + s.roots.length

theorem unvisited_set (g : Graph) {c : Colour} (coloured : c ≠ .white)
    (white : colours[t]? = some .white) :
    unvisited g (colours.set t c) + ((g.next t).length + 1) = unvisited g colours := by
  have inside := (List.getElem?_eq_some_iff.1 white).1
  have member := Finset.mem_range.2 inside
  unfold unvisited
  rw [List.length_set, ← Finset.sum_erase_add _ _ member, ← Finset.sum_erase_add _ _ member,
    if_pos white, getElem?_set_of_lt inside, if_pos rfl, if_neg (by simpa using coloured),
    Nat.add_zero]
  congr 1
  refine Finset.sum_congr rfl fun v other => ?_
  rw [getElem?_set_of_lt inside, if_neg (Finset.ne_of_mem_erase other)]

theorem unvisited_set_le (g : Graph) (colours : List Colour) (v : Nat) {c : Colour}
    (coloured : c ≠ .white) : unvisited g (colours.set v c) ≤ unvisited g colours := by
  unfold unvisited
  rw [List.length_set]
  refine Finset.sum_le_sum fun u _ => ?_
  by_cases white : colours[u]? = some .white
  · rw [if_pos white]
    split <;> omega
  · rw [if_neg (not_white_set coloured white)]
    exact Nat.zero_le _

theorem left_start (g : Graph) : (start g).left g = 2 * g.size + g.numEdges := by
  have each : ∀ v ∈ Finset.range g.size,
      (if (List.replicate g.size Colour.white)[v]? = some .white then (g.next v).length + 1 else 0)
        = (g.next v).length + 1 := by
    intro v inside
    rw [if_pos (List.getElem?_replicate_of_lt (Finset.mem_range.1 inside))]
  unfold left unvisited start numEdges
  rw [List.length_replicate, Finset.sum_congr rfl each, Finset.sum_add_distrib]
  simp
  omega

/-- Every turn leaves less to do: a vertex that is entered brings in as many edges as were counted
for it while it was white. -/
theorem left_turn {s after : Search} (turned : s.turn g = .goOn after) :
    after.left g < s.left g := by
  obtain ⟨colours, path, roots⟩ := s
  cases path with
  | nil =>
    cases roots with
    | nil => cases turned
    | cons root roots =>
      by_cases white : colours[root]? = some .white
      · have entered := unvisited_set g (by decide : Colour.grey ≠ .white) white
        simp only [turn, white, if_true] at turned
        cases turned
        simp [left]
        omega
      · simp only [turn, white, if_false] at turned
        cases turned
        simp [left]
  | cons entry path =>
    obtain ⟨v, i⟩ := entry
    cases edge : (g.next v)[i]? with
    | none =>
      have blackened := unvisited_set_le g colours v (by decide : Colour.black ≠ .white)
      simp only [turn, edge] at turned
      cases turned
      simp [left]
      omega
    | some t =>
      have entry := ahead_of_getElem? edge
      by_cases white : colours[t]? = some .white
      · have entered := unvisited_set g (by decide : Colour.grey ≠ .white) white
        simp only [turn, edge, white, if_true] at turned
        cases turned
        simp [left, entry]
        omega
      · by_cases grey : colours[t]? = some .grey
        · simp [turn, edge, grey] at turned
        · simp only [turn, edge, white, grey, if_false] at turned
          cases turned
          simp [left, entry]

/-- By induction on the turns: while there are more of them than there is left to do, the answer
is still to come. -/
theorem answerWithin?_of_left_lt {s : Search} {turns : Nat} (enough : s.left g < turns) :
    answerWithin? g turns s = some (s.verdict g) := by
  induction turns generalizing s with
  | zero => exact absurd enough (Nat.not_lt_zero _)
  | succ turns ih =>
    have same := verdict_turn g s
    unfold answerWithin?
    cases turned : s.turn g with
    | goOn after =>
      have less := left_turn turned
      rw [turned] at same
      exact (ih (by omega)).trans (congrArg some same)
    | answer cyclic =>
      rw [turned] at same
      exact congrArg some same

theorem answerWithin?_start (g : Graph) :
    answerWithin? g (2 * g.size + g.numEdges + 1) (start g) = some g.hasCycle := by
  rw [answerWithin?_of_left_lt (by rw [left_start]; omega), verdict_start]

end Search
end Graph

/-! ## Cycles of a view -/

namespace View

variable {v : View}

theorem holds_cyclic_iff : v.machine.holds .cyclic = true ↔ ∃ i, v.Returns i := by
  unfold Machine.holds Returns
  rw [Graph.hasCycle_iff, edge_graph]

/-- A number of a state is small enough to be that of one position only. -/
theorem Leads.lt {i j : Nat} (leads : v.Leads i j) : j < 0x80000000 := by
  obtain ⟨_, _, a, _, target⟩ := leads
  rw [position?_eq_some_iff] at target
  have below := a.nextstate.toInt_lt
  omega

/-- Arcs of a machine in topological order lead to later positions. -/
theorem Leads.lt_of_topSorted (sorted : v.machine.holds .topSorted = true) {i j : Nat}
    (leads : v.Leads i j) (small : i < 0x80000000) : i < j := by
  obtain ⟨inside, _, a, arc, target⟩ := leads
  unfold Machine.holds at sorted
  rw [numbered_machine, List.all_eq_true] at sorted
  have member : stateAt i ∈ v.states := List.mem_map.2 ⟨i, List.mem_range.2 inside, rfl⟩
  have later : stateAt i < a.nextstate := by
    simpa using List.all_eq_true.1 (sorted _ (List.mem_map.2 ⟨_, member, rfl⟩)) a arc
  have here := position?_eq_some_iff.1 (position?_stateAt small)
  rw [position?_eq_some_iff] at target
  rw [Int32.lt_iff_toInt_lt] at later
  omega

/-- In topological order positions grow along a path, which does not come back therefore. -/
theorem not_returns_of_topSorted (sorted : v.machine.holds .topSorted = true) (i : Nat) :
    ¬ v.Returns i := by
  intro cycle
  obtain ⟨_, _, last⟩ := TransGen.tail'_iff.1 cycle
  have grows (j : Nat) (path : TransGen v.Leads i j) : i < j ∧ j < 0x80000000 := by
    induction path with
    | single leads => exact ⟨leads.lt_of_topSorted sorted last.lt, leads.lt⟩
    | tail _ leads ih => exact ⟨ih.1.trans (leads.lt_of_topSorted sorted ih.2), leads.lt⟩
  exact Nat.lt_irrefl i (grows i cycle).1

end View

/-- The word of a survey decides whether a path of at least one arc leads from some state back to
it, and a machine found in topological order is found to have no such path. The search for a cycle
ends: the loop answers within one turn more than there are edges and twice the vertices. -/
theorem survey_decides_cycles (v : View) :
    TraitWord.Decides v.survey .cyclic (∃ i, v.Returns i)
      ∧ (TraitWord.Says v.survey .topSorted true → TraitWord.Says v.survey .cyclic false)
      ∧ ∀ g : Graph, Graph.Search.answerWithin? g (2 * g.size + g.numEdges + 1)
          (Graph.Search.start g) = some g.hasCycle := by
  have cycles := View.decides_survey (v := v) View.holds_cyclic_iff
  refine ⟨cycles, ?_, Graph.Search.answerWithin?_start⟩
  intro sorted
  have found := (TraitWord.says_ofVerdict _ .topSorted true).1 sorted
  refine cycles.2.2 ?_
  intro cycle
  obtain ⟨i, returns⟩ := cycle
  exact View.not_returns_of_topSorted found i returns

end Transducer
