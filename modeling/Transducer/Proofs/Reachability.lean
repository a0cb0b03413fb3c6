import Mathlib.Logic.Function.Iterate
import Transducer.Proofs.StateGraph
/-!
# Reachable states

What a search from given roots marks is what can be reached from them: marks that hold the roots,
follow every edge and are put on reachable vertices only leave no choice (`mark_iff_reachable`). The
same marks are found by a loop that marks a vertex when it puts it on its list (`Worklist`). Each
turn takes one vertex off the list and each vertex is put there once, so as many turns as there are
vertices empty the list. Main statement: the word of a survey decides exactly whether all states can
be reached from the start, whether final states can be reached from all of them, and whether the
start can be reached from itself (`survey_decides_reachability`).
-/
namespace Transducer

open Relation (ReflTransGen TransGen)

namespace Graph

variable {g : Graph} {roots : List Nat}

/-- A path, with or without edges, leads from one of the roots that are vertices. -/
def Reachable (g : Graph) (roots : List Nat) (v : Nat) : Prop :=
  ∃ r ∈ roots, r < g.size ∧ ReflTransGen g.Edge r v

theorem Reachable.step {u v : Nat} (reachable : g.Reachable roots u) (edge : g.Edge u v) :
    g.Reachable roots v := by
  obtain ⟨r, root, inside, path⟩ := reachable
  exact ⟨r, root, inside, path.tail edge⟩

/-- There is one way to mark the roots, to follow every edge and to mark nothing else. -/
theorem mark_iff_reachable {seen : List Bool}
    (marked : ∀ r ∈ roots, r < g.size → seen[r]? = some true)
    (closed : ∀ u v, seen[u]? = some true → g.Edge u v → seen[v]? = some true)
    (sound : ∀ v, seen[v]? = some true → g.Reachable roots v) (v : Nat) :
    seen[v]? = some true ↔ g.Reachable roots v := by
  refine ⟨sound v, ?_⟩
  intro reachable
  obtain ⟨r, root, inside, path⟩ := reachable
  induction path with
  | refl => exact marked r root inside
  | tail _ edge ih => exact closed _ _ ih edge

/-- A mark was there before or has just been set. -/
theorem getElem?_set_true {seen : List Bool} {u v : Nat} (inside : u < seen.length) :
    (seen.set u true)[v]? = some true ↔ v = u ∨ seen[v]? = some true := by
  rw [getElem?_set_of_lt inside]
  by_cases same : v = u <;> simp [same]

/-- A vertex that is not new has its mark. -/
theorem mark_of_not_new {seen : List Bool} {v : Nat} (inside : v < seen.length)
    (old : ¬ seen[v]? = some false) : seen[v]? = some true := by
  rw [List.getElem?_eq_getElem inside] at old ⊢
  simpa using old

/-! ## The search that marks a vertex when it gets to it -/

theorem explore_keeps (seen : List Bool) (work : List Nat) {v : Nat}
    (mark : seen[v]? = some true) : (explore g seen work)[v]? = some true := by
  fun_induction explore g seen work with
  | case1 => exact mark
  | case2 seen u work new ih =>
    exact ih ((getElem?_set_true (List.getElem?_eq_some_iff.1 new).1).2 (Or.inr mark))
  | case3 seen u work old ih => exact ih mark

theorem explore_marks (seen : List Bool) (work : List Nat) {v : Nat} (waiting : v ∈ work)
    (inside : v < seen.length) : (explore g seen work)[v]? = some true := by
  fun_induction explore g seen work with
  | case1 => cases waiting
  | case2 seen u work new ih =>
    cases waiting with
    | head => exact explore_keeps _ _ ((getElem?_set_true inside).2 (Or.inl rfl))
    | tail _ later => exact ih (List.mem_append_right _ later) (by simpa using inside)
  | case3 seen u work old ih =>
    cases waiting with
    | head => exact explore_keeps _ _ (mark_of_not_new inside old)
    | tail _ later => exact ih later inside

/-- Whatever edges carry on from the marks and the work is true of all that is marked. -/
theorem explore_sound {P : Nat → Prop} (carried : ∀ u v, P u → g.Edge u v → P v)
    (seen : List Bool) (work : List Nat) (marks : seen.length = g.size)
    (held : ∀ v, seen[v]? = some true → P v) (waiting : ∀ v ∈ work, v < g.size → P v) :
    ∀ v, (explore g seen work)[v]? = some true → P v := by
  fun_induction explore g seen work with
  | case1 => exact held
  | case2 seen u work new ih =>
    have inside : u < seen.length := (List.getElem?_eq_some_iff.1 new).1
    have here : P u := waiting u List.mem_cons_self (marks ▸ inside)
    refine ih (by simpa using marks) ?_ ?_
    · intro v mark
      cases (getElem?_set_true inside).1 mark with
      | inl same => exact same ▸ here
      | inr old => exact held v old
    · intro v listed below
      cases List.mem_append.1 listed with
      | inl next => exact carried u v here ⟨next, below⟩
      | inr later => exact waiting v (List.mem_cons_of_mem _ later) below
  | case3 seen u work old ih =>
    exact ih marks held fun v later => waiting v (List.mem_cons_of_mem _ later)

/-- If all that follows from a mark is marked or still to be visited, then nothing is left out. -/
theorem explore_closed (seen : List Bool) (work : List Nat) (marks : seen.length = g.size)
    (listed : ∀ u v, seen[u]? = some true → g.Edge u v → seen[v]? = some true ∨ v ∈ work) :
    ∀ u v, (explore g seen work)[u]? = some true → g.Edge u v →
      (explore g seen work)[v]? = some true := by
  fun_induction explore g seen work with
  | case1 => simpa using listed
  | case2 seen w work new ih =>
    have inside : w < seen.length := (List.getElem?_eq_some_iff.1 new).1
    refine ih (by simpa using marks) ?_
    intro u v mark edge
    rw [getElem?_set_true inside] at mark ⊢
    cases mark with
    | inl same => exact Or.inr (List.mem_append_left _ (same ▸ edge.1))
    | inr old =>
      cases listed u v old edge with
      | inl done => exact Or.inl (Or.inr done)
      | inr waits =>
        cases waits with
        | head => exact Or.inl (Or.inl rfl)
        | tail _ later => exact Or.inr (List.mem_append_right _ later)
  | case3 seen w work old ih =>
    refine ih marks ?_
    intro u v mark edge
    cases listed u v mark edge with
    | inl done => exact Or.inl done
    | inr waits =>
      cases waits with
      | head => exact Or.inl (mark_of_not_new (marks.symm ▸ edge.2) old)
      | tail _ later => exact Or.inr later

/-- The search marks what can be reached. -/
theorem reached_iff (g : Graph) (roots : List Nat) (v : Nat) :
    (g.reached roots)[v]? = some true ↔ g.Reachable roots v := by
  have marks : (List.replicate g.size false).length = g.size := List.length_replicate
  have nothing (u : Nat) : (List.replicate g.size false)[u]? ≠ some true := by
    simp [List.getElem?_replicate]
  refine mark_iff_reachable ?_ ?_ ?_ v
  · intro r root inside
    exact explore_marks _ _ root (marks.symm ▸ inside)
  · exact explore_closed _ _ marks fun u _ mark => absurd mark (nothing u)
  · refine explore_sound (fun _ _ => Reachable.step) _ _ marks (fun u mark => absurd mark (nothing u)) ?_
    intro r root inside
    exact ⟨r, root, inside, ReflTransGen.refl⟩

/-! ## The search that marks a vertex when it puts it on its list -/

/-- The marks of a search and the vertices whose edges it has still to follow, the next one first. -/
structure Worklist where
  seen : List Bool
  pending : List Nat
  deriving DecidableEq, Repr

namespace Worklist

/-- Marks a vertex and puts it on the list, unless it is marked or is none. -/
def push (w : Worklist) (v : Nat) : Worklist :=
  if w.seen[v]? = some false then ⟨w.seen.set v true, v :: w.pending⟩ else w

def pushAll (w : Worklist) (vs : List Nat) : Worklist := vs.foldl push w

/-- Nothing is marked but the roots, and they are on the list. -/
def start (g : Graph) (roots : List Nat) : Worklist :=
  pushAll ⟨List.replicate g.size false, []⟩ roots

/-- One turn of the loop: the next vertex leaves the list and what it leads to is put there. With an
empty list the loop has come to its end. -/
def turn (g : Graph) (w : Worklist) : Worklist :=
  match w.pending with
  | [] => w
  | v :: pending => pushAll ⟨w.seen, pending⟩ (g.next v)

/-- The vertices that have still to leave the list, those that have still to be put there among
them. -/
def left (w : Worklist) : Nat := w.seen.count false + w.pending.length

@[simp] theorem pushAll_nil (w : Worklist) : w.pushAll [] = w := rfl

@[simp] theorem pushAll_cons (w : Worklist) (v : Nat) (vs : List Nat) :
    w.pushAll (v :: vs) = (w.push v).pushAll vs := rfl

@[simp] theorem length_seen_push (w : Worklist) (v : Nat) :
    (w.push v).seen.length = w.seen.length := by
  unfold push
  split <;> simp

theorem seen_push {w : Worklist} {u v : Nat} : (w.push u).seen[v]? = some true
    ↔ w.seen[v]? = some true ∨ v = u ∧ v < w.seen.length := by
  unfold push
  by_cases new : w.seen[u]? = some false
  · have inside := (List.getElem?_eq_some_iff.1 new).1
    rw [if_pos new, getElem?_set_true inside, or_comm]
    exact or_congr_right ⟨fun same => ⟨same, same ▸ inside⟩, And.left⟩
  · rw [if_neg new]
    refine ⟨Or.inl, ?_⟩
    intro mark
    cases mark with
    | inl old => exact old
    | inr here =>
      obtain ⟨rfl, inside⟩ := here
      exact mark_of_not_new inside new

theorem mem_pending_push {w : Worklist} {u v : Nat} : v ∈ (w.push u).pending
    ↔ v ∈ w.pending ∨ v = u ∧ w.seen[v]? = some false := by
  unfold push
  by_cases new : w.seen[u]? = some false
  · rw [if_pos new, List.mem_cons, or_comm]
    exact or_congr_right ⟨fun same => ⟨same, same ▸ new⟩, And.left⟩
  · rw [if_neg new]
    refine ⟨Or.inl, ?_⟩
    intro waits
    cases waits with
    | inl before => exact before
    | inr here =>
      obtain ⟨rfl, impossible⟩ := here
      exact absurd impossible new

/-- A vertex that is put on the list gets its mark. -/
@[simp] theorem left_push (w : Worklist) (v : Nat) : (w.push v).left = w.left := by
  unfold push
  split
  · rename_i new
    obtain ⟨inside, unmarked⟩ := List.getElem?_eq_some_iff.1 new
    have positive : 0 < w.seen.count false :=
      List.count_pos_iff.2 (unmarked ▸ List.getElem_mem inside)
    simp only [left, List.count_set inside, unmarked, List.length_cons]
    simp
    omega
  · rfl

@[simp] theorem length_seen_pushAll (w : Worklist) (vs : List Nat) :
    (w.pushAll vs).seen.length = w.seen.length := by
  induction vs generalizing w with
  | nil => rfl
  | cons v vs ih => simp [ih]

@[simp] theorem left_pushAll (w : Worklist) (vs : List Nat) : (w.pushAll vs).left = w.left := by
  induction vs generalizing w with
  | nil => rfl
  | cons v vs ih => simp [ih]

theorem seen_pushAll {w : Worklist} {vs : List Nat} {v : Nat} :
    (w.pushAll vs).seen[v]? = some true
      ↔ w.seen[v]? = some true ∨ v ∈ vs ∧ v < w.seen.length := by
  induction vs generalizing w with
  | nil => simp
  | cons u vs ih =>
    rw [pushAll_cons, ih, seen_push, length_seen_push, List.mem_cons, or_and_right, or_assoc]

theorem mem_pending_pushAll {w : Worklist} {vs : List Nat} {v : Nat} :
    v ∈ (w.pushAll vs).pending ↔ v ∈ w.pending ∨ v ∈ vs ∧ w.seen[v]? = some false := by
  induction vs generalizing w with
  | nil => simp
  | cons u vs ih =>
    have unmarked : (w.push u).seen[v]? = some false ↔ w.seen[v]? = some false ∧ v ≠ u := by
      unfold push
      split
      · rw [List.getElem?_set]
        by_cases same : u = v
        · simp [same]
        · simp [same, Ne.symm same]
      · rename_i old
        refine ⟨fun new => ⟨new, ?_⟩, And.left⟩
        rintro rfl
        exact old new
    rw [pushAll_cons, ih, mem_pending_push, unmarked, List.mem_cons]
    by_cases same : v = u <;> simp [same]

/-! ### What the loop keeps -/

/-- Only reachable vertices are marked, all roots among them, and the edges of a marked vertex have
been followed once it has left the list. -/
structure Follows (g : Graph) (roots : List Nat) (w : Worklist) : Prop where
  marks : w.seen.length = g.size
  rooted : ∀ r ∈ roots, r < g.size → w.seen[r]? = some true
  sound : ∀ v, w.seen[v]? = some true → g.Reachable roots v
  listed : ∀ v ∈ w.pending, w.seen[v]? = some true
  followed : ∀ u v, w.seen[u]? = some true → u ∉ w.pending → g.Edge u v → w.seen[v]? = some true

theorem follows_start (g : Graph) (roots : List Nat) : Follows g roots (start g roots) := by
  have nothing (v : Nat) : (List.replicate g.size false)[v]? ≠ some true := by
    simp [List.getElem?_replicate]
  have marked (v : Nat) : (start g roots).seen[v]? = some true ↔ v ∈ roots ∧ v < g.size := by
    simp [start, seen_pushAll, nothing]
  have pending (v : Nat) : v ∈ (start g roots).pending ↔ v ∈ roots ∧ v < g.size := by
    simp [start, mem_pending_pushAll, List.getElem?_replicate]
  refine ⟨by simp [start], fun r root inside => (marked r).2 ⟨root, inside⟩, ?_, ?_, ?_⟩
  · intro v mark
    obtain ⟨root, inside⟩ := (marked v).1 mark
    exact ⟨v, root, inside, ReflTransGen.refl⟩
  · intro v waits
    exact (marked v).2 ((pending v).1 waits)
  · intro u v mark left_
    exact absurd ((pending u).2 ((marked u).1 mark)) left_

variable {w : Worklist}

theorem Follows.turn (follows : Follows g roots w) : Follows g roots (w.turn g) := by
  unfold Worklist.turn
  split
  · exact follows
  · rename_i v pending list
    obtain ⟨marks, rooted, sound, listed, followed⟩ := follows
    simp only [list, List.mem_cons, forall_eq_or_imp, not_or] at listed followed
    refine ⟨by simpa using marks, ?_, ?_, ?_, ?_⟩
    · intro r root inside
      exact seen_pushAll.2 (Or.inl (rooted r root inside))
    · intro u mark
      cases seen_pushAll.1 mark with
      | inl old => exact sound u old
      | inr next => exact (sound v listed.1).step ⟨next.1, marks ▸ next.2⟩
    · intro u waits
      cases mem_pending_pushAll.1 waits with
      | inl old => exact seen_pushAll.2 (Or.inl (listed.2 u old))
      | inr new =>
        exact seen_pushAll.2 (Or.inr ⟨new.1, (List.getElem?_eq_some_iff.1 new.2).1⟩)
    · intro u x mark absent edge
      have below : x < w.seen.length := marks ▸ edge.2
      rw [mem_pending_pushAll, not_or] at absent
      rw [seen_pushAll] at mark ⊢
      -- A vertex that is marked in this turn is on the list; the others have been followed before,
      -- but for the one that leaves the list.
      by_cases same : u = v
      · exact Or.inr ⟨same ▸ edge.1, below⟩
      · cases mark with
        | inl old => exact Or.inl (followed u x old ⟨same, absent.1⟩ edge)
        | inr next =>
          by_cases new : w.seen[u]? = some false
          · exact absurd ⟨next.1, new⟩ absent.2
          · exact Or.inl (followed u x (mark_of_not_new next.2 new) ⟨same, absent.1⟩ edge)

theorem left_turn (g : Graph) (w : Worklist) :
    w.pending = [] ∨ (w.turn g).left + 1 = w.left := by
  unfold Worklist.turn
  split
  · exact Or.inl ‹_›
  · rename_i v pending list
    refine Or.inr ?_
    rw [left_pushAll, left, left, list, List.length_cons, Nat.add_assoc]

theorem turn_of_empty (g : Graph) (empty : w.pending = []) : w.turn g = w := by
  unfold Worklist.turn
  rw [empty]

/-- By induction on the turns: each takes a vertex off the list, if there is one. -/
theorem left_iterate (g : Graph) (w : Worklist) (turns : Nat) :
    ((turn g)^[turns] w).pending = [] ∨ ((turn g)^[turns] w).left + turns = w.left := by
  induction turns with
  | zero => exact Or.inr rfl
  | succ turns ih =>
    rw [Function.iterate_succ_apply']
    cases left_turn g ((turn g)^[turns] w) with
    | inl empty => exact Or.inl (by rw [turn_of_empty g empty, empty])
    | inr less =>
      cases ih with
      | inl empty => exact Or.inl (by rw [turn_of_empty g empty, empty])
      | inr all => exact Or.inr (by omega)

theorem Follows.iterate (follows : Follows g roots w) (turns : Nat) :
    Follows g roots ((Worklist.turn g)^[turns] w) := by
  induction turns with
  | zero => exact follows
  | succ turns ih =>
    rw [Function.iterate_succ_apply']
    exact ih.turn

/-- After as many turns as there are vertices the list is empty, and what can be reached is marked. -/
theorem iterate_start (g : Graph) (roots : List Nat) :
    (turn g)^[g.size] (start g roots) = ⟨g.reached roots, []⟩ := by
  have follows := (follows_start g roots).iterate g.size
  have least := left_iterate g (start g roots) g.size
  generalize (turn g)^[g.size] (start g roots) = ended at follows least
  have started : (start g roots).left = g.size := by
    unfold start
    rw [left_pushAll]
    simp [left]
  have empty : ended.pending = [] := by
    cases least with
    | inl empty => exact empty
    | inr all =>
      unfold left at all started
      exact List.eq_nil_of_length_eq_zero (by omega)
  have same (v : Nat) : ended.seen[v]? = some true ↔ (g.reached roots)[v]? = some true := by
    rw [reached_iff]
    refine mark_iff_reachable follows.rooted ?_ follows.sound v
    intro u x mark edge
    exact follows.followed u x mark (by simp [empty]) edge
  have marks : ended.seen = g.reached roots := by
    apply List.ext_getElem
    · rw [follows.marks, length_reached]
    · intro v before after
      have here := same v
      rw [List.getElem?_eq_getElem before, List.getElem?_eq_getElem after, Option.some.injEq,
        Option.some.injEq] at here
      exact Bool.eq_iff_iff.2 here
  rw [← marks, ← empty]

end Worklist

/-! ## The questions of a survey -/

theorem reachesAll_iff : g.reachesAll roots = true ↔ ∀ v < g.size, g.Reachable roots v := by
  unfold reachesAll
  simp only [List.all_eq_true, id, ← reached_iff]
  constructor
  · intro all v inside
    have below : v < (g.reached roots).length := by simpa using inside
    rw [List.getElem?_eq_getElem below]
    exact congrArg some (all _ (List.getElem_mem below))
  · intro all mark member
    obtain ⟨v, below, rfl⟩ := List.mem_iff_getElem.1 member
    have here := all v (by simpa using below)
    rwa [List.getElem?_eq_getElem below, Option.some.injEq] at here

theorem returnsTo_iff {v : Nat} : g.returnsTo v = true ↔ TransGen g.Edge v v := by
  unfold returnsTo
  rw [Bool.and_eq_true, decide_eq_true_iff, List.any_eq_true]
  constructor
  · intro found
    obtain ⟨_, ⟨mark, next⟩, member, returns⟩ := found
    obtain ⟨u, there⟩ := List.mem_iff_getElem?.1 member
    obtain ⟨marked, successors⟩ := List.getElem?_zip_eq_some.1 there
    simp only [Bool.and_eq_true, List.contains_iff_mem] at returns
    rw [returns.1, reached_iff] at marked
    obtain ⟨r, root, inside, path⟩ := marked
    rw [List.mem_singleton.1 root] at path inside
    have edge : g.Edge u v := ⟨next_of_getElem? successors ▸ returns.2, inside⟩
    exact TransGen.tail' path edge
  · intro path
    obtain ⟨u, path, edge⟩ := TransGen.tail'_iff.1 path
    have inside : u < g.successors.length := lt_size_of_mem_next edge.1
    have successors := List.getElem?_eq_getElem inside
    have marked : (g.reached [v])[u]? = some true :=
      (reached_iff g [v] u).2 ⟨v, List.mem_singleton_self v, edge.2, path⟩
    refine ⟨edge.2, (true, g.successors[u]), ?_, ?_⟩
    · exact List.mem_iff_getElem?.2 ⟨u, List.getElem?_zip_eq_some.2 ⟨marked, successors⟩⟩
    · simpa [next_of_getElem? successors] using edge.1

/-- Reversing the edges reverses the paths. -/
theorem reflTransGen_reversed {u v : Nat} :
    ReflTransGen g.reversed.Edge v u ↔ ReflTransGen g.Edge u v := by
  have edges : g.reversed.Edge = Function.swap g.Edge := by
    funext u v
    exact propext edge_reversed
  rw [edges, Relation.reflTransGen_swap]

end Graph

/-! ## The traits of a view -/

namespace View

variable {v : View}

theorem holds_accessible_iff : v.machine.holds .accessible = true
    ↔ v.numStates = 0 ∨ ∃ q, v.StartsAt q ∧ ∀ i < v.numStates, v.Reaches q i := by
  have start : v.machine.start = v.start := rfl
  unfold Machine.holds StartsAt Reaches
  rw [Bool.or_eq_true, beq_iff_eq, numStates_machine, start]
  by_cases none_ : v.numStates = 0
  · simp [none_]
  · cases position? v.start with
    | none => simp [none_]
    | some q =>
      simp only [none_, false_or, Graph.reachesAll_iff, Graph.Reachable, List.mem_singleton,
        exists_eq_left, size_graph, edge_graph, Option.some.injEq]
      constructor
      · intro all
        exact ⟨q, ⟨rfl, (all 0 (Nat.pos_of_ne_zero none_)).1⟩, fun i inside => (all i inside).2⟩
      · intro found i inside
        obtain ⟨_, ⟨rfl, begins⟩, all⟩ := found
        exact ⟨begins, all i inside⟩

theorem holds_coaccessible_iff : v.machine.holds .coaccessible = true
    ↔ ∀ i < v.numStates, ∃ f < v.numStates, v.isFinal (stateAt f) = true ∧ v.Reaches i f := by
  unfold Machine.holds Reaches
  simp only [Graph.reachesAll_iff, Graph.Reachable, Graph.size_reversed, size_graph,
    mem_finals_machine, Graph.reflTransGen_reversed, edge_graph]
  refine forall_congr' fun i => imp_congr_right fun _ => exists_congr fun f => ?_
  constructor
  · intro found
    exact ⟨found.1.1, found.1.2, found.2.2⟩
  · intro found
    exact ⟨⟨found.1, found.2.1⟩, found.1, found.2.2⟩

theorem holds_initialCyclic_iff : v.machine.holds .initialCyclic = true
    ↔ ∃ q, v.StartsAt q ∧ v.Returns q := by
  have start : v.machine.start = v.start := rfl
  unfold Machine.holds StartsAt Returns
  rw [start]
  cases position? v.start with
  | none => simp
  | some q =>
    simp only [Graph.returnsTo_iff, edge_graph, Option.some.injEq]
    constructor
    · intro path
      obtain ⟨_, _, edge⟩ := TransGen.tail'_iff.1 path
      exact ⟨q, ⟨rfl, edge.2.1⟩, path⟩
    · intro found
      obtain ⟨_, ⟨rfl, _⟩, path⟩ := found
      exact path

end View

/-- The word of a survey decides whether every state can be reached from the start, whether from
every state a final one can be reached, and whether a path of at least one arc leads from the start
back to it. A start that is no state reaches nothing, not even itself. The loop that marks the
vertices of a graph ends: one turn for each vertex leaves nothing on its list. -/
theorem survey_decides_reachability (v : View) :
    TraitWord.Decides v.survey .accessible
        (v.numStates = 0 ∨ ∃ q, v.StartsAt q ∧ ∀ i < v.numStates, v.Reaches q i)
      ∧ TraitWord.Decides v.survey .coaccessible
        (∀ i < v.numStates, ∃ f < v.numStates, v.isFinal (stateAt f) = true ∧ v.Reaches i f)
      ∧ TraitWord.Decides v.survey .initialCyclic (∃ q, v.StartsAt q ∧ v.Returns q)
      ∧ ∀ (g : Graph) (roots : List Nat),
        (Graph.Worklist.turn g)^[g.size] (Graph.Worklist.start g roots)
          = ⟨g.reached roots, []⟩ := by
  refine ⟨?_, ?_, ?_, Graph.Worklist.iterate_start⟩
  · exact View.decides_survey View.holds_accessible_iff
  · exact View.decides_survey View.holds_coaccessible_iff
  · exact View.decides_survey View.holds_initialCyclic_iff

end Transducer
