/-!
# Finite directed graphs

Graphs on the vertices below a bound, given by their lists of successors; successors out of
bounds are passed over. Two searches: the vertices that can be reached from given roots, by a
list of vertices still to visit, and whether there is a cycle, by a depth-first search that
colours a vertex grey while it is on the current path and black when all below it is done. Both
end because each vertex leaves its first colour once. Main statements: what an edge of the
reversed graph is, and that searches keep the number of vertices.
-/
namespace Transducer

structure Graph where
  successors : List (List Nat)
  deriving DecidableEq, Repr

namespace Graph

def size (g : Graph) : Nat := g.successors.length

def next (g : Graph) (v : Nat) : List Nat := g.successors.getD v []

/-- An edge between two vertices of the graph. -/
def Edge (g : Graph) (u v : Nat) : Prop := v ∈ g.next u ∧ v < g.size

instance (g : Graph) (u v : Nat) : Decidable (g.Edge u v) :=
  inferInstanceAs (Decidable (_ ∧ _))

/-- The graph with every edge turned round. -/
def reversed (g : Graph) : Graph :=
  let vertices := g.successors.zipIdx
  ⟨(List.range g.size).map fun v =>
    (vertices.filter fun (next, _) => next.contains v).map fun (_, u) => u⟩

@[simp] theorem size_reversed (g : Graph) : g.reversed.size = g.size := by
  simp [reversed, size]

theorem next_eq_nil {g : Graph} {v : Nat} (h : g.size ≤ v) : g.next v = [] := by
  simp [next, List.getD_eq_getElem?_getD, List.getElem?_eq_none h]

theorem next_of_getElem? {g : Graph} {v : Nat} {found : List Nat}
    (there : g.successors[v]? = some found) : g.next v = found := by
  simp [next, List.getD_eq_getElem?_getD, there]

theorem lt_size_of_mem_next {g : Graph} {u v : Nat} (h : v ∈ g.next u) : u < g.size := by
  rcases Nat.lt_or_ge u g.size with hu | hu
  · exact hu
  · rw [next_eq_nil hu] at h; cases h

theorem edge_reversed {g : Graph} {u v : Nat} : g.reversed.Edge v u ↔ g.Edge u v := by
  unfold Edge
  rw [size_reversed]
  rcases Nat.lt_or_ge v g.size with hv | hv
  · have : u ∈ g.reversed.next v ↔ v ∈ g.next u := by
      simp only [reversed, next, List.getD_eq_getElem?_getD, List.getElem?_map,
        List.getElem?_range hv, Option.map_some, Option.getD_some, List.mem_map,
        List.mem_filter, List.contains_iff_mem, Prod.exists, List.mem_zipIdx_iff_getElem?]
      constructor
      · rintro ⟨found, _, ⟨at_u, h⟩, rfl⟩
        rw [at_u]; exact h
      · intro h
        cases at_u : g.successors[u]? with
        | none => rw [at_u] at h; cases h
        | some found => rw [at_u] at h; exact ⟨found, u, ⟨at_u, h⟩, rfl⟩
    rw [this]
    constructor
    · rintro ⟨h, _⟩; exact ⟨h, hv⟩
    · rintro ⟨h, _⟩; exact ⟨h, lt_size_of_mem_next h⟩
  · rw [next_eq_nil (by simpa using hv)]
    constructor
    · rintro ⟨h, _⟩; cases h
    · rintro ⟨_, h⟩; omega

/-- Overwriting an occurrence of a value by another value leaves one occurrence fewer. -/
theorem count_set_lt {α : Type} [BEq α] [LawfulBEq α] {values : List α} {i : Nat} {a b : α}
    (h : values[i]? = some a) (ne : b ≠ a) : (values.set i b).count a < values.count a := by
  obtain ⟨lt, at_i⟩ := List.getElem?_eq_some_iff.1 h
  have positive : 0 < values.count a := List.count_pos_iff.2 (at_i ▸ List.getElem_mem lt)
  rw [List.count_set lt, at_i, if_pos (beq_self_eq_true a), if_neg (by simpa using ne)]
  omega

theorem getElem?_set_of_lt {α : Type} {values : List α} {i j : Nat} {a : α}
    (inside : i < values.length) :
    (values.set i a)[j]? = if j = i then some a else values[j]? := by
  rw [List.getElem?_set]
  by_cases same : i = j
  · simp [same, same ▸ inside]
  · simp [same, Ne.symm same]

/-! ## Reachable vertices -/

/-- Visits the vertices of `work` and all that follow from them, marking them as seen. -/
def explore (g : Graph) (seen : List Bool) : List Nat → List Bool
  | [] => seen
  | v :: work =>
    if _h : seen[v]? = some false then explore g (seen.set v true) (g.next v ++ work)
    else explore g seen work
termination_by work => (seen.count false, work.length)
decreasing_by
  · exact Prod.Lex.left _ _ (count_set_lt _h (by decide))
  · exact Prod.Lex.right _ (Nat.lt_succ_self _)

/-- For each vertex, whether it can be reached from one of the roots. -/
def reached (g : Graph) (roots : List Nat) : List Bool :=
  explore g (List.replicate g.size false) roots

/-- Whether every vertex can be reached from one of the roots. -/
def reachesAll (g : Graph) (roots : List Nat) : Bool := (g.reached roots).all id

/-- Whether a path of at least one edge leads from a vertex back to it. -/
def returnsTo (g : Graph) (v : Nat) : Bool :=
  v < g.size && ((g.reached [v]).zip g.successors).any fun (seen, next) => seen && next.contains v

@[simp] theorem length_explore (g : Graph) (seen : List Bool) (work : List Nat) :
    (explore g seen work).length = seen.length := by
  fun_induction explore g seen work with
  | case1 => rfl
  | case2 seen v work _ ih => simpa using ih
  | case3 seen v work _ ih => exact ih

@[simp] theorem length_reached (g : Graph) (roots : List Nat) :
    (g.reached roots).length = g.size := by
  simp [reached]

/-! ## Cycles -/

/-- How far the search has come with a vertex. -/
inductive Colour where
  | white
  | grey
  | black
  deriving DecidableEq, Repr

theorem count_white_blacken (colours : List Colour) (v : Nat) :
    (colours.set v .black).count .white ≤ colours.count .white := by
  rcases Nat.lt_or_ge v colours.length with lt | ge
  · rw [List.count_set lt]
    have : (if Colour.black == Colour.white then 1 else 0) = 0 := rfl
    omega
  · exact Nat.le_of_eq (by rw [List.set_eq_of_length_le ge])

/-- Goes on with the search down the current path, each vertex of which keeps the successors
still to be looked at. Nothing if an edge back into the path is found, otherwise the colours. -/
def descend (g : Graph) (colours : List Colour) : List (Nat × List Nat) → Option (List Colour)
  | [] => some colours
  | (v, []) :: path => descend g (colours.set v .black) path
  | (v, t :: rest) :: path =>
    if _h : colours[t]? = some .white then
      descend g (colours.set t .grey) ((t, g.next t) :: (v, rest) :: path)
    else if colours[t]? = some .grey then none
    else descend g colours ((v, rest) :: path)
termination_by path => (colours.count .white, path.length + (path.flatMap Prod.snd).length)
decreasing_by
  · exact Prod.Lex.right' _ (count_white_blacken colours v) (by simp)
  · exact Prod.Lex.left _ _ (count_set_lt _h (by decide))
  · exact Prod.Lex.right _ (by simp)

/-- Searches below each of the roots that is still white. -/
def searchAll (g : Graph) (colours : List Colour) : List Nat → Option (List Colour)
  | [] => some colours
  | root :: roots =>
    if colours[root]? = some .white then
      match descend g (colours.set root .grey) [(root, g.next root)] with
      | some colours => searchAll g colours roots
      | none => none
    else searchAll g colours roots

/-- Whether some vertex lies on a path back to itself. -/
def hasCycle (g : Graph) : Bool :=
  (searchAll g (List.replicate g.size .white) (List.range g.size)).isNone

end Graph
end Transducer
