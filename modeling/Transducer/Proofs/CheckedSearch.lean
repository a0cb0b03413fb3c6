import Transducer.Machine.Survey
import Transducer.Proofs.Checked
/-!
# Surveys with every step checked

The searches of a survey keep a mark or a colour for each vertex and look vertices up in arrays; a
survey also asks for the number after a state. Main statement: the survey of a machine whose states
can be numbered stays in bounds and does not overflow (`Machine.checkedSurvey_eq`). The searches
keep their arrays as long as the graph, and every vertex that is looked up has been compared with
that length before.
-/
namespace Transducer

open Checked

namespace Graph

/-- `explore`, looking up the mark and the successors of each vertex that lies in the graph. -/
def checkedExplore (g : Graph) (seen : List Bool) : List Nat → Checked (List Bool)
  | [] => .ok seen
  | v :: work =>
    if v < g.size then
      match _h : lookup seen v with
      | .ok false =>
        match lookup g.successors v with
        | .ok next => checkedExplore g (seen.set v true) (next ++ work)
        | .error trap => .error trap
      | .ok true => checkedExplore g seen work
      | .error trap => .error trap
    else checkedExplore g seen work
termination_by work => (seen.count false, work.length)
decreasing_by
  · exact Prod.Lex.left _ _ (count_set_lt (getElem?_of_lookup _h) (by decide))
  · exact Prod.Lex.right _ (Nat.lt_succ_self _)
  · exact Prod.Lex.right _ (Nat.lt_succ_self _)

theorem checkedExplore_eq (g : Graph) (seen : List Bool) (work : List Nat)
    (marks : seen.length = g.size) : checkedExplore g seen work = .ok (explore g seen work) := by
  fun_induction checkedExplore g seen work with
  | case1 seen => rw [explore]
  | case2 seen v work inside new next found ih =>
    have same : g.next v = next := next_of_getElem? (getElem?_of_lookup found)
    rw [explore, dif_pos (getElem?_of_lookup new), same]
    apply ih
    rw [List.length_set, marks]
  | case3 seen v work inside new trap missing =>
    obtain ⟨next, _, found⟩ := exists_lookup g.successors inside
    rw [found] at missing
    cases missing
  | case4 seen v work inside old ih =>
    have at_v := getElem?_of_lookup old
    rw [explore, dif_neg (by rw [at_v]; decide)]
    exact ih marks
  | case5 seen v work inside trap missing =>
    obtain ⟨mark, _, found⟩ := exists_lookup seen (by rw [marks]; exact inside)
    rw [found] at missing
    cases missing
  | case6 seen v work outside ih =>
    have nothing : seen[v]? = none := by
      rw [List.getElem?_eq_none_iff, marks]
      exact Nat.le_of_not_lt outside
    rw [explore, dif_neg (by rw [nothing]; decide)]
    exact ih marks

def checkedReached (g : Graph) (roots : List Nat) : Checked (List Bool) :=
  checkedExplore g (List.replicate g.size false) roots

theorem checkedReached_eq (g : Graph) (roots : List Nat) :
    g.checkedReached roots = .ok (g.reached roots) :=
  checkedExplore_eq g _ roots List.length_replicate

/-- `reachesAll` on the marks that were found. -/
def checkedReachesAll (g : Graph) (roots : List Nat) : Checked Bool := do
  return (← g.checkedReached roots).all id

theorem checkedReachesAll_eq (g : Graph) (roots : List Nat) :
    g.checkedReachesAll roots = .ok (g.reachesAll roots) := by
  unfold checkedReachesAll
  rw [checkedReached_eq]
  rfl

/-- `returnsTo`, looking up the mark of each vertex. -/
def checkedReturnsTo (g : Graph) (v : Nat) : Checked Bool := do
  let seen ← g.checkedReached [v]
  let marked ← g.successors.zipIdx.mapM fun (next, u) => do return (← lookup seen u, next)
  return v < g.size && marked.any fun (seen, next) => seen && next.contains v

theorem checkedReturnsTo_eq (g : Graph) (v : Nat) :
    g.checkedReturnsTo v = .ok (g.returnsTo v) := by
  have each : ∀ entry ∈ g.successors.zipIdx,
      (do return (← lookup (g.reached [v]) entry.2, entry.1) : Checked (Bool × List Nat))
        = .ok ((g.reached [v]).getD entry.2 false, entry.1) := by
    rintro ⟨next, u⟩ member
    have at_u := List.mem_zipIdx_iff_getElem?.1 member
    obtain ⟨inside, _⟩ := List.getElem?_eq_some_iff.1 at_u
    obtain ⟨mark, here, found⟩ := exists_lookup (g.reached [v]) (i := u)
      (by rw [length_reached]; exact inside)
    simp only [found, ok_bind, pure_eq_ok, List.getD_eq_getElem?_getD, here, Option.getD_some]
  have zipped : g.successors.zipIdx.map (fun entry => ((g.reached [v]).getD entry.2 false, entry.1))
      = (g.reached [v]).zip g.successors := by
    apply List.ext_getElem
    · simp [size]
    · intro i below _
      have inside : i < (g.reached [v]).length := by simpa [size] using below
      simp only [List.getElem_map, List.getElem_zipIdx, List.getElem_zip, Nat.zero_add,
        List.getD_eq_getElem?_getD, List.getElem?_eq_getElem inside, Option.getD_some]
  unfold checkedReturnsTo
  rw [checkedReached_eq, ok_bind, mapM_of_forall each, ok_bind, zipped]
  rfl

/-- The reversed graph; each target that lies in the graph has a slot. -/
def checkedReversed (g : Graph) : Checked Graph := do
  let _ ← g.successors.mapM fun next => next.mapM fun t =>
    if t < g.size then lookup g.successors t else return []
  return g.reversed

theorem checkedReversed_eq (g : Graph) : g.checkedReversed = .ok g.reversed := by
  have slot (t : Nat) : (if t < g.size then lookup g.successors t else return [])
      = .ok (g.next t) := by
    split
    · rename_i inside
      obtain ⟨next, here, found⟩ := exists_lookup g.successors inside
      rw [found, next_of_getElem? here]
    · rename_i outside
      rw [next_eq_nil (Nat.le_of_not_lt outside)]
      rfl
  have all : ∀ next ∈ g.successors,
      (next.mapM fun t => if t < g.size then lookup g.successors t else return [])
        = .ok (next.map g.next) :=
    fun next _ => mapM_of_forall fun t _ => slot t
  unfold checkedReversed
  rw [mapM_of_forall all]
  rfl

/-! ## Cycles -/

/-- `descend`, looking up the successors of the vertex at the end of the path and the colour of each
target that lies in the graph. -/
def checkedDescend (g : Graph) (colours : List Colour) :
    List (Nat × List Nat) → Checked (Option (List Colour))
  | [] => .ok (some colours)
  | (v, []) :: path =>
    if v < colours.length then checkedDescend g (colours.set v .black) path else .error .index
  | (v, t :: rest) :: path =>
    if v < g.size then
      if t < g.size then
        match _h : lookup colours t with
        | .ok .white =>
          match lookup g.successors t with
          | .ok next => checkedDescend g (colours.set t .grey) ((t, next) :: (v, rest) :: path)
          | .error trap => .error trap
        | .ok .grey => .ok none
        | .ok .black => checkedDescend g colours ((v, rest) :: path)
        | .error trap => .error trap
      else checkedDescend g colours ((v, rest) :: path)
    else .error .index
termination_by path => (colours.count .white, path.length + (path.flatMap Prod.snd).length)
decreasing_by
  · exact Prod.Lex.right' _ (count_white_blacken colours v) (by simp)
  · exact Prod.Lex.left _ _ (count_set_lt (getElem?_of_lookup _h) (by decide))
  · exact Prod.Lex.right _ (by simp)
  · exact Prod.Lex.right _ (by simp)

/-- The path stays in the graph, because only vertices that lie in it are put on it. -/
theorem checkedDescend_eq (g : Graph) (colours : List Colour) (path : List (Nat × List Nat))
    (marks : colours.length = g.size) (inside : ∀ v ∈ path.map Prod.fst, v < g.size) :
    checkedDescend g colours path = .ok (descend g colours path) := by
  fun_induction checkedDescend g colours path with
  | case1 colours => rw [descend]
  | case2 colours v path _ ih =>
    rw [descend]
    apply ih
    · rw [List.length_set, marks]
    · exact fun u later => inside u (List.mem_cons_of_mem _ later)
  | case3 colours v path outside =>
    rw [marks] at outside
    exact absurd (inside _ List.mem_cons_self) outside
  | case4 colours v t rest path _ below white next found ih =>
    have same : g.next t = next := next_of_getElem? (getElem?_of_lookup found)
    rw [descend, dif_pos (getElem?_of_lookup white), same]
    apply ih
    · rw [List.length_set, marks]
    · rw [List.map_cons, List.forall_mem_cons]
      exact ⟨below, inside⟩
  | case5 colours v t rest path _ below white trap missing =>
    obtain ⟨next, _, found⟩ := exists_lookup g.successors below
    rw [found] at missing
    cases missing
  | case6 colours v t rest path _ below grey =>
    have at_t := getElem?_of_lookup grey
    rw [descend, dif_neg (by rw [at_t]; decide), if_pos at_t]
  | case7 colours v t rest path _ below black ih =>
    have at_t := getElem?_of_lookup black
    rw [descend, dif_neg (by rw [at_t]; decide), if_neg (by rw [at_t]; decide)]
    exact ih marks inside
  | case8 colours v t rest path _ below trap missing =>
    obtain ⟨colour, _, found⟩ := exists_lookup colours (by rw [marks]; exact below)
    rw [found] at missing
    cases missing
  | case9 colours v t rest path _ outside ih =>
    have nothing : colours[t]? = none := by
      rw [List.getElem?_eq_none_iff, marks]
      exact Nat.le_of_not_lt outside
    rw [descend, dif_neg (by rw [nothing]; decide), if_neg (by rw [nothing]; decide)]
    exact ih marks inside
  | case10 colours v t rest path outside =>
    exact absurd (inside _ List.mem_cons_self) outside

theorem length_descend {g : Graph} {colours after : List Colour} {path : List (Nat × List Nat)}
    (searched : descend g colours path = some after) : after.length = colours.length := by
  fun_induction descend g colours path with
  | case1 colours =>
    cases searched
    rfl
  | case2 colours v path ih => rw [ih searched, List.length_set]
  | case3 colours v t rest path white ih => rw [ih searched, List.length_set]
  | case4 => cases searched
  | case5 colours v t rest path _ _ ih => exact ih searched

/-- `searchAll`, looking up the colour and the successors of each root. -/
def checkedSearchAll (g : Graph) (colours : List Colour) :
    List Nat → Checked (Option (List Colour))
  | [] => return some colours
  | root :: roots => do
    let colour ← lookup colours root
    if colour = .white then
      let next ← lookup g.successors root
      match ← checkedDescend g (colours.set root .grey) [(root, next)] with
      | some colours => checkedSearchAll g colours roots
      | none => return none
    else checkedSearchAll g colours roots

theorem checkedSearchAll_eq (g : Graph) (colours : List Colour) (roots : List Nat)
    (marks : colours.length = g.size) (inside : ∀ root ∈ roots, root < g.size) :
    checkedSearchAll g colours roots = .ok (searchAll g colours roots) := by
  induction roots generalizing colours with
  | nil => rfl
  | cons root roots ih =>
    rw [List.forall_mem_cons] at inside
    obtain ⟨below, inside⟩ := inside
    obtain ⟨colour, at_root, found⟩ := exists_lookup colours (i := root)
      (by rw [marks]; exact below)
    obtain ⟨next, here, followed⟩ := exists_lookup g.successors below
    have same : g.next root = next := next_of_getElem? here
    unfold checkedSearchAll searchAll
    simp only [found, ok_bind, at_root, Option.some.injEq]
    by_cases white : colour = .white
    · have greyed : (colours.set root .grey).length = g.size := by rw [List.length_set, marks]
      have down := checkedDescend_eq g (colours.set root .grey) [(root, next)] greyed
        (List.forall_mem_singleton.2 below)
      rw [if_pos white, if_pos white, followed, ok_bind, down, ok_bind, same]
      cases searched : descend g (colours.set root .grey) [(root, next)] with
      | none => rfl
      | some after => exact ih after (by rw [length_descend searched, greyed]) inside
    · rw [if_neg white, if_neg white]
      exact ih colours marks inside

def checkedHasCycle (g : Graph) : Checked Bool := do
  return (← checkedSearchAll g (List.replicate g.size .white) (List.range g.size)).isNone

theorem checkedHasCycle_eq (g : Graph) : g.checkedHasCycle = .ok g.hasCycle := by
  unfold checkedHasCycle
  rw [checkedSearchAll_eq g _ _ List.length_replicate fun _ => List.mem_range.1]
  rfl

end Graph

namespace Machine

/-- `isString`, asking for the number after each state that has an arc and counting the final
states in a word. -/
def checkedIsString (m : Machine) : Checked Bool := do
  let chained ← m.numbered.mapM fun (s, state) => do
    let next ← state.arcs.mapM fun arc => do return arc.nextstate == (← following s)
    return next.all id && (state.isFinal || state.arcs.length == 1)
  let finals ← word m.finals.length
  return (m.start == noState || m.start == 0) && chained.all id && finals ≤ 1

theorem checkedIsString_eq {m : Machine} (small : m.numStates ≤ 2147483647) :
    m.checkedIsString = .ok m.isString := by
  have each : ∀ entry ∈ m.numbered,
      (do
        let next ← entry.2.arcs.mapM fun arc => do return arc.nextstate == (← following entry.1)
        return next.all id && (entry.2.isFinal || entry.2.arcs.length == 1) : Checked Bool)
        = .ok ((entry.2.arcs.all fun arc => arc.nextstate == entry.1 + 1)
          && (entry.2.isFinal || entry.2.arcs.length == 1)) := by
    rintro ⟨s, state⟩ member
    obtain ⟨⟨state', i⟩, there, same⟩ := List.mem_map.1 member
    cases same
    obtain ⟨inside, _⟩ := List.getElem?_eq_some_iff.1 (List.mem_zipIdx_iff_getElem?.1 there)
    have below : i < 2147483647 := Nat.lt_of_lt_of_le inside small
    have number : (stateAt i).toInt = i := Int32.toInt_ofNat_of_lt (by omega)
    have next : following (stateAt i) = .ok (stateAt i + 1) := following_of_lt (by omega)
    have steps : state.arcs.mapM (fun arc => do return arc.nextstate == (← following (stateAt i)))
        = (.ok (state.arcs.map fun arc => arc.nextstate == stateAt i + 1) : Checked (List Bool)) := by
      apply mapM_of_forall
      intro arc _
      rw [next]
      rfl
    simp only
    rw [steps, ok_bind]
    simp only [pure_eq_ok, List.all_map, Function.comp_def, id]
  have few : m.finals.length < wordLimit := by
    have at_most : m.finals.length ≤ m.numStates := by
      have numbered : m.states.zipIdx.length = m.numStates := List.length_zipIdx
      unfold finals
      rw [List.length_map, ← numbered]
      exact List.length_filter_le _ _
    unfold wordLimit
    omega
  unfold checkedIsString
  rw [mapM_of_forall each, ok_bind, word_of_lt few, ok_bind]
  simp only [pure_eq_ok, isString, List.all_map, Function.comp_def, id]

/-- The verdict on a trait, its searches checked. -/
def checkedHolds (m : Machine) : Trait → Checked Bool
  | .cyclic => m.graph.checkedHasCycle
  | .initialCyclic =>
    match position? m.start with
    | some start => m.graph.checkedReturnsTo start
    | none => return false
  | .accessible =>
    if m.numStates = 0 then return true
    else match position? m.start with
      | some start => m.graph.checkedReachesAll [start]
      | none => return false
  | .coaccessible => do
    let back ← m.graph.checkedReversed
    back.checkedReachesAll m.finals
  | .string => m.checkedIsString
  | t => return m.holds t

theorem checkedHolds_eq {m : Machine} (small : m.numStates ≤ 2147483647) (t : Trait) :
    m.checkedHolds t = .ok (m.holds t) := by
  cases t with
  | cyclic => exact m.graph.checkedHasCycle_eq
  | initialCyclic =>
    unfold checkedHolds holds
    cases position? m.start with
    | none => rfl
    | some start => exact m.graph.checkedReturnsTo_eq start
  | accessible =>
    unfold checkedHolds holds
    by_cases none_ : m.numStates = 0
    · simp [none_]
    · rw [if_neg none_, beq_eq_false_iff_ne.2 none_]
      cases position? m.start with
      | none => rfl
      | some start => exact m.graph.checkedReachesAll_eq [start]
  | coaccessible =>
    unfold checkedHolds
    rw [m.graph.checkedReversed_eq]
    exact m.graph.reversed.checkedReachesAll_eq m.finals
  | string => exact checkedIsString_eq small
  | _ => rfl

/-- The word of the verdicts, each of them checked. -/
def checkedSurvey (m : Machine) : Checked UInt64 :=
  Trait.all.foldlM (fun word t => do
    return word ||| if ← m.checkedHolds t then t.yes else t.no) 0

/-- A survey of states that can be numbered meets no trap. -/
theorem checkedSurvey_eq {m : Machine} (small : m.numStates ≤ 2147483647) :
    m.checkedSurvey = .ok m.survey := by
  unfold checkedSurvey survey TraitWord.ofVerdict
  apply foldlM_of_forall
  intro word t _
  rw [checkedHolds_eq small]
  cases m.holds t <;> rfl

end Machine
end Transducer
