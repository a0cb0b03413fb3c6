import Transducer.Proofs.CheckedSplitting
/-!
# Which texts are composites

Splitting accepts a grammar: any text where the format has no parentheses, and otherwise a text in
the parentheses of the format that is balanced between them (`IsComposite`). What it gives is
described without it, too: parts that are balanced, with separators inside parentheses only, and
that make the text when they are joined (`PartsOf`). No text has two such lists of parts, so the
description decides the result. Main statement: splitting succeeds on the composites and on no other
text, gives their parts, and takes them out of the text between characters (`split_iff_partsOf`).
-/
namespace Transducer

namespace WeightFormat

/-- Read behind so many open parentheses, the text closes all of them, and none that is not open. -/
structure Closes (format : WeightFormat) (start : Int) (text : List Char) : Prop where
  nonneg : ∀ front, front <+: text → 0 ≤ start + format.depth front
  closed : start + format.depth text = 0

/-- The text of a composite without blanks around it. -/
inductive IsComposite (format : WeightFormat) : List Char → Prop where
  | bare {text : List Char} (bare : format.parentheses = none) : IsComposite format text
  | enclosed {left right : Char} {body : List Char}
      (enclosed : format.parentheses = some (left, right)) (balanced : format.Closes 0 body) :
      IsComposite format (left :: (body ++ [right]))

/-- The outermost parts of a text. Without parentheses every text is balanced, and no separator is
inside any. -/
structure PartsOf (format : WeightFormat) (parts : List (List Char)) (text : List Char) : Prop where
  filled : parts ≠ []
  separated : ∀ part ∈ parts, ∀ front,
    front ++ [format.separator] <+: part → format.depth front ≠ 0
  balanced : ∀ part ∈ parts, format.Closes 0 part
  joined : format.join parts = text

variable {format : WeightFormat} {start : Int} {depth : Nat} {c : Char}
  {first text body : List Char} {parts others : List (List Char)}

theorem closes_nil_iff : format.Closes start [] ↔ start = 0 := by
  constructor
  · intro closes
    simpa using closes.closed
  · rintro rfl
    refine ⟨?_, rfl⟩
    intro front before
    simp [List.prefix_nil.1 before]

theorem closes_cons_iff :
    format.Closes start (c :: text) ↔ 0 ≤ start ∧ format.Closes (start + format.rise c) text := by
  constructor
  · rintro ⟨nonneg, closed⟩
    refine ⟨by simpa using nonneg [] List.nil_prefix, ?_, by simpa [Int.add_assoc] using closed⟩
    intro front before
    simpa [Int.add_assoc] using nonneg (c :: front) (by simpa using before)
  · rintro ⟨begins, nonneg, closed⟩
    refine ⟨?_, by simpa [Int.add_assoc] using closed⟩
    intro front before
    cases front with
    | nil => simpa using begins
    | cons d front =>
      obtain ⟨rfl, inside⟩ := List.cons_prefix_cons.1 before
      simpa [Int.add_assoc] using nonneg front inside

/-- A part by its two properties apart. -/
theorem keeps_and_closed_iff : format.Keeps 0 text ∧ format.depth text = 0
    ↔ format.Closes 0 text
      ∧ ∀ front, front ++ [format.separator] <+: text → format.depth front ≠ 0 := by
  constructor
  · rintro ⟨keeps, closed⟩
    refine ⟨⟨keeps.nonneg, by simpa using closed⟩, ?_⟩
    intro front before
    have nested := keeps.nested front before
    omega
  · rintro ⟨⟨nonneg, closed⟩, separated⟩
    refine ⟨⟨nonneg, ?_⟩, by simpa using closed⟩
    intro front before
    have above := nonneg front ((List.prefix_append _ _).trans before)
    have inside := separated front before
    omega

/-! ## What is cut -/

/-- A text is cut exactly if its parentheses have partners. -/
theorem isSome_cut_iff (valid : format.validate = .ok ()) :
    (format.cut depth text).isSome ↔ format.Closes depth text := by
  induction text generalizing depth with
  | nil =>
    rw [closes_nil_iff]
    cases depth with
    | zero => simp [cut]
    | succ depth => simp [cut]; omega
  | cons c text ih =>
    have change := rise_role (c := c) valid
    rw [closes_cons_iff, and_iff_right (Int.natCast_nonneg depth)]
    cases role : format.role c with
    | left =>
      rw [role, Role.rise] at change
      rw [cut_left role, Option.isSome_map, ih, ← change, Int.natCast_succ]
    | right =>
      rw [role, Role.rise] at change
      cases depth with
      | zero =>
        have below : ¬ format.Closes (0 + format.rise c) text := by
          intro closes
          have := closes.nonneg [] List.nil_prefix
          simp [← change] at this
        simpa [cut, role] using below
      | succ depth =>
        have higher : ((depth + 1 : Nat) : Int) + format.rise c = depth := by omega
        rw [cut_right role, Option.isSome_map, ih, higher]
    | separator =>
      rw [role, Role.rise] at change
      rw [← change, Int.add_zero]
      cases depth with
      | zero => rw [cut_separator role, Option.isSome_map, ih]
      | succ depth => rw [cut_nested role, Option.isSome_map, ih]
    | plain =>
      rw [role, Role.rise] at change
      rw [cut_plain role, Option.isSome_map, ih, ← change, Int.add_zero]

theorem intersperse_extend (separator : Char) (cuts : List Char × List (List Char)) :
    intersperse separator ((extend c cuts).1 :: (extend c cuts).2)
      = c :: intersperse separator (cuts.1 :: cuts.2) := by
  obtain ⟨first, others⟩ := cuts
  cases others <;> rfl

/-- The parts of a text that is cut behind so many open parentheses. -/
structure CutOf (format : WeightFormat) (depth : Nat) (cuts : List Char × List (List Char))
    (text : List Char) : Prop where
  joined : intersperse format.separator (cuts.1 :: cuts.2) = text
  keeps : format.Keeps depth cuts.1
  closed : depth + format.depth cuts.1 = 0
  others : ∀ part ∈ cuts.2, format.Keeps 0 part ∧ format.depth part = 0

/-- A character that does not separate goes to the first part. -/
theorem CutOf.extend {after : Nat} {cuts : List Char × List (List Char)}
    (cutOf : format.CutOf after cuts text) (reaches : depth + format.rise c = after)
    (inside : c = format.separator → 0 < depth) :
    format.CutOf depth (extend c cuts) (c :: text) where
  joined := by rw [intersperse_extend, cutOf.joined]
  keeps := by
    refine keeps_cons_iff.2 ⟨Int.natCast_nonneg depth, fun same => ?_, ?_⟩
    · have := inside same
      omega
    · rw [reaches]
      exact cutOf.keeps
  closed := by
    have closed := cutOf.closed
    change (depth : Int) + format.depth (c :: cuts.1) = 0
    rw [depth_cons]
    omega
  others := cutOf.others

/-- By induction on the text, a case for each role. -/
theorem cutOf_of_cut (valid : format.validate = .ok ()) {cuts : List Char × List (List Char)}
    (found : format.cut depth text = some cuts) : format.CutOf depth cuts text := by
  induction text generalizing depth cuts with
  | nil =>
    cases depth with
    | zero =>
      cases found
      exact ⟨rfl, keeps_nil_iff.2 (Int.le_refl 0), rfl, by simp⟩
    | succ depth => cases found
  | cons c text ih =>
    have change := rise_role (c := c) valid
    have separates := role_eq_separator_iff (c := c) valid
    cases role : format.role c with
    | left =>
      rw [role, Role.rise] at change
      rw [cut_left role] at found
      obtain ⟨later, rest, rfl⟩ := Option.map_eq_some_iff.1 found
      refine (ih rest).extend (by omega) fun same => ?_
      rw [separates.2 same] at role
      cases role
    | right =>
      rw [role, Role.rise] at change
      cases depth with
      | zero => simp [cut, role] at found
      | succ depth =>
        rw [cut_right role] at found
        obtain ⟨later, rest, rfl⟩ := Option.map_eq_some_iff.1 found
        exact (ih rest).extend (by omega) fun _ => Nat.succ_pos depth
    | separator =>
      have same := separates.1 role
      rw [role, Role.rise] at change
      cases depth with
      | zero =>
        rw [cut_separator role] at found
        obtain ⟨later, rest, rfl⟩ := Option.map_eq_some_iff.1 found
        obtain ⟨joined, keeps, closed, others⟩ := ih rest
        refine ⟨?_, keeps_nil_iff.2 (Int.le_refl 0), rfl, ?_⟩
        · simp only
          rw [intersperse_cons_cons, joined, same]
          rfl
        · exact List.forall_mem_cons.2 ⟨⟨keeps, by simpa using closed⟩, others⟩
      | succ depth =>
        rw [cut_nested role] at found
        obtain ⟨later, rest, rfl⟩ := Option.map_eq_some_iff.1 found
        exact (ih rest).extend (by omega) fun _ => Nat.succ_pos depth
    | plain =>
      rw [role, Role.rise] at change
      rw [cut_plain role] at found
      obtain ⟨later, rest, rfl⟩ := Option.map_eq_some_iff.1 found
      refine (ih rest).extend (by omega) fun same => ?_
      rw [separates.2 same] at role
      cases role

/-! ## What is split -/

/-- A text that shows a body is the body in the parentheses of the format. -/
theorem enclose_of_body? (shown : format.body? text = some body) : format.enclose body = text := by
  unfold body? at shown
  unfold enclose
  split at shown
  · cases shown
    rfl
  · split at shown
    · cases shown
    · rename_i c rest
      split_ifs at shown with both
      obtain ⟨rfl, last⟩ := both
      cases shown
      obtain ⟨front, rfl⟩ := List.getLast?_eq_some_iff.1 last
      rw [List.dropLast_concat]

theorem split_eq_ok_iff {text : String} : format.split text = .ok parts
    ↔ ∃ body first others, format.body? (Text.trim text.toList) = some body
      ∧ format.cut 0 body = some (first, others) ∧ parts = first :: others := by
  unfold split
  cases format.body? (Text.trim text.toList) with
  | none => simp
  | some body =>
    cases found : format.cut 0 body with
    | none => simp [found]
    | some cuts =>
      obtain ⟨first, others⟩ := cuts
      simp [found, and_assoc, eq_comm]

theorem partsOf_of_split (valid : format.validate = .ok ()) {text : String}
    (splits : format.split text = .ok parts) : format.PartsOf parts (Text.trim text.toList) := by
  obtain ⟨body, first, others, shown, found, rfl⟩ := split_eq_ok_iff.1 splits
  obtain ⟨joined, keeps, closed, later⟩ := cutOf_of_cut valid found
  have each : ∀ part ∈ first :: others, format.Keeps 0 part ∧ format.depth part = 0 :=
    List.forall_mem_cons.2 ⟨⟨keeps, by simpa using closed⟩, later⟩
  refine ⟨by simp, ?_, ?_, ?_⟩
  · exact fun part member => (keeps_and_closed_iff.1 (each part member)).2
  · exact fun part member => (keeps_and_closed_iff.1 (each part member)).1
  · rw [join, joined, enclose_of_body? shown]

theorem split_of_partsOf (valid : format.validate = .ok ()) {text : String}
    (partsOf : format.PartsOf parts (Text.trim text.toList)) : format.split text = .ok parts := by
  obtain ⟨filled, separated, balanced, joined⟩ := partsOf
  obtain ⟨first, others, rfl⟩ := List.exists_cons_of_ne_nil filled
  have cuts := cut_intersperse valid fun part member =>
    keeps_and_closed_iff.2 ⟨balanced part member, separated part member⟩
  rw [split_eq_ok_iff, ← joined]
  exact ⟨_, first, others, body?_enclose format _, cuts, rfl⟩

/-- Without parentheses, every text is balanced. -/
theorem closes_of_none (bare : format.parentheses = none) (text : List Char) :
    format.Closes 0 text where
  nonneg front _ := by simp [depth_of_none bare]
  closed := by simp [depth_of_none bare]

theorem exists_body_of_isComposite (composite : format.IsComposite text) :
    ∃ body, format.body? text = some body ∧ format.Closes 0 body := by
  cases composite with
  | bare bare => exact ⟨text, by simp [body?, bare], closes_of_none bare text⟩
  | enclosed enclosed balanced => exact ⟨_, by simp [body?, enclosed], balanced⟩

theorem exists_split_iff (valid : format.validate = .ok ()) (text : String) :
    (∃ parts, format.split text = .ok parts) ↔ format.IsComposite (Text.trim text.toList) := by
  constructor
  · rintro ⟨parts, splits⟩
    obtain ⟨body, first, others, shown, found, rfl⟩ := split_eq_ok_iff.1 splits
    have balanced := (isSome_cut_iff valid).1 (Option.isSome_of_eq_some found)
    rw [← enclose_of_body? shown, enclose]
    cases enclosed : format.parentheses with
    | none => exact .bare enclosed
    | some pair => exact .enclosed enclosed balanced
  · intro composite
    obtain ⟨body, shown, balanced⟩ := exists_body_of_isComposite composite
    obtain ⟨⟨first, others⟩, found⟩ :=
      Option.isSome_iff_exists.1 ((isSome_cut_iff valid).2 balanced)
    exact ⟨_, split_eq_ok_iff.2 ⟨body, first, others, shown, found, rfl⟩⟩

end WeightFormat

/-- Under a valid format splitting succeeds on composites, blanks around them aside, and on no other
text; it gives the parts of the text and nothing else; and as a pass over the bytes of a text that
fits an array it counts in words and takes every part out between characters. -/
theorem split_iff_partsOf (format : WeightFormat) (valid : format.validate = .ok ())
    (text : String) :
    ((∃ parts, format.split text = .ok parts) ↔ format.IsComposite (Text.trim text.toList))
      ∧ (∀ parts, format.split text = .ok parts
        ↔ format.PartsOf parts (Text.trim text.toList))
      ∧ (text.utf8ByteSize < arrayLimit →
        format.checkedSplit text = .ok (format.split text)) := by
  refine ⟨WeightFormat.exists_split_iff valid text, fun parts => ⟨?_, ?_⟩, ?_⟩
  · exact WeightFormat.partsOf_of_split valid
  · exact WeightFormat.split_of_partsOf valid
  · exact WeightFormat.checkedSplit_eq format

/-- A text of wide characters, with a blank in front, a composite in it and an empty part behind
that, is split into the two; where the outer parentheses belong to different parts, it is no
composite. -/
theorem split_iff_partsOf_wide :
    let format : WeightFormat := ⟨'→', some ('«', '»'), 6⟩
    format.checkedSplit " ««α→β»→»" = .ok (.ok ["«α→β»".toList, []])
      ∧ format.IsComposite "««α→β»→»".toList
      ∧ ¬ format.IsComposite "«α»«β»".toList := by
  intro format
  have valid : format.validate = .ok () := rfl
  obtain ⟨accepts, _, checked⟩ := split_iff_partsOf format valid " ««α→β»→»"
  obtain ⟨refuses, _, _⟩ := split_iff_partsOf format valid "«α»«β»"
  have splits : format.split " ««α→β»→»" = .ok ["«α→β»".toList, []] := rfl
  have refused : format.split "«α»«β»"
      = .error (.badWeight (.unbalancedParentheses "«α»«β»")) := rfl
  have trimmed : Text.trim " ««α→β»→»".toList = "««α→β»→»".toList := rfl
  have whole : Text.trim "«α»«β»".toList = "«α»«β»".toList := rfl
  rw [trimmed] at accepts
  rw [whole] at refuses
  refine ⟨?_, accepts.1 ⟨_, splits⟩, ?_⟩
  · rw [checked (by decide +kernel), splits]
  · intro composite
    obtain ⟨parts, splits⟩ := refuses.2 composite
    rw [refused] at splits
    cases splits

end Transducer
