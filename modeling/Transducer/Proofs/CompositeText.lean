import Mathlib.Tactic.SplitIfs
import Transducer.Weight.Composite
/-!
# Composites and their parts

A format keeps composites apart when the text of every composite splits into its parts again. The
parts must not have blanks around them, and have their parentheses balanced and their separators
inside parentheses (`IsPart`). That is enough as long as the parentheses can be seen: trimming a
composite takes off a blank parenthesis, and nothing is then left to be split
(`split_of_not_solid`). Validation does not ask for this. With it a composite is a part again, so
composites of composites are recovered level by level (`Composite.recovers`). Main statement: a
valid format keeps its composites apart exactly if none of its parentheses is blank
(`splits_iff_solid`).
-/
namespace Transducer

namespace WeightFormat

/-! ## Depth -/

/-- What a character adds to the number of open parentheses. -/
def rise (format : WeightFormat) (c : Char) : Int :=
  match format.parentheses with
  | none => 0
  | some (left, right) => (if c = left then 1 else 0) - if c = right then 1 else 0

/-- The number of parentheses that a text opens, less the number of those that it closes. -/
def depth (format : WeightFormat) : List Char → Int
  | [] => 0
  | c :: text => format.rise c + format.depth text

@[simp] theorem depth_nil (format : WeightFormat) : format.depth [] = 0 := rfl

@[simp] theorem depth_cons (format : WeightFormat) (c : Char) (text : List Char) :
    format.depth (c :: text) = format.rise c + format.depth text := rfl

@[simp] theorem depth_append (format : WeightFormat) (xs ys : List Char) :
    format.depth (xs ++ ys) = format.depth xs + format.depth ys := by
  induction xs with
  | nil => simp
  | cons c xs ih => simp [ih, Int.add_assoc]

/-- Read behind so many open parentheses, the text closes none that is not open, and has separators
inside parentheses only. -/
structure Keeps (format : WeightFormat) (start : Int) (text : List Char) : Prop where
  nonneg : ∀ front, front <+: text → 0 ≤ start + format.depth front
  nested : ∀ front, front ++ [format.separator] <+: text → 0 < start + format.depth front

/-- A text that can be a part of a composite: no blanks around it, parentheses balanced, separators
inside parentheses only, so none at all where the format has no parentheses. -/
structure IsPart (format : WeightFormat) (text : List Char) : Prop where
  first : ∀ c ∈ text.head?, Text.isBlank c = false
  last : ∀ c ∈ text.getLast?, Text.isBlank c = false
  keeps : format.Keeps 0 text
  closed : format.depth text = 0

/-- No parenthesis is blank. -/
def Solid (format : WeightFormat) : Prop :=
  ∀ left right, format.parentheses = some (left, right) →
    Text.isBlank left = false ∧ Text.isBlank right = false

variable {format : WeightFormat} {start : Int} {c left right : Char}
  {xs ys first text : List Char} {parts others : List (List Char)}

theorem keeps_nil_iff : format.Keeps start [] ↔ 0 ≤ start := by
  constructor
  · intro keeps
    simpa using keeps.nonneg [] List.nil_prefix
  · intro nonneg
    refine ⟨?_, ?_⟩
    · intro front before
      simp [List.prefix_nil.1 before, nonneg]
    · intro front before
      simp at before

theorem keeps_cons_iff : format.Keeps start (c :: text)
    ↔ 0 ≤ start ∧ (c = format.separator → 0 < start)
      ∧ format.Keeps (start + format.rise c) text := by
  constructor
  · intro keeps
    refine ⟨by simpa using keeps.nonneg [] List.nil_prefix, ?_, ?_, ?_⟩
    · rintro rfl
      simpa using keeps.nested [] (by simp)
    · intro front before
      simpa [Int.add_assoc] using keeps.nonneg (c :: front) (by simpa using before)
    · intro front before
      simpa [Int.add_assoc] using keeps.nested (c :: front) (by simpa using before)
  · rintro ⟨nonneg, separated, keeps⟩
    refine ⟨?_, ?_⟩
    · intro front before
      cases front with
      | nil => simpa using nonneg
      | cons d front =>
        obtain ⟨rfl, inside⟩ := List.cons_prefix_cons.1 before
        simpa [Int.add_assoc] using keeps.nonneg front inside
    · intro front before
      cases front with
      | nil =>
        obtain ⟨same, _⟩ := List.cons_prefix_cons.1 before
        simpa using separated same.symm
      | cons d front =>
        obtain ⟨rfl, inside⟩ := List.cons_prefix_cons.1 before
        simpa [Int.add_assoc] using keeps.nested front inside

theorem Keeps.start_nonneg (keeps : format.Keeps start text) : 0 ≤ start := by
  simpa using keeps.nonneg [] List.nil_prefix

theorem keeps_append_iff : format.Keeps start (xs ++ ys)
    ↔ format.Keeps start xs ∧ format.Keeps (start + format.depth xs) ys := by
  induction xs generalizing start with
  | nil =>
    rw [List.nil_append, keeps_nil_iff, depth_nil, Int.add_zero]
    exact ⟨fun keeps => ⟨keeps.start_nonneg, keeps⟩, And.right⟩
  | cons c xs ih =>
    rw [List.cons_append, keeps_cons_iff, keeps_cons_iff, ih, depth_cons, ← Int.add_assoc]
    simp only [and_assoc]

/-- What may stand behind fewer open parentheses may stand behind more. -/
theorem Keeps.mono {more : Int} (keeps : format.Keeps start text) (le : start ≤ more) :
    format.Keeps more text where
  nonneg front before := by have := keeps.nonneg front before; omega
  nested front before := by have := keeps.nested front before; omega

instance decidableKeeps (format : WeightFormat) :
    ∀ (start : Int) (text : List Char), Decidable (format.Keeps start text)
  | _, [] => decidable_of_iff _ keeps_nil_iff.symm
  | start, c :: text =>
    have := decidableKeeps format (start + format.rise c) text
    decidable_of_iff _ keeps_cons_iff.symm

/-- The parts in a form that can be computed. -/
theorem isPart_iff : format.IsPart text
    ↔ text.head?.any Text.isBlank = false ∧ text.getLast?.any Text.isBlank = false
      ∧ format.Keeps 0 text ∧ format.depth text = 0 := by
  rw [Option.any_eq_false, Option.any_eq_false]
  exact ⟨fun part => ⟨part.first, part.last, part.keeps, part.closed⟩,
    fun ⟨first, last, keeps, closed⟩ => ⟨first, last, keeps, closed⟩⟩

instance (format : WeightFormat) (text : List Char) : Decidable (format.IsPart text) :=
  decidable_of_iff _ isPart_iff.symm

theorem depth_of_none (bare : format.parentheses = none) (text : List Char) :
    format.depth text = 0 := by
  induction text with
  | nil => rfl
  | cons c text ih => simp [rise, bare, ih]

/-- Without parentheses, the parts are the texts without separators and without blanks around. -/
theorem isPart_iff_of_none (bare : format.parentheses = none) : format.IsPart text
    ↔ (∀ c ∈ text.head?, Text.isBlank c = false) ∧ (∀ c ∈ text.getLast?, Text.isBlank c = false)
      ∧ format.separator ∉ text := by
  have flat := depth_of_none bare
  constructor
  · intro part
    refine ⟨part.first, part.last, ?_⟩
    intro inside
    obtain ⟨front, back, rfl⟩ := List.append_of_mem inside
    have nested := part.keeps.nested front ⟨back, by simp⟩
    simp [flat] at nested
  · rintro ⟨first, last, apart⟩
    refine ⟨first, last, ⟨?_, ?_⟩, flat text⟩
    · intro front _
      simp [flat]
    · intro front before
      exact absurd (before.subset (by simp)) apart

/-! ## Cutting at the separators -/

/-- What validation asks of a pair of parentheses. -/
theorem distinct_of_validate (valid : format.validate = .ok ())
    (enclosed : format.parentheses = some (left, right)) :
    left ≠ right ∧ left ≠ format.separator ∧ right ≠ format.separator := by
  simp only [validate, enclosed] at valid
  split_ifs at valid with blank same shared
  exact ⟨same, fun h => shared (.inl h), fun h => shared (.inr h)⟩

theorem isBlank_separator (valid : format.validate = .ok ()) :
    Text.isBlank format.separator = false := by
  unfold validate at valid
  split_ifs at valid with blank
  simpa using blank

theorem role_eq_separator_iff (valid : format.validate = .ok ()) :
    format.role c = .separator ↔ c = format.separator := by
  cases enclosed : format.parentheses with
  | none => simp [role, enclosed]
  | some pair =>
    obtain ⟨_, separatesLeft, separatesRight⟩ := distinct_of_validate valid enclosed
    simp only [role, enclosed]
    split_ifs with opens closes separates
    · simp [opens, separatesLeft]
    · simp [closes, separatesRight]
    · simp [separates]
    · simp [separates]

/-- What a role adds to the number of open parentheses. -/
def Role.rise : Role → Int
  | .left => 1
  | .right => -1
  | .separator => 0
  | .plain => 0

theorem rise_role (valid : format.validate = .ok ()) : (format.role c).rise = format.rise c := by
  cases enclosed : format.parentheses with
  | none =>
    simp only [rise, role, enclosed]
    split_ifs <;> rfl
  | some pair =>
    obtain ⟨distinct, _, _⟩ := distinct_of_validate valid enclosed
    simp only [rise, role, enclosed]
    split_ifs with opens closes separates
    · exact absurd (opens.symm.trans closes) distinct
    · rfl
    · rfl
    · rfl
    · rfl

section Equations

variable {depth : Nat}

theorem cut_left (role : format.role c = .left) :
    format.cut depth (c :: text) = (format.cut (depth + 1) text).map (extend c) := by
  cases depth <;> simp [cut, role]

theorem cut_right (role : format.role c = .right) :
    format.cut (depth + 1) (c :: text) = (format.cut depth text).map (extend c) := by
  simp [cut, role]

theorem cut_separator (role : format.role c = .separator) :
    format.cut 0 (c :: text)
      = (format.cut 0 text).map fun parts => ([], parts.1 :: parts.2) := by
  simp [cut, role]

theorem cut_nested (role : format.role c = .separator) :
    format.cut (depth + 1) (c :: text) = (format.cut (depth + 1) text).map (extend c) := by
  simp [cut, role]

theorem cut_plain (role : format.role c = .plain) :
    format.cut depth (c :: text) = (format.cut depth text).map (extend c) := by
  cases depth <;> simp [cut, role]

end Equations

/-- Puts a text in front of the first part. -/
def prepend (text : List Char) (parts : List Char × List (List Char)) :
    List Char × List (List Char) :=
  (text ++ parts.1, parts.2)

theorem map_extend_map_prepend (cut : Option (List Char × List (List Char))) :
    (cut.map (prepend text)).map (extend c) = cut.map (prepend (c :: text)) := by
  rw [Option.map_map]
  rfl

/-- A text that keeps to itself is not cut, and changes the depth for what follows. -/
theorem cut_append (valid : format.validate = .ok ()) (rest : List Char) (depth after : Nat)
    (keeps : format.Keeps depth text) (reaches : depth + format.depth text = after) :
    format.cut depth (text ++ rest) = (format.cut after rest).map (prepend text) := by
  induction text generalizing depth with
  | nil =>
    have same : depth = after := by simpa [Int.natCast_inj] using reaches
    rw [same, List.nil_append]
    cases format.cut after rest <;> rfl
  | cons c text ih =>
    obtain ⟨_, separated, keeps⟩ := keeps_cons_iff.1 keeps
    rw [depth_cons, ← Int.add_assoc] at reaches
    have change := rise_role (c := c) valid
    rw [List.cons_append, ← map_extend_map_prepend]
    cases role : format.role c with
    | left =>
      rw [role, Role.rise] at change
      have deeper : (depth : Int) + format.rise c = (depth + 1 : Nat) := by omega
      rw [deeper] at keeps reaches
      rw [← ih (depth + 1) keeps reaches, cut_left role]
    | right =>
      have started := keeps.start_nonneg
      rw [role, Role.rise] at change
      cases depth with
      | zero => omega
      | succ depth =>
        have higher : ((depth + 1 : Nat) : Int) + format.rise c = depth := by omega
        rw [higher] at keeps reaches
        rw [← ih depth keeps reaches, cut_right role]
    | separator =>
      have inside := separated ((role_eq_separator_iff valid).1 role)
      rw [role, Role.rise] at change
      rw [← change, Int.add_zero] at keeps reaches
      cases depth with
      | zero => omega
      | succ depth => rw [← ih (depth + 1) keeps reaches, cut_nested role]
    | plain =>
      rw [role, Role.rise] at change
      rw [← change, Int.add_zero] at keeps reaches
      rw [← ih depth keeps reaches, cut_plain role]

theorem intersperse_cons_cons (separator : Char) (first second : List Char)
    (others : List (List Char)) : intersperse separator (first :: second :: others)
      = first ++ separator :: intersperse separator (second :: others) := rfl

theorem cut_intersperse (valid : format.validate = .ok ())
    (each : ∀ part ∈ first :: others, format.Keeps 0 part ∧ format.depth part = 0) :
    format.cut 0 (intersperse format.separator (first :: others)) = some (first, others) := by
  induction others generalizing first with
  | nil =>
    obtain ⟨keeps, closed⟩ := each first (by simp)
    have alone := cut_append valid [] 0 0 keeps (by simp [closed])
    simpa [intersperse, cut, prepend] using alone
  | cons second others ih =>
    rw [List.forall_mem_cons] at each
    obtain ⟨⟨keeps, closed⟩, each⟩ := each
    rw [intersperse_cons_cons, cut_append valid _ 0 0 keeps (by simp [closed]),
      cut_separator ((role_eq_separator_iff valid).2 rfl), ih each]
    simp [prepend]

/-! ## Splitting -/

theorem body?_enclose (format : WeightFormat) (body : List Char) :
    format.body? (format.enclose body) = some body := by
  cases enclosed : format.parentheses <;> simp [body?, enclose, enclosed]

theorem join_of_none (bare : format.parentheses = none) :
    format.join parts = intersperse format.separator parts := by
  simp [join, enclose, bare]

theorem join_of_some (enclosed : format.parentheses = some (left, right)) :
    format.join parts = left :: intersperse format.separator parts ++ [right] := by
  simp [join, enclose, enclosed]

/-- A text put together around a character has its ends from the two texts, or from that
character. -/
theorem ends_append_cons (between : Text.isBlank c = false)
    (head : ∀ d ∈ xs.head?, Text.isBlank d = false)
    (last : ∀ d ∈ ys.getLast?, Text.isBlank d = false) :
    (∀ d ∈ (xs ++ c :: ys).head?, Text.isBlank d = false)
      ∧ ∀ d ∈ (xs ++ c :: ys).getLast?, Text.isBlank d = false := by
  constructor
  · cases xs with
    | nil => simp [between]
    | cons e xs => simpa using head
  · rw [List.getLast?_append, List.getLast?_cons, Option.some_or]
    cases ending : ys.getLast? with
    | none => simp [between]
    | some e => simpa [ending] using last

theorem ends_intersperse (valid : format.validate = .ok ())
    (each : ∀ part ∈ parts, format.IsPart part) :
    (∀ c ∈ (intersperse format.separator parts).head?, Text.isBlank c = false)
      ∧ ∀ c ∈ (intersperse format.separator parts).getLast?, Text.isBlank c = false := by
  induction parts with
  | nil => simp [intersperse]
  | cons first others ih =>
    rw [List.forall_mem_cons] at each
    obtain ⟨part, each⟩ := each
    cases others with
    | nil => exact ⟨part.first, part.last⟩
    | cons second others =>
      obtain ⟨_, last⟩ := ih each
      rw [intersperse_cons_cons]
      exact ends_append_cons (isBlank_separator valid) part.first last

theorem ends_join (valid : format.validate = .ok ()) (solid : format.Solid)
    (each : ∀ part ∈ parts, format.IsPart part) :
    (∀ c ∈ (format.join parts).head?, Text.isBlank c = false)
      ∧ ∀ c ∈ (format.join parts).getLast?, Text.isBlank c = false := by
  cases enclosed : format.parentheses with
  | none =>
    rw [join_of_none enclosed]
    exact ends_intersperse valid each
  | some pair =>
    obtain ⟨left, right⟩ := solid pair.1 pair.2 enclosed
    rw [join_of_some enclosed, List.getLast?_concat]
    simp [left, right]

theorem split_join (valid : format.validate = .ok ()) (solid : format.Solid) (filled : parts ≠ [])
    (each : ∀ part ∈ parts, format.IsPart part) :
    format.split (String.ofList (format.join parts)) = .ok parts := by
  obtain ⟨first, others, rfl⟩ := List.exists_cons_of_ne_nil filled
  obtain ⟨head, last⟩ := ends_join valid solid each
  have cuts := cut_intersperse valid fun part member =>
    ⟨(each part member).keeps, (each part member).closed⟩
  rw [split, String.toList_ofList, Text.trim_eq_self head last, join, body?_enclose]
  simp only [cuts]

/-- A blank parenthesis does not survive the trimming. -/
theorem solid_of_body?_trim {body : List Char}
    (shown : format.body? (Text.trim text) = some body) : format.Solid := by
  intro left right enclosed
  simp only [body?, enclosed] at shown
  cases trimmed : Text.trim text with
  | nil => simp [trimmed] at shown
  | cons c rest =>
    simp only [trimmed] at shown
    split_ifs at shown with both
    obtain ⟨rfl, last⟩ := both
    have begins : c ∈ (Text.trim text).head? := by simp [trimmed]
    have ends : right ∈ (Text.trim text).getLast? := by simp [trimmed, List.getLast?_cons, last]
    exact ⟨Text.isBlank_head_trim begins, Text.isBlank_getLast_trim ends⟩

/-- Nothing at all is split where a parenthesis is blank. -/
theorem split_of_not_solid (hollow : ¬ format.Solid) (text : String) :
    format.split text = .error (.badWeight (.missingParentheses text)) := by
  cases shown : format.body? (Text.trim text.toList) with
  | none => rw [split, shown]
  | some body => exact absurd (solid_of_body?_trim shown) hollow

/-! ## Composites of composites -/

theorem rise_separator (valid : format.validate = .ok ()) :
    format.rise format.separator = 0 := by
  rw [← rise_role valid, (role_eq_separator_iff valid).2 rfl, Role.rise]

theorem depth_intersperse (valid : format.validate = .ok ())
    (each : ∀ part ∈ parts, format.IsPart part) :
    format.depth (intersperse format.separator parts) = 0 := by
  induction parts with
  | nil => rfl
  | cons first others ih =>
    rw [List.forall_mem_cons] at each
    obtain ⟨part, each⟩ := each
    cases others with
    | nil => exact part.closed
    | cons second others =>
      rw [intersperse_cons_cons, depth_append, depth_cons, part.closed, rise_separator valid,
        ih each]
      rfl

theorem keeps_intersperse (valid : format.validate = .ok ())
    (each : ∀ part ∈ parts, format.IsPart part) :
    format.Keeps 1 (intersperse format.separator parts) := by
  induction parts with
  | nil => exact keeps_nil_iff.2 (by decide)
  | cons first others ih =>
    rw [List.forall_mem_cons] at each
    obtain ⟨part, each⟩ := each
    have inside := part.keeps.mono (Int.zero_le_ofNat 1)
    cases others with
    | nil => exact inside
    | cons second others =>
      rw [intersperse_cons_cons, keeps_append_iff, part.closed, keeps_cons_iff,
        rise_separator valid]
      exact ⟨inside, by decide, fun _ => by decide, ih each⟩

/-- A composite can be a part, without parentheses only if nothing in it is separated. -/
theorem isPart_join (valid : format.validate = .ok ()) (solid : format.Solid)
    (each : ∀ part ∈ parts, format.IsPart part)
    (apart : format.parentheses = none → format.separator ∉ format.join parts) :
    format.IsPart (format.join parts) := by
  obtain ⟨head, last⟩ := ends_join valid solid each
  cases enclosed : format.parentheses with
  | none => exact (isPart_iff_of_none enclosed).2 ⟨head, last, apart enclosed⟩
  | some pair =>
    obtain ⟨left, right⟩ := pair
    obtain ⟨distinct, separatesLeft, separatesRight⟩ := distinct_of_validate valid enclosed
    have opens : format.rise left = 1 := by simp [rise, enclosed, distinct]
    have closes : format.rise right = -1 := by simp [rise, enclosed, distinct.symm]
    have level := depth_intersperse valid each
    refine ⟨head, last, ?_, ?_⟩
    · rw [join_of_some enclosed, List.cons_append, keeps_cons_iff, opens, keeps_append_iff, level,
        keeps_cons_iff, closes, keeps_nil_iff]
      exact ⟨by decide, fun same => absurd same separatesLeft, keeps_intersperse valid each,
        by decide, fun same => absurd same separatesRight, by decide⟩
    · simp [join_of_some enclosed, opens, closes, level]

end WeightFormat

/-- A weight, or a composite of composites. -/
inductive Composite where
  | weight (text : List Char)
  | tuple (parts : List Composite)

namespace Composite

mutual

/-- The text of a composite joins the texts of its parts. -/
def text (format : WeightFormat) : Composite → List Char
  | weight text => text
  | tuple parts => format.join (texts format parts)

def texts (format : WeightFormat) : List Composite → List (List Char)
  | [] => []
  | part :: parts => text format part :: texts format parts

end

theorem texts_eq_map (format : WeightFormat) (parts : List Composite) :
    texts format parts = parts.map (text format) := by
  induction parts with
  | nil => rfl
  | cons part parts ih => rw [texts, ih, List.map_cons]

/-- What can be written: no composite is empty, and parts have separators inside parentheses only,
so that without parentheses no part has one. -/
inductive Proper (format : WeightFormat) : Composite → Prop where
  | weight {text : List Char} (part : format.IsPart text) : Proper format (weight text)
  | tuple {parts : List Composite} (filled : parts ≠ []) (each : ∀ part ∈ parts, Proper format part)
      (apart : format.parentheses = none → ∀ part ∈ parts, format.separator ∉ text format part) :
      Proper format (tuple parts)

/-- Split level by level, the text gives the composite back. -/
inductive Recovers (format : WeightFormat) : Composite → Prop where
  | weight (text : List Char) : Recovers format (weight text)
  | tuple {parts : List Composite}
      (splits : format.split (String.ofList (text format (tuple parts)))
        = .ok (parts.map (text format)))
      (each : ∀ part ∈ parts, Recovers format part) : Recovers format (tuple parts)

variable {format : WeightFormat} {c : Composite}

/-- A composite that is written is recovered, and can be a part of another one. -/
theorem recovers_and_isPart (valid : format.validate = .ok ()) (solid : format.Solid)
    (proper : c.Proper format) : c.Recovers format
      ∧ ((format.parentheses = none → format.separator ∉ text format c)
        → format.IsPart (text format c)) := by
  induction proper with
  | weight part => exact ⟨.weight _, fun _ => part⟩
  | @tuple parts filled each apart ih =>
    have joined : text format (tuple parts) = format.join (parts.map (text format)) := by
      rw [text, texts_eq_map]
    have inside : ∀ part ∈ parts.map (text format), format.IsPart part := by
      rw [List.forall_mem_map]
      intro part member
      exact (ih part member).2 fun bare => apart bare part member
    refine ⟨.tuple ?_ fun part member => (ih part member).1, ?_⟩
    · rw [joined]
      exact WeightFormat.split_join valid solid (by simpa using filled) inside
    · rw [joined]
      exact WeightFormat.isPart_join valid solid inside

theorem recovers (valid : format.validate = .ok ()) (solid : format.Solid)
    (proper : c.Proper format) : c.Recovers format :=
  (recovers_and_isPart valid solid proper).1

end Composite

/-- Under a valid format the text of a composite splits into its parts again exactly if no
parenthesis is blank. Where one is, no text at all is split; where none is, composites of composites
are recovered level by level. -/
theorem splits_iff_solid (format : WeightFormat) (valid : format.validate = .ok ()) :
    (∀ parts, parts ≠ [] → (∀ part ∈ parts, format.IsPart part) →
        (format.split (String.ofList (format.join parts)) = .ok parts ↔ format.Solid))
      ∧ (¬ format.Solid →
        ∀ text, format.split text = .error (.badWeight (.missingParentheses text)))
      ∧ (format.Solid → ∀ c : Composite, c.Proper format → c.Recovers format) := by
  refine ⟨?_, WeightFormat.split_of_not_solid, fun solid _ => Composite.recovers valid solid⟩
  intro parts filled each
  refine ⟨?_, fun solid => WeightFormat.split_join valid solid filled each⟩
  intro splits
  apply Classical.byContradiction
  intro hollow
  rw [WeightFormat.split_of_not_solid hollow] at splits
  cases splits

/-- Composites in round parentheses. -/
def round : WeightFormat := ⟨',', some ('(', ')'), 6⟩

/-- Two levels of composites. -/
def nestedPair : Composite := .tuple [.tuple [.weight ['1'], .weight ['2']], .weight ['3']]

theorem solid_round : round.Solid := by
  intro left right enclosed
  obtain ⟨rfl, rfl⟩ : '(' = left ∧ ')' = right := by simpa [round] using enclosed
  decide

theorem proper_nestedPair : nestedPair.Proper round := by
  have enclosed : ∀ parts : List Composite, round.parentheses = none →
      ∀ part ∈ parts, round.separator ∉ part.text round := by
    intro _ bare
    cases bare
  refine .tuple (by simp) (List.forall_mem_cons.2 ⟨?_, ?_⟩) (enclosed _)
  · refine .tuple (by simp) ?_ (enclosed _)
    simp only [List.forall_mem_cons]
    exact ⟨.weight (by decide), .weight (by decide), by simp⟩
  · simp only [List.forall_mem_cons]
    exact ⟨.weight (by decide), by simp⟩

/-- Round parentheses keep composites apart, and a pair of a pair and a number is recovered. -/
theorem splits_iff_solid_round :
    round.split (String.ofList (round.join ["(1,2)".toList, ['3']]))
        = .ok ["(1,2)".toList, ['3']]
      ∧ nestedPair.Recovers round := by
  obtain ⟨splits, _, recovers⟩ := splits_iff_solid round rfl
  refine ⟨?_, recovers solid_round nestedPair proper_nestedPair⟩
  exact (splits ["(1,2)".toList, ['3']] (by simp) (by decide)).2 solid_round

/-- A blank parenthesis is valid, and the composite of two numbers does not split into them. -/
theorem not_splits_blankParenthesis : ¬ ∀ format : WeightFormat, format.validate = .ok () →
    ∀ parts, parts ≠ [] → (∀ part ∈ parts, format.IsPart part) →
      format.split (String.ofList (format.join parts)) = .ok parts := by
  intro apart
  have splits := apart ⟨',', some (' ', ')'), 6⟩ rfl [['1'], ['2']] (by simp) (by decide)
  rw [WeightFormat.split_of_not_solid] at splits
  · cases splits
  · intro solid
    cases (solid ' ' ')' rfl).1

end Transducer
