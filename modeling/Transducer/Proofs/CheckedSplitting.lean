import Transducer.Proofs.Checked
import Transducer.Proofs.CompositeText
/-!
# Splitting composites with every step checked

The splitting of a composite again as one pass over its bytes. The byte at which a character stands,
the byte at which the part that is being read began and the number of open parentheses are counted
in words, and a part is taken out of the text between two bytes, both of which must stand between
characters. Main statement: in a text that fits an array no step traps, and the parts come out as
they are cut character by character (`checkedSplit_eq`).
-/
namespace Transducer

namespace Checked

/-- The part of a text from one byte up to another; both must stand between characters. -/
def textPart (s : String) (start stop : Nat) : Checked String :=
  if h : (String.Pos.Raw.mk start).IsValid s ∧ (String.Pos.Raw.mk stop).IsValid s ∧ start ≤ stop
  then .ok (s.extract ⟨⟨start⟩, h.1⟩ ⟨⟨stop⟩, h.2.1⟩)
  else .error .index

theorem isValid_append (front back : String) :
    (String.Pos.Raw.mk front.utf8ByteSize).IsValid (front ++ back) :=
  String.Pos.Raw.isValid_iff_exists_append.2 ⟨front, back, rfl, rfl⟩

/-- A text between two others is the part between their ends. -/
theorem textPart_append (front middle back : String) :
    textPart (front ++ middle ++ back) front.utf8ByteSize (front ++ middle).utf8ByteSize
      = .ok middle := by
  have start : (String.Pos.Raw.mk front.utf8ByteSize).IsValid (front ++ middle ++ back) := by
    rw [String.append_assoc]
    exact isValid_append front (middle ++ back)
  have stop := isValid_append (front ++ middle) back
  have forth : front.utf8ByteSize ≤ (front ++ middle).utf8ByteSize := by
    rw [String.utf8ByteSize_append]
    exact Nat.le_add_right _ _
  have behind := ByteArray.extract_append_size_add (a := front.toByteArray)
    (b := (middle ++ back).toByteArray) (i := 0) (j := middle.utf8ByteSize)
  have first : (middle ++ back).toByteArray.extract 0 middle.utf8ByteSize = middle.toByteArray := by
    rw [String.toByteArray_append]
    exact ByteArray.extract_append_eq_left rfl
  rw [textPart, dif_pos ⟨start, stop, forth⟩]
  congr 1
  apply String.toByteArray_inj.1
  rw [first, ← String.toByteArray_append, ← String.append_assoc, Nat.add_zero,
    String.size_toByteArray, ← String.utf8ByteSize_append] at behind
  exact behind

end Checked

namespace Text

theorem infix_trim (text : List Char) : trim text <:+: text := by
  have front := (text.dropWhile_suffix isBlank).isInfix
  have behind : trim text <+: text.dropWhile isBlank := by
    unfold trim dropTrailing
    rw [← List.reverse_suffix, List.reverse_reverse]
    exact List.dropWhile_suffix _
  exact behind.isInfix.trans front

theorem utf8ByteSize_le_of_infix {part text : List Char} (inside : part <:+: text) :
    (String.ofList part).utf8ByteSize ≤ (String.ofList text).utf8ByteSize := by
  obtain ⟨front, back, rfl⟩ := inside
  simp only [String.ofList_append, String.utf8ByteSize_append]
  omega

end Text

namespace WeightFormat

open Checked

/-- How far a pass has come: the number of open parentheses, the byte at which the part that is
being read began, and the parts before it. -/
structure Progress where
  depth : Nat
  start : Nat
  parts : List (List Char)

/-- Passes over the character that stands at a byte of the body; nothing more comes of a
parenthesis without a partner. -/
def pass (format : WeightFormat) (body : String) (place : Nat) (c : Char) (p : Progress) :
    Checked (Option Progress) :=
  match format.role c, p.depth with
  | .left, depth => do return some { p with depth := ← word (depth + 1) }
  | .right, 0 => return none
  | .right, depth + 1 => return some { p with depth := depth }
  | .separator, 0 => do
    let part ← textPart body p.start place
    return some { p with start := ← word (place + c.utf8Size), parts := p.parts ++ [part.toList] }
  | .separator, _ + 1 => return some p
  | .plain, _ => return some p

/-- Passes over the characters from a byte on. -/
def passAll (format : WeightFormat) (body : String) :
    Nat → List Char → Progress → Checked (Option Progress)
  | _, [], p => return some p
  | place, c :: rest, p => do
    match ← format.pass body place c p with
    | some p => passAll format body (place + c.utf8Size) rest p
    | none => return none

/-- Takes out the last part, unless a parenthesis is still open. -/
def finish (body : String) (p : Progress) : Checked (Option (List (List Char))) := do
  if p.depth = 0 then
    let last ← textPart body p.start body.utf8ByteSize
    return some (p.parts ++ [last.toList])
  else return none

def passFrom (format : WeightFormat) (body : String) (place : Nat) (rest : List Char)
    (p : Progress) : Checked (Option (List (List Char))) := do
  match ← format.passAll body place rest p with
  | some p => finish body p
  | none => return none

def checkedSplit (format : WeightFormat) (text : String) :
    Checked (Except Error (List (List Char))) :=
  match format.body? (Text.trim text.toList) with
  | none => return .error (.badWeight (.missingParentheses text))
  | some body => do
    match ← format.passFrom (String.ofList body) 0 body ⟨0, 0, []⟩ with
    | some parts => return .ok parts
    | none => return .error (.badWeight (.unbalancedParentheses text))

variable {format : WeightFormat} {body : String} {c : Char} {place : Nat}
  {current rest text : List Char} {p : Progress}

/-- Where a pass stands: the part that is being read begins at its byte and reaches up to the place,
behind which the rest follows. -/
structure Stands (body : String) (place : Nat) (current rest : List Char) (p : Progress) : Prop where
  text : ∃ front : String, body = front ++ String.ofList current ++ String.ofList rest
    ∧ p.start = front.utf8ByteSize ∧ place = (front ++ String.ofList current).utf8ByteSize
  depth : p.depth ≤ place

theorem Stands.textPart_eq (stands : Stands body place current rest p) :
    textPart body p.start place = .ok (String.ofList current) := by
  obtain ⟨⟨front, whole, start, reached⟩, _⟩ := stands
  rw [whole, start, reached]
  exact textPart_append front (String.ofList current) (String.ofList rest)

theorem Stands.place_eq (stands : Stands body place current [] p) :
    place = body.utf8ByteSize := by
  obtain ⟨⟨front, whole, _, reached⟩, _⟩ := stands
  rw [reached, whole, String.ofList_nil, String.append_empty]

theorem Stands.next_le (stands : Stands body place current (c :: rest) p) :
    place + c.utf8Size ≤ body.utf8ByteSize := by
  obtain ⟨⟨front, whole, _, reached⟩, _⟩ := stands
  rw [reached, whole, String.ofList_cons, String.utf8ByteSize_append (t := _ ++ _),
    String.utf8ByteSize_append (s := String.singleton c), String.utf8ByteSize_singleton]
  omega

/-- Within the part, the pass goes on to the next character. -/
theorem Stands.goOn {depth : Nat} (stands : Stands body place current (c :: rest) p)
    (deeper : depth ≤ p.depth + 1) :
    Stands body (place + c.utf8Size) (current ++ [c]) rest { p with depth := depth } := by
  obtain ⟨⟨front, whole, start, reached⟩, bound⟩ := stands
  have size := c.utf8Size_pos
  have longer : String.ofList (current ++ [c]) = String.ofList current ++ String.singleton c := by
    rw [String.ofList_append, String.ofList_cons, String.ofList_nil, String.append_empty]
  refine ⟨⟨front, ?_, start, ?_⟩, by simp only; omega⟩
  · rw [whole, longer, String.ofList_cons]
    simp only [String.append_assoc]
  · rw [reached, longer, ← String.append_assoc, String.utf8ByteSize_append (t := .singleton c),
      String.utf8ByteSize_singleton]

/-- Behind a separator, the next part begins. -/
theorem Stands.begin {parts : List (List Char)}
    (stands : Stands body place current (c :: rest) p) :
    Stands body (place + c.utf8Size) [] rest ⟨0, place + c.utf8Size, parts⟩ := by
  obtain ⟨⟨front, whole, start, reached⟩, _⟩ := stands
  have behind : (front ++ String.ofList current ++ String.singleton c).utf8ByteSize
      = place + c.utf8Size := by
    rw [reached, String.utf8ByteSize_append (t := .singleton c), String.utf8ByteSize_singleton]
  refine ⟨⟨front ++ String.ofList current ++ String.singleton c, ?_, behind.symm, ?_⟩,
    Nat.zero_le _⟩
  · rw [whole, String.ofList_nil, String.append_empty, String.ofList_cons]
    simp only [String.append_assoc]
  · rw [String.ofList_nil, String.append_empty, behind]

/-- What is cut from the rest, the first part being put behind what has been read of it. -/
def collected (p : Progress) (current : List Char) (parts : List Char × List (List Char)) :
    List (List Char) :=
  p.parts ++ (current ++ parts.1) :: parts.2

theorem map_collected_extend (depth : Nat) (cut : Option (List Char × List (List Char))) :
    (cut.map (extend c)).map (collected p current)
      = cut.map (collected { p with depth := depth } (current ++ [c])) := by
  rw [Option.map_map]
  congr 1
  funext parts
  simp [collected, extend]

theorem passFrom_of_pass {next : Progress} (passed : format.pass body place c p = .ok (some next)) :
    format.passFrom body place (c :: rest) p
      = format.passFrom body (place + c.utf8Size) rest next := by
  simp only [passFrom, passAll, passed, ok_bind]

theorem passFrom_of_stop (stopped : format.pass body place c p = .ok none) :
    format.passFrom body place (c :: rest) p = .ok none := by
  simp only [passFrom, passAll, stopped, ok_bind, pure_eq_ok]

/-- By induction on the rest: a character belongs to the part that is being read, or ends it and the
next one begins. -/
theorem passFrom_eq (small : body.utf8ByteSize < wordLimit)
    (stands : Stands body place current rest p) :
    format.passFrom body place rest p
      = .ok ((format.cut p.depth rest).map (collected p current)) := by
  induction rest generalizing place current p with
  | nil =>
    have part := stands.textPart_eq
    rw [stands.place_eq] at part
    unfold passFrom passAll finish
    rw [pure_eq_ok, ok_bind]
    cases opened : p.depth with
    | zero => simp [opened, part, cut, collected]
    | succ depth => simp [opened, cut]
  | cons c rest ih =>
    have size := c.utf8Size_pos
    have next := stands.next_le
    have bound := stands.depth
    have part := stands.textPart_eq
    cases role : format.role c with
    | left =>
      have passed : format.pass body place c p = .ok (some { p with depth := p.depth + 1 }) := by
        simp [pass, role, word_of_lt (show p.depth + 1 < wordLimit by omega)]
      rw [passFrom_of_pass passed, ih (stands.goOn (Nat.le_refl _)), cut_left role,
        map_collected_extend]
    | right =>
      cases opened : p.depth with
      | zero =>
        have stopped : format.pass body place c p = .ok none := by simp [pass, role, opened]
        simp [passFrom_of_stop stopped, cut, role]
      | succ depth =>
        have passed : format.pass body place c p = .ok (some { p with depth := depth }) := by
          simp [pass, role, opened]
        rw [passFrom_of_pass passed, ih (stands.goOn (by omega)), cut_right role,
          map_collected_extend]
    | separator =>
      cases opened : p.depth with
      | zero =>
        have passed : format.pass body place c p = .ok (some
            ⟨0, place + c.utf8Size, p.parts ++ [current]⟩) := by
          simp [pass, role, opened, part, word_of_lt (Nat.lt_of_le_of_lt next small)]
        rw [passFrom_of_pass passed, ih stands.begin, cut_separator role, Option.map_map]
        congr 2
        funext parts
        simp [collected]
      | succ depth =>
        have passed : format.pass body place c p = .ok (some p) := by simp [pass, role, opened]
        rw [passFrom_of_pass passed, ih (stands.goOn (Nat.le_succ _)), opened, cut_nested role,
          map_collected_extend]
    | plain =>
      have passed : format.pass body place c p = .ok (some p) := by simp [pass, role]
      rw [passFrom_of_pass passed, ih (stands.goOn (Nat.le_succ _)), cut_plain role,
        map_collected_extend]

/-! ## The whole text -/

theorem infix_of_body? {body : List Char} (shown : format.body? text = some body) :
    body <:+: text := by
  unfold body? at shown
  split at shown
  · cases shown
    exact List.infix_refl _
  · split at shown
    · cases shown
    · split_ifs at shown
      cases shown
      exact (List.dropLast_prefix _).isInfix.trans (List.suffix_cons _ _).isInfix

/-- Every part is taken out of the text between characters. -/
theorem checkedSplit_eq (format : WeightFormat) {text : String}
    (small : text.utf8ByteSize < arrayLimit) :
    format.checkedSplit text = .ok (format.split text) := by
  unfold checkedSplit split
  cases shown : format.body? (Text.trim text.toList) with
  | none => rfl
  | some body =>
    have inside := Text.utf8ByteSize_le_of_infix
      ((infix_of_body? shown).trans (Text.infix_trim text.toList))
    rw [String.ofList_toList] at inside
    have fits : (String.ofList body).utf8ByteSize < wordLimit :=
      Nat.lt_of_le_of_lt inside (Nat.lt_trans small arrayLimit_lt_wordLimit)
    have stands : Stands (String.ofList body) 0 [] body ⟨0, 0, []⟩ :=
      ⟨⟨"", by simp, rfl, rfl⟩, Nat.le_refl 0⟩
    simp only [passFrom_eq fits stands, ok_bind]
    cases format.cut 0 body <;> rfl

end WeightFormat
end Transducer
