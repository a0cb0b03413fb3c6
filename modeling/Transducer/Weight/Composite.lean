import Transducer.Error
import Transducer.Text.Blank
/-!
# Composite weights as text

A composite weight is the text of its parts, separated by one character and, where the format
says so, enclosed in a pair of parentheses, so that a part may itself be a composite. Joining
writes a composite; splitting reads one back into its outermost parts.
-/
namespace Transducer

/-- How weights are written: what separates and encloses the parts of a composite, and how many
digits stand after the point. -/
structure WeightFormat where
  separator : Char
  parentheses : Option (Char × Char)
  precision : Nat
  deriving DecidableEq, Repr

namespace WeightFormat

def standard : WeightFormat := ⟨',', none, 6⟩

/-- Refuses formats whose composites could be read in two ways. -/
def validate (format : WeightFormat) : Except Error Unit :=
  if Text.isBlank format.separator then .error (.badWeight .blankSeparator)
  else match format.parentheses with
    | none => .ok ()
    | some (left, right) =>
      if left = right then .error (.badWeight .sameParentheses)
      else if left = format.separator ∨ right = format.separator then
        .error (.badWeight .separatorParenthesis)
      else .ok ()

/-- The part a character plays in a composite. -/
inductive Role where
  | left
  | right
  | separator
  | plain
  deriving DecidableEq, Repr

def role (format : WeightFormat) (c : Char) : Role :=
  let plainly := if c = format.separator then Role.separator else .plain
  match format.parentheses with
  | none => plainly
  | some (left, right) =>
    if c = left then .left else if c = right then .right else plainly

/-- The parts with the separator between them. -/
def intersperse (separator : Char) : List (List Char) → List Char
  | [] => []
  | [part] => part
  | part :: parts => part ++ separator :: intersperse separator parts

/-- The text between the parentheses of the format, or the text itself where there are none. -/
def enclose (format : WeightFormat) (body : List Char) : List Char :=
  match format.parentheses with
  | none => body
  | some (left, right) => left :: (body ++ [right])

/-- Joins the texts of the parts into the text of the composite. -/
def join (format : WeightFormat) (parts : List (List Char)) : List Char :=
  format.enclose (intersperse format.separator parts)

/-- Puts a character in front of the first part. -/
def extend (c : Char) (parts : List Char × List (List Char)) : List Char × List (List Char) :=
  (c :: parts.1, parts.2)

/-- Cuts a text at the separators outside all parentheses, `depth` of which are open; nothing if
a parenthesis has no partner. The result is the first part and the others. -/
def cut (format : WeightFormat) : Nat → List Char → Option (List Char × List (List Char))
  | 0, [] => some ([], [])
  | _ + 1, [] => none
  | depth, c :: rest =>
    match format.role c, depth with
    | .left, depth => (cut format (depth + 1) rest).map (extend c)
    | .right, 0 => none
    | .right, depth + 1 => (cut format depth rest).map (extend c)
    | .separator, 0 => (cut format 0 rest).map fun parts => ([], parts.1 :: parts.2)
    | .separator, depth + 1 => (cut format (depth + 1) rest).map (extend c)
    | .plain, depth => (cut format depth rest).map (extend c)

/-- Takes the parentheses of the format off a text that stands between them. -/
def body? (format : WeightFormat) (text : List Char) : Option (List Char) :=
  match format.parentheses with
  | none => some text
  | some (left, right) =>
    match text with
    | [] => none
    | c :: rest =>
      if c = left ∧ rest.getLast? = some right then some rest.dropLast else none

/-- Splits the text of a composite, blanks around it aside, into its outermost parts. -/
def split (format : WeightFormat) (text : String) : Except Error (List (List Char)) :=
  match format.body? (Text.trim text.toList) with
  | none => .error (.badWeight (.missingParentheses text))
  | some body =>
    match format.cut 0 body with
    | none => .error (.badWeight (.unbalancedParentheses text))
    | some parts => .ok (parts.1 :: parts.2)

end WeightFormat
end Transducer
