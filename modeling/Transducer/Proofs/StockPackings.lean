import Transducer.Compact
import Transducer.Packing.Stock
import Transducer.Proofs.TraitWord
/-!
# What the stock packings keep

A stock packing keeps the input label of an arc and some of its other fields; what it drops it
fills in from the label and the state. `restored` writes that down once for all five. Each
packing demands, for every field it drops, the trait from which the field can be filled in.
-/
namespace Transducer.Stock

open TraitWord

/-- Whether the elements keep the output labels of the arcs. -/
def keepsOutput : Stock → Bool
  | unweighted => true
  | string | weightedString | unweightedAcceptor | acceptor => false

/-- Whether the elements keep the next states of the arcs. -/
def keepsTarget : Stock → Bool
  | unweightedAcceptor | acceptor | unweighted => true
  | string | weightedString => false

/-- What an arc of a state comes back as. -/
def restored (k : Stock) (s : StateId) (fields : Fields) (arc : Arc) : Arc where
  ilabel := arc.ilabel
  olabel := if k.keepsOutput then arc.olabel else arc.ilabel
  weight := if k.keepsWeights && fields.weight then arc.weight else Weight.one
  nextstate := if k.keepsTarget then arc.nextstate else Packing.followingState s arc.ilabel

/-- Packed machines of a stock packing. -/
abbrev format (k : Stock) (algebra : Algebra) (width : OffsetWidth) : Format :=
  ⟨algebra, k.packing, width⟩

theorem unpack_pack (k : Stock) (payload : k.packing.Payload) (s : StateId) (fields : Fields)
    (arc : Arc) :
    k.packing.unpack payload s (k.packing.pack payload s arc) fields = k.restored s fields arc := by
  cases k with
  | string | unweightedAcceptor | unweighted => rfl
  | weightedString | acceptor => rcases fields with ⟨i, o, _ | _, n⟩ <;> rfl

/-- Where the target is left out, an element leads to the following state or ends the string. -/
theorem nextstate_unpack {k : Stock} (string : k.keepsTarget = false)
    (payload : k.packing.Payload) (s : StateId) (e : k.packing.Element) (fields : Fields) :
    (k.packing.unpack payload s e fields).nextstate
      = Packing.followingState s (k.packing.unpack payload s e fields).ilabel := by
  cases k with
  | string | weightedString => rfl
  | unweightedAcceptor | acceptor | unweighted => cases string

/-- Where the output label is left out, it is filled in with the input label. -/
theorem olabel_unpack {k : Stock} (dropped : k.keepsOutput = false) (payload : k.packing.Payload)
    (s : StateId) (e : k.packing.Element) (fields : Fields) :
    (k.packing.unpack payload s e fields).olabel
      = (k.packing.unpack payload s e fields).ilabel := by
  cases k with
  | string | weightedString | unweightedAcceptor | acceptor => rfl
  | unweighted => cases dropped

theorem weight_unpack {k : Stock} (dropped : k.keepsWeights = false) (payload : k.packing.Payload)
    (s : StateId) (e : k.packing.Element) (fields : Fields) :
    (k.packing.unpack payload s e fields).weight = Weight.one := by
  cases k with
  | string | unweightedAcceptor | unweighted => rfl
  | weightedString | acceptor => cases dropped

/-- The weight is restored alike whether or not the other fields are. -/
theorem weight_unpack_all (k : Stock) (payload : k.packing.Payload) (s : StateId)
    (e : k.packing.Element) : (k.packing.unpack payload s e Fields.all).weight
      = (k.packing.unpack payload s e Fields.inputAndWeight).weight := by
  cases k <;> rfl

/-- A packing demands the traits of the fields that it drops and no others. -/
theorem says_required {k : Stock} {t : Trait} {verdict : Bool}
    (said : Says k.packing.required t verdict) :
    (k.keepsOutput = false ∧ t = .acceptor ∧ verdict = true)
      ∨ (k.keepsWeights = false ∧ t = .weighted ∧ verdict = false)
      ∨ (k.keepsTarget = false ∧ t = .string ∧ verdict = true) := by
  have demanded : k.packing.required
      = (if k.keepsOutput then 0 else Trait.bit .acceptor true)
        ||| (if k.keepsWeights then 0 else Trait.bit .weighted false)
        ||| (if k.keepsTarget then 0 else Trait.bit .string true) := by
    cases k <;> decide
  have bit {kept : Bool} {u : Trait} {b : Bool}
      (there : Says (if kept then 0 else u.bit b) t verdict) :
      kept = false ∧ t = u ∧ verdict = b := by
    cases kept with
    | false =>
      obtain ⟨rfl, rfl⟩ := says_bit.1 there
      exact ⟨rfl, rfl, rfl⟩
    | true => simp [Says] at there
  rw [demanded, says_or, says_or] at said
  rcases said with (acceptor | weighted) | string
  · exact Or.inl (bit acceptor)
  · exact Or.inr (Or.inl (bit weighted))
  · exact Or.inr (Or.inr (bit string))

/-- Dropped output labels are the input labels of an acceptor. -/
theorem says_required_acceptor {k : Stock} (h : k.keepsOutput = false) :
    Says k.packing.required .acceptor true := by
  revert h
  cases k <;> decide

/-- Dropped weights are those of a machine without weights. -/
theorem says_required_weighted {k : Stock} (h : k.keepsWeights = false) :
    Says k.packing.required .weighted false := by
  revert h
  cases k <;> decide

/-- Dropped next states are those of a string. -/
theorem says_required_string {k : Stock} (h : k.keepsTarget = false) :
    Says k.packing.required .string true := by
  revert h
  cases k <;> decide

theorem arity_cases (k : Stock) : k.packing.arity = .fixed 1 ∨ k.packing.arity = .indexed := by
  cases k with
  | string | weightedString => exact Or.inl rfl
  | unweightedAcceptor | acceptor | unweighted => exact Or.inr rfl

/-- Strings own one element for each state. -/
theorem arity_of_not_keepsTarget {k : Stock} (h : k.keepsTarget = false) :
    k.packing.arity = .fixed 1 := by
  revert h
  cases k <;> decide

end Transducer.Stock
