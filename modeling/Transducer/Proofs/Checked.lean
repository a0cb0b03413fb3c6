import Transducer.Label
/-!
# Checked steps

The steps of the library never fail: a look-up out of bounds gives nothing, a difference stops at
zero and numbers have no largest one. Where the library is run on words and arrays such a step would
be a fault. Here they are written out so that each says what its words and arrays allow; a
computation made of them that comes to a result, the same as without the checks, stays in bounds and
does not overflow.
-/
namespace Transducer

/-- What stops a computation on words and arrays. -/
inductive Trap where
  /-- A position outside an array. -/
  | index
  /-- A number outside its word. -/
  | overflow
  /-- A remainder by zero. -/
  | division
  /-- A symbol under the largest key, above which there is no next one. -/
  | lastKey
  deriving DecidableEq, Repr

/-- A result, unless a trap was met on the way to it. -/
abbrev Checked (α : Type) := Except Trap α

/-- Numbers in one word stay below this bound. -/
def wordLimit : Nat := 2 ^ (64 : Nat)

/-- Arrays take fewer bytes than this. -/
def arrayLimit : Nat := 2 ^ (63 : Nat)

theorem arrayLimit_lt_wordLimit : arrayLimit < wordLimit := by decide

namespace Checked

variable {α β : Type}

@[simp] theorem ok_bind (a : α) (f : α → Checked β) : (Except.ok a >>= f) = f a := rfl

@[simp] theorem pure_eq_ok (a : α) : (pure a : Checked α) = .ok a := rfl

/-- A number that must fit a word. -/
def word (n : Nat) : Checked Nat := if n < wordLimit then .ok n else .error .overflow

/-- The bytes of an array that is made room for. -/
def array (bytes : Nat) : Checked Nat := if bytes < arrayLimit then .ok bytes else .error .overflow

/-- A difference of words. -/
def minus (a b : Nat) : Checked Nat := if b ≤ a then .ok (a - b) else .error .overflow

def remainder (a b : Nat) : Checked Nat := if b = 0 then .error .division else .ok (a % b)

/-- The value at a position of an array. -/
def lookup (values : List α) (i : Nat) : Checked α :=
  match values[i]? with
  | some a => .ok a
  | none => .error .index

/-- The part of an array from one position up to another. -/
def part (values : List α) (start stop : Nat) : Checked (List α) :=
  if start ≤ stop ∧ stop ≤ values.length then .ok ((values.drop start).take (stop - start))
  else .error .index

/-- The number of the state after a state. -/
def following (s : StateId) : Checked StateId :=
  if s.toInt + 1 < 2147483648 then .ok (s + 1) else .error .overflow

theorem word_of_lt {n : Nat} (small : n < wordLimit) : word n = .ok n := if_pos small

theorem array_of_lt {bytes : Nat} (small : bytes < arrayLimit) : array bytes = .ok bytes :=
  if_pos small

theorem minus_of_le {a b : Nat} (le : b ≤ a) : minus a b = .ok (a - b) := if_pos le

theorem remainder_of_pos {a b : Nat} (positive : 0 < b) : remainder a b = .ok (a % b) :=
  if_neg (Nat.ne_of_gt positive)

theorem lookup_of_getElem? {values : List α} {i : Nat} {a : α} (here : values[i]? = some a) :
    lookup values i = .ok a := by
  unfold lookup
  rw [here]

theorem part_of_le {values : List α} {start stop : Nat} (h : start ≤ stop)
    (h' : stop ≤ values.length) :
    part values start stop = .ok ((values.drop start).take (stop - start)) := if_pos ⟨h, h'⟩

theorem following_of_lt {s : StateId} (small : s.toInt + 1 < 2147483648) :
    following s = .ok (s + 1) := if_pos small

theorem getElem?_of_lookup {values : List α} {i : Nat} {a : α} (found : lookup values i = .ok a) :
    values[i]? = some a := by
  unfold lookup at found
  split at found
  · rename_i b here
    cases found
    exact here
  · cases found

theorem exists_lookup (values : List α) {i : Nat} (inside : i < values.length) :
    ∃ a, values[i]? = some a ∧ lookup values i = .ok a :=
  ⟨values[i], List.getElem?_eq_getElem inside,
    lookup_of_getElem? (List.getElem?_eq_getElem inside)⟩

/-- Steps over a list that all succeed. -/
theorem mapM_of_forall {f : α → Checked β} {g : α → β} {values : List α}
    (h : ∀ a ∈ values, f a = .ok (g a)) : values.mapM f = .ok (values.map g) := by
  induction values with
  | nil => rfl
  | cons a values ih =>
    rw [List.mapM_cons, h a List.mem_cons_self, ok_bind,
      ih fun b later => h b (List.mem_cons_of_mem a later)]
    rfl

/-- A fold whose steps all succeed. -/
theorem foldlM_of_forall {f : β → α → Checked β} {g : β → α → β} {values : List α}
    (h : ∀ b, ∀ a ∈ values, f b a = .ok (g b a)) (b : β) :
    values.foldlM f b = .ok (values.foldl g b) := by
  induction values generalizing b with
  | nil => rfl
  | cons a values ih =>
    rw [List.foldlM_cons, h b a List.mem_cons_self, ok_bind,
      ih fun b c later => h b c (List.mem_cons_of_mem a later)]
    rfl

end Checked
end Transducer
