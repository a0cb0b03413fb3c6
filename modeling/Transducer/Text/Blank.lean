/-!
# Blank characters

The characters with the Unicode property `White_Space`, and the removal of them from both ends
of a text. Main statements: trimming leaves no blank at either end, and leaves a text alone
that has none there.
-/
namespace Transducer.Text

/-- The code points with the property `White_Space`. -/
def isBlank (c : Char) : Bool :=
  let n := c.toNat
  (0x09 ≤ n && n ≤ 0x0d) || n == 0x20 || n == 0x85 || n == 0xa0 || n == 0x1680
    || (0x2000 ≤ n && n ≤ 0x200a) || n == 0x2028 || n == 0x2029 || n == 0x202f
    || n == 0x205f || n == 0x3000

def dropTrailing (drop : Char → Bool) (text : List Char) : List Char :=
  (text.reverse.dropWhile drop).reverse

/-- The text without the blanks around it. -/
def trim (text : List Char) : List Char := dropTrailing isBlank (text.dropWhile isBlank)

theorem dropTrailing_eq_self {drop : Char → Bool} {text : List Char}
    (h : ∀ c ∈ text.getLast?, drop c = false) : dropTrailing drop text = text := by
  unfold dropTrailing
  rw [← List.head?_reverse] at h
  have kept : text.reverse.dropWhile drop = text.reverse := by
    cases reversed : text.reverse with
    | nil => rfl
    | cons c rest => rw [reversed] at h; exact List.dropWhile_cons_of_neg (by simp [h c rfl])
  rw [kept, List.reverse_reverse]

/-- A trimmed text does not begin with a blank. -/
theorem isBlank_head_trim {text : List Char} {c : Char} (h : c ∈ (trim text).head?) :
    isBlank c = false := by
  obtain ⟨dropped, whole⟩ := List.dropWhile_suffix (l := (text.dropWhile isBlank).reverse) isBlank
  have first : (text.dropWhile isBlank).head? = some c := by
    rw [← List.reverse_reverse (text.dropWhile isBlank), ← whole, List.reverse_append,
      List.head?_append]
    rw [trim, dropTrailing, Option.mem_def] at h
    rw [h, Option.some_or]
  have kept := List.head?_dropWhile_not isBlank text
  rwa [first] at kept

/-- A trimmed text does not end with a blank. -/
theorem isBlank_getLast_trim {text : List Char} {c : Char} (h : c ∈ (trim text).getLast?) :
    isBlank c = false := by
  rw [trim, dropTrailing, List.getLast?_reverse, Option.mem_def] at h
  have kept := List.head?_dropWhile_not isBlank (text.dropWhile isBlank).reverse
  rwa [h] at kept

/-- A text without blanks at its ends is trimmed already. -/
theorem trim_eq_self {text : List Char} (first : ∀ c ∈ text.head?, isBlank c = false)
    (last : ∀ c ∈ text.getLast?, isBlank c = false) : trim text = text := by
  have kept : text.dropWhile isBlank = text := by
    cases text with
    | nil => rfl
    | cons c rest => exact List.dropWhile_cons_of_neg (by simp [first c rfl])
  rw [trim, kept, dropTrailing_eq_self last]

theorem isBlank_of_isWhitespace {c : Char} (h : c.isWhitespace = true) : isBlank c = true := by
  simp only [Char.isWhitespace, Bool.or_eq_true, decide_eq_true_eq] at h
  rcases h with ((h | h) | h) | h <;> subst h <;> decide

end Transducer.Text
