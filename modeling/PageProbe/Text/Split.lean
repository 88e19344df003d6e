namespace PageProbe.Text

/-- The pieces of a text between the characters that `stop` tells, one more than there are of these.
    Pieces may be empty. -/
def split (stop : Char → Bool) : List Char → List (List Char)
  | [] => [[]]
  | c :: cs =>
    if stop c then [] :: split stop cs
    else match split stop cs with
      | [] => [[c]]
      | piece :: pieces => (c :: piece) :: pieces

@[simp] theorem split_ne_nil (stop : Char → Bool) (cs : List Char) : split stop cs ≠ [] := by
  cases cs with
  | nil => simp [split]
  | cons c cs => simp only [split]; split <;> (try split) <;> simp

/-- What stands before the first separator. -/
def upTo (stop : Char → Bool) (cs : List Char) : List Char := cs.takeWhile fun c => !stop c

/-- The last piece of a text. -/
def lastPiece (stop : Char → Bool) (cs : List Char) : List Char :=
  (cs.reverse.takeWhile fun c => !stop c).reverse

end PageProbe.Text
