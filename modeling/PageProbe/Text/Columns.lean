namespace PageProbe.Text

/-- A text with blanks behind it up to a width, counted in characters. -/
def padRight (width : Nat) (s : String) : String :=
  String.ofList (s.toList ++ List.replicate (width - s.length) ' ')

/-- A text of exactly the given width, if that is at least three: what is too long is cut and ends
    with three points. -/
def fit (width : Nat) (s : String) : String :=
  if s.length > width then String.ofList (s.toList.take (width - 3)) ++ "..." else padRight width s

/-- `n` copies of a text. -/
def copies (n : Nat) (s : String) : String := String.join (List.replicate n s)

end PageProbe.Text
