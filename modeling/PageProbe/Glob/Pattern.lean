import PageProbe.Text.Bytes

/-!
A pattern is a text with wildcards: `?` for one byte, `*` for any bytes, slashes included, classes
such as `[a-z]`, alternatives such as `\x7ba,b\x7d`, and `**` for directories where it is a whole
component. A backslash takes the next character as it is.
-/

namespace PageProbe.Glob

/-- A piece of a pattern. -/
inductive Piece where
  | literal (c : Char)
  /-- One byte. -/
  | any
  /-- Any bytes. -/
  | many
  /-- One byte of the ranges, or one that is in none of them. -/
  | oneOf (negated : Bool) (ranges : List (Char × Char))
  /-- Directories before a name, or none. -/
  | leading
  /-- Everything below a directory. -/
  | trailing
  /-- A slash, or directories between two slashes. -/
  | between
  /-- One of several patterns, or nothing when there are none. -/
  | either (branches : List (List Piece))
deriving Repr, Inhabited

/-- Why a text is no pattern. -/
inductive PatternFault where
  | unclosedClass
  | reversedRange (first last : Char)
  | unopenedGroup
  | unclosedGroup
  | danglingEscape
deriving DecidableEq, Repr, Inhabited

def PatternFault.message : PatternFault → String
  | unclosedClass => "unclosed character class; missing ']'"
  | reversedRange a b =>
    "invalid range; '" ++ String.singleton a ++ "' > '" ++ String.singleton b ++ "'"
  | unopenedGroup =>
    "unopened alternate group; missing '\x7b' (maybe escape '\x7d' with '[\x7d]'?)"
  | unclosedGroup =>
    "unclosed alternate group; missing '\x7d' (maybe escape '\x7b' with '[\x7b]'?)"
  | danglingEscape => "dangling '\\'"

/-- A class as it is read: its ranges, the last one first, and whether a dash waits for the end of
    the last range. -/
private structure ClassState where
  ranges : List (Char × Char)
  inRange : Bool

namespace ClassState

private def add (s : ClassState) (c : Char) : Except PatternFault ClassState :=
  match s.inRange, s.ranges with
  | true, (a, _) :: rest =>
    if c < a then .error (.reversedRange a c) else .ok ⟨(a, c) :: rest, false⟩
  | _, ranges => .ok ⟨(c, c) :: ranges, false⟩

/-- The ranges in their order. A dash at the end stands for itself. -/
private def finish (s : ClassState) : List (Char × Char) :=
  (if s.inRange then ('-', '-') :: s.ranges else s.ranges).reverse

end ClassState

/-- The ranges of a class and what follows its closing bracket. At the front of a class a bracket or
    a dash stands for itself. -/
private def readRanges (first : Bool) (s : ClassState) :
    List Char → Except PatternFault (List (Char × Char) × List Char)
  | [] => .error .unclosedClass
  | c :: cs =>
    if c == ']' && !first then .ok (s.finish, cs)
    else if c == '-' && !first && !s.inRange then readRanges false { s with inRange := true } cs
    else (s.add c).bind fun s => readRanges false s cs

private theorem readRanges_length {first : Bool} {s : ClassState} {cs : List Char}
    {ranges : List (Char × Char)} {rest : List Char}
    (h : readRanges first s cs = .ok (ranges, rest)) : rest.length < cs.length := by
  induction cs generalizing first s with
  | nil => simp [readRanges] at h
  | cons c cs ih =>
    simp only [readRanges] at h
    split at h
    · simp only [Except.ok.injEq, Prod.mk.injEq] at h
      simp [h.2]
    · split at h
      · have := ih h
        simp only [List.length_cons]; omega
      · cases hs : s.add c with
        | error e => simp [hs, Except.bind] at h
        | ok t =>
          simp only [hs, Except.bind] at h
          have := ih h
          simp only [List.length_cons]; omega

/-- A class behind its opening bracket, and what follows it. -/
private def readClass (cs : List Char) : Except PatternFault (Piece × List Char) :=
  match cs with
  | '!' :: rest => (readRanges true ⟨[], false⟩ rest).map fun r => (.oneOf true r.1, r.2)
  | '^' :: rest => (readRanges true ⟨[], false⟩ rest).map fun r => (.oneOf true r.1, r.2)
  | rest => (readRanges true ⟨[], false⟩ rest).map fun r => (.oneOf false r.1, r.2)

private theorem readClass_length {cs : List Char} {p : Piece} {rest : List Char}
    (h : readClass cs = .ok (p, rest)) : rest.length < cs.length := by
  have shorter : ∀ (negated : Bool) (body : List Char),
      (readRanges true ⟨[], false⟩ body).map (fun r => (Piece.oneOf negated r.1, r.2)) =
        .ok (p, rest) → rest.length < body.length := by
    intro negated body hb
    cases hr : readRanges true ⟨[], false⟩ body with
    | error e => simp [hr, Except.map] at hb
    | ok r =>
      simp only [hr, Except.map, Except.ok.injEq, Prod.mk.injEq] at hb
      have := @readRanges_length _ _ _ r.1 r.2 hr
      rw [← hb.2]; exact this
  unfold readClass at h
  split at h
  · have := shorter true _ h
    simp only [List.length_cons]; omega
  · have := shorter true _ h
    simp only [List.length_cons]; omega
  · exact shorter false _ h

/-- A group of alternatives that is still open: its finished branches and its last one, all
    reversed. -/
private structure Group where
  finished : List (List Piece)
  current : List Piece

/-- What has been read: the pieces outside of all groups, reversed, and the open groups, innermost
    first. -/
private structure State where
  outer : List Piece
  groups : List Group

/-- Whether a branch has no text of its own. -/
private def isBlank (branch : List Piece) : Bool :=
  branch.all fun p => match p with
    | .either [] => true
    | _ => false

namespace State

private def current (s : State) : List Piece :=
  match s.groups with
  | [] => s.outer
  | g :: _ => g.current

private def setCurrent (s : State) (pieces : List Piece) : State :=
  match s.groups with
  | [] => { s with outer := pieces }
  | g :: rest => { s with groups := { g with current := pieces } :: rest }

private def push (s : State) (p : Piece) : State := s.setCurrent (p :: s.current)

private def openGroup (s : State) : State := { s with groups := ⟨[], []⟩ :: s.groups }

private def nextBranch (s : State) : State :=
  match s.groups with
  | [] => s.push (.literal ',')
  | g :: rest => { s with groups := ⟨g.current :: g.finished, []⟩ :: rest }

/-- Closes the innermost group. Its blank branches do not count. -/
private def closeGroup (s : State) : Except PatternFault State :=
  match s.groups with
  | [] => .error .unopenedGroup
  | g :: rest =>
    let branches := ((g.current :: g.finished).reverse.map List.reverse).filter (!isBlank ·)
    .ok ({ s with groups := rest }.push (.either branches))

/-- Two stars that are no component of their own. -/
private def pushStars (s : State) : State := (s.push .many).push .many

/-- A component of two stars takes the slash in front of it with it, and joins an earlier one. -/
private def pushDirs (s : State) (dirs : Piece) : State :=
  match s.current with
  | .leading :: _ => s
  | .trailing :: _ => s
  | _ :: rest => s.setCurrent (dirs :: rest)
  | [] => s

end State

/-- Reads a pattern; `before` is the character in front of it. -/
private def read (before : Option Char) (s : State) (cs : List Char) : Except PatternFault State :=
  match cs with
  | [] => .ok s
  | '?' :: rest => read (some '?') (s.push .any) rest
  | '*' :: '*' :: rest =>
    if s.current.isEmpty then
      match rest with
      | [] => .ok (s.push .leading)
      | '/' :: rest => read (some '/') (s.push .leading) rest
      | rest => read (some '*') s.pushStars rest
    else
      let atStart := before == some '/' ||
        (!s.groups.isEmpty && (before == some ',' || before == some '\x7b'))
      if atStart then
        match rest with
        | [] => .ok (s.pushDirs .trailing)
        | '/' :: rest => read (some '/') (s.pushDirs .between) rest
        | c :: rest =>
          let s := if !s.groups.isEmpty && (c == ',' || c == '\x7d') then s.pushDirs .trailing
            else s.pushStars
          read (some '*') s (c :: rest)
      else read (some '*') s.pushStars rest
  | '*' :: rest => read (some '*') (s.push .many) rest
  | '[' :: rest =>
    match _read : readClass rest with
    | .error e => .error e
    | .ok (p, rest) => read (some ']') (s.push p) rest
  | '\x7b' :: rest => read (some '\x7b') s.openGroup rest
  | '\x7d' :: rest =>
    match s.closeGroup with
    | .error e => .error e
    | .ok s => read (some '\x7d') s rest
  | ',' :: rest => read (some ',') s.nextBranch rest
  | '\\' :: rest =>
    match rest with
    | [] => .error .danglingEscape
    | c :: rest => read (some c) (s.push (.literal c)) rest
  | c :: rest => read (some c) (s.push (.literal c)) rest
termination_by cs.length
decreasing_by
  all_goals try (simp only [List.length_cons]; omega)
  have := readClass_length _read
  simp only [List.length_cons]; omega

/-- The pieces of a pattern. -/
def parse (pattern : String) : Except PatternFault (List Piece) :=
  match read none ⟨[], []⟩ pattern.toList with
  | .error e => .error e
  | .ok s => if s.groups.isEmpty then .ok s.outer.reverse else .error .unclosedGroup

end PageProbe.Glob
