import EchoLoad.Numeral
/-!
The small parts of a TOML document: blanks, comments, line ends, keys and strings. Each reader
takes characters and gives what it read and the characters left, or nothing.
-/

namespace EchoLoad.Toml

def isBlank (c : Char) : Bool := c = ' ' || c = '\t'

/-- What a comment may hold, and a literal string apart from its quote. -/
def isPlain (c : Char) : Bool := c = '\t' || (32 ≤ c.toNat && c.toNat ≠ 127)

def isBareKey (c : Char) : Bool := c.isAlphanum || c = '_' || c = '-'

def skipBlanks (cs : List Char) : List Char := cs.dropWhile isBlank

def newline? : List Char → Option (List Char)
  | '\n' :: r => some r
  | '\r' :: '\n' :: r => some r
  | _ => none

def skipComment : List Char → Option (List Char)
  | [] => some []
  | '\n' :: r => some ('\n' :: r)
  | '\r' :: '\n' :: r => some ('\r' :: '\n' :: r)
  | c :: r => if isPlain c then skipComment r else none

/-- What may follow a header or a value: blanks, a comment, the line end. -/
def endOfLine (cs : List Char) : Option (List Char) := do
  let rest ← match skipBlanks cs with
    | '#' :: r => skipComment r
    | r => some r
  if rest = [] then some [] else newline? rest

/-- Skip blanks, comments and line ends between the elements of an array. -/
def skipGap : Bool → List Char → Option (List Char)
  | _, [] => some []
  | _, '\n' :: r => skipGap false r
  | _, '\r' :: '\n' :: r => skipGap false r
  | true, c :: r => if isPlain c then skipGap true r else none
  | false, c :: r =>
    if isBlank c then skipGap false r else if c = '#' then skipGap true r else some (c :: r)

def codePoint? (digits : List Char) : Option Char :=
  let n := Numeral.value 16 digits
  if digits.all (Numeral.isDigit 16) ∧ (n < 0xD800 ∨ (0xDFFF < n ∧ n < 0x110000)) then
    some (Char.ofNat n)
  else none

/-- A code point in this many hexadecimal digits. -/
def codePointOf? (count : Nat) (cs : List Char) : Option (Char × List Char) :=
  if cs.length < count then none else (codePoint? (cs.take count)).map (·, cs.drop count)

theorem codePointOf?_length {count : Nat} {cs r : List Char} {c : Char}
    (h : codePointOf? count cs = some (c, r)) : r.length ≤ cs.length := by
  unfold codePointOf? at h
  split at h
  · simp at h
  · obtain ⟨_, _, h⟩ := Option.map_eq_some_iff.1 h
    simp only [Prod.mk.injEq] at h
    simp [← h.2]

/-- The character that an escape stands for, behind its backslash. -/
def escape? : List Char → Option (Char × List Char)
  | 'b' :: r => some ('\x08', r)
  | 't' :: r => some ('\t', r)
  | 'n' :: r => some ('\n', r)
  | 'f' :: r => some ('\x0c', r)
  | 'r' :: r => some ('\r', r)
  | '"' :: r => some ('"', r)
  | '\\' :: r => some ('\\', r)
  | 'u' :: r => codePointOf? 4 r
  | 'U' :: r => codePointOf? 8 r
  | _ => none

theorem escape?_length {cs r : List Char} {c : Char} (h : escape? cs = some (c, r)) :
    r.length < cs.length := by
  unfold escape? at h
  split at h
  case h_8 => exact Nat.lt_succ_of_le (codePointOf?_length h)
  case h_9 => exact Nat.lt_succ_of_le (codePointOf?_length h)
  all_goals grind

/-- The rest of a quoted string on one line; what was read stands in reverse. -/
def quotedBody (read : List Char) (cs : List Char) : Option (List Char × List Char) :=
  match cs with
  | [] => none
  | '"' :: r => some (read.reverse, r)
  | '\\' :: r =>
    match _h : escape? r with
    | some (c, r') => quotedBody (c :: read) r'
    | none => none
  | c :: r => if isPlain c then quotedBody (c :: read) r else none
termination_by cs.length
decreasing_by
  · have := escape?_length _h
    simp only [List.length_cons]
    omega
  · simp

def literalBody : List Char → List Char → Option (List Char × List Char)
  | _, [] => none
  | read, '\'' :: r => some (read.reverse, r)
  | read, c :: r => if isPlain c then literalBody (c :: read) r else none

/-- The rest of a literal string over several lines. Up to two quotes may stand before the three
that close it. -/
def literalLinesBody : List Char → List Char → Option (List Char × List Char)
  | read, '\'' :: '\'' :: '\'' :: '\'' :: '\'' :: r => some (('\'' :: '\'' :: read).reverse, r)
  | read, '\'' :: '\'' :: '\'' :: '\'' :: r => some (('\'' :: read).reverse, r)
  | read, '\'' :: '\'' :: '\'' :: r => some (read.reverse, r)
  | read, '\n' :: r => literalLinesBody ('\n' :: read) r
  | read, '\r' :: '\n' :: r => literalLinesBody ('\n' :: read) r
  | read, c :: r => if isPlain c then literalLinesBody (c :: read) r else none
  | _, [] => none

/-- The text behind a backslash at the end of a line: the line end and all blanks and line ends
behind it are left out. -/
def joinedLine? (cs : List Char) : Option (List Char) :=
  (newline? (skipBlanks cs)).map fun r => r.dropWhile fun c => isBlank c || c = '\n' || c = '\r'

theorem joinedLine?_length {cs r : List Char} (h : joinedLine? cs = some r) :
    r.length < cs.length := by
  unfold joinedLine? at h
  cases hn : newline? (skipBlanks cs) with
  | none => simp [hn] at h
  | some r' =>
    simp only [hn, Option.map_some, Option.some.injEq] at h
    subst h
    have h1 : r'.length < (skipBlanks cs).length := by
      unfold newline? at hn
      split at hn <;> grind
    have h2 := (List.dropWhile_sublist isBlank (l := cs)).length_le
    have h3 := (List.dropWhile_sublist (fun c => isBlank c || c = '\n' || c = '\r')
      (l := r')).length_le
    simp only [skipBlanks] at h1
    omega

def quotedLinesBody (read : List Char) (cs : List Char) : Option (List Char × List Char) :=
  match cs with
  | '"' :: '"' :: '"' :: '"' :: '"' :: r => some (('"' :: '"' :: read).reverse, r)
  | '"' :: '"' :: '"' :: '"' :: r => some (('"' :: read).reverse, r)
  | '"' :: '"' :: '"' :: r => some (read.reverse, r)
  | '\n' :: r => quotedLinesBody ('\n' :: read) r
  | '\r' :: '\n' :: r => quotedLinesBody ('\n' :: read) r
  | '\\' :: r =>
    match _h : escape? r with
    | some (c, r') => quotedLinesBody (c :: read) r'
    | none =>
      match _h' : joinedLine? r with
      | some r' => quotedLinesBody read r'
      | none => none
  | c :: r => if isPlain c then quotedLinesBody (c :: read) r else none
  | [] => none
termination_by cs.length
decreasing_by
  · simp
  · simp only [List.length_cons]; omega
  · have := escape?_length _h
    simp only [List.length_cons]
    omega
  · have := joinedLine?_length _h'
    simp only [List.length_cons]
    omega
  · simp

/-- A line end right behind the opening quotes is left out. -/
def skipNewline (cs : List Char) : List Char := (newline? cs).getD cs

def string? : List Char → Option (String × List Char)
  | '"' :: '"' :: '"' :: r =>
    (quotedLinesBody [] (skipNewline r)).map fun (s, r) => (String.ofList s, r)
  | '"' :: r => (quotedBody [] r).map fun (s, r) => (String.ofList s, r)
  | '\'' :: '\'' :: '\'' :: r =>
    (literalLinesBody [] (skipNewline r)).map fun (s, r) => (String.ofList s, r)
  | '\'' :: r => (literalBody [] r).map fun (s, r) => (String.ofList s, r)
  | _ => none

/-- One part of a key: bare, or a string on one line. -/
def keyPart? (cs : List Char) : Option (String × List Char) :=
  match cs with
  | '"' :: r => (quotedBody [] r).map fun (s, r) => (String.ofList s, r)
  | '\'' :: r => (literalBody [] r).map fun (s, r) => (String.ofList s, r)
  | _ =>
    let part := cs.takeWhile isBareKey
    if part = [] then none else some (String.ofList part, cs.dropWhile isBareKey)

/-- The number of parts from which on a key is refused, and of values inside one another. -/
def depthLimit : Nat := 80

def keyParts : Nat → List Char → Option (List String × List Char)
  | 0, _ => none
  | n + 1, cs => do
    let (part, r) ← keyPart? (skipBlanks cs)
    match skipBlanks r with
    | '.' :: r =>
      let (parts, r) ← keyParts n r
      some (part :: parts, r)
    | r => some ([part], r)

def key? (cs : List Char) : Option (List String × List Char) := keyParts (depthLimit - 1) cs

end EchoLoad.Toml
