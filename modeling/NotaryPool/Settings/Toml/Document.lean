import NotaryPool.Settings.Toml.Scalar

/-!
# TOML documents

A document is a sequence of lines: assignments, headers of tables, comments and blank lines.

* `Toml.quoted?`: a text in quotes;
* `Toml.keyPath?`: a dotted key;
* `Toml.value?`: a value;
* `Toml.parse?`: a whole document.

Each reader gives what it read and the text that follows it. Readers that call themselves get a
bound for the number of characters left.
-/

namespace NotaryPool.Toml

/-! ## Blanks -/

/-- Whether a character is a blank within a line. -/
def isBlank (c : Char) : Bool := c == ' ' || c == '\t'

/-- The text after blanks within a line. -/
def skipBlanks (cs : List Char) : List Char := cs.dropWhile isBlank

/-- Whether a character may stand in a comment or in quotes. -/
def isPrintable (c : Char) : Bool := c == '\t' || (decide (' ' ≤ c) && c != '\x7f')

/-- The text after the end of a line. -/
def newline? : List Char → Option (List Char)
  | '\n' :: rest => some rest
  | '\r' :: '\n' :: rest => some rest
  | _ => none

/-- The text after a comment, which stands before the end of the line. -/
def skipComment (cs : List Char) : List Char :=
  match cs with
  | '#' :: rest => rest.dropWhile isPrintable
  | _ => cs

/-- The text after blanks, comments and ends of lines. -/
def skipLines : (fuel : Nat) → List Char → List Char
  | 0, cs => cs
  | fuel + 1, cs =>
    let next := skipComment (skipBlanks cs)
    match newline? next with
    | some rest => skipLines fuel rest
    | none => next

/-! ## Quoted texts -/

/-- The character with a number given by hexadecimal digits, if it is one. -/
def unicode? (digits : List Char) : Option Char := do
  let (n, _) ← Scalar.digits? 16 (digits.filter (· != '_'))
  guard (digits.all (· != '_') && (n < 0xd800 || (0xdfff < n && n < 0x110000)))
  return Char.ofNat n

/-- The character that an escape stands for; the text begins behind the backslash. -/
def escape? : List Char → Option (Char × List Char)
  | 'b' :: rest => some ('\x08', rest)
  | 't' :: rest => some ('\t', rest)
  | 'n' :: rest => some ('\n', rest)
  | 'f' :: rest => some ('\x0c', rest)
  | 'r' :: rest => some ('\r', rest)
  | '"' :: rest => some ('"', rest)
  | '\\' :: rest => some ('\\', rest)
  | 'u' :: rest =>
    if rest.length < 4 then none else (unicode? (rest.take 4)).map (·, rest.drop 4)
  | 'U' :: rest =>
    if rest.length < 8 then none else (unicode? (rest.take 8)).map (·, rest.drop 8)
  | _ => none

/-- The kind of quotes: whether escapes count, and whether the text may have several lines. -/
structure Quotes where
  mark : Char
  escapes : Bool
  lines : Bool

/-- Whether a text begins with three quotation marks. -/
def closesLines (mark : Char) (cs : List Char) : Bool :=
  cs.length ≥ 3 && cs.take 3 == [mark, mark, mark]

/-- The text after a backslash at the end of a line, and after the blanks and lines behind it. -/
def skipContinuation? (cs : List Char) : Option (List Char) :=
  (newline? (skipBlanks cs)).map fun rest =>
    rest.dropWhile fun c => isBlank c || c == '\n' || c == '\r'

/-- The rest of a text in quotes, with the characters so far in reverse. -/
def quotedFrom (q : Quotes) :
    (fuel : Nat) → (soFar : List Char) → List Char → Option (String × List Char)
  | 0, _, _ => none
  | fuel + 1, soFar, cs =>
    match cs with
    | [] => none
    | c :: rest =>
      if c = q.mark then
        if !q.lines then some (String.ofList soFar.reverse, rest)
        else if closesLines q.mark cs then
          -- up to two of the marks before the closing three belong to the text
          let marks := (cs.takeWhile (· == q.mark)).length
          let inside := min (marks - 3) 2
          some (String.ofList ((List.replicate inside q.mark ++ soFar).reverse),
            cs.drop (inside + 3))
        else quotedFrom q fuel (c :: soFar) rest
      else if c = '\\' && q.escapes then
        match escape? rest with
        | some (e, rest) => quotedFrom q fuel (e :: soFar) rest
        | none =>
          match if q.lines then skipContinuation? rest else none with
          | some rest => quotedFrom q fuel soFar rest
          | none => none
      else if isPrintable c then quotedFrom q fuel (c :: soFar) rest
      else if q.lines then
        match newline? cs with
        | some rest => quotedFrom q fuel ('\n' :: soFar) rest
        | none => none
      else none

/-- A text in quotes of one line. -/
def quotedLine? (cs : List Char) : Option (String × List Char) :=
  match cs with
  | '"' :: rest => quotedFrom ⟨'"', true, false⟩ cs.length [] rest
  | '\'' :: rest => quotedFrom ⟨'\'', false, false⟩ cs.length [] rest
  | _ => none

/-- A text in quotes. A line that ends right behind the opening three marks is left out. -/
def quoted? (cs : List Char) : Option (String × List Char) :=
  let opened (q : Quotes) (rest : List Char) : Option (String × List Char) :=
    quotedFrom q (cs.length + 1) [] ((newline? rest).getD rest)
  match cs with
  | '"' :: '"' :: '"' :: rest => opened ⟨'"', true, true⟩ rest
  | '\'' :: '\'' :: '\'' :: rest => opened ⟨'\'', false, true⟩ rest
  | _ => quotedLine? cs

/-! ## Keys -/

/-- Whether a character may stand in a key without quotes. -/
def isBare (c : Char) : Bool := c.isAlphanum || c == '_' || c == '-'

/-- One part of a key. -/
def keyPart? (cs : List Char) : Option (String × List Char) :=
  match quotedLine? cs with
  | some read => some read
  | none =>
    let bare := cs.takeWhile isBare
    if bare.isEmpty then none else some (String.ofList bare, cs.dropWhile isBare)

/-- The parts of a dotted key. -/
def keyPath? : (fuel : Nat) → List Char → Option (List String × List Char)
  | 0, _ => none
  | fuel + 1, cs => do
    let (part, rest) ← keyPart? (skipBlanks cs)
    let rest := skipBlanks rest
    match rest with
    | '.' :: rest =>
      let (parts, rest) ← keyPath? fuel rest
      return (part :: parts, rest)
    | _ => return ([part], rest)

/-! ## Values -/

/-- Whether a character may stand in an unquoted value. -/
def isWord (c : Char) : Bool := isBare c || c == '+' || c == '.' || c == ':'

/-- An unquoted value. A date may be followed by a blank and a time. -/
def word? (cs : List Char) : Option (Value × List Char) :=
  let first := cs.takeWhile isWord
  let rest := cs.dropWhile isWord
  let joined :=
    match Scalar.date? first, rest with
    | some (_, []), ' ' :: d :: more =>
      if d.isDigit then some (first ++ ' ' :: (d :: more).takeWhile isWord, more.dropWhile isWord)
      else none
    | _, _ => none
  let (word, rest) := joined.getD (first, rest)
  (Scalar.parse? word).map (·, rest)

mutual

/-- A value. -/
def value? : (fuel : Nat) → List Char → Option (Value × List Char)
  | 0, _ => none
  | fuel + 1, cs =>
    match cs with
    | '"' :: _ => (quoted? cs).map fun (s, rest) => (.text s, rest)
    | '\'' :: _ => (quoted? cs).map fun (s, rest) => (.text s, rest)
    | '[' :: rest => items? fuel [] rest
    | '\x7b' :: rest =>
      match skipBlanks rest with
      | '\x7d' :: rest => some (.table .inlined [], rest)
      | _ => entries? fuel [] rest
    | _ => word? cs

/-- The rest of an array, with the items so far in reverse. -/
def items? : (fuel : Nat) → (soFar : List Value) → List Char → Option (Value × List Char)
  | 0, _, _ => none
  | fuel + 1, soFar, cs =>
    match skipLines cs.length cs with
    | ']' :: rest => some (.array soFar.reverse, rest)
    | cs =>
      match value? fuel cs with
      | none => none
      | some (item, rest) =>
        match skipLines rest.length rest with
        | ',' :: rest => items? fuel (item :: soFar) rest
        | ']' :: rest => some (.array (item :: soFar).reverse, rest)
        | _ => none

/-- The rest of a table in braces, with the entries so far. -/
def entries? : (fuel : Nat) → (soFar : Table) → List Char → Option (Value × List Char)
  | 0, _, _ => none
  | fuel + 1, soFar, cs =>
    match keyPath? cs.length cs with
    | some (path, '=' :: rest) =>
      match value? fuel (skipBlanks rest) with
      | none => none
      | some (value, rest) =>
        match Table.assign value path soFar, skipBlanks rest with
        | some table, ',' :: rest => entries? fuel table rest
        | some table, '\x7d' :: rest => some (.table .inlined table, rest)
        | _, _ => none
    | _ => none

end

/-! ## Lines -/

/-- The tables so far, and the path of the table that assignments go to. -/
structure State where
  root : Table
  path : List String

/-- Changes the table that assignments go to. -/
def State.assign (s : State) (path : List String) (value : Value) : Option State := do
  let root ← Table.descend (Table.assign value path) s.path s.root
  return { s with root }

/-- Makes the last table of a path the one that assignments go to. -/
def State.enter (s : State) (change : String → Table → Option Table) (path : List String) :
    Option State := do
  let key ← path.getLast?
  let root ← Table.descend (change key) path.dropLast s.root
  return ⟨root, path⟩

/-- An assignment or a header, and the text after it. -/
def statement? (s : State) (cs : List Char) : Option (State × List Char) :=
  match cs with
  | '[' :: '[' :: rest => do
    match ← keyPath? rest.length rest with
    | (path, ']' :: ']' :: rest) => return (← s.enter Table.openElement path, rest)
    | _ => none
  | '[' :: rest => do
    match ← keyPath? rest.length rest with
    | (path, ']' :: rest) => return (← s.enter Table.openTable path, rest)
    | _ => none
  | _ => do
    match ← keyPath? cs.length cs with
    | (path, '=' :: rest) =>
      let (value, rest) ← value? cs.length (skipBlanks rest)
      return (← s.assign path value, rest)
    | _ => none

/-- The statements of a document. Each ends with its line. -/
def statements? : (fuel : Nat) → State → List Char → Option State
  | 0, _, _ => none
  | fuel + 1, s, cs =>
    match skipLines (cs.length + 1) cs with
    | [] => some s
    | cs => do
      let (s, rest) ← statement? s cs
      let rest := skipComment (skipBlanks rest)
      match rest, newline? rest with
      | [], _ => some s
      | _, some rest => statements? fuel s rest
      | _, none => none

/-- The top table of a document. -/
def parse? (text : String) : Option Table :=
  let cs := text.toList
  let cs := if cs.head? = some '\ufeff' then cs.drop 1 else cs
  (statements? (cs.length + 1) ⟨[], []⟩ cs).map (·.root)

end NotaryPool.Toml
