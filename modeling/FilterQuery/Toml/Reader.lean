import FilterQuery.Toml.Scalar

namespace FilterQuery.Toml

def isSpace (c : Char) : Bool := c == ' ' || c == '\t'

def skipSpaces (cs : List Char) : List Char := cs.dropWhile isSpace

-- Of the control characters a text may hold only the tab.
def isPlain (c : Char) : Bool := c == '\t' || (32 ≤ c.toNat && c.toNat != 127)

-- What follows a line break; none when there is none.
def lineBreak? : List Char → Option (List Char)
  | '\n' :: rest => some rest
  | '\r' :: '\n' :: rest => some rest
  | _ => none

def dropComment : List Char → List Char
  | '#' :: rest => rest.dropWhile isPlain
  | cs => cs

-- The rest of a line that holds nothing more than a comment.
def endLine? (cs : List Char) : Option (List Char) :=
  match dropComment (skipSpaces cs) with
  | [] => some []
  | other => lineBreak? other

-- Spaces, comments and line breaks, as they may stand between values.
def skipGaps : Nat → List Char → List Char
  | 0, cs => cs
  | fuel + 1, cs =>
    match lineBreak? (dropComment (skipSpaces cs)) with
    | some rest => skipGaps fuel rest
    | none => dropComment (skipSpaces cs)

def readHex? : Nat → Nat → List Char → Option (Nat × List Char)
  | 0, n, cs => some (n, cs)
  | _ + 1, _, [] => none
  | count + 1, n, c :: rest => do
    let d ← hexDigit? c
    readHex? count (16 * n + d) rest

def charOf? (n : Nat) : Option Char := if h : n.isValidChar then some (Char.ofNatAux n h) else none

def readScalarValue? (digits : Nat) (cs : List Char) : Option (Char × List Char) := do
  let (n, rest) ← readHex? digits 0 cs
  let c ← charOf? n
  pure (c, rest)

def readEscape? : List Char → Option (Char × List Char)
  | 'b' :: rest => some (Char.ofNat 8, rest)
  | 't' :: rest => some ('\t', rest)
  | 'n' :: rest => some ('\n', rest)
  | 'f' :: rest => some (Char.ofNat 12, rest)
  | 'r' :: rest => some ('\r', rest)
  | 'e' :: rest => some (Char.ofNat 27, rest)
  | '"' :: rest => some ('"', rest)
  | '\\' :: rest => some ('\\', rest)
  | 'x' :: rest => readScalarValue? 2 rest
  | 'u' :: rest => readScalarValue? 4 rest
  | 'U' :: rest => readScalarValue? 8 rest
  | _ => none

-- Up to the closing quote, newest first.
def readBasic? : Nat → List Char → List Char → Option (String × List Char)
  | 0, _, _ => none
  | _, [], _ => none
  | fuel + 1, c :: rest, seen =>
    if c = '"' then some (String.ofList seen.reverse, rest)
    else if c = '\\' then do
      let (decoded, tail) ← readEscape? rest
      readBasic? fuel tail (decoded :: seen)
    else if isPlain c then readBasic? fuel rest (c :: seen)
    else none

def readLiteral? (cs : List Char) : Option (String × List Char) :=
  let body := cs.takeWhile fun c => c != '\'' && isPlain c
  match cs.drop body.length with
  | '\'' :: rest => some (String.ofList body, rest)
  | _ => none

-- Three quotes close; up to two more in front of them still belong to the text.
def closing? (quote : Char) (cs : List Char) : Option (List Char × List Char) :=
  let quotes := (cs.takeWhile (· == quote)).length
  if quotes < 3 then none
  else
    let own := min (quotes - 3) 2
    some (List.replicate own quote, cs.drop (own + 3))

def dropBlanks : List Char → List Char
  | '\r' :: '\n' :: rest => dropBlanks rest
  | c :: rest => if isSpace c || c == '\n' then dropBlanks rest else c :: rest
  | [] => []

-- Between three quotes; a backslash at the end of a line takes the blanks after it away.
def readLong? (quote : Char) : Nat → List Char → List Char → Option (String × List Char)
  | 0, _, _ => none
  | _, [], _ => none
  | fuel + 1, c :: rest, seen =>
    match closing? quote (c :: rest) with
    | some (own, tail) => some (String.ofList (seen.reverse ++ own), tail)
    | none =>
      match lineBreak? (c :: rest) with
      | some tail => readLong? quote fuel tail ('\n' :: seen)
      | none =>
        if c = '\\' && quote = '"' then
          match lineBreak? (skipSpaces rest) with
          | some tail => readLong? quote fuel (dropBlanks tail) seen
          | none => do
            let (decoded, tail) ← readEscape? rest
            readLong? quote fuel tail (decoded :: seen)
        else if isPlain c then readLong? quote fuel rest (c :: seen)
        else none

-- A line break right after the opening quotes is not part of the text.
def readLongFrom? (quote : Char) (cs : List Char) : Option (String × List Char) :=
  readLong? quote (cs.length + 1) ((lineBreak? cs).getD cs) []

def readText? : List Char → Option (String × List Char)
  | '"' :: '"' :: '"' :: rest => readLongFrom? '"' rest
  | '\'' :: '\'' :: '\'' :: rest => readLongFrom? '\'' rest
  | '"' :: rest => readBasic? (rest.length + 1) rest []
  | '\'' :: rest => readLiteral? rest
  | _ => none

def isBare (c : Char) : Bool := c.isAlphanum || c == '_' || c == '-'

def readKey? (cs : List Char) : Option (String × List Char) :=
  match cs with
  | '"' :: rest => readBasic? (rest.length + 1) rest []
  | '\'' :: rest => readLiteral? rest
  | _ =>
    let bare := cs.takeWhile isBare
    if bare.isEmpty then none else some (String.ofList bare, cs.drop bare.length)

-- How deep lists and inline tables go, and how many names a key has.
def deepest : Nat := 80

def readNames? : Nat → List Char → Option (List String × String × List Char)
  | 0, _ => none
  | room + 1, cs => do
    let (key, rest) ← readKey? (skipSpaces cs)
    match skipSpaces rest with
    | '.' :: more => do
      let (parents, last, tail) ← readNames? room more
      pure (key :: parents, last, tail)
    | tail => pure ([], key, tail)

-- A dotted key: the tables it leads through and, last, the key itself.
def readPath? (cs : List Char) : Option (List String × String × List Char) := readNames? deepest cs

-- What may part an unquoted value from the rest of its line.
def isBoundary (c : Char) : Bool :=
  isSpace c || c == '\n' || c == '\r' || c == '#' || c == ',' || c == '=' || c == '[' || c == ']' || c == '\x7b' ||
    c == '\x7d'

def isToken (c : Char) : Bool := !isBoundary c

-- A day may be parted from its time by one space.
def readToken? (cs : List Char) : Option (Toml × List Char) := do
  let token := cs.takeWhile isToken
  let rest := cs.drop token.length
  match readDay? token, rest with
  | some [], ' ' :: c :: more =>
    if isDigit c then do
      let clock := (c :: more).takeWhile isToken
      let value ← ofToken? (token ++ ' ' :: clock)
      pure (value, (c :: more).drop clock.length)
    else pure (moment (String.ofList token), rest)
  | _, _ => do
    let value ← ofToken? token
    pure (value, rest)

mutual
-- The room is for what may still be opened inside.
def readValue? : Nat → Nat → List Char → Option (Toml × List Char)
  | 0, _, _ => none
  | fuel + 1, room, cs =>
    match room, cs with
    | 0, '[' :: _ | 0, '\x7b' :: _ => none
    | room + 1, '[' :: rest => readItems? fuel room rest []
    | room + 1, '\x7b' :: rest => readMembers? fuel room rest []
    | _, '"' :: _ | _, '\'' :: _ => (readText? cs).map fun (s, rest) => (str s, rest)
    | _, _ => readToken? cs

-- The last item may be followed by a comma.
def readItems? : Nat → Nat → List Char → List Toml → Option (Toml × List Char)
  | 0, _, _, _ => none
  | fuel + 1, room, cs, seen =>
    match skipGaps cs.length cs with
    | ']' :: rest => some (list seen.reverse, rest)
    | item => do
      let (value, rest) ← readValue? fuel room item
      match skipGaps rest.length rest with
      | ',' :: tail => readItems? fuel room tail (value :: seen)
      | ']' :: tail => some (list (value :: seen).reverse, tail)
      | _ => none

def readMembers? : Nat → Nat → List Char → TomlMembers → Option (Toml × List Char)
  | 0, _, _, _ => none
  | fuel + 1, room, cs, members =>
    match skipGaps cs.length cs with
    | '\x7d' :: rest => some (table .inline members, rest)
    | pair => do
      let (grown, rest) ← readPair? fuel room pair members
      match skipGaps rest.length rest with
      | ',' :: tail => readMembers? fuel room tail grown
      | '\x7d' :: tail => some (table .inline grown, tail)
      | _ => none

-- Between braces the lines may break around the equals sign.
def readPair? : Nat → Nat → List Char → TomlMembers → Option (TomlMembers × List Char)
  | 0, _, _, _ => none
  | fuel + 1, room, cs, members => do
    let (parents, key, rest) ← readPath? cs
    match skipGaps rest.length rest with
    | '=' :: value => do
      let (value, tail) ← readValue? fuel room (skipGaps value.length value)
      let grown ← assign key value parents members
      pure (grown, tail)
    | _ => none
end

-- What has been built, and the table that pairs go to.
structure Document where
  root : TomlMembers
  current : List String

def Document.openHeader (d : Document) (parents : List String) (key : String) : Option Document := do
  let root ← within (alter openTable key) parents d.root
  pure ⟨root, parents ++ [key]⟩

def Document.openRow (d : Document) (parents : List String) (key : String) : Option Document := do
  let root ← within (alter addRow key) parents d.root
  pure ⟨root, parents ++ [key]⟩

def Document.pair (d : Document) (parents : List String) (key : String) (value : Toml) : Option Document := do
  let root ← within (assign key value parents) d.current d.root
  pure { d with root }

def readHeader? (d : Document) (cs : List Char) : Option (Document × List Char) :=
  match cs with
  | '[' :: rest => do
    let (parents, key, rest) ← readPath? rest
    let rest ← expectChar? ']' rest
    let rest ← expectChar? ']' rest
    let next ← d.openRow parents key
    pure (next, rest)
  | _ => do
    let (parents, key, rest) ← readPath? cs
    let rest ← expectChar? ']' rest
    let next ← d.openHeader parents key
    pure (next, rest)

def readStatement? (d : Document) (cs : List Char) : Option (Document × List Char) := do
  let (parents, key, rest) ← readPath? cs
  let rest ← expectChar? '=' rest
  let (value, rest) ← readValue? (rest.length + 1) deepest (skipSpaces rest)
  let next ← d.pair parents key value
  pure (next, rest)

def readLines? : Nat → Document → List Char → Option Document
  | 0, _, _ => none
  | fuel + 1, d, cs =>
    match skipGaps cs.length cs with
    | [] => some d
    | '[' :: rest => do
      let (next, rest) ← readHeader? d rest
      let rest ← endLine? rest
      readLines? fuel next rest
    | pair => do
      let (next, rest) ← readStatement? d pair
      let rest ← endLine? rest
      readLines? fuel next rest

-- A byte order mark in front is no part of the document.
def dropMark : List Char → List Char
  | '\ufeff' :: rest => rest
  | cs => cs

def ofText? (s : String) : Option Toml := do
  let cs := dropMark s.toList
  let d ← readLines? (cs.length + 1) ⟨[], []⟩ cs
  pure (table .header d.root)

end FilterQuery.Toml
