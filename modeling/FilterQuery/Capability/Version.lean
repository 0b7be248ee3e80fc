import FilterQuery.Number.Reader
import FilterQuery.Text.DecimalDigit

namespace FilterQuery

-- The first two or three numbers of a text with points between them.
structure Version where
  major : Nat
  minor : Nat
  patch : Nat
  deriving DecidableEq, Repr

namespace Version

def atLeast (v : Version) (major minor patch : Nat) : Bool :=
  major < v.major || (major == v.major && (minor < v.minor || (minor == v.minor && patch ≤ v.patch)))

def text (v : Version) : String := toString v.major ++ "." ++ toString v.minor ++ "." ++ toString v.patch

-- The digit groups of one occurrence; the third may be missing.
structure Groups where
  major : List Char
  minor : List Char
  patch : Option (List Char)

def groupAfterPoint? : List Char → Option (List Char × List Char)
  | '.' :: rest =>
    let digits := rest.takeWhile isDecimalDigit
    if digits.isEmpty then none else some (digits, rest.dropWhile isDecimalDigit)
  | _ => none

def groupsHere? (cs : List Char) : Option Groups := do
  let major := cs.takeWhile isDecimalDigit
  if major.isEmpty then none
  let (minor, rest) ← groupAfterPoint? (cs.dropWhile isDecimalDigit)
  some ⟨major, minor, (groupAfterPoint? rest).map Prod.fst⟩

def find? : List Char → Option Groups
  | [] => none
  | c :: rest => groupsHere? (c :: rest) <|> find? rest

-- A group that is no 32-bit number spoils the whole, a later occurrence is not looked for.
def ofGroups? (g : Groups) : Option Version := do
  let major ← readWord32? g.major
  let minor ← readWord32? g.minor
  let patch ← match g.patch with
    | some digits => readWord32? digits
    | none => some 0
  some ⟨major, minor, patch⟩

def ofText? (raw : String) : Option Version := (find? raw.toList).bind ofGroups?

end Version
end FilterQuery
