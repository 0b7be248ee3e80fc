import FilterQuery.Schema.SemanticType
import FilterQuery.Text.Blank

namespace FilterQuery.NativeType

def afterLast (c : Char) (cs : List Char) : List Char := (cs.reverse.takeWhile (· != c)).reverse

def beforeLast (c : Char) (cs : List Char) : List Char := ((cs.reverse.dropWhile (· != c)).drop 1).reverse

-- Letter case and the blanks around a name do not count.
def normal (native : String) : List Char := lowerAscii (trim native.toList)

-- What stands from the first opening to the last closing parenthesis is cut out.
def withoutArguments (cs : List Char) : List Char :=
  if cs.contains '(' then
    trimEnd (cs.takeWhile (· != '(')) ++ (if cs.contains ')' then afterLast ')' cs else [])
  else cs

def base (native : String) : List Char := withoutArguments (normal native)

def stripSuffix? (ending cs : List Char) : Option (List Char) :=
  if ending.isSuffixOf cs then some (cs.take (cs.length - ending.length)) else none

def arrayMark : List Char := ['[', ']']

def element? (cs : List Char) : Option (List Char) := (stripSuffix? arrayMark cs).map trimEnd

def arrayOf (scalar : Option SemanticType) : Option SemanticType :=
  (scalar.bind ElementType.ofScalar?).map .array

-- The type named, or an array of it when the name ends in brackets.
def typeOf (scalar? : String → Option SemanticType) (cs : List Char) : Option SemanticType :=
  match element? cs with
  | some element => arrayOf (scalar? (String.ofList element))
  | none => scalar? (String.ofList cs)

end FilterQuery.NativeType
