import FilterQuery.Value.Basic

namespace FilterQuery

-- A value that is not null is bound, and its placeholder carries the number of values bound so far, counted from one.
-- Null is written out and binds nothing.
inductive Piece where
  | text (text : String)
  | space
  | value (value : Value)

structure Writer where
  sql : String
  values : List Value

namespace Writer

def empty : Writer := ⟨"", []⟩

def index (w : Writer) : Nat := w.values.length + 1

def push (w : Writer) (text : String) : Writer := { w with sql := w.sql ++ text }

-- A blank, unless the text is empty or ends in a blank or an opening parenthesis.
def space (w : Writer) : Writer :=
  match w.sql.toList.getLast? with
  | none => w
  | some c => if c = ' ' ∨ c = '(' then w else w.push " "

def keyword (w : Writer) (word : String) : Writer := w.space.push word

def value (placeholder : Nat → String) (w : Writer) (v : Value) : Writer :=
  if v.isNull then w.push "NULL" else ⟨w.sql ++ placeholder w.index, w.values ++ [v]⟩

def put (placeholder : Nat → String) (w : Writer) : Piece → Writer
  | .text t => w.push t
  | .space => w.space
  | .value v => w.value placeholder v

def putAll (placeholder : Nat → String) (pieces : List Piece) (w : Writer) : Writer :=
  pieces.foldl (put placeholder) w

end Writer

namespace Piece

def keyword (word : String) : List Piece := [space, text word]

-- A keyword and the value it introduces.
def bound (word : String) (v : Value) : List Piece := keyword word ++ [space, value v]

def separated (separator : String) : List (List Piece) → List Piece
  | [] => []
  | [pieces] => pieces
  | pieces :: rest => pieces ++ text separator :: separated separator rest

end Piece
end FilterQuery
