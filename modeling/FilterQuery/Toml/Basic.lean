namespace FilterQuery

-- How a table came about, which settles who may add to it.
inductive TableOrigin where
  | header
  | implied
  | dotted
  | inline
  deriving DecidableEq, Repr

inductive Toml where
  | bool (value : Bool)
  | int (value : Int)
  | float (value : Float)
  -- A numeral without a value: too large, or digits that are none of its base.
  | numeral
  | str (value : String)
  -- A date, a time or both, by its text.
  | moment (text : String)
  | list (items : List Toml)
  | table (origin : TableOrigin) (members : List (String × Toml))
  | tables (rows : List Toml)

instance : Inhabited Toml := ⟨.table .header []⟩

abbrev TomlMembers := List (String × Toml)

namespace Toml

-- The members with one key changed; the change sees what is there now.
def alter (f : Option Toml → Option Toml) (key : String) : TomlMembers → Option TomlMembers
  | [] => do
    let value ← f none
    pure [(key, value)]
  | (k, v) :: rest =>
    if k = key then do
      let value ← f (some v)
      pure ((k, value) :: rest)
    else do
      let changed ← alter f key rest
      pure ((k, v) :: changed)

def fill (value : Toml) : Option Toml → Option Toml
  | none => some value
  | some _ => none

def alterLast (f : Toml → Option Toml) : List Toml → Option (List Toml)
  | [] => none
  | [row] => do
    let changed ← f row
    pure [changed]
  | row :: rest => do
    let changed ← alterLast f rest
    pure (row :: changed)

-- Dotted keys reach only into tables that dotted keys opened; on the way there may be implied ones and
-- the last rows of lists of tables.
def assign (key : String) (value : Toml) : List String → TomlMembers → Option TomlMembers
  | [], members => alter (fill value) key members
  | head :: rest, members => alter (reach rest) head members
where
  reach (rest : List String) : Option Toml → Option Toml
    | none => do
      let inner ← assign key value rest []
      pure (table .dotted inner)
    | some (table .dotted inner) => do
      let changed ← assign key value rest inner
      pure (table .dotted changed)
    | some (table .implied inner) =>
      if rest.isEmpty then none
      else do
        let changed ← assign key value rest inner
        pure (table .implied changed)
    | some (tables rows) =>
      if rest.isEmpty then none
      else do
        let changed ← alterLast (extend rest) rows
        pure (tables changed)
    | some _ => none
  extend (rest : List String) : Toml → Option Toml
    | table origin inner => do
      let changed ← assign key value rest inner
      pure (table origin changed)
    | _ => none

-- Changes the table that a header path leads to: of a list of tables, its last.
def within (f : TomlMembers → Option TomlMembers) : List String → TomlMembers → Option TomlMembers
  | [], members => f members
  | head :: rest, members => alter (step rest) head members
where
  step (rest : List String) : Option Toml → Option Toml
    | none => do
      let inner ← within f rest []
      pure (table .implied inner)
    | some (tables rows) => do
      let changed ← alterLast (enter rest) rows
      pure (tables changed)
    | some other => enter rest other
  enter (rest : List String) : Toml → Option Toml
    | table .inline _ => none
    | table origin inner => do
      let changed ← within f rest inner
      pure (table origin changed)
    | _ => none

def openTable : Option Toml → Option Toml
  | none => some (table .header [])
  | some (table .implied members) => some (table .header members)
  | some _ => none

def addRow : Option Toml → Option Toml
  | none => some (tables [table .header []])
  | some (tables rows) => some (tables (rows ++ [table .header []]))
  | some _ => none

mutual
-- Every numeral in it has a value.
def isReadable : Toml → Bool
  | numeral => false
  | list items => allReadable items
  | tables rows => allReadable rows
  | table _ members => membersReadable members
  | _ => true

def allReadable : List Toml → Bool
  | [] => true
  | t :: rest => t.isReadable && allReadable rest

def membersReadable : TomlMembers → Bool
  | [] => true
  | (_, t) :: rest => t.isReadable && membersReadable rest
end

def lookup (key : String) (members : TomlMembers) : Option Toml := List.lookup key members

end Toml
end FilterQuery
