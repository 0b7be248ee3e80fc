import FilterQuery.Schema.Adapter
import FilterQuery.Schema.Field

namespace FilterQuery

structure Column where
  name : String
  nativeType : String
  nullable : Bool
  deriving DecidableEq, Repr

structure Association where
  name : String
  link : Link
  deriving DecidableEq, Repr

structure Queryable where
  id : String
  source : String
  adapter : Adapter
  primaryKey : String
  columns : List Column
  associations : List Association
  -- Members of columns restricted by name, sorted by column.
  enums : List (String × List String)
  deriving DecidableEq, Repr

namespace Queryable

def new (id source : String) (adapter : Adapter) : Queryable := ⟨id, source, adapter, "id", [], [], []⟩

def withPrimaryKey (q : Queryable) (column : String) : Queryable := { q with primaryKey := column }

def withColumn (q : Queryable) (name nativeType : String) (nullable : Bool) : Queryable :=
  { q with columns := q.columns ++ [⟨name, nativeType, nullable⟩] }

def setEnum (column : String) (members : List String) :
    List (String × List String) → List (String × List String)
  | [] => [(column, members)]
  | (c, ms) :: rest =>
    if c = column then (column, members) :: rest
    else if column < c then (column, members) :: (c, ms) :: rest
    else (c, ms) :: setEnum column members rest

def withEnum (q : Queryable) (column : String) (members : List String) : Queryable :=
  { q with enums := setEnum column members q.enums }

def withLink (q : Queryable) (name : String) (link : Link) : Queryable :=
  { q with associations := q.associations ++ [⟨name, link⟩] }

-- The key that refers to the other side lies on this side.
def belongsTo (q : Queryable) (name target foreignKey : String) : Queryable :=
  q.withLink name ⟨target, .one, foreignKey, "id"⟩

def hasOne (q : Queryable) (name target foreignKey : String) : Queryable :=
  q.withLink name ⟨target, .one, q.primaryKey, foreignKey⟩

def hasMany (q : Queryable) (name target foreignKey : String) : Queryable :=
  q.withLink name ⟨target, .many, q.primaryKey, foreignKey⟩

end Queryable
end FilterQuery
