import FilterQuery.Adapter.MsSql
import FilterQuery.Adapter.MySql
import FilterQuery.Adapter.Postgres
import FilterQuery.Adapter.SearchEngine
import FilterQuery.Adapter.Sqlite

namespace FilterQuery

-- The outcome of applying one operator; without a match the query is the one given.
inductive Dispatch where
  | applied (query : CompiledQuery)
  | noMatch (query : CompiledQuery)

def Dispatch.query : Dispatch → CompiledQuery
  | applied q => q
  | noMatch q => q

namespace Adapter

def handles (a : Adapter) (q : Queryable) : Bool := q.adapter == a

def semanticType (a : Adapter) (native : String) : Option SemanticType :=
  match a with
  | postgres | cockroachDb => Postgres.semanticType native
  | mySql => MySql.semanticType native
  | sqlite => Sqlite.semanticType native
  | msSql => MsSql.semanticType native
  | search => SearchEngine.semanticType native

def enumMembers (a : Adapter) (native : String) : Option (List String) :=
  match a with
  | mySql => MySql.enumMembers? native
  | _ => none

-- Members given with the queryable come before those of the native type.
def columnType (a : Adapter) (q : Queryable) (c : Column) : Option (SemanticType × Option (List String)) :=
  match q.enums.lookup c.name with
  | some members => some (.enum, some members)
  | none =>
    (a.semanticType c.nativeType).map fun ty => (ty, if ty = .enum then a.enumMembers c.nativeType else none)

-- A column of an unknown type is no field.
def columnField (a : Adapter) (q : Queryable) (c : Column) : Option Field :=
  (a.columnType q c).map fun (ty, members) =>
    { Field.scalar c.name ty with
      nullable := c.nullable
      enumMembers := members
      nativeType := some c.nativeType }

def fields (a : Adapter) (q : Queryable) : List Field :=
  q.columns.filterMap (a.columnField q) ++ q.associations.map fun r => Field.association r.name r.link

def implements (a : Adapter) (ty : SemanticType) (op : Operator) : Bool :=
  match a with
  | postgres => ty.candidates.contains op
  | cockroachDb | mySql => ty.candidates.contains op && op != .similar
  | sqlite => Sqlite.implements ty op
  | msSql => MsSql.implements ty op
  | search => SearchEngine.implements ty op

def requiredFeature (a : Adapter) (ty : SemanticType) (op : Operator) : Option Feature :=
  match a with
  | postgres => Postgres.geoFeature? ty op
  | cockroachDb => if op = .search then some .fullText else Postgres.geoFeature? ty op
  | mySql => MySql.requiredFeature? ty op
  | sqlite => Sqlite.requiredFeature? ty op
  | msSql => MsSql.requiredFeature? ty op
  | search => none

def operatorsFor (a : Adapter) (ty : SemanticType) : List Operator := ty.candidates.filter (a.implements ty)

def leaf (a : Adapter) (f : Field) (ty : SemanticType) (op : Operator) (operand : Operand)
    (options : ApplyOptions) : Option Predicate :=
  match a with
  | postgres | cockroachDb => (Postgres.leaf f ty op operand options).map .sql
  | mySql => (MySql.leaf f ty op operand options).map .sql
  | sqlite => (Sqlite.leaf f ty op operand options).map .sql
  | msSql => (MsSql.leaf f ty op operand options).map .sql
  | search => (SearchEngine.leaf f op operand options).map .search

def predicate? (a : Adapter) (f : Field) (op : Operator) (operand : Operand) (options : ApplyOptions) :
    Option Predicate :=
  match f.type? with
  | some ty => if a.implements ty op then a.leaf f ty op operand options else none
  | none => none

-- Without a binding of its own the field is taken at the root of the query.
def applyOperator (a : Adapter) (q : CompiledQuery) (f : Field) (op : Operator) (operand : Operand)
    (options : ApplyOptions) : Dispatch :=
  let bound := match options.binding with
    | some _ => options
    | none => options.bindTo q.rootBinding
  match a.predicate? f op operand bound with
  | none => .noMatch q
  | some p =>
    match q.andPredicate? p with
    | some narrowed => .applied narrowed
    | none => .noMatch q

end Adapter
end FilterQuery
