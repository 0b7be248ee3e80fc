import FilterQuery.Query.Predicate
import FilterQuery.Schema.Queryable
import FilterQuery.Search.Request
import FilterQuery.Settings.Basic
import FilterQuery.Sql.Render

namespace FilterQuery

inductive CompiledQuery where
  | sql (dialect : Dialect) (select : Select)
  | search (request : SearchRequest)

-- Text and parameters, ready to send.
structure RenderedQuery where
  text : String
  params : List Value

-- related.relatedKey = owner.ownerKey, by their bindings.
def correlation (parent binding : String) (link : Link) : Expr :=
  .binary (.column (some binding) link.relatedKey) .eq (.column (some parent) link.ownerKey)

-- A binding is what fields are addressed under, a table alias or a document path.
def searchField (binding column : String) : String :=
  if binding.isEmpty then column else binding ++ "." ++ column

def qualifier (binding : String) : Option String := if binding.isEmpty then none else some binding

-- The related value that a sort through a to-many association goes by.
def Direction.aggregate : Direction → String
  | asc => "MIN"
  | desc => "MAX"

def Direction.word : Direction → String
  | asc => "asc"
  | desc => "desc"

def missingMember : Nulls → List (String × Json)
  | .first => [("missing", .str "_first")]
  | .last => [("missing", .str "_last")]
  | .default => []

def sortEntry (field : String) (direction : Direction) (nulls : Nulls) (extra : List (String × Json)) : Json :=
  .single field (.obj (("order", .str direction.word) :: missingMember nulls ++ extra))

namespace CompiledQuery

def forQueryable (q : Queryable) : CompiledQuery :=
  match q.adapter.dialect? with
  | some d => sql d (Select.new q.source)
  | none => search (SearchRequest.new q.source)

def adapter : CompiledQuery → Adapter
  | sql d _ => d.adapter
  | search _ => .search

def kind : CompiledQuery → QueryKind
  | sql _ _ => .sql
  | search _ => .search

def select? : CompiledQuery → Option Select
  | sql _ s => some s
  | search _ => none

def request? : CompiledQuery → Option SearchRequest
  | search r => some r
  | sql _ _ => none

def rootBinding : CompiledQuery → String
  | sql _ s => s.binding
  | search _ => ""

-- The same path always has the same binding.
def bindingFor (q : CompiledQuery) (path : FieldPath) : String :=
  match q with
  | sql _ _ => path.joined "__"
  | search _ => path.dotted

-- None when the predicate is of the other kind.
def andPredicate? : CompiledQuery → Predicate → Option CompiledQuery
  | sql d s, .sql e => some (sql d (s.andWhere e))
  | search r, .search c => some (search (r.andFilter c))
  | _, _ => none

-- Documents embed their to-one targets, so only SQL has anything to join.
def bindToOne (q : CompiledQuery) (parent binding : String) (link : Link) (related : Queryable) : CompiledQuery :=
  match q with
  | sql d s => sql d (s.join ⟨.left, related.source, binding, correlation parent binding link⟩)
  | search r => search r

-- A fresh query over the related rows of a to-many association.
def openScope (q : CompiledQuery) (related : Queryable) (binding : String) : CompiledQuery :=
  match q with
  | sql d _ => sql d { Select.new related.source with binding, columns := [.template ⟨"1", []⟩ []] }
  | search _ => search (SearchRequest.new binding)

def closeSelect (s : Select) (parent binding : String) (link : Link) (mode : ToManyMode) (e : Expr) : Expr :=
  let correlated := s.andWhere (correlation parent binding link)
  match mode with
  | .anyMatch => .existsIn (correlated.andWhere e) false
  | .allMatch => .existsIn (correlated.andWhere e.violation) true

def closeNested (binding : String) (mode : ToManyMode) (c : Clause) : Clause :=
  match mode with
  | .anyMatch => .nested binding c
  | .allMatch => (Clause.nested binding c.negate).negate

-- All match when no related row violates the predicate, and unknown counts as a violation.
def closeScope? (scope : CompiledQuery) (parent binding : String) (link : Link) (predicate : Predicate)
    (mode : ToManyMode) : Option Predicate :=
  match scope, predicate with
  | sql _ s, .sql e => some (.sql (closeSelect s parent binding link mode e))
  | search _, .search c => some (.search (closeNested binding mode c))
  | _, _ => none

def pushOrder (q : CompiledQuery) (binding column : String) (direction : Direction) (nulls : Nulls) :
    CompiledQuery :=
  match q with
  | sql d s => sql d (s.orderBy ⟨.column (qualifier binding) column, direction, nulls⟩)
  | search r =>
    search { r with sort := r.sort ++ [sortEntry (searchField binding column) direction nulls []] }

def aggregateSelect (parent binding : String) (link : Link) (related : Queryable) (column : String)
    (direction : Direction) : Select :=
  Select.andWhere
    { Select.new related.source with
      binding
      columns := [.func direction.aggregate [.column (some binding) column]] }
    (correlation parent binding link)

-- Sorting by the least or greatest related value leaves one row per parent.
def pushAggregateOrder (q : CompiledQuery) (parent binding : String) (link : Link) (related : Queryable)
    (column : String) (direction : Direction) (nulls : Nulls) : CompiledQuery :=
  match q with
  | sql d s =>
    sql d (s.orderBy ⟨.scalar (aggregateSelect parent binding link related column direction), direction, nulls⟩)
  | search r =>
    let extra := [("mode", .str direction.aggregate.toLower), ("nested", .single "path" (.str binding))]
    search { r with sort := r.sort ++ [sortEntry (searchField binding column) direction nulls extra] }

def limit : CompiledQuery → Option Nat
  | sql _ s => s.limit
  | search r => r.size?

def offset : CompiledQuery → Option Nat
  | sql _ s => s.offset
  | search r => r.from?

def setLimit (q : CompiledQuery) (n : Option Nat) : CompiledQuery :=
  match q with
  | sql d s => sql d { s with limit := n }
  | search r => search { r with size? := n }

def setOffset (q : CompiledQuery) (n : Option Nat) : CompiledQuery :=
  match q with
  | sql d s => sql d { s with offset := n }
  | search r => search { r with from? := n }

def hasOrder : CompiledQuery → Bool
  | sql _ s => !s.orders.isEmpty
  | search r => !r.sort.isEmpty

def predicateCount : CompiledQuery → Nat
  | sql _ s => s.predicateCount
  | search r => r.leafCount

def joinCount : CompiledQuery → Nat
  | sql _ s => s.joinCount
  | search r => r.nestedCount

def render : CompiledQuery → RenderedQuery
  | sql d s => let w := s.build d; ⟨w.sql, w.values⟩
  | search r => ⟨r.text, []⟩

def beq : CompiledQuery → CompiledQuery → Bool
  | sql d s, sql d' s' => d == d' && s == s'
  | search r, search r' => r == r'
  | _, _ => false

instance : BEq CompiledQuery := ⟨beq⟩

end CompiledQuery
end FilterQuery
