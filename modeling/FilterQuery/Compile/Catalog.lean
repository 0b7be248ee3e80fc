import FilterQuery.Adapter.Basic

namespace FilterQuery

-- It answers only for the very definition it was derived from.
structure CatalogEntry where
  adapter : Adapter
  definition : Queryable
  fields : List Field
  derived : fields = adapter.fields definition

namespace CatalogEntry

def of (a : Adapter) (q : Queryable) : CatalogEntry := ⟨a, q, a.fields q, rfl⟩

def isAt (e : CatalogEntry) (a : Adapter) (id : String) : Bool := e.adapter == a && e.definition.id == id

end CatalogEntry

-- At most one entry for each adapter and id.
structure Catalog where
  entries : List CatalogEntry

namespace Catalog

def empty : Catalog := ⟨[]⟩

def get? (c : Catalog) (a : Adapter) (id : String) : Option CatalogEntry := c.entries.find? (·.isAt a id)

def fields (c : Catalog) (a : Adapter) (q : Queryable) : List Field :=
  match c.get? a q.id with
  | some e => if e.adapter = a ∧ e.definition = q then e.fields else a.fields q
  | none => a.fields q

-- The catalog after the fields of a definition were asked for.
def consult (c : Catalog) (a : Adapter) (q : Queryable) : Catalog :=
  match c.get? a q.id with
  | some e => if e.definition = q then c else ⟨c.entries.filter (!·.isAt a q.id) ++ [.of a q]⟩
  | none => ⟨c.entries ++ [.of a q]⟩

-- Forgets the id under every adapter.
def invalidate (c : Catalog) (id : String) : Catalog := ⟨c.entries.filter (·.definition.id != id)⟩

def size (c : Catalog) : Nat := c.entries.length

def isEmpty (c : Catalog) : Bool := c.entries.isEmpty

theorem fields_eq (c : Catalog) (a : Adapter) (q : Queryable) : c.fields a q = a.fields q := by
  unfold fields
  split
  · rename_i e _
    split
    · rename_i same
      rw [e.derived, same.1, same.2]
    · rfl
  · rfl

end Catalog
end FilterQuery
