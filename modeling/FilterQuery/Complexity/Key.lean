import FilterQuery.Digest.Sha256
import FilterQuery.Query.Compiled

namespace FilterQuery

def paramsText (params : List Value) : String := (Json.arr (Value.listSerial params)).text

-- A null byte ends the name and the text.
def keyBytes (adapter : Adapter) (q : RenderedQuery) : List UInt8 :=
  adapter.name.toUTF8.toList ++ 0 :: q.text.toUTF8.toList ++ 0 :: (paramsText q.params).toUTF8.toList

def cacheKey (adapter : Adapter) (q : RenderedQuery) : String := Sha256.hex (Sha256.digest (keyBytes adapter q))

end FilterQuery
