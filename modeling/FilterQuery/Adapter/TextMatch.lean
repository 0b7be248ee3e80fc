import FilterQuery.Operand
import FilterQuery.Sql.Expr

namespace FilterQuery

inductive LikeStyle where
  -- LIKE and ILIKE.
  | native
  -- LIKE under the column's collation, both sides lowered when case is to be ignored.
  | lowered (escapeClause : Bool)
  -- GLOB where case counts, LIKE where it does not.
  | glob
  deriving DecidableEq, Repr

-- So escaped, a search string is found as it is.
def likeEscape (cs : List Char) : List Char :=
  cs.flatMap fun c => if c = '\\' ∨ c = '%' ∨ c = '_' ∨ c = '[' then ['\\', c] else [c]

def globEscapeChar (c : Char) : List Char :=
  if c = '*' ∨ c = '?' ∨ c = '[' then ['[', c, ']'] else [c]

def globEscape (cs : List Char) : List Char := cs.flatMap globEscapeChar

def likeToGlob (cs : List Char) : List Char :=
  cs.flatMap fun c => if c = '%' then ['*'] else if c = '_' then ['?'] else globEscapeChar c

def affixed (escaped any : List Char) : Operator → Option (List Char)
  | .startsWith => some (escaped ++ any)
  | .endsWith => some (any ++ escaped)
  | .includes => some (any ++ escaped ++ any)
  | _ => none

def affixPattern (op : Operator) (raw : List Char) : LikeStyle → Option (List Char)
  | .glob => affixed (globEscape raw) ['*'] op
  | _ => affixed (likeEscape raw) ['%'] op

def textParam (cs : List Char) : Expr := .value (.string (String.ofList cs))

def infixed (word : String) (col arg : Expr) : Expr := .template ⟨"", [word, ""]⟩ [col, arg]

def loweredMatch (word : String) (col arg : Expr) : Expr := .template ⟨"LOWER(", [word, ")"]⟩ [col, arg]

def affixMatch (col arg : Expr) : LikeStyle → Expr
  | .glob => infixed " GLOB " col arg
  | .lowered false => .binary col .like arg
  | _ => .template ⟨"", [" LIKE ", " ESCAPE '\\'"]⟩ [col, arg]

def patternMatch (col : Expr) (raw : List Char) : LikeStyle → Operator → Option Expr
  | .glob, .like => some (infixed " GLOB " col (textParam (likeToGlob raw)))
  | .glob, .nlike => some (infixed " NOT GLOB " col (textParam (likeToGlob raw)))
  | .glob, .ilike => some (.binary col .like (textParam raw))
  | .glob, .nilike => some (.binary col .notLike (textParam raw))
  | .native, .ilike => some (.binary col .ilike (textParam raw))
  | .native, .nilike => some (.binary col .notIlike (textParam raw))
  | .lowered _, .ilike => some (loweredMatch ") LIKE LOWER(" col (textParam raw))
  | .lowered _, .nilike => some (loweredMatch ") NOT LIKE LOWER(" col (textParam raw))
  | _, .like => some (.binary col .like (textParam raw))
  | _, .nlike => some (.binary col .notLike (textParam raw))
  | _, _ => none

def textMatch (col : Expr) (op : Operator) (raw : String) (style : LikeStyle) : Option Expr :=
  match affixPattern op raw.toList style with
  | some pattern => some (affixMatch col (textParam pattern) style)
  | none => patternMatch col raw.toList style op

def isTextMatch : Operator → Bool
  | .like | .nlike | .ilike | .nilike | .startsWith | .endsWith | .includes => true
  | _ => false

end FilterQuery
