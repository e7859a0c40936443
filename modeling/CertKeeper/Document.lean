/-!
# Documents

A `Document` is a tree of values as a file or a message holds it. The tree keeps apart
what readers of records have to tell apart: a quoted text is a text whatever it says,
an unquoted one may stand for nothing, and a marked one is said to do so.
-/

namespace CertKeeper

/-- A tree of values. -/
inductive Document where
  | null
  | number
  | plain (text : String)
  | marked (text : String)
  | text (text : String)
  | list (items : List Document)
  | map (fields : List (Document × Document))
  deriving Inhabited

namespace Document

/-- A word for nothing. -/
def isNullWord (text : String) : Bool :=
  text = "~" || text = "null" || text = "Null" || text = "NULL"

/-- The text of a document. -/
def asText? : Document → Option String
  | plain s | marked s | text s => some s
  | _ => none

/-- The items of a document. -/
def asList? : Document → Option (List Document)
  | list items => some items
  | _ => none

/-- What a document gives for an optional value: nothing if it says so, else what `read`
makes of it. -/
def asOptional? {α : Type} (read : Document → Option α) : Document → Option (Option α)
  | null => some none
  | plain s => if s.isEmpty || isNullWord s then some none else (read (plain s)).map some
  | marked s => if isNullWord s then some none else none
  | d => (read d).map some

/-- The value at a key that is given at most once. -/
def field? (name : String) : List (Document × Document) → Option (Option Document)
  | [] => some none
  | (key, value) :: rest =>
    match key.asText? with
    | none => none
    | some key =>
      if key = name then
        match field? name rest with
        | some none => some (some value)
        | _ => none
      else
        field? name rest

/-- The values of the fields of a record, in the order of their names, with nothing for
a field that is not given. A record may also be a list of the values of all its fields. -/
def record? (names : List String) : Document → Option (List (Option Document))
  | map fields => names.mapM (fun name => field? name fields)
  | list items => if items.length = names.length then some (items.map some) else none
  | _ => none

/-- The record of the given fields, without those that have no value. -/
def ofFields (fields : List (String × Option Document)) : Document :=
  map (fields.filterMap (fun p => p.2.map (fun value => (text p.1, value))))

end Document

end CertKeeper
