/-! Tables of a TOML document, and the rules by which its statements build them: what a name stands
for is said once, and how a table came about decides who may still add to it. -/
namespace Accounts

/-- How a table came about. -/
inductive Toml.Origin where
  /-- By its header, or as an element of an array of tables. -/
  | stated
  /-- On the way to a table that a header names. -/
  | implied
  /-- On the way to a value with a dotted name. -/
  | dotted
  /-- Between braces, where it is complete. -/
  | inline
  deriving DecidableEq, Repr

/-- A value of a TOML document. Of floats and dates nothing is kept. -/
inductive Toml where
  | string (s : String)
  | integer (n : Int)
  | boolean (b : Bool)
  | float
  /-- What looks like a number but is none, or is out of range. It may stand in a document as long
  as nobody looks at it. -/
  | unreadable
  | date
  | array (items : List Toml)
  | table (origin : Toml.Origin) (fields : List (String × Toml))
  /-- Tables that headers add to one by one. The last of them is the one that can be added to. -/
  | tables (earlier : List (List (String × Toml))) (last : List (String × Toml))

namespace Toml

/-- The fields of a table. -/
abbrev Fields := List (String × Toml)

mutual

/-- Whether all numbers in a value can be read. -/
def isReadable : Toml → Bool
  | .unreadable => false
  | .array items => areReadable items
  | .table _ fields => fieldsReadable fields
  | .tables earlier last => tablesReadable earlier && fieldsReadable last
  | _ => true

def areReadable : List Toml → Bool
  | [] => true
  | item :: rest => item.isReadable && areReadable rest

def fieldsReadable : List (String × Toml) → Bool
  | [] => true
  | (_, value) :: rest => value.isReadable && fieldsReadable rest

def tablesReadable : List (List (String × Toml)) → Bool
  | [] => true
  | fields :: rest => fieldsReadable fields && tablesReadable rest

end

/-- Replace the value of a name that is there. -/
def Fields.replace (name : String) (value : Toml) : Fields → Fields
  | [] => []
  | e :: rest => if e.1 = name then (name, value) :: rest else e :: Fields.replace name value rest

/-- Add a name that is new. -/
def Fields.add? (name : String) (value : Toml) (fields : Fields) : Option Fields :=
  if (fields.lookup name).isSome then none else some (fields ++ [(name, value)])

/-- A way through tables by their names. -/
abbrev Path := List String

/-- Whether a way may go through a table, where tables missing on it would be of origin `made`.
Dotted names stay out of what a header states. -/
def Origin.opensTo (made : Origin) : Origin → Bool
  | inline => false
  | stated => made != dotted
  | implied => true
  | dotted => true

/-- Change the table at the end of a way. Tables that are missing on the way are made, and a way
that reaches an array of tables goes on in the last of them. -/
def Fields.editAt? (made : Origin) (edit : Origin → Fields → Option (Origin × Fields)) :
    Path → Origin → Fields → Option (Origin × Fields)
  | [], origin, fields => edit origin fields
  | name :: path, origin, fields =>
    match fields.lookup name with
    | none =>
      match Fields.editAt? made edit path made [] with
      | some (o, inner) => some (origin, fields ++ [(name, .table o inner)])
      | none => none
    | some (.table o inner) =>
      if made.opensTo o then
        match Fields.editAt? made edit path o inner with
        | some (o', inner') => some (origin, fields.replace name (.table o' inner'))
        | none => none
      else none
    | some (.tables earlier last) =>
      match Fields.editAt? made edit path .stated last with
      | some (_, last') => some (origin, fields.replace name (.tables earlier last'))
      | none => none
    | some _ => none

/-- One statement of a document. -/
inductive Statement where
  /-- The header of a table. What follows belongs to the table. -/
  | header (path : Path) (name : String)
  /-- The header of a further element of an array of tables. -/
  | element (path : Path) (name : String)
  /-- A value and its name, which may be dotted. -/
  | assign (path : Path) (name : String) (value : Toml)

/-- Give a value its name in a table. A dotted name may only end in a table that dotted names
made. -/
def Fields.assign? (path : Path) (name : String) (value : Toml) (fields : Fields) :
    Option Fields :=
  (Fields.editAt? .dotted (fun origin inner =>
    if path = [] ∨ origin = .dotted then (inner.add? name value).map fun f => (origin, f)
    else none) path .stated fields).map Prod.snd

/-- State a table. It may be there already if nothing but longer headers implied it. -/
def Fields.header? (path : Path) (name : String) (fields : Fields) : Option Fields :=
  (Fields.editAt? .implied (fun origin inner =>
    match inner.lookup name with
    | none => some (origin, inner ++ [(name, .table .stated [])])
    | some (.table .implied within) => some (origin, inner.replace name (.table .stated within))
    | some _ => none) path .stated fields).map Prod.snd

/-- Add an empty table to an array of tables, which is there already or is new. -/
def Fields.element? (path : Path) (name : String) (fields : Fields) : Option Fields :=
  (Fields.editAt? .implied (fun origin inner =>
    match inner.lookup name with
    | none => some (origin, inner ++ [(name, .tables [] [])])
    | some (.tables earlier last) =>
      some (origin, inner.replace name (.tables (earlier ++ [last]) []))
    | some _ => none) path .stated fields).map Prod.snd

/-- Give a value its name in the table that the last header opened. -/
def Fields.assignIn? (opened : Path) (path : Path) (name : String) (value : Toml)
    (fields : Fields) : Option Fields :=
  (Fields.editAt? .implied (fun origin inner =>
    (inner.assign? path name value).map fun f => (origin, f)) opened .stated fields).map Prod.snd

/-- Carry out statements in turn, the first of them in the table at `opened`. -/
def Fields.perform? (fields : Fields) (opened : Path) : List Statement → Option Fields
  | [] => some fields
  | .header path name :: rest =>
    (fields.header? path name).bind fun f => f.perform? (path ++ [name]) rest
  | .element path name :: rest =>
    (fields.element? path name).bind fun f => f.perform? (path ++ [name]) rest
  | .assign path name value :: rest =>
    (fields.assignIn? opened path name value).bind fun f => f.perform? opened rest

/-- The table that statements build, unless one of them contradicts another. -/
def ofStatements? (statements : List Statement) : Option Fields :=
  Fields.perform? [] [] statements

/-- An inline table with the given values. -/
def inline? (values : List (Path × String × Toml)) : Option Toml :=
  (values.foldlM (fun (f : Fields) (path, name, value) => f.assign? path name value) []).map
    (.table .inline)

end Toml
end Accounts
