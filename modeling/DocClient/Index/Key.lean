import DocClient.Error

/-!
Sort and index fields in their short spelling: `name` or `+name` ascending, `-name` descending,
`@name` on a plane, `$kind:name` of a named kind. Main functions: `parseSortField`, `parseIndexKey` and
its inverse `indexFields`.
-/
namespace DocClient

def ascending : Bson := .int32 1

def descending : Bson := .int32 (-1)

def parseSortField (field : String) : Except Error (String × Bson) :=
  let (name, order) :=
    match field.toList with
    | '-' :: name => (name, descending)
    | '+' :: name => (name, ascending)
    | name => (name, ascending)
  if name.isEmpty then .error (.invalidArgument (.sortKey field))
  else .ok (String.ofList name, order)

/-- What stands before and after the first colon. -/
def splitAtColon (s : List Char) : Option (List Char × List Char) :=
  match s with
  | [] => none
  | c :: rest =>
    if c = ':' then some ([], rest)
    else (splitAtColon rest).map fun (before, after) => (c :: before, after)

def parseIndexField (field : String) : Except Error (String × Bson) :=
  match field.toList with
  | '$' :: special =>
    match splitAtColon special with
    | some (kind, name) =>
      if kind.isEmpty || name.isEmpty then .error (.invalidArgument (.indexKey field))
      else .ok (String.ofList name, .string (String.ofList kind))
    | none => .error (.invalidArgument (.indexKey field))
  | '@' :: c :: name => .ok (String.ofList (c :: name), .string "2d")
  | _ => parseSortField field

/-- Puts the fields of a list into a document, up to the first that is not well formed. -/
def collectFields (parse : String → Except Error (String × Bson)) :
    List String → Document → Except Error Document
  | [], keys => .ok keys
  | field :: rest, keys => do
    let (name, kind) ← parse field
    collectFields parse rest (keys.put name kind)

/-- The key document of an index, which must not be empty. -/
def parseIndexKey (key : List String) : Except Error Document := do
  let keys ← collectFields parseIndexField key .empty
  if keys.isEmpty then .error (.invalidArgument .emptyIndexKey) else .ok keys

def isDescending : Bson → Bool
  | .int32 n => n < 0
  | .int64 n => n < 0
  | .double d => d.isBelowZero
  | _ => false

/-- The short spellings of one entry of a key document. A text index lists its fields in its weights. -/
def indexFieldsOf (weights : Option Document) (name : String) (kind : Bson) : List String :=
  let plain :=
    match kind with
    | .string kind => ["$" ++ kind ++ ":" ++ name]
    | kind => if isDescending kind then ["-" ++ name] else [name]
  if name = "_fts" && kind = .string "text" then
    match weights with
    | some weights => weights.names.map ("$text:" ++ ·)
    | none => []
  else if name = "_ftsx" then []
  else plain

def indexFields (keys : Document) (weights : Option Document) : List String :=
  keys.fields.flatMap fun (name, kind) => indexFieldsOf weights name kind

end DocClient
