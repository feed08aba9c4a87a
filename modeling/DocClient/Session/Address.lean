/-!
Addresses of deployments: a scheme, the hosts, and after a slash the database and the options.
-/
namespace DocClient.Address

def fallbackDatabase : String := "test"

def after? : List Char → List Char → Option (List Char)
  | [], s => some s
  | _ :: _, [] => none
  | p :: ps, c :: cs => if p = c then after? ps cs else none

def withoutScheme (address : List Char) : List Char :=
  ((after? "mongodb://".toList address).or (after? "mongodb+srv://".toList address)).getD address

/-- The name between the first slash after the scheme and the question mark that begins the options. -/
def databaseName (address : String) : String :=
  match (withoutScheme address.toList).dropWhile (· ≠ '/') with
  | _ :: path =>
    match path.takeWhile (· ≠ '?') with
    | [] => fallbackDatabase
    | name => String.ofList name
  | [] => fallbackDatabase

def splitAt (separator : Char) : List Char → List (List Char)
  | [] => [[]]
  | c :: rest =>
    match splitAt separator rest with
    | [] => [[c]]
    | first :: others =>
      if c = separator then [] :: first :: others else (c :: first) :: others

/-- Whether digits give the number of a service at a host, from one to 65535. -/
def isServiceNumber (digits : List Char) : Bool :=
  let n := digits.foldl (fun n c => 10 * n + (c.toNat - 48)) 0
  !digits.isEmpty && digits.all Char.isDigit && 0 < n && n < 65536

/-- Whether a host has a name and, after a colon, a proper number. A name in brackets may hold colons. -/
def isHost (host : List Char) : Bool :=
  match host with
  | '[' :: rest => rest.contains ']'
  | host =>
    match splitAt ':' host with
    | [name] => !name.isEmpty
    | [name, number] => !name.isEmpty && isServiceNumber number
    | _ => false

def forbiddenInNames : List Char := ['/', '\\', ' ', '"', '$']

/-- The hosts of an address that is well formed. Options need a slash before them. -/
def hosts? (address : List Char) : Option (List (List Char)) := do
  let rest ← after? "mongodb://".toList address
  let authority := rest.takeWhile (· ≠ '/')
  let path := (rest.drop (authority.length + 1)).takeWhile (· ≠ '?')
  let hosts := splitAt ',' ((splitAt '@' authority).getLastD [])
  if hosts.all isHost && !authority.contains '?' && path.all (!forbiddenInNames.contains ·) then
    some hosts
  else none

end DocClient.Address
