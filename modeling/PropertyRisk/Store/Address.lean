import PropertyRisk.Error
import PropertyRisk.Number.Reading
import PropertyRisk.Number.Whole
import PropertyRisk.Store.Path
import PropertyRisk.Text.Percent

/-!
# Addresses of databases

An address is a kind of database and `://`, possibly a host to log in at, then a
slash with the name of the database, and a query after `?`. Databases here are
files and have no host. One without a name, or with the name `:memory:`, is in
memory.
-/

namespace PropertyRisk

structure Address where
  kind : List String
  /-- Whether a host, a port, or someone to log in as is named. -/
  isRemote : Bool
  name : String
  query : List (String × String)
deriving DecidableEq, Repr

/-- Where a database is. -/
inductive Location
  /-- Of a database in memory that is not shared, every request sees its own. -/
  | inMemory (shared : Bool)
  | file (name : String)
  /-- No database can be opened there. -/
  | unreachable
deriving DecidableEq, Repr

namespace Address

/-- Who is to log in, up to `@`, and the rest: whether anyone is named. -/
def takeLogin (cs : List Char) : Bool × List Char :=
  let (front, rest) := cs.span fun c => c != ':' && c != '/'
  let byName : Bool × List Char :=
    match front.reverse.span (· != '@') with
    | (host, '@' :: name) => (!name.isEmpty, host.reverse ++ rest)
    | _ => (false, cs)
  match rest with
  | ':' :: more =>
    match more.span (· != '@') with
    | (password, '@' :: rest) => (!(front.isEmpty && password.isEmpty), rest)
    | _ => byName
  | _ => byName

/-- A port, which must be a number, and the rest: whether one is named. -/
def takePort : List Char → Except Fault (Bool × List Char)
  | ':' :: rest =>
    let (port, rest) := rest.span fun c => c != '/' && c != '?'
    if port.isEmpty then .ok (false, rest)
    else if (Number.readWhole? (String.ofList port)).isSome then .ok (true, rest)
    else .error .wrongContent
  | cs => .ok (false, cs)

def isKindChar (c : Char) : Bool := c.isAlphanum || c == '_' || c == '+'

def read (s : String) : Except Fault Address :=
  match s.toList.span isKindChar with
  | (c :: kind, ':' :: '/' :: '/' :: rest) =>
    let (hasLogin, rest) := takeLogin rest
    let (host, rest) := rest.span fun c => c != '/' && c != ':' && c != '?'
    match takePort rest with
    | .error fault => .error fault
    | .ok (hasPort, rest) =>
      let (name, rest) : List Char × List Char :=
        match rest with
        | '/' :: rest => rest.span (· != '?')
        | rest => ([], rest)
      let query : List Char :=
        match rest with
        | '?' :: query => query
        | _ => []
      .ok
        { kind := (String.ofList (c :: kind)).splitOn "+"
          isRemote := hasLogin || !host.isEmpty || hasPort
          name := Text.unescaped name
          query := (Text.readQuery query).filter (·.2 ≠ "") }
  | _ => .error .badAddress

/-- Kinds of databases that are known and not at hand, with their drivers. -/
def otherKinds : List (String × List String) :=
  [("sqlite", ["aiosqlite", "pysqlcipher"]),
    ("postgresql", ["psycopg2", "psycopg", "psycopg2cffi", "asyncpg", "pg8000"]),
    ("mysql", ["mysqldb", "pymysql", "mysqlconnector", "aiomysql", "asyncmy", "cymysql", "pyodbc"]),
    ("mariadb",
      ["mysqldb", "pymysql", "mysqlconnector", "aiomysql", "asyncmy", "cymysql", "pyodbc",
        "mariadbconnector"]),
    ("oracle", ["cx_oracle", "oracledb"]),
    ("mssql", ["pyodbc", "pymssql", "aioodbc"])]

/-- Check that databases of a kind can be opened. -/
def checkKind : List String → Except Fault Unit
  | ["sqlite"] | ["sqlite", "pysqlite"] | ["sqlite", "base"] => .ok ()
  | [kind] => .error (if (otherKinds.lookup kind).isSome then .missingDriver else .unknownDatabase)
  | [kind, driver] =>
    let drivers := (otherKinds.lookup kind).getD []
    .error (if drivers.contains driver then .missingDriver else .unknownDatabase)
  | _ => .error .wrongContent

/-- The value of a parameter; of several the last counts. -/
def parameter? (a : Address) (name : String) : Option String :=
  (a.query.reverse.find? (·.1 = name)).map (·.2)

def readWord? (s : String) : Option Bool :=
  let word := String.ofList ((Text.trim s).toList.map Char.toLower)
  if ["true", "yes", "on", "y", "t", "1"].contains word then some true
  else if ["false", "no", "off", "n", "f", "0"].contains word then some false
  else none

def checkParameter (a : Address) (name : String) (isReadable : String → Bool) :
    Except Fault Unit :=
  if (a.parameter? name).all isReadable then .ok () else .error .wrongContent

/-- Check that the parameters of an address can be read. -/
def checkParameters (a : Address) : Except Fault Unit := do
  let isWord (s : String) := (readWord? s).isSome
  let isWhole (s : String) := (Number.readWhole? s).isSome
  let isNumber (s : String) := (Number.read? (Text.trim s).toList).isSome
  a.checkParameter "uri" isWord
  a.checkParameter "timeout" isNumber
  a.checkParameter "detect_types" isWhole
  a.checkParameter "check_same_thread" isWord
  a.checkParameter "cached_statements" isWhole

/-- The location of a file with a given path. -/
def fileAt (path : String) : Except Fault Location :=
  if path.toList.contains (Char.ofNat 0) then .error .wrongContent
  else
    let place := Place.ofPath path
    if place.isTooLong then .ok .unreachable
    else
      match place with
      | ⟨some 0, [name]⟩ => .ok (.file name)
      | ⟨some 1, [name]⟩ => .ok (.file ("../" ++ name))
      | _ => .ok .unreachable

/-- The location that a name gives in the form `file:` with a path. -/
def locationOfFileName (a : Address) (rest : List Char) : Except Fault Location :=
  let path := Text.unescaped (rest.takeWhile fun c => c != '?' && c != '#')
  if path = "" || path = ":memory:" || a.parameter? "mode" = some "memory" then
    .ok (.inMemory false)
  else fileAt path

/-- Where the database of an address is. -/
def location (a : Address) : Except Fault Location := do
  if (a.parameter? "plugin").isSome then throw .unknownDatabase
  checkKind a.kind
  if a.isRemote then throw .badAddress
  a.checkParameters
  match ((a.parameter? "uri").bind readWord?).getD false, a.name.toList with
  | true, 'f' :: 'i' :: 'l' :: 'e' :: ':' :: rest => a.locationOfFileName rest
  | _, _ =>
    if a.name = "" || a.name = ":memory:" then return .inMemory false
    else fileAt a.name

end Address

/-- The location that an address names. -/
def Location.ofAddress (s : String) : Except Fault Location :=
  if s = "sqlite://" || s = "sqlite:///:memory:" then .ok (.inMemory true)
  else
    match Address.read s with
    | .ok a => a.location
    | .error fault => .error fault

end PropertyRisk
