import PropertyRisk.Text.Percent

/-!
# Request targets

A target is a path, a query after `?`, and a fragment after `#` that nobody
sees. A scheme and an authority may stand in front, and do not matter. A path
starts with one slash, written or not, unless both stand in front. Escapes in
the path are undone twice, those in the query once.
-/

namespace PropertyRisk.Http

/-- Take out the segments `.` and `..`, the latter with the one before. -/
def withoutDots (segments : List String) : List String :=
  segments.foldl (fun done segment =>
    if segment = "." then done
    else if segment = ".." then (if done = [""] then done else done.dropLast)
    else done ++ [segment]) []

/-- The scheme in front of a target, if there is one, and the rest. -/
def takeScheme (cs : List Char) : Option (List Char) × List Char :=
  match cs.span fun c => c.isAlphanum || c == '+' || c == '.' || c == '-' with
  | (c :: scheme, ':' :: rest) => if c.isAlpha then (some (c :: scheme), rest) else (none, cs)
  | ([], ':' :: rest) => (none, rest)
  | _ => (none, cs)

/-- The authority in front of a path, if there is one, and the rest. -/
def takeAuthority (cs : List Char) : Option (List Char) × List Char :=
  match cs with
  | '/' :: '/' :: rest => (some (rest.takeWhile (· != '/')), rest.dropWhile (· != '/'))
  | cs => (none, cs)

/-- Whether a port is a number or missing. -/
def isPort (authority : List Char) : Bool :=
  match (authority.reverse.takeWhile (· != '@')).reverse.dropWhile (· != ':') with
  | _ :: port => port.all Char.isDigit
  | [] => true

structure Target where
  path : String
  query : List (String × String)
deriving DecidableEq, Repr

namespace Target

/-- The longest target that is read. -/
def lengthLimit : Nat := 65536

/-- A control character of ASCII. -/
def isControl (c : Char) : Bool := c.toNat < 0x20 || c.toNat == 0x7f

/-- The path of a target, with its dots taken out. -/
def pathOf (path : List Char) : List Char :=
  ("/".intercalate (withoutDots ((String.ofList path).splitOn "/"))).toList

/-- Read a target. One that is too long, holds a control character, or has an
authority that is none cannot be read. -/
def read? (s : String) : Option Target :=
  if lengthLimit < s.length || s.toList.any isControl then none
  else
    let (scheme, rest) := takeScheme (s.toList.takeWhile (· != '#'))
    let (visible, query) := rest.span (· != '?')
    let (authority, path) := takeAuthority visible
    let isBare := scheme.isNone && authority.all List.isEmpty
    if !(authority.all isPort) || (isBare && ['/', '/'].isPrefixOf path) then none
    else
      let isWhole := scheme.isSome && !(authority.all List.isEmpty)
      let path := if isWhole && !path.isEmpty then path else '/' :: path.dropWhile (· == '/')
      some
        { path := Text.unescaped (Text.unescaped (pathOf path)).toList
          query := Text.readQuery (query.drop 1) }

/-- The value of a parameter; of several the last counts. -/
def parameter? (t : Target) (name : String) : Option String :=
  (t.query.reverse.find? (·.1 = name)).map (·.2)

end Target

end PropertyRisk.Http
