import Persea.GuacamoleNames
import Persea.ProtocolInstruction

/-! Reading a Guacamole dump: `split_statements`, `extract_tuples`, `parse_tuple` and `unescape_sql`. -/

namespace Persea.Guacamole

open Base Base.Text Protocol

/-- `char::to_uppercase`, of which only the letters of ASCII are used. -/
structure Uppercase where
  upper : Char → Text
  upper_ascii : ∀ c, c.toNat < 128 → upper c = [c.toUpper]

def Uppercase.ascii : Uppercase := ⟨fun c => [c.toUpper], fun _ _ => rfl⟩

variable (u : Uppercase)

def toUppercase (s : Text) : Text := s.flatMap u.upper

inductive Within where
  | statement | quote | ident | lineComment | blockComment
deriving DecidableEq, Repr

def startsLineComment : Text → Bool
  | '-' :: after => after.head?.all fun c => c = ' ' || c = '\t' || c = '\r' || c = '\n'
  | _ => false

def pushStatement (current : Text) (statements : List Text) : List Text :=
  if trim current = [] then statements else current :: statements

def splitFrom : Within → Text → (current : Text) → List Text
  | _, [], current => pushStatement current []
  | .quote, [ch], current => pushStatement (current ++ [ch]) []
  | .quote, ch :: next :: rest, current =>
    if ch = '\\' then splitFrom .quote rest (current ++ [ch, next])
    else splitFrom (if ch = '\'' then .statement else .quote) (next :: rest) (current ++ [ch])
  | .ident, ch :: rest, current => splitFrom (if ch = '`' then .statement else .ident) rest (current ++ [ch])
  | .lineComment, ch :: rest, current =>
    -- the end of the line is read by the next turn of the outer loop
    if ch = '\n' then splitFrom .statement rest (current ++ [ch]) else splitFrom .lineComment rest current
  | .blockComment, [_], current => pushStatement current []
  | .blockComment, ch :: next :: rest, current =>
    if ch = '*' ∧ next = '/' then splitFrom .statement rest current
    else splitFrom .blockComment (next :: rest) current
  | .statement, [ch], current =>
    if ch = '#' ∨ ch = ';' then pushStatement current [] else pushStatement (current ++ [ch]) []
  | .statement, ch :: next :: rest, current =>
    if ch = '#' ∨ ch = '-' ∧ startsLineComment (next :: rest) then splitFrom .lineComment (next :: rest) current
    else if ch = '/' ∧ next = '*' then splitFrom .blockComment rest current
    else if ch = ';' then pushStatement current (splitFrom .statement (next :: rest) [])
    else
      splitFrom (if ch = '\'' then .quote else if ch = '`' then .ident else .statement) (next :: rest)
        (current ++ [ch])

def splitStatements (sql : Text) : List Text := splitFrom .statement sql []

example : splitStatements "a /* ; */;\n-- ;'\nb ';' `;`; # c" =
    ["a ", "\n\nb ';' `;`"] := by
  decide

def matchesInsert (line table : Text) : Bool :=
  let upper := toUppercase u line
  "INSERT INTO" <:+: upper ∧ ('`' :: table ++ ['`'] <:+: line ∨ ' ' :: toUppercase u table ++ [' '] <:+: upper ∨
      ' ' :: toUppercase u table ++ ['('] <:+: upper)

theorem matchesInsert_iff {u : Uppercase} {line table : Text} :
    matchesInsert u line table ↔ "INSERT INTO" <:+: toUppercase u line ∧
      ('`' :: table ++ ['`'] <:+: line ∨ ' ' :: toUppercase u table ++ [' '] <:+: toUppercase u line ∨
        ' ' :: toUppercase u table ++ ['('] <:+: toUppercase u line) := decide_eq_true_iff

def findText (needle : Text) : Text → Option Text
  | [] => if needle = [] then some [] else none
  | c :: rest => if needle <+: c :: rest then some [] else (findText needle rest).map (c :: ·)

/-- `&line[n..]` of a text in UTF-8, which panics inside a character and behind the end. -/
def dropBytes : (n : Nat) → Text → Option Text
  | n, [] => if n = 0 then some [] else none
  | n, c :: rest => if n = 0 then some (c :: rest) else if n < c.utf8Size then none else dropBytes (n - c.utf8Size) rest

/-- The variables of the loop of `extract_tuples`. In place of the offset `start` it is the text from there on that is
kept. -/
structure TupleScan where
  depth : Int
  inQuote : Bool
  escape : Bool
  start : Option Text
  results : List Text
deriving DecidableEq, Repr

def TupleScan.push (s : TupleScan) (ch : Char) : TupleScan := { s with start := s.start.map (· ++ [ch]) }

def TupleScan.step (s : TupleScan) (ch : Char) : TupleScan :=
  if s.escape then { s.push ch with escape := false }
  else if ch = '\\' ∧ s.inQuote then { s.push ch with escape := true }
  else if ch = '\'' then { s.push ch with inQuote := !s.inQuote }
  else if s.inQuote then s.push ch
  else if ch = '(' then
    if s.depth + 1 = 1 then { s with depth := s.depth + 1, start := some [] }
    else { s.push ch with depth := s.depth + 1 }
  else if ch = ')' then
    if s.depth - 1 = 0 then
      { s with depth := s.depth - 1, results := s.results ++ s.start.toList, start := none }
    else { s.push ch with depth := s.depth - 1 }
  else s.push ch

/-- The offset is found in the upper case of the statement and used in the statement itself. -/
def extractTuples (line : Text) : Option (List Text) :=
  match findText "VALUES" (toUppercase u line) with
  | none => some []
  | some before =>
    (dropBytes ((Utf8.encode before).length + 6) line).map fun rest =>
      (rest.foldl TupleScan.step ⟨0, false, false, none, []⟩).results

def tupleFrom : (inQuote escape : Bool) → (current : Text) → Text → List Text
  | _, _, current, [] => [trim current]
  | inQuote, escape, current, ch :: rest =>
    if escape then tupleFrom inQuote false (current ++ [ch]) rest
    else if ch = '\\' ∧ inQuote then tupleFrom inQuote true (current ++ [ch]) rest
    else if ch = '\'' then tupleFrom (!inQuote) false current rest
    else if ch = ',' ∧ ¬inQuote then trim current :: tupleFrom inQuote false [] rest
    else tupleFrom inQuote false (current ++ [ch]) rest

def parseTuple (tuple : Text) : List Text := tupleFrom false false [] tuple

def unescapeChar (c : Char) : Char :=
  if c = 'n' then '\n' else if c = 'r' then '\r' else if c = 't' then '\t' else if c = '0' then '\x00' else c

def unescapeSql : Text → Text
  | [] => []
  | ch :: rest =>
    if ch = '\\' then
      match rest with
      | [] => ['\\']
      | c :: rest => unescapeChar c :: unescapeSql rest
    else ch :: unescapeSql rest

example : (parseTuple "1,'it\\'s a, test', NULL").map unescapeSql = ["1", "it's a, test", "NULL"] := by decide +kernel

def parseNullableInt (s : Text) : Option Int := if eqIgnoreAsciiCase s "NULL" then none else parseI64 s

structure Parameter where
  connectionId : Int
  name : Text
  value : Text
deriving DecidableEq, Repr

def connectionTable : Text := "guacamole_connection"
def parameterTable : Text := "guacamole_connection_parameter"
def groupTable : Text := "guacamole_connection_group"

def statementRows {α : Type} (u : Uppercase) (wanted : Text → Bool) (row : List Text → Option α) (trimmed : Text) :
    Option (List α) :=
  if wanted trimmed then
    (extractTuples u trimmed).map fun tuples => tuples.filterMap fun tuple => row (parseTuple tuple)
  else some []

def parseTable {α : Type} (u : Uppercase) (wanted : Text → Bool) (row : List Text → Option α) (sql : Text) :
    Option (List α) :=
  ((splitStatements sql).mapM fun stmt => statementRows u wanted row (trim stmt)).map List.flatten

def connectionRow : List Text → Option Connection
  | id :: name :: parentId :: protocol :: _ =>
    (parseI64 id).map fun id => ⟨id, unescapeSql name, parseNullableInt parentId, unescapeSql protocol⟩
  | _ => none

def parameterRow : List Text → Option Parameter
  | id :: name :: value :: _ => (parseI64 id).map fun id => ⟨id, unescapeSql name, unescapeSql value⟩
  | _ => none

def groupRow : List Text → Option Group
  | id :: parentId :: name :: _ => (parseI64 id).map fun id => ⟨id, parseNullableInt parentId, unescapeSql name⟩
  | _ => none

def wantsConnections (line : Text) : Bool :=
  matchesInsert u line connectionTable && !matchesInsert u line parameterTable && !matchesInsert u line groupTable

def parseConnections (sql : Text) : Option (List Connection) := parseTable u (wantsConnections u) connectionRow sql

abbrev Parameters := Store Int (List (Text × Text))

def Parameters.push (results : Parameters) (p : Parameter) : Parameters :=
  results.insert p.connectionId ((results.lookup p.connectionId).getD [] ++ [(p.name, p.value)])

def parseParameters (sql : Text) : Option Parameters :=
  (parseTable u (matchesInsert u · parameterTable) parameterRow sql).map fun rows => rows.foldl Parameters.push ∅

def parseGroups (sql : Text) : Option (List Group) := parseTable u (matchesInsert u · groupTable) groupRow sql

end Persea.Guacamole
