import Persea.BaseTomlTable

/-! TOML texts read as statements, one character after the other. A text that stops between two statements can be
followed by any other: the statements are then those of the one and of the other. -/

namespace Base.Toml

/-- What the grammar of documents rests on: which words are numbers, booleans, dates or times, and the line break that
a `\r\n` within a string of several lines stands for, which is left to the reader. -/
structure Reader where
  scalar : Text → Bool
  lineBreak : Text
  scalar_decimal : ∀ n < 2 ^ 63, scalar (Text.decimal n) = true

variable (c : Char)

def isBlank : Bool := c = ' ' || c = '\t'

def isBare : Bool := c.isAlphanum || c = '_' || c = '-'

def isToken : Bool := isBare c || c = '+' || c = '.' || c = ':'

def isPlain : Bool := c = '\t' || (0x20 ≤ c.toNat && c.toNat ≠ 0x7f)

/-- A date, which a space and a time may follow. -/
def isDate : Text → Bool
  | [a, b, c, d, x, e, f, y, g, h] => x = '-' && y = '-' && [a, b, c, d, e, f, g, h].all Char.isDigit
  | _ => false

def hexValue : Option Nat :=
  if c.isDigit then some (c.toNat - 48)
  else if 97 ≤ c.toNat ∧ c.toNat ≤ 102 then some (c.toNat - 87)
  else if 65 ≤ c.toNat ∧ c.toNat ≤ 70 then some (c.toNat - 55)
  else none

def unescape : Option Char :=
  if c = 'b' then some '\x08'
  else if c = 't' then some '\t'
  else if c = 'n' then some '\n'
  else if c = 'f' then some '\x0c'
  else if c = 'r' then some '\r'
  else if c = 'e' then some '\x1b'
  else if c = '"' ∨ c = '\\' then some c
  else none

inductive Quote
  | basic
  | literal
  deriving DecidableEq

def Quote.mark : Quote → Char
  | .basic => '"'
  | .literal => '\''

inductive Context
  | statement (path : List Text) (key : Text)
  | array (items : List Node) (outer : Context)
  | pair (entries : Table) (path : List Text) (key : Text) (outer : Context)

inductive Place
  | statement
  | header
  | tables
  | pair (entries : Table) (outer : Context)

inductive Body
  | key (place : Place) (path : List Text)
  | line (ctx : Context)
  | multi (ctx : Context)

inductive Mode
  | start
  | lineEnd
  | element (items : List Node) (outer : Context)
  | afterElement (items : List Node) (outer : Context)
  | pair (entries : Table) (outer : Context)
  | afterPair (entries : Table) (outer : Context)
  | comment (back : Mode)
  | carriageReturn (back : Mode)
  | bracket
  | key (place : Place) (path : List Text)
  | bare (place : Place) (path : List Text) (word : Text)
  | keyEnd (place : Place) (path : List Text) (key : Text)
  | tablesEnd (path : List Text) (key : Text)
  | value (ctx : Context)
  | token (ctx : Context) (word : Text)
  /-- After a date and a space. -/
  | date (ctx : Context) (word : Text)
  | quote (ctx : Context) (q : Quote)
  | twoQuotes (ctx : Context) (q : Quote)
  | text (body : Body) (q : Quote) (word : Text)
  | multiOpen (ctx : Context) (q : Quote)
  /-- In a string of several lines, after some quotation marks that may end it. -/
  | multi (ctx : Context) (q : Quote) (word : Text) (marks : Nat)
  | escape (body : Body) (word : Text)
  | hex (body : Body) (word : Text) (left code : Nat)
  /-- After a backslash and blanks, with the line break to come, and then at the blanks that are skipped. -/
  | foldStart (ctx : Context) (word : Text)
  | fold (ctx : Context) (word : Text)

abbrev Next := Option (Mode × List Statement)

def Mode.go (m : Mode) : Next := some (m, [])

def finish : Context → Node → Next
  | .statement path key, node => some (.lineEnd, [.assign path key node])
  | .array items outer, node => (Mode.afterElement (items ++ [node]) outer).go
  | .pair entries path key outer, node =>
    (insert path key node entries).bind fun entries => (Mode.afterPair entries outer).go

def after : Mode → Char → Next
  | .lineEnd, c =>
    if isBlank c then Mode.lineEnd.go else if c = '#' then (Mode.comment .lineEnd).go else none
  | .afterElement items outer, c =>
    if isBlank c then (Mode.afterElement items outer).go
    else if c = '#' then (Mode.comment (.afterElement items outer)).go
    else if c = ',' then (Mode.element items outer).go
    else if c = ']' then finish outer (.array items)
    else none
  | .afterPair entries outer, c =>
    if isBlank c then (Mode.afterPair entries outer).go
    else if c = '#' then (Mode.comment (.afterPair entries outer)).go
    else if c = ',' then (Mode.pair entries outer).go
    else if c = '}' then finish outer (.inline entries)
    else none
  | _, _ => none

def lineAfter : Mode → Next
  | .start => Mode.start.go
  | .lineEnd => Mode.start.go
  | .element items outer => (Mode.element items outer).go
  | .afterElement items outer => (Mode.afterElement items outer).go
  | .pair entries outer => (Mode.pair entries outer).go
  | .afterPair entries outer => (Mode.afterPair entries outer).go
  | _ => none

def Next.andThen (r : Next) (next : Mode → Next) : Next :=
  r.bind fun (m, out) => (next m).map fun (m, more) => (m, out ++ more)

def startValue (ctx : Context) (c : Char) : Next :=
  if c = '"' then (Mode.quote ctx .basic).go
  else if c = '\'' then (Mode.quote ctx .literal).go
  else if c = '[' then (Mode.element [] ctx).go
  else if c = '{' then (Mode.pair Table.empty ctx).go
  else if isToken c then (Mode.token ctx [c]).go
  else none

variable (R : Reader)

def Reader.finishToken (ctx : Context) (word : Text) : Next :=
  if R.scalar word then finish ctx (.scalar word) else none

def startKey (place : Place) (path : List Text) (c : Char) : Next :=
  if c = '"' then (Mode.text (.key place path) .basic []).go
  else if c = '\'' then (Mode.text (.key place path) .literal []).go
  else if isBare c then (Mode.bare place path [c]).go
  else none

def afterKey (place : Place) (path : List Text) (key : Text) (c : Char) : Next :=
  if isBlank c then (Mode.keyEnd place path key).go
  else if c = '.' then (Mode.key place (path ++ [key])).go
  else match place with
    | .statement => if c = '=' then (Mode.value (.statement path key)).go else none
    | .pair entries outer => if c = '=' then (Mode.value (.pair entries path key outer)).go else none
    | .header => if c = ']' then some (.lineEnd, [.header path key]) else none
    | .tables => if c = ']' then (Mode.tablesEnd path key).go else none

def Body.resume : Body → Text → Mode
  | .multi ctx, word => .multi ctx .basic word 0
  | body, word => .text body .basic word

def Body.finish : Body → Text → Next
  | .key place path, word => (Mode.keyEnd place path word).go
  | .line ctx, word => Toml.finish ctx (.text word)
  | .multi _, _ => none

def Body.char (body : Body) (q : Quote) (word : Text) (c : Char) : Next :=
  if c = q.mark then body.finish word
  else if q = .basic ∧ c = '\\' then (Mode.escape body word).go
  else if isPlain c then (Mode.text body q (word ++ [c])).go
  else none

def multiChar (ctx : Context) (q : Quote) (word : Text) (c : Char) : Next :=
  if c = q.mark then (Mode.multi ctx q word 1).go
  else if q = .basic ∧ c = '\\' then (Mode.escape (.multi ctx) word).go
  else if isPlain c then (Mode.multi ctx q (word ++ [c]) 0).go
  else none

def Body.escaped (body : Body) (word : Text) (c : Char) : Next :=
  match unescape c with
  | some d => (body.resume (word ++ [d])).go
  | none =>
    if c = 'x' then (Mode.hex body word 2 0).go
    else if c = 'u' then (Mode.hex body word 4 0).go
    else if c = 'U' then (Mode.hex body word 8 0).go
    else match body with
      | .multi ctx => if isBlank c then (Mode.foldStart ctx word).go else none
      | _ => none

def Body.hexDigit (body : Body) (word : Text) (left code : Nat) (c : Char) : Next :=
  (hexValue c).bind fun digit =>
    let code := code * 16 + digit
    if 1 < left then (Mode.hex body word (left - 1) code).go
    else if code.isValidChar then (body.resume (word ++ [Char.ofNat code])).go
    else none

def Reader.char (R : Reader) : Mode → Char → Next
  | .start, c =>
    if isBlank c then Mode.start.go
    else if c = '#' then (Mode.comment .start).go
    else if c = '[' then Mode.bracket.go
    else startKey .statement [] c
  | .lineEnd, c => after .lineEnd c
  | .element items outer, c =>
    if isBlank c then (Mode.element items outer).go
    else if c = '#' then (Mode.comment (.element items outer)).go
    else if c = ']' then finish outer (.array items)
    else startValue (.array items outer) c
  | .afterElement items outer, c => after (.afterElement items outer) c
  | .pair entries outer, c =>
    if isBlank c then (Mode.pair entries outer).go
    else if c = '#' then (Mode.comment (.pair entries outer)).go
    else if c = '}' then finish outer (.inline entries)
    else startKey (.pair entries outer) [] c
  | .afterPair entries outer, c => after (.afterPair entries outer) c
  | .comment back, c => if isPlain c then (Mode.comment back).go else none
  | .carriageReturn _, _ => none
  | .bracket, c =>
    if c = '[' then (Mode.key .tables []).go
    else if isBlank c then (Mode.key .header []).go
    else startKey .header [] c
  | .key place path, c => if isBlank c then (Mode.key place path).go else startKey place path c
  | .bare place path word, c =>
    if isBare c then (Mode.bare place path (word ++ [c])).go else afterKey place path word c
  | .keyEnd place path key, c => afterKey place path key c
  | .tablesEnd path key, c => if c = ']' then some (.lineEnd, [.tables path key]) else none
  | .value ctx, c => if isBlank c then (Mode.value ctx).go else startValue ctx c
  | .token ctx word, c =>
    if isToken c then (Mode.token ctx (word ++ [c])).go
    else if c = ' ' ∧ isDate word then (Mode.date ctx word).go
    else (R.finishToken ctx word).andThen (after · c)
  | .date ctx word, c =>
    if c.isDigit then (Mode.token ctx (word ++ [' ', c])).go
    else (R.finishToken ctx word).andThen (after · c)
  | .quote ctx q, c =>
    if c = q.mark then (Mode.twoQuotes ctx q).go else (Body.line ctx).char q [] c
  | .twoQuotes ctx q, c =>
    if c = q.mark then (Mode.multiOpen ctx q).go else (finish ctx (.text [])).andThen (after · c)
  | .text body q word, c => body.char q word c
  | .multiOpen ctx q, c => multiChar ctx q [] c
  | .multi ctx q word marks, c =>
    if c = q.mark then if marks < 5 then (Mode.multi ctx q word (marks + 1)).go else none
    else if marks < 3 then multiChar ctx q (word ++ List.replicate marks q.mark) c
    else (finish ctx (.text (word ++ List.replicate (marks - 3) q.mark))).andThen (after · c)
  | .escape body word, c => body.escaped word c
  | .hex body word left code, c => body.hexDigit word left code c
  | .foldStart ctx word, c => if isBlank c then (Mode.foldStart ctx word).go else none
  | .fold ctx word, c => if isBlank c then (Mode.fold ctx word).go else multiChar ctx .basic word c

def Reader.newline (lineBreak : Text) : Mode → Next
  | .comment back => lineAfter back
  | .token ctx word => (R.finishToken ctx word).andThen lineAfter
  | .date ctx word => (R.finishToken ctx word).andThen lineAfter
  | .twoQuotes ctx _ => (finish ctx (.text [])).andThen lineAfter
  | .multiOpen ctx q => (Mode.multi ctx q [] 0).go
  | .multi ctx q word marks =>
    if marks < 3 then (Mode.multi ctx q (word ++ List.replicate marks q.mark ++ lineBreak) 0).go
    else (finish ctx (.text (word ++ List.replicate (marks - 3) q.mark))).andThen lineAfter
  | .escape (.multi ctx) word => (Mode.fold ctx word).go
  | .foldStart ctx word => (Mode.fold ctx word).go
  | .fold ctx word => (Mode.fold ctx word).go
  | m => lineAfter m

def Reader.step (m : Mode) (c : Char) : Next :=
  match m with
  | .carriageReturn back => if c = '\n' then R.newline R.lineBreak back else none
  | m =>
    if c = '\n' then R.newline ['\n'] m
    else if c = '\r' then (Mode.carriageReturn m).go
    else R.char m c

def Reader.run (R : Reader) (m : Mode) : Text → Next
  | [] => m.go
  | c :: text => (R.step m c).andThen fun m => R.run m text

def Reader.close (m : Mode) : Option (List Statement) :=
  match R.newline [] m with
  | some (.start, out) => some out
  | _ => none

def Reader.statements (text : Text) : Option (List Statement) :=
  (R.run .start text).bind fun (m, out) => (R.close m).map (out ++ ·)

def byteOrderMark : Char := Char.ofNat 0xfeff

def Reader.read (text : Text) : Option Table :=
  let text := if text.head? = some byteOrderMark then text.tail else text
  ((R.statements text).bind Doc.blank.run).map Doc.root

variable (m : Mode) {c d : Char} (next : Mode → Next) {out : List Statement} {first : Text}

@[simp] theorem Mode.go_andThen : m.go.andThen next = next m := by simp [go, Next.andThen]

@[simp] theorem Next.none_andThen : Next.andThen none next = none := rfl

theorem Next.some_andThen (out : List Statement) (next : Mode → Next) :
    Next.andThen (some (m, out)) next = (next m).map fun (m, more) => (m, out ++ more) := rfl

theorem Next.andThen_assoc (r : Next) (f g : Mode → Next) :
    (r.andThen f).andThen g = r.andThen fun m => (f m).andThen g := by
  rcases r with _ | ⟨m, out⟩
  · rfl
  · simp only [some_andThen]
    rcases f m with _ | ⟨m', more⟩
    · rfl
    · simp only [Option.map_some, some_andThen, Option.map_map]
      congr 1
      funext ⟨m'', rest⟩
      simp

theorem Next.andThen_eq_some {r : Next} {f : Mode → Next} {m : Mode} : r.andThen f = some (m, out) ↔
      ∃ m' first more, r = some (m', first) ∧ f m' = some (m, more) ∧ out = first ++ more := by
  rcases r with _ | ⟨m', first⟩
  · simp
  · rw [some_andThen, Option.map_eq_some_iff]
    constructor
    · rintro ⟨⟨m'', more⟩, hf, heq⟩
      cases heq
      exact ⟨m', first, more, rfl, hf, rfl⟩
    · rintro ⟨_, _, more, ⟨⟩, hf, rfl⟩
      exact ⟨(m, more), hf, rfl⟩

variable (R : Reader)

@[simp] theorem Reader.run_nil : R.run m [] = m.go := rfl

theorem Reader.run_cons (c : Char) (text : Text) :
    R.run m (c :: text) = (R.step m c).andThen fun m => R.run m text := rfl

theorem Reader.run_append (first second : Text) :
    R.run m (first ++ second) = (R.run m first).andThen fun m => R.run m second := by
  induction first generalizing m with
  | nil => rw [List.nil_append, run_nil, Mode.go_andThen]
  | cons c first ih =>
    rw [List.cons_append, run_cons, run_cons, Next.andThen_assoc]
    congr 1
    funext m'
    exact ih m'

theorem Reader.run_append_go {m m' : Mode} (h : R.run m first = m'.go) (second : Text) :
    R.run m (first ++ second) = R.run m' second := by
  rw [run_append, h, Mode.go_andThen]

theorem Reader.run_append_start {m : Mode} {first second : Text} {out more : List Statement}
    (hfirst : R.run .start first = some (.start, out)) (hsecond : R.run .start second = some (m, more)) :
    R.run .start (first ++ second) = some (m, out ++ more) := by
  rw [run_append, hfirst, Next.some_andThen, hsecond]
  rfl

/-- **Whole statements before a text.** -/
theorem Reader.statements_append (h : R.run .start first = some (.start, out)) (second : Text) :
    R.statements (first ++ second) = (R.statements second).map (out ++ ·) := by
  rw [statements, run_append, h, Next.some_andThen, statements]
  rcases R.run .start second with _ | ⟨m, more⟩
  · rfl
  · simp only [Option.map_some, Option.bind_some, Option.map_map]
    congr 1
    funext rest
    simp

theorem Reader.step_of_ne (hn : c ≠ '\n') (hr : c ≠ '\r') : R.step m c = R.char m c := by
  cases m <;> simp [step, char, hn, hr]

theorem isPlain_of_isBare (h : isBare c) : isPlain c := by
  simp only [isBare, Bool.or_eq_true, decide_eq_true_eq, Text.isAlphanum_iff] at h
  simp only [isPlain, Bool.or_eq_true, Bool.and_eq_true, decide_eq_true_eq]
  rcases h with (h | rfl) | rfl
  · right
    omega
  · decide
  · decide

theorem ne_of_isBare (hc : isBare c) (hd : isBare d = false) : c ≠ d := by
  rintro rfl
  rw [hc] at hd
  contradiction

theorem ne_of_isPlain (hc : isPlain c) (hd : isPlain d = false) : c ≠ d := by
  rintro rfl
  rw [hc] at hd
  contradiction

theorem Reader.step_of_isPlain (hc : isPlain c) : R.step m c = R.char m c :=
  R.step_of_ne m (ne_of_isPlain hc (by decide)) (ne_of_isPlain hc (by decide))

end Base.Toml
