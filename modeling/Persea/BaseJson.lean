import Persea.BaseText

/-! JSON values and their compact text. A number is kept as the text it is written as. The text of a value says
where it ends and which value it is of, so that different values have different texts. -/

namespace Base

open Text List

namespace Json

def isNumberChar (c : Char) : Bool := c.isDigit || c ∈ ['-', '+', '.', 'e', 'E']

structure Number where
  text : Text
  ne_nil : text ≠ []
  chars : ∀ c ∈ text, isNumberChar c = true
deriving DecidableEq, Repr

end Json

inductive Json where
  | null
  | bool (b : Bool)
  | number (n : Json.Number)
  | string (s : Text)
  | array (items : List Json)
  | object (fields : List (Text × Json))
deriving Repr

namespace Json

def asStr : Json → Option Text
  | .string s => some s
  | _ => none

def asObject : Json → Option (List (Text × Json))
  | .object fields => some fields
  | _ => none

def lookupField {β : Type} (fields : List (Text × β)) (key : Text) : Option β :=
  (fields.find? fun field => field.1 = key).map Prod.snd

def getField (fields : List (Text × Json)) (key : String) : Option Json := lookupField fields key.toList

def insertField {β : Type} (fields : List (Text × β)) (key : Text) (v : β) : List (Text × β) :=
  (key, v) :: fields.filter fun field => field.1 ≠ key

def mergeFields {β : Type} (old new : List (Text × β)) : List (Text × β) :=
  new.foldr (fun field fields => insertField fields field.1 field.2) old

section Fields

variable {β : Type}

theorem lookupField_cons (field : Text × β) (fields : List (Text × β)) (key : Text) :
    lookupField (field :: fields) key = if field.1 = key then some field.2 else lookupField fields key := by
  rw [lookupField, find?_cons]
  by_cases h : field.1 = key <;> simp [h, lookupField]

theorem lookupField_insertField (fields : List (Text × β)) (key : Text) (v : β) (other : Text) :
    lookupField (insertField fields key v) other = if key = other then some v else lookupField fields other := by
  rw [insertField, lookupField_cons]
  split_ifs with h
  · rfl
  · rw [lookupField, lookupField, find?_filter]
    congr 2
    funext field
    by_cases hfield : field.1 = other <;> simp [hfield, Ne.symm h]

theorem lookupField_mergeFields (old new : List (Text × β)) (key : Text) :
    lookupField (mergeFields old new) key = (lookupField new key).or (lookupField old key) := by
  induction new with
  | nil => rfl
  | cons field new ih =>
    rw [lookupField_cons]
    refine (lookupField_insertField (mergeFields old new) field.1 field.2 key).trans ?_
    split_ifs
    · rfl
    · exact ih

theorem lookupField_eq_none {fields : List (Text × β)} {key : Text} (h : key ∉ fields.map Prod.fst) :
    lookupField fields key = none := by
  rw [lookupField, Option.map_eq_none_iff, find?_eq_none]
  intro field hfield hkey
  exact h (mem_map.mpr ⟨field, hfield, by simpa using hkey⟩)

end Fields

def quote : Char := Char.ofNat 0x22

def backslash : Char := Char.ofNat 0x5c

def escapeCode (c : Char) : Option Text :=
  if c = quote then some [quote]
  else if c = backslash then some [backslash]
  else if c.toNat = 0x08 then some ['b']
  else if c.toNat = 0x09 then some ['t']
  else if c.toNat = 0x0a then some ['n']
  else if c.toNat = 0x0c then some ['f']
  else if c.toNat = 0x0d then some ['r']
  else if c.toNat < 0x20 then some ('u' :: '0' :: '0' :: hexDigits 2 c.toNat)
  else none

def escapeChar (c : Char) : Text :=
  match escapeCode c with
  | some code => backslash :: code
  | none => [c]

def quoted (s : Text) : Text := quote :: (s.flatMap escapeChar ++ [quote])

mutual

def print : Json → Text
  | .null => "null"
  | .bool true => "true"
  | .bool false => "false"
  | .number n => n.text
  | .string s => quoted s
  | .array items => '[' :: printItems [] items
  | .object fields => '\x7b' :: printFields [] fields

def printItems (sep : Text) : List Json → Text
  | [] => [']']
  | v :: items => sep ++ (print v ++ printItems [','] items)

def printFields (sep : Text) : List (Text × Json) → Text
  | [] => ['\x7d']
  | (key, v) :: fields => sep ++ (quoted key ++ ':' :: (print v ++ printFields [','] fields))

end

theorem print_number (n : Number) : print (.number n) = n.text := rfl

theorem print_string (s : Text) : print (.string s) = quoted s := rfl

theorem print_array (items : List Json) : print (.array items) = '[' :: printItems [] items := rfl

variable {s s' x x' : Text} (fields : List (Text × Json)) {c c' : Char}

theorem print_object : print (.object fields) = '\x7b' :: printFields [] fields := rfl

theorem printItems_nil (sep : Text) : printItems sep [] = [']'] := rfl

theorem printItems_cons (sep : Text) (v : Json) (items : List Json) :
    printItems sep (v :: items) = sep ++ (print v ++ printItems [','] items) := rfl

theorem printFields_nil (sep : Text) : printFields sep [] = ['\x7d'] := rfl

theorem printFields_cons (sep key : Text) (v : Json) (fields : List (Text × Json)) :
    printFields sep ((key, v) :: fields) = sep ++ (quoted key ++ ':' :: (print v ++ printFields [','] fields)) := rfl

def escaped : List Nat := 0x22 :: 0x5c :: range 0x20

theorem escapeCode_escaped : ∀ n ∈ escaped, ∀ m ∈ escaped,
    ∀ a ∈ escapeCode (Char.ofNat n), ∀ b ∈ escapeCode (Char.ofNat m),
      a.head? = b.head? → a.length = b.length ∧ (a = b → n = m) := by
  decide +kernel

theorem mem_escaped {code : Text} (h : escapeCode c = some code) : c.toNat ∈ escaped ∧ code ≠ [] := by
  have hcontrol : ∀ {n : Nat}, n < 0x20 → n ∈ escaped := fun hn =>
    mem_cons_of_mem _ (mem_cons_of_mem _ (mem_range.mpr hn))
  revert h
  fun_cases escapeCode c with
  | case1 hquote =>
    rintro ⟨⟩
    rw [hquote]
    exact ⟨mem_cons_self, cons_ne_nil _ _⟩
  | case2 _ hbackslash =>
    rintro ⟨⟩
    rw [hbackslash]
    exact ⟨mem_cons_of_mem _ mem_cons_self, cons_ne_nil _ _⟩
  | case9 => exact nofun
  | _ =>
    rintro ⟨⟩
    exact ⟨hcontrol (by omega), cons_ne_nil _ _⟩

theorem escapeCode_append_inj {a b x x' : Text} (ha : escapeCode c = some a) (hb : escapeCode c' = some b)
    (h : a ++ x = b ++ x') : c = c' ∧ x = x' := by
  obtain ⟨hc, hane⟩ := mem_escaped ha
  obtain ⟨hc', hbne⟩ := mem_escaped hb
  have hhead : a.head? = b.head? := by
    have heq := congrArg head? h
    rwa [head?_append_of_ne_nil _ hane, head?_append_of_ne_nil _ hbne] at heq
  obtain ⟨hlength, hsame⟩ := escapeCode_escaped c.toNat hc c'.toNat hc' a (by rwa [Char.ofNat_toNat])
    b (by rwa [Char.ofNat_toNat]) hhead
  obtain ⟨hab, hx⟩ := append_inj h hlength
  exact ⟨Char.toNat_inj.mp (hsame hab), hx⟩

theorem escapeCode_of_eq_none (h : escapeCode c = none) : c ≠ quote ∧ c ≠ backslash := by
  constructor
  · rintro rfl
    rw [escapeCode, if_pos rfl] at h
    cases h
  · rintro rfl
    rw [escapeCode, if_neg (by decide), if_pos rfl] at h
    cases h

theorem escapeChar_append_inj (h : escapeChar c ++ x = escapeChar c' ++ x') : c = c' ∧ x = x' := by
  unfold escapeChar at h
  cases hc : escapeCode c with
  | some a =>
    cases hc' : escapeCode c' with
    | some b =>
      simp only [hc, hc', cons_append, cons.injEq, true_and] at h
      exact escapeCode_append_inj hc hc' h
    | none =>
      simp only [hc, hc', cons_append, cons.injEq] at h
      exact absurd h.1.symm (escapeCode_of_eq_none hc').2
  | none =>
    cases hc' : escapeCode c' with
    | some b =>
      simp only [hc, hc', cons_append, cons.injEq] at h
      exact absurd h.1 (escapeCode_of_eq_none hc).2
    | none => simpa only [hc, hc', cons_append, nil_append, cons.injEq] using h

theorem escapeChar_ne_quote (c : Char) (x y : Text) : escapeChar c ++ x ≠ quote :: y := by
  unfold escapeChar
  cases hc : escapeCode c with
  | some a =>
    intro h
    exact absurd (cons.inj h).1 (by decide)
  | none =>
    intro h
    exact (escapeCode_of_eq_none hc).1 (cons.inj h).1

theorem escaped_append_inj (h : s.flatMap escapeChar ++ quote :: x = s'.flatMap escapeChar ++ quote :: x') :
    s = s' ∧ x = x' := by
  induction s generalizing s' with
  | nil =>
    cases s' with
    | nil => exact ⟨rfl, (cons.inj h).2⟩
    | cons c' s' =>
      rw [flatMap_cons, append_assoc] at h
      exact absurd h.symm (escapeChar_ne_quote c' _ _)
  | cons c s ih =>
    rw [flatMap_cons, append_assoc] at h
    cases s' with
    | nil => exact absurd h (escapeChar_ne_quote c _ _)
    | cons c' s' =>
      rw [flatMap_cons, append_assoc] at h
      obtain ⟨rfl, hrest⟩ := escapeChar_append_inj h
      obtain ⟨rfl, hx⟩ := ih hrest
      exact ⟨rfl, hx⟩

theorem quoted_append_inj (h : quoted s ++ x = quoted s' ++ x') : s = s' ∧ x = x' := by
  simp only [quoted, cons_append, append_assoc, nil_append, cons.injEq, true_and] at h
  exact escaped_append_inj h

def Ends (x : Text) : Prop := x.takeWhile isNumberChar = []

theorem number_append_inj {n n' : Number} (hx : Ends x) (hx' : Ends x') (h : n.text ++ x = n'.text ++ x') :
    n = n' ∧ x = x' := by
  have hspan := congrArg (takeWhile isNumberChar) h
  rw [takeWhile_append_of_pos n.chars, takeWhile_append_of_pos n'.chars, hx, hx', append_nil, append_nil] at hspan
  rw [hspan] at h
  refine ⟨?_, append_cancel_left h⟩
  cases n
  cases n'
  exact (Number.mk.injEq ..).mpr hspan

/-! ### Values -/

def charTag (c : Char) : Nat :=
  if isNumberChar c then 3
  else if c = 'n' then 0 else if c = 't' then 1 else if c = 'f' then 2 else if c = quote then 4
  else if c = '[' then 5 else if c = '\x7b' then 6 else 7

def tag : Json → Nat
  | .null => 0
  | .bool true => 1
  | .bool false => 2
  | .number _ => 3
  | .string _ => 4
  | .array _ => 5
  | .object _ => 6

theorem tag_lt (v : Json) : tag v < 7 := by
  unfold tag
  split <;> decide

theorem print_head (v : Json) : ∃ c rest, print v = c :: rest ∧ charTag c = tag v := by
  cases v with
  | null => exact ⟨_, _, rfl, rfl⟩
  | bool b => cases b <;> exact ⟨_, _, rfl, rfl⟩
  | number n =>
    obtain ⟨c, rest, htext⟩ := exists_cons_of_ne_nil n.ne_nil
    have hc : isNumberChar c := n.chars c (by rw [htext]; exact mem_cons_self)
    exact ⟨c, rest, by rw [print_number, htext], if_pos hc⟩
  | string s => exact ⟨_, _, by rw [print_string, quoted], rfl⟩
  | array items => exact ⟨_, _, print_array items, rfl⟩
  | object fields => exact ⟨_, _, print_object fields, rfl⟩

theorem tag_eq_of_append {v v' : Json} (h : print v ++ x = print v' ++ x') : tag v = tag v' := by
  obtain ⟨c, rest, hv, hc⟩ := print_head v
  obtain ⟨c', rest', hv', hc'⟩ := print_head v'
  rw [hv, hv'] at h
  rw [← hc, ← hc', (cons.inj h).1]

def Separator (sep : Text) : Prop := sep = [] ∨ sep = [',']

theorem ends_printItems (items : List Json) (x : Text) : Ends (printItems [','] items ++ x) := by cases items <;> rfl

theorem ends_printFields (x : Text) : Ends (printFields [','] fields ++ x) := by cases fields <;> rfl

theorem close_ne_item {sep : Text} (hsep : Separator sep) (v : Json) (x y : Text) :
    ']' :: x ≠ sep ++ (print v ++ y) := by
  intro h
  rcases hsep with rfl | rfl
  · obtain ⟨c, rest, hv, hc⟩ := print_head v
    rw [hv] at h
    rw [← (cons.inj h).1] at hc
    have hclose : charTag ']' = 7 := rfl
    have hlt := tag_lt v
    omega
  · exact absurd (cons.inj h).1 (by decide)

theorem close_ne_field {sep : Text} (hsep : Separator sep) (key x y : Text) :
    '\x7d' :: x ≠ sep ++ (quoted key ++ y) := by
  intro h
  rcases hsep with rfl | rfl
  · exact absurd (cons.inj h).1 (by decide)
  · exact absurd (cons.inj h).1 (by decide)

mutual

/-- **Unique readability.** Two texts that begin with a value begin with the same one, and go on alike. -/
theorem print_append_inj : ∀ (v v' : Json) {x x' : Text}, Ends x → Ends x' → print v ++ x = print v' ++ x' →
    v = v' ∧ x = x'
  | .null, v', x, x', _, _, h => by
      have htag := tag_eq_of_append h
      cases v' with
      | null => exact ⟨rfl, append_cancel_left h⟩
      | bool b => cases b <;> cases htag
      | number | string | array | object => cases htag
  | .bool b, v', x, x', _, _, h => by
      have htag := tag_eq_of_append h
      cases v' with
      | bool b' => cases b <;> cases b' <;> first | exact ⟨rfl, append_cancel_left h⟩ | cases htag
      | null | number | string | array | object => cases b <;> cases htag
  | .number n, v', x, x', hx, hx', h => by
      have htag := tag_eq_of_append h
      cases v' with
      | number n' =>
        obtain ⟨rfl, hrest⟩ := number_append_inj hx hx' h
        exact ⟨rfl, hrest⟩
      | bool b => cases b <;> cases htag
      | null | string | array | object => cases htag
  | .string s, v', x, x', _, _, h => by
      have htag := tag_eq_of_append h
      cases v' with
      | string s' =>
        obtain ⟨rfl, hrest⟩ := quoted_append_inj h
        exact ⟨rfl, hrest⟩
      | bool b => cases b <;> cases htag
      | null | number | array | object => cases htag
  | .array items, v', x, x', _, _, h => by
      have htag := tag_eq_of_append h
      cases v' with
      | array items' =>
        have hitems : printItems [] items ++ x = printItems [] items' ++ x' := by
          rw [print_array, print_array] at h
          exact (cons.inj h).2
        obtain ⟨rfl, hrest⟩ := printItems_append_inj items items' (.inl rfl) hitems
        exact ⟨rfl, hrest⟩
      | bool b => cases b <;> cases htag
      | null | number | string | object => cases htag
  | .object fields, v', x, x', _, _, h => by
      have htag := tag_eq_of_append h
      cases v' with
      | object fields' =>
        have hfields : printFields [] fields ++ x = printFields [] fields' ++ x' := by
          rw [print_object, print_object] at h
          exact (cons.inj h).2
        obtain ⟨rfl, hrest⟩ := printFields_append_inj fields fields' (.inl rfl) hfields
        exact ⟨rfl, hrest⟩
      | bool b => cases b <;> cases htag
      | null | number | string | array => cases htag

theorem printItems_append_inj : ∀ (items items' : List Json) {sep x x' : Text}, Separator sep →
    printItems sep items ++ x = printItems sep items' ++ x' → items = items' ∧ x = x'
  | [], items', sep, x, x', hsep, h => by
      cases items' with
      | nil => exact ⟨rfl, (cons.inj h).2⟩
      | cons v' items' =>
        rw [printItems_nil, printItems_cons, append_assoc, append_assoc] at h
        exact absurd h (close_ne_item hsep v' _ _)
  | v :: items, items', sep, x, x', hsep, h => by
      cases items' with
      | nil =>
        rw [printItems_cons, printItems_nil, append_assoc, append_assoc] at h
        exact absurd h.symm (close_ne_item hsep v _ _)
      | cons v' items' =>
        rw [printItems_cons, printItems_cons, append_assoc, append_assoc, append_assoc, append_assoc] at h
        obtain ⟨rfl, hrest⟩ := print_append_inj v v' (ends_printItems items x) (ends_printItems items' x')
          (append_cancel_left h)
        obtain ⟨rfl, hx⟩ := printItems_append_inj items items' (.inr rfl) hrest
        exact ⟨rfl, hx⟩

theorem printFields_append_inj : ∀ (fields fields' : List (Text × Json)) {sep x x' : Text}, Separator sep →
    printFields sep fields ++ x = printFields sep fields' ++ x' → fields = fields' ∧ x = x'
  | [], fields', sep, x, x', hsep, h => by
      cases fields' with
      | nil => exact ⟨rfl, (cons.inj h).2⟩
      | cons field' fields' =>
        obtain ⟨key', v'⟩ := field'
        rw [printFields_nil, printFields_cons, append_assoc, append_assoc] at h
        exact absurd h (close_ne_field hsep key' _ _)
  | (key, v) :: fields, fields', sep, x, x', hsep, h => by
      cases fields' with
      | nil =>
        rw [printFields_cons, printFields_nil, append_assoc, append_assoc] at h
        exact absurd h.symm (close_ne_field hsep key _ _)
      | cons field' fields' =>
        obtain ⟨key', v'⟩ := field'
        rw [printFields_cons, printFields_cons, append_assoc, append_assoc, append_assoc, append_assoc] at h
        obtain ⟨rfl, hvalues⟩ := quoted_append_inj (append_cancel_left h)
        rw [cons_append, cons_append, append_assoc, append_assoc] at hvalues
        obtain ⟨rfl, hrest⟩ := print_append_inj v v' (ends_printFields fields x) (ends_printFields fields' x')
          (cons.inj hvalues).2
        obtain ⟨rfl, hx⟩ := printFields_append_inj fields fields' (.inr rfl) hrest
        exact ⟨rfl, hx⟩

end

/-- **Different values have different texts.** -/
theorem print_injective : Function.Injective print := by
  intro v v' h
  have hnil : print v ++ [] = print v' ++ [] := by rw [h]
  have hend : Ends [] := rfl
  exact (print_append_inj v v' hend hend hnil).1

end Json

end Base
