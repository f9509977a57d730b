import Persea.BaseText

/-! XML as a pull parser reports it, and as the list of its tokens, which can be told from the text that spells them.
A walk that reads each stretch of text in one piece finds the same in both. -/

namespace Base.Xml

open List

structure Tag where
  name : Text
  /-- The attributes in their order, with the values as they are spelled. -/
  attributes : List (Text × Text)
deriving DecidableEq

inductive Event
  | start (tag : Tag)
  | close (name : Text)
  | empty (tag : Tag)
  | text (content : Text)
  | cData (content : Text)
  | comment (content : Text)
  | decl (content : Text)
  | pi (content : Text)
  | docType (content : Text)
  | generalRef (content : Text)
deriving DecidableEq

structure Reading where
  events : List Event
  error : Option String
deriving DecidableEq

def Tag.values (tag : Tag) (key : Text) : List Text := (tag.attributes.filter fun a => a.1 = key).map (·.2)

def isBlank (c : Char) : Bool := c = ' ' || c = '\t' || c = '\n' || c = '\r'

def trimBlank (t : Text) : Text := (t.dropWhile isBlank).rdropWhile isBlank

variable {t : Text} {events : List Event} {x y : Text} {tag : Tag}

theorem trimBlank_eq_nil : trimBlank t = [] ↔ ∀ c ∈ t, isBlank c := by
  rw [trimBlank, rdropWhile_eq_nil_iff]
  constructor
  · intro h
    by_contra hnot
    have hne : t.dropWhile isBlank ≠ [] := by rwa [Ne, dropWhile_eq_nil_iff]
    have hhead := head_dropWhile_not isBlank hne
    rw [h _ (head_mem hne)] at hhead
    cases hhead
  · intro h c hc
    exact h c ((dropWhile_sublist isBlank).subset hc)

theorem trimBlank_append_left {u : Text} (h : trimBlank t = []) : trimBlank (t ++ u) = trimBlank u := by
  rw [trimBlank, dropWhile_append_of_pos (trimBlank_eq_nil.mp h), trimBlank]

theorem trimBlank_append_right {u : Text} (h : trimBlank u = []) : trimBlank (t ++ u) = trimBlank t := by
  have hblank : ∀ c ∈ u, isBlank c := trimBlank_eq_nil.mp h
  by_cases ht : trimBlank t = []
  · rw [trimBlank_append_left ht, h, ht]
  · have hfront : t.dropWhile isBlank ≠ [] := by
      intro hnil
      apply ht
      rw [trimBlank, hnil]
      rfl
    have hdrop : (t ++ u).dropWhile isBlank = t.dropWhile isBlank ++ u := by
      rw [dropWhile_append, if_neg (by simpa using hfront)]
    rw [trimBlank, hdrop, trimBlank, rdropWhile, rdropWhile, reverse_append, dropWhile_append_of_pos]
    intro c hc
    exact hblank c (mem_reverse.mp hc)

def Event.trimmed : Event → Option Event
  | .text content => if trimBlank content = [] then none else some (.text (trimBlank content))
  | e => some e

def Reading.trimmed (r : Reading) : Reading := { r with events := r.events.filterMap Event.trimmed }

def Event.expanded : Event → List Event
  | .empty tag => [.start tag, .close tag.name]
  | e => [e]

def Event.isSkipped : Event → Bool
  | .comment _ | .decl _ | .pi _ | .docType _ | .generalRef _ => true
  | .start _ | .close _ | .empty _ | .text _ | .cData _ => false

/-- What a walk does at a tag, at the end of an element and at a text. A self-closing tag is a tag to it, and it passes
over everything else. -/
structure Walk (σ : Type) where
  onTag : σ → Tag → σ
  onClose : σ → Text → σ
  onText : σ → Text → σ
  /-- Whether a text makes a difference. -/
  heeds : σ → Bool
  heeds_onText : ∀ s content, heeds (onText s content) = heeds s
  onText_of_not_heeds : ∀ s content, heeds s = false → onText s content = s

variable {σ : Type}

namespace Walk

variable (w : Walk σ)

def step (s : σ) : Event → σ
  | .start tag | .empty tag => w.onTag s tag
  | .close name => w.onClose s name
  | .text content => w.onText s content
  | .cData _ | .comment _ | .decl _ | .pi _ | .docType _ | .generalRef _ => s

def run (s : σ) (events : List Event) : σ := events.foldl w.step s

def read (s : σ) (content : Text) : σ := if trimBlank content = [] then s else w.onText s (trimBlank content)

def stepTrimmed (s : σ) : Event → σ
  | .text content => w.read s content
  | e => w.step s e

variable (w : Walk σ)

theorem run_trimmed (s : σ) (events : List Event) :
    w.run s (events.filterMap Event.trimmed) = events.foldl w.stepTrimmed s := by
  rw [run, foldl_filterMap]
  congr 1
  funext s e
  cases e with
  | text content =>
    by_cases hblank : trimBlank content = []
    · simp [Event.trimmed, stepTrimmed, read, hblank]
    · simp [Event.trimmed, stepTrimmed, read, hblank, step]
  | start | close | empty | cData | comment | decl | pi | docType | generalRef => rfl

theorem foldl_expanded
    (h : ∀ tag, .empty tag ∈ events → ∀ s, w.onClose (w.onTag s tag) tag.name = w.onTag s tag) (s : σ) :
    (events.flatMap Event.expanded).foldl w.stepTrimmed s = events.foldl w.stepTrimmed s := by
  induction events generalizing s with
  | nil => rfl
  | cons e events ih =>
    have hrest := ih (fun tag htag => h tag (mem_cons_of_mem e htag))
    rw [flatMap_cons, foldl_append, hrest, foldl_cons]
    cases e with
    | empty tag =>
      have hstep : [Event.start tag, .close tag.name].foldl w.stepTrimmed s = w.stepTrimmed s (.empty tag) :=
        h tag mem_cons_self s
      rw [Event.expanded, hstep]
    | start | close | text | cData | comment | decl | pi | docType | generalRef => rfl

end Walk

/-! ### Tokens -/

inductive Token
  | opening (tag : Tag)
  | closing (name : Text)
  | char (c : Char)
deriving DecidableEq

/-- Characters are spelled so that the spelling of a text can be taken apart, and never with the stop character. -/
structure Code (spell : Char → Text) (stop : Char) : Prop where
  unique : ∀ {c d : Char} {x y : Text}, spell c ++ x = spell d ++ y → c = d
  notMem : ∀ c, stop ∉ spell c
  ne_nil : ∀ c, spell c ≠ []

variable {spell : Char → Text} {stop : Char}

theorem Code.ne_stop (code : Code spell stop) {c : Char} : spell c ++ x ≠ stop :: y := by
  intro h
  obtain ⟨first, rest, hspell⟩ := exists_cons_of_ne_nil (code.ne_nil c)
  rw [hspell, cons_append, cons.injEq] at h
  apply code.notMem c
  rw [hspell, h.1]
  exact mem_cons_self

theorem Code.flatMap_inj (code : Code spell stop) {v w : Text}
    (h : v.flatMap spell ++ stop :: x = w.flatMap spell ++ stop :: y) : v = w ∧ x = y := by
  induction v generalizing w with
  | nil =>
    cases w with
    | nil => exact ⟨rfl, (cons.inj h).2⟩
    | cons d w =>
      rw [flatMap_cons, append_assoc] at h
      exact absurd h.symm code.ne_stop
  | cons c v ih =>
    cases w with
    | nil =>
      rw [flatMap_cons, append_assoc] at h
      exact absurd h code.ne_stop
    | cons d w =>
      simp only [flatMap_cons, append_assoc] at h
      obtain rfl : c = d := code.unique h
      obtain ⟨rfl, hrest⟩ := ih (append_cancel_left h)
      exact ⟨rfl, hrest⟩

section Writing

variable (spellText spellValue : Char → Text)

def writeAttribute (a : Text × Text) : Text := ' ' :: (a.1 ++ '=' :: '"' :: (a.2.flatMap spellValue ++ ['"']))

def writeTag (tag : Tag) : Text := '<' :: (tag.name ++ (tag.attributes.flatMap (writeAttribute spellValue) ++ ['>']))

def writeClose (name : Text) : Text := '<' :: '/' :: (name ++ ['>'])

def Token.write : Token → Text
  | .opening tag => writeTag spellValue tag
  | .closing name => writeClose name
  | .char c => spellText c

end Writing

/-- The name ends where a tag goes on. -/
def PlainName (name : Text) : Prop := (∀ c ∈ name, c ≠ ' ' ∧ c ≠ '>') ∧ name.head? ≠ some '/'

instance : DecidablePred PlainName := fun name =>
  decidable_of_iff ((name.all fun c => c ≠ ' ' && c ≠ '>') = true ∧ name.head? ≠ some '/') (by
    simp only [PlainName, all_eq_true, Bool.and_eq_true, decide_eq_true_eq])

structure Tag.Plain (tag : Tag) : Prop where
  name : PlainName tag.name
  keys : ∀ a ∈ tag.attributes, '=' ∉ a.1

instance : DecidablePred Tag.Plain := fun tag =>
  decidable_of_iff (PlainName tag.name ∧ ∀ a ∈ tag.attributes, '=' ∉ a.1) ⟨fun h => ⟨h.1, h.2⟩, fun h => ⟨h.1, h.2⟩⟩

def Token.Plain : Token → Prop
  | .opening tag => tag.Plain
  | .closing name => PlainName name
  | .char _ => True

section UniqueReading

variable {spellText spellValue : Char → Text}

theorem writeAttribute_inj (hvalue : Code spellValue '"') {a b : Text × Text} (ha : '=' ∉ a.1)
    (hb : '=' ∉ b.1) (h : writeAttribute spellValue a ++ x = writeAttribute spellValue b ++ y) : a = b ∧ x = y := by
  simp only [writeAttribute, cons_append, append_assoc, cons.injEq, true_and] at h
  obtain ⟨hkey, h⟩ := Text.append_cut_inj (p := (· = '=')) (fun c hc heq => ha (heq ▸ hc))
    (fun c hc heq => hb (heq ▸ hc)) rfl rfl h
  simp only [cons.injEq, true_and, nil_append] at h
  obtain ⟨hval, hrest⟩ := hvalue.flatMap_inj h
  exact ⟨Prod.ext hkey hval, hrest⟩

theorem writeAttributes_inj (hvalue : Code spellValue '"') {as bs : List (Text × Text)}
    (has : ∀ a ∈ as, '=' ∉ a.1) (hbs : ∀ b ∈ bs, '=' ∉ b.1)
    (h : as.flatMap (writeAttribute spellValue) ++ '>' :: x = bs.flatMap (writeAttribute spellValue) ++ '>' :: y) :
    as = bs ∧ x = y := by
  induction as generalizing bs with
  | nil =>
    cases bs with
    | nil => exact ⟨rfl, (cons.inj h).2⟩
    | cons b bs => simp [writeAttribute] at h
  | cons a as ih =>
    cases bs with
    | nil => simp [writeAttribute] at h
    | cons b bs =>
      simp only [flatMap_cons, append_assoc] at h
      obtain ⟨rfl, hafter⟩ := writeAttribute_inj hvalue (has a mem_cons_self) (hbs b mem_cons_self) h
      obtain ⟨rfl, hrest⟩ := ih (fun e he => has e (mem_cons_of_mem a he))
        (fun e he => hbs e (mem_cons_of_mem a he)) hafter
      exact ⟨rfl, hrest⟩

theorem writeAttributes_head (spellValue : Char → Text) (as : List (Text × Text)) (x : Text) :
    ∃ c rest, (c = ' ' ∨ c = '>') ∧ as.flatMap (writeAttribute spellValue) ++ '>' :: x = c :: rest := by
  cases as with
  | nil => exact ⟨'>', x, .inr rfl, rfl⟩
  | cons a as => exact ⟨' ', _, .inl rfl, by rw [flatMap_cons, writeAttribute]; rfl⟩

theorem writeTag_inj (hvalue : Code spellValue '"') {tag' : Tag} (htag : tag.Plain)
    (htag' : tag'.Plain) (h : writeTag spellValue tag ++ x = writeTag spellValue tag' ++ y) : tag = tag' ∧ x = y := by
  simp only [writeTag, cons_append, append_assoc, cons.injEq, true_and, nil_append] at h
  obtain ⟨c, rest, hc, hafter⟩ := writeAttributes_head spellValue tag.attributes x
  obtain ⟨c', rest', hc', hafter'⟩ := writeAttributes_head spellValue tag'.attributes y
  rw [hafter, hafter'] at h
  obtain ⟨hname, h⟩ := Text.append_cut_inj (p := fun c => c = ' ' ∨ c = '>')
    (fun d hd => not_or.mpr (htag.name.1 d hd)) (fun d hd => not_or.mpr (htag'.name.1 d hd)) hc hc' h
  rw [← hafter, ← hafter'] at h
  obtain ⟨hattributes, hrest⟩ := writeAttributes_inj hvalue htag.keys htag'.keys h
  cases tag
  cases tag'
  exact ⟨by rw [Tag.mk.injEq]; exact ⟨hname, hattributes⟩, hrest⟩

theorem writeClose_inj {name name' : Text} (hname : PlainName name) (hname' : PlainName name')
    (h : writeClose name ++ x = writeClose name' ++ y) : name = name' ∧ x = y := by
  simp only [writeClose, cons_append, append_assoc, cons.injEq, true_and, nil_append] at h
  obtain ⟨rfl, hrest⟩ := Text.append_cut_inj (p := (· = '>')) (fun c hc => (hname.1 c hc).2)
    (fun c hc => (hname'.1 c hc).2) rfl rfl h
  exact ⟨rfl, (cons.inj hrest).2⟩

theorem writeTag_ne_writeClose {name : Text} (htag : PlainName tag.name) :
    writeTag spellValue tag ++ x ≠ writeClose name ++ y := by
  intro h
  simp only [writeTag, writeClose, cons_append, append_assoc, cons.injEq, true_and, nil_append] at h
  cases hname : tag.name with
  | nil =>
    obtain ⟨c, rest, hc, hafter⟩ := writeAttributes_head spellValue tag.attributes x
    rw [hname, hafter, nil_append, cons.injEq] at h
    rcases hc with rfl | rfl
    · exact absurd h.1 (by decide)
    · exact absurd h.1 (by decide)
  | cons c rest =>
    rw [hname, cons_append, cons.injEq] at h
    apply htag.2
    rw [hname, h.1]
    rfl

theorem write_ne_nil (htext : Code spellText '<') (t : Token) : Token.write spellText spellValue t ≠ [] := by
  cases t with
  | opening tag | closing name => exact cons_ne_nil _ _
  | char c => exact htext.ne_nil c

theorem Token.write_inj (htext : Code spellText '<') (hvalue : Code spellValue '"') {t u : Token}
    (ht : t.Plain) (hu : u.Plain)
    (h : t.write spellText spellValue ++ x = u.write spellText spellValue ++ y) : t = u ∧ x = y := by
  cases t with
  | opening tag =>
    cases u with
    | opening tag' =>
      obtain ⟨rfl, hrest⟩ := writeTag_inj hvalue ht hu h
      exact ⟨rfl, hrest⟩
    | closing name => exact absurd h (writeTag_ne_writeClose ht.name)
    | char c => exact absurd h.symm htext.ne_stop
  | closing name =>
    cases u with
    | opening tag => exact absurd h.symm (writeTag_ne_writeClose hu.name)
    | closing name' =>
      obtain ⟨rfl, hrest⟩ := writeClose_inj ht hu h
      exact ⟨rfl, hrest⟩
    | char c => exact absurd h.symm htext.ne_stop
  | char c =>
    cases u with
    | opening tag | closing name => exact absurd h htext.ne_stop
    | char d =>
      have hd : spellText c ++ x = spellText d ++ y := h
      obtain rfl : c = d := htext.unique hd
      exact ⟨rfl, append_cancel_left hd⟩

/-- **Unique reading**: the text that spells some tokens determines them. -/
theorem write_inj (htext : Code spellText '<') (hvalue : Code spellValue '"') {ts us : List Token}
    (hts : ∀ t ∈ ts, t.Plain) (hus : ∀ u ∈ us, u.Plain)
    (h : ts.flatMap (Token.write spellText spellValue) = us.flatMap (Token.write spellText spellValue)) : ts = us := by
  induction ts generalizing us with
  | nil =>
    cases us with
    | nil => rfl
    | cons u us =>
      rw [flatMap_nil, flatMap_cons] at h
      exact absurd (append_eq_nil_iff.mp h.symm).1 (write_ne_nil htext u)
  | cons t ts ih =>
    cases us with
    | nil =>
      rw [flatMap_nil, flatMap_cons] at h
      exact absurd (append_eq_nil_iff.mp h).1 (write_ne_nil htext t)
    | cons u us =>
      rw [flatMap_cons, flatMap_cons] at h
      obtain ⟨rfl, hrest⟩ := Token.write_inj htext hvalue (hts t mem_cons_self) (hus u mem_cons_self) h
      rw [ih (fun e he => hts e (mem_cons_of_mem t he)) (fun e he => hus e (mem_cons_of_mem t he)) hrest]

end UniqueReading

def Event.tag? : Event → Option Tag
  | .start tag | .empty tag => some tag
  | .close _ | .text _ | .cData _ | .comment _ | .decl _ | .pi _ | .docType _ | .generalRef _ => none

theorem tag?_of_start_mem_expanded
    (h : .start tag ∈ events.flatMap Event.expanded) : ∃ e ∈ events, e.tag? = some tag := by
  obtain ⟨e, he, hmem⟩ := mem_flatMap.mp h
  refine ⟨e, he, ?_⟩
  cases e with
  | start t | empty t => simpa [Event.expanded, Event.tag?, eq_comm] using hmem
  | close | text | cData | comment | decl | pi | docType | generalRef => simp [Event.expanded] at hmem

def Event.Plain : Event → Prop
  | .start tag | .empty tag => tag.Plain
  | .close name => PlainName name
  | .text _ | .cData _ | .comment _ | .decl _ | .pi _ | .docType _ | .generalRef _ => True

instance : DecidablePred Event.Plain
  | .start tag | .empty tag => inferInstanceAs (Decidable tag.Plain)
  | .close name => inferInstanceAs (Decidable (PlainName name))
  | .text _ | .cData _ | .comment _ | .decl _ | .pi _ | .docType _ | .generalRef _ => .isTrue trivial

/-! ### Reading tokens -/

/-- The tokens of a list of events without self-closing tags. A tag may be spelled by another one that is the same in
some respect. -/
inductive Spells (same : Tag → Tag → Prop) : List Event → List Token → Prop
  | nil : Spells same [] []
  | start {tag tag' : Tag} {events : List Event} {tokens : List Token} (htag : same tag tag')
      (hrest : Spells same events tokens) : Spells same (.start tag :: events) (.opening tag' :: tokens)
  | close {name : Text} {events : List Event} {tokens : List Token} (hrest : Spells same events tokens) :
      Spells same (.close name :: events) (.closing name :: tokens)
  | text {content : Text} {events : List Event} {tokens : List Token} (hrest : Spells same events tokens) :
      Spells same (.text content :: events) (content.map .char ++ tokens)
  | cData {content : Text} {events : List Event} {tokens : List Token} (hrest : Spells same events tokens) :
      Spells same (.cData content :: events) (content.map .char ++ tokens)
  | skip {e : Event} {events : List Event} {tokens : List Token} (he : e.isSkipped = true)
      (hrest : Spells same events tokens) : Spells same (e :: events) tokens

variable {tokens : List Token}

theorem Spells.imp {same same' : Tag → Tag → Prop}
    (h : Spells same events tokens) (himp : ∀ tag tag', .start tag ∈ events → same tag tag' → same' tag tag') :
    Spells same' events tokens := by
  induction h with
  | nil => exact .nil
  | start htag hrest ih =>
    exact .start (himp _ _ mem_cons_self htag) (ih fun t t' ht => himp t t' (mem_cons_of_mem _ ht))
  | close hrest ih => exact .close (ih fun t t' ht => himp t t' (mem_cons_of_mem _ ht))
  | text hrest ih => exact .text (ih fun t t' ht => himp t t' (mem_cons_of_mem _ ht))
  | cData hrest ih => exact .cData (ih fun t t' ht => himp t t' (mem_cons_of_mem _ ht))
  | skip he hrest ih => exact .skip he (ih fun t t' ht => himp t t' (mem_cons_of_mem _ ht))

namespace Walk

/-- The tokens are read with all the characters between two tags as one text. -/
def readTokens (w : Walk σ) (s : σ) (pending : Text) : List Token → σ
  | [] => w.read s pending
  | .opening tag :: tokens => w.readTokens (w.onTag (w.read s pending) tag) [] tokens
  | .closing name :: tokens => w.readTokens (w.onClose (w.read s pending) name) [] tokens
  | .char c :: tokens => w.readTokens s (pending ++ [c]) tokens

theorem readTokens_chars (w : Walk σ) (s : σ) (pending content : Text) (tokens : List Token) :
    w.readTokens s pending (content.map .char ++ tokens) = w.readTokens s (pending ++ content) tokens := by
  induction content generalizing pending with
  | nil => rw [map_nil, nil_append, append_nil]
  | cons c content ih =>
    rw [map_cons, cons_append, readTokens, ih, append_assoc]
    rfl

/-- Where texts make a difference, the stretch up to the next tag has had none so far (or only blanks), and no CDATA
section adds to it. -/
def takesWhole (w : Walk σ) (s : σ) (seen : Bool) : Event → Bool
  | .text content => !w.heeds s || trimBlank content = [] || !seen
  | .cData content => !w.heeds s || trimBlank content = []
  | .start _ | .close _ | .empty _ | .comment _ | .decl _ | .pi _ | .docType _ | .generalRef _ => true

def seenAfter (seen : Bool) : Event → Bool
  | .start _ | .close _ | .empty _ => false
  | .text content => seen || trimBlank content ≠ []
  | .cData _ | .comment _ | .decl _ | .pi _ | .docType _ | .generalRef _ => seen

/-- Each stretch of text that makes a difference comes as one text. -/
def whole (w : Walk σ) (s : σ) (seen : Bool) : List Event → Bool
  | [] => true
  | e :: events => w.takesWhole s seen e && w.whole (w.stepTrimmed s e) (seenAfter seen e) events

variable (w : Walk σ) {more : Text} {seen : Bool}

theorem heeds_read (s : σ) (content : Text) : w.heeds (w.read s content) = w.heeds s := by
  rw [read]
  split
  · rfl
  · exact w.heeds_onText s _

variable {s : σ} {content pending : Text}

theorem read_of_not_heeds (content : Text) (h : w.heeds s = false) : w.read s content = s := by
  rw [read]
  split
  · rfl
  · exact w.onText_of_not_heeds s _ h

theorem read_append_right (s : σ) (h : trimBlank more = []) : w.read s (content ++ more) = w.read s content := by
  rw [read, read, trimBlank_append_right h]

theorem read_append_left (s : σ) (h : trimBlank content = []) :
    w.read s (content ++ more) = w.read (w.read s content) more := by
  rw [read, trimBlank_append_left h, read, read, if_pos h]

theorem read_text (hseen : w.heeds s → seen = false → trimBlank pending = [])
    (hwhole : w.takesWhole s seen (.text content)) :
    w.read (w.read s pending) content = w.read s (pending ++ content) := by
  cases hheeds : w.heeds s with
  | false => rw [w.read_of_not_heeds _ hheeds, w.read_of_not_heeds _ hheeds, w.read_of_not_heeds _ hheeds]
  | true =>
    by_cases hblank : trimBlank content = []
    · rw [w.read_append_right s hblank]
      exact if_pos hblank
    · have hfirst : seen = false := by simpa [takesWhole, hheeds, hblank] using hwhole
      rw [w.read_append_left s (hseen hheeds hfirst)]

theorem read_cData (hblank : w.heeds s → trimBlank content = []) :
    w.read s pending = w.read s (pending ++ content) := by
  cases hheeds : w.heeds s with
  | false => rw [w.read_of_not_heeds _ hheeds, w.read_of_not_heeds _ hheeds]
  | true => rw [w.read_append_right s (hblank hheeds)]

theorem blank_append (hseen : w.heeds s → seen = false → trimBlank pending = [])
    (hcontent : w.heeds s → seen = false → trimBlank content = []) :
    w.heeds s → seen = false → trimBlank (pending ++ content) = [] := by
  intro hheeds hfirst
  rw [trimBlank_append_left (hseen hheeds hfirst)]
  exact hcontent hheeds hfirst

theorem read_nil (s : σ) : w.read s [] = s := rfl

/-- **Whole texts**: a walk that takes each stretch of text as a whole reads in the events what it reads in the
tokens. -/
theorem foldl_eq_readTokens
    (hspells : Spells (fun tag tag' => ∀ s, w.onTag s tag = w.onTag s tag') events tokens) (s : σ)
    (pending : Text) (seen : Bool) (hseen : w.heeds s → seen = false → trimBlank pending = [])
    (hwhole : w.whole (w.read s pending) seen events) :
    events.foldl w.stepTrimmed (w.read s pending) = w.readTokens s pending tokens := by
  -- The induction is on the spelling; what has been read of a stretch is the state before it with the stretch so far.
  induction hspells generalizing s pending seen with
  | nil => rfl
  | start htag hrest ih =>
    rw [whole, Bool.and_eq_true] at hwhole
    rw [foldl_cons, readTokens, ← htag]
    exact ih _ [] false (fun _ _ => rfl) hwhole.2
  | close hrest ih =>
    rw [whole, Bool.and_eq_true] at hwhole
    rw [foldl_cons, readTokens]
    exact ih _ [] false (fun _ _ => rfl) hwhole.2
  | @text content events tokens hrest ih =>
    rw [whole, Bool.and_eq_true, takesWhole, heeds_read] at hwhole
    have hread := w.read_text hseen hwhole.1
    rw [foldl_cons, stepTrimmed, hread, readTokens_chars]
    rw [stepTrimmed, hread] at hwhole
    apply ih s _ _ _ hwhole.2
    intro hheeds hfirst
    rw [seenAfter, Bool.or_eq_false_iff, decide_eq_false_iff_not, not_not] at hfirst
    exact w.blank_append (fun h _ => hseen h hfirst.1) (fun _ _ => hfirst.2) hheeds rfl
  | @cData content events tokens hrest ih =>
    rw [whole, Bool.and_eq_true, takesWhole, heeds_read] at hwhole
    have hblank : w.heeds s → trimBlank content = [] := by
      intro hheeds
      simpa [hheeds] using hwhole.1
    have hstep : w.stepTrimmed (w.read s pending) (.cData content) = w.read s (pending ++ content) :=
      w.read_cData hblank
    rw [hstep] at hwhole
    rw [foldl_cons, readTokens_chars, hstep]
    apply ih s _ _ _ hwhole.2
    intro hheeds hfirst
    exact w.blank_append hseen (fun h _ => hblank h) hheeds hfirst
  | @skip e events tokens he hrest ih =>
    rw [whole, Bool.and_eq_true] at hwhole
    rw [foldl_cons]
    cases e with
    | comment | decl | pi | docType | generalRef => exact ih s pending seen hseen hwhole.2
    | start | close | empty | text | cData => cases he

theorem whole_of_deaf (hdeaf : ∀ s, w.heeds s = false) (s : σ) (seen : Bool) (events : List Event) :
    w.whole s seen events := by
  induction events generalizing s seen with
  | nil => rfl
  | cons e events ih =>
    rw [whole, ih, Bool.and_true]
    cases e with
    | text | cData => rw [takesWhole, hdeaf]; rfl
    | start | close | empty | comment | decl | pi | docType | generalRef => rfl

theorem run_eq_readTokens
    (hspells : Spells (fun tag tag' => ∀ s, w.onTag s tag = w.onTag s tag') (events.flatMap Event.expanded) tokens)
    (hempty : ∀ tag, .empty tag ∈ events → ∀ s, w.onClose (w.onTag s tag) tag.name = w.onTag s tag) (s : σ)
    (hwhole : w.whole s false (events.flatMap Event.expanded)) :
    w.run s (events.filterMap Event.trimmed) = w.readTokens s [] tokens := by
  rw [run_trimmed, ← w.foldl_expanded hempty]
  exact w.foldl_eq_readTokens hspells s [] false (fun _ _ => rfl) hwhole

end Walk

end Base.Xml
