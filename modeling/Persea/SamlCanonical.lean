import Persea.BaseStore
import Persea.BaseXml

/-! `exclusive_canonicalize` of `auth_providers/saml.rs`. The canonical form spells a list of tokens: the tags with
sorted attributes and the declarations in scope, and the characters of texts and of CDATA sections alike. -/

namespace Persea.Saml

open Base Base.Xml List Option

def collapse (prevSpace : Bool) : Text → Text
  | [] => []
  | c :: s =>
    if isBlank c then if prevSpace then collapse true s else ' ' :: collapse true s
    else c :: collapse false s

def normalizeAttrWhitespace (s : Text) : Text := collapse false s

def escapeTextChar (c : Char) : Text :=
  if c = '&' then "&amp;"
  else if c = '<' then "&lt;"
  else if c = '>' then "&gt;"
  else [c]

def escapeText (s : Text) : Text := s.flatMap escapeTextChar

def escapeAttrChar (c : Char) : Text :=
  if c = '&' then "&amp;"
  else if c = '<' then "&lt;"
  else if c = '>' then "&gt;"
  else if c = '"' then "&quot;"
  else if c = '\'' then "&apos;"
  else [c]

def xmlns : Text := "xmlns"

def sortUri (qualifier : Text) : Text :=
  if qualifier = "samlp" then "urn:oasis:names:tc:SAML:2.0:protocol"
  else if qualifier = "saml" then "urn:oasis:names:tc:SAML:2.0:assertion"
  else if qualifier = "md" then "urn:oasis:names:tc:SAML:2.0:metadata"
  else if qualifier = "ds" then "http://www.w3.org/2000/09/xmldsig#"
  else qualifier

def attrSortKey (key : Text) : Text × Text :=
  if key = xmlns then ([], [])
  else if (xmlns ++ [':']).isPrefixOf key then ([], key.drop 6)
  else
    match Text.splitOnce ':' key with
    | some (qualifier, localName) => (sortUri qualifier, localName)
    | none => ([], key)

def sortAttrLe (a b : Text) : Bool :=
  if (attrSortKey a).1 = (attrSortKey b).1 then Text.lexLe (attrSortKey a).2 (attrSortKey b).2
  else Text.lexLe (attrSortKey a).1 (attrSortKey b).1

def sortAttrs (attrs : List (Text × Text)) : List (Text × Text) :=
  attrs.insertionSort fun a b => sortAttrLe a.1 b.1 = true

theorem sortAttrLe_self (key : Text) : sortAttrLe key key := by
  rw [sortAttrLe, if_pos rfl]
  exact Text.lexLe_self _

theorem mem_sortAttrs {a : Text × Text} {attrs : List (Text × Text)} : a ∈ sortAttrs attrs ↔ a ∈ attrs :=
  mem_insertionSort _

theorem filter_sortAttrs (key : Text) (attrs : List (Text × Text)) :
    (sortAttrs attrs).filter (fun a => a.1 = key) = attrs.filter fun a => a.1 = key := by
  apply Text.filter_insertionSort
  intro a b ha hb
  rw [of_decide_eq_true ha, of_decide_eq_true hb]
  exact sortAttrLe_self key

def isNs (key : Text) : Bool := xmlns.isPrefixOf key

/-- What is declared by a key that starts with `xmlns`. The slice `&k[6..]` panics inside a character. -/
def declared (key : Text) : Option Text :=
  match key.drop 5 with
  | [] => some []
  | c :: rest => if c.utf8Size = 1 then some rest else none

def ownNs (tag : Tag) : List (Text × Text) :=
  (tag.attributes.filter fun a => isNs a.1).map fun a => (a.1, normalizeAttrWhitespace a.2)

def ownAttrs (tag : Tag) : List (Text × Text) :=
  (tag.attributes.filter fun a => !isNs a.1).map fun a => (a.1, normalizeAttrWhitespace a.2)

def declare (nsMap : Store Text Text) (tag : Tag) : Option (Store Text Text) :=
  (tag.attributes.filter fun a => isNs a.1).foldlM (fun m a => (declared a.1).map fun p => m.insert p a.2) nsMap

/-- `ns_stack`, the innermost map first, and `ns_in_scope`. -/
structure Scope where
  nsStack : List (Store Text Text)
  nsInScope : List (Text × Text)

def Scope.new : Scope := ⟨[], []⟩

variable (scope : Scope)

/-- `all_ns`: the parent's declarations, as far as they are not overridden, and the tag's own. -/
def Scope.allNs (tag : Tag) : List (Text × Text) :=
  sortAttrs ((scope.nsInScope.filter fun a => a.1 ∉ (ownNs tag).map (·.1)) ++ ownNs tag)

def Scope.outputTag (tag : Tag) : Tag := ⟨tag.name, sortAttrs (scope.allNs tag ++ ownAttrs tag)⟩

def nsEntry (e : (_ : Text) × Text) : Text × Text := (if e.1 = [] then xmlns else xmlns ++ ':' :: e.1, e.2)

def Scope.pop : Scope :=
  match scope.nsStack with
  | [] => scope
  | [_] => ⟨[], []⟩
  | _ :: parent :: rest => ⟨parent :: rest, sortAttrs (parent.entries.map nsEntry)⟩

def Scope.step : Event → Option (Scope × Text)
  | .start tag =>
    (declare (scope.nsStack.head?.getD ∅) tag).map fun nsMap =>
      (⟨nsMap :: scope.nsStack, scope.allNs tag⟩, writeTag escapeAttrChar (scope.outputTag tag))
  | .empty tag =>
    (declare (scope.nsStack.head?.getD ∅) tag).map fun _ =>
      (scope, writeTag escapeAttrChar (scope.outputTag tag) ++ writeClose tag.name)
  | .close name => some (scope.pop, writeClose name)
  | .text content | .cData content => some (scope, escapeText content)
  | .comment _ | .decl _ | .pi _ | .docType _ | .generalRef _ => some (scope, [])

def canonicalizeEvents (scope : Scope) : List Event → Option Text
  | [] => some []
  | e :: events =>
    (scope.step e).bind fun (scope, out) => (canonicalizeEvents scope events).map fun rest => out ++ rest

/-- The walk ends without a word at an error of the parser, and a panic is `none`. -/
def exclusiveCanonicalize (read : Bool → Text → Reading) (xml : Text) : Option Text :=
  canonicalizeEvents Scope.new (read false xml).events

/-! ### The tokens of the canonical form -/

theorem escapeTextChar_code : Code escapeTextChar '<' where
  unique := by
    intro c d x y h
    simp only [escapeTextChar] at h
    split_ifs at h <;> grind
  notMem := by
    intro c
    unfold escapeTextChar
    split_ifs <;> simp_all [eq_comm]
  ne_nil := by
    intro c
    unfold escapeTextChar
    split_ifs <;> simp

theorem escapeAttrChar_code : Code escapeAttrChar '"' where
  unique := by
    intro c d x y h
    simp only [escapeAttrChar] at h
    split_ifs at h <;> grind
  notMem := by
    intro c
    unfold escapeAttrChar
    split_ifs <;> simp_all [eq_comm]
  ne_nil := by
    intro c
    unfold escapeAttrChar
    split_ifs <;> simp

def NsAttr (a : Text × Text) : Prop := isNs a.1 = true ∧ '=' ∉ a.1

structure Scope.Plain (scope : Scope) : Prop where
  inScope : ∀ a ∈ scope.nsInScope, NsAttr a
  stack : ∀ m ∈ scope.nsStack, ∀ p ∈ m, '=' ∉ p

theorem Scope.plain_new : Scope.new.Plain := ⟨by simp [Scope.new], by simp [Scope.new]⟩

section Attributes

variable {scope : Scope} {tag : Tag}

theorem nsAttr_of_mem_ownNs (htag : tag.Plain) {a : Text × Text} (ha : a ∈ ownNs tag) : NsAttr a := by
  obtain ⟨b, hb, rfl⟩ := List.mem_map.mp ha
  exact ⟨(mem_filter.mp hb).2, htag.keys b (mem_filter.mp hb).1⟩

theorem nsAttr_of_mem_allNs (hscope : scope.Plain) (htag : tag.Plain) {a : Text × Text} (ha : a ∈ scope.allNs tag) :
    NsAttr a := by
  rcases mem_append.mp (mem_sortAttrs.mp ha) with hparent | hown
  · exact hscope.inScope a (mem_filter.mp hparent).1
  · exact nsAttr_of_mem_ownNs htag hown

theorem plain_outputTag (hscope : scope.Plain) (htag : tag.Plain) : (scope.outputTag tag).Plain where
  name := htag.name
  keys := by
    intro a ha
    rcases mem_append.mp (mem_sortAttrs.mp ha) with hns | hown
    · exact (nsAttr_of_mem_allNs hscope htag hns).2
    · obtain ⟨b, hb, rfl⟩ := List.mem_map.mp hown
      exact htag.keys b (mem_filter.mp hb).1

/-- The tag is kept, with its own attributes: their values normalized, in the order that they have for each key. -/
def Keeps (tag tag' : Tag) : Prop :=
  tag'.name = tag.name ∧ ∀ key, isNs key = false → tag'.values key = (tag.values key).map normalizeAttrWhitespace

theorem values_ownAttrs {key : Text} (hkey : isNs key = false) :
    ((ownAttrs tag).filter fun a => a.1 = key).map (·.2) = (tag.values key).map normalizeAttrWhitespace := by
  have hfilter : (tag.attributes.filter fun a => !isNs a.1).filter (fun a => a.1 = key) =
      tag.attributes.filter fun a => a.1 = key := by
    rw [List.filter_filter]
    apply filter_congr
    intro a _
    by_cases ha : a.1 = key
    · simp [ha, hkey]
    · simp [ha]
  rw [ownAttrs, List.filter_map, List.map_map, Tag.values, List.map_map, ← hfilter]
  rfl

theorem keeps_outputTag (hscope : scope.Plain) (htag : tag.Plain) : Keeps tag (scope.outputTag tag) := by
  refine ⟨rfl, ?_⟩
  intro key hkey
  have hns : (scope.allNs tag).filter (fun a => a.1 = key) = [] := by
    rw [filter_eq_nil_iff]
    intro a ha heq
    have hin := (nsAttr_of_mem_allNs hscope htag ha).1
    rw [of_decide_eq_true heq, hkey] at hin
    cases hin
  rw [Tag.values, Scope.outputTag, filter_sortAttrs, filter_append, hns, nil_append, values_ownAttrs hkey]

end Attributes

theorem notMem_declared {key p : Text} (hkey : '=' ∉ key) (h : declared key = some p) : '=' ∉ p := by
  intro hp
  apply hkey
  apply mem_of_mem_drop (i := 5)
  rw [declared] at h
  cases hdrop : key.drop 5 with
  | nil =>
    rw [hdrop] at h
    cases h
    cases hp
  | cons c rest =>
    simp only [hdrop] at h
    split at h
    · cases h
      exact mem_cons_of_mem c hp
    · cases h

theorem plain_declare {m m' : Store Text Text} {tag : Tag} (hm : ∀ p ∈ m, '=' ∉ p) (htag : tag.Plain)
    (h : declare m tag = some m') : ∀ p ∈ m', '=' ∉ p := by
  have hkeys : ∀ a ∈ tag.attributes.filter fun a => isNs a.1, '=' ∉ a.1 := by
    intro a ha
    exact htag.keys a (mem_filter.mp ha).1
  unfold declare at h
  generalize tag.attributes.filter (fun a => isNs a.1) = attrs at hkeys h
  induction attrs generalizing m with
  | nil =>
    cases h
    exact hm
  | cons a attrs ih =>
    rw [foldlM_cons, bind_eq_bind, Option.bind_eq_some_iff] at h
    obtain ⟨m₁, hinsert, hrest⟩ := h
    obtain ⟨q, hq, rfl⟩ := map_eq_some_iff.mp hinsert
    apply ih _ (fun b hb => hkeys b (mem_cons_of_mem a hb)) hrest
    intro p hp
    rcases (AList.mem_insert m).mp hp with rfl | hp
    · exact notMem_declared (hkeys a mem_cons_self) hq
    · exact hm p hp

theorem nsAttr_nsEntry {m : Store Text Text} (hm : ∀ p ∈ m, '=' ∉ p) {e : (_ : Text) × Text} (he : e ∈ m.entries) :
    NsAttr (nsEntry e) := by
  have hp : '=' ∉ e.1 := hm e.1 (mem_keys_of_mem he)
  by_cases hempty : e.1 = []
  · rw [nsEntry, if_pos hempty]
    exact ⟨rfl, (by decide : '=' ∉ xmlns)⟩
  · rw [nsEntry, if_neg hempty]
    refine ⟨?_, ?_⟩
    · exact isPrefixOf_iff_prefix.mpr (prefix_append _ _)
    · have hxmlns : '=' ∉ xmlns := by decide
      simp [hxmlns, hp]

theorem Scope.Plain.pop {scope : Scope} (hscope : scope.Plain) : scope.pop.Plain := by
  obtain ⟨stack, inScope⟩ := scope
  rcases stack with - | ⟨top, - | ⟨parent, rest⟩⟩
  · exact hscope
  · exact Scope.plain_new
  · have hrest : ∀ m ∈ parent :: rest, ∀ p ∈ m, '=' ∉ p := by
      intro m hm
      exact hscope.stack m (mem_cons_of_mem top hm)
    refine ⟨?_, hrest⟩
    intro a ha
    obtain ⟨e, he, rfl⟩ := List.mem_map.mp (mem_sortAttrs.mp ha)
    exact nsAttr_nsEntry (hrest parent mem_cons_self) he

theorem Scope.Plain.top {scope : Scope} (hscope : scope.Plain) : ∀ p ∈ scope.nsStack.head?.getD ∅, '=' ∉ p := by
  intro p hp
  cases hstack : scope.nsStack with
  | nil =>
    rw [hstack] at hp
    exact absurd hp (AList.notMem_empty p)
  | cons m rest =>
    rw [hstack] at hp
    apply hscope.stack m _ p hp
    rw [hstack]
    exact mem_cons_self

def writeToken : Token → Text := Token.write escapeTextChar escapeAttrChar

theorem flatMap_chars (content : Text) : (content.map Token.char).flatMap writeToken = escapeText content := by
  rw [flatMap_map]
  rfl

theorem plain_chars (content : Text) : ∀ t ∈ content.map Token.char, t.Plain := by
  intro t ht
  obtain ⟨c, -, rfl⟩ := List.mem_map.mp ht
  trivial

theorem Scope.Plain.step_spells {scope scope' : Scope} {e : Event} {out : Text} (hscope : scope.Plain) (he : e.Plain)
    (h : scope.step e = some (scope', out)) :
    scope'.Plain ∧ ∃ tokens : List Token, out = tokens.flatMap writeToken ∧ (∀ t ∈ tokens, t.Plain) ∧
      ∀ {events : List Event} {rest : List Token}, Spells Keeps events rest →
        Spells Keeps (e.expanded ++ events) (tokens ++ rest) := by
  cases e with
  | start tag =>
    obtain ⟨m, hm, heq⟩ := map_eq_some_iff.mp h
    cases heq
    refine ⟨⟨fun a ha => nsAttr_of_mem_allNs hscope he ha, ?_⟩, [.opening (scope.outputTag tag)], ?_, ?_, ?_⟩
    · intro m' hm'
      rcases mem_cons.mp hm' with rfl | hm'
      · exact plain_declare hscope.top he hm
      · exact hscope.stack m' hm'
    · exact (append_nil _).symm
    · simpa [Token.Plain] using plain_outputTag hscope he
    · intro events rest hrest
      exact .start (keeps_outputTag hscope he) hrest
  | empty tag =>
    obtain ⟨m, hm, heq⟩ := map_eq_some_iff.mp h
    cases heq
    refine ⟨hscope, [.opening (scope.outputTag tag), .closing tag.name], ?_, ?_, ?_⟩
    · simp [writeToken, Token.write]
    · simpa [Token.Plain] using ⟨plain_outputTag hscope he, he.name⟩
    · intro events rest hrest
      exact .start (keeps_outputTag hscope he) (.close hrest)
  | close name =>
    cases h
    refine ⟨hscope.pop, [.closing name], (append_nil _).symm, ?_, fun hrest => .close hrest⟩
    intro t ht
    rw [mem_singleton.mp ht]
    exact he
  | text content =>
    cases h
    exact ⟨hscope, content.map .char, (flatMap_chars content).symm, plain_chars content, fun hrest => .text hrest⟩
  | cData content =>
    cases h
    exact ⟨hscope, content.map .char, (flatMap_chars content).symm, plain_chars content, fun hrest => .cData hrest⟩
  | comment | decl | pi | docType | generalRef =>
    cases h
    exact ⟨hscope, [], rfl, by simp, fun hrest => .skip rfl hrest⟩

theorem canonicalizeEvents_spells {scope : Scope} {events : List Event} {out : Text} (hscope : scope.Plain)
    (hevents : ∀ e ∈ events, e.Plain) (h : canonicalizeEvents scope events = some out) :
    ∃ tokens : List Token, out = tokens.flatMap writeToken ∧ (∀ t ∈ tokens, t.Plain) ∧
      Spells Keeps (events.flatMap Event.expanded) tokens := by
  induction events generalizing scope out with
  | nil =>
    cases h
    exact ⟨[], rfl, by simp, .nil⟩
  | cons e events ih =>
    rw [canonicalizeEvents, Option.bind_eq_some_iff] at h
    obtain ⟨⟨scope', first⟩, hstep, hmap⟩ := h
    obtain ⟨rest, hrest, rfl⟩ := map_eq_some_iff.mp hmap
    obtain ⟨hscope', tokens, rfl, hplain, hspells⟩ := hscope.step_spells (hevents e mem_cons_self) hstep
    obtain ⟨more, rfl, hmore, htail⟩ := ih hscope' (fun f hf => hevents f (mem_cons_of_mem e hf)) hrest
    refine ⟨tokens ++ more, (flatMap_append).symm, ?_, ?_⟩
    · intro t ht
      exact (mem_append.mp ht).elim (hplain t) (hmore t)
    · rw [flatMap_cons]
      exact hspells htail

theorem exists_tokens_of_canonical_eq {read : Bool → Text → Reading} {a b form : Text}
    (ha : ∀ e ∈ (read false a).events, e.Plain) (hb : ∀ e ∈ (read false b).events, e.Plain)
    (hforma : exclusiveCanonicalize read a = some form) (hformb : exclusiveCanonicalize read b = some form) :
    ∃ tokens, Spells Keeps ((read false a).events.flatMap Event.expanded) tokens ∧
      Spells Keeps ((read false b).events.flatMap Event.expanded) tokens := by
  obtain ⟨tokens, rfl, hplain, hspells⟩ := canonicalizeEvents_spells Scope.plain_new ha hforma
  obtain ⟨tokens', heq, hplain', hspells'⟩ := canonicalizeEvents_spells Scope.plain_new hb hformb
  obtain rfl : tokens = tokens' := write_inj escapeTextChar_code escapeAttrChar_code hplain hplain' heq
  exact ⟨tokens, hspells, hspells'⟩

end Persea.Saml
