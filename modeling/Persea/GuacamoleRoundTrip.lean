import Persea.GuacamoleScan

/-! The tables that are read from a dump. The table of a statement is looked for in all of its text, so that a value can
pass a statement off as one of another table. Where no value does, and every value can be read, the dump is read as it
was written. -/

namespace Persea.Guacamole

open Base Base.Text Protocol List Literal

/-! ### Texts in a statement -/

theorem infix_append_cons_iff {needle a b : Text} {c : Char} (hc : c ∉ needle) :
    needle <:+: a ++ c :: b ↔ needle <:+: a ∨ needle <:+: b := by
  constructor
  · rintro ⟨before, after, heq⟩
    rw [append_assoc] at heq
    rcases append_eq_append_iff.mp heq with ⟨mid, rfl, hmid⟩ | ⟨mid, rfl, hmid⟩
    · left
      rcases append_eq_append_iff.mp hmid with ⟨more, rfl, -⟩ | ⟨more, rfl, hmore⟩
      · exact ⟨before, more, append_assoc _ _ _⟩
      · cases more with
        | nil => exact ⟨before, [], by simp⟩
        | cons d more =>
          obtain rfl : c = d := (cons.inj hmore).1
          exact absurd (by simp) hc
    · cases mid with
      | nil =>
        cases needle with
        | nil => exact .inl nil_infix
        | cons d needle =>
          obtain rfl : c = d := (cons.inj hmid).1
          exact absurd mem_cons_self hc
      | cons d mid => exact .inr ⟨mid, after, by rw [append_assoc]; exact (cons.inj hmid).2.symm⟩
  · rintro (h | h)
    · exact h.trans (prefix_append a _).isInfix
    · exact h.trans ((suffix_cons c b).isInfix.trans (suffix_append a _).isInfix)

/-- The characters that stand outside of the quotes of a row. None of them begins the name of a table, and none has
another upper case. -/
def isOutside (c : Char) : Bool := c.toNat < 128 ∧ c.toUpper = c ∧ c ≠ '`' ∧ c ≠ ' '

section Spelling

variable {spell : Char → Text} {first : Char} {word : Text} (hspell : ∀ c, isOutside c → spell c = [c])
  (hfirst : first = '`' ∨ first = ' ') (hquote : '\'' ∉ first :: word)

include hspell hfirst

theorem infix_outside_iff {text : Text} (htext : text.all isOutside) (rest : Text) :
    first :: word <:+: (text ++ rest).flatMap spell ↔ first :: word <:+: rest.flatMap spell := by
  induction text with
  | nil => rfl
  | cons c text ih =>
    rw [all_cons, Bool.and_eq_true] at htext
    have hne : first ≠ c := by
      have hc := htext.1
      rw [isOutside, decide_eq_true_eq] at hc
      rcases hfirst with rfl | rfl
      · exact Ne.symm hc.2.2.1
      · exact Ne.symm hc.2.2.2
    rw [cons_append, flatMap_cons, hspell c htext.1, singleton_append, infix_cons_iff, cons_prefix_cons, ih htext.2]
    simp [hne]

include hquote

theorem infix_render_iff (literal : Literal) (rest : Text) :
    first :: word <:+: (literal.render ++ rest).flatMap spell ↔
      (∃ s, literal = .string s ∧ first :: word <:+: (escapeSql s).flatMap spell) ∨
        first :: word <:+: rest.flatMap spell := by
  cases literal with
  | null =>
    rw [render, infix_outside_iff hspell hfirst (by decide)]
    simp
  | int i =>
    have hall : (Rbac.i64Text i).all isOutside := by
      rw [all_eq_true]
      intro c hc
      rcases mem_i64Text hc with rfl | ⟨hfrom, hto⟩
      · decide
      · rw [← Char.ofNat_toNat c]
        interval_cases c.toNat <;> decide
    rw [render, infix_outside_iff hspell hfirst hall]
    simp
  | string s =>
    have hopen := @infix_outside_iff spell first word hspell hfirst ['\''] (by decide)
      (escapeSql s ++ '\'' :: rest)
    rw [render, append_assoc, cons_append, singleton_append]
    rw [singleton_append] at hopen
    rw [hopen, flatMap_append, flatMap_cons, hspell '\'' (by decide), singleton_append, infix_append_cons_iff hquote]
    simp

theorem infix_renderValues_iff (row : List Literal) (rest : Text) :
    first :: word <:+: (renderValues row ++ rest).flatMap spell ↔
      (∃ s, .string s ∈ row ∧ first :: word <:+: (escapeSql s).flatMap spell) ∨
        first :: word <:+: rest.flatMap spell := by
  rw [renderValues]
  induction row with
  | nil => simp
  | cons literal row ih =>
    cases row with
    | nil =>
      rw [map_singleton, intercalate_singleton, infix_render_iff hspell hfirst hquote]
      simp [eq_comm]
    | cons next row =>
      rw [map_cons, map_cons, intercalate_cons_cons, ← map_cons, append_assoc,
        append_assoc, infix_render_iff hspell hfirst hquote, infix_outside_iff hspell hfirst (by decide), ih]
      constructor
      · rintro (⟨s, rfl, hs⟩ | ⟨s, hmem, hs⟩ | hrest)
        · exact .inl ⟨s, mem_cons_self, hs⟩
        · exact .inl ⟨s, mem_cons_of_mem _ hmem, hs⟩
        · exact .inr hrest
      · rintro (⟨s, hmem, hs⟩ | hrest)
        · rcases mem_cons.mp hmem with heq | hmem
          · exact .inl ⟨s, heq.symm, hs⟩
          · exact .inr (.inl ⟨s, hmem, hs⟩)
        · exact .inr (.inr hrest)

theorem infix_renderRows_iff (rows : List (List Literal)) : first :: word <:+: (renderRows rows).flatMap spell ↔
      ∃ row ∈ rows, ∃ s, .string s ∈ row ∧ first :: word <:+: (escapeSql s).flatMap spell := by
  rw [renderRows]
  induction rows with
  | nil => simp
  | cons row rows ih =>
    have hrow : ∀ rest, first :: word <:+: (renderRow row ++ rest).flatMap spell ↔
        (∃ s, .string s ∈ row ∧ first :: word <:+: (escapeSql s).flatMap spell) ∨
          first :: word <:+: rest.flatMap spell := by
      intro rest
      have hopen := @infix_outside_iff spell first word hspell hfirst ['('] (by decide)
        (renderValues row ++ ([')'] ++ rest))
      rw [singleton_append] at hopen
      rw [renderRow, append_assoc, cons_append, hopen, infix_renderValues_iff hspell hfirst hquote,
        infix_outside_iff hspell hfirst (by decide)]
    cases rows with
    | nil =>
      have hlast := hrow []
      rw [append_nil] at hlast
      rw [map_singleton, intercalate_singleton, hlast]
      simp
    | cons next rows =>
      rw [map_cons, map_cons, intercalate_cons_cons, ← map_cons, append_assoc, hrow,
        infix_outside_iff hspell hfirst (by decide), ih]
      simp only [exists_mem_cons_iff]

theorem infix_renderInsert_iff (hline : '\n' ∉ first :: word) (table : Text) (rows : List (List Literal)) :
    first :: word <:+: (renderInsert table rows).flatMap spell ↔ first :: word <:+: (insertHead table).flatMap spell ∨
        ∃ row ∈ rows, ∃ s, .string s ∈ row ∧ first :: word <:+: (escapeSql s).flatMap spell := by
  rw [renderInsert, flatMap_append, flatMap_cons, hspell '\n' (by decide), singleton_append,
    infix_append_cons_iff hline, infix_renderRows_iff hspell hfirst hquote]

end Spelling

def Marked (u : Uppercase) (table s : Text) : Prop :=
  '`' :: table ++ ['`'] <:+: escapeSql s ∨ ' ' :: toUppercase u table ++ [' '] <:+: toUppercase u (escapeSql s) ∨
    ' ' :: toUppercase u table ++ ['('] <:+: toUppercase u (escapeSql s)

variable {table other : Text} {α : Type} {statements : List (List α)} {β : Type} {taken : List α → Bool}

theorem table_facts (h : table ∈ tables) : table.all (·.toNat < 128) ∧
    ('\'' ∉ table ∧ '\n' ∉ table ∧ '\'' ∉ table.map Char.toUpper ∧ '\n' ∉ table.map Char.toUpper) ∧
    "INSERT INTO" <+: (insertHead table).map Char.toUpper := by
  simp only [tables_eq, mem_cons, not_mem_nil, or_false] at h
  rw [insertHead_eq]
  rcases h with rfl | rfl | rfl <;> decide +kernel

theorem tick_insertHead_iff (htable : table ∈ tables) (hother : other ∈ tables) :
    '`' :: other ++ ['`'] <:+: insertHead table ↔ other = table := by
  simp only [tables_eq, mem_cons, not_mem_nil, or_false] at htable hother
  rw [insertHead_eq]
  rcases htable with rfl | rfl | rfl <;> rcases hother with rfl | rfl | rfl <;> decide +kernel

theorem not_space_infix_insertHead (htable : table ∈ tables) (hother : other ∈ tables) (last : Char) :
    ¬ ' ' :: other.map Char.toUpper ++ [last] <:+: (insertHead table).map Char.toUpper := by
  have hspace : ¬[' ', 'G'] <:+: (insertHead table).map Char.toUpper := by
    simp only [tables_eq, mem_cons, not_mem_nil, or_false] at htable
    rw [insertHead_eq]
    rcases htable with rfl | rfl | rfl <;> decide +kernel
  have hfront : [' ', 'G'] <+: ' ' :: other.map Char.toUpper ++ [last] := by
    simp only [tables_eq, mem_cons, not_mem_nil, or_false] at hother
    rcases hother with rfl | rfl | rfl <;>
      exact cons_prefix_cons.mpr ⟨rfl, cons_prefix_cons.mpr ⟨by decide, nil_prefix⟩⟩
  exact fun h => hspace (hfront.isInfix.trans h)

theorem matchesInsert_renderInsert_iff (u : Uppercase) (htable : table ∈ tables)
    (hother : other ∈ tables) (rows : List (List Literal)) :
    matchesInsert u (renderInsert table rows) other ↔
      other = table ∨ ∃ row ∈ rows, ∃ s, .string s ∈ row ∧ Marked u other s := by
  obtain ⟨-, hascii, -⟩ := insertHead_facts htable
  obtain ⟨-, -, hinsert⟩ := table_facts htable
  obtain ⟨hothers, ⟨hq, hn, hq', hn'⟩, -⟩ := table_facts hother
  have hheadUpper := toUppercase_ascii u hascii
  have hupper : ∀ c, isOutside c → u.upper c = [c] := by
    intro c hc
    rw [isOutside, decide_eq_true_eq] at hc
    rw [u.upper_ascii c hc.1, hc.2.1]
  have hinto : "INSERT INTO" <:+: toUppercase u (renderInsert table rows) := by
    rw [← hheadUpper] at hinsert
    rw [renderInsert, toUppercase, flatMap_append]
    exact hinsert.isInfix.trans (prefix_append _ _).isInfix
  have hplain := @infix_renderInsert_iff (fun c => [c]) '`' (other ++ ['`']) (fun _ _ => rfl) (.inl rfl)
    (by simp [hq]) (by simp [hn]) table rows
  simp only [flatMap_singleton'] at hplain
  have hloud : ∀ last, last = ' ' ∨ last = '(' → (' ' :: toUppercase u other ++ [last] <:+:
      toUppercase u (renderInsert table rows) ↔ ∃ row ∈ rows, ∃ s, .string s ∈ row ∧
        ' ' :: toUppercase u other ++ [last] <:+: toUppercase u (escapeSql s)) := by
    intro last hlast
    have hall := @infix_renderInsert_iff u.upper ' ' (toUppercase u other ++ [last]) hupper (.inr rfl)
      (by rw [toUppercase_ascii u hothers]; rcases hlast with rfl | rfl <;> simp [hq'])
      (by rw [toUppercase_ascii u hothers]; rcases hlast with rfl | rfl <;> simp [hn']) table rows
    have hhead : ¬ ' ' :: (toUppercase u other ++ [last]) <:+: toUppercase u (insertHead table) := by
      rw [hheadUpper, toUppercase_ascii u hothers]
      exact not_space_infix_insertHead htable hother last
    exact hall.trans (or_iff_right hhead)
  rw [matchesInsert_iff, and_iff_right hinto, cons_append, hplain, ← cons_append,
    tick_insertHead_iff htable hother, hloud ' ' (.inl rfl), hloud '(' (.inr rfl), or_assoc]
  simp only [Marked, and_or_left, exists_or]

/-! ### What is read -/

def reread (s : Text) : Text := unescapeSql (trim (escapeSql s))

theorem connectionRow_row {c : Connection} (hid : InI64 c.id) (hparent : ∀ pid ∈ c.parentId, InI64 pid) :
    connectionRow (c.row.map read) = some { c with name := reread c.name, protocol := reread c.protocol } := by
  change (parseI64 (Rbac.i64Text c.id)).map _ = _
  rw [parseI64_i64Text hid, Option.map_some, parseNullableInt_read hparent]
  rfl

theorem groupRow_row {g : Group} (hid : InI64 g.id) (hparent : ∀ pid ∈ g.parentId, InI64 pid) :
    groupRow (g.row.map read) = some { g with name := reread g.name } := by
  change (parseI64 (Rbac.i64Text g.id)).map _ = _
  rw [parseI64_i64Text hid, Option.map_some, parseNullableInt_read hparent]
  rfl

theorem parameterRow_row {p : Parameter} (hid : InI64 p.connectionId) :
    parameterRow (p.row.map read) = some { p with name := reread p.name, value := reread p.value } := by
  change (parseI64 (Rbac.i64Text p.connectionId)).map _ = _
  rw [parseI64_i64Text hid]
  rfl

theorem flatMap_eq_flatten_iff {taken : List α → Prop} [DecidablePred taken] {read : α → α} (hne : [] ∉ statements) :
    (statements.flatMap fun rows => if taken rows then rows.map read else []) = statements.flatten ↔
      ∀ rows ∈ statements, taken rows ∧ ∀ r ∈ rows, read r = r := by
  have hle : ∀ statements : List (List α),
      (statements.flatMap fun rows => if taken rows then rows.map read else []).length ≤ statements.flatten.length := by
    intro statements
    induction statements with
    | nil => exact Nat.le_refl _
    | cons rows statements ih =>
      rw [flatMap_cons, flatten_cons, length_append, length_append]
      apply Nat.add_le_add _ ih
      split_ifs
      · rw [length_map]
      · exact Nat.zero_le _
  induction statements with
  | nil => simp
  | cons rows statements ih =>
    rw [mem_cons, not_or] at hne
    rw [flatMap_cons, flatten_cons, forall_mem_cons]
    refine Iff.trans ?_ (and_congr_right' (ih hne.2))
    constructor
    · intro h
      have hlength := congrArg length h
      rw [length_append, length_append] at hlength
      have hrest := hle statements
      -- the first statement cannot be left out, because the others do not make up for it
      have htaken : taken rows := by
        by_contra hnot
        rw [if_neg hnot, length_nil] at hlength
        have hpos := length_pos_iff.mpr (Ne.symm hne.1)
        omega
      rw [if_pos htaken] at h
      obtain ⟨hrows, hothers⟩ := append_inj h (length_map _)
      refine ⟨⟨htaken, fun r hr => ?_⟩, hothers⟩
      exact map_inj_left.mp (hrows.trans (map_id rows).symm) r hr
    · rintro ⟨⟨htaken, hread⟩, hothers⟩
      rw [if_pos htaken, hothers, map_congr_left hread, map_id']

theorem flatMap_of_not_taken {read : List α → List β} (h : ∀ rows ∈ statements, taken rows = false) :
    (statements.flatMap fun rows => if taken rows then read rows else []) = [] := by
  rw [flatMap_eq_nil_iff]
  intro rows hrows
  rw [h rows hrows]
  rfl

variable {read : α → Option β} {result : α → β}

theorem flatMap_of_read (h : ∀ rows ∈ statements, ∀ r ∈ rows, read r = some (result r)) :
    (statements.flatMap fun rows => if taken rows then rows.filterMap read else []) =
      statements.flatMap fun rows => if taken rows then rows.map result else [] := by
  apply flatMap_congr
  intro rows hrows
  rw [filterMap_congr (h rows hrows)]
  exact if_congr Iff.rfl (congrFun (filterMap_eq_map (f := result)) rows) rfl

theorem flatMap_of_taken (h : ∀ rows ∈ statements, taken rows) :
    (statements.flatMap fun rows => if taken rows then rows.map result else []) = statements.flatten.map result := by
  rw [map_flatten, ← flatMap_def]
  apply flatMap_congr
  intro rows hrows
  rw [h rows hrows, if_pos rfl]

theorem flatMap_eq_nil_iff_not_taken {taken : List α → Prop} [DecidablePred taken] (hne : [] ∉ statements)
    (hread : ∀ rows ∈ statements, ∀ r ∈ rows, (read r).isSome) :
    (statements.flatMap fun rows => if taken rows then rows.filterMap read else []) = [] ↔
      ∀ rows ∈ statements, ¬taken rows := by
  rw [flatMap_eq_nil_iff]
  refine forall₂_congr fun rows hrows => ?_
  by_cases htaken : taken rows
  · rw [if_pos htaken]
    refine iff_of_false ?_ (not_not_intro htaken)
    obtain ⟨r, hr⟩ := exists_mem_of_ne_nil rows fun hnil => hne (hnil ▸ hrows)
    intro hnil
    have hnone := filterMap_eq_nil_iff.mp hnil r hr
    have hsome := hread rows hrows r hr
    rw [hnone] at hsome
    cases hsome
  · simp [htaken]

theorem map_append_eq_self_iff {read : α → α} {l extra : List α} :
    l.map read ++ extra = l ↔ (∀ a ∈ l, read a = a) ∧ extra = [] := by
  constructor
  · intro h
    obtain ⟨hsame, hnil⟩ := append_inj (h.trans (append_nil l).symm) (length_map _)
    exact ⟨map_inj_left.mp (hsame.trans (map_id l).symm), hnil⟩
  · rintro ⟨hread, rfl⟩
    rw [append_nil, map_congr_left hread, map_id']

def valuesOf (rows : List Parameter) (id : Int) : List (Text × Text) :=
  (rows.filter fun p => p.connectionId = id).map fun p => (p.name, p.value)

theorem valuesOf_append (a b : List Parameter) (id : Int) : valuesOf (a ++ b) id = valuesOf a id ++ valuesOf b id := by
  rw [valuesOf, filter_append, map_append]
  rfl

theorem lookup_foldl_push (rows : List Parameter) (results : Parameters) (id : Int) :
    (rows.foldl Parameters.push results).lookup id =
      if valuesOf rows id = [] then results.lookup id
      else some ((results.lookup id).getD [] ++ valuesOf rows id) := by
  induction rows generalizing results with
  | nil => rfl
  | cons p rows ih =>
    rw [foldl_cons, ih]
    by_cases hid : id = p.connectionId
    · subst hid
      have hcons : valuesOf (p :: rows) p.connectionId = (p.name, p.value) :: valuesOf rows p.connectionId := by
        simp [valuesOf]
      rw [hcons, if_neg (cons_ne_nil _ _), Parameters.push, AList.lookup_insert]
      split_ifs with hrows
      · rw [hrows]
      · simp
    · have hcons : valuesOf (p :: rows) id = valuesOf rows id := by simp [valuesOf, Ne.symm hid]
      rw [hcons, Parameters.push, AList.lookup_insert_ne hid]

theorem lookup_parameters_iff {rows rows' : List Parameter} {id : Int} : (rows.foldl Parameters.push ∅).lookup id =
        (if valuesOf rows' id = [] then none else some (valuesOf rows' id)) ↔ valuesOf rows id = valuesOf rows' id := by
  rw [lookup_foldl_push, AList.lookup_empty]
  by_cases hrows : valuesOf rows id = [] <;> by_cases hrows' : valuesOf rows' id = []
  · rw [if_pos hrows, if_pos hrows', hrows, hrows']
    exact iff_of_true rfl rfl
  · rw [if_pos hrows, if_neg hrows', hrows]
    exact iff_of_false (Option.some_ne_none _).symm (Ne.symm hrows')
  · rw [if_neg hrows, if_pos hrows', hrows']
    exact iff_of_false (Option.some_ne_none _) hrows
  · rw [if_neg hrows, if_neg hrows', Option.some.injEq, Option.getD_none, nil_append]

theorem valuesOf_eq_iff {extra rows : List Parameter} {read : Parameter → Parameter}
    (hread : ∀ p, (read p).connectionId = p.connectionId) :
    (∀ id, valuesOf (extra ++ rows.map read) id = valuesOf rows id) ↔ extra = [] ∧ ∀ p ∈ rows, read p = p := by
  have hfilter : ∀ id, (rows.map read).filter (fun p => p.connectionId = id) =
      (rows.filter fun p => p.connectionId = id).map read := by
    intro id
    rw [filter_map]
    congr 1
    apply filter_congr
    intro p _
    rw [Function.comp_apply, hread]
  constructor
  · intro h
    have hextra : extra = [] := by
      rw [eq_nil_iff_forall_not_mem]
      intro p hp
      have hlength := congrArg length (h p.connectionId)
      rw [valuesOf_append, length_append, valuesOf, valuesOf, valuesOf, hfilter] at hlength
      simp only [length_map] at hlength
      have hpos : 0 < (extra.filter fun q => q.connectionId = p.connectionId).length :=
        length_pos_iff.mpr (ne_nil_of_mem (mem_filter.mpr ⟨hp, by simp⟩))
      omega
    refine ⟨hextra, fun p hp => ?_⟩
    have hp' := h p.connectionId
    rw [hextra, nil_append, valuesOf, hfilter, map_map, valuesOf, map_inj_left] at hp'
    have hpair := Prod.mk.inj (hp' p (mem_filter.mpr ⟨hp, by simp⟩))
    have hid := hread p
    cases hq : read p with
    | mk connectionId name value =>
      rw [hq] at hpair hid
      cases p
      cases hid
      cases hpair.1
      cases hpair.2
      rfl
  · rintro ⟨rfl, hrows⟩ id
    rw [nil_append, map_congr_left hrows, map_id']

/-! ### The tables of a dump -/

theorem Dump.inserts_wellFormed (d : Dump) :
    ∀ insert ∈ d.inserts, insert.1 ∈ tables ∧ insert.2 ≠ [] ∧ [] ∉ insert.2 := by
  obtain ⟨hconnections, hgroups, hparameters⟩ := d.rows_ne_nil
  have hrow : ∀ {α : Type} {row : α → List Literal} {rows : List α}, (∀ r, row r ≠ []) → [] ∉ rows.map row := by
    intro α row rows hne hmem
    obtain ⟨r, -, hr⟩ := mem_map.mp hmem
    exact hne r hr
  intro insert hinsert
  simp only [Dump.inserts, mem_append, mem_map] at hinsert
  rcases hinsert with (⟨rows, hrows, rfl⟩ | ⟨rows, hrows, rfl⟩) | ⟨rows, hrows, rfl⟩
  · refine ⟨by simp [tables], ?_, hrow fun c => cons_ne_nil _ _⟩
    exact fun hnil => hconnections (map_eq_nil_iff.mp hnil ▸ hrows)
  · refine ⟨by simp [tables], ?_, hrow fun g => cons_ne_nil _ _⟩
    exact fun hnil => hgroups (map_eq_nil_iff.mp hnil ▸ hrows)
  · refine ⟨by simp [tables], ?_, hrow fun p => cons_ne_nil _ _⟩
    exact fun hnil => hparameters (map_eq_nil_iff.mp hnil ▸ hrows)

theorem Dump.parseTable_render (u : Uppercase) (wanted : Text → Bool) (row : List Text → Option α) (d : Dump) :
    parseTable u wanted row d.render = some (
      (d.connections.flatMap fun rows => if wanted (renderInsert connectionTable (rows.map Connection.row)) then
        rows.filterMap fun c => row (c.row.map Literal.read) else []) ++
      (d.groups.flatMap fun rows => if wanted (renderInsert groupTable (rows.map Group.row)) then
        rows.filterMap fun g => row (g.row.map Literal.read) else []) ++
      d.parameters.flatMap fun rows => if wanted (renderInsert parameterTable (rows.map Parameter.row)) then
        rows.filterMap fun p => row (p.row.map Literal.read) else []) := by
  rw [Dump.render, parseTable_renderInserts u wanted row d.inserts_wellFormed, Dump.inserts, flatMap_append,
    flatMap_append, flatMap_map, flatMap_map, flatMap_map]
  simp only [filterMap_map, Function.comp_def]

section Tables

variable {u : Uppercase}

theorem tables_ne : parameterTable ≠ connectionTable ∧ groupTable ≠ connectionTable ∧ parameterTable ≠ groupTable := by
  decide +kernel

variable {s : Text}

theorem string_mem_connection {c : Connection} : .string s ∈ c.row ↔ s ∈ [c.name, c.protocol] := by
  obtain ⟨id, name, parentId, protocol⟩ := c
  cases parentId <;> simp [Connection.row, intOrNull]

theorem string_mem_group {g : Group} : .string s ∈ g.row ↔ s ∈ [g.name, "ORGANIZATIONAL"] := by
  obtain ⟨id, parentId, name⟩ := g
  cases parentId <;> simp only [Group.row, intOrNull, Option.elim, mem_cons, not_mem_nil, string.injEq,
    reduceCtorEq, or_false, false_or]

theorem string_mem_parameter {p : Parameter} : .string s ∈ p.row ↔ s ∈ [p.name, p.value] := by simp [Parameter.row]

theorem not_marked_organizational (table : Text) : ¬Marked u table "ORGANIZATIONAL" := by
  have hupper : toUppercase u (escapeSql "ORGANIZATIONAL") = (escapeSql "ORGANIZATIONAL").map Char.toUpper :=
    toUppercase_ascii u (by decide)
  have htick : '`' ∉ escapeSql "ORGANIZATIONAL" := by decide
  have hspace : ' ' ∉ (escapeSql "ORGANIZATIONAL").map Char.toUpper := by decide
  rw [Marked, hupper]
  rintro (h | h | h)
  · exact htick (h.subset mem_cons_self)
  · exact hspace (h.subset mem_cons_self)
  · exact hspace (h.subset mem_cons_self)

theorem matches_rows_iff {row : α → List Literal} {strings : α → List Text}
    (hstrings : ∀ r s, .string s ∈ row r ↔ s ∈ strings r) (htable : table ∈ tables) (hother : other ∈ tables)
    (hne : other ≠ table) (rows : List α) :
    matchesInsert u (renderInsert table (rows.map row)) other ↔ ∃ r ∈ rows, ∃ s ∈ strings r, Marked u other s := by
  rw [matchesInsert_renderInsert_iff u htable hother, or_iff_right hne]
  simp only [mem_map, exists_exists_and_eq_and, hstrings]

theorem matches_connections_iff (hother : other ∈ tables) (hne : other ≠ connectionTable) (rows : List Connection) :
    matchesInsert u (renderInsert connectionTable (rows.map Connection.row)) other ↔
      ∃ c ∈ rows, ∃ s ∈ [c.name, c.protocol], Marked u other s :=
  matches_rows_iff (fun _ _ => string_mem_connection) (by simp [tables]) hother hne rows

theorem not_matches_connections {d : Dump} (hother : other ∈ tables) (hne : other ≠ connectionTable)
    (h : ∀ rows ∈ d.connections, ∀ c ∈ rows, ∀ s ∈ [c.name, c.protocol], ¬Marked u other s) :
    ∀ rows ∈ d.connections, matchesInsert u (renderInsert connectionTable (rows.map Connection.row)) other = false := by
  intro rows hrows
  rw [← Bool.not_eq_true, matches_connections_iff hother hne]
  rintro ⟨c, hc, s, hs, hmarked⟩
  exact h rows hrows c hc s hs hmarked

theorem matches_self {table : Text} (htable : table ∈ tables) (rows : List (List Literal)) :
    matchesInsert u (renderInsert table rows) table :=
  (matchesInsert_renderInsert_iff u htable htable rows).mpr (.inl rfl)

end Tables

/-- Every value can be read, and none of a connection is written with a spelling of another table, none of a group with
one of the parameters and none of a parameter with one of the groups. -/
structure Dump.Faithful (u : Uppercase) (d : Dump) : Prop where
  connections : ∀ rows ∈ d.connections, ∀ c ∈ rows, ∀ s ∈ [c.name, c.protocol],
    Readable s ∧ ¬Marked u parameterTable s ∧ ¬Marked u groupTable s
  groups : ∀ rows ∈ d.groups, ∀ g ∈ rows, Readable g.name ∧ ¬Marked u parameterTable g.name
  parameters : ∀ rows ∈ d.parameters, ∀ p ∈ rows, ∀ s ∈ [p.name, p.value], Readable s ∧ ¬Marked u groupTable s

theorem Dump.parseConnections_iff (u : Uppercase) (d : Dump) :
    parseConnections u d.render = some d.connections.flatten ↔
      ∀ rows ∈ d.connections, ∀ c ∈ rows, ∀ s ∈ [c.name, c.protocol],
        Readable s ∧ ¬Marked u parameterTable s ∧ ¬Marked u groupTable s := by
  have hgroups : ∀ rows ∈ d.groups, wantsConnections u (renderInsert groupTable (rows.map Group.row)) = false := by
    intro rows _
    rw [wantsConnections, matches_self (by simp [tables]), Bool.not_true, Bool.and_false]
  have hparameters : ∀ rows ∈ d.parameters,
      wantsConnections u (renderInsert parameterTable (rows.map Parameter.row)) = false := by
    intro rows _
    rw [wantsConnections, @matches_self u parameterTable (by simp [tables]), Bool.not_true, Bool.and_false,
      Bool.false_and]
  have htaken : ∀ rows : List Connection,
      wantsConnections u (renderInsert connectionTable (rows.map Connection.row)) ↔
        ∀ c ∈ rows, ∀ s ∈ [c.name, c.protocol], ¬Marked u parameterTable s ∧ ¬Marked u groupTable s := by
    intro rows
    rw [wantsConnections, matches_self (by simp [tables]), Bool.true_and, Bool.and_eq_true, Bool.not_eq_true',
      Bool.not_eq_true', ← Bool.not_eq_true, ← Bool.not_eq_true, matches_connections_iff (by simp [tables]) tables_ne.1,
      matches_connections_iff (by simp [tables]) tables_ne.2.1]
    simp only [not_exists, not_and, forall_and]
  have hread : ∀ rows ∈ d.connections, ∀ c ∈ rows, connectionRow (c.row.map Literal.read) =
      some { c with name := reread c.name, protocol := reread c.protocol } := by
    intro rows hrows c hc
    obtain ⟨hid, hparent⟩ := d.connection_range rows hrows c hc
    exact connectionRow_row hid hparent
  rw [parseConnections, d.parseTable_render, Option.some.injEq, flatMap_of_not_taken hgroups,
    flatMap_of_not_taken hparameters, append_nil, append_nil, flatMap_of_read hread,
    flatMap_eq_flatten_iff d.rows_ne_nil.1]
  refine forall₂_congr fun rows _ => ?_
  rw [htaken, ← forall₂_and]
  refine forall₂_congr fun c _ => ?_
  have hself : ({ c with name := reread c.name, protocol := reread c.protocol } : Connection) = c ↔
      ∀ s ∈ [c.name, c.protocol], Readable s := by
    simp only [forall_mem_cons, not_mem_nil, false_imp_iff, implies_true, and_true, ← reread_eq_self_iff]
    obtain ⟨id, name, parentId, protocol⟩ := c
    simp [reread]
  rw [hself, and_comm, ← forall₂_and]

theorem Dump.parseGroups_iff {u : Uppercase} {d : Dump}
    (h : ∀ rows ∈ d.connections, ∀ c ∈ rows, ∀ s ∈ [c.name, c.protocol], ¬Marked u groupTable s) :
    parseGroups u d.render = some d.groups.flatten ↔ (∀ rows ∈ d.groups, ∀ g ∈ rows, Readable g.name) ∧
        ∀ rows ∈ d.parameters, ∀ p ∈ rows, ∀ s ∈ [p.name, p.value], ¬Marked u groupTable s := by
  have hconnections := not_matches_connections (by simp [tables]) tables_ne.2.1 h
  have hgroups : ∀ rows ∈ d.groups, matchesInsert u (renderInsert groupTable (rows.map Group.row)) groupTable :=
    fun rows _ => matches_self (by simp [tables]) _
  have hread : ∀ rows ∈ d.groups, ∀ g ∈ rows, groupRow (g.row.map Literal.read) =
      some { g with name := reread g.name } := by
    intro rows hrows g hg
    obtain ⟨hid, hparent⟩ := d.group_range rows hrows g hg
    exact groupRow_row hid hparent
  have hother : ∀ rows ∈ d.parameters, ∀ p ∈ rows, (groupRow (p.row.map Literal.read)).isSome := by
    intro rows hrows p hp
    change ((parseI64 (Rbac.i64Text p.connectionId)).map _).isSome
    rw [parseI64_i64Text (d.parameter_range rows hrows p hp)]
    rfl
  rw [parseGroups, d.parseTable_render, Option.some.injEq, flatMap_of_not_taken hconnections, nil_append,
    flatMap_of_read hread, flatMap_of_taken hgroups]
  rw [map_append_eq_self_iff, flatMap_eq_nil_iff_not_taken d.rows_ne_nil.2.2 hother]
  apply and_congr
  · have hself : ∀ g : Group, ({ g with name := reread g.name } : Group) = g ↔ Readable g.name := by
      rintro ⟨id, parentId, name⟩
      rw [← reread_eq_self_iff]
      simp [reread]
    simp only [hself]
    exact forall_mem_flatten
  · refine forall₂_congr fun rows _ => ?_
    rw [matches_rows_iff (fun _ _ => string_mem_parameter) (by simp [tables]) (by simp [tables]) (Ne.symm tables_ne.2.2)]
    simp only [not_exists, not_and]

theorem Dump.parseParameters_iff {u : Uppercase} {d : Dump}
    (h : ∀ rows ∈ d.connections, ∀ c ∈ rows, ∀ s ∈ [c.name, c.protocol], ¬Marked u parameterTable s) :
    (∃ m, parseParameters u d.render = some m ∧ ∀ id, m.lookup id =
        if valuesOf d.parameters.flatten id = [] then none else some (valuesOf d.parameters.flatten id)) ↔
      (∀ rows ∈ d.groups, ∀ g ∈ rows, ¬Marked u parameterTable g.name) ∧
        ∀ rows ∈ d.parameters, ∀ p ∈ rows, ∀ s ∈ [p.name, p.value], Readable s := by
  have hconnections := not_matches_connections (by simp [tables]) tables_ne.1 h
  have hparameters : ∀ rows ∈ d.parameters,
      matchesInsert u (renderInsert parameterTable (rows.map Parameter.row)) parameterTable :=
    fun rows _ => matches_self (by simp [tables]) _
  have hread : ∀ rows ∈ d.parameters, ∀ p ∈ rows, parameterRow (p.row.map Literal.read) =
      some { p with name := reread p.name, value := reread p.value } :=
    fun rows hrows p hp => parameterRow_row (d.parameter_range rows hrows p hp)
  have hother : ∀ rows ∈ d.groups, ∀ g ∈ rows, (parameterRow (g.row.map Literal.read)).isSome := by
    intro rows hrows g hg
    change ((parseI64 (Rbac.i64Text g.id)).map _).isSome
    rw [parseI64_i64Text (d.group_range rows hrows g hg).1]
    rfl
  rw [parseParameters, d.parseTable_render, flatMap_of_not_taken hconnections, nil_append,
    flatMap_of_read hread, flatMap_of_taken hparameters, Option.map_some]
  simp only [Option.some.injEq, exists_eq_left', lookup_parameters_iff]
  refine (valuesOf_eq_iff ?_).trans ?_
  · intro p
    rfl
  rw [flatMap_eq_nil_iff_not_taken d.rows_ne_nil.2.1 hother]
  apply and_congr
  · refine forall₂_congr fun rows _ => ?_
    rw [matches_rows_iff (fun _ _ => string_mem_group) (by simp [tables]) (by simp [tables]) tables_ne.2.2]
    simp only [mem_cons, not_mem_nil, or_false, exists_eq_or_imp, exists_eq_left, not_marked_organizational, not_exists,
      not_and]
  · have hself : ∀ p : Parameter, ({ p with name := reread p.name, value := reread p.value } : Parameter) = p ↔
        ∀ s ∈ [p.name, p.value], Readable s := by
      rintro ⟨id, name, value⟩
      simp only [forall_mem_cons, not_mem_nil, false_imp_iff, implies_true, and_true, ← reread_eq_self_iff]
      simp [reread]
    simp only [hself]
    exact forall_mem_flatten

/-- **The dump is read as it was written** exactly if every value can be read and no value names another table. -/
theorem Dump.roundTrip_iff (u : Uppercase) (d : Dump) : (parseConnections u d.render = some d.connections.flatten ∧
      parseGroups u d.render = some d.groups.flatten ∧
      ∃ m, parseParameters u d.render = some m ∧ ∀ id, m.lookup id =
        if valuesOf d.parameters.flatten id = [] then none else some (valuesOf d.parameters.flatten id)) ↔
    d.Faithful u := by
  constructor
  · rintro ⟨hconnections, hgroups, hparameters⟩
    have hc := (d.parseConnections_iff u).mp hconnections
    have hg := (parseGroups_iff fun rows hrows c hcr s hs => (hc rows hrows c hcr s hs).2.2).mp hgroups
    have hp := (parseParameters_iff fun rows hrows c hcr s hs => (hc rows hrows c hcr s hs).2.1).mp hparameters
    exact ⟨hc, fun rows hrows g hgr => ⟨hg.1 rows hrows g hgr, hp.1 rows hrows g hgr⟩,
      fun rows hrows p hpr s hs => ⟨hp.2 rows hrows p hpr s hs, hg.2 rows hrows p hpr s hs⟩⟩
  · rintro ⟨hc, hg, hp⟩
    refine ⟨(d.parseConnections_iff u).mpr hc, ?_, ?_⟩
    · apply (parseGroups_iff fun rows hrows c hcr s hs => (hc rows hrows c hcr s hs).2.2).mpr
      exact ⟨fun rows hrows g hgr => (hg rows hrows g hgr).1, fun rows hrows p hpr s hs => (hp rows hrows p hpr s hs).2⟩
    · apply (parseParameters_iff fun rows hrows c hcr s hs => (hc rows hrows c hcr s hs).2.1).mpr
      exact ⟨fun rows hrows g hgr => (hg rows hrows g hgr).2, fun rows hrows p hpr s hs => (hp rows hrows p hpr s hs).1⟩

def passwordDump (password : Text) : Dump where
  connections := [[⟨1, "web", none, "ssh"⟩]]
  groups := []
  parameters := [[⟨1, "password", password⟩]]
  rows_ne_nil := by simp
  connection_range := by simp [InI64]
  group_range := by simp
  parameter_range := by simp [InI64]

/-- A password that ends with a blank loses it, and one that has the name of the groups makes a group of itself. -/
theorem Dump.not_roundTrip : (parseParameters .ascii (passwordDump "secret ".toList).render).map (·.lookup 1) =
        some (some [("password".toList, "secret".toList)]) ∧
      parseGroups .ascii (passwordDump "`guacamole_connection_group`".toList).render =
        some [⟨1, none, "`guacamole_connection_group`".toList⟩] := by
  decide +kernel

end Persea.Guacamole
