import Persea.BaseIp

/-! The origin check of WebSocket upgrades: `ws_handler` compares the hosts of `Origin` and `Host`. Ports are cut off
at the first `:`, which for version 6 is inside the address. -/

namespace Persea.Origin

open Base Base.Text List

def dropFront (pattern s : Text) : Text := (s.dropPrefix? pattern).getD s

def trimStartMatches (pattern s : Text) : Text := (dropFront pattern)^[s.length] s

def originHostMatches (origin host : Text) : Bool :=
  let originHost := ((trimStartMatches "http://" (trimStartMatches "https://" origin)).rdropWhile
    (· = '/')).takeWhile (· ≠ ':')
  let hostName := host.takeWhile (· ≠ ':')
  if hostName = [] ∨ originHost = [] then false else eqIgnoreAsciiCase originHost hostName

def rejectOrigin (ticketAuthenticated : Bool) (origin host : Option Text) : Option (Nat × String) :=
  if ticketAuthenticated then none
  else
    match origin with
    | some origin =>
      if originHostMatches origin (host.getD []) then none else some (403, "cross-origin WebSocket request rejected")
    | none => some (403, "WebSocket upgrade requires Origin header")

theorem rejectOrigin_eq_none_iff {ticketAuthenticated : Bool} {origin host : Option Text} :
    rejectOrigin ticketAuthenticated origin host = none ↔
      ticketAuthenticated ∨ ∃ o, origin = some o ∧ originHostMatches o (host.getD []) := by
  cases ticketAuthenticated with
  | true => simp [rejectOrigin]
  | false =>
    cases origin with
    | none | some o => simp [rejectOrigin]

def isRegNameChar (c : Char) : Bool := c.isAlphanum || "-._~!$&'()*+,;=%".toList.contains c

/-- The hosts of an authority. Any text of digits, letters, dots and colons with a colon in it is taken for an
address of version 6. -/
inductive IsHost : Text → Prop where
  | regName {t : Text} (hne : t ≠ []) (hchars : ∀ c ∈ t, isRegNameChar c = true) : IsHost t
  | ipv4 {t : Text} (haddress : (Ip.parseV4 t).isSome = true) : IsHost t
  | ipv6 {t : Text} (hcolon : ':' ∈ t) (hchars : ∀ c ∈ t, c.isDigit = true ∨ c.isAlpha = true ∨ c = ':' ∨ c = '.') :
      IsHost ('[' :: t ++ [']'])

def authority (host : Text) (port : Option Text) : Text := host ++ port.elim [] (':' :: ·)

def IsPort (port : Option Text) : Prop := ∀ digits ∈ port, ∀ c ∈ digits, c.isDigit = true

def Plain (t : Text) : Prop := ∀ c ∈ t, c ≠ '[' ∧ c ≠ ':' ∧ c ≠ '/'

theorem plain_of_all {t : Text} {p : Char → Prop} (h : ∀ c ∈ t, p c) (hp : ∀ c, p c → c ≠ '[' ∧ c ≠ ':' ∧ c ≠ '/') :
    Plain t := fun c hc => hp c (h c hc)

theorem IsHost.cases {host : Text} (h : IsHost host) :
    (host ≠ [] ∧ Plain host) ∨ ∃ t, host = '[' :: t ++ [']'] ∧ ':' ∈ t ∧ '/' ∉ t := by
  cases h with
  | regName hne hchars =>
    refine .inl ⟨hne, plain_of_all hchars fun c hc => ?_⟩
    refine ⟨?_, ?_, ?_⟩ <;> rintro rfl <;> revert hc <;> decide
  | ipv4 haddress =>
    refine .inl ⟨?_, plain_of_all (fun c hc => Ip.isDigit_or_dot_of_parseV4 haddress hc) fun c hc => ?_⟩
    · rintro rfl
      exact absurd haddress (by decide)
    · refine ⟨?_, ?_, ?_⟩ <;> rintro rfl <;> revert hc <;> decide
  | ipv6 hcolon hchars =>
    refine .inr ⟨_, rfl, hcolon, fun hslash => ?_⟩
    exact absurd (hchars '/' hslash) (by decide)

theorem slash_not_mem_authority {host : Text} {port : Option Text} (hhost : IsHost host) (hport : IsPort port) :
    '/' ∉ authority host port := by
  intro hmem
  rcases mem_append.mp hmem with hmem | hmem
  · rcases hhost.cases with ⟨-, hplain⟩ | ⟨t, rfl, -, hslash⟩
    · exact (hplain '/' hmem).2.2 rfl
    · simp [hslash] at hmem
  · cases port with
    | none => simp at hmem
    | some digits =>
      rcases mem_cons.mp hmem with hc | hmem
      · exact absurd hc (by decide)
      · exact absurd (hport digits rfl '/' hmem) (by decide)

theorem takeWhile_authority (host : Text) (port : Option Text) :
    (authority host port).takeWhile (· ≠ ':') = host.takeWhile (· ≠ ':') := by
  induction host with
  | nil => cases port <;> simp [authority]
  | cons c host ih =>
    have hcons : authority (c :: host) port = c :: authority host port := rfl
    rw [hcons, takeWhile_cons, takeWhile_cons, ih]

theorem dropFront_of_absent {pattern s : Text} (h : ¬pattern <+: s) : dropFront pattern s = s := by
  rw [dropFront]
  cases hdrop : s.dropPrefix? pattern with
  | none => rfl
  | some rest =>
    obtain ⟨front, hs, hfront⟩ := dropPrefix?_eq_some_iff.mp hdrop
    exact absurd ⟨rest, by rw [hs, eq_of_beq hfront]⟩ h

theorem trimStartMatches_of_absent {pattern s : Text} (h : ¬pattern <+: s) : trimStartMatches pattern s = s :=
  Function.iterate_fixed (dropFront_of_absent h) s.length

theorem trimStartMatches_append {c : Char} {pattern rest : Text} (h : ¬c :: pattern <+: rest) :
    trimStartMatches (c :: pattern) (c :: pattern ++ rest) = rest := by
  have hdrop : dropFront (c :: pattern) (c :: pattern ++ rest) = rest := by
    rw [dropFront, dropPrefix?_eq_some_iff.mpr ⟨c :: pattern, rfl, beq_self_eq_true _⟩, Option.getD_some]
  rw [trimStartMatches, cons_append, length_cons, Function.iterate_succ_apply, ← cons_append, hdrop]
  exact Function.iterate_fixed (dropFront_of_absent h) _

inductive IsScheme : Text → Prop where
  | http : IsScheme "http"
  | https : IsScheme "https"

theorem trim_origin {scheme rest : Text} (hscheme : IsScheme scheme) (hslash : '/' ∉ rest) :
    (trimStartMatches "http://".toList (trimStartMatches "https://".toList (scheme ++ "://".toList ++ rest))).rdropWhile
      (· = '/') = rest := by
  have hno : ∀ {pattern : Text}, '/' ∈ pattern → ¬pattern <+: rest := fun hmem h => hslash (h.subset hmem)
  have hend : rest.rdropWhile (· = '/') = rest := Text.rdropWhile_of_not_mem hslash
  cases hscheme with
  | http =>
    have hfront : ¬"https://".toList <+: "http".toList ++ "://".toList ++ rest := by
      rintro ⟨more, hmore⟩
      have hfifth := congrArg (fun t => t[4]?) hmore
      simp at hfifth
    rw [trimStartMatches_of_absent hfront]
    change (trimStartMatches ('h' :: "ttp://".toList) ('h' :: "ttp://".toList ++ rest)).rdropWhile _ = _
    rw [trimStartMatches_append (hno (by decide)), hend]
  | https =>
    change (trimStartMatches _ (trimStartMatches ('h' :: "ttps://".toList)
      ('h' :: "ttps://".toList ++ rest))).rdropWhile _ = _
    rw [trimStartMatches_append (hno (by decide)), trimStartMatches_of_absent (hno (by decide)), hend]

theorem originHostMatches_eq {scheme host host' : Text} {port port' : Option Text} (hscheme : IsScheme scheme)
    (hhost : IsHost host) (hport : IsPort port) (hhost' : IsHost host') :
    originHostMatches (scheme ++ "://" ++ authority host port) (authority host' port') =
      eqIgnoreAsciiCase (host.takeWhile (· ≠ ':')) (host'.takeWhile (· ≠ ':')) := by
  have hne : ∀ {h : Text}, IsHost h → h.takeWhile (· ≠ ':') ≠ [] := by
    intro h hh
    rcases hh.cases with ⟨hne, hplain⟩ | ⟨t, rfl, -, -⟩
    · obtain ⟨c, rest, rfl⟩ := exists_cons_of_ne_nil hne
      simp [(hplain c mem_cons_self).2.1]
    · simp
  simp only [originHostMatches, trim_origin hscheme (slash_not_mem_authority hhost hport), takeWhile_authority,
    hne hhost, hne hhost', or_self, if_false]

theorem takeWhile_of_plain {t : Text} (h : Plain t) : t.takeWhile (· ≠ ':') = t :=
  takeWhile_eq_self_iff.mpr fun c hc => by simpa using (h c hc).2.1

theorem takeWhile_bracketed {t : Text} (h : ':' ∈ t) :
    ('[' :: t ++ [']']).takeWhile (· ≠ ':') = '[' :: t.takeWhile (· ≠ ':') := by
  obtain ⟨before, after, rfl, hbefore⟩ := eq_append_cons_of_mem h
  have hall : ∀ c ∈ before, decide (c ≠ ':') := fun c hc => decide_eq_true fun heq => hbefore (heq ▸ hc)
  rw [cons_append, takeWhile_cons_of_pos (by decide), append_assoc, takeWhile_append_of_pos hall,
    takeWhile_append_of_pos hall]
  simp

theorem eqIgnoreAsciiCase_bracketed {t t' : Text} :
    eqIgnoreAsciiCase ('[' :: t ++ [']']) ('[' :: t' ++ [']']) = eqIgnoreAsciiCase t t' := by
  rw [Bool.eq_iff_iff, eqIgnoreAsciiCase_iff, eqIgnoreAsciiCase_iff]
  simp

theorem not_eqIgnoreAsciiCase_bracket {t t' : Text} (h : Plain t') : eqIgnoreAsciiCase ('[' :: t) t' = false := by
  rw [← Bool.not_eq_true, eqIgnoreAsciiCase_iff]
  intro heq
  cases t' with
  | nil => simp at heq
  | cons c t' =>
    rw [map_cons, map_cons, cons.injEq] at heq
    have hc := (toLower_eq_iff (c := c) (d := '[') (by decide)).mp (heq.1.symm.trans (by decide))
    exact (h c mem_cons_self).1 hc

theorem eqIgnoreAsciiCase_comm (a b : Text) : eqIgnoreAsciiCase a b = eqIgnoreAsciiCase b a := by
  rw [Bool.eq_iff_iff, eqIgnoreAsciiCase_iff, eqIgnoreAsciiCase_iff]
  exact eq_comm

/-- **The origin check is exact** for all hosts but two different literals of version 6 whose first groups are the
same: these it takes for one host. -/
theorem originHostMatches_exact_iff {scheme host host' : Text} {port port' : Option Text} (hscheme : IsScheme scheme)
    (hhost : IsHost host) (hport : IsPort port) (hhost' : IsHost host') :
    (originHostMatches (scheme ++ "://" ++ authority host port) (authority host' port') = true ↔
        eqIgnoreAsciiCase host host' = true) ↔
      ∀ t t' : Text, host = '[' :: t ++ [']'] → host' = '[' :: t' ++ [']'] →
        eqIgnoreAsciiCase (t.takeWhile (· ≠ ':')) (t'.takeWhile (· ≠ ':')) = true → eqIgnoreAsciiCase t t' = true := by
  rw [originHostMatches_eq hscheme hhost hport hhost']
  have hplain : ∀ {h t : Text}, Plain h → h ≠ '[' :: t ++ [']'] := by
    rintro h t hp rfl
    exact (hp '[' mem_cons_self).1 rfl
  rcases hhost.cases with ⟨-, hp⟩ | ⟨t, rfl, hcolon, -⟩
  · rcases hhost'.cases with ⟨-, hp'⟩ | ⟨t', rfl, hcolon', -⟩
    · rw [takeWhile_of_plain hp, takeWhile_of_plain hp']
      exact iff_of_true Iff.rfl fun t _ ht => absurd ht (hplain hp)
    · rw [takeWhile_of_plain hp, takeWhile_bracketed hcolon', eqIgnoreAsciiCase_comm, eqIgnoreAsciiCase_comm host,
        cons_append, not_eqIgnoreAsciiCase_bracket hp, not_eqIgnoreAsciiCase_bracket hp]
      exact iff_of_true Iff.rfl fun t _ ht => absurd ht (hplain hp)
  · rcases hhost'.cases with ⟨-, hp'⟩ | ⟨t', rfl, hcolon', -⟩
    · rw [takeWhile_of_plain hp', takeWhile_bracketed hcolon, cons_append, not_eqIgnoreAsciiCase_bracket hp',
        not_eqIgnoreAsciiCase_bracket hp']
      exact iff_of_true Iff.rfl fun _ t' _ ht' => absurd ht' (hplain hp')
    · have hinj : ∀ {u v : Text}, '[' :: u ++ [']'] = '[' :: v ++ [']'] → u = v := by
        intro u v huv
        rw [cons_append, cons_append, cons.injEq] at huv
        exact append_cancel_right huv.2
      have hgroup : eqIgnoreAsciiCase ('[' :: t.takeWhile (· ≠ ':')) ('[' :: t'.takeWhile (· ≠ ':')) =
          eqIgnoreAsciiCase (t.takeWhile (· ≠ ':')) (t'.takeWhile (· ≠ ':')) := by
        rw [Bool.eq_iff_iff, eqIgnoreAsciiCase_iff, eqIgnoreAsciiCase_iff]
        simp
      rw [takeWhile_bracketed hcolon, takeWhile_bracketed hcolon', hgroup, eqIgnoreAsciiCase_bracketed]
      constructor
      · intro h u u' hu hu' hgroups
        rw [← hinj hu, ← hinj hu'] at hgroups ⊢
        exact h.mp hgroups
      · intro h
        exact ⟨h t t' rfl rfl, eqIgnoreAsciiCase_takeWhile (by decide)⟩

theorem originHostMatches_name : originHostMatches "https://Console.example:8443" "console.example" = true ↔
      eqIgnoreAsciiCase "Console.example" "console.example" = true := by
  have hname : IsHost "Console.example" := .regName (by decide) (all_eq_true.mp (by decide))
  have hname' : IsHost "console.example" := .regName (by decide) (all_eq_true.mp (by decide))
  have hport : IsPort (some "8443") := by
    intro digits hdigits
    cases hdigits
    exact all_eq_true.mp (by decide)
  refine (@originHostMatches_exact_iff _ _ _ _ none .https hname hport hname').mpr fun t _ ht => ?_
  exact absurd (congrArg head? ht) (by simp)

/-- Two addresses of one network. -/
theorem originHostMatches_ipv6 : originHostMatches "http://[2001:db8::1]" "[2001:db8::2]" = true ∧
      eqIgnoreAsciiCase "[2001:db8::1]" "[2001:db8::2]" = false := by
  decide +kernel

end Persea.Origin
