import Persea.BaseTomlLines

/-! The storage key and the setup wizard. The wizard writes the configuration file anew and carries the `[storage]`
section over line by line, while what the file means is for the TOML grammar to say. -/

namespace Persea.Config

open Base Base.Text Base.Toml Option
open List hiding Vector

def generateEncryptionKey (buf : Vector UInt8 32) : Text := buf.toList.flatMap fun b => hexDigits 2 b.toNat

def tomlEscapeChar (c : Char) : Text :=
  if c = '\\' then ['\\', '\\']
  else if c = '"' then ['\\', '"']
  else if c = '\n' then ['\\', 'n']
  else if c = '\r' then ['\\', 'r']
  else if c = '\t' then ['\\', 't']
  else if isControl c then '\\' :: 'u' :: (hexDigits 4 c.toNat).map Char.toUpper
  else [c]

def tomlEscape (s : Text) : Text := s.flatMap tomlEscapeChar

def storageName : Text := "storage"

def encryptionKeyName : Text := "encryption_key"

def heldKey (doc : Table) : Option Text := (doc.textAt storageName encryptionKeyName).filter (· ≠ [])

/-- `None` when the file is missing, cannot be parsed, or has no usable key. -/
def readStorageEncryptionKey (R : Reader) (file : Option Text) : Option Text := do
  let content ← file
  let doc ← R.read content
  heldKey doc

def isEncryptionKeyLine (line : Text) : Bool :=
  match encryptionKeyName.isPrefixOf? (line.dropWhile isWhitespace) with
  | none => false
  | some rest => rest.head? = some '=' || rest.head?.any isWhitespace

def storageSectionHeader (line : Text) : Bool :=
  let t := trim line
  t = "[storage]" || "[storage] ".toList.isPrefixOf t || "[storage]\t".toList.isPrefixOf t ||
    "[storage]#".toList.isPrefixOf t

def isTableHeader (line : Text) : Bool := line.head? = some '[' && line.getLast? = some ']'

def headerLine : Text := "[storage]\n"

/-- What stands between the first line taken for the header and the next one taken for a table header. -/
def copiedLines (text : Text) : Option Text :=
  match (lines text).dropWhile (!storageSectionHeader ·) with
  | [] => none
  | _ :: rest => some ((rest.takeWhile fun l => !isTableHeader (trim l)).flatMap (· ++ ['\n']))

def extractStorageSection (text : Text) : Option Text := (copiedLines text).map (headerLine ++ ·)

def storageSectionFor (R : Reader) (file : Option Text) (buf : Vector UInt8 32) : Text :=
  match extractStorageSection (file.getD []) with
  | some existing =>
    if (lines existing).any isEncryptionKeyLine then existing
    else trimEnd existing ++ '\n' :: textLine encryptionKeyName (generateEncryptionKey buf)
  | none =>
    match readStorageEncryptionKey R file with
    | some key => headerLine ++ textLine encryptionKeyName (tomlEscape key)
    | none => headerLine ++ textLine encryptionKeyName (generateEncryptionKey buf)

structure SetupForm where
  (listenAddr dbPath dbUrl guacdAddr : Text)
  featureVmware : Bool

variable (form : SetupForm)

/-- A database URL replaces the path. -/
def SetupForm.dbEntry : Text × Text :=
  if trim form.dbUrl = [] then ("db_path", form.dbPath) else ("db_url", trim form.dbUrl)

def vmwareStub : List Text :=
  ["# VMware vSphere — uncomment and fill in to enable (password from env var)", "# [vsphere]",
    "# vcenter_addr = \"https://vcenter.example.com/sdk\"",
    "# username = \"administrator@vsphere.local\"",
    "# password_env = \"VSPHERE_PASSWORD\""]

def SetupForm.featureSections : Text := if form.featureVmware then '\n' :: vmwareStub.flatMap (· ++ ['\n']) else []

def wizardTitle : Text := "# persea configuration — generated by setup wizard"

def wizardConfig (storageSection : Text) : Text :=
  wizardTitle ++ ['\n'] ++ textLine "listen_addr" (tomlEscape form.listenAddr) ++
    textLine form.dbEntry.1 (tomlEscape form.dbEntry.2) ++
    textLine "guacd_addr" (tomlEscape form.guacdAddr) ++
    textLine "recording_path" "/opt/persea/recordings" ++
    textLine "static_path" "/opt/persea/static" ++
    textLine "site_title" "persea" ++
    scalarLine "session_max_duration_secs" (decimal 28800) ++
    scalarLine "session_cleanup_delay_secs" (decimal 300) ++
    scalarLine "session_history_retention_days" (decimal 90) ++
    form.featureSections ++ ['\n'] ++ storageSection

theorem hexValue_toUpper : ∀ d < 16, hexValue (Nat.digitChar d).toUpper = some d := by decide

variable {c : Char} {buf : Vector UInt8 32} {key text : Text} {e : Doc} {held : Option Text}

theorem spells_controlEscape (hc : c.toNat < 0xd800) :
    Spells ('\\' :: 'u' :: (hexDigits 4 c.toNat).map Char.toUpper) [c] := by
  have hdigit : ∀ n, hexValue (Nat.digitChar (n % 16)).toUpper = some (n % 16) :=
    fun n => hexValue_toUpper _ (Nat.mod_lt n (by decide))
  have hcode : (((0 * 16 + c.toNat / 16 / 16 / 16 % 16) * 16 + c.toNat / 16 / 16 % 16) * 16 + c.toNat / 16 % 16) * 16 +
      c.toNat % 16 = c.toNat := by omega
  have hspells := spells_hex (hdigit (c.toNat / 16 / 16 / 16)) (hdigit (c.toNat / 16 / 16)) (hdigit (c.toNat / 16))
    (hdigit c.toNat) (by rw [hcode]; exact hc)
  rw [hcode, Char.ofNat_toNat] at hspells
  exact hspells

theorem isPlain_of_not_isControl (hc : ¬isControl c) : isPlain c := by
  simp only [isControl, Bool.or_eq_true, Bool.and_eq_true, decide_eq_true_eq, not_or, not_and] at hc
  simp only [isPlain, Bool.or_eq_true, Bool.and_eq_true, decide_eq_true_eq]
  omega

theorem tomlEscapeChar_spec (c : Char) : Spells (tomlEscapeChar c) [c] ∧
      ((∃ rest, tomlEscapeChar c = '\\' :: rest) ∨ tomlEscapeChar c = [c] ∧ IsVerbatim c) := by
  have hescape : ∀ d : Char, isPlain d → unescape d = some c → tomlEscapeChar c = ['\\', d] →
      Spells (tomlEscapeChar c) [c] ∧
        ((∃ rest, tomlEscapeChar c = '\\' :: rest) ∨ tomlEscapeChar c = [c] ∧ IsVerbatim c) := by
    intro d hplain hunescape hc
    rw [hc]
    exact ⟨spells_escape hplain hunescape, .inl ⟨[d], rfl⟩⟩
  by_cases hslash : c = '\\'
  · exact hescape '\\' (by decide) (by rw [hslash]; rfl) (by rw [hslash]; rfl)
  by_cases hquote : c = '"'
  · exact hescape '"' (by decide) (by rw [hquote]; rfl) (by rw [hquote]; rfl)
  by_cases hnewline : c = '\n'
  · exact hescape 'n' (by decide) (by rw [hnewline]; rfl) (by rw [hnewline]; rfl)
  by_cases hreturn : c = '\r'
  · exact hescape 'r' (by decide) (by rw [hreturn]; rfl) (by rw [hreturn]; rfl)
  by_cases htab : c = '\t'
  · exact hescape 't' (by decide) (by rw [htab]; rfl) (by rw [htab]; rfl)
  rw [tomlEscapeChar, if_neg hslash, if_neg hquote, if_neg hnewline, if_neg hreturn, if_neg htab]
  by_cases hcontrol : isControl c
  · rw [if_pos hcontrol]
    refine ⟨spells_controlEscape ?_, .inl ⟨_, rfl⟩⟩
    simp only [isControl, Bool.or_eq_true, Bool.and_eq_true, decide_eq_true_eq] at hcontrol
    omega
  · have hverbatim : IsVerbatim c := ⟨isPlain_of_not_isControl hcontrol, hquote, hslash⟩
    rw [if_neg hcontrol]
    exact ⟨spells_verbatim hverbatim, .inr ⟨rfl, hverbatim⟩⟩

theorem spells_tomlEscape (s : Text) : Spells (tomlEscape s) s := by
  induction s with
  | nil => exact spells_nil
  | cons c s ih => exact (tomlEscapeChar_spec c).1.append ih

theorem begins_tomlEscape (s : Text) : Begins (tomlEscape s) := by
  cases s with
  | nil => exact fun c hc => by cases hc
  | cons c s =>
    intro d hd
    rw [tomlEscape, flatMap_cons] at hd
    rcases (tomlEscapeChar_spec c).2 with ⟨rest, hrest⟩ | ⟨hself, hplain, hquote, -⟩
    · rw [hrest] at hd
      obtain rfl : '\\' = d := some.inj hd
      decide
    · rw [hself] at hd
      obtain rfl : c = d := some.inj hd
      exact ⟨hplain, hquote⟩

/-- **Escaped text** stays inside its string up to the closing mark, and is read there as what was escaped: in place of
any value, and as the only entry of its line. -/
theorem tomlEscape_faithful (R : Reader) (ctx : Context) (s : Text) :
    R.run (.text (.line ctx) .basic []) (tomlEscape s) = (Mode.text (.line ctx) .basic s).go ∧
    R.run (.value ctx) ('"' :: (tomlEscape s ++ ['"', '\n'])) = (finish ctx (.text s)).andThen lineAfter ∧
    ∀ name, IsKey name → R.statements (textLine name (tomlEscape s)) = some [.assign [] name (.text s)] := by
  refine ⟨spells_tomlEscape s R ctx [], ?_, fun name hname => ?_⟩
  · exact (Mode.go_andThen ..).trans (R.run_quote ctx (spells_tomlEscape s) (begins_tomlEscape s))
  · rw [Reader.statements, R.run_textLine hname (spells_tomlEscape s) (begins_tomlEscape s)]
    rfl

theorem isBare_of_mem_generateEncryptionKey (hc : c ∈ generateEncryptionKey buf) : isBare c := by
  obtain ⟨b, -, hb⟩ := mem_flatMap.mp hc
  simp [isBare, isAlphanum_of_mem_hexDigits hb]

theorem length_generateEncryptionKey (buf : Vector UInt8 32) : (generateEncryptionKey buf).length = 64 := by
  have hlength : ∀ bytes : List UInt8, (bytes.flatMap fun b => hexDigits 2 b.toNat).length = 2 * bytes.length := by
    intro bytes
    induction bytes with
    | nil => rfl
    | cons b bytes ih => rw [flatMap_cons, length_append, length_hexDigits, ih, length_cons]; omega
  rw [generateEncryptionKey, hlength, Vector.length_toList]

theorem generateEncryptionKey_ne_nil (buf : Vector UInt8 32) : generateEncryptionKey buf ≠ [] := by
  intro hnil
  have hlength := length_generateEncryptionKey buf
  rw [hnil] at hlength
  contradiction

/-! ### What stands before the section -/

def SetupForm.entries : List (Text × Node) :=
  [("listen_addr", .text form.listenAddr), (form.dbEntry.1, .text form.dbEntry.2),
    ("guacd_addr", .text form.guacdAddr),
    ("recording_path", .text "/opt/persea/recordings"),
    ("static_path", .text "/opt/persea/static"),
    ("site_title", .text "persea"),
    ("session_max_duration_secs", .scalar (decimal 28800)),
    ("session_cleanup_delay_secs", .scalar (decimal 300)),
    ("session_history_retention_days", .scalar (decimal 90))]

def SetupForm.root : Table := Table.empty.withEntries form.entries

variable (R : Reader)

theorem run_stub {stub : List Text} (h : ∀ line ∈ stub, line.head? = some '#' ∧ line.tail.all isPlain) :
    R.run .start (stub.flatMap (· ++ ['\n'])) = Mode.start.go := by
  induction stub with
  | nil => rfl
  | cons line stub ih =>
    rw [forall_mem_cons] at h
    obtain ⟨words, rfl⟩ := List.head?_eq_some_iff.mp h.1.1
    have hline : R.run .start ('#' :: words ++ ['\n']) = Mode.start.go := R.run_commentLine h.1.2
    rw [flatMap_cons, R.run_append_go hline, ih h.2]

variable (form : SetupForm) (storageSection : Text) {rest : Text}

theorem run_featureSections : R.run .start form.featureSections = Mode.start.go := by
  have hstub : ∀ line ∈ vmwareStub, line.head? = some '#' ∧ line.tail.all isPlain := by decide +kernel
  have hnewline : R.step .start '\n' = Mode.start.go := rfl
  rw [SetupForm.featureSections]
  split_ifs
  · rw [Reader.run_cons, hnewline, Mode.go_andThen, run_stub R hstub]
  · rfl

theorem run_plainLine {value : Text} (hkey : IsKey key) (hvalue : value.all (decide <| IsVerbatim ·)) :
    R.run .start (textLine key value) = some (.start, [.assign [] key (.text value)]) := by
  have hverbatim : ∀ c ∈ value, IsVerbatim c := fun c hc => of_decide_eq_true (all_eq_true.mp hvalue c hc)
  exact R.run_textLine hkey (spells_self hverbatim) (begins_of_isVerbatim hverbatim)

theorem run_escapedLine (hkey : IsKey key) (value : Text) :
    R.run .start (textLine key (tomlEscape value)) = some (.start, [.assign [] key (.text value)]) :=
  R.run_textLine hkey (spells_tomlEscape value) (begins_tomlEscape value)

theorem dbEntry_mem : form.dbEntry.1 ∈ ["db_path".toList, "db_url".toList] := by
  rw [SetupForm.dbEntry]
  split_ifs
  · exact mem_cons_self
  · exact mem_cons_of_mem _ mem_cons_self

theorem isKey_dbEntry : IsKey form.dbEntry.1 := by
  have hkeys : ∀ db ∈ ["db_path".toList, "db_url".toList], IsKey db := by decide +kernel
  exact hkeys _ (dbEntry_mem form)

theorem wizardConfig_append : wizardConfig form storageSection = wizardConfig form [] ++ storageSection := by
  rw [wizardConfig, wizardConfig, append_nil]

theorem run_wizardConfig : R.run .start (wizardConfig form []) =
      some (.start, form.entries.map fun entry => .assign [] entry.1 entry.2) := by
  have htitle : R.run .start (wizardTitle ++ ['\n']) = some (.start, []) := by
    have hwords : wizardTitle.tail.all isPlain := by decide +kernel
    exact R.run_commentLine hwords
  have hkey : ∀ key ∈ ["listen_addr", "guacd_addr", "recording_path", "static_path", "site_title",
      "session_max_duration_secs", "session_cleanup_delay_secs", "session_history_retention_days"],
      IsKey key.toList := by decide +kernel
  rw [wizardConfig]
  have h₁ := R.run_append_start htitle (run_escapedLine R (hkey "listen_addr" (by decide)) form.listenAddr)
  have h₂ := R.run_append_start h₁ (run_escapedLine R (isKey_dbEntry form) form.dbEntry.2)
  have h₃ := R.run_append_start h₂ (run_escapedLine R (hkey "guacd_addr" (by decide)) form.guacdAddr)
  have h₄ := R.run_append_start h₃ (run_plainLine R (hkey "recording_path" (by decide))
    (show "/opt/persea/recordings".toList.all (decide <| IsVerbatim ·) = true by decide +kernel))
  have h₅ := R.run_append_start h₄ (run_plainLine R (hkey "static_path" (by decide))
    (show "/opt/persea/static".toList.all (decide <| IsVerbatim ·) = true by decide +kernel))
  have h₆ := R.run_append_start h₅ (run_plainLine R (hkey "site_title" (by decide))
    (show "persea".toList.all (decide <| IsVerbatim ·) = true by decide +kernel))
  have h₇ := R.run_append_start h₆ (R.run_scalarLine (hkey "session_max_duration_secs" (by decide))
    (show 28800 < 2 ^ 63 by decide))
  have h₈ := R.run_append_start h₇ (R.run_scalarLine (hkey "session_cleanup_delay_secs" (by decide))
    (show 300 < 2 ^ 63 by decide))
  have h₉ := R.run_append_start h₈ (R.run_scalarLine (hkey "session_history_retention_days" (by decide))
    (show 90 < 2 ^ 63 by decide))
  have h₁₀ := R.run_append_start h₉ (run_featureSections R form)
  have h₁₁ := R.run_append_start h₁₀ (show R.run .start ['\n'] = some (.start, []) from rfl)
  rw [append_nil]
  exact h₁₁

def keysWith (db : Text) : List Text :=
  ["listen_addr", db, "guacd_addr", "recording_path", "static_path", "site_title",
    "session_max_duration_secs", "session_cleanup_delay_secs", "session_history_retention_days"]

theorem map_entries : form.entries.map Prod.fst = keysWith form.dbEntry.1 := (rfl)

theorem nodup_entries : (form.entries.map Prod.fst).Nodup := by
  have hkeys : ∀ db ∈ ["db_path".toList, "db_url".toList], (keysWith db).Nodup := by decide +kernel
  exact hkeys _ (dbEntry_mem form)

theorem run_entries :
    Doc.blank.run (form.entries.map fun entry => .assign [] entry.1 entry.2) = some ⟨form.root, []⟩ :=
  Doc.run_assign_root (fun _ _ => rfl) (nodup_entries form)

theorem leaf_root (key : Text) (node : Node) (h : form.root key = some node) : node.Leaf := by
  rcases Table.withEntries_eq_some h with hempty | hmem
  · cases hempty
  · have hleaf : ∀ entry ∈ form.entries, entry.2.Leaf := by
      rw [SetupForm.entries]
      repeat' rw [forall_mem_cons]
      exact ⟨trivial, trivial, trivial, trivial, trivial, trivial, trivial, trivial, trivial, fun _ h => nomatch h⟩
    exact hleaf _ hmem

theorem root_storage : form.root storageName = none := by
  have hkeys : ∀ db ∈ ["db_path".toList, "db_url".toList], storageName ∉ keysWith db := by decide +kernel
  rw [SetupForm.root, Table.withEntries_eq_none]
  exact ⟨rfl, hkeys _ (dbEntry_mem form)⟩

theorem run_headerLine : R.run .start headerLine = some (.start, [.header [] storageName]) := (rfl)

theorem head_wizardConfig : (wizardConfig form storageSection).head? = some '#' := (rfl)

/-- **The written file** is a document exactly when the section is whole statements that define nothing twice and leave
the keys at the root alone. -/
theorem read_wizardConfig {form : SetupForm} {written : Table} :
    R.read (wizardConfig form (headerLine ++ rest)) = some written ↔
      ∃ body d, R.statements rest = some body ∧ (∀ s ∈ body, s.Clear (form.root · = none)) ∧
        Doc.blank.run (.header [] storageName :: body) = some d ∧ written = form.root.beside d.root := by
  have hstatements : R.statements (wizardConfig form (headerLine ++ rest)) = (R.statements rest).map fun body =>
        (form.entries.map fun entry => .assign [] entry.1 entry.2) ++ .header [] storageName :: body := by
    rw [wizardConfig_append, R.statements_append (run_wizardConfig R form), R.statements_append (run_headerLine R),
      Option.map_map]
    rfl
  have hmark : ¬some '#' = some byteOrderMark := by decide
  rw [Reader.read, head_wizardConfig, if_neg hmark, hstatements]
  simp only [map_eq_some_iff, Option.bind_eq_some_iff]
  constructor
  · rintro ⟨e, ⟨_, ⟨body, hbody, rfl⟩, hrun⟩, rfl⟩
    rw [Doc.run_append, run_entries, bind_some, Doc.run_section_iff (leaf_root form) (root_storage form)] at hrun
    obtain ⟨hclear, d, hd, rfl⟩ := hrun
    exact ⟨body, d, hbody, hclear, hd, rfl⟩
  · rintro ⟨body, d, hbody, hclear, hd, rfl⟩
    refine ⟨d.beside form.root, ⟨_, ⟨body, hbody, rfl⟩, ?_⟩, rfl⟩
    rw [Doc.run_append, run_entries, bind_some, Doc.run_section_iff (leaf_root form) (root_storage form)]
    exact ⟨hclear, d, hd, rfl⟩

theorem heldKey_beside (t : Table) : heldKey (form.root.beside t) = heldKey t := by
  rw [heldKey, Table.textAt, Table.beside_of_none (root_storage form), ← Table.textAt, ← heldKey]

def Answers (held found : Option Text) : Prop := found.isSome = true ∧ ∀ key ∈ held, found = some key

/-- Whatever is filled in and whatever key would be drawn, the wizard's file can be parsed and has a usable key, the
existing one if there was one. -/
def Survives (existing : Text) (doc : Table) : Prop :=
  ∀ (form : SetupForm) (buf : Vector UInt8 32), ∃ written,
    R.read (wizardConfig form (storageSectionFor R (some existing) buf)) = some written ∧
      Answers (heldKey doc) (heldKey written)

def wizardKeys : List Text := "db_url" :: keysWith "db_path"

/-- The text is whole statements that fit under `[storage]` in the wizard's file, and the section they make. -/
def Fits (text : Text) (d : Doc) : Prop :=
  ∃ body, R.statements text = some body ∧ (∀ s ∈ body, s.Clear (· ∉ wizardKeys)) ∧
    Doc.blank.run (.header [] storageName :: body) = some d

/-- The lines copied for the section agree with what the file means. If one of them is taken for the key's, they
give the key; if none is, a key can be added where they end: in `[storage]`, or in a table opened after the key
was given. -/
def Agrees (existing : Text) (held : Option Text) : Prop :=
  ∀ copied ∈ copiedLines existing,
    if (lines copied).any isEncryptionKeyLine then ∃ d, Fits R copied d ∧ Answers held (heldKey d.root)
    else ∃ d, Fits R (trimEnd copied ++ ['\n']) d ∧ (∃ t ∈ resolve d.current d.root, t encryptionKeyName = none) ∧
      if d.current = [storageName] then held = none else Answers held (heldKey d.root)

theorem Fits.unique {R : Reader} {d : Doc} (hd : Fits R text d) (he : Fits R text e) : d = e := by
  obtain ⟨body, hbody, -, hrun⟩ := hd
  obtain ⟨body', hbody', -, hrun'⟩ := he
  obtain rfl : body = body' := some.inj (hbody.symm.trans hbody')
  exact some.inj (hrun.symm.trans hrun')

theorem exists_form (hkey : key ∈ wizardKeys) : ∃ form : SetupForm, form.root key ≠ none := by
  rcases mem_cons.mp hkey with rfl | hkey
  · refine ⟨⟨[], [], ['x'], [], false⟩, ?_⟩
    rw [Ne, SetupForm.root, Table.withEntries_eq_none, map_entries]
    exact fun h => h.2 (mem_cons_of_mem _ mem_cons_self)
  · refine ⟨⟨[], [], [], [], false⟩, ?_⟩
    rw [Ne, SetupForm.root, Table.withEntries_eq_none, map_entries]
    exact fun h => h.2 hkey

theorem root_of_notMem (hkey : key ∉ wizardKeys) (form : SetupForm) : form.root key = none := by
  have hsub : ∀ db ∈ ["db_path".toList, "db_url".toList], ∀ k ∈ keysWith db, k ∈ wizardKeys := by decide +kernel
  rw [SetupForm.root, Table.withEntries_eq_none, map_entries]
  exact ⟨rfl, fun hmem => hkey (hsub _ (dbEntry_mem form) key hmem)⟩

theorem clear_iff {s : Statement} : s.Clear (· ∉ wizardKeys) ↔ ∀ form : SetupForm, s.Clear (form.root · = none) := by
  constructor
  · intro h form path hpath key hkey
    exact root_of_notMem (h path hpath key hkey) form
  · intro h path hpath key hkey hmem
    obtain ⟨form, hform⟩ := exists_form hmem
    exact hform (h form path hpath key hkey)

theorem section_survives_iff : (∀ form, ∃ written, R.read (wizardConfig form (headerLine ++ rest)) = some written ∧
        Answers held (heldKey written)) ↔
      ∃ d, Fits R rest d ∧ Answers held (heldKey d.root) := by
  constructor
  · intro h
    obtain ⟨_, hread, hanswers⟩ := h ⟨[], [], [], [], false⟩
    obtain ⟨body, d, hbody, -, hd, rfl⟩ := (read_wizardConfig R).mp hread
    rw [heldKey_beside] at hanswers
    refine ⟨d, ⟨body, hbody, fun s hs => clear_iff.mpr fun form => ?_, hd⟩, hanswers⟩
    obtain ⟨_, hread', -⟩ := h form
    obtain ⟨body', _, hbody', hclear, -⟩ := (read_wizardConfig R).mp hread'
    obtain rfl : body = body' := some.inj (hbody.symm.trans hbody')
    exact hclear s hs
  · rintro ⟨d, ⟨body, hbody, hclear, hd⟩, hanswers⟩ form
    refine ⟨form.root.beside d.root, (read_wizardConfig R).mpr ⟨body, d, hbody, ?_, hd, rfl⟩, ?_⟩
    · exact fun s hs => clear_iff.mp (hclear s hs) form
    · rwa [heldKey_beside]

theorem isKey_encryptionKeyName : IsKey encryptionKeyName := by decide +kernel

theorem run_keyLine (buf : Vector UInt8 32) : R.run .start (textLine encryptionKeyName (generateEncryptionKey buf)) =
      some (.start, [.assign [] encryptionKeyName (.text (generateEncryptionKey buf))]) := by
  have hverbatim : ∀ c ∈ generateEncryptionKey buf, IsVerbatim c :=
    fun c hc => isVerbatim_of_isBare (isBare_of_mem_generateEncryptionKey hc)
  exact R.run_textLine isKey_encryptionKeyName (spells_self hverbatim) (begins_of_isVerbatim hverbatim)

theorem statements_keyLine {out : List Statement} :
    R.statements (text ++ '\n' :: textLine encryptionKeyName (generateEncryptionKey buf)) = some out ↔
      ∃ body, R.statements (text ++ ['\n']) = some body ∧
        out = body ++ [.assign [] encryptionKeyName (.text (generateEncryptionKey buf))] := by
  set line := textLine encryptionKeyName (generateEncryptionKey buf) with hline
  have hsplit : text ++ '\n' :: line = (text ++ ['\n']) ++ line := by simp
  have hend : ∃ front, text ++ '\n' :: line = front ++ ['\n'] := by
    refine ⟨text ++ '\n' :: (encryptionKeyName ++ ' ' :: '=' :: ' ' :: '"' :: (generateEncryptionKey buf ++ ['"'])), ?_⟩
    simp [hline, textLine]
  have hdate : isDate encryptionKeyName = false := by decide +kernel
  obtain ⟨front, hfront⟩ := hend
  rw [hfront, R.statements_line, ← hfront, hsplit, Reader.run_append, Next.andThen_eq_some]
  constructor
  · rintro ⟨m, before, more, hbefore, hmore, rfl⟩
    have hm : m.AtLine := by
      rw [Reader.run_append, Next.andThen_eq_some] at hbefore
      obtain ⟨m', _, _, -, hstep, -⟩ := hbefore
      rw [Reader.run_cons, Next.andThen_eq_some] at hstep
      obtain ⟨m'', _, _, hstep, hnil, -⟩ := hstep
      obtain ⟨rfl, -⟩ := Prod.mk.inj (some.inj hnil)
      exact R.atLine_of_step hstep
    obtain rfl : m = .start := R.start_of_run_textLine hm isKey_encryptionKeyName hdate
      (generateEncryptionKey_ne_nil buf) (fun c hc => isBare_of_mem_generateEncryptionKey hc) hmore
    rw [hline, run_keyLine, some.injEq, Prod.mk.injEq] at hmore
    exact ⟨before, R.statements_line.mpr hbefore, by rw [hmore.2]⟩
  · rintro ⟨body, hbody, rfl⟩
    exact ⟨.start, body, _, R.statements_line.mp hbody, run_keyLine R buf, rfl⟩

theorem fits_keyLine : Fits R (text ++ '\n' :: textLine encryptionKeyName (generateEncryptionKey buf)) e ↔
      ∃ d, Fits R (text ++ ['\n']) d ∧
        d.step (.assign [] encryptionKeyName (.text (generateEncryptionKey buf))) = some e := by
  constructor
  · rintro ⟨out, hout, hclear, hrun⟩
    obtain ⟨body, hbody, rfl⟩ := (statements_keyLine R).mp hout
    rw [← cons_append, Doc.run_append, Option.bind_eq_some_iff] at hrun
    obtain ⟨d, hd, hlast⟩ := hrun
    obtain ⟨e', hstep, hend⟩ := Option.bind_eq_some_iff.mp hlast
    obtain rfl : e' = e := some.inj hend
    exact ⟨d, ⟨body, hbody, fun s hs => hclear s (mem_append_left _ hs), hd⟩, hstep⟩
  · rintro ⟨d, ⟨body, hbody, hclear, hd⟩, hstep⟩
    refine ⟨_, (statements_keyLine R).mpr ⟨body, hbody, rfl⟩, ?_, ?_⟩
    · intro s hs
      rcases mem_append.mp hs with hs | hs
      · exact hclear s hs
      · rw [mem_singleton.mp hs]
        exact fun path hpath => by cases hpath
    · rw [← cons_append, Doc.run_append, hd, bind_some, Doc.run_cons, hstep]
      rfl

theorem heldKey_keyLine {d : Doc} (hd : Fits R text d)
    (hstep : d.step (.assign [] encryptionKeyName (.text (generateEncryptionKey buf))) = some e) :
    heldKey e.root = if d.current = [storageName] then some (generateEncryptionKey buf) else heldKey d.root := by
  obtain ⟨body, -, -, hrun⟩ := hd
  rw [Doc.run_cons, Doc.step_header_blank, bind_some] at hrun
  obtain ⟨root, hroot, rfl⟩ := map_eq_some_iff.mp hstep
  split_ifs with hcurrent
  · obtain ⟨sub, hsub⟩ := Doc.header_run ⟨_, Function.update_self ..⟩ hrun
    rw [hcurrent] at hroot
    rw [heldKey, textAt_inside_self hsub hroot, filter_some, if_pos]
    exact decide_eq_true (generateEncryptionKey_ne_nil buf)
  · have hne : d.current ≠ [] := Doc.current_run (cons_ne_nil storageName []) hrun
    rw [heldKey, textAt_inside_of_ne hne hcurrent hroot, heldKey]

theorem appended_survives_iff :
    (∀ buf, ∃ e, Fits R (text ++ '\n' :: textLine encryptionKeyName (generateEncryptionKey buf)) e ∧
        Answers held (heldKey e.root)) ↔
      ∃ d, Fits R (text ++ ['\n']) d ∧ (∃ t ∈ resolve d.current d.root, t encryptionKeyName = none) ∧
        if d.current = [storageName] then held = none else Answers held (heldKey d.root) := by
  have hopen : ∀ (d : Doc) (buf : Vector UInt8 32),
      (∃ e, d.step (.assign [] encryptionKeyName (.text (generateEncryptionKey buf))) = some e) ↔
        ∃ t ∈ resolve d.current d.root, t encryptionKeyName = none := by
    intro d buf
    rw [← isSome_iff_exists, Doc.step, isSome_map, inside_isSome]
    rfl
  constructor
  · intro h
    obtain ⟨e, hfits, hanswers⟩ := h (Vector.replicate 32 0)
    obtain ⟨d, hd, hstep⟩ := (fits_keyLine R).mp hfits
    refine ⟨d, hd, (hopen d _).mp ⟨e, hstep⟩, ?_⟩
    rw [heldKey_keyLine R hd hstep] at hanswers
    split_ifs with hcurrent
    · -- a key of the file would have to be the one that is drawn, for two different draws
      cases held with
      | none => rfl
      | some key =>
        obtain ⟨e', hfits', hanswers'⟩ := h (Vector.replicate 32 1)
        obtain ⟨d', hd', hstep'⟩ := (fits_keyLine R).mp hfits'
        obtain rfl : d = d' := hd.unique hd'
        rw [heldKey_keyLine R hd hstep', if_pos hcurrent] at hanswers'
        rw [if_pos hcurrent] at hanswers
        have hsame := (hanswers.2 key rfl).trans (hanswers'.2 key rfl).symm
        exact absurd hsame (by decide +kernel)
    · rwa [if_neg hcurrent] at hanswers
  · rintro ⟨d, hd, hfree, hkey⟩ buf
    obtain ⟨e, hstep⟩ := (hopen d buf).mpr hfree
    refine ⟨e, (fits_keyLine R).mpr ⟨d, hd, hstep⟩, ?_⟩
    rw [heldKey_keyLine R hd hstep]
    split_ifs at hkey ⊢ with hcurrent
    · rw [hkey]
      exact ⟨rfl, fun key hkey => by cases hkey⟩
    · exact hkey

theorem any_lines_section (copied : Text) :
    (lines (headerLine ++ copied)).any isEncryptionKeyLine = (lines copied).any isEncryptionKeyLine := by
  have hheader : headerLine ++ copied = "[storage]" ++ '\n' :: copied := rfl
  have hkey : isEncryptionKeyLine "[storage]" = false := by decide +kernel
  rw [hheader, lines_line (by decide +kernel) (by decide +kernel), any_cons, hkey, Bool.false_or]

theorem trimEnd_section (copied line : Text) : trimEnd (headerLine ++ copied) ++ '\n' :: line =
      headerLine ++ if trimEnd copied = [] then line else trimEnd copied ++ '\n' :: line := by
  have hheader : trimEnd headerLine ++ ['\n'] = headerLine := by decide +kernel
  rw [trimEnd_append]
  split_ifs
  · rw [append_cons, hheader]
  · rw [append_assoc]

theorem fits_keyLine_blank : Fits R (textLine encryptionKeyName (generateEncryptionKey buf)) e ↔
      Fits R ([] ++ '\n' :: textLine encryptionKeyName (generateEncryptionKey buf)) e := by
  have hblank : R.run .start ['\n'] = some (.start, []) := rfl
  have hstatements : R.statements ([] ++ '\n' :: textLine encryptionKeyName (generateEncryptionKey buf)) =
      R.statements (textLine encryptionKeyName (generateEncryptionKey buf)) := by
    rw [nil_append, ← singleton_append, R.statements_append hblank]
    exact map_id_apply
  rw [Fits, Fits, hstatements]

theorem storageSectionFor_copied {existing copied : Text} (hcopied : copiedLines existing = some copied)
    (buf : Vector UInt8 32) :
    storageSectionFor R (some existing) buf = headerLine ++ if (lines copied).any isEncryptionKeyLine then copied
        else if trimEnd copied = [] then textLine encryptionKeyName (generateEncryptionKey buf)
          else trimEnd copied ++ '\n' :: textLine encryptionKeyName (generateEncryptionKey buf) := by
  rw [storageSectionFor, getD_some, extractStorageSection, hcopied, map_some]
  dsimp only
  rw [any_lines_section, trimEnd_section]
  split_ifs <;> rfl

theorem fits_single {spelled s : Text} (hkey : IsKey key) (hspells : Spells spelled s) (hbegins : Begins spelled) :
    ∃ d, Fits R (textLine key spelled) d ∧ d.root.textAt storageName key = some s := by
  have hline : ∃ front, textLine key spelled = front ++ ['\n'] :=
    ⟨key ++ ' ' :: '=' :: ' ' :: '"' :: (spelled ++ ['"']), by simp [textLine]⟩
  obtain ⟨front, hfront⟩ := hline
  have hstatements : R.statements (textLine key spelled) = some [.assign [] key (.text s)] := by
    rw [hfront, R.statements_line, ← hfront]
    exact R.run_textLine hkey hspells hbegins
  refine ⟨_, ⟨_, hstatements, ?_, rfl⟩, ?_⟩
  · intro st hst path hpath
    rw [mem_singleton.mp hst] at hpath
    cases hpath
  · simp [Table.textAt, Node.get, Node.asText]

theorem single_survives {spelled : Text} (hspells : Spells spelled key) (hbegins : Begins spelled)
    (hne : key ≠ []) (hheld : ∀ k ∈ held, key = k) (form : SetupForm) :
    ∃ written, R.read (wizardConfig form (headerLine ++ textLine encryptionKeyName spelled)) = some written ∧
      Answers held (heldKey written) := by
  obtain ⟨d, hd, htext⟩ := fits_single R isKey_encryptionKeyName hspells hbegins
  have hkey : heldKey d.root = some key := by rw [heldKey, htext, filter_some, if_pos (decide_eq_true hne)]
  refine (section_survives_iff R).mpr ⟨d, hd, ?_⟩ form
  rw [hkey]
  exact ⟨rfl, fun k hk => congrArg some (hheld k hk)⟩

/-- **When the storage key survives the setup wizard**: exactly when the lines that are copied for the section agree
with what the file means. A file without a line that is taken for the header always keeps its key. -/
theorem survives_iff_agrees {existing : Text} {doc : Table} (hvalid : R.read existing = some doc) :
    Survives R existing doc ↔ Agrees R existing (heldKey doc) := by
  cases hcopied : copiedLines existing with
  | none =>
    refine ⟨fun _ copied hmem => absurd (hcopied.symm.trans hmem) (by simp), fun _ form buf => ?_⟩
    have hread : readStorageEncryptionKey R (some existing) = heldKey doc := by
      simp only [readStorageEncryptionKey, bind_eq_bind, bind_some, hvalid]
    rw [storageSectionFor, getD_some, extractStorageSection, hcopied, map_none, hread]
    cases hheld : heldKey doc with
    | none =>
      have hverbatim : ∀ c ∈ generateEncryptionKey buf, IsVerbatim c :=
        fun c hc => isVerbatim_of_isBare (isBare_of_mem_generateEncryptionKey hc)
      exact single_survives R (spells_self hverbatim) (begins_of_isVerbatim hverbatim)
        (generateEncryptionKey_ne_nil buf) (fun k hk => by cases hk) form
    | some key =>
      have hne : key ≠ [] := of_decide_eq_true (filter_eq_some_iff.mp hheld).2
      exact single_survives R (spells_tomlEscape key) (begins_tomlEscape key) hne
        (fun k hk => some.inj hk) form
  | some copied =>
    have hagrees : Agrees R existing (heldKey doc) ↔
        if (lines copied).any isEncryptionKeyLine then ∃ d, Fits R copied d ∧ Answers (heldKey doc) (heldKey d.root)
        else ∃ d, Fits R (trimEnd copied ++ ['\n']) d ∧ (∃ t ∈ resolve d.current d.root, t encryptionKeyName = none) ∧
          if d.current = [storageName] then heldKey doc = none else Answers (heldKey doc) (heldKey d.root) := by
      rw [Agrees, hcopied]
      exact ⟨fun h => h copied rfl, fun h _ hmem => by cases hmem; exact h⟩
    rw [hagrees, Survives]
    simp only [storageSectionFor_copied R hcopied]
    split_ifs with hline hblank
    · rw [← section_survives_iff]
      exact ⟨fun h form => h form (Vector.replicate 32 0), fun h form _ => h form⟩
    · rw [hblank, ← appended_survives_iff]
      simp only [← fits_keyLine_blank, ← section_survives_iff]
      exact forall_comm
    · rw [← appended_survives_iff]
      simp only [← section_survives_iff]
      exact forall_comm

/-- A reader of TOML whose numbers are decimal numerals. -/
def decimalReader : Reader where
  scalar word := word ≠ [] && word.all Char.isDigit
  lineBreak := ['\n']
  scalar_decimal n _ := by
    rw [Bool.and_eq_true, decide_eq_true_eq, List.all_eq_true]
    exact ⟨decimal_ne_nil n, fun c hc => isDigit_of_mem_decimal hc⟩

def plainFile : Text := "[storage]\nencryption_key = \"00ff\"\n[recording]\npath = \"./recordings\"\n"

theorem survives_plainFile : ∃ doc, decimalReader.read plainFile = some doc ∧ heldKey doc = some "00ff".toList ∧
      Survives decimalReader plainFile doc := by
  have hheld : (decimalReader.read plainFile).bind heldKey = some "00ff".toList := by decide +kernel
  have hcopied : copiedLines plainFile = some (textLine encryptionKeyName "00ff".toList) := by decide +kernel
  have hline : (lines (textLine encryptionKeyName "00ff".toList)).any isEncryptionKeyLine = true := by decide +kernel
  have hall : ("00ff".toList.all fun c => decide (IsVerbatim c)) = true := by decide +kernel
  have hverbatim : ∀ c ∈ "00ff".toList, IsVerbatim c := fun c hc =>
    of_decide_eq_true (all_eq_true.mp hall c hc)
  obtain ⟨doc, hdoc, hkey⟩ := Option.bind_eq_some_iff.mp hheld
  obtain ⟨d, hd, htext⟩ := fits_single decimalReader isKey_encryptionKeyName (spells_self hverbatim)
    (begins_of_isVerbatim hverbatim)
  refine ⟨doc, hdoc, hkey, (survives_iff_agrees decimalReader hdoc).mpr fun copied hmem => ?_⟩
  obtain rfl : textLine encryptionKeyName "00ff".toList = copied := some.inj (hcopied.symm.trans hmem)
  have hfound : heldKey d.root = some "00ff".toList := by
    rw [heldKey, htext]
    decide +kernel
  rw [if_pos hline, hkey]
  exact ⟨d, hd, by rw [hfound]; rfl, fun key hmem => hfound.trans hmem⟩

/-- A key in quotation marks, as TOML allows, is not seen by the wizard: it writes a second one, and the file is no
longer TOML. -/
theorem quoted_key_lost :
    (decimalReader.read "[storage]\n\"encryption_key\" = \"00ff\"\n".toList).bind heldKey = some "00ff".toList ∧
      (decimalReader.read (wizardConfig ⟨"127.0.0.1:8089".toList, "persea.db".toList, [], "127.0.0.1:4822".toList, false⟩
        (storageSectionFor decimalReader (some "[storage]\n\"encryption_key\" = \"00ff\"\n".toList)
          (Vector.replicate 32 0)))).isNone = true := by
  decide +kernel

end Persea.Config
