import Persea.CsvTokenize
import Persea.ImportFolders
import Persea.TunnelPinning

/-! The rows of a CSV import, `parse_rows`. After the header, every record that is not blank is an error, a duplicate
that is skipped, or a row to import. -/

namespace Persea.Csv

open Base Base.Text AddressBook List

def headers : List String :=
  ["name", "protocol", "hostname", "port", "username", "password", "folder", "allowed_groups", "description"]

def legacyHeaders : List String :=
  ["name", "protocol", "hostname", "port", "username", "password", "folder", "display_name", "allowed_groups",
    "description"]

inductive OptionalColumn where
  | domain | security | ignoreCert | colorDepth | remoteApp | enableGfx | enableDrive | disableCopy | disablePaste
  | authPkg | kdcUrl | promptCredentials | privateKey
deriving DecidableEq, Repr

def OptionalColumn.header : OptionalColumn → String
  | .domain => "domain"
  | .security => "security"
  | .ignoreCert => "ignore_cert"
  | .colorDepth => "color_depth"
  | .remoteApp => "remote_app"
  | .enableGfx => "enable_gfx"
  | .enableDrive => "enable_drive"
  | .disableCopy => "disable_copy"
  | .disablePaste => "disable_paste"
  | .authPkg => "auth_pkg"
  | .kdcUrl => "kdc_url"
  | .promptCredentials => "prompt_credentials"
  | .privateKey => "private_key"

def optionalColumns : List OptionalColumn :=
  [.domain, .security, .ignoreCert, .colorDepth, .remoteApp, .enableGfx, .enableDrive, .disableCopy, .disablePaste,
    .authPkg, .kdcUrl, .promptCredentials, .privateKey]

inductive TrailingCol where
  | optional (column : OptionalColumn)
  | custom
deriving DecidableEq, Repr

structure Columns where
  trailing : List TrailingCol
  customCols : List Text
deriving DecidableEq, Repr

variable (cols : Columns)

def Columns.headerLen : Nat := headers.length + cols.trailing.length

def fileError (message : String) : CsvError := ⟨0, message⟩

def trailingLoop (customFields : List Text) : (i : Nat) → Columns → List Text → Except CsvError Columns
  | _, cols, [] => .ok cols
  | i, cols, col :: rest =>
    let name := trim col
    match optionalColumns.find? fun column => eqIgnoreAsciiCase column.header.toList name with
    | some column =>
      if .optional column ∈ cols.trailing then
        .error (fileError (s!"invalid header: column {headers.length + i + 1} '{String.ofList name}' " ++
          "appears more than once (optional settings columns may not repeat)"))
      else trailingLoop customFields (i + 1) { cols with trailing := cols.trailing ++ [.optional column] } rest
    | none =>
      if name ∈ customFields then
        trailingLoop customFields (i + 1) ⟨cols.trailing ++ [.custom], cols.customCols ++ [name]⟩ rest
      else
        let known := String.intercalate ", " (optionalColumns.map OptionalColumn.header)
        let configured := String.intercalate ", " (customFields.map String.ofList)
        .error (fileError (s!"invalid header: column {headers.length + i + 1} '{String.ofList name}' " ++
          s!"is neither an optional settings column (optional: {known}) nor a configured custom field" ++
          if customFields = [] then " (none are configured)" else s!" (configured: {configured})"))

def misplacedHeader (normalized : List Text) : Option (Nat × String × String) :=
  headers.zipIdx.findSome? fun (expected, i) =>
    if normalized[i]? = some expected.toList then none
    else some (i, expected, (normalized[i]?.map String.ofList).getD "(missing)")

def parseHeader (customFields header : List Text) : Except CsvError Columns :=
  let rawHeader := header.map trim
  let normalized := (rawHeader.map lowerAscii).modifyHead fun first => first.dropWhile (· = Char.ofNat 0xFEFF)
  if normalized = legacyHeaders.map String.toList then
    .error (fileError ("invalid header: this file uses the OLD 10-column template with a 'display_name' column; the " ++
      "template has changed — download the current one from /api/addressbook/import-template and re-export your data"))
  else
    match misplacedHeader normalized with
    | some (i, expected, actual) =>
      let template := String.intercalate "," headers
      .error (fileError (s!"invalid header: column {i + 1} should be '{expected}' but is '{actual}' " ++
        s!"(template: {template})"))
    | none => trailingLoop customFields 0 ⟨[], []⟩ (rawHeader.drop headers.length)

structure RowSettings where
  domain : Option Text
  security : Option Text
  ignoreCert : Option Bool
  colorDepth : Option UInt8
  remoteApp : Option Text
  (enableGfx enableDrive disableCopy disablePaste : Option Bool)
  authPkg : Option Text
  kdcUrl : Option Text
  promptCredentials : Option Bool
deriving DecidableEq, Repr

def RowSettings.blank : RowSettings := ⟨none, none, none, none, none, none, none, none, none, none, none, none⟩

def parseOptStr (value : Text) : Option Text := if trim value = [] then none else some (trim value)

def parseOptBool (column : String) (value : Text) : Except String (Option Bool) :=
  let value := trim value
  if value = [] then .ok none
  else if lowerAscii value = "true" then .ok (some true)
  else if lowerAscii value = "false" then .ok (some false)
  else .error s!"invalid boolean '{String.ofList value}' for column '{column}' (use true or false)"

def parseColorDepth (value : Text) : Except String (Option UInt8) :=
  let value := trim value
  if value = [] then .ok none
  else
    match (Protocol.parseUsize value).filter (· ≤ 255) with
    | some n => .ok (some (UInt8.ofNat n))
    | none => .error s!"invalid color_depth '{String.ofList value}' (must be a number)"

def parsePort (input : Text) : Except String (Option UInt16) :=
  let input := trim input
  if input = [] then .ok none
  else
    match Tunnel.parsePort input with
    | some port => .ok (some port)
    | none => .error s!"invalid port '{String.ofList input}'"

def parseGroups (input : Text) : List Text :=
  (input.splitOn ',').foldl
    (fun groups g => if trim g = [] ∨ trim g ∈ groups then groups else groups ++ [trim g]) []

structure Cells where
  settings : RowSettings
  privateKey : Option Text
  customValues : List (Text × Text)
  customIdx : Nat
  messages : List String
deriving DecidableEq, Repr

def Cells.checked {α : Type} (cells : Cells) (value : Except String α) (set : RowSettings → α → RowSettings) : Cells :=
  match value with
  | .ok v => { cells with settings := set cells.settings v }
  | .error message => { cells with messages := cells.messages ++ [message] }

def Cells.bool (cells : Cells) (column : OptionalColumn) (cell : Text)
    (set : RowSettings → Option Bool → RowSettings) : Cells :=
  cells.checked (parseOptBool column.header cell) set

def Cells.optional (cells : Cells) (column : OptionalColumn) (cell : Text) : Cells :=
  match column with
  | .domain => { cells with settings := { cells.settings with domain := parseOptStr cell } }
  | .security => { cells with settings := { cells.settings with security := parseOptStr cell } }
  | .remoteApp => { cells with settings := { cells.settings with remoteApp := parseOptStr cell } }
  | .authPkg => { cells with settings := { cells.settings with authPkg := parseOptStr cell } }
  | .kdcUrl => { cells with settings := { cells.settings with kdcUrl := parseOptStr cell } }
  | .privateKey => { cells with privateKey := parseOptStr cell }
  | .ignoreCert => cells.bool column cell fun s v => { s with ignoreCert := v }
  | .enableGfx => cells.bool column cell fun s v => { s with enableGfx := v }
  | .enableDrive => cells.bool column cell fun s v => { s with enableDrive := v }
  | .disableCopy => cells.bool column cell fun s v => { s with disableCopy := v }
  | .disablePaste => cells.bool column cell fun s v => { s with disablePaste := v }
  | .promptCredentials => cells.bool column cell fun s v => { s with promptCredentials := v }
  | .colorDepth => cells.checked (parseColorDepth cell) fun s v => { s with colorDepth := v }

def Cells.read (cells : Cells) : TrailingCol → (cell : Text) → Cells
  | .custom, cell =>
    { cells with
      customValues := cells.customValues ++ [(cols.customCols.getD cells.customIdx [], trim cell)]
      customIdx := cells.customIdx + 1 }
  | .optional column, cell => cells.optional column cell

structure Row where
  (name protocol hostname : Text)
  port : Option UInt16
  (username password folder : Text)
  allowedGroups : List Text
  description : Text
  settings : RowSettings
  privateKey : Option Text
  customFields : List (Text × Text)
deriving DecidableEq, Repr

def Row.key (row : Row) : Text × Text := (row.folder, row.name)

def errorList {α : Type} : Except String α → List String
  | .ok _ => []
  | .error message => [message]

def checkRecord (record : List Text) : Except String Row :=
  if cols.headerLen < record.length then
    .error s!"too many columns: got {record.length}, expected {cols.headerLen}"
  else
    let field := fun i => record.getD i []
    let name := trim (field 0)
    let protocol := lowerAscii (trim (field 1))
    let hostname := trim (field 2)
    let port := parsePort (field 3)
    let start : Cells := ⟨.blank, none, [], 0, errorList port ++ errorList (validateRow name protocol hostname)⟩
    let cells := cols.trailing.zipIdx.foldl
      (fun cells (kind, j) => cells.read cols kind (field (headers.length + j))) start
    if cells.messages ≠ [] then .error (String.intercalate "; " cells.messages)
    else
      .ok
        { name, protocol, hostname
          port := port.toOption.getD none
          username := trim (field 4)
          password := field 5
          folder := normalizeFolder (field 6)
          allowedGroups := parseGroups (field 7)
          description := trim (field 8)
          settings := cells.settings
          privateKey := cells.privateKey
          customFields := cells.customValues }

structure ParseResult where
  rows : List Row
  skipped : List Nat
  errors : List CsvError
deriving DecidableEq, Repr

structure RowLoop where
  result : ParseResult
  seen : List (Text × Text)
deriving DecidableEq, Repr

instance instLawfulBEqKey : LawfulBEq (Text × Text) := inferInstance

def isBlank (record : List Text) : Bool := record.all (· = [])

def RowLoop.step (loop : RowLoop) (record : List Text) (rowIndex : Nat) : RowLoop :=
  if isBlank record then loop
  else
    match checkRecord cols record with
    | .error message => { loop with result.errors := loop.result.errors ++ [⟨rowIndex, message⟩] }
    | .ok row =>
      if row.key ∈ loop.seen then { loop with result.skipped := loop.result.skipped ++ [rowIndex] }
      else ⟨{ loop.result with rows := loop.result.rows ++ [row] }, loop.seen ++ [row.key]⟩

def runRows (data : List (List Text)) : RowLoop :=
  (data.zipIdx 1).foldl (fun loop (record, rowIndex) => loop.step cols record rowIndex) ⟨⟨[], [], []⟩, []⟩

def parseRows (input : Text) (customFields : List Text) : Except CsvError ParseResult :=
  match tokenize input with
  | .error e => .error e
  | .ok [] => .error (fileError "empty CSV: no header row found")
  | .ok (header :: data) =>
    match parseHeader customFields header with
    | .error e => .error e
    | .ok cols => .ok (runRows cols data).result

/-! ### The account of a file -/

def livePositions (data : List (List Text)) : List Nat := ((data.zipIdx 1).filter fun p => !isBlank p.1).map Prod.snd

/-- How a result accounts for the records of a file; `kept` are its rows with their positions. -/
structure Accounts (cols : Columns) (data : List (List Text)) (kept : List (Nat × Row)) (loop : RowLoop) : Prop where
  rows : loop.result.rows = kept.map Prod.snd
  seen : loop.seen = kept.map fun k => k.2.key
  order : (kept.map Prod.fst).Pairwise (· < ·)
  distinct : (kept.map fun k => k.2.key).Nodup
  positions : (kept.map Prod.fst ++ (loop.result.skipped ++ loop.result.errors.map CsvError.row)).Perm
    (livePositions data)
  kept_ok : ∀ k ∈ kept, ∃ record, (record, k.1) ∈ data.zipIdx 1 ∧ checkRecord cols record = .ok k.2
  skipped_ok : ∀ i ∈ loop.result.skipped, ∃ record row, (record, i) ∈ data.zipIdx 1 ∧
    checkRecord cols record = .ok row ∧ ∃ k ∈ kept, k.1 < i ∧ k.2.key = row.key
  errors_ok : ∀ e ∈ loop.result.errors, ∃ record, (record, e.row) ∈ data.zipIdx 1 ∧
    checkRecord cols record = .error e.message

section

variable {cols : Columns} {data : List (List Text)} {kept : List (Nat × Row)} {loop : RowLoop}

variable {record : List Text} {i : Nat}

theorem position_lt (h : (record, i) ∈ data.zipIdx 1) : i < data.length + 1 := by
  obtain ⟨-, hlt, -⟩ := mem_zipIdx h
  omega

theorem zipIdx_concat (data : List (List Text)) (record : List Text) :
    (data ++ [record]).zipIdx 1 = data.zipIdx 1 ++ [(record, data.length + 1)] := by
  rw [zipIdx_append, Nat.add_comm]
  rfl

theorem mem_zipIdx_concat {p : List Text × Nat} (h : p ∈ data.zipIdx 1) (record : List Text) :
    p ∈ (data ++ [record]).zipIdx 1 := by
  rw [zipIdx_concat]
  exact mem_append_left _ h

theorem last_mem_zipIdx (data : List (List Text)) (record : List Text) :
    (record, data.length + 1) ∈ (data ++ [record]).zipIdx 1 := by
  rw [zipIdx_concat]
  exact mem_append_right _ mem_cons_self

theorem livePositions_concat (data : List (List Text)) (record : List Text) : livePositions (data ++ [record]) =
      livePositions data ++ if isBlank record then [] else [data.length + 1] := by
  rw [livePositions, zipIdx_concat, filter_append, map_append, filter_singleton]
  cases isBlank record <;> simp [livePositions]

theorem runRows_concat (cols : Columns) (data : List (List Text)) (record : List Text) :
    runRows cols (data ++ [record]) = (runRows cols data).step cols record (data.length + 1) := by
  rw [runRows, zipIdx_concat, foldl_append]
  rfl

section

variable (h : Accounts cols data kept loop)

include h

theorem Accounts.later (record : List Text) :
    (∀ k ∈ kept, ∃ r, (r, k.1) ∈ (data ++ [record]).zipIdx 1 ∧ checkRecord cols r = .ok k.2) ∧
      (∀ i ∈ loop.result.skipped, ∃ r row, (r, i) ∈ (data ++ [record]).zipIdx 1 ∧ checkRecord cols r = .ok row ∧
        ∃ k ∈ kept, k.1 < i ∧ k.2.key = row.key) ∧
      ∀ e ∈ loop.result.errors, ∃ r, (r, e.row) ∈ (data ++ [record]).zipIdx 1 ∧
        checkRecord cols r = .error e.message := by
  refine ⟨fun k hk => ?_, fun i hi => ?_, fun e he => ?_⟩
  · obtain ⟨r, hr, hcheck⟩ := h.kept_ok k hk
    exact ⟨r, mem_zipIdx_concat hr record, hcheck⟩
  · obtain ⟨r, row, hr, hcheck⟩ := h.skipped_ok i hi
    exact ⟨r, row, mem_zipIdx_concat hr record, hcheck⟩
  · obtain ⟨r, hr, hcheck⟩ := h.errors_ok e he
    exact ⟨r, mem_zipIdx_concat hr record, hcheck⟩

theorem Accounts.blank (hblank : isBlank record) : Accounts cols (data ++ [record]) kept loop where
  rows := h.rows
  seen := h.seen
  order := h.order
  distinct := h.distinct
  positions := by
    rw [livePositions_concat, if_pos hblank, append_nil]
    exact h.positions
  kept_ok := (h.later record).1
  skipped_ok := (h.later record).2.1
  errors_ok := (h.later record).2.2

theorem Accounts.fail (hlive : isBlank record = false)
    {message : String} (hcheck : checkRecord cols record = .error message) :
    Accounts cols (data ++ [record]) kept
      { loop with result.errors := loop.result.errors ++ [⟨data.length + 1, message⟩] } where
  rows := h.rows
  seen := h.seen
  order := h.order
  distinct := h.distinct
  positions := by
    rw [livePositions_concat, hlive, map_append, ← append_assoc, ← append_assoc, append_assoc _ _
      (map CsvError.row loop.result.errors)]
    exact h.positions.append_right _
  kept_ok := (h.later record).1
  skipped_ok := (h.later record).2.1
  errors_ok e he := by
    rcases mem_append.mp he with he | he
    · exact (h.later record).2.2 e he
    · rw [mem_singleton.mp he]
      exact ⟨record, last_mem_zipIdx data record, hcheck⟩

theorem Accounts.skip {record : List Text} (hlive : isBlank record = false)
    {row : Row} (hcheck : checkRecord cols record = .ok row) (hseen : row.key ∈ loop.seen) :
    Accounts cols (data ++ [record]) kept
      { loop with result.skipped := loop.result.skipped ++ [data.length + 1] } where
  rows := h.rows
  seen := h.seen
  order := h.order
  distinct := h.distinct
  positions := by
    rw [livePositions_concat, hlive]
    refine Perm.trans ?_ (h.positions.append_right [data.length + 1])
    rw [append_assoc (kept.map Prod.fst), append_assoc, append_assoc]
    exact (perm_append_comm.append_left _).append_left _
  kept_ok := (h.later record).1
  skipped_ok i hi := by
    rcases mem_append.mp hi with hi | hi
    · exact (h.later record).2.1 i hi
    · rw [mem_singleton.mp hi]
      rw [h.seen] at hseen
      obtain ⟨k, hk, hkey⟩ := mem_map.mp hseen
      obtain ⟨r, hr, -⟩ := h.kept_ok k hk
      exact ⟨record, row, last_mem_zipIdx data record, hcheck, k, hk, position_lt hr, hkey⟩
  errors_ok := (h.later record).2.2

theorem Accounts.keep (hlive : isBlank record = false)
    {row : Row} (hcheck : checkRecord cols record = .ok row) (hseen : row.key ∉ loop.seen) :
    Accounts cols (data ++ [record]) (kept ++ [(data.length + 1, row)])
      ⟨{ loop.result with rows := loop.result.rows ++ [row] }, loop.seen ++ [row.key]⟩ where
  rows := by rw [map_append, h.rows]; rfl
  seen := by rw [map_append, h.seen]; rfl
  order := by
    rw [map_append, pairwise_append]
    refine ⟨h.order, pairwise_singleton _ _, ?_⟩
    intro i hi j hj
    obtain ⟨k, hk, rfl⟩ := mem_map.mp hi
    obtain ⟨r, hr, -⟩ := h.kept_ok k hk
    rw [mem_singleton.mp hj]
    exact position_lt hr
  distinct := by
    rw [h.seen] at hseen
    rw [map_append, map_singleton, ← concat_eq_append]
    exact Nodup.concat hseen h.distinct
  positions := by
    rw [livePositions_concat, hlive, map_append, append_assoc]
    refine Perm.trans ?_ (h.positions.append_right [data.length + 1])
    rw [append_assoc (kept.map Prod.fst)]
    exact perm_append_comm.append_left _
  kept_ok k hk := by
    rcases mem_append.mp hk with hk | hk
    · exact (h.later record).1 k hk
    · rw [mem_singleton.mp hk]
      exact ⟨record, last_mem_zipIdx data record, hcheck⟩
  skipped_ok i hi := by
    obtain ⟨r, row', hr, hrow, k, hk, hbefore⟩ := (h.later record).2.1 i hi
    exact ⟨r, row', hr, hrow, k, mem_append_left _ hk, hbefore⟩
  errors_ok := (h.later record).2.2

theorem Accounts.step (record : List Text) :
    ∃ kept, Accounts cols (data ++ [record]) kept (loop.step cols record (data.length + 1)) := by
  unfold RowLoop.step
  cases hblank : isBlank record with
  | true => exact ⟨kept, h.blank hblank⟩
  | false =>
    cases hcheck : checkRecord cols record with
    | error message => exact ⟨kept, h.fail hblank hcheck⟩
    | ok row =>
      by_cases hseen : row.key ∈ loop.seen
      · exact ⟨kept, by simpa [hseen] using h.skip hblank hcheck hseen⟩
      · exact ⟨_, by simpa [hseen] using h.keep hblank hcheck hseen⟩

end

theorem exists_accounts (cols : Columns) (data : List (List Text)) :
    ∃ kept, Accounts cols data kept (runRows cols data) := by
  induction data using reverseRecOn with
  | nil =>
    have hstart : Accounts cols [] [] ⟨⟨[], [], []⟩, []⟩ := by constructor <;> simp [livePositions]
    exact ⟨[], hstart⟩
  | append_singleton data record ih =>
    obtain ⟨kept, h⟩ := ih
    rw [runRows_concat]
    exact h.step record

theorem record_unique {r r' : List Text} (h : (r, i) ∈ data.zipIdx 1) (h' : (r', i) ∈ data.zipIdx 1) : r = r' := by
  have hr := (mk_mem_zipIdx_iff_le_and_getElem?_sub.mp h).2
  have hr' := (mk_mem_zipIdx_iff_le_and_getElem?_sub.mp h').2
  exact Option.some.inj (hr.symm.trans hr')

theorem nodup_livePositions (data : List (List Text)) : (livePositions data).Nodup := by
  have hall : ((data.zipIdx 1).map Prod.snd).Nodup := by
    rw [zipIdx_map_snd]
    exact nodup_range'
  exact hall.sublist (filter_sublist.map Prod.snd)

theorem Accounts.cases (h : Accounts cols data kept loop)
    (hmem : (record, i) ∈ data.zipIdx 1) (hlive : isBlank record = false) :
    (∃ row, (i, row) ∈ kept ∧ checkRecord cols record = .ok row) ∨
      (i ∈ loop.result.skipped ∧ ∃ row, checkRecord cols record = .ok row ∧ ∃ k ∈ kept, k.1 < i ∧ k.2.key = row.key) ∨
      ∃ message, ⟨i, message⟩ ∈ loop.result.errors ∧ checkRecord cols record = .error message := by
  have hposition : i ∈ livePositions data := mem_map.mpr ⟨(record, i), mem_filter.mpr ⟨hmem, by simp [hlive]⟩, rfl⟩
  have hfound := h.positions.mem_iff.mpr hposition
  rw [mem_append, mem_append] at hfound
  rcases hfound with hi | hi | hi
  · obtain ⟨⟨j, row⟩, hk, rfl⟩ := mem_map.mp hi
    obtain ⟨r, hr, hcheck⟩ := h.kept_ok _ hk
    exact .inl ⟨row, hk, record_unique hr hmem ▸ hcheck⟩
  · obtain ⟨r, row, hr, hcheck, hbefore⟩ := h.skipped_ok i hi
    exact .inr (.inl ⟨hi, row, record_unique hr hmem ▸ hcheck, hbefore⟩)
  · obtain ⟨⟨j, message⟩, he, rfl⟩ := mem_map.mp hi
    obtain ⟨r, hr, hcheck⟩ := h.errors_ok _ he
    exact .inr (.inr ⟨message, he, record_unique hr hmem ▸ hcheck⟩)

theorem Accounts.skipped_iff (h : Accounts cols data kept loop)
    (hmem : (record, i) ∈ data.zipIdx 1) (hlive : isBlank record = false) {row : Row}
    (hcheck : checkRecord cols record = .ok row) :
    (i ∈ loop.result.skipped ↔ ∃ k ∈ kept, k.1 < i ∧ k.2.key = row.key) ∧
      (i ∉ loop.result.skipped → (i, row) ∈ kept) := by
  rcases h.cases hmem hlive with ⟨row', hk, hrow⟩ | ⟨hi, row', hrow, hbefore⟩ | ⟨message, -, hmessage⟩
  · obtain rfl : row = row' := Except.ok.inj (hcheck.symm.trans hrow)
    refine ⟨⟨fun hi => ?_, fun hbefore => ?_⟩, fun _ => hk⟩
    · obtain ⟨r, row', hr, hrow', hbefore⟩ := h.skipped_ok i hi
      rw [record_unique hr hmem, hrow] at hrow'
      rw [Except.ok.inj hrow']
      exact hbefore
    · -- two kept rows with one key are one row
      obtain ⟨k, hk', hlt, hkey⟩ := hbefore
      have hsame := inj_on_of_nodup_map h.distinct hk' hk hkey
      rw [hsame] at hlt
      exact absurd hlt (Nat.lt_irrefl i)
  · obtain rfl : row = row' := Except.ok.inj (hcheck.symm.trans hrow)
    exact ⟨⟨fun _ => hbefore, fun _ => hi⟩, fun hnot => absurd hi hnot⟩
  · rw [hcheck] at hmessage
    contradiction

end

theorem parseRows_eq_ok {input : Text} {customFields : List Text} {result : ParseResult}
    (h : parseRows input customFields = .ok result) :
    ∃ header data cols, tokenize input = .ok (header :: data) ∧ parseHeader customFields header = .ok cols ∧
      result = (runRows cols data).result := by
  unfold parseRows at h
  split at h
  · contradiction
  · contradiction
  · rename_i header data htokens
    split at h
    · contradiction
    · rename_i cols hheader
      exact ⟨header, data, cols, htokens, hheader, (Except.ok.inj h).symm⟩

/-- **Every record is accounted for once.** Kept rows, skipped records and errors are together the records that
are not blank; a record that fails a check is an error, and one that passes is skipped exactly when a row before
it has its folder and name. -/
theorem parseRows_accounts {input : Text} {customFields : List Text} {result : ParseResult}
    (h : parseRows input customFields = .ok result) :
    ∃ (header : List Text) (data : List (List Text)) (cols : Columns) (kept : List (Nat × Row)),
      tokenize input = .ok (header :: data) ∧ parseHeader customFields header = .ok cols ∧
      (livePositions data).Nodup ∧
      (kept.map Prod.fst ++ (result.skipped ++ result.errors.map CsvError.row)).Perm (livePositions data) ∧
      result.rows = kept.map Prod.snd ∧ (kept.map Prod.fst).Pairwise (· < ·) ∧ (result.rows.map Row.key).Nodup ∧
      ∀ record i, (record, i) ∈ data.zipIdx 1 → isBlank record = false →
        (∀ message, checkRecord cols record = .error message → ⟨i, message⟩ ∈ result.errors) ∧
        ∀ row, checkRecord cols record = .ok row → (i ∈ result.skipped ↔ ∃ k ∈ kept, k.1 < i ∧ k.2.key = row.key) ∧
            (i ∉ result.skipped → (i, row) ∈ kept) := by
  obtain ⟨header, data, cols, htokens, hheader, rfl⟩ := parseRows_eq_ok h
  obtain ⟨kept, haccounts⟩ := exists_accounts cols data
  refine ⟨header, data, cols, kept, htokens, hheader, nodup_livePositions data, haccounts.positions, haccounts.rows,
    haccounts.order, ?_, fun record i hmem hlive => ⟨fun message hcheck => ?_, fun row hcheck => ?_⟩⟩
  · rw [haccounts.rows, map_map]
    exact haccounts.distinct
  · rcases haccounts.cases hmem hlive with ⟨row, -, hrow⟩ | ⟨-, row, hrow, -⟩ | ⟨message', he, hmessage⟩
    · rw [hcheck] at hrow
      contradiction
    · rw [hcheck] at hrow
      contradiction
    · rw [hcheck] at hmessage
      rw [Except.error.inj hmessage]
      exact he
  · exact haccounts.skipped_iff hmem hlive hcheck

def sampleCsv : Text :=
  "name,protocol,hostname,port,username,password,folder,allowed_groups,description\n" ++
    "web1,ssh,10.0.0.1,22,,,ops,,\n\n web1 ,rdp,h,,,,/ops/,,\nx,ssh,\n"

def sampleRow : Row :=
  { name := "web1", protocol := "ssh", hostname := "10.0.0.1", port := some 22, username := [],
    password := [], folder := "ops", allowedGroups := [], description := [], settings := .blank,
    privateKey := none, customFields := [] }

theorem parseRows_sample :
    parseRows sampleCsv [] = .ok ⟨[sampleRow], [3], [⟨4, "hostname is required for protocol 'ssh'"⟩]⟩ ∧
      ∃ (header : List Text) (data : List (List Text)) (kept : List (Nat × Row)),
        tokenize sampleCsv = .ok (header :: data) ∧ kept.map Prod.snd = [sampleRow] ∧
        (kept.map Prod.fst ++ ([3] ++ [4])).Perm (livePositions data) := by
  have hparse : parseRows sampleCsv [] =
      .ok ⟨[sampleRow], [3], [⟨4, "hostname is required for protocol 'ssh'"⟩]⟩ := by decide +kernel
  obtain ⟨header, data, cols, kept, htokens, -, -, hpositions, hrows, -⟩ := parseRows_accounts hparse
  exact ⟨hparse, header, data, kept, htokens, hrows.symm, hpositions⟩

end Persea.Csv
