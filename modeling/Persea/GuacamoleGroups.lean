import Persea.BaseParents
import Persea.DbMigrate

/-! The connection groups of a Guacamole dump. `build_group_paths` makes folder paths by following the parents;
characters that Vault does not take are dropped from the names. -/

namespace Persea.Guacamole

open Base Base.Text Vault DbMigrate List Option

structure Group where
  id : Int
  parentId : Option Int
  name : Text
deriving DecidableEq, Repr

def sanitizeChar (c : Char) : Char := if c = ' ' then '-' else if isKeyChar c then c else '\x00'

def sanitized (name : Text) : Text := (name.map sanitizeChar).filter (· ≠ '\x00')

/-- What is left is ASCII, so that it is cut after 64 characters. -/
def sanitizeName (name : Text) : Text :=
  let truncated := if 64 < (sanitized name).length then (sanitized name).take 64 else sanitized name
  if truncated = [] then "unnamed" else truncated

abbrev Paths := Store Int Text

def groupMap (groups : List Group) (id : Int) : Option Group := groups.reverse.find? fun g => g.id = id

/-- The fuel bounds the depth of the recursion. -/
def resolveGroupPath (groups : List Group) : (fuel : Nat) → Int → Paths → Option (Text × Paths)
  | 0, _, _ => none
  | fuel + 1, id, cache =>
    match cache.lookup id with
    | some cached => some (cached, cache)
    | none =>
      match groupMap groups id with
      | none => some ([], cache)
      | some group =>
        let name := sanitizeName group.name
        match group.parentId.filter fun pid => (groupMap groups pid).isSome with
        | some pid =>
          match resolveGroupPath groups fuel pid cache with
          | none => none
          | some (parentPath, cache) =>
            let full := if parentPath = [] then name else parentPath ++ '/' :: name
            some (full, cache.insert id full)
        | none => some (name, cache.insert id name)

def buildLoop (groups : List Group) (fuel : Nat) : List Group → Paths → Option Paths
  | [], paths => some paths
  | g :: rest, paths =>
    if (paths.lookup g.id).isSome then buildLoop groups fuel rest paths
    else
      match resolveGroupPath groups fuel g.id paths with
      | none => none
      | some (path, paths) => buildLoop groups fuel rest (paths.insert g.id path)

def buildGroupPaths (groups : List Group) (fuel : Nat) : Option Paths := buildLoop groups fuel groups ∅

def parentOf (groups : List Group) (id : Int) : Option Int :=
  (groupMap groups id).bind fun group => group.parentId.filter fun pid => (groupMap groups pid).isSome

variable {groups : List Group}

variable {id : Int} {names : List Text} {fuel : Nat} {cache : Paths} {rest : List Group} {paths : Paths} {c : Char}

theorem groupMap_isSome_iff : (groupMap groups id).isSome ↔ ∃ g ∈ groups, g.id = id := by simp [groupMap]

theorem isSome_of_parentOf {pid : Int} (h : parentOf groups id = some pid) :
    (groupMap groups id).isSome ∧ (groupMap groups pid).isSome := by
  obtain ⟨group, hgroup, hparent⟩ := Option.bind_eq_some_iff.mp h
  rw [hgroup]
  exact ⟨rfl, (filter_eq_some_iff.mp hparent).2⟩

inductive Lineage (groups : List Group) : Int → List Text → Prop
  | top {id : Int} {group : Group} (h : groupMap groups id = some group) (hparent : parentOf groups id = none) :
      Lineage groups id [group.name]
  | under {id pid : Int} {group : Group} {names : List Text} (h : groupMap groups id = some group)
      (hparent : parentOf groups id = some pid) (hnames : Lineage groups pid names) :
      Lineage groups id (names ++ [group.name])

def joined (names : List Text) : Text := ['/'].intercalate (names.map sanitizeName)

variable (name : Text) {cache' result : Paths} {fuel' : Nat}

theorem sanitizeName_eq :
    sanitizeName name = if sanitized name = [] then "unnamed".toList else (sanitized name).take 64 := by
  have htake : (if 64 < (sanitized name).length then (sanitized name).take 64 else sanitized name) =
      (sanitized name).take 64 := by
    split_ifs with hlong
    · rfl
    · rw [take_of_length_le (Nat.not_lt.mp hlong)]
  rw [sanitizeName, htake]
  simp only [take_eq_nil_iff, OfNat.ofNat_ne_zero, false_or]

theorem sanitizeName_ne_nil : sanitizeName name ≠ [] := by
  rw [sanitizeName_eq]
  split_ifs with hempty
  · decide
  · rw [ne_eq, take_eq_nil_iff, not_or]
    exact ⟨by decide, hempty⟩

theorem Lineage.ne_nil (h : Lineage groups id names) : names ≠ [] := by
  cases h with
  | top => exact cons_ne_nil _ _
  | under => exact concat_ne_nil _ _

theorem joined_ne_nil (h : names ≠ []) : joined names ≠ [] := by
  obtain ⟨name, rest, rfl⟩ := exists_cons_of_ne_nil h
  cases rest with
  | nil => simpa [joined] using sanitizeName_ne_nil name
  | cons next rest => simp [joined, intercalate_cons_cons]

theorem joined_concat (h : names ≠ []) (name : Text) :
    joined (names ++ [name]) = joined names ++ '/' :: sanitizeName name := by
  rw [joined, map_append, map_singleton, intercalate_concat (by simpa using h)]
  simp [joined]

theorem Lineage.ends (h : Lineage groups id names) : Parents.Ends (parentOf groups) id := by
  induction h with
  | top _ hparent => exact .top hparent
  | under _ hparent _ ih => exact .under hparent ih

theorem exists_lineage (h : Parents.Ends (parentOf groups) id) (hid : (groupMap groups id).isSome) :
    ∃ names, Lineage groups id names := by
  induction h with
  | top hparent =>
    obtain ⟨group, hgroup⟩ := isSome_iff_exists.mp hid
    exact ⟨_, .top hgroup hparent⟩
  | under hparent _ ih =>
    obtain ⟨group, hgroup⟩ := isSome_iff_exists.mp hid
    obtain ⟨names, hnames⟩ := ih (isSome_of_parentOf hparent).2
    exact ⟨_, .under hgroup hparent hnames⟩

theorem Lineage.unique {names' : List Text} (h : Lineage groups id names)
    (h' : Lineage groups id names') : names = names' := by
  induction h generalizing names' with
  | top hgroup hparent =>
    cases h' with
    | top hgroup' _ => rw [some.inj (hgroup.symm.trans hgroup')]
    | under _ hparent' _ =>
      rw [hparent] at hparent'
      cases hparent'
  | under hgroup hparent _ ih =>
    cases h' with
    | top _ hparent' =>
      rw [hparent] at hparent'
      cases hparent'
    | under hgroup' hparent' hnames' =>
      obtain rfl := some.inj (hparent.symm.trans hparent')
      rw [some.inj (hgroup.symm.trans hgroup'), ih hnames']

theorem resolveGroupPath_succ {group : Group}
    (hcache : cache.lookup id = none) (hgroup : groupMap groups id = some group) :
    resolveGroupPath groups (fuel + 1) id cache =
      match parentOf groups id with
      | some pid => (resolveGroupPath groups fuel pid cache).map fun r =>
        let full := if r.1 = [] then sanitizeName group.name else r.1 ++ '/' :: sanitizeName group.name
        (full, r.2.insert id full)
      | none => some (sanitizeName group.name, cache.insert id (sanitizeName group.name)) := by
  have hparent : parentOf groups id = group.parentId.filter fun pid => (groupMap groups pid).isSome := by
    rw [parentOf, hgroup]
    rfl
  rw [resolveGroupPath, hparent]
  simp only [hcache, hgroup]
  cases group.parentId.filter fun pid => (groupMap groups pid).isSome with
  | none => rfl
  | some pid =>
    dsimp only
    rcases resolveGroupPath groups fuel pid cache with _ | ⟨path, cache'⟩ <;> rfl

def Cached (groups : List Group) (cache : Paths) : Prop :=
  ∀ id path, cache.lookup id = some path → ∃ names, Lineage groups id names ∧ path = joined names

theorem Cached.insert (h : Cached groups cache)
    (hnames : Lineage groups id names) : Cached groups (cache.insert id (joined names)) := by
  intro id' path hlookup
  by_cases hid : id' = id
  · subst hid
    rw [AList.lookup_insert] at hlookup
    exact ⟨names, hnames, (some.inj hlookup).symm⟩
  · rw [AList.lookup_insert_ne hid] at hlookup
    exact h id' path hlookup

def Kept (cache cache' : Paths) : Prop := ∀ id, (cache.lookup id).isSome → (cache'.lookup id).isSome

theorem Kept.insert (h : Kept cache cache') (id : Int) (path : Text) : Kept cache (cache'.insert id path) := by
  intro id' hid'
  by_cases hid : id' = id
  · rw [hid, AList.lookup_insert]
    rfl
  · rw [AList.lookup_insert_ne hid]
    exact h id' hid'

/-- **One path.** A call that returns has followed the parents to their end. -/
theorem resolveGroupPath_sound {path : Text} (hcached : Cached groups cache)
    (hid : (groupMap groups id).isSome) (h : resolveGroupPath groups fuel id cache = some (path, cache')) :
    (∃ names, Lineage groups id names ∧ path = joined names) ∧ Cached groups cache' ∧ Kept cache cache' := by
  induction fuel generalizing id path cache' with
  | zero => cases h
  | succ fuel ih =>
    cases hcache : cache.lookup id with
    | some cached =>
      rw [resolveGroupPath, hcache] at h
      obtain ⟨rfl, rfl⟩ := Prod.mk.inj (some.inj h)
      exact ⟨hcached id cached hcache, hcached, fun _ hkept => hkept⟩
    | none =>
      obtain ⟨group, hgroup⟩ := isSome_iff_exists.mp hid
      rw [resolveGroupPath_succ hcache hgroup] at h
      cases hparent : parentOf groups id with
      | none =>
        rw [hparent] at h
        obtain ⟨rfl, rfl⟩ := Prod.mk.inj (some.inj h)
        have hnames : Lineage groups id [group.name] := .top hgroup hparent
        have hpath : sanitizeName group.name = joined [group.name] := by simp [joined]
        refine ⟨⟨_, hnames, hpath⟩, ?_, Kept.insert (fun _ hkept => hkept) _ _⟩
        rw [hpath]
        exact hcached.insert hnames
      | some pid =>
        rw [hparent] at h
        obtain ⟨⟨parentPath, after⟩, hresolve, heq⟩ := map_eq_some_iff.mp h
        obtain ⟨⟨names, hnames, rfl⟩, hafter, hkept⟩ := ih (isSome_of_parentOf hparent).2 hresolve
        have hunder : Lineage groups id (names ++ [group.name]) := .under hgroup hparent hnames
        simp only [joined_ne_nil hnames.ne_nil, if_false, ← joined_concat hnames.ne_nil] at heq
        obtain ⟨rfl, rfl⟩ := Prod.mk.inj heq
        exact ⟨⟨_, hunder, rfl⟩, hafter.insert hunder, hkept.insert _ _⟩

theorem resolveGroupPath_mono (hle : fuel ≤ fuel') {r : Text × Paths}
    (h : resolveGroupPath groups fuel id cache = some r) : resolveGroupPath groups fuel' id cache = some r := by
  induction fuel generalizing fuel' id r with
  | zero => cases h
  | succ fuel ih =>
    obtain ⟨fuel', rfl⟩ := Nat.exists_eq_add_of_le' (Nat.le_of_lt_succ (Nat.lt_succ_of_le hle))
    cases hcache : cache.lookup id with
    | some cached =>
      rw [resolveGroupPath, hcache] at h
      rw [← Nat.add_assoc, resolveGroupPath, hcache]
      exact h
    | none =>
      cases hgroup : groupMap groups id with
      | none =>
        rw [resolveGroupPath, hcache, hgroup] at h
        rw [← Nat.add_assoc, resolveGroupPath, hcache, hgroup]
        exact h
      | some group =>
        rw [resolveGroupPath_succ hcache hgroup] at h
        rw [← Nat.add_assoc, resolveGroupPath_succ hcache hgroup]
        cases hparent : parentOf groups id with
        | none =>
          rw [hparent] at h
          exact h
        | some pid =>
          rw [hparent] at h
          obtain ⟨r', hresolve, heq⟩ := map_eq_some_iff.mp h
          exact map_eq_some_iff.mpr ⟨r', ih (Nat.le_add_left _ _) hresolve, heq⟩

theorem exists_resolveGroupPath (h : Lineage groups id names) (cache : Paths) :
    ∃ fuel r, resolveGroupPath groups fuel id cache = some r := by
  induction h with
  | @top id group hgroup hparent =>
    cases hcache : cache.lookup id with
    | some cached => exact ⟨1, _, by rw [resolveGroupPath, hcache]⟩
    | none => exact ⟨1, _, by rw [resolveGroupPath_succ hcache hgroup, hparent]⟩
  | @under id pid group names hgroup hparent _ ih =>
    cases hcache : cache.lookup id with
    | some cached => exact ⟨1, _, by rw [resolveGroupPath, hcache]⟩
    | none =>
      obtain ⟨fuel, r, hresolve⟩ := ih
      refine ⟨fuel + 1, ?_⟩
      rw [resolveGroupPath_succ hcache hgroup, hparent]
      exact ⟨_, map_eq_some_iff.mpr ⟨r, hresolve, rfl⟩⟩

theorem buildLoop_sound (hrest : ∀ g ∈ rest, (groupMap groups g.id).isSome) (hcached : Cached groups paths)
    (h : buildLoop groups fuel rest paths = some result) :
    Cached groups result ∧ Kept paths result ∧ ∀ g ∈ rest, (result.lookup g.id).isSome := by
  induction rest generalizing paths with
  | nil =>
    cases h
    exact ⟨hcached, fun _ hkept => hkept, fun _ hg => by cases hg⟩
  | cons g rest ih =>
    rw [forall_mem_cons] at hrest ⊢
    rw [buildLoop] at h
    split_ifs at h with hthere
    · obtain ⟨hresult, hkept, hothers⟩ := ih hrest.2 hcached h
      exact ⟨hresult, hkept, hkept g.id hthere, hothers⟩
    · rcases hresolve : resolveGroupPath groups fuel g.id paths with _ | ⟨path, after⟩
      · rw [hresolve] at h
        cases h
      · rw [hresolve] at h
        obtain ⟨⟨names, hnames, rfl⟩, hafter, hkept⟩ := resolveGroupPath_sound hcached hrest.1 hresolve
        obtain ⟨hresult, hkept', hothers⟩ := ih hrest.2 (hafter.insert hnames) h
        refine ⟨hresult, fun id hid => hkept' id (hkept.insert _ _ id hid), hkept' g.id ?_, hothers⟩
        rw [AList.lookup_insert]
        rfl

theorem buildLoop_mono (hle : fuel ≤ fuel') (h : buildLoop groups fuel rest paths = some result) :
    buildLoop groups fuel' rest paths = some result := by
  induction rest generalizing paths with
  | nil => exact h
  | cons g rest ih =>
    rw [buildLoop] at h ⊢
    split_ifs at h ⊢ with hthere
    · exact ih h
    · rcases hresolve : resolveGroupPath groups fuel g.id paths with _ | ⟨path, after⟩
      · rw [hresolve] at h
        cases h
      · rw [hresolve] at h
        rw [resolveGroupPath_mono hle hresolve]
        exact ih h

theorem exists_buildLoop (hrest : ∀ g ∈ rest, ∃ names, Lineage groups g.id names)
    (paths : Paths) : ∃ fuel result, buildLoop groups fuel rest paths = some result := by
  induction rest generalizing paths with
  | nil => exact ⟨0, paths, rfl⟩
  | cons g rest ih =>
    rw [forall_mem_cons] at hrest
    obtain ⟨⟨names, hnames⟩, hrest⟩ := hrest
    by_cases hthere : (paths.lookup g.id).isSome
    · obtain ⟨fuel, result, hloop⟩ := ih hrest paths
      exact ⟨fuel, result, by rw [buildLoop, if_pos hthere, hloop]⟩
    · obtain ⟨fuel, ⟨path, after⟩, hresolve⟩ := exists_resolveGroupPath hnames paths
      obtain ⟨fuel', result, hloop⟩ := ih hrest (after.insert g.id path)
      refine ⟨max fuel fuel', result, ?_⟩
      rw [buildLoop, if_neg hthere, resolveGroupPath_mono (Nat.le_max_left _ _) hresolve]
      exact buildLoop_mono (Nat.le_max_right _ _) hloop

theorem cached_empty : Cached groups ∅ := by
  intro id path h
  cases h

theorem buildGroupPaths_sound (h : buildGroupPaths groups fuel = some paths) :
    Cached groups paths ∧ ∀ g ∈ groups, (paths.lookup g.id).isSome := by
  have hsome : ∀ g ∈ groups, (groupMap groups g.id).isSome := fun g hg => groupMap_isSome_iff.mpr ⟨g, hg, rfl⟩
  obtain ⟨hcached, -, hall⟩ := buildLoop_sound hsome cached_empty h
  exact ⟨hcached, hall⟩

theorem finite_ids (groups : List Group) : {id | (groupMap groups id).isSome}.Finite := by
  refine (groups.map Group.id).finite_toSet.subset fun id hid => ?_
  obtain ⟨g, hg, rfl⟩ := groupMap_isSome_iff.mp hid
  exact mem_map_of_mem hg

theorem exists_buildGroupPaths (hcircle : ∀ id, ¬Parents.Above (parentOf groups) id id) :
    ∃ fuel paths, buildGroupPaths groups fuel = some paths := by
  refine exists_buildLoop (fun g hg => ?_) ∅
  have hends := Parents.ends_of_not_above (finite_ids groups) (fun _ _ h => (isSome_of_parentOf h).2) hcircle g.id
  exact exists_lineage hends (groupMap_isSome_iff.mpr ⟨g, hg, rfl⟩)

/-- **The recursion ends** exactly if no group is above itself. -/
theorem buildGroupPaths_returns_iff (groups : List Group) :
    (∃ fuel paths, buildGroupPaths groups fuel = some paths) ↔ ∀ id, ¬Parents.Above (parentOf groups) id id := by
  refine ⟨?_, exists_buildGroupPaths⟩
  rintro ⟨fuel, paths, h⟩ id hcircle
  obtain ⟨hcached, hall⟩ := buildGroupPaths_sound h
  -- a group on a circle has a parent, so it is one of the table
  obtain ⟨pid, -, hparent⟩ := (Relation.TransGen.tail'_iff).mp hcircle
  obtain ⟨g, hg, rfl⟩ := groupMap_isSome_iff.mp (isSome_of_parentOf hparent).1
  obtain ⟨path, hpath⟩ := isSome_iff_exists.mp (hall g hg)
  obtain ⟨names, hnames, -⟩ := hcached g.id path hpath
  exact hnames.ends.not_above hcircle

/-- A group that is its own parent. -/
theorem buildGroupPaths_circle : ¬∃ fuel paths, buildGroupPaths [⟨1, some 1, ['a']⟩] fuel = some paths := by
  have hnone : ∀ fuel, resolveGroupPath [⟨1, some 1, ['a']⟩] fuel 1 ∅ = none := by
    intro fuel
    induction fuel with
    | zero => rfl
    | succ fuel ih =>
      rw [resolveGroupPath_succ rfl rfl]
      change (resolveGroupPath _ fuel 1 ∅).map _ = none
      rw [ih]
      rfl
  rintro ⟨fuel, paths, h⟩
  change (match resolveGroupPath [⟨1, some 1, ['a']⟩] fuel 1 ∅ with
    | none => none
    | some (path, paths) => buildLoop _ fuel [] (paths.insert 1 path)) = some paths at h
  rw [hnone] at h
  cases h

/-! ### Names and paths that Vault takes -/

/-- What is left of the name is one of the names that Vault keeps for itself. -/
def Reserved (name : Text) : Prop := sanitized name ∈ [".config".toList, ".".toList, "..".toList]

instance (name : Text) : Decidable (Reserved name) :=
  inferInstanceAs (Decidable (sanitized name ∈ [".config".toList, ".".toList, "..".toList]))

def segmentLength (name : Text) : Nat := if sanitized name = [] then 7 else min 64 (sanitized name).length

theorem isKeyChar_of_mem_sanitized {name : Text} (h : c ∈ sanitized name) : isKeyChar c := by
  obtain ⟨hmem, hkept⟩ := mem_filter.mp h
  obtain ⟨d, -, rfl⟩ := mem_map.mp hmem
  rw [sanitizeChar] at hkept ⊢
  split_ifs at hkept ⊢ with hspace hkey
  · decide
  · exact hkey
  · contradiction

theorem isKeyChar_of_mem {name : Text} (h : c ∈ sanitizeName name) : isKeyChar c := by
  rw [sanitizeName_eq] at h
  split_ifs at h
  · exact all_eq_true.mp (show "unnamed".toList.all isKeyChar = true by decide) c h
  · exact isKeyChar_of_mem_sanitized (mem_of_mem_take h)

theorem lt_of_isKeyChar (h : isKeyChar c) : c.toNat < 0x80 := by
  simp only [isKeyChar, Bool.or_eq_true, decide_eq_true_eq, isAlphanum_iff] at h
  rcases h with ((h | rfl) | rfl) | rfl
  · omega
  · decide
  · decide
  · decide

theorem slash_not_mem : '/' ∉ sanitizeName name := fun h => absurd (isKeyChar_of_mem h) (by decide)

theorem length_sanitizeName : (sanitizeName name).length = segmentLength name := by
  rw [sanitizeName_eq, segmentLength]
  split_ifs
  · rfl
  · rw [length_take]

theorem length_encode_sanitizeName : (Utf8.encode (sanitizeName name)).length = segmentLength name := by
  rw [Utf8.length_encode_ascii fun c hc => lt_of_isKeyChar (isKeyChar_of_mem hc), length_sanitizeName]

theorem segmentLength_le : segmentLength name ≤ 64 := by
  rw [segmentLength]
  split_ifs
  · decide
  · exact Nat.min_le_left _ _

theorem sanitizeName_reserved_iff :
    (sanitizeName name = ".config".toList ∨ sanitizeName name = ".".toList ∨ sanitizeName name = "..".toList) ↔
      Reserved name := by
  have htake : ∀ word : Text, word.length < 64 → ((sanitized name).take 64 = word ↔ sanitized name = word) := by
    intro word hword
    constructor
    · rintro rfl
      rw [length_take] at hword
      exact (take_of_length_le (by omega)).symm
    · rintro rfl
      exact take_of_length_le hword.le
  rw [sanitizeName_eq, Reserved]
  by_cases hempty : sanitized name = []
  · rw [if_pos hempty, hempty]
    decide
  · rw [if_neg hempty, htake _ (by decide), htake _ (by decide), htake _ (by decide)]
    simp

/-- **Names.** Everything but the reserved names is stored. -/
theorem validateName_sanitizeName_iff : validateName (sanitizeName name) = .ok () ↔ ¬Reserved name := by
  have hlength : ¬(sanitizeName name = [] ∨ 64 < (Utf8.encode (sanitizeName name)).length) := by
    rw [length_encode_sanitizeName, not_or, Nat.not_lt]
    exact ⟨sanitizeName_ne_nil name, segmentLength_le name⟩
  have hseparators : ¬('/' ∈ sanitizeName name ∨ '\\' ∈ sanitizeName name) := by
    rintro (h | h)
    · exact slash_not_mem name h
    · exact absurd (isKeyChar_of_mem h) (by decide)
  have hall : (sanitizeName name).all isKeyChar := all_eq_true.mpr fun c hc => isKeyChar_of_mem hc
  rw [validateName, if_neg hlength, ← sanitizeName_reserved_iff]
  split_ifs with hreserved
  · exact iff_of_false (by simp) (not_not.mpr hreserved)
  · exact iff_of_true rfl hreserved

/-- The names of a lineage make a path that is stored: none is reserved, and with the slashes between them they are not
too long. -/
def Storable (names : List Text) : Prop :=
  (∀ name ∈ names, ¬Reserved name) ∧ (names.map fun name => segmentLength name + 1).sum ≤ 257

instance (names : List Text) : Decidable (Storable names) :=
  inferInstanceAs (Decidable ((∀ name ∈ names, ¬Reserved name) ∧ _))

theorem validatePath_joined_iff (h : names ≠ []) : validatePath (joined names) = .ok () ↔ Storable names := by
  have hmap : names.map sanitizeName ≠ [] := by simpa using h
  have hslash : ∀ segment ∈ names.map sanitizeName, '/' ∉ segment := by
    intro segment hsegment
    obtain ⟨name, -, rfl⟩ := List.mem_map.mp hsegment
    exact slash_not_mem name
  have hsegments : (joined names).splitOn '/' = names.map sanitizeName := splitOn_intercalate '/' hslash hmap
  have hascii : ∀ c ∈ joined names, c.toNat < 0x80 := by
    intro c hc
    have hplace : c = '/' ∨ ∃ segment ∈ (joined names).splitOn '/', c ∈ segment := mem_of_mem_splitOn hc
    rw [hsegments] at hplace
    rcases hplace with rfl | ⟨segment, hsegment, hc⟩
    · decide
    · obtain ⟨name, -, rfl⟩ := List.mem_map.mp hsegment
      exact lt_of_isKeyChar (isKeyChar_of_mem hc)
  have hlength : (joined names).length + 1 = (names.map fun name => segmentLength name + 1).sum := by
    rw [joined, length_intercalate hmap, List.map_map]
    simp only [Function.comp_def, length_sanitizeName]
  rw [validatePath_eq_ok_iff, Utf8.length_encode_ascii hascii, hsegments, List.forall_mem_map, Storable, ← hlength]
  simp only [validateName_sanitizeName_iff]
  rw [and_comm, Nat.add_le_add_iff_right]

/-- **Imported paths and names** are taken by Vault exactly if no group on them has a reserved name and no path is too
long, and if the name is not reserved. -/
theorem imported_storable_iff {groups : List Group} (hcircle : ∀ id, ¬Parents.Above (parentOf groups) id id) :
    ((∃ fuel paths, buildGroupPaths groups fuel = some paths ∧
        ∀ id path, paths.lookup id = some path → validatePath path = .ok ()) ↔
      ∀ id names, Lineage groups id names → Storable names) ∧
    ∀ name, validateName (sanitizeName name) = .ok () ↔ ¬Reserved name := by
  refine ⟨⟨?_, ?_⟩, validateName_sanitizeName_iff⟩
  · rintro ⟨fuel, paths, hbuild, hvalid⟩ id names hnames
    obtain ⟨hcached, hall⟩ := buildGroupPaths_sound hbuild
    obtain ⟨g, hg, rfl⟩ : ∃ g ∈ groups, g.id = id := by
      cases hnames with
      | top hgroup | under hgroup => exact groupMap_isSome_iff.mp (by rw [hgroup]; rfl)
    obtain ⟨path, hpath⟩ := isSome_iff_exists.mp (hall g hg)
    obtain ⟨names', hnames', rfl⟩ := hcached g.id path hpath
    rw [hnames.unique hnames', ← validatePath_joined_iff hnames'.ne_nil]
    exact hvalid g.id _ hpath
  · intro hstorable
    obtain ⟨fuel, paths, hbuild⟩ := exists_buildGroupPaths hcircle
    refine ⟨fuel, paths, hbuild, fun id path hpath => ?_⟩
    obtain ⟨names, hnames, rfl⟩ := (buildGroupPaths_sound hbuild).1 id path hpath
    exact (validatePath_joined_iff hnames.ne_nil).mpr (hstorable id names hnames)

def nestedGroups : List Group := [⟨1, none, "Production"⟩, ⟨2, some 1, "DMZ (west)"⟩]

theorem imported_storable_nested : (∃ fuel paths, buildGroupPaths nestedGroups fuel = some paths ∧
      ∀ id path, paths.lookup id = some path → validatePath path = .ok ()) ∧
    validateName (sanitizeName "DMZ (west)".toList) = .ok () := by
  have hone : Lineage nestedGroups 1 ["Production".toList] :=
    @Lineage.top nestedGroups 1 ⟨1, none, "Production".toList⟩ rfl rfl
  have htwo : Lineage nestedGroups 2 ["Production".toList, "DMZ (west)".toList] :=
    @Lineage.under nestedGroups 2 1 ⟨2, some 1, "DMZ (west)".toList⟩ _ rfl rfl hone
  have hnone : ∀ id, id ≠ 1 → id ≠ 2 → groupMap nestedGroups id = none := by
    intro id h₁ h₂
    simp [groupMap, nestedGroups, h₁.symm, h₂.symm]
  have hcircle : ∀ id, ¬Parents.Above (parentOf nestedGroups) id id := by
    intro id
    by_cases h₁ : id = 1
    · exact h₁ ▸ hone.ends.not_above
    · by_cases h₂ : id = 2
      · exact h₂ ▸ htwo.ends.not_above
      · exact (Parents.Ends.top (by rw [parentOf, hnone id h₁ h₂]; rfl)).not_above
  obtain ⟨hpaths, hnames⟩ := imported_storable_iff hcircle
  refine ⟨hpaths.mpr fun id names h => ?_, (hnames _).mpr (by decide)⟩
  by_cases h₁ : id = 1
  · subst h₁
    rw [h.unique hone]
    decide
  · by_cases h₂ : id = 2
    · subst h₂
      rw [h.unique htwo]
      decide
    · cases h with
      | top hgroup | under hgroup =>
        rw [hnone id h₁ h₂] at hgroup
        cases hgroup

/-- A group called `..`, and four long names one below the other. -/
theorem imported_not_storable :
    (buildGroupPaths [⟨1, none, "..".toList⟩] 1).map (·.lookup 1) = some (some "..".toList) ∧
      validatePath "..".toList = .error (.badName "reserved name") ∧
      sanitizeName ".config".toList = ".config".toList ∧
      validateName ".config".toList = .error (.badName "reserved name") ∧
      (buildGroupPaths [⟨1, none, replicate 64 'a'⟩, ⟨2, some 1, replicate 64 'a'⟩,
          ⟨3, some 2, replicate 64 'a'⟩, ⟨4, some 3, replicate 64 'a'⟩] 2).map
        (fun paths => (paths.lookup 4).map validatePath) =
          some (some (.error (.badName "path too long (max 256 chars)"))) := by
  decide +kernel

end Persea.Guacamole
