import Persea.AddressBookUpdate

/-! The deletion of a folder in Vault. `delete_folder` collects the folders of the subtree and deletes what is listed in
each of them; listings and deletions that fail are passed over. -/

namespace Persea.Vault

open Base Base.Text DbMigrate AddressBook List

/-- A path in its segments. -/
abbrev Path := List Text

/-- The secrets of a scope, each in its folder. -/
abbrev Secrets := List (Path × Text)

inductive FolderRequest where
  | children (path : Path)
  | entries (path : Path)
  | deleteEntry (path : Path) (name : Text)
  | deleteConfig (path : Path)

variable (secrets : Secrets)

def subfolderNames (path : Path) : List Text := ((secrets.filter (path <+: ·.1)).filterMap (·.1[path.length]?)).dedup

/-- The names of the secrets and of the folders under a path. The keys of folders end with a slash. -/
def keysUnder (path : Path) : List Text × List Text :=
  ((secrets.filter (·.1 = path)).map (·.2), subfolderNames secrets path)

def kvList (path : Path) : Except VaultError (List Text × List Text) :=
  if keysUnder secrets path = ([], []) then .error .notFound else .ok (keysUnder secrets path)

def configName : Text := ".config"

section Deletion

variable (failing : FolderRequest → Option VaultError)

def listKeys (request : FolderRequest) (secrets : Secrets) (path : Path) : Except VaultError (List Text × List Text) := do
  validatePath (['/'].intercalate path)
  attempt (failing request) (kvList secrets path)

def listSubfolders (secrets : Secrets) (path : Path) : List Path :=
  ((listKeys failing (.children path) secrets path).toOption.getD ([], [])).2.map fun name => path ++ [name]

def deleteVaultEntry (path : Path) (secrets : Secrets) (name : Text) : Secrets :=
  if (validateName name).isOk && (failing (.deleteEntry path name)).isNone then secrets.filter (· ≠ (path, name))
  else secrets

/-- The keys of subfolders are refused as names of entries, and are counted. -/
def clearFolder (state : Secrets × Nat) (path : Path) : Secrets × Nat :=
  let keys := (listKeys failing (.entries path) state.1 path).toOption.getD ([], [])
  let entries := keys.1.filter (· ≠ configName)
  let secrets := entries.foldl (deleteVaultEntry failing path) state.1
  (if (failing (.deleteConfig path)).isNone then secrets.filter (· ≠ (path, configName)) else secrets,
    state.2 + (entries.length + keys.2.length))

/-- What is left, and the numbers of subfolders and entries; `none` is a call that has not returned. -/
def deleteFolder (instanceName : Option Text) (scope folder : Text) (secrets : Secrets) (fuel : Nat) :
    Option (Secrets × Except VaultError (Nat × Nat)) :=
  match validatePath folder with
  | .error e => some (secrets, .error e)
  | .ok () => (Worklist.run (listSubfolders failing secrets) fuel [folder.splitOn '/'] 0).map fun queue =>
    match resolveScopePrefix instanceName scope with
    | .error e => (secrets, .error e)
    | .ok _ =>
      let (left, entries) := queue.foldl (clearFolder failing) (secrets, 0)
      (left, .ok (queue.length - 1, entries))

/-! ### What is deleted -/

/-- The request and the path it is made with are accepted. -/
def listed (request : FolderRequest) (path : Path) : Bool :=
  (validatePath (['/'].intercalate path)).isOk && (failing request).isNone

def deletable (s : Path × Text) : Bool := (validateName s.2).isOk && (failing (.deleteEntry s.1 s.2)).isNone

/-- The secret is deleted when its folder has its turn. -/
def removed (s : Path × Text) : Bool :=
  if s.2 = configName then (failing (.deleteConfig s.1)).isNone else listed failing (.entries s.1) s.1 && deletable failing s

def counted (secrets : Secrets) (path : Path) : Nat :=
  if listed failing (.entries path) path then
    (secrets.countP fun s => s.1 = path ∧ s.2 ≠ configName) + (subfolderNames secrets path).length
  else 0

variable {failing}

theorem getD_listKeys (request : FolderRequest) (secrets : Secrets) (path : Path) :
    (listKeys failing request secrets path).toOption.getD ([], []) =
      if listed failing request path then keysUnder secrets path else ([], []) := by
  unfold listKeys listed
  cases validatePath (['/'].intercalate path) with
  | error e => rfl
  | ok =>
    cases failing request with
    | some e => rfl
    | none =>
      change (kvList secrets path).toOption.getD ([], []) = keysUnder secrets path
      unfold kvList
      split_ifs with h
      · exact h.symm
      · rfl

theorem concat_prefix_iff {path l : Path} {name : Text} :
    path ++ [name] <+: l ↔ path <+: l ∧ l[path.length]? = some name := by
  constructor
  · rintro ⟨rest, rfl⟩
    rw [append_assoc]
    exact ⟨prefix_append _ _, by simp⟩
  · rintro ⟨⟨rest, rfl⟩, h⟩
    rw [getElem?_append_right (Nat.le_refl _), Nat.sub_self] at h
    obtain ⟨rest, rfl⟩ := head?_eq_some_iff.mp (head?_eq_getElem?.trans h)
    exact ⟨rest, by simp⟩

theorem mem_listSubfolders {secrets : Secrets} {path sub : Path} : sub ∈ listSubfolders failing secrets path ↔
      listed failing (.children path) path ∧ ∃ name, sub = path ++ [name] ∧ ∃ s ∈ secrets, sub <+: s.1 := by
  rw [listSubfolders, getD_listKeys]
  split_ifs with h
  · simp only [h, true_and, keysUnder, subfolderNames, mem_map, mem_dedup, mem_filterMap, mem_filter,
      decide_eq_true_eq, and_assoc]
    constructor
    · rintro ⟨name, ⟨s, hs, hname⟩, rfl⟩
      exact ⟨name, rfl, s, hs, concat_prefix_iff.mpr hname⟩
    · rintro ⟨name, rfl, s, hs, hname⟩
      exact ⟨name, ⟨s, hs, concat_prefix_iff.mp hname⟩, rfl⟩
  · simp [h]

theorem nodup_listSubfolders (secrets : Secrets) (path : Path) : (listSubfolders failing secrets path).Nodup := by
  rw [listSubfolders, getD_listKeys]
  split_ifs
  · exact (nodup_dedup _).map fun a b h => by simpa using h
  · exact nodup_nil

theorem foldl_deleteVaultEntry (path : Path) (names : List Text) (secrets : Secrets) :
    names.foldl (deleteVaultEntry failing path) secrets =
      secrets.filter fun s => ¬(s.1 = path ∧ s.2 ∈ names ∧ deletable failing s) := by
  induction names generalizing secrets with
  | nil => simp
  | cons name names ih =>
    rw [foldl_cons, ih, deleteVaultEntry]
    split_ifs with h
    · rw [filter_filter]
      refine filter_congr fun s _ => ?_
      obtain ⟨p, n⟩ := s
      by_cases hp : p = path
      · by_cases hn : n = name <;> simp [hp, hn, deletable, h]
      · simp [hp]
    · refine filter_congr fun s _ => ?_
      obtain ⟨p, n⟩ := s
      by_cases hp : p = path
      · by_cases hn : n = name <;> simp [hp, hn, deletable, h]
      · simp [hp]

theorem clearFolder_eq (secrets : Secrets) (n : Nat) (path : Path) : clearFolder failing (secrets, n) path =
      (secrets.filter fun s => ¬(s.1 = path ∧ removed failing s), n + counted failing secrets path) := by
  have hkeys := @getD_listKeys failing (.entries path) secrets path
  dsimp only [clearFolder]
  rw [hkeys, foldl_deleteVaultEntry]
  refine Prod.ext ?_ (congrArg (n + ·) ?_)
  · have hfold : (secrets.filter fun s => ¬(s.1 = path ∧ s.2 ∈ (if listed failing (.entries path) path then
        keysUnder secrets path else ([], [])).1.filter (· ≠ configName) ∧ deletable failing s)) =
          secrets.filter fun s => ¬(s.1 = path ∧ s.2 ≠ configName ∧ removed failing s) := by
      refine filter_congr fun s hs => ?_
      obtain ⟨p, name⟩ := s
      by_cases hp : p = path
      · subst hp
        by_cases hn : name = configName
        · simp [hn]
        · by_cases hl : listed failing (.entries p) p = true <;> simp [removed, keysUnder, hn, hl, hs]
      · simp [hp]
    rw [hfold]
    dsimp only
    split_ifs with h
    · rw [filter_filter]
      refine filter_congr fun s _ => ?_
      obtain ⟨p, name⟩ := s
      by_cases hp : p = path
      · subst hp
        by_cases hn : name = configName <;> simp [removed, hn, h]
      · simp [hp]
    · refine filter_congr fun s _ => ?_
      obtain ⟨p, name⟩ := s
      by_cases hp : p = path
      · subst hp
        by_cases hn : name = configName <;> simp [removed, hn, h]
      · simp [hp]
  · rw [counted]
    split_ifs
    · rw [keysUnder, filter_map, length_map, filter_filter, ← countP_eq_length_filter]
      congr 1
      refine countP_congr fun s _ => ?_
      simp [and_comm]
    · rfl

theorem counted_filter {secrets : Secrets} {path : Path} {p : Path × Text → Bool}
    (h : ∀ s ∈ secrets, path <+: s.1 → p s) :
    counted failing (secrets.filter p) path = counted failing secrets path := by
  have hbelow : (secrets.filter p).filter (path <+: ·.1) = secrets.filter (path <+: ·.1) := by
    rw [filter_filter]
    refine filter_congr fun s hs => ?_
    by_cases hpath : path <+: s.1 <;> simp [hpath, h s hs]
  have hown : ((secrets.filter p).countP fun s => s.1 = path ∧ s.2 ≠ configName) =
      secrets.countP fun s => s.1 = path ∧ s.2 ≠ configName := by
    rw [countP_filter]
    refine countP_congr fun s hs => ?_
    by_cases hpath : s.1 = path
    · simp [hpath, h s hs (hpath ▸ prefix_refl _)]
    · simp [hpath]
  simp only [counted, subfolderNames, hbelow, hown]

theorem foldl_clearFolder {secrets : Secrets} {queue : List Path}
    (horder : ∀ before path after, queue = before ++ path :: after → ∀ p ∈ before, ¬path <+: p) :
    queue.foldl (clearFolder failing) (secrets, 0) =
      (secrets.filter fun s => ¬(s.1 ∈ queue ∧ removed failing s), (queue.map (counted failing secrets)).sum) := by
  suffices h : ∀ (after before : List Path) (n : Nat), queue = before ++ after →
      after.foldl (clearFolder failing) (secrets.filter fun s => ¬(s.1 ∈ before ∧ removed failing s), n) =
        (secrets.filter fun s => ¬(s.1 ∈ queue ∧ removed failing s), n + (after.map (counted failing secrets)).sum) by
    simpa using h queue [] 0 rfl
  intro after
  induction after with
  | nil =>
    intro before n hqueue
    rw [hqueue, append_nil]
    rfl
  | cons path after ih =>
    intro before n hqueue
    have hcounted : counted failing (secrets.filter fun s => ¬(s.1 ∈ before ∧ removed failing s)) path =
        counted failing secrets path := by
      refine counted_filter fun s _ hpath => ?_
      have hnot : s.1 ∉ before := fun hin => horder before path after hqueue s.1 hin hpath
      simp [hnot]
    have hleft : (secrets.filter fun s => ¬(s.1 ∈ before ∧ removed failing s)).filter
        (fun s => ¬(s.1 = path ∧ removed failing s)) =
          secrets.filter fun s => ¬(s.1 ∈ before ++ [path] ∧ removed failing s) := by
      rw [filter_filter]
      refine filter_congr fun s _ => ?_
      by_cases hp : s.1 = path <;> by_cases hr : removed failing s = true <;> simp [hp, hr]
    rw [foldl_cons, clearFolder_eq, hcounted, hleft, ih (before ++ [path]) _ (by rw [hqueue]; simp), map_cons,
      sum_cons, Nat.add_assoc]

variable {folder path : Path} {secrets : Secrets} {queue : List Path}

/-- What the loop over the subfolders makes of a folder. -/
structure Collected (failing : FolderRequest → Option VaultError) (folder : Path) (secrets : Secrets)
    (queue : List Path) : Prop where
  nodup : queue.Nodup
  grown : Worklist.Grown (listSubfolders failing secrets) [folder] queue
  start : folder ∈ queue
  closed : ∀ path ∈ queue, ∀ sub ∈ listSubfolders failing secrets path, sub ∈ queue
  below : ∀ path ∈ queue, folder <+: path

theorem collected {fuel : Nat} (h : Worklist.run (listSubfolders failing secrets) fuel [folder] 0 = some queue) :
    Collected failing folder secrets queue := by
  have hsub : ∀ path, folder <+: path → ∀ sub ∈ listSubfolders failing secrets path, folder <+: sub := by
    intro path hpath sub hsub
    obtain ⟨-, name, rfl, -⟩ := mem_listSubfolders.mp hsub
    exact hpath.trans (prefix_append path [name])
  have hgrown := Worklist.grown_run (Worklist.grown_start _ [folder]) h
  obtain ⟨hstart, hclosed⟩ := Worklist.closed_run h (by simp)
  have hbelow : ∀ path ∈ queue, folder <+: path := by
    refine @Worklist.Grown.foldl _ _ _ _ hgrown Unit (fun _ _ => ()) (fun paths _ => ∀ path ∈ paths, folder <+: path) () ?_ ?_
    · simp
    · intro before path _ hbefore hpath p hp
      rcases mem_append.mp hp with hp | hp
      · exact hbefore p hp
      · rw [mem_singleton.mp hp]
        rcases hpath with hpath | ⟨parent, hparent, hpath⟩
        · rw [mem_singleton.mp hpath]
        · exact hsub parent (hbefore parent hparent) path hpath
  refine ⟨Worklist.nodup_run [folder] (nodup_listSubfolders secrets) ?_ hsub ?_ (nodup_singleton folder) ?_ h, hgrown,
    hstart mem_cons_self, hclosed, hbelow⟩
  · intro a b c ha hb
    obtain ⟨-, name, rfl, -⟩ := mem_listSubfolders.mp ha
    obtain ⟨-, name', heq, -⟩ := mem_listSubfolders.mp hb
    exact (append_inj' heq rfl).1
  · intro c hc a ha hchild
    obtain ⟨-, name, heq, -⟩ := mem_listSubfolders.mp hchild
    have hle := ha.length_le
    rw [← mem_singleton.mp hc, heq, length_append] at hle
    exact Nat.not_succ_le_self _ hle
  · intro c hc
    rw [mem_singleton.mp hc]
    exact ⟨prefix_refl folder, .inl mem_cons_self⟩

namespace Collected

variable (h : Collected failing folder secrets queue)
include h

theorem parent {name : Text} (hsub : path ++ [name] ∈ queue) (hpath : folder <+: path) :
    path ∈ queue ∧ path ++ [name] ∈ listSubfolders failing secrets path := by
  obtain ⟨before, after, heq⟩ := append_of_mem hsub
  rcases h.grown before _ after heq with hstart | ⟨p, hp, hchild⟩
  · have hle := hpath.length_le
    rw [← mem_singleton.mp hstart, length_append] at hle
    exact absurd hle (Nat.not_succ_le_self _)
  · obtain ⟨-, name', heq', -⟩ := mem_listSubfolders.mp hchild
    obtain rfl : path = p := (append_inj' heq' rfl).1
    exact ⟨heq ▸ mem_append_left _ hp, hchild⟩

theorem ancestor (rest : Path) (hpath : folder <+: path) (hsub : path ++ rest ∈ queue) : path ∈ queue := by
  induction rest using reverseRecOn with
  | nil => rwa [append_nil] at hsub
  | append_singleton rest name ih =>
    rw [← append_assoc] at hsub
    exact ih (h.parent hsub (hpath.trans (prefix_append path rest))).1

theorem order {before after : List Path} (hqueue : queue = before ++ path :: after) (p : Path) (hp : p ∈ before) :
    ¬path <+: p := by
  intro hpre
  obtain ⟨rest, rfl⟩ := hpre
  have hnodup := h.nodup
  rw [hqueue] at hnodup
  have hnot : path ∉ before := fun hin => disjoint_of_nodup_append hnodup hin mem_cons_self
  have hpath : folder <+: path := h.below path (hqueue ▸ mem_append_right _ mem_cons_self)
  -- the folder would be collected before its own parents
  induction rest using reverseRecOn with
  | nil => exact hnot (by rwa [append_nil] at hp)
  | append_singleton rest name ih =>
    rw [← append_assoc] at hp
    obtain ⟨first, second, rfl⟩ := append_of_mem hp
    rcases h.grown first _ _ (by rw [hqueue, append_assoc]; rfl) with hstart | ⟨parent, hparent, hchild⟩
    · have hle := (hpath.trans (prefix_append path rest)).length_le
      rw [← mem_singleton.mp hstart] at hle
      simp at hle
    · obtain ⟨-, name', heq, -⟩ := mem_listSubfolders.mp hchild
      obtain rfl : path ++ rest = parent := (append_inj' heq rfl).1
      exact ih (mem_append_left _ hparent)

theorem visited_iff : (∀ s ∈ secrets, folder <+: s.1 → s.1 ∈ queue) ↔
      ∀ path, folder <+: path → (∃ s ∈ secrets, path <+: s.1 ∧ path ≠ s.1) →
        listed failing (.children path) path := by
  constructor
  · rintro hvisited path hpath ⟨s, hs, ⟨rest, heq⟩, hne⟩
    cases rest with
    | nil => exact absurd (by rwa [append_nil] at heq) hne
    | cons name rest =>
      have hin := hvisited s hs (hpath.trans ⟨_, heq⟩)
      rw [← heq, append_cons] at hin
      have hchild := (h.parent (h.ancestor rest (hpath.trans (prefix_append path [name])) hin) hpath).2
      exact (mem_listSubfolders.mp hchild).1
  · rintro hlisted s hs ⟨rest, heq⟩
    suffices hall : ∀ rest, folder ++ rest <+: s.1 → folder ++ rest ∈ queue from heq ▸ hall rest (heq ▸ prefix_refl _)
    intro rest
    induction rest using reverseRecOn with
    | nil => exact fun _ => (append_nil folder).symm ▸ h.start
    | append_singleton rest name ih =>
      rw [← append_assoc]
      intro hpre
      have hpath := (prefix_append (folder ++ rest) [name]).trans hpre
      have hne : folder ++ rest ≠ s.1 := fun heq => by
        have hle := hpre.length_le
        rw [← heq, length_append] at hle
        exact Nat.not_succ_le_self _ hle
      exact h.closed _ (ih hpath) _ (mem_listSubfolders.mpr
        ⟨hlisted _ (prefix_append folder rest) ⟨s, hs, hpath, hne⟩, name, rfl, s, hs, hpre⟩)

end Collected

/-! ### Honest deletions -/

theorem subfolderNames_eq_nil_iff : subfolderNames secrets path = [] ↔ ¬∃ s ∈ secrets, path <+: s.1 ∧ path ≠ s.1 := by
  rw [subfolderNames, dedup_eq_nil, filterMap_eq_nil_iff]
  simp only [mem_filter, decide_eq_true_eq, and_imp, getElem?_eq_none_iff, not_exists, not_and, not_not]
  refine forall₂_congr fun s _ => ⟨fun h hpre => hpre.eq_of_length_le (h hpre), fun h hpre => ?_⟩
  rw [← h hpre]

def ownEntries (secrets : Secrets) (path : Path) : Nat := secrets.countP fun s => s.1 = path ∧ s.2 ≠ configName

theorem counted_eq (hremoved : ∀ name, (path, name) ∈ secrets → removed failing (path, name)) :
    counted failing secrets path = ownEntries secrets path +
      if listed failing (.entries path) path then (subfolderNames secrets path).length else 0 := by
  rw [counted]
  split_ifs with h
  · rfl
  · refine (countP_eq_zero.mpr fun s hs => ?_).symm
    obtain ⟨p, name⟩ := s
    simp only [decide_eq_true_eq, not_and, not_not]
    rintro rfl
    by_contra hname
    have hlisted := hremoved name hs
    rw [removed, if_neg hname, Bool.and_eq_true] at hlisted
    exact h hlisted.1

theorem sum_ownEntries (hbelow : ∀ path ∈ queue, folder <+: path)
    (hvisited : ∀ s ∈ secrets, folder <+: s.1 → s.1 ∈ queue) :
    ∑ path ∈ queue.toFinset, ownEntries secrets path = secrets.countP fun s => folder <+: s.1 ∧ s.2 ≠ configName := by
  induction secrets with
  | nil => simp [ownEntries]
  | cons s secrets ih =>
    rw [forall_mem_cons] at hvisited
    have hown : ∀ path, ownEntries (s :: secrets) path =
        ownEntries secrets path + if s.1 = path ∧ s.2 ≠ configName then 1 else 0 := by
      intro path
      rw [ownEntries, countP_cons]
      simp [ownEntries]
    have hone : (∑ path ∈ queue.toFinset, if s.1 = path ∧ s.2 ≠ configName then 1 else 0) =
        if folder <+: s.1 ∧ s.2 ≠ configName then 1 else 0 := by
      have hmem : s.1 ∈ queue ↔ folder <+: s.1 := ⟨hbelow s.1, hvisited.1⟩
      by_cases hname : s.2 = configName <;> simp [hname, Finset.sum_ite_eq, hmem]
    rw [Finset.sum_congr rfl fun path _ => hown path, Finset.sum_add_distrib, ih hvisited.2, hone, countP_cons]
    simp

def foldersBelow (secrets : Secrets) (folder : Path) : List Path :=
  (secrets.flatMap fun s => s.1.inits.filter fun path => folder <+: path ∧ path ≠ folder).dedup

theorem Collected.length_foldersBelow (h : Collected failing folder secrets queue)
    (hvisited : ∀ s ∈ secrets, folder <+: s.1 → s.1 ∈ queue) :
    queue.length - 1 = (foldersBelow secrets folder).length := by
  rw [← length_erase_of_mem h.start]
  refine Perm.length_eq ((perm_ext_iff_of_nodup (h.nodup.erase folder) (nodup_dedup _)).mpr fun path => ?_)
  simp only [h.nodup.mem_erase_iff, mem_dedup, mem_flatMap, mem_filter, mem_inits, decide_eq_true_eq]
  constructor
  · rintro ⟨hne, hin⟩
    obtain ⟨before, after, heq⟩ := append_of_mem hin
    rcases h.grown before path after heq with hstart | ⟨p, -, hchild⟩
    · exact absurd (mem_singleton.mp hstart) hne
    · obtain ⟨-, -, -, s, hs, hpre⟩ := mem_listSubfolders.mp hchild
      exact ⟨s, hs, hpre, h.below path hin, hne⟩
  · rintro ⟨s, hs, ⟨rest, heq⟩, hfolder, hne⟩
    exact ⟨hne, h.ancestor rest hfolder (heq ▸ hvisited s hs (hfolder.trans ⟨rest, heq⟩))⟩

/-- Nothing is left in the folder or below it, and the counts are the numbers of what was there. -/
def Honest (folder : Path) (secrets : Secrets) (outcome : Secrets × Except VaultError (Nat × Nat)) : Prop :=
  ∀ counts, outcome.2 = .ok counts → (∀ s ∈ outcome.1, ¬folder <+: s.1) ∧
    counts = ((foldersBelow secrets folder).length, secrets.countP fun s => folder <+: s.1 ∧ s.2 ≠ configName)

theorem Collected.honest_iff (h : Collected failing folder secrets queue) :
    Honest folder secrets ((queue.foldl (clearFolder failing) (secrets, 0)).1,
        .ok (queue.length - 1, (queue.foldl (clearFolder failing) (secrets, 0)).2)) ↔
      ∀ path, folder <+: path → ((∃ s ∈ secrets, path <+: s.1 ∧ path ≠ s.1) →
          listed failing (.children path) path ∧ listed failing (.entries path) path = false) ∧
        ∀ name, (path, name) ∈ secrets → removed failing (path, name) := by
  have hgone : (∀ s ∈ secrets.filter fun s => ¬(s.1 ∈ queue ∧ removed failing s), ¬folder <+: s.1) ↔
      ∀ s ∈ secrets, folder <+: s.1 → s.1 ∈ queue ∧ removed failing s := by
    simp only [mem_filter, decide_eq_true_eq, and_imp]
    exact forall₂_congr fun s _ => not_imp_not
  rw [foldl_clearFolder fun before path after heq => h.order heq]
  simp only [Honest, Except.ok.injEq, forall_eq', hgone, Prod.mk.injEq, ← sum_toFinset _ h.nodup]
  constructor
  · rintro ⟨hall, -, hsum⟩ path hpath
    have hvisited : ∀ s ∈ secrets, folder <+: s.1 → s.1 ∈ queue := fun s hs hpre => (hall s hs hpre).1
    refine ⟨fun hsub => ⟨h.visited_iff.mp hvisited path hpath hsub, ?_⟩, fun name hs => (hall _ hs hpath).2⟩
    rw [← sum_ownEntries h.below hvisited, Finset.sum_congr rfl fun p hp => counted_eq fun name hs =>
      (hall _ hs (h.below p (mem_toFinset.mp hp))).2, Finset.sum_add_distrib, Nat.add_eq_left] at hsum
    have hin : path ∈ queue := by
      obtain ⟨s, hs, ⟨rest, heq⟩, -⟩ := hsub
      exact h.ancestor rest hpath (heq ▸ hvisited s hs (hpath.trans ⟨rest, heq⟩))
    have hzero := Finset.sum_eq_zero_iff.mp hsum path (mem_toFinset.mpr hin)
    by_contra hlisted
    rw [if_pos (Bool.not_eq_false _ ▸ hlisted), length_eq_zero_iff] at hzero
    exact subfolderNames_eq_nil_iff.mp hzero hsub
  · intro hall
    have hvisited := h.visited_iff.mpr fun path hpath hsub => ((hall path hpath).1 hsub).1
    refine ⟨fun s hs hpre => ⟨hvisited s hs hpre, (hall s.1 hpre).2 s.2 hs⟩, h.length_foldersBelow hvisited, ?_⟩
    rw [← sum_ownEntries h.below hvisited]
    refine Finset.sum_congr rfl fun path hin => ?_
    obtain ⟨hsub, hremoved⟩ := hall path (h.below path (mem_toFinset.mp hin))
    rw [counted_eq hremoved]
    split_ifs with hlisted
    · rw [subfolderNames_eq_nil_iff.mpr fun hs => by rw [(hsub hs).2] at hlisted; cases hlisted]
      rfl
    · rfl

end Deletion

/-- **Deletion of a folder.** It returns, and is honest exactly if it is refused, or in the folder and below it:
where there are subfolders, they can be listed and the entries cannot, since the keys of subfolders would count
as entries; and all secrets can be deleted. -/
theorem deleteFolder_honest_iff (failing : FolderRequest → Option VaultError) (instanceName : Option Text)
    (scope folder : Text) (secrets : Secrets) :
    (∃ fuel outcome, deleteFolder failing instanceName scope folder secrets fuel = some outcome) ∧
    ∀ fuel outcome, deleteFolder failing instanceName scope folder secrets fuel = some outcome →
      (Honest (folder.splitOn '/') secrets outcome ↔
        validatePath folder ≠ .ok () ∨ (∀ pre, resolveScopePrefix instanceName scope ≠ .ok pre) ∨
          ∀ path, folder.splitOn '/' <+: path → ((∃ s ∈ secrets, path <+: s.1 ∧ path ≠ s.1) →
              listed failing (.children path) path = true ∧ listed failing (.entries path) path = false) ∧
            ∀ name, (path, name) ∈ secrets → removed failing (path, name) = true) := by
  unfold deleteFolder
  cases hvalid : validatePath folder with
  | error e =>
    refine ⟨⟨0, _, rfl⟩, fun fuel outcome hrun => ?_⟩
    rw [← Option.some.inj hrun]
    simp [Honest]
  | ok =>
    constructor
    · have hlength : ∀ s ∈ secrets, s.1.length ≤ secrets.toFinset.sup (·.1.length) := fun s hs =>
        Finset.le_sup (f := fun s : Path × Text => s.1.length) (mem_toFinset.mpr hs)
      obtain ⟨fuel, queue, hrun⟩ := @Worklist.exists_run Path (listSubfolders failing secrets)
          (fun path => secrets.toFinset.sup (·.1.length) - path.length) (by
        intro path sub hsub
        obtain ⟨-, name, rfl, s, hs, hpre⟩ := mem_listSubfolders.mp hsub
        have hle := hpre.length_le.trans (hlength s hs)
        simp only [length_append, length_singleton] at hle ⊢
        omega) [folder.splitOn '/'] 0
      exact ⟨fuel, _, by rw [hrun]; rfl⟩
    · intro fuel outcome hrun
      obtain ⟨queue, hqueue, rfl⟩ := Option.map_eq_some_iff.mp hrun
      cases hscope : resolveScopePrefix instanceName scope with
      | error e => simp [Honest]
      | ok pre => simpa using (collected hqueue).honest_iff

/-- **A count that is too high.** Nothing fails; the subfolder is counted as an entry as well. -/
theorem deleteFolder_counts_subfolder :
    deleteFolder (fun _ => none) none "shared" ['a'] [([['a'], ['b']], ['e'])] 3 = some ([], .ok (1, 2)) := by
  decide +kernel

end Persea.Vault
