import Persea.RbacQueries

/-! The address book in the database: folders with a scope and a slash path, entries of folders, and who sees a
folder. The unique pair of scope and path stands for the id of a folder's row. -/

namespace Persea.AddressBook

open Base Base.Text List

structure AbFolder where
  (scope name description allowedGroups : Text)
  inheritFromParent : Bool
deriving DecidableEq, Repr

/-- A row of `address_book_entries`; the scope and the path of the folder stand for `folder_id`. -/
structure AbEntry where
  (scope folder name displayName protocol hostname : Text)
  port : Option Nat
  username : Text
  allowedGroups : Text
deriving DecidableEq, Repr

/-- The two tables. Every entry is in a folder that exists. -/
structure Book where
  folders : List AbFolder
  entries : List AbEntry
  entry_folder : ∀ e ∈ entries, ∃ f ∈ folders, f.scope = e.scope ∧ f.name = e.folder

namespace Book

theorem noEntries : ∀ e ∈ ([] : List AbEntry), ∃ f ∈ ([] : List AbFolder), f.scope = e.scope ∧ f.name = e.folder := nofun

variable (book : Book)

def getAbFolder (scope name : Text) : Option AbFolder := book.folders.find? fun f => f.scope = scope ∧ f.name = name

def entriesOf (scope folder : Text) : List AbEntry := book.entries.filter fun e => e.scope = scope ∧ e.folder = folder

def listAbEntries (scope folder : Text) : List AbEntry :=
  (book.entriesOf scope folder).insertionSort fun a b => lexLe a.name b.name = true

def getAbEntry (scope folder name : Text) : Option AbEntry :=
  (book.entriesOf scope folder).find? fun e => e.name = name

def addFolder (folder : AbFolder) : Book where
  folders := book.folders ++ [folder]
  entries := book.entries
  entry_folder e he :=
    have ⟨f, hf, hkey⟩ := book.entry_folder e he
    ⟨f, mem_append_left _ hf, hkey⟩

def createAbFolder (folder : AbFolder) : Option Book :=
  if (book.getAbFolder folder.scope folder.name).isSome then none else some (book.addFolder folder)

/-- `update_ab_folder`: the columns other than the key are replaced; `none` if there is no such row. -/
def updateAbFolder (folder : AbFolder) : Option Book :=
  if (book.getAbFolder folder.scope folder.name).isNone then none
  else
    some
      { folders := book.folders.map fun f => if f.scope = folder.scope ∧ f.name = folder.name then folder else f
        entries := book.entries
        entry_folder := by
          intro e he
          obtain ⟨f, hf, hscope, hname⟩ := book.entry_folder e he
          refine ⟨_, mem_map_of_mem hf, ?_⟩
          split_ifs with hsame
          · exact ⟨hsame.1.symm.trans hscope, hsame.2.symm.trans hname⟩
          · exact ⟨hscope, hname⟩ }

def deleteAbFolder (scope name : Text) : Book where
  folders := book.folders.filter fun f => ¬(f.scope = scope ∧ f.name = name)
  entries := book.entries.filter fun e => ¬(e.scope = scope ∧ e.folder = name)
  entry_folder e he := by
    obtain ⟨he, hother⟩ := mem_filter.mp he
    obtain ⟨f, hf, hscope, hname⟩ := book.entry_folder e he
    refine ⟨f, mem_filter.mpr ⟨hf, ?_⟩, hscope, hname⟩
    rw [hscope, hname]
    exact hother

def addEntry (entry : AbEntry) : Book :=
  if h : ∃ f ∈ book.folders, f.scope = entry.scope ∧ f.name = entry.folder then
    { folders := book.folders
      entries := book.entries ++ [entry]
      entry_folder := by
        intro e he
        rcases mem_append.mp he with he | he
        · exact book.entry_folder e he
        · rw [mem_singleton.mp he]
          exact h }
  else book

def createAbEntry (entry : AbEntry) : Option Book :=
  if (book.getAbEntry entry.scope entry.folder entry.name).isSome then none else some (book.addEntry entry)

/-- `update_ab_entry`: the columns other than the key are replaced. -/
def updateAbEntry (entry : AbEntry) : Book where
  folders := book.folders
  entries := book.entries.map fun e =>
    if e.scope = entry.scope ∧ e.folder = entry.folder ∧ e.name = entry.name then entry else e
  entry_folder e he := by
    obtain ⟨e₀, he₀, rfl⟩ := mem_map.mp he
    obtain ⟨f, hf, hkey⟩ := book.entry_folder e₀ he₀
    refine ⟨f, hf, ?_⟩
    split_ifs with hsame
    · rw [← hsame.1, ← hsame.2.1]
      exact hkey
    · exact hkey

def deleteAbEntry (scope folder name : Text) : Book where
  folders := book.folders
  entries := book.entries.filter fun e => ¬(e.scope = scope ∧ e.folder = folder ∧ e.name = name)
  entry_folder e he := book.entry_folder e (mem_of_mem_filter he)

/-- A comma-separated list of groups, cleaned (`folder_groups`). -/
def groupList (allowedGroups : Text) : List Text := ((allowedGroups.splitOn ',').map trim).filter (· ≠ [])

def sharesGroup (groups userGroups : List Text) : Bool := groups.any fun g => userGroups.any (· = g)

/-- The walk from a folder up its path. It ends at the first list of groups, at a folder that does not inherit, or at
the top; a missing folder denies. -/
def aclWalk (book : Book) (scope : Text) (userGroups : List Text) : List Text → Option Bool
  | [] => none
  | current :: parents =>
    match book.getAbFolder scope current with
    | none => some false
    | some folder =>
      let groups := groupList folder.allowedGroups
      if groups ≠ [] then some (userGroups ≠ [] && sharesGroup groups userGroups)
      else if folder.inheritFromParent = false then none
      else book.aclWalk scope userGroups parents

def entryAllowed (userGroups : List Text) (entry : AbEntry) : Bool :=
  groupList entry.allowedGroups = [] || sharesGroup (groupList entry.allowedGroups) userGroups

def folderAllowedForUser (scope folder : Text) (userGroups : List Text) : Bool :=
  match book.aclWalk scope userGroups (folder :: Rbac.abFolderAncestors folder) with
  | some allowed => allowed
  | none =>
    match book.getAbFolder scope folder with
    | none => false
    | some _ => (book.listAbEntries scope folder).all (entryAllowed userGroups)

end Book

theorem getAbFolder_addFolder (book : Book) (folder : AbFolder) (scope p : Text) :
    (book.addFolder folder).getAbFolder scope p =
      (book.getAbFolder scope p).or (if folder.scope = scope ∧ folder.name = p then some folder else none) := by
  simp only [Book.getAbFolder, Book.addFolder, find?_append, find?_singleton, decide_eq_true_eq]

end Persea.AddressBook
