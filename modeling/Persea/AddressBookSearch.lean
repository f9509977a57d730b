import Persea.AddressBookViews
import Persea.BaseWorklist

/-! The search index of the address book. It goes down the tree of the folders from those without a slash in their names,
so that it does not come to a folder above which a row is missing. The list of the whole tree goes over the rows. -/

namespace Persea.AddressBook

open Base Base.Text Auth Rbac List Option

structure SearchHit where
  scope : Text
  folderPath : Text
  entry : AbEntry
deriving DecidableEq, Repr

def isChildPath (path name : Text) : Bool := path ++ ['/'] <+: name ∧ '/' ∉ name.drop (path.length + 1)

variable (book : Book)

def Book.childFolders (folder : Text × Text) : List (Text × Text) :=
  (book.listAbFolders.filter fun f => f.scope = folder.1 ∧ isChildPath folder.2 f.name).map fun f => (folder.1, f.name)

def Book.topFolders : List (Text × Text) :=
  (book.listAbFolders.filter fun f => '/' ∉ f.name).map fun f => (f.scope, f.name)

def Site.hits (site : Site) (id : AuthIdentity) (folder : Text × Text) : List SearchHit :=
  if site.folderShown id folder.1 folder.2 = false then []
  else
    match site.book.getAbFolder folder.1 folder.2 with
    | none => []
    | some _ =>
      ((site.book.listAbEntries folder.1 folder.2).filter (site.entryShown id)).map fun entry =>
        ⟨folder.1, folder.2, entry⟩

/-- The loop; the end of the queue, where it is popped, is the head of the list. -/
def searchLoop (site : Site) (id : AuthIdentity) : (fuel : Nat) → (queue : List (Text × Text)) → Option (List SearchHit)
  | 0, _ => none
  | _ + 1, [] => some []
  | fuel + 1, folder :: queue =>
    (searchLoop site id fuel ((site.book.childFolders folder).reverse ++ queue)).map (site.hits id folder ++ ·)

/-- `none` is a search that has not ended. -/
def abSearchIndex (fuel : Nat) (site : Site) (identity : Option AuthIdentity) :
    Option (Except AbError (List SearchHit)) :=
  match site.admit identity "read" noBackend with
  | .error e => some (.error e)
  | .ok id => (searchLoop site id fuel site.book.topFolders.reverse).map .ok

theorem searchLoop_eq (site : Site) (id : AuthIdentity) (fuel : Nat) (queue : List (Text × Text)) :
    searchLoop site id fuel queue =
      (Worklist.drain site.book.childFolders fuel queue).map fun folders => folders.flatMap (site.hits id) := by
  induction fuel generalizing queue with
  | zero => rfl
  | succ fuel ih =>
    cases queue with
    | nil => rfl
    | cons folder queue =>
      rw [searchLoop, Worklist.drain, ih, Option.map_map, Option.map_map]
      rfl

variable {book : Book}

def Book.HasRow (folder : Text × Text) : Prop := ∃ f ∈ book.folders, f.scope = folder.1 ∧ f.name = folder.2

theorem mem_listAbFolders {f : AbFolder} : f ∈ book.listAbFolders ↔ f ∈ book.folders := mem_insertionSort _

variable {folder : Text × Text} {site : Site} {id : AuthIdentity}

theorem mem_topFolders : folder ∈ book.topFolders ↔ book.HasRow folder ∧ '/' ∉ folder.2 := by
  constructor
  · intro h
    obtain ⟨f, hf, rfl⟩ := mem_map.mp h
    obtain ⟨hf, htop⟩ := mem_filter.mp hf
    exact ⟨⟨f, mem_listAbFolders.mp hf, rfl, rfl⟩, of_decide_eq_true htop⟩
  · rintro ⟨⟨f, hf, hscope, hname⟩, htop⟩
    refine mem_map.mpr ⟨f, mem_filter.mpr ⟨mem_listAbFolders.mpr hf, ?_⟩, by rw [hscope, hname]⟩
    rw [hname]
    exact decide_eq_true htop

theorem isChildPath_iff {path name : Text} :
    isChildPath path name ↔ ∃ rest, name = path ++ '/' :: rest ∧ '/' ∉ rest := by
  rw [isChildPath, decide_eq_true_eq]
  constructor
  · rintro ⟨⟨rest, rfl⟩, hrest⟩
    refine ⟨rest, by simp, ?_⟩
    simpa using hrest
  · rintro ⟨rest, rfl, hrest⟩
    exact ⟨⟨rest, by simp⟩, by simpa using hrest⟩

theorem mem_childFolders {child : Text × Text} : child ∈ book.childFolders folder ↔
      book.HasRow child ∧ child.1 = folder.1 ∧ ∃ rest, child.2 = folder.2 ++ '/' :: rest ∧ '/' ∉ rest := by
  constructor
  · intro h
    obtain ⟨f, hf, rfl⟩ := mem_map.mp h
    obtain ⟨hf, hkeep⟩ := mem_filter.mp hf
    obtain ⟨hscope, hchild⟩ := of_decide_eq_true hkeep
    exact ⟨⟨f, mem_listAbFolders.mp hf, hscope, rfl⟩, rfl, isChildPath_iff.mp hchild⟩
  · rintro ⟨⟨f, hf, hscope, hname⟩, hsame, hrest⟩
    refine mem_map.mpr ⟨f, mem_filter.mpr ⟨mem_listAbFolders.mpr hf, ?_⟩, ?_⟩
    · rw [hname, hscope, hsame]
      exact decide_eq_true ⟨rfl, isChildPath_iff.mpr hrest⟩
    · rw [hname, ← hsame]

theorem exists_drain_folders (book : Book) (queue : List (Text × Text)) :
    ∃ fuel folders, Worklist.drain book.childFolders fuel queue = some folders := by
  let bound := (book.folders.map fun f => f.name.length).sum
  refine Worklist.exists_drain (fun folder => bound + 1 - folder.2.length) ?_ queue
  intro folder child hchild
  obtain ⟨⟨f, hf, -, hname⟩, -, rest, hrest, -⟩ := mem_childFolders.mp hchild
  have hle : child.2.length ≤ bound := by
    rw [← hname]
    exact single_le_sum (fun _ _ => Nat.zero_le _) _ (mem_map_of_mem hf)
  have hlt : folder.2.length < child.2.length := by
    rw [hrest, length_append, length_cons]
    omega
  omega

/-- Every path that the name goes on from with a slash has a row. -/
def Book.Linked (folder : Text × Text) : Prop :=
  ∀ path rest, folder.2 = path ++ '/' :: rest → book.HasRow (folder.1, path)

abbrev Book.Found : Text × Text → Text × Text → Prop :=
  Relation.ReflTransGen fun folder child => child ∈ book.childFolders folder

theorem linked_of_found {top : Text × Text} (htop : top ∈ book.topFolders) (h : book.Found top folder) :
    book.HasRow folder ∧ book.Linked folder := by
  induction h with
  | refl =>
    obtain ⟨hrow, hslash⟩ := mem_topFolders.mp htop
    refine ⟨hrow, fun path rest heq => absurd ?_ hslash⟩
    rw [heq]
    exact mem_append_right _ mem_cons_self
  | @tail parent child _ hchild ih =>
    obtain ⟨hrow, hlinked⟩ := ih
    obtain ⟨hchildRow, hscope, name, hname, hslash⟩ := mem_childFolders.mp hchild
    refine ⟨hchildRow, fun path rest heq => ?_⟩
    rw [hname] at heq
    rw [hscope]
    rcases append_eq_append_iff.mp heq with ⟨more, rfl, hmore⟩ | ⟨more, hparent, hmore⟩
    · cases more with
      | nil => simpa using hrow
      | cons c more =>
        refine absurd ?_ hslash
        rw [(cons.inj hmore).2]
        exact mem_append_right _ mem_cons_self
    · cases more with
      | nil =>
        rw [append_nil] at hparent
        exact hparent ▸ hrow
      | cons c more =>
        obtain ⟨rfl, -⟩ := cons.inj hmore
        exact hlinked path more hparent

theorem found_of_linked (hrow : book.HasRow folder) (hlinked : book.Linked folder) :
    ∃ top ∈ book.topFolders, book.Found top folder := by
  -- by induction on the length of the name, cut at its last slash
  induction hn : folder.2.length using Nat.strong_induction_on generalizing folder with
  | _ n ih =>
    cases hsplit : rsplitOnce '/' folder.2 with
    | none => exact ⟨folder, mem_topFolders.mpr ⟨hrow, rsplitOnce_eq_none.mp hsplit⟩, .refl⟩
    | some parts =>
      obtain ⟨parent, name⟩ := parts
      obtain ⟨hname, hslash⟩ := rsplitOnce_eq_some.mp hsplit
      have hlt : parent.length < n := by
        rw [← hn, hname, length_append, length_cons]
        omega
      have hlinked' : book.Linked (folder.1, parent) := by
        intro path rest heq
        refine hlinked path (rest ++ '/' :: name) ?_
        have hparent : parent = path ++ '/' :: rest := heq
        rw [hname, hparent, append_assoc, cons_append]
      obtain ⟨top, htop, hfound⟩ := ih parent.length hlt (hlinked parent name hname) hlinked' rfl
      exact ⟨top, htop, hfound.tail (mem_childFolders.mpr ⟨hrow, rfl, name, hname, hslash⟩)⟩

/-! ### The two answers -/

def searchTriples : Except AbError (List SearchHit) → Set (Text × Text × AbEntry)
  | .error _ => ∅
  | .ok hits => { triple | ∃ hit ∈ hits, triple = (hit.scope, hit.folderPath, hit.entry) }

def listTriples : Except AbError (List FolderListing) → Set (Text × Text × AbEntry)
  | .error _ => ∅
  | .ok listing => { triple | ∃ f ∈ listing, ∃ e ∈ f.entries, triple = (f.scope, f.path, e) }

def Site.EntrySeen (site : Site) (id : AuthIdentity) (e : AbEntry) : Prop :=
  e ∈ site.book.entries ∧ site.folderShown id e.scope e.folder = true ∧ site.entryShown id e = true

theorem mem_entriesOf {scope folder : Text} {e : AbEntry} :
    e ∈ book.entriesOf scope folder ↔ e ∈ book.entries ∧ e.scope = scope ∧ e.folder = folder := by
  rw [Book.entriesOf, mem_filter, decide_eq_true_eq]

theorem mem_hits_iff {hit : SearchHit} :
    hit ∈ site.hits id folder ↔ ∃ e, site.EntrySeen id e ∧ folder = (e.scope, e.folder) ∧ hit = ⟨e.scope, e.folder, e⟩ := by
  obtain ⟨scope, path⟩ := folder
  rw [Site.hits]
  constructor
  · intro h
    split_ifs at h with hshown
    · cases h
    · split at h
      · cases h
      · obtain ⟨e, he, rfl⟩ := mem_map.mp h
        rw [mem_filter, mem_listAbEntries, mem_entriesOf] at he
        obtain ⟨⟨he, rfl, rfl⟩, hentry⟩ := he
        exact ⟨e, ⟨he, by simpa using hshown, hentry⟩, rfl, rfl⟩
  · rintro ⟨e, ⟨he, hshown, hentry⟩, hfolder, rfl⟩
    cases hfolder
    obtain ⟨f, hf, hscope, hname⟩ := site.book.entry_folder e he
    have hrow : (site.book.getAbFolder e.scope e.folder).isSome :=
      find?_isSome.mpr ⟨f, hf, by simp [hscope, hname]⟩
    obtain ⟨row, hrow⟩ := isSome_iff_exists.mp hrow
    rw [hshown, if_neg (by decide)]
    simp only [hrow]
    refine mem_map.mpr ⟨e, mem_filter.mpr ⟨?_, hentry⟩, rfl⟩
    exact mem_listAbEntries.mpr (mem_entriesOf.mpr ⟨he, rfl, rfl⟩)

theorem mem_listTriples_iff
    (hgate : site.admit (some id) "read" noBackend = .ok id) {triple : Text × Text × AbEntry} :
    triple ∈ listTriples (abListAll site (some id)) ↔ ∃ e, site.EntrySeen id e ∧ triple = (e.scope, e.folder, e) := by
  rw [abListAll, hgate]
  constructor
  · rintro ⟨f, hf, e, he, rfl⟩
    obtain ⟨row, hrow, rfl⟩ := mem_map.mp hf
    obtain ⟨-, hshown⟩ := mem_filter.mp hrow
    rw [mem_filter, mem_listAbEntries, mem_entriesOf] at he
    obtain ⟨⟨he, hscope, hfolder⟩, hentry⟩ := he
    refine ⟨e, ⟨he, ?_, hentry⟩, ?_⟩
    · rw [hscope, hfolder]
      exact hshown
    · rw [hscope, hfolder]
  · rintro ⟨e, ⟨he, hshown, hentry⟩, rfl⟩
    obtain ⟨row, hrow, hscope, hname⟩ := site.book.entry_folder e he
    refine ⟨_, mem_map.mpr ⟨row, mem_filter.mpr ⟨mem_listAbFolders.mpr hrow, ?_⟩, rfl⟩, e, ?_, ?_⟩
    · rw [hscope, hname]
      exact hshown
    · rw [mem_filter, mem_listAbEntries, mem_entriesOf]
      exact ⟨⟨he, hscope.symm, hname.symm⟩, hentry⟩
    · rw [hscope, hname]

theorem mem_searchTriples_iff {fuel : Nat} {folders : List (Text × Text)}
    (h : Worklist.drain site.book.childFolders fuel site.book.topFolders.reverse = some folders)
    {triple : Text × Text × AbEntry} :
    triple ∈ searchTriples (.ok (folders.flatMap (site.hits id))) ↔
      ∃ e, site.EntrySeen id e ∧ site.book.Linked (e.scope, e.folder) ∧ triple = (e.scope, e.folder, e) := by
  have hfolders : ∀ folder, folder ∈ folders ↔ site.book.HasRow folder ∧ site.book.Linked folder := by
    intro folder
    rw [Worklist.mem_drain_iff h]
    constructor
    · rintro ⟨top, htop, hfound⟩
      exact linked_of_found (mem_reverse.mp htop) hfound
    · rintro ⟨hrow, hlinked⟩
      obtain ⟨top, htop, hfound⟩ := found_of_linked hrow hlinked
      exact ⟨top, mem_reverse.mpr htop, hfound⟩
  constructor
  · rintro ⟨hit, hmem, rfl⟩
    obtain ⟨folder, hfolder, hhit⟩ := mem_flatMap.mp hmem
    obtain ⟨e, hseen, rfl, rfl⟩ := mem_hits_iff.mp hhit
    exact ⟨e, hseen, ((hfolders _).mp hfolder).2, rfl⟩
  · rintro ⟨e, hseen, hlinked, rfl⟩
    refine ⟨⟨e.scope, e.folder, e⟩, mem_flatMap.mpr ⟨(e.scope, e.folder), ?_, ?_⟩, rfl⟩
    · exact (hfolders _).mpr ⟨site.book.entry_folder e hseen.1, hlinked⟩
    · exact mem_hits_iff.mpr ⟨e, hseen, rfl, rfl⟩

/-- **The search index and the list agree** exactly if every folder with an entry that the caller sees has rows for all
paths above it. -/
theorem abSearchIndex_agrees_iff (site : Site) (identity : Option AuthIdentity) :
    (∃ fuel response, abSearchIndex fuel site identity = some response ∧
        searchTriples response = listTriples (abListAll site identity)) ↔
      ∀ id, identity = some id → site.Admits id "read" → ∀ e, site.EntrySeen id e →
        site.book.Linked (e.scope, e.folder) := by
  cases hgate : site.admit identity "read" noBackend with
  | error err =>
    -- both answers are the error of the gate
    refine iff_of_true ⟨0, .error err, by rw [abSearchIndex, hgate], ?_⟩ ?_
    · rw [abListAll, hgate]
      rfl
    · rintro id rfl hadmits
      have hok : site.admit (some id) "read" noBackend = .ok id := admit_eq_ok.mpr ⟨rfl, hadmits⟩
      rw [hok] at hgate
      cases hgate
  | ok id =>
    obtain ⟨rfl, hadmits⟩ : identity = some id ∧ site.Admits id "read" := by
      cases identity with
      | none => cases hgate
      | some id' =>
        obtain ⟨rfl, hadmits⟩ := admit_eq_ok.mp hgate
        exact ⟨rfl, hadmits⟩
    have hsearch : ∀ fuel, abSearchIndex fuel site (some id) =
        (Worklist.drain site.book.childFolders fuel site.book.topFolders.reverse).map fun folders =>
          .ok (folders.flatMap (site.hits id)) := by
      intro fuel
      rw [abSearchIndex, hgate]
      simp only [searchLoop_eq, Option.map_map]
      rfl
    constructor
    · rintro ⟨fuel, response, hresponse, htriples⟩ id' hid _ e hseen
      cases hid
      rw [hsearch, map_eq_some_iff] at hresponse
      obtain ⟨folders, hfolders, rfl⟩ := hresponse
      have hlisted := (mem_listTriples_iff hgate).mpr ⟨e, hseen, rfl⟩
      rw [← htriples, mem_searchTriples_iff hfolders] at hlisted
      obtain ⟨e', -, hlinked, heq⟩ := hlisted
      obtain ⟨hscope, hfolder, -⟩ := by simpa using heq
      rw [hscope, hfolder]
      exact hlinked
    · intro hlinked
      obtain ⟨fuel, folders, hfolders⟩ := exists_drain_folders site.book site.book.topFolders.reverse
      refine ⟨fuel, _, by rw [hsearch, hfolders, map_some], ?_⟩
      ext triple
      rw [mem_searchTriples_iff hfolders, mem_listTriples_iff hgate]
      constructor
      · rintro ⟨e, hseen, -, rfl⟩
        exact ⟨e, hseen, rfl⟩
      · rintro ⟨e, hseen, rfl⟩
        exact ⟨e, hseen, hlinked id rfl hadmits e hseen, rfl⟩

def orphanSite : Site where
  world := [GrantEvent.createFolder ⟨"shared", "a/b", [], [], true⟩,
    .createEntry ⟨"shared", "a/b", "web", [], "ssh", [], none, [], []⟩].foldl GrantWorld.step
      ⟨false, ⟨[], [], Book.noEntries⟩, [], [], [], []⟩
  users := []
  customRoleIds := []
  rolePermissions := []
  storageAvailable := true
  managerDb := true

/-- An admin finds the entry in the list, and not in the search index. -/
theorem abSearchIndex_orphan :
    abSearchIndex 1 orphanSite (some (.user "root@x.io" "Root" "admin" [])) = some (.ok []) ∧
      (abListAll orphanSite (some (.user "root@x.io" "Root" "admin" []))).map (·.map FolderListing.entries) =
        .ok [[⟨"shared", "a/b", "web", [], "ssh", [], none, [], []⟩]] := by
  decide +kernel

end Persea.AddressBook
