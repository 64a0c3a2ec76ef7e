import ImportRank.Proofs.Files.Absolute
import ImportRank.Proofs.Files.Below
import ImportRank.Proofs.Run.Outcome
import Mathlib.Data.List.Induction

/-!
# Places

The place of a file is the names that lead to it from the root through directories alone. A path
with links and steps up in it leads to one place, and what it leads to is what stands there; two
paths that lead to one place lead to the same file. Normalizing a path takes names back before
anything is looked up, so it leads to another place where a name that is taken back is that of a
link. Where none is, a path and its normal form lead to the same place.

Main statements: `find_eq_ok_iff`, `placeOf_normalize`, `placeOf_below`.
-/

namespace ImportRank

/-- Whether a name can be that of an entry can be told. -/
instance (name : String) : Decidable (FileSystem.IsName name) :=
  decidable_of_iff
    (name ≠ "" ∧ name ≠ "." ∧ '/' ∉ name.toList ∧ name ≠ ".." ∧
      name.utf8ByteSize ≤ FileSystem.nameLimit)
    ⟨fun ⟨hempty, hdot, hslash, hup, hsize⟩ => ⟨⟨hempty, hdot, hslash⟩, hup, hsize⟩,
      fun hname => ⟨hname.ne_empty, hname.ne_dot, hname.slash_notMem, hname.ne_up,
        hname.le_nameLimit⟩⟩

namespace FileTree

variable {tree leaf : FileTree} {front rest : List String}

/-- The names in a tree are ones that lead from a directory to an entry of it. -/
inductive Named : FileTree → Prop
  | file (bytes : List UInt8) : Named (.file bytes)
  | device : Named .device
  | link (target : String) : Named (.link target)
  | directory {entries : List (String × FileTree)}
      (hnames : ∀ entry ∈ entries, FileSystem.IsName entry.1)
      (hentries : ∀ entry ∈ entries, Named entry.2) : Named (.directory entries)

lemma named_directory_iff {entries : List (String × FileTree)} :
    Named (.directory entries) ↔
      ∀ entry ∈ entries, FileSystem.IsName entry.1 ∧ Named entry.2 := by
  constructor
  · rintro ⟨⟩ entry hentry
    exact ⟨‹∀ entry ∈ entries, FileSystem.IsName entry.1› entry hentry,
      ‹∀ entry ∈ entries, Named entry.2› entry hentry⟩
  · intro hentries
    exact .directory (fun entry hentry => (hentries entry hentry).1)
      fun entry hentry => (hentries entry hentry).2

/-- So the names that lead to a tree are such ones, and those in it. -/
lemma Named.of_subtree? (hnamed : tree.Named) (hleaf : tree.subtree? front = some leaf) :
    (∀ name ∈ front, FileSystem.IsName name) ∧ leaf.Named := by
  induction front generalizing tree with
  | nil =>
    rw [subtree?_nil, Option.some.injEq] at hleaf
    exact ⟨by simp, hleaf ▸ hnamed⟩
  | cons name front ih =>
    obtain ⟨entries, below, rfl, hentry, hrest⟩ := subtree?_cons_eq_some_iff.mp hleaf
    obtain ⟨hname, hbelow⟩ := named_directory_iff.mp hnamed _ (mem_of_entry_eq hentry)
    obtain ⟨hnames, hleaf⟩ := ih hbelow hrest
    exact ⟨List.forall_mem_cons.mpr ⟨hname, hnames⟩, hleaf⟩

lemma subtree?_append :
    tree.subtree? (front ++ rest) =
      (tree.subtree? front).bind fun below => below.subtree? rest := by
  induction front generalizing tree with
  | nil => simp
  | cons name front ih =>
    cases tree with
    | directory entries =>
      rw [List.cons_append, subtree?, subtree?]
      cases entry? entries name with
      | none => rfl
      | some below => exact ih
    | file bytes => rfl
    | device => rfl
    | link target => rfl

lemma subtree?_singleton {entries : List (String × FileTree)} {name : String} :
    (directory entries).subtree? [name] = entry? entries name := by
  rw [subtree?]
  cases entry? entries name with
  | none => rfl
  | some below => exact subtree?_nil

end FileTree

namespace FileSystem

variable {root here tree leaf : FileTree} {above : List FileTree}
  {entries inner : List (String × FileTree)} {place names rest : List String} {name : String}
  {links left : ℕ} {goal : ℕ × List String}

/-! ## Looking up a place -/

/-- What stands at a place. Places are told last name first. -/
def standing? (root : FileTree) (place : List String) : Option FileTree :=
  root.subtree? place.reverse

lemma standing?_nil : standing? root [] = some root := FileTree.subtree?_nil

lemma standing?_append {below : List String} (hhere : standing? root place = some here) :
    standing? root (below.reverse ++ place) = here.subtree? below := by
  rw [standing?, List.reverse_append, List.reverse_reverse, FileTree.subtree?_append]
  rw [standing?] at hhere
  rw [hhere, Option.bind_some]

lemma standing?_cons (hhere : standing? root place = some (.directory entries)) :
    standing? root (name :: place) = FileTree.entry? entries name := by
  have hbelow : standing? root ([name].reverse ++ place) = _ := standing?_append hhere
  rwa [FileTree.subtree?_singleton] at hbelow

/-- The place that names lead to from a place, with the number of links that may still be
followed. -/
def locate (root : FileTree) (links : ℕ) (place names : List String) :
    Except Fault (ℕ × List String) :=
  match names with
  | [] => .ok (links, place)
  | name :: rest =>
    match standing? root place with
    | some (.directory entries) =>
      if name = "." then locate root links place rest
      else if name = ".." then locate root links place.tail rest
      else if nameLimit < name.utf8ByteSize then .error .nameTooLong
      else
        match FileTree.entry? entries name with
        | none => .error .missing
        | some (.link target) =>
          match links with
          | 0 => .error .linkLoop
          | links + 1 =>
            if target = "" then .error .missing
            else if target.toList.head? = some '/' then locate root links [] (steps target ++ rest)
            else locate root links place (steps target ++ rest)
        | some _ => locate root links (name :: place) rest
    | _ => .error .notDirectory
termination_by (links, names.length)

/-- A walk has come to a tree, with the directories over it, at a place. -/
inductive Reached (root : FileTree) : List FileTree → FileTree → List String → Prop
  | atRoot : Reached root [] root []
  | enter {above : List FileTree} {entries : List (String × FileTree)} {tree : FileTree}
      {place : List String} {name : String}
      (hreached : Reached root above (.directory entries) place)
      (hentry : FileTree.entry? entries name = some tree) :
      Reached root (.directory entries :: above) tree (name :: place)

lemma Reached.standing?_eq (hreached : Reached root above here place) :
    standing? root place = some here := by
  induction hreached with
  | atRoot => exact standing?_nil
  | enter hreached hentry ih => rw [standing?_cons ih, hentry]

lemma locate_nil : locate root links place [] = .ok (links, place) := by
  rw [locate]

lemma locate_cons (hhere : standing? root place = some (.directory entries)) :
    locate root links place (name :: rest) =
      if name = "." then locate root links place rest
      else if name = ".." then locate root links place.tail rest
      else if nameLimit < name.utf8ByteSize then .error .nameTooLong
      else
        match FileTree.entry? entries name with
        | none => .error .missing
        | some (.link target) =>
          match links with
          | 0 => .error .linkLoop
          | links + 1 =>
            if target = "" then .error .missing
            else if target.toList.head? = some '/' then locate root links [] (steps target ++ rest)
            else locate root links place (steps target ++ rest)
        | some _ => locate root links (name :: place) rest := by
  rw [locate.eq_def]
  simp only [hhere]

/-- Names lead on from a directory only. -/
lemma locate_cons_eq_error (hhere : ∀ entries, standing? root place ≠ some (.directory entries)) :
    locate root links place (name :: rest) = .error .notDirectory := by
  rw [locate.eq_def]
  split
  · rename_i hnil
    cases hnil
  · split
    · rename_i entries hdirectory
      exact absurd hdirectory (hhere entries)
    · rfl

lemma exists_directory_of_locate (hgoal : locate root links place (name :: rest) = .ok goal) :
    ∃ entries, standing? root place = some (.directory entries) := by
  by_contra hnone
  rw [not_exists] at hnone
  rw [locate_cons_eq_error hnone] at hgoal
  cases hgoal

/-- What a walk finds is what stands at the place that the names lead to. -/
theorem Reached.walk_eq_ok_iff (hreached : Reached root above here place) :
    walk root links above here names = .ok tree ↔
      ∃ left goal, locate root links place names = .ok (left, goal) ∧
        standing? root goal = some tree := by
  -- the walk keeps the directories that it is in, and they are those over the place
  fun_induction walk root links above here names generalizing place with
  | case1 links above here => simp [locate_nil, hreached.standing?_eq]
  | case2 links above rest entries ih =>
    rw [ih hreached, locate_cons hreached.standing?_eq, if_pos rfl]
  | case3 links rest entries hdot ih =>
    rw [locate_cons hreached.standing?_eq, if_neg hdot, if_pos rfl]
    cases hreached
    exact ih .atRoot
  | case4 links rest entries up higher hdot ih =>
    rw [locate_cons hreached.standing?_eq, if_neg hdot, if_pos rfl]
    cases hreached with
    | enter hreached hentry => exact ih hreached
  | case5 links above name rest entries hdot hup hlong =>
    rw [locate_cons hreached.standing?_eq]
    simp [hdot, hup, hlong]
  | case6 links above name rest entries hdot hup hshort hentry =>
    rw [locate_cons hreached.standing?_eq]
    simp [hdot, hup, hshort, hentry]
  | case7 above name rest entries hdot hup hshort target hentry =>
    rw [locate_cons hreached.standing?_eq]
    simp [hdot, hup, hshort, hentry]
  | case8 above name rest entries hdot hup hshort links hentry =>
    rw [locate_cons hreached.standing?_eq]
    simp [hdot, hup, hshort, hentry]
  | case9 above name rest entries hdot hup hshort target hentry links htarget hslash ih =>
    rw [ih .atRoot, locate_cons hreached.standing?_eq]
    simp [hdot, hup, hshort, hentry, htarget, hslash]
  | case10 above name rest entries hdot hup hshort target hentry links htarget hslash ih =>
    rw [ih hreached, locate_cons hreached.standing?_eq]
    simp [hdot, hup, hshort, hentry, htarget, hslash]
  | case11 links above name rest entries hdot hup hshort tree hlink hentry ih =>
    rw [ih (.enter hreached hentry), locate_cons hreached.standing?_eq]
    simp [hdot, hup, hshort, hentry]
  | case12 links above here name rest hother =>
    rw [locate_cons_eq_error fun entries hdirectory =>
      hother entries (Option.some.inj (hreached.standing?_eq.symm.trans hdirectory))]
    simp

/-! ## Parts of a path -/

/-- Names lead on from where the names before them lead. -/
lemma locate_append {front : List String} :
    locate root links place (front ++ rest) =
      (locate root links place front).bind fun goal => locate root goal.1 goal.2 rest := by
  fun_induction locate root links place front with
  | case1 links place => rfl
  | case2 links place names entries hhere ih =>
    rw [List.cons_append, locate_cons hhere, if_pos rfl, ih]
  | case3 links place names entries hhere hdot ih =>
    rw [List.cons_append, locate_cons hhere, if_neg hdot, if_pos rfl, ih]
  | case4 links place name names entries hhere hdot hup hlong =>
    rw [List.cons_append, locate_cons hhere, if_neg hdot, if_neg hup, if_pos hlong]
    rfl
  | case5 links place name names entries hhere hdot hup hshort hentry =>
    rw [List.cons_append, locate_cons hhere, if_neg hdot, if_neg hup, if_neg hshort, hentry]
    rfl
  | case6 place name names entries hhere hdot hup hshort target hentry =>
    rw [List.cons_append, locate_cons hhere, if_neg hdot, if_neg hup, if_neg hshort, hentry]
    rfl
  | case7 place name names entries hhere hdot hup hshort links hentry =>
    rw [List.cons_append, locate_cons hhere, if_neg hdot, if_neg hup, if_neg hshort, hentry]
    simp [Except.bind]
  | case8 place name names entries hhere hdot hup hshort target hentry links htarget hslash ih =>
    rw [List.cons_append, locate_cons hhere, if_neg hdot, if_neg hup, if_neg hshort, hentry]
    simp [htarget, hslash, ← ih]
  | case9 place name names entries hhere hdot hup hshort target hentry links htarget hslash ih =>
    rw [List.cons_append, locate_cons hhere, if_neg hdot, if_neg hup, if_neg hshort, hentry]
    simp [htarget, hslash, ← ih]
  | case10 links place name names entries hhere hdot hup hshort tree hlink hentry ih =>
    rw [List.cons_append, locate_cons hhere, if_neg hdot, if_neg hup, if_neg hshort, hentry]
    simp [ih]
  | case11 links place name names hother =>
    rw [List.cons_append, locate_cons_eq_error fun entries hhere => hother entries hhere]
    rfl

/-- Where more links may be followed, the same place is come to, and as many more are left. -/
lemma locate_add {place' : List String} (more : ℕ)
    (hgoal : locate root links place names = .ok (left, place')) :
    locate root (links + more) place names = .ok (left + more, place') := by
  -- the cases that are left come to no place, so the number of links does not matter there
  fun_induction locate root links place names with
  | case1 links place =>
    cases hgoal
    exact locate_nil
  | case2 links place names entries hhere ih =>
    rw [locate_cons hhere, if_pos rfl, ih hgoal]
  | case3 links place names entries hhere hdot ih =>
    rw [locate_cons hhere, if_neg hdot, if_pos rfl, ih hgoal]
  | case8 place name names entries hhere hdot hup hshort target hentry links htarget hslash ih =>
    rw [Nat.succ_add, locate_cons hhere, if_neg hdot, if_neg hup, if_neg hshort, hentry]
    simp [htarget, hslash, ih hgoal]
  | case9 place name names entries hhere hdot hup hshort target hentry links htarget hslash ih =>
    rw [Nat.succ_add, locate_cons hhere, if_neg hdot, if_neg hup, if_neg hshort, hentry]
    simp [htarget, hslash, ih hgoal]
  | case10 links place name names entries hhere hdot hup hshort tree hlink hentry ih =>
    rw [locate_cons hhere, if_neg hdot, if_neg hup, if_neg hshort, hentry]
    simp [ih hgoal]
  | _ => cases hgoal

/-! ## Single steps -/

/-- A step up from a directory leads to the place that it is in. -/
lemma eq_of_locate_up (hgoal : locate root links place [".."] = .ok goal) :
    goal = (links, place.tail) := by
  obtain ⟨entries, hhere⟩ := exists_directory_of_locate hgoal
  rw [locate_cons hhere, if_neg (by decide), if_pos rfl, locate_nil] at hgoal
  exact (Except.ok.inj hgoal).symm

/-- A name leads to the entry of the name, unless that is a link. -/
lemma eq_of_locate_name (hdot : name ≠ ".") (hup : name ≠ "..")
    (hlink : ∀ target, standing? root (name :: place) ≠ some (.link target))
    (hgoal : locate root links place [name] = .ok goal) : goal = (links, name :: place) := by
  obtain ⟨entries, hhere⟩ := exists_directory_of_locate hgoal
  rw [locate_cons hhere, if_neg hdot, if_neg hup] at hgoal
  rw [standing?_cons hhere] at hlink
  split at hgoal
  · cases hgoal
  · split at hgoal
    · cases hgoal
    · rename_i target hentry
      exact absurd hentry (hlink target)
    · rw [locate_nil] at hgoal
      exact (Except.ok.inj hgoal).symm

lemma locate_enter (hhere : standing? root place = some (.directory entries)) (hname : IsName name)
    (hentry : FileTree.entry? entries name = some tree) (hlink : ∀ target, tree ≠ .link target) :
    locate root links place (name :: rest) = locate root links (name :: place) rest := by
  rw [locate_cons hhere, if_neg hname.ne_dot, if_neg hname.ne_up,
    if_neg (Nat.not_lt.mpr hname.le_nameLimit), hentry]
  split
  · rename_i hnone
    cases hnone
  · rename_i target hsome
    exact absurd (Option.some.inj hsome) (hlink target)
  · rfl

/-- Names of entries, of which the last is no link, lead down. -/
lemma locate_below {below : List String} (hhere : standing? root place = some here)
    (hbelow : here.subtree? below = some leaf) (hnames : ∀ name ∈ below, IsName name)
    (hleaf : ∀ target, leaf ≠ .link target) :
    locate root links place below = .ok (links, below.reverse ++ place) := by
  induction below generalizing here place with
  | nil => exact locate_nil
  | cons name below ih =>
    obtain ⟨entries, next, rfl, hentry, hrest⟩ := FileTree.subtree?_cons_eq_some_iff.mp hbelow
    rw [List.forall_mem_cons] at hnames
    have hnext : ∀ target, next ≠ .link target := by
      rintro target rfl
      cases below with
      | nil =>
        rw [FileTree.subtree?_nil] at hrest
        exact hleaf target (Option.some.inj hrest).symm
      | cons other below =>
        obtain ⟨_, _, hdirectory, -⟩ := FileTree.subtree?_cons_eq_some_iff.mp hrest
        cases hdirectory
    have hstanding := (standing?_cons hhere).trans hentry
    rw [locate_enter hhere hnames.1 hentry hnext, ih hstanding hrest hnames.2]
    simp

/-! ## Paths -/

variable {files : FileSystem} {path : Path}

/-- The names that a path is looked up by from the root: those of the working directory come first
where it starts there. -/
def namesFromRoot (files : FileSystem) (path : Path) : List String :=
  (if path.anchor = .relative then files.workingDirectory else []) ++ path.parts

lemma namesFromRoot_append {anchor : Anchor} (front rest : List String) :
    files.namesFromRoot { anchor, parts := front ++ rest } =
      files.namesFromRoot { anchor, parts := front } ++ rest := by
  rw [namesFromRoot, namesFromRoot, List.append_assoc]

/-- The place that a path leads to, from the root down. -/
def placeOf (files : FileSystem) (path : Path) : Except Fault (List String) :=
  (locate files.root linkLimit [] (files.namesFromRoot path)).map fun goal => goal.2.reverse

lemma placeOf_eq_ok_iff :
    files.placeOf path = .ok names ↔
      ∃ left, locate files.root linkLimit [] (files.namesFromRoot path) =
        .ok (left, names.reverse) := by
  rw [placeOf]
  cases locate files.root linkLimit [] (files.namesFromRoot path) with
  | error fault => simp [Except.map]
  | ok goal =>
    simp only [Except.map, Except.ok.injEq, Prod.ext_iff, exists_and_right, exists_eq', true_and]
    exact ⟨fun hnames => by simp [← hnames], fun hgoal => by simp [hgoal]⟩

/-- What a path leads to is what stands at the place it leads to. -/
theorem find_eq_ok_iff :
    files.find path = .ok tree ↔
      ∃ place, files.placeOf path = .ok place ∧ files.root.subtree? place = some tree := by
  have hwalk : files.find path = .ok tree ↔ ∃ left goal,
      locate files.root linkLimit [] (files.namesFromRoot path) = .ok (left, goal) ∧
        standing? files.root goal = some tree :=
    Reached.atRoot.walk_eq_ok_iff
  rw [hwalk]
  constructor
  · rintro ⟨left, goal, hgoal, htree⟩
    exact ⟨goal.reverse, placeOf_eq_ok_iff.mpr ⟨left, by rw [hgoal, List.reverse_reverse]⟩, htree⟩
  · rintro ⟨place, hplace, htree⟩
    obtain ⟨left, hgoal⟩ := placeOf_eq_ok_iff.mp hplace
    exact ⟨left, place.reverse, hgoal, by rwa [standing?, List.reverse_reverse]⟩

/-- A path leads past links: what it leads to is none, if the root is none. -/
lemma ne_link_of_walk {found : FileTree} (hroot : ∀ target, root ≠ .link target)
    (hhere : ∀ target, here ≠ .link target) (habove : ∀ tree ∈ above, ∀ target, tree ≠ .link target)
    (hfound : walk root links above here names = .ok found) : ∀ target, found ≠ .link target := by
  fun_induction walk root links above here names with
  | case1 links above here =>
    cases hfound
    exact hhere
  | case2 links above rest entries ih => exact ih hhere habove hfound
  | case3 links rest entries hdot ih => exact ih hhere habove hfound
  | case4 links rest entries up higher hdot ih =>
    rw [List.forall_mem_cons] at habove
    exact ih habove.1 habove.2 hfound
  | case9 above name rest entries hdot hup hshort target hentry links htarget hslash ih =>
    exact ih hroot (fun _ hnone => absurd hnone List.not_mem_nil) hfound
  | case10 above name rest entries hdot hup hshort target hentry links htarget hslash ih =>
    exact ih hhere habove hfound
  | case11 links above name rest entries hdot hup hshort tree hlink hentry ih =>
    exact ih hlink (List.forall_mem_cons.mpr ⟨hhere, habove⟩) hfound
  | _ => exact absurd hfound (by simp)

/-- A directory is reached from one. -/
lemma Stands.exists_root_eq (hstands : Stands root above entries names) :
    ∃ inner, root = .directory inner := by
  induction hstands with
  | atRoot hroot => exact ⟨_, hroot⟩
  | enter _ _ _ ih => exact ih

/-- What a path leads to is no link, where the working directory stands. -/
lemma Grounded.ne_link_of_find (hgrounded : files.Grounded) (htree : files.find path = .ok tree) :
    ∀ target, tree ≠ .link target := by
  obtain ⟨above, entries, hstands⟩ := hgrounded
  obtain ⟨inner, hinner⟩ := hstands.exists_root_eq
  have hroot : ∀ target, files.root ≠ .link target := by simp [hinner]
  exact ne_link_of_walk hroot hroot (fun _ hnone => absurd hnone List.not_mem_nil) htree

/-- The names below what a path leads to are names in the tree. -/
lemma named_of_find (hnamed : files.root.Named) (htree : files.find path = .ok tree) :
    tree.Named := by
  obtain ⟨place, -, hplace⟩ := find_eq_ok_iff.mp htree
  exact (hnamed.of_subtree? hplace).2

/-- The files of a machine: no directory has two entries of one name or one of a name that cannot
be, and the working directory is reached through no link. -/
structure Sound (files : FileSystem) : Prop where
  wellFormed : files.root.WellFormed
  named : files.root.Named
  grounded : files.Grounded

/-- Below a directory that a path leads to, names lead down. -/
theorem placeOf_below {place below : List String} (hplace : files.placeOf path = .ok place)
    (hhere : files.root.subtree? place = some here) (hbelow : here.subtree? below = some leaf)
    (hnames : ∀ name ∈ below, IsName name) (hleaf : leaf.isFile) :
    files.placeOf { path with parts := path.parts ++ below } = .ok (place ++ below) := by
  obtain ⟨left, hgoal⟩ := placeOf_eq_ok_iff.mp hplace
  have hstanding : standing? files.root place.reverse = some here := by
    rwa [standing?, List.reverse_reverse]
  have hnolink : ∀ target, leaf ≠ .link target := by
    rintro target rfl
    cases hleaf
  refine placeOf_eq_ok_iff.mpr ⟨left, ?_⟩
  rw [namesFromRoot_append, locate_append, hgoal]
  show locate files.root left place.reverse below = _
  rw [locate_below hstanding hbelow hnames hnolink, List.reverse_append]

/-! ## Normalizing -/

/-- The last name of a path is the name of a link. -/
def EndsInLink (files : FileSystem) (path : Path) : Prop :=
  ∃ place target, files.placeOf path.parent = .ok place ∧
    files.root.subtree? (place ++ [path.name]) = some (.link target)

/-- Normalizing a path takes back no name of a link: before no step up does the path so far, in
normal form, end in one. -/
def ClimbsDirectories (files : FileSystem) (path : Path) : Prop :=
  ∀ front rest, path.parts = front ++ ".." :: rest →
    ¬ files.EndsInLink { path with parts := front }.normalize

lemma ClimbsDirectories.of_append {anchor : Anchor} {front rest : List String}
    (hclimbs : files.ClimbsDirectories { anchor, parts := front ++ rest }) :
    files.ClimbsDirectories { anchor, parts := front } := by
  intro earlier later hfront
  have hfront : front = earlier ++ ".." :: later := hfront
  exact hclimbs earlier (later ++ rest) (by simp [hfront])

/-- Where names lead to a place and the last of them is not that of a link, the names before it lead
to the directory that the place is in. -/
lemma locate_dropLast {anchor : Anchor} {others : List String} (hname : Path.IsComponent name)
    (hup : name ≠ "..") (hlink : ¬ files.EndsInLink { anchor, parts := others ++ [name] })
    (hgoal : locate files.root linkLimit []
      (files.namesFromRoot { anchor, parts := others ++ [name] }) = .ok (left, place)) :
    locate files.root linkLimit [] (files.namesFromRoot { anchor, parts := others }) =
      .ok (left, place.tail) := by
  rw [namesFromRoot_append, locate_append] at hgoal
  obtain ⟨⟨links, front⟩, hfront, hlast⟩ := except_bind_eq_ok.mp hgoal
  have hentry : ∀ target, standing? files.root (name :: front) ≠ some (.link target) := by
    intro target hstanding
    refine hlink ⟨front.reverse, target, ?_, ?_⟩
    · rw [Path.parent, List.dropLast_concat]
      exact placeOf_eq_ok_iff.mpr ⟨links, by rw [hfront, List.reverse_reverse]⟩
    · rw [Path.name, List.getLastD_concat]
      rwa [standing?, List.reverse_cons] at hstanding
  obtain ⟨rfl, rfl⟩ := Prod.mk.inj (eq_of_locate_name hname.ne_dot hup hentry hlast)
  exact hfront

/-- One step of normalization leads where the part leads, unless it takes back the name of a
link. -/
lemma locate_descend {anchor : Anchor} {above before : List String} {part : String}
    (habove : ∀ last ∈ above, Path.IsComponent last)
    (hlink : part = ".." → ¬ files.EndsInLink { anchor, parts := above.reverse })
    (hbefore : locate files.root linkLimit []
      (files.namesFromRoot { anchor, parts := above.reverse }) = .ok (links, before))
    (hpart : locate files.root links before [part] = .ok (left, place)) :
    locate files.root linkLimit []
      (files.namesFromRoot { anchor, parts := (Path.descend anchor above part).reverse }) =
        .ok (left, place) := by
  have hkept : locate files.root linkLimit []
      (files.namesFromRoot { anchor, parts := (part :: above).reverse }) = .ok (left, place) := by
    rw [List.reverse_cons, namesFromRoot_append, locate_append, hbefore]
    exact hpart
  by_cases hup : part = ".."
  · subst hup
    cases above with
    | nil =>
      by_cases hrelative : anchor = .relative
      · have hdescend : Path.descend anchor [] ".." = [".."] := by simp [Path.descend, hrelative]
        rwa [hdescend]
      · -- above the root there is nothing to step up to
        have hdescend : Path.descend anchor [] ".." = [] := by simp [Path.descend, hrelative]
        have hroot : locate files.root linkLimit []
            (files.namesFromRoot { anchor, parts := [].reverse }) = .ok (linkLimit, []) := by
          rw [namesFromRoot, if_neg hrelative, List.reverse_nil, List.append_nil, locate_nil]
        obtain ⟨rfl, rfl⟩ := Prod.mk.inj (Except.ok.inj (hbefore.symm.trans hroot))
        obtain ⟨rfl, rfl⟩ := Prod.mk.inj (eq_of_locate_up hpart)
        rw [hdescend, hroot, List.tail_nil]
    | cons last others =>
      by_cases hclimb : last = ".."
      · have hdescend : Path.descend anchor (last :: others) ".." = ".." :: last :: others := by
          simp [Path.descend, hclimb]
        rwa [hdescend]
      · have hdescend : Path.descend anchor (last :: others) ".." = others := by
          simp [Path.descend, hclimb]
        obtain ⟨rfl, rfl⟩ := Prod.mk.inj (eq_of_locate_up hpart)
        rw [hdescend]
        rw [List.reverse_cons] at hlink hbefore
        exact locate_dropLast (habove last List.mem_cons_self) hclimb (hlink rfl) hbefore
  · rw [Path.descend_of_ne hup]
    exact hkept

/-- The names of a path in normal form lead where the path leads, with no fewer links left. -/
lemma exists_locate_normalize {anchor : Anchor} {parts : List String}
    (hparts : ∀ part ∈ parts, Path.IsComponent part)
    (hclimbs : files.ClimbsDirectories { anchor, parts })
    (hgoal : locate files.root linkLimit [] (files.namesFromRoot { anchor, parts }) =
      .ok (left, place)) :
    ∃ more, locate files.root linkLimit []
      (files.namesFromRoot (Path.normalize { anchor, parts })) = .ok (left + more, place) := by
  -- on the last part: what is before it is in normal form and may have followed fewer links
  induction parts using List.reverseRecOn generalizing left place with
  | nil => exact ⟨0, hgoal⟩
  | append_singleton front part ih =>
    rw [namesFromRoot_append, locate_append] at hgoal
    obtain ⟨⟨links, before⟩, hfront, hpart⟩ := except_bind_eq_ok.mp hgoal
    have hfrontParts : ∀ other ∈ front, Path.IsComponent other := fun other hother =>
      hparts other (List.mem_append_left _ hother)
    obtain ⟨more, hbefore⟩ := ih hfrontParts hclimbs.of_append hfront
    have habove : ∀ last ∈ front.foldl (Path.descend anchor) [], Path.IsComponent last := by
      intro last hlast
      have hnormal : last ∈ (Path.normalize { anchor, parts := front }).parts :=
        List.mem_reverse.mpr hlast
      exact hfrontParts last (Path.mem_parts_of_mem_normalize hnormal)
    refine ⟨more, ?_⟩
    rw [Path.normalize, List.foldl_append]
    refine locate_descend habove ?_ hbefore (locate_add more hpart)
    rintro rfl
    exact hclimbs front [] rfl

/-- A path and its normal form lead to the same place, where no name of a link is taken back. -/
theorem placeOf_normalize {place : List String}
    (hparts : ∀ part ∈ path.parts, Path.IsComponent part) (hclimbs : files.ClimbsDirectories path)
    (hplace : files.placeOf path = .ok place) : files.placeOf path.normalize = .ok place := by
  obtain ⟨left, hgoal⟩ := placeOf_eq_ok_iff.mp hplace
  obtain ⟨more, hnormal⟩ := exists_locate_normalize hparts hclimbs hgoal
  exact placeOf_eq_ok_iff.mpr ⟨left + more, hnormal⟩

end FileSystem

end ImportRank
