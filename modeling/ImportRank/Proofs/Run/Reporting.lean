import ImportRank.Command.Execution
import ImportRank.Proofs.Source.Roots

/-!
# Failures that are told, and failures that escape

Discovery fails over a path, and then the command tells of it: it ends in exit code 1 with a line
of the path and the reason. Or a root refuses, with an ignore file that is no text or cannot be
read, with a pattern that means nothing or with a name that is too long. What is raised then names
no path, and the command does not come to an end: it passes the error on.

Main statement: `execute_tells_failures`.
-/

namespace ImportRank

/-! ## How discovery fails -/

namespace Module

variable {workspace : Workspace} {search : SearchOptions} {roots : List String} {error : Error}
  {before : List Event}

/-- The failures of discovery that are over a path: without a root there is nothing to search, a
root leads nowhere, or a file that was found cannot be read. -/
inductive OverPath (workspace : Workspace) (search : SearchOptions) (roots : List String) :
    Error → Prop
  | noRoots (hroots : roots = []) :
      OverPath workspace search roots (.discovery "." "no paths to search")
  | nowhere {root : String} (hreaches : Search.Reaches workspace search roots root)
      (hnowhere : Search.LeadsNowhere workspace root) :
      OverPath workspace search roots (.discovery root "no such file or directory")
  | unreadable {found : List SourceFile} {error : Error}
      (hfound : Search.search workspace search roots = .ok found)
      (hread : Unreadable workspace.files found error) : OverPath workspace search roots error

/-- What escapes discovery: the error that a root refuses with, where nothing is raised over the
roots before it. -/
def Escapes (workspace : Workspace) (search : SearchOptions) (roots : List String)
    (error : Error) : Prop :=
  ∃ root, Search.Reaches workspace search roots root ∧
    Search.RootRefuses workspace search root error

lemma OverPath.exists_eq_discovery (hover : OverPath workspace search roots error) :
    ∃ path reason, error = .discovery path reason := by
  cases hover with
  | noRoots hroots => exact ⟨_, _, rfl⟩
  | nowhere hreaches hnowhere => exact ⟨_, _, rfl⟩
  | unreadable hfound hread =>
    obtain ⟨_, file, _, fault, -, -, -, rfl⟩ := hread
    exact ⟨_, _, rfl⟩

lemma Escapes.refused (hescapes : Escapes workspace search roots error) :
    Search.Refused error := by
  obtain ⟨root, -, hrefuses⟩ := hescapes
  exact hrefuses.refused

/-- A refusal names no path. -/
lemma Escapes.ne_discovery (hescapes : Escapes workspace search roots error)
    (path reason : String) : error ≠ .discovery path reason := by
  cases hescapes.refused with
  | rules failure => cases failure <;> simp [Ignore.Failure.error]
  | _ => simp

/-- Where a search returns, no name on the way to a root is too long, and so the directories of
imports are told. -/
lemma exists_importRoots_of_search {found : List SourceFile}
    (hfound : Search.search workspace search roots = .ok found) :
    ∃ importing, importRoots workspace.files roots = .ok importing := by
  cases himports : importRoots workspace.files roots with
  | ok importing => exact ⟨importing, rfl⟩
  | error fault =>
    obtain ⟨⟨root, hmem, hfind⟩, -⟩ := eq_nameTooLong_of_importRoots himports
    exact absurd hfound (Search.search_ne_ok_of_missing hmem (by simp [hfind]))

/-- Discovery stops where its search fails, with nothing told. -/
lemma stops_discover_of_search (hsearch : Search.search workspace search roots = .error error) :
    (discover workspace search roots).Stops before error before := by
  unfold discover
  rw [hsearch]
  exact Run.stops_mk_pure.bind

/-- A search fails for want of a root, at a root that leads nowhere, or with what escapes. -/
lemma search_eq_error_iff_escapes :
    Search.search workspace search roots = .error error ↔
      (roots = [] ∧ error = .discovery "." "no paths to search") ∨
        (∃ root, Search.Reaches workspace search roots root ∧ Search.LeadsNowhere workspace root ∧
          error = .discovery root "no such file or directory") ∨
        Escapes workspace search roots error := by
  rcases eq_or_ne roots [] with rfl | hroots
  · have hnone : ∀ root, ¬ Search.Reaches workspace search [] root :=
      fun root hreaches => List.not_mem_nil hreaches.mem
    have hsearch : Search.search workspace search [] =
        .error (.discovery "." "no paths to search") := rfl
    simp [hsearch, hnone, Escapes, eq_comm]
  · simp only [Search.search_eq_error_iff hroots, Search.searchRoot_eq_error_iff, and_or_left,
      exists_or, hroots, false_and, false_or, Escapes]

/-- Discovery fails over a path, or with what escapes it, and with nothing else. -/
lemma fails_discover_iff_overPath :
    (discover workspace search roots).Fails before error ↔
      OverPath workspace search roots error ∨ Escapes workspace search roots error := by
  rw [fails_discover_iff, search_eq_error_iff_escapes]
  constructor
  · rintro ((⟨hroots, rfl⟩ | ⟨root, hreaches, hnowhere, rfl⟩ | hescapes) |
      ⟨found, hfound, ⟨fault, hfault, -⟩ | ⟨importing, -, hread⟩⟩)
    · exact Or.inl (.noRoots hroots)
    · exact Or.inl (.nowhere hreaches hnowhere)
    · exact Or.inr hescapes
    · obtain ⟨importing, himporting⟩ := exists_importRoots_of_search hfound
      exact absurd (hfault.symm.trans himporting) (by simp)
    · exact Or.inl (.unreadable hfound hread)
  · rintro (hover | hescapes)
    · cases hover with
      | noRoots hroots => exact Or.inl (Or.inl ⟨hroots, rfl⟩)
      | nowhere hreaches hnowhere => exact Or.inl (Or.inr (Or.inl ⟨_, hreaches, hnowhere, rfl⟩))
      | unreadable hfound hread =>
        obtain ⟨importing, himporting⟩ := exists_importRoots_of_search hfound
        exact Or.inr ⟨_, hfound, Or.inr ⟨importing, himporting, hread⟩⟩
    · exact Or.inl (Or.inr (Or.inr hescapes))

/-- Discovery returns modules or names a path exactly where nothing escapes it. -/
lemma not_escapes_iff :
    (∀ error, ¬ Escapes workspace search roots error) ↔
      (∃ modules after, (discover workspace search roots).Ends before modules after) ∨
        ∃ path reason after,
          (discover workspace search roots).Stops before (.discovery path reason) after := by
  constructor
  · intro hnone
    by_cases hfails : ∃ error, (discover workspace search roots).Fails before error
    · obtain ⟨error, hfails⟩ := hfails
      have hover := (fails_discover_iff_overPath.mp hfails).resolve_right (hnone error)
      obtain ⟨path, reason, rfl⟩ := hover.exists_eq_discovery
      exact Or.inr ⟨path, reason, hfails.exists_stops⟩
    · exact Or.inl (Run.exists_ends_of_not_fails (not_exists.mp hfails))
  · rintro hanswers error hescapes
    have hfails : (discover workspace search roots).Fails before error :=
      fails_discover_iff_overPath.mpr (Or.inr hescapes)
    rcases hanswers with ⟨modules, after, hends⟩ | ⟨path, reason, after, hstops⟩
    · exact hends.not_fails hfails
    · exact hescapes.ne_discovery path reason (Except.error.inj (hfails.symm.trans hstops.fails))

end Module

/-! ## Commands -/

namespace Command

variable {workspace : Workspace} {words : List String} {command : Command} {limit : Option Int}
  {error : Error} {told : List Event}

/-- The words of a command line ask for a run: they are read as a command, its limit is a number,
and if it names a language that language is known. -/
structure Asks (words : List String) (command : Command) (limit : Option Int) : Prop where
  read : readWords plain none words = some command
  number : command.limit? = some limit
  known : ∀ language, command.language = some language →
    language = "" ∨ (Language.ofName? language).isSome

lemma Asks.execute_eq (hasks : Asks words command limit) :
    execute workspace words = run workspace command limit := by
  simp only [execute, hasks.read, hasks.number]
  cases hlanguage : command.language with
  | none => rfl
  | some language => exact if_pos (hasks.known language hlanguage)

lemma runOptions_roots_ne_nil (command : Command) : command.runOptions.roots ≠ [] := by
  unfold runOptions
  split
  · exact List.cons_ne_nil _ _
  · simpa using ‹¬ command.roots.isEmpty = true›

/-- The discovery of the modules that a command asks for. -/
def discovery (workspace : Workspace) (command : Command) : Run (List Module) :=
  Module.discover workspace command.runOptions.search command.runOptions.roots

/-- Where the discovery of a command stops, the error is told or is passed on. -/
lemma run_of_stops (hstops : (discovery workspace command).Stops [] error told) :
    run workspace command limit =
      if isTold error then
        .ok { code := 1, report := "",
              messages := eventText command.verbose told ++ "Error: " ++ error.message ++ "\n" }
      else .error error := by
  have hrun : (rankWorkspace workspace command.runOptions).result = (.error error, told) :=
    stops_rankWorkspace_of_discover (runOptions_roots_ne_nil command) hstops
  unfold run
  rw [hrun]
  rfl

lemma isTold_eq_false_of_refused (hrefused : Search.Refused error) : isTold error = false := by
  cases hrefused with
  | rules failure => cases failure <;> rfl
  | _ => rfl

end Command

/-- How discovery fails in a workspace and what its commands make of it. -/
structure TellsFailures (workspace : Workspace) : Prop where
  /-- Discovery fails over a path or with what escapes it. -/
  fails : ∀ search roots error, (Module.discover workspace search roots).Fails [] error ↔
    Module.OverPath workspace search roots error ∨ Module.Escapes workspace search roots error
  /-- It returns modules or names a path exactly where nothing escapes it. -/
  answers : ∀ search roots, (∀ error, ¬ Module.Escapes workspace search roots error) ↔
    (∃ modules told, (Module.discover workspace search roots).result = (.ok modules, told)) ∨
      ∃ path reason told, (Module.discover workspace search roots).result =
        (.error (.discovery path reason), told)
  /-- A failure over a path names the path and a reason. -/
  named : ∀ search roots error, Module.OverPath workspace search roots error →
    ∃ path reason, error = .discovery path reason
  /-- What escapes is a refusal, which names no path. -/
  unnamed : ∀ search roots error, Module.Escapes workspace search roots error →
    Search.Refused error ∧ ∀ path reason, error ≠ .discovery path reason
  /-- A command tells of a failure over a path, after what discovery has told. -/
  told : ∀ words command limit, Command.Asks words command limit → ∀ path reason events,
    (command.discovery workspace).result = (.error (.discovery path reason), events) →
      Command.execute workspace words =
        .ok { code := 1, report := "",
              messages := Command.eventText command.verbose events ++
                "Error: " ++ (path ++ ": " ++ reason) ++ "\n" }
  /-- What escapes discovery is told by no command. -/
  passed : ∀ words command limit, Command.Asks words command limit → ∀ error,
    Module.Escapes workspace command.runOptions.search command.runOptions.roots error →
      Command.execute workspace words = .error error

/-- Failures over a path are told; what a root refuses with escapes and is passed on. -/
theorem execute_tells_failures (workspace : Workspace) : TellsFailures workspace where
  fails _ _ _ := Module.fails_discover_iff_overPath
  answers _ _ := Module.not_escapes_iff
  named _ _ _ hover := hover.exists_eq_discovery
  unnamed _ _ _ hescapes := ⟨hescapes.refused, hescapes.ne_discovery⟩
  told words command limit hasks path reason events hstops := by
    rw [hasks.execute_eq, Command.run_of_stops hstops]
    rfl
  passed words command limit hasks error hescapes := by
    have hfails : (command.discovery workspace).Fails [] error :=
      Module.fails_discover_iff_overPath.mpr (Or.inr hescapes)
    obtain ⟨events, hstops⟩ := hfails.exists_stops
    rw [hasks.execute_eq, Command.run_of_stops hstops,
      Command.isTold_eq_false_of_refused hescapes.refused]
    rfl

/-! ## A project whose ignore file is no text -/

/-- The bytes of an ignore file that is not UTF-8. -/
def garbledRules : List UInt8 := [0xFF, 0x0A]

def garbledEntries : List (String × FileTree) :=
  [(".gitignore", .file garbledRules), ("a.py", .file "x = 1\n".toUTF8.toList)]

/-- A source file beside that ignore file, under no version control. -/
def garbledProject : Workspace :=
  { files := { root := .directory garbledEntries, workingDirectory := [] }
    answer := fun _ => .unavailable }

/-- Words without a dash ask for a run over them as roots. -/
lemma asks_plain :
    Command.Asks [] Command.plain none ∧
    Command.Asks ["nope"] { Command.plain with roots := ["nope"] } none := by
  constructor <;> exact ⟨by decide +kernel, by decide +kernel, by simp [Command.plain]⟩

lemma find_garbled :
    garbledProject.files.find (Path.ofString ".") = .ok (.directory garbledEntries) ∧
    garbledProject.files.find ((Path.ofString ".").child ".gitignore") = .ok (.file garbledRules) ∧
    garbledProject.files.find ((Path.ofString ".").child ".git") = .error .missing ∧
    garbledProject.files.find (Path.ofString "nope") = .error .missing := by
  have hpaths : (Path.ofString ".").anchor = .relative ∧ (Path.ofString ".").parts = [] ∧
      Path.ofString "nope" = { anchor := .relative, parts := ["nope"] } := by
    decide +kernel
  have hshort : ∀ name ∈ [".gitignore", ".git", "nope"],
      ¬ FileSystem.nameLimit < name.utf8ByteSize := by
    decide +kernel
  simp only [List.forall_mem_cons] at hshort
  simp [FileSystem.find, FileSystem.walk, garbledProject, garbledEntries, FileTree.entry?,
    List.lookup_cons, Path.child, hpaths, hshort]

/-- At the top of that project a search is refused over the ignore file. -/
lemma escapes_garbled (search : SearchOptions) :
    Module.Escapes garbledProject search ["."] .undecodable := by
  obtain ⟨htop, hrules, hmarker, -⟩ := find_garbled
  have hbytes : Text.decode? garbledRules = none := by decide +kernel
  refine ⟨".", ⟨[], [], rfl, by simp⟩, .filters htop ?_⟩
  exact .ignoreFile (Search.listing?_of_missing hmarker) (.undecodable hrules hbytes)

lemma stops_discovery_garbled :
    (Command.plain.discovery garbledProject).Stops [] .undecodable [] ∧
    (Command.discovery garbledProject { Command.plain with roots := ["nope"] }).Stops []
      (.discovery "nope" "no such file or directory") [] := by
  have hnowhere : Search.LeadsNowhere garbledProject "nope" :=
    ⟨.missing, find_garbled.2.2.2, by decide⟩
  constructor
  · exact Module.stops_discover_of_search
      (Module.search_eq_error_iff_escapes.mpr (Or.inr (Or.inr (escapes_garbled _))))
  · exact Module.stops_discover_of_search (Module.search_eq_error_iff_escapes.mpr
      (Or.inr (Or.inl ⟨"nope", ⟨[], [], rfl, by simp⟩, hnowhere, rfl⟩)))

/-- A root that leads nowhere is told, whatever the ignore file. -/
theorem execute_tells_failures_nope :
    Command.execute garbledProject ["nope"] =
      .ok { code := 1, report := "", messages := "Error: nope: no such file or directory\n" } := by
  have hmessages : Command.eventText false [] ++ "Error: " ++
      ("nope" ++ ": " ++ "no such file or directory") ++ "\n" =
        "Error: nope: no such file or directory\n" := by
    decide +kernel
  rw [← hmessages]
  exact (execute_tells_failures garbledProject).told _ _ _ asks_plain.2 _ _ _
    stops_discovery_garbled.2

/-- But the ignore file itself is told of by no message and no exit code. -/
theorem not_execute_tells_failures :
    Command.Asks [] Command.plain none ∧
    (Command.plain.discovery garbledProject).result = (.error .undecodable, []) ∧
    (∀ path reason, Error.undecodable ≠ .discovery path reason) ∧
    Command.execute garbledProject [] = .error .undecodable := by
  refine ⟨asks_plain.1, stops_discovery_garbled.1, by simp, ?_⟩
  rw [asks_plain.1.execute_eq, Command.run_of_stops stops_discovery_garbled.1]
  rfl

end ImportRank
