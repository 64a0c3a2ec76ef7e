import ImportRank.Proofs.Run.Outcome
import ImportRank.Run

/-!
# Runs that end in an error

A run that ends in an error got through some of its parts and failed at the next. The lemmas here
say which errors each part can fail with: a module where its file cannot be read, a count where a
file cannot be counted, the solver where it does not converge.
-/

namespace ImportRank

/-! ## Errors as values -/

section Except

variable {ε β γ : Type}

lemma except_bind_eq_error {first : Except ε β} {next : β → Except ε γ} {error : ε} :
    (first >>= next) = .error error ↔
      first = .error error ∨ ∃ between, first = .ok between ∧ next between = .error error := by
  cases first <;> simp [bind, Except.bind]

lemma except_pure_ne_error {value : β} {error : ε} : (pure value : Except ε β) ≠ .error error := by
  simp [pure, Except.pure]

lemma mapError_eq_error {δ : Type} {first : Except ε β} {report : ε → δ} {error : δ} :
    first.mapError report = .error error ↔
      ∃ cause, first = .error cause ∧ report cause = error := by
  cases first <;> simp [Except.mapError]

/-- The first of some inputs that is not well is the one at the front, or this one is well and it is
the first of the others. -/
lemma exists_first_cons {well ill : β → Prop} {first : β} {inputs : List β} :
    (∃ front input rest, first :: inputs = front ++ input :: rest ∧
        (∀ other ∈ front, well other) ∧ ill input) ↔
      ill first ∨ well first ∧ ∃ front input rest, inputs = front ++ input :: rest ∧
        (∀ other ∈ front, well other) ∧ ill input := by
  constructor
  · rintro ⟨front, input, rest, hsplit, hfront, hinput⟩
    cases front with
    | nil =>
      obtain ⟨rfl, rfl⟩ := List.cons.inj hsplit
      exact Or.inl hinput
    | cons other front =>
      obtain ⟨rfl, rfl⟩ := List.cons.inj hsplit
      obtain ⟨hfirst, hfront⟩ := List.forall_mem_cons.mp hfront
      exact Or.inr ⟨hfirst, front, input, rest, rfl, hfront, hinput⟩
  · rintro (hfirst | ⟨hfirst, front, input, rest, rfl, hfront, hinput⟩)
    · exact ⟨[], first, inputs, rfl, by simp, hfirst⟩
    · exact ⟨first :: front, input, rest, rfl, List.forall_mem_cons.mpr ⟨hfirst, hfront⟩, hinput⟩

/-- Parts that are gone through one after the other fail as the first does that fails. -/
lemma mapM_eq_error_iff {part : β → Except ε γ} {inputs : List β} {error : ε} :
    inputs.mapM part = .error error ↔
      ∃ front input rest, inputs = front ++ input :: rest ∧
        (∀ other ∈ front, ∃ value, part other = .ok value) ∧ part input = .error error := by
  induction inputs with
  | nil => simp [except_pure_ne_error]
  | cons first inputs ih =>
    rw [List.mapM_cons, except_bind_eq_error, exists_first_cons, ← ih]
    simp only [except_bind_eq_error, except_pure_ne_error, and_false, exists_false, or_false,
      exists_and_right]

lemma exists_of_foldlM_eq_error {step : γ → β → Except ε γ} {start : γ} {inputs : List β}
    {error : ε} (hfails : inputs.foldlM step start = .error error) :
    ∃ input ∈ inputs, ∃ between, step between input = .error error := by
  induction inputs generalizing start with
  | nil => exact absurd hfails except_pure_ne_error
  | cons input inputs ih =>
    rw [List.foldlM_cons, except_bind_eq_error] at hfails
    rcases hfails with hfirst | ⟨next, -, hrest⟩
    · exact ⟨input, List.mem_cons_self, start, hfirst⟩
    · obtain ⟨other, hother, hfailing⟩ := ih hrest
      exact ⟨other, List.mem_cons_of_mem input hother, hfailing⟩

end Except

/-! ## Parts of a run -/

namespace Run

variable {β γ : Type} {before : List Event} {error : Error}

/-- The run ends in an error, with `before` told when it starts. -/
def Fails (run : Run β) (before : List Event) (error : Error) : Prop :=
  (run before : Except Error β × List Event).1 = .error error

lemma fails_bind {run : Run β} {next : β → Run γ} :
    (run >>= next).Fails before error ↔
      run.Fails before error ∨
        ∃ first between, run.Ends before first between ∧ (next first).Fails between error := by
  -- the cases are on a pair in place of `run before`, whose type is one only after unfolding
  have hstart : ∀ start : Except Error β × List Event,
      (ExceptT.bindCont next start.1 start.2 : Except Error γ × List Event).1 = .error error ↔
        start.1 = .error error ∨
          ∃ first between, start = (.ok first, between) ∧ (next first).Fails between error := by
    rintro ⟨failure | first, between⟩
    · show (Except.error failure : Except Error γ) = .error error ↔ _
      simp
    · show (next first).Fails between error ↔ _
      simp
  exact hstart (run before)

/-- The run ends in an error, with `before` told when it starts and `after` when it ends. -/
def Stops (run : Run β) (before : List Event) (error : Error) (after : List Event) : Prop :=
  (run before : Except Error β × List Event) = (.error error, after)

lemma Stops.fails {run : Run β} {after : List Event} (hstops : run.Stops before error after) :
    run.Fails before error :=
  congrArg Prod.fst hstops

lemma Fails.exists_stops {run : Run β} (hfails : run.Fails before error) :
    ∃ after, run.Stops before error after :=
  ⟨(run before : Except Error β × List Event).2, Prod.ext hfails rfl⟩

lemma stops_mk_pure :
    Stops (ExceptT.mk (pure (.error error) : StateM (List Event) (Except Error β)))
      before error before :=
  rfl

/-- Where a part stops, so does the run. -/
lemma Stops.bind {run : Run β} {next : β → Run γ} {after : List Event}
    (hstops : run.Stops before error after) : (run >>= next).Stops before error after := by
  -- as above, the cases are on a pair in place of `run before`
  have hstart : ∀ start : Except Error β × List Event, start = (.error error, after) →
      (ExceptT.bindCont next start.1 start.2 : Except Error γ × List Event) =
        (.error error, after) := by
    rintro _ rfl
    rfl
  exact hstart (run before) hstops

lemma not_fails_pure {value : β} : ¬ (pure value : Run β).Fails before error := by
  show (Except.ok value : Except Error β) ≠ .error error
  simp

lemma not_fails_tell {event : Event} : ¬ (tell event).Fails before error := by
  show (Except.ok () : Except Error Unit) ≠ .error error
  simp

lemma fails_throw {failure : Error} :
    (throw failure : Run β).Fails before error ↔ failure = error := by
  show (Except.error failure : Except Error β) = .error error ↔ _
  simp

lemma fails_mk_pure {outcome : Except Error β} :
    Fails (ExceptT.mk (pure outcome)) before error ↔ outcome = .error error :=
  Iff.rfl

/-- A part that tells of an event and ends does not fail. -/
lemma not_fails_tell_pure {event : Event} {value : β} :
    ¬ (do tell event; return value : Run β).Fails before error := by
  intro hfails
  rcases fails_bind.mp hfails with htell | ⟨_, _, -, hpure⟩
  · exact not_fails_tell htell
  · exact not_fails_pure hpure

/-- A run that may have told of an event first fails as it does without. -/
lemma exists_fails_of_ite_tell {condition : Prop} [Decidable condition] {event : Event}
    {run : Run β}
    (hfails : (if condition then do tell event; run else run).Fails before error) :
    ∃ between, run.Fails between error := by
  split at hfails
  · rcases fails_bind.mp hfails with htell | ⟨_, between, -, hrun⟩
    · exact absurd htell not_fails_tell
    · exact ⟨between, hrun⟩
  · exact ⟨before, hfails⟩

/-- Runs over the members of a list fail where one of them does. -/
theorem exists_fails_of_mapM {part : β → Run γ} {inputs : List β}
    (hfails : (inputs.mapM part).Fails before error) :
    ∃ input ∈ inputs, ∃ between, (part input).Fails between error := by
  induction inputs generalizing before with
  | nil => exact absurd hfails not_fails_pure
  | cons input inputs ih =>
    rw [List.mapM_cons, fails_bind] at hfails
    rcases hfails with hfirst | ⟨value, between, -, hrest⟩
    · exact ⟨input, List.mem_cons_self, before, hfirst⟩
    · rcases fails_bind.mp hrest with hlater | ⟨values, _, -, hpure⟩
      · obtain ⟨other, hother, hfailing⟩ := ih hlater
        exact ⟨other, List.mem_cons_of_mem input hother, hfailing⟩
      · exact absurd hpure not_fails_pure

lemma exists_ends_of_not_fails {run : Run β} (hruns : ∀ error, ¬ run.Fails before error) :
    ∃ value after, run.Ends before value after := by
  -- as above, the cases are on a pair in place of `run before`
  have hstart : ∀ start : Except Error β × List Event, (∀ error, start.1 ≠ .error error) →
      ∃ value after, start = (.ok value, after) := by
    rintro ⟨failure | value, after⟩ hruns
    · exact absurd rfl (hruns failure)
    · exact ⟨value, after, rfl⟩
  exact hstart (run before) hruns

lemma Ends.not_fails {run : Run β} {value : β} {after : List Event}
    (hends : run.Ends before value after) : ¬ run.Fails before error := by
  intro hfails
  have hvalue : (run before : Except Error β × List Event).1 = .ok value := congrArg Prod.fst hends
  exact absurd (hvalue.symm.trans hfails) (by simp)

/-- Where the failing of a part does not depend on what was told before, runs over the members of a
list fail at the first member that fails. -/
theorem fails_mapM_iff {part : β → Run γ} {failsWith : β → Error → Prop}
    (hpart : ∀ input between failure,
      (part input).Fails between failure ↔ failsWith input failure) {inputs : List β} :
    (inputs.mapM part).Fails before error ↔
      ∃ front input rest, inputs = front ++ input :: rest ∧
        (∀ other ∈ front, ∀ failure, ¬ failsWith other failure) ∧ failsWith input error := by
  induction inputs generalizing before with
  | nil => simp [not_fails_pure]
  | cons first inputs ih =>
    rw [List.mapM_cons, fails_bind, exists_first_cons, hpart]
    refine or_congr_right ⟨?_, ?_⟩
    · rintro ⟨value, between, hends, hrest⟩
      rcases fails_bind.mp hrest with hlater | ⟨values, _, -, hpure⟩
      · refine ⟨fun failure hfailure => ?_, ih.mp hlater⟩
        exact hends.not_fails ((hpart first before failure).mpr hfailure)
      · exact absurd hpure not_fails_pure
    · rintro ⟨hfirst, hlater⟩
      obtain ⟨value, between, hends⟩ := exists_ends_of_not_fails fun failure hfails =>
        hfirst failure ((hpart first before failure).mp hfails)
      exact ⟨value, between, hends, fails_bind.mpr (Or.inl (ih.mpr hlater))⟩

end Run

/-! ## Modules -/

namespace Module

variable {before : List Event} {error : Error} {workspace : Workspace} {search : SearchOptions}
  {roots : List String}

lemma not_fails_dependenciesOf {resolver : Resolver} {file : SourceFile} {record : Import} :
    ¬ (dependenciesOf resolver file record).Fails before error := by
  intro hfails
  unfold dependenciesOf at hfails
  obtain ⟨between, hvalue⟩ := Run.exists_fails_of_ite_tell hfails
  exact Run.not_fails_pure hvalue

/-- A module fails where its file cannot be read, and then it names the file. -/
theorem fails_ofFile_iff {resolver : Resolver} {file : SourceFile} :
    (ofFile workspace resolver file).Fails before error ↔
      ∃ fault, workspace.files.read (Path.ofString file.key) = .error fault ∧
        error = .discovery file.key (fault.report file.key) := by
  unfold ofFile
  cases workspace.files.read (Path.ofString file.key) with
  | error fault => simp [Run.fails_throw, eq_comm]
  | ok bytes =>
    simp only [reduceCtorEq, false_and, exists_false, iff_false]
    intro hfails
    obtain ⟨between, hrest⟩ := Run.exists_fails_of_ite_tell hfails
    rcases Run.fails_bind.mp hrest with hrecords | ⟨_, _, -, hpure⟩
    · obtain ⟨record, -, _, hrecord⟩ := Run.exists_fails_of_mapM hrecords
      exact not_fails_dependenciesOf hrecord
    · exact Run.not_fails_pure hpure

/-- The first of some files that cannot be read, with the error that names it. -/
def Unreadable (files : FileSystem) (found : List SourceFile) (error : Error) : Prop :=
  ∃ front file rest fault, found = front ++ file :: rest ∧
    (∀ other ∈ front, ∃ bytes, files.read (Path.ofString other.key) = .ok bytes) ∧
      files.read (Path.ofString file.key) = .error fault ∧
        error = .discovery file.key (fault.report file.key)

lemma fails_mapM_ofFile_iff {resolver : Resolver} {found : List SourceFile} :
    (found.mapM (ofFile workspace resolver)).Fails before error ↔
      Unreadable workspace.files found error := by
  have hread : ∀ file : SourceFile,
      (∀ failure : Error, ¬ ∃ fault, workspace.files.read (Path.ofString file.key) = .error fault ∧
        failure = .discovery file.key (fault.report file.key)) ↔
      ∃ bytes, workspace.files.read (Path.ofString file.key) = .ok bytes := by
    intro file
    cases workspace.files.read (Path.ofString file.key) <;> simp
  rw [Run.fails_mapM_iff fun _ _ _ => fails_ofFile_iff]
  simp only [hread, Unreadable]
  constructor
  · rintro ⟨front, file, rest, hsplit, hfront, fault, hfault, herror⟩
    exact ⟨front, file, rest, fault, hsplit, hfront, hfault, herror⟩
  · rintro ⟨front, file, rest, fault, hsplit, hfront, hfault, herror⟩
    exact ⟨front, file, rest, hsplit, hfront, fault, hfault, herror⟩

/-- Discovery fails as its search does, where the directories of imports cannot be told, or at the
first file that it has found and cannot read. -/
theorem fails_discover_iff :
    (discover workspace search roots).Fails before error ↔
      Search.search workspace search roots = .error error ∨
        ∃ found, Search.search workspace search roots = .ok found ∧
          ((∃ fault, importRoots workspace.files roots = .error fault ∧ error = .fault fault) ∨
            ∃ importing, importRoots workspace.files roots = .ok importing ∧
              Unreadable workspace.files found error) := by
  unfold discover
  constructor
  · intro hfails
    rcases Run.fails_bind.mp hfails with hsearch | ⟨found, _, hsearch, hfails⟩
    · exact Or.inl (Run.fails_mk_pure.mp hsearch)
    refine Or.inr ⟨found, (Run.ends_mk_pure.mp hsearch).1, ?_⟩
    rcases Run.fails_bind.mp hfails with himports | ⟨importing, _, himports, hfails⟩
    · obtain ⟨fault, hfault, herror⟩ := mapError_eq_error.mp (Run.fails_mk_pure.mp himports)
      exact Or.inl ⟨fault, hfault, herror.symm⟩
    refine Or.inr ⟨importing, mapError_eq_ok.mp (Run.ends_mk_pure.mp himports).1, ?_⟩
    rcases Run.fails_bind.mp hfails with hfiles | ⟨_, _, -, hfails⟩
    · exact fails_mapM_ofFile_iff.mp hfiles
    · exact absurd hfails Run.not_fails_tell_pure
  · rintro (hsearch | ⟨found, hsearch, himports⟩)
    · exact Run.fails_bind.mpr (Or.inl (Run.fails_mk_pure.mpr hsearch))
    refine Run.fails_bind.mpr (Or.inr ⟨found, before, Run.ends_mk_pure.mpr ⟨hsearch, rfl⟩, ?_⟩)
    rcases himports with ⟨fault, hfault, rfl⟩ | ⟨importing, himporting, hfiles⟩
    · exact Run.fails_bind.mpr
        (Or.inl (Run.fails_mk_pure.mpr (mapError_eq_error.mpr ⟨fault, hfault, rfl⟩)))
    refine Run.fails_bind.mpr (Or.inr ⟨importing, before,
      Run.ends_mk_pure.mpr ⟨mapError_eq_ok.mpr himporting, rfl⟩, ?_⟩)
    exact Run.fails_bind.mpr (Or.inl (fails_mapM_ofFile_iff.mpr hfiles))

/-- Discovery fails at a first file that cannot be read. -/
lemma fails_discover_of_read {importing : List String} {file : SourceFile} {files : List SourceFile}
    {fault : Fault} (hfound : Search.search workspace search roots = .ok (file :: files))
    (himporting : importRoots workspace.files roots = .ok importing)
    (hread : workspace.files.read (Path.ofString file.key) = .error fault) :
    (discover workspace search roots).Fails before
      (.discovery file.key (fault.report file.key)) :=
  fails_discover_iff.mpr (Or.inr ⟨_, hfound, Or.inr
    ⟨importing, himporting, [], file, files, fault, rfl, by simp, hread, rfl⟩⟩)

/-- Finding modules fails without a root, or as their discovery does. -/
lemma fails_find {discover : List String → Run (List Module)} {extensions : Option (List String)}
    (hfails : (find discover roots extensions).Fails before error) :
    roots = [] ∧ error = .discovery "." "no paths to search" ∨
      (discover roots).Fails before error := by
  unfold find keepWanted at hfails
  split at hfails
  · rename_i hnone
    rcases Run.fails_bind.mp hfails with hthrow | ⟨_, _, hthrow, -⟩
    · exact Or.inl ⟨List.isEmpty_iff.mp hnone, (Run.fails_throw.mp hthrow).symm⟩
    · exact absurd hthrow Run.not_ends_throw
  · rcases Run.fails_bind.mp hfails with hdiscover | ⟨_, _, -, hfails⟩
    · exact Or.inr hdiscover
    exact absurd hfails Run.not_fails_tell_pure

end Module

/-! ## Candidates -/

namespace Candidate

variable {α : Type} [Arithmetic α] {before : List Event} {error : Error} {files : FileSystem}
  {options : RunOptions} {discover : List String → Run (List Module)}

/-- Gathering fails as the search for modules does, or where one of them cannot be counted. -/
theorem fails_gather
    (hfails : (gather files options discover : Run (List (Candidate α))).Fails before error) :
    (Module.find discover options.roots options.extensions).Fails before error ∨
      ∃ modules between,
        (Module.find discover options.roots options.extensions).Ends before modules between ∧
          (if options.pooled then files.countInPool id (modules.map Module.key)
            else files.countEach (modules.map Module.key)) = .error error := by
  unfold gather build at hfails
  rcases Run.fails_bind.mp hfails with hfind | ⟨modules, between, hfind, hfails⟩
  · exact Or.inl hfind
  rcases Run.fails_bind.mp hfails with hcounts | ⟨_, _, -, hfails⟩
  · exact Or.inr ⟨modules, between, hfind, Run.fails_mk_pure.mp hcounts⟩
  exact absurd hfails Run.not_fails_tell_pure

/-- The solver fails where it does not converge. -/
lemma exists_convergence_of_fails_weigh {settings : Settings Float}
    {candidates : List (Candidate Float)}
    (hfails : (weigh settings candidates).Fails before error) :
    ∃ iterations change, error = .convergence iterations change := by
  unfold weigh at hfails
  split at hfails
  · exact absurd hfails Run.not_fails_pure
  · dsimp only at hfails
    split at hfails
    · exact absurd hfails Run.not_fails_tell_pure
    · exact ⟨_, _, (Run.fails_throw.mp hfails).symm⟩

end Candidate

/-- A run fails as its candidates are gathered, or it does not converge. -/
theorem fails_rankModules {files : FileSystem} {options : RunOptions}
    {discover : List String → Run (List Module)} {before : List Event} {error : Error}
    (hfails : (rankModules files options discover).Fails before error) :
    (Candidate.gather files options discover : Run (List (Candidate Float))).Fails before error ∨
      ∃ iterations change, error = .convergence iterations change := by
  unfold rankModules at hfails
  rcases Run.fails_bind.mp hfails with hgather | ⟨_, _, -, hfails⟩
  · exact Or.inl hgather
  rcases Run.fails_bind.mp hfails with hweigh | ⟨_, _, -, hfails⟩
  · exact Or.inr (Candidate.exists_convergence_of_fails_weigh hweigh)
  split at hfails
  · exact absurd hfails Run.not_fails_pure
  · exact absurd hfails Run.not_fails_pure

/-- A run stops where the discovery of its modules does. -/
lemma stops_rankWorkspace_of_discover {workspace : Workspace} {options : RunOptions} {error : Error}
    {before after : List Event} (hroots : options.roots ≠ [])
    (hstops : (Module.discover workspace options.search options.roots).Stops before error after) :
    (rankWorkspace workspace options).Stops before error after := by
  unfold rankWorkspace rankModules Candidate.gather Module.find
  rw [if_neg (by simpa using hroots)]
  exact hstops.bind.bind.bind

lemma fails_rankWorkspace_of_discover {workspace : Workspace} {options : RunOptions} {error : Error}
    {before : List Event} (hroots : options.roots ≠ [])
    (hfails : (Module.discover workspace options.search options.roots).Fails before error) :
    (rankWorkspace workspace options).Fails before error := by
  obtain ⟨after, hstops⟩ := hfails.exists_stops
  exact (stops_rankWorkspace_of_discover hroots hstops).fails

end ImportRank
