import ImportRank.Proofs.Import.Scripts
import ImportRank.Proofs.Path.Climb

/-!
# Routes from file to file

A file is reached from another by going up to the last directory that both are below and from there
down by names. A script that imports the text of this route imports the file and no other: it is
what is asked for first. Main statement: `resolve_route`.
-/

namespace ImportRank.Path

variable {names shared above below : List String}

/-! ## The text of a route -/

/-- The text of a number of steps up, each with the slash after it. -/
def climbText (count : ℕ) : String := String.join (List.replicate count "../")

lemma components_climbText (count : ℕ) (rest : List Char) :
    components ((climbText count).toList ++ rest) =
      List.replicate count ".." ++ components rest := by
  induction count with
  | zero => rfl
  | succ count ih =>
    have hfirst : (climbText (count + 1)).toList ++ rest =
        "..".toList ++ '/' :: ((climbText count).toList ++ rest) := by
      simp [climbText, List.replicate_succ]
    rw [hfirst, components_append_slash, ih, List.replicate_succ]
    rfl

lemma ofString_climbText (count : ℕ) (hnames : ∀ part ∈ names, IsComponent part) :
    ofString ("./" ++ climbText count ++ "/".intercalate names) =
      { anchor := .relative, parts := List.replicate count ".." ++ names } := by
  have htext : ("./" ++ climbText count ++ "/".intercalate names).toList =
      ".".toList ++ '/' :: ((climbText count).toList ++ ("/".intercalate names).toList) := by
    simp
  rw [ofString, htext, components_append_slash, components_climbText, components_intercalate hnames]
  rfl

/-! ## The directory that two files are below -/

/-- The longest common beginning of two lists of components. -/
def commonParts : List String → List String → List String
  | a :: as, b :: bs => if a = b then a :: commonParts as bs else []
  | _, _ => []

/-- What two lists both begin with is a beginning of the longest. -/
lemma prefix_commonParts_iff {a b : List String} :
    shared <+: commonParts a b ↔ shared <+: a ∧ shared <+: b := by
  induction shared generalizing a b with
  | nil => simp
  | cons part shared ih =>
    cases a with
    | nil => simp [commonParts]
    | cons first a =>
      cases b with
      | nil => simp [commonParts]
      | cons other b =>
        rw [commonParts]
        split
        · rename_i hsame
          rw [← hsame]
          simp only [List.cons_prefix_cons, ih]
          tauto
        · rename_i hdiffer
          have hneither : ¬ (part = first ∧ part = other) := fun ⟨hfirst, hother⟩ =>
            hdiffer (hfirst.symm.trans hother)
          simp only [List.cons_prefix_cons, List.prefix_nil, reduceCtorEq, false_iff]
          tauto

/-- Up from below a directory and down from there is below the directory. -/
lemma normalize_join_route (habove : ".." ∉ shared ++ above) (hbelow : ".." ∉ below) :
    (join { anchor := .relative, parts := shared ++ above }
      { anchor := .relative, parts := List.replicate above.length ".." ++ below }).normalize =
        { anchor := .relative, parts := shared ++ below } := by
  have hform : Descended .relative (shared ++ above) 0 := ⟨habove, fun _ => rfl⟩
  have hreverse : ".." ∉ (shared ++ above).reverse := by rwa [List.mem_reverse]
  have hclimbs := foldl_descend_climbs_relative hreverse 0 above.length
  rw [List.replicate_zero, List.append_nil] at hclimbs
  have hjoin := hform.normalize_join (List.replicate above.length ".." ++ below)
  rw [rising, List.replicate_zero, List.nil_append] at hjoin
  rw [hjoin, List.foldl_append, List.append_nil, hclimbs, foldl_descend_names hbelow]
  simp

/-- The text that leads from the directory of a file to another file. -/
def routeText (importer target : Path) : String :=
  let shared := commonParts importer.parent.parts target.parent.parts
  "./" ++ climbText (importer.parent.parts.length - shared.length) ++
    "/".intercalate (target.parts.drop shared.length)

/-- The key of a file below the working directory. -/
structure IsInner (key : String) : Prop where
  normal : IsNormal key
  relative : (ofString key).anchor = .relative
  up_notMem : ".." ∉ (ofString key).parts

variable {importer target : Path}

/-- The route from a file leads to the other file. -/
lemma normalize_join_routeText (himporter : importer.anchor = .relative)
    (htarget : target.anchor = .relative) (himporterDown : ".." ∉ importer.parts)
    (htargetDown : ".." ∉ target.parts) (hparts : ∀ part ∈ target.parts, IsComponent part) :
    (importer.parent.join (ofString (routeText importer target))).normalize = target := by
  obtain ⟨shared, hshared⟩ : ∃ shared,
      commonParts importer.parent.parts target.parent.parts = shared := ⟨_, rfl⟩
  have hboth : shared <+: importer.parent.parts ∧ shared <+: target.parent.parts :=
    prefix_commonParts_iff.mp (hshared ▸ List.prefix_rfl)
  obtain ⟨⟨above, habove⟩, hwithin⟩ := hboth
  obtain ⟨below, hbelow⟩ := hwithin.trans (List.dropLast_prefix target.parts)
  have hroute : ofString (routeText importer target) =
      { anchor := .relative, parts := List.replicate above.length ".." ++ below } := by
    have hcount : importer.parent.parts.length - shared.length = above.length := by
      rw [← habove, List.length_append, Nat.add_sub_cancel_left]
    rw [routeText, hshared, hcount, ← hbelow, List.drop_left, ofString_climbText]
    intro part hpart
    exact hparts part (hbelow ▸ List.mem_append_right _ hpart)
  have hfrom : importer.parent = { anchor := .relative, parts := shared ++ above } := by
    rw [habove, ← himporter]
    rfl
  rw [hroute, hfrom, normalize_join_route, hbelow, ← htarget]
  · rw [habove]
    exact fun hup => himporterDown (List.dropLast_subset _ hup)
  · exact fun hup => htargetDown (hbelow ▸ List.mem_append_right _ hup)

end ImportRank.Path

namespace ImportRank.Resolver

open ImportRank.Path (IsInner IsNormal routeText)

variable {resolver : Resolver} {importer target : String} {language : Language} {record : Import}

/-- A script that imports the route to a file below the working directory imports that file,
whatever other files there are. -/
theorem resolve_route (himporter : IsInner importer) (htarget : IsInner target)
    (hkey : target ∈ resolver.keys) (hlanguage : language ≠ .python)
    (hspecifier : record.specifier = routeText (Path.ofString importer) (Path.ofString target)) :
    resolver.resolve importer language record = [target] := by
  have hpath : scriptPath importer record.specifier = Path.ofString target := by
    rw [hspecifier]
    exact Path.normalize_join_routeText himporter.relative htarget.relative himporter.up_notMem
      htarget.up_notMem fun part hpart => Path.isComponent_of_mem_components hpart
  have hrelative : isPathSpecifier record.specifier = true := by
    rw [hspecifier]
    simp [isPathSpecifier, routeText]
  have hscript : resolver.resolveScript importer record.specifier =
      (resolver.firstKey? (scriptCandidates target)).toList := by
    rw [resolveScript, if_pos hrelative, key_directoryOf himporter.normal, hpath,
      htarget.normal.toString_ofString]
  -- the file itself is the first of the keys that are asked for
  have hfirst : resolver.firstKey? (scriptCandidates target) = some target := by
    rw [firstKey?, scriptCandidates, List.cons_append,
      List.find?_cons_of_pos (List.contains_iff_mem.mpr hkey)]
  rw [hfirst] at hscript
  cases language with
  | python => exact absurd rfl hlanguage
  | javascript | typescript | tsx => exact hscript

/-- Files of two inner directories, with a file beside the one that is imported. -/
theorem resolve_route_cousins :
    IsInner "src/a/b/main.ts" ∧ IsInner "src/c/d.js" ∧
      routeText (Path.ofString "src/a/b/main.ts") (Path.ofString "src/c/d.js") = "./../../c/d.js" ∧
      Resolver.resolve ⟨["src/a/b/main.ts", "src/c/d.js.ts", "src/c/d.js"], []⟩ "src/a/b/main.ts"
        .typescript (.plain "./../../c/d.js") = ["src/c/d.js"] := by
  have hnormal : IsNormal "src/a/b/main.ts" ∧ IsNormal "src/c/d.js" := by
    unfold IsNormal
    decide +kernel
  have himporter : IsInner "src/a/b/main.ts" := ⟨hnormal.1, by decide +kernel, by decide +kernel⟩
  have htarget : IsInner "src/c/d.js" := ⟨hnormal.2, by decide +kernel, by decide +kernel⟩
  have hroute : routeText (Path.ofString "src/a/b/main.ts") (Path.ofString "src/c/d.js") =
      "./../../c/d.js" := by
    decide +kernel
  exact ⟨himporter, htarget, hroute,
    resolve_route himporter htarget (by decide) (by decide) hroute.symm⟩

end ImportRank.Resolver
