import ImportRank.Proofs.Rank.Received

/-!
# Linking again and again

Nothing resets the links and the outbound weight of a candidate, so each linking compounds what the
one before has left: shares and line counts are added up and scaled once more. What comes of it has
a closed form, `compounded`, which is a share of at most one however often a candidate is linked;
`LinkedTimes.linked` is the step from one linking to the next.
-/

namespace ImportRank.Candidate

/-! ## One linking on top of others -/

lemma valueAt_addLink (target key : String) (lines : ℤ) (links : List (String × Amount ℚ)) :
    valueAt (addLink target lines links) key =
      valueAt links key + if target = key then (lines : ℚ) else 0 := by
  induction links with
  | nil => simp [addLink, valueAt_cons, Amount.value]
  | cons link links ih =>
    obtain ⟨other, amount⟩ := link
    by_cases hother : other = target
    · subst hother
      rw [addLink, if_pos rfl, valueAt_cons, valueAt_cons]
      by_cases hkey : other = key
      · cases amount <;> simp [hkey, Amount.addLines, Amount.value]
      · simp [hkey]
    · rw [addLink, if_neg hother, valueAt_cons, valueAt_cons, ih]
      by_cases hkey : other = key
      · have htarget : target ≠ key := fun heq => hother (hkey.trans heq.symm)
        simp [hkey, htarget]
      · simp [hkey]

lemma map_fst_addLink {target : String} {links : List (String × Amount ℚ)}
    (htarget : target ∈ links.map Prod.fst) (lines : ℤ) :
    (addLink target lines links).map Prod.fst = links.map Prod.fst := by
  induction links with
  | nil => simp at htarget
  | cons link links ih =>
    obtain ⟨other, amount⟩ := link
    by_cases hother : other = target
    · rw [addLink, if_pos hother, List.map_cons, List.map_cons]
    · have hrest : target ∈ links.map Prod.fst := by
        rw [List.map_cons, List.mem_cons] at htarget
        exact htarget.resolve_left (Ne.symm hother)
      rw [addLink, if_neg hother, List.map_cons, List.map_cons, ih hrest]

/-- Every edge to a key puts its lines on the link to it. -/
lemma linkTo_foldl_addEdge (edges : List Edge) (candidate : Candidate ℚ) (key : String) :
    (edges.foldl addEdge candidate).linkTo key =
      candidate.linkTo key +
        (edges.map fun edge => if edge.target = key then (edge.lines : ℚ) else 0).sum := by
  induction edges generalizing candidate with
  | nil => simp
  | cons edge edges ih =>
    have hfirst : (candidate.addEdge edge).linkTo key =
        candidate.linkTo key + if edge.target = key then (edge.lines : ℚ) else 0 :=
      valueAt_addLink _ _ _ _
    rw [List.foldl_cons, ih, hfirst, List.map_cons, List.sum_cons, add_assoc]

/-- Edges to targets that have a link make no new one. -/
lemma targets_foldl_addEdge {edges : List Edge} {candidate : Candidate ℚ}
    (hknown : ∀ edge ∈ edges, edge.target ∈ candidate.links.map Prod.fst) :
    (edges.foldl addEdge candidate).links.map Prod.fst = candidate.links.map Prod.fst := by
  induction edges generalizing candidate with
  | nil => rfl
  | cons edge edges ih =>
    obtain ⟨hedge, hedges⟩ := List.forall_mem_cons.mp hknown
    have hfirst : (candidate.addEdge edge).links.map Prod.fst = candidate.links.map Prod.fst :=
      map_fst_addLink hedge edge.lines
    rw [List.foldl_cons, ih (by rwa [hfirst]), hfirst]

/-- Scaling divides all links by the outbound weight, if there is any. -/
lemma linkTo_scaleLinks (candidate : Candidate ℚ) (key : String) :
    candidate.scaleLinks.linkTo key =
      if 0 < candidate.outbound then candidate.linkTo key / candidate.outbound
      else candidate.linkTo key := by
  have hscaled : ∀ links : List (String × Amount ℚ),
      valueAt (links.map fun link =>
        (link.1, Amount.share (link.2.value / candidate.outbound))) key =
          valueAt links key / candidate.outbound := by
    intro links
    induction links with
    | nil => simp
    | cons link links ih =>
      obtain ⟨target, amount⟩ := link
      rw [List.map_cons, valueAt_cons, valueAt_cons, ih]
      split <;> rfl
  rw [scaleLinks]
  by_cases hpositive : 0 < candidate.outbound
  · rw [if_pos (by simpa using hpositive), if_pos hpositive]
    exact hscaled candidate.links
  · rw [if_neg (by simpa using hpositive), if_neg hpositive]

@[simp] lemma targets_scaleLinks (candidate : Candidate ℚ) :
    candidate.scaleLinks.links.map Prod.fst = candidate.links.map Prod.fst := by
  rw [scaleLinks]
  split
  · rw [List.map_map]
    rfl
  · rfl

/-- The weight that a candidate puts out in one linking: its lines, once for each dependency. -/
def outlay (candidate : Candidate ℚ) : ℚ := candidate.lines * candidate.dependencies.length

/-- What a linking makes of the link to a key, whatever the one before has left. -/
lemma linkTo_linked (candidate : Candidate ℚ) (key : String) :
    candidate.linked.linkTo key =
      if 0 < candidate.outbound + candidate.outlay then
        (candidate.linkTo key + candidate.dependencies.count key * candidate.lines) /
          (candidate.outbound + candidate.outlay)
      else candidate.linkTo key + candidate.dependencies.count key * candidate.lines := by
  have hedges : ((Graph.byTarget (Graph.edgesOf candidate)).map fun edge =>
      if edge.target = key then (edge.lines : ℚ) else 0).sum =
        candidate.dependencies.count key * candidate.lines := by
    rw [((perm_byTarget _).map _).sum_eq, Graph.edgesOf, List.map_map]
    show (candidate.dependencies.map fun target =>
      if target = key then (candidate.lines : ℚ) else 0).sum = _
    rw [List.sum_map_ite_eq]
    simp
  have houtbound := outbound_linked candidate
  rw [linked, outbound_scaleLinks] at houtbound
  rw [linked, linkTo_scaleLinks, houtbound, linkTo_foldl_addEdge, hedges, outlay]

lemma targets_linked_of_nil {candidate : Candidate ℚ} (hlinks : candidate.links = []) :
    candidate.linked.links.map Prod.fst = distinct candidate.dependencies := by
  rw [linked, targets_scaleLinks, links_foldl_addEdge hlinks, List.map_map]
  exact List.map_id _

lemma targets_linked_of_distinct {candidate : Candidate ℚ}
    (htargets : candidate.links.map Prod.fst = distinct candidate.dependencies) :
    candidate.linked.links.map Prod.fst = distinct candidate.dependencies := by
  rw [linked, targets_scaleLinks, targets_foldl_addEdge, htargets]
  intro edge hedge
  obtain ⟨target, htarget, rfl⟩ := List.mem_map.mp ((perm_byTarget _).mem_iff.mp hedge)
  rw [htargets]
  exact mem_distinct.mpr htarget

/-! ## The closed form -/

/-- The part of what it passes on that a candidate owes to all its targets together, after a number
of linkings with the same outlay. -/
def compounded (outlay : ℚ) : ℕ → ℚ
  | 0 => 0
  | count + 1 => (compounded outlay count + outlay) / ((count + 1) * outlay)

lemma compounded_one {outlay : ℚ} (houtlay : 0 < outlay) : compounded outlay 1 = 1 := by
  simp [compounded, houtlay.ne']

lemma compounded_zero_outlay (count : ℕ) : compounded 0 count = 0 := by
  cases count with
  | zero => rfl
  | succ count => simp [compounded]

/-- From an outlay of one on, a linking leaves a positive share of at most one. -/
lemma compounded_mem {outlay : ℚ} (houtlay : 1 ≤ outlay) (count : ℕ) :
    0 < compounded outlay (count + 1) ∧ compounded outlay (count + 1) ≤ 1 := by
  induction count with
  | zero =>
    rw [compounded_one (by linarith)]
    exact ⟨one_pos, le_refl 1⟩
  | succ count ih =>
    have hcount : (0 : ℚ) ≤ count := Nat.cast_nonneg count
    have hpositive : 0 < ((count + 1 : ℕ) + 1 : ℚ) * outlay := by positivity
    rw [compounded]
    refine ⟨div_pos (by linarith [ih.1]) hpositive, (div_le_one hpositive).mpr ?_⟩
    -- what is there already is at most one, and the outlay that is added counts for at least two
    push_cast
    nlinarith [ih.2]

/-- A candidate as a number of linkings leave it. -/
structure LinkedTimes (count : ℕ) (candidate : Candidate ℚ) : Prop where
  outbound_eq : candidate.outbound = count * candidate.outlay
  targets_eq : candidate.links.map Prod.fst =
    if count = 0 then [] else distinct candidate.dependencies
  linkTo_eq : ∀ key, candidate.linkTo key = compounded candidate.outlay count *
    (candidate.dependencies.count key / candidate.dependencies.length)

@[simp] lemma profile_linked (candidate : Candidate ℚ) :
    candidate.linked.profile = candidate.profile :=
  view_scaleLinks (fun _ _ _ => rfl) _ candidate

lemma dependencies_linked (candidate : Candidate ℚ) :
    candidate.linked.dependencies = candidate.dependencies :=
  congrArg Profile.dependencies (profile_linked candidate)

lemma lines_linked (candidate : Candidate ℚ) : candidate.linked.lines = candidate.lines :=
  congrArg Profile.lines (profile_linked candidate)

lemma outlay_linked (candidate : Candidate ℚ) : candidate.linked.outlay = candidate.outlay := by
  rw [outlay, outlay, lines_linked, dependencies_linked]

/-- The lines that go to a key are its part of the outlay. -/
lemma count_mul_lines (candidate : Candidate ℚ) (key : String) :
    (candidate.dependencies.count key : ℚ) * candidate.lines =
      candidate.outlay * (candidate.dependencies.count key / candidate.dependencies.length) := by
  by_cases hnone : candidate.dependencies = []
  · simp [hnone]
  · have hlength : (candidate.dependencies.length : ℚ) ≠ 0 := by simpa using hnone
    rw [outlay]
    field_simp

/-- One more linking. -/
theorem LinkedTimes.linked {count : ℕ} {candidate : Candidate ℚ}
    (htimes : candidate.LinkedTimes count) (hlines : 0 ≤ candidate.lines) :
    candidate.linked.LinkedTimes (count + 1) := by
  have houtlay : 0 ≤ candidate.outlay :=
    mul_nonneg (by exact_mod_cast hlines) (Nat.cast_nonneg _)
  have houtbound : candidate.outbound + candidate.outlay = (count + 1) * candidate.outlay := by
    rw [htimes.outbound_eq]
    ring
  constructor
  · rw [outbound_linked, outlay_linked, htimes.outbound_eq, outlay]
    push_cast
    ring
  · have htargets := htimes.targets_eq
    rw [dependencies_linked, if_neg (Nat.succ_ne_zero count)]
    split at htargets
    · exact targets_linked_of_nil (List.map_eq_nil_iff.mp htargets)
    · exact targets_linked_of_distinct htargets
  · intro key
    rw [linkTo_linked, outlay_linked, dependencies_linked, houtbound, htimes.linkTo_eq,
      count_mul_lines, compounded]
    rcases houtlay.eq_or_lt with hzero | hpositive
    · -- without an outlay nothing is scaled, and there was nothing before
      rw [← hzero, compounded_zero_outlay]
      simp
    · rw [if_pos (by positivity)]
      ring

/-! ## Links as shares -/

/-- Where no target has two links, a link has the value that its target is found with. -/
lemma value_eq_valueAt {links : List (String × Amount ℚ)} (hnodup : (links.map Prod.fst).Nodup) :
    ∀ link ∈ links, link.2.value = valueAt links link.1 := by
  induction links with
  | nil => simp
  | cons head links ih =>
    obtain ⟨target, amount⟩ := head
    obtain ⟨hfirst, hnodup⟩ := List.nodup_cons.mp hnodup
    intro link hlink
    rw [valueAt_cons]
    rcases List.mem_cons.mp hlink with rfl | hlink
    · rw [if_pos rfl]
    · have hother : target ≠ link.1 := by
        intro hsame
        exact hfirst (List.mem_map.mpr ⟨link, hlink, hsame.symm⟩)
      rw [if_neg hother, ih hnodup link hlink]

namespace LinkedTimes

variable {count : ℕ} {candidate : Candidate ℚ} (htimes : candidate.LinkedTimes (count + 1))

include htimes

lemma value_eq : ∀ link ∈ candidate.links, link.2.value =
    compounded candidate.outlay (count + 1) *
      (candidate.dependencies.count link.1 / candidate.dependencies.length) := by
  have htargets := htimes.targets_eq
  rw [if_neg (Nat.succ_ne_zero count)] at htargets
  intro link hlink
  rw [← htimes.linkTo_eq, linkTo,
    value_eq_valueAt (by rw [htargets]; exact nodup_distinct _) link hlink]

/-- The links to targets that pass a test take their part of what a candidate owes to all its
targets. -/
lemma sum_values_of (test : String → Bool) :
    (candidate.links.map fun link => if test link.1 then link.2.value else 0).sum =
      compounded candidate.outlay (count + 1) *
        (candidate.dependencies.countP test / candidate.dependencies.length) := by
  have htargets := htimes.targets_eq
  rw [if_neg (Nat.succ_ne_zero count)] at htargets
  set owed := compounded candidate.outlay (count + 1) with howed
  have hvalues : (candidate.links.map fun link => if test link.1 then link.2.value else 0) =
      (candidate.links.map Prod.fst).map fun target => owed *
        ((if test target then (candidate.dependencies.count target : ℚ) else 0) *
          (candidate.dependencies.length : ℚ)⁻¹) := by
    rw [List.map_map]
    refine List.map_congr_left fun link hlink => ?_
    rw [htimes.value_eq link hlink, div_eq_mul_inv]
    show _ = owed * ((if test link.1 then _ else _) * _)
    split <;> simp [howed]
  rw [hvalues, htargets, List.sum_map_mul_left, List.sum_map_mul_right, sum_count_distinct_of,
    div_eq_mul_inv]

/-- All links of a candidate together take what it owes to all its targets. -/
lemma sum_values :
    (candidate.links.map fun link => link.2.value).sum =
      compounded candidate.outlay (count + 1) := by
  have hall := htimes.sum_values_of fun _ => true
  simp only [if_true, List.countP_true] at hall
  rw [hall]
  by_cases hnone : candidate.dependencies = []
  · have houtlay : candidate.outlay = 0 := by simp [outlay, hnone]
    rw [houtlay, compounded_zero_outlay, zero_mul]
  · have hlength : (candidate.dependencies.length : ℚ) ≠ 0 := by simpa using hnone
    rw [div_self hlength, mul_one]

end LinkedTimes

/-- An outlay is nothing or at least one. -/
lemma outlay_eq_zero_or_one_le {candidate : Candidate ℚ} (hlines : 0 ≤ candidate.lines) :
    candidate.outlay = 0 ∨ 1 ≤ candidate.outlay := by
  have hcast : candidate.outlay = ((candidate.lines * candidate.dependencies.length : ℤ) : ℚ) := by
    rw [outlay]
    push_cast
    rfl
  have hnonneg : 0 ≤ candidate.lines * candidate.dependencies.length :=
    mul_nonneg hlines (Int.natCast_nonneg _)
  rw [hcast]
  rcases hnonneg.eq_or_lt with hzero | hpositive
  · exact Or.inl (by exact_mod_cast hzero.symm)
  · exact Or.inr (by exact_mod_cast hpositive)

end ImportRank.Candidate
