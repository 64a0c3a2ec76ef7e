import ImportRank.Proofs.Rank.KeyedWeights

/-!
# What an iteration brings to a key

An iteration works in place: it empties all weights and then deposits, candidate by candidate, what
each passes on and what each receives whoever links to it. Whatever the links and the outbound
weights are, stale ones included, the result reads every weight as it was before: a key receives
the damped share of every candidate that links to it, and an equal part of the teleport share and
of the weight that dangles. Main statement: `step?_eq_received`.
-/

namespace ImportRank.Candidate

open Network

variable {candidates : List (Candidate ℚ)}

/-! ## Links by key -/

/-- The value of the link to a key, nothing where there is no link. -/
def valueAt (links : List (String × Amount ℚ)) (key : String) : ℚ :=
  ((links.lookup key).map Amount.value).getD 0

@[simp] lemma valueAt_nil (key : String) : valueAt [] key = 0 := rfl

lemma valueAt_cons (target : String) (amount : Amount ℚ) (links : List (String × Amount ℚ))
    (key : String) :
    valueAt ((target, amount) :: links) key =
      if target = key then amount.value else valueAt links key := by
  rw [valueAt, List.lookup_cons]
  by_cases hkey : target = key
  · subst hkey
    simp
  · have hother : (key == target) = false := beq_eq_false_iff_ne.mpr (Ne.symm hkey)
    rw [hother, if_neg hkey]
    rfl

lemma valueAt_of_notMem {links : List (String × Amount ℚ)} {key : String}
    (hnone : key ∉ links.map Prod.fst) : valueAt links key = 0 := by
  induction links with
  | nil => rfl
  | cons link links ih =>
    obtain ⟨target, amount⟩ := link
    rw [List.map_cons, List.mem_cons, not_or] at hnone
    rw [valueAt_cons, if_neg (Ne.symm hnone.1), ih hnone.2]

/-- Where no target has two links, the links to a key add up to the one there is. -/
lemma sum_links_to {links : List (String × Amount ℚ)} (hnodup : (links.map Prod.fst).Nodup)
    (key : String) :
    (links.map fun (target, amount) => if target = key then amount.value else 0).sum =
      valueAt links key := by
  induction links with
  | nil => rfl
  | cons link links ih =>
    obtain ⟨target, amount⟩ := link
    obtain ⟨hfirst, hnodup⟩ := List.nodup_cons.mp hnodup
    rw [List.map_cons, List.sum_cons, ih hnodup, valueAt_cons]
    by_cases hkey : target = key
    · subst hkey
      simp [valueAt_of_notMem hfirst]
    · simp [hkey]

/-- The weight of the link to a key, nothing where there is no link. -/
def linkTo (candidate : Candidate ℚ) (key : String) : ℚ := valueAt candidate.links key

/-- No target has two links. -/
def SingleLinks (candidate : Candidate ℚ) : Prop := (candidate.links.map Prod.fst).Nodup

/-! ## Stations -/

/-- What a station sends to the position of a key is the weight of the link to the key. -/
lemma shareTo_ofCandidates (hdistinct : (candidates.map key).Nodup)
    (hsingle : ∀ candidate ∈ candidates, candidate.SingleLinks)
    {source target : ℕ} (hsource : source < (ofCandidates candidates).length)
    (hsource' : source < candidates.length) (htarget : target < candidates.length) :
    (ofCandidates candidates)[source].shareTo target =
      candidates[source].linkTo candidates[target].key := by
  have hplaced := sum_placed hdistinct htarget
    (candidates[source].links.map fun (target, amount) => (target, amount.value))
  rw [List.filterMap_map, List.map_map] at hplaced
  rw [linkTo, ← sum_links_to (hsingle _ (List.getElem_mem hsource')), Station.shareTo]
  simp only [ofCandidates, List.getElem_mapIdx]
  exact hplaced

/-! ## One iteration -/

/-- The weight that the candidates without outbound weight hold. -/
def leaked (candidates : List (Candidate ℚ)) : ℚ :=
  ((candidates.filter (·.outbound = 0)).map weight).sum

/-- What a key has after an iteration: from every candidate the damped part of its weight that the
link to the key takes, and an equal part of the teleport share and of the damped weight that
dangles. -/
def received (alpha : ℚ) (candidates : List (Candidate ℚ)) (key : String) : ℚ :=
  (candidates.map fun source => alpha * source.weight * source.linkTo key).sum +
    ((1 - alpha) + alpha * leaked candidates) / candidates.length

/-- What a candidate brings to a key in an iteration among a number of candidates, before it is
damped. -/
def brought (count : ℕ) (key : String) (source : Candidate ℚ) : ℚ :=
  source.weight * source.linkTo key + (if source.outbound = 0 then source.weight else 0) / count

/-- A key receives the damped part of what is brought to it, and the teleport share. -/
lemma received_eq (alpha : ℚ) (candidates : List (Candidate ℚ)) (key : String) :
    received alpha candidates key =
      alpha * (candidates.map (brought candidates.length key)).sum +
        (1 - alpha) / candidates.length := by
  have hbrought : (candidates.map (brought candidates.length key)).sum =
      (candidates.map fun source => source.weight * source.linkTo key).sum +
        leaked candidates / candidates.length := by
    unfold brought
    rw [List.sum_map_add, leaked, sum_map_filter]
    simp only [div_eq_mul_inv, List.sum_map_mul_right, decide_eq_true_eq]
  rw [received, hbrought]
  simp only [mul_assoc, List.sum_map_mul_left]
  ring

lemma reading_weights (hlength : (ofCandidates candidates).length = candidates.length)
    (i : Fin (ofCandidates candidates).length) :
    (ofCandidates candidates).reading (weights candidates) i =
      (candidates.get (i.cast hlength)).weight := by
  have hi : (i : ℕ) < candidates.length := hlength ▸ i.isLt
  rw [reading, weightAt_of_lt (by simpa [weights] using hi)]
  simp [weights]

section Iteration

variable (hdistinct : (candidates.map key).Nodup)

include hdistinct

/-- The change of an iteration is the sum over all candidates of how far their weights moved. -/
lemma change_ofCandidates (weight : String → ℚ) :
    (ofCandidates candidates).change (weights candidates)
        (candidates.map fun candidate => weight candidate.key).toArray =
      (candidates.map fun candidate => |weight candidate.key - candidate.weight|).sum := by
  have hlength := length_ofCandidates candidates
  rw [change_eq (wired_ofCandidates hdistinct)]
  simp only [reading_keyed hlength, reading_weights hlength]
  exact sum_places hlength fun candidate => |weight candidate.key - candidate.weight|

variable (hsingle : ∀ candidate ∈ candidates, candidate.SingleLinks)

include hsingle

lemma flow_mul_reading (hlength : (ofCandidates candidates).length = candidates.length)
    (target source : Fin (ofCandidates candidates).length) :
    (ofCandidates candidates).flow target source *
        (ofCandidates candidates).reading (weights candidates) source =
      (candidates.get (source.cast hlength)).brought candidates.length
        (candidates.get (target.cast hlength)).key := by
  have hsource : (source : ℕ) < candidates.length := hlength ▸ source.isLt
  have hcount : ((ofCandidates candidates).length : ℚ) = candidates.length := by rw [hlength]
  have hdangling : (ofCandidates candidates)[source].dangling =
      decide (candidates[(source : ℕ)].outbound = 0) := by
    show ((ofCandidates candidates)[(source : ℕ)]).dangling = _
    simp [ofCandidates]
  have hshare : (ofCandidates candidates)[source].shareTo target =
      candidates[(source : ℕ)].linkTo (candidates.get (target.cast hlength)).key :=
    shareTo_ofCandidates hdistinct hsingle source.isLt hsource (hlength ▸ target.isLt)
  rw [flow, reading_weights hlength, hdangling, hshare, hcount, brought]
  simp only [List.get_eq_getElem, Fin.val_cast, decide_eq_true_eq]
  split <;> ring

/-- An iteration leaves at every position what its key receives. -/
lemma advance_ofCandidates (alpha : ℚ) :
    (ofCandidates candidates).advance alpha (weights candidates) =
      (candidates.map fun candidate => received alpha candidates candidate.key).toArray := by
  have hlength := length_ofCandidates candidates
  have hcount : ((ofCandidates candidates).length : ℚ) = candidates.length := by rw [hlength]
  have hsize : (weights candidates).size = (ofCandidates candidates).length := by
    simp [weights]
  refine @eq_of_reading_eq (ofCandidates candidates) _ _ (by simp [hsize]) (by simp) ?_
  funext i
  rw [reading_advance (wired_ofCandidates hdistinct) alpha hsize, reading_keyed hlength,
    received_eq]
  simp only [Pi.add_apply, Pi.smul_apply, smul_eq_mul, Matrix.mulVec, dotProduct,
    flow_mul_reading hdistinct hsingle hlength]
  rw [sum_places hlength (brought candidates.length (candidates.get (i.cast hlength)).key), hcount]

/-- What an iteration makes of candidates. -/
lemma step?_eq_some (hnonempty : candidates ≠ []) (alpha : ℚ) :
    step? alpha candidates = some
      ((candidates.map fun candidate =>
          |received alpha candidates candidate.key - candidate.weight|).sum,
        candidates.map fun candidate =>
          { candidate with weight := received alpha candidates candidate.key }) := by
  rw [step?, if_neg (by simpa using hnonempty)]
  dsimp only
  rw [advance_ofCandidates hdistinct hsingle, change_ofCandidates hdistinct, withWeights,
    List.zipWith_map_right, List.zipWith_self]

end Iteration

/-! ## Links that lead outside -/

/-- The candidate without its links to anything but some keys. -/
def inward (keys : List String) (candidate : Candidate ℚ) : Candidate ℚ :=
  { candidate with links := candidate.links.filter (·.1 ∈ keys) }

lemma linkTo_inward {keys : List String} {key : String} (hkey : key ∈ keys)
    (candidate : Candidate ℚ) : (inward keys candidate).linkTo key = candidate.linkTo key := by
  unfold linkTo inward
  dsimp only
  induction candidate.links with
  | nil => rfl
  | cons link links ih =>
    obtain ⟨target, amount⟩ := link
    rw [List.filter_cons, valueAt_cons]
    split
    · rw [valueAt_cons, ih]
    · rename_i hdropped
      -- a link that is dropped leads to another key than one of those that are kept
      have hother : target ≠ key := by
        rintro rfl
        exact hdropped (decide_eq_true hkey)
      rw [ih, if_neg hother]

lemma singleLinks_inward (keys : List String) {candidate : Candidate ℚ}
    (hsingle : candidate.SingleLinks) : (inward keys candidate).SingleLinks :=
  hsingle.sublist (List.filter_sublist.map _)

lemma received_inward {keys : List String} {key : String} (hkey : key ∈ keys) (alpha : ℚ)
    (candidates : List (Candidate ℚ)) :
    received alpha (candidates.map (inward keys)) key = received alpha candidates key := by
  have hleaked : leaked (candidates.map (inward keys)) = leaked candidates := by
    rw [leaked, leaked, List.filter_map, List.map_map]
    rfl
  have hterm : ∀ source : Candidate ℚ,
      alpha * (inward keys source).weight * (inward keys source).linkTo key =
        alpha * source.weight * source.linkTo key := by
    intro source
    rw [linkTo_inward hkey]
    rfl
  rw [received, received, hleaked, List.map_map, List.length_map]
  simp only [Function.comp_def, hterm]

/-- An iteration is one multiplication: each key receives its share of all weights as they were,
nothing but weights changes, and the change is the sum of all differences. Links that lead to no
candidate make no difference to it. -/
theorem step?_eq_received (hnonempty : candidates ≠ [])
    (hdistinct : (candidates.map key).Nodup)
    (hsingle : ∀ candidate ∈ candidates, candidate.SingleLinks) (alpha : ℚ) :
    step? alpha candidates = some
      ((candidates.map fun candidate =>
          |received alpha candidates candidate.key - candidate.weight|).sum,
        candidates.map fun candidate =>
          { candidate with weight := received alpha candidates candidate.key }) ∧
    (step? alpha (candidates.map (inward (candidates.map key)))).map
        (fun (change, next) => (change, next.map weight)) =
      (step? alpha candidates).map fun (change, next) => (change, next.map weight) := by
  have hdistinct' : ((candidates.map (inward (candidates.map key))).map key).Nodup := by
    rw [List.map_map]
    exact hdistinct
  have hsingle' : ∀ candidate ∈ candidates.map (inward (candidates.map key)),
      candidate.SingleLinks := List.forall_mem_map.mpr fun candidate hcandidate =>
    singleLinks_inward _ (hsingle candidate hcandidate)
  have hinside : ∀ candidate ∈ candidates,
      received alpha (candidates.map (inward (candidates.map key))) candidate.key =
        received alpha candidates candidate.key := fun candidate hcandidate =>
    received_inward (List.mem_map_of_mem hcandidate) alpha candidates
  have hstep := step?_eq_some hdistinct hsingle hnonempty alpha
  refine ⟨hstep, ?_⟩
  rw [hstep, step?_eq_some hdistinct' hsingle' (by simpa using hnonempty)]
  simp only [Option.map_some, List.map_map, Option.some_inj, Prod.mk.injEq]
  constructor
  · refine congrArg List.sum (List.map_congr_left fun candidate hcandidate => ?_)
    show |received alpha _ candidate.key - candidate.weight| = _
    rw [hinside candidate hcandidate]
  · exact List.map_congr_left hinside

/-- A file that imports itself and still has its links although it dangles, and one that passes on
twice its weight. -/
def sampleStale : List (Candidate ℚ) :=
  [{ fresh (α := ℚ) "a.py" 0 [] [] with
      links := [("a.py", .share (1 / 3)), ("gone.py", .lines 1), ("b.py", .share (1 / 2))]
      weight := 1 / 2 },
    { fresh (α := ℚ) "b.py" 1 [] [] with
      links := [("a.py", .lines 2)], outbound := 2, weight := 1 / 4 }]

/-- One iteration over the sample. -/
theorem step?_eq_received_sample :
    sampleStale ≠ [] ∧ (sampleStale.map key).Nodup ∧
    (∀ candidate ∈ sampleStale, candidate.SingleLinks) ∧
    (step? (1 / 2) sampleStale).map (fun (change, next) => (change, next.map weight)) =
      some (11 / 24, [17 / 24, 1 / 2]) := by
  have hnonempty : sampleStale ≠ [] := by simp [sampleStale]
  have hdistinct : (sampleStale.map key).Nodup := by simp [sampleStale, fresh]
  have hsingle : ∀ candidate ∈ sampleStale, candidate.SingleLinks := by
    simp [sampleStale, SingleLinks]
  refine ⟨hnonempty, hdistinct, hsingle, ?_⟩
  have hother : "a.py" ≠ "b.py" ∧ "gone.py" ≠ "b.py" := by decide
  rw [(step?_eq_received hnonempty hdistinct hsingle (1 / 2)).1]
  norm_num [sampleStale, received, leaked, linkTo, valueAt_cons, fresh, Amount.value, hother]

end ImportRank.Candidate
