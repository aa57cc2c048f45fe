import Lantern.Fallible
import Lantern.LeastSquares

set_option autoImplicit false

/-!
# The clustering behind a codebook

`k_means` over one slice of the vectors, in exact arithmetic and with the squared
distance. Every round assigns the points to their nearest centres and moves the centres
to the means of their points, and the points are then forgotten. A centre without
points stays where it is.
-/
namespace Lantern.KMeans
open Fallible LeastSquares

inductive Failure where
  | stillDrawing
  | outOfBounds
  deriving DecidableEq, Repr

variable {K : Type} {n k d : ℕ}

structure Slice (dim : ℕ) where
  start : ℕ
  length : ℕ
  fits : start + length ≤ dim

theorem Slice.index_lt {dim : ℕ} (slice : Slice dim) (j : Fin slice.length) :
    slice.start + j < dim :=
  Nat.lt_of_lt_of_le (Nat.add_lt_add_left j.isLt _) slice.fits

def subvector {dim : ℕ} (dataset : Fin n → Fin dim → K) (slice : Slice dim) (i : Fin n) :
    Fin slice.length → K :=
  fun j => dataset i ⟨slice.start + j, slice.index_lt j⟩

/-- A point is the number of its row. Nothing writes to a centre or to a point, so a
    centre is its value. -/
structure Cluster (K : Type) (n d : ℕ) where
  center : Fin d → K
  points : List (Fin n)

def assigned (centers : Fin k → Fin d → K) (a : Fin n → Fin k) : Fin k → Cluster K n d :=
  fun j => ⟨centers j, (List.finRange n).filter fun i => a i = j⟩

theorem mem_assigned {centers : Fin k → Fin d → K} {a : Fin n → Fin k} {i : Fin n} {j : Fin k} :
    i ∈ (assigned centers a j).points ↔ a i = j := by
  simp [assigned]

/-- The numbers that the generator returns, one for each turn of the loop. -/
def getRandomTid (n : ℕ) (used : List (Fin n)) : List ℕ → Except Failure (Fin n × List ℕ)
  | [] => .error .stillDrawing
  | rand :: rands =>
    if hn : 0 < n then
      if ⟨rand % n, Nat.mod_lt _ hn⟩ ∈ used then getRandomTid n used rands
      else .ok (⟨rand % n, Nat.mod_lt _ hn⟩, rands)
    else .error .outOfBounds

def drawTids (n : ℕ) : (k : ℕ) → List ℕ → Except Failure ((Fin k → Fin n) × List ℕ)
  | 0, rands => .ok (Fin.elim0, rands)
  | k + 1, rands =>
    (drawTids n k rands).bind fun (used, rands) =>
      (getRandomTid n (List.ofFn used) rands).map fun (idx, rands) => (Fin.snoc used idx, rands)

def initializeClusters (x : Fin n → Fin d → K) (tids : Fin k → Fin n) : Fin k → Cluster K n d :=
  fun j => ⟨x (tids j), []⟩

section Round
variable [Field K] (x : Fin n → Fin d → K)

def calculateMean (points : List (Fin n)) : Fin d → K :=
  fun j => points.foldl (fun mean i => mean + x i j) 0 / points.length

def updateCenters (clusters : Fin k → Cluster K n d) : Fin k → Cluster K n d :=
  fun j =>
    if (clusters j).points.length = 0 then clusters j
    else ⟨calculateMean x (clusters j).points, []⟩

theorem calculateMean_eq (points : List (Fin n)) :
    calculateMean x points = fun j => mean (fun i => x i j) points := by
  funext j
  rw [calculateMean, mean, List.sum_eq_foldl, List.foldl_map]

theorem points_updateCenters (clusters : Fin k → Cluster K n d) (j : Fin k) :
    (updateCenters x clusters j).points = [] := by
  unfold updateCenters
  split_ifs with h
  · exact List.length_eq_zero_iff.mp h
  · rfl

def cost (clusters : Fin k → Cluster K n d) : K :=
  ∑ j, ((clusters j).points.map fun i => sqDist (x i) (clusters j).center).sum

theorem cost_assigned (centers : Fin k → Fin d → K) (a : Fin n → Fin k) :
    cost x (assigned centers a) = ∑ i, sqDist (x i) (centers (a i)) :=
  sum_filter_class a fun j i => sqDist (x i) (centers j)

variable [LinearOrder K]

/-- The index is not reset between the points, so without centres it is the one from
    before. -/
def assignPoint (s : ℕ × (Fin k → Cluster K n d)) (i : Fin n) :
    Except Failure (ℕ × (Fin k → Cluster K n d)) :=
  let minDistClusterIdx := (scan (fun j => sqDist (x i) (s.2 j).center) s.1).2
  if h : minDistClusterIdx < k then
    .ok (minDistClusterIdx, Function.update s.2 ⟨minDistClusterIdx, h⟩
      ⟨(s.2 ⟨minDistClusterIdx, h⟩).center, (s.2 ⟨minDistClusterIdx, h⟩).points ++ [i]⟩)
  else .error .outOfBounds

def assignToClusters (clusters : Fin k → Cluster K n d) : Except Failure (Fin k → Cluster K n d) :=
  ((List.finRange n).foldlM (assignPoint x) (0, clusters)).map Prod.snd

/-- Without clusters the average is not a number, and not below the threshold. -/
def shouldStopIterations (threshold : K) (oldCenters : Fin k → Fin d → K)
    (clusters : Fin k → Cluster K n d) : Bool :=
  decide (k ≠ 0 ∧ (∑ j, sqDist (oldCenters j) (clusters j).center) / k ≤ threshold)

def kMeansLoop (threshold : K) : ℕ → (Fin k → Cluster K n d) →
    Except Failure (List (Fin k → Cluster K n d) × (Fin k → Cluster K n d))
  | 0, clusters => .ok ([], clusters)
  | iter + 1, clusters =>
    (assignToClusters x clusters).bind fun assigned =>
      let updated := updateCenters x assigned
      if shouldStopIterations threshold (fun j => (assigned j).center) updated then
        .ok ([assigned], updated)
      else (kMeansLoop threshold iter updated).map fun r => (assigned :: r.1, r.2)

end Round

variable [Field K] [LinearOrder K]

def kMeans {dim : ℕ} (k : ℕ) (dataset : Fin n → Fin dim → K) (slice : Slice dim) (iter : ℕ)
    (threshold : K) (rands : List ℕ) :
    Except Failure (List (Fin k → Cluster K n slice.length) × (Fin k → Fin slice.length → K)) :=
  (drawTids n k rands).bind fun (tids, _) =>
    (kMeansLoop (subvector dataset slice) threshold iter
      (initializeClusters (subvector dataset slice) tids)).map fun r =>
      (r.1, fun j => (r.2 j).center)

section Assignment
variable {x : Fin n → Fin d → K}

structure Clustered (x : Fin n → Fin d → K) (clusters : Fin k → Cluster K n d) : Prop where
  one : ∀ i, ∃! j, i ∈ (clusters j).points
  once : ∀ j, (clusters j).points.Nodup
  nearest : ∀ j, ∀ i ∈ (clusters j).points, FirstLeast (fun j => sqDist (x i) (clusters j).center) j

variable {centers : Fin k → Fin d → K} {a : Fin n → Fin k}

theorem clustered_assigned (ha : ∀ i, FirstLeast (fun j => sqDist (x i) (centers j)) (a i)) :
    Clustered x (assigned centers a) where
  one i := ⟨a i, mem_assigned.mpr rfl, fun _ hj => (mem_assigned.mp hj).symm⟩
  once _ := (List.nodup_finRange n).filter _
  nearest j i hi := by
    rw [← mem_assigned.mp hi]
    exact ha i

theorem foldlM_assignPoint
    (hscan : ∀ i start, (scan (fun j => sqDist (x i) (centers j)) start).2 = a i)
    (points : List (Fin n)) (start : ℕ) (clusters : Fin k → Cluster K n d)
    (hcenters : ∀ j, (clusters j).center = centers j) :
    ∃ last, points.foldlM (assignPoint x) (start, clusters) =
      .ok (last, fun j => ⟨centers j, (clusters j).points ++ points.filter fun i => a i = j⟩) := by
  induction points generalizing start clusters with
  | nil =>
    have hsame :
        (fun j => ⟨centers j, (clusters j).points ++ []⟩ : Fin k → Cluster K n d) = clusters := by
      funext j
      rw [List.append_nil, ← hcenters j]
    exact ⟨start, congrArg (fun cs => (.ok (start, cs) : Except Failure _)) hsame.symm⟩
  | cons i points ih =>
    have hstep : assignPoint x (start, clusters) i =
        .ok (a i, Function.update clusters (a i) ⟨centers (a i),
        (clusters (a i)).points ++ [i]⟩) := by
      simp only [assignPoint, hcenters, hscan, Fin.is_lt, dif_pos, Fin.eta]
    have hcenters' :
        ∀ j, (Function.update clusters (a i)
        ⟨centers (a i), (clusters (a i)).points ++ [i]⟩ j).center =
        centers j := by
      intro j
      by_cases hj : j = a i
      · rw [hj, Function.update_self]
      · rw [Function.update_of_ne hj, hcenters]
    obtain ⟨last, hrest⟩ := ih (a i) _ hcenters'
    refine ⟨last, ?_⟩
    rw [List.foldlM_cons, hstep]
    refine hrest.trans ?_
    congr 2
    funext j
    by_cases hj : j = a i
    · subst hj
      rw [Function.update_self, List.filter_cons_of_pos (by simp), List.append_assoc,
        List.singleton_append]
    · rw [Function.update_of_ne hj, List.filter_cons_of_neg (by simpa using Ne.symm hj)]

theorem assignToClusters_eq (hk : n ≠ 0 → k ≠ 0) (x : Fin n → Fin d → K)
    {clusters : Fin k → Cluster K n d} (hempty : ∀ j, (clusters j).points = []) :
    ∃ a : Fin n → Fin k, (∀ i, FirstLeast (fun j => sqDist (x i) (clusters j).center) (a i)) ∧
      assignToClusters x clusters = .ok (assigned (fun j => (clusters j).center) a) := by
  choose a ha hscan using fun i : Fin n =>
    exists_firstLeast (hk i.pos.ne') fun j => sqDist (x i) (clusters j).center
  obtain ⟨last, hfold⟩ :=
    foldlM_assignPoint (fun i start => congrArg Prod.snd (hscan i start)) (List.finRange n) 0
    clusters fun _ => rfl
  refine ⟨a, ha, ?_⟩
  rw [assignToClusters, hfold]
  simp only [hempty, List.nil_append]
  rfl

/-- What the rounds from some centres on are like. The first of them is not more costly
    than any assignment to these centres. -/
structure Rounds (x : Fin n → Fin d → K) (centers : Fin k → Fin d → K)
    (rounds : List (Fin k → Cluster K n d)) :
    Prop where
  clustered : ∀ round ∈ rounds, Clustered x round
  falls : rounds.IsChain fun round next => cost x next ≤ cost x round
  first_le : ∀ round ∈ rounds.head?, ∀ b : Fin n →
    Fin k, cost x round ≤ ∑ i, sqDist (x i) (centers (b i))

theorem Rounds.nil (x : Fin n → Fin d → K) (centers : Fin k → Fin d → K) : Rounds x centers [] :=
  ⟨List.forall_mem_nil _, .nil, fun _ h => absurd h (Option.not_mem_none _)⟩

variable [IsStrictOrderedRing K]

theorem sum_updateCenters_le (clusters : Fin k → Cluster K n d) (j : Fin k) :
    ((clusters j).points.map fun i => sqDist (x i) (updateCenters x clusters j).center).sum ≤
      ((clusters j).points.map fun i => sqDist (x i) (clusters j).center).sum := by
  unfold updateCenters
  split_ifs with h
  · exact le_refl _
  · rw [calculateMean_eq]
    exact sum_sqDist_mean_le x _ _

theorem sum_new_centers_le (centers : Fin k → Fin d → K) (a : Fin n → Fin k) :
    ∑ i, sqDist (x i) (updateCenters x (assigned centers a) (a i)).center ≤ cost x
      (assigned centers a) :=
  calc ∑ i, sqDist (x i) (updateCenters x (assigned centers a) (a i)).center
      = ∑ j, ((assigned centers a j).points.map fun i =>
          sqDist (x i) (updateCenters x (assigned centers a) j).center).sum :=
        (sum_filter_class a fun j i =>
          sqDist (x i) (updateCenters x (assigned centers a) j).center).symm
    _ ≤ cost x (assigned centers a) := Finset.sum_le_sum fun j _ => sum_updateCenters_le _ j

theorem cost_nearest_le {centers : Fin k → Fin d → K} {a : Fin n → Fin k}
    (ha : ∀ i, FirstLeast (fun j => sqDist (x i) (centers j)) (a i)) (b : Fin n → Fin k) :
    cost x (assigned centers a) ≤ ∑ i, sqDist (x i) (centers (b i)) := by
  rw [cost_assigned]
  exact Finset.sum_le_sum fun i _ => (ha i).1 (b i)

theorem Rounds.cons {centers : Fin k → Fin d → K} {a : Fin n → Fin k}
    (ha : ∀ i, FirstLeast (fun j => sqDist (x i) (centers j)) (a i))
    {rounds : List (Fin k → Cluster K n d)}
    (h : Rounds x (fun j => (updateCenters x (assigned centers a) j).center) rounds) :
    Rounds x centers (assigned centers a :: rounds) where
  clustered := List.forall_mem_cons.mpr ⟨clustered_assigned ha, h.clustered⟩
  falls := by
    rw [List.isChain_cons]
    exact ⟨fun next hnext =>
      (h.first_le next hnext a).trans (sum_new_centers_le centers a), h.falls⟩
  first_le := by
    intro round hround
    cases hround
    exact cost_nearest_le ha

theorem kMeansLoop_rounds (hk : n ≠ 0 → k ≠ 0) (x : Fin n → Fin d → K) (threshold : K) (iter : ℕ)
    {clusters : Fin k → Cluster K n d} (hempty : ∀ j, (clusters j).points = []) :
    ∃ rounds last, kMeansLoop x threshold iter clusters = .ok (rounds, last) ∧
      Rounds x (fun j => (clusters j).center) rounds := by
  induction iter generalizing clusters with
  | zero => exact ⟨[], clusters, rfl, .nil x _⟩
  | succ iter ih =>
    obtain ⟨a, ha, hassign⟩ := assignToClusters_eq hk x hempty
    set round := assigned (fun j => (clusters j).center) a
    rw [kMeansLoop, hassign]
    by_cases hstop :
      shouldStopIterations threshold (fun j => (round j).center) (updateCenters x round) = true
    · exact ⟨[round], _, if_pos hstop, .cons ha (.nil x _)⟩
    · obtain ⟨rounds, last, hrest, hrounds⟩ := ih (points_updateCenters x round)
      refine ⟨round :: rounds, last, ?_, .cons ha hrounds⟩
      change (if shouldStopIterations _ _ _ = true then _ else _) = _
      rw [if_neg hstop, hrest]
      rfl

end Assignment

theorem kMeansLoop_no_clusters (hn : n ≠ 0) (x : Fin n → Fin d → K) (threshold : K) (iter : ℕ)
    (clusters : Fin 0 → Cluster K n d) :
    kMeansLoop x threshold (iter + 1) clusters = .error .outOfBounds := by
  obtain ⟨m, rfl⟩ := Nat.exists_eq_succ_of_ne_zero hn
  rw [kMeansLoop, assignToClusters, List.finRange_succ, List.foldlM_cons]
  rfl

theorem getRandomTid_cases (hn : 0 < n) (used : List (Fin n)) (rands : List ℕ) :
    getRandomTid n used rands = .error .stillDrawing ∨ ∃ r, getRandomTid n used rands = .ok r := by
  induction rands with
  | nil => exact .inl rfl
  | cons rand rands ih =>
    rw [getRandomTid, dif_pos hn]
    split_ifs
    · exact ih
    · exact .inr ⟨_, rfl⟩

theorem drawTids_cases (hk : k ≤ n) (rands : List ℕ) :
    drawTids n k rands = .error .stillDrawing ∨ ∃ r, drawTids n k rands = .ok r := by
  induction k with
  | zero => exact .inr ⟨_, rfl⟩
  | succ k ih =>
    rw [drawTids]
    rcases ih (by omega) with hdrawing | ⟨⟨used, rands⟩, hdrawn⟩
    · rw [hdrawing]
      exact .inl rfl
    · rw [hdrawn]
      rcases getRandomTid_cases (by omega) (List.ofFn used) rands with hnext | ⟨r, hnext⟩
      · exact .inl (congrArg (Except.map _) hnext)
      · exact .inr ⟨_, congrArg (Except.map _) hnext⟩

theorem drawTids_range (hk : k ≤ n) (rest : List ℕ) :
    drawTids n k (List.range k ++ rest) = .ok (Fin.castLE hk, rest) := by
  induction k generalizing rest with
  | zero =>
    have hnone : (Fin.elim0 : Fin 0 → Fin n) = Fin.castLE hk := funext fun i => i.elim0
    rw [drawTids, hnone]
    rfl
  | succ k ih =>
    have hlt : k < n := hk
    have hmod : (⟨k % n, Nat.mod_lt _ (by omega)⟩ : Fin n) = ⟨k, hlt⟩ :=
      Fin.ext (Nat.mod_eq_of_lt hlt)
    have hunused : (⟨k, hlt⟩ : Fin n) ∉ List.ofFn (Fin.castLE hlt.le) := by
      rw [List.mem_ofFn]
      rintro ⟨i, hi⟩
      exact absurd (congrArg Fin.val hi) i.isLt.ne
    have hdraw :
        getRandomTid n (List.ofFn (Fin.castLE hlt.le)) (k :: rest) = .ok (⟨k, hlt⟩, rest) := by
      rw [getRandomTid, dif_pos (by omega), hmod, if_neg hunused]
    have hsnoc : (Fin.snoc (Fin.castLE hlt.le) ⟨k, hlt⟩ : Fin (k + 1) → Fin n) = Fin.castLE hk := by
      funext i
      induction i using Fin.lastCases with
      | last => rw [Fin.snoc_last]; rfl
      | cast i => rw [Fin.snoc_castSucc]; rfl
    rw [drawTids, List.range_succ, List.append_assoc, ih hlt.le, List.singleton_append]
    refine (congrArg (Except.map _) hdraw).trans ?_
    rw [← hsnoc]
    rfl

section Runs
variable {dim iter : ℕ} (dataset : Fin n → Fin dim → K)
  (slice : Slice dim) (threshold : K) {rands : List ℕ}

theorem kMeans_no_clusters (hn : n ≠ 0) (hiter : iter ≠ 0) :
    kMeans 0 dataset slice iter threshold rands = .error .outOfBounds := by
  obtain ⟨iter, rfl⟩ := Nat.exists_eq_succ_of_ne_zero hiter
  exact congrArg (Except.map _) (kMeansLoop_no_clusters hn _ _ _ _)

theorem kMeans_drawn [IsStrictOrderedRing K] (h : (n ≠ 0 → k ≠ 0) ∨ iter = 0)
    {r : (Fin k → Fin n) × List ℕ} (hdrawn : drawTids n k rands = .ok r) :
    ∃ rounds centroids, kMeans k dataset slice iter threshold rands = .ok (rounds, centroids) ∧
      (∀ round ∈ rounds, Clustered (subvector dataset slice) round) ∧
      rounds.IsChain fun round next =>
        cost (subvector dataset slice) next ≤ cost (subvector dataset slice) round := by
  obtain ⟨rounds, last, hloop, hrounds⟩ : ∃ rounds last,
      kMeansLoop (subvector dataset slice) threshold iter
      (initializeClusters (subvector dataset slice) r.1) =
        .ok (rounds, last) ∧ Rounds (subvector dataset slice)
          (fun j => (initializeClusters (subvector dataset slice) r.1 j).center) rounds := by
    rcases h with hk | rfl
    · exact kMeansLoop_rounds hk _ _ _ fun _ => rfl
    · exact ⟨[], _, rfl, .nil _ _⟩
  refine ⟨rounds, fun j => (last j).center, ?_, hrounds.clustered, hrounds.falls⟩
  rw [kMeans, hdrawn]
  exact congrArg (Except.map _) hloop

/-- With random numbers that let the first centres be drawn, which there are, every round
    is as it should be exactly if there is a cluster, or no point, or no round. -/
theorem kMeans_rounds_iff [IsStrictOrderedRing K] (hk : k ≤ n) (iter : ℕ) :
    ((∀ rands, kMeans k dataset slice iter threshold rands = .error .stillDrawing ∨
        ∃ rounds centroids, kMeans k dataset slice iter threshold rands = .ok (rounds, centroids) ∧
          (∀ round ∈ rounds, Clustered (subvector dataset slice) round) ∧
          rounds.IsChain fun round next =>
            cost (subvector dataset slice) next ≤ cost (subvector dataset slice) round) ↔
      k ≠ 0 ∨ n = 0 ∨ iter = 0) ∧
    ∃ rands, kMeans k dataset slice iter threshold rands ≠ .error .stillDrawing := by
  have hrun : (n ≠ 0 → k ≠ 0) ∨ iter = 0 ↔ k ≠ 0 ∨ n = 0 ∨ iter = 0 := by tauto
  refine ⟨⟨fun h => ?_, fun h rands => ?_⟩, List.range k, ?_⟩
  · by_contra hno
    simp only [not_or, ne_eq, not_not] at hno
    obtain ⟨rfl, hn, hiter⟩ := hno
    have hfault : kMeans 0 dataset slice iter threshold [] = _ :=
      kMeans_no_clusters dataset slice threshold hn hiter
    rcases h [] with herror | ⟨rounds, centroids, hok, -⟩
    · rw [hfault] at herror
      cases herror
    · rw [hfault] at hok
      cases hok
  · rcases drawTids_cases hk rands with hdrawing | ⟨r, hdrawn⟩
    · rw [kMeans, hdrawing]
      exact .inl rfl
    · exact .inr (kMeans_drawn dataset slice threshold (hrun.mpr h) hdrawn)
  · have hdrawn : drawTids n k (List.range k) = .ok (Fin.castLE hk, []) := by
      simpa using drawTids_range hk []
    by_cases h : k ≠ 0 ∨ n = 0 ∨ iter = 0
    · obtain ⟨rounds, centroids, hok, -⟩ := kMeans_drawn dataset slice threshold (hrun.mpr h) hdrawn
      rw [hok]
      exact fun herror => by cases herror
    · simp only [not_or, ne_eq, not_not] at h
      obtain ⟨rfl, hn, hiter⟩ := h
      rw [kMeans_no_clusters dataset slice threshold hn hiter]
      exact fun herror => by cases herror

end Runs

def twoPoints : Fin 2 → Fin 1 → ℚ := fun i _ => i.val

def wholeVector : Slice 1 := ⟨0, 1, le_refl 1⟩

def fourPoints : Fin 4 → Fin 3 → ℚ := ![![9, 0, 0], ![9, 0, 1], ![9, 5, 5], ![9, 6, 5]]

def lastTwo : Slice 3 := ⟨1, 2, le_refl 3⟩

theorem fourPoints_rounds :
    ∃ rounds centroids, kMeans 2 fourPoints lastTwo 200 (1 / 10)
      [3, 3, 2] = .ok (rounds, centroids) ∧
      (∀ round ∈ rounds, Clustered (subvector fourPoints lastTwo) round) ∧
      rounds.IsChain fun round next =>
        cost (subvector fourPoints lastTwo) next ≤ cost (subvector fourPoints lastTwo) round := by
  rcases (kMeans_rounds_iff fourPoints lastTwo (1 / 10) (by decide : 2 ≤ 4) 200).1.mpr
    (.inl two_ne_zero) [3, 3, 2] with
    hdrawing | hrounds
  · obtain ⟨r, hdrawn⟩ : ∃ r, drawTids 4 2 [3, 3, 2] = .ok r := ⟨_, rfl⟩
    have hrun : (4 ≠ 0 → 2 ≠ 0) ∨ 200 = 0 := .inl fun _ => two_ne_zero
    obtain ⟨rounds, centroids, hok, -⟩ := kMeans_drawn fourPoints lastTwo (1 / 10) hrun hdrawn
    rw [hok] at hdrawing
    cases hdrawing
  · exact hrounds

theorem twoPoints_no_clusters :
    kMeans 0 twoPoints wholeVector 200 (1 / 10) [] = .error .outOfBounds := rfl

end Lantern.KMeans
