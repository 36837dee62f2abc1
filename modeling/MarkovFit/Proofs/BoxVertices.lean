import MarkovFit.Proofs.SampledBox

/-!
# Vertices of a box

The samples at the vertices of a box are its corners, in the order that has the lower ends first, each
followed by points on the edges that start there. On an axis half of the corners are at the lower end,
which gives the number of samples. The count that is made beforehand is that number, and it is missing
exactly if the number is too large for one: no factor of it is larger than the number itself.
-/

namespace MarkovFit.Proofs

open Sampling

variable {ps : List Parameter} {p : Parameter} {corner vs : List Decimal} {samples : List Sample}
  {value : Parameter → ℕ → Decimal} {count axis i : ℕ}

/-! ### Corners -/

theorem lower_ne_upper (p : Parameter) : p.lower ≠ p.upper := by
  intro heq
  have hlt := toRat_lower_lt p
  rw [heq] at hlt
  exact lt_irrefl _ hlt

/-- A corner has one of the two ends on every axis. -/
theorem mem_corners_iff : corner ∈ corners ps ↔
    List.Forall₂ (fun p v => v = p.lower ∨ v = p.upper) ps corner := by
  induction ps generalizing corner with
  | nil => rw [corners, List.mem_singleton, List.forall₂_nil_left_iff]
  | cons p ps ih =>
    simp only [corners, List.mem_append, List.mem_map, List.forall₂_cons_left_iff, ih]
    constructor
    · rintro (⟨rest, hrest, rfl⟩ | ⟨rest, hrest, rfl⟩)
      · exact ⟨_, rest, .inl rfl, hrest, rfl⟩
      · exact ⟨_, rest, .inr rfl, hrest, rfl⟩
    · rintro ⟨v, rest, rfl | rfl, hrest, rfl⟩
      · exact .inl ⟨rest, hrest, rfl⟩
      · exact .inr ⟨rest, hrest, rfl⟩

theorem length_corners (ps : List Parameter) : (corners ps).length = 2 ^ ps.length := by
  induction ps with
  | nil => rfl
  | cons p ps ih =>
    simp only [corners, List.length_append, List.length_map, ih, List.length_cons, pow_succ]
    omega

/-- The first axis decides, and the lower end comes first on it. -/
theorem pairwise_corners (ps : List Parameter) : (corners ps).Pairwise (· < ·) := by
  induction ps with
  | nil => exact List.pairwise_singleton _ _
  | cons p ps ih =>
    have hsame : ∀ v, ((corners ps).map (v :: ·)).Pairwise (· < ·) := fun v => by
      apply List.pairwise_map.2
      exact ih.imp fun hlt => List.cons_lt_cons_iff.2 (.inr ⟨rfl, hlt⟩)
    apply List.pairwise_append.2
    refine ⟨hsame p.lower, hsame p.upper, ?_⟩
    intro corner hcorner corner' hcorner'
    obtain ⟨rest, -, rfl⟩ := List.mem_map.1 hcorner
    obtain ⟨rest', -, rfl⟩ := List.mem_map.1 hcorner'
    exact List.cons_lt_cons_iff.2 (.inl p.lower_lt_upper)

theorem getElem?_corner (hcorner : corner ∈ corners ps) (hp : ps[axis]? = some p) :
    corner[axis]? = some p.lower ∨ corner[axis]? = some p.upper := by
  have hends := mem_corners_iff.1 hcorner
  induction hends generalizing axis with
  | nil => cases hp
  | @cons q v ps vs hv hrest ih =>
    cases axis with
    | zero =>
      obtain rfl : q = p := Option.some.inj hp
      exact hv.imp (congrArg some) (congrArg some)
    | succ axis => exact ih (mem_corners_iff.2 hrest) hp

/-! ### Corners and their edges -/

/-- The points on the edge of a corner along an axis, if it starts there. -/
def edge (count : ℕ) (value : Parameter → ℕ → Decimal) (corner : List Decimal) (axis : ℕ)
    (p : Parameter) : List (List Decimal) :=
  if corner[axis]? = some p.lower then
    (List.range count).map fun i => corner.set axis (value p i)
  else []

/-- A corner and the points on the edges that start there, axis by axis. -/
def withEdges (ps : List Parameter) (count : ℕ) (value : Parameter → ℕ → Decimal)
    (corner : List Decimal) : List (List Decimal) :=
  corner :: ps.zipIdx.flatMap fun (p, axis) => edge count value corner axis p

/-- All corners with their edges. -/
def boxPoints (ps : List Parameter) (count : ℕ) (value : Parameter → ℕ → Decimal) :
    List (List Decimal) :=
  (corners ps).flatMap (withEdges ps count value)

/-- On how many axes a corner is at the lower end. -/
def lowerAxes (ps : List Parameter) (corner : List Decimal) : ℕ :=
  (ps.zip corner).countP fun (p, v) => v = p.lower

lemma length_edge : (edge count value corner axis p).length =
    if corner[axis]? = some p.lower then count else 0 := by
  unfold edge
  split <;> simp

theorem length_withEdges (ps : List Parameter) (corner : List Decimal) :
    (withEdges ps count value corner).length = 1 + count * lowerAxes ps corner := by
  unfold withEdges
  rw [List.length_cons, List.length_flatMap, Nat.add_comm]
  congr 1
  simp only [length_edge]
  induction ps generalizing corner with
  | nil => rfl
  | cons p ps ih =>
    cases corner with
    | nil => simp [lowerAxes]
    | cons v vs =>
      have hrest := ih vs
      unfold lowerAxes at hrest ⊢
      rw [List.zipIdx_cons, List.zipIdx_succ, List.map_cons, List.map_map, List.sum_cons,
        List.zip_cons_cons, List.countP_cons, Nat.mul_add, ← hrest, Nat.add_comm]
      congr 1
      by_cases hv : v = p.lower <;> simp [hv]

/-- On each axis half of the corners are at the lower end. -/
theorem sum_lowerAxes (ps : List Parameter) :
    2 * ((corners ps).map (lowerAxes ps)).sum = ps.length * 2 ^ ps.length := by
  induction ps with
  | nil => rfl
  | cons p ps ih =>
    have hlower : ∀ rest, lowerAxes (p :: ps) (p.lower :: rest) = 1 + lowerAxes ps rest := by
      intro rest
      simp [lowerAxes, Nat.add_comm]
    have hupper : ∀ rest, lowerAxes (p :: ps) (p.upper :: rest) = lowerAxes ps rest := by
      intro rest
      simp [lowerAxes, (lower_ne_upper p).symm]
    have hones : ((corners ps).map fun _ => 1).sum = 2 ^ ps.length := by
      rw [List.map_const', List.sum_replicate, length_corners, smul_eq_mul, Nat.mul_one]
    simp only [corners, List.map_append, List.map_map, List.sum_append, Function.comp_def, hlower,
      hupper, List.sum_map_add, hones, List.length_cons, pow_succ]
    linarith

/-- The number of vertices and of the points on their edges. -/
def vertexTotal (dimensions count : ℕ) : ℕ :=
  2 ^ dimensions + count * dimensions * 2 ^ (dimensions - 1)

theorem length_boxPoints (ps : List Parameter) (count : ℕ) (value : Parameter → ℕ → Decimal) :
    (boxPoints ps count value).length = vertexTotal ps.length count := by
  have hhalf := sum_lowerAxes ps
  have hsum : ((corners ps).map (lowerAxes ps)).sum = ps.length * 2 ^ (ps.length - 1) := by
    cases hlength : ps.length with
    | zero =>
      rw [hlength] at hhalf
      omega
    | succ k =>
      rw [hlength, pow_succ, ← Nat.mul_assoc] at hhalf
      rw [Nat.add_sub_cancel]
      omega
  unfold boxPoints vertexTotal
  rw [List.length_flatMap]
  simp only [length_withEdges, List.sum_map_add, List.sum_map_mul_left]
  rw [hsum, List.map_const', List.sum_replicate, length_corners, smul_eq_mul, Nat.mul_one,
    Nat.mul_assoc]

/-! ### Counts -/

theorem asCount_bind (n : ℕ) (f : ℕ → Option ℕ) :
    (asCount n).bind f = if n < 2 ^ 64 then f n else none := by
  by_cases hfits : n < 2 ^ 64
  · have hcount : asCount n = some n := if_pos hfits
    rw [hcount, if_pos hfits]
    rfl
  · have hcount : asCount n = none := if_neg hfits
    rw [hcount, if_neg hfits]
    rfl

/-- The checked products and sums of the count are missing only if the number of vertices is. -/
theorem vertexCount_eq (dimensions count : ℕ) : vertexCount dimensions count =
    if vertexTotal dimensions count < 2 ^ 64 then some (vertexTotal dimensions count) else none := by
  unfold vertexCount vertexTotal
  by_cases hlarge : 64 ≤ dimensions
  · have hpow : 2 ^ 64 ≤ 2 ^ dimensions := Nat.pow_le_pow_right two_pos hlarge
    rw [if_pos hlarge, if_neg]
    omega
  · rw [if_neg hlarge]
    cases dimensions with
    | zero => rfl
    | succ k =>
      have hhalf : 2 ^ (k + 1) / 2 = 2 ^ k := by rw [pow_succ, Nat.mul_div_cancel _ two_pos]
      have hedges : count * (k + 1) ≤ count * (k + 1) * 2 ^ k :=
        Nat.le_mul_of_pos_right _ (by positivity)
      simp only [Option.bind_eq_bind, asCount_bind, Nat.pow_eq, hhalf, Nat.add_sub_cancel]
      generalize count * (k + 1) * 2 ^ k = extra at hedges ⊢
      by_cases hextra : extra < 2 ^ 64
      · rw [if_pos (hedges.trans_lt hextra), if_pos hextra]
        rfl
      · have htotal : ¬2 ^ (k + 1) + extra < 2 ^ 64 :=
          Nat.not_lt.2 ((Nat.not_lt.1 hextra).trans (Nat.le_add_left _ _))
        rw [if_neg hextra, if_neg htotal, ite_self]

/-! ### Samples -/

/-- The sample with these coordinates. -/
def sampleAt (ps : List Parameter) (vs : List Decimal) : Sample := ⟨(ps.map Parameter.name).zip vs⟩

lemma point_sampleAt (h : vs.length = ps.length) : (sampleAt ps vs).point = vs := by
  unfold sampleAt Sample.point
  apply List.map_snd_zip
  rw [List.length_map, h]

theorem eq_sampleAt {sample : Sample} (h : Sample.ofValues ps vs = .ok sample) :
    sample = sampleAt ps vs := by
  have hbox := exists_ofValues_iff.1 ⟨sample, h⟩
  rw [Sample.ofValues, if_neg (not_not.2 hbox.length_eq)] at h
  obtain ⟨pairs, hpairs, rfl⟩ := map_eq_ok.1 h
  congr 1
  clear h
  induction hbox generalizing pairs with
  | nil =>
    cases hpairs
    rfl
  | cons hv _ ih =>
    rw [Sample.pairValues, if_pos hv] at hpairs
    obtain ⟨rest, hrest, hresult⟩ := bind_eq_ok.1 hpairs
    cases hresult
    rw [ih rest hrest]
    rfl

/-- The results of computations that are known in advance. -/
theorem eq_map_of_forall₂ {α β γ : Type} {R : α → β → Prop} {f : α → γ} {g : β → γ} {xs : List α}
    {ys : List β} (h : List.Forall₂ R xs ys) (hR : ∀ x ∈ xs, ∀ y, R x y → g y = f x) :
    ys.map g = xs.map f := by
  induction h with
  | nil => rfl
  | cons hxy _ ih =>
    rw [List.map_cons, List.map_cons, hR _ List.mem_cons_self _ hxy,
      ih fun x hx => hR x (List.mem_cons_of_mem _ hx)]

/-- The coordinate of a point on an edge. -/
def edgeValue (count : ℕ) (p : Parameter) (i : ℕ) : Decimal :=
  (boundaryStep p count >>= fun step => boundaryValue p step (i + 1)).toOption.getD p.lower

theorem edgeValue_eq {step v : Decimal} (hstep : boundaryStep p count = .ok step)
    (hv : boundaryValue p step (i + 1) = .ok v) : edgeValue count p i = v := by
  have hresult : (boundaryStep p count >>= fun step => boundaryValue p step (i + 1)) = .ok v :=
    bind_eq_ok.2 ⟨step, hstep, hv⟩
  rw [edgeValue, hresult]
  rfl

theorem toRat_edgeValue (hcount : count + 1 < Decimal.mantissaBound) (h : EdgeFits p count)
    (hi : i < count) : (edgeValue count p i).toRat = edgePoint p count (i + 1) := by
  obtain ⟨step, hstep, hvalue⟩ := exists_boundaryStep h.width_lt hcount
  obtain ⟨v, hv, -⟩ := h.exists_point hvalue (by omega) hi
  rw [edgeValue_eq hstep hv]
  exact of_boundaryValue hvalue (by omega) hv

/-- The points of an edge, whether or not it starts at the corner. -/
theorem edgePoints_eq (hcorner : corner[axis]? = some p.lower ∨ corner[axis]? = some p.upper)
    (h : edgePoints ps count corner axis p = .ok samples) :
    samples = (edge count (edgeValue count) corner axis p).map (sampleAt ps) := by
  rw [edgePoints, List.getD_eq_getElem?_getD] at h
  unfold edge
  obtain hlower | hupper := hcorner
  · rw [hlower, Option.getD_some] at h
    rw [if_pos hlower]
    split at h
    · rename_i hnone
      cases h
      have hsame : p.lower.SameValue p.lower := (sameValue_iff_toRat_eq _ _).2 rfl
      rw [hnone.resolve_right (not_not.2 hsame)]
      rfl
    · obtain ⟨step, hstep, hsamples⟩ := bind_eq_ok.1 h
      rw [List.map_map, ← List.map_id samples]
      apply eq_map_of_forall₂ (mapM_eq_ok.1 hsamples)
      intro i _ sample hsample
      obtain ⟨v, hv, hsample⟩ := bind_eq_ok.1 hsample
      rw [id, Function.comp_apply, edgeValue_eq hstep hv]
      exact eq_sampleAt hsample
  · have hne : ¬p.upper.SameValue p.lower := fun hsame =>
      (toRat_lower_lt p).ne' ((sameValue_iff_toRat_eq _ _).1 hsame)
    have hother : corner[axis]? ≠ some p.lower := fun hlower =>
      lower_ne_upper p (Option.some.inj (hlower.symm.trans hupper))
    rw [hupper, Option.getD_some, if_pos (.inr hne)] at h
    cases h
    rw [if_neg hother]
    rfl

theorem cornerSamples_eq (hcorner : corner ∈ corners ps)
    (h : cornerSamples ps count corner = .ok samples) :
    samples = (withEdges ps count (edgeValue count) corner).map (sampleAt ps) := by
  simp only [cornerSamples, bind_eq_ok] at h
  obtain ⟨sample, hsample, edges, hedges, hresult⟩ := h
  cases hresult
  have hmap : edges.map id = ps.zipIdx.map fun x =>
      (edge count (edgeValue count) corner x.2 x.1).map (sampleAt ps) := by
    apply eq_map_of_forall₂ (mapM_eq_ok.1 hedges)
    intro x hx edge hedge
    exact edgePoints_eq (getElem?_corner hcorner (List.mem_zipIdx_iff_getElem?.1 hx)) hedge
  rw [List.map_id] at hmap
  rw [withEdges, List.map_cons, eq_sampleAt hsample, hmap, List.map_flatMap, List.flatMap_def]

theorem vertexSamples_eq (h : vertexSamples ps count = .ok samples) :
    samples = (boxPoints ps count (edgeValue count)).map (sampleAt ps) := by
  unfold vertexSamples at h
  split at h
  · cases h
  · obtain ⟨groups, hgroups, hresult⟩ := bind_eq_ok.1 h
    cases hresult
    have hmap : groups.map id = (corners ps).map fun corner =>
        (withEdges ps count (edgeValue count) corner).map (sampleAt ps) :=
      eq_map_of_forall₂ (mapM_eq_ok.1 hgroups) fun corner hcorner _ => cornerSamples_eq hcorner
    rw [List.map_id] at hmap
    rw [boxPoints, hmap, List.map_flatMap, List.flatMap_def]

theorem exists_vertexCount (h : vertexSamples ps count = .ok samples) :
    ∃ n, vertexCount ps.length count = some n := by
  unfold vertexSamples at h
  split at h
  · cases h
  · exact ⟨_, ‹_›⟩

/-- Which samples the vertices of a box are, and how many. -/
theorem vertices_are_exhaustive :
    (∀ dimensions count, vertexCount dimensions count =
        if vertexTotal dimensions count < 2 ^ 64 then some (vertexTotal dimensions count)
        else none) ∧
      ∀ ps count samples, vertexSamples ps count = .ok samples →
        vertexCount ps.length count = some samples.length ∧
          samples.length = vertexTotal ps.length count ∧
          ((corners ps).length = 2 ^ ps.length ∧ (corners ps).Pairwise (· < ·) ∧
            ∀ corner, corner ∈ corners ps ↔
              List.Forall₂ (fun p v => v = p.lower ∨ v = p.upper) ps corner) ∧
          ∃ value : Parameter → ℕ → Decimal,
            samples = (boxPoints ps count value).map (sampleAt ps) ∧
              ∀ p ∈ ps, ∀ i < count, (value p i).toRat = edgePoint p count (i + 1) := by
  refine ⟨vertexCount_eq, ?_⟩
  intro ps count samples h
  obtain ⟨n, hn⟩ := exists_vertexCount h
  have hpoints := vertexSamples_eq h
  have hlength : samples.length = vertexTotal ps.length count := by
    rw [hpoints, List.length_map, length_boxPoints]
  refine ⟨?_, hlength, ⟨length_corners ps, pairwise_corners ps, fun _ => mem_corners_iff⟩,
    edgeValue count, hpoints, ?_⟩
  · rw [vertexCount_eq] at hn ⊢
    split at hn
    · rename_i hfits
      rw [if_pos hfits, hlength]
    · cases hn
  · intro p hp i hi
    have hfits := (exists_vertexSamples_iff hn).1 ⟨samples, h⟩ p hp
    exact toRat_edgeValue (lt_of_vertexCount hn hp) (hfits.resolve_left (by omega)) hi

lemma trim_p_ne : Text.trim "p" ≠ "" := by decide +kernel

lemma trim_q_ne : Text.trim "q" ≠ "" := by decide +kernel

lemma zero_lt_unit : Decimal.zero < Decimal.one := by decide +kernel

/-- The unit interval and one of three times its width. -/
def unitAndTriple : List Parameter :=
  [⟨"p", .zero, .one, trim_p_ne, zero_lt_unit⟩,
    ⟨"q", .zero, (Decimal.ofNat? 3).getD .one, trim_q_ne, by decide +kernel⟩]

theorem unitAndTriple_vertices : ∃ samples, vertexSamples unitAndTriple 2 = .ok samples ∧
    samples.length = 12 ∧ ∃ value : Parameter → ℕ → Decimal,
      samples = (boxPoints unitAndTriple 2 value).map (sampleAt unitAndTriple) := by
  obtain ⟨samples, hsamples⟩ := exists_eq_ok (x := vertexSamples unitAndTriple 2) (by decide +kernel)
  obtain ⟨-, hlength, -, value, hpoints, -⟩ := vertices_are_exhaustive.2 _ _ _ hsamples
  exact ⟨samples, hsamples, hlength, value, hpoints⟩

end MarkovFit.Proofs
