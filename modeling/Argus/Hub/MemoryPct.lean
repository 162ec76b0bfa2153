import Argus.Floats
import Argus.Store.Metrics
import Mathlib.Data.List.Induction

/-!
# The share of the memory

`deriveMemoryPct` goes over the points of a batch once and keeps for each entity the last usage and
the last limit of its memory, where no sample and a sample of zero look alike. `memoryPct_iff` says
for which batches the derived points are those of the entities with a usage and a limit.
-/

namespace Argus

open Foundations

/-! ### The derivation -/

/-- `snap`: what is kept of an entity. -/
structure MemorySnap where
  use : Extended
  lim : Extended
  ts : Time
  uid : String
  lbl : Labels

/-- The snap of an entity that is seen for the first time. -/
def MemorySnap.start (p : MetricPoint) : MemorySnap :=
  ⟨.finite 0, .finite 0, p.ts, p.entityUID, p.labels⟩

/-- The switch over the metric name. -/
def MemorySnap.add (em : MemorySnap) (p : MetricPoint) : MemorySnap :=
  if p.metricName = "memory.usage" then { em with use := p.value, ts := p.ts }
  else if p.metricName = "memory.limit" then { em with lim := p.value }
  else em

/-- One round of the loop over the points. -/
def addSample (byEntity : SortedMap String MemorySnap) (p : MetricPoint) :
    SortedMap String MemorySnap :=
  byEntity.insert p.entityUID (((byEntity.get? p.entityUID).getD (.start p)).add p)

/-- `(use / lim) * 100`, for a limit larger than zero. The usage of a decoded point is finite, so
its share of an infinite limit is zero. -/
def usageShare (use lim : Extended) : Extended :=
  match lim with
  | .finite l => timesFloat (overFloat use l) 100
  | .infinite _ => .finite 0

/-- The point that is derived from a snap. -/
def MemorySnap.point (em : MemorySnap) : MetricPoint where
  metricName := "memory.usage_pct"
  ts := em.ts
  value := usageShare em.use em.lim
  entityUID := em.uid
  labels := em.lbl

/-- The possible results of `deriveMemoryPct`: the points in the order of a map. -/
def DeriveMemoryPct (points out : List MetricPoint) : Prop :=
  out.Perm (((points.foldl addSample ∅).values.filter fun em => Extended.positive em.lim).map
    MemorySnap.point)

/-! ### The points of an entity -/

/-- The points of an entity. -/
def pointsOf (uid : String) (points : List MetricPoint) : List MetricPoint :=
  points.filter fun p => p.entityUID == uid

/-- The last point of a list with a metric. -/
def lastOf (metricName : String) (points : List MetricPoint) : Option MetricPoint :=
  (points.filter fun p => p.metricName == metricName).getLast?

/-- The last limit of a list that is larger than zero. -/
def lastLimit (points : List MetricPoint) : Option MetricPoint :=
  lastOf "memory.limit" (points.filter fun p => Extended.positive p.value)

/-- What the loop keeps of the points of one entity. -/
def snapOf (uid : String) (p : MetricPoint) (points : List MetricPoint) : MemorySnap where
  use := ((lastOf "memory.usage" points).map MetricPoint.value).getD (.finite 0)
  lim := ((lastOf "memory.limit" points).map MetricPoint.value).getD (.finite 0)
  ts := ((lastOf "memory.usage" points).map MetricPoint.ts).getD p.ts
  uid := uid
  lbl := p.labels

theorem lastOf_concat (metricName : String) (points : List MetricPoint) (p : MetricPoint) :
    lastOf metricName (points ++ [p]) =
      if p.metricName = metricName then some p else lastOf metricName points := by
  rw [lastOf, List.filter_append]
  split_ifs with h
  · rw [List.filter_cons_of_pos (by simp [h]), List.filter_nil, List.getLast?_concat]
  · rw [List.filter_cons_of_neg (by simp [h]), List.filter_nil, List.append_nil, lastOf]

/-- The loop keeps the last samples of an entity, and the labels of its first point. -/
theorem foldl_add (p : MetricPoint) (points : List MetricPoint) :
    points.foldl MemorySnap.add (.start p) = snapOf p.entityUID p points := by
  induction points using List.reverseRecOn with
  | nil => rfl
  | append_singleton points q ih =>
    rw [List.foldl_append, ih, List.foldl_cons, List.foldl_nil, snapOf, snapOf, MemorySnap.add,
      lastOf_concat, lastOf_concat]
    by_cases husage : q.metricName = "memory.usage"
    · simp [husage]
    · by_cases hlimit : q.metricName = "memory.limit"
      · simp [hlimit]
      · simp [husage, hlimit]

/-- What the loop has of an entity in the end. -/
theorem get?_addSample (points : List MetricPoint) (uid : String) :
    (points.foldl addSample ∅).get? uid =
      (pointsOf uid points).head?.map fun p => snapOf uid p (pointsOf uid points) := by
  have hfold : (points.foldl addSample ∅).get? uid = (pointsOf uid points).foldl
      (fun o p => some ((o.getD (.start p)).add p)) none :=
    @SortedMap.get?_foldl_keyed _ _ _ _ addSample MetricPoint.entityUID
      (fun o p => some ((o.getD (.start p)).add p)) (fun m p => SortedMap.get?_insert_self _ _ _)
      (fun m p k hk => SortedMap.get?_insert_of_ne hk) uid (fun p => p.entityUID == uid)
      (fun p => beq_iff_eq) points ∅
  have hsome : ∀ (l : List MetricPoint) (em : MemorySnap),
      l.foldl (fun o p => some ((o.getD (.start p)).add p)) (some em) =
        some (l.foldl MemorySnap.add em) := by
    intro l
    induction l with
    | nil => exact fun em => rfl
    | cons q l ih => exact fun em => ih (em.add q)
  rw [hfold]
  cases hpoints : pointsOf uid points with
  | nil => rfl
  | cons p l =>
    have huid : p.entityUID = uid := by
      have hmem : p ∈ pointsOf uid points := hpoints ▸ List.mem_cons_self
      exact beq_iff_eq.mp (List.mem_filter.mp hmem).2
    rw [List.foldl_cons, hsome, List.head?_cons, Option.map_some, ← huid]
    exact congrArg some (foldl_add p (p :: l))

/-- What is derived for an entity. -/
theorem pointsOf_derived {points out : List MetricPoint} (h : DeriveMemoryPct points out)
    (uid : String) : pointsOf uid out =
      (((points.foldl addSample ∅).get? uid).toList.filter fun em =>
        Extended.positive em.lim).map MemorySnap.point := by
  set byEntity := points.foldl addSample ∅ with hby
  have huid : ∀ e ∈ byEntity.entries, e.2.uid = e.1 := by
    intro e he
    have hget := SortedMap.mem_entries.mp he
    rw [hby, get?_addSample] at hget
    obtain ⟨p, -, heq⟩ := Option.map_eq_some_iff.mp hget
    rw [← heq, snapOf]
  have hrows : SortedMap.rowsFor uid byEntity.entries = (byEntity.get? uid).toList := by
    have hid := SortedMap.rowsFor_entries byEntity id uid
    simpa using hid
  have hmap : pointsOf uid ((byEntity.values.filter fun em => Extended.positive em.lim).map
      MemorySnap.point) = ((byEntity.get? uid).toList.filter fun em =>
        Extended.positive em.lim).map MemorySnap.point := by
    rw [← hrows, SortedMap.rowsFor, pointsOf, List.filter_map, SortedMap.values, List.filter_map,
      List.filter_map, List.filter_map, List.filter_filter, List.filter_filter]
    refine congrArg _ (congrArg _ (List.filter_congr fun e he => ?_))
    simp [MemorySnap.point, huid e he, Bool.and_comm, beq_eq_decide]
  have hperm : (pointsOf uid out).Perm (((byEntity.get? uid).toList.filter fun em =>
      Extended.positive em.lim).map MemorySnap.point) := hmap ▸ h.filter _
  -- there is at most one point, so its place does not matter
  generalize byEntity.get? uid = o at hperm
  cases o with
  | none => exact hperm.eq_nil
  | some em =>
    by_cases hpos : Extended.positive em.lim = true
    · have hone : (((some em).toList.filter fun em => Extended.positive em.lim).map
          MemorySnap.point) = [em.point] := by simp [hpos]
      rw [hone] at hperm ⊢
      exact List.perm_singleton.mp hperm
    · have hnone : (((some em).toList.filter fun em => Extended.positive em.lim).map
          MemorySnap.point) = [] := by simp [hpos]
      rw [hnone] at hperm ⊢
      exact hperm.eq_nil

/-! ### Usage and limit -/

/-- What is derived from a batch is a share for each entity with a usage and a limit larger than
zero, of the last of each, at the time of the usage; nothing is derived for other entities, and it
does not matter how the entities take turns in the batch. -/
structure SharesDerived (points out : List MetricPoint) : Prop where
  one : ∀ uid u l, lastOf "memory.usage" (pointsOf uid points) = some u →
    lastLimit (pointsOf uid points) = some l → ∃ p, pointsOf uid out = [p] ∧
      p.metricName = "memory.usage_pct" ∧ p.ts = u.ts ∧
        ∀ q, l.value = .finite q → p.value = timesFloat (overFloat u.value q) 100
  none : ∀ uid, lastOf "memory.usage" (pointsOf uid points) = none ∨
    lastLimit (pointsOf uid points) = none → pointsOf uid out = []
  turns : ∀ points', (∀ uid, pointsOf uid points' = pointsOf uid points) →
    ∀ out', DeriveMemoryPct points' out' → out'.Perm out

/-- The samples of an entity decide alone: a limit that is larger than zero at the end comes with a
usage, and with a usage a limit that is larger than zero is not followed by another one. -/
structure Sampled (samples : List MetricPoint) : Prop where
  usage : ∀ l, lastOf "memory.limit" samples = some l → Extended.positive l.value = true →
    (lastOf "memory.usage" samples).isSome
  limit : ∀ l, lastOf "memory.limit" samples = some l → (lastOf "memory.usage" samples).isSome →
    (lastLimit samples).isSome → Extended.positive l.value = true

theorem lastLimit_of_lastOf {samples : List MetricPoint} {l : MetricPoint}
    (h : lastOf "memory.limit" samples = some l) (hpos : Extended.positive l.value = true) :
    lastLimit samples = some l := by
  obtain ⟨limits, hlimits⟩ := List.getLast?_eq_some_iff.mp h
  have hcomm : ((samples.filter fun p => Extended.positive p.value).filter fun p =>
      p.metricName == "memory.limit") = (samples.filter fun p =>
        p.metricName == "memory.limit").filter fun p => Extended.positive p.value := by
    rw [List.filter_filter, List.filter_filter]
    exact List.filter_congr fun p _ => Bool.and_comm _ _
  have hlast : [l].filter (fun p => Extended.positive p.value) = [l] := by simp [hpos]
  rw [lastLimit, lastOf, hcomm, hlimits, List.filter_append, hlast, List.getLast?_concat]

/-- A limit that is larger than zero is a limit. -/
theorem exists_lastOf {samples : List MetricPoint} {l : MetricPoint}
    (h : lastLimit samples = some l) : ∃ l', lastOf "memory.limit" samples = some l' := by
  have hmem := List.mem_of_getLast? h
  obtain ⟨hmem, hname⟩ := List.mem_filter.mp hmem
  have hlimit : l ∈ samples.filter fun p => p.metricName == "memory.limit" :=
    List.mem_filter.mpr ⟨(List.mem_filter.mp hmem).1, hname⟩
  exact ⟨_, List.getLast?_eq_some_getLast (List.ne_nil_of_mem hlimit)⟩

/-- The limit that the loop keeps is larger than zero when the last one of the entity is. -/
theorem positive_lim_iff {uid : String} {p : MetricPoint} {samples : List MetricPoint} :
    Extended.positive (snapOf uid p samples).lim = true ↔
      ∃ l, lastOf "memory.limit" samples = some l ∧ Extended.positive l.value = true := by
  rw [snapOf]
  cases lastOf "memory.limit" samples with
  | none => simp [Extended.positive]
  | some l => simp

variable {points out : List MetricPoint}

/-- What is derived for an entity whose points begin with `p`. -/
theorem pointsOf_derived_cons (h : DeriveMemoryPct points out) {uid : String} {p : MetricPoint}
    {samples : List MetricPoint} (hsamples : pointsOf uid points = p :: samples) :
    pointsOf uid out = if Extended.positive (snapOf uid p (p :: samples)).lim then
      [(snapOf uid p (p :: samples)).point] else [] := by
  rw [pointsOf_derived h, get?_addSample, hsamples, List.head?_cons, Option.map_some,
    Option.toList_some, List.filter_singleton]
  cases Extended.positive (snapOf uid p (p :: samples)).lim <;> rfl

/-- **Key result.** What is derived from a batch are the shares of the entities with a usage and a
limit larger than zero, if and only if no entity ends with such a limit and has no usage, and none
with a usage has such a limit and another one after it. -/
theorem memoryPct_iff (h : DeriveMemoryPct points out) :
    SharesDerived points out ↔ ∀ uid, Sampled (pointsOf uid points) := by
  -- an entity with a sample has points
  have hcons : ∀ uid {name l}, lastOf name (pointsOf uid points) = some l →
      ∃ p samples, pointsOf uid points = p :: samples := by
    intro uid name l hl
    exact List.exists_cons_of_ne_nil fun hnil => absurd hl (by simp [hnil, lastOf])
  constructor
  · intro hshares uid
    refine ⟨fun l hl hpos => ?_, fun l hl husage hlimit => ?_⟩
    · obtain ⟨p, samples, hsamples⟩ := hcons uid hl
      have hderived := pointsOf_derived_cons h hsamples
      rw [← hsamples, if_pos (positive_lim_iff.mpr ⟨l, hl, hpos⟩)] at hderived
      rw [Option.isSome_iff_ne_none]
      intro hnone
      rw [hshares.none uid (.inl hnone)] at hderived
      exact absurd hderived (by simp)
    · obtain ⟨u, hu⟩ := Option.isSome_iff_exists.mp husage
      obtain ⟨l', hl'⟩ := Option.isSome_iff_exists.mp hlimit
      obtain ⟨p, samples, hsamples⟩ := hcons uid hl
      have hderived := pointsOf_derived_cons h hsamples
      obtain ⟨q, hq, -⟩ := hshares.one uid u l' hu hl'
      rw [← hsamples, hq] at hderived
      split_ifs at hderived with hpos
      obtain ⟨l₂, hl₂, hpos₂⟩ := positive_lim_iff.mp hpos
      rw [hl] at hl₂
      rwa [Option.some.inj hl₂]
  · intro hsampled
    refine ⟨fun uid u l hu hl => ?_, fun uid hmissing => ?_, fun points' hsame out' hout' => ?_⟩
    · obtain ⟨p, samples, hsamples⟩ := hcons uid hu
      obtain ⟨l', hl'⟩ := exists_lastOf hl
      have hpos := (hsampled uid).limit l' hl' (by rw [hu]; rfl) (by rw [hl]; rfl)
      obtain rfl : l' = l := Option.some.inj ((lastLimit_of_lastOf hl' hpos).symm.trans hl)
      have hderived := pointsOf_derived_cons h hsamples
      rw [← hsamples, if_pos (positive_lim_iff.mpr ⟨l', hl', hpos⟩)] at hderived
      refine ⟨_, hderived, rfl, ?_, fun q hq => ?_⟩
      · simp [MemorySnap.point, snapOf, hu]
      · simp [MemorySnap.point, snapOf, hu, hl', hq, usageShare]
    · cases hsamples : pointsOf uid points with
      | nil =>
        rw [pointsOf_derived h, get?_addSample, hsamples]
        rfl
      | cons p samples =>
        rw [pointsOf_derived_cons h hsamples, if_neg]
        rw [← hsamples]
        intro hpos
        obtain ⟨l, hl, hpos⟩ := positive_lim_iff.mp hpos
        have husage := (hsampled uid).usage l hl hpos
        rcases hmissing with hnone | hnone
        · rw [hnone] at husage
          exact absurd husage (by decide)
        · rw [lastLimit_of_lastOf hl hpos] at hnone
          exact absurd hnone (by simp)
    · have hfold : points'.foldl addSample ∅ = points.foldl addSample ∅ :=
        SortedMap.ext fun uid => by rw [get?_addSample, get?_addSample, hsame uid]
      rw [DeriveMemoryPct, hfold] at hout'
      exact hout'.trans h.symm

/-! ### Two batches -/

/-- A sample of a container. -/
def memorySample (metricName : String) (value : ℚ) : MetricPoint :=
  ⟨metricName, ⟨63844891200000000000⟩, .finite value, "docker:h:api", ∅⟩

/-- A usage and a limit. -/
def halfSamples : List MetricPoint := [memorySample "memory.usage" 1, memorySample "memory.limit" 2]

theorem sampled_halfSamples (uid : String) : Sampled (pointsOf uid halfSamples) := by
  have hlast : lastOf "memory.limit" halfSamples = some (memorySample "memory.limit" 2) := by
    decide +kernel
  by_cases huid : uid = "docker:h:api"
  · have hpoints : pointsOf uid halfSamples = halfSamples := by
      subst huid
      decide +kernel
    rw [hpoints]
    refine ⟨fun _ _ _ => by decide +kernel, fun l hl _ _ => ?_⟩
    obtain rfl := Option.some.inj (hlast.symm.trans hl)
    decide +kernel
  · have hpoints : pointsOf uid halfSamples = [] := by
      simp [pointsOf, halfSamples, memorySample, Ne.symm huid]
    rw [hpoints]
    exact ⟨fun _ hl _ => absurd hl (by simp [lastOf]),
      fun _ hl _ _ => absurd hl (by simp [lastOf])⟩

/-- Their share is derived. -/
theorem memoryPct_half : (∀ uid, Sampled (pointsOf uid halfSamples)) ∧ SharesDerived halfSamples
    [⟨"memory.usage_pct", ⟨63844891200000000000⟩, .finite 50, "docker:h:api", ∅⟩] :=
  ⟨sampled_halfSamples, (memoryPct_iff (List.Perm.of_eq (by decide +kernel))).mpr
    sampled_halfSamples⟩

/-- A limit alone gets a share of its own. -/
theorem lone_limit_share : ∃ out, DeriveMemoryPct [memorySample "memory.limit" 1024] out ∧
    ¬ SharesDerived [memorySample "memory.limit" 1024] out := by
  refine ⟨_, List.Perm.refl _, fun h => ?_⟩
  have hnone := h.none "docker:h:api" (.inl (by decide +kernel))
  exact absurd hnone (by decide +kernel)

end Argus
