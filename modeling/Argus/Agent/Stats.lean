import Argus.Floats
import Argus.Foundations.RoundingOrder
import Argus.Store.HttpSummary
import Mathlib.Data.UInt

/-!
# Rates of container counters

Docker reports counters of a container, and the collector turns them into a share of the CPU and
into bytes per second. The differences are `uint64`: where a counter went backwards they wrap
around. `statsMeet_iff` says for which samples the reported values are rates.
-/

namespace Argus

open Foundations

/-! ### Stats -/

/-- `networkStats`. -/
structure NetworkStats where
  rxBytes : UInt64
  txBytes : UInt64

/-- `blkioEntry`. -/
structure BlkioEntry where
  op : String
  value : UInt64

/-- `cpuStats`. -/
structure CPUStats where
  totalUsage : UInt64
  percpuUsage : List UInt64
  systemUsage : UInt64
  onlineCPUs : UInt32

/-- `statsResponse`, without the stats of the memory. -/
structure StatsResponse where
  cpuStats : CPUStats
  preCPUStats : CPUStats
  networks : SortedMap String NetworkStats
  ioServiceBytesRecursive : List BlkioEntry

/-! ### Floating point -/

/-- `float64(n)`. -/
def floatOf (n : UInt64) : ℚ := doubleFormat.nearest n.toNat

/-- `d.Seconds()`. -/
def seconds (d : ℤ) : ℚ :=
  doubleFormat.nearest ((d.tdiv 1000000000 : ℤ) +
    doubleFormat.nearest ((d.tmod 1000000000 : ℤ) / 1000000000))

/-! ### The share of the CPU -/

/-- The number of CPUs that are online, at least one. -/
def CPUStats.online (c : CPUStats) : UInt32 :=
  let online := if c.onlineCPUs = 0 then UInt32.ofNat c.percpuUsage.length else c.onlineCPUs
  if online = 0 then 1 else online

/-- `cpuPercent`. -/
def cpuPercent (v : StatsResponse) : Extended :=
  if v.preCPUStats.systemUsage = 0 ∨ v.cpuStats.systemUsage = 0 then .finite 0
  else
    let cpuDelta := floatOf (v.cpuStats.totalUsage - v.preCPUStats.totalUsage)
    let sysDelta := floatOf (v.cpuStats.systemUsage - v.preCPUStats.systemUsage)
    if sysDelta ≤ 0 then .finite 0
    else timesFloat (timesFloat (overFloat (.finite cpuDelta) sysDelta) v.cpuStats.online.toNat) 100

/-! ### Rates -/

/-- `ioSample`. -/
structure IOSample where
  rxBytes : UInt64
  txBytes : UInt64
  readBytes : UInt64
  writeBytes : UInt64
  at_ : Time

/-- The sums over networks and devices. -/
def StatsResponse.sample (stats : StatsResponse) (now : Time) : IOSample where
  rxBytes := (stats.networks.values.map NetworkStats.rxBytes).sum
  txBytes := (stats.networks.values.map NetworkStats.txBytes).sum
  readBytes := ((stats.ioServiceBytesRecursive.filter (·.op == "Read")).map BlkioEntry.value).sum
  writeBytes := ((stats.ioServiceBytesRecursive.filter (·.op == "Write")).map BlkioEntry.value).sum
  at_ := now

/-- The rates and the counters that they are computed from. -/
def ioCounters : List (String × (IOSample → UInt64)) :=
  [("network.rx", IOSample.rxBytes), ("network.tx", IOSample.txBytes),
    ("block.read", IOSample.readBytes), ("block.write", IOSample.writeBytes)]

/-- A call of `networkAndBlockIO`. -/
structure StatsCall where
  id : String
  stats : StatsResponse
  now : Time
  entityUID : String
  labels : Labels

/-- The sample of a call. -/
def StatsCall.sample (c : StatsCall) : IOSample := c.stats.sample c.now

/-- The rates of a call since the sample before, if time has passed. -/
def StatsCall.ratesSince (c : StatsCall) (prev : IOSample) : List MetricPoint :=
  let secs := seconds (c.now.sub prev.at_)
  if secs ≤ 0 then []
  else ioCounters.map fun counter => {
    metricName := counter.1
    ts := c.now
    value := overFloat (.finite (floatOf (counter.2 c.sample - counter.2 prev))) secs
    entityUID := c.entityUID
    labels := c.labels }

/-- `networkAndBlockIO`, with `lastIO`. -/
def networkAndBlockIO (last : SortedMap String IOSample) (c : StatsCall) :
    SortedMap String IOSample × List MetricPoint :=
  (last.insert c.id c.sample,
    match last.get? c.id with
    | none => []
    | some prev => c.ratesSince prev)

/-- `lastIO` after calls. -/
def lastSamples (calls : List StatsCall) : SortedMap String IOSample :=
  calls.foldl (fun m c => networkAndBlockIO m c |>.1) ∅

/-- The points of a call, after earlier ones. -/
def ioPoints (earlier : List StatsCall) (c : StatsCall) : List MetricPoint :=
  networkAndBlockIO (lastSamples earlier) c |>.2

/-! ### What the values should be -/

/-- So many in so many seconds. -/
def perSecond (n : ℕ) (secs : ℚ) : Extended := overFloat (float64 (.finite n)) secs

/-- A value is the rate of a counter: what it grew by, and never more than all of it. -/
structure RateMeets (prev cur : UInt64) (secs : ℚ) (value : Extended) : Prop where
  grown : prev ≤ cur → value = perSecond (cur.toNat - prev.toNat) secs
  bounded : greater value (perSecond cur.toNat secs) = false

/-- The call of the same container before. -/
def previousCall (earlier : List StatsCall) (c : StatsCall) : Option StatsCall :=
  (earlier.filter fun c' => c'.id == c.id).getLast?

/-- What the values of a call should be, after earlier calls. -/
structure StatsMeet (earlier : List StatsCall) (c : StatsCall) : Prop where
  /-- Every point has the rate of its counter. -/
  rates : ∀ p ∈ ioPoints earlier c, ∀ counter ∈ ioCounters, p.metricName = counter.1 →
    ∀ prev, previousCall earlier c = some prev →
      RateMeets (counter.2 prev.sample) (counter.2 c.sample)
        (seconds (c.now.sub prev.now)) p.value
  /-- Where a counter of the CPU went backwards, no share of it is reported. -/
  cpu : c.stats.cpuStats.totalUsage < c.stats.preCPUStats.totalUsage ∨
      c.stats.cpuStats.systemUsage < c.stats.preCPUStats.systemUsage →
    cpuPercent c.stats = .finite 0

/-! ### When they are -/

/-- A counter did not decrease, or so little that a `float64` does not tell what it wraps around to
from what it is. -/
def Grew (prev cur : UInt64) (secs : ℚ) : Prop :=
  prev ≤ cur ∨ perSecond (2 ^ 64 + cur.toNat - prev.toNat) secs = perSecond cur.toNat secs

/-- No counter of a call decreased, as far as it matters. -/
structure NoReset (earlier : List StatsCall) (c : StatsCall) : Prop where
  io : ∀ prev, previousCall earlier c = some prev → 0 < seconds (c.now.sub prev.now) →
    ∀ counter ∈ ioCounters,
      Grew (counter.2 prev.sample) (counter.2 c.sample) (seconds (c.now.sub prev.now))
  cpu : c.stats.cpuStats.totalUsage < c.stats.preCPUStats.totalUsage ∨
      c.stats.cpuStats.systemUsage < c.stats.preCPUStats.systemUsage →
    c.stats.preCPUStats.systemUsage = 0 ∨ c.stats.cpuStats.systemUsage = 0 ∨
      c.stats.cpuStats.systemUsage = c.stats.preCPUStats.systemUsage ∨
        c.stats.cpuStats.totalUsage = c.stats.preCPUStats.totalUsage

/-! ### The order of floats -/

theorem greater_antisymm {x y : Extended} (h : greater x y = false) (h' : greater y x = false) :
    x = y := by
  rcases x with q | s <;> rcases y with r | t
  · simp only [greater, decide_eq_false_iff_not, not_lt] at h h'
    rw [le_antisymm h h']
  · cases t <;> simp_all [greater]
  · cases s <;> simp_all [greater]
  · cases s <;> cases t <;> simp_all [greater]

theorem precision_pos : 0 < doubleFormat.precision := by decide

/-- Rounding keeps the order, up to the infinity. -/
theorem greater_float64 {q r : ℚ} (hq : 0 ≤ q) (h : q ≤ r) :
    greater (float64 (.finite q)) (float64 (.finite r)) = false := by
  have hmono := Format.nearest_mono precision_pos hq h
  have hzero := Format.nearest_mono precision_pos le_rfl hq
  rw [Format.nearest_zero] at hzero
  rw [float64, float64, Format.round, Format.round, abs_of_nonneg hzero,
    abs_of_nonneg (hzero.trans hmono)]
  split_ifs with hlt hlt' hlt'
  · exact decide_eq_false (not_lt.mpr hmono)
  · exact decide_eq_false (not_lt.mpr (hq.trans h))
  · exact absurd (hmono.trans_lt hlt') hlt
  · rw [greater, decide_eq_false (not_lt.mpr (hq.trans h)), Bool.and_false]

/-- A `uint64` is far from the largest `float64`. -/
theorem float64_natCast {n : ℕ} (h : n ≤ 2 ^ 64) :
    float64 (.finite n) = .finite (doubleFormat.nearest n) := by
  have hle : doubleFormat.nearest n ≤ 2 ^ (64 : ℤ) :=
    Format.nearest_le_zpow precision_pos (Nat.cast_nonneg n) (by exact_mod_cast h) (by decide)
  have hzero := Format.nearest_mono (F := doubleFormat) precision_pos le_rfl (Nat.cast_nonneg n)
  rw [Format.nearest_zero] at hzero
  rw [float64, Format.round, abs_of_nonneg hzero, if_pos]
  exact hle.trans_lt (zpow_lt_zpow_right₀ (by norm_num) (by decide))

theorem perSecond_eq {n : ℕ} (h : n ≤ 2 ^ 64) (secs : ℚ) :
    perSecond n secs = float64 (.finite (doubleFormat.nearest n / secs)) := by
  rw [perSecond, float64_natCast h, overFloat]

/-- More counts are not fewer per second. -/
theorem greater_perSecond {m n : ℕ} (h : m ≤ n) (hn : n ≤ 2 ^ 64) {secs : ℚ} (hsecs : 0 < secs) :
    greater (perSecond m secs) (perSecond n secs) = false := by
  have hzero := Format.nearest_mono (F := doubleFormat) precision_pos le_rfl (Nat.cast_nonneg m)
  rw [Format.nearest_zero] at hzero
  rw [perSecond_eq (h.trans hn), perSecond_eq hn]
  refine greater_float64 (div_nonneg hzero hsecs.le) ?_
  refine div_le_div_of_nonneg_right ?_ hsecs.le
  exact Format.nearest_mono precision_pos (Nat.cast_nonneg m) (by exact_mod_cast h)

theorem floatOf_zero : floatOf 0 = 0 := Format.nearest_zero

theorem one_le_floatOf {n : UInt64} (h : n ≠ 0) : 1 ≤ floatOf n := by
  have hn : 0 < n.toNat := Nat.pos_of_ne_zero fun heq => h (UInt64.toNat_inj.mp heq)
  have hle : (2 : ℚ) ^ (0 : ℤ) ≤ n.toNat := by exact_mod_cast hn
  exact_mod_cast Format.zpow_le_nearest precision_pos hle (by decide)

theorem floatOf_le (n : UInt64) : floatOf n ≤ 2 ^ (64 : ℤ) :=
  Format.nearest_le_zpow precision_pos (Nat.cast_nonneg _) (by exact_mod_cast n.toNat_lt.le)
    (by decide)

theorem sub_ne_zero_of_ne {a b : UInt64} (h : a ≠ b) : a - b ≠ 0 := by
  intro hsub
  have htoNat := congrArg UInt64.toNat hsub
  have ha := a.toNat_lt
  have hb := b.toNat_lt
  rw [UInt64.toNat_sub, UInt64.toNat_zero] at htoNat
  exact h (UInt64.toNat_inj.mp (by omega))

theorem CPUStats.one_le_online (c : CPUStats) : 1 ≤ c.online.toNat := by
  have hpos {n : UInt32} (h : n ≠ 0) : 1 ≤ n.toNat :=
    Nat.pos_of_ne_zero fun heq => h (UInt32.toNat_inj.mp heq)
  rw [CPUStats.online]
  split_ifs with hnone hempty
  · exact le_rfl
  · exact hpos hempty
  · exact hpos hnone

/-- A `float64` is at least a power of two. -/
def AtLeast (k : ℤ) : Extended → Prop
  | .finite q => 2 ^ k ≤ q
  | .infinite negative => negative = false

theorem AtLeast.ne_zero {k : ℤ} {x : Extended} (h : AtLeast k x) : x ≠ .finite 0 := by
  rintro rfl
  exact absurd h (not_le.mpr (zpow_pos (by norm_num) k))

theorem atLeast_float64 {k : ℤ} {q : ℚ} (h : 2 ^ k ≤ q) (hk : doubleFormat.emin ≤ k) :
    AtLeast k (float64 (.finite q)) := by
  have hpos : (0 : ℚ) < 2 ^ k := zpow_pos (by norm_num) k
  rw [float64, Format.round]
  split_ifs
  · exact Format.zpow_le_nearest precision_pos h hk
  · exact decide_eq_false (not_lt.mpr (hpos.le.trans h))

/-- Multiplying by one or more keeps a bound. -/
theorem AtLeast.timesFloat {k : ℤ} {x : Extended} (h : AtLeast k x) {r : ℚ} (hr : 1 ≤ r)
    (hk : doubleFormat.emin ≤ k) : AtLeast k (timesFloat x r) := by
  rcases x with q | negative
  · have hpos : (0 : ℚ) < 2 ^ k := zpow_pos (by norm_num) k
    refine atLeast_float64 (h.trans (le_mul_of_one_le_right (hpos.le.trans h) hr)) hk
  · exact h

/-! ### One counter -/

/-- What is computed of two counters, one after the other. -/
theorem rate_eq (prev cur : UInt64) (secs : ℚ) :
    overFloat (.finite (floatOf (cur - prev))) secs =
      perSecond (if prev ≤ cur then cur.toNat - prev.toNat
        else 2 ^ 64 + cur.toNat - prev.toNat) secs := by
  have hcur := cur.toNat_lt
  have hprev := prev.toNat_lt
  have hsub : (cur - prev).toNat = if prev ≤ cur then cur.toNat - prev.toNat
      else 2 ^ 64 + cur.toNat - prev.toNat := by
    rw [UInt64.toNat_sub]
    split_ifs with h <;> rw [UInt64.le_iff_toNat_le] at h <;> omega
  rw [← hsub, perSecond_eq (cur - prev).toNat_lt.le, overFloat, floatOf]

/-- **When a rate is one.** -/
theorem rateMeets_iff (prev cur : UInt64) {secs : ℚ} (hsecs : 0 < secs) :
    RateMeets prev cur secs (overFloat (.finite (floatOf (cur - prev))) secs) ↔
      Grew prev cur secs := by
  have hcur := cur.toNat_lt
  have hprev := prev.toNat_lt
  rw [rate_eq]
  by_cases h : prev ≤ cur
  · rw [if_pos h]
    exact ⟨fun _ => .inl h, fun _ => ⟨fun _ => rfl,
      greater_perSecond (Nat.sub_le _ _) hcur.le hsecs⟩⟩
  · rw [if_neg h]
    rw [UInt64.le_iff_toNat_le, not_le] at h
    have hmore := greater_perSecond (m := cur.toNat) (n := 2 ^ 64 + cur.toNat - prev.toNat)
      (by omega) (by omega) hsecs
    constructor
    · exact fun hmeets => .inr (greater_antisymm hmeets.bounded hmore)
    · rintro (hle | heq)
      · exact absurd (UInt64.le_iff_toNat_le.mp hle) (not_le.mpr h)
      · refine ⟨fun hle => absurd (UInt64.le_iff_toNat_le.mp hle) (not_le.mpr h), ?_⟩
        rw [heq]
        exact greater_perSecond le_rfl hcur.le hsecs

/-- Twice as much is not the same `float64`. -/
theorem float64_ne_of_double {q r : ℚ} (hlow : 2 ^ (-40 : ℤ) ≤ q) (hhigh : q ≤ 2 ^ (104 : ℤ))
    (hdouble : 2 * q ≤ r) : float64 (.finite r) ≠ float64 (.finite q) := by
  have hnormal : (2 : ℚ) ^ (doubleFormat.emin + doubleFormat.precision) ≤ q :=
    (zpow_le_zpow_right₀ (by norm_num) (by decide)).trans hlow
  have hpos : 0 < doubleFormat.nearest q := (zpow_pos (by norm_num) _).trans_le
    (Format.zpow_le_nearest precision_pos hlow (by decide))
  have hq : 0 ≤ q := (zpow_nonneg (by norm_num) _).trans hlow
  have hle : doubleFormat.nearest q ≤ 2 ^ (104 : ℤ) :=
    Format.nearest_le_zpow precision_pos hq hhigh (by decide)
  have hfinite : |doubleFormat.nearest q| < 2 ^ doubleFormat.emax := by
    rw [abs_of_pos hpos]
    exact hle.trans_lt (zpow_lt_zpow_right₀ (by norm_num) (by decide))
  have hmono := Format.nearest_mono (F := doubleFormat) precision_pos (by linarith) hdouble
  rw [Format.nearest_two_mul hnormal] at hmono
  rw [float64, float64, Format.round, Format.round, if_pos hfinite]
  split_ifs
  · intro heq
    have hsame := Extended.finite.inj heq
    linarith
  · exact fun heq => Extended.noConfusion heq

/-- A nanosecond and all the seconds of a duration are far from the ends of `float64`. -/
theorem seconds_bounds {d : ℤ} (hpos : 0 < d) (hlt : d < 2 ^ 63) :
    2 ^ (-40 : ℤ) ≤ seconds d ∧ seconds d ≤ 2 ^ (40 : ℤ) := by
  have hsplit : 1000000000 * d.tdiv 1000000000 + d.tmod 1000000000 = d := Int.mul_tdiv_add_tmod d _
  have hsec : 0 ≤ d.tdiv 1000000000 := Int.tdiv_nonneg hpos.le (by decide)
  have hnsec : 0 ≤ d.tmod 1000000000 := Int.tmod_nonneg _ hpos.le
  have hnsec' : d.tmod 1000000000 < 1000000000 := Int.tmod_lt_of_pos _ (by decide)
  rw [seconds]
  generalize d.tdiv 1000000000 = sec at *
  generalize d.tmod 1000000000 = nsec at *
  have hfraction : (0 : ℚ) ≤ nsec / 1000000000 := by positivity
  have hfraction' : (nsec : ℚ) / 1000000000 ≤ 2 ^ (0 : ℤ) := by
    rw [zpow_zero, div_le_one (by norm_num)]
    exact_mod_cast hnsec'.le
  have hround := Format.nearest_mono (F := doubleFormat) precision_pos le_rfl hfraction
  rw [Format.nearest_zero] at hround
  have hround' : doubleFormat.nearest (nsec / 1000000000) ≤ 2 ^ (0 : ℤ) :=
    Format.nearest_le_zpow precision_pos hfraction hfraction' (by decide)
  rw [zpow_zero] at hround'
  have hsec' : (sec : ℚ) ≤ 2 ^ 34 := by exact_mod_cast (by omega : sec ≤ 2 ^ 34)
  have hsecNonneg : (0 : ℚ) ≤ sec := by exact_mod_cast hsec
  constructor
  · refine Format.zpow_le_nearest precision_pos ?_ (by decide)
    rcases hsec.eq_or_lt with rfl | hone
    · have hnone : (2 : ℚ) ^ (-40 : ℤ) ≤ nsec / 1000000000 := by
        have hn : (1 : ℚ) ≤ nsec := by exact_mod_cast (by omega : 1 ≤ nsec)
        rw [le_div_iff₀ (by norm_num)]
        refine le_trans ?_ hn
        norm_num
      have hge := Format.zpow_le_nearest precision_pos hnone (by decide)
      simpa using hge
    · have hn : (1 : ℚ) ≤ sec := by exact_mod_cast hone
      have hsmall : (2 : ℚ) ^ (-40 : ℤ) ≤ 1 := by norm_num
      linarith
  · refine Format.nearest_le_zpow precision_pos (by linarith) ?_ (by decide)
    have hbig : (2 : ℚ) ^ 34 + 1 ≤ 2 ^ (40 : ℤ) := by norm_num
    linarith

/-- Below `2 ^ 63` the rounding hides no decrease. -/
theorem grew_iff {prev cur : UInt64} (hprev : prev.toNat ≤ 2 ^ 63) {d : ℤ} (hd : 0 < d)
    (hd' : d < 2 ^ 63) : Grew prev cur (seconds d) ↔ prev ≤ cur := by
  obtain ⟨hlow, hhigh⟩ := seconds_bounds hd hd'
  generalize seconds d = secs at *
  refine ⟨fun h => ?_, .inl⟩
  by_contra hlt
  have heq := h.resolve_left hlt
  rw [UInt64.le_iff_toNat_le, not_le] at hlt
  have hpos : 0 < secs := (zpow_pos (by norm_num) _).trans_le hlow
  -- the difference of a counter that fell wraps to more than twice the counter
  have hwrap : 2 * cur.toNat + 1 ≤ 2 ^ 64 + cur.toNat - prev.toNat := by omega
  have hn : 2 ^ 64 + cur.toNat - prev.toNat ≤ 2 ^ 64 := by omega
  rw [perSecond_eq hn, perSecond_eq cur.toNat_lt.le] at heq
  have hmono := Format.nearest_mono (F := doubleFormat) precision_pos
    (Nat.cast_nonneg (2 * cur.toNat)) (Nat.cast_le.mpr (Nat.le_of_succ_le hwrap))
  have hone_le : (1 : ℚ) ≤ 2 ^ (0 : ℤ) := by norm_num
  have hscale : (2 : ℚ) ^ (-40 : ℤ) * secs ≤ 1 := by
    have hmul : (2 : ℚ) ^ (-40 : ℤ) * secs ≤ 2 ^ (-40 : ℤ) * 2 ^ (40 : ℤ) :=
      mul_le_mul_of_nonneg_left hhigh (by positivity)
    rwa [← zpow_add₀ (by norm_num), show (-40 + 40 : ℤ) = 0 from rfl, zpow_zero] at hmul
  rcases Nat.eq_zero_or_pos cur.toNat with hzero | hcur
  · -- from nothing it wraps around to something
    have hone : (2 : ℚ) ^ (0 : ℤ) ≤ ((2 ^ 64 + cur.toNat - prev.toNat : ℕ) : ℚ) := by
      exact_mod_cast (by omega : 1 ≤ 2 ^ 64 + cur.toNat - prev.toNat)
    have hge := Format.zpow_le_nearest precision_pos hone (by decide)
    have hquotient : (2 : ℚ) ^ (-40 : ℤ) ≤
        doubleFormat.nearest ((2 ^ 64 + cur.toNat - prev.toNat : ℕ) : ℚ) / secs := by
      rw [le_div_iff₀ hpos]
      exact hscale.trans (hone_le.trans hge)
    refine (atLeast_float64 hquotient (by decide)).ne_zero (heq.trans ?_)
    rw [hzero, Nat.cast_zero, Format.nearest_zero, zero_div]
    decide +kernel
  · have hone : (2 : ℚ) ^ (0 : ℤ) ≤ cur.toNat := by exact_mod_cast hcur
    have hge := Format.zpow_le_nearest precision_pos hone (by decide)
    have hle := floatOf_le cur
    rw [Nat.cast_mul, Nat.cast_two, Format.nearest_two_mul
      ((zpow_le_zpow_right₀ (by norm_num) (by decide)).trans hone)] at hmono
    refine float64_ne_of_double ?_ ?_ ?_ heq
    · rw [le_div_iff₀ hpos]
      exact hscale.trans (hone_le.trans hge)
    · rw [div_le_iff₀ hpos]
      have hback : (2 : ℚ) ^ (104 : ℤ) * 2 ^ (-40 : ℤ) ≤ 2 ^ (104 : ℤ) * secs :=
        mul_le_mul_of_nonneg_left hlow (by positivity)
      rw [← zpow_add₀ (by norm_num)] at hback
      exact hle.trans hback
    · rw [← mul_div_assoc]
      exact div_le_div_of_nonneg_right hmono hpos.le

/-! ### The share of the CPU -/

/-- **When no share of the CPU is reported.** A reading of the system is missing, or one of the two
counters stands. -/
theorem cpuPercent_eq_zero (v : StatsResponse) :
    cpuPercent v = .finite 0 ↔ v.preCPUStats.systemUsage = 0 ∨ v.cpuStats.systemUsage = 0 ∨
      v.cpuStats.systemUsage = v.preCPUStats.systemUsage ∨
        v.cpuStats.totalUsage = v.preCPUStats.totalUsage := by
  rw [cpuPercent]
  by_cases hmissing : v.preCPUStats.systemUsage = 0 ∨ v.cpuStats.systemUsage = 0
  · rw [if_pos hmissing]
    exact iff_of_true rfl (hmissing.imp_right .inl)
  rw [if_neg hmissing]
  obtain ⟨hpre, hcur⟩ := not_or.mp hmissing
  simp only [hpre, hcur, false_or]
  by_cases hsystem : v.cpuStats.systemUsage = v.preCPUStats.systemUsage
  · rw [hsystem, UInt64.sub_self, floatOf_zero, if_pos le_rfl]
    exact iff_of_true rfl (.inl rfl)
  have hsys := one_le_floatOf (sub_ne_zero_of_ne hsystem)
  rw [if_neg (by linarith), or_iff_right hsystem]
  by_cases htotal : v.cpuStats.totalUsage = v.preCPUStats.totalUsage
  · have hzero : float64 (.finite 0) = .finite 0 := by decide +kernel
    rw [htotal, UInt64.sub_self, floatOf_zero, overFloat, zero_div, hzero, timesFloat, zero_mul,
      hzero, timesFloat, zero_mul, hzero]
    exact iff_of_true rfl rfl
  · have hcpu := one_le_floatOf (sub_ne_zero_of_ne htotal)
    have hquotient : (2 : ℚ) ^ (-64 : ℤ) ≤
        floatOf (v.cpuStats.totalUsage - v.preCPUStats.totalUsage) /
          floatOf (v.cpuStats.systemUsage - v.preCPUStats.systemUsage) := by
      rw [zpow_neg, ← one_div]
      refine div_le_div₀ (by linarith) hcpu (by linarith) (floatOf_le _)
    have hover := atLeast_float64 hquotient (by decide)
    have honline : (1 : ℚ) ≤ (v.cpuStats.online.toNat : ℚ) := by
      exact_mod_cast v.cpuStats.one_le_online
    have hvalue := (hover.timesFloat honline (by decide)).timesFloat
      (by norm_num : (1 : ℚ) ≤ 100) (by decide)
    exact iff_of_false hvalue.ne_zero htotal

/-! ### Runs -/

/-- `lastIO` holds the last sample of every container. -/
theorem get?_lastSamples (calls : List StatsCall) (id : String) :
    (lastSamples calls).get? id =
      ((calls.filter fun c => c.id == id).getLast?).map StatsCall.sample := by
  induction calls using List.reverseRecOn with
  | nil => rfl
  | append_singleton calls c ih =>
    rw [lastSamples, List.foldl_concat, ← lastSamples, networkAndBlockIO, SortedMap.get?_insert, ih,
      List.filter_append]
    by_cases h : c.id = id
    · rw [if_pos h, List.filter_cons_of_pos (by simpa using h), List.filter_nil,
        List.getLast?_append]
      rfl
    · rw [if_neg h, List.filter_cons_of_neg (by simpa using h), List.filter_nil, List.append_nil]

/-- The points of a call are the rates since the call before. -/
theorem points_eq {earlier : List StatsCall} {c prev : StatsCall}
    (h : previousCall earlier c = some prev) :
    ioPoints earlier c = c.ratesSince prev.sample := by
  rw [previousCall] at h
  rw [ioPoints, networkAndBlockIO, get?_lastSamples, h]
  rfl

/-- A rate is the only one of its name. -/
theorem ioCounters_unique : ∀ counter ∈ ioCounters, ∀ counter' ∈ ioCounters,
    counter.1 = counter'.1 → counter.2 = counter'.2 := by
  intro counter h counter' h' heq
  simp only [ioCounters, List.mem_cons, List.not_mem_nil, or_false] at h h'
  rcases h with rfl | rfl | rfl | rfl <;> rcases h' with rfl | rfl | rfl | rfl <;>
    first | rfl | exact absurd heq (by decide)

/-- **Key result.** The values of a call are rates, after any calls, exactly if no counter
decreased. -/
theorem statsMeet_iff (earlier : List StatsCall) (c : StatsCall) :
    StatsMeet earlier c ↔ NoReset earlier c := by
  have hcpu := cpuPercent_eq_zero c.stats
  constructor
  · intro h
    refine ⟨fun prev hprev hsecs counter hcounter => ?_, fun hback => hcpu.mp (h.cpu hback)⟩
    have hpoints : ioPoints earlier c = ioCounters.map _ :=
      (points_eq hprev).trans (if_neg (not_le.mpr hsecs))
    refine (rateMeets_iff _ _ hsecs).mp ?_
    exact h.rates _ (hpoints ▸ List.mem_map_of_mem hcounter) counter hcounter rfl prev hprev
  · intro h
    refine ⟨fun p hp counter hcounter hname prev hprev => ?_, fun hback => hcpu.mpr (h.cpu hback)⟩
    rw [points_eq hprev, StatsCall.ratesSince] at hp
    split_ifs at hp with hsecs
    · exact absurd hp List.not_mem_nil
    · obtain ⟨counter', hcounter', rfl⟩ := List.mem_map.mp hp
      rw [ioCounters_unique counter hcounter counter' hcounter' hname.symm]
      have hpos : 0 < seconds (c.now.sub prev.now) := not_le.mp hsecs
      exact (rateMeets_iff _ _ hpos).mpr (h.io prev hprev hpos counter' hcounter')

/-- A container with one network, and the bytes that it received. -/
def receivedCall (bytes : UInt64) (now : Time) : StatsCall where
  id := "c"
  stats := ⟨⟨0, [], 0, 1⟩, ⟨0, [], 0, 1⟩, SortedMap.ofList [("eth0", ⟨bytes, 0⟩)], []⟩
  now := now
  entityUID := "e"
  labels := ∅

/-- **A restart wraps around.** A second after 1000 bytes the restarted container has 100. -/
theorem restart_wraps : ¬ ∀ (earlier : List StatsCall) (c : StatsCall), StatsMeet earlier c := by
  intro h
  have hmeets := (h [receivedCall 1000 ⟨0⟩] (receivedCall 100 ⟨1000000000⟩)).rates
    ⟨"network.rx", ⟨1000000000⟩, perSecond (2 ^ 64 - 900) 1, "e", ∅⟩ (by decide +kernel)
    ("network.rx", IOSample.rxBytes) List.mem_cons_self rfl (receivedCall 1000 ⟨0⟩) rfl
  exact absurd hmeets.bounded (by decide +kernel)

end Argus
