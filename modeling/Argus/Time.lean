import Argus.Foundations.Digits
import Argus.Foundations.Gregorian
import Mathlib.Data.String.Basic
import Mathlib.Order.Lattice

/-!
# Instants and their stored text

Every timestamp column of the store is a `TEXT` column that holds
`t.UTC().Format(time.RFC3339Nano)`. `Time.format` is that text, and the store's window
filters, cutoffs, sort keys and the `workload_latest` guard are comparisons of such texts.

RFC3339Nano trims the trailing zeros of the fraction, and drops the fraction on a full
second, so the text order is not the time order: what follows a trimmed fraction is the
letter `Z`, which sorts after every digit and after the dot. `format_lt_iff` says exactly
when a comparison of two texts decides as the comparison of the two instants:
unless both lie in the same second and the written fraction of one continues the written
fraction of the other (`FractionCut`).
-/

namespace Argus

open Foundations

/-- An instant: nanoseconds since 0001-01-01T00:00:00Z, the zero value of `time.Time`. -/
structure Time where
  ns : ℕ
  deriving DecidableEq, Repr

namespace Time

theorem ns_injective : Function.Injective Time.ns := by
  rintro ⟨a⟩ ⟨b⟩ h
  exact congrArg Time.mk h

instance : LinearOrder Time := LinearOrder.lift' Time.ns ns_injective

theorem lt_def {t₁ t₂ : Time} : t₁ < t₂ ↔ t₁.ns < t₂.ns := Iff.rfl

/-- `t.IsZero()`. -/
def isZero (t : Time) : Bool := t.ns == 0

/-- `time.Unix(0, n)`, for an `n` that is not negative. -/
def unixNano (n : ℕ) : Time := ⟨62135596800 * 1000000000 + n⟩

/-- `t.Add(d)`, where that is not before the zero time. -/
def add (t : Time) (d : ℤ) : Time := ⟨(t.ns + d).toNat⟩

/-- `t.Sub(u)`: the nanoseconds between, cut to 64 bits. -/
def sub (t u : Time) : ℤ := max (-2 ^ 63) (min (2 ^ 63 - 1) ((t.ns : ℤ) - u.ns))

/-- Whole seconds. -/
def sec (t : Time) : ℕ := t.ns / 1000000000

/-- Nanoseconds within the second. -/
def nsec (t : Time) : ℕ := t.ns % 1000000000

/-- The instant's year is one of the years 1 to 9999. -/
def InYears (t : Time) : Prop := t.sec / 86400 < daysBeforeYear 9999

instance (t : Time) : Decidable t.InYears := by unfold InYears; infer_instance

/-- The digits of the fraction as written: nine digits without their trailing zeros. -/
def fraction (t : Time) : List Char := trimZeros (pad 9 t.nsec)

/-- `2006-01-02` of the RFC3339 layout. -/
def dateText (d : CivilDate) : List Char :=
  pad 4 d.year ++ '-' :: (pad 2 d.month ++ '-' :: pad 2 d.day)

/-- `15:04:05` of the RFC3339 layout, for a second of the day. -/
def clockText (s : ℕ) : List Char :=
  pad 2 (s / 3600) ++ ':' :: (pad 2 (s / 60 % 60) ++ ':' :: pad 2 (s % 60))

/-- `2006-01-02T15:04:05` of the RFC3339 layout. -/
def secondText (sec : ℕ) : List Char :=
  dateText (civilDate (sec / 86400)) ++ 'T' :: clockText (sec % 86400)

/-- `.999999999Z07:00` of the RFC3339Nano layout, in UTC: the dot is written only before a
non-empty fraction. -/
def fractionText (frac : List Char) : List Char :=
  match frac with
  | [] => ['Z']
  | d :: rest => '.' :: (d :: rest ++ ['Z'])

/-- `t.UTC().Format(time.RFC3339Nano)`. -/
def format (t : Time) : String :=
  String.ofList (secondText t.sec ++ fractionText t.fraction)

example : (Time.mk 63844761599120000000).format = "2024-02-28T23:59:59.12Z" := by decide +kernel

/-! ### Seconds -/

theorem length_dateText (d : CivilDate) : (dateText d).length = 10 := by simp [dateText]

theorem length_clockText (s : ℕ) : (clockText s).length = 8 := by simp [clockText]

theorem length_secondText (s : ℕ) : (secondText s).length = 19 := by
  simp [secondText, length_dateText, length_clockText]

/-- A later date has a later text. -/
private theorem dateText_lt {d₁ d₂ : ℕ} (h : d₁ < d₂) (h₂ : d₂ < daysBeforeYear 9999) :
    dateText (civilDate d₁) < dateText (civilDate d₂) := by
  have hy₁ := civilDate_year_le (h.trans h₂)
  have hy₂ := civilDate_year_le h₂
  have hm₁ := month_le_twelve d₁
  have hm₂ := month_le_twelve d₂
  have hd₁ := day_le_thirtyOne d₁
  have hd₂ := day_le_thirtyOne d₂
  rw [dateText, dateText, append_lt_append_iff (by simp), pad_lt_pad (by omega) (by omega),
    pad_inj (by omega) (by omega)]
  refine (civilDate_lt h).imp_right fun ⟨hy, hmd⟩ => ⟨hy, ?_⟩
  rw [List.cons_lt_cons_iff, append_lt_append_iff (by simp), pad_lt_pad (by omega) (by omega),
    pad_inj (by omega) (by omega), List.cons_lt_cons_iff, pad_lt_pad (by omega) (by omega)]
  exact .inr ⟨rfl, hmd.imp_right fun ⟨hm, hd⟩ => ⟨hm, .inr ⟨rfl, hd⟩⟩⟩

/-- A later second of the day has a later text. -/
private theorem clockText_lt {s₁ s₂ : ℕ} (h : s₁ < s₂) (h₂ : s₂ < 86400) :
    clockText s₁ < clockText s₂ := by
  rw [clockText, clockText, append_lt_append_iff (by simp), pad_lt_pad (by omega) (by omega),
    pad_inj (by omega) (by omega), List.cons_lt_cons_iff, append_lt_append_iff (by simp),
    pad_lt_pad (by omega) (by omega), pad_inj (by omega) (by omega), List.cons_lt_cons_iff,
    pad_lt_pad (by omega) (by omega)]
  have hcase : s₁ / 3600 < s₂ / 3600 ∨ s₁ / 3600 = s₂ / 3600 ∧
      (s₁ / 60 % 60 < s₂ / 60 % 60 ∨ s₁ / 60 % 60 = s₂ / 60 % 60 ∧ s₁ % 60 < s₂ % 60) := by
    omega
  exact hcase.imp_right fun ⟨hh, hms⟩ =>
    ⟨hh, .inr ⟨rfl, hms.imp_right fun ⟨hm, hs⟩ => ⟨hm, .inr ⟨rfl, hs⟩⟩⟩⟩

/-- **Seconds sort.** The part of the text before the fraction orders the whole seconds. -/
theorem secondText_lt {s₁ s₂ : ℕ} (h : s₁ < s₂) (h₂ : s₂ / 86400 < daysBeforeYear 9999) :
    secondText s₁ < secondText s₂ := by
  rw [secondText, secondText, append_lt_append_iff (by rw [length_dateText, length_dateText])]
  rcases Nat.lt_or_ge (s₁ / 86400) (s₂ / 86400) with hd | hd
  · exact .inl (dateText_lt hd h₂)
  · have hday : s₁ / 86400 = s₂ / 86400 := by omega
    rw [hday, List.cons_lt_cons_iff]
    exact .inr ⟨rfl, .inr ⟨rfl, clockText_lt (by omega) (Nat.mod_lt _ (by norm_num))⟩⟩

/-! ### Fractions -/

theorem nsec_lt (t : Time) : t.nsec < 10 ^ 9 := Nat.mod_lt _ (by norm_num)

theorem ns_eq (t : Time) : t.ns = 1000000000 * t.sec + t.nsec :=
  (Nat.div_add_mod t.ns 1000000000).symm

/-- A text that stops where the other goes on with a fraction digit sorts after it. -/
private theorem fractionText_append_lt {p rest : List Char} {d : Char} (hd : d ≤ '9') :
    fractionText (p ++ d :: rest) < fractionText p := by
  have hdZ : d < 'Z' := lt_of_le_of_lt hd (by decide)
  cases p with
  | nil =>
    rw [List.nil_append, fractionText, fractionText, List.cons_lt_cons_iff]
    exact .inl (by decide)
  | cons c p =>
    rw [List.cons_append, fractionText, fractionText, List.cons_lt_cons_iff]
    refine .inr ⟨rfl, ?_⟩
    rw [List.cons_append, List.cons_append, List.cons_lt_cons_iff, List.append_assoc,
      append_left_lt_iff, List.cons_append, List.cons_lt_cons_iff]
    exact .inr ⟨rfl, .inl hdZ⟩

/-- Fractions that do not continue each other sort as numbers. -/
private theorem fractionText_lt_iff {t₁ t₂ : Time} (h₁ : ¬ t₁.fraction <+: t₂.fraction)
    (h₂ : ¬ t₂.fraction <+: t₁.fraction) :
    fractionText t₁.fraction < fractionText t₂.fraction ↔ t₁.nsec < t₂.nsec := by
  have hne₁ : t₁.fraction ≠ [] := fun h => h₁ (h ▸ List.nil_prefix)
  have hne₂ : t₂.fraction ≠ [] := fun h => h₂ (h ▸ List.nil_prefix)
  have hform : ∀ l : List Char, l ≠ [] → fractionText l = '.' :: (l ++ ['Z']) := by
    intro l hl
    cases l with
    | nil => exact absurd rfl hl
    | cons c l => rfl
  rw [hform _ hne₁, hform _ hne₂, List.cons_lt_cons_iff]
  have key : t₁.fraction ++ ['Z'] < t₂.fraction ++ ['Z'] ↔ t₁.nsec < t₂.nsec := by
    rw [← pad_lt_pad (nsec_lt t₁) (nsec_lt t₂)]
    exact trimZeros_append_lt_iff h₁ h₂
  simp [key]

/-! ### The order of the stored texts -/

/-- Two different instants of one second, the written fraction of one continuing the written
fraction of the other: `12:00:00Z` and `12:00:00.5Z`, or `.12Z` and `.123Z`. -/
def FractionCut (t₁ t₂ : Time) : Prop :=
  t₁.sec = t₂.sec ∧ t₁.nsec ≠ t₂.nsec ∧
    (t₁.fraction <+: t₂.fraction ∨ t₂.fraction <+: t₁.fraction)

instance (t₁ t₂ : Time) : Decidable (FractionCut t₁ t₂) := by
  unfold FractionCut
  infer_instance

theorem FractionCut.symm {t₁ t₂ : Time} (h : FractionCut t₁ t₂) : FractionCut t₂ t₁ :=
  ⟨h.1.symm, h.2.1.symm, h.2.2.symm⟩

theorem format_lt_iff_toList {t₁ t₂ : Time} : t₁.format < t₂.format ↔
    secondText t₁.sec ++ fractionText t₁.fraction <
      secondText t₂.sec ++ fractionText t₂.fraction := by
  rw [String.lt_iff_toList_lt, format, format, String.toList_ofList, String.toList_ofList]

/-- Instants of different seconds have texts in their order. -/
theorem format_lt_of_sec_lt {t₁ t₂ : Time} (h : t₁.sec < t₂.sec) (h₂ : t₂.InYears) :
    t₁.format < t₂.format := by
  rw [format_lt_iff_toList]
  exact append_lt_append_of_lt (by rw [length_secondText, length_secondText])
    (secondText_lt h h₂)

/-- Instants of one second have texts in the order of their fractions. -/
theorem format_lt_iff_of_sec_eq {t₁ t₂ : Time} (h : t₁.sec = t₂.sec) :
    t₁.format < t₂.format ↔ fractionText t₁.fraction < fractionText t₂.fraction := by
  rw [format_lt_iff_toList, h, append_left_lt_iff]

/-- **The inversion.** When the written fraction of the later instant continues the one of
the earlier, the texts sort the wrong way round. -/
theorem format_lt_of_cut {t₁ t₂ : Time} (hsec : t₁.sec = t₂.sec) (hne : t₁.nsec ≠ t₂.nsec)
    (h : t₁.fraction <+: t₂.fraction) : t₁ < t₂ ∧ t₂.format < t₁.format := by
  have hpad : pad 9 t₁.nsec ≠ pad 9 t₂.nsec := fun heq =>
    hne ((pad_inj (nsec_lt t₁) (nsec_lt t₂)).mp heq)
  obtain ⟨hlt, d, rest, -, hd, hcont⟩ := trimZeros_prefix_cases hpad h
  constructor
  · rw [lt_def, ns_eq t₁, ns_eq t₂, hsec]
    have := (pad_lt_pad (nsec_lt t₁) (nsec_lt t₂)).mp hlt
    omega
  · rw [format_lt_iff_of_sec_eq hsec.symm, show t₂.fraction = t₁.fraction ++ d :: rest from hcont]
    exact fractionText_append_lt hd

/-- **Texts sort like instants, away from cut fractions.** -/
theorem format_lt_of_lt {t₁ t₂ : Time} (h₂ : t₂.InYears) (hcut : ¬ FractionCut t₁ t₂)
    (h : t₁ < t₂) : t₁.format < t₂.format := by
  have hns : t₁.ns < t₂.ns := h
  rcases Nat.lt_trichotomy t₁.sec t₂.sec with hs | hs | hs
  · exact format_lt_of_sec_lt hs h₂
  · have hnsec : t₁.nsec < t₂.nsec := by
      rw [ns_eq t₁, ns_eq t₂, hs] at hns
      omega
    have hpre : ¬ (t₁.fraction <+: t₂.fraction ∨ t₂.fraction <+: t₁.fraction) := fun hp =>
      hcut ⟨hs, hnsec.ne, hp⟩
    rw [format_lt_iff_of_sec_eq hs]
    exact (fractionText_lt_iff (fun hp => hpre (.inl hp)) fun hp => hpre (.inr hp)).mpr hnsec
  · have := Nat.div_le_div_right (c := 1000000000) hns.le
    simp only [sec] at hs
    omega

/-- The texts of two instants decide as the instants do exactly when no fraction is cut. -/
theorem format_lt_iff {t₁ t₂ : Time} (h₁ : t₁.InYears) (h₂ : t₂.InYears) :
    (t₁.format < t₂.format ↔ t₁ < t₂) ↔ ¬ FractionCut t₁ t₂ := by
  constructor
  · rintro hiff ⟨hsec, hne, hpre | hpre⟩
    · obtain ⟨hlt, hinv⟩ := format_lt_of_cut hsec hne hpre
      exact lt_asymm (hiff.mpr hlt) hinv
    · obtain ⟨hlt, hinv⟩ := format_lt_of_cut hsec.symm hne.symm hpre
      exact lt_asymm hlt (hiff.mp hinv)
  · intro hcut
    refine ⟨fun hf => ?_, format_lt_of_lt h₂ hcut⟩
    rcases lt_trichotomy t₁ t₂ with hlt | rfl | hgt
    · exact hlt
    · exact absurd hf (lt_irrefl _)
    · exact absurd hf (lt_asymm (format_lt_of_lt h₁ (fun h => hcut h.symm) hgt))

/-- The non-strict comparison decides as the instants do under the same condition. -/
theorem format_le_iff {t₁ t₂ : Time} (h₁ : t₁.InYears) (h₂ : t₂.InYears) :
    (t₁.format ≤ t₂.format ↔ t₁ ≤ t₂) ↔ ¬ FractionCut t₁ t₂ := by
  rw [← not_lt, ← not_lt, not_iff_not, format_lt_iff h₂ h₁]
  exact not_congr ⟨FractionCut.symm, FractionCut.symm⟩

end Time

end Argus
