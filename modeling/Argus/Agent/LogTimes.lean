import Argus.Agent.SpoolFile

/-!
# Timestamps in the text of a log

`time.Parse` with the layouts `time.RFC3339Nano` and `time.RFC3339`, which accept the same texts:
the hour may have one digit, a comma may stand for the dot, and the fraction may have any number of
digits. `parse_format` says that what `Time.format` writes is read back.
-/

namespace Argus

open Foundations

namespace Time

/-- The hour: two digits, or one. -/
def readHour : List Char → Option (ℕ × List Char)
  | c :: d :: cs =>
    if !c.isDigit then none
    else if d.isDigit then some (digitsValue [c, d], cs)
    else some (digitsValue [c], d :: cs)
  | _ => none

/-- `parseNanoseconds`: digits after the ninth do not count. -/
def nanos (digits : List Char) : ℕ :=
  digitsValue (digits.take 9) * 10 ^ (9 - (digits.take 9).length)

/-- The fraction, if there is one. -/
def readNanos : List Char → ℕ × List Char
  | c :: d :: cs =>
    if (c = '.' ∨ c = ',') ∧ d.isDigit then
      (nanos ((d :: cs).takeWhile Char.isDigit), (d :: cs).dropWhile Char.isDigit)
    else (0, c :: d :: cs)
  | cs => (0, cs)

/-- `Z07:00`: the seconds that the zone is ahead. -/
def readOffset : List Char → Option (ℤ × List Char)
  | [] => none
  | c :: cs =>
    if c = 'Z' then some (0, cs)
    else do
      let (hour, cs) ← readFixed 2 cs
      let cs ← expect ':' cs
      let (minute, cs) ← readFixed 2 cs
      if 24 < hour ∨ 60 < minute then none
      else if c = '+' then some ((hour * 60 + minute) * 60, cs)
      else if c = '-' then some (-((hour * 60 + minute) * 60), cs)
      else none

/-- `time.Parse(time.RFC3339Nano, text)`, where an instant before the zero time becomes that. -/
def parse (text : List Char) : Option Time := do
  let (year, cs) ← readFixed 4 text
  let cs ← expect '-' cs
  let (month, cs) ← readFixed 2 cs
  let cs ← expect '-' cs
  let (day, cs) ← readFixed 2 cs
  let cs ← expect 'T' cs
  let (hour, cs) ← readHour cs
  let cs ← expect ':' cs
  let (minute, cs) ← readFixed 2 cs
  let cs ← expect ':' cs
  let (second, cs) ← readFixed 2 cs
  let (ns, cs) := readNanos cs
  let (offset, cs) ← readOffset cs
  if cs ≠ [] ∨ 24 ≤ hour ∨ 60 ≤ minute ∨ 60 ≤ second then none
  else if month = 0 ∨ day = 0 ∨ (monthLengths year).getD (month - 1) 0 < day then none
  else
    let days : ℤ := dayOf year month day - if year = 0 then 366 else 0
    let sec : ℤ := days * 86400 + (hour * 3600 + minute * 60 + second) - offset
    some ⟨(sec * 1000000000 + ns).toNat⟩

theorem readHour_pad {n : ℕ} (h : n < 100) (cs : List Char) :
    readHour (pad 2 n ++ cs) = some (n, cs) := by
  have hpad : pad 2 n = [digit (n / 10 % 10), digit (n % 10)] := by
    simp [pad]
  have hdigit : ∀ d < 10, (digit d).isDigit = true := by decide
  have hvalue : digitsValue [digit (n / 10 % 10), digit (n % 10)] = n := by
    rw [← hpad, digitsValue_pad, Nat.mod_eq_of_lt (by omega)]
  rw [hpad]
  simp only [List.cons_append, List.nil_append, readHour]
  rw [hdigit _ (Nat.mod_lt _ (by decide)), hdigit _ (Nat.mod_lt _ (by decide)), hvalue]
  rfl

/-- Trailing zeros do not count. -/
theorem nanos_fraction (t : Time) : nanos t.fraction = t.nsec := by
  have hlength : t.fraction.length ≤ 9 := by
    rw [fraction, ← length_pad 9 t.nsec]
    exact (trimZeros_isPrefix _).length_le
  have hzeros : ∀ (l : List Char) (k : ℕ),
      digitsValue (l ++ List.replicate k '0') = digitsValue l * 10 ^ k := by
    intro l k
    have hreplicate : ∀ j, digitsValue (List.replicate j '0') = 0 := fun j => by
      rw [← pad_zero, digitsValue_pad, Nat.zero_mod]
    induction l with
    | nil => rw [List.nil_append, hreplicate, digitsValue, Nat.zero_mul]
    | cons c l ih =>
      rw [List.cons_append, digitsValue, ih, digitsValue, List.length_append,
        List.length_replicate, pow_add]
      ring
  have hdigits := trimZeros_append_replicate (pad 9 t.nsec)
  rw [nanos, List.take_of_length_le hlength, ← hzeros]
  rw [length_pad] at hdigits
  rw [fraction, hdigits, digitsValue_pad, Nat.mod_eq_of_lt t.nsec_lt]

theorem readNanos_fractionText (t : Time) :
    readNanos (fractionText t.fraction) = (t.nsec, ['Z']) := by
  have hnanos := nanos_fraction t
  rcases hfrac : t.fraction with - | ⟨d, rest⟩
  · rw [hfrac] at hnanos
    rw [← hnanos]
    rfl
  · have hdigits : ∀ c ∈ d :: rest, c.isDigit = true := fun c hc => by
      have hpad : c ∈ pad 9 t.nsec :=
        (trimZeros_isPrefix _).subset (show c ∈ t.fraction from hfrac ▸ hc)
      exact isDigit_of_mem_pad hpad
    have htake : (d :: rest ++ ['Z']).takeWhile Char.isDigit = d :: rest := by
      rw [List.takeWhile_append_of_pos hdigits]
      simp
    have hdrop : (d :: rest ++ ['Z']).dropWhile Char.isDigit = ['Z'] := by
      rw [List.dropWhile_append_of_pos hdigits]
      rfl
    rw [fractionText, List.cons_append, readNanos, if_pos ⟨.inl rfl, hdigits d (by simp)⟩,
      ← List.cons_append, htake, hdrop, ← hnanos, hfrac]

/-- **Written instants are read back.** -/
theorem parse_format {t : Time} (h : t.InYears) : parse t.format.toList = some t := by
  have hyear := civilDate_year_le h
  have hmonth := month_le_twelve (t.sec / 86400)
  have hday := day_le_thirtyOne (t.sec / 86400)
  obtain ⟨hmonth', hday', hvalid⟩ := civilDate_valid (t.sec / 86400)
  have hns := ns_eq t
  rw [format, String.toList_ofList, secondText, dateText, clockText]
  simp only [parse, List.append_assoc, List.cons_append, readFixed_pad, expect_self,
    Option.bind_eq_bind, Option.bind_some, readHour_pad (show t.sec % 86400 / 3600 < 100 by omega),
    readNanos_fractionText, readOffset]
  rw [Nat.mod_eq_of_lt (show (civilDate (t.sec / 86400)).year < 10 ^ 4 by omega),
    Nat.mod_eq_of_lt (show (civilDate (t.sec / 86400)).month < 10 ^ 2 by omega),
    Nat.mod_eq_of_lt (show (civilDate (t.sec / 86400)).day < 10 ^ 2 by omega),
    Nat.mod_eq_of_lt (show t.sec % 86400 / 60 % 60 < 10 ^ 2 by omega),
    Nat.mod_eq_of_lt (show t.sec % 86400 % 60 < 10 ^ 2 by omega), dayOf_civilDate]
  simp only [if_true, Option.bind_some]
  have hpos : (civilDate (t.sec / 86400)).year ≠ 0 := Nat.succ_ne_zero _
  rw [if_neg (not_or.mpr ⟨not_not.mpr rfl, by omega⟩), if_neg (by omega), if_neg hpos]
  refine congrArg (fun ns => some (Time.mk ns)) ?_
  push_cast
  omega

/-! ### The characters of a timestamp -/

/-- Whether a character can be part of a timestamp. -/
def isStampChar (c : Char) : Bool := c.isDigit || "-T:.,Z+".toList.contains c

theorem stampChar_ascii {c : Char} (h : isStampChar c = true) : c.toNat < 128 ∧ c ≠ ' ' := by
  rcases Bool.or_eq_true_iff.mp h with hdigit | hmark
  · have hd : c.toNat ≤ '9'.toNat := (Char.isDigit_iff_toNat.mp hdigit).2
    refine ⟨lt_of_le_of_lt hd (by decide), ?_⟩
    rintro rfl
    exact absurd hdigit (by decide)
  · have hall : ∀ d ∈ "-T:.,Z+".toList, d.toNat < 128 ∧ d ≠ ' ' := forall_mem_of_all (by decide)
    exact hall c (List.contains_iff_mem.mp hmark)

theorem exists_of_readFixed {k v : ℕ} {cs rest : List Char} (h : readFixed k cs = some (v, rest)) :
    ∃ digits, cs = digits ++ rest ∧ digits.length = k ∧ ∀ c ∈ digits, isStampChar c = true := by
  rw [readFixed] at h
  split_ifs at h with hdigits
  obtain ⟨-, rfl⟩ := Prod.mk.inj (Option.some.inj h)
  refine ⟨cs.take k, (List.take_append_drop k cs).symm, hdigits.1, fun c hc => ?_⟩
  rw [isStampChar, List.all_eq_true.mp hdigits.2 c hc, Bool.true_or]

theorem eq_cons_of_expect {c : Char} {cs rest : List Char} (h : expect c cs = some rest) :
    cs = c :: rest := by
  cases cs with
  | nil => exact absurd h (by simp [expect])
  | cons d cs =>
    rw [expect] at h
    split_ifs at h with hd
    rw [hd, Option.some.inj h]

theorem exists_of_readHour {v : ℕ} {cs rest : List Char} (h : readHour cs = some (v, rest)) :
    ∃ digits, cs = digits ++ rest ∧ 1 ≤ digits.length ∧ ∀ c ∈ digits, isStampChar c = true := by
  rcases cs with - | ⟨c, - | ⟨d, cs⟩⟩
  · exact absurd h (by simp [readHour])
  · exact absurd h (by simp [readHour])
  · rw [readHour] at h
    split_ifs at h with hc hd
    · obtain ⟨-, rfl⟩ := Prod.mk.inj (Option.some.inj h)
      refine ⟨[c, d], rfl, by simp, ?_⟩
      simp only [Bool.not_eq_true, Bool.not_eq_false'] at hc
      simp [isStampChar, hc, hd]
    · obtain ⟨-, rfl⟩ := Prod.mk.inj (Option.some.inj h)
      refine ⟨[c], rfl, by simp, ?_⟩
      simp only [Bool.not_eq_true, Bool.not_eq_false'] at hc
      simp [isStampChar, hc]

theorem exists_of_readNanos (cs : List Char) :
    ∃ digits, cs = digits ++ (readNanos cs).2 ∧ ∀ c ∈ digits, isStampChar c = true := by
  rcases cs with - | ⟨c, - | ⟨d, cs⟩⟩
  · exact ⟨[], rfl, by simp⟩
  · exact ⟨[], rfl, by simp⟩
  · rw [readNanos]
    split_ifs with h
    · refine ⟨c :: (d :: cs).takeWhile Char.isDigit, ?_, ?_⟩
      · rw [List.cons_append, List.takeWhile_append_dropWhile]
      · intro x hx
        rcases List.mem_cons.mp hx with rfl | hx
        · rcases h.1 with rfl | rfl <;> decide
        · rw [isStampChar, List.mem_takeWhile_imp hx, Bool.true_or]
    · exact ⟨[], rfl, by simp⟩

theorem exists_of_readOffset {v : ℤ} {cs rest : List Char} (h : readOffset cs = some (v, rest)) :
    ∃ zone, cs = zone ++ rest ∧ 1 ≤ zone.length ∧ ∀ c ∈ zone, isStampChar c = true := by
  cases cs with
  | nil => exact absurd h (by simp [readOffset])
  | cons c cs =>
    rw [readOffset] at h
    by_cases hz : c = 'Z'
    · rw [if_pos hz] at h
      obtain ⟨-, rfl⟩ := Prod.mk.inj (Option.some.inj h)
      refine ⟨[c], rfl, by simp, fun x hx => ?_⟩
      rw [List.mem_singleton.mp hx, hz]
      decide
    · rw [if_neg hz] at h
      simp only [Option.bind_eq_bind, Option.bind_eq_some_iff, Prod.exists] at h
      obtain ⟨hour, cs₁, h₁, cs₂, h₂, minute, cs₃, h₃, h⟩ := h
      obtain ⟨ds, rfl, -, hds⟩ := exists_of_readFixed h₁
      obtain rfl := eq_cons_of_expect h₂
      obtain ⟨es, rfl, -, hes⟩ := exists_of_readFixed h₃
      have hsign : isStampChar c = true ∧ cs₃ = rest := by
        split_ifs at h with hrange hplus hminus
        · rw [hplus]
          exact ⟨by decide, (Prod.mk.inj (Option.some.inj h)).2⟩
        · rw [hminus]
          exact ⟨by decide, (Prod.mk.inj (Option.some.inj h)).2⟩
      obtain ⟨hc, rfl⟩ := hsign
      refine ⟨c :: (ds ++ ':' :: es), by simp, by simp, ?_⟩
      intro x hx
      simp only [List.mem_cons, List.mem_append] at hx
      rcases hx with rfl | hx | rfl | hx
      · exact hc
      · exact hds x hx
      · decide
      · exact hes x hx

/-- **What a timestamp looks like.** It has a `T` after ten characters and at least eight more. -/
theorem exists_of_parse {text : List Char} {t : Time} (h : parse text = some t) :
    ∃ date clock, text = date ++ 'T' :: clock ∧ date.length = 10 ∧ 8 ≤ clock.length ∧
      ∀ c ∈ text, isStampChar c = true := by
  rw [parse] at h
  -- each part of the text was read by its reader
  obtain ⟨⟨year, cs₁⟩, h₁, h⟩ := Option.bind_eq_some_iff.mp h
  obtain ⟨cs₂, h₂, h⟩ := Option.bind_eq_some_iff.mp h
  obtain ⟨⟨month, cs₃⟩, h₃, h⟩ := Option.bind_eq_some_iff.mp h
  obtain ⟨cs₄, h₄, h⟩ := Option.bind_eq_some_iff.mp h
  obtain ⟨⟨day, cs₅⟩, h₅, h⟩ := Option.bind_eq_some_iff.mp h
  obtain ⟨cs₆, h₆, h⟩ := Option.bind_eq_some_iff.mp h
  obtain ⟨⟨hour, cs₇⟩, h₇, h⟩ := Option.bind_eq_some_iff.mp h
  obtain ⟨cs₈, h₈, h⟩ := Option.bind_eq_some_iff.mp h
  obtain ⟨⟨minute, cs₉⟩, h₉, h⟩ := Option.bind_eq_some_iff.mp h
  obtain ⟨cs₁₀, h₁₀, h⟩ := Option.bind_eq_some_iff.mp h
  obtain ⟨⟨second, cs₁₁⟩, h₁₁, h⟩ := Option.bind_eq_some_iff.mp h
  dsimp only at h
  obtain ⟨⟨offset, cs₁₂⟩, h₁₂, h⟩ := Option.bind_eq_some_iff.mp h
  dsimp only at h
  have hend : cs₁₂ = [] := by
    by_contra hrest
    rw [if_pos (.inl hrest)] at h
    exact Option.some_ne_none t h.symm
  obtain ⟨ys, rfl, hys, hys'⟩ := exists_of_readFixed h₁
  obtain rfl := eq_cons_of_expect h₂
  obtain ⟨ms, rfl, hms, hms'⟩ := exists_of_readFixed h₃
  obtain rfl := eq_cons_of_expect h₄
  obtain ⟨ds, rfl, hds, hds'⟩ := exists_of_readFixed h₅
  obtain rfl := eq_cons_of_expect h₆
  obtain ⟨hs, rfl, hhs, hhs'⟩ := exists_of_readHour h₇
  obtain rfl := eq_cons_of_expect h₈
  obtain ⟨mis, rfl, hmis, hmis'⟩ := exists_of_readFixed h₉
  obtain rfl := eq_cons_of_expect h₁₀
  obtain ⟨ss, rfl, hss, hss'⟩ := exists_of_readFixed h₁₁
  obtain ⟨fs, hfs, hfs'⟩ := exists_of_readNanos cs₁₁
  obtain ⟨zs, hzs, hzs', hzs''⟩ := exists_of_readOffset h₁₂
  rw [hend, List.append_nil] at hzs
  rw [hzs] at hfs
  refine ⟨ys ++ '-' :: ms ++ '-' :: ds, hs ++ ':' :: mis ++ ':' :: ss ++ cs₁₁, by simp, ?_, ?_, ?_⟩
  · simp [hys, hms, hds]
  · rw [hfs]
    simp only [List.length_append, List.length_cons]
    omega
  · have hmark : isStampChar '-' = true ∧ isStampChar ':' = true ∧ isStampChar 'T' = true := by
      decide
    obtain ⟨hdash, hcolon, ht⟩ := hmark
    rw [hfs]
    simp only [List.forall_mem_append, List.forall_mem_cons]
    exact ⟨hys', hdash, hms', hdash, hds', ht, hhs', hcolon, hmis', hcolon, hss', hfs', hzs''⟩

end Time

/-- A text that is a timestamp. -/
structure Stamp where
  text : List Char
  time : Time
  parse_eq : Time.parse text = some time

namespace Stamp

/-- An instant in UTC, as it is written. -/
def ofTime (t : Time) (h : t.InYears) : Stamp := ⟨t.format.toList, t, Time.parse_format h⟩

theorem ascii (s : Stamp) : ∀ c ∈ s.text, c.toNat < 128 := by
  obtain ⟨date, clock, -, -, -, hchars⟩ := Time.exists_of_parse s.parse_eq
  exact fun c hc => (Time.stampChar_ascii (hchars c hc)).1

theorem space_notMem (s : Stamp) : ' ' ∉ s.text := by
  obtain ⟨date, clock, -, -, -, hchars⟩ := Time.exists_of_parse s.parse_eq
  exact fun hc => (Time.stampChar_ascii (hchars ' ' hc)).2 rfl

end Stamp

end Argus
