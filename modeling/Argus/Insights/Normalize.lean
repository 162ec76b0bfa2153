import Argus.Foundations.Encodings
import Argus.Insights.Text

/-!
# Normalized messages

`insights.NormalizeLogMessage` strips what varies from a message, and `insights.PatternKey`
hashes what is left. A text that is cut at a number of bytes may be cut inside a character, and
then it is no text any more.
-/

namespace Argus

open Foundations Regex

/-- `uuidRe`. -/
def uuidRe : Regex := seqs [exactly 8 hexSet, char '-', exactly 4 hexSet, char '-',
  exactly 4 hexSet, char '-', exactly 4 hexSet, char '-', exactly 12 hexSet]

/-- `hex32Re`. -/
def hex32Re : Regex := seqs [boundary, exactly 32 hexSet, boundary]

/-- `numberRe`. -/
def numberRe : Regex :=
  seqs [boundary, some' Char.isDigit, opt (seqs [char '.', some' Char.isDigit]), boundary]

/-- `\d{4}-\d{2}-\d{2}`. -/
def dateRe : Regex := seqs [exactly 4 Char.isDigit, char '-', exactly 2 Char.isDigit, char '-',
  exactly 2 Char.isDigit]

/-- `\d{2}:\d{2}:\d{2}`. -/
def clockRe : Regex := seqs [exactly 2 Char.isDigit, char ':', exactly 2 Char.isDigit, char ':',
  exactly 2 Char.isDigit]

/-- `isoTimeRe`. -/
def isoTimeRe : Regex := seqs [dateRe, one (fun c => c == 'T' || c == ' '), clockRe,
  opt (seqs [char '.', some' Char.isDigit]),
  opt (alts [char 'Z', seqs [one (fun c => c == '+' || c == '-'), exactly 2 Char.isDigit,
    opt (char ':'), exactly 2 Char.isDigit]])]

/-- `winstonTsRe`. -/
def winstonTsRe : Regex :=
  seqs [dateRe, char 'T', clockRe, char '.', exactly 3 Char.isDigit, char 'Z']

/-- The first `n` bytes of a text, if they are not cut inside a character. -/
def cutBytes : ℕ → List Char → Option (List Char)
  | _, [] => some []
  | 0, _ => some []
  | n + 1, c :: cs =>
    if c.utf8Size ≤ n + 1 then (cutBytes (n + 1 - c.utf8Size) cs).map (c :: ·) else none

theorem cutBytes_ne_nil {n : ℕ} {cs cut : List Char} (hcs : cs ≠ [])
    (h : cutBytes (n + 1) cs = some cut) : cut ≠ [] := by
  cases cs with
  | nil => exact absurd rfl hcs
  | cons c cs =>
    rw [cutBytes] at h
    split_ifs at h
    obtain ⟨rest, -, rfl⟩ := Option.map_eq_some_iff.mp h
    exact List.cons_ne_nil _ _

/-- Byte `n` is the end of a character, or there are no more than `n` bytes. -/
def AtBoundary (n : ℕ) (cs : List Char) : Prop :=
  (cs.map Char.utf8Size).sum ≤ n ∨ ∃ cut, cut <+: cs ∧ (cut.map Char.utf8Size).sum = n

/-- A text is cut to a text where a character ends. -/
theorem isSome_cutBytes_iff {n : ℕ} {cs : List Char} :
    (cutBytes n cs).isSome = true ↔ AtBoundary n cs := by
  induction cs generalizing n with
  | nil => simp [cutBytes, AtBoundary]
  | cons c cs ih =>
    have hpos := c.utf8Size_pos
    rw [AtBoundary, List.map_cons, List.sum_cons]
    cases n with
    | zero => exact iff_of_true (by simp [cutBytes]) (.inr ⟨[], List.nil_prefix, rfl⟩)
    | succ n =>
      rw [cutBytes]
      split_ifs with hfits
      · rw [Option.isSome_map, ih, AtBoundary]
        refine or_congr (by omega) ⟨?_, ?_⟩
        · rintro ⟨cut, hcut, hsum⟩
          refine ⟨c :: cut, (List.prefix_cons_inj c).mpr hcut, ?_⟩
          rw [List.map_cons, List.sum_cons]
          omega
        · rintro ⟨cut, hcut, hsum⟩
          rcases List.prefix_cons_iff.mp hcut with rfl | ⟨cut, rfl, hcut⟩
          · exact absurd hsum (by simp)
          · rw [List.map_cons, List.sum_cons] at hsum
            exact ⟨cut, (List.prefix_cons_inj c).mp hcut, by omega⟩
      · refine iff_of_false (by simp) ?_
        rintro (hle | ⟨cut, hcut, hsum⟩)
        · omega
        -- a first character of more than `n` bytes is in every prefix
        · rcases List.prefix_cons_iff.mp hcut with rfl | ⟨cut, rfl, -⟩
          · exact absurd hsum (by simp)
          · rw [List.map_cons, List.sum_cons] at hsum
            omega

theorem cutBytes_isPrefix {n : ℕ} {cs cut : List Char} (h : cutBytes n cs = some cut) :
    cut <+: cs := by
  induction cs generalizing n cut with
  | nil =>
    rw [cutBytes, Option.some.injEq] at h
    exact h ▸ List.nil_prefix
  | cons c cs ih =>
    cases n with
    | zero =>
      rw [cutBytes, Option.some.injEq] at h
      · exact h ▸ List.nil_prefix
      · simp
    | succ n =>
      rw [cutBytes] at h
      split_ifs at h
      obtain ⟨rest, hrest, rfl⟩ := Option.map_eq_some_iff.mp h
      exact (List.prefix_cons_inj c).mpr (ih hrest)

/-- Among ASCII characters every byte is one. -/
theorem cutBytes_ascii {cs : List Char} (h : ∀ c ∈ cs, c.toNat < 128) (n : ℕ) :
    cutBytes n cs = some (cs.take n) := by
  induction cs generalizing n with
  | nil => rw [cutBytes, List.take_nil]
  | cons c cs ih =>
    obtain ⟨hc, hcs⟩ := List.forall_mem_cons.mp h
    cases n with
    | zero => simp [cutBytes]
    | succ n =>
      rw [cutBytes, utf8Size_ascii hc, if_pos (by omega), Nat.add_sub_cancel, ih hcs]
      rfl

/-- `NormalizeLogMessage`, where it is a text. -/
def normalizeLogMessage (message : String) : Option String :=
  let s := trimSpace message
  if s = "" then some ""
  else
    let s := isoTimeRe.replaceAll s "<ts>"
    let s := winstonTsRe.replaceAll s "<ts>"
    let s := uuidRe.replaceAll s "<uuid>"
    let s := hex32Re.replaceAll s "<hex>"
    let s := numberRe.replaceAll s "<n>"
    (cutBytes 240 ([' '].intercalate (fields s))).map String.ofList

/-- What `NormalizeLogMessage` cuts. -/
def normalizedText (message : String) : List Char :=
  let s := trimSpace message
  if s = "" then []
  else
    let s := isoTimeRe.replaceAll s "<ts>"
    let s := winstonTsRe.replaceAll s "<ts>"
    let s := uuidRe.replaceAll s "<uuid>"
    let s := hex32Re.replaceAll s "<hex>"
    let s := numberRe.replaceAll s "<n>"
    [' '].intercalate (fields s)

theorem normalizeLogMessage_eq (message : String) :
    normalizeLogMessage message = (cutBytes 240 (normalizedText message)).map String.ofList := by
  by_cases h : trimSpace message = ""
  · rw [normalizeLogMessage, normalizedText, if_pos h, if_pos h]
    rfl
  · rw [normalizeLogMessage, normalizedText, if_neg h, if_neg h]

theorem mem_intercalate {sep : List Char} {words : List (List Char)} {c : Char}
    (h : c ∈ sep.intercalate words) : c ∈ sep ∨ ∃ w ∈ words, c ∈ w := by
  induction words with
  | nil => exact absurd h (by simp)
  | cons w words ih =>
    cases words with
    | nil => exact .inr ⟨w, List.mem_singleton_self w, by simpa using h⟩
    | cons v words =>
      rw [List.intercalate_cons_cons, List.mem_append, List.mem_append] at h
      rcases h with (h | h) | h
      · exact .inr ⟨w, List.mem_cons_self, h⟩
      · exact .inl h
      · exact (ih h).imp_right fun ⟨u, hu, hc⟩ => ⟨u, List.mem_cons_of_mem w hu, hc⟩

/-- The characters that a normalized text has of its own. -/
def normalizingChars : List Char := "<ts><uuid><hex><n> ".toList

/-- A normalized text has no other characters than its message and the replacements. -/
theorem mem_of_mem_normalizedText {message : String} {c : Char}
    (h : c ∈ normalizedText message) : c ∈ message.toList ∨ c ∈ normalizingChars := by
  rw [normalizedText] at h
  split_ifs at h with hblank
  · exact absurd h List.not_mem_nil
  rcases mem_intercalate h with hspace | hword
  · exact .inr (List.mem_singleton.mp hspace ▸ by decide)
  -- back through the replacements
  have hback : ∀ {r : Regex} {s replacement : String},
      (∀ d ∈ replacement.toList, d ∈ normalizingChars) →
        (c ∈ s.toList → c ∈ message.toList ∨ c ∈ normalizingChars) →
          c ∈ (r.replaceAll s replacement).toList →
            c ∈ message.toList ∨ c ∈ normalizingChars := by
    intro r s replacement hreplacement hs hc
    exact (mem_of_mem_replaceAll hc).elim hs fun hc => .inr (hreplacement c hc)
  refine hback (forall_mem_of_all (by decide)) (hback (forall_mem_of_all (by decide)) (hback
    (forall_mem_of_all (by decide)) (hback (forall_mem_of_all (by decide)) (hback
      (forall_mem_of_all (by decide)) ?_)))) (exists_mem_fields_iff.mp hword).1
  exact fun hc => .inl (mem_of_mem_trimSpace hc)

theorem mem_intercalate_of_mem {sep w : List Char} {words : List (List Char)} {c : Char}
    (hw : w ∈ words) (hc : c ∈ w) : c ∈ sep.intercalate words := by
  induction words with
  | nil => exact absurd hw List.not_mem_nil
  | cons v words ih =>
    cases words with
    | nil =>
      rw [List.intercalate_singleton]
      exact List.mem_singleton.mp hw ▸ hc
    | cons u words =>
      rw [List.intercalate_cons_cons]
      rcases List.mem_cons.mp hw with rfl | hw
      · exact List.mem_append_left _ (List.mem_append_left _ hc)
      · exact List.mem_append_right _ (ih hw)

/-- A message that is not blank has a normalized text. -/
theorem normalizedText_ne_nil {message : String} (h : trimSpace message ≠ "") :
    normalizedText message ≠ [] := by
  have hkeep : ∀ {s : String} (r : Regex) (replacement : String), '<' ∈ replacement.toList →
      (∃ c ∈ s.toList, isSpace c = false) →
        ∃ c ∈ (r.replaceAll s replacement).toList, isSpace c = false :=
    fun r replacement hlt hs => exists_mem_replaceAll hs ⟨'<', hlt, by decide⟩
  obtain ⟨c, hc, hspace⟩ := hkeep numberRe "<n>" (by decide) (hkeep hex32Re "<hex>" (by decide)
    (hkeep uuidRe "<uuid>" (by decide) (hkeep winstonTsRe "<ts>" (by decide)
      (hkeep isoTimeRe "<ts>" (by decide) (exists_mem_trimSpace h)))))
  obtain ⟨w, hw, hcw⟩ := exists_mem_fields_iff.mpr ⟨hc, hspace⟩
  rw [normalizedText, if_neg h]
  exact List.ne_nil_of_mem (mem_intercalate_of_mem hw hcw)

@[simp] theorem normalizeLogMessage_empty : normalizeLogMessage "" = some "" := rfl

/-- `PatternKey`. -/
def patternKey (rt : Runtime) (normalized : String) : String :=
  String.ofList (hexText ((rt.sha256 normalized).take 16))

end Argus
