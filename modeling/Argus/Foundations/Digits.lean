import Mathlib.Data.Char
import Mathlib.Data.List.DropRight
import Mathlib.Data.List.Lex
import Mathlib.Tactic.Linarith
import Mathlib.Tactic.Ring

/-!
# Decimal text and its order

Zero-padded decimal numbers of a fixed width sort as texts exactly as they sort as numbers
(`pad_lt_pad`), and blocks of equal length compare block by block
(`append_lt_append_iff`). Digits whose trailing zeros are trimmed lose that property: two
trimmed texts still compare like the padded ones when neither is a prefix of the other
(`trimZeros_append_lt_iff`), and when one is a proper prefix of the other the comparison is
decided by whatever follows it (`trimZeros_prefix_cases`).

All texts are `List Char` with the lexicographic order, which on the UTF-8 encodings is the
byte order.
-/

namespace Foundations

/-! ### Lexicographic comparison of blocks -/

section Blocks

variable {α : Type} [LinearOrder α]

/-- Blocks of equal length compare first. -/
theorem append_lt_append_iff {a b x y : List α} (h : a.length = b.length) :
    a ++ x < b ++ y ↔ a < b ∨ a = b ∧ x < y := by
  induction a generalizing b with
  | nil =>
    obtain rfl : b = [] := List.eq_nil_of_length_eq_zero h.symm
    simp
  | cons c a ih =>
    cases b with
    | nil => simp at h
    | cons d b =>
      have hlen : a.length = b.length := by simpa using h
      simp only [List.cons_append, List.cons_lt_cons_iff, ih hlen, List.cons.injEq]
      tauto

theorem append_lt_append_of_lt {a b x y : List α} (h : a.length = b.length) (hlt : a < b) :
    a ++ x < b ++ y :=
  (append_lt_append_iff h).mpr (.inl hlt)

theorem append_left_lt_iff {a x y : List α} : a ++ x < a ++ y ↔ x < y := by
  rw [append_lt_append_iff rfl]
  simp

/-- Texts neither of which continues the other are compared at their first difference, so
what is appended to them does not matter. -/
theorem append_lt_append_iff_of_not_isPrefix {a b x y : List α} (hab : ¬ a <+: b)
    (hba : ¬ b <+: a) : a ++ x < b ++ y ↔ a < b := by
  induction a generalizing b with
  | nil => exact absurd (List.nil_prefix) hab
  | cons c a ih =>
    cases b with
    | nil => exact absurd (List.nil_prefix) hba
    | cons d b =>
      simp only [List.cons_append, List.cons_lt_cons_iff]
      refine or_congr_right (and_congr_right fun hcd => ?_)
      subst hcd
      exact ih (fun h => hab ((List.prefix_cons_inj c).mpr h))
        (fun h => hba ((List.prefix_cons_inj c).mpr h))

/-- A constant block is the least among the blocks of its length whose entries are no
smaller. -/
theorem replicate_lt_of_forall_le {a : α} {l : List α} (hle : ∀ c ∈ l, a ≤ c)
    (hne : l ≠ List.replicate l.length a) : List.replicate l.length a < l := by
  induction l with
  | nil => simp at hne
  | cons c l ih =>
    rw [List.length_cons, List.replicate_succ, List.cons_lt_cons_iff]
    rcases (hle c (by simp)).lt_or_eq with hlt | rfl
    · exact .inl hlt
    · refine .inr ⟨rfl, ih (fun d hd => hle d (by simp [hd])) fun h => hne ?_⟩
      rw [List.length_cons, List.replicate_succ, ← h]

end Blocks

/-! ### Zero-padded numbers -/

/-- The decimal digit `d`, for `d < 10`. -/
def digit (d : ℕ) : Char := Char.ofNat (48 + d)

theorem digit_lt_digit {a b : ℕ} (ha : a < 10) (hb : b < 10) : digit a < digit b ↔ a < b := by
  have h : ∀ a < 10, ∀ b < 10, (digit a < digit b ↔ a < b) := by decide
  exact h a ha b hb

theorem digit_inj {a b : ℕ} (ha : a < 10) (hb : b < 10) : digit a = digit b ↔ a = b := by
  have h : ∀ a < 10, ∀ b < 10, (digit a = digit b ↔ a = b) := by decide
  exact h a ha b hb

/-- The last `w` decimal digits of `n`, most significant first, zero-padded. -/
def pad : ℕ → ℕ → List Char
  | 0, _ => []
  | w + 1, n => digit (n / 10 ^ w % 10) :: pad w n

@[simp] theorem length_pad (w n : ℕ) : (pad w n).length = w := by
  induction w with
  | zero => rfl
  | succ w ih => simp [pad, ih]

private theorem mod_pow_succ (n w : ℕ) :
    n % 10 ^ (w + 1) = n / 10 ^ w % 10 * 10 ^ w + n % 10 ^ w := by
  rw [pow_succ, Nat.mod_mul]
  ring

/-- A larger leading digit outweighs everything below it. -/
private theorem block_lt {a b p r q : ℕ} (hab : a < b) (hr : r < p) : a * p + r < b * p + q := by
  calc a * p + r < a * p + p := by omega
    _ = (a + 1) * p := by ring
    _ ≤ b * p := Nat.mul_le_mul_right p hab
    _ ≤ b * p + q := Nat.le_add_right _ _

theorem pad_lt_pad_mod {w m n : ℕ} : pad w m < pad w n ↔ m % 10 ^ w < n % 10 ^ w := by
  induction w with
  | zero => simp [pad, Nat.mod_one]
  | succ w ih =>
    have hm : m % 10 ^ w < 10 ^ w := Nat.mod_lt _ (by positivity)
    have hn : n % 10 ^ w < 10 ^ w := Nat.mod_lt _ (by positivity)
    have hmd : m / 10 ^ w % 10 < 10 := Nat.mod_lt _ (by norm_num)
    have hnd : n / 10 ^ w % 10 < 10 := Nat.mod_lt _ (by norm_num)
    rw [pad, pad, List.cons_lt_cons_iff, ih, digit_lt_digit hmd hnd, digit_inj hmd hnd,
      mod_pow_succ m, mod_pow_succ n]
    rcases Nat.lt_trichotomy (m / 10 ^ w % 10) (n / 10 ^ w % 10) with hlt | heq | hlt
    · exact iff_of_true (.inl hlt) (block_lt hlt hm)
    · rw [heq]
      simp
    · refine iff_of_false ?_ (block_lt hlt hn).not_gt
      rintro (h | ⟨h, -⟩) <;> omega

theorem pad_inj_mod {w m n : ℕ} : pad w m = pad w n ↔ m % 10 ^ w = n % 10 ^ w := by
  constructor
  · intro h
    have h1 := (pad_lt_pad_mod (w := w) (m := m) (n := n)).not.mp (by rw [h]; exact lt_irrefl _)
    have h2 := (pad_lt_pad_mod (w := w) (m := n) (n := m)).not.mp (by rw [h]; exact lt_irrefl _)
    omega
  · intro h
    have h1 := (pad_lt_pad_mod (w := w) (m := m) (n := n)).not.mpr (by omega)
    have h2 := (pad_lt_pad_mod (w := w) (m := n) (n := m)).not.mpr (by omega)
    exact le_antisymm (not_lt.mp h2) (not_lt.mp h1)

/-- **Padded numbers sort like numbers.** -/
theorem pad_lt_pad {w m n : ℕ} (hm : m < 10 ^ w) (hn : n < 10 ^ w) :
    pad w m < pad w n ↔ m < n := by
  rw [pad_lt_pad_mod, Nat.mod_eq_of_lt hm, Nat.mod_eq_of_lt hn]

theorem pad_inj {w m n : ℕ} (hm : m < 10 ^ w) (hn : n < 10 ^ w) : pad w m = pad w n ↔ m = n := by
  rw [pad_inj_mod, Nat.mod_eq_of_lt hm, Nat.mod_eq_of_lt hn]

/-- Every character of a padded number is a digit. -/
theorem mem_pad {w n : ℕ} {c : Char} (h : c ∈ pad w n) : '0' ≤ c ∧ c ≤ '9' := by
  induction w with
  | zero => simp [pad] at h
  | succ w ih =>
    rcases List.mem_cons.mp h with rfl | h
    · have hd : ∀ d < 10, '0' ≤ digit d ∧ digit d ≤ '9' := by decide
      exact hd _ (Nat.mod_lt _ (by norm_num))
    · exact ih h

theorem isDigit_iff {c : Char} : c.isDigit = true ↔ '0' ≤ c ∧ c ≤ '9' := by
  rw [Char.isDigit, Bool.and_eq_true, decide_eq_true_eq, decide_eq_true_eq]
  exact Iff.rfl

theorem isDigit_of_mem_pad {w n : ℕ} {c : Char} (h : c ∈ pad w n) : c.isDigit = true :=
  isDigit_iff.mpr (mem_pad h)

/-- The value of a text of decimal digits. -/
def digitsValue : List Char → ℕ
  | [] => 0
  | c :: cs => (c.toNat - 48) * 10 ^ cs.length + digitsValue cs

theorem digitsValue_pad (w n : ℕ) : digitsValue (pad w n) = n % 10 ^ w := by
  induction w with
  | zero => simp [pad, digitsValue, Nat.mod_one]
  | succ w ih =>
    have hdigit : ∀ d < 10, (digit d).toNat - 48 = d := by decide
    rw [pad, digitsValue, ih, length_pad, hdigit _ (Nat.mod_lt _ (by norm_num)), mod_pow_succ]

/-- A text of digits is the padded text of its value. -/
theorem pad_digitsValue {cs : List Char} (h : ∀ c ∈ cs, '0' ≤ c ∧ c ≤ '9') :
    pad cs.length (digitsValue cs) = cs ∧ digitsValue cs < 10 ^ cs.length := by
  induction cs with
  | nil => exact ⟨rfl, Nat.one_pos⟩
  | cons c cs ih =>
    obtain ⟨hc, hcs⟩ := List.forall_mem_cons.mp h
    obtain ⟨hpad, hlt⟩ := ih hcs
    have hlow : 48 ≤ c.toNat := hc.1
    have hhigh : c.toNat ≤ 57 := hc.2
    have hdigit : digit (c.toNat - 48) = c := by
      rw [digit, Nat.add_sub_cancel' hlow, Char.ofNat_toNat]
    have hdiv : digitsValue (c :: cs) / 10 ^ cs.length = c.toNat - 48 := by
      rw [digitsValue, Nat.mul_comm, Nat.mul_add_div (by positivity), Nat.div_eq_of_lt hlt,
        Nat.add_zero]
    have hmod : digitsValue (c :: cs) % 10 ^ cs.length = digitsValue cs % 10 ^ cs.length := by
      rw [digitsValue, Nat.mul_comm, Nat.mul_add_mod]
    constructor
    · rw [List.length_cons, pad, hdiv, Nat.mod_eq_of_lt (by omega), hdigit,
        pad_inj_mod.mpr hmod, hpad]
    · rw [List.length_cons, pow_succ, digitsValue]
      have : (c.toNat - 48) * 10 ^ cs.length ≤ 9 * 10 ^ cs.length :=
        Nat.mul_le_mul_right _ (by omega)
      omega

theorem pad_zero (w : ℕ) : pad w 0 = List.replicate w '0' := by
  induction w with
  | zero => rfl
  | succ w ih => simp [pad, ih, List.replicate_succ, digit]

/-! ### Trimmed digits -/

/-- Drop the trailing zeros of a digit text. -/
def trimZeros (l : List Char) : List Char := l.rdropWhile (· == '0')

/-- What was trimmed is a block of zeros. -/
theorem trimZeros_append_replicate (l : List Char) :
    trimZeros l ++ List.replicate (l.length - (trimZeros l).length) '0' = l := by
  induction l using List.reverseRecOn with
  | nil => rfl
  | append_singleton l c ih =>
    by_cases hc : c = '0'
    · subst hc
      have hle : (trimZeros l).length ≤ l.length := by
        rw [← congrArg List.length ih]
        simp
      rw [trimZeros, List.rdropWhile_concat_pos _ _ _ (by simp)]
      change trimZeros l ++ List.replicate ((l ++ ['0']).length - (trimZeros l).length) '0' = _
      rw [List.length_append, List.length_singleton, Nat.sub_add_comm hle,
        List.replicate_succ', ← List.append_assoc, ih]
    · rw [trimZeros, List.rdropWhile_concat_neg _ _ _ (by simpa using hc)]
      simp

theorem trimZeros_isPrefix (l : List Char) : trimZeros l <+: l :=
  ⟨_, trimZeros_append_replicate l⟩

theorem trimZeros_inj {a b : List Char} (hlen : a.length = b.length) :
    trimZeros a = trimZeros b ↔ a = b := by
  refine ⟨fun h => ?_, congrArg trimZeros⟩
  rw [← trimZeros_append_replicate a, ← trimZeros_append_replicate b, h, hlen]

/-- Trimmed digits that do not continue each other compare as the full digits, whatever
follows them. -/
theorem trimZeros_append_lt_iff {a b x y : List Char} (hab : ¬ trimZeros a <+: trimZeros b)
    (hba : ¬ trimZeros b <+: trimZeros a) :
    trimZeros a ++ x < trimZeros b ++ y ↔ a < b := by
  rw [append_lt_append_iff_of_not_isPrefix hab hba]
  conv_rhs => rw [← trimZeros_append_replicate a, ← trimZeros_append_replicate b]
  rw [append_lt_append_iff_of_not_isPrefix hab hba]

/-- A proper prefix among trimmed digits is the smaller number, and the longer text goes on
with a digit. -/
theorem trimZeros_prefix_cases {w m n : ℕ} (hne : pad w m ≠ pad w n)
    (h : trimZeros (pad w m) <+: trimZeros (pad w n)) :
    pad w m < pad w n ∧
      ∃ d rest, '0' ≤ d ∧ d ≤ '9' ∧
        trimZeros (pad w n) = trimZeros (pad w m) ++ d :: rest := by
  obtain ⟨t, ht⟩ := h
  cases t with
  | nil =>
    rw [List.append_nil, trimZeros_inj (by simp)] at ht
    exact absurd ht hne
  | cons d rest =>
    have hdmem : d ∈ pad w n :=
      (trimZeros_isPrefix _).subset (by rw [← ht]; simp)
    refine ⟨?_, d, rest, (mem_pad hdmem).1, (mem_pad hdmem).2, ht.symm⟩
    -- after the common part the padded shorter number is all zeros
    have hm := trimZeros_append_replicate (pad w m)
    have hn := trimZeros_append_replicate (pad w n)
    set k := (pad w m).length - (trimZeros (pad w m)).length with hk
    set j := (pad w n).length - (trimZeros (pad w n)).length with hj
    rw [← ht, List.append_assoc] at hn
    have hlen : (d :: rest ++ List.replicate j '0').length = k := by
      have h1 := congrArg List.length hm
      have h2 := congrArg List.length hn
      simp only [List.length_append, List.length_replicate, length_pad] at h1 h2 ⊢
      omega
    rw [← hm, ← hn, append_left_lt_iff, ← hlen]
    refine replicate_lt_of_forall_le (fun c hc => ?_) fun heq => hne ?_
    · exact (mem_pad (w := w) (n := n) (by rw [← hn]; exact List.mem_append_right _ hc)).1
    · rw [← hm, ← hn, heq, hlen]

end Foundations
