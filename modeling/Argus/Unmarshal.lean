import Argus.Foundations.JsonRoundTrip
import Argus.Foundations.SortedMap
import Argus.Strings

/-!
# Decoding into Go values

`json.Unmarshal` as far as the hub uses it: strings, integers, slices and structs. A `Decoder`
gets what the destination holds and gives what it holds afterwards, or an error. A `null`
leaves strings, numbers and structs as they are and empties a slice or a map, a member that no
field is named after is ignored, and a field is found by its name or else by its name without
regard to case.
-/

namespace Argus

open Foundations

/-- Decode a value into a destination. -/
abbrev Decoder (α : Type) : Type := Json → α → Option α

/-- The decimal value of a text of digits. -/
def decimal (cs : List Char) : ℕ := cs.foldl (fun n c => n * 10 + (c.toNat - 48)) 0

theorem decimal_eq (cs : List Char) : decimal cs = digitsValue cs := by
  suffices ∀ n, cs.foldl (fun n c => n * 10 + (c.toNat - 48)) n =
      n * 10 ^ cs.length + digitsValue cs by
    rw [decimal, this, Nat.zero_mul, Nat.zero_add]
  induction cs with
  | nil => simp [digitsValue]
  | cons c cs ih =>
    intro n
    rw [List.foldl_cons, ih, digitsValue, List.length_cons, pow_succ]
    ring

/-- `strconv.ParseInt(text, 10, 64)` of the text of a number. -/
def parseInt (text : List Char) : Option ℤ :=
  let (negative, ds) := match text with
    | '-' :: ds => (true, ds)
    | ds => (false, ds)
  let n : ℤ := if negative then -decimal ds else decimal ds
  if ds ≠ [] ∧ ds.all Char.isDigit ∧ -2 ^ 63 ≤ n ∧ n < 2 ^ 63 then some n else none

/-- The decimal text of a number is read back. -/
theorem parseInt_toDigits {n : ℕ} (h : n < 2 ^ 63) :
    parseInt (Nat.toDigits 10 n) = some (n : ℤ) := by
  have hdigits : ∀ c ∈ Nat.toDigits 10 n, c.isDigit = true := fun c hc =>
    Nat.isDigit_of_mem_toDigits (by decide) (by decide) hc
  have hvalue : decimal (Nat.toDigits 10 n) = n := by
    refine Eq.trans ?_ (Nat.ofDigitChars_ten_toDigits)
    simp only [decimal, Nat.ofDigitChars_eq_foldl, Nat.mul_comm]
    rfl
  have hne : Nat.toDigits 10 n ≠ [] := Nat.toDigits_ne_nil
  have hsign : ∀ ds, Nat.toDigits 10 n ≠ '-' :: ds := fun ds heq =>
    absurd (hdigits '-' (heq ▸ List.mem_cons_self)) (by decide)
  rw [parseInt]
  · simp only [Bool.false_eq_true, if_false, hvalue]
    rw [if_pos ⟨hne, List.all_eq_true.mpr hdigits, by omega, by omega⟩]
  · exact hsign

/-- `strconv.Atoi`. -/
def atoi (s : String) : Option ℤ :=
  match s.toList with
  | '+' :: ds => if ds.head? = some '-' then none else parseInt ds
  | cs => parseInt cs

/-- The name of a field without regard to case. -/
def foldName (name : String) : List Char := name.toList.map foldRune

namespace Decoder

/-- Into a string. -/
def string : Decoder String
  | .str s, _ => some s
  | .null, old => some old
  | _, _ => none

/-- Into an `int`. -/
def int : Decoder ℤ
  | .num n, _ => parseInt n.text
  | .null, old => some old
  | _, _ => none

/-- Into a `map[string]string`. -/
def stringMap : Decoder (SortedMap String String)
  | .obj l, m => l.foldlM (fun m e => (string e.2 "").map (m.insert e.1)) m
  | .null, _ => some ∅
  | _, _ => none

/-- Into a slice, whose elements are decoded into zero values. -/
def slice {α : Type} (zero : α) (element : Decoder α) : Decoder (List α)
  | .arr l, _ => l.mapM fun v => element v zero
  | .null, _ => some []
  | _, _ => none

/-- Into a field of a struct. -/
def field {σ α : Type} (get : σ → α) (set : σ → α → σ) (value : Decoder α) : Decoder σ :=
  fun v s => (value v (get s)).map (set s)

/-- The field that a member is decoded into. -/
def lookup {σ : Type} (fields : List (String × Decoder σ)) (key : String) :
    Option (String × Decoder σ) :=
  match fields.find? fun f => f.1 = key with
  | some f => some f
  | none => fields.find? fun f => foldName f.1 = foldName key

/-- Decode the members of an object, one after the other. -/
def members {σ : Type} (fields : List (String × Decoder σ)) :
    List (String × Json) → σ → Option σ
  | [], s => some s
  | (key, v) :: rest, s =>
    match lookup fields key with
    | none => members fields rest s
    | some f => (f.2 v s).bind (members fields rest)

/-- Into a struct. -/
def struct {σ : Type} (fields : List (String × Decoder σ)) : Decoder σ
  | .obj l, s => members fields l s
  | .null, s => some s
  | _, _ => none

@[simp] theorem string_str (s old : String) : string (.str s) old = some s := rfl

@[simp] theorem int_num (n : Number) (old : ℤ) : int (.num n) old = parseInt n.text := rfl

@[simp] theorem struct_obj {σ : Type} (fields : List (String × Decoder σ))
    (l : List (String × Json)) (s : σ) : struct fields (.obj l) s = members fields l s := rfl

@[simp] theorem members_nil {σ : Type} (fields : List (String × Decoder σ)) (s : σ) :
    members fields [] s = some s := rfl

/-- A member that has the very name of a field is decoded into it. -/
theorem members_cons {σ : Type} {fields : List (String × Decoder σ)} {key : String}
    {f : String × Decoder σ} (h : fields.find? (fun f => f.1 = key) = some f) (v : Json)
    (rest : List (String × Json)) (s : σ) :
    members fields ((key, v) :: rest) s = (f.2 v s).bind (members fields rest) := by
  rw [members, lookup, h]

/-- The elements of an array are decoded one by one. -/
theorem slice_map {α β : Type} {zero : α} {element : Decoder α} {f : β → Json} {g : β → α}
    {l : List β} (old : List α) (h : ∀ b ∈ l, element (f b) zero = some (g b)) :
    slice zero element (.arr (l.map f)) old = some (l.map g) := by
  rw [slice]
  induction l with
  | nil => rfl
  | cons b l ih =>
    obtain ⟨hb, hl⟩ := List.forall_mem_cons.mp h
    rw [List.map_cons, List.mapM_cons, hb, ih hl]
    rfl

theorem slice_singleton {α : Type} {zero a : α} {element : Decoder α} {v : Json}
    (old : List α) (h : element v zero = some a) :
    slice zero element (.arr [v]) old = some [a] :=
  @slice_map α Unit zero element (fun _ => v) (fun _ => a) [()] old fun _ _ => h

end Decoder

end Argus
