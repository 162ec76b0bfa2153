import Argus.Floats
import Argus.Insights.Text

/-!
# HTTP signals in log messages

`insights.ParseHTTPLog` reads a JSON exit event or a line of a response, and
`insights.InferServiceFromContainer` guesses a service from a container name.
`inferService_compose` says that this undoes the names that compose gives.
-/

namespace Argus

open Foundations Regex

/-- `httpResponseRe`. -/
def httpResponseRe : Regex := seqs [
  group (alts (["get", "post", "put", "delete", "patch", "head", "options"].map word)),
  some' spaceSet, group (some' fun c => !spaceSet c), some' spaceSet,
  chars (· != '\n') 0 none false, one spaceSet, group (exactly 3 Char.isDigit), some' spaceSet,
  char '(', group (some' Char.isDigit), word "ms)", many spaceSet, atEnd]

/-- `HTTPLogSignal`. -/
structure HTTPLogSignal where
  service : String
  method : String
  path : String
  status : ℤ
  durationMs : Extended
  isExit : Bool

/-- `stringField`: the first key whose value is a string that is not blank. -/
def stringField (m : Fields) (keys : List String) : String :=
  (keys.findSome? fun k =>
    match m.get? k with
    | some (.str s) => if trimSpace s = "" then none else some (trimSpace s)
    | _ => none).getD ""

/-- `int(t)` of a `float64`: towards zero, and the smallest integer when it is out of range. -/
def truncate : Extended → ℤ
  | .finite q => if |q| < 2 ^ 63 then (if q < 0 then ⌈q⌉ else ⌊q⌋) else -2 ^ 63
  | .infinite _ => -2 ^ 63

/-- `intField`: of the first key whose value is a number. -/
def intField (m : Fields) (keys : List String) : ℤ :=
  (keys.findSome? fun k =>
    match m.get? k with
    | some (.num x) => some (truncate x)
    | _ => none).getD 0

/-- `floatField`: of the first key whose value is a number. -/
def floatField (m : Fields) (keys : List String) : Extended :=
  (keys.findSome? fun k =>
    match m.get? k with
    | some (.num x) => some x
    | _ => none).getD (.finite 0)

/-- The signal of a JSON event. -/
def httpEvent (rt : Runtime) (m : Fields) : Option HTTPLogSignal :=
  let event := match m.get? "event" with
    | some (.str s) => s
    | _ => ""
  if !equalFold event "exit" then none
  else
    let sig : HTTPLogSignal := {
      isExit := true
      service := stringField m ["service"]
      method := rt.toUpper (stringField m ["method"])
      path := stringField m ["url", "path"]
      status := intField m ["status", "statusCode", "status_code"]
      durationMs := floatField m ["durationMs", "duration_ms", "duration"] }
    if sig.status > 0 ∨ Extended.positive sig.durationMs then some sig else none

/-- The signal of a response line. -/
def httpResponse (rt : Runtime) (msg : String) : Option HTTPLogSignal :=
  match httpResponseRe.findSubmatch msg with
  | some [method, path, status, duration] =>
    some {
      service := ""
      method := rt.toUpper method
      path := path
      status := decimal status.toList
      durationMs := parseFloat duration.toList
      isExit := true }
  | _ => none

/-- `ParseHTTPLog`. An invalid signal is none. -/
def parseHTTPLog (rt : Runtime) (message : String) : Option HTTPLogSignal :=
  let msg := trimSpace message
  if msg = "" then none
  else if hasPrefix msg "\x7b" then
    match unmarshalFields msg with
    | some m => httpEvent rt m
    | none => httpResponse rt msg
  else httpResponse rt msg

/-- `isNumericSuffix`. -/
def isNumericSuffix (s : List Char) : Bool := s ≠ [] && s.all Char.isDigit

/-- `InferServiceFromContainer`: without the replica number, and then without the project. -/
def inferServiceFromContainer (container : String) : String :=
  let cs := container.toList
  let suffix := (cs.reverse.takeWhile (· != '-')).reverse
  let name := cs.take (cs.length - suffix.length - 1)
  if '-' ∈ cs ∧ name ≠ [] ∧ isNumericSuffix suffix then
    let project := name.takeWhile (· != '-')
    if '-' ∈ name ∧ project ≠ [] then String.ofList (name.drop (project.length + 1))
    else String.ofList name
  else container

/-! ### Compose names -/

/-- What stands after the last hyphen, and before it. -/
theorem lastHyphen_spec {name suffix : List Char} (h : '-' ∉ suffix) :
    ((name ++ '-' :: suffix).reverse.takeWhile (· != '-')).reverse = suffix ∧
      (name ++ '-' :: suffix).take ((name ++ '-' :: suffix).length - suffix.length - 1) = name := by
  have hsuffix : ∀ c ∈ suffix.reverse, (c != '-') = true := by
    intro c hc
    rw [bne_iff_ne]
    rintro rfl
    exact h (List.mem_reverse.mp hc)
  constructor
  · rw [List.reverse_append, List.reverse_cons, List.append_assoc,
      List.takeWhile_append_of_pos hsuffix, List.singleton_append,
      List.takeWhile_cons_of_neg (by simp), List.append_nil, List.reverse_reverse]
  · have hlen : (name ++ '-' :: suffix).length - suffix.length - 1 = name.length := by
      rw [List.length_append, List.length_cons]
      omega
    rw [hlen, List.take_left]

/-- What stands before the first hyphen. -/
theorem firstHyphen_spec {project rest : List Char} (h : '-' ∉ project) :
    (project ++ '-' :: rest).takeWhile (· != '-') = project := by
  have hproject : ∀ c ∈ project, (c != '-') = true := by
    intro c hc
    rw [bne_iff_ne]
    rintro rfl
    exact h hc
  rw [List.takeWhile_append_of_pos hproject, List.takeWhile_cons_of_neg (by simp), List.append_nil]

/-- A number has no hyphen. -/
theorem hyphen_notMem_of_isNumericSuffix {number : List Char}
    (h : isNumericSuffix number = true) : '-' ∉ number := by
  rw [isNumericSuffix, Bool.and_eq_true, List.all_eq_true] at h
  exact fun hmem => absurd (h.2 '-' hmem) (by decide)

theorem isNumericSuffix_toString (n : ℕ) : isNumericSuffix (toString n).toList = true := by
  have hdigits : (toString n).toList = Nat.toDigits 10 n := String.toList_ofList
  rw [hdigits, isNumericSuffix, Bool.and_eq_true, decide_eq_true_eq, List.all_eq_true]
  exact ⟨List.ne_nil_of_length_pos Nat.length_toDigits_pos,
    fun c hc => Nat.isDigit_of_mem_toDigits (b := 10) (by decide) (by decide) hc⟩

/-- **Key result.** The service comes back from the name that compose gives to its container, and a
name without a number after its last hyphen stays. -/
theorem inferService_compose :
    (∀ project service number : String, project ≠ "" → '-' ∉ project.toList →
      isNumericSuffix number.toList = true →
      inferServiceFromContainer (project ++ "-" ++ service ++ "-" ++ number) = service) ∧
    (∀ name suffix : String, '-' ∉ suffix.toList → isNumericSuffix suffix.toList = false →
      inferServiceFromContainer (name ++ "-" ++ suffix) = name ++ "-" ++ suffix) ∧
    ∀ name : String, '-' ∉ name.toList → inferServiceFromContainer name = name := by
  refine ⟨?_, ?_, ?_⟩
  · intro project service number hproject hhyphen hnumber
    have hname : (project ++ "-" ++ service ++ "-" ++ number).toList =
        (project.toList ++ '-' :: service.toList) ++ '-' :: number.toList := by
      simp [String.toList_append]
    have hlast := @lastHyphen_spec (project.toList ++ '-' :: service.toList) _
      (hyphen_notMem_of_isNumericSuffix hnumber)
    obtain ⟨hsuffix, hbefore⟩ := hlast
    have hne : project.toList ≠ [] := mt String.toList_eq_nil_iff.mp hproject
    simp only [inferServiceFromContainer, hname, hsuffix, hbefore, hnumber]
    rw [if_pos ⟨by simp, by simp, trivial⟩, firstHyphen_spec hhyphen, if_pos ⟨by simp, hne⟩,
      List.drop_length_add_append, List.drop_one, List.tail_cons, String.ofList_toList]
  · intro name suffix hsuffix hnumber
    have hname : (name ++ "-" ++ suffix).toList = name.toList ++ '-' :: suffix.toList := by
      simp [String.toList_append]
    simp only [inferServiceFromContainer, hname, (lastHyphen_spec hsuffix).1, hnumber]
    rw [if_neg (fun h => absurd h.2.2 Bool.false_ne_true)]
  · intro name hname
    rw [inferServiceFromContainer]
    exact if_neg fun h => hname h.1

/-- A service with a hyphen and a number, and a name without a replica number. -/
theorem inferService_compose_api :
    inferServiceFromContainer ("shop" ++ "-" ++ "api-2" ++ "-" ++ toString 1) = "api-2" ∧
      inferServiceFromContainer ("shop" ++ "-" ++ "api") = "shop" ++ "-" ++ "api" :=
  ⟨inferService_compose.1 "shop" "api-2" (toString 1) (by decide) (by decide)
    (isNumericSuffix_toString 1), inferService_compose.2.1 "shop" "api" (by decide) (by decide)⟩

example : inferServiceFromContainer "compose-demo-api-1" = "demo-api" := by decide +kernel

end Argus
