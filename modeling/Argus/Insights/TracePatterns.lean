import Argus.Foundations.Bytes
import Argus.Strings

/-!
# Search patterns of any trace id

`insights.TraceSearchPatterns` for a string that need not be a text: it may come from a request with
any bytes in it. Package `strings` takes each byte that does not belong to a character for a
replacement character, and `ToLower` writes it as one.
-/

namespace Argus

open Foundations

/-- The bytes of a constant. -/
def bytesOf (s : String) : List UInt8 := utf8 s.toList

/-- `strings.TrimSpace`. -/
def trimSpaceBytes (s : List UInt8) : List UInt8 :=
  let trimmed := (runes s).dropWhile fun r => isSpace r.1
  (trimmed.reverse.dropWhile fun r => isSpace r.1).reverse.flatMap Prod.snd

/-- `strings.ToLower`. -/
def Runtime.toLowerBytes (rt : Runtime) (s : List UInt8) : List UInt8 :=
  utf8 ((decodeUtf8 s).map rt.lower)

/-- `strings.ReplaceAll(s, "-", "")`. -/
def dropDashBytes (s : List UInt8) : List UInt8 := s.filter (· != 45)

/-- `normalizeTraceID`. Its cases of length 32 and 36 change nothing any more. -/
def normalizeTraceBytes (rt : Runtime) (raw : List UInt8) : List UInt8 :=
  dropDashBytes (rt.toLowerBytes (trimSpaceBytes raw))

/-- `formatUUID`. -/
def formatUUIDBytes (hex32 : List UInt8) : List UInt8 :=
  if hex32.length ≠ 32 then hex32
  else
    hex32.take 8 ++ 45 :: ((hex32.drop 8).take 4 ++ 45 :: ((hex32.drop 12).take 4 ++
      45 :: ((hex32.drop 16).take 4 ++ 45 :: hex32.drop 20)))

/-- A JSON member with a string: `"key":"value"`. -/
def memberBytes (key : String) (value : List UInt8) : List UInt8 :=
  bytesOf ("\"" ++ key ++ "\":\"") ++ value ++ bytesOf "\""

/-- The closure `add`: a pattern that is not there yet. -/
def addPatternBytes (out : List (List UInt8)) (fragment : List UInt8) : List (List UInt8) :=
  let fragment := trimSpaceBytes fragment
  if fragment = [] then out
  else
    let pat := bytesOf "%" ++ fragment ++ bytesOf "%"
    if pat ∈ out then out else out ++ [pat]

/-- `TraceSearchPatterns`. -/
def traceSearchPatternBytes (rt : Runtime) (raw : List UInt8) : List (List UInt8) :=
  let raw := trimSpaceBytes raw
  if raw = [] then []
  else
    let norm := normalizeTraceBytes rt raw
    let more := if norm.length = 32 then
        [formatUUIDBytes norm, memberBytes "traceId" (formatUUIDBytes norm),
          memberBytes "traceId" norm, memberBytes "trace_id" norm]
      else []
    ([raw, rt.toLowerBytes raw, norm] ++ more).foldl addPatternBytes []

end Argus
