import Argus.Agent.LogLines
import Argus.Foundations.Bytes
import Mathlib.Data.List.Infix

/-!
# The log stream of a container

Docker sends each line of a container as a frame: a header of eight bytes, of which the first names
the stream and the last four the size, and then the line. `demuxDockerLogs` puts the frames
together and reads the lines. The body is cut at a limit, at any byte;
`demuxDockerLogs_take` says that what is read are the lines of the frames before the cut.
-/

namespace Argus

open Foundations

/-! ### Reading -/

/-- `string(bytes)`. Go keeps a byte that is not part of a character; here it is U+FFFD at once, as
`json.Marshal` makes it later. The tests at a byte index, of `splitDockerTimestamp` and
`hasLeadingTimestamp`, are then made on the decoded text, which is three bytes long there: they
are those of the source for a line of characters, and not for one with other bytes. -/
def goString (bytes : List UInt8) : String := String.ofList (decodeUtf8 bytes)

/-- `dropCR`. -/
def dropCR (line : List UInt8) : List UInt8 :=
  if line.getLast? = some 13 then line.dropLast else line

/-- The size of the scanner's buffer. A line that does not fit, with its newline, ends the scan. -/
def scanLimit : ℕ := 262144

/-- `bufio.ScanLines`. -/
def scanLines (raw : List UInt8) : List (List UInt8) :=
  ((splitLines raw).takeWhile fun line => line.length < scanLimit).map dropCR

/-- `parseLogLines`. -/
def parseLogLines (raw : List UInt8) : List ParsedLine :=
  (scanLines raw).filterMap fun line => parseLogText (goString line)

/-- The loop of `demuxDockerLogs`: the payloads of the frames, or `none` where a slice would be out
of range. The end of a payload is reckoned in 32 bits. -/
def demuxChunks (body : List UInt8) : Option (List UInt8) :=
  if body.length < 8 then some []
  else
    let size := bigEndian ((body.drop 4).take 4)
    if size = 0 ∨ body.length < 8 + size then some []
    else
      let stop := (8 + size) % 4294967296
      if 8 ≤ stop ∧ stop ≤ body.length then
        (demuxChunks (body.drop stop)).map ((body.take stop).drop 8 ++ ·)
      else none
  termination_by body.length
  decreasing_by simp only [List.length_drop]; omega

/-- `demuxDockerLogs`, or `none` where it would read outside the body. -/
def demuxDockerLogs (body : List UInt8) : Option (List ParsedLine) :=
  match body with
  | [] => some []
  | stream :: _ =>
    if stream ≠ 1 ∧ stream ≠ 2 then some (parseLogLines body)
    else (demuxChunks body).map parseLogLines

/-! ### Writing -/

/-- A line of a container: on standard output or standard error, with the time at which it was
written, and a message of one line that is not blank. -/
structure LogRecord where
  stream : UInt8
  stamp : Stamp
  message : List UInt8
  stream_eq : stream = 1 ∨ stream = 2
  stamp_short : stamp.text.length ≤ 35
  single : 10 ∉ message
  trimmed : trimSpace (goString message) = goString message
  message_ne : message ≠ []
  short : message.length < 200 * 1024

namespace LogRecord

/-- The line without its newline. -/
def line (r : LogRecord) : List UInt8 := asciiBytes r.stamp.text ++ 32 :: r.message

/-- What Docker sends. -/
def frame (r : LogRecord) : List UInt8 :=
  r.stream :: 0 :: 0 :: 0 :: fourBytes (r.line.length + 1) ++ (r.line ++ [10])

/-- What the agent reads. -/
def parsed (r : LogRecord) : ParsedLine := ⟨r.stamp.time, goString r.message⟩

/-- The records whose frames are before a cut. -/
def before : ℕ → List LogRecord → List LogRecord
  | _, [] => []
  | n, r :: rs => if r.frame.length ≤ n then r :: before (n - r.frame.length) rs else []

theorem length_line (r : LogRecord) :
    r.line.length = r.stamp.text.length + (r.message.length + 1) := by
  rw [line, asciiBytes, List.length_append, List.length_map, List.length_cons]

theorem length_frame (r : LogRecord) : r.frame.length = 8 + (r.line.length + 1) := by
  simp only [frame, fourBytes, List.length_append, List.length_cons, List.length_nil]

theorem line_lt (r : LogRecord) : r.line.length + 1 < scanLimit := by
  have hstamp := r.stamp_short
  have hmessage := r.short
  rw [length_line, scanLimit]
  omega

theorem newline_notMem (r : LogRecord) : 10 ∉ r.line := by
  rw [line, List.mem_append, List.mem_cons]
  rintro (h | h | h)
  · refine newline_notMem_asciiBytes r.stamp.ascii (fun hmem => ?_) h
    obtain ⟨date, clock, -, -, -, hchars⟩ := Time.exists_of_parse r.stamp.parse_eq
    exact absurd (hchars '\n' hmem) (by decide)
  · exact absurd h (by decide)
  · exact r.single h

theorem goString_line (r : LogRecord) :
    goString r.line = String.ofList (r.stamp.text ++ ' ' :: decodeUtf8 r.message) := by
  rw [goString, line, decodeUtf8_asciiBytes r.stamp.ascii, decodeUtf8_cons_ascii (by decide)]
  rfl

/-- A trimmed message does not end with a carriage return. -/
theorem dropCR_line (r : LogRecord) : dropCR r.line = r.line := by
  rw [dropCR]
  refine if_neg fun h => ?_
  rw [line, List.getLast?_append, List.getLast?_cons] at h
  obtain ⟨bs, hbytes⟩ : ∃ bs, r.message = bs ++ [13] := by
    rcases List.eq_nil_or_concat r.message with hnil | ⟨bs, b, hb⟩
    · exact absurd hnil r.message_ne
    · refine ⟨bs, ?_⟩
      rw [hb] at h ⊢
      simp only [List.concat_eq_append, List.getLast?_append, List.getLast?_singleton,
        Option.some_or, Option.getD_some, Option.some.injEq] at h ⊢
      rw [h]
  have hdecode : decodeUtf8 r.message = decodeUtf8 bs ++ ['\r'] := by
    rw [hbytes, decodeUtf8_append (by decide), decodeUtf8]
    rfl
  have hlast : (trimSpace (goString r.message)).toList.getLast? = some '\r' := by
    rw [r.trimmed, goString, String.toList_ofList, hdecode, List.getLast?_append]
    rfl
  exact absurd (isSpace_of_getLast? hlast) (by decide)

/-- **A line is read back.** -/
theorem parseLogText_line (r : LogRecord) :
    parseLogText (goString (dropCR r.line)) = some r.parsed := by
  rw [dropCR_line, goString_line, parseLogText_stamp, ← goString, r.trimmed]
  rfl

end LogRecord

open LogRecord

theorem parseLogLines_flatMap (records : List LogRecord) :
    parseLogLines (records.flatMap fun r => r.line ++ [10]) = records.map parsed := by
  have hsplit : splitLines (records.flatMap fun r => r.line ++ [10]) = records.map line := by
    have hnewline : ∀ l ∈ records.map line, 10 ∉ l := fun l hl => by
      obtain ⟨r, -, rfl⟩ := List.mem_map.mp hl
      exact r.newline_notMem
    rw [← splitLines_flatMap hnewline, List.flatMap_map]
  have hshort :
      (records.map line).takeWhile (fun l => l.length < scanLimit) = records.map line := by
    refine List.takeWhile_eq_self_iff.mpr fun l hl => ?_
    obtain ⟨r, -, rfl⟩ := List.mem_map.mp hl
    exact decide_eq_true (Nat.lt_of_succ_lt r.line_lt)
  rw [parseLogLines, scanLines, hsplit, hshort, List.map_map, List.filterMap_map,
    ← List.filterMap_eq_map]
  refine List.filterMap_congr fun r _ => ?_
  simp only [Function.comp_apply]
  exact r.parseLogText_line

/-- **A frame is taken off.** -/
theorem demuxChunks_frame (r : LogRecord) (rest : List UInt8) :
    demuxChunks (r.frame ++ rest) = (demuxChunks rest).map (r.line ++ [10] ++ ·) := by
  have hline := r.line_lt
  have hlimit : scanLimit = 262144 := rfl
  have hlength : (r.frame ++ rest).length = 8 + (r.line.length + 1) + rest.length := by
    rw [List.length_append, length_frame]
  have hsize : bigEndian (((r.frame ++ rest).drop 4).take 4) = r.line.length + 1 :=
    bigEndian_fourBytes (by omega)
  have hstop : (8 + (r.line.length + 1)) % 4294967296 = r.frame.length := by
    rw [length_frame]
    omega
  rw [demuxChunks, if_neg (by omega)]
  simp only [hsize, hstop]
  rw [if_neg (by omega), if_pos (by rw [hlength, length_frame]; omega), List.drop_left,
    List.take_left]
  rfl

/-- A frame that is cut is left. -/
theorem demuxChunks_take (r : LogRecord) {n : ℕ} (h : n < r.frame.length) :
    demuxChunks (r.frame.take n) = some [] := by
  have hlength : (r.frame.take n).length = n := List.length_take_of_le h.le
  rw [length_frame] at h
  rw [demuxChunks, hlength]
  split_ifs with hheader
  · rfl
  · have hline := r.line_lt
    have hlimit : scanLimit = 262144 := rfl
    have hsize : bigEndian (((r.frame.take n).drop 4).take 4) = r.line.length + 1 := by
      obtain ⟨k, rfl⟩ := Nat.exists_eq_add_of_le' (Nat.not_lt.mp hheader)
      exact bigEndian_fourBytes (show r.line.length + 1 < 4294967296 by omega)
    simp only [hsize]
    exact if_pos (.inr h)

/-- The payloads of the frames before the cut. -/
theorem demuxChunks_flatMap (records : List LogRecord) (n : ℕ) :
    demuxChunks ((records.flatMap frame).take n) =
      some ((before n records).flatMap fun r => r.line ++ [10]) := by
  induction records generalizing n with
  | nil =>
    rw [List.flatMap_nil, List.take_nil, demuxChunks]
    rfl
  | cons r records ih =>
    rw [List.flatMap_cons, before]
    split_ifs with h
    · rw [List.take_append, List.take_of_length_le h, demuxChunks_frame, ih, Option.map_some,
        List.flatMap_cons]
    · rw [List.take_append_of_le_length (Nat.not_le.mp h).le, demuxChunks_take r (Nat.not_le.mp h)]
      rfl

/-- A stream of frames is taken apart. -/
theorem demuxDockerLogs_frames (records : List LogRecord) (n : ℕ) :
    demuxDockerLogs ((records.flatMap frame).take n) =
      (demuxChunks ((records.flatMap frame).take n)).map parseLogLines := by
  rcases hbody : (records.flatMap frame).take n with - | ⟨stream, body⟩
  · rw [demuxChunks]
    rfl
  · have hstream : stream = 1 ∨ stream = 2 := by
      cases records with
      | nil => exact absurd hbody (by simp)
      | cons r records =>
        cases n with
        | zero => exact absurd hbody (by simp)
        | succ n =>
          obtain rfl := (List.cons.inj hbody).1
          exact r.stream_eq
    rw [demuxDockerLogs, if_neg fun h => hstream.elim h.1 h.2]

/-- Frames that are not cut are all read. -/
theorem demuxDockerLogs_flatMap (records : List LogRecord) :
    demuxDockerLogs (records.flatMap frame) = some (records.map parsed) := by
  have hchunks : demuxChunks (records.flatMap frame) =
      some (records.flatMap fun r => r.line ++ [10]) := by
    induction records with
    | nil =>
      rw [List.flatMap_nil, demuxChunks]
      rfl
    | cons r records ih =>
      rw [List.flatMap_cons, demuxChunks_frame, ih, Option.map_some, List.flatMap_cons]
  have hframes := demuxDockerLogs_frames records (records.flatMap frame).length
  rw [List.take_length, hchunks, Option.map_some, parseLogLines_flatMap] at hframes
  exact hframes

/-- **Key result.** Wherever the stream is cut, the lines of the frames before the cut are read, in
order, and nothing outside the body is. -/
theorem demuxDockerLogs_take (records : List LogRecord) (n : ℕ) :
    demuxDockerLogs ((records.flatMap frame).take n) = some ((before n records).map parsed) := by
  rw [demuxDockerLogs_frames, demuxChunks_flatMap, Option.map_some, parseLogLines_flatMap]

theorem goString_asciiBytes {text : List Char} (h : ∀ c ∈ text, c.toNat < 128) :
    goString (asciiBytes text) = String.ofList text := by
  have hdecode := decodeUtf8_asciiBytes h []
  rw [List.append_nil, decodeUtf8, List.append_nil] at hdecode
  rw [goString, hdecode]

/-- A record of an ASCII text. -/
def LogRecord.ofText (s : Stamp) (hstamp : s.text.length ≤ 35) (text : List Char)
    (hascii : ∀ c ∈ text, c.toNat < 128) (hsingle : '\n' ∉ text)
    (htrimmed : trimSpace (String.ofList text) = String.ofList text) (hne : text ≠ [])
    (hshort : text.length < 200 * 1024) : LogRecord where
  stream := 1
  stamp := s
  message := asciiBytes text
  stream_eq := .inl rfl
  stamp_short := hstamp
  single := newline_notMem_asciiBytes hascii hsingle
  trimmed := by rw [goString_asciiBytes hascii, htrimmed]
  message_ne := mt List.map_eq_nil_iff.mp hne
  short := by rwa [asciiBytes, List.length_map]

end Argus
