import NonoCedarPdp.Lib.EscapeCode
import NonoCedarPdp.Lib.RustText

/-!
The ambiguity check on raw endpoint paths (`endpoint_path.rs`).
-/
namespace NonoCedarPdp
open RustText

def maxDecodePasses : Nat := 8

inductive Ambiguity
  | dotSegment (segment : String) (passes : Nat)
  | malformedEscape
  | nonUtf8
  | nestedTooDeep
  deriving DecidableEq, Repr

def Ambiguity.describe (tables : UnicodeTables) : Ambiguity → String
  | .dotSegment segment passes =>
      let depth := match passes with
        | 0 => "in the path as sent"
        | 1 => "after one percent-decode pass"
        | n => "after " ++ toString n ++ " percent-decode passes"
      "a " ++ debugStr tables segment ++ " path segment appears " ++ depth ++
        ", so a normalising upstream resolves this to a different resource than the " ++
        "raw path a policy matches"
  | .malformedEscape =>
      "it contains a malformed percent-escape, so what the upstream decodes cannot be " ++
        "known"
  | .nonUtf8 =>
      "percent-decoding it yields bytes that are not UTF-8, which an upstream may " ++
        "still fold " ++
        "onto \".\" (overlong encodings), so what it resolves to cannot be known"
  | .nestedTooDeep =>
      "its percent-encoding nests deeper than " ++ toString maxDecodePasses ++
        " decode passes, so what the upstream resolves cannot be known"

def dotSegment (path : String) : Option String :=
  (((path.toList.splitOnP fun c => c = '/' ∨ c = '\\').map
    fun segment => segment.takeWhile (· ≠ ';')).find?
      fun segment => segment = ['.'] ∨ segment = ['.', '.']).map String.ofList

def hex (byte : UInt8) : Option UInt8 :=
  if '0'.toUInt8 ≤ byte ∧ byte ≤ '9'.toUInt8 then some (byte - '0'.toUInt8)
  else if 'a'.toUInt8 ≤ byte ∧ byte ≤ 'f'.toUInt8 then some (byte - 'a'.toUInt8 + 10)
  else if 'A'.toUInt8 ≤ byte ∧ byte ≤ 'F'.toUInt8 then some (byte - 'A'.toUInt8 + 10)
  else none

/-- The byte loop of `percent_decode`, at index `i` with `out` decoded so far. -/
def percentDecodeFrom (bytes : List UInt8) (i : Nat) (out : List UInt8) :
    Except Ambiguity (List UInt8) :=
  if inside : i < bytes.length then
    if bytes[i] ≠ '%'.toUInt8 then
      percentDecodeFrom bytes (i + 1) (out ++ [bytes[i]])
    else
      match bytes[i + 1]?.bind hex, bytes[i + 2]?.bind hex with
      | some high, some low => percentDecodeFrom bytes (i + 3) (out ++ [high * 16 + low])
      | _, _ => .error .malformedEscape
  else .ok out
termination_by bytes.length - i

def percentDecode (text : String) : Except Ambiguity String :=
  match percentDecodeFrom (Utf8.encode text) 0 [] with
  | .error undecodable => .error undecodable
  | .ok out =>
      match Utf8.decode? out with
      | some decoded => .ok decoded
      | none => .error .nonUtf8

/-- The passes of `ambiguity` that remain, from pass number `passes` on. -/
def ambiguityFrom : Nat → Nat → String → Option Ambiguity
  | 0, _, _ => some .nestedTooDeep
  | remaining + 1, passes, current =>
      match dotSegment current with
      | some segment => some (.dotSegment segment passes)
      | none =>
          if '%' ∉ current.toList then none
          else
            match percentDecode current with
            | .ok decoded =>
                if decoded = current then none
                else ambiguityFrom remaining (passes + 1) decoded
            | .error undecodable => if passes = 0 then some undecodable else none

def routing (path : String) : String := splitFirst '?' path

def ambiguity (path : String) : Option Ambiguity :=
  ambiguityFrom (maxDecodePasses + 1) 0 (routing path)

example : ambiguity "/repos/%25252e%25252e/user/keys" = some (.dotSegment ".." 3) := by
  decide +kernel

end NonoCedarPdp
