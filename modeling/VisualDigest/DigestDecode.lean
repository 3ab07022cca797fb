import VisualDigest.Qr
import VisualDigest.Serialised

/-! The command-line program: a path in, a JSON document or an error and its exit code out. Texts of
paths and of foreign errors, the JSON crate and the two output streams are parameters. -/
namespace VisualDigest.DigestDecode
open Checked BuildArith Events Decoder Qr Serialised JsonText Digits

def hexByte (b : UInt8) : String := String.ofList [hexDigit (b.toNat/16),hexDigit (b.toNat%16)]

def decodeErrorText : DecodeError → String
  | .short found => "input is " ++ toString found ++ " bytes; minimum valid payload is " ++
    toString minPayload ++ " bytes"
  | .badMagic found => "bad magic: expected SXDG, found [" ++
    ", ".intercalate (found.toList.map hexByte) ++ "]"
  | .unsupportedSchemaVersion version => "unsupported schema version 0x" ++ hexByte version ++
    "; only 0x02 is supported"
  | .recordCountTooSmall found => "record count " ++ toString found.toNat ++
    " is less than the minimum 8 (hash block always present in v2)"
  | .malformedHashBlock offset reason => "malformed hash block at offset " ++ toString offset ++ ": " ++
    reason
  | .malformedRawRecord tag offset reason => "malformed raw record tag 0x" ++ hexByte tag ++
    " at offset " ++ toString offset ++ ": " ++ reason
  | .truncatedValue tag offset => "record tag 0x" ++ hexByte tag ++ " at offset " ++ toString offset ++
    ": value length runs past the trailer"
  | .trailing extraBytes => toString extraBytes ++ " unexpected bytes between last record and trailer"

structure Texts (IoError : Type) (loader : Loader) where
  path : String → loader.Path
  display : loader.Path → String
  ioError : IoError → String
  imageError : loader.ImageError → String

def qrErrorText {IoError : Type} {loader : Loader} (texts : Texts IoError loader) :
    QrError IoError loader.ImageError → String
  | .io error => "IO error reading QR PNG: " ++ texts.ioError error
  | .decode error => "image decode error: " ++ texts.imageError error
  | .noQrFound => "no QR code found in image"

structure SerdeJson where
  Error : Type
  toStringPretty : Json → Except Error String
  display : Error → String

/- The program's own ends. A panic is none of them: its exit code is 101. -/
structure Outcome where
  stdout : String
  stderr : String
  exitCode : Nat
  deriving DecidableEq, Repr

structure Streams where
  Error : Type
  stdout : String → Except Error Unit
  stderr : String → Except Error Unit

/- An argument as the system hands it over: bytes, meant as UTF-8. -/
abbrev OsString := ByteArray

def intoString (arg : OsString) : Option String := String.fromUTF8? arg

def unwrap {α : Type} : Option α → Exec Empty α
  | some a => .ok a
  | none => .error (.panic .unwrap)

def returned {ε α : Type} : Exec ε α → Exec Empty (Except ε α)
  | .ok a => .ok (.ok a)
  | .error (.err error) => .ok (.error error)
  | .error (.panic cause) => .error (.panic cause)
  | .error .fuel => .error .fuel

def writeLine {Error : Type} (write : String → Except Error Unit) (text : String) : Exec Empty String :=
  match write (text ++ "\n") with
  | .ok () => .ok (text ++ "\n")
  | .error _ => .error (.panic .print)

def println (streams : Streams) : String → Exec Empty String := writeLine streams.stdout
def eprintln (streams : Streams) : String → Exec Empty String := writeLine streams.stderr

section
variable {IoError : Type} {loader : Loader} (texts : Texts IoError loader) (image : ImageCrate)
  (rqrr : RqrrCrate image.ImageBuffer) (serde : SerdeJson) (streams : Streams) (build : Build)

def main (args : List OsString) : Exec Empty Outcome := do
  let args ← args.mapM fun arg => unwrap (intoString arg)
  if args.length ≠ 2 then
    let prog := args.head?.getD "digest-decode"
    return ⟨"",← eprintln streams ("usage: " ++ prog ++ " <path-to-png>"),1⟩
  let path := texts.path (← index args 1)
  match ← decodeQrPng IoError loader image rqrr build path with
  | .error .noQrFound =>
    return ⟨"",← eprintln streams ("error: no QR code found in " ++ texts.display path),3⟩
  | .error error => return ⟨"",← eprintln streams ("error: " ++ qrErrorText texts error),2⟩
  | .ok bytes =>
    match ← returned (decode bytes) with
    | .error error =>
      return ⟨"",← eprintln streams ("error: decoding digest payload: " ++ decodeErrorText error),4⟩
    | .ok digest =>
      match serde.toStringPretty (digestJson digest) with
      | .ok json => return ⟨← println streams json,"",0⟩
      | .error error =>
        return ⟨"",← eprintln streams ("error: serialising digest to JSON: " ++ serde.display error),2⟩

end
end VisualDigest.DigestDecode
