import VisualDigest.DigestDecodeExact
import VisualDigest.RoundTrip

/-! From the ring to the document: what is printed for the picture of a payload. -/
namespace VisualDigest.Pipeline
open Checked BuildArith BudgetWindow Events Hashes Format Encoder Decoder Grammar Narrowing EncoderExact
open DecoderExact RoundTrip Qr QrExact QrFiles Serialised DigestDecode DigestDecodeExact Screen PlainCode JsonText

theorem digestShown (events : List Event) (frameCounter framebufferHash : UInt32) (h : ChannelHashes) :
    (payload events frameCounter framebufferHash h).digest =
      ⟨frameCounter,h,(selected events).map normEvent,[],framebufferHash⟩ := by
  rw [← knownEvents,← knownUnknowns (selected events)]
  rfl

theorem ranWritten {events : List Event} {frameCounter framebufferHash : UInt32} {h : ChannelHashes}
    {out after : List.Vector UInt8 digestPayloadCapacity} {n : Nat}
    (ran : (encode events frameCounter framebufferHash h).exec out = (.ok n,after)) :
    (written after n).data = (payload events frameCounter framebufferHash h).bytes := by
  obtain ⟨after',ran',front,_⟩ := encodeWritten events frameCounter framebufferHash h out
  obtain ⟨lengths,rfl⟩ := Prod.mk.inj (ran.symm.trans ran')
  rw [Except.ok.inj lengths]
  exact front

section
variable {IoError : Type} {loader : Loader} (texts : Texts IoError loader) {image : ImageCrate}
  (rqrr : RqrrCrate image.ImageBuffer) (serde : SerdeJson) (streams : Streams) (build : Build)

def Holds (args : List OsString) (bytes : Slice UInt8) : Prop :=
  ∃ prog arg, args.map intoString = [prog,arg].map some ∧
    Finding IoError image rqrr build (texts.path arg) (.ok (.ok bytes))

def PrintsApart : Prop := ∀ {v w : Json} {text : String},
  serde.toStringPretty v = .ok text → serde.toStringPretty w = .ok text → v = w

variable {texts rqrr serde streams build} {args : List OsString} {bytes : Slice UInt8} {p : Payload}

theorem holdsPrints {json : String} (holds : Holds texts rqrr build args bytes)
    (shape : bytes.data = p.bytes) (text : serde.toStringPretty (digestJson p.digest) = .ok json)
    (written : streams.stdout (json ++ "\n") = .ok ()) :
    main texts image rqrr serde streams build args = .ok ⟨json ++ "\n","",0⟩ := by
  obtain ⟨prog,arg,given,finding⟩ := holds
  exact endsRuns (.documented given (.printed finding shape text) written)

theorem holdsPrinted {outcome : Outcome} (holds : Holds texts rqrr build args bytes)
    (shape : bytes.data = p.bytes) (ran : main texts image rqrr serde streams build args = .ok outcome)
    (done : outcome.exitCode = 0) :
    ∃ json, serde.toStringPretty (digestJson p.digest) = .ok json ∧ outcome.stdout = json ++ "\n" := by
  obtain ⟨prog,arg,given,finding⟩ := holds
  cases text : serde.toStringPretty (digestJson p.digest) with
  | error error =>
    rw [saysRuns given (.unserialised finding shape text)] at ran
    obtain ⟨line,_,last⟩ := bindOk ran
    cases last
    contradiction
  | ok json =>
    rw [saysRuns given (.printed finding shape text)] at ran
    obtain ⟨line,wrote,last⟩ := bindOk ran
    cases last
    simp only [println,writeLine] at wrote
    split at wrote <;> cases wrote
    exact ⟨json,rfl,rfl⟩

end

def timeoutBytes (timestampMs : UInt64) : Slice UInt8 := encoded [.bootloaderTimeout timestampMs] 7 9 .new

theorem timeoutWritten {t : UInt64} {n : Nat} {out after : List.Vector UInt8 digestPayloadCapacity}
    (ran : (encode [.bootloaderTimeout t] 7 9 .new).exec out = (.ok n,after)) :
    written after n = timeoutBytes t := by
  have same := ranWritten ran
  cases bytes : written after n
  rw [bytes] at same
  subst same
  rfl

theorem timeoutLongest {t : UInt64} {s : List Event}
    (longest : Longest sizeOfRecord 44 s [.bootloaderTimeout t]) : s = [.bootloaderTimeout t] :=
  longestUnique longest
    ⟨List.suffix_rfl,show 10 ≤ 44 by decide,fun _ back _ => back.length_le⟩

def timeoutFiles : List (String × RgbaImage) :=
  [("first.png",pictureOf (timeoutBytes 5).data),("second.png",pictureOf (timeoutBytes 6).data)]

def timeoutMain (path : String) : Exec Empty Outcome :=
  main (shelfTexts timeoutFiles) bitmapCrate (plainReader _) prettySerde openStreams .debug
    (["digest-decode",path].map argument)

theorem prettySerdeApart : PrintsApart prettySerde := by
  rintro v w text ⟨rfl⟩ same
  exact prettyApart (Except.ok.inj same).symm

theorem timeoutHolds {t : UInt64} {path : String}
    (listed : timeoutFiles.lookup path = some (pictureOf (timeoutBytes t).data))
    (fits : (timeoutBytes t).data ≠ [] ∧ (timeoutBytes t).data.length ≤ 106) :
    Holds (shelfTexts timeoutFiles) (plainReader bitmapCrate) .debug (["digest-decode",path].map argument)
      (timeoutBytes t) :=
  ⟨"digest-decode",path,argumentsRead _,plainFound fits.1 fits.2 listed⟩

end VisualDigest.Pipeline
