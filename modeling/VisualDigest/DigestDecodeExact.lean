import VisualDigest.DigestDecode
import VisualDigest.PlainCode
import VisualDigest.Violations

/-! How the program ends, by its arguments and by what is in the file. -/
namespace VisualDigest.DigestDecodeExact
open Checked BuildArith Decoder Qr Serialised DigestDecode Grammar DecoderExact Violations QrExact QrFiles
open JsonText Screen PlainCode

inductive Message where
  | document (json : String)
  | complaint (text : String) (exitCode : Nat)

section
variable {IoError : Type} {loader : Loader} (texts : Texts IoError loader) (image : ImageCrate)
  (rqrr : RqrrCrate image.ImageBuffer) (serde : SerdeJson) (streams : Streams) (build : Build)

inductive Says : List String → Message → Prop where
  | usage {args : List String} (count : args.length ≠ 2) :
      Says args (.complaint ("usage: " ++ args.head?.getD "digest-decode" ++ " <path-to-png>") 1)
  | unreadable {prog arg : String} {error : loader.ImageError}
      (finding : Finding IoError image rqrr build (texts.path arg) (.ok (.error (.decode error)))) :
      Says [prog,arg] (.complaint ("error: " ++ ("image decode error: " ++ texts.imageError error)) 2)
  | unseen {prog arg : String}
      (finding : Finding IoError image rqrr build (texts.path arg) (.ok (.error .noQrFound))) :
      Says [prog,arg] (.complaint ("error: no QR code found in " ++ texts.display (texts.path arg)) 3)
  | invalid {prog arg : String} {payload : Slice UInt8} {error : DecodeError}
      (finding : Finding IoError image rqrr build (texts.path arg) (.ok (.ok payload)))
      (violation : FirstViolation payload.data error) :
      Says [prog,arg] (.complaint ("error: decoding digest payload: " ++ decodeErrorText error) 4)
  | unserialised {prog arg : String} {payload : Slice UInt8} {p : Payload} {error : serde.Error}
      (finding : Finding IoError image rqrr build (texts.path arg) (.ok (.ok payload)))
      (shape : payload.data = p.bytes) (failed : serde.toStringPretty (digestJson p.digest) = .error error) :
      Says [prog,arg] (.complaint ("error: serialising digest to JSON: " ++ serde.display error) 2)
  | printed {prog arg : String} {payload : Slice UInt8} {p : Payload} {json : String}
      (finding : Finding IoError image rqrr build (texts.path arg) (.ok (.ok payload)))
      (shape : payload.data = p.bytes) (text : serde.toStringPretty (digestJson p.digest) = .ok json) :
      Says [prog,arg] (.document json)

/- The ways the program ends: an argument that is no text, a panic of a crate at the file, or
what it has to say, if that can be written. -/
inductive Ends : List OsString → Exec Empty Outcome → Prop where
  | garbled {args : List OsString} {arg : OsString} (among : arg ∈ args) (foreign : intoString arg = none) :
      Ends args (.error (.panic .unwrap))
  | stopped {args : List OsString} {prog arg : String} {fault : Fault Empty}
      (given : args.map intoString = [prog,arg].map some)
      (finding : Finding IoError image rqrr build (texts.path arg) (.error fault)) :
      Ends args (.error fault)
  | documented {args : List OsString} {words : List String} {json : String}
      (given : args.map intoString = words.map some)
      (due : Says texts image rqrr serde build words (.document json))
      (written : streams.stdout (json ++ "\n") = .ok ()) : Ends args (.ok ⟨json ++ "\n","",0⟩)
  | complained {args : List OsString} {words : List String} {text : String} {exitCode : Nat}
      (given : args.map intoString = words.map some)
      (due : Says texts image rqrr serde build words (.complaint text exitCode))
      (written : streams.stderr (text ++ "\n") = .ok ()) : Ends args (.ok ⟨"",text ++ "\n",exitCode⟩)
  | undocumented {args : List OsString} {words : List String} {json : String} {error : streams.Error}
      (given : args.map intoString = words.map some)
      (due : Says texts image rqrr serde build words (.document json))
      (unwritten : streams.stdout (json ++ "\n") = .error error) : Ends args (.error (.panic .print))
  | unheard {args : List OsString} {words : List String} {text : String} {exitCode : Nat}
      {error : streams.Error} (given : args.map intoString = words.map some)
      (due : Says texts image rqrr serde build words (.complaint text exitCode))
      (unwritten : streams.stderr (text ++ "\n") = .error error) : Ends args (.error (.panic .print))

def deliver : Message → Exec Empty Outcome
  | .document json => do return ⟨← println streams json,"",0⟩
  | .complaint text exitCode => do return ⟨"",← eprintln streams text,exitCode⟩

variable {texts image rqrr serde streams build}

theorem returnedRefused {bytes : Slice UInt8} {error : DecodeError}
    (violation : FirstViolation bytes.data error) :
    returned (decode bytes) = .ok (.error error) := by
  have answer := verdictDecodes (violationVerdict violation) (Nat.le_refl _)
  change decode bytes = .error (.err error) at answer
  rw [answer]
  rfl

theorem returnedParsed {bytes : Slice UInt8} {p : Payload} (shape : bytes.data = p.bytes) :
    returned (decode bytes) = .ok (.ok p.digest) := by
  rw [decodePayload shape]
  rfl

theorem wordsCollected {args : List OsString} {words : List String}
    (given : args.map intoString = words.map some) :
    args.mapM (fun arg => unwrap (intoString arg)) = .ok words := by
  induction args generalizing words with
  | nil =>
    cases words with
    | nil => rfl
    | cons word words => simp at given
  | cons arg args ih =>
    cases words with
    | nil => simp at given
    | cons word words =>
      obtain ⟨first,others⟩ := List.cons.inj given
      rw [List.mapM_cons,first,ih others]
      rfl

theorem wordsGarbled {args : List OsString} {arg : OsString} (among : arg ∈ args)
    (foreign : intoString arg = none) :
    args.mapM (fun arg => unwrap (intoString arg)) = .error (.panic .unwrap) := by
  induction args with
  | nil => contradiction
  | cons first args ih =>
    rw [List.mapM_cons]
    cases text : intoString first with
    | none => rfl
    | some word =>
      rcases List.mem_cons.mp among with rfl | later
      · rw [foreign] at text
        contradiction
      · rw [ih later]
        rfl

theorem wordsDecided (args : List OsString) :
    (∃ arg ∈ args, intoString arg = none) ∨ ∃ words : List String, args.map intoString = words.map some := by
  induction args with
  | nil => exact .inr ⟨[],rfl⟩
  | cons arg args ih =>
    cases text : intoString arg with
    | none => exact .inl ⟨arg,List.mem_cons_self,text⟩
    | some word =>
      rcases ih with ⟨other,among,foreign⟩ | ⟨words,given⟩
      · exact .inl ⟨other,List.mem_cons_of_mem _ among,foreign⟩
      · exact .inr ⟨word::words,by rw [List.map_cons,List.map_cons,text,given]⟩

theorem pathGiven (prog arg : String) : index (ε := Empty) [prog,arg] 1 = .ok arg := rfl

theorem pairCounted (prog arg : String) : ¬ [prog,arg].length ≠ 2 := not_not_intro rfl

theorem saysRuns {args : List OsString} {words : List String} {message : Message}
    (given : args.map intoString = words.map some) (due : Says texts image rqrr serde build words message) :
    main texts image rqrr serde streams build args = deliver streams message := by
  have collected := wordsCollected given
  cases due with
  | usage count => simp only [main,collected,bind,Except.bind,if_pos count]; rfl
  | unreadable finding =>
    simp only [main,collected,if_neg (pairCounted _ _),pathGiven,bind,Except.bind,findingRuns finding]
    rfl
  | unseen finding =>
    simp only [main,collected,if_neg (pairCounted _ _),pathGiven,bind,Except.bind,findingRuns finding]
    rfl
  | invalid finding violation =>
    simp only [main,collected,if_neg (pairCounted _ _),pathGiven,bind,Except.bind,findingRuns finding,
      returnedRefused violation]
    rfl
  | unserialised finding shape failed =>
    simp only [main,collected,if_neg (pairCounted _ _),pathGiven,bind,Except.bind,findingRuns finding,
      returnedParsed shape,failed]
    rfl
  | printed finding shape text =>
    simp only [main,collected,if_neg (pairCounted _ _),pathGiven,bind,Except.bind,findingRuns finding,
      returnedParsed shape,text]
    rfl

theorem endsDeliver {args : List OsString} {words : List String} {message : Message}
    (given : args.map intoString = words.map some) (due : Says texts image rqrr serde build words message) :
    Ends texts image rqrr serde streams build args (deliver streams message) := by
  cases message with
  | document json =>
    cases written : streams.stdout (json ++ "\n") with
    | ok done =>
      simp only [deliver,println,writeLine,written,bind,Except.bind]
      exact .documented given due written
    | error error =>
      simp only [deliver,println,writeLine,written,bind,Except.bind]
      exact .undocumented given due written
  | complaint text exitCode =>
    cases written : streams.stderr (text ++ "\n") with
    | ok done =>
      simp only [deliver,eprintln,writeLine,written,bind,Except.bind]
      exact .complained given due written
    | error error =>
      simp only [deliver,eprintln,writeLine,written,bind,Except.bind]
      exact .unheard given due written

theorem saysExists (pixels : StoresPixels image) (words : List String) :
    (∃ message, Says texts image rqrr serde build words message) ∨
      ∃ prog arg fault, words = [prog,arg] ∧
        Finding IoError image rqrr build (texts.path arg) (.error fault) := by
  match words with
  | [] => exact .inl ⟨_,.usage (by simp)⟩
  | [_] => exact .inl ⟨_,.usage (by simp)⟩
  | _::_::_::_ => exact .inl ⟨_,.usage (by simp)⟩
  | [prog,arg] =>
    obtain ⟨result,finding⟩ := @findingExists IoError loader image rqrr build pixels (texts.path arg)
    cases result with
    | error fault => exact .inr ⟨prog,arg,fault,rfl,finding⟩
    | ok outcome =>
      left
      cases outcome with
      | error error =>
        cases finding with
        | unread failed => exact ⟨_,.unreadable (.unread failed)⟩
        | unseen shown reading => exact ⟨_,.unseen (.unseen shown reading)⟩
      | ok payload =>
        obtain ⟨answer,verdict,_⟩ := decodeAnswers payload
        cases answer with
        | error error => exact ⟨_,.invalid finding (verdictViolation verdict)⟩
        | ok d =>
          obtain ⟨p,shape,rfl⟩ := verdictParsed verdict
          cases serialised : serde.toStringPretty (digestJson p.digest) with
          | error error => exact ⟨_,.unserialised finding shape.symm serialised⟩
          | ok json => exact ⟨_,.printed finding shape.symm serialised⟩

theorem endsRuns {args : List OsString} {result : Exec Empty Outcome}
    (ends : Ends texts image rqrr serde streams build args result) :
    main texts image rqrr serde streams build args = result := by
  cases ends with
  | garbled among foreign => simp only [main,wordsGarbled among foreign,bind,Except.bind]
  | @stopped prog arg fault given finding =>
    simp only [main,wordsCollected given,if_neg (pairCounted _ _),pathGiven,bind,Except.bind,findingRuns finding]
  | documented given due written =>
    rw [saysRuns given due]
    simp only [deliver,println,writeLine,written,bind,Except.bind]
    rfl
  | complained given due written =>
    rw [saysRuns given due]
    simp only [deliver,eprintln,writeLine,written,bind,Except.bind]
    rfl
  | undocumented given due unwritten =>
    rw [saysRuns given due]
    simp only [deliver,println,writeLine,unwritten,bind,Except.bind]
  | unheard given due unwritten =>
    rw [saysRuns given due]
    simp only [deliver,eprintln,writeLine,unwritten,bind,Except.bind]

theorem endsExist (pixels : StoresPixels image) (args : List OsString) :
    ∃ result, Ends texts image rqrr serde streams build args result := by
  rcases wordsDecided args with ⟨arg,among,foreign⟩ | ⟨words,given⟩
  · exact ⟨_,.garbled among foreign⟩
  rcases @saysExists IoError loader texts image rqrr serde build pixels words with
    ⟨message,due⟩ | ⟨prog,arg,fault,rfl,finding⟩
  · exact ⟨_,endsDeliver given due⟩
  · exact ⟨_,.stopped given finding⟩

end

/-! A shelf of four files, and streams of which the second cannot be written to. -/

def shelfTexts (files : List (String × RgbaImage)) : Texts Empty (shelf files) where
  path := id
  display := id
  ioError error := nomatch error
  imageError _ := "no such file"

def prettySerde : SerdeJson where
  Error := Empty
  toStringPretty document := .ok (prettyText document)
  display error := nomatch error

def openStreams : Streams where
  Error := Unit
  stdout _ := .ok ()
  stderr _ := .ok ()

def brokenPipe : Streams where
  Error := Unit
  stdout _ := .error ()
  stderr _ := .ok ()

def argument (text : String) : OsString := text.toByteArray

theorem argumentsRead (words : List String) : (words.map argument).map intoString = words.map some := by
  rw [List.map_map]
  refine List.map_congr_left fun word _ => ?_
  change String.fromUTF8? word.toByteArray = some word
  exact dif_pos word.isValidUTF8

theorem garbledArgument : intoString ⟨#[0xfe]⟩ = none := by
  have invalid : ¬ (ByteArray.mk #[0xfe]).IsValidUTF8 := by decide
  change String.fromUTF8? ⟨#[0xfe]⟩ = none
  exact dif_neg invalid

def plainPayload : Payload := ⟨7,8,UInt8.le_refl 8,.new,[],9⟩

def plainBytes : Slice UInt8 := ⟨plainPayload.bytes,by decide⟩

def tornBytes : Slice UInt8 := ⟨[1,2,3],by decide⟩

def flatPicture : RgbaImage where
  width := 0
  height := 5
  raw := ⟨[],by decide⟩
  sized := rfl

def fourFiles : List (String × RgbaImage) :=
  [("screen.png",pictureOf plainBytes.data),("torn.png",pictureOf tornBytes.data),
   ("black.png",blackPixel),("flat.png",flatPicture)]

def PlainFinding (path : String)
    (result : Exec Empty (Except (QrError Empty (shelf fourFiles).ImageError) (Slice UInt8))) : Prop :=
  @Finding Empty (shelf fourFiles) bitmapCrate (plainReader _) .debug path result

theorem screenFinding : PlainFinding "screen.png" (.ok (.ok plainBytes)) :=
  plainFound (by decide) (by decide) rfl

theorem tornFinding : PlainFinding "torn.png" (.ok (.ok tornBytes)) :=
  plainFound (by decide) (by decide) rfl

theorem missingFinding : PlainFinding "missing.png" (.ok (.error (.decode ()))) := .unread rfl

theorem smallShown {path : String} {picture : RgbaImage} (listed : fourFiles.lookup path = some picture)
    (few : area picture.width picture.height ≤ 2^30) :
    ∃ luma, @Shown (shelf fourFiles) bitmapCrate .debug path luma ∧
      bitmapCrate.dimensions luma = (picture.width,picture.height) := by
  obtain ⟨luma,ran,_⟩ := lumaExact bitmapStores .debug picture.sized few
  exact ⟨luma,pictureShown bitmapStores (shelfOpens listed) ran,bitmapKeeps (lumaFilled ran)⟩

theorem blackFinding : PlainFinding "black.png" (.ok (.error .noQrFound)) := by
  obtain ⟨luma,shown,measured⟩ := @smallShown "black.png" blackPixel rfl (by decide)
  have found : (plainReader bitmapCrate).detectGrids luma = .ok [] := by
    simp only [plainReader,measured,modulesSeen]
    rfl
  exact .unseen shown (.detected rfl found (.none (by simp [Failed])))

theorem flatFinding : PlainFinding "flat.png" (.error (.panic .bounds)) := by
  obtain ⟨luma,shown,measured⟩ := @smallShown "flat.png" flatPicture rfl (by decide)
  have panicked : (plainReader bitmapCrate).detectGrids luma = .error (.panic .bounds) := by
    simp only [plainReader,measured]
    rfl
  exact .crashed shown (.undetected rfl panicked)

def plainMain (streams : Streams) (args : List OsString) : Exec Empty Outcome :=
  main (shelfTexts fourFiles) bitmapCrate (plainReader _) prettySerde streams .debug args

end VisualDigest.DigestDecodeExact
