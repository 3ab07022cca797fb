import VisualDigest.QrExact

/-! What the front end makes of an image and of a file, panics of the crates included. -/
namespace VisualDigest.QrFiles
open Checked BuildArith Qr QrExact

section
variable {ImageBuffer : Type} (rqrr : RqrrCrate ImageBuffer)

def Failed (grids : List rqrr.Grid) : Prop :=
  ∀ g ∈ grids, ∃ error partly, rqrr.decodeTo g vecNew = .ok (.error error,partly)

inductive Tried : List rqrr.Grid → Exec Empty (Option (Slice UInt8)) → Prop where
  | none {grids : List rqrr.Grid} (failed : Failed rqrr grids) : Tried grids (.ok none)
  | first {earlier later : List rqrr.Grid} {grid : rqrr.Grid} {data : rqrr.MetaData}
      {payload : Slice UInt8} (failed : Failed rqrr earlier)
      (decoded : rqrr.decodeTo grid vecNew = .ok (.ok data,payload)) :
      Tried (earlier ++ grid::later) (.ok (some payload))
  | stopped {earlier later : List rqrr.Grid} {grid : rqrr.Grid} {fault : Fault Empty}
      (failed : Failed rqrr earlier) (panicked : rqrr.decodeTo grid vecNew = .error fault) :
      Tried (earlier ++ grid::later) (.error fault)

inductive Reading (luma : ImageBuffer) : Exec Empty (Option (Slice UInt8)) → Prop where
  | unprepared {fault : Fault Empty} (panicked : rqrr.prepare luma = .error fault) :
      Reading luma (.error fault)
  | undetected {prepared : rqrr.PreparedImage} {fault : Fault Empty}
      (ready : rqrr.prepare luma = .ok prepared) (panicked : rqrr.detectGrids prepared = .error fault) :
      Reading luma (.error fault)
  | detected {prepared : rqrr.PreparedImage} {grids : List rqrr.Grid}
      {result : Exec Empty (Option (Slice UInt8))} (ready : rqrr.prepare luma = .ok prepared)
      (found : rqrr.detectGrids prepared = .ok grids) (tried : Tried rqrr grids result) :
      Reading luma result

variable {rqrr}

theorem failedSkipped {earlier : List rqrr.Grid} (failed : Failed rqrr earlier) (later : List rqrr.Grid) :
    firstPayload rqrr (earlier ++ later) = firstPayload rqrr later := by
  induction earlier with
  | nil => rfl
  | cons g earlier ih =>
    obtain ⟨⟨error,partly,refused⟩,others⟩ := List.forall_mem_cons.mp failed
    simp only [List.cons_append,firstPayload,refused,bind,Except.bind]
    exact ih others

theorem triedRuns {grids : List rqrr.Grid} {result : Exec Empty (Option (Slice UInt8))}
    (tried : Tried rqrr grids result) : firstPayload rqrr grids = result := by
  cases tried with
  | none failed =>
    have skipped := failedSkipped failed []
    rwa [List.append_nil] at skipped
  | first failed decoded =>
    rw [failedSkipped failed]
    simp only [firstPayload,decoded,bind,Except.bind]
    rfl
  | stopped failed panicked =>
    rw [failedSkipped failed]
    simp only [firstPayload,panicked,bind,Except.bind]

theorem triedLater {g : rqrr.Grid} {grids : List rqrr.Grid} {result : Exec Empty (Option (Slice UInt8))}
    (refused : ∃ error partly, rqrr.decodeTo g vecNew = .ok (.error error,partly))
    (tried : Tried rqrr grids result) : Tried rqrr (g::grids) result := by
  cases tried with
  | none failed => exact .none (List.forall_mem_cons.mpr ⟨refused,failed⟩)
  | first failed decoded => exact .first (List.forall_mem_cons.mpr ⟨refused,failed⟩) decoded
  | stopped failed panicked => exact .stopped (List.forall_mem_cons.mpr ⟨refused,failed⟩) panicked

theorem gridsTried (grids : List rqrr.Grid) : Tried rqrr grids (firstPayload rqrr grids) := by
  induction grids with
  | nil => exact .none (by simp [Failed])
  | cons g grids ih =>
    have nothing : Failed rqrr [] := by simp [Failed]
    match answer : rqrr.decodeTo g vecNew with
    | .error fault =>
      have ends : Tried rqrr ([] ++ g::grids) (.error fault) := .stopped nothing answer
      rwa [← triedRuns ends] at ends
    | .ok (.ok data,payload) =>
      have ends : Tried rqrr ([] ++ g::grids) (.ok (some payload)) := .first nothing answer
      rwa [← triedRuns ends] at ends
    | .ok (.error error,partly) =>
      have ends := triedLater ⟨error,partly,answer⟩ ih
      rwa [← triedRuns ends] at ends

theorem readingExact {luma : ImageBuffer} {result : Exec Empty (Option (Slice UInt8))} :
    decodeFromLuma rqrr luma = result ↔ Reading rqrr luma result := by
  constructor
  · rintro rfl
    unfold decodeFromLuma
    cases ready : rqrr.prepare luma with
    | error fault => exact .unprepared ready
    | ok prepared =>
      cases found : rqrr.detectGrids prepared with
      | error fault =>
        simp only [bind,Except.bind,found]
        exact .undetected ready found
      | ok grids =>
        simp only [bind,Except.bind,found]
        exact .detected ready found (gridsTried grids)
  · intro reading
    cases reading with
    | unprepared panicked => simp only [decodeFromLuma,panicked,bind,Except.bind]
    | undetected ready panicked => simp only [decodeFromLuma,ready,panicked,bind,Except.bind]
    | detected ready found tried =>
      simp only [decodeFromLuma,ready,found,bind,Except.bind]
      exact triedRuns tried

end

section
variable (IoError : Type) {loader : Loader} (image : ImageCrate) (rqrr : RqrrCrate image.ImageBuffer)
  (build : Build)

def Opens (path : loader.Path) (rgba : RgbaImage) : Prop :=
  ∃ img, loader.openPath path = .ok (.ok img) ∧ loader.toRgba8 img = .ok rgba

/- The image handed to the QR crate. It has the right luma at every pixel, but for pictures of
more than 2^30 pixels, which only the release build converts at all. -/
structure Shown (path : loader.Path) (luma : image.ImageBuffer) : Prop where
  picture : ∃ rgba, Opens path rgba ∧
    lumaImage build rgba.raw image rgba.width rgba.height = .ok (some luma) ∧
    (build = .debug ∨ area rgba.width rgba.height ≤ 2^30 →
      area rgba.width rgba.height ≤ 2^30 ∧ PixelsRight luma rgba.raw rgba.width rgba.height)

inductive Finding (path : loader.Path) :
    Exec Empty (Except (QrError IoError loader.ImageError) (Slice UInt8)) → Prop where
  | unopened {fault : Fault Empty} (panicked : loader.openPath path = .error fault) :
      Finding path (.error fault)
  | unread {error : loader.ImageError} (failed : loader.openPath path = .ok (.error error)) :
      Finding path (.ok (.error (.decode error)))
  | unpainted {img : loader.DynamicImage} {fault : Fault Empty}
      (opened : loader.openPath path = .ok (.ok img)) (panicked : loader.toRgba8 img = .error fault) :
      Finding path (.error fault)
  | oversized {rgba : RgbaImage} {fault : Fault Empty} (opens : Opens path rgba)
      (large : 2^30 < area rgba.width rgba.height)
      (panicked : lumaImage build rgba.raw image rgba.width rgba.height = .error fault) :
      Finding path (.error fault)
  | crashed {luma : image.ImageBuffer} {fault : Fault Empty} (shown : Shown image build path luma)
      (reading : Reading rqrr luma (.error fault)) : Finding path (.error fault)
  | unseen {luma : image.ImageBuffer} (shown : Shown image build path luma)
      (reading : Reading rqrr luma (.ok none)) : Finding path (.ok (.error .noQrFound))
  | found {luma : image.ImageBuffer} {payload : Slice UInt8} (shown : Shown image build path luma)
      (reading : Reading rqrr luma (.ok (some payload))) : Finding path (.ok (.ok payload))

variable {IoError image rqrr build} {path : loader.Path}

theorem pictureMeasured (rgba : RgbaImage) : lumaImage build rgba.raw image rgba.width rgba.height =
    image.fromFn rgba.width rgba.height (lumaPixel build rgba.raw rgba.width) >>=
      fun luma => .ok (some luma) := by
  have bounded := rgba.raw.bounded
  have length : rgba.raw.data.length = 4 * area rgba.width rgba.height := rgba.sized
  have word : isizeMax < 2^64 := by decide
  obtain ⟨n,expected,value⟩ := expectedExact (ε := Empty) build
    (show 4 * area rgba.width rgba.height < 2^64 by omega)
  exact lumaPassed expected (length.trans value.symm)

theorem pictureShown (pixels : StoresPixels image) {rgba : RgbaImage} (opens : Opens path rgba)
    {luma : image.ImageBuffer}
    (ran : lumaImage build rgba.raw image rgba.width rgba.height = .ok (some luma)) :
    Shown image build path luma := by
  refine ⟨rgba,opens,ran,fun sure => ?_⟩
  have few : area rgba.width rgba.height ≤ 2^30 := by
    rcases sure with rfl | few
    · by_contra large
      obtain ⟨x,y,inX,inY,last⟩ := lastOffset (show area rgba.width rgba.height ≠ 0 by omega)
      have small := debugSmall pixels ran inX inY
      omega
    · exact few
  obtain ⟨luma',ran',right⟩ := lumaExact pixels build rgba.sized few
  cases ran.symm.trans ran'
  exact ⟨few,right⟩

theorem pngShown {luma : image.ImageBuffer} (shown : Shown image build path luma) :
    decodeQrPng IoError loader image rqrr build path =
      decodeFromLuma rqrr luma >>= fun found => .ok (found.elim (.error .noQrFound) .ok) := by
  obtain ⟨rgba,⟨img,opened,painted⟩,ran,_⟩ := shown.picture
  simp only [decodeQrPng,opened,painted,bind,Except.bind,decodeLuma rqrr ran]
  match decodeFromLuma rqrr luma with
  | .error fault => rfl
  | .ok none => rfl
  | .ok (some payload) => rfl

theorem findingRuns {result : Exec Empty (Except (QrError IoError loader.ImageError) (Slice UInt8))}
    (finding : Finding IoError image rqrr build path result) :
    decodeQrPng IoError loader image rqrr build path = result := by
  cases finding with
  | unopened panicked => simp only [decodeQrPng,panicked,bind,Except.bind]
  | unread failed =>
    simp only [decodeQrPng,failed,bind,Except.bind]
    rfl
  | unpainted opened panicked => simp only [decodeQrPng,opened,panicked,bind,Except.bind]
  | oversized opens large panicked =>
    obtain ⟨img,opened,painted⟩ := opens
    simp only [decodeQrPng,opened,painted,decodeQrRgba,panicked,bind,Except.bind]
  | crashed shown reading =>
    rw [pngShown shown,readingExact.mpr reading]
    rfl
  | unseen shown reading =>
    rw [pngShown shown,readingExact.mpr reading]
    rfl
  | found shown reading =>
    rw [pngShown shown,readingExact.mpr reading]
    rfl

theorem findingShown {luma : image.ImageBuffer} (shown : Shown image build path luma) :
    ∃ result, Finding IoError image rqrr build path result := by
  match answer : decodeFromLuma rqrr luma with
  | .error fault => exact ⟨_,.crashed shown (readingExact.mp answer)⟩
  | .ok none => exact ⟨_,.unseen shown (readingExact.mp answer)⟩
  | .ok (some payload) => exact ⟨_,.found shown (readingExact.mp answer)⟩

theorem findingExists (pixels : StoresPixels image) (path : loader.Path) :
    ∃ result, Finding IoError image rqrr build path result := by
  match opened : loader.openPath path with
  | .error fault => exact ⟨_,.unopened opened⟩
  | .ok (.error error) => exact ⟨_,.unread opened⟩
  | .ok (.ok img) =>
    cases painted : loader.toRgba8 img with
    | error fault => exact ⟨_,.unpainted opened painted⟩
    | ok rgba =>
      have opens : Opens path rgba := ⟨img,opened,painted⟩
      by_cases few : area rgba.width rgba.height ≤ 2^30
      · obtain ⟨luma,ran,_⟩ := lumaExact pixels build rgba.sized few
        exact findingShown (pictureShown pixels opens ran)
      have measured := @pictureMeasured image build rgba
      cases filled : image.fromFn rgba.width rgba.height (lumaPixel build rgba.raw rgba.width) with
      | error fault =>
        rw [filled] at measured
        exact ⟨_,.oversized opens (Nat.lt_of_not_le few) measured⟩
      | ok luma =>
        rw [filled] at measured
        exact findingShown (pictureShown pixels opens measured)

end
end VisualDigest.QrFiles
