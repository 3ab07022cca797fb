import VisualDigest.Screen
import Mathlib.Data.List.GetD

/-! Two crates to draw codes and read them back: the code holds the length and the bytes of its
payload bit by bit, in the sizes that QR codes of as many bytes have. -/
namespace VisualDigest.PlainCode
open Checked BuildArith Qr QrExact QrFiles Screen

def bitAt (bytes : List UInt8) (k : Nat) : Bool := (bytes.getD (k/8) 0).toBitVec.getLsbD (k%8)

def byteAt (bits : Nat → Bool) (i : Nat) : UInt8 :=
  ⟨BitVec.ofBoolListLE ((List.range 8).map fun j => bits (8*i+j))⟩

theorem byteRead {bits : Nat → Bool} {bytes : List UInt8} {i : Nat}
    (same : ∀ j < 8, bits (8*i+j) = bitAt bytes (8*i+j)) : byteAt bits i = bytes.getD i 0 := by
  apply UInt8.toBitVec_inj.mp
  apply BitVec.eq_of_getLsbD_eq
  intro j inside
  have place : (8*i+j)/8 = i := by omega
  have bit : (8*i+j)%8 = j := by omega
  have listed : ((List.range 8).map fun j => bits (8*i+j)).getD j false = bits (8*i+j) := by
    simp [inside]
  calc (byteAt bits i).toBitVec.getLsbD j
      = ((List.range 8).map fun j => bits (8*i+j)).getD j false := BitVec.getLsbD_ofBoolListLE
    _ = bitAt bytes (8*i+j) := listed.trans (same j inside)
    _ = (bytes.getD i 0).toBitVec.getLsbD j := by rw [bitAt,place,bit]

/- The modules across: those of the fourth version up to 78 bytes, of the fifth up to 106. -/
def across (length : Nat) : Nat := if length ≤ 78 then 33 else 37

def plainCodes : QrcodegenCrate where
  QrCode := List UInt8
  DataTooLong := Unit
  encodeBinary payload := if payload.length ≤ 106 then .ok (.ofNat payload.length::payload) else .error ()
  size code := .ofNat (across (code.length - 1))
  getModule code x y := bitAt code (across (code.length - 1) * y.toUInt32.toNat + x.toUInt32.toNat)

section
variable (image : ImageCrate) (luma : image.ImageBuffer)

def modulesSeen : Nat := (image.dimensions luma).1.toNat/4 - 8

def moduleBit (k : Nat) : Bool :=
  decide ((image.getPixel luma (.ofNat (4*(k % modulesSeen image luma + 4)))
    (.ofNat (4*(k / modulesSeen image luma + 4)))).toNat < 200)

end

/- It stops before an image of no width, as the crate does that it stands for. -/
def plainReader (image : ImageCrate) : RqrrCrate image.ImageBuffer where
  PreparedImage := image.ImageBuffer
  Grid := Nat → Bool
  MetaData := Unit
  DeQRError := Unit
  prepare := .ok
  detectGrids luma :=
    let (width,height) := image.dimensions luma
    if width = 0 ∧ height ≠ 0 then .error (.panic .bounds)
    else if width = height ∧ 0 < modulesSeen image luma then .ok [moduleBit image luma] else .ok []
  decodeTo grid sink :=
    let payload := (List.range (byteAt grid 0).toNat).map fun i => byteAt grid (i+1)
    if payload = [] then .ok (.error (),sink)
    else if bounded : (sink.data ++ payload).length ≤ isizeMax then .ok (.ok (),⟨_,bounded⟩)
    else .error (.panic .overflow)

theorem acrossSmall (length : Nat) : 33 ≤ across length ∧ across length ≤ 37 := by
  unfold across
  split <;> omega

theorem acrossRoom {length : Nat} (fits : length ≤ 106) : 8 * (length + 1) ≤ across length * across length := by
  unfold across
  split <;> omega

theorem modulesAcross (code : List UInt8) : modules plainCodes code = across (code.length - 1) := by
  have bounds := acrossSmall (code.length - 1)
  change (UInt32.ofNat (across (code.length - 1))).toNat = _
  exact UInt32.toNat_ofNat_of_lt' (show across (code.length - 1) < 2^32 by omega)

theorem moduleDark {code : List UInt8} {x y : Nat} (inX : x < across (code.length - 1))
    (inY : y < across (code.length - 1)) :
    dark plainCodes code (.ofNat (4*(x+4))) (.ofNat (4*(y+4))) =
      bitAt code (across (code.length - 1) * y + x) := by
  have bounds := acrossSmall (code.length - 1)
  have wordX : (UInt32.ofNat (4*(x+4))).toNat = 4*(x+4) :=
    UInt32.toNat_ofNat_of_lt' (show 4*(x+4) < 2^32 by omega)
  have wordY : (UInt32.ofNat (4*(y+4))).toNat = 4*(y+4) :=
    UInt32.toNat_ofNat_of_lt' (show 4*(y+4) < 2^32 by omega)
  have column : (UInt32.ofNat x).toNat = x := UInt32.toNat_ofNat_of_lt' (show x < 2^32 by omega)
  have row : (UInt32.ofNat y).toNat = y := UInt32.toNat_ofNat_of_lt' (show y < 2^32 by omega)
  have placeX : 4*(x+4)/4 = x+4 := Nat.mul_div_cancel_left _ (by omega)
  have placeY : 4*(y+4)/4 = y+4 := Nat.mul_div_cancel_left _ (by omega)
  have inside : 4 ≤ x+4 ∧ 4 ≤ y+4 ∧ x+4 < across (code.length - 1) + 4 ∧
      y+4 < across (code.length - 1) + 4 := by omega
  simp only [dark,wordX,wordY,placeX,placeY,modulesAcross,inside,and_self,decide_true,Bool.true_and,
    Nat.add_sub_cancel]
  change bitAt code (across (code.length - 1) * (UInt32.ofNat y).toNat + (UInt32.ofNat x).toNat) = _
  rw [column,row]

theorem moduleRead {image : ImageCrate} {luma : image.ImageBuffer} {side : UInt32} {code : List UInt8}
    (drawn : @Drawn image plainCodes luma side code) {k : Nat}
    (inside : k < across (code.length - 1) * across (code.length - 1)) :
    moduleBit image luma k = bitAt code k := by
  have bounds := acrossSmall (code.length - 1)
  have edge := drawn.edge
  rw [modulesAcross] at edge
  have seen : modulesSeen image luma = across (code.length - 1) := by
    rw [modulesSeen,drawn.square]
    change side.toNat/4 - 8 = _
    omega
  have column : k % across (code.length - 1) < across (code.length - 1) := Nat.mod_lt _ (by omega)
  have row : k / across (code.length - 1) < across (code.length - 1) := Nat.div_lt_of_lt_mul inside
  have below : ∀ i < across (code.length - 1), UInt32.ofNat (4*(i+4)) < side :=
    fun i near => ofNatBelow (by omega)
  have shaded := drawn.shades _ _ (below _ column) (below _ row)
  unfold moduleBit
  unfold inColours at shaded
  rw [seen,shaded,moduleDark column row,Nat.div_add_mod]
  cases bitAt code k <;> decide

theorem plainLegible {image : ImageCrate} {payload : Slice UInt8} (filled : payload.data ≠ [])
    (fits : payload.data.length ≤ 106) :
    @Legible plainCodes image (plainReader image) (.ofNat payload.data.length::payload.data) payload := by
  intro luma side drawn
  have bounds := acrossSmall payload.data.length
  have room := acrossRoom fits
  have edge := drawn.edge
  rw [modulesAcross] at edge
  change side.toNat = 4 * (across payload.data.length + 8) at edge
  have byte : ∀ i ≤ payload.data.length, byteAt (moduleBit image luma) i =
      (UInt8.ofNat payload.data.length::payload.data).getD i 0 :=
    fun i near => byteRead fun j small => moduleRead drawn (show 8*i+j <
      across payload.data.length * across payload.data.length by omega)
  have count : (byteAt (moduleBit image luma) 0).toNat = payload.data.length := by
    rw [byte 0 (Nat.zero_le _)]
    exact UInt8.toNat_ofNat_of_lt' (show payload.data.length < 2^8 by omega)
  have bytes : (List.range (byteAt (moduleBit image luma) 0).toNat).map
      (fun i => byteAt (moduleBit image luma) (i+1)) = payload.data := by
    rw [count]
    apply List.ext_getElem (by simp)
    intro i near near'
    rw [List.getElem_map,List.getElem_range,byte (i+1) near',List.getD_cons_succ,
      List.getD_eq_getElem _ _ near']
  have wide : ¬ (side = 0 ∧ side ≠ 0) := fun both => both.2 both.1
  have seen : 0 < modulesSeen image luma := by
    rw [modulesSeen,drawn.square]
    change 0 < side.toNat/4 - 8
    omega
  have found : (plainReader image).detectGrids luma = .ok [moduleBit image luma] := by
    simp only [plainReader,drawn.square,if_neg wide,seen,and_self,if_true]
  have decoded : (plainReader image).decodeTo (moduleBit image luma) vecNew = .ok (.ok (),payload) := by
    have bounded := payload.bounded
    simp only [plainReader,bytes,if_neg filled,vecNew,List.nil_append,dif_pos bounded]
  have tried : @Tried _ (plainReader image) [moduleBit image luma] (.ok (some payload)) :=
    @Tried.first _ (plainReader image) [] [] _ _ _ (by simp [Failed]) decoded
  exact .detected rfl found tried

theorem plainCoded {payload : List UInt8} (fits : payload.length ≤ 106) :
    plainCodes.encodeBinary payload = .ok (.ofNat payload.length::payload) := if_pos fits

theorem plainModules (payload : List UInt8) : modules plainCodes (.ofNat payload.length::payload) ≤ 177 := by
  have bounds := acrossSmall payload.length
  rw [modulesAcross]
  change across payload.length ≤ 177
  omega

def shelf (files : List (String × RgbaImage)) : Loader where
  Path := String
  DynamicImage := RgbaImage
  ImageError := Unit
  openPath path := .ok (match files.lookup path with
    | some picture => .ok picture
    | none => .error ())
  toRgba8 := .ok

theorem shelfOpens {files : List (String × RgbaImage)} {path : String} {picture : RgbaImage}
    (listed : files.lookup path = some picture) : @Opens (shelf files) path picture := by
  refine ⟨picture,?_,rfl⟩
  simp only [shelf,listed]

def blackPixel : RgbaImage where
  width := 1
  height := 1
  raw := ⟨[0,0,0,255],by decide⟩
  sized := rfl

def pictureOf (payload : List UInt8) : RgbaImage :=
  match renderQrToRgba plainCodes .debug payload with
  | .ok picture => picture
  | .error _ => blackPixel

theorem pictureRendered {payload : List UInt8} (fits : payload.length ≤ 106) :
    renderQrToRgba plainCodes .debug payload = .ok (pictureOf payload) := by
  obtain ⟨picture,_,rendered,_⟩ := renderExact .debug (plainModules payload) (plainCoded fits)
  rw [pictureOf,rendered]

theorem plainFound {IoError : Type} {files : List (String × RgbaImage)} {path : String}
    {payload : Slice UInt8} (filled : payload.data ≠ []) (fits : payload.data.length ≤ 106)
    (listed : files.lookup path = some (pictureOf payload.data)) :
    @Finding IoError (shelf files) bitmapCrate (plainReader _) .debug path (.ok (.ok payload)) :=
  legibleFound bitmapStores bitmapKeeps .debug (plainModules _) (plainCoded fits)
    (plainLegible filled fits) (pictureRendered fits) (shelfOpens listed)

end VisualDigest.PlainCode
