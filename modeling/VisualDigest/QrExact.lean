import VisualDigest.Qr

/-! Which images the RGBA front end reads right. The guard multiplies in 64 bits, the pixel
index in 32: beyond 2^30 pixels the second overflows, and from 2^62 on the first. -/
namespace VisualDigest.QrExact
open Checked BuildArith Events Qr

def inverted (r g b : UInt8) : Nat := 255 - (299 * r.toNat + 587 * g.toNat + 114 * b.toNat)/1000

def offset (width x y : UInt32) : Nat := 4 * (y.toNat * width.toNat + x.toNat)

section
variable {ε : Type} (build : Build)

theorem baseExact {width x y : UInt32} (small : offset width x y < 2^32) :
    ∃ row pixel base : UInt32, mulIn (ε := ε) build y width = .ok row ∧
      addIn (ε := ε) build row x = .ok pixel ∧ mulIn (ε := ε) build pixel 4 = .ok base ∧
      base.toNat = offset width x y := by
  unfold offset at *
  have rowFits : y.toNat * width.toNat < 2^32 := by omega
  obtain ⟨row,ranRow,rowValue⟩ : ∃ c : UInt32, mulIn (ε := ε) build y width = .ok c ∧
      c.toNat = y.toNat * width.toNat := mulFits build rowFits
  have pixelFits : row.toNat + x.toNat < 2^32 := by omega
  obtain ⟨pixel,ranPixel,pixelValue⟩ : ∃ c : UInt32, addIn (ε := ε) build row x = .ok c ∧
      c.toNat = row.toNat + x.toNat := addFits build pixelFits
  have baseFits : pixel.toNat * 4 < 2^32 := by omega
  obtain ⟨base,ranBase,baseValue⟩ : ∃ c : UInt32, mulIn (ε := ε) build pixel 4 = .ok c ∧
      c.toNat = pixel.toNat * 4 := mulFits build baseFits
  exact ⟨row,pixel,base,ranRow,ranPixel,ranBase,by omega⟩

theorem besideExact (base : UInt32) {k : UInt64} (near : k.toNat ≤ 2) :
    ∃ next : Usize, addIn (ε := ε) build base.toUInt64 k = .ok next ∧
      next.toNat = base.toNat + k.toNat := by
  have bound := base.toNat_lt
  have wide : base.toUInt64.toNat = base.toNat := UInt32.toNat_toUInt64 base
  have fits : base.toUInt64.toNat + k.toNat < 2^64 := by omega
  rw [← wide]
  exact addFits build fits

theorem weighed (build : Build) (r g b : UInt8) :
    ∃ red green half blue sum : UInt32,
      mulIn (ε := ε) build r.toUInt32 299 = .ok red ∧ mulIn (ε := ε) build g.toUInt32 587 = .ok green ∧
      addIn (ε := ε) build red green = .ok half ∧ mulIn (ε := ε) build b.toUInt32 114 = .ok blue ∧
      addIn (ε := ε) build half blue = .ok sum ∧
      sum.toNat = 299 * r.toNat + 587 * g.toNat + 114 * b.toNat := by
  have product : ∀ (c : UInt8) (k : UInt32), k.toNat < 1000 → ∃ weight : UInt32,
      mulIn (ε := ε) build c.toUInt32 k = .ok weight ∧ weight.toNat = c.toNat * k.toNat := by
    intro c k light
    have byte := c.toNat_lt
    have most : c.toNat * k.toNat ≤ 255 * 999 := Nat.mul_le_mul (by omega) (by omega)
    have fits : c.toNat * k.toNat < 2^32 := by omega
    exact mulFits build fits
  have bounds := And.intro r.toNat_lt (And.intro g.toNat_lt b.toNat_lt)
  obtain ⟨red,ranRed,redValue⟩ := product r 299 (by decide)
  obtain ⟨green,ranGreen,greenValue⟩ := product g 587 (by decide)
  obtain ⟨blue,ranBlue,blueValue⟩ := product b 114 (by decide)
  change red.toNat = r.toNat * 299 at redValue
  change green.toNat = g.toNat * 587 at greenValue
  change blue.toNat = b.toNat * 114 at blueValue
  have halfFits : red.toNat + green.toNat < 2^32 := by omega
  obtain ⟨half,ranHalf,halfValue⟩ : ∃ c : UInt32, addIn (ε := ε) build red green = .ok c ∧
      c.toNat = red.toNat + green.toNat := addFits build halfFits
  have sumFits : half.toNat + blue.toNat < 2^32 := by omega
  obtain ⟨sum,ranSum,sumValue⟩ : ∃ c : UInt32, addIn (ε := ε) build half blue = .ok c ∧
      c.toNat = half.toNat + blue.toNat := addFits build sumFits
  exact ⟨red,green,half,blue,sum,ranRed,ranGreen,ranHalf,ranBlue,ranSum,by omega⟩

theorem invertedExact {sum : UInt32} (bounded : sum.toNat ≤ 255000) :
    ∃ v : UInt8, subIn (ε := ε) build 255 (sum/1000).toUInt8 = .ok v ∧
      v.toNat = 255 - sum.toNat/1000 := by
  have luma : (sum/1000).toUInt8.toNat = sum.toNat/1000 := by
    rw [UInt32.toNat_toUInt8,UInt32.toNat_div]
    change sum.toNat/1000 % 2^8 = sum.toNat/1000
    omega
  have inside : (sum/1000).toUInt8.toNat ≤ (255 : UInt8).toNat := Nat.le_of_lt_succ (UInt8.toNat_lt _)
  rw [← luma]
  exact subFits build inside

theorem pixelExact {rgba : Slice UInt8} {width x y : UInt32} {r g b : UInt8}
    (small : offset width x y < 2^32) (red : rgba.data[offset width x y]? = some r)
    (green : rgba.data[offset width x y + 1]? = some g)
    (blue : rgba.data[offset width x y + 2]? = some b) :
    ∃ v, lumaPixel (ε := ε) build rgba width x y = .ok v ∧ v.toNat = inverted r g b := by
  obtain ⟨row,pixel,base,ranRow,ranPixel,ranBase,baseValue⟩ := baseExact (ε := ε) build small
  have wide : base.toUInt64.toNat = offset width x y := by rw [UInt32.toNat_toUInt64,baseValue]
  obtain ⟨second,ranSecond,secondValue⟩ := besideExact (ε := ε) build base (k := 1) (by decide)
  obtain ⟨third,ranThird,thirdValue⟩ := besideExact (ε := ε) build base (k := 2) (by decide)
  have atSecond : second.toNat = offset width x y + 1 := by rw [secondValue,baseValue]; rfl
  have atThird : third.toNat = offset width x y + 2 := by rw [thirdValue,baseValue]; rfl
  rw [← wide] at red
  rw [← atSecond] at green
  rw [← atThird] at blue
  obtain ⟨wr,wg,half,wb,sum,ranRed,ranGreen,ranHalf,ranBlue,ranSum,sumValue⟩ :=
    weighed (ε := ε) build r g b
  have bounds := And.intro r.toNat_lt (And.intro g.toNat_lt b.toNat_lt)
  have bounded : sum.toNat ≤ 255000 := by omega
  obtain ⟨v,ranLuma,value⟩ := invertedExact (ε := ε) build bounded
  refine ⟨v,?_,by rw [value,sumValue,inverted]⟩
  simp only [lumaPixel,ranRow,ranPixel,ranBase,ranSecond,ranThird,indexOk red,indexOk green,indexOk blue,
    ranRed,ranGreen,ranHalf,ranBlue,ranSum,ranLuma,bind,Except.bind]

/- A green module comes out darker than the black background. -/
example : lumaPixel (ε := Empty) .release ⟨[0,255,0,255,0,0,0,255],by decide⟩ 2 0 0 = .ok 106 := by decide
example : lumaPixel (ε := Empty) .release ⟨[0,255,0,255,0,0,0,255],by decide⟩ 2 1 0 = .ok 255 := by decide

end

theorem pixelDebug {ε : Type} {rgba : Slice UInt8} {width x y : UInt32} {v : UInt8}
    (ran : lumaPixel (ε := ε) .debug rgba width x y = .ok v) : offset width x y < 2^32 := by
  obtain ⟨row,ranRow,later⟩ := bindOk ran
  obtain ⟨pixel,ranPixel,later⟩ := bindOk later
  obtain ⟨base,ranBase,later⟩ := bindOk later
  have rowValue : row.toNat = y.toNat * width.toNat := mulDebug ranRow
  have pixelValue : pixel.toNat = row.toNat + x.toNat := addDebug ranPixel
  have baseValue : base.toNat = pixel.toNat * 4 := mulDebug ranBase
  have bound := base.toNat_lt
  unfold offset
  omega

def area (width height : UInt32) : Nat := width.toNat * height.toNat

theorem areaWord (width height : UInt32) : area width height < 2^64 := by
  have wide : width.toNat ≤ 2^32 - 1 := Nat.le_sub_one_of_lt width.toNat_lt
  have high : height.toNat ≤ 2^32 - 1 := Nat.le_sub_one_of_lt height.toNat_lt
  have product := Nat.mul_le_mul wide high
  unfold area
  omega

theorem areaExact {ε : Type} (build : Build) (width height : UInt32) : ∃ pixels : Usize,
    mulIn (ε := ε) build width.toUInt64 height.toUInt64 = .ok pixels ∧
      pixels.toNat = area width height := by
  have fits := areaWord width height
  rw [area,← UInt32.toNat_toUInt64,← UInt32.toNat_toUInt64] at *
  exact mulFits build fits

theorem expectedExact {ε : Type} (build : Build) {width height : UInt32}
    (fits : 4 * area width height < 2^64) :
    ∃ n : Usize, expectedLen (ε := ε) build width height = .ok n ∧ n.toNat = 4 * area width height := by
  obtain ⟨pixels,ranPixels,pixelsValue⟩ := areaExact (ε := ε) build width height
  have lengthFits : pixels.toNat * 4 < 2^64 := by omega
  obtain ⟨n,ran,value⟩ : ∃ n : Usize, mulIn (ε := ε) build pixels 4 = .ok n ∧
      n.toNat = pixels.toNat * 4 := mulFits build lengthFits
  refine ⟨n,?_,by omega⟩
  rw [expectedLen,ranPixels]
  exact ran

theorem expectedDebug {ε : Type} {width height : UInt32} {n : Usize}
    (ran : expectedLen (ε := ε) .debug width height = .ok n) : n.toNat = 4 * area width height := by
  obtain ⟨pixels,ranPixels,last⟩ := bindOk ran
  obtain ⟨pixels',ranPixels',value⟩ := areaExact (ε := ε) .debug width height
  cases ranPixels.symm.trans ranPixels'
  have product : n.toNat = pixels.toNat * 4 := mulDebug last
  omega

theorem expectedRelease {ε : Type} (width height : UInt32) :
    ∃ n : Usize, expectedLen (ε := ε) .release width height = .ok n ∧
      n.toNat = 4 * area width height % 2^64 := by
  obtain ⟨pixels,ranPixels,pixelsValue⟩ := areaExact (ε := ε) .release width height
  refine ⟨pixels * 4,?_,?_⟩
  · rw [expectedLen,ranPixels]
    rfl
  · rw [UInt64.toNat_mul,pixelsValue,Nat.mul_comm]
    rfl

section
variable {image : ImageCrate} {build : Build} {rgba : Slice UInt8} {width height : UInt32} {n : Usize}

theorem lumaRefused (expected : expectedLen (ε := Empty) build width height = .ok n)
    (differs : rgba.data.length ≠ n.toNat) : lumaImage build rgba image width height = .ok none := by
  simp only [lumaImage,expected,bind,Except.bind,if_pos differs]
  rfl

theorem lumaPassed (expected : expectedLen (ε := Empty) build width height = .ok n)
    (same : rgba.data.length = n.toNat) : lumaImage build rgba image width height =
      image.fromFn width height (lumaPixel build rgba width) >>= fun luma => .ok (some luma) := by
  simp only [lumaImage,expected,bind,Except.bind,if_neg (not_not.mpr same)]
  rfl

theorem lumaFilled {luma : image.ImageBuffer}
    (ran : lumaImage build rgba image width height = .ok (some luma)) :
    image.fromFn width height (lumaPixel build rgba width) = .ok luma := by
  obtain ⟨n,expected,later⟩ := bindOk ran
  by_cases same : rgba.data.length = n.toNat
  · rw [lumaPassed expected same] at ran
    obtain ⟨filled,ranFilled,last⟩ := bindOk ran
    cases last
    exact ranFilled
  · rw [lumaRefused expected same] at ran
    cases ran

end

theorem insideOffset {width height x y : UInt32} (inX : x < width) (inY : y < height) :
    offset width x y + 4 ≤ 4 * area width height := by
  have column : x.toNat + 1 ≤ width.toNat := inX
  have row : y.toNat + 1 ≤ height.toNat := inY
  have rows := Nat.mul_le_mul_right width.toNat row
  rw [Nat.succ_mul,Nat.mul_comm height.toNat] at rows
  unfold offset area
  omega

theorem lastOffset {width height : UInt32} (filled : area width height ≠ 0) :
    ∃ x y, x < width ∧ y < height ∧ offset width x y + 4 = 4 * area width height := by
  have wide : 0 < width.toNat := Nat.pos_of_ne_zero fun zero => filled (by rw [area,zero,Nat.zero_mul])
  have high : 0 < height.toNat := Nat.pos_of_ne_zero fun zero => filled (by rw [area,zero,Nat.mul_zero])
  have column : (width - 1).toNat = width.toNat - 1 := UInt32.toNat_sub_of_le width 1 wide
  have row : (height - 1).toNat = height.toNat - 1 := UInt32.toNat_sub_of_le height 1 high
  refine ⟨width - 1,height - 1,?_,?_,?_⟩
  · exact UInt32.lt_iff_toNat_lt.mpr (by omega)
  · exact UInt32.lt_iff_toNat_lt.mpr (by omega)
  · obtain ⟨rows,split⟩ := Nat.exists_eq_add_of_lt high
    unfold offset area
    rw [column,row,split,Nat.zero_add,Nat.add_sub_cancel,Nat.mul_succ,Nat.mul_comm rows]
    omega

theorem pixelInside (build : Build) {rgba : Slice UInt8} {width height x y : UInt32}
    (whole : rgba.data.length = 4 * area width height) (small : area width height ≤ 2^30)
    (inX : x < width) (inY : y < height) : ∃ r g b v, rgba.data[offset width x y]? = some r ∧
      rgba.data[offset width x y + 1]? = some g ∧ rgba.data[offset width x y + 2]? = some b ∧
      lumaPixel (ε := Empty) build rgba width x y = .ok v ∧ v.toNat = inverted r g b := by
  have inside := insideOffset inX inY
  have found : ∀ k < 4, ∃ byte, rgba.data[offset width x y + k]? = some byte :=
    fun k near => ⟨_,List.getElem?_eq_getElem (by omega)⟩
  obtain ⟨r,red⟩ := found 0 (by decide)
  obtain ⟨g,green⟩ := found 1 (by decide)
  obtain ⟨b,blue⟩ := found 2 (by decide)
  obtain ⟨v,ran,value⟩ := pixelExact (ε := Empty) build (by omega) red green blue
  exact ⟨r,g,b,v,red,green,blue,ran,value⟩

def PixelsRight {image : ImageCrate} (luma : image.ImageBuffer) (rgba : Slice UInt8)
    (width height : UInt32) : Prop :=
  ∀ x y, x < width → y < height → ∃ r g b, rgba.data[offset width x y]? = some r ∧
    rgba.data[offset width x y + 1]? = some g ∧ rgba.data[offset width x y + 2]? = some b ∧
    (image.getPixel luma x y).toNat = inverted r g b

/- Refused exactly when the length differs from four bytes a pixel. Otherwise nothing overflows
and every index is in bounds (the debug build converts the image too), each pixel holds its
inverted luma, and the answer is what the QR crate makes of this image. -/
structure ReadsRight (image : ImageCrate) (rqrr : RqrrCrate image.ImageBuffer) (build : Build)
    (rgba : Slice UInt8) (width height : UInt32) : Prop where
  refused : rgba.data.length ≠ 4 * area width height →
    lumaImage build rgba image width height = .ok none ∧
      decodeQrRgba image rqrr build rgba width height = .ok none
  read : rgba.data.length = 4 * area width height → ∃ checked luma,
    lumaImage .debug rgba image width height = .ok (some checked) ∧
      lumaImage build rgba image width height = .ok (some luma) ∧
      decodeQrRgba image rqrr build rgba width height = decodeFromLuma rqrr luma ∧
      PixelsRight luma rgba width height

section
variable {image : ImageCrate} (pixels : StoresPixels image) (build : Build) {rgba : Slice UInt8}
  {width height : UInt32}
include pixels

theorem debugSmall {checked : image.ImageBuffer}
    (ran : lumaImage .debug rgba image width height = .ok (some checked)) {x y : UInt32}
    (inX : x < width) (inY : y < height) : offset width x y < 2^32 :=
  pixelDebug (pixels.stores (lumaFilled ran) x y inX inY)

theorem lumaExact (whole : rgba.data.length = 4 * area width height)
    (small : area width height ≤ 2^30) :
    ∃ luma, lumaImage build rgba image width height = .ok (some luma) ∧
      PixelsRight luma rgba width height := by
  have fits : 4 * area width height < 2^64 := by omega
  obtain ⟨n,expected,expectedValue⟩ := expectedExact (ε := Empty) build fits
  have runs : ∀ x y, x < width → y < height →
      ∃ v, lumaPixel (ε := Empty) build rgba width x y = .ok v := by
    intro x y inX inY
    obtain ⟨_,_,_,v,_,_,_,ran,_⟩ := pixelInside build whole small inX inY
    exact ⟨v,ran⟩
  obtain ⟨luma,ran⟩ := pixels.returns small runs
  refine ⟨luma,?_,fun x y inX inY => ?_⟩
  · rw [lumaPassed expected (whole.trans expectedValue.symm),ran]
    rfl
  · obtain ⟨r,g,b,v,red,green,blue,read,value⟩ := pixelInside build whole small inX inY
    cases (pixels.stores ran x y inX inY).symm.trans read
    exact ⟨r,g,b,red,green,blue,value⟩

end

section
variable {image : ImageCrate} (rqrr : RqrrCrate image.ImageBuffer) {build : Build} {rgba : Slice UInt8}
  {width height : UInt32}

theorem decodeRefused (refused : lumaImage build rgba image width height = .ok none) :
    decodeQrRgba image rqrr build rgba width height = .ok none := by
  rw [decodeQrRgba,refused]
  rfl

theorem decodeLuma {luma : image.ImageBuffer}
    (ran : lumaImage build rgba image width height = .ok (some luma)) :
    decodeQrRgba image rqrr build rgba width height = decodeFromLuma rqrr luma := by
  rw [decodeQrRgba,ran]
  rfl

theorem guardExact (differs : rgba.data.length ≠ 4 * area width height) :
    lumaImage build rgba image width height = .ok none ↔ 4 * area width height < 2^64 ∨
      (build = .release ∧ rgba.data.length ≠ 4 * area width height % 2^64) := by
  constructor
  · intro refused
    by_contra wraps
    obtain ⟨beyond,passes⟩ := not_or.mp wraps
    cases build with
    | debug =>
      obtain ⟨n,expected,_⟩ := bindOk refused
      have word := n.toNat_lt
      rw [expectedDebug expected] at word
      exact beyond word
    | release =>
      have same : rgba.data.length = 4 * area width height % 2^64 := by
        by_contra other
        exact passes ⟨rfl,other⟩
      obtain ⟨n,expected,value⟩ := expectedRelease (ε := Empty) width height
      rw [lumaPassed expected (same.trans value.symm)] at refused
      obtain ⟨luma,_,last⟩ := bindOk refused
      cases last
  · rintro (fits | ⟨rfl,other⟩)
    · obtain ⟨n,expected,value⟩ := expectedExact (ε := Empty) build fits
      exact lumaRefused expected (by omega)
    · obtain ⟨n,expected,value⟩ := expectedRelease (ε := Empty) width height
      exact lumaRefused expected (by omega)

end

def collect {β : Type} (f : Nat → Exec Empty β) : Nat → Exec Empty (List β)
  | 0 => .ok []
  | n+1 => do
    let before ← collect f n
    return before ++ [← f n]

theorem collectAt {β : Type} {f : Nat → Exec Empty β} {n : Nat} {xs : List β}
    (ran : collect f n = .ok xs) :
    xs.length = n ∧ ∀ i < n, ∃ v, xs[i]? = some v ∧ f i = .ok v := by
  induction n generalizing xs with
  | zero => cases ran; exact ⟨rfl,fun i inside => absurd inside (Nat.not_lt_zero i)⟩
  | succ n ih =>
    obtain ⟨before,ranBefore,later⟩ := bindOk ran
    obtain ⟨v,ranLast,last⟩ := bindOk later
    cases last
    obtain ⟨size,each⟩ := ih ranBefore
    refine ⟨by rw [List.length_append,size]; rfl,fun i inside => ?_⟩
    by_cases earlier : i < n
    · obtain ⟨u,found,value⟩ := each i earlier
      exact ⟨u,by rw [List.getElem?_append_left (by omega),found],value⟩
    · have newest : i = n := by omega
      subst newest
      exact ⟨v,by rw [List.getElem?_append_right (by omega),size,Nat.sub_self]; rfl,ranLast⟩

theorem collectRuns {β : Type} {f : Nat → Exec Empty β} {n : Nat}
    (each : ∀ i < n, ∃ v, f i = .ok v) : ∃ xs, collect f n = .ok xs := by
  induction n with
  | zero => exact ⟨[],rfl⟩
  | succ n ih =>
    obtain ⟨before,ran⟩ := ih fun i inside => each i (by omega)
    obtain ⟨v,last⟩ := each n (by omega)
    refine ⟨before ++ [v],?_⟩
    rw [collect,ran]
    change (f n >>= fun v => .ok (before ++ [v])) = _
    rw [last]
    rfl

theorem ofNatBelow {n : Nat} {bound : UInt32} (below : n < bound.toNat) : UInt32.ofNat n < bound := by
  rw [UInt32.lt_iff_toNat_lt,UInt32.toNat_ofNat_of_lt' (below.trans bound.toNat_lt)]
  exact below

structure Bitmap where
  width : UInt32
  height : UInt32
  rows : List (List UInt8)

def bitmapCrate : ImageCrate where
  ImageBuffer := Bitmap
  fromFn width height f := do
    if isizeMax < width.toNat * height.toNat then
      .error (.panic .overflow)
    else
      let rows ← collect (fun y => collect (fun x => f (.ofNat x) (.ofNat y)) width.toNat) height.toNat
      return ⟨width,height,rows⟩
  dimensions img := (img.width,img.height)
  getPixel img x y := (img.rows[y.toNat]?.bind fun row => row[x.toNat]?).getD 0

theorem bitmapRows {width height : UInt32} {f : UInt32 → UInt32 → Exec Empty UInt8} {img : Bitmap}
    (ran : bitmapCrate.fromFn width height f = .ok img) :
    bitmapCrate.dimensions img = (width,height) ∧
      collect (fun y => collect (fun x => f (.ofNat x) (.ofNat y)) width.toNat) height.toNat =
        .ok img.rows := by
  simp only [bitmapCrate] at ran
  split at ran <;> try contradiction
  obtain ⟨rows,collected,last⟩ := bindOk ran
  cases last
  exact ⟨rfl,collected⟩

theorem bitmapStores : StoresPixels bitmapCrate where
  stores := by
    intro width height f img ran x y inX inY
    have rows := (bitmapRows ran).2
    obtain ⟨row,atRow,ranRow⟩ := (collectAt rows).2 y.toNat inY
    obtain ⟨v,atPixel,value⟩ := (collectAt ranRow).2 x.toNat inX
    rw [UInt32.ofNat_toNat,UInt32.ofNat_toNat] at value
    have pixel : bitmapCrate.getPixel img x y = v := by
      simp only [bitmapCrate,atRow,Option.bind_some,atPixel,Option.getD_some]
    rw [value,pixel]
  returns := by
    intro width height f room each
    have largest : 2^30 ≤ isizeMax := by decide
    obtain ⟨rows,ran⟩ : ∃ rows, collect (fun y => collect (fun x => f (.ofNat x) (.ofNat y)) width.toNat)
        height.toNat = .ok rows := by
      apply collectRuns
      intro y inY
      apply collectRuns
      intro x inX
      exact each (.ofNat x) (.ofNat y) (ofNatBelow inX) (ofNatBelow inY)
    refine ⟨⟨width,height,rows⟩,?_⟩
    simp only [bitmapCrate,ran,if_neg (show ¬ isizeMax < width.toNat * height.toNat by omega)]
    rfl

theorem bitmapKeeps : KeepsSize bitmapCrate := fun ran => (bitmapRows ran).1

def noGrids (ImageBuffer : Type) : RqrrCrate ImageBuffer where
  PreparedImage := ImageBuffer
  Grid := Empty
  MetaData := Empty
  DeQRError := Empty
  prepare := .ok
  detectGrids _ := .ok []
  decodeTo grid _ := nomatch grid

theorem spottedSize (n : Nat) : (255::255::255::255::List.replicate n (0 : UInt8)).length = n + 4 := by
  simp only [List.length_cons,List.length_replicate]

def spotted (n : Nat) (bounded : n + 4 ≤ isizeMax) : Slice UInt8 where
  data := 255::255::255::255::List.replicate n 0
  bounded := (spottedSize n).trans_le bounded

theorem spottedFar {n i : Nat} (bounded : n + 4 ≤ isizeMax) (behind : 4 ≤ i) (inside : i < n + 4) :
    (spotted n bounded).data[i]? = some 0 := by
  obtain ⟨j,rfl⟩ := Nat.exists_eq_add_of_le' behind
  exact List.getElem?_replicate_of_lt (by omega)

theorem readsRightExactly {image : ImageCrate} (pixels : StoresPixels image)
    (rqrr : RqrrCrate image.ImageBuffer) (build : Build) (rgba : Slice UInt8) (width height : UInt32) :
    ReadsRight image rqrr build rgba width height ↔
      (4 * area width height < 2^64 ∨
        (build = .release ∧ rgba.data.length ≠ 4 * area width height % 2^64)) ∧
      (rgba.data.length = 4 * area width height → area width height ≤ 2^30) := by
  have bounded := rgba.bounded
  constructor
  · intro right
    constructor
    · by_cases whole : rgba.data.length = 4 * area width height
      · have word : isizeMax < 2^64 := by decide
        exact .inl (by omega)
      · exact (guardExact whole).mp (right.refused whole).1
    · intro whole
      obtain ⟨checked,_,ran,_⟩ := right.read whole
      by_contra large
      have filled : area width height ≠ 0 := by omega
      obtain ⟨x,y,inX,inY,last⟩ := lastOffset filled
      have small := debugSmall pixels ran inX inY
      omega
  · rintro ⟨guard,large⟩
    constructor
    · intro differs
      have refused : lumaImage build rgba image width height = .ok none :=
        (guardExact differs).mpr guard
      exact ⟨refused,decodeRefused rqrr refused⟩
    · intro whole
      obtain ⟨checked,ranChecked,_⟩ := lumaExact pixels .debug whole (large whole)
      obtain ⟨luma,ran,right⟩ := lumaExact pixels build whole (large whole)
      exact ⟨checked,luma,ranChecked,ran,decodeLuma rqrr ran,right⟩

theorem readsRightTwoPixels :
    ReadsRight bitmapCrate (noGrids _) .release ⟨[0,255,0,255,0,0,0,255],by decide⟩ 2 1 :=
  (readsRightExactly bitmapStores (noGrids _) .release ⟨[0,255,0,255,0,0,0,255],by decide⟩ 2 1).mpr
    ⟨.inl (by decide),fun _ => by decide⟩

/- In an image of 65536 by 16385 pixels, white first and black elsewhere, the first pixel of the
last row stands at 2^32: the debug build panics there, the release build reads the white one. -/
theorem lastRowMisread :
    (spotted 4295229436 (by decide)).data.length = 4 * area 65536 16385 ∧
    offset 65536 0 16384 = 2^32 ∧ (spotted 4295229436 (by decide)).data[2^32]? = some 0 ∧
    lumaPixel (ε := Empty) .debug (spotted 4295229436 (by decide)) 65536 0 16384 =
      .error (.panic .overflow) ∧
    lumaPixel (ε := Empty) .release (spotted 4295229436 (by decide)) 65536 0 16384 = .ok 0 ∧
    ∀ build, ¬ ReadsRight bitmapCrate (noGrids _) build (spotted 4295229436 (by decide)) 65536 16385 := by
  have whole : (spotted 4295229436 (by decide)).data.length = 4 * area 65536 16385 :=
    spottedSize _
  refine ⟨whole,rfl,spottedFar (by decide) (by decide) (by decide),rfl,rfl,fun build right => ?_⟩
  obtain ⟨checked,_,ran,_⟩ := right.read whole
  have small : offset 65536 0 16384 < 2^32 := debugSmall bitmapStores ran (by decide) (by decide)
  exact absurd small (by decide)

end VisualDigest.QrExact
