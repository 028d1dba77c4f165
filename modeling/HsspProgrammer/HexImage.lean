import HsspProgrammer.CompleteFiles

/-! The HEX text of an image, and that loading it gives the image back. The text is
written with lower-case digits and then cased at will, digit by digit. -/
namespace HsspProgrammer.HexImage
open Ascii (Bytes hexByte hexBytes foldCase cased)
open Loader Records CompleteFiles

structure Image where
  program : Vector Block NUM_BLOCKS
  security : Block
  securityAddr : UInt16
  checksumAddr : UInt16
  programChecksum : UInt16
  /-- The address fields of the five records after the program data. -/
  fields : Vector UInt16 5

def total (bytes : Bytes) : UInt8 := bytes.foldl (· + ·) 0

def wordBytes (word : UInt16) : Bytes := [(word >>> 8).toUInt8,word.toUInt8]

def recordBytes (k : Kind) (address : UInt16) (data : Bytes) : Bytes :=
  k.size :: wordBytes address ++ k.type :: data

def record (k : Kind) (address : UInt16) (data : Bytes) : Bytes :=
  Ascii.colon :: hexBytes (recordBytes k address data ++ [0 - total (recordBytes k address data)]) ++
    [Ascii.newline]

def Image.records (image : Image) : List Bytes :=
  (List.finRange NUM_BLOCKS).map (fun k : Fin NUM_BLOCKS =>
    record .block (UInt16.ofNat (64 * k.val)) (image.program.get k).toList) ++
  [record .extended (image.fields.get 0) (wordBytes image.securityAddr),
   record .block (image.fields.get 1) image.security.toList,
   record .extended (image.fields.get 2) (wordBytes image.checksumAddr),
   record .word (image.fields.get 3) (wordBytes image.programChecksum),
   record .endOfFile (image.fields.get 4) []]

def Image.text (image : Image) : Bytes := image.records.flatten

section Reading
/- Reading back the hexadecimal digits of a record. -/

theorem sliceInside (bytes : Bytes) (beyond : Nat → UInt8) (i n : Nat) (inside : i + n ≤ bytes.length) :
    (Line.mk bytes beyond).slice i n = (bytes.drop i).take n := by
  apply List.ext_getElem
  · simp [Line.slice]; omega
  · intro j _ before
    simp only [List.length_take,List.length_drop] at before
    have at_j : i + j < bytes.length := by omega
    simp [Line.slice,Line.get,at_j]

theorem hexBytesAppend (l m : Bytes) : hexBytes (l ++ m) = hexBytes l ++ hexBytes m := by
  simp [hexBytes]

theorem hexBytesDrop (bytes : Bytes) (i : Nat) (rest : Bytes) (inside : i ≤ bytes.length) :
    (hexBytes bytes ++ rest).drop (2 * i) = hexBytes (bytes.drop i) ++ rest := by
  have front : (hexBytes (bytes.take i)).length = 2 * i := by
    rw [Ascii.hexBytesLength,List.length_take,Nat.min_eq_left inside]
  calc (hexBytes bytes ++ rest).drop (2 * i)
      = (hexBytes (bytes.take i) ++ (hexBytes (bytes.drop i) ++ rest)).drop (2 * i) := by
        rw [← List.append_assoc,← hexBytesAppend,List.take_append_drop]
    _ = hexBytes (bytes.drop i) ++ rest := by rw [← front,List.drop_left]

theorem hexBytesTake (bytes : Bytes) (n : Nat) (rest : Bytes) (inside : n ≤ bytes.length) :
    (hexBytes bytes ++ rest).take (2 * n) = hexBytes (bytes.take n) := by
  have front : (hexBytes (bytes.take n)).length = 2 * n := by
    rw [Ascii.hexBytesLength,List.length_take,Nat.min_eq_left inside]
  calc (hexBytes bytes ++ rest).take (2 * n)
      = (hexBytes (bytes.take n) ++ (hexBytes (bytes.drop n) ++ rest)).take (2 * n) := by
        rw [← List.append_assoc,← hexBytesAppend,List.take_append_drop]
    _ = hexBytes (bytes.take n) := by rw [← front,List.take_left]

/-- The digits of `n` bytes from byte `i` of a record. -/
theorem recordSlice (bytes rest : Bytes) (beyond : Nat → UInt8) (i n : Nat) (inside : i + n ≤ bytes.length) :
    (Line.mk (Ascii.colon :: hexBytes bytes ++ rest) beyond).slice (1 + 2 * i) (2 * n) =
      hexBytes ((bytes.drop i).take n) := by
  rw [sliceInside]
  · rw [Nat.add_comm,List.cons_append,List.drop_succ_cons,hexBytesDrop _ _ _ (by omega),
      hexBytesTake _ _ _ (by rw [List.length_drop]; omega)]
  · simp only [List.cons_append,List.length_cons,List.length_append,Ascii.hexBytesLength]
    omega

theorem trimDigits {str : Bytes} (none : ∀ ch ∈ str, Ascii.isSpace ch = false) : trim str = str := by
  have front : str.dropWhile Ascii.isSpace = str := by
    cases str with
    | nil => rfl
    | cons ch rest => rw [List.dropWhile_cons_of_neg]; simp [none ch List.mem_cons_self]
  have back : str.reverse.dropWhile Ascii.isSpace = str.reverse := by
    cases h : str.reverse with
    | nil => rfl
    | cons ch rest =>
      have inside : ch ∈ str := List.mem_reverse.mp (by rw [h]; exact List.mem_cons_self)
      rw [List.dropWhile_cons_of_neg]; simp [none ch inside]
  rw [trim,front,back,List.reverse_reverse]

theorem unprefixedDigits {str : Bytes} (none : ∀ ch ∈ str, ch ≠ Ascii.x ∧ ch ≠ Ascii.upperX) : unprefixed str = str := by
  match str with
  | [] | [_] => rfl
  | first :: second :: rest =>
    have other := none second (by simp)
    rw [unprefixed,if_neg (fun is => is.2.elim other.1 other.2)]

theorem toIntHexBytes {bytes : Bytes} (some : bytes ≠ []) :
    toInt (hexBytes bytes) = Option.some (Int.ofNat (bytes.foldl (fun n v => 256 * n + v.toNat) 0)) := by
  have plain : trim (hexBytes bytes) = hexBytes bytes := by
    apply trimDigits
    intro ch inside
    obtain ⟨n,small,rfl⟩ := Ascii.hexBytesChar inside
    exact Ascii.digitNotSpace n small
  have bare : unprefixed (hexBytes bytes) = hexBytes bytes := by
    apply unprefixedDigits
    intro ch inside
    obtain ⟨n,small,rfl⟩ := Ascii.hexBytesChar inside
    exact Ascii.digitNotX n small
  have size := Ascii.hexBytesLength bytes
  have value := Ascii.digitsHexBytes 0 bytes
  rw [toInt,plain]
  cases h : hexBytes bytes with
  | nil =>
    rw [h] at size
    cases bytes with
    | nil => exact absurd rfl some
    | cons v rest => simp at size
  | cons ch rest =>
    have first : ch ∈ hexBytes bytes := by rw [h]; exact List.mem_cons_self
    obtain ⟨n,small,rfl⟩ := Ascii.hexBytesChar first
    have sign := Ascii.digitNotSign n small
    rw [h] at bare value
    simp only [sign.1,sign.2,if_false,magnitude,bare,value,Option.map_some]

theorem ofIntByte (n : Nat) : UInt8.ofInt n = UInt8.ofNat n := by
  apply UInt8.toNat.inj
  simp [UInt8.ofInt]
  omega

theorem ofIntWord (n : Nat) : UInt16.ofInt n = UInt16.ofNat n := by
  apply UInt16.toNat.inj
  simp [UInt16.ofInt]
  omega

theorem complement (v : UInt8) : ~~~v + 0x01 = 0 - v :=
  Ascii.forallByte (p := fun v => ~~~v + 0x01 = 0 - v) (by decide +kernel) v

theorem totalFrom (start : UInt8) (bytes : Bytes) : bytes.foldl (· + ·) start = start + total bytes := by
  induction bytes generalizing start with
  | nil => simp [total]
  | cons v rest ih =>
    have whole : total (v :: rest) = 0 + v + total rest := ih (0 + v)
    rw [List.foldl_cons,ih,whole,UInt8.zero_add,UInt8.add_assoc]

theorem totalCons (v : UInt8) (rest : Bytes) : total (v :: rest) = v + total rest := by
  rw [total,List.foldl_cons,totalFrom,UInt8.zero_add]

theorem wordBytesSum (hi lo checksum : UInt8) :
    addWord checksum (UInt16.ofNat (256 * hi.toNat + lo.toNat)) = checksum + hi + lo := by
  have low : (UInt16.ofNat (256 * hi.toNat + lo.toNat)).toUInt8 = lo := by
    apply UInt8.toNat.inj
    have first := hi.toNat_lt
    have second := lo.toNat_lt
    rw [UInt16.toNat_toUInt8,UInt16.toNat_ofNat']
    omega
  have high : (UInt16.ofNat (256 * hi.toNat + lo.toNat) >>> 8).toUInt8 = hi := by
    apply UInt8.toNat.inj
    have first := hi.toNat_lt
    have second := lo.toNat_lt
    rw [UInt16.toNat_toUInt8,UInt16.toNat_shiftRight,UInt16.toNat_ofNat']
    simp [Nat.shiftRight_eq_div_pow]
    omega
  rw [addWord,low,high]
  ac_rfl

end Reading

section Spelled
/- A line that spells bytes in lower-case digits; what it reads as is told from the bytes. -/
variable {bytes : Bytes} (tail : Bytes) (beyond : Nat → UInt8)

def spelledLine (bytes tail : Bytes) (beyond : Nat → UInt8) : Line := ⟨Ascii.colon :: hexBytes bytes ++ tail,beyond⟩

theorem fieldSpelled (bytes tail : Bytes) (beyond : Nat → UInt8) (i n : Nat) (inside : i + n ≤ bytes.length)
    (some : 0 < n) :
    toInt ((spelledLine bytes tail beyond).slice (1 + 2 * i) (2 * n)) =
      Option.some (Int.ofNat (((bytes.drop i).take n).foldl (fun n v => 256 * n + v.toNat) 0)) := by
  rw [spelledLine,recordSlice _ _ _ i n inside,toIntHexBytes]
  intro empty
  have size := congrArg List.length empty
  rw [List.length_take,List.length_drop,List.length_nil] at size
  omega

theorem byteSpelled {i : Nat} {v : UInt8} (row : bytes[i]? = some v) :
    toInt ((spelledLine bytes tail beyond).slice (1 + 2 * i) 2) = some (Int.ofNat v.toNat) := by
  obtain ⟨inside,rfl⟩ := List.getElem?_eq_some_iff.mp row
  have field := fieldSpelled bytes tail beyond i 1 inside (by decide)
  rw [List.drop_eq_getElem_cons inside,List.take_succ_cons,List.take_zero,List.foldl_cons,List.foldl_nil,
    Nat.mul_zero,Nat.zero_add] at field
  exact field

theorem wordSpelled {i : Nat} {hi lo : UInt8} (first : bytes[i]? = some hi) (second : bytes[i + 1]? = some lo) :
    toInt ((spelledLine bytes tail beyond).slice (1 + 2 * i) 4) = some (Int.ofNat (256 * hi.toNat + lo.toNat)) := by
  obtain ⟨_,rfl⟩ := List.getElem?_eq_some_iff.mp first
  obtain ⟨inside,rfl⟩ := List.getElem?_eq_some_iff.mp second
  have field := fieldSpelled bytes tail beyond i 2 inside (by decide)
  rw [List.drop_eq_getElem_cons (by omega),List.drop_eq_getElem_cons inside,List.take_succ_cons,List.take_succ_cons,
    List.take_zero,List.foldl_cons,List.foldl_cons,List.foldl_nil,Nat.mul_zero,Nat.zero_add] at field
  exact field

/- The fields of a header. -/
theorem headerSpelled (size hi lo type : UInt8) (rest : Bytes) :
    toInt ((spelledLine (size :: hi :: lo :: type :: rest) tail beyond).slice 1 2) = some (Int.ofNat size.toNat) ∧
    toInt ((spelledLine (size :: hi :: lo :: type :: rest) tail beyond).slice 3 4) =
      some (Int.ofNat (256 * hi.toNat + lo.toNat)) ∧
    toInt ((spelledLine (size :: hi :: lo :: type :: rest) tail beyond).slice 7 2) = some (Int.ofNat type.toNat) :=
  ⟨byteSpelled tail beyond (i := 0) rfl,wordSpelled tail beyond (i := 1) rfl rfl,byteSpelled tail beyond (i := 3) rfl⟩

/-- A record is of the kind that its header names. -/
theorem kindSpelled {size hi lo type : UInt8} {rest : Bytes} {k : Kind}
    (kind : recordKind (spelledLine (size :: hi :: lo :: type :: rest) tail beyond) = some k) :
    kindOf size type = some k := by
  obtain ⟨first,second,third⟩ := headerSpelled tail beyond size hi lo type rest
  unfold recordKind at kind
  split at kind
  · cases kind
  · simp only [first,second,third,bind,Option.bind_some,Option.bind_eq_some_iff] at kind
    obtain ⟨k',known,sum,_,last⟩ := kind
    split at last
    · cases Option.some.inj last
      simpa [ofIntByte] using known
    · cases last

end Spelled

section Whole
/- As many data bytes as the length byte asks for, and a checksum. -/
variable (tail : Bytes) (beyond : Nat → UInt8) {size hi lo type check : UInt8} {data : Bytes}

theorem dataSpelled {i : Nat} (inside : i < data.length) :
    dataByte (spelledLine (size :: hi :: lo :: type :: (data ++ [check])) tail beyond) i = some data[i] := by
  have row : (size :: hi :: lo :: type :: (data ++ [check]))[4 + i]? = some data[i] := by
    have whole : (data ++ [check])[i]? = some data[i] := by
      rw [List.getElem?_append_left inside,List.getElem?_eq_getElem inside]
    rwa [Nat.add_comm]
  have field := byteSpelled tail beyond row
  rw [dataByte,show 9 + i * 2 = 1 + 2 * (4 + i) by omega,field]
  simp [ofIntByte]

theorem payloadSpelled {k : Kind} (fits : data.length = k.size.toNat) (checksum : UInt8) :
    payload (spelledLine (size :: hi :: lo :: type :: (data ++ [check])) tail beyond) checksum k =
      some (checksum + total data) := by
  have word : data.length = 2 →
      toInt ((spelledLine (size :: hi :: lo :: type :: (data ++ [check])) tail beyond).slice 9 4) =
        some (Int.ofNat (256 * (data.getD 0 0).toNat + (data.getD 1 0).toNat)) ∧
      total data = data.getD 0 0 + data.getD 1 0 := by
    intro two
    match data, two with
    | [hi',lo'], _ =>
      refine ⟨wordSpelled tail beyond (i := 4) rfl rfl,?_⟩
      simp [total]
  cases k with
  | block =>
    have long : data.length = BLOCK_SIZE := fits
    have bytes : (List.range BLOCK_SIZE).map
        (byteAt (spelledLine (size :: hi :: lo :: type :: (data ++ [check])) tail beyond)) = data := by
      apply List.ext_getElem
      · simp [long]
      · intro i _ inside
        rw [List.getElem_map,List.getElem_range,byteAt,dataSpelled tail beyond inside,Option.getD_some]
    have all : ∀ i < BLOCK_SIZE,
        (dataByte (spelledLine (size :: hi :: lo :: type :: (data ++ [check])) tail beyond) i).isSome := by
      intro i inside
      rw [dataSpelled tail beyond (by omega)]
      rfl
    rw [payload,if_pos all,← List.foldl_map (f := byteAt _) (g := (· + ·)),bytes,totalFrom]
  | extended | word =>
    obtain ⟨field,sum⟩ := word fits
    rw [payload,field,if_pos (by rfl),wordOf,field,Option.getD_some,Int.ofNat_eq_natCast,ofIntWord,wordBytesSum,sum,
      UInt8.add_assoc]
  | endOfFile =>
    have none : data = [] := List.eq_nil_of_length_eq_zero fits
    rw [payload,none]
    simp [total]

/-- What spells a whole record is one exactly when its bytes sum to zero. -/
theorem recordSpelled {k : Kind} (kind : kindOf size type = some k) (fits : data.length = size.toNat) :
    recordKind (spelledLine (size :: hi :: lo :: type :: (data ++ [check])) tail beyond) =
      if total (size :: hi :: lo :: type :: (data ++ [check])) = 0 then some k else none := by
  obtain ⟨first,second,third⟩ := headerSpelled tail beyond size hi lo type (data ++ [check])
  obtain ⟨rfl,rfl⟩ := kindOfSome kind
  have start : (spelledLine (k.size :: hi :: lo :: k.type :: (data ++ [check])) tail beyond).get 0 = Ascii.colon := rfl
  have last : toInt ((spelledLine (k.size :: hi :: lo :: k.type :: (data ++ [check])) tail beyond).slice
      (9 + k.size.toNat * 2) 2) = some (Int.ofNat check.toNat) := by
    rw [← fits,show 9 + data.length * 2 = 1 + 2 * (4 + data.length) by omega]
    refine byteSpelled tail beyond ?_
    rw [Nat.add_comm]
    simp
  have sums : checksumMatches (spelledLine (k.size :: hi :: lo :: k.type :: (data ++ [check])) tail beyond) k.size
      (addWord (k.size + k.type) (UInt16.ofNat (256 * hi.toNat + lo.toNat)) + total data) =
      decide (total (k.size :: hi :: lo :: k.type :: (data ++ [check])) = 0) := by
    rw [checksumMatches,last]
    have closed : total (data ++ [check]) = total data + check := by
      rw [total,List.foldl_append,List.foldl_cons,List.foldl_nil]
      rfl
    simp only [totalCons,wordBytesSum,closed,Int.ofNat_eq_natCast,ofIntByte,UInt8.ofNat_toNat,complement]
    rw [Bool.eq_iff_iff,beq_iff_eq,decide_eq_true_eq]
    constructor <;> intro balanced <;> grind
  rw [recordKind,if_neg (fun other => other start)]
  simp only [first,second,third,bind,Option.bind_some,Int.ofNat_eq_natCast,ofIntByte,ofIntWord,UInt8.ofNat_toNat,kind,
    payloadSpelled tail beyond fits,sums,decide_eq_true_eq]

end Whole

section OneRecord
variable (k : Kind) (address : UInt16) (data : Bytes) (beyond : Nat → UInt8)

def recordLine : Line := ⟨record k address data,beyond⟩

theorem recordSpells : recordLine k address data beyond =
    spelledLine (k.size :: (address >>> 8).toUInt8 :: address.toUInt8 :: k.type ::
      (data ++ [0 - total (recordBytes k address data)])) [Ascii.newline] beyond := rfl

theorem wordWhole (word : UInt16) : 256 * (word >>> 8).toUInt8.toNat + word.toUInt8.toNat = word.toNat := by
  have bound := word.toNat_lt
  simp only [UInt16.toNat_toUInt8,UInt16.toNat_shiftRight]
  simp [Nat.shiftRight_eq_div_pow]
  omega

theorem fieldAddress : toInt ((recordLine k address data beyond).slice 3 4) = some (Int.ofNat address.toNat) := by
  rw [recordSpells,(headerSpelled _ _ _ _ _ _ _).2.1,wordWhole]

theorem fieldByte (i : Nat) (inside : i < data.length) : dataByte (recordLine k address data beyond) i = some data[i] := by
  rw [recordSpells]
  exact dataSpelled _ _ inside

theorem kindRecord (fits : data.length = k.size.toNat) : recordKind (recordLine k address data beyond) = some k := by
  have balanced : total (k.size :: (address >>> 8).toUInt8 :: address.toUInt8 :: k.type ::
      (data ++ [0 - total (recordBytes k address data)])) = 0 := by
    have whole : total (recordBytes k address data ++ [0 - total (recordBytes k address data)]) = 0 := by
      rw [total,List.foldl_append,List.foldl_cons,List.foldl_nil]
      exact (UInt8.add_comm _ _).trans (UInt8.sub_add_cancel _ _)
    exact whole
  rw [recordSpells,recordSpelled _ _ (kindOfKind k) fits,if_pos balanced]

theorem blockRecord (block : Block) :
    recordKind (recordLine .block address block.toList beyond) = some .block ∧
    blockOf (recordLine .block address block.toList beyond) = block := by
  refine ⟨kindRecord _ _ _ _ (by simp; rfl),?_⟩
  apply Vector.ext
  intro i inside
  have long : i < block.toList.length := by simpa using inside
  have row := fieldByte .block address block.toList beyond i long
  simp [blockOf,byteAt,row]

theorem wordRecord {k : Kind} (word : k = .extended ∨ k = .word) (value : UInt16) :
    recordKind (recordLine k address (wordBytes value) beyond) = some k ∧
    wordOf (recordLine k address (wordBytes value) beyond) = value := by
  have size : (wordBytes value).length = k.size.toNat := by rcases word with rfl | rfl <;> rfl
  have field : toInt ((recordLine k address (wordBytes value) beyond).slice 9 4) =
      some (Int.ofNat (256 * (value >>> 8).toUInt8.toNat + value.toUInt8.toNat)) := by
    rw [recordSpells]
    exact wordSpelled _ _ (i := 4) rfl rfl
  refine ⟨kindRecord _ _ _ _ size,?_⟩
  rw [wordOf,field,wordWhole]
  simp [ofIntWord]

theorem endRecord : recordKind (recordLine .endOfFile address [] beyond) = some .endOfFile :=
  kindRecord .endOfFile address [] beyond rfl

end OneRecord

section Case
/- The loader does not see the letter case of a digit, so a file may be folded first. -/

def foldLine (line : Line) : Line := ⟨line.bytes.map foldCase,fun i => foldCase (line.beyond i)⟩

theorem getFolded (line : Line) (i : Nat) : (foldLine line).get i = foldCase (line.get i) := by
  unfold Line.get foldLine
  simp only [List.length_map]
  by_cases inside : i < line.bytes.length
  · simp [inside]
  · by_cases last : i = line.bytes.length
    · simp only [dif_neg inside,if_pos last]
      rfl
    · simp only [dif_neg inside,if_neg last]

theorem sliceFolded (line : Line) (i n : Nat) :
    (foldLine line).slice i n = (line.slice i n).map foldCase := by
  simp [Line.slice,getFolded]

theorem trimFolded (str : Bytes) : trim (str.map foldCase) = (trim str).map foldCase := by
  have same : Ascii.isSpace ∘ foldCase = Ascii.isSpace := funext Ascii.foldSpace
  simp only [trim,List.dropWhile_map,← List.map_reverse,same]

theorem unprefixedFolded (str : Bytes) : unprefixed (str.map foldCase) = (unprefixed str).map foldCase := by
  match str with
  | [] | [_] => rfl
  | first :: second :: rest =>
    obtain ⟨_,_,_,_,_,zero,_⟩ := Ascii.foldControl first
    obtain ⟨_,_,_,_,_,_,x,upperX⟩ := Ascii.foldControl second
    simp only [List.map_cons,unprefixed,zero,x,upperX]
    split <;> rfl

theorem magnitudeFolded (str : Bytes) : magnitude (str.map foldCase) = magnitude str := by
  rw [magnitude,magnitude,unprefixedFolded]
  cases unprefixed str with
  | nil => rfl
  | cons ch rest =>
    have value := Ascii.foldDigits 0 (ch :: rest)
    simp only [List.map_cons] at value
    simp only [List.map_cons,value]

theorem toIntFolded (str : Bytes) : toInt (str.map foldCase) = toInt str := by
  unfold toInt
  rw [trimFolded]
  cases trim str with
  | nil => rfl
  | cons ch rest =>
    obtain ⟨_,_,plus,minus,_⟩ := Ascii.foldControl ch
    have whole := magnitudeFolded (ch :: rest)
    simp only [List.map_cons] at whole
    simp only [List.map_cons,plus,minus,magnitudeFolded rest,whole]

theorem fieldFolded (line : Line) (i n : Nat) : toInt ((foldLine line).slice i n) = toInt (line.slice i n) := by
  rw [sliceFolded,toIntFolded]

theorem byteFolded (line : Line) (i : Nat) : dataByte (foldLine line) i = dataByte line i := by
  rw [dataByte,fieldFolded,← dataByte]

theorem dataFolded (line : Line) :
    blockOf (foldLine line) = blockOf line ∧ wordOf (foldLine line) = wordOf line := by
  simp only [blockOf,byteAt,byteFolded,wordOf,fieldFolded,and_self]

theorem payloadFolded (line : Line) (checksum : UInt8) (k : Kind) :
    payload (foldLine line) checksum k = payload line checksum k := by
  cases k <;> simp only [payload,byteAt,byteFolded,fieldFolded,(dataFolded line).2]

theorem checksumFolded (line : Line) (dataSize checksum : UInt8) :
    checksumMatches (foldLine line) dataSize checksum = checksumMatches line dataSize checksum := by
  rw [checksumMatches,fieldFolded]
  rfl

theorem kindFolded (line : Line) : recordKind (foldLine line) = recordKind line := by
  have start : (foldLine line).get 0 = Ascii.colon ↔ line.get 0 = Ascii.colon := by
    rw [getFolded]
    exact (Ascii.foldControl _).2.2.2.2.1
  by_cases colon : line.get 0 = Ascii.colon
  · simp only [recordKind,start.mpr colon,colon,ne_eq,not_true,if_false,fieldFolded,payloadFolded,
      checksumFolded]
  · rw [recordKind,if_pos (fun h => colon (start.mp h)),recordKind,if_pos colon]

theorem endLineFolded (read : Bytes) : endLine (read.map foldCase) = (endLine read).map foldCase := by
  have last : (read.map foldCase).getLast? = some Ascii.carriageReturn ↔
      read.getLast? = some Ascii.carriageReturn := by
    rw [List.getLast?_map,Option.map_eq_some_iff]
    constructor
    · rintro ⟨ch,h,same⟩
      rw [h,(Ascii.foldControl ch).2.1.mp same]
    · exact fun h => ⟨_,h,rfl⟩
  unfold endLine
  simp only [last]
  split
  · rw [List.map_append,List.map_dropLast]
    rfl
  · rw [List.map_append]
    rfl

theorem readLinesFolded (read text : Bytes) :
    readLines (read.map foldCase) (text.map foldCase) = (readLines read text).map (List.map foldCase) := by
  induction text generalizing read with
  | nil => cases read <;> simp [readLines]
  | cons ch rest ih =>
    have cut := (Ascii.foldControl ch).1
    simp only [List.map_cons,readLines,cut]
    split
    · rw [List.map_cons,endLineFolded,← ih []]
      rfl
    · rw [← ih,List.map_append]
      rfl

end Case

section Text

theorem readLinesBody (read body rest : Bytes) (one : ∀ ch ∈ body, ch ≠ Ascii.newline) :
    readLines read (body ++ Ascii.newline :: rest) = endLine (read ++ body) :: readLines [] rest := by
  induction body generalizing read with
  | nil => simp [readLines]
  | cons ch body ih =>
    have other := one ch List.mem_cons_self
    rw [List.cons_append,readLines,if_neg other,
      ih (read ++ [ch]) (fun ch inside => one ch (List.mem_cons_of_mem _ inside)),
      List.append_assoc,List.singleton_append]

theorem readLinesRecord (k : Kind) (address : UInt16) (data rest : Bytes) :
    readLines [] (record k address data ++ rest) = record k address data :: readLines [] rest := by
  have plain : ∀ ch ∈ Ascii.colon :: hexBytes (recordBytes k address data ++
      [0 - total (recordBytes k address data)]), ch ≠ Ascii.newline ∧ ch ≠ Ascii.carriageReturn := by
    intro ch inside
    rcases List.mem_cons.mp inside with rfl | inside
    · decide
    · obtain ⟨n,small,rfl⟩ := Ascii.hexBytesChar inside
      exact Ascii.digitNotNewline n small
  have whole := readLinesBody [] _ rest (fun ch inside => (plain ch inside).1)
  have body : endLine (Ascii.colon :: hexBytes (recordBytes k address data ++
      [0 - total (recordBytes k address data)])) = record k address data := by
    rw [endLine,if_neg]
    · rfl
    · intro last
      exact (plain _ (List.mem_of_getLast? last)).2 rfl
  rw [List.nil_append,body] at whole
  rw [← whole,record,List.append_assoc]
  rfl

/-- Every element of `records` is one line of the text. -/
def IsRecord (line : Bytes) : Prop := ∃ k address data, line = record k address data

theorem readLinesRecords {records : List Bytes} (all : ∀ line ∈ records, IsRecord line) :
    readLines [] records.flatten = records := by
  induction records with
  | nil => rfl
  | cons line rest ih =>
    obtain ⟨k,address,data,rfl⟩ := all line List.mem_cons_self
    rw [List.flatten_cons,readLinesRecord,ih (fun line inside => all line (List.mem_cons_of_mem _ inside))]

theorem recordsAll (image : Image) : ∀ line ∈ image.records, IsRecord line := by
  intro line inside
  rcases List.mem_append.mp inside with block | rest
  · obtain ⟨k,_,rfl⟩ := List.mem_map.mp block
    exact ⟨_,_,_,rfl⟩
  · simp only [List.mem_cons,List.not_mem_nil,or_false] at rest
    rcases rest with rfl | rfl | rfl | rfl | rfl <;> exact ⟨_,_,_,rfl⟩

theorem recordFolded (k : Kind) (address : UInt16) (data : Bytes) :
    (record k address data).map foldCase = record k address data := by
  simp only [record,List.map_append,List.map_cons,List.map_nil,List.cons_append,Ascii.hexBytesFolded]
  rfl

theorem textFolded (image : Image) : image.text.map foldCase = image.text := by
  rw [Image.text,List.map_flatten]
  congr 1
  apply (List.map_congr_left ?_).trans (List.map_id _)
  intro line inside
  obtain ⟨k,address,data,rfl⟩ := recordsAll image line inside
  exact recordFolded k address data

end Text

section Complete

def Image.globals (image : Image) : Globals where
  programData := image.program
  securityData := image.security
  blockCounter := 128
  fSecurityAddrAcquired := true
  securityAddr := image.securityAddr
  fChecksumAddrAcquired := true
  checksumAddr := image.checksumAddr
  programChecksum := image.programChecksum

/- The lines of a complete file hold an image, in file order. -/
structure Image.Written (image : Image) (lines : List Line) : Prop where
  size : lines.length = NUM_BLOCKS + 5
  program : ∀ k (inside : k < NUM_BLOCKS),
    recordKind (lineAt lines k) = some .block ∧ blockOf (lineAt lines k) = image.program.get ⟨k,inside⟩
  extended : recordKind (lineAt lines NUM_BLOCKS) = some .extended ∧
    wordOf (lineAt lines NUM_BLOCKS) = image.securityAddr
  security : recordKind (lineAt lines (NUM_BLOCKS + 1)) = some .block ∧
    blockOf (lineAt lines (NUM_BLOCKS + 1)) = image.security
  address : recordKind (lineAt lines (NUM_BLOCKS + 2)) = some .extended ∧
    wordOf (lineAt lines (NUM_BLOCKS + 2)) = image.checksumAddr
  word : recordKind (lineAt lines (NUM_BLOCKS + 3)) = some .word ∧
    wordOf (lineAt lines (NUM_BLOCKS + 3)) = image.programChecksum
  last : recordKind (lineAt lines (NUM_BLOCKS + 4)) = some .endOfFile

theorem kindsAt {lines : List Line} {ks : List Kind} (size : lines.length = ks.length)
    (each : ∀ i (inside : i < ks.length), recordKind (lineAt lines i) = some ks[i]) :
    lines.mapM recordKind = some ks := by
  induction lines generalizing ks with
  | nil =>
    cases ks with
    | nil => rfl
    | cons k ks => simp at size
  | cons line rest ih =>
    cases ks with
    | nil => simp at size
    | cons k ks =>
      have now : recordKind line = some k := each 0 (by simp)
      have later : rest.mapM recordKind = some ks :=
        ih (by simpa using size) (fun i inside => each (i + 1) (by simpa using inside))
      rw [List.mapM_cons,now,later]
      rfl

theorem writtenComplete {image : Image} {lines : List Line} (holds : image.Written lines) :
    lines.mapM recordKind = some completeKinds := by
  have size : lines.length = completeKinds.length := by simp [holds.size,completeKinds]
  apply kindsAt size
  intro i inside
  by_cases row : i < NUM_BLOCKS
  · rw [(holds.program i row).1]
    simp [completeKinds,List.getElem_append_left,row]
  · have few : i < NUM_BLOCKS + 5 := by simpa [completeKinds] using inside
    have cases_i : i = NUM_BLOCKS ∨ i = NUM_BLOCKS + 1 ∨ i = NUM_BLOCKS + 2 ∨ i = NUM_BLOCKS + 3 ∨
        i = NUM_BLOCKS + 4 := by omega
    rcases cases_i with rfl | rfl | rfl | rfl | rfl
    · exact holds.extended.1
    · exact holds.security.1
    · exact holds.address.1
    · exact holds.word.1
    · exact holds.last

/-- Lines that hold an image load as this image, whatever was loaded before. -/
theorem writtenLoads {image : Image} {file : File} (holds : image.Written file.lines) (g : Globals) :
    load g (some file) = (true,image.globals) := by
  rw [loadWritten g _ (writtenComplete holds)]
  have rows : Vector.ofFn (fun k : Fin NUM_BLOCKS => blockOf (lineAt file.lines k)) = image.program := by
    apply Vector.ext
    intro k inside
    rw [Vector.getElem_ofFn]
    exact (holds.program k inside).2
  rw [written,rows,holds.extended.2,holds.security.2,holds.address.2,holds.word.2,Image.globals]

end Complete

section RoundTrip
variable (image : Image) (upper : Nat → Bool) (beyond : Nat → Nat → UInt8)

def Image.file : File := ⟨cased upper image.text,beyond⟩

theorem linesFolded : (image.file upper beyond).lines.map foldLine =
    image.records.mapIdx (fun i line => ⟨line,fun j => foldCase (beyond i j)⟩) := by
  have cut : (readLines [] (cased upper image.text)).map (List.map foldCase) = image.records := by
    rw [← readLinesFolded,Ascii.foldCased,textFolded]
    exact readLinesRecords (recordsAll image)
  apply List.ext_getElem
  · simp [File.lines,Image.file,← cut]
  · intro i _ _
    simp [File.lines,Image.file,foldLine,← cut]

theorem lineFolded (i : Nat) (inside : i < image.records.length) :
    foldLine (lineAt (image.file upper beyond).lines i) =
      ⟨image.records[i],fun j => foldCase (beyond i j)⟩ := by
  have row : (image.file upper beyond).lines[i]?.map foldLine =
      some ⟨image.records[i],fun j => foldCase (beyond i j)⟩ := by
    rw [← List.getElem?_map,linesFolded,List.getElem?_mapIdx,List.getElem?_eq_getElem inside]
    rfl
  obtain ⟨line,found,same⟩ := Option.map_eq_some_iff.mp row
  rw [lineAt,List.getD_eq_getElem?_getD,found]
  exact same

theorem programRow (k : Nat) (inside : k < NUM_BLOCKS) :
    ∃ beyond', foldLine (lineAt (image.file upper beyond).lines k) =
      recordLine .block (UInt16.ofNat (64 * k)) (image.program.get ⟨k,inside⟩).toList beyond' := by
  rw [lineFolded image upper beyond k (by simp [Image.records,NUM_BLOCKS] at *; omega)]
  refine ⟨fun j => foldCase (beyond k j),?_⟩
  simp [Image.records,recordLine,List.getElem_append_left,inside]

theorem lastRows {j : Nat} {line : Bytes} (row : image.records[NUM_BLOCKS + j]? = some line) :
    ∃ beyond', foldLine (lineAt (image.file upper beyond).lines (NUM_BLOCKS + j)) = ⟨line,beyond'⟩ := by
  obtain ⟨inside,same⟩ := List.getElem?_eq_some_iff.mp row
  rw [lineFolded image upper beyond _ inside,same]
  exact ⟨_,rfl⟩

theorem blockLine {i : Nat} {address : UInt16} {block : Block} {beyond' : Nat → UInt8}
    (row : foldLine (lineAt (image.file upper beyond).lines i) = recordLine .block address block.toList beyond') :
    recordKind (lineAt (image.file upper beyond).lines i) = some .block ∧
    blockOf (lineAt (image.file upper beyond).lines i) = block := by
  rw [← kindFolded,← (dataFolded _).1,row]
  exact blockRecord address beyond' block

theorem wordLine {i : Nat} {k : Kind} {address value : UInt16} {beyond' : Nat → UInt8}
    (word : k = .extended ∨ k = .word)
    (row : foldLine (lineAt (image.file upper beyond).lines i) = recordLine k address (wordBytes value) beyond') :
    recordKind (lineAt (image.file upper beyond).lines i) = some k ∧
    wordOf (lineAt (image.file upper beyond).lines i) = value := by
  rw [← kindFolded,← (dataFolded _).2,row]
  exact wordRecord address beyond' word value

/-- What each line of the file holds. -/
theorem linesRead : image.Written (image.file upper beyond).lines := by
  have tail : ∀ j, image.records[NUM_BLOCKS + j]? =
      [record .extended (image.fields.get 0) (wordBytes image.securityAddr),
       record .block (image.fields.get 1) image.security.toList,
       record .extended (image.fields.get 2) (wordBytes image.checksumAddr),
       record .word (image.fields.get 3) (wordBytes image.programChecksum),
       record .endOfFile (image.fields.get 4) []][j]? := by
    intro j
    rw [Image.records,List.getElem?_append_right (by simp)]
    simp
  refine ⟨?_,fun k inside => ?_,?_,?_,?_,?_,?_⟩
  · have folded := congrArg List.length (linesFolded image upper beyond)
    rw [List.length_map] at folded
    simp [folded,Image.records]
  · obtain ⟨_,row⟩ := programRow image upper beyond k inside
    exact blockLine image upper beyond row
  · obtain ⟨_,row⟩ := lastRows image upper beyond (tail 0)
    exact wordLine image upper beyond (.inl rfl) row
  · obtain ⟨_,row⟩ := lastRows image upper beyond (tail 1)
    exact blockLine image upper beyond row
  · obtain ⟨_,row⟩ := lastRows image upper beyond (tail 2)
    exact wordLine image upper beyond (.inl rfl) row
  · obtain ⟨_,row⟩ := lastRows image upper beyond (tail 3)
    exact wordLine image upper beyond (.inr rfl) row
  · obtain ⟨beyond',row⟩ := lastRows image upper beyond (tail 4)
    rw [← kindFolded,row]
    exact endRecord (image.fields.get 4) beyond'

/-- Loading the text of an image gives the image back. -/
theorem loadEncoded (g : Globals) : load g (some (image.file upper beyond)) = (true,image.globals) :=
  writtenLoads (linesRead image upper beyond) g

end RoundTrip
end HsspProgrammer.HexImage
