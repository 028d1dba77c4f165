import HsspProgrammer.Respelling

/-! Lines that spell bytes in hexadecimal digits: what the parser makes of them, which
accepted lines are such, and what becomes of one that is changed in a single byte. -/
namespace HsspProgrammer.EncodedLine
open Ascii (Bytes hexByte hexBytes foldCase)
open Loader Records HexImage
open Numerals (toIntIff magnitudeChars)
open Respelling (Respelled recordRespelled)

/- The digits of some bytes, in any mixture of letter cases. -/
def Encodes (text bytes : Bytes) : Prop := text.map foldCase = hexBytes bytes

instance (text bytes : Bytes) : Decidable (Encodes text bytes) := inferInstanceAs (Decidable (_ = _))

section Sum

/- One byte of another value changes the sum. -/
theorem totalSet {bytes : Bytes} {j : Nat} (inside : j < bytes.length) (v : UInt8) :
    total (bytes.set j v) + bytes[j] = total bytes + v := by
  induction bytes generalizing j with
  | nil => simp at inside
  | cons first rest ih =>
    cases j with
    | zero =>
      rw [List.set_cons_zero,totalCons,totalCons,List.getElem_cons_zero]
      ac_rfl
    | succ j =>
      have later := ih (j := j) (by simpa using inside)
      rw [List.set_cons_succ,totalCons,totalCons,List.getElem_cons_succ,UInt8.add_assoc,later,UInt8.add_assoc]

theorem totalChanged {bytes : Bytes} {j : Nat} (inside : j < bytes.length) {v : UInt8} (other : v ≠ bytes[j]) :
    total (bytes.set j v) ≠ total bytes := by
  intro same
  have sums := totalSet inside v
  rw [same] at sums
  exact other ((UInt8.add_right_inj _).mp sums).symm

end Sum

section Folded
/- A line that spells bytes and may end in anything. -/
variable {text bytes : Bytes} (tail : Bytes) (beyond : Nat → UInt8)

theorem foldedLine (encodes : Encodes text bytes) : foldLine ⟨Ascii.colon :: text ++ tail,beyond⟩ =
    spelledLine bytes (tail.map foldCase) (fun i => foldCase (beyond i)) := by
  have first : foldCase Ascii.colon = Ascii.colon := by decide
  rw [foldLine,spelledLine,← encodes]
  simp [first]

theorem kindEncoded {size hi lo type : UInt8} {rest : Bytes} {k : Kind}
    (encodes : Encodes text (size :: hi :: lo :: type :: rest))
    (kind : recordKind ⟨Ascii.colon :: text ++ tail,beyond⟩ = some k) : kindOf size type = some k := by
  rw [← kindFolded,foldedLine tail beyond encodes] at kind
  exact kindSpelled _ _ kind

theorem recordEncoded {size hi lo type check : UInt8} {data : Bytes}
    (encodes : Encodes text (size :: hi :: lo :: type :: (data ++ [check]))) {k : Kind}
    (kind : kindOf size type = some k) (fits : data.length = size.toNat) :
    recordKind ⟨Ascii.colon :: text ++ tail,beyond⟩ =
      if total (size :: hi :: lo :: type :: (data ++ [check])) = 0 then some k else none := by
  rw [← kindFolded,foldedLine tail beyond encodes,recordSpelled _ _ kind fits]

end Folded

section Changed
/- A line that spells a header and at least a checksum, and may end in anything. -/
variable {g : Globals} {text bytes tail : Bytes} {beyond : Nat → UInt8}

theorem kindBytes (encodes : Encodes text bytes) (enough : 5 ≤ bytes.length) {k : Kind}
    (kind : recordKind ⟨Ascii.colon :: text ++ tail,beyond⟩ = some k) :
    bytes[0]? = some k.size ∧ bytes[3]? = some k.type ∧ (bytes.length = 5 + k.size.toNat → total bytes = 0) := by
  match bytes, enough with
  | size :: hi :: lo :: type :: next :: rest, _ =>
    have known := kindEncoded tail beyond encodes kind
    obtain ⟨rfl,rfl⟩ := kindOfSome known
    refine ⟨rfl,rfl,fun whole => ?_⟩
    have parts : next :: rest = (next :: rest).dropLast ++ [(next :: rest).getLast (by simp)] :=
      (List.dropLast_concat_getLast _).symm
    rw [parts] at encodes ⊢
    have fits : (next :: rest).dropLast.length = k.size.toNat := by
      rw [List.length_dropLast]
      simp only [List.length_cons] at whole ⊢
      omega
    rw [recordEncoded tail beyond encodes known fits] at kind
    by_contra odd
    rw [if_neg odd] at kind
    contradiction

/-- No state takes two kinds of record that share their size or their type. -/
theorem kindsApart {p : Progress} {k k' : Kind} (now : (advance p k).isSome) (also : (advance p k').isSome)
    (like : k.size = k'.size ∨ k.type = k'.type) : k = k' := by
  obtain ⟨blocks,security,checksum⟩ := p
  cases checksum <;> cases k <;> cases k' <;> simp_all [advance,Kind.size,Kind.type]

/- The line with other digits in the place of byte `j`. -/
def replaceByte (text : Bytes) (j : Nat) (pair : Bytes) : Bytes := text.take (2 * j) ++ pair ++ text.drop (2 * j + 2)

theorem replaceEncoded (encodes : Encodes text bytes) {j : Nat} (inside : j < bytes.length) {pair : Bytes} {v : UInt8}
    (other : Encodes pair [v]) : Encodes (replaceByte text j pair) (bytes.set j v) := by
  have whole : bytes.set j v = bytes.take j ++ ([v] ++ bytes.drop (j + 1)) := by
    rw [List.set_eq_take_append_cons_drop,if_pos inside]
    rfl
  have front := hexBytesTake bytes j [] (Nat.le_of_lt inside)
  have back := hexBytesDrop bytes (j + 1) [] inside
  rw [List.append_nil] at front
  rw [List.append_nil,List.append_nil,show 2 * (j + 1) = 2 * j + 2 by rfl] at back
  rw [Encodes,replaceByte,List.map_append,List.map_append,List.map_take,List.map_drop,encodes,other,front,back,whole,
    hexBytesAppend,hexBytesAppend,List.append_assoc]

/-- A record line changed in one byte is rejected in the state that took it. -/
theorem changedRejected (encodes : Encodes text bytes) (complete : bytes.length = 5 + (bytes.headD 0).toNat)
    (accepted : (hexDataProcess g ⟨Ascii.colon :: text ++ [Ascii.newline],beyond⟩).1 = true)
    {j : Nat} (inside : j < bytes.length) {v : UInt8} (changed : v ≠ bytes[j])
    {pair : Bytes} (other : Encodes pair [v]) (beyond' : Nat → UInt8) :
    (hexDataProcess g ⟨Ascii.colon :: replaceByte text j pair ++ [Ascii.newline],beyond'⟩).1 = false := by
  rw [← Bool.not_eq_true]
  intro also
  have replaced := replaceEncoded encodes inside other
  obtain ⟨k,kind,now⟩ := acceptedKind.mp accepted
  obtain ⟨k',kind',then'⟩ := acceptedKind.mp also
  obtain ⟨size,type,sum⟩ := kindBytes encodes (by omega) kind
  obtain ⟨size',type',sum'⟩ := kindBytes replaced (by rw [List.length_set]; omega) kind'
  rw [List.getElem?_set] at size' type'
  have first : bytes.headD 0 = k.size := by
    rw [List.headD_eq_head?_getD,List.head?_eq_getElem?,size,Option.getD_some]
  -- the size byte and the type byte are not both changed
  have like : k.size = k'.size ∨ k.type = k'.type := by
    by_cases start : j = 0
    · right
      rw [if_neg (by omega),type] at type'
      exact Option.some.inj type'
    · left
      rw [if_neg start,size] at size'
      exact Option.some.inj size'
  cases kindsApart now then' like
  rw [first] at complete
  have same := sum' (by rw [List.length_set,complete])
  exact totalChanged inside changed (same.trans (sum complete).symm)

/- All blocks and both addresses have been read, the end of the file may come. -/
def beforeEnd : Globals :=
  {noGlobals with blockCounter := 128, fSecurityAddrAcquired := true, fChecksumAddrAcquired := true}

/- The digits of the record that ends a file. -/
def endText : Bytes :=
  [0x30,0x30,0x30,0x30,0x30,0x30,0x30,0x31,0x46,0x46]

theorem changedRejectedEnd :
    (hexDataProcess beforeEnd ⟨Ascii.colon :: replaceByte endText 3 [0x30,0x34] ++ [Ascii.newline],fun _ => 0⟩).1 =
      false :=
  changedRejected (show Encodes endText [0,0,0,1,255] by decide) rfl
    (show (hexDataProcess beforeEnd ⟨Ascii.colon :: endText ++ [Ascii.newline],fun _ => 0⟩).1 = true by decide +kernel)
    (show 3 < 5 by decide) (show 4 ≠ 1 by decide) (by decide) _

end Changed

section WellFormed

def lineEnds : List Bytes := [[],[Ascii.newline],[Ascii.carriageReturn,Ascii.newline]]

/- A record in the form of the format: as many bytes as the first one asks for, in
hexadecimal digits, with a sum of zero, and nothing behind them. -/
def WellFormed (line : Line) : Prop :=
  ∃ text bytes, ∃ ending ∈ lineEnds, line.bytes = Ascii.colon :: text ++ ending ∧ Encodes text bytes ∧
    bytes.length = 5 + (bytes.headD 0).toNat ∧ total bytes = 0

/- All characters of a record with `n` data bytes are digits, and the line ends behind them. -/
def Spelled (line : Line) (n : Nat) : Prop :=
  ∃ text, ∃ ending ∈ lineEnds, line.bytes = Ascii.colon :: text ++ ending ∧ text.length = 2 * (5 + n) ∧
    ∀ ch ∈ text, (Ascii.hexDigit ch).isSome

theorem foldDigit (ch : UInt8) : (Ascii.hexDigit ch).isSome → ∃ n < 16, foldCase ch = Ascii.digit n :=
  Ascii.forallByte (p := fun ch => (Ascii.hexDigit ch).isSome → ∃ n < 16, foldCase ch = Ascii.digit n)
    (by decide +kernel) ch

theorem digitsEncode {text : Bytes} {n : Nat} (size : text.length = 2 * n)
    (digits : ∀ ch ∈ text, (Ascii.hexDigit ch).isSome) : ∃ bytes, bytes.length = n ∧ Encodes text bytes := by
  induction n generalizing text with
  | zero =>
    rw [List.eq_nil_of_length_eq_zero size]
    exact ⟨[],rfl,rfl⟩
  | succ n ih =>
    match text, size with
    | first :: second :: rest, size =>
      obtain ⟨hi,highDigit,high⟩ := foldDigit first (digits first (by simp))
      obtain ⟨lo,lowDigit,low⟩ := foldDigit second (digits second (by simp))
      have left : rest.length = 2 * n := by
        simp only [List.length_cons] at size
        omega
      obtain ⟨bytes,length,encodes⟩ := ih left (fun ch inside => digits ch (by simp [inside]))
      have value : (UInt8.ofNat (16 * hi + lo)).toNat = 16 * hi + lo := by
        rw [UInt8.toNat_ofNat']
        omega
      have pair : hexByte (UInt8.ofNat (16 * hi + lo)) = [Ascii.digit hi,Ascii.digit lo] := by
        rw [hexByte,value,show (16 * hi + lo) / 16 = hi by omega,show (16 * hi + lo) % 16 = lo by omega]
      refine ⟨UInt8.ofNat (16 * hi + lo) :: bytes,by simp [length],?_⟩
      change (first :: second :: rest).map foldCase = hexByte (UInt8.ofNat (16 * hi + lo)) ++ hexBytes bytes
      rw [List.map_cons,List.map_cons,high,low,encodes,pair]
      rfl

theorem encodedDigits {text bytes : Bytes} (encodes : Encodes text bytes) :
    text.length = 2 * bytes.length ∧ ∀ ch ∈ text, (Ascii.hexDigit ch).isSome := by
  have size := congrArg List.length encodes
  rw [List.length_map,Ascii.hexBytesLength] at size
  refine ⟨size,fun ch inside => ?_⟩
  have folded : foldCase ch ∈ hexBytes bytes := by
    rw [← encodes]
    exact List.mem_map_of_mem inside
  obtain ⟨n,small,same⟩ := Ascii.hexBytesChar folded
  rw [← Ascii.foldHexDigit,same,Ascii.hexDigitDigit n small]
  rfl

/- What a conversion takes besides digits: white space, a sign and the letter of a prefix. -/
def Tolerated (ch : UInt8) : Prop :=
  Ascii.isSpace ch = true ∨ ch = Ascii.plus ∨ ch = Ascii.minus ∨ ch = Ascii.x ∨ ch = Ascii.upperX

instance (ch : UInt8) : Decidable (Tolerated ch) := inferInstanceAs (Decidable (_ ∨ _))

theorem digitStrict (ch : UInt8) : (Ascii.hexDigit ch).isSome → ¬ Tolerated ch :=
  Ascii.forallByte (p := fun ch => (Ascii.hexDigit ch).isSome → ¬ Tolerated ch) (by decide +kernel) ch

/-- A text that converts holds digits and what is tolerated. -/
theorem toIntChars {str : Bytes} (converts : (toInt str).isSome) :
    ∀ ch ∈ str, Tolerated ch ∨ (Ascii.hexDigit ch).isSome := by
  obtain ⟨value,converts⟩ := Option.isSome_iff_exists.mp converts
  cases toIntIff.mp converts with
  | spelled before after signed magnitude =>
    intro ch inside
    rcases List.mem_append.mp inside with inside | inside
    · rcases List.mem_append.mp inside with inside | inside
      · exact .inl (.inl (before ch inside))
      rcases List.mem_append.mp inside with inside | inside
      · simp only [Numerals.signs,List.mem_cons,List.not_mem_nil,or_false] at signed
        rcases signed with rfl | rfl | rfl
        · contradiction
        · exact .inl (.inr (.inl (List.mem_singleton.mp inside)))
        · exact .inl (.inr (.inr (.inl (List.mem_singleton.mp inside))))
      · exact ((magnitudeChars magnitude).2 ch inside).symm.imp_left (fun is => .inr (.inr (.inr is)))
    · exact .inl (.inl (after ch inside))

theorem sliceChars {line : Line} {i n : Nat} (converts : (toInt (line.slice i n)).isSome) {j : Nat} (first : i ≤ j)
    (last : j < i + n) : Tolerated (line.get j) ∨ (Ascii.hexDigit (line.get j)).isSome := by
  refine toIntChars converts _ (List.mem_map.mpr ⟨j - i,List.mem_range.mpr (by omega),?_⟩)
  rw [Nat.add_sub_cancel' first]

/-- Every character of a record lies in a field that has been converted. -/
theorem recordChars {line : Line} {k : Kind} (kind : recordKind line = some k) {i : Nat}
    (inside : i < 2 * (5 + k.size.toNat)) :
    Tolerated (line.get (1 + i)) ∨ (Ascii.hexDigit (line.get (1 + i))).isSome := by
  unfold recordKind at kind
  split at kind
  · contradiction
  simp only [bind,Option.bind_eq_some_iff] at kind
  obtain ⟨size,first,address,second,type,third,k',known,sum,data,last⟩ := kind
  split at last
  swap
  · contradiction
  rename_i matching
  cases Option.some.inj last
  have header : i < 8 → Tolerated (line.get (1 + i)) ∨ (Ascii.hexDigit (line.get (1 + i))).isSome := by
    intro early
    by_cases one : i < 2
    · exact sliceChars (Option.isSome_of_eq_some first) (by omega) (by omega)
    by_cases two : i < 6
    · exact sliceChars (Option.isSome_of_eq_some second) (by omega) (by omega)
    exact sliceChars (Option.isSome_of_eq_some third) (by omega) (by omega)
  by_cases early : i < 8
  · exact header early
  by_cases late : 8 + 2 * k.size.toNat ≤ i
  · have converts : (toInt (line.slice (9 + k.size.toNat * 2) 2)).isSome := by
      unfold checksumMatches at matching
      split at matching
      · contradiction
      · rename_i converts
        exact Option.isSome_of_eq_some converts
    exact sliceChars converts (by omega) (by omega)
  · cases k with
    | block =>
      rw [payload] at data
      split at data
      · rename_i bytes
        have size : Kind.block.size.toNat = BLOCK_SIZE := rfl
        have converts := bytes ((i - 8) / 2) (by omega)
        rw [dataByte,Option.isSome_map] at converts
        exact sliceChars converts (by omega) (by omega)
      · contradiction
    | extended | word =>
      rw [payload] at data
      split at data
      · rename_i converts
        have size : (0x02 : UInt8).toNat = 2 := rfl
        simp only [Kind.size,size] at late
        exact sliceChars converts (by omega) (by omega)
      · contradiction
    | endOfFile => exact absurd (Nat.le_of_not_lt early) late

/- No character of a record with `n` data bytes is only tolerated, and the line ends
behind the record. -/
structure Strict (line : Line) (n : Nat) : Prop where
  chars : ∀ i < 2 * (5 + n), ¬ Tolerated (line.get (1 + i))
  ends : line.bytes.drop (1 + 2 * (5 + n)) ∈ lineEnds

theorem strictSpelled {line : Line} {k : Kind} (kind : recordKind line = some k)
    (strict : Strict line k.size.toNat) : Spelled line k.size.toNat := by
  have digits : ∀ i < 2 * (5 + k.size.toNat), (Ascii.hexDigit (line.get (1 + i))).isSome :=
    fun i inside => (recordChars kind inside).resolve_left (strict.chars i inside)
  have start : line.get 0 = Ascii.colon := by
    by_contra other
    rw [recordKind,if_pos other] at kind
    contradiction
  obtain ⟨chars,beyond⟩ := line
  cases chars with
  | nil => exact absurd (show (0 : UInt8) = Ascii.colon from start) (by decide)
  | cons first rest =>
    have colon : first = Ascii.colon := start
    -- the zero behind the line is no digit
    have long : 2 * (5 + k.size.toNat) ≤ rest.length := by
      by_contra short
      have stop := digits rest.length (by omega)
      have zero : (Line.mk (first :: rest) beyond).get (1 + rest.length) = 0 := by
        rw [Line.get,dif_neg (by simp [Nat.add_comm]),if_pos (by simp [Nat.add_comm])]
      rw [zero] at stop
      exact absurd stop (by decide)
    have ends := strict.ends
    rw [Nat.add_comm 1,List.drop_succ_cons] at ends
    refine ⟨rest.take (2 * (5 + k.size.toNat)),_,ends,?_,List.length_take_of_le long,?_⟩
    · rw [colon,List.cons_append,List.take_append_drop]
    · intro ch inside
      obtain ⟨i,small,rfl⟩ := List.getElem_of_mem inside
      rw [List.length_take] at small
      have here := digits i (by omega)
      have at_i : (Line.mk (first :: rest) beyond).get (1 + i) = rest[i] := by
        rw [Line.get,dif_pos (by rw [List.length_cons]; omega)]
        simp [Nat.add_comm 1]
      rwa [List.getElem_take,← at_i]

theorem spelledStrict {line : Line} {n : Nat} (spelled : Spelled line n) : Strict line n := by
  obtain ⟨text,ending,ends,same,size,digits⟩ := spelled
  obtain ⟨chars,beyond⟩ := line
  cases (show chars = _ from same)
  refine ⟨fun i inside => ?_,?_⟩
  · have here : (Line.mk (Ascii.colon :: text ++ ending) beyond).get (1 + i) = text[i] := by
      rw [Line.get,dif_pos (by simp; omega)]
      simp [Nat.add_comm 1,List.getElem_append_left (show i < text.length by omega)]
    rw [here]
    exact digitStrict _ (digits _ (List.getElem_mem _))
  · rwa [Nat.add_comm 1,List.cons_append,List.drop_succ_cons,← size,List.drop_left]

/- A blank, a sign or the letter of a prefix stands in a field of a record with `n` data
bytes, or something other than a line end behind the record. -/
def Loose (line : Line) (n : Nat) : Prop :=
  (∃ i < 2 * (5 + n), Tolerated (line.get (1 + i))) ∨ line.bytes.drop (1 + 2 * (5 + n)) ∉ lineEnds

theorem notLoose {line : Line} {n : Nat} : ¬ Loose line n ↔ Strict line n := by
  rw [Loose,not_or,Decidable.not_not,not_exists]
  constructor
  · exact fun ⟨chars,ends⟩ => ⟨fun i inside tolerated => chars i ⟨inside,tolerated⟩,ends⟩
  · exact fun strict => ⟨fun i loose => strict.chars i loose.1 loose.2,strict.ends⟩

/-- All that is accepted is well formed, apart from the lines that spell a record which may
come in this state, with anything but digits in its fields or anything behind it. -/
theorem wellFormedIff (g : Globals) (line : Line) :
    ((hexDataProcess g line).1 = true → WellFormed line) ↔
      ¬ ∃ k bytes, (advance (progress g) k).isSome ∧ Respelled line k bytes ∧ Loose line k.size.toNat := by
  rw [acceptedKind]
  constructor
  · rintro wellFormed ⟨k,bytes',now,respelled,loose⟩
    have kind := recordRespelled.mpr ⟨bytes',respelled⟩
    obtain ⟨text,bytes,ending,ends,same,encodes,complete,_⟩ := wellFormed ⟨k,kind,now⟩
    obtain ⟨chars,beyond⟩ := line
    cases (show chars = _ from same)
    obtain ⟨size,_,_⟩ := kindBytes encodes (by omega) kind
    obtain ⟨length,digits⟩ := encodedDigits encodes
    rw [List.headD_eq_head?_getD,List.head?_eq_getElem?,size,Option.getD_some] at complete
    exact notLoose.mpr (spelledStrict ⟨text,ending,ends,rfl,by rw [length,complete],digits⟩) loose
  · rintro fine ⟨k,kind,now⟩
    obtain ⟨bytes',respelled⟩ := recordRespelled.mp kind
    have strict := notLoose.mp (fun loose => fine ⟨k,bytes',now,respelled,loose⟩)
    obtain ⟨text,ending,ends,same,length,digits⟩ := strictSpelled kind strict
    obtain ⟨chars,beyond⟩ := line
    cases (show chars = _ from same)
    obtain ⟨bytes,complete,encodes⟩ := digitsEncode length digits
    obtain ⟨size,_,sum⟩ := kindBytes encodes (by omega) kind
    refine ⟨text,bytes,ending,ends,rfl,encodes,?_,sum complete⟩
    rw [List.headD_eq_head?_getD,List.head?_eq_getElem?,size,Option.getD_some,complete]

theorem wellFormedChars {line : Line} (wellFormed : WellFormed line) : ∀ ch ∈ line.bytes,
    ch = Ascii.colon ∨ (Ascii.hexDigit ch).isSome ∨ ch = Ascii.carriageReturn ∨ ch = Ascii.newline := by
  obtain ⟨text,bytes,ending,ends,same,encodes,_⟩ := wellFormed
  intro ch inside
  rw [same,List.cons_append,List.mem_cons,List.mem_append] at inside
  rcases inside with start | body | last
  · exact .inl start
  · exact .inr (.inl ((encodedDigits encodes).2 ch body))
  · simp only [lineEnds,List.mem_cons,List.not_mem_nil,or_false] at ends
    rcases ends with rfl | rfl | rfl <;> simp_all

/- Characters behind the checksum pass as well. -/
example : (hexDataProcess beforeEnd
    ⟨Ascii.colon :: endText ++ [Ascii.z,Ascii.z,Ascii.newline],fun _ => 0⟩).1 = true := by decide +kernel

/-- The end record with a blank in the place of one of its zeros. -/
theorem blankAccepted : ¬ ∀ g line, (hexDataProcess g line).1 = true → WellFormed line := by
  intro claim
  have wellFormed := claim beforeEnd
    ⟨Ascii.colon :: [0x30,0x30,0x30,0x30,0x30,0x30,0x20,0x31,0x46,0x46] ++ [Ascii.newline],fun _ => 0⟩
    (by decide +kernel)
  have blank := wellFormedChars wellFormed Ascii.space (by decide)
  exact absurd blank (by decide)

end WellFormed
end HsspProgrammer.EncodedLine
