import HsspProgrammer.Loader

/-! The texts that `QString::toInt` converts in base 16, as a grammar: white space, a sign,
the prefix of the base, digits and white space again. -/
namespace HsspProgrammer.Numerals
open Ascii (Bytes)
open Loader

def Blank (str : Bytes) : Prop := ∀ ch ∈ str, Ascii.isSpace ch = true

def signs : List (Bytes × Int) := [([],1),([Ascii.plus],1),([Ascii.minus],-1)]

def bases : List Bytes := [[],[Ascii.zero,Ascii.x],[Ascii.zero,Ascii.upperX]]

inductive Magnitude : Bytes → Nat → Prop where
  | spelled {base digits n} (based : base ∈ bases) (some' : digits ≠ []) (value : Ascii.digits 0 digits = some n) :
      Magnitude (base ++ digits) n

inductive Numeral : Bytes → Int → Prop where
  | spelled {lead core trail n} {sign : Bytes × Int} (before : Blank lead) (after : Blank trail) (signed : sign ∈ signs)
      (magnitude : Magnitude core n) : Numeral (lead ++ (sign.1 ++ core) ++ trail) (sign.2 * n)

theorem digitsOnly {value n : Nat} {str : Bytes} (read : Ascii.digits value str = some n) :
    ∀ ch ∈ str, (Ascii.hexDigit ch).isSome := by
  induction str generalizing value with
  | nil => simp
  | cons first rest ih =>
    obtain ⟨d,digit,later⟩ := Option.bind_eq_some_iff.mp read
    intro ch inside
    rcases List.mem_cons.mp inside with rfl | inside
    · rw [digit]
      rfl
    · exact ih later ch inside

/- Neither white space nor a sign. -/
theorem digitPlain (ch : UInt8) : (Ascii.hexDigit ch).isSome ∨ ch = Ascii.x ∨ ch = Ascii.upperX →
    Ascii.isSpace ch = false ∧ ch ≠ Ascii.plus ∧ ch ≠ Ascii.minus :=
  Ascii.forallByte (p := fun ch => (Ascii.hexDigit ch).isSome ∨ ch = Ascii.x ∨ ch = Ascii.upperX →
    Ascii.isSpace ch = false ∧ ch ≠ Ascii.plus ∧ ch ≠ Ascii.minus) (by decide +kernel) ch

theorem magnitudeChars {core : Bytes} {n : Nat} (magnitude : Magnitude core n) :
    core ≠ [] ∧ ∀ ch ∈ core, (Ascii.hexDigit ch).isSome ∨ ch = Ascii.x ∨ ch = Ascii.upperX := by
  cases magnitude with
  | spelled based some' value =>
    refine ⟨by simp [some'],fun ch inside => ?_⟩
    rcases List.mem_append.mp inside with inside | inside
    · simp only [bases,List.mem_cons,List.not_mem_nil,or_false] at based
      rcases based with rfl | rfl | rfl
      · contradiction
      · rcases List.mem_cons.mp inside with rfl | inside
        · exact .inl (by decide)
        · exact .inr (.inl (List.mem_singleton.mp inside))
      · rcases List.mem_cons.mp inside with rfl | inside
        · exact .inl (by decide)
        · exact .inr (.inr (List.mem_singleton.mp inside))
    · exact .inl (digitsOnly value ch inside)

theorem magnitudeIff {core : Bytes} {value : Int} : magnitude core = some value ↔ ∃ n : Nat, value = n ∧ Magnitude core n := by
  constructor
  · intro read
    obtain ⟨base,based,digits,parts,stripped⟩ : ∃ base ∈ bases, ∃ digits, core = base ++ digits ∧ unprefixed core = digits := by
      match core with
      | [] => exact ⟨[],by simp [bases],[],rfl,rfl⟩
      | [ch] => exact ⟨[],by simp [bases],[ch],rfl,rfl⟩
      | first :: second :: rest =>
        rw [unprefixed]
        split
        · rename_i is
          obtain ⟨rfl,rfl | rfl⟩ := is
          · exact ⟨[Ascii.zero,Ascii.x],by simp [bases],rest,rfl,rfl⟩
          · exact ⟨[Ascii.zero,Ascii.upperX],by simp [bases],rest,rfl,rfl⟩
        · exact ⟨[],by simp [bases],_,rfl,rfl⟩
    rw [magnitude,stripped] at read
    split at read
    · contradiction
    · rename_i ch rest
      obtain ⟨n,value',rfl⟩ := Option.map_eq_some_iff.mp read
      exact ⟨n,rfl,parts ▸ .spelled based (by simp) value'⟩
  · rintro ⟨n,rfl,⟨based,some',value⟩⟩
    rename_i base digits
    have stripped : unprefixed (base ++ digits) = digits := by
      simp only [bases,List.mem_cons,List.not_mem_nil,or_false] at based
      rcases based with rfl | rfl | rfl
      · match digits with
        | [] | [_] => rfl
        | first :: second :: rest =>
          have digit := digitsOnly value second (by simp)
          have other : ¬ (second = Ascii.x ∨ second = Ascii.upperX) := by
            rintro (rfl | rfl) <;> revert digit <;> decide
          rw [List.nil_append,unprefixed,if_neg (fun is => other is.2)]
      · rfl
      · rfl
    rw [magnitude,stripped]
    cases digits with
    | nil => exact absurd rfl some'
    | cons ch rest =>
      simp only [value]
      rfl

theorem trimParts (str : Bytes) : ∃ lead trail, Blank lead ∧ Blank trail ∧ str = lead ++ trim str ++ trail := by
  have front := List.takeWhile_append_dropWhile (p := Ascii.isSpace) (l := str)
  have back := List.takeWhile_append_dropWhile (p := Ascii.isSpace) (l := (str.dropWhile Ascii.isSpace).reverse)
  refine ⟨str.takeWhile Ascii.isSpace,((str.dropWhile Ascii.isSpace).reverse.takeWhile Ascii.isSpace).reverse,
    fun ch inside => List.all_eq_true.mp List.all_takeWhile ch inside,
    fun ch inside => List.all_eq_true.mp List.all_takeWhile ch (List.mem_reverse.mp inside),?_⟩
  rw [trim,List.append_assoc,← List.reverse_append,back,List.reverse_reverse,front]

theorem dropBlank {lead rest : Bytes} (blank : Blank lead) :
    (lead ++ rest).dropWhile Ascii.isSpace = rest.dropWhile Ascii.isSpace :=
  List.dropWhile_append_of_pos blank

theorem trimSpelled {lead core trail : Bytes} (before : Blank lead) (after : Blank trail)
    (plain : ∀ ch ∈ core, Ascii.isSpace ch = false) (some' : core ≠ []) : trim (lead ++ core ++ trail) = core := by
  have stop (str rest : Bytes) (first : str ≠ []) (plain : ∀ ch ∈ str, Ascii.isSpace ch = false) :
      (str ++ rest).dropWhile Ascii.isSpace = str ++ rest := by
    cases str with
    | nil => exact absurd rfl first
    | cons ch str =>
      rw [List.cons_append,List.dropWhile_cons_of_neg]
      simp [plain ch List.mem_cons_self]
  rw [trim,List.append_assoc,dropBlank before,stop _ _ some' plain,List.reverse_append,
    dropBlank (fun ch inside => after ch (List.mem_reverse.mp inside))]
  have last := stop core.reverse [] (by simpa using some') (fun ch inside => plain ch (List.mem_reverse.mp inside))
  rw [List.append_nil] at last
  rw [last,List.reverse_reverse]

/-- `toInt` converts exactly the texts of the grammar. -/
theorem toIntIff {str : Bytes} {value : Int} : toInt str = some value ↔ Numeral str value := by
  constructor
  · intro read
    obtain ⟨lead,trail,before,after,parts⟩ := trimParts str
    have spelled (sign : Bytes × Int) (signed : sign ∈ signs) (core : Bytes) {v : Int} (whole : trim str = sign.1 ++ core)
        (number : magnitude core = some v) : Numeral str (sign.2 * v) := by
      obtain ⟨n,rfl,magnitude⟩ := magnitudeIff.mp number
      rw [whole] at parts
      rw [parts]
      exact .spelled before after signed magnitude
    unfold toInt at read
    split at read
    · contradiction
    rename_i sign rest whole
    split at read
    · rename_i minus
      obtain ⟨v,number,rfl⟩ := Option.map_eq_some_iff.mp read
      have negated := spelled ([Ascii.minus],-1) (by simp [signs]) rest (by rw [whole,minus]; rfl) number
      rw [Int.neg_mul,Int.one_mul] at negated
      exact negated
    split at read
    · rename_i plus
      have same := spelled ([Ascii.plus],1) (by simp [signs]) rest (by rw [whole,plus]; rfl) read
      rw [Int.one_mul] at same
      exact same
    · have same := spelled ([],1) (by simp [signs]) (sign :: rest) whole read
      rw [Int.one_mul] at same
      exact same
  · rintro ⟨before,after,signed,spelled⟩
    rename_i lead core trail n sign
    obtain ⟨some',chars⟩ := magnitudeChars spelled
    have number : magnitude core = some (n : Int) := magnitudeIff.mpr ⟨n,rfl,spelled⟩
    have plain : ∀ ch ∈ core, Ascii.isSpace ch = false := fun ch inside => (digitPlain ch (chars ch inside)).1
    have whole {sign : Bytes} (plain' : ∀ ch ∈ sign, Ascii.isSpace ch = false) :
        trim (lead ++ (sign ++ core) ++ trail) = sign ++ core :=
      trimSpelled before after (fun ch inside => (List.mem_append.mp inside).elim (plain' ch) (plain ch)) (by simp [some'])
    simp only [signs,List.mem_cons,List.not_mem_nil,or_false] at signed
    rcases signed with rfl | rfl | rfl
    · rw [toInt,whole (by simp)]
      cases core with
      | nil => exact absurd rfl some'
      | cons ch rest =>
        obtain ⟨_,plus,minus⟩ := digitPlain ch (chars ch List.mem_cons_self)
        simp only [List.nil_append,plus,minus,if_false,number,Int.one_mul]
    · rw [toInt,whole (fun ch is => by rw [List.mem_singleton.mp is]; rfl)]
      simp [number]
    · rw [toInt,whole (fun ch is => by rw [List.mem_singleton.mp is]; rfl)]
      simp [number]

end HsspProgrammer.Numerals
