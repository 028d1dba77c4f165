import HsspProgrammer.ChipOperations

/-! Sending a vector: which bits, how many clocks, which bytes of the array, and that
neither cutting it nor the way back changes anything. -/
namespace HsspProgrammer.VectorSending
open Ascii (Bytes)
open Pins Issp Triples Clocking
open ChipOperations (shifted shiftedByte receivedHeard)

variable {δ : Type} (W : Wire δ)

/- `vectorBits` with the indices that `vect` points to when it is read. -/
def vectorTraced (vect : Bytes) (index numBits : Nat) : Driver δ (List Nat) :=
  if 8 ≤ numBits then do
    byteSend W (vect.getD index 0x00) 8
    let later ← vectorTraced vect (index + 1) (numBits - 8)
    return index :: later
  else if 0 < numBits then do
    byteSend W (vect.getD index 0x00) numBits
    return [index]
  else return []
termination_by numBits

theorem tracedSame (vect : Bytes) (index numBits : Nat) (s : Bus δ) :
    (vectorTraced W vect index numBits s).2 = (vectorBits W (vect.drop index) numBits s).2 := by
  have here (index : Nat) : (vect.drop index).headD 0x00 = vect.getD index 0x00 := by
    rw [List.headD_eq_head?_getD,List.head?_drop,List.getD_eq_getElem?_getD]
  induction index, numBits using vectorTraced.induct generalizing s with
  | case1 index numBits many ih =>
    rw [vectorTraced,vectorBits,if_pos many,if_pos many,here,List.tail_drop,bindRun,bindRun,bindRun]
    exact ih _
  | case2 index numBits few some =>
    rw [vectorTraced,vectorBits,if_neg few,if_neg few,if_pos some,if_pos some,here,bindRun]
    rfl
  | case3 index numBits few none =>
    rw [vectorTraced,vectorBits,if_neg few,if_neg few,if_neg none,if_neg none]
    rfl

/-- Every byte up to the last one needed is read once. -/
theorem tracedIndices (vect : Bytes) (index numBits : Nat) (s : Bus δ) :
    (vectorTraced W vect index numBits s).1 = List.range' index ((numBits + 7) / 8) := by
  induction index, numBits using vectorTraced.induct generalizing s with
  | case1 index numBits many ih =>
    have more : (numBits + 7) / 8 = (numBits - 8 + 7) / 8 + 1 := by omega
    rw [vectorTraced,if_pos many,more,List.range'_succ,bindRun,bindRun,ih]
    rfl
  | case2 index numBits few some =>
    have last : (numBits + 7) / 8 = 1 := by omega
    rw [vectorTraced,if_neg few,if_pos some,last]
    rfl
  | case3 index numBits few none =>
    have nothing : (numBits + 7) / 8 = 0 := by omega
    rw [vectorTraced,if_neg few,if_neg none,nothing]
    rfl

theorem firstBitsSplit (vect : Bytes) {m n : Nat} (before : m ≤ n) (whole : 8 ∣ m) (fits : m ≤ 8 * vect.length) :
    firstBits vect m ++ firstBits (vect.drop (m / 8)) (n - m) = firstBits vect n := by
  obtain ⟨k,rfl⟩ := whole
  have size : ((vect.take k).flatMap (fun byte => binary 8 byte.toNat)).length = 8 * k := by
    rw [bytesLength,List.length_take]
    omega
  have rest : (vect.drop k).flatMap (fun byte => binary 8 byte.toNat) =
      (vect.flatMap (fun byte => binary 8 byte.toNat)).drop (8 * k) := by
    have cut : vect.flatMap (fun byte => binary 8 byte.toNat) = (vect.take k).flatMap (fun byte => binary 8 byte.toNat) ++
        (vect.drop k).flatMap (fun byte => binary 8 byte.toNat) := by
      rw [← List.flatMap_append,List.take_append_drop]
    rw [cut,List.drop_left' size]
  rw [Nat.mul_div_cancel_left k (by decide),firstBits,firstBits,firstBits,rest,← List.take_add,
    Nat.add_sub_cancel' before]

/- A vector has been sent: the levels at the falling edges, and the pins after it. -/
structure Sent (bits : List Bool) (s s' : Bus δ) : Prop where
  shown : Shown s s' (bits.map some)
  clock : s'.port.sclk = false
  released : s'.port.sdataMode = .input

theorem sentSince {bits : List Bool} {d : δ} {s s' : Bus δ} (low : s.port.sclk = false)
    (since : Since s none false (bits.map some) d s') : Sent bits s s' :=
  ⟨sinceShown low since,since.clock,drivenInput.mp since.drive⟩

/-- Vectors one after the other are on the wire like one. -/
theorem sentPieces {vect vect' : Bytes} {m n : Nat} (fits : m ≤ 8 * vect.length) (fits' : n ≤ 8 * vect'.length)
    {s : Bus δ} (low : s.port.sclk = false) :
    Sent (firstBits vect m ++ firstBits vect' n) s
      ((vectorSend W vect m >>= fun _ => vectorSend W vect' n) s).2 := by
  have both := following (vectorSendSince W vect m s.device) (vectorSendSince W vect' n _) s (sinceLow low)
  rw [List.nil_append,← List.map_append,bitsOfFirst vect fits,bitsOfFirst vect' fits'] at both
  exact sentSince low both

theorem byteHeard {δ' : Type} (W' : Wire δ') (t : Bus δ') (released : t.port.sdataMode = .input) :
    (byteReceive W' t).1 = shifted 0x00 (heard W' 8 t.port.sclk t.device) := by
  have here : Since t none t.port.sclk [] t.device t := drivenInput.mpr released ▸ sinceHere t
  rw [← receivedHeard]
  exact (receiveBitsSince W' 8 0x00 t.device t here).1

/-- Every vector and every number of bits it has: the bits at the falling edges, as many
clocks, the bytes read, the same in two pieces; and a byte that is sent and comes back. -/
theorem vectorSent (v : Bytes) (n : Nat) (fits : n ≤ 8 * v.length) (s : Bus δ) (low : s.port.sclk = false) :
    (firstBits v n).length = n ∧ Sent (firstBits v n) s (vectorSend W v n s).2 ∧
    ((vectorTraced W v 0 n (sdataPP W s).2).2 = (vectorBits W v n (sdataPP W s).2).2 ∧
      (vectorTraced W v 0 n (sdataPP W s).2).1 = List.range ((n + 7) / 8) ∧ (n + 7) / 8 ≤ v.length) ∧
    (∀ m ≤ n, 8 ∣ m → Sent (firstBits v n) s
      ((vectorSend W v m >>= fun _ => vectorSend W (v.drop (m / 8)) (n - m)) s).2) ∧
    (∀ b : UInt8, s.port.sdataMode = .pushPull → ∃ bits, Shown s (byteSend W b 8 s).2 (bits.map some) ∧
      ∀ {δ' : Type} (W' : Wire δ') (t : Bus δ'), t.port.sdataMode = .input →
        heard W' 8 t.port.sclk t.device = bits → (byteReceive W' t).1 = b) := by
  refine ⟨firstBitsLength v fits,?_,⟨?_,?_,by omega⟩,fun m before whole => ?_,fun b driven => ?_⟩
  · have sent := vectorSendSince W v n s.device s (sinceLow low)
    rw [List.nil_append,bitsOfFirst v fits] at sent
    exact sentSince low sent
  · rw [tracedSame,List.drop_zero]
  · rw [tracedIndices,List.range_eq_range']
  · have rest : n - m ≤ 8 * (v.drop (m / 8)).length := by
      rw [List.length_drop]
      omega
    rw [← firstBitsSplit v before whole (by omega)]
    exact sentPieces W (by omega) rest low
  · have level : s.port.driven = some s.port.sdata := if_pos driven
    obtain ⟨_,sent⟩ := byteSendSince W b 8 s.device s ⟨s.port.sdata,level ▸ sinceLow low⟩
    refine ⟨topBits b 8,sinceShown low sent,fun W' t released same => ?_⟩
    rw [byteHeard W' t released,same,shiftedByte]

theorem vectorSentInit : Sent (firstBits init1_v 396) (boardInit ())
    (vectorSend ⟨fun _ _ => (),fun _ => (false,())⟩ init1_v 396 (boardInit ())).2 :=
  (vectorSent ⟨fun _ _ => (),fun _ => (false,())⟩ init1_v 396 (by decide) (boardInit ()) rfl).2.1

end HsspProgrammer.VectorSending
