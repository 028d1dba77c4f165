import HsspProgrammer.ChipOperations
import HsspProgrammer.MainLoop

/-! Blocks that are fed to the command loop reach the flash of the target bit by bit, are
compared with it, and have its checksum. -/
namespace HsspProgrammer.RoundTrip
open Ascii (Bytes)
open CommandLoop MainLoop
open Pins Issp Triples Clocking TargetChip ChipOperations

def answers (log : List Entry) : List Bytes :=
  log.filterMap (fun entry => match entry with
    | .replied answer => some answer
    | _ => none)

theorem answersAppend (front back : List Entry) : answers (front ++ back) = answers front ++ answers back :=
  List.filterMap_append

/- At the top of the command loop with a target that waits for the next frame. -/
structure Idle (flash : List Bytes) (checksum : UInt16) (b : Board (Bus Chip)) : Prop where
  top : b.firmware.pc = .cmdID
  flash : Holding flash b.firmware.target
  checksum : b.firmware.checksum = checksum

/- The `n` blocks up to the first one that differs are read and answered. -/
def Verified (flash data : List Bytes) (n : Nat) (said : List Bytes) : Prop :=
  (data = flash ∧ n = data.length ∧
    said = List.replicate (n - 1) (reply Ascii.d Ascii.plus) ++ [reply Ascii.d Ascii.zero]) ∨
  (∃ k, n = k + 1 ∧ data.take k = flash.take k ∧ data[k]? ≠ flash[k]? ∧
    said = List.replicate k (reply Ascii.d Ascii.plus) ++ [reply Ascii.d Ascii.one])

theorem verifiedCons {flash data : List Bytes} {n : Nat} {said : List Bytes} (some : data ≠ [])
    (verified : Verified flash data n said) (row : Bytes) :
    Verified (row :: flash) (row :: data) (n + 1) (reply Ascii.d Ascii.plus :: said) := by
  rcases verified with ⟨rfl,rfl,rfl⟩ | ⟨k,rfl,same,differs,rfl⟩
  · have positive : data.length - 1 + 1 = data.length := Nat.sub_add_cancel (List.length_pos_iff.mpr some)
    refine .inl ⟨rfl,rfl,?_⟩
    rw [Nat.add_sub_cancel,← positive,List.replicate_succ]
    rfl
  · exact .inr ⟨k + 1,rfl,by rw [List.take_succ_cons,List.take_succ_cons,same],by simpa using differs,rfl⟩

/-- Success is only said of equal data. -/
theorem verifiedZero {flash data : List Bytes} {n : Nat} {said : List Bytes} (verified : Verified flash data n said) :
    reply Ascii.d Ascii.zero ∈ said ↔ data = flash := by
  rcases verified with ⟨same,_,rfl⟩ | ⟨k,_,_,differs,rfl⟩
  · exact ⟨fun _ => same,fun _ => List.mem_append_right _ List.mem_cons_self⟩
  · constructor
    · intro inside
      rcases List.mem_append.mp inside with plus | one
      · exact absurd (List.eq_of_mem_replicate plus) (by decide)
      · exact absurd (List.mem_singleton.mp one) (by decide)
    · rintro rfl
      exact absurd rfl differs

theorem feedCommand {τ : Type} (T : Target τ) {b : Board τ} (top : b.firmware.pc = .cmdID) {cmdID : UInt8}
    (known : Ascii.a ≤ cmdID ∧ cmdID ≤ Ascii.z) {outcome : Outcome τ}
    (does : onCommand T {b.firmware with pc := .command cmdID Ascii.newline} cmdID = outcome) (rest : Bytes) :
    feed T b (cmdID :: Ascii.newline :: rest) =
      feed T ⟨outcome.firmware,b.log ++ [.command cmdID Ascii.newline] ++ doneEntries outcome⟩ rest := by
  have ran : execute T {b.firmware with pc := .command cmdID Ascii.newline} = some outcome := by
    rw [← does]
    exact if_pos ⟨known.1,known.2,rfl⟩
  rw [feedPair _ top,settleSome ran]

theorem verifyOutcome {τ : Type} {T : Target τ} (fw : Firmware τ) {k : Nat} {failed : Bool}
    (compared : (T.targetBlockVerify (UInt8.ofNat k) fw.targetDataOUT fw.target).1 = failed) :
    (onReady T fw (.verify k)).firmware.pc = nextBlock .verify k failed ∧
    (onReady T fw (.verify k)).firmware.checksum = fw.checksum ∧
    (onReady T fw (.verify k)).firmware.target = (T.targetBlockVerify (UInt8.ofNat k) fw.targetDataOUT fw.target).2 ∧
    answers (doneEntries (onReady T fw (.verify k))) = [reply Ascii.d (blockArg k failed)] := by
  simp [onReady,doneEntries,compared,reply,answers]

section Commands
variable {lows highs : Nat → Nat}

theorem passAnswers {k : Nat} {blocks : List Bytes} (some : blocks ≠ []) (many : k + blocks.length = BLOCKS_PER_BANK) :
    answers (passEntries k blocks) =
      List.replicate (blocks.length - 1) (reply Ascii.c Ascii.plus) ++ [reply Ascii.c Ascii.zero] := by
  induction blocks generalizing k with
  | nil => exact absurd rfl some
  | cons data rest ih =>
    have front : answers (passEntries k (data :: rest)) =
        reply Ascii.c (blockArg k false) :: answers (passEntries (k + 1) rest) := rfl
    rw [List.length_cons] at many
    cases rest with
    | nil =>
      have last : blockArg k false = Ascii.zero := by
        rw [List.length_nil] at many
        rw [blockArg,if_neg (by decide),if_neg (by omega)]
      rw [front,last]
      rfl
    | cons next rest =>
      have more : blockArg k false = Ascii.plus := by
        rw [List.length_cons] at many
        rw [blockArg,if_neg (by decide),if_pos (by omega)]
      rw [front,more,ih (by simp) (by omega)]
      rfl

/- The first rows of the flash are the blocks done so far. -/
def Written (done : List Bytes) (t : Bus Chip) : Prop :=
  ∃ flash, flash.length = BLOCKS_PER_BANK ∧ flash.take done.length = done ∧ Holding flash t

theorem writtenNext (inTime : InTime lows highs) {done : List Bytes} {data : Bytes} {t : Bus Chip}
    (written : Written done t) (size : data.length = TARGET_DATABUFF_LEN) (early : done.length < BLOCKS_PER_BANK) :
    ((isspTarget (chipWire lows highs)).targetBlockProgram (UInt8.ofNat done.length)
      ((isspTarget (chipWire lows highs)).targetLoad data t).2).1 = false ∧
    Written (done ++ [data]) ((isspTarget (chipWire lows highs)).targetBlockProgram (UInt8.ofNat done.length)
      ((isspTarget (chipWire lows highs)).targetLoad data t).2).2 := by
  obtain ⟨flash,all,front,holds⟩ := written
  obtain ⟨fine,next⟩ := programmed inTime flash size (UInt8.ofNat done.length) t holds
  rw [bindRun] at fine next
  have place : (UInt8.ofNat done.length).toNat = done.length := by
    simp only [BLOCKS_PER_BANK] at early
    rw [UInt8.toNat_ofNat']
    omega
  rw [place] at next
  refine ⟨fine,_,by rw [List.length_set,all],?_,next⟩
  rw [List.length_append,List.length_singleton,takeSet (by rwa [all]),front]

theorem holdingLength {flash : List Bytes} {t : Bus Chip} (holds : Holding flash t) : flash.length = BLOCKS_PER_BANK := by
  obtain ⟨c,⟨_,rfl⟩,_⟩ := holds
  rw [rows,List.length_map,Vector.length_toList]

theorem writtenWhole {blocks : List Bytes} {t : Bus Chip} (many : blocks.length = BLOCKS_PER_BANK)
    (written : Written blocks t) : Holding blocks t := by
  obtain ⟨flash,all,front,holds⟩ := written
  have same : flash = blocks := by rwa [List.take_of_length_le (by omega)] at front
  rwa [← same]

theorem holdingRows {flash : List Bytes} {t : Bus Chip} (holds : Holding flash t) : rows t.device = flash := by
  obtain ⟨c,⟨_,same⟩,at'⟩ := holds
  rw [at'.device,same]

/-- 'c' over a whole bank. -/
theorem programBank (inTime : InTime lows highs) {flash : List Bytes} {checksum : UInt16} {b : Board (Bus Chip)}
    (idle : Idle flash checksum b) {blocks : List Bytes} (many : blocks.length = BLOCKS_PER_BANK)
    (whole : ∀ data ∈ blocks, data.length = TARGET_DATABUFF_LEN) : ∃ b',
    feed (isspTarget (chipWire lows highs)) b ([Ascii.c,Ascii.newline] ++ blocks.flatten) = some b' ∧
    Idle blocks (sum blocks.flatten) b' ∧ answers b'.log = answers b.log ++
      (List.replicate (BLOCKS_PER_BANK - 1) (reply Ascii.c Ascii.plus) ++ [reply Ascii.c Ascii.zero]) := by
  have some : blocks ≠ [] := by
    rintro rfl
    contradiction
  have start : Written [] b.firmware.target := ⟨flash,holdingLength idle.flash,List.take_zero,idle.flash⟩
  obtain ⟨b',run,top,written,sums,log⟩ := programRun (T := isspTarget (chipWire lows highs)) anyData Written
    (fun done data t => writtenNext inTime)
    (b := ⟨{b.firmware with pc := .data (.program 0) [], checksum := 0x0000},b.log ++ [.command Ascii.c Ascii.newline]⟩)
    [] rfl start some (by rw [many]; rfl) whole
  refine ⟨b',?_,⟨top,writtenWhole many written,?_⟩,?_⟩
  · rw [List.cons_append,List.cons_append,List.nil_append,feedCommand _ idle.top (by decide) rfl]
    exact (congrArg (fun log => feed _ ⟨_,log⟩ _) (List.append_nil _)).trans (Transition.runFollows run)
  · rw [sums,UInt16.zero_add]
  · have read : answers [.command Ascii.c Ascii.newline] = [] := rfl
    rw [log,answersAppend,answersAppend,List.length_nil,passAnswers some (by rw [many]; rfl),many,read,List.append_nil]

/- One turn of the loop of 'd'. -/
theorem verifyBlock (inTime : InTime lows highs) {flash : List Bytes} {row data : Bytes} {b : Board (Bus Chip)} {k : Nat}
    (pc : b.firmware.pc = .data (.verify k) []) (holds : Holding flash b.firmware.target)
    (there : flash[k]? = some row) (size : data.length = TARGET_DATABUFF_LEN) : ∃ b',
    feed (isspTarget (chipWire lows highs)) b data = some b' ∧
    b'.firmware.pc = nextBlock .verify k (decide (row ≠ data)) ∧ Holding flash b'.firmware.target ∧
    b'.firmware.checksum = b.firmware.checksum ∧
    answers b'.log = answers b.log ++ [reply Ascii.d (blockArg k (decide (row ≠ data)))] := by
  have bytes : data ≠ [] := by
    rintro rfl
    contradiction
  have place : (UInt8.ofNat k).toNat = k := by
    have inside : k < flash.length := (List.getElem?_eq_some_iff.mp there).1
    rw [holdingLength holds,BLOCKS_PER_BANK] at inside
    rw [UInt8.toNat_ofNat']
    omega
  have read := dataRun (isspTarget (chipWire lows highs)) (fun b byte got => anyData b byte _ got) pc bytes
    (by simpa using size)
  obtain ⟨compared,kept⟩ := verified inTime flash size (by rwa [place]) b.firmware.target holds
  obtain ⟨later,sums,target,said⟩ := verifyOutcome (T := isspTarget (chipWire lows highs))
    {b.firmware with pc := .ready (.verify k), targetDataOUT := data} compared
  have ready : execute (isspTarget (chipWire lows highs)) {b.firmware with pc := .ready (.verify k), targetDataOUT := data} =
      some (onReady (isspTarget (chipWire lows highs))
        {b.firmware with pc := .ready (.verify k), targetDataOUT := data} (.verify k)) := rfl
  rw [List.nil_append,settleSome ready] at read
  generalize onReady (isspTarget (chipWire lows highs))
    {b.firmware with pc := .ready (.verify k), targetDataOUT := data} (.verify k) = outcome at *
  refine ⟨_,Transition.runFollows read,later,?_,sums,?_⟩
  · rw [target]
    exact kept
  · have entries : answers [.block data] = [] := rfl
    rw [answersAppend,answersAppend,entries,List.append_nil,said]

/-- The loop of 'd' from some block on; `n` blocks are read. -/
theorem verifyRun (inTime : InTime lows highs) {flash data : List Bytes} {b : Board (Bus Chip)} {k : Nat}
    (pc : b.firmware.pc = .data (.verify k) []) (holds : Holding flash b.firmware.target) (there : data ≠ [])
    (many : k + data.length = BLOCKS_PER_BANK) (whole : ∀ d ∈ data, d.length = TARGET_DATABUFF_LEN) : ∃ n said b',
    feed (isspTarget (chipWire lows highs)) b (data.take n).flatten = some b' ∧ b'.firmware.pc = .cmdID ∧
    Holding flash b'.firmware.target ∧ b'.firmware.checksum = b.firmware.checksum ∧
    answers b'.log = answers b.log ++ said ∧ Verified (flash.drop k) data n said := by
  induction data generalizing b k with
  | nil => exact absurd rfl there
  | cons now rest ih =>
    rw [List.length_cons] at many
    have inside : k < flash.length := by
      rw [holdingLength holds]
      omega
    obtain ⟨b',fed,pc',holds',sums,said⟩ := verifyBlock inTime pc holds (List.getElem?_eq_getElem inside)
      (whole now List.mem_cons_self)
    have one : ((now :: rest).take 1).flatten = now := by simp
    have front : flash.drop k = flash[k] :: flash.drop (k + 1) := List.drop_eq_getElem_cons inside
    by_cases differs : flash[k] = now
    · rw [decide_eq_false (not_not.mpr differs)] at pc' said
      cases rest with
      | nil =>
        have last : ¬ k + 1 < BLOCKS_PER_BANK := by
          rw [List.length_nil] at many
          omega
        have zero : blockArg k false = Ascii.zero := by
          rw [blockArg,if_neg (by decide),if_neg (by omega)]
        have ended : flash.drop (k + 1) = [] := List.drop_of_length_le (by rw [holdingLength holds]; omega)
        rw [nextBlock,if_neg (by decide),if_neg last] at pc'
        rw [zero] at said
        exact ⟨1,_,b',by rwa [one],pc',holds',sums,said,.inl ⟨by rw [front,ended,differs],rfl,rfl⟩⟩
      | cons next rest =>
        have more : k + 1 < BLOCKS_PER_BANK := by
          rw [List.length_cons] at many
          omega
        have plus : blockArg k false = Ascii.plus := by
          rw [blockArg,if_neg (by decide),if_pos (by omega)]
        rw [nextBlock,if_neg (by decide),if_pos more] at pc'
        obtain ⟨n,rest',b'',fed',pc'',holds'',sums',said',verified⟩ := ih pc' holds' (by simp) (by omega)
          (fun d inside => whole d (List.mem_cons_of_mem _ inside))
        refine ⟨n + 1,reply Ascii.d Ascii.plus :: rest',b'',?_,pc'',holds'',sums'.trans sums,?_,?_⟩
        · rw [List.take_succ_cons,List.flatten_cons,feedAppend,fed]
          exact fed'
        · rw [said',said,plus,List.append_assoc]
          rfl
        · rw [front,differs]
          exact verifiedCons (by simp) verified now
    · rw [decide_eq_true differs] at pc' said
      rw [nextBlock,if_pos rfl] at pc'
      rw [blockArg,if_pos rfl] at said
      refine ⟨1,_,b',by rwa [one],pc',holds',sums,said,.inr ⟨0,rfl,rfl,?_,rfl⟩⟩
      rw [front]
      exact fun same => differs (Option.some.inj same).symm

/-- 'd' over a bank that may differ. -/
theorem verifyBank (inTime : InTime lows highs) {flash : List Bytes} {checksum : UInt16} {b : Board (Bus Chip)}
    (idle : Idle flash checksum b) {data : List Bytes} (many : data.length = BLOCKS_PER_BANK)
    (whole : ∀ d ∈ data, d.length = TARGET_DATABUFF_LEN) : ∃ n said b',
    feed (isspTarget (chipWire lows highs)) b ([Ascii.d,Ascii.newline] ++ (data.take n).flatten) = some b' ∧
    Idle flash checksum b' ∧ answers b'.log = answers b.log ++ said ∧ Verified flash data n said := by
  have there : data ≠ [] := by
    rintro rfl
    contradiction
  obtain ⟨n,said,b',fed,top,holds,sums,spoken,verified⟩ := verifyRun inTime (k := 0)
    (b := ⟨{b.firmware with pc := .data (.verify 0) []},b.log ++ [.command Ascii.d Ascii.newline]⟩)
    rfl idle.flash there (by omega) whole
  refine ⟨n,said,b',?_,⟨top,holds,sums.trans idle.checksum⟩,?_,verified⟩
  · rw [List.cons_append,List.cons_append,List.nil_append,feedCommand _ idle.top (by decide) rfl]
    exact (congrArg (fun log => feed _ ⟨_,log⟩ _) (List.append_nil _)).trans fed
  · have read : answers [.command Ascii.d Ascii.newline] = [] := rfl
    rw [spoken,answersAppend,read,List.append_nil]

/-- 'g' compares the sum of the flash with the running checksum. -/
theorem checksumBank (inTime : InTime lows highs) {flash : List Bytes} {b : Board (Bus Chip)}
    (idle : Idle flash (sum flash.flatten) b) : ∃ b',
    feed (isspTarget (chipWire lows highs)) b [Ascii.g,Ascii.newline] = some b' ∧
    Idle flash (sum flash.flatten) b' ∧ answers b'.log = answers b.log ++ [reply Ascii.g Ascii.zero] := by
  obtain ⟨value,holds⟩ := summed inTime flash b.firmware.target idle.flash
  have does : ∃ target, Holding flash target ∧
      onCommand (isspTarget (chipWire lows highs)) {b.firmware with pc := .command Ascii.g Ascii.newline} Ascii.g =
        ⟨{b.firmware with pc := .cmdID, target := target},reply Ascii.g Ascii.zero,
          [.targetBankChecksumGet (some (sum flash.flatten))]⟩ := by
    refine ⟨_,holds,?_⟩
    have read : (isspTarget (chipWire lows highs)).targetBankChecksumGet b.firmware.target =
        targetBankChecksumGet (chipWire lows highs) 0x0000 b.firmware.target := rfl
    generalize targetBankChecksumGet (chipWire lows highs) 0x0000 b.firmware.target = r at *
    rw [onCommand,if_neg (by decide),if_neg (by decide),if_neg (by decide),if_neg (by decide),if_neg (by decide),
      if_neg (by decide),if_pos rfl]
    simp only [read,value,idle.checksum,ne_eq,not_true_eq_false,if_false]
  obtain ⟨target,holds,does⟩ := does
  refine ⟨_,feedCommand _ idle.top (by decide) does [],⟨rfl,holds,idle.checksum⟩,?_⟩
  have entries : answers [.command Ascii.g Ascii.newline] = [] := rfl
  rw [answersAppend,answersAppend,entries,List.append_nil]
  rfl

/-- Whatever the flash held before: the blocks are programmed, any blocks are compared
with them, and the checksum of the flash is theirs, before the comparison and after it. -/
theorem roundTrip (inTime : InTime lows highs) {flash : List Bytes} {checksum : UInt16} {b : Board (Bus Chip)}
    (idle : Idle flash checksum b) {blocks : List Bytes} (many : blocks.length = BLOCKS_PER_BANK)
    (whole : ∀ data ∈ blocks, data.length = TARGET_DATABUFF_LEN) : ∃ b',
    feed (isspTarget (chipWire lows highs)) b ([Ascii.c,Ascii.newline] ++ blocks.flatten) = some b' ∧
    answers b'.log = answers b.log ++
      (List.replicate (BLOCKS_PER_BANK - 1) (reply Ascii.c Ascii.plus) ++ [reply Ascii.c Ascii.zero]) ∧
    rows b'.firmware.target.device = blocks ∧
    (∃ g, feed (isspTarget (chipWire lows highs)) b' [Ascii.g,Ascii.newline] = some g ∧
      answers g.log = answers b'.log ++ [reply Ascii.g Ascii.zero]) ∧
    ∀ data : List Bytes, data.length = BLOCKS_PER_BANK → (∀ d ∈ data, d.length = TARGET_DATABUFF_LEN) → ∃ n said b'',
      feed (isspTarget (chipWire lows highs)) b' ([Ascii.d,Ascii.newline] ++ (data.take n).flatten) = some b'' ∧
      b''.firmware.pc = .cmdID ∧ answers b''.log = answers b'.log ++ said ∧ Verified blocks data n said ∧
      (reply Ascii.d Ascii.zero ∈ said ↔ data = blocks) ∧ rows b''.firmware.target.device = blocks ∧
      ∃ g, feed (isspTarget (chipWire lows highs)) b'' [Ascii.g,Ascii.newline] = some g ∧
        answers g.log = answers b''.log ++ [reply Ascii.g Ascii.zero] := by
  obtain ⟨b',fed,idle',said⟩ := programBank inTime idle many whole
  obtain ⟨g,summed',_,good⟩ := checksumBank inTime idle'
  refine ⟨b',fed,said,holdingRows idle'.flash,⟨g,summed',good⟩,fun data many' whole' => ?_⟩
  obtain ⟨n,said',b'',fed',idle'',spoken,verified⟩ := verifyBank inTime idle' many' whole'
  obtain ⟨g',summed'',_,good'⟩ := checksumBank inTime idle''
  exact ⟨n,said',b'',fed',idle''.top,spoken,verified,verifiedZero verified,holdingRows idle''.flash,g',summed'',good'⟩

/- At power-up with a chip that waits for a frame. -/
theorem powerUpIdle {c : Chip} (aligned : Aligned c) (checksum : UInt16) :
    Idle (rows c) checksum (powerUp checksum (boardInit c)) :=
  ⟨rfl,⟨c,⟨aligned,rfl⟩,⟨rfl,rfl,rfl,rfl,by simp [powerUp,boardInit]⟩⟩,rfl⟩

def freshChip : Chip :=
  ⟨Vector.replicate _ 0x00,Vector.replicate _ (Vector.replicate _ 0x00),0x00,0x0000,[],[],.frames,0⟩

theorem roundTripFresh : ∃ b,
    feed (isspTarget (chipWire (fun _ => 0) (fun _ => 3))) (powerUp 0x1234 (boardInit freshChip))
      ([Ascii.c,Ascii.newline] ++
        (List.replicate BLOCKS_PER_BANK (List.replicate TARGET_DATABUFF_LEN (0xff : UInt8))).flatten) = some b ∧
    rows b.firmware.target.device =
      List.replicate BLOCKS_PER_BANK (List.replicate TARGET_DATABUFF_LEN (0xff : UInt8)) := by
  have inTime : InTime (fun _ => 0) (fun _ => 3) := ⟨fun _ => Nat.zero_le _,fun _ => by decide⟩
  have many : (List.replicate BLOCKS_PER_BANK (List.replicate TARGET_DATABUFF_LEN (0xff : UInt8))).length =
      BLOCKS_PER_BANK := List.length_replicate
  obtain ⟨b,fed,_,stored,_⟩ := roundTrip inTime (powerUpIdle (c := freshChip) ⟨rfl,rfl⟩ 0x1234) many
    (fun data inside => by rw [List.eq_of_mem_replicate inside,List.length_replicate])
  exact ⟨b,fed,stored⟩

end Commands
end HsspProgrammer.RoundTrip
