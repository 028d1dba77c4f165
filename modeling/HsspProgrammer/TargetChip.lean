import HsspProgrammer.Clocking
import HsspProgrammer.Frames

/-! A target as it is seen from the wires: it cuts the bits at the falling edges into
frames of 22, executes them, and answers at the sampled clocks. The start clock after a
vector and the forty zeros after a handshake are in no frame. -/
namespace HsspProgrammer.TargetChip
open Ascii (Bytes)
open CommandLoop (TARGET_DATABUFF_LEN BLOCKS_PER_BANK)
open Pins Issp Clocking Frames

abbrev Row := Vector UInt8 TARGET_DATABUFF_LEN

/- What a vector and the handshake after it are for. -/
inductive Job where
  | program
  | verify
  | checksum
  deriving DecidableEq, Repr

def Job.vector : Job → Bytes × Nat
  | .program => (program_block,num_bits_program_block)
  | .verify => (verify_setup_v,num_bits_verify_setup)
  | .checksum => (checksum_v,num_bits_checksum)

def FRAME_BITS : Nat := 22

def Job.frames (job : Job) : List (List Bool) :=
  Frames.frames FRAME_BITS ((job.vector.1.flatMap (fun byte => topBits byte 8)).take job.vector.2)

/- `left` of the forty zeros are still to come; a handshake has low samples first, then
high ones, then low ones. -/
inductive Phase where
  | frames
  | start (job : Job)
  | handshake (lows highs : Nat)
  | zeros (left : Nat)
  deriving DecidableEq, Repr

/- `bits` are those of the frame that is arriving, `recent` the frames since the last
handshake, the newest in front. -/
structure Chip where
  ram : Row
  flash : Vector Row BLOCKS_PER_BANK
  block : UInt8
  checksum : UInt16
  bits : List Bool
  recent : List (List Bool)
  phase : Phase
  shakes : Nat

def value (bits : List Bool) : Nat := bits.foldl (fun n bit => 2 * n + bit.toNat) 0

def writeStart : List Bool := [true,false,false,true,false]
def readStart : List Bool := [true,false,true,true,false]
def blockSelect : List Bool := [true,false,false,true,true,true,true,true,false,true,false]
def checksumHigh : List Bool := [true,false,true,true,true,true,true,true,false,false,true]
def checksumLow : List Bool := [true,false,true,true,true,true,true,true,false,false,false]
def frameEnd : List Bool := [true,true,true]

def addressOf (frame : List Bool) : Nat := value ((frame.drop 5).take 6)
def dataOf (frame : List Bool) : UInt8 := UInt8.ofNat (value ((frame.drop 11).take 8))

/- The two frames that write something here. -/
def Chip.execute (c : Chip) (frame : List Bool) : Chip :=
  if frame.take 5 = writeStart ∧ frame.drop 19 = frameEnd then
    {c with ram := c.ram.setIfInBounds (addressOf frame) (dataOf frame)}
  else if frame.take 11 = blockSelect ∧ frame.drop 19 = frameEnd then {c with block := dataOf frame}
  else c

def sumOf (flash : Vector Row BLOCKS_PER_BANK) : UInt16 := CommandLoop.sum (flash.toList.flatMap (·.toList))

def Chip.perform (c : Chip) : Job → Chip
  | .program => {c with flash := c.flash.setIfInBounds c.block.toNat c.ram}
  | .verify => {c with ram := (c.flash[c.block.toNat]?).getD c.ram}
  | .checksum => {c with checksum := sumOf c.flash}

def complete (recent : List (List Bool)) : Option Job :=
  [Job.program,Job.verify,Job.checksum].find? (fun job => job.frames.reverse.isPrefixOf recent)

def Chip.frameDone (c : Chip) (frame : List Bool) : Chip :=
  { c.execute frame with
    bits := []
    recent := frame :: c.recent
    phase := match complete (frame :: c.recent) with
      | some job => .start job
      | none => .frames }

/- The numbers of low and of high samples in each handshake, the first high one apart. -/
def Chip.fall (lows highs : Nat → Nat) (level : Option Bool) (c : Chip) : Chip :=
  match c.phase with
  | .frames =>
    let bits := c.bits ++ [level.getD false]
    if bits.length = FRAME_BITS then c.frameDone bits else {c with bits := bits}
  | .start job =>
    { c.perform job with
      recent := []
      phase := .handshake (lows c.shakes) (highs c.shakes + 1)
      shakes := c.shakes + 1 }
  | .handshake _ _ => {c with phase := .zeros 39}
  | .zeros left => {c with phase := if left ≤ 1 then .frames else .zeros (left - 1)}

/- The byte a read frame asks for, from its first eleven bits. -/
def Chip.asked (c : Chip) : Option UInt8 :=
  if c.bits.take 5 = readStart then some ((c.ram[addressOf c.bits]?).getD 0)
  else if c.bits.take 11 = checksumHigh then some (c.checksum >>> 8).toUInt8
  else if c.bits.take 11 = checksumLow then some c.checksum.toUInt8
  else none

/- The first of the eight bits is there after thirteen falling edges. -/
def Chip.answer (c : Chip) : Bool :=
  if 13 ≤ c.bits.length then (topBits (c.asked.getD 0) 8).getD (c.bits.length - 13) false else false

def Chip.sense (c : Chip) : Bool × Chip :=
  match c.phase with
  | .handshake (lows + 1) highs => (false,{c with phase := .handshake lows highs})
  | .handshake 0 (highs + 1) => (true,{c with phase := .handshake 0 highs})
  | .handshake 0 0 => (false,c)
  | .frames => (c.answer,c)
  | _ => (false,c)

def chipWire (lows highs : Nat → Nat) : Wire Chip := ⟨Chip.fall lows highs,Chip.sense⟩

/- Between two frames. -/
structure Aligned (c : Chip) : Prop where
  phase : c.phase = .frames
  bits : c.bits = []

/- The frame all three vectors end with. -/
def closing : List Bool :=
  [true,true,false,true,true,true,true,true,true,true,true,false,false,false,true,false,false,true,false,true,true,true]

section Frames
variable (lows highs : Nat → Nat) {c : Chip}

theorem fallFrames (phase : c.phase = .frames) (level : Option Bool) :
    (chipWire lows highs).fall level c =
      if (c.bits ++ [level.getD false]).length = FRAME_BITS then c.frameDone (c.bits ++ [level.getD false])
      else {c with bits := c.bits ++ [level.getD false]} := by
  cases c
  cases phase
  rfl

/- What has arrived of a frame does not matter when it is complete. -/
theorem executeBits (bits frame : List Bool) :
    ({c with bits := bits} : Chip).execute frame = {c.execute frame with bits := bits} := by
  unfold Chip.execute
  split
  · rfl
  · split
    · rfl
    · rfl

theorem frameDoneBits (bits frame : List Bool) : ({c with bits := bits} : Chip).frameDone frame = c.frameDone frame := by
  rw [Chip.frameDone,Chip.frameDone,executeBits]

theorem bitsSeen (phase : c.phase = .frames) (bits : List Bool) (few : (c.bits ++ bits).length < FRAME_BITS) :
    seen (chipWire lows highs) c bits = {c with bits := c.bits ++ bits} := by
  induction bits generalizing c with
  | nil => rw [List.append_nil]; rfl
  | cons bit rest ih =>
    have now : ¬ (c.bits ++ [bit]).length = FRAME_BITS := by
      simp only [List.length_append,List.length_cons,List.length_nil] at few ⊢
      omega
    have one : (chipWire lows highs).fall (some bit) c = {c with bits := c.bits ++ [bit]} := by
      rw [fallFrames lows highs phase,Option.getD_some,if_neg now]
    have later := ih (c := {c with bits := c.bits ++ [bit]}) phase (by simpa using few)
    rw [seen,List.foldl_cons,one,← seen,later,List.append_assoc]
    rfl

theorem frameSeen (phase : c.phase = .frames) (bits : List Bool) (some : bits ≠ [])
    (whole : (c.bits ++ bits).length = FRAME_BITS) :
    seen (chipWire lows highs) c bits = c.frameDone (c.bits ++ bits) := by
  have parts := List.dropLast_concat_getLast some
  have size := congrArg List.length parts
  rw [List.length_append,List.length_singleton] at size
  rw [List.length_append] at whole
  have front := bitsSeen lows highs phase bits.dropLast (by rw [List.length_append]; omega)
  rw [← parts,seenAppend,front]
  have full : ((c.bits ++ bits.dropLast) ++ [bits.getLast some]).length = FRAME_BITS := by
    simp only [List.length_append,List.length_singleton]
    omega
  have last : (chipWire lows highs).fall (Option.some (bits.getLast some)) {c with bits := c.bits ++ bits.dropLast} =
      c.frameDone (c.bits ++ bits.dropLast ++ [bits.getLast some]) := by
    rw [fallFrames (c := {c with bits := c.bits ++ bits.dropLast}) lows highs phase,Option.getD_some,if_pos full,
      frameDoneBits]
  rw [seen,List.foldl_cons,List.foldl_nil,last,List.append_assoc]

theorem closingLast (job : Job) : job.frames.reverse = closing :: job.frames.dropLast.reverse := by
  cases job <;> decide +kernel

theorem completeNone {frame : List Bool} (other : frame ≠ closing) (recent : List (List Bool)) :
    complete (frame :: recent) = none := by
  have none : ∀ job : Job, job.frames.reverse.isPrefixOf (frame :: recent) = false := by
    intro job
    rw [closingLast,List.isPrefixOf_cons_cons,beq_eq_false_iff_ne.mpr (Ne.symm other),Bool.false_and]
  simp [complete,none]

theorem framesApart : ∀ job job' : Job, job.frames.reverse.take 3 = job'.frames.reverse.take 3 → job = job' := by
  intro job job'
  cases job <;> cases job' <;> decide +kernel

theorem framesMany : ∀ job : Job, 3 ≤ job.frames.reverse.length := by
  intro job
  cases job <;> decide +kernel

theorem completeSome (job : Job) (recent : List (List Bool)) : complete (job.frames.reverse ++ recent) = some job := by
  have matches' : ∀ other : Job, other.frames.reverse.isPrefixOf (job.frames.reverse ++ recent) = decide (other = job) := by
    intro other
    rw [Bool.eq_iff_iff,List.isPrefixOf_iff_prefix,decide_eq_true_eq]
    constructor
    · rintro ⟨rest,same⟩
      have three := congrArg (List.take 3) same
      rw [List.take_append_of_le_length (framesMany other),List.take_append_of_le_length (framesMany job)] at three
      exact framesApart other job three
    · rintro rfl
      exact List.prefix_append _ _
  cases job <;> simp [complete,matches']

theorem frameDoneAligned {frame : List Bool} (other : frame ≠ closing) : Aligned (c.frameDone frame) := by
  refine ⟨?_,rfl⟩
  rw [Chip.frameDone,completeNone other]

/- Frames that write nothing. -/
theorem executeRam {frame : List Bool} (other : frame.take 5 ≠ writeStart) :
    (c.execute frame).ram = c.ram ∧ (c.execute frame).flash = c.flash ∧ (c.execute frame).checksum = c.checksum ∧
    (c.execute frame).shakes = c.shakes := by
  unfold Chip.execute
  rw [if_neg (fun both => other both.1)]
  split <;> exact ⟨rfl,rfl,rfl,rfl⟩

theorem executeNothing {frame : List Bool} (write : frame.take 5 ≠ writeStart) (select : frame.take 11 ≠ blockSelect) :
    c.execute frame = c := by
  rw [Chip.execute,if_neg (fun both => write both.1),if_neg (fun both => select both.1)]

/- A frame of a vector before its last. -/
structure Quiet (frame : List Bool) : Prop where
  size : frame.length = FRAME_BITS
  write : frame.take 5 ≠ writeStart
  other : frame ≠ closing

/- What frames that write no byte keep. -/
structure Kept (c c' : Chip) : Prop where
  ram : c'.ram = c.ram
  flash : c'.flash = c.flash
  checksum : c'.checksum = c.checksum
  shakes : c'.shakes = c.shakes

theorem keptTrans {c c' c'' : Chip} (first : Kept c c') (second : Kept c' c'') : Kept c c'' :=
  ⟨second.ram.trans first.ram,second.flash.trans first.flash,second.checksum.trans first.checksum,
    second.shakes.trans first.shakes⟩

theorem quietDone {frame : List Bool} (write : frame.take 5 ≠ writeStart) : Kept c (c.frameDone frame) := by
  obtain ⟨ram,flash,checksum,shakes⟩ := executeRam (c := c) write
  exact ⟨ram,flash,checksum,shakes⟩

theorem quietSeen (aligned : Aligned c) (frames : List (List Bool)) (quiet : ∀ frame ∈ frames, Quiet frame) :
    seen (chipWire lows highs) c frames.flatten = frames.foldl Chip.frameDone c ∧
    Aligned (frames.foldl Chip.frameDone c) ∧ Kept c (frames.foldl Chip.frameDone c) ∧
    (frames.foldl Chip.frameDone c).recent = frames.reverse ++ c.recent ∧
    ((∀ frame ∈ frames, frame.take 11 ≠ blockSelect) → (frames.foldl Chip.frameDone c).block = c.block) := by
  induction frames generalizing c with
  | nil => exact ⟨rfl,aligned,⟨rfl,rfl,rfl,rfl⟩,rfl,fun _ => rfl⟩
  | cons frame rest ih =>
    obtain ⟨size,write,other⟩ := quiet frame List.mem_cons_self
    have some : frame ≠ [] := by
      intro empty
      rw [empty] at size
      contradiction
    have now := frameSeen lows highs aligned.phase frame some (by rw [aligned.bits]; exact size)
    rw [aligned.bits,List.nil_append] at now
    obtain ⟨seen',aligned',kept,recent,block⟩ := ih (c := c.frameDone frame) (frameDoneAligned other)
      (fun frame inside => quiet frame (List.mem_cons_of_mem _ inside))
    rw [List.flatten_cons,seenAppend,now,List.foldl_cons]
    refine ⟨seen',aligned',keptTrans (quietDone write) kept,?_,fun none => ?_⟩
    · rw [recent,List.reverse_cons,List.append_assoc]
      rfl
    · rw [block (fun frame inside => none frame (List.mem_cons_of_mem _ inside))]
      have same := executeNothing (c := c) write (none frame List.mem_cons_self)
      rw [Chip.frameDone,same]

theorem jobQuiet : ∀ job : Job, ∀ frame ∈ job.frames.dropLast,
    frame.length = FRAME_BITS ∧ frame.take 5 ≠ writeStart ∧ frame ≠ closing := by
  intro job
  cases job <;> decide +kernel

theorem jobSelects : ∀ job : Job, job ≠ .checksum → ∀ frame ∈ job.frames.dropLast, frame.take 11 ≠ blockSelect := by
  intro job
  cases job <;> decide +kernel

theorem jobBits (job : Job) : bitsOf job.vector.1 job.vector.2 = job.frames.dropLast.flatten ++ closing := by
  rw [bitsOfTake]
  · cases job <;> decide +kernel
  · cases job <;> decide

/-- A vector leaves the chip at the start clock. -/
theorem jobSeen (aligned : Aligned c) (job : Job) : ∃ c',
    seen (chipWire lows highs) c (bitsOf job.vector.1 job.vector.2) = c' ∧ c'.phase = .start job ∧ c'.bits = [] ∧
    Kept c c' ∧ (job ≠ .checksum → c'.block = c.block) := by
  obtain ⟨front,aligned',kept,recent,block⟩ := quietSeen lows highs aligned job.frames.dropLast
    (fun frame inside => ⟨(jobQuiet job frame inside).1,(jobQuiet job frame inside).2.1,(jobQuiet job frame inside).2.2⟩)
  have last := frameSeen lows highs aligned'.phase closing (by decide) (by rw [aligned'.bits]; decide)
  rw [aligned'.bits,List.nil_append] at last
  refine ⟨_,by rw [jobBits,seenAppend,front,last],?_,rfl,keptTrans kept (quietDone (by decide)),fun known => ?_⟩
  · rw [Chip.frameDone,recent]
    have whole := completeSome job c.recent
    rw [closingLast,List.cons_append] at whole
    rw [whole]
  · rw [Chip.frameDone,executeNothing (by decide) (by decide)]
    exact block (jobSelects job known)

end Frames
end HsspProgrammer.TargetChip
