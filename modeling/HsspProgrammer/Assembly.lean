import HsspProgrammer.Marks
import HsspProgrammer.Refinement

/-! The whole programmer with the driver of the firmware in it: the host and the user as
in the composed system, the two lines, and the device with its interrupt and its main
thread. In any order of their steps it does what the composed system may do, so what
holds of that one holds here. -/
namespace HsspProgrammer.Assembly
open Ascii (Bytes)
open CommandLoop (Op Target)
open Conversation (bytesOf)
open Interrupts (Device mainTurn interruptScheduled mainTurns)
open Loader (Globals)
open MainLoop (opsOf opsDone opsRead)
open Marks
open Programmer (Answer Sent Signal Sys connected)
open Refinement (Matches matchesScheduled)
open Servicing (Memory stepService)
open Sessions (Undisturbed)
open Transition
open Usart (Sr Holds incoming kept transmissions arrivals takings)

/- Of `host` the queue and the firmware are not used. -/
structure Assembled (τ : Type) where
  host : Sys τ
  device : Device τ

inductive Action where
  | host (a : Programmer.Action)
  | interrupt (sr : Sr) (turns : List (UInt8 × Sr))
  | main

def ofHost : Programmer.Action → Bool
  | .arrive | .consume | .execute => false
  | _ => true

variable {τ : Type} {T : Target τ} {checksum : UInt16} {target : τ}

/- The bytes that leave the device in a step, and the operations it performs. -/
def leaves (d d' : Device τ) : Bytes := (transmissions d'.sdp.log).drop (transmissions d.sdp.log).length

def performs (d d' : Device τ) : List Op := opsOf (d'.log.drop d.log.length)

/- An interrupt takes in the bytes that are next on the line. -/
def step (T : Target τ) (c : Assembled τ) : Action → Option (Assembled τ)
  | .host a => if ofHost a then (Programmer.step T c.host a).map (fun s => {c with host := s}) else none
  | .interrupt sr turns =>
    let came := incoming c.device.sdp.rxmask sr turns
    if (c.host.port.take came.length).map Sent.byte = came then
      (Interrupts.interrupt c.device sr turns).map (fun d =>
        { host := { c.host with
            port := c.host.port.drop came.length
            replies := c.host.replies ++ (leaves c.device d).map (fun b => ⟨b,0⟩) }
          device := d })
    else none
  | .main =>
    (mainTurn T c.device).map (fun d =>
      {host := {c.host with log := c.host.log ++ (performs c.device d).map .performed}, device := d})

def start (ib ob : Memory) (checksum : UInt16) (image : Globals) (target : τ) : Assembled τ :=
  ⟨connected image target,Interrupts.start ib.val ob.val checksum target⟩

/- The composed system with the same uninitialised checksum. -/
def composed (checksum : UInt16) (image : Globals) (target : τ) : Sys τ :=
  {connected image target with firmware := (MainLoop.powerUp checksum target).firmware}

def content : Signal → Option Bytes
  | .message ba => some (bytesOf ba)
  | .timeout => none

/- The host is the same on both sides but for the stamps. Of the answers, the composed
system has those on the line already that are still in the queue of the device. -/
structure Related (c : Assembled τ) (s : Sys τ) : Prop where
  window : s.window = c.host.window
  slot : s.slot = c.host.slot
  written : s.written = c.host.written
  txBuf : s.m_txBuf = c.host.m_txBuf
  port : s.port = c.host.port
  online : s.online = c.host.online
  rxBuf : bytesOf s.m_rxBuf = bytesOf c.host.m_rxBuf
  signals : s.signals.map content = c.host.signals.map content
  replies : ∃ rest, bytesOf s.replies = bytesOf c.host.replies ++ rest ∧
    (c.device.sdp.state = .SD_READY → Matches c.device ⟨s.queue.map Sent.byte,s.firmware,rest⟩)
  marks : marks s.log = marks c.host.log

section Host
variable {c : Assembled τ} {s : Sys τ}

theorem emitMap {α β : Type} (f : α → β) (msg l : List α) :
    SerialThread.emitLoop (msg.map f) (l.map f) =
      ((SerialThread.emitLoop msg l).1.map (List.map f),(SerialThread.emitLoop msg l).2.map f) := by
  induction msg, l using SerialThread.emitLoop.induct with
  | case1 msg b0 b1 b2 b3 rest grown ih =>
    have grown' : msg.map f ++ [f b0,f b1,f b2,f b3] = grown.map f := by simp [grown]
    simp only [List.map_cons,SerialThread.emitLoop,grown',ih]
    rfl
  | case2 msg l few =>
    rcases l with _ | ⟨b0,_ | ⟨b1,_ | ⟨b2,_ | ⟨b3,rest⟩⟩⟩⟩
    · rfl
    · rfl
    · rfl
    · rfl
    · exact absurd rfl (few b0 b1 b2 b3 rest)

/-- What is received depends on the bytes only. -/
theorem receiveBytes {m m' l l' : List Answer} (buffered : bytesOf m = bytesOf m') (came : bytesOf l = bytesOf l') :
    (SerialThread.receive m [l]).1.map bytesOf = (SerialThread.receive m' [l']).1.map bytesOf ∧
    bytesOf (SerialThread.receive m [l]).2 = bytesOf (SerialThread.receive m' [l']).2 := by
  have one : ∀ m l : List Answer, SerialThread.receive (bytesOf m) [bytesOf l] =
      ((SerialThread.receive m [l]).1.map bytesOf,bytesOf (SerialThread.receive m [l]).2) := by
    intro m l
    have whole := emitMap Answer.byte [] (m ++ l)
    have bytes : bytesOf = List.map Answer.byte := rfl
    simpa [SerialThread.receiveFlat,bytes] using whole
  have both := one m l
  rw [buffered,came,one m' l'] at both
  exact ⟨(congrArg Prod.fst both).symm,(congrArg Prod.snd both).symm⟩

theorem reactRelated (related : Related c s) {entry entry' : Programmer.Event} (same : mark entry' = mark entry)
    (r : MainWindow.Reaction) :
    Related {c with host := Programmer.react c.host entry r} (Programmer.react s entry' r) := by
  obtain ⟨window,slot,written,txBuf,port,online,rxBuf,signals,replies,told⟩ := related
  refine ⟨rfl,?_,?_,txBuf,port,online,rxBuf,signals,replies,?_⟩
  · simp only [Programmer.react,written]
  · simp only [Programmer.react,written]
  · simp only [Programmer.react,marksAppend,marksCons,told,same]

/- The answers on the line are the first ones on both sides. -/
theorem repliesMore {l l' : List Answer} {rest : Bytes} (replies : bytesOf l = bytesOf l' ++ rest) {n : Nat}
    (few : n ≤ l'.length) : n ≤ l.length := by
  have size := congrArg List.length replies
  simp only [bytesOf,List.length_append,List.length_map] at size
  omega

theorem repliesCut {l l' : List Answer} {rest : Bytes} (replies : bytesOf l = bytesOf l' ++ rest) {n : Nat}
    (few : n ≤ l'.length) :
    bytesOf (l.take n) = bytesOf (l'.take n) ∧ bytesOf (l.drop n) = bytesOf (l'.drop n) ++ rest := by
  have few : n ≤ (bytesOf l').length := by rwa [bytesOf,List.length_map]
  constructor
  · calc bytesOf (l.take n) = (bytesOf l).take n := List.map_take
      _ = (bytesOf l').take n := by rw [replies,List.take_append_of_le_length few]
      _ = bytesOf (l'.take n) := List.map_take.symm
  · calc bytesOf (l.drop n) = (bytesOf l).drop n := List.map_drop
      _ = (bytesOf l').drop n ++ rest := by rw [replies,List.drop_append_of_le_length few]
      _ = bytesOf (l'.drop n) ++ rest := by rw [bytesOf,bytesOf,List.map_drop]

/-- A step of the host is one of the composed system. -/
theorem hostRelated (related : Related c s) {a : Programmer.Action} (own : ofHost a = true) {host : Sys τ}
    (now : Programmer.step T c.host a = some host) :
    ∃ s', Programmer.step T s a = some s' ∧ Related {c with host := host} s' := by
  obtain ⟨window,slot,written,txBuf,port,online,rxBuf,signals,⟨rest,replies,inside⟩,told⟩ := id related
  cases a with
  | arrive | consume | execute => contradiction
  | flash =>
    obtain ⟨able,now⟩ := Option.ite_none_right_eq_some.mp now
    cases now
    refine ⟨_,if_pos (by rwa [slot,window]),?_⟩
    rw [window,written]
    exact reactRelated related rfl _
  | fileOpen choice =>
    obtain ⟨able,now⟩ := Option.ite_none_right_eq_some.mp now
    cases now
    refine ⟨_,if_pos (by rwa [slot]),?_⟩
    rw [window]
    exact ⟨rfl,slot,written,txBuf,port,online,rxBuf,signals,⟨rest,replies,inside⟩,told⟩
  | deliver =>
    cases idle : c.host.slot with
    | cons ba more => simp [Programmer.step,Programmer.deliver,idle] at now
    | nil =>
      cases queued : c.host.signals with
      | nil => simp [Programmer.step,Programmer.deliver,idle,queued] at now
      | cons signal more =>
        simp only [Programmer.step,Programmer.deliver,idle,queued] at now
        rw [queued,List.map_cons] at signals
        obtain ⟨signal',more',queued',first,later⟩ := List.map_eq_cons_iff.mp signals
        have popped : Related {c with host := {c.host with signals := more}} {s with signals := more'} :=
          ⟨window,slot,written,txBuf,port,online,rxBuf,later,⟨rest,replies,inside⟩,told⟩
        simp only [Programmer.step,Programmer.deliver,slot,idle,queued',window]
        cases signal with
        | timeout =>
          cases signal' with
          | message ba => contradiction
          | timeout =>
            cases now
            exact ⟨_,rfl,rfl,rfl,written,txBuf,port,online,rxBuf,later,⟨rest,replies,inside⟩,told⟩
        | message ba =>
          cases signal' with
          | timeout => contradiction
          | message ba' =>
            cases now
            have same : ba'.map Answer.byte = ba.map Answer.byte := Option.some.inj first
            have acted : mark (.acted ba') = mark (.acted ba) := congrArg (some ∘ Mark.acted) same
            refine ⟨_,rfl,?_⟩
            rw [same]
            exact reactRelated popped acted _
  | slotWrite =>
    cases pending : c.host.slot with
    | nil => simp [Programmer.step,Programmer.slotWrite,pending] at now
    | cons ba more =>
      simp only [Programmer.step,Programmer.slotWrite,pending] at now
      cases now
      have now' : Programmer.step T s .slotWrite = some {s with slot := more, m_txBuf := s.m_txBuf ++ ba} := by
        rw [Programmer.step,Programmer.slotWrite,slot,pending]
      refine ⟨_,now',?_⟩
      rw [txBuf]
      exact ⟨window,rfl,written,rfl,port,online,rxBuf,signals,⟨rest,replies,inside⟩,told⟩
  | transmit n =>
    obtain ⟨able,now⟩ := Option.ite_none_right_eq_some.mp now
    cases now
    refine ⟨_,if_pos (by rwa [online,txBuf]),?_⟩
    rw [txBuf,port]
    exact ⟨window,slot,written,rfl,rfl,online,rxBuf,signals,⟨rest,replies,inside⟩,told⟩
  | burst n =>
    obtain ⟨⟨able,some',few⟩,now⟩ := Option.ite_none_right_eq_some.mp now
    cases now
    obtain ⟨front,back⟩ := repliesCut replies few
    obtain ⟨messages,buffered⟩ := receiveBytes rxBuf front
    refine ⟨_,if_pos ⟨online.trans able,some',repliesMore replies few⟩,?_⟩
    refine ⟨window,slot,written,txBuf,port,online,buffered,?_,⟨rest,back,inside⟩,told⟩
    have contents : ∀ out : List (List Answer), (out.map Signal.message).map content = (out.map bytesOf).map some :=
      fun out => by simp [content]
    rw [List.map_append,List.map_append,contents,contents,signals,messages]
  | connect =>
    obtain ⟨able,now⟩ := Option.ite_none_right_eq_some.mp now
    cases now
    refine ⟨_,if_pos (by rwa [slot,window]),?_⟩
    rw [window]
    exact ⟨rfl,slot,written,rfl,port,rfl,rfl,signals,⟨rest,replies,inside⟩,told⟩
  | disconnect n =>
    obtain ⟨able,now⟩ := Option.ite_none_right_eq_some.mp now
    cases now
    refine ⟨_,if_pos (by rwa [slot,window]),?_⟩
    rw [window,port]
    exact ⟨rfl,slot,written,txBuf,rfl,rfl,rxBuf,signals,⟨rest,replies,inside⟩,told⟩
  | writeTimeout n m =>
    obtain ⟨able,now⟩ := Option.ite_none_right_eq_some.mp now
    cases now
    refine ⟨_,if_pos (by rwa [online,txBuf]),?_⟩
    rw [txBuf,port]
    exact ⟨window,slot,written,rfl,rfl,rfl,rxBuf,by simp [signals],⟨rest,replies,inside⟩,told⟩
  | lose =>
    obtain ⟨⟨off,some'⟩,now⟩ := Option.ite_none_right_eq_some.mp now
    cases now
    have few : 1 ≤ c.host.replies.length := List.length_pos_of_ne_nil some'
    refine ⟨_,if_pos ⟨online.trans off,List.ne_nil_of_length_pos (repliesMore replies few)⟩,?_⟩
    exact ⟨window,slot,written,txBuf,port,online,rxBuf,signals,⟨rest,(repliesCut replies few).2,inside⟩,told⟩

end Host

/- A guard on what the host does, and on what it can see when it does it. -/
structure OnHost (g : Sys τ → Programmer.Action → Prop) : Prop where
  device : ∀ s a, ofHost a = false → g s a
  seen : ∀ c s a, Related c s → g c.host a → g s a

def Allowed (g : Sys τ → Programmer.Action → Prop) (c : Assembled τ) : Action → Prop
  | .host a => g c.host a
  | .interrupt _ _ | .main => True

section Device
variable {c c' : Assembled τ} {s : Sys τ} {g : Sys τ → Programmer.Action → Prop}

theorem arrivesRun (device : ∀ s a, ofHost a = false → g s a) (s : Sys τ) {front back : List Sent}
    (port : s.port = front ++ back) :
    ∃ queue, Run (Programmer.step T) g s (List.replicate front.length .arrive) {s with port := back, queue := queue} ∧
      queue.map Sent.byte = s.queue.map Sent.byte ++ kept (s.queue.map Sent.byte) (front.map Sent.byte) := by
  induction front generalizing s with
  | nil =>
    rw [List.nil_append] at port
    subst port
    exact ⟨s.queue,.nil s,by rw [List.map_nil,show kept (s.queue.map Sent.byte) [] = [] from List.take_nil,List.append_nil]⟩
  | cons b front ih =>
    generalize stored : (if s.queue.length < Usart.SERIAL_BUFFERS_SIZE then s.queue ++ [b] else s.queue) = queue
    have now : Programmer.step T s .arrive = some {s with port := front ++ back, queue := queue} := by
      simp only [Programmer.step,Programmer.arrive,port,List.cons_append,stored]
    obtain ⟨last,later,bytes⟩ := ih {s with port := front ++ back, queue := queue} rfl
    refine ⟨last,.cons (device _ _ rfl) now later,bytes.trans ?_⟩
    have one : queue.map Sent.byte = s.queue.map Sent.byte ++ kept (s.queue.map Sent.byte) [b.byte] := by
      rw [← stored]
      split
      · rename_i free
        rw [Usart.keptFree b.byte (by rw [List.length_map]; exact free),List.map_append]
        rfl
      · rename_i full
        rw [Usart.keptFull [b.byte] (by rw [List.length_map]; exact full),List.append_nil]
    rw [one,List.append_assoc,← Usart.keptAppend]
    rfl

/-- An interrupt lets the bytes arrive that it takes in. -/
theorem interruptRelated (device : ∀ s a, ofHost a = false → g s a) (sound : Interrupts.Sound T checksum target c.device)
    (related : Related c s) {sr : Sr} {turns : List (UInt8 × Sr)} (now : step T c (.interrupt sr turns) = some c') : ∃ s',
    Run (Programmer.step T) g s (List.replicate (incoming c.device.sdp.rxmask sr turns).length .arrive) s' ∧ Related c' s' := by
  obtain ⟨line,now⟩ := Option.ite_none_right_eq_some.mp now
  obtain ⟨d,ran,rfl⟩ := Option.map_eq_some_iff.mp now
  obtain ⟨i,o,ready,scheduled⟩ := stepService sound (a := .interrupt sr turns) ran
  obtain ⟨after,⟨_,serves⟩,firmware,bp,log⟩ := interruptScheduled scheduled ran
  obtain ⟨window,slot,written,txBuf,port,online,rxBuf,signals,⟨rest,replies,inside⟩,told⟩ := related
  obtain ⟨queue,fw,waiting⟩ := Refinement.Half.mk.inj (matchesScheduled (inside ready) scheduled)
  have front := Usart.sendableFront c.device.sdp.CR1 (Usart.lastSr sr turns) o
  have sent : leaves c.device d = Usart.sendable c.device.sdp.CR1 (Usart.lastSr sr turns) o := by
    rw [leaves,serves.transmitted,List.drop_left]
  rw [sent]
  generalize Usart.sendable c.device.sdp.CR1 (Usart.lastSr sr turns) o = gone at *
  generalize came : incoming c.device.sdp.rxmask sr turns = bytes at *
  have cut : s.port = c.host.port.take bytes.length ++ c.host.port.drop bytes.length :=
    port.trans (List.take_append_drop bytes.length _).symm
  have few : (c.host.port.take bytes.length).length = bytes.length :=
    (List.length_map Sent.byte).symm.trans (congrArg List.length line)
  obtain ⟨queue',run,arrived⟩ := arrivesRun (T := T) device s cut
  rw [few] at run
  refine ⟨_,run,window,slot,written,txBuf,rfl,online,rxBuf,signals,⟨o.drop gone.length ++ c.device.bp,?_,fun _ => ?_⟩,told⟩
  · rw [replies,waiting]
    have bytes : bytesOf (gone.map (fun b => Answer.mk b 0)) = gone := by simp [bytesOf,Function.comp_def]
    rw [show bytesOf (c.host.replies ++ gone.map (fun b => Answer.mk b 0)) = bytesOf c.host.replies ++ gone by
      rw [bytesOf,List.map_append,← bytesOf,← bytesOf,bytes],List.append_assoc,← List.append_assoc gone,← front]
  · refine ⟨_,_,after.holds,?_⟩
    simp only [arrived,line,queue,fw,firmware,bp]

/- A turn of the main thread that performs no operation. -/
theorem quietHost {d d' : Device τ} (quiet : performs d d' = []) (host : Sys τ) :
    {host with log := host.log ++ (performs d d').map .performed} = host := by
  rw [quiet,List.map_nil,List.append_nil]

/- The firmware of the composed system takes a byte that is in its queue, and its reads
leave no mark. -/
theorem consumeRelated {b : UInt8} {rest : Bytes} {fw : CommandLoop.Firmware τ} (queue : s.queue.map Sent.byte = b :: rest)
    (taken : CommandLoop.consume s.firmware b = some fw) : ∃ t, Programmer.step T s .consume = some t ∧
      t.queue.map Sent.byte = rest ∧ t.firmware = fw ∧ t.replies = s.replies ∧
      (t.window = s.window ∧ t.slot = s.slot ∧ t.written = s.written ∧ t.m_txBuf = s.m_txBuf ∧ t.port = s.port ∧
        t.online = s.online ∧ t.m_rxBuf = s.m_rxBuf ∧ t.signals = s.signals) ∧ marks t.log = marks s.log := by
  obtain ⟨q,more,found,byte,later⟩ := List.map_eq_cons_iff.mp queue
  subst byte
  obtain ⟨t,now⟩ : ∃ t, Programmer.consume s = some t := by
    unfold Programmer.consume
    simp only [found,taken]
    split <;> exact ⟨_,rfl⟩
  refine ⟨t,now,?_⟩
  obtain ⟨q',more',fw',_,events,found',taken',next⟩ := Conversation.consumeCases now
  rw [found] at found'
  obtain ⟨rfl,rfl⟩ := List.cons.inj found'
  cases Option.some.inj (taken.symm.trans taken')
  rcases next with ⟨_,_,rfl⟩ | ⟨kind,rfl⟩
  · exact ⟨later,rfl,rfl,⟨rfl,rfl,rfl,rfl,rfl,rfl,rfl,rfl⟩,rfl⟩
  · have silent : marks events = [] := by
      rcases kind with ⟨_,_,_,rfl,_⟩ | ⟨_,rfl,_⟩ <;> rfl
    refine ⟨later,rfl,rfl,⟨rfl,rfl,rfl,rfl,rfl,rfl,rfl,rfl⟩,?_⟩
    rw [marksAppend,silent,List.append_nil]

/- What a turn of the main thread is to the composed system. -/
def turnActions (T : Target τ) (d : Device τ) : List Programmer.Action :=
  if d.bp = [] then
    match CommandLoop.execute T d.firmware with
    | some _ => [.execute]
    | none => if d.firmware.pc = .halted ∨ (Usart.readTurn d.sdp Interrupts.Thread.main).1 = none then [] else [.consume]
  else []

theorem turnNothing {d : Device τ} (busy : d.bp ≠ []) : turnActions T d = [] := if_neg busy

theorem turnExecutes {d : Device τ} (done : d.bp = []) {outcome : CommandLoop.Outcome τ}
    (ran : CommandLoop.execute T d.firmware = some outcome) : turnActions T d = [.execute] := by
  rw [turnActions,if_pos done,ran]

theorem turnRests {d : Device τ} (done : d.bp = []) (reads : CommandLoop.execute T d.firmware = none)
    (rests : d.firmware.pc = .halted ∨ (Usart.readTurn d.sdp Interrupts.Thread.main).1 = none) : turnActions T d = [] := by
  rw [turnActions,if_pos done,reads]
  exact if_pos rests

theorem turnTakes {d : Device τ} (done : d.bp = []) (reads : CommandLoop.execute T d.firmware = none) {b : UInt8}
    {fw : CommandLoop.Firmware τ} (taken : CommandLoop.consume d.firmware b = some fw)
    (some : (Usart.readTurn d.sdp Interrupts.Thread.main).1 = some b) : turnActions T d = [.consume] := by
  have runs : d.firmware.pc ≠ .halted := by
    intro halted
    rw [CommandLoop.consume,halted] at taken
    contradiction
  rw [turnActions,if_pos done,reads]
  exact if_neg (by simp [runs,some])

/-- A turn of the main thread is a step of the firmware, or none. -/
theorem mainRelated (device : ∀ s a, ofHost a = false → g s a) (sound : Interrupts.Sound T checksum target c.device)
    (related : Related c s) (now : step T c .main = some c') :
    ∃ s', Run (Programmer.step T) g s (turnActions T c.device) s' ∧ Related c' s' := by
  obtain ⟨d,turned,rfl⟩ := Option.map_eq_some_iff.mp now
  obtain ⟨i,o,ready,scheduled⟩ := stepService sound (a := .main) turned
  obtain ⟨_,turn⟩ := mainTurns scheduled turned
  obtain ⟨window,slot,written,txBuf,port,online,rxBuf,signals,⟨rest,replies,inside⟩,told⟩ := related
  obtain ⟨queue,fw,waiting⟩ := Refinement.Half.mk.inj (matchesScheduled (inside ready) scheduled)
  have holds := scheduled.holds
  have same : d.log = c.device.log → performs c.device d = [] := fun log => by
    rw [performs,log,List.drop_length]
    rfl
  have stays : turnActions T c.device = [] → d.log = c.device.log →
      (d.sdp.state = .SD_READY → Matches d ⟨s.queue.map Sent.byte,s.firmware,rest⟩) →
      ∃ s', Run (Programmer.step T) g s (turnActions T c.device) s' ∧
        Related ⟨{c.host with log := c.host.log ++ (performs c.device d).map .performed},d⟩ s' := fun rests log matching => by
    rw [quietHost (same log),rests]
    exact ⟨s,.nil s,window,slot,written,txBuf,port,online,rxBuf,signals,⟨rest,replies,matching⟩,told⟩
  cases turn with
  | puts b bp more room next =>
    obtain ⟨_,holds',_⟩ := Usart.writeHolds holds Interrupts.Thread.main b room
    subst next
    refine stays (turnNothing (by rw [more]; simp)) rfl (fun _ => ⟨i,o ++ [b],holds',?_⟩)
    rw [queue,fw,waiting,more,List.append_assoc]
    rfl
  | full more full next =>
    subst next
    exact stays (turnNothing more) rfl
      (fun _ => ⟨i,o,(Usart.enqueueHolds holds Interrupts.Thread.main).2,by rw [queue,fw,waiting]⟩)
  | empty done reads runs nothing next =>
    subst next
    have sleeps : (Usart.readTurn c.device.sdp Interrupts.Thread.main).1 = none := by
      subst nothing
      rw [Usart.readSleeps holds Interrupts.Thread.main]
    exact stays (turnRests done reads (.inr sleeps)) rfl
      (fun _ => ⟨i,o,(Usart.enqueueHolds holds Interrupts.Thread.main).1,by rw [queue,fw,waiting]⟩)
  | stops done halted next =>
    subst next
    have reads : CommandLoop.execute T c.device.firmware = none := by rw [CommandLoop.execute,halted]
    exact stays (turnRests done reads (.inl halted)) rfl (fun service => by contradiction)
  | executes outcome done ran next =>
    have ops : performs c.device d = outcome.ops := by
      rw [performs,next]
      change opsOf ((c.device.log ++ MainLoop.doneEntries outcome).drop c.device.log.length) = _
      rw [List.drop_left,opsDone]
    rw [ops,turnExecutes done ran]
    subst next
    rw [← fw] at ran
    have executed : Programmer.step T s .execute = some { s with
        firmware := outcome.firmware
        replies := s.replies ++ outcome.reply.map (fun byte => ⟨byte,s.cause⟩)
        log := s.log ++ outcome.ops.map .performed } := by
      rw [Programmer.step,Programmer.execute,ran]
      rfl
    refine ⟨_,runSingle (device _ _ rfl) executed,?_⟩
    refine ⟨window,slot,written,txBuf,port,online,rxBuf,signals,⟨o ++ outcome.reply,?_,fun _ => ⟨i,o,holds,by rw [queue]⟩⟩,?_⟩
    · have bytes : bytesOf (outcome.reply.map (fun byte => Answer.mk byte s.cause)) = outcome.reply :=
        Conversation.repliedBytes _ _
      rw [bytesOf,List.map_append,← bytesOf,← bytesOf,bytes,replies,waiting,done,List.append_nil,List.append_assoc]
    · rw [marksAppend,marksAppend,told]
  | takes b rest' fw' done reads front taken next =>
    have ops : performs c.device d = [] := by
      rw [performs,next]
      change opsOf ((c.device.log ++ MainLoop.readEntries fw').drop c.device.log.length) = _
      rw [List.drop_left,opsRead]
    subst front
    obtain ⟨took,holds',_⟩ := Usart.readHolds holds Interrupts.Thread.main
    rw [quietHost ops,turnTakes done reads taken took]
    subst next
    rw [← fw] at taken
    obtain ⟨consumed,read,shown⟩ := consumeRelated queue taken
    refine ⟨_,runSingle (device _ _ rfl) read,?_⟩
    obtain ⟨queue',firmware',replies',same',told'⟩ := shown
    obtain ⟨window',slot',written',txBuf',port',online',rxBuf',signals'⟩ := same'
    refine ⟨window'.trans window,slot'.trans slot,written'.trans written,txBuf'.trans txBuf,port'.trans port,
      online'.trans online,rxBuf' ▸ rxBuf,signals' ▸ signals,⟨o ++ c.device.bp,?_,fun _ => ⟨_,_,holds',?_⟩⟩,told'.trans told⟩
    · rw [replies',replies,waiting]
    · rw [queue',firmware']

theorem stepRelated (onHost : OnHost g) (sound : Interrupts.Sound T checksum target c.device) (related : Related c s)
    {a : Action} (allowed : Allowed g c a) (now : step T c a = some c') :
    Interrupts.Sound T checksum target c'.device ∧ ∃ as s', Run (Programmer.step T) g s as s' ∧ Related c' s' := by
  cases a with
  | host a =>
    obtain ⟨own,now⟩ := Option.ite_none_right_eq_some.mp now
    obtain ⟨host,ran,rfl⟩ := Option.map_eq_some_iff.mp now
    obtain ⟨s',now',related'⟩ := hostRelated related own ran
    exact ⟨sound,_,s',runSingle (onHost.seen c s a related allowed) now',related'⟩
  | interrupt sr turns =>
    refine ⟨?_,_,interruptRelated onHost.device sound related now⟩
    obtain ⟨_,now⟩ := Option.ite_none_right_eq_some.mp now
    obtain ⟨d,ran,rfl⟩ := Option.map_eq_some_iff.mp now
    exact Interrupts.interruptSound sound ran
  | main =>
    refine ⟨?_,_,mainRelated onHost.device sound related now⟩
    obtain ⟨d,ran,rfl⟩ := Option.map_eq_some_iff.mp now
    exact Interrupts.mainSound sound ran

end Device

section Runs
variable {ib ob : Memory} {image : Globals} {c : Assembled τ} {g : Sys τ → Programmer.Action → Prop}

theorem startRelated (ib ob : Memory) (checksum : UInt16) (image : Globals) (target : τ) :
    Related (start ib ob checksum image target) (composed checksum image target) :=
  ⟨rfl,rfl,rfl,rfl,rfl,rfl,rfl,rfl,
    ⟨[],rfl,fun _ => ⟨[],[],Usart.startHolds ib.val ob.val ib.property ob.property Usart.default_config,rfl⟩⟩,rfl⟩

theorem runRelated (onHost : OnHost g) {as : List Action}
    (run : Run (step T) (Allowed g) (start ib ob checksum image target) as c) :
    ∃ bs s, Run (Programmer.step T) g (composed checksum image target) bs s ∧
      Interrupts.Sound T checksum target c.device ∧ Related c s :=
  runSimulated (fun (c : Assembled τ) s => Interrupts.Sound T checksum target c.device ∧ Related c s)
    (fun c a c' s both allowed now => by
      obtain ⟨sound,as,s',run',related⟩ := stepRelated onHost both.1 both.2 allowed now
      exact ⟨as,s',run',sound,related⟩) run
    ⟨Interrupts.startSound ib.val ob.val ib.property ob.property,startRelated ib ob checksum image target⟩

/-- Whatever the programmer does, in any order of the host, the interrupt and the main
thread, the composed system may do, and under the same guard. -/
theorem assembledRefines (onHost : OnHost g) {as : List Action}
    (run : Run (step T) (Allowed g) (start ib ob checksum image target) as c) :
    ∃ bs s, Run (Programmer.step T) g (composed checksum image target) bs s ∧ Related c s := by
  obtain ⟨bs,s,run',_,related⟩ := runRelated onHost run
  exact ⟨bs,s,run',related⟩

end Runs

theorem undisturbedOnHost : OnHost (Undisturbed (τ := τ)) where
  device := by
    intro s a away
    cases a with
    | arrive | consume | execute => trivial
    | _ => contradiction
  seen := by
    intro c s a related allowed
    cases a with
    | flash | fileOpen _ => exact (Marks.sessionOpenMarks related.marks).trans allowed
    | _ => exact allowed

instance (s : Sys τ) : (a : Programmer.Action) → Decidable (Undisturbed s a)
  | .flash | .fileOpen _ => inferInstanceAs (Decidable (_ = _))
  | .connect | .disconnect _ | .writeTimeout _ _ | .lose => .isFalse id
  | .deliver | .slotWrite | .transmit _ | .arrive | .consume | .execute | .burst _ => .isTrue trivial

instance (c : Assembled τ) : (a : Action) → Decidable (Allowed Undisturbed c a)
  | .host a => inferInstanceAs (Decidable (Undisturbed c.host a))
  | .interrupt _ _ | .main => .isTrue trivial

/- Flash is clicked, the device answers the first command and the window asks for the next. -/
def flashing : List Action :=
  [.host .flash,.host .slotWrite,.host (.transmit 2),
    .interrupt (Servicing.shows true false) [(Ascii.a,Servicing.shows true false),(Ascii.newline,Servicing.shows false false)]] ++
  List.replicate 7 .main ++ List.replicate 4 (.interrupt (Servicing.shows false true) []) ++
  [.host (.burst 4),.host .deliver]

def started : Assembled Unit := start Servicing.blank Servicing.blank 0 Loader.noGlobals ()

def flashed : Option (Assembled Unit) :=
  runAll (fun c a => if Allowed Undisturbed c a then step (CommandLoop.obliging 0) c a else none) started flashing

theorem flashedSome : flashed.map (fun c => c.host.written) =
    some [[Ascii.a,Ascii.newline],[Ascii.b,Ascii.newline]] := by decide +kernel

theorem flashedRun {c : Assembled Unit} (now : flashed = some c) :
    Run (step (CommandLoop.obliging 0)) (Allowed Undisturbed) started flashing c := runEvaluated now

theorem flashedRefined : ∃ c, flashed = some c ∧
    ∃ bs s, Run (Programmer.step (CommandLoop.obliging 0)) Undisturbed (composed 0 Loader.noGlobals ()) bs s ∧ Related c s := by
  obtain ⟨c,now,_⟩ := Option.map_eq_some_iff.mp flashedSome
  exact ⟨c,now,assembledRefines undisturbedOnHost (flashedRun now)⟩

end HsspProgrammer.Assembly
