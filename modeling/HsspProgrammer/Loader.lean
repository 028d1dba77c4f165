import HsspProgrammer.Ascii

/-! The HEX file loader of the main window: `QString::toInt`, `hexDataProcess` and
`load` on the file-scope variables. Every store happens where the source makes it,
so a record that is rejected late leaves its earlier stores behind. -/
namespace HsspProgrammer.Loader
open Ascii (Bytes)

def NUM_BLOCKS : Nat := 128
def BLOCK_SIZE : Nat := 64

abbrev Block := Vector UInt8 BLOCK_SIZE

structure Globals where
  programData : Vector Block NUM_BLOCKS
  securityData : Block
  blockCounter : UInt8
  fSecurityAddrAcquired : Bool
  securityAddr : UInt16
  fChecksumAddrAcquired : Bool
  checksumAddr : UInt16
  programChecksum : UInt16

/- The file-scope variables when the program starts. -/
def noGlobals : Globals where
  programData := Vector.replicate _ (Vector.replicate _ 0)
  securityData := Vector.replicate _ 0
  blockCounter := 0
  fSecurityAddrAcquired := false
  securityAddr := 0
  fChecksumAddrAcquired := false
  checksumAddr := 0
  programChecksum := 0

/- A `QByteArray` as the parser indexes it: its bytes, the terminating zero, and
beyond that whatever the memory holds. -/
structure Line where
  bytes : Bytes
  beyond : Nat → UInt8

def Line.get (line : Line) (i : Nat) : UInt8 :=
  if inside : i < line.bytes.length then line.bytes[i]
  else if i = line.bytes.length then 0
  else line.beyond i

def Line.slice (line : Line) (i n : Nat) : Bytes :=
  (List.range n).map (fun j => line.get (i + j))

def trim (str : Bytes) : Bytes :=
  ((str.dropWhile Ascii.isSpace).reverse.dropWhile Ascii.isSpace).reverse

/- A `0x` or `0X` in front of the digits is passed over. -/
def unprefixed : Bytes → Bytes
  | first :: second :: rest =>
    if first = Ascii.zero ∧ (second = Ascii.x ∨ second = Ascii.upperX) then rest else first :: second :: rest
  | str => str

def magnitude (str : Bytes) : Option Int :=
  match unprefixed str with
  | [] => none
  | ch :: rest => (Ascii.digits 0 (ch :: rest)).map Int.ofNat

/- `QString::toInt(&ok, 16)`, `none` where it clears `ok`: white space around the
number is skipped, a sign is accepted and then the prefix of the base. -/
def toInt (str : Bytes) : Option Int :=
  match trim str with
  | [] => none
  | sign :: rest =>
    if sign = Ascii.minus then (magnitude rest).map (fun value => -value)
    else if sign = Ascii.plus then magnitude rest
    else magnitude (sign :: rest)

def dataByte (line : Line) (i : Nat) : Option UInt8 :=
  (toInt (line.slice (9 + i * 2) 2)).map UInt8.ofInt

/- The `for` loop of both data branches: `row` keeps the bytes stored before a
conversion fails, the running checksum is lost then. -/
def storeBytes (line : Line) : List Nat → Block → UInt8 → Option UInt8 × Block
  | [], row, checksum => (some checksum, row)
  | i :: rest, row, checksum =>
    match dataByte line i with
    | none => (none, row)
    | some v => storeBytes line rest (row.setIfInBounds i v) (checksum + v)

def addWord (checksum : UInt8) (word : UInt16) : UInt8 :=
  checksum + word.toUInt8 + (word >>> 8).toUInt8

/- The three two-byte records: `toInt` yields 0 on failure and the variable is
assigned before `ok` is tested. -/
def storeWord (line : Line) (checksum : UInt8) : Option UInt8 × UInt16 :=
  match toInt (line.slice 9 4) with
  | none => (none, 0)
  | some value => (some (addWord checksum (UInt16.ofInt value)), UInt16.ofInt value)

/- The chain of `if`s on size, type and state, in source order. `none` stands for
`return false`, otherwise the checksum reached so far is handed on. -/
def store (g : Globals) (line : Line) (dataSize dataType checksum : UInt8) :
    Option UInt8 × Globals :=
  if data : dataSize = 64 ∧ dataType = 0x00 ∧ g.blockCounter.toNat < NUM_BLOCKS ∧
      g.fSecurityAddrAcquired = false ∧ g.fChecksumAddrAcquired = false then
    let stored := storeBytes line (List.range BLOCK_SIZE) 
      (g.programData.get ⟨g.blockCounter.toNat,data.2.2.1⟩) checksum
    let programData := g.programData.set g.blockCounter.toNat stored.2 data.2.2.1
    match stored.1 with
    | none => (none, {g with programData := programData})
    | some sum => (some sum, {g with programData := programData, blockCounter := g.blockCounter + 1})
  else if dataSize = 64 ∧ dataType = 0x00 ∧ g.blockCounter.toNat = NUM_BLOCKS ∧
      g.fSecurityAddrAcquired = true ∧ g.fChecksumAddrAcquired = false then
    let stored := storeBytes line (List.range BLOCK_SIZE) g.securityData checksum
    (stored.1, {g with securityData := stored.2})
  else if dataSize = 0x02 ∧ dataType = 0x04 ∧ g.blockCounter.toNat = NUM_BLOCKS ∧
      g.fSecurityAddrAcquired = false ∧ g.fChecksumAddrAcquired = false then
    let stored := storeWord line checksum
    (stored.1, {g with securityAddr := stored.2, fSecurityAddrAcquired := stored.1.isSome})
  else if dataSize = 0x02 ∧ dataType = 0x04 ∧ g.blockCounter.toNat = NUM_BLOCKS ∧
      g.fSecurityAddrAcquired = true ∧ g.fChecksumAddrAcquired = false then
    let stored := storeWord line checksum
    (stored.1, {g with checksumAddr := stored.2, fChecksumAddrAcquired := stored.1.isSome})
  else if dataSize = 0x02 ∧ dataType = 0x00 ∧ g.blockCounter.toNat = NUM_BLOCKS ∧
      g.fSecurityAddrAcquired = true ∧ g.fChecksumAddrAcquired = true then
    let stored := storeWord line checksum
    (stored.1, {g with programChecksum := stored.2})
  else if dataSize = 0x00 ∧ dataType = 0x01 ∧ g.blockCounter.toNat = NUM_BLOCKS ∧
      g.fSecurityAddrAcquired = true ∧ g.fChecksumAddrAcquired = true then
    (some checksum, g)
  else (none, g)

def checksumMatches (line : Line) (dataSize checksum : UInt8) : Bool :=
  match toInt (line.slice (9 + dataSize.toNat * 2) 2) with
  | none => false
  | some value => UInt8.ofInt value == ~~~checksum + 0x01

def hexDataProcess (g : Globals) (line : Line) : Bool × Globals :=
  if line.get 0 ≠ Ascii.colon then (false, g)
  else match toInt (line.slice 1 2) with
  | none => (false, g)
  | some size => match toInt (line.slice 3 4) with
    | none => (false, g)
    | some address => match toInt (line.slice 7 2) with
      | none => (false, g)
      | some type =>
        let dataSize := UInt8.ofInt size
        let dataType := UInt8.ofInt type
        let stored := store g line dataSize dataType (addWord (dataSize + dataType) (UInt16.ofInt address))
        match stored.1 with
        | none => (false, stored.2)
        | some checksum => (checksumMatches line dataSize checksum, stored.2)

/- An existing file that can be opened. `beyond` is the memory behind each line. -/
structure File where
  content : Bytes
  beyond : Nat → Nat → UInt8

/- `QFile::Text` reads a carriage return before the line end as part of it. -/
def endLine (read : Bytes) : Bytes :=
  (if read.getLast? = some Ascii.carriageReturn then read.dropLast else read) ++ [Ascii.newline]

def readLines (read : Bytes) : Bytes → List Bytes
  | [] => if read = [] then [] else [read]
  | ch :: rest =>
    if ch = Ascii.newline then endLine read :: readLines [] rest
    else readLines (read ++ [ch]) rest

def File.lines (file : File) : List Line :=
  (readLines [] file.content).mapIdx (fun i bytes => ⟨bytes,file.beyond i⟩)

def processLines (g : Globals) : List Line → Bool × Globals
  | [] => (true, g)
  | line :: rest =>
    let r := hexDataProcess g line
    if r.1 then processLines r.2 rest else (false, r.2)

def load (g : Globals) : Option File → Bool × Globals
  | none => (false, g)
  | some file =>
    processLines
      { g with
        blockCounter := 0x00
        fSecurityAddrAcquired := false
        fChecksumAddrAcquired := false } file.lines

end HsspProgrammer.Loader
