import AdvUnix.Lib.Bytes

/-!
# `Elf.Loader` — the ELF reader of the debugger

`elfOpen`, `loadPhdr`, `loadShdr`, `loadStrtab` and `elfLoad` of `open_elf.cpp`, and the search for the
`.text` section that `load` of `hw4.cpp` makes afterwards. All counts, sizes and offsets come from the
file unchecked; what C++ leaves undefined when they are wrong is a `Fault` here, raised at the access
that commits it.
-/

namespace AdvUnix.Elf

open ByteStore

abbrev Byte := BitVec 8

/-! ## Files and allocation -/

/-- **The content of a file.** A file offset is a signed 64-bit number, so no file is longer. -/
structure Image where
  bytes : List Byte
  length_lt : bytes.length < 2 ^ 63

/-- An open stream: the content and the read position. -/
structure Stream where
  image : Image
  pos : Nat

/-- The accesses that have no defined result. -/
inductive Fault
  /-- The `int` product of two header fields overflows. -/
  | intOverflow
  /-- A field of section header `i` lies outside the bytes allocated for the headers. -/
  | shdrOutside (i : Nat)
  /-- The section-name table is dereferenced and there is none. -/
  | noStrtab
  /-- A byte of a section name lies outside its table. -/
  | nameOutside
  /-- `fread` stores bytes through the null pointer of a failed `calloc`. -/
  | nullWrite
  deriving DecidableEq, Repr

/-- The little-endian number in the `n` bytes of `buf` from `off` on. -/
def field (buf : List Byte) (off n : Nat) : Nat := leNat ((buf.drop off).take n)

/-- The bytes `fread` copies when asked for `size`. -/
def Stream.got (f : Stream) (size : Nat) : List Byte := (f.image.bytes.drop f.pos).take size

/-- `fseek(f, off, SEEK_SET)`: an offset that is negative as a `long` is refused and nothing moves; any other one is
    taken. -/
def Stream.seek (f : Stream) (off : Nat) : Stream :=
  if off < 2 ^ 63 then { f with pos := off } else f

/-- **What the loader gets of memory.** The buffer of the file header and the nodes of the string tables are not asked
    for here: these few bytes are taken to be there. -/
structure Memory where
  /-- The sizes that the allocator serves. -/
  calloc : Nat → Bool
  /-- Whether a read of so many bytes through the null pointer of a failed `calloc` fails with nothing stored, as a
      buffer that the kernel refuses (`EFAULT`) makes it; otherwise its first store ends the program. -/
  nullFails : Stream → Nat → Bool

/-- `calloc(1, n)`: zeroed bytes, or null when the allocator has none. -/
def callocBytes (mem : Memory) (n : Nat) : Option (List Byte) :=
  if mem.calloc n then some (List.replicate n 0) else none

/-- `fread(buf, size, 1, f)`: the bytes that are there are copied, also when they are too few. -/
def fread (mem : Memory) (f : Stream) (buf : Option (List Byte)) (size : Nat) :
    Except Fault (Option (List Byte) × Stream) :=
  let got := f.got size
  match buf with
  | some b => .ok (some (got ++ b.drop got.length), { f with pos := f.pos + got.length })
  | none => if got = [] ∨ mem.nullFails f size then .ok (none, f) else .error .nullWrite

/-- The `int` product of two `Elf64_Half` fields. -/
def mulInt (a b : Nat) : Except Fault Nat :=
  if a * b < 2 ^ 31 then .ok (a * b) else .error .intOverflow

/-! ## Headers -/

/-- The fields of `Elf64_Ehdr` that the debugger reads. -/
structure Ehdr where
  ident : List Byte
  entry : Nat
  phoff : Nat
  shoff : Nat
  phentsize : Nat
  phnum : Nat
  shentsize : Nat
  shnum : Nat
  shstrndx : Nat
  deriving DecidableEq, Repr

/-- `sizeof(Elf64_Ehdr)` and `sizeof(Elf64_Shdr)`. -/
def hdrSize : Nat := 64

def Ehdr.ofBytes (b : List Byte) : Ehdr where
  ident := b.take 16
  entry := field b 24 8
  phoff := field b 32 8
  shoff := field b 40 8
  phentsize := field b 54 2
  phnum := field b 56 2
  shentsize := field b 58 2
  shnum := field b 60 2
  shstrndx := field b 62 2

/-- A section header. -/
structure Shdr where
  shName : Nat
  shType : Nat
  shFlags : Nat
  shAddr : Nat
  shOffset : Nat
  shSize : Nat
  shLink : Nat
  shInfo : Nat
  shAddralign : Nat
  shEntsize : Nat
  deriving DecidableEq, Repr

def Shdr.ofBytes (b : List Byte) : Shdr where
  shName := field b 0 4
  shType := field b 4 4
  shFlags := field b 8 8
  shAddr := field b 16 8
  shOffset := field b 24 8
  shSize := field b 32 8
  shLink := field b 40 4
  shInfo := field b 44 4
  shAddralign := field b 48 8
  shEntsize := field b 56 8

/-- The global `text` before any program has been loaded. -/
def Shdr.zero : Shdr := Shdr.ofBytes []

/-- A node of the list of string tables. -/
structure Strtab where
  id : Nat
  size : Int
  data : Option (List Byte)
  deriving DecidableEq, Repr

/-- **The handle `elfhandle_t`.** `none` is the null pointer it is allocated with. -/
structure Handle where
  file : Option Stream
  phCnt : Nat
  shCnt : Nat
  shStridx : Nat
  entry : Nat
  ehdr : Ehdr
  phdr : Option (List Byte)
  shdr : Option (List Byte)
  strtab : List Strtab

/-- The zeroed handle of a fresh debugger. -/
def Handle.init : Handle where
  file := none
  phCnt := 0
  shCnt := 0
  shStridx := 0
  entry := 0
  ehdr := Ehdr.ofBytes []
  phdr := none
  shdr := none
  strtab := []

def elfmag : List Byte := [0x7f, 0x45, 0x4c, 0x46]

/-- `SHT_STRTAB`. -/
def shtStrtab : Nat := 3

/-- The header buffer that `elf_open` fills: zeroed, then overwritten by what the file has. -/
def ehdrBytes (image : Image) : List Byte :=
  image.bytes.take hdrSize ++ List.replicate (hdrSize - image.bytes.length) 0

def ehdrOf (image : Image) : Ehdr := Ehdr.ofBytes (ehdrBytes image)

/-! ## The loader -/

/-- Only the magic is checked. -/
def elfOpen (e : Handle) (image : Image) : Option Handle :=
  if (ehdrBytes image).take 4 = elfmag then
    let ehdr := ehdrOf image
    some { e with
      file := some ⟨image, (image.bytes.take hdrSize).length⟩
      ehdr := ehdr
      phCnt := ehdr.phnum
      shCnt := ehdr.shnum
      shStridx := ehdr.shstrndx
      entry := ehdr.entry }
  else none

/-- `load_phdr` and `load_shdr` read a table of `num` entries of `entsize` bytes at `off`. -/
def loadTable (mem : Memory) (f : Stream) (off entsize num : Nat) :
    Except Fault (Option (List Byte) × Stream) := do
  let size ← mulInt entsize num
  fread mem (f.seek off) (callocBytes mem size) size

def loadPhdr (mem : Memory) (e : Handle) (f : Stream) : Except Fault (Handle × Stream) :=
  if e.phCnt = 0 then .ok (e, f)
  else do
    let (phdr, f) ← loadTable mem f e.ehdr.phoff e.ehdr.phentsize e.ehdr.phnum
    .ok ({ e with phdr := phdr }, f)

def loadShdr (mem : Memory) (e : Handle) (f : Stream) : Except Fault (Handle × Stream) :=
  if e.shCnt = 0 then .ok (e, f)
  else do
    let (shdr, f) ← loadTable mem f e.ehdr.shoff e.ehdr.shentsize e.ehdr.shnum
    .ok ({ e with shdr := shdr }, f)

/-- `e->shdr[i]` read as `n` bytes at offset `off` of the header; headers are `hdrSize` apart whatever
    `e_shentsize` says. -/
def shField (shdr : List Byte) (i off n : Nat) : Except Fault Nat :=
  if hdrSize * i + off + n ≤ shdr.length then .ok (field shdr (hdrSize * i + off) n)
  else .error (.shdrOutside i)

/-- One turn of the loop of `load_strtab`. -/
def loadStrtabStep (mem : Memory) (shdr : List Byte) (acc : List Strtab × Stream) (i : Nat) :
    Except Fault (List Strtab × Stream) := do
  let ty ← shField shdr i 4 4
  if ty ≠ shtStrtab then .ok acc
  else
    let size ← shField shdr i 32 8
    let off ← shField shdr i 24 8
    let (data, f) ← fread mem (acc.2.seek off) (callocBytes mem size) size
    .ok (⟨i, Int.bmod size (2 ^ 32), data⟩ :: acc.1, f)

def loadStrtab (mem : Memory) (e : Handle) (f : Stream) : Except Fault (Handle × Stream) :=
  match e.shdr with
  | none => .ok ({ e with strtab := [] }, f)
  | some shdr => do
      let (strtab, f) ← (List.range e.shCnt).foldlM (loadStrtabStep mem shdr) ([], f)
      .ok ({ e with strtab := strtab }, f)

def elfLoad (mem : Memory) (e : Handle) : Except Fault Handle :=
  match e.file with
  | none => .ok e
  | some f => do
      let (e, f) ← loadPhdr mem e f
      let (e, f) ← loadShdr mem e f
      let (e, f) ← loadStrtab mem e f
      .ok { e with file := some f }

/-! ## The search for `.text` -/

/-- The bytes of the string `".text"`. -/
def dotText : List Byte := [0x2e, 0x74, 0x65, 0x78, 0x74]

/-- The byte of a table at `off`. -/
def nameByte (data : Option (List Byte)) (off : Nat) : Except Fault Byte :=
  match data.bind (·[off]?) with
  | some b => .ok b
  | none => .error .nameOutside

/-- `!strcmp(&data[off], lit)`: bytes are read up to the first one that differs from `lit` and its
    terminating zero. -/
def strcmpEq (data : Option (List Byte)) : Nat → List Byte → Except Fault Bool
  | off, [] => do
      let b ← nameByte data off
      .ok (b = 0)
  | off, c :: cs => do
      let b ← nameByte data off
      if b = c then strcmpEq data (off + 1) cs else .ok false

/-- The string table that the section names are looked up in. -/
def findTab (e : Handle) : Option Strtab := e.strtab.find? fun tab => tab.id = e.shStridx

/-- The turns of the search loop from header `i` on, `n` of them left. -/
def findText (shdr : List Byte) (tab : Option Strtab) : Nat → Nat → Except Fault (Option Shdr)
  | _, 0 => .ok none
  | i, n + 1 =>
      match tab with
      | none => .error .noStrtab
      | some t => do
          let name ← shField shdr i 0 4
          if ← strcmpEq t.data name dotText then
            -- `text = e->shdr[i]` copies the whole header
            if hdrSize * i + hdrSize ≤ shdr.length then
              .ok (some (Shdr.ofBytes ((shdr.drop (hdrSize * i)).take hdrSize)))
            else .error (.shdrOutside i)
          else findText shdr tab (i + 1) n

/-- The search of `load`; a null header table has no bytes to read. -/
def searchText (e : Handle) : Except Fault (Option Shdr) :=
  findText (e.shdr.getD []) (findTab e) 0 e.shCnt

/-- **`load` on a file it accepts**: the tables are read, then `.text` is looked up. The result is the
    handle and the header found, if there is one. -/
def load (mem : Memory) (e : Handle) : Except Fault (Handle × Option Shdr) := do
  let e ← elfLoad mem e
  let text ← searchText e
  .ok (e, text)

end AdvUnix.Elf
