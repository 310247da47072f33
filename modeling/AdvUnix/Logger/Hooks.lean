import AdvUnix.Logger.Libc

/-!
# `Logger.Hooks` — the interposed functions

The eighteen functions of `logger.cpp`. Pairs that differ in a name and in the real function they call are
one definition applied to both.
-/

namespace AdvUnix.Logger

variable {σ : Type} (L : Libc σ)

def chmod (path : Option String) (mode : Mode) : Hook σ Int := do
  initFd L
  let name ← resolve L path
  let modeStr ← octal mode
  let ret ← orFunc L .int (L.chmod path mode)
  print L ("[logger] chmod(\"" ++ name ++ "\", " ++ modeStr ++ ") = " ++ toString ret ++ "\n")
  pure ret

def chown (pathname : Option String) (owner group : BitVec 32) : Hook σ Int := do
  initFd L
  let name ← resolve L pathname
  let ret ← orFunc L .int (L.chown pathname owner group)
  print L ("[logger] chown(\"" ++ name ++ "\", " ++ toString owner.toNat ++ ", " ++
    toString group.toNat ++ ") = " ++ toString ret ++ "\n")
  pure ret

def close (fd : Int) : Hook σ Int := do
  initFd L
  keepLog L fd
  let path ← fdPath L fd
  let ret ← orFunc L .int (L.close fd)
  print L ("[logger] close(\"" ++ path ++ "\") = " ++ toString ret ++ "\n")
  pure ret

/-- The name is resolved once the file has been created. -/
def creatAs (name : String) (real : Option String → Mode → σ → Int × σ) (pathname : Option String)
    (mode : Mode) : Hook σ Int := do
  initFd L
  let ret ← orFunc L .int (real pathname mode)
  let path ← resolve L pathname
  let modeStr ← octal mode
  print L ("[logger] " ++ name ++ "(\"" ++ path ++ "\", " ++ modeStr ++ ") = " ++ toString ret ++ "\n")
  pure ret

def creat (pathname : Option String) (mode : Mode) : Hook σ Int :=
  creatAs L "creat" L.creat pathname mode

def creat64 (pathname : Option String) (mode : Mode) : Hook σ Int :=
  creatAs L "creat64" L.creat64 pathname mode

def fclose (stream : Ptr) : Hook σ Int := do
  initFd L
  let fd ← libc (L.fileno stream)
  keepLog L fd
  let path ← fdPath L fd
  let ret ← orFunc L .int (L.fclose stream)
  print L ("[logger] fclose(\"" ++ path ++ "\") = " ++ toString ret ++ "\n")
  pure ret

def fopenAs (name : String) (real : Option String → Option String → σ → Ptr × σ)
    (filename mode : Option String) : Hook σ Ptr := do
  initFd L
  let path ← resolve L filename
  let modeText ← string mode
  let ret ← orFunc L .ptr (real filename mode)
  print L ("[logger] " ++ name ++ "(\"" ++ path ++ "\", \"" ++ modeText ++ "\") = ")
  printPtr L ret
  print L "\n"
  pure ret

def fopen (filename mode : Option String) : Hook σ Ptr := fopenAs L "fopen" L.fopen filename mode

def fopen64 (filename mode : Option String) : Hook σ Ptr := fopenAs L "fopen64" L.fopen64 filename mode

def read (fd : Int) (count : Nat) : Hook σ Int := do
  initFd L
  let path ← fdPath L fd
  let result ← orFunc L (fun r => .int ((r.map fun data => (data.length : Int)).getD (-1))) (L.read fd count)
  let ret : Int := (result.map fun data => (data.length : Int)).getD (-1)
  let text ← preview (result.getD []) (if ret < 32 then ret else 32)
  print L ("[logger] read(\"" ++ path ++ "\", \"" ++ text ++ "\", " ++ toString count ++ ") = " ++
    toString ret ++ "\n")
  pure ret

def fread (size nmemb : Nat) (stream : Ptr) : Hook σ Nat := do
  initFd L
  let fd ← libc (L.fileno stream)
  let path ← fdPath L fd
  let items ← orFunc L (fun r => .size r.count) (L.fread size nmemb stream)
  let text ← preview items.data (itemBytes items.count size)
  print L ("[logger] fread(\"" ++ text ++ "\", " ++ toString size ++ ", " ++ toString nmemb ++ ", \"" ++
    path ++ "\") = " ++ toString items.count ++ "\n")
  pure items.count

def fwrite (data : List Byte) (size nmemb : Nat) (stream : Ptr) : Hook σ Nat := do
  initFd L
  let fd ← libc (L.fileno stream)
  let path ← fdPath L fd
  let ret ← orFunc L (fun r => .size r.val) (L.fwrite data size nmemb stream)
  let text ← preview data (itemBytes ret.val size)
  print L ("[logger] fwrite(\"" ++ text ++ "\", " ++ toString size ++ ", " ++ toString nmemb ++ ", \"" ++
    path ++ "\") = " ++ toString ret.val ++ "\n")
  pure ret.val

/-- `__OPEN_NEEDS_MODE`: `O_CREAT`, or all of `__O_TMPFILE` with `O_DIRECTORY`. -/
def needsMode (flags : BitVec 32) : Bool := flags &&& 0o100 ≠ 0 || flags &&& 0o20200000 = 0o20200000

/-- The mode is read from the arguments, and passed on, only when the flags need one. -/
def openAs (name : String) (real : Option String → BitVec 32 → Option Mode → σ → Int × σ)
    (pathname : Option String) (flags : BitVec 32) (mode : Mode) : Hook σ Int := do
  initFd L
  let path ← resolve L pathname
  let flagStr ← octal flags
  if needsMode flags then
    let modeStr ← octal mode
    let ret ← orFunc L .int (real pathname flags (some mode))
    print L ("[logger] " ++ name ++ "(\"" ++ path ++ "\", " ++ flagStr ++ ", " ++ modeStr ++ ") = " ++
      toString ret ++ "\n")
    pure ret
  else
    let ret ← orFunc L .int (real pathname flags none)
    let modeStr ← octal 0
    print L ("[logger] " ++ name ++ "(\"" ++ path ++ "\", " ++ flagStr ++ ", " ++ modeStr ++ ") = " ++
      toString ret ++ "\n")
    pure ret

/-- `open` -/
def openFile (pathname : Option String) (flags : BitVec 32) (mode : Mode) : Hook σ Int :=
  openAs L "open" L.openFile pathname flags mode

def open64 (pathname : Option String) (flags : BitVec 32) (mode : Mode) : Hook σ Int :=
  openAs L "open64" L.open64 pathname flags mode

def remove (pathname : Option String) : Hook σ Int := do
  initFd L
  let name ← resolve L pathname
  let ret ← orFunc L .int (L.remove pathname)
  print L ("[logger] remove(\"" ++ name ++ "\") = " ++ toString ret ++ "\n")
  pure ret

/-- The old name is resolved before the file is renamed, the new one after. -/
def rename (oldpath newpath : Option String) : Hook σ Int := do
  initFd L
  let old ← resolve L oldpath
  let ret ← orFunc L .int (L.rename oldpath newpath)
  let new ← resolve L newpath
  print L ("[logger] rename(\"" ++ old ++ "\", \"" ++ new ++ "\") = " ++ toString ret ++ "\n")
  pure ret

def tmpfileAs (name : String) (real : σ → Ptr × σ) : Hook σ Ptr := do
  initFd L
  let ret ← orFunc L .ptr real
  print L ("[logger] " ++ name ++ "() = ")
  printPtr L ret
  print L "\n"
  pure ret

def tmpfile : Hook σ Ptr := tmpfileAs L "tmpfile" L.tmpfile

def tmpfile64 : Hook σ Ptr := tmpfileAs L "tmpfile64" L.tmpfile64

def write (fd : Int) (data : List Byte) (count : Nat) : Hook σ Int := do
  initFd L
  let path ← fdPath L fd
  let ret ← orFunc L .int (L.write fd data count)
  let text ← preview data (if count < 32 then count else 32 : Nat)
  print L ("[logger] write(\"" ++ path ++ "\", \"" ++ text ++ "\", " ++ toString count ++ ") = " ++
    toString ret ++ "\n")
  pure ret

/-- A call of an interposed function. What `fwrite` is asked to write can be read. -/
inductive Call
  | chmod (path : Option String) (mode : Mode)
  | chown (pathname : Option String) (owner group : BitVec 32)
  | close (fd : Int)
  | creat (pathname : Option String) (mode : Mode)
  | creat64 (pathname : Option String) (mode : Mode)
  | fclose (stream : Ptr)
  | fopen (filename mode : Option String)
  | fopen64 (filename mode : Option String)
  | fread (size nmemb : Nat) (stream : Ptr)
  | fwrite (data : List Byte) (size nmemb : Nat) (stream : Ptr) (full : nmemb * size ≤ data.length)
  | openFile (pathname : Option String) (flags : BitVec 32) (mode : Mode)
  | open64 (pathname : Option String) (flags : BitVec 32) (mode : Mode)
  | read (fd : Int) (count : Nat)
  | remove (pathname : Option String)
  | rename (oldpath newpath : Option String)
  | tmpfile
  | tmpfile64
  | write (fd : Int) (data : List Byte) (count : Nat)

/-- **The function that the program reaches.** -/
def Call.run : Call → Hook σ Ret
  | .chmod path mode => .int <$> Logger.chmod L path mode
  | .chown pathname owner group => .int <$> Logger.chown L pathname owner group
  | .close fd => .int <$> Logger.close L fd
  | .creat pathname mode => .int <$> Logger.creat L pathname mode
  | .creat64 pathname mode => .int <$> Logger.creat64 L pathname mode
  | .fclose stream => .int <$> Logger.fclose L stream
  | .fopen filename mode => .ptr <$> Logger.fopen L filename mode
  | .fopen64 filename mode => .ptr <$> Logger.fopen64 L filename mode
  | .fread size nmemb stream => .size <$> Logger.fread L size nmemb stream
  | .fwrite data size nmemb stream _ => .size <$> Logger.fwrite L data size nmemb stream
  | .openFile pathname flags mode => .int <$> Logger.openFile L pathname flags mode
  | .open64 pathname flags mode => .int <$> Logger.open64 L pathname flags mode
  | .read fd count => .int <$> Logger.read L fd count
  | .remove pathname => .int <$> Logger.remove L pathname
  | .rename oldpath newpath => .int <$> Logger.rename L oldpath newpath
  | .tmpfile => .ptr <$> Logger.tmpfile L
  | .tmpfile64 => .ptr <$> Logger.tmpfile64 L
  | .write fd data count => .int <$> Logger.write L fd data count

end AdvUnix.Logger
